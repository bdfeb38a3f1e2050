import BindScript.Proofs.Parsing.Precedence
import BindScript.Proofs.Reserved.Beside

/-!
# Shorthands written out

In an object literal `{x}` is short for `{x: x}`, and so it is in a pattern. Tokens with shorthands are set beside
tokens where some of these are written out (`WritesOut`), inside of template holes as well. A shorthand comes right
after a brace or a comma and right before a comma or a brace. A list of arguments has such names, too: tokens alone do
not tell what a name is. So it is given which names are shorthands, by their places.

Two readings, one of the first tokens and one of the second, come to the same points (`Abreast`). The flag of a
point tells whether a name that is written out may be next, which is so after a brace or a comma only. What the second
parser gives mirrors what the first one gives (`Mirrors`), and where the first one fails, so does the second one,
unless the failure is final.
-/

namespace BindScript

/-- What a template literal calls for between its texts: the source of an expression and where it starts. -/
def TemplateChunk.hole? : TemplateChunk → Option (List Char × Position)
  | .text _ => none
  | .hole source start => some (source, start)

/-- The chunk without what its hole holds. -/
def TemplateChunk.emptied : TemplateChunk → TemplateChunk
  | .text value => .text value
  | .hole _ _ => .hole [] Position.start

namespace TokenKind

/-- The holes of a template; other tokens have none. -/
def holes : TokenKind → List (List Char × Position)
  | .template chunks => chunks.filterMap TemplateChunk.hole?
  | _ => []

/-- The kind without what its holes hold. -/
def emptied : TokenKind → TokenKind
  | .template chunks => .template (chunks.map TemplateChunk.emptied)
  | k => k

/-- The key of a property may come next. -/
def leadsKey : TokenKind → Bool
  | .punct .openBrace | .punct .comma => true
  | _ => false

/-- A property may end here. -/
def endsProperty : TokenKind → Bool
  | .punct .comma | .punct .closeBrace => true
  | _ => false

variable {k k' : TokenKind}

/-- Other than a template, a kind has nothing to be emptied of. -/
theorem eq_or_template_of_emptied (same : k'.emptied = k.emptied) : k' = k ∨ ∃ chunks chunks',
    k = .template chunks ∧ k' = .template chunks' ∧
      chunks'.map TemplateChunk.emptied = chunks.map TemplateChunk.emptied := by
  cases k with
  | template chunks =>
    cases k' with
    | template chunks' => exact .inr ⟨chunks, chunks', rfl, rfl, TokenKind.template.inj same⟩
    | _ => cases same
  | _ =>
    cases k'
    all_goals cases same
    all_goals exact .inl rfl

/-- What is the same for all templates is the same for kinds that differ in their holes only. -/
theorem agree_of_emptied {γ : Type} {f : TokenKind → γ} (same : k'.emptied = k.emptied)
    (templates : ∀ chunks chunks', f (.template chunks') = f (.template chunks)) : f k' = f k := by
  rcases eq_or_template_of_emptied same with rfl | ⟨chunks, chunks', rfl, rfl, -⟩
  · rfl
  · exact templates _ _

end TokenKind

/-- A failure that is not passed over where something else may be tried. -/
def ParseCause.isFinal : ParseCause → Bool
  | nestingTooDeep | unexpectedEnd => true
  | _ => false

namespace Parser

/-! ## Tokens -/

/-- The second tokens are the first ones, where some of the names at the given places have been written out: the name,
a colon, and the name again. The names stand where the keys of properties may, if the flag is set in front of the
first token. Holes of templates may differ in the same way. -/
inductive WritesOut (short : Position → Bool) : Bool → List Token → List Token → Prop
  | nil {key : Bool} : WritesOut short key [] []
  | cons {key : Bool} {t t' : Token} {ts ts' : List Token} (kind : t'.kind.emptied = t.kind.emptied)
    (line : t'.newlineBefore = t.newlineBefore)
    (splits : ∀ h ∈ t.kind.holes.zip t'.kind.holes,
      (tokenizeAt h.2.1 h.2.2).toBool = (tokenizeAt h.1.1 h.1.2).toBool)
    (holes : ∀ h ∈ t.kind.holes.zip t'.kind.holes, h.1 ≠ h.2 → ∀ us us', tokenizeAt h.1.1 h.1.2 = .ok us →
      tokenizeAt h.2.1 h.2.2 = .ok us' → WritesOut short false us us')
    (rest : WritesOut short t.kind.leadsKey ts ts') : WritesOut short key (t :: ts) (t' :: ts')
  | shorthand {t u t' p v : Token} {ts ts' : List Token} {name : String} (marked : short t.start = true)
    (ordinary : Ordinary name) (here : t.kind = .identifier name) (ends : u.kind.endsProperty = true)
    (key : t'.kind = .identifier name) (line : t'.newlineBefore = t.newlineBefore) (colon : p.kind = .punct .colon)
    (value : v.kind = .identifier name) (rest : WritesOut short false (u :: ts) ts') :
    WritesOut short true (t :: u :: ts) (t' :: p :: v :: ts')

theorem arrowAfterBrackets_identifier {t : Token} {ts : List Token} {depth : Nat} {name : String}
    (here : t.kind = .identifier name) : arrowAfterBrackets depth (t :: ts) = arrowAfterBrackets depth ts := by
  conv_lhs => unfold arrowAfterBrackets
  rw [here]

theorem arrowAfterBrackets_colon {t : Token} {ts : List Token} {depth : Nat} (here : t.kind = .punct .colon) :
    arrowAfterBrackets depth (t :: ts) = arrowAfterBrackets depth ts := by
  conv_lhs => unfold arrowAfterBrackets
  rw [here]

namespace WritesOut

variable {short : Position → Bool} {key : Bool} {ts ts' : List Token}

/-- What has no name to be written out at its start may stand anywhere. -/
theorem anywhere (written : WritesOut short false ts ts') : WritesOut short key ts ts' := by
  cases written with
  | nil => exact .nil
  | cons kind line splits holes rest => exact .cons kind line splits holes rest

/-- A token that stands in both. -/
theorem token {t t' : Token} (kind : t'.kind = t.kind) (line : t'.newlineBefore = t.newlineBefore)
    (rest : WritesOut short t.kind.leadsKey ts ts') : WritesOut short key (t :: ts) (t' :: ts') := by
  have same : ∀ h ∈ t.kind.holes.zip t'.kind.holes, h.1 = h.2 := by
    intro h mem
    rw [kind, List.zip_eq_zipWith, List.zipWith_self] at mem
    obtain ⟨_, -, rfl⟩ := List.mem_map.1 mem
    rfl
  exact .cons (congrArg _ kind) line (fun h mem => by rw [same h mem])
    (fun h mem differ => absurd (same h mem) differ) rest

theorem refl (ts : List Token) : WritesOut short key ts ts := by
  induction ts generalizing key with
  | nil => exact .nil
  | cons t ts ih => exact token rfl rfl ih

theorem length_le (written : WritesOut short key ts ts') : ts.length ≤ ts'.length := by
  induction written with
  | nil => exact Nat.le_refl _
  | cons _ _ _ _ _ _ ih => exact Nat.succ_le_succ ih
  | shorthand _ _ _ _ _ _ _ _ _ ih =>
    simp only [List.length_cons] at ih ⊢
    omega

/-- An arrow comes first in both, or in none. -/
theorem arrowFirst (written : WritesOut short key ts ts') : Parser.arrowFirst ts' = Parser.arrowFirst ts := by
  cases written with
  | nil => rfl
  | cons kind => exact TokenKind.agree_of_emptied (f := (·.isPunct .arrow)) kind fun _ _ => rfl
  | shorthand _ _ here _ key =>
    unfold Parser.arrowFirst
    dsimp only
    rw [here, key]

/-- A name and a colon neither open nor close anything. -/
theorem arrowAfterBrackets (written : WritesOut short key ts ts') (depth : Nat) :
    Parser.arrowAfterBrackets depth ts' = Parser.arrowAfterBrackets depth ts := by
  induction written generalizing depth with
  | nil => rfl
  | @cons key t t' ts ts' kind line splits holes rest _ ih =>
    unfold Parser.arrowAfterBrackets
    rcases TokenKind.eq_or_template_of_emptied kind with same | ⟨_, _, template, template', -⟩
    · rw [same]
      split
      -- At a closing bracket the first tokens are looked at, too.
      case h_4 | h_5 | h_6 =>
        show (if depth - 1 = 0 then Parser.arrowFirst ts' else Parser.arrowAfterBrackets (depth - 1) ts') =
          if depth - 1 = 0 then Parser.arrowFirst ts else Parser.arrowAfterBrackets (depth - 1) ts
        rw [ih, rest.arrowFirst]
      case h_7 => rfl
      all_goals exact ih _
    · rw [template, template']
      exact ih depth
  | @shorthand t u t' p v ts ts' name marked ordinary here ends key line colon value rest ih =>
    rw [arrowAfterBrackets_identifier key, arrowAfterBrackets_colon colon, arrowAfterBrackets_identifier value, ih,
      arrowAfterBrackets_identifier here]

/-- Arrow functions start at the same points. -/
theorem arrowAhead (written : WritesOut short false ts ts') : Parser.arrowAhead ts' = Parser.arrowAhead ts := by
  have whole := written.arrowAfterBrackets 0
  cases written with
  | nil => rfl
  | @cons _ t t' ts ts' kind line splits holes rest =>
    unfold Parser.arrowAhead
    dsimp only
    rcases TokenKind.eq_or_template_of_emptied kind with same | ⟨_, _, template, template', -⟩
    · rw [same]
      split
      · exact rest.arrowFirst
      · exact whole
      · rfl
    · rw [template, template']

end WritesOut

/-! ## Cursors -/

/-- The cursors of the two readings at the same point. If the flag is set, a name that is written out may be next. -/
structure Abreast (short : Position → Bool) (key : Bool) (c d : Cursor) : Prop where
  ahead : WritesOut short key c.rest d.rest
  blocks : d.blocks = c.blocks
  flag : d.noIn = c.noIn

/-- A shorthand is next in the first reading, and in the second one what it stands for. -/
structure AtShorthand (short : Position → Bool) (name : String) (c d : Cursor) : Prop where
  marked : short c.current.start = true
  ordinary : Ordinary name
  here : c.current.kind = .identifier name
  ends : c.advance.current.kind.endsProperty = true
  key : d.current.kind = .identifier name
  colon : d.advance.current.kind = .punct .colon
  value : d.advance.advance.current.kind = .identifier name
  after : Abreast short false c.advance d.advance.advance.advance

namespace Abreast

variable {short : Position → Bool} {key : Bool} {c d : Cursor}

theorem anywhere (abreast : Abreast short false c d) : Abreast short key c d :=
  ⟨abreast.ahead.anywhere, abreast.blocks, abreast.flag⟩

theorem weaken (abreast : Abreast short key c d) : Abreast short true c d := by
  cases key with
  | false => exact abreast.anywhere
  | true => exact abreast

/-- What is next is the same, or it is a name that is written out. -/
theorem plain_or_short (abreast : Abreast short key c d) :
    Abreast short false c d ∨ ∃ name, AtShorthand short name c d := by
  obtain ⟨ts, blocks, noIn⟩ := c
  obtain ⟨ts', blocks', noIn'⟩ := d
  obtain ⟨ahead, rfl, rfl⟩ := abreast
  dsimp only at ahead
  cases ahead with
  | nil => exact .inl ⟨.nil, rfl, rfl⟩
  | cons kind line splits holes rest => exact .inl ⟨.cons kind line splits holes rest, rfl, rfl⟩
  | shorthand marked ordinary here ends key line colon value rest =>
    refine .inr ⟨_, marked, ordinary, here, ends, key, colon, value, ?_⟩
    -- What ends the property comes next in both.
    cases rest with
    | cons kind line splits holes rest => exact ⟨.cons kind line splits holes rest, rfl, rfl⟩

theorem kind (abreast : Abreast short key c d) : d.current.kind.emptied = c.current.kind.emptied := by
  have ahead := abreast.ahead
  unfold Cursor.current
  generalize c.rest = ts at ahead
  generalize d.rest = ts' at ahead
  cases ahead with
  | nil => rfl
  | cons kind => exact kind
  | shorthand _ _ here _ key =>
    dsimp only
    rw [here, key]

theorem line (abreast : Abreast short key c d) : d.current.newlineBefore = c.current.newlineBefore := by
  have ahead := abreast.ahead
  unfold Cursor.current
  generalize c.rest = ts at ahead
  generalize d.rest = ts' at ahead
  cases ahead with
  | nil => rfl
  | cons _ line => exact line
  | shorthand _ _ _ _ _ line => exact line

/-- Statements end at the same points. -/
theorem atStatementEnd (abreast : Abreast short key c d) : d.atStatementEnd = c.atStatementEnd := by
  unfold Cursor.atStatementEnd
  dsimp only
  rw [abreast.line]
  exact TokenKind.agree_of_emptied (f := fun k => k.isEof || k.isPunct .semicolon || k.isPunct .closeBrace ||
    c.current.newlineBefore) abreast.kind fun _ _ => rfl

/-- Where no name is written out, the holes of a template split alike, and so do the tokens in them. -/
theorem holes (abreast : Abreast short false c d) :
    (∀ h ∈ c.current.kind.holes.zip d.current.kind.holes,
      (tokenizeAt h.2.1 h.2.2).toBool = (tokenizeAt h.1.1 h.1.2).toBool) ∧
      ∀ h ∈ c.current.kind.holes.zip d.current.kind.holes, h.1 ≠ h.2 → ∀ us us', tokenizeAt h.1.1 h.1.2 = .ok us →
        tokenizeAt h.2.1 h.2.2 = .ok us' → WritesOut short false us us' := by
  have ahead := abreast.ahead
  unfold Cursor.current
  generalize c.rest = ts at ahead
  generalize d.rest = ts' at ahead
  cases ahead with
  | nil => exact ⟨List.forall_mem_nil _, List.forall_mem_nil _⟩
  | cons _ _ splits holes => exact ⟨splits, holes⟩

/-- A name that is written out is a name. -/
theorem plain (abreast : Abreast short key c d) (other : ∀ name, c.current.kind ≠ .identifier name) :
    Abreast short false c d :=
  abreast.plain_or_short.resolve_right fun names => names.elim fun name place => other name place.here

theorem advance (abreast : Abreast short false c d) : Abreast short c.current.kind.leadsKey c.advance d.advance := by
  obtain ⟨ts, blocks, noIn⟩ := c
  obtain ⟨ts', blocks', noIn'⟩ := d
  obtain ⟨ahead, rfl, rfl⟩ := abreast
  dsimp only at ahead
  cases ahead with
  | nil => exact ⟨.nil, rfl, rfl⟩
  | cons _ _ _ _ rest => exact ⟨rest, rfl, rfl⟩

end Abreast

end Parser

end BindScript
