import BindScript.Proofs.Nesting.Statements
import BindScript.Proofs.Reserved.Texts

/-!
# Cursors side by side

A part of a source is read twice: alone, and in the head of a loop, where other tokens come after it, other blocks are
around it, and `in` may be reserved. At the same point of the two readings the tokens ahead are the same up to the end
of the first source, where the second one has a semicolon (`Followed`). So the two cursors tell the same about what
comes next (`View`), other than that the end of the input is told apart from a semicolon.
-/

namespace BindScript.Parser

/-! ## Cursors side by side -/

/-- What stands around the part that is read twice: the tokens after it in the second reading, and the blocks around
it in the first and in the second one. -/
structure Around where
  next : Token
  later : List Token
  alone : List (List String)
  inside : List (List String)
  stops : next.kind = .eof ∨ next.kind = .punct .semicolon
  noArrow : ∀ t ∈ next :: later, t.kind.isPunct .arrow = false

/-- The kinds of tokens that the two readings may find at the same point. -/
inductive SameKind (S : Around) : TokenKind → TokenKind → Prop
  | same {k : TokenKind} : SameKind S k k
  | template {chunks chunks' : List TemplateChunk} (same : Lexer.SameChunks chunks chunks') :
    SameKind S (.template chunks) (.template chunks')
  | stop : SameKind S .eof S.next.kind

/-- The tokens ahead in the first and in the second reading. -/
inductive Followed (S : Around) : List Token → List Token → Prop
  | last {t : Token} (eof : t.kind = .eof) : Followed S [t] (S.next :: S.later)
  | cons {t t' : Token} {ts ts' : List Token} (same : t'.unplaced = t.unplaced) (more : t.kind ≠ .eof)
    (later : Followed S ts ts') : Followed S (t :: ts) (t' :: ts')

/-- The cursors of the two readings at the same point, in so many blocks of the part itself. If `in` may be reserved
for the second one alone, `may` holds. Heads of loops are plain from here on. -/
structure Beside (S : Around) (may : Prop) (n : Nat) (c d : Cursor) : Prop where
  ahead : Followed S c.rest d.rest
  plain : PlainHeads c.rest
  flag : d.noIn = c.noIn ∨ may ∧ c.noIn = false
  blocks : ∃ own : List (List String), own.length = n ∧ c.blocks = own ++ S.alone ∧ d.blocks = own ++ S.inside

/-- Nothing is left but the end of the input, if that is. -/
def Cursor.AtEnd (c : Cursor) : Prop :=
  ∀ t ∈ c.rest.head?, c.rest = [t] ∧ t.kind = .eof

variable {S : Around} {may : Prop} {n : Nat} {c d : Cursor} {k k' : TokenKind}

/-- Only templates have places. -/
theorem eq_or_template_of_unplaced (same : k'.unplaced = k.unplaced) : k' = k ∨
    ∃ chunks chunks', k = .template chunks ∧ k' = .template chunks' ∧ Lexer.SameChunks chunks chunks' := by
  cases k with
  | template chunks =>
    cases k' with
    | template chunks' => exact .inr ⟨chunks, chunks', rfl, rfl, TokenKind.template.inj same⟩
    | _ => cases same
  | _ =>
    cases k'
    all_goals cases same
    all_goals exact .inl rfl

theorem SameKind.of_unplaced (same : k'.unplaced = k.unplaced) : SameKind S k k' := by
  rcases eq_or_template_of_unplaced same with rfl | ⟨chunks, chunks', rfl, rfl, sameChunks⟩
  · exact .same
  · exact .template sameChunks

/-- What is the same for all templates, and for a semicolon as for the end of the input, is the same at the same
point. -/
theorem SameKind.agree {γ : Type} {f : TokenKind → γ} (same : SameKind S k k')
    (templates : ∀ chunks chunks', f (.template chunks') = f (.template chunks))
    (semicolon : f (.punct .semicolon) = f .eof) : f k' = f k := by
  cases same with
  | same => rfl
  | template => exact templates _ _
  | stop =>
    rcases S.stops with stop | stop
    · rw [stop]
    · rw [stop, semicolon]

/-- Before the end of the input only templates differ. -/
theorem SameKind.agree_of_more {γ : Type} {f : TokenKind → γ} (same : SameKind S k k') (more : k ≠ .eof)
    (templates : ∀ chunks chunks', f (.template chunks') = f (.template chunks)) : f k' = f k := by
  cases same with
  | same => rfl
  | template => exact templates _ _
  | stop => exact absurd rfl more

theorem SameKind.isPunct (same : SameKind S k k') {mark : Punct} (apart : mark ≠ .semicolon) :
    k'.isPunct mark = k.isPunct mark :=
  same.agree (f := (·.isPunct mark)) (fun _ _ => rfl) (beq_false_of_ne (Ne.symm apart))

theorem SameKind.isKeyword (same : SameKind S k k') (word : Keyword) : k'.isKeyword word = k.isKeyword word :=
  same.agree (f := (·.isKeyword word)) (fun _ _ => rfl) rfl

/-- The first token is an arrow. -/
def arrowFirst : List Token → Bool
  | t :: _ => t.kind.isPunct .arrow
  | [] => false

theorem noArrowFirst {ts : List Token} (none : ∀ t ∈ ts, t.kind.isPunct .arrow = false) : arrowFirst ts = false := by
  cases ts with
  | nil => rfl
  | cons t ts => exact none t (List.mem_cons_self ..)

/-- Without an arrow ahead there is none after the bracket. -/
theorem noArrowAfter {ts : List Token} (none : ∀ t ∈ ts, t.kind.isPunct .arrow = false) (depth : Nat) :
    arrowAfterBrackets depth ts = false := by
  induction ts generalizing depth with
  | nil => rfl
  | cons t ts ih =>
    have others := (List.forall_mem_cons.1 none).2
    have closing : (if depth - 1 = 0 then arrowFirst ts else arrowAfterBrackets (depth - 1) ts) = false := by
      rw [ih others, noArrowFirst others, ite_self]
    unfold arrowAfterBrackets
    split
    all_goals first
      | exact ih others _
      | exact closing
      | rfl

namespace Followed

variable {ts ts' : List Token}

theorem length_le (ahead : Followed S ts ts') : ts.length ≤ ts'.length := by
  induction ahead with
  | last => exact Nat.succ_le_succ (Nat.zero_le _)
  | cons _ _ _ ih => exact Nat.succ_le_succ ih

/-- The tokens of a text that ends here, and the same ones where the text goes on. -/
theorem of_sameTokens {init init' : List Token} {last : Token} (same : Lexer.SameTokens init init')
    (more : ∀ t ∈ init, t.kind ≠ .eof) (eof : last.kind = .eof) :
    Followed S (init ++ [last]) (init' ++ S.next :: S.later) := by
  induction init generalizing init' with
  | nil =>
    obtain rfl := List.map_eq_nil_iff.1 same
    exact .last eof
  | cons t ts ih =>
    obtain ⟨t', ts', rfl, first, others⟩ := List.map_eq_cons_iff.1 same
    obtain ⟨notLast, moreLater⟩ := List.forall_mem_cons.1 more
    exact .cons first notLast (ih others moreLater)

/-- At the end of the first source the second one goes on with what comes after it. -/
theorem rest_of_last {t : Token} (ahead : Followed S [t] ts') (eof : t.kind = .eof) : ts' = S.next :: S.later := by
  cases ahead with
  | last => rfl
  | cons _ more _ => exact absurd eof more

/-- An arrow comes first in both, or in none. -/
theorem arrowFirst (ahead : Followed S ts ts') : Parser.arrowFirst ts' = Parser.arrowFirst ts := by
  cases ahead with
  | last eof =>
    have apart := S.noArrow S.next (List.mem_cons_self ..)
    unfold Parser.arrowFirst
    dsimp only
    rw [apart, eof]
    rfl
  | cons same _ later =>
    have kind : SameKind S _ _ := .of_unplaced (congrArg Token.kind same)
    exact kind.isPunct (by decide)

/-- Whether an arrow follows is told before the readings part. -/
theorem arrowAfterBrackets (ahead : Followed S ts ts') (depth : Nat) :
    Parser.arrowAfterBrackets depth ts' = Parser.arrowAfterBrackets depth ts := by
  induction ahead generalizing depth with
  | last eof =>
    rw [noArrowAfter S.noArrow]
    unfold Parser.arrowAfterBrackets
    rw [eof]
  | @cons t t' ts ts' same more later ih =>
    have kind : SameKind S t.kind t'.kind := .of_unplaced (congrArg Token.kind same)
    unfold Parser.arrowAfterBrackets
    generalize t.kind = k at kind more
    generalize t'.kind = k' at kind
    cases kind with
    | template => exact ih depth
    | stop => exact absurd rfl more
    | same =>
      cases k with
      | punct mark =>
        cases mark
        all_goals first
          | exact ih _
          | show (if depth - 1 = 0 then Parser.arrowFirst ts' else Parser.arrowAfterBrackets (depth - 1) ts') =
              if depth - 1 = 0 then Parser.arrowFirst ts else Parser.arrowAfterBrackets (depth - 1) ts
            rw [ih, later.arrowFirst]
      | eof => rfl
      | _ => exact ih depth

/-- Arrow functions start at the same points. -/
theorem arrowAhead (ahead : Followed S ts ts') : Parser.arrowAhead ts' = Parser.arrowAhead ts := by
  cases ahead with
  | last eof =>
    unfold Parser.arrowAhead
    dsimp only
    rcases S.stops with stop | stop
    · rw [eof, stop]
    · rw [eof, stop]
  | @cons t t' ts ts' same more later =>
    have whole := (Followed.cons same more later).arrowAfterBrackets 0
    have kind : SameKind S t.kind t'.kind := .of_unplaced (congrArg Token.kind same)
    unfold Parser.arrowAhead
    dsimp only
    generalize t.kind = k at kind more
    generalize t'.kind = k' at kind
    cases kind with
    | template => rfl
    | stop => exact absurd rfl more
    | same =>
      cases k with
      | identifier name => exact later.arrowFirst
      | punct mark =>
        cases mark
        all_goals first
          | exact whole
          | rfl
      | _ => rfl

end Followed

namespace Beside

theorem kind (beside : Beside S may n c d) : SameKind S c.current.kind d.current.kind := by
  have ahead := beside.ahead
  unfold Cursor.current
  generalize c.rest = ts at ahead
  generalize d.rest = ts' at ahead
  cases ahead with
  | last eof =>
    dsimp only
    rw [eof]
    exact .stop
  | cons same _ _ => exact .of_unplaced (congrArg Token.kind same)

theorem newline (beside : Beside S may n c d) (more : c.current.kind ≠ .eof) :
    d.current.newlineBefore = c.current.newlineBefore := by
  have ahead := beside.ahead
  unfold Cursor.current at more ⊢
  generalize c.rest = ts at ahead more
  generalize d.rest = ts' at ahead
  cases ahead with
  | last eof => exact absurd eof more
  | cons same _ _ =>
    have same := congrArg Token.newlineBefore same
    exact same

theorem advance (beside : Beside S may n c d) (more : c.current.kind ≠ .eof) : Beside S may n c.advance d.advance := by
  obtain ⟨ahead, plain, flag, blocks⟩ := beside
  have plain : PlainHeads c.advance.rest := (Ahead.advance (show Ahead False c.rest from .inr plain)).resolve_left id
  obtain ⟨ts, own, noIn⟩ := c
  obtain ⟨ts', own', noIn'⟩ := d
  dsimp only at ahead
  cases ahead with
  | last eof => exact absurd eof more
  | cons _ _ later => exact ⟨later, plain, flag, blocks⟩

/-- The holes of a template are plain, too. -/
theorem holes (beside : Beside S may n c d) : HolesAhead False c.current.kind :=
  Ahead.holes (.inr beside.plain)

/-- Where the first reading is at the end of the input, that is all it has ahead: neither reading goes past it. -/
theorem last (beside : Beside S may n c d) (eof : c.current.kind = .eof) : ∃ t, c.rest = [t] ∧ t.kind = .eof := by
  have ahead := beside.ahead
  unfold Cursor.current at eof
  generalize c.rest = ts at ahead eof ⊢
  generalize d.rest = ts' at ahead
  cases ahead with
  | @last t eof => exact ⟨t, rfl, eof⟩
  | cons _ more _ => exact absurd eof more

theorem atEnd (beside : Beside S may n c d) (eof : c.current.kind = .eof) : c.AtEnd := by
  obtain ⟨t, rest, kind⟩ := beside.last eof
  intro u first
  rw [rest] at first ⊢
  cases first
  exact ⟨rfl, kind⟩

end Beside

theorem Cursor.AtEnd.advance (ends : c.AtEnd) : c.advance.AtEnd := by
  unfold Cursor.advance
  cases rest : c.rest with
  | nil => exact ends
  | cons t ts =>
    obtain ⟨one, -⟩ := ends t (by rw [rest]; rfl)
    obtain rfl : ts = [] := (List.cons.inj (rest.symm.trans one)).2
    exact nofun

theorem Cursor.AtEnd.kind (ends : c.AtEnd) : c.current.kind = .eof := by
  unfold Cursor.current
  cases rest : c.rest with
  | nil => rfl
  | cons t ts => exact (ends t (by rw [rest]; rfl)).2

/-- What the two readings find at the same point. -/
structure View (S : Around) (may : Prop) (c d : Cursor) : Prop where
  kind : SameKind S c.current.kind d.current.kind
  newline : c.current.kind ≠ .eof → d.current.newlineBefore = c.current.newlineBefore
  arrow : arrowAhead d.rest = arrowAhead c.rest
  flag : d.noIn = c.noIn ∨ may ∧ c.noIn = false

theorem View.refl (c : Cursor) : View S may c c :=
  ⟨.same, fun _ => rfl, rfl, .inl rfl⟩

theorem Beside.view (beside : Beside S may n c d) : View S may c d :=
  ⟨beside.kind, beside.newline, beside.ahead.arrowAhead, beside.flag⟩

/-- The end of a statement is the same. -/
theorem View.atStatementEnd (view : View S may c d) : d.atStatementEnd = c.atStatementEnd := by
  unfold Cursor.atStatementEnd
  obtain ⟨kind, newline, -, -⟩ := view
  dsimp only
  by_cases eof : c.current.kind = .eof
  · rw [eof] at kind ⊢
    have stop : d.current.kind = .eof ∨ d.current.kind = .punct .semicolon := by
      generalize d.current.kind = k at kind
      cases kind with
      | same => exact .inl rfl
      | stop => exact S.stops
    rcases stop with stop | stop
    · rw [stop]
      rfl
    · rw [stop]
      rfl
  · rw [newline eof]
    generalize c.current.kind = k at kind eof
    generalize d.current.kind = k' at kind
    cases kind with
    | same => rfl
    | template => rfl
    | stop => exact absurd rfl eof

end BindScript.Parser
