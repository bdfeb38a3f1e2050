import Mathlib.Data.List.Induction
import BindScript.Proofs.Nesting.Limit
import BindScript.Proofs.Parsing.Words

/-!
# Where tokens stand

Every scanner takes what it reads off the front of the text and moves its place over just these characters
(`Reader.Passes`). So wherever a scan has come to, its place is that of the characters before it, and the place
of a token is that of its offset in the source: the line feeds before it, and the characters since the last one
(`Position.ofOffset`).

The raw text of a substitution is cut out of the source as it stands, up to the brace that closes it
(`Reader.Cuts`). Split into tokens from the place where it starts, it is a part of the source again, and the same
holds for the substitutions inside it; so the places are exact at every depth (`tokens_exact`).

Theorems:
- `Position.advance_take`: the place after a part of a source is that of its length.
- `scanToken_takes`: what one token takes off the front.
- `scanAll_splits`: what all tokens take, one after another, up to the end.
- `tokens_exact`: the places of all tokens, in the source and in its substitutions.
-/

namespace BindScript

/-! ## Places of offsets -/

namespace Position

/-- The place of an offset in a source: each line feed before it begins a line, and the column counts the
characters since the last one. -/
def ofOffset (source : List Char) (n : Nat) : Position where
  offset := n
  line := 1 + (source.take n).count '\n'
  column := 1 + ((source.take n).reverse.takeWhile (· != '\n')).length

theorem offset_advance (p : Position) (cs : List Char) : (p.advance cs).offset = p.offset + cs.length := by
  induction cs generalizing p with
  | nil => rfl
  | cons c cs ih =>
    rw [advance_cons, ih, List.length_cons, Nat.add_comm cs.length, ← Nat.add_assoc]
    unfold next
    split
    · rfl
    · rfl

/-- Going on over a text from the start leads to the place at its end. -/
theorem advance_start (cs : List Char) : start.advance cs = ofOffset cs cs.length := by
  induction cs using List.reverseRecOn with
  | nil => rfl
  | append_singleton cs c ih =>
    rw [advance_append, ih, advance_cons, advance_nil, next]
    unfold ofOffset
    rw [List.take_length, List.take_length, List.length_append, List.count_append, List.reverse_append]
    by_cases feed : c = '\n'
    · subst feed
      rw [if_pos rfl]
      rfl
    · rw [if_neg feed]
      simp [feed, Nat.add_comm]

/-- The place after the first characters of a source is that of their number. -/
theorem advance_take {source : List Char} {n : Nat} (inside : n ≤ source.length) :
    start.advance (source.take n) = ofOffset source n := by
  rw [advance_start, List.length_take_of_le inside]
  unfold ofOffset
  rw [List.take_take, Nat.min_self]

end Position

/-! ## Passing over characters -/

namespace Reader

variable {r r' r'' : Reader} {cs ds : List Char}

/-- From one reader to the other, these characters are passed over. -/
structure Passes (r : Reader) (passed : List Char) (r' : Reader) : Prop where
  rest : r.rest = passed ++ r'.rest
  place : r'.place = r.place.advance passed

theorem Passes.nothing (r : Reader) : r.Passes [] r :=
  ⟨rfl, rfl⟩

theorem Passes.trans (first : r.Passes cs r') (second : r'.Passes ds r'') : r.Passes (cs ++ ds) r'' :=
  ⟨by rw [first.rest, second.rest, List.append_assoc],
    by rw [second.place, first.place, Position.advance_append]⟩

theorem Passes.next {c : Char} (read : r.next? = some (c, r')) : r.Passes [c] r' := by
  unfold next? at read
  split at read
  · cases read
  · next rest =>
    cases read
    exact ⟨rest, rfl⟩

theorem Passes.skip (r : Reader) (n : Nat) : r.Passes (r.rest.take n) (r.skip n) :=
  ⟨(List.take_append_drop n r.rest).symm, rfl⟩

theorem Passes.skipWhile (r : Reader) (p : Char → Bool) : r.Passes (r.rest.takeWhile p) (r.skipWhile p) :=
  ⟨List.takeWhile_append_dropWhile.symm, rfl⟩

/-- A reader leads to another one further on. -/
def Leads (r r' : Reader) : Prop :=
  ∃ passed, r.Passes passed r'

theorem Leads.refl (r : Reader) : r.Leads r :=
  ⟨[], .nothing r⟩

theorem Leads.trans (first : r.Leads r') (second : r'.Leads r'') : r.Leads r'' := by
  obtain ⟨cs, first⟩ := first
  obtain ⟨ds, second⟩ := second
  exact ⟨cs ++ ds, first.trans second⟩

theorem Leads.next {c : Char} (read : r.next? = some (c, r')) : r.Leads r' :=
  ⟨[c], .next read⟩

theorem Leads.skip (r : Reader) (n : Nat) : r.Leads (r.skip n) :=
  ⟨_, .skip r n⟩

theorem Leads.skipWhile (r : Reader) (p : Char → Bool) : r.Leads (r.skipWhile p) :=
  ⟨_, .skipWhile r p⟩

/-- A reader leads to another one that is at least one character further on. -/
def Moves (r r' : Reader) : Prop :=
  ∃ passed, passed ≠ [] ∧ r.Passes passed r'

theorem Moves.leads (moves : r.Moves r') : r.Leads r' := by
  obtain ⟨passed, -, passes⟩ := moves
  exact ⟨passed, passes⟩

theorem Moves.onward (moves : r.Moves r') (leads : r'.Leads r'') : r.Moves r'' := by
  obtain ⟨passed, some, first⟩ := moves
  obtain ⟨more, second⟩ := leads
  exact ⟨passed ++ more, List.append_ne_nil_of_left_ne_nil some more, first.trans second⟩

/-- The offset where the text ends stays the same. -/
theorem Leads.stop (leads : r.Leads r') :
    r.place.offset + r.rest.length = r'.place.offset + r'.rest.length := by
  obtain ⟨passed, passes⟩ := leads
  rw [passes.rest, passes.place, Position.offset_advance, List.length_append, Nat.add_assoc]

theorem Leads.offset_le (leads : r.Leads r') : r.place.offset ≤ r'.place.offset := by
  obtain ⟨passed, passes⟩ := leads
  rw [passes.place, Position.offset_advance]
  exact Nat.le_add_right _ _

theorem Moves.offset_lt (moves : r.Moves r') : r.place.offset < r'.place.offset := by
  obtain ⟨passed, some, passes⟩ := moves
  rw [passes.place, Position.offset_advance]
  exact Nat.lt_add_of_pos_right (List.length_pos_iff.2 some)

theorem Moves.skip {n : Nat} (some : r.rest ≠ []) (forward : 0 < n) : r.Moves (r.skip n) := by
  refine ⟨r.rest.take n, fun none => ?_, .skip r n⟩
  rcases List.take_eq_nil_iff.1 none with zero | none
  · omega
  · exact some none

/-- The text stands somewhere ahead, at the given place, with a closing brace after it. -/
def Cuts (r : Reader) (text : List Char) (place : Position) : Prop :=
  ∃ hole after, r.Leads hole ∧ hole.place = place ∧ hole.rest = text ++ '\x7d' :: after

theorem Cuts.later {text : List Char} {place : Position} (leads : r.Leads r') (cuts : r'.Cuts text place) :
    r.Cuts text place := by
  obtain ⟨hole, after, ahead, here, rest⟩ := cuts
  exact ⟨hole, after, leads.trans ahead, here, rest⟩

end Reader

namespace Lexer

open Text Reader

/-! ## Scanners -/

/-- What holds of the result of a scan and of what the scan leaves, if it succeeds. -/
def Ends {α : Type} (P : α → Reader → Prop) (scan : Scan α) : Prop :=
  ∀ a r, scan = .ok (a, r) → P a r

namespace Ends

variable {α : Type} {P Q : α → Reader → Prop} {scan scan' : Scan α}

theorem error (issue : ParseIssue) : Ends P (.error issue) := by
  intro a r same
  cases same

theorem refuse (cause : ParseCause) (place : Position) : Ends P (Lexer.refuse cause place) :=
  .error _

theorem ok {a : α} {r : Reader} (holds : P a r) : Ends P (.ok (a, r)) := by
  intro b r' same
  cases same
  exact holds

theorem ite {condition : Prop} [Decidable condition] (yes : condition → Ends P scan)
    (no : ¬ condition → Ends P scan') : Ends P (if condition then scan else scan') := by
  split
  · next holds => exact yes holds
  · next fails => exact no fails

theorem imp (weaker : ∀ a r, P a r → Q a r) (ends : Ends P scan) : Ends Q scan :=
  fun a r same => weaker a r (ends a r same)

end Ends

/-- What a scan leaves is further on, if it succeeds. -/
def Onward {α : Type} (r : Reader) : Scan α → Prop :=
  Ends fun _ r' => r.Leads r'

theorem Onward.later {α : Type} {r r' : Reader} {scan : Scan α} (leads : r.Leads r') (onward : Onward r' scan) :
    Onward r scan :=
  onward.imp fun _ _ => leads.trans

/-- Whatever is skipped, the reader only goes on. -/
theorem skipTrivia_onward (n : Nat) (newline : Bool) (r : Reader) : Onward r (skipTrivia n newline r) := by
  induction n generalizing newline r with
  | zero => exact .ok (.refl r)
  | succ n ih =>
    unfold skipTrivia
    split
    · exact .ok (.refl r)
    · exact Onward.later (.skipWhile r _) (ih _ _)
    · split
      · exact Onward.later (.skip r _) (ih _ _)
      · exact .refuse _ _
    · refine .ite (fun _ => Onward.later (.skip r 1) (ih _ _)) fun _ => ?_
      exact .ite (fun _ => Onward.later (.skip r 1) (ih _ _)) fun _ => .ok (.refl r)

theorem scanHex_onward (place : Position) (count code : Nat) (r : Reader) :
    Onward r (scanHex place count code r) := by
  induction count generalizing code r with
  | zero => exact .ok (.refl r)
  | succ count ih =>
    unfold scanHex
    split
    · next read =>
      split
      · exact Onward.later (.next read) (ih _ _)
      · exact .refuse _ _
    · exact .refuse _ _

/-- By induction on the digits that are left: the scan moves whether or not the code is too great. -/
theorem scanBracedHex_onward (place : Position) (left : Nat) (seen : Bool) (code : Nat) (r : Reader) :
    Onward r (scanBracedHex place left seen code r) := by
  induction left generalizing seen code r with
  | zero =>
    unfold scanBracedHex
    split
    · next read => exact .ite (fun _ => .ok (.next read)) fun _ => .refuse _ _
    · exact .refuse _ _
  | succ left ih =>
    unfold scanBracedHex
    split
    · next read =>
      refine .ite (fun _ => .ok (.next read)) fun _ => ?_
      split
      · next less _ same _ =>
        cases same
        exact Onward.later (.next read) (ih _ _ _)
      · exact .refuse _ _
    · exact .refuse _ _

theorem escapedCode_onward {place : Position} {scan : Except ParseIssue (Nat × Reader)} {r : Reader}
    (onward : Onward r scan) : Onward r (escapedCode place scan) := by
  unfold escapedCode
  split
  · exact .error _
  · split
    · exact .ok (onward _ _ rfl)
    · exact .refuse _ _

/-- An escape is read going on, too. -/
theorem scanEscape_onward (r : Reader) : Onward r (scanEscape r) := by
  unfold scanEscape
  split
  · exact .refuse _ _
  · next read =>
    have passed := Leads.next read
    split
    case h_7 => exact Onward.later passed (escapedCode_onward (scanHex_onward _ _ _ _))
    case h_8 =>
      split
      · exact Onward.later (passed.trans (.skip _ 1)) (escapedCode_onward (scanBracedHex_onward _ _ _ _ _))
      · exact Onward.later passed (escapedCode_onward (scanHex_onward _ _ _ _))
    case h_10 =>
      split
      · exact .ok (passed.trans (.skip _ 1))
      · exact .ok passed
    case h_11 =>
      split
      · exact .ite (fun _ => .refuse _ _) fun _ => .ok passed
      · exact .ok passed
    case h_12 => exact .ite (fun _ => .refuse _ _) fun _ => .ok passed
    all_goals exact .ok passed

/-! ## Substitutions -/

/-- What a scan leaves comes after the characters it has put in front of the given ones, in reverse. -/
def Gathers (r : Reader) (out : List Char) : Scan (List Char) → Prop :=
  Ends fun out' r' => ∃ passed, out' = passed.reverse ++ out ∧ r.Passes passed r'

theorem Gathers.later {r r' : Reader} {out passed : List Char} {scan : Scan (List Char)}
    (passes : r.Passes passed r') (gathers : Gathers r' (passed.reverse ++ out) scan) : Gathers r out scan := by
  refine gathers.imp ?_
  rintro out' r'' ⟨more, grown, further⟩
  refine ⟨passed ++ more, ?_, passes.trans further⟩
  rw [grown, List.reverse_append, List.append_assoc]

/-- The scanner passes the characters that it gathers. -/
theorem scanQuoted_gathers (quote : Char) (start : Position) (n : Nat) (out : List Char) (r : Reader) :
    Gathers r out (scanQuoted quote start n out r) := by
  induction n generalizing out r with
  | zero => exact .refuse _ _
  | succ n ih =>
    unfold scanQuoted
    split
    · exact .refuse _ _
    · next c r' read =>
      have passed := Passes.next read
      refine .ite (fun _ => ?_) fun _ => .ite (fun _ => ?_) fun _ => Gathers.later passed (ih _ _)
      · split
        · next hidden => exact Gathers.later (passed.trans (.next hidden)) (ih _ _)
        · exact Gathers.later passed (ih _ _)
      · exact .ok ⟨[c], rfl, passed⟩

/-- What a scan gives is the text from the given one on, which is in reverse, up to the brace it has passed. -/
def Closes (r : Reader) (out : List Char) : Scan (List Char) → Prop :=
  Ends fun text r' => ∃ passed, text = out.reverse ++ passed ∧ r.Passes (passed ++ ['\x7d']) r'

theorem Closes.later {r r' : Reader} {out passed : List Char} {scan : Scan (List Char)}
    (passes : r.Passes passed r') (closes : Closes r' (passed.reverse ++ out) scan) : Closes r out scan := by
  refine closes.imp ?_
  rintro text r'' ⟨more, grown, further⟩
  refine ⟨passed ++ more, ?_, ?_⟩
  · rw [grown, List.reverse_append, List.reverse_reverse, List.append_assoc]
  · rw [List.append_assoc]
    exact passes.trans further

/-- The scan gives all that it passes, nested strings and templates included, up to the brace that closes the first
one. -/
theorem scanHole_closes (start : Position) (n depth : Nat) (out : List Char) (r : Reader) :
    Closes r out (scanHole start n depth out r) := by
  induction n generalizing depth out r with
  | zero => exact .refuse _ _
  | succ n ih =>
    unfold scanHole
    split
    · exact .refuse _ _
    · next c r' read =>
      have passed := Passes.next read
      refine .ite (fun brace => ?_) fun _ => .ite (fun _ => Closes.later passed (ih _ _ _)) fun _ => ?_
      · subst brace
        split
        · exact .ok ⟨[], (List.append_nil _).symm, passed⟩
        · exact Closes.later passed (ih _ _ _)
      · refine .ite (fun _ => ?_) fun _ => Closes.later passed (ih _ _ _)
        split
        · next quoted =>
          -- the quoted part is already in the text from which the scan goes on
          obtain ⟨more, grown, further⟩ := scanQuoted_gathers _ _ _ _ _ _ _ quoted
          refine Closes.later (passed.trans further) ?_
          rw [List.reverse_append, List.append_assoc, List.reverse_singleton, List.singleton_append, ← grown]
          exact ih _ _ _
        · exact .error _

/-- The substitution of a template stands ahead, from where the scan begins. -/
theorem scanHole_cuts {start : Position} {n : Nat} {text : List Char} {r r' : Reader}
    (scanned : scanHole start n 0 [] r = .ok (text, r')) : r.Cuts text r.place ∧ r.Leads r' := by
  obtain ⟨passed, rfl, passes⟩ := scanHole_closes start n 0 [] r text r' scanned
  refine ⟨⟨r, r'.rest, .refl r, rfl, ?_⟩, _, passes⟩
  rw [passes.rest, List.append_assoc]
  rfl

/-- The token is not the end, and its substitutions are the ones among the chunks, or stand ahead. -/
def Fills (r : Reader) (chunks : List TemplateChunk) : Scan TokenKind → Prop :=
  Ends fun k r' => r.Leads r' ∧ k ≠ .eof ∧
    ∀ text place, k.HasHole text place → .hole text place ∈ chunks ∨ r.Cuts text place

theorem Fills.later {r r' : Reader} {chunks : List TemplateChunk} {scan : Scan TokenKind} (leads : r.Leads r')
    (fills : Fills r' chunks scan) : Fills r chunks scan := by
  refine fills.imp ?_
  rintro k r'' ⟨further, more, holes⟩
  exact ⟨leads.trans further, more, fun text place has => (holes text place has).imp_right (.later leads)⟩

theorem hole_of_mem_pushText {chunks : List TemplateChunk} {out text : List Char} {place : Position}
    (mem : .hole text place ∈ pushText chunks out) : .hole text place ∈ chunks := by
  unfold pushText at mem
  split at mem
  · exact mem
  · exact (List.mem_cons.1 mem).resolve_left nofun

/-- The chunks of a finished template are those that were found; only a text is added, if there are none. -/
theorem hole_of_mem_finished {chunks : List TemplateChunk} {out text : List Char} {place : Position}
    {k : TokenKind} (finished : k = .template (if (pushText chunks out).reverse.isEmpty then [.text ""]
      else (pushText chunks out).reverse)) (has : k.HasHole text place) : .hole text place ∈ chunks := by
  obtain ⟨all, same, mem⟩ := has
  cases finished.symm.trans same
  split at mem
  · cases List.mem_singleton.1 mem
  · exact hole_of_mem_pushText (List.mem_reverse.1 mem)

/-- A substitution that is cut out stands in the text at the place that goes with it. -/
theorem scanTemplate_fills (start : Position) (n : Nat) (chunks : List TemplateChunk) (out : List Char)
    (r : Reader) : Fills r chunks (scanTemplate start n chunks out r) := by
  induction n generalizing chunks out r with
  | zero => exact .refuse _ _
  | succ n ih =>
    unfold scanTemplate
    split
    · exact .refuse _ _
    · next read =>
      have passed := Leads.next read
      refine .ite (fun _ => ?_) fun _ => .ite (fun _ => ?_) fun _ => ?_
      · exact .ok ⟨passed, nofun, fun text place has => .inl (hole_of_mem_finished rfl has)⟩
      · split
        · next escape => exact Fills.later (passed.trans (scanEscape_onward _ _ _ escape)) (ih _ _ _)
        · exact .error _
      · split
        · dsimp only
          split
          -- a hole begins behind its two opening characters, and what comes after it is scanned from behind its brace
          · next hole =>
            obtain ⟨cuts, through⟩ := scanHole_cuts hole
            have opened := passed.trans (.skip _ 1)
            refine (ih _ _ _).imp ?_
            rintro k r' ⟨further, more, holes⟩
            refine ⟨opened.trans (through.trans further), more, fun text place has => ?_⟩
            rcases holes text place has with mem | ahead
            · rcases List.mem_cons.1 mem with same | mem
              · cases same
                exact .inr (.later opened cuts)
              · exact .inl (hole_of_mem_pushText mem)
            · exact .inr (.later (opened.trans through) ahead)
          · exact .error _
        · exact Fills.later passed (ih _ _ _)

/-! ## Tokens -/

/-- What a token takes off the front: at least one character, and its substitutions are cut out of that. -/
structure Takes (r : Reader) (k : TokenKind) (r' : Reader) : Prop where
  moves : r.Moves r'
  more : k ≠ .eof
  holes : ∀ text place, k.HasHole text place → r.Cuts text place

/-- The token is neither a template nor the end. -/
def Plain : TokenKind → Prop
  | .template _ | .eof => False
  | _ => True

theorem Takes.plain {r r' : Reader} {k : TokenKind} (plain : Plain k) (moves : r.Moves r') : Takes r k r' := by
  refine ⟨moves, ?_, ?_⟩
  · rintro rfl
    exact plain
  · rintro text place ⟨chunks, rfl, -⟩
    exact plain.elim

theorem scanWord_takes {r : Reader} {c : Char} {cs : List Char} (rest : r.rest = c :: cs)
    (start : isNameStart c = true) : Takes r (scanWord r).1 (scanWord r).2 := by
  have word : r.rest.takeWhile isWordPart ≠ [] := by
    rw [rest, List.takeWhile_cons_of_pos (isWordPart_of_isNameStart start)]
    exact List.cons_ne_nil _ _
  refine .plain ?_ ⟨_, word, .skipWhile r _⟩
  unfold scanWord
  dsimp only
  split
  · trivial
  · trivial

theorem endNumber_leaves (start : Position) (raw : List Char) (value : Float) (r : Reader) :
    Ends (fun k r' => Plain k ∧ r' = r) (endNumber start raw value r) := by
  unfold endNumber
  split
  · exact .ite (fun _ => .refuse _ _) fun _ => .ok ⟨trivial, rfl⟩
  · exact .ok ⟨trivial, rfl⟩

/-- A number that ends further on is a token. -/
theorem endNumber_takes {start : Position} {raw : List Char} {value : Float} {r r' : Reader} (moves : r.Moves r') :
    Ends (Takes r) (endNumber start raw value r') := by
  refine (endNumber_leaves start raw value r').imp ?_
  rintro k r'' ⟨plain, rfl⟩
  exact .plain plain moves

theorem scanRadix_takes (radix : Nat) {r : Reader} (some : r.rest ≠ []) :
    Ends (Takes r) (scanRadix radix r) := by
  unfold scanRadix
  refine .ite (fun _ => .refuse _ _) fun _ => ?_
  split
  · exact endNumber_takes ((Moves.skip some (by decide)).onward (.skipWhile _ _))
  · exact .refuse _ _

/-- A decimal literal has digits in front of its point, or it begins with the point. -/
theorem scanDecimal_takes {r : Reader} (starts : startsNumber r.rest = true) :
    Ends (Takes r) (scanDecimal r) := by
  have front : ∃ c cs, r.rest = c :: cs ∧ (c.isDigit = true ∨ c = '.') := by
    unfold startsNumber at starts
    split at starts
    · next rest => exact ⟨_, _, rest, .inr rfl⟩
    · next c cs _ rest => exact ⟨c, cs, rest, .inl starts⟩
    · cases starts
  obtain ⟨c, cs, rest, first⟩ := front
  unfold scanDecimal
  refine .ite (fun _ => .refuse _ _) fun _ => endNumber_takes (.skip (rest ▸ List.cons_ne_nil c cs) ?_)
  rw [rest]
  rcases first with digit | rfl
  · rw [List.takeWhile_cons_of_pos (by simp [isDigitOrSeparator, digit]), List.length_cons]
    omega
  · rw [List.takeWhile_cons_of_neg (by decide)]
    simp only [List.length_nil, List.drop_zero, List.length_cons]
    omega

theorem scanNumber_takes {r : Reader} (starts : startsNumber r.rest = true) :
    Ends (Takes r) (scanNumber r) := by
  have some : r.rest ≠ [] := by
    intro none
    rw [none] at starts
    cases starts
  unfold scanNumber
  split
  · exact scanRadix_takes _ some
  · exact scanDecimal_takes starts

/-- What is scanned as a string has no substitutions. -/
theorem scanString_plain (quote : Char) (start : Position) (n : Nat) (out : List Char) (r : Reader) :
    Ends (fun k r' => Plain k ∧ r.Leads r') (scanString quote start n out r) := by
  induction n generalizing out r with
  | zero => exact .refuse _ _
  | succ n ih =>
    unfold scanString
    split
    · exact .refuse _ _
    · next r' read =>
      have passed := Leads.next read
      have later {r'' : Reader} (leads : r'.Leads r'') (out : List Char) :
          Ends (fun k r' => Plain k ∧ r.Leads r') (scanString quote start n out r'') :=
        (ih out r'').imp fun _ _ => .imp_right (passed.trans leads).trans
      refine .ite (fun _ => .refuse _ _) fun _ => .ite (fun _ => .ok ⟨trivial, passed⟩) fun _ => ?_
      refine .ite (fun _ => ?_) fun _ => later (.refl _) _
      split
      · next escape => exact later (scanEscape_onward _ _ _ escape) _
      · exact .error _

theorem scanPunct_takes {r : Reader} (some : r.rest ≠ []) : Ends (Takes r) (scanPunct r) := by
  unfold scanPunct
  split
  · next p _ =>
    have spelled : 0 < p.spelling.length := by cases p <;> decide
    exact .ok (.plain trivial (.skip some spelled))
  · exact .refuse _ _

theorem scanToken_takes {n : Nat} {c : Char} {cs : List Char} {r : Reader} (rest : r.rest = c :: cs) :
    Ends (Takes r) (scanToken n c r) := by
  have some : r.rest ≠ [] := rest ▸ List.cons_ne_nil c cs
  have quote : r.Moves (r.skip 1) := .skip some (by decide)
  unfold scanToken
  refine .ite (fun start => .ok (scanWord_takes rest start)) fun _ => ?_
  refine .ite (fun starts => scanNumber_takes starts) fun _ => .ite (fun _ => ?_) fun _ => .ite (fun _ => ?_) ?_
  · refine (scanString_plain _ _ _ _ _).imp ?_
    rintro k r' ⟨plain, leads⟩
    exact .plain plain (quote.onward leads)
  · refine (scanTemplate_fills _ _ _ _ _).imp ?_
    rintro k r' ⟨leads, more, holes⟩
    refine ⟨quote.onward leads, more, fun text place has => ?_⟩
    exact .later quote.leads ((holes text place has).resolve_left List.not_mem_nil)
  · exact fun _ => scanPunct_takes some

/-! ## All tokens -/

/-- What remains splits into the tokens: one after the other is taken off the front, with gaps between them, up to
the end. -/
inductive Splits : Reader → List Token → Prop
  | eof {r r' : Reader} {newline : Bool} (gap : r.Leads r') (ends : r'.rest = []) :
    Splits r [⟨.eof, r'.place, newline⟩]
  | token {r r' r'' : Reader} {k : TokenKind} {newline : Bool} {tokens : List Token} (gap : r.Leads r')
    (takes : Takes r' k r'') (later : Splits r'' tokens) : Splits r (⟨k, r'.place, newline⟩ :: tokens)

/-- Token after token, with white space and comments between them, the text is split up to its end. -/
theorem scanAll_splits {n : Nat} {found tokens : List Token} {r : Reader} (enough : r.rest.length < n)
    (scanned : scanAll n found r = .ok tokens) : ∃ more, tokens = found.reverse ++ more ∧ Splits r more := by
  induction n generalizing found r with
  | zero => exact absurd enough (Nat.not_lt_zero _)
  | succ n ih =>
    unfold scanAll at scanned
    split at scanned
    · cases scanned
    · next newline r' trivia =>
      have gap := skipTrivia_onward _ _ _ _ _ trivia
      split at scanned
      · next ends =>
        cases scanned
        exact ⟨_, List.reverse_cons, .eof gap ends⟩
      · next rest =>
        split at scanned
        · cases scanned
        · next kind r'' token =>
          have takes := scanToken_takes rest _ _ token
          -- the end of the text stays where it is while the place moves on, so there are turns left
          have fewer : r''.rest.length < n := by
            have := gap.offset_le
            have := takes.moves.offset_lt
            have := (gap.trans takes.moves.leads).stop
            omega
          obtain ⟨more, rfl, splits⟩ := ih fewer scanned
          refine ⟨⟨kind, r'.place, newline⟩ :: more, ?_, .token gap takes splits⟩
          rw [List.reverse_cons, List.append_assoc, List.singleton_append]

theorem tokenizeAt_splits {source : List Char} {place : Position} {tokens : List Token}
    (read : tokenizeAt source place = .ok tokens) : Splits ⟨source, place⟩ tokens := by
  obtain ⟨more, rfl, splits⟩ := scanAll_splits (Nat.lt_succ_self _) read
  exact splits

/-! ## Places in a source -/

/-- What remains is a part of the source, with the given text after it, and the place is that of all before it. -/
def Within (source after : List Char) (r : Reader) : Prop :=
  ∃ before, source = before ++ (r.rest ++ after) ∧ r.place = Position.start.advance before

namespace Within

variable {source after text : List Char} {place : Position} {r r' : Reader}

theorem whole (source : List Char) : Within source [] ⟨source, .start⟩ :=
  ⟨[], by rw [List.append_nil, List.nil_append], rfl⟩

theorem leads (within : Within source after r) (leads : r.Leads r') : Within source after r' := by
  obtain ⟨before, split, here⟩ := within
  obtain ⟨passed, passes⟩ := leads
  refine ⟨before ++ passed, ?_, ?_⟩
  · rw [split, passes.rest, List.append_assoc, List.append_assoc]
  · rw [passes.place, here, Position.advance_append]

/-- What is cut out is a part of the source again, up to the brace. -/
theorem cuts (within : Within source after r) (cuts : r.Cuts text place) :
    ∃ after, Within source ('\x7d' :: after) ⟨text, place⟩ := by
  obtain ⟨hole, more, ahead, rfl, rest⟩ := cuts
  obtain ⟨before, split, here⟩ := within.leads ahead
  refine ⟨more ++ after, before, ?_, here⟩
  rw [split, rest, List.append_assoc, List.cons_append]

/-- The place is exact, and the part stands there. -/
theorem exact (within : Within source after r) :
    r.place = .ofOffset source r.place.offset ∧ source.drop r.place.offset = r.rest ++ after := by
  obtain ⟨before, split, here⟩ := within
  have taken : source.take before.length = before := by rw [split, List.take_left]
  have inside : before.length ≤ source.length := by simp [split]
  have place : r.place = .ofOffset source before.length := by rw [here, ← Position.advance_take inside, taken]
  have offset : r.place.offset = before.length := congrArg Position.offset place
  rw [offset]
  exact ⟨place, by rw [split, List.drop_left]⟩

end Within

end Lexer

/-- The tokens are placed exactly in the source, up to the given offset. -/
structure ExactTokens (source : List Char) (stop : Nat) (tokens : List Token) : Prop where
  /-- The last token is the only one for the end of input, and stands at the end. -/
  ends : ∃ init last, tokens = init ++ [last] ∧ last.kind = .eof ∧ last.start.offset = stop ∧
    ∀ t ∈ init, t.kind ≠ .eof
  /-- One token starts after the other. -/
  increasing : tokens.Pairwise (·.start.offset < ·.start.offset)
  /-- Line and column are those of the offset. -/
  placed : ∀ t ∈ tokens, t.start = .ofOffset source t.start.offset
  /-- The text of a substitution is what stands in the source at its place, and a brace closes it. -/
  holes : ∀ t ∈ tokens, ∀ text place, t.kind.HasHole text place →
    place = .ofOffset source place.offset ∧
      (source.drop place.offset).take (text.length + 1) = text ++ ['\x7d']

/-- The tokens of a text that is split on its own, with the place where it starts: the source, and the
substitutions of templates, at every depth. -/
inductive TokenLevel (source : String) : List Char → Position → List Token → Prop
  | whole {tokens : List Token} (read : tokenize source = .ok tokens) :
    TokenLevel source source.toList .start tokens
  | hole {text inner : List Char} {place origin : Position} {tokens tokens' : List Token} {t : Token}
    (outer : TokenLevel source text place tokens) (mem : t ∈ tokens) (has : t.kind.HasHole inner origin)
    (read : tokenizeAt inner origin = .ok tokens') : TokenLevel source inner origin tokens'

namespace Lexer

/-! ## From one level to the next -/

namespace Splits

variable {source after : List Char} {r : Reader} {tokens : List Token}

theorem ends (splits : Splits r tokens) : ∃ init last, tokens = init ++ [last] ∧ last.kind = .eof ∧
    last.start.offset = r.place.offset + r.rest.length ∧ ∀ t ∈ init, t.kind ≠ .eof := by
  induction splits with
  | eof gap ends =>
    refine ⟨[], _, rfl, rfl, ?_, List.forall_mem_nil _⟩
    rw [gap.stop, ends]
    rfl
  | token gap takes later ih =>
    obtain ⟨init, last, rfl, eof, stop, others⟩ := ih
    refine ⟨_ :: init, last, rfl, eof, ?_, List.forall_mem_cons.2 ⟨takes.more, others⟩⟩
    rw [stop, gap.stop, takes.moves.leads.stop]

/-- Each token starts further on, and what it holds stands ahead from there. -/
theorem each (splits : Splits r tokens) : ∀ t ∈ tokens, ∃ r', r.Leads r' ∧ t.start = r'.place ∧
    ∀ text place, t.kind.HasHole text place → r'.Cuts text place := by
  induction splits with
  | eof gap _ =>
    refine List.forall_mem_singleton.2 ⟨_, gap, rfl, ?_⟩
    rintro text place ⟨chunks, no, -⟩
    cases no
  | token gap takes _ ih =>
    refine List.forall_mem_cons.2 ⟨⟨_, gap, rfl, takes.holes⟩, fun t mem => ?_⟩
    obtain ⟨r', leads, start, holes⟩ := ih t mem
    exact ⟨r', gap.trans (takes.moves.leads.trans leads), start, holes⟩

theorem increasing (splits : Splits r tokens) : tokens.Pairwise (·.start.offset < ·.start.offset) := by
  induction splits with
  | eof _ _ => exact List.pairwise_singleton _ _
  | token _ takes later ih =>
    refine List.pairwise_cons.2 ⟨fun t mem => ?_, ih⟩
    obtain ⟨r', leads, start, -⟩ := later.each t mem
    rw [start]
    exact Nat.lt_of_lt_of_le takes.moves.offset_lt leads.offset_le

/-- A substitution of one of the tokens is a part of the source, too, up to a brace. -/
theorem hole_within {text : List Char} {place : Position} {t : Token} (splits : Splits r tokens)
    (within : Within source after r) (mem : t ∈ tokens) (has : t.kind.HasHole text place) :
    ∃ after, Within source ('\x7d' :: after) ⟨text, place⟩ := by
  obtain ⟨r', leads, -, holes⟩ := splits.each t mem
  exact (within.leads leads).cuts (holes text place has)

/-- The tokens that a part of the source splits into are placed exactly. -/
theorem exact (splits : Splits r tokens) (within : Within source after r) :
    ExactTokens source (r.place.offset + r.rest.length) tokens where
  ends := splits.ends
  increasing := splits.increasing
  placed t mem := by
    obtain ⟨r', leads, start, -⟩ := splits.each t mem
    rw [start]
    exact (within.leads leads).exact.1
  holes t mem text place has := by
    obtain ⟨after, inner⟩ := splits.hole_within within mem has
    obtain ⟨here, stands⟩ := inner.exact
    refine ⟨here, ?_⟩
    rw [stands, List.take_length_add_append]
    rfl

end Splits

/-- Every level splits a part of the source. -/
theorem level_splits {source : String} {text : List Char} {place : Position} {tokens : List Token}
    (level : TokenLevel source text place tokens) :
    Splits ⟨text, place⟩ tokens ∧ ∃ after, Within source.toList after ⟨text, place⟩ := by
  induction level with
  | whole read => exact ⟨tokenizeAt_splits read, [], .whole _⟩
  | hole _ mem has read ih =>
    obtain ⟨splits, after, within⟩ := ih
    obtain ⟨after', inner⟩ := splits.hole_within within mem has
    exact ⟨tokenizeAt_splits read, _, inner⟩

end Lexer

/-- The tokens of a source that can be split are placed exactly, and the tokens of the substitutions of its
templates are so too, at every depth: all places are those in the whole source. -/
theorem tokens_exact {source : String} {text : List Char} {place : Position} {tokens : List Token}
    (level : TokenLevel source text place tokens) :
    ExactTokens source.toList (place.offset + text.length) tokens := by
  obtain ⟨splits, after, within⟩ := Lexer.level_splits level
  exact splits.exact within

/-- A template inside a template, with a line feed in it: the name two levels down stands on the second line. -/
theorem nested_tokens_exact : ∃ tokens, TokenLevel "`$\x7b`\n$\x7bx\x7d`\x7d`" ['x'] ⟨7, 2, 3⟩ tokens ∧
    tokens.map (·.start) = [⟨7, 2, 3⟩, ⟨8, 2, 4⟩] ∧
      ExactTokens "`$\x7b`\n$\x7bx\x7d`\x7d`".toList 8 tokens := by
  have whole : tokenize "`$\x7b`\n$\x7bx\x7d`\x7d`" =
      .ok [⟨.template [.hole ['`', '\n', '$', '\x7b', 'x', '\x7d', '`'] ⟨3, 1, 4⟩], .start, false⟩,
        ⟨.eof, ⟨12, 2, 8⟩, false⟩] := by
    with_unfolding_all rfl
  have outer : tokenizeAt ['`', '\n', '$', '\x7b', 'x', '\x7d', '`'] ⟨3, 1, 4⟩ =
      .ok [⟨.template [.text "\n", .hole ['x'] ⟨7, 2, 3⟩], ⟨3, 1, 4⟩, false⟩,
        ⟨.eof, ⟨10, 2, 6⟩, false⟩] := by
    with_unfolding_all rfl
  have inner : tokenizeAt ['x'] ⟨7, 2, 3⟩ =
      .ok [⟨.identifier "x", ⟨7, 2, 3⟩, false⟩, ⟨.eof, ⟨8, 2, 4⟩, false⟩] := by
    with_unfolding_all rfl
  have first := (TokenLevel.whole whole).hole (List.mem_cons_self ..) ⟨_, rfl, List.mem_cons_self ..⟩ outer
  have level := first.hole (List.mem_cons_self ..) ⟨_, rfl, List.mem_cons_of_mem _ (List.mem_cons_self ..)⟩ inner
  exact ⟨_, level, rfl, tokens_exact level⟩

end BindScript
