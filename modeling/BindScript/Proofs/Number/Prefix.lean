import BindScript.Evaluation.Native
import BindScript.Proofs.Parsing.NumberTexts
import BindScript.Proofs.Regime.Size

/-!
# The number at the start of a text

The number at the start of a text is cut out by a scanner that goes from one part of a numeral to the next, and falls
back when an exponent or a fraction turns out to be incomplete. Whether a text is a numeral is decided by an automaton
(`Decimal.isLiteral`) that knows no parts. Here both are compared on all starts of a text: what the scanner cuts out is
the longest start that is a numeral, and it cuts out nothing exactly if no start is one (`decimalPrefix_longest`).

The argument follows the automaton. `LongestStart` is read off one step at a time: after a character, the longest start
is one longer (`LongestStart.next`), and where no later state may end, it stops (`LongestStart.here`). The parts of a
numeral are runs of digits and single characters, so one lemma for a run of digits (`LongestStart.pass`) is all that it
takes besides.

A numeral has characters of one byte only, so its length is one in bytes as well, and it is read back as it stands
(`parse_numeral`).
-/

namespace BindScript

namespace Decimal

/-! ## Longest starts -/

variable {P : List Char → Prop} {s s' : LiteralState} {c : Char} {cs ds : List Char} {n : Nat}

/-- The longest start of a text with a property has so many characters. -/
structure LongestStart (P : List Char → Prop) (cs : List Char) (n : Nat) : Prop where
  within : n ≤ cs.length
  holds : P (cs.take n)
  longest : ∀ p, p <+: cs → P p → p.length ≤ n

/-- No start of a text has a property. -/
def NoStart (P : List Char → Prop) (cs : List Char) : Prop :=
  ∀ p, p <+: cs → ¬ P p

theorem LongestStart.unique {m n : Nat} (first : LongestStart P cs m) (second : LongestStart P cs n) : m = n := by
  have below := second.longest _ (List.take_prefix ..) first.holds
  have above := first.longest _ (List.take_prefix ..) second.holds
  rw [List.length_take, Nat.min_eq_left first.within] at below
  rw [List.length_take, Nat.min_eq_left second.within] at above
  exact Nat.le_antisymm below above

open Lexer LiteralState

/-! ## One character -/

/-- The texts that complete a literal of which `s` has been read. -/
def Completes (s : LiteralState) (cs : List Char) : Prop :=
  completesLiteral s cs = true

theorem completes_cons (step : s.next? c = some s') : Completes s (c :: cs) ↔ Completes s' cs := by
  rw [Completes, completesLiteral_cons, step]
  constructor
  · rintro ⟨_, ⟨⟩, completes⟩
    exact completes
  · exact fun completes => ⟨s', rfl, completes⟩

theorem LongestStart.next (step : s.next? c = some s') (later : LongestStart (Completes s') cs n) :
    LongestStart (Completes s) (c :: cs) (n + 1) where
  within := Nat.succ_le_succ later.within
  holds := by
    rw [List.take_succ_cons, completes_cons step]
    exact later.holds
  longest p start completes := by
    rcases List.prefix_cons_iff.1 start with rfl | ⟨q, rfl, within⟩
    · exact Nat.zero_le _
    · exact Nat.succ_le_succ (later.longest q within ((completes_cons step).1 completes))

theorem NoStart.next (stays : s.mayEnd = false) (step : s.next? c = some s')
    (later : NoStart (Completes s') cs) : NoStart (Completes s) (c :: cs) := by
  intro p start completes
  rcases List.prefix_cons_iff.1 start with rfl | ⟨q, rfl, within⟩
  · exact Bool.false_ne_true (stays.symm.trans completes)
  · exact later q within ((completes_cons step).1 completes)

/-- A literal that may end here is the longest one, if none of the states after it may ever end. -/
theorem LongestStart.here (ends : s.mayEnd = true)
    (later : ∀ c rest s', cs = c :: rest → s.next? c = some s' → NoStart (Completes s') rest) :
    LongestStart (Completes s) cs 0 where
  within := Nat.zero_le _
  holds := ends
  longest p start completes := by
    cases p with
    | nil => exact Nat.le_refl 0
    | cons c q =>
      obtain ⟨rest, rfl⟩ := start
      obtain ⟨s', step, completes⟩ := completesLiteral_cons.1 completes
      exact absurd completes (later c (q ++ rest) s' rfl step q (List.prefix_append ..))

theorem LongestStart.stop (ends : s.mayEnd = true) (stuck : ∀ c ∈ cs.head?, s.next? c = none) :
    LongestStart (Completes s) cs 0 := by
  refine .here ends ?_
  rintro c rest s' rfl step
  cases (stuck c rfl).symm.trans step

theorem NoStart.stop (stays : s.mayEnd = false) (stuck : ∀ c ∈ cs.head?, s.next? c = none) :
    NoStart (Completes s) cs := by
  intro p start completes
  cases p with
  | nil => exact Bool.false_ne_true (stays.symm.trans completes)
  | cons c q =>
    obtain ⟨rest, rfl⟩ := start
    exact not_completesLiteral_of_next? (stuck c rfl) completes

/-! ## Runs of digits -/

theorem LongestStart.pass (digits : ∀ d ∈ ds, d.isDigit = true) (later : LongestStart (Completes (s.pass ds)) cs n) :
    LongestStart (Completes s) (ds ++ cs) (ds.length + n) := by
  induction ds generalizing s with
  | nil => rwa [List.nil_append, List.length_nil, Nat.zero_add]
  | cons d ds ih =>
    obtain ⟨digit, digits⟩ := List.forall_mem_cons.1 digits
    rw [List.cons_append, List.length_cons, Nat.succ_add]
    exact .next (next?_digit digit) (ih digits later)

theorem isDigit_of_mem_digits : ∀ c ∈ cs.takeWhile Char.isDigit, c.isDigit = true :=
  fun _ mem => List.mem_takeWhile_imp mem

theorem not_isDigit_after_digits : ∀ c ∈ (cs.dropWhile Char.isDigit).head?, ¬ c.isDigit = true := by
  intro c first digit
  have stops := List.head?_dropWhile_not Char.isDigit cs
  rw [first] at stops
  simp [digit] at stops

/-- The digits of an exponent complete it, if there are any. -/
theorem LongestStart.digits (seen : s.seenDigit = true) (exponent : s.seenExponent = true)
    (some : cs.takeWhile Char.isDigit ≠ []) :
    LongestStart (Completes s) cs (cs.takeWhile Char.isDigit).length := by
  obtain ⟨d, more, run⟩ := List.exists_cons_of_ne_nil some
  have digits : ∀ c ∈ d :: more, c.isDigit = true := run ▸ isDigit_of_mem_digits
  obtain ⟨first, others⟩ := List.forall_mem_cons.1 digits
  -- the first digit settles the state, whatever was read last before it
  have settled : (s.pass (d :: more)).Settled :=
    .pass (s := { s with seenDigit := true, last := d }) (settled_of_isDigit first) others
  have ends : (s.pass (d :: more)).mayEnd = true := by
    rw [mayEnd_of_settled settled]
    exact (pass_seenDigit ..).2 (.inl seen)
  have stops : LongestStart (Completes (s.pass (d :: more))) (cs.dropWhile Char.isDigit) 0 :=
    .stop ends fun c mem => next?_exponent ((pass_seenExponent ..).trans exponent) (not_isDigit_after_digits c mem)
      fun mark => absurd mark settled.1
  have whole := LongestStart.pass digits stops
  rwa [← run, List.takeWhile_append_dropWhile] at whole

/-- An exponent without digits is never complete. -/
theorem NoStart.digits (stays : s.mayEnd = false) (none : cs.takeWhile Char.isDigit = [])
    (stuck : ∀ c ∈ cs.head?, ¬ c.isDigit = true → s.next? c = .none) : NoStart (Completes s) cs := by
  refine .stop stays fun c first => stuck c first fun digit => ?_
  obtain ⟨rest, rfl⟩ := List.head?_eq_some_iff.1 first
  rw [List.takeWhile_cons_of_pos digit] at none
  cases none

/-! ## The exponent -/

/-- How many characters of a text are an exponent at its front. One without digits is none. -/
def exponentLength : List Char → Nat
  | e :: r =>
    if e = 'e' || e = 'E' then
      let mark := match r with
        | '+' :: _ | '-' :: _ => 2
        | _ => 1
      let digits := ((e :: r).drop mark).takeWhile Char.isDigit
      if digits.isEmpty then 0 else mark + digits.length
    else 0
  | [] => 0

/-- A mark counts only if there are digits after it. -/
theorem exponentLength_mark (mark : IsExponentMark c) (cs : List Char) : exponentLength (c :: cs) =
    if ((signed cs).2.takeWhile Char.isDigit).isEmpty then 0
      else 1 + (signed cs).1.length + ((signed cs).2.takeWhile Char.isDigit).length := by
  have marked : (c = 'e' || c = 'E') = true := by simpa [IsExponentMark] using mark
  unfold exponentLength
  dsimp only
  rw [if_pos marked]
  rcases signed_cases cs with ⟨_, ds, rfl | rfl, rfl, -⟩ | ⟨unsigned, same⟩
  · rfl
  · rfl
  · rw [same]
    split
    · exact absurd rfl (unsigned '+' rfl).1
    · exact absurd rfl (unsigned '-' rfl).2
    · rfl

theorem exponentLength_other (mark : ¬ IsExponentMark c) (cs : List Char) : exponentLength (c :: cs) = 0 :=
  if_neg (by simpa [IsExponentMark] using mark)

/-- What comes after the mark of an exponent completes it up to its last digit, or not at all. -/
theorem longest_afterMark (seen : s.seenDigit = true) (exponent : s.seenExponent = true) (mark : IsExponentMark s.last)
    (cs : List Char) :
    ((signed cs).2.takeWhile Char.isDigit = [] → NoStart (Completes s) cs) ∧
      ((signed cs).2.takeWhile Char.isDigit ≠ [] → LongestStart (Completes s) cs
        ((signed cs).1.length + ((signed cs).2.takeWhile Char.isDigit).length)) := by
  have opened : s.mayEnd = false := by
    rw [mayEnd]
    rcases mark with mark | mark
    all_goals simp [mark]
  rcases signed_cases cs with ⟨sign, ds, signs, rfl, same⟩ | ⟨unsigned, same⟩
  · have step : s.next? sign = some { s with last := sign } := by
      rw [next?_sign signs, if_pos]
      simpa [IsExponentMark] using mark
    have closed : ¬ IsExponentMark sign := by
      rcases signs with rfl | rfl
      all_goals
        unfold IsExponentMark
        decide
    have still : LiteralState.mayEnd { s with last := sign } = false := by
      rw [mayEnd]
      rcases signs with rfl | rfl
      all_goals simp
    rw [same]
    refine ⟨fun none => .next opened step (.digits still none fun c _ digit => ?_), fun some => ?_⟩
    · exact next?_exponent (s := { s with last := sign }) exponent digit fun mark => absurd mark closed
    · rw [List.length_singleton, Nat.add_comm]
      exact .next step (.digits seen exponent some)
  · rw [same]
    refine ⟨fun none => .digits opened none fun c first digit => ?_, fun some => ?_⟩
    · exact next?_exponent exponent digit fun _ => not_or.2 (unsigned c first)
    · rw [List.length_nil, Nat.zero_add]
      exact .digits seen exponent some

/-- After its mantissa, a literal goes on with its exponent, if the exponent is complete. -/
theorem longest_exponent (settled : s.Settled) (seen : s.seenDigit = true) (before : s.seenExponent = false)
    (first : ∀ c ∈ cs.head?, ¬ c.isDigit = true ∧ (c = '.' → s.seenPoint = true)) :
    LongestStart (Completes s) cs (exponentLength cs) := by
  have ends : s.mayEnd = true := (mayEnd_of_settled settled).trans seen
  cases cs with
  | nil => exact .stop ends nofun
  | cons c cs =>
    obtain ⟨digit, point⟩ := first c rfl
    by_cases mark : IsExponentMark c
    · have step : s.next? c = some { s with seenExponent := true, last := c } := by
        rw [next?_mark mark, seen, before]
        rfl
      obtain ⟨never, longest⟩ := longest_afterMark (s := { s with seenExponent := true, last := c }) seen rfl mark cs
      rw [exponentLength_mark mark]
      by_cases none : (signed cs).2.takeWhile Char.isDigit = []
      · rw [none, if_pos List.isEmpty_nil]
        refine .here ends ?_
        rintro _ _ _ ⟨⟩ other
        cases step.symm.trans other
        exact never none
      · rw [if_neg (by simpa using none), Nat.add_assoc, Nat.add_comm 1]
        exact .next step (longest none)
    · rw [exponentLength_other mark]
      exact .stop ends fun _ same => Option.some.inj same ▸ next?_settled settled digit point mark

/-! ## The literal -/

/-- How many characters of a text are a literal at its front: digits, a point and more digits, and the exponent. -/
def literalLength (cs : List Char) : Nat :=
  let whole := cs.takeWhile Char.isDigit
  let rest := cs.drop whole.length
  let (point, fraction) := match rest with
    | '.' :: r => (1, r.takeWhile Char.isDigit)
    | _ => (0, [])
  if whole.isEmpty && fraction.isEmpty then 0
  else
    let mantissa := whole.length + point + fraction.length
    mantissa + exponentLength (cs.drop mantissa)

theorem literalLength_point {r : List Char} (rest : cs.dropWhile Char.isDigit = '.' :: r) :
    literalLength cs = if cs.takeWhile Char.isDigit = [] ∧ r.takeWhile Char.isDigit = [] then 0
      else (cs.takeWhile Char.isDigit).length +
        ((r.takeWhile Char.isDigit).length + exponentLength (r.dropWhile Char.isDigit) + 1) := by
  have split : cs.takeWhile Char.isDigit ++ '.' :: r = cs := rest ▸ List.takeWhile_append_dropWhile
  have further : cs.drop ((cs.takeWhile Char.isDigit).length + 1 + (r.takeWhile Char.isDigit).length) =
      r.dropWhile Char.isDigit := by
    rw [← drop_length_takeWhile, ← List.drop_drop, ← List.drop_drop, drop_length_takeWhile, rest]
    rfl
  unfold literalLength
  simp only [drop_length_takeWhile, rest, further, Bool.and_eq_true, List.isEmpty_iff]
  split
  · rfl
  · omega

theorem literalLength_plain (plain : (cs.dropWhile Char.isDigit).head? ≠ some '.') :
    literalLength cs = if cs.takeWhile Char.isDigit = [] then 0
      else (cs.takeWhile Char.isDigit).length + exponentLength (cs.dropWhile Char.isDigit) := by
  unfold literalLength
  simp only [drop_length_takeWhile]
  split
  · next r rest => exact absurd (congrArg List.head? rest) plain
  · simp only [List.isEmpty_nil, Bool.and_true, List.isEmpty_iff, List.length_nil, Nat.add_zero,
      drop_length_takeWhile]

/-- Without a digit no mantissa is complete, whatever comes after it. -/
theorem NoStart.undigited (settled : s.Settled) (unseen : s.seenDigit = false)
    (first : ∀ c ∈ cs.head?, ¬ c.isDigit = true ∧ (c = '.' → s.seenPoint = true)) : NoStart (Completes s) cs := by
  refine .stop ((mayEnd_of_settled settled).trans unseen) fun c mem => ?_
  obtain ⟨digit, point⟩ := first c mem
  by_cases mark : IsExponentMark c
  · rw [next?_mark mark, unseen, Bool.false_and, if_neg Bool.false_ne_true]
  · exact next?_settled settled digit point mark

section Mantissa

variable {whole rest : List Char} (digits : ∀ d ∈ whole, d.isDigit = true)
include digits

/-- The state after the digits of the whole part. -/
theorem whole_state : (LiteralState.pass {} whole).Settled ∧ (LiteralState.pass {} whole).seenPoint = false ∧
    (LiteralState.pass {} whole).seenExponent = false ∧
    ((LiteralState.pass {} whole).seenDigit = true ↔ whole ≠ []) :=
  ⟨.pass (settled_of_last (.inl rfl)) digits, pass_seenPoint .., pass_seenExponent ..,
    (pass_seenDigit ..).trans (or_iff_right nofun)⟩

/-- A text that goes on with something else than a point after its first digits. -/
theorem longest_whole (first : ∀ c ∈ rest.head?, ¬ c.isDigit = true ∧ c ≠ '.') :
    (whole = [] → NoStart (Completes {}) (whole ++ rest)) ∧
      (whole ≠ [] → LongestStart (Completes {}) (whole ++ rest) (whole.length + exponentLength rest)) := by
  obtain ⟨settled, -, exponent, seen⟩ := whole_state digits
  constructor
  · rintro rfl
    exact .undigited settled rfl fun c mem => ⟨(first c mem).1, fun dot => absurd dot (first c mem).2⟩
  · intro some
    exact .pass digits (longest_exponent settled (seen.2 some) exponent fun c mem =>
      ⟨(first c mem).1, fun dot => absurd dot (first c mem).2⟩)

/-- A text that goes on with a point and more digits after its first digits. -/
theorem longest_fraction (fraction : ∀ d ∈ ds, d.isDigit = true) (first : ∀ c ∈ rest.head?, ¬ c.isDigit = true) :
    (whole = [] ∧ ds = [] → NoStart (Completes {}) (whole ++ '.' :: (ds ++ rest))) ∧
      (¬ (whole = [] ∧ ds = []) → LongestStart (Completes {}) (whole ++ '.' :: (ds ++ rest))
        (whole.length + (ds.length + exponentLength rest + 1))) := by
  obtain ⟨-, point, exponent, seen⟩ := whole_state digits
  let pointed : LiteralState := { LiteralState.pass {} whole with seenPoint := true, last := '.' }
  have step : (LiteralState.pass {} whole).next? '.' = some pointed := by
    rw [next?_dot, if_neg (by simp [point, exponent])]
  have settled : pointed.Settled := settled_of_last (.inr rfl)
  constructor
  · rintro ⟨rfl, rfl⟩
    exact .next rfl step (.undigited settled rfl fun c mem => ⟨first c mem, fun _ => rfl⟩)
  · intro some
    have digit : (pointed.pass ds).seenDigit = true := by
      rw [pass_seenDigit]
      by_cases none : whole = []
      · exact .inr fun none' => some ⟨none, none'⟩
      · exact .inl (seen.2 none)
    exact .pass digits (.next step (.pass fraction (longest_exponent (settled.pass fraction) digit
      ((pass_seenExponent ..).trans exponent) fun c mem => ⟨first c mem, fun _ => pass_seenPoint ..⟩)))

end Mantissa

/-- The longest start of a text that is a literal is found part by part. -/
theorem literalLength_cases (cs : List Char) :
    literalLength cs = 0 ∧ NoStart (Completes {}) cs ∨
      0 < literalLength cs ∧ LongestStart (Completes {}) cs (literalLength cs) := by
  have digits : ∀ c ∈ cs.takeWhile Char.isDigit, c.isDigit = true := isDigit_of_mem_digits
  have split : cs.takeWhile Char.isDigit ++ cs.dropWhile Char.isDigit = cs := List.takeWhile_append_dropWhile
  by_cases dot : (cs.dropWhile Char.isDigit).head? = some '.'
  · obtain ⟨r, rest⟩ := List.head?_eq_some_iff.1 dot
    have fraction : ∀ c ∈ r.takeWhile Char.isDigit, c.isDigit = true := isDigit_of_mem_digits
    obtain ⟨never, longest⟩ := longest_fraction digits fraction not_isDigit_after_digits
    rw [List.takeWhile_append_dropWhile, ← rest, split] at never longest
    rw [literalLength_point rest]
    by_cases none : cs.takeWhile Char.isDigit = [] ∧ r.takeWhile Char.isDigit = []
    · exact .inl ⟨if_pos none, never none⟩
    · rw [if_neg none]
      exact .inr ⟨by omega, longest none⟩
  · have first : ∀ c ∈ (cs.dropWhile Char.isDigit).head?, ¬ c.isDigit = true ∧ c ≠ '.' := fun c mem =>
      ⟨not_isDigit_after_digits c mem, fun same => dot (same ▸ mem)⟩
    obtain ⟨never, longest⟩ := longest_whole digits first
    rw [split] at never longest
    rw [literalLength_plain dot]
    by_cases none : cs.takeWhile Char.isDigit = []
    · exact .inl ⟨if_pos none, never none⟩
    · rw [if_neg none]
      exact .inr ⟨Nat.add_pos_left (List.length_pos_iff.2 none) _, longest none⟩

end Decimal

namespace Number

open Decimal Lexer

variable {cs p : List Char} {x : Float} {n : Nat}

/-! ## Numerals -/

/-- What may stand behind the sign of a numeral, and the number it stands for. -/
inductive Magnitude : List Char → Float → Prop
  | infinity : Magnitude "Infinity".toList infinity
  | literal {cs : List Char} (literal : isLiteral cs = true) : Magnitude cs (literalToFloat cs)

/-- A text that a number may begin with: `Infinity` or a decimal literal, with a sign before it or without one. -/
inductive Numeral : List Char → Prop
  | unsigned {cs : List Char} {x : Float} (magnitude : Magnitude cs x) : Numeral cs
  | plus {cs : List Char} {x : Float} (magnitude : Magnitude cs x) : Numeral ('+' :: cs)
  | minus {cs : List Char} {x : Float} (magnitude : Magnitude cs x) : Numeral ('-' :: cs)

/-- The texts that the conversion to numbers takes, without blanks around them, and the number that it answers: nothing,
a numeral, or a zero, the mark of a radix and digits of the radix. -/
inductive Denotes : List Char → Float → Prop
  | empty : Denotes [] 0.0
  | radix {mark : Char} {radix : Nat} {digits : List Char} {x : Float} (marks : radixMark? mark = some radix)
    (value : parseRadix radix digits = some x) : Denotes ('0' :: mark :: digits) x
  | unsigned {cs : List Char} {x : Float} (magnitude : Magnitude cs x) : Denotes cs x
  | plus {cs : List Char} {x : Float} (magnitude : Magnitude cs x) : Denotes ('+' :: cs) x
  | minus {cs : List Char} {x : Float} (magnitude : Magnitude cs x) : Denotes ('-' :: cs) (-x)

/-! ### Characters -/

theorem isDecimalPart_of_completes {s : LiteralState} (completes : Completes s cs) :
    ∀ c ∈ cs, isDecimalPart c = true := by
  induction cs generalizing s with
  | nil => exact nofun
  | cons c cs ih =>
    obtain ⟨s', step, completes⟩ := completesLiteral_cons.1 completes
    refine List.forall_mem_cons.2 ⟨?_, ih completes⟩
    by_contra other
    simp only [isDecimalPart, isDigitOrSeparator, Bool.or_eq_true, decide_eq_true_eq, not_or] at other
    obtain ⟨⟨⟨⟨⟨⟨digit, -⟩, dot⟩, lower⟩, upper⟩, plus⟩, minus⟩ := other
    cases (LiteralState.next?_other digit dot (not_or.2 ⟨lower, upper⟩) (not_or.2 ⟨plus, minus⟩)).symm.trans step

theorem Magnitude.parts (magnitude : Magnitude cs x) : ∀ c ∈ cs, isNumberPart c = true := by
  cases magnitude with
  | infinity => exact List.all_eq_true.1 rfl
  | literal literal => exact fun c mem => isNumberPart_of_isDecimalPart (isDecimalPart_of_completes literal c mem)

theorem Numeral.parts (numeral : Numeral cs) : ∀ c ∈ cs, isNumberPart c = true := by
  cases numeral with
  | unsigned magnitude => exact magnitude.parts
  | plus magnitude => exact List.forall_mem_cons.2 ⟨rfl, magnitude.parts⟩
  | minus magnitude => exact List.forall_mem_cons.2 ⟨rfl, magnitude.parts⟩

theorem Magnitude.ne_nil (magnitude : Magnitude cs x) : cs ≠ [] := by
  rintro rfl
  cases magnitude with
  | literal literal => cases literal

/-- The sign of a numeral is no part of its magnitude. -/
theorem Magnitude.first (magnitude : Magnitude cs x) : ∀ c ∈ cs.head?, c ≠ '+' ∧ c ≠ '-' := by
  cases magnitude with
  | infinity =>
    rintro _ ⟨⟩
    decide
  | literal literal =>
    intro c mem
    obtain ⟨rest, rfl⟩ := List.head?_eq_some_iff.1 mem
    refine not_or.1 fun sign => not_completesLiteral_of_next? ?_ literal
    rw [LiteralState.next?_sign sign]
    rfl

/-- A numeral is a magnitude behind a sign, if there is one. -/
theorem numeral_iff : Numeral cs ↔ ∃ x, Magnitude (signed cs).2 x := by
  constructor
  · intro numeral
    cases numeral with
    | unsigned magnitude =>
      rw [signed_of_unsigned magnitude.first]
      exact ⟨_, magnitude⟩
    | plus magnitude => exact ⟨_, magnitude⟩
    | minus magnitude => exact ⟨_, magnitude⟩
  · rintro ⟨x, magnitude⟩
    rcases signed_cases cs with ⟨sign, ds, rfl | rfl, rfl, -⟩ | ⟨-, same⟩
    · exact .plus magnitude
    · exact .minus magnitude
    · rw [same] at magnitude
      exact .unsigned magnitude

/-! ### What is read -/

theorem parseUnsigned_magnitude (magnitude : Magnitude cs x) (signed : Bool) : parseUnsigned signed cs = x := by
  cases magnitude with
  | infinity => exact if_pos rfl
  | literal literal =>
    have finite : cs ≠ "Infinity".toList := by
      rintro rfl
      exact absurd literal (by decide)
    rw [parseUnsigned, if_neg finite, radixLiteral?_decimal (isDecimalPart_of_completes literal)]
    exact if_pos literal

theorem parseTrimmed_unsigned (some : cs ≠ []) (first : ∀ c ∈ cs.head?, c ≠ '+' ∧ c ≠ '-') :
    parseTrimmed cs = parseUnsigned false cs := by
  unfold parseTrimmed
  split
  · exact absurd rfl some
  · exact absurd rfl (first '-' rfl).2
  · exact absurd rfl (first '+' rfl).1
  · rfl

/-- The text is read as the number that it denotes. -/
theorem parseTrimmed_denotes (denotes : Denotes cs x) : parseTrimmed cs = x := by
  cases denotes with
  | empty => rfl
  | @radix mark radix digits _ marks value =>
    have marked : radixLiteral? ('0' :: mark :: digits) = some (radix, digits) :=
      radixLiteral?_eq_some_iff.2 ⟨mark, rfl, marks⟩
    have unsigned : parseTrimmed ('0' :: mark :: digits) = parseUnsigned false ('0' :: mark :: digits) := rfl
    rw [unsigned, parseUnsigned, if_neg (by rintro ⟨⟩), marked]
    show (parseRadix radix digits).getD nan = x
    rw [value]
    rfl
  | unsigned magnitude =>
    rw [parseTrimmed_unsigned magnitude.ne_nil magnitude.first, parseUnsigned_magnitude magnitude]
  | plus magnitude => exact parseUnsigned_magnitude magnitude true
  | minus magnitude => exact congrArg (- ·) (parseUnsigned_magnitude magnitude true)

/-- A numeral has no blanks around it, and is read as it stands. -/
theorem parse_numeral (numeral : Numeral cs) : Denotes cs (parse (String.ofList cs)) := by
  have same : parse (String.ofList cs) = parseTrimmed cs := by
    rw [parse, String.toList_ofList, trim_of_isNumberPart numeral.parts]
  rw [same]
  cases numeral with
  | unsigned magnitude => exact (parseTrimmed_denotes (.unsigned magnitude)).symm ▸ .unsigned magnitude
  | plus magnitude => exact (parseTrimmed_denotes (.plus magnitude)).symm ▸ .plus magnitude
  | minus magnitude => exact (parseTrimmed_denotes (.minus magnitude)).symm ▸ .minus magnitude

/-! ## The scanner -/

/-- How many characters of a text are a numeral without a sign at its front. -/
def magnitudeLength (cs : List Char) : Nat :=
  if "Infinity".toList.isPrefixOf cs then 8 else literalLength cs

/-- Either no start of the text is a magnitude, or the scanner finds the longest start that is. -/
theorem magnitudeLength_cases (cs : List Char) :
    magnitudeLength cs = 0 ∧ NoStart (fun p => ∃ x, Magnitude p x) cs ∨
      0 < magnitudeLength cs ∧ LongestStart (fun p => ∃ x, Magnitude p x) cs (magnitudeLength cs) := by
  unfold magnitudeLength
  split
  · next infinite =>
    have infinite : "Infinity".toList <+: cs := List.isPrefixOf_iff_prefix.1 infinite
    right
    refine ⟨by decide, infinite.length_le, ⟨infinity, ?_⟩, fun p start numeral => ?_⟩
    · have taken : "Infinity".toList = cs.take 8 := List.prefix_iff_eq_take.1 infinite
      exact taken ▸ .infinity
    · obtain ⟨x, numeral⟩ := numeral
      cases numeral with
      | infinity => exact Nat.le_refl _
      | literal literal =>
        -- no literal begins with a letter
        obtain ⟨rest, rfl⟩ := infinite
        cases p with
        | nil => exact Nat.zero_le _
        | cons c p =>
          obtain ⟨rfl, -⟩ := List.cons_prefix_cons.1 start
          exact absurd literal (not_completesLiteral_of_next? rfl)
  · next finite =>
    have finite : ¬ "Infinity".toList <+: cs := fun start => finite (List.isPrefixOf_iff_prefix.2 start)
    have same : ∀ p, p <+: cs → ((∃ x, Magnitude p x) ↔ Completes {} p) := by
      intro p start
      constructor
      · rintro ⟨x, magnitude⟩
        cases magnitude with
        | infinity => exact absurd start finite
        | literal literal => exact literal
      · exact fun literal => ⟨_, .literal literal⟩
    rcases literalLength_cases cs with ⟨none, never⟩ | ⟨some, longest⟩
    · exact .inl ⟨none, fun p start numeral => never p start ((same p start).1 numeral)⟩
    · refine .inr ⟨some, longest.within, (same _ (List.take_prefix ..)).2 longest.holds, fun p start numeral => ?_⟩
      exact longest.longest p start ((same p start).1 numeral)

theorem signed_append (cs : List Char) : (signed cs).1 ++ (signed cs).2 = cs := by
  rcases signed_cases cs with ⟨sign, ds, -, rfl, same⟩ | ⟨-, same⟩
  · rw [same]
    rfl
  · rw [same]
    rfl

/-- A start of a text has the sign of the text and a start of what comes after it, or it is empty. -/
theorem signed_start (start : p <+: cs) (some : p ≠ []) :
    (signed p).1 = (signed cs).1 ∧ (signed p).2 <+: (signed cs).2 := by
  obtain ⟨c, q, rfl⟩ := List.exists_cons_of_ne_nil some
  obtain ⟨rest, rfl⟩ := start
  rcases signed_cases (c :: q) with ⟨sign, ds, signs, same, parts⟩ | ⟨unsigned, parts⟩
  · cases same
    rcases signs with rfl | rfl
    · exact ⟨rfl, List.prefix_append ..⟩
    · exact ⟨rfl, List.prefix_append ..⟩
  · have whole : signed (c :: q ++ rest) = ([], c :: q ++ rest) := signed_of_unsigned unsigned
    rw [whole, parts]
    exact ⟨rfl, List.prefix_append ..⟩

theorem Numeral.ne_nil (numeral : Numeral p) : p ≠ [] := by
  rintro rfl
  obtain ⟨x, magnitude⟩ := numeral_iff.1 numeral
  exact magnitude.ne_nil rfl

/-- The sign belongs to the numeral after it. -/
theorem longest_signed (longest : LongestStart (fun p => ∃ x, Magnitude p x) (signed cs).2 n) :
    LongestStart Numeral cs ((signed cs).1.length + n) where
  within := by
    have length := congrArg List.length (signed_append cs)
    rw [List.length_append] at length
    have within := longest.within
    omega
  holds := by
    have taken : ((signed cs).1 ++ (signed cs).2).take ((signed cs).1.length + n) =
        (signed cs).1 ++ (signed cs).2.take n := List.take_length_add_append n
    rw [signed_append] at taken
    obtain ⟨x, magnitude⟩ := longest.holds
    rw [taken]
    rcases signed_cases cs with ⟨sign, ds, rfl | rfl, rfl, -⟩ | ⟨-, same⟩
    · exact .plus magnitude
    · exact .minus magnitude
    · rw [same] at magnitude ⊢
      exact .unsigned magnitude
  longest p start numeral := by
    obtain ⟨sign, rest⟩ := signed_start start numeral.ne_nil
    have below := longest.longest _ rest (numeral_iff.1 numeral)
    rw [← signed_append p, List.length_append, sign]
    exact Nat.add_le_add_left below _

/-- Whether something is read or nothing, it is read after the sign. -/
private theorem length_behind (sign : Nat) (none : Bool) (mantissa exponent : Nat)
    (some : none = false → 0 < mantissa) :
    (if none then 0 else sign + mantissa + exponent) =
      if (if none then 0 else mantissa + exponent) = 0 then 0
      else sign + if none then 0 else mantissa + exponent := by
  cases none with
  | true => rfl
  | false =>
    have some := some rfl
    simp only [Bool.false_eq_true, if_false]
    rw [if_neg (by omega), Nat.add_assoc]

/-- The scanner reads the sign, and then the magnitude part by part. -/
theorem decimalPrefixLength_eq (cs : List Char) : decimalPrefixLength cs =
    if magnitudeLength (signed cs).2 = 0 then 0 else (signed cs).1.length + magnitudeLength (signed cs).2 := by
  unfold decimalPrefixLength
  extract_lets sign body whole rest
  have sign_eq : sign = (signed cs).1.length := by
    unfold sign
    rcases signed_cases cs with ⟨_, ds, rfl | rfl, rfl, -⟩ | ⟨unsigned, same⟩
    · rfl
    · rfl
    · rw [same]
      split
      · exact absurd rfl (unsigned '+' rfl).1
      · exact absurd rfl (unsigned '-' rfl).2
      · rfl
  have body_eq : body = (signed cs).2 := by
    unfold body
    conv_lhs => rw [← signed_append cs]
    rw [sign_eq, List.drop_left]
  rw [← sign_eq, ← body_eq]
  unfold magnitudeLength
  split
  · rfl
  · unfold literalLength
    have shifted (parts : Nat × List Char) := length_behind sign
      (whole.isEmpty && parts.2.isEmpty) (whole.length + parts.1 + parts.2.length)
      (exponentLength (body.drop (whole.length + parts.1 + parts.2.length))) fun some => by
        have some : whole ++ parts.2 ≠ [] := by simpa using some
        have length := List.length_pos_iff.2 some
        rw [List.length_append] at length
        omega
    exact shifted _

theorem decimalPrefixLength_cases (cs : List Char) :
    decimalPrefixLength cs = 0 ∧ NoStart Numeral cs ∨
      0 < decimalPrefixLength cs ∧ LongestStart Numeral cs (decimalPrefixLength cs) := by
  rw [decimalPrefixLength_eq]
  rcases magnitudeLength_cases (signed cs).2 with ⟨none, never⟩ | ⟨some, longest⟩
  · refine .inl ⟨if_pos none, fun p start numeral => ?_⟩
    exact never _ (signed_start start numeral.ne_nil).2 (numeral_iff.1 numeral)
  · rw [if_neg (Nat.ne_of_gt some)]
    exact .inr ⟨Nat.add_pos_right _ some, longest_signed longest⟩

/-! ## Bytes -/

/-- A character of a numeral is one byte. -/
theorem utf8ByteSize_numeral (numeral : Numeral p) : (String.ofList p).utf8ByteSize = p.length := by
  have bytes : ∀ c ∈ p, c.utf8Size = 1 := by
    intro c mem
    have small := (range_of_isNumberPart (numeral.parts c mem)).2
    exact Char.utf8Size_eq_one_iff.2 (by
      show c.toNat ≤ 127
      omega)
  rw [Text.utf8ByteSize_ofList, List.map_congr_left bytes]
  simp

/-- What a number of bytes at the start of a text is, if it is the longest numeral there, or zero as there is none. -/
structure LongestNumeral (text : String) (n : Nat) : Prop where
  none : n = 0 ↔ NoStart Numeral text.toList
  longest : ∀ p, p <+: text.toList → Numeral p → (String.ofList p).utf8ByteSize ≤ n
  /-- The bytes are whole characters, so the text can be cut behind them. -/
  boundary : String.Pos.Raw.IsValid text ⟨n⟩
  /-- What is cut off is a numeral of so many bytes, and is read as the number that it denotes. -/
  slice : n ≠ 0 → ∃ p rest, text.toList = p ++ rest ∧ (String.ofList p).utf8ByteSize = n ∧ Numeral p ∧
    Denotes p (parse (String.ofList p))

/-- A sign, digits, a fraction and an exponent: each part is passed as far as it goes, and without digits there is no
numeral. -/
theorem longestNumeral_decimalPrefixLength (text : String) :
    LongestNumeral text (decimalPrefixLength text.toList) := by
  rcases decimalPrefixLength_cases text.toList with ⟨zero, never⟩ | ⟨some, found⟩
  · rw [zero]
    exact {
      none := iff_of_true rfl never
      longest := fun p start numeral => absurd numeral (never p start)
      boundary := String.Pos.Raw.isValid_zero
      slice := fun some => absurd rfl some }
  · have split := List.take_append_drop (decimalPrefixLength text.toList) text.toList
    have bytes : (String.ofList (text.toList.take (decimalPrefixLength text.toList))).utf8ByteSize =
        decimalPrefixLength text.toList := by
      rw [utf8ByteSize_numeral found.holds, List.length_take, Nat.min_eq_left found.within]
    exact {
      none := iff_of_false (Nat.ne_of_gt some) fun never => never _ (List.take_prefix ..) found.holds
      longest := fun p start numeral => utf8ByteSize_numeral numeral ▸ found.longest p start numeral
      boundary := by
        have cut := String.Pos.Raw.isValid_ofList.2
          ⟨decimalPrefixLength text.toList, (bytes.symm : (⟨_⟩ : String.Pos.Raw).byteIdx = _)⟩
        rwa [String.ofList_toList] at cut
      slice := fun _ => ⟨_, _, split.symm, bytes, found.holds, parse_numeral found.holds⟩ }

/-- **The number at the start of a text is its longest numeral.** The scanner gives the bytes of the longest start of a
text that is a decimal literal or `Infinity`, with a sign or without one, and zero exactly if there is none. It never
cuts a character, and what it cuts off is read as the number that it denotes. So the conversion of the start of a text,
after its blanks, gives the number that the longest numeral there denotes, and NaN if there is none. -/
theorem decimalPrefix_longest (text : String) :
    LongestNumeral text (decimalPrefixLength text.toList) ∧
      (NoStart Numeral (Text.trimLeft text.toList) → NativeFn.numberPrefix text = nan) ∧
      ∀ n, LongestStart Numeral (Text.trimLeft text.toList) n →
        Denotes ((Text.trimLeft text.toList).take n) (NativeFn.numberPrefix text) := by
  refine ⟨longestNumeral_decimalPrefixLength text, fun never => ?_, fun n longest => ?_⟩
  · rcases decimalPrefixLength_cases (Text.trimLeft text.toList) with ⟨zero, -⟩ | ⟨-, found⟩
    · unfold NativeFn.numberPrefix
      dsimp only
      rw [zero]
      rfl
    · exact absurd found.holds (never _ (List.take_prefix ..))
  · rcases decimalPrefixLength_cases (Text.trimLeft text.toList) with ⟨-, never⟩ | ⟨some, found⟩
    · exact absurd longest.holds (never _ (List.take_prefix ..))
    · obtain rfl := found.unique longest
      have read : NativeFn.numberPrefix text = parse (String.ofList
          ((Text.trimLeft text.toList).take (decimalPrefixLength (Text.trimLeft text.toList)))) := by
        unfold NativeFn.numberPrefix
        dsimp only
        split
        · next zero => exact absurd zero (Nat.ne_of_gt some)
        · rfl
      rw [read]
      exact parse_numeral found.holds

/-- An exponent without digits is left over, and a text that begins with one has no number at its start. -/
theorem decimalPrefix_longest_exponents :
    LongestStart Numeral "-1.5e+x".toList 4 ∧ Denotes "-1.5".toList (NativeFn.numberPrefix " -1.5e+x") ∧
      NoStart Numeral ".e5".toList ∧ NativeFn.numberPrefix ".e5" = nan := by
  have blank : Text.trimLeft " -1.5e+x".toList = "-1.5e+x".toList := by decide
  have plain : Text.trimLeft ".e5".toList = ".e5".toList := by decide
  have longest : LongestStart Numeral "-1.5e+x".toList 4 :=
    (decimalPrefixLength_cases "-1.5e+x".toList).elim (fun none => absurd none.1 (by decide)) And.right
  have never : NoStart Numeral ".e5".toList :=
    (decimalPrefixLength_cases ".e5".toList).elim And.right fun some => absurd some.1 (by decide)
  exact ⟨longest, (decimalPrefix_longest " -1.5e+x").2.2 4 (blank ▸ longest), never,
    (decimalPrefix_longest ".e5").2.1 (plain ▸ never)⟩

end Number

end BindScript
