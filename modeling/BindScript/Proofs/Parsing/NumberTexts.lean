import BindScript.Proofs.Parsing.Separators

/-!
# The same numbers in sources and in texts

The scanner of numbers and the conversion of texts to numbers were not made from one definition. The scanner takes the
parts of a literal one after another and then looks at what comes after it; the conversion runs over the whole text and
keeps in mind what it has seen. Both accept the same texts, and read the same values (`isNumber_iff_finiteLiteral`).

What the conversion has seen when it has passed over the digits before and after the point is whether there was a digit
(`isLiteral_afterFraction`), and that is what the scanner asks of the first characters before it starts. From there on
both go through the exponent (`completesLiteral_mark`). The mark of the exponent is read back in lower case by the
scanner, and does not matter for the value (`literalToFloat_lowerMark`).
-/

namespace BindScript

namespace Decimal

open Lexer

variable {s : LiteralState} {c : Char} {cs : List Char}

/-! ## What has been read -/

/-- The state after so many digits. -/
def LiteralState.pass (s : LiteralState) (digits : List Char) : LiteralState :=
  digits.foldl (fun s c => { s with seenDigit := true, last := c }) s

/-- The exponent is not open: neither its mark nor its sign was read last. -/
def LiteralState.Settled (s : LiteralState) : Prop :=
  ¬ IsExponentMark s.last ∧ s.last ≠ '+' ∧ s.last ≠ '-'

theorem settled_of_isDigit (digit : c.isDigit = true) : ¬ IsExponentMark c ∧ c ≠ '+' ∧ c ≠ '-' := by
  refine ⟨?_, ?_, ?_⟩
  · rintro (rfl | rfl)
    all_goals exact absurd digit (by decide)
  all_goals
    rintro rfl
    exact absurd digit (by decide)

namespace LiteralState

theorem pass_seenPoint (s : LiteralState) (digits : List Char) : (s.pass digits).seenPoint = s.seenPoint := by
  induction digits generalizing s with
  | nil => rfl
  | cons c digits ih => exact ih _

theorem pass_seenExponent (s : LiteralState) (digits : List Char) :
    (s.pass digits).seenExponent = s.seenExponent := by
  induction digits generalizing s with
  | nil => rfl
  | cons c digits ih => exact ih _

theorem pass_seenDigit (s : LiteralState) (digits : List Char) :
    (s.pass digits).seenDigit = true ↔ s.seenDigit = true ∨ digits ≠ [] := by
  induction digits generalizing s with
  | nil => exact ⟨.inl, fun seen => seen.resolve_right (absurd rfl)⟩
  | cons c digits ih => exact (ih _).trans ⟨fun _ => .inr nofun, fun _ => .inl rfl⟩

theorem Settled.pass (settled : s.Settled) {digits : List Char} (all : ∀ c ∈ digits, c.isDigit = true) :
    (s.pass digits).Settled := by
  induction digits generalizing s with
  | nil => exact settled
  | cons c digits ih =>
    obtain ⟨first, others⟩ := List.forall_mem_cons.1 all
    exact ih (s := { s with seenDigit := true, last := c }) (settled_of_isDigit first) others

theorem settled_of_last (last : s.last = ' ' ∨ s.last = '.') : s.Settled := by
  unfold Settled IsExponentMark
  rcases last with last | last
  all_goals
    rw [last]
    decide

theorem mayEnd_of_settled (settled : s.Settled) : s.mayEnd = s.seenDigit := by
  obtain ⟨mark, plus, minus⟩ := settled
  simp only [IsExponentMark, not_or] at mark
  simp [mayEnd, mark, plus, minus]

/-! ### One character -/

theorem next?_digit (digit : c.isDigit = true) : s.next? c = some { s with seenDigit := true, last := c } :=
  if_pos digit

theorem next?_dot : s.next? '.' =
    if s.seenPoint || s.seenExponent then none else some { s with seenPoint := true, last := '.' } :=
  rfl

theorem next?_mark (mark : IsExponentMark c) : s.next? c =
    if s.seenDigit && !s.seenExponent then some { s with seenExponent := true, last := c } else none := by
  rcases mark with rfl | rfl
  · rfl
  · rfl

theorem next?_sign (sign : c = '+' ∨ c = '-') : s.next? c =
    if s.last = 'e' || s.last = 'E' then some { s with last := c } else none := by
  rcases sign with rfl | rfl
  · rfl
  · rfl

theorem next?_other (digit : ¬ c.isDigit = true) (dot : c ≠ '.') (mark : ¬ IsExponentMark c)
    (sign : ¬ (c = '+' ∨ c = '-')) : s.next? c = none := by
  have marked : ¬ (c = 'e' || c = 'E') = true := by simpa [IsExponentMark] using mark
  have signed : ¬ (c = '+' || c = '-') = true := by simpa using sign
  rw [next?, if_neg digit, if_neg dot, if_neg marked, if_neg signed]

/-- In the exponent, only digits are read, and a sign right after its mark. -/
theorem next?_exponent (exponent : s.seenExponent = true) (digit : ¬ c.isDigit = true)
    (sign : IsExponentMark s.last → ¬ (c = '+' ∨ c = '-')) : s.next? c = none := by
  by_cases dot : c = '.'
  · subst dot
    rw [next?_dot, exponent, Bool.or_true, if_pos rfl]
  by_cases mark : IsExponentMark c
  · rw [next?_mark mark, exponent, Bool.not_true, Bool.and_false, if_neg nofun]
  by_cases signs : c = '+' ∨ c = '-'
  · rw [next?_sign signs, if_neg]
    simpa [IsExponentMark] using fun mark => sign mark signs
  · exact next?_other digit dot mark signs

/-- What is settled goes on with a digit, a first point or the mark of the exponent only. -/
theorem next?_settled (settled : s.Settled) (digit : ¬ c.isDigit = true) (point : c = '.' → s.seenPoint = true)
    (mark : ¬ IsExponentMark c) : s.next? c = none := by
  by_cases dot : c = '.'
  · subst dot
    rw [next?_dot, point rfl, Bool.true_or, if_pos rfl]
  by_cases sign : c = '+' ∨ c = '-'
  · rw [next?_sign sign, if_neg]
    simpa [IsExponentMark] using settled.1
  · exact next?_other digit dot mark sign

end LiteralState

open LiteralState

theorem completesLiteral_cons : completesLiteral s (c :: cs) = true ↔
    ∃ s', s.next? c = some s' ∧ completesLiteral s' cs = true := by
  rw [completesLiteral]
  cases s.next? c with
  | none => exact ⟨nofun, nofun⟩
  | some s' => exact ⟨fun rest => ⟨s', rfl, rest⟩, fun ⟨_, same, rest⟩ => Option.some.inj same ▸ rest⟩

theorem not_completesLiteral_of_next? (stops : s.next? c = none) : ¬ completesLiteral s (c :: cs) = true := by
  rw [completesLiteral_cons, stops]
  exact nofun

theorem isDigitOrSeparator_of_ne (other : c ≠ '_') : isDigitOrSeparator c = c.isDigit := by
  simp [isDigitOrSeparator, other]

theorem isDigit_of_mem_takeWhile (plain : '_' ∉ cs) : ∀ c ∈ cs.takeWhile isDigitOrSeparator, c.isDigit = true := by
  intro c mem
  have digit := List.mem_takeWhile_imp mem
  rwa [isDigitOrSeparator_of_ne] at digit
  rintro rfl
  exact plain ((List.takeWhile_sublist _).subset mem)

theorem separator_notMem_dropWhile (plain : '_' ∉ cs) : '_' ∉ cs.dropWhile isDigitOrSeparator :=
  fun mem => plain ((List.dropWhile_sublist _).subset mem)

/-- Digits may come anywhere. -/
theorem completesLiteral_digits (plain : '_' ∉ cs) : completesLiteral s cs =
    completesLiteral (s.pass (cs.takeWhile isDigitOrSeparator)) (cs.dropWhile isDigitOrSeparator) := by
  induction cs generalizing s with
  | nil => rfl
  | cons c cs ih =>
    have same := isDigitOrSeparator_of_ne (List.ne_of_not_mem_cons plain).symm
    have plain := List.not_mem_of_not_mem_cons plain
    by_cases digit : c.isDigit = true
    · rw [List.takeWhile_cons_of_pos (same.trans digit), List.dropWhile_cons_of_pos (same.trans digit),
        completesLiteral, next?_digit digit]
      exact ih plain
    · rw [List.takeWhile_cons_of_neg (same ▸ digit), List.dropWhile_cons_of_neg (same ▸ digit)]
      rfl

/-! ## The exponent -/

/-- After the sign of the exponent, or its first digit, only digits come. -/
theorem completesLiteral_exponent (digit : s.seenDigit = true) (exponent : s.seenExponent = true)
    (closed : ¬ IsExponentMark s.last) :
    completesLiteral s cs = true ↔ (∀ c ∈ cs, c.isDigit = true) ∧ (cs = [] → s.Settled) := by
  induction cs generalizing s with
  | nil =>
    rw [completesLiteral]
    simp only [IsExponentMark, not_or] at closed
    simp [mayEnd, Settled, digit, IsExponentMark, closed]
  | cons c cs ih =>
    by_cases first : c.isDigit = true
    · have settled := settled_of_isDigit first
      rw [completesLiteral, next?_digit first]
      dsimp only
      rw [ih (s := { s with seenDigit := true, last := c }) rfl exponent settled.1, List.forall_mem_cons]
      have some : c :: cs ≠ [] := List.cons_ne_nil c cs
      exact ⟨fun both => ⟨⟨first, both.1⟩, (absurd · some)⟩, fun both => ⟨both.1.2, fun _ => settled⟩⟩
    · exact iff_of_false (not_completesLiteral_of_next? (next?_exponent exponent first fun mark => absurd mark closed))
        fun both => first (List.forall_mem_cons.1 both.1).1

/-- After its mark, the exponent is a sign, if it has one, and digits. -/
theorem completesLiteral_mark (digit : s.seenDigit = true) (exponent : s.seenExponent = true)
    (mark : IsExponentMark s.last) :
    completesLiteral s cs = true ↔ (signed cs).2 ≠ [] ∧ ∀ c ∈ (signed cs).2, c.isDigit = true := by
  rcases signed_cases cs with ⟨sign, ds, signs, rfl, same⟩ | ⟨unsigned, same⟩
  · -- A sign is read right after the mark only, so another one is not.
    have closed : ¬ IsExponentMark sign := by
      rcases signs with rfl | rfl
      all_goals
        unfold IsExponentMark
        decide
    have next : s.next? sign = some { s with last := sign } := by
      rw [next?_sign signs, if_pos]
      simpa [IsExponentMark] using mark
    rw [same, completesLiteral, next]
    dsimp only
    rw [completesLiteral_exponent (s := { s with last := sign }) digit exponent closed, and_comm]
    refine and_congr_left fun _ => ⟨fun settles ends => ?_, fun more ends => absurd ends more⟩
    obtain ⟨-, plus, minus⟩ := settles ends
    exact absurd signs (not_or.2 ⟨plus, minus⟩)
  · rw [same]
    cases cs with
    | nil =>
      refine iff_of_false ?_ fun both => both.1 rfl
      rw [completesLiteral, mayEnd]
      rcases mark with mark | mark
      all_goals simp [mark]
    | cons c cs =>
      rw [and_iff_right (List.cons_ne_nil c cs), List.forall_mem_cons]
      -- the mark has to be followed by a digit, and by nothing but digits from there on
      by_cases first : c.isDigit = true
      · have settled := settled_of_isDigit first
        rw [completesLiteral, next?_digit first]
        dsimp only
        rw [completesLiteral_exponent (s := { s with seenDigit := true, last := c }) rfl exponent settled.1]
        exact ⟨fun both => ⟨first, both.1⟩, fun both => ⟨both.2, fun _ => settled⟩⟩
      · refine iff_of_false (not_completesLiteral_of_next? (next?_exponent exponent first fun _ => ?_))
          fun both => first both.1
        exact not_or.2 (unsigned c rfl)

/-- All digits, and at least one. -/
theorem digits_iff_takeWhile (plain : '_' ∉ cs) : (cs ≠ [] ∧ ∀ c ∈ cs, c.isDigit = true) ↔
    cs.takeWhile isDigitOrSeparator ≠ [] ∧ cs.dropWhile isDigitOrSeparator = [] := by
  have all : cs.dropWhile isDigitOrSeparator = [] ↔ ∀ c ∈ cs, c.isDigit = true := by
    rw [List.dropWhile_eq_nil_iff]
    refine forall₂_congr fun c mem => ?_
    rw [isDigitOrSeparator_of_ne fun same => plain (same ▸ mem)]
  rw [all]
  refine and_congr_left fun digits => ?_
  rw [List.takeWhile_eq_self_iff.2 (List.dropWhile_eq_nil_iff.1 (all.2 digits))]

/-! ## The whole literal -/

/-- Behind its digits before and after the point, a literal is complete if it has one of them and its exponent is. -/
theorem completesLiteral_further (settled : s.Settled) (before : s.seenExponent = false) (plain : '_' ∉ cs)
    (first : ∀ c ∈ cs.head?, ¬ c.isDigit = true ∧ (c = '.' → s.seenPoint = true)) :
    completesLiteral s cs = true ↔ s.seenDigit = true ∧ (scanExponent cs).2.2 = true ∧
      cs.drop (scanExponent cs).2.1 = [] := by
  cases cs with
  | nil =>
    rw [completesLiteral, mayEnd_of_settled settled, scanExponent_of_head? (by rintro _ ⟨⟩)]
    simp
  | cons c cs =>
    obtain ⟨digit, point⟩ := first c rfl
    -- A mark begins the exponent. Anything else is left over by the scanner and refused by the conversion.
    by_cases mark : IsExponentMark c
    · have within : '_' ∉ (signed cs).2 := by
        have plain := List.not_mem_of_not_mem_cons plain
        rcases signed_cases cs with ⟨_, ds, -, rfl, same⟩ | ⟨-, same⟩
        · rw [same]
          exact List.not_mem_of_not_mem_cons plain
        · rwa [same]
      rw [drop_scanExponent mark, scanExponent_mark mark, completesLiteral, next?_mark mark, before]
      dsimp only
      rw [Bool.not_eq_true', List.isEmpty_eq_false_iff, ← digits_iff_takeWhile within]
      by_cases seen : s.seenDigit = true
      · rw [if_pos (by rw [seen]; rfl), and_iff_right seen]
        exact completesLiteral_mark (s := { s with seenExponent := true, last := c }) seen rfl mark
      · rw [if_neg (by simpa using seen)]
        exact iff_of_false nofun fun both => seen both.1
    · rw [scanExponent_of_head? (by rintro _ ⟨⟩; exact mark)]
      exact iff_of_false (not_completesLiteral_of_next? (next?_settled settled digit point mark))
        fun both => List.cons_ne_nil _ _ both.2.2

theorem not_isDigit_of_head?_dropWhile {c : Char} (first : (cs.dropWhile isDigitOrSeparator).head? = some c) :
    ¬ c.isDigit = true := by
  have stops := List.head?_dropWhile_not isDigitOrSeparator cs
  rw [first] at stops
  intro digit
  simp [isDigitOrSeparator, digit] at stops

/-- What comes after the digits before and after the point. -/
def afterFraction (cs : List Char) : List Char :=
  (cs.dropWhile isDigitOrSeparator).drop (fraction (cs.dropWhile isDigitOrSeparator)).length

theorem takeWhile_ne_nil_iff (plain : '_' ∉ cs) :
    cs.takeWhile isDigitOrSeparator ≠ [] ↔ cs.head?.any Char.isDigit = true := by
  cases cs with
  | nil => exact iff_of_false (absurd rfl) nofun
  | cons c cs =>
    have same := isDigitOrSeparator_of_ne (List.ne_of_not_mem_cons plain).symm
    rw [List.head?_cons, Option.any_some, ← same]
    by_cases digit : isDigitOrSeparator c = true
    · rw [List.takeWhile_cons_of_pos digit]
      exact iff_of_true nofun digit
    · rw [List.takeWhile_cons_of_neg digit]
      exact iff_of_false (absurd rfl) digit

/-- A literal begins with a digit, or with a point and a digit. -/
theorem startsNumber_iff (plain : '_' ∉ cs) : startsNumber cs = true ↔ cs.takeWhile isDigitOrSeparator ≠ [] ∨
    ∃ ds, cs.dropWhile isDigitOrSeparator = '.' :: ds ∧ ds.takeWhile isDigitOrSeparator ≠ [] := by
  cases cs with
  | nil => exact iff_of_false nofun (not_or.2 ⟨absurd rfl, by rintro ⟨ds, ⟨⟩, -⟩⟩)
  | cons c cs =>
    rw [takeWhile_ne_nil_iff plain, startsNumber_cons, List.head?_cons, Option.any_some]
    have within := List.not_mem_of_not_mem_cons plain
    by_cases digit : c.isDigit = true
    · have other : c ≠ '.' := by
        rintro rfl
        cases digit
      rw [if_neg other]
      exact iff_of_true digit (.inl digit)
    · have same := isDigitOrSeparator_of_ne (List.ne_of_not_mem_cons plain).symm
      rw [List.dropWhile_cons_of_neg (same ▸ digit), or_iff_right digit]
      by_cases dot : c = '.'
      · subst dot
        rw [if_pos rfl, ← takeWhile_ne_nil_iff within]
        exact ⟨fun more => ⟨cs, rfl, more⟩, by rintro ⟨ds, ⟨⟩, more⟩; exact more⟩
      · rw [if_neg dot]
        exact iff_of_false digit fun ⟨ds, same, _⟩ => dot (List.cons.inj same).1

/-- When a text has been read up to its exponent, a digit has been seen if the text begins like a literal. -/
theorem isLiteral_afterFraction (plain : '_' ∉ cs) : ∃ s : LiteralState, s.Settled ∧ s.seenExponent = false ∧
    (s.seenDigit = true ↔ startsNumber cs = true) ∧
    (∀ c ∈ (afterFraction cs).head?, ¬ c.isDigit = true ∧ (c = '.' → s.seenPoint = true)) ∧
    isLiteral cs = completesLiteral s (afterFraction cs) := by
  let start : LiteralState := {}
  let s := start.pass (cs.takeWhile isDigitOrSeparator)
  have settled : s.Settled := .pass (settled_of_last (.inl rfl)) (isDigit_of_mem_takeWhile plain)
  have seen : s.seenDigit = true ↔ cs.takeWhile isDigitOrSeparator ≠ [] :=
    (pass_seenDigit ..).trans (or_iff_right nofun)
  have passes : isLiteral cs = completesLiteral s (cs.dropWhile isDigitOrSeparator) := completesLiteral_digits plain
  have later := separator_notMem_dropWhile plain
  rw [startsNumber_iff plain]
  unfold afterFraction
  -- with a point there are two runs of digits, and one of them may be empty
  by_cases dot : (cs.dropWhile isDigitOrSeparator).head? = some '.'
  · obtain ⟨ds, rest⟩ := List.head?_eq_some_iff.1 dot
    rw [rest] at later passes ⊢
    have plain := List.not_mem_of_not_mem_cons later
    let t := { s with seenPoint := true, last := '.' }.pass (ds.takeWhile isDigitOrSeparator)
    have next : s.next? '.' = some { s with seenPoint := true, last := '.' } := by
      rw [next?_dot, pass_seenPoint, pass_seenExponent]
      rfl
    rw [(fraction_dot ds).2]
    refine ⟨t, .pass (settled_of_last (.inr rfl)) (isDigit_of_mem_takeWhile plain),
      (pass_seenExponent ..).trans (pass_seenExponent ..), ?_, fun c first => ⟨not_isDigit_of_head?_dropWhile first,
      fun _ => pass_seenPoint ..⟩, ?_⟩
    · rw [pass_seenDigit, seen]
      exact or_congr_right ⟨fun more => ⟨ds, rfl, more⟩, by rintro ⟨_, ⟨⟩, more⟩; exact more⟩
    · rw [passes, completesLiteral, next]
      exact completesLiteral_digits plain
  · rw [fraction_of_head? dot, List.length_nil, List.drop_zero]
    refine ⟨s, settled, pass_seenExponent .., ?_, fun c first => ⟨not_isDigit_of_head?_dropWhile first, ?_⟩, passes⟩
    · rw [seen, or_iff_left]
      rintro ⟨ds, same, -⟩
      exact dot (congrArg List.head? same)
    · rintro rfl
      exact absurd first dot

/-- A text without separators is a decimal literal if it begins like one, its exponent is complete, and nothing comes
after its parts. -/
theorem isLiteral_iff_decimalParts (plain : '_' ∉ cs) : isLiteral cs = true ↔
    startsNumber cs = true ∧ (decimalParts cs).2.1 = true ∧ (decimalParts cs).2.2 = [] := by
  obtain ⟨s, settled, before, seen, first, same⟩ := isLiteral_afterFraction plain
  have within : '_' ∉ afterFraction cs := fun mem =>
    plain (((List.drop_sublist ..).trans (List.dropWhile_sublist _)).subset mem)
  rw [same, completesLiteral_further settled before within first, seen]
  rfl

/-! ## Values -/

/-- A literal with the mark of a radix is no decimal literal. -/
theorem not_isLiteral_of_mark {radix : Nat} (marks : Number.radixMark? c = some radix) (cs : List Char) :
    ¬ isLiteral ('0' :: c :: cs) = true := by
  unfold Number.radixMark? at marks
  split at marks
  case h_7 => cases marks
  all_goals exact nofun

/-- The exponent that a mark and what comes after it stand for. -/
def exponentValue : List Char → Int
  | _ :: '-' :: ds => -(natOfDigits 0 ds : Int)
  | _ :: '+' :: ds => natOfDigits 0 ds
  | _ :: ds => natOfDigits 0 ds
  | [] => 0

/-- The value of an exponent does not depend on which mark it has. -/
theorem exponentValue_mark (mark other : Char) (cs : List Char) :
    exponentValue (mark :: cs) = exponentValue (other :: cs) := by
  rcases signed_cases cs with ⟨_, ds, rfl | rfl, rfl, -⟩ | ⟨unsigned, -⟩
  · rfl
  · rfl
  · have plain (mark : Char) : exponentValue (mark :: cs) = natOfDigits 0 cs := by
      unfold exponentValue
      split
      · next same =>
        cases same
        exact absurd rfl (unsigned '-' rfl).2
      · next same =>
        cases same
        exact absurd rfl (unsigned '+' rfl).1
      · next same =>
        cases same
        rfl
      · next same => cases same
    rw [plain, plain]

theorem not_isDigit_of_mark (mark : IsExponentMark c) : ¬ c.isDigit = true := fun digit =>
  (settled_of_isDigit digit).1 mark

section Mantissa

variable {whole ds : List Char} (digits : ∀ d ∈ whole, d.isDigit = true)
include digits

theorem takeWhile_isDigit_append (cs : List Char) (other : ¬ c.isDigit = true) :
    (whole ++ c :: cs).takeWhile Char.isDigit = whole ∧ (whole ++ c :: cs).dropWhile Char.isDigit = c :: cs := by
  rw [List.takeWhile_append_of_pos digits, List.dropWhile_append_of_pos digits, List.takeWhile_cons_of_neg other,
    List.dropWhile_cons_of_neg other, List.append_nil]
  exact ⟨rfl, rfl⟩

theorem literalToFloat_whole (mark : IsExponentMark c) :
    literalToFloat (whole ++ c :: cs) = nearestFloat (natOfDigits 0 whole) (exponentValue (c :: cs) - 0) := by
  obtain ⟨taken, left⟩ := takeWhile_isDigit_append digits cs (not_isDigit_of_mark mark)
  unfold literalToFloat
  rw [taken, left]
  rcases mark with rfl | rfl
  · rfl
  · rfl

theorem literalToFloat_point (mark : IsExponentMark c) (further : ∀ d ∈ ds, d.isDigit = true) :
    literalToFloat (whole ++ '.' :: (ds ++ c :: cs)) =
      nearestFloat (natOfDigits (natOfDigits 0 whole) ds) (exponentValue (c :: cs) - ds.length) := by
  obtain ⟨taken, left⟩ := takeWhile_isDigit_append (c := '.') digits (ds ++ c :: cs) (by decide)
  obtain ⟨takenNext, leftNext⟩ := takeWhile_isDigit_append further cs (not_isDigit_of_mark mark)
  unfold literalToFloat
  rw [taken, left]
  show nearestFloat (natOfDigits _ ((ds ++ c :: cs).takeWhile Char.isDigit))
    (exponentValue ((ds ++ c :: cs).dropWhile Char.isDigit) - ((ds ++ c :: cs).takeWhile Char.isDigit).length) = _
  rw [takenNext, leftNext]

end Mantissa

/-- A text without separators is digits, more digits after a point if it has one, and what comes after them. -/
theorem mantissa_cases (plain : '_' ∉ cs) : ∃ whole ds, (∀ d ∈ whole, d.isDigit = true) ∧
    (∀ d ∈ ds, d.isDigit = true) ∧
    (cs = whole ++ afterFraction cs ∨ cs = whole ++ '.' :: (ds ++ afterFraction cs)) := by
  have whole := isDigit_of_mem_takeWhile plain
  have later := separator_notMem_dropWhile plain
  have split := List.takeWhile_append_dropWhile (p := isDigitOrSeparator) (l := cs)
  unfold afterFraction
  by_cases dot : (cs.dropWhile isDigitOrSeparator).head? = some '.'
  · obtain ⟨ds, rest⟩ := List.head?_eq_some_iff.1 dot
    rw [rest] at later split ⊢
    have plain := List.not_mem_of_not_mem_cons later
    refine ⟨_, ds.takeWhile isDigitOrSeparator, whole, isDigit_of_mem_takeWhile plain, .inr ?_⟩
    rw [(fraction_dot ds).2, List.takeWhile_append_dropWhile, split]
  · rw [fraction_of_head? dot]
    exact ⟨_, [], whole, nofun, .inl split.symm⟩

/-- What comes after the mantissa of a literal is its exponent. -/
theorem afterFraction_cases (ends : (decimalParts cs).2.2 = []) : afterFraction cs = [] ∨
    ∃ mark ds, IsExponentMark mark ∧ afterFraction cs = mark :: ds ∧ 'E' ∉ ds := by
  replace ends : (afterFraction cs).drop (scanExponent (afterFraction cs)).2.1 = [] := ends
  by_cases mark : ∃ c ∈ (afterFraction cs).head?, IsExponentMark c
  · obtain ⟨c, head, marks⟩ := mark
    obtain ⟨ds, rest⟩ := List.head?_eq_some_iff.1 head
    rw [rest, drop_scanExponent marks, List.dropWhile_eq_nil_iff] at ends
    refine .inr ⟨c, ds, marks, rest, fun upper => ?_⟩
    rcases signed_cases ds with ⟨sign, after, signs, rfl, same⟩ | ⟨-, same⟩
    · rw [same] at ends
      rcases List.mem_cons.1 upper with rfl | upper
      · exact absurd signs (by decide)
      · exact absurd (ends 'E' upper) (by decide)
    · rw [same] at ends
      exact absurd (ends 'E' upper) (by decide)
  · rw [scanExponent_of_head? fun c head marks => mark ⟨c, head, marks⟩] at ends
    exact .inl ends

theorem map_lowerMark (plain : 'E' ∉ cs) : cs.map lowerMark = cs := by
  refine (List.map_congr_left fun c mem => if_neg ?_).trans (List.map_id _)
  rintro rfl
  exact plain mem

/-- A literal has the same value with the mark of its exponent in lower case. -/
theorem literalToFloat_lowerMark (plain : '_' ∉ cs) (ends : (decimalParts cs).2.2 = []) :
    literalToFloat (cs.map lowerMark) = literalToFloat cs := by
  obtain ⟨whole, ds, digits, further, split⟩ := mantissa_cases plain
  -- The mark of the exponent is the only letter, and so the only character that may change.
  have upper {ds : List Char} (digits : ∀ d ∈ ds, d.isDigit = true) : 'E' ∉ ds := fun mem =>
    absurd (digits 'E' mem) (by decide)
  rcases afterFraction_cases ends with rest | ⟨mark, exponent, marks, rest, only⟩
  · rw [rest] at split
    rcases split with rfl | rfl
    · rw [map_lowerMark (by simpa using upper digits)]
    · rw [map_lowerMark (by simpa using ⟨upper digits, upper further⟩)]
  · have lower : lowerMark mark = 'e' := by
      rcases marks with rfl | rfl
      · rfl
      · rfl
    have dot : lowerMark '.' = '.' := rfl
    rw [rest] at split
    rcases split with rfl | rfl
    · rw [List.map_append, List.map_cons, map_lowerMark (upper digits), map_lowerMark only, lower,
        literalToFloat_whole digits marks, literalToFloat_whole digits (.inl rfl), exponentValue_mark]
    · rw [List.map_append, List.map_cons, List.map_append, List.map_cons, map_lowerMark (upper digits),
        map_lowerMark (upper further), map_lowerMark only, lower, dot, literalToFloat_point digits marks further,
        literalToFloat_point digits (.inl rfl) further, exponentValue_mark]

end Decimal

namespace Lexer

open Text

variable {text : List Char}

/-! ## Texts -/

/-- A literal of a finite number as the conversion of texts to numbers takes it, without a sign: a decimal literal, or a
zero, the mark of a radix, and digits of the radix. -/
def FiniteLiteral (text : List Char) : Prop :=
  Decimal.isLiteral text = true ∨ ∃ radix mark digits, text = '0' :: mark :: digits ∧
    Number.radixMark? mark = some radix ∧ digits ≠ [] ∧ ∀ d ∈ digits, IsDigitOf radix d

theorem trim_of_isNumberPart (parts : ∀ c ∈ text, isNumberPart c = true) : trim text = text := by
  have blank : ∀ c ∈ text, isBlank c = false := fun c mem =>
    (Bool.or_eq_false_iff.1 (isSpace_of_isNumberPart (parts c mem))).1
  have kept {cs : List Char} (all : ∀ c ∈ cs, isBlank c = false) : cs.dropWhile isBlank = cs := by
    cases cs with
    | nil => rfl
    | cons c cs => exact List.dropWhile_cons_of_neg (by simp [all c (List.mem_cons_self ..)])
  unfold trim trimRight trimLeft
  rw [kept blank, kept fun c mem => blank c (List.mem_reverse.1 mem), List.reverse_reverse]

theorem parseTrimmed_of_startsNumber (starts : startsNumber text = true) :
    Number.parseTrimmed text = match Number.radixLiteral? text with
      | some (radix, digits) => (Number.parseRadix radix digits).getD Number.nan
      | none => if Decimal.isLiteral text then Decimal.literalToFloat text else Number.nan := by
  have unsigned : Number.parseTrimmed text = Number.parseUnsigned false text := by
    unfold Number.parseTrimmed
    split
    all_goals first | rfl | cases starts
  have finite : text ≠ "Infinity".toList := by
    rintro rfl
    cases starts
  rw [unsigned, Number.parseUnsigned, if_neg finite]
  rfl

/-- The conversion reads a text that begins like a numeral and is made of its characters as it stands. -/
theorem parse_of_startsNumber (parts : ∀ c ∈ text, isNumberPart c = true) (starts : startsNumber text = true) :
    Number.parse (String.ofList text) = match Number.radixLiteral? text with
      | some (radix, digits) => (Number.parseRadix radix digits).getD Number.nan
      | none => if Decimal.isLiteral text then Decimal.literalToFloat text else Number.nan := by
  rw [Number.parse, String.toList_ofList, trim_of_isNumberPart parts, parseTrimmed_of_startsNumber starts]

/-- A decimal literal without separators that goes up to the end of the text is read back as the text, but for the mark
of the exponent. -/
theorem decimalParts_raw (plain : '_' ∉ text) (ends : (decimalParts text).2.2 = []) :
    withoutSeparators (decimalParts text).1 = text.map lowerMark ∧ separatorsFit none (decimalParts text).1 = true := by
  have raw : (decimalParts text).1 = text.map lowerMark := by
    have same := decimalParts_append text
    rwa [ends, List.map_nil, List.append_nil] at same
  have absent : '_' ∉ text.map lowerMark := by
    intro mem
    obtain ⟨c, mem, same⟩ := List.mem_map.1 mem
    exact plain (lowerMark_eq_separator_iff.1 same ▸ mem)
  have unseparated := withoutSeparators_of_notMem absent
  rw [raw]
  exact ⟨unseparated, unseparated ▸ separatorsFit_withoutSeparators _⟩

/-- A text of letters, digits, points and signs is one numeric literal exactly if the conversion of texts to numbers
takes it as a literal of a finite number, and both read the same value. -/
theorem isNumber_iff_finiteLiteral (parts : ∀ c ∈ text, c.isAlphanum = true ∨ c = '.' ∨ c = '+' ∨ c = '-')
    (x : Float) : IsNumber text x ↔ FiniteLiteral text ∧ Number.parse (String.ofList text) = x := by
  have plain : '_' ∉ text := fun mem => absurd (parts '_' mem) (by decide)
  have numeric : ∀ c ∈ text, isNumberPart c = true := by
    intro c mem
    rcases parts c mem with letter | rfl | rfl | rfl
    · exact isNumberPart_of_isAlphanum letter
    all_goals rfl
  -- Whether the mark of a radix comes first is the same test in both readers.
  cases marked : Number.radixLiteral? text with
  | none =>
    have literal : FiniteLiteral text ↔ Decimal.isLiteral text = true := by
      refine or_iff_left ?_
      rintro ⟨radix, mark, digits, rfl, marks, -⟩
      cases marked.symm.trans (radixLiteral?_eq_some_iff.2 ⟨mark, rfl, marks⟩)
    have value (starts : startsNumber text = true) (ends : (decimalParts text).2.2 = [])
        (literal : Decimal.isLiteral text = true) : Number.parse (String.ofList text) =
          Decimal.literalToFloat (withoutSeparators (decimalParts text).1) := by
      rw [parse_of_startsNumber numeric starts, marked]
      dsimp only
      rw [if_pos literal, (decimalParts_raw plain ends).1, Decimal.literalToFloat_lowerMark plain ends]
    rw [isNumber_unmarked numeric marked, literal]
    constructor
    · rintro ⟨starts, complete, -, ends, rfl⟩
      have literal := (Decimal.isLiteral_iff_decimalParts plain).2 ⟨starts, complete, ends⟩
      exact ⟨literal, value starts ends literal⟩
    · rintro ⟨literal, rfl⟩
      obtain ⟨starts, complete, ends⟩ := (Decimal.isLiteral_iff_decimalParts plain).1 literal
      exact ⟨starts, complete, (decimalParts_raw plain ends).2, ends, (value starts ends literal).symm⟩
  | some literal =>
    obtain ⟨radix, digits⟩ := literal
    obtain ⟨mark, rfl, marks⟩ := radixLiteral?_eq_some_iff.1 marked
    have unmarked := Decimal.not_isLiteral_of_mark marks digits
    have literal : FiniteLiteral ('0' :: mark :: digits) ↔ (Number.parseRadix radix digits).isSome = true := by
      rw [parseRadix_isSome, FiniteLiteral, or_iff_right unmarked]
      constructor
      · rintro ⟨_, _, _, ⟨⟩, other, some, all⟩
        cases marks.symm.trans other
        exact ⟨some, all⟩
      · rintro ⟨some, all⟩
        exact ⟨radix, mark, digits, rfl, marks, some, all⟩
    have unseparated : withoutSeparators digits = digits :=
      withoutSeparators_of_notMem (List.not_mem_of_not_mem_cons (List.not_mem_of_not_mem_cons plain))
    rw [isNumber_ofMark digits marks fun c mem => numeric c (List.mem_cons_of_mem _ (List.mem_cons_of_mem _ mem)),
      literal, unseparated, parse_of_startsNumber numeric rfl, marked,
      and_iff_right (unseparated ▸ separatorsFit_withoutSeparators digits)]
    dsimp only
    cases Number.parseRadix radix digits with
    | none => exact iff_of_false nofun nofun
    | some value => exact Option.some_inj.trans (and_iff_right rfl).symm

/-- A fraction with a signed exponent is written as the number it spells. A text with two points is written as no number
at all. -/
theorem isNumber_exponent :
    (∀ c ∈ "1.5E-3".toList, c.isAlphanum = true ∨ c = '.' ∨ c = '+' ∨ c = '-') ∧
      (∀ c ∈ "1.2.3".toList, c.isAlphanum = true ∨ c = '.' ∨ c = '+' ∨ c = '-') ∧
      IsNumber "1.5E-3".toList (Number.parse "1.5E-3") ∧ ∀ x, ¬ IsNumber "1.2.3".toList x := by
  have exponent : ∀ c ∈ "1.5E-3".toList, c.isAlphanum = true ∨ c = '.' ∨ c = '+' ∨ c = '-' :=
    List.all_iff_forall_prop.1 rfl
  have points : ∀ c ∈ "1.2.3".toList, c.isAlphanum = true ∨ c = '.' ∨ c = '+' ∨ c = '-' :=
    List.all_iff_forall_prop.1 rfl
  refine ⟨exponent, points, (isNumber_iff_finiteLiteral exponent _).2 ⟨.inl (by decide), rfl⟩, fun x number => ?_⟩
  rcases ((isNumber_iff_finiteLiteral points x).1 number).1 with literal | ⟨radix, mark, digits, same, -⟩
  · exact absurd literal (by decide)
  · have first : some '1' = some '0' := congrArg List.head? same
    exact absurd first (by decide)

end Lexer

end BindScript
