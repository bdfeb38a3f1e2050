import BindScript.Proofs.Dependency.PathText
import BindScript.Proofs.Reserved.Texts

/-!
# Texts that are one numeric literal

A text that is made of the characters of numeric literals is one of them if the scanner of numbers passes over all of it
(`isNumber_iff_scanNumber`). For a decimal literal this means that its exponent is complete, its separators fit, and
nothing comes after its parts (`isNumber_decimal`), which are read back as they stand in the text, but for the mark of
the exponent (`decimalParts_append`); for one with the mark of a radix, that it has digits and its separators fit
(`isNumber_marked`).
-/

namespace BindScript

namespace Lexer

open Text

variable {text cs : List Char} {radix : Nat} {x : Float} {c : Char} {r : Reader}

/-! ## Literals -/

/-- The text is one numeric literal of this value, with nothing before or after it. -/
def IsNumber (text : List Char) (x : Float) : Prop :=
  ∃ tokens, tokenize (String.ofList text) = .ok tokens ∧ tokens.map Token.kind = [.number x, .eof]

/-- A digit of the radix. -/
def IsDigitOf (radix : Nat) (c : Char) : Prop :=
  (Number.digitValue? radix c).isSome = true

instance : DecidablePred (IsDigitOf radix) := fun c =>
  inferInstanceAs (Decidable ((Number.digitValue? radix c).isSome = true))

/-- The mark of an exponent. -/
def IsExponentMark (c : Char) : Prop :=
  c = 'e' ∨ c = 'E'

/-- A character of decimal literals. -/
def isDecimalPart (c : Char) : Bool :=
  isDigitOrSeparator c || c = '.' || c = 'e' || c = 'E' || c = '+' || c = '-'

/-! ## Characters -/

/-- A character of numeric literals. -/
def isNumberPart (c : Char) : Bool :=
  c.isAlphanum || c = '_' || c = '.' || c = '+' || c = '-'

theorem isNumberPart_of_isAlphanum (letter : c.isAlphanum = true) : isNumberPart c = true := by
  unfold isNumberPart
  rw [letter]
  rfl

/-- The characters of numeric literals are visible and within ASCII. -/
theorem range_of_isNumberPart (part : isNumberPart c = true) : 0x20 < c.toNat ∧ c.toNat < 0x7f := by
  simp only [isNumberPart, Bool.or_eq_true, decide_eq_true_eq] at part
  rcases part with (((letter | rfl) | rfl) | rfl) | rfl
  · replace letter : ((decide (c.val ≥ 'A'.val ∧ c.val ≤ 'Z'.val) ||
        decide (c.val ≥ 'a'.val) && decide (c.val ≤ 'z'.val)) ||
        decide (c.val ≥ '0'.val) && decide (c.val ≤ '9'.val)) = true := letter
    simp only [Bool.or_eq_true, Bool.and_eq_true, decide_eq_true_eq, ge_iff_le, UInt32.le_iff_toNat_le] at letter
    have same : c.val.toNat = c.toNat := rfl
    have bounds : ('A'.val).toNat = 65 ∧ ('Z'.val).toNat = 90 ∧ ('a'.val).toNat = 97 ∧ ('z'.val).toNat = 122 ∧
      ('0'.val).toNat = 48 ∧ ('9'.val).toNat = 57 := ⟨rfl, rfl, rfl, rfl, rfl, rfl⟩
    omega
  all_goals decide

theorem isLineEnd_of_isNumberPart (part : isNumberPart c = true) : isLineEnd c = false := by
  by_contra line
  have line : isLineEnd c = true := eq_true_of_ne_false line
  simp only [isLineEnd, Bool.or_eq_true, decide_eq_true_eq] at line
  rcases line with ((rfl | rfl) | rfl) | rfl
  all_goals exact absurd part (by decide)

theorem isSpace_of_isNumberPart (part : isNumberPart c = true) : isSpace c = false := by
  have range := range_of_isNumberPart part
  have mark : c ≠ '\ufeff' := by
    rintro rfl
    exact absurd part (by decide)
  unfold isSpace Text.isBlank
  simp only [mark, decide_false, Bool.or_false, Bool.or_eq_false_iff, Bool.and_eq_false_iff, decide_eq_false_iff_not,
    beq_eq_false_iff_ne]
  omega

theorem isAlphanum_iff : c.isAlphanum = true ↔ (c.isUpper = true ∨ c.isLower = true) ∨ c.isDigit = true := by
  rw [← Bool.or_eq_true, ← Bool.or_eq_true]
  rfl

theorem isAlphanum_of_isDigitOf (digit : IsDigitOf radix c) : c.isAlphanum = true := by
  unfold IsDigitOf Number.digitValue? at digit
  rw [isAlphanum_iff]
  by_contra other
  simp only [not_or, Bool.not_eq_true] at other
  rw [other.1.1, other.1.2, other.2] at digit
  simp at digit

/-- Of the letters none is a decimal digit. -/
theorem isDigitOf_ten : IsDigitOf 10 c ↔ c.isDigit = true := by
  constructor
  · intro digit
    by_contra other
    unfold IsDigitOf Number.digitValue? at digit
    rw [if_neg other] at digit
    split at digit
    · simp [Nat.not_lt.2 (Nat.le_add_left 10 _)] at digit
    split at digit
    · simp [Nat.not_lt.2 (Nat.le_add_left 10 _)] at digit
    · simp at digit
  · intro digit
    have range : 48 ≤ c.toNat ∧ c.toNat ≤ 57 := by simpa [Char.isDigit, UInt32.le_iff_toNat_le] using digit
    unfold IsDigitOf Number.digitValue?
    rw [if_pos digit]
    have small : c.toNat - '0'.toNat < 10 := by
      show c.toNat - 48 < 10
      omega
    dsimp only
    rw [if_pos small]
    rfl

/-! ## Texts that are one token -/

theorem skipTrivia_of_isNumberPart {n : Nat} {newline : Bool} (rest : r.rest = c :: cs) (part : isNumberPart c = true) :
    skipTrivia (n + 1) newline r = .ok (newline, r) := by
  have slash : c ≠ '/' := by
    rintro rfl
    exact absurd part (by decide)
  rw [skipTrivia_other rest (fun both => slash both.1) (fun both => slash both.1), isLineEnd_of_isNumberPart part,
    isSpace_of_isNumberPart part, if_neg nofun, if_neg nofun]

/-- Only the scanner of numbers gives a number. -/
theorem scanToken_number {n : Nat} (rest : r.rest = c :: cs) (part : isNumberPart c = true) {r' : Reader}
    (token : scanToken n c r = .ok (.number x, r')) :
    startsNumber r.rest = true ∧ scanNumber r = .ok (.number x, r') := by
  have quotes : c ≠ '"' ∧ c ≠ '\'' ∧ c ≠ '`' := by
    refine ⟨?_, ?_, ?_⟩
    all_goals
      rintro rfl
      exact absurd part (by decide)
  unfold scanToken at token
  split at token
  · unfold scanWord at token
    dsimp only at token
    split at token
    · cases token
    · cases token
  split at token
  · next starts => exact ⟨starts, token⟩
  simp only [quotes.1, quotes.2.1, quotes.2.2, decide_false, Bool.or_false, if_false, Bool.false_eq_true] at token
  unfold scanPunct at token
  split at token
  · cases token
  · cases token

/-- What begins as a number is scanned as one, since neither a name nor a string begins so. -/
theorem scanToken_of_startsNumber {n : Nat} (rest : r.rest = c :: cs) (starts : startsNumber r.rest = true) :
    scanToken n c r = scanNumber r := by
  have first : isNameStart c = false := by
    rw [rest] at starts
    unfold startsNumber at starts
    split at starts
    · next same =>
      cases same
      decide +kernel
    · next same =>
      cases same
      by_contra start
      rw [Dependency.isDigit_of_isNameStart (eq_true_of_ne_false start)] at starts
      cases starts
    · cases starts
  unfold scanToken
  rw [first, if_neg nofun, if_pos starts]

/-- Where a character of numeric literals comes first, a token is found there, with no gap before it. -/
theorem scanAll_of_isNumberPart {n : Nat} {found tokens : List Token} (rest : r.rest = c :: cs)
    (part : isNumberPart c = true) (scanned : scanAll (n + 1) found r = .ok tokens) :
    ∃ kind t more, scanToken (n + 1) c r = .ok (kind, t) ∧
      scanAll n (⟨kind, r.place, false⟩ :: found) t = .ok tokens ∧
      tokens = found.reverse ++ ⟨kind, r.place, false⟩ :: more := by
  obtain ⟨newline, s, skipped, turn⟩ := scanAll_ok scanned
  cases (skipTrivia_of_isNumberPart rest part).symm.trans skipped
  rcases turn with ⟨ends, -⟩ | ⟨_, _, kind, t, same, token, scanned⟩
  · cases rest.symm.trans ends
  · cases rest.symm.trans same
    obtain ⟨more, rfl⟩ := scanAll_found scanned
    exact ⟨kind, t, more, token, scanned, by rw [List.reverse_cons, List.append_assoc, List.singleton_append]⟩

/-- A text of characters of numeric literals is one literal if the scanner of numbers passes over all of it. -/
theorem isNumber_iff_scanNumber (parts : ∀ c ∈ text, isNumberPart c = true) :
    IsNumber text x ↔
      startsNumber text = true ∧ ∃ r, scanNumber ⟨text, .start⟩ = .ok (.number x, r) ∧ r.rest = [] := by
  unfold IsNumber tokenize tokenizeAt
  rw [String.toList_ofList]
  cases text with
  | nil =>
    refine iff_of_false ?_ nofun
    rintro ⟨tokens, scanned, kinds⟩
    cases scanned
    cases kinds
  | cons c cs =>
    have part := parts c (List.mem_cons_self ..)
    constructor
    · rintro ⟨tokens, scanned, kinds⟩
      obtain ⟨kind, t, more, token, scanned, rfl⟩ := scanAll_of_isNumberPart rfl part scanned
      obtain ⟨rfl, last⟩ : kind = .number x ∧ more.map Token.kind = [.eof] := by
        simpa only [List.reverse_nil, List.nil_append, List.map_cons, List.cons.injEq] using kinds
      obtain ⟨starts, number⟩ := scanToken_number rfl part token
      refine ⟨starts, t, number, ?_⟩
      -- had the scanner left something, there would be another token
      by_contra unfinished
      obtain ⟨d, ds, left⟩ := List.exists_cons_of_ne_nil unfinished
      obtain ⟨passed, passes⟩ := (scanToken_takes rfl _ _ token).moves.leads
      have later : isNumberPart d = true := parts d (by
        rw [show c :: cs = passed ++ t.rest from passes.rest, left]
        exact List.mem_append_right _ (List.mem_cons_self ..))
      obtain ⟨kind, _, others, another, -, same⟩ := scanAll_of_isNumberPart left later scanned
      obtain rfl : more = ⟨kind, t.place, false⟩ :: others := (List.cons.inj same).2
      exact (scanToken_takes left _ _ another).more (List.cons.inj last).1
    · rintro ⟨starts, r, number, ends⟩
      refine ⟨[⟨.number x, .start, false⟩, ⟨.eof, r.place, false⟩], ?_, rfl⟩
      unfold scanAll
      rw [skipTrivia_of_isNumberPart rfl part]
      dsimp only
      rw [scanToken_of_startsNumber rfl starts, number]
      dsimp only
      rw [List.length_cons]
      unfold scanAll
      rw [skipTrivia_end ends]
      dsimp only
      rw [ends]
      rfl

/-! ## Decimal literals -/

/-- The sign of an exponent, if it has one, and what comes after it. -/
def signed : List Char → List Char × List Char
  | '+' :: ds => (['+'], ds)
  | '-' :: ds => (['-'], ds)
  | ds => ([], ds)

/-- What a decimal literal at the front is read back as, whether its exponent is complete, and what comes after it. -/
def decimalParts (cs : List Char) : List Char × Bool × List Char :=
  let later := cs.dropWhile isDigitOrSeparator
  let further := later.drop (fraction later).length
  let exponent := scanExponent further
  (cs.takeWhile isDigitOrSeparator ++ fraction later ++ exponent.1, exponent.2.2, further.drop exponent.2.1)

theorem drop_length_takeWhile (p : Char → Bool) (cs : List Char) :
    cs.drop (cs.takeWhile p).length = cs.dropWhile p := by
  calc cs.drop (cs.takeWhile p).length
      = (cs.takeWhile p ++ cs.dropWhile p).drop (cs.takeWhile p).length := by rw [List.takeWhile_append_dropWhile]
    _ = cs.dropWhile p := List.drop_left

theorem signed_cases (cs : List Char) :
    (∃ sign ds, (sign = '+' ∨ sign = '-') ∧ cs = sign :: ds ∧ signed cs = ([sign], ds)) ∨
      (∀ c ∈ cs.head?, c ≠ '+' ∧ c ≠ '-') ∧ signed cs = ([], cs) := by
  unfold signed
  split
  · next ds => exact .inl ⟨'+', ds, .inl rfl, rfl, rfl⟩
  · next ds => exact .inl ⟨'-', ds, .inr rfl, rfl, rfl⟩
  · next plus minus =>
    refine .inr ⟨fun c first => ?_, rfl⟩
    obtain ⟨ds, rfl⟩ := List.head?_eq_some_iff.1 first
    exact ⟨fun same => plus ds (by rw [same]), fun same => minus ds (by rw [same])⟩

theorem signed_of_unsigned (unsigned : ∀ c ∈ cs.head?, c ≠ '+' ∧ c ≠ '-') : signed cs = ([], cs) := by
  rcases signed_cases cs with ⟨sign, ds, signs, rfl, -⟩ | ⟨-, same⟩
  · obtain ⟨plus, minus⟩ := unsigned sign rfl
    exact absurd signs (not_or.2 ⟨plus, minus⟩)
  · exact same

theorem fraction_dot (ds : List Char) : fraction ('.' :: ds) = '.' :: ds.takeWhile isDigitOrSeparator ∧
    ('.' :: ds).drop (fraction ('.' :: ds)).length = ds.dropWhile isDigitOrSeparator :=
  ⟨rfl, drop_length_takeWhile _ _⟩

theorem fraction_of_head? (other : cs.head? ≠ some '.') : fraction cs = [] := by
  unfold fraction
  split
  · exact absurd rfl other
  · rfl

theorem scanExponent_mark {mark : Char} (marks : IsExponentMark mark) (cs : List Char) : scanExponent (mark :: cs) =
    ('e' :: (signed cs).1 ++ (signed cs).2.takeWhile isDigitOrSeparator,
      1 + (signed cs).1.length + ((signed cs).2.takeWhile isDigitOrSeparator).length,
      !((signed cs).2.takeWhile isDigitOrSeparator).isEmpty) := by
  unfold scanExponent
  dsimp only
  rw [if_pos (by simpa [IsExponentMark] using marks)]
  rfl

theorem scanExponent_of_head? (other : ∀ c ∈ cs.head?, ¬ IsExponentMark c) : scanExponent cs = ([], 0, true) := by
  unfold scanExponent
  split
  · next c cs =>
    rw [if_neg]
    simpa [IsExponentMark] using other c rfl
  · rfl

/-- What comes after an exponent. -/
theorem drop_scanExponent {mark : Char} (marks : IsExponentMark mark) (cs : List Char) :
    (mark :: cs).drop (scanExponent (mark :: cs)).2.1 = (signed cs).2.dropWhile isDigitOrSeparator := by
  have split : cs = (signed cs).1 ++ (signed cs).2 := by
    rcases signed_cases cs with ⟨sign, ds, -, rfl, same⟩ | ⟨-, same⟩
    all_goals
      rw [same]
      rfl
  rw [scanExponent_mark marks, ← drop_length_takeWhile]
  conv_lhs =>
    enter [2]
    rw [split]
  dsimp only
  rw [Nat.add_assoc, Nat.add_comm 1, List.drop_succ_cons, List.drop_length_add_append]

/-- The mark of an exponent is read back in lower case. -/
def lowerMark (c : Char) : Char :=
  if c = 'E' then 'e' else c

theorem lowerMark_eq_separator_iff : lowerMark c = '_' ↔ c = '_' := by
  unfold lowerMark
  split
  · next upper =>
    subst upper
    decide
  · rfl

theorem takeWhile_append_map_lowerMark (cs : List Char) :
    cs.takeWhile isDigitOrSeparator ++ (cs.dropWhile isDigitOrSeparator).map lowerMark = cs.map lowerMark := by
  have kept : (cs.takeWhile isDigitOrSeparator).map lowerMark = cs.takeWhile isDigitOrSeparator := by
    refine (List.map_congr_left fun c mem => if_neg ?_).trans (List.map_id _)
    rintro rfl
    exact absurd (List.mem_takeWhile_imp mem) (by decide)
  conv_rhs => rw [← List.takeWhile_append_dropWhile (p := isDigitOrSeparator) (l := cs)]
  rw [List.map_append, kept]

theorem fraction_append_map_lowerMark (cs : List Char) :
    fraction cs ++ (cs.drop (fraction cs).length).map lowerMark = cs.map lowerMark := by
  by_cases dot : cs.head? = some '.'
  · obtain ⟨ds, rfl⟩ := List.head?_eq_some_iff.1 dot
    rw [(fraction_dot ds).2, (fraction_dot ds).1, List.cons_append, takeWhile_append_map_lowerMark]
    rfl
  · rw [fraction_of_head? dot]
    rfl

/-- The scanner writes the mark of an exponent small and keeps the rest. -/
theorem scanExponent_append_map_lowerMark (cs : List Char) :
    (scanExponent cs).1 ++ (cs.drop (scanExponent cs).2.1).map lowerMark = cs.map lowerMark := by
  by_cases mark : ∃ c ∈ cs.head?, IsExponentMark c
  · obtain ⟨c, head, marks⟩ := mark
    obtain ⟨ds, rfl⟩ := List.head?_eq_some_iff.1 head
    have lower : lowerMark c = 'e' := by
      rcases marks with rfl | rfl
      · rfl
      · rfl
    have split : (signed ds).1 ++ (signed ds).2.map lowerMark = ds.map lowerMark := by
      rcases signed_cases ds with ⟨sign, after, rfl | rfl, rfl, same⟩ | ⟨-, same⟩
      all_goals
        rw [same]
        rfl
    rw [drop_scanExponent marks, scanExponent_mark marks, List.append_assoc, takeWhile_append_map_lowerMark,
      List.cons_append, split, List.map_cons, lower]
  · rw [scanExponent_of_head? fun c head marks => mark ⟨c, head, marks⟩]
    rfl

/-- A decimal literal is read back as it stands in the text, but for the mark of its exponent. -/
theorem decimalParts_append (cs : List Char) :
    (decimalParts cs).1 ++ (decimalParts cs).2.2.map lowerMark = cs.map lowerMark := by
  unfold decimalParts
  dsimp only
  rw [List.append_assoc, scanExponent_append_map_lowerMark, List.append_assoc, fraction_append_map_lowerMark,
    takeWhile_append_map_lowerMark]

/-! ## Numbers -/

/-- A numeric literal goes up to the end of the text if nothing is left after its characters. -/
theorem endNumber_number_iff {start : Position} {raw : List Char} {value : Float} :
    (∃ r', endNumber start raw value r = .ok (.number x, r') ∧ r'.rest = []) ↔ r.rest = [] ∧ value = x := by
  constructor
  · rintro ⟨r', ended, rest⟩
    obtain ⟨-, rfl⟩ := endNumber_leaves start raw value r _ _ ended
    unfold endNumber at ended
    rw [rest] at ended
    cases ended
    exact ⟨rest, rfl⟩
  · rintro ⟨rest, rfl⟩
    refine ⟨r, ?_, rest⟩
    unfold endNumber
    rw [rest]

theorem scanDecimal_parts (r : Reader) : ∃ r', r'.rest = (decimalParts r.rest).2.2 ∧ scanDecimal r =
    if !(decimalParts r.rest).2.1 || !separatorsFit none (decimalParts r.rest).1 then
      refuse (.invalidNumber (String.ofList (decimalParts r.rest).1)) r.place
    else endNumber r.place (decimalParts r.rest).1
      (Decimal.literalToFloat (withoutSeparators (decimalParts r.rest).1)) r' := by
  rw [scanDecimal_eq]
  dsimp only
  rw [drop_length_takeWhile]
  refine ⟨_, ?_, rfl⟩
  show r.rest.drop _ = _
  rw [Nat.add_assoc, ← List.drop_drop, drop_length_takeWhile, ← List.drop_drop]
  rfl

theorem scanDecimal_number_iff : (∃ r', scanDecimal r = .ok (.number x, r') ∧ r'.rest = []) ↔
    (decimalParts r.rest).2.1 = true ∧ separatorsFit none (decimalParts r.rest).1 = true ∧
      (decimalParts r.rest).2.2 = [] ∧ Decimal.literalToFloat (withoutSeparators (decimalParts r.rest).1) = x := by
  obtain ⟨r', rest, scans⟩ := scanDecimal_parts r
  rw [scans]
  by_cases fits : (decimalParts r.rest).2.1 = true ∧ separatorsFit none (decimalParts r.rest).1 = true
  · rw [if_neg (by simp [fits]), endNumber_number_iff, rest, ← and_assoc, and_iff_right fits]
  · rw [if_pos (by simpa [or_iff_not_imp_left] using fits), ← and_assoc]
    exact iff_of_false nofun fun both => fits both.1

theorem isNumberPart_of_isDecimalPart (part : isDecimalPart c = true) : isNumberPart c = true := by
  simp only [isDecimalPart, isDigitOrSeparator, Bool.or_eq_true, decide_eq_true_eq] at part
  rcases part with (((((digit | rfl) | rfl) | rfl) | rfl) | rfl) | rfl
  · exact isNumberPart_of_isAlphanum (isAlphanum_iff.2 (.inr digit))
  all_goals rfl

/-- No decimal literal begins with the mark of a radix. -/
theorem radixLiteral?_decimal (parts : ∀ c ∈ text, isDecimalPart c = true) : Number.radixLiteral? text = none := by
  unfold Number.radixLiteral?
  split
  · next mark digits =>
    have part : isDecimalPart mark = true := parts mark (List.mem_cons_of_mem _ (List.mem_cons_self ..))
    unfold Number.radixMark?
    split
    case h_7 => rfl
    all_goals exact absurd part (by decide)
  · rfl

/-- A literal without the mark of a radix is complete, its separators fit, and it goes up to the end of the text. -/
theorem isNumber_unmarked (parts : ∀ c ∈ text, isNumberPart c = true) (unmarked : Number.radixLiteral? text = none) :
    IsNumber text x ↔ startsNumber text = true ∧ (decimalParts text).2.1 = true ∧
      separatorsFit none (decimalParts text).1 = true ∧ (decimalParts text).2.2 = [] ∧
      Decimal.literalToFloat (withoutSeparators (decimalParts text).1) = x := by
  rw [isNumber_iff_scanNumber parts]
  refine and_congr_right fun _ => ?_
  unfold scanNumber
  rw [unmarked]
  exact scanDecimal_number_iff

/-- A decimal literal is complete, its separators fit, and it goes up to the end of the text. -/
theorem isNumber_decimal (parts : ∀ c ∈ text, isDecimalPart c = true) :
    IsNumber text x ↔ startsNumber text = true ∧ (decimalParts text).2.1 = true ∧
      separatorsFit none (decimalParts text).1 = true ∧ (decimalParts text).2.2 = [] ∧
      Decimal.literalToFloat (withoutSeparators (decimalParts text).1) = x :=
  isNumber_unmarked (fun c mem => isNumberPart_of_isDecimalPart (parts c mem)) (radixLiteral?_decimal parts)

/-- The mark of a radix is a letter that is no digit of the radix. The radix is not that of decimal literals, and `e`
is a digit only of one of them. -/
theorem radixMark?_letter {mark : Char} (marks : Number.radixMark? mark = some radix) :
    mark.isAlphanum = true ∧ ¬ IsDigitOf radix mark ∧ radix ≠ 10 ∧ (IsDigitOf radix 'e' → radix = 16) := by
  unfold Number.radixMark? at marks
  split at marks
  case h_7 => cases marks
  all_goals
    cases marks
    decide

/-- A character that the scanner takes as a digit of a literal with a mark, before it looks at the radix. -/
def isLetterOrSeparator (c : Char) : Bool :=
  c.isAlphanum || c = '_'

theorem isLetterOrSeparator_of_isDigitOf (part : c = '_' ∨ IsDigitOf radix c) : isLetterOrSeparator c = true := by
  unfold isLetterOrSeparator
  rcases part with rfl | digit
  · rfl
  · rw [isAlphanum_of_isDigitOf digit]
    rfl

theorem radixDigits_isSome (start : Float) (digits : List Char) :
    (Number.radixDigits radix start digits).isSome = true ↔ ∀ d ∈ digits, IsDigitOf radix d := by
  induction digits generalizing start with
  | nil => exact iff_of_true rfl nofun
  | cons d digits ih =>
    rw [List.forall_mem_cons, Number.radixDigits, IsDigitOf]
    cases Number.digitValue? radix d with
    | none => exact iff_of_false nofun fun both => absurd both.1 nofun
    | some value => exact (ih _).trans (and_iff_right rfl).symm

/-- The digits of a literal with a mark have a value if there are some and all of them are digits of the radix. -/
theorem parseRadix_isSome (digits : List Char) :
    (Number.parseRadix radix digits).isSome = true ↔ digits ≠ [] ∧ ∀ d ∈ digits, IsDigitOf radix d := by
  cases digits with
  | nil => exact iff_of_false nofun fun both => both.1 rfl
  | cons d digits => exact (radixDigits_isSome ..).trans (and_iff_right nofun).symm

/-- All letters and digits after the mark are taken, and they give a number if the radix has them all as digits. -/
theorem scanRadix_number_iff : (∃ r', scanRadix radix r = .ok (.number x, r') ∧ r'.rest = []) ↔
    separatorsFit none ((r.rest.drop 2).takeWhile isLetterOrSeparator) = true ∧
      Number.parseRadix radix (withoutSeparators ((r.rest.drop 2).takeWhile isLetterOrSeparator)) = some x ∧
      (r.rest.drop 2).dropWhile isLetterOrSeparator = [] := by
  have isPart : (fun c : Char => c.isAlphanum || decide (c = '_')) = isLetterOrSeparator := rfl
  have later : (r.skip 2).rest = r.rest.drop 2 := rfl
  unfold scanRadix
  dsimp only
  rw [isPart, later]
  generalize (r.rest.drop 2).takeWhile isLetterOrSeparator = raw
  by_cases fits : separatorsFit none raw = true
  · rw [if_neg (by simp [fits]), and_iff_right fits]
    cases Number.parseRadix radix (withoutSeparators raw) with
    | none => exact iff_of_false nofun nofun
    | some value =>
      dsimp only
      rw [endNumber_number_iff, Option.some_inj]
      exact and_comm
  · rw [if_pos (by simpa using fits)]
    exact iff_of_false nofun fun both => fits both.1

/-- A literal of a radix is a zero, the mark of the radix, and what comes after it. -/
theorem radixLiteral?_eq_some_iff {digits : List Char} : Number.radixLiteral? text = some (radix, digits) ↔
    ∃ mark, text = '0' :: mark :: digits ∧ Number.radixMark? mark = some radix := by
  constructor
  · intro literal
    unfold Number.radixLiteral? at literal
    split at literal
    · next mark ds =>
      obtain ⟨_, marks, same⟩ := Option.map_eq_some_iff.1 literal
      cases same
      exact ⟨mark, rfl, marks⟩
    · cases literal
  · rintro ⟨mark, rfl, marks⟩
    exact congrArg (Option.map (·, digits)) marks

/-- A literal with a mark has digits of its radix only, and its separators fit. -/
theorem isNumber_ofMark {mark : Char} (digits : List Char) (marks : Number.radixMark? mark = some radix)
    (parts : ∀ c ∈ digits, isNumberPart c = true) :
    IsNumber ('0' :: mark :: digits) x ↔
      separatorsFit none digits = true ∧ Number.parseRadix radix (withoutSeparators digits) = some x := by
  have numeric : ∀ c ∈ '0' :: mark :: digits, isNumberPart c = true :=
    List.forall_mem_cons.2 ⟨rfl, List.forall_mem_cons.2 ⟨isNumberPart_of_isAlphanum (radixMark?_letter marks).1, parts⟩⟩
  have literal : Number.radixLiteral? ('0' :: mark :: digits) = some (radix, digits) :=
    radixLiteral?_eq_some_iff.2 ⟨mark, rfl, marks⟩
  rw [isNumber_iff_scanNumber numeric, and_iff_right (show startsNumber ('0' :: mark :: digits) = true by rfl)]
  unfold scanNumber
  rw [literal]
  dsimp only
  rw [scanRadix_number_iff, show ('0' :: mark :: digits).drop 2 = digits from rfl, List.dropWhile_eq_nil_iff]
  -- the scanner takes letters of any kind, so it goes through all digits of the radix
  by_cases all : ∀ c ∈ digits, isLetterOrSeparator c = true
  · rw [List.takeWhile_eq_self_iff.2 all, and_iff_left all]
  · refine iff_of_false (fun both => all both.2.2) fun both => all fun c mem => ?_
    have digits := ((parseRadix_isSome _).1 (Option.isSome_of_eq_some both.2)).2
    exact isLetterOrSeparator_of_isDigitOf (or_iff_not_imp_left.2 fun other =>
      digits c (List.mem_filter.2 ⟨mem, by simpa using other⟩))

/-- A literal with a mark has digits, and its separators fit. -/
theorem isNumber_marked {mark : Char} (digits : List Char) (marks : Number.radixMark? mark = some radix)
    (parts : ∀ c ∈ digits, c = '_' ∨ IsDigitOf radix c) :
    IsNumber ('0' :: mark :: digits) x ↔
      separatorsFit none digits = true ∧ Number.parseRadix radix (withoutSeparators digits) = some x := by
  refine isNumber_ofMark digits marks fun c mem => ?_
  rcases parts c mem with rfl | digit
  · rfl
  · exact isNumberPart_of_isAlphanum (isAlphanum_of_isDigitOf digit)

end Lexer

end BindScript
