import BindScript.JsonText.Number
import BindScript.Proofs.Dependency.PathText
import BindScript.Proofs.Number.Shortest

/-!
# Numerals tell numbers apart

What JSON text writes for a finite number is a numeral with a value (`Numeral.read`): the number itself when it is
written as an integer, else its shortest digits. Either way the value rounds to the number, so numbers with the
same numeral are equal (`eq_of_writeNumber`). The two zeros, which are equal, are both written as `0`.
-/

namespace BindScript.JsonText

open Decimal Dependency

/-! ## Values of numerals -/

namespace Numeral

/-- The exponent at the end of a numeral. -/
def readExponent : List Char → ℤ
  | 'e' :: '-' :: digits => -natOfDigits 0 digits
  | 'e' :: '+' :: digits => natOfDigits 0 digits
  | _ => 0

/-- The value of a numeral without a sign. -/
def readUnsigned (cs : List Char) : ℚ :=
  let whole := cs.takeWhile Char.isDigit
  match cs.dropWhile Char.isDigit with
  | '.' :: more =>
    let fraction := more.takeWhile Char.isDigit
    natOfDigits 0 (whole ++ fraction) * 10 ^ (readExponent (more.dropWhile Char.isDigit) - fraction.length)
  | more => natOfDigits 0 whole * 10 ^ readExponent more

/-- Whether a numeral has a sign, and its value without it. -/
def read : List Char → Bool × ℚ
  | '-' :: cs => (true, readUnsigned cs)
  | cs => (false, readUnsigned cs)

end Numeral

/-- The text consists of digits only. -/
def IsDigits (cs : List Char) : Prop :=
  ∀ c ∈ cs, c.isDigit = true

/-- The text does not go on with a digit. -/
def StopsDigits (rest : List Char) : Prop :=
  ∀ c ∈ rest.head?, c.isDigit = false

theorem stopsDigits_nil : StopsDigits [] := by
  intro c mem
  cases mem

theorem stopsDigits_cons {c : Char} (other : c.isDigit = false) (rest : List Char) : StopsDigits (c :: rest) := by
  intro x mem
  cases mem
  exact other

theorem natOfDigits_eq_ofDigitChars (start : ℕ) (cs : List Char) :
    natOfDigits start cs = Nat.ofDigitChars 10 cs start := by
  rw [Nat.ofDigitChars_eq_foldl, natOfDigits]
  congr 1
  funext n c
  rw [Nat.mul_comm]

theorem isDigits_toString (n : ℕ) : IsDigits (toString n).toList := by
  rw [Nat.toString_eq_repr, Nat.toList_repr]
  exact fun c mem => Nat.isDigit_of_mem_toDigits (by decide) (by decide) mem

/-- The digits of a number are read as the number. -/
theorem natOfDigits_toString (n : ℕ) : natOfDigits 0 (toString n).toList = n := by
  rw [natOfDigits_eq_ofDigitChars, Nat.toString_eq_repr, Nat.toList_repr, Nat.ofDigitChars_ten_toDigits]

theorem natOfDigits_append (cs more : List Char) :
    natOfDigits 0 (cs ++ more) = natOfDigits (natOfDigits 0 cs) more := by
  rw [natOfDigits, List.foldl_append]
  rfl

theorem natOfDigits_zeros (start n : ℕ) : natOfDigits start (List.replicate n '0') = start * 10 ^ n := by
  rw [natOfDigits_eq_ofDigitChars, Nat.ofDigitChars_replicate_zero, Nat.mul_comm]

theorem toList_pushn (n : ℕ) : ("".pushn '0' n).toList = List.replicate n '0' := by
  induction n with
  | zero => rfl
  | succ n ih =>
    have step : "".pushn '0' (n + 1) = ("".pushn '0' n).push '0' := rfl
    rw [step, String.toList_push, ih, List.replicate_succ']

theorem isDigits_zeros (n : ℕ) : IsDigits (List.replicate n '0') := by
  intro c mem
  rw [List.eq_of_mem_replicate mem]
  rfl

/-- The characters of numerals. -/
def isNumeralChar (c : Char) : Bool :=
  c.isDigit || c = '-' || c = '+' || c = '.' || c = 'e'

theorem isNumeralChar_of_isDigit {c : Char} (digit : c.isDigit = true) : isNumeralChar c = true := by
  simp [isNumeralChar, digit]

/-- The characters are a numeral without a sign, and it has the value. -/
structure Spells (cs : List Char) (q : ℚ) : Prop where
  start : ∃ c ∈ cs.head?, c.isDigit = true
  chars : ∀ c ∈ cs, isNumeralChar c = true
  value : Numeral.readUnsigned cs = q

section Spells

variable {whole fraction tail : List Char}

theorem start_append (nonempty : whole ≠ []) (digits : IsDigits whole) (tail : List Char) :
    ∃ c ∈ (whole ++ tail).head?, c.isDigit = true := by
  obtain ⟨d, more, rfl⟩ := List.exists_cons_of_ne_nil nonempty
  exact ⟨d, rfl, digits d (List.mem_cons_self ..)⟩

variable (nonempty : whole ≠ []) (digits : IsDigits whole) (stops : StopsDigits tail)
  (chars : ∀ c ∈ tail, isNumeralChar c = true)
include nonempty digits stops chars

/-- Digits, then perhaps an exponent. -/
theorem spells_whole (plain : tail.head? ≠ some '.') :
    Spells (whole ++ tail) (natOfDigits 0 whole * 10 ^ Numeral.readExponent tail) where
  start := start_append nonempty digits tail
  chars c mem := (List.mem_append.1 mem).elim (fun mem => isNumeralChar_of_isDigit (digits c mem)) (chars c)
  value := by
    obtain ⟨taken, left⟩ := takeWhile_stops digits stops
    unfold Numeral.readUnsigned
    dsimp only
    rw [taken, left]
    split
    next => exact absurd rfl plain
    next => rfl

/-- Digits, a point and digits, then perhaps an exponent. -/
theorem spells_point (digits' : IsDigits fraction) :
    Spells (whole ++ '.' :: (fraction ++ tail))
      (natOfDigits 0 (whole ++ fraction) * 10 ^ (Numeral.readExponent tail - fraction.length)) := by
  have point : StopsDigits ('.' :: (fraction ++ tail)) := stopsDigits_cons rfl _
  have chars : ∀ c ∈ '.' :: (fraction ++ tail), isNumeralChar c = true := by
    intro c mem
    rcases List.mem_cons.1 mem with rfl | mem
    · rfl
    · exact (List.mem_append.1 mem).elim (fun mem => isNumeralChar_of_isDigit (digits' c mem)) (chars c)
  refine ⟨start_append nonempty digits _, fun c mem => (List.mem_append.1 mem).elim
    (fun mem => isNumeralChar_of_isDigit (digits c mem)) (chars c), ?_⟩
  obtain ⟨taken, left⟩ := takeWhile_stops digits point
  obtain ⟨taken', left'⟩ := takeWhile_stops digits' stops
  unfold Numeral.readUnsigned
  dsimp only
  rw [taken, left]
  simp only [taken', left']

end Spells

/-! ## What is written -/

theorem toString_ne_nil (n : ℕ) : (toString n).toList ≠ [] := by
  rw [Nat.toString_eq_repr, Nat.toList_repr]
  exact Nat.toDigits_ne_nil

theorem spells_toString (n : ℕ) : Spells (toString n).toList n := by
  have spelt := spells_whole (toString_ne_nil n) (isDigits_toString n) stopsDigits_nil nofun nofun
  have exponent : (10 : ℚ) ^ Numeral.readExponent [] = 1 := rfl
  rw [List.append_nil, natOfDigits_toString, exponent, mul_one] at spelt
  exact spelt

/-- Positional notation writes the decimal, with a fraction of zero where it has none. -/
theorem spells_positional (r : Digits) :
    Spells (r.positional ++ if 0 ≤ r.exponent then ".0" else "").toList r.value := by
  obtain ⟨n, exponent⟩ := r
  unfold Digits.positional Digits.value
  cases exponent with
  | ofNat zeros =>
    have nonneg : (0 : ℤ) ≤ .ofNat zeros := Int.natCast_nonneg zeros
    have chars : (toString n ++ "".pushn '0' zeros ++ ".0").toList =
        ((toString n).toList ++ List.replicate zeros '0') ++ '.' :: (List.replicate 1 '0' ++ []) := by
      simp only [String.toList_append, toList_pushn]
      rfl
    have digits : IsDigits ((toString n).toList ++ List.replicate zeros '0') := fun c mem =>
      (List.mem_append.1 mem).elim (isDigits_toString n c) (isDigits_zeros zeros c)
    have nonempty : (toString n).toList ++ List.replicate zeros '0' ≠ [] :=
      List.append_ne_nil_of_left_ne_nil (toString_ne_nil n) _
    have spelt := spells_point nonempty digits stopsDigits_nil nofun (isDigits_zeros 1)
    have value : (natOfDigits 0 ((toString n).toList ++ List.replicate zeros '0' ++ List.replicate 1 '0') : ℚ) *
        10 ^ (Numeral.readExponent [] - ((List.replicate 1 '0').length : ℤ)) = n * 10 ^ Int.ofNat zeros := by
      have tenth : (10 : ℚ) ^ (Numeral.readExponent [] - ((List.replicate 1 '0').length : ℤ)) = 10⁻¹ := rfl
      have power : (10 : ℚ) ^ Int.ofNat zeros = 10 ^ zeros := zpow_natCast 10 zeros
      rw [natOfDigits_append, natOfDigits_append, natOfDigits_toString, natOfDigits_zeros, natOfDigits_zeros, tenth,
        power]
      push_cast
      ring
    dsimp only
    rw [if_pos nonneg, chars, ← value]
    exact spelt
  | negSucc places =>
    have negative : ¬ (0 : ℤ) ≤ .negSucc places := by omega
    dsimp only
    rw [if_neg negative]
    generalize padding : places + 1 + 1 - (toString n).length = zeros
    have padded : ("".pushn '0' zeros ++ toString n).toList = List.replicate zeros '0' ++ (toString n).toList := by
      rw [String.toList_append, toList_pushn]
    have digits : IsDigits ("".pushn '0' zeros ++ toString n).toList := by
      rw [padded]
      exact fun c mem => (List.mem_append.1 mem).elim (isDigits_zeros zeros c) (isDigits_toString n c)
    have value : natOfDigits 0 ("".pushn '0' zeros ++ toString n).toList = n := by
      rw [padded, natOfDigits_append, natOfDigits_zeros, Nat.zero_mul, natOfDigits_toString]
    have long : places + 1 < ("".pushn '0' zeros ++ toString n).toList.length := by
      rw [padded, List.length_append, List.length_replicate, String.length_toList]
      omega
    generalize ("".pushn '0' zeros ++ toString n).toList = cs at *
    have chars : (String.ofList (cs.take (cs.length - (places + 1))) ++ "." ++
        String.ofList (cs.drop (cs.length - (places + 1))) ++ "").toList =
          cs.take (cs.length - (places + 1)) ++ '.' :: (cs.drop (cs.length - (places + 1)) ++ []) := by
      simp
    have exponent :
        Numeral.readExponent [] - ((cs.length - (cs.length - (places + 1)) : ℕ) : ℤ) = .negSucc places := by
      show (0 : ℤ) - _ = _
      omega
    have nonempty : cs.take (cs.length - (places + 1)) ≠ [] := by
      intro none
      have length := congrArg List.length none
      rw [List.length_take, List.length_nil] at length
      omega
    have fraction : IsDigits (cs.drop (cs.length - (places + 1))) := fun c mem => digits c (List.mem_of_mem_drop mem)
    have spelt := spells_point nonempty (fun c mem => digits c (List.mem_of_mem_take mem)) stopsDigits_nil nofun
      fraction
    rw [List.take_append_drop, value, List.length_drop, exponent] at spelt
    rw [chars]
    exact spelt

/-- The exponent at the end of a numeral. -/
theorem exists_exponent (lead : ℤ) : ∃ tail, 
    ("e" ++ (if lead < 0 then "-" else "+") ++ toString lead.natAbs).toList = tail ∧ StopsDigits tail ∧
      tail.head? ≠ some '.' ∧ (∀ c ∈ tail, isNumeralChar c = true) ∧ Numeral.readExponent tail = lead := by
  have digits : ∀ c ∈ (toString lead.natAbs).toList, isNumeralChar c = true := fun c mem =>
    isNumeralChar_of_isDigit (isDigits_toString _ c mem)
  have point : some 'e' ≠ some '.' := by decide
  by_cases down : lead < 0
  · refine ⟨'e' :: '-' :: (toString lead.natAbs).toList, by simp [down], stopsDigits_cons rfl _, point, ?_, ?_⟩
    · exact List.forall_mem_cons.2 ⟨rfl, List.forall_mem_cons.2 ⟨rfl, digits⟩⟩
    · show -((natOfDigits 0 _ : ℕ) : ℤ) = _
      rw [natOfDigits_toString]
      omega
  · refine ⟨'e' :: '+' :: (toString lead.natAbs).toList, by simp [down], stopsDigits_cons rfl _, point, ?_, ?_⟩
    · exact List.forall_mem_cons.2 ⟨rfl, List.forall_mem_cons.2 ⟨rfl, digits⟩⟩
    · show ((natOfDigits 0 _ : ℕ) : ℤ) = _
      rw [natOfDigits_toString]
      omega

/-- The decimal that is written with an exponent. -/
theorem spells_scientific (n : ℕ) (lead : ℤ) :
    Spells (pointed (toString n) ++ "e" ++ (if lead < 0 then "-" else "+") ++ toString lead.natAbs).toList
      (n * 10 ^ (lead - ((toString n).length - 1 : ℕ))) := by
  obtain ⟨tail, text, stops, plain, numeral, exponent⟩ := exists_exponent lead
  have chars : (pointed (toString n) ++ "e" ++ (if lead < 0 then "-" else "+") ++ toString lead.natAbs).toList =
      (pointed (toString n)).toList ++ tail := by
    rw [← text]
    simp only [String.toList_append, List.append_assoc]
  have digits := isDigits_toString n
  have nonempty := toString_ne_nil n
  have value := natOfDigits_toString n
  rw [chars, ← String.length_toList]
  unfold pointed
  generalize (toString n).toList = cs at *
  split
  next d e rest =>
    have point : (String.ofList (d :: '.' :: e :: rest)).toList ++ tail = [d] ++ '.' :: ((e :: rest) ++ tail) := by
      simp
    have first : IsDigits [d] := fun c mem => digits c (List.mem_cons.2 (.inl (List.mem_singleton.1 mem)))
    have others : IsDigits (e :: rest) := fun c mem => digits c (List.mem_cons_of_mem d mem)
    have spelt := spells_point (List.cons_ne_nil d []) first stops numeral others
    have value : natOfDigits 0 ([d] ++ e :: rest) = n := value
    rw [value, exponent] at spelt
    rw [point]
    exact spelt
  next short =>
    have single : cs.length - 1 = 0 := by
      match cs with
      | [] => rfl
      | [_] => rfl
      | d :: e :: rest => exact absurd rfl (short d e rest)
    have spelt := spells_whole nonempty digits stops numeral plain
    rw [value, exponent] at spelt
    rw [String.toList_ofList, single, Nat.cast_zero, sub_zero]
    exact spelt

/-! ## Numbers -/

/-- The text is the numeral of a number with this sign and size: what it spells rounds to the number. -/
structure WritesNumber (cs : List Char) (d : Decimal.Dyadic) : Prop where
  chars : ∀ c ∈ cs, isNumeralChar c = true
  start : ∃ c ∈ cs.head?, c.isDigit = true ∨ c = '-'
  sign : 0 < d.mantissa → (Numeral.read cs).1 = d.negative
  rounds : d.Rounds (Numeral.read cs).2

variable {d : Decimal.Dyadic} {cs : List Char} {q : ℚ}

theorem Spells.read (spelt : Spells cs q) : Numeral.read cs = (false, q) := by
  obtain ⟨c, start, digit⟩ := spelt.start
  rw [← spelt.value]
  unfold Numeral.read
  split
  next =>
    cases start
    cases digit
  next => rfl

/-- A numeral, with a sign in front of it when the number is negative. -/
theorem Spells.signed (spelt : Spells cs q) (rounds : d.Rounds q) :
    WritesNumber ((if d.negative then "-" else "").toList ++ cs) d := by
  cases negative : d.negative with
  | true =>
    refine ⟨List.forall_mem_cons.2 ⟨rfl, spelt.chars⟩, ⟨'-', rfl, .inr rfl⟩, fun _ => ?_, ?_⟩
    · rw [negative]
      rfl
    · show d.Rounds (Numeral.readUnsigned cs)
      rw [spelt.value]
      exact rounds
  | false =>
    obtain ⟨c, start, digit⟩ := spelt.start
    have plain : (if false = true then "-" else "").toList ++ cs = cs := rfl
    rw [plain]
    refine ⟨spelt.chars, ⟨c, start, .inl digit⟩, fun _ => ?_, ?_⟩ <;> rw [spelt.read]
    · exact negative.symm
    · exact rounds

/-- Shortest digits, in either notation. -/
theorem writesNumber_writeFraction {x : Float} (pos : 0 < (Decimal.Dyadic.ofFloat x).mantissa) :
    WritesNumber (writeFraction x).toList (.ofFloat x) := by
  have double := Decimal.Dyadic.ofFloat_isDouble x
  unfold writeFraction
  generalize Decimal.Dyadic.ofFloat x = d at *
  have rounds := rounds_shortest double pos .even
  dsimp only
  generalize shortest .even d = r at *
  split
  · rw [String.append_assoc, String.toList_append]
    exact (spells_positional r).signed rounds
  · have spelt := spells_scientific r.digits ((toString r.digits).length + r.exponent - 1)
    have long : 0 < (toString r.digits).length := by
      rw [← String.length_toList]
      exact List.length_pos_of_ne_nil (toString_ne_nil _)
    have exponent : ((toString r.digits).length + r.exponent - 1 - ((toString r.digits).length - 1 : ℕ) : ℤ) =
        r.exponent := by omega
    rw [exponent] at spelt
    rw [String.append_assoc, String.append_assoc, String.append_assoc, String.toList_append, ← String.append_assoc,
      ← String.append_assoc]
    exact spelt.signed rounds

/-- The value of a number that is whole. -/
theorem magnitude_of_isWhole (whole : d.isWhole = true) : d.magnitude = d.wholePart := by
  unfold Decimal.Dyadic.magnitude Decimal.Dyadic.wholePart
  unfold Decimal.Dyadic.isWhole at whole
  cases exponent : d.exponent with
  | ofNat up =>
    have power : (2 : ℚ) ^ Int.ofNat up = 2 ^ up := zpow_natCast 2 up
    dsimp only
    rw [power, Nat.pow_eq]
    push_cast
    rfl
  | negSucc down =>
    rw [exponent] at whole
    have divides : 2 ^ (down + 1) ∣ d.mantissa := Nat.dvd_of_mod_eq_zero (beq_iff_eq.1 whole)
    dsimp only
    rw [Nat.pow_eq, Nat.cast_div divides (by positivity), zpow_negSucc, div_eq_mul_inv]
    push_cast
    rfl

/-- A whole number is written as an integer. -/
theorem writesNumber_toString (whole : d.isWhole = true) : WritesNumber (toString d.toInt).toList d := by
  have unit : (0 : ℚ) < 2 ^ d.exponent := by positivity
  have rounds : d.Rounds d.wholePart := by
    have exact := magnitude_of_isWhole whole
    have reach : (0 : ℚ) < d.reach := by
      unfold Decimal.Dyadic.reach
      split <;> norm_num
    exact Decimal.Dyadic.rounds_of_near (b := 0) (by linarith) (by linarith) (by rw [mul_zero]; positivity)
  have spelt := spells_toString d.wholePart
  by_cases zero : d.wholePart = 0
  · -- no sign is written for zero
    have none : d.toInt = 0 := by
      unfold Decimal.Dyadic.toInt
      rw [zero]
      split <;> rfl
    have mantissa : ¬ 0 < d.mantissa := by
      intro pos
      have size := magnitude_of_isWhole whole
      rw [zero, Nat.cast_zero, Decimal.Dyadic.magnitude] at size
      have : (0 : ℚ) < d.mantissa := mod_cast pos
      nlinarith
    rw [zero] at spelt rounds
    rw [none]
    obtain ⟨c, start, digit⟩ := spelt.start
    refine ⟨spelt.chars, ⟨c, start, .inl digit⟩, fun pos => absurd pos mantissa, ?_⟩
    exact spelt.read.symm ▸ rounds
  · have text : (toString d.toInt).toList =
        (if d.negative then "-" else "").toList ++ (toString d.wholePart).toList := by
      obtain ⟨n, some⟩ := Nat.exists_eq_succ_of_ne_zero zero
      unfold Decimal.Dyadic.toInt
      rw [some]
      split
      · have sign : toString (-((n + 1 : ℕ) : ℤ)) = "-" ++ toString (n + 1) := rfl
        rw [sign, String.toList_append]
      · rfl
    rw [text]
    exact spelt.signed rounds

/-- **A finite number is written as a numeral that rounds to it.** -/
theorem writesNumber {x : Float} (finite : x.isFinite = true) : WritesNumber (writeNumber x).toList (.ofFloat x) := by
  unfold writeNumber
  rw [finite, Bool.not_true, if_neg Bool.false_ne_true]
  dsimp only
  split
  next whole => exact writesNumber_toString (Bool.and_eq_true_iff.1 whole).1
  next fraction =>
    refine writesNumber_writeFraction (Nat.pos_of_ne_zero fun zero => fraction ?_)
    have part := Decimal.Dyadic.wholePart_of_mantissa_zero zero
    have whole : (Decimal.Dyadic.ofFloat x).isWhole = true := by
      unfold Decimal.Dyadic.isWhole
      split
      · rfl
      · rw [zero, Nat.zero_mod]
        rfl
    rw [whole, part]
    rfl

/-- **Numbers with the same numeral are equal.** -/
theorem eq_of_writeNumber {x y : Float} (finite : x.isFinite = true) (finite' : y.isFinite = true)
    (same : writeNumber x = writeNumber y) : (x == y) = true := by
  have written := writesNumber finite
  have written' := writesNumber finite'
  rw [← same] at written'
  obtain ⟨mantissa, exponent⟩ := written.rounds.unique (Decimal.Dyadic.ofFloat_isDouble x)
    (Decimal.Dyadic.ofFloat_isDouble y) written'.rounds
  rw [Number.beq_iff_compare, Decimal.Dyadic.unpack_ofFloat finite, Decimal.Dyadic.unpack_ofFloat finite']
  have sign := written.sign
  have sign' := written'.sign
  generalize Decimal.Dyadic.ofFloat x = d at *
  generalize Decimal.Dyadic.ofFloat y = d' at *
  obtain ⟨negative, m, e⟩ := d
  obtain ⟨negative', m', e'⟩ := d'
  obtain rfl : m = m' := mantissa
  obtain rfl : e = e' := exponent
  unfold Decimal.Dyadic.unpacked
  by_cases pos : 0 < m
  · obtain rfl : negative = negative' := (sign pos).symm.trans (sign' pos)
    rw [dif_pos pos]
    cases negative <;>
      simp [Float.Model.UnpackedFloat.compare, Decimal.Dyadic.sign, Std.ReflCmp.compare_self]
  · rw [dif_neg pos, dif_neg pos]
    rfl

end BindScript.JsonText
