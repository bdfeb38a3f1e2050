import BindScript.Number.Arithmetic
import Mathlib

/-!
Whole doubles as natural numbers.

A double is compared through the sign, mantissa and exponent that its 64 bits hold, and `Dyadic.ofFloat`
takes the same three from the bits (`Dyadic.unpack_ofFloat`). So what is known about the order of a
double bounds its mantissa and exponent, and a double that is whole, not negative and below `2 ^ 22` is
the natural number of its size (`ofNat_toSize`): the size is not cut at 64 bits, as no bit of the mantissa
lies above.
-/

namespace BindScript.Decimal.Dyadic

open Float.Model Float.Model.UnpackedFloat

/-- The sign of a double with this value. -/
def sign (d : Dyadic) : Sign :=
  if d.negative then .negative else .positive

/-- The sign, mantissa and exponent of a double with this value. -/
def unpacked (d : Dyadic) : UnpackedFloat :=
  if pos : 0 < d.mantissa then .finite d.sign d.mantissa d.exponent pos else .zero d.sign

private theorem unpacked_of_pos {d : Dyadic} {s : Sign} {m : Nat} {e : Int} (pos : 0 < m)
    (sign : s = d.sign) (mantissa : m = d.mantissa) (exponent : e = d.exponent) :
    .finite s m e pos = d.unpacked := by
  subst sign mantissa exponent
  rw [unpacked, dif_pos pos]

/-! The three fields of 64 bits, as quotients and remainders of the number they are. -/

section Fields

variable (b : BitVec 64)

private theorem toNat_mantissa :
    (@unpackMantissa Format.binary64 b).toNat = b.toNat % Nat.pow 2 52 := by
  simp [unpackMantissa_def]

private theorem toNat_exponent :
    (@unpackExponent Format.binary64 b).toNat = b.toNat / Nat.pow 2 52 % Nat.pow 2 11 := by
  simp [unpackExponent_def, Nat.shiftRight_eq_div_pow]

private theorem exponent_eq_zero_iff :
    @unpackExponent Format.binary64 b = 0#11 ↔ b.toNat / Nat.pow 2 52 % Nat.pow 2 11 = 0 := by
  rw [← BitVec.toNat_inj, ← toNat_exponent]
  rfl

/-- The highest bit is the sign. -/
private theorem sign_eq :
    Sign.ofBitVec (@unpackSign Format.binary64 b) =
      if (b.toNat / Nat.pow 2 63 == 1) = true then .negative else .positive := by
  have one : b.toNat / Nat.pow 2 63 < 2 := Nat.div_lt_of_lt_mul b.isLt
  have top : @unpackSign Format.binary64 b = 0#1 ↔ b.toNat / Nat.pow 2 63 = 0 := by
    have bit : (@unpackSign Format.binary64 b).toNat = b.toNat / Nat.pow 2 63 % 2 := by
      simp [unpackSign_def, Nat.shiftRight_eq_div_pow]
    rw [← BitVec.toNat_inj, bit, Nat.mod_eq_of_lt one]
    rfl
  unfold Sign.ofBitVec
  by_cases positive : b.toNat / Nat.pow 2 63 = 0
  · rw [if_pos (top.2 positive), positive]
    rfl
  · have negative : b.toNat / Nat.pow 2 63 = 1 := by
      generalize b.toNat / Nat.pow 2 63 = half at one positive ⊢
      omega
    rw [if_neg fun zero => positive (top.1 zero), negative]
    rfl

/-- The mantissa of a double that is not subnormal has a bit of its own above those that are stored. -/
private theorem toNat_implicit_mantissa :
    (1#1 ++ @unpackMantissa Format.binary64 b).toNat =
      b.toNat % Nat.pow 2 52 + Nat.pow 2 52 := by
  have below : b.toNat % Nat.pow 2 52 < 2 ^ 52 := Nat.mod_lt _ (by decide)
  rw [BitVec.toNat_append, toNat_mantissa]
  show 1 <<< 52 ||| _ = _
  rw [← Nat.shiftLeft_add_eq_or_of_lt below, Nat.add_comm]
  rfl

end Fields

/-- The exact value of a finite double is what the double is compared by. -/
theorem unpack_ofFloat {x : Float} (finite : x.isFinite = true) :
    x.toModel.unpack = (ofFloat x).unpacked := by
  have finite : x.toModel.unpack.isFinite = true := finite
  unfold Float.Model.unpack at finite ⊢
  have bits : x.toBits.toNat = x.toModel.toBits.toBitVec.toNat := rfl
  unfold ofFloat
  rw [bits]
  generalize x.toModel.toBits.toBitVec = b at *
  unfold UnpackedFloat.unpack at finite ⊢
  dsimp only at finite ⊢
  rw [sign_eq] at finite ⊢
  split at finite
  · -- all bits of the exponent are set: an infinity, or no number
    split at finite <;> cases finite
  next notTop =>
  rw [if_neg notTop]
  by_cases low : @unpackExponent Format.binary64 b = 0#11
  · have zero := (exponent_eq_zero_iff b).1 low
    rw [if_pos low, if_pos zero]
    split
    next none =>
      have none : b.toNat % Nat.pow 2 52 = 0 := by
        rw [← toNat_mantissa, none]
        rfl
      simp [unpacked, none, sign]
    next some =>
      refine unpacked_of_pos _ rfl (toNat_mantissa b) ?_
      rw [toNat_exponent, zero]
      rfl
  · rw [if_neg low, if_neg fun zero => low ((exponent_eq_zero_iff b).2 zero)]
    refine unpacked_of_pos _ rfl (toNat_implicit_mantissa b) ?_
    rw [toNat_exponent]
    rfl

theorem mantissa_lt (x : Float) : (ofFloat x).mantissa < Nat.pow 2 53 := by
  have below : x.toBits.toNat % Nat.pow 2 52 < 2 ^ 52 := Nat.mod_lt _ (by decide)
  unfold ofFloat
  dsimp only
  split
  · exact Nat.lt_trans below (by decide)
  · show _ + 2 ^ 52 < 2 ^ 53
    omega

theorem wholePart_of_mantissa_zero {d : Dyadic} (none : d.mantissa = 0) : d.wholePart = 0 := by
  unfold wholePart
  rw [none]
  cases d.exponent with
  | ofNat up => exact Nat.zero_mul _
  | negSucc down => exact Nat.zero_div _

theorem wholePart_le_mantissa {d : Dyadic} (small : d.exponent < 0) : d.wholePart ≤ d.mantissa := by
  unfold wholePart
  cases exponent : d.exponent with
  | ofNat up =>
    rw [exponent] at small
    exact absurd small (Int.not_lt.2 (Int.natCast_nonneg up))
  | negSucc down => exact Nat.div_le_self _ _

end BindScript.Decimal.Dyadic

namespace BindScript.Number

open BindScript.Decimal

theorem lt_iff_compare (x y : Float) :
    x < y ↔ x.toModel.unpack.compare y.toModel.unpack = some .lt := by
  show decide (x.toModel < y.toModel) = true ↔ _
  rw [decide_eq_true_iff]
  exact beq_iff_eq

theorem beq_iff_compare (x y : Float) :
    (x == y) = true ↔ x.toModel.unpack.compare y.toModel.unpack = some .eq := by
  show x.toModel.unpack.beq y.toModel.unpack = true ↔ _
  exact beq_iff_eq

/-- The size of a finite number, cut at 64 bits. -/
theorem toSize_of_finite {x : Float} (finite : x.isFinite = true) :
    toSize x = min (Dyadic.ofFloat x).toInt.toNat (Nat.pow 2 64 - 1) := by
  have number : x.isNaN = false := by
    show x.toModel.unpack.isNaN = false
    rw [Dyadic.unpack_ofFloat finite]
    unfold Dyadic.unpacked
    split <;> rfl
  unfold toSize toInt
  rw [number, if_neg Bool.false_ne_true, if_pos finite, if_pos finite]

private theorem unpack_limit :
    (Float.ofNat (Nat.pow 2 22)).toModel.unpack = .finite .positive (2 ^ 52) (-30) (by decide) :=
  rfl

/-- Doubles of one sign are compared by their exponents first. -/
private theorem exponent_le {m : Nat} {e : Int} (pos : 0 < m)
    (fits : ¬ (Float.ofNat (Nat.pow 2 22)).toModel.unpack.compare (.finite .positive m e pos) = some .lt) :
    e ≤ -30 ∧ (e = -30 → m ≤ 2 ^ 52) := by
  rw [unpack_limit] at fits
  have fits : ¬ some ((compare (-30 : Int) e).then (compare (2 ^ 52) m)) = some .lt := fits
  constructor
  · by_contra high
    have above : compare (-30 : Int) e = .lt := compare_lt_iff_lt.2 (by omega)
    rw [above] at fits
    exact fits rfl
  · intro same
    by_contra more
    have above : compare (2 ^ 52) m = .lt := compare_lt_iff_lt.2 (by omega)
    rw [same, above] at fits
    exact fits rfl

/-- The size of a number that is not above `2 ^ 22` is not either. -/
theorem toSize_le {x : Float} (finite : x.isFinite = true) (fits : ¬ Float.ofNat (Nat.pow 2 22) < x) :
    toSize x ≤ Nat.pow 2 22 := by
  have small : (Dyadic.ofFloat x).mantissa < 2 ^ 53 := Dyadic.mantissa_lt x
  rw [lt_iff_compare, Dyadic.unpack_ofFloat finite] at fits
  rw [toSize_of_finite finite]
  generalize Dyadic.ofFloat x = d at *
  refine (Nat.min_le_left _ _).trans ?_
  cases sign : d.negative with
  | true =>
    have none : d.toInt.toNat = 0 := by
      rw [Dyadic.toInt, sign, if_pos rfl]
      omega
    exact none ▸ Nat.zero_le _
  | false =>
    have whole : d.toInt.toNat = d.wholePart := by
      rw [Dyadic.toInt, sign]
      rfl
    rw [whole]
    -- the limit is a power of two, so it bounds the exponent
    by_cases pos : 0 < d.mantissa
    · rw [Dyadic.unpacked, dif_pos pos, Dyadic.sign, sign] at fits
      obtain ⟨low, edge⟩ := exponent_le pos fits
      cases exponent : d.exponent with
      | ofNat up =>
        rw [exponent] at low
        have nonneg : (0 : Int) ≤ .ofNat up := Int.natCast_nonneg up
        omega
      | negSucc down =>
        rw [exponent] at low edge
        rw [Dyadic.wholePart, exponent]
        by_cases last : down = 29
        · subst last
          exact Nat.div_le_of_le_mul (edge rfl)
        · have deep : Nat.pow 2 31 ≤ Nat.pow 2 (down + 1) := Nat.pow_le_pow_right (by decide) (by omega)
          have below : d.mantissa ≤ Nat.pow 2 31 * Nat.pow 2 22 := small.le.trans (by decide)
          exact (Nat.div_le_div_left deep (by decide)).trans (Nat.div_le_of_le_mul below)
    · rw [Dyadic.wholePart_of_mantissa_zero (by omega)]
      exact Nat.zero_le _

/-- A number that is whole, not negative and not above `2 ^ 22` is its size. -/
theorem ofNat_toSize {x : Float} (finite : x.isFinite = true) (nonneg : ¬ x < 0.0)
    (whole : (truncate x == x) = true) (fits : ¬ Float.ofNat (Nat.pow 2 22) < x) :
    (Float.ofNat (toSize x) == x) = true := by
  have small : (Dyadic.ofFloat x).mantissa < 2 ^ 53 := Dyadic.mantissa_lt x
  have unpacked := Dyadic.unpack_ofFloat finite
  rw [lt_iff_compare, unpacked] at nonneg fits
  unfold truncate at whole
  rw [if_pos finite] at whole
  rw [toSize_of_finite finite]
  generalize Dyadic.ofFloat x = d at *
  by_cases pos : 0 < d.mantissa
  · rw [Dyadic.unpacked, dif_pos pos] at nonneg fits
    have positive : d.negative = false := by
      cases sign : d.negative with
      | false => rfl
      | true =>
        rw [Dyadic.sign, sign] at nonneg
        exact absurd rfl nonneg
    rw [Dyadic.sign, positive] at fits
    have low : d.exponent ≤ -30 := (exponent_le pos fits).1
    -- a number within the limit is far below the cut at 64 bits
    have uncut : min d.toInt.toNat (Nat.pow 2 64 - 1) = d.wholePart := by
      have within : d.wholePart ≤ d.mantissa := Dyadic.wholePart_le_mantissa (by omega)
      have within : d.wholePart ≤ 2 ^ 64 - 1 := by omega
      rw [Dyadic.toInt, positive]
      exact Nat.min_eq_left within
    rw [uncut]
    dsimp only at whole
    rw [positive] at whole
    exact whole
  · have none : d.wholePart = 0 := Dyadic.wholePart_of_mantissa_zero (by omega)
    have zero : min d.toInt.toNat (Nat.pow 2 64 - 1) = 0 := by
      rw [Dyadic.toInt, none]
      cases d.negative <;> rfl
    rw [zero, beq_iff_compare, unpacked, Dyadic.unpacked, dif_neg pos]
    rfl

end BindScript.Number
