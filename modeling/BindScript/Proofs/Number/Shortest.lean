import BindScript.Decimal.Shortest
import BindScript.Proofs.Number.Whole

/-!
# The digits of a double are its own

The reals that round to a double form an interval, and the intervals of two doubles meet in an end at most, which
then belongs to one of them (`Dyadic.Rounds.unique`). The shortest digits of a double lie in its interval
(`rounds_shortest`), so no other double of that sign has them. The grid with seventeen digits always has such a
decimal: its places are narrower than those of the double, since the leading exponent is never taken too high
(`leadingExponent_le`).
-/

namespace BindScript.Decimal

/-- The value of the decimal. -/
def Digits.value (r : Digits) : ℚ :=
  r.digits * 10 ^ r.exponent

namespace Dyadic

/-- The size of the number. -/
def magnitude (d : Dyadic) : ℚ :=
  d.mantissa * 2 ^ d.exponent

/-- The places below the number are finer than those above it. -/
def finerBelow (d : Dyadic) : Bool :=
  d.mantissa == Nat.pow 2 52 && d.exponent != -1074

/-- How far down the interval of the number reaches, in quarters of its last place. -/
def reach (d : Dyadic) : ℕ :=
  if d.finerBelow then 1 else 2

/-- Four times the lower end of the interval of reals that round to the number. -/
def low (d : Dyadic) : ℚ :=
  (4 * d.mantissa - d.reach) * 2 ^ d.exponent

/-- Four times the upper end of the interval of reals that round to the number. -/
def high (d : Dyadic) : ℚ :=
  (4 * d.mantissa + 2) * 2 ^ d.exponent

/-- The real rounds to the number. The ends of the interval belong to numbers with an even mantissa. -/
def Rounds (d : Dyadic) (q : ℚ) : Prop :=
  if d.mantissa % 2 = 0 then d.low ≤ 4 * q ∧ 4 * q ≤ d.high else d.low < 4 * q ∧ 4 * q < d.high

/-- The value is one that a double can have. -/
structure IsDouble (d : Dyadic) : Prop where
  mantissa : d.mantissa < 2 ^ 53
  lowest : -1074 ≤ d.exponent
  highest : d.exponent ≤ 972
  /-- Only the finest places leave the leading bit out. -/
  normal : -1074 < d.exponent → 2 ^ 52 ≤ d.mantissa

variable {d d' : Dyadic} {q : ℚ}

theorem ofFloat_isDouble (x : Float) : (ofFloat x).IsDouble := by
  have below : x.toBits.toNat / Nat.pow 2 52 % Nat.pow 2 11 < 2048 := Nat.mod_lt _ (by decide)
  refine ⟨mantissa_lt x, ?_, ?_, fun fine => ?_⟩ <;> unfold ofFloat at * <;> dsimp only at *
  · split <;> dsimp only <;> omega
  · split <;> dsimp only <;> omega
  · split at fine
    · exact absurd fine (lt_irrefl _)
    · next scale =>
      rw [if_neg scale]
      exact Nat.le_add_left _ _

/-- One number is below the other: its exponent is, or its mantissa at the same exponent. -/
def Below (d d' : Dyadic) : Prop :=
  d.exponent < d'.exponent ∨ d.exponent = d'.exponent ∧ d.mantissa < d'.mantissa

theorem reach_le (d : Dyadic) : d.reach ≤ 2 := by
  unfold reach
  split <;> omega

/-- The interval of a number ends where that of the next one starts, and these two are not both even. -/
theorem high_le_low (double : d.IsDouble) (double' : d'.IsDouble) (below : d.Below d') :
    d.high ≤ d'.low ∧ (d.mantissa % 2 = 0 → d'.mantissa % 2 = 0 → d.high < d'.low) := by
  have unit : (0 : ℚ) < 2 ^ d.exponent := by positivity
  have reach : (d'.reach : ℚ) ≤ 2 := mod_cast d'.reach_le
  unfold high low
  rcases below with lower | ⟨same, less⟩
  -- the upper number has a larger exponent, and may reach down by less than half a unit if it is the first there
  · have normal := double'.normal (by have := double.lowest; omega)
    have coarser : (2 : ℚ) * 2 ^ d.exponent ≤ 2 ^ d'.exponent := by
      have step : (2 : ℚ) * 2 ^ d.exponent = 2 ^ (d.exponent + 1) := by rw [zpow_add_one₀ two_ne_zero, mul_comm]
      rw [step]
      exact zpow_le_zpow_right₀ one_le_two (by omega)
    by_cases least : d'.mantissa = 2 ^ 52
    · have finer : d'.reach = 1 := by
        have above : (d'.exponent != -1074) = true := by
          have := double.lowest
          simp only [bne_iff_ne, ne_eq]
          omega
        have first : (d'.mantissa == Nat.pow 2 52) = true := beq_iff_eq.2 least
        rw [Dyadic.reach, finerBelow, above, first]
        rfl
      have ends : (4 * (2 ^ 52 : ℚ) - 1) * (2 * 2 ^ d.exponent) ≤ (4 * (2 ^ 52 : ℚ) - 1) * 2 ^ d'.exponent :=
        mul_le_mul_of_nonneg_left coarser (by norm_num)
      rw [finer, least]
      push_cast
      constructor
      · have most : (d.mantissa : ℚ) ≤ 2 ^ 53 - 1 := by
          have := double.mantissa
          exact le_sub_iff_add_le.2 (mod_cast this)
        nlinarith
      · intro even _
        have most : (d.mantissa : ℚ) ≤ 2 ^ 53 - 2 := by
          have := double.mantissa
          have : d.mantissa + 2 ≤ 2 ^ 53 := by omega
          exact le_sub_iff_add_le.2 (mod_cast this)
        nlinarith
    · have more : (2 : ℚ) ^ 52 + 1 ≤ d'.mantissa := by
        have : 2 ^ 52 + 1 ≤ d'.mantissa := by omega
        exact_mod_cast this
      have most : (d.mantissa : ℚ) ≤ 2 ^ 53 := by
        exact_mod_cast double.mantissa.le
      have strict : (4 * (d.mantissa : ℚ) + 2) * 2 ^ d.exponent <
          (4 * d'.mantissa - d'.reach) * 2 ^ d'.exponent := by
        calc (4 * (d.mantissa : ℚ) + 2) * 2 ^ d.exponent
            < (4 * d'.mantissa - d'.reach) * (2 * 2 ^ d.exponent) := by nlinarith
          _ ≤ (4 * d'.mantissa - d'.reach) * 2 ^ d'.exponent :=
              mul_le_mul_of_nonneg_left coarser (by linarith)
      exact ⟨strict.le, fun _ _ => strict⟩
  -- in one and the same exponent the intervals meet where the mantissas are neighbours
  · rw [← same]
    constructor
    · have next : (d.mantissa : ℚ) + 1 ≤ d'.mantissa := mod_cast less
      exact mul_le_mul_of_nonneg_right (by linarith) unit.le
    · intro even even'
      have next : (d.mantissa : ℚ) + 2 ≤ d'.mantissa := by
        have : d.mantissa + 2 ≤ d'.mantissa := by omega
        exact_mod_cast this
      exact mul_lt_mul_of_pos_right (by linarith) unit

theorem not_rounds_of_below (double : d.IsDouble) (double' : d'.IsDouble) (below : d.Below d')
    (rounds : d.Rounds q) (rounds' : d'.Rounds q) : False := by
  obtain ⟨meet, apart⟩ := high_le_low double double' below
  unfold Rounds at rounds rounds'
  split at rounds <;> split at rounds'
  next even even' => exact absurd (apart even even') (not_lt.2 (rounds'.1.trans rounds.2))
  next => linarith [rounds.2, rounds'.1]
  next => linarith [rounds.2, rounds'.1]
  next => linarith [rounds.2, rounds'.1]

/-- **A real rounds to one number.** -/
theorem Rounds.unique (double : d.IsDouble) (double' : d'.IsDouble) (rounds : d.Rounds q) (rounds' : d'.Rounds q) :
    d.mantissa = d'.mantissa ∧ d.exponent = d'.exponent := by
  rcases lt_trichotomy d.exponent d'.exponent with lower | same | higher
  · exact (not_rounds_of_below double double' (.inl lower) rounds rounds').elim
  · rcases lt_trichotomy d.mantissa d'.mantissa with less | equal | more
    · exact (not_rounds_of_below double double' (.inr ⟨same, less⟩) rounds rounds').elim
    · exact ⟨equal, same⟩
    · exact (not_rounds_of_below double' double (.inr ⟨same.symm, more⟩) rounds' rounds).elim
  · exact (not_rounds_of_below double' double (.inl higher) rounds' rounds).elim

/-- A real rounds to the number when it is nearer than the places of the number are wide. -/
theorem rounds_of_near {b : ℚ} (up : q ≤ d.magnitude + b) (down : d.magnitude - b ≤ q)
    (near : 4 * b < d.reach * 2 ^ d.exponent) : d.Rounds q := by
  have unit : (0 : ℚ) < 2 ^ d.exponent := by positivity
  have reach : (d.reach : ℚ) * 2 ^ d.exponent ≤ 2 * 2 ^ d.exponent :=
    mul_le_mul_of_nonneg_right (mod_cast d.reach_le) unit.le
  have above : d.low < 4 * q := by
    unfold low magnitude at *
    linarith
  have under : 4 * q < d.high := by
    unfold high magnitude at *
    linarith
  unfold Rounds
  split
  · exact ⟨above.le, under.le⟩
  · exact ⟨above, under⟩

end Dyadic

/-! ## Units -/

section Measure

variable (m : ℕ) (e unit : ℤ)

theorem den_measure_pos : 0 < (measure m e unit).den :=
  Nat.mul_pos (Nat.pow_pos two_pos) (Nat.pow_pos (by decide))

/-- The scale of a measure turns places of the number into units. -/
theorem scale_measure :
    ((measure m e unit).scale : ℚ) * 10 ^ unit = 2 ^ e * (measure m e unit).den := by
  have split : ∀ (b : ℚ) (k : ℤ), b ≠ 0 → b ^ k * b ^ (-k).toNat = b ^ k.toNat := by
    intro b k nonzero
    rw [← zpow_natCast, ← zpow_natCast, ← zpow_add₀ nonzero]
    congr 1
    omega
  have two := split 2 e two_ne_zero
  have ten := split 10 unit (by norm_num)
  show ((2 ^ e.toNat * 10 ^ (-unit).toNat : ℕ) : ℚ) * 10 ^ unit =
    2 ^ e * ((2 ^ (-e).toNat * 10 ^ unit.toNat : ℕ) : ℚ)
  push_cast
  rw [← two, ← ten]
  ring

theorem num_measure : ((measure m e unit).num : ℚ) = m * (measure m e unit).scale := by
  exact_mod_cast rfl

/-- The value of the number in units. -/
theorem num_measure_mul :
    ((measure m e unit).num : ℚ) * 10 ^ unit = m * 2 ^ e * (measure m e unit).den := by
  rw [num_measure, mul_assoc, scale_measure, mul_assoc]

theorem le_magnitude_iff (c : ℕ) :
    c * (measure m e unit).den ≤ (measure m e unit).num ↔ (c : ℚ) * 10 ^ unit ≤ m * 2 ^ e := by
  have den : (0 : ℚ) < (measure m e unit).den := mod_cast den_measure_pos m e unit
  have ten : (0 : ℚ) < 10 ^ unit := by positivity
  rw [← Nat.cast_le (α := ℚ), ← mul_le_mul_iff_left₀ ten, num_measure_mul, Nat.cast_mul, mul_right_comm,
    mul_le_mul_iff_left₀ den]

end Measure

/-- What is checked of a decimal on the grid is that it rounds to the number. -/
theorem roundsTo_iff {d : Dyadic} (pos : 0 < d.mantissa) (unit : ℤ) (c : ℕ) :
    roundsTo d.mantissa d.finerBelow (measure d.mantissa d.exponent unit) c = true ↔
      d.Rounds (c * 10 ^ unit) := by
  have den : (0 : ℚ) < (measure d.mantissa d.exponent unit).den := mod_cast den_measure_pos ..
  have ten : (0 : ℚ) < 10 ^ unit := by positivity
  have scale := scale_measure d.mantissa d.exponent unit
  unfold roundsTo
  generalize measure d.mantissa d.exponent unit = m at *
  -- both sides of a comparison in whole units, times what turns them into places of the number
  have quarters : ∀ a : ℕ, ((a * m.scale : ℕ) : ℚ) * 10 ^ unit = a * 2 ^ d.exponent * m.den := by
    intro a
    rw [Nat.cast_mul, mul_assoc, scale, mul_assoc]
  have here : ((4 * c * m.den : ℕ) : ℚ) * 10 ^ unit = 4 * (c * 10 ^ unit) * m.den := by
    push_cast
    ring
  have above : ∀ a : ℕ, a * m.scale ≤ 4 * c * m.den ↔ (a : ℚ) * 2 ^ d.exponent ≤ 4 * (c * 10 ^ unit) := by
    intro a
    rw [← Nat.cast_le (α := ℚ), ← mul_le_mul_iff_left₀ ten, quarters, here, mul_le_mul_iff_left₀ den]
  have below : ∀ a : ℕ, 4 * c * m.den ≤ a * m.scale ↔ 4 * (c * 10 ^ unit) ≤ (a : ℚ) * 2 ^ d.exponent := by
    intro a
    rw [← Nat.cast_le (α := ℚ), ← mul_le_mul_iff_left₀ ten, quarters, here, mul_le_mul_iff_left₀ den]
  have low : ((4 * d.mantissa - d.reach : ℕ) : ℚ) * 2 ^ d.exponent = d.low := by
    have := d.reach_le
    rw [Nat.cast_sub (by omega)]
    push_cast
    rfl
  have high : ((4 * d.mantissa + 2 : ℕ) : ℚ) * 2 ^ d.exponent = d.high := by
    push_cast
    rfl
  have reach : (if d.finerBelow = true then 1 else 2) = d.reach := rfl
  dsimp only
  rw [reach]
  unfold Dyadic.Rounds
  split
  · rw [Bool.and_eq_true, decide_eq_true_iff, decide_eq_true_iff, above, below, low, high]
  · rw [Bool.and_eq_true, decide_eq_true_iff, decide_eq_true_iff, ← not_le, ← not_le, above, below, low, high,
      not_le, not_le]

/-! ## The leading exponent -/

/-- Powers of ten against powers of two, over the exponents of doubles. -/
theorem pow_ten_le_pow_two : ∀ n ≤ 1024, Nat.pow 10 (n * 30103 / 100000) ≤ Nat.pow 2 n := by
  decide +kernel

theorem pow_two_le_pow_ten : ∀ n ≤ 1074, Nat.pow 2 n ≤ Nat.pow 10 ((n * 30103 + 99999) / 100000) := by
  decide +kernel

/-- The guess that starts from the binary logarithm is not too high. -/
theorem zpow_guess_le {k : ℤ} (least : -1074 ≤ k) (most : k ≤ 1024) :
    (10 : ℚ) ^ (k * 30103).fdiv 100000 ≤ 2 ^ k := by
  rw [Int.fdiv_eq_ediv_of_nonneg _ (by decide)]
  rcases Int.le_total 0 k with up | down
  · obtain ⟨n, rfl⟩ := Int.eq_ofNat_of_zero_le up
    have exponent : (n : ℤ) * 30103 / 100000 = (n * 30103 / 100000 : ℕ) := by omega
    rw [exponent, zpow_natCast, zpow_natCast]
    exact_mod_cast pow_ten_le_pow_two n (by omega)
  · obtain ⟨n, rfl⟩ : ∃ n : ℕ, k = -n := ⟨k.toNat + (-k).toNat, by omega⟩
    have exponent : -(n : ℤ) * 30103 / 100000 = -((n * 30103 + 99999) / 100000 : ℕ) := by omega
    rw [exponent, zpow_neg, zpow_neg, zpow_natCast, zpow_natCast]
    refine inv_anti₀ (by positivity) ?_
    exact_mod_cast pow_two_le_pow_ten n (by omega)

/-- The power of ten that the digits start at is not above the number. -/
theorem leadingExponent_le {d : Dyadic} (double : d.IsDouble) (pos : 0 < d.mantissa) :
    (10 : ℚ) ^ leadingExponent d.mantissa d.exponent ≤ d.magnitude := by
  have log : 2 ^ d.mantissa.log2 ≤ d.mantissa := Nat.log2_self_le (by omega)
  have bits : d.mantissa.log2 < 53 := (Nat.log2_lt (by omega)).2 double.mantissa
  unfold leadingExponent
  dsimp only
  split
  next above =>
    rw [← Nat.one_mul (measure _ _ _).den, le_magnitude_iff, Nat.cast_one, one_mul] at above
    exact above
  next =>
    have := double.lowest
    have := double.highest
    calc (10 : ℚ) ^ (((d.mantissa.log2 : ℤ) + d.exponent) * 30103).fdiv 100000
        ≤ 2 ^ ((d.mantissa.log2 : ℤ) + d.exponent) := zpow_guess_le (by omega) (by omega)
      _ = 2 ^ d.mantissa.log2 * 2 ^ d.exponent := by rw [zpow_add₀ two_ne_zero, zpow_natCast]
      _ ≤ d.magnitude := mul_le_mul_of_nonneg_right (mod_cast log) (by positivity)

/-! ## Digits -/

/-- Rounding gives one of the two neighbours. -/
theorem nearer_cases (tie : Tie) (m : Measured) (low : ℕ) :
    nearer tie m low = low ∨ nearer tie m low = low + 1 := by
  unfold nearer
  split
  · exact .inl rfl
  · exact .inr rfl
  · cases tie
    · exact .inr rfl
    · dsimp only
      split
      · exact .inl rfl
      · exact .inr rfl

section Grid

variable {d : Dyadic} {tie : Tie} {lead : ℤ}

/-- What is found on a grid rounds to the number. -/
theorem rounds_of_onGrid? (pos : 0 < d.mantissa) {count : ℕ} {r : Digits}
    (found : onGrid? tie d.mantissa d.exponent d.finerBelow lead count = some r) : d.Rounds r.value := by
  unfold onGrid? at found
  dsimp only at found
  have rounds := roundsTo_iff pos (lead + 1 - count)
  split at found
  next here next =>
    cases found
    unfold Digits.value
    rcases nearer_cases tie (measure d.mantissa d.exponent (lead + 1 - count))
      ((measure d.mantissa d.exponent (lead + 1 - count)).num /
        (measure d.mantissa d.exponent (lead + 1 - count)).den) with same | same <;> dsimp only <;> rw [same]
    · exact (rounds _).1 here
    · exact (rounds _).1 next
  next here _ =>
    cases found
    exact (rounds _).1 here
  next _ next =>
    cases found
    exact (rounds _).1 next
  next => cases found

/-- Half a unit of seventeen digits is less than the number's interval reaches down. -/
theorem unit_lt_reach (double : d.IsDouble) (least : (10 : ℚ) ^ lead ≤ d.magnitude) :
    2 * (10 : ℚ) ^ (lead + 1 - 17) < d.reach * 2 ^ d.exponent := by
  have unit : (0 : ℚ) < 2 ^ d.exponent := by positivity
  have digits : (10 : ℚ) ^ lead = 10 ^ 16 * 10 ^ (lead + 1 - 17) := by
    rw [← zpow_natCast, ← zpow_add₀ (by norm_num)]
    congr 1
    omega
  rw [digits, Dyadic.magnitude] at least
  generalize (10 : ℚ) ^ (lead + 1 - 17) = u at *
  by_cases finer : d.finerBelow = true
  · have mantissa : d.mantissa = 2 ^ 52 := by
      simpa using (Bool.and_eq_true_iff.1 finer).1
    rw [mantissa] at least
    rw [Dyadic.reach, if_pos finer]
    push_cast at *
    linarith
  · have mantissa : (d.mantissa : ℚ) * 2 ^ d.exponent < 2 ^ 53 * 2 ^ d.exponent :=
      mul_lt_mul_of_pos_right (mod_cast double.mantissa) unit
    rw [Dyadic.reach, if_neg finer]
    push_cast at *
    linarith

/-- On the grid with seventeen digits, the nearer neighbour of the number rounds to it. -/
theorem exists_onGrid? (double : d.IsDouble) (pos : 0 < d.mantissa) (least : (10 : ℚ) ^ lead ≤ d.magnitude) :
    ∃ r, onGrid? tie d.mantissa d.exponent d.finerBelow lead 17 = some r := by
  have narrow := unit_lt_reach double least
  unfold onGrid?
  dsimp only
  have unit : lead + 1 - ((17 : ℕ) : ℤ) = lead + 1 - 17 := rfl
  rw [unit]
  generalize lead + 1 - 17 = u at *
  have den := den_measure_pos d.mantissa d.exponent u
  have under := (le_magnitude_iff d.mantissa d.exponent u _).1 (Nat.div_mul_le_self _ _)
  have beyond := mt (le_magnitude_iff d.mantissa d.exponent u _).2
    (not_le.2 ((Nat.div_lt_iff_lt_mul den).1 (Nat.lt_succ_self _)))
  have here := roundsTo_iff pos u
  generalize (measure d.mantissa d.exponent u).num / (measure d.mantissa d.exponent u).den = c at *
  rw [Nat.cast_succ, not_le, add_mul, one_mul] at beyond
  have near : 4 * ((10 : ℚ) ^ u / 2) < d.reach * 2 ^ d.exponent := by linarith
  -- the number is in the lower or in the upper half between the two neighbours
  rcases le_total ((d.mantissa : ℚ) * 2 ^ d.exponent) (c * 10 ^ u + 10 ^ u / 2) with lower | upper
  · have rounds : d.Rounds (c * 10 ^ u) := by
      refine Dyadic.rounds_of_near ?_ ?_ near <;> unfold Dyadic.magnitude <;> linarith
    rw [(here c).2 rounds]
    split
    case h_3 same _ => cases same
    case h_4 same _ => cases same
    all_goals exact ⟨_, rfl⟩
  · have rounds : d.Rounds ((c + 1 : ℕ) * 10 ^ u) := by
      refine Dyadic.rounds_of_near ?_ ?_ near <;> unfold Dyadic.magnitude <;> push_cast <;> linarith
    rw [(here (c + 1)).2 rounds]
    split
    case h_2 same => cases same
    case h_4 same => cases same
    all_goals exact ⟨_, rfl⟩

/-- The first grid that has a decimal for the number gives one that rounds to it. -/
theorem rounds_firstGrid (pos : 0 < d.mantissa) {left count k : ℕ} {r : Digits} (least : count ≤ k)
    (most : k < count + left) (found : onGrid? tie d.mantissa d.exponent d.finerBelow lead k = some r) :
    d.Rounds (firstGrid tie d.mantissa d.exponent d.finerBelow lead left count).value := by
  induction left generalizing count with
  | zero => exact absurd most (by omega)
  | succ left ih =>
    unfold firstGrid
    split
    next here => exact rounds_of_onGrid? pos here
    next none =>
      have later : count ≠ k := by
        rintro rfl
        cases none.symm.trans found
      exact ih (by omega) (by omega)

end Grid

/-- Taking zeros off the end keeps the value. -/
theorem value_strip (n : ℕ) (r : Digits) : (r.strip n).value = r.value := by
  induction n generalizing r with
  | zero => rfl
  | succ n ih =>
    unfold Digits.strip
    split
    next zeros =>
      have digits : r.digits = r.digits / 10 * 10 := by omega
      have step : ((r.digits / 10 : ℕ) : ℚ) * 10 ^ (r.exponent + 1) = r.value := by
        rw [Digits.value, digits, zpow_add_one₀ (by norm_num), Nat.mul_div_cancel _ (by decide)]
        push_cast
        ring
      exact (ih _).trans step
    next => rfl

/-- **The shortest digits of a number round to it.** -/
theorem rounds_shortest {d : Dyadic} (double : d.IsDouble) (pos : 0 < d.mantissa) (tie : Tie) :
    d.Rounds (shortest tie d).value := by
  obtain ⟨r, found⟩ : ∃ r, onGrid? tie d.mantissa d.exponent d.finerBelow
      (leadingExponent d.mantissa d.exponent) 17 = some r :=
    exists_onGrid? double pos (leadingExponent_le double pos)
  unfold shortest
  rw [if_neg (by omega), value_strip]
  exact rounds_firstGrid pos (by decide) (by decide) found

end BindScript.Decimal
