import BindScript.Decimal.Dyadic

/-!
The shortest decimal digits that read back as a given double: of all decimals inside the interval of
reals that round to the double, those with the fewest digits, and of those the nearest one.
-/

namespace BindScript.Decimal

/-- The decimal `digits * 10 ^ exponent`. -/
structure Digits where
  digits : Nat
  exponent : Int
  deriving Inhabited

/-- Which way an exact tie between two equally short decimals goes. -/
inductive Tie
  | up
  | even
  deriving DecidableEq

/-- The digits without trailing zeros. The first argument bounds the number of zeros taken off. -/
def Digits.strip : Nat → Digits → Digits
  | 0, d => d
  | n + 1, d =>
    if d.digits ≠ 0 ∧ d.digits % 10 = 0 then Digits.strip n ⟨d.digits / 10, d.exponent + 1⟩ else d

/-- A positive value `mantissa * 2 ^ exponent` measured in units of `10 ^ unit`: the value is
`num / den` units, and a quarter of the last mantissa place is `quarter / den` quarter units. -/
structure Measured where
  num : Nat
  den : Nat
  scale : Nat

/-- Measures `mantissa * 2 ^ exponent` in units of `10 ^ unit`. -/
def measure (mantissa : Nat) (exponent unit : Int) : Measured :=
  let scale := Nat.pow 2 exponent.toNat * Nat.pow 10 (-unit).toNat
  ⟨mantissa * scale, Nat.pow 2 (-exponent).toNat * Nat.pow 10 unit.toNat, scale⟩

/-- The exponent of the leading decimal digit of a positive value: the largest `p` for which
`10 ^ p` is at most the value. The binary logarithm gives `p` or `p - 1`. -/
def leadingExponent (mantissa : Nat) (exponent : Int) : Int :=
  let guess := ((mantissa.log2 + exponent) * 30103).fdiv 100000
  let above := measure mantissa exponent (guess + 1)
  if above.den ≤ above.num then guess + 1 else guess

/-- Whether `c` units lie in the interval of reals that round to the double. The interval reaches
half a place up and half a place down, or a quarter down where the places below are finer; its ends
belong to it when the mantissa is even. -/
def roundsTo (mantissa : Nat) (finerBelow : Bool) (m : Measured) (c : Nat) : Bool :=
  let low := (4 * mantissa - if finerBelow then 1 else 2) * m.scale
  let high := (4 * mantissa + 2) * m.scale
  let here := 4 * c * m.den
  if mantissa % 2 = 0 then low ≤ here && here ≤ high else low < here && here < high

/-- Of the two neighbours `low` and `low + 1` of the value on the decimal grid, the nearer one. -/
def nearer (tie : Tie) (m : Measured) (low : Nat) : Nat :=
  match compare (2 * (m.num - low * m.den)) m.den with
  | .lt => low
  | .gt => low + 1
  | .eq => match tie with
    | .up => low + 1
    | .even => if low % 2 = 0 then low else low + 1

/-- The decimal with `count` digits, if one of the value's two neighbours on that grid rounds to the
double. -/
def onGrid? (tie : Tie) (mantissa : Nat) (exponent : Int) (finerBelow : Bool) (lead : Int)
    (count : Nat) : Option Digits :=
  let unit := lead + 1 - count
  let m := measure mantissa exponent unit
  let low := m.num / m.den
  match roundsTo mantissa finerBelow m low, roundsTo mantissa finerBelow m (low + 1) with
  | true, true => some ⟨nearer tie m low, unit⟩
  | true, false => some ⟨low, unit⟩
  | false, true => some ⟨low + 1, unit⟩
  | false, false => none

/-- Tries grids of growing digit count; seventeen digits always suffice for a double. -/
def firstGrid (tie : Tie) (mantissa : Nat) (exponent : Int) (finerBelow : Bool) (lead : Int) :
    Nat → Nat → Digits
  | 0, count => ⟨(measure mantissa exponent (lead + 1 - count)).num /
      (measure mantissa exponent (lead + 1 - count)).den, lead + 1 - count⟩
  | left + 1, count =>
    match onGrid? tie mantissa exponent finerBelow lead count with
    | some d => d
    | none => firstGrid tie mantissa exponent finerBelow lead left (count + 1)

/-- The shortest digits of the magnitude of a finite double other than zero. -/
def shortest (tie : Tie) (d : Dyadic) : Digits :=
  if d.mantissa = 0 then ⟨0, 0⟩
  else
    let finerBelow := d.mantissa == Nat.pow 2 52 && d.exponent != -1074
    let lead := leadingExponent d.mantissa d.exponent
    (firstGrid tie d.mantissa d.exponent finerBelow lead 17 1).strip 20

/-- Writes the decimal in positional notation, without an exponent. -/
def Digits.positional (d : Digits) : String :=
  let text := toString d.digits
  match d.exponent with
  | .ofNat zeros => text ++ "".pushn '0' zeros
  | .negSucc n =>
    let places := n + 1
    let padded := "".pushn '0' (places + 1 - text.length) ++ text
    let cs := padded.toList
    let whole := cs.length - places
    String.ofList (cs.take whole) ++ "." ++ String.ofList (cs.drop whole)

end BindScript.Decimal
