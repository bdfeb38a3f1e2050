/-!
The exact value of a finite double: a sign and `mantissa * 2 ^ exponent`. Everything that must be
exact (digits, remainders, whole parts) is computed on this form in `Nat` and `Int`.
-/

namespace BindScript.Decimal

/-- The number `± mantissa * 2 ^ exponent`. -/
structure Dyadic where
  negative : Bool
  mantissa : Nat
  exponent : Int

namespace Dyadic

/-- The exact value of a finite double. Infinities and NaN have no value and are not meant here. -/
def ofFloat (x : Float) : Dyadic :=
  let bits := x.toBits.toNat
  let fraction : Nat := bits % Nat.pow 2 52
  let scale : Nat := bits / Nat.pow 2 52 % Nat.pow 2 11
  let negative := bits / Nat.pow 2 63 == 1
  if scale = 0 then ⟨negative, fraction, -1074⟩
  else ⟨negative, fraction + Nat.pow 2 52, (scale : Int) - 1075⟩

/-- The double with this value. The value must be representable, which holds whenever the mantissa
stays below `2 ^ 53` and the exponent comes from doubles. -/
def toFloat (d : Dyadic) : Float :=
  let magnitude := (Float.ofNat d.mantissa).scaleB d.exponent
  if d.negative then -magnitude else magnitude

/-- The magnitude without its fractional part. -/
def wholePart (d : Dyadic) : Nat :=
  match d.exponent with
  | .ofNat up => d.mantissa * Nat.pow 2 up
  | .negSucc down => d.mantissa / Nat.pow 2 (down + 1)

/-- Whether the value has no fractional part. -/
def isWhole (d : Dyadic) : Bool :=
  match d.exponent with
  | .ofNat _ => true
  | .negSucc down => d.mantissa % Nat.pow 2 (down + 1) == 0

/-- The value rounded toward zero. -/
def toInt (d : Dyadic) : Int :=
  if d.negative then -(d.wholePart : Int) else d.wholePart

/-- The remainder of the division rounded toward zero; it takes the sign of the dividend. Both
magnitudes are brought to the smaller exponent first, so nothing is lost. -/
def rem (a b : Dyadic) : Dyadic :=
  let low := min a.exponent b.exponent
  let x := a.mantissa * Nat.pow 2 (a.exponent - low).toNat
  let y := b.mantissa * Nat.pow 2 (b.exponent - low).toNat
  ⟨a.negative, x % y, low⟩

end Dyadic

/-!
## A fixed number of places

A double written with a fixed number of decimal places. The exact value is rounded, and a value
halfway between two neighbours goes to the even one.
-/

/-- The quotient rounded to the nearest whole number, halves to the even one. -/
def divRoundEven (num den : Nat) : Nat :=
  let quotient := num / den
  match compare (2 * (num % den)) den with
  | .lt => quotient
  | .gt => quotient + 1
  | .eq => if quotient % 2 = 0 then quotient else quotient + 1

/-- The magnitude in units of the last of `places` decimal places. -/
def Dyadic.inPlaces (d : Dyadic) (places : Nat) : Nat :=
  let num := d.mantissa * Nat.pow 2 d.exponent.toNat * Nat.pow 10 places
  divRoundEven num (Nat.pow 2 (-d.exponent).toNat)

/-- Writes a finite double with exactly `places` decimal places. The sign is kept even when only
zeros remain. -/
def fixed (x : Float) (places : Nat) : String :=
  let d := Dyadic.ofFloat x
  let text := toString (d.inPlaces places)
  let padded := "".pushn '0' (places + 1 - text.length) ++ text
  let cs := padded.toList
  let whole := cs.length - places
  let sign := if d.negative then "-" else ""
  if places = 0 then sign ++ padded
  else sign ++ String.ofList (cs.take whole) ++ "." ++ String.ofList (cs.drop whole)

end BindScript.Decimal
