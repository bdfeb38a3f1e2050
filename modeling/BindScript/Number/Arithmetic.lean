import BindScript.Decimal.Dyadic
import BindScript.Number.Text

/-!
Arithmetic on numbers beyond what the hardware type offers directly: exact remainders, truncation,
rounding of halves upward, conversion to 32-bit integers, and text in other radices.
-/

namespace BindScript.Number

open BindScript.Decimal

/-- The number without its fractional part; the sign of zero is kept. -/
def truncate (x : Float) : Float :=
  if x.isFinite then
    let d := Dyadic.ofFloat x
    let whole := Float.ofNat d.wholePart
    if d.negative then -whole else whole
  else x

/-- The fractional part, with the sign of the number. -/
def fraction (x : Float) : Float :=
  x - truncate x

/-- The remainder of the division rounded toward zero, computed exactly. -/
def remainder (x y : Float) : Float :=
  if x.isNaN || y.isNaN || !x.isFinite || y == 0.0 then nan
  else if !y.isFinite then x
  else (Dyadic.rem (.ofFloat x) (.ofFloat y)).toFloat

/-- Raises to a power. An exponent that is NaN gives NaN, also for the base one. -/
def power (base exponent : Float) : Float :=
  if exponent.isNaN then nan else base.pow exponent

/-- The whole part as an integer; zero for NaN and the infinities. -/
def toInt (x : Float) : Int :=
  if x.isFinite then (Dyadic.ofFloat x).toInt else 0

/-- The whole part modulo `2 ^ 32`. -/
def toUInt32 (x : Float) : UInt32 :=
  UInt32.ofNat ((toInt x) % Int.pow 2 32).toNat

/-- The whole part modulo `2 ^ 32`, read as a signed integer. -/
def toInt32 (x : Float) : Int32 :=
  (toUInt32 x).toInt32

/-- A signed 32-bit integer as a number. -/
def ofInt32 (n : Int32) : Float :=
  Float.ofInt n.toInt

/-- The whole part as a natural number of 64 bits: negative numbers and NaN give zero, numbers that
are too large give the largest. -/
def toSize (x : Float) : Nat :=
  if x.isNaN then 0
  else if x.isFinite then min (toInt x).toNat (Nat.pow 2 64 - 1)
  else if x > 0.0 then Nat.pow 2 64 - 1 else 0

/-- Rounds to the nearest whole number, halves toward positive infinity. -/
def round (x : Float) : Float :=
  (x + 0.5).floor

/-- The sign as a number; zeros and NaN are their own sign. -/
def sign (x : Float) : Float :=
  if x.isNaN || x == 0.0 then x else if x > 0.0 then 1.0 else -1.0

/-- The smaller of two numbers; of two equal ones, which may be zeros of different sign, the second. -/
def smaller (x y : Float) : Float :=
  if x < y then x else y

/-- The larger of two numbers; of two equal ones, which may be zeros of different sign, the second. -/
def larger (x y : Float) : Float :=
  if y < x then x else y

/-- The digits of a whole number in a radix, least significant first. The first argument bounds their
number. -/
def wholeDigits (radix : Float) : Nat → Float → List Char
  | 0, _ => []
  | n + 1, x =>
    let digit := digitChar (toSize (remainder x radix))
    let next := truncate (x / radix)
    if next == 0.0 then [digit] else digit :: wholeDigits radix n next

/-- Up to the given number of digits of a fraction in a radix. -/
def fractionDigits (radix : Float) : Nat → Float → List Char
  | 0, _ => []
  | n + 1, x =>
    let scaled := x * radix
    let digit := digitChar (toSize scaled)
    let next := fraction scaled
    if next == 0.0 then [digit] else digit :: fractionDigits radix n next

/-- The text of a number in a radix from 2 to 36, with up to twenty fractional digits. -/
def formatRadix (x : Float) (radix : Nat) : String :=
  if radix = 10 || !x.isFinite then format x
  else
    let r := Float.ofNat radix
    let magnitude := x.abs
    let whole := (wholeDigits r 1100 (truncate magnitude)).reverse
    let rest := fraction magnitude
    let tail := if rest > 0.0 then '.' :: fractionDigits r 20 rest else []
    (if x < 0.0 then "-" else "") ++ String.ofList (whole ++ tail)

end BindScript.Number
