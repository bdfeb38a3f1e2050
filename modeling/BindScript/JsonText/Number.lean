import BindScript.Number.Text

/-!
Numbers in JSON text. Whole numbers that a double holds exactly are written as integers. Others are
written with the fewest digits that read back, ties to the even digit: plainly for decimal exponents
from -5 to 15, else with an exponent that has an explicit sign.

Reading works digit by digit on a 64-bit significand and scales it by one power of ten at the end, so
a long numeral may come out a last place away from the nearest double.
-/

namespace BindScript.JsonText

open BindScript.Decimal

/-- The digits with a point after the first one, if there are several. -/
def pointed (digits : String) : String :=
  match digits.toList with
  | d :: e :: rest => String.ofList (d :: '.' :: e :: rest)
  | ds => String.ofList ds

/-- A finite number that is not written as an integer. -/
def writeFraction (x : Float) : String :=
  let d := Dyadic.ofFloat x
  let s := shortest .even d
  let digits := toString s.digits
  let lead : Int := digits.length + s.exponent - 1
  let sign := if d.negative then "-" else ""
  if -5 ≤ lead && lead ≤ 15 then
    sign ++ s.positional ++ (if 0 ≤ s.exponent then ".0" else "")
  else sign ++ pointed digits ++ "e" ++ (if lead < 0 then "-" else "+") ++ toString lead.natAbs

/-- A number as JSON text; `null` when it is not finite. -/
def writeNumber (x : Float) : String :=
  if !x.isFinite then "null"
  else
    let d := Dyadic.ofFloat x
    if d.isWhole && d.wholePart ≤ Nat.pow 2 53 - 1 then toString d.toInt else writeFraction x

/-- The largest significand that a reader keeps. -/
def maxSignificand : Nat := Nat.pow 2 64 - 1

/-- Takes digits into the significand while it stays within bounds. Gives the significand, how many
digits were taken and whether some were left. -/
def takeDigits (significand taken : Nat) : List Char → Nat × Nat × Bool
  | [] => (significand, taken, false)
  | c :: rest =>
    let next := significand * 10 + (c.toNat - '0'.toNat)
    if next ≤ maxSignificand then takeDigits next (taken + 1) rest else (significand, taken, true)

/-- The power of ten with the given exponent, at most 308. -/
def powerOfTen (e : Nat) : Float :=
  nearestFloat 1 e

/-- Scales by a power of ten; none when the result is too large. Exponents below -308 are taken in
several steps, of which the first argument bounds the number. -/
def scale : Nat → Float → Int → Option Float
  | 0, _, _ => some 0.0
  | n + 1, x, e =>
    if e.natAbs ≤ 308 then
      if 0 ≤ e then
        let y := x * powerOfTen e.natAbs
        if y.isFinite then some y else none
      else some (x / powerOfTen e.natAbs)
    else if x == 0.0 then some x
    else if 0 ≤ e then none
    else scale n (x / powerOfTen 308) (e + 308)

end BindScript.JsonText
