import BindScript.Decimal.Dyadic
import BindScript.Decimal.Literal
import BindScript.Decimal.Shortest
import BindScript.Text.Search

/-!
Numbers as the language writes and reads them. Whole numbers are written without a fraction, other
numbers with the fewest digits that read back, and never with an exponent. Reading ignores blanks
around the number, takes radix prefixes on unsigned numbers, and answers NaN for anything else.
-/

namespace BindScript.Number

open BindScript.Decimal BindScript.Text

/-- The number that is not one. -/
def nan : Float := 0.0 / 0.0

/-- Positive infinity. -/
def infinity : Float := 1.0 / 0.0

/-- Whether a number is neither NaN nor infinite. -/
def isFinite (x : Float) : Bool :=
  x.isFinite

/-- The text of a number. Exact ties between two shortest forms go up; both zeros are `0`. -/
def format (x : Float) : String :=
  if x.isNaN then "NaN"
  else
    let d := Dyadic.ofFloat x
    let sign := if d.negative then "-" else ""
    if !x.isFinite then sign ++ "Infinity"
    else if d.mantissa = 0 then "0"
    else if d.isWhole && d.wholePart < Nat.pow 10 21 then sign ++ toString d.wholePart
    else sign ++ (shortest .up d).positional

/-- The value of a digit character in a radix up to 36; letters of either case are digits from ten. -/
def digitValue? (radix : Nat) (c : Char) : Option Nat :=
  let value :=
    if c.isDigit then c.toNat - '0'.toNat
    else if c.isLower then c.toNat - 'a'.toNat + 10
    else if c.isUpper then c.toNat - 'A'.toNat + 10
    else radix
  if value < radix then some value else none

/-- Continues the number `acc` with digits of a radix, one rounded step per digit. -/
def radixDigits (radix : Nat) (acc : Float) : List Char → Option Float
  | [] => some acc
  | c :: rest => match digitValue? radix c with
    | some d => radixDigits radix (acc * Float.ofNat radix + Float.ofNat d) rest
    | none => none

/-- The number written by the digits of a radix literal, without its mark. There must be at least one
digit, and all must belong to the radix. -/
def parseRadix (radix : Nat) : List Char → Option Float
  | [] => none
  | cs => radixDigits radix 0.0 cs

/-- The radix named by the mark after a leading zero. -/
def radixMark? (c : Char) : Option Nat :=
  match c with
  | 'x' | 'X' => some 16
  | 'b' | 'B' => some 2
  | 'o' | 'O' => some 8
  | _ => none

/-- Splits a radix literal into its radix and its digits. -/
def radixLiteral? : List Char → Option (Nat × List Char)
  | '0' :: mark :: digits => (radixMark? mark).map (·, digits)
  | _ => none

/-- The number written by an unsigned numeral: `Infinity`, a radix literal or a decimal literal. The
flag tells whether a sign came before it, which radix literals do not allow. -/
def parseUnsigned (signed : Bool) (cs : List Char) : Float :=
  if cs = "Infinity".toList then infinity
  else match radixLiteral? cs with
    | some (radix, digits) => if signed then nan else (parseRadix radix digits).getD nan
    | none => if isLiteral cs then literalToFloat cs else nan

/-- The number that a text without blanks around it stands for; the empty text stands for zero. -/
def parseTrimmed : List Char → Float
  | [] => 0.0
  | '-' :: cs => -(parseUnsigned true cs)
  | '+' :: cs => parseUnsigned true cs
  | cs => parseUnsigned false cs

/-- The number that a text stands for. -/
def parse (text : String) : Float :=
  parseTrimmed (trim text.toList)

/-- The length of the longest start of the text that is a signed decimal literal or a signed
`Infinity`; zero when there is none. -/
def decimalPrefixLength (cs : List Char) : Nat :=
  let sign := match cs with
    | '+' :: _ | '-' :: _ => 1
    | _ => 0
  let body := cs.drop sign
  if "Infinity".toList.isPrefixOf body then sign + 8
  else
    let whole := body.takeWhile Char.isDigit
    let rest := body.drop whole.length
    let (point, fraction) := match rest with
      | '.' :: r => (1, r.takeWhile Char.isDigit)
      | _ => (0, [])
    if whole.isEmpty && fraction.isEmpty then 0
    else
      let mantissa := whole.length + point + fraction.length
      let exponent := match body.drop mantissa with
        | e :: r =>
          if e = 'e' || e = 'E' then
            let mark := match r with
              | '+' :: _ | '-' :: _ => 2
              | _ => 1
            let digits := ((e :: r).drop mark).takeWhile Char.isDigit
            if digits.isEmpty then 0 else mark + digits.length
          else 0
        | [] => 0
      sign + mantissa + exponent

/-- The digit character of a value below 36. -/
def digitChar (n : Nat) : Char :=
  if n < 10 then Char.ofNat ('0'.toNat + n) else Char.ofNat ('a'.toNat + (n - 10))

end BindScript.Number
