/-!
Decimal literals: digits with an optional point and an optional exponent. `isLiteral` is the grammar,
`toFloat` the nearest double of a literal's value.
-/

namespace BindScript.Decimal

/-- What has been read of a decimal literal so far. -/
structure LiteralState where
  seenDigit : Bool := false
  seenPoint : Bool := false
  seenExponent : Bool := false
  last : Char := ' '

/-- Reads one more character, if the literal may continue with it. -/
def LiteralState.next? (s : LiteralState) (c : Char) : Option LiteralState :=
  if c.isDigit then some { s with seenDigit := true, last := c }
  else if c = '.' then
    if s.seenPoint || s.seenExponent then none else some { s with seenPoint := true, last := c }
  else if c = 'e' || c = 'E' then
    if s.seenDigit && !s.seenExponent then some { s with seenExponent := true, last := c } else none
  else if c = '+' || c = '-' then
    if s.last = 'e' || s.last = 'E' then some { s with last := c } else none
  else none

/-- Whether the literal may end here: it has a digit and no open exponent. -/
def LiteralState.mayEnd (s : LiteralState) : Bool :=
  s.seenDigit && !(s.last = 'e' || s.last = 'E' || s.last = '+' || s.last = '-')

/-- Whether `cs` completes a decimal literal of which `s` has been read. -/
def completesLiteral (s : LiteralState) : List Char → Bool
  | [] => s.mayEnd
  | c :: rest => match s.next? c with
    | some s' => completesLiteral s' rest
    | none => false

/-- Whether `cs` is an unsigned decimal literal such as `12`, `.5`, `5.` or `1.5e-3`. -/
def isLiteral (cs : List Char) : Bool :=
  completesLiteral {} cs

/-- The number written by decimal digits, continuing from `start`. -/
def natOfDigits (start : Nat) (cs : List Char) : Nat :=
  cs.foldl (fun n c => n * 10 + (c.toNat - '0'.toNat)) start

/-- The double nearest to `digits * 10 ^ exponent`. Values far outside the range of doubles are
decided by their number of digits, so no huge power is computed. -/
def nearestFloat (digits : Nat) (exponent : Int) : Float :=
  if digits = 0 then 0.0
  else
    let size : Int := (digits.log2 + 1) * 30103 / 100000 + exponent
    if size > 400 then 1.0 / 0.0
    else if size < -400 then 0.0
    else match exponent with
      | .ofNat e => Float.ofScientific digits false e
      | .negSucc e => Float.ofScientific digits true (e + 1)

/-- The double nearest to the value of an unsigned decimal literal. -/
def literalToFloat (cs : List Char) : Float :=
  let whole := cs.takeWhile Char.isDigit
  let rest := cs.dropWhile Char.isDigit
  let (fraction, rest) := match rest with
    | '.' :: r => (r.takeWhile Char.isDigit, r.dropWhile Char.isDigit)
    | r => ([], r)
  let exponent : Int := match rest with
    | _ :: '-' :: ds => -(natOfDigits 0 ds : Int)
    | _ :: '+' :: ds => natOfDigits 0 ds
    | _ :: ds => natOfDigits 0 ds
    | [] => 0
  nearestFloat (natOfDigits (natOfDigits 0 whole) fraction) (exponent - fraction.length)

end BindScript.Decimal
