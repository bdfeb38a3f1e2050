import BindScript.JsonText.Document

/-!
The knobs that change how scripts run, and reading them from JSON text: an object with any of the
fields, or a list of their values in order. Unknown fields are passed over; a known field may be given
once.
-/

namespace BindScript

/-- How scripts run. In strict mode unknown names and reads from nothing are errors. -/
structure Options where
  maxCallDepth : Nat := 1000
  strict : Bool := false
  trace : Bool := false
  deriving DecidableEq, Repr

namespace Options

open JsonText

/-- The options as far as they have been given. -/
structure Given where
  maxCallDepth : Option Nat := none
  strict : Option Bool := none
  trace : Option Bool := none

/-- The given options, completed with the usual ones. -/
def ofGiven (g : Given) : Options :=
  let usual : Options := {}
  ⟨g.maxCallDepth.getD usual.maxCallDepth, g.strict.getD usual.strict, g.trace.getD usual.trace⟩

/-- Reads an unsigned integer of 64 bits. -/
def readSize : Read Nat := do
  match ← peekToken with
  | some c =>
    if c.isDigit then
      match ← numeral false false with
      | .whole false n => return n
      | _ => fail .invalidNumber
    else failNext .expectedValue
  | none => fail .eofInValue

/-- Reads a truth value. -/
def readBool : Read Bool := do
  match ← peekToken with
  | some 't' => advance; word ['r', 'u', 'e']; return true
  | some 'f' => advance; word ['a', 'l', 's', 'e']; return false
  | some _ => failNext .expectedValue
  | none => fail .eofInValue

/-- Refuses a field that was given before. -/
def once {α : Type} (before : Option α) (read : Read α) : Read (Option α) := do
  if before.isSome then fail .expectedObjectEnd else return some (← read)

/-- Reads the value of one field. -/
def readField (g : Given) (key : String) : Read Given := do
  if key = "maxCallDepth" then return { g with maxCallDepth := ← once g.maxCallDepth readSize }
  else if key = "strict" then return { g with strict := ← once g.strict readBool }
  else if key = "trace" then return { g with trace := ← once g.trace readBool }
  else
    let _ ← document true ((← get).rest.length + 2)
    return g

/-- Reads the fields of an object up to its end, which is not passed. -/
def readFields : Nat → Bool → Given → Read Given
  | 0, _, _ => fail .eofInObject
  | n + 1, first, g => do
    match ← nextKey? false first with
    | none => return g
    | some key =>
      colon
      readFields n false (← readField g key)

/-- Whether a list has another value, which the cursor is then at. -/
def hasNext (first : Bool) : Read Bool := do
  match ← peekToken with
  | none => fail .eofInList
  | some ']' => return false
  | some c =>
    if first then return true
    else if c = ',' then
      advance
      match ← peekToken with
      | some ']' => failNext .trailingComma
      | some _ => return true
      | none => fail .eofInValue
    else failNext .expectedListEnd

/-- Reads the values of a list: the options in order, as many as there are. -/
def readList : Read Given := do
  if !(← hasNext true) then return {}
  let depth ← readSize
  if !(← hasNext false) then return { maxCallDepth := some depth }
  let strict ← readBool
  if !(← hasNext false) then return { maxCallDepth := some depth, strict := some strict }
  let trace ← readBool
  if (← peekToken) = some ']' then return ⟨some depth, some strict, some trace⟩
  else failNext .trailingCharacters

/-- Reads options. -/
def read : Read Options := do
  match ← peekToken with
  | some '\x7b' =>
    advance
    let g ← readFields ((← get).rest.length + 1) true {}
    advance
    return ofGiven g
  | some '[' =>
    advance
    let g ← readList
    advance
    return ofGiven g
  | some _ => failNext .expectedValue
  | none => fail .eofInValue

/-- Reads options from a whole text. -/
def ofJson (text : String) : Except JsonError Options :=
  readWhole read text

end Options

end BindScript
