import BindScript.Value.Convert

/-!
The built-in methods of arrays, strings, numbers and objects, by name. They belong to call sites: reading
`list.map` without calling it gives `undefined`.
-/

namespace BindScript

/-- Methods of arrays. -/
inductive ArrayMethod
  | push
  | pop
  | shift
  | unshift
  | map
  | filter
  | find
  | findIndex
  | some
  | every
  | reduce
  | forEach
  | includes
  | indexOf
  | join
  | slice
  | concat
  | reverse
  | toString
  deriving DecidableEq, Repr

/-- Methods of strings. -/
inductive StringMethod
  | toUpperCase
  | toLowerCase
  | trim
  | trimStart
  | trimEnd
  | includes
  | startsWith
  | endsWith
  | indexOf
  | slice
  | substring
  | split
  | replace
  | replaceAll
  | padStart
  | padEnd
  | charAt
  | repeat
  | toString
  deriving DecidableEq, Repr

/-- Methods of numbers. -/
inductive NumberMethod
  | toFixed
  | toString
  deriving DecidableEq, Repr

/-- A built-in method. -/
inductive Method
  | array (method : ArrayMethod)
  | string (method : StringMethod)
  | number (method : NumberMethod)
  /-- Of arrays and objects. -/
  | hasOwnProperty
  deriving DecidableEq, Repr

/-- The methods of arrays by name. -/
def ArrayMethod.named : List (String × ArrayMethod) :=
  [("push", push), ("pop", pop), ("shift", shift), ("unshift", unshift), ("map", map),
    ("filter", filter), ("find", find), ("findIndex", findIndex), ("some", some), ("every", every),
    ("reduce", reduce), ("forEach", forEach), ("includes", includes), ("indexOf", indexOf),
    ("join", join), ("slice", slice), ("concat", concat), ("reverse", reverse),
    ("toString", toString)]

/-- The methods of strings by name. -/
def StringMethod.named : List (String × StringMethod) :=
  [("toUpperCase", toUpperCase), ("toLowerCase", toLowerCase), ("trim", trim),
    ("trimStart", trimStart), ("trimEnd", trimEnd), ("includes", includes),
    ("startsWith", startsWith), ("endsWith", endsWith), ("indexOf", indexOf), ("slice", slice),
    ("substring", substring), ("split", split), ("replace", replace), ("replaceAll", replaceAll),
    ("padStart", padStart), ("padEnd", padEnd), ("charAt", charAt), ("repeat", «repeat»),
    ("toString", toString)]

/-- The methods of numbers by name. -/
def NumberMethod.named : List (String × NumberMethod) :=
  [("toFixed", toFixed), ("toString", toString)]

/-- The method of a value that a name means. -/
def Method.find? (receiver : Value) (name : String) : Option Method :=
  match receiver with
  | .array _ =>
    if name = "hasOwnProperty" then some hasOwnProperty
    else (ArrayMethod.named.lookup name).map array
  | .string _ => (StringMethod.named.lookup name).map string
  | .number _ => (NumberMethod.named.lookup name).map number
  | .object _ => if name = "hasOwnProperty" then some hasOwnProperty else none
  | _ => none

/-!
## Positions

Positions in arrays and strings, as arguments ask for them and as searches answer.
-/

/-- A position counted from the start, or from the end when it is negative, cut to the length. -/
def relativeIndex (x : Float) (length : Nat) : Nat :=
  let n := if x.isNaN then 0.0 else Number.truncate x
  if n < 0.0 then
    let shifted := Float.ofNat length + n
    if shifted < 0.0 then 0 else Number.toSize shifted
  else min (Number.toSize n) length

/-- The position that an argument asks for; without one, the usual one. -/
def Heap.positionOf (h : Heap) (v : Value) (length usual : Nat) : Nat :=
  if v.isUndefined then usual else relativeIndex (h.toNumber v) length

/-- An index, or -1 when there is none. -/
def Value.index : Option Nat → Value
  | some i => count i
  | none => number (-1.0)

end BindScript
