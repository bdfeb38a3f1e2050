import BindScript.Heap
import BindScript.Number.Text
import BindScript.Text.Printable
import BindScript.Number.Arithmetic

/-!
Conversions of values to numbers, and the three equalities.

`strictEquals` never converts: containers and functions are equal when they are the same one.
`looseEquals` converts booleans to numbers, containers next to a primitive to strings, and strings next
to a number to numbers, while `null` and `undefined` equal only each other. `sameValueZero` is strict
equality under which NaN equals itself.
-/

/-!
## Values as text

Values as text. `Heap.text` is the language's own conversion to strings: arrays join their items with
commas, and missing items are empty. `Heap.debugText` shows the structure of a value, with strings
quoted. Containers may be cyclic, so both stop below a fixed number of containers.
-/

namespace BindScript.Heap

/-- How many containers inside one another are written. -/
def maxTextDepth : Nat := 16

/-- The text of a value without its items: arrays give nothing. -/
def shallowText (h : Heap) : Value → String
  | .undefined => "undefined"
  | .null => "null"
  | .bool b => if b then "true" else "false"
  | .number x => Number.format x
  | .string s => s
  | .array _ => ""
  | .object _ => "[object Object]"
  | .closure c => "function " ++ (h.closureAt c).name?.getD "" ++ "() \x7b [code] \x7d"
  | .native f _ => "function " ++ f.name ++ "() \x7b [native code] \x7d"

/-- The text of a value with items down to a depth. -/
def textTo (h : Heap) : Nat → Value → String
  | depth + 1, .array a =>
    ",".intercalate ((h.items a).toList.map fun v => if v.isNullish then "" else h.textTo depth v)
  | _, v => h.shallowText v

/-- A value as a string. -/
def text (h : Heap) (v : Value) : String :=
  h.textTo maxTextDepth v

/-- Whether the text of a value with items down to a depth takes in the items of an array. -/
def textReads (h : Heap) (a : Nat) : Nat → Value → Bool
  | depth + 1, .array b => b == a || (h.items b).toList.any (h.textReads a depth)
  | _, _ => false

/-- The structure of a value down to a depth. -/
def debugTextTo (h : Heap) : Nat → Value → String
  | 0, .array _ => "[...]"
  | 0, .object _ => "\x7b...\x7d"
  | depth + 1, .array a =>
    "[" ++ ", ".intercalate ((h.items a).toList.map (h.debugTextTo depth)) ++ "]"
  | depth + 1, .object o =>
    let properties := h.properties o
    if properties.isEmpty then "\x7b\x7d"
    else
      "\x7b " ++ ", ".intercalate (properties.map fun entry =>
        entry.1 ++ ": " ++ h.debugTextTo depth entry.2) ++ " \x7d"
  | _, .string s => Text.quoted s
  | _, .closure c => "<fn " ++ (h.closureAt c).displayName ++ ">"
  | _, .native f _ => "<builtin " ++ f.name ++ ">"
  | _, v => h.shallowText v

/-- The structure of a value, as diagnostics and the console show it. -/
def debugText (h : Heap) (v : Value) : String :=
  h.debugTextTo maxTextDepth v

end BindScript.Heap

/-! ## Numbers and equalities -/

namespace BindScript

namespace Heap

/-- A value as a number. -/
def toNumber (h : Heap) : Value → Float
  | .undefined | .closure _ | .native .. => Number.nan
  | .null => 0.0
  | .bool b => if b then 1.0 else 0.0
  | .number x => x
  | .string s => Number.parse s
  | .array a => Number.parse (h.text (.array a))
  | .object o => Number.parse (h.text (.object o))

/-- A value as a signed integer of 32 bits. -/
def toInt32 (h : Heap) (v : Value) : Int32 :=
  Number.toInt32 (h.toNumber v)

/-- A value as an unsigned integer of 32 bits. -/
def toUInt32 (h : Heap) (v : Value) : UInt32 :=
  Number.toUInt32 (h.toNumber v)

end Heap

namespace Value

/-- Equality without conversion. -/
def strictEquals : Value → Value → Bool
  | undefined, undefined => true
  | null, null => true
  | bool a, bool b => a == b
  | number x, number y => x == y
  | string s, string t => s == t
  | array a, array b => a == b
  | object a, object b => a == b
  | closure a, closure b => a == b
  | native _ a, native _ b => a == b
  | _, _ => false

/-- Strict equality under which NaN equals itself. -/
def sameValueZero (a b : Value) : Bool :=
  match a, b with
  | number x, number y => (x.isNaN && y.isNaN) || x == y
  | a, b => a.strictEquals b

/-- Booleans as numbers; other values as they are. -/
def unboxBool : Value → Value
  | bool b => number (if b then 1.0 else 0.0)
  | v => v

/-- Numbers and strings. -/
def isText : Value → Bool
  | number _ | string _ => true
  | _ => false

end Value

namespace Heap

/-- A container that is compared with a number or a string, as a string; other values as they are. -/
def comparable (h : Heap) (v other : Value) : Value :=
  if v.isContainer && other.isText then .string (h.text v) else v

/-- Equality with conversion. -/
def looseEquals (h : Heap) (a b : Value) : Bool :=
  if a.isNullish || b.isNullish then a.isNullish && b.isNullish
  else
    let a := a.unboxBool
    let b := b.unboxBool
    match h.comparable a b, h.comparable b a with
    | .number x, .string s => x == Number.parse s
    | .string s, .number x => Number.parse s == x
    | a, b => a.strictEquals b

end Heap

end BindScript
