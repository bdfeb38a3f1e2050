import BindScript.EvalError
import BindScript.Value.Property

/-!
Binary operators on values. `+` joins strings once a side is a string, a container or a function, and
adds numbers otherwise. Comparisons order two strings by their code units of 16 bits, and everything
else as numbers, where NaN is in no order. The short-circuiting operators pick one of their operands.
-/

namespace BindScript

/-- Fails when a string of that many bytes is too long. -/
def checkStringLength (bytes : Nat) : Except EvalError Unit :=
  if maxStringLength < bytes then .error (.range .stringLength) else .ok ()

/-- Fails when an array of that many items is too long. -/
def checkArrayLength (items : Nat) : Except EvalError Unit :=
  if maxArrayLength < items then .error (.range .arrayLength) else .ok ()

/-- The code units of 16 bits of a character. -/
def utf16Units (c : Char) : List Nat :=
  let n := c.toNat
  if n < 0x10000 then [n] else [0xd800 + (n - 0x10000) / 0x400, 0xdc00 + (n - 0x10000) % 0x400]

/-- The order of two strings by their code units of 16 bits. -/
def compareUtf16 (s t : String) : Ordering :=
  compareLex (s.toList.flatMap utf16Units) (t.toList.flatMap utf16Units)
where
  /-- Lexicographic order. -/
  compareLex : List Nat → List Nat → Ordering
    | [], [] => .eq
    | [], _ => .lt
    | _, [] => .gt
    | a :: s, b :: t => if a < b then .lt else if b < a then .gt else compareLex s t

/-- The order of two numbers; none next to NaN. -/
def compareNumbers (x y : Float) : Option Ordering :=
  if x < y then some .lt else if x == y then some .eq else if y < x then some .gt else none

/-- Whether `+` joins the value as a string. -/
def Value.concatenates : Value → Bool
  | .string _ => true
  | v => v.isContainer || v.isCallable

namespace Heap

/-- A value that `+` joins as a string, as a string; other values as they are. -/
def toPrimitive (h : Heap) (v : Value) : Value :=
  if v.concatenates then .string (h.text v) else v

/-- The order of two values; none next to NaN. -/
def compare (h : Heap) (a b : Value) : Option Ordering :=
  match h.toPrimitive a, h.toPrimitive b with
  | .string s, .string t => some (compareUtf16 s t)
  | a, b => compareNumbers (h.toNumber a) (h.toNumber b)

/-- The sum of two numbers, or two strings joined. -/
def add (h : Heap) (a b : Value) : Except EvalError Value :=
  if a.concatenates || b.concatenates then do
    let s := h.text a
    let t := h.text b
    checkStringLength (s.utf8ByteSize + t.utf8ByteSize)
    return .string (s ++ t)
  else return .number (h.toNumber a + h.toNumber b)

/-- A signed integer of 32 bits as a value. -/
def int32 (n : Int32) : Value :=
  .number (Number.ofInt32 n)

/-- Whether a container has the key that the left operand denotes. -/
def isIn (h : Heap) (a b : Value) : Except EvalError Value :=
  if b.isContainer then return .bool (h.has b (h.text a))
  else throw (.type (.searchInPrimitive (h.text a) (h.text b)))

/-- How far a shift goes. -/
def shiftDistance (h : Heap) (v : Value) : UInt32 :=
  h.toUInt32 v % 32

/-- Applies a binary operator to two values. -/
def applyBinary (h : Heap) (op : BinaryOp) (a b : Value) : Except EvalError Value :=
  let arithmetic (f : Float → Float → Float) := Value.number (f (h.toNumber a) (h.toNumber b))
  let bitwise (f : Int32 → Int32 → Int32) := int32 (f (h.toInt32 a) (h.toInt32 b))
  let ordered (f : Ordering → Bool) := Value.bool ((h.compare a b).any f)
  match op with
  | .add => h.add a b
  | .sub => return arithmetic (· - ·)
  | .mul => return arithmetic (· * ·)
  | .div => return arithmetic (· / ·)
  | .rem => return arithmetic Number.remainder
  | .exp => return arithmetic Number.power
  | .eq => return .bool (h.looseEquals a b)
  | .notEq => return .bool !(h.looseEquals a b)
  | .strictEq => return .bool (a.strictEquals b)
  | .strictNotEq => return .bool !(a.strictEquals b)
  | .lt => return ordered (·.isLT)
  | .ltEq => return ordered (·.isLE)
  | .gt => return ordered (·.isGT)
  | .gtEq => return ordered (·.isGE)
  | .bitAnd => return bitwise (· &&& ·)
  | .bitOr => return bitwise (· ||| ·)
  | .bitXor => return bitwise (· ^^^ ·)
  | .shl => return int32 (h.toInt32 a <<< (h.shiftDistance b).toInt32)
  | .shr => return int32 (h.toInt32 a >>> (h.shiftDistance b).toInt32)
  | .ushr => return .number (Float.ofNat (h.toUInt32 a >>> h.shiftDistance b).toNat)
  | .isIn => h.isIn a b
  | .and => return if a.isTruthy then b else a
  | .or => return if a.isTruthy then a else b
  | .nullish => return if a.isNullish then b else a

end Heap

end BindScript
