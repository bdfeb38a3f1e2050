import BindScript.Evaluation.Basic
import BindScript.Text.Search
import BindScript.Heap
import BindScript.Value.Json

/-!
What native functions compute. Missing arguments are `undefined`. A native function that fails gives a
type fault.
-/

namespace BindScript

open EvalM

namespace NativeFn

/-- Combines all arguments as numbers; NaN among them makes the result NaN. -/
def combineNumbers (h : Heap) (start : Float) (combine : Float → Float → Float) (args : List Value) :
    Float :=
  let numbers := args.map h.toNumber
  if numbers.any Float.isNaN then Number.nan else numbers.foldl combine start

/-- The width of an indentation; anything but a number from one on means none. -/
def indentOf : Value → Option Nat
  | .number x => if 1.0 ≤ x then some (Number.toSize x) else none
  | _ => none

/-- The radix that an argument asks for; zero stands for ten. -/
def radixOf (h : Heap) (v : Value) : Nat :=
  if v.isUndefined then 10
  else
    let radix := (h.toUInt32 v).toNat
    if radix = 0 then 10 else radix

/-- Digits without a hexadecimal mark; none when there is no mark. -/
def afterHexMark? : List Char → Option (List Char)
  | '0' :: 'x' :: digits | '0' :: 'X' :: digits => some digits
  | _ => none

/-- The integer at the start of a text. -/
def integerPrefix (h : Heap) (text : String) (radixArg : Value) : Float :=
  let (negative, digits) := match Text.trim text.toList with
    | '-' :: rest => (true, rest)
    | '+' :: rest => (false, rest)
    | rest => (false, rest)
  let radix := radixOf h radixArg
  if radix < 2 || 36 < radix then Number.nan
  else
    let marked := if radix = 16 || radixArg.isNullish then afterHexMark? digits else none
    let (radix, digits) := match marked with
      | some hex => (16, hex)
      | none => (radix, digits)
    let value := (Number.parseRadix radix
      (digits.takeWhile fun c => (Number.digitValue? radix c).isSome)).getD Number.nan
    if negative then -value else value

/-- The number at the start of a text. -/
def numberPrefix (text : String) : Float :=
  let cs := Text.trimLeft text.toList
  match Number.decimalPrefixLength cs with
  | 0 => Number.nan
  | n => Number.parse (String.ofList (cs.take n))

/-- A value as the console shows it. -/
def consoleText (h : Heap) : Value → String
  | .string s => s
  | .number x => Number.format x
  | v => h.debugText v

/-- Copies the entries of a source into an object. -/
def copyEntries (target : Value) (entries : List (String × Value)) : EvalM Unit :=
  entries.forM fun (key, value) => do
    if ← readHeap (·.canSet target key value) then modifyHeap (·.set target key value)
    else typeFault (.readOnlyProperty key)

/-- Copies sources into an object, one after another. -/
def assignAll (target : Value) (sources : List Value) : EvalM Value := do
  match target with
  | .object _ =>
    sources.forM fun source => do copyEntries target (← readHeap (·.entries source))
    return target
  | _ => typeFault .assignTarget

end NativeFn

/-! ## Functions of the host -/

/-- What a host gets to see of a value. -/
def Heap.hostView (h : Heap) (v : Value) : HostView where
  typeOf := v.typeOf
  literal? := v.literal?
  isArray := v.isArray
  isFrozen := h.isFrozen v
  keys := h.keys v
  text := h.text v

/-- What the functions of the host have noted down. -/
def EvalM.readNotes : EvalM (List String) :=
  fun s => .ok s.notes s

/-- Writes a property if the container takes it, and tells whether it did. A write that clashes is not
made either. -/
def EvalM.writeIfTaken (target : Value) (key : String) (value : Value) : EvalM Bool := do
  if ← readHeap fun h => h.canSet target key value && !h.clashes target key value then
    modifyHeap (·.set target key value)
    return true
  else return false

/-- Runs a program of the host with the values that it holds. -/
def HostProgram.run : HostProgram → List Value → EvalM Value
  | answer i, held => return Value.argument held i
  | fail text, _ => EvalM.typeFault (.hostFailure text)
  | look i next, held => do (next (← EvalM.readHeap (·.hostView (Value.argument held i)))).run held
  | same i j next, held => (next ((Value.argument held i).strictEquals (Value.argument held j))).run held
  | hold literal next, held => next.run (held ++ [.ofLiteral literal])
  | get i key next, held => do
    next.run (held ++ [← EvalM.readHeap (·.get (Value.argument held i) key)])
  | newArray items next, held => do
    next.run (held ++ [← EvalM.allocate (·.newArray (items.map (Value.argument held)).toArray)])
  | newObject entries next, held => do
    let entries := Entries.insertAll [] (entries.map fun entry => (entry.1, Value.argument held entry.2))
    next.run (held ++ [← EvalM.allocate (·.newObject entries)])
  | set i key j next, held => do
    (next (← EvalM.writeIfTaken (Value.argument held i) key (Value.argument held j))).run held
  | freeze i next, held => do
    EvalM.modifyHeap (·.freeze (Value.argument held i))
    next.run held
  | interrupt next, held => do
    modify fun s => { s with interrupted := true }
    next.run held
  | note text next, held => do
    modify fun s => { s with notes := text :: s.notes }
    next.run held
  | readNotes next, held => do (next (← EvalM.readNotes)).run held

namespace NativeFn

/-- Calls a native function. -/
def invoke (f : NativeFn) (given : List Value) : EvalM Value := do
  let first := Value.argument given 0
  let ofNumber (compute : Float → Float) : EvalM Value :=
    readHeap fun h => .number (compute (h.toNumber first))
  match f with
  | abs => ofNumber Float.abs
  | ceil => ofNumber Float.ceil
  | floor => ofNumber Float.floor
  | round => ofNumber Number.round
  | sqrt => ofNumber Float.sqrt
  | sign => ofNumber Number.sign
  | trunc => ofNumber Number.truncate
  | pow => readHeap fun h => .number ((h.toNumber first).pow (h.toNumber (Value.argument given 1)))
  | min => readHeap fun h => .number (combineNumbers h Number.infinity Number.smaller given)
  | max => readHeap fun h => .number (combineNumbers h (-Number.infinity) Number.larger given)
  | stringify =>
    match ← readHeap (·.json first (indentOf (Value.argument given 2))) with
    | .text text => return .string text
    | .omitted => return .undefined
    | .tooDeep => typeFault .jsonTooDeep
  | parse =>
    match JsonText.parse (← readHeap (·.text first)) with
    | .ok document => allocate (·.ofDocument document)
    | .error e => typeFault (.jsonText e)
  | keys =>
    let keys ← readHeap (·.keys first)
    allocate (·.newArray (keys.map Value.string).toArray)
  | values =>
    let entries ← readHeap (·.entries first)
    allocate (·.newArray (entries.map (fun entry => entry.2)).toArray)
  | entries =>
    let entries ← readHeap (·.entries first)
    let pairs ← entries.mapM fun (key, value) => allocate (·.newArray #[.string key, value])
    allocate (·.newArray pairs.toArray)
  | assign => assignAll first (given.drop 1)
  | freeze =>
    modifyHeap (·.freeze first)
    return first
  | isFrozen => return .bool (← readHeap (·.isFrozen first))
  | isArray => return .bool first.isArray
  -- no argument is not the same as `undefined` here
  | number =>
    match given with
    | [] => return .number 0.0
    | v :: _ => readHeap fun h => .number (h.toNumber v)
  | string =>
    match given with
    | [] => return .string ""
    | v :: _ => readHeap fun h => .string (h.text v)
  | boolean => return .bool first.isTruthy
  | parseInt => readHeap fun h => .number (integerPrefix h (h.text first) (Value.argument given 1))
  | parseFloat => readHeap fun h => .number (numberPrefix (h.text first))
  | isNaN => readHeap fun h => .bool (h.toNumber first).isNaN
  | log =>
    let line ← readHeap fun h => " ".intercalate (given.map (consoleText h))
    modify fun s => { s with console := s.console.push line }
    return .undefined
  | host fn => (fn.body given.length).run given

end NativeFn

end BindScript
