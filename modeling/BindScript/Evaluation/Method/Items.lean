import BindScript.Evaluation.Basic
import BindScript.Evaluation.Method.Name

/-!
The methods of arrays. A callback sees the items that the array had when the method was called, and may
write to the array.
-/

namespace BindScript.EvalM

/-- The callback among the arguments of a method. -/
def callbackOf (args : List Value) (method : String) : EvalM Value := do
  let f := Value.argument args 0
  if f.isCallable then return f
  else typeFault (.notCallback (← readHeap (·.text f)) method)

/-- Ends unless the array takes writes. -/
def checkWritable (address : Nat) : EvalM Unit := do
  if ← readHeap fun h => (h.arrayAt address).frozen then typeFault .frozenArray

/-- Ends unless the array may grow by a number of items. -/
def checkRoom (address more : Nat) : EvalM Unit := do
  ofExcept (checkArrayLength ((← readHeap fun h => (h.items address).size) + more))

/-- The number of items of an array, as a value. -/
def itemCount (address : Nat) : EvalM Value :=
  readHeap fun h => .count (h.items address).size

/-- An item as text between separators: nothing for `null` and `undefined`. -/
def joinedText (h : Heap) (v : Value) : String :=
  if v.isNullish then "" else h.text v

/-- Items as text with separators between them. -/
def joinItems (items : Array Value) (separator : String) : EvalM Value := do
  let parts ← readHeap fun h => items.toList.map (joinedText h)
  let size := parts.foldl (fun n part => n + part.utf8ByteSize) 0
  ofExcept (checkStringLength (size + separator.utf8ByteSize * (parts.length - 1)))
  return .string (separator.intercalate parts)

/-- Adds the items of arrays, and other values as they are. -/
def concatItems (start : Array Value) (args : List Value) : EvalM (Array Value) :=
  args.foldlM (fun done v => do
    match ← readHeap (·.arrayItems? v) with
    | some more =>
      ofExcept (checkArrayLength (done.size + more.size))
      return done ++ more
    | none =>
      ofExcept (checkArrayLength (done.size + 1))
      return done.push v) start

/-- The first item, with its index, for which a test holds. -/
def findItem (test : Value → Nat → EvalM Bool) : List (Value × Nat) → EvalM (Option (Value × Nat))
  | [] => return none
  | (item, i) :: rest => do
    if ← test item i then return some (item, i)
    findItem test rest

/-- Calls a method of an array. -/
def callArrayMethod (sub : Interpreter) (address : Nat) (m : ArrayMethod) (args : List Value) :
    EvalM Value := do
  let receiver := Value.array address
  let items : EvalM (List (Value × Nat)) := readHeap fun h => (h.items address).toList.zipIdx
  -- The items are listed before the first call, so what a callback does to the array does not change what is visited.
  let each (f item : Value) (i : Nat) : EvalM Value := sub.call f [item, .count i, receiver]
  let test (f item : Value) (i : Nat) : EvalM Bool := do return (← each f item i).isTruthy
  match m with
  | .push =>
    checkWritable address
    checkRoom address args.length
    modifyHeap (·.modifyItems address (· ++ args.toArray))
    itemCount address
  | .pop =>
    checkWritable address
    let last ← readHeap fun h => (h.items address).back?
    modifyHeap (·.modifyItems address Array.pop)
    return last.getD .undefined
  | .shift =>
    checkWritable address
    let first ← readHeap fun h => (h.items address)[0]?
    modifyHeap (·.modifyItems address fun items => items.extract 1 items.size)
    return first.getD .undefined
  | .unshift =>
    checkWritable address
    checkRoom address args.length
    modifyHeap (·.modifyItems address (args.toArray ++ ·))
    itemCount address
  | .reverse =>
    checkWritable address
    modifyHeap (·.modifyItems address Array.reverse)
    return receiver
  | .map =>
    let f ← callbackOf args "map"
    let values ← (← items).mapM fun (item, i) => each f item i
    allocate (·.newArray values.toArray)
  | .filter =>
    let f ← callbackOf args "filter"
    let kept ← (← items).filterM fun (item, i) => test f item i
    allocate (·.newArray (kept.map (fun entry => entry.1)).toArray)
  | .find =>
    let f ← callbackOf args "find"
    return ((← findItem (test f) (← items)).map (fun entry => entry.1)).getD .undefined
  | .findIndex =>
    let f ← callbackOf args "findIndex"
    return .index ((← findItem (test f) (← items)).map (fun entry => entry.2))
  | .some =>
    let f ← callbackOf args "some"
    return .bool (← findItem (test f) (← items)).isSome
  | .every =>
    let f ← callbackOf args "every"
    return .bool (← findItem (fun item i => do return !(← test f item i)) (← items)).isNone
  | .forEach =>
    let f ← callbackOf args "forEach"
    (← items).forM fun (item, i) => discard (each f item i)
    return .undefined
  | .reduce =>
    let f ← callbackOf args "reduce"
    let step (done : Value) (entry : Value × Nat) : EvalM Value :=
      sub.call f [done, entry.1, .count entry.2, receiver]
    -- Without a start the first item is one, and there has to be one.
    match args[1]?, ← items with
    | some start, all => all.foldlM step start
    | none, (first, _) :: rest => rest.foldlM step first
    | none, [] => typeFault .emptyReduce
  | .includes =>
    let needle := Value.argument args 0
    readHeap fun h => .bool ((h.items address).any (·.sameValueZero needle))
  | .indexOf =>
    let needle := Value.argument args 0
    readHeap fun h => .index ((h.items address).findIdx? (·.strictEquals needle))
  | .join =>
    let separator ← readHeap fun h => match args with
      | [] | .undefined :: _ => ","
      | v :: _ => h.text v
    joinItems (← readHeap (·.items address)) separator
  | .toString => joinItems (← readHeap (·.items address)) ","
  | .slice =>
    let part ← readHeap fun h =>
      let items := h.items address
      items.extract (h.positionOf (Value.argument args 0) items.size 0)
        (h.positionOf (Value.argument args 1) items.size items.size)
    allocate (·.newArray part)
  | .concat =>
    let all ← concatItems (← readHeap (·.items address)) args
    allocate (·.newArray all)

end BindScript.EvalM
