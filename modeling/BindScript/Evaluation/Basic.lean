import BindScript.Options
import BindScript.Value.Operation

/-!
What an evaluation works with: a context that does not change, and a state of scopes, heap, interrupt
flag and console. Names are looked up in the scopes first, then in the local context, the app context and
the globals; a name that is bound nowhere is written to the local context.

The step functions of the other modules are given an `Interpreter`, which evaluates the parts of what they
evaluate. `Evaluation` ties the knot.
-/

namespace BindScript

/-- What is the same for a whole evaluation. -/
structure Context where
  /-- Names of the place the code runs at. Names that are bound nowhere are written here. -/
  locals : Value
  /-- Names of the application. -/
  app : Value
  options : Options := {}
  /-- Built-in names, hidden by all others. -/
  globals : Entries Value := []

/-- What an evaluation changes. -/
structure State where
  env : Environment := {}
  heap : Heap := {}
  /-- Once raised, the evaluation stops before its next step. -/
  interrupted : Bool := false
  /-- The messages logged so far. -/
  console : Array String := #[]
  /-- What the functions of the host have noted down. -/
  notes : List String := []

/-- A step of an evaluation: it changes the state and gives a value, or ends without one. -/
abbrev EvalM := EStateM Exit State

/-- Evaluates the parts of larger constructs. -/
structure Interpreter where
  /-- How many turns a loop may take. -/
  turns : Nat
  expr : Expr → EvalM Value
  /-- A link of a chain; none when an optional link before it met nothing. -/
  chain : Expr → EvalM (Option Value)
  stmt : Stmt → EvalM Value
  call : Value → List Value → EvalM Value

/-- The value of a name that scopes do not bind. -/
def Context.lookup (ctx : Context) (h : Heap) (name : String) : Option Value :=
  if h.has ctx.locals name then some (h.get ctx.locals name)
  else if h.has ctx.app name then some (h.get ctx.app name)
  else ctx.globals.get? name

namespace EvalM

variable {α : Type}

/-- Ends with a failure. -/
def fail (e : EvalError) : EvalM α :=
  throw (.error e)

/-- Ends with a type fault. -/
def typeFault (fault : TypeFault) : EvalM α :=
  fail (.type fault)

/-- Ends with a jump. -/
def jump (j : Jump) : EvalM α :=
  throw (.jump j)

/-- The value of a check, or its failure. -/
def ofExcept : Except EvalError α → EvalM α
  | .ok a => pure a
  | .error e => fail e

/-- Reads the heap. -/
@[inline] def readHeap (f : Heap → α) : EvalM α :=
  fun s => .ok (f s.heap) s

/-- Changes the heap. -/
@[inline] def modifyHeap (f : Heap → Heap) : EvalM Unit :=
  fun s => .ok () { s with heap := f s.heap }

/-- Adds something to the heap. -/
@[inline] def allocate (f : Heap → α × Heap) : EvalM α :=
  fun s =>
    let (a, heap) := f s.heap
    .ok a { s with heap }

/-- Reads the scopes. -/
@[inline] def readEnv (f : Environment → α) : EvalM α :=
  fun s => .ok (f s.env) s

/-- Changes the scopes. -/
@[inline] def modifyEnv (f : Environment → Environment) : EvalM Unit :=
  fun s => .ok () { s with env := f s.env }

/-- Runs a step and gives its end as a value. -/
@[inline] def attempt (x : EvalM α) : EvalM (Except Exit α) :=
  fun s => match x s with
    | .ok a s => .ok (.ok a) s
    | .error e s => .ok (.error e) s

/-- Ends as was noted down. -/
def resume : Except Exit α → EvalM α
  | .ok a => pure a
  | .error e => throw e

/-- Runs a step in a new scope, which is left however the step ends. -/
@[inline] def inScope (x : EvalM α) : EvalM α := do
  modifyEnv Environment.push
  let result ← attempt x
  modifyEnv Environment.pop
  resume result

/-- Runs a step with other scopes, and comes back to the present ones however the step ends. -/
@[inline] def inEnvironment (env : Environment) (x : EvalM α) : EvalM α := do
  let before ← readEnv id
  modifyEnv fun _ => env
  let result ← attempt x
  modifyEnv fun _ => before
  resume result

/-- Ends when the evaluation has been interrupted. -/
@[inline] def checkInterrupt : EvalM Unit :=
  fun s => if s.interrupted then .error (.error .interrupted) s else .ok () s

/-- Repeats a step for as long as it asks for one more turn, up to a number of turns. -/
def repeatWhile (turn : EvalM Bool) : Nat → EvalM Unit
  | 0 => throw .exhausted
  | turns + 1 => do
    checkInterrupt
    if ← turn then repeatWhile turn turns

/-! ## Names -/

/-- Adds a binding to the innermost scope. Gives its cell. -/
def define (name : String) (value : Value) (kind : BindingKind) : EvalM Nat := do
  let cell ← allocate (·.newCell value)
  modifyEnv (·.bind name cell kind)
  return cell

/-- The value of a name; in strict mode an unknown one is a failure. -/
def lookup (ctx : Context) (name : String) : EvalM Value := do
  match ← readEnv (·.find? name) with
  | some b => readHeap (·.cellAt b.cell)
  | none =>
    match ← readHeap (ctx.lookup · name) with
    | some v => return v
    | none => if ctx.options.strict then fail (.undefinedVariable name) else return .undefined

/-- Assigns to a name. -/
def assignName (ctx : Context) (name : String) (value : Value) : EvalM Unit := do
  if ← readEnv (·.contains name) then
    match ← readEnv (·.assignable name) with
    | .ok cell => modifyHeap (·.setCell cell value)
    | .error fault => fail (.ofEnvironment fault)
  else
    match ctx.locals with
    | .object _ =>
      if ← readHeap (·.canSet ctx.locals name value) then
        modifyHeap (·.set ctx.locals name value)
      else typeFault (.readOnlyLocal name)
    | _ => typeFault (.localNotObject name)

/-- Gives a name its first value. -/
def startName (name : String) (value : Value) : EvalM Unit := do
  match ← readEnv (·.initialCell name) with
  | .ok cell => modifyHeap (·.setCell cell value)
  | .error fault => fail (.ofEnvironment fault)

/-! ## Properties -/

/-- Reads a property. In strict mode `null` and `undefined` have none to read. -/
def getProperty (ctx : Context) (target : Value) (key : String) : EvalM Value := do
  if target.isNullish then
    if ctx.options.strict then typeFault (.readOfNullish (← readHeap (·.text target)) key)
    else return .undefined
  else readHeap (·.get target key)

/-- Writes a property. Writes to primitives and functions are lost. -/
def setProperty (target : Value) (key : String) (value : Value) : EvalM Unit := do
  match target with
  | .undefined | .null => typeFault (.writeOfNullish (← readHeap (·.text target)) key)
  | .array _ | .object _ =>
    if (target matches .array _) && (← readHeap (·.exceedsLimit key value)) then
      fail (.range .arrayLength)
    else if ← readHeap (·.clashes target key value) then throw .clash
    else if ← readHeap (·.canSet target key value) then modifyHeap (·.set target key value)
    else typeFault (.refusedWrite key (← readHeap (·.isFrozen target)))
  | _ => return

/-- Removes a property. Tells whether it is gone. -/
def deleteProperty (ctx : Context) (target : Value) (key : String) : EvalM Bool := do
  match target with
  | .object _ =>
    if ← readHeap (·.isFrozen target) then return !(← readHeap (·.has target key))
    modifyHeap (·.remove target key)
    return true
  | .array _ =>
    if ← readHeap (·.isFrozen target) then return false
    if ← readHeap (·.canRemove target key) then modifyHeap (·.remove target key)
    return true
  | .undefined | .null =>
    if ctx.options.strict then typeFault (.deleteOfNullish (← readHeap (·.text target)) key)
    return true
  | _ => return true

/-- What iterating over a value gives: the items of an array, the characters of a string. -/
def iterate (value : Value) : EvalM (Array Value) := do
  match value with
  | .array a => readHeap (·.items a)
  | .string s => return (s.toList.map Value.char).toArray
  | .object _ => typeFault (.notIterable "object")
  | _ => typeFault (.notIterable (← readHeap (·.text value)))

/-- Evaluates expressions in order; those that spread give any number of values. -/
def evalList (sub : Interpreter) (items : List Expr) : EvalM (Array Value) :=
  items.foldlM (fun done item => do
    match item with
    | .spread inner =>
      let values ← iterate (← sub.expr inner)
      ofExcept (checkArrayLength (done.size + values.size))
      return done ++ values
    | _ => return done.push (← sub.expr item)) #[]

end EvalM

end BindScript
