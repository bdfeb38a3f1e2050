import BindScript.Evaluation.Basic

/-!
Binding patterns to values. A declaration binds the names of the innermost scope, or gives those that
were hoisted there their first value; an assignment writes names that exist already.
-/

namespace BindScript

/-- How the names of a pattern receive their values. -/
inductive BindMode
  | declare (kind : BindingKind)
  | assign
  deriving DecidableEq, Repr

namespace EvalM

/-- Binds one name. -/
def bindName (ctx : Context) (mode : BindMode) (name : String) (value : Value) : EvalM Unit := do
  match mode with
  | .declare kind =>
    if ← readEnv (·.containsInScope name) then startName name value
    else discard (define name value kind)
  | .assign => assignName ctx name value

/-- The value, or that of the default when there is none. -/
def withDefault (sub : Interpreter) (value : Value) (default : Option Expr) : EvalM Value :=
  match value, default with
  | .undefined, some e => sub.expr e
  | v, _ => pure v

/-- What an object pattern leaves of a value: the properties it does not name. -/
def remainingProperties (h : Heap) (value : Value) (fields : List Field) : Entries Value :=
  Entries.insertAll [] ((h.entries value).filter fun entry => !fields.any (fun f => f.key == entry.1))

mutual

/-- Binds every name of a pattern from a value. -/
def bindPattern (ctx : Context) (sub : Interpreter) (mode : BindMode) :
    Pattern → Value → EvalM Unit
  | .name id, value => bindName ctx mode id value
  | .array elements rest, value => do
    let items ← iterate value
    bindElements ctx sub mode items 0 elements
    bindRest ctx sub mode items elements.length rest
  | .object fields rest, value => do
    if value.isNullish then typeFault (.notDestructurable (← readHeap (·.text value)))
    bindFields ctx sub mode value fields
    match rest with
    | none => return
    | some name =>
      let remaining ← readHeap (remainingProperties · value fields)
      bindName ctx mode name (← allocate (·.newObject remaining))

/-- Binds the elements of an array pattern from the items at and after an index. -/
def bindElements (ctx : Context) (sub : Interpreter) (mode : BindMode) (items : Array Value) (i : Nat) :
    List (Option Element) → EvalM Unit
  | [] => return
  | none :: more => bindElements ctx sub mode items (i + 1) more
  | some (.mk target default) :: more => do
    let item ← withDefault sub (items.getD i .undefined) default
    bindPattern ctx sub mode target item
    bindElements ctx sub mode items (i + 1) more

/-- Binds the rest of an array pattern to a new array of the items that are left. -/
def bindRest (ctx : Context) (sub : Interpreter) (mode : BindMode) (items : Array Value) (taken : Nat) :
    Option Pattern → EvalM Unit
  | none => return
  | some rest => do
    let remaining ← allocate (·.newArray (items.extract taken items.size))
    bindPattern ctx sub mode rest remaining

/-- Binds the fields of an object pattern. -/
def bindFields (ctx : Context) (sub : Interpreter) (mode : BindMode) (value : Value) :
    List Field → EvalM Unit
  | [] => return
  | .mk key target default :: more => do
    let item ← withDefault sub (← readHeap (·.get value key)) default
    bindPattern ctx sub mode target item
    bindFields ctx sub mode value more

end

end EvalM

end BindScript
