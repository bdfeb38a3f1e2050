import BindScript.Heap

/-!
The scopes of a running evaluation. All bindings stand in one array, oldest first, and each inner scope
is remembered by the number of bindings it started with. Leaving a scope cuts the array back, and a name
means its most recent binding.

An environment holds the cells of its bindings; their values are in the heap.

Leaving a scope undoes entering it (`pop_push`), also after names were bound in between (`pop_bind`,
`pop_bind_push`), and a name means the binding that was added last (`find?_bind_self`,
`find?_bind_of_ne`).
-/

namespace BindScript

/-- Why an environment refuses a request. -/
inductive EnvironmentFault
  | undefinedVariable (name : String)
  | immutableBinding (name : String)
  | stackOverflow (depth limit : Nat)
  deriving DecidableEq, Repr

/-- The wording of a fault. -/
def EnvironmentFault.message : EnvironmentFault → String
  | undefinedVariable name => "undefined variable `" ++ name ++ "`"
  | immutableBinding name => "assignment to constant variable `" ++ name ++ "`"
  | stackOverflow depth limit =>
    "maximum call depth exceeded (" ++ toString depth ++ " >= " ++ toString limit ++ ")"

/-- Scopes, innermost last, and how deep calls are nested. -/
structure Environment where
  /-- The visible bindings, oldest first. -/
  bindings : Array Binding := #[]
  /-- Where the inner scopes start, innermost first; the outermost scope starts at zero. -/
  frames : List Nat := []
  callDepth : Nat := 0
  maxCallDepth : Nat := 1000
  deriving Repr

namespace Environment

/-- An environment without bindings. -/
def empty (maxCallDepth : Nat) : Environment :=
  { maxCallDepth }

/-- The environment of a call: what the function has captured, and a new scope inside it. -/
def forCall (captured : Array Binding) (callDepth maxCallDepth : Nat) : Environment :=
  { bindings := captured, frames := [captured.size], callDepth, maxCallDepth }

/-- Enters a scope. -/
def push (env : Environment) : Environment :=
  { env with frames := env.bindings.size :: env.frames }

/-- Leaves the innermost scope; the outermost one is never left. -/
def pop (env : Environment) : Environment :=
  match env.frames with
  | [] => env
  | start :: outer => { env with bindings := env.bindings.shrink start, frames := outer }

/-- The number of scopes. -/
def depth (env : Environment) : Nat :=
  env.frames.length + 1

/-- Whether only the outermost scope is there. -/
def isGlobalScope (env : Environment) : Bool :=
  env.frames.isEmpty

/-- Where the innermost scope starts. -/
def frameStart (env : Environment) : Nat :=
  env.frames.headD 0

/-- The call depth inside one more call, unless the limit is reached. -/
def enterCall (env : Environment) : Except EnvironmentFault Nat :=
  if env.maxCallDepth ≤ env.callDepth then .error (.stackOverflow env.callDepth env.maxCallDepth)
  else .ok (env.callDepth + 1)

/-- Adds a binding to the innermost scope. It hides earlier ones of its name. -/
def bind (env : Environment) (name : String) (cell : Nat) (kind : BindingKind) : Environment :=
  { env with bindings := env.bindings.push ⟨name, cell, kind⟩ }

/-- The binding that a name means. -/
def find? (env : Environment) (name : String) : Option Binding :=
  env.bindings.findRev? (fun b => b.name == name)

/-- Whether a name is bound. -/
def contains (env : Environment) (name : String) : Bool :=
  (env.find? name).isSome

/-- The bindings of the innermost scope, oldest first. -/
def currentScope (env : Environment) : List Binding :=
  env.bindings.toList.drop env.frameStart

/-- Whether a name is bound in the innermost scope. -/
def containsInScope (env : Environment) (name : String) : Bool :=
  env.bindings.any (fun b => b.name == name) env.frameStart env.bindings.size

/-- The names of the innermost scope, oldest first. -/
def namesInScope (env : Environment) : List String :=
  env.currentScope.map (·.name)

/-- The cell that an assignment to a name writes. -/
def assignable (env : Environment) (name : String) : Except EnvironmentFault Nat :=
  match env.find? name with
  | none => .error (.undefinedVariable name)
  | some b => if b.kind.isMutable then .ok b.cell else .error (.immutableBinding name)

/-- The cell that the first value of a name is written to; constants are given theirs too. -/
def initialCell (env : Environment) (name : String) : Except EnvironmentFault Nat :=
  match env.find? name with
  | none => .error (.undefinedVariable name)
  | some b => .ok b.cell

/-- The value of a name. -/
def get? (env : Environment) (h : Heap) (name : String) : Option Value :=
  (env.find? name).map fun b => h.cellAt b.cell

/-- Adds a binding with a new cell. Gives the cell. -/
def define (env : Environment) (h : Heap) (name : String) (value : Value) (kind : BindingKind) :
    Nat × Environment × Heap :=
  let (cell, h) := h.newCell value
  (cell, env.bind name cell kind, h)

/-- Assigns to a name. -/
def assign (env : Environment) (h : Heap) (name : String) (value : Value) :
    Except EnvironmentFault Heap :=
  (env.assignable name).map (h.setCell · value)

/-- Gives a name its first value. -/
def setInitial (env : Environment) (h : Heap) (name : String) (value : Value) :
    Except EnvironmentFault Heap :=
  (env.initialCell name).map (h.setCell · value)

/-! ## Scopes -/

theorem pop_push (env : Environment) : env.push.pop = env := by
  simp [push, pop]

/-- Bindings of the innermost scope are gone with it. -/
theorem pop_bind {env : Environment} {start : Nat} {outer : List Nat} {name : String} {cell : Nat}
    {kind : BindingKind} (frames : env.frames = start :: outer) (inside : start ≤ env.bindings.size) :
    (env.bind name cell kind).pop = env.pop := by
  simp only [bind, pop, frames]
  congr 1
  apply Array.ext'
  simp [inside]

theorem pop_bind_push (env : Environment) (name : String) (cell : Nat) (kind : BindingKind) :
    (env.push.bind name cell kind).pop = env := by
  have frames : env.push.frames = env.bindings.size :: env.frames := rfl
  rw [pop_bind frames (Nat.le_refl _), pop_push]

theorem depth_push (env : Environment) : env.push.depth = env.depth + 1 := by
  simp [push, depth]

/-! ## Names -/

theorem find?_bind_self (env : Environment) (name : String) (cell : Nat) (kind : BindingKind) :
    (env.bind name cell kind).find? name = some ⟨name, cell, kind⟩ := by
  simp [bind, find?]

theorem find?_bind_of_ne {env : Environment} {name other : String} {cell : Nat} {kind : BindingKind}
    (h : other ≠ name) : (env.bind name cell kind).find? other = env.find? other := by
  simp [bind, find?, Ne.symm h]

theorem find?_push (env : Environment) (name : String) : env.push.find? name = env.find? name :=
  rfl

end Environment

end BindScript
