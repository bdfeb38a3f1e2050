import BindScript.Proofs.Control.Dependence
import BindScript.Proofs.Control.Scopes
import BindScript.Proofs.Parsing.Rules
import BindScript.Proofs.Syntax.Grammar

/-!
# Watching a run

A `Watch` looks at what a run does step by step. It may look at how the steps fail: code that is as the grammar asks
(`NodeRule.formed`) has no failure for being misplaced. And it may look at constants. A cell is constant if all the
bindings that anything knows for it are those of constants (`State.Constant`), and no step changes the value of such a
cell, unless it is there to give the value to it: it declares the name in the innermost scope (`State.Before`). For this
to be so, declarations have to stand where they belong (`NodeRule.settled`).

A second run may stand next to the first one. It goes through the same states until it is given another answer
somewhere; then nothing is said of it, but from there on the marked cell of the first run is constant and keeps the
marked value (`State.Marked`). `W.Follows X Q x₁ x₂` says of a step of the first run and one of the second that they
go on in this way; `X` is what they may declare in the innermost scope. With the same step for both this is about a
single run.
-/

namespace BindScript

/-- Names with the kinds that they are declared with. -/
abbrev Declared := List (String × BindingKind)

/-- The names of what is declared. -/
def Declared.names (X : Declared) : List String :=
  X.map Prod.fst

/-- What a declaration declares in the scope around it. -/
def DeclKind.declared (kind : DeclKind) (names : List String) : Declared :=
  if kind = .var then [] else names.map fun name => (name, .ofDecl kind)

/-- What a statement declares in the scope around it, if it is a declaration. -/
def Stmt.declared : Stmt → Declared
  | .declare kind declarators => kind.declared (Declarator.boundNames declarators)
  | .function name _ => [(name, .function)]
  | _ => []

/-- What statements in a row declare. -/
def Stmt.declaredIn (statements : List Stmt) : Declared :=
  statements.flatMap Stmt.declared

/-- What the first part of a counting loop declares. -/
def ForInit.declared : ForInit → Declared
  | .declare kind declarators => kind.declared (Declarator.boundNames declarators)
  | _ => []

/-! ## Rules -/

/-- What statements in a row declare has different names. -/
def Stmt.Distinct (statements : List Stmt) : Prop :=
  (Declared.names (Stmt.declaredIn statements)).Nodup

/-- No constant among the statements has the name of a variable of the whole function. -/
def Stmt.Unhoisted (statements : List Stmt) : Prop :=
  ∀ name, (name, .const) ∈ Stmt.declaredIn statements → name ∉ Stmt.varNamesList statements

/-- The statements of a function body; an expression has none. -/
def Body.statements : Body → List Stmt
  | .expr _ => []
  | .block statements => statements

/-- Parameters and what the body declares have different names, also from the variables of the whole function. -/
def Function.Settled : Function → Prop
  | .mk params rest body =>
    (Function.paramNames params rest ++ Declared.names (Stmt.declaredIn body.statements)).Nodup ∧
      Stmt.Unhoisted body.statements

/-- Declarations stand where they belong: none is the bare body of another statement, and in each scope all have
different names. -/
def NodeRule.settled : NodeRule where
  expr
    | .function definition => definition.Settled
    | _ => True
  stmt
    | .block statements => Stmt.Distinct statements
    | .declare kind declarators => (Declared.names (kind.declared (Declarator.boundNames declarators))).Nodup
    | .branch _ consequent alternate => consequent.declared = [] ∧ ∀ s ∈ alternate, s.declared = []
    | .whileLoop _ body | .doWhile body _ => body.declared = []
    | .forLoop init _ _ body => (Declared.names init.declared).Nodup ∧ body.declared = []
    | .forEach _ kind pattern _ body => (Pattern.headNames kind pattern).Nodup ∧ body.declared = []
    | .attempt statements handler finalizer =>
      Stmt.Distinct statements ∧
        (∀ h ∈ handler, (h.param.toList ++ Declared.names (Stmt.declaredIn h.body)).Nodup) ∧
        ∀ statements ∈ finalizer, Stmt.Distinct statements
    | .switch _ cases => Stmt.Distinct (cases.flatMap Case.body)
    | .function _ definition => definition.Settled
    | _ => True

/-! ## Constants -/

/-- A binding that the scopes have, or a closure. -/
def State.Knows (s : State) (b : Binding) : Prop :=
  b ∈ s.env.bindings.toList ∨ ∃ c, b ∈ (s.heap.closureAt c).captured.toList

/-- All that is known of the cell is that it is a constant. -/
structure State.Constant (s : State) (cell : Nat) : Prop where
  inside : cell < s.heap.cells.size
  kind : ∀ b, s.Knows b → b.cell = cell → b.kind = .const

/-- States that a run goes through: every cell has one binding. -/
structure State.Sound (s : State) : Prop where
  inside : s.env.frameStart ≤ s.env.bindings.size
  allocated : ∀ b, s.Knows b → b.cell < s.heap.cells.size
  coherent : ∀ b b', s.Knows b → s.Knows b' → b.cell = b'.cell → b = b'

/-- A state that comes after another one, when some has been declared in the innermost scope. -/
structure State.Before (X : Declared) (s t : State) : Prop where
  env : ∃ added, s.env.Adds t.env added ∧ ∀ b ∈ added, (b.name, b.kind) ∈ X ∧ s.heap.cells.size ≤ b.cell
  cells : s.heap.cells.size ≤ t.heap.cells.size
  known : ∀ b, t.Knows b → b.cell < s.heap.cells.size → s.Knows b
  kept : ∀ cell, s.Constant cell → (∀ b ∈ s.env.currentScope, b.cell = cell → b.name ∉ X.names) →
    t.heap.cellAt cell = s.heap.cellAt cell

/-- The cell is constant and has the value. It is known to the innermost scope only by what has been declared there,
and to the one before as well if it was there already. -/
structure State.Marked (X : Declared) (cell : Nat) (value : Value) (s t : State) : Prop where
  constant : t.Constant cell
  value : t.heap.cellAt cell = value
  names : ∀ b ∈ t.env.currentScope, b.cell = cell → (b.name, .const) ∈ X
  before : cell < s.heap.cells.size → ∃ b ∈ s.env.currentScope, b.cell = cell ∧ (b.name, .const) ∈ X

/-- Failures of code that is not as the grammar asks: of what cannot be assigned to, and of spreads outside of lists. -/
def EvalError.Misplaced : EvalError → Prop
  | .invalidTarget _ => True
  | .type fault => fault = .misplacedSpread
  | _ => False

/-- What is watched. -/
structure Watch where
  ctx : Context
  /-- What all code obeys. -/
  code : NodeRule
  /-- Failures for being misplaced are watched. -/
  formed : Prop
  /-- Constants are watched. -/
  constants : Prop
  shaped : formed → code.Le .formed
  settled : constants → code.Le .settled
  /-- The second run may be given other answers, once the marked cell has the marked value. -/
  parts : Prop
  cell : Nat
  value : Value

namespace Watch

variable (W : Watch)

/-- Code that the runs come to. -/
def Code (x : Node) : Prop :=
  x.Obeys W.code ∧ (W.formed → x.isSpread = false)

/-- A function that may be called. -/
structure Callable (f : Function) : Prop where
  code : ∀ y ∈ f.nodes, W.Code y
  settled : W.constants → f.Settled

/-- The states that the first run goes through. -/
structure At (s : State) : Prop where
  callable : ∀ c, W.Callable (s.heap.closureAt c).definition
  sound : W.constants → s.Sound

/-- A state of the first run that comes after another one. -/
def Later (X : Declared) (s t : State) : Prop :=
  W.constants → s.Before X t

/-- What the first run may end with when it gives no value. -/
def Leaves : Exit → Prop
  | .error e => W.formed → ¬ e.Misplaced
  | _ => True

/-- The second run has been given another answer. -/
def Marked (X : Declared) (s t : State) : Prop :=
  W.parts ∧ W.constants ∧ s.Marked X W.cell W.value t

/-- What comes second has no name of a constant that comes first. -/
def Apart (X Y : Declared) : Prop :=
  W.constants → ∀ name, (name, .const) ∈ X → name ∉ Y.names

/-- What is declared has different names. -/
def Distinct (X : Declared) : Prop :=
  W.constants → X.names.Nodup

/-- How a step of the first run ends. -/
inductive Kept {α : Type} (X : Declared) (Q : α → Prop) (s : State) : EStateM.Result Exit State α → Prop
  | ok {a : α} {t : State} (state : W.At t) (later : W.Later X s t) (result : Q a) : Kept X Q s (.ok a t)
  | error {e : Exit} {t : State} (state : W.At t) (later : W.Later X s t) (leaves : W.Leaves e) :
    Kept X Q s (.error e t)

/-- The state that a step has left behind. -/
def final {α : Type} : EStateM.Result Exit State α → State
  | .ok _ t => t
  | .error _ t => t

/-- How the two runs end. -/
structure Ends {α : Type} (X : Declared) (Q : α → Prop) (s : State) (r₁ r₂ : EStateM.Result Exit State α) : Prop where
  kept : W.Kept X Q s r₁
  same : r₁ = r₂ ∨ W.Marked X s (final r₁)

/-- From every state, the second step ends as the first one does, unless it has been given another answer. -/
def Follows {α : Type} (X : Declared) (Q : α → Prop) (x₁ x₂ : EvalM α) : Prop :=
  ∀ s, W.At s → W.Ends X Q s (x₁ s) (x₂ s)

/-- Steps that declare nothing around them, and whose results are of no concern. -/
abbrev Quiet {α : Type} (x₁ x₂ : EvalM α) : Prop :=
  W.Follows [] (fun _ => True) x₁ x₂

/-- What the innermost scope has of the name are constants. -/
def Only (name : String) (s : State) : Prop :=
  ∀ b ∈ s.env.currentScope, b.name = name → b.kind = .const

/-- What is to be declared as constants has not been declared as anything else. -/
def Expects (X : Declared) (s : State) : Prop :=
  W.constants → ∀ name, (name, .const) ∈ X → Only name s

/-- Whatever code they evaluate, the second interpreter follows the first one. -/
structure Interprets (sub₁ sub₂ : Interpreter) : Prop where
  turns : sub₁.turns = sub₂.turns
  expr : ∀ e, W.Code (.expr e) → W.Quiet (sub₁.expr e) (sub₂.expr e)
  chain : ∀ e, W.Code (.expr e) → W.Quiet (sub₁.chain e) (sub₂.chain e)
  stmt : ∀ t, W.Code (.stmt t) → ∀ s, W.At s → W.Expects t.declared s →
    W.Ends t.declared (fun _ => True) s (sub₁.stmt t s) (sub₂.stmt t s)
  call : ∀ f args, W.Quiet (sub₁.call f args) (sub₂.call f args)

end Watch

end BindScript
