import BindScript.Evaluation.Call
import BindScript.Proofs.Composed.BuiltIn

/-!
# What steps are composed of

All that a step of an evaluation does, it does in a few ways. It looks at the state, changes containers, binds names,
writes the cells that names mean, and asks the interpreter for parts; and it does so one after another, in scopes of its
own, or to find out how something ends. `Composed` says of a step that it is put together in these ways.

What holds of the primitive steps, and is kept where steps are joined, holds of all composed steps by induction. So the
step functions are looked into once, to see that they are composed (`Composed.exprStep`, `Composed.chainStep`,
`Composed.stmtStep`, `Composed.enteredCall`), and not once for each property.

A step runs a statement only where the variables that the statement declares with `var` have been hoisted: `bound` are
the names of which this is known before the step, and to them come those that the step itself hoists.
-/

namespace BindScript

/-- The step is put together from primitive steps and parts that the interpreter evaluates. -/
inductive Composed (ctx : Context) : {α : Type} → (bound : List String) → (Interpreter → EvalM α) → Prop
  | pure {α : Type} {bound : List String} (a : α) : Composed ctx bound fun _ => Pure.pure a
  | throw {α : Type} {bound : List String} (e : Exit) : Composed ctx bound fun _ => (MonadExcept.throw e : EvalM α)
  | look {α : Type} {bound : List String} (f : State → α) : Composed ctx bound fun _ s => .ok (f s) s
  | checkInterrupt {bound : List String} : Composed ctx bound fun _ => EvalM.checkInterrupt
  /-- The interrupt flag and the console may change. -/
  | note {bound : List String} (f : State → State) (env : ∀ s, (f s).env = s.env) (heap : ∀ s, (f s).heap = s.heap) :
    Composed ctx bound fun _ s => .ok () (f s)
  /-- Containers and closures may be changed and added. -/
  | allocate {α : Type} {bound : List String} (f : Heap → α × Heap) (cells : ∀ h, (f h).2.cells = h.cells) :
    Composed ctx bound fun _ => EvalM.allocate f
  | define {bound : List String} (name : String) (v : Value) (kind : BindingKind) :
    Composed ctx bound fun _ => EvalM.define name v kind
  | assignName {bound : List String} (name : String) (v : Value) :
    Composed ctx bound fun _ => EvalM.assignName ctx name v
  | startName {bound : List String} (name : String) (v : Value) : Composed ctx bound fun _ => EvalM.startName name v
  | hoistLexical {bound : List String} (statements : List Stmt) :
    Composed ctx bound fun _ => EvalM.hoistLexical statements
  | expr {bound : List String} (e : Expr) : Composed ctx bound fun sub => sub.expr e
  | chain {bound : List String} (e : Expr) : Composed ctx bound fun sub => sub.chain e
  | call {bound : List String} (f : Value) (args : List Value) : Composed ctx bound fun sub => sub.call f args
  | stmt {bound : List String} (t : Stmt) (hoisted : t.varNames ⊆ bound) : Composed ctx bound fun sub => sub.stmt t
  | turns {α : Type} {bound : List String} {x : Nat → Interpreter → EvalM α} (each : ∀ n, Composed ctx bound (x n)) :
    Composed ctx bound fun sub => x sub.turns sub
  /-- How the second step goes on may depend on what the first one is known to give. -/
  | bindGiven {α β : Type} {bound : List String} {x : Interpreter → EvalM α} {f : α → Interpreter → EvalM β}
    {P : α → Prop} (first : Composed ctx bound x) (gives : ∀ sub s a t, x sub s = .ok a t → P a)
    (next : ∀ a, P a → Composed ctx bound (f a)) : Composed ctx bound fun sub => x sub >>= fun a => f a sub
  | attempt {α : Type} {bound : List String} {x : Interpreter → EvalM α} (step : Composed ctx bound x) :
    Composed ctx bound fun sub => EvalM.attempt (x sub)
  | inScope {α : Type} {bound : List String} {x : Interpreter → EvalM α} (step : Composed ctx bound x) :
    Composed ctx bound fun sub => EvalM.inScope (x sub)
  | declaring {α : Type} {bound : List String} {x : Interpreter → EvalM α} (kind : BindingKind) (names : List String)
    (step : Composed ctx (names ++ bound) x) :
    Composed ctx bound fun sub => names.forM (EvalM.declareName kind) >>= fun _ => x sub

namespace Composed

variable {ctx : Context} {bound : List String} {α β γ : Type} {x y : Interpreter → EvalM α}

/-! ## Primitive steps -/

theorem fail (failure : EvalError) : Composed ctx bound fun _ => (EvalM.fail failure : EvalM α) :=
  throw _

theorem typeFault (fault : TypeFault) : Composed ctx bound fun _ => (EvalM.typeFault fault : EvalM α) :=
  throw _

theorem jump (j : Jump) : Composed ctx bound fun _ => (EvalM.jump j : EvalM α) :=
  throw _

theorem ofExcept (result : Except EvalError α) : Composed ctx bound fun _ => EvalM.ofExcept result := by
  cases result with
  | ok a => exact pure a
  | error failure => exact fail failure

theorem resume (result : Except Exit α) : Composed ctx bound fun _ => EvalM.resume result := by
  cases result with
  | ok a => exact pure a
  | error e => exact throw e

theorem readHeap (f : Heap → α) : Composed ctx bound fun _ => EvalM.readHeap f :=
  look fun s => f s.heap

theorem readEnv (f : Environment → α) : Composed ctx bound fun _ => EvalM.readEnv f :=
  look fun s => f s.env


/-! ## Joining steps -/

theorem bind {f : α → Interpreter → EvalM β} (first : Composed ctx bound x) (next : ∀ a, Composed ctx bound (f a)) :
    Composed ctx bound fun sub => x sub >>= fun a => f a sub :=
  bindGiven (P := fun _ => True) first (fun _ _ _ _ _ => trivial) fun a _ => next a

theorem reading {f : Heap → α} {g : α → Interpreter → EvalM β} (next : ∀ a, Composed ctx bound (g a)) :
    Composed ctx bound fun sub => EvalM.readHeap f >>= fun a => g a sub :=
  bind (readHeap f) next

theorem readingEnv {f : Environment → α} {g : α → Interpreter → EvalM β} (next : ∀ a, Composed ctx bound (g a)) :
    Composed ctx bound fun sub => EvalM.readEnv f >>= fun a => g a sub :=
  bind (readEnv f) next

theorem discard (step : Composed ctx bound x) : Composed ctx bound fun sub => Functor.discard (x sub) :=
  bind step fun _ => pure ()

/-- What built-in functions do is composed of calls and of steps that leave cells and scopes alone. -/
theorem built (step : BuiltIn x) : Composed ctx bound x := by
  induction step with
  | pure a => exact pure a
  | fail => exact fail _
  | readHeap f => exact readHeap f
  | checked => exact reading fun result => ofExcept result
  | readNotes => exact look State.notes
  | allocate same => exact allocate _ fun h => (same h).cells
  | interrupt | note | log => exact note _ (fun _ => rfl) fun _ => rfl
  | call f args => exact call f args
  | bind _ _ first next => exact bind first next

theorem newArray (items : Array Value) : Composed ctx bound fun _ => EvalM.allocate (·.newArray items) :=
  built (.newArray items)

theorem ite {c : Prop} [Decidable c] (yes : Composed ctx bound x) (no : Composed ctx bound y) :
    Composed ctx bound fun sub => if c then x sub else y sub := by
  by_cases holds : c
  · simpa only [if_pos holds] using yes
  · simpa only [if_neg holds] using no

theorem foldlM {f : β → α → Interpreter → EvalM β} {items : List α}
    (each : ∀ a ∈ items, ∀ b, Composed ctx bound (f b a)) (start : β) :
    Composed ctx bound fun sub => items.foldlM (fun b a => f b a sub) start := by
  induction items generalizing start with
  | nil => exact pure start
  | cons a more ih =>
    obtain ⟨head, tail⟩ := List.forall_mem_cons.1 each
    simp only [List.foldlM_cons]
    exact bind (head start) (ih tail)

theorem forM {f : α → Interpreter → EvalM Unit} {items : List α} (each : ∀ a ∈ items, Composed ctx bound (f a)) :
    Composed ctx bound fun sub => items.forM fun a => f a sub := by
  induction items with
  | nil => exact pure ()
  | cons a more ih =>
    obtain ⟨head, tail⟩ := List.forall_mem_cons.1 each
    unfold List.forM
    exact bind head fun _ => ih tail

theorem mapM {f : α → Interpreter → EvalM β} {items : List α} (each : ∀ a ∈ items, Composed ctx bound (f a)) :
    Composed ctx bound fun sub => items.mapM fun a => f a sub := by
  induction items with
  | nil => exact pure []
  | cons a more ih =>
    obtain ⟨head, tail⟩ := List.forall_mem_cons.1 each
    simp only [List.mapM_cons]
    exact bind head fun b => bind (ih tail) fun results => pure _

/-! ## Loops -/

theorem repeatWhile {turn : Interpreter → EvalM Bool} (step : Composed ctx bound turn) (turns : Nat) :
    Composed ctx bound fun sub => EvalM.repeatWhile (turn sub) turns := by
  induction turns with
  | zero => exact throw _
  | succ turns ih =>
    unfold EvalM.repeatWhile
    exact bind checkInterrupt fun _ => bind step fun again => ite ih (pure ())

theorem visitAll {visit : Value → Interpreter → EvalM Bool} (step : ∀ v, Composed ctx bound (visit v))
    (items : List Value) : Composed ctx bound fun sub => EvalM.visitAll (fun v => visit v sub) items := by
  induction items with
  | nil => exact pure ()
  | cons item rest ih =>
    unfold EvalM.visitAll
    exact bind checkInterrupt fun _ => bind (step item) fun again => ite ih (pure ())

theorem visitArray {visit : Value → Interpreter → EvalM Bool} (step : ∀ v, Composed ctx bound (visit v))
    (a turns i : Nat) : Composed ctx bound fun sub => EvalM.visitArray a (fun v => visit v sub) turns i := by
  induction turns generalizing i with
  | zero => exact throw _
  | succ turns ih =>
    unfold EvalM.visitArray
    refine bind checkInterrupt fun _ => reading fun item => ?_
    cases item with
    | none => exact pure ()
    | some item => exact bind (step item) fun again => ite (ih (i + 1)) (pure ())

end Composed

end BindScript

/-!
## Names, properties and patterns are composed steps

Names are looked up, bound and written, properties are read and written in containers, and patterns evaluate their
defaults in between. Declarations hoist names before anything is evaluated.
-/

namespace BindScript.Composed

variable {ctx : Context} {bound : List String} {α : Type}

/-! ### Names -/

theorem lookup (name : String) : Composed ctx bound fun _ => EvalM.lookup ctx name := by
  unfold EvalM.lookup
  refine readingEnv fun binding => ?_
  cases binding with
  | some b => exact readHeap _
  | none =>
    refine reading fun known => ?_
    cases known with
    | some v => exact pure v
    | none => exact ite (fail _) (pure _)

/-! ### Properties -/

theorem setProperty (target : Value) (key : String) (v : Value) :
    Composed ctx bound fun _ => EvalM.setProperty target key v := by
  have write : Composed ctx bound _ := built (.write target key v)
  unfold EvalM.setProperty
  cases target with
  | undefined | null => exact reading fun _ => typeFault _
  | array a => exact reading fun exceeds => ite (fail _) (reading fun clashes => ite (throw _) write)
  | object o => exact write
  | _ => exact pure ()

/-! ### Patterns -/

theorem bindName (mode : BindMode) (name : String) (v : Value) :
    Composed ctx bound fun _ => EvalM.bindName ctx mode name v := by
  unfold EvalM.bindName
  cases mode with
  | declare kind => exact readingEnv fun there => ite (startName name v) (discard (define name v kind))
  | assign => exact assignName name v

theorem withDefault (v : Value) (default : Option Expr) :
    Composed ctx bound fun sub => EvalM.withDefault sub v default := by
  unfold EvalM.withDefault
  cases default with
  | none => cases v <;> exact pure _
  | some e =>
    cases v with
    | undefined => exact expr e
    | _ => exact pure _

mutual

theorem bindPattern (mode : BindMode) : ∀ (p : Pattern) (v : Value),
    Composed ctx bound fun sub => EvalM.bindPattern ctx sub mode p v
  | .name id, v => bindName mode id v
  | .array elements rest, v => by
    unfold EvalM.bindPattern
    refine bind (built (.iterate v)) fun items => bind (bindElements mode items elements 0) fun _ => ?_
    exact bindRest mode items elements.length rest
  | .object fields rest, v => by
    have each : Composed ctx bound fun sub => EvalM.bindFields ctx sub mode v fields := bindFields mode v fields
    unfold EvalM.bindPattern
    cases rest with
    | none =>
      refine ite (reading fun _ => bind (typeFault _) fun _ => bind each fun _ => ?_) (bind each fun _ => ?_)
      · exact pure ()
      · exact pure ()
    | some name =>
      refine ite (reading fun _ => bind (typeFault _) fun _ => bind each fun _ => ?_) (bind each fun _ => ?_)
      · exact reading fun remaining => bind (built (.newObject _)) fun object => bindName mode name object
      · exact reading fun remaining => bind (built (.newObject _)) fun object => bindName mode name object

theorem bindElements (mode : BindMode) (items : Array Value) : ∀ (elements : List (Option Element)) (i : Nat),
    Composed ctx bound fun sub => EvalM.bindElements ctx sub mode items i elements
  | [], _ => pure ()
  | none :: more, i => by
    unfold EvalM.bindElements
    exact bindElements mode items more (i + 1)
  | some (.mk target default) :: more, i => by
    unfold EvalM.bindElements
    refine bind (withDefault _ default) fun item => bind (bindPattern mode target item) fun _ => ?_
    exact bindElements mode items more (i + 1)

theorem bindRest (mode : BindMode) (items : Array Value) (taken : Nat) : ∀ rest : Option Pattern,
    Composed ctx bound fun sub => EvalM.bindRest ctx sub mode items taken rest
  | none => pure ()
  | some p => by
    unfold EvalM.bindRest
    exact bind (newArray _) fun remaining => bindPattern mode p remaining

theorem bindFields (mode : BindMode) (v : Value) : ∀ fields : List Field,
    Composed ctx bound fun sub => EvalM.bindFields ctx sub mode v fields
  | [] => pure ()
  | .mk key target default :: more => by
    unfold EvalM.bindFields
    refine reading fun found => bind (withDefault found default) fun item => ?_
    exact bind (bindPattern mode target item) fun _ => bindFields mode v more

end

/-! ### Declarations -/

theorem makeClosure (name? : Option String) (definition : Function) :
    Composed ctx bound fun _ => EvalM.makeClosure name? definition := by
  unfold EvalM.makeClosure
  exact readingEnv fun captured => allocate _ fun _ => rfl

theorem evalNamed (name : String) (e : Expr) : Composed ctx bound fun sub => EvalM.evalNamed sub name e := by
  cases e with
  | function definition => exact makeClosure (some name) definition
  | _ => exact expr _

theorem evalInit (p : Pattern) (e : Expr) : Composed ctx bound fun sub => EvalM.evalInit sub p e := by
  cases p with
  | name id => exact evalNamed id e
  | _ => exact expr e

theorem evalDeclarator (kind : DeclKind) (d : Declarator) :
    Composed ctx bound fun sub => EvalM.evalDeclarator ctx sub kind d := by
  obtain ⟨pattern, init⟩ := d
  unfold EvalM.evalDeclarator
  cases init with
  | none => exact ite (pure ()) (bindPattern _ pattern _)
  | some init => exact bind (evalInit pattern init) fun value => bindPattern _ pattern value

theorem evalDeclaration (kind : DeclKind) (declarators : List Declarator) :
    Composed ctx bound fun sub => EvalM.evalDeclaration ctx sub kind declarators :=
  forM fun d _ => evalDeclarator kind d

end BindScript.Composed
