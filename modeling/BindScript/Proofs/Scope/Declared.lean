import BindScript.Proofs.Composed.Names

/-!
# What steps declare in the innermost scope

A name gets one binding in a scope: where it is declared once more, the binding that is there is used. So what a step
does to the innermost scope is told by names (`State.Declares`): those that the scope does not have yet are added, in
order, and what a name of the scope means does not change (`State.Declares.find?`).

Expressions declare nothing (`Interpreter.Scoped`). A pattern declares the names that it binds, no more and no less, if
it is bound to the end (`bindPattern_declares`), and so does a declaration. Other statements have scopes of their own.
-/

namespace BindScript

variable {s t u : State} {names more : List String} {name : String}

/-- All that is done to the scopes is that the names are declared in the innermost one, unless it has them. -/
structure State.Declares (names : List String) (s t : State) : Prop where
  grows : s.env.Grows t.env
  scope : t.env.namesInScope = names.foldl insertNew s.env.namesInScope

namespace Environment

variable {env env' : Environment}

theorem mem_namesInScope : name ∈ env.namesInScope ↔ env.containsInScope name = true := by
  rw [containsInScope_iff, namesInScope, List.mem_map]

theorem frameStart_of_grows (grows : env.Grows env') : env'.frameStart = env.frameStart := by
  rw [frameStart, grows.frames, frameStart]

theorem inside_of_grows (grows : env.Grows env') (inside : env.frameStart ≤ env.bindings.size) :
    env'.frameStart ≤ env'.bindings.size := by
  rw [frameStart_of_grows grows]
  exact Nat.le_trans inside (by simpa using grows.bindings.length_le)

theorem namesInScope_bind (inside : env.frameStart ≤ env.bindings.size) (name : String) (cell : Nat)
    (kind : BindingKind) : (env.bind name cell kind).namesInScope = env.namesInScope ++ [name] := by
  rw [namesInScope, (env.adds_bind name cell kind).innermost inside, List.map_append]
  rfl

/-- Bindings of other names do not hide what a name means. -/
theorem Adds.find?_of_ne {new : List Binding} (adds : env.Adds env' new) (others : ∀ b ∈ new, b.name ≠ name) :
    env'.find? name = env.find? name := by
  have none : new.reverse.find? (·.name == name) = none := by
    rw [List.find?_eq_none]
    exact fun b mem same => others b (List.mem_reverse.1 mem) (beq_iff_eq.1 same)
  rw [find?_eq_reverse, find?_eq_reverse, adds.bindings, List.reverse_append, List.find?_append, none, Option.none_or]

end Environment

namespace State.Declares

theorem of_env (same : t.env = s.env) : s.Declares [] t :=
  ⟨same ▸ .refl s.env, congrArg Environment.namesInScope same⟩

theorem trans (first : s.Declares names t) (second : t.Declares more u) : s.Declares (names ++ more) u where
  grows := first.grows.trans second.grows
  scope := by rw [second.scope, first.scope, List.foldl_append]

theorem inside (declares : s.Declares names t) (inside : s.env.frameStart ≤ s.env.bindings.size) :
    t.env.frameStart ≤ t.env.bindings.size :=
  Environment.inside_of_grows declares.grows inside

/-- A name that is there already. -/
theorem present (there : s.env.containsInScope name = true) (same : t.env = s.env) : s.Declares [name] t where
  grows := same ▸ .refl s.env
  scope := by
    rw [same, List.foldl_cons, List.foldl_nil, insertNew, if_pos]
    exact List.contains_iff_mem.2 (Environment.mem_namesInScope.2 there)

/-- A name that is new. -/
theorem defining (absent : s.env.containsInScope name = false) (inside : s.env.frameStart ≤ s.env.bindings.size)
    {cell : Nat} {kind : BindingKind} (bound : t.env = s.env.bind name cell kind) : s.Declares [name] t where
  grows := bound ▸ Environment.grows_bind s.env name cell kind
  scope := by
    rw [bound, Environment.namesInScope_bind inside, List.foldl_cons, List.foldl_nil, insertNew, if_neg]
    rw [List.contains_iff_mem, Environment.mem_namesInScope, absent]
    exact Bool.false_ne_true

theorem mem (declares : s.Declares names t) : name ∈ t.env.namesInScope ↔ name ∈ s.env.namesInScope ∨ name ∈ names := by
  rw [declares.scope, mem_foldl_insertNew]

/-- What is added to the scope is what the names ask for that it does not have. -/
theorem added (declares : s.Declares names t) (inside : s.env.frameStart ≤ s.env.bindings.size) {new : List Binding}
    (adds : s.env.Adds t.env new) : ∀ b ∈ new, b.name ∈ names ∧ b.name ∉ s.env.namesInScope := by
  obtain ⟨missing, extended, absent⟩ := exists_foldl_insertNew names s.env.namesInScope
  have same : new.map (·.name) = missing := by
    have scope := declares.scope
    rw [extended, Environment.namesInScope, adds.innermost inside, List.map_append] at scope
    exact List.append_cancel_left scope
  intro b mem
  have outside : b.name ∉ s.env.namesInScope := absent b.name (same ▸ List.mem_map_of_mem mem)
  have there : b.name ∈ t.env.namesInScope := by
    rw [Environment.namesInScope, adds.innermost inside]
    exact List.mem_map_of_mem (List.mem_append_right _ mem)
  exact ⟨(declares.mem.1 there).resolve_left outside, outside⟩

/-- A name of the scope means what it meant. -/
theorem find? (declares : s.Declares names t) (inside : s.env.frameStart ≤ s.env.bindings.size)
    (there : name ∈ s.env.namesInScope) : t.env.find? name = s.env.find? name := by
  obtain ⟨new, adds⟩ := declares.grows.adds
  exact adds.find?_of_ne fun b mem same => (declares.added inside adds b mem).2 (same ▸ there)

end State.Declares

/-! ## Steps -/

namespace EvalM

variable {α β : Type} {x y : EvalM α} {f : α → EvalM β}

/-- The step leaves the scopes as they are. -/
def KeepsScopes (x : EvalM α) : Prop :=
  ∀ s : State, (x.stateAfter s).env = s.env

/-- However the step ends, it only declares names. -/
def Declaring (x : EvalM α) : Prop :=
  ∀ s : State, s.env.frameStart ≤ s.env.bindings.size → ∃ names, s.Declares names (x.stateAfter s)

/-- If the step gives a value, then it has declared the names. -/
structure Declares (names : List String) (x : EvalM α) : Prop where
  declaring : x.Declaring
  given : ∀ {s : State} {a : α} {t : State}, s.env.frameStart ≤ s.env.bindings.size → x s = .ok a t →
    s.Declares names t

theorem KeepsScopes.declaring (keeps : x.KeepsScopes) : x.Declaring :=
  fun s _ => ⟨[], .of_env (keeps s)⟩

theorem KeepsScopes.declares (keeps : x.KeepsScopes) : x.Declares [] where
  declaring := keeps.declaring
  given _ run := .of_env (stateAfter_of_ok run ▸ keeps _)

theorem KeepsScopes.bind (first : x.KeepsScopes) (next : ∀ a, (f a).KeepsScopes) : (x >>= f).KeepsScopes :=
  fun s => stateAfter_bind (R := fun s t => t.env = s.env) (fun _ _ here later => later.trans here) (first s)
    fun a t _ _ => next a t

theorem KeepsScopes.readHeap (f : Heap → α) : (EvalM.readHeap f).KeepsScopes :=
  fun _ => rfl

theorem KeepsScopes.allocate (f : Heap → α × Heap) : (EvalM.allocate f).KeepsScopes :=
  fun _ => rfl

/-- A scope that is left takes with it what it has been given. -/
theorem KeepsScopes.inScope (inside : x.Spares noCells) : (EvalM.inScope x).KeepsScopes := by
  intro s
  have later := inside { s with env := s.env.push } (State.apart_noCells _)
  rw [stateAfter_inScope]
  exact later.pop

theorem KeepsScopes.attempt (keeps : x.KeepsScopes) : (EvalM.attempt x).KeepsScopes := by
  intro s
  rw [stateAfter_attempt]
  exact keeps s

namespace Declaring

theorem bind (first : x.Declaring) (next : ∀ a, (f a).Declaring) : (x >>= f).Declaring := by
  intro s inside
  have trans : ∀ t u, (∃ names, s.Declares names t) → (∃ names, t.Declares names u) → ∃ names, s.Declares names u :=
    fun _ _ ⟨_, here⟩ ⟨_, later⟩ => ⟨_, here.trans later⟩
  refine stateAfter_bind (R := fun s t => ∃ names, s.Declares names t) trans (first s inside) ?_
  rintro a t - ⟨names, here⟩
  exact next a t (here.inside inside)

/-- A first step that leaves the scopes alone. -/
theorem andThen (first : x.KeepsScopes) (next : ∀ a, (f a).Declaring) : (x >>= f).Declaring :=
  bind first.declaring next

theorem discard (step : x.Declaring) : (Functor.discard x).Declaring :=
  bind (f := fun _ => Pure.pure ()) step fun _ => KeepsScopes.declaring fun _ => rfl

theorem attempt (step : x.Declaring) : (EvalM.attempt x).Declaring := by
  intro s inside
  rw [stateAfter_attempt]
  exact step s inside

theorem ite {c : Prop} [Decidable c] (yes : x.Declaring) (no : y.Declaring) : (if c then x else y).Declaring := by
  split
  · exact yes
  · exact no

end Declaring

namespace Declares

theorem bind (first : x.Declares names) (next : ∀ a, (f a).Declares more) : (x >>= f).Declares (names ++ more) where
  declaring := first.declaring.bind fun a => (next a).declaring
  given inside run := by
    obtain ⟨a, middle, run, later⟩ := exists_of_bind_ok run
    have here := first.given inside run
    exact here.trans ((next a).given (here.inside inside) later)

theorem andThen (first : x.KeepsScopes) (next : ∀ a, (f a).Declares names) : (x >>= f).Declares names :=
  bind first.declares next

theorem ite {c : Prop} [Decidable c] (yes : x.Declares names) (no : y.Declares names) :
    (if c then x else y).Declares names := by
  split
  · exact yes
  · exact no

/-- A failure gives no value. -/
theorem typeFault_bind (fault : TypeFault) (f : α → EvalM β) : (EvalM.typeFault fault >>= f).Declares names where
  declaring := KeepsScopes.declaring fun _ => rfl
  given _ run := by
    obtain ⟨_, _, failed, _⟩ := exists_of_bind_ok run
    cases failed

end Declares

end EvalM

/-! ## Names and patterns -/

/-- The names that are declared where they are bound in the mode; an assignment declares none. -/
def BindMode.introduces (mode : BindMode) (names : List String) : List String :=
  match mode with
  | .declare _ => names
  | .assign => []

theorem BindMode.introduces_append (mode : BindMode) (names more : List String) :
    mode.introduces (names ++ more) = mode.introduces names ++ mode.introduces more := by
  cases mode with
  | declare kind => rfl
  | assign => rfl

/-- The interpreter evaluates expressions and calls without changing the scopes, and statements declare names. -/
structure Interpreter.Scoped (sub : Interpreter) : Prop where
  expr : ∀ e, (sub.expr e).KeepsScopes
  chain : ∀ e, (sub.chain e).KeepsScopes
  stmt : ∀ t, (sub.stmt t).Declaring
  call : ∀ f args, (sub.call f args).KeepsScopes

namespace EvalM

variable {ctx : Context} {sub : Interpreter} {mode : BindMode} {v : Value}

theorem KeepsScopes.startName (name : String) (v : Value) : (EvalM.startName name v).KeepsScopes := by
  intro s
  cases found : s.env.find? name with
  | none => rw [stateAfter, startName_of_none v found]
  | some b => rw [stateAfter_of_ok (startName_of_find? v found)]

theorem KeepsScopes.assignName (ctx : Context) (name : String) (v : Value) :
    (EvalM.assignName ctx name v).KeepsScopes := by
  intro s
  have value : Value.Alike Zone.all.pairing v v := Zone.alike_all v
  have sim : (Correspondence.mirror ctx).Sim .expression _ () (EvalM.assignName ctx name v)
      (EvalM.assignName ctx name v) s s :=
    Correspondence.Sim.assignName (Correspondence.mirror_at_nil s) value (.inr trivial)
  exact keeps_of_mirror sim

/-- A name that the scope has gets its first value. -/
theorem bindName_of_present (kind : BindingKind) (v : Value) (there : s.env.containsInScope name = true) :
    bindName ctx (.declare kind) name v s = EvalM.startName name v s := by
  simp only [bindName, readEnv, there, Bind.bind, EStateM.bind, if_true]

/-- A name that the scope does not have is bound in it. -/
theorem bindName_of_absent (kind : BindingKind) (v : Value) (absent : s.env.containsInScope name = false) :
    bindName ctx (.declare kind) name v s = .ok () (s.defining name v kind) := by
  simp only [bindName, readEnv, absent, Bind.bind, EStateM.bind, Bool.false_eq_true, if_false]
  rfl

/-- Only modes that introduce names declare one. Assignments leave the scopes as they are. -/
theorem bindName_declares (mode : BindMode) (name : String) (v : Value) :
    (bindName ctx mode name v).Declares (mode.introduces [name]) := by
  cases mode with
  | assign => exact (KeepsScopes.assignName ctx name v).declares
  | declare kind =>
    have after : ∀ s : State, s.env.frameStart ≤ s.env.bindings.size →
        s.Declares [name] ((bindName ctx (.declare kind) name v).stateAfter s) := by
      intro s inside
      cases there : s.env.containsInScope name with
      | true =>
        rw [stateAfter, bindName_of_present kind v there]
        exact .present there (KeepsScopes.startName name v s)
      | false =>
        rw [stateAfter_of_ok (bindName_of_absent kind v there)]
        exact .defining there inside rfl
    exact ⟨fun s inside => ⟨_, after s inside⟩, fun inside run => stateAfter_of_ok run ▸ after _ inside⟩

theorem nothing_declares (mode : BindMode) : (Pure.pure () : EvalM Unit).Declares (mode.introduces []) := by
  cases mode <;> exact KeepsScopes.declares fun _ => rfl

theorem withDefault_keepsScopes (sub : Interpreter) (keeps : sub.Scoped) (v : Value) (default : Option Expr) :
    (withDefault sub v default).KeepsScopes := by
  unfold withDefault
  cases default with
  | none => cases v <;> exact fun _ => rfl
  | some e =>
    cases v with
    | undefined => exact keeps.expr e
    | _ => exact fun _ => rfl

theorem iterate_keepsScopes (v : Value) : (iterate v).KeepsScopes := by
  cases v <;> exact fun _ => rfl

mutual

/-- A pattern declares the names it binds. -/
theorem bindPattern_declares (keeps : sub.Scoped) (mode : BindMode) : ∀ (p : Pattern) (v : Value),
    (bindPattern ctx sub mode p v).Declares (mode.introduces p.boundNames)
  | .name id, v => bindName_declares mode id v
  | .array elements rest, v => by
    unfold Pattern.boundNames bindPattern
    rw [BindMode.introduces_append]
    refine .andThen (iterate_keepsScopes v) fun items => ?_
    exact .bind (bindElements_declares keeps mode items elements 0) fun _ =>
      bindRest_declares keeps mode items elements.length rest
  | .object fields rest, v => by
    unfold Pattern.boundNames bindPattern
    rw [BindMode.introduces_append]
    have each : (bindFields ctx sub mode v fields).Declares _ := bindFields_declares keeps mode v fields
    cases rest with
    | none =>
      have whole := each.bind fun _ => nothing_declares mode
      exact .ite (.andThen (.readHeap _) fun text => .typeFault_bind _ _) whole
    | some name =>
      have last : ∀ object, (bindName ctx mode name object).Declares (mode.introduces [name]) :=
        bindName_declares mode name
      have whole := each.bind fun _ => .andThen (.readHeap (remainingProperties · v fields)) fun entries =>
        .andThen (.allocate (·.newObject entries)) last
      exact .ite (.andThen (.readHeap _) fun text => .typeFault_bind _ _) whole

theorem bindElements_declares (keeps : sub.Scoped) (mode : BindMode) (items : Array Value) :
    ∀ (elements : List (Option Element)) (i : Nat),
    (bindElements ctx sub mode items i elements).Declares (mode.introduces (Pattern.elementNames elements))
  | [], _ => nothing_declares mode
  | none :: more, i => by
    unfold bindElements
    exact bindElements_declares keeps mode items more (i + 1)
  | some (.mk target default) :: more, i => by
    unfold Pattern.elementNames bindElements
    rw [BindMode.introduces_append]
    refine .andThen (withDefault_keepsScopes sub keeps _ default) fun item => ?_
    exact .bind (bindPattern_declares keeps mode target item) fun _ =>
      bindElements_declares keeps mode items more (i + 1)

theorem bindRest_declares (keeps : sub.Scoped) (mode : BindMode) (items : Array Value) (taken : Nat) :
    ∀ rest : Option Pattern,
    (bindRest ctx sub mode items taken rest).Declares (mode.introduces (Pattern.restNames rest))
  | none => nothing_declares mode
  | some p => by
    unfold Pattern.restNames bindRest
    exact .andThen (.allocate _) fun remaining => bindPattern_declares keeps mode p remaining

theorem bindFields_declares (keeps : sub.Scoped) (mode : BindMode) (v : Value) : ∀ fields : List Field,
    (bindFields ctx sub mode v fields).Declares (mode.introduces (Pattern.fieldNames fields))
  | [] => nothing_declares mode
  | .mk key target default :: more => by
    unfold Pattern.fieldNames bindFields
    rw [BindMode.introduces_append]
    refine .andThen (.readHeap _) fun found => .andThen (withDefault_keepsScopes sub keeps found default) fun item => ?_
    exact .bind (bindPattern_declares keeps mode target item) fun _ => bindFields_declares keeps mode v more

end

/-! ## Declarations -/

theorem evalInit_keepsScopes (keeps : sub.Scoped) (p : Pattern) (e : Expr) : (evalInit sub p e).KeepsScopes := by
  cases p with
  | name id => cases e <;> first | exact fun _ => rfl | exact keeps.expr _
  | _ => exact keeps.expr e

/-- The names that a declaration of the kind declares where it stands; those of `var` have been hoisted. -/
theorem evalDeclarator_declares (keeps : sub.Scoped) (kind : DeclKind) (d : Declarator) :
    (evalDeclarator ctx sub kind d).Declares (kind.mode.introduces d.pattern.boundNames) := by
  obtain ⟨pattern, init⟩ := d
  unfold evalDeclarator
  cases init with
  | none =>
    cases kind with
    | var => exact KeepsScopes.declares fun _ => rfl
    | _ => exact bindPattern_declares keeps _ pattern .undefined
  | some init =>
    exact .andThen (evalInit_keepsScopes keeps pattern init) fun v => bindPattern_declares keeps _ pattern v

theorem evalDeclaration_declares (keeps : sub.Scoped) (kind : DeclKind) (declarators : List Declarator) :
    (evalDeclaration ctx sub kind declarators).Declares (kind.mode.introduces (Declarator.boundNames declarators)) := by
  unfold evalDeclaration
  induction declarators with
  | nil => exact nothing_declares _
  | cons d more ih =>
    unfold List.forM
    rw [Declarator.boundNames, List.flatMap_cons, BindMode.introduces_append]
    exact .bind (evalDeclarator_declares keeps kind d) fun _ => ih

end EvalM

end BindScript

/-!
## Statements only declare names

A block, a loop with a head, a `switch` and a handler have scopes of their own, which are gone when they end. What is
left are declarations, and statements that run others where they stand themselves. So whatever a statement does to the
scope that it stands in, it only declares names there (`stmtStep_declaring`): none of the names that the scope has is
ever hidden by a second binding, however the statement ends (`interpreter_scoped`).
-/

namespace BindScript

namespace EvalM

variable {ctx : Context} {sub : Interpreter} {s : State}

/-! ### Joining steps -/

theorem KeepsScopes.resume {α : Type} (result : Except Exit α) : (EvalM.resume result).KeepsScopes := by
  cases result <;> exact fun _ => rfl

theorem KeepsScopes.checkInterrupt : EvalM.checkInterrupt.KeepsScopes := by
  intro s
  cases raised : s.interrupted <;> simp [stateAfter, EvalM.checkInterrupt, raised]

namespace Declaring

theorem repeatWhile {turn : EvalM Bool} (step : turn.Declaring) (turns : Nat) :
    (EvalM.repeatWhile turn turns).Declaring := by
  induction turns with
  | zero => exact KeepsScopes.declaring fun _ => rfl
  | succ turns ih =>
    unfold EvalM.repeatWhile
    refine .andThen .checkInterrupt fun _ => step.bind fun again => .ite ih ?_
    exact KeepsScopes.declaring fun _ => rfl

theorem visitAll {visit : Value → EvalM Bool} (each : ∀ v, (visit v).Declaring) (items : List Value) :
    (EvalM.visitAll visit items).Declaring := by
  induction items with
  | nil => exact KeepsScopes.declaring fun _ => rfl
  | cons item rest ih =>
    unfold EvalM.visitAll
    refine .andThen .checkInterrupt fun _ => (each item).bind fun again => .ite ih ?_
    exact KeepsScopes.declaring fun _ => rfl

theorem visitArray {visit : Value → EvalM Bool} (each : ∀ v, (visit v).Declaring) (a turns i : Nat) :
    (EvalM.visitArray a visit turns i).Declaring := by
  induction turns generalizing i with
  | zero => exact KeepsScopes.declaring fun _ => rfl
  | succ turns ih =>
    unfold EvalM.visitArray
    refine .andThen .checkInterrupt fun _ => .andThen (.readHeap _) fun item => ?_
    cases item with
    | none => exact KeepsScopes.declaring fun _ => rfl
    | some item =>
      refine (each item).bind fun again => .ite (ih (i + 1)) ?_
      exact KeepsScopes.declaring fun _ => rfl

/-- What a statement gives when it has no value of its own. -/
theorem ended {x : EvalM Unit} (step : x.Declaring) : (do x; return Value.undefined).Declaring :=
  step.bind fun _ => KeepsScopes.declaring fun _ => rfl

end Declaring

/-! ### Parts of statements -/

theorem runBody_declaring (keeps : sub.Scoped) (body : Stmt) : (runBody sub body).Declaring := by
  unfold runBody
  refine (Declaring.attempt (keeps.stmt body)).bind fun result => ?_
  split <;> exact KeepsScopes.declaring fun _ => rfl

theorem evalStatements_inScope (self : sub.Spares noCells) (statements : List Stmt) :
    (inScope (evalStatements sub statements)).KeepsScopes := by
  have composed : Composed { locals := .undefined, app := .undefined } (Stmt.varNamesList statements)
      fun sub => evalStatements sub statements := .evalStatements (List.Subset.refl _)
  exact .inScope (composed.spares self)

theorem evalFor_keepsScopes (self : sub.Spares noCells) (init : ForInit) (test update : Option Expr) (body : Stmt) :
    (evalFor ctx sub init test update body).KeepsScopes := by
  have composed : Composed ctx body.varNames fun sub => (do
      let names ← evalForInit ctx sub init
      repeatWhile (forTurn sub names test update body) sub.turns) :=
    .bind (.evalForInit init) fun names => .allTurns (.forTurn names test update (List.Subset.refl _))
  rw [evalFor_eq]
  exact .inScope (composed.spares self)

theorem visitItem_keepsScopes (self : sub.Spares noCells) (kind : Option DeclKind) (pattern : Pattern) (body : Stmt)
    (item : Value) : (visitItem ctx sub kind pattern body item).KeepsScopes := by
  refine .inScope (.bind ?_ fun _ _ _ _ => ?_)
  · exact (Composed.bindPattern _ pattern item : Composed ctx [] _).spares self
  · exact (Composed.runBody (List.Subset.refl body.varNames) : Composed ctx _ _).spares self

theorem evalForEach_declaring {visit : Value → EvalM Bool} (each : ∀ v, (visit v).Declaring) (visits : EachKind)
    (collection : Value) : (evalForEach sub visits visit collection).Declaring := by
  have all : (do visitAll visit (← iterate collection).toList).Declaring :=
    .andThen (iterate_keepsScopes collection) fun items => .visitAll each items.toList
  unfold evalForEach
  cases visits with
  | keys => exact .andThen (.readHeap _) fun keys => .visitAll each _
  | items =>
    cases collection with
    | array a => exact .visitArray each a _ 0
    | _ => exact all

theorem evalSwitch_declaring (keeps : sub.Scoped) (self : sub.Spares noCells) (discriminant : Expr)
    (cases : List Case) : (evalSwitch sub discriminant cases).Declaring := by
  have composed : ∀ value, Composed { locals := .undefined, app := .undefined } (Case.varNames cases) _ :=
    fun value => .switchBody value (List.Subset.refl _)
  exact .andThen (keeps.expr discriminant) fun value =>
    KeepsScopes.declaring (.inScope ((composed value).spares self))

/-- A handler has a scope of its own, so it declares nothing around it. -/
theorem handle_declaring (self : sub.Spares noCells) (handler : Option Handler) (result : Except Exit Value) :
    (handle sub handler result).Declaring := by
  have unhandled : (Pure.pure result : EvalM (Except Exit Value)).Declaring := KeepsScopes.declaring fun _ => rfl
  cases handler with
  | none => cases result with
    | ok v => exact unhandled
    | error e => cases e <;> exact unhandled
  | some handler =>
    obtain ⟨param, body⟩ := handler
    cases result with
    | ok v => exact unhandled
    | error e =>
      cases e with
      | error failure =>
        have composed : ∀ caught, Composed { locals := .undefined, app := .undefined } (Stmt.varNamesList body) _ :=
          fun caught => .handlerBody param caught (List.Subset.refl _)
        have caught : (caughtValue failure).KeepsScopes := by cases failure <;> exact fun _ => rfl
        refine .ite (.andThen caught fun caught => KeepsScopes.declaring ?_) unhandled
        exact .attempt (.inScope ((composed caught).spares self))
      | _ => exact unhandled

/-- Blocks, handlers and finalizers declare nothing around them. -/
theorem evalAttempt_declaring (self : sub.Spares noCells) (statements : List Stmt) (handler : Option Handler)
    (finalizer : Option (List Stmt)) : (evalAttempt sub statements handler finalizer).Declaring := by
  unfold evalAttempt
  refine .andThen (.attempt (evalStatements_inScope self statements)) fun ended => ?_
  refine (handle_declaring self handler ended).bind fun result => ?_
  have resumed : (EvalM.resume result).Declaring := (KeepsScopes.resume result).declaring
  cases finalizer with
  | none => cases result with
    | ok v => exact resumed
    | error e => cases e <;> exact resumed
  | some final =>
    have finished : (do Functor.discard (inScope (evalStatements sub final)); EvalM.resume result).Declaring :=
      (evalStatements_inScope self final).declaring.discard.bind fun _ => resumed
    cases result with
    | ok v => exact finished
    | error e => cases e <;> first | exact resumed | exact finished

/-! ### All statements -/

/-- A function on its own is hoisted where it stands, unless the scope has its name. -/
theorem function_declaring (name : String) (definition : Function) :
    (do if !(← readEnv (·.containsInScope name)) then hoistLexical [.function name definition]
        return Value.undefined).Declaring := by
  intro s inside
  have read : readEnv (·.containsInScope name) s = .ok (s.env.containsInScope name) s := rfl
  rw [stateAfter, bind_of_ok read]
  cases there : s.env.containsInScope name with
  | true => exact ⟨[], .of_env rfl⟩
  | false => exact ⟨[name], .defining there inside rfl⟩

/-- Only declarations and functions declare names. What other statements declare goes with their scopes. -/
theorem stmtStep_declaring (keeps : sub.Scoped) (self : sub.Spares noCells) (t : Stmt) :
    (stmtStep ctx sub t).Declaring := by
  have expr : ∀ e, (sub.expr e).Declaring := fun e => (keeps.expr e).declaring
  unfold stmtStep
  refine .andThen .checkInterrupt fun _ => ?_
  cases t with
  | empty | brk | cont => exact KeepsScopes.declaring fun _ => rfl
  | expr e => exact expr e
  | throw e => exact (expr e).bind fun v => KeepsScopes.declaring fun _ => rfl
  | ret e =>
    cases e with
    | none => exact KeepsScopes.declaring fun _ => rfl
    | some e => exact (expr e).bind fun v => KeepsScopes.declaring fun _ => rfl
  | block statements => exact (evalStatements_inScope self statements).declaring
  | declare kind declarators => exact .ended (evalDeclaration_declares keeps kind declarators).declaring
  | branch test consequent alternate =>
    refine (expr test).bind fun _ => .ite (keeps.stmt consequent) ?_
    cases alternate with
    | none => exact KeepsScopes.declaring fun _ => rfl
    | some t => exact keeps.stmt t
  | whileLoop test body =>
    refine .ended (.repeatWhile ((expr test).bind fun _ => .ite ?_ (runBody_declaring keeps body)) _)
    exact KeepsScopes.declaring fun _ => rfl
  | doWhile body test =>
    refine .ended (.repeatWhile ((runBody_declaring keeps body).bind fun _ => .ite ?_ ?_) _)
    · exact KeepsScopes.declaring fun _ => rfl
    · exact (expr test).bind fun _ => KeepsScopes.declaring fun _ => rfl
  -- what a head declares is in a block of its own, so the loop declares nothing around it
  | forLoop init test update body => exact .ended (evalFor_keepsScopes self init test update body).declaring
  | forEach visits kind pattern object body =>
    refine (expr object).bind fun collection => .ended (evalForEach_declaring (fun item => ?_) visits collection)
    exact (visitItem_keepsScopes self kind pattern body item).declaring
  | attempt statements handler finalizer => exact evalAttempt_declaring self statements handler finalizer
  | switch discriminant cases => exact .ended (evalSwitch_declaring keeps self discriminant cases)
  | function name definition => exact function_declaring name definition

end EvalM

section Interpreter

variable (ctx : Context) (levels : Nat)

theorem interpreter_expr_keepsScopes (e : Expr) : ((interpreter ctx levels).expr e).KeepsScopes := by
  intro s
  have sim := (Correspondence.mirror_interpreter ctx levels).expr (m := .expression) (Correspondence.mirror_at_nil s)
    (e.within_all [])
  exact EvalM.keeps_of_mirror sim

theorem interpreter_chain_keepsScopes (e : Expr) : ((interpreter ctx levels).chain e).KeepsScopes := by
  intro s
  have sim := (Correspondence.mirror_interpreter ctx levels).chain (m := .expression) (Correspondence.mirror_at_nil s)
    (e.within_all [])
  exact EvalM.keeps_of_mirror sim

theorem interpreter_call_keepsScopes (f : Value) (args : List Value) :
    ((interpreter ctx levels).call f args).KeepsScopes := by
  intro s
  have given : Value.AllAlike Zone.all.pairing args args :=
    Zone.allAlike_iff.2 ⟨rfl, fun v _ => Zone.holds_all v⟩
  have sim := (Correspondence.mirror_interpreter ctx levels).call (m := .expression) (Correspondence.mirror_at_nil s)
    (Zone.alike_all f) given
  exact EvalM.keeps_of_mirror sim

/-- **No statement hides a name of the scope that it stands in.** Expressions and calls leave the scopes as they are. -/
theorem interpreter_scoped : (interpreter ctx levels).Scoped where
  expr := interpreter_expr_keepsScopes ctx levels
  chain := interpreter_chain_keepsScopes ctx levels
  call := interpreter_call_keepsScopes ctx levels
  stmt := by
    induction levels with
    | zero => exact fun t => EvalM.KeepsScopes.declaring fun _ => rfl
    | succ levels ih =>
      have keeps : (interpreter ctx levels).Scoped := ⟨interpreter_expr_keepsScopes ctx levels,
        interpreter_chain_keepsScopes ctx levels, ih, interpreter_call_keepsScopes ctx levels⟩
      exact fun t => EvalM.stmtStep_declaring keeps (interpreter_spares ctx levels) t

end Interpreter

end BindScript
