import BindScript.Proofs.Composed.Cells
import BindScript.Proofs.Control.Constructs

/-!
# What a run does where names are bound

Names that the scopes have once are there from then on (`State.Spares.names`), until the scope is left. So what a step
does while it knows that names are bound can be told apart from what it would do if they were not. `Agree names x y`
says that two steps are the same from all states in which the names are bound.

Two interpreters that differ only in what they do for statements whose variables have not been hoisted are the same to
all composed steps (`Composed.agree`).
-/

namespace BindScript

/-- Names that have been declared are bound. -/
theorem EvalM.names_of_declareNames {kind : BindingKind} {names : List String} {s t : State}
    (run : names.forM (declareName kind) s = .ok () t) : names ⊆ t.env.names := by
  let ctx : Context := { locals := .undefined, app := .undefined }
  have state : (Correspondence.mirror ctx).At [] () s s := Correspondence.mirror_at_nil s
  have bound := result_of_mirror (Correspondence.Sim.declareNames kind names state) run
  exact fun n mem => bound n mem

/-- The steps are the same from all states in which the names are bound. -/
def EvalM.Agree {α : Type} (names : List String) (x y : EvalM α) : Prop :=
  ∀ s : State, names ⊆ s.env.names → x s = y s

namespace EvalM.Agree

variable {α β : Type} {names : List String} {x y : EvalM α} {f g : α → EvalM β}

theorem refl (x : EvalM α) : Agree names x x :=
  fun _ _ => rfl

theorem mono {more : List String} (within : names ⊆ more) (agree : Agree names x y) : Agree more x y :=
  fun s bound => agree s (List.Subset.trans within bound)

/-- The names are still bound after the first step. -/
theorem bindGiven (first : Agree names x y) (kept : x.Spares noCells)
    (next : ∀ a s t, x s = .ok a t → Agree names (f a) (g a)) : Agree names (x >>= f) (y >>= g) := by
  intro s bound
  have same := first s bound
  cases run : x s with
  | error e t => rw [bind_of_error run, bind_of_error (same ▸ run)]
  | ok a t =>
    have later := kept s s.apart_noCells
    rw [stateAfter_of_ok run] at later
    rw [bind_of_ok run, bind_of_ok (same ▸ run)]
    exact next a s t run t fun n mem => later.names (bound mem)

theorem bind (first : Agree names x y) (kept : x.Spares noCells) (next : ∀ a, Agree names (f a) (g a)) :
    Agree names (x >>= f) (y >>= g) :=
  bindGiven first kept fun a _ _ _ => next a

theorem inEnvironment {env : Environment} (agree : Agree names x y) (bound : names ⊆ env.names) (s : State) :
    EvalM.inEnvironment env x s = EvalM.inEnvironment env y s := by
  have same : x { s with env } = y { s with env } := agree _ bound
  rw [inEnvironment_apply, inEnvironment_apply, same]

theorem inScope (agree : Agree names x y) : Agree names (EvalM.inScope x) (EvalM.inScope y) := by
  intro s bound
  have same : x { s with env := s.env.push } = y { s with env := s.env.push } := agree _ bound
  rw [Watch.inScope_eq, Watch.inScope_eq, same]

theorem attempt (agree : Agree names x y) : Agree names (EvalM.attempt x) (EvalM.attempt y) := by
  intro s bound
  simp only [EvalM.attempt, agree s bound]

theorem ite {c : Prop} [Decidable c] {x' y' : EvalM α} (yes : Agree names x x') (no : Agree names y y') :
    Agree names (if c then x else y) (if c then x' else y') := by
  split
  · exact yes
  · exact no

theorem forM {f g : α → EvalM Unit} {items : List α} (each : ∀ a ∈ items, Agree names (f a) (g a))
    (kept : ∀ a, (f a).Spares noCells) : Agree names (items.forM f) (items.forM g) := by
  induction items with
  | nil => exact .refl _
  | cons a more ih =>
    obtain ⟨head, tail⟩ := List.forall_mem_cons.1 each
    unfold List.forM
    exact .bind head (kept a) fun _ => ih tail

/-- Names that are declared are bound in what follows. -/
theorem declaring (kind : BindingKind) {declared : List String} (next : Agree (declared ++ names) x y) :
    Agree names (declared.forM (EvalM.declareName kind) >>= fun _ => x)
      (declared.forM (EvalM.declareName kind) >>= fun _ => y) := by
  intro s bound
  cases run : declared.forM (EvalM.declareName kind) s with
  | error e t => rw [bind_of_error run, bind_of_error run]
  | ok _ t =>
    have later : s.Spares noCells t := by
      rw [← stateAfter_of_ok run]
      exact Spares.forM (fun name _ => .declareName kind name) s s.apart_noCells
    rw [bind_of_ok run, bind_of_ok run]
    exact next t (List.append_subset.2 ⟨names_of_declareNames run, fun n mem => later.names (bound mem)⟩)

end EvalM.Agree

/-! ## Two interpreters -/

/-- The interpreters differ at most for statements whose variables are not bound. -/
structure Interpreter.AgreeHoisted (sub₁ sub₂ : Interpreter) : Prop where
  turns : sub₁.turns = sub₂.turns
  expr : ∀ e, sub₁.expr e = sub₂.expr e
  chain : ∀ e, sub₁.chain e = sub₂.chain e
  stmt : ∀ t, EvalM.Agree t.varNames (sub₁.stmt t) (sub₂.stmt t)
  call : ∀ f args, sub₁.call f args = sub₂.call f args

variable {ctx : Context} {bound : List String} {α : Type} {x : Interpreter → EvalM α} {sub sub₁ sub₂ : Interpreter}

/-- **A composed step runs only statements whose variables have been hoisted.** -/
theorem Composed.agree (composed : Composed ctx bound x) (self : sub₁.Spares noCells)
    (hoisted : sub₁.AgreeHoisted sub₂) : EvalM.Agree bound (x sub₁) (x sub₂) := by
  induction composed with
  | pure | throw | look | checkInterrupt | note | allocate | define | assignName | startName | hoistLexical =>
    exact .refl _
  | expr e => exact fun s _ => congrFun (hoisted.expr e) s
  | chain e => exact fun s _ => congrFun (hoisted.chain e) s
  | call f args => exact fun s _ => congrFun (hoisted.call f args) s
  | stmt t within => exact (hoisted.stmt t).mono within
  | turns _ ih =>
    beta_reduce
    rw [← hoisted.turns]
    exact ih sub₁.turns
  | bindGiven first gives _ ihx ihf =>
    exact .bindGiven ihx (first.spares self) fun a s t run => ihf a (gives sub₁ s a t run)
  | attempt _ ih => exact .attempt ih
  | inScope _ ih => exact .inScope ih
  | declaring kind names _ ih => exact .declaring kind ih

end BindScript

/-!
## Bound names are not written to the local context

A name that no scope has is written to the local context. One that a scope has is not: what is done with it is the same
for any other local context. Patterns write the names that they bind, declarations and the heads of loops those of their
patterns. So if the variables of a statement have been hoisted, then all that the statement does besides evaluating its
parts is the same for any other local context (`stmtStep_agree`). This leaves out the loops over a collection that
assign to a pattern without declaring it: their names are not hoisted.
-/

namespace BindScript

/-- The statement is a loop over a collection that declares no variables for the items. -/
def Stmt.assignsItems : Stmt → Bool
  | .forEach _ none _ _ _ => true
  | _ => false

namespace EvalM

variable {ctx : Context} {sub : Interpreter} {names : List String} {other : Value}

/-! ### Names and patterns -/

theorem assignName_agree {name : String} (mem : name ∈ names) (v : Value) :
    Agree names (assignName ctx name v) (assignName { ctx with locals := other } name v) := by
  intro s bound
  have there : readEnv (·.contains name) s = .ok true s :=
    congrArg (EStateM.Result.ok · s) (Environment.contains_iff_mem_names.2 (bound mem))
  unfold assignName
  rw [bind_of_ok there, bind_of_ok there]
  rfl

theorem bindName_agree {mode : BindMode} {name : String} (assigns : mode = .assign → name ∈ names) (v : Value) :
    Agree names (bindName ctx mode name v) (bindName { ctx with locals := other } mode name v) := by
  cases mode with
  | declare kind => exact .refl _
  | assign => exact assignName_agree (assigns rfl) v

mutual

/-- Patterns bind alike whatever the local variables are taken to be, where those they assign to are among the names. -/
theorem bindPattern_agree (self : sub.Spares noCells) (mode : BindMode) : ∀ (p : Pattern) (v : Value),
    (mode = .assign → p.boundNames ⊆ names) →
    Agree names (bindPattern ctx sub mode p v) (bindPattern { ctx with locals := other } sub mode p v)
  | .name id, v, assigns => bindName_agree (fun assign => assigns assign (List.mem_singleton.2 rfl)) v
  | .array elements rest, v, assigns => by
    have first : mode = .assign → Pattern.elementNames elements ⊆ names := fun assign =>
      (List.append_subset.1 (assigns assign)).1
    have second : mode = .assign → Pattern.restNames rest ⊆ names := fun assign =>
      (List.append_subset.1 (assigns assign)).2
    unfold bindPattern
    refine .bind (.refl _) (.iterate v) fun items => ?_
    refine .bind (bindElements_agree self mode items elements 0 first) ?_ fun _ => ?_
    · exact (Composed.bindElements mode items elements 0 : Composed ctx [] _).spares self
    · exact bindRest_agree self mode items elements.length rest second
  | .object fields rest, v, assigns => by
    have first : mode = .assign → Pattern.fieldNames fields ⊆ names := fun assign =>
      (List.append_subset.1 (assigns assign)).1
    have second : mode = .assign → rest.toList ⊆ names := fun assign =>
      (List.append_subset.1 (assigns assign)).2
    have each : Agree names (bindFields ctx sub mode v fields)
        (bindFields { ctx with locals := other } sub mode v fields) := bindFields_agree self mode v fields first
    have kept := (Composed.bindFields mode v fields : Composed ctx [] _).spares self
    unfold bindPattern
    cases rest with
    | none =>
      have whole := Agree.bind each kept fun _ => .refl (Pure.pure ())
      refine .ite (.bind (.refl _) (.unchanged (fun _ => rfl) fun _ => rfl) fun text => ?_) whole
      exact .bind (.refl _) (.unchanged (fun _ => rfl) fun _ => rfl) fun _ => whole
    | some name =>
      have last : mode = .assign → name ∈ names := fun assign => second assign (List.mem_singleton.2 rfl)
      have bound : ∀ object, Agree names (bindName ctx mode name object)
          (bindName { ctx with locals := other } mode name object) := bindName_agree last
      have whole := Agree.bind each kept fun _ =>
        .bind (.refl (readHeap (remainingProperties · v fields))) (.unchanged (fun _ => rfl) fun _ => rfl)
          fun entries => .bind (.refl (allocate (·.newObject entries))) (.unchanged (fun _ => rfl) fun _ => rfl) bound
      refine .ite (.bind (.refl _) (.unchanged (fun _ => rfl) fun _ => rfl) fun text => ?_) whole
      exact .bind (.refl _) (.unchanged (fun _ => rfl) fun _ => rfl) fun _ => whole

theorem bindElements_agree (self : sub.Spares noCells) (mode : BindMode) (items : Array Value) :
    ∀ (elements : List (Option Element)) (i : Nat), (mode = .assign → Pattern.elementNames elements ⊆ names) →
    Agree names (bindElements ctx sub mode items i elements)
      (bindElements { ctx with locals := other } sub mode items i elements)
  | [], _, _ => .refl _
  | none :: more, i, assigns => by
    unfold bindElements
    exact bindElements_agree self mode items more (i + 1) assigns
  | some (.mk target default) :: more, i, assigns => by
    unfold bindElements
    refine .bind (.refl _) ((Composed.withDefault _ default : Composed ctx [] _).spares self) fun item => ?_
    refine .bind (bindPattern_agree self mode target item fun assign => ?_)
      ((Composed.bindPattern mode target item : Composed ctx [] _).spares self) fun _ => ?_
    · exact (List.append_subset.1 (assigns assign)).1
    · exact bindElements_agree self mode items more (i + 1) fun assign => (List.append_subset.1 (assigns assign)).2

theorem bindRest_agree (self : sub.Spares noCells) (mode : BindMode) (items : Array Value) (taken : Nat) :
    ∀ rest : Option Pattern, (mode = .assign → Pattern.restNames rest ⊆ names) →
    Agree names (bindRest ctx sub mode items taken rest)
      (bindRest { ctx with locals := other } sub mode items taken rest)
  | none, _ => .refl _
  | some p, assigns => by
    unfold bindRest
    refine .bind (.refl _) ((Composed.newArray _ : Composed ctx [] _).spares self) fun remaining => ?_
    exact bindPattern_agree self mode p remaining assigns

theorem bindFields_agree (self : sub.Spares noCells) (mode : BindMode) (v : Value) :
    ∀ fields : List Field, (mode = .assign → Pattern.fieldNames fields ⊆ names) →
    Agree names (bindFields ctx sub mode v fields) (bindFields { ctx with locals := other } sub mode v fields)
  | [], _ => .refl _
  | .mk key target default :: more, assigns => by
    unfold bindFields
    refine .bind (.refl _) ((Composed.readHeap _ : Composed ctx [] _).spares self) fun found => ?_
    refine .bind (.refl _) ((Composed.withDefault found default : Composed ctx [] _).spares self) fun item => ?_
    refine .bind (bindPattern_agree self mode target item fun assign => ?_)
      ((Composed.bindPattern mode target item : Composed ctx [] _).spares self) fun _ => ?_
    · exact (List.append_subset.1 (assigns assign)).1
    · exact bindFields_agree self mode v more fun assign => (List.append_subset.1 (assigns assign)).2

end

/-! ### Declarations -/

/-- A declaration writes to the locals only by the names it assigns to. -/
theorem evalDeclaration_agree (self : sub.Spares noCells) (kind : DeclKind) {declarators : List Declarator}
    (within : Declarator.varNames kind declarators ⊆ names) :
    Agree names (evalDeclaration ctx sub kind declarators)
      (evalDeclaration { ctx with locals := other } sub kind declarators) := by
  refine .forM (fun d mem => ?_) fun d => ?kept
  case kept => exact (Composed.evalDeclarator kind d : Composed ctx [] _).spares self
  have assigns : kind = .var → d.pattern.boundNames ⊆ names := by
    rintro rfl
    exact fun n bound => within (List.mem_flatMap.2 ⟨d, mem, bound⟩)
  obtain ⟨pattern, init⟩ := d
  unfold evalDeclarator
  cases init with
  | none =>
    refine .ite (.refl _) (bindPattern_agree self _ pattern .undefined nofun)
  | some init =>
    refine .bind (.refl _) ((Composed.evalInit pattern init : Composed ctx [] _).spares self) fun v => ?_
    refine bindPattern_agree self _ pattern v fun assign => assigns ?_
    cases kind <;> first | rfl | cases assign

theorem evalForInit_agree (self : sub.Spares noCells) {init : ForInit} (within : ForInit.varNames init ⊆ names) :
    Agree names (evalForInit ctx sub init) (evalForInit { ctx with locals := other } sub init) := by
  cases init with
  | none | expr => exact .refl _
  | declare kind declarators =>
    refine .bind (evalDeclaration_agree self kind within) ?_ fun _ => .refl _
    exact (Composed.evalDeclaration kind declarators : Composed ctx [] _).spares self

/-! ### Loops -/

theorem evalFor_agree (self : sub.Spares noCells) {init : ForInit} (within : ForInit.varNames init ⊆ names)
    (test update : Option Expr) (body : Stmt) :
    Agree names (evalFor ctx sub init test update body)
      (evalFor { ctx with locals := other } sub init test update body) := by
  refine .inScope (.bind (evalForInit_agree self within) ?_ fun _ => .refl _)
  exact (Composed.evalForInit init : Composed ctx [] _).spares self

theorem visitItem_agree (self : sub.Spares noCells) {kind : DeclKind} {pattern : Pattern} {body : Stmt}
    (within : kind = .var → pattern.boundNames ⊆ names) (item : Value) :
    Agree names (visitItem ctx sub (some kind) pattern body item)
      (visitItem { ctx with locals := other } sub (some kind) pattern body item) := by
  refine .inScope (.bind (bindPattern_agree self _ pattern item fun assign => within ?_) ?_ fun _ => .refl _)
  · cases kind <;> first | rfl | cases assign
  · exact (Composed.bindPattern _ pattern item : Composed ctx [] _).spares self

theorem visitAll_agree {visit visit' : Value → EvalM Bool} (each : ∀ v, Agree names (visit v) (visit' v))
    (kept : ∀ v, (visit v).Spares noCells) (items : List Value) :
    Agree names (visitAll visit items) (visitAll visit' items) := by
  induction items with
  | nil => exact .refl _
  | cons item rest ih =>
    unfold visitAll
    refine .bind (.refl _) .checkInterrupt fun _ => ?_
    exact .bind (each item) (kept item) fun again => .ite ih (.refl _)

theorem visitArray_agree {visit visit' : Value → EvalM Bool} (each : ∀ v, Agree names (visit v) (visit' v))
    (kept : ∀ v, (visit v).Spares noCells) (a turns i : Nat) :
    Agree names (visitArray a visit turns i) (visitArray a visit' turns i) := by
  induction turns generalizing i with
  | zero => exact .refl _
  | succ turns ih =>
    unfold visitArray
    refine .bind (.refl _) .checkInterrupt fun _ => ?_
    refine .bind (.refl _) (.unchanged (fun _ => rfl) fun _ => rfl) fun item => ?_
    cases item with
    | none => exact .refl _
    | some item => exact .bind (each item) (kept item) fun again => .ite (ih (i + 1)) (.refl _)

/-- Which items are visited does not depend on the locals. -/
theorem evalForEach_agree {visit visit' : Value → EvalM Bool} (each : ∀ v, Agree names (visit v) (visit' v))
    (kept : ∀ v, (visit v).Spares noCells) (visits : EachKind) (collection : Value) :
    Agree names (evalForEach sub visits visit collection) (evalForEach sub visits visit' collection) := by
  have all : Agree names (do visitAll visit (← iterate collection).toList)
      (do visitAll visit' (← iterate collection).toList) :=
    .bind (.refl _) (.iterate collection) fun items => visitAll_agree each kept items.toList
  unfold evalForEach
  cases visits with
  | keys =>
    refine .bind (.refl _) (.unchanged (fun _ => rfl) fun _ => rfl) fun keys => ?_
    exact visitAll_agree each kept _
  | items =>
    cases collection with
    | array a => exact visitArray_agree each kept a _ 0
    | _ => exact all

/-! ### Statements -/

/-- **Statements do not reach the local context by what they declare.** -/
theorem stmtStep_agree (self : sub.Spares noCells) {t : Stmt} (declares : t.assignsItems = false) (other : Value) :
    Agree t.varNames (stmtStep ctx sub t) (stmtStep { ctx with locals := other } sub t) := by
  unfold stmtStep
  refine .bind (.refl _) .checkInterrupt fun _ => ?_
  cases t with
  | declare kind declarators =>
    refine .bind (evalDeclaration_agree self kind (List.Subset.refl _)) ?_ fun _ => .refl _
    exact (Composed.evalDeclaration kind declarators : Composed ctx [] _).spares self
  | forLoop init test update body =>
    have within : ForInit.varNames init ⊆ (Stmt.forLoop init test update body).varNames :=
      List.subset_append_left _ _
    refine .bind (evalFor_agree self within test update body) ?_ fun _ => .refl _
    exact (Composed.evalFor init test update (List.Subset.refl body.varNames)).spares self
  | forEach visits kind pattern object body =>
    cases kind with
    | none => cases declares
    | some kind =>
      have hoisted := List.Subset.refl body.varNames
      refine .bind (.refl _) (self (.expr object)) fun collection => .bind ?_ ?_ fun _ => .refl _
      · refine evalForEach_agree (fun item => visitItem_agree self (fun isVar => ?_) item) (fun item => ?_) visits _
        · subst isVar
          exact List.subset_append_left _ _
        · exact (Composed.visitItem (some kind) pattern hoisted item).spares self
      · exact (Composed.evalForEach visits (fun item => .visitItem (some kind) pattern hoisted item) _).spares self
  | ret e => cases e <;> exact .refl _
  | _ => exact .refl _

end EvalM

end BindScript
