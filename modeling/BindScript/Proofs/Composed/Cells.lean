import BindScript.Proofs.Composed.Statement
import BindScript.Proofs.Lockstep.Interpreter
import BindScript.Proofs.Watch.Declaration

/-!
# Cells that a run leaves alone

The cells of variables are written through names, and a name means a binding of the scopes. So a run cannot write what
no binding of its scopes has: cells may be set aside (`State.Apart`), and then a composed step leaves them alone if the
interpreter does (`Composed.spares`). What is bound on the way has new cells.

Calls leave the scopes for those that a closure has captured. A call leaves the cells alone as well, unless the closure
has captured one of them (`callStep_spares`). With no cells set aside this is about all calls, and says of whole runs
that the cells of new bindings are new (`interpreter_spares`).
-/

namespace BindScript

variable {aside : Nat → Prop} {s t u : State} {cell : Nat}

/-- The cells are there, and no binding of the scopes has one of them. -/
structure State.Apart (aside : Nat → Prop) (s : State) : Prop where
  there : ∀ c, aside c → c < s.heap.cells.size
  unbound : ∀ b ∈ s.env.bindings.toList, ¬aside b.cell

/-- The bindings have cells of their own, which are in the second state and not in the first one. -/
structure State.FreshIn (s t : State) (added : List Binding) : Prop where
  new : ∀ b ∈ added, s.heap.cells.size ≤ b.cell ∧ b.cell < t.heap.cells.size
  distinct : (added.map Binding.cell).Nodup

/-- A state that comes after another one: bindings with new cells have been added to the innermost scope, and the cells
that are set aside have the values that they had. -/
structure State.Spares (aside : Nat → Prop) (s t : State) : Prop where
  env : ∃ added, s.env.Adds t.env added ∧ s.FreshIn t added
  cells : s.heap.cells.size ≤ t.heap.cells.size
  kept : ∀ c, aside c → t.heap.cellAt c = s.heap.cellAt c

/-- From every state in which the cells are set aside, the step leaves them alone. -/
def EvalM.Spares {α : Type} (aside : Nat → Prop) (x : EvalM α) : Prop :=
  ∀ s : State, s.Apart aside → s.Spares aside (x.stateAfter s)

/-- The interpreter leaves the cells alone, whatever it evaluates. -/
def Interpreter.Spares (aside : Nat → Prop) (sub : Interpreter) : Prop :=
  ∀ p : Part, (sub.run p).Spares aside

/-! ## States -/

namespace State.FreshIn

variable {one two : List Binding}

theorem nil (s t : State) : s.FreshIn t [] :=
  ⟨nofun, List.nodup_nil⟩

theorem append (first : s.FreshIn t one) (second : t.FreshIn u two) (before : s.heap.cells.size ≤ t.heap.cells.size)
    (after : t.heap.cells.size ≤ u.heap.cells.size) : s.FreshIn u (one ++ two) where
  new := List.forall_mem_append.2
    ⟨fun b mem => ⟨(first.new b mem).1, Nat.lt_of_lt_of_le (first.new b mem).2 after⟩,
      fun b mem => ⟨Nat.le_trans before (second.new b mem).1, (second.new b mem).2⟩⟩
  distinct := by
    rw [List.map_append]
    refine List.nodup_append.2 ⟨first.distinct, second.distinct, ?_⟩
    intro c mem c' mem' same
    obtain ⟨b, inOne, rfl⟩ := List.mem_map.1 mem
    obtain ⟨b', inTwo, rfl⟩ := List.mem_map.1 mem'
    exact Nat.not_lt.2 (second.new b' inTwo).1 (same ▸ (first.new b inOne).2)

end State.FreshIn

namespace State.Spares

theorem of_eq (env : t.env = s.env) (cells : t.heap.cells = s.heap.cells) : s.Spares aside t where
  env := ⟨[], env ▸ .refl s.env, .nil s t⟩
  cells := Nat.le_of_eq (congrArg Array.size cells).symm
  kept c _ := by simp only [Heap.cellAt, cells]

theorem refl (s : State) : s.Spares aside s :=
  of_eq rfl rfl

theorem trans (first : s.Spares aside t) (second : t.Spares aside u) : s.Spares aside u where
  env := by
    obtain ⟨one, adds, new⟩ := first.env
    obtain ⟨two, adds', new'⟩ := second.env
    exact ⟨one ++ two, adds.trans adds', new.append new' first.cells second.cells⟩
  cells := Nat.le_trans first.cells second.cells
  kept c mem := (second.kept c mem).trans (first.kept c mem)

/-- What has been set aside still is. -/
theorem apart (later : s.Spares aside t) (apart : s.Apart aside) : t.Apart aside where
  there c mem := Nat.lt_of_lt_of_le (apart.there c mem) later.cells
  unbound b bound mem := by
    obtain ⟨added, adds, new⟩ := later.env
    rw [adds.bindings] at bound
    rcases List.mem_append.1 bound with before | new'
    · exact apart.unbound b before mem
    · exact Nat.not_le.2 (apart.there b.cell mem) (new.new b new').1

theorem names (later : s.Spares aside t) {name : String} (mem : name ∈ s.env.names) : name ∈ t.env.names := by
  obtain ⟨added, adds, -⟩ := later.env
  exact adds.grows.names mem

/-- A state that comes back to the scopes that it left. -/
theorem back {env : Environment} (later : { s with env }.Spares aside t) : s.Spares aside { t with env := s.env } :=
  ⟨⟨[], .refl s.env, .nil s _⟩, later.cells, later.kept⟩

/-- Leaving the scope that was entered leads back to the same scopes. -/
theorem pop (later : { s with env := s.env.push }.Spares aside t) : t.env.pop = s.env := by
  obtain ⟨added, adds, -⟩ := later.env
  exact Environment.pop_of_grows_push adds.grows

theorem defining (apart : s.Apart aside) (name : String) (v : Value) (kind : BindingKind) :
    s.Spares aside (s.defining name v kind) where
  env := by
    refine ⟨_, s.env.adds_bind name s.heap.cells.size kind, List.forall_mem_singleton.2 ?_, List.nodup_singleton _⟩
    rw [State.size_defining]
    exact ⟨Nat.le_refl _, Nat.lt_succ_self _⟩
  cells := by
    rw [State.size_defining]
    exact Nat.le_succ _
  kept c mem := Heap.cellAt_newCell_of_ne (Nat.ne_of_lt (apart.there c mem))

theorem setCell (other : ¬aside cell) (v : Value) : s.Spares aside { s with heap := s.heap.setCell cell v } where
  env := ⟨[], .refl s.env, .nil s _⟩
  cells := by
    show s.heap.cells.size ≤ (s.heap.cells.setIfInBounds _ _).size
    exact Nat.le_of_eq Array.size_setIfInBounds.symm
  kept c mem := Heap.cellAt_setCell_of_ne (fun same : c = cell => other (same ▸ mem)) v

end State.Spares

theorem State.Apart.inScopes {env : Environment} (apart : s.Apart aside)
    (unbound : ∀ b ∈ env.bindings.toList, ¬aside b.cell) : State.Apart aside { s with env } :=
  ⟨apart.there, unbound⟩

theorem State.Apart.pushed (apart : s.Apart aside) : State.Apart aside { s with env := s.env.push } :=
  apart.inScopes apart.unbound

/-- What a name means is not set aside. -/
theorem State.Apart.find? (apart : s.Apart aside) {name : String} {b : Binding} (found : s.env.find? name = some b) :
    ¬aside b.cell :=
  apart.unbound b (Array.mem_toList_iff.2 (Environment.mem_of_find? found))

/-! ## Steps -/

namespace EvalM

variable {α β : Type} {x : EvalM α} {f : α → EvalM β}

/-- What holds from the beginning of a first step to its end, and from there to the end of what comes after it, holds
from the beginning to the end. -/
theorem stateAfter_bind {R : State → State → Prop} (trans : ∀ t u, R s t → R t u → R s u)
    (first : R s (x.stateAfter s)) (next : ∀ a t, x s = .ok a t → R s t → R t ((f a).stateAfter t)) :
    R s ((x >>= f).stateAfter s) := by
  cases run : x s with
  | error e t =>
    rw [stateAfter, run] at first
    rw [stateAfter, bind_of_error run]
    exact first
  | ok a t =>
    rw [stateAfter_of_ok run] at first
    rw [stateAfter, bind_of_ok run]
    exact trans t _ first (next a t run first)

theorem stateAfter_attempt (x : EvalM α) (s : State) : (attempt x).stateAfter s = x.stateAfter s := by
  simp only [stateAfter, attempt]
  cases x s <;> rfl

theorem stateAfter_inScope (x : EvalM α) (s : State) :
    (inScope x).stateAfter s = { x.stateAfter { s with env := s.env.push } with
      env := (x.stateAfter { s with env := s.env.push }).env.pop } := by
  simp only [stateAfter, Watch.inScope_eq]
  cases x { s with env := s.env.push } <;> rfl

theorem stateAfter_inEnvironment (env : Environment) (x : EvalM α) (s : State) :
    (inEnvironment env x).stateAfter s = { x.stateAfter { s with env } with env := s.env } := by
  simp only [stateAfter, inEnvironment_apply]
  cases x { s with env } <;> rfl

/-- The first value of a name is written to the cell that it means. -/
theorem startName_of_find? {name : String} {b : Binding} (v : Value) (found : s.env.find? name = some b) :
    startName name v s = .ok () { s with heap := s.heap.setCell b.cell v } := by
  simp only [startName, readEnv, Environment.initialCell, found, Bind.bind, EStateM.bind]
  rfl

theorem startName_of_none {name : String} (v : Value) (unbound : s.env.find? name = none) :
    startName name v s = .error (.error (.ofEnvironment (.undefinedVariable name))) s := by
  simp only [startName, readEnv, Environment.initialCell, unbound, Bind.bind, EStateM.bind]
  rfl

namespace Spares

/-- The step leaves the variables as they are. -/
theorem unchanged (env : ∀ s, (x.stateAfter s).env = s.env) (cells : ∀ s, (x.stateAfter s).heap.cells = s.heap.cells) :
    x.Spares aside :=
  fun s _ => .of_eq (env s) (cells s)

theorem bind (first : x.Spares aside) (next : ∀ a s t, x s = .ok a t → (f a).Spares aside) :
    (x >>= f).Spares aside := by
  intro s apart
  refine stateAfter_bind (fun _ _ => .trans) (first s apart) fun a t run here => ?_
  exact next a s t run t (here.apart apart)

theorem discard (step : x.Spares aside) : (Functor.discard x).Spares aside :=
  bind (f := fun _ => Pure.pure ()) step fun _ _ _ _ => unchanged (fun _ => rfl) fun _ => rfl

theorem forM {f : α → EvalM Unit} {items : List α} (each : ∀ a ∈ items, (f a).Spares aside) :
    (items.forM f).Spares aside := by
  induction items with
  | nil => exact unchanged (fun _ => rfl) fun _ => rfl
  | cons a more ih =>
    obtain ⟨head, tail⟩ := List.forall_mem_cons.1 each
    unfold List.forM
    exact bind head fun _ _ _ _ => ih tail

theorem checkInterrupt : EvalM.checkInterrupt.Spares aside := by
  intro s _
  have same : EvalM.checkInterrupt.stateAfter s = s := by
    cases raised : s.interrupted <;> simp [stateAfter, EvalM.checkInterrupt, raised]
  rw [same]
  exact .refl s

theorem iterate (v : Value) : (EvalM.iterate v).Spares aside := by
  cases v <;> exact unchanged (fun _ => rfl) fun _ => rfl

theorem define (name : String) (v : Value) (kind : BindingKind) : (EvalM.define name v kind).Spares aside :=
  fun _ apart => .defining apart name v kind

theorem declareName (kind : BindingKind) (name : String) : (EvalM.declareName kind name).Spares aside := by
  have there : (EvalM.readEnv fun env => env.containsInScope name).Spares aside :=
    unchanged (fun _ => rfl) fun _ => rfl
  unfold EvalM.declareName
  refine bind there fun bound _ _ _ => ?_
  cases bound with
  | true => exact unchanged (fun _ => rfl) fun _ => rfl
  | false => exact discard (define name .undefined kind)

theorem startName (name : String) (v : Value) : (EvalM.startName name v).Spares aside := by
  intro s apart
  cases found : s.env.find? name with
  | none =>
    rw [stateAfter, startName_of_none v found]
    exact .refl s
  | some b =>
    rw [stateAfter_of_ok (startName_of_find? v found)]
    exact .setCell (apart.find? found) v

/-- A name that is not bound belongs to the local context, and not to a cell. -/
theorem assignName (ctx : Context) (name : String) (v : Value) : (EvalM.assignName ctx name v).Spares aside := by
  intro s apart
  -- a bound name is written to its cell unless it is constant, any other name to the object of the locals
  cases found : s.env.find? name with
  | some b =>
    have there : s.env.contains name = true := by rw [Environment.contains, found]; rfl
    cases mutable : b.kind.isMutable with
    | true =>
      have run : EvalM.assignName ctx name v s = .ok () { s with heap := s.heap.setCell b.cell v } := by
        simp only [EvalM.assignName, EvalM.readEnv, there, Environment.assignable, found, mutable, Bind.bind,
          EStateM.bind, if_true]
        rfl
      rw [stateAfter_of_ok run]
      exact .setCell (apart.find? found) v
    | false =>
      have run : EvalM.assignName ctx name v s = .error (.error (.ofEnvironment (.immutableBinding name))) s := by
        simp only [EvalM.assignName, EvalM.readEnv, there, Environment.assignable, found, mutable, Bind.bind,
          EStateM.bind, if_true, Bool.false_eq_true, if_false]
        rfl
      rw [stateAfter, run]
      exact .refl s
  | none =>
    have absent : s.env.contains name = false := by rw [Environment.contains, found]; rfl
    have there : EvalM.readEnv (·.contains name) s = .ok false s := congrArg (EStateM.Result.ok · s) absent
    rw [stateAfter, show EvalM.assignName ctx name v s = _ from bind_of_ok there]
    cases ctx.locals with
    | object o =>
      have read : (EvalM.readHeap (·.canSet (.object o) name v)).Spares aside := unchanged (fun _ => rfl) fun _ => rfl
      refine bind read (fun allowed _ _ _ => ?_) s apart
      cases allowed with
      | true => exact unchanged (fun _ => rfl) fun s => (Heap.SameCells.set s.heap (.object o) name v).cells
      | false => exact unchanged (fun _ => rfl) fun _ => rfl
    | _ => exact .refl s

/-- Declarations at the head of a function get cells of their own, and those set aside are left alone. -/
theorem hoistNames (statements : List Stmt) : (EvalM.hoistNames statements).Spares aside := by
  induction statements with
  | nil => exact unchanged (fun _ => rfl) fun _ => rfl
  | cons t rest ih =>
    unfold EvalM.hoistNames
    cases t with
    | declare kind declarators =>
      have names : ((Declarator.boundNames declarators).forM (EvalM.declareName (.ofDecl kind))).Spares aside :=
        forM fun name _ => declareName _ name
      cases kind with
      | var => exact ih
      | _ => exact bind names fun _ _ _ _ => ih
    | function name definition =>
      refine bind (define name .undefined .function) fun _ _ _ _ => ?_
      exact bind ih fun _ _ _ _ => unchanged (fun _ => rfl) fun _ => rfl
    | _ => exact ih

/-- The functions that are hoisted belong in new cells. -/
theorem functions_of_hoistNames {statements : List Stmt} {functions : List (String × Function × Nat)}
    (run : EvalM.hoistNames statements s = .ok functions t) (apart : s.Apart aside) :
    ∀ f ∈ functions, ¬aside f.2.2 := by
  induction statements generalizing s t functions with
  | nil => cases run; exact nofun
  | cons first rest ih =>
    unfold EvalM.hoistNames at run
    cases first with
    | declare kind declarators =>
      have names : ((Declarator.boundNames declarators).forM (EvalM.declareName (.ofDecl kind))).Spares aside :=
        forM fun name _ => declareName _ name
      cases kind with
      | var => exact ih run apart
      | _ =>
        obtain ⟨_, middle, declared, run⟩ := exists_of_bind_ok run
        have later := names s apart
        rw [stateAfter_of_ok declared] at later
        exact ih run (later.apart apart)
    | function name definition =>
      obtain ⟨cell, middle, defined, run⟩ := exists_of_bind_ok run
      cases defined
      obtain ⟨more, after, hoisted, run⟩ := exists_of_bind_ok run
      cases run
      refine List.forall_mem_cons.2 ⟨fun mem => Nat.lt_irrefl _ (apart.there _ mem), ?_⟩
      exact ih hoisted ((State.Spares.defining apart name .undefined .function).apart apart)
    | _ => exact ih run apart

/-- So it is for those of a block. -/
theorem hoistLexical (statements : List Stmt) : (EvalM.hoistLexical statements).Spares aside := by
  intro s apart
  cases run : EvalM.hoistNames statements s with
  | error e t =>
    have later := hoistNames statements s apart
    rw [stateAfter, run] at later
    unfold EvalM.hoistLexical
    rw [stateAfter, bind_of_error run]
    exact later
  | ok functions t =>
    have others := functions_of_hoistNames run apart
    have fill : ∀ f ∈ functions, (EvalM.makeClosure (some f.1) f.2.1 >>= fun closure =>
        EvalM.modifyHeap (·.setCell f.2.2 closure)).Spares aside := by
      refine fun f mem => bind (unchanged (fun _ => rfl) fun _ => rfl) fun closure _ _ _ s _ => ?_
      exact State.Spares.setCell (others f mem) closure
    have later := hoistNames statements s apart
    rw [stateAfter_of_ok run] at later
    unfold EvalM.hoistLexical
    rw [stateAfter, bind_of_ok run]
    exact later.trans (forM fill t (later.apart apart))

/-- A scope that is left takes its bindings with it. -/
theorem inScope (step : x.Spares aside) : (EvalM.inScope x).Spares aside := by
  intro s apart
  have inside := step _ apart.pushed
  rw [stateAfter_inScope, inside.pop]
  exact inside.back

theorem attempt (step : x.Spares aside) : (EvalM.attempt x).Spares aside := by
  intro s apart
  rw [stateAfter_attempt]
  exact step s apart

end Spares

end EvalM

/-! ## Composed steps -/

/-- **A composed step leaves alone what the interpreter leaves alone.** -/
theorem Composed.spares {ctx : Context} {bound : List String} {α : Type} {x : Interpreter → EvalM α}
    {sub : Interpreter} (composed : Composed ctx bound x) (self : sub.Spares aside) : (x sub).Spares aside := by
  induction composed with
  | pure | throw | look => exact .unchanged (fun _ => rfl) fun _ => rfl
  | checkInterrupt => exact .checkInterrupt
  | note f env heap => exact .unchanged env fun s => congrArg Heap.cells (heap s)
  | allocate f cells => exact .unchanged (fun _ => rfl) fun s => cells s.heap
  | define name v kind => exact .define name v kind
  | assignName name v => exact .assignName ctx name v
  | startName name v => exact .startName name v
  | hoistLexical statements => exact .hoistLexical statements
  | expr e => exact self (.expr e)
  | chain e => exact self (.chain e)
  | call f args => exact self (.call f args)
  | stmt t => exact self (.stmt t)
  | turns _ ih => exact ih sub.turns
  | bindGiven _ gives _ ihx ihf => exact .bind ihx fun a s t run => ihf a (gives sub s a t run)
  | attempt _ ih => exact .attempt ih
  | inScope _ ih => exact .inScope ih
  | declaring kind names _ ih => exact .bind (.forM fun name _ => .declareName kind name) fun _ _ _ _ => ih

/-! ## Calls -/

/-- The closure has captured no cell that is set aside. -/
def Closure.Apart (aside : Nat → Prop) (c : Closure) : Prop :=
  ∀ b ∈ c.captured.toList, ¬aside b.cell

variable {ctx : Context} {sub : Interpreter}

/-- A call runs in the scopes that the closure has captured, and comes back. -/
theorem EvalM.callClosure_spares (self : sub.Spares aside) {c : Closure} (captured : c.Apart aside)
    (args : List Value) : (EvalM.callClosure ctx sub c args).Spares aside := by
  intro s apart
  by_cases full : s.env.maxCallDepth ≤ s.env.callDepth
  · rw [stateAfter, callClosure_of_le full]
    exact .refl s
  · let env : Environment := .forCall c.captured (s.env.callDepth + 1) s.env.maxCallDepth
    have inside : State.Apart aside { s with env } := apart.inScopes captured
    have composed : Composed ctx [] fun sub => enteredCall ctx sub c args := .enteredCall c args
    have entered := composed.spares self _ inside
    rw [stateAfter, callClosure_of_lt (Nat.not_le.1 full), ← stateAfter, stateAfter_inEnvironment]
    exact entered.back

theorem EvalM.callStep_spares (self : sub.Spares aside) (callee : Value) (args : List Value) (apart : s.Apart aside)
    (captured : ∀ a, callee = .closure a → (s.heap.closureAt a).Apart aside) :
    s.Spares aside ((EvalM.callStep ctx sub callee args).stateAfter s) := by
  cases callee with
  | native f name =>
    have composed : Composed ctx [] fun _ => f.invoke args := .built (.invoke f args)
    exact composed.spares self s apart
  | closure a => exact callClosure_spares self (captured a rfl) args s apart
  | _ => exact .refl s

/-- What is evaluated leaves the cells alone, but for calls of closures that have captured one of them. -/
theorem Part.step_spares (self : sub.Spares aside) (p : Part) (apart : s.Apart aside)
    (captured : ∀ a args, p = .call (.closure a) args → (s.heap.closureAt a).Apart aside) :
    s.Spares aside ((p.step ctx sub).stateAfter s) := by
  cases p with
  | expr e =>
    have composed : Composed ctx [] fun sub => EvalM.exprStep ctx sub e := .exprStep e
    exact composed.spares self s apart
  | chain e =>
    have composed : Composed ctx [] fun sub => EvalM.chainStep ctx sub e := .chainStep e
    exact composed.spares self s apart
  | stmt t => exact (Composed.stmtStep (List.Subset.refl t.varNames)).spares self s apart
  | call callee args =>
    exact EvalM.callStep_spares self callee args apart fun a same => captured a args (congrArg (Part.call · args) same)

/-- No cells. -/
abbrev noCells : Nat → Prop :=
  fun _ => False

theorem State.apart_noCells (s : State) : s.Apart noCells :=
  ⟨nofun, fun _ _ => id⟩

/-- **What is bound on the way has new cells.** -/
theorem interpreter_spares (ctx : Context) (levels : Nat) : (interpreter ctx levels).Spares noCells := by
  induction levels with
  | zero =>
    intro p s _
    cases p <;> exact .refl s
  | succ levels ih =>
    intro p s apart
    rw [interpreter_run]
    exact p.step_spares ih apart fun _ _ _ _ _ => id

end BindScript
