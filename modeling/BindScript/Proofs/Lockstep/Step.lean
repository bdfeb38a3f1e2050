import BindScript.Proofs.Composed.BuiltIn
import BindScript.Proofs.Control.Dependence
import BindScript.Proofs.Control.Scopes
import BindScript.Proofs.Syntax.Parts

/-!
# Steps in lockstep

The primitive steps go together with themselves, since none of them looks at the limit of nested calls, and so does
what is put together from steps that go together: one lemma for each way in which an evaluation joins steps. Where the
end of a step is looked at, a failure that breaks the lockstep has to remain one (`Ends.attempt_bind`).
-/

/-!
## Runs in lockstep

Two runs that start in the same state, but for the limit of nested calls, go on in the same states and end alike. The
first of them may end with a failure that breaks the lockstep; then nothing is said of the second. Such a failure is
one that no handler takes, so the first run goes on to end with it, and only a finalizer can come in between.

A `Lockstep` says which failures these are, where in the nesting of calls the runs are, and whether they may run out
of levels or break down. `L.Together x₁ x₂` says of a step of the first run and one of the second that they end alike,
and that they keep what a run always keeps: the call depth and its limit, and the interrupt flag once it has been
raised. With a failure that breaks nothing this is about a single run.

Which code the runs are about is said by a `Fragment`. Chains are evaluated link by link, and so a fragment tells
links from other expressions: an interpreter takes two levels to go from a link to the one before it.
-/

namespace BindScript

/-- The same context with another limit of nested calls. -/
def Context.limitedTo (ctx : Context) (limit : Nat) : Context :=
  { ctx with options := { ctx.options with maxCallDepth := limit } }

/-- The same scopes with another limit of nested calls. -/
def Environment.limitedTo (env : Environment) (limit : Nat) : Environment :=
  { env with maxCallDepth := limit }

/-- The same state with another limit of nested calls. -/
def State.limitedTo (s : State) (limit : Nat) : State :=
  { s with env := s.env.limitedTo limit }

/-- What two runs have in common while they go on side by side. -/
structure Lockstep where
  left : Context
  right : Context
  contexts : ∃ limit, right = left.limitedTo limit
  /-- Which call depths, with which limit, the first run may have. -/
  within : Nat → Nat → Prop
  /-- The limit of the second run, given that of the first. -/
  limit : Nat → Nat
  /-- Failures of the first run after which nothing is said of the second. -/
  breaks : EvalError → Prop
  /-- The runs may run out of levels. -/
  exhausts : Prop
  /-- The runs may break down, at a write that clashes with reading what is written. -/
  clashes : Prop
  uncaught : ∀ e, breaks e → e.isCatchable = false
  /-- A call that the first run may make is one that the second may make as well. -/
  enters : ∀ d k, within d k → limit k = k ∨ k ≤ limit k ∧ breaks (.stackOverflow d k)

namespace Lockstep

variable (L : Lockstep)

/-- The states that the first run goes through. -/
def At (s : State) : Prop :=
  L.within s.env.callDepth s.env.maxCallDepth

/-- The state of the second run, given that of the first. -/
def beside (s : State) : State :=
  s.limitedTo (L.limit s.env.maxCallDepth)

/-- A state that the first run may be in after another one. A flag that has been raised stays up. -/
structure Later (s t : State) : Prop where
  state : L.At t
  raised : s.interrupted = true → t.interrupted = true

/-- What a run may end with when it gives no value: an interrupt only if the flag is up. -/
structure Leaves (e : Exit) (t : State) : Prop where
  exhausted : e = .exhausted → L.exhausts
  clash : e = .clash → L.clashes
  interrupted : e = .error .interrupted → t.interrupted = true

/-- How the two runs end. -/
inductive Ends {α : Type} (s : State) : EStateM.Result Exit State α → EStateM.Result Exit State α → Prop
  | ok {a : α} {t : State} (later : L.Later s t) : Ends s (.ok a t) (.ok a (L.beside t))
  | error {e : Exit} {t : State} (later : L.Later s t) (leaves : L.Leaves e t) :
    Ends s (.error e t) (.error e (L.beside t))
  | broken {e : EvalError} {t : State} {r : EStateM.Result Exit State α} (breaks : L.breaks e)
    (later : L.Later s t) (leaves : L.Leaves (.error e) t) : Ends s (.error (.error e) t) r

/-- From every state, the second step ends as the first one does. -/
def Together {α : Type} (x₁ x₂ : EvalM α) : Prop :=
  ∀ s, L.At s → L.Ends s (x₁ s) (x₂ (L.beside s))

/-- The step ends with a failure that breaks the lockstep. -/
def Breaks {α : Type} (x : EvalM α) (s : State) : Prop :=
  ∃ e t, x s = .error (.error e) t ∧ L.breaks e ∧ L.Later s t ∧ L.Leaves (.error e) t

/-- After a failure that breaks the lockstep, the finalizer does not make it forgotten. -/
def Resumes (sub : Interpreter) (finalizer : List Stmt) : Prop :=
  ∀ e t, L.At t → L.breaks e → L.Leaves (.error e) t →
    L.Breaks (do
      discard (EvalM.inScope (EvalM.evalStatements sub finalizer))
      EvalM.resume (.error (.error e)) : EvalM Value) t

/-- Code that the runs may come to, with all its parts. -/
structure Fragment where
  code : Node → Prop
  /-- Links of chains, and what they apply to. -/
  chain : Expr → Prop
  parts : ∀ {x y : Node}, code x → y ∈ x.children → code y
  links : ∀ {x : Node} {e : Expr}, code x → .expr e ∈ x.children → chain e

/-- The parts of a node are code of the fragment. -/
structure Fragment.Below (F : Fragment) (x : Node) : Prop where
  parts : ∀ y ∈ x.children, F.code y
  links : ∀ e, .expr e ∈ x.children → F.chain e

/-- Whatever code of the fragment they evaluate, the interpreters do it together. -/
structure Interprets (F : Fragment) (sub₁ sub₂ : Interpreter) : Prop where
  expr : ∀ e, F.code (.expr e) → L.Together (sub₁.expr e) (sub₂.expr e)
  chain : ∀ e, F.chain e → L.Together (sub₁.chain e) (sub₂.chain e)
  stmt : ∀ s, F.code (.stmt s) → L.Together (sub₁.stmt s) (sub₂.stmt s)
  call : ∀ f args, L.Together (sub₁.call f args) (sub₂.call f args)
  /-- Where there are loops, these are as long. -/
  turns : L.exhausts → sub₁.turns = sub₂.turns
  /-- Where there are loops, the names in their heads stay bound. -/
  alike : L.exhausts → Interpreter.Alike (.mirror L.left) sub₁ sub₁

end Lockstep

end BindScript

/-! ## Steps -/

namespace BindScript

namespace Environment

theorem callDepth_pop (env : Environment) : env.pop.callDepth = env.callDepth := by
  unfold pop
  split <;> rfl

theorem maxCallDepth_pop (env : Environment) : env.pop.maxCallDepth = env.maxCallDepth := by
  unfold pop
  split <;> rfl

theorem pop_limitedTo (env : Environment) (limit : Nat) : (env.limitedTo limit).pop = env.pop.limitedTo limit := by
  have frames : (env.limitedTo limit).frames = env.frames := rfl
  unfold pop
  rw [frames]
  cases env.frames <;> rfl

end Environment

namespace Lockstep

open EvalM

variable {L : Lockstep} {α β : Type} {s t u : State} {e : Exit}

/-! ### States -/

theorem Later.refl (state : L.At s) : L.Later s s :=
  ⟨state, id⟩

theorem Later.trans (first : L.Later s t) (second : L.Later t u) : L.Later s u :=
  ⟨second.state, second.raised ∘ first.raised⟩

/-- A flag that was up is still up, so an exit that was allowed is still allowed. -/
theorem Leaves.later (leaves : L.Leaves e s) (later : L.Later s t) : L.Leaves e t where
  exhausted := leaves.exhausted
  clash := leaves.clash
  interrupted same := later.raised (leaves.interrupted same)

/-- The scope that is left has no part in how deep calls are nested. -/
theorem later_pop (state : L.At s) : L.Later s { s with env := s.env.pop } := by
  refine ⟨?_, id⟩
  show L.within s.env.pop.callDepth s.env.pop.maxCallDepth
  rw [Environment.callDepth_pop, Environment.maxCallDepth_pop]
  exact state

theorem leaves_of_ne (last : e ≠ .exhausted) (sound : e ≠ .clash) (free : e ≠ .error .interrupted) :
    L.Leaves e s :=
  ⟨fun same => absurd same last, fun same => absurd same sound, fun same => absurd same free⟩

theorem Ends.after {r₁ r₂ : EStateM.Result Exit State α} (later : L.Later s t) (ends : L.Ends t r₁ r₂) :
    L.Ends s r₁ r₂ := by
  cases ends with
  | ok next => exact .ok (later.trans next)
  | error next leaves => exact .error (later.trans next) leaves
  | broken breaks next leaves => exact .broken breaks (later.trans next) leaves

/-- After a failure that breaks the lockstep, nothing is asked of the second run. -/
theorem Breaks.ends {x : EvalM α} {r : EStateM.Result Exit State α} (breaks : L.Breaks x s) : L.Ends s (x s) r := by
  obtain ⟨e, t, run, broken, later, leaves⟩ := breaks
  rw [run]
  exact .broken broken later leaves

/-! ### Joining steps at a state -/

namespace Ends

variable {x₁ x₂ : EvalM α} {f₁ f₂ : α → EvalM β}

theorem bind (first : L.Ends s (x₁ s) (x₂ (L.beside s)))
    (next : ∀ a t, x₁ s = .ok a t → L.Later s t → L.Ends t (f₁ a t) (f₂ a (L.beside t))) :
    L.Ends s ((x₁ >>= f₁) s) ((x₂ >>= f₂) (L.beside s)) := by
  show L.Ends s (EStateM.bind x₁ f₁ s) (EStateM.bind x₂ f₂ (L.beside s))
  unfold EStateM.bind
  generalize x₁ s = r₁ at first next ⊢
  generalize x₂ (L.beside s) = r₂ at first ⊢
  cases first with
  | ok later => exact (next _ _ rfl later).after later
  | error later leaves => exact .error later leaves
  | broken breaks later leaves => exact .broken breaks later leaves

private theorem attempted {x : EvalM α} {f : Except Exit α → EvalM β} :
    (EvalM.attempt x >>= f) s = match x s with
      | .ok a t => f (.ok a) t
      | .error e t => f (.error e) t := by
  show EStateM.bind (EvalM.attempt x) f s = _
  unfold EStateM.bind EvalM.attempt
  cases x s <;> rfl

/-- The end of a step decides how to go on. If it breaks the lockstep, so does the whole. -/
theorem attempt_bind {f₁ f₂ : Except Exit α → EvalM β} (first : L.Ends s (x₁ s) (x₂ (L.beside s)))
    (next : ∀ r t, EvalM.attempt x₁ s = .ok r t → L.Later s t → (∀ e, r = .error e → L.Leaves e t) →
      L.Ends t (f₁ r t) (f₂ r (L.beside t)))
    (broken : ∀ e t, x₁ s = .error (.error e) t → L.breaks e → L.Later s t → L.Leaves (.error e) t →
      L.Breaks (f₁ (.error (.error e))) t) :
    L.Ends s ((EvalM.attempt x₁ >>= f₁) s) ((EvalM.attempt x₂ >>= f₂) (L.beside s)) := by
  rw [attempted, attempted]
  unfold EvalM.attempt at next
  generalize x₁ s = r₁ at first next broken ⊢
  generalize x₂ (L.beside s) = r₂ at first ⊢
  cases first with
  | ok later => exact (next _ _ rfl later nofun).after later
  | error later leaves =>
    refine (next _ _ rfl later fun e same => ?_).after later
    cases same
    exact leaves
  | broken breaks later leaves => exact (broken _ _ rfl breaks later leaves).ends.after later

theorem resume {r : Except Exit α} (state : L.At s) (leaves : ∀ e, r = .error e → L.Leaves e s) :
    L.Ends s (EvalM.resume r s) (EvalM.resume r (L.beside s)) := by
  cases r with
  | ok a => exact .ok (.refl state)
  | error e => exact .error (.refl state) (leaves e rfl)

end Ends

theorem breaks_throw {e : EvalError} (state : L.At s) (breaks : L.breaks e) (leaves : L.Leaves (.error e) s) :
    L.Breaks (MonadExcept.throw (.error e) : EvalM α) s :=
  ⟨e, s, rfl, breaks, .refl state, leaves⟩

/-! ### Primitive steps -/

namespace Together

variable {x₁ x₂ : EvalM α} {f₁ f₂ : α → EvalM β}

theorem pure (a : α) : L.Together (Pure.pure a : EvalM α) (Pure.pure a) :=
  fun _ state => .ok (.refl state)

theorem throw (last : e ≠ .exhausted) (sound : e ≠ .clash) (free : e ≠ .error .interrupted) :
    L.Together (MonadExcept.throw e : EvalM α) (MonadExcept.throw e) :=
  fun _ state => .error (.refl state) (leaves_of_ne last sound free)

theorem exhausted (exhausts : L.exhausts) :
    L.Together (MonadExcept.throw .exhausted : EvalM α) (MonadExcept.throw .exhausted) :=
  fun _ state => .error (.refl state) ⟨fun _ => exhausts, nofun, nofun⟩

theorem clash (clashes : L.clashes) :
    L.Together (MonadExcept.throw .clash : EvalM α) (MonadExcept.throw .clash) :=
  fun _ state => .error (.refl state) ⟨nofun, fun _ => clashes, nofun⟩

theorem fail {failure : EvalError} (free : failure ≠ .interrupted) :
    L.Together (EvalM.fail failure : EvalM α) (EvalM.fail failure) :=
  throw nofun nofun fun same => free (Exit.error.inj same)

theorem typeFault (fault : TypeFault) : L.Together (EvalM.typeFault fault : EvalM α) (EvalM.typeFault fault) :=
  fail nofun

theorem refuse (fault : EnvironmentFault) :
    L.Together (EvalM.fail (.ofEnvironment fault) : EvalM α) (EvalM.fail (.ofEnvironment fault)) :=
  fail (by cases fault <;> nofun)

theorem jump (j : Jump) : L.Together (EvalM.jump j : EvalM α) (EvalM.jump j) :=
  throw nofun nofun nofun

theorem ofExcept {x : Except EvalError α} (ordinary : EvalError.OnlyOrdinary x) :
    L.Together (EvalM.ofExcept x) (EvalM.ofExcept x) := by
  cases x with
  | ok a => exact pure a
  | error failure => exact fail (ordinary failure rfl).runs

theorem readHeap (f : Heap → α) : L.Together (EvalM.readHeap f) (EvalM.readHeap f) :=
  fun _ state => .ok (.refl state)

theorem modifyHeap (f : Heap → Heap) : L.Together (EvalM.modifyHeap f) (EvalM.modifyHeap f) :=
  fun _ state => .ok ⟨state, id⟩

theorem allocate (f : Heap → α × Heap) : L.Together (EvalM.allocate f) (EvalM.allocate f) :=
  fun _ state => .ok ⟨state, id⟩

/-- What is read of the scopes does not depend on the limit. -/
theorem readEnv {f : Environment → α} (same : ∀ env limit, f (env.limitedTo limit) = f env) :
    L.Together (EvalM.readEnv f) (EvalM.readEnv f) := by
  intro s state
  have read : EvalM.readEnv f (L.beside s) = .ok (f s.env) (L.beside s) :=
    congrArg (EStateM.Result.ok · (L.beside s)) (same s.env _)
  rw [read]
  exact .ok (.refl state)

theorem modifyEnv {f : Environment → Environment} (depth : ∀ env, (f env).callDepth = env.callDepth)
    (limit : ∀ env, (f env).maxCallDepth = env.maxCallDepth)
    (same : ∀ env limit, f (env.limitedTo limit) = (f env).limitedTo limit) :
    L.Together (EvalM.modifyEnv f) (EvalM.modifyEnv f) := by
  intro s state
  have after : L.At { s with env := f s.env } := by
    show L.within (f s.env).callDepth (f s.env).maxCallDepth
    rw [depth, limit]
    exact state
  have beside : EvalM.modifyEnv f (L.beside s) = .ok () (L.beside { s with env := f s.env }) := by
    show EStateM.Result.ok () { s with env := f (s.env.limitedTo (L.limit s.env.maxCallDepth)) } =
      .ok () { s with env := (f s.env).limitedTo (L.limit (f s.env).maxCallDepth) }
    rw [same, limit]
  rw [beside]
  exact .ok ⟨after, id⟩

theorem push : L.Together (EvalM.modifyEnv Environment.push) (EvalM.modifyEnv Environment.push) :=
  modifyEnv (fun _ => rfl) (fun _ => rfl) fun _ _ => rfl

theorem pop : L.Together (EvalM.modifyEnv Environment.pop) (EvalM.modifyEnv Environment.pop) :=
  modifyEnv Environment.callDepth_pop Environment.maxCallDepth_pop Environment.pop_limitedTo

theorem checkInterrupt : L.Together EvalM.checkInterrupt EvalM.checkInterrupt := by
  intro s state
  have flag : (L.beside s).interrupted = s.interrupted := rfl
  unfold EvalM.checkInterrupt
  rw [flag]
  cases raised : s.interrupted with
  | true => exact .error (.refl state) ⟨nofun, nofun, fun _ => raised⟩
  | false => exact .ok (.refl state)

/-! ### Joining steps -/

theorem bind (first : L.Together x₁ x₂) (next : ∀ a, L.Together (f₁ a) (f₂ a)) :
    L.Together (x₁ >>= f₁) (x₂ >>= f₂) :=
  fun s state => Ends.bind (first s state) fun a t _ later => next a t later.state

theorem reading {f : Heap → α} (next : ∀ a, L.Together (f₁ a) (f₂ a)) :
    L.Together (EvalM.readHeap f >>= f₁) (EvalM.readHeap f >>= f₂) :=
  bind (readHeap f) next

theorem readingEnv {f : Environment → α} (same : ∀ env limit, f (env.limitedTo limit) = f env)
    (next : ∀ a, L.Together (f₁ a) (f₂ a)) : L.Together (EvalM.readEnv f >>= f₁) (EvalM.readEnv f >>= f₂) :=
  bind (readEnv same) next

theorem discard (x : L.Together x₁ x₂) : L.Together (Functor.discard x₁) (Functor.discard x₂) :=
  bind x fun _ => pure ()

theorem ite {c : Bool} {y₁ y₂ : EvalM α} (yes : L.Together x₁ x₂) (no : L.Together y₁ y₂) :
    L.Together (if c then x₁ else y₁) (if c then x₂ else y₂) := by
  cases c with
  | true => exact yes
  | false => exact no

theorem foldlM {f₁ f₂ : β → α → EvalM β} {items : List α} (each : ∀ a ∈ items, ∀ b, L.Together (f₁ b a) (f₂ b a))
    (start : β) : L.Together (items.foldlM f₁ start) (items.foldlM f₂ start) := by
  induction items generalizing start with
  | nil => exact pure start
  | cons a more ih =>
    obtain ⟨head, tail⟩ := List.forall_mem_cons.1 each
    rw [List.foldlM_cons, List.foldlM_cons]
    exact bind (head start) (ih tail)

theorem forM {f₁ f₂ : α → EvalM Unit} {items : List α} (each : ∀ a ∈ items, L.Together (f₁ a) (f₂ a)) :
    L.Together (items.forM f₁) (items.forM f₂) := by
  induction items with
  | nil => exact pure ()
  | cons a more ih =>
    obtain ⟨head, tail⟩ := List.forall_mem_cons.1 each
    unfold List.forM
    exact bind head fun _ => ih tail

theorem mapM {f₁ f₂ : α → EvalM β} {items : List α} (each : ∀ a ∈ items, L.Together (f₁ a) (f₂ a)) :
    L.Together (items.mapM f₁) (items.mapM f₂) := by
  induction items with
  | nil => exact pure []
  | cons a more ih =>
    obtain ⟨head, tail⟩ := List.forall_mem_cons.1 each
    rw [List.mapM_cons, List.mapM_cons]
    exact bind head fun b => bind (ih tail) fun results => pure _

/-! ### Built-in functions -/

/-- Built-in functions do not ask how deep calls are nested, so one goes together with itself if the calls that it
makes do. -/
theorem built {sub₁ sub₂ : Interpreter} {x : Interpreter → EvalM α}
    (calls : ∀ f args, L.Together (sub₁.call f args) (sub₂.call f args)) (step : BuiltIn x) :
    L.Together (x sub₁) (x sub₂) := by
  induction step with
  | pure a => exact pure a
  | fail ordinary => exact fail ordinary.runs
  | readHeap f => exact readHeap f
  | checked ordinary => exact fun s state => ofExcept (ordinary s.heap) s state
  | readNotes => exact fun _ state => .ok (.refl state)
  | allocate => exact allocate _
  | interrupt => exact fun _ state => .ok ⟨state, fun _ => rfl⟩
  | note | log => exact fun _ state => .ok ⟨state, id⟩
  | call f args => exact calls f args
  | bind _ _ first next => exact bind first next

/-- A built-in function that calls nothing. -/
theorem standalone {x : EvalM α} (step : BuiltIn fun _ => x) : L.Together x x :=
  have calls : ∀ f args, L.Together (Interpreter.idle.call f args) (Interpreter.idle.call f args) :=
    fun _ _ => pure _
  built calls step

/-! ### Scopes -/

theorem inScope (x : L.Together x₁ x₂) : L.Together (EvalM.inScope x₁) (EvalM.inScope x₂) := by
  unfold EvalM.inScope
  refine bind push fun _ s state => Ends.attempt_bind (x s state) (fun r t _ later leaves => ?_) ?_
  · refine Ends.bind (pop t later.state) fun _ u _ next => Ends.resume next.state fun e same => ?_
    exact (leaves e same).later next
  · -- leaving the scope takes nothing and does not lower the flag
    intro e t _ breaks later leaves
    have left : L.Later t { t with env := t.env.pop } := later_pop later.state
    exact ⟨e, _, rfl, breaks, left, leaves.later left⟩

end Together

/-- The same lockstep where calls are nested deeper. -/
def deeper (L : Lockstep) (within : Nat → Nat → Prop)
    (enters : ∀ d k, within d k → L.limit k = k ∨ k ≤ L.limit k ∧ L.breaks (.stackOverflow d k)) : Lockstep :=
  { L with within := within, enters := enters }

/-- A step in other scopes comes back to the present ones. -/
theorem Ends.inEnvironment {within : Nat → Nat → Prop}
    {enters : ∀ d k, within d k → L.limit k = k ∨ k ≤ L.limit k ∧ L.breaks (.stackOverflow d k)}
    {x₁ x₂ : EvalM α} {env : Environment} (state : L.At s) (inside : within env.callDepth env.maxCallDepth)
    (x : (L.deeper within enters).Together x₁ x₂) :
    L.Ends s (EvalM.inEnvironment env x₁ s)
      (EvalM.inEnvironment (env.limitedTo (L.limit env.maxCallDepth)) x₂ (L.beside s)) := by
  rw [inEnvironment_apply, inEnvironment_apply]
  have ends := x { s with env } inside
  have beside : (L.deeper within enters).beside { s with env } =
      { L.beside s with env := env.limitedTo (L.limit env.maxCallDepth) } := rfl
  rw [beside] at ends
  generalize x₁ { s with env } = r₁ at ends ⊢
  generalize x₂ { L.beside s with env := env.limitedTo (L.limit env.maxCallDepth) } = r₂ at ends ⊢
  cases ends with
  | ok later => exact .ok ⟨state, later.raised⟩
  | error later leaves => exact .error ⟨state, later.raised⟩ ⟨leaves.exhausted, leaves.clash, leaves.interrupted⟩
  | broken breaks later leaves =>
    exact .broken breaks ⟨state, later.raised⟩ ⟨leaves.exhausted, leaves.clash, leaves.interrupted⟩

/-! ### Loops -/

/-- A loop whose turns keep an invariant, without which a turn might not go together with the other one. -/
theorem Ends.repeatWhile {turn₁ turn₂ : EvalM Bool} {I : State → Prop} (exhausts : L.exhausts)
    (keeps : ∀ s t, I s → turn₁ s = .ok true t → I t)
    (each : ∀ s, L.At s → I s → L.Ends s (turn₁ s) (turn₂ (L.beside s))) (turns : Nat) (state : L.At s) (start : I s) :
    L.Ends s (EvalM.repeatWhile turn₁ turns s) (EvalM.repeatWhile turn₂ turns (L.beside s)) := by
  induction turns generalizing s with
  | zero => exact Together.exhausted exhausts s state
  | succ turns ih =>
    unfold EvalM.repeatWhile
    refine Ends.bind (Together.checkInterrupt s state) fun _ t checked later => ?_
    obtain rfl := eq_of_checkInterrupt checked
    refine Ends.bind (each t state start) fun again t' run next => ?_
    cases again with
    | true => exact ih next.state (keeps t t' start run)
    | false => exact .ok (.refl next.state)

theorem Together.repeatWhile {turn₁ turn₂ : EvalM Bool} (exhausts : L.exhausts) (turn : L.Together turn₁ turn₂)
    (turns : Nat) : L.Together (EvalM.repeatWhile turn₁ turns) (EvalM.repeatWhile turn₂ turns) :=
  fun _ state => Ends.repeatWhile exhausts (fun _ _ _ _ => trivial) (fun s state _ => turn s state) turns state trivial

end Lockstep

end BindScript
