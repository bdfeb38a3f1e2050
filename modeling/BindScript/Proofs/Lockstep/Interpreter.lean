import BindScript.Proofs.Lockstep.Expression
import BindScript.Proofs.Lockstep.Statement
import BindScript.Proofs.Regime.Run

/-!
# Calls and whole runs in lockstep

A call that is entered runs the body of a closure one call deeper; the parts of the body have to go together there
(`Together.callClosure`). The second run may have the larger limit, and so the first run may end with a stack overflow
where the second one enters the call: this has to be a failure that breaks the lockstep.

A run is started over an interpreter (`Run.interpreted`), which is the one of the context when nothing is said
(`Run.start_eq`). Every run goes together with itself (`alone_interprets`).
-/

namespace BindScript

namespace EvalM

variable {ctx : Context} {sub : Interpreter} {c : Closure} {args : List Value} {s : State}

/-- What a call does once it is entered: it binds the parameters and runs the body. -/
def enteredCall (ctx : Context) (sub : Interpreter) (c : Closure) (args : List Value) : EvalM Value := do
  let left ← bindParams ctx sub c.definition.params args
  match c.definition.rest with
  | none => pure ()
  | some rest =>
    let remaining ← allocate (·.newArray left.toArray)
    bindPattern ctx sub (.declare .param) rest remaining
  runFunctionBody sub c.definition.body

/-- At the limit no call is entered. -/
theorem callClosure_of_le (full : s.env.maxCallDepth ≤ s.env.callDepth) :
    callClosure ctx sub c args s =
      .error (.error (.stackOverflow s.env.callDepth s.env.maxCallDepth)) s := by
  have entered : readEnv Environment.enterCall s =
      .ok (.error (.stackOverflow s.env.callDepth s.env.maxCallDepth)) s := by
    rw [readEnv, Environment.enterCall, if_pos full]
  exact bind_of_ok entered

/-- Below the limit a call is entered one call deeper. -/
theorem callClosure_of_lt (room : s.env.callDepth < s.env.maxCallDepth) :
    callClosure ctx sub c args s =
      inEnvironment (.forCall c.captured (s.env.callDepth + 1) s.env.maxCallDepth) (enteredCall ctx sub c args) s := by
  have entered : readEnv Environment.enterCall s = .ok (.ok (s.env.callDepth + 1)) s := by
    rw [readEnv, Environment.enterCall, if_neg (Nat.not_le.2 room)]
  exact bind_of_ok entered

end EvalM

namespace Run

/-- The code that a run is given. A function has its code in the heap. -/
def nodes : Run → List Node
  | expression e | evaluation e => [.expr e]
  | statement s => [.stmt s]
  | program statements => statements.map .stmt
  | call .. => []

theorem obeys_iff {R : NodeRule} {run : Run} : run.Obeys R ↔ ∀ y ∈ run.nodes, y.Obeys R := by
  cases run with
  | expression | evaluation | statement => simp [Obeys, nodes, Node.Obeys]
  | program statements => exact Stmt.allObey_iff_nodes
  | call callee args => exact iff_of_true trivial (List.forall_mem_nil _)

/-- The scopes that the code of a run starts in. Code on its own starts without bindings. -/
def environment (ctx : Context) (s : State) : Run → Environment
  | expression _ | statement _ => s.env
  | _ => .empty ctx.options.maxCallDepth

/-- Runs code over an interpreter. -/
def interpreted (ctx : Context) (sub : Interpreter) : Run → EvalM Value
  | expression e => sub.expr e
  | statement s => sub.stmt s
  | evaluation e => ctx.inFreshEnvironment do EvalM.settle (← EvalM.attempt (sub.expr e))
  | program statements => ctx.inFreshEnvironment (EvalM.runStatementsIn sub statements)
  | call callee args => ctx.inFreshEnvironment do EvalM.settle (← EvalM.attempt (sub.call callee args))

theorem start_eq (ctx : Context) (run : Run) : run.start ctx = run.interpreted ctx ctx.interpreter := by
  cases run <;> rfl

end Run

namespace Lockstep

variable {L : Lockstep} {F : Fragment} {sub₁ sub₂ : Interpreter} {s : State} {callee : Value} {args : List Value}
  {within : Nat → Nat → Prop}
  {enters : ∀ d k, within d k → L.limit k = k ∨ k ≤ L.limit k ∧ L.breaks (.stackOverflow d k)}

namespace Together

/-! ## Calls -/

/-- No jump leaves a function or program, but failures do. -/
theorem settle {x₁ x₂ : EvalM Value} (x : L.Together x₁ x₂) :
    L.Together (do EvalM.settle (← EvalM.attempt x₁)) (do EvalM.settle (← EvalM.attempt x₂)) := by
  intro s state
  refine Ends.attempt_bind (x s state) (fun r t _ later leaves => ?_) fun e t _ breaks later leaves => ?_
  · cases r with
    | ok v => exact pure v t later.state
    | error e =>
      cases e with
      | jump j =>
        cases j with
        | ret v => exact pure v t later.state
        | brk | cont => exact fail (by nofun) t later.state
      | error failure => exact .error (.refl later.state) (leaves _ rfl)
      | exhausted | clash => exact .error (.refl later.state) (leaves _ rfl)
  · exact breaks_throw later.state breaks leaves

theorem runStatementsIn {statements : List Stmt} (sub : L.Interprets F sub₁ sub₂)
    (code : ∀ y ∈ statements.map Node.stmt, F.code y) :
    L.Together (EvalM.runStatementsIn sub₁ statements) (EvalM.runStatementsIn sub₂ statements) := by
  unfold EvalM.runStatementsIn
  refine bind (hoistVars statements) fun _ => settle ?_
  exact bind (discard (evalStatements sub code)) fun _ => pure _

theorem bindParams {params : List Element} (sub : L.Interprets F sub₁ sub₂)
    (code : ∀ y ∈ params.flatMap Element.nodes, F.code y) (args : List Value) :
    L.Together (EvalM.bindParams L.left sub₁ params args) (EvalM.bindParams L.right sub₂ params args) := by
  induction params generalizing args with
  | nil => exact pure _
  | cons param rest ih =>
    obtain ⟨target, default⟩ := param
    obtain ⟨paramCode, restCode⟩ := List.forall_mem_append.1 code
    obtain ⟨targetCode, defaultCode⟩ := List.forall_mem_cons.1 paramCode
    unfold EvalM.bindParams
    refine bind (withDefault sub defaultCode _) fun value => ?_
    exact bind (bindPattern sub (.declare .param) target value targetCode) fun _ => ih restCode _

theorem runFunctionBody {body : Body} (sub : L.Interprets F sub₁ sub₂) (code : ∀ y ∈ body.nodes, F.code y) :
    L.Together (EvalM.runFunctionBody sub₁ body) (EvalM.runFunctionBody sub₂ body) := by
  cases body with
  | expr e => exact sub.expr e (code _ (List.mem_singleton.2 rfl))
  | block statements => exact runStatementsIn sub code

theorem enteredCall {c : Closure} (sub : L.Interprets F sub₁ sub₂) (code : ∀ y ∈ c.definition.nodes, F.code y) :
    L.Together (EvalM.enteredCall L.left sub₁ c args) (EvalM.enteredCall L.right sub₂ c args) := by
  obtain ⟨name, ⟨params, rest, body⟩, captured⟩ := c
  obtain ⟨headCode, bodyCode⟩ := List.forall_mem_append.1 code
  obtain ⟨paramsCode, restCode⟩ := List.forall_mem_append.1 headCode
  unfold EvalM.enteredCall
  refine bind (bindParams sub paramsCode args) fun left => ?_
  have run := runFunctionBody sub bodyCode
  cases rest with
  | none => exact run
  | some rest =>
    refine bind (allocate _) fun remaining => ?_
    exact bind (bindPattern sub _ rest remaining (restCode _ (List.mem_singleton.2 rfl))) fun _ => run

/-- The body of the closure runs one call deeper. -/
theorem callClosure {c : Closure} (sub : (L.deeper within enters).Interprets F sub₁ sub₂)
    (inside : ∀ d k, L.within d k → d < k → within (d + 1) k) (code : ∀ y ∈ c.definition.nodes, F.code y) :
    L.Together (EvalM.callClosure L.left sub₁ c args) (EvalM.callClosure L.right sub₂ c args) := by
  intro s state
  have entered : ∀ s, L.At s → s.env.callDepth < s.env.maxCallDepth →
      L.Ends s (EvalM.inEnvironment (.forCall c.captured (s.env.callDepth + 1) s.env.maxCallDepth)
          (EvalM.enteredCall L.left sub₁ c args) s)
        (EvalM.inEnvironment (.forCall c.captured (s.env.callDepth + 1) (L.limit s.env.maxCallDepth))
          (EvalM.enteredCall L.right sub₂ c args) (L.beside s)) :=
    fun s state room => Ends.inEnvironment state (inside _ _ state room) (enteredCall sub code)
  have depth : (L.beside s).env.callDepth = s.env.callDepth := rfl
  have limit : (L.beside s).env.maxCallDepth = L.limit s.env.maxCallDepth := rfl
  rcases L.enters _ _ state with same | ⟨le, breaks⟩
  · rcases Nat.lt_or_ge s.env.callDepth s.env.maxCallDepth with room | full
    · rw [EvalM.callClosure_of_lt room, EvalM.callClosure_of_lt (by rwa [depth, limit, same])]
      exact entered s state room
    · rw [EvalM.callClosure_of_le full, EvalM.callClosure_of_le (by rwa [depth, limit, same]), depth, limit, same]
      exact .error (.refl state) (leaves_of_ne nofun nofun nofun)
  · rcases Nat.lt_or_ge s.env.callDepth s.env.maxCallDepth with room | full
    · have roomBeside : (L.beside s).env.callDepth < (L.beside s).env.maxCallDepth := Nat.lt_of_lt_of_le room le
      rw [EvalM.callClosure_of_lt room, EvalM.callClosure_of_lt roomBeside]
      exact entered s state room
    · -- here the second run may enter the call
      rw [EvalM.callClosure_of_le full]
      exact .broken breaks (.refl state) (leaves_of_ne nofun nofun nofun)

end Together

variable (enters) in
/-- What is called natively stays at the depth of the call. -/
theorem Ends.callStep (sub : (L.deeper within enters).Interprets F sub₁ sub₂)
    (inside : ∀ d k, L.within d k → d < k → within (d + 1) k) (state : L.At s)
    (code : ∀ c, callee = .closure c → ∀ y ∈ (s.heap.closureAt c).definition.nodes, F.code y) :
    L.Ends s (EvalM.callStep L.left sub₁ callee args s) (EvalM.callStep L.right sub₂ callee args (L.beside s)) := by
  unfold EvalM.callStep
  cases callee with
  | native f => exact Together.standalone (.invoke f args) s state
  | closure c =>
    refine Ends.bind (Together.readHeap _ s state) fun closure t read _ => ?_
    cases read
    exact Together.callClosure sub inside (code c rfl) s state
  | _ => exact Together.reading (fun _ => Together.fail (by nofun)) s state

/-! ## Whole runs -/

variable (enters) in
/-- Code on its own runs at no depth, below the limit of the context. -/
theorem Ends.fresh {x₁ x₂ : EvalM Value} (x : (L.deeper within enters).Together x₁ x₂) (state : L.At s)
    (start : within 0 L.left.options.maxCallDepth)
    (limits : L.right.options.maxCallDepth = L.limit L.left.options.maxCallDepth) :
    L.Ends s (L.left.inFreshEnvironment x₁ s) (L.right.inFreshEnvironment x₂ (L.beside s)) := by
  unfold Context.inFreshEnvironment
  rw [limits]
  exact Ends.inEnvironment state start x

/-- What goes together at some depths, and is run there, goes together where these are among others. -/
theorem Ends.outside {α : Type} {r₁ r₂ : EStateM.Result Exit State α} (ends : (L.deeper within enters).Ends s r₁ r₂)
    (outside : ∀ d k, within d k → L.within d k) : L.Ends s r₁ r₂ := by
  cases ends with
  | ok later => exact .ok ⟨outside _ _ later.state, later.raised⟩
  | error later leaves =>
    exact .error ⟨outside _ _ later.state, later.raised⟩ ⟨leaves.exhausted, leaves.clash, leaves.interrupted⟩
  | broken breaks later leaves =>
    exact .broken breaks ⟨outside _ _ later.state, later.raised⟩ ⟨leaves.exhausted, leaves.clash, leaves.interrupted⟩

variable (enters) in
/-- Runs of code of the fragment end alike, if they go together at the depths that they may come to. -/
theorem Ends.interpreted {run : Run} (sub : (L.deeper within enters).Interprets F sub₁ sub₂)
    (code : ∀ y ∈ run.nodes, F.code y) (outside : ∀ d k, within d k → L.within d k) (state : L.At s)
    (start : within (run.environment L.left s).callDepth (run.environment L.left s).maxCallDepth)
    (limits : L.right.options.maxCallDepth = L.limit L.left.options.maxCallDepth) :
    L.Ends s (run.interpreted L.left sub₁ s) (run.interpreted L.right sub₂ (L.beside s)) := by
  cases run with
  | expression e => exact (sub.expr e (code _ (List.mem_singleton.2 rfl)) s start).outside outside
  | statement t => exact (sub.stmt t (code _ (List.mem_singleton.2 rfl)) s start).outside outside
  | evaluation e =>
    have body := Together.settle (sub.expr e (code _ (List.mem_singleton.2 rfl)))
    exact Ends.fresh enters body state start limits
  | program statements => exact Ends.fresh enters (Together.runStatementsIn sub code) state start limits
  | call callee args => exact Ends.fresh enters (Together.settle (sub.call callee args)) state start limits

/-! ## A run by itself -/

/-- All code. -/
def Fragment.all : Fragment where
  code _ := True
  chain _ := True
  parts _ _ := trivial
  links _ _ := trivial

theorem Fragment.all_below (x : Node) : Fragment.all.Below x :=
  ⟨fun _ _ => trivial, fun _ _ => trivial⟩

/-- Over no levels both interpreters are exhausted. -/
theorem Interprets.exhausted (exhausts : L.exhausts) :
    L.Interprets F (interpreter L.left 0) (interpreter L.right 0) where
  expr _ _ := Together.exhausted exhausts
  chain _ _ := Together.exhausted exhausts
  stmt _ _ := Together.exhausted exhausts
  call _ _ := Together.exhausted exhausts
  turns _ := rfl
  alike _ := Correspondence.mirror_interpreter L.left 0

theorem exists_limitedTo (ctx : Context) : ∃ limit, ctx = ctx.limitedTo limit :=
  ⟨ctx.options.maxCallDepth, rfl⟩

theorem enters_same (within : Nat → Nat → Prop) (breaks : EvalError → Prop) (d k : Nat) (_ : within d k) :
    id k = k ∨ k ≤ id k ∧ breaks (.stackOverflow d k) :=
  .inl rfl

/-- Two runs in one context. -/
def inOne (ctx : Context) (within : Nat → Nat → Prop) (breaks : EvalError → Prop) (exhausts clashes : Prop)
    (uncaught : ∀ e, breaks e → e.isCatchable = false) : Lockstep where
  left := ctx
  right := ctx
  contexts := exists_limitedTo ctx
  within := within
  limit := id
  breaks := breaks
  exhausts := exhausts
  clashes := clashes
  uncaught := uncaught
  enters := enters_same within breaks

theorem nothing_uncaught (e : EvalError) (breaks : False) : e.isCatchable = false :=
  breaks.elim

/-- A run next to itself. -/
def alone (ctx : Context) (within : Nat → Nat → Prop) : Lockstep :=
  inOne ctx within (fun _ => False) True True nothing_uncaught

/-- Whatever it evaluates, an interpreter keeps what a run always keeps. -/
theorem alone_interprets (ctx : Context) (within : Nat → Nat → Prop)
    (inside : ∀ d k, within d k → d < k → within (d + 1) k) (levels : Nat) :
    (alone ctx within).Interprets .all (interpreter ctx levels) (interpreter ctx levels) := by
  induction levels with
  | zero => exact Interprets.exhausted trivial
  | succ levels ih =>
    refine ⟨fun e _ => ?_, fun e _ => ?_, fun t _ => ?_, fun f args s state => ?_, fun _ => rfl, fun _ => ?_⟩
    · exact Together.exprStep ih (Fragment.all_below _) (.inl trivial)
    · exact Together.chainStep ih (Fragment.all_below _) fun _ => trivial
    · exact Together.stmtStep ih (Fragment.all_below _) (fun _ => trivial) fun _ _ _ _ _ _ _ breaks _ => breaks.elim
    · exact Ends.callStep (enters_same _ _) ih inside state fun _ _ _ _ => trivial
    · exact Correspondence.mirror_interpreter ctx (levels + 1)

end Lockstep

end BindScript

/-!
## What a run evaluates on its way

All that an interpreter is asked for is a `Part`, and a `Point` is a part with the state that it is evaluated from and
the levels that there are for it. A step asks for a part if it makes a difference to the step what the answer is
(`Asks`): an answer can be given in the place of the interpreter (`Interpreter.replacing`). This says, without looking
into the step, that it evaluates the part from that state; for there are answers that no step can ignore. The points
inside of a run are those that the run asks for, and those that points inside of it ask for (`Point.Inside`).

To find out about all points inside of a run, it is compared with the same run under another answer
(`Interprets.replacing`).
-/

namespace BindScript

/-- What an interpreter may be asked for. -/
inductive Part
  | expr (e : Expr)
  | chain (e : Expr)
  | stmt (s : Stmt)
  | call (callee : Value) (args : List Value)

namespace Part

/-- Links of chains may have no value. -/
abbrev Value : Part → Type
  | chain _ => Option BindScript.Value
  | _ => BindScript.Value

/-- What evaluating a part does, given the interpreter for its own parts. -/
def step (ctx : Context) (sub : Interpreter) : (p : Part) → EvalM p.Value
  | expr e => EvalM.exprStep ctx sub e
  | chain e => EvalM.chainStep ctx sub e
  | stmt s => EvalM.stmtStep ctx sub s
  | call callee args => EvalM.callStep ctx sub callee args

end Part

namespace Interpreter

/-- Asks the interpreter for a part. -/
def run (sub : Interpreter) : (p : Part) → EvalM p.Value
  | .expr e => sub.expr e
  | .chain e => sub.chain e
  | .stmt s => sub.stmt s
  | .call callee args => sub.call callee args

open Classical in
/-- The interpreter that is told what to answer when it is asked for `p` in the state `u`. -/
noncomputable def replacing (sub : Interpreter) (u : State) :
    (p : Part) → EStateM.Result Exit State p.Value → Interpreter
  | .expr e, answer => { sub with expr := fun e' u' => if e' = e ∧ u' = u then answer else sub.expr e' u' }
  | .chain e, answer => { sub with chain := fun e' u' => if e' = e ∧ u' = u then answer else sub.chain e' u' }
  | .stmt s, answer => { sub with stmt := fun s' u' => if s' = s ∧ u' = u then answer else sub.stmt s' u' }
  | .call callee args, answer =>
    { sub with call := fun callee' args' u' =>
        if (callee' = callee ∧ args' = args) ∧ u' = u then answer else sub.call callee' args' u' }

theorem replacing_turns {sub : Interpreter} {u : State} {p : Part} {answer : EStateM.Result Exit State p.Value} :
    (sub.replacing u p answer).turns = sub.turns := by
  cases p <;> rfl

theorem replacing_run_self (sub : Interpreter) (u : State) (p : Part) (answer : EStateM.Result Exit State p.Value) :
    (sub.replacing u p answer).run p u = answer := by
  cases p <;> simp [replacing, run]

/-- Anything else is answered as ever. -/
theorem replacing_run_of_ne {sub : Interpreter} {u v : State} {p q : Part} {answer : EStateM.Result Exit State p.Value}
    (ne : ¬ (q = p ∧ v = u)) : (sub.replacing u p answer).run q v = sub.run q v := by
  cases p <;> cases q <;> simp_all [replacing, run]

end Interpreter

theorem interpreter_run {ctx : Context} {levels : Nat} {p : Part} :
    (interpreter ctx (levels + 1)).run p = p.step ctx (interpreter ctx levels) := by
  cases p <;> rfl

/-- It makes a difference to the step what the interpreter answers when it is asked for the part in the state. -/
def Asks {α : Type} (step : Interpreter → EvalM α) (sub : Interpreter) (s : State) (p : Part) (u : State) : Prop :=
  ∃ a b, step (sub.replacing u p a) s ≠ step (sub.replacing u p b) s

/-- A part that is evaluated from a state, over a number of levels. -/
structure Point where
  levels : Nat
  part : Part
  state : State

namespace Point

/-- How the evaluation ends. -/
def ending (ctx : Context) (p : Point) : Except Exit p.part.Value :=
  EvalM.ending ((interpreter ctx p.levels).run p.part) p.state

/-- Evaluating the whole asks for the part. -/
def IsPartOf (ctx : Context) (part whole : Point) : Prop :=
  whole.levels = part.levels + 1 ∧
    Asks (fun sub => whole.part.step ctx sub) (interpreter ctx part.levels) whole.state part.part part.state

/-- The run asks for the part. -/
def IsPartOfRun (ctx : Context) (s : State) (run : Run) (part : Point) : Prop :=
  part.levels = grantedLevels ∧ Asks (fun sub => run.interpreted ctx sub) ctx.interpreter s part.part part.state

/-- The part is evaluated somewhere inside of the run. -/
inductive Inside (ctx : Context) (s : State) (run : Run) : Point → Prop
  | run {p : Point} (part : p.IsPartOfRun ctx s run) : Inside ctx s run p
  | part {p q : Point} (inside : Inside ctx s run p) (part : q.IsPartOf ctx p) : Inside ctx s run q

end Point

namespace Lockstep

variable {L : Lockstep} {sub sub₁ sub₂ : Interpreter} {p : Part} {s u : State}

/-- A part goes together with itself if its parts do. -/
theorem Together.part (sub : L.Interprets .all sub₁ sub₂) (loops : L.exhausts) (clashes : L.clashes)
    (inside : ∀ d k, L.within d k → d < k → L.within (d + 1) k) (resumes : ∀ final, L.Resumes sub₁ final) :
    L.Together (p.step L.left sub₁) (p.step L.right sub₂) := by
  cases p with
  | expr e => exact Together.exprStep sub (Fragment.all_below _) (.inl clashes)
  | chain e => exact Together.chainStep sub (Fragment.all_below _) fun _ => trivial
  | stmt t => exact Together.stmtStep sub (Fragment.all_below _) (fun _ => loops) fun _ _ final _ => resumes final
  | call callee args =>
    exact fun s state => Ends.callStep L.enters sub inside state fun _ _ _ _ => trivial

theorem Interprets.run (sub : L.Interprets .all sub₁ sub₂) (p : Part) : L.Together (sub₁.run p) (sub₂.run p) := by
  cases p with
  | expr e => exact sub.expr e trivial
  | chain e => exact sub.chain e trivial
  | stmt t => exact sub.stmt t trivial
  | call callee args => exact sub.call callee args

/-- The second interpreter may be told what to answer where the first one breaks the lockstep. -/
theorem Interprets.replacing (self : L.Interprets .all sub sub) (still : ∀ s, L.At s → L.beside s = s)
    (breaks : L.At u → L.Breaks (sub.run p) u) (answer : EStateM.Result Exit State p.Value) :
    L.Interprets .all sub (sub.replacing u p answer) := by
  have each : ∀ q, L.Together (sub.run q) ((sub.replacing u p answer).run q) := by
    intro q s state
    by_cases here : q = p ∧ s = u
    · -- whatever the answer is, nothing is asked of it once the first run is broken
      obtain ⟨rfl, rfl⟩ := here
      exact (breaks state).ends
    · have ends := self.run q s state
      rw [still s state] at ends ⊢
      rwa [Interpreter.replacing_run_of_ne here]
  refine ⟨fun e _ => each (.expr e), fun e _ => each (.chain e), fun t _ => each (.stmt t),
    fun callee args => each (.call callee args), fun _ => ?_, self.alike⟩
  rw [Interpreter.replacing_turns]

/-- If a step ends as it does under any answer, but for failures that break the lockstep, then it asks for a part only
if such a failure is what it ends with. -/
theorem breaks_of_asks {α : Type} {step : Interpreter → EvalM α} (still : ∀ s, L.At s → L.beside s = s)
    (alike : ∀ answer, L.Ends s (step sub s) (step (sub.replacing u p answer) s)) (asks : Asks step sub s p u) :
    ∃ e t, step sub s = .error (.error e) t ∧ L.breaks e := by
  have each : ∀ answer, (∃ e t, step sub s = .error (.error e) t ∧ L.breaks e) ∨
      step (sub.replacing u p answer) s = step sub s := by
    intro answer
    have ends := alike answer
    generalize step (sub.replacing u p answer) s = r₂ at ends ⊢
    generalize step sub s = r₁ at ends ⊢
    cases ends with
    | ok later => exact .inr (congrArg (EStateM.Result.ok _) (still _ later.state))
    | error later => exact .inr (congrArg (EStateM.Result.error _) (still _ later.state))
    | broken breaks => exact .inl ⟨_, _, rfl, breaks⟩
  -- of two answers that make a difference, one is not what the step would have ended with
  obtain ⟨a, b, ne⟩ := asks
  rcases each a with broken | sameA
  · exact broken
  · rcases each b with broken | sameB
    · exact broken
    · exact absurd (sameA.trans sameB.symm) ne

end Lockstep

end BindScript

/-!
## Interpreters that call no other code

A rule for all code of a run has to hold of the functions that the run calls as well, and which these are is known of
what the run can reach only. The confined interpreter refuses to call a closure whose code does not obey the rule. It
does so in every state, so what it does can be said without looking at the heap, and a run that is ready for the rule
(`Run.Ready`) does not notice the difference (`Run.Ready.confined`).
-/

namespace BindScript

/-- If the callee is a closure, its code obeys the rule. -/
def Heap.Allows (h : Heap) (code : NodeRule) (callee : Value) : Prop :=
  ∀ c, callee = .closure c → (h.closureAt c).definition.Obeys code

open Classical in
/-- A call of a value, refused if the code of the value does not obey the rule. -/
noncomputable def EvalM.confinedCall (code : NodeRule) (callee : Value) (x : EvalM Value) : EvalM Value :=
  fun s => if s.heap.Allows code callee then x s else fail (.notCallable "") s

/-- Evaluates over a number of levels, and calls no code that does not obey the rule. -/
noncomputable def confined (ctx : Context) (code : NodeRule) : Nat → Interpreter
  | 0 => interpreter ctx 0
  | levels + 1 =>
    { turns := levels
      expr := fun e => EvalM.exprStep ctx (confined ctx code levels) e
      chain := fun e => EvalM.chainStep ctx (confined ctx code levels) e
      stmt := fun t => EvalM.stmtStep ctx (confined ctx code levels) t
      call := fun callee args =>
        EvalM.confinedCall code callee (EvalM.callStep ctx (confined ctx code levels) callee args) }

variable {ctx : Context} {code : NodeRule} {run : Run} {s : State} {callee : Value} {args : List Value} {levels : Nat}

theorem confined_call_of_allows (allows : s.heap.Allows code callee) :
    (confined ctx code (levels + 1)).call callee args s =
      EvalM.callStep ctx (confined ctx code levels) callee args s :=
  if_pos allows

theorem confined_call_of_not_allows (refused : ¬ s.heap.Allows code callee) :
    (confined ctx code (levels + 1)).call callee args s = EvalM.fail (.notCallable "") s :=
  if_neg refused

/-- Names in the scopes stay bound, whatever is refused. -/
theorem confined_alike (ctx : Context) (code : NodeRule) (levels : Nat) :
    Interpreter.Alike (.mirror ctx) (confined ctx code levels) (confined ctx code levels) := by
  induction levels with
  | zero => exact Correspondence.mirror_interpreter ctx 0
  | succ levels ih =>
    refine ⟨rfl, fun st within => .exprStep ih st within, fun st within => .chainStep ih st within,
      fun st within => .stmtStep ih st within, fun {m _ _ s₁ s₂ v₁ v₂ _ _} st alike args => ?_⟩
    have called := Correspondence.Sim.callStep (m := m) ih st alike args
    obtain rfl : v₁ = v₂ := (Zone.alike_iff.1 alike).1
    have heaps : s₁.heap = s₂.heap := st.heap
    unfold Correspondence.Sim at called ⊢
    by_cases allows : s₁.heap.Allows code v₁
    · have allows' : s₂.heap.Allows code v₁ := heaps ▸ allows
      rw [confined_call_of_allows allows, confined_call_of_allows allows']
      exact called
    · have refused : ¬ s₂.heap.Allows code v₁ := heaps ▸ allows
      rw [confined_call_of_not_allows allows, confined_call_of_not_allows refused]
      exact Correspondence.Sim.fail st.toAlike nofun

namespace Regime

variable {R : Regime}

/-- In a regime nothing is called but code that obeys its rule. -/
theorem interprets_confined (R : Regime) (levels : Nat) :
    R.Interprets (interpreter R.left levels) (confined R.right R.code levels) := by
  induction levels with
  | zero => exact R.interprets 0
  | succ levels ih =>
    refine ⟨rfl, fun _ obeys => Follows.exprStep ih obeys, fun _ obeys => Follows.chainStep ih obeys,
      fun _ obeys => Follows.stmtStep ih obeys, fun f args callable holds length s state => ?_⟩
    have allows : s.heap.Allows R.code f := by
      rintro c rfl
      exact state.heap.code c callable.1
    have called := Follows.callStep ih callable holds length s state
    rw [confined_call_of_allows allows]
    exact called

/-- Where the runs never part, they end alike. -/
theorem Ends.eq {α : Type} {Q : α → Prop} {r₁ r₂ : EStateM.Result Exit State α} (whole : ¬ R.parts)
    (ends : R.Ends Q r₁ r₂) : r₁ = r₂ := by
  cases ends with
  | ok => rfl
  | error => rfl
  | parted parts => exact absurd parts whole

end Regime

/-- Code that obeys a rule. -/
def Lockstep.Fragment.obeying (code : NodeRule) : Lockstep.Fragment where
  code x := x.Obeys code
  chain e := e.Obeys code
  parts obeys mem := (Node.obeys_iff.1 obeys).2 _ mem
  links obeys mem := (Node.obeys_iff.1 obeys).2 _ mem

/-- What is not refused goes together if the code that obeys the rule does. -/
theorem Lockstep.Ends.confinedCall {L : Lockstep} {F : Fragment} {within : Nat → Nat → Prop}
    (enters : ∀ d k, within d k → L.limit k = k ∨ k ≤ L.limit k ∧ L.breaks (.stackOverflow d k)) {levels₁ levels₂ : Nat}
    (sub : (L.deeper within enters).Interprets F (confined L.left code levels₁) (confined L.right code levels₂))
    (inside : ∀ d k, L.within d k → d < k → within (d + 1) k) (state : L.At s)
    (obeys : ∀ f : Function, f.Obeys code → ∀ y ∈ f.nodes, F.code y) :
    L.Ends s ((confined L.left code (levels₁ + 1)).call callee args s)
      ((confined L.right code (levels₂ + 1)).call callee args (L.beside s)) := by
  by_cases allows : s.heap.Allows code callee
  · have allowsBeside : (L.beside s).heap.Allows code callee := allows
    rw [confined_call_of_allows allows, confined_call_of_allows allowsBeside]
    exact callStep enters sub inside state fun c same => obeys _ (allows c same)
  · have refusedBeside : ¬ (L.beside s).heap.Allows code callee := allows
    rw [confined_call_of_not_allows allows, confined_call_of_not_allows refusedBeside]
    exact Together.fail (by nofun) s state

theorem Context.inFreshEnvironment_congr {x₁ x₂ : EvalM Value}
    (same : x₁ { s with env := .empty ctx.options.maxCallDepth } =
      x₂ { s with env := .empty ctx.options.maxCallDepth }) :
    ctx.inFreshEnvironment x₁ s = ctx.inFreshEnvironment x₂ s := by
  simp only [inFreshEnvironment, EvalM.inEnvironment_apply, same]

/-- A run that is ready for the rule calls no code that would be refused. -/
theorem Run.Ready.confined (ready : run.Ready code False ctx s) (levels : Nat) :
    run.interpreted ctx (interpreter ctx levels) s = run.interpreted ctx (confined ctx code levels) s := by
  have contexts : ctx = ctx ∨ False ∧ ctx.options.strict = true ∧ ctx = ctx.lenient := .inl rfl
  let R : Regime := ready.regime contexts False.elim False.elim
  have fits : R.Fits s.heap := ready.fits contexts False.elim False.elim
  have sub : R.Interprets (interpreter ctx levels) (BindScript.confined ctx code levels) := R.interprets_confined levels
  have scopes : ∀ b ∈ (run.scopes s).toList, R.zone.cells b.cell := fun b mem => .inr ⟨b, mem, rfl⟩
  have given : ∀ v ∈ run.given, R.Holds v := fun v mem =>
    ready.holds contexts False.elim False.elim (Has.given mem).reaches
  have obeys := ready.obeys
  have fresh : ∀ {x₁ x₂ : EvalM Value}, R.Follows R.Holds x₁ x₂ →
      ctx.inFreshEnvironment x₁ s = ctx.inFreshEnvironment x₂ s := by
    intro x₁ x₂ x
    have ends := x { s with env := .empty ctx.options.maxCallDepth } ⟨fits, List.forall_mem_nil _⟩
    exact Context.inFreshEnvironment_congr (ends.eq id)
  cases run with
  | expression e => exact (sub.expr e obeys s ⟨fits, scopes⟩).eq id
  | statement t => exact (sub.stmt t obeys s ⟨fits, scopes⟩).eq id
  | evaluation e => exact fresh (.settle (sub.expr e obeys))
  | program statements => exact fresh (.runStatementsIn sub obeys)
  | call callee args =>
    obtain ⟨callable, holds⟩ := List.forall_mem_cons.1 given
    exact fresh (.settle (sub.call callee args callable holds False.elim))

end BindScript
