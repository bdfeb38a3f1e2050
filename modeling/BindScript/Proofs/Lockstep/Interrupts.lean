import BindScript.Proofs.Lockstep.Interpreter

/-!
# Interrupts get through

Once the interrupt flag is up it stays up, and every expression and statement begins with a look at it. Nothing takes
an interrupt for something else: handlers do not catch it, and a finalizer that could end in another way is interrupted
before its first statement.

So if anything that is evaluated inside of a run ends as interrupted, then so does what asked for it, and in the end
the run (`Run.interrupted_of_inside`). To see this the part is given other answers: where it is interrupted, the step
that asks for it breaks the lockstep with the step under the other answer, and it can do so only by an interrupt.
-/

namespace BindScript

namespace EvalM

variable {α β : Type} {x : EvalM α} {f : α → EvalM β} {s t : State} {sub : Interpreter}

/-! ## With the flag up -/

/-- With the flag up, the step still gives a value, and the flag stays up. -/
def Proceeds (x : EvalM α) : Prop :=
  ∀ s, s.interrupted = true → ∃ a t, x s = .ok a t ∧ t.interrupted = true

/-- With the flag up, the step ends as interrupted, and the flag stays up. -/
def Stops (x : EvalM α) : Prop :=
  ∀ s, s.interrupted = true → ∃ t, x s = .error (.error .interrupted) t ∧ t.interrupted = true

theorem Stops.bind (stops : Stops x) : Stops (x >>= f) := by
  intro s raised
  obtain ⟨t, run, still⟩ := stops s raised
  exact ⟨t, bind_of_error run, still⟩

theorem Stops.inScope (stops : Stops x) : Stops (inScope x) := by
  intro s raised
  obtain ⟨t, run, still⟩ := stops { s with env := s.env.push } raised
  exact ⟨{ t with env := t.env.pop }, inScope_of_error run, still⟩

theorem checkInterrupt_stops : Stops checkInterrupt :=
  fun s raised => ⟨s, if_pos raised, raised⟩

namespace Proceeds

theorem bind (first : Proceeds x) (next : ∀ a, Proceeds (f a)) : Proceeds (x >>= f) := by
  intro s raised
  obtain ⟨a, t, run, still⟩ := first s raised
  obtain ⟨b, u, run', still'⟩ := next a t still
  exact ⟨b, u, (bind_of_ok run).trans run', still'⟩

theorem bind_stops (first : Proceeds x) (next : ∀ a, Stops (f a)) : Stops (x >>= f) := by
  intro s raised
  obtain ⟨a, t, run, still⟩ := first s raised
  obtain ⟨u, run', still'⟩ := next a t still
  exact ⟨u, (bind_of_ok run).trans run', still'⟩

theorem pure (a : α) : Proceeds (Pure.pure a) :=
  fun s raised => ⟨a, s, rfl, raised⟩

theorem allocate (g : Heap → α × Heap) : Proceeds (EvalM.allocate g) :=
  fun _ raised => ⟨_, _, rfl, raised⟩

theorem readEnv (g : Environment → α) : Proceeds (EvalM.readEnv g) :=
  fun _ raised => ⟨_, _, rfl, raised⟩

theorem modifyEnv (g : Environment → Environment) : Proceeds (EvalM.modifyEnv g) :=
  fun _ raised => ⟨_, _, rfl, raised⟩

theorem modifyHeap (g : Heap → Heap) : Proceeds (EvalM.modifyHeap g) :=
  fun _ raised => ⟨_, _, rfl, raised⟩

theorem discard (first : Proceeds x) : Proceeds (Functor.discard x) :=
  bind first fun _ => pure ()

theorem inScope (proceeds : Proceeds x) : Proceeds (EvalM.inScope x) := by
  intro s raised
  obtain ⟨a, t, run, still⟩ := proceeds { s with env := s.env.push } raised
  exact ⟨a, { t with env := t.env.pop }, inScope_of_ok run, still⟩

theorem forM {each : α → EvalM Unit} (all : ∀ a, Proceeds (each a)) (items : List α) : Proceeds (items.forM each) := by
  induction items with
  | nil => exact pure ()
  | cons a rest ih =>
    unfold List.forM
    exact bind (all a) fun _ => ih

theorem define (name : String) (v : Value) (kind : BindingKind) : Proceeds (EvalM.define name v kind) :=
  bind (allocate _) fun _ => bind (modifyEnv _) fun _ => pure _

theorem declareName (kind : BindingKind) (name : String) : Proceeds (EvalM.declareName kind name) := by
  unfold EvalM.declareName
  refine bind (readEnv _) fun there => ?_
  cases there with
  | true => exact pure ()
  | false => exact discard (define name _ kind)

/-- Hoisting makes bindings and asks for no interrupt. -/
theorem hoistNames (statements : List Stmt) : Proceeds (EvalM.hoistNames statements) := by
  induction statements with
  | nil => exact pure []
  | cons s rest ih =>
    cases s with
    | declare kind declarators =>
      unfold EvalM.hoistNames
      split
      · exact bind (forM (declareName _) _) fun _ => ih
      · exact ih
    | function name definition =>
      unfold EvalM.hoistNames
      exact bind (define name _ _) fun cell => bind ih fun functions => pure _
    | _ => exact ih

/-- Hoisting evaluates nothing that would look at the flag. -/
theorem hoistLexical (statements : List Stmt) : Proceeds (EvalM.hoistLexical statements) := by
  unfold EvalM.hoistLexical
  refine bind (hoistNames statements) fun functions => forM (fun function => ?_) functions
  obtain ⟨name, definition, cell⟩ := function
  exact bind (bind (readEnv _) fun captured => allocate _) fun closure => modifyHeap _

end Proceeds

/-- After an interrupt, a finalizer is interrupted itself, or it has no statements and does nothing. -/
theorem finalizer_stops (statement : ∀ t, Stops (sub.stmt t)) (final : List Stmt) :
    Stops (do discard (inScope (evalStatements sub final)); resume (.error (.error .interrupted)) : EvalM Value) := by
  cases final with
  | nil =>
    -- here the interrupt that was noted down is what the finalizer ends with
    have proceeds : Proceeds (evalStatements sub []) := (Proceeds.hoistLexical []).bind fun _ => .pure _
    exact proceeds.inScope.discard.bind_stops fun _ s raised => ⟨s, rfl, raised⟩
  | cons t rest =>
    -- the first statement looks at the flag, after hoisting that cannot fail
    have stops : Stops (evalStatements sub (t :: rest)) := by
      refine (Proceeds.hoistLexical (t :: rest)).bind_stops fun _ => ?_
      rw [List.foldlM_cons]
      exact (statement t).bind
    exact stops.inScope.bind.bind

theorem stmtStep_stops (ctx : Context) (sub : Interpreter) (t : Stmt) : Stops (stmtStep ctx sub t) :=
  checkInterrupt_stops.bind

/-! ## Steps inside of steps -/

/-- Running a step comes to another step, and nothing in between would take its failure. -/
inductive Comes : {α β : Type} → EvalM α → State → EvalM β → State → Prop
  | here {α : Type} {x : EvalM α} {s : State} : Comes x s x s
  | first {α β γ : Type} {x : EvalM α} {f : α → EvalM β} {y : EvalM γ} {s t : State} (comes : Comes x s y t) :
    Comes (x >>= f) s y t
  | next {α β γ : Type} {x : EvalM α} {f : α → EvalM β} {y : EvalM γ} {a : α} {s u t : State} (run : x s = .ok a u)
    (comes : Comes (f a) u y t) : Comes (x >>= f) s y t
  | inScope {α γ : Type} {x : EvalM α} {y : EvalM γ} {s t : State} (comes : Comes x { s with env := s.env.push } y t) :
    Comes (inScope x) s y t

/-- The failure of a step that is come to is that of the whole. -/
theorem Comes.ending_eq {y : EvalM β} {e : Exit} (comes : Comes x s y t) (ends : ending y t = .error e) :
    ending x s = .error e := by
  induction comes with
  | here => exact ends
  | first comes ih => exact ending_bind_of_error (ih ends)
  | next run comes ih => exact (ending_bind_of_ok run).trans (ih ends)
  | inScope comes ih => exact (ending_inScope _ _).trans (ih ends)

theorem Comes.trans {γ : Type} {y : EvalM β} {z : EvalM γ} {u : State} (comes : Comes x s y t) (more : Comes y t z u) :
    Comes x s z u := by
  induction comes with
  | here => exact more
  | first comes ih => exact .first (ih more)
  | next run comes ih => exact .next run (ih more)
  | inScope comes ih => exact .inScope (ih more)

theorem checkInterrupt_of_runs (runs : s.interrupted = false) : checkInterrupt s = .ok () s := by
  unfold checkInterrupt
  rw [runs]
  rfl

/-- Before each turn, a loop looks at the flag. -/
theorem comes_check (turn : EvalM Bool) (turns : Nat) (s : State) :
    Comes (repeatWhile turn (turns + 1)) s checkInterrupt s :=
  .first .here

/-- From one turn, a loop comes to the next. -/
theorem comes_turn (turn : EvalM Bool) (turns : Nat) (runs : s.interrupted = false) (again : turn s = .ok true t) :
    Comes (repeatWhile turn (turns + 1)) s (repeatWhile turn turns) t :=
  .next (checkInterrupt_of_runs runs) (.next again .here)

end EvalM

namespace Lockstep

open EvalM

variable {ctx : Context} {sub : Interpreter} {s u : State} {p : Part}

theorem interrupted_uncaught (e : EvalError) (breaks : e = .interrupted) : e.isCatchable = false := by
  rw [breaks]
  rfl

/-- A run next to itself, as long as it is not interrupted. -/
def uninterrupted (ctx : Context) : Lockstep :=
  inOne ctx (fun _ _ => True) (· = .interrupted) True True interrupted_uncaught

theorem Together.uninterrupted {α : Type} {x₁ x₂ : EvalM α} (x : (alone ctx fun _ _ => True).Together x₁ x₂) :
    (uninterrupted ctx).Together x₁ x₂ := by
  intro s _
  have ends := x s trivial
  have beside : (alone ctx fun _ _ => True).beside s = (Lockstep.uninterrupted ctx).beside s := rfl
  rw [beside] at ends
  generalize x₁ s = r₁ at ends ⊢
  generalize x₂ _ = r₂ at ends ⊢
  cases ends with
  | ok later => exact .ok ⟨trivial, later.raised⟩
  | error later leaves => exact .error ⟨trivial, later.raised⟩ ⟨leaves.exhausted, leaves.clash, leaves.interrupted⟩
  | broken breaks => exact breaks.elim

theorem uninterrupted_interprets (ctx : Context) (levels : Nat) :
    (uninterrupted ctx).Interprets .all (interpreter ctx levels) (interpreter ctx levels) := by
  have self := alone_interprets ctx (fun _ _ => True) (fun _ _ _ _ => trivial) levels
  exact ⟨fun e code => (self.expr e code).uninterrupted, fun e code => (self.chain e code).uninterrupted,
    fun t code => (self.stmt t code).uninterrupted, fun f args => (self.call f args).uninterrupted, self.turns,
    self.alike⟩

/-- An interrupt that ends a part breaks the lockstep. -/
theorem breaks_of_interrupted {levels : Nat}
    (interrupted : ending ((interpreter ctx levels).run p) u = .error (.error .interrupted)) :
    (uninterrupted ctx).Breaks ((interpreter ctx levels).run p) u := by
  obtain ⟨t, run⟩ := exists_of_ending_error interrupted
  have ends := (uninterrupted_interprets ctx levels).run p u trivial
  rw [run] at ends
  refine ⟨.interrupted, t, run, rfl, ?_⟩
  generalize (interpreter ctx levels).run p _ = r at ends
  cases ends with
  | error later leaves => exact ⟨later, leaves⟩
  | broken _ later leaves => exact ⟨later, leaves⟩

/-- What is left of a run that was interrupted has the flag up, and so no finalizer comes to anything else. -/
theorem resumes (statement : ∀ t, Stops (sub.stmt t)) (final : List Stmt) : (uninterrupted ctx).Resumes sub final := by
  rintro e t - rfl leaves
  obtain ⟨u, run, raised⟩ := finalizer_stops statement final t (leaves.interrupted rfl)
  exact ⟨.interrupted, u, run, rfl, ⟨trivial, fun _ => raised⟩, ⟨nofun, nofun, fun _ => raised⟩⟩

/-- A step that asks for a part which is interrupted is interrupted. -/
theorem interrupted_of_asks {levels : Nat} {α : Type} (step : Interpreter → EvalM α)
    (alike : ∀ sub, (∀ t, Stops ((interpreter ctx levels).stmt t)) →
      (uninterrupted ctx).Interprets .all (interpreter ctx levels) sub →
      (uninterrupted ctx).Ends s (step (interpreter ctx levels) s) (step sub s))
    (asks : Asks step (interpreter ctx levels) s p u)
    (interrupted : ending ((interpreter ctx levels).run p) u = .error (.error .interrupted)) :
    ending (step (interpreter ctx levels)) s = .error (.error .interrupted) := by
  cases levels with
  | zero =>
    -- over no levels, parts are exhausted
    cases p <;> cases interrupted
  | succ levels =>
    have self := uninterrupted_interprets ctx (levels + 1)
    have breaks := breaks_of_interrupted interrupted
    obtain ⟨e, t, run, rfl⟩ := breaks_of_asks (L := uninterrupted ctx) (fun _ _ => rfl)
      (fun answer => alike _ (stmtStep_stops ctx _) (self.replacing (fun _ _ => rfl) (fun _ => breaks) answer)) asks
    exact ending_of_error run

end Lockstep

namespace Point

open EvalM

variable {ctx : Context} {s : State} {run : Run} {p q : Point}

/-- What asks for a part that is interrupted is interrupted. -/
theorem IsPartOf.interrupted (part : q.IsPartOf ctx p) (interrupted : q.ending ctx = .error (.error .interrupted)) :
    p.ending ctx = .error (.error .interrupted) := by
  obtain ⟨levels, asks⟩ := part
  have ends := Lockstep.interrupted_of_asks (fun sub => p.part.step ctx sub)
    (fun sub stops same =>
      Lockstep.Together.part same trivial trivial (fun _ _ _ _ => trivial) (Lockstep.resumes stops) p.state trivial)
    asks interrupted
  unfold ending
  rw [levels, interpreter_run]
  exact ends

end Point

/-- A run inside of which anything ends as interrupted ends as interrupted: an expression, a statement, a link of a
chain, a call, or any step that it comes to, such as the look at the flag before a turn of a loop. -/
theorem Run.interrupted_of_inside {ctx : Context} {s t : State} {run : Run} {p : Point} {β : Type} {y : EvalM β}
    (inside : p.Inside ctx s run) (comes : EvalM.Comes ((interpreter ctx p.levels).run p.part) p.state y t)
    (interrupted : EvalM.ending y t = .error (.error .interrupted)) :
    EvalM.ending (run.start ctx) s = .error (.error .interrupted) := by
  have here : p.ending ctx = .error (.error .interrupted) := comes.ending_eq interrupted
  clear comes interrupted
  induction inside with
  | run part =>
    obtain ⟨levels, asks⟩ := part
    unfold Point.ending at here
    rw [levels] at here
    rw [start_eq]
    refine Lockstep.interrupted_of_asks (fun sub => run.interpreted ctx sub) (fun sub _ same => ?_) asks here
    exact Lockstep.Ends.interpreted (Lockstep.enters_same _ _) same (fun _ _ => trivial) (fun _ _ _ => trivial) trivial
      trivial rfl
  | part inside part ih => exact ih (part.interrupted here)

open EvalM

/-- A function of a host that interrupts the run and gives `undefined`. -/
def stopFn : HostFn where
  name := "stop"
  arity := 0
  body given := .interrupt (.answer given)

/-- A context with a function that interrupts the run. -/
def stoppable : Context where
  locals := .undefined
  app := .undefined
  globals := [("stop", .native (.host stopFn) 0)]

/-- `while (true) stop();` -/
def stoppedLoop : Stmt :=
  .whileLoop (.literal (.bool true)) (.expr (.call (.name "stop") [] false))

/-- A turn of the loop. -/
def stoppedTurn (sub : Interpreter) : EvalM Bool := do
  if !(← sub.expr (.literal (.bool true))).isTruthy then return false
  runBody sub (.expr (.call (.name "stop") [] false))

/-- `try { while (true) stop(); } finally { return; }` -/
def stoppedAttempt : Stmt :=
  .attempt [stoppedLoop] none (some [.ret none])

/-- The state in which the loop starts. -/
def inAttempt : State where
  env := Environment.push {}

/-- The loop is a part of the `try` statement. -/
theorem stoppedAttempt_asks (sub : Interpreter) :
    Asks (fun sub => stmtStep stoppable sub stoppedAttempt) sub {} (.stmt stoppedLoop) inAttempt := by
  have ends : ∀ t, stmtStep stoppable (sub.replacing inAttempt (.stmt stoppedLoop) (.error .exhausted t)) stoppedAttempt
      {} = .error .exhausted { t with env := t.env.pop } := by
    intro t
    have answered := sub.replacing_run_self inAttempt (.stmt stoppedLoop) (.error .exhausted t)
    generalize sub.replacing inAttempt (.stmt stoppedLoop) (.error .exhausted t) = told at answered ⊢
    have hoisted : hoistLexical [stoppedLoop] inAttempt = .ok () inAttempt := rfl
    have body : evalStatements told [stoppedLoop] inAttempt = .error .exhausted t :=
      (bind_of_ok hoisted).trans (bind_of_error answered)
    have inner : EvalM.attempt (inScope (evalStatements told [stoppedLoop])) {} =
        .ok (.error .exhausted) { t with env := t.env.pop } := by
      rw [EvalM.attempt, inScope_of_error body]
    exact bind_of_ok (f := fun r => _) inner
  refine ⟨.error .exhausted {}, .error .exhausted { interrupted := true }, ?_⟩
  show stmtStep _ _ _ _ ≠ stmtStep _ _ _ _
  rw [ends, ends]
  intro same
  cases same

/-- A loop that raises the flag is interrupted, and the `return` of the `finally` around it does not take that back. -/
theorem interrupted_of_inside_stopped :
    EvalM.ending ((Run.statement stoppedAttempt).start stoppable) {} = .error (.error .interrupted) := by
  obtain ⟨n, granted⟩ : ∃ n, grantedLevels = n + 7 := ⟨999999999999999993, rfl⟩
  have outer : (Point.mk grantedLevels (.stmt stoppedAttempt) {}).Inside stoppable {} (.statement stoppedAttempt) := by
    refine .run ⟨rfl, .error .exhausted {}, .error .exhausted { interrupted := true }, ?_⟩
    show Interpreter.run _ (.stmt stoppedAttempt) _ ≠ Interpreter.run _ (.stmt stoppedAttempt) _
    rw [Interpreter.replacing_run_self, Interpreter.replacing_run_self]
    intro same
    cases same
  have inner : (Point.mk (n + 6) (.stmt stoppedLoop) inAttempt).Inside stoppable {}
      (.statement stoppedAttempt) := .part outer ⟨granted, stoppedAttempt_asks _⟩
  have comes : EvalM.Comes ((interpreter stoppable (n + 6)).run (.stmt stoppedLoop)) inAttempt
      checkInterrupt { inAttempt with interrupted := true } := by
    rw [interpreter_run]
    have again : stoppedTurn (interpreter stoppable (n + 5)) inAttempt =
        .ok true { inAttempt with interrupted := true } := rfl
    have first := comes_turn (stoppedTurn (interpreter stoppable (n + 5))) (n + 3) rfl again
    exact .next (u := inAttempt) rfl (.first (first.trans (comes_check _ (n + 2) _)))
  exact Run.interrupted_of_inside inner comes rfl
end BindScript
