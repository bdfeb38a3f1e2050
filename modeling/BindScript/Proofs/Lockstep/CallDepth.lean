import BindScript.Proofs.Lockstep.Interpreter

/-!
# The limit of nested calls

The limit is looked at in one place, where a closure is called, and all it does is to let the call fail. Nothing but a
finalizer can take that failure and end in another way. So code without finalizers either ends with a stack overflow,
or it ends under a higher limit as it does under this one. The two runs go in lockstep, and a stack overflow of the
first one breaks it.

A single run stays within its limit: wherever it comes to, calls are nested no deeper than that, and the limit is the
one that it started with. A body is entered only where there was room for one more call.
-/

namespace BindScript

/-- No `try` statement has a finalizer. -/
def NodeRule.unfinished : NodeRule where
  stmt t := ∀ statements handler final, t ≠ .attempt statements handler (some final)

namespace Lockstep

/-! ## A higher limit -/

variable {ctx : Context} {n m : Nat}

/-- A run under a limit, and next to it one under a limit that is at least as high. -/
def raised (ctx : Context) (le : n ≤ m) : Lockstep where
  left := ctx.limitedTo n
  right := ctx.limitedTo m
  contexts := ⟨m, rfl⟩
  within _ k := k = n
  limit _ := m
  breaks e := ∃ d k, e = .stackOverflow d k
  exhausts := True
  clashes := True
  uncaught := by
    rintro _ ⟨d, k, rfl⟩
    rfl
  enters d k same := .inr ⟨same ▸ le, d, k, rfl⟩

/-- Interpreters under a smaller and a larger limit go on in lockstep until the smaller one is hit. -/
theorem raised_interprets (ctx : Context) (le : n ≤ m) (levels : Nat) :
    (raised ctx le).Interprets (.obeying .unfinished) (confined (ctx.limitedTo n) .unfinished levels)
      (confined (ctx.limitedTo m) .unfinished levels) := by
  induction levels with
  | zero => exact Interprets.exhausted trivial
  | succ levels ih =>
    refine ⟨fun e code => ?_, fun e code => ?_, fun t code => ?_, fun f args s state => ?_, fun _ => rfl, fun _ => ?_⟩
    · exact Together.exprStep ih (Fragment.below (x := .expr e) code) (.inl trivial)
    · exact Together.chainStep ih (Fragment.below (x := .expr e) code) fun _ => code
    · have node := (Node.obeys_iff (x := .stmt t).1 code).1
      exact Together.stmtStep ih (Fragment.below (x := .stmt t) code) (fun _ => trivial)
        fun statements handler final same => absurd same (node statements handler final)
    · exact Ends.confinedCall (raised ctx le).enters ih (fun _ _ within _ => within) state
        fun f obeys => Function.obeys_iff.1 obeys
    · exact confined_alike _ _ (levels + 1)

end Lockstep

namespace Run

variable {ctx : Context} {s : State} {run : Run} {n m : Nat}

/-- The limit has no part in what a run can reach. -/
theorem Reaches.of_limitedTo {code : NodeRule} {v : Value}
    (reaches : run.Reaches code (ctx.limitedTo n) (s.limitedTo n) v) : run.Reaches code ctx s v := by
  obtain ⟨start, has, leads⟩ := reaches
  refine ⟨start, ?_, leads⟩
  cases has with
  | locals => exact .locals
  | app => exact .app
  | global named found => exact .global named found
  | given mem => exact .given mem
  | bound mem => exact .bound (by cases run <;> exact mem)

theorem ready_limitedTo (obeys : run.Obeys .unfinished)
    (closures : ∀ c, run.Reaches .unfinished ctx s (.closure c) → (s.heap.closureAt c).definition.Obeys .unfinished)
    (n : Nat) : run.Ready .unfinished False (ctx.limitedTo n) (s.limitedTo n) where
  obeys := obeys
  closures c reaches := closures c reaches.of_limitedTo
  values := False.elim
  lengths := False.elim
  arguments := False.elim

/-- A run of code without finalizers that does not end with a stack overflow ends in the same way under every higher
limit. -/
theorem ends_of_raised (obeys : run.Obeys .unfinished)
    (closures : ∀ c, run.Reaches .unfinished ctx s (.closure c) → (s.heap.closureAt c).definition.Obeys .unfinished)
    (le : n ≤ m) : (Lockstep.raised ctx le).Ends (s.limitedTo n) (run.start (ctx.limitedTo n) (s.limitedTo n))
      (run.start (ctx.limitedTo m) (s.limitedTo m)) := by
  rw [start_eq, start_eq]
  unfold Context.interpreter
  rw [(ready_limitedTo obeys closures n).confined, (ready_limitedTo obeys closures m).confined]
  have limit : (run.environment (ctx.limitedTo n) (s.limitedTo n)).maxCallDepth = n := by
    cases run <;> rfl
  exact Lockstep.Ends.interpreted (Lockstep.raised ctx le).enters (Lockstep.raised_interprets ctx le grantedLevels)
    (obeys_iff.1 obeys) (fun _ _ same => same) rfl limit rfl

end Run

/-! ## Within the limit -/

namespace Lockstep

variable {ctx : Context} {limit levels : Nat} {α : Type} {step : Interpreter → EvalM α} {s u : State} {p : Part}

/-- Calls are nested no deeper than the limit. -/
def Limited (limit d k : Nat) : Prop :=
  d ≤ k ∧ k = limit

theorem limited_inside (d k : Nat) (limited : Limited limit d k) (lt : d < k) : Limited limit (d + 1) k :=
  ⟨lt, limited.2⟩

/-- Nothing that runs within the limit asks for a part elsewhere. -/
theorem limited_of_asks (within : Nat → Nat → Prop)
    (alike : ∀ sub, (alone ctx (Limited limit)).Interprets .all (interpreter ctx levels) sub →
      (alone ctx within).Ends s (step (interpreter ctx levels) s) (step sub s))
    (asks : Asks step (interpreter ctx levels) s p u) : Limited limit u.env.callDepth u.env.maxCallDepth := by
  by_contra outside
  have self := alone_interprets ctx (Limited limit) limited_inside levels
  have same := breaks_of_asks (fun _ _ => rfl) (fun answer => alike _ (self.replacing (fun _ _ => rfl)
    (fun state => absurd state outside) answer)) asks
  obtain ⟨e, t, -, breaks⟩ := same
  exact breaks

end Lockstep

/-- Every point inside of a run is within the limit that the run started with. -/
theorem Point.Inside.limited {ctx : Context} {s : State} {run : Run} {p : Point} (inside : p.Inside ctx s run)
    (start : (run.environment ctx s).callDepth ≤ (run.environment ctx s).maxCallDepth) :
    Lockstep.Limited (run.environment ctx s).maxCallDepth p.state.env.callDepth p.state.env.maxCallDepth := by
  induction inside with
  | run part =>
    obtain ⟨-, asks⟩ := part
    refine Lockstep.limited_of_asks (fun _ _ => True) (fun sub same => ?_) asks
    exact Lockstep.Ends.interpreted (Lockstep.enters_same _ _) same (fun _ _ => trivial) (fun _ _ _ => trivial) trivial
      ⟨start, rfl⟩ rfl
  | part inside part ih =>
    obtain ⟨-, asks⟩ := part
    refine Lockstep.limited_of_asks (Lockstep.Limited (run.environment ctx s).maxCallDepth) (fun sub same => ?_) asks
    exact Lockstep.Together.part same trivial trivial Lockstep.limited_inside (fun _ _ _ _ breaks _ => breaks.elim) _ ih

/-- A closure that is called has its body run one call deeper than the caller, which is within the limit, or the call
ends before that. -/
theorem Lockstep.Limited.entered {ctx : Context} {sub : Interpreter} {limit : Nat} {u : State} {c : Closure}
    {args : List Value} (limited : Limited limit u.env.callDepth u.env.maxCallDepth) :
    EvalM.callClosure ctx sub c args u = .error (.error (.stackOverflow limit limit)) u ∨
      ∃ env, env.callDepth = u.env.callDepth + 1 ∧ env.callDepth ≤ limit ∧ env.maxCallDepth = limit ∧
        EvalM.callClosure ctx sub c args u = EvalM.inEnvironment env (EvalM.enteredCall ctx sub c args) u := by
  obtain ⟨le, same⟩ := limited
  rcases Nat.lt_or_ge u.env.callDepth u.env.maxCallDepth with room | full
  · exact .inr ⟨.forCall c.captured (u.env.callDepth + 1) u.env.maxCallDepth, rfl, same ▸ room, same,
      EvalM.callClosure_of_lt room⟩
  · have depth : u.env.callDepth = limit := (Nat.le_antisymm le full).trans same
    refine .inl ?_
    rw [EvalM.callClosure_of_le full, depth, same]

/-- Under a limit, a run of code without finalizers ends with a stack overflow, or it ends with the same result and
leaves the same state under every higher limit. And no run, whatever its code, enters the body of a function at a depth
above its limit: the body of a function that is called runs one call deeper than the call itself, and where the limit
is reached the call fails. -/
theorem Run.call_limit (ctx : Context) (s : State) (run : Run) :
    (run.Obeys .unfinished →
      (∀ c, run.Reaches .unfinished ctx s (.closure c) → (s.heap.closureAt c).definition.Obeys .unfinished) →
      ∀ n m, n ≤ m →
        (∀ v t, run.start (ctx.limitedTo n) (s.limitedTo n) = .ok v t →
          run.start (ctx.limitedTo m) (s.limitedTo m) = .ok v (t.limitedTo m)) ∧
        ∀ e t, run.start (ctx.limitedTo n) (s.limitedTo n) = .error e t →
          (∀ d k, e ≠ .error (.stackOverflow d k)) →
          run.start (ctx.limitedTo m) (s.limitedTo m) = .error e (t.limitedTo m)) ∧
    ∀ limit, limit = (run.environment ctx s).maxCallDepth → (run.environment ctx s).callDepth ≤ limit →
      (∀ p : Point, p.Inside ctx s run → p.state.env.callDepth ≤ limit) ∧
      ∀ levels c args u, (Point.mk (levels + 1) (.call (.closure c) args) u).Inside ctx s run →
        (interpreter ctx (levels + 1)).call (.closure c) args u = .error (.error (.stackOverflow limit limit)) u ∨
          ∃ env, env.callDepth = u.env.callDepth + 1 ∧ env.callDepth ≤ limit ∧ env.maxCallDepth = limit ∧
            (interpreter ctx (levels + 1)).call (.closure c) args u = EvalM.inEnvironment env
              (EvalM.enteredCall ctx (interpreter ctx levels) (u.heap.closureAt c) args) u := by
  refine ⟨fun obeys closures n m le => ?_, ?_⟩
  · -- what breaks the lockstep is a stack overflow, so where there is none both runs have gone on to the end
    have ends := ends_of_raised obeys closures le
    generalize run.start (ctx.limitedTo n) (s.limitedTo n) = r₁ at ends ⊢
    generalize run.start (ctx.limitedTo m) (s.limitedTo m) = r₂ at ends ⊢
    refine ⟨fun v t same => ?_, fun e t same other => ?_⟩
    · subst same
      cases ends with
      | ok => rfl
    · subst same
      cases ends with
      | error => rfl
      | broken breaks =>
        obtain ⟨d, k, rfl⟩ := breaks
        exact absurd rfl (other d k)
  · rintro limit rfl start
    refine ⟨fun p inside => ?_, fun levels c args u inside => (inside.limited start).entered⟩
    obtain ⟨le, same⟩ := inside.limited start
    exact same ▸ le

/-- A heap with the functions `() => yes()` and `yes = () => true`. -/
def twoCallsHeap : Heap where
  closures := #[⟨none, .mk [] none (.expr (.call (.name "yes") [] false)), #[⟨"yes", 0, .const⟩]⟩,
    ⟨some "yes", .mk [] none (.expr (.literal (.bool true))), #[]⟩]
  cells := #[.closure 1]

/-- Two calls fit under a limit of two, so the run is the same under a limit of four. -/
theorem Run.call_limit_nested :
    let ctx : Context := { locals := .undefined, app := .undefined }
    let s : State := { heap := twoCallsHeap }
    let run := Run.call (.closure 0) []
    run.start (ctx.limitedTo 4) (s.limitedTo 4) = .ok (.bool true) (s.limitedTo 4) ∧
      ∀ p : Point, p.Inside ctx s run → p.state.env.callDepth ≤ ctx.options.maxCallDepth := by
  intro ctx s run
  obtain ⟨raised, within⟩ := call_limit ctx s run
  have closures : ∀ c, run.Reaches .unfinished ctx s (.closure c) →
      (s.heap.closureAt c).definition.Obeys .unfinished := by
    rintro (_ | _ | c) -
    · exact ⟨trivial, trivial, trivial, trivial, trivial⟩
    · exact ⟨trivial, trivial, trivial⟩
    · rw [show s.heap.closureAt (c + 2) = default by simp [s, Heap.closureAt, twoCallsHeap]]
      exact ⟨trivial, trivial, trivial⟩
  have two : run.start (ctx.limitedTo 2) (s.limitedTo 2) = .ok (.bool true) (s.limitedTo 2) := rfl
  exact ⟨(raised trivial closures 2 4 (by decide)).1 _ (s.limitedTo 2) two, (within _ rfl (Nat.zero_le _)).1⟩

end BindScript
