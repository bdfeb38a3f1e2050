import BindScript.Proofs.Control.Absorption

/-!
# Where jumps end

No jump leaves an expression, a call or a program. A `break` ends the innermost loop or `switch` around it, a
`continue` the present turn of the innermost loop, a `return` the call whose body it stands in; and where there
is no loop around it in the same body, a `break` or `continue` becomes a failure of the call. The one thing
that can come in between is a finalizer that ends in a way of its own. `JumpsEnd` says so for all code,
and `jumps_end` proves it.

A statement in the middle of being run is a `Running`. One is a part of another if the other's end depends on
how it ends (`Running.IsPartOf`), and chains of parts, up to a construct that the jump is meant for, are
`Running.Inside`. Calls inside of an expression are not on such a chain, so a chain stays in one function body.
-/

namespace BindScript

open EvalM

namespace Due

variable {ctx : Context} {sub : Interpreter} {t : Stmt} {u s : State} {j : Jump}

/-- A jump that is not meant for a statement leaves it, unless a finalizer ends in a way of its own. -/
theorem uncaught (alike : Interpreter.Alike (.mirror ctx) sub sub)
    (ends : ending (sub.stmt t) u = .error (.jump j)) {around : Stmt}
    (uncaught : around.catches j = false) :
    Due sub t u (fun sub => stmtStep ctx sub around) s
      (fun r => r = .error (.jump j) ∨ ∃ e, r = .error e ∧ Overrules sub around j s e) := by
  have left : ∀ {r : Except Exit Value}, j ≠ .brk → r = j.pastBreak .undefined →
      r = .error (.jump j) := fun ne past => by
    cases j with
    | brk => exact absurd rfl ne
    | cont | ret => exact past
  -- A loop catches both jumps of its body, so what it does not catch is a `return`.
  have passes : around.isLoop = true → j ≠ .brk ∧ j ≠ .cont := fun isLoop => by
    cases j with
    | brk => simp [Stmt.catches, isLoop] at uncaught
    | cont => simp [Stmt.catches, isLoop] at uncaught
    | ret v => exact ⟨nofun, nofun⟩
  have loops : around.isLoop = true → Due sub t u (fun sub => stmtStep ctx sub around) s
      (fun r => r = .error (.jump j) ∨ ∃ e, r = .error e ∧ Overrules sub around j s e) :=
    fun isLoop =>
      (loop alike ends (passes isLoop).2 isLoop).imp fun past => .inl (left (passes isLoop).1 past)
  cases around with
  | block statements => exact (block ends statements).imp .inl
  | branch test consequent alternate => exact (branch ends test consequent alternate).imp .inl
  | whileLoop | doWhile | forLoop | forEach => exact loops rfl
  | attempt statements handler finalizer => exact tryStatement ends statements handler finalizer
  | switch discriminant cases =>
    have ne : j ≠ .brk := fun same => by
      subst same
      cases uncaught
    exact (switch ends discriminant cases).imp fun past => .inl (left ne past)
  -- Declarations run no statement, so their end is the same whatever is answered for one.
  | declare kind declarators =>
    refine fixed fun _ => ?_
    simp only [stmtStep, evalDeclaration_answering]
  | ret value => cases value <;> exact fixed fun _ => rfl
  | _ => exact fixed fun _ => rfl

end Due

/-! ## After a `continue` -/

namespace EvalM

variable {ctx : Context} {sub : Interpreter} {t : Stmt} {u w : State}

theorem runBody_continue (v : Value) (body : Stmt) :
    runBody (sub.answering t u (.error (.jump .cont) w)) body =
      runBody (sub.answering t u (.ok v w)) body := by
  funext s
  by_cases here : body = t ∧ s = u
  · obtain ⟨rfl, rfl⟩ := here
    simp only [runBody, attempt, Bind.bind, EStateM.bind, Interpreter.answering_self]
  · simp only [runBody, attempt, Bind.bind, EStateM.bind, Interpreter.answering_of_ne here]

/-- To a loop, a body that ends with `continue` has run to its end. -/
theorem loop_continue (v : Value) {l : Stmt} (isLoop : l.isLoop = true) :
    stmtStep ctx (sub.answering t u (.error (.jump .cont) w)) l =
      stmtStep ctx (sub.answering t u (.ok v w)) l := by
  cases l with
  | whileLoop test body =>
    simp only [stmtStep, runBody_continue v]
    rfl
  | doWhile body test =>
    simp only [stmtStep, runBody_continue v]
    rfl
  | forLoop init test update body =>
    simp only [stmtStep, evalFor_eq, forTurn, runTurn, evalForInit_answering, runBody_continue v]
    rfl
  | forEach visits kind pattern object body =>
    have visit : visitItem ctx (sub.answering t u (.error (.jump .cont) w)) kind pattern body =
        visitItem ctx (sub.answering t u (.ok v w)) kind pattern body := by
      funext item
      simp only [visitItem, bindPattern_answering, runBody_continue v]
    simp only [stmtStep, visit]
    rfl
  | _ => cases isLoop

end EvalM

/-! ## Statements inside of statements -/

/-- A statement as it is run: over how many levels, and from which state. -/
structure Running where
  levels : Nat
  stmt : Stmt
  state : State

namespace Running

variable {ctx : Context} {j : Jump} {inner outer around whole : Running}

/-- How the run of the statement ends. -/
def ending (ctx : Context) (r : Running) : Except Exit Value :=
  EvalM.ending ((interpreter ctx r.levels).stmt r.stmt) r.state

/-- One run is a part of another: that one's step runs the statement, and ends as it does because of how the
statement ends. -/
def IsPartOf (ctx : Context) (part whole : Running) : Prop :=
  whole.levels = part.levels + 1 ∧
    Hinges (fun sub => stmtStep ctx sub whole.stmt) (interpreter ctx part.levels) whole.state
      part.stmt part.state

/-- One statement runs inside of another, and neither that one nor any in between catches the jump. -/
inductive Inside (ctx : Context) (j : Jump) (inner : Running) : Running → Prop
  | here : Inside ctx j inner inner
  | part {outer around : Running} (inside : Inside ctx j inner outer) (part : IsPartOf ctx outer around)
      (uncaught : around.stmt.catches j = false) : Inside ctx j inner around

/-- The jump came to the finalizer of the statement, which ended in a way of its own. -/
def Overruled (ctx : Context) (j : Jump) (r : Running) : Prop :=
  ∃ levels e, r.levels = levels + 1 ∧ r.ending ctx = .error e ∧
    Overrules (interpreter ctx levels) r.stmt j r.state e

/-- Somewhere on the way out a finalizer ended in a way of its own. -/
def OverruledBetween (ctx : Context) (j : Jump) (inner outer : Running) : Prop :=
  ∃ r, Inside ctx j inner r ∧ Inside ctx j r outer ∧ r.Overruled ctx j

/-- A statement's end is that of its step over one level less. -/
theorem IsPartOf.ending_eq (part : IsPartOf ctx outer around) : around.ending ctx =
    EvalM.ending (stmtStep ctx (interpreter ctx outer.levels) around.stmt) around.state := by
  unfold ending
  rw [part.1]
  rfl

/-- Over all levels that the entry points grant, a statement is run by their interpreter. -/
theorem ending_granted (levels : outer.levels = grantedLevels) :
    outer.ending ctx = EvalM.ending (ctx.interpreter.stmt outer.stmt) outer.state := by
  unfold ending Context.interpreter
  rw [levels]

/-- A jump leaves all the statements up to one that it is meant for. -/
theorem Inside.passes (inside : Inside ctx j inner outer)
    (jumps : inner.ending ctx = .error (.jump j)) :
    outer.ending ctx = .error (.jump j) ∨ OverruledBetween ctx j inner outer := by
  induction inside with
  | here => exact .inl jumps
  | @part outer around inside part uncaught ih =>
    rcases ih with left | ⟨r, before, after, overruled⟩
    · have alike := Correspondence.mirror_interpreter ctx outer.levels
      have due := (Due.uncaught alike left uncaught).of_hinges part.2
      rw [← part.ending_eq] at due
      rcases due with left | ⟨e, ends, overrules⟩
      · exact .inl left
      · exact .inr ⟨around, .part inside part uncaught, .here, outer.levels, e, part.1, ends, overrules⟩
    · exact .inr ⟨r, before, .part after part uncaught, overruled⟩

/-- A loop or `switch` that a `break` comes to has then run to its end. -/
theorem IsPartOf.broken (part : IsPartOf ctx outer whole) (left : outer.ending ctx = .error (.jump .brk))
    (catches : whole.stmt.catches .brk = true) : whole.ending ctx = .ok .undefined := by
  have alike := Correspondence.mirror_interpreter ctx outer.levels
  rw [part.ending_eq]
  rcases Stmt.catches_brk catches with isLoop | ⟨discriminant, cases, switch⟩
  · exact (Due.loop alike left nofun isLoop).of_hinges part.2
  · have hinges := part.2
    rw [switch] at hinges ⊢
    exact (Due.switch left discriminant cases).of_hinges hinges

/-- To the loop around it, a part that ends with `continue` has run to its end. -/
theorem IsPartOf.continued (part : IsPartOf ctx outer whole) (left : outer.ending ctx = .error (.jump .cont))
    (catches : whole.stmt.catches .cont = true) : ∃ w,
      (interpreter ctx outer.levels).stmt outer.stmt outer.state = .error (.jump .cont) w ∧
      ∀ v, (interpreter ctx whole.levels).stmt whole.stmt whole.state =
        stmtStep ctx ((interpreter ctx outer.levels).answering outer.stmt outer.state (.ok v w))
          whole.stmt whole.state := by
  obtain ⟨w, run⟩ := exists_of_ending_error left
  refine ⟨w, run, fun v => ?_⟩
  rw [part.1, ← loop_continue v catches, ← run, Interpreter.answering_same]
  rfl

end Running

/-! ## All jumps -/

/-- Where the jumps of the code that runs in a context end. -/
structure JumpsEnd (ctx : Context) : Prop where
  /-- No expression ends in a jump, wherever it stands. -/
  expression : ∀ levels e s j, EvalM.ending ((interpreter ctx levels).expr e) s ≠ .error (.jump j)
  /-- No call does either: not those that the code makes, and not those of callbacks or in defaults. -/
  call : ∀ levels callee args s j,
    EvalM.ending ((interpreter ctx levels).call callee args) s ≠ .error (.jump j)
  evaluate : ∀ e s j, EvalM.ending (ctx.evaluate e) s ≠ .error (.jump j)
  program : ∀ statements s j, EvalM.ending (ctx.runStatements statements) s ≠ .error (.jump j)
  invoke : ∀ callee args s j, EvalM.ending (ctx.invoke callee args) s ≠ .error (.jump j)
  /-- A statement that catches a jump does not end in it. -/
  caught : ∀ j (whole : Running), whole.stmt.catches j = true → whole.ending ctx ≠ .error (.jump j)
  /-- A `break` ends the innermost loop or `switch`, which has then run to its end. -/
  brk : ∀ {inner outer whole : Running}, inner.ending ctx = .error (.jump .brk) →
    Running.Inside ctx .brk inner outer → Running.IsPartOf ctx outer whole →
    whole.stmt.catches .brk = true →
    whole.ending ctx = .ok .undefined ∨ Running.OverruledBetween ctx .brk inner outer
  /-- A `continue` ends a turn of the innermost loop: that goes on as if its body had run to its end. -/
  cont : ∀ {inner outer whole : Running}, inner.ending ctx = .error (.jump .cont) →
    Running.Inside ctx .cont inner outer → Running.IsPartOf ctx outer whole →
    whole.stmt.catches .cont = true →
    (∃ w, (interpreter ctx outer.levels).stmt outer.stmt outer.state = .error (.jump .cont) w ∧
      ∀ v, (interpreter ctx whole.levels).stmt whole.stmt whole.state =
        stmtStep ctx ((interpreter ctx outer.levels).answering outer.stmt outer.state (.ok v w))
          whole.stmt whole.state) ∨ Running.OverruledBetween ctx .cont inner outer
  /-- At the border of a function a `return` is the value of the call, and other jumps are failures. -/
  body : ∀ {inner outer : Running} {j callee args s}, inner.ending ctx = .error (.jump j) →
    Running.Inside ctx j inner outer →
    Hinges (fun sub => callStep ctx sub callee args) (interpreter ctx outer.levels) s outer.stmt
      outer.state →
    EvalM.ending ((interpreter ctx (outer.levels + 1)).call callee args) s = j.atBorder ∨
      Running.OverruledBetween ctx j inner outer
  /-- So it is at the border of a program. -/
  border : ∀ {inner outer : Running} {j statements s}, inner.ending ctx = .error (.jump j) →
    Running.Inside ctx j inner outer → outer.levels = grantedLevels →
    Hinges (fun sub => ctx.inFreshEnvironment (runStatementsIn sub statements)) ctx.interpreter s
      outer.stmt outer.state →
    EvalM.ending (ctx.runStatements statements) s = j.atBorder ∨
      Running.OverruledBetween ctx j inner outer

/-- **Jumps end in their constructs.** -/
theorem jumps_end (ctx : Context) : JumpsEnd ctx := by
  have alike := Correspondence.mirror_interpreter ctx
  refine
    { expression := fun levels e _ _ => Quiet.expr (alike levels) e
      call := fun levels callee args _ _ => Quiet.call (alike levels) callee args
      evaluate := fun e _ _ => Quiet.inFreshEnvironment (Quiet.settled _)
      program := fun statements _ _ => Quiet.inFreshEnvironment (Quiet.runStatementsIn statements)
      invoke := fun callee args _ _ => Quiet.inFreshEnvironment (Quiet.settled _)
      caught := fun j whole catches => ?caught
      brk := fun jumps inside part catches => ?brk
      cont := fun jumps inside part catches => ?cont
      body := fun jumps inside hinges => ?body
      border := fun jumps inside levels hinges => ?border }
  case caught =>
    obtain ⟨levels, t, s⟩ := whole
    cases levels with
    | zero => exact nofun
    | succ levels => exact Quiet.stmtStep (alike levels) catches
  case brk =>
    exact (inside.passes jumps).imp_left fun left => part.broken left catches
  case cont =>
    exact (inside.passes jumps).imp_left fun left => part.continued left catches
  case body =>
    exact (inside.passes jumps).imp_left fun left => (Due.callStep left _ _).of_hinges hinges
  case border =>
    refine (inside.passes jumps).imp_left fun left => ?_
    rw [Running.ending_granted levels] at left
    exact (Due.inEnvironment (Due.runStatementsIn left _)).of_hinges hinges

end BindScript
