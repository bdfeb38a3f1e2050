import BindScript.Proofs.Composed.Names
import BindScript.Proofs.Watch.Constants

/-!
# Variables are hoisted from wherever they stand

A function body or program hoists the variables of its statements before it runs them, and a name that is not bound is
written to the local context. So it matters that the search for variables finds every statement that the evaluation can
come to. It does: whatever is evaluated on the way of a program or of a call (`Point.InBody`), however it is nested in
other statements, if it is a statement then its variables are bound (`Part.HoistedIn`).

A step that is composed of its parts asks for no statement whose variables are not bound, since it is the same under any
other answer there (`Part.hoisted_of_asks`). From a program or a call this goes down to all points inside of it.
-/

namespace BindScript

open EvalM

variable {ctx : Context} {sub : Interpreter} {s u : State} {p q : Point} {t : Stmt}

/-- If the part is a statement, then its variables are bound. -/
def Part.HoistedIn (u : State) : Part → Prop
  | .stmt t => t.varNames ⊆ u.env.names
  | _ => True

/-- The answer to a statement whose variables are not bound is not told apart by composed steps. -/
theorem Interpreter.agree_replacing {p : Part} (unhoisted : ¬ p.HoistedIn u)
    (answer : EStateM.Result Exit State p.Value) : sub.AgreeHoisted (sub.replacing u p answer) := by
  cases p with
  | stmt t =>
    refine ⟨rfl, fun _ => rfl, fun _ => rfl, fun t' u' bound => ?_, fun _ _ => rfl⟩
    refine (sub.replacing_run_of_ne (q := .stmt t') ?_).symm
    rintro ⟨same, rfl⟩
    cases same
    exact unhoisted bound
  | _ => exact absurd trivial unhoisted

/-- A step that is the same for interpreters that agree where variables are bound asks only for such statements. -/
theorem Part.hoisted_of_asks {α : Type} {step : Interpreter → EvalM α} {p : Part}
    (same : ∀ other, sub.AgreeHoisted other → step sub s = step other s) (asks : Asks step sub s p u) :
    p.HoistedIn u := by
  by_contra unhoisted
  obtain ⟨a, b, ne⟩ := asks
  exact ne ((same _ (Interpreter.agree_replacing unhoisted a)).symm.trans
    (same _ (Interpreter.agree_replacing unhoisted b)))

/-- A call that is entered hoists its variables itself. -/
theorem EvalM.callStep_agree {other : Interpreter} (self : sub.Spares noCells) (agree : sub.AgreeHoisted other)
    (callee : Value) (args : List Value) (s : State) :
    EvalM.callStep ctx sub callee args s = EvalM.callStep ctx other callee args s := by
  cases callee with
  | closure a =>
    let c := s.heap.closureAt a
    have composed : Composed ctx [] fun sub => enteredCall ctx sub c args := .enteredCall c args
    show callClosure ctx sub c args s = callClosure ctx other c args s
    by_cases full : s.env.maxCallDepth ≤ s.env.callDepth
    · rw [callClosure_of_le full, callClosure_of_le full]
    · rw [callClosure_of_lt (Nat.not_le.1 full), callClosure_of_lt (Nat.not_le.1 full)]
      exact (composed.agree self agree).inEnvironment (List.nil_subset _) s
  | native f name => rfl
  | _ => rfl

/-- What a part asks for has its variables bound if the part itself has. -/
theorem Part.HoistedIn.of_part (hoisted : p.part.HoistedIn p.state) (part : q.IsPartOf ctx p) :
    q.part.HoistedIn q.state := by
  obtain ⟨-, asks⟩ := part
  refine hoisted_of_asks (fun other agree => ?_) asks
  have self := interpreter_spares ctx q.levels
  obtain ⟨levels, part, state⟩ := p
  cases part with
  | expr e =>
    have composed : Composed ctx [] fun sub => exprStep ctx sub e := .exprStep e
    exact composed.agree self agree _ (List.nil_subset _)
  | chain e =>
    have composed : Composed ctx [] fun sub => chainStep ctx sub e := .chainStep e
    exact composed.agree self agree _ (List.nil_subset _)
  | stmt t =>
    have composed : Composed ctx t.varNames fun sub => stmtStep ctx sub t := .stmtStep (List.Subset.refl _)
    exact composed.agree self agree _ hoisted
  | call callee args => exact callStep_agree self agree callee args _

/-- A program hoists the variables of its statements. -/
theorem Part.hoisted_of_program {statements : List Stmt} (part : p.IsPartOfRun ctx s (.program statements)) :
    p.part.HoistedIn p.state := by
  obtain ⟨-, asks⟩ := part
  refine hoisted_of_asks (fun other agree => ?_) asks
  have composed : Composed ctx [] fun sub => runStatementsIn sub statements := .runStatementsIn statements
  exact (composed.agree (interpreter_spares ctx grantedLevels) agree).inEnvironment (List.nil_subset _) s

/-- The part is evaluated on the way of a program, or of a call. -/
inductive Point.InBody (ctx : Context) : Point → Prop
  | program {s : State} {statements : List Stmt} {p : Point} (part : p.IsPartOfRun ctx s (.program statements)) :
    InBody ctx p
  | call {whole p : Point} {callee : Value} {args : List Value} (call : whole.part = .call callee args)
    (part : p.IsPartOf ctx whole) : InBody ctx p
  | part {p q : Point} (inside : InBody ctx p) (part : q.IsPartOf ctx p) : InBody ctx q

/-- **The variables of all statements of a program or function are bound when they run.** -/
theorem Point.InBody.hoisted (inside : p.InBody ctx) : p.part.HoistedIn p.state := by
  induction inside with
  | program part => exact Part.hoisted_of_program part
  | call call part => exact .of_part (call ▸ trivial) part
  | part _ part ih => exact ih.of_part part

/-- **Variables never leak.** When a statement of a program or function runs, all names that it or a statement in it
declares with `var` are bound. So what the statement does besides evaluating its parts is the same for any other local
context; this leaves out only the loops over a collection that declare nothing for the items. -/
theorem variables_never_leak (inside : p.InBody ctx) (statement : p.part = .stmt t) :
    t.varNames ⊆ p.state.env.names ∧
      (t.assignsItems = false → ∀ (levels : Nat) (other : Value),
        stmtStep ctx (interpreter ctx levels) t p.state =
          stmtStep { ctx with locals := other } (interpreter ctx levels) t p.state) := by
  have bound : t.varNames ⊆ p.state.env.names := by
    have hoisted := inside.hoisted
    rwa [statement] at hoisted
  refine ⟨bound, fun declares levels other => ?_⟩
  exact stmtStep_agree (interpreter_spares ctx levels) declares other p.state bound

/-- In `var x = null`, after hoisting, the name `x` is bound, and no local context matters. -/
theorem variables_never_leak_declaration : ["x"] ⊆ (boundX .var .undefined).env.names ∧
    stmtStep bareContext (interpreter bareContext 2) (.declare .var [nullDeclarator]) (boundX .var .undefined) =
      stmtStep { bareContext with locals := .object 0 } (interpreter bareContext 2) (.declare .var [nullDeclarator])
        (boundX .var .undefined) := by
  let p : Point := ⟨grantedLevels, .stmt (.declare .var [nullDeclarator]), boundX .var .undefined⟩
  have vars : hoistVars [.declare .var [nullDeclarator]] { env := .empty bareContext.options.maxCallDepth } =
      .ok () (boundX .var .undefined) := by cbv
  have asks : Asks _ bareContext.interpreter {} p.part p.state := Run.asks_first vars rfl bareContext.interpreter
  have inside : p.InBody bareContext := .program ⟨rfl, asks⟩
  obtain ⟨bound, same⟩ := variables_never_leak inside rfl
  exact ⟨bound, same rfl 2 (.object 0)⟩

end BindScript
