import BindScript.Evaluation
import BindScript.Proofs.Correspondence.Expression
import BindScript.Proofs.Correspondence.Statement

/-!
# Whole runs that correspond

Calls correspond as their bodies do (`Sim.callStep`), and so the interpreters of every number of levels
correspond (`interpreter_alike`): each level is made of steps over the level below. What follows is one
theorem for each way to start a run: `evalExpr`, `evalStmt`, `evaluate`, `runStatements` and `invoke`.
-/

namespace BindScript.Correspondence

variable {C : Correspondence} {sub₁ sub₂ : Interpreter} {m : Manner} {bound : List String}
  {w : C.World} {s₁ s₂ : State} {v₁ v₂ : Value} {args₁ args₂ : List Value}

namespace Sim

/-! ## Calls -/

/-- No jump leaves a function or program. -/
theorem settle {r₁ r₂ : Except Exit Value} (st : C.Alike w s₁ s₂) {env : Environment}
    (tried : Tried (C := C) .statement C.Vals w env r₁ r₂) :
    C.Sim m C.Vals w (EvalM.settle r₁) (EvalM.settle r₂) s₁ s₂ := by
  cases tried with
  | ok value => exact pure st value
  | error exit =>
    cases exit with
    | ret jumps value => exact pure st value
    | brk | cont => exact fail st nofun
    | error failure => exact throw st (.error failure)
    | exhausted => exact exhausted st
    | clash => exact throw st .clash

theorem runStatementsIn {statements : List Stmt} (sub : Interpreter.Alike C sub₁ sub₂)
    (st : C.At bound w s₁ s₂) (within : (Body.block statements).Within C.access bound) :
    C.Sim .binding C.Vals w (EvalM.runStatementsIn sub₁ statements)
      (EvalM.runStatementsIn sub₂ statements) s₁ s₂ := by
  unfold EvalM.runStatementsIn
  refine bind st (hoistVars statements st) fun {_ t₁ t₂ _ _} _ st holds => ?_
  have st : C.At (bound ++ Stmt.varNamesList statements) _ t₁ t₂ := ⟨st.toAlike, holds⟩
  have body : C.Sim .statement C.Vals _
      (do Functor.discard (EvalM.evalStatements sub₁ statements); return .undefined)
      (do Functor.discard (EvalM.evalStatements sub₂ statements); return .undefined) t₁ t₂ :=
    bind st (discard st.toAlike (evalStatements sub st within)) fun _ st _ =>
      pure st.toAlike .undefined
  exact bind (Q := Tried .statement C.Vals) st (attempt (m := .statement) (fun keeps => keeps) body)
    fun _ st tried => settle st.toAlike tried

/-- Parameters are bound from left to right, each default in sight of those before it. -/
theorem bindParams {params : List Element} (sub : Interpreter.Alike C sub₁ sub₂)
    (st : C.At bound w s₁ s₂) (within : Element.AllWithin C.access params bound)
    (args : Value.AllAlike (C.pairing w) args₁ args₂) :
    C.Sim .binding (fun w env left₁ left₂ => C.Lists w env left₁ left₂ ∧
        ∀ n ∈ bound ++ params.flatMap (fun p => p.target.boundNames), n ∈ env.names) w
      (EvalM.bindParams C.left sub₁ params args₁) (EvalM.bindParams C.right sub₂ params args₂)
      s₁ s₂ := by
  induction params generalizing bound w s₁ s₂ args₁ args₂ with
  | nil =>
    rw [List.flatMap_nil, List.append_nil]
    exact pure st.toAlike ⟨args, st.bound⟩
  | cons param rest ih =>
    obtain ⟨target, default⟩ := param
    unfold Element.AllWithin at within
    rw [List.flatMap_cons, ← List.append_assoc]
    unfold EvalM.bindParams
    refine bind st (withDefault sub st (args.argument 0) within.1) fun le st value => ?_
    refine bind st (bindPattern sub (.declare .param) target st within.2.1 (.declare _ _) value)
      fun le' st holds => ?_
    exact ih ⟨st.toAlike, holds⟩ within.2.2
      (List.forall₂_drop 1 (args.mono (C.pairing_le (le_trans le le'))))

theorem runFunctionBody {body : Body} (sub : Interpreter.Alike C sub₁ sub₂)
    (st : C.At bound w s₁ s₂) (within : body.Within C.access bound) :
    C.Sim .binding C.Vals w (EvalM.runFunctionBody sub₁ body) (EvalM.runFunctionBody sub₂ body)
      s₁ s₂ := by
  cases body with
  | expr e => exact sub.expr st within
  | block statements => exact runStatementsIn sub st within

/-- Corresponding closures have the same code, and their environments correspond. So do the bodies' results in the
scopes made for the call, and afterwards both are back in the scopes of the caller. -/
theorem callClosure {c₁ c₂ : Closure} (sub : Interpreter.Alike C sub₁ sub₂) (st : C.At bound w s₁ s₂)
    (closure : Closure.Alike (C.pairing w) C.access c₁ c₂)
    (args : Value.AllAlike (C.pairing w) args₁ args₂) :
    C.Sim m C.Vals w (EvalM.callClosure C.left sub₁ c₁ args₁) (EvalM.callClosure C.right sub₂ c₂ args₂)
      s₁ s₂ := by
  obtain ⟨name₁, ⟨params, rest, body⟩, captured₁⟩ := c₁
  obtain ⟨name₂, definition, captured₂⟩ := c₂
  obtain ⟨-, rfl, captured, names, sub', within⟩ := closure
  unfold Function.Within at within
  obtain ⟨paramsWithin, restWithin, bodyWithin⟩ := within
  unfold EvalM.callClosure
  apply readEnv_bind
  have same : s₁.env.enterCall = s₂.env.enterCall := by
    simp only [Environment.enterCall, st.env.callDepth, st.env.maxCallDepth]
  -- Both calls are as deep, so one is refused just when the other one is.
  rw [same]
  cases s₂.env.enterCall with
  | error fault => exact refuse fault st.toAlike
  | ok depth =>
    apply readEnv_bind
    rw [show (s₁.env.maxCallDepth) = s₂.env.maxCallDepth from st.env.maxCallDepth]
    refine inEnvironment st.toAlike lasts_vals ?_
    -- The scopes of a call hold what the closure has captured, and nothing of the caller.
    have inside : Environment.Alike (C.pairing w)
        (.forCall captured₁ depth s₂.env.maxCallDepth) (.forCall captured₂ depth s₂.env.maxCallDepth) :=
      ⟨captured, congrArg (fun n => [n]) captured.length_eq, rfl, rfl⟩
    have st : C.At names w { s₁ with env := .forCall captured₁ depth s₂.env.maxCallDepth }
        { s₂ with env := .forCall captured₂ depth s₂.env.maxCallDepth } :=
      ⟨⟨st.heap, inside, st.interrupted, st.console, st.notes⟩, sub'⟩
    refine bind (Q := fun w env left₁ left₂ => _ ∧ _) st (bindParams sub st paramsWithin args)
      fun {_ t₁ t₂ _ _} _ st left => ?_
    have st : C.At (names ++ params.flatMap fun p => p.target.boundNames) _ t₁ t₂ :=
      ⟨st.toAlike, left.2⟩
    cases rest with
    | none =>
      rw [Pattern.restNames, List.append_nil] at bodyWithin
      exact runFunctionBody sub st bodyWithin
    | some rest =>
      refine bind st (newArray st.toAlike left.1) fun _ st remaining => ?_
      refine bind st (bindPattern sub (.declare .param) rest st restWithin (.declare _ _) remaining)
        fun _ st holds => ?_
      exact runFunctionBody sub ⟨st.toAlike, holds⟩ bodyWithin

theorem callStep (sub : Interpreter.Alike C sub₁ sub₂) (st : C.At bound w s₁ s₂)
    (callee : Value.Alike (C.pairing w) v₁ v₂) (args : Value.AllAlike (C.pairing w) args₁ args₂) :
    C.Sim m C.Vals w (EvalM.callStep C.left sub₁ v₁ args₁) (EvalM.callStep C.right sub₂ v₂ args₂)
      s₁ s₂ := by
  have text := st.heapAlike.debugText_eq callee
  unfold EvalM.callStep
  cases callee with
  | native f => exact invoke f st args
  | closure paired => exact readHeap_bind (callClosure sub st (st.heapAlike.closure paired) args)
  | _ =>
    apply readHeap_bind
    rw [text]
    exact fail st.toAlike nofun

end Sim

/-! ## Levels -/

/-- The interpreters of any number of levels do the same in both runs. -/
theorem interpreter_alike (C : Correspondence) (levels : Nat) :
    Interpreter.Alike C (interpreter C.left levels) (interpreter C.right levels) := by
  induction levels with
  | zero =>
    exact ⟨rfl, fun st _ => Sim.exhausted st.toAlike, fun st _ => Sim.exhausted st.toAlike,
      fun st _ => Sim.exhausted st.toAlike, fun st _ _ => Sim.exhausted st.toAlike⟩
  | succ levels ih =>
    exact ⟨rfl, fun st within => Sim.exprStep ih st within,
      fun st within => Sim.chainStep ih st within, fun st within => Sim.stmtStep ih st within,
      fun st callee args => Sim.callStep ih st callee args⟩

theorem granted_alike (C : Correspondence) :
    Interpreter.Alike C C.left.interpreter C.right.interpreter :=
  interpreter_alike C grantedLevels

/-! ## Runs -/

theorem evalExpr {e : Expr} (st : C.At bound w s₁ s₂) (within : e.Within C.access bound) :
    C.Sim m C.Vals w (C.left.evalExpr e) (C.right.evalExpr e) s₁ s₂ :=
  (granted_alike C).expr st within

theorem evalStmt {s : Stmt} (st : C.At bound w s₁ s₂) (within : s.Within C.access bound) :
    C.Sim .statement C.Vals w (C.left.evalStmt s) (C.right.evalStmt s) s₁ s₂ :=
  (granted_alike C).stmt st within

/-- A step that runs on its own starts without any bindings. -/
theorem inFreshEnvironment {x₁ x₂ : EvalM Value} (st : C.Alike w s₁ s₂)
    (x : ∀ {t₁ t₂}, C.At [] w t₁ t₂ → C.Sim .binding C.Vals w x₁ x₂ t₁ t₂) :
    C.Sim m C.Vals w (C.left.inFreshEnvironment x₁) (C.right.inFreshEnvironment x₂) s₁ s₂ := by
  unfold Context.inFreshEnvironment
  rw [C.options_eq]
  have fresh : Environment.Alike (C.pairing w) (.empty C.right.options.maxCallDepth)
      (.empty C.right.options.maxCallDepth) := ⟨.nil, rfl, rfl, rfl⟩
  exact Sim.inEnvironment st lasts_vals
    (x ⟨⟨st.heap, fresh, st.interrupted, st.console, st.notes⟩, fun _ mem => nomatch mem⟩)

theorem evaluate {e : Expr} (st : C.Alike w s₁ s₂) (within : e.Within C.access []) :
    C.Sim m C.Vals w (C.left.evaluate e) (C.right.evaluate e) s₁ s₂ :=
  inFreshEnvironment st fun st =>
    Sim.bind (Q := Tried .statement C.Vals) st
      (Sim.attempt (m := .statement) (fun keeps => keeps) (evalExpr st within))
      fun _ st tried => Sim.settle st.toAlike tried

theorem runStatements {statements : List Stmt} (st : C.Alike w s₁ s₂)
    (within : (Body.block statements).Within C.access []) :
    C.Sim m C.Vals w (C.left.runStatements statements) (C.right.runStatements statements) s₁ s₂ :=
  inFreshEnvironment st fun st => Sim.runStatementsIn (granted_alike C) st within

theorem invoke (st : C.Alike w s₁ s₂) (callee : Value.Alike (C.pairing w) v₁ v₂)
    (args : Value.AllAlike (C.pairing w) args₁ args₂) :
    C.Sim m C.Vals w (C.left.invoke v₁ args₁) (C.right.invoke v₂ args₂) s₁ s₂ :=
  inFreshEnvironment st fun st =>
    Sim.bind (Q := Tried .statement C.Vals) st
      (Sim.attempt (m := .statement) (fun keeps => keeps) ((granted_alike C).call st callee args))
      fun _ st tried => Sim.settle st.toAlike tried

end BindScript.Correspondence
