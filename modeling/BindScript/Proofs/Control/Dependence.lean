import Mathlib.Logic.Basic
import BindScript.Evaluation

/-!
# What the end of one statement decides

`Interpreter.answering` is an interpreter whose answer for one statement, run from one state, is replaced.
The end of a step depends on how that statement ends (`Hinges`) if two such answers make a difference to it.
This says, without looking into the step, that it runs the statement from that state.

To find out what an answer leads to, a step is followed up to where the answer is asked for: `Due` says that
the step either comes to that point, and ends in a way that is due to the answer, or does not depend on it at
all. There is one lemma for each way in which steps are joined, and one for each kind of loop.
-/

namespace BindScript

namespace EvalM

variable {α β : Type} {x : EvalM α} {f : α → EvalM β} {s t : State}

/-- How a step ends, whatever state it leaves behind. -/
def ending (x : EvalM α) (s : State) : Except Exit α :=
  match x s with
  | .ok a _ => .ok a
  | .error e _ => .error e

theorem ending_of_ok {a : α} (run : x s = .ok a t) : ending x s = .ok a := by
  simp only [ending, run]

theorem ending_of_error {e : Exit} (run : x s = .error e t) : ending x s = .error e := by
  simp only [ending, run]

theorem exists_of_ending_ok {a : α} (ends : ending x s = .ok a) : ∃ t, x s = .ok a t := by
  unfold ending at ends
  split at ends
  next b t run =>
    cases ends
    exact ⟨t, run⟩
  next => cases ends

theorem exists_of_ending_error {e : Exit} (ends : ending x s = .error e) : ∃ t, x s = .error e t := by
  unfold ending at ends
  split at ends
  next => cases ends
  next e' t run =>
    cases ends
    exact ⟨t, run⟩

/-- A step goes on where its first part ended. -/
theorem bind_of_ok {a : α} (run : x s = .ok a t) : (x >>= f) s = f a t := by
  show EStateM.bind x f s = f a t
  simp only [EStateM.bind, run]

/-- A step ends where its first part fails. -/
theorem bind_of_error {e : Exit} (run : x s = .error e t) : (x >>= f) s = .error e t := by
  show EStateM.bind x f s = .error e t
  simp only [EStateM.bind, run]

/-- A step that gives a value has one from its first part. -/
theorem exists_of_bind_ok {b : β} (run : (x >>= f) s = .ok b t) :
    ∃ a s', x s = .ok a s' ∧ f a s' = .ok b t := by
  cases first : x s with
  | ok a s' => exact ⟨a, s', rfl, (bind_of_ok first).symm.trans run⟩
  | error e s' => cases (bind_of_error first).symm.trans run

theorem eq_of_checkInterrupt {u : Unit} (run : checkInterrupt s = .ok u t) : t = s := by
  unfold checkInterrupt at run
  split at run <;> cases run
  rfl

theorem ending_bind_of_ok {a : α} (run : x s = .ok a t) : ending (x >>= f) s = ending (f a) t := by
  simp only [ending, bind_of_ok run]

theorem ending_bind_of_error {e : Exit} (ends : ending x s = .error e) :
    ending (x >>= f) s = .error e := by
  obtain ⟨t, run⟩ := exists_of_ending_error ends
  exact ending_of_error (bind_of_error run)

theorem ending_attempt (x : EvalM α) (s : State) : ending (attempt x) s = .ok (ending x s) := by
  simp only [ending, attempt]
  cases x s <;> rfl

theorem ending_resume (e : Except Exit α) (s : State) : ending (resume e) s = e := by
  cases e <;> rfl

/-- A scope of its own does not change how a step ends. -/
theorem ending_inScope (x : EvalM α) (s : State) :
    ending (inScope x) s = ending x { s with env := s.env.push } := by
  simp only [ending, inScope, modifyEnv, attempt, Bind.bind, EStateM.bind]
  cases x { s with env := s.env.push } <;> rfl

/-- A step in other scopes ends as it does there, and comes back to the present ones. -/
theorem inEnvironment_apply (env : Environment) (x : EvalM α) (s : State) :
    inEnvironment env x s = match x { s with env } with
      | .ok a t => .ok a { t with env := s.env }
      | .error e t => .error e { t with env := s.env } := by
  simp only [inEnvironment, readEnv, modifyEnv, attempt, Bind.bind, EStateM.bind]
  cases x { s with env } <;> rfl

theorem ending_inEnvironment (env : Environment) (x : EvalM α) (s : State) :
    ending (inEnvironment env x) s = ending x { s with env } := by
  simp only [ending, inEnvironment_apply]
  cases x { s with env } <;> rfl

end EvalM

open EvalM

/-- An expression that has a value in an environment without bindings has it on its own. -/
theorem Context.evaluate_of_ok {ctx : Context} {e : Expr} {s t : State} {v : Value}
    (run : ctx.evalExpr e { s with env := .empty ctx.options.maxCallDepth } = .ok v t) :
    ctx.evaluate e s = .ok v { t with env := s.env } := by
  have ended : attempt (ctx.evalExpr e) { s with env := .empty ctx.options.maxCallDepth } = .ok (.ok v) t := by
    rw [attempt, run]
  rw [Context.evaluate, Context.inFreshEnvironment, inEnvironment_apply, bind_of_ok ended]
  rfl

open Classical in
/-- The interpreter that is told what to answer when it is asked to run `t` from the state `u`. -/
noncomputable def Interpreter.answering (sub : Interpreter) (t : Stmt) (u : State)
    (answer : EStateM.Result Exit State Value) : Interpreter :=
  { sub with stmt := fun t' u' => if t' = t ∧ u' = u then answer else sub.stmt t' u' }

/-- How a step ends depends on how the statement `t` ends when it is run from `u`. -/
def Hinges {α : Type} (step : Interpreter → EvalM α) (sub : Interpreter) (s : State) (t : Stmt)
    (u : State) : Prop :=
  ∃ a b, step (sub.answering t u a) s ≠ step (sub.answering t u b) s

/-- Either the step ends in a way that is due to how `t` ends from `u`, or it does not depend on that. -/
def Due {α : Type} (sub : Interpreter) (t : Stmt) (u : State) (step : Interpreter → EvalM α) (s : State)
    (Q : Except Exit α → Prop) : Prop :=
  Q (ending (step sub) s) ∨ ∀ answer, step (sub.answering t u answer) s = step sub s

namespace Interpreter

variable {sub : Interpreter} {t : Stmt} {u : State} {answer : EStateM.Result Exit State Value}

theorem answering_self : (sub.answering t u answer).stmt t u = answer :=
  if_pos ⟨rfl, rfl⟩

theorem answering_of_ne {t' : Stmt} {u' : State} (ne : ¬ (t' = t ∧ u' = u)) :
    (sub.answering t u answer).stmt t' u' = sub.stmt t' u' :=
  if_neg ne

/-- The answer that would have been given anyway. -/
theorem answering_same : sub.answering t u (sub.stmt t u) = sub := by
  have same : ∀ t' u', (sub.answering t u (sub.stmt t u)).stmt t' u' = sub.stmt t' u' := fun t' u' => by
    by_cases here : t' = t ∧ u' = u
    · obtain ⟨rfl, rfl⟩ := here
      exact answering_self
    · exact answering_of_ne here
  have stmt : (sub.answering t u (sub.stmt t u)).stmt = sub.stmt :=
    funext fun t' => funext fun u' => same t' u'
  exact congrArg (fun stmt => { sub with stmt }) stmt

end Interpreter

namespace Due

variable {α β : Type} {sub : Interpreter} {t : Stmt} {u s : State} {step : Interpreter → EvalM α}
  {P Q : Except Exit α → Prop} {R : Except Exit β → Prop}

/-- A step that hinges on the statement ends as the statement makes it end. -/
theorem of_hinges (due : Due sub t u step s Q) (hinges : Hinges step sub s t u) :
    Q (ending (step sub) s) := by
  rcases due with due | same
  · exact due
  · obtain ⟨a, b, ne⟩ := hinges
    exact absurd ((same a).trans (same b).symm) ne

theorem imp (due : Due sub t u step s P) (h : P (ending (step sub) s) → Q (ending (step sub) s)) :
    Due sub t u step s Q :=
  due.imp_left h

/-- A step that runs no statements depends on none. -/
theorem fixed (same : ∀ answer, step (sub.answering t u answer) = step sub) : Due sub t u step s Q :=
  .inr fun answer => congrFun (same answer) s

/-- Running a statement is due to the one that is answered for, or another matter. -/
theorem stmt {e : Exit} (ends : ending (sub.stmt t) u = .error e) (t' : Stmt) :
    Due sub t u (fun sub => sub.stmt t') s (· = .error e) := by
  by_cases here : t' = t ∧ s = u
  · obtain ⟨rfl, rfl⟩ := here
    exact .inl ends
  · exact .inr fun _ => Interpreter.answering_of_ne here

theorem bind {f : α → Interpreter → EvalM β} (first : Due sub t u step s P)
    (due : P (ending (step sub) s) → R (ending (step sub >>= fun a => f a sub) s))
    (next : ∀ a s', step sub s = .ok a s' → Due sub t u (f a) s' R) :
    Due sub t u (fun sub => step sub >>= fun a => f a sub) s R := by
  rcases first with first | same
  · exact .inl (due first)
  · cases run : step sub s with
    | error e s' =>
      refine .inr fun answer => ?_
      exact (bind_of_error ((same answer).trans run)).trans (bind_of_error run).symm
    | ok a s' =>
      rcases next a s' run with later | same'
      · exact .inl (by rw [ending_bind_of_ok run]; exact later)
      · refine .inr fun answer => ?_
        have left := bind_of_ok (f := fun a => f a (sub.answering t u answer)) ((same answer).trans run)
        have right := bind_of_ok (f := fun a => f a sub) run
        exact left.trans ((same' answer).trans right.symm)

/-- What comes first depends on no statement. -/
theorem after {f : α → Interpreter → EvalM β}
    (same : ∀ answer, step (sub.answering t u answer) = step sub)
    (next : ∀ a s', step sub s = .ok a s' → Due sub t u (f a) s' R) :
    Due sub t u (fun sub => step sub >>= fun a => f a sub) s R :=
  bind (P := fun _ => False) (fixed same) False.elim next

/-- The exit that is due ends what follows as well. -/
theorem bind_exit {e : Exit} {f : α → Interpreter → EvalM β}
    (first : Due sub t u step s (· = .error e))
    (next : ∀ a s', step sub s = .ok a s' → Due sub t u (f a) s' (· = .error e)) :
    Due sub t u (fun sub => step sub >>= fun a => f a sub) s (· = .error e) :=
  bind first ending_bind_of_error next

theorem attempt (due : Due sub t u step s Q) :
    Due sub t u (fun sub => EvalM.attempt (step sub)) s (fun r => ∃ e, r = .ok e ∧ Q e) := by
  rcases due with due | same
  · exact .inl ⟨_, ending_attempt _ _, due⟩
  · refine .inr fun answer => ?_
    simp only [EvalM.attempt, same answer]

theorem inScope (due : Due sub t u step { s with env := s.env.push } Q) :
    Due sub t u (fun sub => EvalM.inScope (step sub)) s Q := by
  rcases due with due | same
  · exact .inl (by rw [ending_inScope]; exact due)
  · refine .inr fun answer => ?_
    simp only [EvalM.inScope, modifyEnv, EvalM.attempt, Bind.bind, EStateM.bind, same answer]

theorem inEnvironment {env : Environment} (due : Due sub t u step { s with env } Q) :
    Due sub t u (fun sub => EvalM.inEnvironment env (step sub)) s Q := by
  rcases due with due | same
  · exact .inl (by rw [ending_inEnvironment]; exact due)
  · refine .inr fun answer => ?_
    simp only [EvalM.inEnvironment, readEnv, modifyEnv, EvalM.attempt, Bind.bind, EStateM.bind, id,
      same answer]

theorem ite {c : Prop} [Decidable c] {other : Interpreter → EvalM α} (yes : c → Due sub t u step s Q)
    (no : ¬ c → Due sub t u other s Q) :
    Due sub t u (fun sub => if c then step sub else other sub) s Q := by
  by_cases holds : c
  · simp only [if_pos holds]
    exact yes holds
  · simp only [if_neg holds]
    exact no holds

/-- The statements of a list, one after another. -/
theorem foldlM {e : Exit} {step : α → Stmt → Interpreter → EvalM α}
    (each : ∀ a t' s, Due sub t u (step a t') s (· = .error e)) (statements : List Stmt) (a : α) :
    Due sub t u (fun sub => statements.foldlM (fun a t' => step a t' sub) a) s (· = .error e) := by
  induction statements generalizing a s with
  | nil => exact fixed fun _ => rfl
  | cons t' rest ih =>
    simp only [List.foldlM_cons]
    exact bind_exit (each a t' s) fun _ _ _ => ih _

theorem forM {e : Exit} {step : Stmt → Interpreter → EvalM Unit}
    (each : ∀ t' s, Due sub t u (step t') s (· = .error e)) (statements : List Stmt) :
    Due sub t u (fun sub => statements.forM fun t' => step t' sub) s (· = .error e) := by
  induction statements generalizing s with
  | nil => exact fixed fun _ => rfl
  | cons t' rest ih =>
    unfold List.forM
    exact bind_exit (each t' s) fun _ _ _ => ih

/-! ## Turns of a loop -/

/-- The end of a turn with which a loop ends as given. -/
def lastTurn : Except Exit Unit → Except Exit Bool
  | .ok () => .ok false
  | .error e => .error e

variable {e : Except Exit Unit}

/-- What a loop does after a turn: it goes on, or ends as the turn has it. -/
theorem turn_then {turn : Interpreter → EvalM Bool} {more : Interpreter → EvalM Unit}
    (first : Due sub t u turn s (· = lastTurn e))
    (next : ∀ s', turn sub s = .ok true s' → Due sub t u more s' (· = e)) :
    Due sub t u (fun sub => do if ← turn sub then more sub) s (· = e) := by
  refine bind first (fun ends => ?_) fun again s' run => ?_
  · cases e with
    | ok a =>
      obtain ⟨s', run⟩ := exists_of_ending_ok ends
      rw [ending_bind_of_ok run]
      rfl
    | error e => exact ending_bind_of_error ends
  · cases again with
    | true => exact next s' run
    | false => exact fixed fun _ => rfl

/-- A loop whose turns keep an invariant, without which a turn might end in other ways. -/
theorem repeatWhile {turn : Interpreter → EvalM Bool} {I : State → Prop}
    (keeps : ∀ s s', I s → turn sub s = .ok true s' → I s')
    (each : ∀ s, I s → Due sub t u turn s (· = lastTurn e)) (turns : Nat) (start : I s) :
    Due sub t u (fun sub => EvalM.repeatWhile (turn sub) turns) s (· = e) := by
  induction turns generalizing s with
  | zero => exact fixed fun _ => rfl
  | succ turns ih =>
    unfold EvalM.repeatWhile
    refine after (fun _ => rfl) fun _ s' checked => ?_
    obtain rfl := eq_of_checkInterrupt checked
    exact turn_then (each _ start) fun s' run => ih (keeps _ s' start run)

/-- As many turns as the interpreter allows, none of which needs an invariant. -/
theorem allTurns {turn : Interpreter → EvalM Bool}
    (each : ∀ s, Due sub t u turn s (· = lastTurn e)) :
    Due sub t u (fun sub => EvalM.repeatWhile (turn sub) sub.turns) s (· = e) := by
  have keeps : ∀ s s', True → turn sub s = .ok true s' → True := fun _ _ _ _ => trivial
  exact repeatWhile keeps (fun s _ => each s) sub.turns trivial

theorem visitAll {visit : Interpreter → Value → EvalM Bool}
    (each : ∀ v s, Due sub t u (fun sub => visit sub v) s (· = lastTurn e)) (items : List Value) :
    Due sub t u (fun sub => EvalM.visitAll (visit sub) items) s (· = e) := by
  induction items generalizing s with
  | nil => exact fixed fun _ => rfl
  | cons v rest ih =>
    unfold EvalM.visitAll
    exact after (fun _ => rfl) fun _ s' _ => turn_then (each v s') fun _ _ => ih

theorem visitArray {visit : Interpreter → Value → EvalM Bool}
    (each : ∀ v s, Due sub t u (fun sub => visit sub v) s (· = lastTurn e)) (address turns i : Nat) :
    Due sub t u (fun sub => EvalM.visitArray address (visit sub) turns i) s (· = e) := by
  induction turns generalizing s i with
  | zero => exact fixed fun _ => rfl
  | succ turns ih =>
    unfold EvalM.visitArray
    refine after (fun _ => rfl) fun _ s' _ => after (fun _ => rfl) fun item s' _ => ?_
    cases item with
    | none => exact fixed fun _ => rfl
    | some v => exact turn_then (each v s') fun _ _ => ih (i + 1)

end Due

end BindScript
