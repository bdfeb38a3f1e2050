import BindScript.Proofs.Control.Constructs

/-!
# Constructs absorb their own jumps

A loop never ends in `break` or `continue`, and a `switch` never in `break`, wherever in them the jump may
come from: from the body these are taken, and nothing else in a loop or `switch` can jump.
-/

namespace BindScript

open EvalM

/-- Whether a jump out of its parts is meant for the statement. -/
def Stmt.catches (t : Stmt) : Jump → Bool
  | .brk => t.isLoop || (t matches .switch ..)
  | .cont => t.isLoop
  | .ret _ => false

theorem Stmt.catches_brk {t : Stmt} (catches : t.catches .brk = true) :
    t.isLoop = true ∨ ∃ discriminant cases, t = .switch discriminant cases := by
  cases t with
  | switch discriminant cases => exact .inr ⟨discriminant, cases, rfl⟩
  | whileLoop | doWhile | forLoop | forEach => exact .inl rfl
  | _ => cases catches

/-- A step does not end in the jump. -/
def Quiet {α : Type} (j : Jump) (x : EvalM α) (s : State) : Prop :=
  ending x s ≠ .error (.jump j)

namespace Quiet

variable {α β : Type} {j : Jump} {x : EvalM α} {f : α → EvalM β} {s : State}

theorem bind (first : Quiet j x s) (next : ∀ a t, x s = .ok a t → Quiet j (f a) t) :
    Quiet j (x >>= f) s := by
  intro ends
  cases run : x s with
  | ok a t =>
    rw [ending_bind_of_ok run] at ends
    exact next a t run ends
  | error e t =>
    have failed := ending_of_error run
    rw [ending_bind_of_error failed] at ends
    cases ends
    exact first failed

theorem discard (quiet : Quiet j x s) : Quiet j (Functor.discard x) s :=
  bind quiet fun _ _ _ => nofun

theorem pure (a : α) : Quiet j (Pure.pure a) s :=
  nofun

theorem exhausted : Quiet j (throw .exhausted : EvalM α) s :=
  nofun

theorem readHeap (read : Heap → α) : Quiet j (EvalM.readHeap read) s :=
  nofun

theorem attempt (x : EvalM α) : Quiet j (EvalM.attempt x) s := by
  unfold Quiet
  rw [ending_attempt]
  nofun

theorem inScope (inner : Quiet j x { s with env := s.env.push }) : Quiet j (EvalM.inScope x) s := by
  unfold Quiet
  rw [ending_inScope]
  exact inner

/-- What corresponds with itself in a manner without jumps does not jump. -/
theorem of_sim {ctx : Context} {m : Manner} {Q : (Correspondence.mirror ctx).Post α}
    (sim : (Correspondence.mirror ctx).At [] () s s → (Correspondence.mirror ctx).Sim m Q () x x s s)
    (never : ¬ m.Jumps) : Quiet j x s := by
  intro ends
  obtain ⟨t, run⟩ := exists_of_ending_error ends
  exact never (jumps_of_mirror (sim (Correspondence.mirror_at_nil s)) run)

theorem ite {c : Prop} [Decidable c] {y : EvalM α} (yes : Quiet j x s) (no : Quiet j y s) :
    Quiet j (if c then x else y) s := by
  split
  · exact yes
  · exact no

/-! ## Loops -/

theorem checkInterrupt : Quiet j EvalM.checkInterrupt s := by
  unfold Quiet ending EvalM.checkInterrupt
  cases s.interrupted <;> nofun

theorem repeatWhile {turn : EvalM Bool} (each : ∀ s, Quiet j turn s) (turns : Nat) :
    Quiet j (EvalM.repeatWhile turn turns) s := by
  induction turns generalizing s with
  | zero => exact exhausted
  | succ turns ih =>
    unfold EvalM.repeatWhile
    exact bind checkInterrupt fun _ t _ => bind (each t) fun _ _ _ => ite ih (pure ())

theorem visitAll {visit : Value → EvalM Bool} (each : ∀ v s, Quiet j (visit v) s) (items : List Value) :
    Quiet j (EvalM.visitAll visit items) s := by
  induction items generalizing s with
  | nil => exact pure ()
  | cons v rest ih =>
    unfold EvalM.visitAll
    exact bind checkInterrupt fun _ t _ => bind (each v t) fun _ _ _ => ite ih (pure ())

theorem visitArray {visit : Value → EvalM Bool} (each : ∀ v s, Quiet j (visit v) s)
    (address turns i : Nat) : Quiet j (EvalM.visitArray address visit turns i) s := by
  induction turns generalizing s i with
  | zero => exact exhausted
  | succ turns ih =>
    unfold EvalM.visitArray
    refine bind checkInterrupt fun _ t _ => bind (readHeap _) fun item t _ => ?_
    cases item with
    | none => exact pure ()
    | some v => exact bind (each v t) fun _ _ _ => ite (ih (i + 1)) (pure ())

variable {ctx : Context} {sub : Interpreter}

/-- The body of a loop ends a turn in nothing but a `return` or a failure. -/
theorem runBody (inLoop : j = .brk ∨ j = .cont) (body : Stmt) : Quiet j (EvalM.runBody sub body) s := by
  unfold EvalM.runBody
  refine bind (attempt _) fun r t _ => ?_
  rcases r with e | v
  · rcases e with _ | j' | _ | _
    · exact nofun
    · cases j' with
      | brk | cont => exact pure _
      | ret v => rcases inLoop with rfl | rfl <;> exact nofun
    · exact nofun
    · exact nofun
  · exact pure true

theorem resume {r : Except Exit α} (other : r ≠ .error (.jump j)) : Quiet j (EvalM.resume r) s := by
  unfold Quiet
  rw [ending_resume]
  exact other

theorem forM {f : α → EvalM Unit} (each : ∀ a s, Quiet j (f a) s) (items : List α) :
    Quiet j (items.forM f) s := by
  induction items generalizing s with
  | nil => exact pure ()
  | cons a rest ih =>
    unfold List.forM
    exact bind (each a s) fun _ _ _ => ih

theorem startName (name : String) (v : Value) : Quiet j (EvalM.startName name v) s := by
  unfold EvalM.startName
  refine bind nofun fun cell t _ => ?_
  cases cell <;> exact nofun

theorem startNames (entries : List (String × Value)) : Quiet j (EvalM.startNames entries) s :=
  forM (fun (name, v) _ => startName name v) entries

theorem copyName (name : String) (s : State) : Quiet j (EvalM.copyName name) s := by
  unfold EvalM.copyName
  exact bind nofun fun _ _ _ => bind nofun fun _ _ _ => discard nofun

/-- A turn on copies of the loop variables: reading and writing the copies does not jump. -/
theorem runTurn (inLoop : j = .brk ∨ j = .cont) (names : List String) (body : Stmt) :
    Quiet j (EvalM.runTurn sub names body) s := by
  unfold EvalM.runTurn
  refine bind (inScope (bind (forM copyName names) fun _ t _ => ?_)) fun ended t run => ?_
  · refine bind (attempt _) fun _ t _ => ?_
    obtain ⟨values, read⟩ := valuesOf_ok names t
    have reads : Quiet j (names.mapM valueOf) t := fun ends => by cases (ending_of_ok read).symm.trans ends
    exact bind reads fun _ _ _ => pure _
  · -- The end of the body was noted down inside, and is not the jump either.
    obtain ⟨result, values⟩ := ended
    have noted := (ending_inScope _ _).symm.trans (ending_of_ok run)
    obtain ⟨_, inner⟩ := exists_of_ending_ok noted
    obtain ⟨_, t₁, _, inner⟩ := exists_of_bind_ok inner
    obtain ⟨result', _, tried, inner⟩ := exists_of_bind_ok inner
    obtain ⟨_, _, _, last⟩ := exists_of_bind_ok inner
    cases last
    have ends := (ending_attempt _ _).symm.trans (ending_of_ok tried)
    have quiet : Quiet j (EvalM.runBody sub body) t₁ := runBody inLoop body
    cases ends
    have written : Quiet j (EvalM.startNames (names.zip values)) t := startNames _
    exact bind written fun _ _ _ => resume quiet

variable {ctx : Context}

/-- The parts of a loop other than its body are expressions and bindings, which do not jump. -/
theorem expr (alike : Interpreter.Alike (.mirror ctx) sub sub) (e : Expr) : Quiet j (sub.expr e) s := by
  exact of_sim (m := .expression) (fun here => alike.expr here (e.within_all [])) nofun

theorem call (alike : Interpreter.Alike (.mirror ctx) sub sub) (callee : Value) (args : List Value) :
    Quiet j (sub.call callee args) s := by
  have arguments : Value.AllAlike Zone.all.pairing args args := Zone.allAlike_iff.2 ⟨rfl, fun _ _ => Zone.holds_all _⟩
  exact of_sim (m := .expression) (fun here => alike.call here (Zone.alike_all callee) arguments) nofun

theorem evalForInit (alike : Interpreter.Alike (.mirror ctx) sub sub) (init : ForInit) :
    Quiet j (EvalM.evalForInit ctx sub init) s := by
  cases init with
  | none => exact pure []
  | expr e => exact bind (discard (expr alike e)) fun _ _ _ => pure []
  | declare kind declarators =>
    have within := (ForInit.declare kind declarators).within_all []
    have declared := of_sim (j := j) (s := s)
      (fun here => Correspondence.Sim.evalDeclaration alike kind declarators here within) nofun
    exact bind declared fun _ _ _ => pure _

theorem testHolds (alike : Interpreter.Alike (.mirror ctx) sub sub) (test : Option Expr) :
    Quiet j (EvalM.testHolds sub test) s := by
  cases test with
  | none => exact pure true
  | some e => exact bind (expr alike e) fun _ _ _ => pure _

theorem evalFor (alike : Interpreter.Alike (.mirror ctx) sub sub) (inLoop : j = .brk ∨ j = .cont)
    (init : ForInit) (test update : Option Expr) (body : Stmt) :
    Quiet j (EvalM.evalFor ctx sub init test update body) s := by
  rw [evalFor_eq]
  refine inScope (bind (evalForInit alike init) fun names t _ => repeatWhile (fun s => ?_) _)
  unfold EvalM.forTurn
  refine bind (testHolds alike test) fun _ _ _ => ite (pure false) ?_
  refine bind (ite (runBody inLoop body) (runTurn inLoop names body)) fun _ _ _ => ite (pure false) ?_
  cases update with
  | none => exact nofun
  | some e => exact bind (discard (expr alike e)) fun _ _ _ => pure true

theorem visitItem (alike : Interpreter.Alike (.mirror ctx) sub sub) (inLoop : j = .brk ∨ j = .cont)
    (kind : Option DeclKind) (pattern : Pattern) (body : Stmt) (item : Value) :
    Quiet j (EvalM.visitItem ctx sub kind pattern body item) s := by
  unfold EvalM.visitItem
  refine inScope (bind ?_ fun _ _ _ => runBody inLoop body)
  have bound : ∀ mode s, Quiet j (bindPattern ctx sub mode pattern item) s := fun mode s => by
    exact of_sim (fun here => Correspondence.Sim.bindPattern alike mode pattern here
      (pattern.within_all _ []) (fun _ => Access.assignable_all _ _) (Zone.alike_all item)) nofun
  exact bound _ _

/-- No loop ends in `break` or `continue`. -/
theorem loop (alike : Interpreter.Alike (.mirror ctx) sub sub) (inLoop : j = .brk ∨ j = .cont) {l : Stmt}
    (isLoop : l.isLoop = true) : Quiet j (stmtStep ctx sub l) s := by
  unfold stmtStep
  refine bind checkInterrupt fun _ t _ => ?_
  cases l with
  | whileLoop test body =>
    refine bind (repeatWhile (fun s => ?_) _) fun _ _ _ => pure _
    exact bind (expr alike test) fun _ _ _ => ite (pure false) (runBody inLoop body)
  | doWhile body test =>
    refine bind (repeatWhile (fun s => ?_) _) fun _ _ _ => pure _
    refine bind (runBody inLoop body) fun _ _ _ => ite (pure false) ?_
    exact bind (expr alike test) fun _ _ _ => pure _
  | forLoop init test update body =>
    exact bind (evalFor alike inLoop init test update body) fun _ _ _ => pure _
  | forEach visits kind pattern object body =>
    refine bind (expr alike object) fun collection t _ => bind ?_ fun _ _ _ => pure _
    have each : ∀ v s, Quiet j (EvalM.visitItem ctx sub kind pattern body v) s := fun v s =>
      visitItem alike inLoop kind pattern body v
    -- what is no list is read once, before the turns
    have others : ∀ v, Quiet j (do
        EvalM.visitAll (EvalM.visitItem ctx sub kind pattern body) (← iterate v).toList) t := fun v => by
      have iterated : Quiet j (iterate v) t := of_sim (m := .expression) (Q := (Correspondence.mirror ctx).Arrays)
        (fun here => Correspondence.Sim.iterate here.toAlike (Zone.alike_all v)) nofun
      exact bind iterated fun _ _ _ => visitAll each _
    unfold evalForEach
    cases visits with
    | keys => exact bind (readHeap _) fun _ _ _ => visitAll each _
    | items =>
      cases collection with
      | array a => exact visitArray each a sub.turns 0
      | _ => exact others _
  | _ => cases isLoop

/-- No `switch` ends in `break`. -/
theorem switch (alike : Interpreter.Alike (.mirror ctx) sub sub) (discriminant : Expr) (cases : List Case) :
    Quiet .brk (stmtStep ctx sub (.switch discriminant cases)) s := by
  unfold stmtStep
  refine bind checkInterrupt fun _ t _ => bind ?_ fun _ _ _ => pure _
  unfold evalSwitch
  refine bind (expr alike discriminant) fun v t _ => inScope (bind ?_ fun _ t _ => bind ?_ fun selected t _ => ?_)
  · have functions := Correspondence.functionsWithin_of_all (C := .mirror ctx)
      (Stmt.allWithin_all (cases.flatMap Case.body) _) fun n mem => List.mem_append_right [] mem
    exact of_sim (fun here => Correspondence.Sim.hoistLexical here functions) nofun
  · have tests : ∀ c ∈ cases, Expr.OptionWithin .all c.test [] := fun c _ => Expr.optionWithin_all c.test []
    exact of_sim (m := .expression) (fun here => Correspondence.Sim.selectCases alike here tests
      (List.Subset.refl _) (Zone.alike_all v)) nofun
  · refine bind (attempt _) fun r t _ => ?_
    rcases r with e | _
    · rcases e with _ | j | _ | _
      · exact nofun
      · cases j with
        | brk => exact pure ()
        | cont | ret => exact nofun
      · exact nofun
      · exact nofun
    · exact pure ()

/-! ## Entry points -/

theorem settle (r : Except Exit Value) : Quiet j (EvalM.settle r) s := by
  rcases r with e | _
  · rcases e with _ | j | _ | _
    · exact nofun
    · cases j <;> exact nofun
    · exact nofun
    · exact nofun
  · exact nofun

theorem settled (x : EvalM Value) : Quiet j (do EvalM.settle (← EvalM.attempt x)) s :=
  bind (attempt x) fun r _ _ => settle r

theorem hoistVars (statements : List Stmt) : Quiet j (EvalM.hoistVars statements) s := by
  refine forM (fun name s => ?_) _
  unfold EvalM.declareName
  exact bind nofun fun _ _ _ => ite (pure ()) (discard nofun)

theorem runStatementsIn (statements : List Stmt) : Quiet j (EvalM.runStatementsIn sub statements) s :=
  bind (hoistVars statements) fun _ _ _ => settled _

theorem inFreshEnvironment {x : EvalM Value} (inner : Quiet j x { s with env := .empty ctx.options.maxCallDepth }) :
    Quiet j (ctx.inFreshEnvironment x) s := by
  unfold Quiet Context.inFreshEnvironment
  rw [ending_inEnvironment]
  exact inner

/-- A statement never ends in a jump that it catches. -/
theorem stmtStep (alike : Interpreter.Alike (.mirror ctx) sub sub) {whole : Stmt}
    (catches : whole.catches j = true) : Quiet j (EvalM.stmtStep ctx sub whole) s := by
  cases j with
  | brk =>
    rcases Stmt.catches_brk catches with isLoop | ⟨discriminant, cases, rfl⟩
    · exact loop alike (.inl rfl) isLoop
    · exact switch alike discriminant cases
  | cont => exact loop alike (.inr rfl) catches
  | ret v => cases catches

end Quiet

end BindScript
