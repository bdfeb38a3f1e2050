import BindScript.Proofs.Control.Dependence
import BindScript.Proofs.Control.Scopes

/-!
# What each construct makes of a jump

A jump that ends a part of a construct ends the construct as well, unless it was meant for it: a loop and a
`switch` are over after a `break`, a loop goes on after a `continue`, and a `return` gives its value to the
call of the function that it stands in. The other exception is a finalizer that does not run to its end; its
end is then the end of its statement.

There is one lemma for each construct, which follows the construct to where the part is run (`Due`).
-/

namespace BindScript

open EvalM

/-- What becomes of a jump at a construct that it may be meant for: `break` ends the construct, which has the
given result then, and the other jumps leave it. -/
def Jump.pastBreak {α : Type} (done : α) : Jump → Except Exit α
  | .brk => .ok done
  | j => .error (.jump j)

/-- What becomes of a jump at the border of a function or program. -/
def Jump.atBorder : Jump → Except Exit Value
  | .brk => .error (.error .breakOutsideLoop)
  | .cont => .error (.error .continueOutsideLoop)
  | .ret v => .ok v

/-- Whether a statement is a loop. -/
def Stmt.isLoop : Stmt → Bool
  | whileLoop .. | doWhile .. | forLoop .. | forEach .. => true
  | _ => false

/-- Runs a `try` statement up to its finalizer. -/
def EvalM.guarded (sub : Interpreter) (statements : List Stmt) (handler : Option Handler) :
    EvalM (Except Exit Value) := do
  handle sub handler (← attempt (inScope (evalStatements sub statements)))

/-- The finalizer runs, and then the statement ends as was noted down. -/
def EvalM.finish (sub : Interpreter) (finalizer : Option (List Stmt)) (result : Except Exit Value) :
    EvalM Value :=
  match result, finalizer with
  | .error .exhausted, _ | .error .clash, _ | _, none => resume result
  | _, some statements => do
    discard (inScope (evalStatements sub statements))
    resume result

theorem EvalM.evalAttempt_eq (sub : Interpreter) (statements : List Stmt) (handler : Option Handler)
    (finalizer : Option (List Stmt)) :
    evalAttempt sub statements handler finalizer = (do
      let result ← guarded sub statements handler
      finish sub finalizer result) := by
  simp only [guarded, bind_assoc]
  rfl

/-- The jump came to the finalizer of a `try` statement, which then ended in a way of its own. -/
def Overrules (sub : Interpreter) (whole : Stmt) (j : Jump) (s : State) (e : Exit) : Prop :=
  ∃ statements handler finalizer s', whole = .attempt statements handler (some finalizer) ∧
    guarded sub statements handler s = .ok (.error (.jump j)) s' ∧
    ending (inScope (evalStatements sub finalizer)) s' = .error e

/-! ## Steps that run no statements -/

namespace EvalM

variable {ctx : Context} {sub : Interpreter} {t : Stmt} {u : State}
  {answer : EStateM.Result Exit State Value}

mutual

theorem bindPattern_answering (mode : BindMode) (pattern : Pattern) (v : Value) :
    bindPattern ctx (sub.answering t u answer) mode pattern v = bindPattern ctx sub mode pattern v := by
  cases pattern with
  | name id => rfl
  | array elements rest =>
    simp only [bindPattern, bindElements_answering, bindRest_answering]
  | object fields rest =>
    simp only [bindPattern, bindFields_answering]

theorem bindElements_answering (mode : BindMode) (items : Array Value) (i : Nat)
    (elements : List (Option Element)) :
    bindElements ctx (sub.answering t u answer) mode items i elements =
      bindElements ctx sub mode items i elements := by
  match elements with
  | [] => rfl
  | none :: more =>
    simp only [bindElements]
    exact bindElements_answering mode items (i + 1) more
  | some (.mk target default) :: more =>
    simp only [bindElements, bindPattern_answering mode target,
      bindElements_answering mode items (i + 1) more]
    rfl

theorem bindRest_answering (mode : BindMode) (items : Array Value) (taken : Nat)
    (rest : Option Pattern) :
    bindRest ctx (sub.answering t u answer) mode items taken rest =
      bindRest ctx sub mode items taken rest := by
  match rest with
  | none => rfl
  | some rest => simp only [bindRest, bindPattern_answering mode rest]

theorem bindFields_answering (mode : BindMode) (v : Value) (fields : List Field) :
    bindFields ctx (sub.answering t u answer) mode v fields = bindFields ctx sub mode v fields := by
  match fields with
  | [] => rfl
  | .mk key target default :: more =>
    simp only [bindFields, bindPattern_answering mode target, bindFields_answering mode v more]
    rfl

end

theorem evalDeclarator_answering (kind : DeclKind) (d : Declarator) :
    evalDeclarator ctx (sub.answering t u answer) kind d = evalDeclarator ctx sub kind d := by
  obtain ⟨pattern, init⟩ := d
  cases init with
  | none => simp only [evalDeclarator, bindPattern_answering]
  | some init =>
    simp only [evalDeclarator, bindPattern_answering]
    rfl

theorem evalDeclaration_answering (kind : DeclKind) (declarators : List Declarator) :
    evalDeclaration ctx (sub.answering t u answer) kind declarators =
      evalDeclaration ctx sub kind declarators := by
  have same : evalDeclarator ctx (sub.answering t u answer) kind = evalDeclarator ctx sub kind :=
    funext (evalDeclarator_answering kind)
  simp only [evalDeclaration, same]

theorem evalForInit_answering (init : ForInit) :
    evalForInit ctx (sub.answering t u answer) init = evalForInit ctx sub init := by
  cases init with
  | declare kind declarators => simp only [evalForInit, evalDeclaration_answering]
  | _ => rfl

theorem selectCases_answering (v : Value) (all cases : List Case) :
    selectCases (sub.answering t u answer) v all cases = selectCases sub v all cases := by
  induction cases with
  | nil => rfl
  | cons c rest ih =>
    simp only [selectCases, ih]
    rfl

theorem bindParams_answering (params : List Element) (args : List Value) :
    bindParams ctx (sub.answering t u answer) params args = bindParams ctx sub params args := by
  induction params generalizing args with
  | nil => rfl
  | cons param rest ih =>
    obtain ⟨target, default⟩ := param
    simp only [bindParams, bindPattern_answering, ih]
    rfl

/-! ## Copies of loop variables -/

variable {s : State}

theorem valuesOf_ok (names : List String) (s : State) :
    ∃ values, names.mapM valueOf s = .ok values s := by
  induction names with
  | nil => exact ⟨[], rfl⟩
  | cons name rest ih =>
    obtain ⟨values, run⟩ := ih
    rw [List.mapM_cons]
    have head : ∃ v, valueOf name s = .ok v s := ⟨_, rfl⟩
    obtain ⟨v, head⟩ := head
    exact ⟨v :: values, by rw [bind_of_ok head, bind_of_ok run]; rfl⟩

theorem startName_ok {name : String} (v : Value) (bound : name ∈ s.env.names) :
    ∃ h, startName name v s = .ok () { s with heap := h } := by
  cases found : s.env.find? name with
  | none => exact absurd bound (Environment.find?_eq_none_iff.1 found)
  | some b =>
    refine ⟨s.heap.setCell b.cell v, ?_⟩
    simp only [startName, readEnv, modifyHeap, Environment.initialCell, found, Bind.bind, EStateM.bind]

/-- Writes the copies of loop variables back. -/
def startNames (entries : List (String × Value)) : EvalM Unit :=
  entries.forM fun (name, value) => startName name value

theorem startNames_ok {entries : List (String × Value)}
    (bound : ∀ entry ∈ entries, entry.1 ∈ s.env.names) :
    ∃ s', startNames entries s = .ok () s' := by
  induction entries generalizing s with
  | nil => exact ⟨s, rfl⟩
  | cons entry rest ih =>
    obtain ⟨name, v⟩ := entry
    obtain ⟨h, written⟩ := startName_ok v (bound (name, v) (List.mem_cons_self ..))
    have later : ∀ entry ∈ rest, entry.1 ∈ s.env.names := fun entry mem =>
      bound entry (List.mem_cons_of_mem _ mem)
    obtain ⟨s', run⟩ := ih (s := { s with heap := h }) later
    exact ⟨s', (bind_of_ok written).trans run⟩

end EvalM

namespace Due

variable {ctx : Context} {sub : Interpreter} {t : Stmt} {u s : State} {j : Jump}

/-! ## Statements in a row -/

theorem evalStatements (ends : ending (sub.stmt t) u = .error (.jump j)) (statements : List Stmt) :
    Due sub t u (fun sub => EvalM.evalStatements sub statements) s (· = .error (.jump j)) := by
  unfold EvalM.evalStatements
  exact after (fun _ => rfl) fun _ _ _ => foldlM (fun _ t' _ => stmt ends t') statements _

/-! ## Loops -/

/-- The body of a loop: unless the jump is a `continue`, this is the last turn. -/
theorem runBody (ends : ending (sub.stmt t) u = .error (.jump j)) (ne : j ≠ .cont) (body : Stmt) :
    Due sub t u (fun sub => EvalM.runBody sub body) s (· = lastTurn (j.pastBreak ())) := by
  unfold EvalM.runBody
  refine bind (attempt (stmt ends body)) (fun tried => ?_) fun _ _ _ => fixed fun _ => rfl
  obtain ⟨e, tried, rfl⟩ := tried
  obtain ⟨s', run⟩ := exists_of_ending_ok tried
  rw [ending_bind_of_ok run]
  cases j with
  | cont => exact absurd rfl ne
  | _ => rfl

/-- A step that gives nothing, before the value of a statement. -/
theorem ended {loop : Interpreter → EvalM Unit}
    (due : Due sub t u loop s (· = j.pastBreak ())) :
    Due sub t u (fun sub => do loop sub; return Value.undefined) s (· = j.pastBreak .undefined) := by
  refine bind due (fun ends => ?_) fun _ _ _ => fixed fun _ => rfl
  cases j with
  | brk =>
    obtain ⟨s', run⟩ := exists_of_ending_ok ends
    rw [ending_bind_of_ok run]
    rfl
  | cont | ret => exact ending_bind_of_error ends

theorem visitItem (ends : ending (sub.stmt t) u = .error (.jump j)) (ne : j ≠ .cont)
    (kind : Option DeclKind) (pattern : Pattern) (body : Stmt) (item : Value) :
    Due sub t u (fun sub => EvalM.visitItem ctx sub kind pattern body item) s
      (· = lastTurn (j.pastBreak ())) := by
  unfold EvalM.visitItem
  exact inScope (after (fun _ => bindPattern_answering _ _ _) fun _ _ _ => runBody ends ne body)

/-- A turn that ends with a jump ends the loop over the collection, and a `break` goes no further. -/
theorem evalForEach (ends : ending (sub.stmt t) u = .error (.jump j)) (ne : j ≠ .cont)
    (visits : EachKind) (kind : Option DeclKind) (pattern : Pattern) (body : Stmt) (collection : Value) :
    Due sub t u (fun sub => EvalM.evalForEach sub visits
      (EvalM.visitItem ctx sub kind pattern body) collection) s (· = j.pastBreak ()) := by
  have each : ∀ v s, Due sub t u (fun sub => EvalM.visitItem ctx sub kind pattern body v) s
      (· = lastTurn (j.pastBreak ())) :=
    fun v _ => visitItem ends ne kind pattern body v
  unfold EvalM.evalForEach
  cases visits with
  | keys => exact after (fun _ => rfl) fun _ _ _ => visitAll each _
  | items =>
    have others : ∀ v, Due sub t u (fun sub => do
        EvalM.visitAll (EvalM.visitItem ctx sub kind pattern body) (← iterate v).toList) s
        (· = j.pastBreak ()) :=
      fun v => after (fun _ => rfl) fun _ _ _ => visitAll each _
    cases collection with
    | array a => exact visitArray each a sub.turns 0
    | _ => exact others _

/-! ## Counting loops

The copies of the loop variables are written back after every turn, and this can only fail for a name that
is not bound. So here it matters that the names of the head stay bound, which is what a run next to itself
tells (`Correspondence.mirror`). -/

variable {names : List String}

/-- The copies are written back first, however the body ends, and the jump is passed on. -/
theorem runTurn (alike : Interpreter.Alike (.mirror ctx) sub sub)
    (ends : ending (sub.stmt t) u = .error (.jump j)) (ne : j ≠ .cont) (body : Stmt)
    (bound : ∀ n ∈ names, n ∈ s.env.names) :
    Due sub t u (fun sub => EvalM.runTurn sub names body) s (· = lastTurn (j.pastBreak ())) := by
  unfold EvalM.runTurn
  refine bind (P := fun r => ∃ values, r = .ok (lastTurn (j.pastBreak ()), values)) ?_ (fun tried => ?_)
    fun _ _ _ => fixed fun _ => rfl
  · refine inScope (after (fun _ => rfl) fun _ s₁ _ => bind (attempt (runBody ends ne body))
      (fun tried => ?_) fun _ _ _ => fixed fun _ => rfl)
    obtain ⟨e, tried, rfl⟩ := tried
    obtain ⟨s₂, run⟩ := exists_of_ending_ok tried
    obtain ⟨values, read⟩ := valuesOf_ok names s₂
    exact ⟨values, by rw [ending_bind_of_ok run, ending_bind_of_ok read]; rfl⟩
  · obtain ⟨values, tried⟩ := tried
    obtain ⟨s', run⟩ := exists_of_ending_ok tried
    have grows : s.env.Grows s'.env := by
      have here : (Correspondence.mirror ctx).At [] () s s := Correspondence.mirror_at_nil s
      have sim := Correspondence.Sim.inScope here
        Correspondence.Sim.lasts_turnEnds fun st =>
          Correspondence.Sim.runCopies alike names st (body.within_all [])
      have keeps := keeps_of_mirror sim
      rw [stateAfter_of_ok run] at keeps
      exact keeps
    have still : ∀ entry ∈ names.zip values, entry.1 ∈ s'.env.names := fun entry mem =>
      grows.names (bound entry.1 (List.of_mem_zip mem).1)
    obtain ⟨s'', written⟩ := startNames_ok still
    rw [ending_bind_of_ok run]
    exact (ending_bind_of_ok written).trans (ending_resume _ _)

/-- The update is not reached once the body has ended with a jump that is no `continue`. -/
theorem forTurn (alike : Interpreter.Alike (.mirror ctx) sub sub)
    (ends : ending (sub.stmt t) u = .error (.jump j)) (ne : j ≠ .cont) (test update : Option Expr)
    (body : Stmt) (bound : ∀ n ∈ names, n ∈ s.env.names) :
    Due sub t u (fun sub => EvalM.forTurn sub names test update body) s
      (· = lastTurn (j.pastBreak ())) := by
  unfold EvalM.forTurn
  refine after (fun _ => rfl) fun holds s₁ run => ite (fun _ => fixed fun _ => rfl) fun _ => ?_
  have grows : s.env.Grows s₁.env := by
    have sim := Correspondence.Sim.testHolds (m := .expression) alike
      (Correspondence.mirror_at_nil s) (Expr.optionWithin_all test [])
    have keeps := keeps_of_mirror sim
    rw [stateAfter_of_ok run] at keeps
    exact keeps.grows
  have turn : Due sub t u
      (fun sub => if names.isEmpty then EvalM.runBody sub body else EvalM.runTurn sub names body) s₁
      (· = lastTurn (j.pastBreak ())) :=
    ite (fun _ => runBody ends ne body) fun _ =>
      runTurn alike ends ne body fun n mem => grows.names (bound n mem)
  refine bind turn (fun ended => ?_) fun _ _ _ => fixed fun _ => rfl
  cases j with
  | brk =>
    obtain ⟨s₂, run⟩ := exists_of_ending_ok ended
    rw [ending_bind_of_ok run]
    rfl
  | cont | ret => exact ending_bind_of_error ended

/-- The names that a head gives to the turns can be told from its text. -/
theorem names_of_init {init : ForInit} {s' : State} (run : evalForInit ctx sub init s = .ok names s') :
    names = init.turnNames := by
  cases init with
  | none =>
    cases run
    rfl
  | expr e =>
    obtain ⟨_, _, _, rest⟩ := exists_of_bind_ok run
    cases rest
    rfl
  | declare kind declarators =>
    obtain ⟨_, _, _, rest⟩ := exists_of_bind_ok run
    cases kind <;> (cases rest; rfl)

/-- The names that the turns of a loop have copies of are bound once the loop has started. -/
theorem bound_of_init (alike : Interpreter.Alike (.mirror ctx) sub sub) {init : ForInit} {s' : State}
    (run : evalForInit ctx sub init s = .ok names s') : ∀ n ∈ names, n ∈ s'.env.names := by
  have sim := Correspondence.Sim.evalForInit alike (Correspondence.mirror_at_nil s)
    (init.within_all [])
  have result := result_of_mirror sim run
  rw [names_of_init run]
  exact result.2

/-- A jump ends the loop, unless it goes on with the next turn. A `break` goes no further than the loop. -/
theorem evalFor (alike : Interpreter.Alike (.mirror ctx) sub sub)
    (ends : ending (sub.stmt t) u = .error (.jump j)) (ne : j ≠ .cont) (init : ForInit)
    (test update : Option Expr) (body : Stmt) :
    Due sub t u (fun sub => EvalM.evalFor ctx sub init test update body) s (· = j.pastBreak ()) := by
  simp only [evalFor_eq]
  refine inScope (after (fun _ => evalForInit_answering init) fun names s₁ run => ?_)
  have keeps : ∀ s₂ s₃, (∀ n ∈ names, n ∈ s₂.env.names) →
      EvalM.forTurn sub names test update body s₂ = .ok true s₃ → ∀ n ∈ names, n ∈ s₃.env.names := by
    intro s₂ s₃ bound run n mem
    have sim : (Correspondence.mirror ctx).Sim .statement _ () (EvalM.forTurn sub names test update body)
        (EvalM.forTurn sub names test update body) s₂ s₂ :=
      Correspondence.Sim.forTurn alike (Correspondence.mirror_at_nil s₂) (Expr.optionWithin_all test [])
        (Expr.optionWithin_all update []) (body.within_all [])
    have keeps := keeps_of_mirror sim
    rw [stateAfter_of_ok run] at keeps
    exact keeps.grows.names (bound n mem)
  exact repeatWhile keeps (fun s₂ bound => forTurn alike ends ne test update body bound) sub.turns
    (bound_of_init alike run)

/-- A loop is over after a `break` in its body, and left by a `return`. -/
theorem loop (alike : Interpreter.Alike (.mirror ctx) sub sub)
    (ends : ending (sub.stmt t) u = .error (.jump j)) (ne : j ≠ .cont) {l : Stmt}
    (isLoop : l.isLoop = true) :
    Due sub t u (fun sub => EvalM.stmtStep ctx sub l) s (· = j.pastBreak .undefined) := by
  unfold EvalM.stmtStep
  refine after (fun _ => rfl) fun _ s₁ _ => ?_
  cases l with
  | whileLoop test body =>
    refine ended (allTurns fun s₂ => ?_)
    exact after (fun _ => rfl) fun _ _ _ => ite (fun _ => fixed fun _ => rfl) fun _ => runBody ends ne body
  | doWhile body test =>
    refine ended (allTurns fun s₂ => ?_)
    refine bind (runBody ends ne body) (fun ended => ?_) fun _ _ _ => fixed fun _ => rfl
    cases j with
    | brk =>
      obtain ⟨s₂, run⟩ := exists_of_ending_ok ended
      rw [ending_bind_of_ok run]
      rfl
    | cont | ret => exact ending_bind_of_error ended
  | forLoop init test update body => exact ended (evalFor alike ends ne init test update body)
  | forEach visits kind pattern object body =>
    exact after (fun _ => rfl) fun collection _ _ =>
      ended (evalForEach ends ne visits kind pattern body collection)
  | _ => cases isLoop

/-! ## Switches -/

/-- A `switch` is over after a `break` in its cases; the other jumps leave it. -/
theorem switch (ends : ending (sub.stmt t) u = .error (.jump j)) (discriminant : Expr)
    (cases : List Case) :
    Due sub t u (fun sub => EvalM.stmtStep ctx sub (.switch discriminant cases)) s
      (· = j.pastBreak .undefined) := by
  unfold EvalM.stmtStep
  refine after (fun _ => rfl) fun _ _ _ => ended ?_
  unfold EvalM.evalSwitch
  refine after (fun _ => rfl) fun v _ _ => inScope ?_
  refine after (fun _ => rfl) fun _ _ _ => after (fun _ => selectCases_answering v cases cases) ?_
  intro selected s₁ _
  have each : ∀ t' s, Due sub t u (fun sub => discard (sub.stmt t')) s (· = .error (.jump j)) :=
    fun t' s => bind_exit (stmt ends t') fun _ _ _ => fixed fun _ => rfl
  refine bind (attempt (forM each (selected.flatMap Case.body))) (fun tried => ?_)
    fun _ _ _ => fixed fun _ => rfl
  obtain ⟨e, tried, rfl⟩ := tried
  obtain ⟨s₂, run⟩ := exists_of_ending_ok tried
  rw [ending_bind_of_ok run]
  cases j <;> rfl

/-! ## Constructs that no jump is meant for -/

theorem block (ends : ending (sub.stmt t) u = .error (.jump j)) (statements : List Stmt) :
    Due sub t u (fun sub => EvalM.stmtStep ctx sub (.block statements)) s (· = .error (.jump j)) := by
  unfold EvalM.stmtStep
  exact after (fun _ => rfl) fun _ _ _ => inScope (evalStatements ends statements)

theorem branch (ends : ending (sub.stmt t) u = .error (.jump j)) (test : Expr) (consequent : Stmt)
    (alternate : Option Stmt) :
    Due sub t u (fun sub => EvalM.stmtStep ctx sub (.branch test consequent alternate)) s
      (· = .error (.jump j)) := by
  unfold EvalM.stmtStep
  refine after (fun _ => rfl) fun _ _ _ => after (fun _ => rfl) fun _ _ _ => ?_
  refine ite (fun _ => stmt ends consequent) fun _ => ?_
  cases alternate with
  | none => exact fixed fun _ => rfl
  | some t' => exact stmt ends t'

/-- No handler takes a jump. -/
theorem handle (ends : ending (sub.stmt t) u = .error (.jump j)) (handler : Option Handler)
    (result : Except Exit Value) :
    Due sub t u (fun sub => EvalM.handle sub handler result) s
      (· = .ok (.error (.jump j))) := by
  unfold EvalM.handle
  rcases result with e | v
  · cases handler with
    | none => cases e <;> exact fixed fun _ => rfl
    | some handler =>
      obtain ⟨param, body⟩ := handler
      cases e with
      | error e =>
        refine ite (fun _ => ?_) fun _ => fixed fun _ => rfl
        refine after (fun _ => rfl) fun _ _ _ => ?_
        refine (attempt (inScope (after (fun _ => rfl) fun _ _ _ => evalStatements ends body))).imp ?_
        rintro ⟨_, ended, rfl⟩
        exact ended
      | _ => exact fixed fun _ => rfl
  · exact fixed fun _ => rfl

/-- After a jump the finalizer runs, and unless it ends in a way of its own the jump goes on. -/
theorem finish_jump {statements : List Stmt} {handler : Option Handler} {s s' : State}
    (run : guarded sub statements handler s = .ok (.error (.jump j)) s')
    (finalizer : Option (List Stmt)) :
    ending (EvalM.finish sub finalizer (.error (.jump j))) s' = .error (.jump j) ∨
      ∃ e, ending (EvalM.finish sub finalizer (.error (.jump j))) s' = .error e ∧
        Overrules sub (.attempt statements handler finalizer) j s e := by
  cases finalizer with
  | none => exact .inl rfl
  | some final =>
    cases ended : ending (EvalM.inScope (EvalM.evalStatements sub final)) s' with
    | ok v =>
      obtain ⟨s'', run⟩ := exists_of_ending_ok ended
      have discarded := bind_of_ok (f := fun _ => (pure () : EvalM Unit)) run
      exact .inl (ending_bind_of_ok discarded)
    | error e =>
      have discarded := ending_bind_of_error (f := fun _ => (pure () : EvalM Unit)) ended
      exact .inr ⟨e, ending_bind_of_error discarded, statements, handler, final, s', rfl, run, ended⟩

/-- A finalizer that ends with a jump overrules the result it was given. -/
theorem finish (ends : ending (sub.stmt t) u = .error (.jump j)) (finalizer : Option (List Stmt))
    (result : Except Exit Value) :
    Due sub t u (fun sub => EvalM.finish sub finalizer result) s (· = .error (.jump j)) := by
  have final : ∀ statements, Due sub t u (fun sub => do
      discard (EvalM.inScope (EvalM.evalStatements sub statements))
      resume result) s (· = .error (.jump j)) := fun statements =>
    bind_exit (bind_exit (inScope (evalStatements ends statements)) fun _ _ _ => fixed fun _ => rfl)
      fun _ _ _ => fixed fun _ => rfl
  unfold EvalM.finish
  cases finalizer with
  | none =>
    rcases result with e | v
    · cases e <;> exact fixed fun _ => rfl
    · exact fixed fun _ => rfl
  | some statements =>
    rcases result with e | v
    · cases e with
      | exhausted | clash => exact fixed fun _ => rfl
      | _ => exact final statements
    · exact final statements

theorem guarded (ends : ending (sub.stmt t) u = .error (.jump j)) (statements : List Stmt)
    (handler : Option Handler) :
    Due sub t u (fun sub => EvalM.guarded sub statements handler) s
      (· = .ok (.error (.jump j))) := by
  unfold EvalM.guarded
  refine bind (attempt (inScope (evalStatements ends statements))) (fun tried => ?_)
    fun r s₁ _ => handle ends handler r
  obtain ⟨e, tried, rfl⟩ := tried
  obtain ⟨s₁, run⟩ := exists_of_ending_ok tried
  have unhandled : EvalM.handle sub handler (.error (.jump j)) s₁ = .ok (.error (.jump j)) s₁ := by
    cases handler <;> rfl
  rw [ending_bind_of_ok run]
  exact ending_of_ok unhandled

/-- A jump leaves `try` as well, unless the finalizer does not run to its end. -/
theorem tryStatement (ends : ending (sub.stmt t) u = .error (.jump j)) (statements : List Stmt)
    (handler : Option Handler) (finalizer : Option (List Stmt)) :
    Due sub t u (fun sub => EvalM.stmtStep ctx sub (.attempt statements handler finalizer)) s
      (fun r => r = .error (.jump j) ∨
        ∃ e, r = .error e ∧ Overrules sub (.attempt statements handler finalizer) j s e) := by
  unfold EvalM.stmtStep
  simp only [evalAttempt_eq]
  refine after (fun _ => rfl) fun _ s₁ checked => ?_
  obtain rfl := eq_of_checkInterrupt checked
  refine bind (guarded ends statements handler) (fun tried => ?_) fun result s₂ _ => ?_
  · obtain ⟨s₂, run⟩ := exists_of_ending_ok tried
    rw [ending_bind_of_ok run]
    exact finish_jump run finalizer
  · exact (finish ends finalizer result).imp .inl

/-! ## Borders of functions and programs -/

/-- A jump out of the statements of a run ends as jumps do at its border. -/
theorem runStatementsIn (ends : ending (sub.stmt t) u = .error (.jump j)) (statements : List Stmt) :
    Due sub t u (fun sub => EvalM.runStatementsIn sub statements) s (· = j.atBorder) := by
  unfold EvalM.runStatementsIn
  refine after (fun _ => rfl) fun _ _ _ => ?_
  have body : ∀ s, Due sub t u (fun sub => do
      discard (EvalM.evalStatements sub statements)
      return Value.undefined) s (· = .error (.jump j)) := fun s =>
    bind_exit (bind_exit (evalStatements ends statements) fun _ _ _ => fixed fun _ => rfl)
      fun _ _ _ => fixed fun _ => rfl
  refine bind (attempt (body _)) (fun tried => ?_) fun _ _ _ => fixed fun _ => rfl
  obtain ⟨e, tried, rfl⟩ := tried
  obtain ⟨s', run⟩ := exists_of_ending_ok tried
  rw [ending_bind_of_ok run]
  cases j <;> rfl

/-- A jump in the body of a function ends the call. -/
theorem callStep (ends : ending (sub.stmt t) u = .error (.jump j)) (callee : Value)
    (args : List Value) :
    Due sub t u (fun sub => EvalM.callStep ctx sub callee args) s (· = j.atBorder) := by
  unfold EvalM.callStep
  cases callee with
  | closure address =>
    refine after (fun _ => rfl) fun c _ _ => ?_
    unfold EvalM.callClosure
    refine after (fun _ => rfl) fun entered _ _ => ?_
    cases entered with
    | error fault => exact fixed fun _ => rfl
    | ok depth =>
      refine after (fun _ => rfl) fun limit _ _ => inEnvironment ?_
      refine after (fun _ => bindParams_answering _ _) fun left _ _ => ?_
      have body : ∀ s, Due sub t u (fun sub => EvalM.runFunctionBody sub c.definition.body) s
          (· = j.atBorder) := fun s => by
        cases c.definition.body with
        | expr e => exact fixed fun _ => rfl
        | block statements => exact runStatementsIn ends statements
      cases c.definition.rest with
      | none => exact body _
      | some rest =>
        refine after (fun _ => rfl) fun _ _ _ => ?_
        exact after (fun _ => bindPattern_answering _ _ _) fun _ _ _ => body _
  | _ => exact fixed fun _ => rfl

end Due

end BindScript
