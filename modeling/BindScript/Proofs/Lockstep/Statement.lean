import BindScript.Proofs.Lockstep.Binding
import BindScript.Proofs.Regime.Statement

/-!
# Statements in lockstep

Each kind of statement, given that its parts are code of the fragment. In two places a failure that breaks the lockstep
could get lost. After a turn of a counting loop the copies of the loop variables are written back, which fails for
names that are not bound any more; but names stay bound (`grows_of_turn`). And a finalizer may end in a way of its own,
so it is asked for that it does not (`Resumes`).
-/

namespace BindScript

/-- A `try` block and its handler, without the finalizer. -/
def EvalM.recovered (sub : Interpreter) (statements : List Stmt) (handler : Option Handler) : EvalM Value := do
  let result ← attempt (inScope (evalStatements sub statements))
  match result, handler with
  | .error (.error e), some (.mk param body) =>
    if e.isCatchable then
      let caught ← caughtValue e
      inScope do
        param.forM fun name => discard (define name caught .param)
        evalStatements sub body
    else resume result
  | _, _ => resume result

namespace EvalM

variable {α β : Type} {x : EvalM α} {f : α → EvalM β} {s t : State}

theorem attempt_bind_of_ok {a : α} (run : x s = .ok a t) : attempt (x >>= f) s = attempt (f a) t := by
  unfold attempt
  rw [bind_of_ok run]

theorem inScope_of_ok {a : α} (run : x { s with env := s.env.push } = .ok a t) :
    inScope x s = .ok a { t with env := t.env.pop } := by
  have attempted : attempt x { s with env := s.env.push } = .ok (.ok a) t := by rw [attempt, run]
  exact bind_of_ok attempted

theorem inScope_of_error {e : Exit} (run : x { s with env := s.env.push } = .error e t) :
    inScope x s = .error e { t with env := t.env.pop } := by
  have attempted : attempt x { s with env := s.env.push } = .ok (.error e) t := by rw [attempt, run]
  exact bind_of_ok attempted

theorem caughtValue_ok (e : EvalError) (s : State) : ∃ v t, caughtValue e s = .ok v t := by
  cases e <;> exact ⟨_, _, rfl⟩

/-- The end of a block and its handler is what the finalizer gets. -/
theorem guarded_eq (sub : Interpreter) (statements : List Stmt) (handler : Option Handler) :
    guarded sub statements handler = attempt (recovered sub statements handler) := by
  funext s
  obtain ⟨r, t, block⟩ : ∃ r t, attempt (inScope (evalStatements sub statements)) s = .ok r t := by
    unfold attempt
    cases inScope (evalStatements sub statements) s <;> exact ⟨_, _, rfl⟩
  have ended : ∀ r : Except Exit Value, attempt (resume r) t = .ok r t := fun r => by cases r <;> rfl
  unfold guarded recovered
  rw [bind_of_ok block, attempt_bind_of_ok block]
  unfold handle
  cases r with
  | ok v => exact (ended (.ok v)).symm
  | error e =>
    cases e with
    | error e =>
      cases handler with
      | none => exact (ended (.error (.error e))).symm
      | some handler =>
        obtain ⟨param, body⟩ := handler
        cases catchable : e.isCatchable with
        | false => simp only [catchable, Bool.false_eq_true, if_false]; exact (ended _).symm
        | true =>
          obtain ⟨caught, u, made⟩ := caughtValue_ok e t
          simp only [catchable, if_true]
          rw [bind_of_ok made, attempt_bind_of_ok made]
    | _ => cases handler <;> exact (ended _).symm

/-- The cases that are run are among those of the switch. -/
theorem subset_of_selectCases {sub : Interpreter} {v : Value} {all cases selected : List Case} (among : cases ⊆ all)
    (run : selectCases sub v all cases s = .ok selected t) : selected ⊆ all := by
  induction cases generalizing s with
  | nil =>
    cases run
    exact (List.dropWhile_sublist _).subset
  | cons c rest ih =>
    obtain ⟨here, later⟩ := List.cons_subset.1 among
    obtain ⟨test, body⟩ := c
    unfold selectCases at run
    cases test with
    | none => exact ih later run
    | some test =>
      obtain ⟨tested, s', -, run⟩ := exists_of_bind_ok run
      split at run
      · cases run
        exact among
      · exact ih later run

/-- A turn of a counting loop leaves the names around it bound. -/
theorem grows_of_turn {ctx : Context} {sub : Interpreter} (alike : Interpreter.Alike (.mirror ctx) sub sub)
    {names : List String} {body : Stmt} {r : Except Exit Bool} {s' : State}
    (copied : names.forM copyName { s with env := s.env.push } = .ok () s')
    (run : attempt (runBody sub body) s' = .ok r t) : s.env.Grows t.env.pop := by
  have sim := Correspondence.Sim.inScope (Correspondence.mirror_at_nil s) Correspondence.Sim.lasts_turnEnds
    fun st => Correspondence.Sim.runCopies alike names st (body.within_all [])
  have keeps := keeps_of_mirror sim
  obtain ⟨values, read⟩ := valuesOf_ok names t
  have ended : (do
      let result ← attempt (runBody sub body)
      return (result, ← names.mapM valueOf)) s' = .ok (r, values) t :=
    (bind_of_ok run).trans (bind_of_ok read)
  have inner : (do
      names.forM copyName
      let result ← attempt (runBody sub body)
      return (result, ← names.mapM valueOf)) { s with env := s.env.push } = .ok (r, values) t :=
    (bind_of_ok copied).trans ended
  rw [stateAfter_of_ok (inScope_of_ok inner)] at keeps
  exact keeps

end EvalM

namespace Lockstep

open EvalM

variable {L : Lockstep} {F : Fragment} {sub₁ sub₂ : Interpreter} {names : List String} {statements : List Stmt}
  {body : Stmt} {test update : Option Expr} {s t : State}

theorem Ends.later_of_ok {α : Type} {a : α} {r : EStateM.Result Exit State α} (ends : L.Ends s (.ok a t) r) :
    L.Later s t := by
  cases ends with
  | ok later => exact later

namespace Together

theorem evalStatements (sub : L.Interprets F sub₁ sub₂) (code : ∀ y ∈ statements.map Node.stmt, F.code y) :
    L.Together (EvalM.evalStatements sub₁ statements) (EvalM.evalStatements sub₂ statements) := by
  unfold EvalM.evalStatements
  exact bind (hoistLexical statements) fun _ =>
    foldlM (fun s mem _ => sub.stmt s (List.forall_mem_map.1 code s mem)) _

/-! ## Loops -/

/-- A body ends its loop, goes on with it or fails alike in both runs. -/
theorem runBody (sub : L.Interprets F sub₁ sub₂) (code : F.code (.stmt body)) :
    L.Together (EvalM.runBody sub₁ body) (EvalM.runBody sub₂ body) := by
  intro s state
  have run := sub.stmt body code s state
  refine Ends.attempt_bind run (fun r t _ later leaves => ?_) fun e t _ breaks later leaves => ?_
  · cases r with
    | ok v => exact pure true t later.state
    | error e =>
      have left := leaves e rfl
      cases e with
      | jump j =>
        cases j with
        | brk => exact pure false t later.state
        | cont => exact pure true t later.state
        | ret v => exact .error (.refl later.state) left
      | error failure => exact .error (.refl later.state) left
      | exhausted | clash => exact .error (.refl later.state) left
  · exact breaks_throw later.state breaks leaves

theorem testHolds (sub : L.Interprets F sub₁ sub₂) (code : ∀ y ∈ Expr.optionNodes test, F.code y) :
    L.Together (EvalM.testHolds sub₁ test) (EvalM.testHolds sub₂ test) := by
  cases test with
  | none => exact pure true
  | some e => exact bind (sub.expr e (code _ (List.mem_singleton.2 rfl))) fun _ => pure _

theorem valueOf (name : String) : L.Together (EvalM.valueOf name) (EvalM.valueOf name) := by
  unfold EvalM.valueOf
  exact readingEnv (fun _ _ => rfl) fun _ => readHeap _

theorem copyName (name : String) : L.Together (EvalM.copyName name) (EvalM.copyName name) := by
  unfold EvalM.copyName
  exact readingEnv (fun _ _ => rfl) fun _ => reading fun value => discard (define name value _)

theorem startNames (entries : List (String × Value)) :
    L.Together (EvalM.startNames entries) (EvalM.startNames entries) :=
  forM fun entry _ => startName entry.1 entry.2

end Together

/-- The body is run on copies of the variables. However it ends, they are written back on both sides. -/
theorem Ends.runTurn (sub : L.Interprets F sub₁ sub₂) (exhausts : L.exhausts) (code : F.code (.stmt body))
    (state : L.At s) (bound : ∀ n ∈ names, n ∈ s.env.names) :
    L.Ends s (EvalM.runTurn sub₁ names body s) (EvalM.runTurn sub₂ names body (L.beside s)) := by
  have alike := sub.alike exhausts
  rw [EvalM.runTurn_eq, EvalM.runTurn_eq]
  refine Ends.bind (Together.push s state) fun _ s₁ pushed later₁ => ?_
  cases pushed
  refine Ends.bind (Together.forM (fun name _ => Together.copyName name) _ later₁.state) fun _ s₂ copied later₂ => ?_
  refine Ends.attempt_bind (Together.runBody sub code s₂ later₂.state) (fun r t _ later leaves => ?_)
    fun e t run breaks later leaves => ?_
  · refine Ends.bind (Together.mapM (fun name _ => Together.valueOf name) t later.state) fun values t₁ _ read => ?_
    refine Ends.bind (Together.pop t₁ read.state) fun _ t₂ _ popped => ?_
    refine Ends.bind (Together.startNames (names.zip values) t₂ popped.state) fun _ t₃ _ started => ?_
    exact Ends.resume started.state fun e same => (leaves e same).later (read.trans (popped.trans started))
  · -- the values are written back first, which cannot fail, and then the failure goes on
    obtain ⟨values, read⟩ := valuesOf_ok names t
    have attempted : attempt (EvalM.runBody sub₁ body) s₂ = .ok (.error (.error e)) t := by rw [attempt, run]
    have grows := grows_of_turn alike copied attempted
    have still : ∀ entry ∈ names.zip values, entry.1 ∈ t.env.pop.names := fun entry mem =>
      grows.names (bound entry.1 (List.of_mem_zip mem).1)
    have popped := later_pop later.state
    obtain ⟨u, written⟩ := startNames_ok (s := { t with env := t.env.pop }) still
    have ends := Together.startNames (L := L) (names.zip values) _ popped.state
    rw [written] at ends
    have after := popped.trans ends.later_of_ok
    have last : (EvalM.startNames (names.zip values) >>= fun _ => EvalM.resume (.error (.error e) : Except Exit Bool))
        { t with env := t.env.pop } = .error (.error e) u := bind_of_ok written
    exact ⟨e, u, (bind_of_ok read).trans last, breaks, after, leaves.later after⟩

/-- The test decides alike, and the update comes after the turn. -/
theorem Ends.forTurn (sub : L.Interprets F sub₁ sub₂) (exhausts : L.exhausts)
    (testCode : ∀ y ∈ Expr.optionNodes test, F.code y) (updateCode : ∀ y ∈ Expr.optionNodes update, F.code y)
    (code : F.code (.stmt body)) (state : L.At s) (bound : ∀ n ∈ names, n ∈ s.env.names) :
    L.Ends s (EvalM.forTurn sub₁ names test update body s)
      (EvalM.forTurn sub₂ names test update body (L.beside s)) := by
  have alike := sub.alike exhausts
  unfold EvalM.forTurn
  refine Ends.bind (Together.testHolds sub testCode s state) fun holds s₁ run later => ?_
  cases holds with
  | false => exact Together.pure false s₁ later.state
  | true =>
    -- the test leaves the variables of the loop bound, and the turn needs that to write them back
    have grows : s.env.Grows s₁.env := by
      have sim := Correspondence.Sim.testHolds (m := .expression) alike (Correspondence.mirror_at_nil s)
        (Expr.optionWithin_all test [])
      have keeps := keeps_of_mirror sim
      rw [stateAfter_of_ok run] at keeps
      exact keeps.grows
    have turn : L.Ends s₁ ((if names.isEmpty then EvalM.runBody sub₁ body else EvalM.runTurn sub₁ names body) s₁)
        ((if names.isEmpty then EvalM.runBody sub₂ body else EvalM.runTurn sub₂ names body) (L.beside s₁)) := by
      cases names.isEmpty with
      | true => exact Together.runBody sub code s₁ later.state
      | false => exact Ends.runTurn sub exhausts code later.state fun n mem => grows.names (bound n mem)
    refine Ends.bind turn fun again s₂ _ later₂ => ?_
    cases again with
    | false => exact Together.pure false s₂ later₂.state
    | true =>
      cases update with
      | none => exact Together.pure true s₂ later₂.state
      | some e =>
        have updated := Together.discard (sub.expr e (updateCode _ (List.mem_singleton.2 rfl)))
        exact Together.bind updated (fun _ => Together.pure true) s₂ later₂.state

namespace Together

theorem evalForInit {init : ForInit} (sub : L.Interprets F sub₁ sub₂) (code : ∀ y ∈ init.nodes, F.code y) :
    L.Together (EvalM.evalForInit L.left sub₁ init) (EvalM.evalForInit L.right sub₂ init) := by
  cases init with
  | none => exact pure []
  | declare kind declarators => exact bind (evalDeclaration sub kind (forall_mem_flatMap.1 code)) fun _ => pure _
  | expr e => exact bind (discard (sub.expr e (code _ (List.mem_singleton.2 rfl)))) fun _ => pure _

/-- The head is evaluated once, and then the turns are taken in step. -/
theorem evalFor {init : ForInit} (sub : L.Interprets F sub₁ sub₂) (exhausts : L.exhausts)
    (initCode : ∀ y ∈ init.nodes, F.code y) (testCode : ∀ y ∈ Expr.optionNodes test, F.code y)
    (updateCode : ∀ y ∈ Expr.optionNodes update, F.code y) (code : F.code (.stmt body)) :
    L.Together (EvalM.evalFor L.left sub₁ init test update body)
      (EvalM.evalFor L.right sub₂ init test update body) := by
  have alike := sub.alike exhausts
  rw [EvalM.evalFor_eq, EvalM.evalFor_eq, sub.turns exhausts]
  refine inScope fun s state => Ends.bind (evalForInit sub initCode s state) fun names t started later => ?_
  have keeps : ∀ s s', (∀ n ∈ names, n ∈ s.env.names) →
      EvalM.forTurn sub₁ names test update body s = .ok true s' → ∀ n ∈ names, n ∈ s'.env.names := by
    intro s s' bound run n mem
    have sim : (Correspondence.mirror L.left).Sim .statement (Correspondence.mirror L.left).Same ()
        (EvalM.forTurn sub₁ names test update body) (EvalM.forTurn sub₁ names test update body) s s :=
      Correspondence.Sim.forTurn alike (Correspondence.mirror_at_nil s) (Expr.optionWithin_all test [])
        (Expr.optionWithin_all update []) (body.within_all [])
    have keeps := keeps_of_mirror sim
    rw [stateAfter_of_ok run] at keeps
    exact keeps.grows.names (bound n mem)
  have each : ∀ s, L.At s → (∀ n ∈ names, n ∈ s.env.names) →
      L.Ends s (EvalM.forTurn sub₁ names test update body s)
        (EvalM.forTurn sub₂ names test update body (L.beside s)) :=
    fun s state bound => Ends.forTurn sub exhausts testCode updateCode code state bound
  exact Ends.repeatWhile exhausts keeps each _ later.state (Due.bound_of_init alike started)

theorem visitItem {pattern : Pattern} (sub : L.Interprets F sub₁ sub₂) (kind : Option DeclKind)
    (patternCode : F.code (.pattern pattern)) (code : F.code (.stmt body)) (item : Value) :
    L.Together (EvalM.visitItem L.left sub₁ kind pattern body item)
      (EvalM.visitItem L.right sub₂ kind pattern body item) :=
  inScope <| bind (bindPattern sub _ pattern item patternCode) fun _ => runBody sub code

section Visits

variable {visit₁ visit₂ : Value → EvalM Bool}

theorem visitAll (visit : ∀ v, L.Together (visit₁ v) (visit₂ v)) (items : List Value) :
    L.Together (EvalM.visitAll visit₁ items) (EvalM.visitAll visit₂ items) := by
  induction items with
  | nil => exact pure ()
  | cons item rest ih =>
    unfold EvalM.visitAll
    exact bind checkInterrupt fun _ => bind (visit item) fun again => ite ih (pure ())

theorem visitArray (exhausts : L.exhausts) (visit : ∀ v, L.Together (visit₁ v) (visit₂ v)) (a turns i : Nat) :
    L.Together (EvalM.visitArray a visit₁ turns i) (EvalM.visitArray a visit₂ turns i) := by
  induction turns generalizing i with
  | zero => exact exhausted exhausts
  | succ turns ih =>
    unfold EvalM.visitArray
    refine bind checkInterrupt fun _ => reading fun item => ?_
    cases item with
    | none => exact pure ()
    | some item => exact bind (visit item) fun again => ite (ih (i + 1)) (pure ())

/-- The items are listed by the same steps, and visited in lockstep. -/
theorem evalForEach (sub : L.Interprets F sub₁ sub₂) (exhausts : L.exhausts) (visits : EachKind)
    (visit : ∀ v, L.Together (visit₁ v) (visit₂ v)) (collection : Value) :
    L.Together (EvalM.evalForEach sub₁ visits visit₁ collection) (EvalM.evalForEach sub₂ visits visit₂ collection) := by
  have each : L.Together (do EvalM.visitAll visit₁ (← EvalM.iterate collection).toList)
      (do EvalM.visitAll visit₂ (← EvalM.iterate collection).toList) :=
    bind (standalone (.iterate collection)) fun items => visitAll visit items.toList
  unfold EvalM.evalForEach
  cases visits with
  | keys => exact reading fun keys => visitAll visit _
  | items =>
    cases collection with
    | array a =>
      simp only [sub.turns exhausts]
      exact visitArray exhausts visit a _ 0
    | _ => exact each

end Visits

/-! ## Switches -/

/-- The tests are evaluated up to the first that is met. -/
theorem selectCases {all cases : List Case} (sub : L.Interprets F sub₁ sub₂) (v : Value)
    (code : ∀ c ∈ cases, ∀ y ∈ c.nodes, F.code y) :
    L.Together (EvalM.selectCases sub₁ v all cases) (EvalM.selectCases sub₂ v all cases) := by
  induction cases with
  | nil => exact pure _
  | cons c rest ih =>
    obtain ⟨head, tail⟩ := List.forall_mem_cons.1 code
    obtain ⟨test, body⟩ := c
    unfold EvalM.selectCases
    cases test with
    | none => exact ih tail
    | some test =>
      have testCode : F.code (.expr test) := head _ (List.mem_cons_self ..)
      exact bind (sub.expr test testCode) fun tested => ite (pure _) (ih tail)

/-- The same cases are selected on both sides, and they are run in one scope. -/
theorem evalSwitch {discriminant : Expr} {cases : List Case} (sub : L.Interprets F sub₁ sub₂)
    (discriminantCode : F.code (.expr discriminant)) (code : ∀ c ∈ cases, ∀ y ∈ c.nodes, F.code y) :
    L.Together (EvalM.evalSwitch sub₁ discriminant cases) (EvalM.evalSwitch sub₂ discriminant cases) := by
  have bodies : ∀ {selected : List Case}, selected ⊆ cases → ∀ t ∈ selected.flatMap Case.body, F.code (.stmt t) := by
    intro selected among t mem
    obtain ⟨c, inside, mem⟩ := List.mem_flatMap.1 mem
    have caseCode := code c (among inside)
    obtain ⟨test, body⟩ := c
    exact caseCode _ (List.mem_append_right _ (List.mem_map_of_mem mem))
  unfold EvalM.evalSwitch
  refine bind (sub.expr discriminant discriminantCode) fun value => inScope <| bind (hoistLexical _) fun _ => ?_
  intro s state
  refine Ends.bind (selectCases sub value code s state) fun selected t chosen later => ?_
  have among := subset_of_selectCases (List.Subset.refl cases) chosen
  have run : L.Together ((selected.flatMap Case.body).forM fun t => Functor.discard (sub₁.stmt t))
      ((selected.flatMap Case.body).forM fun t => Functor.discard (sub₂.stmt t)) :=
    forM fun t mem => discard (sub.stmt t (bodies among t mem))
  refine Ends.attempt_bind (run t later.state) (fun r u _ later leaves => ?_) fun e u _ breaks later leaves => ?_
  · -- a `break` is all that a switch takes
    cases r with
    | ok _ => exact pure () u later.state
    | error e =>
      have left := leaves e rfl
      cases e with
      | jump j =>
        cases j with
        | brk => exact pure () u later.state
        | cont | ret => exact .error (.refl later.state) left
      | error failure => exact .error (.refl later.state) left
      | exhausted | clash => exact .error (.refl later.state) left
  · exact breaks_throw later.state breaks leaves

/-! ## Handlers -/

theorem caughtValue (e : EvalError) : L.Together (EvalM.caughtValue e) (EvalM.caughtValue e) := by
  cases e with
  | thrown v => exact pure v
  | _ => exact reading fun message => allocate _

/-- What is caught on both sides is the same, and so is what the handler makes of it. -/
theorem recovered {handler : Option Handler} (sub : L.Interprets F sub₁ sub₂)
    (code : ∀ y ∈ statements.map Node.stmt, F.code y)
    (handlerCode : ∀ y ∈ (handler.toList.flatMap Handler.body).map Node.stmt, F.code y) :
    L.Together (EvalM.recovered sub₁ statements handler) (EvalM.recovered sub₂ statements handler) := by
  intro s state
  refine Ends.attempt_bind (inScope (evalStatements sub code) s state) (fun r t _ later leaves => ?_)
    fun e t _ breaks later leaves => ?_
  · have ended := Ends.resume later.state leaves
    cases r with
    | ok v => exact ended
    | error e =>
      -- only a failure that is catchable goes to the handler; any other end is passed on
      cases handler with
      | none => cases e <;> exact ended
      | some handler =>
        obtain ⟨param, body⟩ := handler
        have bodyCode : ∀ y ∈ body.map Node.stmt, F.code y := by
          rwa [show (some (Handler.mk param body)).toList.flatMap Handler.body = body from List.append_nil _]
            at handlerCode
        cases e with
        | error failure =>
          cases catchable : failure.isCatchable with
          | false =>
            simp only [catchable, Bool.false_eq_true, if_false]
            exact ended
          | true =>
            simp only [catchable, if_true]
            refine bind (caughtValue failure) (fun caught => inScope ?_) t later.state
            have body := evalStatements sub bodyCode
            cases param with
            | none => exact bind (pure ()) fun _ => body
            | some name => exact bind (discard (define name caught _)) fun _ => body
        | _ => exact ended
  · -- such a failure is not caught
    have uncaught := L.uncaught e breaks
    have resumed : L.Breaks (EvalM.resume (.error (.error e)) : EvalM Value) t := breaks_throw later.state breaks leaves
    cases handler with
    | none => exact resumed
    | some handler =>
      obtain ⟨param, body⟩ := handler
      simp only [uncaught, Bool.false_eq_true, if_false]
      exact resumed

/-- A finalizer is run after a failure that breaks the lockstep, too, and must not make it forgotten. -/
theorem evalAttempt {handler : Option Handler} {finalizer : Option (List Stmt)} (sub : L.Interprets F sub₁ sub₂)
    (code : ∀ y ∈ statements.map Node.stmt, F.code y)
    (handlerCode : ∀ y ∈ (handler.toList.flatMap Handler.body).map Node.stmt, F.code y)
    (finalizerCode : ∀ y ∈ (finalizer.getD []).map Node.stmt, F.code y)
    (resumes : ∀ final, finalizer = some final → L.Resumes sub₁ final) :
    L.Together (EvalM.evalAttempt sub₁ statements handler finalizer)
      (EvalM.evalAttempt sub₂ statements handler finalizer) := by
  intro s state
  rw [EvalM.evalAttempt_eq, EvalM.evalAttempt_eq, EvalM.guarded_eq, EvalM.guarded_eq]
  refine Ends.attempt_bind (recovered sub code handlerCode s state) (fun r t _ later leaves => ?_)
    fun e t _ breaks later leaves => ?_
  · have ended := Ends.resume later.state leaves
    cases finalizer with
    | none =>
      cases r with
      | ok v => exact ended
      | error e => cases e <;> exact ended
    | some final =>
      have finalCode : ∀ y ∈ final.map Node.stmt, F.code y := finalizerCode
      have finished : L.Ends t
          ((do Functor.discard (EvalM.inScope (EvalM.evalStatements sub₁ final)); EvalM.resume r : EvalM Value) t)
          ((do Functor.discard (EvalM.inScope (EvalM.evalStatements sub₂ final)); EvalM.resume r : EvalM Value)
            (L.beside t)) := by
        refine Ends.bind (discard (inScope (evalStatements sub finalCode)) t later.state) fun _ u _ next => ?_
        exact Ends.resume next.state fun e same => (leaves e same).later next
      cases r with
      | ok v => exact finished
      | error e =>
        cases e with
        -- without levels no finalizer is run, nor when the evaluator itself has broken down
        | exhausted | clash => exact ended
        | jump j => exact finished
        | error failure => exact finished
  · cases finalizer with
    | none => exact breaks_throw later.state breaks leaves
    | some final => exact resumes final rfl e t later.state breaks leaves

/-! ## All statements -/

/-- One case for each form of statement. -/
theorem stmtStep {t : Stmt} (sub : L.Interprets F sub₁ sub₂) (below : F.Below (.stmt t))
    (loops : t.isLoop = true → L.exhausts)
    (resumes : ∀ statements handler final, t = .attempt statements handler (some final) → L.Resumes sub₁ final) :
    L.Together (EvalM.stmtStep L.left sub₁ t) (EvalM.stmtStep L.right sub₂ t) := by
  have ended : ∀ {x₁ x₂ : EvalM Unit}, L.Together x₁ x₂ →
      L.Together (do x₁; return Value.undefined) (do x₂; return Value.undefined) :=
    fun x => bind x fun _ => pure _
  -- what a statement is made of is in the fragment, so each step in it is one of the interpreters
  have parts : ∀ y ∈ t.parts, F.code y := below.parts
  unfold EvalM.stmtStep
  refine bind checkInterrupt fun _ => ?_
  cases t with
  | empty => exact pure _
  | brk | cont => exact jump _
  | expr e => exact sub.expr e (parts _ (List.mem_singleton.2 rfl))
  | throw e => exact bind (sub.expr e (parts _ (List.mem_singleton.2 rfl))) fun v => fail nofun
  | ret e =>
    cases e with
    | none => exact jump _
    | some e => exact bind (sub.expr e (parts _ (List.mem_singleton.2 rfl))) fun v => jump _
  | block statements => exact inScope (evalStatements sub parts)
  | declare kind declarators => exact ended (evalDeclaration sub kind (forall_mem_flatMap.1 parts))
  | branch test consequent alternate =>
    obtain ⟨testCode, rest⟩ := List.forall_mem_cons.1 parts
    obtain ⟨consequentCode, alternateCode⟩ := List.forall_mem_cons.1 rest
    refine bind (sub.expr test testCode) fun _ => ite (sub.stmt consequent consequentCode) ?_
    cases alternate with
    | none => exact pure _
    | some t => exact sub.stmt t (alternateCode _ (List.mem_singleton.2 rfl))
  | whileLoop test body =>
    obtain ⟨testCode, rest⟩ := List.forall_mem_cons.1 parts
    have bodyCode := rest _ (List.mem_singleton.2 rfl)
    simp only [sub.turns (loops rfl)]
    refine ended (repeatWhile (loops rfl) (bind (sub.expr test testCode) fun _ => ?_) _)
    exact ite (pure false) (runBody sub bodyCode)
  | doWhile body test =>
    obtain ⟨testCode, rest⟩ := List.forall_mem_cons.1 parts
    have bodyCode := rest _ (List.mem_singleton.2 rfl)
    simp only [sub.turns (loops rfl)]
    refine ended (repeatWhile (loops rfl) (bind (runBody sub bodyCode) fun _ => ite (pure false) ?_) _)
    exact bind (sub.expr test testCode) fun _ => pure _
  | forLoop init test update body =>
    obtain ⟨initCode, rest⟩ := List.forall_mem_append.1 parts
    obtain ⟨testCode, rest⟩ := List.forall_mem_append.1 rest
    obtain ⟨updateCode, rest⟩ := List.forall_mem_append.1 rest
    exact ended (evalFor sub (loops rfl) initCode testCode updateCode (rest _ (List.mem_singleton.2 rfl)))
  | forEach visits kind pattern object body =>
    obtain ⟨patternCode, rest⟩ := List.forall_mem_cons.1 parts
    obtain ⟨objectCode, rest⟩ := List.forall_mem_cons.1 rest
    have bodyCode := rest _ (List.mem_singleton.2 rfl)
    refine bind (sub.expr object objectCode) fun collection => ended ?_
    exact evalForEach sub (loops rfl) visits (visitItem sub kind patternCode bodyCode) collection
  | attempt statements handler finalizer =>
    obtain ⟨code, rest⟩ := List.forall_mem_append.1 parts
    obtain ⟨handlerCode, finalizerCode⟩ := List.forall_mem_append.1 rest
    refine evalAttempt sub code handlerCode finalizerCode fun final same => resumes statements handler final ?_
    rw [same]
  | switch discriminant cases =>
    obtain ⟨discriminantCode, rest⟩ := List.forall_mem_cons.1 parts
    exact ended (evalSwitch sub discriminantCode (forall_mem_flatMap.1 rest))
  | function name definition =>
    exact readingEnv (fun _ _ => rfl) fun there => ite (ended (hoistLexical _)) (pure _)

end Together

end Lockstep

end BindScript
