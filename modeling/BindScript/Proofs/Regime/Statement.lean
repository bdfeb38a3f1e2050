import BindScript.Evaluation.Statement
import BindScript.Proofs.Control.Absorption
import BindScript.Proofs.Correspondence.Statement
import BindScript.Proofs.Regime.Binding

/-!
# Statements in a regime

Each kind of statement, in code that obeys the rule of the regime. A turn of a counting loop looks at how its body
ended before it copies the loop variables back. The copies are read and written without jumps, so a failure of the
body stays a failure (`Fail.bind`); a `try` would not leave it one, and is not there where the runs may part.
-/

namespace BindScript

/-- A step that always gives a value leaves its scope with it. -/
theorem EvalM.inScope_bind {α β : Type} {x : EvalM α} {f : α → EvalM β} (total : ∀ s, ∃ a t, x s = .ok a t) :
    (inScope x >>= f) = (do
      modifyEnv Environment.push
      let a ← x
      modifyEnv Environment.pop
      f a) := by
  funext s
  obtain ⟨a, t, run⟩ := total { s with env := s.env.push }
  have attempted : attempt x { s with env := s.env.push } = .ok (.ok a) t := by rw [attempt, run]
  have left : inScope x s = .ok a { t with env := t.env.pop } := bind_of_ok attempted
  have stepped : (x >>= fun a => modifyEnv Environment.pop >>= fun _ => f a) { s with env := s.env.push } =
      f a { t with env := t.env.pop } := bind_of_ok run
  exact (bind_of_ok left).trans stepped.symm

/-- A turn of a counting loop leaves the scope of its copies however the body ends. -/
theorem EvalM.runTurn_eq (sub : Interpreter) (names : List String) (body : Stmt) :
    runTurn sub names body = (do
      modifyEnv Environment.push
      names.forM copyName
      let result ← attempt (runBody sub body)
      let values ← names.mapM valueOf
      modifyEnv Environment.pop
      startNames (names.zip values)
      resume result) := by
  have copies : ∀ (names : List String) (s : State), ∃ t, names.forM copyName s = .ok () t := by
    intro names
    induction names with
    | nil => exact fun s => ⟨s, rfl⟩
    | cons name rest ih =>
      intro s
      have head : ∃ t, copyName name s = .ok () t := ⟨_, rfl⟩
      obtain ⟨t, head⟩ := head
      obtain ⟨u, tail⟩ := ih t
      exact ⟨u, (bind_of_ok head).trans tail⟩
  unfold runTurn
  rw [inScope_bind]
  · simp only [bind_assoc, pure_bind]
    rfl
  · intro s
    obtain ⟨t, copied⟩ := copies names s
    have attempted : ∃ r u, attempt (runBody sub body) t = .ok r u := by
      unfold attempt
      cases runBody sub body t with
      | ok b u => exact ⟨_, u, rfl⟩
      | error e u => exact ⟨_, u, rfl⟩
    obtain ⟨r, u, attempted⟩ := attempted
    obtain ⟨values, read⟩ := valuesOf_ok names u
    exact ⟨(r, values), u, (bind_of_ok copied).trans ((bind_of_ok attempted).trans (bind_of_ok read))⟩

namespace Regime

variable {R : Regime} {sub₁ sub₂ : Interpreter} {v : Value} {name : String} {statements : List Stmt} {body : Stmt}
  {test update : Option Expr}

/-- After a step that does not jump, a failure is still to come. -/
theorem Fail.bind {α β : Type} {P : α → Prop} {x : EvalM α} {f : α → EvalM β} (first : R.Follows P x x)
    (quiet : ∀ j s, Quiet j x s) (next : ∀ a, P a → R.Fail (f a)) : R.Fail (x >>= f) := by
  intro s state
  have ends := first s state
  cases run : x s with
  | ok a t =>
    rw [run] at ends
    rw [EvalM.bind_of_ok run]
    cases ends with
    | ok state result => exact next a result t state
  | error e t =>
    rw [run] at ends
    have fails : e.Fails := by
      cases e with
      | jump j => exact absurd (EvalM.ending_of_error run) (quiet j s)
      | _ => trivial
    refine ⟨e, t, EvalM.bind_of_error run, fails, ?_⟩
    cases ends with
    | error state leaves => exact ⟨state, leaves⟩
    | parted _ _ state leaves => exact ⟨state, leaves⟩

namespace Follows

theorem evalStatements (sub : R.Interprets sub₁ sub₂) (code : Stmt.AllObey R.code statements) :
    R.Follows R.Holds (EvalM.evalStatements sub₁ statements) (EvalM.evalStatements sub₂ statements) := by
  have each := Stmt.allObey_iff.1 code
  unfold EvalM.evalStatements
  exact bind (hoistLexical code) fun _ _ =>
    foldlM (I := fun _ => R.Holds) (fun _ s mem _ _ => sub.stmt s (each s mem)) holds_undefined

/-! ## Loops -/

theorem runBody (sub : R.Interprets sub₁ sub₂) (code : body.Obeys R.code) :
    R.Follows (fun _ => True) (EvalM.runBody sub₁ body) (EvalM.runBody sub₂ body) := by
  unfold EvalM.runBody
  refine attempt_jump (sub.stmt body code) (fun _ _ => pure trivial) (fun j leaves => ?_) fun e fails => ?_
  · cases j with
    | brk | cont => exact pure trivial
    | ret v => exact throw leaves
  · cases e with
    | jump j => exact fails.elim
    | _ => rfl

theorem testHolds (sub : R.Interprets sub₁ sub₂) (code : Expr.OptionObeys R.code test) :
    R.Follows (fun _ => True) (EvalM.testHolds sub₁ test) (EvalM.testHolds sub₂ test) := by
  cases test with
  | none => exact pure trivial
  | some e => exact bind (sub.expr e code) fun _ _ => pure trivial

/-- What a loop variable holds. -/
theorem valueOf (name : String) : R.Follows R.Holds (EvalM.valueOf name) (EvalM.valueOf name) := by
  unfold EvalM.valueOf
  refine bind (P := fun b => ∀ b' ∈ b, R.zone.cells b'.cell) (readEnv fun _ scopes _ found => scopes.find? found)
    fun b inside => readHeap fun h fits => ?_
  cases b with
  | none => exact holds_undefined
  | some b => exact fits.cell (inside b rfl)

theorem copyName (name : String) : R.Follows (fun _ => True) (EvalM.copyName name) (EvalM.copyName name) := by
  unfold EvalM.copyName
  refine bind (P := fun b => ∀ b' ∈ b, R.zone.cells b'.cell) (readEnv fun _ scopes _ found => scopes.find? found)
    fun b inside => bind (P := R.Holds) (readHeap fun h fits => ?_) fun value holds => discard (define holds)
  cases b with
  | none => exact holds_undefined
  | some b => exact fits.cell (inside b rfl)

theorem startNames {entries : List (String × Value)} (holds : ∀ entry ∈ entries, R.Holds entry.2) :
    R.Follows (fun _ => True) (EvalM.startNames entries) (EvalM.startNames entries) :=
  forM fun entry mem => startName (holds entry mem)

/-- The variables get values that fit. -/
theorem runTurn (sub : R.Interprets sub₁ sub₂) (names : List String) (code : body.Obeys R.code) :
    R.Follows (fun _ => True) (EvalM.runTurn sub₁ names body) (EvalM.runTurn sub₂ names body) := by
  have read : R.Follows (fun values => values.length = names.length ∧ ∀ v ∈ values, R.Holds v)
      (names.mapM EvalM.valueOf) (names.mapM EvalM.valueOf) := mapM fun name _ => valueOf name
  have pop : R.Follows (fun _ => True) (EvalM.modifyEnv Environment.pop) (EvalM.modifyEnv Environment.pop) :=
    modifyEnv fun _ scopes => scopes.pop
  have entries : ∀ {values : List Value}, (∀ v ∈ values, R.Holds v) → ∀ entry ∈ names.zip values, R.Holds entry.2 :=
    fun holds entry mem => holds _ (List.of_mem_zip mem).2
  rw [EvalM.runTurn_eq, EvalM.runTurn_eq]
  refine bind (modifyEnv fun _ scopes => scopes.push) fun _ _ => bind (forM fun name _ => copyName name) fun _ _ => ?_
  refine attempt_bind (runBody sub code) (fun r tried => ?_) fun e fails leaves => ?_
  · exact bind read fun values made => bind pop fun _ _ => bind (startNames (entries made.2)) fun _ _ => resume tried
  · have quiet : ∀ j s, Quiet j (names.mapM EvalM.valueOf) s := by
      intro j s ends
      obtain ⟨values, run⟩ := EvalM.valuesOf_ok names s
      cases (EvalM.ending_of_ok run).symm.trans ends
    refine Fail.bind read quiet fun values made => Fail.bind pop (fun _ _ => nofun) fun _ _ => ?_
    refine Fail.bind (startNames (entries made.2)) (fun _ _ => Quiet.startNames _) fun _ _ s state => ?_
    exact ⟨e, s, rfl, fails, state, leaves⟩

theorem evalForInit {init : ForInit} (sub : R.Interprets sub₁ sub₂) (code : init.Obeys R.code) :
    R.Follows (fun _ => True) (EvalM.evalForInit R.left sub₁ init) (EvalM.evalForInit R.right sub₂ init) := by
  cases init with
  | none => exact pure trivial
  | declare kind declarators => exact bind (evalDeclaration sub kind code) fun _ _ => pure trivial
  | expr e => exact bind (discard (sub.expr e code)) fun _ _ => pure trivial

theorem forTurn {names : List String} (sub : R.Interprets sub₁ sub₂) (testCode : Expr.OptionObeys R.code test)
    (updateCode : Expr.OptionObeys R.code update) (code : body.Obeys R.code) :
    R.Follows (fun _ => True) (EvalM.forTurn sub₁ names test update body)
      (EvalM.forTurn sub₂ names test update body) := by
  unfold EvalM.forTurn
  refine bind (testHolds sub testCode) fun holds _ => ite (fun _ => pure trivial) fun _ => ?_
  have turn : R.Follows (fun _ => True)
      (if names.isEmpty then EvalM.runBody sub₁ body else EvalM.runTurn sub₁ names body)
      (if names.isEmpty then EvalM.runBody sub₂ body else EvalM.runTurn sub₂ names body) :=
    ite (fun _ => runBody sub code) fun _ => runTurn sub names code
  refine bind turn fun again _ => ite (fun _ => pure trivial) fun _ => ?_
  cases update with
  | none => exact pure trivial
  | some e => exact bind (discard (sub.expr e updateCode)) fun _ _ => pure trivial

theorem evalFor {init : ForInit} (sub : R.Interprets sub₁ sub₂) (initCode : init.Obeys R.code)
    (testCode : Expr.OptionObeys R.code test) (updateCode : Expr.OptionObeys R.code update)
    (code : body.Obeys R.code) :
    R.Follows (fun _ => True) (EvalM.evalFor R.left sub₁ init test update body)
      (EvalM.evalFor R.right sub₂ init test update body) := by
  rw [EvalM.evalFor_eq, EvalM.evalFor_eq, sub.turns]
  exact inScope <| bind (evalForInit sub initCode) fun names _ =>
    repeatWhile (forTurn sub testCode updateCode code) _

theorem visitItem {kind : Option DeclKind} {pattern : Pattern} (sub : R.Interprets sub₁ sub₂)
    (patternCode : pattern.Obeys R.code) (code : body.Obeys R.code) (holds : R.Holds v) :
    R.Follows (fun _ => True) (EvalM.visitItem R.left sub₁ kind pattern body v)
      (EvalM.visitItem R.right sub₂ kind pattern body v) :=
  inScope <| bind (bindPattern sub _ pattern patternCode holds) fun _ _ => runBody sub code

section Visits

variable {visit₁ visit₂ : Value → EvalM Bool}

theorem visitAll (visit : ∀ v, R.Holds v → R.Follows (fun _ => True) (visit₁ v) (visit₂ v)) {items : List Value}
    (holds : ∀ v ∈ items, R.Holds v) :
    R.Follows (fun _ => True) (EvalM.visitAll visit₁ items) (EvalM.visitAll visit₂ items) := by
  induction items with
  | nil => exact pure trivial
  | cons item rest ih =>
    obtain ⟨head, tail⟩ := List.forall_mem_cons.1 holds
    unfold EvalM.visitAll
    refine bind checkInterrupt fun _ _ => bind (visit item head) fun again _ => ?_
    exact ite (fun _ => ih tail) fun _ => pure trivial

theorem visitArray {a : Nat} (visit : ∀ v, R.Holds v → R.Follows (fun _ => True) (visit₁ v) (visit₂ v))
    (inside : R.Holds (.array a)) (turns i : Nat) :
    R.Follows (fun _ => True) (EvalM.visitArray a visit₁ turns i) (EvalM.visitArray a visit₂ turns i) := by
  induction turns generalizing i with
  | zero => exact exhausted
  | succ turns ih =>
    unfold EvalM.visitArray
    refine bind checkInterrupt fun _ _ => bind (P := fun item => ∀ v ∈ item, R.Holds v)
      (readHeap fun h fits v found => ?_) fun item holds => ?_
    · exact fits.items inside v (Array.mem_toList_iff.2 (Array.mem_of_getElem? found))
    · cases item with
      | none => exact pure trivial
      | some item =>
        refine bind (visit item (holds item rfl)) fun again _ => ?_
        exact ite (fun _ => ih (i + 1)) fun _ => pure trivial

theorem evalForEach (sub : R.Interprets sub₁ sub₂) (visits : EachKind) (guarded : R.sized → visits = .items)
    (visit : ∀ v, R.Holds v → R.Follows (fun _ => True) (visit₁ v) (visit₂ v)) (holds : R.Holds v) :
    R.Follows (fun _ => True) (EvalM.evalForEach sub₁ visits visit₁ v)
      (EvalM.evalForEach sub₂ visits visit₂ v) := by
  unfold EvalM.evalForEach
  cases visits with
  | keys =>
    have unsized : ¬ R.sized := fun sized => nomatch guarded sized
    exact reading fun keys => visitAll visit (List.forall_mem_map.2 fun key _ => holds_text unsized key)
  | items =>
    have each : R.Follows (fun _ => True) (do EvalM.visitAll visit₁ (← EvalM.iterate v).toList)
        (do EvalM.visitAll visit₂ (← EvalM.iterate v).toList) :=
      bind (iterate holds) fun items inside => visitAll visit inside
    cases v with
    | array a =>
      simp only [sub.turns]
      exact visitArray visit holds _ 0
    | _ => exact each

end Visits

/-! ## Switches -/

/-- What is selected is among the cases. -/
theorem selectCases {all cases : List Case} (sub : R.Interprets sub₁ sub₂) (code : Case.AllObey R.code cases)
    (among : cases ⊆ all) :
    R.Follows (fun selected => selected ⊆ all) (EvalM.selectCases sub₁ v all cases)
      (EvalM.selectCases sub₂ v all cases) := by
  induction cases with
  | nil => exact pure (List.dropWhile_sublist _).subset
  | cons c rest ih =>
    unfold Case.AllObey at code
    obtain ⟨head, tail⟩ := code
    have next := ih tail fun c mem => among (List.mem_cons_of_mem _ mem)
    obtain ⟨test, body⟩ := c
    unfold Case.Obeys at head
    unfold EvalM.selectCases
    cases test with
    | none => exact next
    | some test => exact bind (sub.expr test head.1) fun tested _ => ite (fun _ => pure among) fun _ => next

/-- The bodies that are run are bodies of the cases. -/
theorem evalSwitch {discriminant : Expr} {cases : List Case} (sub : R.Interprets sub₁ sub₂)
    (discriminantCode : discriminant.Obeys R.code) (code : Case.AllObey R.code cases) :
    R.Follows (fun _ => True) (EvalM.evalSwitch sub₁ discriminant cases)
      (EvalM.evalSwitch sub₂ discriminant cases) := by
  have bodies : ∀ {selected : List Case}, selected ⊆ cases → ∀ s ∈ selected.flatMap Case.body, s.Obeys R.code := by
    intro selected among s mem
    obtain ⟨c, inside, mem⟩ := List.mem_flatMap.1 mem
    have caseCode := Case.allObey_iff.1 code c (among inside)
    obtain ⟨test, body⟩ := c
    unfold Case.Obeys at caseCode
    exact Stmt.allObey_iff.1 caseCode.2 s mem
  unfold EvalM.evalSwitch
  refine bind (sub.expr discriminant discriminantCode) fun value _ => inScope ?_
  refine bind (hoistLexical (Stmt.allObey_iff.2 (bodies (List.Subset.refl cases)))) fun _ _ => ?_
  refine bind (selectCases sub code (List.Subset.refl cases)) fun selected among => ?_
  refine attempt_jump (forM fun s mem => discard (sub.stmt s (bodies among s mem))) (fun _ _ => pure trivial)
    (fun j leaves => ?_) fun e fails => ?_
  · cases j with
    | brk => exact pure trivial
    | cont | ret => exact throw leaves
  · cases e with
    | jump j => exact fails.elim
    | _ => rfl

/-! ## Handlers -/

/-- What is caught is a value that fits, or the text of a failure. -/
theorem caughtValue {e : EvalError} (unsized : ¬ R.sized) (leaves : R.Leaves (.error e)) :
    R.Follows R.Holds (EvalM.caughtValue e) (EvalM.caughtValue e) := by
  have described : R.Follows R.Holds
      (do let message ← EvalM.readHeap e.detail
          EvalM.allocate (·.newObject [("name", .string e.className), ("message", .string message)]))
      (do let message ← EvalM.readHeap e.detail
          EvalM.allocate (·.newObject [("name", .string e.className), ("message", .string message)])) :=
    reading fun message => newObject <| List.forall_mem_cons.2
      ⟨holds_text unsized _, List.forall_mem_singleton.2 (holds_text unsized message)⟩
  cases e with
  | thrown v => exact pure leaves
  | _ => exact described

/-- Where the runs do not part, both handle a failure or neither does. -/
theorem handle {handler : Option Handler} {r : Except Exit Value} (together : ¬ R.parts)
    (sub : R.Interprets sub₁ sub₂) (guarded : R.sized → handler = none) (code : Handler.OptionObeys R.code handler)
    (tried : R.Tried R.Holds r) :
    R.Follows (R.Tried R.Holds) (EvalM.handle sub₁ handler r) (EvalM.handle sub₂ handler r) := by
  have untouched : R.Follows (R.Tried R.Holds) (Pure.pure r) (Pure.pure r) := pure tried
  unfold EvalM.handle
  cases handler with
  | none =>
    cases r with
    | ok v => exact untouched
    | error e => cases e <;> exact untouched
  | some handler =>
    have unsized : ¬ R.sized := fun sized => nomatch guarded sized
    obtain ⟨param, body⟩ := handler
    cases r with
    | ok v => exact untouched
    | error e =>
      cases e with
      | error failure =>
        refine ite (fun _ => ?_) fun _ => untouched
        refine bind (caughtValue unsized tried) fun caught holds => attempt together <| inScope ?_
        unfold Handler.OptionObeys Handler.Obeys at code
        refine bind (P := fun _ => True) ?_ fun _ _ => evalStatements sub code
        cases param with
        | none => exact pure trivial
        | some name => exact discard (define holds)
      | _ => exact untouched

/-- Block, handler and finalizer come in the same order in both runs. -/
theorem evalAttempt {handler : Option Handler} {finalizer : Option (List Stmt)} (together : ¬ R.parts)
    (sub : R.Interprets sub₁ sub₂) (guarded : R.sized → handler = none) (code : Stmt.AllObey R.code statements)
    (handlerCode : Handler.OptionObeys R.code handler) (finalizerCode : Stmt.FinalizerObeys R.code finalizer) :
    R.Follows R.Holds (EvalM.evalAttempt sub₁ statements handler finalizer)
      (EvalM.evalAttempt sub₂ statements handler finalizer) := by
  unfold EvalM.evalAttempt
  refine bind (attempt together (inScope (evalStatements sub code))) fun r tried => ?_
  refine bind (handle together sub guarded handlerCode tried) fun r tried => ?_
  have done : R.Follows R.Holds (EvalM.resume r) (EvalM.resume r) := resume tried
  cases finalizer with
  | none =>
    cases r with
    | ok v => exact done
    | error e => cases e <;> exact done
  | some statements =>
    have final : R.Follows R.Holds
        (do Functor.discard (EvalM.inScope (EvalM.evalStatements sub₁ statements)); EvalM.resume r)
        (do Functor.discard (EvalM.inScope (EvalM.evalStatements sub₂ statements)); EvalM.resume r) :=
      bind (discard (inScope (evalStatements sub finalizerCode))) fun _ _ => done
    cases r with
    | ok v => exact final
    | error e =>
      cases e with
      | exhausted | clash => exact done
      | _ => exact final

/-! ## All statements -/

/-- Each kind of statement by its own lemma. -/
theorem stmtStep {s : Stmt} (sub : R.Interprets sub₁ sub₂) (code : s.Obeys R.code) :
    R.Follows R.Holds (EvalM.stmtStep R.left sub₁ s) (EvalM.stmtStep R.right sub₂ s) := by
  have ended : ∀ {x₁ x₂ : EvalM Unit}, R.Follows (fun _ => True) x₁ x₂ →
      R.Follows R.Holds (do x₁; return .undefined) (do x₂; return .undefined) :=
    fun x => bind x fun _ _ => pure holds_undefined
  unfold EvalM.stmtStep
  refine bind checkInterrupt fun _ _ => ?_
  cases s with
  | empty => exact pure holds_undefined
  | brk | cont => exact throw trivial
  | expr e =>
    unfold Stmt.Obeys at code
    exact sub.expr e code.2
  | throw e =>
    unfold Stmt.Obeys at code
    exact bind (sub.expr e code.2) fun v holds => throw holds
  | ret e =>
    unfold Stmt.Obeys at code
    cases e with
    | none => exact jump holds_undefined
    | some e => exact bind (sub.expr e code.2) fun v holds => jump holds
  | block statements =>
    unfold Stmt.Obeys at code
    exact inScope (evalStatements sub code.2)
  | declare kind declarators =>
    unfold Stmt.Obeys at code
    exact ended (evalDeclaration sub kind code.2)
  | branch test consequent alternate =>
    unfold Stmt.Obeys at code
    obtain ⟨-, testCode, consequentCode, alternateCode⟩ := code
    refine bind (sub.expr test testCode) fun _ _ => ite (fun _ => sub.stmt consequent consequentCode) fun _ => ?_
    cases alternate with
    | none => exact pure holds_undefined
    | some s => exact sub.stmt s alternateCode
  | whileLoop test body =>
    unfold Stmt.Obeys at code
    simp only [sub.turns]
    refine ended (repeatWhile (bind (sub.expr test code.2.1) fun _ _ => ?_) _)
    exact ite (fun _ => pure trivial) fun _ => runBody sub code.2.2
  | doWhile body test =>
    unfold Stmt.Obeys at code
    simp only [sub.turns]
    refine ended (repeatWhile (bind (runBody sub code.2.2) fun _ _ => ite (fun _ => pure trivial) fun _ => ?_) _)
    exact bind (sub.expr test code.2.1) fun _ _ => pure trivial
  | forLoop init test update body =>
    unfold Stmt.Obeys at code
    obtain ⟨-, initCode, testCode, updateCode, bodyCode⟩ := code
    exact ended (evalFor sub initCode testCode updateCode bodyCode)
  | forEach visits kind pattern object body =>
    unfold Stmt.Obeys at code
    obtain ⟨node, patternCode, objectCode, bodyCode⟩ := code
    refine bind (sub.expr object objectCode) fun collection inside => ended (evalForEach sub visits (fun sized => ?_)
      (fun item holds => visitItem sub patternCode bodyCode holds) inside)
    exact (R.guarded sized).stmt _ node
  | attempt statements handler finalizer =>
    unfold Stmt.Obeys at code
    obtain ⟨node, statementsCode, handlerCode, finalizerCode⟩ := code
    have together : ¬ R.parts := fun parts => R.untried parts _ _ _ node
    exact evalAttempt together sub (fun sized => (R.guarded sized).stmt _ node) statementsCode handlerCode finalizerCode
  | switch discriminant cases =>
    unfold Stmt.Obeys at code
    exact ended (evalSwitch sub code.2.1 code.2.2)
  | function name definition =>
    refine readingEnv fun there => ite (fun _ => ended (hoistLexical ?_)) fun _ => pure holds_undefined
    exact ⟨code, trivial⟩

end Follows

end Regime

end BindScript
