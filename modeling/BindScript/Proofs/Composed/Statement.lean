import BindScript.Proofs.Composed.Expression
import BindScript.Proofs.Lockstep.Interpreter

/-!
# Statements and calls are composed steps

A statement is composed of its parts where the variables that it declares with `var` have been hoisted, for these are
the variables of its parts. The body of a function hoists what its own statements declare, and so a call that is entered
is composed of its parts in any case.
-/

namespace BindScript

/-! ## Variables of parts -/

namespace Stmt

variable {t : Stmt} {statements : List Stmt}

theorem varNamesList_eq_flatMap : varNamesList statements = statements.flatMap varNames := by
  induction statements with
  | nil => rfl
  | cons t rest ih => rw [varNamesList, ih, List.flatMap_cons]

theorem varNames_subset_of_mem (mem : t ∈ statements) : t.varNames ⊆ varNamesList statements := by
  rw [varNamesList_eq_flatMap]
  exact fun n declared => List.mem_flatMap.2 ⟨t, mem, declared⟩

theorem caseVarNames_eq_flatMap {cases : List Case} :
    Case.varNames cases = cases.flatMap fun c => varNamesList c.body := by
  induction cases with
  | nil => rfl
  | cons c rest ih =>
    obtain ⟨test, body⟩ := c
    rw [Case.varNames, ih, List.flatMap_cons]
    rfl

theorem varNames_subset_of_mem_cases {cases selected : List Case} (among : selected ⊆ cases)
    (mem : t ∈ selected.flatMap Case.body) : t.varNames ⊆ Case.varNames cases := by
  obtain ⟨c, inside, mem⟩ := List.mem_flatMap.1 mem
  rw [caseVarNames_eq_flatMap]
  exact fun n declared => List.mem_flatMap.2 ⟨c, among inside, varNames_subset_of_mem mem declared⟩

end Stmt

namespace Composed

variable {ctx : Context} {bound : List String} {statements : List Stmt} {body : Stmt}

theorem evalStatements (hoisted : Stmt.varNamesList statements ⊆ bound) :
    Composed ctx bound fun sub => EvalM.evalStatements sub statements := by
  unfold EvalM.evalStatements
  exact bind (hoistLexical statements) fun _ =>
    foldlM (fun t mem _ => stmt t (List.Subset.trans (Stmt.varNames_subset_of_mem mem) hoisted)) _

/-! ## Loops -/

/-- A loop may take as many turns as the interpreter allows. -/
theorem allTurns {turn : Interpreter → EvalM Bool} (step : Composed ctx bound turn) :
    Composed ctx bound fun sub => EvalM.repeatWhile (turn sub) sub.turns :=
  turns fun n => repeatWhile step n

theorem runBody (hoisted : body.varNames ⊆ bound) : Composed ctx bound fun sub => EvalM.runBody sub body := by
  unfold EvalM.runBody
  refine bind (attempt (stmt body hoisted)) fun result => ?_
  split
  · exact pure true
  · exact pure true
  · exact pure false
  · exact throw _

theorem testHolds (test : Option Expr) : Composed ctx bound fun sub => EvalM.testHolds sub test := by
  cases test with
  | none => exact pure true
  | some e => exact bind (expr e) fun _ => pure _

theorem copyName (name : String) : Composed ctx bound fun _ => EvalM.copyName name := by
  unfold EvalM.copyName
  exact readingEnv fun _ => reading fun value => discard (define name value _)

theorem valueOf (name : String) : Composed ctx bound fun _ => EvalM.valueOf name := by
  unfold EvalM.valueOf
  exact readingEnv fun _ => readHeap _

theorem runTurn (names : List String) (hoisted : body.varNames ⊆ bound) :
    Composed ctx bound fun sub => EvalM.runTurn sub names body := by
  unfold EvalM.runTurn
  refine bind (inScope ?_) fun done => bind (forM fun entry _ => startName entry.1 entry.2) fun _ => resume done.1
  refine bind (forM fun name _ => copyName name) fun _ => bind (attempt (runBody hoisted)) fun result => ?_
  exact bind (mapM fun name _ => valueOf name) fun values => pure _

theorem updated (update : Option Expr) :
    Composed ctx bound fun sub => update.forM fun e => Functor.discard (sub.expr e) := by
  cases update with
  | none => exact pure ()
  | some e => exact discard (expr e)

theorem forTurn (names : List String) (test update : Option Expr) (hoisted : body.varNames ⊆ bound) :
    Composed ctx bound fun sub => EvalM.forTurn sub names test update body := by
  unfold EvalM.forTurn
  refine bind (testHolds test) fun holds => ite (pure false) (bind ?_ fun again => ite (pure false) ?_)
  · exact ite (runBody hoisted) (runTurn names hoisted)
  · exact bind (updated update) fun _ => pure true

theorem evalForInit (init : ForInit) : Composed ctx bound fun sub => EvalM.evalForInit ctx sub init := by
  cases init with
  | none => exact pure []
  | declare kind declarators => exact bind (evalDeclaration kind declarators) fun _ => pure _
  | expr e => exact bind (discard (expr e)) fun _ => pure _

theorem evalFor (init : ForInit) (test update : Option Expr) (hoisted : body.varNames ⊆ bound) :
    Composed ctx bound fun sub => EvalM.evalFor ctx sub init test update body := by
  simp only [EvalM.evalFor_eq]
  exact inScope (bind (evalForInit init) fun names => allTurns (forTurn names test update hoisted))

theorem visitItem (kind : Option DeclKind) (pattern : Pattern) (hoisted : body.varNames ⊆ bound) (item : Value) :
    Composed ctx bound fun sub => EvalM.visitItem ctx sub kind pattern body item :=
  inScope (bind (bindPattern _ pattern item) fun _ => runBody hoisted)

theorem evalForEach (visits : EachKind) {visit : Value → Interpreter → EvalM Bool}
    (each : ∀ v, Composed ctx bound (visit v)) (collection : Value) :
    Composed ctx bound fun sub => EvalM.evalForEach sub visits (fun v => visit v sub) collection := by
  have all : Composed ctx bound fun sub =>
      (do EvalM.visitAll (fun v => visit v sub) (← EvalM.iterate collection).toList) :=
    bind (built (.iterate collection)) fun items => visitAll each items.toList
  unfold EvalM.evalForEach
  cases visits with
  | keys => exact reading fun keys => visitAll each _
  | items =>
    cases collection with
    | array a => exact turns fun n => visitArray each a n 0
    | _ => exact all

/-! ## Switches -/

theorem selectCases (v : Value) (all cases : List Case) :
    Composed ctx bound fun sub => EvalM.selectCases sub v all cases := by
  induction cases with
  | nil => exact pure _
  | cons c rest ih =>
    obtain ⟨test, body⟩ := c
    unfold EvalM.selectCases
    cases test with
    | none => exact ih
    | some test => exact bind (expr test) fun tested => ite (pure _) ih

/-- The cases of a switch, from the one that it enters. -/
theorem switchBody (value : Value) {cases : List Case} (hoisted : Case.varNames cases ⊆ bound) :
    Composed ctx bound fun sub => (do
      EvalM.hoistLexical (cases.flatMap Case.body)
      let selected ← EvalM.selectCases sub value cases cases
      match ← EvalM.attempt ((selected.flatMap Case.body).forM fun s => Functor.discard (sub.stmt s)) with
      | .error (.jump .brk) => return
      | result => EvalM.resume result) := by
  -- the statements that are run are those of cases of the switch
  refine bind (hoistLexical _) fun _ => bindGiven (selectCases value cases cases)
    (fun _ _ _ _ run => EvalM.subset_of_selectCases (List.Subset.refl cases) run) fun selected among => ?_
  refine bind (attempt (forM fun t mem => discard (stmt t ?_))) fun result => ?_
  · exact List.Subset.trans (Stmt.varNames_subset_of_mem_cases among mem) hoisted
  · split
    · exact pure ()
    · exact resume result

theorem evalSwitch (discriminant : Expr) {cases : List Case} (hoisted : Case.varNames cases ⊆ bound) :
    Composed ctx bound fun sub => EvalM.evalSwitch sub discriminant cases :=
  bind (expr discriminant) fun value => inScope (switchBody value hoisted)

/-! ## Handlers -/

theorem caughtValue (e : EvalError) : Composed ctx bound fun _ => EvalM.caughtValue e := by
  cases e with
  | thrown v => exact pure v
  | _ => exact reading fun message => built (.newObject _)

/-- A handler runs in a scope with what it has caught. -/
theorem handlerBody (param : Option String) (caught : Value) (hoisted : Stmt.varNamesList statements ⊆ bound) :
    Composed ctx bound fun sub => (do
      param.forM fun name => Functor.discard (EvalM.define name caught .param)
      EvalM.evalStatements sub statements) := by
  refine bind ?_ fun _ => evalStatements hoisted
  cases param with
  | none => exact pure ()
  | some name => exact discard (define name caught _)

/-- The name of what is caught is in a scope around the body of the handler. -/
theorem handle {handler : Option Handler} (hoisted : Handler.varNames handler ⊆ bound) (result : Except Exit Value) :
    Composed ctx bound fun sub => EvalM.handle sub handler result := by
  cases handler with
  | none => cases result with
    | ok v => exact pure _
    | error e => cases e <;> exact pure _
  | some handler =>
    obtain ⟨param, body⟩ := handler
    cases result with
    | ok v => exact pure _
    | error e =>
      cases e with
      | error failure =>
        refine ite (bind (caughtValue failure) fun caught => ?_) (pure _)
        exact attempt (inScope (handlerBody param caught hoisted))
      | _ => exact pure _

/-- The finalizer comes last, whatever the block and the handler have ended with. -/
theorem evalAttempt {handler : Option Handler} {finalizer : Option (List Stmt)}
    (hoisted : Stmt.varNamesList statements ⊆ bound) (handlerHoisted : Handler.varNames handler ⊆ bound)
    (finalizerHoisted : Stmt.varNamesFinalizer finalizer ⊆ bound) :
    Composed ctx bound fun sub => EvalM.evalAttempt sub statements handler finalizer := by
  unfold EvalM.evalAttempt
  refine bind (attempt (inScope (evalStatements hoisted))) fun ended => ?_
  refine bind (handle handlerHoisted ended) fun result => ?_
  cases finalizer with
  | none => cases result with
    | ok v => exact resume _
    | error e => cases e <;> exact resume _
  | some final =>
    have finished : Composed ctx bound fun sub =>
        (do Functor.discard (EvalM.inScope (EvalM.evalStatements sub final)); EvalM.resume result) :=
      bind (discard (inScope (evalStatements finalizerHoisted))) fun _ => resume result
    cases result with
    | ok v => exact finished
    | error e =>
      cases e with
      -- without levels no finalizer is run, nor when the evaluator itself has broken down
      | exhausted | clash => exact resume _
      | jump j => exact finished
      | error failure => exact finished

/-! ## All statements -/

/-- A statement is composed of its parts where its variables are hoisted. -/
theorem stmtStep {t : Stmt} (hoisted : t.varNames ⊆ bound) :
    Composed ctx bound fun sub => EvalM.stmtStep ctx sub t := by
  have ended : ∀ {x : Interpreter → EvalM Unit}, Composed ctx bound x →
      Composed ctx bound fun sub => (do x sub; return Value.undefined) :=
    fun step => bind step fun _ => pure _
  unfold EvalM.stmtStep
  refine bind checkInterrupt fun _ => ?_
  cases t with
  | empty => exact pure _
  | brk | cont => exact jump _
  | expr e => exact expr e
  | throw e => exact bind (expr e) fun v => fail _
  | ret e =>
    cases e with
    | none => exact jump _
    | some e => exact bind (expr e) fun v => jump _
  | block statements => exact inScope (evalStatements hoisted)
  | declare kind declarators => exact ended (evalDeclaration kind declarators)
  | branch test consequent alternate =>
    obtain ⟨first, second⟩ := List.append_subset.1 hoisted
    refine bind (expr test) fun _ => ite (stmt consequent first) ?_
    cases alternate with
    | none => exact pure _
    | some t => exact stmt t second
  | whileLoop test body =>
    exact ended (allTurns (bind (expr test) fun _ => ite (pure false) (runBody hoisted)))
  | doWhile body test =>
    exact ended (allTurns (bind (runBody hoisted) fun _ => ite (pure false) (bind (expr test) fun _ => pure _)))
  | forLoop init test update body => exact ended (evalFor init test update (List.append_subset.1 hoisted).2)
  -- the names of the head are declared in each turn, so only those of the body have to be hoisted
  | forEach visits kind pattern object body =>
    have bodyHoisted := (List.append_subset.1 hoisted).2
    exact bind (expr object) fun collection =>
      ended (evalForEach visits (fun item => visitItem kind pattern bodyHoisted item) collection)
  | attempt statements handler finalizer =>
    obtain ⟨first, finalizerHoisted⟩ := List.append_subset.1 hoisted
    obtain ⟨hoisted, handlerHoisted⟩ := List.append_subset.1 first
    exact evalAttempt hoisted handlerHoisted finalizerHoisted
  | switch discriminant cases => exact ended (evalSwitch discriminant hoisted)
  | function name definition => exact readingEnv fun there => ite (ended (hoistLexical _)) (pure _)

/-! ## Calls -/

theorem settle (result : Except Exit Value) : Composed ctx bound fun _ => EvalM.settle result := by
  unfold EvalM.settle
  split
  · exact pure _
  · exact fail _
  · exact fail _
  · exact resume result

/-- A function body or program hoists its variables before it runs. -/
theorem runStatementsIn (statements : List Stmt) :
    Composed ctx bound fun sub => EvalM.runStatementsIn sub statements := by
  refine declaring .var (Stmt.varNamesList statements) (bind (attempt ?_) settle)
  exact bind (discard (evalStatements (List.subset_append_left _ _))) fun _ => pure _

theorem bindParams (params : List Element) (args : List Value) :
    Composed ctx bound fun sub => EvalM.bindParams ctx sub params args := by
  induction params generalizing args with
  | nil => exact pure _
  | cons param rest ih =>
    obtain ⟨target, default⟩ := param
    unfold EvalM.bindParams
    exact bind (withDefault _ default) fun value => bind (bindPattern _ target value) fun _ => ih _

theorem runFunctionBody (body : Body) : Composed ctx bound fun sub => EvalM.runFunctionBody sub body := by
  cases body with
  | expr e => exact expr e
  | block statements => exact runStatementsIn statements

/-- A call that has been entered is composed of the defaults and the body of the function. -/
theorem enteredCall (c : Closure) (args : List Value) :
    Composed ctx bound fun sub => EvalM.enteredCall ctx sub c args := by
  unfold EvalM.enteredCall
  refine bind (bindParams _ args) fun left => ?_
  cases c.definition.rest with
  | none => exact runFunctionBody _
  | some rest =>
    exact bind (newArray _) fun remaining => bind (bindPattern _ rest remaining) fun _ => runFunctionBody _

end Composed

end BindScript
