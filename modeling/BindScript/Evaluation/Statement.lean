import BindScript.Evaluation.Declaration

/-!
Running statements, one level at a time. Loops check for an interrupt before every turn; they consume
`break` and `continue`, and everything else passes through them.
-/

namespace BindScript.EvalM

/-- Runs statements in the current scope, after hoisting what they declare. Gives the last value. -/
def evalStatements (sub : Interpreter) (statements : List Stmt) : EvalM Value := do
  hoistLexical statements
  statements.foldlM (fun _ s => sub.stmt s) .undefined

/-- Runs the body of a loop once. Tells whether the loop goes on. -/
def runBody (sub : Interpreter) (body : Stmt) : EvalM Bool := do
  match ← attempt (sub.stmt body) with
  | .ok _ | .error (.jump .cont) => return true
  | .error (.jump .brk) => return false
  | .error e => throw e

/-- Whether a condition holds; a missing one does. -/
def testHolds (sub : Interpreter) : Option Expr → EvalM Bool
  | none => return true
  | some test => return (← sub.expr test).isTruthy

/-- Copies a loop variable into the innermost scope. -/
def copyName (name : String) : EvalM Unit := do
  let binding ← readEnv (·.find? name)
  let value ← readHeap fun h => (binding.map fun b => h.cellAt b.cell).getD .undefined
  discard (define name value ((binding.map (·.kind)).getD .let))

/-- The present value of a loop variable. -/
def valueOf (name : String) : EvalM Value := do
  let binding ← readEnv (·.find? name)
  readHeap fun h => (binding.map fun b => h.cellAt b.cell).getD .undefined

/-- Runs the body of a counting loop once on copies of the loop variables, so that closures keep the
variables of their turn, and writes the copies back. -/
def runTurn (sub : Interpreter) (names : List String) (body : Stmt) : EvalM Bool := do
  let (result, values) ← inScope do
    names.forM copyName
    let result ← attempt (runBody sub body)
    return (result, ← names.mapM valueOf)
  (names.zip values).forM fun (name, value) => startName name value
  resume result

/-- Starts a counting loop. Gives the variables that every turn has copies of. -/
def evalForInit (ctx : Context) (sub : Interpreter) : ForInit → EvalM (List String)
  | .none => return []
  | .declare kind declarators => do
    evalDeclaration ctx sub kind declarators
    return if kind == .var then [] else Declarator.boundNames declarators
  | .expr e => do
    discard (sub.expr e)
    return []

/-- Runs a counting loop. -/
def evalFor (ctx : Context) (sub : Interpreter) (init : ForInit) (test update : Option Expr)
    (body : Stmt) : EvalM Unit :=
  inScope do
    let names ← evalForInit ctx sub init
    let turn : EvalM Bool := if names.isEmpty then runBody sub body else runTurn sub names body
    repeatWhile (do
      if !(← testHolds sub test) then return false
      if !(← turn) then return false
      update.forM fun e => discard (sub.expr e)
      return true) sub.turns

/-- Runs the body of a loop over a collection once. -/
def visitItem (ctx : Context) (sub : Interpreter) (kind : Option DeclKind) (pattern : Pattern)
    (body : Stmt) (item : Value) : EvalM Bool :=
  inScope do
    let mode := match kind with
      | some .let => BindMode.declare .let
      | some .const => BindMode.declare .const
      | some .var | none => BindMode.assign
    bindPattern ctx sub mode pattern item
    runBody sub body

/-- Visits items one after another until a visit ends the loop. -/
def visitAll (visit : Value → EvalM Bool) : List Value → EvalM Unit
  | [] => return
  | item :: rest => do
    checkInterrupt
    if ← visit item then visitAll visit rest

/-- Visits the items of an array by index, so that items added on the way are visited too. -/
def visitArray (address : Nat) (visit : Value → EvalM Bool) : Nat → Nat → EvalM Unit
  | 0, _ => throw .exhausted
  | turns + 1, i => do
    checkInterrupt
    match ← readHeap fun h => (h.items address)[i]? with
    | none => return
    | some item => if ← visit item then visitArray address visit turns (i + 1)

/-- Runs a loop over a collection: over the keys of any value, or over items. -/
def evalForEach (sub : Interpreter) (visits : EachKind) (visit : Value → EvalM Bool)
    (collection : Value) : EvalM Unit := do
  match visits, collection with
  | .keys, v => visitAll visit ((← readHeap (·.keys v)).map Value.string)
  | .items, .array a => visitArray a visit sub.turns 0
  | .items, v => visitAll visit (← iterate v).toList

/-- The cases from the one that a switch enters: the first whose test equals the value, else the default
wherever it stands. -/
def selectCases (sub : Interpreter) (value : Value) (all : List Case) : List Case → EvalM (List Case)
  | [] => return all.dropWhile fun c => c.test.isSome
  | c :: rest => do
    match c.test with
    | none => selectCases sub value all rest
    | some test =>
      if (← sub.expr test).strictEquals value then return c :: rest
      else selectCases sub value all rest

/-- Runs a switch. All cases share a scope, and each falls through to the next. -/
def evalSwitch (sub : Interpreter) (discriminant : Expr) (cases : List Case) : EvalM Unit := do
  let value ← sub.expr discriminant
  inScope do
    hoistLexical (cases.flatMap Case.body)
    let selected ← selectCases sub value cases cases
    match ← attempt ((selected.flatMap Case.body).forM fun s => discard (sub.stmt s)) with
    | .error (.jump .brk) => return
    | result => resume result

/-- What a handler receives: a thrown value as it is, other failures as an object. -/
def caughtValue : EvalError → EvalM Value
  | .thrown value => return value
  | e => do
    let message ← readHeap e.detail
    allocate (·.newObject [("name", .string e.className), ("message", .string message)])

/-- Handles the end of a `try` block where it may be handled. -/
def handle (sub : Interpreter) (handler : Option Handler) (result : Except Exit Value) :
    EvalM (Except Exit Value) := do
  match result, handler with
  | .error (.error e), some (.mk param body) =>
    if e.isCatchable then
      let caught ← caughtValue e
      attempt <| inScope do
        param.forM fun name => discard (define name caught .param)
        evalStatements sub body
    else return result
  | _, _ => return result

/-- Runs `try`. The finalizer always runs, and its own failure or jump replaces the outcome; only where the
program has broken down, or cannot go on, it does not. -/
def evalAttempt (sub : Interpreter) (statements : List Stmt) (handler : Option Handler)
    (finalizer : Option (List Stmt)) : EvalM Value := do
  let result ← handle sub handler (← attempt (inScope (evalStatements sub statements)))
  match result, finalizer with
  | .error .exhausted, _ | .error .clash, _ | _, none => resume result
  | _, some statements =>
    discard (inScope (evalStatements sub statements))
    resume result

/-- Runs a statement. Only expression statements and blocks have a value. -/
def stmtStep (ctx : Context) (sub : Interpreter) (s : Stmt) : EvalM Value := do
  checkInterrupt
  match s with
  | .empty => return .undefined
  | .expr e => sub.expr e
  | .block statements => inScope (evalStatements sub statements)
  | .declare kind declarators =>
    evalDeclaration ctx sub kind declarators
    return .undefined
  | .branch test consequent alternate =>
    if (← sub.expr test).isTruthy then sub.stmt consequent
    else match alternate with
      | some s => sub.stmt s
      | none => return .undefined
  | .whileLoop test body =>
    repeatWhile (do
      if !(← sub.expr test).isTruthy then return false
      runBody sub body) sub.turns
    return .undefined
  | .doWhile body test =>
    repeatWhile (do
      if !(← runBody sub body) then return false
      return (← sub.expr test).isTruthy) sub.turns
    return .undefined
  | .forLoop init test update body =>
    evalFor ctx sub init test update body
    return .undefined
  | .forEach visits kind pattern object body =>
    evalForEach sub visits (visitItem ctx sub kind pattern body) (← sub.expr object)
    return .undefined
  | .ret none => jump (.ret .undefined)
  | .ret (some e) => jump (.ret (← sub.expr e))
  | .brk => jump .brk
  | .cont => jump .cont
  | .throw e => fail (.thrown (← sub.expr e))
  | .attempt statements handler finalizer => evalAttempt sub statements handler finalizer
  | .switch discriminant cases =>
    evalSwitch sub discriminant cases
    return .undefined
  -- In a list of statements it has been hoisted. Only one that stands bare is bound when it is run.
  | .function name definition =>
    if !(← readEnv (·.containsInScope name)) then hoistLexical [.function name definition]
    return .undefined

end BindScript.EvalM
