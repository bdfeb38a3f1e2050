import BindScript.Evaluation.Pattern

/-!
Declarations and hoisting. Before a list of statements runs, the names it declares are bound: those of
`var` in the function body, wherever they stand in it, those of `let`, `const` and `function` in the block
they belong to. Hoisted names are `undefined` until their declaration runs; functions are there from the
start, and they see every name of their block.
-/

namespace BindScript

mutual

/-- The names that `var` declares in a statement, outside of the functions in it. -/
def Stmt.varNames : Stmt → List String
  | .declare kind declarators => Declarator.varNames kind declarators
  | .block statements => Stmt.varNamesList statements
  | .branch _ consequent alternate => consequent.varNames ++ Stmt.varNamesOption alternate
  | .whileLoop _ body => body.varNames
  | .doWhile body _ => body.varNames
  | .forLoop init _ _ body => ForInit.varNames init ++ body.varNames
  | .forEach _ kind pattern _ body =>
    (if kind == some .var then pattern.boundNames else []) ++ body.varNames
  | .attempt statements handler finalizer =>
    Stmt.varNamesList statements ++ Handler.varNames handler ++ Stmt.varNamesFinalizer finalizer
  | .switch _ cases => Case.varNames cases
  | .empty => []
  | .expr _ => []
  | .ret _ => []
  | .brk => []
  | .cont => []
  | .throw _ => []
  | .function _ _ => []

/-- The names that `var` declares in statements. -/
def Stmt.varNamesList : List Stmt → List String
  | [] => []
  | s :: rest => s.varNames ++ Stmt.varNamesList rest

/-- The names that `var` declares in an optional statement. -/
def Stmt.varNamesOption : Option Stmt → List String
  | none => []
  | some s => s.varNames

/-- The names that a declaration declares, if it is one of `var`. -/
def Declarator.varNames (kind : DeclKind) (declarators : List Declarator) : List String :=
  if kind == .var then declarators.flatMap (fun d => d.pattern.boundNames) else []

/-- The names that `var` declares in the first part of a loop head. -/
def ForInit.varNames : ForInit → List String
  | .declare kind declarators => Declarator.varNames kind declarators
  | .none => []
  | .expr _ => []

/-- The names that `var` declares in a handler. -/
def Handler.varNames : Option Handler → List String
  | none => []
  | some (.mk _ body) => Stmt.varNamesList body

/-- The names that `var` declares in a finalizer. -/
def Stmt.varNamesFinalizer : Option (List Stmt) → List String
  | none => []
  | some statements => Stmt.varNamesList statements

/-- The names that `var` declares in the cases of a switch. -/
def Case.varNames : List Case → List String
  | [] => []
  | .mk _ body :: rest => Stmt.varNamesList body ++ Case.varNames rest

end

/-- The names that a declaration binds, in source order. -/
def Declarator.boundNames (declarators : List Declarator) : List String :=
  declarators.flatMap fun d => d.pattern.boundNames

namespace EvalM

/-- Binds a name to `undefined` unless the innermost scope has it. -/
def declareName (kind : BindingKind) (name : String) : EvalM Unit := do
  if ← readEnv (·.containsInScope name) then return
  discard (define name .undefined kind)

/-- Binds the names that `var` declares in statements. -/
def hoistVars (statements : List Stmt) : EvalM Unit :=
  (Stmt.varNamesList statements).forM (declareName .var)

/-- A closure over the visible bindings. -/
def makeClosure (name? : Option String) (definition : Function) : EvalM Value := do
  let captured ← readEnv (·.bindings)
  allocate (·.newClosure { name?, definition, captured })

/-- Binds the names that statements declare in their own block. Gives the functions among them, with the
cells they belong in. -/
def hoistNames : List Stmt → EvalM (List (String × Function × Nat))
  | [] => return []
  | .declare kind declarators :: rest => do
    if kind != .var then
      (Declarator.boundNames declarators).forM (declareName (.ofDecl kind))
    hoistNames rest
  | .function name definition :: rest => do
    let cell ← define name .undefined .function
    return (name, definition, cell) :: (← hoistNames rest)
  | _ :: rest => hoistNames rest

/-- Binds what statements declare in their own block, and creates the functions among it. -/
def hoistLexical (statements : List Stmt) : EvalM Unit := do
  let functions ← hoistNames statements
  functions.forM fun (name, definition, cell) => do
    let closure ← makeClosure (some name) definition
    modifyHeap (·.setCell cell closure)

/-- Evaluates an expression whose value gets a name: functions take it as theirs. -/
def evalNamed (sub : Interpreter) (name : String) : Expr → EvalM Value
  | .function definition => makeClosure (some name) definition
  | e => sub.expr e

/-- The value of an initializer. -/
def evalInit (sub : Interpreter) (pattern : Pattern) (init : Expr) : EvalM Value :=
  match pattern with
  | .name name => evalNamed sub name init
  | _ => sub.expr init

/-- Runs a declarator. One of `var` without an initializer does nothing. -/
def evalDeclarator (ctx : Context) (sub : Interpreter) (kind : DeclKind) : Declarator → EvalM Unit
  | .mk pattern none =>
    if kind == .var then pure ()
    else bindPattern ctx sub (.declare (.ofDecl kind)) pattern .undefined
  | .mk pattern (some init) => do
    let value ← evalInit sub pattern init
    bindPattern ctx sub (if kind == .var then .assign else .declare (.ofDecl kind)) pattern value

/-- Runs a declaration. -/
def evalDeclaration (ctx : Context) (sub : Interpreter) (kind : DeclKind)
    (declarators : List Declarator) : EvalM Unit :=
  declarators.forM (evalDeclarator ctx sub kind)

end EvalM

end BindScript
