import BindScript.Evaluation.Native
import BindScript.Evaluation.Statement

/-!
Calling functions. A call runs in an environment of its own: what the function has captured, and one
scope for parameters and body. Jumps end at the border of the function: `return` gives the value of the
call, and `break` and `continue` outside of a loop are failures.
-/

namespace BindScript.EvalM

/-- What becomes of the end of a step at the border of a function or program. -/
def settle : Except Exit Value → EvalM Value
  | .error (.jump (.ret value)) => return value
  | .error (.jump .brk) => fail .breakOutsideLoop
  | .error (.jump .cont) => fail .continueOutsideLoop
  | result => resume result

/-- Runs the statements of a function body or program: its value is that of a `return`. -/
def runStatementsIn (sub : Interpreter) (statements : List Stmt) : EvalM Value := do
  hoistVars statements
  settle (← attempt do
    discard (evalStatements sub statements)
    return .undefined)

/-- Binds parameters to arguments, and gives the arguments that are left. -/
def bindParams (ctx : Context) (sub : Interpreter) : List Element → List Value → EvalM (List Value)
  | [], args => return args
  | .mk target default :: rest, args => do
    let value ← withDefault sub (Value.argument args 0) default
    bindPattern ctx sub (.declare .param) target value
    bindParams ctx sub rest (args.drop 1)

/-- Runs the body of a function. -/
def runFunctionBody (sub : Interpreter) : Body → EvalM Value
  | .expr e => sub.expr e
  | .block statements => runStatementsIn sub statements

/-- Calls a closure, unless the limit of nested calls is reached. -/
def callClosure (ctx : Context) (sub : Interpreter) (c : Closure) (args : List Value) :
    EvalM Value := do
  match ← readEnv Environment.enterCall with
  | .error fault => fail (.ofEnvironment fault)
  | .ok depth =>
    let limit ← readEnv (·.maxCallDepth)
    inEnvironment (.forCall c.captured depth limit) do
      let left ← bindParams ctx sub c.definition.params args
      match c.definition.rest with
      | none => pure ()
      | some rest =>
        let remaining ← allocate (·.newArray left.toArray)
        bindPattern ctx sub (.declare .param) rest remaining
      runFunctionBody sub c.definition.body

/-- Calls a value. -/
def callStep (ctx : Context) (sub : Interpreter) (callee : Value) (args : List Value) :
    EvalM Value := do
  match callee with
  | .native f _ => f.invoke args
  | .closure address => callClosure ctx sub (← readHeap (·.closureAt address)) args
  | v => fail (.notCallable (← readHeap (·.debugText v)))

end BindScript.EvalM
