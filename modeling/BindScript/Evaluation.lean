import BindScript.Evaluation.Call
import BindScript.Evaluation.Expression

/-!
Evaluating expressions, running programs and calling functions.

The step functions evaluate one level of a tree and leave the parts to an interpreter. `interpreter` is
that interpreter for a number of levels: with none it ends as exhausted, with one more it takes a step and
leaves the parts to the one below. A run that ends otherwise does not depend on the number of levels
granted; the entry points grant more than any run can take.
-/

namespace BindScript

/-- Evaluates over a number of levels. -/
def interpreter (ctx : Context) : Nat → Interpreter
  | 0 =>
    { turns := 0
      expr := fun _ => throw .exhausted
      chain := fun _ => throw .exhausted
      stmt := fun _ => throw .exhausted
      call := fun _ _ => throw .exhausted }
  | levels + 1 =>
    let below := Thunk.mk fun _ => interpreter ctx levels
    { turns := levels
      expr := fun e s => EvalM.exprStep ctx below.get e s
      chain := fun e s => EvalM.chainStep ctx below.get e s
      stmt := fun statement s => EvalM.stmtStep ctx below.get statement s
      call := fun callee args s => EvalM.callStep ctx below.get callee args s }

/-- How many levels the entry points grant. -/
def grantedLevels : Nat := Nat.pow 10 18

namespace Context

/-- The interpreter that the entry points use. -/
def interpreter (ctx : Context) : Interpreter :=
  BindScript.interpreter ctx grantedLevels

/-- Evaluates an expression in the scopes of the state. -/
def evalExpr (ctx : Context) (e : Expr) : EvalM Value :=
  ctx.interpreter.expr e

/-- Runs a statement in the scopes of the state. -/
def evalStmt (ctx : Context) (s : Stmt) : EvalM Value :=
  ctx.interpreter.stmt s

/-- Runs a step in an environment without bindings. -/
def inFreshEnvironment (ctx : Context) (step : EvalM Value) : EvalM Value :=
  EvalM.inEnvironment (.empty ctx.options.maxCallDepth) step

/-- Evaluates an expression on its own. -/
def evaluate (ctx : Context) (e : Expr) : EvalM Value :=
  ctx.inFreshEnvironment do EvalM.settle (← EvalM.attempt (ctx.evalExpr e))

/-- Runs a program on its own. Its value is that of a `return` outside of functions. -/
def runStatements (ctx : Context) (statements : List Stmt) : EvalM Value :=
  ctx.inFreshEnvironment (EvalM.runStatementsIn ctx.interpreter statements)

/-- Calls a function that an earlier evaluation gave. -/
def invoke (ctx : Context) (callee : Value) (args : List Value) : EvalM Value :=
  ctx.inFreshEnvironment do EvalM.settle (← EvalM.attempt (ctx.interpreter.call callee args))

end Context

end BindScript
