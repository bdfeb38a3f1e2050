import BindScript.Parser.Statement

/-!
Reading a whole source as an expression or as a list of statements. Constructs may nest at most
`maxNesting` deep. The links of a chain of binary operators or of accesses and calls do not count.
-/

namespace BindScript

namespace Parser

/-- The deepest nesting of expressions, statements and patterns that is accepted. -/
def maxNesting : Nat := 160

/-- The level from which `n` more levels may be entered. -/
def level : Nat → Level
  | 0 => Level.exhausted
  | n + 1 =>
    let lower := level n
    { assignment := assignment lower
      unary := unary lower
      operand := binary lower
      statement := statement lower
      pattern := bindingPattern lower }

/-- One turn through the statements of a program; `found` holds those before it in reverse. -/
def programTurn (lower : Level) (found : List Stmt) : Parse (Turn (List Stmt) (List Stmt)) := do
  if ← atEof then return .done found.reverse
  else return .again ((← lower.statement) :: found)

/-- Statements up to the end of the input. -/
def program (lower : Level) : Parse (List Stmt) :=
  repeatFrom [] (programTurn lower)

/-- Runs a parser on a whole source. -/
def runOn {α : Type} (p : Parse α) (source : String) : Except ParseIssue α :=
  match tokenize source with
  | .error issue => .error issue
  | .ok tokens =>
    match p (.ofTokens tokens) with
    | .ok a _ => .ok a
    | .error issue _ => .error issue

end Parser

/-- Reads a source as exactly one expression. -/
def parseExpr (source : String) : Except ParseIssue Expr :=
  Parser.runOn (Parser.completeExpression (Parser.level Parser.maxNesting)) source

/-- Reads a source as a list of statements. -/
def parseStatements (source : String) : Except ParseIssue (List Stmt) :=
  Parser.runOn (Parser.program (Parser.level Parser.maxNesting)) source

end BindScript
