import BindScript.Parser.Expression

/-!
Statements.
-/

namespace BindScript.Parser

/-- An expression in parentheses. -/
def parenthesized (lower : Level) : Parse Expr := do
  expectPunct .openParen .openParenExpected
  let e ← expression lower
  expectPunct .closeParen .closeParenExpected
  return e

/-- The rest of a declarator after its pattern. Constants and destructuring patterns need an
initializer. -/
def finishDeclarator (lower : Level) (kind : DeclKind) (pattern : Pattern) : Parse Declarator := do
  match ← defaultValue lower with
  | some init => return .mk pattern (some init)
  | none =>
    match pattern with
    | .name id =>
      if kind = .const then fail (.initializerMissing id) else return .mk pattern none
    | _ => fail (.initializerMissing "destructuring pattern")

/-- One declarator. -/
def declarator (lower : Level) (kind : DeclKind) : Parse Declarator := do
  let place ← position
  let pattern ← lower.pattern
  declareAll (some kind) place pattern.boundNames
  finishDeclarator lower kind pattern

/-- One turn through the declarators after a comma; `found` holds those before it in reverse. -/
def declaratorTurn (lower : Level) (kind : DeclKind) (found : List Declarator) :
    Parse (Turn (List Declarator) (List Declarator)) := do
  if ← eatPunct .comma then
    return .again ((← declarator lower kind) :: found)
  else return .done found.reverse

/-- The declarators after the first one. -/
def moreDeclarators (lower : Level) (kind : DeclKind) (first : Declarator) :
    Parse (List Declarator) :=
  repeatFrom [first] (declaratorTurn lower kind)

/-- A declaration, at its keyword. -/
def declaration (lower : Level) (kind : DeclKind) : Parse Stmt := do
  advance
  let first ← declarator lower kind
  let declarators ← moreDeclarators lower kind first
  endStatement
  return .declare kind declarators

/-- A function declaration, at its keyword. -/
def functionDeclaration (lower : Level) : Parse Stmt := do
  advance
  let place ← position
  let name ← expectIdentifier
  declare none place name
  return .function name (← functionRest lower)

/-- `if`, at its keyword. -/
def branch (lower : Level) : Parse Stmt := do
  advance
  let test ← parenthesized lower
  let consequent ← lower.statement
  if ← eatKeyword .else then
    return .branch test consequent (some (← lower.statement))
  else return .branch test consequent none

/-- `while`, at its keyword. -/
def whileLoop (lower : Level) : Parse Stmt := do
  advance
  let test ← parenthesized lower
  return .whileLoop test (← lower.statement)

/-- `do`, at its keyword. -/
def doWhile (lower : Level) : Parse Stmt := do
  advance
  let body ← lower.statement
  unless ← eatKeyword .while do fail .whileExpected
  let test ← parenthesized lower
  let _ ← eatPunct .semicolon
  return .doWhile body test

/-- The rest of a loop over a collection, if the cursor is at `in` or `of`. -/
def forEach? (lower : Level) (kind : Option DeclKind) (pattern : Pattern) : Parse (Option Stmt) := do
  let visits? : Option EachKind := match ← Parser.kind with
    | .keyword .in => some .keys
    | .identifier name => if name = "of" then some .items else none
    | _ => none
  match visits? with
  | none => return none
  | some visits =>
    advance
    let object ← match visits with
      | .keys => expression lower
      | .items => lower.assignment
    expectPunct .closeParen .closeParenExpected
    return some (.forEach visits kind pattern object (← lower.statement))

/-- The expression before the given punctuator, if there is one. -/
def optionalBefore (lower : Level) (p : Punct) : Parse (Option Expr) := do
  if ← checkPunct p then return none else return some (← expression lower)

/-- The rest of a counting loop after its first part. -/
def forRest (lower : Level) (init : ForInit) : Parse Stmt := do
  expectPunct .semicolon (.unexpectedToken "")
  let test ← optionalBefore lower .semicolon
  expectPunct .semicolon (.unexpectedToken "")
  let update ← optionalBefore lower .closeParen
  expectPunct .closeParen .closeParenExpected
  return .forLoop init test update (← lower.statement)

/-- The declaration keyword that a token is, if it is one. -/
def declKind? : TokenKind → Option DeclKind
  | .keyword .let => some .let
  | .keyword .const => some .const
  | .keyword .var => some .var
  | _ => none

/-- A loop head that begins with a declaration, at its keyword. -/
def forDeclaration (lower : Level) (kind : DeclKind) : Parse Stmt := do
  advance
  let place ← position
  let pattern ← lower.pattern
  declareAll (some kind) place pattern.boundNames
  match ← forEach? lower (some kind) pattern with
  | some loop => return loop
  | none =>
    let declarators ← reservingIn do
      let first ← finishDeclarator lower kind pattern
      moreDeclarators lower kind first
    forRest lower (.declare kind declarators)

/-- A loop over a collection whose variable is not declared, if the head is one. Otherwise the cursor
is back where it was. -/
def bareForEach? (lower : Level) : Parse (Option Stmt) := fun c =>
  match lower.pattern c with
  | .error _ c' => .ok none { c' with rest := c.rest }
  | .ok pattern c' =>
    match forEach? lower none pattern c' with
    | .error issue c'' => .error issue c''
    | .ok (some loop) c'' => .ok (some loop) c''
    | .ok none c'' => .ok none { c'' with rest := c.rest }

/-- The head of a loop and its body, after the opening parenthesis. -/
def forHead (lower : Level) : Parse Stmt := do
  match declKind? (← kind) with
  | some kind => forDeclaration lower kind
  | none =>
    if ← checkPunct .semicolon then forRest lower .none
    else
      match ← bareForEach? lower with
      | some loop => return loop
      | none =>
        let init ← reservingIn (expression lower)
        forRest lower (.expr init)

/-- `for`, at its keyword. The head has a block of its own. -/
def forLoop (lower : Level) : Parse Stmt := do
  advance
  expectPunct .openParen .openParenExpected
  inBlock (forHead lower)

/-- The parameter and the body of a `catch`; they share one block. -/
def catchClause (lower : Level) : Parse Handler :=
  inBlock do
    let param ←
      if ← eatPunct .openParen then
        let place ← position
        let name ← expectIdentifier
        declare none place name
        expectPunct .closeParen .closeParenExpected
        pure (some name)
      else pure none
    expectPunct .openBrace .openBraceExpected
    return .mk param (← blockContents lower)

/-- `try`, at its keyword. -/
def attempt (lower : Level) : Parse Stmt := do
  advance
  let statements ← expectBlock lower
  let handler ← if ← eatKeyword .catch then pure (some (← catchClause lower)) else pure none
  let finalizer ← if ← eatKeyword .finally then pure (some (← expectBlock lower)) else pure none
  if handler.isNone && finalizer.isNone then fail .catchExpected
  return .attempt statements handler finalizer

/-- One turn through the statements under a label; `found` holds those before it in reverse. -/
def caseBodyTurn (lower : Level) (found : List Stmt) : Parse (Turn (List Stmt) (List Stmt)) := do
  let k ← kind
  if k.isKeyword .case || k.isKeyword .default || k.isPunct .closeBrace || k.isEof then
    return .done found.reverse
  else return .again ((← lower.statement) :: found)

/-- The label of a case: its test, or nothing for `default`, of which there may be one. -/
def caseLabel (lower : Level) (seenDefault : Bool) : Parse (Option Expr) := do
  if ← eatKeyword .case then
    return some (← expression lower)
  if ← checkKeyword .default then
    if seenDefault then fail .duplicateDefault
    advance
    return none
  if ← atEof then fail .closeBraceExpected else fail .caseExpected

/-- One turn through the cases of a switch; `found` holds those before it in reverse. -/
def caseTurn (lower : Level) (found : List Case) : Parse (Turn (List Case) (List Case)) := do
  if ← eatPunct .closeBrace then
    return .done found.reverse
  let test ← caseLabel lower (found.any (fun c => c.test.isNone))
  expectPunct .colon .colonExpected
  return .again (.mk test (← repeatFrom [] (caseBodyTurn lower)) :: found)

/-- `switch`, at its keyword. All cases share one block. -/
def switch (lower : Level) : Parse Stmt := do
  advance
  let discriminant ← parenthesized lower
  expectPunct .openBrace .openBraceExpected
  return .switch discriminant (← inBlock (repeatFrom [] (caseTurn lower)))

/-- `return`, at its keyword. A line break ends it. -/
def returnStatement (lower : Level) : Parse Stmt := do
  advance
  let value ← if (← get).atStatementEnd then pure none else pure (some (← expression lower))
  endStatement
  return .ret value

/-- `throw`, at its keyword. The value must follow on the same line. -/
def throwStatement (lower : Level) : Parse Stmt := do
  advance
  if (← get).atStatementEnd then fail .expressionExpected
  let value ← expression lower
  endStatement
  return .throw value

/-- A statement. -/
def statement (lower : Level) : Parse Stmt := do
  match ← kind with
  | .punct .semicolon => advance; return .empty
  | .punct .openBrace => advance; return .block (← block lower)
  | .keyword .let => declaration lower .let
  | .keyword .const => declaration lower .const
  | .keyword .var => declaration lower .var
  | .keyword .if => branch lower
  | .keyword .while => whileLoop lower
  | .keyword .do => doWhile lower
  | .keyword .for => forLoop lower
  | .keyword .return => returnStatement lower
  | .keyword .break => advance; endStatement; return .brk
  | .keyword .continue => advance; endStatement; return .cont
  | .keyword .throw => throwStatement lower
  | .keyword .try => attempt lower
  | .keyword .switch => switch lower
  | .keyword .function => functionDeclaration lower
  | _ =>
    let e ← expression lower
    endStatement
    return .expr e

end BindScript.Parser
