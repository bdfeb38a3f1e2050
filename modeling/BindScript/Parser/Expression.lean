import BindScript.Parser.Pattern

/-!
Expressions. Binary operators are read by precedence climbing: the loop over one level takes operators
that bind at least as tightly as required and gives the right operand to the level below.
-/

namespace BindScript.Parser

/-- The binary operator that a token is, if it is one. -/
def binaryOp? (allowIn : Bool) : TokenKind → Option BinaryOp
  | .punct mark => match mark with
    | .nullish => some .nullish
    | .orOr => some .or
    | .andAnd => some .and
    | .pipe => some .bitOr
    | .caret => some .bitXor
    | .amp => some .bitAnd
    | .eqEq => some .eq
    | .notEq => some .notEq
    | .eqEqEq => some .strictEq
    | .notEqEq => some .strictNotEq
    | .lt => some .lt
    | .ltEq => some .ltEq
    | .gt => some .gt
    | .gtEq => some .gtEq
    | .shl => some .shl
    | .shr => some .shr
    | .ushr => some .ushr
    | .plus => some .add
    | .minus => some .sub
    | .star => some .mul
    | .slash => some .div
    | .percent => some .rem
    | .starStar => some .exp
    | _ => none
  | .keyword .in => if allowIn then some .isIn else none
  | _ => none

/-- The assignment operator that a token is, if it is one. -/
def assignOp? : TokenKind → Option AssignOp
  | .punct mark => match mark with
    | .assign => some .assign
    | .plusAssign => some .add
    | .minusAssign => some .sub
    | .starAssign => some .mul
    | .slashAssign => some .div
    | .percentAssign => some .rem
    | .starStarAssign => some .exp
    | .ampAssign => some .bitAnd
    | .pipeAssign => some .bitOr
    | .caretAssign => some .bitXor
    | .shlAssign => some .shl
    | .shrAssign => some .shr
    | .ushrAssign => some .ushr
    | .andAssign => some .and
    | .orAssign => some .or
    | .nullishAssign => some .nullish
    | _ => none
  | _ => none

/-- The unary operator that a token is, if it is one. -/
def unaryOp? : TokenKind → Option UnaryOp
  | .punct .bang => some .not
  | .punct .minus => some .minus
  | .punct .plus => some .plus
  | .punct .tilde => some .bitNot
  | .keyword .typeof => some .typeof
  | .keyword .delete => some .delete
  | .keyword .void => some .void
  | _ => none

/-- The update operator that a token is, if it is one. -/
def updateOp? : TokenKind → Option UpdateOp
  | .punct .plusPlus => some .increment
  | .punct .minusMinus => some .decrement
  | _ => none

/-- One turn through the expressions after a comma; `found` holds those before it in reverse. -/
def sequenceTurn (lower : Level) (found : List Expr) : Parse (Turn (List Expr) Expr) := do
  if ← eatPunct .comma then
    return .again ((← lower.assignment) :: found)
  else return .done (.sequence found.reverse)

/-- One expression, or several separated by commas. -/
def expression (lower : Level) : Parse Expr := do
  let first ← lower.assignment
  if ← checkPunct .comma then
    repeatFrom [first] (sequenceTurn lower)
  else return first

/-- An expression that is the whole input. -/
def completeExpression (lower : Level) : Parse Expr := do
  let e ← expression lower
  unless ← atEof do unexpected
  return e

/-- A name or a reserved word after a dot. -/
def propertyName : Parse String := do
  match ← kind with
  | .identifier name =>
    advance
    return name
  | .keyword word =>
    advance
    return word.spelling
  | _ => fail .identifierExpected

/-- A key in brackets, after the opening one. -/
def bracketed (lower : Level) : Parse Expr := do
  let key ← allowingIn (expression lower)
  expectPunct .closeBracket .closeBracketExpected
  return key

/-- An expression that may be spread. -/
def spreadable (lower : Level) : Parse Expr := do
  if ← eatPunct .ellipsis then
    return .spread (← lower.assignment)
  else lower.assignment

/-- One turn through an argument list; `found` holds the arguments before it in reverse. -/
def argumentTurn (lower : Level) (found : List Expr) : Parse (Turn (List Expr) (List Expr)) := do
  if ← checkPunct .closeParen then
    return .done found.reverse
  let found := (← spreadable lower) :: found
  if ← eatPunct .comma then
    return .again found
  return .done found.reverse

/-- Arguments in parentheses. -/
def arguments (lower : Level) : Parse (List Expr) := do
  expectPunct .openParen .openParenExpected
  allowingIn do
    let found ← repeatFrom [] (argumentTurn lower)
    expectPunct .closeParen .closeParenExpected
    return found

/-- The parts of a template literal. A substitution is read from its own source, in blocks of its own,
at the level of the template. -/
def templateParts (lower : Level) : List TemplateChunk → Parse (List TemplatePart)
  | [] => return []
  | .text value :: chunks => return .text value :: (← templateParts lower chunks)
  | .hole source start :: chunks => do
    match tokenizeAt source start with
    | .error issue => throw issue
    | .ok tokens =>
      match completeExpression lower (.ofTokens tokens) with
      | .error issue _ => throw issue
      | .ok value _ => return .hole value :: (← templateParts lower chunks)

/-- One turn through the elements of an array literal; `found` holds those before it in reverse. -/
def arrayTurn (lower : Level) (found : List Expr) : Parse (Turn (List Expr) Expr) := do
  if ← eatPunct .closeBracket then
    return .done (.array found.reverse)
  if ← eatPunct .comma then
    return .again (.literal .undefined :: found)
  let found := (← spreadable lower) :: found
  if ← eatPunct .comma then
    return .again found
  expectPunct .closeBracket .closeBracketExpected
  return .done (.array found.reverse)

/-- One property of an object literal. -/
def property (lower : Level) : Parse Property := do
  if ← eatPunct .ellipsis then
    return .spread (← lower.assignment)
  if ← eatPunct .openBracket then
    let key ← bracketed lower
    if ← checkPunct .openParen then
      return .computed key (.function (← functionRest lower))
    expectPunct .colon .colonExpected
    return .computed key (← lower.assignment)
  let k ← kind
  match propertyKey? k with
  | none => if k.isEof then fail .unexpectedEnd else fail .identifierExpected
  | some (key, shorthand) =>
    advance
    if ← eatPunct .colon then
      return .named key (← lower.assignment)
    if ← checkPunct .openParen then
      return .named key (.function (← functionRest lower))
    if shorthand then
      return .named key (.name key)
    fail .colonExpected

/-- One turn through the properties of an object literal; `found` holds those before it in reverse. -/
def propertyTurn (lower : Level) (found : List Property) :
    Parse (Turn (List Property) (List Property)) := do
  if ← checkPunct .closeBrace then
    return .done found.reverse
  let found := (← property lower) :: found
  if ← eatPunct .comma then
    return .again found
  return .done found.reverse

/-- An object literal, after its opening brace. -/
def objectLiteral (lower : Level) : Parse Expr :=
  allowingIn do
    let found ← repeatFrom [] (propertyTurn lower)
    expectPunct .closeBrace .closeBraceExpected
    return .object found

/-- What a name stands for: three of them are literals. -/
def nameExpr (name : String) : Expr :=
  if name = "undefined" then .literal .undefined
  else if name = "Infinity" then .literal (.number Number.infinity)
  else if name = "NaN" then .literal (.number Number.nan)
  else .name name

/-- A function expression, after its keyword. Its name, if it has one, is not visible anywhere. -/
def functionExpr (lower : Level) : Parse Expr := do
  match ← kind with
  | .identifier _ => advance
  | _ => pure ()
  return .function (← functionRest lower)

/-- An operand without operators. -/
def primary (lower : Level) : Parse Expr := do
  match ← kind with
  | .number value => advance; return .literal (.number value)
  | .string value => advance; return .literal (.string value)
  | .template chunks => advance; return .template (← templateParts lower chunks)
  | .identifier name => advance; return nameExpr name
  | .keyword .true => advance; return .literal (.bool true)
  | .keyword .false => advance; return .literal (.bool false)
  | .keyword .null => advance; return .literal .null
  | .keyword .function => advance; functionExpr lower
  | .punct .openParen =>
    advance
    let inner ← allowingIn (expression lower)
    expectPunct .closeParen .closeParenExpected
    return inner
  | .punct .openBracket => advance; allowingIn (repeatFrom [] (arrayTurn lower))
  | .punct .openBrace => advance; objectLiteral lower
  | .eof => fail .unexpectedEnd
  | _ => fail .expressionExpected

/-- One turn through the links of a chain; `chain` is the expression before it. -/
def chainTurn (lower : Level) (chain : Expr) : Parse (Turn Expr Expr) := do
  match ← kind with
  | .punct .dot =>
    advance
    return .again (.member chain (← propertyName) false)
  | .punct .questionDot =>
    advance
    if ← checkPunct .openParen then
      return .again (.call chain (← arguments lower) true)
    if ← eatPunct .openBracket then
      return .again (.index chain (← bracketed lower) true)
    return .again (.member chain (← propertyName) true)
  | .punct .openBracket =>
    advance
    return .again (.index chain (← bracketed lower) false)
  | .punct .openParen => return .again (.call chain (← arguments lower) false)
  | _ => return .done chain

/-- Property reads and calls, left to right. -/
def callChain (lower : Level) : Parse Expr := do
  let first ← primary lower
  repeatFrom first (chainTurn lower)

/-- A chain with an update operator after it, if one follows on the same line. -/
def postfixed (lower : Level) : Parse Expr := do
  let place ← position
  let e ← callChain lower
  let t := (← get).current
  if t.newlineBefore then return e
  match updateOp? t.kind with
  | none => return e
  | some op =>
    if e.isSimpleTarget then
      advance
      return .update op .after e
    else failAt .invalidTarget place

/-- An operand with the operators in front of it. -/
def unary (lower : Level) : Parse Expr := do
  let k ← kind
  match unaryOp? k with
  | some op =>
    advance
    return .unary op (← lower.unary)
  | none =>
    match updateOp? k with
    | some op =>
      advance
      let place ← position
      let operand ← lower.unary
      if operand.isSimpleTarget then return .update op .before operand
      else failAt .invalidTarget place
    | none => postfixed lower

/-- One turn through the operators of a level; `left` is the expression before it. -/
def binaryTurn (lower : Level) (loosest : Nat) (left : Expr) : Parse (Turn Expr Expr) := do
  let c ← get
  match binaryOp? (!c.noIn) c.current.kind with
  | some op =>
    if op.precedence < loosest then return .done left
    else
      advance
      return .again (.binary op left (← lower.operand op.rightPrecedence))
  | none => return .done left

/-- Operands joined by operators that bind at least as tightly as `loosest`. -/
def binary (lower : Level) (loosest : Nat) : Parse Expr := do
  let first ← lower.unary
  repeatFrom first (binaryTurn lower loosest)

/-- A conditional, or what may stand as its test. -/
def conditional (lower : Level) : Parse Expr := do
  let test ← binary lower 1
  if ← eatPunct .question then
    let consequent ← allowingIn lower.assignment
    expectPunct .colon .colonExpected
    return .conditional test consequent (← lower.assignment)
  else return test

/-- Whether the bracket that matches the first one is followed by an arrow. `depth` counts the
brackets open so far. -/
def arrowAfterBrackets (depth : Nat) : List Token → Bool
  | [] => false
  | t :: ts => match t.kind with
    | .punct .openParen | .punct .openBracket | .punct .openBrace => arrowAfterBrackets (depth + 1) ts
    | .punct .closeParen | .punct .closeBracket | .punct .closeBrace =>
      if depth - 1 = 0 then
        match ts with
        | next :: _ => next.kind.isPunct .arrow
        | [] => false
      else arrowAfterBrackets (depth - 1) ts
    | .eof => false
    | _ => arrowAfterBrackets depth ts

/-- Whether an arrow function starts here: a name before an arrow, or a list in parentheses before
one. -/
def arrowAhead : List Token → Bool
  | t :: ts => match t.kind with
    | .identifier _ => match ts with
      | next :: _ => next.kind.isPunct .arrow
      | [] => false
    | .punct .openParen => arrowAfterBrackets 0 (t :: ts)
    | _ => false
  | [] => false

/-- An arrow function, an assignment or a conditional. -/
def assignment (lower : Level) : Parse Expr := do
  let c ← get
  if arrowAhead c.rest then return .function (← arrow lower)
  let target ← conditional lower
  match assignOp? (← kind) with
  | none => return target
  | some op =>
    if target.isSimpleTarget then
      advance
      return .assign op target (← lower.assignment)
    else failAt .invalidTarget c.current.start

end BindScript.Parser
