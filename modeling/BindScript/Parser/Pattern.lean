import BindScript.Parser.Cursor

/-!
Binding patterns, parameter lists and the bodies of functions.
-/

namespace BindScript.Parser

/-- `= default`, if it follows. -/
def defaultValue (lower : Level) : Parse (Option Expr) := do
  if ← eatPunct .assign then
    return some (← lower.assignment)
  else return none

/-- The key of a property: a name, a reserved word, a string or a number. The flag tells whether the
key may stand alone as a shorthand. -/
def propertyKey? : TokenKind → Option (String × Bool)
  | .identifier name => some (name, true)
  | .keyword word => some (word.spelling, false)
  | .string value => some (value, false)
  | .number value => some (Number.format value, false)
  | _ => none

/-- One turn through the elements of an array pattern; `found` holds those before it in reverse. -/
def arrayPatternTurn (lower : Level) (found : List (Option Element)) :
    Parse (Turn (List (Option Element)) Pattern) := do
  if ← eatPunct .closeBracket then
    return .done (.array found.reverse none)
  if ← eatPunct .comma then
    return .again (none :: found)
  if ← eatPunct .ellipsis then
    let rest ← lower.pattern
    if ← eatPunct .closeBracket then
      return .done (.array found.reverse (some rest))
    if ← checkPunct .comma then fail .restNotLast else fail .closeBracketExpected
  let target ← lower.pattern
  let default ← defaultValue lower
  let found := some (.mk target default) :: found
  if ← eatPunct .comma then
    return .again found
  expectPunct .closeBracket .closeBracketExpected
  return .done (.array found.reverse none)

/-- One field of an object pattern. -/
def patternField (lower : Level) : Parse Field := do
  match propertyKey? (← kind) with
  | none => fail .invalidPattern
  | some (key, shorthand) =>
    advance
    let target ←
      if ← eatPunct .colon then lower.pattern
      else if shorthand then pure (.name key)
      else fail .invalidPattern
    return .mk key target (← defaultValue lower)

/-- One turn through the fields of an object pattern; `found` holds those before it in reverse. -/
def objectPatternTurn (lower : Level) (found : List Field) :
    Parse (Turn (List Field) Pattern) := do
  if ← eatPunct .closeBrace then
    return .done (.object found.reverse none)
  if ← eatPunct .ellipsis then
    let rest ← expectIdentifier
    if ← eatPunct .closeBrace then
      return .done (.object found.reverse (some rest))
    if ← checkPunct .comma then fail .restNotLast else fail .closeBraceExpected
  let field ← patternField lower
  let found := field :: found
  if ← eatPunct .comma then
    return .again found
  expectPunct .closeBrace .closeBraceExpected
  return .done (.object found.reverse none)

/-- A name, an array pattern or an object pattern. Nothing is declared. -/
def bindingPattern (lower : Level) : Parse Pattern := do
  match ← kind with
  | .identifier name =>
    advance
    return .name name
  | .punct .openBracket =>
    advance
    repeatFrom [] (arrayPatternTurn lower)
  | .punct .openBrace =>
    advance
    repeatFrom [] (objectPatternTurn lower)
  | .eof => fail .unexpectedEnd
  | _ => fail .identifierExpected

/-- One turn through a parameter list; `found` holds the parameters before it in reverse. -/
def paramsTurn (lower : Level) (found : List Element) :
    Parse (Turn (List Element) (List Element × Option Pattern)) := do
  if ← checkPunct .closeParen then
    return .done (found.reverse, none)
  let place ← position
  if ← eatPunct .ellipsis then
    let rest ← lower.pattern
    declareAll none place rest.boundNames
    if ← checkPunct .comma then fail .restNotLast
    return .done (found.reverse, some rest)
  let target ← lower.pattern
  declareAll none place target.boundNames
  let default ← defaultValue lower
  let found := .mk target default :: found
  if ← eatPunct .comma then
    return .again found
  return .done (found.reverse, none)

/-- A parameter list in parentheses. Its names are declared in the innermost block. -/
def params (lower : Level) : Parse (List Element × Option Pattern) := do
  expectPunct .openParen .openParenExpected
  let found ← repeatFrom [] (paramsTurn lower)
  expectPunct .closeParen .closeParenExpected
  return found

/-- One turn through the statements of a block; `found` holds those before it in reverse. -/
def blockTurn (lower : Level) (found : List Stmt) : Parse (Turn (List Stmt) (List Stmt)) := do
  if ← checkPunct .closeBrace then
    advance
    return .done found.reverse
  if ← atEof then fail .closeBraceExpected
  return .again ((← lower.statement) :: found)

/-- Statements up to and including the closing brace, in the innermost block. -/
def blockContents (lower : Level) : Parse (List Stmt) :=
  repeatFrom [] (blockTurn lower)

/-- Statements of a block of their own, after the opening brace. -/
def block (lower : Level) : Parse (List Stmt) :=
  inBlock (blockContents lower)

/-- A block with its opening brace. -/
def expectBlock (lower : Level) : Parse (List Stmt) := do
  expectPunct .openBrace .openBraceExpected
  block lower

/-- Parameters and body of a `function` or a method. -/
def functionRest (lower : Level) : Parse Function :=
  inBlock do
    let (positional, rest) ← params lower
    expectPunct .openBrace .openBraceExpected
    return .mk positional rest (.block (← blockContents lower))

/-- An arrow function. -/
def arrow (lower : Level) : Parse Function :=
  inBlock do
    let (positional, rest) ←
      match ← kind with
      | .identifier name => do
        let place ← position
        advance
        declare none place name
        pure ([.mk (.name name) none], none)
      | _ => params lower
    expectPunct .arrow .arrowExpected
    if ← eatPunct .openBrace then
      return .mk positional rest (.block (← blockContents lower))
    else
      return .mk positional rest (.expr (← allowingIn lower.assignment))

end BindScript.Parser
