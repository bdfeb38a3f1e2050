import BindScript.Ast.Tree
import BindScript.Token.Lexer

/-!
The state of a parse: the tokens ahead, the names declared in each open block, and whether `in` is
reserved for the head of a loop. A failed step keeps the state it reached, so that a caller who tries
something else can see what changed.
-/

namespace BindScript.Parser

/-- The tokens ahead, the open blocks with their declared names (innermost first), and whether `in`
may not be read as an operator. -/
structure Cursor where
  rest : List Token
  blocks : List (List String)
  noIn : Bool

namespace Cursor

/-- A cursor at the first token, in one open block. -/
def ofTokens (tokens : List Token) : Cursor :=
  ⟨tokens, [[]], false⟩

/-- The token at the cursor. Behind all tokens is the end of the input. -/
def current (c : Cursor) : Token :=
  match c.rest with
  | t :: _ => t
  | [] => ⟨.eof, Position.start, false⟩

/-- Moves on by one token, if there is one. -/
def advance (c : Cursor) : Cursor :=
  match c.rest with
  | _ :: ts => { c with rest := ts }
  | [] => c

/-- Whether a statement may end here without a semicolon. -/
def atStatementEnd (c : Cursor) : Bool :=
  let t := c.current
  t.kind.isEof || t.kind.isPunct .semicolon || t.kind.isPunct .closeBrace || t.newlineBefore

end Cursor

/-- A step of a parse. -/
abbrev Parse := EStateM ParseIssue Cursor

/-- Fails at a place. -/
def failAt {α : Type} (cause : ParseCause) (place : Position) : Parse α :=
  throw (ParseIssue.ofCause cause place)

/-- The kind of the token at the cursor. -/
def kind : Parse TokenKind :=
  return (← get).current.kind

/-- The place of the token at the cursor. -/
def position : Parse Position :=
  return (← get).current.start

/-- Fails at the cursor. -/
def fail {α : Type} (cause : ParseCause) : Parse α := do
  failAt cause (← position)

/-- Moves on by one token. -/
def advance : Parse Unit :=
  modify Cursor.advance

/-- Whether the cursor is at the end of the input. -/
def atEof : Parse Bool :=
  return (← kind).isEof

/-- Whether the cursor is at the punctuator. -/
def checkPunct (p : Punct) : Parse Bool :=
  return (← kind).isPunct p

/-- Whether the cursor is at the reserved word. -/
def checkKeyword (w : Keyword) : Parse Bool :=
  return (← kind).isKeyword w

/-- Moves past the punctuator if the cursor is at it. -/
def eatPunct (p : Punct) : Parse Bool := do
  if ← checkPunct p then
    advance
    return true
  else return false

/-- Moves past the reserved word if the cursor is at it. -/
def eatKeyword (w : Keyword) : Parse Bool := do
  if ← checkKeyword w then
    advance
    return true
  else return false

/-- Moves past the punctuator; it must be there. -/
def expectPunct (p : Punct) (cause : ParseCause) : Parse Unit := do
  unless ← eatPunct p do fail cause

/-- Moves past a name; one must be there. -/
def expectIdentifier : Parse String := do
  match ← kind with
  | .identifier name =>
    advance
    return name
  | _ => fail .identifierExpected

/-- Fails because the token at the cursor cannot continue what was read. -/
def unexpected {α : Type} : Parse α := do
  let k ← kind
  if k.isEof then fail .unexpectedEnd else fail (.unexpectedToken k.describe)

/-- Ends a statement: a semicolon, or a place where none is needed. -/
def endStatement : Parse Unit := do
  unless ← eatPunct .semicolon do
    unless (← get).atStatementEnd do unexpected

/-- Runs `p` with `in` allowed as an operator. -/
def allowingIn {α : Type} (p : Parse α) : Parse α := fun c =>
  match p { c with noIn := false } with
  | .ok a c' => .ok a { c' with noIn := c.noIn }
  | .error e c' => .error e { c' with noIn := c.noIn }

/-- Runs `p` with `in` reserved for the loop head; afterwards it is allowed. -/
def reservingIn {α : Type} (p : Parse α) : Parse α := fun c =>
  match p { c with noIn := true } with
  | .ok a c' => .ok a { c' with noIn := false }
  | .error e c' => .error e { c' with noIn := false }

/-- Runs `p` in a block of its own. -/
def inBlock {α : Type} (p : Parse α) : Parse α := fun c =>
  match p { c with blocks := [] :: c.blocks } with
  | .ok a c' => .ok a { c' with blocks := c'.blocks.tail }
  | .error e c' => .error e { c' with blocks := c'.blocks.tail }

/-- Declares a name in the innermost block. Names that begin with a dollar sign are reserved; a name
may be declared once per block, `var` excepted. -/
def declare (kind : Option DeclKind) (place : Position) (name : String) : Parse Unit := do
  if name.toList.head? = some '$' then failAt (.reservedName name) place
  else if kind = some .var then return
  else
    let c ← get
    match c.blocks with
    | [] => return
    | block :: outer =>
      if block.contains name then failAt (.redeclared name) place
      else set { c with blocks := (name :: block) :: outer }

/-- Declares names in order. -/
def declareAll (kind : Option DeclKind) (place : Position) : List String → Parse Unit
  | [] => return
  | name :: names => do
    declare kind place name
    declareAll kind place names

/-- What one turn of a loop leads to: another turn, or the end. -/
inductive Turn (α β : Type)
  | again (state : α)
  | done (result : β)

/-- Takes turns until one ends the loop, at most `n` of them. -/
def iterate {α β : Type} (turn : α → Parse (Turn α β)) : Nat → α → Parse β
  | 0, _ => fail .unexpectedEnd
  | n + 1, a => do
    match ← turn a with
    | .again a' => iterate turn n a'
    | .done b => return b

/-- Takes turns until one ends the loop. A turn that is followed by another moves the cursor, so there
are at most as many turns as tokens ahead. -/
def repeatFrom {α β : Type} (a : α) (turn : α → Parse (Turn α β)) : Parse β := do
  iterate turn ((← get).rest.length + 1) a

/-- The parsers of the constructs that may contain themselves, each one level deeper than the
construct that uses them. -/
structure Level where
  assignment : Parse Expr
  unary : Parse Expr
  /-- The right operand of a binary operator, with the loosest precedence it may have. -/
  operand : Nat → Parse Expr
  statement : Parse Stmt
  pattern : Parse Pattern

/-- Below the deepest level nothing is accepted. -/
def Level.exhausted : Level where
  assignment := fail .nestingTooDeep
  unary := fail .nestingTooDeep
  operand := fun _ => fail .nestingTooDeep
  statement := fail .nestingTooDeep
  pattern := fail .nestingTooDeep

end BindScript.Parser
