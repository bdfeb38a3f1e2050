/-!
Everything that can be wrong with source text. Each cause has a stable code, which callers match on,
and a wording.
-/

/-!
## Places in source text

Places in source text: an offset in characters, and the line and column that an editor would show.
Only a line feed begins a new line.
-/

namespace BindScript

/-- A place in source text. Lines and columns count from one. -/
structure Position where
  offset : Nat
  line : Nat
  column : Nat
  deriving DecidableEq, Repr, Inhabited

namespace Position

/-- The beginning of a source. -/
def start : Position :=
  ⟨0, 1, 1⟩

/-- The place after the character `c`. -/
def next (p : Position) (c : Char) : Position :=
  if c = '\n' then ⟨p.offset + 1, p.line + 1, 1⟩ else ⟨p.offset + 1, p.line, p.column + 1⟩

/-- The place after the characters `cs`. -/
def advance (p : Position) (cs : List Char) : Position :=
  cs.foldl next p

@[simp] theorem advance_nil (p : Position) : p.advance [] = p := rfl

@[simp] theorem advance_cons (p : Position) (c : Char) (cs : List Char) :
    p.advance (c :: cs) = (p.next c).advance cs := rfl

theorem advance_append (p : Position) (cs ds : List Char) :
    p.advance (cs ++ ds) = (p.advance cs).advance ds := by
  simp [advance]

end Position

/-! ## What can be wrong -/

/-- Why source text was refused. -/
inductive ParseCause
  | expressionExpected
  | unexpectedToken (text : String)
  | identifierExpected
  | openBraceExpected
  | closeBraceExpected
  | closeParenExpected
  | openParenExpected
  | closeBracketExpected
  | colonExpected
  | arrowExpected
  | initializerMissing (what : String)
  | catchExpected
  | caseExpected
  | duplicateDefault
  | whileExpected
  | invalidTarget
  | invalidPattern
  | redeclared (name : String)
  | reservedName (name : String)
  | unterminatedString
  | invalidNumber (text : String)
  | unterminatedTemplate
  | invalidEscape
  | unexpectedCharacter (char : Char)
  | restNotLast
  | unterminatedComment
  | unexpectedEnd
  | nestingTooDeep
  deriving DecidableEq, Repr

namespace ParseCause

/-- The stable code of the cause. -/
def code : ParseCause → String
  | expressionExpected => "W001"
  | unexpectedToken _ => "W002"
  | identifierExpected => "W003"
  | openBraceExpected => "W004"
  | closeBraceExpected => "W005"
  | closeParenExpected => "W006"
  | openParenExpected => "W007"
  | closeBracketExpected => "W008"
  | colonExpected => "W009"
  | arrowExpected => "W010"
  | initializerMissing _ => "W011"
  | catchExpected => "W012"
  | caseExpected => "W013"
  | duplicateDefault => "W014"
  | whileExpected => "W015"
  | invalidTarget => "W016"
  | invalidPattern => "W017"
  | redeclared _ => "W018"
  | reservedName _ => "W019"
  | unterminatedString => "W020"
  | invalidNumber _ => "W021"
  | unterminatedTemplate => "W022"
  | invalidEscape => "W023"
  | unexpectedCharacter _ => "W024"
  | restNotLast => "W025"
  | unterminatedComment => "W026"
  | unexpectedEnd => "W027"
  | nestingTooDeep => "W028"

/-- The wording of the cause. -/
def message : ParseCause → String
  | expressionExpected => "An expression expected"
  | unexpectedToken text => "Unexpected token: " ++ text
  | identifierExpected => "An identifier expected"
  | openBraceExpected => "'\x7b' expected"
  | closeBraceExpected => "'\x7d' expected"
  | closeParenExpected => "')' expected"
  | openParenExpected => "'(' expected"
  | closeBracketExpected => "']' expected"
  | colonExpected => "':' expected"
  | arrowExpected => "'=>' expected"
  | initializerMissing what => "Declaration of '" ++ what ++ "' requires an initializer"
  | catchExpected => "'catch' or 'finally' expected"
  | caseExpected => "'case' or 'default' expected"
  | duplicateDefault => "Duplicate 'default' label in switch"
  | whileExpected => "'while' expected"
  | invalidTarget => "Invalid assignment target"
  | invalidPattern => "Invalid destructuring pattern"
  | redeclared name => "Identifier '" ++ name ++ "' has already been declared"
  | reservedName name => "'$'-prefixed name '" ++ name ++ "' cannot be declared"
  | unterminatedString => "Unterminated string literal"
  | invalidNumber text => "Invalid numeric literal: " ++ text
  | unterminatedTemplate => "Unterminated template literal"
  | invalidEscape => "Invalid escape sequence"
  | unexpectedCharacter char => "Unexpected character: '" ++ char.toString ++ "'"
  | restNotLast => "A rest element must be last"
  | unterminatedComment => "Unterminated comment"
  | unexpectedEnd => "Unexpected end of input"
  | nestingTooDeep => "Nesting is too deep"

end ParseCause

/-- A cause and the place it was found at. -/
structure ParseIssue where
  cause : ParseCause
  line : Nat
  column : Nat
  deriving DecidableEq, Repr

namespace ParseIssue

/-- The issue with the given cause at a place. -/
def ofCause (cause : ParseCause) (place : Position) : ParseIssue :=
  ⟨cause, place.line, place.column⟩

/-- The issue as one line: code, wording, place. -/
def text (i : ParseIssue) : String :=
  i.cause.code ++ " " ++ i.cause.message ++ " at " ++ toString i.line ++ ":" ++ toString i.column

end ParseIssue

end BindScript
