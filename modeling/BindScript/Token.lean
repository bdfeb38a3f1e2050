import BindScript.Number.Text
import BindScript.ParseIssue
import BindScript.Text.Printable

/-!
Tokens: names, numbers, strings, template literals, reserved words and punctuators, each with the
place it starts at. Reserved words and punctuators are known by their spelling.
-/

namespace BindScript

/-- Reserved words. -/
inductive Keyword
  | «break»
  | case
  | «catch»
  | const
  | «continue»
  | default
  | delete
  | «do»
  | «else»
  | «false»
  | «finally»
  | «for»
  | function
  | «if»
  | «in»
  | «let»
  | null
  | «return»
  | switch
  | throw
  | «true»
  | «try»
  | typeof
  | var
  | void
  | «while»
  deriving DecidableEq, Repr

namespace Keyword

/-- All reserved words. -/
def all : List Keyword :=
  [«break», case, «catch», const, «continue», default, delete, «do», «else», «false», «finally»,
    «for», function, «if», «in», «let», null, «return», switch, throw, «true», «try», typeof, var,
    void, «while»]

/-- How the word is spelled. -/
def spelling : Keyword → String
  | «break» => "break"
  | case => "case"
  | «catch» => "catch"
  | const => "const"
  | «continue» => "continue"
  | default => "default"
  | delete => "delete"
  | «do» => "do"
  | «else» => "else"
  | «false» => "false"
  | «finally» => "finally"
  | «for» => "for"
  | function => "function"
  | «if» => "if"
  | «in» => "in"
  | «let» => "let"
  | null => "null"
  | «return» => "return"
  | switch => "switch"
  | throw => "throw"
  | «true» => "true"
  | «try» => "try"
  | typeof => "typeof"
  | var => "var"
  | void => "void"
  | «while» => "while"

/-- The reserved word with the given spelling. -/
def ofSpelling? (word : String) : Option Keyword :=
  all.find? (fun k => k.spelling == word)

end Keyword

/-- Punctuators and operators, named by what they look like. -/
inductive Punct
  | openBrace
  | closeBrace
  | openParen
  | closeParen
  | openBracket
  | closeBracket
  | semicolon
  | comma
  | colon
  | question
  | questionDot
  | nullish
  | nullishAssign
  | dot
  | ellipsis
  | arrow
  | plus
  | minus
  | star
  | starStar
  | slash
  | percent
  | plusPlus
  | minusMinus
  | assign
  | plusAssign
  | minusAssign
  | starAssign
  | starStarAssign
  | slashAssign
  | percentAssign
  | ampAssign
  | pipeAssign
  | caretAssign
  | shlAssign
  | shrAssign
  | ushrAssign
  | andAssign
  | orAssign
  | eqEq
  | notEq
  | eqEqEq
  | notEqEq
  | lt
  | gt
  | ltEq
  | gtEq
  | shl
  | shr
  | ushr
  | amp
  | pipe
  | caret
  | bang
  | tilde
  | andAnd
  | orOr
  deriving DecidableEq, Repr

namespace Punct

/-- How the punctuator is spelled. -/
def spelling : Punct → List Char
  | openBrace => ['\x7b']
  | closeBrace => ['\x7d']
  | openParen => ['(']
  | closeParen => [')']
  | openBracket => ['[']
  | closeBracket => [']']
  | semicolon => [';']
  | comma => [',']
  | colon => [':']
  | question => ['?']
  | questionDot => ['?', '.']
  | nullish => ['?', '?']
  | nullishAssign => ['?', '?', '=']
  | dot => ['.']
  | ellipsis => ['.', '.', '.']
  | arrow => ['=', '>']
  | plus => ['+']
  | minus => ['-']
  | star => ['*']
  | starStar => ['*', '*']
  | slash => ['/']
  | percent => ['%']
  | plusPlus => ['+', '+']
  | minusMinus => ['-', '-']
  | assign => ['=']
  | plusAssign => ['+', '=']
  | minusAssign => ['-', '=']
  | starAssign => ['*', '=']
  | starStarAssign => ['*', '*', '=']
  | slashAssign => ['/', '=']
  | percentAssign => ['%', '=']
  | ampAssign => ['&', '=']
  | pipeAssign => ['|', '=']
  | caretAssign => ['^', '=']
  | shlAssign => ['<', '<', '=']
  | shrAssign => ['>', '>', '=']
  | ushrAssign => ['>', '>', '>', '=']
  | andAssign => ['&', '&', '=']
  | orAssign => ['|', '|', '=']
  | eqEq => ['=', '=']
  | notEq => ['!', '=']
  | eqEqEq => ['=', '=', '=']
  | notEqEq => ['!', '=', '=']
  | lt => ['<']
  | gt => ['>']
  | ltEq => ['<', '=']
  | gtEq => ['>', '=']
  | shl => ['<', '<']
  | shr => ['>', '>']
  | ushr => ['>', '>', '>']
  | amp => ['&']
  | pipe => ['|']
  | caret => ['^']
  | bang => ['!']
  | tilde => ['~']
  | andAnd => ['&', '&']
  | orOr => ['|', '|']

/-- All punctuators, longer spellings before shorter ones, so that the first one that fits is the
longest. -/
def longestFirst : List Punct :=
  [ushrAssign,
    ellipsis, eqEqEq, notEqEq, starStarAssign, shlAssign, shrAssign, ushr, andAssign, orAssign,
    nullishAssign,
    arrow, eqEq, notEq, ltEq, gtEq, andAnd, orOr, nullish, questionDot, plusPlus, minusMinus,
    plusAssign, minusAssign, starAssign, slashAssign, percentAssign, ampAssign, pipeAssign,
    caretAssign, starStar, shl, shr,
    openBrace, closeBrace, openParen, closeParen, openBracket, closeBracket, semicolon, comma, colon,
    question, dot, plus, minus, star, slash, percent, assign, lt, gt, amp, pipe, caret, bang, tilde]

/-- The spelling as text. -/
def text (p : Punct) : String :=
  String.ofList p.spelling

end Punct

/-- A piece of a template literal: text with its escapes applied, or the raw source of a substitution
with the place it starts at. -/
inductive TemplateChunk
  | text (value : String)
  | hole (source : List Char) (start : Position)

/-- The category of a token, with what it carries. -/
inductive TokenKind
  | identifier (name : String)
  | number (value : Float)
  | string (value : String)
  | template (chunks : List TemplateChunk)
  | keyword (word : Keyword)
  | punct (mark : Punct)
  | eof

/-- A token, where it starts, and whether a line break lies between it and the token before it. -/
structure Token where
  kind : TokenKind
  start : Position
  newlineBefore : Bool

namespace TokenKind

/-- Whether this is the given punctuator. -/
def isPunct (k : TokenKind) (p : Punct) : Bool :=
  match k with
  | punct mark => mark == p
  | _ => false

/-- Whether this is the given reserved word. -/
def isKeyword (k : TokenKind) (w : Keyword) : Bool :=
  match k with
  | keyword word => word == w
  | _ => false

/-- Whether the input ends here. -/
def isEof : TokenKind → Bool
  | eof => true
  | _ => false

/-- A short rendering for diagnostics. -/
def describe : TokenKind → String
  | identifier name => name
  | number value => Number.format value
  | string value => Text.quoted value
  | template _ => "template literal"
  | keyword word => word.spelling
  | punct mark => mark.text
  | eof => "end of input"

end TokenKind

end BindScript
