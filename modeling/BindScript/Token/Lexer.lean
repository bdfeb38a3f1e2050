import BindScript.ParseIssue
import BindScript.Text.Identifier
import BindScript.Token

/-!
Splitting source text into tokens. White space and comments separate tokens and leave no trace except
the line-break flag; every other character belongs to exactly one token. The list ends with the token
for the end of input.

Each scanner takes the characters that remain and the place they start at, and gives back what
remains after it. A number in front bounds the characters that remain, so that every loop ends.
-/

namespace BindScript

/-- What remains of a source, and where it starts. -/
structure Reader where
  rest : List Char
  place : Position

namespace Reader

/-- Passes over `n` characters. -/
def skip (r : Reader) (n : Nat) : Reader :=
  ⟨r.rest.drop n, r.place.advance (r.rest.take n)⟩

/-- Passes over the characters at the front that satisfy `p`. -/
def skipWhile (r : Reader) (p : Char → Bool) : Reader :=
  ⟨r.rest.dropWhile p, r.place.advance (r.rest.takeWhile p)⟩

/-- The next character and what follows it. -/
def next? (r : Reader) : Option (Char × Reader) :=
  match r.rest with
  | [] => none
  | c :: cs => some (c, ⟨cs, r.place.next c⟩)

end Reader

namespace Lexer

open Text

/-- A result with what remains after it. -/
abbrev Scan (α : Type) := Except ParseIssue (α × Reader)

/-- Refuses the source for `cause` at `place`. -/
def refuse {α : Type} (cause : ParseCause) (place : Position) : Except ParseIssue α :=
  .error (ParseIssue.ofCause cause place)

/-- A character that ends a line. -/
def isLineEnd (c : Char) : Bool :=
  c = '\n' || c = '\r' || c = '\u2028' || c = '\u2029'

/-- A character that separates tokens on one line. -/
def isSpace (c : Char) : Bool :=
  isBlank c || c = '\ufeff'

/-- How many characters lead up to and include the end of a block comment. -/
def commentLength? (seen : Nat) : List Char → Option Nat
  | [] => none
  | '*' :: '/' :: _ => some (seen + 2)
  | _ :: cs => commentLength? (seen + 1) cs

/-- Passes over white space and comments. The flag tells whether a line break was met. -/
def skipTrivia : Nat → Bool → Reader → Scan Bool
  | 0, newline, r => .ok (newline, r)
  | n + 1, newline, r =>
    match r.rest with
    | [] => .ok (newline, r)
    | '/' :: '/' :: _ => skipTrivia n newline (r.skipWhile (fun c => c != '\n'))
    | '/' :: '*' :: cs =>
      match commentLength? 0 cs with
      | some length =>
        skipTrivia n (newline || (cs.take length).any (fun c => c = '\n')) (r.skip (length + 2))
      | none => refuse .unterminatedComment r.place
    | c :: _ =>
      if isLineEnd c then skipTrivia n true (r.skip 1)
      else if isSpace c then skipTrivia n newline (r.skip 1)
      else .ok (newline, r)

/-- A name or a reserved word. -/
def scanWord (r : Reader) : TokenKind × Reader :=
  let word := String.ofList (r.rest.takeWhile isWordPart)
  let kind := match Keyword.ofSpelling? word with
    | some keyword => .keyword keyword
    | none => .identifier word
  (kind, r.skipWhile isWordPart)

/-- Whether every separator stands between two digits of the literal. The first argument is the
character before the rest of the literal; a lower-case `e` may not come before a separator. -/
def separatorsFit (before : Option Char) : List Char → Bool
  | [] => true
  | '_' :: rest =>
    let left := match before with
      | some b => b.isAlphanum && b != 'e'
      | none => false
    let right := match rest with
      | a :: _ => a.isAlphanum
      | [] => false
    left && right && separatorsFit (some '_') rest
  | c :: rest => separatorsFit (some c) rest

/-- A digit or a separator. -/
def isDigitOrSeparator (c : Char) : Bool :=
  c.isDigit || c = '_'

/-- The literal without its separators. -/
def withoutSeparators (raw : List Char) : List Char :=
  raw.filter (fun c => c != '_')

/-- Ends a numeric literal: what follows must not run into it. -/
def endNumber (start : Position) (raw : List Char) (value : Float) (r : Reader) :
    Scan TokenKind :=
  match r.rest with
  | c :: _ =>
    if isNameStart c || c.isDigit then
      refuse (.invalidNumber (String.ofList (raw ++ [c]))) start
    else .ok (.number value, r)
  | [] => .ok (.number value, r)

/-- A numeric literal in the given radix, whose mark is still ahead. -/
def scanRadix (radix : Nat) (r : Reader) : Scan TokenKind :=
  let marked := r.skip 2
  let isPart := fun (c : Char) => c.isAlphanum || c = '_'
  let raw := marked.rest.takeWhile isPart
  if !separatorsFit none raw then refuse (.invalidNumber (String.ofList raw)) r.place
  else match Number.parseRadix radix (withoutSeparators raw) with
    | some value => endNumber r.place raw value (marked.skipWhile isPart)
    | none => refuse (.invalidNumber (String.ofList raw)) r.place

/-- The exponent of a decimal literal as it is read back (with a lower-case mark), how many characters
it takes, and whether it has digits. -/
def scanExponent : List Char → List Char × Nat × Bool
  | e :: cs =>
    if e = 'e' || e = 'E' then
      let (sign, cs) := match cs with
        | '+' :: ds => (['+'], ds)
        | '-' :: ds => (['-'], ds)
        | ds => ([], ds)
      let digits := cs.takeWhile isDigitOrSeparator
      ('e' :: sign ++ digits, 1 + sign.length + digits.length, !digits.isEmpty)
    else ([], 0, true)
  | [] => ([], 0, true)

/-- A decimal literal. -/
def scanDecimal (r : Reader) : Scan TokenKind :=
  let whole := r.rest.takeWhile isDigitOrSeparator
  let afterWhole := r.rest.drop whole.length
  let tail := match afterWhole with
    | '.' :: cs => '.' :: cs.takeWhile isDigitOrSeparator
    | _ => []
  let (exponent, exponentLength, complete) := scanExponent (afterWhole.drop tail.length)
  let raw := whole ++ tail ++ exponent
  if !complete || !separatorsFit none raw then refuse (.invalidNumber (String.ofList raw)) r.place
  else endNumber r.place raw (Decimal.literalToFloat (withoutSeparators raw))
    (r.skip (whole.length + tail.length + exponentLength))

/-- A numeric literal. -/
def scanNumber (r : Reader) : Scan TokenKind :=
  match Number.radixLiteral? r.rest with
  | some (radix, _) => scanRadix radix r
  | none => scanDecimal r

/-- The character with the given code point, if there is one. -/
def charOfCode? (code : Nat) : Option Char :=
  if code.isValidChar then some (Char.ofNat code) else none

/-- The character whose code the escape at `place` spells out. -/
def escapedCode (place : Position) : Except ParseIssue (Nat × Reader) → Scan (Option Char)
  | .error issue => .error issue
  | .ok (code, r) =>
    match charOfCode? code with
    | some c => .ok (some c, r)
    | none => refuse .invalidEscape place

/-- The code written by exactly `count` hexadecimal digits, continuing from `code`. -/
def scanHex (place : Position) : Nat → Nat → Reader → Scan Nat
  | 0, code, r => .ok (code, r)
  | count + 1, code, r =>
    match r.next? with
    | some (c, r') => match Number.digitValue? 16 c with
      | some d => scanHex place count (code * 16 + d) r'
      | none => refuse .invalidEscape place
    | none => refuse .invalidEscape place

/-- The code written by one to six hexadecimal digits up to a closing brace. The first argument is the
number of digits that may still come. -/
def scanBracedHex (place : Position) : Nat → Bool → Nat → Reader → Scan Nat
  | left, seen, code, r =>
    match r.next? with
    | some (c, r') =>
      if c = '\x7d' && seen then .ok (code, r')
      else match left, Number.digitValue? 16 c with
        | left + 1, some d => scanBracedHex place left true (code * 16 + d) r'
        | _, _ => refuse .invalidEscape place
    | none => refuse .invalidEscape place

/-- The escape after a backslash: the character it stands for, or nothing when it only continues the
line. -/
def scanEscape (r : Reader) : Scan (Option Char) :=
  match r.next? with
  | none => refuse .invalidEscape r.place
  | some (c, r') =>
    match c with
    | 'n' => .ok (some '\n', r')
    | 't' => .ok (some '\t', r')
    | 'r' => .ok (some '\r', r')
    | 'b' => .ok (some '\x08', r')
    | 'f' => .ok (some '\x0c', r')
    | 'v' => .ok (some '\x0b', r')
    | 'x' => escapedCode r.place (scanHex r.place 2 0 r')
    | 'u' =>
      match r'.rest with
      | '\x7b' :: _ => escapedCode r.place (scanBracedHex r.place 6 false 0 (r'.skip 1))
      | _ => escapedCode r.place (scanHex r.place 4 0 r')
    | '\n' => .ok (none, r')
    | '\r' => match r'.rest with
      | '\n' :: _ => .ok (none, r'.skip 1)
      | _ => .ok (none, r')
    | '0' => match r'.rest with
      | d :: _ => if d.isDigit then refuse .invalidEscape r.place else .ok (some '\x00', r')
      | [] => .ok (some '\x00', r')
    | c => if c.isDigit then refuse .invalidEscape r.place else .ok (some c, r')

/-- Puts the character of an escape in front of the reversed text before it. -/
def pushEscaped (out : List Char) : Option Char → List Char
  | some c => c :: out
  | none => out

/-- The rest of a string literal after its opening quote. `out` holds the text so far in reverse. -/
def scanString (quote : Char) (start : Position) : Nat → List Char → Reader → Scan TokenKind
  | 0, _, _ => refuse .unterminatedString start
  | n + 1, out, r =>
    match r.next? with
    | none => refuse .unterminatedString start
    | some (c, r') =>
      if c = '\n' || c = '\r' then refuse .unterminatedString start
      else if c = quote then .ok (.string (String.ofList out.reverse), r')
      else if c = '\\' then
        match scanEscape r' with
        | .ok (escaped, r'') => scanString quote start n (pushEscaped out escaped) r''
        | .error issue => .error issue
      else scanString quote start n (c :: out) r'

/-- Passes over a quoted part of a substitution up to its closing quote; a backslash hides the
character after it. `out` is the reversed source of the substitution so far. -/
def scanQuoted (quote : Char) (start : Position) : Nat → List Char → Reader → Scan (List Char)
  | 0, _, _ => refuse .unterminatedTemplate start
  | n + 1, out, r =>
    match r.next? with
    | none => refuse .unterminatedTemplate start
    | some (c, r') =>
      if c = '\\' then
        match r'.next? with
        | some (hidden, r'') => scanQuoted quote start n (hidden :: c :: out) r''
        | none => scanQuoted quote start n (c :: out) r'
      else if c = quote then .ok (c :: out, r')
      else scanQuoted quote start n (c :: out) r'

/-- The source of a substitution up to the brace that closes it. Braces inside are balanced, quoted
parts are passed over whole. -/
def scanHole (start : Position) : Nat → Nat → List Char → Reader → Scan (List Char)
  | 0, _, _, _ => refuse .unterminatedTemplate start
  | n + 1, depth, out, r =>
    match r.next? with
    | none => refuse .unterminatedTemplate start
    | some (c, r') =>
      if c = '\x7d' then
        match depth with
        | 0 => .ok (out.reverse, r')
        | depth + 1 => scanHole start n depth (c :: out) r'
      else if c = '\x7b' then scanHole start n (depth + 1) (c :: out) r'
      else if c = '"' || c = '\'' || c = '`' then
        match scanQuoted c start n (c :: out) r' with
        | .ok (out', r'') => scanHole start n depth out' r''
        | .error issue => .error issue
      else scanHole start n depth (c :: out) r'

/-- Adds the text gathered so far, if there is any, to the chunks in reverse. -/
def pushText (chunks : List TemplateChunk) (out : List Char) : List TemplateChunk :=
  if out.isEmpty then chunks else .text (String.ofList out.reverse) :: chunks

/-- The rest of a template literal after its opening quote. An empty template has one empty text. -/
def scanTemplate (start : Position) :
    Nat → List TemplateChunk → List Char → Reader → Scan TokenKind
  | 0, _, _, _ => refuse .unterminatedTemplate start
  | n + 1, chunks, out, r =>
    match r.next? with
    | none => refuse .unterminatedTemplate start
    | some (c, r') =>
      if c = '`' then
        let all := (pushText chunks out).reverse
        .ok (.template (if all.isEmpty then [.text ""] else all), r')
      else if c = '\\' then
        match scanEscape r' with
        | .ok (escaped, r'') => scanTemplate start n chunks (pushEscaped out escaped) r''
        | .error issue => .error issue
      else match c, r'.rest with
        | '$', '\x7b' :: _ =>
          let hole := r'.skip 1
          match scanHole start n 0 [] hole with
          | .ok (source, r'') =>
            scanTemplate start n (.hole source hole.place :: pushText chunks out) [] r''
          | .error issue => .error issue
        | _, _ => scanTemplate start n chunks (c :: out) r'

/-- Whether the punctuator stands at the front. A question mark and a dot before a digit are a
conditional and a number, not an optional link. -/
def fits (cs : List Char) (p : Punct) : Bool :=
  p.spelling.isPrefixOf cs &&
    !(p = .questionDot && match cs.drop 2 with
      | d :: _ => d.isDigit
      | [] => false)

/-- The longest punctuator at the front. -/
def scanPunct (r : Reader) : Scan TokenKind :=
  match Punct.longestFirst.find? (fits r.rest) with
  | some p => .ok (.punct p, r.skip p.spelling.length)
  | none => refuse (.unexpectedCharacter (r.rest.headD ' ')) r.place

/-- Whether a numeric literal starts here. -/
def startsNumber : List Char → Bool
  | '.' :: d :: _ => d.isDigit
  | c :: _ => c.isDigit
  | [] => false

/-- The token that starts at the front, which must be neither the end of the source nor a character
that separates tokens. -/
def scanToken (n : Nat) (c : Char) (r : Reader) : Scan TokenKind :=
  if isNameStart c then .ok (scanWord r)
  else if startsNumber r.rest then scanNumber r
  else if c = '"' || c = '\'' then scanString c r.place n [] (r.skip 1)
  else if c = '`' then scanTemplate r.place n [] [] (r.skip 1)
  else scanPunct r

/-- All tokens of what remains, after the tokens already found, which are given in reverse. -/
def scanAll : Nat → List Token → Reader → Except ParseIssue (List Token)
  | 0, found, _ => .ok found.reverse
  | n + 1, found, r =>
    match skipTrivia (n + 1) false r with
    | .error issue => .error issue
    | .ok (newline, r') =>
      match r'.rest with
      | [] => .ok (⟨.eof, r'.place, newline⟩ :: found).reverse
      | c :: _ =>
        match scanToken (n + 1) c r' with
        | .error issue => .error issue
        | .ok (kind, r'') => scanAll n (⟨kind, r'.place, newline⟩ :: found) r''

end Lexer

/-- The tokens of a source that starts at `origin` inside a larger text. -/
def tokenizeAt (source : List Char) (origin : Position) : Except ParseIssue (List Token) :=
  Lexer.scanAll (source.length + 1) [] ⟨source, origin⟩

/-- The tokens of a source. -/
def tokenize (source : String) : Except ParseIssue (List Token) :=
  tokenizeAt source.toList Position.start

end BindScript
