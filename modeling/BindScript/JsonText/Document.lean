import BindScript.Entries
import BindScript.JsonText.Number

/-!
Reading JSON text. Objects keep the first place and the last value of a repeated key. Errors carry the
line and the column, which counts the bytes read on the line.

Parts of a text that nobody looks at may be passed over: then numbers may be out of range, surrogates
may stand alone, and nesting is not limited.
-/

/-!
## String literals

JSON string literals. Quotes, backslashes and control characters are escaped; every other character
stands for itself.
-/

namespace BindScript.JsonText

/-- A value below sixteen as a lower-case hexadecimal digit. -/
def hexDigit (n : Nat) : Char :=
  if n < 10 then Char.ofNat ('0'.toNat + n) else Char.ofNat ('a'.toNat + (n - 10))

/-- One character as it stands inside a string literal. -/
def escapeChar (c : Char) : List Char :=
  match c with
  | '"' => ['\\', '"']
  | '\\' => ['\\', '\\']
  | '\n' => ['\\', 'n']
  | '\r' => ['\\', 'r']
  | '\t' => ['\\', 't']
  | '\x08' => ['\\', 'b']
  | '\x0c' => ['\\', 'f']
  | c =>
    if c.toNat < 0x20 then
      ['\\', 'u', '0', '0', hexDigit (c.toNat / 16), hexDigit (c.toNat % 16)]
    else [c]

/-- The characters of a string literal, its quotes included. -/
def quoteChars (cs : List Char) : List Char :=
  '"' :: (cs.flatMap escapeChar ++ ['"'])

/-- The string literal of a text. -/
def quote (s : String) : String :=
  String.ofList (quoteChars s.toList)

/-! ## Documents -/

/-- A number as it was written: an integer of at most 64 bits, or any other number. -/
inductive Numeral
  | whole (negative : Bool) (magnitude : Nat)
  | float (value : Float)

/-- The value of a numeral. -/
def Numeral.value : Numeral → Float
  | whole true magnitude => -(Float.ofNat magnitude)
  | whole false magnitude => Float.ofNat magnitude
  | float value => value

/-- A JSON document. -/
inductive Document
  | null
  | bool (value : Bool)
  | number (numeral : Numeral)
  | string (value : String)
  | array (items : List Document)
  | object (members : List (String × Document))

/-- What can be wrong with a JSON text. -/
inductive JsonCause
  | eofInValue
  | eofInList
  | eofInObject
  | eofInString
  | expectedValue
  | expectedIdent
  | expectedColon
  | expectedListEnd
  | expectedObjectEnd
  | invalidNumber
  | numberOutOfRange
  | invalidEscape
  | controlCharacter
  | loneSurrogate
  | hexEscapeEnd
  | keyNotString
  | trailingComma
  | trailingCharacters
  | tooDeep
  deriving DecidableEq, Repr

/-- The wording of a cause. -/
def JsonCause.message : JsonCause → String
  | eofInValue => "EOF while parsing a value"
  | eofInList => "EOF while parsing a list"
  | eofInObject => "EOF while parsing an object"
  | eofInString => "EOF while parsing a string"
  | expectedValue => "expected value"
  | expectedIdent => "expected ident"
  | expectedColon => "expected `:`"
  | expectedListEnd => "expected `,` or `]`"
  | expectedObjectEnd => "expected `,` or `\x7d`"
  | invalidNumber => "invalid number"
  | numberOutOfRange => "number out of range"
  | invalidEscape => "invalid escape"
  | controlCharacter => "control character (\\u0000-\\u001F) found while parsing a string"
  | loneSurrogate => "lone leading surrogate in hex escape"
  | hexEscapeEnd => "unexpected end of hex escape"
  | keyNotString => "key must be a string"
  | trailingComma => "trailing comma"
  | trailingCharacters => "trailing characters"
  | tooDeep => "recursion limit exceeded"

/-- A cause and the place it was found at. -/
structure JsonError where
  cause : JsonCause
  line : Nat
  column : Nat
  deriving DecidableEq, Repr

/-- The error as one line of text. -/
def JsonError.message (e : JsonError) : String :=
  e.cause.message ++ " at line " ++ toString e.line ++ " column " ++ toString e.column

/-- What remains of a text, and the place of the last byte read. -/
structure Cursor where
  rest : List Char
  line : Nat
  column : Nat

namespace Cursor

/-- Moves past the first character. -/
def advance (c : Cursor) : Cursor :=
  match c.rest with
  | [] => c
  | '\n' :: cs => ⟨cs, c.line + 1, 0⟩
  | x :: cs => ⟨cs, c.line, c.column + x.utf8Size⟩

/-- The place after `n` more bytes. -/
def placeAfter (c : Cursor) : Nat → Nat × Nat
  | n => go c.rest c.line c.column n
where
  /-- The place after `n` bytes of `cs`, starting from `line` and `column`. -/
  go : List Char → Nat → Nat → Nat → Nat × Nat
    | [], line, column, _ => (line, column)
    | _, line, column, 0 => (line, column)
    | x :: cs, line, column, n =>
      if x = '\n' then go cs (line + 1) 0 (n - 1)
      else go cs line (column + min n x.utf8Size) (n - x.utf8Size)

end Cursor

/-- A step of reading. -/
abbrev Read := EStateM JsonError Cursor

/-- Fails at the place `n` bytes ahead. -/
def failAfter {α : Type} (n : Nat) (cause : JsonCause) : Read α := do
  let (line, column) := (← get).placeAfter n
  throw ⟨cause, line, column⟩

/-- Fails at the last byte read. -/
def fail {α : Type} (cause : JsonCause) : Read α :=
  failAfter 0 cause

/-- Fails at the next byte. -/
def failNext {α : Type} (cause : JsonCause) : Read α :=
  failAfter 1 cause

/-- The next character. -/
def peek : Read (Option Char) :=
  return (← get).rest.head?

/-- Moves past the next character. -/
def advance : Read Unit :=
  modify Cursor.advance

/-- White space between the tokens of a document. -/
def isJsonSpace (c : Char) : Bool :=
  c = ' ' || c = '\n' || c = '\t' || c = '\r'

/-- Passes over the characters that satisfy `p`; the first argument bounds their number. -/
def skipWhile (p : Char → Bool) : Nat → Cursor → Cursor
  | 0, c => c
  | n + 1, c => match c.rest with
    | x :: _ => if p x then skipWhile p n c.advance else c
    | [] => c

/-- The next character after white space. -/
def peekToken : Read (Option Char) := do
  modify fun c => skipWhile isJsonSpace (c.rest.takeWhile isJsonSpace).length c
  peek

/-- Passes over the digits ahead and gives them. -/
def digits : Read (List Char) := do
  let found := (← get).rest.takeWhile Char.isDigit
  modify (skipWhile Char.isDigit found.length)
  return found

/-- The rest of a literal word. -/
def word : List Char → Read Unit
  | [] => return
  | expected :: more => do
    match ← peek with
    | none => fail .eofInValue
    | some c =>
      if c = expected then
        advance
        word more
      else failNext .expectedIdent

/-- The largest exponent that a reader keeps. -/
def maxExponent : Nat := Nat.pow 2 31 - 1

/-- How many of the digits of an exponent fit, if not all do. -/
def exponentOverflow? (exponent seen : Nat) : List Char → Option Nat
  | [] => none
  | c :: rest =>
    let next := exponent * 10 + (c.toNat - '0'.toNat)
    if next ≤ maxExponent then exponentOverflow? next (seen + 1) rest else some (seen + 1)

/-- The sign in front of a magnitude. -/
def signed (negative : Bool) (x : Float) : Float :=
  if negative then -x else x

/-- The number with the given significand and exponent. Out of range, it is zero in a part that
nobody looks at. -/
def scaled (lenient negative : Bool) (significand : Nat) (exponent : Int) : Read Float := do
  match scale 8 (Float.ofNat significand) exponent with
  | some x => return signed negative x
  | none => if lenient then return 0.0 else fail .numberOutOfRange

/-- The rest of a number at its exponent mark. -/
def exponentPart (lenient negative : Bool) (significand : Nat) (exponent : Int) : Read Float := do
  advance
  let down ← match ← peek with
    | some '+' => do advance; pure false
    | some '-' => do advance; pure true
    | _ => pure false
  match ← peek with
  | none => fail .eofInValue
  | some c =>
    if !c.isDigit then failNext .invalidNumber
    else
      let start ← get
      let ds ← digits
      match exponentOverflow? 0 0 ds with
      | some seen =>
        if significand ≠ 0 && !down && !lenient then
          set start
          failAfter seen .numberOutOfRange
        else return signed negative 0.0
      | none =>
        let e : Int := natOfDigits ds
        scaled lenient negative significand (if down then exponent - e else exponent + e)
where
  /-- The number written by decimal digits. -/
  natOfDigits (ds : List Char) : Nat := Decimal.natOfDigits 0 ds

/-- The rest of a number after its digits: an exponent or nothing. -/
def afterDigits (lenient negative : Bool) (significand : Nat) (exponent : Int) : Read Float := do
  match ← peek with
  | some 'e' | some 'E' => exponentPart lenient negative significand exponent
  | _ => scaled lenient negative significand exponent

/-- The rest of a number at its decimal point. -/
def fractionPart (lenient negative : Bool) (significand : Nat) (exponent : Int) : Read Float := do
  advance
  let ds ← digits
  if ds.isEmpty then
    match ← peek with
    | some _ => failNext .invalidNumber
    | none => fail .eofInValue
  else
    let (significand, taken, _) := takeDigits significand 0 ds
    afterDigits lenient negative significand (exponent - taken)

/-- A number after its sign. -/
def numeral (lenient negative : Bool) : Read Numeral := do
  match ← peek with
  | none => fail .eofInValue
  | some c =>
    if !c.isDigit then failNext .invalidNumber
    else
      if c = '0' then
        advance
        if let some d ← peek then
          if d.isDigit then failNext .invalidNumber
      let ds ← if c = '0' then pure [] else digits
      let (significand, taken, more) := takeDigits 0 0 ds
      let exponent : Int := ds.length - taken
      match ← peek with
      | some '.' => return .float (← fractionPart lenient negative significand exponent)
      | some 'e' | some 'E' =>
        return .float (← exponentPart lenient negative significand exponent)
      | _ =>
        if more then return .float (← scaled lenient negative significand exponent)
        else return .whole negative significand

/-- The value of a hexadecimal digit. -/
def hexValue? (c : Char) : Option Nat :=
  Number.digitValue? 16 c

/-- The value of four hexadecimal digits. -/
def hexFour? : List Char → Option Nat
  | [a, b, c, d] => do
    return ((← hexValue? a) * 16 + (← hexValue? b)) * 256 + ((← hexValue? c) * 16 + (← hexValue? d))
  | _ => none

/-- Four hexadecimal digits of an escape. -/
def hexEscape : Read Nat := do
  let c ← get
  let four := c.rest.take 4
  if four.foldl (fun size c => size + c.utf8Size) 0 < 4 then failAfter 4 .eofInString
  else match hexFour? four with
    | some n =>
      set { c with rest := c.rest.drop 4, column := c.column + 4 }
      return n
    | none => failAfter 4 .invalidEscape

/-- Moves past the given character, which must come next inside an escape. -/
def expectInEscape (expected : Char) : Read Unit := do
  match ← peek with
  | none => fail .eofInString
  | some c => if c = expected then advance else failNext .hexEscapeEnd

/-- The character of a `\u` escape after the letter. Two surrogates make one character. -/
def unicodeEscape (lenient : Bool) : Read Char := do
  let high ← hexEscape
  if lenient then return ' '
  else if 0xdc00 ≤ high && high ≤ 0xdfff then fail .loneSurrogate
  else if high < 0xd800 || 0xdbff < high then return Char.ofNat high
  else
    expectInEscape '\\'
    expectInEscape 'u'
    let low ← hexEscape
    if low < 0xdc00 || 0xdfff < low then fail .loneSurrogate
    else return Char.ofNat ((high - 0xd800) * 0x400 + (low - 0xdc00) + 0x10000)

/-- The character of an escape after the backslash. -/
def escape (lenient : Bool) : Read Char := do
  match ← peek with
  | none => fail .eofInString
  | some c =>
    match c with
    | '"' | '\\' | '/' => advance; return c
    | 'b' => advance; return '\x08'
    | 'f' => advance; return '\x0c'
    | 'n' => advance; return '\n'
    | 'r' => advance; return '\r'
    | 't' => advance; return '\t'
    | 'u' => advance; unicodeEscape lenient
    | _ => failNext .invalidEscape

/-- The rest of a string after its opening quote. `out` holds what was read in reverse; the number
bounds the characters ahead. -/
def stringBody (lenient : Bool) : Nat → List Char → Read String
  | 0, _ => fail .eofInString
  | n + 1, out => do
    match ← peek with
    | none => fail .eofInString
    | some c =>
      if c = '"' then
        advance
        return String.ofList out.reverse
      else if c = '\\' then
        advance
        stringBody lenient n ((← escape lenient) :: out)
      else if c.toNat < 0x20 then failNext .controlCharacter
      else
        advance
        stringBody lenient n (c :: out)

/-- A string, at its opening quote. -/
def string (lenient : Bool) : Read String := do
  advance
  stringBody lenient ((← get).rest.length + 1) []

/-- The items of a list up to its end, which is not passed. `found` holds those before in reverse;
the number bounds the characters ahead. -/
def items (item : Read Document) : Nat → List Document → Read (List Document)
  | 0, _ => fail .eofInList
  | n + 1, found => do
    match ← peekToken with
    | none => fail .eofInList
    | some ']' => return found.reverse
    | some c =>
      if found.isEmpty then items item n ((← item) :: found)
      else if c = ',' then
        advance
        match ← peekToken with
        | some ']' => failNext .trailingComma
        | none => fail .eofInValue
        | some _ => items item n ((← item) :: found)
      else failNext .expectedListEnd

/-- The next key of an object, or nothing at its end, which is not passed. -/
def nextKey? (lenient first : Bool) : Read (Option String) := do
  match ← peekToken with
  | none => fail .eofInObject
  | some '\x7d' => return none
  | some c =>
    if first then
      if c = '"' then return some (← string lenient) else failNext .keyNotString
    else if c = ',' then
      advance
      match ← peekToken with
      | some '"' => return some (← string lenient)
      | some '\x7d' => failNext .trailingComma
      | some _ => failNext .keyNotString
      | none => fail .eofInValue
    else failNext .expectedObjectEnd

/-- The colon after a key. -/
def colon : Read Unit := do
  match ← peekToken with
  | some ':' => advance
  | some _ => failNext .expectedColon
  | none => fail .eofInObject

/-- The members of an object up to its end, which is not passed. -/
def members (lenient : Bool) (item : Read Document) :
    Nat → Bool → Entries Document → Read (Entries Document)
  | 0, _, _ => fail .eofInObject
  | n + 1, first, found => do
    match ← nextKey? lenient first with
    | none => return found
    | some key =>
      colon
      members lenient item n false (found.insert key (← item))

/-- A document. Lists and objects may nest one less deep than the number says. -/
def document (lenient : Bool) : Nat → Read Document
  | 0 => failNext .tooDeep
  | depth + 1 => do
    match ← peekToken with
    | none => fail .eofInValue
    | some 'n' => advance; word ['u', 'l', 'l']; return .null
    | some 't' => advance; word ['r', 'u', 'e']; return .bool true
    | some 'f' => advance; word ['a', 'l', 's', 'e']; return .bool false
    | some '-' => advance; return .number (← numeral lenient true)
    | some '"' => return .string (← string lenient)
    | some '[' =>
      if depth = 0 then failNext .tooDeep
      else
        advance
        let found ← items (document lenient depth) ((← get).rest.length + 1) []
        advance
        return .array found
    | some '\x7b' =>
      if depth = 0 then failNext .tooDeep
      else
        advance
        let found ← members lenient (document lenient depth) ((← get).rest.length + 1) true []
        advance
        return .object found
    | some c => if c.isDigit then return .number (← numeral lenient false) else failNext .expectedValue

/-- The deepest nesting of lists and objects is one less than this. -/
def maxDepth : Nat := 128

/-- Nothing but white space may follow. -/
def endOfText : Read Unit := do
  if (← peekToken).isSome then failNext .trailingCharacters

/-- Reads a whole text. -/
def readWhole {α : Type} (p : Read α) (text : String) : Except JsonError α :=
  match (do let a ← p; endOfText; return a : Read α) ⟨text.toList, 1, 0⟩ with
  | .ok a _ => .ok a
  | .error e _ => .error e

/-- Reads a text as a document. -/
def parse (text : String) : Except JsonError Document :=
  readWhole (document false maxDepth) text

/-- Reads a text as one string. -/
def parseString? (text : String) : Option String :=
  match readWhole (document false maxDepth) text with
  | .ok (.string s) => some s
  | _ => none

end BindScript.JsonText
