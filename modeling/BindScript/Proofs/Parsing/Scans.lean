import Mathlib.Data.List.TakeWhile
import BindScript.Proofs.JsonText.Literal
import BindScript.Token.Lexer

/-!
# Scanning from the end

What kinds of tokens a text is split into does not depend on the place where it starts, on what was found before
it, or on how many turns the scanner may take, as long as there are enough. So the tokens of a text can be
worked out from its end: one token in front of a text whose tokens are known (`Scans.punct`, `Scans.string`,
`Scans.word`), or a blank (`Scans.gap`).
-/

namespace BindScript.Lexer

open Text JsonText

/-- The scan from where white space has been passed over. -/
def scanFrom (n : Nat) (found : List Token) : Scan Bool → Except ParseIssue (List Token)
  | .error issue => .error issue
  | .ok (newline, r) =>
    match r.rest with
    | [] => .ok (⟨.eof, r.place, newline⟩ :: found).reverse
    | c :: _ =>
      match scanToken (n + 1) c r with
      | .error issue => .error issue
      | .ok (kind, r') => scanAll n (⟨kind, r.place, newline⟩ :: found) r'

theorem scanAll_succ (n : Nat) (found : List Token) (r : Reader) :
    scanAll (n + 1) found r = scanFrom n found (skipTrivia (n + 1) false r) :=
  rfl

/-- The text is split into tokens of the given kinds, wherever it stands. -/
def Scans (cs : List Char) (kinds : List TokenKind) : Prop :=
  ∀ (n m : Nat) (newline : Bool) (place : Position) (found : List Token), cs.length ≤ n → cs.length < m →
    ∃ tokens, scanFrom n found (skipTrivia m newline ⟨cs, place⟩) = .ok (found.reverse ++ tokens) ∧
      tokens.map (·.kind) = kinds

/-- No word of a script goes on with the text. -/
def StopsWord (rest : List Char) : Prop :=
  ∀ c ∈ rest.head?, isWordPart c = false

theorem stopsWord_nil : StopsWord [] :=
  fun c mem => absurd mem (Option.not_mem_none c)

/-- The code points of white space. -/
def blankCodes : List Nat :=
  [0x9, 0xa, 0xb, 0xc, 0xd, 0x20, 0x85, 0xa0, 0x1680, 0x2000, 0x2001, 0x2002, 0x2003, 0x2004, 0x2005, 0x2006, 0x2007,
    0x2008, 0x2009, 0x200a, 0x2028, 0x2029, 0x202f, 0x205f, 0x3000, 0xfeff]

theorem toNat_mem_blankCodes {c : Char} (blank : isLineEnd c = true ∨ isSpace c = true) : c.toNat ∈ blankCodes := by
  rcases blank with line | space
  · simp only [isLineEnd, Bool.or_eq_true, decide_eq_true_eq] at line
    rcases line with ((rfl | rfl) | rfl) | rfl
    all_goals decide
  · unfold isSpace isBlank at space
    simp only [Bool.or_eq_true, Bool.and_eq_true, decide_eq_true_eq, beq_iff_eq] at space
    simp only [blankCodes, List.mem_cons, List.not_mem_nil, or_false]
    rcases space with blank | rfl
    · omega
    · decide

/-- No word goes on with white space. -/
theorem isWordPart_of_blank {c : Char} (blank : isLineEnd c = true ∨ isSpace c = true) : isWordPart c = false := by
  have all : ∀ n ∈ blankCodes, isWordPart (Char.ofNat n) = false := by decide +kernel
  have part := all _ (toNat_mem_blankCodes blank)
  rwa [Char.ofNat_toNat] at part

namespace Scans

variable {cs rest : List Char} {kinds : List TokenKind}

theorem nil : Scans [] [.eof] := by
  intro n m newline place found _ enough
  obtain ⟨m, rfl⟩ := Nat.exists_eq_add_one.2 enough
  exact ⟨[⟨.eof, place, newline⟩], by simp [skipTrivia, scanFrom], rfl⟩

/-- What is passed over leaves no token behind. -/
theorem passed (front : List Char) (some : front ≠ [])
    (passes : ∀ m newline place, ∃ newline' place',
      skipTrivia (m + 1) newline ⟨front ++ cs, place⟩ = skipTrivia m newline' ⟨cs, place'⟩)
    (later : Scans cs kinds) : Scans (front ++ cs) kinds := by
  intro n m newline place found turns enough
  have longer := List.length_pos_iff.2 some
  rw [List.length_append] at turns enough
  obtain ⟨m, rfl⟩ := Nat.exists_eq_add_one.2 (Nat.zero_lt_of_lt enough)
  obtain ⟨newline', place', skips⟩ := passes m newline place
  rw [skips]
  exact later n m newline' place' found (by omega) (by omega)

/-- White space leaves no token behind. -/
theorem gap {c : Char} (blank : c = ' ' ∨ c = '\n') (later : Scans cs kinds) : Scans (c :: cs) kinds := by
  refine later.passed [c] nofun fun m newline place => ?_
  rcases blank with rfl | rfl
  · exact ⟨newline, _, rfl⟩
  · exact ⟨true, _, rfl⟩

theorem gaps {blanks : List Char} (blank : ∀ c ∈ blanks, c = ' ' ∨ c = '\n') (later : Scans cs kinds) :
    Scans (blanks ++ cs) kinds := by
  induction blanks with
  | nil => exact later
  | cons c blanks ih =>
    obtain ⟨first, blank⟩ := List.forall_mem_cons.1 blank
    exact gap first (ih blank)

/-- One token in front of the others. -/
theorem token {c : Char} {k : TokenKind} (comment : c = '/' → cs.head? ≠ some '/' ∧ cs.head? ≠ some '*')
    (line : isLineEnd c = false) (space : isSpace c = false)
    (scan : ∀ n place, cs.length < n → ∃ place',
      scanToken n c ⟨c :: cs, place⟩ = .ok (k, ⟨rest, place'⟩))
    (shorter : rest.length ≤ cs.length) (later : Scans rest kinds) : Scans (c :: cs) (k :: kinds) := by
  intro n m newline place found turns enough
  rw [List.length_cons] at turns enough
  obtain ⟨m, rfl⟩ := Nat.exists_eq_add_one.2 (Nat.zero_lt_of_lt enough)
  obtain ⟨n, rfl⟩ := Nat.exists_eq_add_one.2 (Nat.zero_lt_of_lt turns)
  have stays : skipTrivia (m + 1) newline ⟨c :: cs, place⟩ = .ok (newline, ⟨c :: cs, place⟩) := by
    unfold skipTrivia
    split
    · next none => cases none
    · next slashes =>
      cases slashes
      exact absurd rfl (comment rfl).1
    · next star =>
      cases star
      exact absurd rfl (comment rfl).2
    · next first =>
      cases (List.cons.inj first).1
      rw [if_neg (by rw [line]; exact Bool.false_ne_true), if_neg (by rw [space]; exact Bool.false_ne_true)]
  obtain ⟨place', scanned⟩ := scan (n + 1 + 1) place (by omega)
  obtain ⟨tokens, ends, same⟩ := later n (n + 1) false place' (⟨k, place, newline⟩ :: found)
    (by omega) (by omega)
  refine ⟨⟨k, place, newline⟩ :: tokens, ?_, congrArg (k :: ·) same⟩
  rw [stays, ← scanAll_succ] at *
  rw [List.reverse_cons, List.append_assoc, List.singleton_append] at ends
  simp only [scanFrom, scanned, ends]

/-! ## Punctuators -/

/-- The punctuators of lists and records. They stand for themselves, whatever follows. -/
def bracket? : Char → Option Punct
  | '[' => some .openBracket
  | ']' => some .closeBracket
  | '\x7b' => some .openBrace
  | '\x7d' => some .closeBrace
  | ',' => some .comma
  | ':' => some .colon
  | _ => none

/-- A bracket is a token whatever stands behind it. -/
theorem punct {c : Char} {mark : Punct} (bracket : bracket? c = some mark) (later : Scans cs kinds) :
    Scans (c :: cs) (.punct mark :: kinds) := by
  have names : isNameStart '[' = false ∧ isNameStart ']' = false ∧ isNameStart '\x7b' = false ∧
      isNameStart '\x7d' = false ∧ isNameStart ',' = false ∧ isNameStart ':' = false := by decide +kernel
  have scan : ∀ n place, ∃ place', scanToken n c ⟨c :: cs, place⟩ = .ok (.punct mark, ⟨cs, place'⟩) := by
    intro n place
    refine ⟨place.next c, ?_⟩
    unfold bracket? at bracket
    split at bracket
    all_goals cases bracket
    all_goals
      simp only [scanToken, names]
      rfl
  unfold bracket? at bracket
  have apart : c ≠ '/' ∧ isLineEnd c = false ∧ isSpace c = false := by
    split at bracket
    case h_7 => cases bracket
    all_goals decide
  exact token (fun slash => absurd slash apart.1) apart.2.1 apart.2.2 (fun n place _ => scan n place) (Nat.le_refl _)
    later

/-! ## Words -/

/-- The token of a word. -/
def wordKind (word : String) : TokenKind :=
  match Keyword.ofSpelling? word with
  | some keyword => .keyword keyword
  | none => .identifier word

/-- A word, up to where it does not go on. -/
theorem word {c : Char} {more : List Char} (start : isNameStart c = true)
    (parts : ∀ d ∈ c :: more, isWordPart d = true) (stops : StopsWord rest) (later : Scans rest kinds) :
    Scans (c :: more ++ rest) (wordKind (String.ofList (c :: more)) :: kinds) := by
  have stop : rest.takeWhile isWordPart = [] ∧ rest.dropWhile isWordPart = rest := by
    cases rest with
    | nil => exact ⟨rfl, rfl⟩
    | cons x rest => simp [stops x rfl]
  have taken : (c :: more ++ rest).takeWhile isWordPart = c :: more := by
    rw [List.takeWhile_append_of_pos parts, stop.1, List.append_nil]
  have left : (c :: more ++ rest).dropWhile isWordPart = rest := by
    rw [List.dropWhile_append_of_pos parts, stop.2]
  have first : isWordPart c = true := parts c (List.mem_cons_self ..)
  have slash : c ≠ '/' := by
    rintro rfl
    exact absurd first (by decide +kernel)
  have blank : ¬ (isLineEnd c = true ∨ isSpace c = true) := fun blank =>
    absurd first (by rw [isWordPart_of_blank blank]; nofun)
  rw [not_or, Bool.not_eq_true, Bool.not_eq_true] at blank
  refine token (fun same => absurd same slash) blank.1 blank.2 (fun n place _ => ?_) (by simp) later
  refine ⟨place.advance (c :: more), ?_⟩
  show (if isNameStart c then Except.ok (scanWord ⟨c :: more ++ rest, place⟩) else _) = _
  rw [if_pos start]
  unfold scanWord Reader.skipWhile
  dsimp only
  rw [taken, left]
  rfl

/-- A reserved word begins like a name and goes on like one. -/
theorem spelling_cons (k : Keyword) : ∃ c more, k.spelling.toList = c :: more ∧ isNameStart c = true ∧
    (c :: more).all isWordPart = true ∧ wordKind k.spelling = .keyword k := by
  have spelled : ∀ k ∈ Keyword.all, k.spelling.toList.head?.any isNameStart = true ∧
      k.spelling.toList.all isWordPart = true ∧ Keyword.ofSpelling? k.spelling = some k := by decide +kernel
  obtain ⟨start, parts, known⟩ := spelled k (by cases k <;> decide)
  cases chars : k.spelling.toList with
  | nil =>
    rw [chars] at start
    cases start
  | cons c more =>
    rw [chars] at start parts
    exact ⟨c, more, rfl, start, parts, by rw [wordKind, known]⟩

/-- A reserved word, up to where no word goes on. -/
theorem keyword (k : Keyword) (stops : StopsWord rest) (later : Scans rest kinds) :
    Scans (k.spelling.toList ++ rest) (.keyword k :: kinds) := by
  obtain ⟨c, more, chars, start, parts, known⟩ := spelling_cons k
  have scans := later.word start (List.all_eq_true.1 parts) stops
  rwa [← chars, String.ofList_toList, known] at scans

/-! ## Strings -/

/-- A character of a string literal stands for itself, or for what follows a backslash. -/
theorem escapeChar_scanned (c : Char) :
    (escapeChar c = [c] ∧ c ≠ '"' ∧ c ≠ '\\' ∧ c ≠ '\n' ∧ c ≠ '\r') ∨
      ∃ more, escapeChar c = '\\' :: more ∧ ∀ tail place, ∃ place',
        scanEscape ⟨more ++ tail, place⟩ = .ok (some c, ⟨tail, place'⟩) := by
  unfold escapeChar
  split
  case h_8 quote backslash newline return_ _ _ _ =>
    by_cases control : c.toNat < 0x20
    · right
      rw [if_pos control]
      refine ⟨_, rfl, fun tail place => ?_⟩
      have digit : ∀ n < 16, Number.digitValue? 16 (hexDigit n) = some n := by decide
      have code : ((0 * 16 + 0) * 16 + 0) * 16 + c.toNat / 16 = c.toNat / 16 := by omega
      have whole : c.toNat / 16 * 16 + c.toNat % 16 = c.toNat := by omega
      have valid : c.toNat.isValidChar := Or.inl (by omega)
      refine ⟨place.advance ['u', '0', '0', hexDigit (c.toNat / 16), hexDigit (c.toNat % 16)], ?_⟩
      show escapedCode place (scanHex place 4 0 ⟨'0' :: '0' :: hexDigit (c.toNat / 16) ::
        hexDigit (c.toNat % 16) :: tail, place.next 'u'⟩) = _
      have zero : Number.digitValue? 16 '0' = some 0 := digit 0 (by decide)
      simp only [scanHex, Reader.next?, zero, digit _ (show c.toNat / 16 < 16 by omega),
        digit _ (show c.toNat % 16 < 16 by omega), code, whole, escapedCode, charOfCode?, if_pos valid,
        Char.ofNat_toNat, Position.advance_cons, Position.advance_nil]
    · left
      rw [if_neg control]
      exact ⟨rfl, quote, backslash, newline, return_⟩
  all_goals
    right
    exact ⟨_, rfl, fun tail place => ⟨_, rfl⟩⟩

/-- The rest of a literal is scanned up to its closing quote. -/
theorem scanString_escaped (start : Position) (cs tail : List Char) : ∀ {n : Nat} (out : List Char)
    (place : Position), (cs.flatMap escapeChar).length < n → ∃ place',
      scanString '"' start n out ⟨cs.flatMap escapeChar ++ '"' :: tail, place⟩ =
        .ok (.string (String.ofList (out.reverse ++ cs)), ⟨tail, place'⟩) := by
  induction cs with
  | nil =>
    intro n out place enough
    obtain ⟨n, rfl⟩ := Nat.exists_eq_add_one.2 enough
    refine ⟨place.next '"', ?_⟩
    rw [List.append_nil]
    rfl
  | cons c cs ih =>
    intro n out place enough
    rw [List.flatMap_cons, List.length_append] at enough
    obtain ⟨n, rfl⟩ := Nat.exists_eq_add_one.2 (Nat.zero_lt_of_lt enough)
    have text : out.reverse ++ c :: cs = (c :: out).reverse ++ cs := by
      rw [List.reverse_cons, List.append_assoc, List.singleton_append]
    rw [text, List.flatMap_cons, List.append_assoc]
    -- either the character stands for itself, or it is written as an escape that is scanned back
    rcases escapeChar_scanned c with ⟨plain, quote, backslash, newline, return_⟩ | ⟨more, escaped, scans⟩
    · rw [plain, List.length_singleton] at enough
      obtain ⟨place', scanned⟩ := ih (c :: out) (place.next c) (n := n) (by omega)
      refine ⟨place', ?_⟩
      rw [← scanned, plain, List.singleton_append, scanString, Reader.next?]
      simp only [newline, return_, quote, backslash, decide_false, Bool.or_self, Bool.false_eq_true, if_false]
    · rw [escaped, List.length_cons] at enough
      obtain ⟨place₁, read⟩ := scans (cs.flatMap escapeChar ++ '"' :: tail) (place.next '\\')
      obtain ⟨place', scanned⟩ := ih (c :: out) place₁ (n := n) (by omega)
      refine ⟨place', ?_⟩
      rw [← scanned, escaped, List.cons_append, scanString, Reader.next?]
      dsimp only
      rw [if_neg (by decide), if_neg (by decide), if_pos rfl, read]
      rfl

/-- A quoted text is read back as the text. -/
theorem string (text : String) (later : Scans rest kinds) :
    Scans ((quote text).toList ++ rest) (.string text :: kinds) := by
  have chars : (quote text).toList ++ rest =
      '"' :: (text.toList.flatMap escapeChar ++ '"' :: rest) := by
    simp [quote, quoteChars]
  have notStart : isNameStart '"' = false := by decide +kernel
  rw [chars]
  have noSlash : '"' ≠ '/' := by decide
  refine token (absurd · noSlash) (by decide) (by decide) (fun n place enough => ?_) ?_ later
  · rw [List.length_append] at enough
    obtain ⟨place', scanned⟩ := scanString_escaped place text.toList rest [] (place.next '"') (n := n) (by omega)
    refine ⟨place', ?_⟩
    rw [List.reverse_nil, List.nil_append, String.ofList_toList] at scanned
    rw [← scanned]
    simp only [scanToken, notStart]
    rfl
  · rw [List.length_append, List.length_cons]
    omega

end Scans

/-- A text whose kinds of tokens are known is split into such tokens. -/
theorem Scans.tokenize {text : String} {kinds : List TokenKind} (scans : Scans text.toList kinds) :
    ∃ tokens, BindScript.tokenize text = .ok tokens ∧ tokens.map (·.kind) = kinds := by
  obtain ⟨tokens, ends, same⟩ := scans text.toList.length (text.toList.length + 1) false Position.start []
    (Nat.le_refl _) (Nat.lt_succ_self _)
  exact ⟨tokens, ends, same⟩

end BindScript.Lexer
