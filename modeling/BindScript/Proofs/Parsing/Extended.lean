import BindScript.Proofs.Parsing.Braces

/-!
# Scanners with more text after them

Each scanner is followed through two runs, the second one with more text and perhaps with more turns (`Extends`). A
scanner that stops at the end of a text stops at a semicolon, too, since no token goes on with one (`Neutral`). So both
runs give the same token, other than its place (`Token.unplaced`), and leave the same text apart from what comes after
it (`scanToken_extends`).
-/

namespace BindScript

/-- The piece, whatever place it has. -/
def TemplateChunk.unplaced : TemplateChunk → TemplateChunk
  | .text value => .text value
  | .hole source _ => .hole source .start

/-- The kind, whatever the places of substitutions are. -/
def TokenKind.unplaced : TokenKind → TokenKind
  | .template chunks => .template (chunks.map TemplateChunk.unplaced)
  | k => k

/-- The token, whatever its place is. -/
def Token.unplaced (t : Token) : Token :=
  ⟨t.kind.unplaced, .start, t.newlineBefore⟩

namespace Lexer

open Text Reader

/-- What may come after a text: nothing, or a semicolon and anything after it. -/
inductive Neutral : List Char → Prop
  | nothing : Neutral []
  | semicolon (rest : List Char) : Neutral (';' :: rest)

/-- What the first scan gives, the second one gives too, up to `f`, and it leaves more text. -/
def Extends {α β : Type} (f : α → β) (more : List Char) (scan scan' : Scan α) : Prop :=
  Ends (fun a r => ∃ a' r', scan' = .ok (a', r') ∧ f a' = f a ∧ r'.rest = r.rest ++ more) scan

namespace Extends

variable {α β : Type} {f : α → β} {more : List Char} {scan scan' : Scan α}

theorem refuse (cause : ParseCause) (place : Position) : Extends f more (Lexer.refuse cause place) scan' :=
  Ends.refuse cause place

theorem ok {a a' : α} {r r' : Reader} (same : f a' = f a) (rest : r'.rest = r.rest ++ more) :
    Extends f more (.ok (a, r)) (.ok (a', r')) :=
  Ends.ok ⟨a', r', rfl, same, rest⟩

theorem ite {condition : Prop} [Decidable condition] {scan₁ scan₂ : Scan α}
    (yes : condition → Extends f more scan scan₁) (no : ¬ condition → Extends f more scan' scan₂) :
    Extends f more (if condition then scan else scan') (if condition then scan₁ else scan₂) := by
  split
  · next holds => exact yes holds
  · next fails => exact no fails

end Extends

variable {more cs : List Char} {r r' : Reader}

namespace Neutral

/-- What stops at a semicolon stops at the end of the text. -/
theorem takeWhile (neutral : Neutral more) {p : Char → Bool} (stops : p ';' = false) (cs : List Char) :
    (cs ++ more).takeWhile p = cs.takeWhile p := by
  induction cs with
  | nil =>
    cases neutral with
    | nothing => rfl
    | semicolon rest => rw [List.nil_append, List.takeWhile_cons_of_neg (by simp [stops]), List.takeWhile_nil]
  | cons c cs ih => rw [List.cons_append, List.takeWhile_cons, List.takeWhile_cons, ih]

theorem dropWhile (neutral : Neutral more) {p : Char → Bool} (stops : p ';' = false) (cs : List Char) :
    (cs ++ more).dropWhile p = cs.dropWhile p ++ more := by
  induction cs with
  | nil =>
    cases neutral with
    | nothing => rfl
    | semicolon rest => rw [List.nil_append, List.dropWhile_cons_of_neg (by simp [stops])]; rfl
  | cons c cs ih =>
    rw [List.cons_append, List.dropWhile_cons, List.dropWhile_cons, ih]
    split
    · rfl
    · rfl

end Neutral

theorem skip_rest (same : r'.rest = r.rest ++ more) {n : Nat} (inside : n ≤ r.rest.length) :
    (r'.skip n).rest = (r.skip n).rest ++ more := by
  show r'.rest.drop n = r.rest.drop n ++ more
  rw [same, List.drop_append_of_le_length inside]

/-! ## Words and numbers -/

theorem scanWord_extends (neutral : Neutral more) (same : r'.rest = r.rest ++ more) :
    Extends id more (.ok (scanWord r)) (.ok (scanWord r')) := by
  have stops : isWordPart ';' = false := by decide +kernel
  refine .ok ?_ ?_
  · show (scanWord r').1 = (scanWord r).1
    unfold scanWord
    rw [same, neutral.takeWhile stops]
  · show r'.rest.dropWhile isWordPart = r.rest.dropWhile isWordPart ++ more
    rw [same, neutral.dropWhile stops]

/-- What follows the text is neutral, so a number that ends there ends in the longer text, too. -/
theorem endNumber_extends (neutral : Neutral more) (same : r'.rest = r.rest ++ more) (start start' : Position)
    (raw : List Char) (value : Float) :
    Extends id more (endNumber start raw value r) (endNumber start' raw value r') := by
  have stops : isNameStart ';' = false := by decide +kernel
  unfold endNumber
  cases rest : r.rest with
  | nil =>
    rw [rest, List.nil_append] at same
    have kept : r'.rest = r.rest ++ more := by rw [rest, same, List.nil_append]
    cases neutral with
    | nothing =>
      rw [same]
      exact .ok rfl kept
    | semicolon after =>
      rw [same]
      dsimp only
      rw [if_neg (by rw [stops]; decide)]
      exact .ok rfl kept
  | cons c cs =>
    have kept := same
    rw [rest, List.cons_append] at same
    rw [same]
    exact .ite (fun _ => .refuse _ _) fun _ => .ok rfl kept

/-- The mark of the radix stands in the text itself. -/
theorem scanRadix_extends (neutral : Neutral more) (same : r'.rest = r.rest ++ more) (radix : Nat)
    (marked : 2 ≤ r.rest.length) : Extends id more (scanRadix radix r) (scanRadix radix r') := by
  have stops : (fun c : Char => c.isAlphanum || c = '_') ';' = false := by decide
  have digits := skip_rest same marked
  have raw : (r'.skip 2).rest.takeWhile (fun c : Char => c.isAlphanum || c = '_') =
      (r.skip 2).rest.takeWhile (fun c : Char => c.isAlphanum || c = '_') := by
    rw [digits, neutral.takeWhile stops]
  unfold scanRadix
  dsimp only
  rw [raw]
  refine .ite (fun _ => .refuse _ _) fun _ => ?_
  split
  · refine endNumber_extends neutral ?_ _ _ _ _
    show (r'.skip 2).rest.dropWhile _ = (r.skip 2).rest.dropWhile _ ++ more
    rw [digits, neutral.dropWhile stops]
  · exact .refuse _ _

/-- A mark alone is no exponent, and another character is none either. -/
theorem scanExponent_cons (e : Char) (cs : List Char) :
    (¬ (e = 'e' ∨ e = 'E') ∧ ∀ cs, scanExponent (e :: cs) = ([], 0, true)) ∨
      ∃ sign ds, cs = sign ++ ds ∧ ∀ more, Neutral more → scanExponent (e :: (cs ++ more)) =
        ('e' :: sign ++ ds.takeWhile isDigitOrSeparator,
          1 + sign.length + (ds.takeWhile isDigitOrSeparator).length, !(ds.takeWhile isDigitOrSeparator).isEmpty) := by
  have stops : isDigitOrSeparator ';' = false := by decide
  by_cases mark : e = 'e' ∨ e = 'E'
  · right
    have exponent : ∀ cs, scanExponent (e :: cs) = scanExponent ('e' :: cs) := by
      intro cs
      rcases mark with rfl | rfl
      · rfl
      · rfl
    have unsigned : ∀ c ds, c ≠ '+' → c ≠ '-' → scanExponent ('e' :: c :: ds) =
        ('e' :: (c :: ds).takeWhile isDigitOrSeparator, 1 + ((c :: ds).takeWhile isDigitOrSeparator).length,
          !((c :: ds).takeWhile isDigitOrSeparator).isEmpty) := by
      intro c ds plus minus
      unfold scanExponent
      simp only [decide_true, Bool.true_or, if_true]
      split
      · next same => exact absurd (List.cons.inj same).1 plus
      · next same => exact absurd (List.cons.inj same).1 minus
      · simp
    cases cs with
    | nil =>
      refine ⟨[], [], rfl, fun more neutral => ?_⟩
      rw [exponent]
      cases neutral with
      | nothing => rfl
      | semicolon rest =>
        rw [List.nil_append, unsigned _ _ (by decide) (by decide), List.takeWhile_cons_of_neg (by decide)]
        rfl
    | cons c ds =>
      by_cases plus : c = '+'
      · subst plus
        refine ⟨['+'], ds, rfl, fun more neutral => ?_⟩
        rw [exponent, ← neutral.takeWhile stops ds]
        rfl
      by_cases minus : c = '-'
      · subst minus
        refine ⟨['-'], ds, rfl, fun more neutral => ?_⟩
        rw [exponent, ← neutral.takeWhile stops ds]
        rfl
      refine ⟨[], c :: ds, rfl, fun more neutral => ?_⟩
      rw [exponent, List.cons_append, unsigned c _ plus minus, ← List.cons_append, neutral.takeWhile stops]
      simp
  · refine .inl ⟨mark, fun cs => ?_⟩
    unfold scanExponent
    dsimp only
    rw [if_neg (by simpa using mark)]

/-- An exponent that would need a digit from behind the text is none in either of them. -/
theorem scanExponent_append (neutral : Neutral more) (cs : List Char) :
    scanExponent (cs ++ more) = scanExponent cs ∧ (scanExponent cs).2.1 ≤ cs.length := by
  cases cs with
  | nil =>
    cases neutral with
    | nothing => exact ⟨rfl, Nat.le_refl 0⟩
    | semicolon rest => exact ⟨rfl, Nat.le_refl 0⟩
  | cons e cs =>
    rcases scanExponent_cons e cs with ⟨-, none⟩ | ⟨sign, ds, rfl, exponent⟩
    · rw [List.cons_append, none, none]
      exact ⟨rfl, Nat.zero_le _⟩
    · have alone := exponent [] .nothing
      rw [List.append_nil] at alone
      rw [List.cons_append, exponent more neutral, alone]
      refine ⟨rfl, ?_⟩
      have inside : (ds.takeWhile isDigitOrSeparator).length ≤ ds.length := (List.takeWhile_prefix _).length_le
      simp only [List.length_cons, List.length_append]
      omega

/-- The dot and the digits after it, if there is a dot. -/
def fraction : List Char → List Char
  | '.' :: cs => '.' :: cs.takeWhile isDigitOrSeparator
  | _ => []

/-- So it is with the digits of a fraction. -/
theorem fraction_append (neutral : Neutral more) (ds : List Char) :
    fraction (ds ++ more) = fraction ds ∧ (fraction ds).length ≤ ds.length := by
  have other : ∀ c cs, c ≠ '.' → fraction (c :: cs) = [] := by
    intro c cs dot
    unfold fraction
    split
    · next same => exact absurd (List.cons.inj same).1 dot
    · rfl
  cases ds with
  | nil =>
    cases neutral with
    | nothing => exact ⟨rfl, Nat.le_refl 0⟩
    | semicolon after => exact ⟨rfl, Nat.le_refl 0⟩
  | cons d ds =>
    by_cases dot : d = '.'
    · subst dot
      refine ⟨?_, Nat.succ_le_succ (List.takeWhile_prefix _).length_le⟩
      show '.' :: (ds ++ more).takeWhile isDigitOrSeparator = '.' :: ds.takeWhile isDigitOrSeparator
      rw [neutral.takeWhile (by decide)]
    · rw [List.cons_append, other _ _ dot, other _ _ dot]
      exact ⟨rfl, Nat.zero_le _⟩

theorem scanDecimal_eq (r : Reader) : scanDecimal r =
    let whole := r.rest.takeWhile isDigitOrSeparator
    let tail := fraction (r.rest.drop whole.length)
    let exponent := scanExponent ((r.rest.drop whole.length).drop tail.length)
    let raw := whole ++ tail ++ exponent.1
    if !exponent.2.2 || !separatorsFit none raw then refuse (.invalidNumber (String.ofList raw)) r.place
    else endNumber r.place raw (Decimal.literalToFloat (withoutSeparators raw))
      (r.skip (whole.length + tail.length + exponent.2.1)) :=
  rfl

/-- Whole part, fraction and exponent are all found in the text itself. -/
theorem scanDecimal_extends (neutral : Neutral more) (same : r'.rest = r.rest ++ more) :
    Extends id more (scanDecimal r) (scanDecimal r') := by
  have stops : isDigitOrSeparator ';' = false := by decide
  have wholeLength : (r.rest.takeWhile isDigitOrSeparator).length ≤ r.rest.length :=
    (List.takeWhile_prefix _).length_le
  rw [scanDecimal_eq, scanDecimal_eq]
  dsimp only
  -- the whole part, the fraction and the exponent are the same, one after the other
  rw [same, neutral.takeWhile stops, List.drop_append_of_le_length wholeLength]
  generalize r.rest.takeWhile isDigitOrSeparator = whole at wholeLength
  have left : (r.rest.drop whole.length).length = r.rest.length - whole.length := List.length_drop
  generalize r.rest.drop whole.length = ds at left
  obtain ⟨tail, tailLength⟩ := fraction_append neutral ds
  rw [tail, List.drop_append_of_le_length tailLength]
  obtain ⟨exponent, exponentLength⟩ := scanExponent_append neutral (ds.drop (fraction ds).length)
  rw [exponent]
  rw [List.length_drop] at exponentLength
  refine .ite (fun _ => .refuse _ _) fun _ => endNumber_extends neutral (skip_rest same ?_) _ _ _ _
  omega

/-- The mark of the radix is the same, and lies in the text. -/
theorem radixLiteral?_append (neutral : Neutral more) (cs : List Char) :
    (Number.radixLiteral? cs = none ∧ Number.radixLiteral? (cs ++ more) = none) ∨
      ∃ radix digits digits', Number.radixLiteral? cs = some (radix, digits) ∧
        Number.radixLiteral? (cs ++ more) = some (radix, digits') ∧ 2 ≤ cs.length := by
  have other : ∀ c cs, c ≠ '0' → Number.radixLiteral? (c :: cs) = none := by
    intro c cs zero
    unfold Number.radixLiteral?
    split
    · next same => exact absurd (List.cons.inj same).1 zero
    · rfl
  match cs with
  | [] =>
    cases neutral with
    | nothing => exact .inl ⟨rfl, rfl⟩
    | semicolon after => exact .inl ⟨rfl, rfl⟩
  | [c] =>
    by_cases zero : c = '0'
    · subst zero
      cases neutral with
      | nothing => exact .inl ⟨rfl, rfl⟩
      | semicolon after => exact .inl ⟨rfl, rfl⟩
    · exact .inl ⟨other _ _ zero, other _ _ zero⟩
  | c :: mark :: ds =>
    by_cases zero : c = '0'
    · subst zero
      have marked (ds : List Char) :
          Number.radixLiteral? ('0' :: mark :: ds) = (Number.radixMark? mark).map (·, ds) := rfl
      rw [List.cons_append, List.cons_append, marked, marked]
      cases Number.radixMark? mark with
      | none => exact .inl ⟨rfl, rfl⟩
      | some radix => exact .inr ⟨radix, ds, ds ++ more, rfl, rfl, Nat.le_add_left 2 _⟩
    · exact .inl ⟨other _ _ zero, other _ _ zero⟩

theorem scanNumber_extends (neutral : Neutral more) (same : r'.rest = r.rest ++ more) :
    Extends id more (scanNumber r) (scanNumber r') := by
  unfold scanNumber
  rw [same]
  rcases radixLiteral?_append neutral r.rest with ⟨none, none'⟩ | ⟨radix, _, _, some, some', marked⟩
  · rw [none, none']
    exact scanDecimal_extends neutral same
  · rw [some, some']
    exact scanRadix_extends neutral same radix marked

/-! ## Escapes and strings -/

/-- What is read of the next character. -/
theorem next?_extends (same : r'.rest = r.rest ++ more) {c : Char} {s : Reader} (read : r.next? = some (c, s)) :
    ∃ s', r'.next? = some (c, s') ∧ s'.rest = s.rest ++ more := by
  unfold next? at read
  split at read
  · cases read
  · next rest =>
    cases read
    rw [rest, List.cons_append] at same
    exact ⟨_, next?_of_rest same, rfl⟩

/-- By recursion on the digits that are left, all of which stand in the text itself. -/
theorem scanHex_extends (place place' : Position) (count code : Nat) :
    ∀ {r r' : Reader}, r'.rest = r.rest ++ more →
      Extends id more (scanHex place count code r) (scanHex place' count code r') := by
  induction count generalizing code with
  | zero => exact fun same => .ok rfl same
  | succ count ih =>
    intro r r' same
    unfold scanHex
    cases read : r.next? with
    | none => exact .refuse _ _
    | some found =>
      obtain ⟨c, s⟩ := found
      obtain ⟨s', read', later⟩ := next?_extends same read
      rw [read']
      dsimp only
      split
      · exact ih _ later
      · exact .refuse _ _

/-- The braces have to be closed in the text itself. -/
theorem scanBracedHex_extends (place place' : Position) (left : Nat) (seen : Bool) (code : Nat) :
    ∀ {r r' : Reader}, r'.rest = r.rest ++ more →
      Extends id more (scanBracedHex place left seen code r) (scanBracedHex place' left seen code r') := by
  induction left generalizing seen code with
  | zero =>
    intro r r' same
    unfold scanBracedHex
    cases read : r.next? with
    | none => exact .refuse _ _
    | some found =>
      obtain ⟨c, s⟩ := found
      obtain ⟨s', read', later⟩ := next?_extends same read
      rw [read']
      exact .ite (fun _ => .ok rfl later) fun _ => .refuse _ _
  | succ left ih =>
    intro r r' same
    unfold scanBracedHex
    cases read : r.next? with
    | none => exact .refuse _ _
    | some found =>
      obtain ⟨c, s⟩ := found
      obtain ⟨s', read', later⟩ := next?_extends same read
      rw [read']
      refine .ite (fun _ => .ok rfl later) fun _ => ?_
      cases Number.digitValue? 16 c with
      | none => exact .refuse _ _
      | some d => exact ih _ _ later

theorem escapedCode_extends {place place' : Position} {scan scan' : Except ParseIssue (Nat × Reader)}
    (extends_ : Extends id more scan scan') :
    Extends id more (escapedCode place scan) (escapedCode place' scan') := by
  cases scan with
  | error issue => exact Ends.error issue
  | ok found =>
    obtain ⟨code, s⟩ := found
    obtain ⟨_, s', rfl, ⟨⟩, later⟩ := extends_ code s rfl
    unfold escapedCode
    dsimp only
    split
    · exact .ok rfl later
    · exact .refuse _ _

/-- What is done at a character that one of the escapes looks for, or else, is done at the same one. -/
theorem lookahead_extends {α : Type} {mark : Char} (neutral : Neutral more) (same : r'.rest = r.rest ++ more)
    (apart : mark ≠ ';') {found found' others others' : Scan α}
    (here : ∀ cs, r.rest = mark :: cs → Extends id more found found') (other : Extends id more others others') :
    Extends id more (if r.rest.head? = some mark then found else others)
      (if r'.rest.head? = some mark then found' else others') := by
  rw [same]
  cases rest : r.rest with
  | nil =>
    have none : more.head? ≠ some mark := by
      cases neutral with
      | nothing => exact nofun
      | semicolon after => exact fun same => apart (Option.some.inj same).symm
    rw [List.nil_append, if_neg nofun, if_neg none]
    exact other
  | cons c cs =>
    rw [List.cons_append, List.head?_cons, List.head?_cons]
    refine .ite (fun same => ?_) fun _ => other
    exact here cs (by rw [rest, Option.some.inj same])

/-- A code is in braces, or it is of four digits. -/
theorem scanEscape_code {s : Reader} (read : r.next? = some ('u', s)) :
    scanEscape r = if s.rest.head? = some '\x7b' then escapedCode r.place (scanBracedHex r.place 6 false 0 (s.skip 1))
      else escapedCode r.place (scanHex r.place 4 0 s) := by
  unfold scanEscape
  rw [read]
  dsimp only
  split
  case h_8 =>
    split
    · next rest => rw [rest, List.head?_cons, if_pos rfl]
    · next other =>
      rw [if_neg]
      intro brace
      obtain ⟨cs, rest⟩ := List.head?_eq_some_iff.1 brace
      exact other cs rest
  all_goals simp_all

/-- A line that is broken by two characters is broken once. -/
theorem scanEscape_return {s : Reader} (read : r.next? = some ('\r', s)) :
    scanEscape r = if s.rest.head? = some '\n' then .ok (none, s.skip 1) else .ok (none, s) := by
  unfold scanEscape
  rw [read]
  dsimp only
  split
  case h_10 =>
    split
    · next rest => rw [rest, List.head?_cons, if_pos rfl]
    · next other =>
      rw [if_neg]
      intro feed
      obtain ⟨cs, rest⟩ := List.head?_eq_some_iff.1 feed
      exact other cs rest
  all_goals simp_all

/-- One case for each kind of escape. What a backslash needs after it stands in the text itself. -/
theorem scanEscape_extends (neutral : Neutral more) (same : r'.rest = r.rest ++ more) :
    Extends id more (scanEscape r) (scanEscape r') := by
  cases read : r.next? with
  | none =>
    unfold scanEscape
    rw [read]
    exact .refuse _ _
  | some found =>
    obtain ⟨c, s⟩ := found
    obtain ⟨s', read', later⟩ := next?_extends same read
    have one {c : Char} {cs : List Char} (rest : s.rest = c :: cs) : 1 ≤ s.rest.length := by
      rw [rest]
      exact Nat.le_add_left 1 _
    by_cases code : c = 'u'
    · subst code
      rw [scanEscape_code read, scanEscape_code read']
      refine lookahead_extends neutral later (by decide) (fun cs rest => ?_) ?_
      · exact escapedCode_extends (scanBracedHex_extends _ _ _ _ _ (skip_rest later (one rest)))
      · exact escapedCode_extends (scanHex_extends _ _ _ _ later)
    by_cases return_ : c = '\r'
    · subst return_
      rw [scanEscape_return read, scanEscape_return read']
      exact lookahead_extends neutral later (by decide) (fun cs rest => .ok rfl (skip_rest later (one rest)))
        (.ok rfl later)
    unfold scanEscape
    rw [read, read']
    dsimp only
    split
    case h_7 => exact escapedCode_extends (scanHex_extends _ _ _ _ later)
    case h_8 => exact absurd rfl code
    case h_10 => exact absurd rfl return_
    case h_11 =>
      cases rest : s.rest with
      | nil =>
        have kept := later
        rw [rest, List.nil_append] at later
        rw [later]
        cases neutral with
        | nothing => exact .ok rfl kept
        | semicolon after => exact .ok rfl kept
      | cons d ds =>
        have kept := later
        rw [rest, List.cons_append] at later
        rw [later]
        exact .ite (fun _ => .refuse _ _) fun _ => .ok rfl kept
    case h_12 => exact .ite (fun _ => .refuse _ _) fun _ => .ok rfl later
    all_goals exact .ok rfl later

/-- By induction on the turns left: the quote that ends the string stands in the text itself. -/
theorem scanString_extends (neutral : Neutral more) (quote : Char) (start start' : Position) {n n' : Nat}
    (le : n ≤ n') (out : List Char) (same : r'.rest = r.rest ++ more) :
    Extends id more (scanString quote start n out r) (scanString quote start' n' out r') := by
  induction n generalizing n' out r r' with
  | zero => exact .refuse _ _
  | succ n ih =>
    obtain ⟨n', rfl⟩ := Nat.exists_eq_add_one.2 (Nat.zero_lt_of_lt le)
    unfold scanString
    cases read : r.next? with
    | none => exact .refuse _ _
    | some found =>
      obtain ⟨c, s⟩ := found
      obtain ⟨s', read', later⟩ := next?_extends same read
      rw [read']
      refine .ite (fun _ => .refuse _ _) fun _ => .ite (fun _ => .ok rfl later) fun _ => .ite (fun _ => ?_) fun _ => ?_
      · have escape := scanEscape_extends neutral later
        cases scanned : scanEscape s with
        | error issue => exact Ends.error issue
        | ok found =>
          obtain ⟨escaped, t⟩ := found
          obtain ⟨_, t', scanned', ⟨⟩, after⟩ := escape escaped t scanned
          rw [scanned']
          exact ih (Nat.le_of_succ_le_succ le) _ after
      · exact ih (Nat.le_of_succ_le_succ le) _ later

/-! ## Templates -/

/-- The same for strings inside a substitution, whose text is taken over as it is. -/
theorem scanQuoted_extends (quote : Char) (start start' : Position) {n n' : Nat} (le : n ≤ n') (out : List Char)
    (same : r'.rest = r.rest ++ more) :
    Extends id more (scanQuoted quote start n out r) (scanQuoted quote start' n' out r') := by
  induction n generalizing n' out r r' with
  | zero => exact .refuse _ _
  | succ n ih =>
    obtain ⟨n', rfl⟩ := Nat.exists_eq_add_one.2 (Nat.zero_lt_of_lt le)
    have further := Nat.le_of_succ_le_succ le
    unfold scanQuoted
    cases read : r.next? with
    | none => exact .refuse _ _
    | some found =>
      obtain ⟨c, s⟩ := found
      obtain ⟨s', read', later⟩ := next?_extends same read
      rw [read']
      refine .ite (fun _ => ?_) fun _ => .ite (fun _ => .ok rfl later) fun _ => ih further _ later
      cases hidden : s.next? with
      | none =>
        -- nothing is left, so the quote is not closed
        refine Ends.imp (P := fun _ _ => False) (fun _ _ no => no.elim) ?_
        cases n with
        | zero => exact .refuse _ _
        | succ n =>
          dsimp only
          unfold scanQuoted
          rw [hidden]
          exact .refuse _ _
      | some found =>
        obtain ⟨d, t⟩ := found
        obtain ⟨t', hidden', after⟩ := next?_extends later hidden
        rw [hidden']
        exact ih further _ after

/-- Braces are counted alike, since the strings and templates between them end alike. -/
theorem scanHole_extends (start start' : Position) {n n' : Nat} (le : n ≤ n') (depth : Nat) (out : List Char)
    (same : r'.rest = r.rest ++ more) :
    Extends id more (scanHole start n depth out r) (scanHole start' n' depth out r') := by
  induction n generalizing n' depth out r r' with
  | zero => exact .refuse _ _
  | succ n ih =>
    obtain ⟨n', rfl⟩ := Nat.exists_eq_add_one.2 (Nat.zero_lt_of_lt le)
    have further := Nat.le_of_succ_le_succ le
    unfold scanHole
    cases read : r.next? with
    | none => exact .refuse _ _
    | some found =>
      obtain ⟨c, s⟩ := found
      obtain ⟨s', read', later⟩ := next?_extends same read
      rw [read']
      refine .ite (fun _ => ?_) fun _ => .ite (fun _ => ih further _ _ later) fun _ => .ite (fun _ => ?_) fun _ => ?_
      · cases depth with
        | zero => exact .ok rfl later
        | succ depth => exact ih further _ _ later
      · have quoted := scanQuoted_extends c start start' further (c :: out) later
        cases scanned : scanQuoted c start n (c :: out) s with
        | error issue => exact Ends.error issue
        | ok found =>
          obtain ⟨text, t⟩ := found
          obtain ⟨_, t', scanned', ⟨⟩, after⟩ := quoted text t scanned
          rw [scanned']
          exact ih further _ _ after
      · exact ih further _ _ later

/-- The pieces are the same, whatever places they have. -/
def SameChunks (chunks chunks' : List TemplateChunk) : Prop :=
  chunks'.map TemplateChunk.unplaced = chunks.map TemplateChunk.unplaced

theorem SameChunks.push {chunks chunks' : List TemplateChunk} (same : SameChunks chunks chunks') (out : List Char) :
    SameChunks (pushText chunks out) (pushText chunks' out) := by
  unfold pushText
  split
  · exact same
  · exact congrArg (TemplateChunk.text _ :: ·) same

theorem SameChunks.template {chunks chunks' : List TemplateChunk} (same : SameChunks chunks chunks') :
    TokenKind.unplaced (.template (if chunks'.reverse.isEmpty then [.text ""] else chunks'.reverse)) =
      TokenKind.unplaced (.template (if chunks.reverse.isEmpty then [.text ""] else chunks.reverse)) := by
  have reversed : chunks'.reverse.map TemplateChunk.unplaced = chunks.reverse.map TemplateChunk.unplaced := by
    rw [List.map_reverse, List.map_reverse, same]
  have empty : chunks'.reverse.isEmpty = chunks.reverse.isEmpty := by
    rw [← List.isEmpty_map (f := TemplateChunk.unplaced), reversed, List.isEmpty_map]
  rw [empty]
  split
  · rfl
  · exact congrArg TokenKind.template reversed

/-- A substitution begins here. -/
def OpensHole (c : Char) (rest : List Char) : Prop :=
  c = '$' ∧ ∃ cs, rest = '\x7b' :: cs

theorem Neutral.opensHole (neutral : Neutral more) {c : Char} : OpensHole c (cs ++ more) ↔ OpensHole c cs := by
  refine and_congr_right fun _ => ?_
  cases cs with
  | nil =>
    cases neutral with
    | nothing => rfl
    | semicolon after => simp
  | cons d ds => simp

/-- A substitution of a template is scanned to its brace, and the template goes on behind it. -/
theorem scanTemplate_hole (start : Position) (n : Nat) (chunks : List TemplateChunk) (out : List Char) {c : Char}
    {s : Reader} (read : r.next? = some (c, s)) (opens : OpensHole c s.rest) :
    (∀ issue, scanHole start n 0 [] (s.skip 1) = .error issue →
      scanTemplate start (n + 1) chunks out r = .error issue) ∧
    ∀ source t, scanHole start n 0 [] (s.skip 1) = .ok (source, t) → scanTemplate start (n + 1) chunks out r =
      scanTemplate start n (.hole source (s.skip 1).place :: pushText chunks out) [] t := by
  obtain ⟨rfl, cs, rest⟩ := opens
  have reads : scanTemplate start (n + 1) chunks out r = (scanHole start n 0 [] (s.skip 1)).bind fun hole =>
      scanTemplate start n (.hole hole.1 (s.skip 1).place :: pushText chunks out) [] hole.2 := by
    rw [scanTemplate, read]
    dsimp only
    rw [if_neg (by decide), if_neg (by decide), rest]
    cases scanHole start n 0 [] (s.skip 1) <;> rfl
  constructor
  · intro issue hole
    rw [reads, hole]
    rfl
  · intro source t hole
    rw [reads, hole]
    rfl

theorem scanTemplate_plain {start : Position} {n : Nat} {chunks : List TemplateChunk} {out : List Char} {c : Char}
    {s : Reader} (read : r.next? = some (c, s)) (quote : c ≠ '`') (backslash : c ≠ '\\')
    (other : ¬ OpensHole c s.rest) :
    scanTemplate start (n + 1) chunks out r = scanTemplate start n chunks (c :: out) s := by
  rw [scanTemplate, read]
  dsimp only
  rw [if_neg quote, if_neg backslash]
  split
  · next rest => exact absurd ⟨rfl, _, rest⟩ other
  · rfl

/-- By induction on the turns left. Places in the two texts may differ, so substitutions are compared without them. -/
theorem scanTemplate_extends (neutral : Neutral more) (start start' : Position) {n n' : Nat} (le : n ≤ n')
    {chunks chunks' : List TemplateChunk} (found : SameChunks chunks chunks') (out : List Char)
    (same : r'.rest = r.rest ++ more) :
    Extends TokenKind.unplaced more (scanTemplate start n chunks out r) (scanTemplate start' n' chunks' out r') := by
  induction n generalizing n' chunks chunks' out r r' with
  | zero => exact .refuse _ _
  | succ n ih =>
    obtain ⟨n', rfl⟩ := Nat.exists_eq_add_one.2 (Nat.zero_lt_of_lt le)
    have further := Nat.le_of_succ_le_succ le
    cases read : r.next? with
    | none =>
      unfold scanTemplate
      rw [read]
      exact .refuse _ _
    | some next =>
      obtain ⟨c, s⟩ := next
      obtain ⟨s', read', later⟩ := next?_extends same read
      by_cases hole : OpensHole c s.rest
      · have hole' : OpensHole c s'.rest := by
          rw [later]
          exact neutral.opensHole.2 hole
        obtain ⟨fails, reads⟩ := scanTemplate_hole start n chunks out read hole
        obtain ⟨-, reads'⟩ := scanTemplate_hole start' n' chunks' out read' hole'
        have inside : 1 ≤ s.rest.length := by
          obtain ⟨-, cs, rest⟩ := hole
          rw [rest]
          exact Nat.le_add_left 1 _
        have scans := scanHole_extends start start' further 0 [] (skip_rest later inside)
        cases scanned : scanHole start n 0 [] (s.skip 1) with
        | error issue =>
          rw [fails issue scanned]
          exact Ends.error issue
        | ok found' =>
          obtain ⟨source, t⟩ := found'
          obtain ⟨_, t', scanned', ⟨⟩, after⟩ := scans source t scanned
          rw [reads source t scanned, reads' _ t' scanned']
          refine ih further ?_ [] after
          exact congrArg (TemplateChunk.hole source .start :: ·) (found.push out)
      have hole' : ¬ OpensHole c s'.rest := by
        rw [later]
        exact fun opens => hole (neutral.opensHole.1 opens)
      by_cases quote : c = '`'
      · unfold scanTemplate
        rw [read, read']
        dsimp only
        rw [if_pos quote, if_pos quote]
        exact .ok (found.push out).template later
      by_cases backslash : c = '\\'
      · unfold scanTemplate
        rw [read, read']
        dsimp only
        rw [if_neg quote, if_neg quote, if_pos backslash, if_pos backslash]
        have escape := scanEscape_extends neutral later
        cases scanned : scanEscape s with
        | error issue => exact Ends.error issue
        | ok escaped =>
          obtain ⟨escaped, t⟩ := escaped
          obtain ⟨_, t', scanned', ⟨⟩, after⟩ := escape escaped t scanned
          rw [scanned']
          exact ih further found _ after
      · rw [scanTemplate_plain read quote backslash hole, scanTemplate_plain read' quote backslash hole']
        exact ih further found _ later

/-! ## Punctuators -/

/-- What holds no semicolon stands at the front of a text or not, whatever comes after the text. -/
theorem isPrefixOf_append (neutral : Neutral more) {spelling : List Char} (apart : ';' ∉ spelling) (cs : List Char) :
    spelling.isPrefixOf (cs ++ more) = spelling.isPrefixOf cs := by
  induction spelling generalizing cs with
  | nil => rw [List.isPrefixOf_nil_left, List.isPrefixOf_nil_left]
  | cons d spelling ih =>
    obtain ⟨first, others⟩ := not_or.1 (mt List.mem_cons.2 apart)
    cases cs with
    | nil =>
      cases neutral with
      | nothing => rfl
      | semicolon after =>
        show (d == ';' && _) = false
        rw [beq_false_of_ne (Ne.symm first), Bool.false_and]
    | cons c cs =>
      show (d == c && spelling.isPrefixOf (cs ++ more)) = (d == c && spelling.isPrefixOf cs)
      rw [ih others cs]

/-- A spelling fits the front of a text or not, whatever comes after the text. -/
theorem fits_append (neutral : Neutral more) {c : Char} (cs : List Char) (mark : Punct) :
    fits (c :: cs ++ more) mark = fits (c :: cs) mark := by
  have spelled : mark.spelling.isPrefixOf (c :: cs ++ more) = mark.spelling.isPrefixOf (c :: cs) := by
    by_cases semicolon : mark = .semicolon
    · subst semicolon
      rfl
    · refine isPrefixOf_append neutral ?_ _
      cases mark <;> first | exact absurd rfl semicolon | decide
  unfold fits
  rw [spelled]
  cases cs with
  | cons d ds =>
    -- what is asked of the third character alone
    cases ds with
    | cons e es => rfl
    | nil =>
      cases neutral with
      | nothing => rfl
      | semicolon after => rfl
  | nil =>
    cases stands : mark.spelling.isPrefixOf [c] with
    | false => rfl
    | true =>
      have short := (List.isPrefixOf_iff_prefix.1 stands).length_le
      have one : mark ≠ .questionDot := by
        rintro rfl
        exact absurd short (show ¬ 2 ≤ 1 by decide)
      simp [one]

/-- The longest punctuator is taken, and the neutral text does not lengthen it. -/
theorem scanPunct_extends (neutral : Neutral more) (same : r'.rest = r.rest ++ more) (some : r.rest ≠ []) :
    Extends id more (scanPunct r) (scanPunct r') := by
  have fitting : fits r'.rest = fits r.rest := by
    funext mark
    obtain ⟨c, cs, rest⟩ := List.exists_cons_of_ne_nil some
    rw [same, rest]
    exact fits_append neutral cs mark
  unfold scanPunct
  rw [fitting]
  cases found : Punct.longestFirst.find? (fits r.rest) with
  | none => exact .refuse _ _
  | some mark =>
    refine .ok rfl (skip_rest same ?_)
    have fit := List.find?_some found
    unfold fits at fit
    rw [Bool.and_eq_true] at fit
    exact (List.isPrefixOf_iff_prefix.1 fit.1).length_le

/-! ## Tokens -/

/-- A point starts a number if a digit follows it, which is none of the neutral text. -/
theorem startsNumber_append (neutral : Neutral more) (c : Char) (cs : List Char) :
    startsNumber (c :: cs ++ more) = startsNumber (c :: cs) := by
  have whole (c : Char) (cs : List Char) :
      startsNumber (c :: cs) = if c = '.' then (cs.head?.map Char.isDigit).getD false else c.isDigit := by
    unfold startsNumber
    split
    · next same =>
      cases same
      rfl
    · next other same =>
      cases same
      split
      · next dot =>
        subst dot
        cases cs with
        | nil => rfl
        | cons d ds => exact (other d ds rfl rfl).elim
      · rfl
    · next same => cases same
  rw [List.cons_append, whole, whole]
  cases cs with
  | cons d ds => rfl
  | nil =>
    cases neutral with
    | nothing => rfl
    | semicolon after => rfl

/-- By its first character, a token is scanned as one of four kinds. All of them are the same in the longer text. -/
theorem scanToken_extends (neutral : Neutral more) {n n' : Nat} (le : n ≤ n') {c : Char} {cs : List Char}
    (rest : r.rest = c :: cs) (same : r'.rest = r.rest ++ more) :
    Extends TokenKind.unplaced more (scanToken n c r) (scanToken n' c r') := by
  have some : r.rest ≠ [] := rest ▸ List.cons_ne_nil c cs
  have plain {scan scan' : Scan TokenKind} (extends_ : Extends id more scan scan') :
      Extends TokenKind.unplaced more scan scan' := by
    refine extends_.imp fun k s later => ?_
    obtain ⟨_, s', scanned, ⟨⟩, left⟩ := later
    exact ⟨_, s', scanned, rfl, left⟩
  have quoted : (r'.skip 1).rest = (r.skip 1).rest ++ more := skip_rest same (List.length_pos_iff.2 some)
  have starts : startsNumber r'.rest = startsNumber r.rest := by
    rw [same, rest]
    exact startsNumber_append neutral c cs
  unfold scanToken
  rw [starts]
  refine .ite (fun _ => plain (scanWord_extends neutral same)) fun _ => ?_
  refine .ite (fun _ => plain (scanNumber_extends neutral same)) fun _ => ?_
  refine .ite (fun _ => plain (scanString_extends neutral c _ _ le [] quoted)) fun _ => ?_
  refine .ite (fun _ => scanTemplate_extends neutral _ _ le rfl [] quoted) fun _ => ?_
  exact plain (scanPunct_extends neutral same some)

end Lexer

end BindScript
