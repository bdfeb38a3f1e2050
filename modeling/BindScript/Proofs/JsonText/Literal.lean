import BindScript.JsonText.Document

/-!
# String literals read back

A text written as a string literal is read as that text (`parseString?_quote`): what `escapeChar` writes for
a character is what `escape` reads as that character, and nothing else in a literal is a quote or a backslash.
-/

namespace BindScript.JsonText

/-! ## One character -/

/-- What follows the backslash of an escape is read as the character. -/
def EscapeOf (c : Char) (escaped : List Char) : Prop :=
  ∀ rest line column, ∃ cursor,
    escape false ⟨escaped ++ rest, line, column⟩ = .ok c cursor ∧ cursor.rest = rest

theorem hexFour?_control : ∀ n < 32,
    hexFour? ['0', '0', hexDigit (n / 16), hexDigit (n % 16)] = some n := by
  decide

theorem hexDigit_plain : ∀ n < 16, hexDigit n ≠ '"' ∧ hexDigit n ≠ '\\' := by
  decide

theorem get_bind {α : Type} (next : Cursor → Read α) (c : Cursor) : (get >>= next) c = next c c :=
  rfl

/-- The four digits of an escape are taken as one number. -/
theorem hexEscape_of {a b c d : Char} {n : Nat} (value : hexFour? [a, b, c, d] = some n)
    (rest : List Char) (line column : Nat) :
    hexEscape ⟨a :: b :: c :: d :: rest, line, column⟩ = .ok n ⟨rest, line, column + 4⟩ := by
  have wide : ¬ [a, b, c, d].foldl (fun size c => size + c.utf8Size) 0 < 4 := by
    simp only [List.foldl_cons, List.foldl_nil]
    have := a.utf8Size_pos
    have := b.utf8Size_pos
    have := c.utf8Size_pos
    have := d.utf8Size_pos
    omega
  unfold hexEscape
  rw [get_bind]
  split
  · next narrow => exact absurd narrow wide
  · dsimp only [List.take]
    rw [value]
    rfl

/-- The digits of a control character are those of the character itself, and not of half of a pair. -/
theorem escapeOf_control {c : Char} (control : c.toNat < 32) :
    EscapeOf c ['u', '0', '0', hexDigit (c.toNat / 16), hexDigit (c.toNat % 16)] := by
  intro rest line column
  refine ⟨⟨rest, line, column + 1 + 4⟩, ?_, rfl⟩
  have digits := hexEscape_of (hexFour?_control c.toNat control) rest line (column + 1)
  have low : ¬ (0xdc00 ≤ c.toNat) := by omega
  have plain : c.toNat < 0xd800 := by omega
  have char : Char.ofNat c.toNat = c := Char.ofNat_toNat c
  show unicodeEscape false ⟨'0' :: '0' :: hexDigit (c.toNat / 16) :: hexDigit (c.toNat % 16) :: rest,
    line, column + 1⟩ = _
  simp only [unicodeEscape, Bind.bind, EStateM.bind, digits]
  simp only [Bool.false_eq_true, if_false, low, plain, decide_false, decide_true, Bool.false_and,
    Bool.true_or, if_true, char]
  rfl

/-- A character stands for itself, or for what follows a backslash. -/
theorem escapeChar_cases (c : Char) :
    (escapeChar c = [c] ∧ c ≠ '"' ∧ c ≠ '\\' ∧ ¬ c.toNat < 0x20) ∨
      ∃ x more, escapeChar c = '\\' :: x :: more ∧ EscapeOf c (x :: more) ∧
        ∀ y ∈ more, y ≠ '"' ∧ y ≠ '\\' := by
  unfold escapeChar
  split
  case h_8 quote backslash _ _ _ _ _ =>
    by_cases control : c.toNat < 0x20
    · right
      rw [if_pos control]
      refine ⟨_, _, rfl, escapeOf_control control, fun y mem => ?_⟩
      have high := hexDigit_plain (c.toNat / 16) (by omega)
      have low := hexDigit_plain (c.toNat % 16) (by omega)
      simp only [List.mem_cons, List.not_mem_nil, or_false] at mem
      rcases mem with rfl | rfl | rfl | rfl
      · decide
      · decide
      · exact high
      · exact low
    · left
      rw [if_neg control]
      exact ⟨rfl, quote, backslash, control⟩
  all_goals
    right
    exact ⟨_, [], rfl, fun rest line column => ⟨⟨rest, line, column + 1⟩, rfl, rfl⟩, nofun⟩

/-! ## A whole literal -/

theorem Cursor.advance_of_rest (c : Char) (rest : List Char) (line column : Nat) :
    ∃ line' column', (⟨c :: rest, line, column⟩ : Cursor).advance = ⟨rest, line', column'⟩ := by
  by_cases newline : c = '\n'
  · subst newline
    exact ⟨line + 1, 0, rfl⟩
  · exact ⟨line, column + c.utf8Size, by simp [Cursor.advance]⟩

/-- The rest of a literal is read up to its closing quote. Every character takes one turn of the reader. -/
theorem stringBody_escaped (cs : List Char) : ∀ {turns : Nat} (out tail : List Char) (line column : Nat),
    cs.length < turns → ∃ cursor,
      stringBody false turns out ⟨cs.flatMap escapeChar ++ '"' :: tail, line, column⟩ =
        .ok (String.ofList (out.reverse ++ cs)) cursor ∧ cursor.rest = tail := by
  induction cs with
  | nil =>
    intro turns out tail line column enough
    obtain ⟨turns, rfl⟩ := Nat.exists_eq_add_one.2 enough
    refine ⟨⟨tail, line, column + 1⟩, ?_, rfl⟩
    rw [List.append_nil]
    rfl
  | cons c cs ih =>
    intro turns out tail line column enough
    obtain ⟨turns, rfl⟩ := Nat.exists_eq_add_one.2 (Nat.zero_lt_of_lt enough)
    have enough : cs.length < turns := Nat.lt_of_succ_lt_succ enough
    have text : out.reverse ++ c :: cs = (c :: out).reverse ++ cs := by
      rw [List.reverse_cons, List.append_assoc, List.singleton_append]
    rw [text, List.flatMap_cons, List.append_assoc]
    rcases escapeChar_cases c with ⟨plain, quote, backslash, control⟩ | ⟨x, more, escaped, reads, -⟩
    · rw [plain, List.singleton_append]
      obtain ⟨line', column', moved⟩ := Cursor.advance_of_rest c (cs.flatMap escapeChar ++ '"' :: tail) line column
      obtain ⟨cursor, read, rest⟩ := ih (c :: out) tail line' column' enough
      refine ⟨cursor, ?_, rest⟩
      rw [← read, ← moved]
      show (if c = '"' then _ else if c = '\\' then _ else if c.toNat < 0x20 then _ else _ : Read String) _ = _
      rw [if_neg quote, if_neg backslash, if_neg control]
      rfl
    · rw [escaped]
      obtain ⟨⟨_, line', column'⟩, escape, rfl⟩ := reads (cs.flatMap escapeChar ++ '"' :: tail) line (column + 1)
      obtain ⟨cursor, read, rest⟩ := ih (c :: out) tail line' column' enough
      refine ⟨cursor, ?_, rest⟩
      rw [← read]
      show (do stringBody false turns ((← JsonText.escape false) :: out) : Read String)
        ⟨x :: more ++ (cs.flatMap escapeChar ++ '"' :: tail), line, column + 1⟩ = _
      simp only [Bind.bind, EStateM.bind, escape]

/-- Escaping makes no text shorter. -/
theorem length_le_escaped (cs : List Char) : cs.length ≤ (cs.flatMap escapeChar).length := by
  induction cs with
  | nil => exact Nat.zero_le _
  | cons c cs ih =>
    have nonempty : 1 ≤ (escapeChar c).length := by
      rcases escapeChar_cases c with ⟨plain, -⟩ | ⟨x, more, escaped, -⟩
      · exact Nat.le_of_eq (congrArg List.length plain).symm
      · rw [escaped, List.length_cons]
        exact Nat.le_add_left 1 _
    rw [List.flatMap_cons, List.length_append, List.length_cons]
    omega

/-- A literal is a document of its own. -/
theorem document_literal (cs : List Char) : ∃ cursor,
    document false maxDepth ⟨quoteChars cs, 1, 0⟩ = .ok (.string (String.ofList cs)) cursor ∧
      cursor.rest = [] := by
  have enough : cs.length < (cs.flatMap escapeChar ++ ['"']).length + 1 := by
    have shorter := length_le_escaped cs
    rw [List.length_append, List.length_singleton]
    omega
  obtain ⟨cursor, read, rest⟩ := stringBody_escaped cs [] [] 1 1 enough
  refine ⟨cursor, ?_, rest⟩
  rw [List.reverse_nil, List.nil_append] at read
  show (do return .string (← stringBody false ((cs.flatMap escapeChar ++ ['"']).length + 1) []) : Read Document)
    ⟨cs.flatMap escapeChar ++ ['"'], 1, 1⟩ = _
  simp only [Bind.bind, EStateM.bind, read]
  rfl

/-- **A text written as a literal is read as that text.** -/
theorem parseString?_quote (text : String) : parseString? (quote text) = some text := by
  obtain ⟨⟨rest, line, column⟩, read, rfl⟩ := document_literal text.toList
  have whole : readWhole (document false maxDepth) (quote text) = .ok (.string text) := by
    simp only [readWhole, quote, String.toList_ofList, Bind.bind, EStateM.bind, read]
    rw [String.ofList_toList]
    rfl
  simp only [parseString?, whole]

end BindScript.JsonText
