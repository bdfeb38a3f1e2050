import BindScript.Proofs.Dependency.Watchable
import BindScript.Proofs.Parsing.LineBreaks
import BindScript.Proofs.Parsing.Separators

/-!
# Tokens as they are spelled

Names, reserved words, punctuators and strings that are written one after another, each as it is spelled and with
white space on both of its sides, are split into the same tokens again (`tokenize_of_writes`). Comments may stand
between the tokens too, if they are complete and there is white space on both sides of them: without it, the mark of a
comment could be taken for the end of a punctuator, or the other way round.

White space settles where a token ends. No word goes on with it (`isWordPart_of_blank`), and no punctuator, so that the
longest one that fits is the longest one that the spelling begins with (`fits_of_apart`), and that is the spelling
itself (`find?_longestFirst`). A string ends at its quote.
-/

namespace BindScript

namespace Lexer

open Text JsonText

variable {cs gap rest text : List Char} {k : TokenKind} {kinds : List TokenKind} {mark : Punct}

/-! ## Texts of tokens -/

/-- How a name, a reserved word, a punctuator or a string is written: as it is spelled, a string as in JSON. -/
inductive Spells : TokenKind → List Char → Prop
  | identifier {name : String} (word : isWord name = true) (free : Keyword.ofSpelling? name = none) :
    Spells (.identifier name) name.toList
  | keyword (word : Keyword) : Spells (.keyword word) word.spelling.toList
  | punct (mark : Punct) : Spells (.punct mark) mark.spelling
  | string (text : String) : Spells (.string text) (quote text).toList

/-- White space and complete comments, with white space at the end. -/
inductive Spacing : List Char → Prop
  | last {c : Char} (blank : isLineEnd c = true ∨ isSpace c = true) : Spacing [c]
  | blank {c : Char} {cs : List Char} (blank : isLineEnd c = true ∨ isSpace c = true) (later : Spacing cs) :
    Spacing (c :: cs)
  | line {text cs : List Char} (line : '\n' ∉ text) (later : Spacing ('\n' :: cs)) :
    Spacing ('/' :: '/' :: text ++ '\n' :: cs)
  | block {text cs : List Char} (first : ¬ ['*', '/'] <:+: text ++ ['*']) (later : Spacing cs) :
    Spacing ('/' :: '*' :: text ++ ['*', '/'] ++ cs)

/-- White space and complete comments, with white space at both ends. -/
def Separator (gap : List Char) : Prop :=
  Spacing gap ∧ ∃ c ∈ gap.head?, isLineEnd c = true ∨ isSpace c = true

/-- The text is tokens of these kinds with separators between them. -/
inductive Writes : List TokenKind → List Char → Prop
  | nothing : Writes [] []
  | single {k : TokenKind} {text : List Char} (spells : Spells k text) : Writes [k] text
  | more {k l : TokenKind} {kinds : List TokenKind} {text gap rest : List Char} (spells : Spells k text)
    (separates : Separator gap) (later : Writes (l :: kinds) rest) : Writes (k :: l :: kinds) (text ++ gap ++ rest)

/-! ## Separators -/

/-- A block comment ends at the first end of a comment. -/
theorem commentLength?_of_first (seen : Nat) (first : ¬ ['*', '/'] <:+: text ++ ['*']) (cs : List Char) :
    commentLength? seen (text ++ ['*', '/'] ++ cs) = some (seen + text.length + 2) := by
  induction text generalizing seen with
  | nil => rfl
  | cons c text ih =>
    rw [List.cons_append, List.infix_cons_iff, not_or] at first
    rw [List.cons_append, List.cons_append, commentLength?_cons, if_neg, ih _ first.2, List.length_cons]
    · congr 1
      omega
    · rintro ⟨rfl, slash⟩
      refine first.1 ?_
      cases text with
      | nil => cases slash
      | cons d text =>
        cases slash
        exact ⟨text ++ ['*'], rfl⟩

theorem ne_slash_of_blank {c : Char} (blank : isLineEnd c = true ∨ isSpace c = true) : c ≠ '/' := by
  rintro rfl
  exact absurd blank (by decide)

namespace Scans

theorem blank {c : Char} (blank : isLineEnd c = true ∨ isSpace c = true) (later : Scans cs kinds) :
    Scans (c :: cs) kinds := by
  refine later.passed [c] nofun fun m newline place => ?_
  rw [List.singleton_append, skipTrivia_other rfl (fun slash => ne_slash_of_blank blank slash.1)
    (fun slash => ne_slash_of_blank blank slash.1)]
  by_cases line : isLineEnd c = true
  · rw [if_pos line]
    exact ⟨_, _, rfl⟩
  · rw [if_neg line, if_pos (blank.resolve_left line)]
    exact ⟨_, _, rfl⟩

/-- Separators leave no token behind. -/
theorem spacing (spacing : Spacing gap) (later : Scans cs kinds) : Scans (gap ++ cs) kinds := by
  induction spacing with
  | last here => exact later.blank here
  | blank here _ ih => exact ih.blank here
  | @line text ds line _ ih =>
    rw [List.append_assoc]
    refine ih.passed _ nofun fun m newline place => ?_
    have within : ∀ c ∈ '/' :: '/' :: text, (c != '\n') = true := by
      refine List.forall_mem_cons.2 ⟨rfl, List.forall_mem_cons.2 ⟨rfl, fun c mem => ?_⟩⟩
      simpa using ne_of_mem_of_not_mem mem line
    have left : ('/' :: '/' :: text ++ ('\n' :: ds ++ cs)).dropWhile (fun c => c != '\n') = '\n' :: ds ++ cs := by
      rw [List.dropWhile_append_of_pos within]
      rfl
    rw [skipTrivia_line rfl, Reader.skipWhile]
    dsimp only
    rw [left]
    exact ⟨_, _, rfl⟩
  | @block text ds first _ ih =>
    rw [List.append_assoc]
    refine ih.passed _ nofun fun m newline place => ?_
    have ends := commentLength?_of_first 0 first (ds ++ cs)
    have left : ('/' :: '*' :: text ++ ['*', '/'] ++ (ds ++ cs)).drop (0 + text.length + 2 + 2) = ds ++ cs :=
      List.drop_left' (by simp)
    rw [(skipTrivia_block rfl).2 _ ends, Reader.skip]
    dsimp only
    rw [left]
    exact ⟨_, _, rfl⟩

end Scans

/-! ## Punctuators -/

/-- What comes after a token: nothing, or white space. -/
def StandsApart (rest : List Char) : Prop :=
  ∀ c ∈ rest.head?, isLineEnd c = true ∨ isSpace c = true

theorem stopsWord_of_apart (apart : StandsApart rest) : StopsWord rest :=
  fun c first => isWordPart_of_blank (apart c first)

theorem isDigit_of_blank {c : Char} (blank : isLineEnd c = true ∨ isSpace c = true) : c.isDigit = false := by
  have all : ∀ n ∈ blankCodes, (Char.ofNat n).isDigit = false := by decide
  have digit := all _ (toNat_mem_blankCodes blank)
  rwa [Char.ofNat_toNat] at digit

theorem mem_longestFirst (mark : Punct) : mark ∈ Punct.longestFirst := by
  cases mark <;> decide

theorem not_blank_of_mem_spelling (mark : Punct) {c : Char} (mem : c ∈ mark.spelling) :
    ¬ (isLineEnd c = true ∨ isSpace c = true) := by
  have all : ∀ mark ∈ Punct.longestFirst, (mark.spelling.all fun c => !(isLineEnd c || isSpace c)) = true := by
    decide +kernel
  simpa using List.all_eq_true.1 (all mark (mem_longestFirst mark)) c mem

/-- A spelling that is at the front of another one and what stands apart is at the front of the other one. -/
theorem isPrefixOf_append_of_apart (apart : StandsApart rest) (mark other : Punct) :
    other.spelling.isPrefixOf (mark.spelling ++ rest) = other.spelling.isPrefixOf mark.spelling := by
  rw [Bool.eq_iff_iff, List.isPrefixOf_iff_prefix, List.isPrefixOf_iff_prefix]
  refine ⟨fun front => ?_, fun front => front.trans (List.prefix_append ..)⟩
  rcases List.prefix_or_prefix_of_prefix front (List.prefix_append mark.spelling rest) with shorter | ⟨more, same⟩
  · exact shorter
  · -- what the spelling has more would begin with white space
    rw [← same, List.prefix_append_right_inj] at front
    cases more with
    | nil => exact ⟨[], by simpa using same.symm⟩
    | cons c more =>
      obtain ⟨tail, rfl⟩ := front
      have inside : c ∈ other.spelling := same ▸ List.mem_append_right _ (List.mem_cons_self ..)
      exact absurd (apart c rfl) (not_blank_of_mem_spelling other inside)

/-- Before what stands apart, those punctuators fit that the spelling begins with. -/
theorem fits_of_apart (apart : StandsApart rest) (mark other : Punct) :
    fits (mark.spelling ++ rest) other = other.spelling.isPrefixOf mark.spelling := by
  unfold fits
  rw [isPrefixOf_append_of_apart apart]
  by_cases front : other = .questionDot ∧ mark = .questionDot
  · obtain ⟨rfl, rfl⟩ := front
    cases rest with
    | nil => rfl
    | cons c rest =>
      show (_ && !(_ && c.isDigit)) = _
      rw [isDigit_of_blank (apart c rfl), Bool.and_false, Bool.not_false, Bool.and_true]
  · by_cases optional : other = .questionDot
    · subst optional
      have only : ∀ mark ∈ Punct.longestFirst, mark ≠ .questionDot →
          Punct.questionDot.spelling.isPrefixOf mark.spelling = false := by decide +kernel
      rw [only mark (mem_longestFirst mark) fun same => front ⟨rfl, same⟩, Bool.false_and]
    · rw [decide_eq_false optional, Bool.false_and, Bool.not_false, Bool.and_true]

/-- The longest punctuator that a spelling begins with is the one that is spelled so. -/
theorem find?_longestFirst (mark : Punct) :
    Punct.longestFirst.find? (fun other => other.spelling.isPrefixOf mark.spelling) = some mark := by
  cases mark <;> rfl

theorem scanPunct_of_apart (apart : StandsApart rest) (mark : Punct) (place : Position) :
    scanPunct ⟨mark.spelling ++ rest, place⟩ = .ok (.punct mark, ⟨rest, place.advance mark.spelling⟩) := by
  have found : Punct.longestFirst.find? (fits (mark.spelling ++ rest)) = some mark := by
    rw [funext (fits_of_apart apart mark), find?_longestFirst]
  unfold scanPunct
  rw [found]
  dsimp only [Reader.skip]
  rw [List.drop_left, List.take_left]

/-- A punctuator begins with a character that begins no other token, and no comment. -/
theorem spelling_front (mark : Punct) : ∃ c more, mark.spelling = c :: more ∧ isNameStart c = false ∧
    c.isDigit = false ∧ (c = '"' || c = '\'') = false ∧ c ≠ '`' ∧
    (c = '.' → more.head?.any Char.isDigit = false) ∧ (c = '/' → more.head? ≠ some '/' ∧ more.head? ≠ some '*') := by
  cases mark <;> exact ⟨_, _, rfl, by decide +kernel⟩

/-- After a spelling comes more of it, nothing, or white space. -/
theorem head?_append_of_apart (apart : StandsApart rest) {p : Char → Prop} (more : ∀ c ∈ text.head?, p c)
    (blank : ∀ c, isLineEnd c = true ∨ isSpace c = true → p c) : ∀ c ∈ (text ++ rest).head?, p c := by
  cases text with
  | nil => exact fun c first => blank c (apart c first)
  | cons d text => exact more

/-- A punctuator, up to what stands apart. -/
theorem Scans.spelled (mark : Punct) (apart : StandsApart rest) (later : Scans rest kinds) :
    Scans (mark.spelling ++ rest) (.punct mark :: kinds) := by
  obtain ⟨c, more, spelled, start, digit, quote, template, point, comment⟩ := spelling_front mark
  have blank := not_blank_of_mem_spelling mark (c := c) (spelled ▸ List.mem_cons_self ..)
  rw [not_or, Bool.not_eq_true, Bool.not_eq_true] at blank
  have scan (place : Position) := scanPunct_of_apart apart mark place
  rw [spelled] at scan ⊢
  refine .token (fun slash => ?_) blank.1 blank.2 (fun n place _ => ⟨place.advance (c :: more), ?_⟩) (by simp) later
  · have other := head?_append_of_apart apart (p := fun c => c ≠ '/' ∧ c ≠ '*')
      (fun d first => ⟨fun same => (comment slash).1 (same ▸ first), fun same => (comment slash).2 (same ▸ first)⟩)
      fun d blank => ⟨ne_slash_of_blank blank, by rintro rfl; exact absurd blank (by decide)⟩
    exact ⟨fun first => (other _ first).1 rfl, fun first => (other _ first).2 rfl⟩
  · have number : startsNumber (c :: (more ++ rest)) = false := by
      rw [startsNumber_cons]
      split
      · next dot =>
        rw [Option.any_eq_false]
        exact head?_append_of_apart (p := fun d => d.isDigit = false) apart ((Option.any_eq_false _ _).1 (point dot))
          fun d => isDigit_of_blank
      · exact digit
    unfold scanToken
    rw [start, if_neg nofun]
    show (if startsNumber (c :: (more ++ rest)) then _ else _) = _
    rw [number, if_neg nofun, quote, if_neg nofun, if_neg template]
    exact scan place

/-! ## Texts -/

/-- A token in front of what stands apart. -/
theorem Scans.spells (spells : Spells k text) (apart : StandsApart rest) (later : Scans rest kinds) :
    Scans (text ++ rest) (k :: kinds) := by
  cases spells with
  | @identifier name word free =>
    unfold isWord at word
    cases chars : name.toList with
    | nil =>
      rw [chars] at word
      cases word
    | cons c more =>
      rw [chars] at word
      obtain ⟨start, parts⟩ := Bool.and_eq_true_iff.1 word
      have all : ∀ d ∈ c :: more, isWordPart d = true :=
        List.forall_mem_cons.2 ⟨isWordPart_of_isNameStart start, List.all_eq_true.1 parts⟩
      have kind : wordKind (String.ofList (c :: more)) = .identifier name := by
        rw [← chars, String.ofList_toList, wordKind, free]
      have scans := later.word start all (stopsWord_of_apart apart)
      rwa [kind] at scans
  | keyword word => exact later.keyword word (stopsWord_of_apart apart)
  | punct mark => exact later.spelled mark apart
  | string text => exact later.string text

theorem standsApart_of_separator (separates : Separator gap) : StandsApart (gap ++ rest) := by
  obtain ⟨-, c, first, blank⟩ := separates
  obtain ⟨more, rfl⟩ := List.head?_eq_some_iff.1 first
  rintro _ ⟨⟩
  exact blank

/-- What is written in tokens with separators between them is split into these tokens. -/
theorem scans_of_writes (writes : Writes kinds text) : Scans text (kinds ++ [.eof]) := by
  induction writes with
  | nothing => exact .nil
  | @single k text spells =>
    have scans : Scans (text ++ []) [k, .eof] := Scans.nil.spells spells nofun
    rwa [List.append_nil] at scans
  | more spells separates _ ih =>
    rw [List.append_assoc]
    exact (ih.spacing separates.1).spells spells (standsApart_of_separator separates)

end Lexer

open Lexer JsonText

/-- A text of names, reserved words, punctuators and strings with separators between them is split into these tokens. -/
theorem tokenize_of_writes {kinds : List TokenKind} {text : String} (writes : Writes kinds text.toList) :
    ∃ tokens, tokenize text = .ok tokens ∧ tokens.map Token.kind = kinds ++ [.eof] :=
  (scans_of_writes writes).tokenize

/-- Comments of both kinds separate tokens, whatever they contain that looks like one: a semicolon, or the beginning of
the very comment it stands in. -/
theorem comments_between_tokens :
    let text := "ifs ?. // ;\n \"\\\"\" /*/ */ >>>="
    let kinds : List TokenKind := [.identifier "ifs", .punct .questionDot, .string "\"", .punct .ushrAssign]
    Writes kinds text.toList ∧
      ∃ tokens, tokenize text = .ok tokens ∧ tokens.map Token.kind = kinds ++ [.eof] := by
  intro text kinds
  have blank : isLineEnd ' ' = true ∨ isSpace ' ' = true := .inr (by decide)
  have feed : isLineEnd '\n' = true ∨ isSpace '\n' = true := .inl (by decide)
  have within : '\n' ∉ [' ', ';'] := by decide
  have inside : ¬ ['*', '/'] <:+: ['/', ' '] ++ ['*'] := by decide
  have line : Separator " // ;\n ".toList :=
    ⟨.blank blank (.line within (.blank feed (.last blank))), ' ', rfl, blank⟩
  have block : Separator " /*/ */ ".toList :=
    ⟨.blank blank (.block inside (.last blank)), ' ', rfl, blank⟩
  have word : isWord "ifs" = true := by decide +kernel
  have joined : "ifs".toList ++ [' '] ++ (Punct.questionDot.spelling ++ " // ;\n ".toList ++
      ((quote "\"").toList ++ " /*/ */ ".toList ++ Punct.ushrAssign.spelling)) = text.toList := by decide
  have writes : Writes kinds text.toList :=
    joined ▸ .more (.identifier word rfl) ⟨.last blank, ' ', rfl, blank⟩
      (.more (.punct .questionDot) line (.more (.string "\"") block (.single (.punct .ushrAssign))))
  exact ⟨writes, tokenize_of_writes writes⟩

end BindScript
