import BindScript.Proofs.Reserved.Texts

/-!
# Line breaks before tokens

What stands between two tokens is white space and comments (`Gap`). The flag of a token says that a line ends in the
gap before it: outside of the comments with any of the characters that end a line, but inside of a comment only with a
line feed (`newlineBefore_iff`). So a carriage return, a line separator or a paragraph separator that stands in a
comment goes unnoticed, and the flag is exact wherever no comment has one of them.

A block comment goes up to the first end of a comment after its mark (`commentLength?_some`), and a line comment up to
the next line feed, which is outside of it again.
-/

namespace BindScript

namespace Lexer

open Reader

variable {cs gap outside inside : List Char} {r r' : Reader}

/-- White space and comments, with the characters outside of the comments and those inside of them. A line comment goes
up to a line feed or to the end, a block comment up to the first end of a comment. -/
inductive Gap : List Char → List Char → List Char → Prop
  | nothing : Gap [] [] []
  | blank {c : Char} {cs outside inside : List Char} (blank : isLineEnd c = true ∨ isSpace c = true)
    (later : Gap cs outside inside) : Gap (c :: cs) (c :: outside) inside
  | line {text cs outside inside : List Char} (line : '\n' ∉ text) (ends : cs = [] ∨ cs.head? = some '\n')
    (later : Gap cs outside inside) : Gap ('/' :: '/' :: text ++ cs) outside ('/' :: '/' :: text ++ inside)
  | block {text cs outside inside : List Char} (first : ¬ ['*', '/'] <:+: text ++ ['*'])
    (later : Gap cs outside inside) :
    Gap ('/' :: '*' :: text ++ ['*', '/'] ++ cs) outside ('/' :: '*' :: text ++ ['*', '/'] ++ inside)

/-- What remains is made of gaps and tokens: each gap is passed over, and the token is scanned where it ends. -/
inductive Spaced : Reader → List (List Char × Token) → Prop
  | eof {r r' : Reader} {gap : List Char} {newline : Bool} (passes : r.Passes gap r') (ends : r'.rest = []) :
    Spaced r [(gap, ⟨.eof, r'.place, newline⟩)]
  | token {r r' r'' : Reader} {gap : List Char} {n : Nat} {c : Char} {k : TokenKind} {newline : Bool}
    {later : List (List Char × Token)} (passes : r.Passes gap r') (front : r'.rest.head? = some c)
    (scans : scanToken n c r' = .ok (k, r'')) (spaced : Spaced r'' later) :
    Spaced r ((gap, ⟨k, r'.place, newline⟩) :: later)

/-! ## Gaps -/

/-- The characters of a gap are those outside of its comments and those inside of them. -/
theorem Gap.mem_iff (split : Gap gap outside inside) (c : Char) : c ∈ gap ↔ c ∈ outside ∨ c ∈ inside := by
  induction split with
  | nothing => simp
  | blank _ _ ih => simp [ih, or_assoc]
  | line _ _ _ ih => simp [ih, or_left_comm]
  | block _ _ ih => simp [ih, or_left_comm]

/-- A block comment goes up to the first end of a comment. -/
theorem commentLength?_some {seen length : Nat} (ends : commentLength? seen cs = some length) :
    ∃ text tail, cs = text ++ ['*', '/'] ++ tail ∧ length = seen + text.length + 2 ∧
      ¬ ['*', '/'] <:+: text ++ ['*'] := by
  induction cs generalizing seen with
  | nil => cases ends
  | cons c cs ih =>
    rw [commentLength?_cons] at ends
    split at ends
    · next close =>
      obtain ⟨rfl, slash⟩ := close
      obtain ⟨tail, rfl⟩ := List.head?_eq_some_iff.1 slash
      cases ends
      exact ⟨[], tail, rfl, rfl, by decide⟩
    · next other =>
      obtain ⟨text, tail, rfl, rfl, first⟩ := ih ends
      refine ⟨c :: text, tail, rfl, ?_, ?_⟩
      · rw [List.length_cons]
        omega
      · -- the end of the comment would be right here, or later in the text
        rw [List.cons_append, List.infix_cons_iff, not_or]
        refine ⟨fun here => other ?_, first⟩
        obtain ⟨rfl, slash⟩ := List.cons_prefix_cons.1 here
        refine ⟨rfl, ?_⟩
        cases text with
        | nil => cases (List.cons_prefix_cons.1 slash).1
        | cons d text =>
          rw [← (List.cons_prefix_cons.1 slash).1]
          rfl

/-- White space and comments are passed over, and the flag is set by a line that ends outside of the comments, or by a
line feed inside of one. -/
def NotesGap (r : Reader) (newline flag : Bool) (r' : Reader) : Prop :=
  ∃ gap outside inside, r.Passes gap r' ∧ Gap gap outside inside ∧
    (flag = true ↔ newline = true ∨ (∃ c ∈ outside, isLineEnd c = true) ∨ '\n' ∈ inside)

namespace NotesGap

variable {newline flag : Bool} {c : Char}

theorem nothing (r : Reader) (newline : Bool) : NotesGap r newline newline r :=
  ⟨[], [], [], .nothing r, .nothing, by simp⟩

theorem blank (rest : r.rest = c :: cs) (blank : isLineEnd c = true ∨ isSpace c = true)
    (later : NotesGap (r.skip 1) (newline || isLineEnd c) flag r') : NotesGap r newline flag r' := by
  obtain ⟨gap, outside, inside, passes, split, noted⟩ := later
  have next := Passes.skip r 1
  rw [rest] at next
  refine ⟨_, _, _, next.trans passes, .blank blank split, ?_⟩
  rw [noted]
  simp [or_assoc]

/-- A comment of one line ends before the end of the line, which is noted after it. -/
theorem line (rest : r.rest = '/' :: '/' :: cs) (later : NotesGap (r.skipWhile fun c => c != '\n') newline flag r') :
    NotesGap r newline flag r' := by
  obtain ⟨gap, outside, inside, passes, split, noted⟩ := later
  have comment := Passes.skipWhile r fun c => c != '\n'
  rw [rest] at comment
  have text : '\n' ∉ cs.takeWhile fun c => c != '\n' := fun mem => by simpa using List.mem_takeWhile_imp mem
  refine ⟨_, _, _, comment.trans passes, .line text ?_ split, ?_⟩
  · -- the comment has ended at a line feed, or there is nothing left
    cases gap with
    | nil => exact .inl rfl
    | cons d gap =>
      have stops := List.head?_dropWhile_not (fun c => c != '\n') r.rest
      rw [show r.rest.dropWhile _ = _ from passes.rest] at stops
      exact .inr (congrArg some (by simpa using stops))
  · rw [noted]
    simp [text]

/-- A comment notes the line feeds in it. -/
theorem block {length : Nat} (rest : r.rest = '/' :: '*' :: cs) (ends : commentLength? 0 cs = some length)
    (later : NotesGap (r.skip (length + 2)) (newline || (cs.take length).any fun c => c = '\n') flag r') :
    NotesGap r newline flag r' := by
  obtain ⟨gap, outside, inside, passes, split, noted⟩ := later
  obtain ⟨text, tail, rfl, rfl, first⟩ := commentLength?_some ends
  have inner : (text ++ ['*', '/'] ++ tail).take (0 + text.length + 2) = text ++ ['*', '/'] :=
    List.take_left' (by simp)
  have comment := Passes.skip r (0 + text.length + 2 + 2)
  -- the end of the comment holds no line feed, so it makes no difference whether the flag looks at it
  rw [rest, List.take_succ_cons, List.take_succ_cons, inner] at comment
  refine ⟨_, _, _, comment.trans passes, .block first split, ?_⟩
  rw [noted, inner]
  simp [or_assoc, or_left_comm]

end NotesGap

/-- By induction on the turns: each passes one character of white space or a comment, and notes a line end in its own
way. -/
theorem skipTrivia_notes {n : Nat} {newline flag : Bool} {r r' : Reader}
    (skipped : skipTrivia n newline r = .ok (flag, r')) : NotesGap r newline flag r' := by
  induction n generalizing newline r with
  | zero =>
    cases skipped
    exact .nothing _ _
  | succ n ih =>
    cases rest : r.rest with
    | nil =>
      cases (skipTrivia_end rest).symm.trans skipped
      exact .nothing _ _
    | cons c cs =>
      -- the cases in the order in which the scanner tells them apart: comments, ends of lines, other white space
      by_cases line : c = '/' ∧ cs.head? = some '/'
      · obtain ⟨rfl, slash⟩ := line
        obtain ⟨ds, rfl⟩ := List.head?_eq_some_iff.1 slash
        rw [skipTrivia_line rest] at skipped
        exact .line rest (ih skipped)
      by_cases block : c = '/' ∧ cs.head? = some '*'
      · obtain ⟨rfl, star⟩ := block
        obtain ⟨ds, rfl⟩ := List.head?_eq_some_iff.1 star
        cases ends : commentLength? 0 ds with
        | none => cases ((skipTrivia_block rest).1 ends).symm.trans skipped
        | some length =>
          rw [(skipTrivia_block rest).2 length ends] at skipped
          exact .block rest ends (ih skipped)
      rw [skipTrivia_other rest line block] at skipped
      by_cases ends : isLineEnd c = true
      · rw [if_pos ends] at skipped
        refine .blank rest (.inl ends) ?_
        rw [ends, Bool.or_true]
        exact ih skipped
      by_cases space : isSpace c = true
      · rw [if_neg ends, if_pos space] at skipped
        refine .blank rest (.inr space) ?_
        rw [eq_false_of_ne_true ends, Bool.or_false]
        exact ih skipped
      · rw [if_neg ends, if_neg space] at skipped
        cases skipped
        exact .nothing _ _

/-! ## All tokens -/

/-- The flag of a token says whether a line ends in the gap before it, outside of the comments with any character that
ends a line, inside of a comment with a line feed. -/
def NotesLineEnds (gap : List Char) (token : Token) : Prop :=
  ∃ outside inside, Gap gap outside inside ∧
    (token.newlineBefore = true ↔ (∃ c ∈ outside, isLineEnd c = true) ∨ '\n' ∈ inside)

/-- The tokens still to come stand in the text that is left, each behind the gap that its scan began with. -/
theorem scanAll_spaced {n : Nat} {found tokens : List Token} {r : Reader} (enough : r.rest.length < n)
    (scanned : scanAll n found r = .ok tokens) :
    ∃ spaced, tokens = found.reverse ++ spaced.map Prod.snd ∧ Spaced r spaced ∧
      ∀ gap token, (gap, token) ∈ spaced → NotesLineEnds gap token := by
  induction n generalizing found r with
  | zero => exact absurd enough (Nat.not_lt_zero _)
  | succ n ih =>
    obtain ⟨newline, s, skipped, turn⟩ := scanAll_ok scanned
    obtain ⟨gap, outside, inside, passes, split, noted⟩ := skipTrivia_notes skipped
    rw [or_iff_right Bool.false_ne_true] at noted
    rcases turn with ⟨ends, rfl⟩ | ⟨c, cs, kind, t, rest, token, scanned⟩
    · refine ⟨[(gap, ⟨.eof, s.place, newline⟩)], rfl, .eof passes ends, fun gap' last mem => ?_⟩
      cases List.mem_singleton.1 mem
      exact ⟨outside, inside, split, noted⟩
    · have takes := scanToken_takes rest _ _ token
      -- the end of the text stays where it is while the place moves on, so there are turns left
      have fewer : t.rest.length < n := by
        have leads : r.Leads s := ⟨gap, passes⟩
        have := leads.offset_le
        have := takes.moves.offset_lt
        have := (leads.trans takes.moves.leads).stop
        omega
      obtain ⟨spaced, rfl, later, each⟩ := ih fewer scanned
      refine ⟨(gap, ⟨kind, s.place, newline⟩) :: spaced, ?_, .token passes (by rw [rest]; rfl) token later, ?_⟩
      · rw [List.reverse_cons, List.append_assoc]
        rfl
      · intro gap' token' mem
        rcases List.mem_cons.1 mem with same | mem
        · cases same
          exact ⟨outside, inside, split, noted⟩
        · exact each gap' token' mem

end Lexer

open Lexer

/-- The flag of a token says whether a line ends in the gap before it, but for the characters that end a line and stand
inside of a comment, of which it only notes line feeds. So where no others stand there, it says whether the gap has a
character that ends a line. -/
theorem newlineBefore_iff {source : String} {tokens : List Token} (read : tokenize source = .ok tokens) :
    ∃ spaced, spaced.map Prod.snd = tokens ∧ Spaced ⟨source.toList, .start⟩ spaced ∧
      ∀ gap token, (gap, token) ∈ spaced → ∃ outside inside, Gap gap outside inside ∧
        (token.newlineBefore = true ↔ (∃ c ∈ outside, isLineEnd c = true) ∨ '\n' ∈ inside) ∧
        ((∀ c ∈ inside, isLineEnd c = true → c = '\n') →
          (token.newlineBefore = true ↔ ∃ c ∈ gap, isLineEnd c = true)) := by
  obtain ⟨spaced, rfl, splits, each⟩ := scanAll_spaced (Nat.lt_succ_self _) read
  refine ⟨spaced, rfl, splits, fun gap token mem => ?_⟩
  obtain ⟨outside, inside, split, noted⟩ := each gap token mem
  refine ⟨outside, inside, split, noted, fun plain => ?_⟩
  rw [noted]
  constructor
  · rintro (⟨c, mem, ends⟩ | feed)
    · exact ⟨c, (split.mem_iff c).2 (.inl mem), ends⟩
    · exact ⟨'\n', (split.mem_iff _).2 (.inr feed), by decide⟩
  · rintro ⟨c, mem, ends⟩
    rcases (split.mem_iff c).1 mem with mem | mem
    · exact .inl ⟨c, mem, ends⟩
    · exact .inr (plain c mem ends ▸ mem)

/-- A line feed inside a comment is noted at the name after it, as one outside of comments would be. -/
theorem feed_in_comment_noted :
    tokenize "/*\n*/b" = .ok [⟨.identifier "b", ⟨5, 2, 3⟩, true⟩, ⟨.eof, ⟨6, 2, 4⟩, false⟩] ∧
      ∃ spaced, spaced.map Prod.snd = [⟨.identifier "b", ⟨5, 2, 3⟩, true⟩, ⟨.eof, ⟨6, 2, 4⟩, false⟩] ∧
        Spaced ⟨"/*\n*/b".toList, .start⟩ spaced ∧
        ∀ gap token, (gap, token) ∈ spaced → NotesLineEnds gap token := by
  have read : tokenize "/*\n*/b" = .ok [⟨.identifier "b", ⟨5, 2, 3⟩, true⟩, ⟨.eof, ⟨6, 2, 4⟩, false⟩] := rfl
  obtain ⟨spaced, tokens, splits, each⟩ := newlineBefore_iff read
  refine ⟨read, spaced, tokens, splits, fun gap token mem => ?_⟩
  obtain ⟨outside, inside, split, noted, -⟩ := each gap token mem
  exact ⟨outside, inside, split, noted⟩

/-- A carriage return in a comment ends a line, but the token after the comment does not tell. -/
theorem return_in_comment_unnoted :
    tokenize "/*\r*/b" = .ok [⟨.identifier "b", ⟨5, 1, 6⟩, false⟩, ⟨.eof, ⟨6, 1, 7⟩, false⟩] ∧
      '\r' ∈ "/*\r*/b".toList.take 5 ∧ isLineEnd '\r' = true :=
  ⟨rfl, by decide, by decide⟩

end BindScript
