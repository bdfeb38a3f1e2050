import BindScript.Proofs.Parsing.Extended
import BindScript.Proofs.Parsing.Scans

/-!
# A source in the head of a loop

A source that splits into tokens splits into the same tokens where it stands in the head of a loop, between those of
the head (`tokenize_headText`): only the places differ. The exception is a line comment at the end, which would swallow
the semicolon after it (`EndsInComment`).

The gaps before the tokens are passed over in the same way (`skipTrivia_extends`), and the tokens themselves by the
scanners; so the loop over both takes the same turns up to where the source ends (`scanAll_extends`). Where there is
nothing after the text, this says that a text splits into the same tokens wherever it stands (`tokenizeAt_anywhere`).
-/

namespace BindScript

namespace Lexer

open Text Reader

variable {more cs : List Char} {r r' : Reader}

/-! ## White space and comments -/

/-- The text is white space and comments, and it ends inside of a line comment. -/
inductive OpenComment : List Char → Prop
  | comment {text : List Char} (line : '\n' ∉ text) : OpenComment ('/' :: '/' :: text)
  | blank {c : Char} {cs : List Char} (gap : isLineEnd c = true ∨ isSpace c = true) (later : OpenComment cs) :
    OpenComment (c :: cs)
  | line {text cs : List Char} (line : '\n' ∉ text) (later : OpenComment ('\n' :: cs)) :
    OpenComment ('/' :: '/' :: (text ++ '\n' :: cs))
  | block {cs : List Char} {length : Nat} (ends : commentLength? 0 cs = some length)
    (later : OpenComment (cs.drop length)) : OpenComment ('/' :: '*' :: cs)

theorem OpenComment.slash_mem (comment : OpenComment cs) : '/' ∈ cs := by
  induction comment with
  | comment => exact List.mem_cons_self ..
  | blank _ _ ih => exact List.mem_cons_of_mem _ ih
  | line => exact List.mem_cons_self ..
  | block => exact List.mem_cons_self ..

theorem commentLength?_cons (seen : Nat) (c : Char) (cs : List Char) : commentLength? seen (c :: cs) =
    if c = '*' ∧ cs.head? = some '/' then some (seen + 2) else commentLength? (seen + 1) cs := by
  by_cases close : c = '*' ∧ cs.head? = some '/'
  · rw [if_pos close]
    obtain ⟨rfl, slash⟩ := close
    obtain ⟨ds, rfl⟩ := List.head?_eq_some_iff.1 slash
    rfl
  · rw [if_neg close, commentLength?]
    rintro ds rfl rfl
    exact close ⟨rfl, rfl⟩

/-- Where a comment ends does not depend on what comes after its end. -/
theorem commentLength?_append {seen length : Nat} (ends : commentLength? seen cs = some length) (more : List Char) :
    commentLength? seen (cs ++ more) = some length ∧ length ≤ seen + cs.length := by
  induction cs generalizing seen with
  | nil => cases ends
  | cons c cs ih =>
    rw [List.cons_append, List.length_cons]
    rw [commentLength?_cons] at ends ⊢
    cases cs with
    | nil => cases (if_neg nofun).symm.trans ends
    | cons d ds =>
      rw [List.cons_append, List.head?_cons]
      rw [List.head?_cons] at ends
      split at ends
      · next close =>
        cases ends
        rw [if_pos close, List.length_cons]
        exact ⟨rfl, by omega⟩
      · next close =>
        obtain ⟨longer, inside⟩ := ih ends
        rw [if_neg close]
        exact ⟨longer, by omega⟩

theorem skipTrivia_end {n : Nat} {newline : Bool} (rest : r.rest = []) : skipTrivia n newline r = .ok (newline, r) := by
  cases n with
  | zero => rfl
  | succ n => rw [skipTrivia, rest]

/-- Where no comment starts, one character of white space is skipped, or nothing. -/
theorem skipTrivia_other {n : Nat} {newline : Bool} {c : Char} (rest : r.rest = c :: cs)
    (line : ¬ (c = '/' ∧ cs.head? = some '/')) (block : ¬ (c = '/' ∧ cs.head? = some '*')) :
    skipTrivia (n + 1) newline r = if isLineEnd c then skipTrivia n true (r.skip 1)
      else if isSpace c then skipTrivia n newline (r.skip 1) else .ok (newline, r) := by
  rw [skipTrivia, rest]
  split
  · next none => cases none
  · next comment =>
    cases comment
    exact absurd ⟨rfl, rfl⟩ line
  · next comment =>
    cases comment
    exact absurd ⟨rfl, rfl⟩ block
  · next same =>
    cases same
    rfl

theorem skipTrivia_semicolon {n : Nat} {newline : Bool} (rest : r.rest = ';' :: cs) :
    skipTrivia (n + 1) newline r = .ok (newline, r) := by
  rw [skipTrivia_other rest (fun slash => absurd slash.1 (by decide)) (fun slash => absurd slash.1 (by decide)),
    if_neg (by decide), if_neg (by decide)]

theorem skipTrivia_line {n : Nat} {newline : Bool} (rest : r.rest = '/' :: '/' :: cs) :
    skipTrivia (n + 1) newline r = skipTrivia n newline (r.skipWhile fun c => c != '\n') := by
  rw [skipTrivia, rest]
  split
  · next same => cases same
  · rfl
  · next same => simp at same
  · next other _ same =>
    cases same
    exact (other _ rfl rfl).elim

/-- A comment that is closed is skipped as a whole, with a note whether a line feed is in it. -/
theorem skipTrivia_block {n : Nat} {newline : Bool} (rest : r.rest = '/' :: '*' :: cs) :
    (commentLength? 0 cs = none → skipTrivia (n + 1) newline r = refuse .unterminatedComment r.place) ∧
      ∀ length, commentLength? 0 cs = some length → skipTrivia (n + 1) newline r =
        skipTrivia n (newline || (cs.take length).any fun c => c = '\n') (r.skip (length + 2)) := by
  constructor
  · intro ends
    rw [skipTrivia, rest]
    split
    · next same => cases same
    · next same => simp at same
    · next same =>
      cases same
      rw [ends]
    · next other same =>
      cases same
      exact (other _ rfl rfl).elim
  · intro length ends
    rw [skipTrivia, rest]
    split
    · next same => cases same
    · next same => simp at same
    · next same =>
      cases same
      rw [ends]
    · next other same =>
      cases same
      exact (other _ rfl rfl).elim

/-- In so many turns, white space and comments are passed over in the same way where there is more text, unless what
comes after them would be in a line comment. -/
def TriviaExtends (more : List Char) (n : Nat) : Prop :=
  ∀ {n' : Nat} {r r' : Reader} (newline : Bool), r.rest.length < n → n ≤ n' → r'.rest = r.rest ++ more →
    Ends (fun newline' s => (s.rest = [] → OpenComment r.rest → more = []) →
      ∃ s', skipTrivia n' newline r' = .ok (newline', s') ∧ s'.rest = s.rest ++ more) (skipTrivia n newline r)

/-- A line comment that has an end is white space and comments after it. -/
theorem OpenComment.of_dropWhile (ended : cs.dropWhile (fun c => c != '\n') ≠ [])
    (comment : OpenComment (cs.dropWhile fun c => c != '\n')) : OpenComment ('/' :: '/' :: cs) := by
  obtain ⟨c, tail, after⟩ := List.exists_cons_of_ne_nil ended
  have feed : c = '\n' := by
    have stop := List.head_dropWhile_not (fun c => c != '\n') ended
    simpa [after] using stop
  subst feed
  have split := List.takeWhile_append_dropWhile (p := fun c => c != '\n') (l := cs)
  rw [after] at comment split
  rw [← split]
  refine .line (fun mem => ?_) comment
  simpa using List.mem_takeWhile_imp mem

namespace TriviaExtends

variable {n n' : Nat} {newline : Bool}

theorem line (trivia : TriviaExtends more n) (enough : cs.length + 1 < n) (le : n ≤ n')
    (rest : r.rest = '/' :: '/' :: cs) (whole : r'.rest = '/' :: '/' :: (cs ++ more)) :
    Ends (fun newline' s => (s.rest = [] → OpenComment ('/' :: '/' :: cs) → more = []) →
      ∃ s', skipTrivia (n' + 1) newline r' = .ok (newline', s') ∧ s'.rest = s.rest ++ more)
      (skipTrivia (n + 1) newline r) := by
  rw [skipTrivia_line rest, skipTrivia_line whole]
  have left : (r.skipWhile fun c => c != '\n').rest = cs.dropWhile fun c => c != '\n' := by
    show r.rest.dropWhile _ = _
    rw [rest]
    rfl
  have left' : (r'.skipWhile fun c => c != '\n').rest = (cs ++ more).dropWhile fun c => c != '\n' := by
    show r'.rest.dropWhile _ = _
    rw [whole]
    rfl
  have fewer : (cs.dropWhile fun c => c != '\n').length < n := by
    have := (List.dropWhile_suffix (l := cs) fun c => c != '\n').length_le
    omega
  rw [List.dropWhile_append] at left'
  by_cases ended : cs.dropWhile (fun c => c != '\n') = []
  · -- the comment goes on to the end of the text
    have line : '\n' ∉ cs := by
      intro mem
      simpa using List.dropWhile_eq_nil_iff.1 ended _ mem
    rw [ended] at left
    rw [skipTrivia_end left]
    refine .ok fun closed => ?_
    obtain rfl := closed left (.comment line)
    rw [List.dropWhile_nil, ended, List.append_nil, ite_self] at left'
    exact ⟨_, skipTrivia_end left', by rw [left', left, List.append_nil]⟩
  · rw [if_neg (by simpa using ended), ← left] at left'
    refine (trivia newline (by rwa [left]) le left').imp fun newline' s passes closed =>
      passes fun empty comment => closed empty ?_
    rw [left] at comment
    exact .of_dropWhile ended comment

/-- A comment that is closed is closed in the longer text, too. One that is open takes in what follows. -/
theorem block (trivia : TriviaExtends more n) (enough : cs.length + 1 < n) (le : n ≤ n')
    (rest : r.rest = '/' :: '*' :: cs) (whole : r'.rest = '/' :: '*' :: (cs ++ more)) :
    Ends (fun newline' s => (s.rest = [] → OpenComment ('/' :: '*' :: cs) → more = []) →
      ∃ s', skipTrivia (n' + 1) newline r' = .ok (newline', s') ∧ s'.rest = s.rest ++ more)
      (skipTrivia (n + 1) newline r) := by
  cases ends : commentLength? 0 cs with
  | none =>
    rw [(skipTrivia_block rest).1 ends]
    exact .refuse _ _
  | some length =>
    obtain ⟨longer, bound⟩ := commentLength?_append ends more
    have kept : (cs ++ more).take length = cs.take length := List.take_append_of_le_length (by omega)
    rw [(skipTrivia_block rest).2 length ends, (skipTrivia_block whole).2 length longer, kept]
    have left : length + 2 ≤ r.rest.length := by
      rw [rest]
      simp only [List.length_cons]
      omega
    have dropped : (r.skip (length + 2)).rest = cs.drop length := by
      show r.rest.drop (length + 2) = _
      rw [rest]
      rfl
    have fewer : (r.skip (length + 2)).rest.length < n := by
      rw [dropped, List.length_drop]
      omega
    have same : r'.rest = r.rest ++ more := by
      rw [whole, rest]
      rfl
    refine (trivia _ fewer le (skip_rest same left)).imp fun newline' s passes closed =>
      passes fun empty comment => closed empty ?_
    rw [dropped] at comment
    exact .block ends comment

/-- What begins neither white space nor a comment is left to the scan of a token. -/
theorem other (trivia : TriviaExtends more n) {c : Char} (enough : cs.length < n) (le : n ≤ n')
    (rest : r.rest = c :: cs) (same : r'.rest = r.rest ++ more) :
    Ends (fun newline' s => (s.rest = [] → OpenComment (c :: cs) → more = []) →
      ∃ s', (if isLineEnd c then skipTrivia n' true (r'.skip 1)
        else if isSpace c then skipTrivia n' newline (r'.skip 1) else .ok (newline, r')) = .ok (newline', s') ∧
          s'.rest = s.rest ++ more)
      (if isLineEnd c then skipTrivia n true (r.skip 1)
        else if isSpace c then skipTrivia n newline (r.skip 1) else .ok (newline, r)) := by
  have later : (r'.skip 1).rest = (r.skip 1).rest ++ more := skip_rest same (by
    rw [rest]
    exact Nat.le_add_left 1 _)
  have dropped : (r.skip 1).rest = cs := by
    show r.rest.drop 1 = cs
    rw [rest]
    rfl
  have blank (gap : isLineEnd c = true ∨ isSpace c = true) (newline : Bool) :=
    (trivia newline (show (r.skip 1).rest.length < n by rwa [dropped]) le later).imp
      fun newline' s passes (closed : s.rest = [] → OpenComment (c :: cs) → more = []) =>
        passes fun empty comment => closed empty (.blank gap (dropped ▸ comment))
  by_cases feed : isLineEnd c = true
  · rw [if_pos feed, if_pos feed]
    exact blank (.inl feed) true
  by_cases space : isSpace c = true
  · rw [if_neg feed, if_neg feed, if_pos space, if_pos space]
    exact blank (.inr space) newline
  · rw [if_neg feed, if_neg feed, if_neg space, if_neg space]
    exact .ok fun _ => ⟨r', rfl, same⟩

end TriviaExtends

/-- No mark but a semicolon comes first only because of what comes after the text. -/
theorem Neutral.head?_append (neutral : Neutral more) {mark : Char} (apart : mark ≠ ';') :
    (cs ++ more).head? = some mark ↔ cs.head? = some mark := by
  cases cs with
  | cons d ds => rfl
  | nil =>
    cases neutral with
    | nothing => rfl
    | semicolon after => simp [Ne.symm apart]

/-- White space and comments are passed over in the same way, unless the semicolon would be in a line comment. -/
theorem skipTrivia_extends (neutral : Neutral more) (n : Nat) : TriviaExtends more n := by
  induction n with
  | zero =>
    intro _ _ _ _ enough
    exact absurd enough (Nat.not_lt_zero _)
  | succ n ih =>
    intro n' r r' newline enough le same
    obtain ⟨n', rfl⟩ := Nat.exists_eq_add_one.2 (Nat.zero_lt_of_lt le)
    have further := Nat.le_of_succ_le_succ le
    cases rest : r.rest with
    | nil =>
      rw [skipTrivia_end rest]
      refine .ok fun _ => ⟨r', ?_, by rw [same]⟩
      rw [rest, List.nil_append] at same
      cases neutral with
      | nothing => exact skipTrivia_end same
      | semicolon after => exact skipTrivia_semicolon same
    | cons c cs =>
      have inside : cs.length < n := by
        rw [rest, List.length_cons] at enough
        omega
      have whole : r'.rest = c :: (cs ++ more) := by rw [same, rest, List.cons_append]
      -- whether a comment begins is told by two characters, and the second one may only be in what is added
      by_cases line : c = '/' ∧ cs.head? = some '/'
      · obtain ⟨rfl, slash⟩ := line
        obtain ⟨ds, rfl⟩ := List.head?_eq_some_iff.1 slash
        exact ih.line inside further rest whole
      by_cases block : c = '/' ∧ cs.head? = some '*'
      · obtain ⟨rfl, star⟩ := block
        obtain ⟨ds, rfl⟩ := List.head?_eq_some_iff.1 star
        exact ih.block inside further rest whole
      rw [skipTrivia_other rest line block, skipTrivia_other whole (by rwa [neutral.head?_append (by decide)])
        (by rwa [neutral.head?_append (by decide)])]
      exact ih.other inside further rest same

/-! ## All tokens -/

/-- The tokens are the same, whatever their places are. -/
def SameTokens (tokens tokens' : List Token) : Prop :=
  tokens'.map Token.unplaced = tokens.map Token.unplaced

/-- What one turn of the loop over the tokens has found. -/
theorem scanAll_ok {n : Nat} {found tokens : List Token} (scanned : scanAll (n + 1) found r = .ok tokens) :
    ∃ newline s, skipTrivia (n + 1) false r = .ok (newline, s) ∧
      (s.rest = [] ∧ tokens = found.reverse ++ [⟨.eof, s.place, newline⟩] ∨
        ∃ c cs kind t, s.rest = c :: cs ∧ scanToken (n + 1) c s = .ok (kind, t) ∧
          scanAll n (⟨kind, s.place, newline⟩ :: found) t = .ok tokens) := by
  unfold scanAll at scanned
  split at scanned
  · cases scanned
  · next newline s skipped =>
    refine ⟨newline, s, skipped, ?_⟩
    split at scanned
    · next ends =>
      cases scanned
      exact .inl ⟨ends, List.reverse_cons⟩
    · next c cs rest =>
      split at scanned
      · cases scanned
      · next kind t token => exact .inr ⟨c, cs, kind, t, rest, token, scanned⟩

theorem scanFrom_token {n : Nat} {found : List Token} {newline : Bool} {c : Char} {kind : TokenKind}
    (rest : r.rest = c :: cs) (token : scanToken (n + 1) c r = .ok (kind, r')) :
    scanFrom n found (.ok (newline, r)) = scanAll n (⟨kind, r.place, newline⟩ :: found) r' := by
  unfold scanFrom
  dsimp only
  rw [rest]
  dsimp only
  rw [token]

/-- What comes after the last token is a gap. -/
theorem rest_mem_gapsFrom {n : Nat} {newline : Bool} (skipped : skipTrivia (n + 1) false r = .ok (newline, r'))
    (ends : r'.rest = []) : r.rest ∈ gapsFrom (n + 1) r := by
  unfold gapsFrom
  rw [skipped]
  refine List.mem_cons.2 (.inl ?_)
  rw [ends, List.length_nil, Nat.sub_zero, List.take_length]

/-- The gaps after the first token are gaps. -/
theorem mem_gapsFrom_of_later {n : Nat} {newline : Bool} {c : Char} {kind : TokenKind} {r'' : Reader}
    (skipped : skipTrivia (n + 1) false r = .ok (newline, r')) (rest : r'.rest = c :: cs)
    (token : scanToken (n + 1) c r' = .ok (kind, r'')) {gap : List Char} (later : gap ∈ gapsFrom n r'') :
    gap ∈ gapsFrom (n + 1) r := by
  unfold gapsFrom
  rw [skipped]
  refine List.mem_cons_of_mem _ ?_
  rw [rest]
  dsimp only
  rw [token]
  exact later

/-- The tokens of a text are those that are found first where there is more text, up to where the text ends. -/
theorem scanAll_extends (neutral : Neutral more) {n : Nat} {found tokens : List Token} (n' m : Nat)
    (found' : List Token) (r' : Reader) (enough : r.rest.length < n) (turns : n ≤ n' + 1) (passes : n ≤ m)
    (same : r'.rest = r.rest ++ more)
    (closed : more = [] ∨ ∀ gap ∈ gapsFrom n r, ¬ OpenComment gap) (scanned : scanAll n found r = .ok tokens) :
    ∃ init init' last, tokens = found.reverse ++ (init ++ [last]) ∧ last.kind = .eof ∧ SameTokens init init' ∧
      ∃ (k : Nat) (s : Reader), n' ≤ k + r.rest.length ∧ s.rest = more ∧
        scanFrom n' found' (skipTrivia m false r') =
          scanFrom k (init'.reverse ++ found') (.ok (last.newlineBefore, s)) := by
  induction n generalizing n' m found found' r r' with
  | zero => exact absurd enough (Nat.not_lt_zero _)
  | succ n ih =>
    have further := Nat.le_of_succ_le_succ turns
    obtain ⟨newline, s, skipped, turn⟩ := scanAll_ok scanned
    have unfinished : s.rest = [] → OpenComment r.rest → more = [] := by
      intro ends comment
      exact closed.resolve_right fun gaps => gaps r.rest (rest_mem_gapsFrom skipped ends) comment
    obtain ⟨s', skipped', left⟩ := skipTrivia_extends neutral _ false enough passes same newline s skipped unfinished
    rw [skipped']
    rcases turn with ⟨ends, rfl⟩ | ⟨c, cs, kind, t, rest, token, scanned⟩
    · rw [ends, List.nil_append] at left
      exact ⟨[], [], ⟨.eof, s.place, newline⟩, rfl, rfl, rfl, n', s', Nat.le_add_right _ _, left, rfl⟩
    · obtain ⟨kind', t', token', sameKind, after⟩ :=
        scanToken_extends neutral (Nat.succ_le_succ further) rest left kind t token
      have leads := skipTrivia_onward _ _ _ _ _ skipped
      have takes := scanToken_takes rest _ _ token
      -- the end of the text stays where it is while the place moves on, so there are turns left
      have fewer : t.rest.length < r.rest.length := by
        have := leads.offset_le
        have := takes.moves.offset_lt
        have := (leads.trans takes.moves.leads).stop
        omega
      obtain ⟨n', rfl⟩ := Nat.exists_eq_add_one.2 (show 0 < n' by omega)
      have gaps : more = [] ∨ ∀ gap ∈ gapsFrom n t, ¬ OpenComment gap :=
        closed.imp_right fun each gap later => each gap (mem_gapsFrom_of_later skipped rest token later)
      obtain ⟨init, init', last, rfl, eof, sameInit, k, u, left', ends, runs⟩ :=
        ih n' (n' + 1) (⟨kind', s'.place, newline⟩ :: found') t' (by omega) (by omega) (by omega) after gaps scanned
      refine ⟨⟨kind, s.place, newline⟩ :: init, ⟨kind', s'.place, newline⟩ :: init', last, ?_, eof, ?_, k, u,
        by omega, ends, ?_⟩
      · rw [List.reverse_cons, List.append_assoc, List.singleton_append, List.cons_append]
      · show _ :: _ = _ :: _
        rw [sameInit]
        exact congrArg (· :: _) (congrArg (Token.mk · .start newline) sameKind)
      · rw [rest, List.cons_append] at left
        rw [List.reverse_cons, List.append_assoc, List.singleton_append, ← runs, ← scanAll_succ,
          scanFrom_token left token']

/-- The last token is the only one for the end of input. -/
theorem ends_at_eof {source : List Char} {place : Position} {tokens : List Token}
    (read : tokenizeAt source place = .ok tokens) :
    ∃ init last, tokens = init ++ [last] ∧ last.kind = .eof ∧ ∀ t ∈ init, t.kind ≠ .eof := by
  obtain ⟨init, last, split, eof, -, others⟩ := (tokenizeAt_splits read).ends
  exact ⟨init, last, split, eof, others⟩

/-- A text splits into the same tokens wherever it stands. -/
theorem tokenizeAt_anywhere {source : List Char} {place : Position} {tokens : List Token}
    (read : tokenizeAt source place = .ok tokens) (place' : Position) :
    ∃ tokens', tokenizeAt source place' = .ok tokens' ∧ SameTokens tokens tokens' := by
  obtain ⟨init, init', last, rfl, eof, same, k, s, -, ends, runs⟩ :=
    scanAll_extends .nothing source.length (source.length + 1) [] ⟨source, place'⟩ (Nat.lt_succ_self _) (Nat.le_refl _)
      (Nat.le_refl _) (List.append_nil source).symm (.inl rfl) read
  refine ⟨init' ++ [⟨.eof, s.place, last.newlineBefore⟩], ?_, ?_⟩
  · show scanAll (source.length + 1) [] ⟨source, place'⟩ = _
    rw [scanAll_succ]
    refine runs.trans ?_
    unfold scanFrom
    dsimp only
    rw [ends, List.append_nil, List.reverse_cons, List.reverse_reverse]
  · unfold SameTokens at same ⊢
    rw [List.reverse_nil, List.nil_append, List.map_append, List.map_append, same]
    obtain ⟨kind, start, newline⟩ := last
    cases eof
    rfl

end Lexer

/-- The source ends inside of a line comment. -/
def EndsInComment (source : String) : Prop :=
  ∃ gap ∈ Lexer.gaps source, Lexer.OpenComment gap

/-- Where no gap has a slash there are no comments. -/
theorem not_endsInComment {source : String} (none : ∀ gap ∈ Lexer.gaps source, '/' ∉ gap) :
    ¬ EndsInComment source := by
  rintro ⟨gap, mem, comment⟩
  exact none gap mem comment.slash_mem

/-- A loop with the source in its head, as the value of a variable. -/
def headText (source : String) : String :=
  "for (let f = " ++ source ++ "; ;) \x7b\x7d"

/-- The kinds of the tokens in front of the source. -/
def headFront : List TokenKind :=
  [.keyword .for, .punct .openParen, .keyword .let, .identifier "f", .punct .assign]

/-- The kinds of the tokens after the source. -/
def headBack : List TokenKind :=
  [.punct .semicolon, .punct .semicolon, .punct .closeParen, .punct .openBrace, .punct .closeBrace, .eof]

namespace Lexer

theorem front_scanned (n : Nat) (rest : List Char) :
    ∃ (front : List Token) (place : Position), front.map (·.kind) = headFront ∧
      scanAll (n + 6) [] ⟨"for (let f =".toList ++ ' ' :: rest, .start⟩ =
        scanFrom n front.reverse (skipTrivia n false ⟨rest, place⟩) := by
  refine ⟨[⟨.keyword .for, ⟨0, 1, 1⟩, false⟩, ⟨.punct .openParen, ⟨4, 1, 5⟩, false⟩, ⟨.keyword .let, ⟨5, 1, 6⟩, false⟩,
    ⟨.identifier "f", ⟨9, 1, 10⟩, false⟩, ⟨.punct .assign, ⟨11, 1, 12⟩, false⟩], ⟨13, 1, 14⟩, rfl, ?_⟩
  with_unfolding_all rfl

theorem back_scanned (n : Nat) (found : List Token) (newline : Bool) {s : Reader}
    (rest : s.rest = "; ;) \x7b\x7d".toList) : ∃ back : List Token, back.map (·.kind) = headBack ∧
      scanFrom (n + 5) found (.ok (newline, s)) = .ok (found.reverse ++ back) := by
  obtain ⟨cs, place⟩ := s
  obtain rfl : cs = "; ;) \x7b\x7d".toList := rest
  refine ⟨[⟨.punct .semicolon, place, newline⟩, ⟨.punct .semicolon, place.advance "; ".toList, false⟩,
    ⟨.punct .closeParen, place.advance "; ;".toList, false⟩,
    ⟨.punct .openBrace, place.advance "; ;) ".toList, false⟩,
    ⟨.punct .closeBrace, place.advance "; ;) \x7b".toList, false⟩,
    ⟨.eof, place.advance "; ;) \x7b\x7d".toList, false⟩], rfl, ?_⟩
  have split : scanFrom (n + 5) found (.ok (newline, ⟨"; ;) \x7b\x7d".toList, place⟩)) = .ok
     (⟨.eof, place.advance "; ;) \x7b\x7d".toList, false⟩ ::
      ⟨.punct .closeBrace, place.advance "; ;) \x7b".toList, false⟩ ::
      ⟨.punct .openBrace, place.advance "; ;) ".toList, false⟩ ::
      ⟨.punct .closeParen, place.advance "; ;".toList, false⟩ ::
      ⟨.punct .semicolon, place.advance "; ".toList, false⟩ ::
      ⟨.punct .semicolon, place, newline⟩ :: found).reverse := by
    with_unfolding_all rfl
  rw [split]
  simp

/-- In the head of a loop there are the tokens of the source, between those of the head. -/
theorem tokenize_headText {source : String} {tokens : List Token} (read : tokenize source = .ok tokens)
    (closed : ¬ EndsInComment source) :
    ∃ (front init init' : List Token) (last : Token) (back : List Token),
      tokens = init ++ [last] ∧ last.kind = .eof ∧ SameTokens init init' ∧ front.map (·.kind) = headFront ∧
        back.map (·.kind) = headBack ∧ tokenize (headText source) = .ok (front ++ (init' ++ back)) := by
  have text : (headText source).toList =
      "for (let f =".toList ++ ' ' :: (source.toList ++ "; ;) \x7b\x7d".toList) := by
    simp [headText]
  have turns : (headText source).toList.length + 1 = source.toList.length + 15 + 6 := by
    rw [text]
    simp
  obtain ⟨front, place, frontKinds, frontRuns⟩ :=
    front_scanned (source.toList.length + 15) (source.toList ++ "; ;) \x7b\x7d".toList)
  have gaps : ∀ gap ∈ gapsFrom (source.toList.length + 1) ⟨source.toList, .start⟩, ¬ OpenComment gap :=
    fun gap mem comment => closed ⟨gap, mem, comment⟩
  obtain ⟨init, init', last, rfl, eof, same, k, s, left, ends, runs⟩ :=
    scanAll_extends (.semicolon _) (source.toList.length + 15) (source.toList.length + 15) front.reverse
      ⟨source.toList ++ "; ;) \x7b\x7d".toList, place⟩ (Nat.lt_succ_self _)
      (Nat.succ_le_succ (Nat.le_add_right _ 15)) (Nat.add_le_add_left (show 1 ≤ 15 by decide) _) rfl (.inr gaps) read
  obtain ⟨k, rfl⟩ : ∃ j, k = j + 5 := ⟨k - 5, by
    dsimp only at left
    omega⟩
  obtain ⟨back, backKinds, backRuns⟩ :=
    back_scanned k (init'.reverse ++ front.reverse) last.newlineBefore ends
  refine ⟨front, init, init', last, back, rfl, eof, same, frontKinds, backKinds, ?_⟩
  unfold tokenize tokenizeAt
  rw [turns, text, frontRuns, runs, backRuns]
  simp

end Lexer

end BindScript
