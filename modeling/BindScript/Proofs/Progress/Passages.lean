import BindScript.Proofs.Parsing.Attempts
import BindScript.Proofs.Parsing.Positions
import BindScript.Proofs.Shorthand.Mirrored

/-!
# What parsers pass

Tokens are followed together with the brackets that are open among them (`depthAfter?`). With as many brackets open as
are closed later, what is passed up to the last one of these is settled by the tokens alone, whoever reads them
(`rest_eq_of_closed`).

A parser is said to pass (`Passes`) from a mark to another one, a mark being how many brackets are open and whether the
parser has moved yet. Where it succeeds, what it has passed is the difference, and another parser that may nest deeper
gives the same; where it fails, it has at least not gone past the last token (`Cursor.Ended`). There are three kinds of
parsers: those that move and leave no bracket open (`Moves`), those that may as well stay where they are (`Keeps`), and
those that go past the bracket that closes what is around them (`Closes`).
-/

namespace BindScript

/-- How many brackets are open after the token. There is no going on where all of them are closed, nor at the end of the
input. -/
def TokenKind.depthAfter? : TokenKind → Nat → Option Nat
  | _, 0 | .eof, _ => none
  | .punct .openParen, depth + 1 | .punct .openBracket, depth + 1 | .punct .openBrace, depth + 1 => some (depth + 2)
  | .punct .closeParen, depth + 1 | .punct .closeBracket, depth + 1 | .punct .closeBrace, depth + 1 => some depth
  | _, depth + 1 => some (depth + 1)

namespace Parser

variable {α β : Type}

/-! ## Open brackets -/

/-- How many brackets are open after the tokens. -/
def depthAfter? (depth : Nat) (tokens : List Token) : Option Nat :=
  tokens.foldlM (fun depth t => t.kind.depthAfter? depth) depth

section Depths

variable {depth depth' depth'' : Nat} {t : Token} {ts us rest rest' : List Token}

theorem depthAfter?_cons (here : t.kind.depthAfter? depth = some depth')
    (later : depthAfter? depth' ts = some depth'') : depthAfter? depth (t :: ts) = some depth'' := by
  unfold depthAfter? at later ⊢
  rw [List.foldlM_cons, here]
  exact later

theorem depthAfter?_append (first : depthAfter? depth ts = some depth') (later : depthAfter? depth' us = some depth'') :
    depthAfter? depth (ts ++ us) = some depth'' := by
  unfold depthAfter? at first later ⊢
  rw [List.foldlM_append, first]
  exact later

theorem of_depthAfter?_cons (passed : depthAfter? depth (t :: ts) = some depth'') :
    ∃ depth', t.kind.depthAfter? depth = some depth' ∧ depthAfter? depth' ts = some depth'' := by
  unfold depthAfter? at passed
  rw [List.foldlM_cons] at passed
  exact Option.bind_eq_some_iff.1 passed

/-- Where all brackets are closed, nothing more is passed. -/
theorem eq_nil_of_depthAfter?_zero (passed : depthAfter? 0 ts = some depth') : ts = [] := by
  cases ts with
  | nil => rfl
  | cons t ts =>
    obtain ⟨_, here, -⟩ := of_depthAfter?_cons passed
    cases here

theorem ne_eof_of_depthAfter? {k : TokenKind} (here : k.depthAfter? depth = some depth') : k ≠ .eof := by
  rintro rfl
  cases depth <;> cases here

/-- The end of the input is not among the tokens that are passed. -/
theorem forall_ne_eof_of_depthAfter? (passed : depthAfter? depth ts = some depth') : ∀ t ∈ ts, t.kind ≠ .eof := by
  induction ts generalizing depth with
  | nil => exact List.forall_mem_nil _
  | cons t ts ih =>
    obtain ⟨_, here, later⟩ := of_depthAfter?_cons passed
    exact List.forall_mem_cons.2 ⟨ne_eof_of_depthAfter? here, ih later⟩

/-- Up to where the brackets are closed there is only one way. -/
theorem rest_eq_of_closed (first : depthAfter? depth ts = some 0) (second : depthAfter? depth us = some 0)
    (same : ts ++ rest = us ++ rest') : rest = rest' := by
  induction ts generalizing depth us with
  | nil =>
    obtain rfl : depth = 0 := Option.some.inj first
    obtain rfl := eq_nil_of_depthAfter?_zero second
    exact same
  | cons t ts ih =>
    cases us with
    | nil =>
      obtain rfl : depth = 0 := Option.some.inj second
      cases eq_nil_of_depthAfter?_zero first
    | cons u us =>
      obtain ⟨rfl, tails⟩ := List.cons.inj same
      obtain ⟨_, here, first⟩ := of_depthAfter?_cons first
      obtain ⟨_, here', second⟩ := of_depthAfter?_cons second
      obtain rfl := Option.some.inj (here.symm.trans here')
      exact ih first second tails

end Depths

/-! ## The end of the input -/

/-- The last token ahead is the end of the input, and no other one is. -/
def Cursor.Ended (c : Cursor) : Prop :=
  ∃ front last, c.rest = front ++ [last] ∧ last.kind = .eof ∧ ∀ t ∈ front, t.kind ≠ .eof

section Ends

variable {c c' : Cursor} {passed : List Token}

/-- The end of the input is still ahead if no such token has been passed. -/
theorem Cursor.Ended.of_append (ended : c.Ended) (rest : c.rest = passed ++ c'.rest)
    (before : ∀ t ∈ passed, t.kind ≠ .eof) : c'.Ended := by
  obtain ⟨front, last, split, eof, others⟩ := ended
  rcases List.append_eq_append_iff.1 (rest.symm.trans split) with ⟨more, front_eq, rest'⟩ | ⟨more, rfl, rest'⟩
  · subst front_eq
    exact ⟨more, last, rest', eof, fun t mem => others t (List.mem_append_right _ mem)⟩
  · -- the last token would have been passed, or everything before it
    cases more with
    | nil => exact ⟨[], last, rest'.symm, eof, List.forall_mem_nil _⟩
    | cons t more =>
      obtain ⟨rfl, -⟩ := List.cons.inj rest'
      exact absurd eof (before _ (List.mem_append_right _ (List.mem_cons_self ..)))

/-- Before the end of the input one token is passed at a time. -/
theorem Cursor.Ended.advance_rest (ended : c.Ended) (more : c.current.kind ≠ .eof) :
    c.rest = c.current :: c.advance.rest := by
  obtain ⟨front, last, split, eof, -⟩ := ended
  obtain ⟨rest, blocks, noIn⟩ := c
  obtain rfl := split
  match front with
  | [] => exact absurd eof more
  | [t] => rfl
  | t :: t' :: front => rfl

theorem Cursor.ended_ofTokens {source : List Char} {place : Position} {tokens : List Token}
    (read : tokenizeAt source place = .ok tokens) : (Cursor.ofTokens tokens).Ended := by
  obtain ⟨front, last, split, eof, -, others⟩ := (Lexer.tokenizeAt_splits read).ends
  exact ⟨front, last, split, eof, others⟩

end Ends

/-! ## From mark to mark -/

/-- How many brackets are open, and whether the parser has moved. -/
structure Mark where
  depth : Nat
  moved : Prop

/-- What lies between two states of a parse leads from one mark to the other. -/
def Cursor.Comes (c : Cursor) (s : Mark) (c' : Cursor) (s' : Mark) : Prop :=
  ∃ passed, c.rest = passed ++ c'.rest ∧ depthAfter? s.depth passed = some s'.depth ∧
    (s'.moved → s.moved ∨ passed ≠ [])

/-- How the first parser ends, and the second one. -/
def PassesAt (s : Mark) (e : α → Mark) (c : Cursor) : EStateM.Result ParseIssue Cursor α →
    EStateM.Result ParseIssue Cursor α → Prop
  | .ok a c', r => r = .ok a c' ∧ c.Comes s c' (e a)
  | .error _ c', _ => c'.rest <:+ c.rest ∧ c'.Ended

/-- From a token of the kind, what the first parser accepts it passes, and the second one gives the same. -/
def PassesOn (k : TokenKind) (s : Mark) (p q : Parse α) (e : α → Mark) : Prop :=
  ∀ c : Cursor, c.Ended → c.current.kind = k → PassesAt s e c (p c) (q c)

/-- What the first parser accepts it passes, and the second one gives the same. -/
def Passes (s : Mark) (p q : Parse α) (e : α → Mark) : Prop :=
  ∀ c : Cursor, c.Ended → PassesAt s e c (p c) (q c)

/-- The parser may stay where it is; all brackets that it opens are closed again. -/
def Keeps (p q : Parse α) : Prop :=
  ∀ depth moved, Passes ⟨depth + 1, moved⟩ p q fun _ => ⟨depth + 1, moved⟩

/-- The parser moves; all brackets that it opens are closed again. -/
def Moves (p q : Parse α) : Prop :=
  ∀ depth moved, Passes ⟨depth + 1, moved⟩ p q fun _ => ⟨depth + 1, True⟩

/-- The parser closes one bracket more than it opens, and that is the last token that it passes. -/
def Closes (p q : Parse α) : Prop :=
  ∀ depth moved, Passes ⟨depth + 1, moved⟩ p q fun _ => ⟨depth, moved⟩

/-- The mark after the turn of a loop. -/
def Turn.mark (again done : Mark) : Turn α β → Mark
  | .again _ => again
  | .done _ => done

section Comes

variable {c c' c'' : Cursor} {s s' s'' : Mark}

theorem Cursor.Comes.refl (depth : s.depth = s'.depth) (moved : s'.moved → s.moved) : c.Comes s c s' :=
  ⟨[], rfl, congrArg some depth, fun m => .inl (moved m)⟩

theorem Cursor.Comes.trans (first : c.Comes s c' s') (later : c'.Comes s' c'' s'') : c.Comes s c'' s'' := by
  obtain ⟨passed, rest, depths, moved⟩ := first
  obtain ⟨passed', rest', depths', moved'⟩ := later
  refine ⟨passed ++ passed', by rw [rest, rest', List.append_assoc], depthAfter?_append depths depths', fun m => ?_⟩
  rcases moved' m with m | more
  · exact (moved m).imp_right fun more => List.append_ne_nil_of_left_ne_nil more _
  · exact .inr (List.append_ne_nil_of_right_ne_nil _ more)

theorem Cursor.Comes.suffix (comes : c.Comes s c' s') : c'.rest <:+ c.rest := by
  obtain ⟨passed, rest, -⟩ := comes
  exact ⟨passed, rest.symm⟩

theorem Cursor.Comes.ended (comes : c.Comes s c' s') (ended : c.Ended) : c'.Ended := by
  obtain ⟨passed, rest, depths, -⟩ := comes
  exact ended.of_append rest (forall_ne_eof_of_depthAfter? depths)

/-- A parser that moves gets closer to the end. -/
theorem Cursor.Comes.length_lt {depth depth' : Nat} (comes : c.Comes ⟨depth, False⟩ c' ⟨depth', True⟩) :
    c'.rest.length < c.rest.length := by
  obtain ⟨passed, rest, -, moved⟩ := comes
  have more : 0 < passed.length := List.length_pos_of_ne_nil ((moved trivial).resolve_left id)
  rw [rest, List.length_append]
  omega

theorem Cursor.Comes.advance {k : TokenKind} {depth depth' : Nat} {m m' : Prop} (ended : c.Ended)
    (here : c.current.kind = k) (leads : k.depthAfter? depth = some depth') :
    c.Comes ⟨depth, m⟩ c.advance ⟨depth', m'⟩ := by
  subst here
  refine ⟨[c.current], ended.advance_rest (ne_eof_of_depthAfter? leads), ?_, fun _ => .inr (List.cons_ne_nil _ _)⟩
  exact depthAfter?_cons leads rfl

end Comes

/-! ## Joining parsers -/

/-- The parser accepts nothing, and stays where it is. -/
def Refuses (p : Parse α) : Prop :=
  ∀ c, ∃ issue, p c = .error issue c

theorem Refuses.fail (cause : ParseCause) : Refuses (Parser.fail cause : Parse α) :=
  fun _ => ⟨_, rfl⟩

theorem Refuses.unexpected : Refuses (Parser.unexpected : Parse α) := by
  intro c
  show ∃ issue, (if c.current.kind.isEof = true then Parser.fail .unexpectedEnd else _ : Parse α) c = .error issue c
  split <;> exact ⟨_, rfl⟩

theorem Refuses.bind {p : Parse α} {f : α → Parse β} (refuses : Refuses p) : Refuses (p >>= f) := by
  intro c
  obtain ⟨issue, failed⟩ := refuses c
  refine ⟨issue, ?_⟩
  show EStateM.bind p f c = _
  unfold EStateM.bind
  rw [failed]

section Joining

variable {p q : Parse α} {f g : α → Parse β} {s : Mark} {e₁ : α → Mark} {e : β → Mark} {c : Cursor} {k : TokenKind}

/-- The second parser begins at the depth that the first one came to. -/
theorem PassesAt.bind (first : PassesAt s e₁ c (p c) (q c)) (ended : c.Ended)
    (next : ∀ a c', c'.Ended → PassesAt (e₁ a) e c' (f a c') (g a c')) :
    PassesAt s e c ((p >>= f) c) ((q >>= g) c) := by
  show PassesAt s e c (EStateM.bind p f c) (EStateM.bind q g c)
  unfold EStateM.bind
  cases run : p c with
  | error issue c' =>
    rw [run] at first
    exact first
  | ok a c' =>
    rw [run] at first
    obtain ⟨other, comes⟩ := first
    rw [other]
    have later := next a c' (comes.ended ended)
    dsimp only
    cases run' : f a c' with
    | ok b c'' =>
      rw [run'] at later
      exact ⟨later.1, comes.trans later.2⟩
    | error issue c'' =>
      rw [run'] at later
      exact ⟨later.1.trans comes.suffix, later.2⟩

/-- Fewer demands at the end. -/
theorem PassesAt.imp {e' : α → Mark} {r r' : EStateM.Result ParseIssue Cursor α} (passes : PassesAt s e₁ c r r')
    (depth : ∀ a, (e₁ a).depth = (e' a).depth) (moved : ∀ a, (e' a).moved → (e₁ a).moved) : PassesAt s e' c r r' := by
  cases r with
  | ok a c' => exact ⟨passes.1, passes.2.trans (.refl (depth a) (moved a))⟩
  | error issue c' => exact passes

namespace PassesOn

/-- Where nothing hangs on the token. -/
theorem any (passes : Passes s p q e₁) : PassesOn k s p q e₁ :=
  fun c ended _ => passes c ended

theorem ite {condition : Prop} [Decidable condition] {p' q' : Parse α} (yes : PassesOn k s p q e₁)
    (no : PassesOn k s p' q' e₁) :
    PassesOn k s (if condition then p else p') (if condition then q else q') e₁ := by
  split
  · exact yes
  · exact no

/-- The token that the parser is at has to be known for it to be passed. -/
theorem advance {depth depth' : Nat} {moved : Prop} {f g : Unit → Parse β} (leads : k.depthAfter? depth = some depth')
    (next : Passes ⟨depth', True⟩ (f ()) (g ()) e) :
    PassesOn k ⟨depth, moved⟩ (Parser.advance >>= f) (Parser.advance >>= g) e := by
  intro c ended here
  have first : PassesAt ⟨depth, moved⟩ (fun _ => ⟨depth', True⟩) c (Parser.advance c) (Parser.advance c) :=
    ⟨rfl, .advance ended here leads⟩
  exact first.bind ended fun _ c' ended' => next c' ended'

theorem position_bind {f g : Position → Parse β} (next : ∀ place, PassesOn k s (f place) (g place) e) :
    PassesOn k s (Parser.position >>= f) (Parser.position >>= g) e :=
  fun c ended here => next c.current.start c ended here

end PassesOn

namespace Passes

theorem imp {e' : α → Mark} (passes : Passes s p q e₁) (depth : ∀ a, (e₁ a).depth = (e' a).depth)
    (moved : ∀ a, (e' a).moved → (e₁ a).moved) : Passes s p q e' :=
  fun c ended => (passes c ended).imp depth moved

theorem pure {a : α} (depth : s.depth = (e₁ a).depth) (moved : (e₁ a).moved → s.moved) :
    Passes s (Pure.pure a) (Pure.pure a) e₁ :=
  fun _ _ => ⟨rfl, .refl depth moved⟩

theorem bind (first : Passes s p q e₁) (next : ∀ a, Passes (e₁ a) (f a) (g a) e) : Passes s (p >>= f) (q >>= g) e :=
  fun c ended => (first c ended).bind ended next

theorem ite {condition : Prop} [Decidable condition] {p' q' : Parse α} (yes : Passes s p q e₁)
    (no : Passes s p' q' e₁) : Passes s (if condition then p else p') (if condition then q else q') e₁ := by
  split
  · exact yes
  · exact no

/-- Where the first parser refuses everything, there is nothing to follow. -/
theorem of_refuses (refuses : Refuses p) : Passes s p q e₁ := by
  intro c ended
  obtain ⟨issue, failed⟩ := refuses c
  rw [failed]
  exact ⟨List.suffix_refl _, ended⟩

theorem throw (issue : ParseIssue) : Passes s (MonadExcept.throw issue : Parse α) q e₁ :=
  of_refuses fun _ => ⟨_, rfl⟩

theorem failAt (cause : ParseCause) (place : Position) : Passes s (Parser.failAt cause place : Parse α) q e₁ :=
  of_refuses fun _ => ⟨_, rfl⟩

theorem fail (cause : ParseCause) : Passes s (Parser.fail cause : Parse α) q e₁ :=
  of_refuses (.fail cause)

/-- Nothing comes after a failure. -/
theorem fail_bind (cause : ParseCause) {q : Parse β} : Passes s (Parser.fail cause >>= f) q e :=
  of_refuses (Refuses.fail cause).bind

/-! ### Tokens -/

/-- Going on with the kind of the token at the cursor. -/
theorem kind_bind {f g : TokenKind → Parse β} (next : ∀ k, PassesOn k s (f k) (g k) e) :
    Passes s (Parser.kind >>= f) (Parser.kind >>= g) e :=
  fun c ended => next c.current.kind c ended rfl

/-- Going on with the state of the parse. -/
theorem get_bind {f g : Cursor → Parse β} (next : ∀ c, PassesOn c.current.kind s (f c) (g c) e) :
    Passes s (MonadState.get >>= f) (MonadState.get >>= g) e :=
  fun c ended => next c c ended rfl

theorem position_bind {f g : Position → Parse β} (next : ∀ place, Passes s (f place) (g place) e) :
    Passes s (Parser.position >>= f) (Parser.position >>= g) e :=
  fun c ended => next c.current.start c ended

theorem atEof_bind {f g : Bool → Parse β} (next : ∀ eof, Passes s (f eof) (g eof) e) :
    Passes s (Parser.atEof >>= f) (Parser.atEof >>= g) e :=
  fun c ended => next c.current.kind.isEof c ended

/-- One way or another by a test of the state. -/
theorem test (test : Cursor → Bool) {p₁ q₁ p₂ q₂ : Parse β} (yes : Passes s p₁ q₁ e) (no : Passes s p₂ q₂ e) :
    Passes s (do if test (← MonadState.get) then p₁ else p₂) (do if test (← MonadState.get) then q₁ else q₂) e := by
  intro c
  show _ → PassesAt s e c ((if test c = true then p₁ else p₂) c) ((if test c = true then q₁ else q₂) c)
  split
  · exact yes c
  · exact no c

/-- One way where the punctuator is, another one where it is not. -/
theorem check (mark : Punct) {p₁ q₁ p₂ q₂ : Parse β} (yes : PassesOn (.punct mark) s p₁ q₁ e)
    (no : Passes s p₂ q₂ e) : Passes s (do if ← Parser.checkPunct mark then p₁ else p₂)
      (do if ← Parser.checkPunct mark then q₁ else q₂) e := by
  intro c ended
  show PassesAt s e c ((if c.current.kind.isPunct mark = true then p₁ else p₂) c)
    ((if c.current.kind.isPunct mark = true then q₁ else q₂) c)
  split
  · next here => exact yes c ended (isPunct_iff.1 here)
  · exact no c ended

/-- One way where the word is, another one where it is not. -/
theorem checkWord (word : Keyword) {p₁ q₁ p₂ q₂ : Parse β} (yes : PassesOn (.keyword word) s p₁ q₁ e)
    (no : Passes s p₂ q₂ e) : Passes s (do if ← Parser.checkKeyword word then p₁ else p₂)
      (do if ← Parser.checkKeyword word then q₁ else q₂) e := by
  intro c ended
  show PassesAt s e c ((if c.current.kind.isKeyword word = true then p₁ else p₂) c)
    ((if c.current.kind.isKeyword word = true then q₁ else q₂) c)
  split
  · next here => exact yes c ended (Mirrors.isKeyword_iff.1 here)
  · exact no c ended

section Eating

variable {depth depth' : Nat} {moved : Prop} {p₁ q₁ p₂ q₂ : Parse β}

/-- One way after the punctuator, another one where it is not. -/
theorem eat {mark : Punct} (leads : (TokenKind.punct mark).depthAfter? depth = some depth')
    (yes : Passes ⟨depth', True⟩ p₁ q₁ e) (no : Passes ⟨depth, moved⟩ p₂ q₂ e) :
    Passes ⟨depth, moved⟩ (do if ← Parser.eatPunct mark then p₁ else p₂)
      (do if ← Parser.eatPunct mark then q₁ else q₂) e := by
  rw [Mirrors.eatPunct_bind, Mirrors.eatPunct_bind]
  exact check mark (.advance leads yes) no

/-- One way after the word, another one where it is not. -/
theorem eatWord (word : Keyword) (yes : Passes ⟨depth + 1, True⟩ p₁ q₁ e) (no : Passes ⟨depth + 1, moved⟩ p₂ q₂ e) :
    Passes ⟨depth + 1, moved⟩ (do if ← Parser.eatKeyword word then p₁ else p₂)
      (do if ← Parser.eatKeyword word then q₁ else q₂) e := by
  rw [Mirrors.eatKeyword_bind, Mirrors.eatKeyword_bind]
  exact checkWord word (.advance rfl yes) no

end Eating

theorem expectPunct {mark : Punct} {depth depth' : Nat} {moved : Prop}
    (leads : (TokenKind.punct mark).depthAfter? depth = some depth') (cause : ParseCause) :
    Passes ⟨depth, moved⟩ (Parser.expectPunct mark cause) (Parser.expectPunct mark cause) fun _ => ⟨depth', True⟩ :=
  eat leads (pure rfl id) (fail cause)

/-! ### Loops -/

theorem iterate {turn₁ turn₂ : α → Parse (Turn α β)} {depth depth' : Nat}
    (each : ∀ moved a, Passes ⟨depth, moved⟩ (turn₁ a) (turn₂ a) (Turn.mark ⟨depth, True⟩ ⟨depth', moved⟩))
    (n : Nat) (moved : Prop) (a : α) :
    Passes ⟨depth, moved⟩ (Parser.iterate turn₁ n a) (Parser.iterate turn₂ n a) fun _ => ⟨depth', moved⟩ := by
  induction n generalizing moved a with
  | zero => exact fail _
  | succ n ih =>
    refine bind (each moved a) fun t => ?_
    cases t with
    | again a' => exact (ih True a').imp (fun _ => rfl) fun _ _ => trivial
    | done b => exact pure rfl id

end Passes

end Joining

/-- Turns of a loop that go on only if they have moved; in the end no bracket is open. -/
def KeepingTurns (turn₁ turn₂ : α → Parse (Turn α β)) : Prop :=
  ∀ depth moved a, Passes ⟨depth + 1, moved⟩ (turn₁ a) (turn₂ a) (Turn.mark ⟨depth + 1, True⟩ ⟨depth + 1, moved⟩)

/-- Turns of a loop that go on only if they have moved; the last one closes the bracket around it. -/
def ClosingTurns (turn₁ turn₂ : α → Parse (Turn α β)) : Prop :=
  ∀ depth moved a, Passes ⟨depth + 1, moved⟩ (turn₁ a) (turn₂ a) (Turn.mark ⟨depth + 1, True⟩ ⟨depth, moved⟩)

section Kinds

variable {p q : Parse α} {f g : α → Parse β} {turn₁ turn₂ : α → Parse (Turn α β)}

theorem KeepingTurns.repeatFrom (turns : KeepingTurns turn₁ turn₂) (a : α) :
    Keeps (Parser.repeatFrom a turn₁) (Parser.repeatFrom a turn₂) :=
  fun depth moved c => Passes.iterate (turns depth) (c.rest.length + 1) moved a c

theorem ClosingTurns.repeatFrom (turns : ClosingTurns turn₁ turn₂) (a : α) :
    Closes (Parser.repeatFrom a turn₁) (Parser.repeatFrom a turn₂) :=
  fun depth moved c => Passes.iterate (turns depth) (c.rest.length + 1) moved a c

theorem Keeps.pure (a : α) : Keeps (Pure.pure a) (Pure.pure a) :=
  fun _ _ => .pure rfl id

theorem Keeps.bind (first : Keeps p q) (next : ∀ a, Keeps (f a) (g a)) : Keeps (p >>= f) (q >>= g) :=
  fun depth moved => (first depth moved).bind fun a => next a depth moved

theorem Moves.keeps (reads : Moves p q) : Keeps p q :=
  fun depth moved => (reads depth moved).imp (fun _ => rfl) fun _ _ => trivial

/-- What follows may stay where it is. -/
theorem Moves.bind (first : Moves p q) (next : ∀ a, Keeps (f a) (g a)) : Moves (p >>= f) (q >>= g) :=
  fun depth moved => (first depth moved).bind fun a => next a depth True

/-- What comes first may stay where it is. -/
theorem Keeps.moves_bind (first : Keeps p q) (next : ∀ a, Moves (f a) (g a)) : Moves (p >>= f) (q >>= g) :=
  fun depth moved => (first depth moved).bind fun a => next a depth moved

end Kinds

section Surroundings

variable {p q : Parse α} {s : Mark} {e : α → Mark} {c c₀ : Cursor}

/-- What is put right at the end are not the tokens. -/
theorem PassesAt.ended {r r' : EStateM.Result ParseIssue Cursor α} {leave : Cursor → Cursor}
    (passes : PassesAt s e c₀ r r') (ahead : c₀.rest = c.rest) (rest : ∀ c, (leave c).rest = c.rest) :
    PassesAt s e c (Parser.ended leave r) (Parser.ended leave r') := by
  cases r with
  | ok a c' =>
    obtain ⟨rfl, passed, split, comes⟩ := passes
    exact ⟨rfl, passed, by rw [← ahead, split, rest], comes⟩
  | error issue c' =>
    obtain ⟨suffix, front, last, split, ends⟩ := passes
    exact ⟨by rw [rest, ← ahead]; exact suffix, front, last, (rest c').trans split, ends⟩

theorem Passes.allowingIn (passes : Passes s p q e) : Passes s (Parser.allowingIn p) (Parser.allowingIn q) e := by
  intro c ended
  rw [allowingIn_run, allowingIn_run]
  exact (passes { c with noIn := false } ended).ended rfl fun _ => rfl

theorem Passes.reservingIn (passes : Passes s p q e) : Passes s (Parser.reservingIn p) (Parser.reservingIn q) e := by
  intro c ended
  rw [reservingIn_run, reservingIn_run]
  exact (passes { c with noIn := true } ended).ended rfl fun _ => rfl

theorem Passes.inBlock (passes : Passes s p q e) : Passes s (Parser.inBlock p) (Parser.inBlock q) e := by
  intro c ended
  rw [inBlock_run, inBlock_run]
  exact (passes { c with blocks := [] :: c.blocks } ended).ended rfl fun _ => rfl

end Surroundings

/-! ## Names -/

namespace Moves

theorem expectIdentifier : Moves Parser.expectIdentifier Parser.expectIdentifier := by
  intro depth moved
  refine .kind_bind fun k => ?_
  cases k with
  | identifier name => exact .advance rfl (.pure rfl id)
  | _ => exact .any (.fail _)

end Moves

namespace Keeps

theorem position : Keeps Parser.position Parser.position :=
  fun _ _ => .position_bind fun _ => .pure rfl id

theorem endStatement : Keeps Parser.endStatement Parser.endStatement := by
  intro depth moved
  exact .eat rfl (.pure rfl fun _ => trivial) (.test _ (.pure rfl id) (.of_refuses .unexpected))

theorem declare (kind : Option DeclKind) (place : Position) (name : String) :
    Keeps (Parser.declare kind place name) (Parser.declare kind place name) := by
  intro depth moved
  refine .ite (.failAt _ _) (.ite (.pure rfl id) fun c ended => ?_)
  rw [run_get]
  cases c.blocks with
  | nil => exact ⟨rfl, .refl rfl id⟩
  | cons block outer =>
    dsimp only
    split
    · exact Passes.failAt _ _ c ended
    · exact ⟨rfl, [], rfl, rfl, .inl⟩

theorem declareAll (kind : Option DeclKind) (place : Position) (names : List String) :
    Keeps (Parser.declareAll kind place names) (Parser.declareAll kind place names) := by
  induction names with
  | nil => exact .pure ()
  | cons name names ih => exact .bind (declare kind place name) fun _ => ih

end Keeps

end Parser

end BindScript
