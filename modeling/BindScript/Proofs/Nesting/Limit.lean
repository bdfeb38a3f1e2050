import BindScript.Parser
import BindScript.Proofs.Parsing.Blocks

/-!
# Parsers with different limits

Two parsers that allow different nesting agree (`Agrees`) if the second one gives what the first one gives, unless
the first one refuses the nesting. What both give has a property as well. For two parsers that are the same only the
property says something.

The heads of loops need care: a head without a declaration is first read as a pattern, and if that fails for
whatever reason, as an expression. So the limit may show there as another failure than the one about nesting.
Nothing of the kind happens where a head does not begin with a bracket or a brace (`PlainHeads`), since names do not
nest.
-/

namespace BindScript

/-- The token holds the source of a template hole. -/
def TokenKind.HasHole (k : TokenKind) (source : List Char) (start : Position) : Prop :=
  ∃ chunks, k = .template chunks ∧ .hole source start ∈ chunks

/-- If the tokens are a `for` and a parenthesis, neither a bracket nor a brace comes next. -/
def HeadsPlainly : List Token → Prop
  | t :: t' :: t'' :: _ => t.kind = .keyword .for → t'.kind = .punct .openParen →
    t''.kind ≠ .punct .openBracket ∧ t''.kind ≠ .punct .openBrace
  | _ => True

/-- No head of a loop begins with a bracket or a brace, neither in the tokens nor in the holes of their templates. -/
inductive PlainHeads : List Token → Prop
  | nil : PlainHeads []
  | cons {t : Token} {ts : List Token} (head : HeadsPlainly (t :: ts))
    (holes : ∀ source start, t.kind.HasHole source start → ∀ tokens, tokenizeAt source start = .ok tokens →
      PlainHeads tokens) (tail : PlainHeads ts) : PlainHeads (t :: ts)

namespace Parser

variable {same : Prop} {α β : Type} {Q : α → Prop} {R : β → Prop} {c : Cursor} {k : TokenKind}

/-- What is asked of the tokens ahead: where the two parsers differ, heads of loops are plain. -/
def Ahead (same : Prop) (tokens : List Token) : Prop :=
  same ∨ PlainHeads tokens

theorem Ahead.advance (ahead : Ahead same c.rest) : Ahead same c.advance.rest := by
  unfold Cursor.advance
  split
  · next rest =>
    rw [rest] at ahead
    refine ahead.imp_right fun plain => ?_
    cases plain with
    | cons _ _ tail => exact tail
  · exact ahead

/-- What is asked of the holes of a template. -/
def HolesAhead (same : Prop) (k : TokenKind) : Prop :=
  ∀ source start, k.HasHole source start → ∀ tokens, tokenizeAt source start = .ok tokens → Ahead same tokens

/-- The holes of a template that is ahead are ahead as well. -/
theorem Ahead.holes (ahead : Ahead same c.rest) : HolesAhead same c.current.kind := by
  intro source start hole tokens split
  refine ahead.imp_right fun plain => ?_
  unfold Cursor.current at hole
  cases rest : c.rest with
  | nil =>
    rw [rest] at hole
    obtain ⟨chunks, no, -⟩ := hole
    cases no
  | cons t ts =>
    rw [rest] at hole plain
    cases plain with
    | cons _ holes _ => exact holes source start hole tokens split

/-- How the first parser ends, and the second one. -/
def Agree (same : Prop) (Q : α → Prop) : EStateM.Result ParseIssue Cursor α →
    EStateM.Result ParseIssue Cursor α → Prop
  | .ok a c, r => r = .ok a c ∧ Ahead same c.rest ∧ Q a
  | .error issue c, r => issue.cause = .nestingTooDeep ∨ r = .error issue c

/-- The second parser gives what the first one gives, unless that refuses the nesting. -/
def Agrees (same : Prop) (p q : Parse α) (Q : α → Prop) : Prop :=
  ∀ c : Cursor, Ahead same c.rest → Agree same Q (p c) (q c)

/-! ## Joining parsers -/

theorem Agree.imp {Q' : α → Prop} {r₁ r₂ : EStateM.Result ParseIssue Cursor α} (agree : Agree same Q r₁ r₂)
    (weaker : ∀ a, Q a → Q' a) : Agree same Q' r₁ r₂ := by
  cases r₁ with
  | ok a c => exact ⟨agree.1, agree.2.1, weaker a agree.2.2⟩
  | error issue c => exact agree

/-- What agrees from here on agrees after a first step that agrees. -/
theorem Agree.bind {p q : Parse α} {f g : α → Parse β} (first : Agree same Q (p c) (q c))
    (next : ∀ a c', p c = .ok a c' → Ahead same c'.rest → Q a → Agree same R (f a c') (g a c')) :
    Agree same R ((p >>= f) c) ((q >>= g) c) := by
  show Agree same R (EStateM.bind p f c) (EStateM.bind q g c)
  unfold EStateM.bind
  cases run : p c with
  | ok a c' =>
    rw [run] at first
    obtain ⟨other, ahead, holds⟩ := first
    rw [other]
    exact next a c' run ahead holds
  | error issue c' =>
    rw [run] at first
    refine first.imp_right fun other => ?_
    rw [other]

namespace Agrees

variable {p q : Parse α} {f g : α → Parse β}

theorem imp {Q' : α → Prop} (agrees : Agrees same p q Q) (weaker : ∀ a, Q a → Q' a) : Agrees same p q Q' :=
  fun c ahead => (agrees c ahead).imp weaker

theorem pure {a : α} (holds : Q a) : Agrees same (Pure.pure a) (Pure.pure a) Q :=
  fun _ ahead => ⟨rfl, ahead, holds⟩

theorem bind (first : Agrees same p q Q) (next : ∀ a, Q a → Agrees same (f a) (g a) R) :
    Agrees same (p >>= f) (q >>= g) R :=
  fun c ahead => (first c ahead).bind fun a c' _ ahead' holds => next a holds c' ahead'

theorem ite {condition : Prop} [Decidable condition] {p' q' : Parse α} (yes : condition → Agrees same p q Q)
    (no : ¬ condition → Agrees same p' q' Q) :
    Agrees same (if condition then p else p') (if condition then q else q') Q := by
  split
  · exact yes ‹_›
  · exact no ‹_›

theorem throw (issue : ParseIssue) :
    Agrees same (MonadExcept.throw issue : Parse α) (MonadExcept.throw issue) Q :=
  fun _ _ => .inr rfl

theorem fail (cause : ParseCause) : Agrees same (Parser.fail cause : Parse α) (Parser.fail cause) Q :=
  fun _ _ => .inr rfl

/-- Nothing comes after a failure. -/
theorem fail_bind (cause : ParseCause) : Agrees same (Parser.fail cause >>= f) (Parser.fail cause >>= g) R :=
  bind (fail cause (Q := fun _ => False)) nofun

theorem failAt (cause : ParseCause) (place : Position) :
    Agrees same (Parser.failAt cause place : Parse α) (Parser.failAt cause place) Q :=
  fun _ _ => .inr rfl

/-- A parser that refuses the nesting agrees with every other. -/
theorem tooDeep : Agrees same (Parser.fail .nestingTooDeep) q Q :=
  fun _ _ => .inl rfl

/-- The flag is for the parser that is run, and is put back after it. -/
theorem allowingIn (agrees : Agrees same p q Q) : Agrees same (Parser.allowingIn p) (Parser.allowingIn q) Q := by
  intro c ahead
  have agrees := agrees { c with noIn := false } ahead
  unfold Parser.allowingIn
  cases run : p { c with noIn := false } with
  | ok a c' =>
    rw [run] at agrees
    rw [agrees.1]
    exact ⟨rfl, agrees.2⟩
  | error issue c' =>
    rw [run] at agrees
    refine agrees.imp_right fun other => ?_
    rw [other]

/-- The flag is for the parser that is run, and is put back after it. -/
theorem reservingIn (agrees : Agrees same p q Q) :
    Agrees same (Parser.reservingIn p) (Parser.reservingIn q) Q := by
  intro c ahead
  have agrees := agrees { c with noIn := true } ahead
  unfold Parser.reservingIn
  cases run : p { c with noIn := true } with
  | ok a c' =>
    rw [run] at agrees
    rw [agrees.1]
    exact ⟨rfl, agrees.2⟩
  | error issue c' =>
    rw [run] at agrees
    refine agrees.imp_right fun other => ?_
    rw [other]

end Agrees

theorem Agree.inBlock {p q : Parse α}
    (agree : Agree same Q (p { c with blocks := [] :: c.blocks }) (q { c with blocks := [] :: c.blocks })) :
    Agree same Q (Parser.inBlock p c) (Parser.inBlock q c) := by
  unfold Parser.inBlock
  cases run : p { c with blocks := [] :: c.blocks } with
  | ok a c' =>
    rw [run] at agree
    rw [agree.1]
    exact ⟨rfl, agree.2⟩
  | error issue c' =>
    rw [run] at agree
    refine agree.imp_right fun other => ?_
    rw [other]

namespace Agrees

variable {p q : Parse α} {f g : α → Parse β}

theorem inBlock (agrees : Agrees same p q Q) : Agrees same (Parser.inBlock p) (Parser.inBlock q) Q :=
  fun c ahead => Agree.inBlock (agrees { c with blocks := [] :: c.blocks } ahead)

/-- Loops agree where each of their turns does. -/
theorem repeatFrom {turn₁ turn₂ : α → Parse (Turn α β)} {a : α} (start : Q a)
    (each : ∀ a, Q a → Agrees same (turn₁ a) (turn₂ a) (Turn.Holds Q R)) :
    Agrees same (Parser.repeatFrom a turn₁) (Parser.repeatFrom a turn₂) R := by
  have turns : ∀ n a, Q a → Agrees same (iterate turn₁ n a) (iterate turn₂ n a) R := by
    intro n
    induction n with
    | zero => exact fun _ _ => fail _
    | succ n ih =>
      intro a holds
      unfold iterate
      refine bind (each a holds) fun t step => ?_
      cases t with
      | again a' => exact ih a' step
      | done b => exact pure step
  exact fun c => turns (c.rest.length + 1) a start c

/-! ## Tokens -/

theorem kind : Agrees same Parser.kind Parser.kind (HolesAhead same) :=
  fun _ ahead => ⟨rfl, ahead, ahead.holes⟩

/-- Going on with the kind of the token at the cursor. -/
theorem kind_bind {f g : TokenKind → Parse β}
    (next : ∀ c, Ahead same c.rest → Agree same R (f c.current.kind c) (g c.current.kind c)) :
    Agrees same (Parser.kind >>= f) (Parser.kind >>= g) R :=
  next

theorem position : Agrees same Parser.position Parser.position (fun _ => True) :=
  fun _ ahead => ⟨rfl, ahead, trivial⟩

theorem get : Agrees same (MonadState.get : Parse Cursor) MonadState.get (fun _ => True) :=
  fun _ ahead => ⟨rfl, ahead, trivial⟩

/-- Going on with the state of the parse. -/
theorem get_bind {f g : Cursor → Parse β} (next : ∀ c, Ahead same c.rest → Agree same R (f c c) (g c c)) :
    Agrees same (MonadState.get >>= f) (MonadState.get >>= g) R :=
  next

theorem advance : Agrees same Parser.advance Parser.advance (fun _ => True) :=
  fun _ ahead => ⟨rfl, ahead.advance, trivial⟩

theorem unexpected : Agrees same (Parser.unexpected : Parse α) Parser.unexpected Q :=
  bind kind fun _ _ => ite (fun _ => fail _) fun _ => fail _

theorem atEof : Agrees same Parser.atEof Parser.atEof (fun _ => True) :=
  bind kind fun _ _ => pure trivial

theorem checkPunct (mark : Punct) : Agrees same (Parser.checkPunct mark) (Parser.checkPunct mark) (fun _ => True) :=
  bind kind fun _ _ => pure trivial

theorem checkKeyword (word : Keyword) :
    Agrees same (Parser.checkKeyword word) (Parser.checkKeyword word) (fun _ => True) :=
  bind kind fun _ _ => pure trivial

theorem eatPunct (mark : Punct) : Agrees same (Parser.eatPunct mark) (Parser.eatPunct mark) (fun _ => True) :=
  bind (checkPunct mark) fun _ _ => ite (fun _ => bind advance fun _ _ => pure trivial) fun _ => pure trivial

theorem eatKeyword (word : Keyword) :
    Agrees same (Parser.eatKeyword word) (Parser.eatKeyword word) (fun _ => True) :=
  bind (checkKeyword word) fun _ _ =>
    ite (fun _ => bind advance fun _ _ => pure trivial) fun _ => pure trivial

theorem expectPunct (mark : Punct) (cause : ParseCause) :
    Agrees same (Parser.expectPunct mark cause) (Parser.expectPunct mark cause) (fun _ => True) :=
  bind (eatPunct mark) fun _ _ => ite (fun _ => pure trivial) fun _ => fail cause

theorem expectIdentifier : Agrees same Parser.expectIdentifier Parser.expectIdentifier (fun _ => True) := by
  refine bind kind fun k _ => ?_
  cases k with
  | identifier name => exact bind advance fun _ _ => pure trivial
  | _ => exact fail _

theorem endStatement : Agrees same Parser.endStatement Parser.endStatement (fun _ => True) := by
  refine bind (eatPunct _) fun _ _ => ite (fun _ => pure trivial) fun _ => ?_
  exact bind get fun _ _ => ite (fun _ => pure trivial) fun _ => unexpected

theorem declare (kind : Option DeclKind) (place : Position) (name : String) :
    Agrees same (Parser.declare kind place name) (Parser.declare kind place name) (fun _ => True) := by
  unfold Parser.declare
  refine ite (fun _ => failAt _ _) fun _ => ite (fun _ => pure trivial) fun _ => get_bind fun c ahead => ?_
  cases c.blocks with
  | nil => exact pure trivial c ahead
  | cons block outer =>
    dsimp only
    split
    · exact failAt _ _ c ahead
    · exact ⟨rfl, ahead, trivial⟩

theorem declareAll (kind : Option DeclKind) (place : Position) (names : List String) :
    Agrees same (Parser.declareAll kind place names) (Parser.declareAll kind place names) (fun _ => True) := by
  induction names with
  | nil => exact pure trivial
  | cons name names ih => exact bind (declare kind place name) fun _ _ => ih

end Agrees

end Parser

end BindScript
