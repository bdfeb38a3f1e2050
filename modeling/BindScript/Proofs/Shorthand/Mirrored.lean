import BindScript.Proofs.Shorthand.Written

/-!
# Parsers that mirror each other

What a parser gives in the second reading mirrors what one gives in the first one (`Mirrors`): from cursors at the same
point it gives the same, and the cursors are at the same point again. After most constructs no key can be next; after a
comma it may (`after` tells from what was given). Both parsers fail together, unless the failure is final; they leave
the same blocks then.
-/

namespace BindScript.Parser

variable {short : Position → Bool} {key : Bool} {α β : Type} {mid : α → Bool} {after : β → Bool} {c d : Cursor}

/-- How the first reading ends, and the second one. -/
def Mirrored (short : Position → Bool) (after : α → Bool) : EStateM.Result ParseIssue Cursor α →
    EStateM.Result ParseIssue Cursor α → Prop
  | .ok a c, r => ∃ d, r = .ok a d ∧ Abreast short (after a) c d
  | .error issue c, r => issue.cause.isFinal = true ∨
    ∃ issue' d, r = .error issue' d ∧ d.blocks = c.blocks ∧ d.noIn = c.noIn

/-- Where the cursors are at the same point, the second parser mirrors the first one. If the flag is set, a name that
is written out may be next there. -/
def Mirrors (short : Position → Bool) (key : Bool) (p q : Parse α) (after : α → Bool) : Prop :=
  ∀ c d, Abreast short key c d → Mirrored short after (p c) (q d)

/-- Whether a key may come next after the turn of a loop. -/
def Turn.flag (again done : Bool) : Turn α β → Bool
  | .again _ => again
  | .done _ => done

/-! ## Ends -/

/-- The end of a reading, with the cursor that it is left with. -/
def ended (leave : Cursor → Cursor) : EStateM.Result ParseIssue Cursor α → EStateM.Result ParseIssue Cursor α
  | .ok a c => .ok a (leave c)
  | .error issue c => .error issue (leave c)

theorem allowingIn_run (p : Parse α) (c : Cursor) :
    allowingIn p c = ended (fun c' => { c' with noIn := c.noIn }) (p { c with noIn := false }) := by
  unfold allowingIn
  cases p { c with noIn := false } <;> rfl

theorem reservingIn_run (p : Parse α) (c : Cursor) :
    reservingIn p c = ended (fun c' => { c' with noIn := false }) (p { c with noIn := true }) := by
  unfold reservingIn
  cases p { c with noIn := true } <;> rfl

theorem inBlock_run (p : Parse α) (c : Cursor) :
    inBlock p c = ended (fun c' => { c' with blocks := c'.blocks.tail }) (p { c with blocks := [] :: c.blocks }) := by
  unfold inBlock
  cases p { c with blocks := [] :: c.blocks } <;> rfl

/-- What is put right in both cursors in the same way keeps them at the same point. -/
theorem Mirrored.ended {flag : α → Bool} {r r' : EStateM.Result ParseIssue Cursor α} {leave leave' : Cursor → Cursor}
    (mirrored : Mirrored short flag r r')
    (rest : ∀ c, (leave c).rest = c.rest) (rest' : ∀ d, (leave' d).rest = d.rest)
    (blocks : ∀ c d, d.blocks = c.blocks → (leave' d).blocks = (leave c).blocks)
    (noIn : ∀ c d, d.noIn = c.noIn → (leave' d).noIn = (leave c).noIn) :
    Mirrored short flag (Parser.ended leave r) (Parser.ended leave' r') := by
  cases r with
  | ok a c =>
    obtain ⟨d, rfl, abreast⟩ := mirrored
    have ahead : WritesOut short (flag a) (leave c).rest (leave' d).rest := by
      rw [rest, rest']
      exact abreast.ahead
    exact ⟨leave' d, rfl, ahead, blocks c d abreast.blocks, noIn c d abreast.flag⟩
  | error issue c =>
    refine mirrored.imp_right fun fails => ?_
    obtain ⟨issue', d, rfl, same, flag⟩ := fails
    exact ⟨issue', leave' d, rfl, blocks c d same, noIn c d flag⟩

/-! ## Joining parsers -/

/-- What mirrors each other step by step does so as a whole. -/
theorem Mirrored.bind {p q : Parse α} {f g : α → Parse β} (first : Mirrored short mid (p c) (q d))
    (next : ∀ a, Mirrors short (mid a) (f a) (g a) after) : Mirrored short after ((p >>= f) c) ((q >>= g) d) := by
  show Mirrored short after (EStateM.bind p f c) (EStateM.bind q g d)
  unfold EStateM.bind
  cases run : p c with
  | ok a c' =>
    rw [run] at first
    obtain ⟨d', other, abreast⟩ := first
    rw [other]
    exact next a c' d' abreast
  | error issue c' =>
    rw [run] at first
    refine first.imp_right fun fails => ?_
    obtain ⟨issue', d', other, same⟩ := fails
    rw [other]
    exact ⟨issue', d', rfl, same⟩

theorem Mirrored.ite {condition : Prop} [Decidable condition] {p q p' q' : Parse β}
    (yes : condition → Mirrored short after (p c) (q d)) (no : ¬ condition → Mirrored short after (p' c) (q' d)) :
    Mirrored short after ((if condition then p else p') c) ((if condition then q else q') d) := by
  split
  · exact yes ‹_›
  · exact no ‹_›

/-- Going on with the kind of the token, where templates are not told apart. -/
theorem Mirrored.kind_bind {f g : TokenKind → Parse β} (abreast : Abreast short key c d)
    (templates : ∀ chunks chunks', g (.template chunks') = g (.template chunks))
    (next : Mirrored short after (f c.current.kind c) (g c.current.kind d)) :
    Mirrored short after ((kind >>= f) c) ((kind >>= g) d) := by
  rw [← TokenKind.agree_of_emptied (f := g) abreast.kind templates] at next
  exact next

namespace Mirrors

variable {p q : Parse β} {f g : α → Parse β}

/-- Where a key may come next, nothing else is allowed than where it may not. -/
theorem plain (mirrors : Mirrors short key p q after) : Mirrors short false p q after :=
  fun c d abreast => mirrors c d abreast.anywhere

/-- A place where a name is written out is looked at by itself. -/
theorem at_key (mirrors : Mirrors short false p q after)
    (place : ∀ name c d, AtShorthand short name c d → Mirrored short after (p c) (q d)) :
    Mirrors short key p q after := by
  intro c d abreast
  rcases abreast.plain_or_short with plain | ⟨name, there⟩
  · exact mirrors c d plain
  · exact place name c d there

theorem pure {b : β} (allowed : key = true → after b = true) :
    Mirrors short key (Pure.pure b) (Pure.pure b) after := by
  intro c d abreast
  refine ⟨d, rfl, ?_⟩
  cases key with
  | false => exact abreast.anywhere
  | true =>
    rw [allowed rfl]
    exact abreast

theorem bind {p q : Parse α} (first : Mirrors short key p q mid)
    (next : ∀ a, Mirrors short (mid a) (f a) (g a) after) : Mirrors short key (p >>= f) (q >>= g) after :=
  fun c d abreast => (first c d abreast).bind next

theorem ite {condition : Prop} [Decidable condition] {p' q' : Parse β} (yes : condition → Mirrors short key p q after)
    (no : ¬ condition → Mirrors short key p' q' after) :
    Mirrors short key (if condition then p else p') (if condition then q else q') after := by
  split
  · exact yes ‹_›
  · exact no ‹_›

/-- Both parsers fail. -/
theorem failAt (cause cause' : ParseCause) (place place' : Position) :
    Mirrors short key (Parser.failAt cause place) (Parser.failAt cause' place') after :=
  fun _ d abreast => .inr ⟨_, d, rfl, abreast.blocks, abreast.flag⟩

theorem fail (cause cause' : ParseCause) : Mirrors short key (Parser.fail cause) (Parser.fail cause') after :=
  fun _ d abreast => .inr ⟨_, d, rfl, abreast.blocks, abreast.flag⟩

theorem throw (issue issue' : ParseIssue) :
    Mirrors short key (MonadExcept.throw issue) (MonadExcept.throw issue') after :=
  fun _ d abreast => .inr ⟨_, d, rfl, abreast.blocks, abreast.flag⟩

/-- Nothing comes after a failure. -/
theorem fail_bind (cause cause' : ParseCause) :
    Mirrors short key (Parser.fail cause >>= f) (Parser.fail cause' >>= g) after :=
  fun _ d abreast => .inr ⟨_, d, rfl, abreast.blocks, abreast.flag⟩

/-- A parser that fails for good is mirrored by every other. -/
theorem final {cause : ParseCause} (final : cause.isFinal = true) : Mirrors short key (Parser.fail cause) q after :=
  fun _ _ _ => .inl final

/-! ### Tokens -/

/-- Going on with what there is to be seen. -/
theorem get_bind {f g : Cursor → Parse β}
    (next : ∀ c d, Abreast short key c d → Mirrored short after (f c c) (g d d)) :
    Mirrors short key (MonadState.get >>= f) (MonadState.get >>= g) after :=
  next

theorem kind_bind {f g : TokenKind → Parse β}
    (templates : ∀ chunks chunks', g (.template chunks') = g (.template chunks))
    (next : ∀ c d, Abreast short key c d → Mirrored short after (f c.current.kind c) (g c.current.kind d)) :
    Mirrors short key (Parser.kind >>= f) (Parser.kind >>= g) after :=
  fun c d abreast => .kind_bind abreast templates (next c d abreast)

theorem position_bind {f g : Position → Parse β}
    (next : ∀ place place', Mirrors short key (f place) (g place') after) :
    Mirrors short key (Parser.position >>= f) (Parser.position >>= g) after :=
  fun c d abreast => next c.current.start d.current.start c d abreast

end Mirrors

theorem Mirrored.check (mark : Punct) (abreast : Abreast short key c d) {p q p' q' : Parse β}
    (yes : Mirrored short after (p c) (q d)) (no : Mirrored short after (p' c) (q' d)) :
    Mirrored short after ((do if ← checkPunct mark then p else p') c)
      ((do if ← checkPunct mark then q else q') d) := by
  refine .kind_bind (f := fun k => if k.isPunct mark = true then p else p')
    (g := fun k => if k.isPunct mark = true then q else q') abreast (fun _ _ => rfl) ?_
  exact .ite (fun _ => yes) fun _ => no

theorem Mirrored.position_bind {f g : Position → Parse β}
    (next : Mirrored short after (f c.current.start c) (g d.current.start d)) :
    Mirrored short after ((Parser.position >>= f) c) ((Parser.position >>= g) d) :=
  next

/-- Moving on from a token that is the same in both readings. -/
theorem Abreast.advance_bind_at (abreast : Abreast short false c d) {k : TokenKind} (here : c.current.kind = k)
    {p q : Parse β} (next : Mirrors short k.leadsKey p q after) :
    Mirrored short after ((Parser.advance >>= fun _ => p) c) ((Parser.advance >>= fun _ => q) d) := by
  subst here
  exact next _ _ abreast.advance

namespace Mirrors

variable {p q p' q' : Parse β}

/-- Going on in one way or another by a test of the token that no name passes. -/
theorem test (test : TokenKind → Bool)
    (templates : ∀ chunks chunks', test (.template chunks') = test (.template chunks))
    (names : ∀ name, test (.identifier name) = false)
    (yes : ∀ c d, test c.current.kind = true → Abreast short false c d → Mirrored short after (p c) (q d))
    (no : Mirrors short key p' q' after) :
    Mirrors short key (do if test (← Parser.kind) then p else p')
      (do if test (← Parser.kind) then q else q') after := by
  refine kind_bind (f := fun k => if test k = true then p else p') (g := fun k => if test k = true then q else q')
    (fun chunks chunks' => by rw [templates chunks chunks']) fun c d abreast => ?_
  refine .ite (fun passed => yes c d passed (abreast.plain fun name here => ?_)) fun _ => no c d abreast
  rw [here, names] at passed
  cases passed

theorem check (mark : Punct) (yes : Mirrors short false p q after) (no : Mirrors short key p' q' after) :
    Mirrors short key (do if ← Parser.checkPunct mark then p else p')
      (do if ← Parser.checkPunct mark then q else q') after :=
  test (·.isPunct mark) (fun _ _ => rfl) (fun _ => rfl) (fun c d _ => yes c d) no

theorem checkWord (word : Keyword) (yes : Mirrors short false p q after) (no : Mirrors short key p' q' after) :
    Mirrors short key (do if ← Parser.checkKeyword word then p else p')
      (do if ← Parser.checkKeyword word then q else q') after :=
  test (·.isKeyword word) (fun _ _ => rfl) (fun _ => rfl) (fun c d _ => yes c d) no

theorem ends (yes : Mirrors short false p q after) (no : Mirrors short key p' q' after) :
    Mirrors short key (do if ← Parser.atEof then p else p') (do if ← Parser.atEof then q else q') after :=
  test TokenKind.isEof (fun _ _ => rfl) (fun _ => rfl) (fun c d _ => yes c d) no

/-- Looking for a punctuator and moving past it. -/
theorem pass (mark : Punct) (yes : Mirrors short (TokenKind.punct mark).leadsKey p q after)
    (no : Mirrors short key p' q' after) :
    Mirrors short key (do if ← Parser.checkPunct mark then do { Parser.advance; p } else p')
      (do if ← Parser.checkPunct mark then do { Parser.advance; q } else q') after := by
  refine test (·.isPunct mark) (fun _ _ => rfl) (fun _ => rfl) (fun c d here abreast => ?_) no
  exact abreast.advance_bind_at (isPunct_iff.1 here) yes

theorem eatPunct_bind (mark : Punct) (p p' : Parse β) : (do if ← Parser.eatPunct mark then p else p') =
    (do if ← Parser.checkPunct mark then do { Parser.advance; p } else p') := by
  unfold Parser.eatPunct
  rw [bind_assoc]
  refine congrArg (Bind.bind _) (funext fun here => ?_)
  cases here with
  | true => simp
  | false => simp

theorem eat (mark : Punct) (yes : Mirrors short (TokenKind.punct mark).leadsKey p q after)
    (no : Mirrors short key p' q' after) :
    Mirrors short key (do if ← Parser.eatPunct mark then p else p')
      (do if ← Parser.eatPunct mark then q else q') after := by
  rw [eatPunct_bind, eatPunct_bind]
  exact pass mark yes no

theorem eatKeyword_bind (word : Keyword) (p p' : Parse β) : (do if ← Parser.eatKeyword word then p else p') =
    (do if ← Parser.checkKeyword word then do { Parser.advance; p } else p') := by
  unfold Parser.eatKeyword
  rw [bind_assoc]
  refine congrArg (Bind.bind _) (funext fun here => ?_)
  cases here with
  | true => simp
  | false => simp

theorem isKeyword_iff {k : TokenKind} {word : Keyword} : k.isKeyword word = true ↔ k = .keyword word := by
  cases k <;> simp [TokenKind.isKeyword]

theorem eatWord (word : Keyword) (yes : Mirrors short false p q after) (no : Mirrors short key p' q' after) :
    Mirrors short key (do if ← Parser.eatKeyword word then p else p')
      (do if ← Parser.eatKeyword word then q else q') after := by
  rw [eatKeyword_bind, eatKeyword_bind]
  refine test (·.isKeyword word) (fun _ _ => rfl) (fun _ => rfl) (fun c d here abreast => ?_) no
  exact abreast.advance_bind_at (isKeyword_iff.1 here) yes

/-- After a token of any kind a key may be next. -/
theorem advance : Mirrors short false Parser.advance Parser.advance fun _ => true :=
  fun _ d abreast => ⟨d.advance, rfl, abreast.advance.weaken⟩

theorem expectPunct (mark : Punct) (cause : ParseCause) :
    Mirrors short key (Parser.expectPunct mark cause) (Parser.expectPunct mark cause)
      fun _ => (TokenKind.punct mark).leadsKey :=
  eat mark (pure id) (fail cause cause)

theorem expectIdentifier :
    Mirrors short false Parser.expectIdentifier Parser.expectIdentifier fun _ => false := by
  refine kind_bind (fun _ _ => rfl) fun c d abreast => ?_
  generalize here : c.current.kind = k
  cases k with
  | identifier name =>
    exact abreast.advance_bind_at here (pure id)
  | _ => exact fail _ _ c d abreast

theorem unexpected : Mirrors short key (Parser.unexpected : Parse β) Parser.unexpected after := by
  refine kind_bind (fun _ _ => rfl) fun c d abreast => ?_
  exact .ite (fun _ => fail _ _ c d abreast) fun _ => fail _ _ c d abreast

/-- Statements end at the same points. -/
theorem endStatement : Mirrors short false Parser.endStatement Parser.endStatement fun _ => false := by
  refine eat _ (pure id) (get_bind fun c d abreast => ?_)
  rw [abreast.atStatementEnd]
  exact .ite (fun _ => pure id c d abreast) fun _ => unexpected c d abreast

/-! ### Names -/

theorem declare (kind : Option DeclKind) (place place' : Position) (name : String) :
    Mirrors short key (Parser.declare kind place name) (Parser.declare kind place' name) fun _ => key := by
  unfold Parser.declare
  refine ite (fun _ => failAt _ _ _ _) fun _ => ite (fun _ => pure id) fun _ => get_bind fun c d abreast => ?_
  rw [abreast.blocks]
  cases c.blocks with
  | nil => exact pure id c d abreast
  | cons block outer =>
    refine .ite (fun _ => failAt _ _ _ _ c d abreast) fun _ => ?_
    exact ⟨{ d with blocks := (name :: block) :: outer }, rfl, abreast.ahead, rfl, abreast.flag⟩

theorem declareAll (kind : Option DeclKind) (place place' : Position) (names : List String) :
    Mirrors short key (Parser.declareAll kind place names) (Parser.declareAll kind place' names) fun _ => key := by
  induction names with
  | nil => exact pure id
  | cons name names ih => exact bind (declare kind place place' name) fun _ => ih

/-! ### Loops -/

/-- The second reading has more tokens ahead, and may take more turns. -/
theorem iterate {turn turn' : α → Parse (Turn α β)} {flag : Bool}
    (each : ∀ a, Mirrors short key (turn a) (turn' a) (Turn.flag key flag)) (turns more : Nat) (a : α) :
    Mirrors short key (Parser.iterate turn turns a) (Parser.iterate turn' (turns + more) a) fun _ => flag := by
  induction turns generalizing a with
  | zero => exact final rfl
  | succ turns ih =>
    rw [Nat.succ_add]
    unfold Parser.iterate
    refine bind (each a) fun step => ?_
    cases step with
    | again a' => exact ih a'
    | done b => exact pure id

theorem repeatFrom {turn turn' : α → Parse (Turn α β)} {flag : Bool}
    (each : ∀ a, Mirrors short key (turn a) (turn' a) (Turn.flag key flag)) (a : α) :
    Mirrors short key (Parser.repeatFrom a turn) (Parser.repeatFrom a turn') fun _ => flag := by
  intro c d abreast
  -- A loop may take as many turns as there are tokens, and the second reading has some more.
  obtain ⟨more, length⟩ := Nat.exists_eq_add_of_le abreast.ahead.length_le
  have turns := iterate each (c.rest.length + 1) more a c d abreast
  rw [Nat.add_right_comm, ← length] at turns
  exact turns

/-! ### Flags and blocks -/

theorem allowingIn {p q : Parse α} {flag : α → Bool} (mirrors : Mirrors short key p q flag) :
    Mirrors short key (Parser.allowingIn p) (Parser.allowingIn q) flag := by
  intro c d abreast
  have inner := mirrors { c with noIn := false } { d with noIn := false } ⟨abreast.ahead, abreast.blocks, rfl⟩
  rw [allowingIn_run, allowingIn_run]
  exact inner.ended (fun _ => rfl) (fun _ => rfl) (fun _ _ blocks => blocks) fun _ _ _ => abreast.flag

theorem reservingIn {p q : Parse α} {flag : α → Bool} (mirrors : Mirrors short key p q flag) :
    Mirrors short key (Parser.reservingIn p) (Parser.reservingIn q) flag := by
  intro c d abreast
  have inner := mirrors { c with noIn := true } { d with noIn := true } ⟨abreast.ahead, abreast.blocks, rfl⟩
  rw [reservingIn_run, reservingIn_run]
  exact inner.ended (fun _ => rfl) (fun _ => rfl) (fun _ _ blocks => blocks) fun _ _ _ => rfl

theorem inBlock {p q : Parse α} {flag : α → Bool} (mirrors : Mirrors short key p q flag) :
    Mirrors short key (Parser.inBlock p) (Parser.inBlock q) flag := by
  intro c d abreast
  have opened : Abreast short key { c with blocks := [] :: c.blocks } { d with blocks := [] :: d.blocks } :=
    ⟨abreast.ahead, congrArg ([] :: ·) abreast.blocks, abreast.flag⟩
  have inner := mirrors _ _ opened
  rw [inBlock_run, inBlock_run]
  exact inner.ended (fun _ => rfl) (fun _ => rfl) (fun _ _ blocks => congrArg List.tail blocks) fun _ _ flag => flag

end Mirrors

end BindScript.Parser
