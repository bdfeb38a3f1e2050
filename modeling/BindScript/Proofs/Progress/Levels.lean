import BindScript.Proofs.Progress.Statements

/-!
# Levels above each other

A level passes what it accepts, and a level above it, which may nest deeper, gives the same (`level_passes`). The one
thing that speaks against it is a head of a loop that is a pattern for the level above only. That pattern is a list in
brackets or braces. As an expression it is a literal, which ends at the same bracket, since what closes a bracket is
settled by the tokens (`Cursor.Group.rest_eq`). After it the word of a loop over a collection goes on with no
expression, so an expression cannot be followed by a semicolon there.
-/

namespace BindScript.Parser

variable {lower lower₁ lower₂ : Level} {c c₁ c₂ : Cursor} {e : Expr}

/-! ## Groups -/

/-- A bracket has been passed, up to the one that closes it. -/
def Cursor.Group (c c' : Cursor) : Prop :=
  ∃ inner, c.rest = c.current :: (inner ++ c'.rest) ∧ depthAfter? 1 inner = some 0

/-- The cursor is at a bracket or a brace that opens. -/
def Cursor.Opens (c : Cursor) : Prop :=
  c.current.kind = .punct .openBracket ∨ c.current.kind = .punct .openBrace

theorem Cursor.Group.rest_eq (group : c.Group c₁) (group' : c.Group c₂) : c₁.rest = c₂.rest := by
  obtain ⟨inner, split, closed⟩ := group
  obtain ⟨inner', split', closed'⟩ := group'
  exact rest_eq_of_closed closed closed' (List.cons.inj (split.symm.trans split')).2

theorem Cursor.Opens.ne_eof (opens : c.Opens) : c.current.kind ≠ .eof := by
  rcases opens with here | here <;> rw [here] <;> exact nofun

/-- What goes on after the bracket up to the one that closes it. -/
theorem Cursor.Opens.group {α : Type} {p : Parse α} {a : α} (opens : c.Opens) (ended : c.Ended) (closes : Closes p p)
    (run : p c.advance = .ok a c₁) : c.Group c₁ := by
  have rest := ended.advance_rest opens.ne_eof
  have ended' : c.advance.Ended :=
    Cursor.Ended.of_append ended (List.singleton_append ▸ rest) (List.forall_mem_singleton.2 opens.ne_eof)
  have passes := closes 0 True c.advance ended'
  rw [run] at passes
  obtain ⟨-, inner, split, closed, -⟩ := passes
  exact ⟨inner, by rw [← split]; exact rest, closed⟩

theorem group_of_pattern (passes : lower.Passes lower) (ended : c.Ended) (opens : c.Opens) {pattern : Pattern}
    (read : bindingPattern lower c = .ok pattern c₁) : c.Group c₁ := by
  have here := opens
  unfold bindingPattern at read
  rw [run_kind] at read
  rcases here with here | here
  · rw [here] at read
    exact opens.group ended ((ClosingTurns.arrayPattern passes).repeatFrom []) read
  · rw [here] at read
    exact opens.group ended ((ClosingTurns.objectPattern passes).repeatFrom []) read

theorem advance_noIn (c : Cursor) : c.advance.noIn = c.noIn := by
  unfold Cursor.advance
  split <;> rfl

theorem noIn_of_allowingIn {α : Type} {p : Parse α} {a : α} (run : allowingIn p c = .ok a c₁) : c₁.noIn = c.noIn := by
  unfold allowingIn at run
  cases inner : p { c with noIn := false } with
  | ok b c' =>
    rw [inner] at run
    cases run
    rfl
  | error issue c' =>
    rw [inner] at run
    cases run

/-- A list as a literal goes up to the bracket that closes it, and `in` is reserved behind it as it was before. -/
theorem group_of_primary (passes : lower.Passes lower) (ended : c.Ended) (opens : c.Opens)
    (read : primary lower c = .ok e c₁) : c.Group c₁ ∧ c₁.noIn = c.noIn := by
  have here := opens
  unfold primary at read
  rw [run_kind] at read
  rcases here with here | here
  · rw [here] at read
    have closes : ∀ depth moved, Passes ⟨depth + 1, moved⟩ (allowingIn (repeatFrom [] (arrayTurn lower)))
        (allowingIn (repeatFrom [] (arrayTurn lower))) fun _ => ⟨depth, moved⟩ :=
      fun depth moved => ((ClosingTurns.array passes).repeatFrom [] depth moved).allowingIn
    exact ⟨opens.group ended closes read, (noIn_of_allowingIn read).trans (advance_noIn c)⟩
  · rw [here] at read
    exact ⟨opens.group ended (Closes.objectLiteral passes) read, (noIn_of_allowingIn read).trans (advance_noIn c)⟩

/-- The two levels take different heads for patterns only if these are lists. -/
theorem opens_of_refused {issue : ParseIssue} {pattern : Pattern} (refused : bindingPattern lower₁ c = .error issue c₁)
    (read : bindingPattern lower₂ c = .ok pattern c₂) : c.Opens := by
  by_contra closed
  have plain : c.Plain := ⟨fun here => closed (.inl here), fun here => closed (.inr here)⟩
  rw [bindingPattern_of_plain lower₁ lower₂ plain, read] at refused
  cases refused

/-! ## Ends of expressions -/

/-- At the word of a loop over a collection an expression ends where `in` is reserved. -/
structure Cursor.AtWord (c : Cursor) : Prop where
  word : c.current.kind = .keyword .in ∨ ∃ name, c.current.kind = .identifier name
  reserved : c.noIn = true

theorem word_of_eachKind? {k : TokenKind} (found : eachKind? k ≠ none) :
    k = .keyword .in ∨ ∃ name, k = .identifier name := by
  unfold eachKind? at found
  split at found
  · exact .inl rfl
  · exact .inr ⟨_, rfl⟩
  · exact absurd rfl found

namespace Cursor.AtWord

/-- Such a word is neither an operator nor a mark. -/
theorem isPunct (at_ : c.AtWord) (mark : Punct) : c.current.kind.isPunct mark = false := by
  rcases at_.word with here | ⟨name, here⟩ <;> rw [here] <;> rfl

theorem updateOp? (at_ : c.AtWord) : updateOp? c.current.kind = none := by
  rcases at_.word with here | ⟨name, here⟩ <;> rw [here] <;> rfl

theorem assignOp? (at_ : c.AtWord) : assignOp? c.current.kind = none := by
  rcases at_.word with here | ⟨name, here⟩ <;> rw [here] <;> rfl

theorem binaryOp? (at_ : c.AtWord) : binaryOp? (!c.noIn) c.current.kind = none := by
  rw [at_.reserved]
  rcases at_.word with here | ⟨name, here⟩ <;> rw [here] <;> rfl

theorem eatPunct (at_ : c.AtWord) (mark : Punct) : eatPunct mark c = .ok false c := by
  rw [eatPunct_apply, at_.isPunct, if_neg Bool.false_ne_true]

theorem chainTurn (at_ : c.AtWord) (lower : Level) (e : Expr) : chainTurn lower e c = .ok (.done e) c := by
  unfold Parser.chainTurn
  rw [run_kind]
  rcases at_.word with here | ⟨name, here⟩ <;> rw [here] <;> rfl

theorem binaryTurn (at_ : c.AtWord) (lower : Level) (loosest : Nat) (e : Expr) :
    binaryTurn lower loosest e c = .ok (.done e) c := by
  unfold Parser.binaryTurn
  rw [run_get, at_.binaryOp?]
  rfl

end Cursor.AtWord

/-! ## Beginnings of expressions -/

/-- Neither an arrow function nor an operator begins here. -/
structure Cursor.AtOperand (c : Cursor) : Prop where
  arrow : arrowAhead c.rest = false
  unary : unaryOp? c.current.kind = none
  update : updateOp? c.current.kind = none

theorem Cursor.AtOperand.of_kind {k : TokenKind} (here : c.current.kind = k) (names : ∀ name, k ≠ .identifier name)
    (paren : k ≠ .punct .openParen) (unary : unaryOp? k = none) (update : updateOp? k = none) : c.AtOperand := by
  refine ⟨?_, here ▸ unary, here ▸ update⟩
  obtain ⟨rest, blocks, noIn⟩ := c
  match rest with
  | [] => rfl
  | t :: ts =>
    have here : t.kind = k := here
    simp only [arrowAhead]
    split
    · next name kind => exact absurd (here.symm.trans kind) (names name)
    · next kind => exact absurd (here.symm.trans kind) paren
    · rfl

theorem Cursor.Opens.atOperand (opens : c.Opens) : c.AtOperand := by
  rcases opens with here | here
  · exact .of_kind here nofun nofun rfl rfl
  · exact .of_kind here nofun nofun rfl rfl

namespace Cursor.AtOperand

theorem unary_eq (at_ : c.AtOperand) (lower : Level) : Parser.unary lower c = postfixed lower c := by
  unfold Parser.unary
  rw [run_kind, at_.unary]
  dsimp only
  rw [at_.update]

theorem assignment_eq (at_ : c.AtOperand) (lower : Level) : assignment lower c = (do
    let target ← conditional lower
    match assignOp? (← kind) with
    | none => return target
    | some op =>
      if target.isSimpleTarget then
        Parser.advance
        return .assign op target (← lower.assignment)
      else failAt .invalidTarget c.current.start : Parse Expr) c := by
  unfold assignment
  rw [run_get, at_.arrow]
  rfl

/-- What is accepted here as an expression has an operand to begin with. -/
theorem exists_primary (at_ : c.AtOperand) {n : Nat} (run : expression (level (n + 1)) c = .ok e c₂) :
    ∃ k e' c₁, n = k + 1 ∧ primary (level k) c = .ok e' c₁ := by
  obtain ⟨_, _, assigned, -⟩ := exists_of_run run
  change assignment (level n) c = _ at assigned
  rw [at_.assignment_eq] at assigned
  obtain ⟨_, _, condition, -⟩ := exists_of_run assigned
  obtain ⟨_, _, joined, -⟩ := exists_of_run condition
  obtain ⟨_, _, operand, -⟩ := exists_of_run joined
  cases n with
  | zero => cases operand
  | succ k =>
    -- the operand itself is read at the level below the one that reads its operators
    change Parser.unary (level k) c = _ at operand
    rw [at_.unary_eq] at operand
    obtain ⟨_, _, here, operand⟩ := exists_of_run operand
    cases here
    obtain ⟨_, _, chain, -⟩ := exists_of_run operand
    obtain ⟨e', c₁, first, -⟩ := exists_of_run chain
    exact ⟨k, e', c₁, rfl, first⟩

end Cursor.AtOperand

/-- A literal before such a word is the whole expression. -/
theorem expression_of_primary {k : Nat} (begins : c.AtOperand) (first : primary (level k) c = .ok e c₁)
    (at_ : c₁.AtWord) : expression (level (k + 2)) c = .ok e c₁ := by
  have chain : callChain (level k) c = .ok e c₁ := (run_ok first _).trans (repeatFrom_done (at_.chainTurn _ e))
  have alone : postfixed (level k) c = .ok e c₁ := by
    refine (run_ok chain _).trans ?_
    show (if c₁.current.newlineBefore = true then Pure.pure e else _ : Parse Expr) c₁ = _
    rw [at_.updateOp?]
    split <;> rfl
  have operand : (level (k + 1)).unary c = .ok e c₁ := (begins.unary_eq _).trans alone
  have joined : binary (level (k + 1)) 1 c = .ok e c₁ :=
    (run_ok operand _).trans (repeatFrom_done (at_.binaryTurn _ 1 e))
  have condition : conditional (level (k + 1)) c = .ok e c₁ :=
    (run_ok joined _).trans (run_ok (at_.eatPunct .question) _)
  have assigned : (level (k + 2)).assignment c = .ok e c₁ := by
    refine (begins.assignment_eq _).trans ((run_ok condition _).trans ?_)
    rw [run_kind, at_.assignOp?]
    rfl
  refine (run_ok assigned _).trans ?_
  show (if c₁.current.kind.isPunct .comma = true then _ else Pure.pure e : Parse Expr) c₁ = _
  rw [at_.isPunct, if_neg Bool.false_ne_true]
  rfl

/-! ## Levels -/

/-- At the last level nothing is accepted. -/
theorem exhausted_passes {lower : Level} (scopes : lower.KeepsScopes) : Level.exhausted.Passes lower where
  assignment := fun _ _ => .fail _
  unary := fun _ _ => .fail _
  operand := fun _ _ _ => .fail _
  statement := fun _ _ => .fail _
  pattern := fun _ _ => .fail _
  scopes₁ := level_keepsScopes 0
  scopes₂ := scopes
  heads := by
    intro c ended issue c' pattern c₁ refused read word e c₂ value
    cases value

/-- From two levels to the ones above. -/
theorem Level.Passes.above {n m : Nat} (lower : (level n).Passes (level m))
    (heads : (level (n + 1)).HeadsStop (level (m + 1))) : (level (n + 1)).Passes (level (m + 1)) where
  assignment := .assignment lower
  unary := .unary lower
  operand := .binary lower
  statement := .statement lower
  pattern := .bindingPattern lower
  scopes₁ := level_keepsScopes _
  scopes₂ := level_keepsScopes _
  heads := heads

theorem level_passes_self (n : Nat) : (level n).Passes (level n) := by
  induction n with
  | zero => exact exhausted_passes (level_keepsScopes 0)
  | succ n lower =>
    refine lower.above fun c _ issue c' pattern c₁ refused read => ?_
    cases refused.symm.trans read

/-- An expression that begins with a list ends with it where such a word comes next and `in` is reserved. -/
theorem rest_eq_of_list {n : Nat} (ended : c.Ended) (opens : c.Opens) (reserved : c.noIn = true) (group : c.Group c₁)
    (word : eachKind? c₁.current.kind ≠ none) (run : expression (level (n + 1)) c = .ok e c₂) :
    c₂.rest = c₁.rest := by
  obtain ⟨k, e', c₃, rfl, first⟩ := opens.atOperand.exists_primary run
  obtain ⟨group', still⟩ := group_of_primary (level_passes_self k) ended opens first
  have same : c₃.rest = c₁.rest := group'.rest_eq group
  have here : c₃.current = c₁.current := by
    unfold Cursor.current
    rw [same]
  -- the literal stops at the word, and nothing that may come after an operand goes on there
  have at_ : c₃.AtWord := ⟨here ▸ word_of_eachKind? word, still.trans reserved⟩
  cases (expression_of_primary opens.atOperand first at_).symm.trans run
  exact same

/-- Behind a head that the level above takes for a pattern, but this one does not, an expression ends where the pattern
does. -/
theorem heads_stop (n m : Nat) : (level (n + 1)).HeadsStop (level (m + 1)) := by
  intro c ended issue c' pattern c₁ refused read word e c₂ value
  have opens : c.Opens := opens_of_refused refused read
  have group : c.Group c₁ := group_of_pattern (level_passes_self m) ended opens read
  rw [reservingIn_run] at value
  cases run : expression (level (n + 1)) { c with noIn := true } with
  | error issue c₃ =>
    rw [run] at value
    cases value
  | ok e' c₃ =>
    rw [run] at value
    cases value
    have same : c₃.rest = c₁.rest := rest_eq_of_list (c := { c with noIn := true }) ended opens rfl group word run
    exact same

/-- What a level accepts it passes, and a level above it gives the same. -/
theorem level_passes {n m : Nat} (le : n ≤ m) : (level n).Passes (level m) := by
  induction n generalizing m with
  | zero => exact exhausted_passes (level_keepsScopes m)
  | succ n ih =>
    obtain ⟨m, rfl⟩ : ∃ m', m = m' + 1 := Nat.exists_eq_add_one.2 (by omega)
    exact (ih (Nat.le_of_succ_le_succ le)).above (heads_stop n m)

end BindScript.Parser
