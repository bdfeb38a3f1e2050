import BindScript.Proofs.Progress.Expressions

/-!
# What statements pass

Statements begin with a word that is passed, with a brace or a semicolon, or with an expression. The head of a loop goes
past the parenthesis that closes it (`Heads`). A head without a declaration is tried as a pattern first, and what has
been read of it is put back if nothing comes of that. So what is passed is judged on the head as a whole
(`bareHead_of_none`): the second of two levels may take a pattern that the first one refuses, but then the first one
finds no counting loop there either (`expressionHead_fails`).
-/

namespace BindScript.Parser

variable {lower lower₁ lower₂ : Level}

/-- The parser moves, if it is at the word. -/
def MovesFrom {α : Type} (word : Keyword) (p q : Parse α) : Prop :=
  ∀ depth moved, PassesOn (.keyword word) ⟨depth + 1, moved⟩ p q fun _ => ⟨depth + 1, True⟩

/-- The parser goes past the parenthesis around it, and further. -/
def Heads {α : Type} (p q : Parse α) : Prop :=
  ∀ depth moved, Passes ⟨depth + 2, moved⟩ p q fun _ => ⟨depth + 1, True⟩

/-! ## Declarations -/

theorem Moves.parenthesized (lower : lower₁.Passes lower₂) :
    Moves (Parser.parenthesized lower₁) (Parser.parenthesized lower₂) := by
  intro depth moved
  refine (Passes.expectPunct rfl _).bind fun _ => (Moves.expression lower (depth + 1) True).bind fun e => ?_
  exact (Passes.expectPunct rfl _).bind fun _ => .pure rfl id

theorem Keeps.finishDeclarator (lower : lower₁.Passes lower₂) (kind : DeclKind) (pattern : Pattern) :
    Keeps (Parser.finishDeclarator lower₁ kind pattern) (Parser.finishDeclarator lower₂ kind pattern) := by
  intro depth moved
  refine (Keeps.defaultValue lower depth moved).bind fun init => ?_
  cases init with
  | some init => exact .pure rfl id
  | none =>
    cases pattern with
    | name id => exact .ite (.fail _) (.pure rfl fun m => m)
    | array | object => exact .fail _

theorem Moves.declarator (lower : lower₁.Passes lower₂) (kind : DeclKind) :
    Moves (Parser.declarator lower₁ kind) (Parser.declarator lower₂ kind) :=
  Keeps.position.moves_bind fun _ => lower.pattern.bind fun pattern =>
    (Keeps.declareAll _ _ _).bind fun _ => .finishDeclarator lower kind pattern

theorem KeepingTurns.declarator (lower : lower₁.Passes lower₂) (kind : DeclKind) :
    KeepingTurns (Parser.declaratorTurn lower₁ kind) (Parser.declaratorTurn lower₂ kind) := by
  intro depth moved found
  exact .eat rfl ((Moves.declarator lower kind depth True).bind fun d => .pure rfl id) (.pure rfl id)

theorem Keeps.moreDeclarators (lower : lower₁.Passes lower₂) (kind : DeclKind) (first : Declarator) :
    Keeps (Parser.moreDeclarators lower₁ kind first) (Parser.moreDeclarators lower₂ kind first) :=
  (KeepingTurns.declarator lower kind).repeatFrom [first]

theorem MovesFrom.declaration (lower : lower₁.Passes lower₂) (kind : DeclKind) {word : Keyword} :
    MovesFrom word (Parser.declaration lower₁ kind) (Parser.declaration lower₂ kind) := by
  intro depth moved
  refine .advance rfl ((Moves.declarator lower kind depth True).bind fun first => ?_)
  refine (Keeps.moreDeclarators lower kind first depth True).bind fun declarators => ?_
  exact (Keeps.endStatement depth True).bind fun _ => .pure rfl id

theorem MovesFrom.functionDeclaration (lower : lower₁.Passes lower₂) {word : Keyword} :
    MovesFrom word (Parser.functionDeclaration lower₁) (Parser.functionDeclaration lower₂) := by
  intro depth moved
  refine .advance rfl (.position_bind fun place => (Moves.expectIdentifier depth True).bind fun name => ?_)
  refine (Keeps.declare _ _ _ depth True).bind fun _ => ?_
  exact (Moves.functionRest lower depth True).bind fun f => .pure rfl id

/-! ## Bare bodies -/

theorem MovesFrom.branch (lower : lower₁.Passes lower₂) {word : Keyword} :
    MovesFrom word (Parser.branch lower₁) (Parser.branch lower₂) := by
  intro depth moved
  refine .advance rfl ((Moves.parenthesized lower depth True).bind fun test => ?_)
  refine (lower.statement depth True).bind fun consequent => .eatWord _ ?_ (.pure rfl id)
  exact (lower.statement depth True).bind fun alternate => .pure rfl id

theorem MovesFrom.whileLoop (lower : lower₁.Passes lower₂) {word : Keyword} :
    MovesFrom word (Parser.whileLoop lower₁) (Parser.whileLoop lower₂) := by
  intro depth moved
  refine .advance rfl ((Moves.parenthesized lower depth True).bind fun test => ?_)
  exact (lower.statement depth True).bind fun body => .pure rfl id

theorem MovesFrom.doWhile (lower : lower₁.Passes lower₂) {word : Keyword} :
    MovesFrom word (Parser.doWhile lower₁) (Parser.doWhile lower₂) := by
  intro depth moved
  refine .advance rfl ((lower.statement depth True).bind fun body => .eatWord _ ?_ (.fail_bind _))
  refine (Moves.parenthesized lower depth True).bind fun test => ?_
  have semicolon : Keeps (Parser.eatPunct .semicolon) (Parser.eatPunct .semicolon) :=
    fun _ _ => .check _ (.advance rfl (.pure rfl fun _ => trivial)) (.pure rfl id)
  exact (semicolon depth True).bind fun _ => .pure rfl id

/-! ## Heads of loops -/

/-- The word is passed only if it is one of the two, and then the parenthesis is closed behind the collection. -/
theorem Passes.forEach? (lower : lower₁.Passes lower₂) (kind : Option DeclKind) (pattern : Pattern) (depth : Nat)
    (moved : Prop) :
    Passes ⟨depth + 2, moved⟩ (Parser.forEach? lower₁ kind pattern) (Parser.forEach? lower₂ kind pattern) fun found =>
      found.elim ⟨depth + 2, moved⟩ fun _ => ⟨depth + 1, True⟩ := by
  have body : ∀ visits object, Passes ⟨depth + 2, True⟩
      (do
        Parser.expectPunct .closeParen .closeParenExpected
        return some (Stmt.forEach visits kind pattern object (← lower₁.statement)))
      (do
        Parser.expectPunct .closeParen .closeParenExpected
        return some (Stmt.forEach visits kind pattern object (← lower₂.statement)))
      (fun found => found.elim ⟨depth + 2, moved⟩ fun _ => ⟨depth + 1, True⟩) :=
    fun visits object => (Passes.expectPunct rfl _).bind fun _ =>
      (lower.statement depth True).bind fun s => .pure rfl id
  rw [forEach?_eq, forEach?_eq]
  refine .kind_bind fun k => ?_
  cases found : eachKind? k with
  | none => exact .any (.pure rfl id)
  | some visits =>
    have leads : k.depthAfter? (depth + 2) = some (depth + 2) := by
      unfold eachKind? at found
      split at found <;> first | rfl | cases found
    show PassesOn k _ (forEachOf lower₁ kind pattern visits) (forEachOf lower₂ kind pattern visits) _
    refine .advance leads ?_
    cases visits with
    | keys => exact (Moves.expression lower (depth + 1) True).bind (body .keys)
    | items => exact (lower.assignment (depth + 1) True).bind (body .items)

theorem Keeps.optionalBefore (lower : lower₁.Passes lower₂) (mark : Punct) :
    Keeps (Parser.optionalBefore lower₁ mark) (Parser.optionalBefore lower₂ mark) := by
  intro depth moved
  refine .check _ (.any (.pure rfl id)) ((Moves.expression lower depth moved).bind fun e => ?_)
  exact .pure rfl fun _ => trivial

theorem Heads.forRest (lower : lower₁.Passes lower₂) (init : ForInit) :
    Heads (Parser.forRest lower₁ init) (Parser.forRest lower₂ init) := by
  intro depth moved
  refine (Passes.expectPunct rfl _).bind fun _ => ?_
  refine (Keeps.optionalBefore lower _ (depth + 1) True).bind fun test => (Passes.expectPunct rfl _).bind fun _ => ?_
  refine (Keeps.optionalBefore lower _ (depth + 1) True).bind fun update => (Passes.expectPunct rfl _).bind fun _ => ?_
  exact (lower.statement depth True).bind fun body => .pure rfl id

theorem depthAfter?_of_declKind? {k : TokenKind} {kind : DeclKind} (found : declKind? k = some kind) (depth : Nat) :
    k.depthAfter? (depth + 1) = some (depth + 1) := by
  unfold declKind? at found
  split at found <;> first | rfl | cases found

theorem PassesOn.forDeclaration (lower : lower₁.Passes lower₂) (kind : DeclKind) {k : TokenKind} {depth : Nat}
    {moved : Prop} (leads : k.depthAfter? (depth + 2) = some (depth + 2)) :
    PassesOn k ⟨depth + 2, moved⟩ (Parser.forDeclaration lower₁ kind) (Parser.forDeclaration lower₂ kind)
      fun _ => ⟨depth + 1, True⟩ := by
  refine .advance leads (.position_bind fun place => (lower.pattern (depth + 1) True).bind fun pattern => ?_)
  refine (Keeps.declareAll _ _ _ (depth + 1) True).bind fun _ => ?_
  refine (Passes.forEach? lower (some kind) pattern depth True).bind fun found => ?_
  cases found with
  | some loop => exact .pure rfl id
  | none =>
    have declarators := (Keeps.finishDeclarator lower kind pattern).bind fun first =>
      Keeps.moreDeclarators lower kind first
    exact (declarators (depth + 1) True).reservingIn.bind fun _ => Heads.forRest lower _ depth True

/-- A head that begins with an expression. -/
def expressionHead (lower : Level) : Parse Stmt := do
  forRest lower (.expr (← reservingIn (expression lower)))

/-- A head without a declaration. -/
def bareHead (lower : Level) : Parse Stmt := do
  match ← bareForEach? lower with
  | some loop => return loop
  | none => expressionHead lower

theorem Heads.expressionHead (lower : lower₁.Passes lower₂) :
    Heads (Parser.expressionHead lower₁) (Parser.expressionHead lower₂) :=
  fun depth moved => (Moves.expression lower (depth + 1) moved).reservingIn.bind fun _ =>
    Heads.forRest lower _ depth True

section Bare

variable {c c' c₁ c₂ : Cursor}

/-- Where nothing comes of the pattern, the head is read as if it had not been tried. -/
theorem bareHead_of_none (scopes : lower.KeepsScopes) (run : bareForEach? lower c = .ok none c') :
    bareHead lower c = expressionHead lower c := by
  obtain ⟨rest, blocks⟩ := of_bareForEach?_none scopes run
  unfold bareHead
  rw [run_ok run]
  show (reservingIn (expression lower) >>= fun e => forRest lower (.expr e)) c' =
    (reservingIn (expression lower) >>= fun e => forRest lower (.expr e)) c
  show EStateM.bind _ _ c' = EStateM.bind _ _ c
  unfold EStateM.bind
  rw [reservingIn_congr _ rest blocks]

theorem bareForEach?_of_error {issue : ParseIssue} (refused : lower.pattern c = .error issue c') :
    bareForEach? lower c = .ok none { c' with rest := c.rest } := by
  unfold bareForEach?
  rw [refused]

theorem bareForEach?_of_ok {pattern : Pattern} (read : lower.pattern c = .ok pattern c') :
    bareForEach? lower c = match forEach? lower none pattern c' with
      | .error issue c'' => .error issue c''
      | .ok (some loop) c'' => .ok (some loop) c''
      | .ok none c'' => .ok none { c'' with rest := c.rest } := by
  unfold bareForEach?
  exact read ▸ rfl

/-- A counting loop does not go on with the word of a loop over a collection. -/
theorem forRest_fails (lower : Level) (init : ForInit) (word : eachKind? c.current.kind ≠ none) :
    ∃ issue c', forRest lower init c = .error issue c' := by
  cases run : forRest lower init c with
  | error issue c' => exact ⟨issue, c', rfl⟩
  | ok s c' =>
    obtain ⟨_, _, passed, -⟩ := exists_of_run run
    rw [(of_expectPunct passed).1] at word
    exact absurd rfl word

/-- What is not accepted need not be followed. -/
theorem PassesAt.of_fails {α : Type} {s : Mark} {e : α → Mark} {r r' r'' : EStateM.Result ParseIssue Cursor α}
    (passes : PassesAt s e c r r') (fails : ∃ issue c', r = .error issue c') : PassesAt s e c r r'' := by
  obtain ⟨issue, c', rfl⟩ := fails
  exact passes

/-- What the second level takes for the pattern of a loop over a collection, but the first one does not, is no head for
the first one at all. -/
theorem expressionHead_fails (lower : lower₁.Passes lower₂) (ended : c.Ended) {issue : ParseIssue} {pattern : Pattern}
    (refused : lower₁.pattern c = .error issue c') (read : lower₂.pattern c = .ok pattern c₁)
    (word : eachKind? c₁.current.kind ≠ none) : ∃ issue c', expressionHead lower₁ c = .error issue c' := by
  cases run : expressionHead lower₁ c with
  | error issue c' => exact ⟨issue, c', rfl⟩
  | ok s c' =>
    obtain ⟨e, c₂, value, rest⟩ := exists_of_run run
    have same : c₂.rest = c₁.rest := lower.heads c ended _ _ _ _ refused read word e c₂ value
    have here : c₂.current = c₁.current := by
      unfold Cursor.current
      rw [same]
    obtain ⟨issue, c'', fails⟩ := forRest_fails lower₁ (.expr e) (here ▸ word)
    cases fails.symm.trans rest

/-- Where the first level takes the head for a pattern, both try the same loop, and both go back if it is none. -/
theorem PassesAt.bareForEach? (lower : lower₁.Passes lower₂) (ended : c.Ended) {pattern : Pattern}
    (read : lower₁.pattern c = .ok pattern c₁) (depth : Nat) (moved : Prop) :
    PassesAt ⟨depth + 2, moved⟩ (fun found => found.elim ⟨depth + 2, moved⟩ fun _ => ⟨depth + 1, True⟩) c
      (Parser.bareForEach? lower₁ c) (Parser.bareForEach? lower₂ c) := by
  have same := lower.pattern (depth + 1) moved c ended
  rw [read] at same
  obtain ⟨read', comes⟩ := same
  rw [bareForEach?_of_ok read, bareForEach?_of_ok read']
  have loop := Passes.forEach? lower none pattern depth True c₁ (comes.ended ended)
  cases run : Parser.forEach? lower₁ none pattern c₁ with
  | error issue c₂ =>
    rw [run] at loop
    exact ⟨loop.1.trans comes.suffix, loop.2⟩
  | ok found c₂ =>
    rw [run] at loop
    obtain ⟨run', onward⟩ := loop
    rw [run']
    cases found with
    | some s => exact ⟨rfl, comes.trans onward⟩
    | none => exact ⟨rfl, [], rfl, rfl, .inl⟩

/-- After an attempt that gave nothing the expression is read from where that began. The second parser may get further
with its attempt, but not where the expression is accepted. -/
theorem Heads.bareHead (lower : lower₁.Passes lower₂) : Heads (Parser.bareHead lower₁) (Parser.bareHead lower₂) := by
  intro depth moved c ended
  have asExpression := Heads.expressionHead lower depth moved c ended
  cases first : lower₁.pattern c with
  | error issue c₁ =>
    rw [bareHead_of_none lower.scopes₁ (bareForEach?_of_error first)]
    cases second : lower₂.pattern c with
    | error issue' c₂ =>
      rw [bareHead_of_none lower.scopes₂ (bareForEach?_of_error second)]
      exact asExpression
    | ok pattern c₂ =>
      by_cases word : eachKind? c₂.current.kind = none
      · have none := bareForEach?_of_ok second
        rw [forEach?_of_none _ _ _ word] at none
        rw [bareHead_of_none lower.scopes₂ none]
        exact asExpression
      · exact asExpression.of_fails (expressionHead_fails lower ended first second word)
  | ok pattern c₁ =>
    refine (PassesAt.bareForEach? lower ended first depth moved).bind ended fun found c' ended' => ?_
    cases found with
    | some loop => exact ⟨rfl, .refl rfl id⟩
    | none => exact Heads.expressionHead lower depth moved c' ended'

end Bare

theorem Heads.forHead (lower : lower₁.Passes lower₂) : Heads (Parser.forHead lower₁) (Parser.forHead lower₂) := by
  intro depth moved
  refine .kind_bind fun k => ?_
  cases found : declKind? k with
  | some kind => exact .forDeclaration lower kind (depthAfter?_of_declKind? found (depth + 1))
  | none => exact .any (.check _ (.any (Heads.forRest lower _ depth moved)) (Heads.bareHead lower depth moved))

theorem MovesFrom.forLoop (lower : lower₁.Passes lower₂) {word : Keyword} :
    MovesFrom word (Parser.forLoop lower₁) (Parser.forLoop lower₂) := by
  intro depth moved
  exact .advance rfl ((Passes.expectPunct rfl _).bind fun _ => (Heads.forHead lower depth True).inBlock)

/-! ## Handlers and cases -/

theorem Moves.catchClause (lower : lower₁.Passes lower₂) :
    Moves (Parser.catchClause lower₁) (Parser.catchClause lower₂) := by
  intro depth moved
  refine Passes.inBlock (.eat rfl (.position_bind fun place => ?_) (Moves.body lower _ depth moved))
  refine (Moves.expectIdentifier (depth + 1) True).bind fun name => ?_
  refine (Keeps.declare _ _ _ (depth + 1) True).bind fun _ => ?_
  exact (Passes.expectPunct rfl _).bind fun _ => Moves.body lower _ depth True

theorem MovesFrom.attempt (lower : lower₁.Passes lower₂) {word : Keyword} :
    MovesFrom word (Parser.attempt lower₁) (Parser.attempt lower₂) := by
  intro depth moved
  refine .advance rfl ((Moves.expectBlock lower depth True).bind fun statements => ?_)
  have finally_ : ∀ handler : Option Handler, Passes ⟨depth + 1, True⟩
      (do
        let finalizer ←
          if ← Parser.eatKeyword .finally then Pure.pure (some (← Parser.expectBlock lower₁))
          else Pure.pure none
        if handler.isNone && finalizer.isNone then Parser.fail .catchExpected
        return Stmt.attempt statements handler finalizer)
      (do
        let finalizer ←
          if ← Parser.eatKeyword .finally then Pure.pure (some (← Parser.expectBlock lower₂))
          else Pure.pure none
        if handler.isNone && finalizer.isNone then Parser.fail .catchExpected
        return Stmt.attempt statements handler finalizer)
      (fun _ => ⟨depth + 1, True⟩) := by
    intro handler
    refine .eatWord _ ?_ (.ite (.fail_bind _) (.pure rfl id))
    exact (Moves.expectBlock lower depth True).bind fun finalizer => .ite (.fail_bind _) (.pure rfl id)
  exact .eatWord _ ((Moves.catchClause lower depth True).bind fun handler => finally_ (some handler)) (finally_ none)

theorem Moves.caseLabel (lower : lower₁.Passes lower₂) (seenDefault : Bool) :
    Moves (Parser.caseLabel lower₁ seenDefault) (Parser.caseLabel lower₂ seenDefault) := by
  intro depth moved
  refine .eatWord _ ((Moves.expression lower depth True).bind fun e => .pure rfl id) ?_
  refine .checkWord _ (.ite (.any (.fail_bind _)) (.advance rfl (.pure rfl id))) ?_
  exact .atEof_bind fun eof => .ite (.fail _) (.fail _)

theorem KeepingTurns.caseBody (lower : lower₁.Passes lower₂) :
    KeepingTurns (Parser.caseBodyTurn lower₁) (Parser.caseBodyTurn lower₂) := by
  intro depth moved found
  exact .kind_bind fun k => .any (.ite (.pure rfl id) (.nextStatement lower))

theorem ClosingTurns.case (lower : lower₁.Passes lower₂) :
    ClosingTurns (Parser.caseTurn lower₁) (Parser.caseTurn lower₂) := by
  intro depth moved found
  refine .eat rfl (.pure rfl fun _ => trivial) ((Moves.caseLabel lower _ depth moved).bind fun test => ?_)
  refine (Passes.expectPunct rfl _).bind fun _ => ?_
  exact ((KeepingTurns.caseBody lower).repeatFrom [] depth True).bind fun statements => .pure rfl id

theorem MovesFrom.switch (lower : lower₁.Passes lower₂) {word : Keyword} :
    MovesFrom word (Parser.switch lower₁) (Parser.switch lower₂) := by
  intro depth moved
  refine .advance rfl ((Moves.parenthesized lower depth True).bind fun discriminant => ?_)
  refine (Passes.expectPunct rfl _).bind fun _ => ?_
  exact ((ClosingTurns.case lower).repeatFrom [] (depth + 1) True).inBlock.bind fun cases => .pure rfl id

/-! ## Levels -/

theorem MovesFrom.returnStatement (lower : lower₁.Passes lower₂) {word : Keyword} :
    MovesFrom word (Parser.returnStatement lower₁) (Parser.returnStatement lower₂) := by
  intro depth moved
  have last : ∀ value, Passes ⟨depth + 1, True⟩ (do Parser.endStatement; return Stmt.ret value)
      (do Parser.endStatement; return Stmt.ret value) fun _ => ⟨depth + 1, True⟩ :=
    fun value => (Keeps.endStatement depth True).bind fun _ => .pure rfl id
  refine .advance rfl (.test _ (last none) ?_)
  exact (Moves.expression lower depth True).bind fun e => last (some e)

theorem MovesFrom.throwStatement (lower : lower₁.Passes lower₂) {word : Keyword} :
    MovesFrom word (Parser.throwStatement lower₁) (Parser.throwStatement lower₂) := by
  intro depth moved
  refine .advance rfl (.test _ (.fail_bind _) ((Moves.expression lower depth True).bind fun value => ?_))
  exact (Keeps.endStatement depth True).bind fun _ => .pure rfl id

/-- By the token at the cursor. Each kind of statement passes the word that it begins with, and expressions pass
something themselves. -/
theorem Moves.statement (lower : lower₁.Passes lower₂) :
    Moves (Parser.statement lower₁) (Parser.statement lower₂) := by
  intro depth moved
  have jump : ∀ s : Stmt, Passes ⟨depth + 1, True⟩ (do Parser.endStatement; return s)
      (do Parser.endStatement; return s) fun _ => ⟨depth + 1, True⟩ :=
    fun s => (Keeps.endStatement depth True).bind fun _ => .pure rfl id
  refine .kind_bind fun k => ?_
  split
  · exact .advance rfl (.pure rfl id)
  · exact .advance rfl ((Closes.block lower (depth + 1) True).bind fun statements => .pure rfl id)
  · exact MovesFrom.declaration lower _ depth moved
  · exact MovesFrom.declaration lower _ depth moved
  · exact MovesFrom.declaration lower _ depth moved
  · exact MovesFrom.branch lower depth moved
  · exact MovesFrom.whileLoop lower depth moved
  · exact MovesFrom.doWhile lower depth moved
  · exact MovesFrom.forLoop lower depth moved
  · exact MovesFrom.returnStatement lower depth moved
  · exact .advance rfl (jump _)
  · exact .advance rfl (jump _)
  · exact MovesFrom.throwStatement lower depth moved
  · exact MovesFrom.attempt lower depth moved
  · exact MovesFrom.switch lower depth moved
  · exact MovesFrom.functionDeclaration lower depth moved
  · exact .any ((Moves.expression lower depth moved).bind fun e => jump _)

theorem KeepingTurns.program (lower : lower₁.Passes lower₂) :
    KeepingTurns (Parser.programTurn lower₁) (Parser.programTurn lower₂) := by
  intro depth moved found
  exact .atEof_bind fun eof => .ite (.pure rfl id) (.nextStatement lower)

theorem Keeps.program (lower : lower₁.Passes lower₂) : Keeps (Parser.program lower₁) (Parser.program lower₂) :=
  (KeepingTurns.program lower).repeatFrom []

end BindScript.Parser
