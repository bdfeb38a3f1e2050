import BindScript.Proofs.Progress.Passages

/-!
# What patterns and expressions pass

From two levels that pass the same (`Level.Passes`): each construct of the one level passes what it accepts, the same
construct of the other one gives the same, and the turns of a loop that goes on have moved. A list goes up to the
bracket that closes it, and its items close all that they open. For one level, taken twice, this is about the level
alone.
-/

namespace BindScript.Parser

variable {α β : Type}

/-- Where a head of a loop is refused as a pattern by the first level only, and would be followed by a collection, an
expression in its place ends where that pattern would. -/
def Level.HeadsStop (lower₁ lower₂ : Level) : Prop :=
  ∀ c : Cursor, c.Ended → ∀ issue c' pattern c₁,
    lower₁.pattern c = .error issue c' → lower₂.pattern c = .ok pattern c₁ →
    eachKind? c₁.current.kind ≠ none → ∀ e c₂, reservingIn (expression lower₁) c = .ok e c₂ → c₂.rest = c₁.rest

/-- The parsers of two levels move, and what the first one of them accepts the second one does too. -/
structure Level.Passes (lower₁ lower₂ : Level) : Prop where
  assignment : Moves lower₁.assignment lower₂.assignment
  unary : Moves lower₁.unary lower₂.unary
  operand : ∀ loosest, Moves (lower₁.operand loosest) (lower₂.operand loosest)
  statement : Moves lower₁.statement lower₂.statement
  pattern : Moves lower₁.pattern lower₂.pattern
  scopes₁ : lower₁.KeepsScopes
  scopes₂ : lower₂.KeepsScopes
  heads : lower₁.HeadsStop lower₂

variable {lower₁ lower₂ : Level}

/-! ## Patterns -/

theorem Keeps.defaultValue (lower : lower₁.Passes lower₂) :
    Keeps (Parser.defaultValue lower₁) (Parser.defaultValue lower₂) := by
  intro depth moved
  refine .eat rfl ((lower.assignment depth True).bind fun e => ?_) (.pure rfl id)
  exact .pure rfl fun _ => trivial

theorem ClosingTurns.arrayPattern (lower : lower₁.Passes lower₂) :
    ClosingTurns (Parser.arrayPatternTurn lower₁) (Parser.arrayPatternTurn lower₂) := by
  intro depth moved found
  refine .eat rfl (.pure rfl fun _ => trivial) (.eat rfl (.pure rfl id) (.eat rfl ?_ ?_))
  · refine (lower.pattern depth True).bind fun rest => ?_
    exact .eat rfl (.pure rfl fun _ => trivial) (.check _ (.any (.fail _)) (.fail _))
  · refine (lower.pattern depth moved).bind fun target => (Keeps.defaultValue lower depth True).bind fun default => ?_
    exact .eat rfl (.pure rfl id) ((Passes.expectPunct rfl _).bind fun _ => .pure rfl fun _ => trivial)

theorem Moves.patternField (lower : lower₁.Passes lower₂) :
    Moves (Parser.patternField lower₁) (Parser.patternField lower₂) := by
  intro depth moved
  refine .kind_bind fun k => ?_
  cases found : propertyKey? k with
  | none => exact .any (.fail _)
  | some entry =>
    obtain ⟨key, shorthand⟩ := entry
    have leads : k.depthAfter? (depth + 1) = some (depth + 1) := by
      cases k <;> first | rfl | cases found
    have default : ∀ target, Passes ⟨depth + 1, True⟩ (do return Field.mk key target (← Parser.defaultValue lower₁))
        (do return Field.mk key target (← Parser.defaultValue lower₂)) fun _ => ⟨depth + 1, True⟩ :=
      fun target => (Keeps.defaultValue lower depth True).bind fun default => .pure rfl id
    refine .advance leads (.eat rfl ((lower.pattern depth True).bind fun target => default target) ?_)
    exact .ite (default _) (.fail_bind _)

theorem ClosingTurns.objectPattern (lower : lower₁.Passes lower₂) :
    ClosingTurns (Parser.objectPatternTurn lower₁) (Parser.objectPatternTurn lower₂) := by
  intro depth moved found
  refine .eat rfl (.pure rfl fun _ => trivial) (.eat rfl ?_ ?_)
  · refine (Moves.expectIdentifier depth True).bind fun rest => ?_
    exact .eat rfl (.pure rfl fun _ => trivial) (.check _ (.any (.fail _)) (.fail _))
  · refine (Moves.patternField lower depth moved).bind fun field => ?_
    exact .eat rfl (.pure rfl id) ((Passes.expectPunct rfl _).bind fun _ => .pure rfl fun _ => trivial)

theorem Moves.bindingPattern (lower : lower₁.Passes lower₂) :
    Moves (Parser.bindingPattern lower₁) (Parser.bindingPattern lower₂) := by
  intro depth moved
  refine .kind_bind fun k => ?_
  split
  · exact .advance rfl (.pure rfl id)
  · exact .advance rfl ((ClosingTurns.arrayPattern lower).repeatFrom [] (depth + 1) True)
  · exact .advance rfl ((ClosingTurns.objectPattern lower).repeatFrom [] (depth + 1) True)
  · exact .any (.fail _)
  · exact .any (.fail _)

/-! ## Functions -/

theorem KeepingTurns.params (lower : lower₁.Passes lower₂) :
    KeepingTurns (Parser.paramsTurn lower₁) (Parser.paramsTurn lower₂) := by
  intro depth moved found
  refine .check _ (.any (.pure rfl id)) (.position_bind fun place => .eat rfl ?_ ?_)
  · refine (lower.pattern depth True).bind fun rest => (Keeps.declareAll _ _ _ depth True).bind fun _ => ?_
    exact .check _ (.any (.fail_bind _)) (.pure rfl fun _ => trivial)
  · refine (lower.pattern depth moved).bind fun target => (Keeps.declareAll _ _ _ depth True).bind fun _ => ?_
    refine (Keeps.defaultValue lower depth True).bind fun default => ?_
    exact .eat rfl (.pure rfl id) (.pure rfl fun _ => trivial)

theorem Moves.params (lower : lower₁.Passes lower₂) : Moves (Parser.params lower₁) (Parser.params lower₂) := by
  intro depth moved
  refine (Passes.expectPunct rfl _).bind fun _ => ?_
  refine ((KeepingTurns.params lower).repeatFrom [] (depth + 1) True).bind fun params => ?_
  exact (Passes.expectPunct rfl _).bind fun _ => .pure rfl id

/-- One more statement. -/
theorem Passes.nextStatement (lower : lower₁.Passes lower₂) {depth : Nat} {moved : Prop} {found : List Stmt}
    {done : Mark} : Passes ⟨depth + 1, moved⟩ (do return Turn.again (β := β) ((← lower₁.statement) :: found))
      (do return Turn.again ((← lower₂.statement) :: found)) (Turn.mark ⟨depth + 1, True⟩ done) :=
  (lower.statement depth moved).bind fun _ => .pure rfl id

theorem ClosingTurns.block (lower : lower₁.Passes lower₂) :
    ClosingTurns (Parser.blockTurn lower₁) (Parser.blockTurn lower₂) := by
  intro depth moved found
  refine .check _ (.advance rfl (.pure rfl fun _ => trivial)) (.atEof_bind fun eof => ?_)
  exact .ite (.fail_bind _) (.nextStatement lower)

theorem Closes.blockContents (lower : lower₁.Passes lower₂) :
    Closes (Parser.blockContents lower₁) (Parser.blockContents lower₂) :=
  (ClosingTurns.block lower).repeatFrom []

theorem Closes.block (lower : lower₁.Passes lower₂) : Closes (Parser.block lower₁) (Parser.block lower₂) :=
  fun depth moved => (Closes.blockContents lower depth moved).inBlock

theorem Moves.expectBlock (lower : lower₁.Passes lower₂) :
    Moves (Parser.expectBlock lower₁) (Parser.expectBlock lower₂) :=
  fun depth _ => (Passes.expectPunct rfl _).bind fun _ => Closes.block lower (depth + 1) True

/-- A block with its opening brace, in the block that is there already. -/
theorem Moves.body (lower : lower₁.Passes lower₂) {result : List Stmt → β} (cause : ParseCause) :
    Moves (do Parser.expectPunct .openBrace cause; return result (← Parser.blockContents lower₁))
      (do Parser.expectPunct .openBrace cause; return result (← Parser.blockContents lower₂)) := by
  intro depth moved
  refine (Passes.expectPunct rfl _).bind fun _ => ?_
  exact (Closes.blockContents lower (depth + 1) True).bind fun _ => .pure rfl id

theorem Moves.functionRest (lower : lower₁.Passes lower₂) :
    Moves (Parser.functionRest lower₁) (Parser.functionRest lower₂) :=
  fun depth moved => (((Moves.params lower).bind fun _ => (Moves.body lower _).keeps) depth moved).inBlock

/-- The parameters are passed, and behind the arrow all brackets of the body are closed again. -/
theorem Moves.arrow (lower : lower₁.Passes lower₂) : Moves (Parser.arrow lower₁) (Parser.arrow lower₂) := by
  have body : ∀ positional rest, Moves
      (do
        Parser.expectPunct .arrow .arrowExpected
        if ← Parser.eatPunct .openBrace then
          return Function.mk positional rest (.block (← Parser.blockContents lower₁))
        else return Function.mk positional rest (.expr (← Parser.allowingIn lower₁.assignment)))
      (do
        Parser.expectPunct .arrow .arrowExpected
        if ← Parser.eatPunct .openBrace then
          return Function.mk positional rest (.block (← Parser.blockContents lower₂))
        else return Function.mk positional rest (.expr (← Parser.allowingIn lower₂.assignment))) := by
    intro positional rest depth moved
    refine (Passes.expectPunct rfl _).bind fun _ => .eat rfl ?_ ?_
    · exact (Closes.blockContents lower (depth + 1) True).bind fun statements => .pure rfl id
    · exact (lower.assignment depth True).allowingIn.bind fun e => .pure rfl id
  intro depth moved
  refine Passes.inBlock (.kind_bind fun k => ?_)
  split
  · refine .position_bind fun place => .advance rfl ((Keeps.declare _ _ _ depth True).bind fun _ => ?_)
    exact body _ _ depth True
  · exact .any ((Moves.params lower depth moved).bind fun params => body params.1 params.2 depth True)

/-! ## Lists of expressions -/

theorem KeepingTurns.sequence (lower : lower₁.Passes lower₂) :
    KeepingTurns (Parser.sequenceTurn lower₁) (Parser.sequenceTurn lower₂) := by
  intro depth moved found
  exact .eat rfl ((lower.assignment depth True).bind fun e => .pure rfl id) (.pure rfl id)

theorem Moves.expression (lower : lower₁.Passes lower₂) :
    Moves (Parser.expression lower₁) (Parser.expression lower₂) := by
  intro depth moved
  refine (lower.assignment depth moved).bind fun first => ?_
  exact .check _ (.any ((KeepingTurns.sequence lower).repeatFrom _ depth True)) (.pure rfl id)

theorem Moves.completeExpression (lower : lower₁.Passes lower₂) :
    Moves (Parser.completeExpression lower₁) (Parser.completeExpression lower₂) := by
  intro depth moved
  refine (Moves.expression lower depth moved).bind fun e => .atEof_bind fun eof => .ite (.pure rfl id) ?_
  exact .of_refuses Refuses.unexpected.bind

theorem Moves.propertyName : Moves Parser.propertyName Parser.propertyName := by
  intro depth moved
  refine .kind_bind fun k => ?_
  split
  · exact .advance rfl (.pure rfl id)
  · exact .advance rfl (.pure rfl id)
  · exact .any (.fail _)

theorem Closes.bracketed (lower : lower₁.Passes lower₂) :
    Closes (Parser.bracketed lower₁) (Parser.bracketed lower₂) := by
  intro depth moved
  refine (Moves.expression lower depth moved).allowingIn.bind fun key => ?_
  exact (Passes.expectPunct rfl _).bind fun _ => .pure rfl fun _ => trivial

theorem Moves.spreadable (lower : lower₁.Passes lower₂) :
    Moves (Parser.spreadable lower₁) (Parser.spreadable lower₂) := by
  intro depth moved
  exact .eat rfl ((lower.assignment depth True).bind fun e => .pure rfl id) (lower.assignment depth moved)

theorem KeepingTurns.argument (lower : lower₁.Passes lower₂) :
    KeepingTurns (Parser.argumentTurn lower₁) (Parser.argumentTurn lower₂) := by
  intro depth moved found
  refine .check _ (.any (.pure rfl id)) ((Moves.spreadable lower depth moved).bind fun e => ?_)
  exact .eat rfl (.pure rfl id) (.pure rfl fun _ => trivial)

theorem Moves.arguments (lower : lower₁.Passes lower₂) :
    Moves (Parser.arguments lower₁) (Parser.arguments lower₂) := by
  intro depth moved
  refine (Passes.expectPunct rfl _).bind fun _ => Passes.allowingIn ?_
  refine ((KeepingTurns.argument lower).repeatFrom [] (depth + 1) True).bind fun found => ?_
  exact (Passes.expectPunct rfl _).bind fun _ => .pure rfl id

/-- The tokens of a substitution are its own; around it nothing is passed. -/
theorem Keeps.templateParts (lower : lower₁.Passes lower₂) (chunks : List TemplateChunk) :
    Keeps (Parser.templateParts lower₁ chunks) (Parser.templateParts lower₂ chunks) := by
  induction chunks with
  | nil => exact .pure []
  | cons chunk chunks ih =>
    cases chunk with
    | text value => exact ih.bind fun parts => .pure _
    | hole source start =>
      intro depth moved
      unfold Parser.templateParts
      split
      · exact .throw _
      · next tokens read =>
        have inside := Moves.completeExpression lower 0 False (.ofTokens tokens) (Cursor.ended_ofTokens read)
        cases run : Parser.completeExpression lower₁ (.ofTokens tokens) with
        | error issue c' => exact .throw _
        | ok value c' =>
          rw [run] at inside
          rw [inside.1]
          exact (ih depth moved).bind fun parts => .pure rfl id

theorem ClosingTurns.array (lower : lower₁.Passes lower₂) :
    ClosingTurns (Parser.arrayTurn lower₁) (Parser.arrayTurn lower₂) := by
  intro depth moved found
  refine .eat rfl (.pure rfl fun _ => trivial) (.eat rfl (.pure rfl id) ?_)
  refine (Moves.spreadable lower depth moved).bind fun e => .eat rfl (.pure rfl id) ?_
  exact (Passes.expectPunct rfl _).bind fun _ => .pure rfl fun _ => trivial

/-! ## Objects -/

/-- Every form of a property passes a token of its own: a key, a bracket or the three points. -/
theorem Moves.property (lower : lower₁.Passes lower₂) :
    Moves (Parser.property lower₁) (Parser.property lower₂) := by
  intro depth moved
  have value : ∀ result : Expr → Property, Passes ⟨depth + 1, True⟩ (do return result (← lower₁.assignment))
      (do return result (← lower₂.assignment)) fun _ => ⟨depth + 1, True⟩ :=
    fun result => (lower.assignment depth True).bind fun e => .pure rfl id
  have method : ∀ result : Function → Property, Passes ⟨depth + 1, True⟩
      (do return result (← Parser.functionRest lower₁))
      (do return result (← Parser.functionRest lower₂)) fun _ => ⟨depth + 1, True⟩ :=
    fun result => (Moves.functionRest lower depth True).bind fun f => .pure rfl id
  refine .eat rfl (value _) (.eat rfl ?_ ?_)
  · refine (Closes.bracketed lower (depth + 1) True).bind fun key => .check _ (.any (method fun f => _)) ?_
    exact (Passes.expectPunct rfl _).bind fun _ => value _
  · refine .kind_bind fun k => ?_
    cases found : propertyKey? k with
    | none => exact .any (.ite (.fail _) (.fail _))
    | some entry =>
      obtain ⟨key, shorthand⟩ := entry
      have leads : k.depthAfter? (depth + 1) = some (depth + 1) := by
        cases k <;> first | rfl | cases found
      refine .advance leads (.eat rfl (value _) (.check _ (.any (method fun f => _)) ?_))
      exact .ite (.pure rfl id) (.fail _)

theorem KeepingTurns.property (lower : lower₁.Passes lower₂) :
    KeepingTurns (Parser.propertyTurn lower₁) (Parser.propertyTurn lower₂) := by
  intro depth moved found
  refine .check _ (.any (.pure rfl id)) ((Moves.property lower depth moved).bind fun property => ?_)
  exact .eat rfl (.pure rfl id) (.pure rfl fun _ => trivial)

theorem Closes.objectLiteral (lower : lower₁.Passes lower₂) :
    Closes (Parser.objectLiteral lower₁) (Parser.objectLiteral lower₂) := by
  intro depth moved
  refine Passes.allowingIn (((KeepingTurns.property lower).repeatFrom [] depth moved).bind fun found => ?_)
  exact (Passes.expectPunct rfl _).bind fun _ => .pure rfl fun _ => trivial

/-! ## Operands -/

theorem Moves.functionExpr (lower : lower₁.Passes lower₂) :
    Moves (Parser.functionExpr lower₁) (Parser.functionExpr lower₂) := by
  intro depth moved
  have rest : ∀ moved, Passes ⟨depth + 1, moved⟩ (do return Expr.function (← Parser.functionRest lower₁))
      (do return Expr.function (← Parser.functionRest lower₂)) fun _ => ⟨depth + 1, True⟩ :=
    fun moved => (Moves.functionRest lower depth moved).bind fun f => .pure rfl id
  refine .kind_bind fun k => ?_
  split
  · exact .advance rfl (rest True)
  · exact .any (rest moved)

/-- By the kind of the token at the cursor, which is passed in each case. -/
theorem Moves.primary (lower : lower₁.Passes lower₂) :
    Moves (Parser.primary lower₁) (Parser.primary lower₂) := by
  intro depth moved
  refine .kind_bind fun k => ?_
  split
  · exact .advance rfl (.pure rfl id)
  · exact .advance rfl (.pure rfl id)
  · exact .advance rfl ((Keeps.templateParts lower _ depth True).bind fun parts => .pure rfl id)
  · exact .advance rfl (.pure rfl id)
  · exact .advance rfl (.pure rfl id)
  · exact .advance rfl (.pure rfl id)
  · exact .advance rfl (.pure rfl id)
  · exact .advance rfl (Moves.functionExpr lower depth True)
  · refine .advance rfl ((Moves.expression lower (depth + 1) True).allowingIn.bind fun inner => ?_)
    exact (Passes.expectPunct rfl _).bind fun _ => .pure rfl id
  · exact .advance rfl ((ClosingTurns.array lower).repeatFrom [] (depth + 1) True).allowingIn
  · exact .advance rfl (Closes.objectLiteral lower (depth + 1) True)
  · exact .any (.fail _)
  · exact .any (.fail _)

/-- A chain goes on only where a link has been passed. -/
theorem KeepingTurns.chain (lower : lower₁.Passes lower₂) :
    KeepingTurns (Parser.chainTurn lower₁) (Parser.chainTurn lower₂) := by
  intro depth moved chain
  have named : ∀ link : String → Expr, Passes ⟨depth + 1, True⟩
      (do return Turn.again (β := Expr) (link (← Parser.propertyName)))
      (do return Turn.again (link (← Parser.propertyName))) (Turn.mark ⟨depth + 1, True⟩ ⟨depth + 1, moved⟩) :=
    fun link => (Moves.propertyName depth True).bind fun name => .pure rfl id
  have keyed : ∀ link : Expr → Expr, Passes ⟨depth + 2, True⟩
      (do return Turn.again (β := Expr) (link (← Parser.bracketed lower₁)))
      (do return Turn.again (link (← Parser.bracketed lower₂))) (Turn.mark ⟨depth + 1, True⟩ ⟨depth + 1, moved⟩) :=
    fun link => (Closes.bracketed lower (depth + 1) True).bind fun key => .pure rfl id
  have called : ∀ (moved' : Prop) (link : List Expr → Expr), Passes ⟨depth + 1, moved'⟩
      (do return Turn.again (β := Expr) (link (← Parser.arguments lower₁)))
      (do return Turn.again (link (← Parser.arguments lower₂))) (Turn.mark ⟨depth + 1, True⟩ ⟨depth + 1, moved⟩) :=
    fun moved' link => (Moves.arguments lower depth moved').bind fun args => .pure rfl id
  refine .kind_bind fun k => ?_
  split
  · exact .advance rfl (named _)
  · exact .advance rfl (.check _ (.any (called True _)) (.eat rfl (keyed _) (named _)))
  · exact .advance rfl (keyed _)
  · exact .any (called moved _)
  · exact .any (.pure rfl id)

theorem Moves.callChain (lower : lower₁.Passes lower₂) :
    Moves (Parser.callChain lower₁) (Parser.callChain lower₂) :=
  (Moves.primary lower).bind fun first => (KeepingTurns.chain lower).repeatFrom first

/-! ## Operators -/

theorem depthAfter?_of_updateOp? {k : TokenKind} {op : UpdateOp} (found : updateOp? k = some op) (depth : Nat) :
    k.depthAfter? (depth + 1) = some (depth + 1) := by
  unfold updateOp? at found
  split at found <;> first | rfl | cases found

theorem depthAfter?_of_unaryOp? {k : TokenKind} {op : UnaryOp} (found : unaryOp? k = some op) (depth : Nat) :
    k.depthAfter? (depth + 1) = some (depth + 1) := by
  unfold unaryOp? at found
  split at found <;> first | rfl | cases found

theorem depthAfter?_of_binaryOp? {k : TokenKind} {allowIn : Bool} {op : BinaryOp}
    (found : binaryOp? allowIn k = some op) (depth : Nat) : k.depthAfter? (depth + 1) = some (depth + 1) := by
  unfold binaryOp? at found
  split at found
  · split at found <;> first | rfl | cases found
  · rfl
  · cases found

theorem depthAfter?_of_assignOp? {k : TokenKind} {op : AssignOp} (found : assignOp? k = some op) (depth : Nat) :
    k.depthAfter? (depth + 1) = some (depth + 1) := by
  unfold assignOp? at found
  split at found
  · split at found <;> first | rfl | cases found
  · cases found

theorem Moves.postfixed (lower : lower₁.Passes lower₂) :
    Moves (Parser.postfixed lower₁) (Parser.postfixed lower₂) := by
  intro depth moved
  refine .position_bind fun place => (Moves.callChain lower depth moved).bind fun e => .get_bind fun c => ?_
  refine .ite (.any (.pure rfl id)) ?_
  cases found : updateOp? c.current.kind with
  | none => exact .any (.pure rfl id)
  | some op =>
    exact .ite (.advance (depthAfter?_of_updateOp? found depth) (.pure rfl id)) (.any (.failAt _ _))

theorem Moves.unary (lower : lower₁.Passes lower₂) : Moves (Parser.unary lower₁) (Parser.unary lower₂) := by
  intro depth moved
  refine .kind_bind fun k => ?_
  cases prefixed : unaryOp? k with
  | some op =>
    refine .advance (depthAfter?_of_unaryOp? prefixed depth) ?_
    exact (lower.unary depth True).bind fun operand => .pure rfl id
  | none =>
    cases updated : updateOp? k with
    | some op =>
      refine .advance (depthAfter?_of_updateOp? updated depth) (.position_bind fun place => ?_)
      exact (lower.unary depth True).bind fun operand => .ite (.pure rfl id) (.failAt _ _)
    | none => exact .any (Moves.postfixed lower depth moved)

theorem KeepingTurns.binary (lower : lower₁.Passes lower₂) (loosest : Nat) :
    KeepingTurns (Parser.binaryTurn lower₁ loosest) (Parser.binaryTurn lower₂ loosest) := by
  intro depth moved left
  refine .get_bind fun c => ?_
  cases found : binaryOp? (!c.noIn) c.current.kind with
  | none => exact .any (.pure rfl id)
  | some op =>
    refine .ite (.any (.pure rfl id)) (.advance (depthAfter?_of_binaryOp? found depth) ?_)
    exact (lower.operand _ depth True).bind fun right => .pure rfl id

theorem Moves.binary (lower : lower₁.Passes lower₂) (loosest : Nat) :
    Moves (Parser.binary lower₁ loosest) (Parser.binary lower₂ loosest) :=
  lower.unary.bind fun first => (KeepingTurns.binary lower loosest).repeatFrom first

theorem Moves.conditional (lower : lower₁.Passes lower₂) :
    Moves (Parser.conditional lower₁) (Parser.conditional lower₂) := by
  intro depth moved
  refine (Moves.binary lower 1 depth moved).bind fun test => .eat rfl ?_ (.pure rfl id)
  refine (lower.assignment depth True).allowingIn.bind fun consequent => (Passes.expectPunct rfl _).bind fun _ => ?_
  exact (lower.assignment depth True).bind fun alternate => .pure rfl id

theorem Moves.assignment (lower : lower₁.Passes lower₂) :
    Moves (Parser.assignment lower₁) (Parser.assignment lower₂) := by
  intro depth moved
  refine .get_bind fun c => .any (.ite ?_ ?_)
  · exact (Moves.arrow lower depth moved).bind fun f => .pure rfl id
  · refine (Moves.conditional lower depth moved).bind fun target => .kind_bind fun k => ?_
    cases found : assignOp? k with
    | none => exact .any (.pure rfl id)
    | some op =>
      refine .ite (.advance (depthAfter?_of_assignOp? found depth) ?_) (.any (.failAt _ _))
      exact (lower.assignment depth True).bind fun e => .pure rfl id

end BindScript.Parser
