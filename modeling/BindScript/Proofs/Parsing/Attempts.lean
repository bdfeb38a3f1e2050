import BindScript.Proofs.Parsing.Precedence
import BindScript.Proofs.Parsing.Statements

/-!
# What a construct leaves behind

Whether a construct is read or refused, as many blocks are open afterwards as before, and in all of them but the
innermost one the names are the same (`Balanced`). A construct that declares nothing by itself leaves the innermost one
alone, too (`Calm`). So where the head of a loop is tried as a pattern, nothing is left of the attempt: the tokens are
put back, the blocks have not changed, and whether `in` is reserved is settled anew before an expression is read in its
place (`attempt_leaves_nothing`).

How deep a parser is nested is no part of its state, since each construct is handed the level below. It is the same as
to keep count, going up again after each construct whichever way that ends (`nested_counted`).
-/

namespace BindScript.Parser

variable {α β : Type}

/-! ## Blocks -/

/-- The open blocks of the second state are those of the first one, apart from the names of the innermost one. -/
structure Cursor.Encloses (c c' : Cursor) : Prop where
  open_ : c'.blocks.length = c.blocks.length
  outer : c'.blocks.tail = c.blocks.tail

/-- Whatever comes of it, the parser closes the blocks that it opens, and declares names in the innermost one at
most. -/
def Balanced (p : Parse α) : Prop :=
  ∀ c, match p c with
    | .ok _ c' | .error _ c' => c.Encloses c'

theorem Cursor.encloses_of_eq {c c' : Cursor} (same : c'.blocks = c.blocks) : c.Encloses c' :=
  ⟨congrArg List.length same, congrArg List.tail same⟩

theorem Cursor.Encloses.trans {c c' c'' : Cursor} (first : c.Encloses c') (next : c'.Encloses c'') : c.Encloses c'' :=
  ⟨next.open_.trans first.open_, next.outer.trans first.outer⟩

namespace Balanced

variable {p : Parse α} {f : α → Parse β} {Q : α → Prop}

theorem of_calm (calm : Calm p Q) : Balanced p := by
  intro c
  have calm := calm c
  cases run : p c with
  | ok a c' =>
    rw [run] at calm
    exact Cursor.encloses_of_eq calm.1
  | error issue c' =>
    rw [run] at calm
    exact Cursor.encloses_of_eq calm

theorem pure (a : α) : Balanced (Pure.pure a) :=
  fun _ => Cursor.encloses_of_eq rfl

theorem fail (cause : ParseCause) : Balanced (Parser.fail cause : Parse α) :=
  fun _ => Cursor.encloses_of_eq rfl

theorem bind (first : Balanced p) (next : ∀ a, Balanced (f a)) : Balanced (p >>= f) := by
  intro c
  have first := first c
  show match EStateM.bind p f c with | .ok _ c' | .error _ c' => c.Encloses c'
  unfold EStateM.bind
  cases run : p c with
  | error issue c' =>
    rw [run] at first
    exact first
  | ok a c' =>
    rw [run] at first
    have later := next a c'
    dsimp only at first ⊢
    cases run' : f a c' with
    | ok | error =>
      rw [run'] at later
      exact first.trans later

theorem ite {condition : Prop} [Decidable condition] {q : Parse α} (yes : Balanced p) (no : Balanced q) :
    Balanced (if condition then p else q) := by
  split
  · exact yes
  · exact no

/-- A calm parser first. -/
theorem after (first : Calm p Q) (next : ∀ a, Balanced (f a)) : Balanced (p >>= f) :=
  bind (of_calm first) next

theorem repeatFrom {turn : α → Parse (Turn α β)} (a : α) (each : ∀ a, Balanced (turn a)) :
    Balanced (Parser.repeatFrom a turn) := by
  have turns : ∀ n a, Balanced (iterate turn n a) := by
    intro n
    induction n with
    | zero => exact fun _ => fail _
    | succ n ih =>
      intro a
      unfold iterate
      refine bind (each a) fun t => ?_
      cases t with
      | again a' => exact ih a'
      | done b => exact pure b
  exact fun c => turns (c.rest.length + 1) a c

theorem reservingIn (balanced : Balanced p) : Balanced (Parser.reservingIn p) := by
  intro c
  have balanced := balanced { c with noIn := true }
  unfold Parser.reservingIn
  cases run : p { c with noIn := true } <;> (rw [run] at balanced; exact ⟨balanced.open_, balanced.outer⟩)

/-- A block of its own takes in all names that are declared. -/
theorem inBlock (balanced : Balanced p) : Calm (Parser.inBlock p) fun _ => True := by
  intro c
  have balanced := balanced { c with blocks := [] :: c.blocks }
  unfold Parser.inBlock
  cases run : p { c with blocks := [] :: c.blocks } with
  | ok a c' =>
    rw [run] at balanced
    exact ⟨balanced.outer, trivial⟩
  | error issue c' =>
    rw [run] at balanced
    exact balanced.outer

/-- A declaration may add a name to the innermost block and touches no other. -/
theorem declare (kind : Option DeclKind) (place : Position) (name : String) :
    Balanced (Parser.declare kind place name) := by
  by_cases reserved : name.toList.head? = some '$'
  · unfold Parser.declare
    rw [if_pos reserved]
    exact of_calm (.failAt _ _ (Q := fun _ => True))
  by_cases var : kind = some .var
  · unfold Parser.declare
    rw [if_neg reserved, if_pos var]
    exact pure ()
  intro c
  cases blocks : c.blocks with
  | nil =>
    obtain ⟨rest, _, noIn⟩ := c
    obtain rfl := blocks
    unfold Parser.declare
    rw [if_neg reserved, if_neg var]
    exact Cursor.encloses_of_eq rfl
  | cons block outer =>
    rw [declare_of_block place reserved var c blocks]
    by_cases twice : block.contains name = true
    · rw [if_pos twice]
      exact Cursor.encloses_of_eq rfl
    · rw [if_neg twice]
      exact ⟨by rw [blocks]; rfl, by rw [blocks]; rfl⟩

theorem declareAll (kind : Option DeclKind) (place : Position) (names : List String) :
    Balanced (Parser.declareAll kind place names) := by
  induction names with
  | nil => exact pure ()
  | cons name names ih => exact bind (declare kind place name) fun _ => ih

end Balanced

/-! ## Constructs that declare names -/

/-- The parsers of a level close the blocks that they open. -/
structure Level.Balanced (lower : Level) : Prop where
  scopes : lower.KeepsScopes
  statement : Parser.Balanced lower.statement

namespace Balanced

variable {lower : Level}

theorem params (level : lower.Balanced) : Balanced (Parser.params lower) := by
  refine after (.expectPunct _ _) fun _ => bind (repeatFrom [] fun found => ?_) fun params =>
    after (.expectPunct _ _) fun _ => pure params
  unfold Parser.paramsTurn
  refine after (.checkPunct _) fun _ => ite (pure _) (after .position fun _ => after (.eatPunct _) fun _ => ?_)
  refine ite ?_ ?_
  · refine after level.scopes.pattern fun rest => bind (declareAll _ _ _) fun _ => after (.checkPunct _) fun _ => ?_
    exact ite (bind (fail _) fun _ => pure _) (pure _)
  · refine after level.scopes.pattern fun target => bind (declareAll _ _ _) fun _ => ?_
    exact after (.defaultValue level.scopes) fun default => after (.eatPunct _) fun _ => ite (pure _) (pure _)

/-- One more statement. -/
theorem nextStatement (level : lower.Balanced) (found : List Stmt) :
    Balanced (do return Turn.again (β := β) ((← lower.statement) :: found)) :=
  bind level.statement fun _ => pure _

theorem blockContents (level : lower.Balanced) : Balanced (Parser.blockContents lower) := by
  refine repeatFrom [] fun found => after (.checkPunct _) fun _ => ite (after .advance fun _ => pure _) ?_
  exact after .atEof fun _ => ite (bind (fail _) fun _ => nextStatement level found) (nextStatement level found)

theorem finishDeclarator (level : lower.Balanced) (kind : DeclKind) (pattern : Pattern) :
    Balanced (Parser.finishDeclarator lower kind pattern) := by
  refine after (.defaultValue level.scopes) fun init => ?_
  cases init with
  | some init => exact pure _
  | none =>
    cases pattern with
    | name id => exact ite (fail _) (pure _)
    | array | object => exact fail _

theorem declarator (level : lower.Balanced) (kind : DeclKind) : Balanced (Parser.declarator lower kind) :=
  after .position fun _ => after level.scopes.pattern fun pattern =>
    bind (declareAll _ _ _) fun _ => finishDeclarator level kind pattern

theorem moreDeclarators (level : lower.Balanced) (kind : DeclKind) (first : Declarator) :
    Balanced (Parser.moreDeclarators lower kind first) :=
  repeatFrom [first] fun _ => after (.eatPunct _) fun _ =>
    ite (bind (declarator level kind) fun _ => pure _) (pure _)

theorem declaration (level : lower.Balanced) (kind : DeclKind) : Balanced (Parser.declaration lower kind) :=
  after .advance fun _ => bind (declarator level kind) fun first =>
    bind (moreDeclarators level kind first) fun _ => after .endStatement fun _ => pure _

theorem functionDeclaration (level : lower.Balanced) : Balanced (Parser.functionDeclaration lower) :=
  after .advance fun _ => after .position fun _ => after .expectIdentifier fun _ =>
    bind (declare _ _ _) fun _ => after (.functionRest level.scopes) fun _ => pure _

theorem branch (level : lower.Balanced) : Balanced (Parser.branch lower) :=
  after .advance fun _ => after (.parenthesized level.scopes) fun _ => bind level.statement fun _ =>
    after (.eatKeyword _) fun _ => ite (bind level.statement fun _ => pure _) (pure _)

theorem whileLoop (level : lower.Balanced) : Balanced (Parser.whileLoop lower) :=
  after .advance fun _ => after (.parenthesized level.scopes) fun _ => bind level.statement fun _ => pure _

theorem doWhile (level : lower.Balanced) : Balanced (Parser.doWhile lower) := by
  refine after .advance fun _ => bind level.statement fun body => after (.eatKeyword _) fun _ => ?_
  have test : Balanced (do
      let test ← Parser.parenthesized lower
      let _ ← Parser.eatPunct .semicolon
      return Stmt.doWhile body test) :=
    after (.parenthesized level.scopes) fun _ => after (.eatPunct _) fun _ => pure _
  exact ite test (bind (fail _) fun _ => test)

/-! ### Loops with a head -/

/-- The head of a loop over a collection is read in the block of the loop. -/
theorem forEach? (level : lower.Balanced) (kind : Option DeclKind) (pattern : Pattern) :
    Balanced (Parser.forEach? lower kind pattern) := by
  have body : ∀ visits object, Balanced (do
      Parser.expectPunct .closeParen .closeParenExpected
      return some (Stmt.forEach visits kind pattern object (← lower.statement))) :=
    fun visits object => after (.expectPunct _ _) fun _ => bind level.statement fun _ => pure _
  refine after .kind fun k => ?_
  dsimp only
  split
  · exact pure _
  · next visits _ =>
    refine after .advance fun _ => ?_
    cases visits with
    | keys => exact after (.expression level.scopes) (body .keys)
    | items => exact after level.scopes.assignment (body .items)

theorem forRest (level : lower.Balanced) (init : ForInit) : Balanced (Parser.forRest lower init) :=
  after (.expectPunct _ _) fun _ => after (.optionalBefore level.scopes _) fun _ =>
    after (.expectPunct _ _) fun _ => after (.optionalBefore level.scopes _) fun _ =>
      after (.expectPunct _ _) fun _ => bind level.statement fun _ => pure _

theorem forDeclaration (level : lower.Balanced) (kind : DeclKind) : Balanced (Parser.forDeclaration lower kind) := by
  refine after .advance fun _ => after .position fun _ => after level.scopes.pattern fun pattern => ?_
  refine bind (declareAll _ _ _) fun _ => bind (forEach? level (some kind) pattern) fun found => ?_
  cases found with
  | some loop => exact pure loop
  | none =>
    refine bind (reservingIn (bind (finishDeclarator level kind pattern) fun first => ?_)) fun declarators =>
      forRest level _
    exact moreDeclarators level kind first

/-- The attempt keeps the blocks as its pattern left them, which is as they were. -/
theorem bareForEach? (level : lower.Balanced) : Balanced (Parser.bareForEach? lower) := by
  intro c
  have attempted := of_calm level.scopes.pattern c
  unfold Parser.bareForEach?
  cases read : lower.pattern c with
  | error issue c' =>
    rw [read] at attempted
    exact ⟨attempted.open_, attempted.outer⟩
  | ok pattern c' =>
    rw [read] at attempted
    have ends := forEach? level none pattern c'
    dsimp only
    cases loop : Parser.forEach? lower none pattern c' with
    | error issue c'' =>
      rw [loop] at ends
      exact attempted.trans ends
    | ok found c'' =>
      rw [loop] at ends
      have both := attempted.trans ends
      cases found <;> exact ⟨both.open_, both.outer⟩

theorem forHead (level : lower.Balanced) : Balanced (Parser.forHead lower) := by
  refine after .kind fun k => ?_
  split
  · exact forDeclaration level _
  · refine after (.checkPunct _) fun _ => ite (forRest level _) (bind (bareForEach? level) fun found => ?_)
    cases found with
    | some loop => exact pure loop
    | none => exact after (.reservingIn (.expression level.scopes)) fun _ => forRest level _

/-- The head of a loop has a block of its own. -/
theorem forLoop (level : lower.Balanced) : Balanced (Parser.forLoop lower) :=
  after .advance fun _ => after (.expectPunct _ _) fun _ => of_calm (inBlock (forHead level))

/-! ### Cases -/

theorem caseTurn (level : lower.Balanced) (found : List Case) : Balanced (Parser.caseTurn lower found) := by
  refine after (.eatPunct _) fun _ => ite (pure _) (after (.caseLabel level.scopes _) fun test => ?_)
  refine after (.expectPunct _ _) fun _ => bind (repeatFrom [] fun found => ?_) fun _ => pure _
  exact after .kind fun _ => ite (pure _) (nextStatement level found)

/-! ## Levels -/

/-- Declarations add names to the innermost block. All other statements leave it alone or have a block of their own. -/
theorem statement (level : lower.Balanced) : Balanced (Parser.statement lower) := by
  have scopes := level.scopes
  unfold Parser.statement
  refine after .kind fun k => ?_
  split
  · exact after .advance fun _ => pure _
  · exact after .advance fun _ => after (.block scopes) fun _ => pure _
  · exact declaration level _
  · exact declaration level _
  · exact declaration level _
  · exact branch level
  · exact whileLoop level
  · exact doWhile level
  · exact forLoop level
  · exact of_calm (.returnStatement scopes)
  · exact after .advance fun _ => after .endStatement fun _ => pure _
  · exact after .advance fun _ => after .endStatement fun _ => pure _
  · exact of_calm (.throwStatement scopes)
  · exact of_calm (.attempt scopes)
  · exact of_calm (.switch scopes)
  · exact functionDeclaration level
  · exact after (.expression scopes) fun _ => after .endStatement fun _ => pure _

theorem program (level : lower.Balanced) : Balanced (Parser.program lower) :=
  repeatFrom [] fun found => after .atEof fun _ => ite (pure _) (nextStatement level found)

end Balanced

/-- Every level closes its blocks if the one below it does. -/
theorem level_balanced (n : Nat) : (level n).Balanced := by
  induction n with
  | zero => exact ⟨level_keepsScopes 0, .fail _⟩
  | succ n level => exact ⟨level_keepsScopes _, .statement level⟩

/-! ## Constructs -/

/-- The parsers of the constructs of the language, each from the level below. -/
inductive Construct : {α : Type} → (Level → Parse α) → Prop
  | defaultValue : Construct Parser.defaultValue
  | patternField : Construct Parser.patternField
  | bindingPattern : Construct Parser.bindingPattern
  | params : Construct Parser.params
  | blockContents : Construct Parser.blockContents
  | block : Construct Parser.block
  | expectBlock : Construct Parser.expectBlock
  | functionRest : Construct Parser.functionRest
  | arrow : Construct Parser.arrow
  | expression : Construct Parser.expression
  | completeExpression : Construct Parser.completeExpression
  | bracketed : Construct Parser.bracketed
  | spreadable : Construct Parser.spreadable
  | arguments : Construct Parser.arguments
  | templateParts (chunks : List TemplateChunk) : Construct (Parser.templateParts · chunks)
  | property : Construct Parser.property
  | objectLiteral : Construct Parser.objectLiteral
  | functionExpr : Construct Parser.functionExpr
  | primary : Construct Parser.primary
  | callChain : Construct Parser.callChain
  | postfixed : Construct Parser.postfixed
  | unary : Construct Parser.unary
  | binary (loosest : Nat) : Construct (Parser.binary · loosest)
  | conditional : Construct Parser.conditional
  | assignment : Construct Parser.assignment
  | parenthesized : Construct Parser.parenthesized
  | declarator (kind : DeclKind) : Construct (Parser.declarator · kind)
  | declaration (kind : DeclKind) : Construct (Parser.declaration · kind)
  | functionDeclaration : Construct Parser.functionDeclaration
  | branch : Construct Parser.branch
  | whileLoop : Construct Parser.whileLoop
  | doWhile : Construct Parser.doWhile
  | forEach? (kind : Option DeclKind) (pattern : Pattern) : Construct (Parser.forEach? · kind pattern)
  | forRest (init : ForInit) : Construct (Parser.forRest · init)
  | forDeclaration (kind : DeclKind) : Construct (Parser.forDeclaration · kind)
  | bareForEach? : Construct Parser.bareForEach?
  | forHead : Construct Parser.forHead
  | forLoop : Construct Parser.forLoop
  | catchClause : Construct Parser.catchClause
  | attempt : Construct Parser.attempt
  | caseLabel (seenDefault : Bool) : Construct (Parser.caseLabel · seenDefault)
  | switch : Construct Parser.switch
  | returnStatement : Construct Parser.returnStatement
  | throwStatement : Construct Parser.throwStatement
  | statement : Construct Parser.statement
  | program : Construct Parser.program

/-- Every construct closes the blocks that it opens. -/
theorem Construct.balanced {p : Level → Parse α} (construct : Construct p) {lower : Level} (level : lower.Balanced) :
    Balanced (p lower) := by
  have scopes := level.scopes
  cases construct with
  | defaultValue => exact .of_calm (.defaultValue scopes)
  | patternField => exact .of_calm (.patternField scopes)
  | bindingPattern => exact .of_calm (.bindingPattern scopes)
  | params => exact .params level
  | blockContents => exact .blockContents level
  | block => exact .of_calm (.block scopes)
  | expectBlock => exact .of_calm (.expectBlock scopes)
  | functionRest => exact .of_calm (.functionRest scopes)
  | arrow => exact .of_calm (.arrow scopes)
  | expression => exact .of_calm (.expression scopes)
  | completeExpression => exact .of_calm (.completeExpression scopes)
  | bracketed => exact .of_calm (.bracketed scopes)
  | spreadable => exact .of_calm (.spreadable scopes)
  | arguments => exact .of_calm (.arguments scopes)
  | templateParts chunks => exact .of_calm (.templateParts scopes chunks)
  | property => exact .of_calm (.property scopes)
  | objectLiteral => exact .of_calm (.objectLiteral scopes)
  | functionExpr => exact .of_calm (.functionExpr scopes)
  | primary => exact .of_calm (.primary scopes)
  | callChain => exact .of_calm (.callChain scopes)
  | postfixed => exact .of_calm (.postfixed scopes)
  | unary => exact .of_calm (.unary scopes)
  | binary loosest => exact .of_calm (.binary scopes loosest)
  | conditional => exact .of_calm (.conditional scopes)
  | assignment => exact .of_calm (.assignment scopes)
  | parenthesized => exact .of_calm (.parenthesized scopes)
  | declarator kind => exact .declarator level kind
  | declaration kind => exact .declaration level kind
  | functionDeclaration => exact .functionDeclaration level
  | branch => exact .branch level
  | whileLoop => exact .whileLoop level
  | doWhile => exact .doWhile level
  | forEach? kind pattern => exact .forEach? level kind pattern
  | forRest init => exact .forRest level init
  | forDeclaration kind => exact .forDeclaration level kind
  | bareForEach? => exact .bareForEach? level
  | forHead => exact .forHead level
  | forLoop => exact .forLoop level
  | catchClause => exact .of_calm (.catchClause scopes)
  | attempt => exact .of_calm (.attempt scopes)
  | caseLabel seenDefault => exact .of_calm (.caseLabel scopes seenDefault)
  | switch => exact .of_calm (.switch scopes)
  | returnStatement => exact .of_calm (.returnStatement scopes)
  | throwStatement => exact .of_calm (.throwStatement scopes)
  | statement => exact .statement level
  | program => exact .program level

/-! ## Counting levels -/

/-- A parser that knows how deep it is nested. -/
abbrev Counted (α : Type) := EStateM ParseIssue (Nat × Cursor) α

/-- Reads with the levels that are left at the depth. -/
def counted (p : Level → Parse α) : Counted α := fun (depth, c) =>
  match p (level (maxNesting - depth)) c with
  | .ok a c' => .ok a (depth, c')
  | .error issue c' => .error issue (depth, c')

/-- Goes one level deeper, if that is allowed, and up again, whether it succeeds or fails. -/
def Counted.nested (p : Counted α) : Counted α := fun (depth, c) =>
  if maxNesting ≤ depth then .error (.ofCause .nestingTooDeep c.current.start) (depth, c)
  else match p (depth + 1, c) with
    | .ok a (depth', c') => .ok a (depth' - 1, c')
    | .error issue (depth', c') => .error issue (depth' - 1, c')

/-- Where a construct is what a level has for it one level deeper, it is read in that level as if it had been
counted. -/
theorem nested_counted {p field : Level → Parse α} (each : ∀ n, field (level (n + 1)) = p (level n))
    (last : field (level 0) = fail .nestingTooDeep) : Counted.nested (counted p) = counted field := by
  funext ⟨depth, c⟩
  unfold Counted.nested
  dsimp only
  split
  · next deep =>
    have none : maxNesting - depth = 0 := Nat.sub_eq_zero_of_le deep
    show _ = match field (level (maxNesting - depth)) c with | .ok _ _ => _ | .error _ _ => _
    rw [none, last]
    rfl
  · next shallow =>
    have left : maxNesting - depth = maxNesting - (depth + 1) + 1 := by omega
    unfold counted
    dsimp only
    rw [left, each]
    cases p (level (maxNesting - (depth + 1))) c <;> rfl

/-! ## Attempts -/

/-- What a loop over a collection visits, from the word after its pattern. -/
def eachKind? : TokenKind → Option EachKind
  | .keyword .in => some .keys
  | .identifier name => if name = "of" then some .items else none
  | _ => none

/-- The rest of a loop over a collection, at the word after its pattern. -/
def forEachOf (lower : Level) (kind : Option DeclKind) (pattern : Pattern) (visits : EachKind) :
    Parse (Option Stmt) := do
  advance
  let object ← match visits with
    | .keys => expression lower
    | .items => lower.assignment
  expectPunct .closeParen .closeParenExpected
  return some (.forEach visits kind pattern object (← lower.statement))

theorem forEach?_eq (lower : Level) (kind : Option DeclKind) (pattern : Pattern) :
    forEach? lower kind pattern =
      (do (eachKind? (← Parser.kind)).elim (return none) (forEachOf lower kind pattern)) := by
  refine congrArg (Parser.kind >>= ·) (funext fun k => ?_)
  cases k with
  | keyword word => cases word <;> rfl
  | identifier name =>
    by_cases of : name = "of"
    · subst of
      rfl
    · simp only [eachKind?, if_neg of]
      rfl
  | _ => rfl

section Attempts

variable {lower : Level} {kind : Option DeclKind} {pattern : Pattern} {c c' : Cursor}

theorem forEach?_of_none (lower : Level) (kind : Option DeclKind) (pattern : Pattern)
    (none : eachKind? c.current.kind = none) : forEach? lower kind pattern c = .ok .none c := by
  rw [forEach?_eq, run_kind, none]
  rfl

/-- What is no loop over a collection is left alone. -/
theorem eq_of_forEach?_none (run : forEach? lower kind pattern c = .ok none c') :
    eachKind? c.current.kind = none ∧ c' = c := by
  cases word : eachKind? c.current.kind with
  | none =>
    rw [forEach?_of_none lower kind pattern word] at run
    cases run
    exact ⟨rfl, rfl⟩
  | some visits =>
    rw [forEach?_eq, run_kind, word] at run
    change forEachOf lower kind pattern visits c = _ at run
    obtain ⟨_, _, -, run⟩ := exists_of_run run
    cases visits with
    | keys | items =>
      obtain ⟨_, _, -, run⟩ := exists_of_run run
      obtain ⟨_, _, -, run⟩ := exists_of_run run
      obtain ⟨_, _, -, run⟩ := exists_of_run run
      cases run

/-- After an attempt that gave nothing, whether the pattern was refused or no loop over a collection followed it, the
tokens are put back and the blocks have not changed. -/
theorem of_bareForEach?_none (scopes : lower.KeepsScopes) (run : bareForEach? lower c = .ok none c') :
    c'.rest = c.rest ∧ c'.blocks = c.blocks := by
  have attempted := scopes.pattern c
  unfold bareForEach? at run
  cases read : lower.pattern c with
  | error issue c₁ =>
    rw [read] at run attempted
    cases run
    exact ⟨rfl, attempted⟩
  | ok pattern c₁ =>
    rw [read] at run attempted
    dsimp only at run
    cases loop : forEach? lower none pattern c₁ with
    | error issue c₂ =>
      rw [loop] at run
      cases run
    | ok found c₂ =>
      rw [loop] at run
      cases found with
      | some s => cases run
      | none =>
        cases run
        obtain ⟨-, rfl⟩ := eq_of_forEach?_none loop
        exact ⟨rfl, attempted.1⟩

theorem reservingIn_congr (p : Parse α) (rest : c'.rest = c.rest) (blocks : c'.blocks = c.blocks) :
    reservingIn p c' = reservingIn p c := by
  unfold reservingIn
  rw [rest, blocks]

end Attempts

/-- Whatever construct is read, and whether it is accepted or refused, the parser is nested as deep afterwards as
before, as many blocks are open, and outside of the innermost one they have the same names. So where the head of a loop
is tried as a pattern and there is no loop over a collection, reading the first part as an expression gives the same as
if nothing had been tried. -/
theorem attempt_leaves_nothing :
    (∀ {α : Type} {p : Level → Parse α}, Construct p → ∀ depth c, match counted p (depth, c) with
      | .ok _ (depth', c') | .error _ (depth', c') => depth' = depth ∧ c.Encloses c') ∧
    (Counted.nested (counted assignment) = counted Level.assignment ∧
      Counted.nested (counted unary) = counted Level.unary ∧
      (∀ loosest, Counted.nested (counted (binary · loosest)) = counted (Level.operand · loosest)) ∧
      Counted.nested (counted statement) = counted Level.statement ∧
      Counted.nested (counted bindingPattern) = counted Level.pattern) ∧
    ∀ s s', counted bareForEach? s = .ok none s' →
      counted (fun lower => reservingIn (expression lower)) s' =
        counted (fun lower => reservingIn (expression lower)) s := by
  refine ⟨fun {α p} construct depth c => ?_, ⟨nested_counted (fun _ => rfl) rfl, nested_counted (fun _ => rfl) rfl,
    fun loosest => nested_counted (fun _ => rfl) rfl, nested_counted (fun _ => rfl) rfl,
    nested_counted (fun _ => rfl) rfl⟩, ?_⟩
  · have balanced := construct.balanced (level_balanced (maxNesting - depth)) c
    unfold counted
    dsimp only
    cases run : p (level (maxNesting - depth)) c with
    | ok | error =>
      rw [run] at balanced
      exact ⟨rfl, balanced⟩
  -- the tokens are put back and the blocks are the same, and an expression is read from no more than these
  · rintro ⟨depth, c⟩ s' run
    unfold counted at run
    dsimp only at run
    cases tried : bareForEach? (level (maxNesting - depth)) c with
    | error issue c' =>
      rw [tried] at run
      cases run
    | ok found c' =>
      rw [tried] at run
      cases run
      obtain ⟨rest, blocks⟩ := of_bareForEach?_none (level_keepsScopes _) tried
      unfold counted
      dsimp only
      rw [reservingIn_congr _ rest blocks]

/-- `[a.b];` -/
def memberHead : List Token :=
  [⟨.punct .openBracket, .start, false⟩, ⟨.identifier "a", .start, false⟩, ⟨.punct .dot, .start, false⟩,
    ⟨.identifier "b", .start, false⟩, ⟨.punct .closeBracket, .start, false⟩, ⟨.punct .semicolon, .start, false⟩,
    ⟨.eof, .start, false⟩]

/-- A list of a member is refused as a pattern at the dot. From where that attempt ended it is read as the expression
that it is. -/
theorem attempt_leaves_nothing_member : ∃ s' s'',
    counted bareForEach? (0, .ofTokens memberHead) = .ok none s' ∧
      counted (fun lower => reservingIn (expression lower)) s' =
        counted (fun lower => reservingIn (expression lower)) (0, .ofTokens memberHead) ∧
      counted (fun lower => reservingIn (expression lower)) (0, .ofTokens memberHead) =
        .ok (.array [.member (.name "a") "b" false]) s'' := by
  obtain ⟨s', run⟩ : ∃ s', counted bareForEach? (0, .ofTokens memberHead) = .ok none s' := ⟨_, rfl⟩
  obtain ⟨-, -, again⟩ := attempt_leaves_nothing
  exact ⟨s', _, run, again _ s' run, rfl⟩

end BindScript.Parser
