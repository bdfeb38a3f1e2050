import BindScript.Parser
import BindScript.Proofs.Parsing.Expressions

/-!
# Everything that is accepted keeps the scope rules

Statements declare names in the block that they stand in, and each of them exactly the names that it introduces
there. So in every block that is left, the names that its statements introduce are all different
(`parsed_wellScoped`).
-/

namespace BindScript.Parser

variable {lower : Level} {block : List String}

/-! ## Declarations -/

namespace Calm

theorem parenthesized (scopes : lower.KeepsScopes) : Calm (Parser.parenthesized lower) Expr.WellScoped := by
  unfold Parser.parenthesized
  refine bind (expectPunct _ _) fun _ _ => bind (expression scopes) fun e value => ?_
  exact bind (expectPunct _ _) fun _ _ => pure value

theorem optionalBefore (scopes : lower.KeepsScopes) (mark : Punct) :
    Calm (Parser.optionalBefore lower mark) Expr.OptionWellScoped := by
  unfold Parser.optionalBefore
  refine bind (checkPunct _) fun _ _ => ite (fun _ => pure trivial) fun _ => ?_
  exact bind (expression scopes) fun e value => pure value

theorem finishDeclarator (scopes : lower.KeepsScopes) (kind : DeclKind) {pattern : Pattern}
    (patternScopes : pattern.WellScoped) :
    Calm (Parser.finishDeclarator lower kind pattern) (fun d => d.WellScoped ∧ d.pattern = pattern) := by
  unfold Parser.finishDeclarator
  refine bind (defaultValue scopes) fun init initScopes => ?_
  cases init with
  | some init => exact pure ⟨⟨patternScopes, initScopes⟩, rfl⟩
  | none =>
    cases pattern with
    | name id => exact ite (fun _ => fail _) fun _ => pure ⟨⟨patternScopes, trivial⟩, rfl⟩
    | array | object => exact fail _

end Calm

/-- Declarators found so far in a block that had names before, with the names that they have added. -/
structure Declarators (kind : DeclKind) (before : List String) (declarators : List Declarator)
    (block : List String) : Prop where
  each : ∀ d ∈ declarators, d.WellScoped
  unreserved : Unreserved (Declarator.boundNames declarators)
  names : Extends before (kind.scopeNames (Declarator.boundNames declarators)) block

/-- What a declarator declares. -/
def Declared (kind : DeclKind) (block names block' : List String) : Prop :=
  Unreserved names ∧ Extends block (kind.scopeNames names) block'

theorem scopeNames_append (kind : DeclKind) (names more : List String) :
    kind.scopeNames (names ++ more) = kind.scopeNames names ++ kind.scopeNames more := by
  cases kind <;> rfl

theorem Declarators.one {kind : DeclKind} {before block : List String} {d : Declarator}
    (one : d.WellScoped) (declared : Declared kind before d.pattern.boundNames block) :
    Declarators kind before [d] block := by
  have names : Declarator.boundNames [d] = d.pattern.boundNames := by
    simp [Declarator.boundNames]
  refine ⟨List.forall_mem_singleton.2 one, ?_, ?_⟩
  · rw [names]
    exact declared.1
  · rw [names]
    exact declared.2

theorem Declarators.snoc {kind : DeclKind} {before block block' : List String}
    {declarators : List Declarator} {d : Declarator} (so : Declarators kind before declarators block)
    (next : d.WellScoped) (declared : Declared kind block d.pattern.boundNames block') :
    Declarators kind before (declarators ++ [d]) block' := by
  have names : Declarator.boundNames (declarators ++ [d]) =
      Declarator.boundNames declarators ++ d.pattern.boundNames := by
    simp [Declarator.boundNames]
  refine ⟨List.forall_mem_append.2 ⟨so.each, List.forall_mem_singleton.2 next⟩, ?_, ?_⟩
  · rw [names]
    exact unreserved_append.2 ⟨so.unreserved, declared.1⟩
  · rw [names, scopeNames_append]
    exact so.names.trans declared.2

/-- A statement that keeps the rules and introduces nothing into the block that it stands in. -/
def Closed (s : Stmt) : Prop :=
  s.WellScoped ∧ s.scopeNames = []

theorem Closed.introduces {s : Stmt} (closed : Closed s) : Introduces block s block := by
  refine ⟨closed.1, ?_⟩
  rw [closed.2]
  exact Extends.nil block

namespace From

variable {before : List String}

theorem declarator (scopes : lower.KeepsScopes) (kind : DeclKind) :
    From block (Parser.declarator lower kind)
      (fun d b => d.WellScoped ∧ Declared kind block d.pattern.boundNames b) := by
  unfold Parser.declarator
  refine after .position fun place _ => after scopes.pattern fun pattern patternScopes => ?_
  refine bind (declareAll (some kind) place pattern.boundNames) fun _ b declared => ?_
  refine imp (of_calm (.finishDeclarator scopes kind patternScopes)) fun d b' ends => ?_
  obtain ⟨rfl, one, rfl⟩ := ends
  exact ⟨one, declared⟩

theorem moreDeclarators (scopes : lower.KeepsScopes) (kind : DeclKind) {first : Declarator}
    (so : Declarators kind before [first] block) :
    From block (Parser.moreDeclarators lower kind first) (Declarators kind before) := by
  unfold Parser.moreDeclarators
  refine repeatFrom (Q := fun found b => Declarators kind before found.reverse b) so fun found b so => ?_
  unfold Parser.declaratorTurn
  refine after (.eatPunct _) fun _ _ => ite (fun _ => ?_) fun _ => pure so
  refine bind (declarator scopes kind) fun d b' next => pure ?_
  show Declarators kind before (d :: found).reverse b'
  rw [List.reverse_cons]
  exact so.snoc next.1 next.2

theorem declaration (scopes : lower.KeepsScopes) (kind : DeclKind) :
    From block (Parser.declaration lower kind) (Introduces block) := by
  unfold Parser.declaration
  refine after .advance fun _ _ => bind (declarator scopes kind) fun first b one => ?_
  refine bind (moreDeclarators scopes kind (.one one.1 one.2)) fun declarators b' so => ?_
  refine after .endStatement fun _ _ => pure ?_
  exact ⟨⟨so.unreserved, Declarator.allWellScoped_iff.2 so.each⟩, so.names⟩

theorem functionDeclaration (scopes : lower.KeepsScopes) :
    From block (Parser.functionDeclaration lower) (Introduces block) := by
  unfold Parser.functionDeclaration
  refine after .advance fun _ _ => after .position fun place _ => after .expectIdentifier fun name _ => ?_
  refine bind (declare none place name) fun _ b declared => ?_
  exact after (.functionRest scopes) fun f function => pure ⟨⟨declared.1, function⟩, declared.2⟩

/-! ## Bare bodies -/


theorem branch (scopes : lower.KeepsScopes) : From block (Parser.branch lower) (Introduces block) := by
  unfold Parser.branch
  refine after .advance fun _ _ => after (.parenthesized scopes) fun test testScopes => ?_
  refine bind (scopes.statement block) fun consequent b one => ?_
  refine after (.eatKeyword _) fun _ _ => ite (fun _ => ?_) fun _ => ?_
  · refine bind (scopes.statement b) fun alternate b' other => pure ?_
    exact ⟨⟨testScopes, one.1, other.1⟩, one.2.trans other.2⟩
  · refine pure ⟨⟨testScopes, one.1, trivial⟩, ?_⟩
    exact one.2.trans (Extends.nil b)

theorem whileLoop (scopes : lower.KeepsScopes) :
    From block (Parser.whileLoop lower) (Introduces block) := by
  unfold Parser.whileLoop
  refine after .advance fun _ _ => after (.parenthesized scopes) fun test testScopes => ?_
  exact bind (scopes.statement block) fun body b one => pure ⟨⟨testScopes, one.1⟩, one.2⟩

theorem doWhile (scopes : lower.KeepsScopes) : From block (Parser.doWhile lower) (Introduces block) := by
  unfold Parser.doWhile
  refine after .advance fun _ _ => bind (scopes.statement block) fun body b one => ?_
  have test : From b (do
      let test ← Parser.parenthesized lower
      let _ ← Parser.eatPunct .semicolon
      return Stmt.doWhile body test) (Introduces block) := by
    refine after (.parenthesized scopes) fun test testScopes => after (.eatPunct _) fun _ _ => pure ?_
    exact ⟨⟨testScopes, one.1⟩, one.2⟩
  exact after (.eatKeyword _) fun _ _ => ite (fun _ => test) fun _ => fail_bind _

/-! ## Loops with a head

The head and a bare body share the block of the loop, so the body is read where the names of the head stand. -/

/-- A loop, once all names that its head and body introduce are known to be different. -/
def Loop (s : Stmt) (b : List String) : Prop :=
  b.Nodup → Closed s

theorem forRest (scopes : lower.KeepsScopes) {init : ForInit} (initScopes : init.WellScoped)
    (head : Extends [] init.scopeNames block) : From block (Parser.forRest lower init) Loop := by
  unfold Parser.forRest
  refine after (.expectPunct _ _) fun _ _ => after (.optionalBefore scopes _) fun test testScopes => ?_
  refine after (.expectPunct _ _) fun _ _ => after (.optionalBefore scopes _) fun update updateScopes => ?_
  refine after (.expectPunct _ _) fun _ _ => bind (scopes.statement block) fun body b one => pure ?_
  intro nodup
  exact ⟨⟨(head.trans one.2).nodup nodup, initScopes, testScopes, updateScopes, one.1⟩, rfl⟩

/-- A loop over a collection, or no such loop and nothing declared. -/
def LoopIf (block : List String) (found : Option Stmt) (b : List String) : Prop :=
  match found with
  | some loop => Loop loop b
  | none => b = block

/-- The rest of a loop over a collection, at the word that says what it visits. -/
theorem eachRest (scopes : lower.KeepsScopes) {kind : Option DeclKind} {pattern : Pattern}
    (patternScopes : pattern.WellScoped) (unreserved : kind.isSome = true → Unreserved pattern.boundNames)
    (head : Extends [] (pattern.headNames kind) block) (visits? : Option EachKind) :
    From block (match visits? with
      | none => return none
      | some visits => do
        advance
        let object ← match visits with
          | .keys => expression lower
          | .items => lower.assignment
        expectPunct .closeParen .closeParenExpected
        return some (.forEach visits kind pattern object (← lower.statement))) (LoopIf block) := by
  cases visits? with
  | none => exact pure rfl
  | some visits =>
    have body : ∀ object : Expr, object.WellScoped → From block (do
        Parser.expectPunct .closeParen .closeParenExpected
        return some (.forEach visits kind pattern object (← lower.statement))) (LoopIf block) := by
      intro object objectScopes
      refine after (.expectPunct _ _) fun _ _ => bind (scopes.statement block) fun body b one => pure ?_
      intro nodup
      exact ⟨⟨(head.trans one.2).nodup nodup, unreserved, patternScopes, objectScopes, one.1⟩, rfl⟩
    refine after .advance fun _ _ => ?_
    cases visits with
    | keys => exact after (.expression scopes) body
    | items => exact after scopes.assignment body

theorem forEach? (scopes : lower.KeepsScopes) {kind : Option DeclKind} {pattern : Pattern}
    (patternScopes : pattern.WellScoped) (unreserved : kind.isSome = true → Unreserved pattern.boundNames)
    (head : Extends [] (pattern.headNames kind) block) :
    From block (Parser.forEach? lower kind pattern) (LoopIf block) := by
  unfold Parser.forEach?
  exact after .kind fun k _ => eachRest scopes patternScopes unreserved head _

/-- The names of the declaration are the first ones in the block of the loop. -/
theorem forDeclaration (scopes : lower.KeepsScopes) (kind : DeclKind) :
    From [] (Parser.forDeclaration lower kind) Loop := by
  unfold Parser.forDeclaration
  refine after .advance fun _ _ => after .position fun place _ => ?_
  refine after scopes.pattern fun pattern patternScopes => ?_
  refine bind (declareAll (some kind) place pattern.boundNames) fun _ b declared => ?_
  refine bind (forEach? scopes patternScopes (fun _ => declared.1) declared.2) fun found b' loop => ?_
  cases found with
  | some loop' => exact pure loop
  | none =>
    obtain rfl : b' = b := loop
    have declarators : From b' (Parser.reservingIn do
        let first ← Parser.finishDeclarator lower kind pattern
        Parser.moreDeclarators lower kind first) (Declarators kind []) := by
      refine reservingIn (after (.finishDeclarator scopes kind patternScopes) fun first one => ?_)
      obtain ⟨one, rfl⟩ := one
      exact moreDeclarators scopes kind (.one one declared)
    refine bind declarators fun declarators b so => ?_
    exact forRest scopes ⟨so.unreserved, Declarator.allWellScoped_iff.2 so.each⟩ so.names

/-- Where the head turns out to be no pattern, it is read again as an expression; the attempt has declared
nothing. -/
theorem bareForEach? (scopes : lower.KeepsScopes) : From [] (Parser.bareForEach? lower) (LoopIf []) := by
  intro c outer blocks nodup
  have attempted := scopes.pattern c
  unfold Parser.bareForEach?
  cases read : lower.pattern c with
  | error issue c' =>
    rw [read] at attempted
    exact ⟨[], attempted.trans blocks, nodup, rfl⟩
  | ok pattern c' =>
    rw [read] at attempted
    have each : From [] (Parser.forEach? lower none pattern) (LoopIf []) :=
      forEach? scopes attempted.2 nofun (Extends.nil [])
    have ends := each c' outer (attempted.1.trans blocks) nodup
    dsimp only
    cases loop : Parser.forEach? lower none pattern c' with
    | error issue c'' =>
      rw [loop] at ends
      exact ends
    | ok found c'' =>
      rw [loop] at ends
      cases found <;> exact ends

/-- A head that declares nothing leaves the block of the loop empty for its body. -/
theorem forHead (scopes : lower.KeepsScopes) : From [] (Parser.forHead lower) Loop := by
  have noFirst : From [] (Parser.forRest lower .none) Loop :=
    forRest scopes trivial (Extends.nil [])
  have exprFirst : ∀ e : Expr, e.WellScoped → From [] (Parser.forRest lower (.expr e)) Loop :=
    fun e value => forRest scopes value (Extends.nil [])
  unfold Parser.forHead
  refine after .kind fun k _ => ?_
  split
  · exact forDeclaration scopes _
  · refine after (.checkPunct _) fun _ _ => ite (fun _ => ?_) fun _ => ?_
    · exact noFirst
    · refine bind (bareForEach? scopes) fun found b loop => ?_
      cases found with
      | some loop' => exact pure loop
      | none =>
        obtain rfl : b = [] := loop
        exact after (.reservingIn (.expression scopes)) fun e value => exprFirst e value

theorem forLoop (scopes : lower.KeepsScopes) : From block (Parser.forLoop lower) (Introduces block) := by
  unfold Parser.forLoop
  refine after .advance fun _ _ => after (.expectPunct _ _) fun _ _ => ?_
  refine imp (of_calm (Calm.inBlock (forHead scopes))) fun s b ends => ?_
  obtain ⟨rfl, inner, nodup, loop⟩ := ends
  exact (loop nodup).introduces

end From

/-! ## Cases -/

/-- Cases found so far, with the names that the statements under them have added to the block of the `switch`. -/
structure Cases (cases : List Case) (block : List String) : Prop where
  each : ∀ c ∈ cases, c.WellScoped
  names : Extends [] (Case.scopeNames cases) block

theorem Cases.cons {found : List Case} {test : Option Expr} {body : List Stmt} {block' : List String}
    (before : Cases found.reverse block) (testScopes : Expr.OptionWellScoped test)
    (so : Statements block body block') : Cases (Case.mk test body :: found).reverse block' := by
  rw [List.reverse_cons]
  have names : Case.scopeNames (found.reverse ++ [.mk test body]) =
      Case.scopeNames found.reverse ++ Stmt.scopeNamesList body := by
    simp [Case.scopeNames, Case.body]
  refine ⟨?_, ?_⟩
  · exact List.forall_mem_append.2
      ⟨before.each, List.forall_mem_singleton.2 ⟨testScopes, Stmt.allWellScoped_iff.2 so.each⟩⟩
  · rw [names]
    exact before.names.trans so.names

namespace From

theorem caseBodyTurn (scopes : lower.KeepsScopes) {before : List String} {found : List Stmt}
    (so : Statements before found.reverse block) :
    From block (Parser.caseBodyTurn lower found)
      (fun t b => t.Holds (fun found => Statements before found.reverse b)
        fun statements => Statements before statements b) := by
  unfold Parser.caseBodyTurn
  exact after .kind fun _ _ => ite (fun _ => pure so) fun _ => nextStatement scopes so

end From

theorem Calm.caseLabel (scopes : lower.KeepsScopes) (seenDefault : Bool) :
    Calm (Parser.caseLabel lower seenDefault) Expr.OptionWellScoped := by
  unfold Parser.caseLabel
  refine bind (eatKeyword _) fun _ _ => ite (fun _ => ?_) fun _ => ?_
  · exact bind (expression scopes) fun e value => pure value
  refine bind (checkKeyword _) fun _ _ => ite (fun _ => ?_) fun _ => ?_
  · refine ite (fun _ => fail_bind _) fun _ => ?_
    exact bind advance fun _ _ => pure trivial
  · exact bind atEof fun _ _ => ite (fun _ => fail _) fun _ => fail _

namespace From

theorem caseTurn (scopes : lower.KeepsScopes) {found : List Case} (so : Cases found.reverse block) :
    From block (Parser.caseTurn lower found)
      (fun t b => t.Holds (fun found => Cases found.reverse b) fun cases => Cases cases b) := by
  unfold Parser.caseTurn
  refine after (.eatPunct _) fun _ _ => ite (fun _ => pure so) fun _ => ?_
  refine after (.caseLabel scopes _) fun test testScopes => after (.expectPunct _ _) fun _ _ => ?_
  have body : From block (Parser.repeatFrom [] (Parser.caseBodyTurn lower)) (Statements block) :=
    repeatFrom (Q := fun found b => Statements block found.reverse b) (Statements.none block)
      fun found b so => caseBodyTurn scopes so
  exact bind body fun statements b more => pure (so.cons testScopes more)

end From

namespace Calm

/-- All cases are read in one block. -/
theorem switch (scopes : lower.KeepsScopes) :
    Calm (Parser.switch lower) Closed := by
  unfold Parser.switch
  refine bind advance fun _ _ => bind (parenthesized scopes) fun discriminant value => ?_
  refine bind (expectPunct _ _) fun _ _ => ?_
  have cases : From [] (Parser.repeatFrom [] (Parser.caseTurn lower)) Cases :=
    From.repeatFrom (Q := fun found b => Cases found.reverse b) ⟨nofun, Extends.nil []⟩
      fun found b so => From.caseTurn scopes so
  refine bind (inBlock cases) fun cases ends => pure ⟨?_, rfl⟩
  obtain ⟨b, nodup, so⟩ := ends
  exact ⟨value, so.names.nodup nodup, Case.allWellScoped_iff.2 so.each⟩

/-! ## Handlers -/

/-- The parameter of a handler is declared in the block that its statements are read in. -/
theorem catchClause (scopes : lower.KeepsScopes) :
    Calm (Parser.catchClause lower) Handler.WellScoped := by
  have body : ∀ param b, Unreserved (Option.toList param) → Extends [] (Option.toList param) b →
      From b (do
        Parser.expectPunct .openBrace .openBraceExpected
        return Handler.mk param (← Parser.blockContents lower)) (fun h b' => b'.Nodup → h.WellScoped) := by
    intro param b unreserved named
    refine From.after (expectPunct _ _) fun _ _ => ?_
    refine From.bind (From.blockContents scopes) fun statements b' so => From.pure fun nodup => ?_
    exact ⟨(named.trans so.names).nodup nodup, unreserved, Stmt.allWellScoped_iff.2 so.each⟩
  unfold Parser.catchClause
  refine imp (inBlock (Q := fun h b => b.Nodup → h.WellScoped) ?_) fun h ends =>
    ends.elim fun b holds => holds.2 holds.1
  refine From.after (eatPunct _) fun _ _ => From.ite (fun _ => ?_) fun _ => ?_
  · refine From.after position fun place _ => From.after expectIdentifier fun name _ => ?_
    refine From.bind (From.declare none place name) fun _ b declared => ?_
    exact From.after (expectPunct _ _) fun _ _ => body (some name) b declared.1 declared.2
  · exact body none [] nofun (Extends.nil [])

/-- The statements, the handler and the finalizer have a block of their own each. -/
theorem attempt (scopes : lower.KeepsScopes) :
    Calm (Parser.attempt lower) Closed := by
  unfold Parser.attempt
  refine bind advance fun _ _ => bind (expectBlock scopes) fun statements own => ?_
  have last : ∀ handler finalizer, Handler.OptionWellScoped handler → Stmt.FinalizerWellScoped finalizer →
      Calm (do
        if handler.isNone && finalizer.isNone then Parser.fail .catchExpected
        return Stmt.attempt statements handler finalizer) Closed := by
    intro handler finalizer handled finalized
    exact ite (fun _ => fail_bind _) fun _ => pure ⟨⟨own, handled, finalized⟩, rfl⟩
  have finally_ : ∀ handler, Handler.OptionWellScoped handler → Calm (do
      let finalizer ←
        if ← Parser.eatKeyword .finally then Pure.pure (some (← Parser.expectBlock lower))
        else Pure.pure none
      if handler.isNone && finalizer.isNone then Parser.fail .catchExpected
      return Stmt.attempt statements handler finalizer) Closed := by
    intro handler handled
    refine bind (eatKeyword _) fun _ _ => ite (fun _ => ?_) fun _ => last handler none handled trivial
    exact bind (expectBlock scopes) fun finalizer own => last handler (some finalizer) handled own
  refine bind (eatKeyword _) fun _ _ => ite (fun _ => ?_) fun _ => finally_ none trivial
  exact bind (catchClause scopes) fun handler own => finally_ (some handler) own

/-! ## Statements -/

theorem returnStatement (scopes : lower.KeepsScopes) :
    Calm (Parser.returnStatement lower) Closed := by
  unfold Parser.returnStatement
  refine bind advance fun _ _ => bind get fun _ _ => ite (fun _ => ?_) fun _ => ?_
  · exact bind (pure trivial : Calm (Pure.pure none) Expr.OptionWellScoped) fun _ value =>
      bind endStatement fun _ _ => pure ⟨value, rfl⟩
  · refine bind (expression scopes) fun e value => ?_
    exact bind (pure value : Calm (Pure.pure (some e)) Expr.OptionWellScoped) fun _ value =>
      bind endStatement fun _ _ => pure ⟨value, rfl⟩

theorem throwStatement (scopes : lower.KeepsScopes) :
    Calm (Parser.throwStatement lower) Closed := by
  unfold Parser.throwStatement
  refine bind advance fun _ _ => bind get fun _ _ => ite (fun _ => fail_bind _) fun _ => ?_
  exact bind (expression scopes) fun e value => bind endStatement fun _ _ => pure ⟨value, rfl⟩

end Calm

/-- A statement declares exactly the names that it introduces into the block that it stands in. -/
theorem From.statement (scopes : lower.KeepsScopes) :
    From block (Parser.statement lower) (Introduces block) := by
  have closed : ∀ {p : Parse Stmt}, Calm p Closed →
      From block p (Introduces block) := by
    intro p calm
    refine imp (of_calm calm) fun s b ends => ?_
    obtain ⟨rfl, closed⟩ := ends
    exact closed.introduces
  unfold Parser.statement
  refine after .kind fun k _ => ?_
  split
  · exact closed (.bind .advance fun _ _ => .pure ⟨trivial, rfl⟩)
  · exact closed (.bind .advance fun _ _ => .bind (.block scopes) fun _ own => .pure ⟨own, rfl⟩)
  · exact declaration scopes _
  · exact declaration scopes _
  · exact declaration scopes _
  · exact branch scopes
  · exact whileLoop scopes
  · exact doWhile scopes
  · exact forLoop scopes
  · exact closed (.returnStatement scopes)
  · exact closed (.bind .advance fun _ _ => .bind .endStatement fun _ _ => .pure ⟨trivial, rfl⟩)
  · exact closed (.bind .advance fun _ _ => .bind .endStatement fun _ _ => .pure ⟨trivial, rfl⟩)
  · exact closed (.throwStatement scopes)
  · exact closed (.attempt scopes)
  · exact closed (.switch scopes)
  · exact functionDeclaration scopes
  · exact closed (.bind (.expression scopes) fun _ value => .bind .endStatement fun _ _ => .pure ⟨value, rfl⟩)

/-! ## Whole sources -/

/-- Every level keeps the rules if the one below it does, and at the last one nothing is accepted. -/
theorem level_keepsScopes (n : Nat) : (level n).KeepsScopes := by
  induction n with
  | zero =>
    exact ⟨.fail _, .fail _, fun _ => .fail _, .fail _, fun _ => .fail _⟩
  | succ n scopes =>
    exact ⟨.assignment scopes, .unary scopes, .binary scopes, .bindingPattern scopes,
      fun _ => .statement scopes⟩

theorem From.program (scopes : lower.KeepsScopes) : From [] (Parser.program lower) (Statements []) := by
  unfold Parser.program
  refine repeatFrom (Q := fun found b => Statements [] found.reverse b) (Statements.none [])
    fun found b so => ?_
  unfold Parser.programTurn
  exact after .atEof fun _ _ => ite (fun _ => pure so) fun _ => nextStatement scopes so

/-- What a whole source gives is what the parser gives at its first token. -/
theorem runOn_ok {α : Type} {p : Parse α} {source : String} {a : α} (read : runOn p source = .ok a) :
    ∃ tokens c, p (.ofTokens tokens) = .ok a c := by
  unfold runOn at read
  split at read
  · cases read
  · next tokens _ =>
    split at read
    · next a' c run =>
      cases read
      exact ⟨tokens, c, run⟩
    · cases read

end BindScript.Parser

namespace BindScript

/-- Whatever is accepted keeps the scope rules, as an expression and as a program. -/
theorem parsed_wellScoped (source : String) :
    (∀ e, parseExpr source = .ok e → e.WellScoped) ∧
      ∀ statements, parseStatements source = .ok statements → Stmt.ScopeWellScoped statements := by
  have scopes := Parser.level_keepsScopes Parser.maxNesting
  constructor
  · intro e read
    obtain ⟨tokens, c, run⟩ := Parser.runOn_ok read
    have ends := Parser.Calm.completeExpression scopes (.ofTokens tokens)
    rw [run] at ends
    exact ends.2
  · intro statements read
    obtain ⟨tokens, c, run⟩ := Parser.runOn_ok read
    have ends := Parser.From.program scopes (.ofTokens tokens) [] rfl List.nodup_nil
    rw [run] at ends
    obtain ⟨block, -, nodup, so⟩ := ends
    exact ⟨so.names.nodup nodup, Stmt.allWellScoped_iff.2 so.each⟩

/-- Names of scopes around may be introduced again in the scopes of functions, also in those of templates, and of
loop heads. -/
theorem parsed_shadowing :
    (∃ e, parseExpr "([a, \x7b b: [c] \x7d], ...d) => `$\x7ba => a\x7d`" = .ok e ∧ e.WellScoped) ∧
      ∃ statements, parseStatements "let a = b; for (let a of [a]) c((a) => \x7b let c = a \x7d)" = .ok statements ∧
        Stmt.ScopeWellScoped statements := by
  have accepted : ∀ {α : Type} (read : Except ParseIssue α), read.toBool = true → ∃ a, read = .ok a := by
    intro α read ok
    cases read with
    | ok a => exact ⟨a, rfl⟩
    | error issue => cases ok
  constructor
  · obtain ⟨e, read⟩ := accepted (parseExpr "([a, \x7b b: [c] \x7d], ...d) => `$\x7ba => a\x7d`")
      (by decide +kernel)
    exact ⟨e, read, (parsed_wellScoped _).1 e read⟩
  · obtain ⟨statements, read⟩ := accepted
      (parseStatements "let a = b; for (let a of [a]) c((a) => \x7b let c = a \x7d)") (by decide +kernel)
    exact ⟨statements, read, (parsed_wellScoped _).2 statements read⟩

/-! A loop head and a bare declaration in the body make one scope. -/

example : (parseStatements "for (let a of b) let a = 1").toBool = false := by
  decide +kernel

end BindScript
