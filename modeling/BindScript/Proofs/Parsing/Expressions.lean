import BindScript.Parser.Pattern
import BindScript.Proofs.Parsing.Blocks
import BindScript.Parser.Expression

/-!
# Patterns and expressions keep the scope rules

A pattern declares nothing by itself; the names in parameter lists go into the block of their function,
before the statements of its body are read there.
-/

namespace BindScript.Parser

/-- A statement keeps the scope rules, and its block has the names that it introduces. -/
def Introduces (block : List String) (s : Stmt) (block' : List String) : Prop :=
  s.WellScoped ∧ Extends block s.scopeNames block'

/-- The parsers of a level give trees that keep the scope rules; only its statements declare anything, and
they declare the names that they introduce. -/
structure Level.KeepsScopes (lower : Level) : Prop where
  assignment : Calm lower.assignment Expr.WellScoped
  unary : Calm lower.unary Expr.WellScoped
  operand : ∀ loosest, Calm (lower.operand loosest) Expr.WellScoped
  pattern : Calm lower.pattern Pattern.WellScoped
  statement : ∀ block, From block lower.statement (Introduces block)

namespace Calm

variable {lower : Level}

/-! ## Patterns -/

theorem defaultValue (scopes : lower.KeepsScopes) :
    Calm (Parser.defaultValue lower) Expr.OptionWellScoped := by
  refine bind (eatPunct _) fun _ _ => ite (fun _ => ?_) fun _ => pure trivial
  exact bind scopes.assignment fun _ value => pure value

theorem array_of_found {found : List (Option Element)} (elements : ∀ e, some e ∈ found → e.WellScoped)
    {rest : Option Pattern} (last : Pattern.OptionWellScoped rest) :
    (Pattern.array found.reverse rest).WellScoped :=
  ⟨Pattern.elementsWellScoped_iff.2 fun e mem => elements e (List.mem_reverse.1 mem), last⟩

/-- Patterns bind nothing by themselves, they are only read. -/
theorem arrayPatternTurn (scopes : lower.KeepsScopes) {found : List (Option Element)}
    (elements : ∀ e, some e ∈ found → e.WellScoped) :
    Calm (Parser.arrayPatternTurn lower found)
      (Turn.Holds (fun found => ∀ e, some e ∈ found → e.WellScoped) Pattern.WellScoped) := by
  unfold Parser.arrayPatternTurn
  refine bind (eatPunct _) fun _ _ => ite (fun _ => pure (array_of_found elements trivial)) fun _ => ?_
  refine bind (eatPunct _) fun _ _ => ite (fun _ => pure fun e mem => ?_) fun _ => ?_
  · exact elements e (by simpa using mem)
  refine bind (eatPunct _) fun _ _ => ite (fun _ => ?_) fun _ => ?_
  · refine bind scopes.pattern fun rest last => ?_
    refine bind (eatPunct _) fun _ _ => ite (fun _ => pure (array_of_found elements last)) fun _ => ?_
    exact bind (checkPunct _) fun _ _ => ite (fun _ => fail _) fun _ => fail _
  · refine bind scopes.pattern fun target targetScopes => ?_
    refine bind (defaultValue scopes) fun default defaultScopes => ?_
    have more : ∀ e, some e ∈ some (Element.mk target default) :: found → e.WellScoped := by
      intro e mem
      rcases List.mem_cons.1 mem with same | mem
      · cases same
        exact ⟨targetScopes, defaultScopes⟩
      · exact elements e mem
    refine bind (eatPunct _) fun _ _ => ite (fun _ => pure more) fun _ => ?_
    exact bind (expectPunct _ _) fun _ _ => pure (array_of_found more trivial)

/-- A field is as well scoped as its target and its default are. -/
theorem patternField (scopes : lower.KeepsScopes) :
    Calm (Parser.patternField lower) Field.WellScoped := by
  unfold Parser.patternField
  refine bind kind fun k _ => ?_
  cases propertyKey? k with
  | none => exact fail _
  | some known =>
    obtain ⟨key, shorthand⟩ := known
    have withDefault : ∀ target : Pattern, target.WellScoped →
        Calm (do return Field.mk key target (← Parser.defaultValue lower)) Field.WellScoped :=
      fun target targetScopes =>
        bind (defaultValue scopes) fun default defaultScopes => pure ⟨targetScopes, defaultScopes⟩
    refine bind advance fun _ _ => bind (eatPunct _) fun _ _ => ite (fun _ => ?_) fun _ => ?_
    · exact bind scopes.pattern withDefault
    · refine ite (fun _ => withDefault (.name key) trivial) fun _ => ?_
      exact fail_bind _

theorem object_of_found {found : List Field} (fields : ∀ f ∈ found, f.WellScoped)
    (rest : Option String) : (Pattern.object found.reverse rest).WellScoped :=
  Field.allWellScoped_iff.2 fun f mem => fields f (List.mem_reverse.1 mem)

theorem objectPatternTurn (scopes : lower.KeepsScopes) {found : List Field}
    (fields : ∀ f ∈ found, f.WellScoped) :
    Calm (Parser.objectPatternTurn lower found)
      (Turn.Holds (fun found => ∀ f ∈ found, f.WellScoped) Pattern.WellScoped) := by
  unfold Parser.objectPatternTurn
  refine bind (eatPunct _) fun _ _ => ite (fun _ => pure (object_of_found fields none)) fun _ => ?_
  refine bind (eatPunct _) fun _ _ => ite (fun _ => ?_) fun _ => ?_
  · refine bind expectIdentifier fun rest _ => ?_
    refine bind (eatPunct _) fun _ _ => ite (fun _ => pure (object_of_found fields (some rest))) fun _ => ?_
    exact bind (checkPunct _) fun _ _ => ite (fun _ => fail _) fun _ => fail _
  · refine bind (patternField scopes) fun field fieldScopes => ?_
    have more : ∀ f ∈ field :: found, f.WellScoped := List.forall_mem_cons.2 ⟨fieldScopes, fields⟩
    refine bind (eatPunct _) fun _ _ => ite (fun _ => pure more) fun _ => ?_
    exact bind (expectPunct _ _) fun _ _ => pure (object_of_found more none)

/-- A pattern is as well scoped as its parts. -/
theorem bindingPattern (scopes : lower.KeepsScopes) :
    Calm (Parser.bindingPattern lower) Pattern.WellScoped := by
  unfold Parser.bindingPattern
  refine bind kind fun k _ => ?_
  split
  · exact bind advance fun _ _ => pure trivial
  · refine bind advance fun _ _ => ?_
    exact repeatFrom nofun fun found elements => arrayPatternTurn scopes elements
  · refine bind advance fun _ _ => ?_
    exact repeatFrom nofun fun found fields => objectPatternTurn scopes fields
  · exact fail _
  · exact fail _

end Calm

/-! ## Parameters -/

/-- Parameters found so far, with the names that they have added to the block of the function. -/
structure Parameters (params : List Element) (rest : Option Pattern) (block : List String) : Prop where
  elements : ∀ e ∈ params, e.WellScoped
  last : Pattern.OptionWellScoped rest
  unreserved : Unreserved (Function.paramNames params rest)
  names : Extends [] (Function.paramNames params rest) block

theorem Parameters.withRest {params : List Element} {rest : Pattern} {block block' : List String}
    (before : Parameters params none block) (last : rest.WellScoped)
    (declared : Unreserved rest.boundNames ∧ Extends block rest.boundNames block') :
    Parameters params (some rest) block' := by
  have names : Function.paramNames params (some rest) = Function.paramNames params none ++ rest.boundNames := by
    simp [Function.paramNames, Pattern.restNames]
  refine ⟨before.elements, last, ?_, ?_⟩
  · rw [names]
    exact unreserved_append.2 ⟨before.unreserved, declared.1⟩
  · rw [names]
    exact before.names.trans declared.2

theorem Parameters.snoc {params : List Element} {target : Pattern} {default : Option Expr}
    {block block' : List String} (before : Parameters params none block) (targetScopes : target.WellScoped)
    (defaultScopes : Expr.OptionWellScoped default)
    (declared : Unreserved target.boundNames ∧ Extends block target.boundNames block') :
    Parameters (params ++ [.mk target default]) none block' := by
  have names : Function.paramNames (params ++ [.mk target default]) none =
      Function.paramNames params none ++ target.boundNames := by
    simp [Function.paramNames, Pattern.restNames, Element.target]
  refine ⟨?_, trivial, ?_, ?_⟩
  · exact List.forall_mem_append.2
      ⟨before.elements, List.forall_mem_singleton.2 ⟨targetScopes, defaultScopes⟩⟩
  · rw [names]
    exact unreserved_append.2 ⟨before.unreserved, declared.1⟩
  · rw [names]
    exact before.names.trans declared.2

/-- Statements found so far in a block that had names before, with the names that they have added. -/
structure Statements (before : List String) (statements : List Stmt) (block : List String) : Prop where
  each : ∀ s ∈ statements, s.WellScoped
  names : Extends before (Stmt.scopeNamesList statements) block

theorem Statements.none (block : List String) : Statements block [] block :=
  ⟨nofun, Extends.nil block⟩

theorem Statements.snoc {before block block' : List String} {statements : List Stmt} {s : Stmt}
    (so : Statements before statements block) (next : Introduces block s block') :
    Statements before (statements ++ [s]) block' := by
  have names : Stmt.scopeNamesList (statements ++ [s]) = Stmt.scopeNamesList statements ++ s.scopeNames := by
    simp [Stmt.scopeNamesList]
  refine ⟨List.forall_mem_append.2 ⟨so.each, List.forall_mem_singleton.2 next.1⟩, ?_⟩
  rw [names]
  exact so.names.trans next.2

namespace From

variable {lower : Level} {block before : List String}

/-- The names of one more parameter are added to the block of the function, unless one of them is there. -/
theorem paramsTurn (scopes : lower.KeepsScopes) {found : List Element}
    (so : Parameters found.reverse none block) :
    From block (Parser.paramsTurn lower found)
      (fun t b => t.Holds (fun found => Parameters found.reverse none b)
        fun params => Parameters params.1 params.2 b) := by
  unfold Parser.paramsTurn
  refine after (.checkPunct _) fun _ _ => ite (fun _ => pure so) fun _ => ?_
  refine after .position fun place _ => ?_
  refine after (.eatPunct _) fun _ _ => ite (fun _ => ?_) fun _ => ?_
  · refine after scopes.pattern fun rest last => ?_
    refine bind (declareAll none place rest.boundNames) fun _ b declared => ?_
    refine after (.checkPunct _) fun _ _ => ite (fun _ => ?_) fun _ => pure (so.withRest last declared)
    exact fail_bind _
  · refine after scopes.pattern fun target targetScopes => ?_
    refine bind (declareAll none place target.boundNames) fun _ b declared => ?_
    refine after (.defaultValue scopes) fun default defaultScopes => ?_
    have more : Parameters (Element.mk target default :: found).reverse none b := by
      rw [List.reverse_cons]
      exact so.snoc targetScopes defaultScopes declared
    exact after (.eatPunct _) fun _ _ => ite (fun _ => pure more) fun _ => pure more

theorem params (scopes : lower.KeepsScopes) :
    From [] (Parser.params lower) (fun params b => Parameters params.1 params.2 b) := by
  unfold Parser.params
  refine after (.expectPunct _ _) fun _ _ => ?_
  have none : Parameters ([] : List Element).reverse none [] := ⟨nofun, trivial, nofun, rfl⟩
  refine bind (repeatFrom none fun found b so => paramsTurn scopes so) fun params b so => ?_
  exact after (.expectPunct _ _) fun _ _ => pure so

/-! ## Statements in a row -/

/-- One more statement. -/
theorem nextStatement {β : Type} {R : β → List String → Prop} (scopes : lower.KeepsScopes) {found : List Stmt}
    (so : Statements before found.reverse block) :
    From block (do return Turn.again ((← lower.statement) :: found))
      (fun t b => t.Holds (fun found => Statements before found.reverse b) (R · b)) := by
  refine bind (scopes.statement block) fun s b next => pure ?_
  show Statements before (s :: found).reverse b
  rw [List.reverse_cons]
  exact so.snoc next

theorem blockTurn (scopes : lower.KeepsScopes) {found : List Stmt}
    (so : Statements before found.reverse block) :
    From block (Parser.blockTurn lower found)
      (fun t b => t.Holds (fun found => Statements before found.reverse b)
        fun statements => Statements before statements b) := by
  unfold Parser.blockTurn
  refine after (.checkPunct _) fun _ _ => ite (fun _ => after .advance fun _ _ => pure so) fun _ => ?_
  exact after .atEof fun _ _ => ite (fun _ => fail_bind _) fun _ => nextStatement scopes so

theorem blockContents (scopes : lower.KeepsScopes) :
    From block (Parser.blockContents lower) (Statements block) := by
  unfold Parser.blockContents
  exact repeatFrom (Q := fun found b => Statements block found.reverse b) (Statements.none block)
    fun found b so => blockTurn scopes so

end From

/-! ## Functions -/

namespace Calm

variable {lower : Level}

/-- A block of its own is a scope of its own. -/
theorem block (scopes : lower.KeepsScopes) : Calm (Parser.block lower) Stmt.ScopeWellScoped := by
  refine imp (inBlock (From.blockContents scopes)) fun statements ends => ?_
  obtain ⟨b, nodup, so⟩ := ends
  exact ⟨so.names.nodup nodup, Stmt.allWellScoped_iff.2 so.each⟩

theorem expectBlock (scopes : lower.KeepsScopes) :
    Calm (Parser.expectBlock lower) Stmt.ScopeWellScoped :=
  bind (expectPunct _ _) fun _ _ => block scopes

/-- Parameters and body of a function are read in one block, so their names are different. -/
theorem function_of_block {params : List Element} {rest : Option Pattern} {statements : List Stmt}
    {b b' : List String} (named : Parameters params rest b) (so : Statements b statements b')
    (nodup : b'.Nodup) : (Function.mk params rest (.block statements)).WellScoped := by
  have names := named.names.trans so.names
  exact ⟨named.unreserved, Element.allWellScoped_iff.2 named.elements, named.last, names.nodup nodup,
    Stmt.allWellScoped_iff.2 so.each⟩

theorem functionRest (scopes : lower.KeepsScopes) :
    Calm (Parser.functionRest lower) Function.WellScoped := by
  unfold Parser.functionRest
  refine imp (inBlock (Q := fun f b => b.Nodup → f.WellScoped) ?_) fun f ends =>
    ends.elim fun b holds => holds.2 holds.1
  refine From.bind (From.params scopes) fun params b named => ?_
  refine From.after (expectPunct _ _) fun _ _ => ?_
  refine From.bind (From.blockContents scopes) fun statements b' so => ?_
  exact From.pure (function_of_block named so)

/-- Parameters and body share a block. It is opened before them and closed again, also where the body fails. -/
theorem arrow (scopes : lower.KeepsScopes) : Calm (Parser.arrow lower) Function.WellScoped := by
  have body : ∀ positional rest b, Parameters positional rest b → From b (do
      Parser.expectPunct .arrow .arrowExpected
      if ← Parser.eatPunct .openBrace then
        return Function.mk positional rest (.block (← Parser.blockContents lower))
      else return Function.mk positional rest (.expr (← Parser.allowingIn lower.assignment)))
      (fun f b => b.Nodup → f.WellScoped) := by
    intro positional rest b named
    refine From.after (expectPunct _ _) fun _ _ => From.after (eatPunct _) fun _ _ => ?_
    refine From.ite (fun _ => ?_) fun _ => ?_
    · refine From.bind (From.blockContents scopes) fun statements b' so => ?_
      exact From.pure (function_of_block named so)
    · refine From.after (allowingIn scopes.assignment) fun e value => From.pure fun nodup => ?_
      exact ⟨named.unreserved, Element.allWellScoped_iff.2 named.elements, named.last,
        named.names.nodup nodup, value⟩
  unfold Parser.arrow
  refine imp (inBlock (Q := fun f b => b.Nodup → f.WellScoped) (From.after kind fun k _ => ?_)) fun f ends =>
    ends.elim fun b holds => holds.2 holds.1
  split
  · next name =>
    refine From.after position fun place _ => From.after advance fun _ _ => ?_
    refine From.bind (From.declare none place name) fun _ b declared => ?_
    have named : Parameters [.mk (.name name) none] none b := by
      refine ⟨List.forall_mem_singleton.2 ⟨trivial, trivial⟩, trivial, declared.1, declared.2⟩
    exact body [.mk (.name name) none] none b named
  · exact From.bind (From.params scopes) fun params b named => body params.1 params.2 b named

end Calm

end BindScript.Parser

/-!
## Expressions keep the scope rules

No expression declares anything in the block that it stands in: the names of a function go into the function's
own block. A hole of a template is read by a parser of its own, with blocks of its own.
-/

namespace BindScript.Parser.Calm

variable {lower : Level}

/-! ### Lists of expressions -/

theorem reversed {found : List Expr} (items : ∀ e ∈ found, e.WellScoped) :
    Expr.AllWellScoped found.reverse :=
  Expr.allWellScoped_iff.2 fun e mem => items e (List.mem_reverse.1 mem)

theorem sequenceTurn (scopes : lower.KeepsScopes) {found : List Expr} (items : ∀ e ∈ found, e.WellScoped) :
    Calm (Parser.sequenceTurn lower found)
      (Turn.Holds (fun found => ∀ e ∈ found, e.WellScoped) Expr.WellScoped) := by
  unfold Parser.sequenceTurn
  refine bind (eatPunct _) fun _ _ => ite (fun _ => ?_) fun _ => pure (reversed items)
  exact bind scopes.assignment fun e value => pure (List.forall_mem_cons.2 ⟨value, items⟩)

theorem expression (scopes : lower.KeepsScopes) : Calm (Parser.expression lower) Expr.WellScoped := by
  unfold Parser.expression
  refine bind scopes.assignment fun first value => ?_
  refine bind (checkPunct _) fun _ _ => ite (fun _ => ?_) fun _ => pure value
  exact repeatFrom (List.forall_mem_singleton.2 value) fun found items => sequenceTurn scopes items

theorem completeExpression (scopes : lower.KeepsScopes) :
    Calm (Parser.completeExpression lower) Expr.WellScoped := by
  unfold Parser.completeExpression
  refine bind (expression scopes) fun e value => bind atEof fun _ _ => ite (fun _ => pure value) fun _ => ?_
  exact bind (unexpected (Q := fun _ => False)) nofun

theorem propertyName : Calm Parser.propertyName (fun _ => True) := by
  unfold Parser.propertyName
  refine bind kind fun k _ => ?_
  split
  · exact bind advance fun _ _ => pure trivial
  · exact bind advance fun _ _ => pure trivial
  · exact fail _

theorem bracketed (scopes : lower.KeepsScopes) : Calm (Parser.bracketed lower) Expr.WellScoped := by
  unfold Parser.bracketed
  exact bind (allowingIn (expression scopes)) fun key value => bind (expectPunct _ _) fun _ _ => pure value

theorem spreadable (scopes : lower.KeepsScopes) : Calm (Parser.spreadable lower) Expr.WellScoped := by
  unfold Parser.spreadable
  refine bind (eatPunct _) fun _ _ => ite (fun _ => ?_) fun _ => scopes.assignment
  exact bind scopes.assignment fun e value => pure value

theorem argumentTurn (scopes : lower.KeepsScopes) {found : List Expr} (items : ∀ e ∈ found, e.WellScoped) :
    Calm (Parser.argumentTurn lower found)
      (Turn.Holds (fun found => ∀ e ∈ found, e.WellScoped) Expr.AllWellScoped) := by
  unfold Parser.argumentTurn
  refine bind (checkPunct _) fun _ _ => ite (fun _ => pure (reversed items)) fun _ => ?_
  refine bind (spreadable scopes) fun e value => ?_
  have more : ∀ e' ∈ e :: found, e'.WellScoped := List.forall_mem_cons.2 ⟨value, items⟩
  exact bind (eatPunct _) fun _ _ => ite (fun _ => pure more) fun _ => pure (reversed more)

theorem arguments (scopes : lower.KeepsScopes) : Calm (Parser.arguments lower) Expr.AllWellScoped := by
  unfold Parser.arguments
  refine bind (expectPunct _ _) fun _ _ => allowingIn ?_
  refine bind (repeatFrom nofun fun found items => argumentTurn scopes items) fun args all => ?_
  exact bind (expectPunct _ _) fun _ _ => pure all

/-- A hole is read by a parser of its own, which cannot touch the blocks around the template. -/
theorem templateParts (scopes : lower.KeepsScopes) (chunks : List TemplateChunk) :
    Calm (Parser.templateParts lower chunks) TemplatePart.AllWellScoped := by
  induction chunks with
  | nil => exact pure trivial
  | cons chunk chunks ih =>
    cases chunk with
    | text value => exact bind ih fun parts all => pure all
    | hole source start =>
      unfold Parser.templateParts
      split
      · exact throw _
      · next tokens _ =>
        have inside := completeExpression scopes (.ofTokens tokens)
        split
        · exact throw _
        · next value c read =>
          rw [read] at inside
          exact bind ih fun parts all => pure ⟨inside.2, all⟩

theorem arrayTurn (scopes : lower.KeepsScopes) {found : List Expr} (items : ∀ e ∈ found, e.WellScoped) :
    Calm (Parser.arrayTurn lower found)
      (Turn.Holds (fun found => ∀ e ∈ found, e.WellScoped) Expr.WellScoped) := by
  unfold Parser.arrayTurn
  refine bind (eatPunct _) fun _ _ => ite (fun _ => pure (reversed items)) fun _ => ?_
  refine bind (eatPunct _) fun _ _ => ite (fun _ => ?_) fun _ => ?_
  · exact pure (List.forall_mem_cons.2 ⟨trivial, items⟩)
  refine bind (spreadable scopes) fun e value => ?_
  have more : ∀ e' ∈ e :: found, e'.WellScoped := List.forall_mem_cons.2 ⟨value, items⟩
  refine bind (eatPunct _) fun _ _ => ite (fun _ => pure more) fun _ => ?_
  exact bind (expectPunct _ _) fun _ _ => pure (reversed more)

/-! ### Objects -/

/-- A method has the block of its function, other properties have none. -/
theorem property (scopes : lower.KeepsScopes) : Calm (Parser.property lower) Property.WellScoped := by
  unfold Parser.property
  refine bind (eatPunct _) fun _ _ => ite (fun _ => bind scopes.assignment fun e value => pure value) fun _ => ?_
  refine bind (eatPunct _) fun _ _ => ite (fun _ => ?_) fun _ => ?_
  · refine bind (bracketed scopes) fun key keyScopes => ?_
    refine bind (checkPunct _) fun _ _ => ite (fun _ => ?_) fun _ => ?_
    · exact bind (functionRest scopes) fun f function => pure ⟨keyScopes, function⟩
    · refine bind (expectPunct _ _) fun _ _ => ?_
      exact bind scopes.assignment fun e value => pure ⟨keyScopes, value⟩
  · refine bind kind fun k _ => ?_
    split
    · exact ite (fun _ => fail _) fun _ => fail _
    · refine bind advance fun _ _ => bind (eatPunct _) fun _ _ => ite (fun _ => ?_) fun _ => ?_
      · exact bind scopes.assignment fun e value => pure value
      refine bind (checkPunct _) fun _ _ => ite (fun _ => ?_) fun _ => ?_
      · exact bind (functionRest scopes) fun f function => pure function
      · exact ite (fun _ => pure trivial) fun _ => fail _

theorem propertyTurn (scopes : lower.KeepsScopes) {found : List Property}
    (properties : ∀ p ∈ found, p.WellScoped) :
    Calm (Parser.propertyTurn lower found)
      (Turn.Holds (fun found => ∀ p ∈ found, p.WellScoped) Property.AllWellScoped) := by
  have reversed : ∀ {found : List Property}, (∀ p ∈ found, p.WellScoped) →
      Property.AllWellScoped found.reverse := fun properties =>
    Property.allWellScoped_iff.2 fun p mem => properties p (List.mem_reverse.1 mem)
  unfold Parser.propertyTurn
  refine bind (checkPunct _) fun _ _ => ite (fun _ => pure (reversed properties)) fun _ => ?_
  refine bind (property scopes) fun p one => ?_
  have more : ∀ p' ∈ p :: found, p'.WellScoped := List.forall_mem_cons.2 ⟨one, properties⟩
  exact bind (eatPunct _) fun _ _ => ite (fun _ => pure more) fun _ => pure (reversed more)

theorem objectLiteral (scopes : lower.KeepsScopes) :
    Calm (Parser.objectLiteral lower) Expr.WellScoped := by
  unfold Parser.objectLiteral
  refine allowingIn (bind (repeatFrom nofun fun found properties => propertyTurn scopes properties) ?_)
  exact fun properties all => bind (expectPunct _ _) fun _ _ => pure all

/-! ### Operands and operators -/

theorem nameExpr_wellScoped (name : String) : (nameExpr name).WellScoped := by
  unfold nameExpr
  split
  · trivial
  · split
    · trivial
    · split <;> trivial

theorem functionExpr (scopes : lower.KeepsScopes) :
    Calm (Parser.functionExpr lower) Expr.WellScoped := by
  have rest : Calm (do return Expr.function (← Parser.functionRest lower)) Expr.WellScoped :=
    bind (functionRest scopes) fun f function => pure function
  unfold Parser.functionExpr
  refine bind kind fun k _ => ?_
  split
  · exact bind advance fun _ _ => rest
  · exact rest

/-- What stands in brackets is read from the level below. -/
theorem primary (scopes : lower.KeepsScopes) : Calm (Parser.primary lower) Expr.WellScoped := by
  unfold Parser.primary
  refine bind kind fun k _ => ?_
  split
  case h_3 => exact bind advance fun _ _ => bind (templateParts scopes _) fun parts all => pure all
  case h_4 => exact bind advance fun _ _ => pure (nameExpr_wellScoped _)
  case h_8 => exact bind advance fun _ _ => functionExpr scopes
  case h_9 =>
    refine bind advance fun _ _ => bind (allowingIn (expression scopes)) fun inner value => ?_
    exact bind (expectPunct _ _) fun _ _ => pure value
  case h_10 =>
    exact bind advance fun _ _ => allowingIn (repeatFrom nofun fun found items => arrayTurn scopes items)
  case h_11 => exact bind advance fun _ _ => objectLiteral scopes
  case h_12 => exact fail _
  case h_13 => exact fail _
  all_goals exact bind advance fun _ _ => pure trivial

/-- A chain that keeps the rules keeps them with one more link. -/
theorem chainTurn (scopes : lower.KeepsScopes) {chain : Expr} (before : chain.WellScoped) :
    Calm (Parser.chainTurn lower chain) (Turn.Holds Expr.WellScoped Expr.WellScoped) := by
  have member : ∀ optional, Calm (do return Turn.again (.member chain (← Parser.propertyName) optional))
      (Turn.Holds Expr.WellScoped Expr.WellScoped) :=
    fun optional => bind propertyName fun name _ => pure before
  have index : ∀ optional, Calm (do return Turn.again (.index chain (← Parser.bracketed lower) optional))
      (Turn.Holds Expr.WellScoped Expr.WellScoped) :=
    fun optional => bind (bracketed scopes) fun key value => pure ⟨before, value⟩
  have call : ∀ optional, Calm (do return Turn.again (.call chain (← Parser.arguments lower) optional))
      (Turn.Holds Expr.WellScoped Expr.WellScoped) :=
    fun optional => bind (arguments scopes) fun args all => pure ⟨before, all⟩
  unfold Parser.chainTurn
  refine bind kind fun k _ => ?_
  split
  · exact bind advance fun _ _ => member false
  · refine bind advance fun _ _ => ?_
    refine bind (checkPunct _) fun _ _ => ite (fun _ => call true) fun _ => ?_
    exact bind (eatPunct _) fun _ _ => ite (fun _ => index true) fun _ => member true
  · exact bind advance fun _ _ => index false
  · exact call false
  · exact pure before

theorem callChain (scopes : lower.KeepsScopes) : Calm (Parser.callChain lower) Expr.WellScoped := by
  unfold Parser.callChain
  exact bind (primary scopes) fun first value => repeatFrom value fun chain before => chainTurn scopes before

theorem postfixed (scopes : lower.KeepsScopes) : Calm (Parser.postfixed lower) Expr.WellScoped := by
  unfold Parser.postfixed
  refine bind position fun place _ => bind (callChain scopes) fun e value => bind get fun c _ => ?_
  refine ite (fun _ => pure value) fun _ => ?_
  split
  · exact pure value
  · refine ite (fun _ => ?_) fun _ => failAt _ _
    exact bind advance fun _ _ => pure value

theorem unary (scopes : lower.KeepsScopes) : Calm (Parser.unary lower) Expr.WellScoped := by
  unfold Parser.unary
  refine bind kind fun k _ => ?_
  split
  · exact bind advance fun _ _ => bind scopes.unary fun operand value => pure value
  · split
    · refine bind advance fun _ _ => bind position fun place _ => bind scopes.unary fun operand value => ?_
      exact ite (fun _ => pure value) fun _ => failAt _ _
    · exact postfixed scopes

theorem binaryTurn (scopes : lower.KeepsScopes) (loosest : Nat) {left : Expr} (before : left.WellScoped) :
    Calm (Parser.binaryTurn lower loosest left) (Turn.Holds Expr.WellScoped Expr.WellScoped) := by
  unfold Parser.binaryTurn
  refine bind get fun c _ => ?_
  split
  · refine ite (fun _ => pure before) fun _ => bind advance fun _ _ => ?_
    exact bind (scopes.operand _) fun right value => pure ⟨before, value⟩
  · exact pure before

theorem binary (scopes : lower.KeepsScopes) (loosest : Nat) :
    Calm (Parser.binary lower loosest) Expr.WellScoped := by
  unfold Parser.binary
  refine bind scopes.unary fun first value => ?_
  exact repeatFrom value fun left before => binaryTurn scopes loosest before

theorem conditional (scopes : lower.KeepsScopes) : Calm (Parser.conditional lower) Expr.WellScoped := by
  unfold Parser.conditional
  refine bind (binary scopes 1) fun test testScopes => ?_
  refine bind (eatPunct _) fun _ _ => ite (fun _ => ?_) fun _ => pure testScopes
  refine bind (allowingIn scopes.assignment) fun consequent consequentScopes => ?_
  refine bind (expectPunct _ _) fun _ _ => bind scopes.assignment fun alternate alternateScopes => ?_
  exact pure ⟨testScopes, consequentScopes, alternateScopes⟩

theorem assignment (scopes : lower.KeepsScopes) : Calm (Parser.assignment lower) Expr.WellScoped := by
  unfold Parser.assignment
  refine bind get fun c _ => ite (fun _ => ?_) fun _ => ?_
  · exact bind (arrow scopes) fun f function => pure function
  · refine bind (conditional scopes) fun target targetScopes => bind kind fun k _ => ?_
    split
    · exact pure targetScopes
    · refine ite (fun _ => bind advance fun _ _ => ?_) fun _ => failAt _ _
      exact bind scopes.assignment fun e value => pure ⟨targetScopes, value⟩

end BindScript.Parser.Calm
