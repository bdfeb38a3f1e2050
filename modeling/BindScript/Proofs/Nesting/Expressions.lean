import Mathlib.Data.List.ReduceOption
import BindScript.Proofs.Nesting.Limit
import BindScript.Proofs.Syntax.Parts

/-!
# The nesting of patterns and expressions

A way from a node down to a part of a part of it (`Node.Path`) has a number of nodes, and some of them go on with a
chain. Chains are read by loops and may be of any length; all other nesting is recursion of the parser. A node is
within a bound if no way down has more nodes than the bound, not counting those that go on with a chain
(`Node.Within`). To see this it is enough to look at its parts (`Node.within_of_parts`).

What the parsers of a level below give is within a bound, and what is read around it adds a few nodes: at most three
for a whole assignment, one more for an operand with its operators. Loops add chains, which are not counted, and one
node for the chain as a whole (`ChainWithin`). The same goes through for two limits at once (`Level.Agrees`).
-/

namespace BindScript

/-! ## How deep trees nest -/

namespace Node

/-- There is a way down from the node that has so many nodes, and so many of them go on with a chain. -/
inductive Path : Node → Nat → Nat → Prop
  | here {x : Node} : Path x 1 0
  | part {x y : Node} {nodes links : Nat} (mem : y ∈ x.parts) (path : Path y nodes links) :
    Path x (nodes + 1) links
  | chained {x y : Node} {nodes links : Nat} (mem : y ∈ x.chained?) (path : Path y nodes links) :
    Path x (nodes + 1) (links + 1)

/-- Not counting the nodes that go on with a chain, no way down from the node is longer than the bound. -/
def Within (bound : Nat) (x : Node) : Prop :=
  ∀ nodes links, x.Path nodes links → nodes ≤ bound + links

variable {bound more : Nat} {x : Node}

theorem Within.mono (within : x.Within bound) (le : bound ≤ more) : x.Within more :=
  fun nodes links path => Nat.le_trans (within nodes links path) (Nat.add_le_add_right le links)

theorem within_of_parts (parts : ∀ y ∈ x.parts, y.Within bound) (chain : ∀ y ∈ x.chained?, y.Within (bound + 1)) :
    x.Within (bound + 1) := by
  intro nodes links path
  cases path with
  | here => exact Nat.le_add_left _ _
  | part mem path =>
    have below := parts _ mem _ _ path
    omega
  | chained mem path =>
    have below := chain _ mem _ _ path
    omega

/-- A node that ends no chain is one more than its parts. -/
theorem within_of_unchained (unchained : x.chained? = none) (parts : ∀ y ∈ x.parts, y.Within bound) :
    x.Within (bound + 1) :=
  within_of_parts parts fun y mem => absurd (unchained ▸ mem) (Option.not_mem_none y)

theorem within_of_unchained_of_lt (unchained : x.chained? = none) (parts : ∀ y ∈ x.parts, y.Within bound)
    (lt : bound < more) : x.Within more :=
  (within_of_unchained unchained parts).mono lt

end Node

namespace Parser

variable {same : Prop} {bound : Nat} {lower₁ lower₂ : Level} {α β : Type}

/-- The head of a loop does not begin with a bracket or a brace here. -/
def Cursor.Plain (c : Cursor) : Prop :=
  c.current.kind ≠ .punct .openBracket ∧ c.current.kind ≠ .punct .openBrace

/-- The parsers of two levels agree, and the trees they give are within a bound. -/
structure Level.Agrees (same : Prop) (bound : Nat) (lower₁ lower₂ : Level) : Prop where
  assignment : Parser.Agrees same lower₁.assignment lower₂.assignment fun e => (Node.expr e).Within bound
  unary : Parser.Agrees same lower₁.unary lower₂.unary fun e => (Node.expr e).Within (bound + 1)
  operand : ∀ loosest, Parser.Agrees same (lower₁.operand loosest) (lower₂.operand loosest) fun e =>
    (Node.expr e).Within (bound + 1)
  statement : Parser.Agrees same lower₁.statement lower₂.statement fun s => (Node.stmt s).Within bound
  pattern : Parser.Agrees same lower₁.pattern lower₂.pattern fun p => (Node.pattern p).Within bound
  heads : lower₁ = Level.exhausted ∨ ∀ c : Cursor, same ∨ c.Plain → lower₁.pattern c = lower₂.pattern c

namespace Agrees

/-! ## Patterns -/

theorem defaultValue (lower : Level.Agrees same bound lower₁ lower₂) :
    Agrees same (Parser.defaultValue lower₁) (Parser.defaultValue lower₂) fun e =>
      ∀ y ∈ Expr.optionNodes e, y.Within bound := by
  refine bind (eatPunct _) fun _ _ => ite (fun _ => ?_) fun _ => pure (List.forall_mem_nil _)
  exact bind lower.assignment fun e within => pure (List.forall_mem_singleton.2 within)

theorem array_of_found {found : List (Option Element)} {rest : Option Pattern}
    (elements : ∀ e, some e ∈ found → ∀ y ∈ e.nodes, y.Within bound)
    (last : ∀ y ∈ Pattern.optionNodes rest, y.Within bound) :
    (Node.pattern (.array found.reverse rest)).Within (bound + 1) := by
  refine Node.within_of_unchained rfl (List.forall_mem_append.2 ⟨fun y mem => ?_, last⟩)
  obtain ⟨e, inside, mem⟩ := List.mem_flatMap.1 mem
  exact elements e (List.mem_reverse.1 (List.reduceOption_mem_iff.1 inside)) y mem

/-- What has been found is within the bound, and so is one more element. -/
theorem arrayPatternTurn (lower : Level.Agrees same bound lower₁ lower₂) {found : List (Option Element)}
    (elements : ∀ e, some e ∈ found → ∀ y ∈ e.nodes, y.Within bound) :
    Agrees same (Parser.arrayPatternTurn lower₁ found) (Parser.arrayPatternTurn lower₂ found)
      (Turn.Holds (fun found => ∀ e, some e ∈ found → ∀ y ∈ e.nodes, y.Within bound)
        fun p => (Node.pattern p).Within (bound + 1)) := by
  unfold Parser.arrayPatternTurn
  refine bind (eatPunct _) fun _ _ => ite (fun _ => pure (array_of_found elements (List.forall_mem_nil _))) fun _ => ?_
  refine bind (eatPunct _) fun _ _ => ite (fun _ => pure fun e mem => ?_) fun _ => ?_
  · exact elements e (by simpa using mem)
  refine bind (eatPunct _) fun _ _ => ite (fun _ => ?_) fun _ => ?_
  · refine bind lower.pattern fun rest last => ?_
    refine bind (eatPunct _) fun _ _ => ite (fun _ => ?_) fun _ => ?_
    · exact pure (array_of_found elements (List.forall_mem_singleton.2 last))
    · exact bind (checkPunct _) fun _ _ => ite (fun _ => fail _) fun _ => fail _
  · refine bind lower.pattern fun target targetWithin => ?_
    refine bind (defaultValue lower) fun default defaultWithin => ?_
    have more : ∀ e, some e ∈ some (Element.mk target default) :: found → ∀ y ∈ e.nodes, y.Within bound := by
      intro e mem
      rcases List.mem_cons.1 mem with same | mem
      · cases same
        exact List.forall_mem_cons.2 ⟨targetWithin, defaultWithin⟩
      · exact elements e mem
    refine bind (eatPunct _) fun _ _ => ite (fun _ => pure more) fun _ => ?_
    exact bind (expectPunct _ _) fun _ _ => pure (array_of_found more (List.forall_mem_nil _))

/-- A name has no parts. -/
theorem name_within (id : String) : (Node.pattern (.name id)).Within (bound + 1) :=
  Node.within_of_unchained rfl (List.forall_mem_nil _)

/-- A field is nested no deeper than its target and its default. -/
theorem patternField (lower : Level.Agrees same bound lower₁ lower₂) :
    Agrees same (Parser.patternField lower₁) (Parser.patternField lower₂) fun f =>
      ∀ y ∈ f.nodes, y.Within (bound + 1) := by
  unfold Parser.patternField
  refine bind kind fun k _ => ?_
  cases propertyKey? k with
  | none => exact fail _
  | some found =>
    obtain ⟨key, shorthand⟩ := found
    have withDefault : ∀ target : Pattern, (Node.pattern target).Within (bound + 1) →
        Agrees same (do return Field.mk key target (← Parser.defaultValue lower₁))
          (do return Field.mk key target (← Parser.defaultValue lower₂)) fun f => ∀ y ∈ f.nodes, y.Within (bound + 1) :=
      fun target targetWithin => bind (defaultValue lower) fun default defaultWithin =>
        pure (List.forall_mem_cons.2 ⟨targetWithin, fun y mem => (defaultWithin y mem).mono (Nat.le_succ _)⟩)
    refine bind advance fun _ _ => bind (eatPunct _) fun _ _ => ite (fun _ => ?_) fun _ => ?_
    · exact bind lower.pattern fun target within => withDefault target (within.mono (Nat.le_succ _))
    · exact ite (fun _ => withDefault (.name key) (name_within key)) fun _ => fail_bind _

theorem object_of_found {found : List Field} {rest : Option String}
    (fields : ∀ f ∈ found, ∀ y ∈ f.nodes, y.Within (bound + 1)) :
    (Node.pattern (.object found.reverse rest)).Within (bound + 2) := by
  refine Node.within_of_unchained rfl fun y mem => ?_
  obtain ⟨f, inside, mem⟩ := List.mem_flatMap.1 mem
  exact fields f (List.mem_reverse.1 inside) y mem

theorem objectPatternTurn (lower : Level.Agrees same bound lower₁ lower₂) {found : List Field}
    (fields : ∀ f ∈ found, ∀ y ∈ f.nodes, y.Within (bound + 1)) :
    Agrees same (Parser.objectPatternTurn lower₁ found) (Parser.objectPatternTurn lower₂ found)
      (Turn.Holds (fun found => ∀ f ∈ found, ∀ y ∈ f.nodes, y.Within (bound + 1))
        fun p => (Node.pattern p).Within (bound + 2)) := by
  unfold Parser.objectPatternTurn
  refine bind (eatPunct _) fun _ _ => ite (fun _ => pure (object_of_found fields)) fun _ => ?_
  refine bind (eatPunct _) fun _ _ => ite (fun _ => ?_) fun _ => ?_
  · refine bind expectIdentifier fun rest _ => ?_
    refine bind (eatPunct _) fun _ _ => ite (fun _ => pure (object_of_found fields)) fun _ => ?_
    exact bind (checkPunct _) fun _ _ => ite (fun _ => fail _) fun _ => fail _
  · refine bind (patternField lower) fun field within => ?_
    have more : ∀ f ∈ field :: found, ∀ y ∈ f.nodes, y.Within (bound + 1) :=
      List.forall_mem_cons.2 ⟨within, fields⟩
    refine bind (eatPunct _) fun _ _ => ite (fun _ => pure more) fun _ => ?_
    exact bind (expectPunct _ _) fun _ _ => pure (object_of_found more)

/-- A pattern is one level above its parts. -/
theorem bindingPattern (lower : Level.Agrees same bound lower₁ lower₂) :
    Agrees same (Parser.bindingPattern lower₁) (Parser.bindingPattern lower₂) fun p =>
      (Node.pattern p).Within (bound + 2) := by
  unfold Parser.bindingPattern
  refine bind kind fun k _ => ?_
  split
  · exact bind advance fun _ _ => pure (name_within _)
  · refine bind advance fun _ _ => ?_
    exact (repeatFrom nofun fun found elements => arrayPatternTurn lower elements).imp
      fun p within => within.mono (Nat.le_succ _)
  · refine bind advance fun _ _ => ?_
    exact repeatFrom nofun fun found fields => objectPatternTurn lower fields
  · exact fail _
  · exact fail _

/-! ## Functions -/

/-- The nodes of parameters. -/
def paramNodes (params : List Element × Option Pattern) : List Node :=
  params.1.flatMap Element.nodes ++ Pattern.optionNodes params.2

theorem params_of_found {found : List Element} {rest : Option Pattern}
    (elements : ∀ e ∈ found, ∀ y ∈ e.nodes, y.Within bound)
    (last : ∀ y ∈ Pattern.optionNodes rest, y.Within bound) :
    ∀ y ∈ paramNodes (found.reverse, rest), y.Within bound := by
  refine List.forall_mem_append.2 ⟨fun y mem => ?_, last⟩
  obtain ⟨e, inside, mem⟩ := List.mem_flatMap.1 mem
  exact elements e (List.mem_reverse.1 inside) y mem

/-- One parameter more, or the rest and the end of the list. -/
theorem paramsTurn (lower : Level.Agrees same bound lower₁ lower₂) {found : List Element}
    (elements : ∀ e ∈ found, ∀ y ∈ e.nodes, y.Within bound) :
    Agrees same (Parser.paramsTurn lower₁ found) (Parser.paramsTurn lower₂ found)
      (Turn.Holds (fun found => ∀ e ∈ found, ∀ y ∈ e.nodes, y.Within bound)
        fun params => ∀ y ∈ paramNodes params, y.Within bound) := by
  unfold Parser.paramsTurn
  refine bind (checkPunct _) fun _ _ => ite (fun _ => ?_) fun _ => ?_
  · exact pure (params_of_found elements (List.forall_mem_nil _))
  refine bind position fun place _ => bind (eatPunct _) fun _ _ => ite (fun _ => ?_) fun _ => ?_
  · refine bind lower.pattern fun rest last => bind (declareAll _ _ _) fun _ _ => ?_
    refine bind (checkPunct _) fun _ _ => ite (fun _ => fail_bind _) fun _ => ?_
    exact pure (params_of_found elements (List.forall_mem_singleton.2 last))
  · refine bind lower.pattern fun target targetWithin => bind (declareAll _ _ _) fun _ _ => ?_
    refine bind (defaultValue lower) fun default defaultWithin => ?_
    have more : ∀ e ∈ Element.mk target default :: found, ∀ y ∈ e.nodes, y.Within bound :=
      List.forall_mem_cons.2 ⟨List.forall_mem_cons.2 ⟨targetWithin, defaultWithin⟩, elements⟩
    refine bind (eatPunct _) fun _ _ => ite (fun _ => pure more) fun _ => ?_
    exact pure (params_of_found more (List.forall_mem_nil _))

theorem params (lower : Level.Agrees same bound lower₁ lower₂) :
    Agrees same (Parser.params lower₁) (Parser.params lower₂) fun params =>
      ∀ y ∈ paramNodes params, y.Within bound := by
  unfold Parser.params
  refine bind (expectPunct _ _) fun _ _ => ?_
  refine bind (repeatFrom nofun fun found elements => paramsTurn lower elements) fun params within => ?_
  exact bind (expectPunct _ _) fun _ _ => pure within

/-- One more statement. -/
theorem nextStatement {R : β → Prop} (lower : Level.Agrees same bound lower₁ lower₂) {found : List Stmt}
    (each : ∀ s ∈ found, (Node.stmt s).Within bound) :
    Agrees same (do return Turn.again ((← lower₁.statement) :: found))
      (do return Turn.again ((← lower₂.statement) :: found))
      (Turn.Holds (fun found => ∀ s ∈ found, (Node.stmt s).Within bound) R) :=
  bind lower.statement fun _ next => pure (List.forall_mem_cons.2 ⟨next, each⟩)

theorem statements_of_found {found : List Stmt} (each : ∀ s ∈ found, (Node.stmt s).Within bound) :
    ∀ y ∈ found.reverse.map Node.stmt, y.Within bound :=
  List.forall_mem_map.2 fun s mem => each s (List.mem_reverse.1 mem)

theorem blockContents (lower : Level.Agrees same bound lower₁ lower₂) :
    Agrees same (Parser.blockContents lower₁) (Parser.blockContents lower₂) fun statements =>
      ∀ y ∈ statements.map Node.stmt, y.Within bound := by
  refine repeatFrom (Q := fun found => ∀ s ∈ found, (Node.stmt s).Within bound) nofun fun found each => ?_
  unfold Parser.blockTurn
  refine bind (checkPunct _) fun _ _ => ite (fun _ => ?_) fun _ => ?_
  · exact bind advance fun _ _ => pure (statements_of_found each)
  · exact bind atEof fun _ _ => ite (fun _ => fail_bind _) fun _ => nextStatement lower each

theorem block (lower : Level.Agrees same bound lower₁ lower₂) :
    Agrees same (Parser.block lower₁) (Parser.block lower₂) fun statements =>
      ∀ y ∈ statements.map Node.stmt, y.Within bound :=
  inBlock (blockContents lower)

theorem expectBlock (lower : Level.Agrees same bound lower₁ lower₂) :
    Agrees same (Parser.expectBlock lower₁) (Parser.expectBlock lower₂) fun statements =>
      ∀ y ∈ statements.map Node.stmt, y.Within bound :=
  bind (expectPunct _ _) fun _ _ => block lower

theorem functionRest (lower : Level.Agrees same bound lower₁ lower₂) :
    Agrees same (Parser.functionRest lower₁) (Parser.functionRest lower₂) fun f => ∀ y ∈ f.nodes, y.Within bound := by
  unfold Parser.functionRest
  refine inBlock (bind (params lower) fun params within => bind (expectPunct _ _) fun _ _ => ?_)
  exact bind (blockContents lower) fun statements each => pure (List.forall_mem_append.2 ⟨within, each⟩)

/-- The parameters are patterns, and the body is an expression or a block of the level below. -/
theorem arrow (lower : Level.Agrees same bound lower₁ lower₂) :
    Agrees same (Parser.arrow lower₁) (Parser.arrow lower₂) fun f => ∀ y ∈ f.nodes, y.Within (bound + 1) := by
  have body : ∀ positional rest, (∀ y ∈ paramNodes (positional, rest), y.Within (bound + 1)) → Agrees same
      (do
        Parser.expectPunct .arrow .arrowExpected
        if ← Parser.eatPunct .openBrace then
          return Function.mk positional rest (.block (← Parser.blockContents lower₁))
        else return Function.mk positional rest (.expr (← Parser.allowingIn lower₁.assignment)))
      (do
        Parser.expectPunct .arrow .arrowExpected
        if ← Parser.eatPunct .openBrace then
          return Function.mk positional rest (.block (← Parser.blockContents lower₂))
        else return Function.mk positional rest (.expr (← Parser.allowingIn lower₂.assignment)))
      (fun f => ∀ y ∈ f.nodes, y.Within (bound + 1)) := by
    intro positional rest within
    refine bind (expectPunct _ _) fun _ _ => bind (eatPunct _) fun _ _ => ite (fun _ => ?_) fun _ => ?_
    · refine bind (blockContents lower) fun statements each => pure (List.forall_mem_append.2 ⟨within, ?_⟩)
      exact fun y mem => (each y mem).mono (Nat.le_succ _)
    · refine bind (allowingIn lower.assignment) fun e value => pure (List.forall_mem_append.2 ⟨within, ?_⟩)
      exact List.forall_mem_singleton.2 (value.mono (Nat.le_succ _))
  unfold Parser.arrow
  refine inBlock (bind kind fun k holes => ?_)
  split
  · next name =>
    refine bind position fun place _ => bind advance fun _ _ => bind (declare _ _ _) fun _ _ => ?_
    exact body [.mk (.name name) none] none (List.forall_mem_singleton.2 (name_within name))
  · exact bind (params lower) fun params within =>
      body params.1 params.2 fun y mem => (within y mem).mono (Nat.le_succ _)

/-! ## Lists of expressions -/

theorem expressions_of_found {found : List Expr} (items : ∀ e ∈ found, (Node.expr e).Within bound) :
    ∀ y ∈ found.reverse.map Node.expr, y.Within bound :=
  List.forall_mem_map.2 fun e mem => items e (List.mem_reverse.1 mem)

theorem expression (lower : Level.Agrees same bound lower₁ lower₂) :
    Agrees same (Parser.expression lower₁) (Parser.expression lower₂) fun e => (Node.expr e).Within (bound + 1) := by
  unfold Parser.expression
  refine bind lower.assignment fun first value => ?_
  refine bind (checkPunct _) fun _ _ => ite (fun _ => ?_) fun _ => pure (value.mono (Nat.le_succ _))
  have one : ∀ e ∈ [first], (Node.expr e).Within bound := List.forall_mem_singleton.2 value
  refine repeatFrom (Q := fun found => ∀ e ∈ found, (Node.expr e).Within bound) one fun found items => ?_
  unfold Parser.sequenceTurn
  refine bind (eatPunct _) fun _ _ => ite (fun _ => ?_) fun _ => ?_
  · exact bind lower.assignment fun e value => pure (List.forall_mem_cons.2 ⟨value, items⟩)
  · exact pure (Node.within_of_unchained rfl (expressions_of_found items))

theorem completeExpression (lower : Level.Agrees same bound lower₁ lower₂) :
    Agrees same (Parser.completeExpression lower₁) (Parser.completeExpression lower₂) fun e =>
      (Node.expr e).Within (bound + 1) := by
  unfold Parser.completeExpression
  refine bind (expression lower) fun e value => bind atEof fun _ _ => ite (fun _ => pure value) fun _ => ?_
  exact bind (unexpected (Q := fun _ => False)) nofun

theorem propertyName : Agrees same Parser.propertyName Parser.propertyName (fun _ => True) := by
  unfold Parser.propertyName
  refine bind kind fun k _ => ?_
  split
  · exact bind advance fun _ _ => pure trivial
  · exact bind advance fun _ _ => pure trivial
  · exact fail _

theorem bracketed (lower : Level.Agrees same bound lower₁ lower₂) :
    Agrees same (Parser.bracketed lower₁) (Parser.bracketed lower₂) fun e => (Node.expr e).Within (bound + 1) :=
  bind (allowingIn (expression lower)) fun _ value => bind (expectPunct _ _) fun _ _ => pure value

theorem spreadable (lower : Level.Agrees same bound lower₁ lower₂) :
    Agrees same (Parser.spreadable lower₁) (Parser.spreadable lower₂) fun e => (Node.expr e).Within (bound + 1) := by
  unfold Parser.spreadable
  refine bind (eatPunct _) fun _ _ => ite (fun _ => ?_) fun _ => lower.assignment.imp fun e value => ?_
  · exact bind lower.assignment fun e value =>
      pure (Node.within_of_unchained rfl (List.forall_mem_singleton.2 value))
  · exact value.mono (Nat.le_succ _)

/-- Arguments are one level below the call. -/
theorem arguments (lower : Level.Agrees same bound lower₁ lower₂) :
    Agrees same (Parser.arguments lower₁) (Parser.arguments lower₂) fun args =>
      ∀ y ∈ args.map Node.expr, y.Within (bound + 1) := by
  have turn : ∀ found : List Expr, (∀ e ∈ found, (Node.expr e).Within (bound + 1)) →
      Agrees same (Parser.argumentTurn lower₁ found) (Parser.argumentTurn lower₂ found)
        (Turn.Holds (fun found => ∀ e ∈ found, (Node.expr e).Within (bound + 1))
          fun args => ∀ y ∈ args.map Node.expr, y.Within (bound + 1)) := by
    intro found items
    unfold Parser.argumentTurn
    refine bind (checkPunct _) fun _ _ => ite (fun _ => pure (expressions_of_found items)) fun _ => ?_
    refine bind (spreadable lower) fun e value => ?_
    have more : ∀ e' ∈ e :: found, (Node.expr e').Within (bound + 1) := List.forall_mem_cons.2 ⟨value, items⟩
    exact bind (eatPunct _) fun _ _ => ite (fun _ => pure more) fun _ => pure (expressions_of_found more)
  unfold Parser.arguments
  refine bind (expectPunct _ _) fun _ _ => allowingIn ?_
  exact bind (repeatFrom nofun turn) fun args all => bind (expectPunct _ _) fun _ _ => pure all

/-- The tokens of a hole are split off from its source here, and read from a fresh cursor. -/
theorem templateParts (lower : Level.Agrees same bound lower₁ lower₂) {chunks : List TemplateChunk}
    (holes : HolesAhead same (.template chunks)) :
    Agrees same (Parser.templateParts lower₁ chunks) (Parser.templateParts lower₂ chunks) fun parts =>
      ∀ y ∈ parts.flatMap TemplatePart.nodes, y.Within (bound + 1) := by
  induction chunks with
  | nil => exact pure (List.forall_mem_nil _)
  | cons chunk chunks ih =>
    have others : HolesAhead same (.template chunks) := by
      rintro source start ⟨_, same, mem⟩
      cases same
      exact holes source start ⟨_, rfl, List.mem_cons_of_mem _ mem⟩
    cases chunk with
    | text value => exact bind (ih others) fun parts all => pure all
    | hole source start =>
      unfold Parser.templateParts
      split
      · exact throw _
      · next tokens split =>
        -- a hole is read from a text of its own, by the same level
        have ahead := holes source start ⟨_, rfl, List.mem_cons_self ..⟩ tokens split
        have inside := completeExpression lower (.ofTokens tokens) ahead
        intro c here
        cases run : Parser.completeExpression lower₁ (.ofTokens tokens) with
        | error issue c' =>
          rw [run] at inside
          rcases inside with deep | other
          · exact .inl deep
          · rw [other]
            exact .inr rfl
        | ok value c' =>
          rw [run] at inside
          rw [inside.1]
          exact bind (ih others) (fun parts all => pure (List.forall_mem_append.2
            ⟨List.forall_mem_singleton.2 inside.2.2, all⟩)) c here

theorem arrayTurn (lower : Level.Agrees same bound lower₁ lower₂) {found : List Expr}
    (items : ∀ e ∈ found, (Node.expr e).Within (bound + 1)) :
    Agrees same (Parser.arrayTurn lower₁ found) (Parser.arrayTurn lower₂ found)
      (Turn.Holds (fun found => ∀ e ∈ found, (Node.expr e).Within (bound + 1))
        fun e => (Node.expr e).Within (bound + 2)) := by
  have array : ∀ {found : List Expr}, (∀ e ∈ found, (Node.expr e).Within (bound + 1)) →
      (Node.expr (.array found.reverse)).Within (bound + 2) :=
    fun items => Node.within_of_unchained rfl (expressions_of_found items)
  unfold Parser.arrayTurn
  refine bind (eatPunct _) fun _ _ => ite (fun _ => pure (array items)) fun _ => ?_
  refine bind (eatPunct _) fun _ _ => ite (fun _ => ?_) fun _ => ?_
  · exact pure (List.forall_mem_cons.2 ⟨Node.within_of_unchained rfl (List.forall_mem_nil _), items⟩)
  refine bind (spreadable lower) fun e value => ?_
  have more : ∀ e' ∈ e :: found, (Node.expr e').Within (bound + 1) := List.forall_mem_cons.2 ⟨value, items⟩
  refine bind (eatPunct _) fun _ _ => ite (fun _ => pure more) fun _ => ?_
  exact bind (expectPunct _ _) fun _ _ => pure (array more)

/-! ## Objects -/

/-- A function as a value. -/
theorem functionValue (lower : Level.Agrees same bound lower₁ lower₂) {R : β → Prop} {result : Expr → β}
    (holds : ∀ e, (Node.expr e).Within (bound + 1) → R (result e)) :
    Agrees same (do return result (.function (← Parser.functionRest lower₁)))
      (do return result (.function (← Parser.functionRest lower₂))) R :=
  bind (functionRest lower) fun _ within => pure (holds _ (Node.within_of_unchained rfl within))

/-- A value is read from the level below. A function or a key in brackets may be one node higher. -/
theorem property (lower : Level.Agrees same bound lower₁ lower₂) :
    Agrees same (Parser.property lower₁) (Parser.property lower₂) fun p => ∀ y ∈ p.nodes, y.Within (bound + 1) := by
  have one : ∀ {e : Expr}, (Node.expr e).Within (bound + 1) → ∀ y ∈ [Node.expr e], y.Within (bound + 1) :=
    fun within => List.forall_mem_singleton.2 within
  have two : ∀ {e e' : Expr}, (Node.expr e).Within (bound + 1) → (Node.expr e').Within (bound + 1) →
      ∀ y ∈ [Node.expr e, Node.expr e'], y.Within (bound + 1) :=
    fun first second => List.forall_mem_cons.2 ⟨first, one second⟩
  unfold Parser.property
  refine bind (eatPunct _) fun _ _ => ite (fun _ => ?_) fun _ => ?_
  · exact bind lower.assignment fun e value => pure (one (value.mono (Nat.le_succ _)))
  refine bind (eatPunct _) fun _ _ => ite (fun _ => ?_) fun _ => ?_
  · refine bind (bracketed lower) fun key keyWithin => ?_
    refine bind (checkPunct _) fun _ _ => ite (fun _ => ?_) fun _ => ?_
    · exact functionValue lower fun e value => two keyWithin value
    · refine bind (expectPunct _ _) fun _ _ => ?_
      exact bind lower.assignment fun e value => pure (two keyWithin (value.mono (Nat.le_succ _)))
  · refine bind kind fun k _ => ?_
    split
    · exact ite (fun _ => fail _) fun _ => fail _
    · refine bind advance fun _ _ => bind (eatPunct _) fun _ _ => ite (fun _ => ?_) fun _ => ?_
      · exact bind lower.assignment fun e value => pure (one (value.mono (Nat.le_succ _)))
      refine bind (checkPunct _) fun _ _ => ite (fun _ => ?_) fun _ => ?_
      · exact functionValue lower fun e value => one value
      · refine ite (fun _ => pure (one ?_)) fun _ => fail _
        exact Node.within_of_unchained rfl (List.forall_mem_nil _)

/-- An object is one node above its properties. -/
theorem objectLiteral (lower : Level.Agrees same bound lower₁ lower₂) :
    Agrees same (Parser.objectLiteral lower₁) (Parser.objectLiteral lower₂) fun e =>
      (Node.expr e).Within (bound + 2) := by
  have reversed : ∀ {found : List Property}, (∀ p ∈ found, ∀ y ∈ p.nodes, y.Within (bound + 1)) →
      ∀ y ∈ found.reverse.flatMap Property.nodes, y.Within (bound + 1) := by
    intro found properties y mem
    obtain ⟨p, inside, mem⟩ := List.mem_flatMap.1 mem
    exact properties p (List.mem_reverse.1 inside) y mem
  have turn : ∀ found : List Property, (∀ p ∈ found, ∀ y ∈ p.nodes, y.Within (bound + 1)) →
      Agrees same (Parser.propertyTurn lower₁ found) (Parser.propertyTurn lower₂ found)
        (Turn.Holds (fun found => ∀ p ∈ found, ∀ y ∈ p.nodes, y.Within (bound + 1))
          fun properties => ∀ y ∈ properties.flatMap Property.nodes, y.Within (bound + 1)) := by
    intro found properties
    unfold Parser.propertyTurn
    refine bind (checkPunct _) fun _ _ => ite (fun _ => pure (reversed properties)) fun _ => ?_
    refine bind (property lower) fun p one => ?_
    have more : ∀ p' ∈ p :: found, ∀ y ∈ p'.nodes, y.Within (bound + 1) := List.forall_mem_cons.2 ⟨one, properties⟩
    exact bind (eatPunct _) fun _ _ => ite (fun _ => pure more) fun _ => pure (reversed more)
  unfold Parser.objectLiteral
  refine allowingIn (bind (repeatFrom nofun turn) fun properties all => ?_)
  exact bind (expectPunct _ _) fun _ _ => pure (Node.within_of_unchained rfl all)

/-! ## Operands and operators -/

theorem nameExpr_within (name : String) : (Node.expr (nameExpr name)).Within (bound + 1) := by
  unfold nameExpr
  split_ifs <;> exact Node.within_of_unchained rfl (List.forall_mem_nil _)

theorem functionExpr (lower : Level.Agrees same bound lower₁ lower₂) :
    Agrees same (Parser.functionExpr lower₁) (Parser.functionExpr lower₂) fun e =>
      (Node.expr e).Within (bound + 1) := by
  have value : Agrees same (do return Expr.function (← Parser.functionRest lower₁))
      (do return Expr.function (← Parser.functionRest lower₂)) fun e => (Node.expr e).Within (bound + 1) :=
    bind (functionRest lower) fun _ within => pure (Node.within_of_unchained rfl within)
  unfold Parser.functionExpr
  refine bind kind fun k _ => ?_
  split
  · exact bind advance fun _ _ => value
  · exact value

/-- Of the primary expressions an object is the highest. -/
theorem primary (lower : Level.Agrees same bound lower₁ lower₂) :
    Agrees same (Parser.primary lower₁) (Parser.primary lower₂) fun e => (Node.expr e).Within (bound + 2) := by
  unfold Parser.primary
  refine bind kind fun k holes => ?_
  split
  case h_3 =>
    refine bind advance fun _ _ => bind (templateParts lower holes) fun parts all => ?_
    exact pure (Node.within_of_unchained rfl all)
  case h_4 => exact bind advance fun _ _ => pure (nameExpr_within _)
  case h_8 => exact bind advance fun _ _ => (functionExpr lower).imp fun e within => within.mono (Nat.le_succ _)
  case h_9 =>
    refine bind advance fun _ _ => bind (allowingIn (expression lower)) fun inner value => ?_
    exact bind (expectPunct _ _) fun _ _ => pure (value.mono (Nat.le_succ _))
  case h_10 =>
    exact bind advance fun _ _ => allowingIn (repeatFrom nofun fun found items => arrayTurn lower items)
  case h_11 => exact bind advance fun _ _ => objectLiteral lower
  case h_12 => exact fail _
  case h_13 => exact fail _
  all_goals exact bind advance fun _ _ => pure (Node.within_of_unchained rfl (List.forall_mem_nil _))

/-- What a chain may begin with is within the bound, and the chain is within the next one, however long it is. -/
def ChainWithin (bound : Nat) (goesOn : Expr → Bool) (e : Expr) : Prop :=
  (Node.expr e).Within (bound + 1) ∧ (goesOn e = false → (Node.expr e).Within bound)

theorem ChainWithin.start {goesOn : Expr → Bool} {e : Expr} (within : (Node.expr e).Within bound) :
    ChainWithin bound goesOn e :=
  ⟨within.mono (Nat.le_succ _), fun _ => within⟩

/-- One more node around a chain. -/
theorem ChainWithin.next {goesOn : Expr → Bool} {e e' : Expr} {others : List Node} (chain : ChainWithin bound goesOn e)
    (chained : e'.chained? = if goesOn e then some e else none)
    (parts : e'.parts = (if goesOn e then [] else [.expr e]) ++ others) (isChain : goesOn e' = true)
    (within : ∀ y ∈ others, y.Within bound) : ChainWithin bound goesOn e' := by
  refine ⟨Node.within_of_parts ?_ ?_, fun no => absurd isChain (no ▸ Bool.false_ne_true)⟩
  · show ∀ y ∈ e'.parts, y.Within bound
    rw [parts]
    refine List.forall_mem_append.2 ⟨?_, within⟩
    split
    · exact List.forall_mem_nil _
    · next start => exact List.forall_mem_singleton.2 (chain.2 (Bool.eq_false_iff.2 start))
  · show ∀ y ∈ e'.chained?.map Node.expr, y.Within (bound + 1)
    rw [chained]
    split
    · rintro _ ⟨⟩
      exact chain.1
    · exact nofun

/-- A link goes on with the chain before it and does not count, so only its key or its arguments have to be within the
bound. -/
theorem chainTurn (lower : Level.Agrees same bound lower₁ lower₂) {chain : Expr}
    (before : ChainWithin (bound + 2) Expr.isLink chain) :
    Agrees same (Parser.chainTurn lower₁ chain) (Parser.chainTurn lower₂ chain)
      (Turn.Holds (ChainWithin (bound + 2) Expr.isLink) (ChainWithin (bound + 2) Expr.isLink)) := by
  have member : ∀ optional, Agrees same (do return Turn.again (.member chain (← Parser.propertyName) optional))
      (do return Turn.again (.member chain (← Parser.propertyName) optional))
      (Turn.Holds (ChainWithin (bound + 2) Expr.isLink) (ChainWithin (bound + 2) Expr.isLink)) :=
    fun optional => bind propertyName fun name _ =>
      pure (before.next rfl (List.append_nil _).symm rfl (List.forall_mem_nil _))
  have index : ∀ optional, Agrees same (do return Turn.again (.index chain (← Parser.bracketed lower₁) optional))
      (do return Turn.again (.index chain (← Parser.bracketed lower₂) optional))
      (Turn.Holds (ChainWithin (bound + 2) Expr.isLink) (ChainWithin (bound + 2) Expr.isLink)) :=
    fun optional => bind (bracketed lower) fun key value =>
      pure (before.next rfl rfl rfl (List.forall_mem_singleton.2 (value.mono (Nat.le_succ _))))
  have call : ∀ optional, Agrees same (do return Turn.again (.call chain (← Parser.arguments lower₁) optional))
      (do return Turn.again (.call chain (← Parser.arguments lower₂) optional))
      (Turn.Holds (ChainWithin (bound + 2) Expr.isLink) (ChainWithin (bound + 2) Expr.isLink)) :=
    fun optional => bind (arguments lower) fun args all =>
      pure (before.next rfl rfl rfl fun y mem => (all y mem).mono (Nat.le_succ _))
  unfold Parser.chainTurn
  refine bind kind fun k _ => ?_
  split
  · exact bind advance fun _ _ => member false
  · refine bind advance fun _ _ => ?_
    refine bind (checkPunct _) fun _ _ => ite (fun _ => call true) fun _ => ?_
    exact bind (eatPunct _) fun _ _ => ite (fun _ => index true) fun _ => member true
  · exact bind advance fun _ _ => index false
  · exact call false
  · exact pure before

theorem postfixed (lower : Level.Agrees same bound lower₁ lower₂) :
    Agrees same (Parser.postfixed lower₁) (Parser.postfixed lower₂) fun e => (Node.expr e).Within (bound + 4) := by
  have chain : Agrees same (Parser.callChain lower₁) (Parser.callChain lower₂) (ChainWithin (bound + 2) Expr.isLink) :=
    bind (primary lower) fun first value => repeatFrom (.start value) fun chain before => chainTurn lower before
  unfold Parser.postfixed
  refine bind position fun place _ => bind chain fun e value => bind get fun c _ => ?_
  refine ite (fun _ => pure (value.1.mono (Nat.le_succ _))) fun _ => ?_
  split
  · exact pure (value.1.mono (Nat.le_succ _))
  · refine ite (fun _ => bind advance fun _ _ => pure ?_) fun _ => failAt _ _
    exact Node.within_of_unchained rfl (List.forall_mem_singleton.2 value.1)

/-- A prefix operator is one node above an operand that was read a level below. -/
theorem unary (lower : Level.Agrees same bound lower₁ lower₂) :
    Agrees same (Parser.unary lower₁) (Parser.unary lower₂) fun e => (Node.expr e).Within (bound + 4) := by
  have operator : ∀ {e operand : Expr}, (Node.expr operand).Within (bound + 1) → e.chained? = none →
      e.parts = [.expr operand] → (Node.expr e).Within (bound + 4) := by
    intro e operand value unchained parts
    refine Node.within_of_unchained_of_lt ?_ ?_ (show bound + 1 < bound + 4 by omega)
    · show e.chained?.map Node.expr = none
      rw [unchained]
      rfl
    · show ∀ y ∈ e.parts, y.Within (bound + 1)
      rw [parts]
      exact List.forall_mem_singleton.2 value
  unfold Parser.unary
  refine bind kind fun k _ => ?_
  split
  · exact bind advance fun _ _ => bind lower.unary fun operand value => pure (operator value rfl rfl)
  · split
    · refine bind advance fun _ _ => bind position fun place _ => bind lower.unary fun operand value => ?_
      exact ite (fun _ => pure (operator value rfl rfl)) fun _ => failAt _ _
    · exact postfixed lower

/-- The operands are read one level below, whatever the operators between them. -/
theorem binary (lower : Level.Agrees same bound lower₁ lower₂) (loosest : Nat) :
    Agrees same (Parser.binary lower₁ loosest) (Parser.binary lower₂ loosest) fun e =>
      (Node.expr e).Within (bound + 2) := by
  have turn : ∀ left, ChainWithin (bound + 1) Expr.isBinary left →
      Agrees same (Parser.binaryTurn lower₁ loosest left) (Parser.binaryTurn lower₂ loosest left)
        (Turn.Holds (ChainWithin (bound + 1) Expr.isBinary) fun e => (Node.expr e).Within (bound + 2)) := by
    intro left before
    unfold Parser.binaryTurn
    refine bind get fun c _ => ?_
    split
    · refine ite (fun _ => pure before.1) fun _ => bind advance fun _ _ => ?_
      exact bind (lower.operand _) fun right value =>
        pure (before.next rfl rfl rfl (List.forall_mem_singleton.2 value))
    · exact pure before.1
  unfold Parser.binary
  exact bind lower.unary fun first value => repeatFrom (.start value) turn

theorem conditional (lower : Level.Agrees same bound lower₁ lower₂) :
    Agrees same (Parser.conditional lower₁) (Parser.conditional lower₂) fun e =>
      (Node.expr e).Within (bound + 3) ∧ (e.isSimpleTarget = true → (Node.expr e).Within (bound + 2)) := by
  unfold Parser.conditional
  refine bind (binary lower 1) fun test testWithin => ?_
  refine bind (eatPunct _) fun _ _ => ite (fun _ => ?_) fun _ => ?_
  · refine bind (allowingIn lower.assignment) fun consequent consequentWithin => ?_
    refine bind (expectPunct _ _) fun _ _ => bind lower.assignment fun alternate alternateWithin => pure ⟨?_, nofun⟩
    refine Node.within_of_unchained rfl (List.forall_mem_cons.2 ⟨testWithin, List.forall_mem_cons.2 ⟨?_, ?_⟩⟩)
    · exact consequentWithin.mono (by omega)
    · exact List.forall_mem_singleton.2 (alternateWithin.mono (by omega))
  · exact pure ⟨testWithin.mono (Nat.le_succ _), fun _ => testWithin⟩

/-- The value of an assignment is read at the same level as the whole. -/
theorem assignment (lower : Level.Agrees same bound lower₁ lower₂) :
    Agrees same (Parser.assignment lower₁) (Parser.assignment lower₂) fun e => (Node.expr e).Within (bound + 3) := by
  unfold Parser.assignment
  refine bind get fun c _ => ite (fun _ => ?_) fun _ => ?_
  · refine bind (arrow lower) fun f within => pure ?_
    exact Node.within_of_unchained_of_lt rfl within (by omega)
  · refine bind (conditional lower) fun target targetWithin => bind kind fun k _ => ?_
    split
    · exact pure targetWithin.1
    · refine ite (fun simple => bind advance fun _ _ => ?_) fun _ => failAt _ _
      refine bind lower.assignment fun e value => pure (Node.within_of_unchained rfl ?_)
      exact List.forall_mem_cons.2 ⟨targetWithin.2 simple, List.forall_mem_singleton.2 (value.mono (by omega))⟩

end Agrees

end Parser

end BindScript
