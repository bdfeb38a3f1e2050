import BindScript.Parser
import BindScript.Proofs.Parsing.Blocks
import BindScript.Proofs.Syntax.Grammar

/-!
# The trees that parsers give

Whatever a parser accepts, the tree is one of the grammar (`NodeRule.formed`). And a parser invents no names: those
that a tree reads or binds are those of the identifiers it was read from, so whatever holds of the names of all tokens
holds of the names in all trees. Both are followed through the parsers together (`level_builds`), as trees that stand
for single values (`Node.Stands`): only the items of lists and arguments may be spreads.

Template literals are read from sources of their own, whose tokens have the property too if every source is split into
such tokens.
-/

namespace BindScript

open Node (AllStand)

/-- What holds of the name of the token, if it is an identifier. -/
def TokenKind.Spells (A : String → Prop) : TokenKind → Prop
  | .identifier name => A name
  | _ => True

/-- Every source is split into tokens whose names have the property. -/
def SpellsTokens (A : String → Prop) : Prop :=
  ∀ source start tokens, tokenizeAt source start = .ok tokens → ∀ t ∈ tokens, t.kind.Spells A

namespace Parser

variable {A : String → Prop} {α β : Type}

/-- The names ahead of the cursor have the property. -/
def Cursor.Spells (A : String → Prop) (c : Cursor) : Prop :=
  ∀ t ∈ c.rest, t.kind.Spells A

theorem Cursor.Spells.current {c : Cursor} (spells : c.Spells A) : c.current.kind.Spells A := by
  unfold Cursor.current
  split
  · next ahead => exact spells _ (ahead ▸ List.mem_cons_self ..)
  · trivial

theorem Cursor.Spells.advance {c : Cursor} (spells : c.Spells A) : c.advance.Spells A := by
  unfold Cursor.advance
  split
  · next ahead => exact fun t mem => spells t (ahead ▸ List.mem_cons_of_mem _ mem)
  · exact spells

/-- As long as the names ahead have the property, what the parser gives has another one, and it leaves names
with the property. -/
def Reads (A : String → Prop) (p : Parse α) (Q : α → Prop) : Prop :=
  ∀ c : Cursor, c.Spells A → match p c with
    | .ok a c' => c'.Spells A ∧ Q a
    | .error _ c' => c'.Spells A

namespace Reads

variable {p : Parse α} {f : α → Parse β} {Q Q' : α → Prop} {R : β → Prop}

theorem pure {a : α} (h : Q a) : Reads A (Pure.pure a) Q :=
  fun _ spells => ⟨spells, h⟩

theorem bind (first : Reads A p Q) (next : ∀ a, Q a → Reads A (f a) R) : Reads A (p >>= f) R := by
  intro c spells
  have first := first c spells
  show match EStateM.bind p f c with | .ok _ _ => _ | .error _ _ => _
  unfold EStateM.bind
  cases run : p c with
  | error issue c' =>
    rw [run] at first
    exact first
  | ok a c' =>
    rw [run] at first
    exact next a first.2 c' first.1

theorem imp (reads : Reads A p Q) (weaker : ∀ a, Q a → Q' a) : Reads A p Q' := by
  intro c spells
  have reads := reads c spells
  cases run : p c with
  | error issue c' =>
    rw [run] at reads
    exact reads
  | ok a c' =>
    rw [run] at reads
    exact ⟨reads.1, weaker a reads.2⟩

theorem ite {condition : Prop} [Decidable condition] {q : Parse α} (yes : condition → Reads A p Q)
    (no : ¬ condition → Reads A q Q) : Reads A (if condition then p else q) Q := by
  split
  · exact yes ‹_›
  · exact no ‹_›

/-- A parser that leaves the tokens alone, and whose result is of no concern. -/
theorem of_rest (same : ∀ c, match p c with | .ok _ c' | .error _ c' => c'.rest = c.rest) :
    Reads A p (fun _ => True) := by
  intro c spells
  have same := same c
  cases run : p c with
  | ok a c' =>
    rw [run] at same
    exact ⟨fun t mem => spells t (same ▸ mem), trivial⟩
  | error issue c' =>
    rw [run] at same
    exact fun t mem => spells t (same ▸ mem)

theorem throw (issue : ParseIssue) : Reads A (MonadExcept.throw issue : Parse α) Q :=
  fun _ spells => spells

theorem fail (cause : ParseCause) : Reads A (Parser.fail cause : Parse α) Q :=
  fun _ spells => spells

/-- Nothing comes after a failure. -/
theorem fail_bind (cause : ParseCause) : Reads A (Parser.fail cause >>= f) R :=
  bind (fail cause (Q := fun _ => False)) nofun

theorem failAt (cause : ParseCause) (place : Position) : Reads A (Parser.failAt cause place : Parse α) Q :=
  fun _ spells => spells

theorem allowingIn (reads : Reads A p Q) : Reads A (Parser.allowingIn p) Q := by
  intro c spells
  have reads := reads { c with noIn := false } spells
  unfold Parser.allowingIn
  cases run : p { c with noIn := false } <;> (rw [run] at reads; exact reads)

theorem reservingIn (reads : Reads A p Q) : Reads A (Parser.reservingIn p) Q := by
  intro c spells
  have reads := reads { c with noIn := true } spells
  unfold Parser.reservingIn
  cases run : p { c with noIn := true } <;> (rw [run] at reads; exact reads)

theorem inBlock (reads : Reads A p Q) : Reads A (Parser.inBlock p) Q := by
  intro c spells
  have reads := reads { c with blocks := [] :: c.blocks } spells
  unfold Parser.inBlock
  cases run : p { c with blocks := [] :: c.blocks } <;> (rw [run] at reads; exact reads)

/-- A loop keeps what each of its turns keeps. -/
theorem repeatFrom {turn : α → Parse (Turn α β)} {a : α} (start : Q a)
    (each : ∀ a, Q a → Reads A (turn a) (Turn.Holds Q R)) : Reads A (Parser.repeatFrom a turn) R := by
  have turns : ∀ n a, Q a → Reads A (iterate turn n a) R := by
    intro n
    induction n with
    | zero => exact fun _ _ _ spells => spells
    | succ n ih =>
      intro a holds
      unfold iterate
      refine bind (each a holds) fun t step => ?_
      cases t with
      | again a' => exact ih a' step
      | done b => exact pure step
  exact fun c => turns (c.rest.length + 1) a start c

/-! ### Tokens -/

theorem kind : Reads A Parser.kind (TokenKind.Spells A) :=
  fun _ spells => ⟨spells, spells.current⟩

theorem position : Reads A Parser.position (fun _ => True) :=
  of_rest fun _ => rfl

theorem get : Reads A (MonadState.get : Parse Cursor) (fun _ => True) :=
  of_rest fun _ => rfl

theorem advance : Reads A Parser.advance (fun _ => True) :=
  fun _ spells => ⟨spells.advance, trivial⟩

theorem unexpected : Reads A (Parser.unexpected : Parse α) Q :=
  bind kind fun _ _ => ite (fun _ => fail _) fun _ => fail _

theorem atEof : Reads A Parser.atEof (fun _ => True) :=
  bind kind fun _ _ => pure trivial

theorem checkPunct (mark : Punct) : Reads A (Parser.checkPunct mark) (fun _ => True) :=
  bind kind fun _ _ => pure trivial

theorem checkKeyword (word : Keyword) : Reads A (Parser.checkKeyword word) (fun _ => True) :=
  bind kind fun _ _ => pure trivial

theorem eatPunct (mark : Punct) : Reads A (Parser.eatPunct mark) (fun _ => True) :=
  bind (checkPunct mark) fun _ _ => ite (fun _ => bind advance fun _ _ => pure trivial) fun _ => pure trivial

theorem eatKeyword (word : Keyword) : Reads A (Parser.eatKeyword word) (fun _ => True) :=
  bind (checkKeyword word) fun _ _ =>
    ite (fun _ => bind advance fun _ _ => pure trivial) fun _ => pure trivial

theorem expectPunct (mark : Punct) (cause : ParseCause) :
    Reads A (Parser.expectPunct mark cause) (fun _ => True) :=
  bind (eatPunct mark) fun _ _ => ite (fun _ => pure trivial) fun _ => fail cause

theorem expectIdentifier : Reads A Parser.expectIdentifier A := by
  refine bind kind fun k spells => ?_
  cases k with
  | identifier name => exact bind advance fun _ _ => pure spells
  | _ => exact fail _

theorem endStatement : Reads A Parser.endStatement (fun _ => True) := by
  refine bind (eatPunct _) fun _ _ => ite (fun _ => pure trivial) fun _ => ?_
  exact bind get fun _ _ => ite (fun _ => pure trivial) fun _ => unexpected

/-- A name that is declared may be refused. Either way nothing ahead has changed. -/
theorem declare (kind : Option DeclKind) (place : Position) (name : String) :
    Reads A (Parser.declare kind place name) (fun _ => True) := by
  by_cases reserved : name.toList.head? = some '$'
  · unfold Parser.declare
    rw [if_pos reserved]
    exact failAt _ _
  by_cases var : kind = some .var
  · unfold Parser.declare
    rw [if_neg reserved, if_pos var]
    exact pure trivial
  refine of_rest fun c => ?_
  cases blocks : c.blocks with
  | nil =>
    obtain ⟨rest, _, noIn⟩ := c
    obtain rfl := blocks
    unfold Parser.declare
    rw [if_neg reserved, if_neg var]
    rfl
  | cons block outer =>
    rw [declare_of_block place reserved var c blocks]
    by_cases twice : block.contains name = true
    · rw [if_pos twice]
      rfl
    · rw [if_neg twice]
      rfl

theorem declareAll (kind : Option DeclKind) (place : Position) (names : List String) :
    Reads A (Parser.declareAll kind place names) (fun _ => True) := by
  induction names with
  | nil => exact pure trivial
  | cons name names ih => exact bind (declare kind place name) fun _ _ => ih

end Reads
/-- The trees that the parsers of a level give are trees of the grammar, with names that are ahead. -/
structure Level.Builds (A : String → Prop) (lower : Level) : Prop where
  assignment : Reads A lower.assignment (Expr.Stands A)
  unary : Reads A lower.unary (Expr.Stands A)
  operand : ∀ loosest, Reads A (lower.operand loosest) (Expr.Stands A)
  pattern : Reads A lower.pattern (Pattern.Stands A)
  statement : Reads A lower.statement (Stmt.Stands A)

/-- An expression that may be there. -/
def OptionStands (A : String → Prop) (e : Option Expr) : Prop :=
  AllStand A (Expr.optionNodes e)

/-- Statements in a row. -/
def StatementsStand (A : String → Prop) (statements : List Stmt) : Prop :=
  AllStand A (statements.map .stmt)

/-- The declarators of a declaration. -/
def DeclaratorsStand (A : String → Prop) (kind : DeclKind) (declarators : List Declarator) : Prop :=
  Declarator.Declare kind declarators ∧ AllStand A (declarators.flatMap Declarator.nodes)

/-- The items of a list, which may be spreads. -/
def ItemsObey (A : String → Prop) (items : List Expr) : Prop :=
  ∀ e ∈ items, e.Obeys (.grammar A)

theorem OptionStands.none : OptionStands A none :=
  .nil

theorem OptionStands.some {e : Expr} (own : e.Stands A) : OptionStands A (some e) :=
  .cons own .nil

theorem ItemsObey.reverse {found : List Expr} (items : ItemsObey A found) : ItemsObey A found.reverse :=
  fun e mem => items e (List.mem_reverse.1 mem)

namespace Reads

variable {lower : Level}

/-! ## Patterns -/

theorem defaultValue (builds : lower.Builds A) : Reads A (Parser.defaultValue lower) (OptionStands A) := by
  refine bind (eatPunct _) fun _ _ => ite (fun _ => ?_) fun _ => pure .none
  exact bind builds.assignment fun _ value => pure (.some value)

theorem array_of_found {found : List (Option Element)} (elements : ∀ e, some e ∈ found → AllStand A e.nodes)
    {rest : Option Pattern} (last : AllStand A (Pattern.optionNodes rest)) :
    (Pattern.array found.reverse rest).Stands A :=
  .arrayPattern (fun e mem => elements e (List.mem_reverse.1 mem)) last

theorem arrayPatternTurn (builds : lower.Builds A) {found : List (Option Element)}
    (elements : ∀ e, some e ∈ found → AllStand A e.nodes) :
    Reads A (Parser.arrayPatternTurn lower found)
      (Turn.Holds (fun found => ∀ e, some e ∈ found → AllStand A e.nodes) (Pattern.Stands A)) := by
  unfold Parser.arrayPatternTurn
  refine bind (eatPunct _) fun _ _ => ite (fun _ => pure (array_of_found elements .nil)) fun _ => ?_
  refine bind (eatPunct _) fun _ _ => ite (fun _ => pure fun e mem => ?_) fun _ => ?_
  · exact elements e (by simpa using mem)
  refine bind (eatPunct _) fun _ _ => ite (fun _ => ?_) fun _ => ?_
  · refine bind builds.pattern fun rest last => ?_
    refine bind (eatPunct _) fun _ _ => ite (fun _ => pure (array_of_found elements (.cons last .nil))) fun _ => ?_
    exact bind (checkPunct _) fun _ _ => ite (fun _ => fail _) fun _ => fail _
  · refine bind builds.pattern fun target own => bind (defaultValue builds) fun default value => ?_
    have more : ∀ e, some e ∈ some (Element.mk target default) :: found → AllStand A e.nodes := by
      intro e mem
      rcases List.mem_cons.1 mem with same | mem
      · cases same
        exact .cons own value
      · exact elements e mem
    refine bind (eatPunct _) fun _ _ => ite (fun _ => pure more) fun _ => ?_
    exact bind (expectPunct _ _) fun _ _ => pure (array_of_found more .nil)

/-- Only identifiers may stand alone as shorthands. -/
theorem name_of_propertyKey? {k : TokenKind} (spells : k.Spells A) {key : String}
    (known : propertyKey? k = some (key, true)) : A key := by
  cases k with
  | identifier name =>
    cases known
    exact spells
  | _ => cases known

theorem patternField (builds : lower.Builds A) :
    Reads A (Parser.patternField lower) (fun f => AllStand A f.nodes) := by
  unfold Parser.patternField
  refine bind kind fun k ahead => ?_
  cases known : propertyKey? k with
  | none => exact fail _
  | some found =>
    obtain ⟨key, shorthand⟩ := found
    have withDefault : ∀ target : Pattern, target.Stands A →
        Reads A (do return Field.mk key target (← Parser.defaultValue lower)) (fun f => AllStand A f.nodes) :=
      fun target own => bind (defaultValue builds) fun default value => pure (.cons own value)
    refine bind advance fun _ _ => bind (eatPunct _) fun _ _ => ite (fun _ => ?_) fun _ => ?_
    · exact bind builds.pattern withDefault
    · refine ite (fun short => withDefault (.name key) ?_) fun _ => fail_bind _
      subst short
      exact .namePattern (name_of_propertyKey? ahead known)

theorem object_of_found {found : List Field} (fields : ∀ f ∈ found, AllStand A f.nodes) {rest : Option String}
    (last : ∀ name ∈ rest, A name) : (Pattern.object found.reverse rest).Stands A :=
  .objectPattern (fun f mem => fields f (List.mem_reverse.1 mem)) last

theorem objectPatternTurn (builds : lower.Builds A) {found : List Field} (fields : ∀ f ∈ found, AllStand A f.nodes) :
    Reads A (Parser.objectPatternTurn lower found)
      (Turn.Holds (fun found => ∀ f ∈ found, AllStand A f.nodes) (Pattern.Stands A)) := by
  unfold Parser.objectPatternTurn
  refine bind (eatPunct _) fun _ _ => ite (fun _ => pure (object_of_found fields nofun)) fun _ => ?_
  refine bind (eatPunct _) fun _ _ => ite (fun _ => ?_) fun _ => ?_
  · refine bind expectIdentifier fun rest last => ?_
    have last : ∀ name ∈ some rest, A name := fun name same => Option.some.inj same ▸ last
    refine bind (eatPunct _) fun _ _ => ite (fun _ => pure (object_of_found fields last)) fun _ => ?_
    exact bind (checkPunct _) fun _ _ => ite (fun _ => fail _) fun _ => fail _
  · refine bind (patternField builds) fun field own => ?_
    have more : ∀ f ∈ field :: found, AllStand A f.nodes := List.forall_mem_cons.2 ⟨own, fields⟩
    refine bind (eatPunct _) fun _ _ => ite (fun _ => pure more) fun _ => ?_
    exact bind (expectPunct _ _) fun _ _ => pure (object_of_found more nofun)

theorem bindingPattern (builds : lower.Builds A) : Reads A (Parser.bindingPattern lower) (Pattern.Stands A) := by
  unfold Parser.bindingPattern
  refine bind kind fun k ahead => ?_
  split
  · exact bind advance fun _ _ => pure (.namePattern ahead)
  · refine bind advance fun _ _ => ?_
    exact repeatFrom nofun fun found elements => arrayPatternTurn builds elements
  · refine bind advance fun _ _ => ?_
    exact repeatFrom nofun fun found fields => objectPatternTurn builds fields
  · exact fail _
  · exact fail _

/-! ## Functions -/

/-- The parameters of a function. -/
def ParamsStand (A : String → Prop) (params : List Element × Option Pattern) : Prop :=
  AllStand A (params.1.flatMap Element.nodes ++ Pattern.optionNodes params.2)

theorem params_of_found {found : List Element} (elements : ∀ e ∈ found, AllStand A e.nodes)
    {rest : Option Pattern} (last : AllStand A (Pattern.optionNodes rest)) : ParamsStand A (found.reverse, rest) :=
  .append (.flatMap fun e mem => elements e (List.mem_reverse.1 mem)) last

theorem paramsTurn (builds : lower.Builds A) {found : List Element} (elements : ∀ e ∈ found, AllStand A e.nodes) :
    Reads A (Parser.paramsTurn lower found)
      (Turn.Holds (fun found => ∀ e ∈ found, AllStand A e.nodes) (ParamsStand A)) := by
  unfold Parser.paramsTurn
  refine bind (checkPunct _) fun _ _ => ite (fun _ => pure (params_of_found elements .nil)) fun _ => ?_
  refine bind position fun place _ => bind (eatPunct _) fun _ _ => ite (fun _ => ?_) fun _ => ?_
  · refine bind builds.pattern fun rest last => bind (declareAll _ _ _) fun _ _ => ?_
    refine bind (checkPunct _) fun _ _ => ite (fun _ => fail_bind _) fun _ => ?_
    exact pure (params_of_found elements (.cons last .nil))
  · refine bind builds.pattern fun target own => bind (declareAll _ _ _) fun _ _ => ?_
    refine bind (defaultValue builds) fun default value => ?_
    have more : ∀ e ∈ Element.mk target default :: found, AllStand A e.nodes :=
      List.forall_mem_cons.2 ⟨.cons own value, elements⟩
    refine bind (eatPunct _) fun _ _ => ite (fun _ => pure more) fun _ => ?_
    exact pure (params_of_found more .nil)

theorem params (builds : lower.Builds A) : Reads A (Parser.params lower) (ParamsStand A) := by
  unfold Parser.params
  refine bind (expectPunct _ _) fun _ _ => ?_
  refine bind (repeatFrom nofun fun found elements => paramsTurn builds elements) fun params own => ?_
  exact bind (expectPunct _ _) fun _ _ => pure own

theorem statements_of_found {found : List Stmt} (each : ∀ s ∈ found, s.Stands A) :
    StatementsStand A found.reverse :=
  .map fun s mem => each s (List.mem_reverse.1 mem)

/-- One more statement. -/
theorem nextStatement {R : β → Prop} (builds : lower.Builds A) {found : List Stmt} (each : ∀ s ∈ found, s.Stands A) :
    Reads A (do return Turn.again ((← lower.statement) :: found))
      (Turn.Holds (fun found => ∀ s ∈ found, s.Stands A) R) :=
  bind builds.statement fun _ next => pure (List.forall_mem_cons.2 ⟨next, each⟩)

theorem blockContents (builds : lower.Builds A) : Reads A (Parser.blockContents lower) (StatementsStand A) := by
  refine repeatFrom (Q := fun found => ∀ s ∈ found, s.Stands A) nofun fun found each => ?_
  unfold Parser.blockTurn
  refine bind (checkPunct _) fun _ _ => ite (fun _ => ?_) fun _ => ?_
  · exact bind advance fun _ _ => pure (statements_of_found each)
  · exact bind atEof fun _ _ => ite (fun _ => fail_bind _) fun _ => nextStatement builds each

theorem block (builds : lower.Builds A) : Reads A (Parser.block lower) (StatementsStand A) :=
  inBlock (blockContents builds)

theorem expectBlock (builds : lower.Builds A) : Reads A (Parser.expectBlock lower) (StatementsStand A) :=
  bind (expectPunct _ _) fun _ _ => block builds

theorem functionRest (builds : lower.Builds A) :
    Reads A (Parser.functionRest lower) (fun f => AllStand A f.nodes) := by
  unfold Parser.functionRest
  refine inBlock (bind (params builds) fun params own => bind (expectPunct _ _) fun _ _ => ?_)
  exact bind (blockContents builds) fun statements each => pure (.append own each)

/-- A body without braces is an expression, and else the statements of a block. -/
theorem arrow (builds : lower.Builds A) : Reads A (Parser.arrow lower) (fun f => AllStand A f.nodes) := by
  have body : ∀ positional rest, ParamsStand A (positional, rest) → Reads A (do
      Parser.expectPunct .arrow .arrowExpected
      if ← Parser.eatPunct .openBrace then
        return Function.mk positional rest (.block (← Parser.blockContents lower))
      else return Function.mk positional rest (.expr (← Parser.allowingIn lower.assignment)))
      (fun f => AllStand A f.nodes) := by
    intro positional rest own
    refine bind (expectPunct _ _) fun _ _ => bind (eatPunct _) fun _ _ => ite (fun _ => ?_) fun _ => ?_
    · exact bind (blockContents builds) fun statements each => pure (.append own each)
    · exact bind (allowingIn builds.assignment) fun e value => pure (.append own (.cons value .nil))
  unfold Parser.arrow
  refine inBlock (bind kind fun k ahead => ?_)
  split
  · next name =>
    refine bind position fun place _ => bind advance fun _ _ => bind (declare _ _ _) fun _ _ => ?_
    exact body [.mk (.name name) none] none (.cons (.namePattern ahead) .nil)
  · exact bind (params builds) fun params own => body params.1 params.2 own

/-! ## Lists of expressions -/

theorem expression (builds : lower.Builds A) : Reads A (Parser.expression lower) (Expr.Stands A) := by
  unfold Parser.expression
  refine bind builds.assignment fun first value => ?_
  refine bind (checkPunct _) fun _ _ => ite (fun _ => ?_) fun _ => pure value
  have one : ∀ e ∈ [first], e.Stands A := List.forall_mem_singleton.2 value
  refine repeatFrom (Q := fun found => ∀ e ∈ found, e.Stands A) one fun found items => ?_
  unfold Parser.sequenceTurn
  refine bind (eatPunct _) fun _ _ => ite (fun _ => ?_) fun _ => ?_
  · exact bind builds.assignment fun e value => pure (List.forall_mem_cons.2 ⟨value, items⟩)
  · exact pure (.sequence fun e mem => items e (List.mem_reverse.1 mem))

theorem completeExpression (builds : lower.Builds A) : Reads A (Parser.completeExpression lower) (Expr.Stands A) := by
  unfold Parser.completeExpression
  refine bind (expression builds) fun e value => bind atEof fun _ _ => ite (fun _ => pure value) fun _ => ?_
  exact bind (unexpected (Q := fun _ => False)) nofun

theorem propertyName : Reads A Parser.propertyName (fun _ => True) := by
  unfold Parser.propertyName
  refine bind kind fun k _ => ?_
  split
  · exact bind advance fun _ _ => pure trivial
  · exact bind advance fun _ _ => pure trivial
  · exact fail _

theorem bracketed (builds : lower.Builds A) : Reads A (Parser.bracketed lower) (Expr.Stands A) :=
  bind (allowingIn (expression builds)) fun _ value => bind (expectPunct _ _) fun _ _ => pure value

/-- Here only does the parser give spreads. -/
theorem spreadable (builds : lower.Builds A) : Reads A (Parser.spreadable lower) (Expr.Obeys (.grammar A)) := by
  unfold Parser.spreadable
  refine bind (eatPunct _) fun _ _ => ite (fun _ => ?_) fun _ => builds.assignment.imp fun e value => value.1
  exact bind builds.assignment fun e value => pure (Node.spread_obeys value)

theorem arguments (builds : lower.Builds A) : Reads A (Parser.arguments lower) (ItemsObey A) := by
  have turn : ∀ found : List Expr, ItemsObey A found →
      Reads A (Parser.argumentTurn lower found) (Turn.Holds (ItemsObey A) (ItemsObey A)) := by
    intro found items
    unfold Parser.argumentTurn
    refine bind (checkPunct _) fun _ _ => ite (fun _ => pure items.reverse) fun _ => ?_
    refine bind (spreadable builds) fun e value => ?_
    have more : ItemsObey A (e :: found) := List.forall_mem_cons.2 ⟨value, items⟩
    exact bind (eatPunct _) fun _ _ => ite (fun _ => pure more) fun _ => pure more.reverse
  unfold Parser.arguments
  refine bind (expectPunct _ _) fun _ _ => allowingIn ?_
  exact bind (repeatFrom nofun turn) fun args all => bind (expectPunct _ _) fun _ _ => pure all

/-- The tokens of a hole are not among those ahead: they are split off from the source of the hole here. -/
theorem templateParts (tokens : SpellsTokens A) (builds : lower.Builds A) (chunks : List TemplateChunk) :
    Reads A (Parser.templateParts lower chunks) (fun parts => ∀ p ∈ parts, AllStand A p.nodes) := by
  induction chunks with
  | nil => exact pure nofun
  | cons chunk chunks ih =>
    cases chunk with
    | text value => exact bind ih fun parts all => pure (List.forall_mem_cons.2 ⟨.nil, all⟩)
    | hole source start =>
      unfold Parser.templateParts
      split
      · exact throw _
      · next ahead split =>
        have inside := completeExpression builds (.ofTokens ahead) (tokens source start ahead split)
        split
        · exact throw _
        · next value c read =>
          rw [read] at inside
          exact bind ih fun parts all => pure (List.forall_mem_cons.2 ⟨.cons inside.2 .nil, all⟩)

theorem arrayTurn (builds : lower.Builds A) {found : List Expr} (items : ItemsObey A found) :
    Reads A (Parser.arrayTurn lower found) (Turn.Holds (ItemsObey A) (Expr.Stands A)) := by
  unfold Parser.arrayTurn
  refine bind (eatPunct _) fun _ _ => ite (fun _ => pure (.array items.reverse)) fun _ => ?_
  refine bind (eatPunct _) fun _ _ => ite (fun _ => ?_) fun _ => ?_
  · exact pure (List.forall_mem_cons.2 ⟨(Node.Stands.literal .undefined).1, items⟩)
  refine bind (spreadable builds) fun e value => ?_
  have more : ItemsObey A (e :: found) := List.forall_mem_cons.2 ⟨value, items⟩
  refine bind (eatPunct _) fun _ _ => ite (fun _ => pure more) fun _ => ?_
  exact bind (expectPunct _ _) fun _ _ => pure (.array more.reverse)

/-! ## Objects -/

/-- Keys are not variables. The name of a shorthand is both, so it has the property as a name that was ahead. -/
theorem property (builds : lower.Builds A) :
    Reads A (Parser.property lower) (fun p => AllStand A p.nodes) := by
  unfold Parser.property
  refine bind (eatPunct _) fun _ _ => ite (fun _ => ?_) fun _ => ?_
  · exact bind builds.assignment fun e value => pure (.cons value .nil)
  refine bind (eatPunct _) fun _ _ => ite (fun _ => ?_) fun _ => ?_
  · refine bind (bracketed builds) fun key own => ?_
    refine bind (checkPunct _) fun _ _ => ite (fun _ => ?_) fun _ => ?_
    · exact bind (functionRest builds) fun f function => pure (.cons own (.cons (.function function) .nil))
    · refine bind (expectPunct _ _) fun _ _ => ?_
      exact bind builds.assignment fun e value => pure (.cons own (.cons value .nil))
  · refine bind kind fun k ahead => ?_
    split
    · exact ite (fun _ => fail _) fun _ => fail _
    · next key shorthand known =>
      refine bind advance fun _ _ => bind (eatPunct _) fun _ _ => ite (fun _ => ?_) fun _ => ?_
      · exact bind builds.assignment fun e value => pure (.cons value .nil)
      refine bind (checkPunct _) fun _ _ => ite (fun _ => ?_) fun _ => ?_
      · exact bind (functionRest builds) fun f function => pure (.cons (.function function) .nil)
      · refine ite (fun short => pure ?_) fun _ => fail _
        subst short
        exact .cons (.name (name_of_propertyKey? ahead known)) .nil

theorem objectLiteral (builds : lower.Builds A) : Reads A (Parser.objectLiteral lower) (Expr.Stands A) := by
  have reversed : ∀ {found : List Property}, (∀ p ∈ found, AllStand A p.nodes) →
      ∀ p ∈ found.reverse, AllStand A p.nodes := fun properties p mem => properties p (List.mem_reverse.1 mem)
  have turn : ∀ found : List Property, (∀ p ∈ found, AllStand A p.nodes) →
      Reads A (Parser.propertyTurn lower found)
        (Turn.Holds (fun found => ∀ p ∈ found, AllStand A p.nodes) fun all => ∀ p ∈ all, AllStand A p.nodes) := by
    intro found properties
    unfold Parser.propertyTurn
    refine bind (checkPunct _) fun _ _ => ite (fun _ => pure (reversed properties)) fun _ => ?_
    refine bind (property builds) fun p one => ?_
    have more : ∀ p' ∈ p :: found, AllStand A p'.nodes := List.forall_mem_cons.2 ⟨one, properties⟩
    exact bind (eatPunct _) fun _ _ => ite (fun _ => pure more) fun _ => pure (reversed more)
  unfold Parser.objectLiteral
  refine allowingIn (bind (repeatFrom nofun turn) fun properties all => ?_)
  exact bind (expectPunct _ _) fun _ _ => pure (.object all)

/-! ## Operands and operators -/

theorem nameExpr_stands {name : String} (spells : A name) : (nameExpr name).Stands A := by
  unfold nameExpr
  split
  · exact .literal _
  · split
    · exact .literal _
    · split
      · exact .literal _
      · exact .name spells

theorem functionExpr (builds : lower.Builds A) : Reads A (Parser.functionExpr lower) (Expr.Stands A) := by
  have rest : Reads A (do return Expr.function (← Parser.functionRest lower)) (Expr.Stands A) :=
    bind (functionRest builds) fun f function => pure (.function function)
  unfold Parser.functionExpr
  refine bind kind fun k _ => ?_
  split
  · exact bind advance fun _ _ => rest
  · exact rest

/-- A template brings in the names of its substitutions, which come from tokens of their own. -/
theorem primary (tokens : SpellsTokens A) (builds : lower.Builds A) :
    Reads A (Parser.primary lower) (Expr.Stands A) := by
  unfold Parser.primary
  refine bind kind fun k ahead => ?_
  split
  case h_3 =>
    refine bind advance fun _ _ => bind (templateParts tokens builds _) fun parts all => ?_
    exact pure (.template all)
  case h_4 => exact bind advance fun _ _ => pure (nameExpr_stands ahead)
  case h_8 => exact bind advance fun _ _ => functionExpr builds
  case h_9 =>
    refine bind advance fun _ _ => bind (allowingIn (expression builds)) fun inner value => ?_
    exact bind (expectPunct _ _) fun _ _ => pure value
  case h_10 =>
    exact bind advance fun _ _ => allowingIn (repeatFrom nofun fun found items => arrayTurn builds items)
  case h_11 => exact bind advance fun _ _ => objectLiteral builds
  case h_12 => exact fail _
  case h_13 => exact fail _
  all_goals exact bind advance fun _ _ => pure (.literal _)

theorem chainTurn (builds : lower.Builds A) {chain : Expr} (before : chain.Stands A) :
    Reads A (Parser.chainTurn lower chain) (Turn.Holds (Expr.Stands A) (Expr.Stands A)) := by
  have member : ∀ optional, Reads A (do return Turn.again (.member chain (← Parser.propertyName) optional))
      (Turn.Holds (Expr.Stands A) (Expr.Stands A)) :=
    fun optional => bind propertyName fun name _ => pure (.member before)
  have index : ∀ optional, Reads A (do return Turn.again (.index chain (← Parser.bracketed lower) optional))
      (Turn.Holds (Expr.Stands A) (Expr.Stands A)) :=
    fun optional => bind (bracketed builds) fun key value => pure (.index before value)
  have call : ∀ optional, Reads A (do return Turn.again (.call chain (← Parser.arguments lower) optional))
      (Turn.Holds (Expr.Stands A) (Expr.Stands A)) :=
    fun optional => bind (arguments builds) fun args all => pure (.call before all)
  unfold Parser.chainTurn
  refine bind kind fun k _ => ?_
  split
  · exact bind advance fun _ _ => member false
  · refine bind advance fun _ _ => ?_
    refine bind (checkPunct _) fun _ _ => ite (fun _ => call true) fun _ => ?_
    exact bind (eatPunct _) fun _ _ => ite (fun _ => index true) fun _ => member true
  · exact bind advance fun _ _ => index false
  · exact call false
  · exact pure before

theorem postfixed (tokens : SpellsTokens A) (builds : lower.Builds A) :
    Reads A (Parser.postfixed lower) (Expr.Stands A) := by
  have chain : Reads A (Parser.callChain lower) (Expr.Stands A) :=
    bind (primary tokens builds) fun first value =>
      repeatFrom value fun chain before => chainTurn builds before
  unfold Parser.postfixed
  refine bind position fun place _ => bind chain fun e value => bind get fun c _ => ?_
  refine ite (fun _ => pure value) fun _ => ?_
  split
  · exact pure value
  · refine ite (fun simple => ?_) fun _ => failAt _ _
    exact bind advance fun _ _ => pure (.update simple value)

theorem unary (tokens : SpellsTokens A) (builds : lower.Builds A) :
    Reads A (Parser.unary lower) (Expr.Stands A) := by
  unfold Parser.unary
  refine bind kind fun k _ => ?_
  split
  · exact bind advance fun _ _ => bind builds.unary fun operand value => pure (.unary value)
  · split
    · refine bind advance fun _ _ => bind position fun place _ => bind builds.unary fun operand value => ?_
      exact ite (fun simple => pure (.update simple value)) fun _ => failAt _ _
    · exact postfixed tokens builds

theorem binary (builds : lower.Builds A) (loosest : Nat) : Reads A (Parser.binary lower loosest) (Expr.Stands A) := by
  unfold Parser.binary
  refine bind builds.unary fun first value => repeatFrom value fun left before => ?_
  unfold Parser.binaryTurn
  refine bind get fun c _ => ?_
  split
  · refine ite (fun _ => pure before) fun _ => bind advance fun _ _ => ?_
    exact bind (builds.operand _) fun right value => pure (.binary before value)
  · exact pure before

theorem conditional (builds : lower.Builds A) : Reads A (Parser.conditional lower) (Expr.Stands A) := by
  unfold Parser.conditional
  refine bind (binary builds 1) fun test own => ?_
  refine bind (eatPunct _) fun _ _ => ite (fun _ => ?_) fun _ => pure own
  refine bind (allowingIn builds.assignment) fun consequent yes => ?_
  exact bind (expectPunct _ _) fun _ _ => bind builds.assignment fun alternate no => pure (.conditional own yes no)

theorem assignment (builds : lower.Builds A) : Reads A (Parser.assignment lower) (Expr.Stands A) := by
  unfold Parser.assignment
  refine bind get fun c _ => ite (fun _ => ?_) fun _ => ?_
  · exact bind (arrow builds) fun f function => pure (.function function)
  · refine bind (conditional builds) fun target own => bind kind fun k _ => ?_
    split
    · exact pure own
    · refine ite (fun simple => bind advance fun _ _ => ?_) fun _ => failAt _ _
      exact bind builds.assignment fun e value => pure (.assign simple own value)

/-! ## Statements -/

theorem parenthesized (builds : lower.Builds A) : Reads A (Parser.parenthesized lower) (Expr.Stands A) := by
  unfold Parser.parenthesized
  refine bind (expectPunct _ _) fun _ _ => bind (expression builds) fun e value => ?_
  exact bind (expectPunct _ _) fun _ _ => pure value

/-- What needs an initializer is refused without one. -/
theorem finishDeclarator (builds : lower.Builds A) (kind : DeclKind) {pattern : Pattern} (own : pattern.Stands A) :
    Reads A (Parser.finishDeclarator lower kind pattern) (fun d => d.Initialized kind ∧ AllStand A d.nodes) := by
  unfold Parser.finishDeclarator
  refine bind (defaultValue builds) fun init value => ?_
  cases init with
  | some init => exact pure ⟨by cases pattern <;> trivial, .cons own value⟩
  | none =>
    cases pattern with
    | name id => exact ite (fun _ => fail _) fun other => pure ⟨other, .cons own .nil⟩
    | array | object => exact fail _

theorem declarator (builds : lower.Builds A) (kind : DeclKind) :
    Reads A (Parser.declarator lower kind) (fun d => d.Initialized kind ∧ AllStand A d.nodes) := by
  unfold Parser.declarator
  refine bind position fun place _ => bind builds.pattern fun pattern own => ?_
  exact bind (declareAll _ _ _) fun _ _ => finishDeclarator builds kind own

theorem moreDeclarators (builds : lower.Builds A) (kind : DeclKind) {first : Declarator}
    (one : first.Initialized kind ∧ AllStand A first.nodes) :
    Reads A (Parser.moreDeclarators lower kind first) (DeclaratorsStand A kind) := by
  refine repeatFrom (Q := fun found => found ≠ [] ∧ ∀ d ∈ found, d.Initialized kind ∧ AllStand A d.nodes)
    ⟨nofun, List.forall_mem_singleton.2 one⟩ fun found each => ?_
  unfold Parser.declaratorTurn
  refine bind (eatPunct _) fun _ _ => ite (fun _ => ?_) fun _ => pure ?_
  · exact bind (declarator builds kind) fun d next => pure ⟨nofun, List.forall_mem_cons.2 ⟨next, each.2⟩⟩
  · refine ⟨⟨fun empty => each.1 (List.reverse_eq_nil_iff.1 empty), fun d mem => ?_⟩, .flatMap fun d mem => ?_⟩
    · exact (each.2 d (List.mem_reverse.1 mem)).1
    · exact (each.2 d (List.mem_reverse.1 mem)).2

theorem declaration (builds : lower.Builds A) (kind : DeclKind) :
    Reads A (Parser.declaration lower kind) (Stmt.Stands A) := by
  unfold Parser.declaration
  refine bind advance fun _ _ => bind (declarator builds kind) fun first one => ?_
  refine bind (moreDeclarators builds kind one) fun declarators each => ?_
  exact bind endStatement fun _ _ => pure (.statement each.1 each.2)

theorem functionDeclaration (builds : lower.Builds A) :
    Reads A (Parser.functionDeclaration lower) (Stmt.Stands A) := by
  unfold Parser.functionDeclaration
  refine bind advance fun _ _ => bind position fun place _ => bind expectIdentifier fun name _ => ?_
  exact bind (declare _ _ _) fun _ _ => bind (functionRest builds) fun f function =>
    pure (.statement trivial function)

theorem branch (builds : lower.Builds A) : Reads A (Parser.branch lower) (Stmt.Stands A) := by
  unfold Parser.branch
  refine bind advance fun _ _ => bind (parenthesized builds) fun test own => ?_
  refine bind builds.statement fun consequent one => ?_
  refine bind (eatKeyword _) fun _ _ => ite (fun _ => ?_) fun _ => ?_
  · exact bind builds.statement fun alternate other =>
      pure (.statement trivial (.cons own (.cons one (.cons other .nil))))
  · exact pure (.statement trivial (.cons own (.cons one .nil)))

theorem whileLoop (builds : lower.Builds A) : Reads A (Parser.whileLoop lower) (Stmt.Stands A) := by
  unfold Parser.whileLoop
  refine bind advance fun _ _ => bind (parenthesized builds) fun test own => ?_
  exact bind builds.statement fun body one => pure (.statement trivial (.cons own (.cons one .nil)))

theorem doWhile (builds : lower.Builds A) : Reads A (Parser.doWhile lower) (Stmt.Stands A) := by
  unfold Parser.doWhile
  refine bind advance fun _ _ => bind builds.statement fun body one => ?_
  refine bind (eatKeyword _) fun _ _ => ite (fun _ => ?_) fun _ => fail_bind _
  refine bind (parenthesized builds) fun test own => bind (eatPunct _) fun _ _ => ?_
  exact pure (.statement trivial (.cons own (.cons one .nil)))

/-! ### Loops with a head -/

/-- A statement that may be there. -/
def LoopStands (A : String → Prop) (found : Option Stmt) : Prop :=
  ∀ s ∈ found, s.Stands A

private theorem eachRest (builds : lower.Builds A) {kind : Option DeclKind} {pattern : Pattern}
    (own : pattern.Stands A) (visits? : Option EachKind) :
    Reads A (match visits? with
      | none => return none
      | some visits => do
        Parser.advance
        let object ← match visits with
          | .keys => Parser.expression lower
          | .items => lower.assignment
        Parser.expectPunct .closeParen .closeParenExpected
        return some (.forEach visits kind pattern object (← lower.statement))) (LoopStands A) := by
  cases visits? with
  | none => exact pure nofun
  | some visits =>
    have body : ∀ object : Expr, object.Stands A → Reads A (do
        Parser.expectPunct .closeParen .closeParenExpected
        return some (.forEach visits kind pattern object (← lower.statement))) (LoopStands A) := by
      intro object value
      refine bind (expectPunct _ _) fun _ _ => bind builds.statement fun body one => pure fun s same => ?_
      cases same
      exact .statement trivial (.cons own (.cons value (.cons one .nil)))
    refine bind advance fun _ _ => ?_
    cases visits with
    | keys => exact bind (expression builds) body
    | items => exact bind builds.assignment body

theorem forEach? (builds : lower.Builds A) (kind : Option DeclKind) {pattern : Pattern} (own : pattern.Stands A) :
    Reads A (Parser.forEach? lower kind pattern) (LoopStands A) := by
  unfold Parser.forEach?
  exact bind Reads.kind fun k _ => eachRest builds own _

theorem optionalBefore (builds : lower.Builds A) (mark : Punct) :
    Reads A (Parser.optionalBefore lower mark) (OptionStands A) := by
  unfold Parser.optionalBefore
  refine bind (checkPunct _) fun _ _ => ite (fun _ => pure .none) fun _ => ?_
  exact bind (expression builds) fun e value => pure (.some value)

theorem forRest (builds : lower.Builds A) {init : ForInit} (own : AllStand A init.nodes)
    (shaped : ∀ kind declarators, init = .declare kind declarators → Declarator.Declare kind declarators) :
    Reads A (Parser.forRest lower init) (Stmt.Stands A) := by
  unfold Parser.forRest
  refine bind (expectPunct _ _) fun _ _ => bind (optionalBefore builds _) fun test tested => ?_
  refine bind (expectPunct _ _) fun _ _ => bind (optionalBefore builds _) fun update updated => ?_
  refine bind (expectPunct _ _) fun _ _ => bind builds.statement fun body one => ?_
  refine pure (.statement ?_ (.append own (.append tested (.append updated (.cons one .nil)))))
  cases init with
  | none | expr => trivial
  | declare kind declarators => exact shaped kind declarators rfl

theorem forDeclaration (builds : lower.Builds A) (kind : DeclKind) :
    Reads A (Parser.forDeclaration lower kind) (Stmt.Stands A) := by
  unfold Parser.forDeclaration
  refine bind advance fun _ _ => bind position fun place _ => ?_
  refine bind builds.pattern fun pattern own => bind (declareAll _ _ _) fun _ _ => ?_
  refine bind (forEach? builds (some kind) own) fun found loop => ?_
  cases found with
  | some s => exact pure (loop s rfl)
  | none =>
    refine bind (reservingIn (bind (finishDeclarator builds kind own) fun first one =>
      moreDeclarators builds kind one)) fun declarators each => ?_
    refine forRest builds each.2 fun kind' declarators' same => ?_
    cases same
    exact each.1

/-- Where the head turns out to be no pattern, it is read again from the same tokens. -/
theorem bareForEach? (builds : lower.Builds A) : Reads A (Parser.bareForEach? lower) (LoopStands A) := by
  intro c ahead
  have attempted := builds.pattern c ahead
  unfold Parser.bareForEach?
  cases read : lower.pattern c with
  | error issue c' => exact ⟨ahead, nofun⟩
  | ok pattern c' =>
    rw [read] at attempted
    have ends := forEach? builds none attempted.2 c' attempted.1
    dsimp only
    cases loop : Parser.forEach? lower none pattern c' with
    | error issue c'' =>
      rw [loop] at ends
      exact ends
    | ok found c'' =>
      rw [loop] at ends
      cases found with
      | none => exact ⟨ahead, nofun⟩
      | some s => exact ends

theorem forLoop (builds : lower.Builds A) : Reads A (Parser.forLoop lower) (Stmt.Stands A) := by
  have head : Reads A (Parser.forHead lower) (Stmt.Stands A) := by
    unfold Parser.forHead
    refine bind kind fun k _ => ?_
    cases declKind? k with
    | some kind => exact forDeclaration builds kind
    | none =>
      refine bind (checkPunct _) fun _ _ => ite (fun _ => forRest builds .nil nofun) fun _ => ?_
      refine bind (bareForEach? builds) fun found loop => ?_
      cases found with
      | some s => exact pure (loop s rfl)
      | none => exact bind (reservingIn (expression builds)) fun e value => forRest builds (.cons value .nil) nofun
  unfold Parser.forLoop
  exact bind advance fun _ _ => bind (expectPunct _ _) fun _ _ => inBlock head

/-! ### Handlers and cases -/

theorem catchClause (builds : lower.Builds A) :
    Reads A (Parser.catchClause lower) (fun handler => StatementsStand A handler.body) := by
  have body : ∀ param, Reads A (do
      Parser.expectPunct .openBrace .openBraceExpected
      return Handler.mk param (← Parser.blockContents lower)) (fun handler => StatementsStand A handler.body) :=
    fun param => bind (expectPunct _ _) fun _ _ => bind (blockContents builds) fun statements each => pure each
  unfold Parser.catchClause
  refine inBlock (bind (eatPunct _) fun _ _ => ite (fun _ => ?_) fun _ => body none)
  refine bind position fun place _ => bind expectIdentifier fun name _ => bind (declare _ _ _) fun _ _ => ?_
  exact bind (expectPunct _ _) fun _ _ => body (some name)

/-- A `try` that nothing follows is refused. -/
theorem attempt (builds : lower.Builds A) : Reads A (Parser.attempt lower) (Stmt.Stands A) := by
  unfold Parser.attempt
  refine bind advance fun _ _ => bind (expectBlock builds) fun statements own => ?_
  have last : ∀ (handler : Option Handler) (finalizer : Option (List Stmt)),
      StatementsStand A (handler.toList.flatMap Handler.body) → StatementsStand A (finalizer.getD []) → Reads A (do
        if handler.isNone && finalizer.isNone then Parser.fail .catchExpected
        return Stmt.attempt statements handler finalizer) (Stmt.Stands A) := by
    intro handler finalizer handled finalized
    refine ite (fun _ => fail_bind _) fun followed => pure ?_
    refine .statement ?_ (.append own (.append handled finalized))
    show handler.isSome = true ∨ finalizer.isSome = true
    cases handler with
    | some => exact .inl rfl
    | none =>
      cases finalizer with
      | some => exact .inr rfl
      | none => exact absurd rfl followed
  have finally_ : ∀ handler : Option Handler, StatementsStand A (handler.toList.flatMap Handler.body) → Reads A (do
      let finalizer ←
        if ← Parser.eatKeyword .finally then Pure.pure (some (← Parser.expectBlock lower))
        else Pure.pure none
      if handler.isNone && finalizer.isNone then Parser.fail .catchExpected
      return Stmt.attempt statements handler finalizer) (Stmt.Stands A) := by
    intro handler handled
    refine bind (eatKeyword _) fun _ _ => ite (fun _ => ?_) fun _ => last handler none handled .nil
    exact bind (expectBlock builds) fun finalizer own => last handler (some finalizer) handled own
  refine bind (eatKeyword _) fun _ _ => ite (fun _ => ?_) fun _ => finally_ none .nil
  refine bind (catchClause builds) fun handler own => finally_ (some handler) ?_
  rwa [show (some handler).toList.flatMap Handler.body = handler.body from List.append_nil _]

/-- A second default is refused. -/
theorem caseLabel (builds : lower.Builds A) (seenDefault : Bool) :
    Reads A (Parser.caseLabel lower seenDefault)
      (fun test => (test = none → seenDefault = false) ∧ OptionStands A test) := by
  unfold Parser.caseLabel
  refine bind (eatKeyword _) fun _ _ => ite (fun _ => ?_) fun _ => ?_
  · exact bind (expression builds) fun e value => pure ⟨nofun, .some value⟩
  refine bind (checkKeyword _) fun _ _ => ite (fun _ => ?_) fun _ => ?_
  · refine ite (fun _ => fail_bind _) fun first => bind advance fun _ _ => pure ⟨fun _ => ?_, .none⟩
    exact Bool.eq_false_iff.2 first
  · exact bind atEof fun _ _ => ite (fun _ => fail _) fun _ => fail _

/-- Cases that may stand together. -/
def CasesStand (A : String → Prop) (cases : List Case) : Prop :=
  (cases.filter (·.test.isNone)).length ≤ 1 ∧ ∀ c ∈ cases, AllStand A c.nodes

theorem cases_cons {found : List Case} {test : Option Expr} {body : List Stmt} (each : CasesStand A found)
    (label : test = none → found.any (fun c => c.test.isNone) = false) (own : OptionStands A test)
    (statements : StatementsStand A body) : CasesStand A (.mk test body :: found) := by
  refine ⟨?_, List.forall_mem_cons.2 ⟨.append own statements, each.2⟩⟩
  cases test with
  | some test => exact each.1
  | none =>
    have others : found.filter (·.test.isNone) = [] :=
      List.filter_eq_nil_iff.2 fun c mem => List.any_eq_false.1 (label rfl) c mem
    rw [List.filter_cons_of_pos rfl, others]
    exact Nat.le_refl 1

theorem caseTurn (builds : lower.Builds A) {found : List Case} (each : CasesStand A found) :
    Reads A (Parser.caseTurn lower found) (Turn.Holds (CasesStand A) (CasesStand A)) := by
  have body : Reads A (Parser.repeatFrom [] (Parser.caseBodyTurn lower)) (StatementsStand A) := by
    refine repeatFrom (Q := fun found => ∀ s ∈ found, s.Stands A) nofun fun found each => ?_
    unfold Parser.caseBodyTurn
    refine bind kind fun k _ => ite (fun _ => pure (statements_of_found each)) fun _ => ?_
    exact nextStatement builds each
  unfold Parser.caseTurn
  refine bind (eatPunct _) fun _ _ => ite (fun _ => pure ⟨?_, fun c mem => ?_⟩) fun _ => ?_
  · rw [List.filter_reverse, List.length_reverse]
    exact each.1
  · exact each.2 c (List.mem_reverse.1 mem)
  refine bind (caseLabel builds _) fun test label => bind (expectPunct _ _) fun _ _ => ?_
  exact bind body fun statements own => pure (cases_cons each label.1 label.2 own)

theorem switch (builds : lower.Builds A) : Reads A (Parser.switch lower) (Stmt.Stands A) := by
  unfold Parser.switch
  refine bind advance fun _ _ => bind (parenthesized builds) fun discriminant value => ?_
  refine bind (expectPunct _ _) fun _ _ => ?_
  refine bind (inBlock (repeatFrom (Q := CasesStand A) ⟨Nat.zero_le 1, nofun⟩ fun found each =>
    caseTurn builds each)) fun cases all => ?_
  exact pure (.statement all.1 (.cons value (.flatMap all.2)))

theorem returnStatement (builds : lower.Builds A) : Reads A (Parser.returnStatement lower) (Stmt.Stands A) := by
  have last : ∀ value, OptionStands A value → Reads A (do
      Parser.endStatement
      return Stmt.ret value) (Stmt.Stands A) :=
    fun value own => bind endStatement fun _ _ => pure (.statement trivial own)
  unfold Parser.returnStatement
  refine bind advance fun _ _ => bind get fun _ _ => ite (fun _ => last none .none) fun _ => ?_
  exact bind (expression builds) fun e value => last (some e) (.some value)

theorem throwStatement (builds : lower.Builds A) : Reads A (Parser.throwStatement lower) (Stmt.Stands A) := by
  unfold Parser.throwStatement
  refine bind advance fun _ _ => bind get fun _ _ => ite (fun _ => fail_bind _) fun _ => ?_
  exact bind (expression builds) fun e value => bind endStatement fun _ _ =>
    pure (.statement trivial (.cons value .nil))

/-- One case for each word that a statement begins with, and one for expressions. -/
theorem statement (builds : lower.Builds A) : Reads A (Parser.statement lower) (Stmt.Stands A) := by
  unfold Parser.statement
  refine bind kind fun k _ => ?_
  split
  · exact bind advance fun _ _ => pure (.statement trivial .nil)
  · exact bind advance fun _ _ => bind (block builds) fun statements own => pure (.statement trivial own)
  · exact declaration builds _
  · exact declaration builds _
  · exact declaration builds _
  · exact branch builds
  · exact whileLoop builds
  · exact doWhile builds
  · exact forLoop builds
  · exact returnStatement builds
  · exact bind advance fun _ _ => bind endStatement fun _ _ => pure (.statement trivial .nil)
  · exact bind advance fun _ _ => bind endStatement fun _ _ => pure (.statement trivial .nil)
  · exact throwStatement builds
  · exact attempt builds
  · exact switch builds
  · exact functionDeclaration builds
  · exact bind (expression builds) fun e value => bind endStatement fun _ _ =>
      pure (.statement trivial (.cons value .nil))

theorem program (builds : lower.Builds A) : Reads A (Parser.program lower) (StatementsStand A) := by
  refine repeatFrom (Q := fun found => ∀ s ∈ found, s.Stands A) nofun fun found each => ?_
  unfold Parser.programTurn
  refine bind atEof fun _ _ => ite (fun _ => pure (statements_of_found each)) fun _ => ?_
  exact nextStatement builds each

end Reads

/-! ## Whole sources -/

/-- Every level gives trees of the grammar if the one below it does, and at the last one nothing is accepted. -/
theorem level_builds (tokens : SpellsTokens A) (n : Nat) : (level n).Builds A := by
  induction n with
  | zero => exact ⟨.fail _, .fail _, fun _ => .fail _, .fail _, .fail _⟩
  | succ n builds =>
    exact ⟨.assignment builds, .unary tokens builds, .binary builds, .bindingPattern builds,
      .statement builds⟩

/-- What a parser gives of a whole source keeps to the names of the source. -/
theorem runOn_reads (tokens : SpellsTokens A) {p : Parse α} {Q : α → Prop} (reads : Reads A p Q)
    {source : String} {a : α} (read : runOn p source = .ok a) : Q a := by
  unfold runOn at read
  split at read
  · cases read
  · next ahead split =>
    have ends := reads (.ofTokens ahead) (tokens _ _ ahead split)
    split at read
    · next a' c run =>
      cases read
      rw [run] at ends
      exact ends.2
    · cases read

end Parser

/-- Where every name among tokens has a property, accepted sources give trees of the grammar whose names have it. -/
theorem parsed_grammar {A : String → Prop} (tokens : SpellsTokens A) (source : String) :
    (∀ e, parseExpr source = .ok e → e.Stands A) ∧
      ∀ statements, parseStatements source = .ok statements → Stmt.AllObey (.grammar A) statements := by
  have builds := Parser.level_builds tokens Parser.maxNesting
  refine ⟨fun _ read => Parser.runOn_reads tokens (.completeExpression builds) read, fun statements read => ?_⟩
  have each := Parser.runOn_reads tokens (.program builds) read
  exact Stmt.allObey_iff_nodes.2 fun y mem => (each y mem).1

end BindScript
