import BindScript.Proofs.Syntax.Parts

/-!
# What the grammar asks for

Not every tree can be written down. Only names and members that are always there are assigned to, declarations declare
something and give it a value where one is needed, a `try` has somebody to handle its end, and a `switch` has one
default at most. Values are spread into lists and arguments only; everywhere else an expression stands for a single
value. All of this can be told by looking at a node and at its parts (`NodeRule.formed`).

The names that a tree reads and binds can be told in the same way (`NodeRule.names`). Trees are put together from parts
that are no spreads (`Node.Stands`): there is one lemma for each kind of node.
-/

namespace BindScript

/-! ## Rules -/

/-- Whether the node spreads a value into the list that it stands in. -/
def Node.isSpread : Node → Bool
  | expr (.spread _) => true
  | _ => false

/-- The parts that stand for single values: all but the items of a list and the arguments of a call. -/
def Node.singles : Node → List Node
  | expr (.array _) => []
  | expr (.call callee _ _) => [expr callee]
  | x => x.children

/-- Constants and what is taken apart have an initializer. -/
def Declarator.Initialized (kind : DeclKind) : Declarator → Prop
  | .mk _ (some _) => True
  | .mk (.name _) none => kind ≠ .const
  | .mk _ none => False

/-- Something is declared, and it has an initializer if it needs one. -/
def Declarator.Declare (kind : DeclKind) (declarators : List Declarator) : Prop :=
  declarators ≠ [] ∧ ∀ d ∈ declarators, d.Initialized kind

/-- What the grammar asks of a node whatever its parts are. -/
def Node.Shaped : Node → Prop
  | expr (.update _ _ target) | expr (.assign _ target _) => target.isSimpleTarget = true
  | stmt (.declare kind declarators) | stmt (.forLoop (.declare kind declarators) _ _ _) =>
    Declarator.Declare kind declarators
  | stmt (.attempt _ handler finalizer) => handler.isSome = true ∨ finalizer.isSome = true
  | stmt (.switch _ cases) => (cases.filter (·.test.isNone)).length ≤ 1
  | _ => True

/-- What the grammar asks of a node. -/
def Node.Formed (x : Node) : Prop :=
  x.Shaped ∧ ∀ y ∈ x.singles, y.isSpread = false

/-- The rule of the grammar. -/
def NodeRule.formed : NodeRule where
  expr e := (Node.expr e).Formed
  pattern p := (Node.pattern p).Formed
  stmt s := (Node.stmt s).Formed

/-- The names that are read and those that patterns bind have the property. -/
def NodeRule.names (A : String → Prop) : NodeRule where
  expr
    | .name id => A id
    | _ => True
  pattern
    | .name id => A id
    | .object _ (some rest) => A rest
    | _ => True

/-- The rule of the grammar, with names that have the property. -/
def NodeRule.grammar (A : String → Prop) : NodeRule where
  expr e := (names A).expr e ∧ formed.expr e
  pattern p := (names A).pattern p ∧ formed.pattern p
  stmt s := formed.stmt s

variable {A : String → Prop} {x y : Node}

theorem NodeRule.grammar_le_names : (grammar A).Le (names A) :=
  ⟨fun _ both => both.1, fun _ both => both.1, fun _ _ => trivial⟩

theorem NodeRule.grammar_le_formed : (grammar A).Le formed :=
  ⟨fun _ both => both.2, fun _ both => both.2, fun _ own => own⟩

/-! ## Putting trees together -/

/-- The tree is as the grammar asks, and it stands for a single value if it is an expression. -/
def Node.Stands (A : String → Prop) (x : Node) : Prop :=
  x.Obeys (.grammar A) ∧ x.isSpread = false

abbrev Expr.Stands (A : String → Prop) (e : Expr) : Prop :=
  (Node.expr e).Stands A

abbrev Pattern.Stands (A : String → Prop) (p : Pattern) : Prop :=
  (Node.pattern p).Stands A

abbrev Stmt.Stands (A : String → Prop) (s : Stmt) : Prop :=
  (Node.stmt s).Stands A

/-- All trees in a row stand for single values. -/
def Node.AllStand (A : String → Prop) (nodes : List Node) : Prop :=
  ∀ y ∈ nodes, y.Stands A

namespace Node

theorem mem_children_of_mem_singles (mem : y ∈ x.singles) : y ∈ x.children := by
  unfold singles at mem
  split at mem
  · cases mem
  · exact mem_children_call.2 (.inl (List.mem_singleton.1 mem))
  · exact mem

theorem AllStand.nil : AllStand A [] :=
  nofun

theorem AllStand.cons {nodes : List Node} (first : y.Stands A) (rest : AllStand A nodes) : AllStand A (y :: nodes) :=
  List.forall_mem_cons.2 ⟨first, rest⟩

theorem AllStand.append {nodes more : List Node} (first : AllStand A nodes) (rest : AllStand A more) :
    AllStand A (nodes ++ more) :=
  List.forall_mem_append.2 ⟨first, rest⟩

theorem AllStand.flatMap {α : Type} {items : List α} {nodes : α → List Node}
    (each : ∀ a ∈ items, AllStand A (nodes a)) : AllStand A (items.flatMap nodes) :=
  forall_mem_flatMap.2 each

theorem AllStand.map {α : Type} {items : List α} {node : α → Node} (each : ∀ a ∈ items, (node a).Stands A) :
    AllStand A (items.map node) :=
  List.forall_mem_map.2 each

namespace Stands

theorem of_children (named : (NodeRule.names A).node x) (shaped : x.Shaped) (single : x.isSpread = false)
    (children : AllStand A x.children) : x.Stands A := by
  have formed : x.Formed := ⟨shaped, fun y mem => (children y (mem_children_of_mem_singles mem)).2⟩
  refine ⟨obeys_iff.2 ⟨?_, fun y mem => (children y mem).1⟩, single⟩
  cases x with
  | expr e => exact ⟨named, formed⟩
  | pattern p => exact ⟨named, formed⟩
  | stmt s => exact formed

/-! ### Expressions -/

theorem name {id : String} (named : A id) : (expr (.name id)).Stands A :=
  of_children named trivial rfl .nil

theorem literal (value : Literal) : (expr (.literal value)).Stands A :=
  of_children trivial trivial rfl .nil

theorem template {parts : List TemplatePart} (each : ∀ p ∈ parts, AllStand A p.nodes) :
    (expr (.template parts)).Stands A :=
  of_children trivial trivial rfl (.flatMap each)

theorem unary {op : UnaryOp} {operand : Expr} (own : (expr operand).Stands A) : (expr (.unary op operand)).Stands A :=
  of_children trivial trivial rfl (.cons own .nil)

theorem update {op : UpdateOp} {side : UpdateSide} {target : Expr} (simple : target.isSimpleTarget = true)
    (own : (expr target).Stands A) : (expr (.update op side target)).Stands A :=
  of_children trivial simple rfl (.cons own .nil)

theorem binary {op : BinaryOp} {left right : Expr} (own : (expr left).Stands A) (other : (expr right).Stands A) :
    (expr (.binary op left right)).Stands A := by
  refine of_children trivial trivial rfl fun y mem => ?_
  rcases mem_children_binary.1 mem with rfl | mem
  · exact own
  · exact List.mem_singleton.1 mem ▸ other

theorem conditional {test consequent alternate : Expr} (own : (expr test).Stands A) (yes : (expr consequent).Stands A)
    (no : (expr alternate).Stands A) : (expr (.conditional test consequent alternate)).Stands A :=
  of_children trivial trivial rfl (.cons own (.cons yes (.cons no .nil)))

theorem sequence {items : List Expr} (each : ∀ e ∈ items, (expr e).Stands A) : (expr (.sequence items)).Stands A :=
  of_children trivial trivial rfl (.map each)

/-- Values may be spread into lists. -/
theorem array {items : List Expr} (each : ∀ e ∈ items, (expr e).Obeys (.grammar A)) :
    (expr (.array items)).Stands A :=
  ⟨obeys_iff.2 ⟨⟨trivial, trivial, nofun⟩, List.forall_mem_map.2 each⟩, rfl⟩

theorem object {properties : List Property} (each : ∀ p ∈ properties, AllStand A p.nodes) :
    (expr (.object properties)).Stands A :=
  of_children trivial trivial rfl (.flatMap each)

theorem member {object : Expr} {property : String} {optional : Bool} (own : (expr object).Stands A) :
    (expr (.member object property optional)).Stands A := by
  refine of_children trivial trivial rfl fun y mem => ?_
  rcases mem_children_member.1 mem with rfl | mem
  · exact own
  · cases mem

theorem index {object key : Expr} {optional : Bool} (own : (expr object).Stands A) (other : (expr key).Stands A) :
    (expr (.index object key optional)).Stands A := by
  refine of_children trivial trivial rfl fun y mem => ?_
  rcases mem_children_index.1 mem with rfl | mem
  · exact own
  · exact List.mem_singleton.1 mem ▸ other

/-- Values may be spread into arguments. -/
theorem call {callee : Expr} {args : List Expr} {optional : Bool} (own : (expr callee).Stands A)
    (each : ∀ e ∈ args, (expr e).Obeys (.grammar A)) : (expr (.call callee args optional)).Stands A := by
  refine ⟨obeys_iff.2 ⟨⟨trivial, trivial, List.forall_mem_singleton.2 own.2⟩, fun y mem => ?_⟩, rfl⟩
  rcases mem_children_call.1 mem with rfl | mem
  · exact own.1
  · exact List.forall_mem_map.2 each y mem

theorem assign {op : AssignOp} {target value : Expr} (simple : target.isSimpleTarget = true)
    (own : (expr target).Stands A) (other : (expr value).Stands A) : (expr (.assign op target value)).Stands A :=
  of_children trivial simple rfl (.cons own (.cons other .nil))

theorem function {definition : Function} (own : AllStand A definition.nodes) :
    (expr (.function definition)).Stands A :=
  of_children trivial trivial rfl own

end Stands

/-- Where spreads may stand, they are as the grammar asks if what they spread is. -/
theorem spread_obeys {inner : Expr} (own : (expr inner).Stands A) : (expr (.spread inner)).Obeys (.grammar A) :=
  obeys_iff.2 ⟨⟨trivial, trivial, List.forall_mem_singleton.2 own.2⟩, List.forall_mem_singleton.2 own.1⟩

namespace Stands

/-! ### Patterns -/

theorem namePattern {id : String} (named : A id) : (pattern (.name id)).Stands A :=
  of_children named trivial rfl .nil

theorem arrayPattern {elements : List (Option Element)} {rest : Option Pattern}
    (each : ∀ e, some e ∈ elements → AllStand A e.nodes) (last : AllStand A (Pattern.optionNodes rest)) :
    (pattern (.array elements rest)).Stands A := by
  have parts : AllStand A (Pattern.array elements rest).parts :=
    .append (.flatMap fun e mem => each e (List.reduceOption_mem_iff.1 mem)) last
  exact of_children trivial trivial rfl parts

theorem objectPattern {fields : List Field} {rest : Option String} (each : ∀ f ∈ fields, AllStand A f.nodes)
    (last : ∀ name ∈ rest, A name) : (pattern (.object fields rest)).Stands A := by
  refine of_children ?_ trivial rfl (.flatMap each)
  cases rest with
  | none => trivial
  | some name => exact last name rfl

/-! ### Statements -/

/-- What the grammar asks of most statements is asked of their parts. -/
theorem statement {s : Stmt} (shaped : (stmt s).Shaped) (parts : AllStand A s.parts) : (stmt s).Stands A :=
  of_children trivial shaped rfl parts

end Stands

end Node

end BindScript
