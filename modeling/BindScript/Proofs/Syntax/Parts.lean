import Mathlib.Data.List.ReduceOption
import BindScript.Proofs.Syntax.Nodes

/-!
# The parts of nodes

The nodes of a tree are its expressions, patterns and statements. What stands between a node and its parts (elements,
properties, declarators, cases and so on) has no node of its own.

One part may go on with a chain: a binary operation that is the left operand of another one, or a link (a member
access or a call) that the next link applies to. It is told apart from the other ones (`Node.chained?`), as chains are
read by loops. Parts are smaller than what they are parts of (`Node.size_lt_of_mem_children`), and a tree obeys a rule
if its node does and all parts obey it (`Node.obeys_iff`).
-/

namespace BindScript

/-- A node of a syntax tree. -/
inductive Node
  | expr (e : Expr)
  | pattern (p : Pattern)
  | stmt (s : Stmt)

/-- Whether the expression is a binary operation. -/
def Expr.isBinary : Expr → Bool
  | .binary .. => true
  | _ => false

/-- Whether the expression is a link of a chain of member accesses and calls. -/
def Expr.isLink : Expr → Bool
  | .member .. | .index .. | .call .. => true
  | _ => false

/-! ## Parts -/

/-- The nodes of an expression that may be there. -/
def Expr.optionNodes (e : Option Expr) : List Node :=
  e.toList.map .expr

/-- The nodes of a piece of a template. -/
def TemplatePart.nodes : TemplatePart → List Node
  | .text _ => []
  | .hole e => [.expr e]

/-- The nodes of a property. -/
def Property.nodes : Property → List Node
  | .named _ value | .spread value => [.expr value]
  | .computed key value => [.expr key, .expr value]

/-- The nodes of an element. -/
def Element.nodes : Element → List Node
  | .mk target default => .pattern target :: Expr.optionNodes default

/-- The nodes of a field. -/
def Field.nodes : Field → List Node
  | .mk _ target default => .pattern target :: Expr.optionNodes default

/-- The nodes of the rest of a pattern or of parameters. -/
def Pattern.optionNodes (rest : Option Pattern) : List Node :=
  rest.toList.map .pattern

/-- The nodes of the body of a function. -/
def Body.nodes : Body → List Node
  | .expr e => [.expr e]
  | .block statements => statements.map .stmt

/-- The nodes of a function. -/
def Function.nodes : Function → List Node
  | .mk params rest body => params.flatMap Element.nodes ++ Pattern.optionNodes rest ++ body.nodes

/-- The nodes of a declarator. -/
def Declarator.nodes : Declarator → List Node
  | .mk pattern init => .pattern pattern :: Expr.optionNodes init

/-- The nodes of the first part of a loop head. -/
def ForInit.nodes : ForInit → List Node
  | .none => []
  | .declare _ declarators => declarators.flatMap Declarator.nodes
  | .expr e => [.expr e]

/-- The nodes of a case. -/
def Case.nodes : Case → List Node
  | .mk test body => Expr.optionNodes test ++ body.map .stmt

/-- The operand that goes on with the chain of the expression. -/
def Expr.chained? : Expr → Option Expr
  | .binary _ left _ => if left.isBinary then some left else none
  | .member first _ _ | .index first _ _ | .call first _ _ => if first.isLink then some first else none
  | _ => none

/-- The parts of an expression, without the one that goes on with its chain. -/
def Expr.parts : Expr → List Node
  | .name _ | .literal _ => []
  | .template parts => parts.flatMap TemplatePart.nodes
  | .unary _ operand | .update _ _ operand | .spread operand => [.expr operand]
  | .binary _ left right => (if left.isBinary then [] else [.expr left]) ++ [.expr right]
  | .conditional test consequent alternate => [.expr test, .expr consequent, .expr alternate]
  | .sequence items | .array items => items.map .expr
  | .object properties => properties.flatMap Property.nodes
  | .member first _ _ => if first.isLink then [] else [.expr first]
  | .index first key _ => (if first.isLink then [] else [.expr first]) ++ [.expr key]
  | .call first args _ => (if first.isLink then [] else [.expr first]) ++ args.map .expr
  | .assign _ target value => [.expr target, .expr value]
  | .function definition => definition.nodes

/-- The parts of a pattern. -/
def Pattern.parts : Pattern → List Node
  | .name _ => []
  | .array elements rest => elements.reduceOption.flatMap Element.nodes ++ Pattern.optionNodes rest
  | .object fields _ => fields.flatMap Field.nodes

/-- The parts of a statement. -/
def Stmt.parts : Stmt → List Node
  | .empty | .brk | .cont => []
  | .expr e | .throw e => [.expr e]
  | .ret e => Expr.optionNodes e
  | .block statements => statements.map .stmt
  | .declare _ declarators => declarators.flatMap Declarator.nodes
  | .branch test consequent alternate => .expr test :: .stmt consequent :: alternate.toList.map .stmt
  | .whileLoop test body | .doWhile body test => [.expr test, .stmt body]
  | .forLoop init test update body =>
    init.nodes ++ (Expr.optionNodes test ++ (Expr.optionNodes update ++ [.stmt body]))
  | .forEach _ _ pattern object body => [.pattern pattern, .expr object, .stmt body]
  | .attempt statements handler finalizer =>
    statements.map .stmt ++ ((handler.toList.flatMap Handler.body).map .stmt ++ (finalizer.getD []).map .stmt)
  | .switch discriminant cases => .expr discriminant :: cases.flatMap Case.nodes
  | .function _ definition => definition.nodes

namespace Node

/-- The part that goes on with the chain of the node. -/
def chained? : Node → Option Node
  | expr e => e.chained?.map .expr
  | pattern _ | stmt _ => none

/-- The other parts of the node. -/
def parts : Node → List Node
  | expr e => e.parts
  | pattern p => p.parts
  | stmt s => s.parts

/-- All parts of the node. -/
def children (x : Node) : List Node :=
  x.chained?.toList ++ x.parts

/-- What the expression applies to comes first among its parts, whether it goes on with the chain or not. -/
theorem mem_children_first {e first : Expr} {c : Bool} {others : List Node}
    (chained : e.chained? = if c then some first else none)
    (parts : e.parts = (if c then [] else [.expr first]) ++ others) {y : Node} :
    y ∈ (Node.expr e).children ↔ y = .expr first ∨ y ∈ others := by
  show y ∈ (e.chained?.map Node.expr).toList ++ e.parts ↔ _
  rw [chained, parts]
  cases c <;> simp

theorem mem_children_binary {op : BinaryOp} {left right : Expr} {y : Node} :
    y ∈ (Node.expr (.binary op left right)).children ↔ y = .expr left ∨ y ∈ [Node.expr right] :=
  mem_children_first rfl rfl

theorem mem_children_member {first : Expr} {property : String} {optional : Bool} {y : Node} :
    y ∈ (Node.expr (.member first property optional)).children ↔ y = .expr first ∨ y ∈ ([] : List Node) :=
  mem_children_first rfl (List.append_nil _).symm

theorem mem_children_index {first key : Expr} {optional : Bool} {y : Node} :
    y ∈ (Node.expr (.index first key optional)).children ↔ y = .expr first ∨ y ∈ [Node.expr key] :=
  mem_children_first rfl rfl

theorem mem_children_call {first : Expr} {args : List Expr} {optional : Bool} {y : Node} :
    y ∈ (Node.expr (.call first args optional)).children ↔ y = .expr first ∨ y ∈ args.map Node.expr :=
  mem_children_first rfl rfl

/-! ## Sizes -/

/-- The size of the tree below the node. -/
noncomputable def size : Node → Nat
  | expr e => sizeOf e
  | pattern p => sizeOf p
  | stmt s => sizeOf s

end Node

section Sizes

variable {y : Node}

theorem Expr.size_of_optionNodes {e : Option Expr} (mem : y ∈ Expr.optionNodes e) : y.size < sizeOf e := by
  cases e with
  | none => cases mem
  | some e =>
    cases List.mem_singleton.1 mem
    simp [Node.size]

theorem Pattern.size_of_optionNodes {rest : Option Pattern} (mem : y ∈ Pattern.optionNodes rest) :
    y.size < sizeOf rest := by
  cases rest with
  | none => cases mem
  | some p =>
    cases List.mem_singleton.1 mem
    simp [Node.size]

/-- The nodes of items that stand in a list. -/
theorem size_of_flatMap {α : Type} [SizeOf α] {items : List α} {nodes : α → List Node}
    (each : ∀ a ∈ items, ∀ y ∈ nodes a, y.size < sizeOf a) (mem : y ∈ items.flatMap nodes) :
    y.size < sizeOf items := by
  obtain ⟨a, inside, mem⟩ := List.mem_flatMap.1 mem
  exact Nat.lt_trans (each a inside y mem) (List.sizeOf_lt_of_mem inside)

/-- Nodes that stand in a list themselves. -/
theorem size_of_map {α : Type} [SizeOf α] {items : List α} {node : α → Node}
    (same : ∀ a, (node a).size = sizeOf a) (mem : y ∈ items.map node) : y.size < sizeOf items := by
  obtain ⟨a, inside, rfl⟩ := List.mem_map.1 mem
  exact same a ▸ List.sizeOf_lt_of_mem inside

theorem TemplatePart.size_of_nodes {p : TemplatePart} (mem : y ∈ p.nodes) : y.size < sizeOf p := by
  cases p with
  | text => cases mem
  | hole e =>
    cases List.mem_singleton.1 mem
    simp [Node.size]

theorem Property.size_of_nodes {p : Property} (mem : y ∈ p.nodes) : y.size < sizeOf p := by
  cases p with
  | named key value =>
    cases List.mem_singleton.1 mem
    simp only [Node.size, Property.named.sizeOf_spec]
    omega
  | spread value =>
    cases List.mem_singleton.1 mem
    simp [Node.size]
  | computed key value =>
    simp only [Property.nodes, List.mem_cons, List.not_mem_nil, or_false] at mem
    rcases mem with rfl | rfl <;> simp only [Node.size, Property.computed.sizeOf_spec] <;> omega

theorem Element.size_of_nodes {e : Element} (mem : y ∈ e.nodes) : y.size < sizeOf e := by
  obtain ⟨target, default⟩ := e
  rw [Element.mk.sizeOf_spec]
  rcases List.mem_cons.1 mem with rfl | mem
  · simp only [Node.size]
    omega
  · have below := Expr.size_of_optionNodes mem
    omega

theorem Field.size_of_nodes {f : Field} (mem : y ∈ f.nodes) : y.size < sizeOf f := by
  obtain ⟨key, target, default⟩ := f
  rw [Field.mk.sizeOf_spec]
  rcases List.mem_cons.1 mem with rfl | mem
  · simp only [Node.size]
    omega
  · have below := Expr.size_of_optionNodes mem
    omega

theorem Declarator.size_of_nodes {d : Declarator} (mem : y ∈ d.nodes) : y.size < sizeOf d := by
  obtain ⟨pattern, init⟩ := d
  rw [Declarator.mk.sizeOf_spec]
  rcases List.mem_cons.1 mem with rfl | mem
  · simp only [Node.size]
    omega
  · have below := Expr.size_of_optionNodes mem
    omega

theorem Body.size_of_nodes {b : Body} (mem : y ∈ b.nodes) : y.size < sizeOf b := by
  cases b with
  | expr e =>
    cases List.mem_singleton.1 mem
    simp [Node.size]
  | block statements =>
    have below := size_of_map (fun _ => rfl) mem
    rw [Body.block.sizeOf_spec]
    omega

theorem Function.size_of_nodes {f : Function} (mem : y ∈ f.nodes) : y.size < sizeOf f := by
  obtain ⟨params, rest, body⟩ := f
  rw [Function.mk.sizeOf_spec]
  rcases List.mem_append.1 mem with mem | mem
  · rcases List.mem_append.1 mem with mem | mem
    · have below := size_of_flatMap (fun _ _ _ => Element.size_of_nodes) mem
      omega
    · have below := Pattern.size_of_optionNodes mem
      omega
  · have below := Body.size_of_nodes mem
    omega

theorem ForInit.size_of_nodes {init : ForInit} (mem : y ∈ init.nodes) : y.size < sizeOf init := by
  cases init with
  | none => cases mem
  | declare kind declarators =>
    have below := size_of_flatMap (fun _ _ _ => Declarator.size_of_nodes) mem
    rw [ForInit.declare.sizeOf_spec]
    omega
  | expr e =>
    cases List.mem_singleton.1 mem
    simp [Node.size]

theorem Case.size_of_nodes {c : Case} (mem : y ∈ c.nodes) : y.size < sizeOf c := by
  obtain ⟨test, body⟩ := c
  rw [Case.mk.sizeOf_spec]
  rcases List.mem_append.1 mem with mem | mem
  · have below := Expr.size_of_optionNodes mem
    omega
  · have below := size_of_map (fun _ => rfl) mem
    omega

/-- The parts of a pattern are smaller than it is. -/
theorem Pattern.size_of_parts {p : Pattern} (mem : y ∈ p.parts) : y.size < sizeOf p := by
  cases p with
  | name => cases mem
  | array elements rest =>
    rw [Pattern.array.sizeOf_spec]
    rcases List.mem_append.1 mem with mem | mem
    · obtain ⟨e, inside, mem⟩ := List.mem_flatMap.1 mem
      have listed := List.sizeOf_lt_of_mem (List.reduceOption_mem_iff.1 inside)
      have below := Element.size_of_nodes mem
      simp only [Option.some.sizeOf_spec] at listed
      omega
    · have below := Pattern.size_of_optionNodes mem
      omega
  | object fields rest =>
    have below := size_of_flatMap (fun _ _ _ => Field.size_of_nodes) mem
    rw [Pattern.object.sizeOf_spec]
    omega

/-- The children of an expression are smaller, so what is proved of all nodes may recur on them. -/
theorem Expr.size_of_children {e : Expr} (mem : y ∈ (Node.expr e).children) : y.size < sizeOf e := by
  cases e with
  | name | literal => cases mem
  | template parts =>
    have below := size_of_flatMap (fun _ _ _ => TemplatePart.size_of_nodes) mem
    rw [Expr.template.sizeOf_spec]
    omega
  -- one case for each way of being made: a single part, two parts, or parts in a list
  | unary | update | spread =>
    cases List.mem_singleton.1 mem
    simp only [Node.size, Expr.unary.sizeOf_spec, Expr.update.sizeOf_spec, Expr.spread.sizeOf_spec]
    omega
  | binary op left right =>
    rw [Expr.binary.sizeOf_spec]
    rcases Node.mem_children_binary.1 mem with rfl | mem
    · simp only [Node.size]
      omega
    · cases List.mem_singleton.1 mem
      simp only [Node.size]
      omega
  | conditional test consequent alternate =>
    have mem : y ∈ [Node.expr test, .expr consequent, .expr alternate] := mem
    rw [Expr.conditional.sizeOf_spec]
    simp only [List.mem_cons, List.not_mem_nil, or_false] at mem
    rcases mem with rfl | rfl | rfl <;> simp only [Node.size] <;> omega
  | sequence items =>
    have below := size_of_map (fun _ => rfl) mem
    rw [Expr.sequence.sizeOf_spec]
    omega
  | array items =>
    have below := size_of_map (fun _ => rfl) mem
    rw [Expr.array.sizeOf_spec]
    omega
  | object properties =>
    have below := size_of_flatMap (fun _ _ _ => Property.size_of_nodes) mem
    rw [Expr.object.sizeOf_spec]
    omega
  | member first property optional =>
    rw [Expr.member.sizeOf_spec]
    rcases Node.mem_children_member.1 mem with rfl | mem
    · simp only [Node.size]
      omega
    · cases mem
  | index first key optional =>
    rw [Expr.index.sizeOf_spec]
    rcases Node.mem_children_index.1 mem with rfl | mem
    · simp only [Node.size]
      omega
    · cases List.mem_singleton.1 mem
      simp only [Node.size]
      omega
  | call first args optional =>
    rw [Expr.call.sizeOf_spec]
    rcases Node.mem_children_call.1 mem with rfl | mem
    · simp only [Node.size]
      omega
    · have below := size_of_map (fun _ => rfl) mem
      omega
  | assign op target value =>
    have mem : y ∈ [Node.expr target, .expr value] := mem
    rw [Expr.assign.sizeOf_spec]
    simp only [List.mem_cons, List.not_mem_nil, or_false] at mem
    rcases mem with rfl | rfl <;> simp only [Node.size] <;> omega
  | function definition =>
    have below := Function.size_of_nodes mem
    rw [Expr.function.sizeOf_spec]
    omega

/-- So are the parts of a statement. -/
theorem Stmt.size_of_parts {s : Stmt} (mem : y ∈ s.parts) : y.size < sizeOf s := by
  cases s with
  | empty | brk | cont => cases mem
  | expr | throw =>
    cases List.mem_singleton.1 mem
    simp only [Node.size, Stmt.expr.sizeOf_spec, Stmt.throw.sizeOf_spec]
    omega
  | ret e =>
    have below := Expr.size_of_optionNodes mem
    rw [Stmt.ret.sizeOf_spec]
    omega
  | block statements =>
    have below := size_of_map (fun _ => rfl) mem
    rw [Stmt.block.sizeOf_spec]
    omega
  | declare kind declarators =>
    have below := size_of_flatMap (fun _ _ _ => Declarator.size_of_nodes) mem
    rw [Stmt.declare.sizeOf_spec]
    omega
  | branch test consequent alternate =>
    rw [Stmt.branch.sizeOf_spec]
    rcases List.mem_cons.1 mem with rfl | mem
    · simp only [Node.size]
      omega
    · rcases List.mem_cons.1 mem with rfl | mem
      · simp only [Node.size]
        omega
      · cases alternate with
        | none => cases mem
        | some s =>
          cases List.mem_singleton.1 mem
          simp only [Node.size, Option.some.sizeOf_spec]
          omega
  | whileLoop test body | doWhile body test =>
    have mem : y ∈ [Node.expr test, .stmt body] := mem
    simp only [Stmt.whileLoop.sizeOf_spec, Stmt.doWhile.sizeOf_spec]
    simp only [List.mem_cons, List.not_mem_nil, or_false] at mem
    rcases mem with rfl | rfl <;> simp only [Node.size] <;> omega
  | forLoop init test update body =>
    rw [Stmt.forLoop.sizeOf_spec]
    simp only [Stmt.parts, List.mem_append, List.mem_singleton] at mem
    rcases mem with mem | mem | mem | rfl
    · have below := ForInit.size_of_nodes mem
      omega
    · have below := Expr.size_of_optionNodes mem
      omega
    · have below := Expr.size_of_optionNodes mem
      omega
    · simp only [Node.size]
      omega
  | forEach visits kind pattern object body =>
    have mem : y ∈ [Node.pattern pattern, .expr object, .stmt body] := mem
    rw [Stmt.forEach.sizeOf_spec]
    simp only [List.mem_cons, List.not_mem_nil, or_false] at mem
    rcases mem with rfl | rfl | rfl <;> simp only [Node.size] <;> omega
  | attempt statements handler finalizer =>
    rw [Stmt.attempt.sizeOf_spec]
    simp only [Stmt.parts, List.mem_append] at mem
    rcases mem with mem | mem | mem
    · have below := size_of_map (fun _ => rfl) mem
      omega
    · cases handler with
      | none => cases mem
      | some handler =>
        obtain ⟨param, body⟩ := handler
        rw [show (some (Handler.mk param body)).toList.flatMap Handler.body = body from List.append_nil _] at mem
        have below := size_of_map (fun _ => rfl) mem
        simp only [Option.some.sizeOf_spec, Handler.mk.sizeOf_spec]
        omega
    · cases finalizer with
      | none => cases mem
      | some statements =>
        have below := size_of_map (fun _ => rfl) (show y ∈ statements.map Node.stmt from mem)
        simp only [Option.some.sizeOf_spec]
        omega
  | switch discriminant cases =>
    rw [Stmt.switch.sizeOf_spec]
    rcases List.mem_cons.1 mem with rfl | mem
    · simp only [Node.size]
      omega
    · have below := size_of_flatMap (fun _ _ _ => Case.size_of_nodes) mem
      omega
  | function name definition =>
    have below := Function.size_of_nodes mem
    rw [Stmt.function.sizeOf_spec]
    omega

/-- Parts are smaller than what they are parts of. -/
theorem Node.size_lt_of_mem_children {x : Node} (mem : y ∈ x.children) : y.size < x.size := by
  cases x with
  | expr e => exact Expr.size_of_children mem
  | pattern p => exact Pattern.size_of_parts mem
  | stmt s => exact Stmt.size_of_parts mem

end Sizes

/-! ## Rules -/

/-- What a rule says of the node itself. -/
def NodeRule.node (R : NodeRule) : Node → Prop
  | .expr e => R.expr e
  | .pattern p => R.pattern p
  | .stmt s => R.stmt s

/-- Every node of the tree obeys the rule. -/
def Node.Obeys (R : NodeRule) : Node → Prop
  | expr e => e.Obeys R
  | pattern p => p.Obeys R
  | stmt s => s.Obeys R

section Rules

variable {R : NodeRule}

theorem forall_mem_flatMap {α : Type} {items : List α} {nodes : α → List Node} {P : Node → Prop} :
    (∀ y ∈ items.flatMap nodes, P y) ↔ ∀ a ∈ items, ∀ y ∈ nodes a, P y := by
  simp only [List.mem_flatMap, forall_exists_index, and_imp]
  exact ⟨fun all a inside y mem => all y a inside mem, fun each y a inside mem => each a inside y mem⟩

theorem Expr.optionObeys_iff {e : Option Expr} : Expr.OptionObeys R e ↔ ∀ y ∈ Expr.optionNodes e, y.Obeys R := by
  cases e <;> simp [Expr.OptionObeys, Expr.optionNodes, Node.Obeys]

theorem Pattern.optionObeys_iff {rest : Option Pattern} :
    Pattern.OptionObeys R rest ↔ ∀ y ∈ Pattern.optionNodes rest, y.Obeys R := by
  cases rest <;> simp [Pattern.OptionObeys, Pattern.optionNodes, Node.Obeys]

theorem Expr.allObey_iff_nodes {items : List Expr} :
    Expr.AllObey R items ↔ ∀ y ∈ items.map Node.expr, y.Obeys R := by
  simp [Expr.allObey_iff, Node.Obeys]

theorem Stmt.allObey_iff_nodes {statements : List Stmt} :
    Stmt.AllObey R statements ↔ ∀ y ∈ statements.map Node.stmt, y.Obeys R := by
  simp [Stmt.allObey_iff, Node.Obeys]

theorem TemplatePart.allObey_iff_nodes {parts : List TemplatePart} :
    TemplatePart.AllObey R parts ↔ ∀ y ∈ parts.flatMap TemplatePart.nodes, y.Obeys R := by
  rw [TemplatePart.allObey_iff, forall_mem_flatMap]
  refine ⟨fun holes part inside => ?_, fun each e inside => each _ inside (.expr e) (List.mem_singleton.2 rfl)⟩
  cases part with
  | text => exact List.forall_mem_nil _
  | hole e => simpa [TemplatePart.nodes, Node.Obeys] using holes e inside

theorem Property.obeys_iff {p : Property} : p.Obeys R ↔ ∀ y ∈ p.nodes, y.Obeys R := by
  cases p <;> simp [Property.Obeys, Property.nodes, Node.Obeys]

theorem Element.obeys_iff {e : Element} : e.Obeys R ↔ ∀ y ∈ e.nodes, y.Obeys R := by
  obtain ⟨target, default⟩ := e
  simp only [Element.Obeys, Element.nodes, List.forall_mem_cons, Expr.optionObeys_iff, Node.Obeys]

theorem Field.obeys_iff {f : Field} : f.Obeys R ↔ ∀ y ∈ f.nodes, y.Obeys R := by
  obtain ⟨key, target, default⟩ := f
  simp only [Field.Obeys, Field.nodes, List.forall_mem_cons, Expr.optionObeys_iff, Node.Obeys]

theorem Declarator.obeys_iff {d : Declarator} : d.Obeys R ↔ ∀ y ∈ d.nodes, y.Obeys R := by
  obtain ⟨pattern, init⟩ := d
  simp only [Declarator.Obeys, Declarator.nodes, List.forall_mem_cons, Expr.optionObeys_iff, Node.Obeys]

theorem Declarator.allObey_iff_nodes {declarators : List Declarator} :
    Declarator.AllObey R declarators ↔ ∀ y ∈ declarators.flatMap Declarator.nodes, y.Obeys R := by
  simp only [Declarator.allObey_iff, Declarator.obeys_iff, forall_mem_flatMap]

theorem Body.obeys_iff {b : Body} : b.Obeys R ↔ ∀ y ∈ b.nodes, y.Obeys R := by
  cases b with
  | expr e => simp [Body.Obeys, Body.nodes, Node.Obeys]
  | block statements => exact Stmt.allObey_iff_nodes

theorem Function.obeys_iff {f : Function} : f.Obeys R ↔ ∀ y ∈ f.nodes, y.Obeys R := by
  obtain ⟨params, rest, body⟩ := f
  simp only [Function.Obeys, Function.nodes, List.forall_mem_append, forall_mem_flatMap, Element.allObey_iff,
    Element.obeys_iff, Pattern.optionObeys_iff, Body.obeys_iff, and_assoc]

theorem ForInit.obeys_iff {init : ForInit} : init.Obeys R ↔ ∀ y ∈ init.nodes, y.Obeys R := by
  cases init with
  | none => exact iff_of_true trivial (List.forall_mem_nil _)
  | declare kind declarators => exact Declarator.allObey_iff_nodes
  | expr e => simp [ForInit.Obeys, ForInit.nodes, Node.Obeys]

theorem Case.obeys_iff {c : Case} : c.Obeys R ↔ ∀ y ∈ c.nodes, y.Obeys R := by
  obtain ⟨test, body⟩ := c
  simp only [Case.Obeys, Case.nodes, List.forall_mem_append, Expr.optionObeys_iff, Stmt.allObey_iff_nodes]

/-- An expression obeys a rule if it keeps it itself and all its children obey. -/
theorem Expr.obeys_iff {e : Expr} : e.Obeys R ↔ R.expr e ∧ ∀ y ∈ (Node.expr e).children, y.Obeys R := by
  cases e with
  | name | literal => exact (and_iff_left (List.forall_mem_nil _)).symm
  | template parts => exact and_congr_right' TemplatePart.allObey_iff_nodes
  | unary | update | spread =>
    simp [Node.children, Node.chained?, Node.parts, Expr.chained?, Expr.parts, Expr.Obeys, Node.Obeys]
  | binary op left right => simp [Node.mem_children_binary, Expr.Obeys, Node.Obeys]
  | conditional test consequent alternate =>
    simp [Node.children, Node.chained?, Node.parts, Expr.chained?, Expr.parts, Expr.Obeys, Node.Obeys]
  | sequence items | array items => exact and_congr_right' Expr.allObey_iff_nodes
  | object properties =>
    refine and_congr_right' ?_
    simp only [Property.allObey_iff, Property.obeys_iff]
    exact forall_mem_flatMap.symm
  | member => simp [Node.mem_children_member, Expr.Obeys, Node.Obeys]
  | index => simp [Node.mem_children_index, Expr.Obeys, Node.Obeys]
  | call first args optional =>
    simp only [Node.mem_children_call, Expr.Obeys, Expr.allObey_iff_nodes, forall_eq_or_imp]
    rfl
  | assign op target value =>
    simp [Node.children, Node.chained?, Node.parts, Expr.chained?, Expr.parts, Expr.Obeys, Node.Obeys]
  | function definition => exact and_congr_right' Function.obeys_iff

theorem Pattern.obeys_iff {p : Pattern} : p.Obeys R ↔ R.pattern p ∧ ∀ y ∈ p.parts, y.Obeys R := by
  cases p with
  | name => exact (and_iff_left (List.forall_mem_nil _)).symm
  | array elements rest =>
    refine and_congr_right' ?_
    simp only [Pattern.parts, List.forall_mem_append, forall_mem_flatMap, Pattern.elementsObey_iff,
      Element.obeys_iff, Pattern.optionObeys_iff, List.reduceOption_mem_iff]
  | object fields rest =>
    refine and_congr_right' ?_
    simp only [Pattern.parts, forall_mem_flatMap, Field.allObey_iff, Field.obeys_iff]

/-- So it is with statements and their parts. -/
theorem Stmt.obeys_iff {s : Stmt} : s.Obeys R ↔ R.stmt s ∧ ∀ y ∈ s.parts, y.Obeys R := by
  cases s with
  | empty | brk | cont => exact (and_iff_left (List.forall_mem_nil _)).symm
  | expr | throw => simp [Stmt.parts, Stmt.Obeys, Node.Obeys]
  | ret e => exact and_congr_right' Expr.optionObeys_iff
  | block statements => exact and_congr_right' Stmt.allObey_iff_nodes
  | declare kind declarators => exact and_congr_right' Declarator.allObey_iff_nodes
  | branch test consequent alternate =>
    cases alternate <;> simp [Stmt.parts, Stmt.Obeys, Stmt.OptionObeys, Node.Obeys]
  | whileLoop | doWhile => simp [Stmt.parts, Stmt.Obeys, Node.Obeys]
  | forLoop init test update body =>
    simp only [Stmt.parts, Stmt.Obeys, List.forall_mem_append, List.forall_mem_singleton, ForInit.obeys_iff,
      Expr.optionObeys_iff]
    rfl
  | forEach => simp [Stmt.parts, Stmt.Obeys, Node.Obeys]
  | attempt statements handler finalizer =>
    have handled : Handler.OptionObeys R handler ↔
        ∀ y ∈ (handler.toList.flatMap Handler.body).map Node.stmt, y.Obeys R := by
      cases handler with
      | none => exact iff_of_true trivial (List.forall_mem_nil _)
      | some handler =>
        obtain ⟨param, body⟩ := handler
        rw [show (some (Handler.mk param body)).toList.flatMap Handler.body = body from List.append_nil _]
        exact Stmt.allObey_iff_nodes
    have final : Stmt.FinalizerObeys R finalizer ↔ ∀ y ∈ (finalizer.getD []).map Node.stmt, y.Obeys R := by
      cases finalizer with
      | none => exact iff_of_true trivial (List.forall_mem_nil _)
      | some statements => exact Stmt.allObey_iff_nodes
    simp only [Stmt.parts, Stmt.Obeys, List.forall_mem_append, Stmt.allObey_iff_nodes, handled, final]
  | switch discriminant cases =>
    simp only [Stmt.parts, Stmt.Obeys, List.forall_mem_cons, forall_mem_flatMap, Case.allObey_iff, Case.obeys_iff]
    rfl
  | function name definition => exact and_congr_right' Function.obeys_iff

/-- A tree obeys a rule if its node does and all its parts obey it. -/
theorem Node.obeys_iff {x : Node} : x.Obeys R ↔ R.node x ∧ ∀ y ∈ x.children, y.Obeys R := by
  cases x with
  | expr e => exact Expr.obeys_iff
  | pattern p => exact Pattern.obeys_iff
  | stmt s => exact Stmt.obeys_iff

theorem NodeRule.Le.node {R' : NodeRule} (le : R.Le R') {x : Node} (holds : R.node x) : R'.node x := by
  cases x with
  | expr e => exact le.expr e holds
  | pattern p => exact le.pattern p holds
  | stmt s => exact le.stmt s holds

/-- What obeys a rule obeys all that ask for less. -/
theorem Node.Obeys.mono {R' : NodeRule} (le : R.Le R') {x : Node} (obeys : x.Obeys R) : x.Obeys R' := by
  induction h : x.size using Nat.strongRecOn generalizing x with
  | _ n ih =>
    obtain ⟨own, parts⟩ := Node.obeys_iff.1 obeys
    refine Node.obeys_iff.2 ⟨le.node own, fun y mem => ?_⟩
    exact ih y.size (h ▸ Node.size_lt_of_mem_children mem) (parts y mem) rfl

theorem Stmt.AllObey.mono {R' : NodeRule} (le : R.Le R') {statements : List Stmt} (obeys : Stmt.AllObey R statements) :
    Stmt.AllObey R' statements :=
  Stmt.allObey_iff_nodes.2 fun y mem => (Stmt.allObey_iff_nodes.1 obeys y mem).mono le

end Rules

end BindScript
