import BindScript.Proofs.Syntax.Parts

/-!
# Where statements stand

A statement outside of all functions stands in a list (that of the program, of a block, of a part of a `try` or of
a case), or by itself, as the body of an `if` or of a loop (`Place`). `Stmt.Inside` is one step down, `Stands` any
number of them; both keep the nodes that come before the statement. What such a node reads by name, anywhere below
and inside of functions too, it mentions (`Node.Mentions`).
-/

namespace BindScript

/-! ## Places -/

/-- How a statement stands: in a list of statements, or by itself as a body. -/
inductive Place
  | listed
  | bare

/-- What the head of a loop over a collection writes to if it declares nothing. -/
def headTargets (kind : Option DeclKind) (pattern : Pattern) : List Node :=
  match kind with
  | some _ => []
  | none => pattern.boundNames.map fun name => .expr (.name name)

/-- A statement stands directly inside of another one, after some of its nodes. -/
inductive Stmt.Inside : Stmt → Place → List Node → Stmt → Prop
  | block {earlier later : List Stmt} {s : Stmt} :
      Inside (.block (earlier ++ s :: later)) .listed (earlier.map .stmt) s
  | consequent {test : Expr} {s : Stmt} {alternate : Option Stmt} :
      Inside (.branch test s alternate) .bare [.expr test] s
  | alternate {test : Expr} {consequent s : Stmt} :
      Inside (.branch test consequent (some s)) .bare [.expr test, .stmt consequent] s
  | whileLoop {test : Expr} {s : Stmt} : Inside (.whileLoop test s) .bare [.expr test] s
  | doWhile {test : Expr} {s : Stmt} : Inside (.doWhile s test) .bare [] s
  | forLoop {init : ForInit} {test update : Option Expr} {s : Stmt} :
      Inside (.forLoop init test update s) .bare
        (init.nodes ++ (Expr.optionNodes test ++ Expr.optionNodes update)) s
  | forEach {visits : EachKind} {kind : Option DeclKind} {pattern : Pattern} {object : Expr} {s : Stmt} :
      Inside (.forEach visits kind pattern object s) .bare
        (.expr object :: (headTargets kind pattern ++ [.pattern pattern])) s
  | attempted {earlier later : List Stmt} {s : Stmt} {handler : Option Handler} {finalizer : Option (List Stmt)} :
      Inside (.attempt (earlier ++ s :: later) handler finalizer) .listed (earlier.map .stmt) s
  | handled {statements earlier later : List Stmt} {s : Stmt} {param : Option String}
      {finalizer : Option (List Stmt)} :
      Inside (.attempt statements (some (.mk param (earlier ++ s :: later))) finalizer) .listed
        (statements.map .stmt ++ earlier.map .stmt) s
  | final {statements earlier later : List Stmt} {s : Stmt} {handler : Option Handler} :
      Inside (.attempt statements handler (some (earlier ++ s :: later))) .listed
        (statements.map .stmt ++ ((handler.toList.flatMap Handler.body).map .stmt ++ earlier.map .stmt)) s
  | case {discriminant : Expr} {earlierCases laterCases : List Case} {test : Option Expr}
      {earlier later : List Stmt} {s : Stmt} :
      Inside (.switch discriminant (earlierCases ++ .mk test (earlier ++ s :: later) :: laterCases)) .listed
        (.expr discriminant :: (earlierCases.flatMap Case.nodes ++ (Expr.optionNodes test ++ earlier.map .stmt))) s

namespace Stmt

variable {s : Stmt} {statements : List Stmt} {handler : Option Handler} {finalizer : Option (List Stmt)}

theorem inside_block (mem : s ∈ statements) : ∃ before, Inside (.block statements) .listed before s := by
  obtain ⟨earlier, later, rfl⟩ := List.append_of_mem mem
  exact ⟨_, .block⟩

theorem inside_attempted (mem : s ∈ statements) :
    ∃ before, Inside (.attempt statements handler finalizer) .listed before s := by
  obtain ⟨earlier, later, rfl⟩ := List.append_of_mem mem
  exact ⟨_, .attempted⟩

theorem inside_handled {param : Option String} {body : List Stmt} (mem : s ∈ body) :
    ∃ before, Inside (.attempt statements (some (.mk param body)) finalizer) .listed before s := by
  obtain ⟨earlier, later, rfl⟩ := List.append_of_mem mem
  exact ⟨_, .handled⟩

theorem inside_final {body : List Stmt} (mem : s ∈ body) :
    ∃ before, Inside (.attempt statements handler (some body)) .listed before s := by
  obtain ⟨earlier, later, rfl⟩ := List.append_of_mem mem
  exact ⟨_, .final⟩

theorem inside_case {discriminant : Expr} {cases : List Case} {c : Case} (listed : c ∈ cases) (mem : s ∈ c.body) :
    ∃ before, Inside (.switch discriminant cases) .listed before s := by
  obtain ⟨test, body⟩ := c
  obtain ⟨earlierCases, laterCases, rfl⟩ := List.append_of_mem listed
  obtain ⟨earlier, later, rfl⟩ := List.append_of_mem (show s ∈ body from mem)
  exact ⟨_, .case⟩

end Stmt

/-- A statement stands in a program, outside of all functions and after some nodes. -/
inductive Stands (program : List Stmt) : Place → List Node → Stmt → Prop
  | top {earlier later : List Stmt} {s : Stmt} : program = earlier ++ s :: later →
      Stands program .listed (earlier.map .stmt) s
  | inside {place place' : Place} {before before' : List Node} {s t : Stmt} : Stands program place before s →
      s.Inside place' before' t → Stands program place' (before ++ before') t

/-! ## Names that are mentioned -/

/-- A name is read somewhere in the tree of the node, or assigned to by the head of a loop. -/
inductive Node.Mentions (name : String) : Node → Prop
  | name : Mentions name (.expr (.name name))
  | assigned {visits : EachKind} {pattern : Pattern} {object : Expr} {body : Stmt} : name ∈ pattern.boundNames →
      Mentions name (.stmt (.forEach visits none pattern object body))
  | part {x y : Node} : y ∈ x.children → Mentions name y → Mentions name x

/-- The names that are mentioned by one of some nodes. -/
def Mentioned (nodes : List Node) (name : String) : Prop :=
  ∃ x ∈ nodes, x.Mentions name

/-- The rule that only some names are mentioned. -/
def NodeRule.mentioning (M : String → Prop) : NodeRule where
  expr
    | .name name => M name
    | _ => True
  stmt
    | .forEach _ none pattern _ _ => ∀ name ∈ pattern.boundNames, M name
    | _ => True

/-- A tree obeys the rule if all that its node mentions is among the names. -/
theorem Node.obeys_mentioning {M : String → Prop} {x : Node} (all : ∀ name, x.Mentions name → M name) :
    x.Obeys (.mentioning M) := by
  induction h : x.size using Nat.strongRecOn generalizing x with
  | _ n ih =>
    refine Node.obeys_iff.2 ⟨?_, fun y mem => ?_⟩
    · cases x with
      | expr e =>
        cases e with
        | name name => exact all name .name
        | _ => trivial
      | pattern p => trivial
      | stmt s =>
        cases s with
        | forEach visits kind pattern object body =>
          cases kind with
          | some kind => trivial
          | none => exact fun name mem => all name (.assigned mem)
        | _ => trivial
    · exact ih y.size (h ▸ Node.size_lt_of_mem_children mem) (fun name inner => all name (.part mem inner)) rfl

theorem obeys_mentioned {nodes : List Node} {x : Node} (mem : x ∈ nodes) : x.Obeys (.mentioning (Mentioned nodes)) :=
  Node.obeys_mentioning fun _ mentions => ⟨x, mem, mentions⟩

/-- Every tree obeys the rule if all names are allowed. -/
theorem Node.obeys_anything (x : Node) : x.Obeys (.mentioning fun _ => True) :=
  obeys_mentioning fun _ _ => trivial

end BindScript
