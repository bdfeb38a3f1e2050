import Mathlib.Data.List.Nodup
import BindScript.Evaluation.Declaration

/-!
# The scope rules of syntax trees

In each scope of a tree that keeps the rules (`WellScoped`), no name is introduced twice by `let`, `const`,
function declarations, parameters and `catch`; and no declared name, not even one of `var`, starts with a
dollar sign. Scopes are those of programs, blocks, loop heads, functions, `catch` and `switch`. A declaration
that is the bare body of a construct without a scope of its own belongs to the scope around it
(`Stmt.scopeNames`), and one that is the bare body of a loop with a head belongs to the head.
-/

namespace BindScript

/-- No name among them starts with a dollar sign. -/
def Unreserved (names : List String) : Prop :=
  ∀ name ∈ names, name.toList.head? ≠ some '$'

theorem unreserved_append {names more : List String} :
    Unreserved (names ++ more) ↔ Unreserved names ∧ Unreserved more :=
  List.forall_mem_append

/-- The names that a declaration introduces into its scope; those of `var` belong to the whole function. -/
def DeclKind.scopeNames (kind : DeclKind) (names : List String) : List String :=
  if kind = .var then [] else names

mutual

/-- The names that a statement introduces into the scope around it. -/
def Stmt.scopeNames : Stmt → List String
  | .declare kind declarators => kind.scopeNames (Declarator.boundNames declarators)
  | .function name _ => [name]
  | .branch _ consequent alternate => consequent.scopeNames ++ Stmt.scopeNamesOption alternate
  | .whileLoop _ body => body.scopeNames
  | .doWhile body _ => body.scopeNames
  | _ => []

/-- The names that a statement introduces if there is one. -/
def Stmt.scopeNamesOption : Option Stmt → List String
  | none => []
  | some s => s.scopeNames

end

/-- The names that statements in a row introduce. -/
def Stmt.scopeNamesList (statements : List Stmt) : List String :=
  statements.flatMap Stmt.scopeNames

/-- The names that the first part of a counting loop introduces. -/
def ForInit.scopeNames : ForInit → List String
  | .declare kind declarators => kind.scopeNames (Declarator.boundNames declarators)
  | _ => []

/-- The names that the variable of a loop over a collection introduces. -/
def Pattern.headNames (kind : Option DeclKind) (pattern : Pattern) : List String :=
  match kind with
  | some kind => kind.scopeNames pattern.boundNames
  | none => []

/-- The names of the parameters. -/
def Function.paramNames (params : List Element) (rest : Option Pattern) : List String :=
  params.flatMap (·.target.boundNames) ++ Pattern.restNames rest

/-- The names that the statements under the labels of a `switch` introduce. -/
def Case.scopeNames (cases : List Case) : List String :=
  cases.flatMap fun c => Stmt.scopeNamesList c.body

mutual

/-- The scopes in an expression keep the rules. -/
def Expr.WellScoped : Expr → Prop
  | .name _ | .literal _ => True
  | .template parts => TemplatePart.AllWellScoped parts
  | .unary _ operand | .update _ _ operand | .spread operand | .member operand _ _ => operand.WellScoped
  | .binary _ left right | .index left right _ | .assign _ left right => left.WellScoped ∧ right.WellScoped
  | .conditional test consequent alternate =>
    test.WellScoped ∧ consequent.WellScoped ∧ alternate.WellScoped
  | .sequence items | .array items => Expr.AllWellScoped items
  | .object properties => Property.AllWellScoped properties
  | .call callee args _ => callee.WellScoped ∧ Expr.AllWellScoped args
  | .function definition => definition.WellScoped

def Expr.AllWellScoped : List Expr → Prop
  | [] => True
  | e :: rest => e.WellScoped ∧ Expr.AllWellScoped rest

def Expr.OptionWellScoped : Option Expr → Prop
  | none => True
  | some e => e.WellScoped

def TemplatePart.AllWellScoped : List TemplatePart → Prop
  | [] => True
  | .text _ :: rest => TemplatePart.AllWellScoped rest
  | .hole e :: rest => e.WellScoped ∧ TemplatePart.AllWellScoped rest

def Property.WellScoped : Property → Prop
  | .named _ value | .spread value => value.WellScoped
  | .computed key value => key.WellScoped ∧ value.WellScoped

def Property.AllWellScoped : List Property → Prop
  | [] => True
  | p :: rest => p.WellScoped ∧ Property.AllWellScoped rest

/-- The parameters and the statements of the body make one scope. -/
def Function.WellScoped : Function → Prop
  | .mk params rest body =>
    Unreserved (Function.paramNames params rest) ∧ Element.AllWellScoped params ∧
      Pattern.OptionWellScoped rest ∧ body.WellScoped (Function.paramNames params rest)

def Body.WellScoped (names : List String) : Body → Prop
  | .expr e => names.Nodup ∧ e.WellScoped
  | .block statements => (names ++ Stmt.scopeNamesList statements).Nodup ∧ Stmt.AllWellScoped statements

def Element.WellScoped : Element → Prop
  | .mk target default => target.WellScoped ∧ Expr.OptionWellScoped default

def Element.AllWellScoped : List Element → Prop
  | [] => True
  | e :: rest => e.WellScoped ∧ Element.AllWellScoped rest

/-- The scopes in the defaults of a pattern keep the rules. -/
def Pattern.WellScoped : Pattern → Prop
  | .name _ => True
  | .array elements rest => Pattern.ElementsWellScoped elements ∧ Pattern.OptionWellScoped rest
  | .object fields _ => Field.AllWellScoped fields

def Pattern.OptionWellScoped : Option Pattern → Prop
  | none => True
  | some p => p.WellScoped

def Pattern.ElementsWellScoped : List (Option Element) → Prop
  | [] => True
  | none :: rest => Pattern.ElementsWellScoped rest
  | some e :: rest => e.WellScoped ∧ Pattern.ElementsWellScoped rest

def Field.WellScoped : Field → Prop
  | .mk _ target default => target.WellScoped ∧ Expr.OptionWellScoped default

def Field.AllWellScoped : List Field → Prop
  | [] => True
  | f :: rest => f.WellScoped ∧ Field.AllWellScoped rest

/-- The scopes in a statement keep the rules, and it declares no reserved name. -/
def Stmt.WellScoped : Stmt → Prop
  | .empty | .brk | .cont => True
  | .expr e | .throw e => e.WellScoped
  | .ret e => Expr.OptionWellScoped e
  | .block statements => (Stmt.scopeNamesList statements).Nodup ∧ Stmt.AllWellScoped statements
  | .declare _ declarators =>
    Unreserved (Declarator.boundNames declarators) ∧ Declarator.AllWellScoped declarators
  | .branch test consequent alternate =>
    test.WellScoped ∧ consequent.WellScoped ∧ Stmt.OptionWellScoped alternate
  | .whileLoop test body | .doWhile body test => test.WellScoped ∧ body.WellScoped
  | .forLoop init test update body =>
    (init.scopeNames ++ body.scopeNames).Nodup ∧ init.WellScoped ∧ Expr.OptionWellScoped test ∧
      Expr.OptionWellScoped update ∧ body.WellScoped
  | .forEach _ kind pattern object body =>
    (pattern.headNames kind ++ body.scopeNames).Nodup ∧
      (kind.isSome = true → Unreserved pattern.boundNames) ∧ pattern.WellScoped ∧ object.WellScoped ∧
      body.WellScoped
  | .attempt statements handler finalizer =>
    ((Stmt.scopeNamesList statements).Nodup ∧ Stmt.AllWellScoped statements) ∧
      Handler.OptionWellScoped handler ∧ Stmt.FinalizerWellScoped finalizer
  | .switch discriminant cases =>
    discriminant.WellScoped ∧ (Case.scopeNames cases).Nodup ∧ Case.AllWellScoped cases
  | .function name definition => Unreserved [name] ∧ definition.WellScoped

def Stmt.AllWellScoped : List Stmt → Prop
  | [] => True
  | s :: rest => s.WellScoped ∧ Stmt.AllWellScoped rest

def Stmt.OptionWellScoped : Option Stmt → Prop
  | none => True
  | some s => s.WellScoped

def Stmt.FinalizerWellScoped : Option (List Stmt) → Prop
  | none => True
  | some statements => (Stmt.scopeNamesList statements).Nodup ∧ Stmt.AllWellScoped statements

def Declarator.WellScoped : Declarator → Prop
  | .mk pattern init => pattern.WellScoped ∧ Expr.OptionWellScoped init

def Declarator.AllWellScoped : List Declarator → Prop
  | [] => True
  | d :: rest => d.WellScoped ∧ Declarator.AllWellScoped rest

def ForInit.WellScoped : ForInit → Prop
  | .none => True
  | .declare _ declarators =>
    Unreserved (Declarator.boundNames declarators) ∧ Declarator.AllWellScoped declarators
  | .expr e => e.WellScoped

/-- The parameter and the statements of a handler make one scope. -/
def Handler.WellScoped : Handler → Prop
  | .mk param body =>
    (param.toList ++ Stmt.scopeNamesList body).Nodup ∧ Unreserved param.toList ∧ Stmt.AllWellScoped body

def Handler.OptionWellScoped : Option Handler → Prop
  | none => True
  | some handler => handler.WellScoped

def Case.WellScoped : Case → Prop
  | .mk test body => Expr.OptionWellScoped test ∧ Stmt.AllWellScoped body

def Case.AllWellScoped : List Case → Prop
  | [] => True
  | c :: rest => c.WellScoped ∧ Case.AllWellScoped rest

end

/-- Statements that make a scope of their own, such as those of a block or a program. -/
def Stmt.ScopeWellScoped (statements : List Stmt) : Prop :=
  (Stmt.scopeNamesList statements).Nodup ∧ Stmt.AllWellScoped statements

/-! ## Lists of trees -/

theorem Expr.allWellScoped_iff {items : List Expr} :
    Expr.AllWellScoped items ↔ ∀ e ∈ items, e.WellScoped := by
  induction items with
  | nil => simp [Expr.AllWellScoped]
  | cons e rest ih => simp [Expr.AllWellScoped, ih]

theorem Property.allWellScoped_iff {properties : List Property} :
    Property.AllWellScoped properties ↔ ∀ p ∈ properties, p.WellScoped := by
  induction properties with
  | nil => simp [Property.AllWellScoped]
  | cons p rest ih => simp [Property.AllWellScoped, ih]

theorem Element.allWellScoped_iff {elements : List Element} :
    Element.AllWellScoped elements ↔ ∀ e ∈ elements, e.WellScoped := by
  induction elements with
  | nil => simp [Element.AllWellScoped]
  | cons e rest ih => simp [Element.AllWellScoped, ih]

theorem Pattern.elementsWellScoped_iff {elements : List (Option Element)} :
    Pattern.ElementsWellScoped elements ↔ ∀ e, some e ∈ elements → e.WellScoped := by
  induction elements with
  | nil => simp [Pattern.ElementsWellScoped]
  | cons e rest ih => cases e <;> simp [Pattern.ElementsWellScoped, ih]

theorem Field.allWellScoped_iff {fields : List Field} :
    Field.AllWellScoped fields ↔ ∀ f ∈ fields, f.WellScoped := by
  induction fields with
  | nil => simp [Field.AllWellScoped]
  | cons f rest ih => simp [Field.AllWellScoped, ih]

theorem Stmt.allWellScoped_iff {statements : List Stmt} :
    Stmt.AllWellScoped statements ↔ ∀ s ∈ statements, s.WellScoped := by
  induction statements with
  | nil => simp [Stmt.AllWellScoped]
  | cons s rest ih => simp [Stmt.AllWellScoped, ih]

theorem Declarator.allWellScoped_iff {declarators : List Declarator} :
    Declarator.AllWellScoped declarators ↔ ∀ d ∈ declarators, d.WellScoped := by
  induction declarators with
  | nil => simp [Declarator.AllWellScoped]
  | cons d rest ih => simp [Declarator.AllWellScoped, ih]

theorem Case.allWellScoped_iff {cases : List Case} :
    Case.AllWellScoped cases ↔ ∀ c ∈ cases, c.WellScoped := by
  induction cases with
  | nil => simp [Case.AllWellScoped]
  | cons c rest ih => simp [Case.AllWellScoped, ih]

end BindScript
