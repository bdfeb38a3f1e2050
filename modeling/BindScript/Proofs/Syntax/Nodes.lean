import BindScript.Ast.Tree

/-!
# Rules for the nodes of syntax trees

What code may look like is often said node by node: no statement is a `try`, no list has more than so many
items, every name is spelled in a certain way. Such a rule is held against single nodes (`NodeRule`), and a tree
obeys it if all its nodes do (`Expr.Obeys` and its family). The bodies and the defaults of functions are parts of
the tree like any others.
-/

namespace BindScript

/-- A rule for single expressions, patterns and statements, whatever their parts are. -/
structure NodeRule where
  expr : Expr → Prop := fun _ => True
  pattern : Pattern → Prop := fun _ => True
  stmt : Stmt → Prop := fun _ => True

/-- A rule that asks for at least what another one asks for. -/
structure NodeRule.Le (R R' : NodeRule) : Prop where
  expr : ∀ e, R.expr e → R'.expr e
  pattern : ∀ p, R.pattern p → R'.pattern p
  stmt : ∀ s, R.stmt s → R'.stmt s

mutual

/-- Every node of the expression obeys the rule. -/
def Expr.Obeys (R : NodeRule) : Expr → Prop
  | .name id => R.expr (.name id)
  | .literal value => R.expr (.literal value)
  | .template parts => R.expr (.template parts) ∧ TemplatePart.AllObey R parts
  | .unary op operand => R.expr (.unary op operand) ∧ operand.Obeys R
  | .update op side operand => R.expr (.update op side operand) ∧ operand.Obeys R
  | .binary op left right => R.expr (.binary op left right) ∧ left.Obeys R ∧ right.Obeys R
  | .conditional test consequent alternate =>
    R.expr (.conditional test consequent alternate) ∧
      test.Obeys R ∧ consequent.Obeys R ∧ alternate.Obeys R
  | .sequence items => R.expr (.sequence items) ∧ Expr.AllObey R items
  | .array items => R.expr (.array items) ∧ Expr.AllObey R items
  | .object properties => R.expr (.object properties) ∧ Property.AllObey R properties
  | .spread inner => R.expr (.spread inner) ∧ inner.Obeys R
  | .member object property optional => R.expr (.member object property optional) ∧ object.Obeys R
  | .index object key optional => R.expr (.index object key optional) ∧ object.Obeys R ∧ key.Obeys R
  | .call callee args optional =>
    R.expr (.call callee args optional) ∧ callee.Obeys R ∧ Expr.AllObey R args
  | .assign op target value => R.expr (.assign op target value) ∧ target.Obeys R ∧ value.Obeys R
  | .function definition => R.expr (.function definition) ∧ definition.Obeys R

def Expr.AllObey (R : NodeRule) : List Expr → Prop
  | [] => True
  | e :: rest => e.Obeys R ∧ Expr.AllObey R rest

def Expr.OptionObeys (R : NodeRule) : Option Expr → Prop
  | none => True
  | some e => e.Obeys R

def TemplatePart.AllObey (R : NodeRule) : List TemplatePart → Prop
  | [] => True
  | .text _ :: rest => TemplatePart.AllObey R rest
  | .hole e :: rest => e.Obeys R ∧ TemplatePart.AllObey R rest

def Property.Obeys (R : NodeRule) : Property → Prop
  | .named _ value => value.Obeys R
  | .spread source => source.Obeys R
  | .computed key value => key.Obeys R ∧ value.Obeys R

def Property.AllObey (R : NodeRule) : List Property → Prop
  | [] => True
  | p :: rest => p.Obeys R ∧ Property.AllObey R rest

def Function.Obeys (R : NodeRule) : Function → Prop
  | .mk params rest body => Element.AllObey R params ∧ Pattern.OptionObeys R rest ∧ body.Obeys R

def Body.Obeys (R : NodeRule) : Body → Prop
  | .expr e => e.Obeys R
  | .block statements => Stmt.AllObey R statements

def Element.Obeys (R : NodeRule) : Element → Prop
  | .mk target default => target.Obeys R ∧ Expr.OptionObeys R default

def Element.AllObey (R : NodeRule) : List Element → Prop
  | [] => True
  | e :: rest => e.Obeys R ∧ Element.AllObey R rest

/-- Every node of the pattern obeys the rule. -/
def Pattern.Obeys (R : NodeRule) : Pattern → Prop
  | .name id => R.pattern (.name id)
  | .array elements rest =>
    R.pattern (.array elements rest) ∧ Pattern.ElementsObey R elements ∧ Pattern.OptionObeys R rest
  | .object fields rest => R.pattern (.object fields rest) ∧ Field.AllObey R fields

def Pattern.OptionObeys (R : NodeRule) : Option Pattern → Prop
  | none => True
  | some p => p.Obeys R

def Pattern.ElementsObey (R : NodeRule) : List (Option Element) → Prop
  | [] => True
  | none :: rest => Pattern.ElementsObey R rest
  | some e :: rest => e.Obeys R ∧ Pattern.ElementsObey R rest

def Field.Obeys (R : NodeRule) : Field → Prop
  | .mk _ target default => target.Obeys R ∧ Expr.OptionObeys R default

def Field.AllObey (R : NodeRule) : List Field → Prop
  | [] => True
  | f :: rest => f.Obeys R ∧ Field.AllObey R rest

/-- Every node of the statement obeys the rule. -/
def Stmt.Obeys (R : NodeRule) : Stmt → Prop
  | .empty => R.stmt .empty
  | .brk => R.stmt .brk
  | .cont => R.stmt .cont
  | .expr e => R.stmt (.expr e) ∧ e.Obeys R
  | .throw e => R.stmt (.throw e) ∧ e.Obeys R
  | .ret e => R.stmt (.ret e) ∧ Expr.OptionObeys R e
  | .block statements => R.stmt (.block statements) ∧ Stmt.AllObey R statements
  | .declare kind declarators => R.stmt (.declare kind declarators) ∧ Declarator.AllObey R declarators
  | .branch test consequent alternate =>
    R.stmt (.branch test consequent alternate) ∧
      test.Obeys R ∧ consequent.Obeys R ∧ Stmt.OptionObeys R alternate
  | .whileLoop test body => R.stmt (.whileLoop test body) ∧ test.Obeys R ∧ body.Obeys R
  | .doWhile body test => R.stmt (.doWhile body test) ∧ test.Obeys R ∧ body.Obeys R
  | .forLoop init test update body =>
    R.stmt (.forLoop init test update body) ∧
      init.Obeys R ∧ Expr.OptionObeys R test ∧ Expr.OptionObeys R update ∧ body.Obeys R
  | .forEach visits kind pattern object body =>
    R.stmt (.forEach visits kind pattern object body) ∧ pattern.Obeys R ∧ object.Obeys R ∧ body.Obeys R
  | .attempt statements handler finalizer =>
    R.stmt (.attempt statements handler finalizer) ∧
      Stmt.AllObey R statements ∧ Handler.OptionObeys R handler ∧ Stmt.FinalizerObeys R finalizer
  | .switch discriminant cases =>
    R.stmt (.switch discriminant cases) ∧ discriminant.Obeys R ∧ Case.AllObey R cases
  | .function name definition => R.stmt (.function name definition) ∧ definition.Obeys R

def Stmt.AllObey (R : NodeRule) : List Stmt → Prop
  | [] => True
  | s :: rest => s.Obeys R ∧ Stmt.AllObey R rest

def Stmt.OptionObeys (R : NodeRule) : Option Stmt → Prop
  | none => True
  | some s => s.Obeys R

def Stmt.FinalizerObeys (R : NodeRule) : Option (List Stmt) → Prop
  | none => True
  | some statements => Stmt.AllObey R statements

def Declarator.Obeys (R : NodeRule) : Declarator → Prop
  | .mk pattern init => pattern.Obeys R ∧ Expr.OptionObeys R init

def Declarator.AllObey (R : NodeRule) : List Declarator → Prop
  | [] => True
  | d :: rest => d.Obeys R ∧ Declarator.AllObey R rest

def ForInit.Obeys (R : NodeRule) : ForInit → Prop
  | .none => True
  | .declare _ declarators => Declarator.AllObey R declarators
  | .expr e => e.Obeys R

def Handler.Obeys (R : NodeRule) : Handler → Prop
  | .mk _ body => Stmt.AllObey R body

def Handler.OptionObeys (R : NodeRule) : Option Handler → Prop
  | none => True
  | some handler => handler.Obeys R

def Case.Obeys (R : NodeRule) : Case → Prop
  | .mk test body => Expr.OptionObeys R test ∧ Stmt.AllObey R body

def Case.AllObey (R : NodeRule) : List Case → Prop
  | [] => True
  | c :: rest => c.Obeys R ∧ Case.AllObey R rest

end

variable {R : NodeRule}

/-! ## Lists of trees -/

theorem Expr.allObey_iff {items : List Expr} : Expr.AllObey R items ↔ ∀ e ∈ items, e.Obeys R := by
  induction items with
  | nil => simp [Expr.AllObey]
  | cons e rest ih => simp [Expr.AllObey, ih]

theorem TemplatePart.allObey_iff {parts : List TemplatePart} :
    TemplatePart.AllObey R parts ↔ ∀ e, .hole e ∈ parts → e.Obeys R := by
  induction parts with
  | nil => simp [TemplatePart.AllObey]
  | cons part rest ih => cases part <;> simp [TemplatePart.AllObey, ih]

theorem Property.allObey_iff {properties : List Property} :
    Property.AllObey R properties ↔ ∀ p ∈ properties, p.Obeys R := by
  induction properties with
  | nil => simp [Property.AllObey]
  | cons p rest ih => simp [Property.AllObey, ih]

theorem Element.allObey_iff {elements : List Element} :
    Element.AllObey R elements ↔ ∀ e ∈ elements, e.Obeys R := by
  induction elements with
  | nil => simp [Element.AllObey]
  | cons e rest ih => simp [Element.AllObey, ih]

theorem Pattern.elementsObey_iff {elements : List (Option Element)} :
    Pattern.ElementsObey R elements ↔ ∀ e, some e ∈ elements → e.Obeys R := by
  induction elements with
  | nil => simp [Pattern.ElementsObey]
  | cons e rest ih => cases e <;> simp [Pattern.ElementsObey, ih]

theorem Field.allObey_iff {fields : List Field} : Field.AllObey R fields ↔ ∀ f ∈ fields, f.Obeys R := by
  induction fields with
  | nil => simp [Field.AllObey]
  | cons f rest ih => simp [Field.AllObey, ih]

theorem Stmt.allObey_iff {statements : List Stmt} :
    Stmt.AllObey R statements ↔ ∀ s ∈ statements, s.Obeys R := by
  induction statements with
  | nil => simp [Stmt.AllObey]
  | cons s rest ih => simp [Stmt.AllObey, ih]

theorem Declarator.allObey_iff {declarators : List Declarator} :
    Declarator.AllObey R declarators ↔ ∀ d ∈ declarators, d.Obeys R := by
  induction declarators with
  | nil => simp [Declarator.AllObey]
  | cons d rest ih => simp [Declarator.AllObey, ih]

theorem Case.allObey_iff {cases : List Case} : Case.AllObey R cases ↔ ∀ c ∈ cases, c.Obeys R := by
  induction cases with
  | nil => simp [Case.AllObey]
  | cons c rest ih => simp [Case.AllObey, ih]

end BindScript
