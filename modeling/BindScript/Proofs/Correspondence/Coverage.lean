import BindScript.Evaluation.Declaration

/-!
# What code may reach outside of its own scopes

An `Access` says which names code may read although no scope binds them, and whether it may write such
names at all. `Expr.Within A e bound` says that `e` keeps to `A` in every scope that binds at least the
names `bound`, and there is one such judgement for every kind of tree.

The judgement follows the order in which an evaluation binds names: a default is judged under the names
bound before it, the statements of a block under all names that the block hoists, and a function body
under the parameters and the hoisted names of the body.

`Expr.within_all` is the trivial end of the scale: with access to everything, all code is covered.
-/

namespace BindScript

/-- What code may do with names that none of its scopes binds. -/
structure Access where
  /-- The names it may read. -/
  reads : String → Prop
  /-- Whether it may assign, update or delete. -/
  writes : Prop

/-- Access to everything. -/
def Access.all : Access :=
  ⟨fun _ => True, True⟩

/-- Names that are bound in a scope may be assigned, others only by code that may write. -/
def Access.Assignable (A : Access) (bound names : List String) : Prop :=
  ∀ n ∈ names, n ∈ bound ∨ A.writes

/-- The names that hold after a pattern was bound: a declaration adds its own. -/
def boundAfter (declares : Bool) (bound names : List String) : List String :=
  if declares then bound ++ names else bound

/-- Whether the pattern of a loop over a collection declares its names in the scope of the turn. -/
def DeclKind.declares : Option DeclKind → Bool
  | some .let | some .const => true
  | some .var | none => false

/-- The names that a block binds before its statements run. -/
def Stmt.lexicalNames : List Stmt → List String
  | [] => []
  | .declare kind declarators :: rest =>
    (if kind == .var then [] else Declarator.boundNames declarators) ++ Stmt.lexicalNames rest
  | .function name _ :: rest => name :: Stmt.lexicalNames rest
  | _ :: rest => Stmt.lexicalNames rest

/-- The names of a counting loop's head that every turn has copies of. -/
def ForInit.turnNames : ForInit → List String
  | .declare kind declarators => if kind == .var then [] else Declarator.boundNames declarators
  | .none | .expr _ => []

mutual

/-- An expression keeps to an access. -/
def Expr.Within (A : Access) : Expr → List String → Prop
  | .name id, bound => id ∈ bound ∨ A.reads id
  | .literal _, _ => True
  | .template parts, bound => TemplatePart.AllWithin A parts bound
  | .unary op operand, bound => (op = .delete → A.writes) ∧ operand.Within A bound
  | .update _ _ operand, bound => A.writes ∧ operand.Within A bound
  | .binary _ left right, bound => left.Within A bound ∧ right.Within A bound
  | .conditional test consequent alternate, bound =>
    test.Within A bound ∧ consequent.Within A bound ∧ alternate.Within A bound
  | .sequence items, bound => Expr.AllWithin A items bound
  | .array items, bound => Expr.AllWithin A items bound
  | .object properties, bound => Property.AllWithin A properties bound
  | .spread inner, bound => inner.Within A bound
  | .member object _ _, bound => object.Within A bound
  | .index object key _, bound => object.Within A bound ∧ key.Within A bound
  | .call callee args _, bound => callee.Within A bound ∧ Expr.AllWithin A args bound
  | .assign _ target value, bound => A.writes ∧ target.Within A bound ∧ value.Within A bound
  | .function definition, bound => definition.Within A bound

/-- All expressions of a list keep to an access. -/
def Expr.AllWithin (A : Access) : List Expr → List String → Prop
  | [], _ => True
  | e :: rest, bound => e.Within A bound ∧ Expr.AllWithin A rest bound

/-- An optional expression keeps to an access. -/
def Expr.OptionWithin (A : Access) : Option Expr → List String → Prop
  | none, _ => True
  | some e, bound => e.Within A bound

/-- The holes of a template keep to an access. -/
def TemplatePart.AllWithin (A : Access) : List TemplatePart → List String → Prop
  | [], _ => True
  | .text _ :: rest, bound => TemplatePart.AllWithin A rest bound
  | .hole e :: rest, bound => e.Within A bound ∧ TemplatePart.AllWithin A rest bound

/-- The properties of an object literal keep to an access. -/
def Property.AllWithin (A : Access) : List Property → List String → Prop
  | [], _ => True
  | .named _ value :: rest, bound => value.Within A bound ∧ Property.AllWithin A rest bound
  | .computed key value :: rest, bound =>
    key.Within A bound ∧ value.Within A bound ∧ Property.AllWithin A rest bound
  | .spread source :: rest, bound => source.Within A bound ∧ Property.AllWithin A rest bound

/-- A function keeps to an access, in every call of it. -/
def Function.Within (A : Access) : Function → List String → Prop
  | .mk params rest body, bound =>
    let inside := bound ++ params.flatMap fun p => p.target.boundNames
    Element.AllWithin A params bound ∧ Pattern.RestWithin A true rest inside ∧
      body.Within A (inside ++ Pattern.restNames rest)

/-- Parameters keep to an access, each with those before it bound. -/
def Element.AllWithin (A : Access) : List Element → List String → Prop
  | [], _ => True
  | .mk target default :: rest, bound =>
    Expr.OptionWithin A default bound ∧ target.Within A true bound ∧
      Element.AllWithin A rest (bound ++ target.boundNames)

/-- The body of a function keeps to an access. -/
def Body.Within (A : Access) : Body → List String → Prop
  | .expr e, bound => e.Within A bound
  | .block statements, bound =>
    Stmt.AllWithin A statements
      (bound ++ Stmt.varNamesList statements ++ Stmt.lexicalNames statements)

/-- The defaults inside a pattern keep to an access, each with the names before it bound if the pattern
declares them. -/
def Pattern.Within (A : Access) (declares : Bool) : Pattern → List String → Prop
  | .name _, _ => True
  | .array elements rest, bound =>
    Pattern.ElementsWithin A declares elements bound ∧
      Pattern.RestWithin A declares rest (boundAfter declares bound (Pattern.elementNames elements))
  | .object fields _, bound => Pattern.FieldsWithin A declares fields bound

/-- The defaults inside the elements of an array pattern keep to an access. -/
def Pattern.ElementsWithin (A : Access) (declares : Bool) :
    List (Option Element) → List String → Prop
  | [], _ => True
  | none :: rest, bound => Pattern.ElementsWithin A declares rest bound
  | some (.mk target default) :: rest, bound =>
    Expr.OptionWithin A default bound ∧ target.Within A declares bound ∧
      Pattern.ElementsWithin A declares rest (boundAfter declares bound target.boundNames)

/-- The defaults inside the rest of an array pattern keep to an access. -/
def Pattern.RestWithin (A : Access) (declares : Bool) : Option Pattern → List String → Prop
  | none, _ => True
  | some p, bound => p.Within A declares bound

/-- The defaults inside the fields of an object pattern keep to an access. -/
def Pattern.FieldsWithin (A : Access) (declares : Bool) : List Field → List String → Prop
  | [], _ => True
  | .mk _ target default :: rest, bound =>
    Expr.OptionWithin A default bound ∧ target.Within A declares bound ∧
      Pattern.FieldsWithin A declares rest (boundAfter declares bound target.boundNames)

/-- A statement keeps to an access. -/
def Stmt.Within (A : Access) : Stmt → List String → Prop
  | .empty, _ => True
  | .brk, _ => True
  | .cont, _ => True
  | .expr e, bound => e.Within A bound
  | .throw e, bound => e.Within A bound
  | .ret e, bound => Expr.OptionWithin A e bound
  | .block statements, bound =>
    Stmt.AllWithin A statements (bound ++ Stmt.lexicalNames statements)
  | .declare kind declarators, bound => Declarator.AllWithin A kind declarators bound
  | .branch test consequent alternate, bound =>
    test.Within A bound ∧ consequent.Within A bound ∧ Stmt.OptionWithin A alternate bound
  | .whileLoop test body, bound => test.Within A bound ∧ body.Within A bound
  | .doWhile body test, bound => body.Within A bound ∧ test.Within A bound
  -- each turn has variables of its own, so the initializer itself does not see them as bound
  | .forLoop init test update body, bound =>
    let inside := bound ++ init.turnNames
    init.Within A bound ∧ Expr.OptionWithin A test inside ∧ Expr.OptionWithin A update inside ∧
      body.Within A inside
  | .forEach _ kind pattern object body, bound =>
    let declares := DeclKind.declares kind
    object.Within A bound ∧ pattern.Within A declares bound ∧
      (declares = false → A.Assignable bound pattern.boundNames) ∧
      body.Within A (boundAfter declares bound pattern.boundNames)
  | .attempt statements handler finalizer, bound =>
    Stmt.AllWithin A statements (bound ++ Stmt.lexicalNames statements) ∧
      Handler.OptionWithin A handler bound ∧ Stmt.FinalizerWithin A finalizer bound
  | .switch discriminant cases, bound =>
    discriminant.Within A bound ∧
      Case.AllWithin A cases (bound ++ Stmt.lexicalNames (cases.flatMap Case.body))
  | .function name definition, bound => definition.Within A (bound ++ [name])

/-- All statements of a list keep to an access, under the names that their block hoists. -/
def Stmt.AllWithin (A : Access) : List Stmt → List String → Prop
  | [], _ => True
  | s :: rest, bound => s.Within A bound ∧ Stmt.AllWithin A rest bound

/-- An optional statement keeps to an access. -/
def Stmt.OptionWithin (A : Access) : Option Stmt → List String → Prop
  | none, _ => True
  | some s, bound => s.Within A bound

/-- The declarators of a declaration keep to an access, each with those before it bound. -/
def Declarator.AllWithin (A : Access) (kind : DeclKind) : List Declarator → List String → Prop
  | [], _ => True
  | .mk pattern init :: rest, bound =>
    let declares := kind != .var
    Expr.OptionWithin A init bound ∧ pattern.Within A declares bound ∧
      (declares = false → A.Assignable bound pattern.boundNames) ∧
      Declarator.AllWithin A kind rest (boundAfter declares bound pattern.boundNames)

/-- The first part of a loop head keeps to an access. -/
def ForInit.Within (A : Access) : ForInit → List String → Prop
  | .none, _ => True
  | .declare kind declarators, bound => Declarator.AllWithin A kind declarators bound
  | .expr e, bound => e.Within A bound

/-- A handler keeps to an access. -/
def Handler.OptionWithin (A : Access) : Option Handler → List String → Prop
  | none, _ => True
  | some (.mk param body), bound =>
    Stmt.AllWithin A body (bound ++ param.toList ++ Stmt.lexicalNames body)

/-- A finalizer keeps to an access. -/
def Stmt.FinalizerWithin (A : Access) : Option (List Stmt) → List String → Prop
  | none, _ => True
  | some statements, bound =>
    Stmt.AllWithin A statements (bound ++ Stmt.lexicalNames statements)

/-- The cases of a switch keep to an access, under the names that all of them hoist. -/
def Case.AllWithin (A : Access) : List Case → List String → Prop
  | [], _ => True
  | .mk test body :: rest, bound =>
    Expr.OptionWithin A test bound ∧ Stmt.AllWithin A body bound ∧ Case.AllWithin A rest bound

end

theorem Expr.allWithin_iff {A : Access} {es : List Expr} {bound : List String} :
    Expr.AllWithin A es bound ↔ ∀ e ∈ es, e.Within A bound := by
  induction es with
  | nil => simp [Expr.AllWithin]
  | cons e es ih => simp [Expr.AllWithin, ih]

theorem Stmt.allWithin_iff {A : Access} {ss : List Stmt} {bound : List String} :
    Stmt.AllWithin A ss bound ↔ ∀ s ∈ ss, s.Within A bound := by
  induction ss with
  | nil => simp [Stmt.AllWithin]
  | cons s ss ih => simp [Stmt.AllWithin, ih]

theorem Case.allWithin_iff {A : Access} {cs : List Case} {bound : List String} :
    Case.AllWithin A cs bound ↔
      ∀ c ∈ cs, Expr.OptionWithin A c.test bound ∧ Stmt.AllWithin A c.body bound := by
  induction cs with
  | nil => simp [Case.AllWithin]
  | cons c cs ih =>
    obtain ⟨test, body⟩ := c
    simp [Case.AllWithin, Case.test, Case.body, ih, and_assoc]

/-- What a part of a template evaluates keeps to an access. -/
def TemplatePart.Within (A : Access) (part : TemplatePart) (bound : List String) : Prop :=
  ∀ e, part = .hole e → e.Within A bound

theorem TemplatePart.allWithin_iff {A : Access} {ps : List TemplatePart} {bound : List String} :
    TemplatePart.AllWithin A ps bound ↔ ∀ p ∈ ps, p.Within A bound := by
  induction ps with
  | nil => simp [TemplatePart.AllWithin]
  | cons p ps ih => cases p <;> simp [TemplatePart.AllWithin, TemplatePart.Within, ih]

/-- What a property of an object literal evaluates keeps to an access. -/
def Property.Within (A : Access) (bound : List String) : Property → Prop
  | .named _ value => value.Within A bound
  | .computed key value => key.Within A bound ∧ value.Within A bound
  | .spread source => source.Within A bound

theorem Property.allWithin_iff {A : Access} {ps : List Property} {bound : List String} :
    Property.AllWithin A ps bound ↔ ∀ p ∈ ps, p.Within A bound := by
  induction ps with
  | nil => simp [Property.AllWithin]
  | cons p ps ih => cases p <;> simp [Property.AllWithin, Property.Within, ih, and_assoc]

/-! ## Access to everything covers all code -/

theorem Access.assignable_all (bound names : List String) :
    Access.all.Assignable bound names :=
  fun _ _ => Or.inr trivial

mutual

theorem Expr.within_all : ∀ (e : Expr) (bound : List String), e.Within .all bound
  | .name _, _ => Or.inr trivial
  | .literal _, _ => trivial
  | .template parts, bound => TemplatePart.allWithin_all parts bound
  | .unary _ operand, bound => by
    unfold Expr.Within
    exact ⟨fun _ => trivial, operand.within_all bound⟩
  | .update _ _ operand, bound => by
    unfold Expr.Within
    exact ⟨trivial, operand.within_all bound⟩
  | .binary _ left right, bound => by
    unfold Expr.Within
    exact ⟨left.within_all bound, right.within_all bound⟩
  | .conditional test consequent alternate, bound => by
    unfold Expr.Within
    exact ⟨test.within_all bound, consequent.within_all bound, alternate.within_all bound⟩
  | .sequence items, bound => Expr.allWithin_all items bound
  | .array items, bound => Expr.allWithin_all items bound
  | .object properties, bound => Property.allWithin_all properties bound
  | .spread inner, bound => inner.within_all bound
  | .member object _ _, bound => object.within_all bound
  | .index object key _, bound => by
    unfold Expr.Within
    exact ⟨object.within_all bound, key.within_all bound⟩
  | .call callee args _, bound => by
    unfold Expr.Within
    exact ⟨callee.within_all bound, Expr.allWithin_all args bound⟩
  | .assign _ target value, bound => by
    unfold Expr.Within
    exact ⟨trivial, target.within_all bound, value.within_all bound⟩
  | .function definition, bound => definition.within_all bound

theorem Expr.allWithin_all : ∀ (es : List Expr) (bound : List String), Expr.AllWithin .all es bound
  | [], _ => trivial
  | e :: rest, bound => by
    unfold Expr.AllWithin
    exact ⟨e.within_all bound, Expr.allWithin_all rest bound⟩

theorem Expr.optionWithin_all :
    ∀ (e : Option Expr) (bound : List String), Expr.OptionWithin .all e bound
  | none, _ => trivial
  | some e, bound => e.within_all bound

theorem TemplatePart.allWithin_all :
    ∀ (parts : List TemplatePart) (bound : List String), TemplatePart.AllWithin .all parts bound
  | [], _ => trivial
  | .text _ :: rest, bound => TemplatePart.allWithin_all rest bound
  | .hole e :: rest, bound => by
    unfold TemplatePart.AllWithin
    exact ⟨e.within_all bound, TemplatePart.allWithin_all rest bound⟩

theorem Property.allWithin_all :
    ∀ (ps : List Property) (bound : List String), Property.AllWithin .all ps bound
  | [], _ => trivial
  | .named _ value :: rest, bound => by
    unfold Property.AllWithin
    exact ⟨value.within_all bound, Property.allWithin_all rest bound⟩
  | .computed key value :: rest, bound => by
    unfold Property.AllWithin
    exact ⟨key.within_all bound, value.within_all bound, Property.allWithin_all rest bound⟩
  | .spread source :: rest, bound => by
    unfold Property.AllWithin
    exact ⟨source.within_all bound, Property.allWithin_all rest bound⟩

theorem Function.within_all : ∀ (f : Function) (bound : List String), f.Within .all bound
  | .mk params rest body, bound => by
    unfold Function.Within
    exact ⟨Element.allWithin_all params bound, Pattern.restWithin_all true rest _,
      body.within_all _⟩

theorem Element.allWithin_all :
    ∀ (params : List Element) (bound : List String), Element.AllWithin .all params bound
  | [], _ => trivial
  | .mk target default :: rest, bound => by
    unfold Element.AllWithin
    exact ⟨Expr.optionWithin_all default bound, target.within_all true bound,
      Element.allWithin_all rest _⟩

theorem Body.within_all : ∀ (b : Body) (bound : List String), b.Within .all bound
  | .expr e, bound => e.within_all bound
  | .block statements, _ => Stmt.allWithin_all statements _

theorem Pattern.within_all (declares : Bool) :
    ∀ (p : Pattern) (bound : List String), p.Within .all declares bound
  | .name _, _ => trivial
  | .array elements rest, bound => by
    unfold Pattern.Within
    exact ⟨Pattern.elementsWithin_all declares elements bound,
      Pattern.restWithin_all declares rest _⟩
  | .object fields _, bound => Pattern.fieldsWithin_all declares fields bound

theorem Pattern.elementsWithin_all (declares : Bool) :
    ∀ (elements : List (Option Element)) (bound : List String),
      Pattern.ElementsWithin .all declares elements bound
  | [], _ => trivial
  | none :: rest, bound => Pattern.elementsWithin_all declares rest bound
  | some (.mk target default) :: rest, bound => by
    unfold Pattern.ElementsWithin
    exact ⟨Expr.optionWithin_all default bound, target.within_all declares bound,
      Pattern.elementsWithin_all declares rest _⟩

theorem Pattern.restWithin_all (declares : Bool) :
    ∀ (rest : Option Pattern) (bound : List String), Pattern.RestWithin .all declares rest bound
  | none, _ => trivial
  | some p, bound => p.within_all declares bound

theorem Pattern.fieldsWithin_all (declares : Bool) :
    ∀ (fields : List Field) (bound : List String), Pattern.FieldsWithin .all declares fields bound
  | [], _ => trivial
  | .mk _ target default :: rest, bound => by
    unfold Pattern.FieldsWithin
    exact ⟨Expr.optionWithin_all default bound, target.within_all declares bound,
      Pattern.fieldsWithin_all declares rest _⟩

theorem Stmt.within_all : ∀ (s : Stmt) (bound : List String), s.Within .all bound
  | .empty, _ => trivial
  | .brk, _ => trivial
  | .cont, _ => trivial
  | .expr e, bound => e.within_all bound
  | .throw e, bound => e.within_all bound
  | .ret e, bound => Expr.optionWithin_all e bound
  | .block statements, _ => Stmt.allWithin_all statements _
  | .declare kind declarators, bound => Declarator.allWithin_all kind declarators bound
  | .branch test consequent alternate, bound => by
    unfold Stmt.Within
    exact ⟨test.within_all bound, consequent.within_all bound, Stmt.optionWithin_all alternate bound⟩
  | .whileLoop test body, bound => by
    unfold Stmt.Within
    exact ⟨test.within_all bound, body.within_all bound⟩
  | .doWhile body test, bound => by
    unfold Stmt.Within
    exact ⟨body.within_all bound, test.within_all bound⟩
  | .forLoop init test update body, bound => by
    unfold Stmt.Within
    exact ⟨init.within_all bound, Expr.optionWithin_all test _, Expr.optionWithin_all update _,
      body.within_all _⟩
  | .forEach _ _ pattern object body, bound => by
    unfold Stmt.Within
    exact ⟨object.within_all bound, pattern.within_all _ bound,
      fun _ => Access.assignable_all _ _, body.within_all _⟩
  | .attempt statements handler finalizer, bound => by
    unfold Stmt.Within
    exact ⟨Stmt.allWithin_all statements _, Handler.optionWithin_all handler bound,
      Stmt.finalizerWithin_all finalizer bound⟩
  | .switch discriminant cases, bound => by
    unfold Stmt.Within
    exact ⟨discriminant.within_all bound, Case.allWithin_all cases _⟩
  | .function _ definition, _ => definition.within_all _

theorem Stmt.allWithin_all : ∀ (ss : List Stmt) (bound : List String), Stmt.AllWithin .all ss bound
  | [], _ => trivial
  | s :: rest, bound => by
    unfold Stmt.AllWithin
    exact ⟨s.within_all bound, Stmt.allWithin_all rest bound⟩

theorem Stmt.optionWithin_all :
    ∀ (s : Option Stmt) (bound : List String), Stmt.OptionWithin .all s bound
  | none, _ => trivial
  | some s, bound => s.within_all bound

theorem Declarator.allWithin_all (kind : DeclKind) :
    ∀ (ds : List Declarator) (bound : List String), Declarator.AllWithin .all kind ds bound
  | [], _ => trivial
  | .mk pattern init :: rest, bound => by
    unfold Declarator.AllWithin
    exact ⟨Expr.optionWithin_all init bound, pattern.within_all _ bound,
      fun _ => Access.assignable_all _ _, Declarator.allWithin_all kind rest _⟩

theorem ForInit.within_all : ∀ (init : ForInit) (bound : List String), init.Within .all bound
  | .none, _ => trivial
  | .declare kind declarators, bound => Declarator.allWithin_all kind declarators bound
  | .expr e, bound => e.within_all bound

theorem Handler.optionWithin_all :
    ∀ (handler : Option Handler) (bound : List String), Handler.OptionWithin .all handler bound
  | none, _ => trivial
  | some (.mk _ body), _ => Stmt.allWithin_all body _

theorem Stmt.finalizerWithin_all :
    ∀ (finalizer : Option (List Stmt)) (bound : List String),
      Stmt.FinalizerWithin .all finalizer bound
  | none, _ => trivial
  | some statements, _ => Stmt.allWithin_all statements _

theorem Case.allWithin_all : ∀ (cases : List Case) (bound : List String), Case.AllWithin .all cases bound
  | [], _ => trivial
  | .mk test body :: rest, bound => by
    unfold Case.AllWithin
    exact ⟨Expr.optionWithin_all test bound, Stmt.allWithin_all body bound,
      Case.allWithin_all rest bound⟩

end

end BindScript
