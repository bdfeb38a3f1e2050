import BindScript.Dependency.Resolve
import BindScript.Proofs.Correspondence.Coverage

/-!
# Code that can be watched

A host that watches the dependencies of an expression runs it again when one of them changes. This works
for code that reads nothing else: `Watches` says which names a list of dependencies covers, and
`Expr.Watchable` which expressions keep to the dependencies that are found for them
(`Expr.within_of_watchable`, in `Covered.lean`).

The walk that finds dependencies declares all names of a loop head or a parameter list before it looks at
the initializers and defaults in it, while an evaluation binds them one by one. `Expr.Watchable e bound
pending` follows both: `bound` are the names that an evaluation has bound here, `pending` those that the
walk may have declared too early, and no name may be read that is pending and not bound. Besides, the
expression does not assign, update or delete, and it spells its names as scripts do.
-/

namespace BindScript

open Dependency

/-- Whether the text is a name as scripts spell them. -/
def isWord (name : String) : Bool :=
  match name.toList with
  | [] => false
  | c :: rest => Text.isNameStart c && rest.all Text.isWordPart

/-- A path all of whose variables are spelled as scripts do. -/
def Dependency.Path.Spelled (p : Path) : Prop :=
  isWord p.root = true ∧ ∀ n ∈ p.keyNames, isWord n = true

/-- A name is the root or a variable key of one of the dependencies. -/
def Dependency.Watches (dependencies : List String) (name : String) : Prop :=
  ∃ p : Path, p.Spelled ∧ p.text ∈ dependencies ∧ (name = p.root ∨ name ∈ p.keyNames)

/-- Access to what the dependencies cover, to read it. -/
def Access.watched (dependencies : List String) : Access :=
  ⟨Watches dependencies, False⟩

mutual

/-- All that an expression reads is found by the walk, in scopes that bind the names `bound` while the
walk may also have declared the names `pending`. -/
def Expr.Watchable : Expr → List String → List String → Prop
  | .name id, bound, pending => isWord id = true ∧ (id ∈ pending → id ∈ bound)
  | .literal _, _, _ => True
  | .template parts, bound, pending => TemplatePart.AllWatchable parts bound pending
  | .unary op operand, bound, pending => op ≠ .delete ∧ operand.Watchable bound pending
  | .update _ _ _, _, _ => False
  | .binary _ left right, bound, pending =>
    left.Watchable bound pending ∧ right.Watchable bound pending
  | .conditional test consequent alternate, bound, pending =>
    test.Watchable bound pending ∧ consequent.Watchable bound pending ∧
      alternate.Watchable bound pending
  | .sequence items, bound, pending => Expr.AllWatchable items bound pending
  | .array items, bound, pending => Expr.AllWatchable items bound pending
  | .object properties, bound, pending => Property.AllWatchable properties bound pending
  | .spread inner, bound, pending => inner.Watchable bound pending
  | .member object _ _, bound, pending => object.Watchable bound pending
  | .index object key _, bound, pending =>
    object.Watchable bound pending ∧ key.Watchable bound pending
  | .call callee args _, bound, pending =>
    callee.Watchable bound pending ∧ Expr.AllWatchable args bound pending
  | .assign _ _ _, _, _ => False
  | .function definition, bound, pending => definition.Watchable bound pending

/-- All expressions of a list can be watched. -/
def Expr.AllWatchable : List Expr → List String → List String → Prop
  | [], _, _ => True
  | e :: rest, bound, pending => e.Watchable bound pending ∧ Expr.AllWatchable rest bound pending

/-- An optional expression can be watched. -/
def Expr.OptionWatchable : Option Expr → List String → List String → Prop
  | none, _, _ => True
  | some e, bound, pending => e.Watchable bound pending

/-- The holes of a template can be watched. -/
def TemplatePart.AllWatchable : List TemplatePart → List String → List String → Prop
  | [], _, _ => True
  | .text _ :: rest, bound, pending => TemplatePart.AllWatchable rest bound pending
  | .hole e :: rest, bound, pending =>
    e.Watchable bound pending ∧ TemplatePart.AllWatchable rest bound pending

/-- The properties of an object literal can be watched. -/
def Property.AllWatchable : List Property → List String → List String → Prop
  | [], _, _ => True
  | .named _ value :: rest, bound, pending =>
    value.Watchable bound pending ∧ Property.AllWatchable rest bound pending
  | .computed key value :: rest, bound, pending =>
    key.Watchable bound pending ∧ value.Watchable bound pending ∧
      Property.AllWatchable rest bound pending
  | .spread source :: rest, bound, pending =>
    source.Watchable bound pending ∧ Property.AllWatchable rest bound pending

/-- A function can be watched. All its parameters are pending while they are bound. The walk does not look
into the rest parameter, so the defaults in it must read bound names only. -/
def Function.Watchable : Function → List String → List String → Prop
  | .mk params rest body, bound, pending =>
    let names := params.flatMap (fun p => p.target.boundNames) ++ Pattern.restNames rest
    let inside := bound ++ params.flatMap fun p => p.target.boundNames
    Element.AllWatchable params bound (pending ++ names) ∧
      (∀ A : Access, Pattern.RestWithin A true rest inside) ∧
      body.Watchable (inside ++ Pattern.restNames rest) pending

/-- Parameters can be watched, each with those before it bound. -/
def Element.AllWatchable : List Element → List String → List String → Prop
  | [], _, _ => True
  | .mk target default :: rest, bound, pending =>
    Expr.OptionWatchable default bound pending ∧ target.Watchable true bound pending ∧
      Element.AllWatchable rest (bound ++ target.boundNames) pending

/-- The body of a function can be watched. -/
def Body.Watchable : Body → List String → List String → Prop
  | .expr e, bound, pending => e.Watchable bound pending
  | .block statements, bound, pending =>
    Stmt.AllWatchable statements
      (bound ++ Stmt.varNamesList statements ++ Stmt.lexicalNames statements) pending

/-- The defaults inside a pattern can be watched, each with the names before it bound if the pattern
declares them. -/
def Pattern.Watchable (declares : Bool) : Pattern → List String → List String → Prop
  | .name _, _, _ => True
  | .array elements rest, bound, pending =>
    Pattern.ElementsWatchable declares elements bound pending ∧
      Pattern.RestWatchable declares rest
        (boundAfter declares bound (Pattern.elementNames elements)) pending
  | .object fields _, bound, pending => Pattern.FieldsWatchable declares fields bound pending

/-- The defaults inside the elements of an array pattern can be watched. -/
def Pattern.ElementsWatchable (declares : Bool) :
    List (Option Element) → List String → List String → Prop
  | [], _, _ => True
  | none :: rest, bound, pending => Pattern.ElementsWatchable declares rest bound pending
  | some (.mk target default) :: rest, bound, pending =>
    Expr.OptionWatchable default bound pending ∧ target.Watchable declares bound pending ∧
      Pattern.ElementsWatchable declares rest (boundAfter declares bound target.boundNames) pending

/-- The defaults inside the rest of an array pattern can be watched. -/
def Pattern.RestWatchable (declares : Bool) : Option Pattern → List String → List String → Prop
  | none, _, _ => True
  | some p, bound, pending => p.Watchable declares bound pending

/-- The defaults inside the fields of an object pattern can be watched. -/
def Pattern.FieldsWatchable (declares : Bool) : List Field → List String → List String → Prop
  | [], _, _ => True
  | .mk _ target default :: rest, bound, pending =>
    Expr.OptionWatchable default bound pending ∧ target.Watchable declares bound pending ∧
      Pattern.FieldsWatchable declares rest (boundAfter declares bound target.boundNames) pending

/-- A statement can be watched. A declaration of `let` or `const` stands in a list of statements, which
binds its names beforehand, and a loop over a collection that declares nothing has bound variables. -/
def Stmt.Watchable : Stmt → List String → List String → Prop
  | .empty, _, _ => True
  | .brk, _, _ => True
  | .cont, _, _ => True
  | .expr e, bound, pending => e.Watchable bound pending
  | .throw e, bound, pending => e.Watchable bound pending
  | .ret e, bound, pending => Expr.OptionWatchable e bound pending
  | .block statements, bound, pending =>
    Stmt.AllWatchable statements (bound ++ Stmt.lexicalNames statements) pending
  | .declare kind declarators, bound, pending =>
    (kind ≠ .var → ∀ n ∈ Declarator.boundNames declarators, n ∈ bound) ∧
      Declarator.AllWatchable kind declarators bound pending
  | .branch test consequent alternate, bound, pending =>
    test.Watchable bound pending ∧ consequent.Watchable bound pending ∧
      Stmt.OptionWatchable alternate bound pending
  | .whileLoop test body, bound, pending =>
    test.Watchable bound pending ∧ body.Watchable bound pending
  | .doWhile body test, bound, pending =>
    body.Watchable bound pending ∧ test.Watchable bound pending
  | .forLoop init test update body, bound, pending =>
    let inside := bound ++ init.turnNames
    init.Watchable bound pending ∧ Expr.OptionWatchable test inside pending ∧
      Expr.OptionWatchable update inside pending ∧ body.Watchable inside pending
  -- a bare pattern assigns, so all its names have to be bound before
  | .forEach _ kind pattern object body, bound, pending =>
    let declares := DeclKind.declares kind
    object.Watchable bound pending ∧
      pattern.Watchable declares bound (pending ++ pattern.boundNames) ∧
      (kind = none → ∀ n ∈ pattern.boundNames, n ∈ bound) ∧
      body.Watchable (boundAfter declares bound pattern.boundNames) pending
  | .attempt statements handler finalizer, bound, pending =>
    Stmt.AllWatchable statements (bound ++ Stmt.lexicalNames statements) pending ∧
      Handler.OptionWatchable handler bound pending ∧
      Stmt.FinalizerWatchable finalizer bound pending
  | .switch discriminant cases, bound, pending =>
    discriminant.Watchable bound pending ∧
      Case.AllWatchable cases (bound ++ Stmt.lexicalNames (cases.flatMap Case.body)) pending
  | .function name definition, bound, pending => definition.Watchable (bound ++ [name]) pending

/-- All statements of a list can be watched, under the names that their block hoists. -/
def Stmt.AllWatchable : List Stmt → List String → List String → Prop
  | [], _, _ => True
  | s :: rest, bound, pending => s.Watchable bound pending ∧ Stmt.AllWatchable rest bound pending

/-- An optional statement can be watched. -/
def Stmt.OptionWatchable : Option Stmt → List String → List String → Prop
  | none, _, _ => True
  | some s, bound, pending => s.Watchable bound pending

/-- The declarators of a declaration can be watched, each with those before it bound and its own names
pending. -/
def Declarator.AllWatchable (kind : DeclKind) :
    List Declarator → List String → List String → Prop
  | [], _, _ => True
  | .mk pattern init :: rest, bound, pending =>
    let declares := kind != .var
    Expr.OptionWatchable init bound (pending ++ pattern.boundNames) ∧
      pattern.Watchable declares bound (pending ++ pattern.boundNames) ∧
      Declarator.AllWatchable kind rest (boundAfter declares bound pattern.boundNames) pending

/-- The first part of a loop head can be watched. -/
def ForInit.Watchable : ForInit → List String → List String → Prop
  | .none, _, _ => True
  | .declare kind declarators, bound, pending => Declarator.AllWatchable kind declarators bound pending
  | .expr e, bound, pending => e.Watchable bound pending

/-- A handler can be watched. -/
def Handler.OptionWatchable : Option Handler → List String → List String → Prop
  | none, _, _ => True
  | some (.mk param body), bound, pending =>
    Stmt.AllWatchable body (bound ++ param.toList ++ Stmt.lexicalNames body) pending

/-- A finalizer can be watched. -/
def Stmt.FinalizerWatchable : Option (List Stmt) → List String → List String → Prop
  | none, _, _ => True
  | some statements, bound, pending =>
    Stmt.AllWatchable statements (bound ++ Stmt.lexicalNames statements) pending

/-- The cases of a switch can be watched, under the names that all of them hoist. -/
def Case.AllWatchable : List Case → List String → List String → Prop
  | [], _, _ => True
  | .mk test body :: rest, bound, pending =>
    Expr.OptionWatchable test bound pending ∧ Stmt.AllWatchable body bound pending ∧
      Case.AllWatchable rest bound pending

end

end BindScript
