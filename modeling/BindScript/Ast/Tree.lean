import BindScript.Ast.Operator

/-!
Syntax trees of expressions, binding patterns and statements. Trees are plain data; function bodies
hold statements, statements hold expressions, and patterns hold the expressions of their defaults, so
the types are defined together.
-/

namespace BindScript

/-- A literal constant. -/
inductive Literal
  | undefined
  | null
  | bool (value : Bool)
  | number (value : Float)
  | string (value : String)

/-- What a loop over a collection visits. -/
inductive EachKind
  | keys
  | items
  deriving DecidableEq, Repr

mutual

/-- An expression. -/
inductive Expr
  /-- A variable. -/
  | name (id : String)
  | literal (value : Literal)
  | template (parts : List TemplatePart)
  | unary (op : UnaryOp) (operand : Expr)
  /-- `++x`, `x--` and the like. -/
  | update (op : UpdateOp) (side : UpdateSide) (operand : Expr)
  | binary (op : BinaryOp) (left right : Expr)
  | conditional (test consequent alternate : Expr)
  /-- `a, b, c`. -/
  | sequence (items : List Expr)
  /-- `[a, ...b]`; a hole is the literal `undefined`. -/
  | array (items : List Expr)
  | object (properties : List Property)
  /-- `...inner`, inside array literals and argument lists. -/
  | spread (inner : Expr)
  /-- `object.property`, or `object?.property`. -/
  | member (object : Expr) (property : String) (optional : Bool)
  /-- `object[key]`, or `object?.[key]`. -/
  | index (object key : Expr) (optional : Bool)
  /-- `callee(args)`, or `callee?.(args)`. -/
  | call (callee : Expr) (args : List Expr) (optional : Bool)
  | assign (op : AssignOp) (target value : Expr)
  | function (definition : Function)

/-- A piece of a template literal. -/
inductive TemplatePart
  | text (value : String)
  | hole (value : Expr)

/-- A property of an object literal. -/
inductive Property
  /-- `key: value`; shorthands and methods too. -/
  | named (key : String) (value : Expr)
  /-- `[key]: value`. -/
  | computed (key value : Expr)
  | spread (source : Expr)

/-- Parameters and body of an arrow function or a `function`. -/
inductive Function
  | mk (params : List Element) (rest : Option Pattern) (body : Body)

/-- The body of a function: one expression, or statements. -/
inductive Body
  | expr (value : Expr)
  | block (statements : List Stmt)

/-- A binding target with an optional default, as a parameter or inside an array pattern. -/
inductive Element
  | mk (target : Pattern) (default : Option Expr)

/-- A binding target of declarations, parameters and loop heads. -/
inductive Pattern
  | name (id : String)
  /-- `[a, , b = 1, ...rest]`; a missing element is a hole. -/
  | array (elements : List (Option Element)) (rest : Option Pattern)
  /-- `{ a, b: c, d = 1, ...rest }`. -/
  | object (fields : List Field) (rest : Option String)

/-- `key: target = default` of an object pattern. -/
inductive Field
  | mk (key : String) (target : Pattern) (default : Option Expr)

/-- A statement. -/
inductive Stmt
  | empty
  | expr (value : Expr)
  | block (statements : List Stmt)
  | declare (kind : DeclKind) (declarators : List Declarator)
  | branch (test : Expr) (consequent : Stmt) (alternate : Option Stmt)
  | whileLoop (test : Expr) (body : Stmt)
  | doWhile (body : Stmt) (test : Expr)
  | forLoop (init : ForInit) (test update : Option Expr) (body : Stmt)
  /-- `for (pattern in object)` and `for (pattern of object)`; no keyword means plain assignment. -/
  | forEach (visits : EachKind) (kind : Option DeclKind) (pattern : Pattern) (object : Expr)
      (body : Stmt)
  | ret (value : Option Expr)
  | brk
  | cont
  | throw (value : Expr)
  | attempt (statements : List Stmt) (handler : Option Handler) (finalizer : Option (List Stmt))
  | switch (discriminant : Expr) (cases : List Case)
  | function (name : String) (definition : Function)

/-- One `pattern = init` of a declaration. -/
inductive Declarator
  | mk (pattern : Pattern) (init : Option Expr)

/-- The first part of a counting loop's head. -/
inductive ForInit
  | none
  | declare (kind : DeclKind) (declarators : List Declarator)
  | expr (value : Expr)

/-- `catch (param) { body }`. -/
inductive Handler
  | mk (param : Option String) (body : List Stmt)

/-- `case test:` or, without a test, `default:`, with the statements up to the next label. -/
inductive Case
  | mk (test : Option Expr) (body : List Stmt)

end

instance : Inhabited Expr := ⟨.literal .undefined⟩
instance : Inhabited Stmt := ⟨.empty⟩
instance : Inhabited Pattern := ⟨.name ""⟩

namespace Function

/-- The positional parameters. -/
def params : Function → List Element
  | mk params _ _ => params

/-- The trailing `...rest` parameter. -/
def rest : Function → Option Pattern
  | mk _ rest _ => rest

/-- The body. -/
def body : Function → Body
  | mk _ _ body => body

end Function

namespace Element

/-- What the element binds. -/
def target : Element → Pattern
  | mk target _ => target

/-- The expression used for `undefined`. -/
def default : Element → Option Expr
  | mk _ default => default

end Element

namespace Field

/-- The property that is read. -/
def key : Field → String
  | mk key _ _ => key

/-- What the field binds. -/
def target : Field → Pattern
  | mk _ target _ => target

/-- The expression used for `undefined`. -/
def default : Field → Option Expr
  | mk _ _ default => default

end Field

namespace Declarator

/-- What the declarator binds. -/
def pattern : Declarator → Pattern
  | mk pattern _ => pattern

/-- The initializer. -/
def init : Declarator → Option Expr
  | mk _ init => init

end Declarator

namespace Handler

/-- The name that receives the caught value. -/
def param : Handler → Option String
  | mk param _ => param

/-- The statements of the handler. -/
def body : Handler → List Stmt
  | mk _ body => body

end Handler

namespace Case

/-- The expression compared with the discriminant; none for `default`. -/
def test : Case → Option Expr
  | mk test _ => test

/-- The statements under the label. -/
def body : Case → List Stmt
  | mk _ body => body

end Case

namespace Expr

/-- A short name of the kind of expression, for diagnostics. -/
def kindName : Expr → String
  | name _ => "identifier"
  | literal _ => "literal"
  | template _ => "template"
  | unary .. => "unary expression"
  | update .. => "update expression"
  | binary .. => "binary expression"
  | conditional .. => "conditional expression"
  | sequence _ => "sequence expression"
  | array _ => "array literal"
  | object _ => "object literal"
  | spread _ => "spread element"
  | member .. => "member expression"
  | index .. => "computed member expression"
  | call .. => "call expression"
  | assign .. => "assignment"
  | function _ => "function"

/-- Whether the expression may stand on the left of `=`. -/
def isSimpleTarget : Expr → Bool
  | name _ => true
  | member _ _ optional => !optional
  | index _ _ optional => !optional
  | _ => false

end Expr

mutual

/-- The names a pattern binds, in source order. -/
def Pattern.boundNames : Pattern → List String
  | .name id => [id]
  | .array elements rest => Pattern.elementNames elements ++ Pattern.restNames rest
  | .object fields rest => Pattern.fieldNames fields ++ rest.toList

/-- The names bound by the elements of an array pattern. -/
def Pattern.elementNames : List (Option Element) → List String
  | [] => []
  | none :: more => Pattern.elementNames more
  | some (.mk target _) :: more => target.boundNames ++ Pattern.elementNames more

/-- The names bound by the rest of an array pattern. -/
def Pattern.restNames : Option Pattern → List String
  | none => []
  | some rest => rest.boundNames

/-- The names bound by the fields of an object pattern. -/
def Pattern.fieldNames : List Field → List String
  | [] => []
  | .mk _ target _ :: more => target.boundNames ++ Pattern.fieldNames more

end

end BindScript
