import BindScript.Dependency.Path
import BindScript.Dependency.TrackedApis

/-!
Which names a piece of code reads from outside of its own scopes. Hosts watch these dependencies and run
the code again when one of them changes.

Names declared by `let`, `const`, parameters, handlers and loop heads belong to the scope they stand in,
and reading them is no dependency. Outside of functions, `var` and `function` declarations are top-level
names: reading them is a dependency, and the dependencies of their initializer or body are recorded
under their name. A chain of plain member accesses is one dependency, written as a path; other chains
are taken apart. A call depends on the root of its callee only, unless the method is tracked.
-/

/-!
## Scopes of a walk

Lexical scopes during a walk over a tree, innermost first. A scope holds the names declared in one
block; those of function bodies are marked, because `var` declarations land in them.
-/

namespace BindScript.Dependency

/-- The names declared in one block. -/
structure Scope where
  isFunction : Bool
  names : List String := []
  deriving DecidableEq, Repr

/-- Scopes, innermost first. -/
abbrev Scopes := List Scope

namespace Scopes

/-- Declares a name in the innermost scope. -/
def declare (name : String) : Scopes → Scopes
  | [] => []
  | s :: outer => { s with names := name :: s.names } :: outer

/-- Declares a name in the innermost function body; without one nothing happens. -/
def declareInFunction (name : String) : Scopes → Scopes
  | [] => []
  | s :: outer =>
    if s.isFunction then { s with names := name :: s.names } :: outer
    else s :: declareInFunction name outer

/-- Whether some scope declares the name. -/
def isBound (scopes : Scopes) (name : String) : Bool :=
  scopes.any (fun s => s.names.contains name)

/-- Whether the walk is inside a function body. -/
def inFunction (scopes : Scopes) : Bool :=
  scopes.any (fun s => s.isFunction)

end Scopes

/-! ## The walk -/

/-- What a top-level name stands for. -/
inductive TopLevelName
  /-- Read from the context. -/
  | free
  | var
  | function (definition : Function)

/-- The dependencies of code. Every collection is in the order of first sight. -/
structure Resolution where
  /-- Free names and top-level declarations. -/
  names : Entries TopLevelName := []
  /-- The dependencies of each top-level declaration. -/
  declared : Entries (List String) := []
  /-- All dependencies. -/
  dependencies : List String := []

/-- The top-level functions. -/
def Resolution.functions (r : Resolution) : List (String × Function) :=
  r.names.filterMap fun (name, kind) => match kind with
    | .function f => some (name, f)
    | _ => none

/-- The state of a walk. -/
structure Walk where
  apis : TrackedApis
  scopes : Scopes := []
  found : Resolution := {}
  /-- The dependencies of the top-level declarations around the current place, innermost first. -/
  sinks : List (List String) := []

namespace Walk

/-- Records a dependency on a root name. -/
def addDependency (w : Walk) (root dependency : String) : Walk :=
  let names := if w.found.names.contains root then w.found.names else w.found.names.insert root .free
  { w with
    found := { w.found with
      names
      dependencies := insertNew w.found.dependencies dependency }
    sinks := w.sinks.map (insertNew · dependency) }

/-- Reads a name. -/
def useName (w : Walk) (name : String) : Walk :=
  if w.scopes.isBound name then w else w.addDependency name name

/-- Reads the variables that are keys of a path. -/
def useKeyNames (w : Walk) (path : Path) : Walk :=
  path.keyNames.foldl useName w

/-- Reads a path. -/
def usePath (w : Walk) (path : Path) : Walk :=
  if w.scopes.isBound path.root then w.useKeyNames path else w.addDependency path.root path.text

/-- The path of a chain at the current place. -/
def fold? (w : Walk) (e : Expr) : Option Path :=
  Dependency.fold? w.scopes.isBound e

/-- Declares a name in the innermost scope. -/
def declare (w : Walk) (name : String) : Walk :=
  { w with scopes := w.scopes.declare name }

/-- Declares names as a declaration keyword does. -/
def declareNames (w : Walk) (kind : DeclKind) (names : List String) : Walk :=
  names.foldl (fun w name => match kind with
    | .var => { w with scopes := w.scopes.declareInFunction name }
    | .let | .const => w.declare name) w

/-- Sets what a top-level name stands for. -/
def setName (w : Walk) (name : String) (kind : TopLevelName) : Walk :=
  { w with found := { w.found with names := w.found.names.insert name kind } }

/-- Notes a top-level variable; functions keep their name. -/
def noteVar (w : Walk) (name : String) : Walk :=
  match w.found.names.get? name with
  | some (.function _) => w
  | _ => w.setName name .var

/-- Notes a top-level loop variable; known names stay what they are. -/
def noteLoopVar (w : Walk) (name : String) : Walk :=
  if w.found.names.contains name then w else w.setName name .var

/-- Walks inside a new scope. -/
def inScope (w : Walk) (isFunction : Bool) (visit : Walk → Walk) : Walk :=
  let inner := visit { w with scopes := { isFunction } :: w.scopes }
  { inner with scopes := inner.scopes.drop 1 }

/-- Walks and records the dependencies found on the way under names. -/
def collectFor (w : Walk) (names : List String) (visit : Walk → Walk) : Walk :=
  let inner := visit { w with sinks := [] :: w.sinks }
  let found := inner.sinks.headD []
  let declared := names.foldl
    (fun declared name => declared.alter name [] (found.foldl insertNew ·)) inner.found.declared
  { inner with
    found := { inner.found with declared }
    sinks := inner.sinks.drop 1 }

/-- Makes the functions of a block known before the block is walked. -/
def hoistFunctions (w : Walk) (statements : List Stmt) : Walk :=
  statements.foldl (fun w s => match s with
    | .function name definition =>
      if w.scopes.inFunction then w.declare name else w.setName name (.function definition)
    | _ => w) w

end Walk

mutual

/-- Walks over an expression. -/
def visitExpr : Expr → Walk → Walk
  | .name id, w => w.useName id
  | .literal _, w => w
  | .template parts, w => visitParts parts w
  | .unary _ operand, w => visitExpr operand w
  | .update _ _ operand, w => visitExpr operand w
  | .binary _ left right, w => visitExpr right (visitExpr left w)
  | .conditional test consequent alternate, w =>
    visitExpr alternate (visitExpr consequent (visitExpr test w))
  | .sequence items, w => visitExprs items w
  | .array items, w => visitExprs items w
  | .object properties, w => visitProperties properties w
  | .spread inner, w => visitExpr inner w
  | .member object property optional, w =>
    match w.fold? (.member object property optional) with
    | some path => w.usePath path
    | none => visitExpr object w
  | .index object key optional, w =>
    match w.fold? (.index object key optional) with
    | some path => w.usePath path
    | none => visitExpr key (visitExpr object w)
  -- a call depends on the path of its callee only if the calls of this method are tracked, else on the root of the path
  | .call callee args _, w =>
    let called := match w.fold? callee with
      | none => visitExpr callee w
      | some path =>
        let tracked := match path.segments with
          | [.property method] => w.apis.tracks path.root method
          | _ => false
        if tracked then w.usePath path else (w.useName path.root).useKeyNames path
    visitExprs args called
  | .assign _ target value, w => visitExpr value (visitExpr target w)
  | .function definition, w => visitFunction definition w

/-- Walks over expressions in order. -/
def visitExprs : List Expr → Walk → Walk
  | [], w => w
  | e :: rest, w => visitExprs rest (visitExpr e w)

/-- Walks over an optional expression. -/
def visitOption : Option Expr → Walk → Walk
  | none, w => w
  | some e, w => visitExpr e w

/-- Walks over the holes of a template. -/
def visitParts : List TemplatePart → Walk → Walk
  | [], w => w
  | .text _ :: rest, w => visitParts rest w
  | .hole e :: rest, w => visitParts rest (visitExpr e w)

/-- Walks over the properties of an object literal. -/
def visitProperties : List Property → Walk → Walk
  | [], w => w
  | .named _ value :: rest, w => visitProperties rest (visitExpr value w)
  | .computed key value :: rest, w => visitProperties rest (visitExpr value (visitExpr key w))
  | .spread source :: rest, w => visitProperties rest (visitExpr source w)

/-- Walks over parameters and body of a function, in a scope of its own. -/
def visitFunction : Function → Walk → Walk
  | .mk params rest body, w =>
    let names := params.flatMap (fun p => p.target.boundNames) ++ Pattern.restNames rest
    w.inScope true fun w => visitBody body (visitParams params (names.foldl Walk.declare w))

/-- Walks over the defaults of parameters. -/
def visitParams : List Element → Walk → Walk
  | [], w => w
  | .mk target default :: rest, w =>
    visitParams rest (visitOption default (visitDefaults target w))

/-- Walks over the body of a function. -/
def visitBody : Body → Walk → Walk
  | .expr e, w => visitExpr e w
  | .block statements, w => visitStmts statements (w.hoistFunctions statements)

/-- Walks over the defaults inside a pattern. -/
def visitDefaults : Pattern → Walk → Walk
  | .name _, w => w
  | .array elements rest, w => visitRest rest (visitElements elements w)
  | .object fields _, w => visitFields fields w

/-- Walks over the defaults inside the elements of an array pattern. -/
def visitElements : List (Option Element) → Walk → Walk
  | [], w => w
  | none :: rest, w => visitElements rest w
  | some (.mk target default) :: rest, w =>
    visitElements rest (visitOption default (visitDefaults target w))

/-- Walks over the defaults inside the rest of an array pattern. -/
def visitRest : Option Pattern → Walk → Walk
  | none, w => w
  | some p, w => visitDefaults p w

/-- Walks over the defaults inside the fields of an object pattern. -/
def visitFields : List Field → Walk → Walk
  | [], w => w
  | .mk _ target default :: rest, w =>
    visitFields rest (visitOption default (visitDefaults target w))

/-- Walks over a statement. -/
def visitStmt : Stmt → Walk → Walk
  | .empty, w => w
  | .brk, w => w
  | .cont, w => w
  | .expr e, w => visitExpr e w
  | .throw e, w => visitExpr e w
  | .ret e, w => visitOption e w
  | .block statements, w =>
    w.inScope false fun w => visitStmts statements (w.hoistFunctions statements)
  | .declare kind declarators, w => visitDeclarators kind declarators w
  | .branch test consequent alternate, w =>
    visitStmtOption alternate (visitStmt consequent (visitExpr test w))
  | .whileLoop test body, w => visitStmt body (visitExpr test w)
  | .doWhile body test, w => visitExpr test (visitStmt body w)
  | .forLoop init test update body, w =>
    w.inScope false fun w =>
      visitStmt body (visitOption update (visitOption test (visitInit init w)))
  | .forEach _ kind pattern object body, w =>
    (visitExpr object w).inScope false fun w =>
      let names := pattern.boundNames
      let w := match kind with
        | some kind =>
          if kind == .var && !w.scopes.inFunction then names.foldl Walk.noteLoopVar w
          else w.declareNames kind names
        | none => names.foldl Walk.useName w
      visitStmt body (visitDefaults pattern w)
  | .attempt statements handler finalizer, w =>
    let w := w.inScope false fun w => visitStmts statements (w.hoistFunctions statements)
    visitFinalizer finalizer (visitHandler handler w)
  -- The cases share one scope, so all their functions are known in each.
  | .switch discriminant cases, w =>
    (visitExpr discriminant w).inScope false fun w =>
      visitCases cases (cases.foldl (fun w c => w.hoistFunctions c.body) w)
  | .function name definition, w =>
    if w.scopes.inFunction then visitFunction definition w
    else w.collectFor [name] fun w => visitFunction definition w

/-- Walks over statements in order. -/
def visitStmts : List Stmt → Walk → Walk
  | [], w => w
  | s :: rest, w => visitStmts rest (visitStmt s w)

/-- Walks over an optional statement. -/
def visitStmtOption : Option Stmt → Walk → Walk
  | none, w => w
  | some s, w => visitStmt s w

/-- Walks over the declarators of a declaration. -/
def visitDeclarators (kind : DeclKind) : List Declarator → Walk → Walk
  | [], w => w
  | .mk pattern init :: rest, w =>
    let names := pattern.boundNames
    let visit (w : Walk) := visitOption init (visitDefaults pattern w)
    visitDeclarators kind rest <|
      if kind == .var && !w.scopes.inFunction then
        (names.foldl Walk.noteVar w).collectFor names visit
      else visit (w.declareNames kind names)

/-- Walks over the first part of a loop head. -/
def visitInit : ForInit → Walk → Walk
  | .none, w => w
  | .declare kind declarators, w => visitDeclarators kind declarators w
  | .expr e, w => visitExpr e w

/-- Walks over a handler. -/
def visitHandler : Option Handler → Walk → Walk
  | none, w => w
  | some (.mk param body), w =>
    w.inScope false fun w =>
      let w := match param with
        | some name => w.declare name
        | none => w
      visitStmts body (w.hoistFunctions body)

/-- Walks over a finalizer. -/
def visitFinalizer : Option (List Stmt) → Walk → Walk
  | none, w => w
  | some statements, w =>
    w.inScope false fun w => visitStmts statements (w.hoistFunctions statements)

/-- Walks over the cases of a switch. -/
def visitCases : List Case → Walk → Walk
  | [], w => w
  | .mk test body :: rest, w => visitCases rest (visitStmts body (visitOption test w))

end

/-- Code whose dependencies are asked for. -/
inductive Code
  | statements (body : List Stmt)
  | expression (value : Expr)

/-- The dependencies of code, added to those found before. -/
def resolve (apis : TrackedApis) (code : Code) (known : Resolution) : Resolution :=
  let start : Walk := { apis, found := known }
  let finish := start.inScope false fun w => match code with
    | .statements body => visitStmts body (w.hoistFunctions body)
    | .expression e => visitExpr e w
  finish.found

end BindScript.Dependency
