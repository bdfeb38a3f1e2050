import BindScript.Entries
import BindScript.Value.Convert
import BindScript.Dependency.Resolve
import BindScript.Evaluation
import BindScript.Parser

/-!
Resolving the variables of one scope. Declarations may refer to each other in any order, so each is
evaluated twice: first in order, each next to the results before it, and then again next to the results of
the whole first pass. The values of the second pass are the answer.

A declaration is parsed again only when its source changes, and evaluated again only when one of the
values it depends on does. The state of the host is never written: both passes work on copies.
-/

/-!
## What is remembered

What is remembered about the declarations of one scope: for every name its tree, the dependencies of the
tree, and for each of the two passes the last value with the inputs it was computed from. Counters tell
how often the memory helped.
-/

namespace BindScript.Variables

/-- What the tree of a declaration came from. -/
inductive SourceKey
  | text (source : String)
  /-- A tree that the host parsed, known by its identity. -/
  | tree (identity : Nat)
  deriving DecidableEq, Repr

/-- A value and the values of the dependencies it was computed from. -/
structure Memo where
  inputs : List Value
  value : Value

/-- Whether every input is what it was. -/
def Memo.isCurrent (m : Memo) (inputs : List Value) : Bool :=
  m.inputs.length == inputs.length && (m.inputs.zip inputs).all fun (old, new) => old.strictEquals new

/-- The two evaluations of a declaration: next to the declarations before it, and next to all of them. -/
inductive Pass
  | progressive
  | complete
  deriving DecidableEq, Repr

/-- What is remembered about one declaration. -/
structure CacheEntry where
  key : SourceKey
  tree : Expr
  dependencies : List String
  progressive : Option Memo := none
  complete : Option Memo := none

namespace CacheEntry

/-- The memo of a pass. -/
def memo? (entry : CacheEntry) : Pass → Option Memo
  | .progressive => entry.progressive
  | .complete => entry.complete

/-- Remembers the outcome of a pass. -/
def setMemo (entry : CacheEntry) (memo : Memo) : Pass → CacheEntry
  | .progressive => { entry with progressive := some memo }
  | .complete => { entry with complete := some memo }

end CacheEntry

/-- How often dependencies and values were reused or computed. -/
structure CacheStats where
  parseHits : Nat := 0
  parseMisses : Nat := 0
  valueHits : Nat := 0
  valueMisses : Nat := 0
  deriving DecidableEq, Repr

/-- What is remembered about declarations, by name. -/
structure Cache where
  entries : Entries CacheEntry := []
  stats : CacheStats := {}

namespace Cache

/-- The number of declarations with something remembered. -/
def size (c : Cache) : Nat :=
  c.entries.length

/-- Forgets one declaration. -/
def forget (c : Cache) (name : String) : Cache :=
  { c with entries := c.entries.erase name }

/-- The dependencies of a declaration, without those of the functions it calls. -/
def dependencies? (c : Cache) (name : String) : Option (List String) :=
  (c.entries.get? name).map (·.dependencies)

/-- Changes the counters. -/
def count (c : Cache) (f : CacheStats → CacheStats) : Cache :=
  { c with stats := f c.stats }

end Cache

/-! ## The two passes -/

open Dependency

/-- An expression that a declaration evaluates. -/
inductive Source
  | text (source : String)
  /-- A tree that the host parsed, known by its identity. -/
  | parsed (identity : Nat) (tree : Expr)

namespace Source

/-- What the source is known by. -/
def key : Source → SourceKey
  | text source => .text source
  | parsed identity _ => .tree identity

/-- What stands for the source in failures. -/
def shown : Source → String
  | text source => source
  | parsed _ tree => "<" ++ tree.kindName ++ ">"

/-- The tree of the source. -/
def tree : Source → Except ParseIssue Expr
  | text source => parseExpr source
  | parsed _ tree => .ok tree

end Source

/-- The right side of a declaration: a value, taken as it is, or an expression. -/
inductive Declaration
  | value (value : Value)
  | source (source : Source)

/-- The dependencies of functions by name. What depends on a function depends on these too. -/
abbrev FunctionDeps := Entries (List String)

/-- A declaration that could not be parsed or evaluated. -/
structure Failure where
  name : String
  /-- The source, or what stands for a tree. -/
  expression : String
  error : EvalError

/-- The wording of a failure. -/
def Failure.message (h : Heap) (f : Failure) : String :=
  "cannot resolve `" ++ f.name ++ "` from `" ++ f.expression ++ "`: " ++ f.error.message h

/-- The outcome for a scope. -/
structure Resolved where
  /-- The values of the declarations that have one, in order. -/
  values : Entries Value := []
  failures : List Failure := []

/-! ### Dependencies -/

/-- What a dependency stands for in a table of functions: an entry of its own, or that of its root. -/
def functionDeps (table : FunctionDeps) (dependency : String) : List String :=
  match table.get? dependency with
  | some deps => deps
  | none => match Path.parse? dependency with
    | some path => (table.get? path.root).getD []
    | none => []

/-- Adds a dependency and what it leads to, in at most the given number of steps down. -/
def expandFrom (table : FunctionDeps) : Nat → List String → String → List String
  | 0, done, _ => done
  | steps + 1, done, dependency =>
    if done.contains dependency then done
    else (functionDeps table dependency).foldl (expandFrom table steps) (done ++ [dependency])

/-- The dependencies with those of all functions among them. Every step down adds one of the dependencies
named somewhere, so their number bounds the steps. -/
def expandDeps (table : FunctionDeps) (deps : List String) : List String :=
  let named := deps.length + table.foldl (fun n entry => n + entry.2.length) 0
  deps.foldl (expandFrom table (named + 1)) []

/-- The value of a dependency. -/
def readDependency (ctx : Context) (h : Heap) (dependency : String) : Value :=
  let lookup (name : String) := (ctx.lookup h name).getD .undefined
  match Path.parse? dependency with
  | none => .undefined
  | some path => path.segments.foldl (fun v segment => match segment with
    | .property key => h.get v key
    | .nameKey name => h.get v (h.text (lookup name))) (lookup path.root)

/-! ### Evaluation -/

/-- What dependencies are found by: those of functions, and the tracked methods. -/
structure DependencyTables where
  functionDeps : FunctionDeps
  apis : TrackedApis

/-- The entry of a declaration as long as its source is the same. -/
def Cache.current? (cache : Cache) (name : String) (key : SourceKey) : Option CacheEntry :=
  (cache.entries.get? name).filter fun entry => entry.key == key

/-- What the cache knows of a declaration, after parsing it if its source is new. -/
def cacheEntry (tables : DependencyTables) (cache : Cache) (name : String) (source : Source) :
    Except ParseIssue CacheEntry × Cache :=
  match cache.current? name source.key with
  | some entry => (.ok entry, cache.count fun s => { s with parseHits := s.parseHits + 1 })
  | none =>
    let cache := cache.count fun s => { s with parseMisses := s.parseMisses + 1 }
    match source.tree with
    | .error issue => (.error issue, cache)
    | .ok tree =>
      let dependencies := (resolve tables.apis (.expression tree) {}).dependencies
      let entry : CacheEntry := { key := source.key, tree, dependencies }
      (.ok entry, { cache with entries := cache.entries.insert name entry })

/-- Evaluates a declaration in a pass, unless its inputs are what they were. -/
def evalEntry (tables : DependencyTables) (ctx : Context) (cache : Cache) (pass : Pass) (name : String)
    (entry : CacheEntry) : EvalM (Except EvalError Value × Cache) := do
  let deps := expandDeps tables.functionDeps entry.dependencies
  let inputs ← EvalM.readHeap fun h => deps.map (readDependency ctx h)
  match (entry.memo? pass).filter (·.isCurrent inputs) with
  | some memo => return (.ok memo.value, cache.count fun s => { s with valueHits := s.valueHits + 1 })
  | none =>
    let cache := cache.count fun s => { s with valueMisses := s.valueMisses + 1 }
    match ← EvalM.attempt (ctx.evaluate entry.tree) with
    | .ok value =>
      let entry := entry.setMemo { inputs, value } pass
      return (.ok value, { cache with entries := cache.entries.insert name entry })
    | .error (.error e) => return (.error e, cache)
    | .error exit => throw exit

/-- The value of a declaration in a pass. -/
def resolveOne (tables : DependencyTables) (ctx : Context) (cache : Cache) (pass : Pass)
    (name : String) : Declaration → EvalM (Except Failure Value × Cache)
  | .value v => return (.ok v, cache)
  | .source source =>
    match cacheEntry tables cache name source with
    | (.error issue, cache) => return (.error ⟨name, source.shown, .parse issue⟩, cache)
    | (.ok entry, cache) => do
      let (result, cache) ← evalEntry tables ctx cache pass name entry
      return (result.mapError (Failure.mk name source.shown), cache)

/-- A new object with the entries of a value. -/
def snapshot (state : Value) : EvalM Value := do
  let entries ← EvalM.readHeap (·.entries state)
  EvalM.allocate (·.newObject (Entries.insertAll [] entries))

/-- The first pass: results are written to the overlay, where later declarations see them. -/
def passProgressive (tables : DependencyTables) (ctx : Context) (overlay : Value) :
    Cache → Entries Declaration → EvalM Cache
  | cache, [] => return cache
  | cache, (name, declaration) :: rest => do
    let (result, cache) ← resolveOne tables ctx cache .progressive name declaration
    match result with
    | .ok value =>
      if ← EvalM.readHeap (·.canSet overlay name value) then
        EvalM.modifyHeap (·.set overlay name value)
    | .error _ => pure ()
    passProgressive tables ctx overlay cache rest

/-- The second pass, whose results are the answer. -/
def passComplete (tables : DependencyTables) (ctx : Context) :
    Cache → Resolved → Entries Declaration → EvalM (Resolved × Cache)
  | cache, resolved, [] => return (resolved, cache)
  | cache, resolved, (name, declaration) :: rest => do
    let (result, cache) ← resolveOne tables ctx cache .complete name declaration
    let resolved := match result with
      | .ok value => { resolved with values := resolved.values.insert name value }
      | .error failure => { resolved with failures := resolved.failures ++ [failure] }
    passComplete tables ctx cache resolved rest

/-- Resolves declarations next to the local context. -/
def resolveAll (tables : DependencyTables) (ctx : Context) (cache : Cache)
    (declarations : Entries Declaration) : EvalM (Resolved × Cache) := do
  let overlay ← snapshot ctx.locals
  let cache ← passProgressive tables { ctx with locals := overlay } overlay cache declarations
  let locals ← snapshot overlay
  passComplete tables { ctx with locals } cache {} declarations

end BindScript.Variables
