import BindScript.Proofs.Dependency.PathText
import BindScript.Proofs.Dependency.Scopes

/-!
# Dependencies are free names

`Expr.freeNames` collects the free names of an expression by the rule of lexical scoping: the names of all
parameters are bound in all defaults and in the body. The walk does not collect names but paths, and it
leaves out what is bound around the place where it stands. Still the names in the paths it finds, roots and
variable keys together, are just the names that are free (`Walk.Finds`): a path is taken as a whole only
if all its keys are free, and where its root is bound or it is called, its names are used one by one.

One kind of code is not walked over: the defaults inside a rest parameter. A name that is free only there
is no dependency (`rest_default_unwatched`), so the free names are collected with and without these.

Theorems:
- `visitExpr_finds`: what the walk finds in an expression, by recursion on the expression.
- `Expr.freeNames_subset`: what is free without the defaults of rest parameters is free with them.
- `watched_iff_free`: the names in the dependencies of an expression are its free names.
-/

namespace BindScript

open Dependency

/-! ## Free names -/

mutual

/-- The free names of an expression, those that stand in the defaults of rest parameters among them or
not. -/
def Expr.freeNames (rests : Bool) : Expr → List String
  | .name id => [id]
  | .literal _ => []
  | .template parts => TemplatePart.freeNames rests parts
  | .unary _ operand => operand.freeNames rests
  | .update _ _ operand => operand.freeNames rests
  | .binary _ left right => left.freeNames rests ++ right.freeNames rests
  | .conditional test consequent alternate =>
    test.freeNames rests ++ consequent.freeNames rests ++ alternate.freeNames rests
  | .sequence items => Expr.allFreeNames rests items
  | .array items => Expr.allFreeNames rests items
  | .object properties => Property.freeNames rests properties
  | .spread inner => inner.freeNames rests
  | .member object _ _ => object.freeNames rests
  | .index object key _ => object.freeNames rests ++ key.freeNames rests
  | .call callee args _ => callee.freeNames rests ++ Expr.allFreeNames rests args
  | .assign _ target value => target.freeNames rests ++ value.freeNames rests
  | .function definition => definition.freeNames rests

/-- The free names of expressions. -/
def Expr.allFreeNames (rests : Bool) : List Expr → List String
  | [] => []
  | e :: more => e.freeNames rests ++ Expr.allFreeNames rests more

/-- The free names of an optional expression. -/
def Expr.optionFreeNames (rests : Bool) : Option Expr → List String
  | none => []
  | some e => e.freeNames rests

/-- The free names of the holes of a template. -/
def TemplatePart.freeNames (rests : Bool) : List TemplatePart → List String
  | [] => []
  | .text _ :: more => TemplatePart.freeNames rests more
  | .hole e :: more => e.freeNames rests ++ TemplatePart.freeNames rests more

/-- The free names of the properties of an object literal. -/
def Property.freeNames (rests : Bool) : List Property → List String
  | [] => []
  | .named _ value :: more => value.freeNames rests ++ Property.freeNames rests more
  | .computed key value :: more =>
    key.freeNames rests ++ value.freeNames rests ++ Property.freeNames rests more
  | .spread source :: more => source.freeNames rests ++ Property.freeNames rests more

/-- The free names of a function: those of its defaults and its body that are no parameters. -/
def Function.freeNames (rests : Bool) : Function → List String
  | .mk params rest body =>
    let names := params.flatMap (fun p => p.target.boundNames) ++ Pattern.restNames rest
    let inRest := if rests then Pattern.restFreeNames rests rest else []
    (Element.freeNames rests params ++ inRest ++ body.freeNames rests).filter fun n => !names.contains n

/-- The free names of the body of a function, if it is an expression. -/
def Body.freeNames (rests : Bool) : Body → List String
  | .expr e => e.freeNames rests
  | .block _ => []

/-- The free names of the defaults of parameters. -/
def Element.freeNames (rests : Bool) : List Element → List String
  | [] => []
  | .mk target default :: more =>
    target.freeNames rests ++ Expr.optionFreeNames rests default ++ Element.freeNames rests more

/-- The free names of the defaults inside a pattern. -/
def Pattern.freeNames (rests : Bool) : Pattern → List String
  | .name _ => []
  | .array elements rest => Pattern.elementsFreeNames rests elements ++ Pattern.restFreeNames rests rest
  | .object fields _ => Pattern.fieldsFreeNames rests fields

/-- The free names of the defaults inside the elements of an array pattern. -/
def Pattern.elementsFreeNames (rests : Bool) : List (Option Element) → List String
  | [] => []
  | none :: more => Pattern.elementsFreeNames rests more
  | some (.mk target default) :: more =>
    target.freeNames rests ++ Expr.optionFreeNames rests default ++ Pattern.elementsFreeNames rests more

/-- The free names of the defaults inside the rest of an array pattern, or inside a rest parameter. -/
def Pattern.restFreeNames (rests : Bool) : Option Pattern → List String
  | none => []
  | some p => p.freeNames rests

/-- The free names of the defaults inside the fields of an object pattern. -/
def Pattern.fieldsFreeNames (rests : Bool) : List Field → List String
  | [] => []
  | .mk _ target default :: more =>
    target.freeNames rests ++ Expr.optionFreeNames rests default ++ Pattern.fieldsFreeNames rests more

end

mutual

/-- All functions inside the expression, outside of the defaults of rest parameters, have an expression for
a body. -/
def Expr.Blockless : Expr → Prop
  | .name _ => True
  | .literal _ => True
  | .template parts => TemplatePart.AllBlockless parts
  | .unary _ operand => operand.Blockless
  | .update _ _ operand => operand.Blockless
  | .binary _ left right => left.Blockless ∧ right.Blockless
  | .conditional test consequent alternate =>
    test.Blockless ∧ consequent.Blockless ∧ alternate.Blockless
  | .sequence items => Expr.AllBlockless items
  | .array items => Expr.AllBlockless items
  | .object properties => Property.AllBlockless properties
  | .spread inner => inner.Blockless
  | .member object _ _ => object.Blockless
  | .index object key _ => object.Blockless ∧ key.Blockless
  | .call callee args _ => callee.Blockless ∧ Expr.AllBlockless args
  | .assign _ target value => target.Blockless ∧ value.Blockless
  | .function definition => definition.Blockless

/-- So do the functions inside expressions. -/
def Expr.AllBlockless : List Expr → Prop
  | [] => True
  | e :: more => e.Blockless ∧ Expr.AllBlockless more

/-- So do the functions inside an optional expression. -/
def Expr.OptionBlockless : Option Expr → Prop
  | none => True
  | some e => e.Blockless

/-- So do the functions inside a template. -/
def TemplatePart.AllBlockless : List TemplatePart → Prop
  | [] => True
  | .text _ :: more => TemplatePart.AllBlockless more
  | .hole e :: more => e.Blockless ∧ TemplatePart.AllBlockless more

/-- So do the functions inside the properties of an object literal. -/
def Property.AllBlockless : List Property → Prop
  | [] => True
  | .named _ value :: more => value.Blockless ∧ Property.AllBlockless more
  | .computed key value :: more => key.Blockless ∧ value.Blockless ∧ Property.AllBlockless more
  | .spread source :: more => source.Blockless ∧ Property.AllBlockless more

/-- So do a function and those inside it. -/
def Function.Blockless : Function → Prop
  | .mk params _ body => Element.AllBlockless params ∧ body.Blockless

/-- The body of a function is an expression. -/
def Body.Blockless : Body → Prop
  | .expr e => e.Blockless
  | .block _ => False

/-- So do the functions inside the defaults of parameters. -/
def Element.AllBlockless : List Element → Prop
  | [] => True
  | .mk target default :: more =>
    target.Blockless ∧ Expr.OptionBlockless default ∧ Element.AllBlockless more

/-- So do the functions inside a pattern. -/
def Pattern.Blockless : Pattern → Prop
  | .name _ => True
  | .array elements rest => Pattern.ElementsBlockless elements ∧ Pattern.RestBlockless rest
  | .object fields _ => Pattern.FieldsBlockless fields

/-- So do the functions inside the elements of an array pattern. -/
def Pattern.ElementsBlockless : List (Option Element) → Prop
  | [] => True
  | none :: more => Pattern.ElementsBlockless more
  | some (.mk target default) :: more =>
    target.Blockless ∧ Expr.OptionBlockless default ∧ Pattern.ElementsBlockless more

/-- So do the functions inside the rest of an array pattern. -/
def Pattern.RestBlockless : Option Pattern → Prop
  | none => True
  | some p => p.Blockless

/-- So do the functions inside the fields of an object pattern. -/
def Pattern.FieldsBlockless : List Field → Prop
  | [] => True
  | .mk _ target default :: more =>
    target.Blockless ∧ Expr.OptionBlockless default ∧ Pattern.FieldsBlockless more

end

namespace Dependency

/-! ## What a step of the walk finds -/

/-- A name is the root or a variable key of the path. -/
def Path.Mentions (p : Path) (name : String) : Prop :=
  name = p.root ∨ name ∈ p.keyNames

namespace Walk

/-- A step of the walk finds paths that mention those of the names that are not bound around it. It notes
their roots, and leaves the scopes as they were. -/
structure Finds (w w' : Walk) (names : List String) : Prop where
  scopes : w'.scopes = w.scopes
  found : ∃ paths : List Path,
    (∀ d, d ∈ w'.found.dependencies ↔ d ∈ w.found.dependencies ∨ ∃ p ∈ paths, p.text = d) ∧
    (∀ n, n ∈ w'.found.names.keys ↔ n ∈ w.found.names.keys ∨ ∃ p ∈ paths, n = p.root) ∧
    ∀ n, (∃ p ∈ paths, p.Mentions n) ↔ n ∈ names ∧ w.scopes.isBound n = false

variable {w w' w'' : Walk} {names others : List String}

theorem Finds.nothing (w : Walk) : w.Finds w [] :=
  ⟨rfl, [], by simp, by simp, by simp⟩

theorem Finds.congr (finds : w.Finds w' names) (same : ∀ n, n ∈ names ↔ n ∈ others) :
    w.Finds w' others := by
  obtain ⟨scopes, paths, dependencies, roots, mentioned⟩ := finds
  exact ⟨scopes, paths, dependencies, roots, fun n => by rw [mentioned, same]⟩

/-- One step after another. -/
theorem Finds.next (first : w.Finds w' names) (second : w'.Finds w'' others) :
    w.Finds w'' (names ++ others) := by
  obtain ⟨scopes, paths, dependencies, roots, mentioned⟩ := first
  obtain ⟨scopes', paths', dependencies', roots', mentioned'⟩ := second
  refine ⟨scopes'.trans scopes, paths ++ paths', fun d => ?_, fun n => ?_, fun n => ?_⟩
  · rw [dependencies', dependencies, or_assoc]
    simp only [List.mem_append, or_and_right, exists_or]
  · rw [roots', roots, or_assoc]
    simp only [List.mem_append, or_and_right, exists_or]
  · rw [scopes] at mentioned'
    simp only [List.mem_append, or_and_right, exists_or, mentioned, mentioned']

/-- A path whose names are all free is found as a whole. -/
theorem addDependency_finds (w : Walk) {p : Path} (free : ∀ n, p.Mentions n → w.scopes.isBound n = false) :
    w.Finds (w.addDependency p.root p.text) (p.root :: p.keyNames) := by
  have single : ∀ P : Path → Prop, (∃ q ∈ [p], P q) ↔ P p := fun P => by simp
  refine ⟨rfl, [p], fun d => ?_, fun n => ?_, fun n => ?_⟩
  · show d ∈ insertNew w.found.dependencies p.text ↔ _
    rw [mem_insertNew, single fun q => q.text = d, eq_comm]
  · show n ∈ Entries.keys (if w.found.names.contains p.root then w.found.names
      else w.found.names.insert p.root .free) ↔ _
    rw [single fun q => n = q.root]
    by_cases known : w.found.names.contains p.root = true
    · rw [if_pos known]
      have mem := Entries.contains_iff_mem_keys.1 known
      exact ⟨.inl, fun either => either.elim id fun same => same ▸ mem⟩
    · rw [if_neg known, Entries.keys_insert, if_neg known]
      simp
  · rw [single fun q => q.Mentions n, List.mem_cons]
    exact ⟨fun mentioned => ⟨mentioned, free n mentioned⟩, And.left⟩

/-- A name is found if it is free. -/
theorem useName_finds (w : Walk) (name : String) : w.Finds (w.useName name) [name] := by
  unfold useName
  by_cases isBound : w.scopes.isBound name = true
  · rw [if_pos isBound]
    refine ⟨rfl, [], by simp, by simp, fun n => ?_⟩
    constructor
    · rintro ⟨p, mem, -⟩
      cases mem
    · rintro ⟨mem, free⟩
      rw [List.mem_singleton.1 mem, isBound] at free
      cases free
  · rw [if_neg isBound]
    have free : w.scopes.isBound name = false := by simpa using isBound
    have text : ({ root := name } : Path).text = name := by simp [Path.text]
    have finds := addDependency_finds w (p := { root := name }) fun n mentioned => by
      rcases mentioned with same | key
      · exact same ▸ free
      · cases key
    rw [text] at finds
    exact finds

theorem useNames_finds (w : Walk) (names : List String) : w.Finds (names.foldl useName w) names := by
  induction names generalizing w with
  | nil => exact .nothing w
  | cons name rest ih => exact (useName_finds w name).next (ih _)

/-- A path whose keys are free is found as a whole, or its keys are found if its root is bound. -/
theorem usePath_finds (w : Walk) {p : Path} (keys : ∀ n ∈ p.keyNames, w.scopes.isBound n = false) :
    w.Finds (w.usePath p) (p.root :: p.keyNames) := by
  unfold usePath
  by_cases isBound : w.scopes.isBound p.root = true
  · rw [if_pos isBound]
    obtain ⟨scopes, paths, dependencies, roots, mentioned⟩ := useNames_finds w p.keyNames
    refine ⟨scopes, paths, dependencies, roots, fun n => ?_⟩
    rw [mentioned, List.mem_cons]
    constructor
    · rintro ⟨mem, free⟩
      exact ⟨.inr mem, free⟩
    · rintro ⟨same | mem, free⟩
      · rw [same, isBound] at free
        cases free
      · exact ⟨mem, free⟩
  · rw [if_neg isBound]
    have root : w.scopes.isBound p.root = false := by simpa using isBound
    refine addDependency_finds w fun n mentioned => ?_
    rcases mentioned with same | key
    · exact same ▸ root
    · exact keys n key

/-! ## Functions -/

/-- Names that are declared one after another are added to the innermost scope, and nothing else changes. -/
theorem declareAll_eq (names : List String) : ∀ (w : Walk) (scope : Scope) (outer : Scopes),
    w.scopes = scope :: outer → ∃ declared, (∀ n, n ∈ declared ↔ n ∈ names ∨ n ∈ scope.names) ∧
      names.foldl declare w = { w with scopes := { scope with names := declared } :: outer } := by
  induction names with
  | nil =>
    intro w scope outer scopes
    refine ⟨scope.names, by simp, ?_⟩
    rw [List.foldl_nil, ← scopes]
  | cons name rest ih =>
    intro w scope outer scopes
    have declares : w.declare name =
        { w with scopes := { scope with names := name :: scope.names } :: outer } := by
      rw [declare, scopes]
      rfl
    obtain ⟨declared, mem, folds⟩ := ih (w.declare name) { scope with names := name :: scope.names } outer
      (by rw [declares])
    refine ⟨declared, fun n => ?_, ?_⟩
    · rw [mem]
      simp only [List.mem_cons]
      rw [or_left_comm, or_assoc]
    · rw [List.foldl_cons, folds, declares]

/-- What is found inside a function is free outside of it unless it is one of its names. -/
theorem inFunction_finds (w : Walk) (names : List String) (visit : Walk → Walk)
    (finds : ∀ w : Walk, w.Finds (visit w) others) :
    w.Finds (w.inScope true fun w => visit (names.foldl declare w))
      (others.filter fun n => !names.contains n) := by
  obtain ⟨declared, mem, folds⟩ := declareAll_eq names { w with scopes := { isFunction := true } :: w.scopes }
    { isFunction := true } w.scopes rfl
  unfold inScope
  dsimp only
  rw [folds]
  obtain ⟨scopes, paths, dependencies, roots, mentioned⟩ :=
    finds { w with scopes := ⟨true, declared⟩ :: w.scopes }
  refine ⟨?_, paths, dependencies, roots, fun n => ?_⟩
  · dsimp only
    rw [scopes]
    rfl
  · have mem : n ∈ declared ↔ n ∈ names := by simpa using mem n
    rw [mentioned, List.mem_filter]
    simp only [Scopes.isBound, List.any_cons, Bool.or_eq_false_iff, List.contains_eq_mem,
      decide_eq_false_iff_not, Bool.not_eq_true', mem, and_assoc]

end Walk

/-! ## Chains -/

/-- The names of a path are those of the chain that folds into it. -/
theorem fold?_mentions {isBound : String → Bool} {rests : Bool} :
    ∀ {e : Expr} {path : Path}, fold? isBound e = some path →
      ∀ n, n ∈ e.freeNames rests ↔ path.Mentions n
  | .name name, path, folds, n => by
    obtain rfl := Option.some.inj folds
    simp [Expr.freeNames, Path.Mentions, Path.keyNames]
  | .member object property _, path, folds, n => by
    obtain ⟨start, isPath, rfl⟩ := Option.map_eq_some_iff.1 folds
    unfold Expr.freeNames Path.Mentions
    rw [fold?_mentions isPath n, keyNames_push_property]
    rfl
  | .index object key optional, path, folds, n => by
    obtain ⟨segment, start, isKey, isPath, rfl⟩ := fold?_index folds
    unfold Expr.freeNames
    rw [List.mem_append, fold?_mentions isPath n]
    unfold Path.Mentions
    rcases foldKey?_cases isKey with ⟨l, text, rfl, rfl⟩ | ⟨name, rfl, rfl⟩
    · rw [keyNames_push_property, Path.push]
      simp [Expr.freeNames]
    · rw [keyNames_push_nameKey, Path.push]
      simp [Expr.freeNames, or_assoc]

/-- The variables among the keys of a path are not bound. -/
theorem fold?_keys_free {isBound : String → Bool} :
    ∀ {e : Expr} {path : Path}, fold? isBound e = some path → ∀ n ∈ path.keyNames, isBound n = false
  | .name name, path, folds, n, mem => by
    obtain rfl := Option.some.inj folds
    cases mem
  | .member object property _, path, folds, n, mem => by
    obtain ⟨start, isPath, rfl⟩ := Option.map_eq_some_iff.1 folds
    rw [keyNames_push_property] at mem
    exact fold?_keys_free isPath n mem
  | .index object key optional, path, folds, n, mem => by
    obtain ⟨segment, start, isKey, isPath, rfl⟩ := fold?_index folds
    rcases foldKey?_cases isKey with ⟨l, text, rfl, rfl⟩ | ⟨name, rfl, rfl⟩
    · rw [keyNames_push_property] at mem
      exact fold?_keys_free isPath n mem
    · rw [keyNames_push_nameKey, List.mem_append, List.mem_singleton] at mem
      rcases mem with old | rfl
      · exact fold?_keys_free isPath n old
      · simp only [foldKey?] at isKey
        split at isKey
        · cases isKey
        · next free => simpa using free

/-! ## The walk over an expression -/

open Walk

/-- A callee that folds into a path is used name by name, unless its method is tracked. -/
theorem callee_finds {w : Walk} {callee : Expr} {path : Path} (folds : w.fold? callee = some path)
    (tracked : Bool) :
    w.Finds (if tracked then w.usePath path else (w.useName path.root).useKeyNames path)
      (callee.freeNames false) := by
  have names : ∀ n, n ∈ path.root :: path.keyNames ↔ n ∈ callee.freeNames false := fun n =>
    List.mem_cons.trans (fold?_mentions folds n).symm
  cases tracked with
  | true => exact (usePath_finds w (fold?_keys_free folds)).congr names
  | false => exact ((useName_finds w path.root).next (useNames_finds _ path.keyNames)).congr names

mutual

/-- An expression without blocks is found to mention its free names. -/
theorem visitExpr_finds : ∀ (e : Expr) (w : Walk), e.Blockless → w.Finds (visitExpr e w) (e.freeNames false)
  | .name id, w, _ => useName_finds w id
  | .literal _, w, _ => .nothing w
  | .template parts, w, plain => visitParts_finds parts w plain
  | .unary _ operand, w, plain => visitExpr_finds operand w plain
  | .update _ _ operand, w, plain => visitExpr_finds operand w plain
  | .binary _ left right, w, plain => by
    unfold Expr.Blockless at plain
    unfold visitExpr Expr.freeNames
    exact (visitExpr_finds left w plain.1).next (visitExpr_finds right _ plain.2)
  | .conditional test consequent alternate, w, plain => by
    unfold Expr.Blockless at plain
    unfold visitExpr Expr.freeNames
    have first := (visitExpr_finds test w plain.1).next (visitExpr_finds consequent _ plain.2.1)
    exact first.next (visitExpr_finds alternate _ plain.2.2)
  | .sequence items, w, plain => visitExprs_finds items w plain
  | .array items, w, plain => visitExprs_finds items w plain
  | .object properties, w, plain => visitProperties_finds properties w plain
  | .spread inner, w, plain => visitExpr_finds inner w plain
  | .member object property optional, w, plain => by
    unfold visitExpr
    -- a chain that folds is one path; the links of another are walked one by one
    cases folds : w.fold? (.member object property optional) with
    | none =>
      unfold Expr.Blockless at plain
      exact visitExpr_finds object w plain
    | some path =>
      exact (usePath_finds w (fold?_keys_free folds)).congr fun n =>
        List.mem_cons.trans (fold?_mentions folds n).symm
  | .index object key optional, w, plain => by
    unfold visitExpr
    cases folds : w.fold? (.index object key optional) with
    | none =>
      unfold Expr.Blockless at plain
      unfold Expr.freeNames
      exact (visitExpr_finds object w plain.1).next (visitExpr_finds key _ plain.2)
    | some path =>
      exact (usePath_finds w (fold?_keys_free folds)).congr fun n =>
        List.mem_cons.trans (fold?_mentions folds n).symm
  | .call callee args optional, w, plain => by
    unfold Expr.Blockless at plain
    unfold visitExpr Expr.freeNames
    dsimp only
    refine Finds.next ?_ (visitExprs_finds args _ plain.2)
    -- a callee that folds is not one path: its method is no property that is watched
    cases folds : w.fold? callee with
    | none => exact visitExpr_finds callee w plain.1
    | some path => exact callee_finds folds _
  | .assign _ target value, w, plain => by
    unfold Expr.Blockless at plain
    unfold visitExpr Expr.freeNames
    exact (visitExpr_finds target w plain.1).next (visitExpr_finds value _ plain.2)
  | .function definition, w, plain => visitFunction_finds definition w plain

theorem visitExprs_finds : ∀ (es : List Expr) (w : Walk), Expr.AllBlockless es →
    w.Finds (visitExprs es w) (Expr.allFreeNames false es)
  | [], w, _ => .nothing w
  | e :: more, w, plain => by
    unfold Expr.AllBlockless at plain
    unfold visitExprs Expr.allFreeNames
    exact (visitExpr_finds e w plain.1).next (visitExprs_finds more _ plain.2)

theorem visitOption_finds : ∀ (e : Option Expr) (w : Walk), Expr.OptionBlockless e →
    w.Finds (visitOption e w) (Expr.optionFreeNames false e)
  | none, w, _ => .nothing w
  | some e, w, plain => visitExpr_finds e w plain

theorem visitParts_finds : ∀ (parts : List TemplatePart) (w : Walk), TemplatePart.AllBlockless parts →
    w.Finds (visitParts parts w) (TemplatePart.freeNames false parts)
  | [], w, _ => .nothing w
  | .text _ :: more, w, plain => visitParts_finds more w plain
  | .hole e :: more, w, plain => by
    unfold TemplatePart.AllBlockless at plain
    unfold visitParts TemplatePart.freeNames
    exact (visitExpr_finds e w plain.1).next (visitParts_finds more _ plain.2)

theorem visitProperties_finds : ∀ (properties : List Property) (w : Walk), Property.AllBlockless properties →
    w.Finds (visitProperties properties w) (Property.freeNames false properties)
  | [], w, _ => .nothing w
  | .named _ value :: more, w, plain => by
    unfold Property.AllBlockless at plain
    unfold visitProperties Property.freeNames
    exact (visitExpr_finds value w plain.1).next (visitProperties_finds more _ plain.2)
  | .computed key value :: more, w, plain => by
    unfold Property.AllBlockless at plain
    unfold visitProperties Property.freeNames
    have first := (visitExpr_finds key w plain.1).next (visitExpr_finds value _ plain.2.1)
    exact first.next (visitProperties_finds more _ plain.2.2)
  | .spread source :: more, w, plain => by
    unfold Property.AllBlockless at plain
    unfold visitProperties Property.freeNames
    exact (visitExpr_finds source w plain.1).next (visitProperties_finds more _ plain.2)

theorem visitFunction_finds : ∀ (f : Function) (w : Walk), f.Blockless →
    w.Finds (visitFunction f w) (f.freeNames false)
  | .mk params rest body, w, plain => by
    unfold Function.Blockless at plain
    unfold visitFunction Function.freeNames
    dsimp only
    -- nothing is visited for the rest parameter, and no free names are counted for it
    rw [if_neg Bool.false_ne_true, List.append_nil]
    refine inFunction_finds w _ (fun w => visitBody body (visitParams params w)) fun w => ?_
    exact (visitParams_finds params w plain.1).next (visitBody_finds body _ plain.2)

theorem visitBody_finds : ∀ (body : Body) (w : Walk), body.Blockless →
    w.Finds (visitBody body w) (body.freeNames false)
  | .expr e, w, plain => visitExpr_finds e w plain
  | .block _, _, plain => plain.elim

theorem visitParams_finds : ∀ (params : List Element) (w : Walk), Element.AllBlockless params →
    w.Finds (visitParams params w) (Element.freeNames false params)
  | [], w, _ => .nothing w
  | .mk target default :: more, w, plain => by
    unfold Element.AllBlockless at plain
    unfold visitParams Element.freeNames
    have first := (visitDefaults_finds target w plain.1).next (visitOption_finds default _ plain.2.1)
    exact first.next (visitParams_finds more _ plain.2.2)

theorem visitDefaults_finds : ∀ (p : Pattern) (w : Walk), p.Blockless →
    w.Finds (visitDefaults p w) (p.freeNames false)
  | .name _, w, _ => .nothing w
  | .array elements rest, w, plain => by
    unfold Pattern.Blockless at plain
    unfold visitDefaults Pattern.freeNames
    exact (visitElements_finds elements w plain.1).next (visitRest_finds rest _ plain.2)
  | .object fields _, w, plain => visitFields_finds fields w plain

theorem visitElements_finds : ∀ (elements : List (Option Element)) (w : Walk),
    Pattern.ElementsBlockless elements →
    w.Finds (visitElements elements w) (Pattern.elementsFreeNames false elements)
  | [], w, _ => .nothing w
  | none :: more, w, plain => visitElements_finds more w plain
  | some (.mk target default) :: more, w, plain => by
    unfold Pattern.ElementsBlockless at plain
    unfold visitElements Pattern.elementsFreeNames
    have first := (visitDefaults_finds target w plain.1).next (visitOption_finds default _ plain.2.1)
    exact first.next (visitElements_finds more _ plain.2.2)

theorem visitRest_finds : ∀ (rest : Option Pattern) (w : Walk), Pattern.RestBlockless rest →
    w.Finds (visitRest rest w) (Pattern.restFreeNames false rest)
  | none, w, _ => .nothing w
  | some p, w, plain => visitDefaults_finds p w plain

theorem visitFields_finds : ∀ (fields : List Field) (w : Walk), Pattern.FieldsBlockless fields →
    w.Finds (visitFields fields w) (Pattern.fieldsFreeNames false fields)
  | [], w, _ => .nothing w
  | .mk _ target default :: more, w, plain => by
    unfold Pattern.FieldsBlockless at plain
    unfold visitFields Pattern.fieldsFreeNames
    have first := (visitDefaults_finds target w plain.1).next (visitOption_finds default _ plain.2.1)
    exact first.next (visitFields_finds more _ plain.2.2)

end

end Dependency

/-! ## Free names inside and outside of rest parameters -/

private theorem append_subset_append {xs ys xs' ys' : List String} (left : xs ⊆ xs') (right : ys ⊆ ys') :
    xs ++ ys ⊆ xs' ++ ys' :=
  List.append_subset.2 ⟨List.subset_append_of_subset_left _ left, List.subset_append_of_subset_right _ right⟩

mutual

/-- What is free without the defaults of rest parameters is free with them. -/
theorem Expr.freeNames_subset : ∀ e : Expr, e.freeNames false ⊆ e.freeNames true
  | .name _ => fun _ mem => mem
  | .literal _ => fun _ mem => mem
  | .template parts => TemplatePart.freeNames_subset parts
  | .unary _ operand => operand.freeNames_subset
  | .update _ _ operand => operand.freeNames_subset
  | .binary _ left right => by
    unfold Expr.freeNames
    exact append_subset_append left.freeNames_subset right.freeNames_subset
  | .conditional test consequent alternate => by
    unfold Expr.freeNames
    have first := append_subset_append test.freeNames_subset consequent.freeNames_subset
    exact append_subset_append first alternate.freeNames_subset
  | .sequence items => Expr.allFreeNames_subset items
  | .array items => Expr.allFreeNames_subset items
  | .object properties => Property.freeNames_subset properties
  | .spread inner => inner.freeNames_subset
  | .member object _ _ => object.freeNames_subset
  | .index object key _ => by
    unfold Expr.freeNames
    exact append_subset_append object.freeNames_subset key.freeNames_subset
  | .call callee args _ => by
    unfold Expr.freeNames
    exact append_subset_append callee.freeNames_subset (Expr.allFreeNames_subset args)
  | .assign _ target value => by
    unfold Expr.freeNames
    exact append_subset_append target.freeNames_subset value.freeNames_subset
  | .function definition => definition.freeNames_subset

theorem Expr.allFreeNames_subset : ∀ es : List Expr, Expr.allFreeNames false es ⊆ Expr.allFreeNames true es
  | [] => fun _ mem => mem
  | e :: more => append_subset_append e.freeNames_subset (Expr.allFreeNames_subset more)

theorem Expr.optionFreeNames_subset :
    ∀ e : Option Expr, Expr.optionFreeNames false e ⊆ Expr.optionFreeNames true e
  | none => fun _ mem => mem
  | some e => e.freeNames_subset

theorem TemplatePart.freeNames_subset :
    ∀ parts : List TemplatePart, TemplatePart.freeNames false parts ⊆ TemplatePart.freeNames true parts
  | [] => fun _ mem => mem
  | .text _ :: more => TemplatePart.freeNames_subset more
  | .hole e :: more => append_subset_append e.freeNames_subset (TemplatePart.freeNames_subset more)

theorem Property.freeNames_subset :
    ∀ properties : List Property, Property.freeNames false properties ⊆ Property.freeNames true properties
  | [] => fun _ mem => mem
  | .named _ value :: more =>
    append_subset_append value.freeNames_subset (Property.freeNames_subset more)
  | .computed key value :: more => by
    unfold Property.freeNames
    have first := append_subset_append key.freeNames_subset value.freeNames_subset
    exact append_subset_append first (Property.freeNames_subset more)
  | .spread source :: more =>
    append_subset_append source.freeNames_subset (Property.freeNames_subset more)

theorem Function.freeNames_subset : ∀ f : Function, f.freeNames false ⊆ f.freeNames true
  | .mk params rest body => by
    unfold Function.freeNames
    intro n mem
    obtain ⟨mem, outer⟩ := List.mem_filter.1 mem
    refine List.mem_filter.2 ⟨?_, outer⟩
    have first := append_subset_append (Element.freeNames_subset params)
      (List.nil_subset (Pattern.restFreeNames true rest))
    exact append_subset_append first body.freeNames_subset mem

theorem Body.freeNames_subset : ∀ body : Body, body.freeNames false ⊆ body.freeNames true
  | .expr e => e.freeNames_subset
  | .block _ => fun _ mem => mem

theorem Element.freeNames_subset :
    ∀ params : List Element, Element.freeNames false params ⊆ Element.freeNames true params
  | [] => fun _ mem => mem
  | .mk target default :: more => by
    unfold Element.freeNames
    have first := append_subset_append target.freeNames_subset (Expr.optionFreeNames_subset default)
    exact append_subset_append first (Element.freeNames_subset more)

theorem Pattern.freeNames_subset : ∀ p : Pattern, p.freeNames false ⊆ p.freeNames true
  | .name _ => fun _ mem => mem
  | .array elements rest => by
    unfold Pattern.freeNames
    exact append_subset_append (Pattern.elementsFreeNames_subset elements)
      (Pattern.restFreeNames_subset rest)
  | .object fields _ => Pattern.fieldsFreeNames_subset fields

theorem Pattern.elementsFreeNames_subset : ∀ elements : List (Option Element),
    Pattern.elementsFreeNames false elements ⊆ Pattern.elementsFreeNames true elements
  | [] => fun _ mem => mem
  | none :: more => Pattern.elementsFreeNames_subset more
  | some (.mk target default) :: more => by
    unfold Pattern.elementsFreeNames
    have first := append_subset_append target.freeNames_subset (Expr.optionFreeNames_subset default)
    exact append_subset_append first (Pattern.elementsFreeNames_subset more)

theorem Pattern.restFreeNames_subset :
    ∀ rest : Option Pattern, Pattern.restFreeNames false rest ⊆ Pattern.restFreeNames true rest
  | none => fun _ mem => mem
  | some p => p.freeNames_subset

theorem Pattern.fieldsFreeNames_subset :
    ∀ fields : List Field, Pattern.fieldsFreeNames false fields ⊆ Pattern.fieldsFreeNames true fields
  | [] => fun _ mem => mem
  | .mk _ target default :: more => by
    unfold Pattern.fieldsFreeNames
    have first := append_subset_append target.freeNames_subset (Expr.optionFreeNames_subset default)
    exact append_subset_append first (Pattern.fieldsFreeNames_subset more)

end

namespace Dependency

/-! ## Dependencies -/

/-- A text among the dependencies is read back as a path that mentions the name. -/
def Resolution.Watches (r : Resolution) (name : String) : Prop :=
  ∃ d ∈ r.dependencies, ∃ p, Path.parse? d = some p ∧ p.Mentions name

/-- Every dependency of an expression is the text of a path. The names in these paths are the free names of
the expression, except that a name which is free only in the defaults of a rest parameter is missing; and
the top-level names are the roots of the paths. -/
theorem watched_iff_free (apis : TrackedApis) {e : Expr} (plain : e.Blockless)
    (named : ∀ n ∈ e.freeNames false, Text.isIdentifier n = true) :
    (∀ d ∈ (resolve apis (.expression e) {}).dependencies, ∃ p, Path.parse? d = some p) ∧
      (∀ n, (resolve apis (.expression e) {}).Watches n ↔ n ∈ e.freeNames false) ∧
      (∀ n, n ∈ e.freeNames false → n ∈ e.freeNames true) ∧
      ∀ n, n ∈ (resolve apis (.expression e) {}).names.keys ↔
        ∃ d ∈ (resolve apis (.expression e) {}).dependencies, ∃ p, Path.parse? d = some p ∧ n = p.root := by
  obtain ⟨-, paths, dependencies, roots, mentioned⟩ :=
    visitExpr_finds e { apis, scopes := [{ isFunction := false }] } plain
  have free : ∀ n, (∃ p ∈ paths, p.Mentions n) ↔ n ∈ e.freeNames false := fun n =>
    (mentioned n).trans (and_iff_left rfl)
  have parsed : ∀ p ∈ paths, Path.parse? p.text = some p := by
    intro p mem
    have identifier : ∀ n, p.Mentions n → Text.isIdentifier n = true := fun n mentions =>
      named n ((free n).1 ⟨p, mem, mentions⟩)
    exact Path.parse?_text ⟨identifier _ (.inl rfl), fun n key => identifier n (.inr key)⟩
  have found : ∀ d, d ∈ (resolve apis (.expression e) {}).dependencies ↔ ∃ p ∈ paths, p.text = d :=
    fun d => (dependencies d).trans (or_iff_right List.not_mem_nil)
  -- what is said of the paths that were found is said of the texts that are read back
  have readBack : ∀ Q : Path → Prop, (∃ d ∈ (resolve apis (.expression e) {}).dependencies,
      ∃ p, Path.parse? d = some p ∧ Q p) ↔ ∃ p ∈ paths, Q p := by
    intro Q
    constructor
    · rintro ⟨d, mem, p, read, holds⟩
      obtain ⟨q, inPaths, rfl⟩ := (found d).1 mem
      cases (parsed q inPaths).symm.trans read
      exact ⟨p, inPaths, holds⟩
    · rintro ⟨p, mem, holds⟩
      exact ⟨p.text, (found _).2 ⟨p, mem, rfl⟩, p, parsed p mem, holds⟩
  refine ⟨fun d mem => ?_, fun n => (readBack _).trans (free n), fun n mem => e.freeNames_subset mem,
    fun n => ?_⟩
  · obtain ⟨p, inPaths, rfl⟩ := (found d).1 mem
    exact ⟨p, parsed p inPaths⟩
  · exact ((roots n).trans (or_iff_right List.not_mem_nil)).trans (readBack fun p => n = p.root).symm

/-! An arrow with a default that reads a free name, a chain with a free key on a bound root, and a call. -/

/-- `(a = b, ...more) => a[key] + lib.size(more)` -/
def arrow : Expr :=
  .function (.mk [.mk (.name "a") (some (.name "b"))] (some (.name "more"))
    (.expr (.binary .add (.index (.name "a") (.name "key") false)
      (.call (.member (.name "lib") "size" false) [.name "more"] false))))

/-- Of its names exactly those are watched that it does not bind itself: the one in the default, the key and the
callee. -/
theorem arrow_watched :
    (∀ n ∈ arrow.freeNames false, Text.isIdentifier n = true) ∧ arrow.freeNames true = ["b", "key", "lib"] ∧
      ∀ n, (resolve {} (.expression arrow) {}).Watches n ↔ n ∈ arrow.freeNames false := by
  have named : ∀ n ∈ arrow.freeNames false, Text.isIdentifier n = true := by decide +kernel
  have plain : arrow.Blockless := ⟨⟨trivial, trivial, trivial⟩, ⟨trivial, trivial⟩, trivial, trivial, trivial⟩
  exact ⟨named, rfl, (watched_iff_free {} plain named).2.1⟩

/-- A default inside a rest parameter reads a name that is bound nowhere, and the name is not watched. -/
theorem rest_default_unwatched :
    ¬ ∀ (apis : TrackedApis) (e : Expr), e.Blockless →
      (∀ n ∈ e.freeNames true, Text.isIdentifier n = true) →
      ∀ n, n ∈ e.freeNames true → (resolve apis (.expression e) {}).Watches n := by
  intro watches
  obtain ⟨d, mem, -⟩ := watches {} (.call (.function (.mk []
      (some (.array [some (.mk (.name "a") (some (.name "b")))] none)) (.expr (.name "a")))) [] false)
    ⟨⟨trivial, trivial⟩, trivial⟩ (by decide +kernel) "b" (by decide)
  cases mem

end Dependency

end BindScript
