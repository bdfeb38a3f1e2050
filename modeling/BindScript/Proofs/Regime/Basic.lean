import Mathlib
import BindScript.Evaluation.Method.Name
import BindScript.Evaluation.Basic
import BindScript.Proofs.Syntax.Nodes
import BindScript.Proofs.Frame.Enclosure

/-!
# What a run keeps to

A `Regime` says what holds of everything that a run has to do with: the part of the heap that it may get at, the
rule that its code obeys, and, if sizes are watched, how long its strings and arrays are. All values a run has in
its hands are as the regime says (`Holds`), and so are the heap (`Fits`) and the scopes (`At`).

A second run may stand next to the first. It has the same context, or the lenient one where the first is strict.
`R.Follows Q x₁ x₂` says that from every state of the regime the step `x₂` ends as `x₁` does, in the same state;
only if the runs may part, and `x₁` fails, nothing is said of `x₂`. With one context for both runs this speaks
about a single run.

The zone is fixed when the runs start, and what the heap does not have yet is in it: a regime does not change while
a run goes on.
-/

/-!
## Code that checks what it builds

Strings and arrays are built in many places, and some of them do not look at how long the result gets. Code is
guarded if it builds nothing there: in its lists nothing but spreads stands after a spread, in its templates no
text stands after a hole, and it calls none of the methods that do not check their result (`NodeRule.guarded`).
Of the native functions, those that check are `IsSized`, and so are functions of a host that make nothing long.
-/

namespace BindScript

/-- Whatever the program sees, it makes no string and no array that is too long. -/
def HostProgram.IsSized : HostProgram → Prop
  | answer _ | fail _ => True
  | look _ next => ∀ view, (next view).IsSized
  | same _ _ next | set _ _ _ next => ∀ answer, (next answer).IsSized
  | hold literal next =>
    (match literal with
      | .string s => s.utf8ByteSize ≤ maxStringLength
      | _ => True) ∧ next.IsSized
  | newArray items next => items.length ≤ maxArrayLength ∧ next.IsSized
  | get _ _ next | newObject _ next | freeze _ next | interrupt next | note _ next => next.IsSized
  | readNotes next => ∀ notes, (next notes).IsSized

/-- A native function only gives what it was given, or what is short. -/
def NativeFn.IsSized : NativeFn → Prop
  | stringify | parse | keys | values | entries | string => False
  | host fn => ∀ given, given ≤ maxArrayLength → (fn.body given).IsSized
  | _ => True

/-- A string is no longer than strings may be, and a native function keeps to that. -/
def Value.Sized : Value → Prop
  | .string s => s.utf8ByteSize ≤ maxStringLength
  | .native f _ => f.IsSized
  | _ => True

/-- The globals that hold native functions which do not check what they build. -/
def unguardedGlobals : List String :=
  ["JSON", "Object", "String"]

/-- The methods that do not check what they build, or whose check is one of rounded numbers. -/
def unguardedMethods : List String :=
  ["split", "toUpperCase", "toLowerCase", "replace", "replaceAll", "repeat", "toFixed", "toString"]

/-- Whether a method checks what it builds, or builds nothing long. -/
def Method.isSized : Method → Bool
  | string method => !(method matches .split | .toUpperCase | .toLowerCase | .replace | .replaceAll | .repeat)
  | number _ => false
  | array _ | hasOwnProperty => true

private theorem mem_of_lookup {α : Type} {l : List (String × α)} {name : String} {a : α}
    (found : l.lookup name = some a) : (name, a) ∈ l := by
  obtain ⟨before, after, rfl, -⟩ := List.lookup_eq_some_iff.1 found
  exact List.mem_append_cons_self

/-- A method that is found under a name outside of the list is sized. -/
theorem Method.isSized_of_find? {receiver : Value} {name : String} {m : Method}
    (found : Method.find? receiver name = some m) (guarded : name ∉ unguardedMethods) : m.isSized = true := by
  unfold Method.find? at found
  split at found
  · split at found
    · cases found
      rfl
    · obtain ⟨method, -, rfl⟩ := Option.map_eq_some_iff.1 found
      rfl
  · obtain ⟨method, named, rfl⟩ := Option.map_eq_some_iff.1 found
    have sized : ∀ entry ∈ StringMethod.named, entry.1 ∉ unguardedMethods → (string entry.2).isSized = true := by
      decide
    exact sized _ (mem_of_lookup named) guarded
  · obtain ⟨method, named, rfl⟩ := Option.map_eq_some_iff.1 found
    have sized : ∀ entry ∈ NumberMethod.named, entry.1 ∉ unguardedMethods → (number entry.2).isSized = true := by
      decide
    exact sized _ (mem_of_lookup named) guarded
  · split at found
    · cases found
      rfl
    · cases found
  · cases found

namespace Expr

/-- In a list, nothing but spreads stands after the first spread, and not too much before it. -/
def ListGuarded (items : List Expr) : Prop :=
  ∃ plain spread : List Expr, items = plain ++ spread.map .spread ∧ (∀ e ∈ plain, ∀ inner, e ≠ .spread inner) ∧
    plain.length ≤ maxArrayLength

/-- What is called is no method that does not check, nor one that is only known when it is called. -/
def CalleeGuarded : Expr → Prop
  | .member _ property _ => property ∉ unguardedMethods
  | .index .. => False
  | _ => True

/-- In a template, no text stands after a hole, and not too much before the first. -/
def TemplateGuarded (parts : List TemplatePart) : Prop :=
  ∃ (text : List String) (holes : List Expr), parts = text.map .text ++ holes.map .hole ∧
    (text.map String.utf8ByteSize).sum ≤ maxStringLength

end Expr

/-- Every node of the code checks what it builds, or builds nothing long. -/
def NodeRule.guarded : NodeRule where
  expr
    | .name id => id ∉ unguardedGlobals
    | .literal l => (Value.ofLiteral l).Sized
    | .template parts => Expr.TemplateGuarded parts
    | .array items => Expr.ListGuarded items
    | .call callee args _ => callee.CalleeGuarded ∧ Expr.ListGuarded args
    | _ => True
  pattern
    | .array _ rest => rest = none
    | _ => True
  stmt
    | .forEach visits .. => visits = .items
    | .attempt _ handler _ => handler = none
    | _ => True

/-! ## Regimes -/

/-- The same context, in which unknown names and reads from nothing give `undefined`. -/
def Context.lenient (ctx : Context) : Context :=
  { ctx with options := { ctx.options with strict := false } }

/-- A value of the zone, and a sized one if sizes are watched. -/
def Zone.Admits (z : Zone) (sized : Prop) (v : Value) : Prop :=
  z.Holds v ∧ (sized → v.Sized)

/-- What a run, and the one next to it, keep to. -/
structure Regime where
  /-- What the runs may get at. -/
  zone : Zone
  /-- The heap that what lies outside of the zone is compared with. -/
  first : Heap
  /-- What all code obeys. -/
  code : NodeRule
  /-- Sizes are watched. -/
  sized : Prop
  /-- Once the first run has failed, the second one may go on. -/
  parts : Prop
  left : Context
  right : Context
  contexts : right = left ∨ parts ∧ left.options.strict = true ∧ right = left.lenient
  locals : zone.Admits sized left.locals
  app : zone.Admits sized left.app
  /-- Those of the globals that code may name. -/
  globals : ∀ id v, code.expr (.name id) → left.globals.get? id = some v → zone.Admits sized v
  /-- Where the runs may part, no failure is caught. -/
  untried : parts → ∀ statements handler finalizer, ¬ code.stmt (.attempt statements handler finalizer)
  guarded : sized → code.Le .guarded

namespace Regime

variable {R : Regime} {α β : Type} {h : Heap} {v u : Value} {s t : State}

/-- A value that a run may have in its hands. -/
def Holds (R : Regime) (v : Value) : Prop :=
  R.zone.Admits R.sized v

/-- The length of an array. -/
def Length (R : Regime) (n : Nat) : Prop :=
  R.sized → n ≤ maxArrayLength

/-- The heaps that a run goes through. -/
structure Fits (R : Regime) (h : Heap) : Prop where
  encloses : R.zone.Encloses R.first h
  code : ∀ c, R.zone.closures c → (h.closureAt c).definition.Obeys R.code
  lengths : ∀ a, R.zone.arrays a → R.Length (h.items a).size
  inside : R.sized → ∀ v, v.isContainer = true → R.zone.Holds v → ∀ u ∈ h.children v, u.Sized
  cells : R.sized → ∀ c, R.zone.cells c → (h.cellAt c).Sized

/-- Scopes with cells of the zone. -/
def Scopes (R : Regime) (env : Environment) : Prop :=
  ∀ b ∈ env.bindings.toList, R.zone.cells b.cell

/-- The states that a run goes through. -/
structure At (R : Regime) (s : State) : Prop where
  heap : R.Fits s.heap
  scopes : R.Scopes s.env

/-- What a run may end with when it gives no value. -/
def Leaves (R : Regime) : Exit → Prop
  | .jump (.ret v) => R.Holds v
  | .error (.thrown v) => R.Holds v
  | _ => True

end Regime

/-- Ends that are no jumps. -/
def Exit.Fails : Exit → Prop
  | .jump _ => False
  | _ => True

namespace Regime

variable {R : Regime} {α β : Type} {h : Heap} {v u : Value} {s t : State}

/-- How a step of the first run and one of the second end. -/
inductive Ends (R : Regime) (Q : α → Prop) : EStateM.Result Exit State α → EStateM.Result Exit State α → Prop
  | ok {a : α} {t : State} (state : R.At t) (result : Q a) : Ends R Q (.ok a t) (.ok a t)
  | error {e : Exit} {t : State} (state : R.At t) (leaves : R.Leaves e) : Ends R Q (.error e t) (.error e t)
  | parted {e : Exit} {t : State} {r : EStateM.Result Exit State α} (parts : R.parts) (fails : e.Fails)
    (state : R.At t) (leaves : R.Leaves e) : Ends R Q (.error e t) r

/-- From the same state, the second step ends as the first one does, and in the same state. Its result is as `Q`
says. -/
def Follows (R : Regime) (Q : α → Prop) (x₁ x₂ : EvalM α) : Prop :=
  ∀ s, R.At s → R.Ends Q (x₁ s) (x₂ s)

/-- From every state of the regime, the step fails. -/
def Fail (R : Regime) (x : EvalM α) : Prop :=
  ∀ s, R.At s → ∃ e t, x s = .error e t ∧ e.Fails ∧ R.At t ∧ R.Leaves e

/-- The ends of a step as values. -/
def Tried (R : Regime) (Q : α → Prop) : Except Exit α → Prop
  | .ok a => Q a
  | .error e => R.Leaves e

/-- Whatever it evaluates, the second interpreter follows the first one. -/
structure Interprets (R : Regime) (sub₁ sub₂ : Interpreter) : Prop where
  turns : sub₁.turns = sub₂.turns
  expr : ∀ e, e.Obeys R.code → R.Follows R.Holds (sub₁.expr e) (sub₂.expr e)
  chain : ∀ e, e.Obeys R.code → R.Follows (fun v => ∀ u ∈ v, R.Holds u) (sub₁.chain e) (sub₂.chain e)
  stmt : ∀ s, s.Obeys R.code → R.Follows R.Holds (sub₁.stmt s) (sub₂.stmt s)
  call : ∀ f args, R.Holds f → (∀ v ∈ args, R.Holds v) → R.Length args.length →
    R.Follows R.Holds (sub₁.call f args) (sub₂.call f args)

end Regime

end BindScript

/-!
## The heaps of a regime

What is read of a heap that fits is as the regime says, and a heap fits again after each change of one container,
closure or cell to what the regime allows.
-/

namespace BindScript.Regime

variable {R : Regime} {h h' : Heap} {v u : Value}

/-! ### Values -/

theorem holds_undefined : R.Holds .undefined :=
  ⟨trivial, fun _ => trivial⟩

theorem holds_null : R.Holds .null :=
  ⟨trivial, fun _ => trivial⟩

theorem holds_bool (b : Bool) : R.Holds (.bool b) :=
  ⟨trivial, fun _ => trivial⟩

theorem holds_number (x : Float) : R.Holds (.number x) :=
  ⟨trivial, fun _ => trivial⟩

theorem holds_string {s : String} (size : R.sized → s.utf8ByteSize ≤ maxStringLength) : R.Holds (.string s) :=
  ⟨trivial, size⟩

/-- Where sizes are not watched, a text may be anything. -/
theorem holds_text (unsized : ¬ R.sized) (s : String) : R.Holds (.string s) :=
  holds_string fun sized => absurd sized unsized

theorem holds_index (i : Option Nat) : R.Holds (.index i) := by
  cases i <;> exact holds_number _

/-- A text of few bytes is no longer than strings may be. -/
theorem holds_short {s : String} (short : s.utf8ByteSize ≤ 16) : R.Holds (.string s) :=
  holds_string fun _ => short.trans (by decide)

theorem holds_char (c : Char) : R.Holds (.char c) := by
  have size : (String.singleton c).utf8ByteSize = c.utf8Size := by simp
  exact holds_short (size ▸ c.utf8Size_le_four.trans (by decide))

theorem holds_typeOf (v : Value) : R.Holds (.string v.typeOf) := by
  have short : v.typeOf.utf8ByteSize ≤ 16 := by
    cases v <;> simp only [Value.typeOf] <;> decide
  exact holds_short short

theorem Holds.argument {args : List Value} (holds : ∀ v ∈ args, R.Holds v) (i : Nat) :
    R.Holds (Value.argument args i) := by
  unfold Value.argument
  rw [List.getD_eq_getElem?_getD]
  cases found : args[i]? with
  | none => exact holds_undefined
  | some v => exact holds v (List.mem_of_getElem? found)

/-! ### Reading -/

namespace Fits

/-- What is inside of a container. -/
theorem children (fits : R.Fits h) (holds : R.Holds v) : ∀ u ∈ h.children v, R.Holds u := by
  intro u mem
  cases v with
  | array a =>
    exact ⟨fits.encloses.children (.array a) rfl holds.1 u mem,
      fun sized => fits.inside sized (.array a) rfl holds.1 u mem⟩
  | object o =>
    exact ⟨fits.encloses.children (.object o) rfl holds.1 u mem,
      fun sized => fits.inside sized (.object o) rfl holds.1 u mem⟩
  | _ => cases mem

theorem items (fits : R.Fits h) {a : Nat} (holds : R.Holds (.array a)) : ∀ u ∈ (h.items a).toList, R.Holds u :=
  fits.children holds

theorem properties (fits : R.Fits h) {o : Nat} (holds : R.Holds (.object o)) :
    ∀ entry ∈ h.properties o, R.Holds entry.2 :=
  fun _ mem => fits.children holds _ (List.mem_map_of_mem mem)

theorem cell (fits : R.Fits h) {c : Nat} (inside : R.zone.cells c) : R.Holds (h.cellAt c) :=
  ⟨fits.encloses.cells c inside, fun sized => fits.cells sized c inside⟩

theorem entries (fits : R.Fits h) (holds : R.Holds v) : ∀ entry ∈ h.entries v, R.Holds entry.2 := by
  intro entry mem
  cases v with
  | array a => exact fits.items holds _ (List.of_mem_zip mem).2
  | object o => exact fits.properties holds entry mem
  | string s =>
    obtain ⟨c, -, same⟩ := List.mem_map.1 (List.of_mem_zip mem).2
    exact same ▸ holds_char c
  | _ => cases mem

/-- What is read from a value that the regime allows is allowed, too: an item, a property, or a text that is a part of
one. -/
theorem get (fits : R.Fits h) (holds : R.Holds v) (key : String) : R.Holds (h.get v key) := by
  cases v with
  | array a =>
    unfold Heap.get
    dsimp only
    split
    · exact holds_number _
    split
    next i _ =>
      rw [Array.getD_eq_getD_getElem?]
      cases found : (h.items a)[i]? with
      | none => exact holds_undefined
      | some u => exact fits.items holds u (Array.mem_toList_iff.2 (Array.mem_of_getElem? found))
    next => exact holds_undefined
  | object o =>
    unfold Heap.get
    dsimp only
    cases found : (h.properties o).get? key with
    | none => exact holds_undefined
    | some u => exact fits.properties holds _ (Entries.mem_of_get? found)
  | string s =>
    unfold Heap.get
    dsimp only
    split
    · exact holds_number _
    split
    · split
      · exact holds_char _
      · exact holds_undefined
    · exact holds_undefined
  | _ => exact holds_undefined

/-! ### Changes -/

/-- A change of one container to what it may have inside. -/
theorem of_one (one : Value) (fits : R.Fits h) (encloses : R.zone.Encloses R.first h')
    (arrays : ∀ a, .array a ≠ one → h'.arrayAt a = h.arrayAt a)
    (objects : ∀ o, .object o ≠ one → h'.objectAt o = h.objectAt o)
    (contents : R.sized → ∀ u ∈ h'.children one, u.Sized) (length : ∀ a, .array a = one → R.Length (h'.items a).size)
    (closures : h'.closures = h.closures) (cells : h'.cells = h.cells) : R.Fits h' where
  encloses := encloses
  code c inside := by
    simp only [Heap.closureAt, closures]
    exact fits.code c inside
  lengths a inside := by
    by_cases same : .array a = one
    · exact length a same
    · rw [Heap.items, arrays a same]
      exact fits.lengths a inside
  inside sized v container holds u mem := by
    by_cases same : v = one
    · exact contents sized u (same ▸ mem)
    · have unchanged : h'.children v = h.children v := by
        cases v with
        | array a => exact congrArg (fun d : ArrayData => d.items.toList) (arrays a same)
        | object o =>
          exact congrArg (fun d : ObjectData => d.properties.map fun entry : String × Value => entry.2)
            (objects o same)
        | _ => rfl
      exact fits.inside sized v container holds u (unchanged ▸ mem)
  cells sized c inside := by
    simp only [Heap.cellAt, cells]
    exact fits.cells sized c inside

/-- A change of closures and cells to what they may be. -/
theorem of_cells (fits : R.Fits h) (encloses : R.zone.Encloses R.first h') (arrays : h'.arrays = h.arrays)
    (objects : h'.objects = h.objects)
    (closures : ∀ c, R.zone.closures c → (h'.closureAt c).definition.Obeys R.code)
    (cells : R.sized → ∀ c, R.zone.cells c → (h'.cellAt c).Sized) : R.Fits h' where
  encloses := encloses
  code := closures
  lengths a inside := by
    simp only [Heap.items, Heap.arrayAt, arrays]
    exact fits.lengths a inside
  inside sized v container holds u mem := by
    have unchanged : h'.children v = h.children v := by
      cases v <;>
        simp only [Heap.children, Heap.items, Heap.properties, Heap.arrayAt, Heap.objectAt, arrays, objects]
    exact fits.inside sized v container holds u (unchanged ▸ mem)
  cells := cells

theorem newArray {items : Array Value} (fits : R.Fits h) (holds : ∀ v ∈ items.toList, R.Holds v)
    (length : R.Length items.size) : R.Fits (h.newArray items).2 ∧ R.Holds (h.newArray items).1 := by
  have new : (h.newArray items).2.items h.arrays.size = items :=
    congrArg ArrayData.items (Heap.arrayAt_newArray_self h items)
  refine ⟨fits.of_one (.array h.arrays.size) (fits.encloses.newArray fun v mem => (holds v mem).1)
    (fun a ne => ?_) (fun _ _ => rfl) (fun sized u mem => ?_) (fun a same => ?_) rfl rfl,
    fits.encloses.newArrays _ (Nat.le_refl _), fun _ => trivial⟩
  · exact Heap.arrayAt_newArray_of_ne fun same => ne (congrArg Value.array same)
  · rw [Heap.children, new] at mem
    exact (holds u mem).2 sized
  · cases same
    rw [new]
    exact length

theorem newObject {entries : Entries Value} (fits : R.Fits h) (holds : ∀ entry ∈ entries, R.Holds entry.2) :
    R.Fits (h.newObject entries).2 ∧ R.Holds (h.newObject entries).1 := by
  have new : (h.newObject entries).2.properties h.objects.size = entries :=
    congrArg ObjectData.properties (Heap.objectAt_newObject_self h entries)
  have values : ∀ u ∈ entries.map (fun entry => entry.2), R.Holds u := List.forall_mem_map.2 holds
  refine ⟨fits.of_one (.object h.objects.size) (fits.encloses.newObject fun v mem => (values v mem).1)
    (fun _ _ => rfl) (fun o ne => ?_) (fun sized u mem => ?_) (fun _ => Value.noConfusion) rfl rfl,
    fits.encloses.newObjects _ (Nat.le_refl _), fun _ => trivial⟩
  · exact Heap.objectAt_newObject_of_ne fun same => ne (congrArg Value.object same)
  · rw [Heap.children, new] at mem
    exact (values u mem).2 sized

theorem newClosure {c : Closure} (fits : R.Fits h) (code : c.definition.Obeys R.code)
    (captured : ∀ b ∈ c.captured.toList, R.zone.cells b.cell) :
    R.Fits (h.newClosure c).2 ∧ R.Holds (h.newClosure c).1 := by
  refine ⟨fits.of_cells (fits.encloses.newClosure captured) rfl rfl (fun k inside => ?_) fits.cells,
    fits.encloses.newClosures _ (Nat.le_refl _), fun _ => trivial⟩
  by_cases new : k = h.closures.size
  · rw [new, Heap.newClosure, Heap.closureAt]
    simpa only [Array.getD_eq_getD_getElem?, Array.getElem?_push_size, Option.getD_some] using code
  · have same : (h.newClosure c).2.closureAt k = h.closureAt k := by
      simp [Heap.newClosure, Heap.closureAt, Array.getD_eq_getD_getElem?, Array.getElem?_push, new]
    exact same ▸ fits.code k inside

theorem newCell (fits : R.Fits h) (holds : R.Holds v) :
    R.Fits (h.newCell v).2 ∧ R.zone.cells (h.newCell v).1 := by
  refine ⟨fits.of_cells (fits.encloses.newCell holds.1) rfl rfl fits.code fun sized c inside => ?_,
    fits.encloses.newCells _ (Nat.le_refl _)⟩
  by_cases new : c = h.cells.size
  · rw [new, Heap.cellAt_newCell_self]
    exact holds.2 sized
  · rw [Heap.cellAt_newCell_of_ne new]
    exact fits.cells sized c inside

theorem setCell {cell : Nat} (fits : R.Fits h) (holds : R.Holds v) : R.Fits (h.setCell cell v) := by
  refine fits.of_cells (fits.encloses.setCell holds.1) rfl rfl fits.code fun sized c inside => ?_
  by_cases same : c = cell
  · subst same
    by_cases there : c < h.cells.size
    · rw [Heap.cellAt_setCell_self there]
      exact holds.2 sized
    · rw [show (h.setCell c v).cellAt c = .undefined by simp [Heap.setCell, Heap.cellAt, there]]
      trivial
  · rw [Heap.cellAt_setCell_of_ne same]
    exact fits.cells sized c inside

theorem modifyItems {a : Nat} {change : Array Value → Array Value} (fits : R.Fits h) (inside : R.Holds (.array a))
    (holds : ∀ v ∈ (change (h.items a)).toList, R.Holds v) (length : R.Length (change (h.items a)).size) :
    R.Fits (h.modifyItems a change) := by
  -- a change of an array that is not there yet changes nothing
  have items : (h.modifyItems a change).items a = change (h.items a) ∨ (h.modifyItems a change).items a = #[] := by
    by_cases there : a < h.arrays.size
    · exact .inl (congrArg ArrayData.items (Heap.arrayAt_modifyArray_self there _))
    · have size : (h.modifyItems a change).arrays.size ≤ a := by
        simpa [Heap.modifyItems, Heap.modifyArray] using there
      exact .inr (by simp [Heap.items, Heap.arrayAt, Nat.not_lt.2 size])
  refine fits.of_one (.array a) (fits.encloses.modifyItems inside.1 fun v mem => (holds v mem).1) (fun b ne => ?_)
    (fun _ _ => rfl) (fun sized u mem => ?_) (fun b same => ?_) rfl rfl
  · exact Heap.arrayAt_modifyArray_of_ne (fun same => ne (congrArg Value.array same)) _
  · rw [Heap.children] at mem
    rcases items with eq | eq <;> rw [eq] at mem
    · exact (holds u mem).2 sized
    · cases mem
  · cases same
    rcases items with eq | eq <;> rw [eq]
    · exact length
    · exact fun _ => Nat.zero_le _

theorem modifyProperties {o : Nat} {change : Entries Value → Entries Value} (fits : R.Fits h)
    (inside : R.Holds (.object o)) (holds : ∀ entry ∈ change (h.properties o), R.Holds entry.2) :
    R.Fits (h.modifyProperties o change) := by
  have values : ∀ u ∈ (change (h.properties o)).map (fun entry => entry.2), R.Holds u :=
    List.forall_mem_map.2 holds
  have properties : (h.modifyProperties o change).properties o = change (h.properties o) ∨
      (h.modifyProperties o change).properties o = [] := by
    by_cases there : o < h.objects.size
    · exact .inl (congrArg ObjectData.properties (Heap.objectAt_modifyObject_self there _))
    · have size : (h.modifyProperties o change).objects.size ≤ o := by
        simpa [Heap.modifyProperties, Heap.modifyObject] using there
      exact .inr (by simp [Heap.properties, Heap.objectAt, Nat.not_lt.2 size])
  refine fits.of_one (.object o) (fits.encloses.modifyProperties inside.1 fun v mem => (values v mem).1)
    (fun _ _ => rfl) (fun p ne => ?_) (fun sized u mem => ?_) (fun _ => Value.noConfusion) rfl rfl
  · exact Heap.objectAt_modifyObject_of_ne (fun same => ne (congrArg Value.object same)) _
  · rw [Heap.children] at mem
    rcases properties with eq | eq <;> rw [eq] at mem
    · exact (values u mem).2 sized
    · cases mem

theorem freeze (fits : R.Fits h) (holds : R.Holds v) : R.Fits (h.freeze v) := by
  have hardens := Heap.freeze_hardens h v
  refine ⟨fits.encloses.freeze holds.1, ?_, fun a inside => ?_, fun sized w container inside u mem => ?_, ?_⟩
  · simp only [Heap.closureAt, hardens.closures]
    exact fits.code
  · rw [hardens.items]
    exact fits.lengths a inside
  · rw [hardens.children_eq] at mem
    exact fits.inside sized w container inside u mem
  · simp only [Heap.cellAt, hardens.cells]
    exact fits.cells

end Fits

end BindScript.Regime
