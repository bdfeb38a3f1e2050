import BindScript.Proofs.Correspondence.Interpreter
import BindScript.Proofs.Correspondence.Zone
import BindScript.Proofs.Frozen.Sound

/-!
# No run changes what is frozen

Whatever code runs, and however it ends: each container that was frozen before is frozen afterwards with
the same contents, and everything reachable from something frozen is still frozen (`frozen_kept`).

The invariant is carried through the evaluator by letting a run correspond with itself
(`Correspondence.diagonal`). Its worlds are the sound heaps that the run goes through, later ones keeping
what is frozen in earlier ones, and a value is like itself in a world that holds what it refers to.
-/

namespace BindScript

/-- The contexts an evaluation may be given: everything they refer to is in the heap. -/
structure Context.WellFormed (ctx : Context) (h : Heap) : Prop where
  locals : h.Allocates ctx.locals
  app : h.Allocates ctx.app
  globals : ∀ entry ∈ ctx.globals, h.Allocates entry.2

/-- The ways to run code. -/
inductive Run
  | expression (e : Expr)
  | statement (s : Stmt)
  | evaluation (e : Expr)
  | program (statements : List Stmt)
  | call (callee : Value) (args : List Value)

namespace Run

/-- Runs code in a context. -/
def start (ctx : Context) : Run → EvalM Value
  | expression e => ctx.evalExpr e
  | statement s => ctx.evalStmt s
  | evaluation e => ctx.evaluate e
  | program statements => ctx.runStatements statements
  | call callee args => ctx.invoke callee args

/-- The values a run is given are in the heap. -/
def WellFormed (h : Heap) : Run → Prop
  | call callee args => h.Allocates callee ∧ ∀ v ∈ args, h.Allocates v
  | _ => True

/-- The heap that a run leaves behind, whether it gives a value or not. -/
def heapAfter (run : Run) (ctx : Context) (s : State) : Heap :=
  match run.start ctx s with
  | .ok _ s => s.heap
  | .error _ s => s.heap

end Run

namespace Heap

variable {h : Heap}

/-- All that the heap has. -/
def zone (h : Heap) : Zone where
  arrays a := a < h.arrays.size
  objects o := o < h.objects.size
  closures _ := True
  cells _ := True

theorem zone_le {h' : Heap} (keeps : h.KeepsFrozen h') : h.zone.Le h'.zone :=
  ⟨fun there => lt_of_lt_of_le there keeps.arrays, fun there => lt_of_lt_of_le there keeps.objects,
    fun _ => trivial, fun _ => trivial⟩

theorem holds_zone {v : Value} : h.zone.Holds v ↔ h.Allocates v := by
  cases v <;> exact Iff.rfl

theorem bindings_zone (bindings : List Binding) :
    List.Forall₂ (Binding.Alike h.zone.pairing) bindings bindings :=
  Zone.bindingsAlike_iff.2 ⟨rfl, fun _ _ => trivial⟩

theorem heapAlike_zone (wf : h.WellFormed) : Heap.Alike h.zone.pairing .all h h := by
  refine Zone.heapAlike (fun v _ _ u mem => holds_zone.2 (wf.children v u mem)) (fun c _ => ?_)
    fun c _ => holds_zone.2 (wf.cells c)
  exact ⟨rfl, rfl, bindings_zone _, [], List.forall_mem_nil _, Function.within_all _ _⟩

end Heap

/-- A heap that a context may run code in. -/
structure Context.Fits (ctx : Context) (h : Heap) : Prop where
  sound : h.Sound
  context : ctx.WellFormed h

theorem Context.WellFormed.later {ctx : Context} {h h' : Heap} (wf : ctx.WellFormed h)
    (keeps : h.KeepsFrozen h') : ctx.WellFormed h' :=
  ⟨keeps.allocates wf.locals, keeps.allocates wf.app,
    fun entry mem => keeps.allocates (wf.globals entry mem)⟩

/-- What a context refers to is in the heap. -/
theorem Context.WellFormed.inside {ctx : Context} {h : Heap} (wf : ctx.WellFormed h) : ctx.Inside h.zone :=
  ⟨Heap.holds_zone.2 wf.locals, Heap.holds_zone.2 wf.app,
    fun entry mem => Heap.holds_zone.2 (wf.globals entry mem)⟩

namespace Correspondence

/-- The heaps that a run in a context goes through. -/
abbrev Stage (ctx : Context) : Type :=
  { h : Heap // ctx.Fits h }

instance (ctx : Context) : Preorder (Stage ctx) where
  le g h := g.1.KeepsFrozen h.1
  le_refl h := .refl h.1
  le_trans _ _ _ := .trans

/-- Going on with a safe operation. -/
theorem Stage.next {ctx : Context} {w : Stage ctx} {h : Heap} (safe : w.1.Safe h) :
    ∃ w' : Stage ctx, w ≤ w' ∧ h = w'.1 ∧ h = w'.1 :=
  ⟨⟨h, safe.sound, w.2.context.later safe.keeps⟩, safe.keeps, rfl, rfl⟩

/-- A run next to itself. -/
def diagonal (ctx : Context) : Correspondence where
  World := Stage ctx
  pairing w := w.1.zone.pairing
  pairing_le le := (Heap.zone_le le).pairing
  access := .all
  left := ctx
  right := ctx
  options_eq := rfl
  heaps w h₁ h₂ := h₁ = w.1 ∧ h₂ = w.1
  alike := by
    rintro w h₁ h₂ ⟨rfl, rfl⟩
    exact Heap.heapAlike_zone w.2.sound.wellFormed
  lookup := by
    rintro w h₁ h₂ n ⟨rfl, rfl⟩ -
    exact w.2.context.inside.lookup (Heap.heapAlike_zone w.2.sound.wellFormed) n
  locals := by
    rintro w h₁ h₂ - ⟨rfl, rfl⟩
    exact w.2.context.inside.locals.alike
  -- the world is the heap itself; a step is allowed if the heap after it is sound and keeps what is frozen
  newArray := by
    rintro w h₁ h₂ items₁ items₂ ⟨rfl, rfl⟩ items
    obtain ⟨same, there⟩ := Zone.allAlike_iff.1 items
    simp only [Heap.holds_zone] at there
    obtain rfl := Array.toList_inj.1 same
    have safe := Heap.safe_newArray w.2.sound there
    refine ⟨⟨_, safe.sound, w.2.context.later safe.keeps⟩, safe.keeps, ⟨rfl, rfl⟩, rfl, ?_⟩
    simp [Heap.newArray, Heap.zone]
  newObject := by
    rintro w h₁ h₂ m₁ m₂ ⟨rfl, rfl⟩ entries
    obtain ⟨rfl, there⟩ := Zone.entriesAlike_iff.1 entries
    simp only [Heap.holds_zone] at there
    have safe := Heap.safe_newObject w.2.sound there
    refine ⟨⟨_, safe.sound, w.2.context.later safe.keeps⟩, safe.keeps, ⟨rfl, rfl⟩, rfl, ?_⟩
    simp [Heap.newObject, Heap.zone]
  newClosure := by
    rintro w h₁ h₂ c₁ c₂ ⟨rfl, rfl⟩ closure
    obtain rfl := Zone.eq_of_closureAlike closure
    obtain ⟨w', le, eq⟩ := Stage.next (Heap.safe_newClosure w.2.sound c₁)
    exact ⟨w', le, eq, rfl, trivial⟩
  newCell := by
    rintro w h₁ h₂ v₁ v₂ ⟨rfl, rfl⟩ value
    obtain ⟨rfl, there⟩ := Zone.alike_iff.1 value
    rw [Heap.holds_zone] at there
    obtain ⟨w', le, eq⟩ := Stage.next (Heap.safe_newCell w.2.sound there)
    exact ⟨w', le, eq, rfl, trivial⟩
  setCell := by
    rintro w h₁ h₂ c₁ c₂ v₁ v₂ ⟨rfl, rfl⟩ ⟨rfl, -⟩ value
    obtain ⟨rfl, there⟩ := Zone.alike_iff.1 value
    rw [Heap.holds_zone] at there
    exact Stage.next (Heap.safe_setCell w.2.sound there)
  modifyItems := by
    rintro w h₁ h₂ a b f g ⟨rfl, rfl⟩ ⟨rfl, -⟩ unfrozen items
    obtain ⟨same, there⟩ := Zone.allAlike_iff.1 items
    simp only [Heap.holds_zone] at there
    rw [Heap.modifyItems_congr (Array.toList_inj.1 same)]
    exact Stage.next (Heap.safe_modifyItems w.2.sound unfrozen there)
  modifyProperties := by
    rintro w h₁ h₂ a b f g ⟨rfl, rfl⟩ ⟨rfl, -⟩ unfrozen - entries
    obtain ⟨same, there⟩ := Zone.entriesAlike_iff.1 entries
    simp only [Heap.holds_zone] at there
    rw [Heap.modifyProperties_congr same]
    exact Stage.next (Heap.safe_modifyProperties w.2.sound unfrozen there)
  freeze := by
    rintro w h₁ h₂ v₁ v₂ ⟨rfl, rfl⟩ value
    obtain ⟨rfl, -⟩ := Zone.alike_iff.1 value
    exact Stage.next (Heap.safe_freeze w.2.sound v₁)

end Correspondence

/-- A run next to itself stays in heaps that fit, and keeps what is frozen. -/
theorem Run.fits {ctx : Context} (run : Run) (s : State) (fits : ctx.Fits s.heap)
    (given : run.WellFormed s.heap) :
    ctx.Fits (run.heapAfter ctx s) ∧ s.heap.KeepsFrozen (run.heapAfter ctx s) := by
  let C := Correspondence.diagonal ctx
  let w : C.World := ⟨s.heap, fits⟩
  have st : C.At [] w s s :=
    ⟨⟨⟨rfl, rfl⟩, ⟨Heap.bindings_zone _, rfl, rfl, rfl⟩, rfl, rfl, rfl⟩, List.forall_mem_nil _⟩
  have ends : C.Sim .statement C.Vals w (run.start ctx) (run.start ctx) s s := by
    cases run with
    | expression e => exact C.evalExpr st (e.within_all [])
    | statement t => exact C.evalStmt st (t.within_all [])
    | evaluation e => exact C.evaluate st.toAlike (e.within_all [])
    | program statements => exact C.runStatements st.toAlike (Body.within_all _ [])
    | call callee args =>
      have callee := Zone.Holds.alike (Heap.holds_zone.2 given.1)
      have args := Zone.allAlike_iff.2 ⟨rfl, fun v mem => Heap.holds_zone.2 (given.2 v mem)⟩
      exact C.invoke st.toAlike callee args
  unfold Correspondence.Sim at ends
  unfold Run.heapAfter
  generalize run.start ctx s = result at ends
  cases ends with
  | @ok _ _ t _ w' le alike =>
    have heap : t.heap = w'.1 := alike.heap.1
    show ctx.Fits t.heap ∧ s.heap.KeepsFrozen t.heap
    rw [heap]
    exact ⟨w'.2, le⟩
  | @error _ _ t _ w' le alike =>
    have heap : t.heap = w'.1 := alike.heap.1
    show ctx.Fits t.heap ∧ s.heap.KeepsFrozen t.heap
    rw [heap]
    exact ⟨w'.2, le⟩

/-- **Frozen containers never change.** If frozenness is closed before a run, then after it, however it
ends, every container that was frozen is frozen with the same contents, and frozenness is closed again. -/
theorem frozen_kept (ctx : Context) (run : Run) (s : State) (heap : s.heap.WellFormed)
    (context : ctx.WellFormed s.heap) (given : run.WellFormed s.heap)
    (closed : s.heap.FrozenClosed) :
    s.heap.KeepsFrozen (run.heapAfter ctx s) ∧ (run.heapAfter ctx s).FrozenClosed ∧
      (run.heapAfter ctx s).WellFormed := by
  have after := run.fits s ⟨⟨heap, closed⟩, context⟩ given
  exact ⟨after.2, after.1.sound.closed, after.1.sound.wellFormed⟩

/-- A frozen list, which the local context has under a name. -/
def frozenList : State where
  heap :=
    { arrays := #[{ items := #[.number 1.0], frozen := true }]
      objects := #[{ properties := [("list", .array 0)] }] }

/-- A context that knows the list. -/
def frozenListContext : Context where
  locals := .object 0
  app := .undefined

/-- `list.push(2)`. -/
def pushToList : Run :=
  .evaluation (.call (.member (.name "list") "push" false) [.literal (.number 2.0)] false)

/-- Pushing to the frozen list leaves it as it was. -/
theorem frozen_list_kept :
    (pushToList.heapAfter frozenListContext frozenList).arrayAt 0 =
      { items := #[.number 1.0], frozen := true } := by
  have children : ∀ v, ∀ u ∈ frozenList.heap.children v,
      (∃ x, u = .number x) ∨ u = .array 0 := fun v u mem => by
    match v with
    | .array 0 => exact .inl ⟨1.0, List.mem_singleton.1 mem⟩
    | .object 0 => exact .inr (List.mem_singleton.1 mem)
    | .array (_ + 1) | .object (_ + 1) => cases mem
  have heap : frozenList.heap.WellFormed := by
    refine ⟨fun v u mem => ?_, fun c => trivial⟩
    rcases children v u mem with ⟨x, rfl⟩ | rfl
    · trivial
    · exact Nat.zero_lt_one
  have closed : frozenList.heap.FrozenClosed := by
    rw [Heap.frozenClosed_iff]
    intro v _ _ u mem
    rcases children v u mem with ⟨x, rfl⟩ | rfl <;> rfl
  have context : frozenListContext.WellFormed frozenList.heap := ⟨Nat.zero_lt_one, trivial, nofun⟩
  exact (frozen_kept frozenListContext pushToList frozenList heap context trivial closed).1.array 0
    Nat.zero_lt_one rfl

end BindScript
