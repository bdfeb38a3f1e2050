import BindScript.Proofs.Control.Dependence
import BindScript.Proofs.Control.Scopes
import BindScript.Proofs.Frozen.Sound

/-!
# What a run cannot get at

A value leads to its items and properties, and to what the variables hold that a closure has captured
(`Heap.LeadsTo`). A run can get at nothing else but at what it makes itself: what lies outside of the zone
that is reached from the values it is given stays as it was, contents and flag (`Zone.confines_evaluate`).

The zone is fixed when the run starts. All addresses that the heap does not have yet are in it, so new
containers, closures and cells never have to be added (`Encloses.of_one`, `Encloses.of_cells`).
-/

namespace BindScript

namespace Heap

variable {h h' : Heap} {v u : Value}

/-- What a value refers to: what is inside of a container, and what the variables hold that a closure has
captured. -/
def referents (h : Heap) : Value → List Value
  | .closure c => (h.closureAt c).captured.toList.map fun b => h.cellAt b.cell
  | v => h.children v

/-- A value that can be reached through items, properties and captured variables. -/
def LeadsTo (h : Heap) : Value → Value → Prop :=
  Relation.ReflTransGen fun v u => u ∈ h.referents v

/-- What holds of a value, and with every value of what that refers to, holds of all that can be reached. -/
theorem LeadsTo.stays {P : Value → Prop} (leads : h.LeadsTo v u)
    (closed : ∀ v, P v → ∀ u ∈ h.referents v, P u) (start : P v) : P u := by
  induction leads with
  | refl => exact start
  | tail _ mem ih => exact closed _ ih _ mem

/-- What is inside of a container is among what it refers to. -/
theorem mem_referents_of_mem_children (inside : u ∈ h.children v) : u ∈ h.referents v := by
  cases v with
  | array a => exact inside
  | object o => exact inside
  | _ => cases inside

/-- There is nothing inside of what the heap does not have yet. -/
theorem not_mem_children_new_array {a : Nat} (new : h.arrays.size ≤ a) : u ∉ h.children (.array a) := by
  simp [children, items, arrayAt, Nat.not_lt.2 new]

theorem not_mem_children_new_object {o : Nat} (new : h.objects.size ≤ o) : u ∉ h.children (.object o) := by
  simp [children, properties, objectAt, Nat.not_lt.2 new]

/-- Freezing a value freezes nothing outside of a set that contains the value, and with every container what
is inside of it. -/
theorem isFrozen_freezeWithin_of_apart {within : Value → Prop} (outside : ¬ within u) (steps : Nat) :
    ∀ (h : Heap) (v : Value), (∀ v, within v → ∀ u ∈ h.children v, within u) → within v →
      (freezeWithin steps h v).isFrozen u = h.isFrozen u := by
  induction steps with
  | zero => exact fun _ _ _ _ => rfl
  | succ steps ih =>
    intro h v closed inside
    -- the walk over what is inside goes from one heap to the next; what is inside of what stays the same
    have each : ∀ (vs : List Value) (g : Heap), (∀ w ∈ vs, within w) → h.Hardens g →
        (vs.foldl (freezeWithin steps) g).isFrozen u = g.isFrozen u := by
      intro vs
      induction vs with
      | nil => exact fun _ _ _ => rfl
      | cons w vs walk =>
        intro g inside hardens
        obtain ⟨first, others⟩ := List.forall_mem_cons.1 inside
        have closed : ∀ v, within v → ∀ u ∈ g.children v, within u := by
          intro v inside u mem
          rw [hardens.children_eq] at mem
          exact closed v inside u mem
        rw [List.foldl_cons, walk _ others (hardens.trans (hardens_freezeWithin steps g w))]
        exact ih g w closed first
    unfold freezeWithin
    split
    · rfl
    next unfrozen =>
      have unfrozen : h.isFrozen v = false := by simpa using unfrozen
      have ne : u ≠ v := fun same => outside (same ▸ inside)
      show (List.foldl (freezeWithin steps) (h.markFrozen v) (h.children v)).isFrozen u = _
      rw [each _ _ (closed v inside) (hardens_markFrozen unfrozen), isFrozen_markFrozen_of_ne ne]

/-- What the given values lead to, and all that the heap does not have yet. -/
def reach (h : Heap) (given : Value → Prop) : Zone where
  arrays a := (∃ v, given v ∧ h.LeadsTo v (.array a)) ∨ h.arrays.size ≤ a
  objects o := (∃ v, given v ∧ h.LeadsTo v (.object o)) ∨ h.objects.size ≤ o
  closures c := (∃ v, given v ∧ h.LeadsTo v (.closure c)) ∨ h.closures.size ≤ c
  cells c := (∃ v k, given v ∧ h.LeadsTo v (.closure k) ∧ ∃ b ∈ (h.closureAt k).captured.toList, b.cell = c) ∨
    h.cells.size ≤ c

end Heap

/-- No reference leads out of the zone, and outside of it all containers are as they were at first. What
the heap does not have yet is in the zone. -/
structure Zone.Encloses (z : Zone) (first h : Heap) : Prop where
  children : ∀ v, v.isContainer = true → z.Holds v → ∀ u ∈ h.children v, z.Holds u
  closures : ∀ c, z.closures c → ∀ b ∈ (h.closureAt c).captured.toList, z.cells b.cell
  cells : ∀ c, z.cells c → z.Holds (h.cellAt c)
  newArrays : ∀ a, h.arrays.size ≤ a → z.arrays a
  newObjects : ∀ o, h.objects.size ≤ o → z.objects o
  newClosures : ∀ c, h.closures.size ≤ c → z.closures c
  newCells : ∀ c, h.cells.size ≤ c → z.cells c
  arrays : ∀ a, ¬ z.arrays a → h.arrayAt a = first.arrayAt a
  objects : ∀ o, ¬ z.objects o → h.objectAt o = first.objectAt o

namespace Zone.Encloses

variable {z : Zone} {first h h' : Heap} {v value : Value} {ctx : Context}

theorem heapAlike (encloses : z.Encloses first h) : Heap.Alike z.pairing .all h h := by
  refine Zone.heapAlike encloses.children (fun c inside => ?_) encloses.cells
  exact ⟨rfl, rfl, Zone.bindingsAlike_iff.2 ⟨rfl, encloses.closures c inside⟩, [],
    fun _ mem => absurd mem List.not_mem_nil, Function.within_all _ _⟩

/-! ## Operations of the heap -/

/-- A change of one container of the zone, after which all that is inside of it is in the zone. -/
theorem of_one (one : Value) (encloses : z.Encloses first h) (inside : z.Holds one)
    (arrays : ∀ a, .array a ≠ one → h'.arrayAt a = h.arrayAt a)
    (objects : ∀ o, .object o ≠ one → h'.objectAt o = h.objectAt o)
    (contents : ∀ u ∈ h'.children one, z.Holds u)
    (sizes : h.arrays.size ≤ h'.arrays.size ∧ h.objects.size ≤ h'.objects.size)
    (closures : h'.closures = h.closures) (cells : h'.cells = h.cells) : z.Encloses first h' where
  children v container holds u mem := by
    by_cases same : v = one
    · exact contents u (same ▸ mem)
    · have unchanged : h'.children v = h.children v := by
        cases v with
        | array a => exact congrArg (fun d : ArrayData => d.items.toList) (arrays a same)
        | object o =>
          exact congrArg (fun d : ObjectData => d.properties.map fun entry : String × Value => entry.2)
            (objects o same)
        | _ => rfl
      exact encloses.children v container holds u (unchanged ▸ mem)
  closures c holds b mem := by
    simp only [Heap.closureAt, closures] at mem
    exact encloses.closures c holds b mem
  cells c holds := by
    simp only [Heap.cellAt, cells]
    exact encloses.cells c holds
  newArrays a new := encloses.newArrays a (le_trans sizes.1 new)
  newObjects o new := encloses.newObjects o (le_trans sizes.2 new)
  newClosures c new := encloses.newClosures c (closures ▸ new)
  newCells c new := encloses.newCells c (cells ▸ new)
  arrays a outside := by
    rw [arrays a fun same => outside (show z.Holds (.array a) from same ▸ inside)]
    exact encloses.arrays a outside
  objects o outside := by
    rw [objects o fun same => outside (show z.Holds (.object o) from same ▸ inside)]
    exact encloses.objects o outside

/-- A change of closures and cells, after which those of the zone refer to the zone. -/
theorem of_cells (encloses : z.Encloses first h) (arrays : h'.arrays = h.arrays)
    (objects : h'.objects = h.objects)
    (closures : ∀ c, z.closures c → ∀ b ∈ (h'.closureAt c).captured.toList, z.cells b.cell)
    (cells : ∀ c, z.cells c → z.Holds (h'.cellAt c))
    (sizes : h.closures.size ≤ h'.closures.size ∧ h.cells.size ≤ h'.cells.size) :
    z.Encloses first h' where
  children v container holds u mem := by
    have unchanged : h'.children v = h.children v := by
      cases v <;>
        simp only [Heap.children, Heap.items, Heap.properties, Heap.arrayAt, Heap.objectAt, arrays, objects]
    exact encloses.children v container holds u (unchanged ▸ mem)
  closures := closures
  cells := cells
  newArrays a new := encloses.newArrays a (arrays ▸ new)
  newObjects o new := encloses.newObjects o (objects ▸ new)
  newClosures c new := encloses.newClosures c (le_trans sizes.1 new)
  newCells c new := encloses.newCells c (le_trans sizes.2 new)
  arrays a outside := by
    simp only [Heap.arrayAt, arrays]
    exact encloses.arrays a outside
  objects o outside := by
    simp only [Heap.objectAt, objects]
    exact encloses.objects o outside

theorem newArray {items : Array Value} (encloses : z.Encloses first h)
    (inside : ∀ u ∈ items.toList, z.Holds u) : z.Encloses first (h.newArray items).2 := by
  refine of_one (.array h.arrays.size) encloses (encloses.newArrays _ (le_refl _)) (fun a ne => ?_)
    (fun o _ => rfl) (fun u mem => ?_) ⟨by simp [Heap.newArray], le_refl _⟩ rfl rfl
  · exact Heap.arrayAt_newArray_of_ne fun same => ne (congrArg Value.array same)
  · rw [Heap.children, Heap.items, Heap.arrayAt_newArray_self] at mem
    exact inside u mem

theorem newObject {properties : Entries Value} (encloses : z.Encloses first h)
    (inside : ∀ u ∈ properties.map (fun entry => entry.2), z.Holds u) :
    z.Encloses first (h.newObject properties).2 := by
  refine of_one (.object h.objects.size) encloses (encloses.newObjects _ (le_refl _))
    (fun a _ => rfl) (fun o ne => ?_) (fun u mem => ?_) ⟨le_refl _, by simp [Heap.newObject]⟩ rfl rfl
  · exact Heap.objectAt_newObject_of_ne fun same => ne (congrArg Value.object same)
  · rw [Heap.children, Heap.properties, Heap.objectAt_newObject_self] at mem
    exact inside u mem

theorem newClosure {c : Closure} (encloses : z.Encloses first h)
    (inside : ∀ b ∈ c.captured.toList, z.cells b.cell) : z.Encloses first (h.newClosure c).2 := by
  refine encloses.of_cells rfl rfl (fun k holds b mem => ?_) encloses.cells
    ⟨by simp [Heap.newClosure], le_refl _⟩
  by_cases new : k = h.closures.size
  · rw [new, Heap.newClosure, Heap.closureAt] at mem
    simp only [Array.getD_eq_getD_getElem?, Array.getElem?_push_size, Option.getD_some] at mem
    exact inside b mem
  · have same : (h.newClosure c).2.closureAt k = h.closureAt k := by
      simp [Heap.newClosure, Heap.closureAt, Array.getD_eq_getD_getElem?, Array.getElem?_push, new]
    exact encloses.closures k holds b (same ▸ mem)

theorem newCell (encloses : z.Encloses first h) (inside : z.Holds v) :
    z.Encloses first (h.newCell v).2 := by
  refine encloses.of_cells rfl rfl encloses.closures (fun c holds => ?_)
    ⟨le_refl _, by simp [Heap.newCell]⟩
  by_cases new : c = h.cells.size
  · rw [new, Heap.cellAt_newCell_self]
    exact inside
  · rw [Heap.cellAt_newCell_of_ne new]
    exact encloses.cells c holds

/-- A cell that is written holds what is inside the zone. -/
theorem setCell {cell : Nat} (encloses : z.Encloses first h) (inside : z.Holds v) :
    z.Encloses first (h.setCell cell v) := by
  refine encloses.of_cells rfl rfl encloses.closures (fun c holds => ?_)
    ⟨le_refl _, by simp [Heap.setCell]⟩
  by_cases same : c = cell
  · subst same
    by_cases there : c < h.cells.size
    · rw [Heap.cellAt_setCell_self there]
      exact inside
    · -- a cell that is not there yet takes no value
      rw [show (h.setCell c v).cellAt c = .undefined by simp [Heap.setCell, Heap.cellAt, there]]
      trivial
  · rw [Heap.cellAt_setCell_of_ne same]
    exact encloses.cells c holds

/-- Items of the zone are changed for values of the zone. -/
theorem modifyItems {a : Nat} {change : Array Value → Array Value} (encloses : z.Encloses first h)
    (mine : z.arrays a) (inside : ∀ u ∈ (change (h.items a)).toList, z.Holds u) :
    z.Encloses first (h.modifyItems a change) := by
  refine of_one (.array a) encloses mine (fun b ne => ?_) (fun o _ => rfl) (fun u mem => ?_)
    ⟨by simp [Heap.modifyItems, Heap.modifyArray], le_refl _⟩ rfl rfl
  · exact Heap.arrayAt_modifyArray_of_ne (fun same => ne (congrArg Value.array same)) _
  · by_cases there : a < h.arrays.size
    · have items : (h.modifyItems a change).items a = change (h.items a) :=
        congrArg ArrayData.items (Heap.arrayAt_modifyArray_self there _)
      rw [Heap.children, items] at mem
      exact inside u mem
    · have size : (h.modifyItems a change).arrays.size ≤ a := by
        simpa [Heap.modifyItems, Heap.modifyArray] using there
      exact absurd mem (Heap.not_mem_children_new_array size)

/-- Properties of the zone are changed for values of the zone. -/
theorem modifyProperties {o : Nat} {change : Entries Value → Entries Value}
    (encloses : z.Encloses first h) (mine : z.objects o)
    (inside : ∀ u ∈ (change (h.properties o)).map (fun entry => entry.2), z.Holds u) :
    z.Encloses first (h.modifyProperties o change) := by
  refine of_one (.object o) encloses mine (fun a _ => rfl) (fun p ne => ?_) (fun u mem => ?_)
    ⟨le_refl _, by simp [Heap.modifyProperties, Heap.modifyObject]⟩ rfl rfl
  · exact Heap.objectAt_modifyObject_of_ne (fun same => ne (congrArg Value.object same)) _
  · by_cases there : o < h.objects.size
    · have properties : (h.modifyProperties o change).properties o = change (h.properties o) :=
        congrArg ObjectData.properties (Heap.objectAt_modifyObject_self there _)
      rw [Heap.children, properties] at mem
      exact inside u mem
    · have size : (h.modifyProperties o change).objects.size ≤ o := by
        simpa [Heap.modifyProperties, Heap.modifyObject] using there
      exact absurd mem (Heap.not_mem_children_new_object size)

/-- Writing a property of an object. -/
theorem set_object {o : Nat} (encloses : z.Encloses first h) (mine : z.objects o) (key : String)
    (inside : z.Holds v) : z.Encloses first (h.set (.object o) key v) := by
  show z.Encloses first (h.modifyProperties o (·.insert key v))
  refine encloses.modifyProperties mine fun u mem => ?_
  obtain ⟨entry, there, rfl⟩ := List.mem_map.1 mem
  rcases Entries.eq_or_mem_of_mem_insert there with rfl | there
  · exact inside
  · exact encloses.children (.object o) rfl mine _ (List.mem_map_of_mem there)

/-- Freezing goes from container to container, and does not get out of the zone, since nothing in it holds anything
outside. -/
theorem freeze (encloses : z.Encloses first h) (inside : z.Holds v) : z.Encloses first (h.freeze v) := by
  have hardens := Heap.freeze_hardens h v
  have closed : ∀ v, z.Holds v → ∀ u ∈ h.children v, z.Holds u := by
    intro v holds u mem
    cases v with
    | array a => exact encloses.children (.array a) rfl holds u mem
    | object o => exact encloses.children (.object o) rfl holds u mem
    | _ => cases mem
  have flag : ∀ u, ¬ z.Holds u → (h.freeze v).isFrozen u = h.isFrozen u := fun u outside =>
    Heap.isFrozen_freezeWithin_of_apart outside _ h v closed inside
  -- nothing changes but flags, so the references are those of before
  refine ⟨fun w container holds u mem => ?_, ?_, ?_, ?_, ?_, ?_, ?_, fun a outside => ?_,
    fun o outside => ?_⟩
  · rw [hardens.children_eq] at mem
    exact encloses.children w container holds u mem
  · simp only [Heap.closureAt, hardens.closures]
    exact encloses.closures
  · simp only [Heap.cellAt, hardens.cells]
    exact encloses.cells
  · rw [hardens.arrays]
    exact encloses.newArrays
  · rw [hardens.objects]
    exact encloses.newObjects
  · rw [hardens.closures]
    exact encloses.newClosures
  · rw [hardens.cells]
    exact encloses.newCells
  · rw [← encloses.arrays a outside]
    exact ArrayData.ext (hardens.items a) (flag (.array a) outside)
  · rw [← encloses.objects o outside]
    exact ObjectData.ext (hardens.properties o) (flag (.object o) outside)

end Zone.Encloses

namespace Heap

variable {h : Heap} {given : Value → Prop} {v u : Value}

theorem reach_holds_of_leadsTo (start : given v) (leads : h.LeadsTo v u) : (h.reach given).Holds u := by
  cases u with
  | array a => exact .inl ⟨v, start, leads⟩
  | object o => exact .inl ⟨v, start, leads⟩
  | closure c => exact .inl ⟨v, start, leads⟩
  | _ => trivial

theorem reach_holds (start : given v) : (h.reach given).Holds v :=
  reach_holds_of_leadsTo start .refl

/-- From what the given values lead to, nothing else is reached. -/
theorem reach_encloses (h : Heap) (given : Value → Prop) : (h.reach given).Encloses h h where
  -- what is reached is closed under references, and a container that is new has none yet
  children v container holds u mem := by
    have inside := mem_referents_of_mem_children mem
    cases v with
    | array a =>
      rcases holds with ⟨v, start, leads⟩ | new
      · exact reach_holds_of_leadsTo start (leads.tail inside)
      · exact absurd mem (not_mem_children_new_array new)
    | object o =>
      rcases holds with ⟨v, start, leads⟩ | new
      · exact reach_holds_of_leadsTo start (leads.tail inside)
      · exact absurd mem (not_mem_children_new_object new)
    | _ => cases container
  closures c holds b mem := by
    rcases holds with ⟨v, start, leads⟩ | new
    · exact .inl ⟨v, c, start, leads, b, mem, rfl⟩
    · have default : h.closureAt c = default := by simp [closureAt, Nat.not_lt.2 new]
      rw [default] at mem
      cases mem
  cells c holds := by
    rcases holds with ⟨v, k, start, leads, b, mem, rfl⟩ | new
    · exact reach_holds_of_leadsTo start (leads.tail (List.mem_map_of_mem mem))
    · rw [show h.cellAt c = .undefined by simp [cellAt, Nat.not_lt.2 new]]
      trivial
  newArrays _ new := .inr new
  newObjects _ new := .inr new
  newClosures _ new := .inr new
  newCells _ new := .inr new
  arrays _ _ := rfl
  objects _ _ := rfl

end Heap

/-! ## Evaluation -/

namespace Correspondence

private theorem options_self (ctx : Context) : ctx.options = ctx.options :=
  rfl

/-- A run next to itself, in heaps that are enclosed in a zone. -/
def enclosed (ctx : Context) (z : Zone) (first : Heap) (inside : ctx.Inside z) : Correspondence where
  World := Unit
  order := standstill
  pairing _ := z.pairing
  pairing_le _ := (Zone.Le.refl z).pairing
  access := .all
  left := ctx
  right := ctx
  options_eq := options_self ctx
  heaps _ h₁ h₂ := h₁ = h₂ ∧ z.Encloses first h₂
  alike := by
    rintro - h₁ h₂ ⟨rfl, encloses⟩
    exact encloses.heapAlike
  lookup := by
    rintro - h₁ h₂ n ⟨rfl, encloses⟩ -
    exact inside.lookup encloses.heapAlike n
  locals _ _ := inside.locals.alike
  -- the zone is large enough from the start: what is new is in it already, so the world never grows
  newArray := by
    rintro - h₁ h₂ items₁ items₂ ⟨rfl, encloses⟩ items
    obtain ⟨same, holds⟩ := Zone.allAlike_iff.1 items
    obtain rfl := Array.toList_inj.1 same
    exact ⟨(), le_refl _, ⟨rfl, encloses.newArray holds⟩, rfl, encloses.newArrays _ (le_refl _)⟩
  newObject := by
    rintro - h₁ h₂ m₁ m₂ ⟨rfl, encloses⟩ entries
    obtain ⟨rfl, holds⟩ := Zone.entriesAlike_iff.1 entries
    exact ⟨(), le_refl _, ⟨rfl, encloses.newObject holds⟩, rfl, encloses.newObjects _ (le_refl _)⟩
  newClosure := by
    rintro - h₁ h₂ c₁ c₂ ⟨rfl, encloses⟩ closure
    have captured := (Zone.bindingsAlike_iff.1 closure.captured).2
    obtain rfl := Zone.eq_of_closureAlike closure
    exact ⟨(), le_refl _, ⟨rfl, encloses.newClosure captured⟩, rfl, encloses.newClosures _ (le_refl _)⟩
  newCell := by
    rintro - h₁ h₂ v₁ v₂ ⟨rfl, encloses⟩ value
    obtain ⟨rfl, holds⟩ := Zone.alike_iff.1 value
    exact ⟨(), le_refl _, ⟨rfl, encloses.newCell holds⟩, rfl, encloses.newCells _ (le_refl _)⟩
  setCell := by
    rintro - h₁ h₂ c₁ c₂ v₁ v₂ ⟨rfl, encloses⟩ ⟨rfl, -⟩ value
    obtain ⟨rfl, holds⟩ := Zone.alike_iff.1 value
    exact ⟨(), le_refl _, rfl, encloses.setCell holds⟩
  modifyItems := by
    rintro - h₁ h₂ a b f g ⟨rfl, encloses⟩ ⟨rfl, mine⟩ - items
    obtain ⟨same, holds⟩ := Zone.allAlike_iff.1 items
    exact ⟨(), le_refl _, Heap.modifyItems_congr (Array.toList_inj.1 same),
      encloses.modifyItems mine holds⟩
  modifyProperties := by
    rintro - h₁ h₂ a b f g ⟨rfl, encloses⟩ ⟨rfl, mine⟩ - - entries
    obtain ⟨same, holds⟩ := Zone.entriesAlike_iff.1 entries
    exact ⟨(), le_refl _, Heap.modifyProperties_congr same,
      encloses.modifyProperties mine holds⟩
  freeze := by
    rintro - h₁ h₂ v₁ v₂ ⟨rfl, encloses⟩ value
    obtain ⟨rfl, holds⟩ := Zone.alike_iff.1 value
    exact ⟨(), le_refl _, rfl, encloses.freeze holds⟩

end Correspondence

/-! ## Runs -/

namespace Zone

open EvalM

variable {z : Zone} {first : Heap} {α β : Type} {P : α → Prop} {Q : β → Prop} {ctx : Context}

/-- However the step ends, it changes nothing outside of the zone; and its result is as `P` says. -/
def Confines (z : Zone) (first : Heap) (P : α → Prop) (x : EvalM α) : Prop :=
  ∀ s, z.Encloses first s.heap → match x s with
    | .ok a t => P a ∧ z.Encloses first t.heap
    | .error _ t => z.Encloses first t.heap

theorem confines_pure {a : α} (result : P a) : z.Confines first P (pure a) :=
  fun _ encloses => ⟨result, encloses⟩

theorem confines_throw (e : Exit) : z.Confines first P (throw e) :=
  fun _ encloses => encloses

/-- Two steps that stay inside the zone do so one after the other. -/
theorem Confines.bind {x : EvalM α} {f : α → EvalM β} (head : z.Confines first P x)
    (tail : ∀ a, P a → z.Confines first Q (f a)) : z.Confines first Q (x >>= f) := by
  intro s encloses
  have head := head s encloses
  show match EStateM.bind x f s with
    | .ok b t => Q b ∧ z.Encloses first t.heap
    | .error _ t => z.Encloses first t.heap
  unfold EStateM.bind
  cases run : x s with
  | ok a t =>
    rw [run] at head
    exact tail a head.1 t head.2
  | error e t =>
    rw [run] at head
    exact head

/-- A failure that is caught stays inside as well. -/
theorem Confines.attempt {x : EvalM α} (step : z.Confines first P x) :
    z.Confines first (fun result => ∀ a, result = .ok a → P a) (EvalM.attempt x) := by
  intro s encloses
  have step := step s encloses
  unfold EvalM.attempt
  cases run : x s with
  | ok a t =>
    rw [run] at step
    refine ⟨fun b same => ?_, step.2⟩
    cases same
    exact step.1
  | error e t =>
    rw [run] at step
    exact ⟨nofun, step⟩

theorem confines_readHeap {f : Heap → α} (result : ∀ h, z.Encloses first h → P (f h)) :
    z.Confines first P (readHeap f) :=
  fun s encloses => ⟨result s.heap encloses, encloses⟩

theorem confines_modifyHeap {f : Heap → Heap} (kept : ∀ h, z.Encloses first h → z.Encloses first (f h)) :
    z.Confines first (fun _ => True) (modifyHeap f) :=
  fun s encloses => ⟨trivial, kept s.heap encloses⟩

theorem Confines.encloses_stateAfter {x : EvalM α} {s : State} (step : z.Confines first P x)
    (encloses : z.Encloses first s.heap) : z.Encloses first (x.stateAfter s).heap := by
  have step := step s encloses
  unfold EvalM.stateAfter
  cases run : x s with
  | ok a t =>
    rw [run] at step
    exact step.2
  | error e t =>
    rw [run] at step
    exact step

/-- An expression has a value in the zone. -/
theorem confines_evaluate (inside : ctx.Inside z) (e : Expr) :
    z.Confines first z.Holds (ctx.evaluate e) := by
  intro s encloses
  let C := Correspondence.enclosed ctx z first inside
  -- The scopes of `s` may bind anything, but the run starts without them.
  have st : C.Alike () { s with env := {} } { s with env := {} } :=
    ⟨⟨rfl, encloses⟩, ⟨.nil, rfl, rfl, rfl⟩, rfl, rfl, rfl⟩
  have ends : C.Sim .expression C.Vals () (ctx.evaluate e) (ctx.evaluate e) _ _ :=
    C.evaluate st (e.within_all [])
  simp only [Correspondence.Sim, Context.evaluate, Context.inFreshEnvironment, inEnvironment_apply] at ends ⊢
  generalize ((ctx.evalExpr e).attempt >>= fun ending => settle ending) _ = result at ends ⊢
  cases result with
  | ok v t =>
    cases ends with
    | ok _ alike _ _ result => exact ⟨(alike_iff.1 result).2, alike.heap.2⟩
  | error e t =>
    cases ends with
    | error _ alike => exact alike.heap.2

end Zone

end BindScript
