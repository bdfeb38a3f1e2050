import BindScript.Evaluation.Basic
import BindScript.Proofs.Frozen.Freeze

/-!
# Heaps in which frozen containers stay

A heap is well formed when every reference in it is to a container that it holds. In such a heap a new
container cannot end up inside of something frozen, which is why frozenness stays closed (`FrozenClosed`)
when the heap grows.

Each operation of the heap is shown to keep well-formedness, closedness, and every frozen container
(`KeepsFrozen`); writes keep them because they are made only to what is not frozen.
-/

namespace BindScript

theorem ArrayData.ext {x y : ArrayData} (items : x.items = y.items) (frozen : x.frozen = y.frozen) :
    x = y := by
  cases x
  cases y
  simp_all

theorem ObjectData.ext {x y : ObjectData} (properties : x.properties = y.properties)
    (frozen : x.frozen = y.frozen) : x = y := by
  cases x
  cases y
  simp_all

namespace Heap

variable {h h' : Heap} {v u : Value} {a o : Nat}

/-- The container that a value names is in the heap. -/
def Allocates (h : Heap) : Value → Prop
  | .array a => a < h.arrays.size
  | .object o => o < h.objects.size
  | _ => True

/-- Every reference in the heap is to a container in the heap. -/
structure WellFormed (h : Heap) : Prop where
  children : ∀ v, ∀ u ∈ h.children v, h.Allocates u
  cells : ∀ c, h.Allocates (h.cellAt c)

/-- Every container that was frozen is there as it was. -/
structure KeepsFrozen (h h' : Heap) : Prop where
  arrays : h.arrays.size ≤ h'.arrays.size
  objects : h.objects.size ≤ h'.objects.size
  array : ∀ a < h.arrays.size, (h.arrayAt a).frozen = true → h'.arrayAt a = h.arrayAt a
  object : ∀ o < h.objects.size, (h.objectAt o).frozen = true → h'.objectAt o = h.objectAt o

theorem KeepsFrozen.refl (h : Heap) : h.KeepsFrozen h :=
  ⟨le_refl _, le_refl _, fun _ _ _ => rfl, fun _ _ _ => rfl⟩

theorem KeepsFrozen.trans {h₁ h₂ h₃ : Heap} (h : h₁.KeepsFrozen h₂) (k : h₂.KeepsFrozen h₃) :
    h₁.KeepsFrozen h₃ where
  arrays := le_trans h.arrays k.arrays
  objects := le_trans h.objects k.objects
  array a inside frozen := by
    have same := h.array a inside frozen
    rw [k.array a (lt_of_lt_of_le inside h.arrays) (same ▸ frozen), same]
  object o inside frozen := by
    have same := h.object o inside frozen
    rw [k.object o (lt_of_lt_of_le inside h.objects) (same ▸ frozen), same]

theorem KeepsFrozen.allocates (keeps : h.KeepsFrozen h') (v : h.Allocates u) : h'.Allocates u := by
  cases u with
  | array a => exact lt_of_lt_of_le v keeps.arrays
  | object o => exact lt_of_lt_of_le v keeps.objects
  | _ => trivial

/-- A heap to run code in. -/
structure Sound (h : Heap) : Prop where
  wellFormed : h.WellFormed
  closed : h.FrozenClosed

/-- An operation that leaves the heap sound, with all that was frozen in it. -/
structure Safe (h h' : Heap) : Prop where
  sound : h'.Sound
  keeps : h.KeepsFrozen h'

/-- An operation is safe if all it changes is one container that is not frozen afterwards, and that is new
or was not frozen before. -/
theorem safe_of_one (one : Value) (sound : h.Sound) (keeps : h.KeepsFrozen h')
    (others : ∀ v ≠ one, h'.isFrozen v = h.isFrozen v ∧ h'.children v = h.children v)
    (apart : ∀ v, h.Allocates v → h.isFrozen v = true → v ≠ one)
    (unfrozen : h'.isFrozen one = false) (contents : ∀ v ∈ h'.children one, h.Allocates v)
    (cells : h'.cells = h.cells) : h.Safe h' := by
  have inside : ∀ v, ∀ u ∈ h'.children v, h.Allocates u := fun v u mem => by
    by_cases same : v = one
    · exact contents u (same ▸ mem)
    · rw [(others v same).2] at mem
      exact sound.wellFormed.children v u mem
  refine ⟨⟨⟨fun v u mem => keeps.allocates (inside v u mem), fun c => ?_⟩, ?_⟩, keeps⟩
  · have same : h'.cellAt c = h.cellAt c := by simp only [cellAt, cells]
    exact keeps.allocates (same ▸ sound.wellFormed.cells c)
  · rw [frozenClosed_iff]
    intro v frozen _ u mem
    have ne : v ≠ one := fun same => by
      rw [same, unfrozen] at frozen
      cases frozen
    rw [(others v ne).1] at frozen
    rw [(others v ne).2] at mem
    have frozenInside := frozenClosed_iff.1 sound.closed v frozen id u mem
    rw [(others u (apart u (sound.wellFormed.children v u mem) frozenInside)).1]
    exact frozenInside

/-! ## Operations -/

/-- A new array may hold what is allocated. -/
theorem safe_newArray {items : Array Value} (sound : h.Sound)
    (allocated : ∀ v ∈ items.toList, h.Allocates v) : h.Safe (h.newArray items).2 := by
  have self := arrayAt_newArray_self h items
  have other : ∀ {b}, b ≠ h.arrays.size → (h.newArray items).2.arrayAt b = h.arrayAt b :=
    arrayAt_newArray_of_ne
  refine safe_of_one (.array h.arrays.size) sound ⟨by simp [newArray], le_refl _,
    fun a there _ => other (Nat.ne_of_lt there), fun _ _ _ => rfl⟩ (fun v ne => ?_)
    (fun v there _ same => ?_) (congrArg ArrayData.frozen self) (fun v mem => ?_) rfl
  · cases v with
    | array b =>
      have same := other fun eq => ne (congrArg Value.array eq)
      exact ⟨congrArg ArrayData.frozen same, congrArg (fun d : ArrayData => d.items.toList) same⟩
    | _ => exact ⟨rfl, rfl⟩
  · subst same
    exact Nat.lt_irrefl _ there
  · rw [children, Heap.items, self] at mem
    exact allocated v mem

/-- So may a new object. -/
theorem safe_newObject {properties : Entries Value} (sound : h.Sound)
    (allocated : ∀ v ∈ properties.map (fun entry => entry.2), h.Allocates v) :
    h.Safe (h.newObject properties).2 := by
  have self := objectAt_newObject_self h properties
  have other : ∀ {p}, p ≠ h.objects.size → (h.newObject properties).2.objectAt p = h.objectAt p :=
    objectAt_newObject_of_ne
  refine safe_of_one (.object h.objects.size) sound ⟨le_refl _, by simp [newObject],
    fun _ _ _ => rfl, fun o there _ => other (Nat.ne_of_lt there)⟩ (fun v ne => ?_)
    (fun v there _ same => ?_) (congrArg ObjectData.frozen self) (fun v mem => ?_) rfl
  · cases v with
    | object p =>
      have same := other fun eq => ne (congrArg Value.object eq)
      exact ⟨congrArg ObjectData.frozen same,
        congrArg (fun d : ObjectData => d.properties.map fun entry : String × Value => entry.2) same⟩
    | _ => exact ⟨rfl, rfl⟩
  · subst same
    exact Nat.lt_irrefl _ there
  · rw [children, Heap.properties, self] at mem
    exact allocated v mem

/-- Items of an array that is not frozen may be exchanged for allocated values. -/
theorem safe_modifyItems {change : Array Value → Array Value} (sound : h.Sound)
    (unfrozen : (h.arrayAt a).frozen = false)
    (allocated : ∀ v ∈ (change (h.items a)).toList, h.Allocates v) :
    h.Safe (h.modifyItems a change) := by
  have self : (h.modifyItems a change).arrayAt a =
      { h.arrayAt a with items := change (h.arrayAt a).items } :=
    arrayAt_modifyArray_self (lt_size_of_unfrozen_array unfrozen) _
  have other : ∀ {b}, b ≠ a → (h.modifyItems a change).arrayAt b = h.arrayAt b :=
    fun ne => arrayAt_modifyArray_of_ne ne _
  have apart : ∀ {b}, (h.arrayAt b).frozen = true → b ≠ a := fun frozen same => by
    rw [same, unfrozen] at frozen
    cases frozen
  refine safe_of_one (.array a) sound ⟨by simp [modifyItems, modifyArray], le_refl _,
    fun b _ frozen => other (apart frozen), fun _ _ _ => rfl⟩ (fun v ne => ?_)
    (fun v _ frozen same => ?_) ?_ (fun v mem => ?_) rfl
  · cases v with
    | array b =>
      have same := other fun eq => ne (congrArg Value.array eq)
      exact ⟨congrArg ArrayData.frozen same, congrArg (fun d : ArrayData => d.items.toList) same⟩
    | _ => exact ⟨rfl, rfl⟩
  · subst same
    exact apart frozen rfl
  · exact (congrArg ArrayData.frozen self).trans unfrozen
  · rw [children, Heap.items, self] at mem
    exact allocated v mem

/-- So may the properties of such an object. -/
theorem safe_modifyProperties {change : Entries Value → Entries Value} (sound : h.Sound)
    (unfrozen : (h.objectAt o).frozen = false)
    (allocated : ∀ v ∈ (change (h.properties o)).map (fun entry => entry.2), h.Allocates v) :
    h.Safe (h.modifyProperties o change) := by
  have self : (h.modifyProperties o change).objectAt o =
      { h.objectAt o with properties := change (h.objectAt o).properties } :=
    objectAt_modifyObject_self (lt_size_of_unfrozen_object unfrozen) _
  have other : ∀ {p}, p ≠ o → (h.modifyProperties o change).objectAt p = h.objectAt p :=
    fun ne => objectAt_modifyObject_of_ne ne _
  have apart : ∀ {p}, (h.objectAt p).frozen = true → p ≠ o := fun frozen same => by
    rw [same, unfrozen] at frozen
    cases frozen
  refine safe_of_one (.object o) sound ⟨le_refl _, by simp [modifyProperties, modifyObject],
    fun _ _ _ => rfl, fun p _ frozen => other (apart frozen)⟩ (fun v ne => ?_)
    (fun v _ frozen same => ?_) ?_ (fun v mem => ?_) rfl
  · cases v with
    | object p =>
      have same := other fun eq => ne (congrArg Value.object eq)
      exact ⟨congrArg ObjectData.frozen same,
        congrArg (fun d : ObjectData => d.properties.map fun entry : String × Value => entry.2) same⟩
    | _ => exact ⟨rfl, rfl⟩
  · subst same
    exact apart frozen rfl
  · exact (congrArg ObjectData.frozen self).trans unfrozen
  · rw [children, Heap.properties, self] at mem
    exact allocated v mem

/-- An operation that leaves all containers alone is safe if it puts only references to them in cells. -/
theorem safe_of_cells (sound : h.Sound) (arrays : h'.arrays = h.arrays)
    (objects : h'.objects = h.objects) (allocated : ∀ c, h.Allocates (h'.cellAt c)) : h.Safe h' := by
  have arrayAt : ∀ a, h'.arrayAt a = h.arrayAt a := fun a => by simp only [Heap.arrayAt, arrays]
  have objectAt : ∀ o, h'.objectAt o = h.objectAt o := fun o => by simp only [Heap.objectAt, objects]
  have isFrozen : ∀ v, h'.isFrozen v = h.isFrozen v := fun v => by
    cases v <;> simp only [Heap.isFrozen, arrayAt, objectAt]
  have children : ∀ v, h'.children v = h.children v := fun v => by
    cases v <;> simp only [Heap.children, Heap.items, Heap.properties, arrayAt, objectAt]
  have keeps : h.KeepsFrozen h' :=
    ⟨by rw [arrays], by rw [objects], fun a _ _ => arrayAt a, fun o _ _ => objectAt o⟩
  refine ⟨⟨⟨fun v u mem => ?_, fun c => keeps.allocates (allocated c)⟩, ?_⟩, keeps⟩
  · exact keeps.allocates (sound.wellFormed.children v u (children v ▸ mem))
  · rw [frozenClosed_iff]
    intro v frozen _ u mem
    rw [isFrozen] at frozen ⊢
    exact frozenClosed_iff.1 sound.closed v frozen id u (children v ▸ mem)

theorem safe_newClosure (sound : h.Sound) (c : Closure) : h.Safe (h.newClosure c).2 :=
  safe_of_cells sound rfl rfl sound.wellFormed.cells

theorem safe_newCell (sound : h.Sound) (allocated : h.Allocates v) : h.Safe (h.newCell v).2 := by
  refine safe_of_cells sound rfl rfl fun c => ?_
  by_cases same : c = h.cells.size
  · rw [same, cellAt_newCell_self]
    exact allocated
  · rw [cellAt_newCell_of_ne same]
    exact sound.wellFormed.cells c

theorem safe_setCell {cell : Nat} (sound : h.Sound) (allocated : h.Allocates v) :
    h.Safe (h.setCell cell v) := by
  refine safe_of_cells sound rfl rfl fun c => ?_
  by_cases same : c = cell
  · subst same
    by_cases there : c < h.cells.size
    · rw [cellAt_setCell_self there]
      exact allocated
    · rw [show (h.setCell c v).cellAt c = .undefined by simp [setCell, cellAt, there]]
      trivial
  · rw [cellAt_setCell_of_ne same]
    exact sound.wellFormed.cells c

theorem safe_freeze (sound : h.Sound) (v : Value) : h.Safe (h.freeze v) := by
  have hardens := freeze_hardens h v
  have keeps : h.KeepsFrozen (h.freeze v) := by
    refine ⟨hardens.arrays.ge, hardens.objects.ge, fun a _ frozen => ?_, fun o _ frozen => ?_⟩
    · exact ArrayData.ext (hardens.items a) ((hardens.arrayFrozen a frozen).trans frozen.symm)
    · exact ObjectData.ext (hardens.properties o) ((hardens.objectFrozen o frozen).trans frozen.symm)
  refine ⟨⟨⟨fun v u mem => ?_, fun c => ?_⟩, freeze_closed sound.closed v⟩, keeps⟩
  · rw [hardens.children_eq] at mem
    exact keeps.allocates (sound.wellFormed.children v u mem)
  · have same : (h.freeze v).cellAt c = h.cellAt c := by simp only [cellAt, hardens.cells]
    exact keeps.allocates (same ▸ sound.wellFormed.cells c)

end Heap

end BindScript
