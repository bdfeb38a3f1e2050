import Mathlib.Data.Finset.Card
import Mathlib.Logic.Relation
import BindScript.Heap

/-!
# Freezing reaches everything

`h.freeze v` freezes `v` and everything reachable from it, and changes nothing else (`freeze_closed`,
`freeze_hardens`). The walk carries a bounded number of steps; it gets along with them because every step
down freezes a container that was not frozen before, so the number of containers that are not frozen bounds
the depth of the walk (`freezeWithin_closed`).

On the way down the heap is not closed: a container is marked before its children are. The invariant
therefore leaves out a set of containers (`ClosedExcept`), those the walk is inside of.
-/

namespace BindScript.Heap

variable {h h' : Heap} {v u : Value}

/-- A value that can be reached through items and properties. -/
def Reaches (h : Heap) : Value → Value → Prop :=
  Relation.ReflTransGen fun v u => u ∈ h.children v

/-- Everything reachable from something frozen is itself frozen. -/
def FrozenClosed (h : Heap) : Prop :=
  ∀ v u, h.isFrozen v = true → h.Reaches v u → h.isFrozen u = true

/-- What is directly inside of something frozen is frozen, except inside of some values. -/
def ClosedExcept (h : Heap) (except : Value → Prop) : Prop :=
  ∀ v, h.isFrozen v = true → ¬ except v → ∀ u ∈ h.children v, h.isFrozen u = true

/-- Following references one by one is enough to check that frozenness is closed. -/
theorem frozenClosed_iff : h.FrozenClosed ↔ h.ClosedExcept fun _ => False := by
  constructor
  · intro closed v frozen _ u inside
    exact closed v u frozen (.single inside)
  · intro closed v u frozen path
    induction path with
    | refl => exact frozen
    | tail _ edge ih => exact closed _ ih id _ edge

/-! ## Heaps that differ in what is frozen -/

/-- The same contents, with at least as much frozen. -/
structure Hardens (h h' : Heap) : Prop where
  arrays : h'.arrays.size = h.arrays.size
  objects : h'.objects.size = h.objects.size
  items : ∀ a, h'.items a = h.items a
  properties : ∀ o, h'.properties o = h.properties o
  closures : h'.closures = h.closures
  cells : h'.cells = h.cells
  arrayFrozen : ∀ a, (h.arrayAt a).frozen = true → (h'.arrayAt a).frozen = true
  objectFrozen : ∀ o, (h.objectAt o).frozen = true → (h'.objectAt o).frozen = true

namespace Hardens

theorem refl (h : Heap) : h.Hardens h :=
  ⟨rfl, rfl, fun _ => rfl, fun _ => rfl, rfl, rfl, fun _ => id, fun _ => id⟩

theorem trans {h₁ h₂ h₃ : Heap} (h : h₁.Hardens h₂) (k : h₂.Hardens h₃) : h₁.Hardens h₃ where
  arrays := k.arrays.trans h.arrays
  objects := k.objects.trans h.objects
  items a := (k.items a).trans (h.items a)
  properties o := (k.properties o).trans (h.properties o)
  closures := k.closures.trans h.closures
  cells := k.cells.trans h.cells
  arrayFrozen a frozen := k.arrayFrozen a (h.arrayFrozen a frozen)
  objectFrozen o frozen := k.objectFrozen o (h.objectFrozen o frozen)

theorem children_eq (hardens : h.Hardens h') (v : Value) : h'.children v = h.children v := by
  cases v with
  | array a => exact congrArg Array.toList (hardens.items a)
  | object o => exact congrArg (List.map _) (hardens.properties o)
  | _ => rfl

theorem isFrozen (hardens : h.Hardens h') (frozen : h.isFrozen v = true) : h'.isFrozen v = true := by
  cases v with
  | array a => exact hardens.arrayFrozen a frozen
  | object o => exact hardens.objectFrozen o frozen
  | _ => rfl

end Hardens

/-- An array that is not frozen is there. -/
theorem lt_size_of_unfrozen_array {a : Nat} (unfrozen : (h.arrayAt a).frozen = false) :
    a < h.arrays.size := by
  by_contra outside
  simp [arrayAt, outside] at unfrozen

/-- An object that is not frozen is there. -/
theorem lt_size_of_unfrozen_object {o : Nat} (unfrozen : (h.objectAt o).frozen = false) :
    o < h.objects.size := by
  by_contra outside
  simp [objectAt, outside] at unfrozen

/-- Marking one container as frozen says nothing of the others. -/
theorem isFrozen_markFrozen_of_ne (ne : u ≠ v) : (h.markFrozen v).isFrozen u = h.isFrozen u := by
  cases v with
  | array a =>
    cases u with
    | array b =>
      have ne : b ≠ a := fun eq => ne (congrArg Value.array eq)
      exact congrArg ArrayData.frozen (arrayAt_modifyArray_of_ne ne _)
    | _ => rfl
  | object o =>
    cases u with
    | object p =>
      have ne : p ≠ o := fun eq => ne (congrArg Value.object eq)
      exact congrArg ObjectData.frozen (objectAt_modifyObject_of_ne ne _)
    | _ => rfl
  | _ => rfl

theorem isFrozen_markFrozen_self (unfrozen : h.isFrozen v = false) :
    (h.markFrozen v).isFrozen v = true := by
  cases v with
  | array a =>
    exact congrArg ArrayData.frozen (arrayAt_modifyArray_self (lt_size_of_unfrozen_array unfrozen) _)
  | object o =>
    exact congrArg ObjectData.frozen
      (objectAt_modifyObject_self (lt_size_of_unfrozen_object unfrozen) _)
  | _ => rfl

/-- To mark a container changes neither what it holds nor any other mark. -/
theorem hardens_markFrozen (unfrozen : h.isFrozen v = false) : h.Hardens (h.markFrozen v) := by
  have mono : ∀ u, h.isFrozen u = true → (h.markFrozen v).isFrozen u = true := fun u frozen => by
    have ne : u ≠ v := fun eq => by rw [eq, unfrozen] at frozen; cases frozen
    rw [isFrozen_markFrozen_of_ne ne]
    exact frozen
  cases v with
  | array a =>
    refine ⟨by simp [markFrozen, modifyArray], rfl, fun b => ?_, fun _ => rfl, rfl, rfl,
      fun b => mono (.array b), fun o => mono (.object o)⟩
    by_cases same : b = a
    · subst same
      have marked := arrayAt_modifyArray_self (lt_size_of_unfrozen_array unfrozen)
        fun d => { d with frozen := true }
      have items := congrArg ArrayData.items marked
      exact items
    · exact congrArg ArrayData.items (arrayAt_modifyArray_of_ne same _)
  | object o =>
    refine ⟨rfl, by simp [markFrozen, modifyObject], fun _ => rfl, fun p => ?_, rfl, rfl,
      fun a => mono (.array a), fun p => mono (.object p)⟩
    by_cases same : p = o
    · subst same
      have marked := objectAt_modifyObject_self (lt_size_of_unfrozen_object unfrozen)
        fun d => { d with frozen := true }
      have properties := congrArg ObjectData.properties marked
      exact properties
    · exact congrArg ObjectData.properties (objectAt_modifyObject_of_ne same _)
  | _ => exact .refl h

/-! ## Counting what is not frozen -/

/-- The containers that are not frozen, arrays before objects. -/
def unfrozenArrays (h : Heap) : Finset Nat :=
  (Finset.range h.arrays.size).filter fun a => (h.arrayAt a).frozen = false

def unfrozenObjects (h : Heap) : Finset Nat :=
  (Finset.range h.objects.size).filter fun o => (h.objectAt o).frozen = false

/-- How many containers are not frozen. -/
def unfrozen (h : Heap) : Nat :=
  h.unfrozenArrays.card + h.unfrozenObjects.card

theorem mem_unfrozenArrays {a : Nat} : a ∈ h.unfrozenArrays ↔ (h.arrayAt a).frozen = false := by
  simp only [unfrozenArrays, Finset.mem_filter, Finset.mem_range, and_iff_right_iff_imp]
  exact lt_size_of_unfrozen_array

theorem mem_unfrozenObjects {o : Nat} : o ∈ h.unfrozenObjects ↔ (h.objectAt o).frozen = false := by
  simp only [unfrozenObjects, Finset.mem_filter, Finset.mem_range, and_iff_right_iff_imp]
  exact lt_size_of_unfrozen_object

theorem unfrozen_le (h : Heap) : h.unfrozen ≤ h.arrays.size + h.objects.size := by
  have arrays := Finset.card_filter_le (Finset.range h.arrays.size)
    fun a => (h.arrayAt a).frozen = false
  have objects := Finset.card_filter_le (Finset.range h.objects.size)
    fun o => (h.objectAt o).frozen = false
  rw [Finset.card_range] at arrays objects
  exact Nat.add_le_add arrays objects

theorem Hardens.unfrozenArrays_subset (hardens : h.Hardens h') :
    h'.unfrozenArrays ⊆ h.unfrozenArrays := fun a mem => by
  rw [mem_unfrozenArrays] at mem ⊢
  rw [← Bool.not_eq_true] at mem ⊢
  exact fun frozen => mem (hardens.arrayFrozen a frozen)

theorem Hardens.unfrozenObjects_subset (hardens : h.Hardens h') :
    h'.unfrozenObjects ⊆ h.unfrozenObjects := fun o mem => by
  rw [mem_unfrozenObjects] at mem ⊢
  rw [← Bool.not_eq_true] at mem ⊢
  exact fun frozen => mem (hardens.objectFrozen o frozen)

theorem Hardens.unfrozen_le (hardens : h.Hardens h') : h'.unfrozen ≤ h.unfrozen :=
  Nat.add_le_add (Finset.card_le_card hardens.unfrozenArrays_subset)
    (Finset.card_le_card hardens.unfrozenObjects_subset)

/-- Marking a container that was not frozen leaves fewer of them. -/
theorem unfrozen_markFrozen_lt (unfrozen : h.isFrozen v = false) :
    (h.markFrozen v).unfrozen < h.unfrozen := by
  have hardens := hardens_markFrozen unfrozen
  have marked := isFrozen_markFrozen_self unfrozen
  cases v with
  | array a =>
    refine Nat.add_lt_add_of_lt_of_le (Finset.card_lt_card ?_)
      (Finset.card_le_card hardens.unfrozenObjects_subset)
    refine Finset.ssubset_iff_of_subset hardens.unfrozenArrays_subset |>.2
      ⟨a, mem_unfrozenArrays.2 unfrozen, fun mem => ?_⟩
    have still : ((h.markFrozen (.array a)).arrayAt a).frozen = false := mem_unfrozenArrays.1 mem
    exact absurd (marked.symm.trans still) (by decide)
  | object o =>
    refine Nat.add_lt_add_of_le_of_lt (Finset.card_le_card hardens.unfrozenArrays_subset)
      (Finset.card_lt_card ?_)
    refine Finset.ssubset_iff_of_subset hardens.unfrozenObjects_subset |>.2
      ⟨o, mem_unfrozenObjects.2 unfrozen, fun mem => ?_⟩
    have still : ((h.markFrozen (.object o)).objectAt o).frozen = false := mem_unfrozenObjects.1 mem
    exact absurd (marked.symm.trans still) (by decide)
  | _ => cases unfrozen

/-! ## The walk -/

theorem hardens_foldl {f : Heap → Value → Heap} (each : ∀ (h : Heap) (v : Value), h.Hardens (f h v))
    (vs : List Value) (h : Heap) : h.Hardens (vs.foldl f h) := by
  induction vs generalizing h with
  | nil => exact .refl h
  | cons v vs ih => exact (each h v).trans (ih (f h v))

theorem hardens_freezeWithin (steps : Nat) (h : Heap) (v : Value) :
    h.Hardens (freezeWithin steps h v) := by
  induction steps generalizing h v with
  | zero => exact .refl h
  | succ steps ih =>
    unfold freezeWithin
    split
    · exact .refl h
    next unfrozen =>
      exact (hardens_markFrozen (by simpa using unfrozen)).trans (hardens_foldl ih _ _)

theorem freeze_hardens (h : Heap) (v : Value) : h.Hardens (h.freeze v) :=
  hardens_freezeWithin _ h v

/-- Freezing values one after another freezes them all, if freezing each one does. -/
private theorem foldl_closed {f : Heap → Value → Heap} {bound : Nat} {except : Value → Prop}
    (hardens : ∀ (h : Heap) (v : Value), h.Hardens (f h v))
    (each : ∀ (h : Heap) (v : Value), h.unfrozen < bound → h.ClosedExcept except →
      (f h v).isFrozen v = true ∧ (f h v).ClosedExcept except)
    (vs : List Value) (enough : h.unfrozen < bound) (closed : h.ClosedExcept except) :
    (∀ v ∈ vs, (vs.foldl f h).isFrozen v = true) ∧ (vs.foldl f h).ClosedExcept except := by
  induction vs generalizing h with
  | nil => exact ⟨nofun, closed⟩
  | cons v vs ih =>
    have first := each h v enough closed
    have later := ih (Nat.lt_of_le_of_lt (hardens h v).unfrozen_le enough) first.2
    refine ⟨fun u mem => ?_, later.2⟩
    rcases List.mem_cons.1 mem with rfl | mem
    · exact (hardens_foldl hardens vs _).isFrozen first.1
    · exact later.1 u mem

/-- Enough steps freeze a value with all that is inside of it, and leave no container half done that was
not so before. -/
theorem freezeWithin_closed {steps : Nat} (enough : h.unfrozen < steps) (v : Value)
    {except : Value → Prop} (closed : h.ClosedExcept except) :
    (freezeWithin steps h v).isFrozen v = true ∧ (freezeWithin steps h v).ClosedExcept except := by
  induction steps generalizing h v except with
  | zero => cases enough
  | succ steps ih =>
    unfold freezeWithin
    split
    next frozen => exact ⟨frozen, closed⟩
    next unfrozen =>
      have unfrozen : h.isFrozen v = false := by simpa using unfrozen
      have marked := hardens_markFrozen unfrozen
      -- While the walk is inside of `v`, nothing is said about what `v` holds.
      have inside : (h.markFrozen v).ClosedExcept fun u => u = v ∨ except u := by
        intro u frozen out w mem
        rw [isFrozen_markFrozen_of_ne fun eq => out (.inl eq)] at frozen
        rw [marked.children_eq] at mem
        exact marked.isFrozen (closed u frozen (fun ex => out (.inr ex)) w mem)
      have fewer : (h.markFrozen v).unfrozen < steps :=
        Nat.lt_of_lt_of_le (unfrozen_markFrozen_lt unfrozen) (Nat.le_of_lt_succ enough)
      have walked := hardens_foldl (hardens_freezeWithin steps) (h.children v) (h.markFrozen v)
      have done := foldl_closed (hardens_freezeWithin steps)
        (fun h v enough closed => ih enough v closed) (h.children v) fewer inside
      refine ⟨walked.isFrozen (isFrozen_markFrozen_self unfrozen), fun u frozen out w mem => ?_⟩
      by_cases same : u = v
      · subst same
        rw [walked.children_eq, marked.children_eq] at mem
        exact done.1 w mem
      · exact done.2 u frozen (fun ex => ex.elim same out) w mem

/-- Freezing a value keeps frozenness closed. -/
theorem freeze_closed (closed : h.FrozenClosed) (v : Value) : (h.freeze v).FrozenClosed :=
  frozenClosed_iff.2
    (freezeWithin_closed (Nat.lt_succ_of_le h.unfrozen_le) v (frozenClosed_iff.1 closed)).2

end BindScript.Heap

/-!
## Freezing freezes what is reached, and nothing more

Freezing reaches everything, as shown above. Here is the other half: the walk as a relation with no
bound on its depth (`Freezes`), so that a derivation is a walk that comes to an end. There is exactly one, it
ends in `h.freeze v` (`freezes_freezeWithin`, `Freezes.unique`), and each container that it marks is on a path
from where it started (`Freezes.reached`). Together the containers that are frozen afterwards are known
exactly (`freeze_exact`).
-/

namespace BindScript.Heap

/-- The walk over values that are still to be frozen: it passes by what is frozen already, and marks any
other value before it goes inside. -/
inductive Freezes : Heap → List Value → Heap → Prop
  | done (h : Heap) : Freezes h [] h
  | passed {h h' : Heap} {v : Value} {vs : List Value} : h.isFrozen v = true →
      Freezes h vs h' → Freezes h (v :: vs) h'
  | entered {h inside h' : Heap} {v : Value} {vs : List Value} : h.isFrozen v = false →
      Freezes (h.markFrozen v) (h.children v) inside → Freezes inside vs h' → Freezes h (v :: vs) h'

variable {h h' : Heap} {u v : Value} {vs : List Value}

theorem Freezes.hardens (walk : h.Freezes vs h') : h.Hardens h' := by
  induction walk with
  | done h => exact .refl h
  | passed _ _ ih => exact ih
  | entered unfrozen _ _ inner later => exact (hardens_markFrozen unfrozen).trans (inner.trans later)

/-- The walk ends in one heap only. -/
theorem Freezes.unique {h₁ h₂ : Heap} (first : h.Freezes vs h₁) (second : h.Freezes vs h₂) : h₁ = h₂ := by
  induction first generalizing h₂ with
  | done => cases second with
    | done => rfl
  | passed frozen _ ih => cases second with
    | passed _ walk => exact ih walk
    | entered unfrozen => exact absurd (frozen.symm.trans unfrozen) (by decide)
  | entered unfrozen _ _ inner later => cases second with
    | passed frozen => exact absurd (frozen.symm.trans unfrozen) (by decide)
    | entered _ inside walk =>
      obtain rfl := inner inside
      exact later walk

/-- Walks that follow each other are one walk. -/
theorem Freezes.append {h₁ h₂ : Heap} {us : List Value} (first : h.Freezes us h₁) (later : h₁.Freezes vs h₂) :
    h.Freezes (us ++ vs) h₂ := by
  induction first with
  | done => exact later
  | passed frozen _ ih => exact .passed frozen (ih later)
  | entered unfrozen inside _ _ ih => exact .entered unfrozen inside (ih later)

/-! ### The walk comes to an end -/

/-- Walks over single values put one after another. -/
private theorem freezes_foldl {f : Heap → Value → Heap} {bound : Nat}
    (each : ∀ (h : Heap) (v : Value), h.unfrozen < bound → h.Freezes [v] (f h v))
    (vs : List Value) (enough : h.unfrozen < bound) : h.Freezes vs (vs.foldl f h) := by
  induction vs generalizing h with
  | nil => exact .done h
  | cons v vs ih =>
    have first := each h v enough
    exact first.append (ih (Nat.lt_of_le_of_lt first.hardens.unfrozen_le enough))

/-- With more steps than there are containers to freeze, the bounded walk is the walk: every step down has
marked one of them. -/
theorem freezes_freezeWithin {steps : Nat} (enough : h.unfrozen < steps) (v : Value) :
    h.Freezes [v] (freezeWithin steps h v) := by
  induction steps generalizing h v with
  | zero => cases enough
  | succ steps ih =>
    unfold freezeWithin
    split
    next frozen => exact .passed frozen (.done h)
    next unfrozen =>
      have unfrozen : h.isFrozen v = false := by simpa using unfrozen
      have fewer : (h.markFrozen v).unfrozen < steps := by
        have marked := unfrozen_markFrozen_lt unfrozen
        omega
      exact .entered unfrozen (freezes_foldl (fun _ v enough => ih enough v) _ fewer) (.done _)

theorem freezes_freeze (h : Heap) (v : Value) : h.Freezes [v] (h.freeze v) :=
  freezes_freezeWithin (Nat.lt_succ_of_le h.unfrozen_le) v

/-! ### What is marked has been reached -/

/-- Freezing changes no path. -/
theorem Hardens.reaches_iff (hardens : h.Hardens h') : h'.Reaches v u ↔ h.Reaches v u := by
  unfold Reaches
  simp only [hardens.children_eq]

/-- What is frozen after the walk and was not before is reachable from a value that the walk was given. -/
theorem Freezes.reached (walk : h.Freezes vs h') (frozen : h'.isFrozen u = true) :
    h.isFrozen u = true ∨ ∃ v ∈ vs, h.Reaches v u := by
  induction walk with
  | done => exact .inl frozen
  | passed _ _ ih =>
    rcases ih frozen with before | ⟨w, mem, path⟩
    · exact .inl before
    · exact .inr ⟨w, List.mem_cons_of_mem _ mem, path⟩
  | @entered h _ _ v _ unfrozen inside _ inner later =>
    have marked := hardens_markFrozen unfrozen
    rcases later frozen with before | ⟨w, mem, path⟩
    · rcases inner before with before | ⟨child, mem, path⟩
      · by_cases same : u = v
        · subst same
          exact .inr ⟨u, List.mem_cons_self, .refl⟩
        · rw [isFrozen_markFrozen_of_ne same] at before
          exact .inl before
      · have below : h.Reaches child u := marked.reaches_iff.1 path
        exact .inr ⟨v, List.mem_cons_self, .head mem below⟩
    · have path : h.Reaches w u := (marked.trans inside.hardens).reaches_iff.1 path
      exact .inr ⟨w, List.mem_cons_of_mem _ mem, path⟩

/-- Freezing a value comes to an end. Frozen afterwards is what was frozen before and what can be reached from
the value, no container holds anything else than before, and what is frozen holds frozen values only. -/
theorem freeze_exact (closed : h.FrozenClosed) (v : Value) :
    (∀ h', h.Freezes [v] h' ↔ h' = h.freeze v) ∧
      (∀ u, (h.freeze v).isFrozen u = true ↔ h.isFrozen u = true ∨ h.Reaches v u) ∧
      h.Hardens (h.freeze v) ∧ (h.freeze v).FrozenClosed := by
  have walk := freezes_freeze h v
  have hardens := walk.hardens
  have after := freeze_closed closed v
  refine ⟨fun h' => ⟨fun other => other.unique walk, ?_⟩, fun u => ⟨fun frozen => ?_, ?_⟩, hardens, after⟩
  · rintro rfl
    exact walk
  · rcases walk.reached frozen with before | ⟨w, mem, path⟩
    · exact .inl before
    · obtain rfl := List.mem_singleton.1 mem
      exact .inr path
  · rintro (before | path)
    · exact hardens.isFrozen before
    · have start : (h.freeze v).isFrozen v = true :=
        (freezeWithin_closed (Nat.lt_succ_of_le h.unfrozen_le) v (frozenClosed_iff.1 closed)).1
      exact after v u start (hardens.reaches_iff.2 path)

/-- An array that holds itself and an object, which holds the array in turn and one that is frozen; the last
array is held by none of them. -/
def tangled : Heap where
  arrays := #[{ items := #[.object 0, .array 0] }, { items := #[], frozen := true }, { items := #[.array 1] }]
  objects := #[{ properties := [("self", .array 0), ("done", .array 1)] }]

theorem tangled_frozenClosed : tangled.FrozenClosed := by
  rw [frozenClosed_iff]
  intro v frozen _ u mem
  match v with
  | .array 0 | .array 2 | .object 0 => cases frozen
  | .array 1 | .array (_ + 3) | .object (_ + 1) => cases mem

/-- Freezing goes around the ring and ends. The array that nothing in the ring holds is left alone. -/
theorem freeze_exact_tangled :
    tangled.FrozenClosed ∧
      (∀ u, (tangled.freeze (.array 0)).isFrozen u = true ↔
        tangled.isFrozen u = true ∨ tangled.Reaches (.array 0) u) ∧
      (tangled.freeze (.array 0)).isFrozen (.object 0) = true ∧
      (tangled.freeze (.array 0)).isFrozen (.array 2) = false :=
  ⟨tangled_frozenClosed, (freeze_exact tangled_frozenClosed (.array 0)).2.1, by decide, by decide⟩

end BindScript.Heap
