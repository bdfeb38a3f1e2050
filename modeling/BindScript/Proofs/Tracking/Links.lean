import BindScript.Proofs.Frozen.Freeze
import BindScript.Proofs.Value.Index

/-!
Links between containers: one container, read under a key, gives another.

A way is a chain of links. As long as its links stand, reading its keys one after another goes from its
first container to its last one (`Way.walk_eq`). A write of one property leaves all links of other
properties standing, except that cutting an array by its `length` may take the links of its items
(`Link.Stands.set`, `Link.Stands.remove`). What is allocated or frozen cuts no link.

Theorems:
- `Link.Stands.set` and the like: what each operation of the heap leaves standing.
- `Way.walk_eq`: a way whose links stand leads to its end.
-/

namespace BindScript

/-! ## Reading containers -/

namespace Heap

variable {h : Heap} {v : Value} {key : String}

/-- An array gives a container exactly under the index of an item that is this container. -/
theorem get_array_iff {a : Nat} (container : v.isContainer = true) :
    h.get (.array a) key = v ↔ ∃ i, parseIndex? key = some i ∧ (h.items a)[i]? = some v := by
  constructor
  · intro reads
    unfold get at reads
    dsimp only at reads
    split at reads
    · subst reads
      cases container
    · cases index : parseIndex? key with
      | none =>
        rw [index] at reads
        subst reads
        cases container
      | some i =>
        rw [index] at reads
        refine ⟨i, rfl, ?_⟩
        have reads : (h.items a).getD i .undefined = v := reads
        rw [Array.getD_eq_getD_getElem?] at reads
        cases item : (h.items a)[i]? with
        | none =>
          rw [item] at reads
          subst reads
          cases container
        | some u =>
          rw [item] at reads
          exact congrArg some reads
  · rintro ⟨i, index, item⟩
    have notLength : key ≠ "length" := by
      rintro rfl
      cases index
    simp [get, notLength, index, Array.getD_eq_getD_getElem?, item]

/-- An object gives a container exactly under a key whose property is this container. -/
theorem get_object_iff {o : Nat} (container : v.isContainer = true) :
    h.get (.object o) key = v ↔ (h.properties o).get? key = some v := by
  show ((h.properties o).get? key).getD .undefined = v ↔ _
  cases (h.properties o).get? key with
  | none =>
    constructor
    · intro reads
      have reads : Value.undefined = v := reads
      subst reads
      cases container
    · intro none
      cases none
  | some u => simp

theorem items_modifyItems_of_ne {a b : Nat} (ne : b ≠ a) (change : Array Value → Array Value) :
    (h.modifyItems a change).items b = h.items b :=
  congrArg ArrayData.items (arrayAt_modifyArray_of_ne ne _)

theorem properties_modifyProperties_of_ne {o p : Nat} (ne : p ≠ o)
    (change : Entries Value → Entries Value) :
    (h.modifyProperties o change).properties p = h.properties p :=
  congrArg ObjectData.properties (objectAt_modifyObject_of_ne ne _)

/-- What an array holds after a change, if it held anything before. -/
theorem items_modifyItems_self {a i : Nat} (item : (h.items a)[i]? = some v)
    (change : Array Value → Array Value) : (h.modifyItems a change).items a = change (h.items a) := by
  have inside : a < h.arrays.size := by
    by_contra outside
    have empty : h.items a = #[] := by
      simp [items, arrayAt, Array.getD_eq_getD_getElem?, Nat.le_of_not_lt outside]
    rw [empty] at item
    cases item
  exact congrArg ArrayData.items (arrayAt_modifyArray_self inside _)

/-- What an object holds after a change, if it held anything before. -/
theorem properties_modifyProperties_self {o : Nat} (property : (h.properties o).get? key = some v)
    (change : Entries Value → Entries Value) :
    (h.modifyProperties o change).properties o = change (h.properties o) := by
  have inside : o < h.objects.size := by
    by_contra outside
    have empty : h.properties o = [] := by
      simp [properties, objectAt, Array.getD_eq_getD_getElem?, Nat.le_of_not_lt outside]
    rw [empty] at property
    cases property
  exact congrArg ObjectData.properties (objectAt_modifyObject_self inside _)

/-- Putting an item leaves the others where they are. -/
theorem getElem?_putItem_of_ne {items : Array Value} {i j : Nat} (item : items[i]? = some v)
    (ne : i ≠ j) (value : Value) : (putItem items j value)[i]? = some v := by
  have inside : i < items.size := (Array.getElem?_eq_some_iff.1 item).1
  unfold putItem
  split
  · rw [Array.getElem?_setIfInBounds_ne (Ne.symm ne)]
    exact item
  · next beyond =>
    have filled : (resizeItems items j)[i]? = some v := by
      unfold resizeItems
      split
      · have full : items.size = j := by omega
        simpa [← full] using item
      · rw [Array.getElem?_append_left inside]
        exact item
    have notLast : i ≠ (resizeItems items j).size :=
      Nat.ne_of_lt (Array.getElem?_eq_some_iff.1 filled).1
    rw [Array.getElem?_push, if_neg notLast]
    exact filled

end Heap

/-! ## Links -/

/-- What a value gave under a key. -/
structure Link where
  source : Value
  key : String
  target : Value

namespace Link

variable {link : Link} {h : Heap}

/-- The source gives the target, and the target is a container. -/
structure Stands (link : Link) (h : Heap) : Prop where
  container : link.target.isContainer = true
  reads : h.get link.source link.key = link.target

/-- A write can cut the link: it is a write of the very property, or of the length of the array. -/
def Hit (link : Link) (target : Value) (key : String) : Prop :=
  target = link.source ∧ (key = link.key ∨ key = "length" ∧ ∃ a, target = .array a)

namespace Stands

/-- What holds the same properties gives the same links. -/
theorem of_same {h' : Heap} (stands : link.Stands h) (items : ∀ a, h'.items a = h.items a)
    (properties : ∀ o, h'.properties o = h.properties o) : link.Stands h' := by
  refine ⟨stands.container, ?_⟩
  rw [← stands.reads]
  cases link.source with
  | array a => simp only [Heap.get, items]
  | object o => simp only [Heap.get, properties]
  | _ => rfl

/-- A new array cuts no link. -/
theorem newArray (stands : link.Stands h) (items : Array Value) :
    link.Stands (h.newArray items).2 := by
  obtain ⟨container, reads⟩ := stands
  refine ⟨container, ?_⟩
  cases source : link.source with
  | array a =>
    rw [source] at reads
    by_cases fresh : a = h.arrays.size
    · -- no array was there before, so nothing was read from it
      obtain ⟨i, -, item⟩ := (Heap.get_array_iff container).1 reads
      have empty : h.items a = #[] := by simp [Heap.items, Heap.arrayAt, fresh]
      rw [empty] at item
      cases item
    · have same : (h.newArray items).2.items a = h.items a :=
        congrArg ArrayData.items (Heap.arrayAt_newArray_of_ne fresh)
      rw [← reads]
      simp only [Heap.get, same]
  | _ =>
    rw [← reads, source]
    rfl

/-- A new object cuts no link. -/
theorem newObject (stands : link.Stands h) (properties : Entries Value) :
    link.Stands (h.newObject properties).2 := by
  obtain ⟨container, reads⟩ := stands
  refine ⟨container, ?_⟩
  cases source : link.source with
  | object o =>
    rw [source] at reads
    by_cases fresh : o = h.objects.size
    · have property := (Heap.get_object_iff container).1 reads
      have empty : h.properties o = [] := by simp [Heap.properties, Heap.objectAt, fresh]
      rw [empty] at property
      cases property
    · have same : (h.newObject properties).2.properties o = h.properties o :=
        congrArg ObjectData.properties (Heap.objectAt_newObject_of_ne fresh)
      rw [← reads]
      simp only [Heap.get, same]
  | _ =>
    rw [← reads, source]
    rfl

theorem freeze (stands : link.Stands h) (v : Value) : link.Stands (h.freeze v) :=
  stands.of_same (Heap.freeze_hardens h v).items (Heap.freeze_hardens h v).properties

/-- A change of one array leaves a link standing if the link reads none of its items, or if the item
that it reads stays where it is. -/
private theorem modifyItems (stands : link.Stands h) (a : Nat) (change : Array Value → Array Value)
    (keeps : link.source = .array a → ∀ i v, parseIndex? link.key = some i → (h.items a)[i]? = some v →
      (change (h.items a))[i]? = some v) : link.Stands (h.modifyItems a change) := by
  obtain ⟨container, reads⟩ := stands
  refine ⟨container, ?_⟩
  cases source : link.source with
  | array b =>
    rw [source] at reads
    obtain ⟨i, index, item⟩ := (Heap.get_array_iff container).1 reads
    apply (Heap.get_array_iff container).2
    refine ⟨i, index, ?_⟩
    by_cases same : b = a
    · subst same
      rw [Heap.items_modifyItems_self item]
      exact keeps source i _ index item
    · rw [Heap.items_modifyItems_of_ne same]
      exact item
  | _ =>
    rw [← reads, source]
    rfl

/-- The same for a change of one object. -/
private theorem modifyProperties (stands : link.Stands h) (o : Nat)
    (change : Entries Value → Entries Value)
    (keeps : link.source = .object o → (change (h.properties o)).get? link.key =
      (h.properties o).get? link.key) : link.Stands (h.modifyProperties o change) := by
  obtain ⟨container, reads⟩ := stands
  refine ⟨container, ?_⟩
  cases source : link.source with
  | object p =>
    rw [source] at reads
    have property := (Heap.get_object_iff container).1 reads
    apply (Heap.get_object_iff container).2
    by_cases same : p = o
    · subst same
      rw [Heap.properties_modifyProperties_self property, keeps source]
      exact property
    · rw [Heap.properties_modifyProperties_of_ne same]
      exact property
  | _ =>
    rw [← reads, source]
    rfl

/-- A write that does not hit a link leaves it standing. -/
theorem set (stands : link.Stands h) {target : Value} {key : String} (value : Value)
    (apart : ¬ link.Hit target key) : link.Stands (h.set target key value) := by
  unfold Heap.set
  split
  · next a =>
    split
    · next length =>
      refine stands.modifyItems a _ fun source => ?_
      exact absurd ⟨source.symm, .inr ⟨length, a, rfl⟩⟩ apart
    · cases index : parseIndex? key with
      | none => exact stands
      | some j =>
        refine stands.modifyItems a _ fun source i v other item => ?_
        refine Heap.getElem?_putItem_of_ne item (fun same => apart ⟨source.symm, .inl ?_⟩) value
        subst same
        exact parseIndex?_injective index other
  · next o =>
    refine stands.modifyProperties o _ fun source => ?_
    exact Entries.get?_insert_of_ne fun same => apart ⟨source.symm, .inl same.symm⟩
  · exact stands

/-- A removal that does not hit a link leaves it standing. -/
theorem remove (stands : link.Stands h) {target : Value} {key : String}
    (apart : ¬ link.Hit target key) : link.Stands (h.remove target key) := by
  unfold Heap.remove
  split
  · next a =>
    cases index : parseIndex? key with
    | none => exact stands
    | some j =>
      refine stands.modifyItems a _ fun source i v other item => ?_
      have ne : j ≠ i := fun same => apart ⟨source.symm, .inl (by
        subst same
        exact parseIndex?_injective index other)⟩
      rw [Array.getElem?_setIfInBounds_ne ne]
      exact item
  · next o =>
    refine stands.modifyProperties o _ fun source => ?_
    exact Entries.get?_erase_of_ne fun same => apart ⟨source.symm, .inl same.symm⟩
  · exact stands

end Stands

end Link

/-! ## Ways -/

/-- What reading keys one after another gives. -/
def Heap.walk (h : Heap) (v : Value) (keys : List String) : Value :=
  keys.foldl h.get v

/-- A chain of links from one value to another. -/
inductive Way : Value → List Link → Value → Prop
  | here (v : Value) : Way v [] v
  | step {v : Value} {links : List Link} {link : Link} (way : Way v links link.source) :
    Way v (links ++ [link]) link.target

/-- The keys of a chain of links. -/
def Link.keys (links : List Link) : List String :=
  links.map Link.key

theorem Link.keys_append (links : List Link) (link : Link) :
    Link.keys (links ++ [link]) = Link.keys links ++ [link.key] := by
  simp [Link.keys]

/-- A way whose links stand leads to its end. -/
theorem Way.walk_eq {h : Heap} {v u : Value} {links : List Link} (way : Way v links u)
    (stand : ∀ link ∈ links, link.Stands h) : h.walk v (Link.keys links) = u := by
  induction way with
  | here => rfl
  | @step links link way ih =>
    have before := ih fun other mem => stand other (List.mem_append_left _ mem)
    have last := stand link (List.mem_append_right _ (List.mem_singleton_self _))
    rw [Link.keys_append, Heap.walk, List.foldl_append]
    show h.get (h.walk v (Link.keys links)) link.key = link.target
    rw [before]
    exact last.reads

end BindScript
