import BindScript.Proofs.Tracking.Announced
import BindScript.Proofs.Value.Index

/-!
# Laws of stores

A container is asked whether it takes a write before the write is made. Here both are one step (`Heap.store`), and so
are a removal and the question for it (`Heap.erase`). What they answer and what they leave behind is then a law of the
container alone, whoever writes.

- An array that is not frozen takes a write under the key of every index below the limit, and under no other key but
  its length. It is filled up to the index, and it never gets longer than arrays may be (`ArrayLaws`). A removal clears
  the slot and keeps the length.
- An object that is not frozen takes every write. What it has stays in its place, and what is new comes last
  (`ObjectLaws`). A removal takes out one property and keeps the order of the others.

What is refused changes nothing, and no write is seen in another container (`stores_lawful`).
-/

namespace BindScript

/-! ## Entries -/

namespace Entries

variable {α : Type} {m : Entries α} {key : String}

/-- An entry stands at one place of the list. -/
theorem exists_of_contains (present : m.contains key = true) :
    ∃ (before : Entries α) (old : α) (rest : Entries α), m = before ++ (key, old) :: rest ∧ key ∉ before.keys := by
  induction m with
  | nil => cases present
  | cons entry rest ih =>
    obtain ⟨k, v⟩ := entry
    by_cases here : k = key
    · exact ⟨[], v, rest, by rw [here]; rfl, List.not_mem_nil⟩
    · rw [contains_cons, beq_eq_false_iff_ne.2 here, Bool.false_or] at present
      obtain ⟨before, old, rest, rfl, absent⟩ := ih present
      refine ⟨(k, v) :: before, old, rest, rfl, ?_⟩
      rw [keys_cons, List.mem_cons, not_or]
      exact ⟨Ne.symm here, absent⟩

theorem insert_append {before rest : Entries α} {old : α} (absent : key ∉ before.keys) (value : α) :
    (before ++ (key, old) :: rest).insert key value = before ++ (key, value) :: rest := by
  induction before with
  | nil => simp [insert]
  | cons entry before ih =>
    obtain ⟨k, v⟩ := entry
    rw [keys_cons, List.mem_cons, not_or] at absent
    rw [List.cons_append, insert, if_neg (Ne.symm absent.1), ih absent.2, List.cons_append]

theorem erase_of_not_mem (absent : key ∉ m.keys) : m.erase key = m := by
  refine List.filter_eq_self.2 fun entry mem => bne_iff_ne.2 ?_
  rintro rfl
  exact absent (List.mem_map_of_mem mem)

theorem erase_append {before rest : Entries α} {old : α}
    (distinct : (keys (before ++ (key, old) :: rest)).Nodup) :
    (before ++ (key, old) :: rest).erase key = before ++ rest := by
  obtain ⟨absent, gone⟩ := not_mem_keys_around distinct
  have split : (before ++ (key, old) :: rest).erase key = before.erase key ++ rest.erase key := by
    simp [erase]
  rw [split, erase_of_not_mem absent, erase_of_not_mem gone]

end Entries

/-! ## Stores -/

namespace Heap

/-- Writes a property, if the container takes it. Tells whether it has been written. -/
def store (h : Heap) (target : Value) (key : String) (value : Value) : Bool × Heap :=
  if h.canSet target key value then (true, h.set target key value) else (false, h)

/-- Removes a property, if the container has it and lets it go. Tells whether it has been removed. -/
def erase (h : Heap) (target : Value) (key : String) : Bool × Heap :=
  if h.canRemove target key then (true, h.remove target key) else (false, h)

/-- An item has been stored in an array under an index. -/
structure ItemStored (h after : Heap) (a i : Nat) (value : Value) : Prop where
  reads : after.get (.array a) (toString i) = value
  others : ∀ j < (h.items a).size, j ≠ i → after.get (.array a) (toString j) = h.get (.array a) (toString j)
  /-- What has been filled up before the index reads as `undefined`. -/
  gap : ∀ j < i, (h.items a).size ≤ j → after.get (.array a) (toString j) = .undefined
  length : (after.items a).size = max (h.items a).size (i + 1)
  capped : (after.items a).size ≤ maxArrayLength

/-- The slot of an item has been cleared in an array. -/
structure ItemCleared (h after : Heap) (a i : Nat) : Prop where
  reads : after.get (.array a) (toString i) = .undefined
  others : ∀ j, j ≠ i → after.get (.array a) (toString j) = h.get (.array a) (toString j)
  length : (after.items a).size = (h.items a).size

/-- What an array does with a write and with a removal of a key. -/
structure ArrayLaws (h : Heap) (a : Nat) (key : String) (value : Value) : Prop where
  takes : key ≠ "length" → ((h.store (.array a) key value).1 = true ↔
    (h.arrayAt a).frozen = false ∧ ∃ i < maxArrayLength, key = toString i)
  stored : ∀ i, key = toString i → (h.store (.array a) key value).1 = true →
    h.ItemStored (h.store (.array a) key value).2 a i value
  refused : (h.store (.array a) key value).1 = false → (h.store (.array a) key value).2 = h
  lets : (h.erase (.array a) key).1 = true ↔
    (h.arrayAt a).frozen = false ∧ ∃ i < (h.items a).size, key = toString i
  cleared : ∀ i, key = toString i → (h.erase (.array a) key).1 = true →
    h.ItemCleared (h.erase (.array a) key).2 a i
  kept : (h.erase (.array a) key).1 = false → (h.erase (.array a) key).2 = h
  frozen : (h.arrayAt a).frozen = true →
    h.store (.array a) key value = (false, h) ∧ h.erase (.array a) key = (false, h)

/-- What an object does with a write and with a removal of a key. -/
structure ObjectLaws (h : Heap) (o : Nat) (key : String) (value : Value) : Prop where
  takes : (h.store (.object o) key value).1 = true ↔ (h.objectAt o).frozen = false
  reads : (h.store (.object o) key value).1 = true → (h.store (.object o) key value).2.get (.object o) key = value
  /-- A property that is there keeps its place, and so do all others. -/
  replaced : (h.store (.object o) key value).1 = true → h.has (.object o) key = true →
    ∃ before old rest, h.properties o = before ++ (key, old) :: rest ∧
      (h.store (.object o) key value).2.properties o = before ++ (key, value) :: rest
  added : (h.store (.object o) key value).1 = true → h.has (.object o) key = false →
    (h.store (.object o) key value).2.properties o = h.properties o ++ [(key, value)]
  refused : (h.store (.object o) key value).1 = false → (h.store (.object o) key value).2 = h
  lets : (h.erase (.object o) key).1 = true ↔ (h.objectAt o).frozen = false ∧ h.has (.object o) key = true
  removed : (h.erase (.object o) key).1 = true →
    ∃ before old rest, h.properties o = before ++ (key, old) :: rest ∧
      (h.erase (.object o) key).2.properties o = before ++ rest
  kept : (h.erase (.object o) key).1 = false → (h.erase (.object o) key).2 = h
  frozen : (h.objectAt o).frozen = true →
    h.store (.object o) key value = (false, h) ∧ h.erase (.object o) key = (false, h)

section Stores

variable {h : Heap} {target : Value} {key : String} {value : Value} {a o i j : Nat}

theorem store_fst : (h.store target key value).1 = h.canSet target key value := by
  unfold store
  split
  next takes => exact takes.symm
  next refuses => exact (Bool.eq_false_iff.2 refuses).symm

theorem store_snd (takes : h.canSet target key value = true) :
    (h.store target key value).2 = h.set target key value := by
  rw [store, if_pos takes]

theorem store_refused (refuses : h.canSet target key value = false) : h.store target key value = (false, h) := by
  rw [store, refuses, if_neg Bool.false_ne_true]

theorem erase_fst : (h.erase target key).1 = h.canRemove target key := by
  unfold erase
  split
  next lets => exact lets.symm
  next keeps => exact (Bool.eq_false_iff.2 keeps).symm

theorem erase_snd (lets : h.canRemove target key = true) : (h.erase target key).2 = h.remove target key := by
  rw [erase, if_pos lets]

theorem erase_refused (keeps : h.canRemove target key = false) : h.erase target key = (false, h) := by
  rw [erase, keeps, if_neg Bool.false_ne_true]

/-! ### Arrays -/

/-- Nothing stands behind the last item. -/
theorem get_of_size_le (beyond : (h.items a).size ≤ i) : h.get (.array a) (toString i) = .undefined := by
  rw [get_array_of_ne_length (toString_ne_length i)]
  cases index : parseIndex? (toString i) with
  | none => rfl
  | some j =>
    obtain rfl := eq_of_parseIndex?_toString index
    show (h.items a).getD j .undefined = .undefined
    rw [Array.getD_eq_getD_getElem?, Array.getElem?_eq_none beyond]
    rfl

/-- An array takes an item under the text of an index within the limit, unless it is frozen. -/
theorem canSet_array_iff (item : key ≠ "length") : h.canSet (.array a) key value = true ↔
    (h.arrayAt a).frozen = false ∧ ∃ i < maxArrayLength, key = toString i := by
  rw [canSet, takesItem, exceedsLimit, if_neg item, if_neg item]
  constructor
  · intro takes
    simp only [Bool.and_eq_true, Bool.not_eq_true', Option.isSome_iff_exists] at takes
    obtain ⟨unfrozen, fits, i, index⟩ := takes
    rw [index] at fits
    have fits : i < maxArrayLength := by simpa using fits
    exact ⟨unfrozen, i, fits, (parseIndex?_eq_some_iff.1 index).1⟩
  · rintro ⟨unfrozen, i, fits, rfl⟩
    have small : i < Nat.pow 2 64 := Nat.lt_trans fits (by decide)
    rw [unfrozen, parseIndex?_toString small]
    simpa using fits

/-- An array lets go of the items it has, unless it is frozen. -/
theorem canRemove_array_iff (short : (h.items a).size ≤ maxArrayLength) : h.canRemove (.array a) key = true ↔
    (h.arrayAt a).frozen = false ∧ ∃ i < (h.items a).size, key = toString i := by
  unfold canRemove
  constructor
  · intro lets
    simp only [Bool.and_eq_true, Bool.not_eq_true', Option.any_eq_true, decide_eq_true_eq] at lets
    obtain ⟨unfrozen, i, index, inside⟩ := lets
    exact ⟨unfrozen, i, inside, (parseIndex?_eq_some_iff.1 index).1⟩
  · rintro ⟨unfrozen, i, inside, rfl⟩
    have small : i < Nat.pow 2 64 := (Nat.lt_of_lt_of_le inside short).trans (by decide)
    simp only [unfrozen, parseIndex?_toString small]
    simpa using inside

theorem items_set_toString (inside : a < h.arrays.size) (small : i < Nat.pow 2 64) :
    (h.set (.array a) (toString i) value).items a = putItem (h.items a) i value := by
  unfold set
  dsimp only
  rw [if_neg (toString_ne_length i), parseIndex?_toString small]
  exact items_modifyItems inside _

/-- An index that an array takes a write for is filled with the value, and the array up to it with nothing. -/
theorem itemStored_of_canSet (short : (h.items a).size ≤ maxArrayLength)
    (takes : h.canSet (.array a) (toString i) value = true) :
    h.ItemStored (h.set (.array a) (toString i) value) a i value := by
  obtain ⟨unfrozen, k, fits, same⟩ := (canSet_array_iff (toString_ne_length i)).1 takes
  obtain rfl : i = k := Nat.repr_injective same
  have inside : a < h.arrays.size := lt_size_of_unfrozen_array unfrozen
  have small : i < Nat.pow 2 64 := fits.trans (by decide)
  have index : parseIndex? (toString i) = some i := parseIndex?_toString small
  have size : ((h.set (.array a) (toString i) value).items a).size = max (h.items a).size (i + 1) := by
    rw [items_set_toString inside small, size_putItem]
  have apart : ∀ j, j ≠ i →
      (h.set (.array a) (toString i) value).get (.array a) (toString j) = h.get (.array a) (toString j) := by
    intro j ne
    have keys : toString j ≠ toString i := fun same => ne (Nat.repr_injective same)
    rw [get_set_item inside index (toString_ne_length j), if_neg keys]
  refine ⟨?_, fun j _ ne => apart j ne, fun j before behind => ?_, size, ?_⟩
  · rw [get_set_item inside index (toString_ne_length i), if_pos rfl]
  · rw [apart j (Nat.ne_of_lt before)]
    exact get_of_size_le behind
  · rw [size]
    omega

/-- A slot that an array lets go of is cleared, and the others stay. -/
theorem itemCleared_of_canRemove (short : (h.items a).size ≤ maxArrayLength)
    (lets : h.canRemove (.array a) (toString i) = true) : h.ItemCleared (h.remove (.array a) (toString i)) a i := by
  obtain ⟨unfrozen, k, below, same⟩ := (canRemove_array_iff short).1 lets
  obtain rfl : i = k := Nat.repr_injective same
  have inside : a < h.arrays.size := lt_size_of_unfrozen_array unfrozen
  have index : parseIndex? (toString i) = some i :=
    parseIndex?_toString ((Nat.lt_of_lt_of_le below short).trans (by decide))
  refine ⟨?_, fun j ne => ?_, ?_⟩
  · rw [get_remove_item inside index (toString_ne_length i), if_pos rfl]
  · have keys : toString j ≠ toString i := fun same => ne (Nat.repr_injective same)
    rw [get_remove_item inside index (toString_ne_length j), if_neg keys]
  · unfold remove
    dsimp only
    rw [index]
    exact (congrArg Array.size (items_modifyItems inside _)).trans (Array.size_setIfInBounds ..)

/-- The key is an index, `length`, or neither. In the last case the array does not change. -/
theorem arrayLaws (short : (h.items a).size ≤ maxArrayLength) (key : String) (value : Value) :
    h.ArrayLaws a key value where
  takes item := by
    rw [store_fst]
    exact canSet_array_iff item
  stored i decimal stored := by
    subst decimal
    rw [store_fst] at stored
    rw [store_snd stored]
    exact itemStored_of_canSet short stored
  refused refused := by
    rw [store_fst] at refused
    rw [store_refused refused]
  lets := by
    rw [erase_fst]
    exact canRemove_array_iff short
  cleared i decimal cleared := by
    subst decimal
    rw [erase_fst] at cleared
    rw [erase_snd cleared]
    exact itemCleared_of_canRemove short cleared
  kept kept := by
    rw [erase_fst] at kept
    rw [erase_refused kept]
  frozen frozen := by
    constructor
    · exact store_refused (by rw [canSet, frozen]; rfl)
    · refine erase_refused ?_
      simp only [canRemove, frozen]
      rfl

/-! ### Objects -/

theorem canSet_object_iff : h.canSet (.object o) key value = true ↔ (h.objectAt o).frozen = false := by
  rw [canSet, Bool.not_eq_true']

theorem canRemove_object_iff : h.canRemove (.object o) key = true ↔
    (h.objectAt o).frozen = false ∧ h.has (.object o) key = true := by
  rw [canRemove, Bool.and_eq_true, Bool.not_eq_true', has]

/-- A key is there once, so what was stored last under it is found. -/
theorem objectLaws (distinct : (h.properties o).keys.Nodup) (key : String) (value : Value) :
    h.ObjectLaws o key value := by
  -- all that is said of the properties afterwards is read off this insertion
  have written : h.canSet (.object o) key value = true →
      (h.store (.object o) key value).2.properties o = (h.properties o).insert key value := by
    intro takes
    rw [store_snd takes]
    exact properties_modifyProperties (lt_size_of_unfrozen_object (canSet_object_iff.1 takes)) _
  constructor
  case takes =>
    rw [store_fst]
    exact canSet_object_iff
  case reads =>
    intro stored
    rw [store_fst] at stored
    rw [store_snd stored]
    exact get_set_object (lt_size_of_unfrozen_object (canSet_object_iff.1 stored))
  case replaced =>
    intro stored present
    rw [store_fst] at stored
    obtain ⟨before, old, rest, properties, absent⟩ := Entries.exists_of_contains present
    refine ⟨before, old, rest, properties, ?_⟩
    rw [written stored, properties, Entries.insert_append absent]
  case added =>
    intro stored absent
    rw [store_fst] at stored
    have absent : key ∉ (h.properties o).keys := by
      intro mem
      have present : h.has (.object o) key = true := Entries.contains_iff_mem_keys.2 mem
      exact Bool.false_ne_true (absent.symm.trans present)
    rw [written stored, Entries.insert_of_not_mem absent]
  case refused =>
    intro refused
    rw [store_fst] at refused
    rw [store_refused refused]
  case lets =>
    rw [erase_fst]
    exact canRemove_object_iff
  case removed =>
    intro removed
    rw [erase_fst] at removed
    obtain ⟨unfrozen, present⟩ := canRemove_object_iff.1 removed
    obtain ⟨before, old, rest, properties, -⟩ := Entries.exists_of_contains present
    refine ⟨before, old, rest, properties, ?_⟩
    rw [erase_snd removed]
    refine (properties_modifyProperties (lt_size_of_unfrozen_object unfrozen) _).trans ?_
    rw [properties] at distinct ⊢
    exact Entries.erase_append distinct
  case kept =>
    intro kept
    rw [erase_fst] at kept
    rw [erase_refused kept]
  case frozen =>
    intro frozen
    constructor
    · exact store_refused (by rw [canSet, frozen]; rfl)
    · exact erase_refused (by rw [canRemove, frozen]; rfl)

end Stores

/-- **Containers keep the laws of stores.** An array that is not longer than arrays may be and an object, whose keys
are distinct, do with a write or a removal what the laws say, for every key and every value. And a write or a removal
in one container is not seen in any other. -/
theorem stores_lawful (h : Heap) (key : String) (value : Value) :
    (∀ a, (h.items a).size ≤ maxArrayLength → h.ArrayLaws a key value) ∧
      (∀ o, (h.properties o).keys.Nodup → h.ObjectLaws o key value) ∧
      ∀ target v other, v ≠ target → (h.store target key value).2.get v other = h.get v other ∧
        (h.erase target key).2.get v other = h.get v other := by
  refine ⟨fun a short => arrayLaws short key value, fun o distinct => objectLaws distinct key value, ?_⟩
  intro target v other ne
  constructor
  · unfold store
    split
    · exact get_set_of_ne ne
    · rfl
  · unfold erase
    split
    · exact get_remove_of_ne ne
    · rfl

/-- A list of one item, and an object with the properties `x` and `2`. -/
def listAndObject : Heap where
  arrays := #[{ items := #[.string "a"] }]
  objects := #[{ properties := [("x", .null), ("2", .string "b")] }]

/-- The list gets a third item, and the object keeps its second property in its place. -/
theorem stores_lawful_second :
    (listAndObject.items 0).size ≤ maxArrayLength ∧ (listAndObject.properties 0).keys.Nodup ∧
      listAndObject.ItemStored (listAndObject.store (.array 0) "2" .null).2 0 2 .null ∧
      ∃ before old rest, listAndObject.properties 0 = before ++ ("2", old) :: rest ∧
        (listAndObject.store (.object 0) "2" .null).2.properties 0 = before ++ ("2", .null) :: rest := by
  have short : (listAndObject.items 0).size ≤ maxArrayLength := by decide
  have distinct : (listAndObject.properties 0).keys.Nodup := by decide
  obtain ⟨arrays, objects, -⟩ := stores_lawful listAndObject "2" .null
  exact ⟨short, distinct, (arrays 0 short).stored 2 rfl rfl, (objects 0 distinct).replaced rfl rfl⟩

end Heap

end BindScript
