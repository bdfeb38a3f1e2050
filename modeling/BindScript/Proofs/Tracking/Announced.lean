import BindScript.Proofs.Number.Whole
import BindScript.Proofs.Tracking.Sessions

/-!
What is announced and what is done.

A call that writes through a proxy tells the observer of at most one change, before anything happens. So
whatever the container refuses has to be found out before. That is so for frozen containers, keys that are
no index, and arrays that would grow too long: a call that ends with such a fault has told nobody. After
the observer has let a change pass, it is made, and nothing else is (`Change.Made`).

The length of an array is the one property for which the checks fall short. A value whose number is no
length is announced and then not stored, with a fault that speaks of a frozen container
(`Change.Misfits`); a value that is not itself a number is announced as it is, and its number is stored;
and with a value that holds the array itself the call does not come back from the write
(`Change.Clashes`).

Theorems:
- `Heap.get_set_item`, `Heap.get_set_of_ne` and the like: what one write changes and what it leaves.
- `Change.made_of_canSet`, `Change.made_of_canRemove`: what a container allows is made as announced.
- `write_ends`: the ways in which a call can end, in every session.
-/

namespace BindScript

/-! ## What one write changes -/

namespace Heap

variable {h : Heap} {a o i : Nat} {v value : Value} {key other : String}

/-- An array that is resized keeps its items up to the new length. Behind it nothing is left, and new places are
`undefined`. -/
theorem getD_resizeItems (items : Array Value) (n j : Nat) :
    (resizeItems items n).getD j .undefined = if j < n then items.getD j .undefined else .undefined := by
  simp only [Array.getD_eq_getD_getElem?]
  by_cases below : j < n
  · rw [if_pos below]
    unfold resizeItems
    split
    · simp only [Array.shrink_eq_take, Array.take_eq_extract, Array.getElem?_extract, Nat.zero_add]
      rw [if_pos (by omega)]
    · by_cases old : j < items.size
      · rw [Array.getElem?_append_left old]
      · -- the gap is filled with what a missing item reads as
        rw [Array.getElem?_append_right (by omega), Array.getElem?_replicate, if_pos (by omega),
          Array.getElem?_eq_none (by omega)]
        rfl
  · rw [if_neg below, Array.getElem?_eq_none (by rw [size_resizeItems]; omega)]
    rfl

/-- A place that is written beyond the end leaves `undefined` before it. -/
theorem getD_putItem (items : Array Value) (i j : Nat) (value : Value) :
    (putItem items i value).getD j .undefined = if j = i then value else items.getD j .undefined := by
  unfold putItem
  split
  next inside =>
    simp only [Array.getD_eq_getD_getElem?]
    by_cases same : j = i
    · subst same
      rw [if_pos rfl, Array.getElem?_setIfInBounds_self_of_lt inside]
      rfl
    · rw [if_neg same, Array.getElem?_setIfInBounds_ne (Ne.symm same)]
  next beyond =>
    by_cases same : j = i
    · subst same
      rw [if_pos rfl, Array.getD_eq_getD_getElem?, Array.getElem?_push, size_resizeItems, if_pos rfl]
      rfl
    · have filled := getD_resizeItems items i j
      simp only [Array.getD_eq_getD_getElem?] at filled ⊢
      rw [if_neg same, Array.getElem?_push, size_resizeItems, if_neg same, filled]
      split
      · rfl
      · rw [Array.getElem?_eq_none (by omega)]
        rfl

theorem getD_clearItem (items : Array Value) (i j : Nat) :
    (items.setIfInBounds i .undefined).getD j .undefined =
      if j = i then .undefined else items.getD j .undefined := by
  simp only [Array.getD_eq_getD_getElem?]
  by_cases same : j = i
  · subst same
    rw [if_pos rfl, Array.getElem?_setIfInBounds_self]
    split <;> rfl
  · rw [if_neg same, Array.getElem?_setIfInBounds_ne (Ne.symm same)]

theorem isFrozen_modifyItems (h : Heap) (a : Nat) (change : Array Value → Array Value) (v : Value) :
    (h.modifyItems a change).isFrozen v = h.isFrozen v := by
  cases v with
  | array b =>
    simp only [isFrozen, modifyItems, modifyArray, arrayAt, Array.getD_eq_getD_getElem?,
      Array.getElem?_modify]
    split
    · cases h.arrays[b]? <;> rfl
    · rfl
  | _ => rfl

theorem isFrozen_modifyProperties (h : Heap) (o : Nat) (change : Entries Value → Entries Value)
    (v : Value) : (h.modifyProperties o change).isFrozen v = h.isFrozen v := by
  cases v with
  | object p =>
    simp only [isFrozen, modifyProperties, modifyObject, objectAt, Array.getD_eq_getD_getElem?,
      Array.getElem?_modify]
    split
    · cases h.objects[p]? <;> rfl
    · rfl
  | _ => rfl

theorem isFrozen_set (h : Heap) (target : Value) (key : String) (value v : Value) :
    (h.set target key value).isFrozen v = h.isFrozen v := by
  unfold set
  split
  · split
    · exact isFrozen_modifyItems ..
    · split
      · exact isFrozen_modifyItems ..
      · rfl
  · exact isFrozen_modifyProperties ..
  · rfl

theorem isFrozen_remove (h : Heap) (target : Value) (key : String) (v : Value) :
    (h.remove target key).isFrozen v = h.isFrozen v := by
  unfold remove
  split
  · split
    · exact isFrozen_modifyItems ..
    · rfl
  · exact isFrozen_modifyProperties ..
  · rfl

theorem get_modifyItems_of_ne (ne : v ≠ .array a) (change : Array Value → Array Value) :
    (h.modifyItems a change).get v key = h.get v key := by
  cases v with
  | array b =>
    have other : b ≠ a := fun same => ne (congrArg Value.array same)
    simp only [get, items_modifyItems_of_ne other]
  | _ => rfl

theorem get_modifyProperties_of_ne (ne : v ≠ .object o) (change : Entries Value → Entries Value) :
    (h.modifyProperties o change).get v key = h.get v key := by
  cases v with
  | object p =>
    have other : p ≠ o := fun same => ne (congrArg Value.object same)
    simp only [get, properties_modifyProperties_of_ne other]
  | _ => rfl

/-- What is written in a container leaves the others as they are. -/
theorem get_set_of_ne {target : Value} (ne : v ≠ target) :
    (h.set target key value).get v other = h.get v other := by
  unfold set
  split
  · split
    · exact get_modifyItems_of_ne ne _
    · split
      · exact get_modifyItems_of_ne ne _
      · rfl
  · exact get_modifyProperties_of_ne ne _
  · rfl

/-- What is removed from a container leaves the others as they are. -/
theorem get_remove_of_ne {target : Value} (ne : v ≠ target) :
    (h.remove target key).get v other = h.get v other := by
  unfold remove
  split
  · split
    · exact get_modifyItems_of_ne ne _
    · rfl
  · exact get_modifyProperties_of_ne ne _
  · rfl

/-! ### Objects -/

section Objects

variable (inside : o < h.objects.size)
include inside

theorem properties_modifyProperties (change : Entries Value → Entries Value) :
    (h.modifyProperties o change).properties o = change (h.properties o) :=
  congrArg ObjectData.properties (objectAt_modifyObject_self inside _)

theorem get_set_object : (h.set (.object o) key value).get (.object o) key = value := by
  show (((h.modifyProperties o _).properties o).get? key).getD .undefined = value
  rw [properties_modifyProperties inside, Entries.get?_insert_self]
  rfl

theorem get_set_object_of_ne (ne : other ≠ key) :
    (h.set (.object o) key value).get (.object o) other = h.get (.object o) other := by
  show (((h.modifyProperties o _).properties o).get? other).getD .undefined = _
  rw [properties_modifyProperties inside, Entries.get?_insert_of_ne ne]
  rfl

theorem get_remove_object : (h.remove (.object o) key).get (.object o) key = .undefined := by
  show (((h.modifyProperties o (·.erase key)).properties o).get? key).getD .undefined = .undefined
  rw [properties_modifyProperties inside, Entries.get?_erase_self]
  rfl

theorem get_remove_object_of_ne (ne : other ≠ key) :
    (h.remove (.object o) key).get (.object o) other = h.get (.object o) other := by
  show (((h.modifyProperties o (·.erase key)).properties o).get? other).getD .undefined = _
  rw [properties_modifyProperties inside, Entries.get?_erase_of_ne ne]
  rfl

end Objects

/-! ### Arrays -/

/-- What an array gives under a key that is not its length. -/
theorem get_array_of_ne_length (ne : key ≠ "length") :
    h.get (.array a) key =
      ((parseIndex? key).map fun i => (h.items a).getD i .undefined).getD .undefined := by
  unfold get
  dsimp only
  rw [if_neg ne]
  cases parseIndex? key <;> rfl

section Arrays

variable (inside : a < h.arrays.size)
include inside

theorem items_modifyItems (change : Array Value → Array Value) :
    (h.modifyItems a change).items a = change (h.items a) :=
  congrArg ArrayData.items (arrayAt_modifyArray_self inside _)

/-- A change of one item is seen under its own key only. -/
private theorem get_modifyItems_item {change : Array Value → Array Value} (index : parseIndex? key = some i)
    (item : ∀ items j, (change items).getD j .undefined = if j = i then value else items.getD j .undefined)
    (ne : other ≠ "length") :
    (h.modifyItems a change).get (.array a) other =
      if other = key then value else h.get (.array a) other := by
  rw [get_array_of_ne_length ne, get_array_of_ne_length ne, items_modifyItems inside]
  by_cases same : other = key
  · subst same
    simp [index, item]
  · rw [if_neg same]
    cases place : parseIndex? other with
    | none => rfl
    | some j =>
      have apart : j ≠ i := by
        rintro rfl
        exact same (parseIndex?_injective place index)
      simp [item, apart]

theorem get_set_item (index : parseIndex? key = some i) (ne : other ≠ "length") :
    (h.set (.array a) key value).get (.array a) other =
      if other = key then value else h.get (.array a) other := by
  have notLength : key ≠ "length" := by
    rintro rfl
    cases index
  unfold set
  dsimp only
  rw [if_neg notLength, index]
  exact get_modifyItems_item inside index (fun items j => getD_putItem items i j value) ne

theorem get_remove_item (index : parseIndex? key = some i) (ne : other ≠ "length") :
    (h.remove (.array a) key).get (.array a) other =
      if other = key then .undefined else h.get (.array a) other := by
  unfold remove
  dsimp only
  rw [index]
  exact get_modifyItems_item inside index (fun items j => getD_clearItem items i j) ne

theorem get_set_length :
    (h.set (.array a) "length" value).get (.array a) "length" =
      .count (Number.toSize (h.toNumber value)) := by
  show Value.count ((h.modifyItems a (resizeItems · (Number.toSize (h.toNumber value)))).items a).size = _
  rw [items_modifyItems inside, size_resizeItems]

end Arrays

/-- What an array takes for its length is its length afterwards, as a number. -/
theorem strictEquals_of_takesItem_length (takes : h.takesItem "length" value = true) :
    (Value.count (Number.toSize (h.toNumber value))).strictEquals (.number (h.toNumber value)) = true := by
  unfold takesItem exceedsLimit isLength at takes
  rw [if_pos rfl, if_pos rfl] at takes
  generalize h.toNumber value = x at *
  simp only [Bool.and_eq_true, Bool.not_eq_true', decide_eq_false_iff_not] at takes
  obtain ⟨fits, ⟨nonneg, finite⟩, whole⟩ := takes
  show (Float.ofNat (Number.toSize x) == x) = true
  exact Number.ofNat_toSize finite nonneg whole fits

end Heap

namespace Tracking

/-! ## Changes -/

/-- The property that a change is about. -/
def Change.key (change : Change) : String :=
  change.path.getLastD ""

/-- A change of the length of an array. -/
def Change.Resizes (change : Change) : Prop :=
  change.key = "length" ∧ ∃ a, change.target = .array a

/-- A property that is no part of a change: one of another container, or another one of the same
container. The items of an array and its length go along with each other. -/
def Change.Spares (change : Change) (v : Value) (key : String) : Prop :=
  v ≠ change.target ∨
    key ≠ change.key ∧ ∀ a, change.target = .array a → change.key ≠ "length" ∧ key ≠ "length"

/-- The heap with a change made in it. -/
def Change.make (change : Change) (h : Heap) : Heap :=
  match change.next with
  | some value => h.set change.target change.key value
  | none => h.remove change.target change.key

/-- A change has been made as it was announced, and nothing else has. -/
structure Change.Made (change : Change) (before after : Heap) : Prop where
  heap : after = change.make before
  /-- Nothing is announced as the new value exactly if the property is removed. -/
  action : change.action = .unset ↔ change.next = none
  /-- The property reads as the value that was announced. -/
  reads : ¬ change.Resizes → after.get change.target change.key = change.next.getD .undefined
  /-- A length reads as the number of the value that was announced. -/
  resized : change.Resizes → ∃ value, change.next = some value ∧
    (after.get change.target change.key).strictEquals (.number (before.toNumber value)) = true
  others : ∀ v key, change.Spares v key → after.get v key = before.get v key
  frozen : ∀ v, after.isFrozen v = before.isFrozen v

/-- An array is to be given a length that is none: the number of the value is negative, not whole,
infinite or NaN. -/
def Change.Misfits (change : Change) (h : Heap) : Prop :=
  change.Resizes ∧ change.action = .set ∧
    ∃ value, change.next = some value ∧ Heap.isLength (h.toNumber value) = false

/-- An array is to be given a length that is told by a value which holds the array. -/
def Change.Clashes (change : Change) (h : Heap) : Prop :=
  change.Resizes ∧ change.action = .set ∧
    ∃ value, change.next = some value ∧ h.clashes change.target change.key value = true

section Changes

variable {change : Change} {h : Heap} {key : String} {value : Value}

/-- What clashes is a write of the length of an array. -/
theorem Change.clashes_of_clashes (path : change.key = key) (action : change.action = .set)
    (next : change.next = some value) (clashes : h.clashes change.target key value = true) :
    change.Clashes h := by
  subst path
  refine ⟨?_, action, value, next, clashes⟩
  cases target : change.target with
  | array a =>
    rw [target] at clashes
    simp only [Heap.clashes, Bool.and_eq_true, beq_iff_eq] at clashes
    exact ⟨clashes.1.2, a, target⟩
  | _ =>
    rw [target] at clashes
    cases clashes

/-- What a container allows to be written is made as announced. -/
theorem Change.made_of_canSet (path : change.key = key) (action : change.action = .set)
    (next : change.next = some value) (takes : h.canSet change.target key value = true) :
    change.Made h (h.set change.target key value) := by
  subst path
  have object : ∀ o, change.target = .object o → o < h.objects.size := by
    intro o target
    rw [target] at takes
    exact Heap.lt_size_of_unfrozen_object (by simpa [Heap.canSet] using takes)
  have array : ∀ a, change.target = .array a → a < h.arrays.size ∧
      h.takesItem change.key value = true := by
    intro a target
    rw [target] at takes
    simp only [Heap.canSet, Bool.and_eq_true, Bool.not_eq_true'] at takes
    exact ⟨Heap.lt_size_of_unfrozen_array takes.1, takes.2⟩
  have index : ∀ a, change.target = .array a → change.key ≠ "length" →
      ∃ i, parseIndex? change.key = some i := by
    intro a target notLength
    have item := (array a target).2
    rw [Heap.takesItem, if_neg notLength, Bool.and_eq_true] at item
    exact Option.isSome_iff_exists.1 item.2
  refine ⟨by rw [Change.make, next], by rw [action, next]; simp, fun keeps => ?_, fun resizes => ?_,
    fun v key spares => ?_, fun v => Heap.isFrozen_set ..⟩
  · rw [next]
    show _ = value
    cases target : change.target with
    | object o => exact Heap.get_set_object (object o target)
    | array a =>
      have notLength : change.key ≠ "length" := fun length => keeps ⟨length, a, target⟩
      obtain ⟨i, index⟩ := index a target notLength
      rw [Heap.get_set_item (array a target).1 index notLength, if_pos rfl]
    | _ =>
      rw [target] at takes
      cases takes
  · obtain ⟨length, a, target⟩ := resizes
    obtain ⟨inside, takes⟩ := array a target
    refine ⟨value, next, ?_⟩
    rw [length] at takes
    rw [target, length, Heap.get_set_length inside]
    exact Heap.strictEquals_of_takesItem_length takes
  · by_cases elsewhere : v ≠ change.target
    · exact Heap.get_set_of_ne elsewhere
    -- another property of the same container
    have same : v = change.target := not_not.1 elsewhere
    obtain ⟨ne, whole⟩ := spares.resolve_left elsewhere
    rw [same]
    cases target : change.target with
    | object o => exact Heap.get_set_object_of_ne (object o target) ne
    | array a =>
      obtain ⟨notLength, item⟩ := whole a target
      obtain ⟨i, index⟩ := index a target notLength
      rw [Heap.get_set_item (array a target).1 index item, if_neg ne]
    | _ =>
      rw [target] at takes
      cases takes

/-- What a container lets go is removed as announced. -/
theorem Change.made_of_canRemove (path : change.key = key) (action : change.action = .unset)
    (next : change.next = none) (lets : h.canRemove change.target key = true) :
    change.Made h (h.remove change.target key) := by
  subst path
  have index : ∀ a, change.target = .array a → (h.arrayAt a).frozen = false ∧
      change.key ≠ "length" ∧ ∃ i, parseIndex? change.key = some i := by
    intro a target
    rw [target] at lets
    simp only [Heap.canRemove, Bool.and_eq_true, Bool.not_eq_true'] at lets
    obtain ⟨i, index, -⟩ := (Option.any_eq_true _ _).1 lets.2
    refine ⟨lets.1, ?_, i, index⟩
    intro length
    rw [length] at index
    cases index
  refine ⟨by rw [Change.make, next], by rw [action, next]; simp, fun keeps => ?_, fun resizes => ?_,
    fun v key spares => ?_, fun v => Heap.isFrozen_remove ..⟩
  · rw [next]
    show _ = Value.undefined
    cases target : change.target with
    | object o =>
      rw [target] at lets
      simp only [Heap.canRemove, Bool.and_eq_true, Bool.not_eq_true'] at lets
      exact Heap.get_remove_object (Heap.lt_size_of_unfrozen_object lets.1)
    | array a =>
      obtain ⟨unfrozen, notLength, i, index⟩ := index a target
      rw [Heap.get_remove_item (Heap.lt_size_of_unfrozen_array unfrozen) index notLength, if_pos rfl]
    | _ =>
      rw [target] at lets
      cases lets
  · obtain ⟨length, a, target⟩ := resizes
    exact absurd length (index a target).2.1
  · by_cases elsewhere : v ≠ change.target
    · exact Heap.get_remove_of_ne elsewhere
    -- another property of the same container
    have same : v = change.target := not_not.1 elsewhere
    obtain ⟨ne, whole⟩ := spares.resolve_left elsewhere
    rw [same]
    cases target : change.target with
    | object o =>
      rw [target] at lets
      simp only [Heap.canRemove, Bool.and_eq_true, Bool.not_eq_true'] at lets
      exact Heap.get_remove_object_of_ne (Heap.lt_size_of_unfrozen_object lets.1) ne
    | array a =>
      obtain ⟨unfrozen, -, i, index⟩ := index a target
      rw [Heap.get_remove_item (Heap.lt_size_of_unfrozen_array unfrozen) index (whole a target).2,
        if_neg ne]
    | _ =>
      rw [target] at lets
      cases lets

end Changes

/-! ## Endings of a call -/

/-- How a call that writes can end, when `done` is what it answers after a change was made, and `idle`
says that there is nothing to change. -/
inductive Write.Ends {α : Type} (w : Write α) (done : α) (idle : Prop) (observer : Observer)
    (h : Heap) : Prop
  /-- The observer is told nothing, and nothing happens: the call has failed, or there is nothing to
  change. -/
  | silent (told : w.change = none) (same : w.heap = h)
      (allowed : ∀ path reason, w.result ≠ .error (.fault (.rejected path reason)))
      (returns : w.result ≠ .error .clash)
      (idles : ∀ answer, w.result = .ok answer → idle)
  /-- The observer is told of a change and rejects it, and nothing happens. -/
  | rejected {change : Change} {reason : String} (told : w.change = some change)
      (answer : observer change = some reason) (same : w.heap = h)
      (result : w.result = .error (.fault (.rejected (dotted change.path) reason)))
  /-- The observer is told of a change and lets it pass, and it is made. -/
  | made {change : Change} (told : w.change = some change) (passes : observer change = none)
      (made : change.Made h w.heap) (result : w.result = .ok done)
  /-- The observer is told of a length that is none and lets it pass, and nothing happens. -/
  | misfit {change : Change} (told : w.change = some change) (passes : observer change = none)
      (misfits : change.Misfits h) (same : w.heap = h)
      (result : w.result = .error (.fault (.frozen (dotted change.path))))
  /-- The observer is told of a length and lets it pass, the write clashes, and the call does not come
  back. -/
  | clash {change : Change} (told : w.change = some change) (passes : observer change = none)
      (clashes : change.Clashes h) (same : w.heap = h) (result : w.result = .error .clash)

/-- The same write with another answer. -/
def Write.map {α β : Type} (f : α → β) (w : Write α) : Write β :=
  { w with result := w.result.map f }

/-- The write that an action makes, with the answer whether there was something to write. -/
def Action.write? (observer : Observer) (h : Heap) : Action → Option (Write Bool)
  | set p key value => some ((p.set observer h key value).map fun _ => true)
  | delete p key => some (p.delete observer h key)
  | push p value => some ((p.push observer h value).map fun _ => true)
  | _ => none

/-- The property that a proxy would write, if it is there. -/
def Proxy.present? (p : Proxy) (h : Heap) (key : String) : Option Value :=
  if h.has p.target key then some (h.get p.target key) else none

/-- An action changes nothing: the value is there already, or nothing is there to remove. -/
def Action.Idle (h : Heap) : Action → Prop
  | set p key value => isUnchanged h (p.present? h key) value = true
  | delete p key => h.has p.target key = false
  | push p value =>
    ∃ a, p.target = .array a ∧ isUnchanged h (p.present? h (toString (h.items a).size)) value = true
  | _ => True

section Endings

variable {α β : Type} {observer : Observer} {h : Heap} {p : Proxy} {key : String} {idle : Prop}

/-- With another answer, a write fails as it did. -/
theorem Write.result_map_error {w : Write α} {f : α → β} {halt : Halt} :
    (w.map f).result = .error halt ↔ w.result = .error halt := by
  unfold Write.map
  cases w.result <;> simp [Except.map]

/-- How a write ends does not depend on how its result is told. -/
theorem Write.Ends.map {w : Write α} {done : α} (f : α → β) (ends : w.Ends done idle observer h) :
    (w.map f).Ends (f done) idle observer h := by
  cases ends with
  | silent told same allowed returns idles =>
    have failed : ∀ halt, w.result ≠ .error halt → (w.map f).result ≠ .error halt := fun halt => mt result_map_error.1
    refine .silent told same (fun path reason => failed _ (allowed path reason)) (failed _ returns) fun answer ok => ?_
    cases result : w.result with
    | ok a => exact idles a result
    | error halt => cases (result_map_error.2 result).symm.trans ok
  | rejected told answer same result => exact .rejected told answer same (result_map_error.2 result)
  | made told passes made result =>
    refine .made told passes made ?_
    rw [Write.map, result]
    rfl
  | misfit told passes misfits same result => exact .misfit told passes misfits same (result_map_error.2 result)
  | clash told passes clashes same result => exact .clash told passes clashes same (result_map_error.2 result)

/-- A call that is refused has told nobody. -/
theorem Write.Ends.refused {fault : ProxyFault} {done : α}
    (allowed : ∀ path reason, fault ≠ .rejected path reason) :
    ({ result := .error (.fault fault), heap := h } : Write α).Ends done idle observer h := by
  refine .silent rfl rfl (fun path reason rejected => ?_) nofun nofun
  cases rejected
  exact allowed path reason rfl

/-- A call that has nothing to change tells nobody. -/
theorem Write.Ends.idled {answer done : α} (idles : idle) :
    ({ result := .ok answer, heap := h } : Write α).Ends done idle observer h :=
  .silent rfl rfl nofun nofun fun _ _ => idles

/-- An announced change ends the call by the observer's answer, or it is made, or it misfits, or it
clashes. -/
theorem announce_ends {change : Change} {done : α} {make : Heap → Except Halt α × Heap}
    (makes : (∃ made, make h = (.ok done, made) ∧ change.Made h made) ∨
      make h = (.error (.fault (.frozen (dotted change.path))), h) ∧ change.Misfits h ∨
      make h = (.error .clash, h) ∧ change.Clashes h) :
    (announce observer h change make).Ends done idle observer h := by
  unfold announce
  cases answer : observer change with
  | some reason => exact .rejected rfl answer rfl rfl
  | none =>
    dsimp only
    rcases makes with ⟨after, makes, made⟩ | ⟨refuses, misfits⟩ | ⟨breaks, clashes⟩
    · rw [makes]
      exact .made rfl answer made rfl
    · rw [refuses]
      exact .misfit rfl answer misfits rfl rfl
    · rw [breaks]
      exact .clash rfl answer clashes rfl rfl

theorem Write.Ends.imp {w : Write α} {done : α} {idle' : Prop} (ends : w.Ends done idle observer h)
    (weaker : idle → idle') : w.Ends done idle' observer h := by
  cases ends with
  | silent told same allowed returns idles =>
    exact .silent told same allowed returns fun answer ok => weaker (idles answer ok)
  | rejected told answer same result => exact .rejected told answer same result
  | made told passes made result => exact .made told passes made result
  | misfit told passes misfits same result => exact .misfit told passes misfits same result
  | clash told passes clashes same result => exact .clash told passes clashes same result

theorem Write.Ends.ite {c : Prop} [Decidable c] {w₁ w₂ : Write α} {done : α}
    (yes : c → w₁.Ends done idle observer h) (no : ¬ c → w₂.Ends done idle observer h) :
    (if c then w₁ else w₂).Ends done idle observer h := by
  by_cases holds : c
  · rw [if_pos holds]
    exact yes holds
  · rw [if_neg holds]
    exact no holds

theorem Proxy.refusal?_ne_rejected {fault : ProxyFault} (refusal : p.refusal? h key = some fault)
    (path reason : String) : fault ≠ .rejected path reason := by
  unfold refusal? at refusal
  by_cases frozen : h.isFrozen p.target = true
  · rw [if_pos frozen] at refusal
    cases refusal
    exact nofun
  · rw [if_neg frozen] at refusal
    cases (Option.ite_none_right_eq_some.1 refusal).2
    exact nofun

/-- A container that refuses no write at a key is not frozen, and the key of an array is its length or an
index. -/
theorem Proxy.open_of_refusal? (free : p.refusal? h key = none) :
    h.isFrozen p.target = false ∧
      ∀ a, p.target = .array a → key ≠ "length" → (parseIndex? key).isSome = true := by
  unfold refusal? at free
  by_cases frozen : h.isFrozen p.target = true
  · rw [if_pos frozen] at free
    cases free
  rw [if_neg frozen] at free
  refine ⟨by simpa using frozen, fun a target notLength => ?_⟩
  have index := ite_eq_right_iff.1 free
  cases place : parseIndex? key with
  | some i => rfl
  | none => cases index (by simp [target, notLength, place])

/-- What a container refuses of all that is announced is a length that is none. -/
theorem Proxy.misfits_of_not_canSet {value : Value} {change : Change}
    (free : p.refusal? h key = none)
    (fits : ∀ a, p.target = .array a → h.exceedsLimit key value = false)
    (refuses : h.canSet p.target key value = false) (target : change.target = p.target)
    (path : change.key = key) (action : change.action = .set) (next : change.next = some value) :
    change.Misfits h := by
  obtain ⟨unfrozen, index⟩ := open_of_refusal? free
  unfold Change.Misfits Change.Resizes
  rw [target, path]
  cases container : p.target with
  | array a =>
    rw [container] at refuses unfrozen
    have unfrozen : (h.arrayAt a).frozen = false := unfrozen
    rw [Heap.canSet, Heap.takesItem, unfrozen, fits a container] at refuses
    by_cases length : key = "length"
    · rw [if_pos length] at refuses
      exact ⟨⟨length, a, rfl⟩, action, value, next, by simpa using refuses⟩
    · rw [if_neg length, index a container length] at refuses
      cases refuses
  | object o =>
    rw [container] at refuses unfrozen
    have unfrozen : (h.objectAt o).frozen = false := unfrozen
    rw [Heap.canSet, unfrozen] at refuses
    cases refuses
  | _ =>
    rw [container] at unfrozen
    cases unfrozen

theorem key_childPath (p : Proxy) (key : String) : (p.childPath key).getLastD "" = key := by
  unfold Proxy.childPath
  simp

/-- A write that changes nothing is not announced. Any other one is announced once, and made unless it is refused. -/
theorem Proxy.set_ends (value : Value) : (p.set observer h key value).Ends ()
    (isUnchanged h (p.present? h key) value = true) observer h := by
  unfold Proxy.set
  cases free : p.refusal? h key with
  | some fault => exact .refused (refusal?_ne_rejected free)
  | none =>
    refine .ite (fun _ => .refused nofun) fun short => .ite (fun same => .idled same) fun _ => ?_
    apply announce_ends
    have fits : ∀ a, p.target = .array a → h.exceedsLimit key value = false := by
      intro a target
      rw [target] at short
      simpa using short
    generalize (if h.has p.target key then some (h.get p.target key) else none) = previous
    -- what the container decides after the observer was told
    by_cases clashes : h.clashes p.target key value = true
    · right; right
      rw [if_pos clashes]
      exact ⟨rfl, Change.clashes_of_clashes (key_childPath p key) rfl rfl clashes⟩
    rw [if_neg clashes]
    by_cases takes : h.canSet p.target key value = true
    · left
      rw [if_pos takes]
      exact ⟨_, rfl, Change.made_of_canSet (key_childPath p key) rfl rfl takes⟩
    · right; left
      rw [if_neg takes]
      exact ⟨rfl, misfits_of_not_canSet free fits (by simpa using takes) rfl (key_childPath p key) rfl rfl⟩

theorem Proxy.push_ends (value : Value) : (p.push observer h value).Ends ()
    ((Action.push p value).Idle h) observer h := by
  unfold Proxy.push
  split
  next a target => exact (set_ends value).imp fun same => ⟨a, target, same⟩
  next => exact .refused nofun

/-- A container that refuses no removal at a key lets go of what it has there. -/
theorem Proxy.canRemove_of_has (free : p.refusal? h key = none)
    (item : ∀ a, p.target = .array a → key ≠ "length")
    (has : h.has p.target key = true) : h.canRemove p.target key = true := by
  obtain ⟨unfrozen, -⟩ := open_of_refusal? free
  cases container : p.target with
  | array a =>
    rw [container] at unfrozen has
    have unfrozen : (h.arrayAt a).frozen = false := unfrozen
    have item : (key == "length") = false := by simpa using item a container
    rw [Heap.has, item, Bool.false_or] at has
    rw [Heap.canRemove, unfrozen, has]
    rfl
  | object o =>
    rw [container] at unfrozen has
    have unfrozen : (h.objectAt o).frozen = false := unfrozen
    rw [Heap.canRemove, unfrozen]
    exact has
  | _ =>
    rw [container] at unfrozen
    cases unfrozen

/-- So it is with deleting, where nothing changes if there is no such key. -/
theorem Proxy.delete_ends :
    (p.delete observer h key).Ends true (h.has p.target key = false) observer h := by
  unfold Proxy.delete
  cases free : p.refusal? h key with
  | some fault => exact .refused (refusal?_ne_rejected free)
  | none =>
    refine .ite (fun _ => .refused nofun) fun length =>
      .ite (fun absent => .idled (by simpa using absent)) fun absent => ?_
    apply announce_ends
    have item : ∀ a, p.target = .array a → key ≠ "length" := by
      intro a target
      rw [target] at length
      simpa using length
    have lets : h.canRemove p.target key = true := canRemove_of_has free item (by simpa using absent)
    left
    rw [if_pos lets]
    exact ⟨_, rfl, Change.made_of_canRemove (key_childPath p key) rfl rfl lets⟩

end Endings

/-- In every session, a turn that writes goes as its write does, and the write has one of the endings: the
observer is told nothing and nothing happens, as the call has failed or changes nothing; or it is told of
a change of the property that the action writes, and either it rejects the change and nothing happens, or
exactly this change is made. The exceptions are an array that is given a length that is none, and one whose
length is to be told by a value which holds the array. The observer answers by the change it is told of and
does nothing to the data. -/
theorem write_ends (first : Session) (turns : List Turn) (turn : Turn) {w : Write Bool}
    (writes : turn.action.write? turn.observer (first.run turns).heap = some w) :
    (first.run turns).step turn = (first.run turns).after w ∧
      (∀ change, w.change = some change → ∃ p key,
        turn.action.property? (first.run turns).heap = some (p, key) ∧
          change.target = p.target ∧ change.key = key) ∧
      w.Ends true (turn.action.Idle (first.run turns).heap) turn.observer (first.run turns).heap := by
  generalize first.run turns = s at *
  have goes : s.step turn = s.after w := by
    unfold Session.step
    cases action : turn.action <;> rw [action] at writes <;> cases writes <;> rfl
  refine ⟨goes, fun change told => ?_, ?_⟩
  · have reported : (s.step turn).2 = some change := by
      rw [goes]
      exact told
    obtain ⟨p, key, -, property, path, target⟩ := Session.step_reported reported
    refine ⟨p, key, property, target, ?_⟩
    rw [Change.key, path]
    exact key_childPath p key
  · cases action : turn.action with
    | set p key value =>
      rw [action] at writes
      cases writes
      exact (Proxy.set_ends value).map _
    | delete p key =>
      rw [action] at writes
      cases writes
      exact Proxy.delete_ends
    | push p value =>
      rw [action] at writes
      cases writes
      exact (Proxy.push_ends value).map _
    | _ =>
      rw [action] at writes
      cases writes

/-! A list of one item, and the proxy for it. -/

/-- The session in which the list has just been wrapped. -/
def listed : Session :=
  { heap := { arrays := #[{ items := #[.string "a"] }] }
    tracker := (wrap { arrays := #[{ items := #[.string "a"] }] } (.array 0) []).2 }

/-- The proxy for the list. -/
def list : Proxy :=
  { identity := 0, target := .array 0, path := [] }

/-- An item is appended and then cut off. -/
theorem cut_list_ends :
    ∃ w, (Action.set list "length" (.number 1.0)).write? (fun _ => none)
        (listed.run [(Action.push list (.string "b")).passed]).heap = some w ∧
      w.result = .ok true ∧
      w.Ends true False (fun _ => none) (listed.run [(Action.push list (.string "b")).passed]).heap := by
  obtain ⟨-, -, ends⟩ := write_ends listed [(Action.push list (.string "b")).passed]
    (Action.set list "length" (.number 1.0)).passed rfl
  refine ⟨_, rfl, by rfl, ends.imp fun idle => ?_⟩
  have changes : isUnchanged (listed.run [(Action.push list (.string "b")).passed]).heap
      (list.present? (listed.run [(Action.push list (.string "b")).passed]).heap "length")
      (.number 1.0) = false := by decide
  exact absurd (changes.symm.trans idle) Bool.false_ne_true

/-- A list is told to have the length -1, and the observer is told so; what fails then is not for a list
that is frozen. And a list that is told to have the length `true` has the length 1 afterwards. -/
theorem misfit_length_told :
    (¬ ∀ (s : Session) (turn : Turn) (w : Write Bool) (fault : ProxyFault),
      turn.action.write? turn.observer s.heap = some w → w.result = .error (.fault fault) →
        (∀ path reason, fault ≠ .rejected path reason) → w.change = none) ∧
    ¬ ∀ (s : Session) (turn : Turn) (w : Write Bool) (change : Change) (value : Value),
      turn.action.write? turn.observer s.heap = some w → w.result = .ok true →
        w.change = some change → change.next = some value →
        (w.heap.get change.target change.key).strictEquals value = true := by
  constructor
  · intro untold
    have none := untold listed (Action.set list "length" (.number (-1.0))).passed _ (.frozen "length") rfl
      (by rfl) nofun
    cases none
  · intro reads
    have same := reads listed (Action.set list "length" (.bool true)).passed _ _ (.bool true) rfl
      (by rfl) (by rfl) rfl
    revert same
    decide

end Tracking

end BindScript
