import BindScript.Evaluation.Method.Items
import BindScript.Proofs.Control.Dependence
import BindScript.Proofs.Correspondence.Zone
import BindScript.Proofs.Tracking.Listeners

/-!
# Appending through a proxy

An append through a proxy is a write of the next index. That it appends, as the method of arrays does, takes the checks
of a write together: the key of an index is read back as the index (`parseIndex?_toString`), the index is within the
limit, nothing stands at the next index yet, and a list is not filled up before it gets its next item
(`Heap.set_next`).

A value that is `undefined` is the exception. What is not there reads as `undefined`, so the write has nothing to do
(`Proxy.push_undefined`), and the list stays as long as it was.
-/

namespace BindScript

/-! ## The next index -/

namespace Heap

variable {h : Heap} {a : Nat} {value : Value}

section Next

variable (unfrozen : h.isFrozen (.array a) = false) (room : (h.items a).size < maxArrayLength)

theorem next_small (room : (h.items a).size < maxArrayLength) : (h.items a).size < Nat.pow 2 64 :=
  Nat.lt_trans room (by decide)

include room

/-- Nothing stands at the next index. -/
theorem has_next : h.has (.array a) (toString (h.items a).size) = false := by
  unfold has
  dsimp only
  rw [beq_eq_false_iff_ne.2 (toString_ne_length _), parseIndex?_toString (next_small room)]
  simp

theorem exceedsLimit_next : h.exceedsLimit (toString (h.items a).size) value = false := by
  unfold exceedsLimit
  rw [if_neg (toString_ne_length _), parseIndex?_toString (next_small room)]
  simpa using room

/-- What is written at the next index is appended. -/
theorem set_next : h.set (.array a) (toString (h.items a).size) value = h.modifyItems a (·.push value) := by
  unfold set
  dsimp only
  rw [if_neg (toString_ne_length _), parseIndex?_toString (next_small room)]
  refine modifyItems_congr ?_
  unfold putItem
  rw [if_neg (Nat.lt_irrefl _), resizeItems, if_pos (Nat.le_refl _), Array.shrink_eq_take]
  simp

include unfrozen

theorem canSet_next : h.canSet (.array a) (toString (h.items a).size) value = true := by
  have unfrozen : (h.arrayAt a).frozen = false := unfrozen
  rw [canSet, takesItem, unfrozen, exceedsLimit_next room, if_neg (toString_ne_length _),
    parseIndex?_toString (next_small room)]
  rfl

end Next

end Heap

namespace Tracking

section Appends

variable {p : Proxy} {a : Nat} {h : Heap} {value : Value} {observer : Observer}

/-- The change that is told of an append. -/
def Proxy.appending (p : Proxy) (n : Nat) (value : Value) : Change where
  action := .set
  path := p.childPath (toString n)
  target := p.target
  previous := none
  next := some value

theorem announce_congr {α : Type} {change : Change} {make make' : Heap → Except Halt α × Heap}
    (same : make h = make' h) : announce observer h change make = announce observer h change make' := by
  unfold announce
  rw [same]

variable (target : p.target = .array a) (unfrozen : h.isFrozen p.target = false)
  (room : (h.items a).size < maxArrayLength)

include target unfrozen room

theorem Proxy.refusal?_next : p.refusal? h (toString (h.items a).size) = none := by
  unfold refusal?
  rw [unfrozen, target, parseIndex?_toString (Heap.next_small room)]
  simp

/-- An append to a list that is not full is announced as a write of the next index, if the value is not `undefined`. -/
theorem Proxy.push_eq :
    p.push observer h value =
      if value.isUndefined then { result := .ok (), heap := h }
      else announce observer h (p.appending (h.items a).size value) fun h =>
        (.ok (), h.modifyItems a (·.push value)) := by
  have absent : p.present? h (toString (h.items a).size) = none := by
    unfold present?
    rw [target, Heap.has_next room]
    rfl
  have array : p.push observer h value = p.set observer h (toString (h.items a).size) value := by
    unfold push
    rw [target]
  rw [array, set_of_free (refusal?_next target unfrozen room), Heap.exceedsLimit_next room, Bool.and_false,
    if_neg Bool.false_ne_true, absent]
  -- nothing stands there, so the write has something to do exactly if the value is not `undefined`
  show (if value.isUndefined = true then _ else _) = _
  congr 1
  apply announce_congr
  rw [target] at unfrozen
  rw [target, Heap.clashes_of_ne_length (toString_ne_length _), if_neg Bool.false_ne_true,
    if_pos (Heap.canSet_next unfrozen room), Heap.set_next room]

/-- Appending `undefined` does nothing, and nobody is told. -/
theorem Proxy.push_undefined : p.push observer h .undefined = { result := .ok (), heap := h } :=
  push_eq target unfrozen room

end Appends

open EvalM in
/-- What the method of arrays does when it appends an item to a list that is not full. -/
theorem callArrayMethod_push {sub : Interpreter} {s : State} {a : Nat} (value : Value)
    (unfrozen : (s.heap.arrayAt a).frozen = false) (room : (s.heap.items a).size < maxArrayLength) :
    callArrayMethod sub a .push [value] s =
      .ok (.count ((s.heap.items a).size + 1)) { s with heap := s.heap.modifyItems a (·.push value) } := by
  have writable : checkWritable a s = .ok () s := by
    have reads : readHeap (fun h => (h.arrayAt a).frozen) s = .ok false s := by rw [readHeap, unfrozen]
    exact bind_of_ok reads
  have fits : checkRoom a 1 s = .ok () s := by
    show ofExcept (checkArrayLength ((s.heap.items a).size + 1)) s = _
    rw [checkArrayLength, if_neg (by omega)]
    rfl
  have grown : s.heap.modifyItems a (· ++ [value].toArray) = s.heap.modifyItems a (·.push value) :=
    Heap.modifyItems_congr (by simp)
  have counted : itemCount a { s with heap := s.heap.modifyItems a (·.push value) } =
      .ok (.count ((s.heap.items a).size + 1)) { s with heap := s.heap.modifyItems a (·.push value) } := by
    unfold itemCount readHeap
    dsimp only
    rw [Heap.items_modifyItems (Heap.lt_size_of_unfrozen_array unfrozen), Array.size_push]
  have appended : modifyHeap (·.modifyItems a (· ++ [value].toArray)) s =
      .ok () { s with heap := s.heap.modifyItems a (·.push value) } := by rw [modifyHeap, grown]
  refine (bind_of_ok writable).trans ((bind_of_ok fits).trans ?_)
  exact (bind_of_ok appended).trans counted

/-- **An append appends.** Take a list that is not frozen and not full, a value that is not `undefined`, and a listener
that lets the append pass. Then the call succeeds. The list has the value as its next item, after the items it had, and
everything else is as before. The listener is told once, of a write of the next index, and sees the list as it was. And
the method of arrays does the same to the heap. A listener may look at the data and remember something, but it writes
nothing. -/
theorem push_appends {σ : Type} {p : Proxy} {a : Nat} (target : p.target = .array a) (listener : Listener σ)
    (scene : Scene σ) (unfrozen : scene.heap.isFrozen p.target = false)
    (room : (scene.heap.items a).size < maxArrayLength) (value : Value) (defined : value ≠ .undefined)
    (passes : (listener (p.appending (scene.heap.items a).size value) scene).1 = none) :
    let n := (scene.heap.items a).size
    let grown := scene.heap.modifyItems a (·.push value)
    p.push (listener.observer scene) scene.heap value =
        { change := some (p.appending n value), result := .ok (), heap := grown } ∧
      p.pushIn listener value scene = .ok () ⟨grown, (listener (p.appending n value) scene).2⟩ ∧
      grown.items a = (scene.heap.items a).push value ∧
      ∀ (sub : Interpreter) (s : State), s.heap = scene.heap →
        EvalM.callArrayMethod sub a .push [value] s = .ok (.count (n + 1)) { s with heap := grown } := by
  have unfrozenArray : (scene.heap.arrayAt a).frozen = false := by
    rw [target] at unfrozen
    exact unfrozen
  have something : value.isUndefined = false := by
    cases value <;> first | rfl | exact absurd rfl defined
  have written : p.push (listener.observer scene) scene.heap value =
      { change := some (p.appending (scene.heap.items a).size value), result := .ok ()
        heap := scene.heap.modifyItems a (·.push value) } := by
    rw [Proxy.push_eq target unfrozen room, something, if_neg Bool.false_ne_true, announce]
    unfold Listener.observer
    rw [passes]
  refine ⟨written, ?_, Heap.items_modifyItems (Heap.lt_size_of_unfrozen_array unfrozenArray) _, ?_⟩
  · rw [Proxy.pushIn_eq, written]
    rfl
  · rintro sub s same
    rw [← same] at unfrozenArray room ⊢
    exact callArrayMethod_push value unfrozenArray room

/-- A listener that lets everything pass and remembers the paths. -/
def pathsSeen : Listener (List (List String)) :=
  fun change scene => (none, scene.memory ++ [change.path])

/-- A list gets a second item. -/
theorem second_item_appended :
    list.target = .array 0 ∧ listed.heap.isFrozen list.target = false ∧ (listed.heap.items 0).size < maxArrayLength ∧
      Value.string "b" ≠ .undefined ∧ (pathsSeen (list.appending 1 (.string "b")) ⟨listed.heap, []⟩).1 = none ∧
      list.pushIn pathsSeen (.string "b") ⟨listed.heap, []⟩ =
        .ok () ⟨{ arrays := #[{ items := #[.string "a", .string "b"] }] }, [["1"]]⟩ := by
  obtain ⟨-, appended, -⟩ :=
    push_appends (p := list) (a := 0) rfl pathsSeen ⟨listed.heap, []⟩ rfl (by decide) (.string "b") nofun rfl
  exact ⟨rfl, rfl, by decide, nofun, rfl, appended⟩

/-- A list is to be given `undefined` as its next item. The call succeeds, and the list is as long as it was. -/
theorem undefined_not_appended :
    ¬ ∀ (p : Proxy) (a : Nat) (h : Heap) (observer : Observer) (value : Value),
      p.target = .array a → h.isFrozen p.target = false → (h.items a).size < maxArrayLength →
        (∀ change, observer change = none) → (p.push observer h value).result = .ok () →
        ((p.push observer h value).heap.items a).size = (h.items a).size + 1 := by
  intro grows
  have nothing : list.push (fun _ => none) listed.heap .undefined = { result := .ok (), heap := listed.heap } :=
    Proxy.push_undefined rfl rfl (by decide)
  have grown := grows list 0 listed.heap (fun _ => none) .undefined rfl rfl (by decide) (fun _ => rfl)
    (by rw [nothing])
  rw [nothing] at grown
  cases grown

end Tracking

end BindScript
