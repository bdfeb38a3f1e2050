import BindScript.Proofs.JsonText.Unambiguous
import BindScript.Proofs.Tracking.Announced

/-!
# What a silent write leaves as it was

A write through a proxy that succeeds either stores the value or finds that there is nothing to change
(`Proxy.set_ok`). In the first case the property reads as the value. In the second it reads as an equal
primitive or the same container already, or as a container with the same JSON text, and that is alike down to
its primitives up to what JSON text leaves out or rewrites (`Proxy.set_reads`). So a member that holds `NaN`
stays when it is to become `null`, and one that holds `undefined` or a function stays when it is to go. The
length of an array is the number that the value converts to (`blank_member_kept`).
-/

namespace BindScript

namespace Value

theorem sameValueZero_of_strictEquals {v w : Value} (equal : v.strictEquals w = true) :
    v.sameValueZero w = true := by
  unfold sameValueZero
  split
  next x y =>
    have equal : (x == y) = true := equal
    rw [equal, Bool.or_true]
  next => exact equal

/-- A number is not a number or it equals itself. -/
theorem sameValueZero_self (v : Value) : v.sameValueZero v = true := by
  cases v with
  | number x =>
    show (x.isNaN && x.isNaN || x == x) = true
    have equal := Number.beq_iff_compare x x
    have none : x.isNaN = x.toModel.unpack.isNaN := rfl
    cases unpacked : x.toModel.unpack with
    | notANumber =>
      rw [none, unpacked]
      rfl
    | infinity s =>
      rw [equal.2 (by rw [unpacked]; cases s <;> rfl), Bool.or_true]
    | zero s =>
      rw [equal.2 (by rw [unpacked]; rfl), Bool.or_true]
    | finite s m e pos =>
      have same : (Float.Model.UnpackedFloat.finite s m e pos).compare (.finite s m e pos) = some .eq := by
        cases s <;> simp [Float.Model.UnpackedFloat.compare, Std.ReflCmp.compare_self]
      rw [equal.2 (unpacked ▸ same), Bool.or_true]
  | undefined | null => rfl
  | bool | string | array | object | closure | native => exact beq_self_eq_true _

end Value

/-- Deep equality: containers of the same kind with the same keys and deeply equal members, equal primitives, with
NaN equal to itself, and the same functions. -/
def Heap.DeepEquals (h : Heap) : Value → Value → Prop :=
  h.Resembles (fun _ => false) fun v w => v.sameValueZero w = true

/-- A property that is not there reads as `undefined`. -/
theorem Heap.get_of_not_has {h : Heap} {v : Value} {key : String} (container : v.isContainer = true)
    (absent : h.has v key = false) : h.get v key = .undefined := by
  cases v with
  | object o =>
    have absent : (h.properties o).contains key = false := absent
    rw [Entries.contains_eq_isSome] at absent
    show ((h.properties o).get? key).getD .undefined = .undefined
    rw [Option.not_isSome_iff_eq_none.1 (Bool.eq_false_iff.1 absent)]
    rfl
  | array a =>
    obtain ⟨notLength, beyond⟩ := Bool.or_eq_false_iff.1 absent
    rw [get_array_of_ne_length (beq_eq_false_iff_ne.1 notLength)]
    cases index : parseIndex? key with
    | none => rfl
    | some i =>
      rw [index] at beyond
      have beyond : ¬ i < (h.items a).size := of_decide_eq_false beyond
      show (h.items a).getD i .undefined = .undefined
      rw [Array.getD_eq_getD_getElem?, Array.getElem?_eq_none (Nat.le_of_not_lt beyond)]
      rfl
  | _ => cases container

namespace Tracking

variable {p : Proxy} {observer : Observer} {h : Heap} {key : String} {value : Value}

/-- What takes writes is a container. -/
theorem Proxy.isContainer_of_refusal? (free : p.refusal? h key = none) : p.target.isContainer = true := by
  have unfrozen := (Proxy.open_of_refusal? free).1
  cases target : p.target with
  | array | object => rfl
  | _ =>
    rw [target] at unfrozen
    cases unfrozen

/-- A change that is announced and succeeds has been made. -/
theorem announce_ok {α : Type} {answer : α} {change : Change} {make : Heap → Except Halt α × Heap}
    (ok : (announce observer h change make).result = .ok answer) :
    (make h).1 = .ok answer ∧ (announce observer h change make).heap = (make h).2 := by
  unfold announce at ok ⊢
  cases rejects : observer change with
  | some reason =>
    rw [rejects] at ok
    cases ok
  | none =>
    rw [rejects] at ok
    exact ⟨ok, rfl⟩

/-- A write that succeeds had nothing to change, or was made. -/
theorem Proxy.set_ok (ok : (p.set observer h key value).result = .ok ()) :
    p.refusal? h key = none ∧
      ((p.set observer h key value).heap = h ∧ isUnchanged h (p.present? h key) value = true ∨
        h.canSet p.target key value = true ∧ (p.set observer h key value).heap = h.set p.target key value) := by
  unfold Proxy.set at *
  cases free : p.refusal? h key with
  | some fault =>
    rw [free] at ok
    cases ok
  | none =>
    refine ⟨rfl, ?_⟩
    rw [free] at ok
    have previous : (if h.has p.target key then some (h.get p.target key) else none) = p.present? h key := rfl
    dsimp only at ok ⊢
    rw [previous] at ok ⊢
    generalize p.present? h key = previous at *
    split_ifs at ok ⊢ with long same
    · exact .inl ⟨rfl, same⟩
    · obtain ⟨makes, heap⟩ := announce_ok ok
      right
      split_ifs at makes heap with clashes takes
      exact ⟨takes, heap⟩

/-- **A write that succeeds is not lost**, up to what JSON text does not show. The property reads as the value
afterwards, or it holds a container as before that has the same JSON text. Then it is alike to the value: of the
same kind, with the same keys in the same order, members that hold `undefined` or functions aside, and with equal
members, where `null`, `undefined`, functions and numbers that are not finite count as equal. The length of an
array reads as the value when the value is a number. This is so for every observer; an observer is told of the
change, and may reject it, but does nothing to the heap. -/
theorem Proxy.set_reads (ok : (p.set observer h key value).result = .ok ())
    (numeric : ∀ a, p.target = .array a → key = "length" → ∃ x, value = .number x) :
    ((p.set observer h key value).heap.get p.target key).sameValueZero value = true ∨
      (p.set observer h key value).heap = h ∧ (h.get p.target key).isContainer = true ∧ value.isContainer = true ∧
        (∃ text, h.json (h.get p.target key) none = .text text ∧ h.json value none = .text text) ∧
        h.Resembles Value.isOmitted Value.SameJson (h.get p.target key) value := by
  obtain ⟨free, ⟨same, unchanged⟩ | ⟨takes, made⟩⟩ := Proxy.set_ok ok
  · rw [same]
    unfold Proxy.present? at unchanged
    cases has : h.has p.target key with
    | false =>
      left
      rw [has, if_neg Bool.false_ne_true] at unchanged
      have value : value = .undefined := by
        cases value <;> first | rfl | cases unchanged
      rw [Heap.get_of_not_has (Proxy.isContainer_of_refusal? free) has, value]
      rfl
    | true =>
      rw [has, if_pos rfl] at unchanged
      unfold isUnchanged at unchanged
      dsimp only at unchanged
      -- nothing is written if the value is there already, or if both are containers of the same text
      rcases Bool.or_eq_true_iff.1 unchanged with equal | texts
      · exact .inl (Value.sameValueZero_of_strictEquals equal)
      · right
        obtain ⟨containers, texts⟩ := Bool.and_eq_true_iff.1 texts
        obtain ⟨container, container'⟩ := Bool.and_eq_true_iff.1 containers
        split at texts
        next a b written written' =>
          obtain rfl : a = b := beq_iff_eq.1 texts
          exact ⟨rfl, container, container', ⟨a, written, written'⟩, Heap.resembles_of_json written written'⟩
        next => cases texts
  · left
    rw [made]
    let change : Change := { action := .set, path := [key], target := p.target, previous := none, next := some value }
    have made : change.Made h (h.set p.target key value) := Change.made_of_canSet rfl rfl rfl takes
    -- only a length is read back as its number; anything else is read back as it was written
    by_cases resizes : change.Resizes
    · obtain ⟨length, a, target⟩ := id resizes
      obtain ⟨x, rfl⟩ := numeric a target length
      obtain ⟨value, next, equal⟩ := made.resized resizes
      cases next
      exact Value.sameValueZero_of_strictEquals equal
    · have reads : (h.set p.target key value).get p.target key = value := made.reads resizes
      rw [reads]
      exact Value.sameValueZero_self value

/-! An object whose member `a` is an object with a member `x`, and two objects to write in the place of that one. -/

/-- The value stands at `a.x`; next to it are an object with `null` at `x` and one without members. -/
def inner (x : Value) : Heap where
  objects := #[{ properties := [("a", .object 1)] }, { properties := [("x", x)] }, { properties := [("x", .null)] },
    {}]

/-- The proxy for the outer object. -/
def outer : Proxy :=
  { identity := 0, target := .object 0, path := [] }

/-- An object is not stored in the place of one that is alike. -/
theorem inner_resembles :
    (outer.set (fun _ => none) (inner .null) "a" (.object 2)).result = .ok () ∧
      (inner .null).Resembles Value.isOmitted Value.SameJson (.object 1) (.object 2) := by
  have ok : (outer.set (fun _ => none) (inner .null) "a" (.object 2)).result = .ok () := by decide +kernel
  refine ⟨ok, ?_⟩
  rcases Proxy.set_reads ok nofun with reads | ⟨-, -, -, -, alike⟩
  · have other : ((outer.set (fun _ => none) (inner .null) "a" (.object 2)).heap.get (.object 0) "a").sameValueZero
        (.object 2) = false := by decide +kernel
    exact absurd (other.symm.trans reads) Bool.false_ne_true
  · exact alike

/-- The proxy for an array. -/
def emptyList : Proxy :=
  { identity := 0, target := .array 0, path := [] }

/-- A member that is `NaN` stays when it is to become `null`, and one that is `undefined` when it is to go. The length
of a list is 1 when it is to become `true`. -/
theorem blank_member_kept :
    (¬ ∀ (p : Proxy) (observer : Observer) (h : Heap) (key : String) (value : Value),
      isTrackable h p.target = true → (∀ change, observer change = none) →
        (p.set observer h key value).result = .ok () →
          (p.set observer h key value).heap.DeepEquals ((p.set observer h key value).heap.get p.target key) value) ∧
    ((outer.set (fun _ => none) (inner .undefined) "a" (.object 3)).result = .ok () ∧
      (outer.set (fun _ => none) (inner .undefined) "a" (.object 3)).heap.has (.object 1) "x" = true) ∧
    ((emptyList.set (fun _ => none) { arrays := #[{}] } "length" (.bool true)).result = .ok () ∧
      (emptyList.set (fun _ => none) { arrays := #[{}] } "length" (.bool true)).heap.get (.array 0) "length" =
        .count 1) := by
  refine ⟨fun reads => ?_, ⟨by decide +kernel, by decide +kernel⟩, by decide +kernel, by rfl⟩
  have ok : (outer.set (fun _ => none) (inner (.number Number.nan)) "a" (.object 2)).result = .ok () := by
    decide +kernel
  have equal := reads outer (fun _ => none) (inner (.number Number.nan)) "a" (.object 2) rfl (fun _ => rfl) ok
  have kept : (outer.set (fun _ => none) (inner (.number Number.nan)) "a" (.object 2)).heap =
      inner (.number Number.nan) := by
    rfl
  rw [kept] at equal
  have equal : (inner (.number Number.nan)).DeepEquals (.object 1) (.object 2) := equal
  cases equal with
  | leaf same => cases same
  | object keys members =>
    cases members with
    | cons first _ =>
      cases first with
      | leaf same =>
        have differ : (Value.number Number.nan).sameValueZero .null = false := rfl
        exact absurd (differ.symm.trans same) Bool.false_ne_true

end Tracking

end BindScript
