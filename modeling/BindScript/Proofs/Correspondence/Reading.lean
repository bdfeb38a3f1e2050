import Mathlib.Data.List.Forall2
import BindScript.Proofs.Correspondence.Coverage
import BindScript.Evaluation.Method.Name
import BindScript.Value.Json
import BindScript.Value.Operation

/-!
# Values and heaps that correspond

A `Pairing` says which addresses of one heap stand for which addresses of another, one to one. Two values
are alike under a pairing when they are equal up to paired addresses (`Value.Alike`), and two heaps are
alike when paired addresses hold alike contents (`Heap.Alike`). Addresses that are not paired may hold
anything.

Paired closures are the same code over alike bindings, and the code keeps to an `Access` under the names
that it has captured: this is what makes calls of paired closures correspond later on.
-/

namespace BindScript

/-- Which addresses of one heap stand for which of another. -/
structure Pairing where
  arrays : Nat → Nat → Prop
  objects : Nat → Nat → Prop
  closures : Nat → Nat → Prop
  cells : Nat → Nat → Prop
  arrays_inj : ∀ {a b a' b' : Nat}, arrays a b → arrays a' b' → (a = a' ↔ b = b')
  objects_inj : ∀ {a b a' b' : Nat}, objects a b → objects a' b' → (a = a' ↔ b = b')
  closures_inj : ∀ {a b a' b' : Nat}, closures a b → closures a' b' → (a = a' ↔ b = b')

/-- A pairing with at least the pairs of another. -/
structure Pairing.Le (p q : Pairing) : Prop where
  arrays : ∀ {a b : Nat}, p.arrays a b → q.arrays a b
  objects : ∀ {a b : Nat}, p.objects a b → q.objects a b
  closures : ∀ {a b : Nat}, p.closures a b → q.closures a b
  cells : ∀ {a b : Nat}, p.cells a b → q.cells a b

/-! ## Values -/

/-- Equality of values up to paired addresses. -/
inductive Value.Alike (p : Pairing) : Value → Value → Prop
  | undefined : Value.Alike p .undefined .undefined
  | null : Value.Alike p .null .null
  | bool (b : Bool) : Value.Alike p (.bool b) (.bool b)
  | number (x : Float) : Value.Alike p (.number x) (.number x)
  | string (s : String) : Value.Alike p (.string s) (.string s)
  | array {a b : Nat} (paired : p.arrays a b) : Value.Alike p (.array a) (.array b)
  | object {a b : Nat} (paired : p.objects a b) : Value.Alike p (.object a) (.object b)
  | closure {a b : Nat} (paired : p.closures a b) : Value.Alike p (.closure a) (.closure b)
  | native (f : NativeFn) (identity : Nat) :
    Value.Alike p (.native f identity) (.native f identity)

/-- Lists of values that are alike one by one. -/
abbrev Value.AllAlike (p : Pairing) : List Value → List Value → Prop :=
  List.Forall₂ (Value.Alike p)

/-- One entry like another: the same key, and values that are alike. -/
def Entry.Alike (p : Pairing) (x y : String × Value) : Prop :=
  x.1 = y.1 ∧ Value.Alike p x.2 y.2

/-- The same keys in the same order, with values that are alike. -/
abbrev Entries.Alike (p : Pairing) : List (String × Value) → List (String × Value) → Prop :=
  List.Forall₂ (Entry.Alike p)

namespace Value.Alike

variable {p q : Pairing} {v v' u u' : Value}

theorem mono (h : Value.Alike p v v') (le : p.Le q) : Value.Alike q v v' := by
  cases h with
  | array paired => exact .array (le.arrays paired)
  | object paired => exact .object (le.objects paired)
  | closure paired => exact .closure (le.closures paired)
  | _ => constructor

theorem isTruthy_eq (h : Value.Alike p v v') : v.isTruthy = v'.isTruthy := by
  cases h <;> rfl

theorem isNullish_eq (h : Value.Alike p v v') : v.isNullish = v'.isNullish := by
  cases h <;> rfl

theorem isContainer_eq (h : Value.Alike p v v') : v.isContainer = v'.isContainer := by
  cases h <;> rfl

theorem isCallable_eq (h : Value.Alike p v v') : v.isCallable = v'.isCallable := by
  cases h <;> rfl

theorem isUndefined_eq (h : Value.Alike p v v') : v.isUndefined = v'.isUndefined := by
  cases h <;> rfl

theorem isOmitted_eq (h : Value.Alike p v v') : v.isOmitted = v'.isOmitted := by
  cases h <;> rfl

theorem isText_eq (h : Value.Alike p v v') : v.isText = v'.isText := by
  cases h <;> rfl

theorem typeOf_eq (h : Value.Alike p v v') : v.typeOf = v'.typeOf := by
  cases h <;> rfl

theorem unboxBool (h : Value.Alike p v v') : Value.Alike p v.unboxBool v'.unboxBool := by
  cases h with
  | bool b => exact .number _
  | array paired => exact .array paired
  | object paired => exact .object paired
  | closure paired => exact .closure paired
  | _ => constructor

theorem ofLiteral (p : Pairing) (l : Literal) :
    Value.Alike p (.ofLiteral l) (.ofLiteral l) := by
  cases l <;> constructor

/-- Paired addresses are equal on one side exactly when they are on the other. -/
theorem strictEquals_eq (h : Value.Alike p v v') (k : Value.Alike p u u') :
    v.strictEquals u = v'.strictEquals u' := by
  cases h with
  | array paired =>
    cases k with
    | array paired' =>
      exact Bool.eq_iff_iff.2 (by simpa [strictEquals] using p.arrays_inj paired paired')
    | _ => rfl
  | object paired =>
    cases k with
    | object paired' =>
      exact Bool.eq_iff_iff.2 (by simpa [strictEquals] using p.objects_inj paired paired')
    | _ => rfl
  | closure paired =>
    cases k with
    | closure paired' =>
      exact Bool.eq_iff_iff.2 (by simpa [strictEquals] using p.closures_inj paired paired')
    | _ => rfl
  | _ => cases k <;> rfl

theorem sameValueZero_eq (h : Value.Alike p v v') (k : Value.Alike p u u') :
    v.sameValueZero u = v'.sameValueZero u' := by
  have strict := h.strictEquals_eq k
  cases h with
  | number x =>
    cases k with
    | number y => rfl
    | _ => exact strict
  | _ => cases k <;> exact strict

/-- Alike values are the same constructor, so a native function is the same one. -/
theorem findMethod_eq (h : Value.Alike p v v') (name : String) :
    Method.find? v name = Method.find? v' name := by
  cases h <;> rfl

end Value.Alike

theorem Value.AllAlike.mono {p q : Pairing} {as bs : List Value} (h : Value.AllAlike p as bs)
    (le : p.Le q) : Value.AllAlike q as bs :=
  h.imp fun _ _ h => h.mono le

theorem Entries.Alike.mono {p q : Pairing} {as bs : List (String × Value)}
    (h : Entries.Alike p as bs) (le : p.Le q) : Entries.Alike q as bs :=
  h.imp fun _ _ h => ⟨h.1, h.2.mono le⟩

/-! ## Heaps -/

/-- Bindings of the same name and kind with paired cells. -/
structure Binding.Alike (p : Pairing) (x y : Binding) : Prop where
  name : x.name = y.name
  kind : x.kind = y.kind
  cell : p.cells x.cell y.cell

/-- The names of bindings, oldest first. -/
def Binding.names (bindings : Array Binding) : List String :=
  bindings.toList.map (·.name)

/-- The same code over bindings that are alike. It keeps to the access under the captured names. -/
structure Closure.Alike (p : Pairing) (A : Access) (c d : Closure) : Prop where
  name : c.name? = d.name?
  definition : c.definition = d.definition
  captured : List.Forall₂ (Binding.Alike p) c.captured.toList d.captured.toList
  within : ∃ bound, (∀ n ∈ bound, n ∈ Binding.names c.captured) ∧ c.definition.Within A bound

theorem Closure.Alike.mono {p q : Pairing} {A : Access} {c d : Closure} (h : Closure.Alike p A c d)
    (le : p.Le q) : Closure.Alike q A c d :=
  ⟨h.name, h.definition, h.captured.imp fun _ _ b => ⟨b.name, b.kind, le.cells b.cell⟩, h.within⟩

/-- Paired addresses hold contents that are alike. -/
structure Heap.Alike (p : Pairing) (A : Access) (h₁ h₂ : Heap) : Prop where
  items : ∀ {a b : Nat}, p.arrays a b →
    Value.AllAlike p (h₁.items a).toList (h₂.items b).toList
  arrayFrozen : ∀ {a b : Nat}, p.arrays a b → (h₁.arrayAt a).frozen = (h₂.arrayAt b).frozen
  properties : ∀ {a b : Nat}, p.objects a b → Entries.Alike p (h₁.properties a) (h₂.properties b)
  objectFrozen : ∀ {a b : Nat}, p.objects a b → (h₁.objectAt a).frozen = (h₂.objectAt b).frozen
  closure : ∀ {a b : Nat}, p.closures a b → Closure.Alike p A (h₁.closureAt a) (h₂.closureAt b)
  cell : ∀ {a b : Nat}, p.cells a b → Value.Alike p (h₁.cellAt a) (h₂.cellAt b)

end BindScript

/-!
## Reading heaps that correspond

Everything a program can find out about a value, it finds out of values that are alike in the same way:
their texts, numbers and JSON texts are equal, they compare alike, and what is read out of them is alike.
-/

/-! ### Lists that are alike item by item -/

namespace List.Forall₂

variable {α β γ : Type} {R : α → β → Prop} {as : List α} {bs : List β}

theorem map_eq {f : α → γ} {g : β → γ} (h : Forall₂ R as bs)
    (eq : ∀ {a b}, R a b → f a = g b) : as.map f = bs.map g := by
  induction h with
  | nil => rfl
  | cons head _ ih => rw [List.map_cons, List.map_cons, eq head, ih]

theorem mapM_eq {f : α → Option γ} {g : β → Option γ} (h : Forall₂ R as bs)
    (eq : ∀ {a b}, R a b → f a = g b) : as.mapM f = bs.mapM g := by
  induction h with
  | nil => rfl
  | cons head _ ih => rw [List.mapM_cons, List.mapM_cons, eq head, ih]

theorem any_eq {f : α → Bool} {g : β → Bool} (h : Forall₂ R as bs)
    (eq : ∀ {a b}, R a b → f a = g b) : as.any f = bs.any g := by
  induction h with
  | nil => rfl
  | cons head _ ih => rw [List.any_cons, List.any_cons, eq head, ih]

theorem findIdx?_eq {f : α → Bool} {g : β → Bool} (h : Forall₂ R as bs)
    (eq : ∀ {a b}, R a b → f a = g b) : as.findIdx? f = bs.findIdx? g := by
  induction h with
  | nil => rfl
  | cons head _ ih => rw [List.findIdx?_cons, List.findIdx?_cons, eq head, ih]

theorem isEmpty_eq (h : Forall₂ R as bs) : as.isEmpty = bs.isEmpty := by
  cases h <;> rfl

theorem getElem? (h : Forall₂ R as bs) (i : Nat) : Option.Rel R as[i]? bs[i]? := by
  induction h generalizing i with
  | nil => exact .none
  | cons head _ ih =>
    cases i with
    | zero => exact .some head
    | succ i => exact ih i

theorem getD {a : α} {b : β} (h : Forall₂ R as bs) (default : R a b) (i : Nat) :
    R (as.getD i a) (bs.getD i b) := by
  rw [List.getD_eq_getElem?_getD, List.getD_eq_getElem?_getD]
  have found := h.getElem? i
  generalize as[i]? = x at found ⊢
  generalize bs[i]? = y at found ⊢
  cases found with
  | none => exact default
  | some found => exact found

theorem set {a : α} {b : β} (h : Forall₂ R as bs) (item : R a b) (i : Nat) :
    Forall₂ R (as.set i a) (bs.set i b) := by
  induction h generalizing i with
  | nil => exact .nil
  | cons head tail ih =>
    cases i with
    | zero => exact .cons item tail
    | succ i => exact .cons head (ih i)

theorem replicate {a : α} {b : β} (item : R a b) (n : Nat) :
    Forall₂ R (List.replicate n a) (List.replicate n b) := by
  induction n with
  | zero => exact .nil
  | succ n ih => exact .cons item ih

end List.Forall₂

namespace BindScript

theorem Value.Alike.concatenates_eq {p : Pairing} {v v' : Value} (h : Value.Alike p v v') :
    v.concatenates = v'.concatenates := by
  cases h <;> rfl

/-- Values under the same keys. -/
theorem Value.AllAlike.zip_keys {p : Pairing} {as bs : List Value} (h : Value.AllAlike p as bs)
    (keys : List String) : Entries.Alike p (keys.zip as) (keys.zip bs) := by
  induction h generalizing keys with
  | nil => rw [List.zip_nil_right]; exact .nil
  | cons head _ ih =>
    cases keys with
    | nil => exact .nil
    | cons key keys => exact .cons ⟨rfl, head⟩ (ih keys)

variable {p : Pairing} {A : Access} {h₁ h₂ : Heap} {v₁ v₂ u₁ u₂ : Value}

/-! ### Entries -/

namespace Entries.Alike

variable {m₁ m₂ : Entries Value}

theorem keys_eq (h : Entries.Alike p m₁ m₂) : m₁.keys = m₂.keys :=
  h.map_eq fun h => h.1

theorem contains_eq (h : Entries.Alike p m₁ m₂) (key : String) :
    m₁.contains key = m₂.contains key :=
  h.any_eq fun h => by rw [h.1]

theorem get? (h : Entries.Alike p m₁ m₂) (key : String) :
    Option.Rel (Value.Alike p) (m₁.get? key) (m₂.get? key) := by
  induction h with
  | nil => exact .none
  | @cons x y m₁ m₂ head _ ih =>
    obtain ⟨k, v⟩ := x
    obtain ⟨k', v'⟩ := y
    obtain ⟨rfl, hv⟩ := head
    unfold Entries.get?
    by_cases hk : k = key
    · rw [if_pos hk, if_pos hk]; exact .some hv
    · rw [if_neg hk, if_neg hk]; exact ih

theorem insert (h : Entries.Alike p m₁ m₂) (key : String) (value : Value.Alike p v₁ v₂) :
    Entries.Alike p (m₁.insert key v₁) (m₂.insert key v₂) := by
  induction h with
  | nil => exact .cons ⟨rfl, value⟩ .nil
  | @cons x y m₁ m₂ head tail ih =>
    obtain ⟨k, v⟩ := x
    obtain ⟨k', v'⟩ := y
    obtain ⟨rfl, hv⟩ := head
    unfold Entries.insert
    by_cases hk : k = key
    · rw [if_pos hk, if_pos hk]; exact .cons ⟨rfl, value⟩ tail
    · rw [if_neg hk, if_neg hk]; exact .cons ⟨rfl, hv⟩ ih

theorem insertAll {l₁ l₂ : List (String × Value)} (h : Entries.Alike p m₁ m₂)
    (k : Entries.Alike p l₁ l₂) : Entries.Alike p (m₁.insertAll l₁) (m₂.insertAll l₂) := by
  unfold Entries.insertAll
  induction k generalizing m₁ m₂ with
  | nil => exact h
  | cons head _ ih =>
    rw [List.foldl_cons, List.foldl_cons]
    exact ih (head.1 ▸ h.insert _ head.2)

theorem filter (keep : String × Value → Bool) (h : Entries.Alike p m₁ m₂)
    (byKey : ∀ {x y : String × Value}, x.1 = y.1 → keep x = keep y) :
    Entries.Alike p (m₁.filter keep) (m₂.filter keep) :=
  List.rel_filter (fun _ _ h => iff_of_eq (congrArg (· = true) (byKey h.1))) h

theorem erase (h : Entries.Alike p m₁ m₂) (key : String) :
    Entries.Alike p (m₁.erase key) (m₂.erase key) :=
  h.filter _ fun e => by rw [e]

theorem values (h : Entries.Alike p m₁ m₂) :
    Value.AllAlike p (m₁.map fun e => e.2) (m₂.map fun e => e.2) :=
  List.rel_map (fun _ _ h => h.2) h

end Entries.Alike

namespace Heap.Alike

variable (h : Heap.Alike p A h₁ h₂) (v : Value.Alike p v₁ v₂) (u : Value.Alike p u₁ u₂)
include h

/-! ### Text and numbers -/

theorem size_eq {a b : Nat} (paired : p.arrays a b) : (h₁.items a).size = (h₂.items b).size :=
  (h.items paired).length_eq

include v in
theorem shallowText_eq : h₁.shallowText v₁ = h₂.shallowText v₂ := by
  cases v with
  | closure paired => simp only [Heap.shallowText, (h.closure paired).name]
  | _ => rfl

/-- Paired values have the same text, to any depth. -/
theorem textTo_eq (depth : Nat) {v₁ v₂ : Value} (v : Value.Alike p v₁ v₂) :
    h₁.textTo depth v₁ = h₂.textTo depth v₂ := by
  induction depth generalizing v₁ v₂ with
  | zero => simp only [Heap.textTo, h.shallowText_eq v]
  | succ depth ih =>
    cases v with
    | array paired =>
      simp only [Heap.textTo]
      congr 1
      exact (h.items paired).map_eq fun item => by rw [item.isNullish_eq, ih item]
    | closure paired => exact h.shallowText_eq (.closure paired)
    | _ => rfl

include v in
theorem text_eq : h₁.text v₁ = h₂.text v₂ :=
  h.textTo_eq maxTextDepth v

/-- Texts take in paired arrays. -/
theorem textReads_eq {a b : Nat} (target : p.arrays a b) (depth : Nat) {v₁ v₂ : Value} (v : Value.Alike p v₁ v₂) :
    h₁.textReads a depth v₁ = h₂.textReads b depth v₂ := by
  induction depth generalizing v₁ v₂ with
  | zero => cases v <;> rfl
  | succ depth ih =>
    cases v with
    | @array c d paired =>
      have same : (c == a) = (d == b) := Bool.eq_iff_iff.2 (by simpa using p.arrays_inj paired target)
      simp only [Heap.textReads]
      rw [same, (h.items paired).any_eq fun item => ih item]
    | _ => rfl

/-- Corresponding values look the same to a given depth. -/
theorem debugTextTo_eq (depth : Nat) {v₁ v₂ : Value} (v : Value.Alike p v₁ v₂) :
    h₁.debugTextTo depth v₁ = h₂.debugTextTo depth v₂ := by
  induction depth generalizing v₁ v₂ with
  | zero =>
    cases v with
    | closure paired =>
      simp only [Heap.debugTextTo, Closure.displayName, (h.closure paired).name]
    | _ => rfl
  | succ depth ih =>
    cases v with
    | array paired =>
      simp only [Heap.debugTextTo]
      rw [(h.items paired).map_eq fun item => ih item]
    | object paired =>
      have entries := h.properties paired
      simp only [Heap.debugTextTo]
      rw [entries.isEmpty_eq, entries.map_eq fun {x y} h => by rw [h.1, ih h.2]]
    | closure paired =>
      simp only [Heap.debugTextTo, Closure.displayName, (h.closure paired).name]
    | _ => rfl

include v in
theorem debugText_eq : h₁.debugText v₁ = h₂.debugText v₂ :=
  h.debugTextTo_eq maxTextDepth v

include v in
theorem toNumber_eq : h₁.toNumber v₁ = h₂.toNumber v₂ := by
  cases v with
  | array paired => simp only [Heap.toNumber, h.text_eq (.array paired)]
  | object paired => simp only [Heap.toNumber, h.text_eq (.object paired)]
  | _ => rfl

include v in
theorem toInt32_eq : h₁.toInt32 v₁ = h₂.toInt32 v₂ := by
  simp only [Heap.toInt32, h.toNumber_eq v]

include v in
theorem toUInt32_eq : h₁.toUInt32 v₁ = h₂.toUInt32 v₂ := by
  simp only [Heap.toUInt32, h.toNumber_eq v]

/-! ### JSON text -/

/-- They are written as the same JSON text, or both fail. -/
theorem jsonAt_eq (layout : JsonLayout) (left : Nat) (level : Nat) {v₁ v₂ : Value}
    (v : Value.Alike p v₁ v₂) : h₁.jsonAt layout left level v₁ = h₂.jsonAt layout left level v₂ := by
  induction left generalizing level v₁ v₂ with
  | zero => rfl
  | succ left ih =>
    cases v with
    | array paired =>
      simp only [Heap.jsonAt]
      rw [(h.items paired).mapM_eq fun item => ih (level + 1) item]
    | object paired =>
      have shown := (h.properties paired)
      have kept : List.Forall₂ (Entry.Alike p)
          ((h₁.properties _).filter fun entry => !entry.2.isOmitted)
          ((h₂.properties _).filter fun entry => !entry.2.isOmitted) :=
        List.rel_filter (fun _ _ h => by simp [h.2.isOmitted_eq]) shown
      simp only [Heap.jsonAt]
      rw [kept.mapM_eq fun {x y} h => by rw [h.1, ih (level + 1) h.2]]
    | _ => rfl

include v in
theorem json_eq (indent : Option Nat) : h₁.json v₁ indent = h₂.json v₂ indent := by
  simp only [Heap.json, v.isOmitted_eq, h.jsonAt_eq _ _ _ v]

/-! ### Properties -/

include v in
theorem isFrozen_eq : h₁.isFrozen v₁ = h₂.isFrozen v₂ := by
  cases v with
  | array paired => exact h.arrayFrozen paired
  | object paired => exact h.objectFrozen paired
  | _ => rfl

theorem item {a b : Nat} (paired : p.arrays a b) (i : Nat) :
    Option.Rel (Value.Alike p) (h₁.items a)[i]? (h₂.items b)[i]? := by
  rw [← Array.getElem?_toList, ← Array.getElem?_toList]
  exact (h.items paired).getElem? i

include v in
/-- Corresponding containers have corresponding members. -/
theorem get (key : String) : Value.Alike p (h₁.get v₁ key) (h₂.get v₂ key) := by
  cases v with
  | string s =>
    simp only [Heap.get]
    split
    · exact .number _
    · split
      · split
        · exact .string _
        · exact .undefined
      · exact .undefined
  | array paired =>
    simp only [Heap.get]
    split
    · rw [Value.count, h.size_eq paired]; exact .number _
    · split
      · next i _ =>
        rw [Array.getD_eq_getD_getElem?, Array.getD_eq_getD_getElem?]
        have found := h.item paired i
        generalize (h₁.items _)[i]? = x at found ⊢
        generalize (h₂.items _)[i]? = y at found ⊢
        cases found with
        | none => exact .undefined
        | some found => exact found
      · exact .undefined
  | object paired =>
    simp only [Heap.get]
    have found := (h.properties paired).get? key
    generalize Entries.get? _ key = x at found ⊢
    generalize Entries.get? _ key = y at found ⊢
    cases found with
    | none => exact .undefined
    | some found => exact found
  | _ => exact .undefined

include v in
theorem has_eq (key : String) : h₁.has v₁ key = h₂.has v₂ key := by
  cases v with
  | array paired => simp only [Heap.has, h.size_eq paired]
  | object paired => exact (h.properties paired).contains_eq key
  | _ => rfl

include v in
theorem keys_eq : h₁.keys v₁ = h₂.keys v₂ := by
  cases v with
  | array paired => simp only [Heap.keys, h.size_eq paired]
  | object paired => exact (h.properties paired).keys_eq
  | _ => rfl

include v in
/-- Paired values have paired entries under the same keys. -/
theorem entries : Entries.Alike p (h₁.entries v₁) (h₂.entries v₂) := by
  cases v with
  | string s =>
    exact List.forall₂_same.2 fun entry mem => ⟨rfl, by
      obtain ⟨c, _, hc⟩ := List.mem_map.1 (List.of_mem_zip mem).2
      rw [← hc]
      exact .string _⟩
  | array paired =>
    simp only [Heap.entries, h.keys_eq (.array paired)]
    exact Value.AllAlike.zip_keys (h.items paired) _
  | object paired => exact h.properties paired
  | _ => exact .nil

include v in
theorem exceedsLimit_eq (key : String) : h₁.exceedsLimit key v₁ = h₂.exceedsLimit key v₂ := by
  simp only [Heap.exceedsLimit, h.toNumber_eq v]

include v in
theorem takesItem_eq (key : String) : h₁.takesItem key v₁ = h₂.takesItem key v₂ := by
  simp only [Heap.takesItem, h.exceedsLimit_eq v, h.toNumber_eq v]

include v u in
theorem canSet_eq (key : String) : h₁.canSet v₁ key u₁ = h₂.canSet v₂ key u₂ := by
  cases v with
  | array paired => simp only [Heap.canSet, h.arrayFrozen paired, h.takesItem_eq u]
  | object paired => simp only [Heap.canSet, h.objectFrozen paired]
  | _ => rfl

include v u in
theorem clashes_eq (key : String) : h₁.clashes v₁ key u₁ = h₂.clashes v₂ key u₂ := by
  cases v with
  | array paired => simp only [Heap.clashes, h.arrayFrozen paired, h.textReads_eq paired _ u]
  | _ => rfl

include v in
theorem canRemove_eq (key : String) : h₁.canRemove v₁ key = h₂.canRemove v₂ key := by
  cases v with
  | array paired => simp only [Heap.canRemove, h.arrayFrozen paired, h.size_eq paired]
  | object paired =>
    simp only [Heap.canRemove, h.objectFrozen paired, (h.properties paired).contains_eq]
  | _ => rfl

include v in
theorem arrayItems? : Option.Rel (fun as bs => Value.AllAlike p as.toList bs.toList)
    (h₁.arrayItems? v₁) (h₂.arrayItems? v₂) := by
  cases v with
  | array paired => exact .some (h.items paired)
  | _ => exact .none

/-! ### Operators -/

include v u in
theorem comparable : Value.Alike p (h₁.comparable v₁ u₁) (h₂.comparable v₂ u₂) := by
  simp only [Heap.comparable, v.isContainer_eq, u.isText_eq, h.text_eq v]
  split
  · exact .string _
  · exact v

include v u in
theorem looseEquals_eq : h₁.looseEquals v₁ u₁ = h₂.looseEquals v₂ u₂ := by
  simp only [Heap.looseEquals, v.isNullish_eq, u.isNullish_eq]
  split
  · rfl
  · have left := h.comparable v.unboxBool u.unboxBool
    have right := h.comparable u.unboxBool v.unboxBool
    have strict := left.strictEquals_eq right
    generalize h₁.comparable v₁.unboxBool u₁.unboxBool = a₁ at left strict ⊢
    generalize h₂.comparable v₂.unboxBool u₂.unboxBool = a₂ at left strict ⊢
    generalize h₁.comparable u₁.unboxBool v₁.unboxBool = b₁ at right strict ⊢
    generalize h₂.comparable u₂.unboxBool v₂.unboxBool = b₂ at right strict ⊢
    cases left <;> cases right <;> first | rfl | exact strict

include v in
theorem toPrimitive : Value.Alike p (h₁.toPrimitive v₁) (h₂.toPrimitive v₂) := by
  simp only [Heap.toPrimitive, v.concatenates_eq, h.text_eq v]
  split
  · exact .string _
  · exact v

include v u in
theorem compare_eq : h₁.compare v₁ u₁ = h₂.compare v₂ u₂ := by
  have left := h.toPrimitive v
  have right := h.toPrimitive u
  have leftNumber := h.toNumber_eq left
  have rightNumber := h.toNumber_eq right
  simp only [Heap.compare]
  generalize h₁.toPrimitive v₁ = a₁ at left leftNumber ⊢
  generalize h₂.toPrimitive v₂ = a₂ at left leftNumber ⊢
  generalize h₁.toPrimitive u₁ = b₁ at right rightNumber ⊢
  generalize h₂.toPrimitive u₂ = b₂ at right rightNumber ⊢
  cases left <;> cases right <;> simp only [leftNumber, rightNumber]

end Heap.Alike

/-! ### Outcomes of checks and operators -/

/-- Failures that are alike: a thrown value may be at another address. -/
inductive EvalError.Alike (p : Pairing) : EvalError → EvalError → Prop
  | thrown {v v' : Value} (value : Value.Alike p v v') : EvalError.Alike p (.thrown v) (.thrown v')
  | same {e : EvalError} (ne : ∀ v, e ≠ .thrown v) : EvalError.Alike p e e

theorem EvalError.Alike.mono {p q : Pairing} {e e' : EvalError} (h : EvalError.Alike p e e')
    (le : p.Le q) : EvalError.Alike q e e' := by
  cases h with
  | thrown value => exact .thrown (value.mono le)
  | same ne => exact .same ne

/-- Outcomes of a check that are alike. -/
inductive CheckAlike {α : Type} (p : Pairing) (R : α → α → Prop) :
    Except EvalError α → Except EvalError α → Prop
  | ok {a a' : α} (result : R a a') : CheckAlike p R (.ok a) (.ok a')
  | error {e e' : EvalError} (failure : EvalError.Alike p e e') : CheckAlike p R (.error e) (.error e')

theorem checkStringLength_alike (p : Pairing) (n : Nat) :
    CheckAlike p Eq (checkStringLength n) (checkStringLength n) := by
  unfold checkStringLength
  split
  · exact .error (.same nofun)
  · exact .ok rfl

theorem checkArrayLength_alike (p : Pairing) (n : Nat) :
    CheckAlike p Eq (checkArrayLength n) (checkArrayLength n) := by
  unfold checkArrayLength
  split
  · exact .error (.same nofun)
  · exact .ok rfl

namespace Heap.Alike

variable (h : Heap.Alike p A h₁ h₂) (v : Value.Alike p v₁ v₂) (u : Value.Alike p u₁ u₂)
include h v u

theorem add : CheckAlike p (Value.Alike p) (h₁.add v₁ u₁) (h₂.add v₂ u₂) := by
  simp only [Heap.add, v.concatenates_eq, u.concatenates_eq, h.text_eq v, h.text_eq u,
    h.toNumber_eq v, h.toNumber_eq u]
  split
  · unfold checkStringLength
    split
    · exact .error (.same nofun)
    · exact .ok (.string _)
  · exact .ok (.number _)

theorem isIn : CheckAlike p (Value.Alike p) (h₁.isIn v₁ u₁) (h₂.isIn v₂ u₂) := by
  simp only [Heap.isIn, u.isContainer_eq, h.text_eq v, h.text_eq u, h.has_eq u]
  split
  · exact .ok (.bool _)
  · exact .error (.same nofun)

/-- Operators give values that are alike. -/
theorem applyBinary (op : BinaryOp) :
    CheckAlike p (Value.Alike p) (h₁.applyBinary op v₁ u₁) (h₂.applyBinary op v₂ u₂) := by
  have number : ∀ f : Float → Float → Float, CheckAlike p (Value.Alike p)
      (.ok (.number (f (h₁.toNumber v₁) (h₁.toNumber u₁))))
      (.ok (.number (f (h₂.toNumber v₂) (h₂.toNumber u₂)))) := fun f => by
    rw [h.toNumber_eq v, h.toNumber_eq u]; exact .ok (.number _)
  have bits : ∀ f : Int32 → Int32 → Int32, CheckAlike p (Value.Alike p)
      (.ok (Heap.int32 (f (h₁.toInt32 v₁) (h₁.toInt32 u₁))))
      (.ok (Heap.int32 (f (h₂.toInt32 v₂) (h₂.toInt32 u₂)))) := fun f => by
    rw [h.toInt32_eq v, h.toInt32_eq u]; exact .ok (.number _)
  have order : ∀ f : Ordering → Bool, CheckAlike p (Value.Alike p)
      (.ok (.bool ((h₁.compare v₁ u₁).any f))) (.ok (.bool ((h₂.compare v₂ u₂).any f))) :=
    fun f => by rw [h.compare_eq v u]; exact .ok (.bool _)
  cases op with
  | add => exact h.add v u
  | sub | mul | div | rem | exp => exact number _
  | eq | notEq => simp only [Heap.applyBinary, h.looseEquals_eq v u]; exact .ok (.bool _)
  | strictEq | strictNotEq =>
    simp only [Heap.applyBinary, v.strictEquals_eq u]; exact .ok (.bool _)
  | lt | ltEq | gt | gtEq => exact order _
  | bitAnd | bitOr | bitXor => exact bits _
  | shl | shr | ushr =>
    simp only [Heap.applyBinary, Heap.shiftDistance, h.toInt32_eq v, h.toUInt32_eq v,
      h.toUInt32_eq u]
    exact .ok (.number _)
  | isIn => exact h.isIn v u
  | and | or =>
    simp only [Heap.applyBinary, v.isTruthy_eq]
    split
    · first | exact .ok u | exact .ok v
    · first | exact .ok v | exact .ok u
  | nullish =>
    simp only [Heap.applyBinary, v.isNullish_eq]
    split
    · exact .ok u
    · exact .ok v

end Heap.Alike

end BindScript
