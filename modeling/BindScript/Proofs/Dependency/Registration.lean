import BindScript.Dependency.TrackedApis
import Mathlib.Data.Fintype.EquivFin

/-!
# What is tracked after some registrations

That all methods of an object are tracked is noted as an empty list of methods, and the two ways to register write
to the same list. So what is tracked hangs on the order of the calls (`tracks_registered`):

- the registration of a whole object lasts until a method of the object is registered;
- the registration of a method lasts until the whole object is registered.

Registering a method after its object thus leaves only this method tracked (`method_untracks`). Where that does not
come last, whatever has been registered is tracked, and nothing else is.
-/

namespace BindScript.Dependency

/-- A call that registers something to be tracked. -/
inductive Registration
  | method (object name : String)
  | object (name : String)
  deriving DecidableEq, Repr

namespace TrackedApis

/-- Registers a method, or all methods of an object. -/
def register (apis : TrackedApis) : Registration → TrackedApis
  | .method object name => apis.addMethod object name
  | .object name => apis.addObject name

/-- What is tracked after some calls, the first of them first. -/
def registered (calls : List Registration) : TrackedApis :=
  calls.foldl register {}

end TrackedApis

open TrackedApis

/-! ## Calls that last -/

/-- A call is made, and none of the calls after it undoes it. -/
def Registration.Lasts (c : Registration) (undoes : Registration → Prop) (calls : List Registration) : Prop :=
  ∃ earlier later, calls = earlier ++ c :: later ∧ ∀ d ∈ later, ¬undoes d

/-- The whole object has been registered, and no method of it since then. -/
def Registration.LastsWhole (object : String) (calls : List Registration) : Prop :=
  Lasts (.object object) (fun d => ∃ name, d = .method object name) calls

/-- The method has been registered, and not the whole object since then. -/
def Registration.LastsMethod (object name : String) (calls : List Registration) : Prop :=
  Lasts (.method object name) (· = .object object) calls

namespace Registration

variable {c d : Registration} {undoes : Registration → Prop} {calls : List Registration} {o m : String}

theorem not_lasts_nil : ¬Lasts c undoes [] := by
  rintro ⟨earlier, later, same, -⟩
  exact absurd same.symm (List.append_ne_nil_of_right_ne_nil _ (List.cons_ne_nil _ _))

/-- One more call is the one in question, or it leaves it in force. -/
theorem lasts_concat : Lasts c undoes (calls ++ [d]) ↔ d = c ∨ Lasts c undoes calls ∧ ¬undoes d := by
  constructor
  · rintro ⟨earlier, later, same, kept⟩
    rcases List.eq_nil_or_concat later with rfl | ⟨init, last, rfl⟩
    · exact .inl (List.singleton_inj.1 (List.append_inj' same rfl).2)
    · rw [List.concat_eq_append, ← List.cons_append, ← List.append_assoc] at same
      obtain ⟨whole, single⟩ := List.append_inj' same rfl
      obtain rfl := List.singleton_inj.1 single
      exact .inr ⟨⟨earlier, init, whole, fun x mem => kept x (by simp [mem])⟩, kept d (by simp)⟩
  · rintro (rfl | ⟨⟨earlier, later, rfl, kept⟩, keeps⟩)
    · exact ⟨calls, [], rfl, List.forall_mem_nil _⟩
    · refine ⟨earlier, later ++ [d], by simp, fun x mem => ?_⟩
      rcases List.mem_append.1 mem with before | last
      · exact kept x before
      · rwa [List.mem_singleton.1 last]

theorem Lasts.mem (lasts : Lasts c undoes calls) : c ∈ calls := by
  obtain ⟨earlier, later, rfl, -⟩ := lasts
  exact List.mem_append_right _ List.mem_cons_self

/-- A call that nothing undoes lasts. -/
theorem lasts_of_mem (mem : c ∈ calls) (kept : ∀ d ∈ calls, ¬undoes d) : Lasts c undoes calls := by
  obtain ⟨earlier, later, rfl⟩ := List.append_of_mem mem
  exact ⟨earlier, later, rfl, fun d mem => kept d (by simp [mem])⟩

/-- There are more names than those of the methods that are registered. -/
theorem exists_unregistered (o : String) (calls : List Registration) : ∃ m, .method o m ∉ calls := by
  let names := calls.map fun
    | .method _ name => name
    | .object name => name
  obtain ⟨m, fresh⟩ := Infinite.exists_notMem_finset names.toFinset
  exact ⟨m, fun mem => fresh (List.mem_toFinset.2 (List.mem_map.2 ⟨_, mem, rfl⟩))⟩

end Registration

/-! ## What the table holds -/

namespace TrackedApis

open Registration

variable {apis : TrackedApis} {c : Registration} {o m : String} {ms : List String}

theorem registered_concat (calls : List Registration) (c : Registration) :
    registered (calls ++ [c]) = (registered calls).register c :=
  List.foldl_append

theorem get?_addMethod_self (apis : TrackedApis) (o m : String) :
    (apis.addMethod o m).objects.get? o = some (insertNew ((apis.objects.get? o).getD []) m) :=
  Entries.get?_insert_self ..

theorem get?_addObject_self (apis : TrackedApis) (o : String) : (apis.addObject o).objects.get? o = some [] :=
  Entries.get?_insert_self ..

/-- A call is about one object. -/
theorem get?_register_of_ne (method : ∀ m, c ≠ .method o m) (object : c ≠ .object o) :
    (apis.register c).objects.get? o = apis.objects.get? o := by
  cases c with
  | method other name => exact Entries.get?_insert_of_ne fun same => method name (same ▸ rfl)
  | object other => exact Entries.get?_insert_of_ne fun same => object (same ▸ rfl)

/-- An object is in the table without methods if its last registration was that of the whole object. -/
theorem get?_registered_nil (o : String) (calls : List Registration) :
    (registered calls).objects.get? o = some [] ↔ LastsWhole o calls := by
  induction calls using List.reverseRecOn with
  | nil => exact iff_of_false nofun not_lasts_nil
  | append_singleton calls c ih =>
    rw [registered_concat, LastsWhole, lasts_concat, ← LastsWhole, ← ih]
    by_cases whole : c = .object o
    · subst whole
      exact iff_of_true (get?_addObject_self ..) (.inl rfl)
    by_cases single : ∃ name, c = .method o name
    · obtain ⟨name, rfl⟩ := single
      have added := get?_addMethod_self (registered calls) o name
      refine iff_of_false (fun empty => ?_) (by simp)
      have absent : name ∉ ([] : List String) := List.not_mem_nil
      rw [← Option.some.inj (added.symm.trans empty)] at absent
      exact absent (mem_insertNew.2 (.inr rfl))
    · rw [get?_register_of_ne (fun name same => single ⟨name, same⟩) whole]
      simp [whole, single]

/-- A method is in the table if it has been registered since the whole object was. -/
theorem mem_registered (o m : String) (calls : List Registration) :
    (∃ ms, (registered calls).objects.get? o = some ms ∧ m ∈ ms) ↔ LastsMethod o m calls := by
  induction calls using List.reverseRecOn with
  | nil => exact iff_of_false nofun not_lasts_nil
  | append_singleton calls c ih =>
    rw [registered_concat, LastsMethod, lasts_concat, ← LastsMethod, ← ih]
    by_cases whole : c = .object o
    · subst whole
      refine iff_of_false ?_ (by simp)
      rintro ⟨ms, found, mem⟩
      rw [Option.some.inj (found.symm.trans (get?_addObject_self ..))] at mem
      cases mem
    by_cases single : ∃ name, c = .method o name
    · obtain ⟨name, rfl⟩ := single
      have added := get?_addMethod_self (registered calls) o name
      have listed : (∃ ms, (registered calls).objects.get? o = some ms ∧ m ∈ ms) ↔
          m ∈ ((registered calls).objects.get? o).getD [] := by
        cases (registered calls).objects.get? o <;> simp
      rw [listed]
      simp [register, added, mem_insertNew, eq_comm, or_comm]
    · rw [get?_register_of_ne (fun name same => single ⟨name, same⟩) whole]
      have other : c ≠ .method o m := fun same => single ⟨m, same⟩
      simp [whole, other]

/-- The calls of a method are tracked if its object is in the table without methods, or with this one. -/
theorem tracks_iff (apis : TrackedApis) (o m : String) : apis.tracks o m = true ↔
    apis.objects.get? o = some [] ∨ ∃ ms, apis.objects.get? o = some ms ∧ m ∈ ms := by
  unfold tracks
  cases apis.objects.get? o with
  | none => simp
  | some ms => simp [List.isEmpty_iff]

/-- A method is tracked if its object has been registered and no method of it since then, or if the method has been
registered and not the object since then. So all that has been registered for an object is tracked, and nothing else,
just where no method is registered after the object has been for the last time. -/
theorem tracks_registered (calls : List Registration) (o : String) :
    (∀ m, (registered calls).tracks o m = true ↔ LastsWhole o calls ∨ LastsMethod o m calls) ∧
      ((∀ m, (registered calls).tracks o m = true ↔ .object o ∈ calls ∨ .method o m ∈ calls) ↔
        .object o ∉ calls ∨ LastsWhole o calls) := by
  have exact_ : ∀ m, (registered calls).tracks o m = true ↔ LastsWhole o calls ∨ LastsMethod o m calls := fun m => by
    rw [tracks_iff, get?_registered_nil, mem_registered]
  refine ⟨exact_, fun all => ?_, fun kept m => ?_⟩
  · -- a method that is in none of the calls can be tracked for the sake of the whole object only
    obtain ⟨m, fresh⟩ := exists_unregistered o calls
    refine or_iff_not_imp_left.2 fun object => ?_
    have tracked := (all m).2 (.inl (not_not.1 object))
    exact ((exact_ m).1 tracked).resolve_right fun lasts => fresh lasts.mem
  · rw [exact_]
    constructor
    · exact Or.imp Lasts.mem Lasts.mem
    · rintro (object | method)
      · exact .inl (kept.resolve_left (not_not.2 object))
      · refine kept.elim (fun never => .inr (lasts_of_mem method ?_)) .inl
        rintro d mem rfl
        exact never mem

/-- A method that is registered after its object leaves the other methods of the object untracked. -/
theorem method_untracks : .object "store" ∈ [Registration.object "store", .method "store" "get"] ∧
    (registered [.object "store"]).tracks "store" "set" = true ∧
    (registered [.object "store", .method "store" "get"]).tracks "store" "set" = false :=
  ⟨List.mem_cons_self, rfl, rfl⟩

end TrackedApis

end BindScript.Dependency
