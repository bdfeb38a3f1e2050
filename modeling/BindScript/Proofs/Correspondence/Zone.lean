import BindScript.Evaluation.Basic
import BindScript.Proofs.Correspondence.Reading

/-!
# Parts of one heap

Two runs that go through the same heaps correspond by a pairing in which addresses stand for themselves.
A `Zone` says for which addresses this is so: those of one part of the heap, outside of which the two runs
need not agree. Under the pairing of a zone, values are alike exactly when they are equal and refer only to
the zone (`Zone.alike_iff`), and likewise for lists and entries.
-/

namespace BindScript

/-- A part of a heap. -/
structure Zone where
  arrays : Nat → Prop
  objects : Nat → Prop
  closures : Nat → Prop
  cells : Nat → Prop

namespace Zone

/-- What a value refers to is in the zone. -/
def Holds (z : Zone) : Value → Prop
  | .array a => z.arrays a
  | .object o => z.objects o
  | .closure c => z.closures c
  | _ => True

/-- Every address of the zone stands for itself. -/
def pairing (z : Zone) : Pairing where
  arrays a b := a = b ∧ z.arrays a
  objects a b := a = b ∧ z.objects a
  closures a b := a = b ∧ z.closures a
  cells a b := a = b ∧ z.cells a
  arrays_inj := by
    rintro a b a' b' ⟨rfl, -⟩ ⟨rfl, -⟩
    exact Iff.rfl
  objects_inj := by
    rintro a b a' b' ⟨rfl, -⟩ ⟨rfl, -⟩
    exact Iff.rfl
  closures_inj := by
    rintro a b a' b' ⟨rfl, -⟩ ⟨rfl, -⟩
    exact Iff.rfl

/-- A zone inside of another. -/
structure Le (y z : Zone) : Prop where
  arrays : ∀ {a : Nat}, y.arrays a → z.arrays a
  objects : ∀ {o : Nat}, y.objects o → z.objects o
  closures : ∀ {c : Nat}, y.closures c → z.closures c
  cells : ∀ {c : Nat}, y.cells c → z.cells c

variable {x y z : Zone} {u v : Value} {h : Heap}

theorem Le.refl (z : Zone) : z.Le z :=
  ⟨id, id, id, id⟩

theorem Le.trans (first : x.Le y) (second : y.Le z) : x.Le z :=
  ⟨fun mem => second.arrays (first.arrays mem), fun mem => second.objects (first.objects mem),
    fun mem => second.closures (first.closures mem), fun mem => second.cells (first.cells mem)⟩

theorem Le.pairing (le : y.Le z) : y.pairing.Le z.pairing :=
  ⟨fun p => ⟨p.1, le.arrays p.2⟩, fun p => ⟨p.1, le.objects p.2⟩, fun p => ⟨p.1, le.closures p.2⟩,
    fun p => ⟨p.1, le.cells p.2⟩⟩

theorem Le.holds (le : y.Le z) (holds : y.Holds v) : z.Holds v := by
  cases v with
  | array a => exact le.arrays holds
  | object o => exact le.objects holds
  | closure c => exact le.closures holds
  | _ => trivial

/-- The containers and closures of which something holds, and no cells. -/
def of (holds : Value → Prop) : Zone where
  arrays a := holds (.array a)
  objects o := holds (.object o)
  closures c := holds (.closure c)
  cells _ := False

theorem holds_of {P : Value → Prop} (holds : P v) : (of P).Holds v := by
  cases v with
  | array a => exact holds
  | object o => exact holds
  | closure c => exact holds
  | _ => trivial

theorem of_holds {P : Value → Prop} (container : v.isContainer = true) (holds : (of P).Holds v) : P v := by
  cases v with
  | array a => exact holds
  | object o => exact holds
  | _ => cases container

/-- The zone with one more container or closure in it. -/
def add (z : Zone) (v : Value) : Zone where
  arrays a := z.arrays a ∨ .array a = v
  objects o := z.objects o ∨ .object o = v
  closures c := z.closures c ∨ .closure c = v
  cells := z.cells

theorem le_add (z : Zone) (v : Value) : z.Le (z.add v) :=
  ⟨.inl, .inl, .inl, id⟩

/-- The zone with one more cell in it. -/
def addCell (z : Zone) (cell : Nat) : Zone :=
  { z with cells := fun c => z.cells c ∨ c = cell }

theorem le_addCell (z : Zone) (cell : Nat) : z.Le (z.addCell cell) :=
  ⟨id, id, id, .inl⟩

theorem holds_add : (z.add v).Holds u ↔ z.Holds u ∨ u = v := by
  cases u with
  | array a => exact Iff.rfl
  | object o => exact Iff.rfl
  | closure c => exact Iff.rfl
  | _ => exact ⟨fun _ => .inl trivial, fun _ => trivial⟩

/-- In a zone a value is paired with itself only, if the zone holds it. -/
theorem alike_iff : Value.Alike z.pairing u v ↔ u = v ∧ z.Holds v := by
  constructor
  · intro alike
    cases alike with
    | array paired => exact ⟨congrArg _ paired.1, paired.1 ▸ paired.2⟩
    | object paired => exact ⟨congrArg _ paired.1, paired.1 ▸ paired.2⟩
    | closure paired => exact ⟨congrArg _ paired.1, paired.1 ▸ paired.2⟩
    | _ => exact ⟨rfl, trivial⟩
  · rintro ⟨rfl, holds⟩
    cases u with
    | array a => exact .array ⟨rfl, holds⟩
    | object o => exact .object ⟨rfl, holds⟩
    | closure c => exact .closure ⟨rfl, holds⟩
    | _ => constructor

/-- What is in the zone is like itself. -/
theorem Holds.alike (holds : z.Holds v) : Value.Alike z.pairing v v :=
  alike_iff.2 ⟨rfl, holds⟩

theorem allAlike_iff {us vs : List Value} :
    Value.AllAlike z.pairing us vs ↔ us = vs ∧ ∀ v ∈ vs, z.Holds v := by
  constructor
  · intro alike
    induction alike with
    | nil => exact ⟨rfl, nofun⟩
    | cons head _ ih =>
      obtain ⟨rfl, holds⟩ := alike_iff.1 head
      exact ⟨congrArg _ ih.1, List.forall_mem_cons.2 ⟨holds, ih.2⟩⟩
  · rintro ⟨rfl, holds⟩
    exact List.forall₂_same.2 fun v mem => (holds v mem).alike

theorem entriesAlike_iff {ms ns : Entries Value} :
    Entries.Alike z.pairing ms ns ↔ ms = ns ∧ ∀ v ∈ ns.map (fun entry => entry.2), z.Holds v := by
  constructor
  · intro alike
    refine ⟨?_, (allAlike_iff.1 alike.values).2⟩
    refine List.forall₂_eq_eq_eq ▸ alike.imp fun x y entry => ?_
    exact Prod.ext entry.1 (alike_iff.1 entry.2).1
  · rintro ⟨rfl, holds⟩
    exact List.forall₂_same.2 fun entry mem =>
      ⟨rfl, (holds _ (List.mem_map_of_mem mem)).alike⟩

/-- In a zone bindings are paired with themselves only. -/
theorem bindingsAlike_iff {bs cs : List Binding} :
    List.Forall₂ (Binding.Alike z.pairing) bs cs ↔ bs = cs ∧ ∀ b ∈ cs, z.cells b.cell := by
  constructor
  · intro alike
    induction alike with
    | nil => exact ⟨rfl, nofun⟩
    | @cons b c _ _ head _ ih =>
      obtain ⟨name, cell, kind⟩ := b
      obtain ⟨name', cell', kind'⟩ := c
      obtain ⟨rfl, rfl, rfl, mem⟩ := head
      exact ⟨congrArg _ ih.1, List.forall_mem_cons.2 ⟨mem, ih.2⟩⟩
  · rintro ⟨rfl, mem⟩
    exact List.forall₂_same.2 fun b here => ⟨rfl, rfl, rfl, mem b here⟩

theorem eq_of_closureAlike {A : Access} {c d : Closure} (alike : Closure.Alike z.pairing A c d) :
    c = d := by
  obtain ⟨name, definition, captured⟩ := c
  obtain ⟨name', definition', captured'⟩ := d
  obtain ⟨rfl, rfl, bindings, -⟩ := alike
  have same : captured = captured' := Array.toList_inj.1 (bindingsAlike_iff.1 bindings).1
  rw [same]

/-- A zone that holds what its containers, closures and cells refer to is like itself. -/
theorem heapAlike {A : Access}
    (children : ∀ v, v.isContainer = true → z.Holds v → ∀ u ∈ h.children v, z.Holds u)
    (closures : ∀ c, z.closures c → Closure.Alike z.pairing A (h.closureAt c) (h.closureAt c))
    (cells : ∀ c, z.cells c → z.Holds (h.cellAt c)) : Heap.Alike z.pairing A h h where
  items := by
    rintro a b ⟨rfl, mem⟩
    exact allAlike_iff.2 ⟨rfl, children (.array a) rfl mem⟩
  arrayFrozen := by
    rintro a b ⟨rfl, -⟩
    rfl
  properties := by
    rintro a b ⟨rfl, mem⟩
    exact entriesAlike_iff.2 ⟨rfl, children (.object a) rfl mem⟩
  objectFrozen := by
    rintro a b ⟨rfl, -⟩
    rfl
  closure := by
    rintro a b ⟨rfl, mem⟩
    exact closures a mem
  cell := by
    rintro a b ⟨rfl, mem⟩
    exact (cells a mem).alike

end Zone

/-- What a context refers to is in a zone. -/
structure Context.Inside (ctx : Context) (z : Zone) : Prop where
  locals : z.Holds ctx.locals
  app : z.Holds ctx.app
  globals : ∀ entry ∈ ctx.globals, z.Holds entry.2

/-- What a context inside of a zone knows by a name is the same in heaps that are alike there. -/
theorem Context.Inside.lookup {ctx : Context} {z : Zone} {A : Access} {h₁ h₂ : Heap} (inside : ctx.Inside z)
    (alike : Heap.Alike z.pairing A h₁ h₂) (name : String) :
    Option.Rel (Value.Alike z.pairing) (ctx.lookup h₁ name) (ctx.lookup h₂ name) := by
  have locals := inside.locals.alike
  have app := inside.app.alike
  unfold Context.lookup
  rw [alike.has_eq locals name, alike.has_eq app name]
  split
  · exact .some (alike.get locals name)
  · split
    · exact .some (alike.get app name)
    · refine Entries.Alike.get? (Zone.entriesAlike_iff.2 ⟨rfl, fun v mem => ?_⟩) name
      obtain ⟨entry, there, rfl⟩ := List.mem_map.1 mem
      exact inside.globals entry there

/-! ## Changes to the same container -/

namespace Heap

variable {h : Heap}

/-- A change of items is decided by what it makes of the items that are there. -/
theorem modifyItems_congr {a : Nat} {f g : Array Value → Array Value}
    (same : f (h.items a) = g (h.items a)) : h.modifyItems a f = h.modifyItems a g := by
  have arrays : (h.modifyItems a f).arrays = (h.modifyItems a g).arrays := by
    refine Array.ext (by simp [modifyItems, modifyArray]) fun i hi hi' => ?_
    simp only [modifyItems, modifyArray, Array.getElem_modify]
    split
    next here =>
      subst here
      have there : a < h.arrays.size := by simpa [modifyItems, modifyArray] using hi
      simp only [items, arrayAt, Array.getD_eq_getD_getElem?, Array.getElem?_eq_getElem there,
        Option.getD_some] at same
      rw [same]
    next => rfl
  simp only [modifyItems, modifyArray] at arrays ⊢
  rw [arrays]

/-- Only what becomes of the properties that are there matters. -/
theorem modifyProperties_congr {o : Nat} {f g : Entries Value → Entries Value}
    (same : f (h.properties o) = g (h.properties o)) :
    h.modifyProperties o f = h.modifyProperties o g := by
  have objects : (h.modifyProperties o f).objects = (h.modifyProperties o g).objects := by
    refine Array.ext (by simp [modifyProperties, modifyObject]) fun i hi hi' => ?_
    simp only [modifyProperties, modifyObject, Array.getElem_modify]
    split
    next here =>
      subst here
      have there : o < h.objects.size := by simpa [modifyProperties, modifyObject] using hi
      simp only [properties, objectAt, Array.getD_eq_getD_getElem?, Array.getElem?_eq_getElem there,
        Option.getD_some] at same
      rw [same]
    next => rfl
  simp only [modifyProperties, modifyObject] at objects ⊢
  rw [objects]

end Heap

end BindScript
