import BindScript.Proofs.Correspondence.Interpreter
import BindScript.Proofs.Correspondence.Zone
import BindScript.Proofs.Frozen.Sound

/-!
# Contexts that agree on what is read

Two contexts over one heap know the same values by some names. Code that reads no other names, and writes
none, then does the same in both (`Context.Twins.evaluate_eq`).

The invariant is `Shares`: a zone of the heap that holds all values the run can get at. Everything inside of
it refers to the zone again, both contexts look a name up to the same value in it, and no container that a
context reads names from is in it. The last part is what makes lookups last: a run writes to the zone only,
so it cannot change what a name means. A local context that both share may be in the zone after all, because
its keys only become more.
-/

namespace BindScript

/-- The containers that a context reads names from. -/
def Context.places (c : Context) : List Value :=
  [c.locals, c.app]

/-- A zone that both contexts have in common. -/
structure Shares (c₁ c₂ : Context) (A : Access) (z : Zone) (h : Heap) : Prop where
  children : ∀ v, v.isContainer = true → z.Holds v → ∀ u ∈ h.children v, z.Holds u
  closures : ∀ c, z.closures c → Closure.Alike z.pairing A (h.closureAt c) (h.closureAt c)
  cells : ∀ c, z.cells c → z.Holds (h.cellAt c)
  lookup : ∀ n, A.reads n → c₁.lookup h n = c₂.lookup h n ∧ ∀ v, c₁.lookup h n = some v → z.Holds v
  allocated : ∀ v ∈ c₁.places ++ c₂.places, h.Allocates v
  apart : ∀ v ∈ c₁.places ++ c₂.places, v.isContainer = true → z.Holds v →
    (∃ o, v = .object o) ∧ c₁.locals = v ∧ c₂.locals = v

/-- A change of the heap that leaves alone what is outside of a zone, and takes no keys out of objects. New
addresses may join the zone. -/
structure Zone.Writes (y z : Zone) (h h' : Heap) : Prop where
  le : y.Le z
  allocates : ∀ v, h.Allocates v → h'.Allocates v
  joins : ∀ v, v.isContainer = true → h.Allocates v → z.Holds v → y.Holds v
  items : ∀ a < h.arrays.size, ¬ y.arrays a → h'.items a = h.items a
  properties : ∀ o < h.objects.size, ¬ y.objects o → h'.properties o = h.properties o
  keys : ∀ o < h.objects.size, (h.properties o).keys ⊆ (h'.properties o).keys

/-- What is read under a key, if anything is there. -/
def Heap.KeepsAt (h h' : Heap) (v : Value) (key : String) : Prop :=
  h'.has v key = h.has v key ∧ (h.has v key = true → h'.get v key = h.get v key)

/-! ## What names mean after a change -/

/-- A name means the same if it does in both places. -/
theorem Context.lookup_keeps {c : Context} {h h' : Heap} {n : String} (locals : h.KeepsAt h' c.locals n)
    (app : h.KeepsAt h' c.app n) : c.lookup h' n = c.lookup h n := by
  unfold Context.lookup
  rw [locals.1, app.1]
  by_cases inLocals : h.has c.locals n = true
  · rw [if_pos inLocals, if_pos inLocals, locals.2 inLocals]
  · rw [if_neg inLocals, if_neg inLocals]
    by_cases inApp : h.has c.app n = true
    · rw [if_pos inApp, if_pos inApp, app.2 inApp]
    · rw [if_neg inApp, if_neg inApp]

namespace Zone.Writes

variable {y z : Zone} {h h' : Heap} {v : Value}

/-- A place outside of the zone is read as before. -/
theorem keepsAt (writes : y.Writes z h h') (there : h.Allocates v)
    (outside : v.isContainer = true → ¬ y.Holds v) (n : String) : h.KeepsAt h' v n := by
  cases v with
  | array a =>
    have same := writes.items a there (outside rfl)
    simp only [Heap.KeepsAt, Heap.has, Heap.get, same]
    exact ⟨trivial, fun _ => trivial⟩
  | object o =>
    have same := writes.properties o there (outside rfl)
    simp only [Heap.KeepsAt, Heap.has, Heap.get, same]
    exact ⟨trivial, fun _ => trivial⟩
  | _ => exact ⟨rfl, fun has => absurd has Bool.false_ne_true⟩

/-- What an object has under a key, it has afterwards. -/
theorem has_object {o : Nat} {n : String} (writes : y.Writes z h h') (there : h.Allocates (.object o))
    (has : h.has (.object o) n = true) : h'.has (.object o) n = true :=
  Entries.contains_iff_mem_keys.2 (writes.keys o there (Entries.contains_iff_mem_keys.1 has))

end Zone.Writes

namespace Shares

variable {c₁ c₂ : Context} {A : Access} {y z : Zone} {h h' : Heap} {n : String} {v : Value}

theorem alike (shares : Shares c₁ c₂ A z h) : Heap.Alike z.pairing A h h :=
  Zone.heapAlike shares.children shares.closures shares.cells

theorem mem_left_locals : c₁.locals ∈ c₁.places ++ c₂.places := by
  simp [Context.places]

theorem mem_left_app : c₁.app ∈ c₁.places ++ c₂.places := by
  simp [Context.places]

theorem mem_right_locals : c₂.locals ∈ c₁.places ++ c₂.places := by
  simp [Context.places]

theorem mem_right_app : c₂.app ∈ c₁.places ++ c₂.places := by
  simp [Context.places]

/-- Both contexts still agree on a name after a change inside the zone. Either the shared local context has
the name now, or every place is read as before. -/
theorem lookup_writes (shares : Shares c₁ c₂ A y h) (writes : y.Writes z h h')
    (alike : Heap.Alike z.pairing A h' h') (reads : A.reads n) :
    c₁.lookup h' n = c₂.lookup h' n ∧ ∀ v, c₁.lookup h' n = some v → z.Holds v := by
  -- Either the name is a local variable of an object that both have, or neither run can have added it to what it looks
  -- in.
  by_cases shared : c₁.locals = c₂.locals ∧ y.Holds c₁.locals ∧ h'.has c₁.locals n = true
  · obtain ⟨same, inside, has⟩ := shared
    have left : c₁.lookup h' n = some (h'.get c₁.locals n) := by
      rw [Context.lookup, if_pos has]
    have right : c₂.lookup h' n = some (h'.get c₁.locals n) := by
      rw [Context.lookup, ← same, if_pos has]
    refine ⟨left.trans right.symm, fun v found => ?_⟩
    obtain rfl := Option.some.inj (left.symm.trans found)
    exact (Zone.alike_iff.1 (alike.get (writes.le.holds inside).alike n)).2
  · have keeps : ∀ v ∈ c₁.places ++ c₂.places, h.KeepsAt h' v n := by
      intro v place
      have there := shares.allocated v place
      by_cases inside : v.isContainer = true ∧ y.Holds v
      · obtain ⟨⟨o, rfl⟩, left, right⟩ := shares.apart v place inside.1 inside.2
        have absent : h'.has (.object o) n = false := by
          by_contra has
          refine shared ⟨left.trans right.symm, left ▸ inside.2, ?_⟩
          rw [left]
          simpa using has
        have absentBefore : h.has (.object o) n = false := by
          by_contra has
          rw [writes.has_object there (by simpa using has)] at absent
          cases absent
        refine ⟨absent.trans absentBefore.symm, fun has => ?_⟩
        rw [absentBefore] at has
        cases has
      · exact writes.keepsAt there (fun container holds => inside ⟨container, holds⟩) n
    have left : c₁.lookup h' n = c₁.lookup h n :=
      Context.lookup_keeps (keeps _ mem_left_locals) (keeps _ mem_left_app)
    have right : c₂.lookup h' n = c₂.lookup h n :=
      Context.lookup_keeps (keeps _ mem_right_locals) (keeps _ mem_right_app)
    obtain ⟨same, inside⟩ := shares.lookup n reads
    rw [left, right]
    exact ⟨same, fun v found => writes.le.holds (inside v found)⟩

/-- The zone is shared after a change inside of it. -/
theorem writes (shares : Shares c₁ c₂ A y h) (writes : y.Writes z h h')
    (children : ∀ v, v.isContainer = true → z.Holds v → ∀ u ∈ h'.children v, z.Holds u)
    (closures : ∀ c, z.closures c → Closure.Alike z.pairing A (h'.closureAt c) (h'.closureAt c))
    (cells : ∀ c, z.cells c → z.Holds (h'.cellAt c)) : Shares c₁ c₂ A z h' where
  children := children
  closures := closures
  cells := cells
  lookup _ reads := shares.lookup_writes writes (Zone.heapAlike children closures cells) reads
  allocated v place := writes.allocates v (shares.allocated v place)
  apart v place container inside :=
    shares.apart v place container (writes.joins v container (shares.allocated v place) inside)

/-! ## Operations -/

/-- A change that concerns one container: a new one, or one of the zone that loses no keys. -/
theorem of_one {one : Value} (container : one.isContainer = true) (shares : Shares c₁ c₂ A y h)
    (grows : ∀ v, h.Allocates v → h'.Allocates v)
    (items : ∀ a, .array a ≠ one → h'.items a = h.items a)
    (properties : ∀ o, .object o ≠ one → h'.properties o = h.properties o)
    (mine : h.Allocates one → y.Holds one)
    (keys : ∀ o, .object o = one → h.Allocates one → (h.properties o).keys ⊆ (h'.properties o).keys)
    (contents : ∀ u ∈ h'.children one, y.Holds u)
    (closures : h'.closures = h.closures) (cells : h'.cells = h.cells) :
    Shares c₁ c₂ A (y.add one) h' := by
  have le : y.Le (y.add one) := y.le_add one
  have writes : y.Writes (y.add one) h h' := by
    refine ⟨le, grows, fun v _ there holds => ?_, fun a there outside => ?_, fun o there outside => ?_,
      fun o there => ?_⟩
    · rcases Zone.holds_add.1 holds with old | rfl
      · exact old
      · exact mine there
    · refine items a fun same => outside ?_
      have holds : y.Holds (.array a) := same ▸ mine (same ▸ there)
      exact holds
    · refine properties o fun same => outside ?_
      have holds : y.Holds (.object o) := same ▸ mine (same ▸ there)
      exact holds
    · by_cases same : Value.object o = one
      · exact keys o same (same ▸ there)
      · rw [properties o same]
        exact List.Subset.refl _
  refine shares.writes writes (fun v container holds u mem => le.holds ?_) (fun c inside => ?_)
    fun c inside => ?_
  · by_cases same : v = one
    · exact contents u (same ▸ mem)
    · have old : y.Holds v := (Zone.holds_add.1 holds).resolve_right same
      have unchanged : h'.children v = h.children v := by
        cases v with
        | array a => exact congrArg Array.toList (items a same)
        | object o => exact congrArg (List.map _) (properties o same)
        | _ => rfl
      exact shares.children v container old u (unchanged ▸ mem)
  · have old : y.closures c := inside.resolve_right fun same => by
      rw [← same] at container
      cases container
    rw [show h'.closureAt c = h.closureAt c by simp only [Heap.closureAt, closures]]
    exact (shares.closures c old).mono le.pairing
  · rw [show h'.cellAt c = h.cellAt c by simp only [Heap.cellAt, cells]]
    exact le.holds (shares.cells c inside)

/-- A change that leaves what containers hold. -/
theorem of_same (shares : Shares c₁ c₂ A y h) (le : y.Le z) (grows : ∀ v, h.Allocates v → h'.Allocates v)
    (joins : ∀ v, v.isContainer = true → z.Holds v → y.Holds v)
    (items : ∀ a, h'.items a = h.items a) (properties : ∀ o, h'.properties o = h.properties o)
    (closures : ∀ c, z.closures c → Closure.Alike z.pairing A (h'.closureAt c) (h'.closureAt c))
    (cells : ∀ c, z.cells c → z.Holds (h'.cellAt c)) : Shares c₁ c₂ A z h' := by
  have writes : y.Writes z h h' :=
    ⟨le, grows, fun v container _ => joins v container, fun a _ _ => items a, fun o _ _ => properties o,
      fun o _ => by rw [properties o]; exact List.Subset.refl _⟩
  refine shares.writes writes (fun v container holds u mem => le.holds ?_) closures cells
  have unchanged : h'.children v = h.children v := by
    cases v with
    | array a => exact congrArg Array.toList (items a)
    | object o => exact congrArg (List.map _) (properties o)
    | _ => rfl
  exact shares.children v container (joins v container holds) u (unchanged ▸ mem)

/-- A new array is shared, if all its items are. -/
theorem newArray {items : Array Value} (shares : Shares c₁ c₂ A y h) (inside : ∀ v ∈ items.toList, y.Holds v) :
    Shares c₁ c₂ A (y.add (.array h.arrays.size)) (h.newArray items).2 := by
  have self := Heap.arrayAt_newArray_self h items
  refine shares.of_one rfl (fun v there => ?_) (fun a ne => ?_) (fun _ _ => rfl)
    (fun there => absurd there (Nat.lt_irrefl _)) nofun (fun u mem => ?_) rfl rfl
  · cases v with
    | array a =>
      have there : a < h.arrays.size := there
      show a < (h.arrays.push _).size
      rw [Array.size_push]
      exact Nat.lt_succ_of_lt there
    | _ => exact there
  · exact congrArg ArrayData.items (Heap.arrayAt_newArray_of_ne fun same => ne (congrArg _ same))
  · rw [Heap.children, Heap.items, self] at mem
    exact inside u mem

/-- An object that holds only shared values is shared, too. -/
theorem newObject {m : Entries Value} (shares : Shares c₁ c₂ A y h)
    (inside : ∀ v ∈ m.map (fun entry => entry.2), y.Holds v) :
    Shares c₁ c₂ A (y.add (.object h.objects.size)) (h.newObject m).2 := by
  have self := Heap.objectAt_newObject_self h m
  refine shares.of_one rfl (fun v there => ?_) (fun _ _ => rfl) (fun o ne => ?_)
    (fun there => absurd there (Nat.lt_irrefl _)) (fun o _ there => absurd there (Nat.lt_irrefl _))
    (fun u mem => ?_) rfl rfl
  · cases v with
    | object o =>
      have there : o < h.objects.size := there
      show o < (h.objects.push _).size
      rw [Array.size_push]
      exact Nat.lt_succ_of_lt there
    | _ => exact there
  · exact congrArg ObjectData.properties (Heap.objectAt_newObject_of_ne fun same => ne (congrArg _ same))
  · rw [Heap.children, Heap.properties, self] at mem
    exact inside u mem

/-- Items of a shared array may be exchanged for other shared values, if it is not frozen. -/
theorem modifyItems {a : Nat} {change : Array Value → Array Value} (shares : Shares c₁ c₂ A y h)
    (there : y.arrays a) (unfrozen : (h.arrayAt a).frozen = false)
    (inside : ∀ v ∈ (change (h.items a)).toList, y.Holds v) :
    Shares c₁ c₂ A (y.add (.array a)) (h.modifyItems a change) := by
  have self := Heap.arrayAt_modifyArray_self (Heap.lt_size_of_unfrozen_array unfrozen)
    fun d => { d with items := change d.items }
  refine shares.of_one rfl (fun v allocated => ?_) (fun b ne => ?_) (fun _ _ => rfl) (fun _ => there) nofun
    (fun u mem => ?_) rfl rfl
  · cases v with
    | array b =>
      have allocated : b < h.arrays.size := allocated
      show b < (h.arrays.modify a _).size
      rw [Array.size_modify]
      exact allocated
    | _ => exact allocated
  · exact congrArg ArrayData.items (Heap.arrayAt_modifyArray_of_ne (fun same => ne (congrArg _ same)) _)
  · rw [Heap.children, Heap.items, Heap.modifyItems, self] at mem
    exact inside u mem

/-- So may those of a shared object, while its keys stay. -/
theorem modifyProperties {o : Nat} {change : Entries Value → Entries Value} (shares : Shares c₁ c₂ A y h)
    (there : y.objects o) (unfrozen : (h.objectAt o).frozen = false)
    (keys : (h.properties o).keys ⊆ (change (h.properties o)).keys)
    (inside : ∀ v ∈ (change (h.properties o)).map (fun entry => entry.2), y.Holds v) :
    Shares c₁ c₂ A (y.add (.object o)) (h.modifyProperties o change) := by
  have self := Heap.objectAt_modifyObject_self (Heap.lt_size_of_unfrozen_object unfrozen)
    fun d => { d with properties := change d.properties }
  have changed : (h.modifyProperties o change).properties o = change (h.properties o) :=
    congrArg ObjectData.properties self
  refine shares.of_one rfl (fun v allocated => ?_) (fun _ _ => rfl) (fun p ne => ?_) (fun _ => there)
    (fun p same _ => ?_) (fun u mem => ?_) rfl rfl
  · cases v with
    | object p =>
      have allocated : p < h.objects.size := allocated
      show p < (h.objects.modify o _).size
      rw [Array.size_modify]
      exact allocated
    | _ => exact allocated
  · exact congrArg ObjectData.properties
      (Heap.objectAt_modifyObject_of_ne (fun same => ne (congrArg _ same)) _)
  · obtain rfl := Value.object.inj same
    rw [changed]
    exact keys
  · rw [Heap.children, changed] at mem
    exact inside u mem

/-- A new closure joins the zone. -/
theorem newClosure {c : Closure} (shares : Shares c₁ c₂ A y h) (own : Closure.Alike y.pairing A c c) :
    Shares c₁ c₂ A (y.add (.closure h.closures.size)) (h.newClosure c).2 := by
  have le := y.le_add (.closure h.closures.size)
  refine shares.of_same le (fun _ there => there) (fun v container holds => ?_) (fun _ => rfl) (fun _ => rfl)
    (fun k inside => ?_) fun k inside => le.holds (shares.cells k inside)
  · refine (Zone.holds_add.1 holds).resolve_right fun same => ?_
    rw [same] at container
    cases container
  · by_cases new : k = h.closures.size
    · have at_new : (h.newClosure c).2.closureAt k = c := by
        simp [Heap.newClosure, Heap.closureAt, new]
      rw [at_new]
      exact own.mono le.pairing
    · have at_old : (h.newClosure c).2.closureAt k = h.closureAt k := by
        simp [Heap.newClosure, Heap.closureAt, Array.getD_eq_getD_getElem?, Array.getElem?_push, new]
      rw [at_old]
      exact (shares.closures k (inside.resolve_right fun same => new (Value.closure.inj same))).mono le.pairing

/-- A new cell joins the zone. -/
theorem newCell (shares : Shares c₁ c₂ A y h) (holds : y.Holds v) :
    Shares c₁ c₂ A (y.addCell h.cells.size) (h.newCell v).2 := by
  have le := y.le_addCell h.cells.size
  have same : ∀ {u}, (y.addCell h.cells.size).Holds u ↔ y.Holds u := by
    intro u
    cases u <;> exact Iff.rfl
  refine shares.of_same le (fun _ there => there) (fun v _ holds => same.1 holds) (fun _ => rfl) (fun _ => rfl)
    (fun c inside => (shares.closures c inside).mono le.pairing) fun c inside => same.2 ?_
  by_cases new : c = h.cells.size
  · rw [new, Heap.cellAt_newCell_self]
    exact holds
  · rw [Heap.cellAt_newCell_of_ne new]
    exact shares.cells c (inside.resolve_right new)

/-- A shared value may be written to any cell. -/
theorem setCell {cell : Nat} (shares : Shares c₁ c₂ A y h) (holds : y.Holds v) :
    Shares c₁ c₂ A y (h.setCell cell v) := by
  refine shares.of_same (.refl y) (fun _ there => there) (fun _ _ holds => holds) (fun _ => rfl) (fun _ => rfl)
    shares.closures fun c inside => ?_
  by_cases written : c = cell
  · subst written
    by_cases there : c < h.cells.size
    · rw [Heap.cellAt_setCell_self there]
      exact holds
    · rw [show (h.setCell c v).cellAt c = .undefined by simp [Heap.setCell, Heap.cellAt, there]]
      trivial
  · rw [Heap.cellAt_setCell_of_ne written]
    exact shares.cells c inside

/-- Freezing shares no more and no less. -/
theorem freeze (shares : Shares c₁ c₂ A y h) (v : Value) : Shares c₁ c₂ A y (h.freeze v) := by
  have hardens := Heap.freeze_hardens h v
  refine shares.of_same (.refl y) (fun u there => ?_) (fun _ _ holds => holds) hardens.items
    hardens.properties (fun c inside => ?_) fun c inside => ?_
  · cases u with
    | array a => exact lt_of_lt_of_le there hardens.arrays.ge
    | object o => exact lt_of_lt_of_le there hardens.objects.ge
    | _ => trivial
  · rw [show (h.freeze v).closureAt c = h.closureAt c by simp only [Heap.closureAt, hardens.closures]]
    exact shares.closures c inside
  · rw [show (h.freeze v).cellAt c = h.cellAt c by simp only [Heap.cellAt, hardens.cells]]
    exact shares.cells c inside

end Shares

/-! ## Two runs over one heap -/

instance : Preorder Zone where
  le := Zone.Le
  le_refl := Zone.Le.refl
  le_trans _ _ _ := Zone.Le.trans

/-- Two runs of code that writes no names, in contexts that share a zone of the heap. -/
def Correspondence.twins (c₁ c₂ : Context) (A : Access) (writeless : ¬ A.writes)
    (options : c₁.options = c₂.options) : Correspondence where
  World := Zone
  pairing := Zone.pairing
  pairing_le le := Zone.Le.pairing le
  access := A
  left := c₁
  right := c₂
  options_eq := options
  heaps z h₁ h₂ := h₁ = h₂ ∧ Shares c₁ c₂ A z h₁
  alike := by
    rintro z h₁ h₂ ⟨rfl, shares⟩
    exact shares.alike
  lookup := by
    rintro z h₁ h₂ n ⟨rfl, shares⟩ reads
    obtain ⟨same, inside⟩ := shares.lookup n reads
    rw [← same]
    cases found : c₁.lookup h₁ n with
    | none => exact .none
    | some v => exact .some ((inside v found).alike)
  locals writes := absurd writes writeless
  -- the heaps stay the same, and what is new is shared by both runs
  newArray := by
    rintro z h₁ h₂ items₁ items₂ ⟨rfl, shares⟩ items
    obtain ⟨same, inside⟩ := Zone.allAlike_iff.1 items
    obtain rfl := Array.toList_inj.1 same
    exact ⟨_, z.le_add _, ⟨rfl, shares.newArray inside⟩, rfl, .inr rfl⟩
  newObject := by
    rintro z h₁ h₂ m₁ m₂ ⟨rfl, shares⟩ entries
    obtain ⟨rfl, inside⟩ := Zone.entriesAlike_iff.1 entries
    exact ⟨_, z.le_add _, ⟨rfl, shares.newObject inside⟩, rfl, .inr rfl⟩
  newClosure := by
    rintro z h₁ h₂ k₁ k₂ ⟨rfl, shares⟩ closure
    obtain rfl := Zone.eq_of_closureAlike closure
    exact ⟨_, z.le_add _, ⟨rfl, shares.newClosure closure⟩, rfl, .inr rfl⟩
  newCell := by
    rintro z h₁ h₂ v₁ v₂ ⟨rfl, shares⟩ value
    obtain ⟨rfl, holds⟩ := Zone.alike_iff.1 value
    exact ⟨_, z.le_addCell _, ⟨rfl, shares.newCell holds⟩, rfl, .inr rfl⟩
  setCell := by
    rintro z h₁ h₂ k₁ k₂ v₁ v₂ ⟨rfl, shares⟩ ⟨rfl, -⟩ value
    obtain ⟨rfl, holds⟩ := Zone.alike_iff.1 value
    exact ⟨z, le_refl z, rfl, shares.setCell holds⟩
  modifyItems := by
    rintro z h₁ h₂ a b f g ⟨rfl, shares⟩ ⟨rfl, there⟩ unfrozen items
    obtain ⟨same, inside⟩ := Zone.allAlike_iff.1 items
    have same := Array.toList_inj.1 same
    rw [← same] at inside
    rw [← Heap.modifyItems_congr same]
    exact ⟨_, z.le_add _, rfl, shares.modifyItems there unfrozen inside⟩
  modifyProperties := by
    rintro z h₁ h₂ a b f g ⟨rfl, shares⟩ ⟨rfl, there⟩ unfrozen keys entries
    obtain ⟨same, inside⟩ := Zone.entriesAlike_iff.1 entries
    rw [← same] at inside
    rw [← Heap.modifyProperties_congr same]
    exact ⟨_, z.le_add _, rfl, shares.modifyProperties there unfrozen (keys.resolve_left writeless) inside⟩
  freeze := by
    rintro z h₁ h₂ v₁ v₂ ⟨rfl, shares⟩ value
    obtain ⟨rfl, -⟩ := Zone.alike_iff.1 value
    exact ⟨z, le_refl z, rfl, shares.freeze v₁⟩

namespace Zone

variable {z : Zone}

theorem eq_of_exitAlike {m : Manner} {e₁ e₂ : Exit} (alike : Exit.Alike m z.pairing e₁ e₂) : e₁ = e₂ := by
  cases alike with
  | error failure =>
    cases failure with
    | thrown value => rw [(alike_iff.1 value).1]
    | same => rfl
  | ret jumps value => rw [(alike_iff.1 value).1]
  | _ => rfl

theorem eq_of_environmentAlike {env₁ env₂ : Environment} (alike : Environment.Alike z.pairing env₁ env₂) :
    env₁ = env₂ := by
  obtain ⟨bindings, frames, callDepth, maxCallDepth⟩ := env₁
  obtain ⟨bindings', frames', callDepth', maxCallDepth'⟩ := env₂
  obtain ⟨same, rfl, rfl, rfl⟩ := alike
  have same : bindings = bindings' := Array.toList_inj.1 (bindingsAlike_iff.1 same).1
  rw [same]

end Zone

/-- Runs that correspond in this way end with the same result, in the same state. -/
theorem Correspondence.eq_of_sim_twins {c₁ c₂ : Context} {A : Access} {writeless : ¬ A.writes}
    {options : c₁.options = c₂.options} {m : Manner} {z : Zone} {x₁ x₂ : EvalM Value} {s₁ s₂ : State}
    (sim : (twins c₁ c₂ A writeless options).Sim m (twins c₁ c₂ A writeless options).Vals z x₁ x₂ s₁ s₂) :
    x₁ s₁ = x₂ s₂ := by
  have same_state : ∀ {z' : Zone} {t₁ t₂ : State},
      (twins c₁ c₂ A writeless options).Alike z' t₁ t₂ → t₁ = t₂ := by
    rintro z' ⟨env₁, heap₁, interrupted₁, console₁, notes₁⟩
      ⟨env₂, heap₂, interrupted₂, console₂, notes₂⟩
      ⟨⟨heap, -⟩, env, interrupted, console, notes⟩
    obtain rfl := Zone.eq_of_environmentAlike env
    subst heap interrupted console notes
    rfl
  unfold Sim at sim
  generalize x₁ s₁ = r₁ at sim ⊢
  generalize x₂ s₂ = r₂ at sim ⊢
  cases sim with
  | ok le alike keeps₁ keeps₂ result => rw [same_state alike, (Zone.alike_iff.1 result).1]
  | error le alike keeps₁ keeps₂ exit => rw [same_state alike, Zone.eq_of_exitAlike exit]

/-! ## Twins -/

/-- Two contexts that agree on some names, in a heap. What the names mean holds no closures, whose code could
read other names, and leads to no container that one of the contexts reads names from, except to an object
that is the local context of both. -/
structure Context.Twins (c₁ c₂ : Context) (names : String → Prop) (h : Heap) : Prop where
  options : c₁.options = c₂.options
  lookup : ∀ n, names n → c₁.lookup h n = c₂.lookup h n
  allocated : ∀ v ∈ c₁.places ++ c₂.places, h.Allocates v
  closureless : ∀ n v c, names n → c₁.lookup h n = some v → ¬ h.Reaches v (.closure c)
  apart : ∀ n v, names n → c₁.lookup h n = some v → ∀ u ∈ c₁.places ++ c₂.places,
    u.isContainer = true → h.Reaches v u → (∃ o, u = .object o) ∧ c₁.locals = u ∧ c₂.locals = u

/-- A value that some name leads to. -/
def Context.Leads (c : Context) (names : String → Prop) (h : Heap) (u : Value) : Prop :=
  ∃ n v, names n ∧ c.lookup h n = some v ∧ h.Reaches v u

/-- What names lead to is a zone that both contexts share. -/
theorem Context.Twins.shares {c₁ c₂ : Context} {A : Access} {h : Heap} (twins : c₁.Twins c₂ A.reads h) :
    Shares c₁ c₂ A (.of (c₁.Leads A.reads h)) h where
  children := by
    intro v container holds u mem
    obtain ⟨n, start, reads, found, path⟩ := Zone.of_holds container holds
    exact Zone.holds_of ⟨n, start, reads, found, path.tail mem⟩
  closures := by
    rintro c ⟨n, v, reads, found, path⟩
    exact absurd path (twins.closureless n v c reads found)
  cells _ := False.elim
  lookup n reads := ⟨twins.lookup n reads, fun v found => Zone.holds_of ⟨n, v, reads, found, .refl⟩⟩
  allocated := twins.allocated
  apart := by
    intro u place container holds
    obtain ⟨n, v, reads, found, path⟩ := Zone.of_holds container holds
    exact twins.apart n v reads found u place container path

/-- Code that keeps to the names that two contexts agree on, and writes none, ends in the same way in both,
and leaves the same state. -/
theorem Context.Twins.evaluate_eq {c₁ c₂ : Context} {A : Access} {e : Expr} {s : State}
    (twins : c₁.Twins c₂ A.reads s.heap) (writeless : ¬ A.writes) (within : e.Within A [])
    (unbound : s.env.bindings = #[]) : c₁.evaluate e s = c₂.evaluate e s := by
  let C := Correspondence.twins c₁ c₂ A writeless twins.options
  have bindings : List.Forall₂ (Binding.Alike (C.pairing (.of (c₁.Leads A.reads s.heap))))
      s.env.bindings.toList s.env.bindings.toList := by
    rw [unbound]
    exact .nil
  have st : C.Alike (.of (c₁.Leads A.reads s.heap)) s s :=
    ⟨⟨rfl, twins.shares⟩, ⟨bindings, rfl, rfl, rfl⟩, rfl, rfl, rfl⟩
  have sim : C.Sim .expression C.Vals _ (c₁.evaluate e) (c₂.evaluate e) s s := C.evaluate st within
  exact Correspondence.eq_of_sim_twins sim

end BindScript
