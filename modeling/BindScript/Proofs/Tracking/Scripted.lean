import BindScript.Proofs.Control.Dependence
import BindScript.Proofs.Tracking.Listeners
import BindScript.Proofs.Value.Stores

/-!
# Writes through a proxy and writes of a script

A proxy and a script ask for different things before they write to a container, in a different order, and they give
different faults. What they ask for is what the container refuses anyway: a script that is told of a limit is told so
before the store (`EvalM.setProperty_eq_store`), and a proxy that is refused early would be refused in the end
(`Proxy.canSet_of_refusal?`, `canSet_of_exceedsLimit`). So the answer of the container decides both
(`Proxy.set_endsAsStore`), and on containers with the same contents it is the same (`SameContents.canSet_eq`).

What two such containers do not have in common is whether a value holds them. A list that is to get its length from a
value which holds the list breaks the program, and a copy of the list does not (`own_length_breaks`).
-/

namespace BindScript

namespace Heap

variable {h : Heap} {a : Nat} {target copy : Value} {key : String} {value : Value}

theorem canSet_of_exceedsLimit (exceeds : h.exceedsLimit key value = true) :
    h.canSet (.array a) key value = false := by
  rw [canSet, takesItem, exceeds]
  simp

/-- Two containers with the same contents in the same order, both frozen or both not. -/
inductive SameContents (h h' : Heap) : Value → Value → Prop
  | array {a b : Nat} : h.arrayAt a = h'.arrayAt b → SameContents h h' (.array a) (.array b)
  | object {o p : Nat} : h.objectAt o = h'.objectAt p → SameContents h h' (.object o) (.object p)

namespace SameContents

theorem isContainer {h' : Heap} (same : h.SameContents h' target copy) :
    target.isContainer = true ∧ copy.isContainer = true := by
  cases same with
  | array => exact ⟨rfl, rfl⟩
  | object => exact ⟨rfl, rfl⟩

theorem canSet_eq (same : h.SameContents h target copy) (key : String) (value : Value) :
    h.canSet target key value = h.canSet copy key value := by
  cases same with
  | array same => rw [canSet, canSet, same]
  | object same => rw [canSet, canSet, same]

/-- A write that both containers take leaves both with the same contents. -/
theorem set (same : h.SameContents h target copy) (takes : h.canSet target key value = true) :
    (h.set target key value).SameContents (h.set copy key value) target copy := by
  have takesCopy : h.canSet copy key value = true := same.canSet_eq key value ▸ takes
  cases same with
  | @array a b same =>
    simp only [canSet, Bool.and_eq_true, Bool.not_eq_true'] at takes takesCopy
    have changed : ∀ change : Array Value → Array Value,
        (h.modifyItems a change).SameContents (h.modifyItems b change) (.array a) (.array b) := by
      intro change
      refine .array ?_
      unfold modifyItems
      rw [arrayAt_modifyArray_self (lt_size_of_unfrozen_array takes.1),
        arrayAt_modifyArray_self (lt_size_of_unfrozen_array takesCopy.1), same]
    unfold Heap.set
    dsimp only
    split
    · exact changed _
    · split
      · exact changed _
      · exact .array same
  | @object o p same =>
    refine .object ?_
    show (h.modifyProperties o _).objectAt o = (h.modifyProperties p _).objectAt p
    unfold modifyProperties
    rw [objectAt_modifyObject_self (lt_size_of_unfrozen_object (canSet_object_iff.1 takes)),
      objectAt_modifyObject_self (lt_size_of_unfrozen_object (canSet_object_iff.1 takesCopy)), same]

end SameContents

end Heap

namespace EvalM

/-- What is left to do of a write once an array has been asked for its limit. It stores the value, or it fails and
changes nothing; and if it does not clash, it fails only where the container refuses. -/
theorem store_ends (target : Value) (key : String) (value : Value) (s : State) :
    let x : EvalM Unit := do
      if ← readHeap (·.clashes target key value) then throw .clash
      else if ← readHeap (·.canSet target key value) then modifyHeap (·.set target key value)
      else typeFault (.refusedWrite key (← readHeap (·.isFrozen target)))
    (x s = .ok () { s with heap := s.heap.set target key value } ∧ s.heap.canSet target key value = true ∧
        s.heap.clashes target key value = false) ∨
      ∃ e, x s = .error e s ∧ (s.heap.clashes target key value = false → s.heap.canSet target key value = false) := by
  have steps : ((do
      if ← readHeap (·.clashes target key value) then throw .clash
      else if ← readHeap (·.canSet target key value) then modifyHeap (·.set target key value)
      else typeFault (.refusedWrite key (← readHeap (·.isFrozen target)))) : EvalM Unit) s =
        if s.heap.clashes target key value = true then .error .clash s
        else if s.heap.canSet target key value = true then .ok () { s with heap := s.heap.set target key value }
        else .error (.error (.type (.refusedWrite key (s.heap.isFrozen target)))) s := by
    show (if s.heap.clashes target key value = true then _ else _ : EvalM Unit) s = _
    split
    · rfl
    · show (if s.heap.canSet target key value = true then _ else _ : EvalM Unit) s = _
      split <;> rfl
  dsimp only
  rw [steps]
  by_cases clashes : s.heap.clashes target key value = true
  · exact .inr ⟨_, if_pos clashes, fun apart => absurd (clashes.symm.trans apart) nofun⟩
  rw [if_neg clashes]
  by_cases takes : s.heap.canSet target key value = true
  · exact .inl ⟨if_pos takes, takes, Bool.eq_false_iff.2 clashes⟩
  · exact .inr ⟨_, if_neg takes, fun _ => Bool.eq_false_iff.2 takes⟩

/-- A write of a script to a container stores the value, or it fails and changes nothing; and if it does not clash, it
fails only where the container refuses. -/
theorem setProperty_ends {target : Value} (container : target.isContainer = true) (key : String) (value : Value)
    (s : State) :
    (setProperty target key value s = .ok () { s with heap := s.heap.set target key value } ∧
        s.heap.canSet target key value = true ∧ s.heap.clashes target key value = false) ∨
      ∃ e, setProperty target key value s = .error e s ∧
        (s.heap.clashes target key value = false → s.heap.canSet target key value = false) := by
  cases target with
  | array a =>
    by_cases exceeds : s.heap.exceedsLimit key value = true
    · -- the limit is also what the container refuses
      refine .inr ⟨.error (.range .arrayLength), ?_, fun _ => Heap.canSet_of_exceedsLimit exceeds⟩
      show (if s.heap.exceedsLimit key value = true then fail (.range .arrayLength) else _ : EvalM Unit) s = _
      rw [if_pos exceeds]
      rfl
    · have rest : setProperty (.array a) key value s = (do
          if ← readHeap (·.clashes (.array a) key value) then throw .clash
          else if ← readHeap (·.canSet (.array a) key value) then modifyHeap (·.set (.array a) key value)
          else typeFault (.refusedWrite key (← readHeap (·.isFrozen (.array a)))) : EvalM Unit) s := by
        show (if s.heap.exceedsLimit key value = true then fail (.range .arrayLength) else _ : EvalM Unit) s = _
        rw [if_neg exceeds]
      rw [rest]
      exact store_ends (.array a) key value s
  | object o => exact store_ends (.object o) key value s
  | _ => cases container

end EvalM

namespace Tracking

section Writes

variable {p : Proxy} {h : Heap} {key : String} {value : Value} {observer : Observer}

/-- The change that is told of a write. -/
def Proxy.writing (p : Proxy) (h : Heap) (key : String) (value : Value) : Change where
  action := .set
  path := p.childPath key
  target := p.target
  previous := p.present? h key
  next := some value

/-- What a proxy refuses before it asks the container, the container refuses too. -/
theorem Proxy.canSet_of_refusal? {fault : ProxyFault} (container : p.target.isContainer = true)
    (refuses : p.refusal? h key = some fault) : h.canSet p.target key value = false := by
  unfold refusal? at refuses
  by_cases frozen : h.isFrozen p.target = true
  · cases target : p.target with
    | array a =>
      rw [target] at frozen
      have frozen : (h.arrayAt a).frozen = true := frozen
      rw [Heap.canSet, frozen]
      rfl
    | object o =>
      rw [target] at frozen
      have frozen : (h.objectAt o).frozen = true := frozen
      rw [Heap.canSet, frozen]
      rfl
    | _ =>
      rw [target] at container
      cases container
  · -- the container is an array that is not frozen, and the key is not one of its keys
    rw [if_neg frozen] at refuses
    obtain ⟨noIndex, -⟩ := Option.ite_none_right_eq_some.1 refuses
    cases target : p.target with
    | array a =>
      rw [target] at noIndex
      simp only [Bool.true_and, Bool.and_eq_true, bne_iff_ne, ne_eq, Option.isNone_iff_eq_none] at noIndex
      rw [Heap.canSet, Heap.takesItem, if_neg noIndex.1, noIndex.2]
      simp
    | _ =>
      rw [target] at noIndex
      cases noIndex

/-- A write ends like a store: it stores the value, or it fails and changes nothing; and if it does not clash, it fails
only where the container refuses. -/
inductive Write.EndsAsStore (w : Write Unit) (h : Heap) (target : Value) (key : String) (value : Value) : Prop
  | stored (result : w.result = .ok ()) (heap : w.heap = h.set target key value)
      (takes : h.canSet target key value = true) (apart : h.clashes target key value = false)
  | failed {halt : Halt} (result : w.result = .error halt) (heap : w.heap = h)
      (refuses : h.clashes target key value = false → h.canSet target key value = false)

/-- A change that the observer lets pass is left to the container. -/
theorem announce_endsAsStore {target : Value} {change : Change} (passes : observer change = none) (fault : ProxyFault) :
    (announce observer h change fun h =>
      if h.clashes target key value then (.error .clash, h)
      else if h.canSet target key value then (.ok (), h.set target key value)
      else (.error (.fault fault), h)).EndsAsStore h target key value := by
  unfold announce
  rw [passes]
  by_cases clashes : h.clashes target key value = true
  · simp only [if_pos clashes]
    exact .failed rfl rfl fun apart => absurd (clashes.symm.trans apart) nofun
  by_cases takes : h.canSet target key value = true
  · simp only [if_neg clashes, if_pos takes]
    exact .stored rfl rfl takes (Bool.eq_false_iff.2 clashes)
  · simp only [if_neg clashes, if_neg takes]
    exact .failed rfl rfl fun _ => Bool.eq_false_iff.2 takes

/-- A write through a proxy that has something to change, and that the observer lets pass, ends like a store. -/
theorem Proxy.set_endsAsStore (container : p.target.isContainer = true)
    (changes : isUnchanged h (p.present? h key) value = false) (passes : observer (p.writing h key value) = none) :
    (p.set observer h key value).EndsAsStore h p.target key value := by
  cases free : p.refusal? h key with
  | some fault =>
    have refused : p.set observer h key value = { result := .error (.fault fault), heap := h } := by
      rw [Proxy.set, free]
    rw [refused]
    exact .failed rfl rfl fun _ => canSet_of_refusal? container free
  | none =>
    rw [set_of_free free, changes, if_neg Bool.false_ne_true]
    split
    next a target =>
      -- only an array is asked for its limit before the observer is told
      rw [Bool.true_and]
      split
      next exceeds =>
        refine .failed rfl rfl fun _ => ?_
        rw [target]
        exact Heap.canSet_of_exceedsLimit exceeds
      next => exact announce_endsAsStore passes _
    next =>
      rw [Bool.false_and, if_neg Bool.false_ne_true]
      exact announce_endsAsStore passes _

end Writes

/-- **A write through a proxy has the effect of a write of a script.** Take an array or an object, frozen or not, and
another one with the same contents, a key and a value of any kind. If the write has something to change and the
observer, which does nothing to the data, lets it pass, it succeeds through a proxy for the one exactly if a script
succeeds in writing to the other, provided that it clashes with both or with neither. If both succeed, the two have the
same contents in the same order afterwards. Where a write fails, nothing has changed on its side, and a write that
clashes fails. -/
theorem set_as_script {p : Proxy} {s : State} {copy : Value} (same : s.heap.SameContents s.heap p.target copy)
    {key : String} {value : Value} (changes : isUnchanged s.heap (p.present? s.heap key) value = false)
    {observer : Observer} (passes : observer (p.writing s.heap key value) = none) :
    (s.heap.clashes p.target key value = s.heap.clashes copy key value →
        ((p.set observer s.heap key value).result = .ok () ↔ ∃ t, EvalM.setProperty copy key value s = .ok () t)) ∧
      (∀ t, (p.set observer s.heap key value).result = .ok () → EvalM.setProperty copy key value s = .ok () t →
        (p.set observer s.heap key value).heap.SameContents t.heap p.target copy) ∧
      (∀ halt, (p.set observer s.heap key value).result = .error halt →
        (p.set observer s.heap key value).heap = s.heap) ∧
      (∀ e t, EvalM.setProperty copy key value s = .error e t → t = s) ∧
      (s.heap.clashes p.target key value = true → ∃ halt, (p.set observer s.heap key value).result = .error halt) ∧
      (s.heap.clashes copy key value = true → ∃ e, EvalM.setProperty copy key value s = .error e s) := by
  have answer := same.canSet_eq key value
  cases Proxy.set_endsAsStore same.isContainer.1 changes passes with
  | stored result heap takes apart =>
    rcases EvalM.setProperty_ends same.isContainer.2 key value s with ⟨run, -, apartCopy⟩ | ⟨e, run, refuses⟩
    · refine ⟨fun _ => ⟨fun _ => ⟨_, run⟩, fun _ => result⟩, fun t _ run' => ?_, ?_, ?_, ?_, ?_⟩
      · cases run.symm.trans run'
        rw [heap]
        exact same.set takes
      · exact fun halt failed => nomatch result.symm.trans failed
      · exact fun e t failed => nomatch run.symm.trans failed
      · exact fun clashes => nomatch apart.symm.trans clashes
      · exact fun clashes => nomatch apartCopy.symm.trans clashes
    · refine ⟨fun alike => ?_, ?_, ?_, ?_, ?_, fun _ => ⟨e, run⟩⟩
      · -- the copy refuses what the container takes
        have refused := refuses (alike.symm.trans apart)
        cases (answer.symm.trans takes).symm.trans refused
      · exact fun t _ run' => nomatch run.symm.trans run'
      · exact fun halt failed => nomatch result.symm.trans failed
      · intro e' t failed
        cases run.symm.trans failed
        rfl
      · exact fun clashes => nomatch apart.symm.trans clashes
  | @failed halt result heap refuses =>
    rcases EvalM.setProperty_ends same.isContainer.2 key value s with ⟨run, takes, apartCopy⟩ | ⟨e, run, -⟩
    · refine ⟨fun alike => ?_, ?_, fun _ _ => heap, ?_, fun _ => ⟨halt, result⟩, ?_⟩
      · have refused := refuses (alike.trans apartCopy)
        cases (answer.trans takes).symm.trans refused
      · exact fun t ok _ => nomatch result.symm.trans ok
      · exact fun e t failed => nomatch run.symm.trans failed
      · exact fun clashes => nomatch apartCopy.symm.trans clashes
    · refine ⟨fun _ => ⟨fun ok => ?_, fun ⟨t, ok⟩ => ?_⟩, ?_, fun _ _ => heap, ?_, fun _ => ⟨halt, result⟩,
        fun _ => ⟨e, run⟩⟩
      · cases result.symm.trans ok
      · cases run.symm.trans ok
      · exact fun t ok _ => nomatch result.symm.trans ok
      · intro e' t failed
        cases run.symm.trans failed
        rfl

/-- A list of one item and a copy of it. -/
def twoLists : Heap where
  arrays := #[{ items := #[.string "a"] }, { items := #[.string "a"] }]

/-- A third item is written to a list through a proxy, and to a copy of the list by a script. -/
theorem third_item_as_script :
    twoLists.SameContents twoLists list.target (.array 1) ∧
      isUnchanged twoLists (list.present? twoLists "2") .null = false ∧
      (list.set (fun _ => none) twoLists "2" .null).result = .ok () ∧
      ∃ t, EvalM.setProperty (.array 1) "2" .null { heap := twoLists } = .ok () t ∧
        (list.set (fun _ => none) twoLists "2" .null).heap.SameContents t.heap (.array 0) (.array 1) := by
  have same : twoLists.SameContents twoLists list.target (.array 1) := .array rfl
  have changes : isUnchanged twoLists (list.present? twoLists "2") .null = false := rfl
  let accepting : Observer := fun _ => none
  have passes : accepting (list.writing twoLists "2" .null) = none := rfl
  obtain ⟨both, contents, -⟩ := set_as_script (s := { heap := twoLists }) same changes passes
  have succeeds : (list.set (fun _ => none) twoLists "2" .null).result = .ok () := rfl
  obtain ⟨t, run⟩ := (both rfl).1 succeeds
  exact ⟨same, changes, succeeds, t, run, contents t succeeds run⟩

/-- Two lists of the item "1". -/
def numeralLists : Heap where
  arrays := #[{ items := #[.string "1"] }, { items := #[.string "1"] }]

/-- A list is told to have the length that is its own text, which is "1". Through a proxy the call does not come back;
a script that writes to a copy of the list succeeds. -/
theorem own_length_breaks :
    ¬ ∀ (p : Proxy) (s : State) (copy : Value) (key : String) (value : Value) (observer : Observer),
      s.heap.SameContents s.heap p.target copy → isUnchanged s.heap (p.present? s.heap key) value = false →
        observer (p.writing s.heap key value) = none →
          ((p.set observer s.heap key value).result = .ok () ↔ ∃ t, EvalM.setProperty copy key value s = .ok () t) := by
  intro both
  have same : numeralLists.SameContents numeralLists list.target (.array 1) := .array rfl
  have changes : isUnchanged numeralLists (list.present? numeralLists "length") (.array 0) = false := by decide +kernel
  have alike := both list { heap := numeralLists } (.array 1) "length" (.array 0) (fun _ => none) same changes rfl
  have breaks : (list.set (fun _ => none) numeralLists "length" (.array 0)).result = .error .clash := by decide +kernel
  have takes : numeralLists.canSet (.array 1) "length" (.array 0) = true := by decide +kernel
  have container : (Value.array 1).isContainer = true := rfl
  rcases EvalM.setProperty_ends container "length" (.array 0) { heap := numeralLists } with ⟨run, -⟩ | ⟨e, run, refuses⟩
  · cases breaks.symm.trans (alike.2 ⟨_, run⟩)
  · cases takes.symm.trans (refuses (by decide +kernel))

end Tracking

end BindScript
