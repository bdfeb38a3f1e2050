import BindScript.Proofs.Correspondence.Native
import BindScript.Evaluation.Method

/-!
# Built-in methods in runs that correspond

The methods of arrays, strings and numbers correspond (`Sim.callMethod`). Methods that write an array check
first that it is not frozen and has room; the checks change nothing, so what they found still holds where
the array is written (`checkWritable_bind`, `checkRoom_bind`).
-/

/-! ## Options that are alike -/

namespace Option.Rel

variable {α β γ : Type} {R : α → α → Prop} {S : β → β → Prop} {x y : Option α}

theorem map {f g : α → β} (h : Option.Rel R x y) (result : ∀ {a b}, R a b → S (f a) (g b)) :
    Option.Rel S (x.map f) (y.map g) := by
  cases h with
  | none => exact .none
  | some h => exact .some (result h)

theorem map_eq {f g : α → γ} (h : Option.Rel R x y) (eq : ∀ {a b}, R a b → f a = g b) :
    x.map f = y.map g := by
  cases h with
  | none => rfl
  | some h => rw [Option.map_some, Option.map_some, eq h]

theorem isSome_eq (h : Option.Rel R x y) : x.isSome = y.isSome := by
  cases h <;> rfl

end Option.Rel

namespace BindScript

open Correspondence

variable {p : Pairing} {A : Access} {h₁ h₂ : Heap} {v₁ v₂ : Value}

/-- Items that are alike, at the same index. -/
def Indexed.Alike (p : Pairing) (x y : Value × Nat) : Prop :=
  Value.Alike p x.1 y.1 ∧ x.2 = y.2

theorem Value.AllAlike.zipIdx {as bs : List Value} (h : AllAlike p as bs) (start : Nat) :
    List.Forall₂ (Indexed.Alike p) (as.zipIdx start) (bs.zipIdx start) := by
  induction h generalizing start with
  | nil => exact .nil
  | cons head _ ih => exact .cons ⟨head, rfl⟩ (ih (start + 1))

theorem Value.AllAlike.getElem? {items₁ items₂ : Array Value}
    (items : AllAlike p items₁.toList items₂.toList) (i : Nat) :
    Option.Rel (Value.Alike p) items₁[i]? items₂[i]? := by
  rw [← Array.getElem?_toList, ← Array.getElem?_toList]
  exact List.Forall₂.getElem? items i

theorem Value.AllAlike.pop {items₁ items₂ : Array Value}
    (items : AllAlike p items₁.toList items₂.toList) :
    AllAlike p items₁.pop.toList items₂.pop.toList := by
  rw [Array.toList_pop, Array.toList_pop, List.dropLast_eq_take, List.dropLast_eq_take,
    items.length_eq]
  exact List.forall₂_take _ items

theorem Value.AllAlike.back? {items₁ items₂ : Array Value}
    (items : AllAlike p items₁.toList items₂.toList) :
    Option.Rel (Value.Alike p) items₁.back? items₂.back? := by
  have sizes : items₁.size = items₂.size := items.length_eq
  rw [Array.back?_eq_getElem?, Array.back?_eq_getElem?, sizes]
  exact items.getElem? _

theorem Value.AllAlike.indexOf_eq {items₁ items₂ : Array Value}
    (items : AllAlike p items₁.toList items₂.toList) (v : Value.Alike p v₁ v₂) :
    items₁.findIdx? (·.strictEquals v₁) = items₂.findIdx? (·.strictEquals v₂) := by
  obtain ⟨items₁⟩ := items₁
  obtain ⟨items₂⟩ := items₂
  rw [List.findIdx?_toArray, List.findIdx?_toArray]
  exact List.Forall₂.findIdx?_eq items fun item => item.strictEquals_eq v

theorem Value.Alike.getD {x y : Option Value} (h : Option.Rel (Value.Alike p) x y) :
    Value.Alike p (x.getD .undefined) (y.getD .undefined) := by
  cases h with
  | none => exact .undefined
  | some v => exact v

theorem Value.Alike.index {i j : Option Nat} (h : i = j) : Value.Alike p (.index i) (.index j) := by
  subst h
  cases i <;> exact .number _

namespace Heap.Alike

variable (h : Heap.Alike p A h₁ h₂)
include h

theorem positionOf_eq (v : Value.Alike p v₁ v₂) (length usual : Nat) :
    h₁.positionOf v₁ length usual = h₂.positionOf v₂ length usual := by
  simp only [Heap.positionOf, v.isUndefined_eq, h.toNumber_eq v]

theorem joinedText_eq (v : Value.Alike p v₁ v₂) :
    EvalM.joinedText h₁ v₁ = EvalM.joinedText h₂ v₂ := by
  simp only [EvalM.joinedText, v.isNullish_eq, h.text_eq v]

theorem clampedIndex_eq (v : Value.Alike p v₁ v₂) (length usual : Nat) :
    EvalM.clampedIndex h₁ v₁ length usual = EvalM.clampedIndex h₂ v₂ length usual := by
  simp only [EvalM.clampedIndex, v.isUndefined_eq, h.toNumber_eq v]

variable {u₁ u₂ : Value}

theorem splitText_eq (cs : List Char) (v : Value.Alike p v₁ v₂) (u : Value.Alike p u₁ u₂) :
    EvalM.splitText h₁ cs v₁ u₁ = EvalM.splitText h₂ cs v₂ u₂ := by
  simp only [EvalM.splitText, v.isUndefined_eq, u.isUndefined_eq, h.text_eq v, h.toUInt32_eq u]

theorem padding_eq (text : String) (v : Value.Alike p v₁ v₂) (u : Value.Alike p u₁ u₂) :
    EvalM.padding h₁ text v₁ u₁ = EvalM.padding h₂ text v₂ u₂ := by
  simp only [EvalM.padding, u.isUndefined_eq, h.text_eq u, h.toNumber_eq v]

end Heap.Alike

/-- A check whose failure holds no value gives the same twice. -/
theorem checkAlike_refl {α : Type} {x : Except EvalError α}
    (ne : ∀ {e}, x = .error e → ∀ v, e ≠ .thrown v) : CheckAlike p Eq x x := by
  cases x with
  | ok a => exact .ok rfl
  | error e => exact .error (.same (ne rfl))

theorem padding_ne_thrown {h : Heap} {text : String} {length fill : Value} {e : EvalError}
    (eq : EvalM.padding h text length fill = .error e) (v : Value) : e ≠ .thrown v := by
  unfold EvalM.padding checkStringLength at eq
  dsimp only at eq
  generalize (if fill.isUndefined then " " else h.text fill) = filler at eq
  generalize (if (h.toNumber length).isNaN then 0 else Number.toSize (h.toNumber length)) = target at eq
  split at eq
  · cases eq
  · split at eq
    · cases eq
      nofun
    · cases eq

theorem repeatText_ne_thrown {text : String} {x : Float} {e : EvalError}
    (eq : EvalM.repeatText text x = .error e) (v : Value) : e ≠ .thrown v := by
  unfold EvalM.repeatText at eq
  dsimp only at eq
  generalize (if x.isNaN then 0.0 else Number.truncate x) = count at eq
  split at eq
  · cases eq
    nofun
  · cases eq

namespace Correspondence

variable {C : Correspondence} {w : C.World}

theorem rises_indexed : Sim.Rises (C := C) fun w => Indexed.Alike (C.pairing w) :=
  ⟨fun le h => ⟨h.1.mono (C.pairing_le le), h.2⟩⟩

namespace Sim

variable {m : Manner} {bound : List String} {s₁ s₂ : State} {t₁ t₂ : Value} {a b : Nat}
  {args₁ args₂ : List Value} {sub₁ sub₂ : Interpreter} {α : Type} {Q : C.Post α}

/-! ## Arrays -/

theorem callbackOf (method : String) (st : C.Alike w s₁ s₂)
    (args : Value.AllAlike (C.pairing w) args₁ args₂) :
    C.Sim m C.Vals w (EvalM.callbackOf args₁ method) (EvalM.callbackOf args₂ method) s₁ s₂ := by
  have first := args.argument 0
  unfold EvalM.callbackOf
  refine ite first.isCallable_eq (fun _ => pure st first) fun _ => ?_
  apply readHeap_bind
  rw [(C.alike st.heap).text_eq first]
  exact typeFault _ st

theorem checkWritable_bind {f₁ f₂ : Unit → EvalM α} (st : C.Alike w s₁ s₂)
    (paired : (C.pairing w).arrays a b)
    (f : (s₁.heap.arrayAt a).frozen = false → C.Sim m Q w (f₁ ()) (f₂ ()) s₁ s₂) :
    C.Sim m Q w (EvalM.checkWritable a >>= f₁) (EvalM.checkWritable b >>= f₂) s₁ s₂ := by
  have same := (C.alike st.heap).arrayFrozen paired
  unfold EvalM.checkWritable
  show C.Sim m Q w ((if (s₁.heap.arrayAt a).frozen = true then _ else _) >>= f₁)
    ((if (s₂.heap.arrayAt b).frozen = true then _ else _) >>= f₂) s₁ s₂
  rw [← same]
  cases frozen : (s₁.heap.arrayAt a).frozen with
  | false => exact f frozen
  | true =>
    exact bind (Q := Never) st.at_nil (typeFault .frozenArray st) fun _ _ never => never.elim

theorem checkRoom_bind {f₁ f₂ : Unit → EvalM α} {more₁ more₂ : Nat} (st : C.Alike w s₁ s₂)
    (paired : (C.pairing w).arrays a b) (more : more₁ = more₂)
    (f : C.Sim m Q w (f₁ ()) (f₂ ()) s₁ s₂) :
    C.Sim m Q w (EvalM.checkRoom a more₁ >>= f₁) (EvalM.checkRoom b more₂ >>= f₂) s₁ s₂ := by
  unfold EvalM.checkRoom
  show C.Sim m Q w (EvalM.ofExcept (checkArrayLength ((s₁.heap.items a).size + more₁)) >>= f₁)
    (EvalM.ofExcept (checkArrayLength ((s₂.heap.items b).size + more₂)) >>= f₂) s₁ s₂
  rw [(C.alike st.heap).size_eq paired, more]
  unfold checkArrayLength
  split
  · exact bind (Q := Never) st.at_nil (fail st nofun) fun _ _ never => never.elim
  · exact f

/-- Writes the items of an array that is not frozen, and goes on. -/
theorem modifyItems_bind {f g : Array Value → Array Value} {k₁ k₂ : Unit → EvalM Value}
    (st : C.At bound w s₁ s₂) (paired : (C.pairing w).arrays a b)
    (unfrozen : (s₁.heap.arrayAt a).frozen = false)
    (items : Value.AllAlike (C.pairing w) (f (s₁.heap.items a)).toList (g (s₂.heap.items b)).toList)
    (next : ∀ {w' t₁ t₂}, w ≤ w' → C.At bound w' t₁ t₂ → C.Sim m C.Vals w' (k₁ ()) (k₂ ()) t₁ t₂) :
    C.Sim m C.Vals w (EvalM.modifyHeap (·.modifyItems a f) >>= k₁)
      (EvalM.modifyHeap (·.modifyItems b g) >>= k₂) s₁ s₂ :=
  bind (Q := C.Same) st
    (modifyHeap st.toAlike (C.modifyItems st.heap paired unfrozen items) fun _ => rfl)
    fun le st _ => next le st

theorem itemCount (st : C.Alike w s₁ s₂) (paired : (C.pairing w).arrays a b) :
    C.Sim m C.Vals w (EvalM.itemCount a) (EvalM.itemCount b) s₁ s₂ :=
  readNumber st (by rw [(C.alike st.heap).size_eq paired])

theorem joinItems {items₁ items₂ : Array Value} {sep₁ sep₂ : String} (st : C.At bound w s₁ s₂)
    (items : Value.AllAlike (C.pairing w) items₁.toList items₂.toList) (separator : sep₁ = sep₂) :
    C.Sim m C.Vals w (EvalM.joinItems items₁ sep₁) (EvalM.joinItems items₂ sep₂) s₁ s₂ := by
  subst separator
  unfold EvalM.joinItems
  apply readHeap_bind
  rw [items.map_eq fun v => st.heapAlike.joinedText_eq v]
  exact bind st (ofExcept st.toAlike (checkStringLength_alike _ _) (Q := C.Same) fun h => h)
    fun _ st _ => pure st.toAlike (.string _)

/-- Arrays are flattened by one level on both sides, other values are appended. -/
theorem concatItems {start₁ start₂ : Array Value} (st : C.At bound w s₁ s₂)
    (start : Value.AllAlike (C.pairing w) start₁.toList start₂.toList)
    (args : Value.AllAlike (C.pairing w) args₁ args₂) :
    C.Sim m C.Arrays w (EvalM.concatItems start₁ args₁) (EvalM.concatItems start₂ args₂) s₁ s₂ := by
  unfold EvalM.concatItems
  refine foldlM rises_alike st args start fun {w' t₁ t₂ done₁ done₂ v₁ v₂} _ st done v => ?_
  have sizes : done₁.size = done₂.size := done.length_eq
  apply readHeap_bind
  have more := st.heapAlike.arrayItems? v
  generalize t₁.heap.arrayItems? v₁ = more₁ at more ⊢
  generalize t₂.heap.arrayItems? v₂ = more₂ at more ⊢
  cases more with
  | none =>
    simp only [sizes]
    exact bind st (ofExcept st.toAlike (checkArrayLength_alike _ _) (Q := C.Same) fun h => h)
      fun le st _ => pure st.toAlike
        (Value.AllAlike.push (done.mono (C.pairing_le le)) (v.mono (C.pairing_le le)))
  | @some more₁ more₂ more =>
    have moreSizes : more₁.size = more₂.size := more.length_eq
    simp only [sizes, moreSizes]
    exact bind st (ofExcept st.toAlike (checkArrayLength_alike _ _) (Q := C.Same) fun h => h)
      fun le st _ => pure st.toAlike
        (Value.AllAlike.append (done.mono (C.pairing_le le)) (more.mono (C.pairing_le le)))

/-- If the tests agree on paired items, the first that passes is the same one. -/
theorem findItem {f₁ f₂ : Value → Nat → EvalM Bool} {items₁ items₂ : List (Value × Nat)}
    (st : C.At bound w s₁ s₂) (items : List.Forall₂ (Indexed.Alike (C.pairing w)) items₁ items₂)
    (test : ∀ {w' t₁ t₂ v₁ v₂ i}, w ≤ w' → C.At bound w' t₁ t₂ → Value.Alike (C.pairing w') v₁ v₂ →
      C.Sim m C.Same w' (f₁ v₁ i) (f₂ v₂ i) t₁ t₂) :
    C.Sim m (fun w _ => Option.Rel (Indexed.Alike (C.pairing w))) w (EvalM.findItem f₁ items₁)
      (EvalM.findItem f₂ items₂) s₁ s₂ := by
  induction items₁ generalizing w s₁ s₂ items₂ with
  | nil =>
    cases items
    exact pure st.toAlike .none
  | cons x items₁ ih =>
    obtain ⟨y, items₂, head, tail, rfl⟩ := List.forall₂_cons_left_iff.1 items
    obtain ⟨v₁, i⟩ := x
    obtain ⟨v₂, j⟩ := y
    obtain ⟨v, rfl⟩ := head
    unfold EvalM.findItem
    refine bind st (test (le_refl w) st v) fun le st found => ?_
    refine ite found (fun _ => pure st.toAlike (.some ⟨v.mono (C.pairing_le le), rfl⟩)) fun _ => ?_
    exact ih st (tail.imp fun _ _ h => rises_indexed.later le h) fun le' => test (le_trans le le')

/-- Reducing calls the callback on what has been made so far and the next item. -/
private theorem foldReduce {f₁ f₂ v₁ v₂ : Value} {l₁ l₂ : List (Value × Nat)}
    (sub : Interpreter.Alike C sub₁ sub₂) (st : C.At bound w s₁ s₂)
    (paired : (C.pairing w).arrays a b) (f : Value.Alike (C.pairing w) f₁ f₂)
    (start : Value.Alike (C.pairing w) v₁ v₂)
    (entries : List.Forall₂ (Indexed.Alike (C.pairing w)) l₁ l₂) :
    C.Sim m C.Vals w
      (l₁.foldlM (fun done entry => sub₁.call f₁ [done, entry.1, .count entry.2, .array a]) v₁)
      (l₂.foldlM (fun done entry => sub₂.call f₂ [done, entry.1, .count entry.2, .array b]) v₂)
      s₁ s₂ := by
  refine foldlM rises_indexed st entries start fun {w' t₁ t₂ done₁ done₂ x y} le st done entry => ?_
  obtain ⟨u₁, i⟩ := x
  obtain ⟨u₂, j⟩ := y
  obtain ⟨u, rfl⟩ := entry
  have receiver := Value.Alike.array ((C.pairing_le le).arrays paired)
  exact sub.call st (f.mono (C.pairing_le le))
    (.cons done (.cons u (.cons (.number _) (.cons receiver .nil))))

/-- One case for each method of arrays. Those with a callback go by the steps of `visitArray` and its kin, the others
read and write corresponding items. -/
theorem callArrayMethod (sub : Interpreter.Alike C sub₁ sub₂) (method : ArrayMethod)
    (st : C.At bound w s₁ s₂) (paired : (C.pairing w).arrays a b)
    (args : Value.AllAlike (C.pairing w) args₁ args₂) :
    C.Sim m C.Vals w (EvalM.callArrayMethod sub₁ a method args₁)
      (EvalM.callArrayMethod sub₂ b method args₂) s₁ s₂ := by
  have heap := st.heapAlike
  have items := heap.items paired
  have first := args.argument 0
  have call : ∀ {m w' t₁ t₂ f₁ f₂ v₁ v₂} (i : Nat), w ≤ w' → C.At bound w' t₁ t₂ →
      Value.Alike (C.pairing w') f₁ f₂ → Value.Alike (C.pairing w') v₁ v₂ →
      C.Sim m C.Vals w' (sub₁.call f₁ [v₁, .count i, .array a]) (sub₂.call f₂ [v₂, .count i, .array b])
        t₁ t₂ := fun i le st f v =>
    sub.call st f (.cons v (.cons (.number _) (.cons (.array ((C.pairing_le le).arrays paired)) .nil)))
  have test : ∀ {m w' t₁ t₂ f₁ f₂ v₁ v₂} (i : Nat), w ≤ w' → C.At bound w' t₁ t₂ →
      Value.Alike (C.pairing w') f₁ f₂ → Value.Alike (C.pairing w') v₁ v₂ →
      C.Sim m C.Same w' (do return (← sub₁.call f₁ [v₁, .count i, .array a]).isTruthy)
        (do return (← sub₂.call f₂ [v₂, .count i, .array b]).isTruthy) t₁ t₂ := fun i le st f v =>
    bind st (call i le st f v) fun _ st v => pure st.toAlike v.isTruthy_eq
  -- The items are listed after the callback has been looked at, and before it is called.
  have indexed : ∀ {w' t₁ t₂}, w ≤ w' → C.At bound w' t₁ t₂ →
      List.Forall₂ (Indexed.Alike (C.pairing w')) (t₁.heap.items a).toList.zipIdx
        (t₂.heap.items b).toList.zipIdx := fun le st =>
    (st.heapAlike.items ((C.pairing_le le).arrays paired)).zipIdx 0
  unfold EvalM.callArrayMethod
  cases method with
  | push =>
    refine checkWritable_bind st.toAlike paired fun unfrozen => ?_
    refine checkRoom_bind st.toAlike paired args.length_eq ?_
    exact modifyItems_bind st paired unfrozen (items.append args)
      fun le st => itemCount st.toAlike ((C.pairing_le le).arrays paired)
  | pop =>
    refine checkWritable_bind st.toAlike paired fun unfrozen => ?_
    apply readHeap_bind
    exact modifyItems_bind st paired unfrozen items.pop
      fun le st => pure st.toAlike (Value.Alike.mono (.getD items.back?) (C.pairing_le le))
  | shift =>
    refine checkWritable_bind st.toAlike paired fun unfrozen => ?_
    apply readHeap_bind
    exact modifyItems_bind st paired unfrozen (items.extract 1 items.length_eq)
      fun le st => pure st.toAlike (Value.Alike.mono (.getD (items.getElem? 0)) (C.pairing_le le))
  | unshift =>
    refine checkWritable_bind st.toAlike paired fun unfrozen => ?_
    refine checkRoom_bind st.toAlike paired args.length_eq ?_
    exact modifyItems_bind st paired unfrozen (Value.AllAlike.append args items)
      fun le st => itemCount st.toAlike ((C.pairing_le le).arrays paired)
  | reverse =>
    refine checkWritable_bind st.toAlike paired fun unfrozen => ?_
    refine modifyItems_bind st paired unfrozen ?_
      fun le st => pure st.toAlike (.array ((C.pairing_le le).arrays paired))
    rw [Array.toList_reverse, Array.toList_reverse]
    exact List.rel_reverse items
  | map =>
    refine bind st (callbackOf _ st.toAlike args) fun le st f => ?_
    apply readHeap_bind
    refine bind st (mapM rises_indexed rises_alike st (indexed le st)
      fun {w' t₁ t₂ x y} le' st item => ?_) fun le st values => newArray st.toAlike values
    obtain ⟨v₁, i⟩ := x
    obtain ⟨v₂, j⟩ := y
    obtain ⟨v, rfl⟩ := item
    exact call i (le_trans le le') st (f.mono (C.pairing_le le')) v
  | filter =>
    refine bind st (callbackOf _ st.toAlike args) fun le st f => ?_
    apply readHeap_bind
    refine bind st (filterM rises_indexed st (indexed le st) fun {w' t₁ t₂ x y} le' st item => ?_)
      fun le st kept => newArray st.toAlike (List.rel_map (fun _ _ h => h.1) kept)
    obtain ⟨v₁, i⟩ := x
    obtain ⟨v₂, j⟩ := y
    obtain ⟨v, rfl⟩ := item
    exact test i (le_trans le le') st (f.mono (C.pairing_le le')) v
  | find =>
    refine bind st (callbackOf _ st.toAlike args) fun le st f => ?_
    apply readHeap_bind
    refine bind st (findItem st (indexed le st) fun le' st v =>
      test _ (le_trans le le') st (f.mono (C.pairing_le le')) v) fun le st found => ?_
    exact pure st.toAlike (.getD (found.map fun h => h.1))
  | findIndex =>
    refine bind st (callbackOf _ st.toAlike args) fun le st f => ?_
    apply readHeap_bind
    refine bind st (findItem st (indexed le st) fun le' st v =>
      test _ (le_trans le le') st (f.mono (C.pairing_le le')) v) fun le st found => ?_
    exact pure st.toAlike (.index (found.map_eq fun h => h.2))
  | some =>
    refine bind st (callbackOf _ st.toAlike args) fun le st f => ?_
    apply readHeap_bind
    refine bind st (findItem st (indexed le st) fun le' st v =>
      test _ (le_trans le le') st (f.mono (C.pairing_le le')) v) fun le st found => ?_
    rw [found.isSome_eq]
    exact pure st.toAlike (.bool _)
  | every =>
    refine bind st (callbackOf _ st.toAlike args) fun le st f => ?_
    apply readHeap_bind
    refine bind st (findItem st (indexed le st) fun le' st v =>
      bind st (test _ (le_trans le le') st (f.mono (C.pairing_le le')) v)
        fun _ st holds => pure st.toAlike (congrArg not holds)) fun le st found => ?_
    rw [← Option.not_isSome, ← Option.not_isSome, found.isSome_eq]
    exact pure st.toAlike (.bool _)
  | forEach =>
    refine bind st (callbackOf _ st.toAlike args) fun le st f => ?_
    apply readHeap_bind
    refine bind (Q := C.Same) st (forM rises_indexed st (indexed le st)
      fun {w' t₁ t₂ x y} le' st item => ?_) fun _ st _ => pure st.toAlike .undefined
    obtain ⟨v₁, i⟩ := x
    obtain ⟨v₂, j⟩ := y
    obtain ⟨v, rfl⟩ := item
    exact discard st.toAlike (call i (le_trans le le') st (f.mono (C.pairing_le le')) v)
  | reduce =>
    refine bind st (callbackOf _ st.toAlike args) fun {w' t₁ t₂ f₁ f₂} le st f => ?_
    apply readHeap_bind
    have all := indexed le st
    have start := List.Forall₂.getElem? (args.mono (C.pairing_le le)) 1
    have paired := (C.pairing_le le).arrays paired
    generalize (t₁.heap.items a).toList.zipIdx = l₁ at all ⊢
    generalize (t₂.heap.items b).toList.zipIdx = l₂ at all ⊢
    generalize args₁[1]? = start₁ at start ⊢
    generalize args₂[1]? = start₂ at start ⊢
    cases start with
    | some v => exact foldReduce sub st paired f v all
    | none =>
      cases all with
      | nil => exact typeFault _ st.toAlike
      | @cons x y _ _ head tail =>
        obtain ⟨first₁, i⟩ := x
        obtain ⟨first₂, j⟩ := y
        exact foldReduce sub st paired f head.1 tail
  | includes =>
    exact readBool st.toAlike (by
      rw [← Array.any_toList, ← Array.any_toList, items.any_eq fun v => v.sameValueZero_eq first])
  | indexOf =>
    exact readHeap st.toAlike (.index (items.indexOf_eq first))
  | join =>
    apply readHeap_bind
    apply readHeap_bind
    refine joinItems st items ?_
    cases args with
    | nil => rfl
    | cons head =>
      have text := heap.text_eq head
      cases head with
      | undefined => rfl
      | _ => exact text
  | toString =>
    apply readHeap_bind
    exact joinItems st items rfl
  | slice =>
    apply readHeap_bind
    refine newArray st.toAlike ?_
    simp only [heap.size_eq paired, heap.positionOf_eq first, heap.positionOf_eq (args.argument 1)]
    exact items.extract _ rfl
  | concat =>
    apply readHeap_bind
    exact bind st (concatItems st items args) fun _ st all => newArray st.toAlike all

/-! ## Strings and numbers -/

theorem replacementText (sub : Interpreter.Alike C sub₁ sub₂) (pattern : List Char) (text : String)
    (position : Nat) (st : C.At bound w s₁ s₂) (replacement : Value.Alike (C.pairing w) t₁ t₂) :
    C.Sim m C.Same w (EvalM.replacementText sub₁ pattern text t₁ position)
      (EvalM.replacementText sub₂ pattern text t₂ position) s₁ s₂ := by
  have read : ∀ {w' u₁ u₂ v₁ v₂}, C.Alike w' u₁ u₂ → Value.Alike (C.pairing w') v₁ v₂ →
      C.Sim m C.Same w' (EvalM.readHeap (·.text v₁)) (EvalM.readHeap (·.text v₂)) u₁ u₂ :=
    fun st v => readHeap st ((C.alike st.heap).text_eq v)
  unfold EvalM.replacementText
  refine ite replacement.isCallable_eq (fun _ => ?_) fun _ => read st.toAlike replacement
  exact bind st (sub.call st replacement (.cons (.string _) (.cons (.number _) (.cons (.string _) .nil))))
    fun _ st v => read st.toAlike v

/-- What is put between the pieces is the same text, or what a callback makes of the same match. -/
theorem substitute (sub : Interpreter.Alike C sub₁ sub₂) (pattern : List Char) (text : String)
    (pieces : List (List Char)) (st : C.At bound w s₁ s₂)
    (replacement : Value.Alike (C.pairing w) t₁ t₂) :
    C.Sim m C.Vals w (EvalM.substitute sub₁ pattern text t₁ pieces)
      (EvalM.substitute sub₂ pattern text t₂ pieces) s₁ s₂ := by
  cases pieces with
  | nil => exact pure st.toAlike (.string "")
  | cons first more =>
    unfold EvalM.substitute
    refine bind (Q := C.Same) st (foldlM rises_both st (both_of_forall (fun _ _ => trivial)) rfl
      fun {w' u₁ u₂ done₁ done₂ x y} le st done piece => ?_) fun _ st done => ?_
    · obtain ⟨rfl, -⟩ := piece
      cases done
      refine bind st (replacementText sub pattern text _ st (replacement.mono (C.pairing_le le)))
        fun _ st between => ?_
      cases between
      exact pure st.toAlike rfl
    · cases done
      exact pure st.toAlike (.string _)

/-- Methods of texts give texts, which are the same on both sides, or arrays of texts, which are new. -/
theorem callStringMethod (sub : Interpreter.Alike C sub₁ sub₂) (text : String)
    (method : StringMethod) (st : C.At bound w s₁ s₂)
    (args : Value.AllAlike (C.pairing w) args₁ args₂) :
    C.Sim m C.Vals w (EvalM.callStringMethod sub₁ text method args₁)
      (EvalM.callStringMethod sub₂ text method args₂) s₁ s₂ := by
  have heap := st.heapAlike
  have first := args.argument 0
  have second := args.argument 1
  have firstText := heap.text_eq first
  unfold EvalM.callStringMethod
  cases method with
  | toUpperCase | toLowerCase | trim | trimStart | trimEnd | toString =>
    exact pure st.toAlike (.string _)
  | includes | startsWith | endsWith =>
    apply readHeap_bind
    rw [firstText]
    exact pure st.toAlike (.bool _)
  | indexOf =>
    apply readHeap_bind
    rw [firstText]
    exact pure st.toAlike (.index rfl)
  | charAt => exact readString st.toAlike (by rw [heap.toNumber_eq first])
  | slice =>
    refine readHeap st.toAlike ?_
    rw [heap.positionOf_eq first, heap.positionOf_eq second]
    exact .string _
  | substring =>
    refine readHeap st.toAlike ?_
    rw [heap.clampedIndex_eq first, heap.clampedIndex_eq second]
    exact .string _
  | split =>
    apply readHeap_bind
    rw [heap.splitText_eq text.toList first second]
    refine newArray st.toAlike (List.forall₂_same.2 fun v mem => ?_)
    -- The array is new, and texts correspond to themselves.
    obtain ⟨piece, _, rfl⟩ := List.mem_map.1 mem
    exact .string _
  | replace | replaceAll =>
    apply readHeap_bind
    rw [firstText]
    exact substitute sub _ text _ st second
  | padStart | padEnd =>
    apply readHeap_bind
    rw [heap.padding_eq text first second]
    exact bind st (ofExcept st.toAlike (checkAlike_refl padding_ne_thrown) (Q := C.Same) fun h => h)
      fun _ st pad => pad ▸ pure st.toAlike (.string _)
  | «repeat» =>
    apply readHeap_bind
    rw [heap.toNumber_eq first]
    exact bind st (ofExcept st.toAlike (checkAlike_refl repeatText_ne_thrown) (Q := C.Same) fun h => h)
      fun _ st done => done ▸ pure st.toAlike (.string _)

theorem callNumberMethod (x : Float) (method : NumberMethod) (st : C.Alike w s₁ s₂)
    (args : Value.AllAlike (C.pairing w) args₁ args₂) :
    C.Sim m C.Vals w (EvalM.callNumberMethod x method args₁)
      (EvalM.callNumberMethod x method args₂) s₁ s₂ := by
  have first := args.argument 0
  unfold EvalM.callNumberMethod
  apply readHeap_bind
  rw [(C.alike st.heap).toNumber_eq first]
  cases method with
  | toFixed =>
    refine ite rfl (fun _ => typeFault _ st) fun _ => ?_
    exact ite rfl (fun _ => pure st (.string _)) fun _ => pure st (.string _)
  | toString =>
    simp only [first.isUndefined_eq]
    exact ite rfl (fun _ => typeFault _ st) fun _ => pure st (.string _)

/-- A method found at corresponding receivers is the same one. -/
theorem callMethod (sub : Interpreter.Alike C sub₁ sub₂) (method : Method) (st : C.At bound w s₁ s₂)
    (receiver : Value.Alike (C.pairing w) t₁ t₂)
    (args : Value.AllAlike (C.pairing w) args₁ args₂) :
    C.Sim m C.Vals w (EvalM.callMethod sub₁ t₁ method args₁)
      (EvalM.callMethod sub₂ t₂ method args₂) s₁ s₂ := by
  have has : C.Sim m C.Vals w
      (EvalM.readHeap fun h => .bool (h.has t₁ (h.text (Value.argument args₁ 0))))
      (EvalM.readHeap fun h => .bool (h.has t₂ (h.text (Value.argument args₂ 0)))) s₁ s₂ :=
    readBool st.toAlike (by rw [st.heapAlike.has_eq receiver, st.heapAlike.text_eq (args.argument 0)])
  unfold EvalM.callMethod
  cases method with
  | array method =>
    cases receiver with
    | array paired => exact callArrayMethod sub method st paired args
    | _ => exact has
  | string method =>
    cases receiver with
    | string text => exact callStringMethod sub text method st args
    | _ => exact has
  | number method =>
    cases receiver with
    | number x => exact callNumberMethod x method st.toAlike args
    | _ => exact has
  | hasOwnProperty => exact has

end Sim

end Correspondence

end BindScript
