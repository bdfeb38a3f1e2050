import BindScript.Proofs.Correspondence.Step

/-!
# Names and properties in runs that correspond

Looking up, binding and assigning names correspond as far as the code keeps to its access, and so do
reading, writing and removing properties. The heap is written only where `canSet` or `canRemove` allows it,
which is where containers are not frozen (`set`, `remove`).
-/

namespace BindScript

open Correspondence

/-- Two interpreters do the same with every part that keeps to the access. -/
structure Interpreter.Alike (C : Correspondence) (sub₁ sub₂ : Interpreter) : Prop where
  turns : sub₁.turns = sub₂.turns
  expr : ∀ {m : Manner} {bound : List String} {w : C.World} {s₁ s₂ : State} {e : Expr},
    C.At bound w s₁ s₂ → e.Within C.access bound →
    C.Sim m C.Vals w (sub₁.expr e) (sub₂.expr e) s₁ s₂
  chain : ∀ {m : Manner} {bound : List String} {w : C.World} {s₁ s₂ : State} {e : Expr},
    C.At bound w s₁ s₂ → e.Within C.access bound →
    C.Sim m C.OptVals w (sub₁.chain e) (sub₂.chain e) s₁ s₂
  stmt : ∀ {bound : List String} {w : C.World} {s₁ s₂ : State} {s : Stmt},
    C.At bound w s₁ s₂ → s.Within C.access bound →
    C.Sim .statement C.Vals w (sub₁.stmt s) (sub₂.stmt s) s₁ s₂
  call : ∀ {m : Manner} {bound : List String} {w : C.World} {s₁ s₂ : State} {f₁ f₂ : Value}
    {args₁ args₂ : List Value}, C.At bound w s₁ s₂ → Value.Alike (C.pairing w) f₁ f₂ →
    Value.AllAlike (C.pairing w) args₁ args₂ →
    C.Sim m C.Vals w (sub₁.call f₁ args₁) (sub₂.call f₂ args₂) s₁ s₂

namespace Value.AllAlike

variable {p : Pairing} {items₁ items₂ : Array Value} {v₁ v₂ : Value}

theorem push (items : AllAlike p items₁.toList items₂.toList) (v : Value.Alike p v₁ v₂) :
    AllAlike p (items₁.push v₁).toList (items₂.push v₂).toList := by
  rw [Array.toList_push, Array.toList_push]
  exact List.rel_append items (.cons v .nil)

theorem append {more₁ more₂ : Array Value} (items : AllAlike p items₁.toList items₂.toList)
    (more : AllAlike p more₁.toList more₂.toList) :
    AllAlike p (items₁ ++ more₁).toList (items₂ ++ more₂).toList := by
  rw [Array.toList_append, Array.toList_append]
  exact List.rel_append items more

theorem extract (items : AllAlike p items₁.toList items₂.toList) (start : Nat) {stop stop' : Nat}
    (stops : stop = stop') :
    AllAlike p (items₁.extract start stop).toList (items₂.extract start stop').toList := by
  subst stops
  rw [Array.toList_extract, Array.toList_extract]
  exact List.forall₂_take _ (List.forall₂_drop _ items)

theorem itemD (items : AllAlike p items₁.toList items₂.toList) (i : Nat) :
    Value.Alike p (items₁.getD i .undefined) (items₂.getD i .undefined) := by
  have found := List.Forall₂.getD items .undefined i
  rwa [List.getD_eq_getElem?_getD, List.getD_eq_getElem?_getD, Array.getElem?_toList,
    Array.getElem?_toList, ← Array.getD_eq_getD_getElem?, ← Array.getD_eq_getD_getElem?] at found

theorem resizeItems (items : AllAlike p items₁.toList items₂.toList) (n : Nat) :
    AllAlike p (Heap.resizeItems items₁ n).toList (Heap.resizeItems items₂ n).toList := by
  have sizes : items₁.size = items₂.size := items.length_eq
  unfold Heap.resizeItems
  rw [sizes]
  split
  · rw [Array.toList_shrink, Array.toList_shrink]
    exact List.forall₂_take n items
  · rw [Array.toList_append, Array.toList_append, Array.toList_replicate]
    exact List.rel_append items (.replicate .undefined _)

theorem putItem (items : AllAlike p items₁.toList items₂.toList) (v : Value.Alike p v₁ v₂) (i : Nat) :
    AllAlike p (Heap.putItem items₁ i v₁).toList (Heap.putItem items₂ i v₂).toList := by
  have sizes : items₁.size = items₂.size := items.length_eq
  unfold Heap.putItem
  rw [sizes]
  split
  · rw [Array.toList_setIfInBounds, Array.toList_setIfInBounds]
    exact items.set v i
  · exact (items.resizeItems i).push v

theorem argument {args₁ args₂ : List Value} (args : AllAlike p args₁ args₂) (i : Nat) :
    Value.Alike p (Value.argument args₁ i) (Value.argument args₂ i) :=
  args.getD .undefined i

end Value.AllAlike

namespace Correspondence

variable {C : Correspondence} {w : C.World} {h₁ h₂ : Heap} {t₁ t₂ v₁ v₂ : Value} {key : String}

/-- Writing corresponding values under one key leaves the heaps in correspondence. -/
theorem set (heaps : C.heaps w h₁ h₂) (target : Value.Alike (C.pairing w) t₁ t₂)
    (value : Value.Alike (C.pairing w) v₁ v₂) (allowed : h₁.canSet t₁ key v₁ = true) :
    ∃ w', w ≤ w' ∧ C.heaps w' (h₁.set t₁ key v₁) (h₂.set t₂ key v₂) := by
  have alike := C.alike heaps
  cases target with
  | @array a b paired =>
    have unfrozen : (h₁.arrayAt a).frozen = false := by
      simp only [Heap.canSet, Bool.and_eq_true, Bool.not_eq_true'] at allowed
      exact allowed.1
    simp only [Heap.set, alike.toNumber_eq value]
    split
    · exact C.modifyItems heaps paired unfrozen ((alike.items paired).resizeItems _)
    · split
      · exact C.modifyItems heaps paired unfrozen ((alike.items paired).putItem value _)
      · exact ⟨w, le_refl w, heaps⟩
  | @object o o' paired =>
    have unfrozen : (h₁.objectAt o).frozen = false := by
      simpa only [Heap.canSet, Bool.not_eq_true'] using allowed
    exact C.modifyProperties (f := (·.insert key v₁)) (g := (·.insert key v₂)) heaps paired unfrozen
      (.inr (Entries.keys_subset_insert _ key v₁)) ((alike.properties paired).insert key value)
  | _ => exact ⟨w, le_refl w, heaps⟩

/-- Removing needs no more than a container that is not frozen, and code that may write. -/
theorem remove (writes : C.access.writes) (heaps : C.heaps w h₁ h₂)
    (target : Value.Alike (C.pairing w) t₁ t₂) (unfrozen : h₁.isFrozen t₁ = false) :
    ∃ w', w ≤ w' ∧ C.heaps w' (h₁.remove t₁ key) (h₂.remove t₂ key) := by
  have alike := C.alike heaps
  cases target with
  | array paired =>
    simp only [Heap.remove]
    split
    · refine C.modifyItems heaps paired unfrozen ?_
      rw [Array.toList_setIfInBounds, Array.toList_setIfInBounds]
      exact (alike.items paired).set .undefined _
    · exact ⟨w, le_refl w, heaps⟩
  | object paired =>
    exact C.modifyProperties heaps paired unfrozen (.inl writes) ((alike.properties paired).erase key)
  | _ => exact ⟨w, le_refl w, heaps⟩

namespace Sim

variable {m : Manner} {bound : List String} {s₁ s₂ : State} {name : String}

/-! ## Names -/

theorem define {kind : BindingKind} (st : C.Alike w s₁ s₂) (value : Value.Alike (C.pairing w) v₁ v₂) :
    C.Sim .binding (fun w env c₁ c₂ => (C.pairing w).cells c₁ c₂ ∧ name ∈ env.names) w
      (EvalM.define name v₁ kind) (EvalM.define name v₂ kind) s₁ s₂ := by
  obtain ⟨w', le, heaps, paired⟩ := C.newCell st.heap value
  have env : Environment.Alike (C.pairing w') (s₁.env.bind name s₁.heap.cells.size kind)
      (s₂.env.bind name s₂.heap.cells.size kind) := (st.env.mono (C.pairing_le le)).bind paired
  exact .ok le ⟨heaps, env, st.interrupted, st.console, st.notes⟩ (Environment.grows_bind ..)
    (Environment.grows_bind ..) ⟨paired, Environment.mem_names_bind.2 (.inr rfl)⟩

/-- A name is bound by the scopes of both sides or of neither. One that is not is looked up outside by code that may
read it. -/
theorem lookup (st : C.At bound w s₁ s₂) (reads : name ∈ bound ∨ C.access.reads name) :
    C.Sim m C.Vals w (EvalM.lookup C.left name) (EvalM.lookup C.right name) s₁ s₂ := by
  unfold EvalM.lookup
  apply readEnv_bind
  have found := st.env.find? name
  have unbound : s₁.env.find? name = none ↔ name ∉ s₁.env.names := Environment.find?_eq_none_iff
  generalize s₁.env.find? name = b₁ at found unbound ⊢
  generalize s₂.env.find? name = b₂ at found ⊢
  cases found with
  | some b => exact readHeap st.toAlike (st.heapAlike.cell b.cell)
  | none =>
    have reads := reads.resolve_left fun mem => unbound.1 rfl (st.bound _ mem)
    apply readHeap_bind
    have found := C.lookup st.heap reads
    generalize C.left.lookup s₁.heap name = v₁ at found ⊢
    generalize C.right.lookup s₂.heap name = v₂ at found ⊢
    cases found with
    | some v => exact pure st.toAlike v
    | none =>
      simp only
      rw [C.options_eq]
      exact ite rfl (fun _ => fail st.toAlike nofun) fun _ => pure st.toAlike .undefined

/-- A name that no scope binds is assigned only by code that may write. -/
theorem assignName (st : C.At bound w s₁ s₂) (value : Value.Alike (C.pairing w) v₁ v₂)
    (writes : name ∈ bound ∨ C.access.writes) :
    C.Sim m C.Same w (EvalM.assignName C.left name v₁) (EvalM.assignName C.right name v₂) s₁ s₂ := by
  unfold EvalM.assignName
  apply readEnv_bind
  refine ite (st.env.contains_eq name) (fun _ => ?bound) fun unbound => ?free
  case bound =>
    apply readEnv_bind
    have found := st.env.find? name
    unfold Environment.assignable
    generalize s₁.env.find? name = b₁ at found ⊢
    generalize s₂.env.find? name = b₂ at found ⊢
    cases found with
    | none => exact refuse (.undefinedVariable name) st.toAlike
    | @some b₁ b₂ b =>
      simp only [b.kind]
      cases b₂.kind.isMutable with
      | true => exact modifyHeap st.toAlike (C.setCell st.heap b.cell value) fun _ => rfl
      | false => exact refuse (.immutableBinding name) st.toAlike
  case free =>
    -- A name that is known to be bound was found, so this code may write.
    have writes := writes.resolve_left fun mem => by
      rw [Environment.contains_iff_mem_names.2 (st.bound _ mem)] at unbound
      cases unbound
    have locals := C.locals writes st.heap
    generalize C.left.locals = locals₁ at locals ⊢
    generalize C.right.locals = locals₂ at locals ⊢
    cases locals with
    | object paired =>
      have object := Value.Alike.object paired
      apply readHeap_bind
      exact ite (st.heapAlike.canSet_eq object value name)
        (fun allowed => modifyHeap st.toAlike (C.set st.heap object value allowed) fun _ => rfl)
        fun _ => typeFault _ st.toAlike
    | _ => exact typeFault _ st.toAlike

theorem startName (st : C.Alike w s₁ s₂) (value : Value.Alike (C.pairing w) v₁ v₂) :
    C.Sim m C.Same w (EvalM.startName name v₁) (EvalM.startName name v₂) s₁ s₂ := by
  unfold EvalM.startName
  apply readEnv_bind
  have found := st.env.find? name
  unfold Environment.initialCell
  generalize s₁.env.find? name = b₁ at found ⊢
  generalize s₂.env.find? name = b₂ at found ⊢
  cases found with
  | none => exact refuse (.undefinedVariable name) st
  | some b => exact modifyHeap st (C.setCell st.heap b.cell value) fun _ => rfl

/-! ## Properties -/

theorem getProperty (st : C.Alike w s₁ s₂) (target : Value.Alike (C.pairing w) t₁ t₂) :
    C.Sim m C.Vals w (EvalM.getProperty C.left t₁ key) (EvalM.getProperty C.right t₂ key) s₁ s₂ := by
  have heap := C.alike st.heap
  unfold EvalM.getProperty
  refine ite target.isNullish_eq (fun _ => ?_) fun _ => readHeap st (heap.get target key)
  rw [C.options_eq]
  refine ite rfl (fun _ => readHeap_bind ?_) fun _ => pure st .undefined
  rw [heap.text_eq target]
  exact typeFault _ st

/-- Writes a property, or tells why not, or breaks down. -/
private theorem writeOrRefuse (m : Manner) (key : String) (st : C.Alike w s₁ s₂)
    (target : Value.Alike (C.pairing w) t₁ t₂) (value : Value.Alike (C.pairing w) v₁ v₂) :
    C.Sim m C.Same w
      (do if ← EvalM.readHeap (·.clashes t₁ key v₁) then MonadExcept.throw Exit.clash
          else if ← EvalM.readHeap (·.canSet t₁ key v₁) then EvalM.modifyHeap (·.set t₁ key v₁)
          else EvalM.typeFault (.refusedWrite key (← EvalM.readHeap (·.isFrozen t₁))))
      (do if ← EvalM.readHeap (·.clashes t₂ key v₂) then MonadExcept.throw Exit.clash
          else if ← EvalM.readHeap (·.canSet t₂ key v₂) then EvalM.modifyHeap (·.set t₂ key v₂)
          else EvalM.typeFault (.refusedWrite key (← EvalM.readHeap (·.isFrozen t₂)))) s₁ s₂ := by
  have heap := C.alike st.heap
  apply readHeap_bind
  refine ite (heap.clashes_eq target value key) (fun _ => throw st .clash) fun _ => ?_
  apply readHeap_bind
  refine ite (heap.canSet_eq target value key)
    (fun allowed => modifyHeap st (C.set st.heap target value allowed) fun _ => rfl) fun _ => ?_
  apply readHeap_bind
  rw [heap.isFrozen_eq target]
  exact typeFault _ st

/-- A write is refused, or breaks down, in both runs or in neither. -/
theorem setProperty (st : C.Alike w s₁ s₂) (target : Value.Alike (C.pairing w) t₁ t₂)
    (value : Value.Alike (C.pairing w) v₁ v₂) :
    C.Sim m C.Same w (EvalM.setProperty t₁ key v₁) (EvalM.setProperty t₂ key v₂) s₁ s₂ := by
  have heap := C.alike st.heap
  have write := writeOrRefuse m key st target value
  unfold EvalM.setProperty
  cases target with
  | undefined | null => exact readHeap_bind (typeFault _ st)
  | array paired =>
    apply readHeap_bind
    exact ite (heap.exceedsLimit_eq value key) (fun _ => fail st nofun) fun _ => write
  | object paired => exact write
  | _ => exact pure st rfl

/-- The answer depends on what is frozen and on which members there are, and that is the same on both sides. -/
theorem deleteProperty (writes : C.access.writes) (st : C.At bound w s₁ s₂)
    (target : Value.Alike (C.pairing w) t₁ t₂) :
    C.Sim m C.Same w (EvalM.deleteProperty C.left t₁ key) (EvalM.deleteProperty C.right t₂ key)
      s₁ s₂ := by
  have heap := st.heapAlike
  -- what is not frozen answers after it has removed the property
  have gone : s₁.heap.isFrozen t₁ = false → C.Sim m C.Same w
      (do EvalM.modifyHeap (·.remove t₁ key); Pure.pure true)
      (do EvalM.modifyHeap (·.remove t₂ key); Pure.pure true) s₁ s₂ := fun unfrozen =>
    bind (Q := C.Same) st
      (modifyHeap st.toAlike (C.remove writes st.heap target unfrozen) fun _ => rfl)
      fun _ st _ => pure st.toAlike rfl
  unfold EvalM.deleteProperty
  cases target with
  | undefined | null =>
    refine ite (by rw [C.options_eq]) (fun _ => ?_) fun _ => pure st.toAlike rfl
    apply readHeap_bind
    exact bind (Q := Never) st (typeFault _ st.toAlike) fun _ _ never => never.elim
  | object paired =>
    apply readHeap_bind
    refine ite (heap.isFrozen_eq (.object paired)) (fun _ => ?_) gone
    apply readHeap_bind
    rw [heap.has_eq (.object paired)]
    exact pure st.toAlike rfl
  | array paired =>
    apply readHeap_bind
    refine ite (heap.isFrozen_eq (.array paired)) (fun _ => pure st.toAlike rfl) fun unfrozen => ?_
    apply readHeap_bind
    exact ite (heap.canRemove_eq (.array paired) key) (fun _ => gone unfrozen)
      fun _ => pure st.toAlike rfl
  | _ => exact pure st.toAlike rfl

/-- Paired collections are iterated over paired items. -/
theorem iterate (st : C.Alike w s₁ s₂) (value : Value.Alike (C.pairing w) v₁ v₂) :
    C.Sim m C.Arrays w (EvalM.iterate v₁) (EvalM.iterate v₂) s₁ s₂ := by
  have heap := C.alike st.heap
  unfold EvalM.iterate
  cases value with
  | array paired => exact readHeap st (heap.items paired)
  | string s =>
    refine pure st (List.forall₂_same.2 fun v mem => ?_)
    obtain ⟨c, _, rfl⟩ := List.mem_map.1 mem
    exact .string _
  | object paired => exact typeFault _ st
  | closure paired =>
    apply readHeap_bind
    rw [heap.text_eq (.closure paired)]
    exact typeFault _ st
  | _ => exact readHeap_bind (typeFault _ st)


/-- Items and spread items come in the same order in both runs. -/
theorem evalList {sub₁ sub₂ : Interpreter} (sub : Interpreter.Alike C sub₁ sub₂) {items : List Expr}
    (st : C.At bound w s₁ s₂) (within : Expr.AllWithin C.access items bound) :
    C.Sim m C.Arrays w (EvalM.evalList sub₁ items) (EvalM.evalList sub₂ items) s₁ s₂ := by
  unfold EvalM.evalList
  refine foldlM rises_both st (both_of_forall (Expr.allWithin_iff.1 within)) .nil
    fun {w' t₁ t₂ done₁ done₂ e₁ e₂} le st done item => ?_
  obtain ⟨rfl, item⟩ := item
  have one : C.Sim m C.Arrays w' (do return done₁.push (← sub₁.expr e₁))
      (do return done₂.push (← sub₂.expr e₁)) t₁ t₂ :=
    bind st (sub.expr st item) fun le st v =>
      pure st.toAlike (Value.AllAlike.push (done.mono (C.pairing_le le)) v)
  cases e₁ with
  | spread inner =>
    refine bind st (sub.expr st item) fun le st v => ?_
    refine bind st (iterate st.toAlike v) fun le' st values => ?_
    have done := done.mono (C.pairing_le (le_trans le le'))
    have sizes : done₁.size = done₂.size := done.length_eq
    have more : (_ : Array Value).size = (_ : Array Value).size := values.length_eq
    rw [sizes, more]
    refine bind st (ofExcept st.toAlike (checkArrayLength_alike _ _) (Q := C.Same) fun h => h)
      fun le'' st _ => pure st.toAlike ?_
    exact Value.AllAlike.append (done.mono (C.pairing_le le'')) (values.mono (C.pairing_le le''))
  | _ => exact one

end Sim

end Correspondence

end BindScript
