import BindScript.Proofs.Correspondence.Names
import BindScript.Evaluation.Native

/-!
# Native functions in runs that correspond

Native functions find out the same about arguments that are alike, and what they build or write is alike
(`Sim.invoke`).
-/

namespace BindScript

open Correspondence

variable {p : Pairing} {A : Access} {h₁ h₂ : Heap} {v₁ v₂ : Value}

theorem Value.Alike.indentOf_eq (v : Value.Alike p v₁ v₂) :
    NativeFn.indentOf v₁ = NativeFn.indentOf v₂ := by
  cases v <;> rfl

/-- Values that are picked from lists which are alike are alike. -/
theorem Value.AllAlike.pick {args₁ args₂ : List Value} (args : Value.AllAlike p args₁ args₂) (items : List Nat) :
    Value.AllAlike p (items.map (Value.argument args₁)) (items.map (Value.argument args₂)) := by
  induction items with
  | nil => exact .nil
  | cons i rest ih => exact .cons (args.argument i) ih

theorem Value.AllAlike.pickNamed {args₁ args₂ : List Value} (args : Value.AllAlike p args₁ args₂)
    (entries : List (String × Nat)) :
    Entries.Alike p (entries.map fun entry => (entry.1, Value.argument args₁ entry.2))
      (entries.map fun entry => (entry.1, Value.argument args₂ entry.2)) := by
  induction entries with
  | nil => exact .nil
  | cons entry rest ih => exact .cons ⟨rfl, args.argument entry.2⟩ ih

theorem Value.Alike.isArray_eq (v : Value.Alike p v₁ v₂) : v₁.isArray = v₂.isArray := by
  cases v <;> rfl

namespace Heap.Alike

variable (h : Heap.Alike p A h₁ h₂)
include h

theorem combineNumbers_eq (start : Float) (combine : Float → Float → Float)
    {args₁ args₂ : List Value} (args : Value.AllAlike p args₁ args₂) :
    NativeFn.combineNumbers h₁ start combine args₁ =
      NativeFn.combineNumbers h₂ start combine args₂ := by
  simp only [NativeFn.combineNumbers, args.map_eq fun v => h.toNumber_eq v]

theorem integerPrefix_eq (text : String) (v : Value.Alike p v₁ v₂) :
    NativeFn.integerPrefix h₁ text v₁ = NativeFn.integerPrefix h₂ text v₂ := by
  simp only [NativeFn.integerPrefix, NativeFn.radixOf, v.isUndefined_eq, v.isNullish_eq,
    h.toUInt32_eq v]

/-- A host sees the same of values that are alike. -/
theorem hostView_eq (v : Value.Alike p v₁ v₂) : h₁.hostView v₁ = h₂.hostView v₂ := by
  have literal : v₁.literal? = v₂.literal? := by cases v <;> rfl
  simp only [hostView, v.typeOf_eq, literal, v.isArray_eq, h.isFrozen_eq v, h.keys_eq v, h.text_eq v]

theorem consoleText_eq (v : Value.Alike p v₁ v₂) :
    NativeFn.consoleText h₁ v₁ = NativeFn.consoleText h₂ v₂ := by
  cases v with
  | array paired => exact h.debugText_eq (.array paired)
  | object paired => exact h.debugText_eq (.object paired)
  | closure paired => exact h.debugText_eq (.closure paired)
  | _ => rfl

end Heap.Alike

namespace Correspondence

variable {C : Correspondence} {w : C.World} {h₁ h₂ : Heap}

/-! ## Documents -/

mutual

/-- What is built of one document is alike. -/
theorem ofDocument : ∀ (d : JsonText.Document) {w : C.World} {h₁ h₂ : Heap}, C.heaps w h₁ h₂ →
    ∃ w', w ≤ w' ∧ C.heaps w' (h₁.ofDocument d).2 (h₂.ofDocument d).2 ∧
      Value.Alike (C.pairing w') (h₁.ofDocument d).1 (h₂.ofDocument d).1
  | .null, w, _, _, heaps => ⟨w, le_refl w, heaps, .null⟩
  | .bool b, w, _, _, heaps => ⟨w, le_refl w, heaps, .bool b⟩
  | .number n, w, _, _, heaps => ⟨w, le_refl w, heaps, .number n.value⟩
  | .string s, w, _, _, heaps => ⟨w, le_refl w, heaps, .string s⟩
  | .array items, w, _, _, heaps => by
    have none : Value.AllAlike (C.pairing w) (#[] : Array Value).toList (#[] : Array Value).toList := .nil
    obtain ⟨w₁, le₁, heaps, values⟩ := ofDocuments items heaps none
    obtain ⟨w₂, le₂, heaps, paired⟩ := C.newArray heaps values
    exact ⟨w₂, le_trans le₁ le₂, heaps, .array paired⟩
  | .object members, w, _, _, heaps => by
    have none : Entries.Alike (C.pairing w) [] [] := .nil
    obtain ⟨w₁, le₁, heaps, properties⟩ := ofMembers members heaps none
    obtain ⟨w₂, le₂, heaps, paired⟩ := C.newObject heaps properties
    exact ⟨w₂, le_trans le₁ le₂, heaps, .object paired⟩

theorem ofDocuments : ∀ (ds : List JsonText.Document) {w : C.World} {h₁ h₂ : Heap}
    {done₁ done₂ : Array Value}, C.heaps w h₁ h₂ →
    Value.AllAlike (C.pairing w) done₁.toList done₂.toList →
    ∃ w', w ≤ w' ∧ C.heaps w' (h₁.ofDocuments done₁ ds).2 (h₂.ofDocuments done₂ ds).2 ∧
      Value.AllAlike (C.pairing w') (h₁.ofDocuments done₁ ds).1.toList
        (h₂.ofDocuments done₂ ds).1.toList
  | [], w, _, _, _, _, heaps, done => ⟨w, le_refl w, heaps, done⟩
  | d :: rest, w, _, _, _, _, heaps, done => by
    obtain ⟨w₁, le₁, heaps, value⟩ := ofDocument d heaps
    have done := done.mono (C.pairing_le le₁)
    obtain ⟨w₂, le₂, heaps, values⟩ := ofDocuments rest heaps (done.push value)
    exact ⟨w₂, le_trans le₁ le₂, heaps, values⟩

theorem ofMembers : ∀ (ds : List (String × JsonText.Document)) {w : C.World} {h₁ h₂ : Heap}
    {done₁ done₂ : Entries Value}, C.heaps w h₁ h₂ → Entries.Alike (C.pairing w) done₁ done₂ →
    ∃ w', w ≤ w' ∧ C.heaps w' (h₁.ofMembers done₁ ds).2 (h₂.ofMembers done₂ ds).2 ∧
      Entries.Alike (C.pairing w') (h₁.ofMembers done₁ ds).1 (h₂.ofMembers done₂ ds).1
  | [], w, _, _, _, _, heaps, done => ⟨w, le_refl w, heaps, done⟩
  | (key, d) :: rest, w, _, _, _, _, heaps, done => by
    obtain ⟨w₁, le₁, heaps, value⟩ := ofDocument d heaps
    have done := Entries.Alike.mono done (C.pairing_le le₁)
    obtain ⟨w₂, le₂, heaps, entries⟩ := ofMembers rest heaps (done.insert key value)
    exact ⟨w₂, le_trans le₁ le₂, heaps, entries⟩

end

namespace Sim

variable {β : Type} {m : Manner} {bound : List String} {s₁ s₂ : State} {t₁ t₂ u₁ u₂ : Value}
  {args₁ args₂ : List Value}

/-! ## Native functions -/

/-- The entries are written one by one, in the same order. -/
theorem copyEntries {entries₁ entries₂ : List (String × Value)} (st : C.At bound w s₁ s₂)
    (target : Value.Alike (C.pairing w) t₁ t₂)
    (entries : Entries.Alike (C.pairing w) entries₁ entries₂) :
    C.Sim m C.Same w (NativeFn.copyEntries t₁ entries₁) (NativeFn.copyEntries t₂ entries₂) s₁ s₂ := by
  unfold NativeFn.copyEntries
  refine forM rises_entry st entries fun {w' _ _ x y} le st entry => ?_
  obtain ⟨key, v₁⟩ := x
  obtain ⟨key', v₂⟩ := y
  obtain ⟨rfl, value⟩ := entry
  have target := target.mono (C.pairing_le le)
  apply readHeap_bind
  exact ite (st.heapAlike.canSet_eq target value key)
    (fun allowed => modifyHeap st.toAlike (C.set st.heap target value allowed) fun _ => rfl)
    fun _ => typeFault _ st.toAlike

theorem assignAll (st : C.At bound w s₁ s₂) (target : Value.Alike (C.pairing w) t₁ t₂)
    (sources : Value.AllAlike (C.pairing w) args₁ args₂) :
    C.Sim m C.Vals w (NativeFn.assignAll t₁ args₁) (NativeFn.assignAll t₂ args₂) s₁ s₂ := by
  unfold NativeFn.assignAll
  cases target with
  | object paired =>
    have target := Value.Alike.object paired
    refine bind (Q := C.Same) st (forM rises_alike st sources fun le st source => ?_)
      fun le st _ => pure st.toAlike (target.mono (C.pairing_le le))
    apply readHeap_bind
    exact copyEntries st (target.mono (C.pairing_le le)) (st.heapAlike.entries source)
  | _ => exact typeFault _ st.toAlike

theorem readNumber {f₁ f₂ : Heap → Float} (st : C.Alike w s₁ s₂) (eq : f₁ s₁.heap = f₂ s₂.heap) :
    C.Sim m C.Vals w (EvalM.readHeap fun h => .number (f₁ h)) (EvalM.readHeap fun h => .number (f₂ h))
      s₁ s₂ :=
  readHeap st (eq ▸ .number _)

theorem readString {f₁ f₂ : Heap → String} (st : C.Alike w s₁ s₂) (eq : f₁ s₁.heap = f₂ s₂.heap) :
    C.Sim m C.Vals w (EvalM.readHeap fun h => .string (f₁ h)) (EvalM.readHeap fun h => .string (f₂ h))
      s₁ s₂ :=
  readHeap st (eq ▸ .string _)

theorem readBool {f₁ f₂ : Heap → Bool} (st : C.Alike w s₁ s₂) (eq : f₁ s₁.heap = f₂ s₂.heap) :
    C.Sim m C.Vals w (EvalM.readHeap fun h => .bool (f₁ h)) (EvalM.readHeap fun h => .bool (f₂ h))
      s₁ s₂ :=
  readHeap st (eq ▸ .bool _)

theorem console (line : String) (st : C.Alike w s₁ s₂) :
    C.Sim m C.Same w (modify fun s => { s with console := s.console.push line })
      (modify fun s => { s with console := s.console.push line }) s₁ s₂ :=
  .ok (le_refl w) ⟨st.heap, st.env, st.interrupted, congrArg (·.push line) st.console, st.notes⟩
    (m.keeps_refl _) (m.keeps_refl _) rfl

theorem interrupt (st : C.Alike w s₁ s₂) :
    C.Sim m C.Same w (modify fun s => { s with interrupted := true })
      (modify fun s => { s with interrupted := true }) s₁ s₂ :=
  .ok (le_refl w) ⟨st.heap, st.env, rfl, st.console, st.notes⟩ (m.keeps_refl _) (m.keeps_refl _) rfl

theorem note (text : String) (st : C.Alike w s₁ s₂) :
    C.Sim m C.Same w (modify fun s => { s with notes := text :: s.notes })
      (modify fun s => { s with notes := text :: s.notes }) s₁ s₂ :=
  .ok (le_refl w) ⟨st.heap, st.env, st.interrupted, st.console, congrArg (text :: ·) st.notes⟩
    (m.keeps_refl _) (m.keeps_refl _) rfl

theorem readNotes_bind {g₁ g₂ : List String → EvalM β} {Q : C.Post β}
    (next : C.Sim m Q w (g₁ s₁.notes) (g₂ s₂.notes) s₁ s₂) :
    C.Sim m Q w (EvalM.readNotes >>= g₁) (EvalM.readNotes >>= g₂) s₁ s₂ :=
  next

theorem writeIfTaken (key : String) (st : C.At bound w s₁ s₂) (target : Value.Alike (C.pairing w) t₁ t₂)
    (value : Value.Alike (C.pairing w) u₁ u₂) :
    C.Sim m C.Same w (EvalM.writeIfTaken t₁ key u₁) (EvalM.writeIfTaken t₂ key u₂) s₁ s₂ := by
  have heap := st.heapAlike
  unfold EvalM.writeIfTaken
  apply readHeap_bind
  refine ite ?_ (fun allowed => ?_) fun _ => pure st.toAlike rfl
  · rw [heap.canSet_eq target value key, heap.clashes_eq target value key]
  · have allowed := (Bool.and_eq_true_iff.1 allowed).1
    exact bind (Q := C.Same) st (modifyHeap st.toAlike (C.set st.heap target value allowed) fun _ => rfl)
      fun _ st _ => pure st.toAlike rfl

/-- A host goes through its program in the same way, since it sees the same of values that are alike. -/
theorem run (program : HostProgram) (st : C.At bound w s₁ s₂)
    (held : Value.AllAlike (C.pairing w) args₁ args₂) :
    C.Sim m C.Vals w (program.run args₁) (program.run args₂) s₁ s₂ := by
  have heap := st.heapAlike
  -- By induction on the program, whose values are held in two lists that correspond.
  induction program generalizing w s₁ s₂ args₁ args₂ with
  | answer i => exact pure st.toAlike (held.argument i)
  | fail text => exact typeFault _ st.toAlike
  | look i next ih =>
    apply readHeap_bind
    rw [heap.hostView_eq (held.argument i)]
    exact ih _ st held heap
  | same i j next ih =>
    unfold HostProgram.run
    rw [(held.argument i).strictEquals_eq (held.argument j)]
    exact ih _ st held heap
  | hold literal next ih => exact ih st (List.rel_append held (.cons (.ofLiteral _ literal) .nil)) heap
  | get i key next ih =>
    apply readHeap_bind
    exact ih st (List.rel_append held (.cons (heap.get (held.argument i) key) .nil)) heap
  | newArray items next ih =>
    refine bind st (newArray st.toAlike (held.pick items)) fun le st made => ?_
    exact ih st (List.rel_append (held.mono (C.pairing_le le)) (.cons made .nil)) st.heapAlike
  | newObject entries next ih =>
    refine bind st (newObject st.toAlike (Entries.Alike.insertAll .nil (held.pickNamed entries))) fun le st made => ?_
    exact ih st (List.rel_append (held.mono (C.pairing_le le)) (.cons made .nil)) st.heapAlike
  | set i key j next ih =>
    refine bind st (writeIfTaken key st (held.argument i) (held.argument j)) fun le st taken => ?_
    cases taken
    exact ih _ st (held.mono (C.pairing_le le)) st.heapAlike
  | freeze i next ih =>
    refine bind (Q := C.Same) st (modifyHeap st.toAlike (C.freeze st.heap (held.argument i)) fun _ => rfl)
      fun le st _ => ih st (held.mono (C.pairing_le le)) st.heapAlike
  | interrupt next ih =>
    exact bind (Q := C.Same) st (interrupt st.toAlike) fun le st _ =>
      ih st (held.mono (C.pairing_le le)) st.heapAlike
  | note text next ih =>
    exact bind (Q := C.Same) st (note text st.toAlike) fun le st _ =>
      ih st (held.mono (C.pairing_le le)) st.heapAlike
  | readNotes next ih =>
    apply readNotes_bind
    rw [st.notes]
    exact ih _ st held heap

/-- The native function computes the same of arguments that are alike. -/
theorem invoke (f : NativeFn) (st : C.At bound w s₁ s₂)
    (args : Value.AllAlike (C.pairing w) args₁ args₂) :
    C.Sim m C.Vals w (f.invoke args₁) (f.invoke args₂) s₁ s₂ := by
  have heap := st.heapAlike
  have first := args.argument 0
  have number := heap.toNumber_eq first
  have text := heap.text_eq first
  unfold NativeFn.invoke
  cases f with
  | abs | ceil | floor | round | sqrt | sign | trunc =>
    exact readNumber st.toAlike (congrArg _ number)
  | pow => exact readNumber st.toAlike (by rw [number, heap.toNumber_eq (args.argument 1)])
  | min | max => exact readNumber st.toAlike (heap.combineNumbers_eq _ _ args)
  | stringify =>
    apply readHeap_bind
    -- Corresponding values have one text, though what they are made of is at different addresses.
    rw [heap.json_eq first, (args.argument 2).indentOf_eq]
    cases Heap.json _ _ _ with
    | text text => exact pure st.toAlike (.string text)
    | omitted => exact pure st.toAlike .undefined
    | tooDeep => exact typeFault _ st.toAlike
  | parse =>
    apply readHeap_bind
    rw [text]
    cases JsonText.parse _ with
    | ok document =>
      obtain ⟨w', le, heaps, value⟩ := ofDocument document st.heap
      exact allocate st.toAlike ⟨w', le, heaps, value⟩
    | error e => exact typeFault _ st.toAlike
  | keys =>
    apply readHeap_bind
    rw [heap.keys_eq first]
    refine newArray st.toAlike (List.forall₂_same.2 fun v mem => ?_)
    obtain ⟨key, _, rfl⟩ := List.mem_map.1 mem
    exact .string key
  | values =>
    apply readHeap_bind
    exact newArray st.toAlike (heap.entries first).values
  | entries =>
    apply readHeap_bind
    refine bind st (mapM rises_entry rises_alike st (heap.entries first)
      fun {w' _ _ x y} le st entry => ?_) fun le st pairs => newArray st.toAlike pairs
    obtain ⟨key, v₁⟩ := x
    obtain ⟨key', v₂⟩ := y
    obtain ⟨rfl, value⟩ := entry
    exact newArray st.toAlike (.cons (.string key) (.cons value .nil))
  | assign => exact assignAll st first (List.forall₂_drop 1 args)
  | freeze =>
    exact bind (Q := C.Same) st (modifyHeap st.toAlike (C.freeze st.heap first) fun _ => rfl)
      fun le st _ => pure st.toAlike (first.mono (C.pairing_le le))
  | isFrozen =>
    apply readHeap_bind
    rw [heap.isFrozen_eq first]
    exact pure st.toAlike (.bool _)
  | isArray =>
    simp only [first.isArray_eq]
    exact pure st.toAlike (.bool _)
  | number =>
    cases args with
    | nil => exact pure st.toAlike (.number 0.0)
    | cons => exact readNumber st.toAlike number
  | string =>
    cases args with
    | nil => exact pure st.toAlike (.string "")
    | cons => exact readString st.toAlike text
  | boolean =>
    simp only [first.isTruthy_eq]
    exact pure st.toAlike (.bool _)
  | parseInt =>
    exact readNumber st.toAlike (by rw [text, heap.integerPrefix_eq _ (args.argument 1)])
  | parseFloat => exact readNumber st.toAlike (by rw [text])
  | isNaN => exact readBool st.toAlike (by rw [number])
  | log =>
    apply readHeap_bind
    rw [args.map_eq fun v => heap.consoleText_eq v]
    refine bind (Q := C.Same) st (console _ st.toAlike) fun _ st _ => pure st.toAlike .undefined
  | host fn =>
    dsimp only
    rw [args.length_eq]
    exact run _ st args

end Sim

end Correspondence

end BindScript
