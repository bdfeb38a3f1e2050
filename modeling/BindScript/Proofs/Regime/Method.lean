import BindScript.Proofs.Correspondence.Method
import BindScript.Proofs.Regime.Binding
import BindScript.Proofs.Regime.Size

/-!
# Built-in methods in a regime

What a method gives and what it writes is as the regime says. Where sizes are watched, this is what the checks of
the methods are for: `push` and the like ask for room first (`checkRoom_bind`), others cut from what is there, and
the methods that do not check are not called.
-/

namespace BindScript.Regime

variable {R : Regime} {sub₁ sub₂ : Interpreter} {v f : Value} {args : List Value} {a : Nat}

theorem length_three : R.Length 3 :=
  fun _ => by decide

theorem length_four : R.Length 4 :=
  fun _ => by decide

/-- What an array has, with indices. -/
def Indexed (R : Regime) (entries : List (Value × Nat)) : Prop :=
  (∀ entry ∈ entries, R.Holds entry.1) ∧ R.Length entries.length

theorem Fits.indexed {h : Heap} (fits : R.Fits h) (inside : R.Holds (.array a)) :
    R.Indexed (h.items a).toList.zipIdx := by
  refine ⟨fun entry mem => ?_, ?_⟩
  · obtain ⟨-, -, item⟩ := List.mem_zipIdx (x := entry.1) (i := entry.2) mem
    exact fits.items inside _ (item ▸ List.getElem_mem _)
  · rw [List.length_zipIdx]
    exact fits.lengths a inside.1

namespace Follows

variable {α : Type} {P : α → Prop}

theorem checkedLength (n : Nat) : R.Follows (fun _ => n ≤ maxArrayLength) (EvalM.ofExcept (checkArrayLength n))
    (EvalM.ofExcept (checkArrayLength n)) := by
  refine ofExcept (fun _ => le_of_checkArrayLength) fun v => ?_
  unfold checkArrayLength
  split <;> nofun

theorem checkedBytes (n : Nat) : R.Follows (fun _ => n ≤ maxStringLength) (EvalM.ofExcept (checkStringLength n))
    (EvalM.ofExcept (checkStringLength n)) := by
  refine ofExcept (fun _ => le_of_checkStringLength) fun v => ?_
  unfold checkStringLength
  split <;> nofun

/-! ## Arrays -/

theorem callbackOf (method : String) (argsHold : ∀ v ∈ args, R.Holds v) :
    R.Follows R.Holds (EvalM.callbackOf args method) (EvalM.callbackOf args method) := by
  unfold EvalM.callbackOf
  exact ite (fun _ => pure (Holds.argument argsHold 0)) fun _ => reading fun _ => typeFault _

theorem checkWritable (a : Nat) :
    R.Follows (fun _ => True) (EvalM.checkWritable a) (EvalM.checkWritable a) := by
  unfold EvalM.checkWritable
  exact reading fun _ => ite (fun _ => typeFault _) fun _ => pure trivial

theorem itemCount (a : Nat) : R.Follows R.Holds (EvalM.itemCount a) (EvalM.itemCount a) :=
  readHeap fun _ _ => holds_number _

/-- Writes the items of an array, and goes on. -/
theorem modifyItems_bind {change : Array Value → Array Value} {x : EvalM α} (inside : R.Holds (.array a))
    (holds : ∀ items : Array Value, (∀ v ∈ items.toList, R.Holds v) → ∀ v ∈ (change items).toList, R.Holds v)
    (smaller : ∀ items, (change items).size ≤ items.size) (next : R.Follows P x x) :
    R.Follows P (do EvalM.modifyHeap (·.modifyItems a change); x) (do EvalM.modifyHeap (·.modifyItems a change); x) :=
  bind (modifyHeap fun _ fits => fits.modifyItems inside (holds _ (fits.items inside))
    fun sized => (smaller _).trans (fits.lengths a inside.1 sized)) fun _ _ => next

/-- The check changes nothing, so where the array is written there is the room that was asked for. -/
theorem checkRoom_bind {more : Nat} {change : Array Value → Array Value} {x : EvalM α} (inside : R.Holds (.array a))
    (holds : ∀ items : Array Value, (∀ v ∈ items.toList, R.Holds v) → ∀ v ∈ (change items).toList, R.Holds v)
    (size : ∀ items, (change items).size = items.size + more) (next : R.Follows P x x) :
    R.Follows P (do EvalM.checkRoom a more; EvalM.modifyHeap (·.modifyItems a change); x)
      (do EvalM.checkRoom a more; EvalM.modifyHeap (·.modifyItems a change); x) := by
  intro s state
  by_cases full : maxArrayLength < (s.heap.items a).size + more
  · have refused : EvalM.checkRoom a more s = .error (.error (.range .arrayLength)) s := by
      show EvalM.ofExcept (checkArrayLength _) s = _
      rw [checkArrayLength, if_pos full]
      rfl
    rw [EvalM.bind_of_error refused]
    exact .error state trivial
  · have passed : EvalM.checkRoom a more s = .ok () s := by
      show EvalM.ofExcept (checkArrayLength _) s = _
      rw [checkArrayLength, if_neg full]
      rfl
    rw [EvalM.bind_of_ok passed]
    refine next _ (state.inHeap (state.heap.modifyItems inside (holds _ (state.heap.items inside)) fun _ => ?_))
    rw [size]
    exact Nat.not_lt.1 full

theorem joinItems {items : Array Value} (separator : String) :
    R.Follows R.Holds (EvalM.joinItems items separator) (EvalM.joinItems items separator) := by
  unfold EvalM.joinItems
  refine reading fun parts => bind (checkedBytes _) fun _ room => pure (holds_string fun _ => ?_)
  exact (EvalM.size_of_joined separator parts).le.trans room

/-- The length is checked before anything is appended. -/
theorem concatItems {start : Array Value} (startHolds : ∀ v ∈ start.toList, R.Holds v)
    (startLength : R.Length start.size) (argsHold : ∀ v ∈ args, R.Holds v) :
    R.Follows (fun items : Array Value => (∀ v ∈ items.toList, R.Holds v) ∧ R.Length items.size)
      (EvalM.concatItems start args)
      (EvalM.concatItems start args) := by
  refine foldlM (I := fun _ (items : Array Value) => (∀ v ∈ items.toList, R.Holds v) ∧ R.Length items.size)
    (fun past v mem done held => ?_) ⟨startHolds, startLength⟩
  refine bind (P := fun more : Option (Array Value) => ∀ items ∈ more, ∀ v ∈ items.toList, R.Holds v)
    (readHeap fun h fits items found => ?_) fun more moreHolds => ?_
  · unfold Heap.arrayItems? at found
    split at found <;> cases found
    exact fits.items (argsHold _ mem)
  · cases more with
    | some more =>
      refine bind (checkedLength _) fun _ room => pure ⟨fun v mem => ?_, fun _ => ?_⟩
      · rw [Array.toList_append] at mem
        exact (List.mem_append.1 mem).elim (held.1 v) (moreHolds more rfl v)
      · rw [Array.size_append]
        exact room
    | none =>
      refine bind (checkedLength _) fun _ room => pure ⟨fun v mem => ?_, fun _ => ?_⟩
      · rw [Array.toList_push] at mem
        rcases List.mem_append.1 mem with mem | mem
        · exact held.1 v mem
        · exact List.mem_singleton.1 mem ▸ argsHold _ ‹_›
      · rw [Array.size_push]
        exact room

theorem findItem {test₁ test₂ : Value → Nat → EvalM Bool} {entries : List (Value × Nat)}
    (entriesHold : ∀ entry ∈ entries, R.Holds entry.1)
    (test : ∀ v i, R.Holds v → R.Follows (fun _ => True) (test₁ v i) (test₂ v i)) :
    R.Follows (fun found => ∀ entry ∈ found, R.Holds entry.1) (EvalM.findItem test₁ entries)
      (EvalM.findItem test₂ entries) := by
  induction entries with
  | nil => exact pure nofun
  | cons entry rest ih =>
    obtain ⟨item, i⟩ := entry
    obtain ⟨head, tail⟩ := List.forall_mem_cons.1 entriesHold
    unfold EvalM.findItem
    refine bind (test item i head) fun found _ => ite (fun _ => pure ?_) fun _ => ih tail
    rintro _ ⟨⟩
    exact head

/-- The items of an array, for a callback. -/
private theorem mapped {β : Type} {Q : β → Prop} {x₁ x₂ : List (Value × Nat) → EvalM β} (inside : R.Holds (.array a))
    (next : ∀ entries, R.Indexed entries → R.Follows Q (x₁ entries) (x₂ entries)) :
    R.Follows Q (EvalM.readHeap (fun h => (h.items a).toList.zipIdx) >>= x₁)
      (EvalM.readHeap (fun h => (h.items a).toList.zipIdx) >>= x₂) :=
  bind (readHeap fun _ fits => fits.indexed inside) next

/-- One case for each method. The items of a new array are old ones, arguments, or what a callback gives. -/
theorem callArrayMethod (sub : R.Interprets sub₁ sub₂) (method : ArrayMethod) (inside : R.Holds (.array a))
    (argsHold : ∀ v ∈ args, R.Holds v) :
    R.Follows R.Holds (EvalM.callArrayMethod sub₁ a method args) (EvalM.callArrayMethod sub₂ a method args) := by
  have call : ∀ {f : Value}, R.Holds f → ∀ v i, R.Holds v →
      R.Follows R.Holds (sub₁.call f [v, .count i, .array a]) (sub₂.call f [v, .count i, .array a]) :=
    fun callable v i holds => sub.call _ _ callable (by simp [holds, inside, Value.count, holds_number]) length_three
  have test : ∀ {f : Value}, R.Holds f → ∀ v i, R.Holds v →
      R.Follows (fun _ => True) (do return (← sub₁.call f [v, .count i, .array a]).isTruthy)
        (do return (← sub₂.call f [v, .count i, .array a]).isTruthy) :=
    fun callable v i holds => bind (call callable v i holds) fun _ _ => pure trivial
  have getD : ∀ {found : Option Value}, (∀ v ∈ found, R.Holds v) → R.Holds (found.getD .undefined) := by
    intro found holds
    cases found with
    | none => exact holds_undefined
    | some v => exact holds v rfl
  unfold EvalM.callArrayMethod
  cases method with
  -- what is put into the array was an argument, and there is room for all of it
  | push =>
    refine bind (checkWritable a) fun _ _ => checkRoom_bind inside (fun items holds v mem => ?_)
      (fun items => by simp) (itemCount a)
    rw [Array.toList_append] at mem
    exact (List.mem_append.1 mem).elim (holds v) (argsHold v)
  | unshift =>
    refine bind (checkWritable a) fun _ _ => checkRoom_bind inside (fun items holds v mem => ?_)
      (fun items => by simp [Nat.add_comm]) (itemCount a)
    rw [Array.toList_append] at mem
    exact (List.mem_append.1 mem).elim (argsHold v) (holds v)
  | pop =>
    refine bind (checkWritable a) fun _ _ => ?_
    refine bind (P := fun last => ∀ v ∈ last, R.Holds v) (readHeap fun h fits v found => ?_) fun last holds => ?_
    · exact fits.items inside v (Array.mem_toList_iff.2 (Array.mem_of_back? found))
    · refine modifyItems_bind inside (fun items holds v mem => ?_) (fun items => ?_) (pure (getD holds))
      · rw [Array.toList_pop] at mem
        exact holds v (List.mem_of_mem_dropLast mem)
      · rw [Array.size_pop]
        exact Nat.sub_le _ _
  | shift =>
    refine bind (checkWritable a) fun _ _ => ?_
    refine bind (P := fun first => ∀ v ∈ first, R.Holds v) (readHeap fun h fits v found => ?_) fun first holds => ?_
    · exact fits.items inside v (Array.mem_toList_iff.2 (Array.mem_of_getElem? found))
    · refine modifyItems_bind inside (fun items holds v mem => ?_) (fun items => ?_) (pure (getD holds))
      · rw [Array.toList_extract, List.extract_eq_take_drop] at mem
        exact holds v (List.mem_of_mem_drop (List.mem_of_mem_take mem))
      · rw [Array.size_extract]
        omega
  | reverse =>
    refine bind (checkWritable a) fun _ _ => ?_
    refine modifyItems_bind inside (fun items holds v mem => ?_) (fun items => ?_) (pure inside)
    · rw [Array.toList_reverse, List.mem_reverse] at mem
      exact holds v mem
    · rw [Array.size_reverse]
  | map =>
    refine bind (callbackOf _ argsHold) fun f callable => mapped inside fun entries indexed => ?_
    refine bind (mapM fun entry mem => call callable _ _ (indexed.1 entry mem)) fun values made => ?_
    refine newArray made.2 ?_
    rw [List.size_toArray, made.1]
    exact indexed.2
  | filter =>
    refine bind (callbackOf _ argsHold) fun f callable => mapped inside fun entries indexed => ?_
    refine bind (filterM fun entry mem => test callable _ _ (indexed.1 entry mem)) fun kept among => ?_
    refine newArray (List.forall_mem_map.2 fun entry mem => indexed.1 entry (among.subset mem)) fun sized => ?_
    rw [List.size_toArray, List.length_map]
    exact among.length_le.trans (indexed.2 sized)
  | find =>
    refine bind (callbackOf _ argsHold) fun f callable => mapped inside fun entries indexed => ?_
    refine bind (findItem indexed.1 fun v i => test callable v i) fun found holds => pure (getD ?_)
    intro v same
    obtain ⟨entry, mem, rfl⟩ := Option.map_eq_some_iff.1 same
    exact holds entry mem
  | findIndex =>
    refine bind (callbackOf _ argsHold) fun f callable => mapped inside fun entries indexed => ?_
    exact bind (findItem indexed.1 fun v i => test callable v i) fun found _ => pure (holds_index _)
  | some =>
    refine bind (callbackOf _ argsHold) fun f callable => mapped inside fun entries indexed => ?_
    exact bind (findItem indexed.1 fun v i => test callable v i) fun found _ => pure (holds_bool _)
  | every =>
    refine bind (callbackOf _ argsHold) fun f callable => mapped inside fun entries indexed => ?_
    refine bind (findItem indexed.1 fun v i holds => ?_) fun found _ => pure (holds_bool _)
    exact bind (test callable v i holds) fun _ _ => pure trivial
  | forEach =>
    refine bind (callbackOf _ argsHold) fun f callable => mapped inside fun entries indexed => ?_
    exact bind (forM fun entry mem => discard (call callable _ _ (indexed.1 entry mem)))
      fun _ _ => pure holds_undefined
  | reduce =>
    refine bind (callbackOf _ argsHold) fun f callable => ?_
    have fold : ∀ {entries : List (Value × Nat)} {start : Value}, (∀ entry ∈ entries, R.Holds entry.1) →
        R.Holds start → R.Follows R.Holds
          (entries.foldlM (fun done entry => sub₁.call f [done, entry.1, .count entry.2, .array a]) start)
          (entries.foldlM (fun done entry => sub₂.call f [done, entry.1, .count entry.2, .array a]) start) :=
      fun entriesHold startHolds => foldlM (I := fun _ => R.Holds) (fun _ entry mem done doneHolds =>
        sub.call _ _ callable (by simp [doneHolds, entriesHold entry mem, inside, Value.count, holds_number])
          length_four) startHolds
    refine mapped inside fun entries indexed => ?_
    cases start : args[1]? with
    | some start => exact fold indexed.1 (argsHold _ (List.mem_of_getElem? ‹_›))
    | none =>
      cases entries with
      | nil => exact typeFault _
      | cons first rest =>
        obtain ⟨head, tail⟩ := List.forall_mem_cons.1 indexed.1
        exact fold tail head
  | includes => exact readHeap fun _ _ => holds_bool _
  | indexOf => exact readHeap fun _ _ => holds_index _
  | join => exact reading fun separator => reading fun items => joinItems separator
  | toString => exact reading fun items => joinItems ","
  -- a part of the items is no longer than all of them
  | slice =>
    refine bind (P := fun part : Array Value => (∀ v ∈ part.toList, R.Holds v) ∧ R.Length part.size)
      (readHeap fun h fits => ⟨fun v mem => ?_, fun sized => ?_⟩) fun part made => newArray made.1 made.2
    · rw [Array.toList_extract, List.extract_eq_take_drop] at mem
      exact fits.items inside v (List.mem_of_mem_drop (List.mem_of_mem_take mem))
    · refine le_trans ?_ (fits.lengths a inside.1 sized)
      rw [Array.size_extract]
      omega
  | concat =>
    refine bind (P := fun items : Array Value => (∀ v ∈ items.toList, R.Holds v) ∧ R.Length items.size)
      (readHeap fun h fits => ⟨fits.items inside, fits.lengths a inside.1⟩) fun items held => ?_
    exact bind (concatItems held.1 held.2 argsHold) fun all made => newArray made.1 made.2

/-! ## Strings and numbers -/

/-- A piece of a text holds where the text does. -/
theorem holds_piece {text : String} {cs : List Char} (holds : R.Holds (.string text))
    (sublist : cs.Sublist text.toList) : R.Holds (.string (String.ofList cs)) :=
  holds_string fun sized => (Text.utf8ByteSize_le_of_sublist sublist).trans (holds.2 sized)

theorem holds_textBetween {text : String} (holds : R.Holds (.string text)) (start stop : Nat) :
    R.Holds (EvalM.textBetween text.toList start stop) :=
  holds_piece holds ((List.drop_sublist _ _).trans (List.take_sublist _ _))

theorem holds_charAtIndex (cs : List Char) (x : Float) : R.Holds (.string (EvalM.charAtIndex cs x)) := by
  unfold EvalM.charAtIndex
  dsimp only
  generalize (if x.isNaN then 0.0 else Number.truncate x) = n
  split
  · exact holds_short (by decide)
  · cases cs[Number.toSize n]? with
    | some c => exact holds_char c
    | none => exact holds_short (by decide)

theorem replacementText (sub : R.Interprets sub₁ sub₂) (unsized : ¬ R.sized) (pattern : List Char) (text : String)
    (position : Nat) (replacement : R.Holds v) :
    R.Follows (fun _ => True) (EvalM.replacementText sub₁ pattern text v position)
      (EvalM.replacementText sub₂ pattern text v position) := by
  unfold EvalM.replacementText
  refine ite (fun _ => ?_) fun _ => fun s state => .ok state trivial
  exact bind (sub.call _ _ replacement (by simp [holds_text unsized, Value.count, holds_number]) length_three)
    fun _ _ => readHeap fun _ _ => trivial

theorem substitute (sub : R.Interprets sub₁ sub₂) (unsized : ¬ R.sized) (pattern : List Char) (text : String)
    (pieces : List (List Char)) (replacement : R.Holds v) :
    R.Follows R.Holds (EvalM.substitute sub₁ pattern text v pieces) (EvalM.substitute sub₂ pattern text v pieces) := by
  cases pieces with
  | nil => exact pure (holds_text unsized _)
  | cons first more =>
    unfold EvalM.substitute
    refine bind (foldlM (I := fun _ _ => True) (fun _ piece _ done _ => ?_) trivial) fun done _ =>
      pure (holds_text unsized _)
    exact bind (replacementText sub unsized pattern text _ replacement) fun _ _ => pure trivial

/-- A text that is filled up on one side. -/
theorem padded {text : String} {length fill : Value} {join : String → String} (holds : R.Holds (.string text))
    (size : ∀ pad, (join pad).utf8ByteSize = text.utf8ByteSize + pad.utf8ByteSize) :
    R.Follows R.Holds
      (do
        let pad ← EvalM.ofExcept (← EvalM.readHeap fun h => EvalM.padding h text length fill)
        return .string (join pad))
      (do
        let pad ← EvalM.ofExcept (← EvalM.readHeap fun h => EvalM.padding h text length fill)
        return .string (join pad)) := by
  refine bind (P := fun filled => ∃ h, filled = EvalM.padding h text length fill)
    (readHeap fun h _ => ⟨h, rfl⟩) fun filled made => ?_
  obtain ⟨h, rfl⟩ := made
  refine bind (P := fun pad => R.sized → (join pad).utf8ByteSize ≤ maxStringLength)
    (ofExcept (fun pad same sized => ?_) fun v same => padding_ne_thrown same v rfl) fun pad fits =>
    pure (holds_string fits)
  rw [size]
  exact EvalM.size_le_of_padding same (holds.2 sized)

/-- One case for each method. Those that may lengthen a text check it. -/
theorem callStringMethod {text : String} (sub : R.Interprets sub₁ sub₂) (method : StringMethod)
    (guarded : R.sized → (Method.string method).isSized = true) (holds : R.Holds (.string text))
    (argsHold : ∀ v ∈ args, R.Holds v) :
    R.Follows R.Holds (EvalM.callStringMethod sub₁ text method args)
      (EvalM.callStringMethod sub₂ text method args) := by
  -- methods that do not measure their text are called only where texts need not be measured
  have unguarded : (Method.string method).isSized = false → ¬ R.sized := fun unguarded sized =>
    Bool.false_ne_true (unguarded.symm.trans (guarded sized))
  unfold EvalM.callStringMethod
  cases method with
  | toUpperCase | toLowerCase => exact pure (holds_text (unguarded rfl) _)
  | trim => exact pure (holds_piece holds (Text.trim_sublist _))
  | trimStart => exact pure (holds_piece holds (Text.trimLeft_sublist _))
  | trimEnd => exact pure (holds_piece holds (Text.trimRight_sublist _))
  | toString => exact pure holds
  | includes | startsWith | endsWith => exact reading fun _ => pure (holds_bool _)
  | indexOf => exact reading fun _ => pure (holds_index _)
  | charAt => exact readHeap fun _ _ => holds_charAtIndex _ _
  | slice | substring => exact readHeap fun _ _ => holds_textBetween holds _ _
  | split =>
    refine bind (P := fun pieces => ∀ v ∈ pieces, R.Holds v) (readHeap fun h fits v mem => ?_)
      fun pieces made => newArray made fun sized => absurd sized (unguarded rfl)
    obtain ⟨piece, -, rfl⟩ := List.mem_map.1 mem
    exact holds_text (unguarded rfl) _
  | replace | replaceAll =>
    exact reading fun _ => substitute sub (unguarded rfl) _ text _ (Holds.argument argsHold 1)
  | padStart => exact padded holds fun pad => by rw [String.utf8ByteSize_append, Nat.add_comm]
  | padEnd => exact padded holds fun pad => by rw [String.utf8ByteSize_append]
  | «repeat» =>
    refine reading fun x => bind (P := fun _ => True) (ofExcept (fun _ _ => trivial) fun v failed => ?_) fun _ _ =>
      pure (holds_text (unguarded rfl) _)
    exact repeatText_ne_thrown failed v rfl

theorem callNumberMethod (x : Float) (method : NumberMethod) (unsized : ¬ R.sized) (args : List Value) :
    R.Follows R.Holds (EvalM.callNumberMethod x method args) (EvalM.callNumberMethod x method args) := by
  unfold EvalM.callNumberMethod
  refine reading fun n => ?_
  cases method with
  | toFixed =>
    exact ite (fun _ => typeFault _) fun _ =>
      ite (fun _ => pure (holds_text unsized _)) fun _ => pure (holds_text unsized _)
  | toString => exact ite (fun _ => typeFault _) fun _ => pure (holds_text unsized _)

theorem callMethod (sub : R.Interprets sub₁ sub₂) (method : Method) (guarded : R.sized → method.isSized = true)
    {receiver : Value} (inside : R.Holds receiver) (argsHold : ∀ v ∈ args, R.Holds v) :
    R.Follows R.Holds (EvalM.callMethod sub₁ receiver method args) (EvalM.callMethod sub₂ receiver method args) := by
  have has : R.Follows R.Holds (EvalM.readHeap fun h => .bool (h.has receiver (h.text (Value.argument args 0))))
      (EvalM.readHeap fun h => .bool (h.has receiver (h.text (Value.argument args 0)))) :=
    readHeap fun _ _ => holds_bool _
  unfold EvalM.callMethod
  cases method with
  | array method =>
    cases receiver with
    | array a => exact callArrayMethod sub method inside argsHold
    | _ => exact has
  | string method =>
    cases receiver with
    | string text => exact callStringMethod sub method guarded inside argsHold
    | _ => exact has
  | number method =>
    cases receiver with
    | number x => exact callNumberMethod x method (fun sized => Bool.false_ne_true (guarded sized)) args
    | _ => exact has
  | hasOwnProperty => exact has

end Follows

end BindScript.Regime
