import BindScript.Evaluation.Native
import BindScript.Proofs.Control.Scopes

/-!
# How deep JSON text goes

Writing JSON text follows the links of the graph of values: items of arrays, and properties of objects, apart from
those that are left out (`Heap.JsonLink`). It does not look for cycles. It counts levels, and it fails exactly when
some chain of links is longer than the number of levels (`jsonAt_eq_none_iff`), which a chain that comes to a cycle
always is. The layout has no part in this (`json_fails_iff`).
-/

namespace BindScript

namespace Heap

/-- What is written directly inside of a value: any item of an array, and what a property holds, unless that is
`undefined` or a function. -/
inductive JsonLink (h : Heap) : Value → Value → Prop
  | item {a : Nat} {v : Value} (mem : v ∈ (h.items a).toList) : JsonLink h (.array a) v
  | property {o : Nat} {key : String} {v : Value} (mem : (key, v) ∈ h.properties o)
    (shown : v.isOmitted = false) : JsonLink h (.object o) v

/-- The second value is so many links away from the first one. -/
inductive JsonChain (h : Heap) : Nat → Value → Value → Prop
  | here (v : Value) : JsonChain h 0 v v
  | link {n : Nat} {v u w : Value} (first : h.JsonLink v u) (later : JsonChain h n u w) :
    JsonChain h (n + 1) v w

variable {h : Heap} {m n : Nat} {u v w : Value}

namespace JsonChain

theorem append (first : h.JsonChain m v u) (second : h.JsonChain n u w) : h.JsonChain (m + n) v w := by
  induction first with
  | here v => rwa [Nat.zero_add]
  | link first _ ih =>
    rw [Nat.add_right_comm]
    exact .link first (ih second)

/-- A chain starts with shorter ones. -/
theorem shorter (chain : h.JsonChain n v w) (le : m ≤ n) : ∃ u, h.JsonChain m v u := by
  induction chain generalizing m with
  | here v =>
    obtain rfl : m = 0 := Nat.le_zero.1 le
    exact ⟨v, .here v⟩
  | @link n v u w first later ih =>
    cases m with
    | zero => exact ⟨v, .here v⟩
    | succ m =>
      obtain ⟨u', start⟩ := ih (Nat.le_of_succ_le_succ le)
      exact ⟨u', .link first start⟩

/-- One may go round a cycle as often as one likes. -/
theorem around (cycle : h.JsonChain (m + 1) w w) (turns : Nat) : ∃ n, turns ≤ n ∧ h.JsonChain n w w := by
  induction turns with
  | zero => exact ⟨0, Nat.le_refl 0, .here w⟩
  | succ turns ih =>
    obtain ⟨n, le, chain⟩ := ih
    exact ⟨m + 1 + n, by omega, cycle.append chain⟩

/-- A chain that comes to a cycle goes on without end. -/
theorem beyond (chain : h.JsonChain n v w) (cycle : h.JsonChain (m + 1) w w) (bound : Nat) :
    ∃ n' w', bound < n' ∧ h.JsonChain n' v w' := by
  obtain ⟨turns, le, round⟩ := cycle.around (bound + 1)
  exact ⟨n + turns, w, by omega, chain.append round⟩

end JsonChain

/-! ## Levels -/

/-- A list is not written when one of its items is not. -/
theorem mapM_eq_none_iff {α β : Type} {f : α → Option β} {as : List α} :
    as.mapM f = none ↔ ∃ a ∈ as, f a = none := by
  induction as with
  | nil => simp
  | cons a as ih =>
    rw [List.mapM_cons, List.exists_mem_cons_iff, ← ih]
    cases f a <;> cases as.mapM f <;> simp

/-- The levels do not suffice exactly when a chain uses them up. -/
theorem jsonAt_eq_none_iff (h : Heap) (layout : JsonLayout) (left level : Nat) (v : Value) :
    h.jsonAt layout left level v = none ↔ ∃ w, h.JsonChain left v w := by
  induction left generalizing level v with
  | zero => exact ⟨fun _ => ⟨v, .here v⟩, fun _ => rfl⟩
  | succ left ih =>
    -- a chain from here is a link and a chain of one link less
    have chains : (∃ w, h.JsonChain (left + 1) v w) ↔
        ∃ u, h.JsonLink v u ∧ h.jsonAt layout left (level + 1) u = none := by
      constructor
      · rintro ⟨w, chain⟩
        cases chain with
        | link first later => exact ⟨_, first, (ih _ _).2 ⟨w, later⟩⟩
      · rintro ⟨u, first, deep⟩
        obtain ⟨w, later⟩ := (ih _ _).1 deep
        exact ⟨w, .link first later⟩
    rw [chains]
    cases v with
    | array a =>
      have items : h.jsonAt layout (left + 1) level (.array a) = none ↔
          ∃ u ∈ (h.items a).toList, h.jsonAt layout left (level + 1) u = none := by
        simp only [jsonAt, bind_pure_comp, Option.map_eq_map, Option.map_eq_none_iff, mapM_eq_none_iff]
      rw [items]
      constructor
      · rintro ⟨u, mem, deep⟩
        exact ⟨u, .item mem, deep⟩
      · rintro ⟨u, link, deep⟩
        cases link with
        | item mem => exact ⟨u, mem, deep⟩
    | object o =>
      have members : h.jsonAt layout (left + 1) level (.object o) = none ↔
          ∃ entry ∈ (h.properties o).filter (fun entry => !entry.2.isOmitted),
            h.jsonAt layout left (level + 1) entry.2 = none := by
        simp only [jsonAt, bind_pure_comp, Option.map_eq_map, Option.map_eq_none_iff, mapM_eq_none_iff]
      rw [members]
      constructor
      · rintro ⟨⟨key, u⟩, mem, deep⟩
        obtain ⟨mem, shown⟩ := List.mem_filter.1 mem
        exact ⟨u, .property mem (by simpa using shown), deep⟩
      · rintro ⟨u, link, deep⟩
        cases link with
        | property mem shown => exact ⟨(_, u), List.mem_filter.2 ⟨mem, by simpa using shown⟩, deep⟩
    | _ =>
      constructor
      · intro written
        cases written
      · rintro ⟨u, link, -⟩
        cases link

/-- What fails is exactly what has a chain of members longer than the limit. -/
theorem json_eq_tooDeep_iff (shown : v.isOmitted = false) (indent : Option Nat) :
    h.json v indent = .tooDeep ↔ ∃ n w, maxJsonDepth < n ∧ h.JsonChain n v w := by
  have levels : h.json v indent = .tooDeep ↔
      h.jsonAt (.ofIndent indent) (maxJsonDepth + 1) 0 v = none := by
    unfold json
    rw [shown, if_neg Bool.false_ne_true]
    split
    · next written => simp [written]
    · next deep => simp [deep]
  rw [levels, jsonAt_eq_none_iff]
  constructor
  · rintro ⟨w, chain⟩
    exact ⟨maxJsonDepth + 1, w, Nat.lt_succ_self _, chain⟩
  · rintro ⟨n, w, longer, chain⟩
    exact chain.shorter longer

/-- There is a text, unless the value is too deep. -/
theorem json_cases (shown : v.isOmitted = false) (indent : Option Nat) :
    (∃ text, h.json v indent = .text text) ∨ h.json v indent = .tooDeep := by
  unfold json
  rw [shown, if_neg Bool.false_ne_true]
  split
  · next text _ => exact .inl ⟨text, rfl⟩
  · exact .inr rfl

end Heap

theorem EvalM.readHeap_bind {α β : Type} (f : Heap → α) (rest : α → EvalM β) (s : State) :
    (readHeap f >>= rest) s = rest (f s.heap) s :=
  rfl

/-- A value that is neither `undefined` nor a function has a JSON text, unless some chain of links from it is longer
than the limit; then to write it fails, and so it does for every value from which a cycle can be reached. Both hold
for every indentation, and either way nothing is changed. -/
theorem json_fails_iff (s : State) {v : Value} (shown : v.isOmitted = false) :
    (∀ indent, (∃ text, s.heap.json v indent = .text text) ∨ s.heap.json v indent = .tooDeep) ∧
      (∀ indent, s.heap.json v indent = .tooDeep ↔ ∃ n w, maxJsonDepth < n ∧ s.heap.JsonChain n v w) ∧
      (∀ n m w, s.heap.JsonChain n v w → s.heap.JsonChain (m + 1) w w →
        ∀ indent, s.heap.json v indent = .tooDeep) ∧
      (∀ indent indent', s.heap.json v indent = .tooDeep ↔ s.heap.json v indent' = .tooDeep) ∧
      ∀ given, (NativeFn.invoke .stringify (v :: given)).stateAfter s = s := by
  have deep := Heap.json_eq_tooDeep_iff (h := s.heap) shown
  refine ⟨Heap.json_cases shown, deep, fun n m w chain cycle indent => ?_, fun indent indent' => ?_,
    fun given => ?_⟩
  · exact (deep indent).2 (chain.beyond cycle maxJsonDepth)
  · rw [deep indent, deep indent']
  · -- what comes after the writing is a result or a failure, whatever it gives
    show EvalM.stateAfter (EvalM.readHeap _ >>= _) s = s
    unfold EvalM.stateAfter
    rw [EvalM.readHeap_bind]
    cases s.heap.json _ _ <;> rfl

/-- An object that holds itself, next to a function. -/
def ringState : State where
  heap := { objects := #[{ properties := [("f", .native .keys 0), ("self", .object 0)] }] }

/-- Writing the ring fails with any layout, as the chain of its containers has no end. -/
theorem ring_fails : ringState.heap.json (.object 0) (some 2) = .tooDeep :=
  have held : ("self", Value.object 0) ∈ ringState.heap.properties 0 :=
    List.mem_cons_of_mem _ (List.mem_cons_self ..)
  have loop : ringState.heap.JsonChain (0 + 1) (.object 0) (.object 0) := .link (.property held rfl) (.here _)
  (json_fails_iff ringState (v := .object 0) rfl).2.2.1 0 0 _ (.here _) loop (some 2)

end BindScript
