/-!
Maps with text keys that remember the order of insertion. Writing an existing key keeps its place;
a new key comes last; removing a key keeps the order of the others.

A map is seen through `get?` and `keys`. The lemmas say what each operation does to these two views:
`get?_insert_self` and `get?_insert_of_ne` for reading after a write, `keys_insert` for the order, and the
same for `erase`.
-/

namespace BindScript

/-- Entries in the order their keys were first written. -/
abbrev Entries (α : Type) := List (String × α)

namespace Entries

variable {α : Type}

/-- The value under `key`. -/
def get? (m : Entries α) (key : String) : Option α :=
  match m with
  | [] => none
  | (k, v) :: rest => if k = key then some v else get? rest key

/-- Whether `key` has a value. -/
def contains (m : Entries α) (key : String) : Bool :=
  m.any (fun entry => entry.1 == key)

/-- Puts a value under `key`. -/
def insert (m : Entries α) (key : String) (value : α) : Entries α :=
  match m with
  | [] => [(key, value)]
  | (k, v) :: rest => if k = key then (k, value) :: rest else (k, v) :: insert rest key value

/-- Takes `key` out. -/
def erase (m : Entries α) (key : String) : Entries α :=
  m.filter (fun entry => entry.1 != key)

/-- The keys in order. -/
def keys (m : Entries α) : List String :=
  m.map (fun entry => entry.1)

/-- Changes the value under `key`, or puts `start` changed there. -/
def alter (m : Entries α) (key : String) (start : α) (change : α → α) : Entries α :=
  m.insert key (change ((m.get? key).getD start))

/-- Writes entries one after another. -/
def insertAll (m : Entries α) (entries : List (String × α)) : Entries α :=
  entries.foldl (fun m entry => m.insert entry.1 entry.2) m

/-! ## Reading after a change -/

theorem get?_insert_self (m : Entries α) (key : String) (value : α) :
    (m.insert key value).get? key = some value := by
  induction m with
  | nil => simp [insert, get?]
  | cons entry rest ih =>
    obtain ⟨k, v⟩ := entry
    by_cases h : k = key
    · simp [insert, get?, h]
    · simp [insert, get?, h, ih]

/-- A write under another key is not seen. -/
theorem get?_insert_of_ne {m : Entries α} {key other : String} {value : α} (h : other ≠ key) :
    (m.insert key value).get? other = m.get? other := by
  induction m with
  | nil => simp [insert, get?, Ne.symm h]
  | cons entry rest ih =>
    obtain ⟨k, v⟩ := entry
    by_cases hk : k = key
    · have : k ≠ other := fun e => h (e.symm.trans hk)
      simp [insert, get?, hk, Ne.symm h]
    · by_cases ho : k = other
      · simp [insert, get?, ho, h]
      · simp [insert, get?, hk, ho, ih]

theorem get?_erase_self (m : Entries α) (key : String) : (m.erase key).get? key = none := by
  induction m with
  | nil => rfl
  | cons entry rest ih =>
    obtain ⟨k, v⟩ := entry
    simp only [erase] at ih
    by_cases h : k = key
    · simp [erase, h, ih]
    · simp [erase, get?, h, ih]

/-- Other keys keep their values. -/
theorem get?_erase_of_ne {m : Entries α} {key other : String} (h : other ≠ key) :
    (m.erase key).get? other = m.get? other := by
  induction m with
  | nil => rfl
  | cons entry rest ih =>
    obtain ⟨k, v⟩ := entry
    simp only [erase] at ih
    by_cases hk : k = key
    · simp [erase, get?, hk, Ne.symm h, ih]
    · by_cases ho : k = other
      · simp [erase, get?, ho, h]
      · simp [erase, get?, hk, ho, ih]

/-- A key has a value exactly when it is present. -/
theorem contains_eq_isSome (m : Entries α) (key : String) :
    m.contains key = (m.get? key).isSome := by
  induction m with
  | nil => rfl
  | cons entry rest ih =>
    obtain ⟨k, v⟩ := entry
    simp only [contains] at ih
    by_cases h : k = key
    · simp [contains, get?, h]
    · simp [contains, get?, h, ih]

theorem contains_iff_mem_keys {m : Entries α} {key : String} :
    m.contains key = true ↔ key ∈ m.keys := by
  simp [contains, keys]

/-! ## Order -/

theorem keys_cons (k : String) (v : α) (rest : Entries α) :
    keys ((k, v) :: rest) = k :: rest.keys :=
  rfl

theorem contains_cons (k : String) (v : α) (rest : Entries α) (key : String) :
    contains ((k, v) :: rest) key = (k == key || rest.contains key) :=
  rfl

/-- A present key keeps its place, and a new one comes last. -/
theorem keys_insert (m : Entries α) (key : String) (value : α) :
    (m.insert key value).keys = if m.contains key then m.keys else m.keys ++ [key] := by
  induction m with
  | nil => rfl
  | cons entry rest ih =>
    obtain ⟨k, v⟩ := entry
    rw [contains_cons, keys_cons]
    by_cases h : k = key
    · simp [insert, h, keys_cons]
    · rw [insert, if_neg h, keys_cons, ih, beq_eq_false_iff_ne.2 h, Bool.false_or]
      split <;> rfl

/-- Writing takes no key out. -/
theorem keys_subset_insert (m : Entries α) (key : String) (value : α) :
    m.keys ⊆ (m.insert key value).keys := by
  rw [keys_insert]
  split
  · exact List.Subset.refl _
  · exact List.subset_append_left _ _

theorem keys_erase (m : Entries α) (key : String) :
    (m.erase key).keys = m.keys.filter (· != key) := by
  simp [erase, keys, List.filter_map, Function.comp_def]

/-- Writing keeps the keys distinct. -/
theorem nodup_keys_insert {m : Entries α} (h : m.keys.Nodup) (key : String) (value : α) :
    (m.insert key value).keys.Nodup := by
  rw [keys_insert]
  split
  · exact h
  · next absent =>
    rw [List.nodup_append]
    refine ⟨h, by simp, fun a ha b hb => ?_⟩
    rintro rfl
    rw [List.mem_singleton] at hb
    exact absent (contains_iff_mem_keys.2 (hb ▸ ha))

/-- Writing several entries keeps the keys distinct. -/
theorem nodup_keys_insertAll {m : Entries α} (h : m.keys.Nodup) (entries : List (String × α)) :
    (m.insertAll entries).keys.Nodup := by
  induction entries generalizing m with
  | nil => exact h
  | cons entry rest ih => exact ih (nodup_keys_insert h entry.1 entry.2)

theorem mem_keys_insertAll {m l : Entries α} {key : String} :
    key ∈ (m.insertAll l).keys ↔ key ∈ m.keys ∨ key ∈ l.keys := by
  induction l generalizing m with
  | nil => simp [insertAll, keys]
  | cons entry rest ih =>
    show key ∈ ((m.insert entry.1 entry.2).insertAll rest).keys ↔ _
    rw [ih, keys_insert, keys_cons, List.mem_cons, or_left_comm, ← or_assoc]
    refine or_congr_left ?_
    split
    next present => exact ⟨.inr, fun mem => mem.elim (· ▸ contains_iff_mem_keys.1 present) id⟩
    next => rw [List.mem_append, List.mem_singleton, or_comm]

/-- Writing entries keeps their order. -/
theorem keys_insertAll_sublist (m l : Entries α) : (m.insertAll l).keys.Sublist (m.keys ++ l.keys) := by
  induction l generalizing m with
  | nil => simp [insertAll, keys]
  | cons entry rest ih =>
    refine (ih (m.insert entry.1 entry.2)).trans ?_
    rw [keys_insert, keys_cons]
    split
    · exact (List.sublist_cons_self ..).append_left _
    · rw [List.append_assoc]
      exact List.Sublist.refl _

/-- With distinct keys, a key is neither before nor after its own entry. -/
theorem not_mem_keys_around {before after : Entries α} {key : String} {value : α}
    (distinct : (keys (before ++ (key, value) :: after)).Nodup) : key ∉ before.keys ∧ key ∉ after.keys := by
  rw [keys, List.map_append, List.map_cons, List.nodup_append, List.nodup_cons] at distinct
  exact ⟨fun mem => distinct.2.2 key mem key List.mem_cons_self rfl, distinct.2.1.1⟩

theorem insert_of_not_mem {m : Entries α} {key : String} (absent : key ∉ m.keys) (value : α) :
    m.insert key value = m ++ [(key, value)] := by
  induction m with
  | nil => rfl
  | cons entry rest ih =>
    obtain ⟨k, v⟩ := entry
    rw [keys_cons, List.mem_cons, not_or] at absent
    rw [insert, if_neg (Ne.symm absent.1), ih absent.2]
    rfl

/-- Entries with distinct new keys come last, in their order. -/
theorem insertAll_of_nodup {m l : Entries α} (h : (keys (m ++ l)).Nodup) : m.insertAll l = m ++ l := by
  induction l generalizing m with
  | nil => exact (List.append_nil m).symm
  | cons entry rest ih =>
    obtain ⟨k, v⟩ := entry
    have joined : m ++ (k, v) :: rest = (m ++ [(k, v)]) ++ rest := by simp
    have absent : k ∉ m.keys := (not_mem_keys_around h).1
    show insertAll (m.insert k v) rest = _
    rw [insert_of_not_mem absent, joined]
    exact ih (joined ▸ h)

theorem get?_eq_none_of_not_mem {m : Entries α} {key : String} (absent : key ∉ m.keys) :
    m.get? key = none := by
  cases found : m.get? key with
  | none => rfl
  | some v =>
    have present : m.contains key = true := by rw [contains_eq_isSome, found]; rfl
    exact absurd (contains_iff_mem_keys.1 present) absent

/-- Entries with distinct keys win over those that were there. -/
theorem get?_insertAll {l : Entries α} (distinct : l.keys.Nodup) (m : Entries α) (key : String) :
    (m.insertAll l).get? key = (l.get? key).or (m.get? key) := by
  induction l generalizing m with
  | nil => rfl
  | cons entry rest ih =>
    obtain ⟨k, v⟩ := entry
    rw [keys_cons, List.nodup_cons] at distinct
    show ((m.insert k v).insertAll rest).get? key = _
    rw [ih distinct.2, get?]
    by_cases same : k = key
    · subst same
      rw [get?_eq_none_of_not_mem distinct.1, get?_insert_self, if_pos rfl]
      rfl
    · rw [if_neg same, get?_insert_of_ne (Ne.symm same)]

/-! ## Members -/

theorem mem_of_get? {m : Entries α} {key : String} {value : α} (found : m.get? key = some value) :
    (key, value) ∈ m := by
  induction m with
  | nil => cases found
  | cons entry rest ih =>
    obtain ⟨k, v⟩ := entry
    rw [get?] at found
    split at found
    · next same =>
      rw [same, Option.some.inj found]
      exact List.mem_cons_self
    · exact List.mem_cons_of_mem _ (ih found)

/-- Writing adds nothing but the entry that is written. -/
theorem eq_or_mem_of_mem_insert {m : Entries α} {key : String} {value : α} {entry : String × α}
    (mem : entry ∈ m.insert key value) : entry = (key, value) ∨ entry ∈ m := by
  induction m with
  | nil => exact .inl (List.mem_singleton.1 mem)
  | cons first rest ih =>
    obtain ⟨k, v⟩ := first
    rw [insert] at mem
    split at mem
    · next same =>
      subst same
      exact (List.mem_cons.1 mem).imp_right (List.mem_cons_of_mem _)
    · rcases List.mem_cons.1 mem with here | there
      · exact .inr (here ▸ List.mem_cons_self)
      · exact (ih there).imp_right (List.mem_cons_of_mem _)

theorem mem_or_mem_of_mem_insertAll {entries : List (String × α)} {m : Entries α} {entry : String × α}
    (mem : entry ∈ m.insertAll entries) : entry ∈ m ∨ entry ∈ entries := by
  induction entries generalizing m with
  | nil => exact .inl mem
  | cons first rest ih =>
    rcases ih (m := m.insert first.1 first.2) mem with before | after
    · rcases eq_or_mem_of_mem_insert before with here | before
      · exact .inr (here ▸ List.mem_cons_self)
      · exact .inl before
    · exact .inr (List.mem_cons_of_mem _ after)

end Entries

/-- Adds `x` at the end unless it is there already. -/
def insertNew (xs : List String) (x : String) : List String :=
  if xs.contains x then xs else xs ++ [x]

theorem mem_insertNew {xs : List String} {x y : String} :
    y ∈ insertNew xs x ↔ y ∈ xs ∨ y = x := by
  unfold insertNew
  split
  · next h =>
    have present : x ∈ xs := by simpa using h
    exact ⟨Or.inl, fun hy => hy.elim id fun e => e ▸ present⟩
  · simp

theorem nodup_insertNew {xs : List String} (h : xs.Nodup) (x : String) :
    (insertNew xs x).Nodup := by
  unfold insertNew
  split
  · exact h
  · next absent =>
    rw [List.nodup_append]
    refine ⟨h, by simp, fun a ha b hb => ?_⟩
    rintro rfl
    rw [List.mem_singleton] at hb
    exact absent (by simpa using hb ▸ ha)

theorem prefix_insertNew (xs : List String) (x : String) : xs <+: insertNew xs x := by
  unfold insertNew
  split
  · exact List.prefix_rfl
  · exact List.prefix_append ..

theorem prefix_foldl_insertNew (log xs : List String) : xs <+: log.foldl insertNew xs := by
  induction log generalizing xs with
  | nil => exact List.prefix_rfl
  | cons first rest ih => exact (prefix_insertNew xs first).trans (ih _)

theorem mem_foldl_insertNew {log xs : List String} {d : String} : d ∈ log.foldl insertNew xs ↔ d ∈ xs ∨ d ∈ log := by
  induction log generalizing xs with
  | nil => simp
  | cons first rest ih => rw [List.foldl_cons, ih, mem_insertNew, List.mem_cons, or_assoc]

theorem nodup_foldl_insertNew {xs : List String} (distinct : xs.Nodup) (log : List String) :
    (log.foldl insertNew xs).Nodup := by
  induction log generalizing xs with
  | nil => exact distinct
  | cons first rest ih => exact ih (nodup_insertNew distinct first)

/-- What is added was not there before. -/
theorem exists_foldl_insertNew (log xs : List String) :
    ∃ new, log.foldl insertNew xs = xs ++ new ∧ ∀ x ∈ new, x ∉ xs := by
  induction log generalizing xs with
  | nil => exact ⟨[], (List.append_nil xs).symm, nofun⟩
  | cons first rest ih =>
    obtain ⟨new, added, absent⟩ := ih (insertNew xs first)
    rw [List.foldl_cons, added]
    have earlier : ∀ x ∈ new, x ∉ xs := fun x mem old => absent x mem (mem_insertNew.2 (.inl old))
    by_cases old : xs.contains first
    · exact ⟨new, by rw [insertNew, if_pos old], earlier⟩
    · refine ⟨first :: new, ?_, List.forall_mem_cons.2 ⟨by simpa using old, earlier⟩⟩
      rw [insertNew, if_neg old, List.append_assoc, List.singleton_append]

end BindScript
