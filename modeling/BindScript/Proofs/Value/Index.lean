import BindScript.Proofs.JsonText.Numerals
import BindScript.Value.Property
import Mathlib.Data.Nat.Digits.Lemmas

/-!
# Keys of indices

A key denotes an index when it is the decimal form of the index and the index has at most 64 bits
(`parseIndex?_eq_some_iff`). So an index has one key, and forms with a leading zero or a sign denote none.

The keys of an array are written from its indices, and a look-up reads the index back from a key. As both directions
agree on every text, an array has exactly the keys that are enumerated, and its length besides (`has_array_iff`). So for
arrays and objects what is enumerated is what is there, no key is enumerated twice, and what is not there reads as
`undefined` (`keys_agree`).
-/

namespace BindScript

open JsonText

/-! ## An index has one key -/

private theorem natOfDigits_eq (cs : List Char) (start : Nat) :
    Decimal.natOfDigits start cs =
      start * 10 ^ cs.length + Nat.ofDigits 10 ((cs.map fun c => c.toNat - '0'.toNat).reverse) := by
  induction cs generalizing start with
  | nil => simp [Decimal.natOfDigits]
  | cons c rest ih =>
    have step : Decimal.natOfDigits start (c :: rest) =
        Decimal.natOfDigits (start * 10 + (c.toNat - '0'.toNat)) rest := rfl
    rw [step, ih, List.map_cons, List.reverse_cons, Nat.ofDigits_append]
    simp only [List.length_reverse, List.length_map, List.length_cons, Nat.ofDigits_singleton]
    ring

/-- The digit a character stands for. -/
private def digitOf (c : Char) : Nat :=
  c.toNat - '0'.toNat

private theorem digitOf_lt {c : Char} (digit : c.isDigit = true) : digitOf c < 10 := by
  have high : c.toNat ≤ 57 := (Char.isDigit_iff_toNat.1 digit).2
  show c.toNat - 48 < 10
  omega

private theorem digitOf_injective {c d : Char} (digit₁ : c.isDigit = true) (digit₂ : d.isDigit = true)
    (same : digitOf c = digitOf d) : c = d := by
  have low₁ : 48 ≤ c.toNat := (Char.isDigit_iff_toNat.1 digit₁).1
  have low₂ : 48 ≤ d.toNat := (Char.isDigit_iff_toNat.1 digit₂).1
  have same : c.toNat - 48 = d.toNat - 48 := same
  apply Char.toNat_inj.1
  omega

/-- Texts of digits that are read as the same digits are the same. -/
private theorem eq_of_map_digitOf {cs ds : List Char} (digits₁ : ∀ c ∈ cs, c.isDigit = true)
    (digits₂ : ∀ d ∈ ds, d.isDigit = true) (same : cs.map digitOf = ds.map digitOf) : cs = ds := by
  induction cs generalizing ds with
  | nil => exact (List.map_eq_nil_iff.1 same.symm).symm
  | cons c rest ih =>
    rcases ds with _ | ⟨d, more⟩
    · cases same
    · obtain ⟨head, tail⟩ := List.cons.inj same
      have first : c = d :=
        digitOf_injective (digits₁ c (List.mem_cons_self ..)) (digits₂ d (List.mem_cons_self ..)) head
      have others : rest = more :=
        ih (fun x mem => digits₁ x (List.mem_cons_of_mem _ mem))
          (fun x mem => digits₂ x (List.mem_cons_of_mem _ mem)) tail
      rw [first, others]

/-- The characters of a key that denotes an index. The index zero has the one digit zero; every other
index has the digits of its key. -/
private theorem digits_of_parseIndex? {key : String} {i : Nat} (index : parseIndex? key = some i) :
    (∀ c ∈ key.toList, c.isDigit = true) ∧
      (i = 0 ∧ key.toList = ['0'] ∨
        i ≠ 0 ∧ Nat.digits 10 i = (key.toList.map digitOf).reverse) := by
  unfold parseIndex? at index
  dsimp only at index
  split at index
  · cases index
  next good =>
    split at index
    · have value : Nat.ofDigits 10 ((key.toList.map digitOf).reverse) = i := by
        rw [← Option.some.inj index, natOfDigits_eq, Nat.zero_mul, Nat.zero_add]
        rfl
      rw [Bool.or_eq_true, Bool.or_eq_true, not_or, not_or] at good
      obtain ⟨⟨nonempty, digits⟩, lead⟩ := good
      have digits : ∀ c ∈ key.toList, c.isDigit = true := by simpa using digits
      refine ⟨digits, ?_⟩
      have small : ∀ d ∈ (key.toList.map digitOf).reverse, d < 10 := by
        intro d mem
        obtain ⟨c, inside, rfl⟩ := List.mem_map.1 (List.mem_reverse.1 mem)
        exact digitOf_lt (digits c inside)
      generalize key.toList = cs at *
      rcases cs with _ | ⟨c, rest⟩
      · exact absurd rfl nonempty
      -- a zero in front stands alone, so any other first digit is the leading digit of the number
      by_cases zero : c = '0'
      · left
        subst zero
        have short : rest = [] := by simpa using lead
        subst short
        exact ⟨value.symm, rfl⟩
      · right
        have first : digitOf c ≠ 0 := fun eq =>
          zero (digitOf_injective (digits c (List.mem_cons_self ..)) rfl eq)
        have written : Nat.digits 10 i = ((c :: rest).map digitOf).reverse := by
          rw [← value]
          exact Nat.digits_ofDigits 10 (by decide) _ small fun ne => by simpa using first
        refine ⟨fun eq => ?_, written⟩
        subst eq
        simp at written
    · cases index

/-- An index has one key. -/
theorem parseIndex?_injective {k₁ k₂ : String} {i : Nat} (h₁ : parseIndex? k₁ = some i)
    (h₂ : parseIndex? k₂ = some i) : k₁ = k₂ := by
  apply String.toList_injective
  obtain ⟨digits₁, ⟨zero₁, eq₁⟩ | ⟨pos₁, eq₁⟩⟩ := digits_of_parseIndex? h₁ <;>
    obtain ⟨digits₂, ⟨zero₂, eq₂⟩ | ⟨pos₂, eq₂⟩⟩ := digits_of_parseIndex? h₂
  · rw [eq₁, eq₂]
  · exact absurd zero₁ pos₂
  · exact absurd zero₂ pos₁
  · have same : k₁.toList.map digitOf = k₂.toList.map digitOf :=
      List.reverse_injective (eq₁.symm.trans eq₂)
    exact eq_of_map_digitOf digits₁ digits₂ same

/-! ## The key of an index -/

theorem head_toDigits {n : ℕ} (pos : 0 < n) : (Nat.toDigits 10 n).head? ≠ some '0' := by
  induction n using Nat.strongRecOn with
  | ind n ih =>
    rw [Nat.toDigits_eq_if (by decide)]
    split
    -- a single digit is zero for zero only; otherwise the first digit is that of the number without its last one
    next one => interval_cases n <;> decide
    next more =>
      rw [List.head?_append_of_ne_nil _ Nat.toDigits_ne_nil]
      exact ih (n / 10) (by omega) (by omega)

/-- The key of an index is read back as the index. -/
theorem parseIndex?_toString {n : ℕ} (small : n < Nat.pow 2 64) : parseIndex? (toString n) = some n := by
  have nonempty : (toString n).toList.isEmpty = false := List.isEmpty_eq_false_iff.2 (toString_ne_nil n)
  have digits : (toString n).toList.all Char.isDigit = true := List.all_eq_true.2 (isDigits_toString n)
  have single : ((toString n).toList.head? == some '0' && (toString n).toList.length != 1) = false := by
    rw [Nat.toString_eq_repr, Nat.toList_repr]
    rcases Nat.eq_zero_or_pos n with rfl | pos
    · rfl
    · rw [beq_eq_false_iff_ne.2 (head_toDigits pos), Bool.false_and]
  unfold parseIndex?
  dsimp only
  rw [nonempty, digits, single, natOfDigits_toString, if_pos small]
  rfl

theorem toString_ne_length (n : ℕ) : toString n ≠ "length" := by
  intro same
  have digits := isDigits_toString n
  rw [same] at digits
  cases digits 'l' (by decide)

/-- A key denotes an index exactly if it is its decimal form and the index has at most 64 bits. -/
theorem parseIndex?_eq_some_iff {key : String} {i : Nat} :
    parseIndex? key = some i ↔ key = toString i ∧ i < Nat.pow 2 64 := by
  constructor
  · intro index
    have small : i < Nat.pow 2 64 := by
      unfold parseIndex? at index
      dsimp only at index
      split at index
      · cases index
      · split at index
        next small => exact Option.some.inj index ▸ small
        next => cases index
    exact ⟨parseIndex?_injective index (parseIndex?_toString small), small⟩
  · intro decimal
    rw [decimal.1]
    exact parseIndex?_toString decimal.2

/-- The key of an index denotes no other index. -/
theorem eq_of_parseIndex?_toString {i j : Nat} (index : parseIndex? (toString i) = some j) : j = i :=
  (Nat.repr_injective (parseIndex?_eq_some_iff.1 index).1).symm

/-! ## Keys of containers -/

theorem mem_indexKeys {key : String} {n : Nat} : key ∈ indexKeys n ↔ ∃ i < n, key = toString i := by
  unfold indexKeys
  rw [List.mem_map]
  constructor
  · rintro ⟨i, inside, rfl⟩
    exact ⟨i, List.mem_range.1 inside, rfl⟩
  · rintro ⟨i, inside, rfl⟩
    exact ⟨i, List.mem_range.2 inside, rfl⟩

theorem nodup_indexKeys (n : Nat) : (indexKeys n).Nodup :=
  List.nodup_range.map fun _ _ same => Nat.repr_injective same

namespace Heap

variable {h : Heap} {v : Value} {key : String} {a o : Nat}

/-- A container as a memory of 64 bits holds it: the index of every item of an array fits into 64 bits, and an object
has every key once. -/
def FitsMemory (h : Heap) : Value → Prop
  | .array a => (h.items a).size ≤ Nat.pow 2 64
  | .object o => (h.properties o).keys.Nodup
  | _ => True

/-- Enumerating the keys of a container, asking for one and reading it agree. -/
structure KeysAgree (h : Heap) (v : Value) : Prop where
  present : ∀ key, h.has v key = true ↔ key ∈ h.keys v ∨ (∃ a, v = .array a) ∧ key = "length"
  distinct : (h.keys v).Nodup
  absent : ∀ key, h.has v key = false → h.get v key = .undefined

/-! ### Arrays -/

theorem has_array_iff (small : (h.items a).size ≤ Nat.pow 2 64) :
    h.has (.array a) key = true ↔ key ∈ h.keys (.array a) ∨ key = "length" := by
  unfold has keys
  dsimp only
  rw [Bool.or_eq_true, beq_iff_eq, Option.any_eq_true, mem_indexKeys, or_comm]
  refine or_congr_left ⟨?_, ?_⟩
  · rintro ⟨i, index, inside⟩
    exact ⟨i, of_decide_eq_true inside, (parseIndex?_eq_some_iff.1 index).1⟩
  · rintro ⟨i, inside, rfl⟩
    exact ⟨i, parseIndex?_toString (Nat.lt_of_lt_of_le inside small), decide_eq_true inside⟩

/-- What an array does not have reads as `undefined`. -/
theorem get_array_of_not_has (absent : h.has (.array a) key = false) : h.get (.array a) key = .undefined := by
  unfold has at absent
  rw [Bool.or_eq_false_iff, beq_eq_false_iff_ne] at absent
  obtain ⟨item, behind⟩ := absent
  unfold get
  dsimp only
  rw [if_neg item]
  cases index : parseIndex? key with
  | none => rfl
  | some i =>
    rw [index, Option.any_some, decide_eq_false_iff_not, Nat.not_lt] at behind
    show (h.items a).getD i .undefined = .undefined
    rw [Array.getD_eq_getD_getElem?, Array.getElem?_eq_none behind]
    rfl

theorem keysAgree_array (small : (h.items a).size ≤ Nat.pow 2 64) : h.KeysAgree (.array a) where
  present key := by
    rw [has_array_iff small, and_iff_right ⟨a, rfl⟩]
  distinct := nodup_indexKeys _
  absent _ := get_array_of_not_has

/-! ### Objects -/

theorem keysAgree_object (distinct : (h.properties o).keys.Nodup) : h.KeysAgree (.object o) where
  present key := by
    -- no object is an array, so the second case never arises
    rw [or_iff_left (by rintro ⟨⟨_, ⟨⟩⟩, _⟩)]
    exact Entries.contains_iff_mem_keys
  distinct := distinct
  absent key missing := by
    have value : ((h.properties o).get? key).isSome = false :=
      (Entries.contains_eq_isSome ..).symm.trans missing
    show ((h.properties o).get? key).getD .undefined = .undefined
    rw [Option.not_isSome_iff_eq_none.1 (Bool.eq_false_iff.1 value)]
    rfl

/-- **Indices, keys and presence agree.** A text denotes an index exactly if it is the decimal form of the index, which
has no zeros in front, and the index fits into 64 bits. So an array or an object has the keys that are enumerated and no
others, but for the length of an array; no key is enumerated twice; and a key that is not there reads as `undefined`. -/
theorem keys_agree (h : Heap) :
    (∀ key i, parseIndex? key = some i ↔ key = toString i ∧ i < Nat.pow 2 64) ∧
      ∀ v : Value, v.isContainer = true → h.FitsMemory v → h.KeysAgree v := by
  refine ⟨fun _ _ => parseIndex?_eq_some_iff, fun v container fits => ?_⟩
  cases v with
  | array a => exact keysAgree_array fits
  | object o => exact keysAgree_object fits
  | _ => cases container

/-- A list of one item, and an object that has its key written with another zero. -/
def underZeros : Heap where
  arrays := #[{ items := #[.null] }]
  objects := #[{ properties := [("00", .null)] }]

/-- A list of one item has its length, and nothing under the index zero with another zero in front of it. -/
theorem keys_agree_zeros :
    parseIndex? "00" ≠ some 0 ∧ underZeros.FitsMemory (.array 0) ∧ underZeros.FitsMemory (.object 0) ∧
      underZeros.has (.array 0) "length" = true ∧ underZeros.get (.array 0) "00" = .undefined ∧
      underZeros.has (.object 0) "00" = true := by
  have list : underZeros.FitsMemory (.array 0) := by
    show (underZeros.items 0).size ≤ Nat.pow 2 64
    decide
  have object : underZeros.FitsMemory (.object 0) := by
    show (underZeros.properties 0).keys.Nodup
    decide
  obtain ⟨index, agree⟩ := keys_agree underZeros
  have items := agree (.array 0) rfl list
  refine ⟨fun zero => ?_, list, object, (items.present "length").2 (.inr ⟨⟨0, rfl⟩, rfl⟩), items.absent "00" rfl,
    ((agree (.object 0) rfl object).present "00").2 (.inl (by decide))⟩
  exact absurd ((index "00" 0).1 zero).1 (by decide)

end Heap

end BindScript
