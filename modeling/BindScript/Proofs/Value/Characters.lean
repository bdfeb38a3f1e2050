import BindScript.Proofs.Regime.Size
import BindScript.Proofs.Value.Index

/-!
# Characters of strings

A string has a property for each of its characters, in order, and those are what iterating, spreading and splitting at
nothing give (`indexedBy_length`). Its `length` is another number: it counts units of 16 bits, of which a character
beyond the first 65536 takes two (`lengthUtf16_eq`). A loop up to `length` then reads all characters, and `undefined`
once for each character of two units (`map_get_indexKeys`). So `length` tells how many characters can be read exactly
where no character takes two units (`characters_of_string`).

The key of an index is the text of a number of 64 bits, and more bytes than that no memory holds.
-/

namespace BindScript

/-! ## Units of 16 bits -/

/-- The characters of a string that take two units of 16 bits. -/
def wideCount (s : String) : Nat :=
  s.toList.countP fun c => 0x10000 ≤ c.toNat

private theorem foldl_units (cs : List Char) (start : Nat) :
    cs.foldl (fun n c => n + if c.toNat < 0x10000 then 1 else 2) start =
      start + cs.length + cs.countP fun c => 0x10000 ≤ c.toNat := by
  induction cs generalizing start with
  | nil => rfl
  | cons c rest ih =>
    rw [List.foldl_cons, ih, List.countP_cons, List.length_cons]
    -- the first character is one unit, and one more if it is counted on the right
    by_cases wide : 0x10000 ≤ c.toNat
    · rw [if_neg (Nat.not_lt.2 wide), if_pos (decide_eq_true wide)]
      omega
    · rw [if_pos (Nat.lt_of_not_le wide), if_neg (by simpa using wide)]
      omega

theorem lengthUtf16_eq (s : String) : lengthUtf16 s = s.length + wideCount s := by
  unfold lengthUtf16 wideCount
  rw [String.foldl_eq_foldl_toList, foldl_units, Nat.zero_add, String.length_toList]

theorem wideCount_eq_zero {s : String} : wideCount s = 0 ↔ ∀ c ∈ s.toList, c.toNat < 0x10000 := by
  simp [wideCount, List.countP_eq_zero]

/-- A character takes at least one byte. -/
theorem length_le_utf8ByteSize (s : String) : s.length ≤ s.utf8ByteSize := by
  rw [Text.utf8ByteSize_eq_sum, ← String.length_toList, ← List.length_map Char.utf8Size]
  refine List.length_le_sum_of_one_le _ fun size mem => ?_
  obtain ⟨c, -, rfl⟩ := List.mem_map.1 mem
  exact c.utf8Size_pos

namespace Heap

variable {h : Heap} {s : String} {n : Nat}

/-! ## Reading by index -/

/-- What stands under the keys of the indices below a number is the string, character by character: there are as many
keys, nothing stands behind, and it is what iterating, spreading and splitting at nothing give. -/
structure IndexedBy (h : Heap) (s : String) (n : Nat) : Prop where
  keys : h.keys (.string s) = indexKeys n
  inside : ∀ i < n, ∃ c, h.get (.string s) (toString i) = .char c
  beyond : ∀ i, n ≤ i → h.get (.string s) (toString i) = .undefined
  joined : String.join ((indexKeys n).map fun key => h.text (h.get (.string s) key)) = s
  iterated : ∀ state, EvalM.iterate (.string s) state = .ok ((indexKeys n).map (h.get (.string s))).toArray state
  split : EvalM.splitText h s.toList (.string "") .undefined = (indexKeys n).map (h.get (.string s))

/-- The character at an index. -/
theorem get_string_of_getElem? {i : Nat} {c : Char} (small : i < Nat.pow 2 64) (stands : s.toList[i]? = some c) :
    h.get (.string s) (toString i) = .char c := by
  unfold get
  dsimp only
  rw [if_neg (toString_ne_length i), parseIndex?_toString small]
  dsimp only
  rw [stands]

/-- Behind the last character a string has nothing. -/
theorem get_string_of_length_le {i : Nat} (behind : s.length ≤ i) :
    h.get (.string s) (toString i) = .undefined := by
  unfold get
  dsimp only
  rw [if_neg (toString_ne_length i)]
  cases index : parseIndex? (toString i) with
  | none => rfl
  | some j =>
    obtain rfl := eq_of_parseIndex?_toString index
    dsimp only
    rw [List.getElem?_eq_none (by rwa [String.length_toList])]

/-- A string that fits into a memory of 64 bits gives its characters under the keys of their indices. -/
theorem map_get_length (inMemory : s.utf8ByteSize < Nat.pow 2 64) :
    (indexKeys s.length).map (h.get (.string s)) = s.toList.map Value.char := by
  have few : s.length < Nat.pow 2 64 := Nat.lt_of_le_of_lt (length_le_utf8ByteSize s) inMemory
  apply List.ext_getElem
  · rw [List.length_map, List.length_map, String.length_toList, indexKeys, List.length_map, List.length_range]
  intro i low high
  have inside : i < s.toList.length := by simpa using high
  have stands : s.toList[i]? = some s.toList[i] := List.getElem?_eq_getElem inside
  rw [String.length_toList] at inside
  simp only [indexKeys, List.getElem_map, List.getElem_range]
  exact get_string_of_getElem? (Nat.lt_trans inside few) stands

/-- Reading on behind the last character gives `undefined` each time. -/
theorem map_get_indexKeys (inMemory : s.utf8ByteSize < Nat.pow 2 64) (more : Nat) :
    (indexKeys (s.length + more)).map (h.get (.string s)) =
      s.toList.map Value.char ++ List.replicate more .undefined := by
  have keys : indexKeys (s.length + more) =
      indexKeys s.length ++ (List.range more).map fun i => toString (s.length + i) := by
    simp [indexKeys, List.range_add]
  rw [keys, List.map_append, map_get_length inMemory]
  congr 1
  -- all further keys lie behind the last character
  apply List.ext_getElem
  · rw [List.length_map, List.length_map, List.length_range, List.length_replicate]
  intro i low high
  simp only [List.getElem_map, List.getElem_range, List.getElem_replicate]
  exact get_string_of_length_le (Nat.le_add_right _ _)

private theorem join_singletons (cs : List Char) : String.join (cs.map String.singleton) = String.ofList cs := by
  induction cs with
  | nil => rfl
  | cons c rest ih => rw [List.map_cons, String.join_cons, ih, String.ofList_cons]

/-- As many characters as a string has can be read from it. -/
theorem indexedBy_length (inMemory : s.utf8ByteSize < Nat.pow 2 64) : h.IndexedBy s s.length where
  keys := rfl
  inside i low := by
    have inside : i < s.toList.length := by rwa [String.length_toList]
    have small : i < Nat.pow 2 64 :=
      Nat.lt_trans (Nat.lt_of_lt_of_le low (length_le_utf8ByteSize s)) inMemory
    exact ⟨s.toList[i], get_string_of_getElem? small (List.getElem?_eq_getElem inside)⟩
  beyond _ behind := get_string_of_length_le behind
  joined := by
    have texts : (indexKeys s.length).map (fun key => h.text (h.get (.string s) key)) =
        s.toList.map String.singleton := by
      have reads := congrArg (List.map h.text) (map_get_length (h := h) inMemory)
      rw [List.map_map, List.map_map] at reads
      exact reads
    rw [texts, join_singletons, String.ofList_toList]
  iterated state := by
    rw [map_get_length inMemory]
    rfl
  split := by
    rw [map_get_length inMemory]
    show ((s.toList.map fun c => [c]).map fun piece => Value.string (String.ofList piece)) = _
    rw [List.map_map]
    rfl

/-- The number of characters that can be read is the number of keys, so no other number tells it. -/
theorem IndexedBy.eq_length (reads : h.IndexedBy s n) : n = s.length := by
  have counted := congrArg List.length reads.keys
  simp only [Heap.keys, indexKeys, List.length_map, List.length_range] at counted
  exact counted.symm

/-- The number of keys of a string is the number of characters that can be read from it by index, and those are what
iterating, spreading and splitting give. Its length is that number exactly if no character takes two units of 16 bits;
otherwise a loop up to the length reads `undefined` once for each character that does. -/
theorem characters_of_string (h : Heap) (s : String) (inMemory : s.utf8ByteSize < Nat.pow 2 64) :
    h.get (.string s) "length" = .count (lengthUtf16 s) ∧
      h.IndexedBy s (h.keys (.string s)).length ∧
      (indexKeys (lengthUtf16 s)).map (h.get (.string s)) =
        (h.keys (.string s)).map (h.get (.string s)) ++ List.replicate (wideCount s) .undefined ∧
      (h.IndexedBy s (lengthUtf16 s) ↔ ∀ c ∈ s.toList, c.toNat < 0x10000) := by
  have keys : (h.keys (.string s)).length = s.length := by
    simp [Heap.keys, indexKeys]
  refine ⟨rfl, ?_, ?_, ?_⟩
  · rw [keys]
    exact indexedBy_length inMemory
  · rw [lengthUtf16_eq, map_get_indexKeys inMemory]
    congr 1
    exact (map_get_length inMemory).symm
  · rw [← wideCount_eq_zero]
    constructor
    · intro reads
      -- only one number tells how many characters there are, so no unit is left over
      have same := reads.eq_length
      rw [lengthUtf16_eq] at same
      omega
    · intro narrow
      rw [lengthUtf16_eq, narrow]
      exact indexedBy_length inMemory

/-- With no character beyond the first 65536, accents make no difference: the length is as many as there are indices,
although the text takes more bytes. -/
theorem accented_characters : "héllo".utf8ByteSize < Nat.pow 2 64 ∧
    ({} : Heap).get (.string "héllo") "length" = .count (lengthUtf16 "héllo") ∧
    ({} : Heap).IndexedBy "héllo" (lengthUtf16 "héllo") := by
  have few : "héllo".utf8ByteSize < Nat.pow 2 64 := by decide
  have narrow : ∀ c ∈ "héllo".toList, c.toNat < 0x10000 := by simp
  obtain ⟨length, -, -, reads⟩ := characters_of_string {} "héllo" few
  exact ⟨few, length, reads.2 narrow⟩

/-- The length of one character beyond the first 65536 is two, and there is nothing at the second place. -/
theorem smiley_length :
    ({} : Heap).get (.string "😀") "length" = .count 2 ∧ ({} : Heap).keys (.string "😀") = ["0"] ∧
      Value.count 2 ≠ .count (({} : Heap).keys (.string "😀")).length ∧
      ({} : Heap).get (.string "😀") "0" = .string "😀" ∧ ({} : Heap).get (.string "😀") "1" = .undefined := by
  have characters : "😀".toList = ['😀'] := by decide
  have wide : wideCount "😀" = 1 := by
    rw [wideCount, characters]
    decide
  have one : "😀".length = 1 := by rw [← String.length_toList, characters, List.length_singleton]
  have keys : ({} : Heap).keys (.string "😀") = ["0"] := by
    show indexKeys "😀".length = _
    rw [one]
    decide
  refine ⟨?_, keys, ?_, ?_, ?_⟩
  · show Value.count (lengthUtf16 "😀") = _
    rw [lengthUtf16_eq, one, wide]
  · rw [keys]
    intro same
    have bits : (Float.ofNat 2).toBits = (Float.ofNat 1).toBits :=
      congrArg Float.toBits (Value.number.inj same)
    revert bits
    decide
  · exact get_string_of_getElem? (i := 0) (by decide) (by rw [characters]; rfl)
  · exact get_string_of_length_le (i := 1) one.le

end Heap

end BindScript
