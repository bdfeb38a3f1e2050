import Mathlib.Algebra.Order.BigOperators.Group.List
import Mathlib.Algebra.Order.Ring.Nat
import BindScript.Evaluation.Method

/-!
# How long texts get

The bytes of texts that are cut out of others, joined or filled up, and what the checks of the operations that make
such texts come to: a check that passes bounds the text that is made after it.
-/

namespace BindScript

namespace Text

theorem utf8ByteSize_ofList (cs : List Char) :
    (String.ofList cs).utf8ByteSize = (cs.map Char.utf8Size).sum := by
  induction cs with
  | nil => rfl
  | cons c cs ih =>
    rw [String.ofList_cons, String.utf8ByteSize_append, String.utf8ByteSize_singleton, ih, List.map_cons,
      List.sum_cons]

theorem utf8ByteSize_eq_sum (s : String) : s.utf8ByteSize = (s.toList.map Char.utf8Size).sum := by
  rw [← utf8ByteSize_ofList, String.ofList_toList]

/-- Leaving characters out makes a text no longer. -/
theorem utf8ByteSize_le_of_sublist {cs : List Char} {s : String} (sublist : cs.Sublist s.toList) :
    (String.ofList cs).utf8ByteSize ≤ s.utf8ByteSize := by
  rw [utf8ByteSize_ofList, utf8ByteSize_eq_sum]
  exact (sublist.map _).sum_le_sum fun _ _ => Nat.zero_le _

theorem utf8ByteSize_le_length_mul {s : String} {widest : Nat} (wide : ∀ c ∈ s.toList, c.utf8Size ≤ widest) :
    s.utf8ByteSize ≤ s.length * widest := by
  rw [utf8ByteSize_eq_sum, ← String.length_toList]
  simpa using List.sum_le_card_nsmul (s.toList.map Char.utf8Size) widest (List.forall_mem_map.2 wide)

theorem mem_filled {filler : String} {n : Nat} {c : Char} (mem : c ∈ (filled filler n).toList) :
    c ∈ filler.toList := by
  rw [filled, String.toList_append, toList_repeated, String.toList_ofList] at mem
  rcases List.mem_append.1 mem with mem | mem
  · obtain ⟨cs, copy, mem⟩ := List.mem_flatten.1 mem
    exact List.eq_of_mem_replicate copy ▸ mem
  · exact List.mem_of_mem_take mem

theorem utf8ByteSize_intercalate (separator : String) (parts : List String) :
    (separator.intercalate parts).utf8ByteSize =
      (parts.map String.utf8ByteSize).sum + separator.utf8ByteSize * (parts.length - 1) := by
  induction parts with
  | nil => simp
  | cons part more ih =>
    cases more with
    | nil => simp
    | cons next more =>
      rw [String.intercalate_cons_cons, String.utf8ByteSize_append, String.utf8ByteSize_append, ih]
      simp only [List.map_cons, List.sum_cons, List.length_cons, Nat.add_sub_cancel, Nat.mul_add_one]
      omega

theorem trimLeft_sublist (cs : List Char) : (trimLeft cs).Sublist cs :=
  List.dropWhile_sublist _

theorem trimRight_sublist (cs : List Char) : (trimRight cs).Sublist cs := by
  have inside : (cs.reverse.dropWhile isBlank).Sublist cs.reverse := List.dropWhile_sublist _
  simpa [trimRight] using inside.reverse

theorem trim_sublist (cs : List Char) : (trim cs).Sublist cs :=
  (trimRight_sublist _).trans (trimLeft_sublist cs)

end Text

open Text

theorem le_of_checkStringLength {bytes : Nat} {u : Unit} (passed : checkStringLength bytes = .ok u) :
    bytes ≤ maxStringLength := by
  unfold checkStringLength at passed
  split at passed
  · cases passed
  next fits => exact Nat.not_lt.1 fits

theorem le_of_checkArrayLength {items : Nat} {u : Unit} (passed : checkArrayLength items = .ok u) :
    items ≤ maxArrayLength := by
  unfold checkArrayLength at passed
  split at passed
  · cases passed
  next fits => exact Nat.not_lt.1 fits

/-- A sum that is a text is no longer than texts may be. -/
theorem Heap.size_le_of_add {h : Heap} {a b : Value} {s : String} (sum : h.add a b = .ok (.string s)) :
    s.utf8ByteSize ≤ maxStringLength := by
  unfold Heap.add at sum
  split at sum
  · cases passed : checkStringLength ((h.text a).utf8ByteSize + (h.text b).utf8ByteSize) with
    | error e =>
      simp only [passed] at sum
      cases sum
    | ok u =>
      simp only [passed] at sum
      cases sum
      rw [String.utf8ByteSize_append]
      exact le_of_checkStringLength passed
  · cases sum

/-- The widest of characters. -/
private theorem le_widest {cs : List Char} {n : Nat} :
    n ≤ cs.foldl (fun n c => max n c.utf8Size) n ∧
      ∀ c ∈ cs, c.utf8Size ≤ cs.foldl (fun n c => max n c.utf8Size) n := by
  induction cs generalizing n with
  | nil => exact ⟨Nat.le_refl _, nofun⟩
  | cons c cs ih =>
    have later := ih (n := max n c.utf8Size)
    refine ⟨(Nat.le_max_left _ _).trans later.1, List.forall_mem_cons.2 ⟨?_, later.2⟩⟩
    exact (Nat.le_max_right _ _).trans later.1

private theorem size_le_of_filled {text filler pad : String} {missing : Nat}
    (short : text.utf8ByteSize ≤ maxStringLength)
    (padded : (if missing = 0 || filler.isEmpty then return "" else do
        checkStringLength (text.utf8ByteSize + missing * filler.toList.foldl (fun n c => max n c.utf8Size) 0)
        return Text.filled filler missing : Except EvalError String) = .ok pad) :
    text.utf8ByteSize + pad.utf8ByteSize ≤ maxStringLength := by
  split at padded
  · cases padded
    exact short
  next filled =>
    rw [Bool.or_eq_true, not_or, Bool.not_eq_true, Bool.not_eq_true, decide_eq_false_iff_not] at filled
    have nonempty : 0 < filler.length := by
      rw [Nat.pos_iff_ne_zero, ← String.length_toList, Ne, List.length_eq_zero_iff]
      intro none
      rw [String.toList_eq_nil_iff.1 none] at filled
      exact absurd filled.2 (by decide)
    generalize passed : checkStringLength _ = check at padded
    cases check with
    | error e => cases padded
    | ok u =>
      cases padded
      have room := le_of_checkStringLength passed
      have size : (Text.filled filler missing).utf8ByteSize ≤
          missing * filler.toList.foldl (fun n c => max n c.utf8Size) 0 := by
        have wide := utf8ByteSize_le_length_mul (s := Text.filled filler missing) fun c mem =>
          (le_widest (n := 0)).2 c (mem_filled mem)
        rwa [length_filled nonempty] at wide
      omega

/-- A text is no longer than texts may be with its padding, if it is not without. -/
theorem EvalM.size_le_of_padding {h : Heap} {text pad : String} {length fill : Value}
    (padded : padding h text length fill = .ok pad) (short : text.utf8ByteSize ≤ maxStringLength) :
    text.utf8ByteSize + pad.utf8ByteSize ≤ maxStringLength := by
  unfold padding at padded
  exact size_le_of_filled short padded

/-- Items are joined to a text that is as long as was checked. -/
theorem EvalM.size_of_joined (separator : String) (parts : List String) :
    (separator.intercalate parts).utf8ByteSize =
      parts.foldl (fun n part => n + part.utf8ByteSize) 0 + separator.utf8ByteSize * (parts.length - 1) := by
  have sum : ∀ start, parts.foldl (fun n part => n + part.utf8ByteSize) start =
      start + (parts.map String.utf8ByteSize).sum := by
    induction parts with
    | nil => exact fun _ => rfl
    | cons part more ih =>
      intro start
      rw [List.foldl_cons, ih, List.map_cons, List.sum_cons, Nat.add_assoc]
  rw [utf8ByteSize_intercalate, sum, Nat.zero_add]

end BindScript
