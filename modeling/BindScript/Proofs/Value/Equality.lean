import BindScript.Proofs.Number.Whole
import BindScript.Value.Convert

/-!
# Equality with conversion

A comparison with conversion is answered at once, or other values are compared in the place of the two: a boolean
becomes a number, and a container next to a number or a string becomes a string (`Heap.compareOnce`). Which of the
cases comes first matters, since a boolean may meet a container or another boolean. Each step takes away one of the
values that can still be converted, so after at most two of them there is an answer (`Heap.compares_looseEquals`). It
does not depend on the order of the values, and values that are equal without conversion are equal with it
(`Heap.looseEquals_lawful`).
-/

namespace BindScript

/-! ## Numbers -/

namespace Number

/-- Comparing the other way round gives the opposite. -/
theorem compare_swap (x y : Float.Model.UnpackedFloat) : (x.compare y).map Ordering.swap = y.compare x := by
  cases x with
  | notANumber => cases y <;> rfl
  | infinity s =>
    cases y with
    | notANumber => cases s <;> rfl
    | infinity s' => cases s <;> cases s' <;> rfl
    | zero | finite => cases s <;> rfl
  | zero s =>
    cases y with
    | notANumber | zero => rfl
    | infinity s' | finite s' => cases s' <;> rfl
  | finite s m e pos =>
    cases y with
    | notANumber => cases s <;> rfl
    | infinity s' => cases s <;> cases s' <;> rfl
    | zero => cases s <;> rfl
    | finite s' m' e' pos' =>
      cases s <;> cases s' <;>
        simp [Float.Model.UnpackedFloat.compare, Ordering.swap_then, Int.compare_swap, Nat.compare_swap]

theorem beq_comm (x y : Float) : (x == y) = (y == x) := by
  have turned : ∀ x y : Float, (x == y) = true → (y == x) = true := by
    intro x y equal
    rw [beq_iff_compare] at equal ⊢
    rw [← compare_swap, equal]
    rfl
  exact Bool.eq_iff_iff.2 ⟨turned x y, turned y x⟩

end Number

/-! ## Steps of a comparison -/

/-- What comes of one step of a comparison: an answer, or two values that are compared in the place of the two. -/
inductive Comparison
  | answer (equal : Bool)
  | instead (a b : Value)

namespace Heap

/-- One step of a comparison with conversion. The first case that fits is taken. -/
def compareOnce (h : Heap) (a b : Value) : Comparison :=
  if a.isNullish || b.isNullish then .answer (a.isNullish && b.isNullish)
  else match a, b with
    | .number _, .string _ | .string _, .number _ => .answer (h.toNumber a == h.toNumber b)
    | .bool _, _ => .instead (.number (h.toNumber a)) b
    | _, .bool _ => .instead a (.number (h.toNumber b))
    | .array _, .number _ | .array _, .string _ | .object _, .number _ | .object _, .string _ =>
      .instead (.string (h.text a)) b
    | .number _, .array _ | .number _, .object _ | .string _, .array _ | .string _, .object _ =>
      .instead a (.string (h.text b))
    | _, _ => .answer (a.strictEquals b)

/-- The comparison of the two values comes to an end with the answer. -/
inductive Compares (h : Heap) : Value → Value → Bool → Prop
  | answer {a b : Value} {equal : Bool} (now : h.compareOnce a b = .answer equal) : Compares h a b equal
  | instead {a b a' b' : Value} {equal : Bool} (step : h.compareOnce a b = .instead a' b')
    (later : Compares h a' b' equal) : Compares h a b equal

end Heap

/-- How often the value can be converted in a comparison. -/
def Value.conversions : Value → Nat
  | bool _ | array _ | object _ => 1
  | _ => 0

namespace Heap

variable {h : Heap} {a b a' b' : Value} {equal : Bool}

theorem looseEquals_of_answer (now : h.compareOnce a b = .answer equal) : h.looseEquals a b = equal := by
  cases a <;> cases b <;> cases now <;> rfl

/-- A step takes away a conversion and does not change the answer. -/
theorem looseEquals_of_instead (step : h.compareOnce a b = .instead a' b') :
    h.looseEquals a' b' = h.looseEquals a b ∧ a'.conversions + b'.conversions < a.conversions + b.conversions := by
  cases a <;> cases b <;> cases step <;> exact ⟨rfl, Nat.lt_succ_self _⟩

/-- Every comparison comes to an end. -/
theorem compares_looseEquals (h : Heap) (a b : Value) : h.Compares a b (h.looseEquals a b) := by
  induction more : a.conversions + b.conversions using Nat.strongRecOn generalizing a b with
  | ind n ih =>
    cases step : h.compareOnce a b with
    | answer equal =>
      rw [looseEquals_of_answer step]
      exact .answer step
    | instead a' b' =>
      obtain ⟨same, fewer⟩ := looseEquals_of_instead step
      rw [← same]
      exact .instead step (ih _ (more ▸ fewer) a' b' rfl)

theorem Compares.eq_looseEquals (compares : h.Compares a b equal) : equal = h.looseEquals a b := by
  induction compares with
  | answer now => exact (looseEquals_of_answer now).symm
  | instead step _ ih => exact ih.trans (looseEquals_of_instead step).1

end Heap

/-! ## Laws -/

/-- One case for each pair of types. Containers and functions are compared by what they are, not by what they hold. -/
theorem Value.strictEquals_comm (a b : Value) : a.strictEquals b = b.strictEquals a := by
  cases a with
  | undefined | null => cases b <;> rfl
  | number x =>
    cases b with
    | number y => exact Number.beq_comm x y
    | _ => rfl
  | bool x =>
    cases b with
    | bool y => exact Bool.beq_comm
    | _ => rfl
  | string s =>
    cases b with
    | string t => exact Bool.beq_comm
    | _ => rfl
  | array a =>
    cases b with
    | array b => exact Bool.beq_comm
    | _ => rfl
  | object a =>
    cases b with
    | object b => exact Bool.beq_comm
    | _ => rfl
  | closure a =>
    cases b with
    | closure b => exact Bool.beq_comm
    | _ => rfl
  | native f a =>
    cases b with
    | native g b => exact Bool.beq_comm
    | _ => rfl

namespace Heap

/-- Both orders compare the same two values, converted in the same way. -/
theorem looseEquals_comm (h : Heap) (a b : Value) : h.looseEquals a b = h.looseEquals b a := by
  unfold looseEquals
  rw [Bool.or_comm, Bool.and_comm]
  dsimp only
  split
  · rfl
  · generalize h.comparable b.unboxBool a.unboxBool = y
    generalize h.comparable a.unboxBool b.unboxBool = x
    cases x with
    | number x =>
      cases y with
      | string s => exact Number.beq_comm _ _
      | _ => exact Value.strictEquals_comm _ _
    | string s =>
      cases y with
      | number y => exact Number.beq_comm _ _
      | _ => exact Value.strictEquals_comm _ _
    | _ => cases y <;> exact Value.strictEquals_comm _ _

/-- Strictly equal values are loosely equal. -/
theorem looseEquals_of_strictEquals (h : Heap) {a b : Value} (equal : a.strictEquals b = true) :
    h.looseEquals a b = true := by
  cases a with
  | bool x =>
    cases b with
    | bool y =>
      obtain rfl : x = y := eq_of_beq equal
      -- what a boolean becomes is 0 or 1, and these are equal to themselves
      have self : ∀ x : Bool, ((if x then (1.0 : Float) else 0.0) == if x then 1.0 else 0.0) = true := by
        decide +kernel
      exact self x
    | _ => cases equal
  | _ => cases b <;> first | exact equal | cases equal

/-- A comparison with conversion comes to an end, whatever the two values are, and there is only one answer. It is the
same the other way round. Values that are equal without conversion are equal with it, and `null` and `undefined` are
equal to each other and to nothing else. -/
theorem looseEquals_lawful (h : Heap) (a b : Value) :
    (∀ equal, h.Compares a b equal ↔ h.looseEquals a b = equal) ∧
      h.looseEquals a b = h.looseEquals b a ∧
      (a.strictEquals b = true → h.looseEquals a b = true) ∧
      (a = .null ∨ a = .undefined → (h.looseEquals a b = true ↔ b = .null ∨ b = .undefined)) := by
  refine ⟨fun equal => ⟨fun compares => ?_, ?_⟩, looseEquals_comm h a b, looseEquals_of_strictEquals h, ?_⟩
  · exact compares.eq_looseEquals.symm
  · rintro rfl
    exact compares_looseEquals h a b
  · rintro (rfl | rfl) <;> cases b <;> simp [looseEquals, Value.isNullish]

end Heap

end BindScript
