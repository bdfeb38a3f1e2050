import BindScript.Proofs.Access.ShortCircuit
import BindScript.Proofs.Regime.Basic
import BindScript.Proofs.Tracking.Silent

/-!
# What `delete` answers

`delete` answers whether a property is gone. For objects the answer follows the property: a frozen object answers
that what it never had is gone, and that what it has is not. For other values the answer is given before anybody
looks at the property (`Heap.Misreports`):

- the length of an array is not removed, nor are the length and the characters of a string, and the answer is that
  they are gone;
- a frozen array answers that nothing is gone, also of what it never had.

Everywhere else the answer is true (`delete_answers`): what is said to be gone reads as `undefined`, and what is said
to be left is there and nothing has changed.
-/

namespace BindScript

open EvalM

/-! ## Properties of strings and arrays -/

namespace Heap

variable {h : Heap} {a : Nat} {key text : String}

/-- A string has a length, and a property for each of its characters. -/
theorem get_string_eq_undefined : h.get (.string text) key = .undefined ↔
    key ≠ "length" ∧ ∀ i, parseIndex? key = some i → text.toList.length ≤ i := by
  unfold get
  dsimp only
  by_cases isLength : key = "length"
  · simp [isLength, Value.count]
  rw [if_neg isLength]
  cases parseIndex? key with
  | none => simp [isLength]
  | some i =>
    by_cases inside : i < text.toList.length
    · simp [isLength, Value.char, inside]
    · simp [isLength, Nat.le_of_not_lt inside]

/-- An item that is removed from an array reads as `undefined`; so does what no array has. -/
theorem get_remove_array (inside : a < h.arrays.size) (ne : key ≠ "length") :
    (h.remove (.array a) key).get (.array a) key = .undefined := by
  cases index : parseIndex? key with
  | some i => rw [get_remove_item inside index ne, if_pos rfl]
  | none =>
    rw [get_array_of_ne_length ne, index]
    rfl

/-- What an array that is not frozen does not let go is its length, or it is not there. -/
theorem get_of_not_canRemove (unfrozen : (h.arrayAt a).frozen = false) (kept : h.canRemove (.array a) key = false)
    (ne : key ≠ "length") : h.get (.array a) key = .undefined := by
  refine get_of_not_has rfl ?_
  unfold canRemove at kept
  simp only [unfrozen, Bool.not_false, Bool.true_and] at kept
  show (key == "length" || (parseIndex? key).any (· < (h.items a).size)) = false
  rw [kept, Bool.or_false]
  exact beq_eq_false_iff_ne.2 ne

/-- The answer to `delete` is given without a look at the property, and it is wrong. -/
def Misreports (h : Heap) (key : String) : Value → Prop
  | .array a => if (h.arrayAt a).frozen then h.has (.array a) key = false else key = "length"
  | .string text => key = "length" ∨ ∃ i, parseIndex? key = some i ∧ i < text.toList.length
  | _ => False

end Heap

/-! ## Answers -/

/-- An operand of `delete` comes to a property of a value. -/
inductive Expr.Selects (sub : Interpreter) (s : State) : Expr → Value → String → State → Prop
  | member {object : Expr} {property : String} {optional : Bool} {target : Value} {u : State} :
    sub.expr object s = .ok target u → Selects sub s (.member object property optional) target property u
  | index {object key : Expr} {optional : Bool} {target : Value} {text : String} {t u : State} :
    sub.expr object s = .ok target t → evalKey sub key t = .ok text u →
    Selects sub s (.index object key optional) target text u

/-- An answer to `delete` is true: what is said to be gone reads as `undefined` in lenient mode, and what is said to
be left is there, and all is as before. -/
def Context.Truthful (ctx : Context) (target : Value) (key : String) (before after : State) : Bool → Prop
  | true => getProperty ctx.lenient target key after = .ok .undefined after
  | false => after.heap.has target key = true ∧ after = before

namespace EvalM

variable {ctx : Context} {sub : Interpreter} {levels a o : Nat} {e : Expr} {target : Value} {key : String} {s u : State}

/-- A value other than `null` and `undefined` reads as its property. -/
theorem truthful_true (some : target.isNullish = false) :
    ctx.Truthful target key s u true ↔ u.heap.get target key = .undefined := by
  have reads : getProperty ctx.lenient target key u = .ok (u.heap.get target key) u := by
    unfold getProperty
    rw [some]
    rfl
  unfold Context.Truthful
  rw [reads]
  simp

theorem deleteProperty_object (ctx : Context) (o : Nat) (key : String) (u : State) :
    deleteProperty ctx (.object o) key u =
      if (u.heap.objectAt o).frozen then .ok (!u.heap.has (.object o) key) u
      else .ok true { u with heap := u.heap.remove (.object o) key } := by
  show (if (u.heap.objectAt o).frozen = true then _ else _ : EvalM Bool) u = _
  split <;> rfl

theorem deleteProperty_array (ctx : Context) (a : Nat) (key : String) (u : State) :
    deleteProperty ctx (.array a) key u =
      if (u.heap.arrayAt a).frozen then .ok false u
      else if u.heap.canRemove (.array a) key then .ok true { u with heap := u.heap.remove (.array a) key }
      else .ok true u := by
  show (if (u.heap.arrayAt a).frozen = true then _ else _ : EvalM Bool) u = _
  split
  · rfl
  · show (if u.heap.canRemove (.array a) key = true then _ else _ : EvalM Bool) u = _
    split <;> rfl

/-- What is deleted from an object is gone, or the object is frozen and has it. -/
theorem object_truthful (ctx : Context) (o : Nat) (key : String) (u : State) :
    ∃ gone t, deleteProperty ctx (.object o) key u = .ok gone t ∧ ctx.Truthful (.object o) key u t gone := by
  rw [deleteProperty_object]
  cases frozen : (u.heap.objectAt o).frozen with
  | true =>
    refine ⟨_, u, rfl, ?_⟩
    cases has : u.heap.has (.object o) key with
    | true => exact ⟨has, rfl⟩
    | false => exact (truthful_true rfl).2 (Heap.get_of_not_has rfl has)
  | false =>
    exact ⟨true, _, rfl, (truthful_true rfl).2 (Heap.get_remove_object (Heap.lt_size_of_unfrozen_object frozen))⟩

/-- An array that is frozen answers that nothing is gone; the others answer that everything is, and keep their
length. -/
theorem array_truthful : ∃ gone t, deleteProperty ctx (.array a) key u = .ok gone t ∧
    (ctx.Truthful (.array a) key u t gone ↔ ¬u.heap.Misreports key (.array a)) := by
  rw [deleteProperty_array, Heap.Misreports]
  cases frozen : (u.heap.arrayAt a).frozen with
  | true => exact ⟨false, u, rfl, by simp [Context.Truthful]⟩
  | false =>
    simp only [Bool.false_eq_true, if_false]
    by_cases isLength : key = "length"
    · -- the length is no index, so it is not removed
      subst isLength
      have kept : u.heap.canRemove (.array a) "length" = false := by
        rw [Heap.canRemove, frozen]
        rfl
      rw [kept]
      refine ⟨true, u, rfl, iff_of_false (fun gone => ?_) (not_not.2 rfl)⟩
      cases (truthful_true rfl).1 gone
    · cases removes : u.heap.canRemove (.array a) key with
      | true =>
        exact ⟨true, _, rfl, iff_of_true ((truthful_true rfl).2
          (Heap.get_remove_array (Heap.lt_size_of_unfrozen_array frozen) isLength)) isLength⟩
      | false =>
        exact ⟨true, u, rfl, iff_of_true ((truthful_true rfl).2
          (Heap.get_of_not_canRemove frozen removes isLength)) isLength⟩

/-- From a string nothing is removed, and all of it is said to be gone. -/
theorem string_truthful {text : String} : ctx.Truthful (.string text) key u u true ↔
    ¬u.heap.Misreports key (.string text) := by
  rw [truthful_true rfl, Heap.get_string_eq_undefined, Heap.Misreports]
  push Not
  rfl

/-- `delete` fails where there is nothing to delete from and the mode is strict. Otherwise it answers, and its answer
is true where the property is looked at. -/
theorem deleteProperty_answers (ctx : Context) (target : Value) (key : String) (u : State) :
    (∃ gone t, deleteProperty ctx target key u = .ok gone t ∧
      (ctx.Truthful target key u t gone ↔ ¬u.heap.Misreports key target)) ∨
    ctx.options.strict = true ∧ target.isNullish = true ∧
      deleteProperty ctx target key u = typeFault (.deleteOfNullish (u.heap.text target) key) u := by
  cases target with
  | object o =>
    obtain ⟨gone, t, answer, truthful⟩ := object_truthful ctx o key u
    exact .inl ⟨gone, t, answer, iff_of_true truthful id⟩
  | array a => exact .inl array_truthful
  | string text => exact .inl ⟨true, u, rfl, string_truthful⟩
  | undefined | null =>
    cases strict : ctx.options.strict with
    | true =>
      refine .inr ⟨rfl, rfl, ?_⟩
      unfold deleteProperty
      rw [strict]
      rfl
    | false =>
      refine .inl ⟨true, u, ?_, iff_of_true rfl id⟩
      unfold deleteProperty
      rw [strict]
      rfl
  | bool | number | closure | native => exact .inl ⟨true, u, rfl, iff_of_true rfl id⟩

/-- The operand of `delete` is worked out, and then the property is deleted. -/
theorem evalDelete_of_selects (selects : e.Selects sub s target key u) :
    evalDelete ctx sub e s = (do return Value.bool (← deleteProperty ctx target key)) u := by
  cases selects with
  | member object => exact bind_of_ok object
  | index object keyed => exact (bind_of_ok object).trans (bind_of_ok keyed)

theorem runs_of_selects (selects : e.Selects (interpreter ctx levels) s target key u) : s.interrupted = false := by
  cases selects with
  | member object => exact runs_of_expr object
  | index object _ => exact runs_of_expr object

/-- Once its operand has come to a property of a value, `delete` gives an answer, or it fails in strict mode because
the value is `null` or `undefined`. The answer is true unless it is one of those that are given without a look at the
property. -/
theorem delete_answers (selects : e.Selects (interpreter ctx levels) s target key u) :
    (∃ gone t, (interpreter ctx (levels + 1)).expr (.unary .delete e) s = .ok (.bool gone) t ∧
      (ctx.Truthful target key u t gone ↔ ¬u.heap.Misreports key target)) ∨
    ctx.options.strict = true ∧ target.isNullish = true ∧
      (interpreter ctx (levels + 1)).expr (.unary .delete e) s =
        .error (.error (.type (.deleteOfNullish (u.heap.text target) key))) u := by
  have whole : (interpreter ctx (levels + 1)).expr (.unary .delete e) s =
      (do return Value.bool (← deleteProperty ctx target key)) u :=
    (bind_of_ok (checkInterrupt_of_runs (runs_of_selects selects))).trans (evalDelete_of_selects selects)
  rw [whole]
  rcases deleteProperty_answers ctx target key u with ⟨gone, t, answer, truthful⟩ | ⟨strict, nullish, fails⟩
  · exact .inl ⟨gone, t, bind_of_ok answer, truthful⟩
  · exact .inr ⟨strict, nullish, bind_of_error fails⟩

/-- An array keeps its length and a string its characters, though they are said to be gone. A frozen array says that
an item is left which it does not have. -/
theorem delete_untruthful :
    let ctx : Context := { locals := .null, app := .null, globals := [("a", .array 0), ("b", .array 1)] }
    let s : State := { heap := { arrays := #[{ items := #[.null] }, { items := #[.null], frozen := true }] } }
    (interpreter ctx 2).expr (.unary .delete (.member (.name "a") "length" false)) s = .ok (.bool true) s ∧
      getProperty ctx.lenient (.array 0) "length" s = .ok (.count 1) s ∧
    (interpreter ctx 2).expr (.unary .delete (.index (.literal (.string "ab")) (.literal (.string "0")) false)) s =
      .ok (.bool true) s ∧
      getProperty ctx.lenient (.string "ab") "0" s = .ok (.char 'a') s ∧
    (interpreter ctx 2).expr (.unary .delete (.index (.name "b") (.literal (.string "5")) false)) s =
      .ok (.bool false) s ∧
      s.heap.has (.array 1) "5" = false :=
  ⟨rfl, rfl, rfl, rfl, rfl, rfl⟩

/-- An item of an array is gone after it has been deleted. -/
theorem delete_item_truthful :
    let ctx : Context := { locals := .null, app := .null, globals := [("a", .array 0)] }
    let s : State := { heap := { arrays := #[{ items := #[.null] }] } }
    ∃ gone t, (interpreter ctx 2).expr (.unary .delete (.index (.name "a") (.literal (.string "0")) false)) s =
      .ok (.bool gone) t ∧ ctx.Truthful (.array 0) "0" s t gone := by
  intro ctx s
  have selects : Expr.Selects (interpreter ctx 1) s (.index (.name "a") (.literal (.string "0")) false)
      (.array 0) "0" s := .index rfl rfl
  rcases delete_answers selects with ⟨gone, t, answer, truthful⟩ | ⟨strict, -, -⟩
  · exact ⟨gone, t, answer, truthful.2 (show ¬"0" = "length" by decide)⟩
  · cases strict

end EvalM

end BindScript
