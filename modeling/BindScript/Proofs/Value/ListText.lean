import BindScript.Proofs.Access.Compound
import BindScript.Proofs.Regime.Size

/-!
# Arrays as text

There are two ways to the text of an array. The conversion to strings goes down to a fixed number of arrays inside one
another and leaves out what lies deeper; `String`, templates and `+` use it (`expr_of_converts`). The methods join the
conversions of the items, and so go one array deeper (`expr_of_joins`). An array whose arrays lie no deeper than is
written has one text, whichever way is taken (`text_eq_listText`). The methods leave out no more than the conversion, so
where their text is not too long, the other is not either (`size_text_le`).
-/

namespace BindScript

open EvalM

namespace Heap

variable {h : Heap} {v : Value} {depth more : Nat}

/-! ## Depth -/

/-- At most so many arrays lie inside one another. -/
def NestedWithin (h : Heap) : Nat → Value → Prop
  | depth + 1, .array a => ∀ v ∈ (h.items a).toList, h.NestedWithin depth v
  | 0, .array _ => False
  | _, _ => True

/-- The items of an array as strings, with commas between them; `null` and `undefined` are empty. -/
def listText (h : Heap) (a : Nat) : String :=
  ",".intercalate ((h.items a).toList.map fun v => if v.isNullish then "" else h.text v)

theorem textTo_array (h : Heap) (depth a : Nat) : h.textTo (depth + 1) (.array a) =
    ",".intercalate ((h.items a).toList.map fun v => if v.isNullish then "" else h.textTo depth v) :=
  rfl

/-- Joining the conversions of the items goes one array deeper than the conversion. -/
theorem listText_eq_textTo (h : Heap) (a : Nat) : h.listText a = h.textTo (maxTextDepth + 1) (.array a) :=
  rfl

/-- What lies no deeper than is written is written in full: to write more makes no difference. -/
theorem textTo_of_nestedWithin (nested : h.NestedWithin depth v) (le : depth ≤ more) :
    h.textTo more v = h.textTo depth v := by
  induction depth generalizing v more with
  | zero =>
    cases v with
    | array a => exact nested.elim
    | _ => cases more <;> rfl
  | succ depth ih =>
    obtain ⟨more, rfl⟩ : ∃ n, more = n + 1 := ⟨more - 1, by omega⟩
    cases v with
    | array a =>
      -- the array takes one off both depths, and its items lie in what is left of the smaller one
      rw [textTo_array, textTo_array]
      congr 1
      refine List.map_congr_left fun item mem => ?_
      rw [ih (nested item mem) (by omega)]
    | _ => rfl

/-- To write one array deeper makes no text shorter. -/
theorem size_textTo_le (h : Heap) (depth : Nat) (v : Value) :
    (h.textTo depth v).utf8ByteSize ≤ (h.textTo (depth + 1) v).utf8ByteSize := by
  induction depth generalizing v with
  | zero =>
    cases v with
    | array a => exact Nat.zero_le _
    | _ => exact Nat.le_refl _
  | succ depth ih =>
    cases v with
    | array a =>
      rw [textTo_array, textTo_array, Text.utf8ByteSize_intercalate, Text.utf8ByteSize_intercalate, List.length_map,
        List.length_map, List.map_map, List.map_map]
      -- the commas are the same, and each item gets no shorter
      refine Nat.add_le_add_right (List.sum_le_sum fun item _ => ?_) _
      show (if item.isNullish then "" else h.textTo depth item).utf8ByteSize ≤
        (if item.isNullish then "" else h.textTo (depth + 1) item).utf8ByteSize
      split
      · exact Nat.le_refl _
      · exact ih item
    | _ => exact Nat.le_refl _

theorem size_text_le (h : Heap) (a : Nat) : (h.text (.array a)).utf8ByteSize ≤ (h.listText a).utf8ByteSize :=
  h.size_textTo_le maxTextDepth (.array a)

/-- An array whose arrays lie no deeper than is written has one text. -/
theorem text_eq_listText {a : Nat} (nested : h.NestedWithin maxTextDepth (.array a)) :
    h.text (.array a) = h.listText a :=
  (textTo_of_nestedWithin nested (Nat.le_succ _)).symm

end Heap

/-! ## Expressions -/

/-- The expressions that convert what a name stands for to a string. -/
inductive Expr.Converts (x : String) : Expr → Prop
  | call : Converts x (.call (.name "String") [.name x] false)
  | template : Converts x (.template [.hole (.name x)])
  | sum : Converts x (.binary .add (.literal (.string "")) (.name x))

/-- The calls that join the items of what a name stands for. -/
inductive Expr.Joins (x : String) : Expr → Prop
  | toString : Joins x (.call (.member (.name x) "toString" false) [] false)
  | join : Joins x (.call (.member (.name x) "join" false) [] false)

namespace EvalM

variable {ctx : Context} {s : State} {x : String} {v : Value} {a identity : Nat} {e : Expr}

theorem checkStringLength_of_le {bytes : Nat} (fits : bytes ≤ maxStringLength) : checkStringLength bytes = .ok () := by
  rw [checkStringLength, if_neg (Nat.not_lt.2 fits)]

/-- Items are joined if the text is not too long. -/
theorem joinItems_comma (fits : (s.heap.listText a).utf8ByteSize ≤ maxStringLength) :
    joinItems (s.heap.items a) "," s = .ok (.string (s.heap.listText a)) s := by
  have room := fits
  unfold Heap.listText at room
  rw [size_of_joined] at room
  have passed := congrArg (fun check => ofExcept check s) (checkStringLength_of_le room)
  exact bind_of_ok passed

theorem expr_name (runs : s.interrupted = false) (named : lookup ctx x s = .ok v s) (levels : Nat) :
    (interpreter ctx (levels + 1)).expr (.name x) s = .ok v s :=
  (bind_of_ok (checkInterrupt_of_runs runs)).trans named

theorem evalTarget_name (runs : s.interrupted = false) (named : lookup ctx x s = .ok v s) (levels : Nat) :
    evalTarget (interpreter ctx (levels + 2)) (.name x) false s = .ok (some v) s :=
  evalTarget_of_some (bind_of_ok (expr_name runs named levels))

section List

variable (runs : s.interrupted = false) (named : lookup ctx x s = .ok (.array a) s)
include runs named

/-- The conversions give the text of the array. -/
theorem expr_of_converts (builtin : lookup ctx "String" s = .ok (.native .string identity) s)
    (fits : (s.heap.text (.array a)).utf8ByteSize ≤ maxStringLength) (converts : e.Converts x) (levels : Nat) :
    (interpreter ctx (levels + 3)).expr e s = .ok (.string (s.heap.text (.array a))) s := by
  refine (bind_of_ok (checkInterrupt_of_runs runs)).trans ?_
  have operand : (interpreter ctx (levels + 2)).expr (.name x) s = .ok (.array a) s :=
    expr_name runs named (levels + 1)
  -- nothing stands before the text, so the check is one of the text alone
  have room : checkStringLength ("".utf8ByteSize + (s.heap.text (.array a)).utf8ByteSize) = .ok () := by
    rw [String.utf8ByteSize_empty, Nat.zero_add, checkStringLength_of_le fits]
  have passed := congrArg (fun check => ofExcept check s) room
  cases converts with
  | call =>
    have pushed : (do return #[].push (← (interpreter ctx (levels + 2)).expr (.name x)) : EvalM (Array Value)) s =
        .ok #[.array a] s := bind_of_ok operand
    have items : evalList (interpreter ctx (levels + 2)) [.name x] s = .ok #[.array a] s := bind_of_ok pushed
    have args : evalArgs (interpreter ctx (levels + 2)) [.name x] s = .ok [.array a] s := bind_of_ok items
    have called : evalCall ctx (interpreter ctx (levels + 2)) (.name "String") [.name x] false s =
        .ok (some (.string (s.heap.text (.array a)))) s :=
      (bind_of_ok (evalTarget_name runs builtin levels)).trans (bind_of_ok args)
    exact bind_of_ok called
  | template =>
    have added : (do
        let value ← (interpreter ctx (levels + 2)).expr (.name x)
        let piece ← readHeap (·.text value)
        ofExcept (checkStringLength ("".utf8ByteSize + piece.utf8ByteSize))
        return "" ++ piece : EvalM String) s = .ok ("" ++ s.heap.text (.array a)) s :=
      (bind_of_ok operand).trans (bind_of_ok passed)
    rw [String.empty_append] at added
    have text : evalTemplate (interpreter ctx (levels + 2)) [.hole (.name x)] s = _ := bind_of_ok (bind_of_ok added)
    exact text
  | sum =>
    have literal : (interpreter ctx (levels + 2)).expr (.literal (.string "")) s = .ok (.string "") s :=
      bind_of_ok (checkInterrupt_of_runs runs)
    have sum : s.heap.applyBinary .add (.string "") (.array a) = .ok (.string (s.heap.text (.array a))) := by
      show (do checkStringLength ("".utf8ByteSize + _); return .string ("" ++ _) : Except EvalError Value) = _
      rw [room, String.empty_append]
      rfl
    refine (bind_of_ok literal).trans ((bind_of_ok operand).trans ?_)
    show ofExcept (s.heap.applyBinary .add (.string "") (.array a)) s = _
    rw [sum]
    rfl

/-- The methods give the conversions of the items, with commas between them. -/
theorem expr_of_joins (fits : (s.heap.listText a).utf8ByteSize ≤ maxStringLength) (joins : e.Joins x) (levels : Nat) :
    (interpreter ctx (levels + 3)).expr e s = .ok (.string (s.heap.listText a)) s := by
  refine (bind_of_ok (checkInterrupt_of_runs runs)).trans ?_
  have receiver := evalTarget_name runs named levels
  have joined := joinItems_comma fits
  cases joins with
  | toString =>
    have called : evalCall ctx (interpreter ctx (levels + 2)) (.member (.name x) "toString" false) [] false s =
        .ok (some (.string (s.heap.listText a))) s :=
      (bind_of_ok receiver).trans (bind_of_ok joined)
    exact bind_of_ok called
  | join =>
    have called : evalCall ctx (interpreter ctx (levels + 2)) (.member (.name x) "join" false) [] false s =
        .ok (some (.string (s.heap.listText a))) s :=
      (bind_of_ok receiver).trans (bind_of_ok joined)
    exact bind_of_ok called

end List

end EvalM

/-- The conversions of an array agree with each other at any depth, and so do the methods, which join the conversions
of the items. All of them agree if no array lies deeper in the array than conversions go. -/
theorem array_text {ctx : Context} {s : State} {x : String} {a identity : Nat} (runs : s.interrupted = false)
    (named : lookup ctx x s = .ok (.array a) s) (builtin : lookup ctx "String" s = .ok (.native .string identity) s)
    (fits : (s.heap.listText a).utf8ByteSize ≤ maxStringLength) (levels : Nat) :
    (∀ e : Expr, e.Converts x →
      (interpreter ctx (levels + 3)).expr e s = .ok (.string (s.heap.text (.array a))) s) ∧
    (∀ e : Expr, e.Joins x →
      (interpreter ctx (levels + 3)).expr e s = .ok (.string (s.heap.listText a)) s) ∧
    (s.heap.NestedWithin Heap.maxTextDepth (.array a) → s.heap.text (.array a) = s.heap.listText a) := by
  have short : (s.heap.text (.array a)).utf8ByteSize ≤ maxStringLength := (s.heap.size_text_le a).trans fits
  refine ⟨?_, ?_, Heap.text_eq_listText⟩
  · intro e converts
    exact expr_of_converts runs named builtin short converts levels
  · intro e joins
    exact expr_of_joins runs named fits joins levels

/-! ## Boxes in boxes -/

/-- Arrays of one item, each in the next one, with a text in the first. -/
def boxes (n : Nat) : Heap :=
  { arrays := (Array.range n).map fun i => { items := #[if i = 0 then .string "x" else .array (i - 1)] } }

/-- The outermost of the boxes goes by a name. -/
def Context.withBoxes (n : Nat) : Context :=
  { locals := .undefined
    app := .undefined
    globals := [("a", .array (n - 1)), ("String", .native .string 0)] }

theorem items_boxes {n i : Nat} (inside : i < n) :
    (boxes n).items i = #[if i = 0 then .string "x" else .array (i - 1)] := by
  simp [boxes, Heap.items, Heap.arrayAt, Array.getD, inside]

/-- The text in the first box is reached from a box if enough boxes are opened. -/
theorem textTo_boxes {n i depth : Nat} (inside : i < n) :
    (boxes n).textTo depth (.array i) = if i < depth then "x" else "" := by
  induction depth generalizing i with
  | zero => rfl
  | succ depth ih =>
    rw [Heap.textTo_array, items_boxes inside]
    by_cases first : i = 0
    · subst first
      cases depth <;> rfl
    · have inner : (boxes n).textTo depth (.array (i - 1)) = if i - 1 < depth then "x" else "" := ih (by omega)
      have opened : i - 1 < depth ↔ i < depth + 1 := by omega
      simp only [opened] at inner
      rw [if_neg first, List.map_cons, List.map_nil, String.intercalate_singleton]
      exact inner

theorem nestedWithin_boxes {n i depth : Nat} (inside : i < n) (enough : i < depth) :
    (boxes n).NestedWithin depth (.array i) := by
  induction depth generalizing i with
  | zero => omega
  | succ depth ih =>
    intro v mem
    rw [items_boxes inside, List.mem_singleton] at mem
    subst mem
    by_cases first : i = 0
    · rw [if_pos first]
      cases depth <;> trivial
    · rw [if_neg first]
      exact ih (by omega) (by omega)

/-- A text in sixteen boxes is just within the depth that is written out, so a template and `join` show it alike. -/
theorem sixteen_boxes_text :
    let s : State := { heap := boxes 16 }
    let ctx : Context := .withBoxes 16
    s.interrupted = false ∧ lookup ctx "a" s = .ok (.array 15) s ∧
      lookup ctx "String" s = .ok (.native .string 0) s ∧
      (s.heap.listText 15).utf8ByteSize ≤ maxStringLength ∧ s.heap.NestedWithin Heap.maxTextDepth (.array 15) ∧
      (interpreter ctx 3).expr (.template [.hole (.name "a")]) s = .ok (.string "x") s ∧
      (interpreter ctx 3).expr (.call (.member (.name "a") "join" false) [] false) s = .ok (.string "x") s := by
  intro s ctx
  have named : lookup ctx "a" s = .ok (.array 15) s := rfl
  have builtin : lookup ctx "String" s = .ok (.native .string 0) s := rfl
  have inside : 15 < 16 := by decide
  have text : s.heap.listText 15 = "x" := (Heap.listText_eq_textTo ..).trans (textTo_boxes inside)
  have fits : (s.heap.listText 15).utf8ByteSize ≤ maxStringLength := by
    rw [text]
    decide
  have nested : s.heap.NestedWithin Heap.maxTextDepth (.array 15) := nestedWithin_boxes inside (by decide)
  obtain ⟨converts, joins, same⟩ := array_text rfl named builtin fits 0
  rw [same nested, text] at converts
  rw [text] at joins
  exact ⟨rfl, named, builtin, fits, nested, converts _ .template, joins _ .join⟩

/-- With one more box around the text, the conversions do not reach it, and the methods do. -/
theorem seventeen_boxes_texts :
    let s : State := { heap := boxes 17 }
    let ctx : Context := .withBoxes 17
    s.heap.NestedWithin 17 (.array 16) ∧ (s.heap.listText 16).utf8ByteSize ≤ maxStringLength ∧
      (interpreter ctx 3).expr (.call (.name "String") [.name "a"] false) s = .ok (.string "") s ∧
      (interpreter ctx 3).expr (.template [.hole (.name "a")]) s = .ok (.string "") s ∧
      (interpreter ctx 3).expr (.binary .add (.literal (.string "")) (.name "a")) s = .ok (.string "") s ∧
      (interpreter ctx 3).expr (.call (.member (.name "a") "toString" false) [] false) s = .ok (.string "x") s ∧
      (interpreter ctx 3).expr (.call (.member (.name "a") "join" false) [] false) s = .ok (.string "x") s := by
  intro s ctx
  have named : lookup ctx "a" s = .ok (.array 16) s := rfl
  have builtin : lookup ctx "String" s = .ok (.native .string 0) s := rfl
  have inside : 16 < 17 := by decide
  have cut : s.heap.text (.array 16) = "" := textTo_boxes inside
  have whole : s.heap.listText 16 = "x" := (Heap.listText_eq_textTo ..).trans (textTo_boxes inside)
  have fits : (s.heap.listText 16).utf8ByteSize ≤ maxStringLength := by
    rw [whole]
    decide
  have converted {e : Expr} (converts : e.Converts "a") : (interpreter ctx 3).expr e s = .ok (.string "") s := by
    have run := expr_of_converts rfl named builtin ((s.heap.size_text_le 16).trans fits) converts 0
    rwa [cut] at run
  have joined {e : Expr} (joins : e.Joins "a") : (interpreter ctx 3).expr e s = .ok (.string "x") s := by
    have run := expr_of_joins rfl named fits joins 0
    rwa [whole] at run
  refine ⟨nestedWithin_boxes inside (by decide), fits, ?_⟩
  exact ⟨converted .call, converted .template, converted .sum, joined .toString, joined .join⟩

end BindScript
