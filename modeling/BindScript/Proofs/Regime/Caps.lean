import BindScript.Proofs.Regime.Run

/-!
# How long strings and arrays get

Code that is guarded (`NodeRule.guarded`) keeps its strings and arrays as short as they have to be: where all that
a run can get at is within the limits when it starts, all is when it ends, with a value or without
(`Run.stays_capped`). Code that is not guarded may get beyond them. A list is only measured where something is
spread in it, so what stands after a spread is not counted (`evaluate_spreadThenOne`).
-/

namespace BindScript

/-- What a value is itself is within the limits: a string, the items of an array, and the code of a function. -/
def Heap.Capped (h : Heap) : Value → Prop
  | .string text => text.utf8ByteSize ≤ maxStringLength
  | .array a => (h.items a).size ≤ maxArrayLength
  | .native f _ => f.IsSized
  | .closure c => (h.closureAt c).definition.Obeys .guarded
  | _ => True

/-- The value that a step has when it gives none: what is returned, or what is thrown. -/
def Exit.value? : Exit → Option Value
  | .jump (.ret v) => some v
  | .error (.thrown v) => some v
  | _ => none

variable {ctx : Context} {run : Run} {s t : State} {u v : Value}

theorem Heap.Capped.sized {h : Heap} (capped : h.Capped v) : v.Sized := by
  cases v with
  | string | native => exact capped
  | _ => trivial

namespace Regime

variable {R : Regime} {h : Heap}

theorem Fits.referents (fits : R.Fits h) (holds : R.Holds v) (mem : u ∈ h.referents v) : R.Holds u := by
  cases v with
  | closure c =>
    obtain ⟨b, captured, rfl⟩ := List.mem_map.1 mem
    exact fits.cell (fits.encloses.closures c holds.1 b captured)
  | _ => exact fits.children holds u mem

/-- Nothing leads out of a regime. -/
theorem Fits.leadsTo (fits : R.Fits h) (holds : R.Holds v) (leads : h.LeadsTo v u) : R.Holds u :=
  leads.stays (fun _ holds _ mem => fits.referents holds mem) holds

theorem Fits.capped (fits : R.Fits h) (sized : R.sized) (code : R.code = .guarded) (holds : R.Holds v) :
    h.Capped v := by
  cases v with
  | string text => exact holds.2 sized
  | native f => exact holds.2 sized
  | array a => exact fits.lengths a holds.1 sized
  | closure c =>
    show (h.closureAt c).definition.Obeys .guarded
    rw [← code]
    exact fits.code c holds.1
  | _ => trivial

theorem Leaves.holds {e : Exit} (leaves : R.Leaves e) (value : e.value? = some v) : R.Holds v := by
  cases e with
  | jump j =>
    cases j with
    | ret v => exact Option.some.inj value ▸ leaves
    | _ => cases value
  | error e =>
    cases e with
    | thrown v => exact Option.some.inj value ▸ leaves
    | _ => cases value
  | exhausted | clash => cases value

/-- What a run has at hand in the end is of its regime. -/
theorem Left.holds (left : R.Left run t) (has : run.Has R.code R.left t v) (given : ∀ v ∈ run.given, R.Holds v) :
    R.Holds v := by
  cases has with
  | locals => exact R.locals
  | app => exact R.app
  | global named found => exact R.globals _ v named found
  | given mem => exact given v mem
  | bound mem => exact left.heap.cell (left.scopes _ mem)

/-- What there is in the end is within the limits: what a value leads to that the run has ended with, and what the
run can get at. -/
theorem Left.capped (left : R.Left run t) (sized : R.sized) (code : R.code = .guarded)
    (given : ∀ v ∈ run.given, R.Holds v)
    (reached : (∃ v, R.Holds v ∧ t.heap.LeadsTo v u) ∨ run.Reaches R.code R.left t u) : t.heap.Capped u := by
  rcases reached with ⟨v, holds, leads⟩ | ⟨v, has, leads⟩
  · exact left.heap.capped sized code (left.heap.leadsTo holds leads)
  · exact left.heap.capped sized code (left.heap.leadsTo (left.holds has given) leads)

end Regime

/-- The regime of a run that keeps to the limits. -/
def Run.Ready.limits (ready : run.Ready .guarded True ctx s) : Regime :=
  ready.regime (.inl rfl) False.elim fun _ => ⟨fun _ => id, fun _ => id, fun _ => id⟩

/-- Whatever a guarded run can get at is within the limits when it ends, however it ends, if it is when it starts:
what its context and its scopes lead to, what its result leads to, and what a thrown value leads to. -/
theorem Run.stays_capped (guarded : run.Obeys .guarded)
    (capped : ∀ u, run.Reaches .guarded ctx s u → s.heap.Capped u)
    (arguments : ∀ callee args, run = .call callee args → args.length ≤ maxArrayLength) :
    match run.start ctx s with
    | .ok v t => ∀ u, t.heap.LeadsTo v u ∨ run.Reaches .guarded ctx t u → t.heap.Capped u
    | .error e t => ∀ u, (∃ v, e.value? = some v ∧ t.heap.LeadsTo v u) ∨ run.Reaches .guarded ctx t u →
      t.heap.Capped u := by
  have ready : run.Ready .guarded True ctx s :=
    ⟨guarded, fun c => capped (.closure c), fun _ v reaches => (capped v reaches).sized,
      fun _ a => capped (.array a), fun _ => arguments⟩
  have ended : ready.limits.Ended run (run.start ctx s) (run.start ctx s) := ready.ended _ _ _
  have given : ∀ v ∈ run.given, ready.limits.Holds v := fun v mem => ready.holds _ _ _ (Has.given mem).reaches
  rcases ended with ⟨v, t, ends, -, left, holds⟩ | ⟨e, t, ends, left, leaves⟩
  · rw [ends]
    exact fun u reached => left.capped trivial rfl given (reached.imp_left fun leads => ⟨v, holds, leads⟩)
  · rw [ends]
    refine fun u reached => left.capped trivial rfl given (reached.imp_left ?_)
    exact fun ⟨v, value, leads⟩ => ⟨v, leaves.holds value, leads⟩

/-! ## Lists with spreads -/

/-- A local context with an array, and an array made after it. -/
def withLists (items : Array Value) (more : List (Array Value)) (env : Environment) : State where
  env := env
  heap :=
    { arrays := ((items :: more).map fun items => { items }).toArray
      objects := #[{ properties := [("a", .array 0)] }] }

/-- The context of `withLists`. -/
def listContext : Context where
  locals := .object 0
  app := .undefined

/-- An expression gets at the array, and at nothing else if there is nothing in it. -/
theorem capped_withLists {items : Array Value} {e : Expr} (fits : items.size ≤ maxArrayLength)
    (blank : ∀ v ∈ items.toList, v = .undefined)
    (reaches : (Run.evaluation e).Reaches .guarded listContext (withLists items [] {}) u) :
    (withLists items [] {}).heap.Capped u := by
  have reached : u = .object 0 ∨ u = .array 0 ∨ u = .undefined := by
    obtain ⟨v, has, leads⟩ := reaches
    refine leads.stays (P := fun u => u = .object 0 ∨ u = .array 0 ∨ u = .undefined) (fun v held u mem => ?_) ?start
    case start =>
      cases has with
      | locals => exact .inl rfl
      | app => exact .inr (.inr rfl)
      | global _ found => cases found
      | given mem | bound mem => cases mem
    rcases held with rfl | rfl | rfl
    · exact .inr (.inl (List.mem_singleton.1 mem))
    · exact .inr (.inr (blank u mem))
    · cases mem
  rcases reached with rfl | rfl | rfl
  · trivial
  · exact fits
  · trivial

/-- `[1, ...a]`. -/
def oneThenSpread : Expr :=
  .array [.literal (.number 1.0), .spread (.name "a")]

/-- The spread is measured with what stands before it. -/
theorem oneThenSpread_capped : ∃ t,
    (Run.evaluation oneThenSpread).start listContext (withLists #[.undefined] [] {}) = .ok (.array 1) t ∧
      ∀ u, t.heap.LeadsTo (.array 1) u → t.heap.Capped u := by
  let run : Run := .evaluation oneThenSpread
  have ends : run.start listContext (withLists #[.undefined] [] {}) =
      .ok (.array 1) (withLists #[.undefined] [#[.number 1.0, .undefined]] {}) := rfl
  have guarded : run.Obeys .guarded := by
    refine ⟨⟨[.literal (.number 1.0)], [.name "a"], rfl, ?_, by decide⟩, trivial, ⟨trivial, ?_⟩, trivial⟩
    · intro e mem
      cases List.mem_singleton.1 mem
      nofun
    · show "a" ∉ unguardedGlobals
      decide
  have capped := Run.stays_capped guarded
    (fun u => capped_withLists (by decide) (fun v mem => List.mem_singleton.1 mem)) nofun
  rw [ends] at capped
  exact ⟨_, ends, fun u leads => capped u (.inl leads)⟩

/-- `[...a, 1]`. -/
def spreadThenOne : Expr :=
  .array [.spread (.name "a"), .literal (.number 1.0)]

/-- What stands after a spread is not measured. -/
theorem evaluate_spreadThenOne {items : Array Value} (fits : items.size ≤ maxArrayLength) :
    listContext.evaluate spreadThenOne (withLists items [] {}) =
      .ok (.array 1) (withLists items [items.push (.number 1.0)] {}) := by
  let env : Environment := .empty listContext.options.maxCallDepth
  let s : State := withLists items [] env
  have passed : EvalM.ofExcept (checkArrayLength ((#[] : Array Value).size + items.size)) s = .ok () s := by
    rw [checkArrayLength, if_neg (by simpa using fits)]
    rfl
  -- the list is measured where it is spread, and the last item is put behind it unmeasured
  have listed : ∀ levels, EvalM.evalList (interpreter listContext (levels + 1))
      [.spread (.name "a"), .literal (.number 1.0)] s = .ok ((#[] ++ items).push (.number 1.0)) s := by
    intro levels
    have name : (interpreter listContext (levels + 1)).expr (.name "a") s = .ok (.array 0) s := rfl
    have iterated : EvalM.iterate (.array 0) s = .ok items s := rfl
    have first : (do
        let values ← EvalM.iterate (← (interpreter listContext (levels + 1)).expr (.name "a"))
        EvalM.ofExcept (checkArrayLength ((#[] : Array Value).size + values.size))
        return #[] ++ values : EvalM (Array Value)) s = .ok (#[] ++ items) s :=
      (EvalM.bind_of_ok name).trans ((EvalM.bind_of_ok iterated).trans (EvalM.bind_of_ok passed))
    exact EvalM.bind_of_ok first
  have run : ∀ levels, (interpreter listContext (levels + 2)).expr spreadThenOne s =
      .ok (.array 1) (withLists items [items.push (.number 1.0)] env) := by
    intro levels
    have checked : EvalM.checkInterrupt s = .ok () s := rfl
    refine (EvalM.bind_of_ok checked).trans ((EvalM.bind_of_ok (listed levels)).trans ?_)
    rw [Array.empty_append]
    rfl
  obtain ⟨levels, granted⟩ : ∃ levels, grantedLevels = levels + 2 := ⟨grantedLevels - 2, by decide⟩
  have evaluated : listContext.evalExpr spreadThenOne s =
      .ok (.array 1) (withLists items [items.push (.number 1.0)] env) := by
    rw [Context.evalExpr, Context.interpreter, granted]
    exact run levels
  exact Context.evaluate_of_ok (s := withLists items [] {}) evaluated

/-- Next to an array that is as long as arrays may be, an expression gives one that is longer. -/
theorem spreadThenOne_exceeds :
    let s := withLists (Array.replicate maxArrayLength .undefined) [] {}
    (∀ u, (Run.evaluation spreadThenOne).Reaches .guarded listContext s u → s.heap.Capped u) ∧
      ∃ t, (Run.evaluation spreadThenOne).start listContext s = .ok (.array 1) t ∧
        maxArrayLength < (t.heap.items 1).size := by
  have size : (Array.replicate maxArrayLength Value.undefined).size = maxArrayLength := Array.size_replicate
  refine ⟨fun u => capped_withLists size.le fun v mem => ?_, _, evaluate_spreadThenOne size.le, ?_⟩
  · rw [Array.toList_replicate] at mem
    exact List.eq_of_mem_replicate mem
  · show maxArrayLength < ((Array.replicate maxArrayLength Value.undefined).push (.number 1.0)).size
    rw [Array.size_push, size]
    exact Nat.lt_succ_self _

end BindScript
