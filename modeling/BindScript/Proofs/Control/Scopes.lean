import BindScript.Proofs.Correspondence.Interpreter
import BindScript.Proofs.Correspondence.Zone

/-!
# Scopes survive every outcome

However an expression ends, it leaves the scopes as it found them; and however a statement ends, all it has
done to the scopes around it is to bind names in the innermost one (`scopes_survive`). Blocks, loops,
turns, handlers and calls enter scopes of their own, and leave them on every way out.

Nothing is asked of the heap here. A run is compared with itself under the pairing in which every address
stands for itself (`Correspondence.mirror`), so what is left of the correspondence is its manner: what a step
does to the scopes, and whether it may jump.
-/

namespace BindScript

/-- All addresses. -/
def Zone.all : Zone where
  arrays _ := True
  objects _ := True
  closures _ := True
  cells _ := True

namespace Zone

theorem holds_all (v : Value) : all.Holds v := by
  cases v <;> trivial

theorem alike_all (v : Value) : Value.Alike all.pairing v v :=
  (holds_all v).alike

theorem bindingsAlike_all (bindings : List Binding) :
    List.Forall₂ (Binding.Alike all.pairing) bindings bindings :=
  bindingsAlike_iff.2 ⟨rfl, fun _ _ => trivial⟩

theorem closureAlike_all (c : Closure) : Closure.Alike all.pairing .all c c :=
  ⟨rfl, rfl, bindingsAlike_all _, [], nofun, Function.within_all _ _⟩

theorem heapAlike_all (h : Heap) : Heap.Alike all.pairing .all h h :=
  heapAlike (fun _ _ _ u _ => holds_all u) (fun _ _ => closureAlike_all _) fun _ _ => holds_all _

end Zone

namespace Correspondence

/-- The order of a single world. -/
@[reducible]
def standstill : Preorder Unit where
  le _ _ := True
  lt _ _ := False
  le_refl _ := trivial
  le_trans _ _ _ _ _ := trivial
  lt_iff_le_not_ge _ _ := ⟨False.elim, fun strict => strict.2 trivial⟩

theorem mirror_options (ctx : Context) : ctx.options = ctx.options :=
  rfl

/-- A run next to itself, whatever its heap. -/
def mirror (ctx : Context) : Correspondence where
  World := Unit
  order := standstill
  pairing _ := Zone.all.pairing
  pairing_le _ := (Zone.Le.refl _).pairing
  access := .all
  left := ctx
  right := ctx
  options_eq := mirror_options ctx
  heaps _ h₁ h₂ := h₁ = h₂
  -- With all addresses in the zone, values correspond to themselves alone.
  alike := by
    rintro - h₁ h₂ rfl
    exact Zone.heapAlike_all h₁
  lookup := by
    rintro - h₁ h₂ n rfl -
    cases ctx.lookup h₁ n with
    | none => exact .none
    | some v => exact .some (Zone.alike_all v)
  locals _ _ := Zone.alike_all _
  newArray := by
    rintro - h₁ h₂ items₁ items₂ rfl items
    obtain rfl := Array.toList_inj.1 (Zone.allAlike_iff.1 items).1
    exact ⟨(), le_refl _, rfl, rfl, trivial⟩
  newObject := by
    rintro - h₁ h₂ m₁ m₂ rfl entries
    obtain rfl := (Zone.entriesAlike_iff.1 entries).1
    exact ⟨(), le_refl _, rfl, rfl, trivial⟩
  newClosure := by
    rintro - h₁ h₂ c₁ c₂ rfl closure
    obtain rfl := Zone.eq_of_closureAlike closure
    exact ⟨(), le_refl _, rfl, rfl, trivial⟩
  newCell := by
    rintro - h₁ h₂ v₁ v₂ rfl value
    obtain rfl := (Zone.alike_iff.1 value).1
    exact ⟨(), le_refl _, rfl, rfl, trivial⟩
  setCell := by
    rintro - h₁ h₂ c₁ c₂ v₁ v₂ rfl ⟨rfl, -⟩ value
    obtain rfl := (Zone.alike_iff.1 value).1
    exact ⟨(), le_refl _, rfl⟩
  modifyItems := by
    rintro - h₁ h₂ a b f g rfl ⟨rfl, -⟩ - items
    have same := Array.toList_inj.1 (Zone.allAlike_iff.1 items).1
    exact ⟨(), le_refl _, Heap.modifyItems_congr same⟩
  modifyProperties := by
    rintro - h₁ h₂ a b f g rfl ⟨rfl, -⟩ - - entries
    have same := (Zone.entriesAlike_iff.1 entries).1
    exact ⟨(), le_refl _, Heap.modifyProperties_congr same⟩
  freeze := by
    rintro - h₁ h₂ v₁ v₂ rfl value
    obtain rfl := (Zone.alike_iff.1 value).1
    exact ⟨(), le_refl _, rfl⟩

variable {ctx : Context} {bound : List String}

/-- Every state is one that a run next to itself may be in. -/
theorem mirror_at {s : State} (names : ∀ n ∈ bound, n ∈ s.env.names) :
    (mirror ctx).At bound () s s :=
  ⟨⟨rfl, ⟨Zone.bindingsAlike_all _, rfl, rfl, rfl⟩, rfl, rfl, rfl⟩, names⟩

theorem mirror_at_nil (s : State) : (mirror ctx).At [] () s s :=
  mirror_at fun _ mem => nomatch mem

theorem mirror_interpreter (ctx : Context) (levels : Nat) :
    Interpreter.Alike (mirror ctx) (interpreter ctx levels) (interpreter ctx levels) :=
  interpreter_alike (mirror ctx) levels

end Correspondence

/-! ## What a step leaves behind -/

namespace EvalM

variable {α : Type} {x : EvalM α} {s : State}

/-- The state that a step leaves behind, whether it gives a value or not. -/
def stateAfter (x : EvalM α) (s : State) : State :=
  match x s with
  | .ok _ t => t
  | .error _ t => t

theorem stateAfter_of_ok {a : α} {t : State} (run : x s = .ok a t) : x.stateAfter s = t := by
  simp only [stateAfter, run]

/-- A step that corresponds with itself keeps the scopes as its manner says. -/
theorem keeps_of_mirror {ctx : Context} {m : Manner} {Q : (Correspondence.mirror ctx).Post α}
    (sim : (Correspondence.mirror ctx).Sim m Q () x x s s) : m.Keeps s.env (x.stateAfter s).env := by
  unfold Correspondence.Sim at sim
  unfold stateAfter
  generalize x s = r at sim
  cases sim with
  | ok _ _ keeps => exact keeps
  | error _ _ keeps => exact keeps

/-- A step that corresponds with itself jumps only if its manner allows it. -/
theorem jumps_of_mirror {ctx : Context} {m : Manner} {Q : (Correspondence.mirror ctx).Post α}
    (sim : (Correspondence.mirror ctx).Sim m Q () x x s s) {j : Jump} {t : State}
    (ends : x s = .error (.jump j) t) : m.Jumps := by
  unfold Correspondence.Sim at sim
  rw [ends] at sim
  cases sim with
  | error _ _ _ _ exit =>
    cases exit with
    | brk jumps | cont jumps | ret jumps => exact jumps

/-- What a step that corresponds with itself gives is related to itself. -/
theorem result_of_mirror {ctx : Context} {m : Manner} {Q : (Correspondence.mirror ctx).Post α}
    (sim : (Correspondence.mirror ctx).Sim m Q () x x s s) {a : α} {t : State}
    (run : x s = .ok a t) : Q () t.env a a := by
  unfold Correspondence.Sim at sim
  rw [run] at sim
  cases sim with
  | ok _ _ _ _ result => exact result

end EvalM

/-! ## Scopes -/

namespace Environment

/-- All that is done to the scopes is that bindings are added to the innermost one, after those that were
there. -/
structure Adds (env env' : Environment) (added : List Binding) : Prop where
  bindings : env'.bindings.toList = env.bindings.toList ++ added
  frames : env'.frames = env.frames
  callDepth : env'.callDepth = env.callDepth
  maxCallDepth : env'.maxCallDepth = env.maxCallDepth
  /-- Where the innermost scope starts among the bindings, it has the added ones at its end. -/
  innermost : env.frameStart ≤ env.bindings.size → env'.currentScope = env.currentScope ++ added

theorem Grows.adds {env env' : Environment} (grows : env.Grows env') :
    ∃ added, env.Adds env' added := by
  obtain ⟨added, bindings⟩ := grows.bindings
  have bindings := bindings.symm
  refine ⟨added, bindings, grows.frames, grows.callDepth, grows.maxCallDepth, fun inside => ?_⟩
  have start : env'.frameStart = env.frameStart := by
    simp only [frameStart, grows.frames]
  simp only [currentScope, start, bindings]
  exact List.drop_append_of_le_length inside

end Environment

open Correspondence in
/-- **Scopes survive every outcome.** An expression leaves the bindings, the scopes and the call depth as they
were, and so does a statement or a list of statements, but for names that it binds in the innermost scope:
whether it gives a value, fails, jumps or is interrupted. -/
theorem scopes_survive (ctx : Context) (s : State) :
    (∀ e : Expr, ((ctx.evalExpr e).stateAfter s).env = s.env) ∧
      (∀ t : Stmt, ∃ added, s.env.Adds ((ctx.evalStmt t).stateAfter s).env added) ∧
      ∀ statements : List Stmt, ∃ added,
        s.env.Adds ((EvalM.evalStatements ctx.interpreter statements).stateAfter s).env added := by
  have st : (mirror ctx).At [] () s s := mirror_at_nil s
  refine ⟨fun e => ?_, fun t => ?_, fun statements => ?_⟩
  · have sim := (mirror ctx).evalExpr (m := .expression) st (e.within_all [])
    exact EvalM.keeps_of_mirror sim
  · have sim := (mirror ctx).evalStmt st (t.within_all [])
    have grows := EvalM.keeps_of_mirror sim
    exact Environment.Grows.adds grows
  · have within := Stmt.allWithin_all statements ([] ++ Stmt.lexicalNames statements)
    have sim := Sim.evalStatements (granted_alike (mirror ctx)) st within
    have grows := EvalM.keeps_of_mirror sim
    exact Environment.Grows.adds grows

end BindScript
