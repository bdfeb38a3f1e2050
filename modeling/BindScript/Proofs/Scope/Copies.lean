import BindScript.Proofs.Regime.Statement
import BindScript.Proofs.Scope.Declared
import BindScript.Proofs.Watch.Statement

/-!
# Copies of loop variables

A turn of a counting loop enters a scope with a copy of each variable of the head (`State.entering`). The copies are
named like the variables, in their order, and have the next cells of the heap, with the values that the variables have
(`State.scope_entering`, `State.heap_entering`). When the body has ended, in whatever way, the scope is left, and the
variables of the head get the values that the copies have then (`EvalM.runTurn_run`).
-/

namespace BindScript

variable {s t u : State} {names more : List String} {name : String} {b : Binding}

namespace Environment

/-- Names that mean bindings whose cells are in the heap, different ones for different names. -/
structure Holds (env : Environment) (h : Heap) (names : List String) : Prop where
  bound : ∀ name ∈ names, ∃ b, env.find? name = some b ∧ b.cell < h.cells.size
  apart : ∀ name ∈ names, ∀ other ∈ names, ∀ b b', env.find? name = some b → env.find? other = some b' →
    b.cell = b'.cell → name = other

theorem Holds.mono {env : Environment} {h h' : Heap} (holds : env.Holds h names)
    (later : h.cells.size ≤ h'.cells.size) : env.Holds h' names where
  bound name mem := by
    obtain ⟨b, found, inside⟩ := holds.bound name mem
    exact ⟨b, found, Nat.lt_of_lt_of_le inside later⟩
  apart := holds.apart

end Environment

namespace State

/-! ## Entering a turn -/

/-- The state in which the body of a turn runs. -/
def entering (s : State) (names : List String) : State :=
  names.foldl copying { s with env := s.env.push }

/-- The kind of the binding that a name means, as a copy of it gets it. -/
def kindOf (s : State) (name : String) : BindingKind :=
  ((s.env.find? name).map (·.kind)).getD .let

/-- The bindings of copies, with cells from the given one on. -/
def copies (s : State) (names : List String) (first : Nat) : List Binding :=
  names.mapIdx fun i name => ⟨name, first + i, s.kindOf name⟩

theorem copying_eq (s : State) (name : String) :
    s.copying name = s.defining name (s.valueOf name) (s.kindOf name) :=
  rfl

/-- A copy has the value of what it is a copy of, and nothing else is changed. -/
theorem valueOf_copying (bound : ∃ b, s.env.find? name = some b ∧ b.cell < s.heap.cells.size) (first : String) :
    (s.copying first).valueOf name = s.valueOf name := by
  obtain ⟨b, found, inside⟩ := bound
  by_cases here : name = first
  · subst here
    have copy : (s.copying name).env.find? name = some ⟨name, s.heap.cells.size, s.kindOf name⟩ :=
      Environment.find?_bind_self _ _ _ _
    rw [valueOf, copy]
    exact Heap.cellAt_newCell_self _ _
  · have still : (s.copying first).env.find? name = some b := (Environment.find?_bind_of_ne here).trans found
    rw [valueOf, valueOf, still, found]
    exact Heap.cellAt_newCell_of_ne (Nat.ne_of_lt inside)

theorem kindOf_copying (first : String) : (s.copying first).kindOf name = s.kindOf name := by
  by_cases here : name = first
  · subst here
    have copy : (s.copying name).env.find? name = some ⟨name, s.heap.cells.size, s.kindOf name⟩ :=
      Environment.find?_bind_self _ _ _ _
    rw [kindOf, copy]
    rfl
  · have still : (s.copying first).env.find? name = s.env.find? name := Environment.find?_bind_of_ne here
    rw [kindOf, kindOf, still]

theorem bound_copying (bound : ∃ b, s.env.find? name = some b ∧ b.cell < s.heap.cells.size) (first : String) :
    ∃ b, (s.copying first).env.find? name = some b ∧ b.cell < (s.copying first).heap.cells.size := by
  obtain ⟨b, found, inside⟩ := bound
  rw [copying_eq, size_defining]
  by_cases here : name = first
  · subst here
    exact ⟨_, Environment.find?_bind_self _ _ _ _, Nat.lt_succ_self _⟩
  · exact ⟨b, (Environment.find?_bind_of_ne here).trans found, Nat.lt_succ_of_lt inside⟩

/-- The copies stand behind the other bindings, in the order of the names. -/
theorem bindings_copying (s : State) (names : List String) :
    (names.foldl copying s).env.bindings.toList =
      s.env.bindings.toList ++ s.copies names s.heap.cells.size := by
  induction names generalizing s with
  | nil => simp [copies]
  | cons first more ih =>
    have size : (s.copying first).heap.cells.size = s.heap.cells.size + 1 := size_defining
    have head : (s.copying first).env.bindings.toList =
        s.env.bindings.toList ++ [⟨first, s.heap.cells.size, s.kindOf first⟩] := by
      rw [copying_eq]
      simp [defining, Environment.bind]
    rw [List.foldl_cons, ih, head, size, List.append_assoc]
    simp [copies, kindOf_copying, Nat.add_assoc, Nat.add_comm 1]

theorem frames_copying (s : State) (names : List String) :
    (names.foldl copying s).env.frames = s.env.frames := by
  induction names generalizing s with
  | nil => rfl
  | cons first more ih => exact ih (s.copying first)

/-- The cells of the copies come next, with the values of what they are copies of. -/
theorem heap_copying (bound : ∀ name ∈ names, ∃ b, s.env.find? name = some b ∧ b.cell < s.heap.cells.size) :
    (names.foldl copying s).heap =
      { s.heap with cells := s.heap.cells ++ (names.map s.valueOf).toArray } := by
  induction names generalizing s with
  | nil => simp
  | cons first more ih =>
    obtain ⟨head, tail⟩ := List.forall_mem_cons.1 bound
    rw [List.foldl_cons, ih fun name mem => bound_copying (tail name mem) first]
    have values : more.map (s.copying first).valueOf = more.map s.valueOf :=
      List.map_congr_left fun name mem => valueOf_copying (tail name mem) first
    rw [values, copying_eq]
    simp [defining, Heap.newCell, ← Array.append_singleton]

theorem bindings_entering (s : State) (names : List String) :
    (s.entering names).env.bindings.toList = s.env.bindings.toList ++ s.copies names s.heap.cells.size :=
  bindings_copying _ names

theorem frames_entering (s : State) (names : List String) :
    (s.entering names).env.frames = s.env.bindings.size :: s.env.frames :=
  frames_copying _ names

/-- The scope of a turn has the copies, and nothing else. -/
theorem scope_entering (s : State) (names : List String) :
    (s.entering names).env.currentScope = s.copies names s.heap.cells.size := by
  rw [Environment.currentScope, Environment.frameStart, frames_entering, bindings_entering, List.headD_cons,
    ← Array.length_toList, List.drop_left]

theorem inside_entering (s : State) (names : List String) :
    (s.entering names).env.frameStart ≤ (s.entering names).env.bindings.size := by
  rw [Environment.frameStart, frames_entering, List.headD_cons, ← Array.length_toList, ← Array.length_toList,
    bindings_entering, List.length_append]
  exact Nat.le_add_right _ _

theorem names_entering (s : State) (names : List String) : (s.entering names).env.namesInScope = names := by
  rw [Environment.namesInScope, scope_entering, copies]
  exact List.ext_getElem (by simp) (by simp)

/-- **The cells of the copies are new, and have the values of the variables.** -/
theorem heap_entering (holds : s.env.Holds s.heap names) :
    (s.entering names).heap = { s.heap with cells := s.heap.cells ++ (names.map s.valueOf).toArray } :=
  heap_copying (s := { s with env := s.env.push }) holds.bound

end State

/-! ## Leaving a turn -/

/-- All that is done to the heap is that the cells of names get values. -/
structure Heap.Given (env : Environment) (names : List String) (value : String → Value) (h h' : Heap) : Prop where
  others : h' = { h with cells := h'.cells }
  size : h'.cells.size = h.cells.size
  given : ∀ name ∈ names, ∀ b, env.find? name = some b → h'.cellAt b.cell = value name
  kept : ∀ c, (∀ name ∈ names, ∀ b, env.find? name = some b → b.cell ≠ c) → h'.cellAt c = h.cellAt c

namespace EvalM

variable {sub : Interpreter}

/-- Names that have cells of their own are given values, one after another. -/
theorem startNames_run (holds : s.env.Holds s.heap names) (value : String → Value) :
    ∃ h, startNames (names.map fun name => (name, value name)) s = .ok () { s with heap := h } ∧
      Heap.Given s.env names value s.heap h := by
  induction names generalizing s with
  | nil => exact ⟨s.heap, rfl, rfl, rfl, nofun, fun _ _ => rfl⟩
  | cons first more ih =>
    obtain ⟨b, found, inside⟩ := holds.bound first List.mem_cons_self
    let s' : State := { s with heap := s.heap.setCell b.cell (value first) }
    have size : s'.heap.cells.size = s.heap.cells.size := Array.size_setIfInBounds
    have later : s'.env.Holds s'.heap more := by
      refine ⟨fun name mem => ?_, fun name mem other mem' => ?_⟩
      · rw [size]
        exact holds.bound name (List.mem_cons_of_mem _ mem)
      · exact holds.apart name (List.mem_cons_of_mem _ mem) other (List.mem_cons_of_mem _ mem')
    obtain ⟨h, run, rest⟩ := ih later
    refine ⟨h, (bind_of_ok (startName_of_find? _ found)).trans run, ?_, rest.size.trans size, ?_, fun c other => ?_⟩
    · rw [rest.others]
      rfl
    · refine List.forall_mem_cons.2 ⟨fun b' found' => ?_, rest.given⟩
      cases found.symm.trans found'
      by_cases again : first ∈ more
      · exact rest.given first again b found
      · rw [rest.kept b.cell fun name mem b' found' same => ?_]
        · exact Heap.cellAt_setCell_self inside _
        · have named := holds.apart name (List.mem_cons_of_mem _ mem) first List.mem_cons_self b' b found' found same
          exact again (named ▸ mem)
    · obtain ⟨here, others⟩ := List.forall_mem_cons.1 other
      rw [rest.kept c others]
      exact Heap.cellAt_setCell_of_ne (here b found).symm _

theorem attempt_run {α : Type} (x : EvalM α) (s : State) : attempt x s = .ok (ending x s) (x.stateAfter s) := by
  simp only [attempt, ending, stateAfter]
  cases x s <;> rfl

/-- What a step ends with and leaves behind is told by how it runs. -/
theorem ending_congr {α : Type} {x y : EvalM α} (run : x s = y t) : ending x s = ending y t := by
  simp only [ending, run]

theorem stateAfter_congr {α : Type} {x y : EvalM α} (run : x s = y t) : x.stateAfter s = y.stateAfter t := by
  simp only [stateAfter, run]

theorem stateAfter_resume {α : Type} (result : Except Exit α) (s : State) : (resume result).stateAfter s = s := by
  cases result <;> rfl

theorem stateAfter_runBody (sub : Interpreter) (body : Stmt) (s : State) :
    (runBody sub body).stateAfter s = (sub.stmt body).stateAfter s := by
  unfold runBody
  rw [stateAfter, bind_of_ok (attempt_run _ s)]
  generalize ending (sub.stmt body) s = result
  cases result with
  | ok v => rfl
  | error e =>
    cases e with
    | jump j => cases j <;> rfl
    | _ => rfl

theorem spares_entering (s : State) (names : List String) :
    State.Spares noCells { s with env := s.env.push } (s.entering names) := by
  have copies : (names.forM copyName).Spares noCells := .forM fun name _ => by
    have composed : Composed { locals := .undefined, app := .undefined } [] fun _ => copyName name := .copyName name
    have none : (interpreter { locals := .undefined, app := .undefined } 0).Spares noCells := interpreter_spares _ 0
    exact composed.spares none
  have later := copies { s with env := s.env.push } (State.apart_noCells _)
  rwa [stateAfter_of_ok (State.copyNames_eq _ names)] at later

/-- **A turn ends as its body does**, in the scopes that it was entered from, where its variables have got the values
that the names have at the end of the body. -/
theorem runTurn_run (self : sub.Spares noCells) (holds : s.env.Holds s.heap names) (body : Stmt) :
    ∃ h, runTurn sub names body s = resume (ending (runBody sub body) (s.entering names))
        { (sub.stmt body).stateAfter (s.entering names) with env := s.env, heap := h } ∧
      Heap.Given s.env names ((sub.stmt body).stateAfter (s.entering names)).valueOf
        ((sub.stmt body).stateAfter (s.entering names)).heap h := by
  let inside := s.entering names
  let w := (sub.stmt body).stateAfter inside
  have later : State.Spares noCells { s with env := s.env.push } w :=
    (spares_entering s names).trans (self (.stmt body) inside (State.apart_noCells _))
  -- the scope of the copies is the one that is left
  have left : w.env.pop = s.env := later.pop
  have bound : s.env.Holds w.heap names := holds.mono later.cells
  obtain ⟨h, started, given⟩ := startNames_run (s := { w with env := s.env }) bound w.valueOf
  refine ⟨h, ?_, given⟩
  have entered : names.forM copyName { s with env := s.env.push } = .ok () inside := State.copyNames_eq _ names
  have ran : attempt (runBody sub body) inside = .ok (ending (runBody sub body) inside) w := by
    rw [attempt_run, stateAfter_runBody]
  have read : names.mapM valueOf w = .ok (names.map w.valueOf) w := State.valuesOf_eq w names
  rw [List.map_prod_left_eq_zip] at started
  have popped : modifyEnv Environment.pop w = .ok () { w with env := s.env } := by rw [← left]; rfl
  have pushed : modifyEnv Environment.push s = .ok () { s with env := s.env.push } := rfl
  rw [runTurn_eq]
  refine (bind_of_ok pushed).trans <| (bind_of_ok entered).trans <| (bind_of_ok ran).trans ?_
  exact (bind_of_ok read).trans <| (bind_of_ok popped).trans <| bind_of_ok started

end EvalM

end BindScript
