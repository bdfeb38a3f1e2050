import BindScript.Proofs.Scope.Copies
import BindScript.Proofs.Watch.Constants

/-!
# Each turn of a counting loop has its own variables

The head of a loop declares its variables in a scope of the loop, in new cells (`EvalM.holds_of_head`). Condition and
update work on them. Each turn has a scope with copies (`EvalM.OwnTurn`), whose cells come after all that there are when
the turn begins; so no two turns share a cell (`EvalM.next_of_turn`). However the body ends, its copies are written
back.

A closure that is made in the body has the cells of the copies. The loop does not write them when the turn is over: what
is left of it (`EvalM.loopRest`) leaves them alone in any run in which calls of closures that have a copy give it back
as it was (`interpreterSparing`). If this makes no difference to the run, then the copy is not written through those
closures, and keeps its value. A run may be given up anywhere, so this is what any later step finds.
-/

namespace BindScript

variable {ctx : Context} {sub : Interpreter} {s t u v head : State} {names : List String} {test update : Option Expr}
  {body : Stmt} {cell levels : Nat} {stops : Point → Prop}

/-! ## The head -/

namespace EvalM

/-- The variables of the head are in the scope of the loop, each with a new cell. -/
theorem holds_of_head (keeps : sub.Scoped) (self : sub.Spares noCells) {kind : DeclKind} (lexical : kind ≠ .var)
    {declarators : List Declarator}
    (started : evalForInit ctx sub (.declare kind declarators) { s with env := s.env.push } = .ok names head) :
    head.env.Holds head.heap names := by
  obtain ⟨done, h, declared, given⟩ := exists_of_bind_ok started
  have same : Declarator.boundNames declarators = names ∧ h = head := by
    rw [if_neg (by simpa using lexical)] at given
    cases given
    exact ⟨rfl, rfl⟩
  obtain ⟨rfl, rfl⟩ := same
  have inside : s.env.push.frameStart ≤ s.env.push.bindings.size := Nat.le_refl _
  have declares := (evalDeclaration_declares keeps kind declarators).given
    (s := { s with env := s.env.push }) inside declared
  have there : ∀ name ∈ Declarator.boundNames declarators, name ∈ h.env.namesInScope := by
    intro name mem
    have introduced : kind.mode.introduces (Declarator.boundNames declarators) = Declarator.boundNames declarators := by
      cases kind with
      | var => exact absurd rfl lexical
      | _ => rfl
    exact declares.mem.2 (.inr (introduced.symm ▸ mem))
  have later : State.Spares noCells { s with env := s.env.push } h := by
    have composed : Composed ctx [] fun sub => evalDeclaration ctx sub kind declarators := .evalDeclaration _ _
    have spared := composed.spares self { s with env := s.env.push } (State.apart_noCells _)
    rwa [stateAfter_of_ok declared] at spared
  -- the head is run in a scope of its own, so what is in the innermost scope has been added by it
  obtain ⟨added, adds, fresh⟩ := later.env
  have scope : h.env.currentScope = added := by
    rw [adds.innermost inside]
    simp [Environment.currentScope, Environment.frameStart, Environment.push]
  have bound : ∀ name ∈ Declarator.boundNames declarators, ∃ b, h.env.find? name = some b ∧ b ∈ added := by
    intro name mem
    have contained := Environment.mem_namesInScope.1 (there name mem)
    obtain ⟨b, found⟩ := Environment.find?_isSome_of_containsInScope contained
    exact ⟨b, found, scope ▸ Environment.mem_currentScope_of_find? found contained⟩
  refine ⟨fun name mem => ?_, fun name mem other mem' b b' found found' same => ?_⟩
  · obtain ⟨b, found, mem⟩ := bound name mem
    exact ⟨b, found, (fresh.new b mem).2⟩
  · obtain ⟨b₁, found₁, inside₁⟩ := bound name mem
    obtain ⟨b₂, found₂, inside₂⟩ := bound other mem'
    cases found.symm.trans found₁
    cases found'.symm.trans found₂
    have equal := List.inj_on_of_nodup_map fresh.distinct inside₁ inside₂ same
    rw [← Environment.name_of_find? found, ← Environment.name_of_find? found', equal]

/-- The scopes after the head have their cells in the heap if those around the loop have. -/
theorem allocated_of_head (self : sub.Spares noCells) (allocated : s.env.Allocated s.heap) {init : ForInit}
    (started : evalForInit ctx sub init { s with env := s.env.push } = .ok names head) :
    ∀ b ∈ head.env.bindings.toList, b.cell < head.heap.cells.size := by
  have composed : Composed ctx [] fun sub => evalForInit ctx sub init := .evalForInit init
  have later := composed.spares self { s with env := s.env.push } (State.apart_noCells _)
  rw [stateAfter_of_ok started] at later
  obtain ⟨added, adds, fresh⟩ := later.env
  rw [adds.bindings]
  refine List.forall_mem_append.2 ⟨fun b mem => ?_, fun b mem => (fresh.new b mem).2⟩
  exact Nat.lt_of_lt_of_le (allocated b (Array.mem_toList_iff.1 mem)) later.cells

/-! ## Turns -/

/-- From the state that one turn starts in, the loop comes to a state that a turn starts in. -/
inductive TurnStarts (turn : EvalM Bool) : State → State → Prop
  | here (t : State) : TurnStarts turn t t
  | next {t u v : State} (again : turn t = .ok true u) (later : TurnStarts turn u v) : TurnStarts turn t v

/-- What is left of a counting loop after the body of a turn. -/
def loopRest (sub : Interpreter) (names : List String) (test update : Option Expr) (body : Stmt) (turns : Nat) :
    EvalM Unit := do
  update.forM fun e => discard (sub.expr e)
  repeatWhile (forTurn sub names test update body) turns

/-- The value that the copy of a variable has when the body of a turn has ended. -/
def lastValue (sub : Interpreter) (names : List String) (body : Stmt) (s : State) (name : String) : Value :=
  (((s.entering names).env.find? name).map fun b =>
    ((sub.stmt body).stateAfter (s.entering names)).heap.cellAt b.cell).getD .undefined

/-- A turn whose condition has led to `s` has variables of its own. -/
structure OwnTurn (sub : Interpreter) (names : List String) (body : Stmt) (head s : State) : Prop where
  /-- The condition has worked on the variables of the head. -/
  scopes : s.env = head.env
  /-- The scope of the turn has copies of the variables of the head, and nothing else. -/
  scope : (s.entering names).env.currentScope = s.copies names s.heap.cells.size
  /-- Their cells are new, and have the values that the variables have at that moment. -/
  heap : (s.entering names).heap = { s.heap with cells := s.heap.cells ++ (names.map s.valueOf).toArray }
  /-- The cells of the variables themselves were there before. -/
  older : ∀ name ∈ names, ∃ b, head.env.find? name = some b ∧ b.cell < s.heap.cells.size
  /-- The turn ends as the body does. -/
  ending : ending (runTurn sub names body) s = ending (runBody sub body) (s.entering names)
  /-- However it ends, it leaves the scopes as they are after the head, where the variables have got the values that
  the copies have at the end of the body. -/
  after : ∃ h, (runTurn sub names body).stateAfter s =
      { (sub.stmt body).stateAfter (s.entering names) with env := head.env, heap := h } ∧
    Heap.Given head.env names (lastValue sub names body s) ((sub.stmt body).stateAfter (s.entering names)).heap h

theorem valueOf_eq_lastValue (keeps : sub.Scoped) {name : String} (mem : name ∈ names) :
    ((sub.stmt body).stateAfter (s.entering names)).valueOf name = lastValue sub names body s name := by
  obtain ⟨more, declares⟩ := keeps.stmt body (s.entering names) (s.inside_entering names)
  have same := declares.find? (s.inside_entering names) (by rw [State.names_entering]; exact mem)
  rw [State.valueOf, same]
  rfl

theorem ownTurn (keeps : sub.Scoped) (self : sub.Spares noCells) (scopes : s.env = head.env)
    (holds : s.env.Holds s.heap names) (body : Stmt) : OwnTurn sub names body head s := by
  obtain ⟨h, run, given⟩ := runTurn_run self holds body
  refine ⟨scopes, s.scope_entering names, s.heap_entering holds, scopes ▸ holds.bound, ?_, h, ?_, ?_⟩
  · exact (ending_congr run).trans (ending_resume _ _)
  · exact (stateAfter_congr run).trans ((stateAfter_resume _ _).trans (by rw [scopes]))
  · rw [← scopes]
    exact ⟨given.others, given.size, fun name mem b found =>
      (given.given name mem b found).trans (valueOf_eq_lastValue keeps mem), given.kept⟩

/-! ## One turn after another -/

/-- A turn after which the loop goes on has had its condition, its body and its update. -/
theorem exists_of_forTurn (declares : names ≠ []) (again : forTurn sub names test update body t = .ok true v) :
    ∃ s u, testHolds sub test t = .ok true s ∧ runTurn sub names body s = .ok true u ∧
      update.forM (fun e => discard (sub.expr e)) u = .ok () v := by
  unfold forTurn at again
  rw [if_neg (by simpa using declares)] at again
  obtain ⟨holds, s, tested, again⟩ := exists_of_bind_ok again
  cases holds with
  | false => cases again
  | true =>
    obtain ⟨goesOn, u, ran, again⟩ := exists_of_bind_ok again
    cases goesOn with
    | false => cases again
    | true =>
      obtain ⟨done, w, updated, ended⟩ := exists_of_bind_ok again
      cases ended
      exact ⟨s, u, tested, ran, updated⟩

theorem forTurn_of_turn (declares : names ≠ []) (tested : testHolds sub test t = .ok true s)
    (ran : runTurn sub names body s = .ok true u) :
    forTurn sub names test update body t = (do update.forM fun e => discard (sub.expr e); return true) u := by
  unfold forTurn
  rw [if_neg (by simpa using declares), bind_of_ok tested]
  exact bind_of_ok ran

/-- After the body of a turn, the rest of the loop is what is left. -/
theorem repeatWhile_of_turn (declares : names ≠ []) (goesOn : t.interrupted = false)
    (tested : testHolds sub test t = .ok true s) (ran : runTurn sub names body s = .ok true u) (turns : Nat) :
    repeatWhile (forTurn sub names test update body) (turns + 1) t =
      loopRest sub names test update body turns u := by
  have checked : checkInterrupt t = .ok () t := by simp [checkInterrupt, goesOn]
  have turn : forTurn sub names test update body t = _ := forTurn_of_turn declares tested ran
  unfold repeatWhile loopRest
  rw [bind_of_ok checked]
  cases updated : update.forM (fun e => discard (sub.expr e)) u with
  | error e v =>
    rw [bind_of_error updated] at turn ⊢
    exact bind_of_error turn
  | ok done v =>
    rw [bind_of_ok updated] at turn ⊢
    exact bind_of_ok turn

theorem testHolds_keepsScopes (keeps : sub.Scoped) (test : Option Expr) : (testHolds sub test).KeepsScopes := by
  cases test with
  | none => exact fun _ => rfl
  | some e => exact (keeps.expr e).bind fun _ _ => rfl

theorem updated_keepsScopes (keeps : sub.Scoped) (update : Option Expr) :
    (update.forM fun e => discard (sub.expr e) : EvalM Unit).KeepsScopes := by
  cases update with
  | none => exact fun _ => rfl
  | some e => exact (keeps.expr e).bind fun _ _ => rfl

/-- What a part of a turn does to the scopes and to the number of cells: no more than it may. -/
theorem grown_of_spares {α : Type} {x : EvalM α} {a : α} (self : x.Spares noCells) (run : x s = .ok a t) :
    s.heap.cells.size ≤ t.heap.cells.size := by
  have later := self s (State.apart_noCells s)
  rw [stateAfter_of_ok run] at later
  exact later.cells

/-- The scopes after a turn are those before it, and the cells of the copies are behind. -/
theorem after_turn (self : sub.Spares noCells) (holds : s.env.Holds s.heap names)
    (ran : runTurn sub names body s = .ok true u) :
    u.env = s.env ∧ s.heap.cells.size + names.length ≤ u.heap.cells.size := by
  obtain ⟨h, run, given⟩ := runTurn_run self holds body
  have here : u = { (sub.stmt body).stateAfter (s.entering names) with env := s.env, heap := h } := by
    rw [← stateAfter_of_ok ran, stateAfter_congr run, stateAfter_resume]
  have entered : (s.entering names).heap.cells.size = s.heap.cells.size + names.length := by
    simp [s.heap_entering holds]
  have later := self (.stmt body) (s.entering names) (State.apart_noCells _)
  subst here
  refine ⟨rfl, ?_⟩
  rw [← entered]
  exact Nat.le_trans later.cells (Nat.le_of_eq given.size.symm)

/-- A condition leaves the scopes as they are. -/
theorem after_test (keeps : sub.Scoped) (self : sub.Spares noCells) {holds : Bool}
    (tested : testHolds sub test t = .ok holds s) : s.env = t.env ∧ t.heap.cells.size ≤ s.heap.cells.size := by
  have composed : Composed { locals := .undefined, app := .undefined } [] fun sub => testHolds sub test :=
    .testHolds test
  have scopes := testHolds_keepsScopes keeps test t
  rw [stateAfter_of_ok tested] at scopes
  exact ⟨scopes, grown_of_spares (composed.spares self) tested⟩

/-- What a turn leads to: the scopes are those that it has started in, and its copies are behind. -/
theorem next_of_turn (keeps : sub.Scoped) (self : sub.Spares noCells) (declares : names ≠ [])
    (holds : t.env.Holds t.heap names) (tested : testHolds sub test t = .ok true s)
    (again : forTurn sub names test update body t = .ok true v) :
    v.env = t.env ∧ s.heap.cells.size + names.length ≤ v.heap.cells.size := by
  obtain ⟨s', u, tested', ran, updated⟩ := exists_of_forTurn declares again
  cases tested.symm.trans tested'
  have updateComposed : Composed { locals := .undefined, app := .undefined } [] fun sub =>
      update.forM fun e => discard (sub.expr e) := .updated update
  obtain ⟨tests, grown⟩ := after_test keeps self tested
  obtain ⟨scopes, behind⟩ := after_turn self (tests ▸ holds.mono grown) ran
  have updates := updated_keepsScopes keeps update u
  rw [stateAfter_of_ok updated] at updates
  exact ⟨updates.trans (scopes.trans tests),
    Nat.le_trans behind (grown_of_spares (updateComposed.spares self) updated)⟩

/-- The scopes are those after the head in all states that turns start in. -/
theorem TurnStarts.later (keeps : sub.Scoped) (self : sub.Spares noCells) (declares : names ≠ [])
    (starts : TurnStarts (forTurn sub names test update body) t v) (holds : t.env.Holds t.heap names) :
    v.env = t.env ∧ t.heap.cells.size ≤ v.heap.cells.size := by
  induction starts with
  | here t => exact ⟨rfl, Nat.le_refl _⟩
  | next again _ ih =>
    obtain ⟨s, u, tested, -, -⟩ := exists_of_forTurn declares again
    have grown := (after_test keeps self tested).2
    obtain ⟨scopes, behind⟩ := next_of_turn keeps self declares holds tested again
    have more := Nat.le_trans grown (Nat.le_trans (Nat.le_add_right _ _) behind)
    obtain ⟨scopes', size⟩ := ih (scopes ▸ holds.mono more)
    exact ⟨scopes'.trans scopes, Nat.le_trans more size⟩

end EvalM

/-! ## Copies that are not written through closures -/

/-- The part is a call of a closure that has captured the cell. -/
def Part.Reaches (cell : Nat) (s : State) : Part → Prop
  | .call (.closure a) _ => ∃ b ∈ (s.heap.closureAt a).captured.toList, b.cell = cell
  | _ => False

/-- A step after which the cell has the value that it had before. -/
def EvalM.restoring {α : Type} (cell : Nat) (x : EvalM α) : EvalM α := fun s =>
  match x s with
  | .ok a t => .ok a { t with heap := t.heap.setCell cell (s.heap.cellAt cell) }
  | .error e t => .error e { t with heap := t.heap.setCell cell (s.heap.cellAt cell) }

open Classical in
/-- The interpreter that gives up at certain points, in whose runs closures that have captured the cell may read it, but
not change it. -/
noncomputable def interpreterSparing (ctx : Context) (stops : Point → Prop) (cell : Nat) : Nat → Interpreter
  | 0 => interpreter ctx 0
  | levels + 1 => .of levels fun p => EvalM.unlessAt (fun s => stops ⟨levels + 1, p, s⟩) fun s =>
    if p.Reaches cell s then EvalM.restoring cell (p.step ctx (interpreterSparing ctx stops cell levels)) s
    else p.step ctx (interpreterSparing ctx stops cell levels) s

theorem EvalM.stateAfter_restoring {α : Type} (x : EvalM α) (s : State) : (restoring cell x).stateAfter s =
    { x.stateAfter s with heap := (x.stateAfter s).heap.setCell cell (s.heap.cellAt cell) } := by
  simp only [stateAfter, restoring]
  cases x s <;> rfl

/-- What a part leaves behind in a run that spares the cell: nothing if the run is given up there, else what its step
leaves behind, but for the value of the cell. -/
theorem interpreterSparing_cases (ctx : Context) (stops : Point → Prop) (cell levels : Nat) (p : Part) (s : State) :
    let after := ((interpreterSparing ctx stops cell (levels + 1)).run p).stateAfter s
    let step := p.step ctx (interpreterSparing ctx stops cell levels)
    after = s ∨ (p.Reaches cell s ∧ after = (EvalM.restoring cell step).stateAfter s) ∨
      (¬p.Reaches cell s ∧ after = step.stateAfter s) := by
  intro after step
  have run : (interpreterSparing ctx stops cell (levels + 1)).run p = _ := Interpreter.run_of levels _ p
  by_cases stop : stops ⟨levels + 1, p, s⟩
  · refine .inl ?_
    simp only [after, run, EvalM.unlessAt, EvalM.stateAfter, if_pos stop]
  · refine .inr ?_
    by_cases reaches : p.Reaches cell s
    · refine .inl ⟨reaches, ?_⟩
      simp only [after, step, run, EvalM.unlessAt, EvalM.stateAfter, if_neg stop, if_pos reaches]
    · refine .inr ⟨reaches, ?_⟩
      simp only [after, step, run, EvalM.unlessAt, EvalM.stateAfter, if_neg stop, if_neg reaches]

/-- The spared cell is written once more, and nothing else is touched. -/
theorem interpreterSparing_spares_noCells (ctx : Context) (stops : Point → Prop) (cell levels : Nat) :
    (interpreterSparing ctx stops cell levels).Spares noCells := by
  induction levels with
  | zero => exact interpreter_spares ctx 0
  | succ levels ih =>
    intro p s apart
    have stepped : s.Spares noCells ((p.step ctx (interpreterSparing ctx stops cell levels)).stateAfter s) :=
      p.step_spares ih apart fun _ _ _ _ _ => id
    rcases interpreterSparing_cases ctx stops cell levels p s with same | ⟨-, same⟩ | ⟨-, same⟩
    · rw [same]
      exact .refl s
    · rw [same, EvalM.stateAfter_restoring]
      exact stepped.trans (.setCell id _)
    · rw [same]
      exact stepped

/-- **The cell is spared.** -/
theorem interpreterSparing_spares (ctx : Context) (stops : Point → Prop) (cell levels : Nat) :
    (interpreterSparing ctx stops cell levels).Spares (· = cell) := by
  induction levels with
  | zero =>
    intro p s _
    cases p <;> exact .refl s
  | succ levels ih =>
    intro p s apart
    rcases interpreterSparing_cases ctx stops cell levels p s with same | ⟨-, same⟩ | ⟨others, same⟩
    · rw [same]
      exact .refl s
    · -- the call may have written the cell, but it gets its value back
      have called : s.Spares noCells ((p.step ctx (interpreterSparing ctx stops cell levels)).stateAfter s) :=
        p.step_spares (interpreterSparing_spares_noCells ctx stops cell levels) s.apart_noCells fun _ _ _ _ _ => id
      rw [same, EvalM.stateAfter_restoring]
      generalize (p.step ctx (interpreterSparing ctx stops cell levels)).stateAfter s = t at called ⊢
      have restored : s.Spares noCells { t with heap := t.heap.setCell cell (s.heap.cellAt cell) } :=
        called.trans (.setCell id _)
      refine ⟨restored.env, restored.cells, ?_⟩
      rintro c rfl
      exact Heap.cellAt_setCell_self (Nat.lt_of_lt_of_le (apart.there c rfl) called.cells) _
    · rw [same]
      refine p.step_spares ih apart ?_
      rintro a args rfl b captured here
      exact others ⟨b, captured, here⟩

/-- What is left of a loop spares a cell that the scopes do not have. -/
theorem EvalM.loopRest_spares {aside : Nat → Prop} (self : sub.Spares aside) (turns : Nat) :
    (loopRest sub names test update body turns).Spares aside := by
  have composed : Composed { locals := .undefined, app := .undefined } body.varNames fun sub =>
      loopRest sub names test update body turns :=
    .bind (.updated update) fun _ => .repeatWhile (.forTurn names test update (List.Subset.refl _)) turns
  exact composed.spares self

open EvalM

/-- **Each turn of a counting loop has its own variables.** Take a loop whose head declares names with `let` or `const`,
over scopes whose cells are in the heap. When it is over, in whatever way, the scopes are those that it has started in.
Each turn runs on copies of its own, and gives their last values back however it ends; the cells of its copies are
before those of any later turn. And a copy keeps its last value in the rest of the loop, wherever this is given up,
unless it makes a difference that calls of closures that have the copy may change it. -/
theorem turns_have_own_variables (ctx : Context) (levels : Nat) {kind : DeclKind} (lexical : kind ≠ .var)
    {declarators : List Declarator} (declares : Declarator.boundNames declarators ≠ []) (test update : Option Expr)
    (body : Stmt) {s : State} (allocated : s.env.Allocated s.heap) :
    let sub := interpreter ctx levels
    let names := Declarator.boundNames declarators
    let turn := forTurn sub names test update body
    ((evalFor ctx sub (.declare kind declarators) test update body).stateAfter s).env = s.env ∧
      ∀ head, evalForInit ctx sub (.declare kind declarators) { s with env := s.env.push } = .ok names head →
        ∀ t u, TurnStarts turn head t → testHolds sub test t = .ok true u →
          OwnTurn sub names body head u ∧
          (∀ t' v v', turn t = .ok true t' → TurnStarts turn t' v → testHolds sub test v = .ok true v' →
            u.heap.cells.size + names.length ≤ v'.heap.cells.size) ∧
          (∀ turns v, t.interrupted = false → runTurn sub names body u = .ok true v →
            repeatWhile turn (turns + 1) t = loopRest sub names test update body turns v) ∧
          ∀ cell, u.heap.cells.size ≤ cell → cell < u.heap.cells.size + names.length → ∀ stops turns,
            let ended := (runTurn sub names body).stateAfter u
            let rest := fun sub => loopRest sub names test update body turns
            rest (interpreterUntil ctx stops levels) ended = rest (interpreterSparing ctx stops cell levels) ended →
              ((rest (interpreterUntil ctx stops levels)).stateAfter ended).heap.cellAt cell =
                ((sub.stmt body).stateAfter (u.entering names)).heap.cellAt cell := by
  intro sub names turn
  have keeps : sub.Scoped := interpreter_scoped ctx levels
  have self : sub.Spares noCells := interpreter_spares ctx levels
  refine ⟨evalFor_keepsScopes self _ test update body s, fun head started t u starts tested => ?_⟩
  have holds := holds_of_head keeps self lexical started
  obtain ⟨scopes, size⟩ := starts.later keeps self declares holds
  have here : t.env.Holds t.heap names := scopes ▸ holds.mono size
  obtain ⟨tests, grown⟩ := after_test keeps self tested
  have own := ownTurn keeps self (tests.trans scopes) (tests ▸ here.mono grown) body
  refine ⟨own, fun t' v v' again later tested' => ?_, fun turns v goesOn ran => ?_, ?_⟩
  · obtain ⟨scopes', behind⟩ := next_of_turn keeps self declares here tested again
    have next : t'.env.Holds t'.heap names :=
      scopes' ▸ here.mono (Nat.le_trans grown (Nat.le_trans (Nat.le_add_right _ _) behind))
    obtain ⟨-, more⟩ := later.later keeps self declares next
    exact Nat.le_trans behind (Nat.le_trans more (after_test keeps self tested').2)
  · exact repeatWhile_of_turn declares goesOn tested ran turns
  · intro cell above below stops turns ended rest same
    obtain ⟨h, after, given⟩ := own.after
    -- a cell of this turn is newer than the head, so no name that the later turns start from is bound to it
    have unbound : ∀ b ∈ head.env.bindings.toList, b.cell ≠ cell := by
      intro b mem
      have inside := allocated_of_head self allocated started b mem
      exact Nat.ne_of_lt (Nat.lt_of_lt_of_le inside (Nat.le_trans size (Nat.le_trans grown above)))
    have there : cell < ended.heap.cells.size := by
      have entered : (u.entering names).heap.cells.size = u.heap.cells.size + names.length := by simp [own.heap]
      have ran := self (.stmt body) (u.entering names) (State.apart_noCells _)
      rw [show ended = _ from after]
      exact Nat.lt_of_lt_of_le (entered ▸ below) (Nat.le_trans ran.cells (Nat.le_of_eq given.size.symm))
    have apart : ended.Apart (· = cell) := by
      refine ⟨fun c mem => mem ▸ there, ?_⟩
      rw [show ended = _ from after]
      exact unbound
    have spared : (rest (interpreterSparing ctx stops cell levels)).Spares (· = cell) :=
      loopRest_spares (interpreterSparing_spares ctx stops cell levels) turns
    rw [stateAfter_congr same]
    refine ((spared ended apart).kept cell rfl).trans ?_
    rw [show ended = _ from after]
    refine given.kept cell fun name mem b found => unbound b ?_
    exact Array.mem_toList_iff.2 (Environment.mem_of_find? found)

/-- `x = false;` -/
def clearX : Stmt :=
  .expr (.assign .assign (.name "x") (.literal (.bool false)))

/-- The state of a loop with the variable `x`, after the head and after turns. -/
def loopX (cells : Array Value) : State where
  env := { bindings := #[⟨"x", 0, .let⟩], frames := [0] }
  heap := { cells }

/-- In `for (let x = true; x; ) x = false;` the only turn leaves `false` in the cell of `x` and in its copy, and the
rest of the loop leaves the copy alone. -/
theorem turns_have_own_variables_once :
    OwnTurn (interpreter bareContext 3) ["x"] clearX (loopX #[.bool true]) (loopX #[.bool true]) ∧
      (runTurn (interpreter bareContext 3) ["x"] clearX).stateAfter (loopX #[.bool true]) =
        loopX #[.bool false, .bool false] ∧
      ((loopRest (interpreter bareContext 3) ["x"] (some (.name "x")) none clearX 1).stateAfter
        (loopX #[.bool false, .bool false])).heap.cellAt 1 = .bool false := by
  have started : evalForInit bareContext (interpreter bareContext 3)
      (.declare .let [.mk (.name "x") (some (.literal (.bool true)))]) { env := Environment.push {} } =
      .ok ["x"] (loopX #[.bool true]) := by cbv
  have tested : testHolds (interpreter bareContext 3) (some (.name "x")) (loopX #[.bool true]) =
      .ok true (loopX #[.bool true]) := by cbv
  have ran : (runTurn (interpreter bareContext 3) ["x"] clearX).stateAfter (loopX #[.bool true]) =
      loopX #[.bool false, .bool false] := by cbv
  have whole : loopRest (interpreter bareContext 3) ["x"] (some (.name "x")) none clearX 1
      (loopX #[.bool false, .bool false]) = .ok () (loopX #[.bool false, .bool false]) := by cbv
  have spared : loopRest (interpreterSparing bareContext (fun _ => False) 1 3) ["x"] (some (.name "x")) none clearX 1
      (loopX #[.bool false, .bool false]) = .ok () (loopX #[.bool false, .bool false]) := by
    have found : exprStep bareContext (interpreterSparing bareContext (fun _ => False) 1 2) (.name "x")
        (loopX #[.bool false, .bool false]) = .ok (.bool false) (loopX #[.bool false, .bool false]) := by cbv
    have read : (interpreterSparing bareContext (fun _ => False) 1 3).expr (.name "x")
        (loopX #[.bool false, .bool false]) = .ok (.bool false) (loopX #[.bool false, .bool false]) :=
      (if_neg id).trans ((if_neg id).trans found)
    have ended : testHolds (interpreterSparing bareContext (fun _ => False) 1 3) (some (.name "x"))
        (loopX #[.bool false, .bool false]) = .ok false (loopX #[.bool false, .bool false]) := bind_of_ok read
    have last : forTurn (interpreterSparing bareContext (fun _ => False) 1 3) ["x"] (some (.name "x")) none clearX
        (loopX #[.bool false, .bool false]) = .ok false (loopX #[.bool false, .bool false]) := bind_of_ok ended
    exact bind_of_ok last
  have allocated : ({} : State).env.Allocated ({} : State).heap := fun b mem => absurd mem (Array.not_mem_empty b)
  have lexical : DeclKind.let ≠ .var := by decide
  have named : Declarator.boundNames [.mk (.name "x") (some (.literal (.bool true)))] = ["x"] := rfl
  have declares : Declarator.boundNames [.mk (.name "x") (some (.literal (.bool true)))] ≠ [] := List.cons_ne_nil _ _
  obtain ⟨-, turns⟩ := turns_have_own_variables bareContext 3 lexical declares (some (.name "x")) none clearX allocated
  obtain ⟨own, -, -, kept⟩ := turns _ started _ _ (.here _) tested
  have kept := kept 1 (by decide) (by decide) (fun _ => False) 1
  simp only [interpreterUntil_never, named, ran] at kept
  exact ⟨own, ran, (kept (whole.trans spared.symm)).trans (by cbv)⟩

end BindScript
