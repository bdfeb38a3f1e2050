import BindScript.Proofs.Correspondence.Run
import BindScript.Proofs.Environment.Stack

/-!
# Environments refine stacks of scopes that share cells

Several environments live on one heap, and a cell may be bound in more than one of them: the bindings that a
function has captured are bound again in the environment of each of its calls. `Workspace` is such a heap with its
environments, and `SharedStacks` is what it stands for: cells, and stacks of scopes over them. Whatever is done, in
whatever order, the answers are the same, and the workspace shows the stacks (`environments_refine`).

What one request can do to a workspace is said once (`Workspace.Moves`). From it follows what a sequence of
requests leaves as it was: what was bound before a scope was entered (`Workspace.grows_of_balanced`), and what a
name means in the environment of a call (`Environment.Lent`).

Theorems:
- `Workspace.view_step`: one request to the environments is one request to the stacks.
- `Workspace.Moves.environments`: what one request does to one environment.
- `Workspace.environments_run`: what holds of an environment along a sequence of requests.
- `environments_refine`: the answers, and all that holds of each environment.
-/

namespace BindScript

/-! ## Requests -/

/-- What can be asked of environments. They are numbered in the order in which they were made. -/
inductive ScopeRequest
  | push (i : Nat)
  | pop (i : Nat)
  | define (i : Nat) (name : String) (value : Value) (kind : BindingKind)
  | assign (i : Nat) (name : String) (value : Value)
  | setInitial (i : Nat) (name : String) (value : Value)
  /-- All bindings, for a function that is created there. -/
  | capture (i : Nat)
  /-- The environment of a call of a function that has captured the bindings. -/
  | forCall (captured : List Binding) (callDepth maxCallDepth : Nat)

/-- What comes back. -/
inductive ScopeAnswer
  | done
  | cell (cell : Nat)
  | refused (fault : EnvironmentFault)
  | captured (bindings : List Binding)
  | made (i : Nat)
  /-- There is no such environment, or no such cell. -/
  | missing
  deriving DecidableEq

/-- Makes one request after the other, and collects the answers. -/
def perform {σ : Type} (step : σ → ScopeRequest → σ × ScopeAnswer) (s : σ) :
    List ScopeRequest → σ × List ScopeAnswer
  | [] => (s, [])
  | a :: as =>
    let next := step s a
    let last := perform step next.1 as
    (last.1, next.2 :: last.2)

theorem perform_append {σ : Type} (step : σ → ScopeRequest → σ × ScopeAnswer) (s : σ) (as bs : List ScopeRequest) :
    (perform step s (as ++ bs)).1 = (perform step (perform step s as).1 bs).1 := by
  induction as generalizing s with
  | nil => rfl
  | cons a as ih => exact ih _

/-- Cells, and stacks of scopes that share them. -/
structure SharedStacks where
  cells : List Value
  environments : List ScopeStack

namespace SharedStacks

/-- A single scope without bindings. -/
def start (cells : List Value) : SharedStacks :=
  ⟨cells, [{}]⟩

/-- Makes a request to one of the stacks, if it is there. -/
def ask (s : SharedStacks) (i : Nat) (request : ScopeStack → SharedStacks × ScopeAnswer) :
    SharedStacks × ScopeAnswer :=
  match s.environments[i]? with
  | some stack => request stack
  | none => (s, .missing)

/-- Writes the cell of a binding. -/
def write (s : SharedStacks) (b : Binding) (value : Value) : SharedStacks × ScopeAnswer :=
  ({ s with cells := s.cells.set b.cell value }, .done)

/-- Answers a request. -/
def step (s : SharedStacks) : ScopeRequest → SharedStacks × ScopeAnswer
  | .push i => s.ask i fun stack => ({ s with environments := s.environments.set i stack.push }, .done)
  | .pop i => s.ask i fun stack => ({ s with environments := s.environments.set i stack.pop }, .done)
  | .define i name value kind => s.ask i fun stack =>
    let cell := s.cells.length
    (⟨s.cells ++ [value], s.environments.set i (stack.bind ⟨name, cell, kind⟩)⟩, .cell cell)
  | .assign i name value => s.ask i fun stack =>
    match stack.find? name with
    | none => (s, .refused (.undefinedVariable name))
    | some b => if b.kind = .const then (s, .refused (.immutableBinding name)) else s.write b value
  | .setInitial i name value => s.ask i fun stack =>
    match stack.find? name with
    | none => (s, .refused (.undefinedVariable name))
    | some b => s.write b value
  | .capture i => s.ask i fun stack => (s, .captured stack.bindings.reverse)
  | .forCall captured _ _ =>
    if captured.all (·.cell < s.cells.length) then
      ({ s with environments := s.environments ++ [⟨[], [captured.reverse]⟩] }, .made s.environments.length)
    else (s, .missing)

end SharedStacks

/-- A heap, and the environments that live on it. -/
structure Workspace where
  heap : Heap
  environments : List Environment

namespace Workspace

/-- A single environment without bindings. -/
def start (h : Heap) (maxCallDepth : Nat) : Workspace :=
  ⟨h, [.empty maxCallDepth]⟩

/-- Makes a request to one of the environments, if it is there. -/
def ask (w : Workspace) (i : Nat) (request : Environment → Workspace × ScopeAnswer) : Workspace × ScopeAnswer :=
  match w.environments[i]? with
  | some env => request env
  | none => (w, .missing)

/-- The workspace with another environment in the place of one. -/
def put (w : Workspace) (i : Nat) (env : Environment) : Workspace :=
  { w with environments := w.environments.set i env }

/-- The workspace after a write, unless that is refused. -/
def written (w : Workspace) : Except EnvironmentFault Heap → Workspace × ScopeAnswer
  | .ok heap => ({ w with heap }, .done)
  | .error fault => (w, .refused fault)

/-- Answers a request. -/
def step (w : Workspace) : ScopeRequest → Workspace × ScopeAnswer
  | .push i => w.ask i fun env => (w.put i env.push, .done)
  | .pop i => w.ask i fun env => (w.put i env.pop, .done)
  | .define i name value kind => w.ask i fun env =>
    let (cell, env, heap) := env.define w.heap name value kind
    ({ w.put i env with heap }, .cell cell)
  | .assign i name value => w.ask i fun env => w.written (env.assign w.heap name value)
  | .setInitial i name value => w.ask i fun env => w.written (env.setInitial w.heap name value)
  | .capture i => w.ask i fun env => (w, .captured env.bindings.toList)
  | .forCall captured callDepth maxCallDepth =>
    if captured.all (·.cell < w.heap.cells.size) then
      ({ w with environments := w.environments ++ [.forCall captured.toArray callDepth maxCallDepth] },
        .made w.environments.length)
    else (w, .missing)

/-- The workspace after a sequence of requests. -/
def run (w : Workspace) (as : List ScopeRequest) : Workspace :=
  (perform step w as).1

theorem run_append (w : Workspace) (as bs : List ScopeRequest) : w.run (as ++ bs) = (w.run as).run bs :=
  perform_append _ _ _ _

/-- What a workspace stands for. -/
def view (w : Workspace) : SharedStacks :=
  ⟨w.heap.cells.toList, w.environments.map (·.stack)⟩

/-- Scopes nest in every environment, and all cells are there. -/
structure Sound (w : Workspace) : Prop where
  framed : ∀ env ∈ w.environments, env.Framed
  allocated : ∀ env ∈ w.environments, env.Allocated w.heap

/-! ## One request -/

variable {w : Workspace} {i : Nat}

theorem view_ask {request : Environment → Workspace × ScopeAnswer}
    {request' : ScopeStack → SharedStacks × ScopeAnswer}
    (same : ∀ env, w.environments[i]? = some env → Prod.map view id (request env) = request' env.stack) :
    Prod.map view id (w.ask i request) = w.view.ask i request' := by
  unfold ask SharedStacks.ask
  have stack : w.view.environments[i]? = w.environments[i]?.map (·.stack) := List.getElem?_map
  rw [stack]
  cases found : w.environments[i]? with
  | some env => exact same env found
  | none => rfl

theorem view_put (w : Workspace) (i : Nat) (env : Environment) :
    (w.put i env).view = { w.view with environments := w.view.environments.set i env.stack } := by
  unfold view put
  rw [List.map_set]

theorem view_setCell (w : Workspace) (cell : Nat) (value : Value) :
    ({ w with heap := w.heap.setCell cell value } : Workspace).view =
      { w.view with cells := w.view.cells.set cell value } := by
  unfold view Heap.setCell
  rw [Array.toList_setIfInBounds]

/-- A request to the environments is a request to the stacks. -/
theorem view_step (sound : w.Sound) (a : ScopeRequest) : Prod.map view id (w.step a) = w.view.step a := by
  cases a with
  | push i =>
    refine view_ask fun env _ => Prod.ext ?_ rfl
    show (w.put i env.push).view = _
    rw [view_put, Environment.stack_push]
  | pop i =>
    refine view_ask fun env _ => Prod.ext ?_ rfl
    show (w.put i env.pop).view = _
    rw [view_put, Environment.stack_pop]
  | define i name value kind =>
    refine view_ask fun env found => Prod.ext ?_ rfl
    -- the binding goes to the end of the array, which is in the innermost scope
    have framed := sound.framed env (List.mem_of_getElem? found)
    have bound := view_put w i (env.bind name w.heap.cells.size kind)
    rw [Environment.stack_bind framed] at bound
    show SharedStacks.mk (w.heap.cells.push value).toList (w.put i (env.bind name _ kind)).view.environments = _
    rw [bound, Array.toList_push]
    rfl
  | assign i name value =>
    refine view_ask fun env _ => ?_
    rw [Environment.find?_stack, Environment.assign_eq]
    cases env.find? name with
    | none => rfl
    | some b =>
      dsimp only
      split
      · rfl
      · exact Prod.ext (view_setCell w b.cell value) rfl
  | setInitial i name value =>
    refine view_ask fun env _ => ?_
    rw [Environment.find?_stack]
    unfold Environment.setInitial Environment.initialCell
    cases env.find? name with
    | none => rfl
    | some b => exact Prod.ext (view_setCell w b.cell value) rfl
  | capture i =>
    refine view_ask fun env _ => Prod.ext rfl ?_
    rw [Environment.bindings_stack, List.reverse_reverse]
    rfl
  | forCall captured callDepth maxCallDepth =>
    have size : w.view.cells.length = w.heap.cells.size := Array.length_toList
    have count : w.view.environments.length = w.environments.length := List.length_map _
    show Prod.map view id (if captured.all (·.cell < w.heap.cells.size) then _ else _) =
      if captured.all (·.cell < w.view.cells.length) then _ else _
    rw [size, count]
    split
    · refine Prod.ext ?_ rfl
      show SharedStacks.mk _ (List.map _ (_ ++ [_])) = _
      rw [List.map_append, List.map_singleton, Environment.stack_forCall]
      rfl
    · rfl

end Workspace

/-! ## What one request does -/

/-- What a request does to the environment with the number, if a new variable gets the cell. -/
def ScopeRequest.effect (i cell : Nat) (env : Environment) : ScopeRequest → Environment
  | .push j => if j = i then env.push else env
  | .pop j => if j = i then env.pop else env
  | .define j name _ kind => if j = i then env.bind name cell kind else env
  | _ => env

namespace Workspace

variable {w w' : Workspace} {i : Nat} {env : Environment} {a : ScopeRequest}

/-- All that a request can do to a workspace. -/
inductive Moves (w : Workspace) : ScopeRequest → Workspace → Prop
  | stays {a : ScopeRequest}
    (idle : ∀ i env cell, w.environments[i]? = some env → a.effect i cell env = env) : Moves w a w
  | push {i : Nat} {env : Environment} (found : w.environments[i]? = some env) :
    Moves w (.push i) (w.put i env.push)
  | pop {i : Nat} {env : Environment} (found : w.environments[i]? = some env) :
    Moves w (.pop i) (w.put i env.pop)
  | define {i : Nat} {env : Environment} {name : String} {value : Value} {kind : BindingKind}
    (found : w.environments[i]? = some env) : Moves w (.define i name value kind)
      { w.put i (env.bind name w.heap.cells.size kind) with heap := (w.heap.newCell value).2 }
  | write {a : ScopeRequest} (idle : ∀ i env cell, a.effect i cell env = env) (cell : Nat) (value : Value) :
    Moves w a { w with heap := w.heap.setCell cell value }
  | forCall {captured : List Binding} {callDepth maxCallDepth : Nat}
    (cells : ∀ b ∈ captured, b.cell < w.heap.cells.size) : Moves w (.forCall captured callDepth maxCallDepth)
      { w with environments := w.environments ++ [.forCall captured.toArray callDepth maxCallDepth] }

theorem Moves.ask {request : Environment → Workspace × ScopeAnswer}
    (there : ∀ env, w.environments[i]? = some env → Moves w a (request env).1)
    (idle : ∀ j env cell, j ≠ i → a.effect j cell env = env) : Moves w a (w.ask i request).1 := by
  unfold Workspace.ask
  cases found : w.environments[i]? with
  | some env => exact there env found
  | none =>
    refine .stays fun j env cell other => idle j env cell ?_
    rintro rfl
    cases found.symm.trans other

theorem Moves.written (idle : ∀ i env cell, a.effect i cell env = env) (r : Except EnvironmentFault Nat)
    (value : Value) : Moves w a (w.written (r.map (w.heap.setCell · value))).1 := by
  cases r with
  | error fault => exact .stays fun i env cell _ => idle i env cell
  | ok cell => exact .write idle cell value

/-- Each request is a move of one environment, or leaves all as they are. -/
theorem moves_step (w : Workspace) (a : ScopeRequest) : Moves w a (w.step a).1 := by
  cases a with
  | push i => exact .ask (fun _ found => .push found) fun _ _ _ other => if_neg other.symm
  | pop i => exact .ask (fun _ found => .pop found) fun _ _ _ other => if_neg other.symm
  | define i name value kind => exact .ask (fun _ found => .define found) fun _ _ _ other => if_neg other.symm
  | assign i name value => exact .ask (fun _ _ => .written (fun _ _ _ => rfl) _ _) fun _ _ _ _ => rfl
  | setInitial i name value => exact .ask (fun _ _ => .written (fun _ _ _ => rfl) _ _) fun _ _ _ _ => rfl
  | capture i => exact .ask (fun _ _ => .stays fun _ _ _ _ => rfl) fun _ _ _ _ => rfl
  | forCall captured callDepth maxCallDepth =>
    show Moves w _ (if captured.all (·.cell < w.heap.cells.size) then _ else _ : Workspace × ScopeAnswer).1
    split
    · next cells => exact .forCall fun b mem => by simpa using List.all_eq_true.1 cells b mem
    · exact .stays fun _ _ _ _ => rfl

/-- Only cells change in the heap, and none is ever taken away. -/
theorem Moves.heap (moves : Moves w a w') :
    w'.heap = { w.heap with cells := w'.heap.cells } ∧ w.heap.cells.size ≤ w'.heap.cells.size := by
  cases moves with
  | stays _ | push _ | pop _ | forCall _ => exact ⟨rfl, Nat.le_refl _⟩
  | define _ => exact ⟨rfl, by simp [Heap.newCell]⟩
  | write _ cell value => exact ⟨rfl, by simp [Heap.setCell]⟩

theorem mem_put {env' changed : Environment} (mem : env' ∈ (w.put i changed).environments) :
    env' = changed ∨ env' ∈ w.environments :=
  (List.mem_or_eq_of_mem_set mem).symm

/-- Whatever is requested, scopes stay nested, and every cell that is bound is there. -/
theorem Sound.moves (sound : w.Sound) (moves : Moves w a w') : w'.Sound := by
  have grown := moves.heap.2
  have kept (env : Environment) (mem : env ∈ w.environments) : env.Framed ∧ env.Allocated w'.heap :=
    ⟨sound.framed env mem, (sound.allocated env mem).mono grown⟩
  -- each move changes or adds one environment and leaves the others as they are
  suffices all : ∀ env ∈ w'.environments, env.Framed ∧ env.Allocated w'.heap from
    ⟨fun env mem => (all env mem).1, fun env mem => (all env mem).2⟩
  intro env' mem
  cases moves with
  | stays _ => exact kept env' mem
  | push found =>
    rcases mem_put mem with rfl | mem
    · obtain ⟨framed, allocated⟩ := kept _ (List.mem_of_getElem? found)
      exact ⟨framed.push, allocated⟩
    · exact kept env' mem
  | pop found =>
    rcases mem_put mem with rfl | mem
    · obtain ⟨framed, allocated⟩ := kept _ (List.mem_of_getElem? found)
      exact ⟨framed.pop, allocated.pop⟩
    · exact kept env' mem
  | define found =>
    rcases mem_put mem with rfl | mem
    · obtain ⟨framed, allocated⟩ := kept _ (List.mem_of_getElem? found)
      exact ⟨framed.bind _ _ _, allocated.bind (by simp [Heap.newCell]) _ _⟩
    · exact kept env' mem
  | write _ _ _ => exact kept env' mem
  | forCall cells =>
    rcases List.mem_append.1 mem with mem | mem
    · exact kept env' mem
    · cases List.mem_singleton.1 mem
      exact ⟨Environment.framed_forCall _ _ _, fun b mem => cells b (List.mem_toArray.1 mem)⟩

theorem environments_put {j : Nat} {old : Environment} (change : Environment → Environment)
    (there : w.environments[j]? = some old) (found : w.environments[i]? = some env) :
    (w.put j (change old)).environments[i]? = some (if j = i then change env else env) := by
  unfold put
  rw [List.getElem?_set]
  split
  · next same =>
    subst same
    cases there.symm.trans found
    rw [if_pos (List.getElem?_eq_some_iff.1 found).1]
  · exact found

/-- What a request does to one environment. -/
theorem Moves.environments (moves : Moves w a w') (found : w.environments[i]? = some env) :
    w'.environments[i]? = some (a.effect i w.heap.cells.size env) := by
  cases moves with
  | stays idle => rw [idle i env _ found, found]
  | push there => exact environments_put _ there found
  | pop there => exact environments_put _ there found
  | define there => exact environments_put (·.bind _ _ _) there found
  | write idle _ _ => rw [idle i env, ← found]
  | forCall _ => exact (List.getElem?_append_left (List.getElem?_eq_some_iff.1 found).1).trans found

/-! ## Sequences of requests -/

theorem run_cons (w : Workspace) (a : ScopeRequest) (as : List ScopeRequest) :
    w.run (a :: as) = (w.step a).1.run as :=
  rfl

/-- A sequence of requests to the environments is one to the stacks, with the same answers. -/
theorem view_perform (sound : w.Sound) (as : List ScopeRequest) :
    Prod.map view id (perform step w as) = perform SharedStacks.step w.view as := by
  induction as generalizing w with
  | nil => rfl
  | cons a as ih =>
    have next : w.view.step a = ((w.step a).1.view, (w.step a).2) := (view_step sound a).symm
    have last := ih (sound.moves (moves_step w a))
    simp only [perform, next, ← last]
    rfl

theorem Sound.run (sound : w.Sound) (as : List ScopeRequest) : (w.run as).Sound := by
  induction as generalizing w with
  | nil => exact sound
  | cons a as ih => exact ih (sound.moves (moves_step w a))

theorem heap_run (w : Workspace) (as : List ScopeRequest) :
    (w.run as).heap = { w.heap with cells := (w.run as).heap.cells } ∧
      w.heap.cells.size ≤ (w.run as).heap.cells.size := by
  induction as generalizing w with
  | nil => exact ⟨rfl, Nat.le_refl _⟩
  | cons a as ih =>
    obtain ⟨rest, grown⟩ := (moves_step w a).heap
    obtain ⟨rest', grown'⟩ := ih (w.step a).1
    exact ⟨by rw [run_cons, rest', rest], Nat.le_trans grown grown'⟩

/-- What holds of an environment, and is kept by what each request does to it, holds after all of them. -/
theorem environments_run {P : Environment → Prop} {as : List ScopeRequest} (found : w.environments[i]? = some env)
    (first : P env) (kept : ∀ a ∈ as, ∀ cell env, P env → P (a.effect i cell env)) :
    ∃ env', (w.run as).environments[i]? = some env' ∧ P env' := by
  induction as generalizing w env with
  | nil => exact ⟨env, found, first⟩
  | cons a as ih =>
    obtain ⟨now, later⟩ := List.forall_mem_cons.1 kept
    exact ih ((moves_step w a).environments found) (now _ _ first) later

end Workspace

/-! ## Entering and leaving a scope -/

/-- Requests in which scopes of the environment are left as often as they are entered, and never before. -/
inductive Balanced (i : Nat) : List ScopeRequest → Prop
  | nil : Balanced i []
  | other {a : ScopeRequest} {as : List ScopeRequest} (push : a ≠ .push i) (pop : a ≠ .pop i)
    (rest : Balanced i as) : Balanced i (a :: as)
  | scope {as bs : List ScopeRequest} (inside : Balanced i as) (rest : Balanced i bs) :
    Balanced i (.push i :: (as ++ .pop i :: bs))

namespace Workspace

variable {w : Workspace} {i : Nat} {env : Environment} {as : List ScopeRequest}

/-- If requests only add to the scopes, entering a scope before them and leaving it after them restores all. -/
theorem environments_scope (found : w.environments[i]? = some env)
    (inside : ∀ {w : Workspace} {env : Environment}, w.environments[i]? = some env →
      ∃ env', (w.run as).environments[i]? = some env' ∧ env.Grows env') :
    (w.run (.push i :: (as ++ [.pop i]))).environments[i]? = some env := by
  have entered := (moves_step w (.push i)).environments found
  rw [ScopeRequest.effect, if_pos rfl] at entered
  obtain ⟨env', there, grows⟩ := inside entered
  have left := (moves_step _ (.pop i)).environments there
  rw [ScopeRequest.effect, if_pos rfl, Environment.pop_of_grows_push grows] at left
  rw [run_cons, run_append]
  exact left

/-- In the end all that was entered has been left again, and bindings have been added to the innermost scope. -/
theorem grows_of_balanced (balanced : Balanced i as) (found : w.environments[i]? = some env) :
    ∃ env', (w.run as).environments[i]? = some env' ∧ env.Grows env' := by
  induction balanced generalizing w env with
  | nil => exact ⟨env, found, .refl env⟩
  | @other a as push pop _ ih =>
    -- a scope of another environment may be entered or left here
    have one : env.Grows (a.effect i w.heap.cells.size env) := by
      unfold ScopeRequest.effect
      split
      · rw [if_neg fun same => push (congrArg _ same)]
        exact .refl env
      · rw [if_neg fun same => pop (congrArg _ same)]
        exact .refl env
      · split
        · exact env.grows_bind _ _ _
        · exact .refl env
      · exact .refl env
    obtain ⟨env', there, more⟩ := ih ((moves_step w a).environments found)
    exact ⟨env', there, one.trans more⟩
  | scope _ _ inside rest =>
    obtain ⟨env', there, more⟩ := rest (environments_scope found inside)
    refine ⟨env', ?_, more⟩
    rwa [← run_append, List.cons_append, List.append_assoc] at there

end Workspace

/-! ## Captured bindings -/

/-- The captured bindings are still there, and none of the name has been added. -/
structure Environment.Lent (captured : List Binding) (name : String) (env : Environment) : Prop where
  bindings : ∃ added, env.bindings.toList = captured ++ added ∧ ∀ b ∈ added, b.name ≠ name
  frames : ∀ start ∈ env.frames, captured.length ≤ start

namespace Environment.Lent

variable {captured : List Binding} {name : String} {env : Environment}

theorem forCall (captured : List Binding) (name : String) (callDepth maxCallDepth : Nat) :
    Lent captured name (.forCall captured.toArray callDepth maxCallDepth) where
  bindings := ⟨[], (List.append_nil _).symm, List.forall_mem_nil _⟩
  frames := List.forall_mem_singleton.2 (Nat.le_refl _)

theorem find? (lent : Lent captured name env) : env.find? name = captured.reverse.find? (·.name == name) := by
  obtain ⟨added, bindings, others⟩ := lent.bindings
  have missing : added.reverse.find? (·.name == name) = none :=
    List.find?_eq_none.2 fun b mem => by simpa using others b (List.mem_reverse.1 mem)
  rw [find?_eq_reverse, bindings, List.reverse_append, List.find?_append, missing, Option.none_or]

theorem push (lent : Lent captured name env) : Lent captured name env.push where
  bindings := lent.bindings
  frames := by
    obtain ⟨added, bindings, -⟩ := lent.bindings
    refine List.forall_mem_cons.2 ⟨?_, lent.frames⟩
    rw [← Array.length_toList, bindings, List.length_append]
    exact Nat.le_add_right _ _

/-- The captured bindings lie outside of all scopes, so leaving one takes none of them away. -/
theorem pop (lent : Lent captured name env) : Lent captured name env.pop := by
  obtain ⟨added, bindings, others⟩ := lent.bindings
  unfold Environment.pop
  cases frames : env.frames with
  | nil => exact lent
  | cons start outer =>
    have starts := lent.frames
    rw [frames] at starts
    -- the scope starts after the captured bindings, so only added ones are cut off
    obtain ⟨inside, outside⟩ := List.forall_mem_cons.1 starts
    refine ⟨⟨added.take (start - captured.length), ?_, fun b mem => others b (List.mem_of_mem_take mem)⟩, outside⟩
    show (env.bindings.shrink start).toList = _
    rw [Array.toList_shrink, bindings, List.take_append, List.take_of_length_le inside]

theorem bind (lent : Lent captured name env) {other : String} (ne : other ≠ name) (cell : Nat)
    (kind : BindingKind) : Lent captured name (env.bind other cell kind) where
  bindings := by
    obtain ⟨added, bindings, others⟩ := lent.bindings
    refine ⟨added ++ [⟨other, cell, kind⟩], ?_, List.forall_mem_append.2 ⟨others, List.forall_mem_singleton.2 ne⟩⟩
    show (env.bindings.push _).toList = _
    rw [Array.toList_push, bindings, List.append_assoc]
  frames := lent.frames

/-- What has been captured stays, and so does the meaning of the name unless it is defined anew. -/
theorem effect {a : ScopeRequest} {i cell : Nat} (lent : Lent captured name env)
    (other : ∀ value kind, a ≠ .define i name value kind) : Lent captured name (a.effect i cell env) := by
  unfold ScopeRequest.effect
  split
  · split
    · exact lent.push
    · exact lent
  · split
    · exact lent.pop
    · exact lent
  · split
    · next same =>
      subst same
      exact lent.bind (fun named => other _ _ (by rw [named])) _ _
    · exact lent
  · exact lent

end Environment.Lent

/-! ## What holds of every environment -/

namespace Workspace

/-- Leaving a scope restores the environment in which it was entered, whatever has happened in between, and the
outermost scope is never left. -/
def Restores (w : Workspace) (i : Nat) (env : Environment) : Prop :=
  (∀ as, Balanced i as → (w.run (.push i :: (as ++ [.pop i]))).environments[i]? = some env) ∧
    (env.isGlobalScope = true → w.step (.pop i) = (w, .done))

/-- One cell has the new value, and nothing else has changed. -/
structure Writes (w : Workspace) (cell : Nat) (value : Value) (w' : Workspace) : Prop where
  there : cell < w.heap.cells.size
  here : w'.heap.cells[cell]? = some value
  others : ∀ other ≠ cell, w'.heap.cells[other]? = w.heap.cells[other]?
  rest : w' = { w with heap := { w.heap with cells := w'.heap.cells } }

/-- The first value of a name and every later one are written to the cell of the binding that the name means. Both
are refused if the name is not bound, and later values if it is constant; then nothing changes. -/
def Assigns (w : Workspace) (i : Nat) (env : Environment) : Prop :=
  ∀ name value, match env.find? name with
    | none =>
      w.step (.setInitial i name value) = (w, .refused (.undefinedVariable name)) ∧
        w.step (.assign i name value) = (w, .refused (.undefinedVariable name))
    | some b =>
      (∃ w', w.step (.setInitial i name value) = (w', .done) ∧ w.Writes b.cell value w') ∧
        if b.kind = .const then w.step (.assign i name value) = (w, .refused (.immutableBinding name))
        else ∃ w', w.step (.assign i name value) = (w', .done) ∧ w.Writes b.cell value w'

/-- The environment of a call, which can be made at any later time from what is captured now: a name means there
what it means now, as long as it is not defined there. -/
def Lends (w : Workspace) (i : Nat) (env : Environment) : Prop :=
  w.step (.capture i) = (w, .captured env.bindings.toList) ∧
    ∀ (before after : List ScopeRequest) (callDepth maxCallDepth : Nat) (name : String),
      let called := (w.run before).step (.forCall env.bindings.toList callDepth maxCallDepth)
      let j := (w.run before).environments.length
      called.2 = .made j ∧ ((∀ value kind, .define j name value kind ∉ after) →
        ∃ env', (called.1.run after).environments[j]? = some env' ∧ env'.find? name = env.find? name)

variable {w : Workspace} {i : Nat} {env : Environment}

theorem ask_some (found : w.environments[i]? = some env) (request : Environment → Workspace × ScopeAnswer) :
    w.ask i request = request env := by
  unfold ask
  rw [found]

theorem restores (found : w.environments[i]? = some env) : w.Restores i env := by
  constructor
  · exact fun as balanced => environments_scope found (grows_of_balanced balanced)
  · intro outermost
    have stays : env.pop = env := by
      unfold Environment.pop
      rw [List.isEmpty_iff.1 outermost]
    obtain ⟨inside, same⟩ := List.getElem?_eq_some_iff.1 found
    show w.ask i _ = _
    rw [ask_some found, stays, put, ← same, List.set_getElem_self]

theorem writes_setCell {cell : Nat} (there : cell < w.heap.cells.size) (value : Value) :
    w.Writes cell value { w with heap := w.heap.setCell cell value } where
  there := there
  here := by simp [Heap.setCell, there]
  others other ne := by simp [Heap.setCell, ne.symm]
  rest := rfl

/-- An assignment goes to the cell of the binding that the name means. -/
theorem assigns (found : w.environments[i]? = some env) (allocated : env.Allocated w.heap) : w.Assigns i env := by
  intro name value
  have initial : w.step (.setInitial i name value) = w.written (env.setInitial w.heap name value) :=
    ask_some found _
  have later : w.step (.assign i name value) = w.written (env.assign w.heap name value) :=
    ask_some found _
  rw [initial, later, Environment.assign_eq]
  unfold Environment.setInitial Environment.initialCell
  cases meant : env.find? name with
  | none => exact ⟨rfl, rfl⟩
  | some b =>
    have writes := writes_setCell (allocated b (Environment.mem_of_find? meant)) value
    refine ⟨⟨_, rfl, writes⟩, ?_⟩
    dsimp only
    split
    · rfl
    · exact ⟨_, rfl, writes⟩

theorem step_forCall {captured : List Binding} (cells : ∀ b ∈ captured, b.cell < w.heap.cells.size)
    (callDepth maxCallDepth : Nat) : w.step (.forCall captured callDepth maxCallDepth) =
      (⟨w.heap, w.environments ++ [.forCall captured.toArray callDepth maxCallDepth]⟩,
        .made w.environments.length) :=
  if_pos (List.all_eq_true.2 fun b mem => decide_eq_true (cells b mem))

/-- An environment that is there can be captured. -/
theorem lends (found : w.environments[i]? = some env) (allocated : env.Allocated w.heap) : w.Lends i env := by
  refine ⟨ask_some found _, fun before after callDepth maxCallDepth name => ?_⟩
  -- cells are never taken away, so those of the captured bindings are there whenever the call is made
  have cells : ∀ b ∈ env.bindings.toList, b.cell < (w.run before).heap.cells.size := fun b mem =>
    Nat.lt_of_lt_of_le (allocated b (Array.mem_toList_iff.1 mem)) (heap_run w before).2
  rw [step_forCall cells]
  refine ⟨rfl, fun undefined => ?_⟩
  obtain ⟨env', there, lent⟩ := environments_run (w := ⟨_, _⟩) List.getElem?_concat_length
    (Environment.Lent.forCall env.bindings.toList name callDepth maxCallDepth)
    fun a mem cell env lent => lent.effect fun value kind same => undefined value kind (same ▸ mem)
  exact ⟨env', there, lent.find?.trans (env.find?_eq_reverse name).symm⟩

theorem sound_start (h : Heap) (maxCallDepth : Nat) : (start h maxCallDepth).Sound where
  framed := List.forall_mem_singleton.2 (Environment.framed_empty _)
  allocated := List.forall_mem_singleton.2 nofun

end Workspace

/-- Environments on one heap are stacks of scopes that share cells. After any sequence of requests the answers have
been the same, and each environment shows the scopes of its stack; leaving a scope restores what was there, writes
change the cell that is meant and nothing else, and the environment of a call shares the cells of what was captured
for it. -/
theorem environments_refine (h : Heap) (maxCallDepth : Nat) (as : List ScopeRequest) :
    let w := perform Workspace.step (.start h maxCallDepth) as
    let s := perform SharedStacks.step (.start h.cells.toList) as
    w.2 = s.2 ∧ w.1.view = s.1 ∧ w.1.heap = { h with cells := w.1.heap.cells } ∧
      ∀ i env, w.1.environments[i]? = some env →
        (∃ stack, s.1.environments[i]? = some stack ∧ env.Shows w.1.heap stack s.1.cells) ∧
          w.1.Restores i env ∧ w.1.Assigns i env ∧ w.1.Lends i env := by
  intro w s
  have sound := Workspace.sound_start h maxCallDepth
  have same : Prod.map Workspace.view id w = s := Workspace.view_perform sound as
  refine ⟨congrArg Prod.snd same, congrArg Prod.fst same, (Workspace.heap_run _ as).1, fun i env found => ?_⟩
  have allocated := (sound.run as).allocated env (List.mem_of_getElem? found)
  refine ⟨⟨env.stack, ?_, ?_⟩, Workspace.restores found, Workspace.assigns found allocated,
    Workspace.lends found allocated⟩
  · rw [← same]
    show (w.1.environments.map (·.stack))[i]? = _
    rw [List.getElem?_map, found]
    rfl
  · rw [← same]
    exact Environment.shows allocated

/-- A constant hides the captured variable, and leaves it alone, until its scope is left. -/
example : (perform Workspace.step (.start {} 10) [.define 0 "n" .null .let, .capture 0,
    .forCall [⟨"n", 0, .let⟩] 1 10, .define 1 "n" (.bool true) .const, .assign 1 "n" .null, .pop 1,
    .assign 1 "n" .null, .assign 1 "m" .null]).2 =
    [.cell 0, .captured [⟨"n", 0, .let⟩], .made 1, .cell 1, .refused (.immutableBinding "n"), .done, .done,
      .refused (.undefinedVariable "m")] := by
  decide +kernel

end BindScript
