import BindScript.Environment

/-!
# Environments as stacks of scopes

An environment keeps the bindings of all scopes in one array, and the scopes only as numbers: how many bindings
there were when each of them was entered. Cut at these numbers, the array is a stack of scopes
(`Environment.stack`), and what is done to the environment and asked of it is what is done to the stack and asked
of it.

The numbers only make sense as long as they go down from the length of the array (`Environment.Framed`). A scope
that began beyond the end of the array would lose the binding that is added next; entering, leaving and binding
never lead there.

Theorems:
- `Environment.stack_push`, `stack_pop`, `stack_bind`: changes of the environment are changes of the stack.
- `Environment.find?_stack`: looking through the array from its end finds the most recent binding of the innermost
  scope that has the name.
- `Environment.shows`: all that can be asked of an environment.
-/

namespace BindScript

/-- A stack of scopes: the innermost one, and those around it from the inside out. In each of them the bindings
stand newest first. -/
structure ScopeStack where
  inner : List Binding := []
  outer : List (List Binding) := []
  deriving DecidableEq, Repr

namespace ScopeStack

/-- All scopes, innermost first. -/
def scopes (s : ScopeStack) : List (List Binding) :=
  s.inner :: s.outer

/-- All bindings, newest first. -/
def bindings (s : ScopeStack) : List Binding :=
  s.scopes.flatten

/-- Enters a scope. -/
def push (s : ScopeStack) : ScopeStack :=
  ⟨[], s.scopes⟩

/-- Leaves the innermost scope, unless there is no other. -/
def pop (s : ScopeStack) : ScopeStack :=
  match s.outer with
  | [] => s
  | inner :: outer => ⟨inner, outer⟩

/-- Adds a binding to the innermost scope. -/
def bind (s : ScopeStack) (b : Binding) : ScopeStack :=
  { s with inner := b :: s.inner }

/-- Whether a scope has the name. -/
def binds (scope : List Binding) (name : String) : Bool :=
  scope.any (·.name == name)

/-- The most recent binding of the innermost scope that has the name. -/
def find? (s : ScopeStack) (name : String) : Option Binding :=
  (s.scopes.find? (binds · name)).bind (·.find? (·.name == name))

/-- Bindings, oldest first, cut at the places where inner scopes start, innermost first. -/
def cut (bs : List Binding) : List Nat → ScopeStack
  | [] => ⟨bs.reverse, []⟩
  | start :: outer => ⟨(bs.drop start).reverse, (cut (bs.take start) outer).scopes⟩

/-- The first scope that has the name has the first binding of it. -/
theorem find?_eq (s : ScopeStack) (name : String) : s.find? name = s.bindings.find? (·.name == name) := by
  unfold find? bindings
  induction s.scopes with
  | nil => rfl
  | cons scope scopes ih =>
    rw [List.flatten_cons, List.find?_append, ← ih, List.find?_cons]
    cases has : binds scope name with
    | true =>
      obtain ⟨b, mem, named⟩ := List.any_eq_true.1 has
      have found : (scope.find? (·.name == name)).isSome := List.find?_isSome.2 ⟨b, mem, named⟩
      obtain ⟨b', first⟩ := Option.isSome_iff_exists.1 found
      simp [first]
    | false =>
      have missing : scope.find? (·.name == name) = none :=
        List.find?_eq_none.2 fun b mem => by simpa using List.any_eq_false.1 has b mem
      simp [missing]

theorem bindings_cut (bs : List Binding) (frames : List Nat) : (cut bs frames).bindings = bs.reverse := by
  induction frames generalizing bs with
  | nil => exact List.append_nil _
  | cons start outer ih =>
    show (bs.drop start).reverse ++ (cut (bs.take start) outer).bindings = bs.reverse
    rw [ih, ← List.reverse_append, List.take_append_drop]

theorem length_scopes_cut (bs : List Binding) (frames : List Nat) :
    (cut bs frames).scopes.length = frames.length + 1 := by
  induction frames generalizing bs with
  | nil => rfl
  | cons start outer ih => exact congrArg (· + 1) (ih _)

end ScopeStack

namespace Environment

variable {env : Environment}

/-- The scopes of an environment. -/
def stack (env : Environment) : ScopeStack :=
  .cut env.bindings.toList env.frames

/-- Scopes start inside the ones around them, and none beyond the end. -/
def Framed (env : Environment) : Prop :=
  (env.bindings.size :: env.frames).Pairwise (· ≥ ·)

/-! ## Changes -/

theorem stack_push (env : Environment) : env.push.stack = env.stack.push := by
  show ScopeStack.cut env.bindings.toList (env.bindings.size :: env.frames) = _
  unfold ScopeStack.cut
  rw [← Array.length_toList, List.drop_length, List.take_length]
  rfl

/-- Leaving a scope takes the top off the stack. -/
theorem stack_pop (env : Environment) : env.pop.stack = env.stack.pop := by
  unfold stack pop
  cases frames : env.frames with
  | nil =>
    dsimp only
    rw [frames]
    rfl
  | cons start outer =>
    dsimp only
    rw [Array.toList_shrink]
    rfl

theorem Framed.start_le (framed : env.Framed) : env.frameStart ≤ env.bindings.size := by
  unfold frameStart
  cases frames : env.frames with
  | nil => exact Nat.zero_le _
  | cons start outer =>
    unfold Framed at framed
    rw [frames] at framed
    exact List.rel_of_pairwise_cons framed (List.mem_cons_self ..)

theorem stack_bind (framed : env.Framed) (name : String) (cell : Nat) (kind : BindingKind) :
    (env.bind name cell kind).stack = env.stack.bind ⟨name, cell, kind⟩ := by
  have inside := framed.start_le
  unfold stack bind
  unfold frameStart at inside
  cases frames : env.frames with
  | nil => simp [ScopeStack.cut, ScopeStack.bind]
  | cons start outer =>
    rw [frames, List.headD_cons, ← Array.length_toList] at inside
    simp [ScopeStack.cut, ScopeStack.bind, List.drop_append_of_le_length inside,
      List.take_append_of_le_length inside]

theorem framed_empty (maxCallDepth : Nat) : (empty maxCallDepth).Framed :=
  List.pairwise_singleton _ _

theorem framed_forCall (captured : Array Binding) (callDepth maxCallDepth : Nat) :
    (forCall captured callDepth maxCallDepth).Framed :=
  List.pairwise_pair.2 (Nat.le_refl _)

theorem stack_forCall (captured : Array Binding) (callDepth maxCallDepth : Nat) :
    (forCall captured callDepth maxCallDepth).stack = ⟨[], [captured.toList.reverse]⟩ := by
  show ScopeStack.cut captured.toList [captured.size] = _
  unfold ScopeStack.cut
  rw [← Array.length_toList, List.drop_length, List.take_length]
  rfl

theorem Framed.push (framed : env.Framed) : env.push.Framed := by
  refine List.pairwise_cons.2 ⟨fun start mem => ?_, framed⟩
  rcases List.mem_cons.1 mem with rfl | mem
  · exact Nat.le_refl _
  · exact List.rel_of_pairwise_cons framed mem

/-- Without the innermost scope, the marks of the others are still in order. -/
theorem Framed.pop (framed : env.Framed) : env.pop.Framed := by
  unfold Environment.pop
  cases frames : env.frames with
  | nil => exact framed
  | cons start outer =>
    have inside := framed.start_le
    unfold frameStart at inside
    rw [frames, List.headD_cons] at inside
    unfold Framed at framed
    rw [frames] at framed
    show ((env.bindings.shrink start).size :: outer).Pairwise (· ≥ ·)
    rw [Array.size_shrink, Nat.min_eq_left inside]
    exact (List.pairwise_cons.1 framed).2

theorem Framed.bind (framed : env.Framed) (name : String) (cell : Nat) (kind : BindingKind) :
    (env.bind name cell kind).Framed := by
  obtain ⟨inside, outer⟩ := List.pairwise_cons.1 framed
  refine List.pairwise_cons.2 ⟨fun start mem => ?_, outer⟩
  show start ≤ (env.bindings.push _).size
  rw [Array.size_push]
  exact Nat.le_succ_of_le (inside start mem)

/-! ## Questions -/

theorem bindings_stack (env : Environment) : env.stack.bindings = env.bindings.toList.reverse :=
  ScopeStack.bindings_cut _ _

theorem find?_eq_reverse (env : Environment) (name : String) :
    env.find? name = env.bindings.toList.reverse.find? (·.name == name) := by
  rw [find?, Array.findRev?_eq_find?_reverse, ← Array.find?_toList, Array.toList_reverse]

theorem find?_stack (env : Environment) (name : String) : env.stack.find? name = env.find? name := by
  rw [ScopeStack.find?_eq, bindings_stack, find?_eq_reverse]

theorem inner_stack (env : Environment) : env.stack.inner = env.currentScope.reverse := by
  unfold stack currentScope frameStart
  cases env.frames with
  | nil => rfl
  | cons start outer => rfl

/-- A name is in the innermost scope if it is among its bindings. -/
theorem containsInScope_eq_any (env : Environment) (name : String) :
    env.containsInScope name = env.currentScope.any (·.name == name) := by
  unfold containsInScope currentScope
  rw [Bool.eq_iff_iff, Array.any_iff_exists, List.any_eq_true]
  constructor
  · rintro ⟨i, inside, start, -, named⟩
    refine ⟨env.bindings[i], List.mem_drop_iff_getElem.2 ⟨i - env.frameStart, ?_, ?_⟩, named⟩
    · rw [Array.length_toList]
      omega
    · simp [Nat.add_sub_cancel' start]
  · rintro ⟨b, mem, named⟩
    obtain ⟨i, inside, rfl⟩ := List.mem_drop_iff_getElem.1 mem
    rw [Array.length_toList] at inside
    exact ⟨env.frameStart + i, by omega, Nat.le_add_right _ _, by omega, named⟩

theorem containsInScope_stack (env : Environment) (name : String) :
    env.containsInScope name = ScopeStack.binds env.stack.inner name := by
  rw [containsInScope_eq_any, inner_stack, ScopeStack.binds, List.any_reverse]

/-- An assignment is refused if the name is not bound, or constant. -/
theorem assign_eq (env : Environment) (h : Heap) (name : String) (value : Value) :
    env.assign h name value = match env.find? name with
      | none => .error (.undefinedVariable name)
      | some b => if b.kind = .const then .error (.immutableBinding name) else .ok (h.setCell b.cell value) := by
  unfold assign assignable
  cases env.find? name with
  | none => rfl
  | some b =>
    by_cases const : b.kind = .const
    · simp only [BindingKind.isMutable, const]
      rfl
    · have mutable : b.kind.isMutable = true := by simpa [BindingKind.isMutable] using const
      simp only [mutable, const, if_true, if_false]
      rfl

/-- What there is to be seen of an environment is the stack of scopes: a name means the most recent binding of the
innermost scope that has it, and the current scope is the innermost one. -/
structure Shows (env : Environment) (h : Heap) (s : ScopeStack) (cells : List Value) : Prop where
  find? : ∀ name, env.find? name = s.find? name
  get? : ∀ name, env.get? h name = (s.find? name).bind (cells[·.cell]?)
  contains : ∀ name, env.contains name = (s.find? name).isSome
  containsInScope : ∀ name, env.containsInScope name = ScopeStack.binds s.inner name
  namesInScope : env.namesInScope = (s.inner.map (·.name)).reverse
  depth : env.depth = s.scopes.length
  isGlobalScope : env.isGlobalScope = s.outer.isEmpty

/-- All bindings have cells in the heap. -/
def Allocated (env : Environment) (h : Heap) : Prop :=
  ∀ b ∈ env.bindings, b.cell < h.cells.size

theorem mem_of_find? {name : String} {b : Binding} (found : env.find? name = some b) : b ∈ env.bindings := by
  rw [find?_eq_reverse] at found
  exact Array.mem_toList_iff.1 (List.mem_reverse.1 (List.mem_of_find?_eq_some found))

theorem Allocated.mono {h h' : Heap} (allocated : env.Allocated h) (grown : h.cells.size ≤ h'.cells.size) :
    env.Allocated h' :=
  fun b mem => Nat.lt_of_lt_of_le (allocated b mem) grown

theorem Allocated.pop {h : Heap} (allocated : env.Allocated h) : env.pop.Allocated h := by
  intro b mem
  unfold Environment.pop at mem
  split at mem
  · exact allocated b mem
  · rw [← Array.mem_toList_iff, Array.toList_shrink] at mem
    exact allocated b (Array.mem_toList_iff.1 (List.mem_of_mem_take mem))

theorem Allocated.bind {h : Heap} (allocated : env.Allocated h) {cell : Nat} (inside : cell < h.cells.size)
    (name : String) (kind : BindingKind) : (env.bind name cell kind).Allocated h := by
  intro b mem
  rcases Array.mem_push.1 mem with mem | rfl
  · exact allocated b mem
  · exact inside

/-- The environment answers as the stack of its scopes does, with the values of the cells. -/
theorem shows {h : Heap} (allocated : env.Allocated h) : env.Shows h env.stack h.cells.toList where
  find? name := (env.find?_stack name).symm
  get? name := by
    rw [find?_stack, Environment.get?]
    cases found : env.find? name with
    | none => rfl
    | some b =>
      have inside : b.cell < h.cells.size := allocated b (mem_of_find? found)
      simp [Heap.cellAt, inside]
  contains name := by rw [find?_stack, Environment.contains]
  containsInScope := env.containsInScope_stack
  namesInScope := by rw [inner_stack, Environment.namesInScope, List.map_reverse, List.reverse_reverse]
  depth := (ScopeStack.length_scopes_cut _ _).symm
  isGlobalScope := by
    unfold Environment.isGlobalScope stack
    cases env.frames with
    | nil => rfl
    | cons start outer => rfl

end Environment

end BindScript
