import BindScript.Proofs.Lockstep.Interpreter

/-!
# Code without loops ends

All that code without loops can do to go on for long is to call functions. So a run is over after a number of levels
that can be told when it starts (`Run.levels`): two for each node on the way down through the code of a function, and
this once for each call that the limit of nested calls has room for. With that many levels it makes no difference how
many there are, and no run is exhausted.

This is said of two runs in lockstep over different numbers of levels, neither of which may run out of levels. The
induction is on the smaller number; with each level there is either less code below, or less room for calls.

What a run comes to need not be a result: `a.length = a` breaks the program down (`own_length_returns_nothing`). It
takes an assignment of a value as it is to what may be the length of an array, so code without such assignments
(`NodeRule.lengthless`) gives a value or a failure.
-/

namespace BindScript

namespace NodeRule

/-- No statement is a loop. -/
def loopless : NodeRule where
  stmt t := t.isLoop = false

/-- Nothing is assigned as it is to what may be the length of an array. -/
def lengthless : NodeRule where
  expr e := e.KeepsLengths

/-- No statement is a loop, and no tree is larger than the height. Code that is sound does not break down either. -/
def short (sound : Prop) (height : Nat) : NodeRule where
  expr e := sizeOf e ≤ height ∧ (sound → e.KeepsLengths)
  pattern p := sizeOf p ≤ height
  stmt t := t.isLoop = false ∧ sizeOf t ≤ height

end NodeRule

section Sizes

variable {sound : Prop} {height : Nat}

theorem Node.size_le_of_obeys {x : Node} (obeys : x.Obeys (.short sound height)) : x.size ≤ height := by
  obtain ⟨node, -⟩ := Node.obeys_iff.1 obeys
  cases x with
  | expr e => exact node.1
  | pattern p => exact node
  | stmt t => exact node.2

/-- All parts of a tree are as small as the tree is. -/
theorem Node.obeys_short (x : Node) (obeys : x.Obeys .loopless) (keeps : sound → x.Obeys .lengthless)
    (size : x.size ≤ height) : x.Obeys (.short sound height) := by
  obtain ⟨node, parts⟩ := Node.obeys_iff.1 obeys
  refine Node.obeys_iff.2 ⟨?_, fun y mem => ?_⟩
  · cases x with
    | expr e => exact ⟨size, fun holds => (Node.obeys_iff.1 (keeps holds)).1⟩
    | pattern p => exact size
    | stmt t => exact ⟨node, size⟩
  · have smaller := Node.size_lt_of_mem_children mem
    exact Node.obeys_short y (parts y mem) (fun holds => (Node.obeys_iff.1 (keeps holds)).2 y mem) (by omega)
termination_by x.size
decreasing_by exact smaller

theorem Expr.size_pos (e : Expr) : 0 < sizeOf e := by
  cases e <;> simp

theorem Stmt.size_pos (t : Stmt) : 0 < sizeOf t := by
  cases t <;> simp

end Sizes

/-! ## Levels -/

section Levels

variable {sound : Prop} {height room levels : Nat}

/-- The levels that calls may take, if there is room for so many more of them. -/
def levelsOfCalls (height room : Nat) : Nat :=
  room * (2 * height + 2)

theorem levelsOfCalls_succ : levelsOfCalls height (room + 1) = levelsOfCalls height room + (2 * height + 2) :=
  Nat.succ_mul ..

/-- What is left for a part is enough for one level more than its own, as the links of chains need it. -/
theorem levels_of_part {x y : Node} (enough : levelsOfCalls height room + 2 * x.size ≤ levels + 1)
    (mem : y ∈ x.children) : levelsOfCalls height room + 2 * y.size < levels := by
  have smaller := Node.size_lt_of_mem_children mem
  omega

namespace Lockstep

/-- Two runs of the same code, with room for so many more calls. They never run out of levels, and where their code is
sound they do not break down. -/
def roomFor (ctx : Context) (sound : Prop) (room : Nat) : Lockstep :=
  inOne ctx (fun d k => k ≤ d + room) (fun _ => False) False (¬ sound) nothing_uncaught

/-- Code without loops for which the levels are enough. -/
def Fragment.short (sound : Prop) (height room levels : Nat) : Fragment where
  code x := x.Obeys (.short sound height) ∧ levelsOfCalls height room + 2 * x.size ≤ levels
  chain e := e.Obeys (.short sound height) ∧ levelsOfCalls height room + 2 * sizeOf e < levels
  parts code mem := ⟨(Node.obeys_iff.1 code.1).2 _ mem, (levels_of_part (Nat.le_succ_of_le code.2) mem).le⟩
  links code mem := ⟨(Node.obeys_iff.1 code.1).2 _ mem, levels_of_part (Nat.le_succ_of_le code.2) mem⟩

/-- With one level less there is enough for the parts. -/
theorem Fragment.short_below {x : Node} (obeys : x.Obeys (.short sound height))
    (enough : levelsOfCalls height room + 2 * x.size ≤ levels + 1) :
    (Fragment.short sound height room levels).Below x where
  parts _ mem := ⟨(Node.obeys_iff.1 obeys).2 _ mem, (levels_of_part enough mem).le⟩
  links _ mem := ⟨(Node.obeys_iff.1 obeys).2 _ mem, levels_of_part enough mem⟩

/-- Any two numbers of levels that are enough come to the same. -/
theorem short_interprets (ctx : Context) (sound : Prop) (height levels : Nat) : ∀ room levels₁ levels₂,
    levelsOfCalls height room < levels → levels ≤ levels₁ → levels ≤ levels₂ →
    (roomFor ctx sound room).Interprets (.short sound height room levels)
      (confined ctx (.short sound height) levels₁) (confined ctx (.short sound height) levels₂) := by
  induction levels with
  | zero => exact fun room levels₁ levels₂ enough => absurd enough (Nat.not_lt_zero _)
  | succ levels ih =>
    rintro room (_ | levels₁) (_ | levels₂) enough le₁ le₂
    · omega
    · omega
    · omega
    -- the numbers of levels go down together, and the room for calls may change from one level to the next
    have next : ∀ room, levelsOfCalls height room < levels →
        (roomFor ctx sound room).Interprets (.short sound height room levels)
          (confined ctx (.short sound height) levels₁) (confined ctx (.short sound height) levels₂) :=
      fun room enough => ih room levels₁ levels₂ enough (by omega) (by omega)
    refine ⟨fun e code => ?_, fun e chain => ?_, fun t code => ?_, fun callee args s state => ?_, nofun, nofun⟩
    · have large := e.size_pos
      have size : levelsOfCalls height room + 2 * sizeOf e ≤ levels + 1 := code.2
      have keeps : sound → e.KeepsLengths := (Node.obeys_iff.1 code.1).1.2
      have calm : (roomFor ctx sound room).clashes ∨ e.KeepsLengths := (Classical.em sound).symm.imp_right keeps
      exact Together.exprStep (next room (by omega)) (Fragment.short_below code.1 code.2) calm
    · have large := e.size_pos
      have size : levelsOfCalls height room + 2 * sizeOf e ≤ levels := Nat.le_of_lt_succ chain.2
      have below : (Fragment.short sound height room levels).Below (.expr e) :=
        Fragment.short_below chain.1 (Nat.le_succ_of_le size)
      exact Together.chainStep (next room (by omega)) below fun _ => ⟨chain.1, size⟩
    · have large := t.size_pos
      have size : levelsOfCalls height room + 2 * sizeOf t ≤ levels + 1 := code.2
      have noLoop : t.isLoop = false := (Node.obeys_iff.1 code.1).1.1
      refine Together.stmtStep (next room (by omega)) (Fragment.short_below code.1 code.2) (fun loop => ?_) ?_
      · rw [noLoop] at loop
        cases loop
      · exact fun _ _ _ _ _ _ _ breaks => breaks.elim
    · -- a call changes what there is room for, and the code that comes next has nothing to do with this one
      cases room with
      | zero =>
        -- no call is entered, so nothing is asked of what would be below
        have nowhere : ((roomFor ctx sound 0).deeper (fun _ _ => False) fun _ _ => False.elim).Interprets .all
            (confined ctx (.short sound height) levels₁) (confined ctx (.short sound height) levels₂) :=
          ⟨fun _ _ _ => False.elim, fun _ _ _ => False.elim, fun _ _ _ => False.elim, fun _ _ _ => False.elim,
            False.elim, False.elim⟩
        have full : ∀ d k, (roomFor ctx sound 0).within d k → d < k → False := fun d k within => Nat.not_lt.2 within
        exact Ends.confinedCall (fun _ _ => False.elim) nowhere full state fun _ _ _ _ => trivial
      | succ room =>
        -- the levels of one call are left for the body, whatever its code is
        rw [levelsOfCalls_succ] at enough
        have inside : ∀ d k, (roomFor ctx sound (room + 1)).within d k → d < k →
            (roomFor ctx sound room).within (d + 1) k :=
          fun d k within _ => Nat.le_trans (show k ≤ d + (room + 1) from within) (by omega)
        refine Ends.confinedCall (enters_same _ _) (next room (by omega)) inside state ?_
        intro f obeys y mem
        have body := Function.obeys_iff.1 obeys y mem
        have size := Node.size_le_of_obeys body
        exact ⟨body, by omega⟩

/-- With room for the calls, the second run ends as the first one does. Neither of them is exhausted, and they break
down only where their code is not sound. -/
theorem same_of_ends {s : State} {within : Nat → Nat → Prop} {r₁ r₂ : EStateM.Result Exit State Value}
    {ctx : Context} (ends : (inOne ctx within (fun _ => False) False (¬ sound) nothing_uncaught).Ends s r₁ r₂) :
    r₁ = r₂ ∧ (∀ t, r₁ ≠ .error .exhausted t) ∧ (sound → ∀ t, r₁ ≠ .error .clash t) := by
  cases ends with
  | ok => exact ⟨rfl, nofun, nofun⟩
  | error _ leaves =>
    refine ⟨rfl, fun t same => ?_, fun holds t same => ?_⟩
    · cases same
      exact leaves.exhausted rfl
    · cases same
      exact leaves.clash rfl holds
  | broken breaks => exact breaks.elim

end Lockstep

end Levels

/-! ## Runs -/

namespace Run

variable {ctx : Context} {s : State} {run : Run} {sound : Prop}

/-- The size of all code that there is, in the run and in the heap. -/
noncomputable def codeSize (s : State) (run : Run) : Nat :=
  (run.nodes.map Node.size).sum + (s.heap.closures.toList.map fun c => sizeOf c.definition).sum

/-- How many more calls the code of the run may nest. -/
def room (ctx : Context) (s : State) (run : Run) : Nat :=
  (run.environment ctx s).maxCallDepth - (run.environment ctx s).callDepth

/-- So many levels are enough for a run of code without loops. -/
noncomputable def levels (ctx : Context) (s : State) (run : Run) : Nat :=
  levelsOfCalls (run.codeSize s) (run.room ctx s + 1)

theorem size_le_of_mem_nodes {y : Node} (mem : y ∈ run.nodes) : y.size ≤ run.codeSize s := by
  have single := List.single_le_sum (fun _ _ => Nat.zero_le _) _ (List.mem_map_of_mem (f := Node.size) mem)
  exact Nat.le_trans single (Nat.le_add_right ..)

/-- The code of every closure in the heap counts for the size of a run. -/
theorem size_le_of_mem_closure {c : Nat} {y : Node} (mem : y ∈ (s.heap.closureAt c).definition.nodes) :
    y.size ≤ run.codeSize s := by
  rcases Nat.lt_or_ge c s.heap.closures.size with there | none
  · have found : s.heap.closureAt c = s.heap.closures[c] := by simp [Heap.closureAt, there]
    have listed : s.heap.closureAt c ∈ s.heap.closures.toList := by
      rw [found]
      exact Array.getElem_mem_toList there
    have single := List.single_le_sum (fun _ _ => Nat.zero_le _) _
      (List.mem_map_of_mem (f := fun c : Closure => sizeOf c.definition) listed)
    have below := Function.size_of_nodes mem
    unfold codeSize
    omega
  · rw [show s.heap.closureAt c = default by simp [Heap.closureAt, Nat.not_lt.2 none]] at mem
    cases mem

/-- A rule that allows more names lets a run reach more. -/
theorem Reaches.imp {code code' : NodeRule} {v : Value} (reaches : run.Reaches code ctx s v)
    (names : ∀ id, code.expr (.name id) → code'.expr (.name id)) : run.Reaches code' ctx s v := by
  obtain ⟨start, has, leads⟩ := reaches
  refine ⟨start, ?_, leads⟩
  cases has with
  | locals => exact .locals
  | app => exact .app
  | global named found => exact .global (names _ named) found
  | given mem => exact .given mem
  | bound mem => exact .bound mem

/-- The code of the run obeys the rule, and so does what it can call. -/
def AllObey (code : NodeRule) (ctx : Context) (s : State) (run : Run) : Prop :=
  run.Obeys code ∧ ∀ c, run.Reaches code ctx s (.closure c) → (s.heap.closureAt c).definition.Obeys code

theorem ready_short (loopless : run.AllObey .loopless ctx s) (lengthless : sound → run.AllObey .lengthless ctx s) :
    run.Ready (.short sound (run.codeSize s)) False ctx s where
  obeys := obeys_iff.2 fun y mem =>
    y.obeys_short (obeys_iff.1 loopless.1 y mem) (fun holds => obeys_iff.1 (lengthless holds).1 y mem)
      (size_le_of_mem_nodes mem)
  closures c reaches := by
    have loops := Function.obeys_iff.1 (loopless.2 c (reaches.imp fun _ _ => trivial))
    refine Function.obeys_iff.2 fun y mem => y.obeys_short (loops y mem) (fun holds => ?_) (size_le_of_mem_closure mem)
    exact Function.obeys_iff.1 ((lengthless holds).2 c (reaches.imp fun _ _ => trivial)) y mem
  values := False.elim
  lengths := False.elim
  arguments := False.elim

/-- Once there are enough levels, it makes no difference how many there are. The run is not exhausted, and if its code
is sound it does not break down. -/
theorem same_of_levels_le {levels₁ levels₂ : Nat} (ready : run.Ready (.short sound (run.codeSize s)) False ctx s)
    (enough₁ : run.levels ctx s ≤ levels₁) (enough₂ : run.levels ctx s ≤ levels₂) :
    run.interpreted ctx (interpreter ctx levels₁) s = run.interpreted ctx (interpreter ctx levels₂) s ∧
      (∀ t, run.interpreted ctx (interpreter ctx levels₁) s ≠ .error .exhausted t) ∧
      (sound → ∀ t, run.interpreted ctx (interpreter ctx levels₁) s ≠ .error .clash t) := by
  rw [ready.confined levels₁, ready.confined levels₂]
  have spread : run.levels ctx s = levelsOfCalls (run.codeSize s) (run.room ctx s) + (2 * run.codeSize s + 2) :=
    levelsOfCalls_succ
  have sub := Lockstep.short_interprets ctx sound (run.codeSize s) (run.levels ctx s) (run.room ctx s) levels₁ levels₂
    (by omega) enough₁ enough₂
  have code : ∀ y ∈ run.nodes,
      (Lockstep.Fragment.short sound (run.codeSize s) (run.room ctx s) (run.levels ctx s)).code y := by
    intro y mem
    have obeys := obeys_iff.1 ready.obeys y mem
    have size := Node.size_le_of_obeys obeys
    exact ⟨obeys, by omega⟩
  have fits : (run.environment ctx s).maxCallDepth ≤ (run.environment ctx s).callDepth + run.room ctx s := by
    unfold room
    omega
  -- the state that the run starts from may be at any depth
  let outer : Lockstep := .inOne ctx (fun _ _ => True) (fun _ => False) False (¬ sound) Lockstep.nothing_uncaught
  have ends : outer.Ends s (run.interpreted ctx _ s) (run.interpreted ctx _ s) :=
    Lockstep.Ends.interpreted (Lockstep.enters_same _ _) sub code (fun _ _ _ => trivial) trivial fits rfl
  exact Lockstep.same_of_ends ends

/-- Every run of code without loops ends, if there are no loops in what it can call either: over any number of levels
that is large enough it comes to one and the same end, and this is the end of the run. This end is a value or a failure
if no code assigns a value as it is to what may be the length of an array; otherwise the program may break down. -/
theorem loopless_returns (obeys : run.Obeys .loopless)
    (closures : ∀ c, run.Reaches .loopless ctx s (.closure c) → (s.heap.closureAt c).definition.Obeys .loopless) :
    ∃ r, (∀ t, r ≠ .error .exhausted t) ∧
      (run.AllObey .lengthless ctx s → ∀ t, r ≠ .error .clash t) ∧
      (∀ levels, run.levels ctx s ≤ levels → run.interpreted ctx (interpreter ctx levels) s = r) ∧
      (run.levels ctx s ≤ grantedLevels → run.start ctx s = r) := by
  have ready : run.Ready (.short (run.AllObey .lengthless ctx s) (run.codeSize s)) False ctx s :=
    ready_short ⟨obeys, closures⟩ id
  have same : ∀ levels, run.levels ctx s ≤ levels → run.interpreted ctx (interpreter ctx levels) s =
      run.interpreted ctx (interpreter ctx (run.levels ctx s)) s :=
    fun levels enough => (same_of_levels_le ready enough (Nat.le_refl _)).1
  obtain ⟨-, last, whole⟩ := same_of_levels_le ready (Nat.le_refl _) (Nat.le_refl _)
  refine ⟨_, last, whole, same, fun enough => ?_⟩
  rw [start_eq]
  exact same grantedLevels enough

/-- A function that calls itself without end. It has itself in the variable that it captures. -/
def circularHeap : Heap where
  closures := #[⟨some "f", .mk [] none (.expr (.call (.name "f") [] false)), #[⟨"f", 0, .function⟩]⟩]
  cells := #[.closure 0]

/-- Calling a function that calls itself without end gives a result. -/
theorem loopless_returns_circular :
    let ctx : Context := { locals := .undefined, app := .undefined }
    let s : State := { heap := circularHeap }
    let run := Run.call (.closure 0) []
    ∃ r, (∀ t, r ≠ .error .exhausted t) ∧ (∀ t, r ≠ .error .clash t) ∧
      (∀ levels, run.levels ctx s ≤ levels → run.interpreted ctx (interpreter ctx levels) s = r) ∧
      (run.levels ctx s ≤ grantedLevels → run.start ctx s = r) := by
  intro ctx s run
  have closures (code : NodeRule) (calls : code = .loopless ∨ code = .lengthless) (c : Nat) :
      (circularHeap.closureAt c).definition.Obeys code := by
    cases c with
    | zero => rcases calls with rfl | rfl <;> exact ⟨trivial, trivial, trivial, trivial, trivial⟩
    | succ c =>
      rw [show circularHeap.closureAt (c + 1) = default by simp [Heap.closureAt, circularHeap]]
      rcases calls with rfl | rfl <;> exact ⟨trivial, trivial, trivial⟩
  have obeys : run.Obeys .loopless := trivial
  have closed : ∀ c, run.Reaches .loopless ctx s (.closure c) → (s.heap.closureAt c).definition.Obeys .loopless :=
    fun c _ => closures _ (.inl rfl) c
  obtain ⟨r, last, whole, same, start⟩ := loopless_returns obeys closed
  exact ⟨r, last, whole ⟨trivial, fun c _ => closures _ (.inr rfl) c⟩, same, start⟩

/-- Whether a run has broken down. -/
def brokenDown : EStateM.Result Exit State Value → Bool
  | .error .clash _ => true
  | _ => false

theorem exists_of_brokenDown {r : EStateM.Result Exit State Value} (broken : brokenDown r = true) :
    ∃ t, r = .error .clash t := by
  unfold brokenDown at broken
  split at broken
  · exact ⟨_, rfl⟩
  · cases broken

/-- `let a = ["1"]; a.length = a;` -/
def ownLength : List Stmt :=
  [.declare .let [.mk (.name "a") (some (.array [.literal (.string "1")]))],
    .expr (.assign .assign (.member (.name "a") "length" false) (.name "a"))]

/-- Giving a list its own text for a length is no loop, and yet there is no result. -/
theorem own_length_returns_nothing :
    ¬ ∀ (ctx : Context) (s : State) (run : Run), run.AllObey .loopless ctx s →
      ∃ r, (∀ t, r ≠ .error .exhausted t) ∧ (∀ t, r ≠ .error .clash t) ∧ run.start ctx s = r := by
  intro returns
  have loopless : (Run.program ownLength).Obeys .loopless := by
    simp [Obeys, ownLength, NodeRule.loopless, Stmt.isLoop, Stmt.AllObey, Stmt.Obeys, Declarator.AllObey,
      Declarator.Obeys, Pattern.Obeys, Expr.OptionObeys, Expr.Obeys, Expr.AllObey]
  obtain ⟨r, -, whole, rfl⟩ := returns { locals := .undefined, app := .undefined } {} (.program ownLength)
    ⟨loopless, fun c _ => ⟨trivial, trivial, trivial⟩⟩
  have broken : brokenDown ((Run.program ownLength).start { locals := .undefined, app := .undefined } {}) = true := by
    decide +kernel
  obtain ⟨t, clash⟩ := exists_of_brokenDown broken
  exact whole t clash

end Run

end BindScript
