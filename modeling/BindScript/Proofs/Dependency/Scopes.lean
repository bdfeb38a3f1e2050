import BindScript.Proofs.Dependency.Watchable

/-!
# What a walk does to its scopes

A walk over an expression leaves the scopes as they were. A walk over a statement, which stands in the
body of a function, may add names to the innermost scope and names of `var` to that of the body
(`Scopes.Grow`). `Walk.Covers` adds to this what the dependencies that are found say about the code, and
is put together step by step along the walk.
-/

namespace BindScript.Dependency

/-! ## Which scopes are those of function bodies -/

namespace Scopes

theorem inFunction_eq_of_marks {s s' : Scopes}
    (marks : s'.map (fun scope => scope.isFunction) = s.map fun scope => scope.isFunction) :
    s'.inFunction = s.inFunction := by
  have marked : ∀ scopes : Scopes, scopes.inFunction = (scopes.map fun s => s.isFunction).any id := fun scopes => by
    simp [Scopes.inFunction, List.any_map]
  rw [marked, marked, marks]

theorem marks_declare (name : String) (s : Scopes) :
    (s.declare name).map (fun scope => scope.isFunction) = s.map fun scope => scope.isFunction := by
  cases s <;> rfl

theorem marks_declareInFunction (name : String) (s : Scopes) :
    (s.declareInFunction name).map (fun scope => scope.isFunction) = s.map fun scope => scope.isFunction := by
  induction s with
  | nil => rfl
  | cons scope outer ih =>
    unfold Scopes.declareInFunction
    split
    · rfl
    · exact congrArg (_ :: ·) ih

end Scopes

/-! ## Scopes inside a function body -/

/-- Scopes that end in those of a function body have grown: the innermost one by some of the names `here`,
the others up to the function body by some of the names `vars`. -/
inductive Scopes.Grow : List String → List String → Scopes → Scopes → Prop
  | function {here vars before after : List String} {outer : Scopes}
    (grown : ∀ n ∈ after, n ∈ before ∨ n ∈ here) :
    Scopes.Grow here vars (⟨true, before⟩ :: outer) (⟨true, after⟩ :: outer)
  | block {here vars before after : List String} {outer outer' : Scopes}
    (grown : ∀ n ∈ after, n ∈ before ∨ n ∈ here) (outside : Scopes.Grow vars vars outer outer') :
    Scopes.Grow here vars (⟨false, before⟩ :: outer) (⟨false, after⟩ :: outer')

namespace Scopes

variable {here vars : List String} {s s' t : Scopes} {name : String}

theorem isBound_cons (scope : Scope) (outer : Scopes) (name : String) :
    isBound (scope :: outer) name = true ↔ name ∈ scope.names ∨ isBound outer name = true := by
  simp [isBound]

theorem Grow.refl (inside : s.inFunction = true) (here vars : List String) : Grow here vars s s := by
  induction s generalizing here with
  | nil => cases inside
  | cons scope outer ih =>
    obtain ⟨isFunction, names⟩ := scope
    cases isFunction with
    | true => exact .function fun _ mem => .inl mem
    | false => exact .block (fun _ mem => .inl mem) (ih inside vars)

theorem Grow.inFunction (grow : Grow here vars s s') : s'.inFunction = true := by
  induction grow with
  | function => rfl
  | block _ _ ih => exact ih

/-- The second growth adds its names to the scopes that the first one left. -/
theorem Grow.trans (first : Grow here vars s s') (second : Grow here vars s' t) :
    Grow here vars s t := by
  induction first generalizing t with
  | function grown =>
    cases second with
    | function again =>
      refine .function fun n mem => ?_
      rcases again n mem with old | new
      · exact grown n old
      · exact .inr new
  | block grown _ ih =>
    cases second with
    | block again outside =>
      refine .block (fun n mem => ?_) (ih outside)
      rcases again n mem with old | new
      · exact grown n old
      · exact .inr new

theorem Grow.mono {here' : List String} (grow : Grow here vars s s')
    (sub : ∀ n ∈ here, n ∈ here') : Grow here' vars s s' := by
  cases grow with
  | function grown => exact .function fun n mem => (grown n mem).imp_right (sub n)
  | block grown outside => exact .block (fun n mem => (grown n mem).imp_right (sub n)) outside

/-- What has become bound was among the names. -/
theorem Grow.isBound (grow : Grow here vars s s') (sub : ∀ n ∈ vars, n ∈ here)
    (bound : s'.isBound name = true) : s.isBound name = true ∨ name ∈ here := by
  induction grow with
  | function grown =>
    rw [isBound_cons] at bound ⊢
    rcases bound with new | old
    · exact (grown name new).imp_left .inl
    · exact .inl (.inr old)
  | block grown _ ih =>
    rw [isBound_cons] at bound ⊢
    rcases bound with new | old
    · exact (grown name new).imp_left .inl
    · rcases ih (fun _ mem => mem) old with older | var
      · exact .inl (.inr older)
      · exact .inr (sub name var)

/-- Declaring one of the names that may be bound here adds it to the innermost scope and nothing else. -/
theorem Grow.declare (inside : s.inFunction = true) (mem : name ∈ here) :
    Grow here vars s (s.declare name) := by
  have grown : ∀ {names : List String}, ∀ n ∈ name :: names, n ∈ names ∨ n ∈ here := by
    intro names n declared
    rcases List.mem_cons.1 declared with rfl | old
    · exact .inr mem
    · exact .inl old
  rcases s with _ | ⟨⟨isFunction, names⟩, outer⟩
  · cases inside
  · cases isFunction with
    | true => exact .function grown
    | false =>
      have inside : Scopes.inFunction outer = true := inside
      exact .block grown (.refl inside vars vars)

theorem Grow.declareInFunction (inside : s.inFunction = true) (mem : name ∈ vars)
    (sub : ∀ n ∈ vars, n ∈ here) : Grow here vars s (s.declareInFunction name) := by
  induction s generalizing here with
  | nil => cases inside
  | cons scope outer ih =>
    obtain ⟨isFunction, names⟩ := scope
    cases isFunction with
    | true =>
      refine .function fun n declared => ?_
      rcases List.mem_cons.1 declared with rfl | old
      · exact .inr (sub _ mem)
      · exact .inl old
    | false => exact .block (fun _ mem => .inl mem) (ih inside fun _ mem => mem)

/-- A block is left with only names of `var` added outside of it. -/
theorem Grow.leave {names : List String} (grow : Grow here vars (⟨false, names⟩ :: s) s') :
    Grow vars vars s (s'.drop 1) := by
  cases grow with
  | block _ outside => exact outside

/-- A function is left with nothing added outside of it. -/
theorem Grow.leave_function {names : List String} (grow : Grow here vars (⟨true, names⟩ :: s) s') :
    s'.drop 1 = s := by
  cases grow with
  | function => rfl

end Scopes

/-! ## Steps of a walk -/

namespace Walk

/-- A step of a walk changes the scopes as `R` says, forgets no dependency, and finds enough of them for
`P`. -/
structure Covers (R : Scopes → Scopes → Prop) (dependencies : List String) (w w' : Walk) (P : Prop) :
    Prop where
  scopes : R w.scopes w'.scopes
  keeps : ∀ d ∈ w.found.dependencies, d ∈ w'.found.dependencies
  finds : (∀ d ∈ w'.found.dependencies, d ∈ dependencies) → P

/-- Every name that the walk takes for bound is bound in an evaluation, or pending. -/
def Sees (w : Walk) (bound pending : List String) : Prop :=
  ∀ n, w.scopes.isBound n = true → n ∈ bound ∨ n ∈ pending

variable {R : Scopes → Scopes → Prop} {deps bound pending here vars : List String} {w w' w'' : Walk}
  {P Q : Prop}

namespace Covers

theorem imp (covers : Covers R deps w w' P) (implies : P → Q) : Covers R deps w w' Q :=
  ⟨covers.scopes, covers.keeps, fun within => implies (covers.finds within)⟩

theorem stay (holds : P) : Covers Eq deps w w P :=
  ⟨rfl, fun _ mem => mem, fun _ => holds⟩

/-- One step after another, for steps that change the scopes in ways that add up. -/
theorem trans (adds : ∀ s s' t, R s s' → R s' t → R s t) (first : Covers R deps w w' P)
    (second : Covers R deps w' w'' Q) : Covers R deps w w'' (P ∧ Q) where
  scopes := adds _ _ _ first.scopes second.scopes
  keeps d mem := second.keeps d (first.keeps d mem)
  finds within := ⟨first.finds fun d mem => within d (second.keeps d mem), second.finds within⟩

/-- A step that leaves the scopes as they are, inside a function body. -/
theorem grow (covers : Covers Eq deps w w' P) (inside : w.scopes.inFunction = true) :
    Covers (Scopes.Grow here vars) deps w w' P :=
  ⟨covers.scopes ▸ .refl inside here vars, covers.keeps, covers.finds⟩

theorem mono {here' : List String} (covers : Covers (Scopes.Grow here vars) deps w w' P)
    (sub : ∀ n ∈ here, n ∈ here') : Covers (Scopes.Grow here' vars) deps w w' P :=
  ⟨covers.scopes.mono sub, covers.keeps, covers.finds⟩

/-- A step inside a function, seen from outside. -/
theorem inFunction {visit : Walk → Walk}
    (covers : Covers (Scopes.Grow here vars) deps { w with scopes := { isFunction := true } :: w.scopes }
      (visit { w with scopes := { isFunction := true } :: w.scopes }) P) :
    Covers Eq deps w (w.inScope true visit) P :=
  ⟨covers.scopes.leave_function.symm, covers.keeps, covers.finds⟩

/-- A step inside a block, seen from outside. -/
theorem inBlock {visit : Walk → Walk}
    (covers : Covers (Scopes.Grow here vars) deps { w with scopes := { isFunction := false } :: w.scopes }
      (visit { w with scopes := { isFunction := false } :: w.scopes }) P) :
    Covers (Scopes.Grow vars vars) deps w (w.inScope false visit) P :=
  ⟨covers.scopes.leave, covers.keeps, covers.finds⟩

end Covers

/-! ## Names -/

theorem Sees.later (sees : w.Sees bound pending) (same : w.scopes = w'.scopes) :
    w'.Sees bound pending :=
  fun n isBound => sees n (same ▸ isBound)

theorem Sees.grown (sees : w.Sees bound pending) (grow : Scopes.Grow here vars w.scopes w'.scopes)
    (sub : ∀ n ∈ vars, n ∈ here) (bind : ∀ n ∈ here, n ∈ bound) : w'.Sees bound pending := by
  intro n isBound
  rcases grow.isBound sub isBound with old | new
  · exact sees n old
  · exact .inl (bind n new)

theorem Sees.mono {bound' pending' : List String} (sees : w.Sees bound pending)
    (sub : ∀ n ∈ bound, n ∈ bound') (sub' : ∀ n ∈ pending, n ∈ bound' ∨ n ∈ pending') :
    w.Sees bound' pending' := by
  intro n isBound
  rcases sees n isBound with mem | mem
  · exact .inl (sub n mem)
  · exact sub' n mem

/-- One step after another, in the same scopes. -/
theorem Covers.both (first : Covers Eq deps w w' P) (second : Covers Eq deps w' w'' Q) :
    Covers Eq deps w w'' (P ∧ Q) :=
  first.trans (fun _ _ _ => Eq.trans) second

theorem Covers.andThen (first : Covers Eq deps w w' P) (sees : w.Sees bound pending)
    (second : w'.Sees bound pending → Covers Eq deps w' w'' Q) : Covers Eq deps w w'' (P ∧ Q) :=
  first.both (second (sees.later first.scopes))

/-- An element of a pattern: the walk looks into its target before it looks at its default. -/
theorem Covers.element {w₃ : Walk} {P' : Prop} (target : Covers Eq deps w w' P)
    (sees : w.Sees bound pending) (default : w'.Sees bound pending → Covers Eq deps w' w'' Q)
    (rest : w''.Sees bound pending → Covers Eq deps w'' w₃ P') : Covers Eq deps w w₃ (Q ∧ P ∧ P') := by
  have both := target.andThen sees default
  exact (both.andThen sees rest).imp fun ⟨⟨onTarget, onDefault⟩, onRest⟩ => ⟨onDefault, onTarget, onRest⟩

/-- One step after another, in scopes that grow. -/
theorem Covers.next (first : Covers (Scopes.Grow here vars) deps w w' P)
    (second : Covers (Scopes.Grow here vars) deps w' w'' Q) :
    Covers (Scopes.Grow here vars) deps w w'' (P ∧ Q) :=
  first.trans (fun _ _ _ => Scopes.Grow.trans) second

theorem Sees.enter (sees : w.Sees bound pending) (isFunction : Bool) :
    { w with scopes := { isFunction } :: w.scopes }.Sees bound pending := by
  intro n isBound
  rcases (Scopes.isBound_cons _ _ _).1 isBound with none | old
  · cases none
  · exact sees n old

theorem addDependency_covers (w : Walk) {root dependency : String}
    (watches : dependency ∈ deps → P) : Covers Eq deps w (w.addDependency root dependency) P where
  scopes := rfl
  keeps _ mem := mem_insertNew.2 (.inl mem)
  finds within := watches (within dependency (mem_insertNew.2 (.inr rfl)))

/-- A name that is read is bound, or it becomes a dependency. -/
theorem useName_covers {id : String} (sees : w.Sees bound pending) (word : isWord id = true)
    (settled : id ∈ pending → id ∈ bound) :
    Covers Eq deps w (w.useName id) (id ∈ bound ∨ Watches deps id) := by
  unfold useName
  by_cases isBound : w.scopes.isBound id = true
  · rw [if_pos isBound]
    exact .stay (.inl ((sees id isBound).elim (fun mem => mem) settled))
  · rw [if_neg isBound]
    refine addDependency_covers w fun mem => .inr ⟨{ root := id }, ⟨word, nofun⟩, ?_, .inl rfl⟩
    simpa [Path.text] using mem

/-- Variables that are keys become dependencies of their own, or are bound. -/
theorem useNames_covers {names : List String} (sees : w.Sees bound pending)
    (spelled : ∀ n ∈ names, isWord n = true ∧ (n ∈ pending → n ∈ bound)) :
    Covers Eq deps w (names.foldl useName w) (∀ n ∈ names, n ∈ bound ∨ Watches deps n) := by
  induction names generalizing w with
  | nil => exact .stay nofun
  | cons n rest ih =>
    obtain ⟨word, settled⟩ := spelled n (List.mem_cons_self ..)
    refine ((useName_covers sees word settled).andThen sees fun sees => ?_).imp
      fun both => List.forall_mem_cons.2 both
    exact ih sees fun m mem => spelled m (List.mem_cons_of_mem _ mem)

/-- A path that is read is one dependency, and its root and its variables are covered by it. -/
theorem usePath_covers {path : Path} (sees : w.Sees bound pending) (spelled : path.Spelled)
    (settled : path.root ∈ pending → path.root ∈ bound)
    (keys : ∀ n ∈ path.keyNames, n ∈ pending → n ∈ bound) :
    Covers Eq deps w (w.usePath path) ((path.root ∈ bound ∨ Watches deps path.root) ∧
      ∀ n ∈ path.keyNames, n ∈ bound ∨ Watches deps n) := by
  unfold usePath
  by_cases isBound : w.scopes.isBound path.root = true
  · rw [if_pos isBound]
    have root : path.root ∈ bound := (sees _ isBound).elim (fun mem => mem) settled
    exact (useNames_covers sees fun n mem => ⟨spelled.2 n mem, keys n mem⟩).imp
      fun covered => ⟨.inl root, covered⟩
  · rw [if_neg isBound]
    refine addDependency_covers w fun mem => ?_
    exact ⟨.inr ⟨path, spelled, mem, .inl rfl⟩, fun n key => .inr ⟨path, spelled, mem, .inr key⟩⟩

end Walk

/-! ## Paths of chains -/

theorem keyNames_push_property (path : Path) (key : String) :
    (path.push (.property key)).keyNames = path.keyNames := by
  simp [Path.keyNames, Path.push]

theorem keyNames_push_nameKey (path : Path) (name : String) :
    (path.push (.nameKey name)).keyNames = path.keyNames ++ [name] := by
  simp [Path.keyNames, Path.push]

/-- What a chain with a folded key consists of. -/
theorem fold?_index {isBound : String → Bool} {object key : Expr} {optional : Bool} {path : Path}
    (folds : fold? isBound (.index object key optional) = some path) :
    ∃ segment start, foldKey? isBound key = some segment ∧ fold? isBound object = some start ∧
      path = start.push segment := by
  simp only [fold?] at folds
  obtain ⟨segment, isKey, folds⟩ := Option.bind_eq_some_iff.1 folds
  obtain ⟨start, isPath, folds⟩ := Option.bind_eq_some_iff.1 folds
  exact ⟨segment, start, isKey, isPath, (Option.some.inj folds).symm⟩

/-- A key that folds is a fixed one or a variable. -/
theorem foldKey?_cases {isBound : String → Bool} {key : Expr} {segment : Segment}
    (folds : foldKey? isBound key = some segment) :
    (∃ l text, key = .literal l ∧ segment = .property text) ∨
      ∃ name, key = .name name ∧ segment = .nameKey name := by
  unfold foldKey? at folds
  split at folds
  · exact .inl ⟨_, _, rfl, (Option.some.inj folds).symm⟩
  · exact .inl ⟨_, _, rfl, (Option.some.inj folds).symm⟩
  · split at folds
    · cases folds
    · exact .inr ⟨_, rfl, (Option.some.inj folds).symm⟩
  · cases folds

/-- The variables of the path that a chain folds into are those of the chain. -/
theorem fold?_spelled {isBound : String → Bool} {bound pending : List String} :
    ∀ {e : Expr} {path : Path}, fold? isBound e = some path → e.Watchable bound pending →
      path.Spelled ∧ (path.root ∈ pending → path.root ∈ bound) ∧
        ∀ n ∈ path.keyNames, n ∈ pending → n ∈ bound
  | .name name, path, folds, watchable => by
    obtain rfl := Option.some.inj folds
    exact ⟨⟨watchable.1, nofun⟩, watchable.2, nofun⟩
  | .member object property _, path, folds, watchable => by
    obtain ⟨start, isPath, rfl⟩ := Option.map_eq_some_iff.1 folds
    obtain ⟨⟨word, words⟩, settled, keys⟩ := fold?_spelled isPath watchable
    rw [Path.Spelled, keyNames_push_property]
    exact ⟨⟨word, words⟩, settled, keys⟩
  | .index object key optional, path, folds, watchable => by
    unfold Expr.Watchable at watchable
    obtain ⟨objectWatchable, keyWatchable⟩ := watchable
    obtain ⟨segment, start, isKey, isPath, rfl⟩ := fold?_index folds
    obtain ⟨⟨word, words⟩, settled, keys⟩ := fold?_spelled isPath objectWatchable
    rcases foldKey?_cases isKey with ⟨l, text, rfl, rfl⟩ | ⟨name, rfl, rfl⟩
    · rw [Path.Spelled, keyNames_push_property]
      exact ⟨⟨word, words⟩, settled, keys⟩
    · unfold Expr.Watchable at keyWatchable
      rw [Path.Spelled, keyNames_push_nameKey, List.forall_mem_append, List.forall_mem_append]
      exact ⟨⟨word, words, List.forall_mem_singleton.2 keyWatchable.1⟩, settled, keys,
        List.forall_mem_singleton.2 keyWatchable.2⟩

/-- A chain reads no more than the variables of its path. -/
theorem fold?_within {isBound : String → Bool} {A : Access} {bound : List String} :
    ∀ {e : Expr} {path : Path}, fold? isBound e = some path → path.root ∈ bound ∨ A.reads path.root →
      (∀ n ∈ path.keyNames, n ∈ bound ∨ A.reads n) → e.Within A bound
  | .name name, path, folds, root, _ => by
    obtain rfl := Option.some.inj folds
    exact root
  | .member object property _, path, folds, root, keys => by
    obtain ⟨start, isPath, rfl⟩ := Option.map_eq_some_iff.1 folds
    rw [keyNames_push_property] at keys
    have inner : object.Within A bound := fold?_within isPath root keys
    exact inner
  | .index object key optional, path, folds, root, keys => by
    obtain ⟨segment, start, isKey, isPath, rfl⟩ := fold?_index folds
    unfold Expr.Within
    rcases foldKey?_cases isKey with ⟨l, text, rfl, rfl⟩ | ⟨name, rfl, rfl⟩
    · rw [keyNames_push_property] at keys
      exact ⟨fold?_within isPath root keys, trivial⟩
    · rw [keyNames_push_nameKey, List.forall_mem_append] at keys
      exact ⟨fold?_within isPath root keys.1, keys.2 name (List.mem_singleton_self _)⟩

end BindScript.Dependency
