import BindScript.Proofs.Composed.BuiltIn

/-!
# Steps of a watched run

The primitive steps follow themselves, and so does what is put together from steps that follow one another: one lemma
for each way in which an evaluation joins steps. Most steps declare nothing; where two of them do, one after the other,
they have to declare different names (`Ends.bind`), for the second one might give the marked cell another value.
-/

namespace BindScript

/-! ## Scopes -/

namespace Environment

theorem Adds.refl (env : Environment) : env.Adds env [] :=
  ⟨(List.append_nil _).symm, rfl, rfl, rfl, fun _ => (List.append_nil _).symm⟩

theorem Adds.trans {a b c : Environment} {first second : List Binding} (one : a.Adds b first) (two : b.Adds c second) :
    a.Adds c (first ++ second) where
  bindings := by rw [two.bindings, one.bindings, List.append_assoc]
  frames := two.frames.trans one.frames
  callDepth := two.callDepth.trans one.callDepth
  maxCallDepth := two.maxCallDepth.trans one.maxCallDepth
  innermost inside := by
    have start : b.frameStart = a.frameStart := by simp only [frameStart, one.frames]
    have longer : b.bindings.size = a.bindings.size + first.length := by
      simpa using congrArg List.length one.bindings
    rw [two.innermost (by omega), one.innermost inside, List.append_assoc]

theorem Adds.grows {env env' : Environment} {added : List Binding} (adds : env.Adds env' added) : env.Grows env' :=
  ⟨adds.frames, adds.callDepth, adds.maxCallDepth, ⟨added, adds.bindings.symm⟩⟩

theorem adds_bind (env : Environment) (name : String) (cell : Nat) (kind : BindingKind) :
    env.Adds (env.bind name cell kind) [⟨name, cell, kind⟩] := by
  obtain ⟨added, adds⟩ := (grows_bind env name cell kind).adds
  have same : added = [⟨name, cell, kind⟩] := by
    have bindings := adds.bindings
    simpa [bind] using bindings.symm
  exact same ▸ adds

/-- Where nothing has been added, the scopes are the same. -/
theorem Adds.eq {env env' : Environment} (adds : env.Adds env' []) : env' = env := by
  have bindings : env'.bindings = env.bindings := Array.toList_inj.1 (adds.bindings.trans (List.append_nil _))
  obtain ⟨_, _, _, _⟩ := env
  obtain ⟨_, _, _, _⟩ := env'
  simp only [mk.injEq]
  exact ⟨bindings, adds.frames, adds.callDepth, adds.maxCallDepth⟩

/-- The innermost scope has no bindings yet. -/
def Fresh (env : Environment) : Prop :=
  env.frameStart = env.bindings.size

theorem fresh_push (env : Environment) : env.push.Fresh :=
  rfl

theorem fresh_empty (limit : Nat) : (empty limit).Fresh :=
  rfl

theorem fresh_forCall (captured : Array Binding) (depth limit : Nat) : (forCall captured depth limit).Fresh :=
  rfl

theorem Fresh.currentScope {env : Environment} (fresh : env.Fresh) : env.currentScope = [] := by
  rw [Environment.currentScope, fresh]
  exact List.drop_eq_nil_of_le (by simp)

theorem mem_bindings_of_mem_currentScope {env : Environment} {b : Binding} (mem : b ∈ env.currentScope) :
    b ∈ env.bindings.toList :=
  List.mem_of_mem_drop mem

end Environment

variable {X Y Z : Declared} {s t u : State} {cell : Nat} {value : Value}

theorem Declared.names_append : Declared.names (X ++ Y) = X.names ++ Y.names :=
  List.map_append

theorem Declared.mem_names {name : String} {kind : BindingKind} (mem : (name, kind) ∈ X) : name ∈ X.names :=
  List.mem_map_of_mem mem

theorem Declared.names_subset (within : X ⊆ Y) : X.names ⊆ Y.names :=
  List.map_subset _ within

/-! ## States -/

namespace State

theorem Knows.scope {b : Binding} (mem : b ∈ s.env.currentScope) : s.Knows b :=
  .inl (Environment.mem_bindings_of_mem_currentScope mem)

theorem Before.refl (s : State) : s.Before [] s :=
  ⟨⟨[], .refl s.env, nofun⟩, Nat.le_refl _, fun _ known _ => known, fun _ _ _ => rfl⟩

theorem Before.mono (within : X ⊆ Y) (later : s.Before X t) : s.Before Y t := by
  obtain ⟨added, adds, each⟩ := later.env
  refine ⟨⟨added, adds, fun b mem => ⟨within (each b mem).1, (each b mem).2⟩⟩, later.cells, later.known, ?_⟩
  exact fun cell constant others => later.kept cell constant fun b mem same named =>
    others b mem same (Declared.names_subset within named)

/-- Where nothing is declared, the scopes are the same. -/
theorem Before.env_eq (later : s.Before [] t) : t.env = s.env := by
  obtain ⟨added, adds, none⟩ := later.env
  obtain rfl : added = [] := List.eq_nil_iff_forall_not_mem.2 fun b mem => List.not_mem_nil (none b mem).1
  exact adds.eq

/-- A cell that was constant still is. -/
theorem Before.constant (later : s.Before X t) (constant : s.Constant cell) : t.Constant cell where
  inside := Nat.lt_of_lt_of_le constant.inside later.cells
  kind b known same := constant.kind b (later.known b known (same ▸ constant.inside)) same

/-- What a cell that was there is called in the innermost scope has not changed. -/
theorem Before.scope (later : s.Before X t) (inside : s.env.frameStart ≤ s.env.bindings.size) {b : Binding}
    (mem : b ∈ t.env.currentScope) : b ∈ s.env.currentScope ∨ (b.name, b.kind) ∈ X ∧ s.heap.cells.size ≤ b.cell := by
  obtain ⟨added, adds, each⟩ := later.env
  rw [adds.innermost inside] at mem
  exact (List.mem_append.1 mem).imp_right (each b)

theorem Before.scope_of_lt (later : s.Before X t) (inside : s.env.frameStart ≤ s.env.bindings.size) {b : Binding}
    (mem : b ∈ t.env.currentScope) (there : b.cell < s.heap.cells.size) : b ∈ s.env.currentScope :=
  (later.scope inside mem).resolve_right fun new => Nat.not_le.2 there new.2

/-- What was declared before the first part is still there after the second one. -/
theorem Before.trans (inside : s.env.frameStart ≤ s.env.bindings.size) (first : s.Before X t) (second : t.Before Y u) :
    s.Before (X ++ Y) u := by
  obtain ⟨one, adds, declared⟩ := first.env
  obtain ⟨two, adds', declared'⟩ := second.env
  refine ⟨⟨one ++ two, adds.trans adds', fun b mem => ?_⟩, Nat.le_trans first.cells second.cells, ?_, ?_⟩
  · rcases List.mem_append.1 mem with mem | mem
    · exact ⟨List.mem_append_left _ (declared b mem).1, (declared b mem).2⟩
    · exact ⟨List.mem_append_right _ (declared' b mem).1, Nat.le_trans first.cells (declared' b mem).2⟩
  · intro b known there
    exact first.known b (second.known b known (Nat.lt_of_lt_of_le there first.cells)) there
  · intro cell constant others
    rw [Declared.names_append] at others
    have kept := first.kept cell constant fun b mem same named => others b mem same (List.mem_append_left _ named)
    refine (second.kept cell (first.constant constant) fun b mem same named => ?_).trans kept
    have mem := first.scope_of_lt inside mem (same ▸ constant.inside)
    exact others b mem same (List.mem_append_right _ named)

theorem Marked.mono (within : X ⊆ Y) (marked : s.Marked X cell value t) : s.Marked Y cell value t where
  constant := marked.constant
  value := marked.value
  names b mem same := within (marked.names b mem same)
  before there := by
    obtain ⟨b, mem, same, named⟩ := marked.before there
    exact ⟨b, mem, same, within named⟩

theorem Marked.later (inside : t.env.frameStart ≤ t.env.bindings.size) (marked : s.Marked X cell value t)
    (later : t.Before Y u) (apart : ∀ name, (name, .const) ∈ X → name ∉ Y.names) : s.Marked (X ++ Y) cell value u := by
  refine .mono (List.subset_append_left X Y) ⟨later.constant marked.constant, ?_, fun b mem same => ?_, marked.before⟩
  · refine (later.kept cell marked.constant fun b mem same named => ?_).trans marked.value
    exact apart b.name (marked.names b mem same) named
  · exact marked.names b (later.scope_of_lt inside mem (same ▸ marked.constant.inside)) same

/-- What is marked later is marked for those before. -/
theorem Marked.after (inside : s.env.frameStart ≤ s.env.bindings.size) (later : s.Before X t)
    (marked : t.Marked Y cell value u) : s.Marked (X ++ Y) cell value u := by
  refine .mono (List.subset_append_right X Y) ⟨marked.constant, marked.value, marked.names, fun there => ?_⟩
  obtain ⟨b, mem, same, named⟩ := marked.before (Nat.lt_of_lt_of_le there later.cells)
  exact ⟨b, later.scope_of_lt inside mem (same ▸ there), same, named⟩

/-! ### The same scopes and heap -/

theorem Knows.of_eq (env : t.env = s.env) (heap : t.heap = s.heap) {b : Binding} (known : t.Knows b) : s.Knows b := by
  unfold Knows at known ⊢
  rwa [← env, ← heap]

theorem Sound.of_eq (env : t.env = s.env) (heap : t.heap = s.heap) (sound : s.Sound) :
    t.Sound where
  inside := env ▸ sound.inside
  allocated b known := heap ▸ sound.allocated b (known.of_eq env heap)
  coherent b b' known known' := sound.coherent b b' (known.of_eq env heap) (known'.of_eq env heap)

theorem Before.of_eq (env : t.env = s.env) (heap : t.heap = s.heap) : s.Before [] t where
  env := ⟨[], env ▸ .refl s.env, nofun⟩
  cells := Nat.le_of_eq (heap ▸ rfl)
  known _ known _ := known.of_eq env heap
  kept _ _ _ := heap ▸ rfl

/-! ### Containers -/

theorem SameCells.knows {h : Heap} (same : s.heap.SameCells h) {b : Binding} :
    { s with heap := h }.Knows b ↔ s.Knows b := by
  simp only [Knows, Heap.closureAt, same.closures]

theorem Sound.inHeap {h : Heap} (sound : s.Sound) (same : s.heap.SameCells h) :
    { s with heap := h }.Sound where
  inside := sound.inside
  allocated b known := by
    show b.cell < h.cells.size
    rw [same.cells]
    exact sound.allocated b (SameCells.knows same |>.1 known)
  coherent b b' known known' := sound.coherent b b' (SameCells.knows same |>.1 known) (SameCells.knows same |>.1 known')

theorem Before.inHeap {h : Heap} (same : s.heap.SameCells h) : s.Before [] { s with heap := h } where
  env := ⟨[], .refl s.env, nofun⟩
  cells := Nat.le_of_eq (congrArg Array.size same.cells).symm
  known _ known _ := (SameCells.knows same).1 known
  kept cell _ _ := by simp only [Heap.cellAt, same.cells]

/-! ### Other scopes -/

/-- A step in scopes of its own that knows nothing new. -/
structure Enters (s : State) (env : Environment) : Prop where
  fresh : env.Fresh
  known : ∀ b ∈ env.bindings.toList, s.Knows b

theorem enters_push (s : State) : s.Enters s.env.push :=
  ⟨Environment.fresh_push _, fun _ mem => .inl mem⟩

variable {env : Environment}

theorem Enters.knows (enters : s.Enters env) {b : Binding} (known : { s with env }.Knows b) : s.Knows b := by
  rcases known with mem | captured
  · exact enters.known b mem
  · exact .inr captured

theorem Enters.sound (enters : s.Enters env) (sound : s.Sound) : { s with env }.Sound where
  inside := Nat.le_of_eq enters.fresh
  allocated b known := sound.allocated b (enters.knows known)
  coherent b b' known known' := sound.coherent b b' (enters.knows known) (enters.knows known')

/-- What comes back to the scopes that it left is as sound as it was there. -/
theorem Before.sound_back (later : { s with env }.Before X t) (enters : s.Enters env) (sound : s.Sound)
    (after : t.Sound) : { t with env := s.env }.Sound := by
  have before : ∀ {b}, b ∈ s.env.bindings.toList → b.cell < s.heap.cells.size := fun mem =>
    sound.allocated _ (.inl mem)
  -- of two bindings for a cell of the scopes, the one that a closure has was there before
  have captured : ∀ {b b'}, b ∈ s.env.bindings.toList → (∃ c, b' ∈ (t.heap.closureAt c).captured.toList) →
      b.cell = b'.cell → b = b' := by
    intro b b' mem captured same
    exact sound.coherent b b' (.inl mem) (enters.knows (later.known b' (.inr captured) (same ▸ before mem))) same
  refine ⟨sound.inside, fun b known => ?_, fun b b' known known' same => ?_⟩
  · rcases known with mem | captured
    · exact Nat.lt_of_lt_of_le (before mem) later.cells
    · exact after.allocated b (.inr captured)
  · rcases known with mem | known
    · rcases known' with mem' | known'
      · exact sound.coherent b b' (.inl mem) (.inl mem') same
      · exact captured mem known' same
    · rcases known' with mem' | known'
      · exact (captured mem' known same.symm).symm
      · exact after.coherent b b' (.inr known) (.inr known') same

theorem Before.back (later : { s with env }.Before X t) (enters : s.Enters env) :
    s.Before [] { t with env := s.env } where
  env := ⟨[], .refl s.env, nofun⟩
  cells := later.cells
  known b known there := by
    rcases known with mem | captured
    · exact .inl mem
    · exact enters.knows (later.known b (.inr captured) there)
  kept cell constant _ := by
    have inner : { s with env }.Constant cell := ⟨constant.inside, fun b known => constant.kind b (enters.knows known)⟩
    refine later.kept cell inner fun b mem => ?_
    rw [show ({ s with env } : State).env.currentScope = [] from enters.fresh.currentScope] at mem
    cases mem

/-- What has been marked in other scopes is new to the ones around. -/
theorem Marked.back (marked : { s with env }.Marked X cell value t) (enters : s.Enters env) (sound : s.Sound) :
    s.Marked [] cell value { t with env := s.env } := by
  have new : ¬ cell < s.heap.cells.size := by
    intro there
    obtain ⟨b, mem, -, -⟩ := marked.before there
    rw [show ({ s with env } : State).env.currentScope = [] from enters.fresh.currentScope] at mem
    cases mem
  refine ⟨⟨marked.constant.inside, fun b known same => ?_⟩, marked.value, fun b mem same => ?_, fun there => ?_⟩
  · rcases known with mem | captured
    · exact absurd (same ▸ sound.allocated b (.inl mem)) new
    · exact marked.constant.kind b (.inr captured) same
  · exact absurd (same ▸ sound.allocated b (.scope mem)) new
  · exact absurd there new

end State

namespace Watch

open EvalM

variable {W : Watch} {α β γ : Type} {P : α → Prop} {Q : β → Prop} {R : γ → Prop} {e : Exit}

/-- What holds of the end of a step as a value. -/
def Tried (W : Watch) (P : α → Prop) : Except Exit α → Prop
  | .ok a => P a
  | .error e => W.Leaves e

/-- The same end, in the scopes that are there when a step is left. -/
def leavingWith (leave : Environment → Environment) : EStateM.Result Exit State α → EStateM.Result Exit State α
  | .ok a t => .ok a { t with env := leave t.env }
  | .error e t => .error e { t with env := leave t.env }

theorem inEnvironment_eq (env : Environment) (x : EvalM α) (s : State) :
    inEnvironment env x s = leavingWith (fun _ => s.env) (x { s with env }) := by
  rw [inEnvironment_apply]
  cases x { s with env } <;> rfl

theorem inScope_eq (x : EvalM α) (s : State) :
    inScope x s = leavingWith Environment.pop (x { s with env := s.env.push }) := by
  simp only [inScope, modifyEnv, EvalM.attempt, Bind.bind, EStateM.bind]
  cases x { s with env := s.env.push } <;> rfl

/-! ## Ends -/

theorem Apart.nil : W.Apart [] X :=
  fun _ _ => nofun

theorem Apart.nil_right : W.Apart X [] :=
  fun _ _ _ => List.not_mem_nil

namespace Distinct

theorem split (distinct : W.Distinct (X ++ Y)) (watched : W.constants) :
    X.names.Nodup ∧ Y.names.Nodup ∧ X.names.Disjoint Y.names :=
  List.nodup_append'.1 (Declared.names_append ▸ distinct watched)

theorem left (distinct : W.Distinct (X ++ Y)) : W.Distinct X :=
  fun watched => (distinct.split watched).1

theorem right (distinct : W.Distinct (X ++ Y)) : W.Distinct Y :=
  fun watched => (distinct.split watched).2.1

theorem apart (distinct : W.Distinct (X ++ Y)) : W.Apart X Y :=
  fun watched _ const named => (distinct.split watched).2.2 (Declared.mem_names const) named

end Distinct

theorem later_refl : W.Later [] s s :=
  fun _ => .refl s

theorem Later.weaken (within : X ⊆ Y) (later : W.Later X s t) : W.Later Y s t :=
  fun constants => (later constants).mono within

theorem Later.trans (state : W.At s) (first : W.Later X s t) (second : W.Later Y t u) : W.Later (X ++ Y) s u :=
  fun constants => (first constants).trans (state.sound constants).inside (second constants)

theorem At.of_eq (env : t.env = s.env) (heap : t.heap = s.heap) (state : W.At s) : W.At t :=
  ⟨heap ▸ state.callable, fun constants => (state.sound constants).of_eq env heap⟩

theorem later_of_eq (env : t.env = s.env) (heap : t.heap = s.heap) : W.Later [] s t :=
  fun _ => .of_eq env heap

theorem At.inHeap {h : Heap} (state : W.At s) (same : s.heap.SameCells h) : W.At { s with heap := h } :=
  ⟨by simpa only [Heap.closureAt, same.closures] using state.callable,
    fun constants => (state.sound constants).inHeap same⟩

theorem later_inHeap {h : Heap} (same : s.heap.SameCells h) : W.Later [] s { s with heap := h } :=
  fun _ => .inHeap same

theorem Marked.weaken (within : X ⊆ Y) (marked : W.Marked X s t) : W.Marked Y s t :=
  ⟨marked.1, marked.2.1, marked.2.2.mono within⟩

theorem At.entered {env : Environment} (state : W.At s) (enters : s.Enters env) : W.At { s with env } :=
  ⟨state.callable, fun watched => enters.sound (state.sound watched)⟩

theorem At.pushed (state : W.At s) : W.At { s with env := s.env.push } :=
  state.entered s.enters_push

namespace Kept

variable {r : EStateM.Result Exit State α}

theorem state (kept : W.Kept X P s r) : W.At (final r) := by
  cases kept with
  | ok state => exact state
  | error state => exact state

theorem later (kept : W.Kept X P s r) : W.Later X s (final r) := by
  cases kept with
  | ok _ later => exact later
  | error _ later => exact later

theorem weaken (within : X ⊆ Y) (kept : W.Kept X P s r) : W.Kept Y P s r := by
  cases kept with
  | ok state later result => exact .ok state (later.weaken within) result
  | error state later leaves => exact .error state (later.weaken within) leaves

/-- The mark stays where nothing of the same name is declared. -/
theorem marked (kept : W.Kept Y P t r) (middle : W.At t) (marked : W.Marked X s t) (apart : W.Apart X Y) :
    W.Marked (X ++ Y) s (final r) := by
  refine ⟨marked.1, marked.2.1, ?_⟩
  exact marked.2.2.later (middle.sound marked.2.1).inside (kept.later marked.2.1) (apart marked.2.1)

theorem after (state : W.At s) (later : W.Later X s t) (kept : W.Kept Y P t r) : W.Kept (X ++ Y) P s r := by
  cases kept with
  | ok after next result => exact .ok after (later.trans state next) result
  | error after next leaves => exact .error after (later.trans state next) leaves

end Kept

namespace Ends

variable {x₁ x₂ : EvalM α} {f₁ f₂ : α → EvalM β} {r₁ r₂ : EStateM.Result Exit State α}

theorem ok {a : α} (state : W.At t) (later : W.Later X s t) (result : P a) : W.Ends X P s (.ok a t) (.ok a t) :=
  ⟨.ok state later result, .inl rfl⟩

theorem error (state : W.At t) (later : W.Later X s t) (leaves : W.Leaves e) :
    W.Ends X P s (.error e t) (.error e t) :=
  ⟨.error state later leaves, .inl rfl⟩

theorem weaken (within : X ⊆ Y) (ends : W.Ends X P s r₁ r₂) : W.Ends Y P s r₁ r₂ :=
  ⟨ends.kept.weaken within, ends.same.imp_right (.weaken within)⟩

/-- Where constants are not watched, nothing is said of what is declared. -/
theorem unwatched (unwatched : ¬ W.constants) (ends : W.Ends X P s r₁ r₂) : W.Ends Y P s r₁ r₂ := by
  refine ⟨?_, ends.same.imp_right fun marked => absurd marked.2.1 unwatched⟩
  cases ends.kept with
  | ok state later result => exact .ok state (fun watched => absurd watched unwatched) result
  | error state later leaves => exact .error state (fun watched => absurd watched unwatched) leaves

/-- What comes later follows, and so does the whole. -/
theorem after (state : W.At s) (later : W.Later X s t) (ends : W.Ends Y P t r₁ r₂) : W.Ends (X ++ Y) P s r₁ r₂ := by
  refine ⟨ends.kept.after state later, ends.same.imp_right fun marked => ⟨marked.1, marked.2.1, ?_⟩⟩
  exact marked.2.2.after (state.sound marked.2.1).inside (later marked.2.1)

/-- Once the mark is there, nothing has to be known of the second run. -/
theorem of_marked (state : W.At s) (middle : W.At t) (later : W.Later X s t) (marked : W.Marked X s t)
    (apart : W.Apart X Y) (kept : W.Kept Y P t r₁) : W.Ends (X ++ Y) P s r₁ r₂ :=
  ⟨kept.after state later, .inr (kept.marked middle marked apart)⟩

/-- Unless the runs have not parted before the second step, it may not declare what the first one has declared. -/
theorem bind (state : W.At s) (apart : x₁ s = x₂ s ∨ W.Apart X Y) (first : W.Ends X P s (x₁ s) (x₂ s))
    (next : ∀ a t, x₁ s = .ok a t → P a → W.At t → W.Later X s t → W.Ends Y Q t (f₁ a t) (f₂ a t)) :
    W.Ends (X ++ Y) Q s ((x₁ >>= f₁) s) ((x₂ >>= f₂) s) := by
  show W.Ends (X ++ Y) Q s (EStateM.bind x₁ f₁ s) (EStateM.bind x₂ f₂ s)
  unfold EStateM.bind
  obtain ⟨kept, same⟩ := first
  generalize x₁ s = r₁ at apart kept same next ⊢
  generalize x₂ s = r₂ at apart same ⊢
  cases kept with
  | ok middle later result =>
    have next := next _ _ rfl result middle later
    rcases same with rfl | marked
    · exact next.after state later
    · rcases apart with rfl | apart
      · exact next.after state later
      · exact of_marked state middle later marked apart next.kept
  | error middle later leaves =>
    have within : X ⊆ X ++ Y := List.subset_append_left X Y
    refine ⟨.error middle (later.weaken within) leaves, same.imp (fun same => ?_) (.weaken within)⟩
    rw [← same]

/-- After a step that declares nothing, anything may be declared. -/
theorem andThen (state : W.At s) (first : W.Ends [] P s (x₁ s) (x₂ s))
    (next : ∀ a t, P a → W.At t → W.Later [] s t → W.Ends Y Q t (f₁ a t) (f₂ a t)) :
    W.Ends Y Q s ((x₁ >>= f₁) s) ((x₂ >>= f₂) s) :=
  bind state (.inr .nil) first fun a t _ => next a t

theorem discard (state : W.At s) (first : W.Ends X P s (x₁ s) (x₂ s)) :
    W.Ends X (fun _ => True) s (Functor.discard x₁ s) (Functor.discard x₂ s) := by
  rw [← List.append_nil X]
  exact bind state (.inr .nil_right) first fun _ t _ _ middle _ => .ok middle later_refl trivial

/-! ### Ends as values -/

theorem attempt (first : W.Ends X P s (x₁ s) (x₂ s)) :
    W.Ends X (W.Tried P) s (EvalM.attempt x₁ s) (EvalM.attempt x₂ s) := by
  obtain ⟨kept, same⟩ := first
  unfold EvalM.attempt
  generalize x₁ s = r₁ at kept same ⊢
  generalize x₂ s = r₂ at same ⊢
  cases kept with
  | ok state later result => exact ⟨.ok state later result, same.imp (fun same => by rw [← same]) id⟩
  | error state later leaves => exact ⟨.ok state later leaves, same.imp (fun same => by rw [← same]) id⟩

/-! ### Other scopes -/

/-- A step in scopes of its own that comes back to those around it. -/
theorem leaving {env : Environment} {leave : Environment → Environment} (enters : s.Enters env) (state : W.At s)
    (back : ∀ t, W.constants → { s with env }.Before X t → leave t.env = s.env)
    (first : W.Ends X P { s with env } r₁ r₂) : W.Ends [] P s (leavingWith leave r₁) (leavingWith leave r₂) := by
  obtain ⟨kept, same⟩ := first
  have sound : ∀ {t}, W.At t → W.Later X { s with env } t → W.At { t with env := leave t.env } := by
    refine fun {t} after later => ⟨after.callable, fun constants => ?_⟩
    rw [back t constants (later constants)]
    exact (later constants).sound_back enters (state.sound constants) (after.sound constants)
  have later : ∀ {t}, W.Later X { s with env } t → W.Later [] s { t with env := leave t.env } := by
    intro t later constants
    rw [back t constants (later constants)]
    exact (later constants).back enters
  have marked : ∀ {t}, W.Later X { s with env } t → W.Marked X { s with env } t →
      W.Marked [] s { t with env := leave t.env } := by
    rintro t later ⟨parts, constants, marked⟩
    rw [back t constants (later constants)]
    exact ⟨parts, constants, marked.back enters (state.sound constants)⟩
  cases kept with
  | ok after next result =>
    exact ⟨.ok (sound after next) (later next) result, same.imp (fun same => by rw [← same]) (marked next)⟩
  | error after next leaves =>
    exact ⟨.error (sound after next) (later next) leaves, same.imp (fun same => by rw [← same]) (marked next)⟩

theorem inEnvironment {env : Environment} (enters : s.Enters env) (state : W.At s)
    (first : W.Ends X P { s with env } (x₁ { s with env }) (x₂ { s with env })) :
    W.Ends [] P s (EvalM.inEnvironment env x₁ s) (EvalM.inEnvironment env x₂ s) := by
  rw [inEnvironment_eq, inEnvironment_eq]
  exact leaving enters state (fun _ _ _ => rfl) first

/-- Leaving the scope that was entered leads back to the same scopes. -/
theorem inScope (state : W.At s)
    (first : W.Ends X P { s with env := s.env.push } (x₁ { s with env := s.env.push })
      (x₂ { s with env := s.env.push })) :
    W.Ends [] P s (EvalM.inScope x₁ s) (EvalM.inScope x₂ s) := by
  rw [inScope_eq, inScope_eq]
  refine leaving s.enters_push state (fun t _ later => ?_) first
  obtain ⟨added, adds, -⟩ := later.env
  exact Environment.pop_of_grows_push adds.grows

end Ends

namespace Follows

variable {x₁ x₂ y₁ y₂ : EvalM α} {f₁ f₂ : α → EvalM β}

theorem weaken (within : X ⊆ Y) (x : W.Follows X P x₁ x₂) : W.Follows Y P x₁ x₂ :=
  fun s state => (x s state).weaken within

/-! ## Primitive steps -/

theorem pure {a : α} (result : P a) : W.Follows [] P (Pure.pure a) (Pure.pure a) :=
  fun _ state => .ok state later_refl result

theorem throw (leaves : W.Leaves e) : W.Follows [] P (MonadExcept.throw e) (MonadExcept.throw e) :=
  fun _ state => .error state later_refl leaves

theorem exhausted : W.Follows [] P (MonadExcept.throw .exhausted) (MonadExcept.throw .exhausted) :=
  throw trivial

theorem fail {failure : EvalError} (placed : ¬ failure.Misplaced) :
    W.Follows [] P (EvalM.fail failure) (EvalM.fail failure) :=
  throw fun _ => placed

theorem typeFault {fault : TypeFault} (placed : fault ≠ .misplacedSpread) :
    W.Follows [] P (EvalM.typeFault fault) (EvalM.typeFault fault) :=
  fail placed

theorem refuse (fault : EnvironmentFault) :
    W.Follows [] P (EvalM.fail (.ofEnvironment fault)) (EvalM.fail (.ofEnvironment fault)) :=
  fail (by cases fault <;> exact id)

theorem jump (j : Jump) : W.Follows [] P (EvalM.jump j) (EvalM.jump j) :=
  throw trivial

theorem ofExcept {x : Except EvalError α} (ordinary : EvalError.OnlyOrdinary x) :
    W.Quiet (EvalM.ofExcept x) (EvalM.ofExcept x) := by
  cases x with
  | ok a => exact pure trivial
  | error failure => exact fail (ordinary failure rfl).placed

theorem readHeap (f : Heap → α) : W.Quiet (EvalM.readHeap f) (EvalM.readHeap f) :=
  fun _ state => .ok state later_refl trivial

theorem readEnv (f : Environment → α) : W.Quiet (EvalM.readEnv f) (EvalM.readEnv f) :=
  fun _ state => .ok state later_refl trivial

theorem checkInterrupt : W.Quiet EvalM.checkInterrupt EvalM.checkInterrupt := by
  intro s state
  unfold EvalM.checkInterrupt
  split
  · exact .error state later_refl fun _ => id
  · exact .ok state later_refl trivial

/-- A change of containers is none of closures and cells. -/
theorem allocate {f : Heap → α × Heap} (same : ∀ h, Heap.SameCells h (f h).2) :
    W.Quiet (EvalM.allocate f) (EvalM.allocate f) :=
  fun s state => .ok (state.inHeap (same s.heap)) (later_inHeap (same s.heap)) trivial

/-- The interrupt flag, the console and the notes of the host are of no concern. -/
theorem unwatched {x : EvalM Unit} {f : State → State} (run : ∀ s, x s = .ok () (f s))
    (same : ∀ s, (f s).env = s.env ∧ (f s).heap = s.heap) : W.Quiet x x := by
  intro s state
  rw [run s]
  exact .ok (state.of_eq (same s).1 (same s).2) (later_of_eq (same s).1 (same s).2) trivial

/-! ## Joining steps -/

/-- A step that declares nothing, and another one after it. -/
theorem bind (first : W.Follows [] P x₁ x₂) (next : ∀ a, P a → W.Follows Y Q (f₁ a) (f₂ a)) :
    W.Follows Y Q (x₁ >>= f₁) (x₂ >>= f₂) :=
  fun s state => Ends.andThen state (first s state) fun a t result middle _ => next a result t middle

/-- Going on with whatever a step gives that declares nothing. -/
theorem andThen (first : W.Quiet x₁ x₂) (next : ∀ a, W.Follows Y Q (f₁ a) (f₂ a)) :
    W.Follows Y Q (x₁ >>= f₁) (x₂ >>= f₂) :=
  bind first fun a _ => next a

/-- What comes after a declaration declares nothing. -/
theorem bind_quiet (first : W.Follows X P x₁ x₂) (next : ∀ a, P a → W.Follows [] Q (f₁ a) (f₂ a)) :
    W.Follows X Q (x₁ >>= f₁) (x₂ >>= f₂) := by
  intro s state
  have ends := Ends.bind state (.inr .nil_right) (first s state) fun a t _ result middle _ => next a result t middle
  rwa [List.append_nil] at ends

/-- Two declarations, one after the other. -/
theorem bind_apart (apart : W.Apart X Y) (first : W.Follows X P x₁ x₂)
    (next : ∀ a, P a → W.Follows Y Q (f₁ a) (f₂ a)) : W.Follows (X ++ Y) Q (x₁ >>= f₁) (x₂ >>= f₂) :=
  fun s state => Ends.bind state (.inr apart) (first s state) fun a t _ result middle _ => next a result t middle

/-- Going on with whatever is read of the heap. -/
theorem reading {f : Heap → α} (next : ∀ a, W.Follows Y Q (f₁ a) (f₂ a)) :
    W.Follows Y Q (EvalM.readHeap f >>= f₁) (EvalM.readHeap f >>= f₂) :=
  andThen (readHeap f) next

theorem readingEnv {f : Environment → α} (next : ∀ a, W.Follows Y Q (f₁ a) (f₂ a)) :
    W.Follows Y Q (EvalM.readEnv f >>= f₁) (EvalM.readEnv f >>= f₂) :=
  andThen (readEnv f) next

theorem discard (x : W.Follows X P x₁ x₂) : W.Follows X (fun _ => True) (Functor.discard x₁) (Functor.discard x₂) :=
  fun _ state => (x _ state).discard state

theorem ite {c : Bool} (yes : W.Follows X P x₁ x₂) (no : W.Follows X P y₁ y₂) :
    W.Follows X P (if c then x₁ else y₁) (if c then x₂ else y₂) := by
  cases c with
  | true => exact yes
  | false => exact no

theorem foldlM {f₁ f₂ : β → α → EvalM β} {items : List α} (each : ∀ a ∈ items, ∀ b, W.Quiet (f₁ b a) (f₂ b a))
    (start : β) : W.Quiet (items.foldlM f₁ start) (items.foldlM f₂ start) := by
  induction items generalizing start with
  | nil => exact pure trivial
  | cons a more ih =>
    obtain ⟨head, tail⟩ := List.forall_mem_cons.1 each
    rw [List.foldlM_cons, List.foldlM_cons]
    exact bind (head start) fun b _ => ih tail b

theorem forM {f₁ f₂ : α → EvalM Unit} {items : List α} (each : ∀ a ∈ items, W.Quiet (f₁ a) (f₂ a)) :
    W.Quiet (items.forM f₁) (items.forM f₂) := by
  induction items with
  | nil => exact pure trivial
  | cons a more ih =>
    obtain ⟨head, tail⟩ := List.forall_mem_cons.1 each
    unfold List.forM
    exact bind head fun _ _ => ih tail

/-- Declarations in a row, all with different names. -/
theorem forM_apart {f₁ f₂ : α → EvalM Unit} {items : List α} {names : α → Declared}
    (each : ∀ a ∈ items, W.Distinct (names a) → W.Follows (names a) (fun _ => True) (f₁ a) (f₂ a))
    (distinct : W.Distinct (items.flatMap names)) :
    W.Follows (items.flatMap names) (fun _ => True) (items.forM f₁) (items.forM f₂) := by
  induction items with
  | nil => exact pure trivial
  | cons a more ih =>
    obtain ⟨head, tail⟩ := List.forall_mem_cons.1 each
    rw [List.flatMap_cons] at distinct
    unfold List.forM
    exact bind_apart distinct.apart (head distinct.left) fun _ _ => ih tail distinct.right

theorem repeatWhile {turn₁ turn₂ : EvalM Bool} (turn : W.Quiet turn₁ turn₂) (turns : Nat) :
    W.Quiet (EvalM.repeatWhile turn₁ turns) (EvalM.repeatWhile turn₂ turns) := by
  induction turns with
  | zero => exact exhausted
  | succ turns ih =>
    unfold EvalM.repeatWhile
    exact bind checkInterrupt fun _ _ => bind turn fun again _ => ite ih (pure trivial)

/-! ## Built-in functions -/

/-- Built-in functions have to do with no names, so one follows itself if the calls that it makes do. -/
theorem built {sub₁ sub₂ : Interpreter} {x : Interpreter → EvalM α}
    (calls : ∀ f args, W.Quiet (sub₁.call f args) (sub₂.call f args)) (step : BuiltIn x) :
    W.Quiet (x sub₁) (x sub₂) := by
  induction step with
  | pure => exact pure trivial
  | fail ordinary => exact fail ordinary.placed
  | readHeap f => exact readHeap f
  | checked ordinary => exact fun s state => ofExcept (ordinary s.heap) s state
  | readNotes => exact fun _ state => .ok state later_refl trivial
  | allocate same => exact allocate same
  | interrupt | note | log => exact unwatched (fun _ => rfl) fun _ => ⟨rfl, rfl⟩
  | call f args => exact calls f args
  | bind _ _ first next => exact andThen first next

/-- A built-in function that calls nothing. -/
theorem standalone {x : EvalM α} (step : BuiltIn fun _ => x) : W.Quiet x x :=
  have calls : ∀ f args, W.Quiet (Interpreter.idle.call f args) (Interpreter.idle.call f args) :=
    fun _ _ => pure trivial
  built calls step

/-! ## Ends as values and scopes -/

theorem attempt (x : W.Follows X P x₁ x₂) : W.Follows X (W.Tried P) (EvalM.attempt x₁) (EvalM.attempt x₂) :=
  fun s state => (x s state).attempt

theorem resume {r : Except Exit α} (tried : W.Tried P r) : W.Follows [] P (EvalM.resume r) (EvalM.resume r) := by
  cases r with
  | ok a => exact pure tried
  | error e => exact throw tried

theorem inScope (x : W.Follows X P x₁ x₂) : W.Follows [] P (EvalM.inScope x₁) (EvalM.inScope x₂) :=
  fun _ state => Ends.inScope state (x _ state.pushed)

end Follows

end Watch

end BindScript
