import BindScript.Proofs.Dependency.Merge

/-!
# Resolutions and what walks record

The names, the dependencies and what is recorded under each declaration go together (`Resolution.Consistent`): each
dependency leads on from a name, and what is recorded under a declaration is a dependency. A walk only adds to what
there is, behind all the rest (`Resolution.Keeps`).

A walk records the same dependencies whatever has been found before it and whoever collects them. What it records gets
into the resolution and to all that collect (`Walk.Follows`); this is kept by each step that walks are made of, and so
by all walks (`Walk.IsVisit.follows`). So a visit finds what was there and what it records
(`Walk.IsVisit.dependencies`), and all that it records is listed under the names that it is collected for
(`Walk.IsVisit.collected`).
-/

namespace BindScript

namespace Dependency

/-! ## Resolutions -/

/-- Nothing occurs twice, each dependency leads on from a name, and only dependencies are recorded under
declarations. -/
structure Resolution.Consistent (r : Resolution) : Prop where
  names : r.names.keys.Nodup
  dependencies : r.dependencies.Nodup
  declaredNames : r.declared.keys.Nodup
  declared : ∀ name ds, r.declared.get? name = some ds → ds.Nodup
  rooted : ∀ d ∈ r.dependencies, ∃ name ∈ r.names.keys, LeadsFrom name d
  listed : ∀ name ds, r.declared.get? name = some ds → ∀ d ∈ ds, d ∈ r.dependencies

/-- All that was there is in its place, and what is new comes after it. -/
structure Resolution.Keeps (r r' : Resolution) : Prop where
  names : r.names.keys <+: r'.names.keys
  dependencies : r.dependencies <+: r'.dependencies
  declaredNames : r.declared.keys <+: r'.declared.keys
  declared : ∀ name ds, r.declared.get? name = some ds → ∃ ds', r'.declared.get? name = some ds' ∧ ds <+: ds'

/-- From one resolution to another, some dependencies have been recorded, one after the other. -/
structure Resolution.Onward (log : List String) (r r' : Resolution) : Prop where
  recorded : r'.dependencies = log.foldl insertNew r.dependencies
  keeps : r.Keeps r'
  consistent : r.Consistent → r'.Consistent

namespace Resolution

variable {r r' r'' : Resolution} {log log' : List String}

theorem Keeps.refl (r : Resolution) : r.Keeps r :=
  ⟨List.prefix_rfl, List.prefix_rfl, List.prefix_rfl, fun _ ds found => ⟨ds, found, List.prefix_rfl⟩⟩

theorem Keeps.trans (first : r.Keeps r') (later : r'.Keeps r'') : r.Keeps r'' where
  names := first.names.trans later.names
  dependencies := first.dependencies.trans later.dependencies
  declaredNames := first.declaredNames.trans later.declaredNames
  declared name ds found := by
    obtain ⟨ds', found', goes⟩ := first.declared name ds found
    obtain ⟨ds'', found'', goes'⟩ := later.declared name ds' found'
    exact ⟨ds'', found'', goes.trans goes'⟩

theorem Onward.refl (r : Resolution) : r.Onward [] r :=
  ⟨rfl, .refl r, id⟩

theorem Onward.trans (first : r.Onward log r') (later : r'.Onward log' r'') : r.Onward (log ++ log') r'' where
  recorded := by rw [later.recorded, first.recorded, List.foldl_append]
  keeps := first.keeps.trans later.keeps
  consistent := later.consistent ∘ first.consistent

/-- A name is entered. -/
theorem onward_enter {names : Entries TopLevelName} {name : String}
    (keys : names.keys = insertNew r.names.keys name) : r.Onward [] { r with names } where
  recorded := rfl
  keeps := { Keeps.refl r with names := keys ▸ prefix_insertNew .. }
  consistent consistent :=
    { consistent with
      names := keys ▸ nodup_insertNew consistent.names name
      rooted := fun d mem => by
        obtain ⟨root, known, leads⟩ := consistent.rooted d mem
        exact ⟨root, keys ▸ mem_insertNew.2 (.inl known), leads⟩ }

/-- A dependency is recorded that leads on from a name. -/
theorem onward_dependency {root dependency : String} (known : root ∈ r.names.keys) (leads : LeadsFrom root dependency) :
    r.Onward [dependency] { r with dependencies := insertNew r.dependencies dependency } where
  recorded := rfl
  keeps := { Keeps.refl r with dependencies := prefix_insertNew .. }
  consistent consistent :=
    { consistent with
      dependencies := nodup_insertNew consistent.dependencies dependency
      rooted := fun d mem => by
        rcases mem_insertNew.1 mem with before | rfl
        · exact consistent.rooted d before
        · exact ⟨root, known, leads⟩
      listed := fun name ds found d mem => mem_insertNew.2 (.inl (consistent.listed name ds found d mem)) }

/-- Dependencies are recorded under a name as well. -/
def record (r : Resolution) (found : List String) (name : String) : Resolution :=
  { r with declared := r.declared.alter name [] (found.foldl insertNew ·) }

theorem get?_record_self (r : Resolution) (found : List String) (name : String) :
    (r.record found name).declared.get? name = some (found.foldl insertNew ((r.declared.get? name).getD [])) :=
  Entries.get?_insert_self ..

theorem get?_record_of_ne {name other : String} (ne : other ≠ name) (r : Resolution) (found : List String) :
    (r.record found name).declared.get? other = r.declared.get? other :=
  Entries.get?_insert_of_ne ne

/-- Recording known dependencies under a name takes nothing back. -/
theorem onward_record {found : List String} (known : ∀ d ∈ found, d ∈ r.dependencies) (name : String) :
    r.Onward [] (r.record found name) where
  recorded := rfl
  keeps := by
    refine { Keeps.refl r with declaredNames := ?_, declared := fun other ds there => ?_ }
    · show r.declared.keys <+: (Entries.insert ..).keys
      rw [Entries.keys_insert_eq]
      exact prefix_insertNew ..
    · by_cases same : other = name
      · subst same
        rw [get?_record_self, there]
        exact ⟨_, rfl, prefix_foldl_insertNew ..⟩
      · exact ⟨ds, (get?_record_of_ne same r found).trans there, List.prefix_rfl⟩
  consistent consistent := by
    -- what was recorded under the name before, if anything was
    have before : ((r.declared.get? name).getD []).Nodup ∧
        ∀ d ∈ (r.declared.get? name).getD [], d ∈ r.dependencies := by
      cases there : r.declared.get? name with
      | none => exact ⟨List.nodup_nil, nofun⟩
      | some ds => exact ⟨consistent.declared name ds there, consistent.listed name ds there⟩
    have split : ∀ other ds, (r.record found name).declared.get? other = some ds →
        ds = found.foldl insertNew ((r.declared.get? name).getD []) ∨ r.declared.get? other = some ds := by
      intro other ds there
      by_cases same : other = name
      · subst same
        exact .inl (Option.some.inj (there.symm.trans (get?_record_self ..)))
      · exact .inr ((get?_record_of_ne same r found).symm.trans there)
    refine { consistent with declaredNames := ?_, declared := ?_, listed := ?_ }
    · exact Entries.nodup_keys_insert consistent.declaredNames ..
    · intro other ds there
      rcases split other ds there with rfl | old
      · exact nodup_foldl_insertNew before.1 found
      · exact consistent.declared other ds old
    · intro other ds there d mem
      rcases split other ds there with rfl | old
      · exact (mem_foldl_insertNew.1 mem).elim (before.2 d) (known d)
      · exact consistent.listed other ds old d mem

theorem onward_records (r : Resolution) {found : List String} (names : List String)
    (known : ∀ d ∈ found, d ∈ r.dependencies) : r.Onward [] (names.foldl (record · found) r) := by
  induction names generalizing r with
  | nil => exact .refl r
  | cons first rest ih => exact (onward_record known first).trans (ih _ known)

/-- What is recorded under some names is listed under each of them. -/
theorem listed_records {found names : List String} (known : ∀ d ∈ found, d ∈ r.dependencies) {name : String}
    (mem : name ∈ names) :
    ∃ ds, (names.foldl (record · found) r).declared.get? name = some ds ∧ ∀ d ∈ found, d ∈ ds := by
  induction names generalizing r with
  | nil => cases mem
  | cons first rest ih =>
    rcases List.mem_cons.1 mem with rfl | mem
    · obtain ⟨ds, there, goes⟩ :=
        (onward_records (r.record found name) rest known).keeps.declared name _ (get?_record_self r found name)
      exact ⟨ds, there, fun d recorded => goes.subset (mem_foldl_insertNew.2 (.inr recorded))⟩
    · exact ih known mem

/-- A collection of dependencies for some names ends with a record for each of them. -/
theorem records_eq (r : Resolution) (found names : List String) :
    names.foldl (record · found) r =
      { r with
        declared := names.foldl
          (fun declared name => declared.alter name [] (found.foldl insertNew ·)) r.declared } := by
  induction names generalizing r with
  | nil => rfl
  | cons first rest ih => exact ih _

end Resolution

/-! ## Walks -/

namespace Walk

/-- A walk has recorded some dependencies, for the resolution and for all that collect, and its scopes are these. -/
structure Follows (log : List String) (scopes : Scopes) (w v : Walk) : Prop where
  apis : v.apis = w.apis
  scopes : v.scopes = scopes
  sinks : v.sinks = w.sinks.map (log.foldl insertNew ·)
  found : w.found.Onward log v.found

/-- The state in which a visit starts whose dependencies are collected. -/
def collecting (w : Walk) : Walk :=
  { w with sinks := [] :: w.sinks }

variable {M : String → Prop} {visit : Walk → Walk}

/-- A collection ends with what the visit has recorded. -/
theorem collectFor_follows {log : List String} {scopes : Scopes} {w : Walk} (names : List String)
    (follows : w.collecting.Follows log scopes (visit w.collecting)) :
    w.Follows log scopes (w.collectFor names visit) ∧ ∀ name ∈ names, ∃ ds,
      (w.collectFor names visit).found.declared.get? name = some ds ∧ ∀ d ∈ log, d ∈ ds := by
  have known : ∀ d ∈ log.foldl insertNew [], d ∈ (visit w.collecting).found.dependencies := fun d mem => by
    rw [follows.found.recorded]
    exact mem_foldl_insertNew.2 (.inr (by simpa [mem_foldl_insertNew] using mem))
  have found : (w.collectFor names visit).found =
      names.foldl (Resolution.record · (log.foldl insertNew [])) (visit w.collecting).found := by
    rw [Resolution.records_eq]
    unfold collectFor
    dsimp only
    rw [← collecting, follows.sinks]
    rfl
  refine ⟨⟨follows.apis, follows.scopes, ?_, ?_⟩, fun name mem => ?_⟩
  · show (visit w.collecting).sinks.drop 1 = _
    rw [follows.sinks]
    rfl
  · rw [found]
    have onward := follows.found.trans (Resolution.onward_records _ names known)
    rwa [List.append_nil] at onward
  · rw [found]
    obtain ⟨ds, there, all⟩ := Resolution.listed_records known mem
    exact ⟨ds, there, fun d recorded => all d (mem_foldl_insertNew.2 (.inr recorded))⟩

/-- What a walk records, and the scopes that it leaves, depend only on the tracked methods and the scopes. -/
theorem IsVisit.follows (visits : IsVisit M visit) (apis : TrackedApis) (scopes : Scopes) :
    ∃ log scopes', scopes'.map (fun s => s.isFunction) = scopes.map (fun s => s.isFunction) ∧
      ∀ w : Walk, w.apis = apis → w.scopes = scopes → w.Follows log scopes' (visit w) := by
  induction visits generalizing apis scopes with
  | stay =>
    refine ⟨[], scopes, rfl, fun w _ same => ⟨rfl, same, ?_, .refl _⟩⟩
    simp
  | @next first later _ _ ih ih' =>
    obtain ⟨log, between, marks, follows⟩ := ih apis scopes
    obtain ⟨log', scopes', marks', follows'⟩ := ih' apis between
    refine ⟨log ++ log', scopes', marks'.trans marks, fun w ofApis ofScopes => ?_⟩
    have start := follows w ofApis ofScopes
    have rest := follows' (first w) (start.apis.trans ofApis) start.scopes
    refine ⟨rest.apis.trans start.apis, rest.scopes, ?_, start.found.trans rest.found⟩
    rw [rest.sinks, start.sinks]
    simp [List.foldl_append]
  | given visit _ ih =>
    -- the visit that is chosen is the same wherever the walk starts with these scopes
    obtain ⟨log, scopes', marks, follows⟩ := ih apis scopes apis scopes
    refine ⟨log, scopes', marks, fun w ofApis ofScopes => ?_⟩
    have run := follows w ofApis ofScopes
    rwa [← ofApis, ← ofScopes] at run
  | @record path _ =>
    refine ⟨[path.text], scopes, rfl, fun w _ same => ⟨rfl, same, rfl, ?_⟩⟩
    -- the root is entered first, so there is a name that the dependency leads on from
    have enters := Entries.keys_insert_unless w.found.names path.root TopLevelName.free
    refine (Resolution.onward_enter enters).trans (Resolution.onward_dependency ?_ path.leadsFrom_text)
    rw [enters]
    exact mem_insertNew.2 (.inr rfl)
  | @enter name step enters =>
    refine ⟨[], scopes, rfl, fun w _ same => ?_⟩
    obtain ⟨names, entered, keys⟩ := enters w
    rw [entered]
    exact ⟨rfl, same, by simp, Resolution.onward_enter keys⟩
  | @rescope change marks =>
    refine ⟨[], change scopes, marks scopes, fun w _ same => ⟨rfl, congrArg change same, ?_, .refl _⟩⟩
    simp
  | inScope isFunction _ ih =>
    obtain ⟨log, scopes', marks, follows⟩ := ih apis ({ isFunction } :: scopes)
    refine ⟨log, scopes'.drop 1, ?_, fun w ofApis ofScopes => ?_⟩
    · rw [List.map_drop, marks]
      rfl
    · have inner := follows { w with scopes := { isFunction } :: w.scopes } ofApis (congrArg _ ofScopes)
      exact ⟨inner.apis, congrArg (List.drop 1) inner.scopes, inner.sinks, inner.found⟩
  | collectFor names _ ih =>
    -- the visit does not see that one more collects
    obtain ⟨log, scopes', marks, follows⟩ := ih apis scopes
    exact ⟨log, scopes', marks, fun w ofApis ofScopes =>
      (collectFor_follows names (follows w.collecting ofApis ofScopes)).1⟩

/-- The dependencies that a visit records, in the order of first sight. -/
def recorded (w : Walk) (visit : Walk → Walk) : List String :=
  (visit { w with found := {} }).found.dependencies

namespace IsVisit

variable {w : Walk}

theorem onward (visits : IsVisit M visit) (w : Walk) : ∃ log, w.found.Onward log (visit w).found := by
  obtain ⟨log, _, _, follows⟩ := visits.follows w.apis w.scopes
  exact ⟨log, (follows w rfl rfl).found⟩

theorem keeps (visits : IsVisit M visit) (w : Walk) : w.found.Keeps (visit w).found := by
  obtain ⟨_, onward⟩ := visits.onward w
  exact onward.keeps

theorem inFunction (visits : IsVisit M visit) (w : Walk) : (visit w).scopes.inFunction = w.scopes.inFunction := by
  obtain ⟨_, _, marks, follows⟩ := visits.follows w.apis w.scopes
  rw [(follows w rfl rfl).scopes]
  exact Scopes.inFunction_eq_of_marks marks

/-- A visit finds what has been found before it and what it records. -/
theorem dependencies (visits : IsVisit M visit) (w : Walk) :
    (visit w).found.dependencies = addNew w.found.dependencies (w.recorded visit) := by
  obtain ⟨log, _, _, follows⟩ := visits.follows w.apis w.scopes
  have fresh := (follows { w with found := {} } rfl rfl).found.recorded
  rw [(follows w rfl rfl).found.recorded, foldl_insertNew_addNew]
  exact congrArg _ fresh.symm

/-- All that a visit records is listed under each name that it is collected for. -/
theorem collected (visits : IsVisit M visit) (w : Walk) {names : List String} {name : String} (mem : name ∈ names) :
    ∃ ds, (w.collectFor names visit).found.declared.get? name = some ds ∧ ∀ d ∈ w.recorded visit, d ∈ ds := by
  obtain ⟨log, scopes, _, follows⟩ := visits.follows w.apis w.scopes
  obtain ⟨-, listed⟩ := collectFor_follows names (follows w.collecting rfl rfl)
  obtain ⟨ds, there, all⟩ := listed name mem
  refine ⟨ds, there, fun d recorded => all d ?_⟩
  -- without anything found before, the dependencies are those of the log
  have fresh := (follows { w with found := {} } rfl rfl).found.recorded
  unfold Walk.recorded at recorded
  rw [fresh] at recorded
  exact (mem_foldl_insertNew.1 recorded).resolve_left List.not_mem_nil

end IsVisit

end Walk

end Dependency

end BindScript
