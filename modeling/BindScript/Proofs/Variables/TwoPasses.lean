import BindScript.Proofs.Variables.Plain
import BindScript.Variables.Resolve

/-!
# Two passes are enough

A declaration may refer to declarations after it. The first pass shows it their old values, or none; the
second pass shows it what all declarations have come to in the first one. This is enough when every
declaration that is referred to is settled: a value, or an expression that refers to settled declarations
before it only. Then what a resolution returns agrees with itself (`resolved_selfConsistent`).

A settled declaration comes to the same in both passes, because it is shown the same under the names it reads
(`Settled.outcome_eq`). So a name that is settled, or that is the caller's own, means the same next to the
names that the second pass shows as next to all values that are returned (`get?_overlaidNames_of_settled`).

With an empty memory each pass evaluates every declaration, because the two passes remember their values apart:
`Cache.Blank` says so, and is carried through both.
-/

namespace BindScript

open Dependency

namespace Variables

variable {ctx : Context} {s t : State} {m : Entries Value} {cache : Cache}
  {name : String} {source : Source} {tree : Expr} {pass : Pass}

/-! ## The memory -/

/-- Nothing is remembered of the values of a source in a pass, and if a tree is, it is that of the source. -/
def Cache.Blank (cache : Cache) (pass : Pass) (name : String) (source : Source) : Prop :=
  ∀ entry, cache.entries.get? name = some entry → source.tree = .ok entry.tree ∧ entry.memo? pass = none

theorem memo?_setMemo_of_ne {entry : CacheEntry} {memo : Memo} {pass other : Pass} (ne : other ≠ pass) :
    (entry.setMemo memo pass).memo? other = entry.memo? other := by
  cases pass <;> cases other <;> first | rfl | exact absurd rfl ne

/-- The tree of a source, from the memory or parsed, without a value for a pass that is blank. -/
theorem cacheEntry_parsed (tables : DependencyTables) (known : cache.Blank pass name source)
    (parsed : source.tree = .ok tree) :
    ∃ entry cache', cacheEntry tables cache name source = (.ok entry, cache') ∧ entry.tree = tree ∧
      (∀ other, cache.Blank other name source → entry.memo? other = none) ∧
      (cache'.entries = cache.entries ∨ cache'.entries = cache.entries.insert name entry) := by
  unfold cacheEntry
  cases current : cache.current? name source.key with
  | some entry =>
    have found := (Option.filter_eq_some_iff.1 current).1
    refine ⟨entry, _, rfl, ?_, fun other blank => (blank entry found).2, .inl rfl⟩
    exact Except.ok.inj ((known entry found).1.symm.trans parsed)
  | none =>
    dsimp only
    rw [parsed]
    refine ⟨_, _, rfl, rfl, fun other _ => ?_, .inr rfl⟩
    cases other <;> rfl

/-- With nothing remembered for the pass, an entry is evaluated, and its value is remembered. -/
theorem evalEntry_blank (tables : DependencyTables) (cache : Cache) (name : String) {entry : CacheEntry}
    {r : Except EvalError Value} (blank : entry.memo? pass = none)
    (gives : ctx.Gives entry.tree s r) :
    ∃ cache' inputs, evalEntry tables ctx cache pass name entry s = .ok (r, cache') s ∧
      cache'.entries = match r with
        | .ok value => cache.entries.insert name (entry.setMemo { inputs, value } pass)
        | .error _ => cache.entries := by
  let inputs := (expandDeps tables.functionDeps entry.dependencies).map (readDependency ctx s.heap)
  -- there is nothing that could be current
  have missed : (entry.memo? pass).filter (·.isCurrent inputs) = none := by rw [blank]; rfl
  unfold evalEntry
  rw [EvalM.bind_of_ok (show EvalM.readHeap _ s = .ok inputs s from rfl), missed]
  dsimp only
  cases r with
  | ok v =>
    have run : EvalM.attempt (ctx.evaluate entry.tree) s = .ok (.ok v) s := by
      unfold EvalM.attempt
      rw [show ctx.evaluate entry.tree s = .ok v s from gives]
    rw [EvalM.bind_of_ok run]
    exact ⟨_, inputs, rfl, rfl⟩
  | error err =>
    have run : EvalM.attempt (ctx.evaluate entry.tree) s = .ok (.error (.error err)) s := by
      unfold EvalM.attempt
      rw [show ctx.evaluate entry.tree s = .error (.error err) s from gives]
    rw [EvalM.bind_of_ok run]
    exact ⟨_, inputs, rfl, rfl⟩

/-- With nothing remembered for the pass, a source is evaluated. What is remembered of other sources stays,
and so does what is not remembered for the other pass. -/
theorem resolveOne_source (tables : DependencyTables) {r : Except EvalError Value}
    (blank : cache.Blank pass name source) (parsed : source.tree = .ok tree) (gives : ctx.Gives tree s r) :
    ∃ cache', resolveOne tables ctx cache pass name (.source source) s =
        .ok (r.mapError (Failure.mk name source.shown), cache') s ∧
      (∀ other, other ≠ name → cache'.entries.get? other = cache.entries.get? other) ∧
      ∀ other, other ≠ pass → cache.Blank other name source → cache'.Blank other name source := by
  obtain ⟨entry, parsedCache, found, rfl, bare, entries⟩ := cacheEntry_parsed tables blank parsed
  obtain ⟨cache', inputs, run, remembered⟩ := evalEntry_blank tables parsedCache name
    (bare pass blank) gives
  refine ⟨cache', ?_, fun other ne => ?_, fun other ne blank entry' found' => ?_⟩
  · dsimp only [resolveOne]
    rw [found]
    dsimp only
    rw [EvalM.bind_of_ok run]
    rfl
  · have parsedOnly : parsedCache.entries.get? other = cache.entries.get? other := by
      rcases entries with same | inserted
      · rw [same]
      · rw [inserted, Entries.get?_insert_of_ne ne]
    rw [remembered, ← parsedOnly]
    cases r with
    | ok v => exact Entries.get?_insert_of_ne ne
    | error => rfl
  -- only a value is remembered, for this pass, and the memo of the other passes stays blank
  · rw [remembered] at found'
    cases r with
    | ok v =>
      rw [Entries.get?_insert_self] at found'
      obtain rfl := Option.some.inj found'
      refine ⟨?_, (memo?_setMemo_of_ne ne).trans (bare other blank)⟩
      rw [parsed]
      cases pass <;> rfl
    | error =>
      rcases entries with same | inserted
      · rw [same] at found'
        exact blank entry' found'
      · rw [inserted, Entries.get?_insert_self] at found'
        obtain rfl := Option.some.inj found'
        exact ⟨parsed, bare other blank⟩

/-! ## The passes -/

/-- What a declaration comes to next to the given names. -/
def Declaration.outcome (ctx : Context) (s : State) (m : Entries Value) (name : String) :
    Declaration → Except Failure Value
  | .value v => .ok v
  | .source source => match source.tree with
    | .ok tree => (ctx.outcome s m tree).mapError (Failure.mk name source.shown)
    | .error issue => .error ⟨name, source.shown, .parse issue⟩

/-- A declared value is in the heap; and a declared expression is plain, and not deeper than evaluations
go. -/
def Declaration.Plain (h : Heap) : Declaration → Prop
  | .value v => h.Allocates v
  | .source source => ∃ tree, source.tree = .ok tree ∧ tree.Plain ∧ tree.height ≤ grantedLevels

/-- Nothing is remembered for the pass of the declarations. -/
def Cache.AllBlank (cache : Cache) (pass : Pass) (declarations : Entries Declaration) : Prop :=
  ∀ name source, (name, .source source) ∈ declarations → cache.Blank pass name source

/-- The names that are shown, with the value of one more declaration if it has one. -/
def learn (ctx : Context) (s : State) (m : Entries Value) (named : String × Declaration) : Entries Value :=
  match named.2.outcome ctx s m named.1 with
  | .ok v => m.insert named.1 v
  | .error _ => m

/-- What is resolved, with the outcome of one more declaration next to the given names. -/
def note (ctx : Context) (s : State) (m : Entries Value) (resolved : Resolved) (named : String × Declaration) :
    Resolved :=
  match named.2.outcome ctx s m named.1 with
  | .ok v => { resolved with values := resolved.values.insert named.1 v }
  | .error failure => { resolved with failures := resolved.failures ++ [failure] }

variable {d : Declaration} {declarations : Entries Declaration}

theorem outcome_source (ctx : Context) (s : State) (m : Entries Value) (name : String)
    (parsed : source.tree = .ok tree) :
    Declaration.outcome ctx s m name (.source source) =
      (ctx.outcome s m tree).mapError (Failure.mk name source.shown) := by
  simp only [Declaration.outcome, parsed]

/-- What a variable comes to is there before anything is evaluated. -/
theorem allocates_of_outcome (starts : ctx.Starts s) (held : m.Held s.heap) (plain : d.Plain s.heap) {v : Value}
    (value : d.outcome ctx s m name = .ok v) : s.heap.Allocates v := by
  cases d with
  | value u =>
    cases value
    exact plain
  | source source =>
    obtain ⟨tree, parsed, plain, enough⟩ := plain
    rw [outcome_source _ _ _ _ parsed] at value
    cases outcome : ctx.outcome s m tree with
    | ok u =>
      rw [outcome] at value
      cases value
      exact (starts.gives_outcome ⟨.refl _, rfl⟩ held plain enough).1 _ outcome
    | error err =>
      rw [outcome] at value
      cases value

/-- A declaration of which nothing is remembered for the pass is resolved to its outcome. -/
theorem resolveOne_outcome (tables : DependencyTables) (cache : Cache) (pass : Pass) (name : String)
    (starts : ctx.Starts s) (later : s.Later t) (held : m.Held s.heap) (plain : d.Plain s.heap)
    (blank : ∀ source, d = .source source → cache.Blank pass name source) :
    ∃ cache', resolveOne tables (ctx.beside t) cache pass name d (t.showing m) =
        .ok (d.outcome ctx s m name, cache') (t.showing m) ∧
      (∀ other, other ≠ name → cache'.entries.get? other = cache.entries.get? other) ∧
      ∀ other, other ≠ pass → ∀ source, d = .source source → cache.Blank other name source →
        cache'.Blank other name source := by
  cases d with
  | value v => exact ⟨cache, rfl, fun _ _ => rfl, fun _ _ _ not => nomatch not⟩
  | source source =>
    obtain ⟨tree, parsed, plain, enough⟩ := plain
    have gives := (starts.gives_outcome later held plain enough).2
    obtain ⟨cache', run, others, stays⟩ := resolveOne_source tables (blank source rfl) parsed gives
    refine ⟨cache', ?_, others, fun other ne source' same => ?_⟩
    · rw [run, outcome_source _ _ _ _ parsed]
    · cases same
      exact stays other ne

/-- What is learned of one declaration is in the heap. -/
theorem held_learn (starts : ctx.Starts s) (held : m.Held s.heap) (named : String × Declaration)
    (plain : named.2.Plain s.heap) : (learn ctx s m named).Held s.heap := by
  unfold learn
  cases outcome : named.2.outcome ctx s m named.1 with
  | error => exact held
  | ok v =>
    intro n u found
    by_cases same : n = named.1
    · rw [same, Entries.get?_insert_self] at found
      cases found
      exact allocates_of_outcome starts held plain outcome
    · exact held n u ((Entries.get?_insert_of_ne same).symm.trans found)

theorem held_learn_all (starts : ctx.Starts s) (held : m.Held s.heap)
    (plain : ∀ named ∈ declarations, named.2.Plain s.heap) :
    (declarations.foldl (learn ctx s) m).Held s.heap := by
  induction declarations generalizing m with
  | nil => exact held
  | cons named rest ih =>
    obtain ⟨first, others⟩ := List.forall_mem_cons.1 plain
    exact ih (held_learn starts held named first) others

/-- The newest object takes every name. -/
theorem canSet_showing (s : State) (m : Entries Value) (name : String) (v : Value) :
    EvalM.readHeap (·.canSet (.object s.heap.objects.size) name v) (s.showing m) = .ok true (s.showing m) := by
  show EStateM.Result.ok (!((s.heap.newObject m).2.objectAt s.heap.objects.size).frozen) _ = _
  rw [Heap.objectAt_newObject_self]
  rfl

/-- What a pass has found is shown as one property more. -/
theorem set_showing (s : State) (m : Entries Value) (name : String) (v : Value) :
    EvalM.modifyHeap (·.set (.object s.heap.objects.size) name v) (s.showing m) =
      .ok () (s.showing (m.insert name v)) := by
  have objects : (s.heap.objects.push { properties := m }).modify s.heap.objects.size
      (fun o => { o with properties := o.properties.insert name v }) =
        s.heap.objects.push { properties := m.insert name v } := by
    refine Array.ext (by simp) fun i there there' => ?_
    rw [Array.size_push] at there'
    -- the object that shows the names is the last one
    by_cases last : i = s.heap.objects.size
    · subst last
      simp [Array.getElem_modify_self]
    · have old : i < s.heap.objects.size := by omega
      simp [Array.getElem_modify, Array.getElem_push, old, Ne.symm last]
  simp only [EvalM.modifyHeap, State.showing, Heap.newObject, Heap.set, Heap.modifyProperties,
    Heap.modifyObject, objects]

theorem Cache.AllBlank.of_others {cache' : Cache} (blank : cache.AllBlank pass declarations)
    (others : ∀ other ∈ declarations.keys, cache'.entries.get? other = cache.entries.get? other) :
    cache'.AllBlank pass declarations := by
  intro name source mem entry found
  rw [others name (List.mem_map_of_mem mem)] at found
  exact blank name source mem entry found

/-- The first pass shows each declaration what those before it have come to. -/
theorem passProgressive_run (tables : DependencyTables) (starts : ctx.Starts s) (held : m.Held s.heap)
    (plain : ∀ named ∈ declarations, named.2.Plain s.heap) (distinct : declarations.keys.Nodup)
    (first : cache.AllBlank .progressive declarations) (second : cache.AllBlank .complete declarations) :
    ∃ cache', passProgressive tables (ctx.beside s) (.object s.heap.objects.size) cache declarations
        (s.showing m) = .ok cache' (s.showing (declarations.foldl (learn ctx s) m)) ∧
      (∀ other, other ∉ declarations.keys → cache'.entries.get? other = cache.entries.get? other) ∧
      cache'.AllBlank .complete declarations := by
  induction declarations generalizing cache m with
  | nil => exact ⟨cache, rfl, fun _ _ => rfl, nofun⟩
  | cons named rest ih =>
    obtain ⟨name, d⟩ := named
    obtain ⟨here, later⟩ := List.forall_mem_cons.1 plain
    rw [Entries.keys_cons, List.nodup_cons] at distinct
    obtain ⟨cache₁, run, others, stays⟩ := resolveOne_outcome tables cache .progressive name
      starts ⟨.refl _, rfl⟩ held here fun source same =>
        first name source (same ▸ List.mem_cons_self)
    -- What was remembered of the later declarations is still what is remembered.
    have unchanged : ∀ other ∈ Entries.keys rest, cache₁.entries.get? other = cache.entries.get? other :=
      fun other mem => others other fun same => distinct.1 (same ▸ mem)
    have tail : ∀ pass, cache.AllBlank pass ((name, d) :: rest) → cache₁.AllBlank pass rest := fun _ blank =>
      Cache.AllBlank.of_others (fun n source mem => blank n source (List.mem_cons_of_mem _ mem)) unchanged
    obtain ⟨cache₂, runs, others', blank⟩ := ih (held_learn starts held (name, d) here) later
      distinct.2 (tail _ first) (tail _ second)
    refine ⟨cache₂, ?_, fun other absent => ?_, fun n source mem => ?_⟩
    · unfold passProgressive
      rw [EvalM.bind_of_ok run, List.foldl_cons, ← runs]
      dsimp only
      cases outcome : d.outcome ctx s m name with
      | error failure => simp only [learn, outcome]
      | ok v =>
        dsimp only
        rw [EvalM.bind_of_ok (canSet_showing s m name v), if_pos rfl, EvalM.bind_of_ok (set_showing s m name v)]
        simp only [learn, outcome]
    · rw [Entries.keys_cons, List.mem_cons, not_or] at absent
      rw [others' other absent.2, others other absent.1]
    · rcases List.mem_cons.1 mem with here | there
      · -- the first pass has remembered the declaration, but not for the second
        cases here
        intro entry found
        rw [others' name distinct.1] at found
        exact stays .complete nofun source rfl (second name source List.mem_cons_self) entry found
      · exact blank n source there

/-- The second pass shows every declaration the same names. -/
theorem passComplete_run (tables : DependencyTables) (starts : ctx.Starts s) (later : s.Later t)
    (held : m.Held s.heap) (plain : ∀ named ∈ declarations, named.2.Plain s.heap)
    (distinct : declarations.keys.Nodup) (blank : cache.AllBlank .complete declarations) (resolved : Resolved) :
    ∃ cache', passComplete tables (ctx.beside t) cache resolved declarations (t.showing m) =
      .ok (declarations.foldl (note ctx s m) resolved, cache') (t.showing m) := by
  induction declarations generalizing cache resolved with
  | nil => exact ⟨cache, rfl⟩
  | cons named rest ih =>
    obtain ⟨name, d⟩ := named
    obtain ⟨here, others⟩ := List.forall_mem_cons.1 plain
    rw [Entries.keys_cons, List.nodup_cons] at distinct
    obtain ⟨cache₁, run, unchanged, -⟩ := resolveOne_outcome tables cache .complete name
      starts later held here fun source same =>
        blank name source (same ▸ List.mem_cons_self)
    have tail : cache₁.AllBlank .complete rest :=
      Cache.AllBlank.of_others (fun n source mem => blank n source (List.mem_cons_of_mem _ mem))
        fun other mem => unchanged other fun same => distinct.1 (same ▸ mem)
    obtain ⟨cache₂, runs⟩ := ih others distinct.2 tail (note ctx s m resolved (name, d))
    refine ⟨cache₂, ?_⟩
    unfold passComplete
    rw [EvalM.bind_of_ok run, List.foldl_cons, ← runs]
    dsimp only
    cases outcome : d.outcome ctx s m name <;> simp only [note, outcome]

/-- The names of the caller, as a resolution starts with them. -/
def callerNames (ctx : Context) (s : State) : Entries Value :=
  Entries.insertAll [] (s.heap.entries ctx.locals)

theorem held_callerNames (starts : ctx.Starts s) : (callerNames ctx s).Held s.heap := by
  have locals : Value.Alike s.heap.zone.pairing ctx.locals ctx.locals :=
    starts.context.inside.locals.alike
  have entries := (Zone.entriesAlike_iff.1 ((Heap.heapAlike_zone starts.heap).entries locals)).2
  intro n v found
  rcases Entries.mem_or_mem_of_mem_insertAll (Entries.mem_of_get? found) with none | mem
  · cases none
  · exact Heap.holds_zone.1 (entries v (List.mem_map_of_mem mem))

/-- The names that a resolution of the declarations shows to every expression of its second pass. -/
def shownNames (ctx : Context) (s : State) (declarations : Entries Declaration) : Entries Value :=
  declarations.foldl (learn ctx s) (callerNames ctx s)

/-- What a resolution with an empty memory comes to. -/
def resolution (ctx : Context) (s : State) (declarations : Entries Declaration) : Resolved :=
  declarations.foldl (note ctx s (shownNames ctx s declarations)) {}

theorem distinct_learn_all {m : Entries Value} (distinct : m.keys.Nodup) :
    (declarations.foldl (learn ctx s) m).keys.Nodup := by
  induction declarations generalizing m with
  | nil => exact distinct
  | cons named rest ih =>
    refine ih ?_
    unfold learn
    split
    · exact Entries.nodup_keys_insert distinct _ _
    · exact distinct

/-- A resolution with an empty memory shows each declaration of the first pass what those before it have
come to, and each one of the second pass all that the first pass has shown. -/
theorem resolveAll_run (tables : DependencyTables) (starts : ctx.Starts s)
    (plain : ∀ named ∈ declarations, named.2.Plain s.heap) (distinct : declarations.keys.Nodup)
    (empty : cache.entries = []) :
    ∃ cache', resolveAll tables ctx cache declarations s = .ok (resolution ctx s declarations, cache')
      ((s.showing (shownNames ctx s declarations)).showing (shownNames ctx s declarations)) := by
  generalize names : shownNames ctx s declarations = shown
  have held : shown.Held s.heap := names ▸ held_learn_all starts (held_callerNames starts) plain
  have first : snapshot ctx.locals s = .ok (.object s.heap.objects.size) (s.showing (callerNames ctx s)) := rfl
  have blank : ∀ pass, cache.AllBlank pass declarations := fun pass name source _ entry found => by
    rw [empty] at found
    cases found
  obtain ⟨cache₁, progressive, -, blank⟩ := passProgressive_run tables starts
    (held_callerNames starts) plain distinct (blank .progressive) (blank .complete)
  rw [← shownNames, names] at progressive
  -- the first copy has come to show all names, and so does the second from the start
  have second : snapshot (.object s.heap.objects.size) (s.showing shown) =
      .ok (.object (s.showing shown).heap.objects.size) ((s.showing shown).showing shown) := by
    have properties : (s.showing shown).heap.entries (.object s.heap.objects.size) = shown := by
      simp [State.showing, Heap.entries, Heap.properties, Heap.objectAt_newObject_self]
    have apart : shown.keys.Nodup :=
      names ▸ distinct_learn_all (Entries.nodup_keys_insertAll (by exact List.nodup_nil) _)
    have copied :
        Entries.insertAll [] ((s.showing shown).heap.entries (.object s.heap.objects.size)) = shown := by
      rw [properties]
      exact Entries.insertAll_of_nodup apart
    show EStateM.Result.ok _ ((s.showing shown).showing (Entries.insertAll [] _)) = _
    rw [copied]
  have later : s.Later (s.showing shown) := ⟨(Heap.Extends.refl _).newObject shown, rfl⟩
  obtain ⟨cache₂, complete⟩ := passComplete_run tables starts later held plain distinct blank {}
  refine ⟨cache₂, ?_⟩
  unfold resolveAll
  rw [EvalM.bind_of_ok first]
  refine (EvalM.bind_of_ok progressive).trans ?_
  rw [EvalM.bind_of_ok second, resolution, names]
  exact complete

/-! ## What the passes have shown and noted -/

theorem get?_learn_all_of_not_mem {n : String} (absent : n ∉ declarations.keys) (m : Entries Value) :
    (declarations.foldl (learn ctx s) m).get? n = m.get? n := by
  induction declarations generalizing m with
  | nil => rfl
  | cons named rest ih =>
    rw [Entries.keys, List.map_cons, List.mem_cons, not_or] at absent
    rw [List.foldl_cons, ih absent.2]
    unfold learn
    split
    · exact Entries.get?_insert_of_ne absent.1
    · rfl

theorem get?_note_all_of_not_mem {n : String} (absent : n ∉ declarations.keys) (resolved : Resolved) :
    (declarations.foldl (note ctx s m) resolved).values.get? n = resolved.values.get? n := by
  induction declarations generalizing resolved with
  | nil => rfl
  | cons named rest ih =>
    rw [Entries.keys, List.map_cons, List.mem_cons, not_or] at absent
    rw [List.foldl_cons, ih absent.2]
    unfold note
    split
    · exact Entries.get?_insert_of_ne absent.1
    · rfl

/-- A declaration is shown with what it came to next to those before it. -/
theorem get?_learn_all {before after : Entries Declaration} {n : String}
    (distinct : Entries.keys (before ++ (n, d) :: after) |>.Nodup) (m : Entries Value) :
    ((before ++ (n, d) :: after).foldl (learn ctx s) m).get? n =
      (d.outcome ctx s (before.foldl (learn ctx s) m) n).toOption.or (m.get? n) := by
  have apart := Entries.not_mem_keys_around distinct
  rw [List.foldl_append, List.foldl_cons, get?_learn_all_of_not_mem apart.2, learn]
  dsimp only
  cases d.outcome ctx s (before.foldl (learn ctx s) m) n with
  | ok v => exact Entries.get?_insert_self _ _ _
  | error => exact get?_learn_all_of_not_mem apart.1 m

/-- The value of a declaration is what it came to next to the names that the first pass has shown. -/
theorem get?_note_all (ctx : Context) (s : State) (m : Entries Value) {n : String}
    (distinct : declarations.keys.Nodup) (mem : (n, d) ∈ declarations) :
    (declarations.foldl (note ctx s m) {}).values.get? n = (d.outcome ctx s m n).toOption := by
  obtain ⟨before, after, rfl⟩ := List.append_of_mem mem
  have apart := Entries.not_mem_keys_around distinct
  rw [List.foldl_append, List.foldl_cons, get?_note_all_of_not_mem apart.2, note]
  dsimp only
  cases d.outcome ctx s m n with
  | ok v => exact Entries.get?_insert_self _ _ _
  | error => exact get?_note_all_of_not_mem apart.1 {}

theorem mem_failures {f : Failure} (resolved : Resolved) :
    f ∈ (declarations.foldl (note ctx s m) resolved).failures ↔
      f ∈ resolved.failures ∨ ∃ named ∈ declarations, named.2.outcome ctx s m named.1 = .error f := by
  induction declarations generalizing resolved with
  | nil => simp
  | cons named rest ih =>
    rw [List.foldl_cons, ih, List.exists_mem_cons_iff, ← or_assoc]
    refine or_congr ?_ Iff.rfl
    unfold note
    cases named.2.outcome ctx s m named.1 with
    | ok v => simp
    | error failure => simp [eq_comm]

/-- The values of a resolution have distinct names. -/
theorem distinct_note_all {resolved : Resolved} (distinct : resolved.values.keys.Nodup) :
    (declarations.foldl (note ctx s m) resolved).values.keys.Nodup := by
  induction declarations generalizing resolved with
  | nil => exact distinct
  | cons named rest ih =>
    refine ih ?_
    unfold note
    split
    · exact Entries.nodup_keys_insert distinct _ _
    · exact distinct

/-- What a resolution says of an expression: that it has the value, or that it failed, and nothing else. -/
def Resolved.Reports (resolved : Resolved) (name shown : String) : Except EvalError Value → Prop
  | .ok v => resolved.values.get? name = some v ∧ ∀ f ∈ resolved.failures, f.name ≠ name
  | .error e => resolved.values.get? name = none ∧
      ∀ f : Failure, f ∈ resolved.failures ∧ f.name = name ↔ f = ⟨name, shown, e⟩

/-- A failure has the name of its declaration. -/
theorem name_of_outcome {f : Failure} (failed : d.outcome ctx s m name = .error f) : f.name = name := by
  cases d with
  | value v => cases failed
  | source source =>
    unfold Declaration.outcome at failed
    cases parsed : source.tree with
    | error issue =>
      simp only [parsed] at failed
      cases failed
      rfl
    | ok tree =>
      simp only [parsed] at failed
      cases outcome : ctx.outcome s m tree with
      | ok v => simp [outcome, Except.mapError] at failed
      | error e =>
        rw [outcome] at failed
        cases failed
        rfl

/-- A source is noted once, under its own name, whatever is noted after it. -/
theorem note_all_reports (distinct : declarations.keys.Nodup) (mem : (name, .source source) ∈ declarations)
    (parsed : source.tree = .ok tree) :
    (declarations.foldl (note ctx s m) {}).Reports name source.shown (ctx.outcome s m tree) := by
  have value := get?_note_all ctx s m distinct mem
  have own := outcome_source ctx s m name parsed
  rw [own] at value
  have failures : ∀ f : Failure, f ∈ (declarations.foldl (note ctx s m) {}).failures ∧ f.name = name ↔
      (ctx.outcome s m tree).mapError (Failure.mk name source.shown) = .error f := by
    intro f
    rw [mem_failures, ← own]
    constructor
    · rintro ⟨none | ⟨named, there, failed⟩, rfl⟩
      · cases none
      · have same : named = (f.name, .source source) :=
          List.inj_on_of_nodup_map distinct there mem (name_of_outcome failed).symm
        rwa [same] at failed
    · intro failed
      exact ⟨.inr ⟨_, mem, failed⟩, name_of_outcome failed⟩
  cases outcome : ctx.outcome s m tree with
  | ok v =>
    rw [outcome] at value failures
    exact ⟨value, fun f there same => nomatch (failures f).1 ⟨there, same⟩⟩
  | error e =>
    rw [outcome] at value failures
    refine ⟨value, fun f => (failures f).trans ?_⟩
    simp [Except.mapError, eq_comm]

/-! ## References -/

/-- One declaration refers to another: the name of the other is the root or a variable key of one of its
dependencies. -/
def Refers (apis : TrackedApis) (declarations : Entries Declaration) (x y : String) : Prop :=
  y ∈ declarations.keys ∧ ∃ source tree, (x, .source source) ∈ declarations ∧ source.tree = .ok tree ∧
    Watches (resolve apis (.expression tree) {}).dependencies y

/-- One declaration comes before another. -/
def Before (declarations : Entries Declaration) (y x : String) : Prop :=
  declarations.keys.idxOf y < declarations.keys.idxOf x

instance (declarations : Entries Declaration) (y x : String) : Decidable (Before declarations y x) :=
  inferInstanceAs (Decidable (_ < _))

/-- A declaration is a value, or an expression that refers to settled declarations before it only. -/
inductive Settled (apis : TrackedApis) (declarations : Entries Declaration) : String → Prop
  | value {name : String} {v : Value} (mem : (name, .value v) ∈ declarations) : Settled apis declarations name
  | source {name : String} {source : Source} (mem : (name, .source source) ∈ declarations)
    (before : ∀ y, Refers apis declarations name y → Before declarations y name)
    (settled : ∀ y, Refers apis declarations name y → Settled apis declarations y) :
    Settled apis declarations name

/-- What comes before an entry is neither that entry nor after it. -/
theorem not_mem_rest_of_before {before after : Entries Declaration} {n k : String}
    (distinct : (Entries.keys (before ++ (n, d) :: after)).Nodup)
    (first : Before (before ++ (n, d) :: after) k n) : k ∉ Entries.keys ((n, d) :: after) := by
  have split : Entries.keys (before ++ (n, d) :: after) = before.keys ++ n :: Entries.keys after := by
    simp [Entries.keys]
  have own : n ∉ before.keys := (Entries.not_mem_keys_around distinct).1
  unfold Before at first
  rw [split] at distinct first
  rw [List.idxOf_append_of_notMem own, List.idxOf_cons_self] at first
  intro later
  have apart : k ∉ before.keys := fun early => List.disjoint_of_nodup_append distinct early later
  rw [List.idxOf_append_of_notMem apart] at first
  omega

/-- A settled declaration comes to the same next to those before it as next to all. -/
theorem Settled.outcome_eq (starts : ctx.Starts s) {apis : TrackedApis} {before after : Entries Declaration}
    {n : String} (settled : Settled apis (before ++ (n, d) :: after) n)
    (plain : ∀ named ∈ before ++ (n, d) :: after, named.2.Plain s.heap)
    (distinct : (Entries.keys (before ++ (n, d) :: after)).Nodup) (held : m.Held s.heap) :
    d.outcome ctx s (before.foldl (learn ctx s) m) n =
      d.outcome ctx s ((before ++ (n, d) :: after).foldl (learn ctx s) m) n := by
  have here : (n, d) ∈ before ++ (n, d) :: after := List.mem_append_right _ List.mem_cons_self
  cases d with
  | value v => rfl
  | source source =>
    obtain ⟨tree, parsed, treePlain, enough⟩ := plain _ here
    rw [outcome_source _ _ _ _ parsed, outcome_source _ _ _ _ parsed]
    refine congrArg _ (starts.outcome_congr apis (held_learn_all starts held plain) treePlain enough
      fun k watched => ?_)
    -- The names it reads are those of declarations before it, or of the caller.
    have absent : k ∉ Entries.keys ((n, .source source) :: after) := by
      by_cases declared : k ∈ Entries.keys (before ++ (n, .source source) :: after)
      · have refers : Refers apis (before ++ (n, .source source) :: after) n k :=
          ⟨declared, source, tree, here, parsed, watched⟩
        cases settled with
        | value mem => cases List.inj_on_of_nodup_map distinct here mem rfl
        | source mem first => exact not_mem_rest_of_before distinct (first k refers)
      · intro later
        rw [Entries.keys, List.map_append] at declared
        exact declared (List.mem_append_right _ later)
    rw [List.foldl_append, get?_learn_all_of_not_mem absent]

/-! ## The theorem -/

/-- The names of the caller, overlaid with all values of the resolution. -/
def overlaidNames (ctx : Context) (s : State) (resolved : Resolved) : Entries Value :=
  (callerNames ctx s).insertAll resolved.values

theorem get?_overlaidNames (ctx : Context) (s : State) (declarations : Entries Declaration) (n : String) :
    (overlaidNames ctx s (resolution ctx s declarations)).get? n =
      ((resolution ctx s declarations).values.get? n).or ((callerNames ctx s).get? n) :=
  Entries.get?_insertAll (distinct_note_all (by exact List.nodup_nil)) _ n

/-- All the names that are laid over one another have values in the heap. -/
theorem held_overlaidNames (starts : ctx.Starts s) (plain : ∀ named ∈ declarations, named.2.Plain s.heap)
    (distinct : declarations.keys.Nodup) :
    (overlaidNames ctx s (resolution ctx s declarations)).Held s.heap := by
  have shownHeld : (shownNames ctx s declarations).Held s.heap :=
    held_learn_all starts (held_callerNames starts) plain
  intro n v found
  rw [get?_overlaidNames, Option.or_eq_some_iff] at found
  rcases found with found | ⟨-, found⟩
  · by_cases declared : n ∈ declarations.keys
    · obtain ⟨⟨n, d⟩, mem, rfl⟩ := List.mem_map.1 declared
      rw [resolution, get?_note_all ctx s _ distinct mem] at found
      cases outcome : d.outcome ctx s (shownNames ctx s declarations) n with
      | ok u =>
        rw [outcome] at found
        cases found
        exact allocates_of_outcome starts shownHeld (plain _ mem) outcome
      | error =>
        rw [outcome] at found
        cases found
    · rw [resolution, get?_note_all_of_not_mem declared] at found
      cases found
  · exact held_callerNames starts n v found

/-- A name of the caller or of a settled declaration means the same before and after the second pass. -/
theorem get?_overlaidNames_of_settled (starts : ctx.Starts s) {apis : TrackedApis}
    (plain : ∀ named ∈ declarations, named.2.Plain s.heap) (distinct : declarations.keys.Nodup) {n : String}
    (settled : n ∈ declarations.keys → Settled apis declarations n) :
    (overlaidNames ctx s (resolution ctx s declarations)).get? n = (shownNames ctx s declarations).get? n := by
  rw [get?_overlaidNames]
  by_cases declared : n ∈ declarations.keys
  · obtain ⟨⟨n, d⟩, mem, rfl⟩ := List.mem_map.1 declared
    have settled := settled declared
    rw [resolution, get?_note_all ctx s _ distinct mem]
    obtain ⟨before, after, rfl⟩ := List.append_of_mem mem
    have same := settled.outcome_eq starts plain distinct (held_callerNames starts)
    rw [shownNames, get?_learn_all distinct, same]
  · rw [resolution, get?_note_all_of_not_mem declared, shownNames, get?_learn_all_of_not_mem declared]
    rfl

/-- **Two passes are enough for one level of forward references.** If every declaration refers to settled
ones only, then a resolution with an empty memory agrees with itself: next to the names of the caller,
overlaid with all values it returns, every expression gives what the resolution says of it. -/
theorem resolved_selfConsistent (tables : DependencyTables) (ctx : Context) (declarations : Entries Declaration)
    (cache : Cache) (s : State) (heap : s.heap.WellFormed) (context : ctx.WellFormed s.heap)
    (runs : s.interrupted = false) (empty : cache.entries = []) (distinct : declarations.keys.Nodup)
    (plain : ∀ named ∈ declarations, named.2.Plain s.heap)
    (settled : ∀ x y, Refers tables.apis declarations x y → Settled tables.apis declarations y) :
    ∃ resolved cache' t, resolveAll tables ctx cache declarations s = .ok (resolved, cache') t ∧
      ∀ name source tree, (name, .source source) ∈ declarations → source.tree = .ok tree →
        ∃ r, resolved.Reports name source.shown r ∧
          (ctx.beside t).Gives tree (t.showing (overlaidNames ctx s resolved)) r := by
  have starts : ctx.Starts s := ⟨heap, context, runs⟩
  obtain ⟨cache', run⟩ := resolveAll_run tables starts plain distinct empty
  refine ⟨_, cache', _, run, fun name source tree mem parsed => ?_⟩
  obtain ⟨tree', parsed', treePlain, enough⟩ := plain _ mem
  obtain rfl : tree' = tree := Except.ok.inj (parsed'.symm.trans parsed)
  -- Next to all values the expression comes to what it came to in the second pass.
  have same : ctx.outcome s (overlaidNames ctx s (resolution ctx s declarations)) tree' =
      ctx.outcome s (shownNames ctx s declarations) tree' := by
    refine starts.outcome_congr tables.apis (held_learn_all starts (held_callerNames starts) plain)
      treePlain enough fun n watched => ?_
    exact get?_overlaidNames_of_settled starts plain distinct fun declared =>
      settled name n ⟨declared, source, tree', mem, parsed, watched⟩
  have later : s.Later ((s.showing (shownNames ctx s declarations)).showing (shownNames ctx s declarations)) :=
    ⟨((Heap.Extends.refl _).newObject _).newObject _, rfl⟩
  refine ⟨_, note_all_reports distinct mem parsed, ?_⟩
  rw [← same]
  exact (starts.gives_outcome later (held_overlaidNames starts plain distinct) treePlain enough).2

/-- `a + b`. -/
def sumTree : Expr :=
  .binary .add (.name "a") (.name "b")

/-- `sum: a + b`, `a: "x"` and `b: a`. -/
def forwardSum : Entries Declaration :=
  [("sum", .source (.parsed 0 sumTree)), ("a", .value (.string "x")), ("b", .source (.parsed 1 (.name "a")))]

/-- A caller whose `b` is an old one. -/
def oldNames : State where
  heap := { objects := #[{ properties := [("b", .string "old")] }] }

theorem forwardSum_refers {x y : String} (refers : Refers {} forwardSum x y) :
    x = "sum" ∧ (y = "a" ∨ y = "b") ∨ x = "b" ∧ y = "a" := by
  obtain ⟨-, source, tree, mem, parsed, watches⟩ := refers
  simp only [forwardSum, List.mem_cons, Prod.mk.injEq, Declaration.source.injEq, reduceCtorEq, and_false,
    List.not_mem_nil, or_false, false_or] at mem
  rcases mem with ⟨rfl, rfl⟩ | ⟨rfl, rfl⟩
  · obtain rfl := Except.ok.inj parsed
    have mem : y ∈ ["a", "b"] := mem_of_watches (by decide +kernel) watches
    exact .inl ⟨rfl, by simpa using mem⟩
  · obtain rfl := Except.ok.inj parsed
    have mem : y ∈ ["a"] := mem_of_watches (by decide +kernel) watches
    exact .inr ⟨rfl, List.mem_singleton.1 mem⟩

theorem forwardSum_settled (x y : String) (refers : Refers {} forwardSum x y) : Settled {} forwardSum y := by
  have a : Settled {} forwardSum "a" := .value (v := .string "x") (by simp [forwardSum])
  have only : ∀ z, Refers {} forwardSum "b" z → z = "a" := by
    intro z refers
    rcases forwardSum_refers refers with ⟨not, -⟩ | ⟨-, same⟩
    · exact absurd not (by decide)
    · exact same
  have mem : ("b", Declaration.source (.parsed 1 (.name "a"))) ∈ forwardSum := by simp [forwardSum]
  have b : Settled {} forwardSum "b" := by
    refine .source mem (fun z refers => ?_) fun z refers => ?_
    · rw [only z refers]
      decide
    · exact only z refers ▸ a
  rcases forwardSum_refers refers with ⟨-, rfl | rfl⟩ | ⟨-, rfl⟩
  · exact a
  · exact b
  · exact a

/-- `sum` refers forward to `a` and to `b`, which refers back to `a`; so its value is that of `a + b` next to
all values. -/
theorem forwardSum_selfConsistent :
    ∃ resolved cache t, resolveAll ⟨[], {}⟩ (.within 0) {} forwardSum oldNames = .ok (resolved, cache) t ∧
      ∃ r, resolved.Reports "sum" (Source.parsed 0 sumTree).shown r ∧ ((Context.within 0).beside t).Gives
        sumTree (t.showing (overlaidNames (.within 0) oldNames resolved)) r := by
  have children : ∀ v, ∀ u ∈ oldNames.heap.children v, u = .string "old" := fun v u mem => by
    match v, mem with
    | .object 0, mem => exact List.mem_singleton.1 mem
  have heap : oldNames.heap.WellFormed := ⟨fun v u mem => children v u mem ▸ trivial, fun c => trivial⟩
  have context : (Context.within 0).WellFormed oldNames.heap :=
    ⟨Nat.zero_lt_one, trivial, fun _ mem => absurd mem List.not_mem_nil⟩
  have words : isWord "a" = true ∧ isWord "b" = true := by decide +kernel
  have plain : ∀ named ∈ forwardSum, named.2.Plain oldNames.heap := by
    intro named mem
    simp only [forwardSum, List.mem_cons, List.not_mem_nil, or_false] at mem
    rcases mem with rfl | rfl | rfl
    · exact ⟨sumTree, rfl, by simpa [sumTree, Expr.Plain] using words, by decide⟩
    · trivial
    · exact ⟨.name "a", rfl, words.1, by decide⟩
  obtain ⟨resolved, cache, t, run, consistent⟩ := resolved_selfConsistent ⟨[], {}⟩ (.within 0) forwardSum {}
    oldNames heap context rfl rfl (by decide) plain forwardSum_settled
  exact ⟨resolved, cache, t, run, consistent "sum" _ _ List.mem_cons_self rfl⟩

end Variables

end BindScript
