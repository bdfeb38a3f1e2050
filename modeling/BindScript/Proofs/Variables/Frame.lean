import BindScript.Proofs.Frame.Enclosure
import BindScript.Variables.Resolve

/-!
# Resolving variables leaves the state of the caller alone

Both passes of a resolution run next to a copy of the local context. What they are given besides are the
values in the local context, the app context, the globals, declared values and remembered ones. Unless one
of these leads to the local object, no evaluation gets hold of it, whatever it assigns, deletes, freezes or
calls: afterwards the object has the same properties in the same order, and is frozen or not as before
(`locals_kept`).

What is remembered is carried along as an invariant: every value that one pass puts into the memory is in
the zone, so that a later hit gives nothing else.
-/

namespace BindScript

namespace Variables

open EvalM

variable {z : Zone} {first : Heap} {ctx : Context} {cache : Cache} {tables : DependencyTables}

/-- The value that is remembered is in the zone, for each of the two passes. -/
def CacheEntry.Inside (z : Zone) (entry : CacheEntry) : Prop :=
  ∀ pass memo, entry.memo? pass = some memo → z.Holds memo.value

/-- All remembered values are in the zone. -/
def Cache.Inside (z : Zone) (cache : Cache) : Prop :=
  ∀ named ∈ cache.entries, named.2.Inside z

/-- A value there is, and all that is remembered, are in the zone. -/
def Known {ε : Type} (z : Zone) (outcome : Except ε Value × Cache) : Prop :=
  (∀ v, outcome.1 = .ok v → z.Holds v) ∧ outcome.2.Inside z

theorem Cache.Inside.insert {name : String} {entry : CacheEntry} (inside : cache.Inside z)
    (new : entry.Inside z) : Cache.Inside z { cache with entries := cache.entries.insert name entry } := by
  intro named mem
  rcases Entries.eq_or_mem_of_mem_insert mem with rfl | old
  · exact new
  · exact inside named old

theorem CacheEntry.Inside.setMemo {entry : CacheEntry} {memo : Memo} (inside : entry.Inside z)
    (value : z.Holds memo.value) (pass : Pass) : (entry.setMemo memo pass).Inside z := by
  intro other found here
  cases pass <;> cases other
  · cases here
    exact value
  · exact inside .complete found here
  · exact inside .progressive found here
  · cases here
    exact value

/-- Parsing remembers no values. -/
theorem cacheEntry_inside (tables : DependencyTables) (inside : cache.Inside z) (name : String) (source : Source) :
    (cacheEntry tables cache name source).2.Inside z ∧
      ∀ entry, (cacheEntry tables cache name source).1 = .ok entry → entry.Inside z := by
  unfold cacheEntry
  cases current : cache.current? name source.key with
  | some entry =>
    refine ⟨inside, fun entry' same => ?_⟩
    cases same
    exact inside _ (Entries.mem_of_get? (Option.filter_eq_some_iff.1 current).1)
  | none =>
    dsimp only
    cases source.tree with
    | error issue =>
      refine ⟨inside, fun entry same => ?_⟩
      cases same
    | ok tree =>
      have new : ∀ dependencies, CacheEntry.Inside z ⟨source.key, tree, dependencies, none, none⟩ := by
        intro dependencies pass memo none
        cases pass <;> cases none
      refine ⟨inside.insert (new _), fun entry same => ?_⟩
      cases same
      exact new _

/-- What a variable comes to may be remembered, since it does not reach outside of the zone either. -/
theorem confines_evalEntry (context : ctx.Inside z) (inside : cache.Inside z) {entry : CacheEntry}
    (remembered : entry.Inside z) (pass : Pass) (name : String) :
    z.Confines first (Known z) (evalEntry tables ctx cache pass name entry) := by
  refine (Zone.confines_readHeap (P := fun _ => True) fun _ _ => trivial).bind fun inputs _ => ?_
  cases current : (entry.memo? pass).filter (·.isCurrent inputs) with
  | some memo =>
    -- nothing is evaluated: the value is the one that was remembered for this pass
    refine Zone.confines_pure ⟨fun v same => ?_, inside⟩
    cases same
    exact remembered pass memo (Option.filter_eq_some_iff.1 current).1
  | none =>
    refine (Zone.confines_evaluate context entry.tree).attempt.bind fun result value => ?_
    match result with
    | .ok v =>
      have holds := value v rfl
      refine Zone.confines_pure ⟨fun u same => ?_, inside.insert (remembered.setMemo holds pass)⟩
      cases same
      exact holds
    | .error (.error e) => exact Zone.confines_pure ⟨nofun, inside⟩
    | .error (.jump j) => exact Zone.confines_throw _
    | .error .exhausted | .error .clash => exact Zone.confines_throw _

/-- Resolving one declaration stays within what the context and the cache can reach. -/
theorem confines_resolveOne (context : ctx.Inside z) (inside : cache.Inside z) (pass : Pass)
    (name : String) {declaration : Declaration} (declared : ∀ v, declaration = .value v → z.Holds v) :
    z.Confines first (Known z) (resolveOne tables ctx cache pass name declaration) := by
  cases declaration with
  | value v =>
    refine Zone.confines_pure ⟨fun u same => ?_, inside⟩
    cases same
    exact declared v rfl
  | source source =>
    have parsed := cacheEntry_inside tables inside name source
    dsimp only [resolveOne]
    generalize cacheEntry tables cache name source = outcome at parsed ⊢
    obtain ⟨issue | entry, cache⟩ := outcome
    · exact Zone.confines_pure ⟨nofun, parsed.1⟩
    · refine (confines_evalEntry context parsed.1 (parsed.2 entry rfl) pass name).bind fun outcome known => ?_
      obtain ⟨e | v, cache⟩ := outcome
      · exact Zone.confines_pure ⟨nofun, known.2⟩
      · refine Zone.confines_pure ⟨fun u same => ?_, known.2⟩
        cases same
        exact known.1 v rfl

/-- The copy of an object is an object of the zone, if the values in the object are in the zone. -/
theorem confines_snapshot {o : Nat}
    (inside : ∀ h, z.Encloses first h → ∀ u ∈ h.children (.object o), z.Holds u) :
    z.Confines first (fun v => ∃ k, v = .object k ∧ z.objects k) (snapshot (.object o)) := by
  refine Zone.Confines.bind
    (Zone.confines_readHeap (P := fun entries => ∀ entry ∈ entries, z.Holds entry.2) ?_) ?_
  · exact fun h encloses entry mem => inside h encloses _ (List.mem_map_of_mem mem)
  · intro entries values s encloses
    refine ⟨⟨_, rfl, encloses.newObjects _ (le_refl _)⟩, encloses.newObject fun u mem => ?_⟩
    obtain ⟨entry, there, rfl⟩ := List.mem_map.1 mem
    rcases Entries.mem_or_mem_of_mem_insertAll there with none | there
    · cases none
    · exact values entry there

/-- Each variable is stored in the overlay, which is in the zone. -/
theorem confines_passProgressive {k : Nat} (context : ctx.Inside z) (overlay : z.objects k)
    {declarations : Entries Declaration}
    (declared : ∀ name v, (name, Declaration.value v) ∈ declarations → z.Holds v) (inside : cache.Inside z) :
    z.Confines first (Cache.Inside z) (passProgressive tables ctx (.object k) cache declarations) := by
  induction declarations generalizing cache with
  | nil => exact Zone.confines_pure inside
  | cons named rest ih =>
    obtain ⟨name, declaration⟩ := named
    have later : ∀ name v, (name, Declaration.value v) ∈ rest → z.Holds v := fun name v mem =>
      declared name v (List.mem_cons_of_mem _ mem)
    refine (confines_resolveOne context inside .progressive name fun v same =>
      declared name v (same ▸ List.mem_cons_self)).bind fun outcome known => ?_
    obtain ⟨failure | v, cache⟩ := outcome
    · exact ih later known.2
    · have holds := known.1 v rfl
      refine (Zone.confines_readHeap (P := fun _ => True) fun _ _ => trivial).bind fun takes _ => ?_
      split
      · refine (Zone.confines_modifyHeap fun h encloses => ?_).bind fun _ _ => ih later known.2
        exact encloses.set_object overlay name holds
      · exact ih later known.2

theorem confines_passComplete (context : ctx.Inside z) {declarations : Entries Declaration}
    (declared : ∀ name v, (name, Declaration.value v) ∈ declarations → z.Holds v) (inside : cache.Inside z)
    (resolved : Resolved) :
    z.Confines first (fun _ => True) (passComplete tables ctx cache resolved declarations) := by
  induction declarations generalizing cache resolved with
  | nil => exact Zone.confines_pure trivial
  | cons named rest ih =>
    obtain ⟨name, declaration⟩ := named
    exact (confines_resolveOne context inside .complete name fun v same =>
      declared name v (same ▸ List.mem_cons_self)).bind fun outcome known =>
        ih (fun name v mem => declared name v (List.mem_cons_of_mem _ mem)) known.2 _

/-- The values that a resolution is given, besides the local context itself. -/
inductive Given (ctx : Context) (cache : Cache) (declarations : Entries Declaration) (h : Heap) : Value → Prop
  | property {v : Value} (mem : v ∈ h.children ctx.locals) : Given ctx cache declarations h v
  | app : Given ctx cache declarations h ctx.app
  | global {entry : String × Value} (mem : entry ∈ ctx.globals) : Given ctx cache declarations h entry.2
  | declared {name : String} {v : Value} (mem : (name, .value v) ∈ declarations) :
    Given ctx cache declarations h v
  | remembered {named : String × CacheEntry} {pass : Pass} {memo : Memo} (mem : named ∈ cache.entries)
    (found : named.2.memo? pass = some memo) : Given ctx cache declarations h memo.value

/-- **The state of the caller is left alone.** Unless the local object can be reached from what a resolution
is given, it has the same properties in the same order afterwards, and is frozen or not as it was, whatever
the declarations do and however the resolution ends. -/
theorem locals_kept (tables : DependencyTables) (ctx : Context) (cache : Cache)
    (declarations : Entries Declaration) (s : State) {o : Nat} (locals : ctx.locals = .object o)
    (there : o < s.heap.objects.size)
    (apart : ∀ v, Given ctx cache declarations s.heap v → ¬ s.heap.LeadsTo v (.object o)) :
    ((resolveAll tables ctx cache declarations).stateAfter s).heap.objectAt o = s.heap.objectAt o := by
  let z := s.heap.reach (Given ctx cache declarations s.heap)
  have encloses : z.Encloses s.heap s.heap := Heap.reach_encloses _ _
  -- nothing given leads to the local object, and it is not new
  have outside : ¬ z.objects o := by
    rintro (⟨v, given, leads⟩ | new)
    · exact apart v given leads
    · omega
  have given : ∀ {v}, Given ctx cache declarations s.heap v → z.Holds v := Heap.reach_holds
  have inside : ∀ k, z.objects k → Context.Inside { ctx with locals := .object k } z := fun k holds =>
    ⟨holds, given .app, fun entry mem => given (.global mem)⟩
  have remembered : cache.Inside z := fun named mem pass memo found => given (.remembered mem found)
  have declared : ∀ name v, (name, Declaration.value v) ∈ declarations → z.Holds v :=
    fun name v mem => given (.declared mem)
  have confined : z.Confines s.heap (fun _ => True) (resolveAll tables ctx cache declarations) := by
    unfold resolveAll
    rw [locals]
    -- a copy of the local object for the first pass, and a copy of that one for the second
    refine (confines_snapshot fun h encloses u mem => ?_).bind ?_
    · simp only [Heap.children, Heap.properties, encloses.objects o outside] at mem
      exact given (.property (locals ▸ mem))
    · rintro - ⟨k, rfl, overlay⟩
      refine (confines_passProgressive (inside k overlay) overlay declared remembered).bind fun cache known => ?_
      refine (confines_snapshot fun h encloses => encloses.children (.object k) rfl overlay).bind ?_
      rintro - ⟨k, rfl, copy⟩
      exact confines_passComplete (inside k copy) declared known {}
  exact (confined.encloses_stateAfter encloses).objects o outside

/-- A caller's object with a number and a list, and a function that has captured the list. -/
def countedList : State where
  heap :=
    { arrays := #[{ items := #[.number 1.0] }]
      objects := #[{ properties := [("count", .number 1.0), ("list", .array 0)] }]
      closures := #[⟨none, .mk [] none (.expr (.name "held")), #[⟨"held", 0, .const⟩]⟩]
      cells := #[.array 0] }

/-- Declarations that write to names of the caller, one of which is given the function as a value. -/
def countingDeclarations : Entries Declaration :=
  [("grown", .source (.parsed 0 (.assign .assign (.name "count")
      (.call (.member (.name "list") "push" false) [.name "count"] false)))),
    ("held", .value (.closure 0)),
    ("again", .source (.text "held()")),
    ("lost", .source (.text "list = gone"))]

/-- Counting changes the list but not the object that has it. -/
theorem counted_list_kept :
    ((resolveAll ⟨[], {}⟩ { locals := .object 0, app := .undefined } {} countingDeclarations).stateAfter
      countedList).heap.objectAt 0 = { properties := [("count", .number 1.0), ("list", .array 0)] } := by
  -- No reference leads from the list or the function to the object.
  let Apart (v : Value) := (∃ x, v = .number x) ∨ v = .undefined ∨ v = .array 0 ∨ v = .closure 0
  have closed : ∀ v, Apart v → ∀ u ∈ countedList.heap.referents v, Apart u := by
    rintro v (⟨x, rfl⟩ | rfl | rfl | rfl) u mem
    · cases mem
    · cases mem
    · exact .inl ⟨1.0, List.mem_singleton.1 mem⟩
    · exact .inr (.inr (.inl (List.mem_singleton.1 mem)))
  refine locals_kept _ _ {} _ countedList rfl (by decide) fun v given leads => ?_
  have start : Apart v := by
    cases given with
    | property mem =>
      rcases List.mem_pair.1 mem with rfl | rfl
      · exact .inl ⟨1.0, rfl⟩
      · exact .inr (.inr (.inl rfl))
    | app => exact .inr (.inl rfl)
    | global mem => cases mem
    | remembered mem => cases mem
    | declared mem =>
      simp only [countingDeclarations, List.mem_cons, Prod.mk.injEq, reduceCtorEq, and_false, false_or,
        Declaration.value.injEq, List.not_mem_nil, or_false] at mem
      exact .inr (.inr (.inr mem.2))
  rcases leads.stays closed start with ⟨x, not⟩ | not | not | not <;> cases not

end Variables

end BindScript
