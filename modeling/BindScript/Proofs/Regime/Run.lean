import BindScript.Evaluation
import BindScript.Evaluation.Native
import BindScript.Proofs.Frozen.Runs
import BindScript.Proofs.Regime.Expression
import BindScript.Proofs.Regime.Method
import BindScript.Proofs.Regime.Statement

/-!
# The regime of a run

What a run has at hand when it starts, and what that leads to (`Run.Reaches`), is the zone of a regime. If all of it
is as the regime asks for (`Run.Ready`), the run keeps to the regime to its end, whatever the end is, and so does
the run next to it (`Run.Ready.ends`).
-/

/-!
## Native functions in a regime

What a native function gives and what it writes is as the regime says. Where sizes are watched, the native functions
that do not check what they build are not called.
-/

namespace BindScript.Regime

variable {R : Regime} {h : Heap} {v target : Value} {given : List Value}

/-! ### Documents -/

namespace Fits

mutual

theorem ofDocument (unsized : ¬ R.sized) : ∀ (d : JsonText.Document) {h : Heap}, R.Fits h →
    R.Fits (h.ofDocument d).2 ∧ R.Holds (h.ofDocument d).1
  | .null, _, fits => ⟨fits, holds_null⟩
  | .bool b, _, fits => ⟨fits, holds_bool b⟩
  | .number n, _, fits => ⟨fits, holds_number n.value⟩
  | .string s, _, fits => ⟨fits, holds_text unsized s⟩
  | .array items, _, fits => by
    obtain ⟨fits, values⟩ :=
      ofDocuments unsized items fits (show ∀ v ∈ (#[] : Array Value).toList, R.Holds v from nofun)
    exact fits.newArray values fun sized => absurd sized unsized
  | .object members, _, fits => by
    obtain ⟨fits, entries⟩ :=
      ofMembers unsized members fits (show ∀ entry ∈ ([] : Entries Value), R.Holds entry.2 from nofun)
    exact fits.newObject entries

theorem ofDocuments (unsized : ¬ R.sized) : ∀ (ds : List JsonText.Document) {h : Heap} {done : Array Value},
    R.Fits h → (∀ v ∈ done.toList, R.Holds v) →
    R.Fits (h.ofDocuments done ds).2 ∧ ∀ v ∈ (h.ofDocuments done ds).1.toList, R.Holds v
  | [], _, _, fits, holds => ⟨fits, holds⟩
  | d :: rest, _, _, fits, holds => by
    obtain ⟨fits, value⟩ := ofDocument unsized d fits
    refine ofDocuments unsized rest fits fun v mem => ?_
    rw [Array.toList_push] at mem
    exact (List.mem_append.1 mem).elim (holds v) fun mem => List.mem_singleton.1 mem ▸ value

theorem ofMembers (unsized : ¬ R.sized) : ∀ (ds : List (String × JsonText.Document)) {h : Heap}
    {done : Entries Value}, R.Fits h → (∀ entry ∈ done, R.Holds entry.2) →
    R.Fits (h.ofMembers done ds).2 ∧ ∀ entry ∈ (h.ofMembers done ds).1, R.Holds entry.2
  | [], _, _, fits, holds => ⟨fits, holds⟩
  | (key, d) :: rest, _, _, fits, holds => by
    obtain ⟨fits, value⟩ := ofDocument unsized d fits
    refine ofMembers unsized rest fits fun entry mem => ?_
    rcases Entries.eq_or_mem_of_mem_insert mem with rfl | mem
    · exact value
    · exact holds entry mem

end

end Fits

theorem length_two : R.Length 2 :=
  fun _ => by decide

namespace Follows

/-! ### Native functions -/

theorem copyEntries {entries : List (String × Value)} (inside : R.Holds target)
    (holds : ∀ entry ∈ entries, R.Holds entry.2) :
    R.Follows (fun _ => True) (NativeFn.copyEntries target entries) (NativeFn.copyEntries target entries) :=
  forM fun entry mem => write inside (holds entry mem) (typeFault _)

theorem assignAll {sources : List Value} (inside : R.Holds target) (holds : ∀ v ∈ sources, R.Holds v) :
    R.Follows R.Holds (NativeFn.assignAll target sources) (NativeFn.assignAll target sources) := by
  unfold NativeFn.assignAll
  cases target with
  | object o =>
    refine bind (forM fun source mem => ?_) fun _ _ => pure inside
    exact bind (readHeap fun h fits => fits.entries (holds source mem)) fun entries inner => copyEntries inside inner
  | _ => exact typeFault _

theorem modifyState {change : State → State} (state : ∀ s, R.At s → R.At (change s)) :
    R.Follows (fun _ => True) (modify change) (modify change) :=
  fun s here => .ok (state s here) trivial

theorem writeIfTaken {key : String} (inside : R.Holds target) (holds : R.Holds v) :
    R.Follows (fun _ => True) (EvalM.writeIfTaken target key v) (EvalM.writeIfTaken target key v) := by
  refine readHeap_bind fun s state => ?_
  cases allowed : s.heap.canSet target key v && !s.heap.clashes target key v with
  | true => exact .ok (state.inHeap (state.heap.set inside holds (Bool.and_eq_true_iff.1 allowed).1)) trivial
  | false => exact .ok state trivial

/-- All that a host comes by is as the regime says, since it starts from arguments that are. -/
theorem run (program : HostProgram) {held : List Value} (sized : R.sized → program.IsSized)
    (holds : ∀ v ∈ held, R.Holds v) : R.Follows R.Holds (program.run held) (program.run held) := by
  have more {held : List Value} {u : Value} (holds : ∀ v ∈ held, R.Holds v) (value : R.Holds u) :
      ∀ v ∈ held ++ [u], R.Holds v := List.forall_mem_append.2 ⟨holds, List.forall_mem_singleton.2 value⟩
  -- what the program holds on to grows from step to step, and all of it fits
  induction program generalizing held with
  | answer i => exact pure (Holds.argument holds i)
  | fail text => exact typeFault _
  | look i next ih => exact reading fun view => ih view (fun on => sized on view) holds
  | same i j next ih => exact ih _ (fun on => sized on _) holds
  | hold literal next ih =>
    refine ih (fun on => (sized on).2) (more holds ?_)
    cases literal with
    | string s => exact holds_string fun on => (sized on).1
    | undefined => exact holds_undefined
    | null => exact holds_null
    | bool b => exact holds_bool b
    | number x => exact holds_number x
  | get i key next ih =>
    exact bind (readHeap fun h fits => fits.get (Holds.argument holds i) key) fun v value => ih sized (more holds value)
  | newArray items next ih =>
    have picked : ∀ v ∈ items.map (Value.argument held), R.Holds v :=
      List.forall_mem_map.2 fun i _ => Holds.argument holds i
    have length : R.Length (items.map (Value.argument held)).toArray.size := fun on => by simpa using (sized on).1
    exact bind (newArray picked length) fun made value => ih (fun on => (sized on).2) (more holds value)
  | newObject entries next ih =>
    refine bind (newObject fun entry mem => ?_) fun made value => ih sized (more holds value)
    rcases Entries.mem_or_mem_of_mem_insertAll mem with mem | mem
    · cases mem
    · obtain ⟨named, -, rfl⟩ := List.mem_map.1 mem
      exact Holds.argument holds named.2
  | set i key j next ih =>
    exact bind (writeIfTaken (Holds.argument holds i) (Holds.argument holds j)) fun taken _ =>
      ih taken (fun on => sized on taken) holds
  | freeze i next ih =>
    exact bind (modifyHeap fun _ fits => fits.freeze (Holds.argument holds i)) fun _ _ => ih sized holds
  | interrupt next ih =>
    exact bind (modifyState fun s (state : R.At s) => state.interrupted true) fun _ _ => ih sized holds
  | note text next ih =>
    exact bind (modifyState fun s (state : R.At s) => state.notes _) fun _ _ => ih sized holds
  | readNotes next ih => exact bind readNotes fun notes _ => ih notes (fun on => sized on notes) holds

theorem invoke (f : NativeFn) (guarded : R.sized → f.IsSized) (holds : ∀ v ∈ given, R.Holds v)
    (length : R.Length given.length) : R.Follows R.Holds (f.invoke given) (f.invoke given) := by
  have unguarded : ¬ f.IsSized → ¬ R.sized := fun unguarded sized => unguarded (guarded sized)
  have first := Holds.argument holds 0
  unfold NativeFn.invoke
  cases f with
  | abs | ceil | floor | round | sqrt | sign | trunc | pow | min | max | parseInt | parseFloat =>
    exact readHeap fun _ _ => holds_number _
  | stringify =>
    refine reading fun shown => ?_
    cases shown with
    | text text => exact pure (holds_text (unguarded id) text)
    | omitted => exact pure holds_undefined
    | tooDeep => exact typeFault _
  | parse =>
    refine reading fun text => ?_
    cases JsonText.parse text with
    | ok document => exact allocate fun _ fits => fits.ofDocument (unguarded id) document
    | error e => exact typeFault _
  | keys =>
    refine reading fun keys => newArray (List.forall_mem_map.2 fun key _ => holds_text (unguarded id) key) ?_
    exact fun sized => absurd sized (unguarded id)
  | values =>
    refine bind (P := fun found : List (String × Value) => ∀ entry ∈ found, R.Holds entry.2)
      (readHeap fun h fits => fits.entries first) fun entries inside => ?_
    exact newArray (List.forall_mem_map.2 inside) fun sized => absurd sized (unguarded id)
  | entries =>
    refine bind (P := fun found : List (String × Value) => ∀ entry ∈ found, R.Holds entry.2)
      (readHeap fun h fits => fits.entries first) fun entries inside => ?_
    refine bind (mapM fun entry mem => newArray ?_ length_two) fun pairs made =>
      newArray made.2 fun sized => absurd sized (unguarded id)
    exact List.forall_mem_cons.2 ⟨holds_text (unguarded id) _, List.forall_mem_singleton.2 (inside entry mem)⟩
  | assign => exact assignAll first fun v mem => holds v (List.mem_of_mem_drop mem)
  | freeze => exact bind (modifyHeap fun _ fits => fits.freeze first) fun _ _ => pure first
  | isFrozen => exact reading fun _ => pure (holds_bool _)
  | isNaN => exact readHeap fun _ _ => holds_bool _
  | isArray | boolean => exact pure (holds_bool _)
  | number =>
    cases given with
    | nil => exact pure (holds_number _)
    | cons => exact readHeap fun _ _ => holds_number _
  | string =>
    cases given with
    | nil => exact pure (holds_text (unguarded id) _)
    | cons => exact readHeap fun _ _ => holds_text (unguarded id) _
  | log =>
    exact reading fun line =>
      bind (modifyState fun s (state : R.At s) => state.console _) fun _ _ => pure holds_undefined
  | host fn => exact run _ (fun sized => guarded sized _ (length sized)) holds

end Follows

end BindScript.Regime

/-!
## Interpreters in a regime

A call does as its body does, and so the interpreters of every number of levels do as the regime says
(`interprets`): each level is made of steps over the level below.
-/

namespace BindScript.Regime

variable {R : Regime} {sub₁ sub₂ : Interpreter} {v callee : Value} {args : List Value} {statements : List Stmt}
  {s t : State}

namespace Follows

/-! ### Calls -/

/-- No jump leaves a function or program. -/
theorem settle {x₁ x₂ : EvalM Value} (x : R.Follows R.Holds x₁ x₂) :
    R.Follows R.Holds (do EvalM.settle (← EvalM.attempt x₁)) (do EvalM.settle (← EvalM.attempt x₂)) := by
  refine attempt_jump x (fun _ holds => pure holds) (fun j leaves => ?_) fun e fails => ?_
  · cases j with
    | ret v => exact pure leaves
    | brk | cont => exact fail trivial
  · cases e with
    | jump j => exact fails.elim
    | _ => rfl

theorem runStatementsIn (sub : R.Interprets sub₁ sub₂) (code : Stmt.AllObey R.code statements) :
    R.Follows R.Holds (EvalM.runStatementsIn sub₁ statements) (EvalM.runStatementsIn sub₂ statements) := by
  unfold EvalM.runStatementsIn
  refine bind (hoistVars statements) fun _ _ => settle ?_
  exact bind (discard (evalStatements sub code)) fun _ _ => pure holds_undefined

theorem bindParams {params : List Element} (sub : R.Interprets sub₁ sub₂) (code : Element.AllObey R.code params)
    (holds : ∀ v ∈ args, R.Holds v) :
    R.Follows (fun left => (∀ v ∈ left, R.Holds v) ∧ left.length ≤ args.length)
      (EvalM.bindParams R.left sub₁ params args) (EvalM.bindParams R.right sub₂ params args) := by
  induction params generalizing args with
  | nil => exact pure ⟨holds, le_refl _⟩
  | cons param rest ih =>
    obtain ⟨target, default⟩ := param
    unfold Element.AllObey Element.Obeys at code
    obtain ⟨⟨targetCode, defaultCode⟩, restCode⟩ := code
    unfold EvalM.bindParams
    refine bind (withDefault sub (Holds.argument holds 0) defaultCode) fun value inside => ?_
    refine bind (bindPattern sub (.declare .param) target targetCode inside) fun _ _ => ?_
    refine (ih restCode fun v mem => holds v (List.mem_of_mem_drop mem)).imp fun left made => ⟨made.1, ?_⟩
    rw [List.length_drop] at made
    exact made.2.trans (Nat.sub_le ..)

theorem runFunctionBody {body : Body} (sub : R.Interprets sub₁ sub₂) (code : body.Obeys R.code) :
    R.Follows R.Holds (EvalM.runFunctionBody sub₁ body) (EvalM.runFunctionBody sub₂ body) := by
  cases body with
  | expr e => exact sub.expr e code
  | block statements => exact runStatementsIn sub code

theorem callClosure {c : Closure} (sub : R.Interprets sub₁ sub₂) (code : c.definition.Obeys R.code)
    (captured : ∀ b ∈ c.captured.toList, R.zone.cells b.cell) (holds : ∀ v ∈ args, R.Holds v)
    (length : R.Length args.length) :
    R.Follows R.Holds (EvalM.callClosure R.left sub₁ c args) (EvalM.callClosure R.right sub₂ c args) := by
  obtain ⟨name, ⟨params, rest, body⟩, bindings⟩ := c
  unfold Function.Obeys at code
  obtain ⟨paramsCode, restCode, bodyCode⟩ := code
  unfold EvalM.callClosure
  refine readingEnv fun entered => ?_
  cases entered with
  | error fault => exact refuse fault
  | ok depth =>
    refine readingEnv fun limit => inEnvironment captured ?_
    refine bind (bindParams sub paramsCode holds) fun left made => ?_
    cases rest with
    | none => exact runFunctionBody sub bodyCode
    | some rest =>
      refine bind (newArray made.1 fun sized => made.2.trans (length sized)) fun remaining inside => ?_
      exact bind (bindPattern sub _ rest restCode inside) fun _ _ => runFunctionBody sub bodyCode

theorem callStep (sub : R.Interprets sub₁ sub₂) (callable : R.Holds callee) (holds : ∀ v ∈ args, R.Holds v)
    (length : R.Length args.length) :
    R.Follows R.Holds (EvalM.callStep R.left sub₁ callee args) (EvalM.callStep R.right sub₂ callee args) := by
  unfold EvalM.callStep
  cases callee with
  | native f => exact invoke f callable.2 holds length
  | closure c =>
    refine bind (P := fun closure : Closure => closure.definition.Obeys R.code ∧
      ∀ b ∈ closure.captured.toList, R.zone.cells b.cell)
      (readHeap fun h fits => ⟨fits.code c callable.1, fits.encloses.closures c callable.1⟩) fun closure inside => ?_
    exact callClosure sub inside.1 inside.2 holds length
  | _ => exact reading fun _ => fail trivial

end Follows

/-! ### Levels -/

/-- The interpreters of any number of levels do as the regime says. -/
theorem interprets (R : Regime) (levels : Nat) :
    R.Interprets (interpreter R.left levels) (interpreter R.right levels) := by
  induction levels with
  | zero =>
    exact ⟨rfl, fun _ _ => Follows.exhausted, fun _ _ => Follows.exhausted, fun _ _ => Follows.exhausted,
      fun _ _ _ _ _ => Follows.exhausted⟩
  | succ levels ih =>
    exact ⟨rfl, fun _ code => Follows.exprStep ih code, fun _ code => Follows.chainStep ih code,
      fun _ code => Follows.stmtStep ih code,
      fun _ _ callable holds length => Follows.callStep ih callable holds length⟩

end BindScript.Regime

/-! ## Runs -/

namespace BindScript

variable {code : NodeRule} {sized parts : Prop} {ctx right : Context} {s : State} {run : Run} {u v : Value}

namespace Run

/-- The values that a run is given besides its context. -/
def given : Run → List Value
  | call callee args => callee :: args
  | _ => []

/-- The bindings that a run starts with. Code on its own starts without any. -/
def scopes (s : State) : Run → Array Binding
  | expression _ | statement _ => s.env.bindings
  | _ => #[]

/-- The code of a run obeys a rule. A function has its code in the heap. -/
def Obeys (R : NodeRule) : Run → Prop
  | expression e | evaluation e => e.Obeys R
  | statement s => s.Obeys R
  | program statements => Stmt.AllObey R statements
  | call .. => True

/-- What a run has at hand, if its code obeys a rule: of the globals, those that code may name. -/
inductive Has (code : NodeRule) (ctx : Context) (s : State) (run : Run) : Value → Prop
  | locals : Has code ctx s run ctx.locals
  | app : Has code ctx s run ctx.app
  | global {id : String} {v : Value} (named : code.expr (.name id)) (found : ctx.globals.get? id = some v) :
    Has code ctx s run v
  | given {v : Value} (mem : v ∈ run.given) : Has code ctx s run v
  | bound {b : Binding} (mem : b ∈ (run.scopes s).toList) : Has code ctx s run (s.heap.cellAt b.cell)

/-- What a run can get at. -/
def Reaches (code : NodeRule) (ctx : Context) (s : State) (run : Run) (u : Value) : Prop :=
  ∃ v, run.Has code ctx s v ∧ s.heap.LeadsTo v u

theorem Has.reaches (has : run.Has code ctx s v) : run.Reaches code ctx s v :=
  ⟨v, has, .refl⟩

theorem Reaches.tail (reaches : run.Reaches code ctx s v) (mem : u ∈ s.heap.referents v) :
    run.Reaches code ctx s u := by
  obtain ⟨start, has, leads⟩ := reaches
  exact ⟨start, has, leads.tail mem⟩

/-- What a run can get at, the variables in its scopes, and all that the heap does not have yet. -/
def zone (code : NodeRule) (ctx : Context) (s : State) (run : Run) : Zone :=
  { s.heap.reach (run.Has code ctx s) with
    cells c := (s.heap.reach (run.Has code ctx s)).cells c ∨ ∃ b ∈ (run.scopes s).toList, b.cell = c }

theorem zone_holds_iff : (run.zone code ctx s).Holds v ↔ (s.heap.reach (run.Has code ctx s)).Holds v := by
  cases v <;> exact Iff.rfl

theorem Reaches.zone_holds (reaches : run.Reaches code ctx s v) : (run.zone code ctx s).Holds v := by
  obtain ⟨start, has, leads⟩ := reaches
  exact zone_holds_iff.2 (Heap.reach_holds_of_leadsTo has leads)

theorem zone_encloses : (run.zone code ctx s).Encloses s.heap s.heap := by
  have encloses := Heap.reach_encloses s.heap (run.Has code ctx s)
  refine { encloses with
    children := fun v container holds u mem =>
      zone_holds_iff.2 (encloses.children v container (zone_holds_iff.1 holds) u mem)
    closures := fun c inside b mem => .inl (encloses.closures c inside b mem)
    cells := fun c inside => ?_
    newCells := fun c new => .inl (encloses.newCells c new) }
  rcases inside with inside | ⟨b, mem, rfl⟩
  · exact zone_holds_iff.2 (encloses.cells c inside)
  · exact (Has.bound mem).reaches.zone_holds

/-- What is inside of a container of the zone is something that the run can get at. -/
theorem reaches_of_mem_children (holds : (run.zone code ctx s).Holds v) (mem : u ∈ s.heap.children v) :
    run.Reaches code ctx s u := by
  have next := Heap.mem_referents_of_mem_children mem
  cases v with
  | array a =>
    rcases holds with ⟨v, has, leads⟩ | new
    · exact Reaches.tail ⟨v, has, leads⟩ next
    · exact absurd mem (Heap.not_mem_children_new_array new)
  | object o =>
    rcases holds with ⟨v, has, leads⟩ | new
    · exact Reaches.tail ⟨v, has, leads⟩ next
    · exact absurd mem (Heap.not_mem_children_new_object new)
  | _ => cases mem

/-- What a run can get at is as a regime asks for. -/
structure Ready (code : NodeRule) (sized : Prop) (ctx : Context) (s : State) (run : Run) : Prop where
  obeys : run.Obeys code
  closures : ∀ c, run.Reaches code ctx s (.closure c) → (s.heap.closureAt c).definition.Obeys code
  values : sized → ∀ v, run.Reaches code ctx s v → v.Sized
  lengths : sized → ∀ a, run.Reaches code ctx s (.array a) → (s.heap.items a).size ≤ maxArrayLength
  arguments : sized → ∀ callee args, run = .call callee args → args.length ≤ maxArrayLength

namespace Ready

/-- The regime that a run keeps to. -/
def regime (ready : run.Ready code sized ctx s) (contexts : right = ctx ∨ parts ∧ ctx.options.strict = true ∧
    right = ctx.lenient) (untried : parts → ∀ statements handler finalizer,
    ¬ code.stmt (.attempt statements handler finalizer)) (guarded : sized → code.Le .guarded) : Regime where
  zone := run.zone code ctx s
  first := s.heap
  code := code
  sized := sized
  parts := parts
  left := ctx
  right := right
  contexts := contexts
  locals := ⟨Has.locals.reaches.zone_holds, fun sized => ready.values sized _ Has.locals.reaches⟩
  app := ⟨Has.app.reaches.zone_holds, fun sized => ready.values sized _ Has.app.reaches⟩
  globals _ _ named found :=
    ⟨(Has.global named found).reaches.zone_holds, fun sized => ready.values sized _ (Has.global named found).reaches⟩
  untried := untried
  guarded := guarded

variable (ready : run.Ready code sized ctx s) (contexts : right = ctx ∨ parts ∧ ctx.options.strict = true ∧
    right = ctx.lenient) (untried : parts → ∀ statements handler finalizer,
    ¬ code.stmt (.attempt statements handler finalizer)) (guarded : sized → code.Le .guarded)

theorem holds (reaches : run.Reaches code ctx s v) : (ready.regime contexts untried guarded).Holds v :=
  ⟨reaches.zone_holds, fun sized => ready.values sized v reaches⟩

/-- The heap that a run starts with is one of its regime. -/
theorem fits : (ready.regime contexts untried guarded).Fits s.heap where
  encloses := zone_encloses
  code c inside := by
    rcases inside with ⟨v, has, leads⟩ | new
    · exact ready.closures c ⟨v, has, leads⟩
    · rw [show s.heap.closureAt c = default by simp [Heap.closureAt, Nat.not_lt.2 new]]
      exact ⟨trivial, trivial, trivial⟩
  lengths a inside sized := by
    rcases inside with ⟨v, has, leads⟩ | new
    · exact ready.lengths sized a ⟨v, has, leads⟩
    · rw [show s.heap.items a = #[] by simp [Heap.items, Heap.arrayAt, Nat.not_lt.2 new]]
      exact Nat.zero_le _
  inside sized v _ holds u mem := ready.values sized u (reaches_of_mem_children holds mem)
  cells sized c inside := by
    rcases inside with (⟨v, k, has, leads, b, mem, rfl⟩ | new) | ⟨b, mem, rfl⟩
    · exact ready.values sized _ (Reaches.tail ⟨v, has, leads⟩ (List.mem_map_of_mem mem))
    · rw [show s.heap.cellAt c = .undefined by simp [Heap.cellAt, Nat.not_lt.2 new]]
      trivial
    · exact ready.values sized _ (Has.bound mem).reaches

end Ready

end Run

namespace Regime

variable {R : Regime} {t : State} {x₁ x₂ : EvalM Value}

/-- What is left when a run has ended. -/
structure Left (R : Regime) (run : Run) (t : State) : Prop where
  heap : R.Fits t.heap
  scopes : ∀ b ∈ (run.scopes t).toList, R.zone.cells b.cell

/-- How a run and the one next to it end: with the same value in the same state, or the first one without a value. -/
def Ended (R : Regime) (run : Run) (r₁ r₂ : EStateM.Result Exit State Value) : Prop :=
  (∃ v t, r₁ = .ok v t ∧ r₂ = .ok v t ∧ R.Left run t ∧ R.Holds v) ∨
    ∃ e t, r₁ = .error e t ∧ R.Left run t ∧ R.Leaves e

theorem Ends.ended {r₁ r₂ : EStateM.Result Exit State Value} (ends : R.Ends R.Holds r₁ r₂)
    (scopes : ∀ t, R.At t → ∀ b ∈ (run.scopes t).toList, R.zone.cells b.cell) : R.Ended run r₁ r₂ := by
  cases ends with
  | ok state result => exact .inl ⟨_, _, rfl, rfl, ⟨state.heap, scopes _ state⟩, result⟩
  | error state leaves => exact .inr ⟨_, _, rfl, ⟨state.heap, scopes _ state⟩, leaves⟩
  | parted _ _ state leaves => exact .inr ⟨_, _, rfl, ⟨state.heap, scopes _ state⟩, leaves⟩

/-- The scopes of `s` may bind anything, but a step on its own starts without them. -/
theorem Follows.ended_fresh (x : R.Follows R.Holds x₁ x₂) (fits : R.Fits s.heap)
    (unbound : ∀ t, run.scopes t = #[]) :
    R.Ended run (R.left.inFreshEnvironment x₁ s) (R.right.inFreshEnvironment x₂ s) := by
  simp only [Context.inFreshEnvironment, EvalM.inEnvironment_apply, right_maxCallDepth]
  have ends := x { s with env := .empty R.left.options.maxCallDepth } ⟨fits, List.forall_mem_nil _⟩
  generalize x₁ { s with env := .empty R.left.options.maxCallDepth } = r₁ at ends ⊢
  generalize x₂ { s with env := .empty R.left.options.maxCallDepth } = r₂ at ends ⊢
  have left : ∀ {t : State}, R.Fits t.heap → R.Left run { t with env := s.env } := fun fits =>
    ⟨fits, fun b mem => by rw [unbound] at mem; cases mem⟩
  cases ends with
  | ok state result => exact .inl ⟨_, _, rfl, rfl, left state.heap, result⟩
  | error state leaves => exact .inr ⟨_, _, rfl, left state.heap, leaves⟩
  | parted _ _ state leaves => exact .inr ⟨_, _, rfl, left state.heap, leaves⟩

theorem granted_interprets (R : Regime) : R.Interprets R.left.interpreter R.right.interpreter :=
  R.interprets grantedLevels

/-- A run that starts in the regime keeps to it to the end, whatever the end is. -/
theorem ended (R : Regime) (fits : R.Fits s.heap) (scopes : ∀ b ∈ (run.scopes s).toList, R.zone.cells b.cell)
    (obeys : run.Obeys R.code) (given : ∀ v ∈ run.given, R.Holds v)
    (length : ∀ callee args, run = .call callee args → R.Length args.length) :
    R.Ended run (run.start R.left s) (run.start R.right s) := by
  have sub := R.granted_interprets
  cases run with
  | expression e => exact (sub.expr e obeys s ⟨fits, scopes⟩).ended fun t state => state.scopes
  | statement st => exact (sub.stmt st obeys s ⟨fits, scopes⟩).ended fun t state => state.scopes
  | evaluation e => exact (Follows.settle (sub.expr e obeys)).ended_fresh fits fun _ => rfl
  | program statements => exact (Follows.runStatementsIn sub obeys).ended_fresh fits fun _ => rfl
  | call callee args =>
    obtain ⟨callable, holds⟩ := List.forall_mem_cons.1 given
    exact (Follows.settle (sub.call callee args callable holds (length callee args rfl))).ended_fresh fits fun _ => rfl

end Regime

/-- A run for which everything is ready keeps to its regime. -/
theorem Run.Ready.ended (ready : run.Ready code sized ctx s)
    (contexts : right = ctx ∨ parts ∧ ctx.options.strict = true ∧ right = ctx.lenient)
    (untried : parts → ∀ statements handler finalizer, ¬ code.stmt (.attempt statements handler finalizer))
    (guarded : sized → code.Le .guarded) :
    (ready.regime contexts untried guarded).Ended run (run.start ctx s) (run.start right s) := by
  refine Regime.ended _ (ready.fits contexts untried guarded) (fun b mem => .inr ⟨b, mem, rfl⟩) ready.obeys
    (fun v mem => ?_) fun callee args same sized => ready.arguments sized callee args same
  exact ready.holds contexts untried guarded (Has.given mem).reaches

end BindScript

/-!
## Strict mode only adds failures

In strict mode an unknown name is a failure, and so is a property of `null` or `undefined`; otherwise both are
`undefined`. A run that gets through in strict mode never met either, so it does the same in lenient mode: it ends
with the same value, and in the same state (`Run.lenient_of_strict`).

This is about code without `try`. A handler sees the failures of strict mode, and may go on with something else.
Functions that the run can get at are code like any other.
-/

namespace BindScript

/-- No statement is a `try`. -/
def NodeRule.untried : NodeRule where
  stmt
    | .attempt .. => False
    | _ => True

/-- A run without `try` that gives a value in strict mode gives this value in lenient mode, and changes the same. -/
theorem Run.lenient_of_strict {ctx : Context} {run : Run} {s t : State} {v : Value}
    (strict : ctx.options.strict = true) (untried : run.Obeys .untried)
    (closures : ∀ c, run.Reaches .untried ctx s (.closure c) → (s.heap.closureAt c).definition.Obeys .untried)
    (given : run.start ctx s = .ok v t) : run.start ctx.lenient s = .ok v t := by
  have ready : run.Ready .untried False ctx s :=
    ⟨untried, closures, False.elim, False.elim, False.elim⟩
  have ended := ready.ended (.inr ⟨trivial, strict, rfl⟩)
    (fun _ _ _ _ => id) False.elim
  rcases ended with ⟨v', t', left, right, -⟩ | ⟨e, t', left, -⟩
  · cases given.symm.trans left
    exact right
  · cases given.symm.trans left

/-- A user with a name, and whether somebody has looked at it. -/
def userState (seen : List (String × Value)) : State where
  heap :=
    { objects := #[{ properties := [("user", .object 1)] }, { properties := ("name", .string "Ann") :: seen }] }

/-- `user.seen = true; return user?.name;` -/
def greeting : Run :=
  .program
    [.expr (.assign .assign (.member (.name "user") "seen" false) (.literal (.bool true))),
      .ret (some (.member (.name "user") "name" true))]

/-- The context of `userState`, in strict mode. -/
def strictContext : Context where
  locals := .object 0
  app := .undefined
  options := { strict := true }

/-- The user is greeted in lenient mode as in strict mode. -/
theorem greeting_lenient :
    greeting.start strictContext.lenient (userState []) =
      .ok (.string "Ann") (userState [("seen", .bool true)]) := by
  refine Run.lenient_of_strict
    rfl ⟨⟨trivial, trivial, ⟨trivial, trivial⟩, trivial⟩, ⟨trivial, trivial, trivial⟩, trivial⟩ ?_ rfl
  -- the local context leads to the user, and the user to a string
  rintro c ⟨v, has, leads⟩
  have start : v ∈ [Value.object 0, .object 1, .string "Ann", .undefined] := by
    cases has with
    | locals | app => simp [strictContext]
    | global _ found => cases found
    | given mem | bound mem => cases mem
  have reached : Value.closure c ∈ [Value.object 0, .object 1, .string "Ann", .undefined] := by
    refine leads.stays (fun v mem u inside => ?_) start
    simp only [List.mem_cons, List.not_mem_nil, or_false] at mem
    rcases mem with rfl | rfl | rfl | rfl
    · cases List.mem_singleton.1 inside
      simp
    · cases List.mem_singleton.1 inside
      simp
    · cases inside
    · cases inside
  simp at reached

end BindScript
