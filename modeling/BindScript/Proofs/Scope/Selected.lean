import BindScript.Proofs.Scope.Quiet
import BindScript.Proofs.Watch.Constants

/-!
# What the names of a pattern hold

Binding a pattern goes through its parts, and evaluates defaults in between. If the defaults are quiet, then all that is
changed on the way are the variables that the pattern binds (`State.Binds`): a part that has been bound keeps its value
to the end (`State.Binds.others`), and containers that parts are taken from are as they were.

`Pattern.Selects` tells which part of a value a name stands for: an item of an array, the property of an object, or the
default where there is none, and what is left of either for the rest. A default is evaluated while the pattern is bound
(`State.Amid`), so it may use the names that have been bound before.
-/

namespace BindScript

variable {s t u s₁ s₂ t₁ t₂ : State} {names more : List String} {name : String} {v : Value}

/-- States that a run goes through: the innermost scope is a part of the bindings, all of them have cells in the heap,
and different names have different cells. -/
structure State.OwnCells (s : State) : Prop where
  inside : s.env.frameStart ≤ s.env.bindings.size
  allocated : s.env.Allocated s.heap
  apart : ∀ b ∈ s.env.bindings.toList, ∀ b' ∈ s.env.bindings.toList, b.cell = b'.cell → b.name = b'.name

/-- The names are bound in the innermost scope, and nothing else is changed. -/
structure State.Binds (names : List String) (s t : State) : Prop where
  /-- Names that the scope does not have are added to it. -/
  declares : s.Declares names t
  /-- New variables have new cells. -/
  fresh : s.Spares noCells t
  /-- New containers and functions may have been made. -/
  grows : s.heap.Grows t.heap
  /-- Only the variables of the scope that have the names may have other values. -/
  kept : ∀ cell < s.heap.cells.size, (∀ b ∈ s.env.currentScope, b.cell = cell → b.name ∉ names) →
    t.heap.cellAt cell = s.heap.cellAt cell

/-- On the way from `s` to `t`, where the names are bound, an evaluation goes from `s₁` to `t₁`. -/
structure State.Amid (names : List String) (s t s₁ t₁ : State) : Prop where
  before : ∃ earlier, earlier ⊆ names ∧ s.Binds earlier s₁
  after : ∃ later, later ⊆ names ∧ t₁.Binds later t

/-- Where a part of a value is bound: the part, or what the default comes to when there is none. -/
inductive OrDefault (sub : Interpreter) (names : List String) (s t : State) : Value → Option Expr → Value → Prop
  | part {v : Value} {default : Option Expr} (there : v = .undefined → default = none) :
    OrDefault sub names s t v default v
  | default {e : Expr} {item : Value} {s₁ t₁ : State} (amid : s.Amid names t s₁ t₁)
    (run : sub.expr e s₁ = .ok item t₁) : OrDefault sub names s t .undefined (some e) item

/-- What the fields of a pattern leave of the entries of a value: each key that no field has, once and with an entry of
its own, and the keys in their order. -/
structure Field.Leave (fields : List Field) (entries : List (String × Value)) (left : Entries Value) : Prop where
  once : left.keys.Nodup
  mem_keys : ∀ key, key ∈ left.keys ↔ key ∈ entries.map Prod.fst ∧ ∀ f ∈ fields, f.key ≠ key
  listed : left ⊆ entries
  order : left.keys.Sublist (entries.map Prod.fst)

/-- The part of a value that a pattern selects for a name, when it is bound on the way from `s` to `t`. -/
inductive Pattern.Selects (sub : Interpreter) (names : List String) (s t : State) :
    Pattern → Value → String → Value → Prop
  | name (id : String) (v : Value) : Selects sub names s t (.name id) v id v
  /-- An item of an array, or a character of a string. -/
  | element {elements : List (Option Element)} {rest : Option Pattern} {v item part : Value} {name : String}
    {items : Array Value} {u : State} {i : Nat} {target : Pattern} {default : Option Expr} (moment : s.Amid names t u u)
    (iterated : EvalM.iterate v u = .ok items u) (stands : elements[i]? = some (some (.mk target default)))
    (given : OrDefault sub names s t (items.getD i .undefined) default item)
    (selects : Selects sub names s t target item name part) :
    Selects sub names s t (.array elements rest) v name part
  /-- A new array of the items after those of the elements. -/
  | rest {elements : List (Option Element)} {rest : Pattern} {v part : Value} {name : String} {items : Array Value}
    {u : State} {a : Nat} (moment : s.Amid names t u u) (iterated : EvalM.iterate v u = .ok items u)
    (new : s.heap.arrays.size ≤ a) (left : t.heap.arrayAt a = { items := items.extract elements.length items.size })
    (selects : Selects sub names s t rest (.array a) name part) :
    Selects sub names s t (.array elements (some rest)) v name part
  /-- A property. -/
  | field {fields : List Field} {rest : Option String} {v item part : Value} {name key : String} {u : State} {i : Nat}
    {target : Pattern} {default : Option Expr} (moment : s.Amid names t u u)
    (stands : fields[i]? = some (.mk key target default))
    (given : OrDefault sub names s t (u.heap.get v key) default item)
    (selects : Selects sub names s t target item name part) :
    Selects sub names s t (.object fields rest) v name part
  /-- A new object of the properties that no field has the key of. -/
  | others {fields : List Field} {v : Value} {name : String} {u : State} {o : Nat} (moment : s.Amid names t u u)
    {properties : Entries Value} (new : s.heap.objects.size ≤ o) (left : t.heap.objectAt o = { properties })
    (remain : Field.Leave fields (u.heap.entries v) properties) :
    Selects sub names s t (.object fields (some name)) v name (.object o)

/-! ## What is bound -/

theorem Environment.Adds.of_mem_currentScope {env env' : Environment} {added : List Binding} {b : Binding}
    (adds : env.Adds env' added) (mem : b ∈ env'.currentScope) : b ∈ env.currentScope ∨ b ∈ added := by
  rw [currentScope, adds.bindings, frameStart_of_grows adds.grows, List.drop_append] at mem
  exact (List.mem_append.1 mem).imp_right List.mem_of_mem_drop

theorem State.Sound.ownCells (sound : s.Sound) : s.OwnCells where
  inside := sound.inside
  allocated b mem := sound.allocated b (.inl (Array.mem_toList_iff.2 mem))
  apart b mem b' mem' same := congrArg Binding.name (sound.coherent b b' (.inl mem) (.inl mem') same)

/-- New names get new cells, so none is shared. -/
theorem State.OwnCells.later (own : s.OwnCells) (later : s.Spares noCells t) : t.OwnCells := by
  obtain ⟨added, adds, fresh⟩ := later.env
  have old : ∀ b ∈ s.env.bindings.toList, b.cell < s.heap.cells.size := fun b mem =>
    own.allocated b (Array.mem_toList_iff.1 mem)
  refine ⟨Environment.inside_of_grows adds.grows own.inside, fun b mem => ?_, fun b mem b' mem' same => ?_⟩
  · rw [← Array.mem_toList_iff, adds.bindings] at mem
    rcases List.mem_append.1 mem with there | new
    · exact Nat.lt_of_lt_of_le (old b there) later.cells
    · exact (fresh.new b new).2
  · -- the cells of new bindings differ from the old ones, and from each other
    rw [adds.bindings] at mem mem'
    rcases List.mem_append.1 mem with there | new <;> rcases List.mem_append.1 mem' with there' | new'
    · exact own.apart b there b' there' same
    · exact absurd (old b there) (Nat.not_lt.2 (same ▸ (fresh.new b' new').1))
    · exact absurd (old b' there') (Nat.not_lt.2 (same ▸ (fresh.new b new).1))
    · exact congrArg Binding.name (List.inj_on_of_nodup_map fresh.distinct new new' same)

namespace State.Binds

theorem of_same (env : t.env = s.env) (cells : t.heap.cells = s.heap.cells) (grows : s.heap.Grows t.heap) :
    s.Binds [] t where
  declares := .of_env env
  fresh := .of_eq env cells
  grows := grows
  kept cell _ _ := by simp only [Heap.cellAt, cells]

theorem refl (s : State) : s.Binds [] s :=
  of_same rfl rfl (.refl s.heap)

theorem ownCells (binds : s.Binds names t) (own : s.OwnCells) : t.OwnCells :=
  own.later binds.fresh

theorem trans (first : s.Binds names t) (second : t.Binds more u) : s.Binds (names ++ more) u where
  declares := first.declares.trans second.declares
  fresh := first.fresh.trans second.fresh
  grows := first.grows.trans second.grows
  kept cell there others := by
    obtain ⟨added, adds, fresh⟩ := first.fresh.env
    have earlier := first.kept cell there fun b mem same name => others b mem same (List.mem_append_left _ name)
    refine (second.kept cell (Nat.lt_of_lt_of_le there first.fresh.cells) fun b mem same name => ?_).trans earlier
    -- what the scope has got in between does not have the cell, which is older
    rcases adds.of_mem_currentScope mem with old | new
    · exact others b old same (List.mem_append_right _ name)
    · exact Nat.not_le.2 there (same ▸ (fresh.new b new).1)

/-- Other names mean what they meant, and have the values that they had. -/
theorem others (own : s.OwnCells) (binds : s.Binds names t) (absent : name ∉ names) :
    t.env.get? t.heap name = s.env.get? s.heap name := by
  obtain ⟨added, adds, -⟩ := binds.fresh.env
  have same : t.env.find? name = s.env.find? name :=
    adds.find?_of_ne fun b mem same => absent (same ▸ (binds.declares.added own.inside adds b mem).1)
  rw [Environment.get?, Environment.get?, same]
  cases found : s.env.find? name with
  | none => rfl
  | some b =>
    -- a variable that may have changed has another name, and so another cell
    have mem := Environment.mem_of_find? found
    refine congrArg some (binds.kept b.cell (own.allocated b mem) fun b' mem' shared named => ?_)
    have alike := own.apart b' (List.mem_of_mem_drop mem') b (Array.mem_toList_iff.2 mem) shared
    rw [alike, Environment.name_of_find? found] at named
    exact absent named

end State.Binds

namespace State.Amid

/-- What happens on a part of the way. -/
theorem trans (outer : s.Amid names t s₁ t₁) (fewer : more ⊆ names) (inner : s₁.Amid more t₁ s₂ t₂) :
    s.Amid names t s₂ t₂ := by
  obtain ⟨⟨earlier, before, first⟩, ⟨later, after, last⟩⟩ := outer
  obtain ⟨⟨earlier', before', first'⟩, ⟨later', after', last'⟩⟩ := inner
  refine ⟨⟨earlier ++ earlier', ?_, first.trans first'⟩, ⟨later' ++ later, ?_, last'.trans last⟩⟩
  · exact List.append_subset_of_subset_of_subset before (List.Subset.trans before' fewer)
  · exact List.append_subset_of_subset_of_subset (List.Subset.trans after' fewer) after

end State.Amid

theorem OrDefault.mono {sub : Interpreter} {v item : Value} {default : Option Expr} (amid : s.Amid names t s₁ t₁)
    (fewer : more ⊆ names) (given : OrDefault sub more s₁ t₁ v default item) :
    OrDefault sub names s t v default item := by
  cases given with
  | part there => exact .part there
  | default inner run => exact .default (amid.trans fewer inner) run

/-- What is selected on a part of the way is selected on the whole way. -/
theorem Pattern.Selects.mono {sub : Interpreter} {p : Pattern} {v part : Value} (amid : s.Amid names t s₁ t₁)
    (fewer : more ⊆ names) (selects : p.Selects sub more s₁ t₁ v name part) :
    p.Selects sub names s t v name part := by
  obtain ⟨⟨earlier, -, before⟩, ⟨later, -, after⟩⟩ := id amid
  induction selects with
  | name id v => exact .name id v
  | element moment iterated stands given _ ih =>
    exact .element (amid.trans fewer moment) iterated stands (given.mono amid fewer) ih
  | rest moment iterated new left _ ih =>
    have there := Heap.lt_size_of_unfrozen_array (congrArg ArrayData.frozen left)
    refine .rest (amid.trans fewer moment) iterated (Nat.le_trans before.grows.arrays_le new) ?_ ih
    exact (after.grows.arrayAt there).trans left
  | field moment stands given _ ih => exact .field (amid.trans fewer moment) stands (given.mono amid fewer) ih
  | others moment new left remain =>
    have there := Heap.lt_size_of_unfrozen_object (congrArg ObjectData.frozen left)
    refine .others (amid.trans fewer moment) (Nat.le_trans before.grows.objects_le new) ?_ remain
    exact (after.grows.objectAt there).trans left

/-! ## Steps that bind names -/

namespace EvalM

variable {α β : Type} {x y : EvalM α} {f : α → EvalM β} {ctx : Context} {sub : Interpreter} {kind : BindingKind}
  {p : Pattern} {default : Option Expr} {item : Value}

/-- If the step gives a value, then it has bound the names and changed nothing else. -/
structure Binds (names : List String) (x : EvalM α) : Prop where
  given : ∀ {s : State} {a : α} {t : State}, s.OwnCells → x s = .ok a t → s.Binds names t

namespace Binds

theorem of_onlyAdds (keeps : x.KeepsScopes) (adds : x.OnlyAdds) : x.Binds [] := by
  refine ⟨fun {s a t} _ run => ?_⟩
  have env := keeps s
  have heap := adds s
  rw [stateAfter_of_ok run] at env heap
  exact .of_same env heap.cells heap.grows

theorem bind (first : x.Binds names) (next : ∀ a, (f a).Binds more) : (x >>= f).Binds (names ++ more) := by
  refine ⟨fun own run => ?_⟩
  obtain ⟨a, t, run, later⟩ := exists_of_bind_ok run
  have here := first.given own run
  exact here.trans ((next a).given (here.ownCells own) later)

theorem andThen (first : x.Binds []) (next : ∀ a, (f a).Binds names) : (x >>= f).Binds names :=
  bind first next

theorem nothing : (Pure.pure () : EvalM Unit).Binds [] := by
  refine ⟨fun {s _ t} _ run => ?_⟩
  cases run
  exact .refl s

theorem ite {c : Prop} [Decidable c] (yes : x.Binds names) (no : y.Binds names) :
    (if c then x else y).Binds names := by
  split
  · exact yes
  · exact no

/-- A failure gives no value. -/
theorem typeFault_bind (fault : TypeFault) (f : α → EvalM β) : (EvalM.typeFault fault >>= f).Binds names := by
  refine ⟨fun _ run => ?_⟩
  obtain ⟨_, _, failed, _⟩ := exists_of_bind_ok run
  cases failed

theorem readHeap (g : Heap → α) : (EvalM.readHeap g).Binds [] :=
  of_onlyAdds (.readHeap g) (.readHeap g)

end Binds

/-- A name that is declared has a cell of its own, whether it was hoisted or not. -/
theorem bindName_binds (kind : BindingKind) (name : String) (v : Value) :
    (bindName ctx (.declare kind) name v).Binds [name] := by
  refine ⟨fun {s a t} own run => ?_⟩
  have declares := (bindName_declares (.declare kind) name v).given own.inside run
  have composed : Composed ctx [] fun _ => bindName ctx (.declare kind) name v := .bindName _ name v
  have fresh := composed.spares (interpreter_spares ctx 0) s s.apart_noCells
  rw [stateAfter_of_ok run] at fresh
  cases there : s.env.containsInScope name with
  | false =>
    rw [bindName_of_absent kind v there] at run
    cases run
    refine ⟨declares, fresh, ⟨List.prefix_rfl, List.prefix_rfl, List.prefix_rfl⟩, fun cell inside _ => ?_⟩
    exact Heap.cellAt_newCell_of_ne (Nat.ne_of_lt inside)
  | true =>
    obtain ⟨b, found⟩ := Environment.find?_isSome_of_containsInScope there
    rw [bindName_of_present kind v there, startName_of_find? v found] at run
    cases run
    refine ⟨declares, fresh, ⟨List.prefix_rfl, List.prefix_rfl, List.prefix_rfl⟩, fun cell _ others => ?_⟩
    refine Heap.cellAt_setCell_of_ne ?_ v
    rintro rfl
    refine others b (Environment.mem_currentScope_of_find? found there) rfl ?_
    exact List.mem_singleton.2 (Environment.name_of_find? found)

/-- The name has the value that it has been bound to. -/
theorem get?_of_bindName (own : s.OwnCells) (run : bindName ctx (.declare kind) name v s = .ok () t) :
    t.env.get? t.heap name = some v := by
  cases there : s.env.containsInScope name with
  | false =>
    rw [bindName_of_absent kind v there] at run
    cases run
    rw [Environment.get?, State.defining, Environment.find?_bind_self]
    exact congrArg some (Heap.cellAt_newCell_self s.heap v)
  | true =>
    obtain ⟨b, found⟩ := Environment.find?_isSome_of_containsInScope there
    rw [bindName_of_present kind v there, startName_of_find? v found] at run
    cases run
    rw [Environment.get?, found]
    exact congrArg some (Heap.cellAt_setCell_self (own.allocated b (Environment.mem_of_find? found)) v)

theorem withDefault_binds (keeps : sub.Scoped) (quietly : sub.Quiet) (v : Value)
    (quiet : Expr.OptionObeys .quiet default) :
    (withDefault sub v default).Binds [] := by
  refine .of_onlyAdds (withDefault_keepsScopes sub keeps v default) ?_
  unfold withDefault
  cases default with
  | none => cases v <;> exact .pure _
  | some e =>
    cases v with
    | undefined => exact quietly.expr e quiet
    | _ => exact .pure _

-- one lemma for each list that a pattern has, as patterns are bound

mutual

theorem bindPattern_binds (keeps : sub.Scoped) (quietly : sub.Quiet) (kind : BindingKind)
    : ∀ (p : Pattern) (v : Value), p.Obeys .quiet →
    (bindPattern ctx sub (.declare kind) p v).Binds p.boundNames
  | .name id, v, _ => by
    unfold Pattern.boundNames bindPattern
    exact bindName_binds kind id v
  | .array elements rest, v, quiet => by
    unfold Pattern.boundNames bindPattern
    refine .andThen (.of_onlyAdds (iterate_keepsScopes v) (.iterate v)) fun items => ?_
    exact .bind (bindElements_binds keeps quietly kind items elements 0 quiet.2.1) fun _ =>
      bindRest_binds keeps quietly kind items elements.length rest quiet.2.2
  | .object fields rest, v, quiet => by
    unfold Pattern.boundNames bindPattern
    have each : (bindFields ctx sub (.declare kind) v fields).Binds _ :=
      bindFields_binds keeps quietly kind v fields quiet.2
    refine .ite (.andThen (.readHeap _) fun text => .typeFault_bind _ _) ?_
    cases rest with
    | none => exact each.bind fun _ => .nothing
    | some name =>
      refine each.bind fun _ => .andThen (.readHeap (remainingProperties · v fields)) fun entries => ?_
      have adds : (allocate (·.newObject entries)).OnlyAdds := fun s => .newObject s.heap entries
      exact .andThen (.of_onlyAdds (.allocate _) adds) fun object => bindName_binds kind name object

theorem bindElements_binds (keeps : sub.Scoped) (quietly : sub.Quiet) (kind : BindingKind) (items : Array Value) :
    ∀ (elements : List (Option Element)) (i : Nat), Pattern.ElementsObey .quiet elements →
    (bindElements ctx sub (.declare kind) items i elements).Binds (Pattern.elementNames elements)
  | [], _, _ => .nothing
  | none :: more, i, quiet => by
    unfold bindElements
    exact bindElements_binds keeps quietly kind items more (i + 1) quiet
  | some (.mk target default) :: more, i, quiet => by
    unfold Pattern.elementNames bindElements
    refine .andThen (withDefault_binds keeps quietly _ quiet.1.2) fun item => ?_
    exact .bind (bindPattern_binds keeps quietly kind target item quiet.1.1) fun _ =>
      bindElements_binds keeps quietly kind items more (i + 1) quiet.2

theorem bindRest_binds (keeps : sub.Scoped) (quietly : sub.Quiet) (kind : BindingKind)
    (items : Array Value) (taken : Nat) : ∀ rest : Option Pattern,
    Pattern.OptionObeys .quiet rest →
    (bindRest ctx sub (.declare kind) items taken rest).Binds (Pattern.restNames rest)
  | none, _ => .nothing
  | some p, quiet => by
    unfold Pattern.restNames bindRest
    have adds : (allocate (·.newArray (items.extract taken items.size))).OnlyAdds := fun s => .newArray s.heap _
    exact .andThen (.of_onlyAdds (.allocate _) adds) fun remaining =>
      bindPattern_binds keeps quietly kind p remaining quiet

theorem bindFields_binds (keeps : sub.Scoped) (quietly : sub.Quiet) (kind : BindingKind)
    (v : Value) : ∀ fields : List Field, Field.AllObey .quiet fields →
    (bindFields ctx sub (.declare kind) v fields).Binds (Pattern.fieldNames fields)
  | [], _ => .nothing
  | .mk key target default :: more, quiet => by
    unfold Pattern.fieldNames bindFields
    refine .andThen (.readHeap _) fun found => .andThen (withDefault_binds keeps quietly found quiet.1.2) fun item => ?_
    exact .bind (bindPattern_binds keeps quietly kind target item quiet.1.1) fun _ =>
      bindFields_binds keeps quietly kind v more quiet.2

end

/-! ## What is selected -/

/-- A name that stands once in two lists stands in one of them, and not in the other. -/
theorem once_append {xs ys : List String} (once : (xs ++ ys).count name = 1) :
    (xs.count name = 1 ∧ name ∉ ys) ∨ (name ∉ xs ∧ ys.count name = 1) := by
  rw [List.count_append] at once
  rcases Nat.eq_zero_or_pos (xs.count name) with none | some
  · exact .inr ⟨List.count_eq_zero.1 none, by omega⟩
  · exact .inl ⟨by omega, List.count_eq_zero.1 (by omega)⟩

/-- The value is the item, or what its default comes to. -/
theorem orDefault_of_withDefault (run : withDefault sub v default s = .ok item t) (amid : s₁.Amid names t₁ s t) :
    OrDefault sub names s₁ t₁ v default item := by
  unfold withDefault at run
  cases default with
  | none =>
    have same : v = item := by cases v <;> cases run <;> rfl
    exact same ▸ .part fun _ => rfl
  | some e =>
    cases v with
    | undefined => exact .default amid run
    | _ =>
      cases run
      exact .part fun missing => by cases missing

/-- A part that has been bound, before other names are. -/
theorem selects_of_bound {target : Pattern} {part : Value} (defaulted : withDefault sub v default s = .ok item s₁)
    (first : s.Binds [] s₁) (second : s₁.Binds target.boundNames s₂) (third : s₂.Binds more t)
    (selects : target.Selects sub target.boundNames s₁ s₂ item name part) :
    OrDefault sub (target.boundNames ++ more) s t v default item ∧
      target.Selects sub (target.boundNames ++ more) s t item name part := by
  have evaluating : s.Amid (target.boundNames ++ more) t s s₁ :=
    ⟨⟨[], List.nil_subset _, .refl s⟩, ⟨_, List.Subset.refl _, second.trans third⟩⟩
  have binding : s.Amid (target.boundNames ++ more) t s₁ s₂ :=
    ⟨⟨[], List.nil_subset _, first⟩, ⟨_, List.subset_append_right _ _, third⟩⟩
  exact ⟨orDefault_of_withDefault defaulted evaluating, selects.mono binding (List.subset_append_left _ _)⟩

/-- The rest of an object pattern has what the fields leave. -/
theorem leave_remaining (h : Heap) (v : Value) (fields : List Field) :
    Field.Leave fields (h.entries v) (remainingProperties h v fields) where
  once := Entries.nodup_keys_insertAll (m := []) List.nodup_nil _
  mem_keys key := by
    unfold remainingProperties
    rw [Entries.mem_keys_insertAll]
    simp [Entries.keys, ← and_comm]
  listed entry mem :=
    List.mem_of_mem_filter ((Entries.mem_or_mem_of_mem_insertAll mem).resolve_left List.not_mem_nil)
  order := (Entries.keys_insertAll_sublist [] _).trans (List.filter_sublist.map _)

/-- The rest of an object pattern is bound to a new object of what the fields leave. -/
theorem remaining_bound {v : Value} {fields : List Field} {s t : State} {other : String} (kind : BindingKind)
    (own : s.OwnCells)
    (run : (do
      let remaining ← readHeap (remainingProperties · v fields)
      bindName ctx (.declare kind) other (← allocate (·.newObject remaining))) s = .ok () t) :
    s.Binds [other] t ∧ ∃ o properties, t.env.get? t.heap other = some (.object o) ∧ s.heap.objects.size ≤ o ∧
      t.heap.objectAt o = { properties } ∧ Field.Leave fields (s.heap.entries v) properties := by
  obtain ⟨remaining, u, read, run⟩ := exists_of_bind_ok run
  cases read
  obtain ⟨object, u, allocated, run⟩ := exists_of_bind_ok run
  cases allocated
  have made : s.Binds [] { s with heap := (s.heap.newObject _).2 } :=
    .of_same rfl rfl (Heap.Enlarges.newObject _ (remainingProperties s.heap v fields)).grows
  have own' := made.ownCells own
  have second := (bindName_binds kind other _).given own' run
  refine ⟨made.trans second, _, _, get?_of_bindName own' run, Nat.le_refl _, ?_, leave_remaining ..⟩
  refine (second.grows.objectAt ?_).trans (Heap.objectAt_newObject_self _ _)
  simp [Heap.newObject]

/-- Of `null` and `undefined` nothing is bound, even by a pattern without fields. -/
theorem not_isNullish_of_bindPattern {v : Value} {fields : List Field} {rest : Option String} {mode : BindMode}
    {s t : State} (run : bindPattern ctx sub mode (.object fields rest) v s = .ok () t) : v.isNullish = false := by
  unfold bindPattern at run
  cases nullish : v.isNullish with
  | false => rfl
  | true =>
    simp only [nullish, if_true] at run
    obtain ⟨text, u, read, run⟩ := exists_of_bind_ok run
    obtain ⟨done, u', failed, run⟩ := exists_of_bind_ok run
    cases failed

mutual

/-- By recursion on the pattern: a name that stands in it once is bound by one of its parts, and kept by those after
it. -/
theorem bindPattern_selects (keeps : sub.Scoped) (quietly : sub.Quiet) (kind : BindingKind)
    : ∀ (p : Pattern) (v : Value), p.Obeys .quiet → ∀ {s t : State},
    s.OwnCells → bindPattern ctx sub (.declare kind) p v s = .ok () t → p.boundNames.count name = 1 →
    ∃ part, t.env.get? t.heap name = some part ∧ p.Selects sub p.boundNames s t v name part
  | .name id, v, _, s, t, own, run, once => by
    have same : name = id := by
      by_contra other
      simp [Pattern.boundNames, Ne.symm other] at once
    subst same
    unfold bindPattern at run
    exact ⟨v, get?_of_bindName own run, .name name v⟩
  | .array elements rest, v, quiet, s, t, own, run, once => by
    unfold bindPattern at run
    unfold Pattern.boundNames at once ⊢
    obtain ⟨items, u, iterated, parts⟩ := exists_of_bind_ok run
    have same : u = s := by cases v <;> cases iterated <;> rfl
    subst same
    obtain ⟨done, s₁, bound, run⟩ := exists_of_bind_ok parts
    have first := (bindElements_binds keeps quietly kind items elements 0 quiet.2.1).given own bound
    have own₁ := first.ownCells own
    have second := (bindRest_binds keeps quietly kind items elements.length rest quiet.2.2).given own₁ run
    have moment : u.Amid (Pattern.elementNames elements ++ Pattern.restNames rest) t u u :=
      ⟨⟨[], List.nil_subset _, .refl u⟩, ⟨_, List.Subset.refl _, first.trans second⟩⟩
    rcases once_append once with ⟨once, absent⟩ | ⟨absent, once⟩
    · -- the name is in an element, and the rest leaves it alone
      obtain ⟨part, j, target, default, item, holds, stands, given, selects⟩ :=
        bindElements_selects keeps quietly kind items elements 0 quiet.2.1 own bound once
      have here : u.Amid (Pattern.elementNames elements ++ Pattern.restNames rest) t u s₁ :=
        ⟨⟨[], List.nil_subset _, .refl u⟩, ⟨_, List.subset_append_right _ _, second⟩⟩
      rw [Nat.zero_add] at given
      have given := given.mono here (List.subset_append_left _ _)
      have selects := selects.mono here (List.subset_append_left _ _)
      exact ⟨part, (second.others own₁ absent).trans holds, .element moment iterated stands given selects⟩
    · -- the name is in the rest, whose array is made when the elements have been bound
      obtain ⟨p, a, part, rfl, holds, new, left, selects⟩ :=
        bindRest_selects keeps quietly kind items elements.length rest quiet.2.2 own₁ run once
      have here : u.Amid (Pattern.elementNames elements ++ Pattern.restNames (some p)) t s₁ t :=
        ⟨⟨_, List.subset_append_left _ _, first⟩, ⟨[], List.nil_subset _, .refl t⟩⟩
      refine ⟨part, holds, .rest moment iterated (Nat.le_trans first.grows.arrays_le new) left ?_⟩
      exact selects.mono here (List.subset_append_right _ _)
  | .object fields rest, v, quiet, s, t, own, run, once => by
    have goesOn := not_isNullish_of_bindPattern run
    unfold bindPattern at run
    unfold Pattern.boundNames at once ⊢
    simp only [goesOn, Bool.false_eq_true, if_false] at run
    obtain ⟨done, s₁, bound, run⟩ := exists_of_bind_ok run
    have first := (bindFields_binds keeps quietly kind v fields quiet.2).given own bound
    have own₁ := first.ownCells own
    cases rest with
    | none =>
      cases run
      rw [Option.toList_none, List.append_nil] at once ⊢
      obtain ⟨part, j, key, target, default, item, u, holds, stands, moment, given, selects⟩ :=
        bindFields_selects keeps quietly kind v fields quiet.2 own bound once
      exact ⟨part, holds, .field moment stands given selects⟩
    | some other =>
      obtain ⟨last, o, properties, holds, new, left, remain⟩ := remaining_bound kind own₁ run
      rcases once_append once with ⟨once, absent⟩ | ⟨absent, once⟩
      · obtain ⟨part, j, key, target, default, item, u, holds', stands, moment, given, selects⟩ :=
          bindFields_selects keeps quietly kind v fields quiet.2 own bound once
        have here : s.Amid (Pattern.fieldNames fields ++ [other]) t s s₁ :=
          ⟨⟨[], List.nil_subset _, .refl s⟩, ⟨_, List.subset_append_right _ _, last⟩⟩
        have fewer : Pattern.fieldNames fields ⊆ Pattern.fieldNames fields ++ [other] := List.subset_append_left _ _
        have found : Pattern.Selects sub _ s t (.object fields (some other)) v name part :=
          .field (here.trans fewer moment) stands (given.mono here fewer) (selects.mono here fewer)
        exact ⟨part, (last.others own₁ absent).trans holds', found⟩
      · have same : name = other := by
          by_contra different
          simp [Ne.symm different] at once
        subst same
        have moment : s.Amid (Pattern.fieldNames fields ++ [name]) t s₁ s₁ :=
          ⟨⟨_, List.subset_append_left _ _, first⟩, ⟨_, List.subset_append_right _ _, last⟩⟩
        exact ⟨.object o, holds, .others moment (Nat.le_trans first.grows.objects_le new) left remain⟩

/-- The name stands in one of the elements, and gets its value from the item of the same index. -/
theorem bindElements_selects (keeps : sub.Scoped) (quietly : sub.Quiet) (kind : BindingKind) (items : Array Value) :
    ∀ (elements : List (Option Element)) (i : Nat), Pattern.ElementsObey .quiet elements → ∀ {s t : State},
    s.OwnCells → bindElements ctx sub (.declare kind) items i elements s = .ok () t →
    (Pattern.elementNames elements).count name = 1 →
    ∃ part, ∃ j : Nat, ∃ target default item, t.env.get? t.heap name = some part ∧
      elements[j]? = some (some (Element.mk target default)) ∧
      OrDefault sub (Pattern.elementNames elements) s t (items.getD (i + j) .undefined) default item ∧
      target.Selects sub (Pattern.elementNames elements) s t item name part
  | [], _, _, _, _, _, _, once => by simp [Pattern.elementNames] at once
  | none :: more, i, quiet, s, t, own, run, once => by
    unfold bindElements at run
    unfold Pattern.elementNames at once ⊢
    obtain ⟨part, j, target, default, item, holds, stands, given, selects⟩ :=
      bindElements_selects keeps quietly kind items more (i + 1) quiet own run once
    refine ⟨part, j + 1, target, default, item, holds, stands, ?_, selects⟩
    rwa [Nat.add_right_comm, Nat.add_assoc] at given
  | some (.mk target default) :: more, i, quiet, s, t, own, run, once => by
    unfold bindElements at run
    unfold Pattern.elementNames at once ⊢
    obtain ⟨item, s₁, defaulted, run⟩ := exists_of_bind_ok run
    obtain ⟨done, s₂, bound, run⟩ := exists_of_bind_ok run
    -- three steps lie between the states, and each binds some of the names and changes no other cell
    have first := (withDefault_binds keeps quietly _ quiet.1.2).given own defaulted
    have own₁ := first.ownCells own
    have second := (bindPattern_binds keeps quietly kind target item quiet.1.1).given own₁ bound
    have own₂ := second.ownCells own₁
    have third := (bindElements_binds keeps quietly kind items more (i + 1) quiet.2).given own₂ run
    rcases once_append once with ⟨once, absent⟩ | ⟨absent, once⟩
    · obtain ⟨part, holds, selects⟩ :=
        bindPattern_selects keeps quietly kind target item quiet.1.1 own₁ bound once
      obtain ⟨given, selects⟩ := selects_of_bound defaulted first second third selects
      exact ⟨part, 0, target, default, item, (third.others own₂ absent).trans holds, rfl, given, selects⟩
    · -- the name is further on, where items are counted from the next one
      obtain ⟨part, j, target', default', item', holds, stands, given, selects⟩ :=
        bindElements_selects keeps quietly kind items more (i + 1) quiet.2 own₂ run once
      have here : s.Amid (target.boundNames ++ Pattern.elementNames more) t s₂ t :=
        ⟨⟨_, List.subset_append_left _ _, first.trans second⟩, ⟨[], List.nil_subset _, .refl t⟩⟩
      rw [Nat.add_right_comm, Nat.add_assoc] at given
      refine ⟨part, j + 1, target', default', item', holds, stands, ?_, ?_⟩
      · exact given.mono here (List.subset_append_right _ _)
      · exact selects.mono here (List.subset_append_right _ _)

/-- The rest is a new array of the items that are left. -/
theorem bindRest_selects (keeps : sub.Scoped) (quietly : sub.Quiet) (kind : BindingKind)
    (items : Array Value) (taken : Nat) : ∀ rest : Option Pattern,
    Pattern.OptionObeys .quiet rest → ∀ {s t : State}, s.OwnCells →
    bindRest ctx sub (.declare kind) items taken rest s = .ok () t → (Pattern.restNames rest).count name = 1 →
    ∃ p a part, rest = some p ∧ t.env.get? t.heap name = some part ∧ s.heap.arrays.size ≤ a ∧
      t.heap.arrayAt a = { items := items.extract taken items.size } ∧
      p.Selects sub (Pattern.restNames rest) s t (.array a) name part
  | none, _, _, _, _, _, once => by simp [Pattern.restNames] at once
  | some p, quiet, s, t, own, run, once => by
    unfold bindRest at run
    unfold Pattern.restNames at once ⊢
    obtain ⟨remaining, u, allocated, run⟩ := exists_of_bind_ok run
    cases allocated
    have made : s.Binds [] { s with heap := (s.heap.newArray (items.extract taken items.size)).2 } :=
      .of_same rfl rfl (Heap.Enlarges.newArray _ _).grows
    have own₁ := made.ownCells own
    have bound := (bindPattern_binds keeps quietly kind p _ quiet).given own₁ run
    obtain ⟨part, holds, selects⟩ := bindPattern_selects keeps quietly kind p _ quiet own₁ run once
    have here : s.Amid p.boundNames t { s with heap := (s.heap.newArray (items.extract taken items.size)).2 } t :=
      ⟨⟨[], List.nil_subset _, made⟩, ⟨[], List.nil_subset _, .refl t⟩⟩
    refine ⟨p, s.heap.arrays.size, part, rfl, holds, Nat.le_refl _, ?_, selects.mono here (List.Subset.refl _)⟩
    refine (bound.grows.arrayAt ?_).trans (Heap.arrayAt_newArray_self _ _)
    simp [Heap.newArray]

/-- The name stands in one of the fields, and gets its value from the property of the key. -/
theorem bindFields_selects (keeps : sub.Scoped) (quietly : sub.Quiet) (kind : BindingKind)
    (v : Value) : ∀ fields : List Field, Field.AllObey .quiet fields →
    ∀ {s t : State}, s.OwnCells → bindFields ctx sub (.declare kind) v fields s = .ok () t →
    (Pattern.fieldNames fields).count name = 1 →
    ∃ part, ∃ j : Nat, ∃ key target default item u, t.env.get? t.heap name = some part ∧
      fields[j]? = some (Field.mk key target default) ∧ s.Amid (Pattern.fieldNames fields) t u u ∧
      OrDefault sub (Pattern.fieldNames fields) s t (u.heap.get v key) default item ∧
      target.Selects sub (Pattern.fieldNames fields) s t item name part
  | [], _, _, _, _, _, once => by simp [Pattern.fieldNames] at once
  | .mk key target default :: more, quiet, s, t, own, run, once => by
    unfold bindFields at run
    unfold Pattern.fieldNames at once ⊢
    obtain ⟨found, u, read, run⟩ := exists_of_bind_ok run
    cases read
    obtain ⟨item, s₁, defaulted, run⟩ := exists_of_bind_ok run
    obtain ⟨done, s₂, bound, run⟩ := exists_of_bind_ok run
    have first := (withDefault_binds keeps quietly _ quiet.1.2).given own defaulted
    have own₁ := first.ownCells own
    have second := (bindPattern_binds keeps quietly kind target item quiet.1.1).given own₁ bound
    have own₂ := second.ownCells own₁
    have third := (bindFields_binds keeps quietly kind v more quiet.2).given own₂ run
    -- the name stands in this field or in a later one, and not in both
    rcases once_append once with ⟨once, absent⟩ | ⟨absent, once⟩
    · obtain ⟨part, holds, selects⟩ :=
        bindPattern_selects keeps quietly kind target item quiet.1.1 own₁ bound once
      obtain ⟨given, selects⟩ := selects_of_bound defaulted first second third selects
      have moment : s.Amid (target.boundNames ++ Pattern.fieldNames more) t s s :=
        ⟨⟨[], List.nil_subset _, .refl s⟩, ⟨_, List.Subset.refl _, first.trans (second.trans third)⟩⟩
      refine ⟨part, 0, key, target, default, item, s, ?_, rfl, moment, given, selects⟩
      exact (third.others own₂ absent).trans holds
    · obtain ⟨part, j, key', target', default', item', u, holds, stands, moment, given, selects⟩ :=
        bindFields_selects keeps quietly kind v more quiet.2 own₂ run once
      have here : s.Amid (target.boundNames ++ Pattern.fieldNames more) t s₂ t :=
        ⟨⟨_, List.subset_append_left _ _, first.trans second⟩, ⟨[], List.nil_subset _, .refl t⟩⟩
      have fewer : Pattern.fieldNames more ⊆ target.boundNames ++ Pattern.fieldNames more :=
        List.subset_append_right _ _
      refine ⟨part, j + 1, key', target', default', item', u, holds, stands, here.trans fewer moment, ?_, ?_⟩
      · exact given.mono here fewer
      · exact selects.mono here fewer

end

end EvalM

open EvalM

/-- **A pattern binds the names that it declares, and each to its part.** When it has been bound to the end, the scope
has the names that it had and those of the pattern. If no default assigns, updates, deletes or calls, then a name that
stands once in the pattern has the part of the value that its place selects, and no other variable or cell is
changed. -/
theorem pattern_binds_its_names (ctx : Context) (levels : Nat) (kind : BindingKind) (p : Pattern) (v : Value)
    {s t : State} (own : s.OwnCells)
    (bound : bindPattern ctx (interpreter ctx levels) (.declare kind) p v s = .ok () t) :
    s.Declares p.boundNames t ∧
      (∀ name, name ∈ t.env.namesInScope ↔ name ∈ s.env.namesInScope ∨ name ∈ p.boundNames) ∧
      (p.Obeys .quiet →
        (∀ name, p.boundNames.count name = 1 → ∃ part, t.env.get? t.heap name = some part ∧
          p.Selects (interpreter ctx levels) p.boundNames s t v name part) ∧
        s.Binds p.boundNames t ∧
        ∀ name, name ∉ p.boundNames → t.env.get? t.heap name = s.env.get? s.heap name) := by
  have keeps := interpreter_scoped ctx levels
  have quietly := interpreter_quiet ctx levels
  have declares := (bindPattern_declares keeps (.declare kind) p v).given own.inside bound
  refine ⟨declares, fun name => declares.mem, fun quiet => ⟨fun name once => ?_, ?_⟩⟩
  · exact bindPattern_selects keeps quietly kind p v quiet own bound once
  · have binds := (bindPattern_binds keeps quietly kind p v quiet).given own bound
    exact ⟨binds, fun name absent => binds.others own absent⟩

/-- `[x, y = x, ...z]` -/
def listPattern : Pattern :=
  .array [some (.mk (.name "x") none), some (.mk (.name "y") (some (.name "x")))] (some (.name "z"))

/-- A list of one item, before the pattern is bound to it. -/
def oneItem : State where
  heap := { arrays := #[{ items := #[.bool true] }] }

/-- The names of the pattern have been bound: `z` to a new list, which is empty. -/
def listBound : State where
  env := { bindings := #[⟨"x", 0, .let⟩, ⟨"y", 1, .let⟩, ⟨"z", 2, .let⟩] }
  heap := { arrays := #[{ items := #[.bool true] }, { items := #[] }], cells := #[.bool true, .bool true, .array 1] }

/-- `{a: x, ...others}` -/
def objectPattern : Pattern :=
  .object [.mk "a" (.name "x") none] (some "others")

/-- `{a: true, b: null}` -/
def twoProperties : State where
  heap := { objects := #[{ properties := [("a", .bool true), ("b", .null)] }] }

/-- The names of the pattern have been bound: `others` to a new object with the property `b`. -/
def propertiesBound : State where
  env := { bindings := #[⟨"x", 0, .let⟩, ⟨"others", 1, .let⟩] }
  heap :=
    { objects := #[{ properties := [("a", .bool true), ("b", .null)] }, { properties := [("b", .null)] }]
      cells := #[.bool true, .object 1] }

/-- The list has no second item, so `y` has the value of its default. Of the object, `others` has the property that is
left. -/
theorem pattern_binds_its_names_list :
    (∀ name, name ∈ listBound.env.namesInScope ↔ name ∈ ["x", "y", "z"]) ∧
      listPattern.Selects (interpreter bareContext 2) ["x", "y", "z"] oneItem listBound (.array 0) "y"
        (.bool true) ∧
      objectPattern.Selects (interpreter bareContext 2) ["x", "others"] twoProperties propertiesBound (.object 0)
        "others" (.object 1) := by
  have own : oneItem.OwnCells := by
    refine ⟨Nat.le_refl 0, fun b mem => absurd mem (Array.not_mem_empty b), fun b mem => ?_⟩
    exact absurd mem List.not_mem_nil
  have bound : bindPattern bareContext (interpreter bareContext 2) (.declare .let) listPattern (.array 0) oneItem =
      .ok () listBound := by cbv
  have quiet : listPattern.Obeys .quiet := by
    simp [listPattern, Pattern.Obeys, Pattern.ElementsObey, Element.Obeys, Pattern.OptionObeys, Expr.OptionObeys,
      Expr.Obeys, NodeRule.quiet]
  obtain ⟨-, names, selected⟩ := pattern_binds_its_names bareContext 2 .let listPattern (.array 0) own bound
  obtain ⟨part, holds, selects⟩ := (selected quiet).1 "y" (by decide)
  have value : listBound.env.get? listBound.heap "y" = some (.bool true) := by cbv
  cases holds.symm.trans value
  refine ⟨fun name => (names name).trans ?_, selects, ?_⟩
  · simp [oneItem, Environment.namesInScope, Environment.currentScope, listPattern, Pattern.boundNames,
      Pattern.elementNames, Pattern.restNames]
  · have own : twoProperties.OwnCells :=
      ⟨Nat.le_refl 0, fun b mem => absurd mem (Array.not_mem_empty b), fun b mem => absurd mem List.not_mem_nil⟩
    have bound : bindPattern bareContext (interpreter bareContext 2) (.declare .let) objectPattern (.object 0)
        twoProperties = .ok () propertiesBound := by cbv
    have quiet : objectPattern.Obeys .quiet := by
      simp [objectPattern, Pattern.Obeys, Field.AllObey, Field.Obeys, Expr.OptionObeys, NodeRule.quiet]
    obtain ⟨-, -, selected⟩ := pattern_binds_its_names bareContext 2 .let objectPattern (.object 0) own bound
    obtain ⟨part, holds, selects⟩ := (selected quiet).1 "others" (by decide)
    have value : propertiesBound.env.get? propertiesBound.heap "others" = some (.object 1) := by cbv
    cases holds.symm.trans value
    exact selects

end BindScript
