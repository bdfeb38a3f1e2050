import BindScript.Proofs.Control.Constructs
import BindScript.Proofs.Watch.Expression
import Mathlib.Data.List.Flatten

/-!
# Statements of a watched run

Each kind of statement, given its parts. Statements in a row declare different names, and what they declare has been
hoisted before the first of them runs; so a constant among them finds its own binding when it gets its value
(`Expects`). All other statements have their parts in scopes of their own, or parts that declare nothing.
-/

/-!
## Turns of counting loops in a watched run

A turn of a counting loop runs on copies of the loop variables and writes them back. The copy of a constant is a
constant with the same value (`State.copied`), so the value that is written back is the one that is there already.
-/

namespace BindScript

namespace State

variable {s t : State} {names : List String} {name : String} {b : Binding}

/-- The state after a loop variable has been copied into the innermost scope. -/
def copying (s : State) (name : String) : State :=
  s.defining name (((s.env.find? name).map fun b => s.heap.cellAt b.cell).getD .undefined)
    (((s.env.find? name).map (·.kind)).getD .let)

theorem copyName_eq (s : State) (name : String) : EvalM.copyName name s = .ok () (s.copying name) :=
  rfl

theorem copyNames_eq (s : State) (names : List String) :
    names.forM EvalM.copyName s = .ok () (names.foldl copying s) := by
  induction names generalizing s with
  | nil => rfl
  | cons name more ih => exact (EvalM.bind_of_ok (copyName_eq s name)).trans (ih (s.copying name))

theorem sound_copying (sound : s.Sound) (names : List String) : (names.foldl copying s).Sound := by
  induction names generalizing s with
  | nil => exact sound
  | cons name more ih => exact ih sound.defining

theorem callable_copying (s : State) (names : List String) (c : Nat) :
    (names.foldl copying s).heap.closureAt c = s.heap.closureAt c := by
  induction names generalizing s with
  | nil => rfl
  | cons name more ih => exact ih (s.copying name)

theorem later_copying (sound : s.Sound) (names : List String) : ∃ X, s.Before X (names.foldl copying s) := by
  induction names generalizing s with
  | nil => exact ⟨[], .refl s⟩
  | cons name more ih =>
    obtain ⟨X, later⟩ := ih (sound.defining : (s.copying name).Sound)
    exact ⟨_, (s.later_defining name _ _).trans sound.inside later⟩

theorem find?_copying_of_not_mem (others : name ∉ names) :
    (names.foldl copying s).env.find? name = s.env.find? name := by
  induction names generalizing s with
  | nil => rfl
  | cons first more ih =>
    rw [List.mem_cons, not_or] at others
    exact (ih others.2).trans (Environment.find?_bind_of_ne others.1)

theorem cellAt_copying {cell : Nat} (there : cell < s.heap.cells.size) (names : List String) :
    (names.foldl copying s).heap.cellAt cell = s.heap.cellAt cell := by
  induction names generalizing s with
  | nil => rfl
  | cons first more ih =>
    refine (ih ?_).trans (Heap.cellAt_newCell_of_ne (Nat.ne_of_lt there))
    rw [copying, size_defining]
    exact Nat.lt_succ_of_lt there

/-- A copy is of the same kind and has the same value. -/
theorem copied (sound : s.Sound) (distinct : names.Nodup) (mem : name ∈ names) (found : s.env.find? name = some b) :
    ∃ b', (names.foldl copying s).env.find? name = some b' ∧ b'.kind = b.kind ∧
      (names.foldl copying s).heap.cellAt b'.cell = s.heap.cellAt b.cell := by
  induction names generalizing s with
  | nil => cases mem
  | cons first more ih =>
    obtain ⟨others, distinct⟩ := List.nodup_cons.1 distinct
    by_cases here : name = first
    · subst here
      have copy : s.copying name = s.defining name (s.heap.cellAt b.cell) b.kind := by
        simp only [copying, found, Option.map_some, Option.getD_some]
      refine ⟨⟨name, s.heap.cells.size, b.kind⟩, ?_, rfl, ?_⟩
      · rw [List.foldl_cons, find?_copying_of_not_mem others, copy]
        exact Environment.find?_bind_self _ _ _ _
      · rw [List.foldl_cons, cellAt_copying, copy]
        · exact Heap.cellAt_newCell_self _ _
        · rw [copy, size_defining]
          exact Nat.lt_succ_self _
    · have still : (s.copying first).env.find? name = some b := (Environment.find?_bind_of_ne here).trans found
      have value : (s.copying first).heap.cellAt b.cell = s.heap.cellAt b.cell :=
        Heap.cellAt_newCell_of_ne (Nat.ne_of_lt (sound.allocated b (.find? found)))
      rw [← value]
      exact ih (sound.defining : (s.copying first).Sound) distinct (List.mem_of_ne_of_mem here mem) still

/-- The value of a name, as a loop variable has it. -/
def valueOf (s : State) (name : String) : Value :=
  ((s.env.find? name).map fun b => s.heap.cellAt b.cell).getD .undefined

theorem valuesOf_eq (s : State) (names : List String) :
    names.mapM EvalM.valueOf s = .ok (names.map s.valueOf) s := by
  induction names with
  | nil => rfl
  | cons name more ih =>
    rw [List.mapM_cons]
    have head : EvalM.valueOf name s = .ok (s.valueOf name) s := rfl
    exact (EvalM.bind_of_ok head).trans (EvalM.bind_of_ok ih)

/-- All the bindings of a known constant are those of a constant. -/
theorem Sound.constant (sound : s.Sound) (known : s.Knows b) (const : b.kind = .const) : s.Constant b.cell where
  inside := sound.allocated b known
  kind b' known' same := sound.coherent b' b known' known same ▸ const

end State

namespace Watch

open EvalM

variable {W : Watch} {X : Declared} {sub₁ sub₂ : Interpreter} {s t : State} {names : List String} {body : Stmt}

theorem At.copying (state : W.At s) (names : List String) : W.At (names.foldl State.copying s) :=
  ⟨fun c => (State.callable_copying s names c).symm ▸ state.callable c,
    fun watched => State.sound_copying (state.sound watched) names⟩

theorem later_copying (state : W.At s) (names : List String) : ∃ X, W.Later X s (names.foldl State.copying s) := by
  by_cases watched : W.constants
  · obtain ⟨X, later⟩ := State.later_copying (state.sound watched) names
    exact ⟨X, fun _ => later⟩
  · exact ⟨[], fun yes => absurd yes watched⟩

/-- Values that may be written back: those of constants are the ones that they have. -/
def Restores (W : Watch) (entries : List (String × Value)) (s : State) : Prop :=
  W.constants → ∀ entry ∈ entries, ∀ b, s.env.find? entry.1 = some b → b.kind = .const →
    s.heap.cellAt b.cell = entry.2

theorem Restores.later {entries : List (String × Value)} (state : W.At s) (restores : W.Restores entries s)
    (later : W.Later [] s t) : W.Restores entries t := by
  intro watched entry mem b found const
  rw [(later watched).env_eq] at found
  rw [(later watched).kept b.cell ((state.sound watched).constant (.find? found) const) fun _ _ _ => List.not_mem_nil]
  exact restores watched entry mem b found const

theorem Ends.startNames {entries : List (String × Value)} (state : W.At s) (restores : W.Restores entries s) :
    W.Ends [] (fun _ => True) s (EvalM.startNames entries s) (EvalM.startNames entries s) := by
  induction entries generalizing s with
  | nil => exact .ok state later_refl trivial
  | cons entry more ih =>
    obtain ⟨name, v⟩ := entry
    have head : W.Ends [] (fun _ => True) s (EvalM.startName name v s) (EvalM.startName name v s) :=
      Ends.startName state fun watched b found const => .inr (restores watched _ (List.mem_cons_self ..) b found const)
    refine Ends.andThen state head fun _ t _ middle later => ih middle ?_
    exact fun watched entry mem => restores.later state later watched entry (List.mem_cons_of_mem _ mem)

/-- After the body has run, the copies of constants have the values of the constants. -/
theorem restores_copies (state : W.At s) (distinct : W.constants → names.Nodup)
    (later : W.Later [] (names.foldl State.copying { s with env := s.env.push }) t) :
    W.Restores (names.zip (names.map t.valueOf)) s := by
  intro watched entry mem b found const
  rw [← List.map_prod_left_eq_zip] at mem
  obtain ⟨name, inside, rfl⟩ := List.mem_map.1 mem
  have sound : ({ s with env := s.env.push } : State).Sound := s.enters_push.sound (state.sound watched)
  have later := later watched
  obtain ⟨b', found', kind, value⟩ := State.copied sound (distinct watched) inside (b := b) found
  have constant := (State.sound_copying sound names).constant (.find? found') (kind.trans const)
  have kept := later.kept b'.cell constant fun _ _ _ => List.not_mem_nil
  have read : t.valueOf name = t.heap.cellAt b'.cell := by
    simp only [State.valueOf, later.env_eq, found', Option.map_some, Option.getD_some]
  show s.heap.cellAt b.cell = t.valueOf name
  rw [read, kept, value]

/-- A turn declares copies of the variables in a scope of its own. -/
theorem Follows.runTurn (ran : W.Quiet (EvalM.runBody sub₁ body) (EvalM.runBody sub₂ body))
    (distinct : W.constants → names.Nodup) :
    W.Quiet (EvalM.runTurn sub₁ names body) (EvalM.runTurn sub₂ names body) := by
  intro s state
  let start : State := { s with env := s.env.push }
  have entered : W.At start := state.pushed
  -- copies of the variables are made in a scope of their own, and their values are read before the scope is left
  obtain ⟨X, copies⟩ := later_copying entered names
  have inner : ∀ {sub : Interpreter}, (do
      names.forM copyName
      let result ← EvalM.attempt (EvalM.runBody sub body)
      return (result, ← names.mapM EvalM.valueOf)) start =
      (do
        let result ← EvalM.attempt (EvalM.runBody sub body)
        return (result, ← names.mapM EvalM.valueOf)) (names.foldl State.copying start) :=
    bind_of_ok (State.copyNames_eq start names)
  have turn : W.Ends [] (fun done => W.Tried (fun _ => True) done.1 ∧ W.Restores (names.zip done.2) s) s
      (EvalM.inScope (do
        names.forM copyName
        let result ← EvalM.attempt (EvalM.runBody sub₁ body)
        return (result, ← names.mapM EvalM.valueOf)) s)
      (EvalM.inScope (do
        names.forM copyName
        let result ← EvalM.attempt (EvalM.runBody sub₂ body)
        return (result, ← names.mapM EvalM.valueOf)) s) := by
    refine Ends.inScope (X := X ++ []) state ?_
    rw [inner, inner]
    refine Ends.after entered copies ?_
    refine Ends.andThen (entered.copying names) (ran _ (entered.copying names)).attempt
      fun result t tried middle later => ?_
    have read : (do return (result, ← names.mapM EvalM.valueOf)) t = .ok (result, names.map t.valueOf) t :=
      bind_of_ok (State.valuesOf_eq t names)
    rw [read]
    exact .ok middle later_refl ⟨tried, restores_copies state distinct later⟩
  refine Ends.andThen state turn fun done t both middle later => ?_
  obtain ⟨result, values⟩ := done
  refine Ends.andThen middle (Ends.startNames middle (both.2.later state later)) fun _ u _ last _ => ?_
  exact Follows.resume both.1 u last

end Watch

end BindScript

/-! ## Each kind of statement -/

namespace BindScript

variable {X Y : Declared} {statements : List Stmt}

/-- Where names are different, a name is declared in one way only. -/
theorem Declared.kind_unique {name : String} {kind kind' : BindingKind} (distinct : X.names.Nodup)
    (mem : (name, kind) ∈ X) (mem' : (name, kind') ∈ X) : kind = kind' :=
  congrArg Prod.snd (List.inj_on_of_nodup_map distinct mem mem' rfl)

theorem Stmt.declaredIn_cons (t : Stmt) :
    Stmt.declaredIn (t :: statements) = t.declared ++ Stmt.declaredIn statements :=
  List.flatMap_cons

theorem Stmt.declaredIn_sublist {selected : List Stmt} (among : selected.Sublist statements) :
    (Stmt.declaredIn selected).Sublist (Stmt.declaredIn statements) :=
  among.flatMap _

namespace Watch

variable {W : Watch} {sub₁ sub₂ : Interpreter} {s t : State} {body : Stmt} {test update : Option Expr}

/-! ### Statements in a row -/

theorem Expects.mono (within : Y ⊆ X) (expects : W.Expects X s) : W.Expects Y s :=
  fun watched name mem => expects watched name (within mem)

theorem expects_of_fresh (fresh : s.env.Fresh) : W.Expects X s := by
  intro _ name _ b mem
  rw [fresh.currentScope] at mem
  cases mem

/-- What is declared on the way is no other binding of a constant. -/
theorem Expects.after (state : W.At s) (expects : W.Expects X s) (later : W.Later Y s t)
    (unique : W.constants → ∀ name kind, (name, .const) ∈ X → (name, kind) ∈ Y → kind = .const) : W.Expects X t := by
  intro watched name mem b inside named
  rcases (later watched).scope (state.sound watched).inside inside with before | ⟨declared, -⟩
  · exact expects watched name mem b before named
  · exact unique watched name b.kind mem (named ▸ declared)

/-- What is declared on the way is declared as it should be. -/
theorem Expects.later (state : W.At s) (distinct : W.Distinct X) (within : Y ⊆ X) (expects : W.Expects X s)
    (later : W.Later Y s t) : W.Expects X t :=
  expects.after state later fun watched _ _ mem mem' => Declared.kind_unique (distinct watched) (within mem') mem

namespace Ends

theorem inARow {β : Type} {f₁ f₂ : β → Stmt → EvalM β} (whole : W.Distinct X) :
    ∀ (statements : List Stmt) (b : β) (s : State), W.At s → W.Expects X s → Stmt.declaredIn statements ⊆ X →
    W.Distinct (Stmt.declaredIn statements) →
    (∀ t ∈ statements, ∀ b s, W.At s → W.Expects t.declared s →
      W.Ends t.declared (fun _ => True) s (f₁ b t s) (f₂ b t s)) →
    W.Ends (Stmt.declaredIn statements) (fun _ => True) s (statements.foldlM f₁ b s) (statements.foldlM f₂ b s)
  | [], b, s, state, _, _, _, _ => .ok state later_refl trivial
  | t :: more, b, s, state, expects, within, distinct, each => by
    rw [Stmt.declaredIn_cons] at within distinct ⊢
    obtain ⟨here, there⟩ := List.append_subset.1 within
    obtain ⟨head, tail⟩ := List.forall_mem_cons.1 each
    rw [List.foldlM_cons, List.foldlM_cons]
    refine Ends.bind state (.inr distinct.apart) (head b s state (expects.mono here)) fun b u _ _ middle later => ?_
    exact inARow whole more b u middle (expects.later state whole here later) there distinct.right tail

theorem evalStatements (sub : W.Interprets sub₁ sub₂) (code : ∀ y ∈ statements.map Node.stmt, W.Code y)
    (distinct : W.Distinct (Stmt.declaredIn statements)) (state : W.At s)
    (expects : W.Expects (Stmt.declaredIn statements) s) :
    W.Ends (Stmt.declaredIn statements) (fun _ => True) s (EvalM.evalStatements sub₁ statements s)
      (EvalM.evalStatements sub₂ statements s) := by
  unfold EvalM.evalStatements
  have hoisted := (Gives.hoistLexical code state).ends
  refine (Ends.bind state (.inl rfl) hoisted fun _ u _ _ middle later => ?_).weaken
    (List.append_subset.2 ⟨List.Subset.refl _, List.Subset.refl _⟩)
  exact inARow distinct statements _ u middle (expects.later state distinct (List.Subset.refl _) later)
    (List.Subset.refl _) distinct fun t mem _ s state expects =>
      sub.stmt t (code _ (List.mem_map_of_mem mem)) s state expects

end Ends

namespace Follows

/-- A block has a scope of its own. -/
theorem block (sub : W.Interprets sub₁ sub₂) (code : ∀ y ∈ statements.map Node.stmt, W.Code y)
    (distinct : W.Distinct (Stmt.declaredIn statements)) :
    W.Quiet (EvalM.inScope (EvalM.evalStatements sub₁ statements))
      (EvalM.inScope (EvalM.evalStatements sub₂ statements)) :=
  fun _ state => Ends.inScope state
    (Ends.evalStatements sub code distinct state.pushed (expects_of_fresh (Environment.fresh_push _)))

/-- A statement that declares nothing. -/
theorem bare (sub : W.Interprets sub₁ sub₂) (code : W.Code (.stmt body)) (bare : W.constants → body.declared = []) :
    W.Quiet (sub₁.stmt body) (sub₂.stmt body) := by
  intro s state
  have ends := sub.stmt body code s state fun watched name mem => by
    rw [bare watched] at mem
    cases mem
  by_cases watched : W.constants
  · rwa [bare watched] at ends
  · exact ends.unwatched watched

/-! ### Loops -/

theorem runBody (sub : W.Interprets sub₁ sub₂) (code : W.Code (.stmt body))
    (bare : W.constants → body.declared = []) :
    W.Quiet (EvalM.runBody sub₁ body) (EvalM.runBody sub₂ body) := by
  refine bind (attempt (Follows.bare sub code bare)) fun r tried => ?_
  cases r with
  | ok v => exact pure trivial
  | error e =>
    cases e with
    | jump j => cases j <;> first | exact pure trivial | exact throw tried
    | error failure => exact throw tried
    | exhausted | clash => exact throw tried

theorem testHolds (sub : W.Interprets sub₁ sub₂) (code : ∀ y ∈ Expr.optionNodes test, W.Code y) :
    W.Quiet (EvalM.testHolds sub₁ test) (EvalM.testHolds sub₂ test) := by
  cases test with
  | none => exact pure trivial
  | some e => exact andThen (sub.expr e (code _ (List.mem_singleton.2 rfl))) fun _ => pure trivial

theorem forTurn {names : List String} (sub : W.Interprets sub₁ sub₂)
    (testCode : ∀ y ∈ Expr.optionNodes test, W.Code y) (updateCode : ∀ y ∈ Expr.optionNodes update, W.Code y)
    (code : W.Code (.stmt body)) (bare : W.constants → body.declared = []) (distinct : W.constants → names.Nodup) :
    W.Quiet (EvalM.forTurn sub₁ names test update body) (EvalM.forTurn sub₂ names test update body) := by
  have ran := runBody sub code bare
  have turn : W.Quiet (if names.isEmpty then EvalM.runBody sub₁ body else EvalM.runTurn sub₁ names body)
      (if names.isEmpty then EvalM.runBody sub₂ body else EvalM.runTurn sub₂ names body) :=
    ite ran (runTurn ran distinct)
  refine andThen (testHolds sub testCode) fun holds => ite (pure trivial) (andThen turn fun again => ?_)
  refine ite (pure trivial) ?_
  cases update with
  | none => exact pure trivial
  | some e => exact andThen (discard (sub.expr e (updateCode _ (List.mem_singleton.2 rfl)))) fun _ => pure trivial

/-- A head declares its names once. -/
theorem evalForInit {init : ForInit} (sub : W.Interprets sub₁ sub₂) (code : ∀ y ∈ init.nodes, W.Code y)
    (distinct : W.Distinct init.declared) :
    W.Follows init.declared (fun names => W.constants → names.Nodup) (EvalM.evalForInit W.ctx sub₁ init)
      (EvalM.evalForInit W.ctx sub₂ init) := by
  cases init with
  | none => exact pure fun _ => List.nodup_nil
  | expr e =>
    exact bind_quiet (discard (sub.expr e (code _ (List.mem_singleton.2 rfl)))) fun _ _ => pure fun _ => List.nodup_nil
  | declare kind declarators =>
    refine bind_quiet (evalDeclaration sub kind (forall_mem_flatMap.1 code) distinct) fun _ _ => pure fun watched => ?_
    have distinct := distinct watched
    cases kind with
    | var => exact List.nodup_nil
    | _ => simpa [ForInit.declared, DeclKind.declared, Declared.names, Function.comp_def] using distinct

theorem evalFor {init : ForInit} (sub : W.Interprets sub₁ sub₂) (initCode : ∀ y ∈ init.nodes, W.Code y)
    (testCode : ∀ y ∈ Expr.optionNodes test, W.Code y) (updateCode : ∀ y ∈ Expr.optionNodes update, W.Code y)
    (code : W.Code (.stmt body)) (distinct : W.Distinct init.declared) (bare : W.constants → body.declared = []) :
    W.Quiet (EvalM.evalFor W.ctx sub₁ init test update body) (EvalM.evalFor W.ctx sub₂ init test update body) := by
  rw [EvalM.evalFor_eq, EvalM.evalFor_eq, sub.turns]
  refine inScope (bind_quiet (evalForInit sub initCode distinct) fun names nodup => ?_)
  exact repeatWhile (forTurn sub testCode updateCode code bare nodup) _

theorem visitItem {pattern : Pattern} (sub : W.Interprets sub₁ sub₂) (kind : Option DeclKind)
    (patternCode : W.Code (.pattern pattern)) (code : W.Code (.stmt body))
    (distinct : W.constants → (Pattern.headNames kind pattern).Nodup)
    (bare : W.constants → body.declared = []) (item : Value) :
    W.Quiet (EvalM.visitItem W.ctx sub₁ kind pattern body item)
      (EvalM.visitItem W.ctx sub₂ kind pattern body item) := by
  refine inScope (bind_quiet (bindPattern sub _ pattern item patternCode ?_) fun _ _ => runBody sub code bare)
  intro watched
  cases kind with
  | none => exact List.nodup_nil
  | some kind =>
    cases kind with
    | var => exact List.nodup_nil
    | _ => exact (BindMode.names_declared _ _).symm ▸ distinct watched

section Visits

variable {visit₁ visit₂ : Value → EvalM Bool}

theorem visitAll (visit : ∀ v, W.Quiet (visit₁ v) (visit₂ v)) (items : List Value) :
    W.Quiet (EvalM.visitAll visit₁ items) (EvalM.visitAll visit₂ items) := by
  induction items with
  | nil => exact pure trivial
  | cons item rest ih =>
    unfold EvalM.visitAll
    exact andThen checkInterrupt fun _ => andThen (visit item) fun again => ite ih (pure trivial)

theorem visitArray (visit : ∀ v, W.Quiet (visit₁ v) (visit₂ v)) (a turns i : Nat) :
    W.Quiet (EvalM.visitArray a visit₁ turns i) (EvalM.visitArray a visit₂ turns i) := by
  induction turns generalizing i with
  | zero => exact exhausted
  | succ turns ih =>
    unfold EvalM.visitArray
    refine andThen checkInterrupt fun _ => reading fun item => ?_
    cases item with
    | none => exact pure trivial
    | some item => exact andThen (visit item) fun again => ite (ih (i + 1)) (pure trivial)

/-- The turns declare nothing around the loop. -/
theorem evalForEach (sub : W.Interprets sub₁ sub₂) (visits : EachKind) (visit : ∀ v, W.Quiet (visit₁ v) (visit₂ v))
    (collection : Value) :
    W.Quiet (EvalM.evalForEach sub₁ visits visit₁ collection) (EvalM.evalForEach sub₂ visits visit₂ collection) := by
  have each : W.Quiet (do EvalM.visitAll visit₁ (← EvalM.iterate collection).toList)
      (do EvalM.visitAll visit₂ (← EvalM.iterate collection).toList) :=
    andThen (standalone (.iterate collection)) fun items => visitAll visit items.toList
  unfold EvalM.evalForEach
  cases visits with
  | keys => exact reading fun keys => visitAll visit _
  | items =>
    cases collection with
    | array a =>
      simp only [sub.turns]
      exact visitArray visit a _ 0
    | _ => exact each

end Visits

/-! ### Switches -/

/-- The cases that are run are the last ones of the switch. -/
theorem selectCases {all cases : List Case} (sub : W.Interprets sub₁ sub₂) (v : Value)
    (code : ∀ c ∈ cases, ∀ y ∈ c.nodes, W.Code y) (among : cases.Sublist all) :
    W.Follows [] (fun selected => selected.Sublist all) (EvalM.selectCases sub₁ v all cases)
      (EvalM.selectCases sub₂ v all cases) := by
  induction cases with
  | nil => exact pure (List.dropWhile_sublist _)
  | cons c rest ih =>
    obtain ⟨head, tail⟩ := List.forall_mem_cons.1 code
    have next := ih tail ((List.sublist_cons_self c rest).trans among)
    obtain ⟨test, body⟩ := c
    unfold EvalM.selectCases
    cases test with
    | none => exact next
    | some test =>
      have testCode : W.Code (.expr test) := head _ (List.mem_cons_self ..)
      exact andThen (sub.expr test testCode) fun tested => ite (pure among) next

theorem forM_eq_foldlM {f : Stmt → EvalM Unit} (statements : List Stmt) :
    statements.forM f = statements.foldlM (fun _ t => f t) () := by
  induction statements with
  | nil => rfl
  | cons t more ih =>
    rw [List.foldlM_cons]
    exact congrArg (f t >>= ·) (funext fun _ => ih)

/-- All cases declare their names in one scope. -/
theorem evalSwitch {discriminant : Expr} {cases : List Case} (sub : W.Interprets sub₁ sub₂)
    (discriminantCode : W.Code (.expr discriminant)) (code : ∀ c ∈ cases, ∀ y ∈ c.nodes, W.Code y)
    (distinct : W.Distinct (Stmt.declaredIn (cases.flatMap Case.body))) :
    W.Quiet (EvalM.evalSwitch sub₁ discriminant cases) (EvalM.evalSwitch sub₂ discriminant cases) := by
  have bodies : ∀ y ∈ (cases.flatMap Case.body).map Node.stmt, W.Code y := by
    refine List.forall_mem_map.2 fun t mem => ?_
    obtain ⟨c, inside, mem⟩ := List.mem_flatMap.1 mem
    have caseCode := code c inside
    obtain ⟨test, body⟩ := c
    exact caseCode _ (List.mem_append_right _ (List.mem_map_of_mem mem))
  unfold EvalM.evalSwitch
  let declared := Stmt.declaredIn (cases.flatMap Case.body)
  refine andThen (sub.expr discriminant discriminantCode) fun value s state =>
    Ends.inScope (X := declared ++ declared) state ?_
  have start : W.Expects declared { s with env := s.env.push } := expects_of_fresh (Environment.fresh_push _)
  refine Ends.bind state.pushed (.inl rfl) (Gives.hoistLexical bodies state.pushed).ends fun _ t _ _ hoisted later => ?_
  have expects := start.later state.pushed distinct (List.Subset.refl _) later
  refine Ends.andThen hoisted (selectCases sub value code (List.Sublist.refl _) t hoisted)
    fun selected u among chosen later => ?_
  have expects := expects.later hoisted distinct (List.nil_subset _) later
  have sublist := among.flatMap Case.body
  have within := Stmt.declaredIn_sublist sublist
  have ran : W.Ends (Stmt.declaredIn (selected.flatMap Case.body)) (fun _ => True) u
      ((selected.flatMap Case.body).forM (fun t => Functor.discard (sub₁.stmt t)) u)
      ((selected.flatMap Case.body).forM (fun t => Functor.discard (sub₂.stmt t)) u) := by
    rw [forM_eq_foldlM, forM_eq_foldlM]
    -- the bodies that are chosen are run in a row, and declare no more than all the cases do
    refine Ends.inARow distinct _ _ u chosen expects within.subset (fun watched =>
      (within.map Prod.fst).nodup (distinct watched)) fun t mem _ s state expects => ?_
    have code : W.Code (.stmt t) := bodies _ (List.mem_map_of_mem (sublist.subset mem))
    exact (sub.stmt t code s state expects).discard state
  refine (Ends.bind chosen (.inr .nil_right) ran.attempt fun r v _ tried after _ => ?_).weaken (Y := declared)
    (List.append_subset.2 ⟨within.subset, List.nil_subset _⟩)
  split
  · exact pure trivial v after
  · exact resume tried v after

/-! ### Handlers -/

theorem caughtValue (e : EvalError) : W.Quiet (EvalM.caughtValue e) (EvalM.caughtValue e) := by
  cases e with
  | thrown v => exact pure trivial
  | _ => exact reading fun message => standalone (.newObject _)

end Follows

/-- A handler has a scope of its own, with the caught value. -/
theorem Ends.handler {param : Option String} {caught : Value} (sub : W.Interprets sub₁ sub₂)
    (code : ∀ y ∈ statements.map Node.stmt, W.Code y)
    (distinct : W.constants → (param.toList ++ Declared.names (Stmt.declaredIn statements)).Nodup) (state : W.At s) :
    W.Ends [] (fun _ => True) s
      (EvalM.inScope (do
        param.forM fun name => Functor.discard (EvalM.define name caught .param)
        EvalM.evalStatements sub₁ statements) s)
      (EvalM.inScope (do
        param.forM fun name => Functor.discard (EvalM.define name caught .param)
        EvalM.evalStatements sub₂ statements) s) := by
  let params : Declared := param.toList.map fun name => (name, .param)
  let declared := Stmt.declaredIn statements
  have whole : W.Distinct (params ++ declared) := by
    intro watched
    rw [Declared.names_append, show params.names = param.toList by simp [params, Declared.names, Function.comp_def]]
    exact distinct watched
  have bound : W.Follows params (fun _ => True)
      (param.forM fun name => Functor.discard (EvalM.define name caught .param))
      (param.forM fun name => Functor.discard (EvalM.define name caught .param)) := by
    cases param with
    | none => exact Follows.pure trivial
    | some name => exact Follows.discard (Follows.define name caught .param)
  refine Ends.inScope (X := params ++ declared) state ?_
  refine Ends.bind state.pushed (.inl rfl) (bound _ state.pushed) fun _ t _ _ middle later => ?_
  have start : W.Expects (params ++ declared) { s with env := s.env.push } :=
    expects_of_fresh (Environment.fresh_push _)
  have expects := start.later state.pushed whole (List.subset_append_left _ _) later
  exact Ends.evalStatements sub code whole.right middle (expects.mono (List.subset_append_right _ _))

namespace Follows

/-- The caught value and the names of the handler are declared in one scope. -/
theorem handle {handler : Option Handler} {r : Except Exit Value} (sub : W.Interprets sub₁ sub₂)
    (code : ∀ y ∈ (handler.toList.flatMap Handler.body).map Node.stmt, W.Code y)
    (distinct : W.constants → ∀ h ∈ handler, (h.param.toList ++ Declared.names (Stmt.declaredIn h.body)).Nodup)
    (tried : W.Tried (fun _ => True) r) :
    W.Follows [] (W.Tried fun _ => True) (EvalM.handle sub₁ handler r) (EvalM.handle sub₂ handler r) := by
  have unhandled : W.Follows [] (W.Tried fun _ => True) (Pure.pure r) (Pure.pure r) := pure tried
  cases r with
  | ok v => exact unhandled
  | error e =>
    cases handler with
    | none => cases e <;> exact unhandled
    | some handler =>
      obtain ⟨param, body⟩ := handler
      rw [show (some (Handler.mk param body)).toList.flatMap Handler.body = body from List.append_nil _] at code
      cases e with
      | error failure =>
        unfold EvalM.handle
        refine ite (andThen (caughtValue failure) fun caught => attempt fun s state => ?_) unhandled
        exact Ends.handler sub code (fun watched => distinct watched _ rfl) state
      | _ => exact unhandled

/-- Block, handler and finalizer each have a scope of their own. -/
theorem evalAttempt {handler : Option Handler} {finalizer : Option (List Stmt)} (sub : W.Interprets sub₁ sub₂)
    (code : ∀ y ∈ statements.map Node.stmt, W.Code y) (distinct : W.Distinct (Stmt.declaredIn statements))
    (handlerCode : ∀ y ∈ (handler.toList.flatMap Handler.body).map Node.stmt, W.Code y)
    (handlerDistinct : W.constants →
      ∀ h ∈ handler, (h.param.toList ++ Declared.names (Stmt.declaredIn h.body)).Nodup)
    (finalizerCode : ∀ y ∈ (finalizer.getD []).map Node.stmt, W.Code y)
    (finalizerDistinct : W.constants → ∀ statements ∈ finalizer, Stmt.Distinct statements) :
    W.Quiet (EvalM.evalAttempt sub₁ statements handler finalizer)
      (EvalM.evalAttempt sub₂ statements handler finalizer) := by
  unfold EvalM.evalAttempt
  refine bind (attempt (block sub code distinct)) fun r tried => ?_
  refine bind (handle sub handlerCode handlerDistinct tried) fun r tried => ?_
  have resumed : W.Quiet (EvalM.resume r) (EvalM.resume r) := resume tried
  cases finalizer with
  | none =>
    cases r with
    | ok v => exact resumed
    | error e => cases e <;> exact resumed
  | some final =>
    have finished := andThen (discard (block sub finalizerCode fun watched => finalizerDistinct watched final rfl))
      fun _ => resumed
    cases r with
    | ok v => exact finished
    | error e => cases e <;> first | exact finished | exact resumed

/-! ### All statements -/

/-- One case for each form of statement. -/
theorem stmtStep {t : Stmt} (sub : W.Interprets sub₁ sub₂) (code : W.Code (.stmt t)) :
    W.Follows t.declared (fun _ => True) (EvalM.stmtStep W.ctx sub₁ t) (EvalM.stmtStep W.ctx sub₂ t) := by
  have ended : ∀ {X : Declared} {x₁ x₂ : EvalM Unit}, W.Follows X (fun _ => True) x₁ x₂ →
      W.Follows X (fun _ => True) (do x₁; return Value.undefined) (do x₂; return Value.undefined) :=
    fun x => bind_quiet x fun _ _ => pure trivial
  have parts : ∀ y ∈ t.parts, W.Code y := fun y mem => code.part mem
  have settled := fun watched => code.settled watched
  unfold EvalM.stmtStep
  refine andThen checkInterrupt fun _ => ?_
  cases t with
  | empty => exact pure trivial
  | brk | cont => exact jump _
  | expr e => exact sub.expr e (parts _ (List.mem_singleton.2 rfl))
  | throw e => exact andThen (sub.expr e (parts _ (List.mem_singleton.2 rfl))) fun v => fail id
  | ret e =>
    cases e with
    | none => exact jump _
    | some e => exact andThen (sub.expr e (parts _ (List.mem_singleton.2 rfl))) fun v => jump _
  | block statements => exact block sub parts settled
  | declare kind declarators => exact ended (evalDeclaration sub kind (forall_mem_flatMap.1 parts) settled)
  | branch test consequent alternate =>
    obtain ⟨testCode, rest⟩ := List.forall_mem_cons.1 parts
    obtain ⟨consequentCode, alternateCode⟩ := List.forall_mem_cons.1 rest
    refine andThen (sub.expr test testCode) fun _ =>
      ite (bare sub consequentCode fun watched => (settled watched).1) ?_
    cases alternate with
    | none => exact pure trivial
    | some t =>
      exact bare sub (alternateCode _ (List.mem_singleton.2 rfl)) fun watched => (settled watched).2 t rfl
  | whileLoop test body =>
    obtain ⟨testCode, rest⟩ := List.forall_mem_cons.1 parts
    have bodyCode := rest _ (List.mem_singleton.2 rfl)
    simp only [sub.turns]
    refine ended (repeatWhile (andThen (sub.expr test testCode) fun _ => ?_) _)
    exact ite (pure trivial) (runBody sub bodyCode settled)
  | doWhile body test =>
    obtain ⟨testCode, rest⟩ := List.forall_mem_cons.1 parts
    have bodyCode := rest _ (List.mem_singleton.2 rfl)
    simp only [sub.turns]
    refine ended (repeatWhile (andThen (runBody sub bodyCode settled) fun _ => ite (pure trivial) ?_) _)
    exact andThen (sub.expr test testCode) fun _ => pure trivial
  | forLoop init test update body =>
    obtain ⟨initCode, rest⟩ := List.forall_mem_append.1 parts
    obtain ⟨testCode, rest⟩ := List.forall_mem_append.1 rest
    obtain ⟨updateCode, rest⟩ := List.forall_mem_append.1 rest
    exact ended (evalFor sub initCode testCode updateCode (rest _ (List.mem_singleton.2 rfl))
      (fun watched => (settled watched).1) fun watched => (settled watched).2)
  | forEach visits kind pattern object body =>
    obtain ⟨patternCode, rest⟩ := List.forall_mem_cons.1 parts
    obtain ⟨objectCode, rest⟩ := List.forall_mem_cons.1 rest
    have bodyCode := rest _ (List.mem_singleton.2 rfl)
    refine andThen (sub.expr object objectCode) fun collection => ended ?_
    exact evalForEach sub visits (visitItem sub kind patternCode bodyCode (fun watched => (settled watched).1)
      fun watched => (settled watched).2) collection
  | attempt statements handler finalizer =>
    obtain ⟨code, rest⟩ := List.forall_mem_append.1 parts
    obtain ⟨handlerCode, finalizerCode⟩ := List.forall_mem_append.1 rest
    exact evalAttempt sub code (fun watched => (settled watched).1) handlerCode
      (fun watched => (settled watched).2.1) finalizerCode fun watched => (settled watched).2.2
  | switch discriminant cases =>
    obtain ⟨discriminantCode, rest⟩ := List.forall_mem_cons.1 parts
    exact ended (evalSwitch sub discriminantCode (forall_mem_flatMap.1 rest) settled)
  | function name definition =>
    have code : ∀ y ∈ [Stmt.function name definition].map Node.stmt, W.Code y := List.forall_mem_singleton.2 code
    have hoisted : W.Follows [(name, .function)] (fun _ => True) (EvalM.hoistLexical [.function name definition])
        (EvalM.hoistLexical [.function name definition]) :=
      fun _ state => (Gives.hoistLexical code state).ends
    exact readingEnv fun there => ite (ended hoisted) ((pure trivial).weaken (List.nil_subset _))

end Follows

end Watch

end BindScript
