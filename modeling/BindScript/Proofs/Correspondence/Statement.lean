import BindScript.Proofs.Correspondence.Binding
import BindScript.Evaluation.Statement

/-!
# Statements in runs that correspond

Statements that keep to their access correspond (`Sim.stmtStep`). Jumps are taken in both runs or in neither,
so loops take the same number of turns.
-/

namespace BindScript

/-- One turn of a counting loop: the test, the body on copies of the loop variables, the update. -/
def EvalM.forTurn (sub : Interpreter) (names : List String) (test update : Option Expr) (body : Stmt) :
    EvalM Bool := do
  let turn : EvalM Bool := if names.isEmpty then runBody sub body else runTurn sub names body
  if !(← testHolds sub test) then return false
  if !(← turn) then return false
  update.forM fun e => discard (sub.expr e)
  return true

/-- A counting loop starts, and then takes turns. -/
theorem EvalM.evalFor_eq (ctx : Context) (sub : Interpreter) (init : ForInit)
    (test update : Option Expr) (body : Stmt) :
    evalFor ctx sub init test update body = inScope (do
      let names ← evalForInit ctx sub init
      repeatWhile (forTurn sub names test update body) sub.turns) :=
  rfl

namespace Correspondence

variable {C : Correspondence} {sub₁ sub₂ : Interpreter} {m : Manner} {bound : List String}
  {w : C.World} {s₁ s₂ : State} {v₁ v₂ : Value} {name : String}

namespace Sim

theorem evalStatements {statements : List Stmt} (sub : Interpreter.Alike C sub₁ sub₂)
    (st : C.At bound w s₁ s₂)
    (within : Stmt.AllWithin C.access statements (bound ++ Stmt.lexicalNames statements)) :
    C.Sim .statement C.Vals w (EvalM.evalStatements sub₁ statements)
      (EvalM.evalStatements sub₂ statements) s₁ s₂ := by
  have functions := functionsWithin_of_all within fun n mem => List.mem_append_right bound mem
  unfold EvalM.evalStatements
  refine bind st (up .binding (hoistLexical st functions)) fun _ st holds => ?_
  have st : C.At (bound ++ Stmt.lexicalNames statements) _ _ _ := ⟨st.toAlike, holds⟩
  refine foldlM rises_both st (both_of_forall (Stmt.allWithin_iff.1 within)) .undefined
    fun _ st _ statement => ?_
  obtain ⟨rfl, within⟩ := statement
  exact sub.stmt st within

/-! ## Loops -/

theorem runBody {body : Stmt} (sub : Interpreter.Alike C sub₁ sub₂) (st : C.At bound w s₁ s₂)
    (within : body.Within C.access bound) :
    C.Sim .statement C.Same w (EvalM.runBody sub₁ body) (EvalM.runBody sub₂ body) s₁ s₂ := by
  unfold EvalM.runBody
  refine bind st (attempt id (sub.stmt st within)) fun _ st tried => ?_
  cases tried with
  | ok => exact pure st.toAlike rfl
  | error exit =>
    cases exit with
    | cont | brk => exact pure st.toAlike rfl
    | error failure => exact throw st.toAlike (.error failure)
    | ret jumps value => exact throw st.toAlike (.ret jumps value)
    | exhausted => exact exhausted st.toAlike
    | clash => exact throw st.toAlike .clash

theorem testHolds {test : Option Expr} (sub : Interpreter.Alike C sub₁ sub₂)
    (st : C.At bound w s₁ s₂) (within : Expr.OptionWithin C.access test bound) :
    C.Sim m C.Same w (EvalM.testHolds sub₁ test) (EvalM.testHolds sub₂ test) s₁ s₂ := by
  cases test with
  | none => exact pure st.toAlike rfl
  | some test =>
    exact bind st (sub.expr st within) fun _ st value => pure st.toAlike value.isTruthy_eq

/-- What a loop variable holds, or nothing if it is not bound. -/
private theorem held (st : C.Alike w s₁ s₂) (name : String) :
    Value.Alike (C.pairing w)
        (((s₁.env.find? name).map fun b => s₁.heap.cellAt b.cell).getD .undefined)
        (((s₂.env.find? name).map fun b => s₂.heap.cellAt b.cell).getD .undefined) ∧
      ((s₁.env.find? name).map (·.kind)).getD .let = ((s₂.env.find? name).map (·.kind)).getD .let := by
  have found := st.env.find? name
  generalize s₁.env.find? name = b₁ at found ⊢
  generalize s₂.env.find? name = b₂ at found ⊢
  cases found with
  | none => exact ⟨.undefined, rfl⟩
  | some b => exact ⟨(C.alike st.heap).cell b.cell, b.kind⟩

theorem copyName (name : String) (st : C.Alike w s₁ s₂) :
    C.Sim .binding C.Same w (EvalM.copyName name) (EvalM.copyName name) s₁ s₂ := by
  unfold EvalM.copyName
  apply readEnv_bind
  apply readHeap_bind
  rw [(held st name).2]
  exact discard st (define st (held st name).1)

theorem valueOf (name : String) (st : C.Alike w s₁ s₂) :
    C.Sim m C.Vals w (EvalM.valueOf name) (EvalM.valueOf name) s₁ s₂ := by
  unfold EvalM.valueOf
  apply readEnv_bind
  exact readHeap st (held st name).1

/-- The end of a turn, and the values of the loop variables after it. -/
def TurnEnds : C.Post (Except Exit Bool × List Value) :=
  fun w env x y => Tried (C := C) .statement C.Same w env x.1 y.1 ∧ C.Lists w env x.2 y.2

theorem lasts_turnEnds : Lasts (C := C) TurnEnds :=
  ⟨fun le h => ⟨lasts_same.tried.later le h.1, lasts_lists.later le h.2⟩⟩

/-- The part of a turn that runs on copies of the loop variables. -/
theorem runCopies {body : Stmt} (sub : Interpreter.Alike C sub₁ sub₂) (names : List String)
    (st : C.At bound w s₁ s₂) (within : body.Within C.access bound) :
    C.Sim .statement TurnEnds w
      (do names.forM EvalM.copyName
          let result ← EvalM.attempt (EvalM.runBody sub₁ body)
          return (result, ← names.mapM EvalM.valueOf))
      (do names.forM EvalM.copyName
          let result ← EvalM.attempt (EvalM.runBody sub₂ body)
          return (result, ← names.mapM EvalM.valueOf)) s₁ s₂ := by
  have every : ∀ w : C.World, List.Forall₂ (Both (fun _ => True) w) names names :=
    fun w => both_of_forall fun _ _ => trivial
  refine bind (Q := C.Same) st (forM rises_both st (every w) fun _ st name => ?_) fun _ st _ => ?_
  · obtain ⟨rfl, -⟩ := name
    exact up .binding (copyName _ st.toAlike)
  refine bind st (attempt id (runBody sub st within)) fun _ st result => ?_
  refine bind st (mapM rises_both rises_alike st (every _) fun _ st name => ?_)
    fun le st values => pure st.toAlike ⟨lasts_same.tried.later le result, values⟩
  obtain ⟨rfl, -⟩ := name
  exact valueOf _ st.toAlike

/-- A turn copies the variables, runs the body and writes them back in both runs. -/
theorem runTurn {body : Stmt} (sub : Interpreter.Alike C sub₁ sub₂) (names : List String)
    (st : C.At bound w s₁ s₂) (within : body.Within C.access bound) :
    C.Sim .statement C.Same w (EvalM.runTurn sub₁ names body) (EvalM.runTurn sub₂ names body)
      s₁ s₂ := by
  unfold EvalM.runTurn
  refine bind (Q := TurnEnds) st
    (inScope st lasts_turnEnds fun st => runCopies sub names st within)
    fun {w' t₁ t₂ x y} _ st ends => ?_
  obtain ⟨result₁, values₁⟩ := x
  obtain ⟨result₂, values₂⟩ := y
  obtain ⟨result, values⟩ := ends
  refine bind (Q := C.Same) st (forM rises_entry st (Value.AllAlike.zip_keys values names)
    fun {w' t₁ t₂ x y} _ st entry => ?_) fun le st _ => resume st.toAlike (lasts_same.tried.later le result)
  obtain ⟨name, u₁⟩ := x
  obtain ⟨name', u₂⟩ := y
  obtain ⟨rfl, value⟩ := entry
  exact startName st.toAlike value

/-- Both heads bind the same names, and list the same ones to be copied for each turn. -/
theorem evalForInit {init : ForInit} (sub : Interpreter.Alike C sub₁ sub₂) (st : C.At bound w s₁ s₂)
    (within : init.Within C.access bound) :
    C.Sim .statement (fun _ env names₁ names₂ => names₁ = names₂ ∧
        ∀ n ∈ bound ++ init.turnNames, n ∈ env.names) w
      (EvalM.evalForInit C.left sub₁ init) (EvalM.evalForInit C.right sub₂ init) s₁ s₂ := by
  cases init with
  | none =>
    rw [ForInit.turnNames, List.append_nil]
    exact pure st.toAlike ⟨rfl, st.bound⟩
  | expr e =>
    rw [ForInit.turnNames, List.append_nil]
    exact bind st (discard st.toAlike (sub.expr st within)) fun _ st _ =>
      pure st.toAlike ⟨rfl, st.bound⟩
  | declare kind declarators =>
    unfold EvalM.evalForInit ForInit.turnNames
    refine bind st (up .binding (evalDeclaration sub kind declarators st within)) fun _ st holds => ?_
    cases kind with
    | var => exact pure st.toAlike ⟨rfl, by simpa using st.bound⟩
    | «let» | const => exact pure st.toAlike ⟨rfl, holds⟩

/-- One turn of a counting loop, with its test and its update. -/
theorem forTurn {names : List String} {test update : Option Expr} {body : Stmt}
    (sub : Interpreter.Alike C sub₁ sub₂) (st : C.At bound w s₁ s₂)
    (testWithin : Expr.OptionWithin C.access test bound)
    (updateWithin : Expr.OptionWithin C.access update bound) (bodyWithin : body.Within C.access bound) :
    C.Sim .statement C.Same w (EvalM.forTurn sub₁ names test update body)
      (EvalM.forTurn sub₂ names test update body) s₁ s₂ := by
  unfold EvalM.forTurn
  refine bind st (testHolds sub st testWithin) fun _ st holds => ?_
  refine ite (congrArg not holds) (fun _ => pure st.toAlike rfl) fun _ => ?_
  have turn : C.Sim .statement C.Same _ _ _ _ _ := ite (Eq.refl names.isEmpty)
    (fun _ => runBody sub st bodyWithin) (fun _ => runTurn sub names st bodyWithin)
  refine bind st turn fun _ st again => ?_
  refine ite (congrArg not again) (fun _ => pure st.toAlike rfl) fun _ => ?_
  cases update with
  | none => exact pure st.toAlike rfl
  | some e =>
    exact bind st (discard st.toAlike (sub.expr st updateWithin)) fun _ st _ => pure st.toAlike rfl

theorem evalFor {init : ForInit} {test update : Option Expr} {body : Stmt}
    (sub : Interpreter.Alike C sub₁ sub₂) (st : C.At bound w s₁ s₂)
    (within : (Stmt.forLoop init test update body).Within C.access bound) :
    C.Sim .statement C.Same w (EvalM.evalFor C.left sub₁ init test update body)
      (EvalM.evalFor C.right sub₂ init test update body) s₁ s₂ := by
  unfold Stmt.Within at within
  obtain ⟨initWithin, testWithin, updateWithin, bodyWithin⟩ := within
  rw [EvalM.evalFor_eq, EvalM.evalFor_eq]
  refine inScope st lasts_same fun st => ?_
  refine bind st (evalForInit sub st initWithin) fun {_ _ _ names₁ names₂} _ st init => ?_
  obtain ⟨rfl, holds⟩ := init
  have st : C.At (bound ++ init.turnNames) _ _ _ := ⟨st.toAlike, holds⟩
  rw [sub.turns]
  exact repeatWhile _ st fun _ st => forTurn sub st testWithin updateWithin bodyWithin

/-- The pattern of the head is bound to the item in a scope of its own, and the body is run there. -/
theorem visitItem {kind : Option DeclKind} {pattern : Pattern} {body : Stmt}
    (sub : Interpreter.Alike C sub₁ sub₂) (st : C.At bound w s₁ s₂)
    (within : pattern.Within C.access (DeclKind.declares kind) bound)
    (assignable : DeclKind.declares kind = false → C.access.Assignable bound pattern.boundNames)
    (bodyWithin : body.Within C.access (boundAfter (DeclKind.declares kind) bound pattern.boundNames))
    (item : Value.Alike (C.pairing w) v₁ v₂) :
    C.Sim .statement C.Same w (EvalM.visitItem C.left sub₁ kind pattern body v₁)
      (EvalM.visitItem C.right sub₂ kind pattern body v₂) s₁ s₂ := by
  unfold EvalM.visitItem
  refine inScope st lasts_same fun st => ?_
  have visit : ∀ mode : BindMode, mode.declares = DeclKind.declares kind →
      C.Sim .statement C.Same w
        (do EvalM.bindPattern C.left sub₁ mode pattern v₁; EvalM.runBody sub₁ body)
        (do EvalM.bindPattern C.right sub₂ mode pattern v₂; EvalM.runBody sub₂ body)
        { s₁ with env := s₁.env.push } { s₂ with env := s₂.env.push } := fun mode same => by
    rw [← same] at within assignable bodyWithin
    exact bind st (up .binding (bindPattern sub mode pattern st within assignable item))
      fun _ st holds => runBody sub ⟨st.toAlike, holds⟩ bodyWithin
  cases kind with
  | none => exact visit .assign rfl
  | some kind =>
    cases kind with
    | var => exact visit .assign rfl
    | «let» => exact visit (.declare .let) rfl
    | const => exact visit (.declare .const) rfl

/-- Two visits of the items of a collection correspond. -/
def Visits (C : Correspondence) (bound : List String) (w : C.World)
    (visit₁ visit₂ : Value → EvalM Bool) : Prop :=
  ∀ {w' t₁ t₂ v₁ v₂}, w ≤ w' → C.At bound w' t₁ t₂ → Value.Alike (C.pairing w') v₁ v₂ →
    C.Sim .statement C.Same w' (visit₁ v₁) (visit₂ v₂) t₁ t₂

theorem Visits.later {w' : C.World} {visit₁ visit₂ : Value → EvalM Bool}
    (visit : Visits C bound w visit₁ visit₂) (le : w ≤ w') : Visits C bound w' visit₁ visit₂ :=
  fun le' => visit (le_trans le le')

/-- The visits stop at the same item. -/
theorem visitAll {visit₁ visit₂ : Value → EvalM Bool} {items₁ items₂ : List Value}
    (st : C.At bound w s₁ s₂) (visit : Visits C bound w visit₁ visit₂)
    (items : Value.AllAlike (C.pairing w) items₁ items₂) :
    C.Sim .statement C.Same w (EvalM.visitAll visit₁ items₁) (EvalM.visitAll visit₂ items₂) s₁ s₂ := by
  induction items₁ generalizing w s₁ s₂ items₂ with
  | nil =>
    cases items
    exact pure st.toAlike rfl
  | cons v₁ items₁ ih =>
    obtain ⟨v₂, items₂, head, tail, rfl⟩ := List.forall₂_cons_left_iff.1 items
    unfold EvalM.visitAll
    refine bind st (checkInterrupt st.toAlike) fun le st _ => ?_
    refine bind st (visit le st (head.mono (C.pairing_le le))) fun le' st again => ?_
    have le := le_trans le le'
    exact ite again (fun _ => ih st (visit.later le) (tail.imp fun _ _ h => h.mono (C.pairing_le le)))
      fun _ => pure st.toAlike rfl

/-- The length is read again before each turn, since the body may change it. By induction on the turns that are left. -/
theorem visitArray {visit₁ visit₂ : Value → EvalM Bool} {a b : Nat} (turns i : Nat)
    (st : C.At bound w s₁ s₂) (paired : (C.pairing w).arrays a b)
    (visit : Visits C bound w visit₁ visit₂) :
    C.Sim .statement C.Same w (EvalM.visitArray a visit₁ turns i) (EvalM.visitArray b visit₂ turns i)
      s₁ s₂ := by
  induction turns generalizing w s₁ s₂ i with
  | zero => exact exhausted st.toAlike
  | succ turns ih =>
    unfold EvalM.visitArray
    refine bind st (checkInterrupt st.toAlike) fun {w' t₁ t₂ _ _} le st _ => ?_
    apply readHeap_bind
    have found := st.heapAlike.item ((C.pairing_le le).arrays paired) i
    generalize (t₁.heap.items a)[i]? = item₁ at found ⊢
    generalize (t₂.heap.items b)[i]? = item₂ at found ⊢
    cases found with
    | none => exact pure st.toAlike rfl
    | some item =>
      refine bind st (visit le st item) fun le' st again => ?_
      have le := le_trans le le'
      exact ite again (fun _ => ih (i + 1) st ((C.pairing_le le).arrays paired) (visit.later le))
        fun _ => pure st.toAlike rfl

/-- Keys are listed before the first turn, items of an array are visited while it may change. -/
theorem evalForEach {visit₁ visit₂ : Value → EvalM Bool} (sub : Interpreter.Alike C sub₁ sub₂)
    (visits : EachKind) (st : C.At bound w s₁ s₂) (visit : Visits C bound w visit₁ visit₂)
    (collection : Value.Alike (C.pairing w) v₁ v₂) :
    C.Sim .statement C.Same w (EvalM.evalForEach sub₁ visits visit₁ v₁)
      (EvalM.evalForEach sub₂ visits visit₂ v₂) s₁ s₂ := by
  unfold EvalM.evalForEach
  cases visits with
  | keys =>
    apply readHeap_bind
    rw [st.heapAlike.keys_eq collection]
    refine visitAll st visit (List.forall₂_same.2 fun v mem => ?_)
    obtain ⟨key, _, rfl⟩ := List.mem_map.1 mem
    exact .string key
  | items =>
    have each : C.Sim .statement C.Same w
        (do EvalM.visitAll visit₁ (← EvalM.iterate v₁).toList)
        (do EvalM.visitAll visit₂ (← EvalM.iterate v₂).toList) s₁ s₂ :=
      bind st (iterate st.toAlike collection) fun le st items => visitAll st (visit.later le) items
    cases collection with
    | array paired =>
      simp only [sub.turns]
      exact visitArray _ 0 st paired visit
    | _ => exact each

/-! ## Switches -/

/-- Tests are evaluated until one matches, so the two sides select at the same case. -/
theorem selectCases {all cases : List Case} (sub : Interpreter.Alike C sub₁ sub₂)
    (st : C.At bound w s₁ s₂) (within : ∀ c ∈ cases, Expr.OptionWithin C.access c.test bound)
    (among : cases ⊆ all) (value : Value.Alike (C.pairing w) v₁ v₂) :
    C.Sim m (fun _ _ cases₁ cases₂ => cases₁ = cases₂ ∧ cases₁ ⊆ all) w
      (EvalM.selectCases sub₁ v₁ all cases) (EvalM.selectCases sub₂ v₂ all cases) s₁ s₂ := by
  induction cases generalizing w s₁ s₂ with
  | nil => exact pure st.toAlike ⟨rfl, (List.dropWhile_sublist _).subset⟩
  | cons c rest ih =>
    have head := within c (List.mem_cons_self ..)
    have restWithin : ∀ c ∈ rest, Expr.OptionWithin C.access c.test bound :=
      fun c mem => within c (List.mem_cons_of_mem _ mem)
    have restAmong : rest ⊆ all := fun c mem => among (List.mem_cons_of_mem _ mem)
    unfold EvalM.selectCases
    generalize c.test = test at head ⊢
    cases test with
    | none => exact ih st restWithin restAmong value
    | some test =>
      refine bind st (sub.expr st head) fun le st tested => ?_
      have value := value.mono (C.pairing_le le)
      exact ite (tested.strictEquals_eq value) (fun _ => pure st.toAlike ⟨rfl, among⟩)
        fun _ => ih st restWithin restAmong value

/-- All cases share one scope. The selected ones are run in it until one ends with a jump. -/
theorem evalSwitch {discriminant : Expr} {cases : List Case} (sub : Interpreter.Alike C sub₁ sub₂)
    (st : C.At bound w s₁ s₂) (within : (Stmt.switch discriminant cases).Within C.access bound) :
    C.Sim .statement C.Same w (EvalM.evalSwitch sub₁ discriminant cases)
      (EvalM.evalSwitch sub₂ discriminant cases) s₁ s₂ := by
  unfold Stmt.Within at within
  have casesWithin := Case.allWithin_iff.1 within.2
  have bodies : ∀ {selected : List Case}, selected ⊆ cases → ∀ s ∈ selected.flatMap Case.body,
      s.Within C.access (bound ++ Stmt.lexicalNames (cases.flatMap Case.body)) :=
    fun among s mem => by
      obtain ⟨c, hc, hs⟩ := List.mem_flatMap.1 mem
      exact Stmt.allWithin_iff.1 (casesWithin c (among hc)).2 s hs
  have functions := functionsWithin_of_all (C := C)
    (Stmt.allWithin_iff.2 (bodies (List.Subset.refl cases)))
    fun n mem => List.mem_append_right bound mem
  unfold EvalM.evalSwitch
  refine bind st (sub.expr st within.1) fun le st value => ?_
  refine inScope st lasts_same fun st => ?_
  refine bind st (up .binding (hoistLexical st functions)) fun le st holds => ?_
  have st : C.At (bound ++ Stmt.lexicalNames (cases.flatMap Case.body)) _ _ _ := ⟨st.toAlike, holds⟩
  refine bind st (selectCases sub st (fun c mem => (casesWithin c mem).1) (List.Subset.refl _)
    (value.mono (C.pairing_le le))) fun {_ _ _ selected₁ selected₂} _ st selected => ?_
  obtain ⟨rfl, among⟩ := selected
  refine bind st (attempt id (forM rises_both st (both_of_forall (bodies among))
    fun _ st statement => ?_)) fun {_ _ _ _ _} _ st tried => ?_
  · obtain ⟨rfl, within⟩ := statement
    exact discard st.toAlike (sub.stmt st within)
  · cases tried with
    | ok => exact pure st.toAlike rfl
    | error exit =>
      cases exit with
      | brk => exact pure st.toAlike rfl
      | cont jumps => exact throw st.toAlike (.cont jumps)
      | ret jumps value => exact throw st.toAlike (.ret jumps value)
      | error failure => exact throw st.toAlike (.error failure)
      | exhausted => exact exhausted st.toAlike
      | clash => exact throw st.toAlike .clash

/-! ## Handlers -/

/-- What is caught is the value thrown, or for other failures a new object. -/
theorem caughtValue {e₁ e₂ : EvalError} (st : C.Alike w s₁ s₂)
    (failure : EvalError.Alike (C.pairing w) e₁ e₂) :
    C.Sim m C.Vals w (EvalM.caughtValue e₁) (EvalM.caughtValue e₂) s₁ s₂ := by
  cases failure with
  | thrown value => exact pure st value
  | same ne =>
    have described : C.Sim m C.Vals w
        (do let message ← EvalM.readHeap e₁.detail
            EvalM.allocate (·.newObject [("name", .string e₁.className), ("message", .string message)]))
        (do let message ← EvalM.readHeap e₁.detail
            EvalM.allocate (·.newObject [("name", .string e₁.className), ("message", .string message)]))
        s₁ s₂ := by
      apply readHeap_bind
      have detail : e₁.detail s₁.heap = e₁.detail s₂.heap := by
        cases e₁ with
        | thrown v => exact absurd rfl (ne v)
        | _ => rfl
      rw [detail]
      exact newObject st (.cons ⟨rfl, .string _⟩ (.cons ⟨rfl, .string _⟩ .nil))
    cases e₁ with
    | thrown v => exact absurd rfl (ne v)
    | _ => exact described

theorem isCatchable_eq {p : Pairing} {e₁ e₂ : EvalError} (failure : EvalError.Alike p e₁ e₂) :
    e₁.isCatchable = e₂.isCatchable := by
  cases failure <;> rfl

/-- The handler is run only for what can be caught, with the caught value bound in a scope of its own. -/
theorem handle {handler : Option Handler} {r₁ r₂ : Except Exit Value}
    (sub : Interpreter.Alike C sub₁ sub₂) (st : C.At bound w s₁ s₂)
    (within : Handler.OptionWithin C.access handler bound)
    (tried : Tried (C := C) .statement C.Vals w s₁.env r₁ r₂) :
    C.Sim .statement (Tried .statement C.Vals) w (EvalM.handle sub₁ handler r₁)
      (EvalM.handle sub₂ handler r₂) s₁ s₂ := by
  have untouched : ∀ {m}, C.Sim m (Tried .statement C.Vals) w (Pure.pure r₁) (Pure.pure r₂) s₁ s₂ :=
    pure st.toAlike tried
  unfold EvalM.handle
  cases handler with
  | none =>
    cases tried with
    | ok => exact untouched
    | error exit => cases exit <;> exact untouched
  | some handler =>
    obtain ⟨param, body⟩ := handler
    cases tried with
    | ok => exact untouched
    | error exit =>
      cases exit with
      | error failure =>
        refine ite (isCatchable_eq failure) (fun _ => ?_) fun _ => untouched
        refine bind st (caughtValue st.toAlike failure) fun _ st caught => ?_
        refine attempt id (inScope st lasts_vals fun st => ?_)
        unfold Handler.OptionWithin at within
        refine bind st (Q := Holds (bound ++ param.toList)) ?_
          fun _ st holds => evalStatements sub ⟨st.toAlike, holds⟩ within
        cases param with
        | none =>
          rw [Option.toList_none, List.append_nil]
          exact pure st.toAlike st.bound
        | some name =>
          exact up .binding <| bind st (define st.toAlike caught)
            fun _ st cell => pure st.toAlike (st.holds_append cell.2)
      | _ => exact untouched

/-- Whatever the block and its handler come to, the finalizer is run after them, and unless it ends otherwise their
outcome stays. -/
theorem evalAttempt {statements : List Stmt} {handler : Option Handler}
    {finalizer : Option (List Stmt)} (sub : Interpreter.Alike C sub₁ sub₂) (st : C.At bound w s₁ s₂)
    (within : (Stmt.attempt statements handler finalizer).Within C.access bound) :
    C.Sim .statement C.Vals w (EvalM.evalAttempt sub₁ statements handler finalizer)
      (EvalM.evalAttempt sub₂ statements handler finalizer) s₁ s₂ := by
  unfold Stmt.Within at within
  obtain ⟨statementsWithin, handlerWithin, finalizerWithin⟩ := within
  unfold EvalM.evalAttempt
  refine bind st (attempt id (inScope st lasts_vals fun st => evalStatements sub st statementsWithin))
    fun _ st tried => ?_
  refine bind st (handle sub st handlerWithin tried) fun {_ _ _ r₁ r₂} _ st result => ?_
  have done : C.Sim .statement C.Vals _ (EvalM.resume r₁) (EvalM.resume r₂) _ _ :=
    resume st.toAlike result
  cases finalizer with
  | none =>
    cases result with
    | ok => exact done
    | error exit => cases exit <;> exact done
  | some statements =>
    have final : C.Sim .statement C.Vals _
        (do Functor.discard (EvalM.inScope (EvalM.evalStatements sub₁ statements)); EvalM.resume r₁)
        (do Functor.discard (EvalM.inScope (EvalM.evalStatements sub₂ statements)); EvalM.resume r₂)
        _ _ :=
      bind st (discard st.toAlike (inScope st lasts_vals fun st =>
        evalStatements sub st finalizerWithin)) fun le st _ =>
          resume st.toAlike (lasts_vals.tried.later le result)
    cases result with
    | ok => exact final
    | error exit =>
      cases exit with
      | exhausted | clash => exact done
      | _ => exact final

/-! ## All statements -/

/-- One case for each form of statement. -/
theorem stmtStep {s : Stmt} (sub : Interpreter.Alike C sub₁ sub₂) (st : C.At bound w s₁ s₂)
    (within : s.Within C.access bound) :
    C.Sim .statement C.Vals w (EvalM.stmtStep C.left sub₁ s) (EvalM.stmtStep C.right sub₂ s)
      s₁ s₂ := by
  have ended : ∀ {x₁ x₂ : EvalM Unit} {w s₁ s₂}, C.At bound w s₁ s₂ →
      C.Sim .statement C.Same w x₁ x₂ s₁ s₂ →
      C.Sim .statement C.Vals w (do x₁; return .undefined) (do x₂; return .undefined) s₁ s₂ :=
    fun st x => bind st x fun _ st _ => pure st.toAlike .undefined
  unfold EvalM.stmtStep
  refine bind st (checkInterrupt st.toAlike) fun _ st _ => ?_
  cases s with
  | empty => exact pure st.toAlike .undefined
  | brk => exact throw st.toAlike (.brk trivial)
  | cont => exact throw st.toAlike (.cont trivial)
  | expr e => exact sub.expr st within
  | throw e =>
    exact bind st (sub.expr st within) fun _ st value =>
      throw st.toAlike (.error (.thrown value))
  | ret e =>
    cases e with
    | none => exact throw st.toAlike (.ret trivial .undefined)
    | some e =>
      exact bind st (sub.expr st within) fun _ st value => throw st.toAlike (.ret trivial value)
  | block statements =>
    exact inScope st lasts_vals fun st => evalStatements sub st within
  | declare kind declarators =>
    exact bind st (up .binding (evalDeclaration sub kind declarators st within))
      fun _ st _ => pure st.toAlike .undefined
  | branch test consequent alternate =>
    obtain ⟨testWithin, consequentWithin, alternateWithin⟩ := within
    refine bind st (sub.expr st testWithin) fun _ st value => ?_
    refine ite value.isTruthy_eq (fun _ => sub.stmt st consequentWithin) fun _ => ?_
    cases alternate with
    | none => exact pure st.toAlike .undefined
    | some s => exact sub.stmt st alternateWithin
  | whileLoop test body =>
    obtain ⟨testWithin, bodyWithin⟩ := within
    simp only [sub.turns]
    refine ended st (repeatWhile _ st fun _ st => ?_)
    refine bind st (sub.expr st testWithin) fun _ st value => ?_
    exact ite (congrArg not value.isTruthy_eq) (fun _ => pure st.toAlike rfl)
      fun _ => runBody sub st bodyWithin
  | doWhile body test =>
    obtain ⟨bodyWithin, testWithin⟩ := within
    simp only [sub.turns]
    refine ended st (repeatWhile _ st fun _ st => ?_)
    refine bind st (runBody sub st bodyWithin) fun _ st again => ?_
    refine ite (congrArg not again) (fun _ => pure st.toAlike rfl) fun _ => ?_
    exact bind st (sub.expr st testWithin) fun _ st value => pure st.toAlike value.isTruthy_eq
  | forLoop init test update body => exact ended st (evalFor sub st within)
  | forEach visits kind pattern object body =>
    obtain ⟨objectWithin, patternWithin, assignable, bodyWithin⟩ := within
    refine bind st (sub.expr st objectWithin) fun _ st collection => ended st ?_
    exact evalForEach sub visits st
      (fun _ st item => visitItem sub st patternWithin assignable bodyWithin item) collection
  | attempt statements handler finalizer => exact evalAttempt sub st within
  | switch discriminant cases => exact ended st (evalSwitch sub st within)
  | function name definition =>
    apply readEnv_bind
    have functions : C.FunctionsWithin [.function name definition]
        (bound ++ Stmt.lexicalNames [.function name definition]) := fun name' definition' mem => by
      cases List.mem_singleton.1 mem
      exact ⟨bound ++ [name], List.Subset.refl _, within⟩
    refine ite (congrArg not (st.env.containsInScope_eq name)) (fun _ => ?_)
      fun _ => pure st.toAlike .undefined
    exact bind st (up .binding (hoistLexical st functions)) fun _ st _ => pure st.toAlike .undefined


end Sim

end Correspondence

end BindScript
