import BindScript.Proofs.Correspondence.Names
import BindScript.Evaluation.Declaration

/-!
# Binding names in runs that correspond

Patterns, declarations and hoisting correspond in code that keeps to its access. Each of these steps leaves
the names bound that the judgement of the code after it counts on (`Holds`).
-/

namespace BindScript

/-- Whether a pattern bound in the mode declares its names. -/
def BindMode.declares : BindMode → Bool
  | declare _ => true
  | assign => false

theorem boundAfter_append (declares : Bool) (bound names more : List String) :
    boundAfter declares (boundAfter declares bound names) more =
      boundAfter declares bound (names ++ more) := by
  cases declares with
  | true => exact List.append_assoc bound names more
  | false => rfl

theorem boundAfter_nil (declares : Bool) (bound : List String) :
    boundAfter declares bound [] = bound := by
  cases declares with
  | true => exact List.append_nil bound
  | false => rfl

theorem Stmt.mem_lexicalNames {name : String} {definition : Function} {statements : List Stmt}
    (mem : Stmt.function name definition ∈ statements) : name ∈ Stmt.lexicalNames statements := by
  induction statements with
  | nil => cases mem
  | cons s rest ih =>
    rcases List.mem_cons.1 mem with rfl | later
    · exact List.mem_cons_self ..
    · cases s with
      | declare => exact List.mem_append_right _ (ih later)
      | function => exact List.mem_cons_of_mem _ (ih later)
      | _ => exact ih later

namespace Correspondence

variable {C : Correspondence} {sub₁ sub₂ : Interpreter} {m : Manner} {bound : List String}
  {w : C.World} {s₁ s₂ : State} {v₁ v₂ : Value} {name : String}

/-- What the names of a pattern may count on in a mode: when they are assigned, they may be. -/
def Bindable (C : Correspondence) (mode : BindMode) (bound names : List String) : Prop :=
  mode.declares = false → C.access.Assignable bound names

/-- A name that is declared may be any. -/
theorem Bindable.declare (kind : BindingKind) (names : List String) :
    C.Bindable (.declare kind) bound names :=
  nofun

theorem Bindable.left {mode : BindMode} {names more : List String}
    (h : C.Bindable mode bound (names ++ more)) : C.Bindable mode bound names :=
  fun d n mem => h d n (List.mem_append_left more mem)

theorem Bindable.right {mode : BindMode} {names more : List String}
    (h : C.Bindable mode bound (names ++ more)) :
    C.Bindable mode (boundAfter mode.declares bound names) more := fun d n mem => by
  rw [d]
  exact h d n (List.mem_append_right names mem)

/-- A function that a block creates, and the cell it belongs in. -/
structure Hoisted (C : Correspondence) (inside : List String) (w : C.World)
    (x y : String × Function × Nat) : Prop where
  name : x.1 = y.1
  definition : x.2.1 = y.2.1
  cell : (C.pairing w).cells x.2.2 y.2.2
  within : ∃ names ⊆ inside, x.2.1.Within C.access names

/-- The functions that statements declare keep to the access under some of the names. -/
def FunctionsWithin (C : Correspondence) (statements : List Stmt) (inside : List String) : Prop :=
  ∀ name definition, Stmt.function name definition ∈ statements →
    ∃ names ⊆ inside, definition.Within C.access names

theorem functionsWithin_of_all {statements : List Stmt}
    (within : Stmt.AllWithin C.access statements bound)
    (names : ∀ n ∈ Stmt.lexicalNames statements, n ∈ bound) :
    C.FunctionsWithin statements bound := fun name definition mem => by
  have declared : name ∈ Stmt.lexicalNames statements := by
    exact Stmt.mem_lexicalNames mem
  refine ⟨bound ++ [name], ?_, Stmt.allWithin_iff.1 within _ mem⟩
  intro n mem
  rcases List.mem_append.1 mem with mem | mem
  · exact mem
  · exact List.mem_singleton.1 mem ▸ names name declared

theorem rises_hoisted {inside : List String} : Sim.Rises (C.Hoisted inside) :=
  ⟨fun le h => ⟨h.name, h.definition, (C.pairing_le le).cells h.cell, h.within⟩⟩

namespace Sim

theorem withDefault {e : Option Expr} (sub : Interpreter.Alike C sub₁ sub₂) (st : C.At bound w s₁ s₂)
    (value : Value.Alike (C.pairing w) v₁ v₂) (within : Expr.OptionWithin C.access e bound) :
    C.Sim m C.Vals w (EvalM.withDefault sub₁ v₁ e) (EvalM.withDefault sub₂ v₂ e) s₁ s₂ := by
  cases value with
  | undefined =>
    cases e with
    | some e => exact sub.expr st within
    | none => exact pure st.toAlike .undefined
  | array paired => exact pure st.toAlike (.array paired)
  | object paired => exact pure st.toAlike (.object paired)
  | closure paired => exact pure st.toAlike (.closure paired)
  | _ => exact pure st.toAlike (by constructor)

/-! ## Patterns -/

/-- After a name has been bound, it is bound in both runs. -/
theorem bindName (mode : BindMode) (st : C.At bound w s₁ s₂)
    (value : Value.Alike (C.pairing w) v₁ v₂) (bindable : C.Bindable mode bound [name]) :
    C.Sim .binding (Holds (boundAfter mode.declares bound [name])) w
      (EvalM.bindName C.left mode name v₁) (EvalM.bindName C.right mode name v₂) s₁ s₂ := by
  unfold EvalM.bindName
  cases mode with
  | assign =>
    exact keeping st (assignName st value (bindable rfl name (List.mem_singleton.2 rfl)))
  | declare kind =>
    apply readEnv_bind
    refine ite (st.env.containsInScope_eq name) (fun there => ?_) fun _ => ?_
    · have there := Environment.mem_names_of_containsInScope there
      exact keeping ⟨st.toAlike, st.holds_append there⟩ (startName st.toAlike value)
    · exact bind st (define st.toAlike value) fun _ st cell =>
        pure st.toAlike (st.holds_append cell.2)

/-- What an object pattern leaves is bound to the name of its rest. -/
private theorem bindRemaining (mode : BindMode) (fields : List Field) (st : C.At bound w s₁ s₂)
    (bindable : C.Bindable mode bound [name]) (value : Value.Alike (C.pairing w) v₁ v₂) :
    C.Sim .binding (Holds (boundAfter mode.declares bound [name])) w
      (do let remaining ← EvalM.readHeap (EvalM.remainingProperties · v₁ fields)
          EvalM.bindName C.left mode name (← EvalM.allocate (·.newObject remaining)))
      (do let remaining ← EvalM.readHeap (EvalM.remainingProperties · v₂ fields)
          EvalM.bindName C.right mode name (← EvalM.allocate (·.newObject remaining))) s₁ s₂ := by
  apply readHeap_bind
  have remaining := (st.heapAlike.entries value).filter
    (fun entry => !fields.any (fun f => f.key == entry.1)) fun h => by rw [h]
  refine bind st (newObject st.toAlike (Entries.Alike.insertAll .nil remaining)) fun _ st object => ?_
  exact bindName mode st object bindable

mutual

theorem bindPattern (sub : Interpreter.Alike C sub₁ sub₂) (mode : BindMode) :
    ∀ (p : Pattern) {bound : List String} {w : C.World} {s₁ s₂ : State} {v₁ v₂ : Value},
    C.At bound w s₁ s₂ → p.Within C.access mode.declares bound →
    C.Bindable mode bound p.boundNames → Value.Alike (C.pairing w) v₁ v₂ →
    C.Sim .binding (Holds (boundAfter mode.declares bound p.boundNames)) w
      (EvalM.bindPattern C.left sub₁ mode p v₁) (EvalM.bindPattern C.right sub₂ mode p v₂) s₁ s₂
  | .name _, _, _, _, _, _, _, st, _, bindable, value => bindName mode st value bindable
  | .array elements rest, bound, _, _, _, _, _, st, within, bindable, value => by
    unfold Pattern.Within at within
    unfold Pattern.boundNames at bindable ⊢
    rw [← boundAfter_append]
    unfold EvalM.bindPattern
    refine bind st (iterate st.toAlike value) fun _ st items => ?_
    refine bind st (bindElements sub mode elements 0 st within.1 bindable.left items)
      fun le st' holds => ?_
    exact bindRest sub mode elements.length rest ⟨st'.toAlike, holds⟩ within.2 bindable.right
      (items.mono (C.pairing_le le))
  | .object fields rest, bound, _, _, _, _, _, st, within, bindable, value => by
    unfold Pattern.boundNames at bindable ⊢
    rw [← boundAfter_append]
    unfold EvalM.bindPattern
    refine ite value.isNullish_eq (fun _ => ?nullish) fun _ =>
      bind st (bindFields sub mode fields st within bindable.left value) fun le st holds => ?fields
    -- Nothing has been bound when a nullish value is refused.
    case nullish =>
      apply readHeap_bind
      rw [st.heapAlike.text_eq value]
      exact bind st (Q := Never) (typeFault _ st.toAlike) fun _ _ never => never.elim
    case fields =>
      cases rest with
      | none =>
        rw [Option.toList_none, boundAfter_nil]
        exact pure st.toAlike holds
      | some name =>
        exact bindRemaining mode fields ⟨st.toAlike, holds⟩ bindable.right
          (value.mono (C.pairing_le le))

theorem bindElements (sub : Interpreter.Alike C sub₁ sub₂) (mode : BindMode) :
    ∀ (elements : List (Option Element)) (i : Nat) {bound : List String} {w : C.World}
      {s₁ s₂ : State} {items₁ items₂ : Array Value},
    C.At bound w s₁ s₂ → Pattern.ElementsWithin C.access mode.declares elements bound →
    C.Bindable mode bound (Pattern.elementNames elements) →
    Value.AllAlike (C.pairing w) items₁.toList items₂.toList →
    C.Sim .binding (Holds (boundAfter mode.declares bound (Pattern.elementNames elements))) w
      (EvalM.bindElements C.left sub₁ mode items₁ i elements)
      (EvalM.bindElements C.right sub₂ mode items₂ i elements) s₁ s₂
  | [], _, _, _, _, _, _, _, st, _, _, _ => by
    unfold Pattern.elementNames EvalM.bindElements
    rw [boundAfter_nil]
    exact pure st.toAlike st.bound
  | none :: more, i, _, _, _, _, _, _, st, within, bindable, items => by
    unfold Pattern.ElementsWithin at within
    unfold Pattern.elementNames at bindable ⊢
    unfold EvalM.bindElements
    exact bindElements sub mode more (i + 1) st within bindable items
  | some (.mk target default) :: more, i, bound, _, _, _, _, _, st, within, bindable, items => by
    unfold Pattern.ElementsWithin at within
    unfold Pattern.elementNames at bindable ⊢
    rw [← boundAfter_append]
    unfold EvalM.bindElements
    refine bind st (withDefault sub st (items.itemD i) within.1) fun le st item => ?_
    refine bind st (bindPattern sub mode target st within.2.1 bindable.left item)
      fun le' st holds => ?_
    exact bindElements sub mode more (i + 1) ⟨st.toAlike, holds⟩ within.2.2 bindable.right
      (items.mono (C.pairing_le (le_trans le le')))

theorem bindRest (sub : Interpreter.Alike C sub₁ sub₂) (mode : BindMode) (taken : Nat) :
    ∀ (rest : Option Pattern) {bound : List String} {w : C.World} {s₁ s₂ : State}
      {items₁ items₂ : Array Value},
    C.At bound w s₁ s₂ → Pattern.RestWithin C.access mode.declares rest bound →
    C.Bindable mode bound (Pattern.restNames rest) →
    Value.AllAlike (C.pairing w) items₁.toList items₂.toList →
    C.Sim .binding (Holds (boundAfter mode.declares bound (Pattern.restNames rest))) w
      (EvalM.bindRest C.left sub₁ mode items₁ taken rest)
      (EvalM.bindRest C.right sub₂ mode items₂ taken rest) s₁ s₂
  | none, _, _, _, _, _, _, st, _, _, _ => by
    unfold Pattern.restNames EvalM.bindRest
    rw [boundAfter_nil]
    exact pure st.toAlike st.bound
  | some p, _, _, _, _, _, _, st, within, bindable, items => by
    unfold Pattern.RestWithin at within
    unfold Pattern.restNames at bindable ⊢
    unfold EvalM.bindRest
    refine bind st (newArray st.toAlike (items.extract taken items.length_eq)) fun _ st remaining => ?_
    exact bindPattern sub mode p st within bindable remaining

theorem bindFields (sub : Interpreter.Alike C sub₁ sub₂) (mode : BindMode) :
    ∀ (fields : List Field) {bound : List String} {w : C.World} {s₁ s₂ : State} {v₁ v₂ : Value},
    C.At bound w s₁ s₂ → Pattern.FieldsWithin C.access mode.declares fields bound →
    C.Bindable mode bound (Pattern.fieldNames fields) → Value.Alike (C.pairing w) v₁ v₂ →
    C.Sim .binding (Holds (boundAfter mode.declares bound (Pattern.fieldNames fields))) w
      (EvalM.bindFields C.left sub₁ mode v₁ fields) (EvalM.bindFields C.right sub₂ mode v₂ fields)
      s₁ s₂
  | [], _, _, _, _, _, _, st, _, _, _ => by
    unfold Pattern.fieldNames EvalM.bindFields
    rw [boundAfter_nil]
    exact pure st.toAlike st.bound
  | .mk key target default :: more, bound, _, _, _, _, _, st, within, bindable, value => by
    unfold Pattern.FieldsWithin at within
    unfold Pattern.fieldNames at bindable ⊢
    rw [← boundAfter_append]
    unfold EvalM.bindFields
    apply readHeap_bind
    refine bind st (withDefault sub st (st.heapAlike.get value key) within.1) fun le st item => ?_
    refine bind st (bindPattern sub mode target st within.2.1 bindable.left item)
      fun le' st holds => ?_
    exact bindFields sub mode more ⟨st.toAlike, holds⟩ within.2.2 bindable.right
      (value.mono (C.pairing_le (le_trans le le')))

end

/-! ## Declarations -/

theorem declareName (kind : BindingKind) (st : C.At bound w s₁ s₂) :
    C.Sim .binding (Holds (bound ++ [name])) w (EvalM.declareName kind name)
      (EvalM.declareName kind name) s₁ s₂ := by
  unfold EvalM.declareName
  apply readEnv_bind
  refine ite (st.env.containsInScope_eq name) (fun there => ?_) fun _ => ?_
  · exact pure st.toAlike (st.holds_append (Environment.mem_names_of_containsInScope there))
  · exact bind st (define st.toAlike .undefined) fun _ st cell =>
      pure st.toAlike (st.holds_append cell.2)

theorem declareNames (kind : BindingKind) (names : List String) (st : C.At bound w s₁ s₂) :
    C.Sim .binding (Holds (bound ++ names)) w (names.forM (EvalM.declareName kind))
      (names.forM (EvalM.declareName kind)) s₁ s₂ := by
  induction names generalizing bound w s₁ s₂ with
  | nil =>
    rw [List.append_nil]
    exact pure st.toAlike st.bound
  | cons name names ih =>
    unfold List.forM
    rw [← List.singleton_append, ← List.append_assoc]
    exact bind st (declareName kind st) fun _ st holds => ih ⟨st.toAlike, holds⟩

theorem hoistVars (statements : List Stmt) (st : C.At bound w s₁ s₂) :
    C.Sim .binding (Holds (bound ++ Stmt.varNamesList statements)) w
      (EvalM.hoistVars statements) (EvalM.hoistVars statements) s₁ s₂ :=
  declareNames .var _ st

/-- The function keeps to the access under names that are bound. -/
theorem makeClosure {inside : List String} {definition : Function} (name? : Option String)
    (st : C.Alike w s₁ s₂) (bound : ∀ n ∈ inside, n ∈ s₁.env.names)
    (within : definition.Within C.access inside) :
    C.Sim m C.Vals w (EvalM.makeClosure name? definition) (EvalM.makeClosure name? definition)
      s₁ s₂ := by
  unfold EvalM.makeClosure
  apply readEnv_bind
  have closures : Closure.Alike (C.pairing w) C.access ⟨name?, definition, s₁.env.bindings⟩
      ⟨name?, definition, s₂.env.bindings⟩ := ⟨rfl, rfl, st.env.bindings, inside, bound, within⟩
  obtain ⟨w', le, heaps, paired⟩ := C.newClosure st.heap closures
  exact allocate st ⟨w', le, heaps, .closure paired⟩

/-- Both sides hoist the same names, into cells that belong together, and the same functions, in the same order. -/
theorem hoistNames {inside : List String} (statements : List Stmt) (st : C.At bound w s₁ s₂)
    (within : C.FunctionsWithin statements inside) :
    C.Sim .binding (fun w env fs gs => List.Forall₂ (C.Hoisted inside w) fs gs ∧
        ∀ n ∈ bound ++ Stmt.lexicalNames statements, n ∈ env.names) w
      (EvalM.hoistNames statements) (EvalM.hoistNames statements) s₁ s₂ := by
  induction statements generalizing bound w s₁ s₂ with
  | nil =>
    rw [Stmt.lexicalNames, List.append_nil]
    exact pure st.toAlike ⟨.nil, st.bound⟩
  | cons s rest ih =>
    have later : C.FunctionsWithin rest inside := fun name definition mem =>
      within name definition (List.mem_cons_of_mem s mem)
    cases s with
    | declare kind declarators =>
      rw [Stmt.lexicalNames, ← List.append_assoc]
      unfold EvalM.hoistNames
      cases kind with
      | var =>
        have unhoisted : (DeclKind.var == DeclKind.var) = true := rfl
        rw [if_pos unhoisted, List.append_nil]
        exact ih st later
      | «let» | const =>
        exact bind st (declareNames _ _ st) fun _ st holds => ih ⟨st.toAlike, holds⟩ later
    | function name definition =>
      rw [Stmt.lexicalNames, ← List.singleton_append, ← List.append_assoc]
      unfold EvalM.hoistNames
      -- the function gets its value only when all names of the block are there
      refine bind st (define st.toAlike .undefined) fun _ st cell => ?_
      refine bind (Q := fun w env fs gs => _ ∧ _) ⟨st.toAlike, st.holds_append cell.2⟩
        (ih ⟨st.toAlike, st.holds_append cell.2⟩ later) fun le st functions => ?_
      refine pure st.toAlike ⟨.cons ⟨rfl, rfl, (C.pairing_le le).cells cell.1, ?_⟩ functions.1,
        functions.2⟩
      exact within name definition (List.mem_cons_self ..)
    | _ => exact ih st later

/-- After hoisting, all lexical names of the statements are bound. -/
theorem hoistLexical {statements : List Stmt} (st : C.At bound w s₁ s₂)
    (within : C.FunctionsWithin statements (bound ++ Stmt.lexicalNames statements)) :
    C.Sim .binding (Holds (bound ++ Stmt.lexicalNames statements)) w
      (EvalM.hoistLexical statements) (EvalM.hoistLexical statements) s₁ s₂ := by
  unfold EvalM.hoistLexical
  refine bind st (hoistNames statements st within) fun _ st functions => ?_
  have st : C.At (bound ++ Stmt.lexicalNames statements) _ _ _ := ⟨st.toAlike, functions.2⟩
  refine keeping st (forM rises_hoisted st functions.1 fun {w' t₁ t₂ x y} _ st function => ?_)
  obtain ⟨name, definition, cell₁⟩ := x
  obtain ⟨name', definition', cell₂⟩ := y
  obtain ⟨rfl, rfl, cell, names, sub, within⟩ := function
  refine bind st (makeClosure (some name) st.toAlike (fun n mem => st.bound n (sub mem)) within)
    fun le st closure => ?_
  exact modifyHeap st.toAlike (C.setCell st.heap ((C.pairing_le le).cells cell) closure) fun _ => rfl

theorem evalNamed {e : Expr} (sub : Interpreter.Alike C sub₁ sub₂) (st : C.At bound w s₁ s₂)
    (within : e.Within C.access bound) :
    C.Sim m C.Vals w (EvalM.evalNamed sub₁ name e) (EvalM.evalNamed sub₂ name e) s₁ s₂ := by
  cases e with
  | function definition => exact makeClosure (some name) st.toAlike st.bound within
  | _ => exact sub.expr st within

theorem evalInit {e : Expr} (sub : Interpreter.Alike C sub₁ sub₂) (p : Pattern)
    (st : C.At bound w s₁ s₂) (within : e.Within C.access bound) :
    C.Sim m C.Vals w (EvalM.evalInit sub₁ p e) (EvalM.evalInit sub₂ p e) s₁ s₂ := by
  cases p with
  | name id => exact evalNamed sub st within
  | _ => exact sub.expr st within

/-- The initial values correspond, so the pattern binds corresponding values. Its names are bound from here on. -/
theorem evalDeclarator (sub : Interpreter.Alike C sub₁ sub₂) (kind : DeclKind) (p : Pattern)
    (init : Option Expr) (st : C.At bound w s₁ s₂)
    (within : Expr.OptionWithin C.access init bound ∧ p.Within C.access (kind != .var) bound ∧
      ((kind != .var) = false → C.access.Assignable bound p.boundNames)) :
    C.Sim .binding (Holds (boundAfter (kind != .var) bound p.boundNames)) w
      (EvalM.evalDeclarator C.left sub₁ kind (.mk p init))
      (EvalM.evalDeclarator C.right sub₂ kind (.mk p init)) s₁ s₂ := by
  have bindable : ∀ mode : BindMode, mode.declares = (kind != .var) →
      C.Bindable mode bound p.boundNames := fun mode same none => within.2.2 (same ▸ none)
  cases init with
  | none =>
    cases kind with
    | var => exact pure st.toAlike st.bound
    | «let» | const =>
      exact bindPattern sub (.declare _) p st within.2.1 (bindable _ rfl) .undefined
  | some init =>
    unfold EvalM.evalDeclarator
    refine bind st (evalInit sub p st within.1) fun _ st value => ?_
    cases kind with
    | var => exact bindPattern sub .assign p st within.2.1 (bindable _ rfl) value
    | «let» | const => exact bindPattern sub (.declare _) p st within.2.1 (bindable _ rfl) value

/-- After a declaration both runs have its names bound. -/
theorem evalDeclaration (sub : Interpreter.Alike C sub₁ sub₂) (kind : DeclKind)
    (declarators : List Declarator) (st : C.At bound w s₁ s₂)
    (within : Declarator.AllWithin C.access kind declarators bound) :
    C.Sim .binding
      (Holds (boundAfter (kind != .var) bound (Declarator.boundNames declarators))) w
      (EvalM.evalDeclaration C.left sub₁ kind declarators)
      (EvalM.evalDeclaration C.right sub₂ kind declarators) s₁ s₂ := by
  unfold EvalM.evalDeclaration
  induction declarators generalizing bound w s₁ s₂ with
  | nil =>
    rw [Declarator.boundNames, List.flatMap_nil, boundAfter_nil]
    exact pure st.toAlike st.bound
  | cons d rest ih =>
    obtain ⟨p, init⟩ := d
    unfold Declarator.AllWithin at within
    rw [Declarator.boundNames, List.flatMap_cons, ← boundAfter_append]
    unfold List.forM
    refine bind st (evalDeclarator sub kind p init st ⟨within.1, within.2.1, within.2.2.1⟩)
      fun _ st holds => ?_
    exact ih ⟨st.toAlike, holds⟩ within.2.2.2

end Sim

end Correspondence

end BindScript
