import BindScript.Evaluation.Declaration
import BindScript.Proofs.Environment.Stack
import BindScript.Proofs.Watch.Step

/-!
# Names, patterns and declarations of a watched run

A cell is written by an assignment, which constants refuse, or by a declaration, which the innermost scope has the
binding of. Patterns declare the names that they bind; what their defaults do comes in between.
-/

namespace BindScript

/-! ## Scopes -/

namespace Environment

variable {env : Environment} {name : String} {b : Binding}

theorem containsInScope_iff : env.containsInScope name = true ↔ ∃ b ∈ env.currentScope, b.name = name := by
  rw [containsInScope_eq_any, List.any_eq_true]
  simp only [beq_iff_eq]

theorem name_of_find? (found : env.find? name = some b) : b.name = name := by
  rw [find?_eq_reverse] at found
  simpa using List.find?_some found

/-- A name that the innermost scope has means a binding of this scope. -/
theorem mem_currentScope_of_find? (found : env.find? name = some b) (there : env.containsInScope name = true) :
    b ∈ env.currentScope := by
  obtain ⟨b', mem, named⟩ := containsInScope_iff.1 there
  rw [find?_eq_reverse, ← List.take_append_drop env.frameStart env.bindings.toList, List.reverse_append,
    List.find?_append] at found
  have first : (env.currentScope.reverse.find? (·.name == name)).isSome :=
    List.find?_isSome.2 ⟨b', List.mem_reverse.2 mem, beq_iff_eq.2 named⟩
  obtain ⟨b'', first⟩ := Option.isSome_iff_exists.1 first
  rw [show (env.bindings.toList.drop env.frameStart) = env.currentScope from rfl, first] at found
  cases found
  exact List.mem_reverse.1 (List.mem_of_find?_eq_some first)

theorem find?_isSome_of_containsInScope (there : env.containsInScope name = true) : ∃ b, env.find? name = some b := by
  obtain ⟨b, mem, named⟩ := containsInScope_iff.1 there
  refine Option.isSome_iff_exists.1 ?_
  rw [find?_eq_reverse]
  exact List.find?_isSome.2 ⟨b, List.mem_reverse.2 (mem_bindings_of_mem_currentScope mem), beq_iff_eq.2 named⟩

end Environment

/-! ## Cells -/

namespace State

variable {X : Declared} {s : State} {b : Binding} {v : Value}

theorem Knows.find? {name : String} (found : s.env.find? name = some b) : s.Knows b :=
  .inl (Array.mem_toList_iff.2 (Environment.mem_of_find? found))

theorem Sound.setCell {cell : Nat} (sound : s.Sound) : { s with heap := s.heap.setCell cell v }.Sound where
  inside := sound.inside
  allocated b known := by
    show b.cell < (s.heap.cells.setIfInBounds _ _).size
    rw [Array.size_setIfInBounds]
    exact sound.allocated b known
  coherent := sound.coherent

/-- When a constant may be written: what is declared is in the innermost scope, or the value is the one it has. -/
def Writable (s : State) (X : Declared) (b : Binding) (v : Value) : Prop :=
  b.kind = .const → (b ∈ s.env.currentScope ∧ b.name ∈ X.names) ∨ s.heap.cellAt b.cell = v

/-- A cell that may be written is written, and the bindings stay as they are. -/
theorem Sound.later_setCell (sound : s.Sound) (known : s.Knows b) (writable : s.Writable X b v) :
    s.Before X { s with heap := s.heap.setCell b.cell v } where
  env := ⟨[], .refl s.env, nofun⟩
  cells := by
    show s.heap.cells.size ≤ (s.heap.cells.setIfInBounds _ _).size
    exact Nat.le_of_eq Array.size_setIfInBounds.symm
  known _ known _ := known
  kept cell constant others := by
    by_cases here : cell = b.cell
    · subst here
      rcases writable (constant.kind b known rfl) with ⟨mem, named⟩ | same
      · exact absurd named (others b mem rfl)
      · rw [same]
        exact Heap.cellAt_setCell_self (sound.allocated b known) v
    · exact Heap.cellAt_setCell_of_ne here v

/-- The state after a name has been bound to a new cell. -/
def defining (s : State) (name : String) (v : Value) (kind : BindingKind) : State :=
  { s with env := s.env.bind name s.heap.cells.size kind, heap := (s.heap.newCell v).2 }

variable {name : String} {kind : BindingKind}

theorem knows_defining : (s.defining name v kind).Knows b ↔ s.Knows b ∨ b = ⟨name, s.heap.cells.size, kind⟩ := by
  have scopes : b ∈ (s.defining name v kind).env.bindings.toList ↔
      b ∈ s.env.bindings.toList ∨ b = ⟨name, s.heap.cells.size, kind⟩ := by
    simp [defining, Environment.bind]
  have closures : (s.defining name v kind).heap.closureAt = s.heap.closureAt := rfl
  simp only [Knows, scopes, closures]
  tauto

theorem size_defining : (s.defining name v kind).heap.cells.size = s.heap.cells.size + 1 :=
  Array.size_push _

/-- A new binding gets a new cell. -/
theorem Sound.defining (sound : s.Sound) : (s.defining name v kind).Sound where
  inside := by
    show s.env.frameStart ≤ (s.env.bindings.push _).size
    rw [Array.size_push]
    exact Nat.le_succ_of_le sound.inside
  allocated b known := by
    rw [size_defining]
    rcases knows_defining.1 known with known | rfl
    · exact Nat.lt_succ_of_lt (sound.allocated b known)
    · exact Nat.lt_succ_self _
  coherent b b' known known' same := by
    rcases knows_defining.1 known with known | rfl
    · rcases knows_defining.1 known' with known' | rfl
      · exact sound.coherent b b' known known' same
      · exact absurd (sound.allocated b known) (Nat.not_lt_of_le (Nat.le_of_eq same.symm))
    · rcases knows_defining.1 known' with known' | rfl
      · exact absurd (sound.allocated b' known') (Nat.not_lt_of_le (Nat.le_of_eq same))
      · rfl

theorem later_defining (s : State) (name : String) (v : Value) (kind : BindingKind) :
    s.Before [(name, kind)] (s.defining name v kind) where
  env := by
    refine ⟨_, s.env.adds_bind name s.heap.cells.size kind, fun b mem => ?_⟩
    cases List.mem_singleton.1 mem
    exact ⟨List.mem_singleton.2 rfl, Nat.le_refl _⟩
  cells := by
    rw [size_defining]
    exact Nat.le_succ _
  known b known there := by
    rcases knows_defining.1 known with known | rfl
    · exact known
    · exact absurd there (Nat.lt_irrefl _)
  kept cell constant _ := Heap.cellAt_newCell_of_ne (Nat.ne_of_lt constant.inside)

end State

namespace Watch

open EvalM

variable {W : Watch} {X Y : Declared} {sub₁ sub₂ : Interpreter} {s t : State} {v : Value} {name key : String}
  {kind : BindingKind}

/-! ## Code -/

namespace Code

variable {x y : Node}

theorem formed (code : W.Code x) (watched : W.formed) : x.Formed := by
  have own := (W.shaped watched).node (Node.obeys_iff.1 code.1).1
  cases x <;> exact own

theorem settled (code : W.Code x) (watched : W.constants) : NodeRule.settled.node x :=
  (W.settled watched).node (Node.obeys_iff.1 code.1).1

/-- Parts that stand for single values are code as well. -/
theorem part (code : W.Code x) (mem : y ∈ x.singles) : W.Code y :=
  ⟨(Node.obeys_iff.1 code.1).2 y (Node.mem_children_of_mem_singles mem), fun watched => (code.formed watched).2 y mem⟩

/-- An item of a list that does not spread a value is code. -/
theorem item {items : List Expr} (obeys : ∀ y ∈ items.map Node.expr, y.Obeys W.code) {e : Expr} (mem : e ∈ items)
    (single : (Node.expr e).isSpread = false) : W.Code (.expr e) :=
  ⟨obeys _ (List.mem_map_of_mem mem), fun _ => single⟩

/-- What is spread is code. -/
theorem spread {inner : Expr} (obeys : (Node.expr (.spread inner)).Obeys W.code) : W.Code (.expr inner) := by
  refine ⟨(Node.obeys_iff.1 obeys).2 _ (List.mem_singleton.2 rfl), fun watched => ?_⟩
  have own := (W.shaped watched).node (Node.obeys_iff.1 obeys).1
  exact own.2 _ (List.mem_singleton.2 rfl)

theorem functionExpr {definition : Function} (code : W.Code (.expr (.function definition))) : W.Callable definition :=
  ⟨fun _ mem => code.part mem, fun watched => code.settled watched⟩

theorem functionStmt {id : String} {definition : Function} (code : W.Code (.stmt (.function id definition))) :
    W.Callable definition :=
  ⟨fun _ mem => code.part mem, fun watched => code.settled watched⟩

end Code

/-! ## Names -/

namespace Ends

/-- Going on with what is read of the scopes as they are. -/
theorem readingEnv {α β : Type} {Q : β → Prop} {f : Environment → α} {f₁ f₂ : α → EvalM β}
    (next : W.Ends X Q s (f₁ (f s.env) s) (f₂ (f s.env) s)) :
    W.Ends X Q s ((readEnv f >>= f₁) s) ((readEnv f >>= f₂) s) :=
  next

theorem setCell {b : Binding} (state : W.At s) (known : W.constants → s.Knows b)
    (writable : W.constants → s.Writable X b v) :
    W.Ends X (fun _ => True) s (modifyHeap (·.setCell b.cell v) s) (modifyHeap (·.setCell b.cell v) s) :=
  .ok ⟨state.callable, fun constants => (state.sound constants).setCell⟩
    (fun constants => (state.sound constants).later_setCell (known constants) (writable constants)) trivial

/-- The first value of a name is written to where the name means it. -/
theorem startName (state : W.At s)
    (writable : W.constants → ∀ b, s.env.find? name = some b → s.Writable X b v) :
    W.Ends X (fun _ => True) s (EvalM.startName name v s) (EvalM.startName name v s) := by
  cases found : s.env.find? name with
  | none =>
    have run : EvalM.startName name v s = fail (.ofEnvironment (.undefinedVariable name)) s := by
      simp only [EvalM.startName, readEnv, Environment.initialCell, found, Bind.bind, EStateM.bind]
    rw [run]
    exact (Follows.refuse _ s state).weaken (List.nil_subset X)
  | some b =>
    have run : EvalM.startName name v s = modifyHeap (·.setCell b.cell v) s := by
      simp only [EvalM.startName, readEnv, Environment.initialCell, found, Bind.bind, EStateM.bind]
    rw [run]
    exact setCell state (fun _ => .find? found) fun constants => writable constants b found

end Ends

namespace Follows

theorem define (name : String) (v : Value) (kind : BindingKind) :
    W.Follows [(name, kind)] (fun _ => True) (EvalM.define name v kind) (EvalM.define name v kind) :=
  fun s state => .ok ⟨state.callable, fun constants => (state.sound constants).defining⟩
    (fun _ => s.later_defining name v kind) trivial

theorem lookup (name : String) : W.Quiet (EvalM.lookup W.ctx name) (EvalM.lookup W.ctx name) := by
  unfold EvalM.lookup
  refine readingEnv fun binding => ?_
  cases binding with
  | some b => exact readHeap _
  | none =>
    refine reading fun known => ?_
    cases known with
    | some v => exact pure trivial
    | none => exact ite (fail id) (pure trivial)

/-- Constants are not assigned to. -/
theorem assignName (name : String) (v : Value) :
    W.Quiet (EvalM.assignName W.ctx name v) (EvalM.assignName W.ctx name v) := by
  intro s state
  unfold EvalM.assignName
  refine Ends.readingEnv ?_
  cases s.env.contains name with
  | true =>
    refine Ends.readingEnv ?_
    cases assigned : s.env.assignable name with
    | error fault => exact refuse fault s state
    | ok cell =>
      unfold Environment.assignable at assigned
      split at assigned
      · cases assigned
      next b found =>
        split at assigned <;> cases assigned
        next mutable =>
          refine Ends.setCell state (fun _ => .find? found) fun _ const => ?_
          rw [const] at mutable
          cases mutable
  | false =>
    rw [if_neg Bool.false_ne_true]
    refine (show W.Quiet _ _ from ?_) s state
    generalize W.ctx.locals = place
    cases place with
    | object o => exact reading fun allowed => ite (standalone (.set _ _ _)) (typeFault nofun)
    | _ => exact typeFault nofun

theorem startName (name : String) (v : Value) (kind : BindingKind) (s : State) (state : W.At s)
    (there : s.env.containsInScope name = true) :
    W.Ends [(name, kind)] (fun _ => True) s (EvalM.startName name v s) (EvalM.startName name v s) := by
  refine Ends.startName state fun _ b found _ => .inl ⟨Environment.mem_currentScope_of_find? found there, ?_⟩
  rw [Environment.name_of_find? found]
  exact List.mem_singleton.2 rfl

/-- A name that the innermost scope has is left as it is. -/
theorem declareName (kind : BindingKind) (name : String) :
    W.Follows [(name, kind)] (fun _ => True) (EvalM.declareName kind name) (EvalM.declareName kind name) := by
  unfold EvalM.declareName
  refine readingEnv fun there => ite ?_ (discard (define name .undefined kind))
  exact (pure trivial).weaken (List.nil_subset _)

/-! ## Properties -/

theorem setProperty (target : Value) (key : String) (v : Value) :
    W.Quiet (EvalM.setProperty target key v) (EvalM.setProperty target key v) := by
  have write : W.Quiet _ _ := standalone (.write target key v)
  unfold EvalM.setProperty
  cases target with
  | undefined | null => exact reading fun _ => typeFault nofun
  | array a => exact reading fun exceeds => ite (fail id) (reading fun clashes => ite (throw trivial) write)
  | object o => exact write
  | _ => exact pure trivial

end Follows

end Watch

end BindScript

/-!
## Declarations of a watched run

Patterns, closures, hoisting and declarations. What is hoisted is declared without any code being run, so there it is
not asked that the names are different; what is declared by patterns and declarations is.
-/

namespace BindScript

/-! ### What is declared -/

/-- What is declared when names are bound in the mode. -/
def BindMode.declared (mode : BindMode) (names : List String) : Declared :=
  match mode with
  | .declare kind => names.map fun name => (name, kind)
  | .assign => []

theorem BindMode.declared_append (mode : BindMode) (names more : List String) :
    mode.declared (names ++ more) = mode.declared names ++ mode.declared more := by
  cases mode with
  | declare kind => exact List.map_append
  | assign => rfl

theorem BindMode.names_declared (kind : BindingKind) (names : List String) :
    Declared.names ((BindMode.declare kind).declared names) = names := by
  simp [BindMode.declared, Declared.names, Function.comp_def]

theorem BindMode.declared_flatMap {α : Type} (mode : BindMode) (items : List α) (names : α → List String) :
    mode.declared (items.flatMap names) = items.flatMap fun a => mode.declared (names a) := by
  cases mode with
  | declare kind => exact List.map_flatMap
  | assign => exact (List.flatMap_eq_nil_iff.2 fun _ _ => rfl).symm

/-- How a declaration of the kind binds the names of a pattern. -/
def DeclKind.mode (kind : DeclKind) : BindMode :=
  if kind == .var then .assign else .declare (.ofDecl kind)

theorem DeclKind.declared_eq (kind : DeclKind) (names : List String) :
    kind.declared names = kind.mode.declared names := by
  cases kind <;> rfl

/-! ### Closures -/

theorem Heap.closureAt_newClosure (h : Heap) (c : Closure) (i : Nat) :
    (h.newClosure c).2.closureAt i = h.closureAt i ∨ (h.newClosure c).2.closureAt i = c := by
  by_cases here : i = h.closures.size
  · exact .inr (by simp [newClosure, closureAt, here])
  · exact .inl (by simp [newClosure, closureAt, Array.getD_eq_getD_getElem?, Array.getElem?_push, here])

namespace State

variable {s : State} {b : Binding} {name? : Option String} {definition : Function}

/-- The state after a closure over the visible bindings has been made. -/
def closing (s : State) (name? : Option String) (definition : Function) : State :=
  { s with heap := (s.heap.newClosure { name?, definition, captured := s.env.bindings }).2 }

theorem knows_closing (known : (s.closing name? definition).Knows b) : s.Knows b := by
  rcases known with mem | ⟨c, mem⟩
  · exact .inl mem
  · rcases s.heap.closureAt_newClosure { name?, definition, captured := s.env.bindings } c with same | new
    · exact .inr ⟨c, same ▸ mem⟩
    · exact .inl (show b ∈ (Closure.captured ⟨name?, definition, s.env.bindings⟩).toList from new ▸ mem)

theorem Sound.closing (sound : s.Sound) : (s.closing name? definition).Sound where
  inside := sound.inside
  allocated b known := sound.allocated b (knows_closing known)
  coherent b b' known known' := sound.coherent b b' (knows_closing known) (knows_closing known')

theorem later_closing (s : State) (name? : Option String) (definition : Function) :
    s.Before [] (s.closing name? definition) where
  env := ⟨[], .refl s.env, nofun⟩
  cells := Nat.le_refl _
  known _ known _ := knows_closing known
  kept _ _ _ := rfl

end State

namespace Watch

variable {W : Watch} {X Y : Declared} {sub₁ sub₂ : Interpreter} {s t : State} {definition : Function}
  {statements : List Stmt}

theorem At.defining {name : String} {v : Value} {kind : BindingKind} (state : W.At s) :
    W.At (s.defining name v kind) :=
  ⟨state.callable, fun watched => (state.sound watched).defining⟩

theorem At.setCell {cell : Nat} {v : Value} (state : W.At s) : W.At { s with heap := s.heap.setCell cell v } :=
  ⟨state.callable, fun watched => (state.sound watched).setCell⟩

theorem At.closing (state : W.At s) (callable : W.Callable definition) (name? : Option String) :
    W.At (s.closing name? definition) where
  callable c := by
    rcases s.heap.closureAt_newClosure { name?, definition, captured := s.env.bindings } c with same | new
    · exact (congrArg (fun c : Closure => W.Callable c.definition) same).mpr (state.callable c)
    · exact (congrArg (fun c : Closure => W.Callable c.definition) new).mpr callable
  sound constants := (state.sound constants).closing

namespace Follows

theorem makeClosure (name? : Option String) (callable : W.Callable definition) :
    W.Quiet (EvalM.makeClosure name? definition) (EvalM.makeClosure name? definition) :=
  fun s state => .ok (state.closing callable name?) (fun _ => s.later_closing name? definition) trivial

/-! ### Patterns -/

theorem bindName (mode : BindMode) (name : String) (v : Value) :
    W.Follows (mode.declared [name]) (fun _ => True) (EvalM.bindName W.ctx mode name v)
      (EvalM.bindName W.ctx mode name v) := by
  cases mode with
  | assign => exact assignName name v
  | declare kind =>
    intro s state
    unfold EvalM.bindName
    refine Ends.readingEnv ?_
    cases there : s.env.containsInScope name with
    | true => exact startName name v kind s state there
    | false => exact discard (define name v kind) s state

theorem withDefault {default : Option Expr} (sub : W.Interprets sub₁ sub₂)
    (code : ∀ y ∈ Expr.optionNodes default, W.Code y) (v : Value) :
    W.Quiet (EvalM.withDefault sub₁ v default) (EvalM.withDefault sub₂ v default) := by
  unfold EvalM.withDefault
  cases default with
  | none => cases v <;> exact pure trivial
  | some e =>
    cases v with
    | undefined => exact sub.expr e (code _ (List.mem_singleton.2 rfl))
    | _ => exact pure trivial

mutual

/-- By recursion on the pattern: each name is filled once, in the scope that it was declared in. -/
theorem bindPattern (sub : W.Interprets sub₁ sub₂) (mode : BindMode) : ∀ (p : Pattern) (v : Value),
    W.Code (.pattern p) → W.Distinct (mode.declared p.boundNames) →
    W.Follows (mode.declared p.boundNames) (fun _ => True) (EvalM.bindPattern W.ctx sub₁ mode p v)
      (EvalM.bindPattern W.ctx sub₂ mode p v)
  | .name id, v, _, _ => bindName mode id v
  | .array elements rest, v, code, distinct => by
    have parts : ∀ y ∈ elements.reduceOption.flatMap Element.nodes ++ Pattern.optionNodes rest, W.Code y :=
      fun y mem => code.part mem
    obtain ⟨elementsCode, restCode⟩ := List.forall_mem_append.1 parts
    unfold Pattern.boundNames at distinct ⊢
    rw [BindMode.declared_append] at distinct ⊢
    unfold EvalM.bindPattern
    refine andThen (standalone (.iterate v)) fun items =>
      bind_apart distinct.apart (bindElements sub mode items elements 0 ?_ distinct.left) fun _ _ => ?_
    · exact fun e mem y inside =>
        elementsCode y (List.mem_flatMap.2 ⟨e, List.reduceOption_mem_iff.2 mem, inside⟩)
    · exact bindRest sub mode items elements.length rest restCode distinct.right
  | .object fields rest, v, code, distinct => by
    have fieldsCode : ∀ f ∈ fields, ∀ y ∈ f.nodes, W.Code y := fun f mem y inside =>
      code.part (List.mem_flatMap.2 ⟨f, mem, inside⟩)
    unfold Pattern.boundNames at distinct ⊢
    rw [BindMode.declared_append] at distinct ⊢
    have bound := bindFields sub mode v fields fieldsCode distinct.left
    unfold EvalM.bindPattern
    -- with or without a rest, what is nullish fails before anything is bound
    cases rest with
    | none =>
      have whole := bind_apart distinct.apart bound fun _ _ =>
        (pure (W := W) (P := fun _ => True) (a := ()) trivial).weaken (List.nil_subset (mode.declared []))
      exact ite (reading fun _ => andThen (typeFault nofun) fun _ => whole) whole
    | some name =>
      have whole := bind_apart distinct.apart bound fun _ _ =>
        reading (f := (EvalM.remainingProperties · v fields)) fun remaining =>
          andThen (standalone (.newObject remaining)) fun object => bindName mode name object
      exact ite (reading fun _ => andThen (typeFault nofun) fun _ => whole) whole

theorem bindElements (sub : W.Interprets sub₁ sub₂) (mode : BindMode) (items : Array Value) :
    ∀ (elements : List (Option Element)) (i : Nat), (∀ e, some e ∈ elements → ∀ y ∈ e.nodes, W.Code y) →
    W.Distinct (mode.declared (Pattern.elementNames elements)) →
    W.Follows (mode.declared (Pattern.elementNames elements)) (fun _ => True)
      (EvalM.bindElements W.ctx sub₁ mode items i elements) (EvalM.bindElements W.ctx sub₂ mode items i elements)
  | [], _, _, _ => (pure trivial).weaken (List.nil_subset _)
  | none :: more, i, code, distinct => by
    unfold EvalM.bindElements
    exact bindElements sub mode items more (i + 1) (fun e mem => code e (List.mem_cons_of_mem _ mem)) distinct
  | some (.mk target default) :: more, i, code, distinct => by
    obtain ⟨targetCode, defaultCode⟩ := List.forall_mem_cons.1 (code _ (List.mem_cons_self ..))
    unfold Pattern.elementNames at distinct ⊢
    rw [BindMode.declared_append] at distinct ⊢
    unfold EvalM.bindElements
    refine andThen (withDefault sub defaultCode _) fun item => ?_
    refine bind_apart distinct.apart (bindPattern sub mode target item targetCode distinct.left) fun _ _ => ?_
    exact bindElements sub mode items more (i + 1) (fun e mem => code e (List.mem_cons_of_mem _ mem)) distinct.right

theorem bindRest (sub : W.Interprets sub₁ sub₂) (mode : BindMode) (items : Array Value) (taken : Nat) :
    ∀ (rest : Option Pattern), (∀ y ∈ Pattern.optionNodes rest, W.Code y) →
    W.Distinct (mode.declared (Pattern.restNames rest)) →
    W.Follows (mode.declared (Pattern.restNames rest)) (fun _ => True)
      (EvalM.bindRest W.ctx sub₁ mode items taken rest) (EvalM.bindRest W.ctx sub₂ mode items taken rest)
  | none, _, _ => (pure trivial).weaken (List.nil_subset _)
  | some p, code, distinct => by
    unfold EvalM.bindRest
    refine andThen (standalone (.newArray _)) fun remaining => ?_
    exact bindPattern sub mode p remaining (code _ (List.mem_singleton.2 rfl)) distinct

theorem bindFields (sub : W.Interprets sub₁ sub₂) (mode : BindMode) (v : Value) :
    ∀ (fields : List Field), (∀ f ∈ fields, ∀ y ∈ f.nodes, W.Code y) →
    W.Distinct (mode.declared (Pattern.fieldNames fields)) →
    W.Follows (mode.declared (Pattern.fieldNames fields)) (fun _ => True)
      (EvalM.bindFields W.ctx sub₁ mode v fields) (EvalM.bindFields W.ctx sub₂ mode v fields)
  | [], _, _ => (pure trivial).weaken (List.nil_subset _)
  | .mk key target default :: more, code, distinct => by
    obtain ⟨head, tail⟩ := List.forall_mem_cons.1 code
    obtain ⟨targetCode, defaultCode⟩ := List.forall_mem_cons.1 head
    unfold Pattern.fieldNames at distinct ⊢
    rw [BindMode.declared_append] at distinct ⊢
    unfold EvalM.bindFields
    refine reading fun found => andThen (withDefault sub defaultCode found) fun item => ?_
    refine bind_apart distinct.apart (bindPattern sub mode target item targetCode distinct.left) fun _ _ => ?_
    exact bindFields sub mode v more tail distinct.right

end

/-! ### Declarations -/

theorem evalNamed {e : Expr} (sub : W.Interprets sub₁ sub₂) (name : String) (code : W.Code (.expr e)) :
    W.Quiet (EvalM.evalNamed sub₁ name e) (EvalM.evalNamed sub₂ name e) := by
  cases e with
  | function definition => exact makeClosure _ code.functionExpr
  | _ => exact sub.expr _ code

theorem evalInit {pattern : Pattern} {init : Expr} (sub : W.Interprets sub₁ sub₂) (code : W.Code (.expr init)) :
    W.Quiet (EvalM.evalInit sub₁ pattern init) (EvalM.evalInit sub₂ pattern init) := by
  cases pattern with
  | name id => exact evalNamed sub id code
  | _ => exact sub.expr _ code

theorem evalDeclarator {d : Declarator} (sub : W.Interprets sub₁ sub₂) (kind : DeclKind)
    (code : ∀ y ∈ d.nodes, W.Code y) (distinct : W.Distinct (kind.mode.declared d.pattern.boundNames)) :
    W.Follows (kind.mode.declared d.pattern.boundNames) (fun _ => True)
      (EvalM.evalDeclarator W.ctx sub₁ kind d) (EvalM.evalDeclarator W.ctx sub₂ kind d) := by
  obtain ⟨pattern, init⟩ := d
  obtain ⟨patternCode, initCode⟩ := List.forall_mem_cons.1 code
  unfold EvalM.evalDeclarator
  cases init with
  | none =>
    cases kind with
    | var => exact (pure trivial).weaken (List.nil_subset _)
    | _ => exact bindPattern sub _ pattern .undefined patternCode distinct
  | some init =>
    refine andThen (evalInit sub (initCode _ (List.mem_singleton.2 rfl))) fun v => ?_
    exact bindPattern sub kind.mode pattern v patternCode distinct

theorem evalDeclaration {declarators : List Declarator} (sub : W.Interprets sub₁ sub₂) (kind : DeclKind)
    (code : ∀ d ∈ declarators, ∀ y ∈ d.nodes, W.Code y)
    (distinct : W.Distinct (kind.declared (Declarator.boundNames declarators))) :
    W.Follows (kind.declared (Declarator.boundNames declarators)) (fun _ => True)
      (EvalM.evalDeclaration W.ctx sub₁ kind declarators) (EvalM.evalDeclaration W.ctx sub₂ kind declarators) := by
  rw [DeclKind.declared_eq, Declarator.boundNames, BindMode.declared_flatMap] at distinct ⊢
  exact forM_apart (fun d mem part => evalDeclarator sub kind (code d mem) part) distinct

end Follows

/-! ### Hoisting -/

/-- The step gives a value, and it does so in both runs. -/
def Gives (W : Watch) {α : Type} (X : Declared) (Q : α → State → Prop) (s : State) (x : EvalM α) : Prop :=
  ∃ a t, x s = .ok a t ∧ W.At t ∧ W.Later X s t ∧ Q a t

namespace Gives

variable {α β : Type} {P : α → State → Prop} {Q : β → State → Prop} {x : EvalM α} {f : α → EvalM β}

theorem pure {a : α} (state : W.At s) (result : P a s) : W.Gives [] P s (Pure.pure a) :=
  ⟨a, s, rfl, state, later_refl, result⟩

theorem bind (state : W.At s) (first : W.Gives X P s x)
    (next : ∀ a t, W.At t → W.Later X s t → P a t → W.Gives Y Q t (f a)) : W.Gives (X ++ Y) Q s (x >>= f) := by
  obtain ⟨a, t, run, middle, later, result⟩ := first
  obtain ⟨b, u, run', after, later', result'⟩ := next a t middle later result
  exact ⟨b, u, (EvalM.bind_of_ok run).trans run', after, later.trans state later', result'⟩

theorem map {g : α → β} (gives : W.Gives X P s x) (result : ∀ a t, W.Later X s t → P a t → Q (g a) t) :
    W.Gives X Q s (x >>= fun a => Pure.pure (g a)) := by
  obtain ⟨a, t, run, after, later, mine⟩ := gives
  exact ⟨g a, t, EvalM.bind_of_ok run, after, later, result a t later mine⟩

theorem ends (gives : W.Gives X P s x) : W.Ends X (fun _ => True) s (x s) (x s) := by
  obtain ⟨a, t, run, after, later, -⟩ := gives
  rw [run]
  exact .ok after later trivial

end Gives

/-- Cells of functions that the scopes know. -/
def Fills (W : Watch) (functions : List (String × Function × Nat)) (s : State) : Prop :=
  ∀ f ∈ functions, W.Callable f.2.1 ∧
    (W.constants → ∃ b ∈ s.env.bindings.toList, b.cell = f.2.2 ∧ b.kind = .function)

theorem Fills.later {functions : List (String × Function × Nat)} (fills : W.Fills functions s)
    (later : W.Later X s t) : W.Fills functions t := by
  refine fun f mem => ⟨(fills f mem).1, fun watched => ?_⟩
  obtain ⟨b, inside, cell, function⟩ := (fills f mem).2 watched
  obtain ⟨added, adds, -⟩ := (later watched).env
  exact ⟨b, adds.bindings ▸ List.mem_append_left _ inside, cell, function⟩

namespace Gives

theorem define (state : W.At s) (name : String) (v : Value) (kind : BindingKind) :
    W.Gives [(name, kind)] (fun cell t => t = s.defining name v kind ∧ cell = s.heap.cells.size) s
      (EvalM.define name v kind) :=
  ⟨_, _, rfl, state.defining, fun _ => s.later_defining name v kind, rfl, rfl⟩

theorem declareName (state : W.At s) (kind : BindingKind) (name : String) :
    W.Gives [(name, kind)] (fun _ _ => True) s (EvalM.declareName kind name) := by
  cases there : s.env.containsInScope name with
  | true =>
    have run : EvalM.declareName kind name s = .ok () s := by
      simp only [EvalM.declareName, EvalM.readEnv, there, Bind.bind, EStateM.bind, if_true]
      rfl
    exact ⟨_, _, run, state, later_refl.weaken (List.nil_subset _), trivial⟩
  | false =>
    have run : EvalM.declareName kind name s = .ok () (s.defining name .undefined kind) := by
      simp only [EvalM.declareName, EvalM.readEnv, there, Bind.bind, EStateM.bind, Bool.false_eq_true, if_false]
      rfl
    exact ⟨_, _, run, state.defining, fun _ => s.later_defining name .undefined kind, trivial⟩

theorem forM {α : Type} {f : α → EvalM Unit} {items : List α} {names : α → Declared}
    {I : State → Prop} (kept : ∀ {s t X}, W.Later X s t → I s → I t) (state : W.At s) (holds : I s)
    (each : ∀ a ∈ items, ∀ s, W.At s → I s → W.Gives (names a) (fun _ _ => True) s (f a)) :
    W.Gives (items.flatMap names) (fun _ _ => True) s (items.forM f) := by
  induction items generalizing s with
  | nil => exact pure state trivial
  | cons a more ih =>
    obtain ⟨head, tail⟩ := List.forall_mem_cons.1 each
    unfold List.forM
    exact bind state (head s state holds) fun _ t middle later _ => ih middle (kept later holds) tail

theorem declareNames (state : W.At s) (kind : BindingKind) (names : List String) :
    W.Gives (names.map fun name => (name, kind)) (fun _ _ => True) s (names.forM (EvalM.declareName kind)) := by
  rw [List.map_eq_flatMap]
  exact forM (I := fun _ => True) (fun _ _ => trivial) state trivial fun name _ s state _ => declareName state kind name

theorem hoistVars (state : W.At s) (statements : List Stmt) :
    W.Gives ((Stmt.varNamesList statements).map fun name => (name, .var)) (fun _ _ => True) s
      (EvalM.hoistVars statements) :=
  declareNames state .var _

/-- What is hoisted is declared, but not filled yet. -/
theorem hoistNames (code : ∀ y ∈ statements.map Node.stmt, W.Code y) (state : W.At s) :
    W.Gives (Stmt.declaredIn statements) W.Fills s
      (EvalM.hoistNames statements) := by
  induction statements generalizing s with
  | nil => exact pure state nofun
  | cons t rest ih =>
    obtain ⟨head, tail⟩ := List.forall_mem_cons.1 code
    unfold EvalM.hoistNames
    cases t with
    | declare kind declarators =>
      cases kind with
      | var => exact ih tail state
      | _ => exact bind state (declareNames state _ _) fun _ t middle _ _ => ih tail middle
    | function name definition =>
      refine bind state (define state name .undefined .function) fun cell t middle _ defined => ?_
      obtain ⟨rfl, rfl⟩ := defined
      have filled : W.Fills [(name, definition, s.heap.cells.size)] (s.defining name .undefined .function) := by
        refine List.forall_mem_singleton.2 ⟨head.functionStmt, fun _ => ?_⟩
        exact ⟨⟨name, s.heap.cells.size, .function⟩, by simp [State.defining, Environment.bind], rfl, rfl⟩
      refine map (ih tail middle) fun functions u later fills => List.forall_mem_cons.2 ⟨?_, fills⟩
      exact filled.later later _ (List.mem_singleton.2 rfl)
    | _ => exact ih tail state

/-- A closure is put where its name is bound. -/
theorem fill {f : String × Function × Nat} (state : W.At s) (fills : W.Fills [f] s) :
    W.Gives [] (fun _ _ => True) s
      (EvalM.makeClosure (some f.1) f.2.1 >>= fun closure => EvalM.modifyHeap (·.setCell f.2.2 closure)) := by
  obtain ⟨name, definition, cell⟩ := f
  obtain ⟨callable, known⟩ := fills _ (List.mem_singleton.2 rfl)
  have made : W.Gives [] (fun _ t => t = s.closing (some name) definition) s
      (EvalM.makeClosure (some name) definition) :=
    ⟨_, _, rfl, state.closing callable _, fun _ => s.later_closing _ _, rfl⟩
  refine bind state made fun v t middle later here => ⟨(), _, rfl, middle.setCell, fun watched => ?_, trivial⟩
  subst here
  obtain ⟨b, inside, rfl, function⟩ := known watched
  refine (middle.sound watched).later_setCell (.inl inside) fun const => ?_
  rw [function] at const
  cases const

/-- The functions among what is hoisted are closures from the start. -/
theorem hoistLexical (code : ∀ y ∈ statements.map Node.stmt, W.Code y) (state : W.At s) :
    W.Gives (Stmt.declaredIn statements) (fun _ _ => True) s (EvalM.hoistLexical statements) := by
  rw [← List.append_nil (Stmt.declaredIn statements)]
  refine bind state (hoistNames code state) fun functions t middle _ fills => ?_
  rw [← List.flatMap_eq_nil_iff.2 fun f (_ : f ∈ functions) => (rfl : (fun _ => ([] : Declared)) f = [])]
  refine forM (fun later fills => fills.later later) middle fills fun f mem s state fills => fill state ?_
  exact List.forall_mem_singleton.2 (fills f mem)

end Gives

end Watch

end BindScript
