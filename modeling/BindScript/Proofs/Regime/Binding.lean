import BindScript.Proofs.Number.Whole
import BindScript.Proofs.Regime.Step
import BindScript.Evaluation.Declaration

/-!
# Names, properties and patterns in a regime

Reading and writing names and properties. This is where the contexts of two runs may differ: what is unknown is a
failure in strict mode, and the other run may go on with `undefined`.
-/

namespace BindScript.Regime

variable {R : Regime} {h : Heap} {v target value : Value} {key name : String}

/-! ## Writing a property -/

theorem mem_resizeItems {items : Array Value} {n : Nat} (mem : v ∈ (Heap.resizeItems items n).toList) :
    v ∈ items.toList ∨ v = .undefined := by
  unfold Heap.resizeItems at mem
  split at mem
  · rw [Array.toList_shrink] at mem
    exact .inl (List.mem_of_mem_take mem)
  · rw [Array.toList_append, Array.toList_replicate] at mem
    exact (List.mem_append.1 mem).imp_right List.eq_of_mem_replicate

theorem mem_putItem {items : Array Value} {i : Nat} (mem : v ∈ (Heap.putItem items i value).toList) :
    v ∈ items.toList ∨ v = .undefined ∨ v = value := by
  unfold Heap.putItem at mem
  split at mem
  · rw [Array.toList_setIfInBounds] at mem
    exact (List.mem_or_eq_of_mem_set mem).imp_right .inr
  · rw [Array.toList_push] at mem
    rcases List.mem_append.1 mem with mem | mem
    · exact (mem_resizeItems mem).imp_right .inl
    · exact .inr (.inr (List.mem_singleton.1 mem))

namespace Fits

/-- A write that can be made keeps an array within its cap, and it stores what is allowed. -/
theorem set (fits : R.Fits h) (inside : R.Holds target) (holds : R.Holds value)
    (allowed : h.canSet target key value = true) : R.Fits (h.set target key value) := by
  cases target with
  | array a =>
    simp only [Heap.canSet, Heap.takesItem, Heap.exceedsLimit, Bool.and_eq_true, Bool.not_eq_true'] at allowed
    have items := fits.items inside
    have length := fits.lengths a inside.1
    unfold Heap.set
    dsimp only
    split
    next same =>
      -- a length is a whole number within the limit, so its size is within the limit too
      obtain ⟨-, short, whole⟩ := allowed
      rw [if_pos same] at short whole
      simp only [Heap.isLength, Bool.and_eq_true] at whole
      refine fits.modifyItems inside (fun v mem => ?_) ?_
      · rcases mem_resizeItems mem with mem | rfl
        · exact items v mem
        · exact holds_undefined
      · rw [Heap.size_resizeItems]
        exact fun _ => Number.toSize_le whole.1.2 (of_decide_eq_false short)
    next other =>
      obtain ⟨-, short, -⟩ := allowed
      rw [if_neg other] at short
      split
      next i parsed =>
        rw [parsed] at short
        have short : i < maxArrayLength := by simpa using short
        refine fits.modifyItems inside (fun v mem => ?_) ?_
        · rcases mem_putItem mem with mem | rfl | rfl
          · exact items v mem
          · exact holds_undefined
          · exact holds
        · rw [Heap.size_putItem]
          exact fun sized => Nat.max_le.2 ⟨length sized, short⟩
      next => exact fits
  | object o =>
    show R.Fits (h.modifyProperties o (·.insert key value))
    refine fits.modifyProperties inside fun entry mem => ?_
    rcases Entries.eq_or_mem_of_mem_insert mem with rfl | mem
    · exact holds
    · exact fits.properties inside entry mem
  | _ => exact fits

theorem remove (fits : R.Fits h) (inside : R.Holds target) : R.Fits (h.remove target key) := by
  cases target with
  | array a =>
    unfold Heap.remove
    dsimp only
    split
    · refine fits.modifyItems inside (fun v mem => ?_) ?_
      · rw [Array.toList_setIfInBounds] at mem
        rcases List.mem_or_eq_of_mem_set mem with mem | rfl
        · exact fits.items inside v mem
        · exact holds_undefined
      · rw [Array.size_setIfInBounds]
        exact fits.lengths a inside.1
    · exact fits
  | object o =>
    exact fits.modifyProperties inside fun entry mem => fits.properties inside entry (List.mem_filter.1 mem).1
  | _ => exact fits

end Fits

/-! ## Contexts -/

/-- The contexts differ in how strict they are only. -/
theorem right_locals : R.right.locals = R.left.locals := by
  rcases R.contexts with same | ⟨-, -, same⟩ <;> exact same ▸ rfl

theorem right_lookup (h : Heap) (name : String) : R.right.lookup h name = R.left.lookup h name := by
  rcases R.contexts with same | ⟨-, -, same⟩ <;> exact same ▸ rfl

theorem right_maxCallDepth : R.right.options.maxCallDepth = R.left.options.maxCallDepth := by
  rcases R.contexts with same | ⟨-, -, same⟩ <;> exact same ▸ rfl

/-- Both runs are as strict, or the first one is and the second one is not. -/
theorem strict_cases : R.right.options.strict = R.left.options.strict ∨
    R.parts ∧ R.left.options.strict = true ∧ R.right.options.strict = false := by
  rcases R.contexts with same | ⟨parts, strict, same⟩
  · exact .inl (same ▸ rfl)
  · exact .inr ⟨parts, strict, same ▸ rfl⟩

theorem Fits.lookup (fits : R.Fits h) (code : R.code.expr (.name name)) (found : R.left.lookup h name = some v) :
    R.Holds v := by
  unfold Context.lookup at found
  split at found
  · cases found
    exact fits.get R.locals name
  split at found
  · cases found
    exact fits.get R.app name
  · exact R.globals name v code found

namespace Follows

open EvalM

variable {α : Type} {P : α → Prop}

/-- A step that fails where the mode is strict. -/
theorem strictly {refusal x : EvalM α} (refuses : R.Fail refusal) (otherwise : R.Follows P x x) :
    R.Follows P (if R.left.options.strict then refusal else x) (if R.right.options.strict then refusal else x) := by
  rcases strict_cases (R := R) with same | ⟨parts, strict, -⟩
  · rw [same]
    refine ite (fun _ s state => ?_) fun _ => otherwise
    obtain ⟨e, t, run, -, state, leaves⟩ := refuses s state
    rw [run]
    exact .error state leaves
  · -- the one place where the runs part: only the first of them is strict
    rw [strict, if_pos rfl]
    intro s state
    obtain ⟨e, t, run, fails, state, leaves⟩ := refuses s state
    rw [run]
    exact .parted parts fails state leaves

/-! ## Names -/

theorem define {kind : BindingKind} (holds : R.Holds v) :
    R.Follows R.zone.cells (EvalM.define name v kind) (EvalM.define name v kind) := by
  unfold EvalM.define
  refine bind (allocate fun h fits => fits.newCell holds) fun cell inside => ?_
  exact bind (modifyEnv fun _ scopes => scopes.bind inside) fun _ _ => pure inside

theorem lookup (code : R.code.expr (.name name)) :
    R.Follows R.Holds (EvalM.lookup R.left name) (EvalM.lookup R.right name) := by
  unfold EvalM.lookup
  refine bind (P := fun b => ∀ b' ∈ b, R.zone.cells b'.cell)
    (readEnv fun env scopes b found => scopes.find? found) fun b inside => ?_
  cases b with
  | some b => exact readHeap fun h fits => fits.cell (inside b rfl)
  | none =>
    simp only [right_lookup]
    refine bind (P := fun v => ∀ u ∈ v, R.Holds u) (readHeap fun h fits u found => fits.lookup code found)
      fun v known => ?_
    cases v with
    | some v => exact pure (known v rfl)
    | none => exact strictly (fun s state => ⟨_, s, rfl, trivial, state, trivial⟩) (pure holds_undefined)

/-- A write that the target takes, or a refusal. -/
theorem write {refusal : EvalM Unit} (inside : R.Holds target) (holds : R.Holds v)
    (refuses : R.Follows (fun _ => True) refusal refusal) :
    R.Follows (fun _ => True)
      (do if ← EvalM.readHeap (·.canSet target key v) then EvalM.modifyHeap (·.set target key v) else refusal)
      (do if ← EvalM.readHeap (·.canSet target key v) then EvalM.modifyHeap (·.set target key v) else refusal) := by
  refine readHeap_bind fun s state => ?_
  cases allowed : s.heap.canSet target key v with
  | true => exact .ok (state.inHeap (state.heap.set inside holds allowed)) trivial
  | false => exact refuses s state

/-- A name is assigned in its cell, or else as a property of the local variables. -/
theorem assignName (holds : R.Holds v) :
    R.Follows (fun _ => True) (EvalM.assignName R.left name v) (EvalM.assignName R.right name v) := by
  unfold EvalM.assignName
  rw [right_locals]
  refine readingEnv fun bound => ite (fun _ => ?bound) fun _ => ?free
  case bound =>
    refine bind (P := fun found => ∀ cell, found = .ok cell → R.zone.cells cell)
      (readEnv fun env scopes cell found => ?_) fun found inside => ?_
    · unfold Environment.assignable at found
      split at found
      · cases found
      next b mine =>
        split at found <;> cases found
        exact scopes.find? mine
    · cases found with
      | error fault => exact refuse fault
      | ok cell => exact modifyHeap fun _ fits => fits.setCell holds
  case free =>
    have inside : R.Holds R.left.locals := R.locals
    generalize R.left.locals = place at inside ⊢
    cases place with
    | object o => exact write inside holds (typeFault _)
    | _ => exact typeFault _

theorem startName (holds : R.Holds v) :
    R.Follows (fun _ => True) (EvalM.startName name v) (EvalM.startName name v) := by
  unfold EvalM.startName
  refine readingEnv fun found => ?_
  cases found with
  | error fault => exact refuse fault
  | ok cell => exact modifyHeap fun _ fits => fits.setCell holds

/-! ## Properties -/

theorem getProperty (inside : R.Holds target) :
    R.Follows R.Holds (EvalM.getProperty R.left target key) (EvalM.getProperty R.right target key) := by
  unfold EvalM.getProperty
  refine ite (fun _ => ?_) fun _ => readHeap fun h fits => fits.get inside key
  exact strictly (fun s state => ⟨_, s, rfl, trivial, state, trivial⟩) (pure holds_undefined)

theorem setProperty (inside : R.Holds target) (holds : R.Holds v) :
    R.Follows (fun _ => True) (EvalM.setProperty target key v) (EvalM.setProperty target key v) := by
  have refuses : R.Follows (fun _ => True)
      (do EvalM.typeFault (.refusedWrite key (← EvalM.readHeap (·.isFrozen target))) : EvalM Unit)
      (do EvalM.typeFault (.refusedWrite key (← EvalM.readHeap (·.isFrozen target)))) :=
    reading fun _ => typeFault _
  unfold EvalM.setProperty
  cases target with
  | undefined | null => exact reading fun _ => typeFault _
  | array a =>
    refine reading fun exceeds => ?_
    refine ite (fun _ => fail trivial) fun _ => reading fun clashes => ?_
    exact ite (fun _ => throw trivial) fun _ => write inside holds refuses
  | object o => exact write inside holds refuses
  | _ => exact pure trivial

theorem deleteProperty (inside : R.Holds target) :
    R.Follows (fun _ => True) (EvalM.deleteProperty R.left target key) (EvalM.deleteProperty R.right target key) := by
  have gone : R.Follows (fun _ => True) (do EvalM.modifyHeap (·.remove target key); Pure.pure true)
      (do EvalM.modifyHeap (·.remove target key); Pure.pure true) :=
    bind (modifyHeap fun _ fits => fits.remove inside) fun _ _ => pure trivial
  unfold EvalM.deleteProperty
  cases target with
  | undefined | null => exact strictly (fun s state => ⟨_, s, rfl, trivial, state, trivial⟩) (pure trivial)
  | object o =>
    refine reading fun frozen => ite (fun _ => ?_) fun _ => gone
    exact reading fun _ => pure trivial
  | array a =>
    refine reading fun frozen =>
      ite (fun _ => pure trivial) fun _ => ?_
    refine reading fun removable => ?_
    exact ite (fun _ => gone) fun _ => pure trivial
  | _ => exact pure trivial

/-! ## Lists -/

theorem iterate (holds : R.Holds v) :
    R.Follows (fun items => ∀ u ∈ items.toList, R.Holds u) (EvalM.iterate v) (EvalM.iterate v) := by
  unfold EvalM.iterate
  cases v with
  | array a => exact readHeap fun h fits => fits.items holds
  | string s =>
    refine pure fun u mem => ?_
    obtain ⟨c, -, rfl⟩ := List.mem_map.1 mem
    exact holds_char c
  | object o => exact typeFault _
  | _ => exact reading fun _ => typeFault _

end Follows

end BindScript.Regime

/-!
## Binding names in a regime

Patterns, declarations and hoisting, in code that obeys the rule of the regime. The closures that are created on the
way are of such code.
-/

namespace BindScript.Regime

variable {R : Regime} {sub₁ sub₂ : Interpreter} {v : Value} {name : String}

theorem holds_getD {items : Array Value} (holds : ∀ v ∈ items.toList, R.Holds v) (i : Nat) :
    R.Holds (items.getD i .undefined) := by
  rw [Array.getD_eq_getD_getElem?]
  cases found : items[i]? with
  | none => exact holds_undefined
  | some v => exact holds v (Array.mem_toList_iff.2 (Array.mem_of_getElem? found))

namespace Follows

theorem withDefault {e : Option Expr} (sub : R.Interprets sub₁ sub₂) (holds : R.Holds v)
    (code : Expr.OptionObeys R.code e) :
    R.Follows R.Holds (EvalM.withDefault sub₁ v e) (EvalM.withDefault sub₂ v e) := by
  cases v with
  | undefined =>
    cases e with
    | none => exact pure holds
    | some e => exact sub.expr e code
  | _ => exact pure holds

/-! ### Patterns -/

theorem bindName (mode : BindMode) (holds : R.Holds v) :
    R.Follows (fun _ => True) (EvalM.bindName R.left mode name v) (EvalM.bindName R.right mode name v) := by
  unfold EvalM.bindName
  cases mode with
  | assign => exact assignName holds
  | declare kind =>
    exact readingEnv fun there => ite (fun _ => startName holds) fun _ => discard (define holds)

/-- What an object pattern leaves of a value is bound to the name of its rest. -/
private theorem bindRemaining (mode : BindMode) (fields : List Field) (rest : Option String) (holds : R.Holds v) :
    R.Follows (fun _ => True)
      (match rest with
        | none => Pure.pure ()
        | some name => do
          let remaining ← EvalM.readHeap (EvalM.remainingProperties · v fields)
          EvalM.bindName R.left mode name (← EvalM.allocate (·.newObject remaining)))
      (match rest with
        | none => Pure.pure ()
        | some name => do
          let remaining ← EvalM.readHeap (EvalM.remainingProperties · v fields)
          EvalM.bindName R.right mode name (← EvalM.allocate (·.newObject remaining))) := by
  cases rest with
  | none => exact pure trivial
  | some name =>
    refine bind (P := fun remaining => ∀ entry ∈ remaining, R.Holds entry.2)
      (readHeap fun h fits entry mem => ?_) fun remaining inside => ?_
    · rcases Entries.mem_or_mem_of_mem_insertAll mem with mem | mem
      · cases mem
      · exact fits.entries holds entry (List.mem_filter.1 mem).1
    · exact bind (newObject inside) fun object holds => bindName mode holds

mutual

theorem bindPattern (sub : R.Interprets sub₁ sub₂) (mode : BindMode) : ∀ (p : Pattern) {v : Value},
    p.Obeys R.code → R.Holds v → R.Follows (fun _ => True) (EvalM.bindPattern R.left sub₁ mode p v)
      (EvalM.bindPattern R.right sub₂ mode p v)
  | .name _, _, _, holds => bindName mode holds
  | .array elements rest, _, code, holds => by
    unfold Pattern.Obeys at code
    obtain ⟨node, elementsCode, restCode⟩ := code
    unfold EvalM.bindPattern
    refine bind (iterate holds) fun items inside => ?_
    refine bind (bindElements sub mode elements 0 elementsCode inside) fun _ _ => ?_
    exact bindRest sub mode elements.length rest restCode (fun sized => (R.guarded sized).pattern _ node) inside
  | .object fields rest, v, code, holds => by
    unfold Pattern.Obeys at code
    unfold EvalM.bindPattern
    refine ite (fun _ => ?_) fun _ => bind (bindFields sub mode fields code.2 holds) fun _ _ => ?_
    · exact reading fun _ => bind (P := fun _ => True) (typeFault _) fun _ _ =>
        bind (bindFields sub mode fields code.2 holds) fun _ _ => bindRemaining mode fields rest holds
    · exact bindRemaining mode fields rest holds

theorem bindElements (sub : R.Interprets sub₁ sub₂) (mode : BindMode) :
    ∀ (elements : List (Option Element)) (i : Nat) {items : Array Value}, Pattern.ElementsObey R.code elements →
    (∀ v ∈ items.toList, R.Holds v) → R.Follows (fun _ => True) (EvalM.bindElements R.left sub₁ mode items i elements)
      (EvalM.bindElements R.right sub₂ mode items i elements)
  | [], _, _, _, _ => pure trivial
  | none :: more, i, _, code, inside => by
    unfold Pattern.ElementsObey at code
    unfold EvalM.bindElements
    exact bindElements sub mode more (i + 1) code inside
  | some (.mk target default) :: more, i, _, code, inside => by
    unfold Pattern.ElementsObey Element.Obeys at code
    obtain ⟨⟨targetCode, defaultCode⟩, moreCode⟩ := code
    unfold EvalM.bindElements
    refine bind (withDefault sub (holds_getD inside i) defaultCode) fun item holds => ?_
    refine bind (bindPattern sub mode target targetCode holds) fun _ _ => ?_
    exact bindElements sub mode more (i + 1) moreCode inside

theorem bindRest (sub : R.Interprets sub₁ sub₂) (mode : BindMode) (taken : Nat) :
    ∀ (rest : Option Pattern) {items : Array Value}, Pattern.OptionObeys R.code rest → (R.sized → rest = none) →
    (∀ v ∈ items.toList, R.Holds v) → R.Follows (fun _ => True) (EvalM.bindRest R.left sub₁ mode items taken rest)
      (EvalM.bindRest R.right sub₂ mode items taken rest)
  | none, _, _, _, _ => pure trivial
  | some p, items, code, unsized, inside => by
    unfold EvalM.bindRest
    have part : ∀ v ∈ (items.extract taken items.size).toList, R.Holds v := by
      intro v mem
      rw [Array.toList_extract, List.extract_eq_take_drop] at mem
      exact inside v (List.mem_of_mem_drop (List.mem_of_mem_take mem))
    refine bind (newArray part fun sized => nomatch unsized sized) fun remaining holds => ?_
    exact bindPattern sub mode p code holds

theorem bindFields (sub : R.Interprets sub₁ sub₂) (mode : BindMode) :
    ∀ (fields : List Field) {v : Value}, Field.AllObey R.code fields → R.Holds v →
    R.Follows (fun _ => True) (EvalM.bindFields R.left sub₁ mode v fields)
      (EvalM.bindFields R.right sub₂ mode v fields)
  | [], _, _, _ => pure trivial
  | .mk key target default :: more, _, code, holds => by
    unfold Field.AllObey Field.Obeys at code
    obtain ⟨⟨targetCode, defaultCode⟩, moreCode⟩ := code
    unfold EvalM.bindFields
    refine bind (readHeap fun h fits => fits.get holds key) fun item itemHolds => ?_
    refine bind (withDefault sub itemHolds defaultCode) fun item itemHolds => ?_
    refine bind (bindPattern sub mode target targetCode itemHolds) fun _ _ => ?_
    exact bindFields sub mode more moreCode holds

end

/-! ### Declarations -/

theorem declareName (kind : BindingKind) (name : String) :
    R.Follows (fun _ => True) (EvalM.declareName kind name) (EvalM.declareName kind name) := by
  unfold EvalM.declareName
  exact readingEnv fun there => ite (fun _ => pure trivial) fun _ => discard (define holds_undefined)

theorem hoistVars (statements : List Stmt) :
    R.Follows (fun _ => True) (EvalM.hoistVars statements) (EvalM.hoistVars statements) :=
  forM fun name _ => declareName .var name

theorem makeClosure {definition : Function} (name? : Option String) (code : definition.Obeys R.code) :
    R.Follows R.Holds (EvalM.makeClosure name? definition) (EvalM.makeClosure name? definition) := by
  unfold EvalM.makeClosure
  refine bind (P := fun captured : Array Binding => ∀ b ∈ captured.toList, R.zone.cells b.cell)
    (readEnv fun _ scopes => scopes) fun captured inside => ?_
  exact allocate fun h fits => fits.newClosure code inside

/-- What is hoisted are functions of the code. -/
theorem hoistNames {statements : List Stmt} (code : Stmt.AllObey R.code statements) :
    R.Follows (fun functions => ∀ f ∈ functions, f.2.1.Obeys R.code) (EvalM.hoistNames statements)
      (EvalM.hoistNames statements) := by
  induction statements with
  | nil => exact pure nofun
  | cons s rest ih =>
    unfold Stmt.AllObey at code
    obtain ⟨head, tail⟩ := code
    cases s with
    | declare kind declarators =>
      unfold EvalM.hoistNames
      refine ite (fun _ => ?_) fun _ => ih tail
      exact bind (forM fun name _ => declareName _ name) fun _ _ => ih tail
    | function name definition =>
      unfold Stmt.Obeys at head
      unfold EvalM.hoistNames
      refine bind (define holds_undefined) fun cell _ => bind (ih tail) fun functions others => ?_
      exact pure (List.forall_mem_cons.2 ⟨head.2, others⟩)
    | _ => exact ih tail

theorem hoistLexical {statements : List Stmt} (code : Stmt.AllObey R.code statements) :
    R.Follows (fun _ => True) (EvalM.hoistLexical statements) (EvalM.hoistLexical statements) := by
  unfold EvalM.hoistLexical
  refine bind (hoistNames code) fun functions obey => forM fun function mem => ?_
  obtain ⟨name, definition, cell⟩ := function
  exact bind (makeClosure (some name) (obey _ mem)) fun closure holds => modifyHeap fun _ fits => fits.setCell holds

theorem evalNamed {e : Expr} (sub : R.Interprets sub₁ sub₂) (code : e.Obeys R.code) :
    R.Follows R.Holds (EvalM.evalNamed sub₁ name e) (EvalM.evalNamed sub₂ name e) := by
  cases e with
  | function definition =>
    unfold Expr.Obeys at code
    exact makeClosure (some name) code.2
  | _ => exact sub.expr _ code

theorem evalInit {e : Expr} (sub : R.Interprets sub₁ sub₂) (p : Pattern) (code : e.Obeys R.code) :
    R.Follows R.Holds (EvalM.evalInit sub₁ p e) (EvalM.evalInit sub₂ p e) := by
  cases p with
  | name id => exact evalNamed sub code
  | _ => exact sub.expr e code

theorem evalDeclaration {declarators : List Declarator} (sub : R.Interprets sub₁ sub₂) (kind : DeclKind)
    (code : Declarator.AllObey R.code declarators) :
    R.Follows (fun _ => True) (EvalM.evalDeclaration R.left sub₁ kind declarators)
      (EvalM.evalDeclaration R.right sub₂ kind declarators) := by
  refine forM fun d mem => ?_
  have code := Declarator.allObey_iff.1 code d mem
  obtain ⟨pattern, init⟩ := d
  unfold Declarator.Obeys at code
  cases init with
  | none =>
    unfold EvalM.evalDeclarator
    exact ite (fun _ => pure trivial) fun _ => bindPattern sub _ pattern code.1 holds_undefined
  | some init =>
    unfold EvalM.evalDeclarator
    exact bind (evalInit sub pattern code.2) fun value holds => bindPattern sub _ pattern code.1 holds

end Follows

end BindScript.Regime
