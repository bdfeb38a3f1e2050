import BindScript.Evaluation.Declaration
import BindScript.Proofs.Lockstep.Step

/-!
# Names, properties and patterns in lockstep

Names and properties are read and written without regard to how deep calls are nested. Patterns evaluate their
defaults, so these have to be code of the fragment; hoisting evaluates nothing.
-/

namespace BindScript.Lockstep

variable {L : Lockstep} {F : Fragment} {sub₁ sub₂ : Interpreter} {v : Value} {name key : String}

/-! ## Contexts

The two contexts differ in a limit that only the start of a run looks at. -/

theorem lookup_right : EvalM.lookup L.right name = EvalM.lookup L.left name := by
  obtain ⟨limit, same⟩ := L.contexts
  rw [same]
  rfl

theorem assignName_right : EvalM.assignName L.right name v = EvalM.assignName L.left name v := by
  obtain ⟨limit, same⟩ := L.contexts
  rw [same]
  rfl

theorem getProperty_right : EvalM.getProperty L.right v key = EvalM.getProperty L.left v key := by
  obtain ⟨limit, same⟩ := L.contexts
  rw [same]
  rfl

theorem deleteProperty_right : EvalM.deleteProperty L.right v key = EvalM.deleteProperty L.left v key := by
  obtain ⟨limit, same⟩ := L.contexts
  rw [same]
  rfl

namespace Together

/-! ## Names -/

theorem define (name : String) (v : Value) (kind : BindingKind) :
    L.Together (EvalM.define name v kind) (EvalM.define name v kind) := by
  unfold EvalM.define
  refine bind (allocate _) fun cell => bind (modifyEnv (fun _ => ?_) (fun _ => ?_) fun _ _ => ?_) fun _ => pure cell
  all_goals rfl

theorem lookup (name : String) : L.Together (EvalM.lookup L.left name) (EvalM.lookup L.right name) := by
  rw [lookup_right]
  unfold EvalM.lookup
  refine readingEnv (fun _ _ => rfl) fun binding => ?_
  cases binding with
  | some b => exact readHeap _
  | none =>
    refine reading fun known => ?_
    cases known with
    | some v => exact pure v
    | none => exact ite (fail nofun) (pure _)

theorem assignName (name : String) (v : Value) :
    L.Together (EvalM.assignName L.left name v) (EvalM.assignName L.right name v) := by
  rw [assignName_right]
  unfold EvalM.assignName
  refine readingEnv (fun _ _ => rfl) fun bound => ite (readingEnv (fun _ _ => rfl) fun found => ?_) ?_
  · cases found with
    | error fault => exact refuse fault
    | ok cell => exact modifyHeap _
  · cases L.left.locals with
    | object o => exact reading fun allowed => ite (modifyHeap _) (typeFault _)
    | _ => exact typeFault _

theorem startName (name : String) (v : Value) : L.Together (EvalM.startName name v) (EvalM.startName name v) := by
  unfold EvalM.startName
  refine readingEnv (fun _ _ => rfl) fun found => ?_
  cases found with
  | error fault => exact refuse fault
  | ok cell => exact modifyHeap _

/-! ## Properties -/

theorem getProperty (target : Value) (key : String) :
    L.Together (EvalM.getProperty L.left target key) (EvalM.getProperty L.right target key) := by
  rw [getProperty_right]
  exact standalone (.getProperty L.left target key)

/-- Where the runs may not break down, the write must be one that never does. -/
theorem unlessClash {target v : Value} {key : String} {x₁ x₂ : EvalM Unit}
    (sound : L.clashes ∨ ∀ h : Heap, h.clashes target key v = false) (x : L.Together x₁ x₂) :
    L.Together (do if ← EvalM.readHeap (·.clashes target key v) then MonadExcept.throw Exit.clash else x₁)
      (do if ← EvalM.readHeap (·.clashes target key v) then MonadExcept.throw Exit.clash else x₂) := by
  intro s state
  refine Ends.bind (readHeap _ s state) fun clashes t read later => ?_
  cases read
  rcases sound with clashes | never
  · exact ite (clash clashes) x s state
  · simpa only [never s.heap, Bool.false_eq_true, if_false] using x s state

theorem setProperty (target : Value) (key : String) (v : Value)
    (sound : L.clashes ∨ ∀ h : Heap, h.clashes target key v = false) :
    L.Together (EvalM.setProperty target key v) (EvalM.setProperty target key v) := by
  have write : L.Together _ _ := standalone (.write target key v)
  unfold EvalM.setProperty
  cases target with
  | undefined | null => exact reading fun _ => typeFault _
  | array a => exact reading fun exceeds => ite (fail nofun) (unlessClash sound write)
  | object o => exact write
  | _ => exact pure ()

theorem deleteProperty (target : Value) (key : String) :
    L.Together (EvalM.deleteProperty L.left target key) (EvalM.deleteProperty L.right target key) := by
  rw [deleteProperty_right]
  exact standalone (.deleteProperty L.left target key)

/-! ## Patterns -/

theorem bindName (mode : BindMode) (name : String) (v : Value) :
    L.Together (EvalM.bindName L.left mode name v) (EvalM.bindName L.right mode name v) := by
  unfold EvalM.bindName
  cases mode with
  | declare kind =>
    exact readingEnv (fun _ _ => rfl) fun there => ite (startName name v) (discard (define name v kind))
  | assign => exact assignName name v

theorem withDefault {default : Option Expr} (sub : L.Interprets F sub₁ sub₂)
    (code : ∀ y ∈ Expr.optionNodes default, F.code y) (v : Value) :
    L.Together (EvalM.withDefault sub₁ v default) (EvalM.withDefault sub₂ v default) := by
  unfold EvalM.withDefault
  cases default with
  | none => cases v <;> exact pure _
  | some e =>
    cases v with
    | undefined => exact sub.expr e (code _ (List.mem_singleton.2 rfl))
    | _ => exact pure _

mutual

/-- By recursion on the pattern: its parts are bound in the order in which they are written, on both sides. -/
theorem bindPattern (sub : L.Interprets F sub₁ sub₂) (mode : BindMode) : ∀ (p : Pattern) (v : Value),
    F.code (.pattern p) →
    L.Together (EvalM.bindPattern L.left sub₁ mode p v) (EvalM.bindPattern L.right sub₂ mode p v)
  | .name id, v, _ => bindName mode id v
  | .array elements rest, v, code => by
    have parts : ∀ y ∈ elements.reduceOption.flatMap Element.nodes ++ Pattern.optionNodes rest, F.code y :=
      fun y mem => F.parts code mem
    obtain ⟨elementsCode, restCode⟩ := List.forall_mem_append.1 parts
    unfold EvalM.bindPattern
    refine bind (standalone (.iterate v)) fun items => bind (bindElements sub mode items elements 0 ?_) fun _ => ?_
    · exact fun e mem y inside =>
        elementsCode y (List.mem_flatMap.2 ⟨e, List.reduceOption_mem_iff.2 mem, inside⟩)
    · exact bindRest sub mode items elements.length rest restCode
  | .object fields rest, v, code => by
    have fieldsCode : ∀ f ∈ fields, ∀ y ∈ f.nodes, F.code y := fun f mem y inside =>
      F.parts code (List.mem_flatMap.2 ⟨f, mem, inside⟩)
    have bound := bindFields sub mode v fields fieldsCode
    unfold EvalM.bindPattern
    cases rest with
    | none =>
      refine ite (reading fun _ => bind (typeFault _) fun _ => bind bound fun _ => ?_) (bind bound fun _ => ?_)
      · exact pure ()
      · exact pure ()
    | some name =>
      refine ite (reading fun _ => bind (typeFault _) fun _ => bind bound fun _ => ?_) (bind bound fun _ => ?_)
      · exact reading fun remaining => bind (allocate _) fun object => bindName mode name object
      · exact reading fun remaining => bind (allocate _) fun object => bindName mode name object

theorem bindElements (sub : L.Interprets F sub₁ sub₂) (mode : BindMode) (items : Array Value) :
    ∀ (elements : List (Option Element)) (i : Nat), (∀ e, some e ∈ elements → ∀ y ∈ e.nodes, F.code y) →
    L.Together (EvalM.bindElements L.left sub₁ mode items i elements)
      (EvalM.bindElements L.right sub₂ mode items i elements)
  | [], _, _ => pure ()
  | none :: more, i, code => by
    unfold EvalM.bindElements
    exact bindElements sub mode items more (i + 1) fun e mem => code e (List.mem_cons_of_mem _ mem)
  | some (.mk target default) :: more, i, code => by
    obtain ⟨targetCode, defaultCode⟩ := List.forall_mem_cons.1 (code _ (List.mem_cons_self ..))
    unfold EvalM.bindElements
    refine bind (withDefault sub defaultCode _) fun item => ?_
    refine bind (bindPattern sub mode target item targetCode) fun _ => ?_
    exact bindElements sub mode items more (i + 1) fun e mem => code e (List.mem_cons_of_mem _ mem)

theorem bindRest (sub : L.Interprets F sub₁ sub₂) (mode : BindMode) (items : Array Value) (taken : Nat) :
    ∀ (rest : Option Pattern), (∀ y ∈ Pattern.optionNodes rest, F.code y) →
    L.Together (EvalM.bindRest L.left sub₁ mode items taken rest) (EvalM.bindRest L.right sub₂ mode items taken rest)
  | none, _ => pure ()
  | some p, code => by
    unfold EvalM.bindRest
    exact bind (allocate _) fun remaining => bindPattern sub mode p remaining (code _ (List.mem_singleton.2 rfl))

theorem bindFields (sub : L.Interprets F sub₁ sub₂) (mode : BindMode) (v : Value) :
    ∀ (fields : List Field), (∀ f ∈ fields, ∀ y ∈ f.nodes, F.code y) →
    L.Together (EvalM.bindFields L.left sub₁ mode v fields) (EvalM.bindFields L.right sub₂ mode v fields)
  | [], _ => pure ()
  | .mk key target default :: more, code => by
    obtain ⟨head, tail⟩ := List.forall_mem_cons.1 code
    obtain ⟨targetCode, defaultCode⟩ := List.forall_mem_cons.1 head
    unfold EvalM.bindFields
    refine reading fun found => bind (withDefault sub defaultCode found) fun item => ?_
    exact bind (bindPattern sub mode target item targetCode) fun _ => bindFields sub mode v more tail

end

/-! ## Declarations -/

theorem declareName (kind : BindingKind) (name : String) :
    L.Together (EvalM.declareName kind name) (EvalM.declareName kind name) := by
  unfold EvalM.declareName
  exact readingEnv (fun _ _ => rfl) fun there => ite (pure ()) (discard (define name _ kind))

theorem hoistVars (statements : List Stmt) : L.Together (EvalM.hoistVars statements) (EvalM.hoistVars statements) :=
  forM fun name _ => declareName .var name

theorem makeClosure (name? : Option String) (definition : Function) :
    L.Together (EvalM.makeClosure name? definition) (EvalM.makeClosure name? definition) := by
  unfold EvalM.makeClosure
  exact readingEnv (fun _ _ => rfl) fun captured => allocate _

theorem hoistNames (statements : List Stmt) :
    L.Together (EvalM.hoistNames statements) (EvalM.hoistNames statements) := by
  induction statements with
  | nil => exact pure []
  | cons s rest ih =>
    cases s with
    | declare kind declarators =>
      unfold EvalM.hoistNames
      exact ite (bind (forM fun name _ => declareName _ name) fun _ => ih) ih
    | function name definition =>
      unfold EvalM.hoistNames
      exact bind (define name _ _) fun cell => bind ih fun functions => pure _
    | _ => exact ih

theorem hoistLexical (statements : List Stmt) :
    L.Together (EvalM.hoistLexical statements) (EvalM.hoistLexical statements) := by
  unfold EvalM.hoistLexical
  refine bind (hoistNames statements) fun functions => forM fun function _ => ?_
  obtain ⟨name, definition, cell⟩ := function
  exact bind (makeClosure (some name) definition) fun closure => modifyHeap _

theorem evalNamed {e : Expr} (sub : L.Interprets F sub₁ sub₂) (name : String) (code : F.code (.expr e)) :
    L.Together (EvalM.evalNamed sub₁ name e) (EvalM.evalNamed sub₂ name e) := by
  cases e with
  | function definition => exact makeClosure (some name) definition
  | _ => exact sub.expr _ code

theorem evalInit {e : Expr} (sub : L.Interprets F sub₁ sub₂) (p : Pattern) (code : F.code (.expr e)) :
    L.Together (EvalM.evalInit sub₁ p e) (EvalM.evalInit sub₂ p e) := by
  cases p with
  | name id => exact evalNamed sub id code
  | _ => exact sub.expr e code

theorem evalDeclaration {declarators : List Declarator} (sub : L.Interprets F sub₁ sub₂) (kind : DeclKind)
    (code : ∀ d ∈ declarators, ∀ y ∈ d.nodes, F.code y) :
    L.Together (EvalM.evalDeclaration L.left sub₁ kind declarators)
      (EvalM.evalDeclaration L.right sub₂ kind declarators) := by
  refine forM fun d mem => ?_
  have code := code d mem
  obtain ⟨pattern, init⟩ := d
  obtain ⟨patternCode, initCode⟩ := List.forall_mem_cons.1 code
  unfold EvalM.evalDeclarator
  cases init with
  | none => exact ite (pure ()) (bindPattern sub _ pattern _ patternCode)
  | some init =>
    exact bind (evalInit sub pattern (initCode _ (List.mem_singleton.2 rfl))) fun value =>
      bindPattern sub _ pattern value patternCode

end Together

end BindScript.Lockstep
