import BindScript.Evaluation.Expression
import BindScript.Proofs.Lockstep.Binding
import BindScript.Proofs.Regime.Expression

/-!
# Expressions in lockstep

Each kind of expression, and each link of a chain, given that its parts are code of the fragment. No expression takes
a failure but `typeof`, which evaluates nothing that could fail with more than an unknown name.
-/

namespace BindScript

/-! ## Writes that never clash -/

/-- Whether an assignment writes what it computes, and not a value as it is. -/
def AssignOp.computes (op : AssignOp) : Bool :=
  op.binary?.any (!·.isLogical)

/-- Whether what is assigned to may turn out to be the length of an array. -/
def Expr.mayBeLength : Expr → Bool
  | .member _ property _ => property == "length"
  | .index .. => true
  | _ => false

/-- Not an assignment of a value as it is to what may be the length of an array. -/
def Expr.KeepsLengths : Expr → Prop
  | .assign op target _ => op.computes = true ∨ target.mayBeLength = false
  | _ => True

/-- Writing the value to the place does not clash, whatever the heap is. -/
def EvalM.Reference.Spares : EvalM.Reference → Value → Prop
  | .name _, _ => True
  | .property target key, v => ∀ h : Heap, h.clashes target key v = false

/-- Finding out the number of a primitive value reads no array. -/
theorem Heap.clashes_of_primitive {h : Heap} {target v : Value} {key : String} (primitive : v.isContainer = false) :
    h.clashes target key v = false := by
  have reads (a depth : Nat) : h.textReads a depth v = false := by
    cases depth <;> cases v <;> first | rfl | cases primitive
  cases target with
  | array a => simp only [clashes, reads, Bool.and_false]
  | _ => rfl

theorem EvalM.Reference.spares_of_primitive (place : EvalM.Reference) {v : Value} (primitive : v.isContainer = false) :
    place.Spares v := by
  cases place with
  | name id => trivial
  | property target key => exact fun h => Heap.clashes_of_primitive primitive

/-- All that is computed is primitive. -/
theorem Heap.isContainer_of_applyBinary {h : Heap} {op : BinaryOp} {a b v : Value} (computes : op.isLogical = false)
    (computed : h.applyBinary op a b = .ok v) : v.isContainer = false := by
  cases op with
  | and | or | nullish => cases computes
  | add =>
    have sum : h.add a b = .ok v := computed
    unfold Heap.add at sum
    split at sum
    · cases passed : checkStringLength ((h.text a).utf8ByteSize + (h.text b).utf8ByteSize) <;>
        simp only [passed] at sum <;> cases sum
      rfl
    · cases sum
      rfl
  | isIn =>
    have found : h.isIn a b = .ok v := computed
    unfold Heap.isIn at found
    split at found <;> cases found
    rfl
  | _ => cases computed; rfl

/-- A place that cannot be a length is written to without a clash. -/
theorem EvalM.spares_of_evalReference {sub : Interpreter} {target : Expr} {place : EvalM.Reference} {s t : State}
    (found : evalReference sub target s = .ok place t) (other : target.mayBeLength = false) (v : Value) :
    place.Spares v := by
  cases target with
  | name id => cases found; trivial
  | member object property optional =>
    cases optional with
    | true => cases found
    | false =>
      obtain ⟨value, u, -, found⟩ := exists_of_bind_ok found
      cases found
      exact fun h => Heap.clashes_of_ne_length (by simpa [Expr.mayBeLength] using other)
  | index object key optional => cases other
  | _ => cases found

namespace Lockstep

variable {L : Lockstep} {F : Fragment} {sub₁ sub₂ : Interpreter} {e key : Expr} {items args : List Expr}

/-- Code has its parts. -/
theorem Fragment.below {x : Node} (code : F.code x) : F.Below x :=
  ⟨fun _ mem => F.parts code mem, fun _ mem => F.links code mem⟩

namespace Fragment.Below

variable {object : Expr} {property : String} {optional : Bool}

theorem object_of_member (below : F.Below (.expr (.member object property optional))) :
    F.code (.expr object) ∧ F.chain object :=
  ⟨below.parts _ (Node.mem_children_member.2 (.inl rfl)), below.links _ (Node.mem_children_member.2 (.inl rfl))⟩

theorem object_of_index (below : F.Below (.expr (.index object key optional))) :
    F.code (.expr object) ∧ F.chain object :=
  ⟨below.parts _ (Node.mem_children_index.2 (.inl rfl)), below.links _ (Node.mem_children_index.2 (.inl rfl))⟩

theorem key_of_index (below : F.Below (.expr (.index object key optional))) : F.code (.expr key) :=
  below.parts _ (Node.mem_children_index.2 (.inr (List.mem_singleton.2 rfl)))

end Fragment.Below

namespace Together

theorem evalKey (sub : L.Interprets F sub₁ sub₂) (code : F.code (.expr key)) :
    L.Together (EvalM.evalKey sub₁ key) (EvalM.evalKey sub₂ key) :=
  bind (sub.expr key code) fun _ => readHeap _

/-! ### Places -/

/-- A place is found by the same steps in both runs. -/
theorem evalReference (sub : L.Interprets F sub₁ sub₂) (code : F.code (.expr e)) :
    L.Together (EvalM.evalReference sub₁ e) (EvalM.evalReference sub₂ e) := by
  have below := Fragment.below code
  cases e with
  | name id => exact pure _
  | member object property optional =>
    cases optional with
    | true => exact fail nofun
    | false => exact bind (sub.expr object below.object_of_member.1) fun target => pure _
  | index object key optional =>
    cases optional with
    | true => exact fail nofun
    | false =>
      refine bind (sub.expr object below.object_of_index.1) fun target => ?_
      exact bind (evalKey sub below.key_of_index) fun key => pure _
  | _ => exact fail nofun

theorem readPlace (place : EvalM.Reference) : L.Together (place.read L.left) (place.read L.right) := by
  cases place with
  | name id => exact lookup id
  | property target key => exact getProperty target key

theorem writePlace (place : EvalM.Reference) (v : Value) (sound : L.clashes ∨ place.Spares v) :
    L.Together (place.write L.left v) (place.write L.right v) := by
  cases place with
  | name id => exact assignName id v
  | property target key => exact setProperty target key v sound

/-- What an operator computes is written to any place without a clash. -/
theorem storeComputed (place : EvalM.Reference) {binary : BinaryOp} (computes : binary.isLogical = false)
    (a b : Value) :
    L.Together
      (do let v ← EvalM.ofExcept (← EvalM.readHeap (·.applyBinary binary a b)); place.write L.left v; return v)
      (do let v ← EvalM.ofExcept (← EvalM.readHeap (·.applyBinary binary a b)); place.write L.right v; return v) := by
  intro s state
  refine Ends.bind (readHeap _ s state) fun result t read later => ?_
  cases read
  refine Ends.bind (ofExcept Heap.ordinary_applyBinary s state) fun v u gives after => ?_
  have gives : EvalM.ofExcept (s.heap.applyBinary binary a b) s = .ok v u := gives
  have computed : s.heap.applyBinary binary a b = .ok v := by
    cases result : s.heap.applyBinary binary a b <;> rw [result] at gives <;> cases gives
    rfl
  have spares := place.spares_of_primitive (Heap.isContainer_of_applyBinary computes computed)
  exact bind (writePlace place v (.inr spares)) (fun _ => pure v) u after.state

/-- A write to a name or a member. Only the length of an array can be written with something that clashes, and the code
rules that out where a clash is not reckoned with. -/
theorem evalAssign {target value : Expr} (sub : L.Interprets F sub₁ sub₂) (op : AssignOp)
    (targetCode : F.code (.expr target)) (valueCode : F.code (.expr value))
    (sound : L.clashes ∨ (Expr.assign op target value).KeepsLengths) :
    L.Together (EvalM.evalAssign L.left sub₁ op target value) (EvalM.evalAssign L.right sub₂ op target value) := by
  intro s state
  unfold EvalM.evalAssign
  refine Ends.bind (evalReference sub targetCode s state) fun place t found later => ?_
  have storeRight (spares : L.clashes ∨ ∀ v, place.Spares v) :
      L.Together (do let v ← sub₁.expr value; place.write L.left v; return v)
        (do let v ← sub₂.expr value; place.write L.right v; return v) :=
    bind (sub.expr value valueCode) fun v => bind (writePlace place v (spares.imp_right (· v))) fun _ => pure v
  -- an assignment that does not compute keeps its value off lengths
  have plain (keeps : op.computes = false) : L.clashes ∨ ∀ v, place.Spares v :=
    sound.imp_right fun sound => EvalM.spares_of_evalReference found (sound.resolve_left (by simp [keeps]))
  unfold AssignOp.computes at plain
  refine (?_ : L.Together _ _) t later.state
  cases binary : op.binary? with
  | none =>
    rw [binary] at plain
    exact storeRight (plain rfl)
  | some binary' =>
    rw [binary] at plain
    refine bind (readPlace place) fun current => ?_
    cases binary' with
    | and | nullish => exact ite (storeRight (plain rfl)) (pure current)
    | or => exact ite (pure current) (storeRight (plain rfl))
    | _ => exact bind (sub.expr value valueCode) fun right => storeComputed place rfl current right

theorem evalUpdate {operand : Expr} (sub : L.Interprets F sub₁ sub₂) (op : UpdateOp) (side : UpdateSide)
    (code : F.code (.expr operand)) :
    L.Together (EvalM.evalUpdate L.left sub₁ op side operand) (EvalM.evalUpdate L.right sub₂ op side operand) := by
  unfold EvalM.evalUpdate
  refine bind (evalReference sub code) fun place => bind (readPlace place) fun current => ?_
  refine reading fun old => bind (writePlace place _ (.inr (place.spares_of_primitive rfl))) fun _ => ?_
  cases side <;> exact pure _

/-! ### Operators -/

theorem evalBinary {left right : Expr} (sub : L.Interprets F sub₁ sub₂) (op : BinaryOp)
    (leftCode : F.code (.expr left)) (rightCode : F.code (.expr right)) :
    L.Together (EvalM.evalBinary sub₁ op left right) (EvalM.evalBinary sub₂ op left right) := by
  unfold EvalM.evalBinary
  refine bind (sub.expr left leftCode) fun a => ?_
  have next := sub.expr right rightCode
  cases op with
  | and | nullish => exact ite next (pure a)
  | or => exact ite (pure a) next
  | _ => exact bind next fun b => standalone (.applyBinary _ a b)

theorem evalTypeOperand (sub : L.Interprets F sub₁ sub₂) (code : F.code (.expr e)) :
    L.Together (EvalM.evalTypeOperand L.left sub₁ e) (EvalM.evalTypeOperand L.right sub₂ e) := by
  cases e with
  | name id =>
    intro s state
    have same : L.right.lookup = L.left.lookup := by
      obtain ⟨limit, same⟩ := L.contexts
      rw [same]
      rfl
    -- a name is looked up without a failure, so there is none to take
    rw [EvalM.evalTypeOperand_name, EvalM.evalTypeOperand_name, same]
    exact .ok (.refl state)
  | _ => exact sub.expr _ code

/-- What is deleted is a property, found by the same steps. -/
theorem evalDelete (sub : L.Interprets F sub₁ sub₂) (code : F.code (.expr e)) :
    L.Together (EvalM.evalDelete L.left sub₁ e) (EvalM.evalDelete L.right sub₂ e) := by
  have below := Fragment.below code
  have gone : ∀ target key, L.Together (do return Value.bool (← EvalM.deleteProperty L.left target key))
      (do return Value.bool (← EvalM.deleteProperty L.right target key)) := fun target key =>
    bind (deleteProperty target key) fun _ => pure _
  cases e with
  | member object property optional => exact bind (sub.expr object below.object_of_member.1) fun target => gone target _
  | index object key optional =>
    refine bind (sub.expr object below.object_of_index.1) fun target => ?_
    exact bind (evalKey sub below.key_of_index) fun key => gone target key
  | name => exact pure _
  | _ => exact bind (discard (sub.expr _ code)) fun _ => pure _

theorem evalUnary {operand : Expr} (sub : L.Interprets F sub₁ sub₂) (op : UnaryOp) (code : F.code (.expr operand)) :
    L.Together (EvalM.evalUnary L.left sub₁ op operand) (EvalM.evalUnary L.right sub₂ op operand) := by
  unfold EvalM.evalUnary
  have value := sub.expr operand code
  cases op with
  | typeof => exact bind (evalTypeOperand sub code) fun v => pure _
  | delete => exact evalDelete sub code
  | minus | plus | bitNot => exact bind value fun v => readHeap _
  | not => exact bind value fun v => pure _
  | void => exact bind (discard value) fun _ => pure _

/-! ### Literals -/

theorem evalList (sub : L.Interprets F sub₁ sub₂) (code : ∀ y ∈ items.map Node.expr, F.code y) :
    L.Together (EvalM.evalList sub₁ items) (EvalM.evalList sub₂ items) := by
  refine foldlM (fun item mem done => ?_) #[]
  have itemCode := List.forall_mem_map.1 code item mem
  cases item with
  | spread inner =>
    have innerCode : F.code (.expr inner) := F.parts itemCode (List.mem_singleton.2 rfl)
    refine bind (sub.expr inner innerCode) fun v => bind (standalone (.iterate v)) fun values => ?_
    exact bind (standalone (.checkedLength _)) fun _ => pure _
  | _ => exact bind (sub.expr _ itemCode) fun v => pure _

theorem evalArgs (sub : L.Interprets F sub₁ sub₂) (code : ∀ y ∈ args.map Node.expr, F.code y) :
    L.Together (EvalM.evalArgs sub₁ args) (EvalM.evalArgs sub₂ args) :=
  bind (evalList sub code) fun _ => pure _

theorem evalTemplate {parts : List TemplatePart} (sub : L.Interprets F sub₁ sub₂)
    (code : ∀ y ∈ parts.flatMap TemplatePart.nodes, F.code y) :
    L.Together (EvalM.evalTemplate sub₁ parts) (EvalM.evalTemplate sub₂ parts) := by
  refine bind (foldlM (fun part mem done => ?_) "") fun text => pure _
  have partCode := forall_mem_flatMap.1 code part mem
  cases part with
  | text s => exact pure _
  | hole e =>
    refine bind (sub.expr e (partCode _ (List.mem_singleton.2 rfl))) fun value => reading fun piece => ?_
    exact bind (standalone (.checkedBytes _)) fun _ => pure _

/-- The properties are evaluated in their order. -/
theorem evalObject {properties : List Property} (sub : L.Interprets F sub₁ sub₂)
    (code : ∀ y ∈ properties.flatMap Property.nodes, F.code y) :
    L.Together (EvalM.evalObject sub₁ properties) (EvalM.evalObject sub₂ properties) := by
  refine bind (foldlM (fun property mem done => ?_) []) fun entries => allocate _
  have code := forall_mem_flatMap.1 code property mem
  cases property with
  | named key value => exact bind (evalNamed sub key (code _ (List.mem_singleton.2 rfl))) fun v => pure _
  | computed key value =>
    obtain ⟨keyCode, valueCode⟩ := List.forall_mem_cons.1 code
    refine bind (evalKey sub keyCode) fun key => ?_
    exact bind (evalNamed sub key (valueCode _ (List.mem_singleton.2 rfl))) fun v => pure _
  | spread source =>
    exact bind (sub.expr source (code _ (List.mem_singleton.2 rfl))) fun v => reading fun found => pure _

/-! ### Chains -/

theorem callProperty {callee : Expr} (sub : L.Interprets F sub₁ sub₂) (receiver : Value) (key : String)
    (optional : Bool) (code : ∀ y ∈ args.map Node.expr, F.code y) :
    L.Together (EvalM.callProperty L.left sub₁ callee receiver key args optional)
      (EvalM.callProperty L.right sub₂ callee receiver key args optional) := by
  unfold EvalM.callProperty
  refine bind (getProperty receiver key) fun property => ite ?own (ite ?built (fail nofun))
  case own => exact bind (evalArgs sub code) fun values => bind (sub.call property values) fun v => pure _
  case built =>
    cases Method.find? receiver key with
    | none => exact ite (pure none) (fail nofun)
    | some m =>
      exact bind (evalArgs sub code) fun values => bind (built sub.call (.callMethod receiver m values)) fun v => pure _

theorem evalTarget {object : Expr} (sub : L.Interprets F sub₁ sub₂) (optional : Bool) (code : F.chain object) :
    L.Together (EvalM.evalTarget sub₁ object optional) (EvalM.evalTarget sub₂ object optional) := by
  unfold EvalM.evalTarget
  refine bind (sub.chain object code) fun target => ?_
  cases target with
  | none => exact pure none
  | some v => exact ite (pure none) (pure _)

/-- The call itself is a part that the interpreters share. What is done beforehand finds its receiver and its
arguments. -/
theorem evalCall {callee : Expr} (sub : L.Interprets F sub₁ sub₂) (optional : Bool)
    (below : F.Below (.expr (.call callee args optional))) :
    L.Together (EvalM.evalCall L.left sub₁ callee args optional)
      (EvalM.evalCall L.right sub₂ callee args optional) := by
  have first : Node.expr callee ∈ (Node.expr (.call callee args optional)).children :=
    Node.mem_children_call.2 (.inl rfl)
  have code : ∀ y ∈ args.map Node.expr, F.code y := fun y mem =>
    below.parts y (Node.mem_children_call.2 (.inr mem))
  have inner := Fragment.below (below.parts _ first)
  unfold EvalM.evalCall
  cases callee with
  | member object property optionalMember =>
    refine bind (evalTarget sub optionalMember inner.object_of_member.2) fun target => ?_
    cases target with
    | none => exact pure none
    | some receiver => exact callProperty sub receiver property optional code
  | index object key optionalMember =>
    refine bind (evalTarget sub optionalMember inner.object_of_index.2) fun target => ?_
    cases target with
    | none => exact pure none
    | some receiver =>
      exact bind (evalKey sub inner.key_of_index) fun key => callProperty sub receiver key optional code
  | _ =>
    refine bind (evalTarget sub optional (below.links _ first)) fun target => ?_
    cases target with
    | none => exact pure none
    | some f =>
      refine ite ?_ (fail nofun)
      exact bind (evalArgs sub code) fun values => bind (sub.call f values) fun v => pure _

/-- A chain goes on with its first link, and what is no link is evaluated as it is. -/
theorem chainStep (sub : L.Interprets F sub₁ sub₂) (below : F.Below (.expr e))
    (whole : e.isLink = false → F.code (.expr e)) :
    L.Together (EvalM.chainStep L.left sub₁ e) (EvalM.chainStep L.right sub₂ e) := by
  cases e with
  | member object property optional =>
    refine bind (evalTarget sub optional below.object_of_member.2) fun target => ?_
    cases target with
    | none => exact pure none
    | some target => exact bind (getProperty target property) fun v => pure _
  | index object key optional =>
    refine bind (evalTarget sub optional below.object_of_index.2) fun target => ?_
    cases target with
    | none => exact pure none
    | some target =>
      exact bind (evalKey sub below.key_of_index) fun key => bind (getProperty target key) fun v => pure _
  | call callee args optional => exact evalCall sub optional below
  | _ => exact bind (sub.expr _ (whole rfl)) fun v => pure _

/-! ### All expressions -/

/-- One case for each form of expression: its parts are code below it, so the interpreters agree on them. -/
theorem exprStep (sub : L.Interprets F sub₁ sub₂) (below : F.Below (.expr e))
    (sound : L.clashes ∨ e.KeepsLengths) :
    L.Together (EvalM.exprStep L.left sub₁ e) (EvalM.exprStep L.right sub₂ e) := by
  have chain : e.isLink = true → L.Together (EvalM.evalChain L.left sub₁ e) (EvalM.evalChain L.right sub₂ e) := by
    intro link
    exact bind (chainStep sub below fun no => absurd (link.symm.trans no) nofun) fun v => pure _
  have parts := below.parts
  unfold EvalM.exprStep
  refine bind checkInterrupt fun _ => ?_
  cases e with
  | name id => exact lookup id
  | literal l => exact pure _
  | template parts => exact evalTemplate sub below.parts
  | unary op operand => exact evalUnary sub op (parts _ (List.mem_singleton.2 rfl))
  | update op side operand => exact evalUpdate sub op side (parts _ (List.mem_singleton.2 rfl))
  | binary op left right =>
    exact evalBinary sub op (parts _ (Node.mem_children_binary.2 (.inl rfl)))
      (parts _ (Node.mem_children_binary.2 (.inr (List.mem_singleton.2 rfl))))
  | conditional test consequent alternate =>
    have parts : ∀ y ∈ [Node.expr test, .expr consequent, .expr alternate], F.code y := parts
    simp only [List.forall_mem_cons] at parts
    exact bind (sub.expr test parts.1) fun _ => ite (sub.expr consequent parts.2.1) (sub.expr alternate parts.2.2.1)
  | sequence items =>
    have parts : ∀ y ∈ items.map Node.expr, F.code y := parts
    exact foldlM (fun item mem _ => sub.expr item (List.forall_mem_map.1 parts item mem)) _
  | array items => exact bind (evalList sub parts) fun values => allocate _
  | object properties => exact evalObject sub parts
  | spread inner => exact typeFault _
  | member | index | call => exact chain rfl
  | assign op target value =>
    have parts : ∀ y ∈ [Node.expr target, .expr value], F.code y := parts
    simp only [List.forall_mem_cons] at parts
    exact evalAssign sub op parts.1 parts.2.1 sound
  | function definition => exact makeClosure none definition

end Together

end Lockstep

end BindScript
