import BindScript.Evaluation.Expression
import BindScript.Proofs.Watch.Declaration

/-!
# Expressions of a watched run

Each kind of expression, and each link of a chain, given its parts. What is assigned to is a place if the code is as
the grammar asks, and what is evaluated is no spread.
-/

namespace BindScript

namespace Watch

variable {W : Watch} {sub₁ sub₂ : Interpreter} {e key : Expr} {items args : List Expr}

namespace Code

variable {object : Expr} {property : String} {optional : Bool}

theorem object_of_member (code : W.Code (.expr (.member object property optional))) : W.Code (.expr object) :=
  code.part (Node.mem_children_member.2 (.inl rfl))

theorem object_of_index (code : W.Code (.expr (.index object key optional))) : W.Code (.expr object) :=
  code.part (Node.mem_children_index.2 (.inl rfl))

theorem key_of_index (code : W.Code (.expr (.index object key optional))) : W.Code (.expr key) :=
  code.part (Node.mem_children_index.2 (.inr (List.mem_singleton.2 rfl)))

theorem callee_of_call (code : W.Code (.expr (.call object args optional))) : W.Code (.expr object) :=
  code.part (List.mem_singleton.2 rfl)

theorem args_of_call (code : W.Code (.expr (.call object args optional))) :
    ∀ y ∈ args.map Node.expr, y.Obeys W.code :=
  fun y mem => (Node.obeys_iff.1 code.1).2 y (Node.mem_children_call.2 (.inr mem))

end Code

namespace Follows

theorem evalKey (sub : W.Interprets sub₁ sub₂) (code : W.Code (.expr key)) :
    W.Quiet (EvalM.evalKey sub₁ key) (EvalM.evalKey sub₂ key) :=
  andThen (sub.expr key code) fun _ => readHeap _

/-! ## Places -/

/-- What is no place is refused where the grammar is not watched. -/
theorem evalReference (sub : W.Interprets sub₁ sub₂) (code : W.Code (.expr e))
    (simple : W.formed → e.isSimpleTarget = true) :
    W.Quiet (EvalM.evalReference sub₁ e) (EvalM.evalReference sub₂ e) := by
  have refused : ∀ {kind : String}, e.isSimpleTarget ≠ true →
      W.Quiet (EvalM.fail (.invalidTarget kind) : EvalM EvalM.Reference) (EvalM.fail (.invalidTarget kind)) :=
    fun no => throw fun watched => absurd (simple watched) no
  cases e with
  | name id => exact pure trivial
  | member object property optional =>
    cases optional with
    | true => exact refused nofun
    | false => exact andThen (sub.expr object code.object_of_member) fun target => pure trivial
  | index object key optional =>
    cases optional with
    | true => exact refused nofun
    | false =>
      refine andThen (sub.expr object code.object_of_index) fun target => ?_
      exact andThen (evalKey sub code.key_of_index) fun key => pure trivial
  | _ => exact refused nofun

theorem readPlace (place : EvalM.Reference) : W.Quiet (place.read W.ctx) (place.read W.ctx) := by
  cases place with
  | name id => exact lookup id
  | property target key => exact standalone (.getProperty W.ctx target key)

theorem writePlace (place : EvalM.Reference) (v : Value) :
    W.Quiet (place.write W.ctx v) (place.write W.ctx v) := by
  cases place with
  | name id => exact assignName id v
  | property target key => exact setProperty target key v

/-- The place, then the value, then the write: none of these declares a name. -/
theorem evalAssign {target value : Expr} (sub : W.Interprets sub₁ sub₂) (op : AssignOp)
    (code : W.Code (.expr (.assign op target value))) :
    W.Quiet (EvalM.evalAssign W.ctx sub₁ op target value) (EvalM.evalAssign W.ctx sub₂ op target value) := by
  have targetCode : W.Code (.expr target) := code.part (List.mem_cons_self ..)
  have valueCode : W.Code (.expr value) := code.part (List.mem_cons_of_mem _ (List.mem_singleton.2 rfl))
  unfold EvalM.evalAssign
  refine andThen (evalReference sub targetCode fun watched => (code.formed watched).1) fun place => ?_
  have store : ∀ v, W.Quiet (do place.write W.ctx v; return v) (do place.write W.ctx v; return v) :=
    fun v => andThen (writePlace place v) fun _ => pure trivial
  have storeRight : W.Quiet (do let v ← sub₁.expr value; place.write W.ctx v; return v)
      (do let v ← sub₂.expr value; place.write W.ctx v; return v) :=
    andThen (sub.expr value valueCode) store
  cases op.binary? with
  | none => exact storeRight
  | some binary =>
    refine andThen (readPlace place) fun current => ?_
    cases binary with
    | and | nullish => exact ite storeRight (pure trivial)
    | or => exact ite (pure trivial) storeRight
    | _ =>
      refine andThen (sub.expr value valueCode) fun right => ?_
      simpa only [bind_assoc] using andThen (standalone (.applyBinary _ current right)) store

theorem evalUpdate {operand : Expr} (sub : W.Interprets sub₁ sub₂) (op : UpdateOp) (side : UpdateSide)
    (code : W.Code (.expr (.update op side operand))) :
    W.Quiet (EvalM.evalUpdate W.ctx sub₁ op side operand) (EvalM.evalUpdate W.ctx sub₂ op side operand) := by
  have operandCode : W.Code (.expr operand) := code.part (List.mem_singleton.2 rfl)
  unfold EvalM.evalUpdate
  refine andThen (evalReference sub operandCode fun watched => (code.formed watched).1) fun place => ?_
  refine andThen (readPlace place) fun current => ?_
  refine reading fun old => andThen (writePlace place _) fun _ => ?_
  cases side <;> exact pure trivial

/-! ## Operators -/

theorem evalBinary {left right : Expr} (sub : W.Interprets sub₁ sub₂) (op : BinaryOp)
    (leftCode : W.Code (.expr left)) (rightCode : W.Code (.expr right)) :
    W.Quiet (EvalM.evalBinary sub₁ op left right) (EvalM.evalBinary sub₂ op left right) := by
  unfold EvalM.evalBinary
  refine andThen (sub.expr left leftCode) fun a => ?_
  have next := sub.expr right rightCode
  cases op with
  | and | nullish => exact ite next (pure trivial)
  | or => exact ite (pure trivial) next
  | _ => exact andThen next fun b => standalone (.applyBinary _ a b)

theorem evalTypeOperand (sub : W.Interprets sub₁ sub₂) (code : W.Code (.expr e)) :
    W.Quiet (EvalM.evalTypeOperand W.ctx sub₁ e) (EvalM.evalTypeOperand W.ctx sub₂ e) := by
  cases e with
  | name id =>
    refine bind (attempt (lookup id)) fun r tried => ?_
    split
    · exact pure trivial
    · exact resume tried
  | _ => exact sub.expr _ code

theorem evalDelete (sub : W.Interprets sub₁ sub₂) (code : W.Code (.expr e)) :
    W.Quiet (EvalM.evalDelete W.ctx sub₁ e) (EvalM.evalDelete W.ctx sub₂ e) := by
  have gone : ∀ target key, W.Quiet (do return Value.bool (← EvalM.deleteProperty W.ctx target key))
      (do return Value.bool (← EvalM.deleteProperty W.ctx target key)) := fun target key =>
    andThen (standalone (.deleteProperty W.ctx target key)) fun _ => pure trivial
  cases e with
  | member object property optional => exact andThen (sub.expr object code.object_of_member) fun target => gone target _
  | index object key optional =>
    refine andThen (sub.expr object code.object_of_index) fun target => ?_
    exact andThen (evalKey sub code.key_of_index) fun key => gone target key
  | name => exact pure trivial
  | _ => exact andThen (discard (sub.expr _ code)) fun _ => pure trivial

theorem evalUnary {operand : Expr} (sub : W.Interprets sub₁ sub₂) (op : UnaryOp) (code : W.Code (.expr operand)) :
    W.Quiet (EvalM.evalUnary W.ctx sub₁ op operand) (EvalM.evalUnary W.ctx sub₂ op operand) := by
  unfold EvalM.evalUnary
  have value := sub.expr operand code
  cases op with
  | typeof => exact andThen (evalTypeOperand sub code) fun v => pure trivial
  | delete => exact evalDelete sub code
  | minus | plus | bitNot => exact andThen value fun v => readHeap _
  | not => exact andThen value fun v => pure trivial
  | void => exact andThen (discard value) fun _ => pure trivial

/-! ## Literals -/

theorem evalList (sub : W.Interprets sub₁ sub₂) (obeys : ∀ y ∈ items.map Node.expr, y.Obeys W.code) :
    W.Quiet (EvalM.evalList sub₁ items) (EvalM.evalList sub₂ items) := by
  refine foldlM (fun item mem done => ?_) #[]
  cases item with
  | spread inner =>
    have code := Code.spread (obeys _ (List.mem_map_of_mem mem))
    refine andThen (sub.expr inner code) fun v => andThen (standalone (.iterate v)) fun values => ?_
    exact andThen (standalone (.checkedLength _)) fun _ => pure trivial
  | _ => exact andThen (sub.expr _ (.item obeys mem rfl)) fun v => pure trivial

theorem evalArgs (sub : W.Interprets sub₁ sub₂) (code : ∀ y ∈ args.map Node.expr, y.Obeys W.code) :
    W.Quiet (EvalM.evalArgs sub₁ args) (EvalM.evalArgs sub₂ args) :=
  andThen (evalList sub code) fun _ => pure trivial

theorem evalTemplate {parts : List TemplatePart} (sub : W.Interprets sub₁ sub₂)
    (code : ∀ y ∈ parts.flatMap TemplatePart.nodes, W.Code y) :
    W.Quiet (EvalM.evalTemplate sub₁ parts) (EvalM.evalTemplate sub₂ parts) := by
  refine andThen (foldlM (fun part mem done => ?_) "") fun text => pure trivial
  have partCode := forall_mem_flatMap.1 code part mem
  cases part with
  | text s => exact pure trivial
  | hole e =>
    refine andThen (sub.expr e (partCode _ (List.mem_singleton.2 rfl))) fun value => reading fun piece => ?_
    exact andThen (standalone (.checkedBytes _)) fun _ => pure trivial

theorem evalObject {properties : List Property} (sub : W.Interprets sub₁ sub₂)
    (code : ∀ y ∈ properties.flatMap Property.nodes, W.Code y) :
    W.Quiet (EvalM.evalObject sub₁ properties) (EvalM.evalObject sub₂ properties) := by
  refine andThen (foldlM (fun property mem done => ?_) []) fun entries => standalone (.newObject _)
  have code := forall_mem_flatMap.1 code property mem
  cases property with
  | named key value => exact andThen (evalNamed sub key (code _ (List.mem_singleton.2 rfl))) fun v => pure trivial
  | computed key value =>
    obtain ⟨keyCode, valueCode⟩ := List.forall_mem_cons.1 code
    refine andThen (evalKey sub keyCode) fun key => ?_
    exact andThen (evalNamed sub key (valueCode _ (List.mem_singleton.2 rfl))) fun v => pure trivial
  | spread source =>
    exact andThen (sub.expr source (code _ (List.mem_singleton.2 rfl))) fun v => reading fun found => pure trivial

/-! ## Chains -/

theorem callProperty {callee : Expr} (sub : W.Interprets sub₁ sub₂) (receiver : Value) (key : String)
    (optional : Bool) (code : ∀ y ∈ args.map Node.expr, y.Obeys W.code) :
    W.Quiet (EvalM.callProperty W.ctx sub₁ callee receiver key args optional)
      (EvalM.callProperty W.ctx sub₂ callee receiver key args optional) := by
  unfold EvalM.callProperty
  refine andThen (standalone (.getProperty W.ctx receiver key)) fun property => ite ?own (ite ?built (fail id))
  case own => exact andThen (evalArgs sub code) fun values => andThen (sub.call property values) fun v => pure trivial
  case built =>
    cases Method.find? receiver key with
    | none => exact ite (pure trivial) (fail id)
    | some m =>
      exact andThen (evalArgs sub code) fun values =>
        andThen (built sub.call (.callMethod receiver m values)) fun v => pure trivial

theorem evalTarget {object : Expr} (sub : W.Interprets sub₁ sub₂) (optional : Bool) (code : W.Code (.expr object)) :
    W.Quiet (EvalM.evalTarget sub₁ object optional) (EvalM.evalTarget sub₂ object optional) := by
  unfold EvalM.evalTarget
  refine andThen (sub.chain object code) fun target => ?_
  cases target with
  | none => exact pure trivial
  | some v => exact ite (pure trivial) (pure trivial)

/-- A call binds no names around it, whatever is called. -/
theorem evalCall {callee : Expr} (sub : W.Interprets sub₁ sub₂) (optional : Bool)
    (code : W.Code (.expr (.call callee args optional))) :
    W.Quiet (EvalM.evalCall W.ctx sub₁ callee args optional)
      (EvalM.evalCall W.ctx sub₂ callee args optional) := by
  have obeys := code.args_of_call
  have inner := code.callee_of_call
  unfold EvalM.evalCall
  cases callee with
  | member object property optionalMember =>
    refine andThen (evalTarget sub optionalMember inner.object_of_member) fun target => ?_
    cases target with
    | none => exact pure trivial
    | some receiver => exact callProperty sub receiver property optional obeys
  | index object key optionalMember =>
    refine andThen (evalTarget sub optionalMember inner.object_of_index) fun target => ?_
    cases target with
    | none => exact pure trivial
    | some receiver =>
      exact andThen (evalKey sub inner.key_of_index) fun key => callProperty sub receiver key optional obeys
  | _ =>
    refine andThen (evalTarget sub optional inner) fun target => ?_
    cases target with
    | none => exact pure trivial
    | some f =>
      refine ite ?_ (fail id)
      exact andThen (evalArgs sub obeys) fun values => andThen (sub.call f values) fun v => pure trivial

/-- A chain goes on with its first link, and what is no link is evaluated as it is. -/
theorem chainStep (sub : W.Interprets sub₁ sub₂) (code : W.Code (.expr e)) :
    W.Quiet (EvalM.chainStep W.ctx sub₁ e) (EvalM.chainStep W.ctx sub₂ e) := by
  cases e with
  | member object property optional =>
    refine andThen (evalTarget sub optional code.object_of_member) fun target => ?_
    cases target with
    | none => exact pure trivial
    | some target => exact andThen (standalone (.getProperty W.ctx target property)) fun v => pure trivial
  | index object key optional =>
    refine andThen (evalTarget sub optional code.object_of_index) fun target => ?_
    cases target with
    | none => exact pure trivial
    | some target =>
      exact andThen (evalKey sub code.key_of_index) fun key =>
        andThen (standalone (.getProperty W.ctx target key)) fun v => pure trivial
  | call callee args optional => exact evalCall sub optional code
  | _ => exact andThen (sub.expr _ code) fun v => pure trivial

/-! ## All expressions -/

/-- Expressions declare nothing: their functions have scopes of their own. -/
theorem exprStep (sub : W.Interprets sub₁ sub₂) (code : W.Code (.expr e)) :
    W.Quiet (EvalM.exprStep W.ctx sub₁ e) (EvalM.exprStep W.ctx sub₂ e) := by
  have chain : W.Quiet (EvalM.evalChain W.ctx sub₁ e) (EvalM.evalChain W.ctx sub₂ e) :=
    andThen (chainStep sub code) fun v => pure trivial
  have parts : ∀ y ∈ (Node.expr e).singles, W.Code y := fun y mem => code.part mem
  unfold EvalM.exprStep
  refine andThen checkInterrupt fun _ => ?_
  cases e with
  | name id => exact lookup id
  | literal l => exact pure trivial
  | template _ => exact evalTemplate sub parts
  | unary op operand => exact evalUnary sub op (parts _ (List.mem_singleton.2 rfl))
  | update op side operand => exact evalUpdate sub op side code
  | binary op left right =>
    exact evalBinary sub op (parts _ (Node.mem_children_binary.2 (.inl rfl)))
      (parts _ (Node.mem_children_binary.2 (.inr (List.mem_singleton.2 rfl))))
  | conditional test consequent alternate =>
    have parts : ∀ y ∈ [Node.expr test, .expr consequent, .expr alternate], W.Code y := parts
    simp only [List.forall_mem_cons] at parts
    exact andThen (sub.expr test parts.1) fun _ => ite (sub.expr consequent parts.2.1) (sub.expr alternate parts.2.2.1)
  | sequence items =>
    exact foldlM (fun item mem _ => sub.expr item (parts _ (List.mem_map_of_mem mem))) _
  | array items =>
    exact andThen (evalList sub (Node.obeys_iff.1 code.1).2) fun values => standalone (.newArray _)
  | object properties => exact evalObject sub parts
  | spread inner => exact throw fun watched => absurd (code.2 watched) nofun
  | member | index | call => exact chain
  | assign op target value => exact evalAssign sub op code
  | function definition => exact makeClosure none code.functionExpr

end Follows

end Watch

end BindScript
