import BindScript.Proofs.Correspondence.Binding
import BindScript.Proofs.Correspondence.Method
import BindScript.Evaluation.Expression

/-!
# Expressions in runs that correspond

Expressions that keep to their access correspond, and so do the links of chains (`Sim.exprStep`,
`Sim.chainStep`). An assignment works out its place first; the place stays alike while the right side is
evaluated (`PlaceAlike`).
-/

namespace BindScript.Correspondence

variable {C : Correspondence} {sub₁ sub₂ : Interpreter} {m : Manner} {bound : List String}
  {w : C.World} {s₁ s₂ : State} {v₁ v₂ : Value}

/-- Places that are alike: the same name, which may be read, or the same property of values that are
alike. -/
inductive PlaceAlike (bound : List String) : C.Post EvalM.Reference
  | name {w : C.World} {env : Environment} {id : String} (reads : id ∈ bound ∨ C.access.reads id) :
    PlaceAlike bound w env (.name id) (.name id)
  | property {w : C.World} {env : Environment} {v₁ v₂ : Value} {key : String}
    (target : Value.Alike (C.pairing w) v₁ v₂) :
    PlaceAlike bound w env (.property v₁ key) (.property v₂ key)

theorem lasts_place : Lasts (PlaceAlike (C := C) bound) where
  later le place := by
    cases place with
    | name reads => exact .name reads
    | property target => exact .property (target.mono (C.pairing_le le))

namespace Sim

theorem evalKey {key : Expr} (sub : Interpreter.Alike C sub₁ sub₂) (st : C.At bound w s₁ s₂)
    (within : key.Within C.access bound) :
    C.Sim m C.Same w (EvalM.evalKey sub₁ key) (EvalM.evalKey sub₂ key) s₁ s₂ :=
  bind st (sub.expr st within) fun _ st value =>
    readHeap st.toAlike (st.heapAlike.text_eq value)

/-! ## Places -/

theorem readPlace {env : Environment} {place₁ place₂ : EvalM.Reference} (st : C.At bound w s₁ s₂)
    (place : PlaceAlike bound w env place₁ place₂) :
    C.Sim m C.Vals w (place₁.read C.left) (place₂.read C.right) s₁ s₂ := by
  cases place with
  | name reads => exact lookup st reads
  | property target => exact getProperty st.toAlike target

theorem writePlace {env : Environment} {place₁ place₂ : EvalM.Reference} (st : C.At bound w s₁ s₂)
    (writes : C.access.writes) (place : PlaceAlike bound w env place₁ place₂)
    (value : Value.Alike (C.pairing w) v₁ v₂) :
    C.Sim m C.Same w (place₁.write C.left v₁) (place₂.write C.right v₂) s₁ s₂ := by
  cases place with
  | name => exact assignName st value (.inr writes)
  | property target => exact setProperty st.toAlike target value

/-- What is written to is found first, as the same name or as the same key of corresponding containers. -/
theorem evalReference {e : Expr} (sub : Interpreter.Alike C sub₁ sub₂) (st : C.At bound w s₁ s₂)
    (within : e.Within C.access bound) :
    C.Sim m (PlaceAlike bound) w (EvalM.evalReference sub₁ e) (EvalM.evalReference sub₂ e) s₁ s₂ := by
  cases e with
  | name id => exact pure st.toAlike (.name within)
  | member object property optional =>
    cases optional with
    | true => exact fail st.toAlike nofun
    | false =>
      exact bind st (sub.expr st within) fun _ st target => pure st.toAlike (.property target)
  | index object key optional =>
    cases optional with
    | true => exact fail st.toAlike nofun
    | false =>
      unfold Expr.Within at within
      refine bind st (sub.expr st within.1) fun _ st target => ?_
      refine bind st (evalKey sub st within.2) fun le st key => ?_
      exact pure st.toAlike (key ▸ .property (target.mono (C.pairing_le le)))
  | _ => exact fail st.toAlike nofun

theorem applyBinary {u₁ u₂ : Value} (op : BinaryOp) (st : C.Alike w s₁ s₂)
    (left : Value.Alike (C.pairing w) v₁ v₂) (right : Value.Alike (C.pairing w) u₁ u₂) :
    C.Sim m C.Vals w (do EvalM.ofExcept (← EvalM.readHeap (·.applyBinary op v₁ u₁)))
      (do EvalM.ofExcept (← EvalM.readHeap (·.applyBinary op v₂ u₂))) s₁ s₂ :=
  readHeap_bind (ofExcept st ((C.alike st.heap).applyBinary left right op) fun h => h)

/-- The place is found first, and a compound operator reads it once before the value. A logical one may not reach its
value at all. -/
theorem evalAssign {target value : Expr} (sub : Interpreter.Alike C sub₁ sub₂) (op : AssignOp)
    (st : C.At bound w s₁ s₂) (writes : C.access.writes) (targetWithin : target.Within C.access bound)
    (valueWithin : value.Within C.access bound) :
    C.Sim m C.Vals w (EvalM.evalAssign C.left sub₁ op target value)
      (EvalM.evalAssign C.right sub₂ op target value) s₁ s₂ := by
  unfold EvalM.evalAssign
  refine bind st (evalReference sub st targetWithin) fun {w' t₁ t₂ place₁ place₂} _ st place => ?_
  -- The place was found before the value, in fewer pairs than there may be when it is written.
  have store : ∀ {w'' u₁ u₂ v₁ v₂}, w' ≤ w'' → C.At bound w'' u₁ u₂ →
      Value.Alike (C.pairing w'') v₁ v₂ →
      C.Sim m C.Vals w'' (do place₁.write C.left v₁; return v₁) (do place₂.write C.right v₂; return v₂)
        u₁ u₂ := by
    intro w'' u₁ u₂ v₁ v₂ le st value
    have later : PlaceAlike bound w'' t₁.env place₁ place₂ := lasts_place.later le place
    exact bind st (writePlace st writes later value) fun le st _ =>
      pure st.toAlike (value.mono (C.pairing_le le))
  have storeRight : ∀ {w'' u₁ u₂}, w' ≤ w'' → C.At bound w'' u₁ u₂ → C.Sim m C.Vals w''
      (do let v ← sub₁.expr value; place₁.write C.left v; return v)
      (do let v ← sub₂.expr value; place₂.write C.right v; return v) u₁ u₂ := fun le st =>
    bind st (sub.expr st valueWithin) fun le' st v => store (le_trans le le') st v
  cases op.binary? with
  | none => exact storeRight (le_refl _) st
  | some binary =>
    refine bind st (readPlace st place) fun le st current => ?_
    cases binary with
    -- Both sides read the same truth value, so both go on to the value or neither does.
    | and =>
      exact ite current.isTruthy_eq (fun _ => storeRight le st) fun _ => pure st.toAlike current
    | or =>
      exact ite current.isTruthy_eq (fun _ => pure st.toAlike current) fun _ => storeRight le st
    | nullish =>
      exact ite current.isNullish_eq (fun _ => storeRight le st) fun _ => pure st.toAlike current
    | _ =>
      refine bind st (sub.expr st valueWithin) fun le' st right => ?_
      apply readHeap_bind
      exact bind st (ofExcept st.toAlike (st.heapAlike.applyBinary (current.mono (C.pairing_le le'))
        right _) (Q := C.Vals) fun h => h) fun le'' st v =>
          store (le_trans le (le_trans le' le'')) st v

theorem evalUpdate {operand : Expr} (sub : Interpreter.Alike C sub₁ sub₂) (op : UpdateOp)
    (side : UpdateSide) (st : C.At bound w s₁ s₂) (writes : C.access.writes)
    (within : operand.Within C.access bound) :
    C.Sim m C.Vals w (EvalM.evalUpdate C.left sub₁ op side operand)
      (EvalM.evalUpdate C.right sub₂ op side operand) s₁ s₂ := by
  unfold EvalM.evalUpdate
  refine bind st (evalReference sub st within) fun {w' t₁ t₂ place₁ place₂} _ st place => ?_
  refine bind st (readPlace st place) fun {w'' _ _ _ _} le st current => ?_
  apply readHeap_bind
  rw [st.heapAlike.toNumber_eq current]
  have later : PlaceAlike bound w'' t₁.env place₁ place₂ := lasts_place.later le place
  refine bind st (writePlace st writes later (.number _)) fun _ st _ => ?_
  cases side <;> exact pure st.toAlike (.number _)

/-! ## Operators -/

theorem evalBinary {left right : Expr} (sub : Interpreter.Alike C sub₁ sub₂) (op : BinaryOp)
    (st : C.At bound w s₁ s₂) (leftWithin : left.Within C.access bound)
    (rightWithin : right.Within C.access bound) :
    C.Sim m C.Vals w (EvalM.evalBinary sub₁ op left right) (EvalM.evalBinary sub₂ op left right)
      s₁ s₂ := by
  unfold EvalM.evalBinary
  refine bind st (sub.expr st leftWithin) fun _ st a => ?_
  have next := sub.expr (m := m) st rightWithin
  cases op with
  | and => exact ite a.isTruthy_eq (fun _ => next) fun _ => pure st.toAlike a
  | or => exact ite a.isTruthy_eq (fun _ => pure st.toAlike a) fun _ => next
  | nullish => exact ite a.isNullish_eq (fun _ => next) fun _ => pure st.toAlike a
  | _ =>
    exact bind st next fun le st b => applyBinary _ st.toAlike (a.mono (C.pairing_le le)) b

/-- `typeof` reads a name that is not bound, where other expressions fail. -/
theorem evalTypeOperand {e : Expr} (sub : Interpreter.Alike C sub₁ sub₂) (st : C.At bound w s₁ s₂)
    (within : e.Within C.access bound) :
    C.Sim m C.Vals w (EvalM.evalTypeOperand C.left sub₁ e) (EvalM.evalTypeOperand C.right sub₂ e)
      s₁ s₂ := by
  cases e with
  | name =>
    refine bind st (attempt id (lookup (m := m) st within)) fun _ st tried => ?_
    have done := resume st.toAlike tried
    cases tried with
    | ok => exact done
    | error exit =>
      cases exit with
      | @error e₁ e₂ failure =>
        cases failure with
        | thrown => exact done
        | same =>
          cases e₁ with
          | undefinedVariable => exact pure st.toAlike .undefined
          | _ => exact done
      | _ => exact done
  | _ => exact sub.expr st within

/-- Names are not deleted. Operands that are no members are evaluated for their effects alone. -/
theorem evalDelete {e : Expr} (writes : C.access.writes) (sub : Interpreter.Alike C sub₁ sub₂)
    (st : C.At bound w s₁ s₂) (within : e.Within C.access bound) :
    C.Sim m C.Vals w (EvalM.evalDelete C.left sub₁ e) (EvalM.evalDelete C.right sub₂ e) s₁ s₂ := by
  have gone : ∀ {w' t₁ t₂ v₁ v₂ key}, C.At bound w' t₁ t₂ → Value.Alike (C.pairing w') v₁ v₂ →
      C.Sim m C.Vals w' (do return .bool (← EvalM.deleteProperty C.left v₁ key))
        (do return .bool (← EvalM.deleteProperty C.right v₂ key)) t₁ t₂ := fun st target =>
    bind st (deleteProperty writes st target) fun _ st gone => gone ▸ pure st.toAlike (.bool _)
  cases e with
  | member object property =>
    exact bind st (sub.expr st within) fun _ st target => gone st target
  | index object key =>
    unfold Expr.Within at within
    refine bind st (sub.expr st within.1) fun _ st target => ?_
    refine bind st (evalKey sub st within.2) fun le st key => ?_
    exact key ▸ gone st (target.mono (C.pairing_le le))
  | name => exact pure st.toAlike (.bool false)
  | _ =>
    exact bind st (discard st.toAlike (sub.expr st within)) fun _ st _ => pure st.toAlike (.bool true)

/-- Only `delete` takes its operand for a place. -/
theorem evalUnary {operand : Expr} (sub : Interpreter.Alike C sub₁ sub₂) {op : UnaryOp}
    (writes : op = .delete → C.access.writes) (st : C.At bound w s₁ s₂)
    (within : operand.Within C.access bound) :
    C.Sim m C.Vals w (EvalM.evalUnary C.left sub₁ op operand) (EvalM.evalUnary C.right sub₂ op operand)
      s₁ s₂ := by
  unfold EvalM.evalUnary
  have value := sub.expr (m := m) st within
  cases op with
  | typeof =>
    exact bind st (evalTypeOperand sub st within) fun _ st v =>
      pure st.toAlike (v.typeOf_eq ▸ .string _)
  | delete => exact evalDelete (writes rfl) sub st within
  | minus | plus =>
    exact bind st value fun _ st v => readNumber st.toAlike (by rw [st.heapAlike.toNumber_eq v])
  | not => exact bind st value fun _ st v => pure st.toAlike (v.isTruthy_eq ▸ .bool _)
  | bitNot =>
    refine bind st value fun _ st v => readHeap st.toAlike ?_
    rw [st.heapAlike.toInt32_eq v]
    exact .number _
  | void => exact bind st (discard st.toAlike value) fun _ st _ => pure st.toAlike .undefined

/-! ## Literals -/

/-- The parts are put together to one and the same text. -/
theorem evalTemplate {parts : List TemplatePart} (sub : Interpreter.Alike C sub₁ sub₂)
    (st : C.At bound w s₁ s₂) (within : TemplatePart.AllWithin C.access parts bound) :
    C.Sim m C.Vals w (EvalM.evalTemplate sub₁ parts) (EvalM.evalTemplate sub₂ parts) s₁ s₂ := by
  unfold EvalM.evalTemplate
  refine bind (Q := C.Same) st (foldlM rises_both st
    (both_of_forall (TemplatePart.allWithin_iff.1 within)) rfl
    fun {w' t₁ t₂ done₁ done₂ part₁ part₂} _ st done part => ?_) fun _ st text => ?_
  · obtain ⟨rfl, within⟩ := part
    cases done
    cases part₁ with
    | text s => exact pure st.toAlike rfl
    | hole e =>
      refine bind st (sub.expr st (within e rfl)) fun _ st value => ?_
      apply readHeap_bind
      rw [st.heapAlike.text_eq value]
      exact bind st (ofExcept st.toAlike (checkStringLength_alike _ _) (Q := C.Same) fun h => h)
        fun _ st _ => pure st.toAlike rfl
  · exact text ▸ pure st.toAlike (.string _)

/-- The properties are paired one by one, also those that are spread. -/
theorem evalObject {properties : List Property} (sub : Interpreter.Alike C sub₁ sub₂)
    (st : C.At bound w s₁ s₂) (within : Property.AllWithin C.access properties bound) :
    C.Sim m C.Vals w (EvalM.evalObject sub₁ properties) (EvalM.evalObject sub₂ properties) s₁ s₂ := by
  unfold EvalM.evalObject
  refine bind (Q := fun w _ => Entries.Alike (C.pairing w)) st (foldlM rises_both st
    (both_of_forall (Property.allWithin_iff.1 within)) .nil
    fun {w' t₁ t₂ done₁ done₂ property₁ property₂} _ st done property => ?_)
    fun _ st entries => newObject st.toAlike entries
  obtain ⟨rfl, within⟩ := property
  cases property₁ with
  | named key value =>
    exact bind st (evalNamed sub st within) fun le st v =>
      pure st.toAlike (Entries.Alike.insert (Entries.Alike.mono done (C.pairing_le le)) key v)
  | computed key value =>
    refine bind st (evalKey sub st within.1) fun {_ _ _ key₁ key₂} le st key => ?_
    cases key
    refine bind st (evalNamed sub st within.2) fun le' st v => pure st.toAlike ?_
    exact Entries.Alike.insert (Entries.Alike.mono done (C.pairing_le (le_trans le le'))) key₁ v
  | spread source =>
    refine bind st (sub.expr st within) fun le st v => ?_
    apply readHeap_bind
    exact pure st.toAlike (Entries.Alike.insertAll (Entries.Alike.mono done (C.pairing_le le))
      (st.heapAlike.entries v))

/-! ## Chains -/

theorem evalArgs {args : List Expr} (sub : Interpreter.Alike C sub₁ sub₂) (st : C.At bound w s₁ s₂)
    (within : Expr.AllWithin C.access args bound) :
    C.Sim m C.Lists w (EvalM.evalArgs sub₁ args) (EvalM.evalArgs sub₂ args) s₁ s₂ :=
  bind st (evalList sub st within) fun _ st values => pure st.toAlike values

/-- A value that a step gives is what a link of a chain gives. -/
theorem link {x₁ x₂ : EvalM Value} (st : C.At bound w s₁ s₂) (x : C.Sim m C.Vals w x₁ x₂ s₁ s₂) :
    C.Sim m C.OptVals w (do return some (← x₁)) (do return some (← x₂)) s₁ s₂ :=
  bind st x fun _ st v => pure st.toAlike (.some v)

/-- Both runs find a property that they can call, or a method of the same name, or neither of them. -/
theorem callProperty {args : List Expr} (sub : Interpreter.Alike C sub₁ sub₂) (callee : Expr)
    (key : String) (optional : Bool) (st : C.At bound w s₁ s₂)
    (receiver : Value.Alike (C.pairing w) v₁ v₂) (within : Expr.AllWithin C.access args bound) :
    C.Sim m C.OptVals w (EvalM.callProperty C.left sub₁ callee v₁ key args optional)
      (EvalM.callProperty C.right sub₂ callee v₂ key args optional) s₁ s₂ := by
  unfold EvalM.callProperty
  refine bind st (getProperty st.toAlike receiver) fun le st property => ?_
  refine ite property.isCallable_eq (fun _ => ?_) fun _ => ?_
  · refine bind st (evalArgs sub st within) fun le' st args => ?_
    exact link st (sub.call st (property.mono (C.pairing_le le')) args)
  refine ite property.isNullish_eq (fun _ => ?_) fun _ => fail st.toAlike nofun
  rw [receiver.findMethod_eq key]
  cases Method.find? v₂ key with
  | none => exact ite rfl (fun _ => pure st.toAlike .none) fun _ => fail st.toAlike nofun
  | some method =>
    refine bind st (evalArgs sub st within) fun le' st args => ?_
    exact link st (callMethod sub method st (receiver.mono (C.pairing_le (le_trans le le'))) args)

theorem evalTarget {object : Expr} (sub : Interpreter.Alike C sub₁ sub₂) (optional : Bool)
    (st : C.At bound w s₁ s₂) (within : object.Within C.access bound) :
    C.Sim m C.OptVals w (EvalM.evalTarget sub₁ object optional)
      (EvalM.evalTarget sub₂ object optional) s₁ s₂ := by
  unfold EvalM.evalTarget
  refine bind st (sub.chain st within) fun _ st target => ?_
  cases target with
  | none => exact pure st.toAlike .none
  | some v =>
    exact ite (congrArg (optional && ·) v.isNullish_eq) (fun _ => pure st.toAlike .none)
      fun _ => pure st.toAlike (.some v)

/-- What follows a target: nothing when there is none. -/
theorem afterTarget {object : Expr} {f₁ f₂ : Value → EvalM (Option Value)}
    (sub : Interpreter.Alike C sub₁ sub₂) (optional : Bool) (st : C.At bound w s₁ s₂)
    (within : object.Within C.access bound)
    (f : ∀ {w' t₁ t₂ v₁ v₂}, C.At bound w' t₁ t₂ → Value.Alike (C.pairing w') v₁ v₂ →
      C.Sim m C.OptVals w' (f₁ v₁) (f₂ v₂) t₁ t₂) :
    C.Sim m C.OptVals w
      (do match ← EvalM.evalTarget sub₁ object optional with
          | none => return none
          | some v => f₁ v)
      (do match ← EvalM.evalTarget sub₂ object optional with
          | none => return none
          | some v => f₂ v) s₁ s₂ :=
  bind st (evalTarget sub optional st within) fun _ st target => by
    cases target with
    | none => exact pure st.toAlike .none
    | some v => exact f st v

/-- The receiver is evaluated once, the arguments after it. The call itself is one of the steps that correspond by
assumption. -/
theorem evalCall {callee : Expr} {args : List Expr} (sub : Interpreter.Alike C sub₁ sub₂)
    (optional : Bool) (st : C.At bound w s₁ s₂) (calleeWithin : callee.Within C.access bound)
    (argsWithin : Expr.AllWithin C.access args bound) :
    C.Sim m C.OptVals w (EvalM.evalCall C.left sub₁ callee args optional)
      (EvalM.evalCall C.right sub₂ callee args optional) s₁ s₂ := by
  unfold EvalM.evalCall
  cases callee with
  | member object property optionalMember =>
    exact afterTarget sub optionalMember st calleeWithin fun st receiver =>
      callProperty sub _ property optional st receiver argsWithin
  | index object key optionalMember =>
    unfold Expr.Within at calleeWithin
    refine afterTarget sub optionalMember st calleeWithin.1 fun st receiver => ?_
    refine bind st (evalKey sub st calleeWithin.2) fun le st key => ?_
    exact key ▸ callProperty sub _ _ optional st (receiver.mono (C.pairing_le le)) argsWithin
  | _ =>
    refine afterTarget sub optional st calleeWithin fun st f => ?_
    refine ite f.isCallable_eq (fun _ => ?_) fun _ => fail st.toAlike nofun
    refine bind st (evalArgs sub st argsWithin) fun le st args => ?_
    exact link st (sub.call st (f.mono (C.pairing_le le)) args)

/-- A chain that is cut short in one run is cut short in the other. -/
theorem chainStep {e : Expr} (sub : Interpreter.Alike C sub₁ sub₂) (st : C.At bound w s₁ s₂)
    (within : e.Within C.access bound) :
    C.Sim m C.OptVals w (EvalM.chainStep C.left sub₁ e) (EvalM.chainStep C.right sub₂ e) s₁ s₂ := by
  cases e with
  | member object property optional =>
    exact afterTarget sub optional st within fun st target =>
      link st (getProperty st.toAlike target)
  | index object key optional =>
    unfold Expr.Within at within
    refine afterTarget sub optional st within.1 fun st target => ?_
    refine bind st (evalKey sub st within.2) fun le st key => ?_
    exact key ▸ link st (getProperty st.toAlike (target.mono (C.pairing_le le)))
  | call callee args optional =>
    unfold Expr.Within at within
    exact evalCall sub optional st within.1 within.2
  | _ => exact link st (sub.expr st within)

theorem evalChain {e : Expr} (sub : Interpreter.Alike C sub₁ sub₂) (st : C.At bound w s₁ s₂)
    (within : e.Within C.access bound) :
    C.Sim m C.Vals w (EvalM.evalChain C.left sub₁ e) (EvalM.evalChain C.right sub₂ e) s₁ s₂ :=
  bind st (chainStep sub st within) fun _ st v => pure st.toAlike (.getD v)

/-! ## All expressions -/

/-- One case for each form of expression. -/
theorem exprStep {e : Expr} (sub : Interpreter.Alike C sub₁ sub₂) (st : C.At bound w s₁ s₂)
    (within : e.Within C.access bound) :
    C.Sim m C.Vals w (EvalM.exprStep C.left sub₁ e) (EvalM.exprStep C.right sub₂ e) s₁ s₂ := by
  unfold EvalM.exprStep
  refine bind st (checkInterrupt st.toAlike) fun _ st _ => ?_
  cases e with
  | name id => exact lookup st within
  | literal l => exact pure st.toAlike (.ofLiteral _ l)
  | template parts => exact evalTemplate sub st within
  | unary op operand =>
    unfold Expr.Within at within
    exact evalUnary sub within.1 st within.2
  | update op side operand =>
    unfold Expr.Within at within
    exact evalUpdate sub op side st within.1 within.2
  | binary op left right =>
    unfold Expr.Within at within
    exact evalBinary sub op st within.1 within.2
  | conditional test consequent alternate =>
    unfold Expr.Within at within
    exact bind st (sub.expr st within.1) fun _ st v =>
      ite v.isTruthy_eq (fun _ => sub.expr st within.2.1) fun _ => sub.expr st within.2.2
  | sequence items =>
    refine foldlM rises_both st (both_of_forall (Expr.allWithin_iff.1 within)) .undefined
      fun _ st _ item => ?_
    obtain ⟨rfl, within⟩ := item
    exact sub.expr st within
  | array items =>
    exact bind st (evalList sub st within) fun _ st values => newArray st.toAlike values
  | object properties => exact evalObject sub st within
  | spread inner => exact typeFault _ st.toAlike
  | member | index | call => exact evalChain sub st within
  | assign op target value =>
    unfold Expr.Within at within
    exact evalAssign sub op st within.1 within.2.1 within.2.2
  | function definition => exact makeClosure none st.toAlike st.bound within

end Sim

end BindScript.Correspondence
