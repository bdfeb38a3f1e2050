import BindScript.Proofs.Composed.Basic
import BindScript.Evaluation.Expression

/-!
# Expressions are composed steps

Each kind of expression, and each link of a chain, is composed of its parts. Expressions run no statements, so this
does not depend on what has been hoisted.
-/

namespace BindScript.Composed

variable {ctx : Context} {bound : List String}

theorem evalKey (key : Expr) : Composed ctx bound fun sub => EvalM.evalKey sub key :=
  bind (expr key) fun _ => readHeap _

/-! ### Places -/

/-- A place is found by evaluating what stands in front of the last link. -/
theorem evalReference (e : Expr) : Composed ctx bound fun sub => EvalM.evalReference sub e := by
  cases e with
  | name id => exact pure _
  | member object property optional =>
    cases optional with
    | true => exact fail _
    | false => exact bind (expr object) fun target => pure _
  | index object key optional =>
    cases optional with
    | true => exact fail _
    | false => exact bind (expr object) fun target => bind (evalKey key) fun key => pure _
  | _ => exact fail _

theorem readPlace (place : EvalM.Reference) : Composed ctx bound fun _ => place.read ctx := by
  cases place with
  | name id => exact lookup id
  | property target key => exact built (.getProperty ctx target key)

theorem writePlace (place : EvalM.Reference) (v : Value) : Composed ctx bound fun _ => place.write ctx v := by
  cases place with
  | name id => exact assignName id v
  | property target key => exact setProperty target key v

/-- A logical assignment may end before its value is evaluated. -/
theorem evalAssign (op : AssignOp) (target value : Expr) :
    Composed ctx bound fun sub => EvalM.evalAssign ctx sub op target value := by
  unfold EvalM.evalAssign
  refine bind (evalReference target) fun place => ?_
  have store : ∀ v, Composed ctx bound fun _ => (do place.write ctx v; return v) :=
    fun v => bind (writePlace place v) fun _ => pure v
  have storeRight : Composed ctx bound fun sub => (do let v ← sub.expr value; place.write ctx v; return v) :=
    bind (expr value) store
  cases op.binary? with
  | none => exact storeRight
  | some binary =>
    refine bind (readPlace place) fun current => ?_
    cases binary with
    | and | nullish => exact ite storeRight (pure current)
    | or => exact ite (pure current) storeRight
    | _ => exact bind (expr value) fun right => reading fun result => bind (ofExcept result) store

theorem evalUpdate (op : UpdateOp) (side : UpdateSide) (operand : Expr) :
    Composed ctx bound fun sub => EvalM.evalUpdate ctx sub op side operand := by
  unfold EvalM.evalUpdate
  refine bind (evalReference operand) fun place => bind (readPlace place) fun current => ?_
  refine reading fun old => bind (writePlace place _) fun _ => ?_
  cases side <;> exact pure _

/-! ### Operators -/

theorem evalBinary (op : BinaryOp) (left right : Expr) :
    Composed ctx bound fun sub => EvalM.evalBinary sub op left right := by
  unfold EvalM.evalBinary
  refine bind (expr left) fun a => ?_
  cases op with
  | and | nullish => exact ite (expr right) (pure a)
  | or => exact ite (pure a) (expr right)
  | _ => exact bind (expr right) fun b => reading fun result => ofExcept result

theorem evalTypeOperand (e : Expr) : Composed ctx bound fun sub => EvalM.evalTypeOperand ctx sub e := by
  cases e with
  | name id =>
    unfold EvalM.evalTypeOperand
    refine bind (attempt (lookup id)) fun result => ?_
    split
    · exact pure _
    · exact resume result
  | _ => exact expr _

theorem evalDelete (e : Expr) : Composed ctx bound fun sub => EvalM.evalDelete ctx sub e := by
  have gone : ∀ target key, Composed ctx bound fun _ =>
      (do return Value.bool (← EvalM.deleteProperty ctx target key)) :=
    fun target key => bind (built (.deleteProperty ctx target key)) fun _ => pure _
  cases e with
  | member object property optional => exact bind (expr object) fun target => gone target _
  | index object key optional =>
    exact bind (expr object) fun target => bind (evalKey key) fun key => gone target key
  | name => exact pure _
  | _ => exact bind (discard (expr _)) fun _ => pure _

theorem evalUnary (op : UnaryOp) (operand : Expr) :
    Composed ctx bound fun sub => EvalM.evalUnary ctx sub op operand := by
  unfold EvalM.evalUnary
  cases op with
  | typeof => exact bind (evalTypeOperand operand) fun v => pure _
  | delete => exact evalDelete operand
  | minus | plus | bitNot => exact bind (expr operand) fun v => readHeap _
  | not => exact bind (expr operand) fun v => pure _
  | void => exact bind (discard (expr operand)) fun _ => pure _

/-! ### Literals -/

theorem evalList (items : List Expr) : Composed ctx bound fun sub => EvalM.evalList sub items := by
  refine foldlM (fun item _ done => ?_) #[]
  cases item with
  | spread inner =>
    exact bind (expr inner) fun v => bind (built (.iterate v)) fun values => bind (ofExcept _) fun _ => pure _
  | _ => exact bind (expr _) fun v => pure _

theorem evalArgs (args : List Expr) : Composed ctx bound fun sub => EvalM.evalArgs sub args :=
  bind (evalList args) fun _ => pure _

theorem evalTemplate (parts : List TemplatePart) : Composed ctx bound fun sub => EvalM.evalTemplate sub parts := by
  refine bind (foldlM (fun part _ done => ?_) "") fun text => pure _
  cases part with
  | text s => exact pure _
  | hole e => exact bind (expr e) fun value => reading fun piece => bind (ofExcept _) fun _ => pure _

theorem evalObject (properties : List Property) : Composed ctx bound fun sub => EvalM.evalObject sub properties := by
  refine bind (foldlM (fun property _ done => ?_) []) fun entries => built (.newObject _)
  cases property with
  | named key value => exact bind (evalNamed key value) fun v => pure _
  | computed key value => exact bind (evalKey key) fun key => bind (evalNamed key value) fun v => pure _
  | spread source => exact bind (expr source) fun v => reading fun found => pure _

/-! ### Chains -/

theorem callProperty (callee : Expr) (receiver : Value) (key : String) (args : List Expr) (optional : Bool) :
    Composed ctx bound fun sub => EvalM.callProperty ctx sub callee receiver key args optional := by
  unfold EvalM.callProperty
  refine bind (built (.getProperty ctx receiver key)) fun property => ite ?own (ite ?built (fail _))
  case own => exact bind (evalArgs args) fun values => bind (call property values) fun v => pure _
  case built =>
    cases Method.find? receiver key with
    | none => exact ite (pure none) (fail _)
    | some m => exact bind (evalArgs args) fun values => bind (built (.callMethod receiver m values)) fun v => pure _

theorem evalTarget (object : Expr) (optional : Bool) :
    Composed ctx bound fun sub => EvalM.evalTarget sub object optional := by
  unfold EvalM.evalTarget
  refine bind (chain object) fun target => ?_
  cases target with
  | none => exact pure none
  | some v => exact ite (pure none) (pure _)

/-- A call evaluates what is called before the arguments. -/
theorem evalCall (callee : Expr) (args : List Expr) (optional : Bool) :
    Composed ctx bound fun sub => EvalM.evalCall ctx sub callee args optional := by
  unfold EvalM.evalCall
  cases callee with
  | member object property optionalMember =>
    refine bind (evalTarget object optionalMember) fun target => ?_
    cases target with
    | none => exact pure none
    | some receiver => exact callProperty _ receiver property args optional
  | index object key optionalMember =>
    refine bind (evalTarget object optionalMember) fun target => ?_
    cases target with
    | none => exact pure none
    | some receiver => exact bind (evalKey key) fun key => callProperty _ receiver key args optional
  | _ =>
    refine bind (evalTarget _ optional) fun target => ?_
    cases target with
    | none => exact pure none
    | some f => exact ite (bind (evalArgs args) fun values => bind (call f values) fun v => pure _) (fail _)

/-- Links are composed of the chains below them. -/
theorem chainStep (e : Expr) : Composed ctx bound fun sub => EvalM.chainStep ctx sub e := by
  cases e with
  | member object property optional =>
    refine bind (evalTarget object optional) fun target => ?_
    cases target with
    | none => exact pure none
    | some target => exact bind (built (.getProperty ctx target property)) fun v => pure _
  | index object key optional =>
    refine bind (evalTarget object optional) fun target => ?_
    cases target with
    | none => exact pure none
    | some target => exact bind (evalKey key) fun key => bind (built (.getProperty ctx target key)) fun v => pure _
  | call callee args optional => exact evalCall callee args optional
  | _ => exact bind (expr _) fun v => pure _

/-- All expressions are composed of their parts. -/
theorem exprStep (e : Expr) : Composed ctx bound fun sub => EvalM.exprStep ctx sub e := by
  unfold EvalM.exprStep
  refine bind checkInterrupt fun _ => ?_
  cases e with
  | name id => exact lookup id
  | literal l => exact pure _
  | template parts => exact evalTemplate parts
  | unary op operand => exact evalUnary op operand
  | update op side operand => exact evalUpdate op side operand
  | binary op left right => exact evalBinary op left right
  | conditional test consequent alternate => exact bind (expr test) fun _ => ite (expr consequent) (expr alternate)
  | sequence items => exact foldlM (fun item _ _ => expr item) _
  | array items => exact bind (evalList items) fun values => newArray _
  | object properties => exact evalObject properties
  | spread inner => exact typeFault _
  | member | index | call => exact bind (chainStep _) fun v => pure _
  | assign op target value => exact evalAssign op target value
  | function definition => exact makeClosure none definition

end BindScript.Composed
