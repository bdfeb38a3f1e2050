import BindScript.Dependency.Path
import BindScript.Evaluation.Declaration
import BindScript.Evaluation.Method

/-!
Evaluating expressions, one level at a time. A chain of member accesses and calls is evaluated link by
link: when an optional link meets `null` or `undefined`, the whole chain reads as `undefined`. The target
of an assignment is worked out before the right side.
-/

namespace BindScript.EvalM

/-- A place that can be written. -/
inductive Reference
  | name (id : String)
  | property (target : Value) (key : String)

namespace Reference

/-- The present value. -/
def read (ctx : Context) : Reference → EvalM Value
  | name id => lookup ctx id
  | property target key => getProperty ctx target key

/-- Writes a value. -/
def write (ctx : Context) (value : Value) : Reference → EvalM Unit
  | name id => assignName ctx id value
  | property target key => setProperty target key value

end Reference

/-- The value of a key expression, as a key. -/
def evalKey (sub : Interpreter) (key : Expr) : EvalM String := do
  let value ← sub.expr key
  readHeap (·.text value)

/-- Works out the target of an assignment. -/
def evalReference (sub : Interpreter) : Expr → EvalM Reference
  | .name id => return .name id
  | .member object property false => return .property (← sub.expr object) property
  | .index object key false => do
    let target ← sub.expr object
    return .property target (← evalKey sub key)
  | e => fail (.invalidTarget e.kindName)

/-- Evaluates an assignment. The short-circuiting ones evaluate and store the right side only where the
present value calls for it. -/
def evalAssign (ctx : Context) (sub : Interpreter) (op : AssignOp) (target value : Expr) :
    EvalM Value := do
  let place ← evalReference sub target
  let store (v : Value) : EvalM Value := do
    place.write ctx v
    return v
  match op.binary? with
  | none => store (← sub.expr value)
  | some binary =>
    let current ← place.read ctx
    match binary with
    | .and => if current.isTruthy then store (← sub.expr value) else return current
    | .or => if current.isTruthy then return current else store (← sub.expr value)
    | .nullish => if current.isNullish then store (← sub.expr value) else return current
    | _ =>
      let right ← sub.expr value
      store (← ofExcept (← readHeap (·.applyBinary binary current right)))

/-- Evaluates `++` and `--`. -/
def evalUpdate (ctx : Context) (sub : Interpreter) (op : UpdateOp) (side : UpdateSide)
    (operand : Expr) : EvalM Value := do
  let place ← evalReference sub operand
  let current ← place.read ctx
  let old ← readHeap (·.toNumber current)
  let new := match op with
    | .increment => old + 1.0
    | .decrement => old - 1.0
  place.write ctx (.number new)
  match side with
  | .before => return .number new
  | .after => return .number old

/-- Evaluates a binary operator. The short-circuiting ones skip the right side where the left one
decides. -/
def evalBinary (sub : Interpreter) (op : BinaryOp) (left right : Expr) : EvalM Value := do
  let a ← sub.expr left
  match op with
  | .and => if a.isTruthy then sub.expr right else return a
  | .or => if a.isTruthy then return a else sub.expr right
  | .nullish => if a.isNullish then sub.expr right else return a
  | _ =>
    let b ← sub.expr right
    ofExcept (← readHeap (·.applyBinary op a b))

/-- What `typeof` applies to: unknown names are no failure. -/
def evalTypeOperand (ctx : Context) (sub : Interpreter) : Expr → EvalM Value
  | .name id => do
    match ← attempt (lookup ctx id) with
    | .error (.error (.undefinedVariable _)) => return .undefined
    | result => resume result
  | e => sub.expr e

/-- Evaluates `delete`. -/
def evalDelete (ctx : Context) (sub : Interpreter) : Expr → EvalM Value
  | .member object property _ => do
    let target ← sub.expr object
    return .bool (← deleteProperty ctx target property)
  | .index object key _ => do
    let target ← sub.expr object
    return .bool (← deleteProperty ctx target (← evalKey sub key))
  | .name _ => return .bool false
  | e => do
    discard (sub.expr e)
    return .bool true

/-- Evaluates a unary operator. -/
def evalUnary (ctx : Context) (sub : Interpreter) (op : UnaryOp) (operand : Expr) : EvalM Value := do
  match op with
  | .typeof => return .string (← evalTypeOperand ctx sub operand).typeOf
  | .delete => evalDelete ctx sub operand
  | .minus =>
    let v ← sub.expr operand
    readHeap fun h => .number (-(h.toNumber v))
  | .plus =>
    let v ← sub.expr operand
    readHeap fun h => .number (h.toNumber v)
  | .not => return .bool !(← sub.expr operand).isTruthy
  | .bitNot =>
    let v ← sub.expr operand
    readHeap fun h => Heap.int32 (~~~(h.toInt32 v))
  | .void =>
    discard (sub.expr operand)
    return .undefined

/-- Evaluates a template: the values of the holes as strings, between the texts. -/
def evalTemplate (sub : Interpreter) (parts : List TemplatePart) : EvalM Value := do
  let text ← parts.foldlM (fun done part => do
    match part with
    | .text s => return done ++ s
    | .hole e =>
      let value ← sub.expr e
      let piece ← readHeap (·.text value)
      ofExcept (checkStringLength (done.utf8ByteSize + piece.utf8ByteSize))
      return done ++ piece) ""
  return .string text

/-- Evaluates an object literal. A key that is written again keeps its first place. -/
def evalObject (sub : Interpreter) (properties : List Property) : EvalM Value := do
  let entries ← properties.foldlM (fun (done : Entries Value) property => do
    match property with
    | .named key value => return done.insert key (← evalNamed sub key value)
    | .computed key value =>
      let key ← evalKey sub key
      return done.insert key (← evalNamed sub key value)
    | .spread source =>
      let source ← sub.expr source
      return done.insertAll (← readHeap (·.entries source))) []
  allocate (·.newObject entries)

/-- The failure of a call of something else than a function, named by its path. -/
def notCallable (callee : Expr) : EvalError :=
  .notCallable <| match Dependency.fold? (fun _ => false) callee with
    | some path => path.text
    | none => callee.kindName

/-- Evaluates arguments. -/
def evalArgs (sub : Interpreter) (args : List Expr) : EvalM (List Value) := do
  return (← evalList sub args).toList

/-- Calls a property of a receiver. Its own properties win over built-in methods. -/
def callProperty (ctx : Context) (sub : Interpreter) (callee : Expr) (receiver : Value) (key : String)
    (args : List Expr) (optional : Bool) : EvalM (Option Value) := do
  let property ← getProperty ctx receiver key
  if property.isCallable then
    return some (← sub.call property (← evalArgs sub args))
  else if property.isNullish then
    match Method.find? receiver key with
    | some m => return some (← callMethod sub receiver m (← evalArgs sub args))
    | none => if optional then return none else fail (notCallable callee)
  else fail (notCallable callee)

/-- The object of a link; none when the link is optional and there is nothing. -/
def evalTarget (sub : Interpreter) (object : Expr) (optional : Bool) : EvalM (Option Value) := do
  match ← sub.chain object with
  | none => return none
  | some target => if optional && target.isNullish then return none else return some target

/-- Evaluates a call. -/
def evalCall (ctx : Context) (sub : Interpreter) (callee : Expr) (args : List Expr) (optional : Bool) :
    EvalM (Option Value) := do
  match callee with
  | .member object property optionalMember =>
    match ← evalTarget sub object optionalMember with
    | none => return none
    | some receiver => callProperty ctx sub callee receiver property args optional
  | .index object key optionalMember =>
    match ← evalTarget sub object optionalMember with
    | none => return none
    | some receiver => callProperty ctx sub callee receiver (← evalKey sub key) args optional
  | _ =>
    match ← evalTarget sub callee optional with
    | none => return none
    | some f =>
      if f.isCallable then return some (← sub.call f (← evalArgs sub args))
      else fail (notCallable callee)

/-- Evaluates a link of a chain; none when an optional link met nothing. -/
def chainStep (ctx : Context) (sub : Interpreter) : Expr → EvalM (Option Value)
  | .member object property optional => do
    match ← evalTarget sub object optional with
    | none => return none
    | some target => return some (← getProperty ctx target property)
  | .index object key optional => do
    match ← evalTarget sub object optional with
    | none => return none
    | some target => return some (← getProperty ctx target (← evalKey sub key))
  | .call callee args optional => evalCall ctx sub callee args optional
  | e => return some (← sub.expr e)

/-- The value of a whole chain. -/
def evalChain (ctx : Context) (sub : Interpreter) (e : Expr) : EvalM Value := do
  return (← chainStep ctx sub e).getD .undefined

/-- Evaluates an expression. -/
def exprStep (ctx : Context) (sub : Interpreter) (e : Expr) : EvalM Value := do
  checkInterrupt
  match e with
  | .name id => lookup ctx id
  | .literal l => return .ofLiteral l
  | .template parts => evalTemplate sub parts
  | .unary op operand => evalUnary ctx sub op operand
  | .update op side operand => evalUpdate ctx sub op side operand
  | .binary op left right => evalBinary sub op left right
  | .conditional test consequent alternate =>
    if (← sub.expr test).isTruthy then sub.expr consequent else sub.expr alternate
  | .sequence items => items.foldlM (fun _ item => sub.expr item) .undefined
  | .array items =>
    let values ← evalList sub items
    allocate (·.newArray values)
  | .object properties => evalObject sub properties
  | .spread _ => typeFault .misplacedSpread
  | .member .. | .index .. | .call .. => evalChain ctx sub e
  | .assign op target value => evalAssign ctx sub op target value
  | .function definition => makeClosure none definition

end BindScript.EvalM
