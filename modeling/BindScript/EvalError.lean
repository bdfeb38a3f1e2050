import BindScript.Environment
import BindScript.JsonText.Document
import BindScript.ParseIssue
import BindScript.Value.Convert

/-!
Why an evaluation fails, and how each failure is worded. A failure is a value that says what went wrong;
only `EvalError.message` turns it into text.
-/

namespace BindScript

/-- Operations applied to a value of the wrong kind. Values in messages are kept as the text they had
when the operation failed. -/
inductive TypeFault
  | readOfNullish (target key : String)
  | writeOfNullish (target key : String)
  | deleteOfNullish (target key : String)
  | refusedWrite (key : String) (frozen : Bool)
  | readOnlyLocal (name : String)
  | localNotObject (name : String)
  | notIterable (value : String)
  | notDestructurable (value : String)
  | misplacedSpread
  | searchInPrimitive (key value : String)
  | frozenArray
  | emptyReduce
  | notCallback (value method : String)
  | fixedDigits
  | textRadix
  | assignTarget
  | readOnlyProperty (key : String)
  | jsonTooDeep
  | jsonText (error : JsonText.JsonError)
  | hostFailure (text : String)

/-- The wording of a type fault. -/
def TypeFault.message : TypeFault → String
  | readOfNullish target key =>
    "cannot read properties of " ++ target ++ " (reading '" ++ key ++ "')"
  | writeOfNullish target key =>
    "cannot set properties of " ++ target ++ " (setting '" ++ key ++ "')"
  | deleteOfNullish target key =>
    "cannot delete properties of " ++ target ++ " (deleting '" ++ key ++ "')"
  | refusedWrite key frozen =>
    "cannot assign to property '" ++ key ++ "' of " ++ (if frozen then "a frozen value" else "an array")
  | readOnlyLocal name =>
    "cannot assign to read only property '" ++ name ++ "' of the local context"
  | localNotObject name => "cannot assign to '" ++ name ++ "': the local context is not an object"
  | notIterable value => value ++ " is not iterable"
  | notDestructurable value => "cannot destructure " ++ value
  | misplacedSpread => "spread syntax is only valid in array literals, object literals and calls"
  | searchInPrimitive key value =>
    "cannot use 'in' operator to search for '" ++ key ++ "' in " ++ value
  | frozenArray => "cannot modify a frozen array"
  | emptyReduce => "reduce of empty array with no initial value"
  | notCallback value method => value ++ " is not a function (passed to " ++ method ++ ")"
  | fixedDigits => "toFixed() digits argument must be between 0 and 100"
  | textRadix => "toString() radix must be between 2 and 36"
  | assignTarget => "Object.assign target must be an object"
  | readOnlyProperty key => "cannot assign to read only property '" ++ key ++ "'"
  | jsonTooDeep => "value is too deeply nested or cyclic"
  | jsonText error => "JSON.parse: " ++ error.message
  | hostFailure text => text

/-- Lengths and counts outside of what is allowed. -/
inductive RangeFault
  | stringLength
  | arrayLength
  | repeatCount (count : String)
  deriving DecidableEq, Repr

/-- The wording of a range fault. -/
def RangeFault.message : RangeFault → String
  | stringLength => "invalid string length"
  | arrayLength => "invalid array length"
  | repeatCount count => "invalid count value: " ++ count

/-- Why an evaluation fails. -/
inductive EvalError
  /-- Found nowhere, in strict mode. -/
  | undefinedVariable (name : String)
  | type (fault : TypeFault)
  | range (fault : RangeFault)
  | notCallable (callee : String)
  | assignToConstant (name : String)
  | invalidTarget (kind : String)
  | stackOverflow (depth limit : Nat)
  | interrupted
  /-- Raised by `throw`. -/
  | thrown (value : Value)
  | breakOutsideLoop
  | continueOutsideLoop
  | parse (issue : ParseIssue)

/-- A jump to the end of a construct around it. -/
inductive Jump
  | brk
  | cont
  | ret (value : Value)

/-- How an evaluation ends without a value. -/
inductive Exit
  | error (error : EvalError)
  | jump (jump : Jump)
  /-- The steps granted to the evaluation did not suffice. -/
  | exhausted
  /-- A write had to read the array that it was writing (`Heap.clashes`). The program breaks down there:
  nothing handles this, and nothing is done any more on the way out. -/
  | clash

namespace EvalError

/-- What an environment refuses, as a failure of the evaluation. -/
def ofEnvironment : EnvironmentFault → EvalError
  | .undefinedVariable name => undefinedVariable name
  | .immutableBinding name => assignToConstant name
  | .stackOverflow depth limit => stackOverflow depth limit

/-- What a handler is told: the message without a leading word for its class. -/
def detail (h : Heap) : EvalError → String
  | undefinedVariable name => name ++ " is not defined"
  | type fault => fault.message
  | range fault => fault.message
  | notCallable callee => callee ++ " is not a function"
  | assignToConstant name => "assignment to constant variable `" ++ name ++ "`"
  | invalidTarget kind => "invalid assignment target: " ++ kind
  | stackOverflow depth limit => (EnvironmentFault.stackOverflow depth limit).message
  | interrupted => "evaluation interrupted"
  | thrown value => "Uncaught " ++ h.text value
  | breakOutsideLoop => "'break' outside of a loop or switch"
  | continueOutsideLoop => "'continue' outside of a loop"
  | parse issue => issue.text

/-- The wording of a failure. -/
def message (h : Heap) (e : EvalError) : String :=
  match e with
  | type _ | notCallable _ | assignToConstant _ => "TypeError: " ++ e.detail h
  | range _ => "RangeError: " ++ e.detail h
  | _ => e.detail h

/-- The name a handler sees. -/
def className : EvalError → String
  | undefinedVariable _ => "ReferenceError"
  | type _ | notCallable _ | assignToConstant _ => "TypeError"
  | range _ => "RangeError"
  | parse _ | invalidTarget _ => "SyntaxError"
  | _ => "Error"

/-- Whether `catch` handles the failure: not the call limit and not an interrupt. -/
def isCatchable : EvalError → Bool
  | stackOverflow .. | interrupted => false
  | _ => true

end EvalError

/-- A jump that left all constructs, as text. -/
def Jump.message (h : Heap) (j : Jump) : String :=
  "control flow outside of its construct: " ++ match j with
    | brk => "Break"
    | cont => "Continue"
    | ret v => "Return \x7b value: " ++ h.debugText v ++ " \x7d"

end BindScript
