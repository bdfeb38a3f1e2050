import BindScript.Evaluation.Method.Items
import BindScript.Evaluation.Method.Text

/-!
Calling built-in methods: those of arrays and strings are in modules of their own, those of numbers and
objects are here.
-/

namespace BindScript.EvalM

/-- Calls a method of a number. -/
def callNumberMethod (x : Float) (m : NumberMethod) (args : List Value) : EvalM Value := do
  let first := Value.argument args 0
  let n ← readHeap (·.toNumber first)
  match m with
  | .toFixed =>
    let places := if n.isNaN then 0.0 else Number.truncate n
    if !(0.0 ≤ places && places ≤ 100.0) then typeFault .fixedDigits
    else if !x.isFinite then return .string (Number.format x)
    else return .string (Decimal.fixed x (Number.toSize places))
  | .toString =>
    let radix := if first.isUndefined then 10 else Number.toSize n
    if radix < 2 || 36 < radix then typeFault .textRadix
    else return .string (Number.formatRadix x radix)

/-- Calls a built-in method. -/
def callMethod (sub : Interpreter) (receiver : Value) (m : Method) (args : List Value) :
    EvalM Value := do
  match m, receiver with
  | .array m, .array address => callArrayMethod sub address m args
  | .string m, .string text => callStringMethod sub text m args
  | .number m, .number x => callNumberMethod x m args
  | _, _ => readHeap fun h => .bool (h.has receiver (h.text (Value.argument args 0)))

end BindScript.EvalM
