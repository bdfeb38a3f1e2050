/-!
The operators of the language and how each is spelled. A compound assignment is named by the binary
operator it applies.
-/

namespace BindScript

/-- Operators in front of an operand that they do not write. -/
inductive UnaryOp
  | minus
  | plus
  | not
  | bitNot
  | typeof
  | delete
  | void
  deriving DecidableEq, Repr

/-- `++` and `--`. -/
inductive UpdateOp
  | increment
  | decrement
  deriving DecidableEq, Repr

/-- Which value an update expression has: the new one (`++x`) or the old one (`x++`). -/
inductive UpdateSide
  | before
  | after
  deriving DecidableEq, Repr

/-- Binary operators, the short-circuiting ones included. -/
inductive BinaryOp
  | add
  | sub
  | mul
  | div
  | rem
  | exp
  | eq
  | notEq
  | strictEq
  | strictNotEq
  | lt
  | ltEq
  | gt
  | gtEq
  | bitAnd
  | bitOr
  | bitXor
  | shl
  | shr
  | ushr
  | isIn
  | and
  | or
  | nullish
  deriving DecidableEq, Repr

/-- What an assignment does with the old value: nothing for `=`, else it applies a binary operator. The
operators that have an assignment form are the arithmetic, bitwise and short-circuiting ones. -/
inductive AssignOp
  | assign
  | add
  | sub
  | mul
  | div
  | rem
  | exp
  | bitAnd
  | bitOr
  | bitXor
  | shl
  | shr
  | ushr
  | and
  | or
  | nullish
  deriving DecidableEq, Repr

/-- Declaration keywords. -/
inductive DeclKind
  | «let»
  | const
  | var
  deriving DecidableEq, Repr

namespace UnaryOp

/-- The spelling of the operator. -/
def spelling : UnaryOp → String
  | minus => "-"
  | plus => "+"
  | not => "!"
  | bitNot => "~"
  | typeof => "typeof"
  | delete => "delete"
  | void => "void"

end UnaryOp

namespace UpdateOp

/-- The spelling of the operator. -/
def spelling : UpdateOp → String
  | increment => "++"
  | decrement => "--"

end UpdateOp

namespace BinaryOp

/-- All binary operators. -/
def all : List BinaryOp :=
  [add, sub, mul, div, rem, exp, eq, notEq, strictEq, strictNotEq, lt, ltEq, gt, gtEq, bitAnd, bitOr,
    bitXor, shl, shr, ushr, isIn, and, or, nullish]

/-- The spelling of the operator. -/
def spelling : BinaryOp → String
  | add => "+"
  | sub => "-"
  | mul => "*"
  | div => "/"
  | rem => "%"
  | exp => "**"
  | eq => "=="
  | notEq => "!="
  | strictEq => "==="
  | strictNotEq => "!=="
  | lt => "<"
  | ltEq => "<="
  | gt => ">"
  | gtEq => ">="
  | bitAnd => "&"
  | bitOr => "|"
  | bitXor => "^"
  | shl => "<<"
  | shr => ">>"
  | ushr => ">>>"
  | isIn => "in"
  | and => "&&"
  | or => "||"
  | nullish => "??"

/-- The operator with the given spelling. -/
def ofSpelling? (text : String) : Option BinaryOp :=
  all.find? (fun op => op.spelling == text)

/-- Whether the operator may leave its right operand unevaluated. -/
def isLogical : BinaryOp → Bool
  | and | or | nullish => true
  | _ => false

/-- How tightly the operator binds; higher binds tighter. -/
def precedence : BinaryOp → Nat
  | nullish => 1
  | or => 2
  | and => 3
  | bitOr => 4
  | bitXor => 5
  | bitAnd => 6
  | eq | notEq | strictEq | strictNotEq => 7
  | lt | ltEq | gt | gtEq | isIn => 8
  | shl | shr | ushr => 9
  | add | sub => 10
  | mul | div | rem => 11
  | exp => 12

/-- The loosest precedence the right operand may have: the same level for the right-associative `**`,
the next tighter one for all others. -/
def rightPrecedence (op : BinaryOp) : Nat :=
  if op = exp then op.precedence else op.precedence + 1

end BinaryOp

namespace AssignOp

/-- The binary operator that a compound assignment applies. -/
def binary? : AssignOp → Option BinaryOp
  | assign => none
  | add => some .add
  | sub => some .sub
  | mul => some .mul
  | div => some .div
  | rem => some .rem
  | exp => some .exp
  | bitAnd => some .bitAnd
  | bitOr => some .bitOr
  | bitXor => some .bitXor
  | shl => some .shl
  | shr => some .shr
  | ushr => some .ushr
  | and => some .and
  | or => some .or
  | nullish => some .nullish

/-- The spelling of the operator. -/
def spelling (op : AssignOp) : String :=
  match op.binary? with
  | none => "="
  | some binary => binary.spelling ++ "="

end AssignOp

namespace DeclKind

/-- The keyword. -/
def spelling : DeclKind → String
  | «let» => "let"
  | const => "const"
  | var => "var"

end DeclKind

end BindScript
