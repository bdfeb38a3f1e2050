import BindScript.Ast.Tree

/-!
Runtime values. Primitives are stored inline. Arrays, objects and closures live in the heap, and a
value holds their address: two values with one address see the same contents, and equality between
containers is equality of addresses.

A native function is named by what it computes. Each one that is created gets an identity of its own,
so that the functions of two sets of globals are told apart.

The functions that a host offers are a parameter of all this: whatever a host function does with values
is a program over the operations that values offer to it (`HostProgram`), and what such a program computes
in between is up to it. It may keep notes from one call to the next. What a host cannot do here is to call
back into an evaluation, to offer new functions on its way, to remove properties, to write past what a
container refuses, or to break down by itself.
-/

namespace BindScript

/-- How a name was bound. -/
inductive BindingKind
  | «let»
  /-- Refuses assignment. -/
  | const
  /-- Hoisted to the function body. -/
  | var
  /-- Parameters, caught values and loop variables. -/
  | param
  | function
  deriving DecidableEq, Repr

namespace BindingKind

/-- All kinds. -/
def all : List BindingKind :=
  [«let», const, var, param, function]

/-- Whether a binding of this kind may be assigned. -/
def isMutable (kind : BindingKind) : Bool :=
  kind != const

/-- The name of the kind. -/
def text : BindingKind → String
  | «let» => "let"
  | const => "const"
  | var => "var"
  | param => "param"
  | function => "function"

/-- The kind that a declaration keyword gives. -/
def ofDecl : DeclKind → BindingKind
  | .let => «let»
  | .const => const
  | .var => var

end BindingKind

/-- A name, the cell that holds its value, and how it was bound. -/
structure Binding where
  name : String
  cell : Nat
  kind : BindingKind
  deriving DecidableEq, Repr

/-- What a host gets to see of a value. -/
structure HostView where
  typeOf : String
  /-- The value itself, when it is a primitive one. -/
  literal? : Option Literal
  isArray : Bool
  isFrozen : Bool
  keys : List String
  text : String

/-- What a function of the host does. The values it holds are its arguments first, and all that it comes by
later is put behind them; a value is named by its position, and a position without one stands for
`undefined`. -/
inductive HostProgram
  /-- Gives one of the values. -/
  | answer (i : Nat)
  | fail (text : String)
  | look (i : Nat) (next : HostView → HostProgram)
  /-- Whether two of the values are the same one. -/
  | same (i j : Nat) (next : Bool → HostProgram)
  | hold (literal : Literal) (next : HostProgram)
  | get (i : Nat) (key : String) (next : HostProgram)
  | newArray (items : List Nat) (next : HostProgram)
  | newObject (entries : List (String × Nat)) (next : HostProgram)
  /-- Writes a property, and goes on with whether it was written. -/
  | set (i : Nat) (key : String) (j : Nat) (next : Bool → HostProgram)
  | freeze (i : Nat) (next : HostProgram)
  /-- Asks the running evaluation to stop. -/
  | interrupt (next : HostProgram)
  /-- Notes something down for later calls. -/
  | note (text : String) (next : HostProgram)
  /-- Reads all notes, the last one first. -/
  | readNotes (next : List String → HostProgram)

/-- A function that a host offers. What it does may depend on how many arguments it is given. -/
structure HostFn where
  name : String
  arity : Int
  body : Nat → HostProgram

/-- Functions that are not written in the language: the built-in ones, and those of a host. -/
inductive NativeFn
  | abs
  | ceil
  | floor
  | round
  | sqrt
  | sign
  | trunc
  | pow
  | min
  | max
  | stringify
  | parse
  | keys
  | values
  | entries
  | assign
  | freeze
  | isFrozen
  | isArray
  | number
  | string
  | boolean
  | parseInt
  | parseFloat
  | isNaN
  | log
  | host (fn : HostFn)

namespace NativeFn

/-- The name under which the function is known. -/
def name : NativeFn → String
  | abs => "abs"
  | ceil => "ceil"
  | floor => "floor"
  | round => "round"
  | sqrt => "sqrt"
  | sign => "sign"
  | trunc => "trunc"
  | pow => "pow"
  | min => "min"
  | max => "max"
  | stringify => "stringify"
  | parse => "parse"
  | keys => "keys"
  | values => "values"
  | entries => "entries"
  | assign => "assign"
  | freeze => "freeze"
  | isFrozen => "isFrozen"
  | isArray => "isArray"
  | number => "Number"
  | string => "String"
  | boolean => "Boolean"
  | parseInt => "parseInt"
  | parseFloat => "parseFloat"
  | isNaN => "isNaN"
  | log => "log"
  | host fn => fn.name

/-- How many arguments the function looks at; -1 for all of them. -/
def arity : NativeFn → Int
  | host fn => fn.arity
  | pow | parseInt => 2
  | stringify => 3
  | min | max | assign | log => -1
  | _ => 1

end NativeFn

/-- A runtime value. -/
inductive Value
  | undefined
  | null
  | bool (value : Bool)
  | number (value : Float)
  | string (value : String)
  | array (address : Nat)
  | object (address : Nat)
  | closure (address : Nat)
  | native (function : NativeFn) (identity : Nat)

instance : Inhabited Value := ⟨.undefined⟩

namespace Value

/-- A count as a number. -/
def count (n : Nat) : Value :=
  number (Float.ofNat n)

/-- One character as a string. -/
def char (c : Char) : Value :=
  string (String.singleton c)

/-- The value of a literal. -/
def ofLiteral : Literal → Value
  | .undefined => undefined
  | .null => null
  | .bool b => bool b
  | .number x => number x
  | .string s => string s

/-- The literal that stands for the value, when it is a primitive one. -/
def literal? : Value → Option Literal
  | undefined => some .undefined
  | null => some .null
  | bool b => some (.bool b)
  | number x => some (.number x)
  | string s => some (.string s)
  | _ => none

/-- What `typeof` answers. -/
def typeOf : Value → String
  | undefined => "undefined"
  | null | array _ | object _ => "object"
  | bool _ => "boolean"
  | number _ => "number"
  | string _ => "string"
  | closure _ | native .. => "function"

/-- Whether a condition takes the value for true. -/
def isTruthy : Value → Bool
  | undefined | null => false
  | bool b => b
  | number x => x != 0.0 && !x.isNaN
  | string s => !s.isEmpty
  | _ => true

/-- `undefined` and `null`. -/
def isNullish : Value → Bool
  | undefined | null => true
  | _ => false

/-- Arrays and objects. -/
def isContainer : Value → Bool
  | array _ | object _ => true
  | _ => false

/-- Arrays. -/
def isArray : Value → Bool
  | array _ => true
  | _ => false

/-- Functions, written in the language or not. -/
def isCallable : Value → Bool
  | closure _ | native .. => true
  | _ => false

/-- Whether the value is `undefined`. -/
def isUndefined : Value → Bool
  | undefined => true
  | _ => false

/-- Values that stand for nothing in JSON text: `undefined` and functions. -/
def isOmitted : Value → Bool
  | undefined | closure _ | native .. => true
  | _ => false

/-- The number, when the value is one. -/
def number? : Value → Option Float
  | number x => some x
  | _ => none

/-- The string, when the value is one. -/
def string? : Value → Option String
  | string s => some s
  | _ => none

/-- The boolean, when the value is one. -/
def bool? : Value → Option Bool
  | bool b => some b
  | _ => none

/-- The argument at a position; missing ones are `undefined`. -/
def argument (args : List Value) (i : Nat) : Value :=
  args.getD i undefined

end Value

end BindScript
