import BindScript.Heap

/-!
The built-in globals. Every set of them has containers and functions of its own.
-/

namespace BindScript

/-- What a global is made of. -/
inductive GlobalValue
  | number (value : Float)
  | function (fn : NativeFn)
  | object (members : List (String × GlobalValue))

namespace GlobalValue

/-- Entries of functions under their own names. -/
def functions (fns : List NativeFn) : List (String × GlobalValue) :=
  fns.map fun f => (f.name, function f)

/-- The ratio of the circumference of a circle to its diameter. -/
def pi : Float := 3.141592653589793

/-- The base of the natural logarithm. -/
def e : Float := 2.718281828459045

/-- All globals in order. -/
def all : List (String × GlobalValue) :=
  [("Math", object ([("PI", number pi), ("E", number e)] ++ functions
      [.abs, .ceil, .floor, .round, .sqrt, .sign, .trunc, .pow, .min, .max])),
    ("JSON", object (functions [.stringify, .parse])),
    ("Object", object (functions [.keys, .values, .entries, .assign, .freeze, .isFrozen])),
    ("Array", object (functions [.isArray])),
    ("Number", function .number),
    ("String", function .string),
    ("Boolean", function .boolean),
    ("parseInt", function .parseInt),
    ("parseFloat", function .parseFloat),
    ("isNaN", function .isNaN),
    ("console", object (functions [.log]))]

mutual

/-- Builds a global. -/
def build : GlobalValue → Heap → Value × Heap
  | number x, h => (.number x, h)
  | function f, h => h.newNative f
  | object members, h =>
    let (properties, h) := buildAll members h
    h.newObject properties

/-- Builds named globals in order. -/
def buildAll : List (String × GlobalValue) → Heap → Entries Value × Heap
  | [], h => ([], h)
  | (name, g) :: rest, h =>
    let (v, h) := g.build h
    let (more, h) := buildAll rest h
    ((name, v) :: more, h)

end

end GlobalValue

/-- The names of the globals. -/
def globalNames : List String :=
  GlobalValue.all.map (fun entry => entry.1)

/-- Whether a name is that of a global. -/
def isGlobalName (name : String) : Bool :=
  globalNames.contains name

/-- Builds a set of globals. -/
def Heap.newGlobals (h : Heap) : Entries Value × Heap :=
  GlobalValue.buildAll GlobalValue.all h

end BindScript
