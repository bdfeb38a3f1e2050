import BindScript.JsonText.Document
import BindScript.Heap

/-!
Values as JSON text and back. Functions and `undefined` are left out of objects and become `null` in
arrays, and so do numbers that are not finite. Text nests at most `maxJsonDepth` values below the
outermost one; a value that goes deeper, and so every cyclic one, has no text.
-/

namespace BindScript

/-- How far values may nest in JSON text. -/
def maxJsonDepth : Nat := 256

/-- How JSON text is laid out: on one line, or one item a line with an indentation. -/
inductive JsonLayout
  | compact
  | indented (width : Nat)
  deriving DecidableEq, Repr

namespace JsonLayout

/-- The layout for an optional width: none and zero give one line, and ten columns are the widest. -/
def ofIndent : Option Nat → JsonLayout
  | none | some 0 => compact
  | some (n + 1) => indented (min (n + 1) 10)

/-- The start of a line at a level. -/
def line (layout : JsonLayout) (level : Nat) : String :=
  match layout with
  | compact => ""
  | indented width => "\n" ++ "".pushn ' ' (width * level)

/-- What separates a key from its value. -/
def colon : JsonLayout → String
  | compact => ":"
  | indented _ => ": "

/-- Items between brackets, at the level of the brackets. -/
def enclose (layout : JsonLayout) (level : Nat) (opening closing : String) (items : List String) :
    String :=
  if items.isEmpty then opening ++ closing
  else
    let start := layout.line (level + 1)
    opening ++ start ++ ("," ++ start).intercalate items ++ layout.line level ++ closing

end JsonLayout

namespace Heap

/-- The JSON text of a value at a level, with a number of levels left to go; none when they do not
suffice. -/
def jsonAt (h : Heap) (layout : JsonLayout) : Nat → Nat → Value → Option String
  | 0, _, _ => none
  | _ + 1, _, .undefined | _ + 1, _, .null | _ + 1, _, .closure _ | _ + 1, _, .native .. =>
    some "null"
  | _ + 1, _, .bool b => some (if b then "true" else "false")
  | _ + 1, _, .number x => some (JsonText.writeNumber x)
  | _ + 1, _, .string s => some (JsonText.quote s)
  | left + 1, level, .array a => do
    let items ← (h.items a).toList.mapM (h.jsonAt layout left (level + 1))
    return layout.enclose level "[" "]" items
  | left + 1, level, .object o => do
    let shown := (h.properties o).filter fun entry => !entry.2.isOmitted
    let items ← shown.mapM fun entry => do
      let value ← h.jsonAt layout left (level + 1) entry.2
      return JsonText.quote entry.1 ++ layout.colon ++ value
    return layout.enclose level "\x7b" "\x7d" items

/-- What becomes of a value that is to be written as JSON text. -/
inductive JsonResult
  | text (value : String)
  /-- Functions and `undefined` have no text. -/
  | omitted
  | tooDeep
  deriving DecidableEq, Repr

/-- The JSON text of a value. -/
def json (h : Heap) (v : Value) (indent : Option Nat) : JsonResult :=
  if v.isOmitted then .omitted
  else match h.jsonAt (.ofIndent indent) (maxJsonDepth + 1) 0 v with
    | some text => .text text
    | none => .tooDeep

end Heap

mutual

/-- Builds the value of a document, with new containers. -/
def Heap.ofDocument (h : Heap) : JsonText.Document → Value × Heap
  | .null => (.null, h)
  | .bool b => (.bool b, h)
  | .number n => (.number n.value, h)
  | .string s => (.string s, h)
  | .array items =>
    let (values, h) := Heap.ofDocuments h #[] items
    h.newArray values
  | .object members =>
    let (properties, h) := Heap.ofMembers h [] members
    h.newObject properties

/-- Builds the values of documents after those already built. -/
def Heap.ofDocuments (h : Heap) (done : Array Value) : List JsonText.Document → Array Value × Heap
  | [] => (done, h)
  | d :: rest =>
    let (v, h) := h.ofDocument d
    Heap.ofDocuments h (done.push v) rest

/-- Builds the values of members after those already built. -/
def Heap.ofMembers (h : Heap) (done : Entries Value) :
    List (String × JsonText.Document) → Entries Value × Heap
  | [] => (done, h)
  | (key, d) :: rest =>
    let (v, h) := h.ofDocument d
    Heap.ofMembers h (done.insert key v) rest

end

end BindScript
