import BindScript.Evaluation.Basic
import BindScript.Evaluation.Method.Name
import BindScript.Text.Search
import BindScript.Text.CaseMap

/-!
The methods of strings. Positions count characters, and a search takes occurrences from the left without
overlap.
-/

namespace BindScript.EvalM

/-- A piece of a text, from one position to another. -/
def textBetween (cs : List Char) (start stop : Nat) : Value :=
  .string (String.ofList ((cs.take stop).drop start))

/-- The position that `substring` makes of an argument. -/
def clampedIndex (h : Heap) (v : Value) (length usual : Nat) : Nat :=
  if v.isUndefined then usual else min (Number.toSize (h.toNumber v)) length

/-- The character that `charAt` gives. -/
def charAtIndex (cs : List Char) (x : Float) : String :=
  let n := if x.isNaN then 0.0 else Number.truncate x
  if n < 0.0 then ""
  else match cs[Number.toSize n]? with
    | some c => String.singleton c
    | none => ""

/-- The pieces that `split` gives. -/
def splitText (h : Heap) (cs : List Char) (separator limit : Value) : List Value :=
  let pieces : List (List Char) :=
    if separator.isUndefined then [cs]
    else match (h.text separator).toList with
      | [] => cs.map fun c => [c]
      | pattern => Text.cutAll pattern cs
  let kept := if limit.isUndefined then pieces else pieces.take (h.toUInt32 limit).toNat
  kept.map fun piece => .string (String.ofList piece)

/-- What stands for an occurrence of a pattern: the replacement, or what it gives when it is called. -/
def replacementText (sub : Interpreter) (pattern : List Char) (text : String) (replacement : Value)
    (position : Nat) : EvalM String := do
  let value ←
    if replacement.isCallable then
      sub.call replacement [.string (String.ofList pattern), .count position, .string text]
    else pure replacement
  readHeap (·.text value)

/-- Joins pieces with what stands for each occurrence of the pattern between them. -/
def substitute (sub : Interpreter) (pattern : List Char) (text : String) (replacement : Value) :
    List (List Char) → EvalM Value
  | [] => return .string ""
  | first :: more => do
    let (_, done) ← more.foldlM (fun (position, done) piece => do
      let between ← replacementText sub pattern text replacement position
      return (position + pattern.length + piece.length, done ++ between ++ String.ofList piece))
      (first.length, String.ofList first)
    return .string done

/-- The padding that makes a text as long as asked for. -/
def padding (h : Heap) (text : String) (length fill : Value) : Except EvalError String := do
  let x := h.toNumber length
  let target := if x.isNaN then 0 else Number.toSize x
  let filler := if fill.isUndefined then " " else h.text fill
  let missing := target - text.length
  if missing = 0 || filler.isEmpty then return ""
  let widest := filler.toList.foldl (fun n c => max n c.utf8Size) 0
  checkStringLength (text.utf8ByteSize + missing * widest)
  return Text.filled filler missing

/-- A text repeated. -/
def repeatText (text : String) (x : Float) : Except EvalError String :=
  let count := if x.isNaN then 0.0 else Number.truncate x
  if count < 0.0 || !count.isFinite
      || Float.ofNat text.utf8ByteSize * count > Float.ofNat maxStringLength then
    throw (.range (.repeatCount (Number.format count)))
  else return Text.repeated text (Number.toSize count)

/-- Calls a method of a string. -/
def callStringMethod (sub : Interpreter) (text : String) (m : StringMethod) (args : List Value) :
    EvalM Value := do
  let cs := text.toList
  let first := Value.argument args 0
  let second := Value.argument args 1
  let pattern : EvalM (List Char) := readHeap fun h => (h.text first).toList
  match m with
  | .toUpperCase => return .string (Text.upper text)
  | .toLowerCase => return .string (Text.lower text)
  | .trim => return .string (String.ofList (Text.trim cs))
  | .trimStart => return .string (String.ofList (Text.trimLeft cs))
  | .trimEnd => return .string (String.ofList (Text.trimRight cs))
  | .toString => return .string text
  | .includes => return .bool (Text.containsText (← pattern) cs)
  | .startsWith => return .bool ((← pattern).isPrefixOf cs)
  | .endsWith => return .bool ((← pattern).isSuffixOf cs)
  | .indexOf => return .index (Text.indexOf? (← pattern) cs)
  | .charAt => readHeap fun h => .string (charAtIndex cs (h.toNumber first))
  | .slice =>
    readHeap fun h => textBetween cs (h.positionOf first cs.length 0)
      (h.positionOf second cs.length cs.length)
  -- unlike a slice, the part between two places does not depend on their order
  | .substring =>
    readHeap fun h =>
      let a := clampedIndex h first cs.length 0
      let b := clampedIndex h second cs.length cs.length
      textBetween cs (min a b) (max a b)
  | .split =>
    let pieces ← readHeap fun h => splitText h cs first second
    allocate (·.newArray pieces.toArray)
  | .replace =>
    let pattern ← pattern
    substitute sub pattern text second (Text.cutFirst pattern cs)
  | .replaceAll =>
    let pattern ← pattern
    substitute sub pattern text second (Text.cutAll pattern cs)
  | .padStart =>
    let pad ← ofExcept (← readHeap fun h => padding h text first second)
    return .string (pad ++ text)
  | .padEnd =>
    let pad ← ofExcept (← readHeap fun h => padding h text first second)
    return .string (text ++ pad)
  | .repeat =>
    let x ← readHeap (·.toNumber first)
    return .string (← ofExcept (repeatText text x))

end BindScript.EvalM
