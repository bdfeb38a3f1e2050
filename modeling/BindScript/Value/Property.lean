import BindScript.Value.Convert

/-!
Properties of values. Objects have the properties they were given, arrays one for each index and
`length`, strings one for each character and `length`, and other values none.

Writing an array past its end fills the gap with `undefined`; writing `length` cuts or fills. No write
makes an array longer than `maxArrayLength`. Writes are split into the questions whether one comes to an
end at all (`clashes`) and whether it is allowed (`canSet`), and the write itself.
-/

namespace BindScript

/-- The length of the longest array. -/
def maxArrayLength : Nat := Nat.pow 2 22

/-- The length of the longest string, in bytes of its encoding. -/
def maxStringLength : Nat := Nat.pow 2 28

/-- The index that a key denotes: decimal digits without a leading zero, of at most 64 bits. -/
def parseIndex? (key : String) : Option Nat :=
  let cs := key.toList
  if cs.isEmpty || !cs.all Char.isDigit || (cs.head? == some '0' && cs.length != 1) then none
  else
    let n := Decimal.natOfDigits 0 cs
    if n < Nat.pow 2 64 then some n else none

/-- The number of code units of a string in the encoding of 16 bits. -/
def lengthUtf16 (s : String) : Nat :=
  s.foldl (fun n c => n + if c.toNat < 0x10000 then 1 else 2) 0

/-- The keys of the first items of a sequence. -/
def indexKeys (n : Nat) : List String :=
  (List.range n).map toString

namespace Heap

/-- Reads a property; missing ones are `undefined`. -/
def get (h : Heap) (v : Value) (key : String) : Value :=
  match v with
  | .object o => ((h.properties o).get? key).getD .undefined
  | .array a =>
    if key = "length" then .count (h.items a).size
    else match parseIndex? key with
      | some i => (h.items a).getD i .undefined
      | none => .undefined
  | .string s =>
    if key = "length" then .count (lengthUtf16 s)
    else match parseIndex? key with
      | some i => match s.toList[i]? with
        | some c => .char c
        | none => .undefined
      | none => .undefined
  | _ => .undefined

/-- Whether a container has a property. -/
def has (h : Heap) (v : Value) (key : String) : Bool :=
  match v with
  | .object o => (h.properties o).contains key
  | .array a => key == "length" || (parseIndex? key).any (· < (h.items a).size)
  | _ => false

/-- The keys that are visited, in order. -/
def keys (h : Heap) : Value → List String
  | .object o => (h.properties o).keys
  | .array a => indexKeys (h.items a).size
  | .string s => indexKeys s.length
  | _ => []

/-- Keys with what they read as. -/
def entries (h : Heap) (v : Value) : List (String × Value) :=
  match v with
  | .object o => h.properties o
  | .array a => (h.keys v).zip (h.items a).toList
  | .string s => (h.keys v).zip (s.toList.map Value.char)
  | _ => []

/-- Whether writing the key would make an array longer than arrays may be. -/
def exceedsLimit (h : Heap) (key : String) (value : Value) : Bool :=
  if key = "length" then h.toNumber value > Float.ofNat maxArrayLength
  else (parseIndex? key).any (maxArrayLength ≤ ·)

/-- Whether a number is the length of some array. -/
def isLength (x : Float) : Bool :=
  !(x < 0.0) && x.isFinite && Number.truncate x == x

/-- Whether an array that is not frozen takes a write. -/
def takesItem (h : Heap) (key : String) (value : Value) : Bool :=
  !h.exceedsLimit key value &&
    if key = "length" then isLength (h.toNumber value) else (parseIndex? key).isSome

/-- Whether a write has to read the array that it writes. An array that is given a length is held for
writing while the number of the value is found out, and a container is made a number by way of its text,
which takes in the items of the arrays inside. An array that is held for writing cannot be read: such a
write neither happens nor is refused, the program breaks down. A frozen array refuses before it asks. -/
def clashes (h : Heap) (target : Value) (key : String) (value : Value) : Bool :=
  match target with
  | .array a => !(h.arrayAt a).frozen && key == "length" && h.textReads a maxTextDepth value
  | _ => false

/-- Only a length is told by the number of a value. -/
theorem clashes_of_ne_length {h : Heap} {target value : Value} {key : String} (ne : key ≠ "length") :
    h.clashes target key value = false := by
  cases target with
  | array a => simp [clashes, ne]
  | _ => rfl

/-- Whether a container takes a write. -/
def canSet (h : Heap) (target : Value) (key : String) (value : Value) : Bool :=
  match target with
  | .array a => !(h.arrayAt a).frozen && h.takesItem key value
  | .object o => !(h.objectAt o).frozen
  | _ => false

/-- Cuts or fills a list of items to a length. -/
def resizeItems (items : Array Value) (n : Nat) : Array Value :=
  if n ≤ items.size then items.shrink n
  else items ++ Array.replicate (n - items.size) Value.undefined

theorem size_resizeItems (items : Array Value) (n : Nat) : (resizeItems items n).size = n := by
  unfold resizeItems
  split
  · simp only [Array.size_shrink]
    omega
  · simp only [Array.size_append, Array.size_replicate]
    omega

/-- Puts an item at an index, filling the gap before it. -/
def putItem (items : Array Value) (i : Nat) (value : Value) : Array Value :=
  if i < items.size then items.setIfInBounds i value
  else (resizeItems items i).push value

theorem size_putItem (items : Array Value) (i : Nat) (value : Value) :
    (putItem items i value).size = max items.size (i + 1) := by
  unfold putItem
  split
  · rw [Array.size_setIfInBounds]
    omega
  · rw [Array.size_push, size_resizeItems]
    omega

/-- Writes a property of a container; used where `canSet` allows it, and where the write does not clash
(`clashes`). -/
def set (h : Heap) (target : Value) (key : String) (value : Value) : Heap :=
  match target with
  | .array a =>
    if key = "length" then
      let n := Number.toSize (h.toNumber value)
      h.modifyItems a (resizeItems · n)
    else match parseIndex? key with
      | some i => h.modifyItems a (putItem · i value)
      | none => h
  | .object o => h.modifyProperties o (·.insert key value)
  | _ => h

/-- Whether a container has something to remove under a key and lets it go. Arrays keep the slot. -/
def canRemove (h : Heap) (target : Value) (key : String) : Bool :=
  match target with
  | .array a => !(h.arrayAt a).frozen && (parseIndex? key).any (· < (h.items a).size)
  | .object o => !(h.objectAt o).frozen && (h.properties o).contains key
  | _ => false

/-- Removes a property, where `canRemove` allows it: objects keep the order of the others, arrays keep
`undefined` in its place. -/
def remove (h : Heap) (target : Value) (key : String) : Heap :=
  match target with
  | .array a => match parseIndex? key with
    | some i => h.modifyItems a (·.setIfInBounds i .undefined)
    | none => h
  | .object o => h.modifyProperties o (·.erase key)
  | _ => h

end Heap

end BindScript
