import BindScript.Entries
import BindScript.Value.Basic

/-!
The heap: arrays, objects, closures, and the cells of variables, each in a table of its own and found
by its address. Nothing is ever taken out of the heap, so an address that was given out stays good.
Addresses that were never given out read as empty frozen containers and as `undefined`.

A write changes what it writes (`arrayAt_modifyArray_self`, `objectAt_modifyObject_self`,
`cellAt_setCell_self`) and nothing else (the lemmas that end in `of_ne`), and a new address differs from
all that were given out before (`arrayAt_newArray_of_ne` and the like).
-/

namespace BindScript

/-- The contents of an array. -/
structure ArrayData where
  items : Array Value := #[]
  /-- Frozen arrays refuse every write. -/
  frozen : Bool := false

/-- The contents of an object. -/
structure ObjectData where
  properties : Entries Value := []
  /-- Frozen objects refuse every write. -/
  frozen : Bool := false

/-- A function of the language together with the bindings that were visible where it was created. The
cells of those bindings are shared with the scope they come from. -/
structure Closure where
  /-- The declared name. -/
  name? : Option String
  definition : Function
  captured : Array Binding

/-- The contents of all addresses. -/
structure Heap where
  arrays : Array ArrayData := #[]
  objects : Array ObjectData := #[]
  closures : Array Closure := #[]
  cells : Array Value := #[]
  /-- The identity of the next native function. -/
  nextNative : Nat := 0

instance : Inhabited ArrayData := ⟨{ frozen := true }⟩
instance : Inhabited ObjectData := ⟨{ frozen := true }⟩
instance : Inhabited Closure := ⟨⟨none, .mk [] none (.block []), #[]⟩⟩
instance : Inhabited Heap := ⟨{}⟩

/-- The name of a closure for diagnostics. -/
def Closure.displayName (c : Closure) : String :=
  c.name?.getD "anonymous"

namespace Heap

/-- The array at an address. -/
def arrayAt (h : Heap) (address : Nat) : ArrayData :=
  h.arrays.getD address { frozen := true }

/-- The object at an address. -/
def objectAt (h : Heap) (address : Nat) : ObjectData :=
  h.objects.getD address { frozen := true }

/-- The closure at an address. -/
def closureAt (h : Heap) (address : Nat) : Closure :=
  h.closures.getD address default

/-- The value of a cell. -/
def cellAt (h : Heap) (cell : Nat) : Value :=
  h.cells.getD cell .undefined

/-- The items of the array at an address. -/
def items (h : Heap) (address : Nat) : Array Value :=
  (h.arrayAt address).items

/-- The properties of the object at an address. -/
def properties (h : Heap) (address : Nat) : Entries Value :=
  (h.objectAt address).properties

/-- A new array. -/
def newArray (h : Heap) (items : Array Value) : Value × Heap :=
  (.array h.arrays.size, { h with arrays := h.arrays.push { items } })

/-- A new object. -/
def newObject (h : Heap) (properties : Entries Value) : Value × Heap :=
  (.object h.objects.size, { h with objects := h.objects.push { properties } })

/-- A new closure. -/
def newClosure (h : Heap) (closure : Closure) : Value × Heap :=
  (.closure h.closures.size, { h with closures := h.closures.push closure })

/-- A new native function. -/
def newNative (h : Heap) (function : NativeFn) : Value × Heap :=
  (.native function h.nextNative, { h with nextNative := h.nextNative + 1 })

/-- A new cell. -/
def newCell (h : Heap) (value : Value) : Nat × Heap :=
  (h.cells.size, { h with cells := h.cells.push value })

/-- Changes the array at an address. -/
def modifyArray (h : Heap) (address : Nat) (change : ArrayData → ArrayData) : Heap :=
  { h with arrays := h.arrays.modify address change }

/-- Changes the items of the array at an address. -/
def modifyItems (h : Heap) (address : Nat) (change : Array Value → Array Value) : Heap :=
  h.modifyArray address fun a => { a with items := change a.items }

/-- Changes the object at an address. -/
def modifyObject (h : Heap) (address : Nat) (change : ObjectData → ObjectData) : Heap :=
  { h with objects := h.objects.modify address change }

/-- Changes the properties of the object at an address. -/
def modifyProperties (h : Heap) (address : Nat) (change : Entries Value → Entries Value) : Heap :=
  h.modifyObject address fun o => { o with properties := change o.properties }

/-- Writes a cell. -/
def setCell (h : Heap) (cell : Nat) (value : Value) : Heap :=
  { h with cells := h.cells.setIfInBounds cell value }

/-- Whether a value refuses writes; so do all primitives and functions. -/
def isFrozen (h : Heap) : Value → Bool
  | .array a => (h.arrayAt a).frozen
  | .object o => (h.objectAt o).frozen
  | _ => true

/-- The items of an array; none for other values. -/
def arrayItems? (h : Heap) : Value → Option (Array Value)
  | .array a => some (h.items a)
  | _ => none

/-- The values directly inside a container. -/
def children (h : Heap) : Value → List Value
  | .array a => (h.items a).toList
  | .object o => (h.properties o).map (fun entry => entry.2)
  | _ => []

/-! ## Reading after a change -/

theorem arrayAt_modifyArray_self {h : Heap} {a : Nat} (inside : a < h.arrays.size)
    (change : ArrayData → ArrayData) :
    (h.modifyArray a change).arrayAt a = change (h.arrayAt a) := by
  simp [modifyArray, arrayAt, inside, Array.getElem_modify_self]

theorem arrayAt_modifyArray_of_ne {h : Heap} {a b : Nat} (ne : b ≠ a)
    (change : ArrayData → ArrayData) : (h.modifyArray a change).arrayAt b = h.arrayAt b := by
  simp [modifyArray, arrayAt, Array.getD_eq_getD_getElem?, Array.getElem?_modify, Ne.symm ne]

theorem objectAt_modifyObject_self {h : Heap} {o : Nat} (inside : o < h.objects.size)
    (change : ObjectData → ObjectData) :
    (h.modifyObject o change).objectAt o = change (h.objectAt o) := by
  simp [modifyObject, objectAt, inside, Array.getElem_modify_self]

theorem objectAt_modifyObject_of_ne {h : Heap} {o p : Nat} (ne : p ≠ o)
    (change : ObjectData → ObjectData) : (h.modifyObject o change).objectAt p = h.objectAt p := by
  simp [modifyObject, objectAt, Array.getD_eq_getD_getElem?, Array.getElem?_modify, Ne.symm ne]

theorem objectAt_modifyArray (h : Heap) (a o : Nat) (change : ArrayData → ArrayData) :
    (h.modifyArray a change).objectAt o = h.objectAt o :=
  rfl

theorem arrayAt_modifyObject (h : Heap) (o a : Nat) (change : ObjectData → ObjectData) :
    (h.modifyObject o change).arrayAt a = h.arrayAt a :=
  rfl

theorem cellAt_setCell_self {h : Heap} {cell : Nat} (inside : cell < h.cells.size) (value : Value) :
    (h.setCell cell value).cellAt cell = value := by
  simp [setCell, cellAt, inside]

theorem cellAt_setCell_of_ne {h : Heap} {cell other : Nat} (ne : other ≠ cell) (value : Value) :
    (h.setCell cell value).cellAt other = h.cellAt other := by
  simp [setCell, cellAt, Array.getD_eq_getD_getElem?, Ne.symm ne]

theorem arrayAt_newArray_self (h : Heap) (items : Array Value) :
    (h.newArray items).2.arrayAt h.arrays.size = { items } := by
  simp [newArray, arrayAt]

theorem arrayAt_newArray_of_ne {h : Heap} {items : Array Value} {a : Nat} (ne : a ≠ h.arrays.size) :
    (h.newArray items).2.arrayAt a = h.arrayAt a := by
  simp [newArray, arrayAt, Array.getD_eq_getD_getElem?, Array.getElem?_push, ne]

theorem objectAt_newObject_self (h : Heap) (properties : Entries Value) :
    (h.newObject properties).2.objectAt h.objects.size = { properties } := by
  simp [newObject, objectAt]

theorem objectAt_newObject_of_ne {h : Heap} {properties : Entries Value} {o : Nat}
    (ne : o ≠ h.objects.size) : (h.newObject properties).2.objectAt o = h.objectAt o := by
  simp [newObject, objectAt, Array.getD_eq_getD_getElem?, Array.getElem?_push, ne]

theorem cellAt_newCell_self (h : Heap) (value : Value) :
    (h.newCell value).2.cellAt h.cells.size = value := by
  simp [newCell, cellAt]

theorem cellAt_newCell_of_ne {h : Heap} {value : Value} {cell : Nat} (ne : cell ≠ h.cells.size) :
    (h.newCell value).2.cellAt cell = h.cellAt cell := by
  simp [newCell, cellAt, Array.getD_eq_getD_getElem?, Array.getElem?_push, ne]

end Heap

end BindScript

/-!
## Freezing

Freezing a value: it and everything reachable from it refuses writes from then on. A container that is
frozen already is not entered again, so every step down freezes one more container, and as many steps
as there are containers suffice.
-/

namespace BindScript.Heap

/-- Marks a container as frozen. -/
def markFrozen (h : Heap) : Value → Heap
  | .array a => h.modifyArray a fun d => { d with frozen := true }
  | .object o => h.modifyObject o fun d => { d with frozen := true }
  | _ => h

/-- Freezes what is reachable within a number of steps. -/
def freezeWithin : Nat → Heap → Value → Heap
  | 0, h, _ => h
  | steps + 1, h, v =>
    if h.isFrozen v then h
    else
      let inside := h.children v
      inside.foldl (freezeWithin steps) (h.markFrozen v)

/-- Freezes a value and everything reachable from it. -/
def freeze (h : Heap) (v : Value) : Heap :=
  freezeWithin (h.arrays.size + h.objects.size + 1) h v

end BindScript.Heap
