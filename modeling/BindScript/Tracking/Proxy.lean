import BindScript.Value.Basic
import BindScript.Value.Json
import BindScript.Value.Property

/-!
Proxies for containers. Reading a container through a proxy gives a proxy for it, and every write through
a proxy is shown to an observer before it happens, with the path of the property.

While a proxy of a container is held, every read that yields the container gives that same proxy. A
tracker knows the proxies that are held and how often; one that nobody holds any more is not given out
again, and the next read of its container makes a new one, with the path of that read.

Reads find the proxies through a cache, where each stands under its container. The cache holds no proxy
by itself: what nobody holds any more stays in it as a dead entry, until another proxy for the container
takes its place or a sweep takes it out. Sweeps come when the cache has grown to twice of what the last
one left, or to `minSweep`.
-/

/-!
## Changes

Changes to tracked data: what an observer is told before a property is written or removed, and what may
keep the write from happening.
-/

namespace BindScript.Tracking

/-- What happens to the property. -/
inductive ChangeAction
  | set
  | unset
  deriving DecidableEq, Repr

/-- The name of the action. -/
def ChangeAction.text : ChangeAction → String
  | set => "set"
  | unset => "unset"

/-- Keys as one text. -/
def dotted (keys : List String) : String :=
  ".".intercalate keys

/-- A change that is about to happen. -/
structure Change where
  action : ChangeAction
  /-- The keys that lead to the property. -/
  path : List String
  /-- The container that is written. -/
  target : Value
  /-- The value before; none when the property did not exist. -/
  previous : Option Value
  /-- The value after; none when the property is removed. -/
  next : Option Value

/-- Looks at a change; a reason rejects it. What it says depends on the change alone, and it neither reads the heap
nor writes to it. -/
abbrev Observer := Change → Option String

/-- Why a write through a proxy does not happen. -/
inductive ProxyFault
  | rejected (path reason : String)
  | frozen (path : String)
  | lengthLimit (path : String)
  | invalidIndex (key path : String)
  deriving DecidableEq, Repr

/-- The wording of a fault. -/
def ProxyFault.message : ProxyFault → String
  | rejected path reason => "mutation of `" ++ path ++ "` rejected: " ++ reason
  | frozen path => "cannot modify frozen value at `" ++ path ++ "`"
  | lengthLimit path => "array length limit exceeded at `" ++ path ++ "`"
  | invalidIndex key path => "invalid array index `" ++ key ++ "` at `" ++ path ++ "`"

/-! ## The proxies -/

/-- A container with the path it was first read at. -/
structure Proxy where
  identity : Nat
  target : Value
  path : List String

/-- The smallest cache that is worth a sweep. -/
def minSweep : Nat :=
  64

/-- The proxies that are held, each with the number of its holders. -/
structure Tracker where
  held : List (Proxy × Nat) := []
  /-- The identity of the next proxy. -/
  next : Nat := 0
  /-- The last proxy of each container, whether it is still held or not. -/
  cache : List Proxy := []
  /-- The size of the cache at which it is swept. -/
  sweepAt : Nat := minSweep

/-- What a read gives: a proxy for a container that can change, anything else as it is. -/
inductive Tracked
  | proxy (proxy : Proxy)
  | value (value : Value)

/-- Containers that are not frozen are tracked. -/
def isTrackable (h : Heap) (v : Value) : Bool :=
  v.isContainer && !h.isFrozen v

namespace Tracker

/-- Whether somebody holds a proxy. -/
def isHeld (t : Tracker) (p : Proxy) : Bool :=
  t.held.any fun entry => entry.1.identity == p.identity

/-- The held proxy of a container. Dead entries of the cache are passed over. -/
def find? (t : Tracker) (v : Value) : Option Proxy :=
  (t.cache.find? fun p => p.target.strictEquals v).filter t.isHeld

/-- Takes the dead entries out of the cache, if it has grown to the size for it. -/
def sweep (t : Tracker) : Tracker :=
  if t.cache.length < t.sweepAt then t
  else
    let live := t.cache.filter t.isHeld
    { t with cache := live, sweepAt := max (2 * live.length) minSweep }

/-- Enters a proxy into the cache, in the place of an older one for its container. -/
def remember (t : Tracker) (p : Proxy) : Tracker :=
  let t := t.sweep
  { t with cache := t.cache.filter (fun q => !q.target.strictEquals p.target) ++ [p] }

/-- One more holder for a proxy. -/
def hold (t : Tracker) (p : Proxy) : Tracker :=
  { t with held := t.held.map fun (q, holders) =>
      if q.identity = p.identity then (q, holders + 1) else (q, holders) }

/-- One holder less for a proxy; without holders it is forgotten. -/
def release (t : Tracker) (p : Proxy) : Tracker :=
  { t with held := t.held.filterMap fun (q, holders) =>
      if q.identity ≠ p.identity then some (q, holders)
      else if holders ≤ 1 then none
      else some (q, holders - 1) }

/-- Tracks a value that was read at a path. The caller holds the proxy, if there is one. -/
def track (t : Tracker) (h : Heap) (v : Value) (path : List String) : Tracked × Tracker :=
  if isTrackable h v then
    match t.find? v with
    | some p => (.proxy p, t.hold p)
    | none =>
      let p : Proxy := { identity := t.next, target := v, path }
      (.proxy p, { t.remember p with held := t.held ++ [(p, 1)], next := t.next + 1 })
  else (.value v, t)

end Tracker

/-- How a call through a proxy ends without an answer. -/
inductive Halt
  /-- The call gives a fault. -/
  | fault (fault : ProxyFault)
  /-- The write clashes (`Heap.clashes`), and the call does not come back. -/
  | clash
  deriving DecidableEq, Repr

/-- What came of a write: what the observer was told, if anything, then the outcome and the heap. -/
structure Write (α : Type) where
  change : Option Change := none
  result : Except Halt α
  heap : Heap

/-- Whether writing a value leaves things as they are. An absent property reads as `undefined`, and
containers with the same JSON text count as the same. -/
def isUnchanged (h : Heap) (previous : Option Value) (next : Value) : Bool :=
  match previous with
  | none => next.isUndefined
  | some previous =>
    previous.strictEquals next ||
      (previous.isContainer && next.isContainer &&
        match h.json previous none, h.json next none with
        | .text a, .text b => a == b
        | _, _ => false)

/-- Shows a change to the observer and, unless it is rejected, makes it. -/
def announce {α : Type} (observer : Observer) (h : Heap) (change : Change)
    (make : Heap → Except Halt α × Heap) : Write α :=
  match observer change with
  | some reason =>
    { change := some change, result := .error (.fault (.rejected (dotted change.path) reason)), heap := h }
  | none =>
    let (result, heap) := make h
    { change := some change, result, heap }

namespace Proxy

/-- The path of a property. -/
def childPath (p : Proxy) (key : String) : List String :=
  p.path ++ [key]

/-- The path of a property as one text. -/
def dotPath (p : Proxy) (key : String) : String :=
  dotted (p.childPath key)

/-- The path of the container as one text. -/
def ownPath (p : Proxy) : String :=
  dotted p.path

/-- Reads a property. The caller holds the proxy, if there is one. -/
def get (p : Proxy) (t : Tracker) (h : Heap) (key : String) : Tracked × Tracker :=
  t.track h (h.get p.target key) (p.childPath key)

/-- Why the container takes no writes at a key. -/
def refusal? (p : Proxy) (h : Heap) (key : String) : Option ProxyFault :=
  if h.isFrozen p.target then some (.frozen (p.dotPath key))
  else if (p.target matches .array _) && key != "length" && (parseIndex? key).isNone then
    some (.invalidIndex key p.ownPath)
  else none

/-- Writes a property. Writing what is there already does nothing, and nobody is told. -/
def set (p : Proxy) (observer : Observer) (h : Heap) (key : String) (value : Value) : Write Unit :=
  match p.refusal? h key with
  | some fault => { result := .error (.fault fault), heap := h }
  | none =>
    if (p.target matches .array _) && h.exceedsLimit key value then
      { result := .error (.fault (.lengthLimit (p.dotPath key))), heap := h }
    else
      let previous := if h.has p.target key then some (h.get p.target key) else none
      if isUnchanged h previous value then { result := .ok (), heap := h }
      else
        let change : Change :=
          { action := .set, path := p.childPath key, target := p.target, previous, next := some value }
        announce observer h change fun h =>
          if h.clashes p.target key value then (.error .clash, h)
          else if h.canSet p.target key value then (.ok (), h.set p.target key value)
          else (.error (.fault (.frozen (p.dotPath key))), h)

/-- Removes a property. Tells whether there was one. -/
def delete (p : Proxy) (observer : Observer) (h : Heap) (key : String) : Write Bool :=
  match p.refusal? h key with
  | some fault => { result := .error (.fault fault), heap := h }
  | none =>
    if (p.target matches .array _) && key == "length" then
      { result := .error (.fault (.invalidIndex key p.ownPath)), heap := h }
    else if !h.has p.target key then { result := .ok false, heap := h }
    else
      let change : Change :=
        { action := .unset, path := p.childPath key, target := p.target
          previous := some (h.get p.target key), next := none }
      announce observer h change fun h =>
        if h.canRemove p.target key then (.ok true, h.remove p.target key) else (.ok false, h)

/-- Appends to an array: a write of the next index. -/
def push (p : Proxy) (observer : Observer) (h : Heap) (value : Value) : Write Unit :=
  match p.target with
  | .array a => p.set observer h (toString (h.items a).size) value
  | _ => { result := .error (.fault (.invalidIndex "push" p.ownPath)), heap := h }

end Proxy

/-- Starts tracking a value whose path is the given prefix. -/
def wrap (h : Heap) (target : Value) (pathPrefix : List String) : Tracked × Tracker :=
  ({} : Tracker).track h target pathPrefix

end BindScript.Tracking
