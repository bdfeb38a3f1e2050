import BindScript.Proofs.Tracking.Announced

/-!
# Calls that fail leave everything as it was

A call that writes, carried out step by step (`Call`): it reads the heap and changes it as it goes, and on the way it
shows the change to a listener. A listener does not write to the data. It looks at the heap as it is at that moment, and
remembers of it what it likes (`Listener`).

A call carried out in this way ends as the write does that goes by the answer which the listener gives before the call
(`Proxy.setIn_eq`, `Proxy.deleteIn_eq`, `Proxy.pushIn_eq`). So it is asked once at most, before anything has changed,
and where the call fails nothing changes after that (`failed_call_keeps`).
-/

namespace BindScript.Tracking

/-- The data, and what a listener remembers. -/
structure Scene (σ : Type) where
  heap : Heap
  memory : σ

/-- An observer that looks at the data when it is told of a change. It answers, and remembers something. -/
abbrev Listener (σ : Type) :=
  Change → Scene σ → Option String × σ

/-- A call that may fail, step by step. What it has changed before it fails stays changed. -/
abbrev Call (σ α : Type) :=
  EStateM Halt (Scene σ) α

variable {σ α : Type}

namespace Call

/-- Reads the heap as it is. -/
def readHeap (f : Heap → α) : Call σ α :=
  fun scene => .ok (f scene.heap) scene

/-- Changes the heap. -/
def modifyHeap (f : Heap → Heap) : Call σ Unit :=
  fun scene => .ok () { scene with heap := f scene.heap }

/-- Shows a change to the listener. -/
def notify (listener : Listener σ) (change : Change) : Call σ Unit := fun scene =>
  match listener change scene with
  | (some reason, memory) => .error (.fault (.rejected (dotted change.path) reason)) { scene with memory }
  | (none, memory) => .ok () { scene with memory }

end Call

open Call

namespace Proxy

/-- Ends unless the container takes writes at a key. -/
def checkWritable (p : Proxy) (key : String) : Call σ Unit := do
  match ← readHeap (p.refusal? · key) with
  | some fault => throw (.fault fault)
  | none => return

/-- Writes a property, step by step. -/
def setIn (p : Proxy) (listener : Listener σ) (key : String) (value : Value) : Call σ Unit := do
  p.checkWritable key
  if (p.target matches .array _) && (← readHeap (·.exceedsLimit key value)) then
    throw (.fault (.lengthLimit (p.dotPath key)))
  let previous ← readHeap (p.present? · key)
  if ← readHeap (isUnchanged · previous value) then return
  notify listener { action := .set, path := p.childPath key, target := p.target, previous, next := some value }
  if ← readHeap (·.clashes p.target key value) then throw .clash
  else if ← readHeap (·.canSet p.target key value) then modifyHeap (·.set p.target key value)
  else throw (.fault (.frozen (p.dotPath key)))

/-- Removes a property, step by step. -/
def deleteIn (p : Proxy) (listener : Listener σ) (key : String) : Call σ Bool := do
  p.checkWritable key
  if (p.target matches .array _) && key == "length" then throw (.fault (.invalidIndex key p.ownPath))
  if ← readHeap (!·.has p.target key) then return false
  let previous ← readHeap (·.get p.target key)
  notify listener
    { action := .unset, path := p.childPath key, target := p.target, previous := some previous, next := none }
  if ← readHeap (·.canRemove p.target key) then
    modifyHeap (·.remove p.target key)
    return true
  else return false

/-- Appends to an array, step by step. -/
def pushIn (p : Proxy) (listener : Listener σ) (value : Value) : Call σ Unit := do
  match p.target with
  | .array a => p.setIn listener (← readHeap fun h => toString (h.items a).size) value
  | _ => throw (.fault (.invalidIndex "push" p.ownPath))

end Proxy

/-! ## Calls and writes -/

/-- What the listener answers as long as nothing has changed. -/
def Listener.observer (listener : Listener σ) (scene : Scene σ) : Observer :=
  fun change => (listener change scene).1

/-- What a listener remembers when it has been told of a change, or of none. -/
def Listener.told (listener : Listener σ) (scene : Scene σ) : Option Change → σ
  | none => scene.memory
  | some change => (listener change scene).2

/-- The end of a call that makes a write. -/
def Write.ending (w : Write α) (listener : Listener σ) (scene : Scene σ) : EStateM.Result Halt (Scene σ) α :=
  let after : Scene σ := ⟨w.heap, listener.told scene w.change⟩
  match w.result with
  | .ok answer => .ok answer after
  | .error halt => .error halt after

section Endings

variable {β : Type} {listener : Listener σ} {scene : Scene σ} {p : Proxy} {key : String}

theorem Call.readHeap_bind (f : Heap → α) (rest : α → Call σ β) :
    (readHeap f >>= rest) scene = rest (f scene.heap) scene :=
  rfl

theorem Call.checkWritable_bind (rest : Unit → Call σ β) :
    (p.checkWritable key >>= rest) scene =
      match p.refusal? scene.heap key with
      | some fault => .error (.fault fault) scene
      | none => rest () scene := by
  unfold Proxy.checkWritable
  rw [bind_assoc, readHeap_bind]
  cases p.refusal? scene.heap key <;> rfl

/-- A call that shows a change and goes on when it passes ends like an announced write. -/
theorem Call.notify_bind (change : Change) (rest : Call σ α) (make : Heap → Except Halt α × Heap)
    (makes : ∀ memory, rest ⟨scene.heap, memory⟩ =
      match make scene.heap with
      | (.ok answer, heap) => .ok answer ⟨heap, memory⟩
      | (.error halt, heap) => .error halt ⟨heap, memory⟩) :
    (notify listener change >>= fun _ => rest) scene =
      (announce (listener.observer scene) scene.heap change make).ending listener scene := by
  show EStateM.bind (notify listener change) (fun _ => rest) scene = _
  unfold EStateM.bind notify announce Listener.observer
  -- both ask about the same scene, so they get the same answer
  rcases told : listener change scene with ⟨reason | reason, memory⟩
  · dsimp only
    rw [makes memory]
    generalize make scene.heap = made
    obtain ⟨result, heap⟩ := made
    cases result <;> simp [Write.ending, Listener.told, told]
  · simp [Write.ending, Listener.told, told]

/-- A write that the container does not refuse. -/
theorem Proxy.set_of_free {observer : Observer} {h : Heap} (free : p.refusal? h key = none) (value : Value) :
    p.set observer h key value =
      if (p.target matches .array _) && h.exceedsLimit key value then
        { result := .error (.fault (.lengthLimit (p.dotPath key))), heap := h }
      else if isUnchanged h (p.present? h key) value then { result := .ok (), heap := h }
      else announce observer h
        { action := .set, path := p.childPath key, target := p.target, previous := p.present? h key,
          next := some value }
        fun h => if h.clashes p.target key value then (.error .clash, h)
          else if h.canSet p.target key value then (.ok (), h.set p.target key value)
          else (.error (.fault (.frozen (p.dotPath key))), h) := by
  unfold set
  rw [free]
  rfl

/-- A call that writes a property ends as the write does. -/
theorem Proxy.setIn_eq (value : Value) :
    p.setIn listener key value scene =
      (p.set (listener.observer scene) scene.heap key value).ending listener scene := by
  unfold setIn
  rw [checkWritable_bind]
  cases free : p.refusal? scene.heap key with
  | some fault => simp only [set, free, Write.ending, Listener.told]
  | none =>
    rw [set_of_free free]
    dsimp only
    -- the checks come in the same order, and the listener after all but the last
    rw [readHeap_bind]
    by_cases long : ((p.target matches .array _) && scene.heap.exceedsLimit key value) = true
    · rw [if_pos long, if_pos long]
      rfl
    rw [if_neg long, if_neg long, readHeap_bind, readHeap_bind]
    by_cases same : isUnchanged scene.heap (p.present? scene.heap key) value = true
    · rw [if_pos same, if_pos same]
      rfl
    rw [if_neg same, if_neg same]
    refine notify_bind _ _ _ fun memory => ?_
    rw [readHeap_bind]
    by_cases clashes : scene.heap.clashes p.target key value = true
    · rw [if_pos clashes, if_pos clashes]
      rfl
    rw [if_neg clashes, if_neg clashes, readHeap_bind]
    by_cases takes : scene.heap.canSet p.target key value = true
    · rw [if_pos takes, if_pos takes]
      rfl
    · rw [if_neg takes, if_neg takes]
      rfl

/-- A removal that the container does not refuse. -/
theorem Proxy.delete_of_free {observer : Observer} {h : Heap} (free : p.refusal? h key = none) :
    p.delete observer h key =
      if (p.target matches .array _) && key == "length" then
        { result := .error (.fault (.invalidIndex key p.ownPath)), heap := h }
      else if !h.has p.target key then { result := .ok false, heap := h }
      else announce observer h
        { action := .unset, path := p.childPath key, target := p.target, previous := some (h.get p.target key)
          next := none }
        fun h => if h.canRemove p.target key then (.ok true, h.remove p.target key) else (.ok false, h) := by
  unfold delete
  generalize p.refusal? h key = refusal at free ⊢
  subst free
  rfl

/-- A call that removes a property ends as the write does. -/
theorem Proxy.deleteIn_eq :
    p.deleteIn listener key scene =
      (p.delete (listener.observer scene) scene.heap key).ending listener scene := by
  unfold deleteIn
  rw [checkWritable_bind]
  cases free : p.refusal? scene.heap key with
  | some fault => simp only [delete, free, Write.ending, Listener.told]
  | none =>
    rw [delete_of_free free]
    dsimp only
    by_cases length : ((p.target matches .array _) && key == "length") = true
    · rw [if_pos length, if_pos length]
      rfl
    rw [if_neg length, if_neg length, readHeap_bind]
    by_cases absent : (!scene.heap.has p.target key) = true
    · rw [if_pos absent, if_pos absent]
      rfl
    rw [if_neg absent, if_neg absent, readHeap_bind]
    refine notify_bind _ _ _ fun memory => ?_
    rw [readHeap_bind]
    by_cases lets : scene.heap.canRemove p.target key = true
    · rw [if_pos lets, if_pos lets]
      rfl
    · rw [if_neg lets, if_neg lets]
      rfl

/-- A call that appends ends as the write does. -/
theorem Proxy.pushIn_eq (value : Value) :
    p.pushIn listener value scene =
      (p.push (listener.observer scene) scene.heap value).ending listener scene := by
  unfold pushIn Proxy.push
  cases p.target with
  | array a => exact setIn_eq value
  | _ => rfl

end Endings

/-! ## Calls that fail -/

/-- The scene at the end of a call. -/
def Call.after (call : Call σ α) (scene : Scene σ) : Scene σ :=
  match call scene with
  | .ok _ after | .error _ after => after

/-- The call that an action makes, with the answer whether there was something to write. -/
def Action.call? (listener : Listener σ) : Action → Option (Call σ Bool)
  | set p key value => some (do p.setIn listener key value; return true)
  | delete p key => some (p.deleteIn listener key)
  | push p value => some (do p.pushIn listener value; return true)
  | _ => none

section Failures

variable {listener : Listener σ} {scene : Scene σ} {action : Action} {call : Call σ Bool} {w : Write α} {done : α}
  {idle : Prop} {observer : Observer} {h : Heap}

theorem Write.ending_map {x : Call σ Unit} {w : Write Unit} (same : x scene = w.ending listener scene) :
    (do x; return true) scene = (w.map fun _ => true).ending listener scene := by
  show EStateM.bind x (fun _ => pure true) scene = _
  unfold EStateM.bind
  rw [same]
  unfold Write.ending Write.map
  cases w.result <;> rfl

/-- A write that fails, or answers otherwise than after a change, has left the heap as it was. -/
theorem Write.Ends.keeps (ends : w.Ends done idle observer h) (fails : w.result ≠ .ok done) : w.heap = h := by
  cases ends with
  | silent told same => exact same
  | rejected told answer same => exact same
  | made told passes made result => exact absurd result fails
  | misfit told passes misfits same => exact same
  | clash told passes clashes same => exact same

/-- The call of an action ends like its write, which has one of the endings. -/
theorem Action.ending_of_call? (scene : Scene σ) (calls : action.call? listener = some call) :
    ∃ w : Write Bool, call scene = w.ending listener scene ∧
      w.Ends true (action.Idle scene.heap) (listener.observer scene) scene.heap := by
  cases action with
  | set p key value =>
    cases calls
    exact ⟨_, Write.ending_map (Proxy.setIn_eq value), (Proxy.set_ends value).map _⟩
  | delete p key =>
    cases calls
    exact ⟨_, Proxy.deleteIn_eq, Proxy.delete_ends⟩
  | push p value =>
    cases calls
    exact ⟨_, Write.ending_map (Proxy.pushIn_eq value), (Proxy.push_ends value).map _⟩
  | _ => cases calls

end Failures

/-- **Calls that fail leave everything as it was.** Whatever a listener answers, which reads the data but does not write
to it, a call that gives a fault or does not come back and a removal that finds nothing leave the heap as it was. And a
listener that is asked, in any call, is asked once and sees the heap as it was before the call: it ends up with what it
remembers when it is told there of one change, or of none. -/
theorem failed_call_keeps (listener : Listener σ) (scene : Scene σ) (action : Action) {call : Call σ Bool}
    (calls : action.call? listener = some call) :
    (∀ halt after, call scene = .error halt after → after.heap = scene.heap) ∧
      (∀ after, call scene = .ok false after → after.heap = scene.heap) ∧
      ∃ told : Option Change, (call.after scene).memory = listener.told scene told := by
  obtain ⟨w, same, ends⟩ := Action.ending_of_call? scene calls
  unfold Write.ending at same
  -- no answer and the answer `false` both rule out the ending that changes something
  cases result : w.result with
  | error halt =>
    rw [result] at same
    have keeps : w.heap = scene.heap := ends.keeps (by rw [result]; exact nofun)
    refine ⟨fun halt' after failed => ?_, fun after answered => ?_, w.change, by rw [Call.after, same]⟩
    · cases same.symm.trans failed
      exact keeps
    · cases same.symm.trans answered
  | ok answer =>
    rw [result] at same
    refine ⟨fun halt after failed => ?_, fun after answered => ?_, w.change, by rw [Call.after, same]⟩
    · cases same.symm.trans failed
    · cases same.symm.trans answered
      exact ends.keeps (by rw [result]; exact nofun)

/-- A listener that remembers the sizes of the arrays it sees, and rejects everything. -/
def sizesSeen : Listener (List Nat) :=
  fun _ scene => (some "closed", scene.memory ++ scene.heap.arrays.toList.map (·.items.size))

/-- A list is to be cut off at the length 0. The listener sees it with its one item, and so it stays. -/
theorem rejected_cut_keeps :
    ∃ call after, (Action.set list "length" (.number 0.0)).call? sizesSeen = some call ∧
      call ⟨listed.heap, []⟩ = .error (.fault (.rejected "length" "closed")) after ∧ after.heap = listed.heap ∧
        after.memory = [1] := by
  obtain ⟨keeps, -, -⟩ := failed_call_keeps sizesSeen ⟨listed.heap, []⟩ (.set list "length" (.number 0.0)) rfl
  have fails : (do list.setIn sizesSeen "length" (.number 0.0); return true) ⟨listed.heap, []⟩ =
      .error (.fault (.rejected "length" "closed")) ⟨listed.heap, [1]⟩ := by rfl
  exact ⟨_, _, rfl, fails, keeps _ _ fails, rfl⟩

end BindScript.Tracking
