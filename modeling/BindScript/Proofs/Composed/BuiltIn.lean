import BindScript.Evaluation.Method
import BindScript.Evaluation.Native
import BindScript.Proofs.Watch.Basic

/-!
# What built-in functions do

Methods and native functions read the heap, change containers and add new ones, and keep notes. The methods that are
given a callback call it by the interpreter. Names, scopes and closures are out of their reach, and they have no
failure of misplaced code, nor do they end with an interrupt themselves. `BuiltIn` says of a step that it does no more
than this.

What holds of these primitive steps, and is kept where steps are joined, holds of all methods and native functions by
induction (`BuiltIn.callMethod`, `BuiltIn.invoke`), and of what is read and removed of properties. So it does not
have to be shown of each of them again for each property of evaluations.
-/

namespace BindScript

/-! ## Failures -/

/-- A failure that a step may have wherever it stands: it is no interrupt, and not one of misplaced code. -/
structure EvalError.Ordinary (failure : EvalError) : Prop where
  runs : failure ≠ .interrupted
  placed : ¬ failure.Misplaced

/-- A check whose failures are ordinary. -/
def EvalError.OnlyOrdinary {α : Type} (x : Except EvalError α) : Prop :=
  ∀ failure, x = .error failure → failure.Ordinary

open EvalError (OnlyOrdinary)

theorem ordinary_checkArrayLength {n : Nat} : OnlyOrdinary (checkArrayLength n) := by
  rintro failure failed
  unfold checkArrayLength at failed
  split at failed <;> cases failed
  exact ⟨nofun, id⟩

theorem ordinary_checkStringLength {n : Nat} : OnlyOrdinary (checkStringLength n) := by
  rintro failure failed
  unfold checkStringLength at failed
  split at failed <;> cases failed
  exact ⟨nofun, id⟩

theorem EvalM.ordinary_padding {h : Heap} {text : String} {length fill : Value} :
    OnlyOrdinary (padding h text length fill) := by
  intro failure failed
  unfold padding at failed
  dsimp only at failed
  generalize (if fill.isUndefined then " " else h.text fill) = filler at failed
  generalize (if (h.toNumber length).isNaN then 0 else Number.toSize (h.toNumber length)) = target at failed
  split at failed
  · cases failed
  · unfold checkStringLength at failed
    split at failed <;> cases failed
    exact ⟨nofun, id⟩

theorem EvalM.ordinary_repeatText {text : String} {x : Float} : OnlyOrdinary (repeatText text x) := by
  intro failure failed
  unfold repeatText at failed
  dsimp only at failed
  generalize (if x.isNaN then 0.0 else Number.truncate x) = count at failed
  split at failed <;> cases failed
  exact ⟨nofun, id⟩

/-- An operator fails with an error that can be caught, if at all. -/
theorem Heap.ordinary_applyBinary {h : Heap} {op : BinaryOp} {a b : Value} : OnlyOrdinary (h.applyBinary op a b) := by
  intro failure failed
  cases op with
  | add =>
    have failed : h.add a b = .error failure := failed
    unfold Heap.add checkStringLength at failed
    dsimp only at failed
    split at failed
    · split at failed <;> cases failed
      exact ⟨nofun, id⟩
    · cases failed
  | isIn =>
    have failed : h.isIn a b = .error failure := failed
    unfold Heap.isIn at failed
    split at failed <;> cases failed
    exact ⟨nofun, nofun⟩
  | _ => cases failed

/-! ## Containers -/

/-- The heaps differ in containers only. -/
structure Heap.SameCells (h h' : Heap) : Prop where
  closures : h'.closures = h.closures
  cells : h'.cells = h.cells

namespace Heap

variable {h h' h'' : Heap}

namespace SameCells

theorem refl (h : Heap) : h.SameCells h :=
  ⟨rfl, rfl⟩

theorem trans (first : h.SameCells h') (second : h'.SameCells h'') : h.SameCells h'' :=
  ⟨second.closures.trans first.closures, second.cells.trans first.cells⟩

theorem set (h : Heap) (target : Value) (key : String) (v : Value) : h.SameCells (h.set target key v) := by
  unfold Heap.set
  split
  · split
    · exact ⟨rfl, rfl⟩
    · split <;> exact ⟨rfl, rfl⟩
  · exact ⟨rfl, rfl⟩
  · exact refl h

theorem remove (h : Heap) (target : Value) (key : String) : h.SameCells (h.remove target key) := by
  unfold Heap.remove
  split
  · split <;> exact ⟨rfl, rfl⟩
  · exact ⟨rfl, rfl⟩
  · exact refl h

theorem markFrozen (h : Heap) (v : Value) : h.SameCells (h.markFrozen v) := by
  unfold Heap.markFrozen
  split <;> exact ⟨rfl, rfl⟩

/-- Freezing leaves all cells as they are, however deep it goes. -/
theorem freezeWithin (steps : Nat) (h : Heap) (v : Value) : h.SameCells (h.freezeWithin steps v) := by
  induction steps generalizing h v with
  | zero => exact refl h
  | succ steps ih =>
    have each : ∀ (inside : List Value) (h : Heap), h.SameCells (inside.foldl (Heap.freezeWithin steps) h) := by
      intro inside
      induction inside with
      | nil => exact refl
      | cons v more each => exact fun h => (ih h v).trans (each _)
    unfold Heap.freezeWithin
    dsimp only
    split
    · exact refl h
    · exact (markFrozen h v).trans (each _ _)

mutual

theorem ofDocument : ∀ (d : JsonText.Document) (h : Heap), h.SameCells (h.ofDocument d).2
  | .null, h | .bool _, h | .number _, h | .string _, h => refl h
  | .array items, h => (ofDocuments items h #[]).trans ⟨rfl, rfl⟩
  | .object members, h => (ofMembers members h []).trans ⟨rfl, rfl⟩

theorem ofDocuments : ∀ (ds : List JsonText.Document) (h : Heap) (done : Array Value),
    h.SameCells (h.ofDocuments done ds).2
  | [], h, _ => refl h
  | d :: rest, h, _ => (ofDocument d h).trans (ofDocuments rest _ _)

theorem ofMembers : ∀ (ds : List (String × JsonText.Document)) (h : Heap) (done : Entries Value),
    h.SameCells (h.ofMembers done ds).2
  | [], h, _ => refl h
  | (_, d) :: rest, h, _ => (ofDocument d h).trans (ofMembers rest _ _)

end

end SameCells

end Heap

/-! ## Built-in steps -/

/-- The step has to do with containers and notes only, and with calls that the interpreter makes for it. -/
inductive BuiltIn : {α : Type} → (Interpreter → EvalM α) → Prop
  | pure {α : Type} (a : α) : BuiltIn fun _ => Pure.pure a
  | fail {α : Type} {failure : EvalError} (ordinary : failure.Ordinary) :
    BuiltIn fun _ => (EvalM.fail failure : EvalM α)
  | readHeap {α : Type} (f : Heap → α) : BuiltIn fun _ => EvalM.readHeap f
  /-- A check that depends on the heap. -/
  | checked {α : Type} {f : Heap → Except EvalError α} (ordinary : ∀ h, OnlyOrdinary (f h)) :
    BuiltIn fun _ => (do EvalM.ofExcept (← EvalM.readHeap f))
  | readNotes : BuiltIn fun _ => EvalM.readNotes
  /-- Containers may be changed and added. -/
  | allocate {α : Type} {f : Heap → α × Heap} (same : ∀ h, Heap.SameCells h (f h).2) :
    BuiltIn fun _ => EvalM.allocate f
  | interrupt : BuiltIn fun _ => (modify fun s => { s with interrupted := true } : EvalM Unit)
  | note (text : String) : BuiltIn fun _ => (modify fun s => { s with notes := text :: s.notes } : EvalM Unit)
  | log (line : String) : BuiltIn fun _ => (modify fun s => { s with console := s.console.push line } : EvalM Unit)
  | call (f : Value) (args : List Value) : BuiltIn fun sub => sub.call f args
  | bind {α β : Type} {x : Interpreter → EvalM α} {f : α → Interpreter → EvalM β} (first : BuiltIn x)
    (next : ∀ a, BuiltIn (f a)) : BuiltIn fun sub => x sub >>= fun a => f a sub

/-- An interpreter for steps that ask for nothing. -/
def Interpreter.idle : Interpreter :=
  ⟨0, fun _ => pure .undefined, fun _ => pure none, fun _ => pure .undefined, fun _ _ => pure .undefined⟩

namespace BuiltIn

variable {α β : Type} {x y : Interpreter → EvalM α}

/-! ### Primitive steps -/

theorem typeFault {fault : TypeFault} (placed : fault ≠ .misplacedSpread) :
    BuiltIn fun _ => (EvalM.typeFault fault : EvalM α) :=
  fail ⟨nofun, placed⟩

theorem ofExcept {result : Except EvalError α} (ordinary : OnlyOrdinary result) :
    BuiltIn fun _ => EvalM.ofExcept result := by
  cases result with
  | ok a => exact pure a
  | error failure => exact fail (ordinary failure rfl)

theorem modifyHeap {f : Heap → Heap} (same : ∀ h, Heap.SameCells h (f h)) :
    BuiltIn fun _ => EvalM.modifyHeap f :=
  allocate (f := fun h => ((), f h)) same

theorem newArray (items : Array Value) : BuiltIn fun _ => EvalM.allocate (·.newArray items) :=
  allocate fun _ => ⟨rfl, rfl⟩

theorem newObject (entries : Entries Value) : BuiltIn fun _ => EvalM.allocate (·.newObject entries) :=
  allocate fun _ => ⟨rfl, rfl⟩

theorem set (target : Value) (key : String) (v : Value) : BuiltIn fun _ => EvalM.modifyHeap (·.set target key v) :=
  modifyHeap fun h => .set h target key v

theorem remove (target : Value) (key : String) : BuiltIn fun _ => EvalM.modifyHeap (·.remove target key) :=
  modifyHeap fun h => .remove h target key

theorem checkedLength (n : Nat) : BuiltIn fun _ => EvalM.ofExcept (checkArrayLength n) :=
  ofExcept ordinary_checkArrayLength

theorem checkedBytes (n : Nat) : BuiltIn fun _ => EvalM.ofExcept (checkStringLength n) :=
  ofExcept ordinary_checkStringLength

/-! ### Joining steps -/

theorem reading {f : Heap → α} {g : α → Interpreter → EvalM β} (next : ∀ a, BuiltIn (g a)) :
    BuiltIn fun sub => EvalM.readHeap f >>= fun a => g a sub :=
  bind (readHeap f) next

theorem discard (step : BuiltIn x) : BuiltIn fun sub => Functor.discard (x sub) :=
  bind step fun _ => pure ()

theorem ite {c : Prop} [Decidable c] (yes : BuiltIn x) (no : BuiltIn y) :
    BuiltIn fun sub => if c then x sub else y sub := by
  by_cases holds : c
  · simpa only [if_pos holds] using yes
  · simpa only [if_neg holds] using no

theorem foldlM {f : β → α → Interpreter → EvalM β} {items : List α}
    (each : ∀ a ∈ items, ∀ b, BuiltIn (f b a)) (start : β) :
    BuiltIn fun sub => items.foldlM (fun b a => f b a sub) start := by
  induction items generalizing start with
  | nil => exact pure start
  | cons a more ih =>
    obtain ⟨head, tail⟩ := List.forall_mem_cons.1 each
    simp only [List.foldlM_cons]
    exact bind (head start) (ih tail)

theorem forM {f : α → Interpreter → EvalM Unit} {items : List α} (each : ∀ a ∈ items, BuiltIn (f a)) :
    BuiltIn fun sub => items.forM fun a => f a sub := by
  induction items with
  | nil => exact pure ()
  | cons a more ih =>
    obtain ⟨head, tail⟩ := List.forall_mem_cons.1 each
    unfold List.forM
    exact bind head fun _ => ih tail

theorem mapM {f : α → Interpreter → EvalM β} {items : List α} (each : ∀ a ∈ items, BuiltIn (f a)) :
    BuiltIn fun sub => items.mapM fun a => f a sub := by
  induction items with
  | nil => exact pure []
  | cons a more ih =>
    obtain ⟨head, tail⟩ := List.forall_mem_cons.1 each
    simp only [List.mapM_cons]
    exact bind head fun b => bind (ih tail) fun results => pure _

theorem filterM {f : α → Interpreter → EvalM Bool} {items : List α} (each : ∀ a ∈ items, BuiltIn (f a)) :
    BuiltIn fun sub => items.filterM fun a => f a sub := by
  suffices loop : ∀ left done : List α, (∀ a ∈ left, BuiltIn (f a)) →
      BuiltIn fun sub => left.filterAuxM (fun a => f a sub) done by
    unfold List.filterM
    exact bind (loop items [] each) fun kept => pure _
  intro left
  induction left with
  | nil => exact fun done _ => pure done
  | cons a more ih =>
    intro done each
    obtain ⟨head, tail⟩ := List.forall_mem_cons.1 each
    unfold List.filterAuxM
    exact bind head fun keep => ih _ tail

/-! ### Properties -/

theorem getProperty (ctx : Context) (target : Value) (key : String) :
    BuiltIn fun _ => EvalM.getProperty ctx target key := by
  unfold EvalM.getProperty
  exact ite (ite (reading fun _ => typeFault nofun) (pure _)) (readHeap _)

theorem deleteProperty (ctx : Context) (target : Value) (key : String) :
    BuiltIn fun _ => EvalM.deleteProperty ctx target key := by
  have gone : BuiltIn fun _ => (do EvalM.modifyHeap (·.remove target key); return true) :=
    bind (remove target key) fun _ => pure true
  unfold EvalM.deleteProperty
  cases target with
  | undefined | null => exact ite (reading fun _ => typeFault nofun) (pure true)
  | object o => exact reading fun frozen => ite (reading fun _ => pure _) gone
  | array a => exact reading fun frozen => ite (pure false) (reading fun removable => ite gone (pure true))
  | _ => exact pure true

/-- What becomes of a write that clashes with nothing. -/
theorem write (target : Value) (key : String) (v : Value) : BuiltIn fun _ => (do
    if ← EvalM.readHeap (·.canSet target key v) then EvalM.modifyHeap (·.set target key v)
    else EvalM.typeFault (.refusedWrite key (← EvalM.readHeap (·.isFrozen target)))) :=
  reading fun _ => ite (set target key v) (reading fun _ => typeFault nofun)

theorem iterate (v : Value) : BuiltIn fun _ => EvalM.iterate v := by
  unfold EvalM.iterate
  cases v with
  | array a => exact readHeap _
  | string s => exact pure _
  | object o => exact typeFault nofun
  | _ => exact reading fun _ => typeFault nofun

/-- The value of an operator, unless it fails. -/
theorem applyBinary (op : BinaryOp) (a b : Value) :
    BuiltIn fun _ => (do EvalM.ofExcept (← EvalM.readHeap (·.applyBinary op a b))) :=
  checked fun _ => Heap.ordinary_applyBinary

/-! ### Arrays -/

theorem modifyItems (a : Nat) (change : Array Value → Array Value) :
    BuiltIn fun _ => EvalM.modifyHeap (·.modifyItems a change) :=
  modifyHeap fun _ => ⟨rfl, rfl⟩

theorem callbackOf (args : List Value) (method : String) :
    BuiltIn fun _ => EvalM.callbackOf args method := by
  unfold EvalM.callbackOf
  exact ite (pure _) (reading fun _ => typeFault nofun)

theorem checkWritable (a : Nat) : BuiltIn fun _ => EvalM.checkWritable a := by
  unfold EvalM.checkWritable
  exact reading fun _ => ite (typeFault nofun) (pure ())

theorem checkRoom (a more : Nat) : BuiltIn fun _ => EvalM.checkRoom a more := by
  unfold EvalM.checkRoom
  exact reading fun _ => checkedLength _

theorem joinItems (items : Array Value) (separator : String) :
    BuiltIn fun _ => EvalM.joinItems items separator := by
  unfold EvalM.joinItems
  exact reading fun parts => bind (checkedBytes _) fun _ => pure _

theorem concatItems (start : Array Value) (args : List Value) :
    BuiltIn fun _ => EvalM.concatItems start args := by
  refine foldlM (fun v _ done => reading fun more => ?_) start
  cases more with
  | some more => exact bind (checkedLength _) fun _ => pure _
  | none => exact bind (checkedLength _) fun _ => pure _

theorem findItem {test : Value → Nat → Interpreter → EvalM Bool} (each : ∀ v i, BuiltIn (test v i))
    (entries : List (Value × Nat)) :
    BuiltIn fun sub => EvalM.findItem (fun v i => test v i sub) entries := by
  induction entries with
  | nil => exact pure none
  | cons entry rest ih =>
    obtain ⟨item, i⟩ := entry
    unfold EvalM.findItem
    exact bind (each item i) fun found => ite (pure _) ih

/-- Each method of arrays is made of steps on the heap and of calls of its callback. -/
theorem callArrayMethod (a : Nat) (method : ArrayMethod) (args : List Value) :
    BuiltIn fun sub => EvalM.callArrayMethod sub a method args := by
  have test : ∀ f v (i : Nat), BuiltIn fun sub =>
      (do return (← sub.call f [v, .count i, .array a]).isTruthy) :=
    fun f v i => bind (call f _) fun _ => pure _
  unfold EvalM.callArrayMethod
  cases method with
  | push | unshift =>
    exact bind (checkWritable a) fun _ => bind (checkRoom a _) fun _ => bind (modifyItems a _) fun _ => readHeap _
  | pop | shift =>
    exact bind (checkWritable a) fun _ => reading fun item => bind (modifyItems a _) fun _ => pure _
  | reverse => exact bind (checkWritable a) fun _ => bind (modifyItems a _) fun _ => pure _
  | map =>
    refine bind (callbackOf args _) fun f => reading fun entries => ?_
    exact bind (mapM fun entry _ => call f _) fun values => newArray _
  | filter =>
    refine bind (callbackOf args _) fun f => reading fun entries => ?_
    exact bind (filterM fun entry _ => test f _ _) fun kept => newArray _
  | find | findIndex | some =>
    refine bind (callbackOf args _) fun f => reading fun entries => ?_
    exact bind (findItem (test f) entries) fun found => pure _
  | every =>
    refine bind (callbackOf args _) fun f => reading fun entries => ?_
    exact bind (findItem (fun v i => bind (test f v i) fun _ => pure _) entries) fun found => pure _
  | forEach =>
    refine bind (callbackOf args _) fun f => reading fun entries => ?_
    exact bind (forM fun entry _ => discard (call f _)) fun _ => pure _
  | reduce =>
    refine bind (callbackOf args _) fun f => reading fun entries => ?_
    have fold : ∀ (entries : List (Value × Nat)) (start : Value), BuiltIn fun sub =>
        entries.foldlM (fun done entry => sub.call f [done, entry.1, .count entry.2, .array a]) start :=
      fun entries start => foldlM (fun entry _ done => call f _) start
    cases args[1]? with
    | some start => exact fold entries start
    | none =>
      cases entries with
      | nil => exact typeFault nofun
      | cons first rest => exact fold rest first.1
  | includes | indexOf => exact readHeap _
  | join => exact reading fun separator => reading fun items => joinItems items separator
  | toString => exact reading fun items => joinItems items ","
  | slice => exact reading fun part => newArray _
  | concat => exact reading fun items => bind (concatItems items args) fun all => newArray _

/-! ### Strings, numbers and objects -/

theorem replacementText (pattern : List Char) (text : String) (v : Value) (position : Nat) :
    BuiltIn fun sub => EvalM.replacementText sub pattern text v position := by
  unfold EvalM.replacementText
  exact ite (bind (call v _) fun value => readHeap _) (bind (pure v) fun value => readHeap _)

theorem substitute (pattern : List Char) (text : String) (v : Value) (pieces : List (List Char)) :
    BuiltIn fun sub => EvalM.substitute sub pattern text v pieces := by
  cases pieces with
  | nil => exact pure _
  | cons first more =>
    unfold EvalM.substitute
    refine bind (foldlM (fun piece _ done => ?_) _) fun done => pure _
    exact bind (replacementText pattern text v _) fun between => pure _

/-- The methods of strings call a callback only to replace text. -/
theorem callStringMethod (text : String) (method : StringMethod) (args : List Value) :
    BuiltIn fun sub => EvalM.callStringMethod sub text method args := by
  unfold EvalM.callStringMethod
  cases method with
  | toUpperCase | toLowerCase | trim | trimStart | trimEnd | toString => exact pure _
  | includes | startsWith | endsWith | indexOf => exact reading fun _ => pure _
  | charAt | slice | substring => exact readHeap _
  | split => exact reading fun pieces => newArray _
  | replace | replaceAll => exact reading fun pattern => substitute pattern text _ _
  | padStart | padEnd =>
    have padded : BuiltIn fun _ =>
        (do EvalM.ofExcept (← EvalM.readHeap fun h => EvalM.padding h text (.argument args 0) (.argument args 1))) :=
      checked fun _ => EvalM.ordinary_padding
    simpa only [bind_assoc] using bind padded fun pad => pure _
  | «repeat» => exact reading fun x => bind (ofExcept EvalM.ordinary_repeatText) fun text => pure _

theorem callNumberMethod (x : Float) (method : NumberMethod) (args : List Value) :
    BuiltIn fun _ => EvalM.callNumberMethod x method args := by
  unfold EvalM.callNumberMethod
  refine reading fun n => ?_
  cases method with
  | toFixed => exact ite (typeFault nofun) (ite (pure _) (pure _))
  | toString => exact ite (typeFault nofun) (pure _)

/-- The methods of all kinds of values are built in. -/
theorem callMethod (receiver : Value) (method : Method) (args : List Value) :
    BuiltIn fun sub => EvalM.callMethod sub receiver method args := by
  unfold EvalM.callMethod
  cases method with
  | array method =>
    cases receiver with
    | array a => exact callArrayMethod a method args
    | _ => exact readHeap _
  | string method =>
    cases receiver with
    | string text => exact callStringMethod text method args
    | _ => exact readHeap _
  | number method =>
    cases receiver with
    | number x => exact callNumberMethod x method args
    | _ => exact readHeap _
  | hasOwnProperty => exact readHeap _

/-! ### Native functions -/

theorem assignAll (target : Value) (sources : List Value) :
    BuiltIn fun _ => NativeFn.assignAll target sources := by
  unfold NativeFn.assignAll
  cases target with
  | object o =>
    refine bind (forM fun source _ => reading fun entries => forM fun entry _ => ?_) fun _ => pure _
    exact reading fun allowed => ite (set _ _ _) (typeFault nofun)
  | _ => exact typeFault nofun

theorem writeIfTaken (target : Value) (key : String) (v : Value) :
    BuiltIn fun _ => EvalM.writeIfTaken target key v :=
  reading fun _ => ite (bind (set _ _ _) fun _ => pure _) (pure _)

/-- A host does nothing but primitive steps, one after another. -/
theorem run (program : HostProgram) (held : List Value) : BuiltIn fun _ => program.run held := by
  induction program generalizing held with
  | answer i => exact pure _
  | fail text => exact typeFault nofun
  | look i next ih => exact reading fun view => ih view held
  | same i j next ih => exact ih _ held
  | hold literal next ih => exact ih _
  | get i key next ih => exact reading fun v => ih _
  | newArray items next ih => exact bind (newArray _) fun made => ih _
  | newObject entries next ih => exact bind (newObject _) fun made => ih _
  | set i key j next ih => exact bind (writeIfTaken _ _ _) fun taken => ih taken held
  | freeze i next ih =>
    exact bind (modifyHeap fun h => .freezeWithin _ h _) fun _ => ih held
  | interrupt next ih => exact bind interrupt fun _ => ih held
  | note text next ih => exact bind (note text) fun _ => ih held
  | readNotes next ih => exact bind readNotes fun notes => ih notes held

/-- A host function does nothing that a program could not. -/
theorem invoke (f : NativeFn) (given : List Value) : BuiltIn fun _ => f.invoke given := by
  unfold NativeFn.invoke
  cases f with
  | abs | ceil | floor | round | sqrt | sign | trunc | pow | min | max | parseInt | parseFloat | isNaN =>
    exact readHeap _
  | stringify =>
    refine reading fun shown => ?_
    cases shown with
    | text text => exact pure _
    | omitted => exact pure _
    | tooDeep => exact typeFault nofun
  | parse =>
    refine reading fun text => ?_
    cases JsonText.parse text with
    | ok document => exact allocate fun h => .ofDocument document h
    | error e => exact typeFault nofun
  | keys | values => exact reading fun found => newArray _
  | entries => exact reading fun entries => bind (mapM fun entry _ => newArray _) fun pairs => newArray _
  | assign => exact assignAll _ _
  | freeze => exact bind (modifyHeap fun h => .freezeWithin _ h _) fun _ => pure _
  | isFrozen => exact reading fun _ => pure _
  | isArray | boolean => exact pure _
  | number | string =>
    cases given with
    | nil => exact pure _
    | cons => exact readHeap _
  | log => exact reading fun line => bind (log line) fun _ => pure _
  | host fn => exact run _ given

end BuiltIn

end BindScript
