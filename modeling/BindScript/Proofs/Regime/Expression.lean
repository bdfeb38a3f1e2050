import BindScript.Evaluation.Expression
import BindScript.Proofs.Regime.Binding
import BindScript.Proofs.Regime.Method

/-!
# Expressions in a regime

Each kind of expression, and each link of a chain, in code that obeys the rule of the regime. Lists and templates
are where the rule is needed if sizes are watched: what is added before the first spread or the first hole is as
long as it is written, and from there on each piece is checked (`evalList`, `evalTemplate`).
-/

namespace BindScript

/-- The bytes that a part of a template has without being evaluated. -/
def TemplatePart.size : TemplatePart → Nat
  | .text s => s.utf8ByteSize
  | .hole _ => 0

/-- `typeof` takes an unknown name for undefined, in strict mode too. -/
theorem EvalM.evalTypeOperand_name (ctx : Context) (sub : Interpreter) (id : String) (s : State) :
    evalTypeOperand ctx sub (.name id) s = .ok
      (match s.env.find? id with
        | some b => s.heap.cellAt b.cell
        | none => (ctx.lookup s.heap id).getD .undefined) s := by
  -- a name that is unknown is a failure of the look-up only, and it is taken for `undefined`
  have found : ∀ {v : Value}, lookup ctx id s = .ok v s → evalTypeOperand ctx sub (.name id) s = .ok v s := by
    intro v read
    have attempted : attempt (lookup ctx id) s = .ok (.ok v) s := by rw [attempt, read]
    exact bind_of_ok attempted
  have unknown : lookup ctx id s = .error (.error (.undefinedVariable id)) s →
      evalTypeOperand ctx sub (.name id) s = .ok .undefined s := by
    intro read
    have attempted : attempt (lookup ctx id) s = .ok (.error (.error (.undefinedVariable id))) s := by
      rw [attempt, read]
    exact bind_of_ok attempted
  have bound : (readEnv (·.find? id) : EvalM (Option Binding)) s = .ok (s.env.find? id) s := rfl
  have outer : (readHeap (ctx.lookup · id) : EvalM (Option Value)) s = .ok (ctx.lookup s.heap id) s := rfl
  cases binding : s.env.find? id with
  | some b =>
    rw [binding] at bound
    exact found (bind_of_ok bound)
  | none =>
    rw [binding] at bound
    cases known : ctx.lookup s.heap id with
    | some v =>
      rw [known] at outer
      exact found ((bind_of_ok bound).trans (bind_of_ok outer))
    | none =>
      rw [known] at outer
      have missing : lookup ctx id s =
          (if ctx.options.strict then fail (.undefinedVariable id) else return .undefined : EvalM Value) s :=
        (bind_of_ok bound).trans (bind_of_ok outer)
      cases strict : ctx.options.strict with
      | true => exact unknown (missing.trans (by rw [strict]; rfl))
      | false => exact found (missing.trans (by rw [strict]; rfl))

namespace Regime

variable {R : Regime} {sub₁ sub₂ : Interpreter} {h : Heap} {v a b receiver : Value} {e key : Expr}
  {items args : List Expr}

theorem applyBinary_ne_thrown (op : BinaryOp) (v : Value) : h.applyBinary op a b ≠ .error (.thrown v) := by
  cases op with
  | add =>
    show h.add a b ≠ _
    unfold Heap.add checkStringLength
    dsimp only
    split
    · split <;> nofun
    · nofun
  | isIn =>
    show h.isIn a b ≠ _
    unfold Heap.isIn
    split <;> nofun
  | _ => nofun

/-- An operator gives an operand, a number, a truth value or a text. Only a text could be too long. -/
theorem holds_of_applyBinary {op : BinaryOp} (left : R.Holds a) (right : R.Holds b)
    (applied : h.applyBinary op a b = .ok v) : R.Holds v := by
  cases op with
  | add =>
    have sum : h.add a b = .ok v := applied
    cases v with
    | string s => exact holds_string fun _ => Heap.size_le_of_add sum
    | number x => exact holds_number x
    | _ =>
      unfold Heap.add at sum
      split at sum
      · cases passed : checkStringLength ((h.text a).utf8ByteSize + (h.text b).utf8ByteSize) <;>
          simp only [passed] at sum <;> cases sum
      · cases sum
  | isIn =>
    have found : h.isIn a b = .ok v := applied
    unfold Heap.isIn at found
    split at found <;> cases found
    exact holds_bool _
  | and | or | nullish =>
    cases applied
    split
    · assumption
    · assumption
  | _ =>
    cases applied
    first
      | exact holds_number _
      | exact holds_bool _

/-- A place that a run may write. -/
def Place (R : Regime) : EvalM.Reference → Prop
  | .name id => R.code.expr (.name id)
  | .property target _ => R.Holds target

/-- The values of a list. -/
def Values (R : Regime) (values : Array Value) : Prop :=
  (∀ v ∈ values.toList, R.Holds v) ∧ R.Length values.size

namespace Follows

theorem evalKey (sub : R.Interprets sub₁ sub₂) (code : key.Obeys R.code) :
    R.Follows (fun _ => True) (EvalM.evalKey sub₁ key) (EvalM.evalKey sub₂ key) :=
  bind (sub.expr key code) fun _ _ => readHeap fun _ _ => trivial

/-! ## Places -/

theorem evalReference (sub : R.Interprets sub₁ sub₂) (code : e.Obeys R.code) :
    R.Follows R.Place (EvalM.evalReference sub₁ e) (EvalM.evalReference sub₂ e) := by
  cases e with
  | name id => exact pure code
  | member object property optional =>
    cases optional with
    | true => exact fail trivial
    | false =>
      unfold Expr.Obeys at code
      exact bind (sub.expr object code.2) fun target holds => pure holds
  | index object key optional =>
    cases optional with
    | true => exact fail trivial
    | false =>
      unfold Expr.Obeys at code
      exact bind (sub.expr object code.2.1) fun target holds => bind (evalKey sub code.2.2) fun _ _ => pure holds
  | _ => exact fail trivial

theorem readPlace {place : EvalM.Reference} (inside : R.Place place) :
    R.Follows R.Holds (place.read R.left) (place.read R.right) := by
  cases place with
  | name id => exact lookup inside
  | property target key => exact getProperty inside

theorem writePlace {place : EvalM.Reference} (inside : R.Place place) (holds : R.Holds v) :
    R.Follows (fun _ => True) (place.write R.left v) (place.write R.right v) := by
  cases place with
  | name id => exact assignName holds
  | property target key => exact setProperty inside holds

theorem applyBinary (op : BinaryOp) (left : R.Holds a) (right : R.Holds b) :
    R.Follows R.Holds (do EvalM.ofExcept (← EvalM.readHeap (·.applyBinary op a b)))
      (do EvalM.ofExcept (← EvalM.readHeap (·.applyBinary op a b))) := by
  refine bind (P := fun applied => ∃ h : Heap, applied = h.applyBinary op a b) (readHeap fun h _ => ⟨h, rfl⟩)
    fun applied made => ?_
  obtain ⟨h, rfl⟩ := made
  exact ofExcept (fun v => holds_of_applyBinary left right) (applyBinary_ne_thrown op)

theorem evalAssign {target value : Expr} (sub : R.Interprets sub₁ sub₂) (op : AssignOp)
    (targetCode : target.Obeys R.code) (valueCode : value.Obeys R.code) :
    R.Follows R.Holds (EvalM.evalAssign R.left sub₁ op target value)
      (EvalM.evalAssign R.right sub₂ op target value) := by
  unfold EvalM.evalAssign
  refine bind (evalReference sub targetCode) fun place inside => ?_
  have store : ∀ v, R.Holds v →
      R.Follows R.Holds (do place.write R.left v; return v) (do place.write R.right v; return v) :=
    fun v holds => bind (writePlace inside holds) fun _ _ => pure holds
  have storeRight : R.Follows R.Holds (do let v ← sub₁.expr value; place.write R.left v; return v)
      (do let v ← sub₂.expr value; place.write R.right v; return v) :=
    bind (sub.expr value valueCode) store
  cases op.binary? with
  | none => exact storeRight
  | some binary =>
    refine bind (readPlace inside) fun current holds => ?_
    cases binary with
    | and | nullish => exact ite (fun _ => storeRight) fun _ => pure holds
    | or => exact ite (fun _ => pure holds) fun _ => storeRight
    | _ =>
      refine bind (sub.expr value valueCode) fun right rightHolds => ?_
      simpa only [bind_assoc] using bind (applyBinary _ holds rightHolds) store

theorem evalUpdate {operand : Expr} (sub : R.Interprets sub₁ sub₂) (op : UpdateOp) (side : UpdateSide)
    (code : operand.Obeys R.code) :
    R.Follows R.Holds (EvalM.evalUpdate R.left sub₁ op side operand)
      (EvalM.evalUpdate R.right sub₂ op side operand) := by
  unfold EvalM.evalUpdate
  refine bind (evalReference sub code) fun place inside => bind (readPlace inside) fun current _ => ?_
  refine reading fun old => bind (writePlace inside (holds_number _)) fun _ _ => ?_
  cases side <;> exact pure (holds_number _)

/-! ## Operators -/

theorem evalBinary {left right : Expr} (sub : R.Interprets sub₁ sub₂) (op : BinaryOp) (leftCode : left.Obeys R.code)
    (rightCode : right.Obeys R.code) :
    R.Follows R.Holds (EvalM.evalBinary sub₁ op left right) (EvalM.evalBinary sub₂ op left right) := by
  unfold EvalM.evalBinary
  refine bind (sub.expr left leftCode) fun a holds => ?_
  have next := sub.expr right rightCode
  cases op with
  | and | nullish => exact ite (fun _ => next) fun _ => pure holds
  | or => exact ite (fun _ => pure holds) fun _ => next
  | _ => exact bind next fun b rightHolds => applyBinary _ holds rightHolds

theorem evalTypeOperand (sub : R.Interprets sub₁ sub₂) (code : e.Obeys R.code) :
    R.Follows R.Holds (EvalM.evalTypeOperand R.left sub₁ e) (EvalM.evalTypeOperand R.right sub₂ e) := by
  cases e with
  | name id =>
    intro s state
    rw [EvalM.evalTypeOperand_name, EvalM.evalTypeOperand_name, right_lookup]
    refine .ok state ?_
    cases bound : s.env.find? id with
    | some b => exact state.heap.cell (state.scopes.find? bound)
    | none =>
      cases known : R.left.lookup s.heap id with
      | some v => exact state.heap.lookup code known
      | none => exact holds_undefined
  | _ => exact sub.expr _ code

theorem evalDelete (sub : R.Interprets sub₁ sub₂) (code : e.Obeys R.code) :
    R.Follows R.Holds (EvalM.evalDelete R.left sub₁ e) (EvalM.evalDelete R.right sub₂ e) := by
  have gone : ∀ {target : Value} {key : String}, R.Holds target →
      R.Follows R.Holds (do return .bool (← EvalM.deleteProperty R.left target key))
        (do return .bool (← EvalM.deleteProperty R.right target key)) := fun holds =>
    bind (deleteProperty holds) fun _ _ => pure (holds_bool _)
  cases e with
  | member object property =>
    unfold Expr.Obeys at code
    exact bind (sub.expr object code.2) fun target holds => gone holds
  | index object key =>
    unfold Expr.Obeys at code
    exact bind (sub.expr object code.2.1) fun target holds => bind (evalKey sub code.2.2) fun _ _ => gone holds
  | name => exact pure (holds_bool false)
  | _ => exact bind (discard (sub.expr _ code)) fun _ _ => pure (holds_bool true)

theorem evalUnary {operand : Expr} (sub : R.Interprets sub₁ sub₂) (op : UnaryOp) (code : operand.Obeys R.code) :
    R.Follows R.Holds (EvalM.evalUnary R.left sub₁ op operand) (EvalM.evalUnary R.right sub₂ op operand) := by
  unfold EvalM.evalUnary
  have value := sub.expr operand code
  cases op with
  | typeof => exact bind (evalTypeOperand sub code) fun v _ => pure (holds_typeOf v)
  | delete => exact evalDelete sub code
  | minus | plus | bitNot => exact bind value fun v _ => readHeap fun _ _ => holds_number _
  | not => exact bind value fun v _ => pure (holds_bool _)
  | void => exact bind (discard value) fun _ _ => pure holds_undefined

/-! ## Literals -/

/-- One item of a list. -/
private theorem listItem {item : Expr} {done : Array Value} (sub : R.Interprets sub₁ sub₂)
    (holds : ∀ v ∈ done.toList, R.Holds v) :
    item.Obeys R.code → R.Follows (fun next : Array Value => (∀ v ∈ next.toList, R.Holds v) ∧
        ((∃ inner, item = .spread inner) ∧ next.size ≤ maxArrayLength ∨
          (∀ inner, item ≠ .spread inner) ∧ next.size = done.size + 1))
      (match item with
        | .spread inner => do
          let values ← EvalM.iterate (← sub₁.expr inner)
          EvalM.ofExcept (checkArrayLength (done.size + values.size))
          return done ++ values
        | _ => do return done.push (← sub₁.expr item))
      (match item with
        | .spread inner => do
          let values ← EvalM.iterate (← sub₂.expr inner)
          EvalM.ofExcept (checkArrayLength (done.size + values.size))
          return done ++ values
        | _ => do return done.push (← sub₂.expr item)) := by
  intro code
  cases item with
  | spread inner =>
    unfold Expr.Obeys at code
    refine bind (sub.expr inner code.2) fun v inside => bind (iterate inside) fun values new => ?_
    -- only here is the length checked: what is spread, together with all that stands before it
    refine bind (checkedLength _) fun _ room => pure ⟨fun v mem => ?_, .inl ⟨⟨inner, rfl⟩, ?_⟩⟩
    · rw [Array.toList_append] at mem
      exact (List.mem_append.1 mem).elim (holds v) (new v)
    · rw [Array.size_append]
      exact room
  | _ =>
    refine bind (sub.expr _ code) fun v new =>
      pure ⟨fun u mem => ?_, .inr ⟨fun _ => Expr.noConfusion, Array.size_push _⟩⟩
    rw [Array.toList_push] at mem
    exact (List.mem_append.1 mem).elim (holds u) fun mem => List.mem_singleton.1 mem ▸ new

/-- The size is checked where something is spread, so without a guard it may be passed elsewhere. -/
theorem evalList (sub : R.Interprets sub₁ sub₂) (code : Expr.AllObey R.code items)
    (guarded : R.sized → Expr.ListGuarded items) :
    R.Follows R.Values (EvalM.evalList sub₁ items) (EvalM.evalList sub₂ items) := by
  have code := Expr.allObey_iff.1 code
  unfold EvalM.evalList
  by_cases sized : R.sized
  · obtain ⟨plain, spread, rfl, unspread, short⟩ := guarded sized
    rw [List.foldlM_append, List.foldlM_append]
    refine bind (foldlM (I := fun past (done : Array Value) => (∀ v ∈ done.toList, R.Holds v) ∧ done.size = past.length)
      (fun past item mem done held => ?plain) ⟨nofun, rfl⟩) fun start started => ?_
    case plain =>
      refine (listItem sub held.1 (code item (List.mem_append_left _ mem))).imp fun next made => ⟨made.1, ?_⟩
      rcases made.2 with ⟨⟨inner, rfl⟩, -⟩ | ⟨-, size⟩
      · exact absurd rfl (unspread _ mem inner)
      · rw [size, held.2, List.length_append, List.length_singleton]
    refine (foldlM (I := fun _ (done : Array Value) => (∀ v ∈ done.toList, R.Holds v) ∧ done.size ≤ maxArrayLength)
      (fun past item mem done held => ?_) ⟨started.1, started.2 ▸ short⟩).imp
      fun values made => ⟨made.1, fun _ => made.2⟩
    refine (listItem sub held.1 (code item (List.mem_append_right _ mem))).imp fun next made => ⟨made.1, ?_⟩
    obtain ⟨inner, -, rfl⟩ := List.mem_map.1 mem
    rcases made.2 with ⟨-, room⟩ | ⟨single, -⟩
    · exact room
    · exact absurd rfl (single inner)
  · refine (foldlM (I := fun _ (done : Array Value) => ∀ v ∈ done.toList, R.Holds v)
      (fun past item mem done held => ?_) (List.forall_mem_nil _)).imp
      fun values made => ⟨made, fun sized' => absurd sized' sized⟩
    exact (listItem sub held (code item mem)).imp fun next made => made.1

theorem evalArgs (sub : R.Interprets sub₁ sub₂) (code : Expr.AllObey R.code args)
    (guarded : R.sized → Expr.ListGuarded args) :
    R.Follows (fun values => (∀ v ∈ values, R.Holds v) ∧ R.Length values.length) (EvalM.evalArgs sub₁ args)
      (EvalM.evalArgs sub₂ args) :=
  bind (evalList sub code guarded) fun _ made => pure made

/-- A hole of a template, after what is there. -/
private theorem templateHole {done : String} (sub : R.Interprets sub₁ sub₂) (code : e.Obeys R.code) :
    R.Follows (fun next : String => next.utf8ByteSize ≤ maxStringLength)
      (do
        let value ← sub₁.expr e
        let piece ← EvalM.readHeap (·.text value)
        EvalM.ofExcept (checkStringLength (done.utf8ByteSize + piece.utf8ByteSize))
        return done ++ piece)
      (do
        let value ← sub₂.expr e
        let piece ← EvalM.readHeap (·.text value)
        EvalM.ofExcept (checkStringLength (done.utf8ByteSize + piece.utf8ByteSize))
        return done ++ piece) :=
  bind (sub.expr e code) fun _ _ => reading fun _ => bind (checkedBytes _) fun _ room =>
    pure (String.utf8ByteSize_append.trans_le room)

/-- The text is checked for each value that goes into it, but not for the plain parts between them. -/
theorem evalTemplate {parts : List TemplatePart} (sub : R.Interprets sub₁ sub₂)
    (code : TemplatePart.AllObey R.code parts) (guarded : R.sized → Expr.TemplateGuarded parts) :
    R.Follows R.Holds (EvalM.evalTemplate sub₁ parts) (EvalM.evalTemplate sub₂ parts) := by
  have code := TemplatePart.allObey_iff.1 code
  unfold EvalM.evalTemplate
  refine bind (P := fun text : String => R.sized → text.utf8ByteSize ≤ maxStringLength) ?_ fun text fits =>
    pure (holds_string fits)
  by_cases sized : R.sized
  · obtain ⟨text, holes, rfl, short⟩ := guarded sized
    rw [List.foldlM_append, List.foldlM_append]
    refine bind (foldlM (I := fun past (done : String) => done.utf8ByteSize = (past.map TemplatePart.size).sum)
      (fun past part mem done size => ?text) rfl) fun start started => ?_
    case text =>
      obtain ⟨s, -, rfl⟩ := List.mem_map.1 mem
      refine pure ?_
      rw [String.utf8ByteSize_append, size, List.map_append, List.sum_append]
      rfl
    have first : start.utf8ByteSize ≤ maxStringLength := by
      rw [started, List.map_map]
      exact short
    refine (foldlM (I := fun _ (done : String) => done.utf8ByteSize ≤ maxStringLength)
      (fun past part mem done size => ?_) first).imp fun done fits _ => fits
    obtain ⟨e, inside, rfl⟩ := List.mem_map.1 mem
    exact templateHole sub (code e (List.mem_append_right _ mem))
  · refine (foldlM (I := fun _ _ => True) (fun past part mem done _ => ?_) trivial).imp
      fun done _ sized' => absurd sized' sized
    cases part with
    | text s => exact pure trivial
    | hole e => exact (templateHole sub (code e mem)).imp fun _ _ => trivial

theorem evalObject {properties : List Property} (sub : R.Interprets sub₁ sub₂)
    (code : Property.AllObey R.code properties) :
    R.Follows R.Holds (EvalM.evalObject sub₁ properties) (EvalM.evalObject sub₂ properties) := by
  have code := Property.allObey_iff.1 code
  unfold EvalM.evalObject
  have inserted : ∀ {done : Entries Value} {key : String} {v : Value}, (∀ entry ∈ done, R.Holds entry.2) →
      R.Holds v → ∀ entry ∈ done.insert key v, R.Holds entry.2 := by
    intro done key v others holds entry mem
    rcases Entries.eq_or_mem_of_mem_insert mem with rfl | mem
    · exact holds
    · exact others entry mem
  refine bind (foldlM (I := fun _ (done : Entries Value) => ∀ entry ∈ done, R.Holds entry.2)
    (fun _ property mem done holds => ?_) nofun) fun entries inside => newObject inside
  have code := code property mem
  cases property with
  | named key value => exact bind (evalNamed sub code) fun v new => pure (inserted holds new)
  | computed key value =>
    unfold Property.Obeys at code
    exact bind (evalKey sub code.1) fun key _ => bind (evalNamed sub code.2) fun v new => pure (inserted holds new)
  | spread source =>
    refine bind (sub.expr source code) fun v inside => ?_
    refine bind (P := fun found : List (String × Value) => ∀ entry ∈ found, R.Holds entry.2)
      (readHeap fun h fits => fits.entries inside) fun found new => pure fun entry mem => ?_
    exact (Entries.mem_or_mem_of_mem_insertAll mem).elim (holds entry) (new entry)

/-! ## Chains -/

/-- What a link of a chain gives. -/
theorem link {x₁ x₂ : EvalM Value} (x : R.Follows R.Holds x₁ x₂) :
    R.Follows (fun v => ∀ u ∈ v, R.Holds u) (do return some (← x₁)) (do return some (← x₂)) :=
  bind x fun _ holds => pure fun _ same => Option.some.inj same ▸ holds

theorem callProperty {callee : Expr} {key : String} (sub : R.Interprets sub₁ sub₂) (optional : Bool)
    (holds : R.Holds receiver) (named : R.sized → key ∉ unguardedMethods) (code : Expr.AllObey R.code args)
    (guarded : R.sized → Expr.ListGuarded args) :
    R.Follows (fun v => ∀ u ∈ v, R.Holds u) (EvalM.callProperty R.left sub₁ callee receiver key args optional)
      (EvalM.callProperty R.right sub₂ callee receiver key args optional) := by
  unfold EvalM.callProperty
  refine bind (getProperty holds) fun property callable =>
    ite (fun _ => ?own) fun _ => ite (fun _ => ?built) fun _ => fail trivial
  case own =>
    exact bind (evalArgs sub code guarded) fun values made => link (sub.call _ _ callable made.1 made.2)
  case built =>
    cases found : Method.find? receiver key with
    | none => exact ite (fun _ => pure nofun) fun _ => fail trivial
    | some m =>
      refine bind (evalArgs sub code guarded) fun values made => link (callMethod sub m (fun sized => ?_) holds made.1)
      exact Method.isSized_of_find? found (named sized)

theorem evalTarget {object : Expr} (sub : R.Interprets sub₁ sub₂) (optional : Bool) (code : object.Obeys R.code) :
    R.Follows (fun v => ∀ u ∈ v, R.Holds u) (EvalM.evalTarget sub₁ object optional)
      (EvalM.evalTarget sub₂ object optional) := by
  unfold EvalM.evalTarget
  refine bind (sub.chain object code) fun target holds => ?_
  cases target with
  | none => exact pure nofun
  | some v => exact ite (fun _ => pure nofun) fun _ => pure holds

/-- What follows a target: nothing when there is none. -/
theorem afterTarget {object : Expr} {f₁ f₂ : Value → EvalM (Option Value)} (sub : R.Interprets sub₁ sub₂)
    (optional : Bool) (code : object.Obeys R.code)
    (next : ∀ v, R.Holds v → R.Follows (fun v => ∀ u ∈ v, R.Holds u) (f₁ v) (f₂ v)) :
    R.Follows (fun v => ∀ u ∈ v, R.Holds u)
      (do match ← EvalM.evalTarget sub₁ object optional with
          | none => return none
          | some v => f₁ v)
      (do match ← EvalM.evalTarget sub₂ object optional with
          | none => return none
          | some v => f₂ v) :=
  bind (evalTarget sub optional code) fun target holds => by
    cases target with
    | none => exact pure nofun
    | some v => exact next v (holds v rfl)

theorem evalCall {callee : Expr} (sub : R.Interprets sub₁ sub₂) (optional : Bool) (calleeCode : callee.Obeys R.code)
    (code : Expr.AllObey R.code args) (guarded : R.sized → callee.CalleeGuarded ∧ Expr.ListGuarded args) :
    R.Follows (fun v => ∀ u ∈ v, R.Holds u) (EvalM.evalCall R.left sub₁ callee args optional)
      (EvalM.evalCall R.right sub₂ callee args optional) := by
  unfold EvalM.evalCall
  have short : R.sized → Expr.ListGuarded args := fun sized => (guarded sized).2
  cases callee with
  | member object property optionalMember =>
    unfold Expr.Obeys at calleeCode
    exact afterTarget sub optionalMember calleeCode.2 fun receiver holds =>
      callProperty sub optional holds (fun sized => (guarded sized).1) code short
  | index object key optionalMember =>
    unfold Expr.Obeys at calleeCode
    refine afterTarget sub optionalMember calleeCode.2.1 fun receiver holds => ?_
    exact bind (evalKey sub calleeCode.2.2) fun key _ =>
      callProperty sub optional holds (fun sized => (guarded sized).1.elim) code short
  | _ =>
    refine afterTarget sub optional calleeCode fun f callable => ite (fun _ => ?_) fun _ => fail trivial
    exact bind (evalArgs sub code short) fun values made => link (sub.call _ _ callable made.1 made.2)

theorem chainStep (sub : R.Interprets sub₁ sub₂) (code : e.Obeys R.code) :
    R.Follows (fun v => ∀ u ∈ v, R.Holds u) (EvalM.chainStep R.left sub₁ e) (EvalM.chainStep R.right sub₂ e) := by
  cases e with
  | member object property optional =>
    unfold Expr.Obeys at code
    exact afterTarget sub optional code.2 fun target holds => link (getProperty holds)
  | index object key optional =>
    unfold Expr.Obeys at code
    refine afterTarget sub optional code.2.1 fun target holds => ?_
    exact bind (evalKey sub code.2.2) fun key _ => link (getProperty holds)
  | call callee args optional =>
    unfold Expr.Obeys at code
    exact evalCall sub optional code.2.1 code.2.2 fun sized => (R.guarded sized).expr _ code.1
  | _ => exact link (sub.expr _ code)

theorem evalChain (sub : R.Interprets sub₁ sub₂) (code : e.Obeys R.code) :
    R.Follows R.Holds (EvalM.evalChain R.left sub₁ e) (EvalM.evalChain R.right sub₂ e) := by
  refine bind (chainStep sub code) fun v holds => pure ?_
  cases v with
  | none => exact holds_undefined
  | some v => exact holds v rfl

/-! ## All expressions -/

/-- One case for each form of expression. -/
theorem exprStep (sub : R.Interprets sub₁ sub₂) (code : e.Obeys R.code) :
    R.Follows R.Holds (EvalM.exprStep R.left sub₁ e) (EvalM.exprStep R.right sub₂ e) := by
  unfold EvalM.exprStep
  refine bind checkInterrupt fun _ _ => ?_
  cases e with
  | name id => exact lookup code
  | literal l =>
    refine pure ⟨?_, fun sized => (R.guarded sized).expr _ code⟩
    cases l <;> trivial
  | template parts =>
    unfold Expr.Obeys at code
    exact evalTemplate sub code.2 fun sized => (R.guarded sized).expr _ code.1
  | unary op operand =>
    unfold Expr.Obeys at code
    exact evalUnary sub op code.2
  | update op side operand =>
    unfold Expr.Obeys at code
    exact evalUpdate sub op side code.2
  | binary op left right =>
    unfold Expr.Obeys at code
    exact evalBinary sub op code.2.1 code.2.2
  | conditional test consequent alternate =>
    unfold Expr.Obeys at code
    obtain ⟨-, testCode, consequentCode, alternateCode⟩ := code
    exact bind (sub.expr test testCode) fun _ _ =>
      ite (fun _ => sub.expr consequent consequentCode) fun _ => sub.expr alternate alternateCode
  | sequence items =>
    unfold Expr.Obeys at code
    have code := Expr.allObey_iff.1 code.2
    exact foldlM (I := fun _ => R.Holds) (fun _ item mem _ _ => sub.expr item (code item mem)) holds_undefined
  | array items =>
    unfold Expr.Obeys at code
    exact bind (evalList sub code.2 fun sized => (R.guarded sized).expr _ code.1) fun _ made => newArray made.1 made.2
  | object properties =>
    unfold Expr.Obeys at code
    exact evalObject sub code.2
  | spread inner => exact typeFault _
  | member | index | call => exact evalChain sub code
  | assign op target value =>
    unfold Expr.Obeys at code
    exact evalAssign sub op code.2.1 code.2.2
  | function definition =>
    unfold Expr.Obeys at code
    exact makeClosure none code.2

end Follows

end Regime

end BindScript
