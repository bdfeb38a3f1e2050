import BindScript.Proofs.Access.ShortCircuit

/-!
# Compound assignments

`t op= e` works out the place that `t` stands for, and reads and writes it there. `t = t op e` works out the place,
and then evaluates `t` once more, as an expression, to read it. Where object and key of the target are names or
literals the two come to the same (`compound_assignment`): working out such a place only looks
(`evalReference_of_plain`), so the second time gives what the first one gave, and all that `e` does comes after both.

The operators that short-circuit are an exception where the present value decides: nothing is evaluated then and
nothing is written, whether or not the place could be written.
-/

namespace BindScript

open EvalM

/-- A name or a literal. -/
def Expr.IsAtom : Expr → Prop
  | .name _ => True
  | .literal _ => True
  | _ => False

/-- A name, or a property whose object and key are names or literals. -/
def Expr.IsPlainPlace : Expr → Prop
  | .name _ => True
  | .member inner _ _ => inner.IsAtom
  | .index inner key _ => inner.IsAtom ∧ key.IsAtom
  | _ => False

/-- The left operand decides, and the right one is left out. -/
def BinaryOp.decides : BinaryOp → Value → Bool
  | .and, v => !v.isTruthy
  | .or, v => v.isTruthy
  | .nullish, v => !v.isNullish
  | _, _ => false

theorem BinaryOp.isLogical_of_decides {binary : BinaryOp} {v : Value} (decides : binary.decides v = true) :
    binary.isLogical = true := by
  cases binary with
  | and | or | nullish => rfl
  | _ => cases decides

namespace EvalM

variable {ctx : Context} {s t : State} {target e : Expr} {op : AssignOp} {binary : BinaryOp} {v : Value}
  {place : Reference}

/-! ## Steps that only look -/

/-- The step leaves the state as it is. -/
inductive Looks {α : Type} (x : EvalM α) (s : State) : Prop
  | gives {a : α} (run : x s = .ok a s)
  | fails {e : Exit} (run : x s = .error e s)

/-- Looking a name up changes nothing. -/
theorem looks_lookup (ctx : Context) (name : String) (s : State) : Looks (lookup ctx name) s := by
  cases bound : s.env.find? name with
  | some b =>
    have found : readEnv (·.find? name) s = .ok (some b) s := congrArg (EStateM.Result.ok · s) bound
    exact .gives (bind_of_ok found)
  | none =>
    have unbound : readEnv (·.find? name) s = .ok none s := congrArg (EStateM.Result.ok · s) bound
    have found : readHeap (ctx.lookup · name) s = .ok (ctx.lookup s.heap name) s := rfl
    have rest : lookup ctx name s = _ := (bind_of_ok unbound).trans (bind_of_ok found)
    cases outside : ctx.lookup s.heap name with
    | some v => exact .gives (a := v) (by rw [rest, outside]; rfl)
    | none =>
      cases strict : ctx.options.strict with
      | true => exact .fails (e := .error (.undefinedVariable name)) (by rw [rest, outside, strict]; rfl)
      | false => exact .gives (a := .undefined) (by rw [rest, outside, strict]; rfl)

/-- Reading a property changes nothing. -/
theorem looks_getProperty (ctx : Context) (v : Value) (key : String) (s : State) :
    Looks (getProperty ctx v key) s := by
  cases run : getProperty ctx v key s with
  | ok w u =>
    obtain rfl := eq_of_getProperty run
    exact .gives run
  | error e u =>
    unfold getProperty at run
    split at run
    · split at run
      · cases run
        exact .fails (by unfold getProperty; rw [if_pos ‹_›, if_pos ‹_›]; rfl)
      · cases run
    · cases run

theorem looks_read (ctx : Context) (place : Reference) (s : State) : Looks (place.read ctx) s := by
  cases place with
  | name id => exact looks_lookup ctx id s
  | property target key => exact looks_getProperty ctx target key s

/-! ## Places that only names and literals lead to -/

/-- A name or a literal is the same over any number of levels. -/
theorem expr_of_atom (ctx : Context) (runs : s.interrupted = false) {e : Expr} (atom : e.IsAtom) :
    ∃ x : EvalM Value, Looks x s ∧ ∀ levels, (interpreter ctx (levels + 1)).expr e s = x s := by
  cases e with
  | name id => exact ⟨_, looks_lookup ctx id s, fun levels => bind_of_ok (checkInterrupt_of_runs runs)⟩
  | literal l => exact ⟨pure (.ofLiteral l), .gives rfl, fun levels => bind_of_ok (checkInterrupt_of_runs runs)⟩
  | _ => exact atom.elim

/-- What a target stands for, and that evaluating the target reads it. -/
structure StandsFor (ctx : Context) (s : State) (target : Expr) (place : Reference) : Prop where
  reference : ∀ levels, evalReference (interpreter ctx (levels + 1)) target s = .ok place s
  expr : ∀ levels, (interpreter ctx (levels + 3)).expr target s = place.read ctx s

/-- The target does not come to a place, and if it is one that may be assigned to, it has no value either. -/
structure LeadsNowhere (ctx : Context) (s : State) (target : Expr) (e : Exit) : Prop where
  reference : ∀ levels, evalReference (interpreter ctx (levels + 1)) target s = .error e s
  expr : target.isSimpleTarget = true → ∀ levels, (interpreter ctx (levels + 3)).expr target s = .error e s

theorem chain_of_atom {levels : Nat} {inner : Expr} (atom : inner.IsAtom) :
    (interpreter ctx (levels + 1)).chain inner = (do return some (← (interpreter ctx levels).expr inner)) := by
  cases inner with
  | name id => rfl
  | literal l => rfl
  | _ => exact atom.elim

/-- A link that is not optional reads in what comes before it. -/
theorem along_of_expr {levels : Nat} {inner : Expr} {read : Value → EvalM Value} (atom : inner.IsAtom)
    (run : (interpreter ctx levels).expr inner s = .ok v s) (looks : Looks (read v) s) :
    ((do return (← alongLink (interpreter ctx (levels + 1)) inner false read).getD .undefined) : EvalM Value) s =
      read v s := by
  have chain : (interpreter ctx (levels + 1)).chain inner s = .ok (some v) s := by
    rw [chain_of_atom atom]
    exact bind_of_ok run
  have link : evalTarget (interpreter ctx (levels + 1)) inner false s = .ok (some v) s := evalTarget_of_some chain
  cases looks with
  | @gives w run =>
    have along : alongLink (interpreter ctx (levels + 1)) inner false read s = .ok (some w) s :=
      alongLink_eq_some.2 ⟨v, s, link, run⟩
    exact (bind_of_ok along).trans run.symm
  | @fails e run =>
    have along : alongLink (interpreter ctx (levels + 1)) inner false read s = .error e s :=
      (bind_of_ok link).trans (bind_of_error run)
    exact (bind_of_error along).trans run.symm

/-- Nothing is read in what has no value. -/
theorem along_of_error {levels : Nat} {inner : Expr} {read : Value → EvalM Value} {e : Exit} (atom : inner.IsAtom)
    (run : (interpreter ctx levels).expr inner s = .error e s) :
    ((do return (← alongLink (interpreter ctx (levels + 1)) inner false read).getD .undefined) : EvalM Value) s =
      .error e s := by
  have chain : (interpreter ctx (levels + 1)).chain inner s = .error e s := by
    rw [chain_of_atom atom]
    exact bind_of_error run
  exact bind_of_error (bind_of_error (bind_of_error chain))

theorem expr_member (levels : Nat) (runs : s.interrupted = false) (inner : Expr) (property : String) :
    (interpreter ctx (levels + 1)).expr (.member inner property false) s =
      ((do return (← alongLink (interpreter ctx levels) inner false
        fun target => getProperty ctx target property).getD .undefined) : EvalM Value) s :=
  bind_of_ok (checkInterrupt_of_runs runs)

theorem expr_index (levels : Nat) (runs : s.interrupted = false) (inner key : Expr) :
    (interpreter ctx (levels + 1)).expr (.index inner key false) s =
      ((do return (← alongLink (interpreter ctx levels) inner false fun target => do
        getProperty ctx target (← evalKey (interpreter ctx levels) key)).getD .undefined) : EvalM Value) s := by
  rw [← chainStep_index]
  exact bind_of_ok (checkInterrupt_of_runs runs)

/-- A property of an atom: the object is looked at, and then the property of what it gives. -/
theorem evalReference_member (ctx : Context) (runs : s.interrupted = false) {inner : Expr} (atom : inner.IsAtom)
    (property : String) :
    (∃ place, StandsFor ctx s (.member inner property false) place) ∨
      ∃ e, LeadsNowhere ctx s (.member inner property false) e := by
  obtain ⟨x, looks, same⟩ := expr_of_atom ctx runs atom
  cases looks with
  | @gives v run =>
    refine .inl ⟨.property v property, fun levels => bind_of_ok ((same levels).trans run), fun levels => ?_⟩
    rw [expr_member _ runs]
    exact along_of_expr atom ((same levels).trans run) (looks_getProperty ctx v property s)
  | @fails e run =>
    refine .inr ⟨e, fun levels => bind_of_error ((same levels).trans run), fun _ levels => ?_⟩
    rw [expr_member _ runs]
    exact along_of_error atom ((same levels).trans run)

/-- A computed property: object and key are looked at, in this order. -/
theorem evalReference_index (ctx : Context) (runs : s.interrupted = false) {inner key : Expr} (atom : inner.IsAtom)
    (atKey : key.IsAtom) :
    (∃ place, StandsFor ctx s (.index inner key false) place) ∨
      ∃ e, LeadsNowhere ctx s (.index inner key false) e := by
  obtain ⟨x, looks, same⟩ := expr_of_atom ctx runs atom
  obtain ⟨y, looksAtKey, sameKey⟩ := expr_of_atom ctx runs atKey
  cases looks with
  | @fails e run =>
    refine .inr ⟨e, fun levels => bind_of_error ((same levels).trans run), fun _ levels => ?_⟩
    rw [expr_index _ runs]
    exact along_of_error atom ((same levels).trans run)
  -- the key is looked at only where the object has a value
  | @gives v run =>
    cases looksAtKey with
    | @fails e noKey =>
      have keyless : ∀ levels, evalKey (interpreter ctx (levels + 1)) key s = .error e s :=
        fun levels => bind_of_error ((sameKey levels).trans noKey)
      refine .inr ⟨e, fun levels => (bind_of_ok ((same levels).trans run)).trans (bind_of_error (keyless levels)),
        fun _ levels => ?_⟩
      rw [expr_index _ runs]
      have fails := bind_of_error (f := getProperty ctx v) (keyless (levels + 1))
      exact (along_of_expr atom ((same levels).trans run) (.fails fails)).trans fails
    | @gives k hasKey =>
      have keyed : ∀ levels, evalKey (interpreter ctx (levels + 1)) key s = .ok (s.heap.text k) s :=
        fun levels => bind_of_ok ((sameKey levels).trans hasKey)
      refine .inl ⟨.property v (s.heap.text k),
        fun levels => (bind_of_ok ((same levels).trans run)).trans (bind_of_ok (keyed levels)), fun levels => ?_⟩
      rw [expr_index _ runs]
      have reads := bind_of_ok (f := getProperty ctx v) (keyed (levels + 1))
      have looks : Looks (evalKey (interpreter ctx (levels + 2)) key >>= getProperty ctx v) s := by
        cases looks_getProperty ctx v (s.heap.text k) s with
        | gives run => exact .gives (reads.trans run)
        | fails run => exact .fails (reads.trans run)
      exact (along_of_expr atom ((same levels).trans run) looks).trans reads

/-- Working out a plain place only looks, and evaluating the target looks at the same place. -/
theorem evalReference_of_plain (ctx : Context) (runs : s.interrupted = false) (plain : target.IsPlainPlace) :
    (∃ place, StandsFor ctx s target place) ∨ ∃ e, LeadsNowhere ctx s target e := by
  cases target with
  | name id => exact .inl ⟨.name id, fun _ => rfl, fun levels => bind_of_ok (checkInterrupt_of_runs runs)⟩
  | member inner property optional =>
    cases optional with
    | true => exact .inr ⟨_, fun _ => rfl, nofun⟩
    | false => exact evalReference_member ctx runs plain property
  | index inner key optional =>
    cases optional with
    | true => exact .inr ⟨_, fun _ => rfl, nofun⟩
    | false => exact evalReference_index ctx runs plain.1 plain.2
  | _ => exact plain.elim

/-! ## Compound and plain -/

/-- What a binary operator does once it has its left operand. -/
def evalRight (sub : Interpreter) (binary : BinaryOp) (left : Value) (right : Expr) : EvalM Value :=
  if binary.decides left then return left
  else if binary.isLogical then sub.expr right
  else do
    let b ← sub.expr right
    ofExcept (← readHeap (·.applyBinary binary left b))

/-- Writes a value and gives it. -/
def store (ctx : Context) (place : Reference) (v : Value) : EvalM Value := do
  place.write ctx v
  return v

theorem eq_of_store {w : Value} (run : store ctx place v s = .ok w t) : w = v := by
  obtain ⟨_, _, -, rest⟩ := exists_of_bind_ok run
  cases rest
  rfl

theorem evalBinary_eq (sub : Interpreter) (binary : BinaryOp) (left right : Expr) :
    evalBinary sub binary left right = sub.expr left >>= (evalRight sub binary · right) := by
  refine bind_congr fun v => ?_
  cases binary with
  | and | or | nullish =>
    simp only [evalRight, BinaryOp.decides, BinaryOp.isLogical]
    grind
  | _ => rfl

/-- A compound assignment reads the place once, and writes it unless what is there decides. -/
theorem evalAssign_eq (ctx : Context) (sub : Interpreter) (isCompound : op.binary? = some binary)
    (target e : Expr) : evalAssign ctx sub op target e = (do
      let place ← evalReference sub target
      let current ← place.read ctx
      if binary.decides current then return current
      else store ctx place (← evalRight sub binary current e)) := by
  refine bind_congr fun place => ?_
  rw [isCompound]
  refine bind_congr fun v => ?_
  cases binary with
  | and | or | nullish =>
    simp only [evalRight, BinaryOp.decides, BinaryOp.isLogical]
    grind [store]
  | _ => simp [evalRight, BinaryOp.decides, BinaryOp.isLogical, store]

theorem bind_congr_of_eq {α β : Type} {x y : EvalM α} {f : α → EvalM β} (same : x s = y s) :
    (x >>= f) s = (y >>= f) s := by
  show EStateM.bind x f s = EStateM.bind y f s
  simp only [EStateM.bind, same]

theorem compound_of_standsFor (runs : s.interrupted = false) (isCompound : op.binary? = some binary)
    (stands : StandsFor ctx s target place) (e : Expr) (levels : Nat) :
    (interpreter ctx (levels + 4)).expr (.assign op target e) s = (do
      let current ← place.read ctx
      if binary.decides current then return current
      else store ctx place (← evalRight (interpreter ctx (levels + 3)) binary current e)) s := by
  have start : (interpreter ctx (levels + 4)).expr (.assign op target e) s = evalAssign ctx _ op target e s :=
    bind_of_ok (checkInterrupt_of_runs runs)
  rw [start, evalAssign_eq ctx _ isCompound]
  exact bind_of_ok (stands.reference (levels + 2))

/-- The plain assignment evaluates the target once more, on the right side. -/
theorem plain_of_standsFor (runs : s.interrupted = false) (stands : StandsFor ctx s target place) (e : Expr)
    (levels : Nat) :
    (interpreter ctx (levels + 5)).expr (.assign .assign target (.binary binary target e)) s = (do
      let current ← place.read ctx
      store ctx place (← evalRight (interpreter ctx (levels + 3)) binary current e)) s := by
  have right : (interpreter ctx (levels + 4)).expr (.binary binary target e) s =
      (place.read ctx >>= (evalRight (interpreter ctx (levels + 3)) binary · e)) s := by
    have start : (interpreter ctx (levels + 4)).expr (.binary binary target e) s = evalBinary _ binary target e s :=
      bind_of_ok (checkInterrupt_of_runs runs)
    rw [start, evalBinary_eq]
    exact bind_congr_of_eq (stands.expr levels)
  have written := bind_congr_of_eq (f := store ctx place) right
  rw [bind_assoc] at written
  refine (bind_of_ok (checkInterrupt_of_runs runs)).trans ?_
  exact (bind_of_ok (stands.reference (levels + 3))).trans written

theorem StandsFor.isSimpleTarget (stands : StandsFor ctx s target place) : target.isSimpleTarget = true := by
  have found := stands.reference 0
  cases target with
  | name id => rfl
  | member inner property optional | index inner key optional =>
    cases optional with
    | true => cases found
    | false => rfl
  | _ => cases found

/-- Nothing is assigned to what does not lead to a place, whatever the operator. -/
theorem assign_of_leadsNowhere {x : Exit} (runs : s.interrupted = false) (nowhere : LeadsNowhere ctx s target x)
    (op : AssignOp) (e : Expr) (levels : Nat) :
    (interpreter ctx (levels + 2)).expr (.assign op target e) s = .error x s :=
  (bind_of_ok (checkInterrupt_of_runs runs)).trans (bind_of_error (nowhere.reference levels))

theorem expr_of_interrupted (interrupted : s.interrupted = true) (e : Expr) (levels : Nat) :
    (interpreter ctx (levels + 1)).expr e s = .error (.error .interrupted) s := by
  have stopped : checkInterrupt s = .error (.error .interrupted) s := by
    rw [checkInterrupt, interrupted]
    rfl
  exact bind_of_error stopped

/-- The present value of the target decides what the assignment gives. -/
def Decided (ctx : Context) (levels : Nat) (s : State) (binary : BinaryOp) (target : Expr) (v : Value) : Prop :=
  target.isSimpleTarget = true ∧ (interpreter ctx levels).expr target s = .ok v s ∧ binary.decides v = true

/-- **A compound assignment is the plain assignment of the operation.** If object and key of the target are names or
literals, both give the same value or failure, and leave the same state behind, where the plain one has a level more
for the operation that it spells out. An operator that short-circuits is an exception where the present value decides:
then nothing is evaluated and nothing is written, and the value is the one that the plain assignment gives unless its
write fails. -/
theorem compound_assignment (ctx : Context) (isCompound : op.binary? = some binary) (plain : target.IsPlainPlace)
    (e : Expr) (s : State) (levels : Nat) :
    let compound := (interpreter ctx (levels + 4)).expr (.assign op target e) s
    let assignment := (interpreter ctx (levels + 5)).expr (.assign .assign target (.binary binary target e)) s
    (binary.isLogical = false → compound = assignment) ∧
      ((∀ v, ¬Decided ctx (levels + 3) s binary target v) → compound = assignment) ∧
      ∀ v, Decided ctx (levels + 3) s binary target v →
        compound = .ok v s ∧ ∀ w t, assignment = .ok w t → w = v := by
  intro compound assignment
  have undecided : (∀ v, ¬Decided ctx (levels + 3) s binary target v) → compound = assignment := by
    intro undecided
    cases runs : s.interrupted with
    | true => exact (expr_of_interrupted runs _ _).trans (expr_of_interrupted runs _ _).symm
    | false =>
      -- Either the target is a place, which both read once, or both fail in finding it.
      rcases evalReference_of_plain ctx runs plain with ⟨place, stands⟩ | ⟨x, nowhere⟩
      · refine (compound_of_standsFor runs isCompound stands e levels).trans
          (Eq.trans ?_ (plain_of_standsFor runs stands e levels).symm)
        cases looks_read ctx place s with
        | fails run => exact (bind_of_error run).trans (bind_of_error run).symm
        | @gives v run =>
          have goesOn : ¬binary.decides v = true := fun decides =>
            undecided v ⟨stands.isSimpleTarget, (stands.expr levels).trans run, decides⟩
          rw [bind_of_ok run, bind_of_ok run, if_neg goesOn]
      · exact (assign_of_leadsNowhere runs nowhere _ _ _).trans (assign_of_leadsNowhere runs nowhere _ _ _).symm
  refine ⟨fun both => undecided fun v decided => ?_, undecided, fun v ⟨simple, reads, decides⟩ => ?_⟩
  · rw [BinaryOp.isLogical_of_decides decided.2.2] at both
    cases both
  · cases runs : s.interrupted with
    | true => cases (expr_of_interrupted runs target (levels + 2)).symm.trans reads
    | false =>
      rcases evalReference_of_plain ctx runs plain with ⟨place, stands⟩ | ⟨x, nowhere⟩
      -- The plain assignment goes on to write what it read.
      · have present : place.read ctx s = .ok v s := (stands.expr levels).symm.trans reads
        refine ⟨?_, fun w t run => ?_⟩
        · refine (compound_of_standsFor runs isCompound stands e levels).trans ?_
          rw [bind_of_ok present, if_pos decides]
          rfl
        · have written := (plain_of_standsFor runs stands e levels).symm.trans run
          rw [bind_of_ok present, evalRight, if_pos decides] at written
          exact eq_of_store written
      · cases (nowhere.expr simple levels).symm.trans reads

/-- A constant `x` that is `"a"`. -/
def constantX : State where
  env := { bindings := #[⟨"x", 0, .const⟩] }
  heap := { cells := #[.string "a"] }

/-- `x += (x = 2)` and `x = x + (x = 2)` end alike; and `x ||= 2` gives the value of the constant, which it does not
try to write. -/
theorem compound_assignment_constant :
    let ctx : Context := { locals := .undefined, app := .undefined }
    let e : Expr := .assign .assign (.name "x") (.literal (.number 2))
    AssignOp.add.binary? = some .add ∧ AssignOp.or.binary? = some .or ∧ (Expr.name "x").IsPlainPlace ∧
      (interpreter ctx 4).expr (.assign .add (.name "x") e) constantX =
        (interpreter ctx 5).expr (.assign .assign (.name "x") (.binary .add (.name "x") e)) constantX ∧
      (interpreter ctx 4).expr (.assign .or (.name "x") (.literal (.number 2))) constantX =
        .ok (.string "a") constantX := by
  have plain : (Expr.name "x").IsPlainPlace := trivial
  refine ⟨rfl, rfl, plain, ?_, ?_⟩
  · exact (compound_assignment _ rfl plain _ constantX 0).1 rfl
  · exact ((compound_assignment _ rfl plain _ constantX 0).2.2 _ ⟨rfl, rfl, rfl⟩).1

end EvalM

end BindScript
