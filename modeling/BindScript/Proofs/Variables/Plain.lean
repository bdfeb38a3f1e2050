import BindScript.Proofs.Dependency.Watched
import BindScript.Proofs.Control.Dependence
import BindScript.Proofs.Frozen.Runs

/-!
# Expressions that only read

A plain expression is built from literals, names, member accesses, operators other than `delete`,
conditionals and templates. Evaluating one changes nothing; and two evaluations that see the same values
under the names it reads come to the same value, or fail in the same way (`Seen.evaluate`), wherever the two
contexts keep these values.

The heaps of the two evaluations need not be equal: it is enough that they agree on a zone in which all
values are. An evaluation goes down one level with each part, and two with each link of a chain, which
`Expr.height` adds up.
-/

namespace BindScript

open EvalM

mutual

/-- The expression reads names and properties, and applies operators to what it reads. Its names are
spelled as scripts spell them. -/
def Expr.Plain : Expr → Prop
  | .name id => isWord id = true
  | .literal _ => True
  | .template parts => TemplatePart.AllPlain parts
  | .unary op operand => op ≠ .delete ∧ operand.Plain
  | .binary _ left right => left.Plain ∧ right.Plain
  | .conditional test consequent alternate => test.Plain ∧ consequent.Plain ∧ alternate.Plain
  | .member object _ _ => object.Plain
  | .index object key _ => object.Plain ∧ key.Plain
  | _ => False

/-- The holes of a template are plain. -/
def TemplatePart.AllPlain : List TemplatePart → Prop
  | [] => True
  | .text _ :: rest => TemplatePart.AllPlain rest
  | .hole e :: rest => e.Plain ∧ TemplatePart.AllPlain rest

end

mutual

/-- How many levels the evaluation of a plain expression takes at most. -/
def Expr.height : Expr → Nat
  | .template parts => TemplatePart.heights parts + 1
  | .unary _ operand => operand.height + 1
  | .binary _ left right => max left.height right.height + 1
  | .conditional test consequent alternate =>
    max test.height (max consequent.height alternate.height) + 1
  | .member object _ _ => object.height + 2
  | .index object key _ => max object.height key.height + 2
  | _ => 1

/-- How many levels the holes of a template take. -/
def TemplatePart.heights : List TemplatePart → Nat
  | [] => 0
  | .text _ :: rest => TemplatePart.heights rest
  | .hole e :: rest => max e.height (TemplatePart.heights rest)

end

theorem Expr.height_pos (e : Expr) : 0 < e.height := by
  cases e <;> simp only [Expr.height, Nat.succ_pos]

mutual

theorem Expr.Plain.watchable : ∀ {e : Expr}, e.Plain → e.Watchable [] []
  | .name _, plain => ⟨plain, id⟩
  | .literal _, _ => trivial
  | .template _, plain => by
    unfold Expr.Plain at plain
    unfold Expr.Watchable
    exact plain.watchable
  | .unary _ _, plain => by
    unfold Expr.Plain at plain
    unfold Expr.Watchable
    exact ⟨plain.1, plain.2.watchable⟩
  | .binary _ _ _, plain => by
    unfold Expr.Plain at plain
    unfold Expr.Watchable
    exact ⟨plain.1.watchable, plain.2.watchable⟩
  | .conditional _ _ _, plain => by
    unfold Expr.Plain at plain
    unfold Expr.Watchable
    exact ⟨plain.1.watchable, plain.2.1.watchable, plain.2.2.watchable⟩
  | .member object _ _, plain => Expr.Plain.watchable (e := object) plain
  | .index _ _ _, plain => by
    unfold Expr.Plain at plain
    unfold Expr.Watchable
    exact ⟨plain.1.watchable, plain.2.watchable⟩

theorem TemplatePart.AllPlain.watchable :
    ∀ {parts : List TemplatePart}, TemplatePart.AllPlain parts → TemplatePart.AllWatchable parts [] []
  | [], _ => trivial
  | .text _ :: _, plain => by
    unfold TemplatePart.AllPlain at plain
    unfold TemplatePart.AllWatchable
    exact plain.watchable
  | .hole _ :: _, plain => by
    unfold TemplatePart.AllPlain at plain
    unfold TemplatePart.AllWatchable
    exact ⟨plain.1.watchable, plain.2.watchable⟩

end

/-- Two ends of one step: the same value, of which `P` holds, or the same failure, and nothing changed. -/
inductive Seen.Ends {α : Type} (P : α → Prop) (s₁ s₂ : State) :
    EStateM.Result Exit State α → EStateM.Result Exit State α → Prop
  | ok {a : α} (known : P a) : Ends P s₁ s₂ (.ok a s₁) (.ok a s₂)
  | error (e : EvalError) : Ends P s₁ s₂ (.error (.error e) s₁) (.error (.error e) s₂)

/-- Two contexts, each in a state of its own, in which the same is seen under the names of an access. -/
structure Seen (z : Zone) (A : Access) (c₁ c₂ : Context) (s₁ s₂ : State) : Prop where
  options : c₁.options = c₂.options
  heap : Heap.Alike z.pairing .all s₁.heap s₂.heap
  lookup : ∀ n, A.reads n → Option.Rel (Value.Alike z.pairing) (c₁.lookup s₁.heap n) (c₂.lookup s₂.heap n)
  runs : s₁.interrupted = false ∧ s₂.interrupted = false
  unbound : ∀ n, s₁.env.find? n = none ∧ s₂.env.find? n = none

namespace Seen

variable {z : Zone} {A : Access} {c₁ c₂ : Context} {s₁ s₂ : State} {α β : Type} {P : α → Prop} {Q : β → Prop}

/-! ## Steps -/

theorem pure {a : α} (known : P a) : Ends P s₁ s₂ ((Pure.pure a : EvalM α) s₁) ((Pure.pure a : EvalM α) s₂) :=
  .ok known

theorem bind {x₁ x₂ : EvalM α} {f₁ f₂ : α → EvalM β} (head : Ends P s₁ s₂ (x₁ s₁) (x₂ s₂))
    (tail : ∀ a, P a → Ends Q s₁ s₂ (f₁ a s₁) (f₂ a s₂)) :
    Ends Q s₁ s₂ ((x₁ >>= f₁) s₁) ((x₂ >>= f₂) s₂) := by
  generalize first : x₁ s₁ = r₁ at head
  generalize second : x₂ s₂ = r₂ at head
  cases head with
  | ok known =>
    rw [bind_of_ok first, bind_of_ok second]
    exact tail _ known
  | error e =>
    rw [bind_of_error first, bind_of_error second]
    exact .error e

theorem readHeap {f : Heap → α} {g : Heap → α} (same : f s₁.heap = g s₂.heap) (known : P (g s₂.heap)) :
    Ends P s₁ s₂ (EvalM.readHeap f s₁) (EvalM.readHeap g s₂) := by
  show Ends P s₁ s₂ (.ok (f s₁.heap) s₁) (.ok (g s₂.heap) s₂)
  rw [same]
  exact .ok known

theorem ofExcept {r₁ r₂ : Except EvalError α} {R : α → α → Prop} (check : CheckAlike z.pairing R r₁ r₂)
    (result : ∀ a b, R a b → a = b ∧ P b) :
    Ends P s₁ s₂ (EvalM.ofExcept r₁ s₁) (EvalM.ofExcept r₂ s₂) := by
  cases check with
  | ok related =>
    obtain ⟨rfl, known⟩ := result _ _ related
    exact .ok known
  | error failure =>
    rw [Exit.error.inj (Zone.eq_of_exitAlike (m := .expression) (.error failure))]
    exact .error _

/-- A failure that is caught is the same in both. -/
theorem attempt {x₁ x₂ : EvalM α} (ends : Ends P s₁ s₂ (x₁ s₁) (x₂ s₂)) :
    Ends (fun r => (∃ a, P a ∧ r = .ok a) ∨ ∃ e, r = .error (.error e)) s₁ s₂
      (EvalM.attempt x₁ s₁) (EvalM.attempt x₂ s₂) := by
  unfold EvalM.attempt
  generalize x₁ s₁ = r₁ at ends ⊢
  generalize x₂ s₂ = r₂ at ends ⊢
  cases ends with
  | ok known => exact .ok (.inl ⟨_, known, rfl⟩)
  | error e => exact .ok (.inr ⟨e, rfl⟩)

/-- Steps in scopes of their own come back to the present ones. -/
theorem inEnvironment {env₁ env₂ : Environment} {x₁ x₂ : EvalM α}
    (ends : Ends P { s₁ with env := env₁ } { s₂ with env := env₂ } (x₁ { s₁ with env := env₁ })
      (x₂ { s₂ with env := env₂ })) :
    Ends P s₁ s₂ (EvalM.inEnvironment env₁ x₁ s₁) (EvalM.inEnvironment env₂ x₂ s₂) := by
  rw [inEnvironment_apply, inEnvironment_apply]
  generalize x₁ { s₁ with env := env₁ } = r₁ at ends ⊢
  generalize x₂ { s₂ with env := env₂ } = r₂ at ends ⊢
  cases ends with
  | ok known => exact .ok known
  | error e => exact .error e

variable (seen : Seen z A c₁ c₂ s₁ s₂)
include seen

theorem checkInterrupt : Ends (fun _ => True) s₁ s₂ (EvalM.checkInterrupt s₁) (EvalM.checkInterrupt s₂) := by
  unfold EvalM.checkInterrupt
  rw [seen.runs.1, seen.runs.2]
  exact .ok trivial

/-- A name that is read has the same value on both sides, as it is one of those they share. -/
theorem name {n : String} (reads : A.reads n) :
    Ends z.Holds s₁ s₂ (EvalM.lookup c₁ n s₁) (EvalM.lookup c₂ n s₂) := by
  -- no scope binds the name, so it is looked up in the context
  refine bind (P := (· = none)) ?_ fun b none => ?_
  · show Ends _ s₁ s₂ (.ok (s₁.env.find? n) s₁) (.ok (s₂.env.find? n) s₂)
    rw [(seen.unbound n).1, (seen.unbound n).2]
    exact .ok rfl
  subst none
  refine bind (P := fun v : Option Value => ∀ w, v = some w → z.Holds w) ?_ fun v holds => ?_
  · have found := seen.lookup n reads
    show Ends _ s₁ s₂ (.ok (c₁.lookup s₁.heap n) s₁) (.ok (c₂.lookup s₂.heap n) s₂)
    generalize c₁.lookup s₁.heap n = v₁ at found ⊢
    generalize c₂.lookup s₂.heap n = v₂ at found ⊢
    cases found with
    | none => exact .ok nofun
    | some alike =>
      obtain ⟨rfl, holds⟩ := Zone.alike_iff.1 alike
      refine .ok fun w same => ?_
      cases same
      exact holds
  cases v with
  | some v => exact .ok (holds v rfl)
  | none =>
    dsimp only
    rw [seen.options]
    split
    · exact .error _
    · exact .ok trivial

theorem property {v : Value} (holds : z.Holds v) (key : String) :
    Ends z.Holds s₁ s₂ (getProperty c₁ v key s₁) (getProperty c₂ v key s₂) := by
  obtain ⟨same, inside⟩ := Zone.alike_iff.1 (seen.heap.get holds.alike key)
  unfold getProperty
  rw [seen.options]
  split
  · split
    · refine bind (readHeap (P := fun _ => True) (seen.heap.text_eq holds.alike) trivial) fun text _ => ?_
      exact .error _
    · exact .ok trivial
  · exact readHeap same inside

theorem operator {a b : Value} (left : z.Holds a) (right : z.Holds b) (op : BinaryOp) :
    Ends z.Holds s₁ s₂ ((do EvalM.ofExcept (← EvalM.readHeap (·.applyBinary op a b))) s₁)
      ((do EvalM.ofExcept (← EvalM.readHeap (·.applyBinary op a b))) s₂) := by
  show Ends z.Holds s₁ s₂ (EvalM.ofExcept (s₁.heap.applyBinary op a b) s₁)
    (EvalM.ofExcept (s₂.heap.applyBinary op a b) s₂)
  exact ofExcept (seen.heap.applyBinary left.alike right.alike op) fun u v alike => Zone.alike_iff.1 alike

end Seen

/-- What holds of the value that a link of a chain gives, if it gives one. -/
abbrev Seen.Link (z : Zone) (r : Option Value) : Prop :=
  ∀ v, r = some v → z.Holds v

/-- Parts of plain expressions are seen alike by two interpreters, as far as they have levels for them. -/
structure Seen.Below (z : Zone) (A : Access) (s₁ s₂ : State) (levels : Nat) (sub₁ sub₂ : Interpreter) :
    Prop where
  expr : ∀ {e : Expr}, e.Plain → e.Within A [] → e.height ≤ levels →
    Seen.Ends z.Holds s₁ s₂ (sub₁.expr e s₁) (sub₂.expr e s₂)
  chain : ∀ {e : Expr}, e.Plain → e.Within A [] → e.height < levels →
    Seen.Ends (Seen.Link z) s₁ s₂ (sub₁.chain e s₁) (sub₂.chain e s₂)

namespace Seen

variable {z : Zone} {A : Access} {c₁ c₂ : Context} {s₁ s₂ : State} {levels : Nat} {sub₁ sub₂ : Interpreter}

section

variable (seen : Seen z A c₁ c₂ s₁ s₂) (below : Below z A s₁ s₂ levels sub₁ sub₂)
include seen below

theorem key {e : Expr} (plain : e.Plain) (within : e.Within A []) (enough : e.height ≤ levels) :
    Ends (fun _ => True) s₁ s₂ (evalKey sub₁ e s₁) (evalKey sub₂ e s₂) :=
  bind (below.expr plain within enough) fun _ holds =>
    readHeap (seen.heap.text_eq holds.alike) trivial

omit seen in
theorem target {e : Expr} (optional : Bool) (plain : e.Plain) (within : e.Within A [])
    (enough : e.height < levels) :
    Ends (Link z) s₁ s₂ (evalTarget sub₁ e optional s₁) (evalTarget sub₂ e optional s₂) := by
  refine bind (below.chain plain within enough) fun r holds => ?_
  cases r with
  | none => exact .ok nofun
  | some v =>
    dsimp only
    split
    · exact .ok nofun
    · exact .ok holds

omit below in
/-- Reading a property in what a link of a chain met. -/
theorem along {v : Value} (holds : z.Holds v) (key : String) :
    Ends (Link z) s₁ s₂ ((do return some (← getProperty c₁ v key) : EvalM (Option Value)) s₁)
      ((do return some (← getProperty c₂ v key) : EvalM (Option Value)) s₂) :=
  bind (seen.property holds key) fun _ inside => .ok fun _ same => Option.some.inj same ▸ inside

theorem member {object : Expr} (property : String) (optional : Bool) (plain : object.Plain)
    (within : object.Within A []) (enough : object.height < levels) :
    Ends (Link z) s₁ s₂ (EvalM.chainStep c₁ sub₁ (.member object property optional) s₁)
      (EvalM.chainStep c₂ sub₂ (.member object property optional) s₂) := by
  refine bind (target below optional plain within enough) fun r holds => ?_
  cases r with
  | none => exact .ok nofun
  | some v => exact seen.along (holds v rfl) property

theorem index {object key : Expr} (optional : Bool) (plain : object.Plain ∧ key.Plain)
    (within : object.Within A [] ∧ key.Within A []) (enough : max object.height key.height < levels) :
    Ends (Link z) s₁ s₂ (EvalM.chainStep c₁ sub₁ (.index object key optional) s₁)
      (EvalM.chainStep c₂ sub₂ (.index object key optional) s₂) := by
  refine bind (target below optional plain.1 within.1 (by omega)) fun r holds => ?_
  cases r with
  | none => exact .ok nofun
  | some v =>
    refine bind (seen.key below plain.2 within.2 (by omega)) fun text _ => ?_
    exact seen.along (holds v rfl) text

/-- A link of a chain. Other expressions are a chain of their own, evaluated one level down. -/
theorem chainStep {e : Expr} (plain : e.Plain) (within : e.Within A []) (enough : e.height ≤ levels) :
    Ends (Link z) s₁ s₂ (EvalM.chainStep c₁ sub₁ e s₁) (EvalM.chainStep c₂ sub₂ e s₂) := by
  have whole : Ends z.Holds s₁ s₂ (sub₁.expr e s₁) (sub₂.expr e s₂) := below.expr plain within enough
  cases e with
  | member object property optional =>
    rw [Expr.height] at enough
    exact seen.member below property optional plain within (by omega)
  | index object key optional =>
    unfold Expr.Plain at plain
    unfold Expr.Within at within
    rw [Expr.height] at enough
    exact seen.index below optional plain within (by omega)
  | call => exact plain.elim
  | _ => exact bind whole fun v holds => .ok fun w same => Option.some.inj same ▸ holds

/-- Both operands end alike in both runs, and so does the operation. -/
theorem binary {left right : Expr} (op : BinaryOp) (plain : left.Plain ∧ right.Plain)
    (within : left.Within A [] ∧ right.Within A []) (enough : max left.height right.height ≤ levels) :
    Ends z.Holds s₁ s₂ (evalBinary sub₁ op left right s₁) (evalBinary sub₂ op left right s₂) := by
  have second := below.expr plain.2 within.2 (le_trans (le_max_right _ _) enough)
  unfold evalBinary
  refine bind (below.expr plain.1 within.1 (le_trans (le_max_left _ _) enough)) fun a first => ?_
  have pick : ∀ b : Bool, Ends z.Holds s₁ s₂
      ((if b then sub₁.expr right else Pure.pure a) s₁) ((if b then sub₂.expr right else Pure.pure a) s₂) := by
    intro b
    cases b with
    | true => exact second
    | false => exact .ok first
  cases op with
  | and => exact pick a.isTruthy
  | or =>
    dsimp only
    split
    · exact .ok first
    · exact second
  | nullish => exact pick a.isNullish
  | _ => exact bind second fun b second => seen.operator first second _

/-- The operand of `typeof` may be a name that is missing. -/
theorem typeOperand {e : Expr} (plain : e.Plain) (within : e.Within A []) (enough : e.height ≤ levels) :
    Ends z.Holds s₁ s₂ (evalTypeOperand c₁ sub₁ e s₁) (evalTypeOperand c₂ sub₂ e s₂) := by
  have whole := below.expr plain within enough
  cases e with
  | name id =>
    have found := seen.name (within.resolve_left List.not_mem_nil)
    unfold evalTypeOperand
    refine bind (attempt found) fun r known => ?_
    rcases known with ⟨v, holds, rfl⟩ | ⟨e, rfl⟩
    · exact .ok holds
    · -- a name that is not defined has a type all the same
      cases e with
      | undefinedVariable => exact .ok trivial
      | _ => exact .error _
  | _ => exact whole

/-- Plain code does not delete. -/
theorem unary {op : UnaryOp} {operand : Expr} (keeps : op ≠ .delete) (plain : operand.Plain)
    (within : operand.Within A []) (enough : operand.height ≤ levels) :
    Ends z.Holds s₁ s₂ (evalUnary c₁ sub₁ op operand s₁) (evalUnary c₂ sub₂ op operand s₂) := by
  have value := below.expr plain within enough
  unfold evalUnary
  cases op with
  | typeof => exact bind (seen.typeOperand below plain within enough) fun v _ => .ok trivial
  | delete => exact absurd rfl keeps
  | minus | plus =>
    refine bind value fun v holds => readHeap ?_ trivial
    rw [seen.heap.toNumber_eq holds.alike]
  | not => exact bind value fun v _ => .ok trivial
  | bitNot =>
    refine bind value fun v holds => readHeap ?_ trivial
    rw [seen.heap.toInt32_eq holds.alike]
  | void => exact bind (bind value fun _ _ => pure (P := fun _ => True) trivial) fun _ _ => .ok trivial

/-- The parts end alike one by one, and so does the text that they make. -/
theorem template {parts : List TemplatePart} (plain : TemplatePart.AllPlain parts)
    (within : TemplatePart.AllWithin A parts []) (enough : TemplatePart.heights parts ≤ levels) :
    Ends z.Holds s₁ s₂ (evalTemplate sub₁ parts s₁) (evalTemplate sub₂ parts s₂) := by
  unfold evalTemplate
  refine bind (P := fun _ => True) ?_ fun text _ => .ok trivial
  -- the parts are appended to what is done so far, which is empty only at the start
  generalize "" = done
  induction parts generalizing done with
  | nil => exact .ok trivial
  | cons part rest ih =>
    rw [List.foldlM_cons, List.foldlM_cons]
    cases part with
    | text piece => exact ih plain within enough (done ++ piece)
    | hole e =>
      unfold TemplatePart.AllPlain at plain
      unfold TemplatePart.AllWithin at within
      rw [TemplatePart.heights] at enough
      refine bind (P := fun _ => True) ?_ fun done _ =>
        ih plain.2 within.2 (le_trans (le_max_right _ _) enough) done
      refine bind (below.expr plain.1 within.1 (le_trans (le_max_left _ _) enough)) fun v holds => ?_
      refine bind (readHeap (P := fun _ => True) (seen.heap.text_eq holds.alike) trivial) fun piece _ => ?_
      have fits := checkStringLength_alike z.pairing (done.utf8ByteSize + piece.utf8ByteSize)
      exact bind (P := fun _ => True) (ofExcept fits fun _ _ same => ⟨same, trivial⟩) fun _ _ => .ok trivial

/-- One case for each form of plain expression. None of them calls anything or writes. -/
theorem exprStep {e : Expr} (plain : e.Plain) (within : e.Within A []) (enough : e.height ≤ levels + 1) :
    Ends z.Holds s₁ s₂ (EvalM.exprStep c₁ sub₁ e s₁) (EvalM.exprStep c₂ sub₂ e s₂) := by
  unfold EvalM.exprStep
  refine bind seen.checkInterrupt fun _ _ => ?_
  -- a chain that was cut short reads as undefined
  have read : ∀ r, Link z r → z.Holds (r.getD .undefined) := by
    intro r holds
    cases r with
    | none => trivial
    | some v => exact holds v rfl
  cases e with
  | name id => exact seen.name (within.resolve_left List.not_mem_nil)
  | literal l => cases l <;> exact .ok trivial
  | template parts =>
    exact seen.template below plain within (Nat.le_of_succ_le_succ enough)
  | unary op operand =>
    unfold Expr.Plain at plain
    unfold Expr.Within at within
    rw [Expr.height] at enough
    exact seen.unary below plain.1 plain.2 within.2 (Nat.le_of_succ_le_succ enough)
  | binary op left right =>
    unfold Expr.Plain at plain
    unfold Expr.Within at within
    rw [Expr.height] at enough
    exact seen.binary below op plain within (Nat.le_of_succ_le_succ enough)
  | conditional test yes no =>
    unfold Expr.Plain at plain
    unfold Expr.Within at within
    rw [Expr.height] at enough
    refine bind (below.expr plain.1 within.1 (by omega)) fun v _ => ?_
    split
    · exact below.expr plain.2.1 within.2.1 (by omega)
    · exact below.expr plain.2.2 within.2.2 (by omega)
  | member object property optional =>
    rw [Expr.height] at enough
    exact bind (seen.member below property optional plain within (by omega)) fun r holds => .ok (read r holds)
  | index object key optional =>
    unfold Expr.Plain at plain
    unfold Expr.Within at within
    rw [Expr.height] at enough
    exact bind (seen.index below optional plain within (by omega)) fun r holds => .ok (read r holds)
  | _ => exact plain.elim

end

/-- The two interpreters see alike over any number of levels. -/
theorem below (seen : Seen z A c₁ c₂ s₁ s₂) :
    ∀ levels, Below z A s₁ s₂ levels (interpreter c₁ levels) (interpreter c₂ levels)
  | 0 => ⟨fun {e} _ _ enough => absurd (lt_of_lt_of_le e.height_pos enough) (lt_irrefl 0),
      fun _ _ enough => absurd enough (Nat.not_lt_zero _)⟩
  | levels + 1 =>
    ⟨fun plain within enough => seen.exprStep (seen.below levels) plain within enough,
      fun plain within enough => seen.chainStep (seen.below levels) plain within (Nat.le_of_lt_succ enough)⟩

/-- A plain expression changes nothing, and comes to the same value in both contexts or fails in the same
way. -/
theorem evaluate (seen : Seen z A c₁ c₂ { s₁ with env := .empty c₁.options.maxCallDepth }
      { s₂ with env := .empty c₂.options.maxCallDepth }) {e : Expr} (plain : e.Plain)
    (within : e.Within A []) (enough : e.height ≤ grantedLevels) :
    Ends z.Holds s₁ s₂ (c₁.evaluate e s₁) (c₂.evaluate e s₂) := by
  have caught := attempt ((seen.below grantedLevels).expr plain within enough)
  refine inEnvironment (bind caught fun r known => ?_)
  rcases known with ⟨v, holds, rfl⟩ | ⟨e, rfl⟩
  · exact .ok holds
  · exact .error e

end Seen

end BindScript

/-!
## Evaluating next to given names

While variables are resolved, expressions are evaluated with a new object as local context, which shows them
the names of the caller and what the declarations have come to so far. Plain expressions change nothing, so
all states of a resolution are the first one with more objects (`State.Later`), and what an expression comes
to depends on the names that are shown alone: `Context.outcome` is its value next to given names, in the
first state, and `Starts.gives_outcome` says that it has this value in all later states as well. Of the names
only those count that the expression watches (`Starts.outcome_congr`).
-/

namespace BindScript

open Dependency

/-! ### One more object -/

/-- A heap has what another has, and possibly more objects. -/
structure Heap.Extends (h₀ h : Heap) : Prop where
  arrays : h.arrays = h₀.arrays
  closures : h.closures = h₀.closures
  cells : h.cells = h₀.cells
  size : h₀.objects.size ≤ h.objects.size
  objects : ∀ o < h₀.objects.size, h.objectAt o = h₀.objectAt o

/-- The state with one more object, which has the given properties. -/
def State.showing (s : State) (m : Entries Value) : State :=
  { s with heap := (s.heap.newObject m).2 }

/-- The context that has the next object as its local context. -/
def Context.beside (ctx : Context) (s : State) : Context :=
  { ctx with locals := .object s.heap.objects.size }

/-- An evaluation that changes nothing. -/
def Context.Gives (ctx : Context) (e : Expr) (s : State) : Except EvalError Value → Prop
  | .ok v => ctx.evaluate e s = .ok v s
  | .error err => ctx.evaluate e s = .error (.error err) s

namespace Heap

variable {h₀ h h₁ h₂ : Heap} {m : Entries Value}

theorem Extends.refl (h : Heap) : h.Extends h :=
  ⟨rfl, rfl, rfl, le_refl _, fun _ _ => rfl⟩

theorem Extends.newObject (ext : h₀.Extends h) (m : Entries Value) : h₀.Extends (h.newObject m).2 where
  arrays := ext.arrays
  closures := ext.closures
  cells := ext.cells
  size := le_trans ext.size (by simp [Heap.newObject])
  objects o there := by
    rw [Heap.objectAt_newObject_of_ne (by have := ext.size; omega)]
    exact ext.objects o there

/-- Extensions of a well-formed heap agree on all that it has. -/
theorem Extends.alike (wf : h₀.WellFormed) (first : h₀.Extends h₁) (second : h₀.Extends h₂) :
    Heap.Alike h₀.zone.pairing .all h₁ h₂ := by
  have same := heapAlike_zone wf
  have arrays : ∀ {h a}, h₀.Extends h → h.arrayAt a = h₀.arrayAt a := fun ext => by
    simp only [arrayAt, ext.arrays]
  have closures : ∀ {h c}, h₀.Extends h → h.closureAt c = h₀.closureAt c := fun ext => by
    simp only [closureAt, ext.closures]
  have cells : ∀ {h c}, h₀.Extends h → h.cellAt c = h₀.cellAt c := fun ext => by
    simp only [cellAt, ext.cells]
  refine ⟨fun paired => ?_, fun paired => ?_, fun paired => ?_, fun paired => ?_, fun paired => ?_,
    fun paired => ?_⟩
  · simp only [items, arrays first, arrays second]
    exact same.items paired
  · simp only [arrays first, arrays second]
    exact same.arrayFrozen paired
  · obtain ⟨rfl, there⟩ := paired
    simp only [properties, first.objects _ there, second.objects _ there]
    exact same.properties ⟨rfl, there⟩
  · obtain ⟨rfl, there⟩ := paired
    simp only [first.objects _ there, second.objects _ there]
  · simp only [closures first, closures second]
    exact same.closure paired
  · simp only [cells first, cells second]
    exact same.cell paired

end Heap

/-! ### Evaluation next to given names -/

/-- A resolution can start: what is referred to is there, and nothing interrupts it. -/
structure Context.Starts (ctx : Context) (s : State) : Prop where
  heap : s.heap.WellFormed
  context : ctx.WellFormed s.heap
  runs : s.interrupted = false

/-- A state of a resolution that starts in another: there are more objects. -/
structure State.Later (s t : State) : Prop where
  heap : s.heap.Extends t.heap
  interrupted : t.interrupted = s.interrupted

/-- The values of the entries were there before. -/
def Entries.Held (m : Entries Value) (h : Heap) : Prop :=
  ∀ n v, m.get? n = some v → h.Allocates v

namespace Context

variable {ctx : Context} {s t t₁ t₂ : State} {m m₁ m₂ : Entries Value} {e : Expr}

theorem lookup_beside (ctx : Context) (s : State) (m : Entries Value) (n : String) :
    (ctx.beside s).lookup (s.showing m).heap n = match m.get? n with
      | some v => some v
      | none => if (s.showing m).heap.has ctx.app n then some ((s.showing m).heap.get ctx.app n)
        else ctx.globals.get? n := by
  have properties : (s.showing m).heap.properties s.heap.objects.size = m := by
    simp [State.showing, Heap.properties, Heap.objectAt_newObject_self]
  have has : (s.showing m).heap.has (.object s.heap.objects.size) n = (m.get? n).isSome := by
    rw [Heap.has, properties, Entries.contains_eq_isSome]
  simp only [lookup, beside, has]
  cases found : m.get? n with
  | none => rfl
  | some v => simp [Heap.get, properties, found]

/-- What is seen next to given names, and next to others that agree on what an expression watches. -/
theorem Starts.seen (starts : ctx.Starts s) (first : s.Later t₁) (second : s.Later t₂) (held : m₂.Held s.heap)
    {A : Access} (agree : ∀ n, A.reads n → m₁.get? n = m₂.get? n) (env₁ env₂ : Environment)
    (unbound : ∀ n, env₁.find? n = none ∧ env₂.find? n = none) :
    Seen s.heap.zone A (ctx.beside t₁) (ctx.beside t₂) { t₁.showing m₁ with env := env₁ }
      { t₂.showing m₂ with env := env₂ } where
  options := rfl
  heap := Heap.Extends.alike starts.heap (first.heap.newObject m₁) (second.heap.newObject m₂)
  lookup n reads := by
    have alike : Heap.Alike s.heap.zone.pairing .all (t₁.showing m₁).heap (t₂.showing m₂).heap :=
      Heap.Extends.alike starts.heap (first.heap.newObject m₁) (second.heap.newObject m₂)
    have app : Value.Alike s.heap.zone.pairing ctx.app ctx.app :=
      starts.context.inside.app.alike
    show Option.Rel _ ((ctx.beside t₁).lookup (t₁.showing m₁).heap n)
      ((ctx.beside t₂).lookup (t₂.showing m₂).heap n)
    rw [lookup_beside, lookup_beside, agree n reads, alike.has_eq app n]
    -- a name that neither object shows is looked up further out, where both heaps are the first one
    cases found : m₂.get? n with
    | some v => exact .some (Zone.Holds.alike (Heap.holds_zone.2 (held n v found)))
    | none =>
      dsimp only
      split
      · exact .some (alike.get app n)
      · refine Entries.Alike.get? (Zone.entriesAlike_iff.2 ⟨rfl, fun v mem => ?_⟩) n
        obtain ⟨entry, there, rfl⟩ := List.mem_map.1 mem
        exact starts.context.inside.globals entry there
  runs := ⟨first.interrupted.trans starts.runs, second.interrupted.trans starts.runs⟩
  unbound := unbound

/-- A plain expression gives the same next to names that agree on what it watches. -/
theorem Starts.gives (starts : ctx.Starts s) (apis : TrackedApis) (first : s.Later t₁)
    (second : s.Later t₂) (held : m₂.Held s.heap) (plain : e.Plain) (enough : e.height ≤ grantedLevels)
    (agree : ∀ n, Watches (resolve apis (.expression e) {}).dependencies n → m₁.get? n = m₂.get? n) :
    ∃ r, (∀ v, r = .ok v → s.heap.Allocates v) ∧ (ctx.beside t₁).Gives e (t₁.showing m₁) r ∧
      (ctx.beside t₂).Gives e (t₂.showing m₂) r := by
  have within := Expr.within_of_watchable apis plain.watchable
  have seen := starts.seen first second held (A := .watched (resolve apis (.expression e) {}).dependencies) agree
  have ends := Seen.evaluate (seen (.empty _) (.empty _) fun _ => ⟨rfl, rfl⟩) plain within enough
  generalize first : (ctx.beside t₁).evaluate e _ = r₁ at ends
  generalize second : (ctx.beside t₂).evaluate e _ = r₂ at ends
  cases ends with
  | @ok v holds =>
    refine ⟨.ok v, fun u same => ?_, first, second⟩
    cases same
    exact Heap.holds_zone.1 holds
  | error err => exact ⟨.error err, nofun, first, second⟩

/-- What an expression comes to next to the given names. -/
def outcome (ctx : Context) (s : State) (m : Entries Value) (e : Expr) : Except EvalError Value :=
  match (ctx.beside s).evaluate e (s.showing m) with
  | .ok v _ => .ok v
  | .error (.error err) _ => .error err
  | .error _ _ => .error .interrupted

theorem outcome_of_gives {r : Except EvalError Value} (gives : (ctx.beside s).Gives e (s.showing m) r) :
    ctx.outcome s m e = r := by
  unfold outcome
  cases r with
  | ok v => rw [show (ctx.beside s).evaluate e (s.showing m) = .ok v _ from gives]
  | error err => rw [show (ctx.beside s).evaluate e (s.showing m) = .error (.error err) _ from gives]

/-- A plain expression comes to its outcome in every state of a resolution that shows the names. -/
theorem Starts.gives_outcome (starts : ctx.Starts s) (later : s.Later t) (held : m.Held s.heap) (plain : e.Plain)
    (enough : e.height ≤ grantedLevels) : (∀ v, ctx.outcome s m e = .ok v → s.heap.Allocates v) ∧
      (ctx.beside t).Gives e (t.showing m) (ctx.outcome s m e) := by
  obtain ⟨r, allocated, here, there⟩ := starts.gives {} ⟨.refl _, rfl⟩ later held plain enough
    fun _ _ => rfl
  rw [outcome_of_gives here]
  exact ⟨allocated, there⟩

theorem Starts.outcome_congr (starts : ctx.Starts s) (apis : TrackedApis) (held : m₂.Held s.heap) (plain : e.Plain)
    (enough : e.height ≤ grantedLevels)
    (agree : ∀ n, Watches (resolve apis (.expression e) {}).dependencies n → m₁.get? n = m₂.get? n) :
    ctx.outcome s m₁ e = ctx.outcome s m₂ e := by
  obtain ⟨r, -, first, second⟩ := starts.gives apis ⟨.refl _, rfl⟩ ⟨.refl _, rfl⟩ held plain enough agree
  rw [outcome_of_gives first, outcome_of_gives second]

end Context

end BindScript
