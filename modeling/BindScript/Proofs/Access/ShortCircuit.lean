import BindScript.Proofs.Lockstep.Interrupts
import BindScript.Proofs.Variables.Chains

/-!
# Optional links stop their chain

A chain is evaluated link by link, from the left. It comes to no value at all just where one of its optional links
meets nothing (`Context.chain_stops_iff`): then what is to the right of the link is left out, and the whole chain reads
as `undefined` in the state in which the link has met nothing (`Context.expr_of_stopped`). Neither the state nor the
value depend on what is left out.

A call goes together with the access that gives its callee, since it needs the receiver. So there are steps for single
links and for two links at a time, and the levels over which the parts of a chain are evaluated are counted in steps
(`Expr.span`).
-/

namespace BindScript

open EvalM

/-! ## Links -/

/-- In how many steps a chain is evaluated after the expression that it starts with. -/
def Expr.span : Expr → Nat
  | .member inner _ _ => inner.span + 1
  | .index inner _ _ => inner.span + 1
  | .call (.member inner _ _) _ _ => inner.span + 1
  | .call (.index inner _ _) _ _ => inner.span + 1
  | .call callee _ _ => callee.span + 1
  | _ => 0

/-- The chain ends in the link, or the link is further to the left. -/
inductive Expr.LinkOf (link : Expr) : Expr → Prop
  | last : LinkOf link link
  | member {object : Expr} {property : String} {optional : Bool} : LinkOf link object →
    LinkOf link (.member object property optional)
  | index {object key : Expr} {optional : Bool} : LinkOf link object → LinkOf link (.index object key optional)
  | call {callee : Expr} {args : List Expr} {optional : Bool} : LinkOf link callee →
    LinkOf link (.call callee args optional)

/-- Evaluates a chain, with so many levels for the expression that it starts with. -/
def Context.chainOver (ctx : Context) (levels : Nat) (e : Expr) : EvalM (Option Value) :=
  (BindScript.interpreter ctx (levels + e.span)).chain e

/-- The callee is a built-in method of its receiver. -/
def Context.CallsMethod (ctx : Context) (levels : Nat) (s : State) : Expr → Prop
  | .member object property _ => ∃ receiver t, ctx.chainOver levels object s = .ok (some receiver) t ∧
    (Method.find? receiver property).isSome
  | .index object key _ => ∃ receiver t text u, ctx.chainOver levels object s = .ok (some receiver) t ∧
    evalKey (BindScript.interpreter ctx (levels + object.span)) key t = .ok text u ∧
    (Method.find? receiver text).isSome
  | _ => False

/-- A chain comes to `null` or `undefined`. -/
def Context.ComesToNothing (ctx : Context) (levels : Nat) (e : Expr) (s t : State) : Prop :=
  ∃ v, ctx.chainOver levels e s = .ok (some v) t ∧ v.isNullish = true

/-- An optional link meets nothing: what it reads in or calls comes to `null` or `undefined`. -/
def Context.MeetsNothing (ctx : Context) (levels : Nat) (s t : State) : Expr → Prop
  | .member object _ true => ctx.ComesToNothing levels object s t
  | .index object _ true => ctx.ComesToNothing levels object s t
  | .call callee _ true => ctx.ComesToNothing levels callee s t ∧ ¬ctx.CallsMethod levels s callee
  | _ => False

/-! ## Steps -/

namespace EvalM

variable {ctx : Context} {sub : Interpreter} {object key callee : Expr} {args : List Expr} {property text : String}
  {optional : Bool} {receiver v : Value} {s t u : State}

theorem eq_of_getProperty (run : getProperty ctx receiver text s = .ok v t) : t = s := by
  unfold getProperty at run
  split at run
  · split at run
    · obtain ⟨_, _, read, run⟩ := exists_of_bind_ok run
      cases run
    · cases run
      rfl
  · cases run
    rfl

theorem evalTarget_of_none (run : sub.chain object s = .ok none t) :
    evalTarget sub object optional s = .ok none t := by
  unfold evalTarget
  rw [bind_of_ok run]
  rfl

theorem evalTarget_of_some (run : sub.chain object s = .ok (some v) t) :
    evalTarget sub object optional s = .ok (if optional && v.isNullish then none else some v) t := by
  unfold evalTarget
  rw [bind_of_ok run]
  dsimp only
  split <;> rfl

/-- What a link applies to is left out if the chain before the link is stopped, or if the link stops it. -/
theorem evalTarget_eq_none : evalTarget sub object optional s = .ok none t ↔
    sub.chain object s = .ok none t ∨
      optional = true ∧ ∃ v, sub.chain object s = .ok (some v) t ∧ v.isNullish = true := by
  constructor
  · intro run
    obtain ⟨r, u, before, -⟩ := exists_of_bind_ok run
    cases r with
    | none =>
      cases (evalTarget_of_none before).symm.trans run
      exact .inl before
    | some v =>
      have target := (evalTarget_of_some before).symm.trans run
      split at target
      next stops =>
        cases target
        obtain ⟨isOptional, nothing⟩ := Bool.and_eq_true_iff.1 stops
        exact .inr ⟨isOptional, v, before, nothing⟩
      next => cases target
  · rintro (before | ⟨rfl, v, before, nothing⟩)
    · exact evalTarget_of_none before
    · rw [evalTarget_of_some before, nothing]
      rfl

theorem chain_of_evalTarget (run : evalTarget sub object optional s = .ok (some v) t) :
    sub.chain object s = .ok (some v) t := by
  obtain ⟨r, u, before, -⟩ := exists_of_bind_ok run
  cases r with
  | none => cases (evalTarget_of_none before).symm.trans run
  | some w =>
    have target := (evalTarget_of_some before).symm.trans run
    split at target
    next => cases target
    next =>
      cases target
      exact before

/-- A step that ends by giving some value does not give none. -/
theorem some_ne_none {α : Type} {x : EvalM α} : (do return some (← x)) s ≠ .ok none t := by
  intro run
  obtain ⟨_, _, -, impossible⟩ := exists_of_bind_ok run
  cases impossible

theorem alongLink_eq_none {read : Value → EvalM Value} :
    alongLink sub object optional read s = .ok none t ↔ evalTarget sub object optional s = .ok none t := by
  constructor
  · intro run
    obtain ⟨r, u, target, rest⟩ := exists_of_bind_ok run
    cases r with
    | none =>
      cases rest
      exact target
    | some receiver => exact absurd rest some_ne_none
  · exact fun target => bind_of_ok target

/-- A link has a value if there is one to read from. -/
theorem alongLink_eq_some {read : Value → EvalM Value} : alongLink sub object optional read s = .ok (some v) t ↔
    ∃ receiver u, evalTarget sub object optional s = .ok (some receiver) u ∧ read receiver u = .ok v t := by
  constructor
  · intro run
    obtain ⟨r, u, target, rest⟩ := exists_of_bind_ok run
    cases r with
    | none => cases rest
    | some receiver =>
      obtain ⟨w, _, reads, same⟩ := exists_of_bind_ok rest
      cases same
      exact ⟨receiver, u, target, reads⟩
  · rintro ⟨receiver, u, target, reads⟩
    exact (bind_of_ok target).trans (bind_of_ok reads)

/-- A call of a property is left out if it is optional, the property is nothing, and there is no method. -/
theorem callProperty_eq_none : callProperty ctx sub callee receiver text args optional s = .ok none t ↔
    optional = true ∧ (∃ v, getProperty ctx receiver text s = .ok v t ∧ v.isNullish = true) ∧
      Method.find? receiver text = none := by
  constructor
  · intro run
    obtain ⟨property, u, read, rest⟩ := exists_of_bind_ok run
    -- what is called, a property or a method, answers with some value, so neither of them was
    split at rest
    next callable =>
      obtain ⟨_, _, -, called⟩ := exists_of_bind_ok rest
      exact absurd called some_ne_none
    next =>
      split at rest
      next nothing =>
        cases absent : Method.find? receiver text with
        | some m =>
          rw [absent] at rest
          obtain ⟨_, _, -, called⟩ := exists_of_bind_ok rest
          exact absurd called some_ne_none
        | none =>
          rw [absent] at rest
          cases optional with
          | true =>
            cases rest
            exact ⟨rfl, ⟨property, read, nothing⟩, rfl⟩
          | false => cases rest
      next => cases rest
  · rintro ⟨rfl, ⟨v, read, nothing⟩, absent⟩
    unfold callProperty
    rw [bind_of_ok read]
    cases v with
    | undefined | null =>
      rw [absent]
      rfl
    | _ => cases nothing

/-- Calls what a chain comes to, where that is not read along a link. -/
def callTarget (sub : Interpreter) (callee : Expr) (args : List Expr) (optional : Bool) : EvalM (Option Value) := do
  match ← evalTarget sub callee optional with
  | none => return none
  | some f =>
    if f.isCallable then return some (← sub.call f (← evalArgs sub args))
    else fail (notCallable callee)

/-- The target of a call comes to nothing just where a member of it would. The arguments have no part in that. -/
theorem callTarget_eq_none :
    callTarget sub callee args optional s = .ok none t ↔ evalTarget sub callee optional s = .ok none t := by
  constructor
  · intro run
    obtain ⟨r, u, target, rest⟩ := exists_of_bind_ok run
    cases r with
    | none =>
      cases rest
      exact target
    | some f =>
      dsimp only at rest
      split at rest
      · obtain ⟨_, _, -, called⟩ := exists_of_bind_ok rest
        exact absurd called some_ne_none
      · cases rest
  · exact fun target => bind_of_ok target

/-- Calls what is read along a link. -/
def callAlong (ctx : Context) (sub : Interpreter) (callee object : Expr) (optionalLink : Bool) (key : EvalM String)
    (args : List Expr) (optional : Bool) : EvalM (Option Value) := do
  match ← evalTarget sub object optionalLink with
  | none => return none
  | some receiver => callProperty ctx sub callee receiver (← key) args optional

/-- A call of a member comes to nothing in two ways: there is no object to look in, or the call is optional and what the
member reads is nullish and no method. -/
theorem callAlong_eq_none {optionalLink : Bool} {key : EvalM String} :
    callAlong ctx sub callee object optionalLink key args optional s = .ok none t ↔
      evalTarget sub object optionalLink s = .ok none t ∨ optional = true ∧ ∃ receiver u text,
        evalTarget sub object optionalLink s = .ok (some receiver) u ∧ key u = .ok text t ∧
          (∃ v, getProperty ctx receiver text t = .ok v t ∧ v.isNullish = true) ∧
          Method.find? receiver text = none := by
  constructor
  · intro run
    obtain ⟨r, u, target, rest⟩ := exists_of_bind_ok run
    cases r with
    | none =>
      cases rest
      exact .inl target
    | some receiver =>
      obtain ⟨text, w, keyed, called⟩ := exists_of_bind_ok rest
      obtain ⟨isOptional, ⟨v, read, nothing⟩, absent⟩ := callProperty_eq_none.1 called
      obtain rfl := eq_of_getProperty read
      exact .inr ⟨isOptional, receiver, u, text, target, keyed, ⟨v, read, nothing⟩, absent⟩
  · rintro (target | ⟨isOptional, receiver, u, text, target, keyed, read, absent⟩)
    · exact bind_of_ok target
    · exact (bind_of_ok target).trans
        ((bind_of_ok keyed).trans (callProperty_eq_none.2 ⟨isOptional, read, absent⟩))

end EvalM

/-! ## Where a chain is stopped -/

namespace Context

variable {ctx : Context} {levels : Nat} {e object key callee : Expr} {args : List Expr} {property : String}
  {optional optionalLink : Bool} {v : Value} {s t : State}

theorem chainOver_member (ctx : Context) (levels : Nat) (object : Expr) (property : String) (optional : Bool) :
    ctx.chainOver levels (.member object property optional) =
      alongLink (BindScript.interpreter ctx (levels + object.span)) object optional
        fun target => getProperty ctx target property :=
  chainStep_member ctx (BindScript.interpreter ctx (levels + object.span)) object property optional

theorem chainOver_index (ctx : Context) (levels : Nat) (object key : Expr) (optional : Bool) :
    ctx.chainOver levels (.index object key optional) =
      alongLink (BindScript.interpreter ctx (levels + object.span)) object optional
        (fun target => do
          getProperty ctx target (← evalKey (BindScript.interpreter ctx (levels + object.span)) key)) :=
  chainStep_index ctx (BindScript.interpreter ctx (levels + object.span)) object key optional

theorem chainOver_call_member : ctx.chainOver levels (.call (.member object property optionalLink) args optional) =
    callAlong ctx (BindScript.interpreter ctx (levels + object.span)) (.member object property optionalLink) object
      optionalLink (pure property) args optional :=
  rfl

theorem chainOver_call_index : ctx.chainOver levels (.call (.index object key optionalLink) args optional) =
    callAlong ctx (BindScript.interpreter ctx (levels + object.span)) (.index object key optionalLink) object
      optionalLink (evalKey (BindScript.interpreter ctx (levels + object.span)) key) args optional :=
  rfl

theorem stopped_member : ctx.chainOver levels (.member object property optional) s = .ok none t ↔
    ctx.chainOver levels object s = .ok none t ∨ optional = true ∧ ctx.ComesToNothing levels object s t := by
  rw [chainOver_member, alongLink_eq_none, evalTarget_eq_none]
  rfl

theorem stopped_index : ctx.chainOver levels (.index object key optional) s = .ok none t ↔
    ctx.chainOver levels object s = .ok none t ∨ optional = true ∧ ctx.ComesToNothing levels object s t := by
  rw [chainOver_index, alongLink_eq_none, evalTarget_eq_none]
  rfl

/-- The call of an access goes over the same steps as the access does. -/
theorem stopped_call_access {sub : Interpreter} {text : EvalM String}
    (reads : ctx.chainOver levels callee =
      alongLink sub object optionalLink (fun target => do getProperty ctx target (← text)))
    (calls : ctx.chainOver levels (.call callee args optional) =
      callAlong ctx sub callee object optionalLink text args optional)
    (method : ctx.CallsMethod levels s callee ↔ ∃ receiver u key t, sub.chain object s = .ok (some receiver) u ∧
      text u = .ok key t ∧ (Method.find? receiver key).isSome) :
    ctx.chainOver levels (.call callee args optional) s = .ok none t ↔ ctx.chainOver levels callee s = .ok none t ∨
      optional = true ∧ ctx.ComesToNothing levels callee s t ∧ ¬ctx.CallsMethod levels s callee := by
  unfold ComesToNothing
  rw [calls, callAlong_eq_none, reads, alongLink_eq_none, method]
  -- both go along the link in the same way; they differ only where the property comes to nothing
  refine or_congr_right (and_congr_right fun _ => ⟨?_, ?_⟩)
  · rintro ⟨receiver, u, key, target, keyed, ⟨v, read, nothing⟩, absent⟩
    refine ⟨⟨v, alongLink_eq_some.2 ⟨receiver, u, target, (bind_of_ok keyed).trans read⟩, nothing⟩, ?_⟩
    rintro ⟨receiver', u', key', t', chain', keyed', found⟩
    cases (chain_of_evalTarget target).symm.trans chain'
    cases keyed.symm.trans keyed'
    rw [absent] at found
    cases found
  · rintro ⟨⟨v, run, nothing⟩, noMethod⟩
    obtain ⟨receiver, u, target, read⟩ := alongLink_eq_some.1 run
    obtain ⟨key, w, keyed, read⟩ := exists_of_bind_ok read
    obtain rfl := eq_of_getProperty read
    refine ⟨receiver, u, key, target, keyed, ⟨v, read, nothing⟩, ?_⟩
    cases found : Method.find? receiver key with
    | none => rfl
    | some m => exact absurd ⟨receiver, u, key, t, chain_of_evalTarget target, keyed, found ▸ rfl⟩ noMethod

/-- A call of anything else goes over one step more. -/
theorem stopped_call_target {sub : Interpreter}
    (target : ctx.chainOver levels callee = sub.chain callee)
    (calls : ctx.chainOver levels (.call callee args optional) = callTarget sub callee args optional)
    (noMethod : ¬ctx.CallsMethod levels s callee) :
    ctx.chainOver levels (.call callee args optional) s = .ok none t ↔ ctx.chainOver levels callee s = .ok none t ∨
      optional = true ∧ ctx.ComesToNothing levels callee s t ∧ ¬ctx.CallsMethod levels s callee := by
  unfold ComesToNothing
  rw [calls, callTarget_eq_none, evalTarget_eq_none, target, and_iff_left noMethod]

/-- An optional chain stops at a call if it stops before, or if the callee of an optional call is nullish. -/
theorem stopped_call : ctx.chainOver levels (.call callee args optional) s = .ok none t ↔
    ctx.chainOver levels callee s = .ok none t ∨
      optional = true ∧ ctx.ComesToNothing levels callee s t ∧ ¬ctx.CallsMethod levels s callee := by
  cases callee with
  | member object property optionalLink =>
    refine stopped_call_access (chainOver_member ..) chainOver_call_member ⟨?_, ?_⟩
    · rintro ⟨receiver, u, run, found⟩
      exact ⟨receiver, u, property, u, run, rfl, found⟩
    · rintro ⟨receiver, u, _, _, run, same, found⟩
      cases same
      exact ⟨receiver, u, run, found⟩
  | index object key optionalLink =>
    refine stopped_call_access (chainOver_index ..) chainOver_call_index ⟨?_, ?_⟩
    · rintro ⟨receiver, u, text, w, run, keyed, found⟩
      exact ⟨receiver, u, text, w, run, keyed, found⟩
    · rintro ⟨receiver, u, text, w, run, keyed, found⟩
      exact ⟨receiver, u, text, w, run, keyed, found⟩
  | _ => exact stopped_call_target rfl rfl id

/-- What is no link of a chain gives some value. -/
theorem not_stopped (start : e.span = 0) (value : ∀ sub, chainStep ctx sub e = do return some (← sub.expr e)) :
    ctx.chainOver levels e s ≠ .ok none t := by
  unfold chainOver
  rw [start]
  cases levels with
  | zero => exact nofun
  | succ levels =>
    show chainStep ctx (BindScript.interpreter ctx levels) e s ≠ _
    rw [value]
    exact some_ne_none

end Context

/-- The chain is stopped by a link if it is stopped further to the left, or if it ends in the link. -/
theorem Expr.LinkOf.stops {ctx : Context} {levels : Nat} {link e : Expr} {s t : State} (linkOf : link.LinkOf e)
    (meets : ctx.MeetsNothing levels s t link) : ctx.chainOver levels e s = .ok none t := by
  induction linkOf with
  | last =>
    unfold Context.MeetsNothing at meets
    split at meets
    · exact Context.stopped_member.2 (.inr ⟨rfl, meets⟩)
    · exact Context.stopped_index.2 (.inr ⟨rfl, meets⟩)
    · exact Context.stopped_call.2 (.inr ⟨rfl, meets⟩)
    · exact meets.elim
  | member _ ih => exact Context.stopped_member.2 (.inl ih)
  | index _ ih => exact Context.stopped_index.2 (.inl ih)
  | call _ ih => exact Context.stopped_call.2 (.inl ih)

/-- A chain that is stopped is stopped by one of its links. -/
theorem Context.exists_link_of_stopped {ctx : Context} {levels : Nat} {s t : State} : ∀ {e : Expr},
    ctx.chainOver levels e s = .ok none t → ∃ link : Expr, link.LinkOf e ∧ ctx.MeetsNothing levels s t link
  | .member object property optional, stopped => by
    rcases stopped_member.1 stopped with before | ⟨rfl, nothing⟩
    · obtain ⟨link, linkOf, meets⟩ := exists_link_of_stopped before
      exact ⟨link, .member linkOf, meets⟩
    · exact ⟨_, .last, nothing⟩
  | .index object key optional, stopped => by
    rcases stopped_index.1 stopped with before | ⟨rfl, nothing⟩
    · obtain ⟨link, linkOf, meets⟩ := exists_link_of_stopped before
      exact ⟨link, .index linkOf, meets⟩
    · exact ⟨_, .last, nothing⟩
  | .call callee args optional, stopped => by
    rcases stopped_call.1 stopped with before | ⟨rfl, nothing⟩
    · obtain ⟨link, linkOf, meets⟩ := exists_link_of_stopped before
      exact ⟨link, .call linkOf, meets⟩
    · exact ⟨_, .last, nothing⟩
  | .name _, stopped | .literal _, stopped | .template _, stopped | .unary _ _, stopped | .update _ _ _, stopped
  | .binary _ _ _, stopped | .conditional _ _ _, stopped | .sequence _, stopped | .array _, stopped
  | .object _, stopped | .spread _, stopped | .assign _ _ _, stopped | .function _, stopped =>
    absurd stopped (not_stopped rfl fun _ => rfl)

/-! ## Evaluating a whole chain -/

namespace EvalM

variable {ctx : Context} {levels : Nat}

/-- Only a run that has not been interrupted gives values. -/
theorem runs_of_expr {e : Expr} {v : Value} {s t : State} (run : (interpreter ctx levels).expr e s = .ok v t) :
    s.interrupted = false := by
  cases levels with
  | zero => cases run
  | succ levels =>
    obtain ⟨_, _, checked, -⟩ := exists_of_bind_ok (show exprStep ctx (interpreter ctx levels) e s = .ok v t from run)
    unfold checkInterrupt at checked
    split at checked
    next => cases checked
    next runs => simpa using runs

/-- A chain begins with the expression that it starts with. -/
theorem runs_of_chain {e : Expr} {r : Option Value} {s t : State} (run : (interpreter ctx levels).chain e s = .ok r t) :
    s.interrupted = false := by
  induction levels generalizing e r t with
  | zero => cases run
  | succ levels ih =>
    have ofTarget {object : Expr} {optional : Bool} {r t}
        (target : evalTarget (interpreter ctx levels) object optional s = .ok r t) : s.interrupted = false := by
      obtain ⟨_, _, before, -⟩ := exists_of_bind_ok target
      exact ih before
    have step : chainStep ctx (interpreter ctx levels) e s = .ok r t := run
    cases e with
    | member object property optional =>
      rw [chainStep_member] at step
      obtain ⟨_, _, target, -⟩ := exists_of_bind_ok step
      exact ofTarget target
    | index object key optional =>
      rw [chainStep_index] at step
      obtain ⟨_, _, target, -⟩ := exists_of_bind_ok step
      exact ofTarget target
    | call callee args optional =>
      cases callee <;>
        · obtain ⟨_, _, target, -⟩ := exists_of_bind_ok step
          exact ofTarget target
    | _ =>
      obtain ⟨_, _, first, -⟩ := exists_of_bind_ok step
      exact runs_of_expr first

end EvalM

namespace Context

variable {ctx : Context} {levels : Nat} {e link : Expr} {s t : State}

/-- A chain comes to no value just where one of its optional links meets nothing. -/
theorem chain_stops_iff : ctx.chainOver levels e s = .ok none t ↔
    ∃ link : Expr, link.LinkOf e ∧ ctx.MeetsNothing levels s t link :=
  ⟨exists_link_of_stopped, fun ⟨_, linkOf, meets⟩ => linkOf.stops meets⟩

/-- A whole chain reads as `undefined` if it comes to no value. -/
theorem expr_of_stopped (stopped : ctx.chainOver levels e s = .ok none t) :
    (BindScript.interpreter ctx (levels + e.span)).expr e s = .ok .undefined t := by
  -- the whole chain is looked at for interrupts once more; it does not begin interrupted, as its start gave a value
  have checked : checkInterrupt s = .ok () s := checkInterrupt_of_runs (runs_of_chain stopped)
  have whole {sub : Interpreter} (read : chainStep ctx sub e s = .ok none t) :
      (do checkInterrupt; evalChain ctx sub e) s = .ok .undefined t :=
    (bind_of_ok checked).trans (bind_of_ok read)
  cases e with
  | member object property optional => exact whole stopped
  | index object key optional => exact whole stopped
  | call callee args optional => cases callee <;> exact whole stopped
  | _ => exact absurd stopped (not_stopped rfl fun _ => rfl)

/-- A chain comes to no value just where one of its optional links meets nothing. Then the whole chain reads as
`undefined`, in the state in which the link meets nothing: nothing to the right of the link is evaluated. -/
theorem chain_undefined (ctx : Context) (levels : Nat) (e : Expr) (s t : State) :
    (ctx.chainOver levels e s = .ok none t ↔ ∃ link : Expr, link.LinkOf e ∧ ctx.MeetsNothing levels s t link) ∧
      ∀ link : Expr, link.LinkOf e → ctx.MeetsNothing levels s t link →
        (BindScript.interpreter ctx (levels + e.span)).expr e s = .ok .undefined t :=
  ⟨chain_stops_iff, fun _ linkOf meets => expr_of_stopped (linkOf.stops meets)⟩

/-- In `"a".b?.c[d()](e())` in strict mode, none of the unbound names to the right of the optional link is called. -/
theorem chain_undefined_strict :
    let ctx : Context := { locals := .null, app := .null, options := { strict := true } }
    let link : Expr := .member (.member (.literal (.string "a")) "b" false) "c" true
    ctx.MeetsNothing 2 {} {} link ∧
      (BindScript.interpreter ctx 5).expr (.call (.index link (.call (.name "d") [] false) false)
        [.call (.name "e") [] false] false) {} = .ok .undefined {} := by
  intro ctx link
  have meets : ctx.MeetsNothing 2 {} {} link := ⟨.undefined, rfl, rfl⟩
  exact ⟨meets, (chain_undefined ctx 2 _ {} {}).2 link (.call (.index .last)) meets⟩

end Context

end BindScript
