import BindScript.Proofs.Control.Dependence
import BindScript.Proofs.Dependency.PathText
import BindScript.Proofs.Dependency.Scopes
import BindScript.Variables.Resolve

/-!
# A dependency has the value that the evaluator computes

The variable resolver watches the value that it reads along the text of a dependency. For a chain of member
accesses that folds into a path, this is what evaluating the chain gives (`readDependency_eq_evaluate`),
although that goes link by link, stops at optional links that meet nothing, and evaluates the keys.

Evaluation takes one level for each link and no more, so it is followed over any number of levels that is
larger than the length of the path.
-/

namespace BindScript

open Dependency EvalM

/-- Evaluates an expression on its own, over the given levels. -/
def Context.evaluateOver (ctx : Context) (levels : Nat) (e : Expr) : EvalM Value :=
  ctx.inFreshEnvironment do settle (← attempt ((BindScript.interpreter ctx levels).expr e))

namespace Variables

/-! ## Reading along a path -/

/-- Reads along a link. -/
def readLink (ctx : Context) (h : Heap) (v : Value) : Segment → Value
  | .property key => h.get v key
  | .nameKey name => h.get v (h.text ((ctx.lookup h name).getD .undefined))

/-- Reads along a path. -/
def readPath (ctx : Context) (h : Heap) (p : Path) : Value :=
  p.segments.foldl (readLink ctx h) ((ctx.lookup h p.root).getD .undefined)

theorem readPath_push (ctx : Context) (h : Heap) (p : Path) (s : Segment) :
    readPath ctx h (p.push s) = readLink ctx h (readPath ctx h p) s := by
  simp only [readPath, Path.push, List.foldl_append, List.foldl_cons, List.foldl_nil]

/-- The text of a path is read along the path. -/
theorem readDependency_text {p : Path} (named : p.Named) (ctx : Context) (h : Heap) :
    readDependency ctx h p.text = readPath ctx h p := by
  unfold readDependency
  rw [p.parse?_text named]
  dsimp only [readPath]
  congr 1

/-- There is nothing to read in nothing. -/
theorem readLink_of_nullish {ctx : Context} {h : Heap} {v : Value} (nothing : v.isNullish = true)
    (s : Segment) : readLink ctx h v s = .undefined := by
  cases v with
  | undefined | null => cases s <;> rfl
  | _ => cases nothing

end Variables

/-! ## Evaluating chains -/

namespace EvalM

variable {ctx : Context} {s : State} {levels : Nat}

/-- Nothing disturbs the evaluation: it is lenient, not interrupted, and no scope binds a name. -/
structure Undisturbed (ctx : Context) (s : State) : Prop where
  lenient : ctx.options.strict = false
  runs : s.interrupted = false
  unbound : ∀ name, s.env.find? name = none

namespace Undisturbed

theorem checkInterrupt (undisturbed : Undisturbed ctx s) : EvalM.checkInterrupt s = .ok () s := by
  unfold EvalM.checkInterrupt
  rw [undisturbed.runs]
  rfl

/-- With no bindings in the way, a name is looked up in the context; one that is missing is `undefined`. -/
theorem lookup (undisturbed : Undisturbed ctx s) (name : String) :
    EvalM.lookup ctx name s = .ok ((ctx.lookup s.heap name).getD .undefined) s := by
  unfold EvalM.lookup
  have unbound : readEnv (·.find? name) s = .ok none s :=
    congrArg (fun b => EStateM.Result.ok b s) (undisturbed.unbound name)
  have found : readHeap (ctx.lookup · name) s = .ok (ctx.lookup s.heap name) s := rfl
  rw [bind_of_ok unbound]
  dsimp only
  rw [bind_of_ok found]
  cases ctx.lookup s.heap name with
  | some v => rfl
  | none =>
    rw [undisturbed.lenient]
    rfl

theorem getProperty (undisturbed : Undisturbed ctx s) (v : Value) (key : String) :
    EvalM.getProperty ctx v key s = .ok (s.heap.get v key) s := by
  unfold EvalM.getProperty
  rw [undisturbed.lenient]
  cases v <;> rfl

theorem evalName (undisturbed : Undisturbed ctx s) (name : String) (levels : Nat) :
    (interpreter ctx (levels + 1)).expr (.name name) s =
      .ok ((ctx.lookup s.heap name).getD .undefined) s := by
  show exprStep ctx (interpreter ctx levels) (.name name) s = _
  unfold exprStep
  rw [bind_of_ok undisturbed.checkInterrupt]
  exact undisturbed.lookup name

theorem evalLiteral (undisturbed : Undisturbed ctx s) (l : Literal) (levels : Nat) :
    (interpreter ctx (levels + 1)).expr (.literal l) s = .ok (.ofLiteral l) s := by
  show exprStep ctx (interpreter ctx levels) (.literal l) s = _
  unfold exprStep
  rw [bind_of_ok undisturbed.checkInterrupt]
  rfl

/-- The key that a key expression gives is the one that its link reads. -/
theorem evalKey (undisturbed : Undisturbed ctx s) {key : Expr} {segment : Segment}
    (folds : foldKey? (fun _ => false) key = some segment) (levels : Nat) :
    ∃ text, EvalM.evalKey (interpreter ctx (levels + 1)) key s = .ok text s ∧
      ∀ v, Variables.readLink ctx s.heap v segment = s.heap.get v text := by
  unfold EvalM.evalKey
  cases key with
  | literal l =>
    rw [bind_of_ok (undisturbed.evalLiteral l levels)]
    cases l with
    | string text | number x =>
      obtain rfl := Option.some.inj folds
      exact ⟨_, rfl, fun _ => rfl⟩
    | _ => cases folds
  | name n =>
    obtain rfl := Option.some.inj folds
    rw [bind_of_ok (undisturbed.evalName n levels)]
    exact ⟨_, rfl, fun _ => rfl⟩
  | _ => cases folds

end Undisturbed

/-- Reads along one link of a chain, unless the link is optional and meets nothing. -/
def alongLink (sub : Interpreter) (object : Expr) (optional : Bool) (read : Value → EvalM Value) :
    EvalM (Option Value) := do
  match ← evalTarget sub object optional with
  | none => return none
  | some target => return some (← read target)

theorem chainStep_member (ctx : Context) (sub : Interpreter) (object : Expr) (property : String)
    (optional : Bool) : chainStep ctx sub (.member object property optional) =
      alongLink sub object optional fun target => EvalM.getProperty ctx target property :=
  rfl

theorem chainStep_index (ctx : Context) (sub : Interpreter) (object key : Expr) (optional : Bool) :
    chainStep ctx sub (.index object key optional) =
      alongLink sub object optional
        (fun target => do EvalM.getProperty ctx target (← EvalM.evalKey sub key)) := by
  refine bind_congr fun target => ?_
  cases target with
  | none => rfl
  | some target => exact (bind_assoc _ _ _).symm

/-- The value along a link is read in what the chain before it came to. Where an optional link stops the
chain there is nothing to read in, so that the path reads as `undefined` from there on too. -/
theorem alongLink_of_chain {sub : Interpreter} {object : Expr} {r : Option Value} {v : Value}
    {segment : Segment} {read : Value → EvalM Value} (run : sub.chain object s = .ok r s)
    (value : r.getD .undefined = v) (reads : read v s = .ok (Variables.readLink ctx s.heap v segment) s)
    (optional : Bool) : ∃ r', alongLink sub object optional read s = .ok r' s ∧
      r'.getD .undefined = Variables.readLink ctx s.heap v segment := by
  have target : ∃ r', evalTarget sub object optional s = .ok r' s ∧
      (r' = none ∧ v.isNullish = true ∨ r' = some v) := by
    unfold evalTarget
    rw [bind_of_ok run]
    cases r with
    | none =>
      subst value
      exact ⟨none, rfl, .inl ⟨rfl, rfl⟩⟩
    | some target =>
      obtain rfl : target = v := value
      dsimp only
      by_cases nothing : (optional && target.isNullish) = true
      · rw [if_pos nothing]
        exact ⟨none, rfl, .inl ⟨rfl, (Bool.and_eq_true_iff.1 nothing).2⟩⟩
      · rw [if_neg nothing]
        exact ⟨some target, rfl, .inr rfl⟩
  obtain ⟨r', target, ⟨rfl, nothing⟩ | rfl⟩ := target
  · exact ⟨none, bind_of_ok target, (Variables.readLink_of_nullish nothing segment).symm⟩
  · exact ⟨some _, (bind_of_ok target).trans (bind_of_ok reads), rfl⟩

/-- What a chain comes to, when it is evaluated over more levels than its path is long. -/
theorem Undisturbed.evalChain (undisturbed : Undisturbed ctx s) : ∀ {e : Expr} {path : Path},
    fold? (fun _ => false) e = some path → ∀ {levels : Nat}, path.length < levels →
    ∃ r, (interpreter ctx levels).chain e s = .ok r s ∧
      r.getD .undefined = Variables.readPath ctx s.heap path
  | .name name, path, folds, levels, enough => by
    obtain rfl := Option.some.inj folds
    obtain ⟨levels, rfl⟩ : ∃ n, levels = n + 2 := Nat.exists_eq_add_of_le' enough
    exact ⟨some _, bind_of_ok (undisturbed.evalName name levels), rfl⟩
  | .member object property optional, path, folds, levels, enough => by
    obtain ⟨start, isPath, rfl⟩ := Option.map_eq_some_iff.1 folds
    rw [Path.length_push] at enough
    obtain ⟨levels, rfl⟩ : ∃ n, levels = n + 1 := Nat.exists_eq_add_one.2 (Nat.zero_lt_of_lt enough)
    have shorter : start.length < levels := Nat.lt_of_succ_lt_succ enough
    obtain ⟨r, run, value⟩ := undisturbed.evalChain isPath shorter
    rw [Variables.readPath_push]
    show ∃ r, chainStep ctx (interpreter ctx levels) (.member object property optional) s = .ok r s ∧ _
    rw [chainStep_member]
    exact alongLink_of_chain run value (undisturbed.getProperty _ property) optional
  | .index object key optional, path, folds, levels, enough => by
    obtain ⟨segment, start, isKey, isPath, rfl⟩ := fold?_index folds
    rw [Path.length_push] at enough
    -- the key is evaluated one level below the link, as the chain before it is
    have first : 1 ≤ start.length := Nat.le_add_left 1 _
    obtain ⟨levels, rfl⟩ : ∃ n, levels = n + 2 := Nat.exists_eq_add_of_le' (by omega)
    have shorter : start.length < levels + 1 := Nat.lt_of_succ_lt_succ enough
    obtain ⟨r, run, value⟩ := undisturbed.evalChain isPath shorter
    obtain ⟨text, keyed, reads⟩ := undisturbed.evalKey isKey levels
    rw [Variables.readPath_push]
    show ∃ r, chainStep ctx (interpreter ctx (levels + 1)) (.index object key optional) s = .ok r s ∧ _
    rw [chainStep_index]
    refine alongLink_of_chain run value ?_ optional
    rw [bind_of_ok keyed, reads]
    exact undisturbed.getProperty _ text

/-- An expression that folds into a path has the value that the path leads to. -/
theorem Undisturbed.evalExpr (undisturbed : Undisturbed ctx s) {e : Expr} {path : Path}
    (folds : fold? (fun _ => false) e = some path) {levels : Nat} (enough : path.length < levels) :
    (interpreter ctx levels).expr e s = .ok (Variables.readPath ctx s.heap path) s := by
  obtain ⟨r, run, value⟩ := undisturbed.evalChain folds enough
  obtain ⟨levels, rfl⟩ : ∃ n, levels = n + 1 := Nat.exists_eq_add_one.2 (Nat.zero_lt_of_lt enough)
  cases e with
  | name n =>
    obtain rfl := Option.some.inj folds
    exact undisturbed.evalName n levels
  | member object property optional =>
    show exprStep ctx (interpreter ctx levels) (.member object property optional) s = _
    unfold exprStep
    rw [bind_of_ok undisturbed.checkInterrupt, ← value]
    exact bind_of_ok run
  | index object key optional =>
    show exprStep ctx (interpreter ctx levels) (.index object key optional) s = _
    unfold exprStep
    rw [bind_of_ok undisturbed.checkInterrupt, ← value]
    exact bind_of_ok run
  | _ => cases folds

end EvalM

/-! ## The theorem -/

/-- A step that leaves an environment without bindings as it was does so in the present one too. -/
theorem Context.inFreshEnvironment_of_ok {ctx : Context} {x : EvalM Value} {s : State} {v : Value}
    (run : x { s with env := .empty ctx.options.maxCallDepth } =
      .ok v { s with env := .empty ctx.options.maxCallDepth }) :
    ctx.inFreshEnvironment x s = .ok v s := by
  simp only [Context.inFreshEnvironment, inEnvironment, readEnv, modifyEnv, attempt, Bind.bind,
    EStateM.bind, run]
  rfl

/-- **A dependency has the value that the evaluator computes.** The value that is read along the text of a
path is what a chain that folds into the path evaluates to, in every lenient context; and evaluating it
changes nothing. -/
theorem readDependency_eq_evaluate (ctx : Context) (s : State) {e : Expr} {path : Path}
    (folds : fold? (fun _ => false) e = some path) (named : path.Named)
    (lenient : ctx.options.strict = false) (runs : s.interrupted = false) :
    (∀ levels, path.length < levels →
      ctx.evaluateOver levels e s = .ok (Variables.readDependency ctx s.heap path.text) s) ∧
    (path.length < grantedLevels →
      ctx.evaluate e s = .ok (Variables.readDependency ctx s.heap path.text) s) := by
  have value : ∀ levels, path.length < levels →
      ctx.evaluateOver levels e s = .ok (Variables.readDependency ctx s.heap path.text) s := by
    intro levels enough
    have fresh : Undisturbed ctx { s with env := .empty ctx.options.maxCallDepth } :=
      ⟨lenient, runs, fun _ => rfl⟩
    have run := fresh.evalExpr folds enough
    rw [Variables.readDependency_text named]
    refine Context.inFreshEnvironment_of_ok ?_
    simp only [attempt, Bind.bind, EStateM.bind, run]
    rfl
  exact ⟨value, value grantedLevels⟩

/-- `list?.[i]["zip code"]`. -/
def zipCode : Expr :=
  .index (.index (.name "list") (.name "i") true) (.literal (.string "zip code")) false

/-- A list of one address, and the index of that. -/
def addresses : State where
  heap :=
    { arrays := #[{ items := #[.object 1] }]
      objects := #[{ properties := [("list", .array 0), ("i", .string "0")] },
        { properties := [("zip code", .string "x")] }] }

/-- The path that `zipCode` folds into. -/
def zipCodePath : Path :=
  { root := "list", segments := [.nameKey "i", .property "zip code"] }

/-- The dependency of `zipCode` is read as what `zipCode` evaluates to. -/
theorem zipCode_read :
    ({ locals := .object 0, app := .undefined } : Context).evaluate zipCode addresses =
        .ok (Variables.readDependency { locals := .object 0, app := .undefined } addresses.heap zipCodePath.text)
          addresses ∧
      zipCodePath.text = "list[i][\"zip code\"]" ∧
      Variables.readDependency { locals := .object 0, app := .undefined } addresses.heap zipCodePath.text =
        .string "x" := by
  have named : zipCodePath.Named := by
    refine ⟨by decide +kernel, fun name mem => ?_⟩
    obtain rfl : name = "i" := List.mem_singleton.1 mem
    decide +kernel
  have read := readDependency_eq_evaluate { locals := .object 0, app := .undefined } addresses
    (show fold? (fun _ => false) zipCode = some zipCodePath from rfl) named rfl rfl
  refine ⟨read.2 (by decide), by decide +kernel, ?_⟩
  rw [Variables.readDependency_text named]
  rfl

end BindScript
