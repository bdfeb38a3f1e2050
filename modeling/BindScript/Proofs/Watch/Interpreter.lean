import BindScript.Proofs.Lockstep.Interpreter
import BindScript.Proofs.Watch.Statement

/-!
# Calls and whole runs that are watched

A function runs in scopes of its own: in the innermost one are its parameters, the variables of the whole function and
what its body declares, and no constant has the name of any of the others. The same goes for a program.
-/

namespace BindScript

/-- What the statements of a function or program declare in its scope. -/
def Stmt.declaredInAll (statements : List Stmt) : Declared :=
  (Stmt.varNamesList statements).map (fun name => (name, .var)) ++ Stmt.declaredIn statements

/-- What the code of a run declares in the scopes that the run starts in. -/
def Run.declared : Run → Declared
  | .statement t => t.declared
  | _ => []

/-- A program declares different names, and no constant is one of the variables of the whole program. -/
def Run.Settled : Run → Prop
  | .program statements => Stmt.Distinct statements ∧ Stmt.Unhoisted statements
  | _ => True

namespace Watch

open EvalM

variable {W : Watch} {X Y : Declared} {sub₁ sub₂ : Interpreter} {s : State} {statements : List Stmt} {c : Closure}
  {callee : Value} {args : List Value}

/-! ## Bodies -/

/-- No jump leaves a function or program. -/
theorem Ends.settle {x₁ x₂ : EvalM Value} (state : W.At s) (x : W.Ends X (fun _ => True) s (x₁ s) (x₂ s)) :
    W.Ends X (fun _ => True) s ((do EvalM.settle (← EvalM.attempt x₁)) s)
      ((do EvalM.settle (← EvalM.attempt x₂)) s) := by
  rw [← List.append_nil X]
  refine Ends.bind state (.inr .nil_right) x.attempt fun r t _ tried middle _ => ?_
  refine (show W.Quiet (EvalM.settle r) (EvalM.settle r) from ?_) t middle
  cases r with
  | ok v => exact Follows.pure trivial
  | error e =>
    cases e with
    | jump j =>
      cases j with
      | ret v => exact Follows.pure trivial
      | brk | cont => exact Follows.fail id
    | error failure => exact Follows.throw tried
    | exhausted | clash => exact Follows.throw tried

theorem Ends.runStatementsIn (sub : W.Interprets sub₁ sub₂) (code : ∀ y ∈ statements.map Node.stmt, W.Code y)
    (distinct : W.Distinct (Stmt.declaredIn statements)) (unhoisted : W.constants → Stmt.Unhoisted statements)
    (state : W.At s) (expects : W.Expects (Stmt.declaredIn statements) s) :
    W.Ends (Stmt.declaredInAll statements) (fun _ => True) s (EvalM.runStatementsIn sub₁ statements s)
      (EvalM.runStatementsIn sub₂ statements s) := by
  unfold EvalM.runStatementsIn
  refine Ends.bind state (.inl rfl) (Gives.hoistVars state statements).ends fun _ t _ _ middle later => ?_
  have expects := expects.after state later fun watched name kind mem var => by
    obtain ⟨_, inside, same⟩ := List.mem_map.1 var
    cases same
    exact absurd inside (unhoisted watched name mem)
  refine Ends.settle middle ?_
  have run := Ends.discard middle (Ends.evalStatements sub code distinct middle expects)
  rw [← List.append_nil (Stmt.declaredIn statements)]
  exact Ends.bind middle (.inr .nil_right) run fun _ u _ _ last _ => .ok last later_refl trivial

/-- Parameters are bound from left to right. -/
theorem Follows.bindParams {params : List Element} (sub : W.Interprets sub₁ sub₂)
    (code : ∀ y ∈ params.flatMap Element.nodes, W.Code y)
    (distinct : W.Distinct ((BindMode.declare .param).declared (params.flatMap (·.target.boundNames))))
    (args : List Value) :
    W.Follows ((BindMode.declare .param).declared (params.flatMap (·.target.boundNames))) (fun _ => True)
      (EvalM.bindParams W.ctx sub₁ params args) (EvalM.bindParams W.ctx sub₂ params args) := by
  induction params generalizing args with
  | nil => exact pure trivial
  | cons param rest ih =>
    obtain ⟨target, default⟩ := param
    obtain ⟨paramCode, restCode⟩ := List.forall_mem_append.1 code
    obtain ⟨targetCode, defaultCode⟩ := List.forall_mem_cons.1 paramCode
    rw [List.flatMap_cons, BindMode.declared_append] at distinct ⊢
    unfold EvalM.bindParams
    refine andThen (withDefault sub defaultCode _) fun value => ?_
    exact bind_apart distinct.apart (bindPattern sub _ target value targetCode distinct.left) fun _ _ =>
      ih restCode distinct.right _

theorem Ends.runFunctionBody {body : Body} (sub : W.Interprets sub₁ sub₂) (code : ∀ y ∈ body.nodes, W.Code y)
    (distinct : W.Distinct (Stmt.declaredIn body.statements))
    (unhoisted : W.constants → Stmt.Unhoisted body.statements) (state : W.At s)
    (expects : W.Expects (Stmt.declaredIn body.statements) s) :
    W.Ends (Stmt.declaredInAll body.statements) (fun _ => True) s (EvalM.runFunctionBody sub₁ body s)
      (EvalM.runFunctionBody sub₂ body s) := by
  cases body with
  | expr e => exact sub.expr e (code _ (List.mem_singleton.2 rfl)) s state
  | block statements => exact Ends.runStatementsIn sub code distinct unhoisted state expects

/-- What a call declares: parameters, and what the body declares. -/
def callDeclared : Function → Declared
  | .mk params rest body =>
    (BindMode.declare .param).declared (params.flatMap (·.target.boundNames)) ++
      ((BindMode.declare .param).declared (Pattern.restNames rest) ++ Stmt.declaredInAll body.statements)

theorem not_const_param {name : String} {names : List String} :
    (name, .const) ∉ (BindMode.declare .param).declared names := by
  simp [BindMode.declared]

/-- A call starts in fresh scopes, in which its parameters are declared first and then the names of its body. -/
theorem Ends.enteredCall (sub : W.Interprets sub₁ sub₂) (callable : W.Callable c.definition) (state : W.At s)
    (fresh : s.env.Fresh) :
    W.Ends (callDeclared c.definition) (fun _ => True) s (EvalM.enteredCall W.ctx sub₁ c args s)
      (EvalM.enteredCall W.ctx sub₂ c args s) := by
  obtain ⟨name, ⟨params, rest, body⟩, captured⟩ := c
  obtain ⟨code, settled⟩ := callable
  obtain ⟨headCode, bodyCode⟩ := List.forall_mem_append.1 code
  obtain ⟨paramsCode, restCode⟩ := List.forall_mem_append.1 headCode
  let mode : BindMode := .declare .param
  let declared := Stmt.declaredIn body.statements
  have whole : W.Distinct ((mode.declared (params.flatMap (·.target.boundNames)) ++
      mode.declared (Pattern.restNames rest)) ++ declared) := by
    intro watched
    rw [← BindMode.declared_append, Declared.names_append, BindMode.names_declared]
    exact (settled watched).1
  have bare : ∀ {X names}, W.Apart (mode.declared names) X := fun _ _ const => absurd const not_const_param
  -- no parameter has the name of a constant of the body
  have kept : ∀ {names s t}, W.At s → names ⊆ Function.paramNames params rest → W.Expects declared s →
      W.Later (mode.declared names) s t → W.Expects declared t := by
    intro names s t state within expects later
    refine expects.after state later fun watched name kind const param => ?_
    have mem : name ∈ names := BindMode.names_declared .param names ▸ Declared.mem_names param
    exact absurd (Declared.mem_names const) ((List.nodup_append'.1 (settled watched).1).2.2 (within mem))
  unfold EvalM.enteredCall
  refine Ends.bind state (.inr bare) (Follows.bindParams sub paramsCode whole.left.left args s state)
    fun left t _ _ made later => ?_
  have expects := kept state (List.subset_append_left _ _) (expects_of_fresh fresh) later
  have run : ∀ {t}, W.At t → W.Expects declared t → W.Ends (Stmt.declaredInAll body.statements) (fun _ => True) t
      (EvalM.runFunctionBody sub₁ body t) (EvalM.runFunctionBody sub₂ body t) :=
    Ends.runFunctionBody sub bodyCode whole.right fun watched => (settled watched).2
  cases rest with
  | none => exact run made expects
  | some rest =>
    refine Ends.andThen made ((Follows.standalone (.newArray _)) t made) fun remaining u _ middle later => ?_
    have expects := expects.after made later fun _ _ _ _ => nofun
    have bound := Follows.bindPattern sub mode rest remaining (restCode _ (List.mem_singleton.2 rfl)) whole.left.right
    refine Ends.bind middle (.inr bare) (bound u middle) fun _ v _ _ last later => ?_
    exact run last (kept middle (List.subset_append_right _ _) expects later)

/-! ## Calls -/

theorem Ends.callClosure (sub : W.Interprets sub₁ sub₂) (callable : W.Callable c.definition)
    (known : ∀ b ∈ c.captured.toList, s.Knows b) (state : W.At s) :
    W.Ends [] (fun _ => True) s (EvalM.callClosure W.ctx sub₁ c args s) (EvalM.callClosure W.ctx sub₂ c args s) := by
  rcases Nat.lt_or_ge s.env.callDepth s.env.maxCallDepth with room | full
  · have enters : s.Enters (.forCall c.captured (s.env.callDepth + 1) s.env.maxCallDepth) :=
      ⟨Environment.fresh_forCall _ _ _, known⟩
    rw [callClosure_of_lt room, callClosure_of_lt room]
    exact Ends.inEnvironment enters state
      (Ends.enteredCall sub callable (state.entered enters) (Environment.fresh_forCall _ _ _))
  · rw [callClosure_of_le full, callClosure_of_le full]
    exact .error state later_refl fun _ => id

theorem Follows.callStep (sub : W.Interprets sub₁ sub₂) (callee : Value) (args : List Value) :
    W.Quiet (EvalM.callStep W.ctx sub₁ callee args) (EvalM.callStep W.ctx sub₂ callee args) := by
  intro s state
  unfold EvalM.callStep
  cases callee with
  | native f => exact standalone (.invoke f args) s state
  | closure c => exact Ends.callClosure sub (state.callable c) (fun b mem => .inr ⟨c, mem⟩) state
  | _ => exact reading (fun _ => fail id) s state

/-! ## Interpreters -/

/-- Whatever it evaluates, an interpreter does as the watch asks. -/
theorem interprets (W : Watch) (levels : Nat) :
    W.Interprets (interpreter W.ctx levels) (interpreter W.ctx levels) := by
  induction levels with
  | zero =>
    refine ⟨rfl, fun _ _ => .exhausted, fun _ _ => .exhausted, fun _ _ s state _ => ?_, fun _ _ => .exhausted⟩
    exact (Follows.exhausted s state).weaken (List.nil_subset _)
  | succ levels ih =>
    exact ⟨rfl, fun _ code => .exprStep ih code, fun _ code => .chainStep ih code,
      fun _ code s state _ => Follows.stmtStep ih code s state, fun f args => .callStep ih f args⟩

/-! ## Whole runs -/

theorem Ends.fresh {x₁ x₂ : EvalM Value} (state : W.At s)
    (x : ∀ t, W.At t → t.env.Fresh → W.Ends X (fun _ => True) t (x₁ t) (x₂ t)) :
    W.Ends [] (fun _ => True) s (W.ctx.inFreshEnvironment x₁ s) (W.ctx.inFreshEnvironment x₂ s) := by
  have enters : s.Enters (.empty W.ctx.options.maxCallDepth) := ⟨Environment.fresh_empty _, nofun⟩
  exact Ends.inEnvironment enters state (x _ (state.entered enters) (Environment.fresh_empty _))

theorem Ends.interpreted {run : Run} (sub : W.Interprets sub₁ sub₂) (code : ∀ y ∈ run.nodes, W.Code y)
    (settled : W.constants → run.Settled) (state : W.At s) (expects : W.Expects run.declared s) :
    W.Ends run.declared (fun _ => True) s (run.interpreted W.ctx sub₁ s) (run.interpreted W.ctx sub₂ s) := by
  cases run with
  | expression e => exact sub.expr e (code _ (List.mem_singleton.2 rfl)) s state
  | statement t => exact sub.stmt t (code _ (List.mem_singleton.2 rfl)) s state expects
  | evaluation e =>
    exact Ends.fresh state
      fun t inside _ => Ends.settle inside (sub.expr e (code _ (List.mem_singleton.2 rfl)) t inside)
  | program statements =>
    exact Ends.fresh state fun t inside fresh => Ends.runStatementsIn sub code (fun watched => (settled watched).1)
      (fun watched => (settled watched).2) inside (expects_of_fresh fresh)
  | call callee args => exact Ends.fresh state fun t inside _ => Ends.settle inside (sub.call callee args t inside)

end Watch

end BindScript

/-!
## What a watched run evaluates until it is given up

A run may be given up at certain points (`interpreterUntil`): there it is over at once, as if it had no levels left,
and what it leaves behind is what it has come to by then. So whatever holds of the ends of all runs that are given up
somewhere holds at any time of a single run. The points inside of such a run are those that it asks for
(`Point.InsideUntil`); if it is never given up they are those of the run itself (`insideUntil_never`).

If it makes a difference to a step what a part of it gives, and the marked cell has its value whenever the part has been
evaluated, then the cell has it when the step ends (`marked_of_asks`). From a part inside of a run this leads to the end
of the run (`marked_of_inside`).
-/

namespace BindScript

/-- An interpreter that does for each part as the function says. -/
def Interpreter.of (turns : Nat) (run : (p : Part) → EvalM p.Value) : Interpreter where
  turns := turns
  expr e := run (.expr e)
  chain e := run (.chain e)
  stmt t := run (.stmt t)
  call callee args := run (.call callee args)

theorem Interpreter.run_of (turns : Nat) (run : (p : Part) → EvalM p.Value) (p : Part) :
    (of turns run).run p = run p := by
  cases p <;> rfl

open Classical in
/-- A step that is not taken from certain states. -/
noncomputable def EvalM.unlessAt {α : Type} (stops : State → Prop) (x : EvalM α) : EvalM α :=
  fun s => if stops s then .error .exhausted s else x s

/-- The interpreter with so many levels that gives up at certain points. -/
noncomputable def interpreterUntil (ctx : Context) (stops : Point → Prop) : Nat → Interpreter
  | 0 => interpreter ctx 0
  | levels + 1 => .of levels fun p =>
    EvalM.unlessAt (fun s => stops ⟨levels + 1, p, s⟩) (p.step ctx (interpreterUntil ctx stops levels))

/-- The part is evaluated somewhere inside of the run, before the run is given up. -/
inductive Point.InsideUntil (ctx : Context) (stops : Point → Prop) (s : State) (run : Run) : Point → Prop
  | run {p : Point} (levels : p.levels = grantedLevels)
    (asks : Asks (fun sub => run.interpreted ctx sub) (interpreterUntil ctx stops p.levels) s p.part p.state) :
    InsideUntil ctx stops s run p
  | part {p q : Point} (inside : InsideUntil ctx stops s run p) (goesOn : ¬ stops p) (levels : p.levels = q.levels + 1)
    (asks : Asks (fun sub => p.part.step ctx sub) (interpreterUntil ctx stops q.levels) p.state q.part q.state) :
    InsideUntil ctx stops s run q

variable {ctx : Context} {stops : Point → Prop} {levels : Nat} {p q : Point} {s : State} {run : Run}

theorem interpreterUntil_run (goesOn : ¬ stops p) (above : p.levels = levels + 1) :
    (interpreterUntil ctx stops p.levels).run p.part p.state =
      p.part.step ctx (interpreterUntil ctx stops levels) p.state := by
  obtain ⟨_, part, state⟩ := p
  cases above
  rw [interpreterUntil, Interpreter.run_of]
  exact if_neg goesOn

theorem interpreterUntil_never (ctx : Context) (levels : Nat) :
    interpreterUntil ctx (fun _ => False) levels = interpreter ctx levels := by
  induction levels with
  | zero => rfl
  | succ levels ih =>
    have never : ∀ {α : Type} (x : EvalM α), EvalM.unlessAt (fun _ => False) x = x := fun x => funext fun s => if_neg id
    simp only [interpreterUntil, ih, never]
    rfl

/-- Without a stop, the inside of a run is all that it comes to. -/
theorem Point.insideUntil_never : p.InsideUntil ctx (fun _ => False) s run ↔ p.Inside ctx s run := by
  constructor
  · intro inside
    induction inside with
    | run levels asks =>
      rw [interpreterUntil_never, levels] at asks
      exact .run ⟨levels, asks⟩
    | part _ _ levels asks ih =>
      rw [interpreterUntil_never] at asks
      exact .part ih ⟨levels, asks⟩
  · intro inside
    induction inside with
    | run part =>
      refine .run part.1 ?_
      rw [interpreterUntil_never, part.1]
      exact part.2
    | part _ part ih =>
      refine .part ih id part.1 ?_
      rw [interpreterUntil_never]
      exact part.2

/-- What evaluating a part declares in the scope around it. -/
def Part.declared : Part → Declared
  | .stmt t => t.declared
  | _ => []

namespace Watch

variable {W : Watch} {X : Declared} {sub sub₁ sub₂ : Interpreter} {t u : State} {x : Part} {α : Type}

/-- The part may be evaluated from the state. -/
def Asked (W : Watch) : Part → State → Prop
  | .expr e, _ | .chain e, _ => W.Code (.expr e)
  | .stmt t, s => W.Code (.stmt t) ∧ W.Expects t.declared s
  | .call .., _ => True

namespace Interprets

theorem part (sub : W.Interprets sub₁ sub₂) (state : W.At s) (asked : W.Asked x s) :
    W.Ends x.declared (fun _ => True) s (sub₁.run x s) (sub₂.run x s) := by
  cases x with
  | expr e => exact sub.expr e asked s state
  | chain e => exact sub.chain e asked s state
  | stmt t => exact sub.stmt t asked.1 s state asked.2
  | call callee args => exact sub.call callee args s state

theorem of_parts (turns : sub₁.turns = sub₂.turns)
    (each : ∀ (p : Part) (s : State), W.At s → W.Asked p s →
      W.Ends p.declared (fun _ => True) s (sub₁.run p s) (sub₂.run p s)) : W.Interprets sub₁ sub₂ where
  turns := turns
  expr e code s state := each (.expr e) s state code
  chain e code s state := each (.chain e) s state code
  stmt t code s state expects := each (.stmt t) s state ⟨code, expects⟩
  call callee args s state := each (.call callee args) s state trivial

/-- A part follows itself if its parts do. -/
theorem step (sub : W.Interprets sub₁ sub₂) (state : W.At s) (asked : W.Asked x s) :
    W.Ends x.declared (fun _ => True) s (x.step W.ctx sub₁ s) (x.step W.ctx sub₂ s) := by
  cases x with
  | expr e => exact Follows.exprStep sub asked s state
  | chain e => exact Follows.chainStep sub asked s state
  | stmt t => exact Follows.stmtStep sub asked.1 s state
  | call callee args => exact Follows.callStep sub callee args s state

end Interprets

theorem interprets_until (W : Watch) (stops : Point → Prop) (levels : Nat) :
    W.Interprets (interpreterUntil W.ctx stops levels) (interpreterUntil W.ctx stops levels) := by
  induction levels with
  | zero => exact interprets W 0
  | succ levels ih =>
    refine .of_parts rfl fun x s state asked => ?_
    rw [interpreterUntil, Interpreter.run_of]
    unfold EvalM.unlessAt
    split
    · exact Follows.exhausted.weaken (List.nil_subset _) s state
    · exact ih.step state asked

/-! ### Parts that set the mark -/

/-- If two answers make a difference, one of them is not how the first run ends, and so the mark is there. -/
theorem marked_of_difference {ι : Type} {r : EStateM.Result Exit State α} {told : ι → EStateM.Result Exit State α}
    (each : ∀ answer, W.Ends X (fun _ => True) s r (told answer)) (differ : ∃ a b, told a ≠ told b) :
    W.Marked X s (final r) := by
  obtain ⟨a, b, ne⟩ := differ
  rcases (each a).same with sameA | marked
  · rcases (each b).same with sameB | marked
    · exact absurd (sameA.symm.trans sameB) ne
    · exact marked
  · exact marked

/-- The second interpreter may be given any answer to a part that sets the mark. -/
theorem Interprets.replacing (self : W.Interprets sub sub)
    (marked : W.At u → W.Asked x u → W.Marked x.declared u (final (sub.run x u)))
    (answer : EStateM.Result Exit State x.Value) : W.Interprets sub (sub.replacing u x answer) := by
  refine .of_parts Interpreter.replacing_turns.symm fun other s state asked => ?_
  by_cases here : other = x ∧ s = u
  · obtain ⟨rfl, rfl⟩ := here
    exact ⟨(self.part state asked).kept, .inr (marked state asked)⟩
  · rw [Interpreter.replacing_run_of_ne here]
    exact self.part state asked

theorem marked_of_asks {step : Interpreter → EvalM α} (self : W.Interprets sub sub)
    (follows : ∀ sub', W.Interprets sub sub' → W.Ends X (fun _ => True) s (step sub s) (step sub' s))
    (asks : Asks step sub s x u)
    (marked : W.At u → W.Asked x u → W.Marked x.declared u (final (sub.run x u))) :
    W.Marked X s (final (step sub s)) :=
  marked_of_difference (fun answer => follows _ (self.replacing marked answer)) asks

/-! ### Parts that are asked for -/

/-- The same watch over a single run. -/
def alone (W : Watch) : Watch :=
  { W with parts := False }

theorem alone_callable {f : Function} : W.alone.Callable f ↔ W.Callable f :=
  ⟨fun callable => ⟨callable.code, callable.settled⟩, fun callable => ⟨callable.code, callable.settled⟩⟩

theorem alone_at : W.alone.At s ↔ W.At s :=
  ⟨fun state => ⟨fun c => alone_callable.1 (state.callable c), state.sound⟩,
    fun state => ⟨fun c => alone_callable.2 (state.callable c), state.sound⟩⟩

theorem alone_asked : W.alone.Asked x s ↔ W.Asked x s := by
  cases x <;> exact Iff.rfl

/-- What a step of a single run asks for may be evaluated: otherwise no answer to it could make a difference. -/
theorem asked_of_asks {step : Interpreter → EvalM α} (self : W.alone.Interprets sub sub)
    (follows : ∀ sub', W.alone.Interprets sub sub' → W.alone.Ends X (fun _ => True) s (step sub s) (step sub' s))
    (asks : Asks step sub s x u) : W.At u ∧ W.Asked x u := by
  by_contra other
  have marked := marked_of_asks self follows asks fun state asked =>
    absurd ⟨alone_at.1 state, alone_asked.1 asked⟩ other
  exact marked.1

/-! ### Points inside of a run -/

section Inside

variable (code : ∀ y ∈ run.nodes, W.Code y) (settled : W.constants → run.Settled) (state : W.At s)
  (expects : W.Expects run.declared s)

include code settled state expects

theorem asked_of_inside (inside : p.InsideUntil W.ctx stops s run) : W.At p.state ∧ W.Asked p.part p.state := by
  induction inside with
  | run _ asks =>
    refine asked_of_asks (X := run.declared) (interprets_until W.alone stops _) (fun sub' sub => ?_) asks
    exact Ends.interpreted sub code settled (alone_at.2 state) expects
  | @part p _ _ _ _ asks ih =>
    refine asked_of_asks (X := p.part.declared) (interprets_until W.alone stops _) (fun sub' sub => ?_) asks
    exact sub.step (alone_at.2 ih.1) (alone_asked.2 ih.2)

/-- If a point inside of a run sets the mark, the mark is still there at the end. -/
theorem marked_of_inside (inside : p.InsideUntil W.ctx stops s run)
    (marked : W.Marked p.part.declared p.state (final ((interpreterUntil W.ctx stops p.levels).run p.part p.state))) :
    W.Marked run.declared s (final (run.interpreted W.ctx (interpreterUntil W.ctx stops grantedLevels) s)) := by
  induction inside with
  | run levels asks =>
    rw [levels] at asks marked
    refine marked_of_asks (interprets_until W stops _) (fun sub' sub => ?_) asks fun _ _ => marked
    exact Ends.interpreted sub code settled state expects
  | @part p q inside goesOn levels asks ih =>
    have here := asked_of_inside code settled state expects inside
    refine ih ?_
    rw [interpreterUntil_run goesOn levels]
    refine marked_of_asks (interprets_until W stops _) (fun sub' sub => ?_) asks fun _ _ => marked
    exact sub.step here.1 here.2

end Inside

end Watch

end BindScript
