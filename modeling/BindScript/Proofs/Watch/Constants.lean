import BindScript.Proofs.Parsing.Statements
import BindScript.Proofs.Watch.Statement
import BindScript.Parser
import BindScript.Proofs.Lockstep.Interrupts
import BindScript.Proofs.Watch.Interpreter

/-!
# Settled code and its constants

In each scope of an accepted source all names are different (`Stmt.ScopeWellScoped`), but two things that the rules of
`NodeRule.settled` ask for are not seen to: a declaration may be the bare body of another statement, which has no scope
for it, and a constant may have the name of a variable of the whole function, which has a binding of its own in the same
scope. Code without these two (`NodeRule.tidy`) is settled (`settled_of_parsed`).
-/

namespace BindScript

/-- No declaration is the bare body of another statement, and no constant of a function body has the name of a variable
of the whole function. -/
def NodeRule.tidy : NodeRule where
  expr
    | .function (.mk _ _ body) => Stmt.Unhoisted body.statements
    | _ => True
  stmt
    | .branch _ consequent alternate => consequent.declared = [] ∧ ∀ s ∈ alternate, s.declared = []
    | .whileLoop _ body | .doWhile body _ | .forLoop _ _ _ body | .forEach _ _ _ _ body => body.declared = []
    | .function _ (.mk _ _ body) => Stmt.Unhoisted body.statements
    | _ => True

variable {statements : List Stmt} {body t : Stmt} {x y : Node}

/-! ## Names of scopes -/

theorem DeclKind.names_declared (kind : DeclKind) (names : List String) :
    Declared.names (kind.declared names) = kind.scopeNames names := by
  unfold DeclKind.declared DeclKind.scopeNames
  split
  · rfl
  · simp [Declared.names, Function.comp_def]

theorem Stmt.names_declared (t : Stmt) : (Declared.names t.declared).Sublist t.scopeNames := by
  cases t with
  | declare kind declarators =>
    rw [declared, DeclKind.names_declared]
    exact .refl _
  | function name => exact .refl [name]
  | _ => exact List.nil_sublist _

theorem Stmt.names_declaredIn (statements : List Stmt) :
    (Declared.names (declaredIn statements)).Sublist (scopeNamesList statements) := by
  induction statements with
  | nil => exact .refl []
  | cons t more ih =>
    rw [declaredIn_cons, Declared.names_append]
    exact (names_declared t).append ih

theorem Stmt.distinct_of_scope (nodup : (scopeNamesList statements).Nodup) : Distinct statements :=
  (names_declaredIn statements).nodup nodup

/-! ## Parts of trees that keep the rules -/

/-- The scopes in the tree keep the rules, and what a statement declares has different names. -/
def Node.Scoped : Node → Prop
  | expr e => e.WellScoped
  | pattern p => p.WellScoped
  | stmt t => t.WellScoped ∧ (Declared.names t.declared).Nodup

namespace Node.Scoped

theorem bare (rules : body.WellScoped) (bare : body.declared = []) : (Node.stmt body).Scoped :=
  ⟨rules, bare ▸ List.nodup_nil⟩

theorem row (nodup : (Stmt.scopeNamesList statements).Nodup) (each : Stmt.AllWellScoped statements) :
    ∀ y ∈ statements.map Node.stmt, y.Scoped := by
  refine List.forall_mem_map.2 fun t mem => ⟨Stmt.allWellScoped_iff.1 each t mem, ?_⟩
  exact (Stmt.names_declared t).nodup ((List.nodup_flatMap.1 nodup).1 t mem)

theorem option {e : Option Expr} (rules : Expr.OptionWellScoped e) : ∀ y ∈ Expr.optionNodes e, y.Scoped := by
  cases e with
  | none => exact List.forall_mem_nil _
  | some e => exact List.forall_mem_singleton.2 rules

theorem optionPattern {p : Option Pattern} (rules : Pattern.OptionWellScoped p) :
    ∀ y ∈ Pattern.optionNodes p, y.Scoped := by
  cases p with
  | none => exact List.forall_mem_nil _
  | some p => exact List.forall_mem_singleton.2 rules

theorem element {e : Element} (rules : e.WellScoped) : ∀ y ∈ e.nodes, y.Scoped := by
  obtain ⟨target, default⟩ := e
  exact List.forall_mem_cons.2 ⟨rules.1, option rules.2⟩

theorem field {f : Field} (rules : f.WellScoped) : ∀ y ∈ f.nodes, y.Scoped := by
  obtain ⟨key, target, default⟩ := f
  exact List.forall_mem_cons.2 ⟨rules.1, option rules.2⟩

theorem declarators {ds : List Declarator} (rules : Declarator.AllWellScoped ds) :
    ∀ y ∈ ds.flatMap Declarator.nodes, y.Scoped := by
  refine forall_mem_flatMap.2 fun d mem => ?_
  have own := Declarator.allWellScoped_iff.1 rules d mem
  obtain ⟨pattern, init⟩ := d
  exact List.forall_mem_cons.2 ⟨own.1, option own.2⟩

theorem forInit {init : ForInit} (rules : init.WellScoped) : ∀ y ∈ init.nodes, y.Scoped := by
  cases init with
  | none => exact List.forall_mem_nil _
  | declare kind ds => exact declarators rules.2
  | expr e => exact List.forall_mem_singleton.2 rules

theorem template {parts : List TemplatePart} (rules : TemplatePart.AllWellScoped parts) :
    ∀ y ∈ parts.flatMap TemplatePart.nodes, y.Scoped := by
  induction parts with
  | nil => exact List.forall_mem_nil _
  | cons part rest ih =>
    cases part with
    | text => exact ih rules
    | hole e => exact List.forall_mem_cons.2 ⟨rules.1, ih rules.2⟩

theorem property {p : Property} (rules : p.WellScoped) : ∀ y ∈ p.nodes, y.Scoped := by
  cases p with
  | named | spread => exact List.forall_mem_singleton.2 rules
  | computed key value => exact List.forall_mem_cons.2 ⟨rules.1, List.forall_mem_singleton.2 rules.2⟩

theorem function {f : Function} (rules : f.WellScoped) : ∀ y ∈ f.nodes, y.Scoped := by
  obtain ⟨params, rest, body⟩ := f
  obtain ⟨-, params, rest, body⟩ := rules
  refine List.forall_mem_append.2 ⟨List.forall_mem_append.2 ⟨?_, optionPattern rest⟩, ?_⟩
  · exact forall_mem_flatMap.2 fun e mem => element (Element.allWellScoped_iff.1 params e mem)
  · cases ‹Body› with
    | expr e => exact List.forall_mem_singleton.2 body.2
    | block statements => exact row (List.nodup_append'.1 body.1).2.1 body.2

theorem cases {all : List Case} (nodup : (Case.scopeNames all).Nodup) (each : Case.AllWellScoped all) :
    ∀ y ∈ all.flatMap Case.nodes, y.Scoped := by
  refine forall_mem_flatMap.2 fun c mem => ?_
  have own := Case.allWellScoped_iff.1 each c mem
  have names := (List.nodup_flatMap.1 nodup).1 c mem
  obtain ⟨test, body⟩ := c
  exact List.forall_mem_append.2 ⟨option own.1, row names own.2⟩

theorem handler {h : Option Handler} (rules : Handler.OptionWellScoped h) :
    ∀ y ∈ (h.toList.flatMap Handler.body).map Node.stmt, y.Scoped := by
  cases h with
  | none => exact List.forall_mem_nil _
  | some h =>
    obtain ⟨param, body⟩ := h
    rw [show (some (Handler.mk param body)).toList.flatMap Handler.body = body from List.append_nil _]
    exact row (List.nodup_append'.1 rules.1).2.1 rules.2.2

theorem finalizer {f : Option (List Stmt)} (rules : Stmt.FinalizerWellScoped f) :
    ∀ y ∈ (f.getD []).map Node.stmt, y.Scoped := by
  cases f with
  | none => exact List.forall_mem_nil _
  | some statements => exact row rules.1 rules.2

/-- The scope rules of an expression are those of its parts. -/
theorem ofExpr {e : Expr} (rules : e.WellScoped) : ∀ y ∈ (Node.expr e).children, y.Scoped := by
  have all : ∀ {items : List Expr}, Expr.AllWellScoped items → ∀ y ∈ items.map Node.expr, y.Scoped :=
    fun each => List.forall_mem_map.2 (Expr.allWellScoped_iff.1 each)
  cases e with
  | name | literal => exact List.forall_mem_nil _
  | template parts => exact template rules
  | unary | update | spread => exact List.forall_mem_singleton.2 rules
  | binary op left right =>
    intro y mem
    rcases mem_children_binary.1 mem with rfl | mem
    · exact rules.1
    · cases List.mem_singleton.1 mem
      exact rules.2
  | conditional test consequent alternate =>
    exact List.forall_mem_cons.2 ⟨rules.1, List.forall_mem_cons.2 ⟨rules.2.1, List.forall_mem_singleton.2 rules.2.2⟩⟩
  | sequence items | array items => exact all rules
  | object properties =>
    exact forall_mem_flatMap.2 fun p mem => property (Property.allWellScoped_iff.1 rules p mem)
  | member object =>
    intro y mem
    rcases mem_children_member.1 mem with rfl | mem
    · exact rules
    · cases mem
  | index object key =>
    intro y mem
    rcases mem_children_index.1 mem with rfl | mem
    · exact rules.1
    · cases List.mem_singleton.1 mem
      exact rules.2
  | call callee args =>
    intro y mem
    rcases mem_children_call.1 mem with rfl | mem
    · exact rules.1
    · exact all rules.2 y mem
  | assign op target value => exact List.forall_mem_cons.2 ⟨rules.1, List.forall_mem_singleton.2 rules.2⟩
  | function definition => exact function rules

theorem ofPattern {p : Pattern} (rules : p.WellScoped) : ∀ y ∈ p.parts, y.Scoped := by
  cases p with
  | name => exact List.forall_mem_nil _
  | array elements rest =>
    refine List.forall_mem_append.2 ⟨forall_mem_flatMap.2 fun e mem => element ?_, optionPattern rules.2⟩
    exact Pattern.elementsWellScoped_iff.1 rules.1 e (List.reduceOption_mem_iff.1 mem)
  | object fields rest => exact forall_mem_flatMap.2 fun f mem => field (Field.allWellScoped_iff.1 rules f mem)

/-- The parts of a tidy statement that is well scoped are well scoped. -/
theorem ofStmt (rules : t.WellScoped) (tidy : NodeRule.tidy.stmt t) : ∀ y ∈ t.parts, y.Scoped := by
  cases t with
  | empty | brk | cont => exact List.forall_mem_nil _
  | expr | throw => exact List.forall_mem_singleton.2 rules
  | ret e => exact option rules
  | block statements => exact row rules.1 rules.2
  | declare kind ds => exact declarators rules.2
  | branch test consequent alternate =>
    obtain ⟨test, consequent, alternate⟩ := rules
    refine List.forall_mem_cons.2 ⟨test, List.forall_mem_cons.2 ⟨bare consequent tidy.1, ?_⟩⟩
    cases ‹Option Stmt› with
    | none => exact List.forall_mem_nil _
    | some t => exact List.forall_mem_singleton.2 (bare alternate (tidy.2 t rfl))
  | whileLoop test body | doWhile body test =>
    exact List.forall_mem_cons.2 ⟨rules.1, List.forall_mem_singleton.2 (bare rules.2 tidy)⟩
  | forLoop init test update body =>
    obtain ⟨-, init, test, update, body⟩ := rules
    refine List.forall_mem_append.2 ⟨forInit init, List.forall_mem_append.2 ⟨option test, ?_⟩⟩
    exact List.forall_mem_append.2 ⟨option update, List.forall_mem_singleton.2 (bare body tidy)⟩
  | forEach visits kind pattern object body =>
    obtain ⟨-, -, pattern, object, body⟩ := rules
    refine List.forall_mem_cons.2 ⟨pattern, List.forall_mem_cons.2 ⟨object, ?_⟩⟩
    exact List.forall_mem_singleton.2 (bare body tidy)
  | attempt statements handler finalizer =>
    refine List.forall_mem_append.2 ⟨row rules.1.1 rules.1.2, List.forall_mem_append.2 ⟨?_, ?_⟩⟩
    · exact Scoped.handler rules.2.1
    · exact Scoped.finalizer rules.2.2
  | switch discriminant all => exact List.forall_mem_cons.2 ⟨rules.1, cases rules.2.1 rules.2.2⟩
  | function name definition => exact function rules.2

theorem children (rules : x.Scoped) (tidy : NodeRule.tidy.node x) : ∀ y ∈ x.children, y.Scoped := by
  cases x with
  | expr e => exact ofExpr rules
  | pattern p => exact ofPattern rules
  | stmt t => exact ofStmt rules.1 tidy

end Node.Scoped

/-! ## Settled code -/

theorem Function.settled_of_scoped {f : Function} (rules : f.WellScoped)
    (unhoisted : ∀ params rest body, f = .mk params rest body → Stmt.Unhoisted body.statements) : f.Settled := by
  obtain ⟨params, rest, body⟩ := f
  obtain ⟨-, -, -, rules⟩ := rules
  refine ⟨?_, unhoisted _ _ _ rfl⟩
  cases body with
  | expr e => exact (List.append_nil _).symm ▸ rules.1
  | block statements => exact ((List.Sublist.refl _).append (Stmt.names_declaredIn statements)).nodup rules.1

/-- In code that is well scoped and tidy, declarations stand where they belong. -/
theorem Stmt.settled_of_scoped (rules : (Node.stmt t).Scoped) (tidy : NodeRule.tidy.stmt t) :
    NodeRule.settled.stmt t := by
  obtain ⟨rules, declared⟩ := rules
  cases t with
  | block statements => exact distinct_of_scope rules.1
  | declare kind declarators => exact declared
  | branch | whileLoop | doWhile => exact tidy
  | forLoop init test update body =>
    refine ⟨?_, tidy⟩
    have names := (List.nodup_append'.1 rules.1).1
    cases init with
    | declare kind declarators => exact (DeclKind.names_declared kind _).symm ▸ names
    | _ => exact List.nodup_nil
  | forEach visits kind pattern object body => exact ⟨(List.nodup_append'.1 rules.1).1, tidy⟩
  | attempt statements handler finalizer =>
    refine ⟨distinct_of_scope rules.1.1, ?_, ?_⟩
    · rintro ⟨param, body⟩ rfl
      exact ((List.Sublist.refl _).append (names_declaredIn body)).nodup rules.2.1.1
    · rintro statements rfl
      exact distinct_of_scope rules.2.2.1
  | switch discriminant cases =>
    refine distinct_of_scope ?_
    rw [scopeNamesList, List.flatMap_assoc]
    exact rules.2.1
  | function name definition =>
    refine Function.settled_of_scoped rules.2 fun params rest body same => ?_
    subst same
    exact tidy
  | _ => trivial

/-- What follows the rules is settled in every block. -/
theorem Node.settled_of_scoped (rules : x.Scoped) (tidy : x.Obeys .tidy) : x.Obeys .settled := by
  induction h : x.size using Nat.strongRecOn generalizing x with
  | _ n ih =>
    obtain ⟨own, parts⟩ := Node.obeys_iff.1 tidy
    refine Node.obeys_iff.2 ⟨?_, fun y mem => ?_⟩
    · cases x with
      | expr e =>
        cases e with
        | function definition =>
          refine Function.settled_of_scoped rules fun params rest body same => ?_
          subst same
          exact own
        | _ => trivial
      | pattern p => trivial
      | stmt t => exact Stmt.settled_of_scoped rules own
    · exact ih y.size (h ▸ Node.size_lt_of_mem_children mem) (rules.children own y mem) (parts y mem) rfl

/-- Accepted programs that are tidy are settled. -/
theorem settled_of_parsed {source : String} (read : parseStatements source = .ok statements)
    (tidy : ∀ y ∈ statements.map Node.stmt, y.Obeys .tidy) :
    (∀ y ∈ statements.map Node.stmt, y.Obeys .settled) ∧ Stmt.Distinct statements := by
  obtain ⟨tokens, c, run⟩ := Parser.runOn_ok read
  have ends := Parser.From.program (Parser.level_keepsScopes Parser.maxNesting) (.ofTokens tokens) [] rfl List.nodup_nil
  rw [run] at ends
  obtain ⟨block, -, nodup, so⟩ := ends
  have names := so.names.nodup nodup
  have rules := Node.Scoped.row names (Stmt.allWellScoped_iff.2 so.each)
  exact ⟨fun y mem => Node.settled_of_scoped (rules y mem) (tidy y mem), Stmt.distinct_of_scope names⟩

end BindScript

/-!
## Constants keep their values

A binding gets its value from a declarator (of a declaration, or of the head of a counting loop), or from an item that a
loop visits (`Point.Initializes`). Once a constant has its value, a run of settled code changes the cell no more,
wherever it is given up (`Run.constant_kept`): what has been given its value is marked at the end of the statement, and
from there on up to the end of the run (`Watch.marked_of_inside`).

What is accepted but not tidy may change a constant. A constant that is a variable of the whole function is assigned to
like one (`hoisted_constant`), and a declaration without a scope of its own finds its binding there when it runs again.
-/

namespace BindScript

open EvalM

variable {ctx : Context} {stops : Point → Prop} {s t u : State} {b : Binding} {X Y : Declared} {p : Point} {run : Run}

/-! ### Visits -/

open Classical in
/-- Visits of items, with another answer for the one of an item from a state. -/
noncomputable def answeringVisit (visit : Value → EvalM Bool) (item : Value) (u : State)
    (answer : EStateM.Result Exit State Bool) : Value → EvalM Bool :=
  fun v s => if v = item ∧ s = u then answer else visit v s

/-- It makes a difference to the loop how it ends when it visits the item from the state. -/
def AsksVisit (loop : (Value → EvalM Bool) → EvalM Unit) (visit : Value → EvalM Bool) (s : State) (item : Value)
    (u : State) : Prop :=
  ∃ answer answer', loop (answeringVisit visit item u answer) s ≠ loop (answeringVisit visit item u answer') s

namespace Watch

variable {W : Watch} {α β : Type} {P : α → Prop} {item : Value} {visit : Value → EvalM Bool}
  {loop : (Value → EvalM Bool) → EvalM Unit}

theorem marked_of_asksVisit (self : ∀ v, W.Quiet (visit v) (visit v))
    (follows : ∀ visit', (∀ v, W.Quiet (visit v) (visit' v)) →
      W.Ends X (fun _ => True) s (loop visit s) (loop visit' s))
    (asks : AsksVisit loop visit s item u) (marked : W.At u → W.Marked [] u (final (visit item u))) :
    W.Marked X s (final (loop visit s)) := by
  refine marked_of_difference (fun answer => follows _ fun v s state => ?_) asks
  unfold answeringVisit
  -- the visits differ in one place, and there the mark is set
  by_cases here : v = item ∧ s = u
  · obtain ⟨rfl, rfl⟩ := here
    exact ⟨(self v s state).kept, .inr (marked state)⟩
  · rw [if_neg here]
    exact self v s state

theorem at_of_asksVisit (self : ∀ v, W.alone.Quiet (visit v) (visit v))
    (follows : ∀ visit', (∀ v, W.alone.Quiet (visit v) (visit' v)) →
      W.alone.Ends X (fun _ => True) s (loop visit s) (loop visit' s))
    (asks : AsksVisit loop visit s item u) : W.At u := by
  by_contra other
  have marked := marked_of_asksVisit self follows asks fun state => absurd (alone_at.1 state) other
  exact marked.1

/-! ### Where the mark is set -/

theorem Kept.of_ok {a : α} (kept : W.Kept X P s (.ok a t)) : W.At t ∧ W.Later X s t := by
  cases kept with
  | ok state later => exact ⟨state, later⟩

theorem Marked.bind_pure {x : EvalM α} {a : β} (marked : W.Marked X s (final (x s))) :
    W.Marked X s (final ((x >>= fun _ => Pure.pure a) s)) := by
  show W.Marked X s (final (EStateM.bind x _ s))
  unfold EStateM.bind
  generalize x s = r at marked ⊢
  cases r <;> exact marked

/-- What a step has marked stays marked while it is gone on without declarations. -/
theorem Marked.bind {x : EvalM α} {f : α → EvalM β} {Q : β → Prop} (kept : W.Kept X P s (x s))
    (marked : W.Marked X s (final (x s))) (next : ∀ a t, P a → W.At t → W.Kept [] Q t (f a t)) :
    W.Marked X s (final ((x >>= f) s)) := by
  show W.Marked X s (final (EStateM.bind x f s))
  unfold EStateM.bind
  generalize x s = r at kept marked ⊢
  cases kept with
  | ok middle _ result =>
    rw [← List.append_nil X]
    exact (next _ _ result middle).marked middle marked .nil_right
  | error => exact marked

theorem final_leavingWith (leave : Environment → Environment) (r : EStateM.Result Exit State α) :
    final (leavingWith leave r) = { final r with env := leave (final r).env } := by
  cases r <;> rfl

/-- What has been marked in a scope of its own is marked for the scopes around it. -/
theorem Kept.marked_inScope {x : EvalM α} (state : W.At s)
    (kept : W.Kept X P { s with env := s.env.push } (x { s with env := s.env.push }))
    (marked : W.Marked X { s with env := s.env.push } (final (x { s with env := s.env.push }))) :
    W.Marked [] s (final (inScope x s)) := by
  obtain ⟨added, adds, -⟩ := (kept.later marked.2.1).env
  have back : (final (x { s with env := s.env.push })).env.pop = s.env := Environment.pop_of_grows_push adds.grows
  rw [inScope_eq, final_leavingWith, back]
  exact ⟨marked.1, marked.2.1, marked.2.2.back s.enters_push (state.sound marked.2.1)⟩

end Watch

theorem NodeRule.settled_le (_ : True) : NodeRule.settled.Le .settled :=
  ⟨fun _ own => own, fun _ own => own, fun _ own => own⟩

/-- Watches what the binding has in the state. -/
def Watch.given (ctx : Context) (b : Binding) (t : State) : Watch where
  ctx := ctx
  code := .settled
  formed := False
  constants := True
  shaped := False.elim
  settled := NodeRule.settled_le
  parts := True
  cell := b.cell
  value := t.heap.cellAt b.cell

/-- What has been declared is a constant, and its cell is marked. -/
theorem Watch.marked_given (state : (given ctx b t).At s) (after : (given ctx b t).At t)
    (later : (given ctx b t).Later X s t) (expects : (given ctx b t).Expects X s)
    (distinct : (given ctx b t).Distinct X) (mem : b ∈ t.env.currentScope) (named : (b.name, .const) ∈ X) :
    b.kind = .const ∧ (given ctx b t).Marked X s t := by
  have sound := after.sound trivial
  have const : b.kind = .const := by
    rcases (later trivial).scope (state.sound trivial).inside mem with before | ⟨declared, -⟩
    · exact expects trivial b.name named b before rfl
    · exact Declared.kind_unique (distinct trivial) declared named
  refine ⟨const, trivial, trivial, sound.constant (.scope mem) const, rfl, fun b' mem' same => ?_, fun there => ?_⟩
  · rw [sound.coherent b' b (.scope mem') (.scope mem) same]
    exact named
  · exact ⟨b, (later trivial).scope_of_lt (state.sound trivial).inside mem there, rfl, named⟩

/-! ### Where constants get their values -/

/-- The declarators, run from the state, come to one that gives the constant its value. -/
def GivenBy (ctx : Context) (sub : Interpreter) (b : Binding) (t : State) (declarators : List Declarator) (s : State) :
    Prop :=
  ∃ before d after u, declarators = before ++ d :: after ∧
    before.forM (evalDeclarator ctx sub .const) s = .ok () u ∧ evalDeclarator ctx sub .const d u = .ok () t ∧
    b ∈ t.env.currentScope ∧ b.name ∈ d.pattern.boundNames

/-- Evaluating the part gives the constant its value, which leads to the state `t`: a declarator of a declaration or of
the head of a counting loop has been run, or the names in the head of a loop over a collection have been bound to an
item. -/
inductive Part.Initializes (ctx : Context) (sub : Interpreter) (b : Binding) (t : State) : Part → State → Prop
  | declaration {s : State} {declarators : List Declarator} (runs : s.interrupted = false)
    (given : GivenBy ctx sub b t declarators s) : Initializes ctx sub b t (.stmt (.declare .const declarators)) s
  | head {s : State} {declarators : List Declarator} {test update : Option Expr} {body : Stmt}
    (runs : s.interrupted = false) (given : GivenBy ctx sub b t declarators { s with env := s.env.push }) :
    Initializes ctx sub b t (.stmt (.forLoop (.declare .const declarators) test update body)) s
  | item {s u v : State} {visits : EachKind} {pattern : Pattern} {object : Expr} {body : Stmt}
    {collection item : BindScript.Value}
    (runs : s.interrupted = false) (collected : sub.expr object s = .ok collection u)
    (visited : AsksVisit (evalForEach sub visits · collection) (visitItem ctx sub (some .const) pattern body) u item v)
    (bound : bindPattern ctx sub (.declare .const) pattern item { v with env := v.env.push } = .ok () t)
    (mem : b ∈ t.env.currentScope) (named : b.name ∈ pattern.boundNames) :
    Initializes ctx sub b t (.stmt (.forEach visits (some .const) pattern object body)) s

namespace Watch

variable {α : Type} {sub : Interpreter} {declarators : List Declarator}

theorem forM_of_ok {f : α → EvalM Unit} {first rest : List α} (run : first.forM f s = .ok () t) :
    (first ++ rest).forM f s = rest.forM f t := by
  have joined : (first ++ rest).forM f = first.forM f >>= fun _ => rest.forM f := List.forM_append
  rw [joined]
  exact bind_of_ok run

/-- The declarators up to the one that gives the constant its value have marked it, and those after it leave it. -/
theorem marked_of_givenBy (self : (given ctx b t).Interprets sub sub)
    (code : ∀ d ∈ declarators, ∀ y ∈ d.nodes, (given ctx b t).Code y)
    (distinct : (given ctx b t).Distinct (DeclKind.const.declared (Declarator.boundNames declarators)))
    (state : (given ctx b t).At s)
    (expects : (given ctx b t).Expects (DeclKind.const.declared (Declarator.boundNames declarators)) s)
    (gives : GivenBy ctx sub b t declarators s) :
    b.kind = .const ∧ (given ctx b t).Marked (DeclKind.const.declared (Declarator.boundNames declarators)) s
      (final (evalDeclaration ctx sub .const declarators s)) := by
  obtain ⟨before, d, after, u, rfl, first, here, mem, named⟩ := gives
  have split : DeclKind.const.declared (Declarator.boundNames (before ++ d :: after)) =
      DeclKind.const.declared (Declarator.boundNames (before ++ [d])) ++
        DeclKind.const.declared (Declarator.boundNames after) := by
    simp [DeclKind.declared, Declarator.boundNames]
  rw [split] at distinct expects ⊢
  -- the mark is set right after the declarator that gives the value, and the ones after it declare other names
  have upto : evalDeclaration ctx sub .const (before ++ [d]) s = .ok () t :=
    (forM_of_ok first).trans (bind_of_ok here)
  have whole : evalDeclaration ctx sub .const (before ++ d :: after) s = evalDeclaration ctx sub .const after t := by
    rw [List.append_cons before d after]
    exact forM_of_ok upto
  have beforeCode : ∀ d' ∈ before ++ [d], ∀ y ∈ d'.nodes, (given ctx b t).Code y := fun d' inside =>
    code d' (List.append_cons before d after ▸ List.mem_append_left after inside)
  have afterCode : ∀ d' ∈ after, ∀ y ∈ d'.nodes, (given ctx b t).Code y := fun d' inside =>
    code d' (List.mem_append_right before (List.mem_cons_of_mem d inside))
  have first := (Follows.evalDeclaration self .const beforeCode distinct.left s state).kept
  rw [show evalDeclaration (given ctx b t).ctx sub .const (before ++ [d]) s = .ok () t from upto] at first
  obtain ⟨middle, later⟩ := first.of_ok
  have named : (b.name, .const) ∈ DeclKind.const.declared (Declarator.boundNames (before ++ [d])) :=
    List.mem_map_of_mem (List.mem_flatMap.2 ⟨d, List.mem_append_right _ (List.mem_singleton.2 rfl), named⟩)
  obtain ⟨const, marked⟩ :=
    marked_given state middle later (expects.mono (List.subset_append_left _ _)) distinct.left mem named
  refine ⟨const, ?_⟩
  rw [whole]
  exact (Follows.evalDeclaration self .const afterCode distinct.right t middle).kept.marked middle marked distinct.apart

/-- What an item is bound to is marked when the loop goes on, whatever the body does. -/
theorem marked_of_visit {pattern : Pattern} {body : Stmt} (self : (given ctx b t).Interprets sub sub)
    (patternCode : (given ctx b t).Code (.pattern pattern)) (bodyCode : (given ctx b t).Code (.stmt body))
    (distinct : pattern.boundNames.Nodup) (bare : body.declared = []) (state : (given ctx b t).At s)
    (bound : bindPattern ctx sub (.declare .const) pattern item { s with env := s.env.push } = .ok () t)
    (mem : b ∈ t.env.currentScope) (named : b.name ∈ pattern.boundNames) :
    b.kind = .const ∧
      (given ctx b t).Marked [] s (final (visitItem ctx sub (some .const) pattern body item s)) := by
  let W := given ctx b t
  let X := (BindMode.declare .const).declared pattern.boundNames
  have apart : W.Distinct X := fun _ => (BindMode.names_declared .const pattern.boundNames).symm ▸ distinct
  have binds := Follows.bindPattern self (.declare .const) pattern item patternCode apart
  have ran := Follows.runBody self bodyCode fun _ => bare
  have first := (binds _ state.pushed).kept
  rw [show bindPattern W.ctx sub _ pattern item _ = .ok () t from bound] at first
  obtain ⟨middle, later⟩ := first.of_ok
  obtain ⟨const, marked⟩ := marked_given state.pushed middle later (expects_of_fresh (Environment.fresh_push _)) apart
    mem (List.mem_map_of_mem named)
  refine ⟨const, (Follows.bind_quiet binds (fun _ _ => ran) _ state.pushed).kept.marked_inScope state ?_⟩
  refine Marked.bind (binds _ state.pushed).kept ?_ fun _ u _ middle => (ran u middle).kept
  exact (congrArg final bound).symm ▸ marked

/-- The declarators in the head of a counting loop mark the constant for the scopes around the loop. -/
theorem marked_of_head {test update : Option Expr} {body : Stmt} (self : (given ctx b t).Interprets sub sub)
    (code : (given ctx b t).Code (.stmt (.forLoop (.declare .const declarators) test update body)))
    (state : (given ctx b t).At s) (gives : GivenBy ctx sub b t declarators { s with env := s.env.push }) :
    b.kind = .const ∧
      (given ctx b t).Marked [] s (final (evalFor ctx sub (.declare .const declarators) test update body s)) := by
  have parts : ∀ y ∈ (Stmt.forLoop (.declare .const declarators) test update body).parts, (given ctx b t).Code y :=
    fun y mem => code.part mem
  obtain ⟨initCode, rest⟩ := List.forall_mem_append.1 parts
  obtain ⟨testCode, rest⟩ := List.forall_mem_append.1 rest
  obtain ⟨updateCode, rest⟩ := List.forall_mem_append.1 rest
  obtain ⟨distinct, bare⟩ := code.settled trivial
  have bodyCode := rest _ (List.mem_singleton.2 rfl)
  have pushed := state.pushed
  have declCode := forall_mem_flatMap.1 initCode
  obtain ⟨const, marked⟩ := marked_of_givenBy self declCode (fun _ => distinct) pushed
    (expects_of_fresh (Environment.fresh_push _)) gives
  have declares := Follows.evalDeclaration self .const declCode fun _ => distinct
  have starts := Follows.evalForInit self initCode fun _ => distinct
  have turn (names : List String) (nodup : (given ctx b t).constants → names.Nodup) :
      (given ctx b t).Quiet (EvalM.forTurn sub names test update body) (EvalM.forTurn sub names test update body) :=
    Follows.forTurn self testCode updateCode bodyCode (fun _ => bare) nodup
  have turns := fun names nodup => Follows.repeatWhile (turn names nodup) sub.turns
  have started : (given ctx b t).Marked _ _ (final (evalForInit ctx sub (.declare .const declarators)
      { s with env := s.env.push })) :=
    marked.bind_pure
  refine ⟨const, ?_⟩
  rw [evalFor_eq]
  refine (Follows.bind_quiet starts turns _ pushed).kept.marked_inScope state ?_
  exact Marked.bind (starts _ pushed).kept started fun names u nodup middle => (turns names nodup u middle).kept

/-- What an item is bound to is marked at the end of the loop that visits it. -/
theorem marked_of_item {visits : EachKind} {pattern : Pattern} {object : Expr} {body : Stmt} {collection : Value}
    {v : State} (self : (given ctx b t).Interprets sub sub) (alone : (given ctx b t).alone.Interprets sub sub)
    (code : (given ctx b t).Code (.stmt (.forEach visits (some .const) pattern object body)))
    (visited : AsksVisit (evalForEach sub visits · collection) (visitItem ctx sub (some .const) pattern body) u item v)
    (state : (given ctx b t).At u)
    (bound : bindPattern ctx sub (.declare .const) pattern item { v with env := v.env.push } = .ok () t)
    (mem : b ∈ t.env.currentScope) (named : b.name ∈ pattern.boundNames) :
    b.kind = .const ∧ (given ctx b t).Marked [] u
      (final (evalForEach sub visits (visitItem ctx sub (some .const) pattern body) collection u)) := by
  have parts : ∀ y ∈ (Stmt.forEach visits (some .const) pattern object body).parts, (given ctx b t).Code y :=
    fun y mem => code.part mem
  obtain ⟨patternCode, rest⟩ := List.forall_mem_cons.1 parts
  obtain ⟨-, rest⟩ := List.forall_mem_cons.1 rest
  have bodyCode := rest _ (List.mem_singleton.2 rfl)
  obtain ⟨distinct, bare⟩ := code.settled trivial
  -- the visit is asked for in a state that is as the watch asks, and so it sets the mark there
  have marks : (given ctx b t).At v → _ := fun there =>
    marked_of_visit self patternCode bodyCode distinct bare there bound mem named
  have there : (given ctx b t).At v := at_of_asksVisit (X := [])
    (Follows.visitItem alone (some .const) patternCode bodyCode (fun _ => distinct) fun _ => bare)
    (fun visit' same => Follows.evalForEach alone visits same collection u (alone_at.2 state)) visited
  refine ⟨(marks there).1, marked_of_asksVisit
    (Follows.visitItem self (some .const) patternCode bodyCode (fun _ => distinct) fun _ => bare)
    (fun visit' same => Follows.evalForEach self visits same collection u state) visited fun there => (marks there).2⟩

/-- A part that gives a constant its value has marked it when it ends. -/
theorem marked_of_initializes {part : Part} (self : (given ctx b t).Interprets sub sub)
    (alone : (given ctx b t).alone.Interprets sub sub) (state : (given ctx b t).At s)
    (asked : (given ctx b t).Asked part s) (gives : part.Initializes ctx sub b t s) :
    b.kind = .const ∧ (given ctx b t).Marked part.declared s (final (part.step ctx sub s)) := by
  cases gives with
  | @declaration _ declarators runs gives =>
    obtain ⟨code, expects⟩ := asked
    have parts := forall_mem_flatMap.1 fun y mem => code.part mem
    obtain ⟨const, marked⟩ := marked_of_givenBy self parts (fun _ => code.settled trivial) state expects gives
    have step : stmtStep ctx sub (.declare .const declarators) s =
        (evalDeclaration ctx sub .const declarators >>= fun _ => Pure.pure Value.undefined) s :=
      bind_of_ok (checkInterrupt_of_runs runs)
    exact ⟨const, (congrArg final step).symm ▸ marked.bind_pure⟩
  | @head _ declarators test update body runs gives =>
    obtain ⟨const, marked⟩ := marked_of_head self asked.1 state gives
    have step : stmtStep ctx sub (.forLoop (.declare .const declarators) test update body) s =
        (evalFor ctx sub (.declare .const declarators) test update body >>= fun _ => Pure.pure Value.undefined) s :=
      bind_of_ok (checkInterrupt_of_runs runs)
    exact ⟨const, (congrArg final step).symm ▸ marked.bind_pure⟩
  | @item _ u v visits pattern object body collection item runs collected visited bound mem named =>
    have code := asked.1
    have objectCode : (given ctx b t).Code (.expr object) := code.part (List.mem_cons_of_mem _ (List.mem_cons_self ..))
    have first := (self.expr object objectCode s state).kept
    rw [collected] at first
    obtain ⟨middle, later⟩ := first.of_ok
    obtain ⟨const, marked⟩ := marked_of_item self alone code visited middle bound mem named
    -- the collection has been evaluated, and the turns go on from the state after it
    have ended := marked.bind_pure (a := Value.undefined)
    have step : stmtStep ctx sub (.forEach visits (some .const) pattern object body) s =
        (evalForEach sub visits (visitItem ctx sub (some .const) pattern body) collection >>= fun _ =>
          Pure.pure Value.undefined) u :=
      (bind_of_ok (checkInterrupt_of_runs runs)).trans (bind_of_ok collected)
    refine ⟨const, (congrArg final step).symm ▸ ⟨ended.1, ended.2.1, ?_⟩⟩
    exact ended.2.2.after (state.sound trivial).inside (later trivial)

end Watch

/-! ### Whole runs -/

/-- What a run has come to where it is given up, or at its end. -/
noncomputable def Run.stateUntil (ctx : Context) (stops : Point → Prop) (run : Run) (s : State) : State :=
  Watch.final (run.interpreted ctx (interpreterUntil ctx stops grantedLevels) s)

/-- At the point, before the run is given up, a constant gets its value. -/
def Point.Initializes (ctx : Context) (stops : Point → Prop) (b : Binding) (t : State) (p : Point) : Prop :=
  ¬ stops p ∧ ∃ levels, p.levels = levels + 1 ∧
    p.part.Initializes ctx (interpreterUntil ctx stops levels) b t p.state

/-- All functions on the heap are settled, and every cell has one binding. -/
structure State.Settled (s : State) : Prop where
  code : ∀ c, ∀ y ∈ (s.heap.closureAt c).definition.nodes, y.Obeys .settled
  functions : ∀ c, (s.heap.closureAt c).definition.Settled
  sound : s.Sound

theorem Watch.at_given : (given ctx b t).At s ↔ s.Settled :=
  ⟨fun state => ⟨fun c y mem => ((state.callable c).code y mem).1, fun c => (state.callable c).settled trivial,
      state.sound trivial⟩,
    fun settled => ⟨fun c => ⟨fun y mem => ⟨settled.code c y mem, False.elim⟩, fun _ => settled.functions c⟩,
      fun _ => settled.sound⟩⟩

section Settled

variable (code : ∀ y ∈ run.nodes, y.Obeys .settled) (settled : run.Settled) (state : s.Settled)
  (expects : ∀ name, (name, .const) ∈ run.declared → Watch.Only name s)

include code settled state expects

/-- A run of settled code leaves settled functions only, wherever it is given up. -/
theorem Run.settled_stateUntil : (run.stateUntil ctx stops s).Settled := by
  let b : Binding := ⟨"", 0, .const⟩
  have self := (Watch.given ctx b s).interprets_until stops grantedLevels
  have coded : ∀ y ∈ run.nodes, (Watch.given ctx b s).Code y := fun y mem => ⟨code y mem, False.elim⟩
  have ends := Watch.Ends.interpreted self coded (fun _ => settled) (Watch.at_given.2 state) fun _ => expects
  exact Watch.at_given.1 ends.kept.state

/-- Once a constant has its value, a run of settled code leaves it as it is. -/
theorem Run.constant_kept (inside : p.InsideUntil ctx stops s run) (gives : p.Initializes ctx stops b t) :
    b.kind = .const ∧ (run.stateUntil ctx stops s).heap.cellAt b.cell = t.heap.cellAt b.cell := by
  let W := Watch.given ctx b t
  have coded : ∀ y ∈ run.nodes, W.Code y := fun y mem => ⟨code y mem, False.elim⟩
  have start : W.At s := Watch.at_given.2 state
  obtain ⟨goesOn, levels, above, gives⟩ := gives
  obtain ⟨here, asked⟩ := Watch.asked_of_inside coded (fun _ => settled) start (fun _ => expects) inside
  obtain ⟨const, marked⟩ := Watch.marked_of_initializes (W.interprets_until stops levels)
    (W.alone.interprets_until stops levels) here asked gives
  -- at the point itself the run is not given up, so the step there is the one that sets the mark
  have marked := (congrArg Watch.final (interpreterUntil_run goesOn above)).symm ▸ marked
  have kept := Watch.marked_of_inside coded (fun _ => settled) start (fun _ => expects) inside marked
  exact ⟨const, kept.2.2.value⟩

end Settled

/-! ### Programs -/

/-- After hoisting, a program asks for its first statement. -/
theorem Run.asks_first {first : Stmt} {rest : List Stmt}
    (vars : hoistVars (first :: rest) { s with env := .empty ctx.options.maxCallDepth } = .ok () t)
    (lexical : hoistLexical (first :: rest) t = .ok () u) (sub : Interpreter) :
    Asks (fun sub => (Run.program (first :: rest)).interpreted ctx sub) sub s (.stmt first) u := by
  have ends : ∀ v, (Run.program (first :: rest)).interpreted ctx
      (sub.replacing u (.stmt first) (.error .exhausted v)) s = .error .exhausted { v with env := s.env } := by
    intro v
    have answered := sub.replacing_run_self u (.stmt first) (.error .exhausted v)
    generalize sub.replacing u (.stmt first) (.error .exhausted v) = told at answered ⊢
    have body : evalStatements told (first :: rest) t = .error .exhausted v :=
      (bind_of_ok lexical).trans (bind_of_error answered)
    have run : (do discard (evalStatements told (first :: rest)); return Value.undefined) t = .error .exhausted v :=
      bind_of_error (bind_of_error body)
    have tried : EvalM.attempt (do discard (evalStatements told (first :: rest)); return Value.undefined) t =
        .ok (.error .exhausted) v := by
      rw [EvalM.attempt, run]
    have whole : runStatementsIn told (first :: rest) { s with env := .empty ctx.options.maxCallDepth } =
        .error .exhausted v := (bind_of_ok vars).trans (bind_of_ok tried)
    show inEnvironment _ _ s = _
    rw [inEnvironment_apply, whole]
  refine ⟨.error .exhausted {}, .error .exhausted { interrupted := true }, ?_⟩
  show (Run.program (first :: rest)).interpreted ctx _ s ≠ (Run.program (first :: rest)).interpreted ctx _ s
  rw [ends, ends]
  intro same
  cases same

/-- A context that knows no names. -/
def bareContext : Context where
  locals := .undefined
  app := .undefined

/-- The state of a program that has bound `x` only. -/
def boundX (kind : BindingKind) (v : Value) : State where
  env := { bindings := #[⟨"x", 0, kind⟩] }
  heap := { cells := #[v] }

/-- `x = null` -/
def nullDeclarator : Declarator :=
  .mk (.name "x") (some (.literal .null))

/-- The point of a program where its first declaration is `const x = null`, after hoisting. -/
def declaringX (kind : BindingKind) : Point where
  levels := grantedLevels
  part := .stmt (.declare .const [nullDeclarator])
  state := boundX kind .undefined

theorem declaringX_initializes (kind : BindingKind) :
    (declaringX kind).Initializes bareContext (fun _ => False) ⟨"x", 0, kind⟩ (boundX kind .null) := by
  obtain ⟨n, granted⟩ : ∃ n, grantedLevels = n + 2 := ⟨999999999999999998, rfl⟩
  refine ⟨id, n + 1, granted, .declaration rfl ?_⟩
  rw [interpreterUntil_never]
  have run : evalDeclarator bareContext (interpreter bareContext (n + 1)) .const nullDeclarator
      (boundX kind .undefined) = .ok () (boundX kind .null) := by cbv
  exact ⟨[], nullDeclarator, [], _, rfl, rfl, run, List.mem_singleton.2 rfl, List.mem_singleton.2 rfl⟩

theorem State.settled_empty : State.Settled {} where
  code _ := List.forall_mem_nil _
  functions _ := ⟨List.nodup_nil, fun _ => nofun⟩
  sound := by
    have none : ∀ b, ¬ ({} : State).Knows b := by
      rintro b (mem | ⟨c, mem⟩) <;> cases mem
    exact ⟨Nat.le_refl _, fun b known => absurd known (none b), fun b _ known => absurd known (none b)⟩

/-- **Constants keep their values.** Take a program that has been accepted and that is tidy, over functions that are
settled. Once a declarator, or an item that is visited, has given a constant its value, the run changes the cell no
more, wherever it is given up: what any later step finds there is what has been given. And all functions that the run
makes are settled again. -/
theorem constants_kept {source : String} {statements : List Stmt} (read : parseStatements source = .ok statements)
    (tidy : ∀ y ∈ statements.map Node.stmt, y.Obeys .tidy) (unhoisted : Stmt.Unhoisted statements) (ctx : Context)
    (s : State) (state : s.Settled) (stops : Point → Prop) :
    ((Run.program statements).stateUntil ctx stops s).Settled ∧
      ∀ (p : Point) (b : Binding) (t : State),
        p.InsideUntil ctx stops s (.program statements) → p.Initializes ctx stops b t → b.kind = .const ∧
          ((Run.program statements).stateUntil ctx stops s).heap.cellAt b.cell = t.heap.cellAt b.cell := by
  obtain ⟨code, distinct⟩ := settled_of_parsed read tidy
  let run : Run := .program statements
  have settled : run.Settled := ⟨distinct, unhoisted⟩
  exact ⟨run.settled_stateUntil code settled state nofun,
    fun _ _ _ inside gives => run.constant_kept code settled state nofun inside gives⟩

/-- `const x = null; x = true;` -/
def assignedConstant : List Stmt :=
  [.declare .const [nullDeclarator], .expr (.assign .assign (.name "x") (.literal (.bool true)))]

set_option maxRecDepth 100000 in
/-- The assignment to the constant changes nothing. -/
theorem assigned_constant_kept :
    parseStatements "const x = null; x = true;" = .ok assignedConstant ∧
      (∀ y ∈ assignedConstant.map Node.stmt, y.Obeys .tidy) ∧ Stmt.Unhoisted assignedConstant ∧ State.Settled {} ∧
      ((Run.program assignedConstant).stateUntil bareContext (fun _ => False) {}).heap.cellAt 0 = .null := by
  have read : parseStatements "const x = null; x = true;" = .ok assignedConstant := rfl
  have tidy : ∀ y ∈ assignedConstant.map Node.stmt, y.Obeys .tidy := by
    simp [assignedConstant, nullDeclarator, Node.Obeys, Stmt.Obeys, Declarator.AllObey, Declarator.Obeys, Pattern.Obeys,
      Expr.OptionObeys, Expr.Obeys, NodeRule.tidy]
  have unhoisted : Stmt.Unhoisted assignedConstant := fun _ _ => List.not_mem_nil
  have asks : Asks (fun sub => (Run.program assignedConstant).interpreted bareContext sub) bareContext.interpreter {}
      (.stmt (.declare .const [nullDeclarator])) (boundX .const .undefined) :=
    Run.asks_first (t := {}) (by cbv) (by cbv) bareContext.interpreter
  have inside : (declaringX .const).InsideUntil bareContext (fun _ => False) {} (.program assignedConstant) :=
    Point.insideUntil_never.2 (.run ⟨rfl, asks⟩)
  have kept := (constants_kept read tidy unhoisted bareContext {} State.settled_empty fun _ => False).2 _ _ _ inside
    (declaringX_initializes .const)
  exact ⟨read, tidy, unhoisted, State.settled_empty, kept.2⟩

/-- `const x = null; var x; x = true;` -/
def hoistedConstant : List Stmt :=
  [.declare .const [nullDeclarator], .declare .var [.mk (.name "x") none],
    .expr (.assign .assign (.name "x") (.literal (.bool true)))]

set_option maxRecDepth 100000 in
/-- A constant that is a variable of the whole program is given its value like one, and assigned to like one. -/
theorem hoisted_constant :
    parseStatements "const x = null; var x; x = true;" = .ok hoistedConstant ∧
      ∃ (p : Point) (b : Binding) (t : State), p.Inside bareContext {} (.program hoistedConstant) ∧
        p.Initializes bareContext (fun _ => False) b t ∧ t.heap.cellAt b.cell = .null ∧
        ((Run.program hoistedConstant).stateUntil bareContext (fun _ => False) {}).heap.cellAt b.cell = .bool true := by
  obtain ⟨n, granted⟩ : ∃ n, grantedLevels = n + 7 := ⟨999999999999999993, rfl⟩
  have asks : Asks (fun sub => (Run.program hoistedConstant).interpreted bareContext sub) bareContext.interpreter {}
      (.stmt (.declare .const [nullDeclarator])) (boundX .var .undefined) :=
    Run.asks_first (t := boundX .var .undefined) (by cbv) (by cbv) bareContext.interpreter
  refine ⟨rfl, declaringX .var, ⟨"x", 0, .var⟩, boundX .var .null, .run ⟨rfl, asks⟩, declaringX_initializes .var, rfl,
    ?_⟩
  rw [Run.stateUntil, interpreterUntil_never, granted]
  cbv

end BindScript
