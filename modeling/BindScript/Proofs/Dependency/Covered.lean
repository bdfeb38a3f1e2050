import BindScript.Proofs.Dependency.Scopes

/-!
# What the walk finds covers what an evaluation reads

For every kind of tree: a walk over code that can be watched finds the dependencies on which the code
reads nothing else (`Expr.within_of_watchable`). The proofs follow the walk. Those for expressions leave the
scopes as they were; those for statements are about the body of a function, which has hoisted the names of
`var` in it (`vars`), and about a place in it where all these are bound (`Walk.Inside`).
-/

namespace BindScript.Dependency

open Scopes (Grow)

/-- A place inside the body of a function: what the walk takes for bound is bound or pending, and the names
of `var` of the whole body are bound. -/
structure Walk.Inside (w : Walk) (bound pending vars : List String) : Prop where
  sees : w.Sees bound pending
  inFunction : w.scopes.inFunction = true
  vars : ∀ n ∈ vars, n ∈ bound

namespace Walk

variable {deps bound pending vars : List String} {w w' : Walk} {P : Prop}

theorem Inside.later (inside : w.Inside bound pending vars) (grow : Grow bound vars w.scopes w'.scopes) :
    w'.Inside bound pending vars :=
  ⟨inside.sees.grown grow inside.vars fun _ mem => mem, grow.inFunction, inside.vars⟩

/-- A step that leaves the scopes as they are, taken inside the body of a function. -/
theorem Inside.still (inside : w.Inside bound pending vars) (covers : Covers Eq deps w w' P) :
    Covers (Grow bound vars) deps w w' P :=
  covers.grow inside.inFunction

theorem Inside.mono {bound' : List String} (inside : w.Inside bound pending vars)
    (sub : ∀ n ∈ bound, n ∈ bound') : w.Inside bound' pending vars where
  sees := inside.sees.mono sub fun _ mem => .inr mem
  inFunction := inside.inFunction
  vars n mem := sub n (inside.vars n mem)

/-- One step after another, with more names in the scopes. -/
theorem Inside.andThen {w'' : Walk} {Q : Prop} (inside : w.Inside bound pending vars)
    (first : Covers (Grow bound vars) deps w w' P)
    (second : w'.Inside bound pending vars → Covers (Grow bound vars) deps w' w'' Q) :
    Covers (Grow bound vars) deps w w'' (P ∧ Q) :=
  first.next (second (inside.later first.scopes))

/-- A block inside the body of a function, whose scope gets some of the names `bound'`. -/
theorem Inside.inBlock (bound' : List String) (inside : w.Inside bound pending vars) {visit : Walk → Walk}
    (covers : { w with scopes := { isFunction := false } :: w.scopes }.Inside bound pending vars →
      Covers (Grow bound' vars) deps { w with scopes := { isFunction := false } :: w.scopes }
        (visit { w with scopes := { isFunction := false } :: w.scopes }) P) :
    Covers (Grow bound vars) deps w (w.inScope false visit) P := by
  have entered := covers ⟨inside.sees.enter false, inside.inFunction, inside.vars⟩
  exact (Covers.inBlock entered).mono inside.vars

/-! ## Declaring names -/

theorem declare_covers {name : String} {here : List String} (inFunction : w.scopes.inFunction = true)
    (mem : name ∈ here) : Covers (Grow here vars) deps w (w.declare name) True :=
  ⟨.declare inFunction mem, fun _ mem => mem, fun _ => trivial⟩

/-- Declaring the names of a pattern: those of `var` go to the body of the function, others to the
innermost scope. -/
theorem declareNames_covers {kind : DeclKind} {names here : List String}
    (inFunction : w.scopes.inFunction = true) (sub : ∀ n ∈ vars, n ∈ here)
    (isVar : kind = .var → ∀ n ∈ names, n ∈ vars)
    (isLexical : kind ≠ .var → ∀ n ∈ names, n ∈ here) :
    Covers (Grow here vars) deps w (w.declareNames kind names) True := by
  induction names generalizing w with
  | nil => exact (Covers.stay trivial).grow inFunction
  | cons n rest ih =>
    have more := fun {w' : Walk} (inFunction : w'.scopes.inFunction = true) =>
      ih inFunction (fun eq m mem => isVar eq m (List.mem_cons_of_mem _ mem))
        fun ne m mem => isLexical ne m (List.mem_cons_of_mem _ mem)
    cases kind with
    | var =>
      have grow : Grow here vars w.scopes (w.scopes.declareInFunction n) :=
        .declareInFunction inFunction (isVar rfl n (List.mem_cons_self ..)) sub
      have first : Covers (Grow here vars) deps w
          { w with scopes := w.scopes.declareInFunction n } True :=
        ⟨grow, fun _ mem => mem, fun _ => trivial⟩
      exact (first.next (more grow.inFunction)).imp fun _ => trivial
    | «let» | «const» =>
      have first : Covers (Grow here vars) deps w (w.declare n) True :=
        declare_covers inFunction (isLexical nofun n (List.mem_cons_self ..))
      exact (first.next (more first.scopes.inFunction)).imp fun _ => trivial

/-- Parameters and the like are declared in the innermost scope, where they are pending. -/
theorem declareAll_covers {names here : List String} (inFunction : w.scopes.inFunction = true)
    (mem : ∀ n ∈ names, n ∈ here) :
    Covers (Grow here vars) deps w (names.foldl declare w) True := by
  induction names generalizing w with
  | nil => exact (Covers.stay trivial).grow inFunction
  | cons n rest ih =>
    have first : Covers (Grow here vars) deps w (w.declare n) True :=
      declare_covers inFunction (mem n (List.mem_cons_self ..))
    have others := ih first.scopes.inFunction fun m later => mem m (List.mem_cons_of_mem _ later)
    exact (first.next others).imp fun _ => trivial

/-- The functions of a block are declared before it is walked. -/
theorem hoistFunctions_covers (statements : List Stmt) {here : List String}
    (inFunction : w.scopes.inFunction = true) (mem : ∀ n ∈ Stmt.lexicalNames statements, n ∈ here) :
    Covers (Grow here vars) deps w (w.hoistFunctions statements) True := by
  unfold hoistFunctions
  induction statements generalizing w with
  | nil => exact (Covers.stay trivial).grow inFunction
  | cons s rest ih =>
    rw [List.foldl_cons]
    cases s with
    | function name definition =>
      dsimp only
      rw [if_pos inFunction]
      rw [Stmt.lexicalNames, List.forall_mem_cons] at mem
      have first : Covers (Grow here vars) deps w (w.declare name) True :=
        declare_covers inFunction mem.1
      exact (first.next (ih first.scopes.inFunction mem.2)).imp fun _ => trivial
    | declare kind declarators =>
      rw [Stmt.lexicalNames, List.forall_mem_append] at mem
      exact ih inFunction mem.2
    | _ => exact ih inFunction mem

/-- A list of statements, all of whose names are bound, in the scope of its block. -/
theorem Inside.hoist {statements : List Stmt} (inside : w.Inside bound pending vars)
    (lexical : ∀ n ∈ Stmt.lexicalNames statements, n ∈ bound)
    (covers : (w.hoistFunctions statements).Inside bound pending vars →
      Covers (Grow bound vars) deps (w.hoistFunctions statements) w' P) :
    Covers (Grow bound vars) deps w w' P := by
  have hoisted : Covers (Grow bound vars) deps w (w.hoistFunctions statements) True :=
    hoistFunctions_covers statements inside.inFunction lexical
  exact (hoisted.next (covers (inside.later hoisted.scopes))).imp And.right

/-- A block: its functions are hoisted before the rest of it is walked, in a scope that binds its names. -/
theorem Inside.block {bound' : List String} {statements : List Stmt} (inside : w.Inside bound pending vars)
    (sub : ∀ n ∈ bound, n ∈ bound') (visit : Walk → Walk)
    (lexical : ∀ n ∈ Stmt.lexicalNames statements, n ∈ bound')
    (covers : ∀ {w' : Walk}, w'.Inside bound' pending vars →
      Covers (Grow bound' vars) deps w' (visit w') P) :
    Covers (Grow bound vars) deps w
      (w.inScope false fun w => visit (w.hoistFunctions statements)) P := by
  refine inside.inBlock bound' fun inside => ?_
  exact (inside.mono sub).hoist lexical covers

/-- A block of statements. -/
theorem Inside.statements (statements : List Stmt) (inside : w.Inside bound pending vars)
    (covers : ∀ {w' : Walk}, w'.Inside (bound ++ Stmt.lexicalNames statements) pending vars →
      Covers (Grow (bound ++ Stmt.lexicalNames statements) vars) deps w' (visitStmts statements w') P) :
    Covers (Grow bound vars) deps w
      (w.inScope false fun w => visitStmts statements (w.hoistFunctions statements)) P :=
  inside.block (fun _ mem => List.mem_append_left _ mem) (visitStmts statements)
    (fun _ mem => List.mem_append_right _ mem) covers

theorem hoistCases_eq (w : Walk) (cases : List Case) :
    cases.foldl (fun w c => w.hoistFunctions c.body) w = w.hoistFunctions (cases.flatMap Case.body) := by
  unfold hoistFunctions
  rw [List.foldl_flatMap]

theorem Sees.declared {names : List String} (sees : w.Sees bound pending)
    (grow : Grow names vars w.scopes w'.scopes) (sub : ∀ n ∈ vars, n ∈ names) :
    w'.Sees bound (pending ++ names) := by
  intro n isBound
  rcases grow.isBound sub isBound with old | new
  · exact (sees n old).imp_right (List.mem_append_left _)
  · exact .inr (List.mem_append_right _ new)

/-- Names that were declared too early are bound at last. -/
theorem Sees.settle {names bound' : List String} (sees : w.Sees bound (pending ++ names))
    (sub : ∀ n ∈ bound, n ∈ bound') (mem : ∀ n ∈ names, n ∈ bound') : w.Sees bound' pending := by
  refine sees.mono sub fun n pended => ?_
  rcases List.mem_append.1 pended with old | new
  · exact .inr old
  · exact .inl (mem n new)

theorem mem_boundAfter {declares : Bool} {names : List String} :
    ∀ n ∈ bound, n ∈ boundAfter declares bound names := by
  intro n mem
  cases declares with
  | true => exact List.mem_append_left _ mem
  | false => exact mem

/-- The names of a pattern are bound after it, if they are when it does not declare them. -/
theorem names_boundAfter {declares : Bool} {names : List String}
    (isBound : declares = false → ∀ n ∈ names, n ∈ bound) :
    ∀ n ∈ names, n ∈ boundAfter declares bound names := by
  intro n mem
  cases declares with
  | true => exact List.mem_append_right _ mem
  | false => exact isBound rfl n mem

theorem boundAfter_subset {declares : Bool} {names here : List String} (sub : ∀ n ∈ bound, n ∈ here)
    (declared : declares = true → ∀ n ∈ names, n ∈ here) :
    ∀ n ∈ boundAfter declares bound names, n ∈ here := by
  cases declares with
  | true => exact List.forall_mem_append.2 ⟨sub, declared rfl⟩
  | false => exact sub

theorem Sees.boundAfter {declares : Bool} {names : List String} (sees : w.Sees bound pending) :
    w.Sees (boundAfter declares bound names) pending :=
  sees.mono mem_boundAfter fun _ mem => .inr mem

/-- The walk over a pattern is over, and its names are no longer pending. -/
theorem Inside.settled {declares : Bool} {names : List String}
    (inside : w.Inside bound (pending ++ names) vars)
    (isBound : declares = false → ∀ n ∈ names, n ∈ bound) (same : w.scopes = w'.scopes) :
    w'.Inside (boundAfter declares bound names) pending vars where
  sees := (inside.sees.later same).settle mem_boundAfter (names_boundAfter isBound)
  inFunction := same ▸ inside.inFunction
  vars n mem := mem_boundAfter n (inside.vars n mem)

/-- The names that a loop head or a declarator declares are pending afterwards, those of `var` aside. -/
theorem Inside.declareNames {kind : DeclKind} {names : List String} (inside : w.Inside bound pending vars)
    (deps here : List String) (isVar : kind = .var → ∀ n ∈ names, n ∈ vars)
    (isLexical : kind ≠ .var → ∀ n ∈ names, n ∈ here)
    (sub : ∀ n ∈ vars, n ∈ here) :
    Covers (Grow here vars) deps w (w.declareNames kind names) True ∧
      (w.declareNames kind names).Inside bound (pending ++ names) vars := by
  refine ⟨declareNames_covers inside.inFunction sub isVar isLexical, ?_⟩
  have narrow : Covers (Grow (names ++ vars) vars) deps w (w.declareNames kind names) True :=
    declareNames_covers inside.inFunction (fun _ mem => List.mem_append_right _ mem) isVar
      fun _ _ mem => List.mem_append_left _ mem
  refine ⟨?_, narrow.scopes.inFunction, inside.vars⟩
  have sees := inside.sees.declared narrow.scopes fun _ mem => List.mem_append_right _ mem
  refine sees.mono (fun _ mem => mem) fun n mem => ?_
  rw [← List.append_assoc] at mem
  rcases List.mem_append.1 mem with mem | mem
  · exact .inr mem
  · exact .inl (inside.vars n mem)

/-- Reading names of variables that a loop head writes. -/
theorem useNames_keeps (w : Walk) (names : List String) :
    Covers Eq deps w (names.foldl useName w) True := by
  induction names generalizing w with
  | nil => exact .stay trivial
  | cons n rest ih =>
    have first : Covers Eq deps w (w.useName n) True := by
      unfold useName
      by_cases isBound : w.scopes.isBound n = true
      · rw [if_pos isBound]
        exact .stay trivial
      · rw [if_neg isBound]
        exact addDependency_covers w fun _ => trivial
    exact (first.both (ih (w.useName n))).imp fun _ => trivial

theorem Inside.useNames (inside : w.Inside bound pending vars) (deps here names : List String) :
    Covers (Grow here vars) deps w (names.foldl useName w) True ∧
      (names.foldl useName w).Inside bound (pending ++ names) vars := by
  have read : Covers Eq deps w (names.foldl useName w) True := useNames_keeps w names
  have sees : (names.foldl useName w).Sees bound (pending ++ names) :=
    (inside.sees.later read.scopes).mono (fun _ mem => mem) fun _ mem => .inr (List.mem_append_left _ mem)
  exact ⟨read.grow inside.inFunction, sees, read.scopes ▸ inside.inFunction, inside.vars⟩

end Walk

/-! ## The walk, construct by construct -/

open Walk

/-- A callee that folds into a path depends on its root only, unless its method is tracked. -/
theorem callee_covers {deps bound pending : List String} {w : Walk} {callee : Expr} {path : Path}
    (folds : w.fold? callee = some path) (watchable : callee.Watchable bound pending)
    (sees : w.Sees bound pending) (tracked : Bool) :
    Covers Eq deps w (if tracked then w.usePath path else (w.useName path.root).useKeyNames path)
      (callee.Within (.watched deps) bound) := by
  obtain ⟨spelled, settled, keys⟩ := fold?_spelled folds watchable
  cases tracked with
  | true =>
    exact (usePath_covers sees spelled settled keys).imp fun covered =>
      fold?_within folds covered.1 covered.2
  | false =>
    refine ((useName_covers sees spelled.1 settled).andThen sees fun sees => ?_).imp
      fun covered => fold?_within folds covered.1 covered.2
    exact useNames_covers sees fun n mem => ⟨spelled.2 n mem, keys n mem⟩

mutual

/-- After the visit of an expression everything that it watches is covered by what has been found. -/
theorem visitExpr_covers (deps : List String) : ∀ (e : Expr) {w : Walk} {bound pending : List String},
    e.Watchable bound pending → w.Sees bound pending →
    Covers Eq deps w (visitExpr e w) (e.Within (.watched deps) bound)
  | .name id, w, bound, pending, watchable, sees => useName_covers sees watchable.1 watchable.2
  | .literal _, _, _, _, _, _ => .stay trivial
  | .template parts, _, _, _, watchable, sees => visitParts_covers deps parts watchable sees
  | .unary op operand, w, bound, pending, watchable, sees => by
    unfold Expr.Watchable at watchable
    obtain ⟨keeps, watchable⟩ := watchable
    unfold visitExpr Expr.Within
    exact (visitExpr_covers deps operand watchable sees).imp fun within =>
      ⟨fun delete => absurd delete keeps, within⟩
  | .update _ _ _, _, _, _, watchable, _ => watchable.elim
  | .binary _ left right, w, bound, pending, watchable, sees => by
    unfold Expr.Watchable at watchable
    unfold visitExpr Expr.Within
    exact (visitExpr_covers deps left watchable.1 sees).andThen sees fun sees =>
      visitExpr_covers deps right watchable.2 sees
  | .conditional test consequent alternate, w, bound, pending, watchable, sees => by
    unfold Expr.Watchable at watchable
    obtain ⟨testWatchable, yes, no⟩ := watchable
    unfold visitExpr Expr.Within
    refine (visitExpr_covers deps test testWatchable sees).andThen sees fun sees => ?_
    exact (visitExpr_covers deps consequent yes sees).andThen sees fun sees =>
      visitExpr_covers deps alternate no sees
  | .sequence items, _, _, _, watchable, sees => visitExprs_covers deps items watchable sees
  | .array items, _, _, _, watchable, sees => visitExprs_covers deps items watchable sees
  | .object properties, _, _, _, watchable, sees => visitProperties_covers deps properties watchable sees
  | .spread inner, _, _, _, watchable, sees => visitExpr_covers deps inner watchable sees
  | .member object property optional, w, bound, pending, watchable, sees => by
    unfold visitExpr
    cases folds : w.fold? (.member object property optional) with
    | some path =>
      obtain ⟨spelled, settled, keys⟩ := fold?_spelled folds watchable
      exact (usePath_covers sees spelled settled keys).imp fun covered =>
        fold?_within folds covered.1 covered.2
    | none => exact visitExpr_covers deps object watchable sees
  | .index object key optional, w, bound, pending, watchable, sees => by
    unfold visitExpr
    cases folds : w.fold? (.index object key optional) with
    | some path =>
      obtain ⟨spelled, settled, keys⟩ := fold?_spelled folds watchable
      exact (usePath_covers sees spelled settled keys).imp fun covered =>
        fold?_within folds covered.1 covered.2
    | none =>
      unfold Expr.Watchable at watchable
      unfold Expr.Within
      exact (visitExpr_covers deps object watchable.1 sees).andThen sees fun sees =>
        visitExpr_covers deps key watchable.2 sees
  | .call callee args optional, w, bound, pending, watchable, sees => by
    unfold Expr.Watchable at watchable
    obtain ⟨calleeWatchable, argsWatchable⟩ := watchable
    unfold visitExpr Expr.Within
    cases folds : w.fold? callee with
    | none =>
      exact (visitExpr_covers deps callee calleeWatchable sees).andThen sees fun sees =>
        visitExprs_covers deps args argsWatchable sees
    | some path =>
      exact (callee_covers folds calleeWatchable sees _).andThen sees fun sees =>
        visitExprs_covers deps args argsWatchable sees
  | .assign _ _ _, _, _, _, watchable, _ => watchable.elim
  | .function definition, _, _, _, watchable, sees => visitFunction_covers deps definition watchable sees

theorem visitExprs_covers (deps : List String) :
    ∀ (es : List Expr) {w : Walk} {bound pending : List String},
    Expr.AllWatchable es bound pending → w.Sees bound pending →
    Covers Eq deps w (visitExprs es w) (Expr.AllWithin (.watched deps) es bound)
  | [], _, _, _, _, _ => .stay trivial
  | e :: rest, w, bound, pending, watchable, sees => by
    unfold Expr.AllWatchable at watchable
    unfold visitExprs Expr.AllWithin
    exact (visitExpr_covers deps e watchable.1 sees).andThen sees fun sees =>
      visitExprs_covers deps rest watchable.2 sees

theorem visitOption_covers (deps : List String) :
    ∀ (e : Option Expr) {w : Walk} {bound pending : List String},
    Expr.OptionWatchable e bound pending → w.Sees bound pending →
    Covers Eq deps w (visitOption e w) (Expr.OptionWithin (.watched deps) e bound)
  | none, _, _, _, _, _ => .stay trivial
  | some e, _, _, _, watchable, sees => visitExpr_covers deps e watchable sees

theorem visitParts_covers (deps : List String) :
    ∀ (parts : List TemplatePart) {w : Walk} {bound pending : List String},
    TemplatePart.AllWatchable parts bound pending → w.Sees bound pending →
    Covers Eq deps w (visitParts parts w) (TemplatePart.AllWithin (.watched deps) parts bound)
  | [], _, _, _, _, _ => .stay trivial
  | .text _ :: rest, _, _, _, watchable, sees => visitParts_covers deps rest watchable sees
  | .hole e :: rest, w, bound, pending, watchable, sees => by
    unfold TemplatePart.AllWatchable at watchable
    unfold visitParts TemplatePart.AllWithin
    exact (visitExpr_covers deps e watchable.1 sees).andThen sees fun sees =>
      visitParts_covers deps rest watchable.2 sees

theorem visitProperties_covers (deps : List String) :
    ∀ (properties : List Property) {w : Walk} {bound pending : List String},
    Property.AllWatchable properties bound pending → w.Sees bound pending →
    Covers Eq deps w (visitProperties properties w) (Property.AllWithin (.watched deps) properties bound)
  | [], _, _, _, _, _ => .stay trivial
  | .named _ value :: rest, w, bound, pending, watchable, sees => by
    unfold Property.AllWatchable at watchable
    unfold visitProperties Property.AllWithin
    exact (visitExpr_covers deps value watchable.1 sees).andThen sees fun sees =>
      visitProperties_covers deps rest watchable.2 sees
  | .computed key value :: rest, w, bound, pending, watchable, sees => by
    unfold Property.AllWatchable at watchable
    obtain ⟨keyWatchable, valueWatchable, restWatchable⟩ := watchable
    unfold visitProperties Property.AllWithin
    refine (visitExpr_covers deps key keyWatchable sees).andThen sees fun sees => ?_
    exact (visitExpr_covers deps value valueWatchable sees).andThen sees fun sees =>
      visitProperties_covers deps rest restWatchable sees
  | .spread source :: rest, w, bound, pending, watchable, sees => by
    unfold Property.AllWatchable at watchable
    unfold visitProperties Property.AllWithin
    exact (visitExpr_covers deps source watchable.1 sees).andThen sees fun sees =>
      visitProperties_covers deps rest watchable.2 sees

/-- Parameters are declared in the scope of the function before its body is visited. -/
theorem visitFunction_covers (deps : List String) :
    ∀ (f : Function) {w : Walk} {bound pending : List String},
    f.Watchable bound pending → w.Sees bound pending →
    Covers Eq deps w (visitFunction f w) (f.Within (.watched deps) bound)
  | .mk params rest body, w, bound, pending, watchable, sees => by
    unfold Function.Watchable at watchable
    obtain ⟨paramsWatchable, restWithin, bodyWatchable⟩ := watchable
    unfold visitFunction Function.Within
    generalize isNames : params.flatMap (fun p => p.target.boundNames) ++ Pattern.restNames rest = names
      at paramsWatchable ⊢
    -- all parameters are declared at first, so they are pending in the defaults
    have declared : Covers (Grow names []) deps { w with scopes := { isFunction := true } :: w.scopes } _
        True := declareAll_covers rfl fun _ mem => mem
    have seesParams := (sees.enter true).declared declared.scopes nofun
    have onParams := visitParams_covers deps params paramsWatchable seesParams
    have isBound : ∀ n ∈ names, n ∈ bound ++ params.flatMap (fun p => p.target.boundNames) ++
        Pattern.restNames rest := by
      intro n mem
      rw [← isNames] at mem
      rw [List.append_assoc]
      exact List.mem_append_right _ mem
    have seesBody := (seesParams.later onParams.scopes).settle
      (fun n mem => List.mem_append_left _ (List.mem_append_left _ mem)) isBound
    obtain ⟨here, vars, sub, onBody⟩ := visitBody_covers deps body bodyWatchable seesBody
      (onParams.scopes ▸ declared.scopes.inFunction)
    have declaredHere : Covers (Grow here vars) deps { w with scopes := { isFunction := true } :: w.scopes }
        (names.foldl declare { w with scopes := { isFunction := true } :: w.scopes }) True :=
      declareAll_covers rfl fun n mem => sub n (isBound n mem)
    have both := (declaredHere.next (onParams.grow declared.scopes.inFunction)).next onBody
    refine Covers.inFunction (both.imp fun ⟨⟨_, onParams⟩, onBody⟩ => ?_)
    exact ⟨onParams, restWithin _, onBody⟩

theorem visitParams_covers (deps : List String) :
    ∀ (params : List Element) {w : Walk} {bound pending : List String},
    Element.AllWatchable params bound pending → w.Sees bound pending →
    Covers Eq deps w (visitParams params w) (Element.AllWithin (.watched deps) params bound)
  | [], _, _, _, _, _ => .stay trivial
  | .mk target default :: rest, w, bound, pending, watchable, sees => by
    unfold Element.AllWatchable at watchable
    obtain ⟨defaultWatchable, targetWatchable, restWatchable⟩ := watchable
    unfold visitParams Element.AllWithin
    refine (visitDefaults_covers deps target targetWatchable sees).element sees
      (fun sees => visitOption_covers deps default defaultWatchable sees) fun sees => ?_
    exact visitParams_covers deps rest restWatchable
      (sees.mono (fun _ mem => List.mem_append_left _ mem) fun _ mem => .inr mem)

theorem visitBody_covers (deps : List String) :
    ∀ (body : Body) {w : Walk} {bound pending : List String},
    body.Watchable bound pending → w.Sees bound pending → w.scopes.inFunction = true →
    ∃ here vars, (∀ n ∈ bound, n ∈ here) ∧ Covers (Grow here vars) deps w (visitBody body w)
      (body.Within (.watched deps) bound)
  | .expr e, w, bound, pending, watchable, sees, inFunction =>
    ⟨bound, [], fun _ mem => mem, (visitExpr_covers deps e watchable sees).grow inFunction⟩
  | .block statements, w, bound, pending, watchable, sees, inFunction => by
    have inside : w.Inside (bound ++ Stmt.varNamesList statements ++ Stmt.lexicalNames statements) pending
        (Stmt.varNamesList statements) := by
      refine ⟨sees.mono (fun n mem => ?_) fun _ mem => .inr mem, inFunction, fun n mem => ?_⟩
      · exact List.mem_append_left _ (List.mem_append_left _ mem)
      · exact List.mem_append_left _ (List.mem_append_right _ mem)
    refine ⟨_, _, fun n mem => List.mem_append_left _ (List.mem_append_left _ mem),
      inside.hoist (fun n mem => List.mem_append_right _ mem) fun inside => ?_⟩
    exact visitStmts_covers deps statements watchable (fun _ mem => mem) inside

theorem visitDefaults_covers (deps : List String) {declares : Bool} :
    ∀ (p : Pattern) {w : Walk} {bound pending : List String},
    p.Watchable declares bound pending → w.Sees bound pending →
    Covers Eq deps w (visitDefaults p w) (p.Within (.watched deps) declares bound)
  | .name _, _, _, _, _, _ => .stay trivial
  | .array elements rest, w, bound, pending, watchable, sees => by
    unfold Pattern.Watchable at watchable
    unfold visitDefaults Pattern.Within
    exact (visitElements_covers deps elements watchable.1 sees).andThen sees fun sees =>
      visitRest_covers deps rest watchable.2 sees.boundAfter
  | .object fields _, _, _, _, watchable, sees => visitFields_covers deps fields watchable sees

theorem visitElements_covers (deps : List String) {declares : Bool} :
    ∀ (elements : List (Option Element)) {w : Walk} {bound pending : List String},
    Pattern.ElementsWatchable declares elements bound pending → w.Sees bound pending →
    Covers Eq deps w (visitElements elements w)
      (Pattern.ElementsWithin (.watched deps) declares elements bound)
  | [], _, _, _, _, _ => .stay trivial
  | none :: rest, _, _, _, watchable, sees => visitElements_covers deps rest watchable sees
  | some (.mk target default) :: rest, w, bound, pending, watchable, sees => by
    unfold Pattern.ElementsWatchable at watchable
    obtain ⟨defaultWatchable, targetWatchable, restWatchable⟩ := watchable
    unfold visitElements Pattern.ElementsWithin
    refine (visitDefaults_covers deps target targetWatchable sees).element sees
      (fun sees => visitOption_covers deps default defaultWatchable sees) fun sees => ?_
    exact visitElements_covers deps rest restWatchable sees.boundAfter

theorem visitRest_covers (deps : List String) {declares : Bool} :
    ∀ (rest : Option Pattern) {w : Walk} {bound pending : List String},
    Pattern.RestWatchable declares rest bound pending → w.Sees bound pending →
    Covers Eq deps w (visitRest rest w) (Pattern.RestWithin (.watched deps) declares rest bound)
  | none, _, _, _, _, _ => .stay trivial
  | some p, _, _, _, watchable, sees => visitDefaults_covers deps p watchable sees

theorem visitFields_covers (deps : List String) {declares : Bool} :
    ∀ (fields : List Field) {w : Walk} {bound pending : List String},
    Pattern.FieldsWatchable declares fields bound pending → w.Sees bound pending →
    Covers Eq deps w (visitFields fields w)
      (Pattern.FieldsWithin (.watched deps) declares fields bound)
  | [], _, _, _, _, _ => .stay trivial
  | .mk _ target default :: rest, w, bound, pending, watchable, sees => by
    unfold Pattern.FieldsWatchable at watchable
    obtain ⟨defaultWatchable, targetWatchable, restWatchable⟩ := watchable
    unfold visitFields Pattern.FieldsWithin
    refine (visitDefaults_covers deps target targetWatchable sees).element sees
      (fun sees => visitOption_covers deps default defaultWatchable sees) fun sees => ?_
    exact visitFields_covers deps rest restWatchable sees.boundAfter

/-- So it is after the visit of a statement, and the scopes have grown by its declarations at most. -/
theorem visitStmt_covers (deps : List String) :
    ∀ (s : Stmt) {w : Walk} {bound pending vars : List String},
    s.Watchable bound pending → (∀ n ∈ s.varNames, n ∈ vars) → w.Inside bound pending vars →
    Covers (Grow bound vars) deps w (visitStmt s w) (s.Within (.watched deps) bound)
  | .empty, _, _, _, _, _, _, inside => inside.still (.stay trivial)
  | .brk, _, _, _, _, _, _, inside => inside.still (.stay trivial)
  | .cont, _, _, _, _, _, _, inside => inside.still (.stay trivial)
  | .expr e, _, _, _, _, watchable, _, inside =>
    inside.still (visitExpr_covers deps e watchable inside.sees)
  | .throw e, _, _, _, _, watchable, _, inside =>
    inside.still (visitExpr_covers deps e watchable inside.sees)
  | .ret e, _, _, _, _, watchable, _, inside =>
    inside.still (visitOption_covers deps e watchable inside.sees)
  | .block statements, w, bound, pending, vars, watchable, isVar, inside =>
    inside.statements statements fun inside =>
      visitStmts_covers deps statements watchable isVar inside
  | .declare kind declarators, w, bound, pending, vars, watchable, isVar, inside => by
    unfold Stmt.Watchable at watchable
    obtain ⟨isLexical, watchable⟩ := watchable
    unfold visitStmt Stmt.Within
    refine visitDeclarators_covers deps kind declarators watchable (fun eq n mem => ?_) isLexical
      (fun _ mem => mem) inside
    subst eq
    exact isVar n mem
  | .branch test consequent alternate, w, bound, pending, vars, watchable, isVar, inside => by
    unfold Stmt.Watchable at watchable
    obtain ⟨testWatchable, yes, no⟩ := watchable
    unfold Stmt.varNames at isVar
    rw [List.forall_mem_append] at isVar
    unfold visitStmt Stmt.Within
    refine inside.andThen (inside.still (visitExpr_covers deps test testWatchable inside.sees))
      fun inside => ?_
    refine inside.andThen (visitStmt_covers deps consequent yes isVar.1 inside) fun inside => ?_
    exact visitStmtOption_covers deps alternate no isVar.2 inside
  | .whileLoop test body, w, bound, pending, vars, watchable, isVar, inside => by
    unfold Stmt.Watchable at watchable
    unfold visitStmt Stmt.Within
    refine inside.andThen (inside.still (visitExpr_covers deps test watchable.1 inside.sees)) fun inside => ?_
    exact visitStmt_covers deps body watchable.2 isVar inside
  | .doWhile body test, w, bound, pending, vars, watchable, isVar, inside => by
    unfold Stmt.Watchable at watchable
    unfold visitStmt Stmt.Within
    refine inside.andThen (visitStmt_covers deps body watchable.1 isVar inside) fun inside => ?_
    exact inside.still (visitExpr_covers deps test watchable.2 inside.sees)
  | .forLoop init test update body, w, bound, pending, vars, watchable, isVar, inside => by
    unfold Stmt.Watchable at watchable
    obtain ⟨initWatchable, testWatchable, updateWatchable, bodyWatchable⟩ := watchable
    unfold Stmt.varNames at isVar
    rw [List.forall_mem_append] at isVar
    unfold visitStmt Stmt.Within
    have sub : ∀ n ∈ bound, n ∈ bound ++ init.turnNames := fun _ mem => List.mem_append_left _ mem
    refine inside.inBlock (bound ++ init.turnNames) fun inside => ?_
    refine (inside.mono sub).andThen (visitInit_covers deps init initWatchable isVar.1 inside)
      fun inside => ?_
    refine inside.andThen (inside.still (visitOption_covers deps test testWatchable inside.sees))
      fun inside => ?_
    refine inside.andThen (inside.still (visitOption_covers deps update updateWatchable inside.sees))
      fun inside => ?_
    exact visitStmt_covers deps body bodyWatchable isVar.2 inside
  | .forEach _ kind pattern object body, w, bound, pending, vars, watchable, isVar, inside => by
    unfold Stmt.Watchable at watchable
    obtain ⟨objectWatchable, patternWatchable, isBare, bodyWatchable⟩ := watchable
    unfold Stmt.varNames at isVar
    rw [List.forall_mem_append] at isVar
    unfold visitStmt Stmt.Within
    refine inside.andThen (inside.still (visitExpr_covers deps object objectWatchable inside.sees))
      fun inside => ?_
    refine inside.inBlock (boundAfter (DeclKind.declares kind) bound pattern.boundNames) fun inside => ?_
    have isBound : DeclKind.declares kind = false → ∀ n ∈ pattern.boundNames, n ∈ bound := by
      intro keeps n mem
      match kind, keeps with
      | some .var, _ => exact inside.vars n (isVar.1 n mem)
      | none, _ => exact isBare rfl n mem
    -- one turn from the state that the head has left, whatever kind of head it is
    have turn : ∀ {w w₁ : Walk},
        Covers (Grow (boundAfter (DeclKind.declares kind) bound pattern.boundNames) vars) deps w w₁ True ∧
          w₁.Inside bound (pending ++ pattern.boundNames) vars →
        Covers (Grow (boundAfter (DeclKind.declares kind) bound pattern.boundNames) vars) deps w
          (visitStmt body (visitDefaults pattern w₁))
          (pattern.Within (.watched deps) (DeclKind.declares kind) bound ∧
            (DeclKind.declares kind = false → (Access.watched deps).Assignable bound pattern.boundNames) ∧
            body.Within (.watched deps) (boundAfter (DeclKind.declares kind) bound pattern.boundNames)) := by
      intro w w₁ ⟨head, inside⟩
      have onPattern := visitDefaults_covers deps pattern patternWatchable inside.sees
      have onBody := visitStmt_covers deps body bodyWatchable isVar.2
        (inside.settled isBound onPattern.scopes)
      refine ((head.next (onPattern.grow inside.inFunction)).next onBody).imp fun both => ?_
      exact ⟨both.1.2, fun keeps n mem => .inl (isBound keeps n mem), both.2⟩
    cases kind with
    | none =>
      exact turn (inside.useNames deps _ pattern.boundNames)
    | some kind =>
      dsimp only
      rw [inside.inFunction, Bool.not_true, Bool.and_false, if_neg Bool.false_ne_true]
      refine turn (inside.declareNames deps _ (fun eq n mem => ?_) (fun ne => ?_) fun n mem => ?_)
      · subst eq
        exact isVar.1 n mem
      · cases kind with
        | var => exact absurd rfl ne
        | «let» | «const» => exact fun _ mem => List.mem_append_right _ mem
      · exact mem_boundAfter n (inside.vars n mem)
  | .attempt statements handler finalizer, w, bound, pending, vars, watchable, isVar, inside => by
    unfold Stmt.Watchable at watchable
    obtain ⟨tried, caught, finally'⟩ := watchable
    unfold Stmt.varNames at isVar
    rw [List.forall_mem_append, List.forall_mem_append] at isVar
    obtain ⟨⟨triedVar, caughtVar⟩, finallyVar⟩ := isVar
    unfold visitStmt Stmt.Within
    refine inside.andThen (inside.statements statements fun inside =>
      visitStmts_covers deps statements tried triedVar inside) fun inside => ?_
    refine inside.andThen (visitHandler_covers deps handler caught caughtVar inside) fun inside => ?_
    exact visitFinalizer_covers deps finalizer finally' finallyVar inside
  | .switch discriminant cases, w, bound, pending, vars, watchable, isVar, inside => by
    unfold Stmt.Watchable at watchable
    unfold visitStmt Stmt.Within
    refine inside.andThen (inside.still (visitExpr_covers deps discriminant watchable.1 inside.sees))
      fun inside => ?_
    simp only [hoistCases_eq]
    refine inside.block (fun _ mem => List.mem_append_left _ mem) (visitCases cases)
      (fun _ mem => List.mem_append_right _ mem) fun inside => ?_
    exact visitCases_covers deps cases watchable.2 isVar inside
  | .function name definition, w, bound, pending, vars, watchable, isVar, inside => by
    unfold visitStmt
    rw [if_pos inside.inFunction]
    have sees : w.Sees (bound ++ [name]) pending :=
      inside.sees.mono (fun _ mem => List.mem_append_left _ mem) fun _ mem => .inr mem
    exact inside.still (visitFunction_covers deps definition watchable sees)

theorem visitStmts_covers (deps : List String) :
    ∀ (ss : List Stmt) {w : Walk} {bound pending vars : List String},
    Stmt.AllWatchable ss bound pending → (∀ n ∈ Stmt.varNamesList ss, n ∈ vars) →
    w.Inside bound pending vars →
    Covers (Grow bound vars) deps w (visitStmts ss w) (Stmt.AllWithin (.watched deps) ss bound)
  | [], _, _, _, _, _, _, inside => inside.still (.stay trivial)
  | s :: rest, w, bound, pending, vars, watchable, isVar, inside => by
    unfold Stmt.AllWatchable at watchable
    unfold Stmt.varNamesList at isVar
    rw [List.forall_mem_append] at isVar
    unfold visitStmts Stmt.AllWithin
    refine inside.andThen (visitStmt_covers deps s watchable.1 isVar.1 inside) fun inside => ?_
    exact visitStmts_covers deps rest watchable.2 isVar.2 inside

theorem visitStmtOption_covers (deps : List String) :
    ∀ (s : Option Stmt) {w : Walk} {bound pending vars : List String},
    Stmt.OptionWatchable s bound pending → (∀ n ∈ Stmt.varNamesOption s, n ∈ vars) →
    w.Inside bound pending vars →
    Covers (Grow bound vars) deps w (visitStmtOption s w) (Stmt.OptionWithin (.watched deps) s bound)
  | none, _, _, _, _, _, _, inside => inside.still (.stay trivial)
  | some s, _, _, _, _, watchable, isVar, inside => visitStmt_covers deps s watchable isVar inside

/-- The initial value of a declarator is visited before its names are declared, if they have not been hoisted. -/
theorem visitDeclarators_covers (deps : List String) (kind : DeclKind) :
    ∀ (ds : List Declarator) {w : Walk} {bound pending vars here : List String},
    Declarator.AllWatchable kind ds bound pending →
    (kind = .var → ∀ n ∈ Declarator.boundNames ds, n ∈ vars) →
    (kind ≠ .var → ∀ n ∈ Declarator.boundNames ds, n ∈ here) → (∀ n ∈ bound, n ∈ here) →
    w.Inside bound pending vars →
    Covers (Grow here vars) deps w (visitDeclarators kind ds w)
      (Declarator.AllWithin (.watched deps) kind ds bound)
  | [], _, _, _, _, _, _, _, _, _, inside => (Covers.stay trivial).grow inside.inFunction
  | .mk pattern init :: rest, w, bound, pending, vars, here, watchable, isVar, isLexical, sub, inside => by
    unfold Declarator.AllWatchable at watchable
    obtain ⟨initWatchable, patternWatchable, restWatchable⟩ := watchable
    unfold Declarator.boundNames at isVar isLexical
    simp only [List.flatMap_cons, List.forall_mem_append, Declarator.pattern] at isVar isLexical
    unfold visitDeclarators Declarator.AllWithin
    dsimp only
    rw [inside.inFunction, Bool.not_true, Bool.and_false, if_neg Bool.false_ne_true]
    -- variables are bound from the start of the function on, other names from here on
    have isBound : (kind != .var) = false → ∀ n ∈ pattern.boundNames, n ∈ bound := by
      intro keeps n mem
      exact inside.vars n ((isVar (by simpa using keeps)).1 n mem)
    obtain ⟨head, declared⟩ := inside.declareNames deps here (fun eq => (isVar eq).1)
      (fun ne => (isLexical ne).1) fun n mem => sub n (inside.vars n mem)
    have onPattern := (visitDefaults_covers deps pattern patternWatchable declared.sees).andThen declared.sees
      fun sees => visitOption_covers deps init initWatchable sees
    have onRest := visitDeclarators_covers deps kind rest restWatchable (fun eq => (isVar eq).2)
      (fun ne => (isLexical ne).2)
      (boundAfter_subset sub fun declares => (isLexical (by simpa using declares)).1)
      (declared.settled isBound onPattern.scopes)
    refine ((head.next (onPattern.grow declared.inFunction)).next onRest).imp fun both => ?_
    exact ⟨both.1.2.2, both.1.2.1, fun keeps n mem => .inl (isBound keeps n mem), both.2⟩

theorem visitInit_covers (deps : List String) :
    ∀ (init : ForInit) {w : Walk} {bound pending vars : List String},
    init.Watchable bound pending → (∀ n ∈ init.varNames, n ∈ vars) → w.Inside bound pending vars →
    Covers (Grow (bound ++ init.turnNames) vars) deps w (visitInit init w) (init.Within (.watched deps) bound)
  | .none, _, _, _, _, _, _, inside => (Covers.stay trivial).grow inside.inFunction
  | .expr e, _, _, _, _, watchable, _, inside =>
    (visitExpr_covers deps e watchable inside.sees).grow inside.inFunction
  | .declare kind declarators, w, bound, pending, vars, watchable, isVar, inside => by
    refine visitDeclarators_covers deps kind declarators watchable (fun eq n mem => ?_) (fun ne n mem => ?_)
      (fun _ mem => List.mem_append_left _ mem) inside
    · subst eq
      exact isVar n mem
    · refine List.mem_append_right _ ?_
      cases kind with
      | var => exact absurd rfl ne
      | «let» | «const» => exact mem

/-- The name of what is caught is bound in the whole handler. -/
theorem visitHandler_covers (deps : List String) :
    ∀ (h : Option Handler) {w : Walk} {bound pending vars : List String},
    Handler.OptionWatchable h bound pending → (∀ n ∈ Handler.varNames h, n ∈ vars) →
    w.Inside bound pending vars →
    Covers (Grow bound vars) deps w (visitHandler h w) (Handler.OptionWithin (.watched deps) h bound)
  | none, _, _, _, _, _, _, inside => inside.still (.stay trivial)
  | some (.mk param body), w, bound, pending, vars, watchable, isVar, inside => by
    unfold Handler.OptionWatchable at watchable
    unfold visitHandler Handler.OptionWithin
    refine inside.inBlock (bound ++ param.toList ++ Stmt.lexicalNames body) fun inside => ?_
    have entered : Inside _ (bound ++ param.toList ++ Stmt.lexicalNames body) pending vars :=
      inside.mono fun n mem => List.mem_append_left _ (List.mem_append_left _ mem)
    have onBody : ∀ {w' : Walk},
        w'.Inside (bound ++ param.toList ++ Stmt.lexicalNames body) pending vars →
        Covers (Grow (bound ++ param.toList ++ Stmt.lexicalNames body) vars) deps w'
          (visitStmts body (w'.hoistFunctions body)) _ := fun inside =>
      inside.hoist (fun n mem => List.mem_append_right _ mem) fun inside =>
        visitStmts_covers deps body watchable isVar inside
    cases param with
    | none => exact onBody entered
    | some name =>
      have mem : name ∈ bound ++ [name] ++ Stmt.lexicalNames body := by simp
      exact (entered.andThen (declare_covers entered.inFunction mem) onBody).imp And.right

theorem visitFinalizer_covers (deps : List String) :
    ∀ (f : Option (List Stmt)) {w : Walk} {bound pending vars : List String},
    Stmt.FinalizerWatchable f bound pending → (∀ n ∈ Stmt.varNamesFinalizer f, n ∈ vars) →
    w.Inside bound pending vars →
    Covers (Grow bound vars) deps w (visitFinalizer f w) (Stmt.FinalizerWithin (.watched deps) f bound)
  | none, _, _, _, _, _, _, inside => inside.still (.stay trivial)
  | some statements, _, _, _, _, watchable, isVar, inside =>
    inside.statements statements fun inside =>
      visitStmts_covers deps statements watchable isVar inside

theorem visitCases_covers (deps : List String) :
    ∀ (cs : List Case) {w : Walk} {bound pending vars : List String},
    Case.AllWatchable cs bound pending → (∀ n ∈ Case.varNames cs, n ∈ vars) →
    w.Inside bound pending vars →
    Covers (Grow bound vars) deps w (visitCases cs w) (Case.AllWithin (.watched deps) cs bound)
  | [], _, _, _, _, _, _, inside => inside.still (.stay trivial)
  | .mk test body :: rest, w, bound, pending, vars, watchable, isVar, inside => by
    unfold Case.AllWatchable at watchable
    obtain ⟨testWatchable, bodyWatchable, restWatchable⟩ := watchable
    unfold Case.varNames at isVar
    rw [List.forall_mem_append] at isVar
    unfold visitCases Case.AllWithin
    refine inside.andThen (inside.still (visitOption_covers deps test testWatchable inside.sees))
      fun inside => ?_
    refine inside.andThen (visitStmts_covers deps body bodyWatchable isVar.1 inside) fun inside => ?_
    exact visitCases_covers deps rest restWatchable isVar.2 inside

end

end BindScript.Dependency

namespace BindScript

open Dependency

/-- An expression that can be watched reads no names of its context but those in its dependencies, and
writes none. -/
theorem Expr.within_of_watchable {e : Expr} (apis : TrackedApis) (watchable : e.Watchable [] []) :
    e.Within (.watched (resolve apis (.expression e) {}).dependencies) [] := by
  have sees : Walk.Sees { apis, scopes := [{ isFunction := false }] } [] [] := by
    intro n isBound
    cases (Scopes.isBound_cons _ _ _).1 isBound with
    | inl mem => exact .inl mem
    | inr outer => cases outer
  exact (visitExpr_covers _ e watchable sees).finds fun _ mem => mem

end BindScript
