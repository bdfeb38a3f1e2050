import BindScript.Parser
import BindScript.Proofs.Dependency.Kinds

/-!
# What top-level declarations are registered as

Each statement that stands outside of all functions is reached by the walk over its program, in a state in which only
those names are merely read that something before the statement mentions (`comes_of_stands`). As what a name stands for
only gets firmer from there on, it is known what the name of each declaration is registered as in the end
(`declarations_registered`):

- a function that stands in a list is a function;
- a name of a `var` declaration, also in the head of a counting loop, is a variable or a function;
- a name that the head of a loop over a collection declares by `var` is one too, or it stays a name that is merely
  read: the head does not overwrite what it finds, so this is so if the name has been read before;
- dependencies are recorded under variables and functions, and under functions that stand bare. Those are the only
  declarations that are never registered, as only lists hoist their functions (`declarations_unregistered`).
-/

namespace BindScript.Dependency

/-- A name of the resolution is a variable or a function. -/
def Resolution.Declares (r : Resolution) (name : String) : Prop :=
  r.names.get? name = some .var ∨ ∃ definition, r.names.get? name = some (.function definition)

theorem Resolution.declares_of_firmness {r : Resolution} {name : String} (firm : 2 ≤ r.firmness name) :
    r.Declares name := by
  unfold Resolution.firmness TopLevelName.firmness at firm
  unfold Resolution.Declares
  split at firm
  next => omega
  next => omega
  next found => exact .inl found
  next definition found => exact .inr ⟨definition, found⟩

theorem Resolution.function_of_firmness {r : Resolution} {name : String} (firm : r.firmness name = 3) :
    ∃ definition, r.names.get? name = some (.function definition) := by
  unfold Resolution.firmness TopLevelName.firmness at firm
  split at firm
  next => omega
  next => omega
  next => omega
  next definition found => exact ⟨definition, found⟩

theorem Resolution.free_of_firmness {r : Resolution} {name : String} (firm : r.firmness name = 1) :
    r.names.get? name = some .free := by
  unfold Resolution.firmness TopLevelName.firmness at firm
  split at firm
  next => omega
  next found => exact found
  next => omega
  next => omega

/-! ## Coming to a statement -/

/-- A walk that starts in `w` and ends with the resolution `r` comes to a statement in the state `u`, after it has
walked over some nodes. -/
structure Comes (w : Walk) (nodes : List Node) (place : Place) (s : Stmt) (u : Walk) (r : Resolution) : Prop where
  outside : u.scopes.inFunction = false
  read : ∀ name, u.found.firmness name = 1 → w.found.firmness name = 1 ∨ Mentioned nodes name
  known : place = .listed → ∀ name definition, s = .function name definition → u.found.firmness name = 3
  onward : ∀ name, (visitStmt s u).found.firmness name ≤ r.firmness name

namespace Comes

variable {P : List Stmt} {w v u : Walk} {n m before : List Node} {place place' : Place} {s t : Stmt}
  {r r' : Resolution}

theorem here (outside : w.scopes.inFunction = false)
    (known : place = .listed → ∀ name definition, s = .function name definition → w.found.firmness name = 3) :
    Comes w [] place s w (visitStmt s w).found :=
  ⟨outside, fun _ => .inl, known, fun _ => Nat.le_refl _⟩

theorem bare (outside : w.scopes.inFunction = false) : Comes w [] .bare s w (visitStmt s w).found :=
  here outside nofun

/-- The walk has begun earlier. -/
theorem after (comes : Comes v m place s u r)
    (read : ∀ name, v.found.firmness name = 1 → w.found.firmness name = 1 ∨ Mentioned n name) :
    Comes w (n ++ m) place s u r where
  outside := comes.outside
  read name free := by
    have mentioned : ∀ {part : List Node}, (∀ x ∈ part, x ∈ n ++ m) → Mentioned part name →
        Mentioned (n ++ m) name := fun part ⟨x, mem, mentions⟩ => ⟨x, part x mem, mentions⟩
    rcases comes.read name free with earlier | late
    · exact (read name earlier).imp_right (mentioned fun _ => List.mem_append_left _)
    · exact .inr (mentioned (fun _ => List.mem_append_right _) late)
  known := comes.known
  onward := comes.onward

/-- The walk goes on for longer. -/
theorem longer (comes : Comes w n place s u r) (firmer : ∀ name, r.firmness name ≤ r'.firmness name) :
    Comes w n place s u r' :=
  ⟨comes.outside, comes.read, comes.known, fun name => Nat.le_trans (comes.onward name) (firmer name)⟩

/-- The walk over a statement that the walk comes to. -/
theorem inside (outer : Comes w n place s u r) (inner : Comes u m place' t v (visitStmt s u).found) :
    Comes w (n ++ m) place' t v r :=
  (inner.after outer.read).longer outer.onward

theorem knows (comes : Comes w n place s u r) (stands : Stands P place before s) : u.Knows P s :=
  fun _ => ⟨place, before, stands, comes.known⟩

end Comes

/-! ## Lists -/

variable {P : List Stmt} {w : Walk}

theorem visitStmts_append (earlier later : List Stmt) (w : Walk) :
    visitStmts (earlier ++ later) w = visitStmts later (visitStmts earlier w) := by
  induction earlier generalizing w with
  | nil => rfl
  | cons s rest ih =>
    simp only [List.cons_append, visitStmts]
    exact ih _

theorem stmts_obey {statements : List Stmt} {nodes : List Node} (all : ∀ s ∈ statements, .stmt s ∈ nodes) :
    Stmt.AllObey (.mentioning (Mentioned nodes)) statements :=
  Stmt.allObey_iff.2 fun s mem => obeys_mentioned (all s mem)

theorem stmts_obey_anything (statements : List Stmt) : Stmt.AllObey (.mentioning fun _ => True) statements :=
  Stmt.allObey_iff.2 fun s _ => Node.obeys_anything (.stmt s)

/-- The walk over a list comes to each of its statements. -/
theorem comes_listed {earlier : List Stmt} {s : Stmt} (later : List Stmt) (outside : w.scopes.inFunction = false)
    (knows : ∀ t ∈ earlier ++ s :: later, w.Knows P t)
    (known : ∀ name definition, s = .function name definition → w.found.firmness name = 3) :
    Comes w (earlier.map .stmt) .listed s (visitStmts earlier w) (visitStmts (earlier ++ s :: later) w).found := by
  have obey : Stmt.AllObey (.mentioning (Mentioned (earlier.map .stmt))) earlier :=
    stmts_obey fun t mem => List.mem_map_of_mem mem
  have goes := visitStmts_goes earlier w (fun t mem => knows t (List.mem_append_left _ mem)) obey
  have there := (visitStmts earlier w).found.firmness_le
  have comes : Comes (visitStmts earlier w) [] .listed s (visitStmts earlier w)
      (visitStmt s (visitStmts earlier w)).found := by
    refine .here (goes.inFunction.trans outside) fun _ name definition eq => ?_
    have firm := known name definition eq
    have firmer := goes.firmer name
    have top := there name
    omega
  have whole := (comes.after goes.read).longer fun name => by
    have first :=
      visitStmt_goes (M := fun _ => True) s _ ((knows s (by simp)).mono goes) (Node.obeys_anything (.stmt s))
    have rest := visitStmts_goes (P := P) later _
      (fun t mem => ((knows t (by simp [mem])).mono goes).mono first) (stmts_obey_anything later)
    exact rest.firmer name
  rw [List.append_nil] at whole
  rwa [visitStmts_append]

/-- The walk over a block comes to each of its statements. -/
theorem comes_block {earlier later : List Stmt} {s : Stmt} (outside : w.scopes.inFunction = false)
    (lists : ∀ t ∈ earlier ++ s :: later, w.Lists P t) :
    ∃ u, Comes w (earlier.map .stmt) .listed s u
      (visitStmts (earlier ++ s :: later) (w.hoistFunctions (earlier ++ s :: later))).found := by
  obtain ⟨goes, known⟩ := w.goes_hoistFunctions (P := P) (M := Mentioned []) (earlier ++ s :: later)
  refine ⟨_, .after (n := []) (comes_listed (P := P) later (goes.inFunction.trans outside)
    (Walk.knows_hoisted lists) ?_) goes.read⟩
  rintro name definition rfl
  exact known outside name definition (by simp)

theorem expr_obeys {e : Expr} {nodes : List Node} (mem : .expr e ∈ nodes) :
    e.Obeys (.mentioning (Mentioned nodes)) :=
  obeys_mentioned mem

theorem option_obeys {e : Option Expr} {nodes : List Node} (all : ∀ x ∈ Expr.optionNodes e, x ∈ nodes) :
    Expr.OptionObeys (.mentioning (Mentioned nodes)) e :=
  Expr.optionObeys_iff.2 fun x mem => obeys_mentioned (all x mem)

theorem visitCases_append (earlier later : List Case) (w : Walk) :
    visitCases (earlier ++ later) w = visitCases later (visitCases earlier w) := by
  induction earlier generalizing w with
  | nil => rfl
  | cons c rest ih =>
    obtain ⟨test, body⟩ := c
    simp only [List.cons_append, visitCases]
    exact ih _

/-- The walk over the cases of a switch comes to each of their statements. -/
theorem comes_case (earlierCases laterCases : List Case) (test : Option Expr) (earlier later : List Stmt) {s : Stmt}
    (outside : w.scopes.inFunction = false)
    (knows : ∀ c ∈ earlierCases ++ .mk test (earlier ++ s :: later) :: laterCases, ∀ t ∈ c.body, w.Knows P t)
    (known : ∀ name definition, s = .function name definition → w.found.firmness name = 3) :
    Comes w (earlierCases.flatMap Case.nodes ++ (Expr.optionNodes test ++ earlier.map .stmt)) .listed s
      (visitStmts earlier (visitOption test (visitCases earlierCases w)))
      (visitCases (earlierCases ++ .mk test (earlier ++ s :: later) :: laterCases) w).found := by
  have here := knows (.mk test (earlier ++ s :: later)) (by simp)
  have passed := visitCases_goes (M := Mentioned (earlierCases.flatMap Case.nodes ++ Expr.optionNodes test))
    earlierCases w (fun c mem => knows c (List.mem_append_left _ mem)) (Case.allObey_iff.2 fun c mem =>
      Case.obeys_iff.2 fun x inside => obeys_mentioned (List.mem_append_left _ (List.mem_flatMap_of_mem mem inside)))
  have goes := passed.trans (visitOption_goes test _ (option_obeys fun x mem => List.mem_append_right _ mem))
  have comes := comes_listed later (goes.inFunction.trans outside) (fun t mem => (here t mem).mono goes)
    fun name definition eq => by
      have firm := known name definition eq
      have firmer := goes.firmer name
      have top := (visitOption test (visitCases earlierCases w)).found.firmness_le name
      omega
  have whole := comes.after goes.read
  rw [List.append_assoc] at whole
  refine whole.longer fun name => ?_
  rw [visitCases_append]
  have body := visitStmts_goes (earlier ++ s :: later) _ (fun t mem => (here t mem).mono goes)
    (stmts_obey_anything _)
  refine (visitCases_goes (P := P) (M := fun _ => True) laterCases _ (fun c mem t inside => ?_) ?_).firmer
    name
  · exact ((knows c (by simp [mem]) t inside).mono goes).mono body
  · exact Case.allObey_iff.2 fun c _ => Case.obeys_iff.2 fun x _ => Node.obeys_anything x

/-! ## One step down -/

/-- The state in which a walk enters a block. -/
def Walk.within (w : Walk) : Walk :=
  { w with scopes := { isFunction := false } :: w.scopes }

theorem Walk.within_outside (outside : w.scopes.inFunction = false) : w.within.scopes.inFunction = false :=
  (inFunction_block (v := w.within) rfl).trans outside

/-- A walk that starts in the block starts around it. -/
theorem Comes.entered {nodes : List Node} {place : Place} {s : Stmt} {u : Walk} {r : Resolution}
    (comes : Comes w.within nodes place s u r) : Comes w nodes place s u r :=
  ⟨comes.outside, comes.read, comes.known, comes.onward⟩

theorem Walk.Knows.within {s : Stmt} (knows : w.Knows P s) : w.within.Knows P s :=
  knows.enter rfl rfl

theorem Walk.Lists.within {s : Stmt} (lists : w.Lists P s) : w.within.Lists P s := fun outside =>
  lists ((inFunction_block (v := w.within) rfl).symm.trans outside)

theorem handler_obeys {handler : Option Handler} {nodes : List Node}
    (all : ∀ s ∈ handler.toList.flatMap Handler.body, .stmt s ∈ nodes) :
    Handler.OptionObeys (.mentioning (Mentioned nodes)) handler := by
  cases handler with
  | none => trivial
  | some handler =>
    obtain ⟨param, body⟩ := handler
    exact stmts_obey fun s mem => all s (by simpa [Handler.body] using mem)

/-- The part of a walk over a loop head up to the body. -/
theorem goes_forLoop (w : Walk) (init : ForInit) (test update : Option Expr) :
    w.Goes P (Mentioned (init.nodes ++ (Expr.optionNodes test ++ Expr.optionNodes update)))
      (visitOption update (visitOption test (visitInit init w))) := by
  have first := visitInit_goes (P := P) init w (ForInit.obeys_iff.2 fun x mem =>
    obeys_mentioned (List.mem_append_left (Expr.optionNodes test ++ Expr.optionNodes update) mem))
  have tested := first.trans (visitOption_goes test _ (option_obeys fun x mem => by simp [mem]))
  exact tested.trans (visitOption_goes update _ (option_obeys fun x mem => by simp [mem]))

/-- The part of a walk over the head of a loop over a collection up to the body, from the block of the loop. -/
theorem goes_forEach (w : Walk) (kind : Option DeclKind) (pattern : Pattern) :
    w.Goes P (Mentioned (headTargets kind pattern ++ [.pattern pattern])) (visitDefaults pattern (match kind with
      | some kind =>
        if kind == .var && !w.scopes.inFunction then pattern.boundNames.foldl Walk.noteLoopVar w
        else w.declareNames kind pattern.boundNames
      | none => pattern.boundNames.foldl Walk.useName w)) := by
  refine .trans ?_ (visitDefaults_goes pattern _ (obeys_mentioned (x := .pattern pattern) (by simp)))
  cases kind with
  | none =>
    refine .foldl_of (fun v _ => v.goes_useName) w _ fun name mem => ⟨.expr (.name name), ?_, .name⟩
    exact List.mem_append_left _ (List.mem_map_of_mem mem)
  | some kind =>
    dsimp only
    split
    · exact (w.goes_noteLoopVars _).1
    · exact w.goes_declareNames kind _

section Attempt

variable {M : String → Prop} {statements : List Stmt} {handler : Option Handler} {finalizer : Option (List Stmt)}

/-- The state after the statements of a `try`. -/
def Walk.attempted (w : Walk) (statements : List Stmt) : Walk :=
  w.inScope false fun w => visitStmts statements (w.hoistFunctions statements)

theorem goes_attempted (knows : w.Knows P (.attempt statements handler finalizer))
    (obey : Stmt.AllObey (.mentioning M) statements) : w.Goes P M (w.attempted statements) :=
  w.goes_block id (fun _ mem => knows.lists (Stmt.inside_attempted mem)) .refl fun v knows =>
    visitStmts_goes statements v knows obey

theorem goes_handler (knows : w.Knows P (.attempt statements handler finalizer))
    (obey : Handler.OptionObeys (.mentioning M) handler) : w.Goes P M (visitHandler handler w) :=
  visitHandler_goes handler w (fun _ _ eq _ mem => by
    subst eq
    exact knows.lists (Stmt.inside_handled mem)) obey

theorem goes_finalizer (knows : w.Knows P (.attempt statements handler finalizer)) :
    w.Goes P (fun _ => True) (visitFinalizer finalizer w) := by
  obtain ⟨_, _, _, obey⟩ := Node.obeys_anything (.stmt (.attempt statements handler finalizer))
  refine visitFinalizer_goes finalizer w (fun body eq s mem => ?_) obey
  subst eq
  exact knows.lists (Stmt.inside_final mem)

end Attempt

/-- The walk over a statement comes to each statement that stands directly inside of it. -/
theorem comes_inside {s t : Stmt} {place : Place} {nodes : List Node} (outside : w.scopes.inFunction = false)
    (knows : w.Knows P s) (inside : s.Inside place nodes t) :
    ∃ u, Comes w nodes place t u (visitStmt s w).found := by
  cases inside with
  | block =>
    obtain ⟨u, comes⟩ := comes_block (P := P) (Walk.within_outside outside)
      fun t mem => (knows.lists (Stmt.inside_block mem)).within
    exact ⟨u, comes.entered⟩
  | @consequent test t alternate =>
    have goes := visitExpr_goes (P := P) test w (expr_obeys (List.mem_singleton_self _))
    refine ⟨_, ((Comes.bare (goes.inFunction.trans outside)).after goes.read).longer fun name => ?_⟩
    have first := visitStmt_goes (M := fun _ => True) t _ ((knows.bare .consequent).mono goes)
      (Node.obeys_anything (.stmt t))
    cases alternate with
    | none => exact Nat.le_refl _
    | some other =>
      have known := ((knows.bare .alternate).mono goes).mono first
      exact (visitStmt_goes other _ known (Node.obeys_anything (.stmt other))).firmer name
  | @alternate test consequent t =>
    have first := visitExpr_goes (P := P) test w
      (expr_obeys (List.mem_cons_self (l := [.stmt consequent])))
    have goes := first.trans (visitStmt_goes consequent _ ((knows.bare .consequent).mono first)
      (obeys_mentioned (x := .stmt consequent) (by simp)))
    exact ⟨_, (Comes.bare (goes.inFunction.trans outside)).after goes.read⟩
  | @whileLoop test t =>
    have goes := visitExpr_goes (P := P) test w (expr_obeys (List.mem_singleton_self _))
    exact ⟨_, (Comes.bare (goes.inFunction.trans outside)).after goes.read⟩
  | @doWhile test t =>
    refine ⟨w, (Comes.bare outside).longer fun name => ?_⟩
    exact (visitExpr_goes (P := P) test _ (Node.obeys_anything (.expr test))).firmer name
  | @forLoop init test update t =>
    have goes := goes_forLoop (P := P) w.within init test update
    have comes := (Comes.bare (s := t) (goes.inFunction.trans (Walk.within_outside outside))).after goes.read
    rw [List.append_nil] at comes
    exact ⟨_, comes.entered⟩
  | @forEach visits kind pattern object t =>
    have visited := visitExpr_goes (P := P) object w (expr_obeys (List.mem_singleton_self _))
    have goes := goes_forEach (P := P) (visitExpr object w).within kind pattern
    have there := Walk.within_outside (visited.inFunction.trans outside)
    have comes := (Comes.bare (s := t) (goes.inFunction.trans there)).after goes.read
    rw [List.append_nil] at comes
    exact ⟨_, comes.after visited.read⟩
  | @attempted earlier later t handler finalizer =>
    obtain ⟨u, comes⟩ := comes_block (P := P) (Walk.within_outside outside)
      fun s mem => (knows.lists (Stmt.inside_attempted mem)).within
    refine ⟨u, comes.entered.longer fun name => ?_⟩
    obtain ⟨_, ofStatements, ofHandler, _⟩ :=
      Node.obeys_anything (.stmt (.attempt (earlier ++ t :: later) handler finalizer))
    have known := knows.mono (goes_attempted knows ofStatements)
    have handled := goes_handler known ofHandler
    exact (handled.trans (goes_finalizer (known.mono handled))).firmer name
  -- The walk enters a scope and declares what is caught, if that has a name. Then it goes through a list as in a block.
  | @handled statements earlier later t param finalizer =>
    have attempted := goes_attempted knows (stmts_obey fun s mem => List.mem_map_of_mem mem)
    have known := knows.mono attempted
    have there := attempted.inFunction.trans outside
    obtain ⟨v, entered, visits⟩ : ∃ v, (w.attempted statements).within.Goes P (Mentioned []) v ∧
        (visitHandler (some (.mk param (earlier ++ t :: later))) (w.attempted statements)).found =
          (visitStmts (earlier ++ t :: later) (v.hoistFunctions (earlier ++ t :: later))).found := by
      cases param with
      | none => exact ⟨_, .refl _, rfl⟩
      | some name => exact ⟨_, Walk.goes_declare _ name, rfl⟩
    obtain ⟨u, comes⟩ := comes_block (P := P) (entered.inFunction.trans (Walk.within_outside there))
      fun s mem => (known.lists (Stmt.inside_handled mem)).within.mono entered
    refine ⟨u, ((comes.after (n := []) entered.read).entered.after attempted.read).longer fun name => ?_⟩
    rw [← visits]
    obtain ⟨_, _, ofHandler, _⟩ := Node.obeys_anything
      (.stmt (.attempt statements (some (.mk param (earlier ++ t :: later))) finalizer))
    exact (goes_finalizer (known.mono (goes_handler known ofHandler))).firmer name
  | @final statements earlier later t handler =>
    have attempted := goes_attempted knows (M := Mentioned (statements.map .stmt ++
      (handler.toList.flatMap Handler.body).map .stmt)) (stmts_obey fun s mem => by simp [mem])
    have goes := attempted.trans (goes_handler (knows.mono attempted) (handler_obeys fun s mem => by
      exact List.mem_append_right _ (List.mem_map_of_mem mem)))
    obtain ⟨u, comes⟩ := comes_block (P := P)
      (Walk.within_outside (goes.inFunction.trans outside))
      fun s mem => ((knows.mono goes).lists (Stmt.inside_final mem)).within
    have comes := comes.entered.after goes.read
    rw [List.append_assoc] at comes
    exact ⟨u, comes⟩
  -- Functions of all cases have been hoisted when the first one is visited.
  | @case discriminant earlierCases laterCases test earlier later t =>
    have visited := visitExpr_goes (P := P) discriminant w (expr_obeys (List.mem_singleton_self _))
    have there := Walk.within_outside (visited.inFunction.trans outside)
    have known := (knows.mono visited).within
    obtain ⟨hoisted, hoists⟩ := (visitExpr discriminant w).within.goes_hoistCases (P := P)
      (M := Mentioned []) (earlierCases ++ .mk test (earlier ++ t :: later) :: laterCases)
    have comes := comes_case (P := P) earlierCases laterCases test earlier later (hoisted.inFunction.trans there)
      (fun c listed s mem => (known.lists (Stmt.inside_case listed mem)).knows hoisted fun outside name definition eq =>
        hoists outside c listed name definition (eq ▸ mem))
      (fun name definition eq => hoists there _ (List.mem_append_right _ List.mem_cons_self) name definition
        (by simp [Case.body, eq]))
    exact ⟨_, (comes.after (n := []) hoisted.read).entered.after visited.read⟩

/-! ## The whole program -/

theorem lists_start (apis : TrackedApis) : ∀ s ∈ P, (Walk.within { apis }).Lists P s := by
  intro s mem _
  obtain ⟨earlier, later, split⟩ := List.append_of_mem mem
  exact ⟨_, .top split⟩

/-- The walk over a program comes to each statement that stands in it. -/
theorem comes_of_stands (apis : TrackedApis) {place : Place} {before : List Node} {s : Stmt}
    (stands : Stands P place before s) :
    ∃ u, Comes { apis } before place s u (resolve apis (.statements P) {}) := by
  induction stands with
  | top split =>
    subst split
    obtain ⟨u, comes⟩ := comes_block (w := Walk.within { apis }) rfl (lists_start apis)
    exact ⟨u, comes.entered⟩
  | inside stands inside ih =>
    obtain ⟨u, comes⟩ := ih
    obtain ⟨v, below⟩ := comes_inside comes.outside (comes.knows stands) inside
    exact ⟨v, comes.inside below⟩

/-- The declarators of `var` of a statement, also in the head of a counting loop. -/
def varDeclarators : Stmt → List Declarator
  | .declare .var declarators | .forLoop (.declare .var declarators) _ _ _ => declarators
  | _ => []

/-- Outside of functions each name of a `var` statement is registered. -/
theorem declares_varDeclarators (declarators : List Declarator) {w : Walk} (outside : w.scopes.inFunction = false) :
    ∀ d ∈ declarators, ∀ name ∈ d.pattern.boundNames,
      2 ≤ (visitDeclarators .var declarators w).found.firmness name := by
  induction declarators generalizing w with
  | nil => exact nofun
  | cons first rest ih =>
    obtain ⟨pattern, init⟩ := first
    have obey : Declarator.AllObey (.mentioning fun _ => True) rest := Declarator.allObey_iff.2 fun d _ =>
      Declarator.obeys_iff.2 fun x _ => Node.obeys_anything x
    have visit : ∀ v : Walk, v.Goes [] (fun _ => True) (visitOption init (visitDefaults pattern v)) := fun v =>
      (visitDefaults_goes pattern v (Node.obeys_anything (.pattern pattern))).trans
        (visitOption_goes init _ (Expr.optionObeys_iff.2 fun x _ => Node.obeys_anything x))
    obtain ⟨noted, known⟩ := w.goes_noteVars (P := []) (M := fun _ => True) pattern.boundNames
    have collected := Walk.goes_collectFor (pattern.boundNames.foldl Walk.noteVar w)
      (fun name mem => .inl (known name mem)) fun v _ _ => visit v
    have goes := noted.trans collected
    unfold visitDeclarators
    dsimp only
    rw [if_pos (by simp [outside])]
    intro d mem name bound
    rcases List.mem_cons.1 mem with rfl | mem
    · have onward := collected.trans (visitDeclarators_goes .var rest _ obey)
      exact Nat.le_trans (known name bound) (onward.firmer name)
    · exact ih (goes.inFunction.trans outside) d mem name bound

/-- The walk over a statement notes what it declares by `var`. -/
theorem declares_stmt {s : Stmt} (outside : w.scopes.inFunction = false) (knows : w.Knows P s) {d : Declarator}
    (mem : d ∈ varDeclarators s) {name : String} (bound : name ∈ d.pattern.boundNames) :
    2 ≤ (visitStmt s w).found.firmness name := by
  unfold varDeclarators at mem
  split at mem
  next declarators => exact declares_varDeclarators declarators outside d mem name bound
  next declarators test update body =>
    obtain ⟨_, obey, ofTest, ofUpdate, ofBody⟩ :=
      Node.obeys_anything (.stmt (.forLoop (.declare .var declarators) test update body))
    have declared := declares_varDeclarators declarators (Walk.within_outside outside) d mem name bound
    have started := visitInit_goes (P := P) (.declare .var declarators) w.within obey
    have tested := visitOption_goes (P := P) test (visitDeclarators .var declarators w.within) ofTest
    have headed := tested.trans (visitOption_goes update _ ofUpdate)
    have known := ((knows.bare .forLoop).within.mono started).mono headed
    exact Nat.le_trans declared ((headed.trans (visitStmt_goes body _ known ofBody)).firmer name)
  next => cases mem

/-- The head of a loop over a collection notes what it declares by `var`, unless the name is merely read by then. -/
theorem declares_loopVar {visits : EachKind} {pattern : Pattern} {object : Expr} {body : Stmt}
    (outside : w.scopes.inFunction = false) (knows : w.Knows P (.forEach visits (some .var) pattern object body))
    {name : String} (bound : name ∈ pattern.boundNames) :
    2 ≤ (visitStmt (.forEach visits (some .var) pattern object body) w).found.firmness name ∨
      1 ≤ (visitStmt (.forEach visits (some .var) pattern object body) w).found.firmness name ∧
        (visitExpr object w).found.firmness name = 1 := by
  obtain ⟨_, ofPattern, ofObject, ofBody⟩ :=
    Node.obeys_anything (.stmt (.forEach visits (some .var) pattern object body))
  have visited := visitExpr_goes (P := P) object w ofObject
  have there := Walk.within_outside (visited.inFunction.trans outside)
  obtain ⟨noted, known⟩ := (visitExpr object w).within.goes_noteLoopVars (P := P) (M := fun _ => True)
    pattern.boundNames
  have headed := visitDefaults_goes (P := P) pattern
    (pattern.boundNames.foldl Walk.noteLoopVar (visitExpr object w).within) ofPattern
  have inBody := (((knows.bare .forEach).mono visited).within.mono noted).mono headed
  have onward := headed.trans (visitStmt_goes body _ inBody ofBody)
  have visits : (visitStmt (.forEach visits (some .var) pattern object body) w).found = (visitStmt body
      (visitDefaults pattern (pattern.boundNames.foldl Walk.noteLoopVar (visitExpr object w).within))).found := by
    show (visitStmt body (visitDefaults pattern (if _ then _ else _))).found = _
    rw [if_pos (by simpa [Walk.within] using there)]
    rfl
  rw [visits]
  have firmer := onward.firmer name
  rcases known name bound with firm | free
  · exact .inl (Nat.le_trans firm firmer)
  · refine .inr ⟨Nat.le_trans ?_ ((noted.trans onward).firmer name), free⟩
    exact Nat.le_of_eq free.symm

/-- What the declarations that stand outside of all functions are registered as. -/
theorem declarations_registered (apis : TrackedApis) (program : List Stmt) :
    (∀ before name definition, Stands program .listed before (.function name definition) →
      ∃ f, (resolve apis (.statements program) {}).names.get? name = some (.function f)) ∧
    (∀ place before s, Stands program place before s → ∀ d ∈ varDeclarators s, ∀ name ∈ d.pattern.boundNames,
      (resolve apis (.statements program) {}).Declares name) ∧
    (∀ place before visits pattern object body,
      Stands program place before (.forEach visits (some .var) pattern object body) → ∀ name ∈ pattern.boundNames,
      (resolve apis (.statements program) {}).Declares name ∨
        (resolve apis (.statements program) {}).names.get? name = some .free ∧
          Mentioned (before ++ [.expr object]) name) ∧
    (∀ name ∈ (resolve apis (.statements program) {}).declared.keys,
      (resolve apis (.statements program) {}).Declares name ∨
        ∃ before definition, Stands program .bare before (.function name definition)) := by
  refine ⟨fun before name definition stands => ?_, fun place before s stands d mem name bound => ?_,
    fun place before visits pattern object body stands name bound => ?_, fun name mem => ?_⟩
  · obtain ⟨u, comes⟩ := comes_of_stands apis stands
    have firm := comes.known rfl name definition rfl
    have goes := visitStmt_goes (M := fun _ => True) _ u (comes.knows stands)
      (Node.obeys_anything (.stmt (.function name definition)))
    have firmer := goes.firmer name
    have onward := comes.onward name
    have top := (resolve apis (.statements program) {}).firmness_le name
    exact Resolution.function_of_firmness (by omega)
  · obtain ⟨u, comes⟩ := comes_of_stands apis stands
    have firm := declares_stmt comes.outside (comes.knows stands) mem bound
    exact Resolution.declares_of_firmness (Nat.le_trans firm (comes.onward name))
  -- A loop variable that was read before stays a name that is read. So it has been mentioned, before the loop or in it.
  · obtain ⟨u, comes⟩ := comes_of_stands apis stands
    have onward := comes.onward name
    rcases declares_loopVar comes.outside (comes.knows stands) bound with firm | ⟨there, free⟩
    · exact .inl (Resolution.declares_of_firmness (Nat.le_trans firm onward))
    · by_cases firm : 2 ≤ (resolve apis (.statements program) {}).firmness name
      · exact .inl (Resolution.declares_of_firmness firm)
      · refine .inr ⟨Resolution.free_of_firmness (by omega), ?_⟩
        have visited := visitExpr_goes (P := program) object u (expr_obeys (List.mem_singleton_self _))
        rcases visited.read name free with early | ⟨x, mem, mentions⟩
        · have start : ¬ Resolution.firmness {} name = 1 := Nat.zero_ne_one
          obtain ⟨x, mem, mentions⟩ := (comes.read name early).resolve_left start
          exact ⟨x, List.mem_append_left _ mem, mentions⟩
        · exact ⟨x, List.mem_append_right _ mem, mentions⟩
  · have lists := Walk.knows_hoisted (lists_start (P := program) apis)
    have hoisted := ((Walk.within { apis }).goes_hoistFunctions (P := program) (M := fun _ => True) program).1
    have goes := hoisted.trans (visitStmts_goes program _ lists (stmts_obey_anything program))
    rcases goes.recorded name mem with before | known | bare
    · cases before
    · exact .inl (Resolution.declares_of_firmness known)
    · exact .inr bare

/-! A function in a list, a variable in the body of a loop, and a loop variable that has not been read before. -/

/-- `{ function f() {} } for (var x of xs) var y;` -/
def declaring : List Stmt :=
  [.block [.function "f" (.mk [] none (.block []))],
    .forEach .items (some .var) (.name "x") (.name "xs") (.declare .var [.mk (.name "y") none])]

/-- All three ways to register a name in one program: a function of a block, a variable of a loop body, and the variable
of the loop itself. -/
theorem declaring_registered :
    parseStatements "\x7b function f() \x7b\x7d \x7d for (var x of xs) var y;" = .ok declaring ∧
      (∃ f, (resolve {} (.statements declaring) {}).names.get? "f" = some (.function f)) ∧
      (resolve {} (.statements declaring) {}).Declares "y" ∧
      ((resolve {} (.statements declaring) {}).Declares "x" ∨
        (resolve {} (.statements declaring) {}).names.get? "x" = some .free ∧
          Mentioned ([.stmt (.block [.function "f" (.mk [] none (.block []))])] ++ [.expr (.name "xs")]) "x") := by
  obtain ⟨functions, vars, loopVars, -⟩ := declarations_registered {} declaring
  have block : Stands declaring .listed ([].map .stmt) (.block [.function "f" (.mk [] none (.block []))]) := .top rfl
  have loop : Stands declaring .listed ([.block [.function "f" (.mk [] none (.block []))]].map .stmt)
      (.forEach .items (some .var) (.name "x") (.name "xs") (.declare .var [.mk (.name "y") none])) := .top rfl
  refine ⟨rfl, ?_, ?_, ?_⟩
  · obtain ⟨before, inside⟩ := Stmt.inside_block (List.mem_singleton_self (Stmt.function "f" (.mk [] none (.block []))))
    exact functions _ "f" _ (block.inside inside)
  · exact vars _ _ _ (loop.inside .forEach) (.mk (.name "y") none) List.mem_cons_self "y" List.mem_cons_self
  · exact loopVars _ _ _ _ _ _ loop "x" List.mem_cons_self

/-! A function that stands bare, and a loop variable that has been read before. -/

/-- `if (x) function f() { return y; }` -/
def bareFunction : List Stmt :=
  [.branch (.name "x") (.function "f" (.mk [] none (.block [.ret (some (.name "y"))]))) none]

/-- `x; for (var x of xs) {}` -/
def loopAfterUse : List Stmt :=
  [.expr (.name "x"), .forEach .items (some .var) (.name "x") (.name "xs") (.block [])]

/-- Dependencies are recorded under a function that is not registered, and a loop variable is registered as a name
that is merely read. -/
theorem declarations_unregistered :
    (parseStatements "if (x) function f() \x7b return y; \x7d" = .ok bareFunction ∧
      Stands bareFunction .bare [.expr (.name "x")]
        (.function "f" (.mk [] none (.block [.ret (some (.name "y"))]))) ∧
      (resolve {} (.statements bareFunction) {}).names.get? "f" = none ∧
      (resolve {} (.statements bareFunction) {}).declared.get? "f" = some ["y"]) ∧
    (parseStatements "x; for (var x of xs) \x7b\x7d" = .ok loopAfterUse ∧
      Stands loopAfterUse .listed [.stmt (.expr (.name "x"))]
        (.forEach .items (some .var) (.name "x") (.name "xs") (.block [])) ∧
      (resolve {} (.statements loopAfterUse) {}).names.get? "x" = some .free) :=
  have top : Stands bareFunction .listed ([].map .stmt)
      (.branch (.name "x") (.function "f" (.mk [] none (.block [.ret (some (.name "y"))]))) none) := .top rfl
  have second : Stands loopAfterUse .listed ([.expr (.name "x")].map .stmt)
      (.forEach .items (some .var) (.name "x") (.name "xs") (.block [])) := .top rfl
  ⟨⟨rfl, top.inside .consequent, rfl, rfl⟩, ⟨rfl, second, rfl⟩⟩

end BindScript.Dependency
