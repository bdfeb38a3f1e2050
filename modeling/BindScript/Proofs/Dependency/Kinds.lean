import BindScript.Dependency.Resolve
import BindScript.Proofs.Dependency.Merge

/-!
# What a walk does to the kinds of names

What a top-level name stands for only gets firmer in a walk: a name that is merely read may become a variable, and
both may become a function, never the other way (`Resolution.firmness`). A walk from one place to another (`Walk.Goes`)
makes a name one that is merely read only if the code on the way mentions it, and records dependencies only under
names that are variables or functions by then, or under a function that stands bare, which nothing makes known.

The functions of a list are known before the list is walked. This is what `Walk.Knows` asks of a statement that is
walked over, and it is all that the walk over the tree needs (`visitExpr_goes`, `visitStmt_goes` and their family).
-/

namespace BindScript.Dependency

/-- How firm it is what a name stands for. -/
def TopLevelName.firmness : Option TopLevelName → Nat
  | none => 0
  | some .free => 1
  | some .var => 2
  | some (.function _) => 3

/-- How firm it is what a name of the resolution stands for. -/
def Resolution.firmness (r : Resolution) (name : String) : Nat :=
  TopLevelName.firmness (r.names.get? name)

theorem Resolution.firmness_le (r : Resolution) (name : String) : r.firmness name ≤ 3 := by
  unfold Resolution.firmness TopLevelName.firmness
  split <;> omega

/-- A part of a walk, over code of a program that mentions no more than some names. -/
structure Walk.Goes (P : List Stmt) (M : String → Prop) (w w' : Walk) : Prop where
  marks : w'.scopes.map (fun s => s.isFunction) = w.scopes.map fun s => s.isFunction
  firmer : ∀ name, w.found.firmness name ≤ w'.found.firmness name
  read : ∀ name, w'.found.firmness name = 1 → w.found.firmness name = 1 ∨ M name
  recorded : ∀ name ∈ w'.found.declared.keys, name ∈ w.found.declared.keys ∨ 2 ≤ w'.found.firmness name ∨
    ∃ before definition, Stands P .bare before (.function name definition)

/-- The walk is inside of a function, or the statement stands in the program and its functions are known if it stands
in a list. -/
def Walk.Knows (P : List Stmt) (w : Walk) (s : Stmt) : Prop :=
  w.scopes.inFunction = false → ∃ place before, Stands P place before s ∧
    (place = .listed → ∀ name definition, s = .function name definition → w.found.firmness name = 3)

/-- The walk is inside of a function, or the statement stands in a list of the program. -/
def Walk.Lists (P : List Stmt) (w : Walk) (s : Stmt) : Prop :=
  w.scopes.inFunction = false → ∃ before, Stands P .listed before s

namespace Walk

variable {P : List Stmt} {M : String → Prop} {w w' w'' : Walk}

theorem Goes.refl (w : Walk) : w.Goes P M w :=
  ⟨rfl, fun _ => Nat.le_refl _, fun _ => .inl, fun _ => .inl⟩

theorem Goes.trans (first : w.Goes P M w') (later : w'.Goes P M w'') : w.Goes P M w'' where
  marks := later.marks.trans first.marks
  firmer name := Nat.le_trans (first.firmer name) (later.firmer name)
  read name free := (later.read name free).elim (first.read name) .inr
  recorded name mem := by
    rcases later.recorded name mem with before | known
    · rcases first.recorded name before with before | known | bare
      · exact .inl before
      · exact .inr (.inl (Nat.le_trans known (later.firmer name)))
      · exact .inr (.inr bare)
    · exact .inr known

theorem Goes.inFunction (goes : w.Goes P M w') : w'.scopes.inFunction = w.scopes.inFunction :=
  Scopes.inFunction_eq_of_marks goes.marks

theorem Goes.foldl {α : Type} {step : Walk → α → Walk} (each : ∀ (w : Walk) (a : α), w.Goes P M (step w a))
    (w : Walk) (items : List α) : w.Goes P M (items.foldl step w) := by
  induction items generalizing w with
  | nil => exact .refl w
  | cons a rest ih => exact (each w a).trans (ih _)

/-- As `foldl`, where the step asks for something of each item. -/
theorem Goes.foldl_of {α : Type} {step : Walk → α → Walk} {Q : α → Prop}
    (each : ∀ (w : Walk) (a : α), Q a → w.Goes P M (step w a)) (w : Walk) (items : List α)
    (all : ∀ a ∈ items, Q a) : w.Goes P M (items.foldl step w) := by
  induction items generalizing w with
  | nil => exact .refl w
  | cons a rest ih =>
    exact (each w a (all a List.mem_cons_self)).trans (ih _ fun b mem => all b (List.mem_cons_of_mem _ mem))

theorem Knows.mono {s : Stmt} (knows : w.Knows P s) (goes : w.Goes P M w') : w'.Knows P s := by
  intro outside
  obtain ⟨place, before, stands, known⟩ := knows (goes.inFunction ▸ outside)
  refine ⟨place, before, stands, fun listed name definition eq => ?_⟩
  have top := w'.found.firmness_le name
  have firm := known listed name definition eq
  have firmer := goes.firmer name
  omega

/-- A body that stands bare inside of a statement asks for no more than the statement. -/
theorem Knows.bare {s t : Stmt} {before : List Node} (knows : w.Knows P s) (inside : s.Inside .bare before t) :
    w.Knows P t := by
  intro outside
  obtain ⟨place, above, stands, -⟩ := knows outside
  exact ⟨.bare, above ++ before, stands.inside inside, nofun⟩

theorem Knows.lists {s t : Stmt} (knows : w.Knows P s) (inside : ∃ before, s.Inside .listed before t) :
    w.Lists P t := by
  intro outside
  obtain ⟨before, inside⟩ := inside
  obtain ⟨place, above, stands, -⟩ := knows outside
  exact ⟨above ++ before, stands.inside inside⟩

theorem Lists.mono {s : Stmt} (lists : w.Lists P s) (goes : w.Goes P M w') : w'.Lists P s :=
  fun outside => lists (goes.inFunction ▸ outside)

/-- A block of its own is inside of a function if what is around it is. -/
theorem inFunction_block {v : Walk} (scopes : v.scopes = { isFunction := false } :: w.scopes) :
    v.scopes.inFunction = w.scopes.inFunction := by
  rw [scopes]
  rfl

/-- What is known around a block is known inside of it. -/
theorem Knows.enter {v : Walk} {s : Stmt} (knows : w.Knows P s) (found : v.found = w.found)
    (scopes : v.scopes = { isFunction := false } :: w.scopes) : v.Knows P s := by
  intro outside
  rw [inFunction_block scopes] at outside
  rw [found]
  exact knows outside

/-! ## Steps of a walk -/

theorem goes_rescope (w : Walk) {scopes : Scopes}
    (marks : scopes.map (fun s => s.isFunction) = w.scopes.map fun s => s.isFunction) :
    w.Goes P M { w with scopes } :=
  ⟨marks, fun _ => Nat.le_refl _, fun _ => .inl, fun _ => .inl⟩

theorem goes_declare (w : Walk) (name : String) : w.Goes P M (w.declare name) :=
  goes_rescope w (Scopes.marks_declare name _)

theorem goes_declareNames (w : Walk) (kind : DeclKind) (names : List String) :
    w.Goes P M (w.declareNames kind names) := by
  refine .foldl (fun w name => ?_) w names
  cases kind with
  | var => exact goes_rescope w (Scopes.marks_declareInFunction name _)
  | «let» | const => exact goes_declare w name

theorem firmness_insert_self (r : Resolution) (name : String) (kind : TopLevelName) :
    Resolution.firmness { r with names := r.names.insert name kind } name = TopLevelName.firmness (some kind) :=
  congrArg TopLevelName.firmness (Entries.get?_insert_self ..)

theorem firmness_insert_of_ne (r : Resolution) {name other : String} (ne : other ≠ name) (kind : TopLevelName) :
    Resolution.firmness { r with names := r.names.insert name kind } other = r.firmness other :=
  congrArg TopLevelName.firmness (Entries.get?_insert_of_ne ne)

/-- What a name stands for is changed to something firmer. -/
theorem goes_insert (w : Walk) {name : String} {kind : TopLevelName}
    (firmer : w.found.firmness name ≤ TopLevelName.firmness (some kind))
    (read : TopLevelName.firmness (some kind) = 1 → M name) : w.Goes P M (w.setName name kind) := by
  have self := firmness_insert_self w.found name kind
  refine ⟨rfl, fun other => ?_, fun other free => ?_, fun _ => .inl⟩
  · by_cases same : other = name
    · subst same
      exact self.symm ▸ firmer
    · exact Nat.le_of_eq (firmness_insert_of_ne w.found same kind).symm
  · by_cases same : other = name
    · subst same
      exact .inr (read (self.symm.trans free))
    · exact .inl ((firmness_insert_of_ne w.found same kind).symm.trans free)

theorem goes_addDependency (w : Walk) {root : String} (dependency : String) (mentioned : M root) :
    w.Goes P M (w.addDependency root dependency) := by
  unfold addDependency
  split
  · exact ⟨rfl, fun _ => Nat.le_refl _, fun _ => .inl, fun _ => .inl⟩
  next unknown =>
    have none : w.found.names.get? root = none := by
      rw [Entries.contains_eq_isSome] at unknown
      simpa using unknown
    have goes : w.Goes P M (w.setName root .free) :=
      goes_insert w (by simp [Resolution.firmness, none, TopLevelName.firmness]) fun _ => mentioned
    exact ⟨rfl, goes.firmer, goes.read, goes.recorded⟩

theorem goes_useName (w : Walk) {name : String} (mentioned : M name) : w.Goes P M (w.useName name) := by
  unfold useName
  split
  · exact .refl w
  · exact goes_addDependency w name mentioned

theorem goes_useKeyNames (w : Walk) {path : Path} (mentioned : ∀ name, path.Mentions name → M name) :
    w.Goes P M (w.useKeyNames path) :=
  .foldl_of (fun w _ => goes_useName w) w _ fun name mem => mentioned name (.inr mem)

theorem goes_usePath (w : Walk) {path : Path} (mentioned : ∀ name, path.Mentions name → M name) :
    w.Goes P M (w.usePath path) := by
  unfold usePath
  split
  · exact goes_useKeyNames w mentioned
  · exact goes_addDependency w _ (mentioned _ (.inl rfl))

/-- A name that is declared by `var` is known as a variable then, or as a function. -/
theorem goes_noteVar (w : Walk) (name : String) :
    w.Goes P M (w.noteVar name) ∧ 2 ≤ (w.noteVar name).found.firmness name := by
  unfold noteVar
  split
  next function => exact ⟨.refl w, by simp [Resolution.firmness, function, TopLevelName.firmness]⟩
  next other =>
    have below : w.found.firmness name ≤ 2 := by
      unfold Resolution.firmness TopLevelName.firmness
      split
      · omega
      · omega
      · omega
      next definition found => exact absurd found (other definition)
    have self := firmness_insert_self w.found name .var
    exact ⟨goes_insert w below nofun, Nat.le_of_eq self.symm⟩

/-- The variable of a loop becomes a variable, unless it is already known as a name that is read. -/
theorem goes_noteLoopVar (w : Walk) (name : String) :
    w.Goes P M (w.noteLoopVar name) ∧
      (2 ≤ (w.noteLoopVar name).found.firmness name ∨ w.found.firmness name = 1) := by
  unfold noteLoopVar
  split
  next known =>
    refine ⟨.refl w, ?_⟩
    rw [Entries.contains_eq_isSome] at known
    obtain ⟨kind, found⟩ := Option.isSome_iff_exists.1 known
    cases kind <;> simp [Resolution.firmness, found, TopLevelName.firmness]
  next unknown =>
    have none : w.found.names.get? name = none := by
      rw [Entries.contains_eq_isSome] at unknown
      simpa using unknown
    have self := firmness_insert_self w.found name .var
    refine ⟨goes_insert w (by simp [Resolution.firmness, none, TopLevelName.firmness]) nofun, .inl ?_⟩
    exact Nat.le_of_eq self.symm

theorem goes_noteVars (w : Walk) (names : List String) : w.Goes P M (names.foldl noteVar w) ∧
    ∀ name ∈ names, 2 ≤ (names.foldl noteVar w).found.firmness name := by
  induction names generalizing w with
  | nil => exact ⟨.refl w, List.forall_mem_nil _⟩
  | cons first rest ih =>
    obtain ⟨goes, noted⟩ := goes_noteVar (P := P) (M := M) w first
    obtain ⟨later, others⟩ := ih (w.noteVar first)
    refine ⟨goes.trans later, fun name mem => ?_⟩
    rcases List.mem_cons.1 mem with rfl | mem
    · exact Nat.le_trans noted (later.firmer name)
    · exact others name mem

/-- After the head of a loop its names are variables, unless they had been read before. -/
theorem goes_noteLoopVars (w : Walk) (names : List String) : w.Goes P M (names.foldl noteLoopVar w) ∧
    ∀ name ∈ names, 2 ≤ (names.foldl noteLoopVar w).found.firmness name ∨ w.found.firmness name = 1 := by
  induction names generalizing w with
  | nil => exact ⟨.refl w, List.forall_mem_nil _⟩
  | cons first rest ih =>
    obtain ⟨goes, noted⟩ := goes_noteLoopVar (P := P) (M := fun _ => False) w first
    obtain ⟨later, others⟩ := ih (w.noteLoopVar first)
    refine ⟨(goes_noteLoopVar w first).1.trans later, fun name mem => ?_⟩
    rcases List.mem_cons.1 mem with rfl | mem
    · exact noted.imp_left fun firm => Nat.le_trans firm (later.firmer name)
    · -- a name that is merely read after the first was so before
      exact (others name mem).imp_right fun free => (goes.read name free).resolve_right id

/-- Outside of functions, the functions of a list are known once they are hoisted. -/
theorem goes_hoistFunctions (w : Walk) (statements : List Stmt) : w.Goes P M (w.hoistFunctions statements) ∧
    (w.scopes.inFunction = false → ∀ name definition, .function name definition ∈ statements →
      (w.hoistFunctions statements).found.firmness name = 3) := by
  induction statements generalizing w with
  | nil => exact ⟨.refl w, nofun⟩
  | cons s rest ih =>
    -- whatever the first statement has made of the walk, the others go on from there
    have first : ∀ {v : Walk}, v.hoistFunctions rest = w.hoistFunctions (s :: rest) → w.Goes P M v →
        (w.scopes.inFunction = false → ∀ name definition, s = .function name definition →
          v.found.firmness name = 3) →
        w.Goes P M (w.hoistFunctions (s :: rest)) ∧ (w.scopes.inFunction = false →
          ∀ name definition, .function name definition ∈ s :: rest →
            (w.hoistFunctions (s :: rest)).found.firmness name = 3) := by
      intro v eq goes known
      obtain ⟨later, others⟩ := ih v
      rw [← eq]
      refine ⟨goes.trans later, fun outside name definition mem => ?_⟩
      rcases List.mem_cons.1 mem with same | mem
      · have firm := known outside name definition same.symm
        have firmer := later.firmer name
        have top := (v.hoistFunctions rest).found.firmness_le name
        omega
      · exact others (goes.inFunction ▸ outside) name definition mem
    cases s with
    | function name definition =>
      cases inside : w.scopes.inFunction with
      | true => exact inside ▸ first (by simp [hoistFunctions, inside]) (goes_declare w name) (by simp [inside])
      | false =>
        refine inside ▸ first (v := w.setName name (.function definition)) (by simp [hoistFunctions, inside])
          (goes_insert w (w.found.firmness_le name) nofun) ?_
        rintro - _ _ ⟨⟩
        exact firmness_insert_self w.found name _
    | _ => exact first rfl (.refl w) nofun

theorem goes_inScope (w : Walk) (isFunction : Bool) {visit : Walk → Walk}
    (inner : ∀ v : Walk, v.found = w.found → v.scopes = { isFunction } :: w.scopes → v.Goes P M (visit v)) :
    w.Goes P M (w.inScope isFunction visit) := by
  have goes := inner { w with scopes := { isFunction } :: w.scopes } rfl rfl
  refine ⟨?_, goes.firmer, goes.read, goes.recorded⟩
  have marks := congrArg (List.drop 1) goes.marks
  simpa [inScope, List.map_drop] using marks

/-- Recording adds no keys but the names it is done for. -/
theorem mem_keys_record {found : List String} (names : List String) (declared : Entries (List String)) (name : String)
    (mem : name ∈ (names.foldl (fun declared name => declared.alter name [] (found.foldl insertNew ·)) declared).keys) :
    name ∈ declared.keys ∨ name ∈ names := by
  induction names generalizing declared with
  | nil => exact .inl mem
  | cons first rest ih =>
    rcases ih _ mem with mem | mem
    · unfold Entries.alter at mem
      rw [Entries.keys_insert] at mem
      split at mem
      · exact .inl mem
      · rcases List.mem_append.1 mem with mem | mem
        · exact .inl mem
        · exact .inr (List.mem_cons.2 (.inl (List.mem_singleton.1 mem)))
    · exact .inr (List.mem_cons_of_mem _ mem)

theorem goes_collectFor (w : Walk) {names : List String} {visit : Walk → Walk}
    (known : ∀ name ∈ names, 2 ≤ w.found.firmness name ∨
      ∃ before definition, Stands P .bare before (.function name definition))
    (inner : ∀ v : Walk, v.found = w.found → v.scopes = w.scopes → v.Goes P M (visit v)) :
    w.Goes P M (w.collectFor names visit) := by
  have goes := inner { w with sinks := [] :: w.sinks } rfl rfl
  refine ⟨goes.marks, goes.firmer, goes.read, fun name mem => ?_⟩
  rcases mem_keys_record names _ name mem with mem | mem
  · exact goes.recorded name mem
  · exact .inr ((known name mem).imp_left fun firm => Nat.le_trans firm (goes.firmer name))

/-! ## Lists of statements -/

/-- A statement of a list, once the functions of the list are known. -/
theorem Lists.knows {s : Stmt} (lists : w.Lists P s) (goes : w.Goes P M w')
    (known : w.scopes.inFunction = false → ∀ name definition, s = .function name definition →
      w'.found.firmness name = 3) : w'.Knows P s := by
  intro outside
  rw [goes.inFunction] at outside
  obtain ⟨before, stands⟩ := lists outside
  exact ⟨.listed, before, stands, fun _ => known outside⟩

theorem knows_hoisted {statements : List Stmt} (lists : ∀ s ∈ statements, w.Lists P s) :
    ∀ s ∈ statements, (w.hoistFunctions statements).Knows P s := by
  obtain ⟨goes, known⟩ := w.goes_hoistFunctions (P := P) (M := fun _ => True) statements
  intro s mem
  exact (lists s mem).knows goes fun outside name definition eq => known outside name definition (eq ▸ mem)

/-- A list of statements is walked over in a block of its own, where names may be declared first. -/
theorem goes_block {statements : List Stmt} (enter : Walk → Walk) (lists : ∀ s ∈ statements, w.Lists P s)
    (enters : ∀ v : Walk, v.Goes P M (enter v))
    (visit : ∀ v : Walk, (∀ s ∈ statements, v.Knows P s) → v.Goes P M (visitStmts statements v)) :
    w.Goes P M (w.inScope false fun w => visitStmts statements ((enter w).hoistFunctions statements)) := by
  refine w.goes_inScope false fun v _ scopes => ?_
  have entered := enters v
  refine entered.trans (((enter v).goes_hoistFunctions statements).1.trans (visit _ ?_))
  refine knows_hoisted fun s mem outside => lists s mem ?_
  rw [← inFunction_block scopes, ← entered.inFunction]
  exact outside

/-- The functions of all cases are known before the first case is walked. -/
theorem goes_hoistCases (w : Walk) (cases : List Case) :
    w.Goes P M (cases.foldl (fun w c => w.hoistFunctions c.body) w) ∧
      (w.scopes.inFunction = false → ∀ c ∈ cases, ∀ name definition, .function name definition ∈ c.body →
        (cases.foldl (fun w c => w.hoistFunctions c.body) w).found.firmness name = 3) := by
  induction cases generalizing w with
  | nil => exact ⟨.refl w, fun _ => nofun⟩
  | cons first rest ih =>
    obtain ⟨goes, known⟩ := w.goes_hoistFunctions (P := P) (M := M) first.body
    obtain ⟨later, others⟩ := ih (w.hoistFunctions first.body)
    refine ⟨goes.trans later, fun outside c mem name definition inside => ?_⟩
    rcases List.mem_cons.1 mem with rfl | mem
    · have firm := known outside name definition inside
      have firmer := later.firmer name
      have top := (rest.foldl (fun w c => w.hoistFunctions c.body) (w.hoistFunctions c.body)).found.firmness_le name
      rw [List.foldl_cons]
      omega
    · exact others (goes.inFunction.trans outside) c mem name definition inside

end Walk

/-! ## The walk over a tree -/

variable {P : List Stmt} {M : String → Prop}

mutual

/-- A walk over an expression goes on as `Walk.Goes` says. -/
theorem visitExpr_goes : ∀ (e : Expr) (w : Walk), e.Obeys (.mentioning M) → w.Goes P M (visitExpr e w)
  | .name id, w, obeys => w.goes_useName obeys
  | .literal _, w, _ => .refl w
  | .template parts, w, ⟨_, obeys⟩ => visitParts_goes parts w obeys
  | .unary _ operand, w, ⟨_, obeys⟩ => visitExpr_goes operand w obeys
  | .update _ _ operand, w, ⟨_, obeys⟩ => visitExpr_goes operand w obeys
  | .binary _ left right, w, ⟨_, ofLeft, ofRight⟩ => by
    unfold visitExpr
    exact (visitExpr_goes left w ofLeft).trans (visitExpr_goes right _ ofRight)
  | .conditional test consequent alternate, w, ⟨_, ofTest, ofConsequent, ofAlternate⟩ => by
    unfold visitExpr
    have chosen := (visitExpr_goes test w ofTest).trans (visitExpr_goes consequent _ ofConsequent)
    exact chosen.trans (visitExpr_goes alternate _ ofAlternate)
  | .sequence items, w, ⟨_, obeys⟩ => visitExprs_goes items w obeys
  | .array items, w, ⟨_, obeys⟩ => visitExprs_goes items w obeys
  | .object properties, w, ⟨_, obeys⟩ => visitProperties_goes properties w obeys
  | .spread inner, w, ⟨_, obeys⟩ => visitExpr_goes inner w obeys
  | .member object property optional, w, ⟨own, obeys⟩ => by
    unfold visitExpr
    split
    next path folds => exact w.goes_usePath (mentioned_of_fold? folds ⟨own, obeys⟩)
    next => exact visitExpr_goes object w obeys
  | .index object key optional, w, ⟨own, ofObject, ofKey⟩ => by
    unfold visitExpr
    split
    next path folds => exact w.goes_usePath (mentioned_of_fold? folds ⟨own, ofObject, ofKey⟩)
    next => exact (visitExpr_goes object w ofObject).trans (visitExpr_goes key _ ofKey)
  | .call callee args _, w, ⟨_, ofCallee, ofArgs⟩ => by
    unfold visitExpr
    refine .trans ?_ (visitExprs_goes args _ ofArgs)
    split
    next => exact visitExpr_goes callee w ofCallee
    next path folds =>
      have mentioned := mentioned_of_fold? folds ofCallee
      -- whether the calls of the method are tracked makes no difference to what is mentioned
      have either : ∀ tracked : Bool, w.Goes P M
          (if tracked then w.usePath path else (w.useName path.root).useKeyNames path) := by
        intro tracked
        cases tracked with
        | true => exact w.goes_usePath mentioned
        | false => exact (w.goes_useName (mentioned _ (.inl rfl))).trans (Walk.goes_useKeyNames _ mentioned)
      exact either _
  | .assign _ target value, w, ⟨_, ofTarget, ofValue⟩ => by
    unfold visitExpr
    exact (visitExpr_goes target w ofTarget).trans (visitExpr_goes value _ ofValue)
  | .function definition, w, ⟨_, obeys⟩ => visitFunction_goes definition w obeys

theorem visitExprs_goes : ∀ (es : List Expr) (w : Walk), Expr.AllObey (.mentioning M) es →
    w.Goes P M (visitExprs es w)
  | [], w, _ => .refl w
  | e :: rest, w, ⟨first, others⟩ => by
    unfold visitExprs
    exact (visitExpr_goes e w first).trans (visitExprs_goes rest _ others)

theorem visitOption_goes : ∀ (e : Option Expr) (w : Walk), Expr.OptionObeys (.mentioning M) e →
    w.Goes P M (visitOption e w)
  | none, w, _ => .refl w
  | some e, w, obeys => visitExpr_goes e w obeys

theorem visitParts_goes : ∀ (parts : List TemplatePart) (w : Walk), TemplatePart.AllObey (.mentioning M) parts →
    w.Goes P M (visitParts parts w)
  | [], w, _ => .refl w
  | .text _ :: rest, w, obeys => visitParts_goes rest w obeys
  | .hole e :: rest, w, ⟨first, others⟩ => by
    unfold visitParts
    exact (visitExpr_goes e w first).trans (visitParts_goes rest _ others)

theorem visitProperties_goes : ∀ (properties : List Property) (w : Walk),
    Property.AllObey (.mentioning M) properties → w.Goes P M (visitProperties properties w)
  | [], w, _ => .refl w
  | .named _ value :: rest, w, ⟨first, others⟩ => by
    unfold visitProperties
    exact (visitExpr_goes value w first).trans (visitProperties_goes rest _ others)
  | .computed key value :: rest, w, ⟨⟨ofKey, ofValue⟩, others⟩ => by
    unfold visitProperties
    have first := (visitExpr_goes key w ofKey).trans (visitExpr_goes value _ ofValue)
    exact first.trans (visitProperties_goes rest _ others)
  | .spread source :: rest, w, ⟨first, others⟩ => by
    unfold visitProperties
    exact (visitExpr_goes source w first).trans (visitProperties_goes rest _ others)

theorem visitFunction_goes : ∀ (f : Function) (w : Walk), f.Obeys (.mentioning M) →
    w.Goes P M (visitFunction f w)
  | .mk params rest body, w, ⟨ofParams, _, ofBody⟩ => by
    unfold visitFunction
    refine w.goes_inScope true fun v _ scopes => ?_
    have declared := Walk.Goes.foldl (P := P) (M := M) Walk.goes_declare v
      (params.flatMap (fun p => p.target.boundNames) ++ Pattern.restNames rest)
    have headed := declared.trans (visitParams_goes params _ ofParams)
    refine headed.trans (visitBody_goes body _ ?_ ofBody)
    rw [headed.inFunction, scopes]
    rfl

theorem visitParams_goes : ∀ (params : List Element) (w : Walk), Element.AllObey (.mentioning M) params →
    w.Goes P M (visitParams params w)
  | [], w, _ => .refl w
  | .mk target default :: rest, w, ⟨⟨ofTarget, ofDefault⟩, others⟩ => by
    unfold visitParams
    have first := (visitDefaults_goes target w ofTarget).trans (visitOption_goes default _ ofDefault)
    exact first.trans (visitParams_goes rest _ others)

theorem visitBody_goes : ∀ (body : Body) (w : Walk), w.scopes.inFunction = true → body.Obeys (.mentioning M) →
    w.Goes P M (visitBody body w)
  | .expr e, w, _, obeys => visitExpr_goes e w obeys
  | .block statements, w, inside, obeys => by
    unfold visitBody
    have hoisted := (w.goes_hoistFunctions (P := P) (M := M) statements).1
    refine hoisted.trans (visitStmts_goes statements _ (fun s _ outside => ?_) obeys)
    rw [hoisted.inFunction, inside] at outside
    cases outside

theorem visitDefaults_goes : ∀ (p : Pattern) (w : Walk), p.Obeys (.mentioning M) →
    w.Goes P M (visitDefaults p w)
  | .name _, w, _ => .refl w
  | .array elements rest, w, ⟨_, ofElements, ofRest⟩ => by
    unfold visitDefaults
    exact (visitElements_goes elements w ofElements).trans (visitRest_goes rest _ ofRest)
  | .object fields _, w, ⟨_, obeys⟩ => visitFields_goes fields w obeys

theorem visitElements_goes : ∀ (elements : List (Option Element)) (w : Walk),
    Pattern.ElementsObey (.mentioning M) elements → w.Goes P M (visitElements elements w)
  | [], w, _ => .refl w
  | none :: rest, w, obeys => visitElements_goes rest w obeys
  | some (.mk target default) :: rest, w, ⟨⟨ofTarget, ofDefault⟩, others⟩ => by
    unfold visitElements
    have first := (visitDefaults_goes target w ofTarget).trans (visitOption_goes default _ ofDefault)
    exact first.trans (visitElements_goes rest _ others)

theorem visitRest_goes : ∀ (rest : Option Pattern) (w : Walk), Pattern.OptionObeys (.mentioning M) rest →
    w.Goes P M (visitRest rest w)
  | none, w, _ => .refl w
  | some p, w, obeys => visitDefaults_goes p w obeys

theorem visitFields_goes : ∀ (fields : List Field) (w : Walk), Field.AllObey (.mentioning M) fields →
    w.Goes P M (visitFields fields w)
  | [], w, _ => .refl w
  | .mk _ target default :: rest, w, ⟨⟨ofTarget, ofDefault⟩, others⟩ => by
    unfold visitFields
    have first := (visitDefaults_goes target w ofTarget).trans (visitOption_goes default _ ofDefault)
    exact first.trans (visitFields_goes rest _ others)

/-- By recursion on the statement: no step makes what is known of a name less firm. -/
theorem visitStmt_goes : ∀ (s : Stmt) (w : Walk), w.Knows P s → s.Obeys (.mentioning M) →
    w.Goes P M (visitStmt s w)
  | .empty, w, _, _ => .refl w
  | .brk, w, _, _ => .refl w
  | .cont, w, _, _ => .refl w
  | .expr e, w, _, ⟨_, obeys⟩ => visitExpr_goes e w obeys
  | .throw e, w, _, ⟨_, obeys⟩ => visitExpr_goes e w obeys
  | .ret e, w, _, ⟨_, obeys⟩ => visitOption_goes e w obeys
  | .block statements, w, knows, ⟨_, obeys⟩ => by
    unfold visitStmt
    exact w.goes_block id (fun s mem => knows.lists (Stmt.inside_block mem)) .refl fun v knows =>
      visitStmts_goes statements v knows obeys
  | .declare kind declarators, w, _, ⟨_, obeys⟩ => visitDeclarators_goes kind declarators w obeys
  | .branch test consequent alternate, w, knows, ⟨_, ofTest, ofConsequent, ofAlternate⟩ => by
    unfold visitStmt
    have tested := visitExpr_goes test w ofTest
    have chosen := tested.trans (visitStmt_goes consequent _ ((knows.bare .consequent).mono tested) ofConsequent)
    refine chosen.trans (visitStmtOption_goes alternate _ ?_ ofAlternate)
    rintro s rfl
    exact (knows.bare .alternate).mono chosen
  | .whileLoop test body, w, knows, ⟨_, ofTest, ofBody⟩ => by
    unfold visitStmt
    have tested := visitExpr_goes test w ofTest
    exact tested.trans (visitStmt_goes body _ ((knows.bare .whileLoop).mono tested) ofBody)
  | .doWhile body test, w, knows, ⟨_, ofTest, ofBody⟩ => by
    unfold visitStmt
    exact (visitStmt_goes body w (knows.bare .doWhile) ofBody).trans (visitExpr_goes test _ ofTest)
  | .forLoop init test update body, w, knows, ⟨_, ofInit, ofTest, ofUpdate, ofBody⟩ => by
    unfold visitStmt
    refine w.goes_inScope false fun v found scopes => ?_
    have tested := (visitInit_goes init v ofInit).trans (visitOption_goes test _ ofTest)
    have headed := tested.trans (visitOption_goes update _ ofUpdate)
    exact headed.trans (visitStmt_goes body _ (((knows.bare .forLoop).enter found scopes).mono headed) ofBody)
  | .forEach visits kind pattern object body, w, knows, ⟨own, ofPattern, ofObject, ofBody⟩ => by
    unfold visitStmt
    have visited := visitExpr_goes object w ofObject
    refine visited.trans (Walk.goes_inScope _ false fun v found scopes => ?_)
    have known := ((knows.bare .forEach).mono visited).enter found scopes
    -- the head uses the names, notes them or declares them; the pattern and the body go on from there
    have onward : ∀ u : Walk, v.Goes P M u → v.Goes P M (visitStmt body (visitDefaults pattern u)) := by
      intro u bound
      have headed := bound.trans (visitDefaults_goes pattern _ ofPattern)
      exact headed.trans (visitStmt_goes body _ (known.mono headed) ofBody)
    cases kind with
    | none => exact onward _ (.foldl_of (fun v _ => v.goes_useName) v _ own)
    | some kind =>
      dsimp only
      split
      · exact onward _ (v.goes_noteLoopVars _).1
      · exact onward _ (v.goes_declareNames kind _)
  | .attempt statements handler finalizer, w, knows, ⟨_, ofStatements, ofHandler, ofFinalizer⟩ => by
    unfold visitStmt
    have attempted := w.goes_block (M := M) id
      (fun s mem => knows.lists (Stmt.inside_attempted mem)) .refl fun v knows =>
        visitStmts_goes statements v knows ofStatements
    have handled := attempted.trans (visitHandler_goes handler _ (fun param body eq s mem => by
      subst eq
      exact (knows.lists (Stmt.inside_handled mem)).mono attempted) ofHandler)
    refine handled.trans (visitFinalizer_goes finalizer _ (fun statements eq s mem => ?_) ofFinalizer)
    subst eq
    exact (knows.lists (Stmt.inside_final mem)).mono handled
  | .switch discriminant cases, w, knows, ⟨_, ofDiscriminant, ofCases⟩ => by
    unfold visitStmt
    have visited := visitExpr_goes discriminant w ofDiscriminant
    refine visited.trans (Walk.goes_inScope _ false fun v found scopes => ?_)
    obtain ⟨hoisted, known⟩ := v.goes_hoistCases (P := P) (M := M) cases
    refine hoisted.trans (visitCases_goes cases _ (fun c mem s inside => ?_) ofCases)
    have lists := (knows.mono visited).enter found scopes |>.lists (Stmt.inside_case mem inside)
    exact lists.knows hoisted fun outside name definition eq => known outside c mem name definition (eq ▸ inside)
  | .function name definition, w, knows, ⟨_, obeys⟩ => by
    unfold visitStmt
    split
    next => exact visitFunction_goes definition w obeys
    next outside =>
      refine w.goes_collectFor (fun other mem => ?_) fun v _ _ => visitFunction_goes definition v obeys
      obtain rfl := List.mem_singleton.1 mem
      obtain ⟨place, before, stands, known⟩ := knows (by simpa using outside)
      -- in a list of statements the name was entered before; as a bare body it stands in the program
      cases place with
      | listed => exact .inl (by rw [known rfl _ _ rfl]; decide)
      | bare => exact .inr ⟨before, definition, stands⟩

theorem visitStmts_goes : ∀ (statements : List Stmt) (w : Walk), (∀ s ∈ statements, w.Knows P s) →
    Stmt.AllObey (.mentioning M) statements → w.Goes P M (visitStmts statements w)
  | [], w, _, _ => .refl w
  | s :: rest, w, knows, ⟨first, others⟩ => by
    unfold visitStmts
    have goes := visitStmt_goes s w (knows s List.mem_cons_self) first
    refine goes.trans (visitStmts_goes rest _ (fun t mem => ?_) others)
    exact (knows t (List.mem_cons_of_mem _ mem)).mono goes

theorem visitStmtOption_goes : ∀ (s : Option Stmt) (w : Walk), (∀ t, s = some t → w.Knows P t) →
    Stmt.OptionObeys (.mentioning M) s → w.Goes P M (visitStmtOption s w)
  | none, w, _, _ => .refl w
  | some s, w, knows, obeys => visitStmt_goes s w (knows s rfl) obeys

theorem visitDeclarators_goes (kind : DeclKind) : ∀ (declarators : List Declarator) (w : Walk),
    Declarator.AllObey (.mentioning M) declarators → w.Goes P M (visitDeclarators kind declarators w)
  | [], w, _ => .refl w
  | .mk pattern init :: rest, w, ⟨⟨ofPattern, ofInit⟩, others⟩ => by
    unfold visitDeclarators
    have visit : ∀ v : Walk, v.Goes P M (visitOption init (visitDefaults pattern v)) := fun v =>
      (visitDefaults_goes pattern v ofPattern).trans (visitOption_goes init _ ofInit)
    refine .trans ?_ (visitDeclarators_goes kind rest _ others)
    split
    · obtain ⟨noted, known⟩ := w.goes_noteVars (P := P) (M := M) pattern.boundNames
      exact noted.trans (Walk.goes_collectFor _ (fun name mem => .inl (known name mem)) fun v _ _ => visit v)
    · exact (w.goes_declareNames kind _).trans (visit _)

theorem visitInit_goes : ∀ (init : ForInit) (w : Walk), init.Obeys (.mentioning M) →
    w.Goes P M (visitInit init w)
  | .none, w, _ => .refl w
  | .declare kind declarators, w, obeys => visitDeclarators_goes kind declarators w obeys
  | .expr e, w, obeys => visitExpr_goes e w obeys

theorem visitHandler_goes : ∀ (handler : Option Handler) (w : Walk),
    (∀ param body, handler = some (.mk param body) → ∀ s ∈ body, w.Lists P s) →
    Handler.OptionObeys (.mentioning M) handler → w.Goes P M (visitHandler handler w)
  | none, w, _, _ => .refl w
  | some (.mk param body), w, lists, obeys => by
    unfold visitHandler
    have visit : ∀ v : Walk, (∀ s ∈ body, v.Knows P s) → v.Goes P M (visitStmts body v) :=
      fun v knows => visitStmts_goes body v knows obeys
    cases param with
    | none => exact w.goes_block id (lists none body rfl) .refl visit
    | some name => exact w.goes_block _ (lists _ body rfl) (fun v => v.goes_declare name) visit

theorem visitFinalizer_goes : ∀ (finalizer : Option (List Stmt)) (w : Walk),
    (∀ statements, finalizer = some statements → ∀ s ∈ statements, w.Lists P s) →
    Stmt.FinalizerObeys (.mentioning M) finalizer → w.Goes P M (visitFinalizer finalizer w)
  | none, w, _, _ => .refl w
  | some statements, w, lists, obeys => by
    unfold visitFinalizer
    exact w.goes_block id (lists statements rfl) .refl fun v knows =>
      visitStmts_goes statements v knows obeys

theorem visitCases_goes : ∀ (cases : List Case) (w : Walk), (∀ c ∈ cases, ∀ s ∈ c.body, w.Knows P s) →
    Case.AllObey (.mentioning M) cases → w.Goes P M (visitCases cases w)
  | [], w, _, _ => .refl w
  | .mk test body :: rest, w, knows, ⟨⟨ofTest, ofBody⟩, others⟩ => by
    unfold visitCases
    have tested := visitOption_goes test w ofTest
    have first := tested.trans (visitStmts_goes body _ (fun s mem =>
      (knows _ List.mem_cons_self s mem).mono tested) ofBody)
    refine first.trans (visitCases_goes rest _ (fun c mem s inside => ?_) others)
    exact (knows c (List.mem_cons_of_mem _ mem) s inside).mono first

end

end BindScript.Dependency
