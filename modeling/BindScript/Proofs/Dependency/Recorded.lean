import BindScript.Proofs.Dependency.Consistent
import BindScript.Proofs.Dependency.Registered

/-!
# What is recorded under declarations

`Walk.Reaches` tells in which state the walk over a program comes to a statement outside of all functions, and
`Walk.Declaring` which top-level declarations stand there and from which state their initializer or body is visited.
Every statement outside of all functions is reached (`Walk.exists_reaches`).

In the end everything that the visit of such a declaration records is listed under each of its names, as the walk only
adds to what is recorded. And the walk keeps what it started from, and keeps it consistent (`resolve_consistent`).
-/

namespace BindScript.Dependency

namespace Walk

/-! ## Coming to a statement -/

/-- The state in which a handler is walked, from the block of the handler. -/
def catching (w : Walk) : Option String → Walk
  | none => w
  | some name => w.declare name

/-- From the state `w`, the walk over a statement comes to a statement directly inside of it. -/
inductive Descends (w : Walk) : Stmt → Stmt → Walk → Prop
  | block {earlier later : List Stmt} {t : Stmt} :
    Descends w (.block (earlier ++ t :: later)) t
      (visitStmts earlier (w.within.hoistFunctions (earlier ++ t :: later)))
  | consequent {test : Expr} {t : Stmt} {alternate : Option Stmt} :
    Descends w (.branch test t alternate) t (visitExpr test w)
  | alternate {test : Expr} {consequent t : Stmt} :
    Descends w (.branch test consequent (some t)) t (visitStmt consequent (visitExpr test w))
  | whileLoop {test : Expr} {t : Stmt} : Descends w (.whileLoop test t) t (visitExpr test w)
  | doWhile {test : Expr} {t : Stmt} : Descends w (.doWhile t test) t w
  | forLoop {init : ForInit} {test update : Option Expr} {t : Stmt} :
    Descends w (.forLoop init test update t) t (visitOption update (visitOption test (visitInit init w.within)))
  | forEach {visits : EachKind} {kind : Option DeclKind} {pattern : Pattern} {object : Expr} {t : Stmt} :
    Descends w (.forEach visits kind pattern object t) t
      (visitDefaults pattern ((visitExpr object w).within.loopHead kind pattern.boundNames))
  | attempted {earlier later : List Stmt} {t : Stmt} {handler : Option Handler} {finalizer : Option (List Stmt)} :
    Descends w (.attempt (earlier ++ t :: later) handler finalizer) t
      (visitStmts earlier (w.within.hoistFunctions (earlier ++ t :: later)))
  | handled {statements earlier later : List Stmt} {t : Stmt} {param : Option String}
      {finalizer : Option (List Stmt)} :
    Descends w (.attempt statements (some (.mk param (earlier ++ t :: later))) finalizer) t
      (visitStmts earlier (((w.attempted statements).within.catching param).hoistFunctions (earlier ++ t :: later)))
  | final {statements earlier later : List Stmt} {t : Stmt} {handler : Option Handler} :
    Descends w (.attempt statements handler (some (earlier ++ t :: later))) t
      (visitStmts earlier
        ((visitHandler handler (w.attempted statements)).within.hoistFunctions (earlier ++ t :: later)))
  | case {discriminant : Expr} {earlierCases laterCases : List Case} {test : Option Expr}
      {earlier later : List Stmt} {t : Stmt} :
    Descends w (.switch discriminant (earlierCases ++ .mk test (earlier ++ t :: later) :: laterCases)) t
      (visitStmts earlier (visitOption test (visitCases earlierCases
        ((earlierCases ++ .mk test (earlier ++ t :: later) :: laterCases).foldl (fun w c => w.hoistFunctions c.body)
          (visitExpr discriminant w).within))))

/-- From the state `start`, the walk over a program comes to a statement outside of all functions. -/
inductive Reaches (start : Walk) (program : List Stmt) : Stmt → Walk → Prop
  | top {earlier later : List Stmt} {s : Stmt} : program = earlier ++ s :: later →
    Reaches start program s (visitStmts earlier (start.within.hoistFunctions program))
  | inside {s t : Stmt} {u v : Walk} : Reaches start program s u → u.Descends s t v → Reaches start program t v

variable {start w u : Walk} {program : List Stmt} {s t : Stmt}

/-- The walk over a statement comes to each statement that stands directly inside of it. -/
theorem exists_descends {place : Place} {nodes : List Node} (inside : s.Inside place nodes t) (w : Walk) :
    ∃ u, w.Descends s t u := by
  cases inside with
  | block => exact ⟨_, .block⟩
  | consequent => exact ⟨_, .consequent⟩
  | alternate => exact ⟨_, .alternate⟩
  | whileLoop => exact ⟨_, .whileLoop⟩
  | doWhile => exact ⟨_, .doWhile⟩
  | forLoop => exact ⟨_, .forLoop⟩
  | forEach => exact ⟨_, .forEach⟩
  | attempted => exact ⟨_, .attempted⟩
  | handled => exact ⟨_, .handled⟩
  | final => exact ⟨_, .final⟩
  | case => exact ⟨_, .case⟩

/-- The walk over a program comes to each statement that stands in it. -/
theorem exists_reaches (start : Walk) {place : Place} {before : List Node} (stands : Stands program place before s) :
    ∃ u, Reaches start program s u := by
  induction stands with
  | top split => exact ⟨_, .top split⟩
  | inside _ inside ih =>
    obtain ⟨u, reaches⟩ := ih
    obtain ⟨v, descends⟩ := exists_descends inside u
    exact ⟨v, .inside reaches descends⟩

/-! ## What is kept -/

theorem IsVisit.block (earlier statements : List Stmt) :
    IsVisit (fun _ => True) fun w => visitStmts earlier (w.hoistFunctions statements) :=
  (IsVisit.hoistFunctions statements).next (visitStmts_isVisit earlier)

theorem IsVisit.catching (param : Option String) : IsVisit (fun _ => True) fun w => w.catching param := by
  cases param with
  | none => exact .stay
  | some name => exact .declare name

theorem IsVisit.attempted (statements : List Stmt) : IsVisit (fun _ => True) fun w => w.attempted statements :=
  .inScope false (.block statements statements)

/-- A statement inside of one that is outside of all functions is outside as well. -/
theorem Descends.outside (descends : w.Descends s t u) (outside : w.scopes.inFunction = false) :
    u.scopes.inFunction = false := by
  have inside : w.within.scopes.inFunction = false := within_outside outside
  cases descends with
  | block | attempted => exact ((IsVisit.block _ _).inFunction w.within).trans inside
  | consequent | whileLoop => exact ((visitExpr_isVisit _).inFunction w).trans outside
  | alternate => exact (((visitExpr_isVisit _).next (visitStmt_isVisit _)).inFunction w).trans outside
  | doWhile => exact outside
  | @forLoop init test update t =>
    have head := ((visitInit_isVisit init).next (visitOption_isVisit test)).next (visitOption_isVisit update)
    exact (head.inFunction w.within).trans inside
  | @forEach visits kind pattern object t =>
    have entered := within_outside (((visitExpr_isVisit object).inFunction w).trans outside)
    exact (((IsVisit.loopHead _ fun _ _ _ => trivial).next (visitDefaults_isVisit _)).inFunction _).trans entered
  | @handled statements earlier later t param finalizer =>
    have entered := within_outside (((IsVisit.attempted statements).inFunction w).trans outside)
    exact (((IsVisit.catching _).next (.block _ _)).inFunction _).trans entered
  | @final statements earlier later t handler =>
    have tried := (IsVisit.attempted statements).next (visitHandler_isVisit handler)
    exact ((IsVisit.block _ _).inFunction _).trans (within_outside ((tried.inFunction w).trans outside))
  | @case discriminant earlierCases laterCases test earlier later t =>
    have entered := within_outside (((visitExpr_isVisit discriminant).inFunction w).trans outside)
    have before := (IsVisit.hoistCases (earlierCases ++ .mk test (earlier ++ t :: later) :: laterCases)).next
      (visitCases_isVisit earlierCases)
    have there := (before.next (visitOption_isVisit test)).next (visitStmts_isVisit earlier)
    exact (there.inFunction _).trans entered

/-- After a statement of a list, the rest of the list is walked. -/
theorem keeps_listed (earlier later : List Stmt) (t : Stmt) (v : Walk) :
    (visitStmt t (visitStmts earlier v)).found.Keeps (visitStmts (earlier ++ t :: later) v).found := by
  rw [visitStmts_append]
  exact (visitStmts_isVisit later).keeps _

/-- What the walk over an inner statement has found is still there after the outer one. -/
theorem Descends.keeps (descends : w.Descends s t u) : (visitStmt t u).found.Keeps (visitStmt s w).found := by
  cases descends with
  | block => exact keeps_listed ..
  | @consequent test t alternate => exact (visitStmtOption_isVisit alternate).keeps _
  | alternate | whileLoop | forLoop | forEach => exact .refl _
  | @doWhile test t => exact (visitExpr_isVisit test).keeps _
  | @attempted earlier later t handler finalizer =>
    refine (keeps_listed earlier later t _).trans ?_
    exact ((visitHandler_isVisit handler).next (visitFinalizer_isVisit finalizer)).keeps (w.attempted _)
  | @handled statements earlier later t param finalizer =>
    refine (keeps_listed earlier later t _).trans ?_
    have rest := (visitFinalizer_isVisit finalizer).keeps
      (visitHandler (some (.mk param (earlier ++ t :: later))) (w.attempted statements))
    cases param <;> exact rest
  | final => exact keeps_listed ..
  | @case discriminant earlierCases laterCases test earlier later t =>
    refine (keeps_listed earlier later t _).trans ?_
    show Resolution.Keeps _ (visitCases (earlierCases ++ _) _).found
    rw [visitCases_append]
    exact (visitCases_isVisit laterCases).keeps _

theorem Reaches.outside (reaches : start.Reaches program s u) (outside : start.scopes.inFunction = false) :
    u.scopes.inFunction = false := by
  induction reaches with
  | top => exact ((IsVisit.block _ _).inFunction start.within).trans (within_outside outside)
  | inside _ descends ih => exact descends.outside ih

theorem Reaches.keeps (reaches : start.Reaches program s u) : (visitStmt s u).found.Keeps
    (start.inScope false fun w => visitStmts program (w.hoistFunctions program)).found := by
  induction reaches with
  | @top earlier later s split =>
    subst split
    exact keeps_listed ..
  | inside _ descends ih => exact descends.keeps.trans ih

/-! ## Declarations -/

/-- A top-level declaration stands at a statement that is walked from `w`: its names, the visit of its initializer or
body, and the state from which that is visited. -/
inductive Declaring (w : Walk) : Stmt → List String → (Walk → Walk) → Walk → Prop
  | function {name : String} {definition : Function} :
    Declaring w (.function name definition) [name] (visitFunction definition) w
  | var {earlier later : List Declarator} {pattern : Pattern} {init : Option Expr} :
    Declaring w (.declare .var (earlier ++ .mk pattern init :: later)) pattern.boundNames
      (fun v => visitOption init (visitDefaults pattern v))
      (pattern.boundNames.foldl Walk.noteVar (visitDeclarators .var earlier w))
  | loopVar {earlier later : List Declarator} {pattern : Pattern} {init : Option Expr} {test update : Option Expr}
      {body : Stmt} :
    Declaring w (.forLoop (.declare .var (earlier ++ .mk pattern init :: later)) test update body) pattern.boundNames
      (fun v => visitOption init (visitDefaults pattern v))
      (pattern.boundNames.foldl Walk.noteVar (visitDeclarators .var earlier w.within))

theorem visitDeclarators_append (kind : DeclKind) (earlier later : List Declarator) (w : Walk) :
    visitDeclarators kind (earlier ++ later) w = visitDeclarators kind later (visitDeclarators kind earlier w) := by
  induction earlier generalizing w with
  | nil => rfl
  | cons d rest ih =>
    obtain ⟨pattern, init⟩ := d
    simp only [List.cons_append, visitDeclarators]
    exact ih _

/-- The initializer of a declarator that declares top-level names is visited, and so are the declarators after it. -/
theorem keeps_declarator {earlier later : List Declarator} {pattern : Pattern} {init : Option Expr}
    (outside : w.scopes.inFunction = false) :
    ((pattern.boundNames.foldl Walk.noteVar (visitDeclarators .var earlier w)).collectFor pattern.boundNames
      fun v => visitOption init (visitDefaults pattern v)).found.Keeps
        (visitDeclarators .var (earlier ++ .mk pattern init :: later) w).found := by
  have there := ((visitDeclarators_isVisit .var earlier).inFunction w).trans outside
  rw [visitDeclarators_append]
  conv => rhs; unfold visitDeclarators
  dsimp only
  rw [if_pos (by simp [there])]
  exact (visitDeclarators_isVisit .var later).keeps _

/-- What is collected for a declaration is still there after the statement that it stands at. -/
theorem Declaring.keeps {names : List String} {visit : Walk → Walk} (declaring : w.Declaring s names visit u)
    (outside : w.scopes.inFunction = false) :
    IsVisit (fun _ => True) visit ∧ (u.collectFor names visit).found.Keeps (visitStmt s w).found := by
  cases declaring with
  | @function name definition =>
    refine ⟨visitFunction_isVisit definition, ?_⟩
    unfold visitStmt
    rw [outside]
    exact .refl _
  | var => exact ⟨(visitDefaults_isVisit _).next (visitOption_isVisit _), keeps_declarator outside⟩
  | @loopVar earlier later pattern init test update body =>
    refine ⟨(visitDefaults_isVisit _).next (visitOption_isVisit _), ?_⟩
    have rest := ((visitOption_isVisit test).next (visitOption_isVisit update)).next (visitStmt_isVisit body)
    exact (keeps_declarator (within_outside outside)).trans
      (rest.keeps (visitDeclarators .var (earlier ++ .mk pattern init :: later) w.within))

end Walk

/-! ## Resolutions -/

theorem Code.isVisit : ∀ code : Code, Walk.IsVisit (fun _ => True) fun w => match code with
    | .statements body => visitStmts body (w.hoistFunctions body)
    | .expression e => visitExpr e w
  | .statements body => .block body body
  | .expression e => visitExpr_isVisit e

/-- Resolving code on top of what is known keeps it consistent and in its place. All that is recorded while the
initializer or body of a top-level declaration is visited is listed under every name of the declaration. -/
theorem resolve_consistent (apis : TrackedApis) (code : Code) {known : Resolution} (consistent : known.Consistent) :
    (resolve apis code known).Consistent ∧ known.Keeps (resolve apis code known) ∧
      ∀ program s u names visit v, code = .statements program → Walk.Reaches { apis, found := known } program s u →
        u.Declaring s names visit v → ∀ d ∈ v.recorded visit, ∀ name ∈ names,
          ∃ ds, (resolve apis code known).declared.get? name = some ds ∧ d ∈ ds := by
  obtain ⟨log, onward⟩ := (Walk.IsVisit.inScope false code.isVisit).onward { apis, found := known }
  refine ⟨onward.consistent consistent, onward.keeps, ?_⟩
  rintro program s u names visit v rfl reaches declaring d recorded name mem
  obtain ⟨visits, kept⟩ := declaring.keeps (reaches.outside rfl)
  -- it is listed when the declaration has been visited, and nothing that comes after it takes it away
  obtain ⟨ds, there, all⟩ := visits.collected v mem
  obtain ⟨ds', found, goes⟩ := (kept.trans reaches.keeps).declared name ds there
  exact ⟨ds', found, goes.subset (all d recorded)⟩

/-- When `a.b` is known, the initializer and the default of `{ var { x = a.c } = d[k]; }` are listed under `x`. -/
theorem resolve_consistent_block :
    let known : Resolution := { names := [("a", .free)], dependencies := ["a.b"] }
    let declaration : Stmt := .declare .var [.mk
      (.object [.mk "x" (.name "x") (some (.member (.name "a") "c" false))] none)
      (some (.index (.name "d") (.name "k") false))]
    known.Consistent ∧ ∀ d ∈ ["a.c", "d[k]"], ∃ ds,
      (resolve {} (.statements [.block [declaration]]) known).declared.get? "x" = some ds ∧ d ∈ ds := by
  intro known declaration
  have consistent : known.Consistent :=
    { names := by decide
      dependencies := by decide
      declaredNames := by decide
      declared := nofun
      rooted := fun d mem => ⟨"a", List.mem_cons_self, .inr ⟨"b", .inl (List.mem_singleton.1 mem)⟩⟩
      listed := nofun }
  let start : Walk := { apis := {}, found := known }
  let inner : Walk := start.within.hoistFunctions [.block [declaration]]
  have block : start.Reaches [.block [declaration]] (.block [declaration]) (visitStmts [] inner) := .top rfl
  have descends := @Walk.Descends.block inner [] [] declaration
  obtain ⟨-, -, listed⟩ := resolve_consistent {} (.statements [.block [declaration]]) consistent
  refine ⟨consistent, fun d mem => ?_⟩
  exact listed _ _ _ _ _ _ rfl (.inside block descends) (@Walk.Declaring.var _ [] [] _ _) d mem "x" List.mem_cons_self

end BindScript.Dependency
