import BindScript.Proofs.Dependency.FreeNames
import BindScript.Proofs.Syntax.Places

/-!
# Resolving on top of what is known

The walk over a piece of code is made of few steps (`Walk.IsVisit`): a dependency is recorded, a top-level name is
entered, names are declared in the scopes, and parts of the walk go on in a scope of their own or have what they
record collected for a declaration. Which steps these are depends on the scopes and on the tracked methods, but never
on what has been found so far. So what holds of all these steps holds of the walk over every syntax tree
(`visitExpr_mentions`, `visitStmt_mentions` and their family), by induction on `Walk.IsVisit`. A path is recorded only
where all its names are mentioned.

A resolution that starts from what was found before comes to what was known, followed by what is new in a
fresh resolution of the same code (`Resolution.Merges`). The walk does look at what it has found, to see
whether a name is known and what it stands for; but that decides only what is written under the name, never
whether it is entered, nor which dependencies there are. So two walks over the same code, one with and one
without the known part, stay side by side: they have the same scopes and the same open declarations, and the
one has found the known part and then what the other has found (`Walk.Beside`).

As the new part of each piece of code is the same wherever it is resolved, the order of the pieces does not
matter to the sets of what is found.

Theorems:
- `addNew_insertNew`: the algebra behind it; adding one element and adding what is known commute.
- `Walk.IsVisit.beside`: the walks stay side by side.
- `resolve_merges`: the resulting resolutions, and the order of two pieces of code.
-/

namespace BindScript

/-! ## Lists without repetitions -/

/-- The elements of a list, then those of another that are not among them. -/
def addNew (known found : List String) : List String :=
  known ++ found.filter fun x => !known.contains x

theorem mem_addNew {known found : List String} {x : String} :
    x ∈ addNew known found ↔ x ∈ known ∨ x ∈ found := by
  unfold addNew
  rw [List.mem_append, List.mem_filter]
  by_cases mem : x ∈ known <;> simp [mem]

theorem addNew_nil (known : List String) : addNew known [] = known :=
  List.append_nil known

/-- What is added to the found part is added to the whole. -/
theorem addNew_insertNew (known found : List String) (x : String) :
    addNew known (insertNew found x) = insertNew (addNew known found) x := by
  by_cases old : x ∈ addNew known found
  · have stays : insertNew (addNew known found) x = addNew known found := by
      simp [insertNew, old]
    rw [stays]
    unfold insertNew
    split
    · rfl
    · next absent =>
      -- a new element of the found part that changes nothing is a known one
      have present : x ∈ known := (mem_addNew.1 old).resolve_right (by simpa using absent)
      simp [addNew, present]
  · have extends_ : insertNew (addNew known found) x = addNew known found ++ [x] := by
      simp [insertNew, old]
    rw [mem_addNew, not_or] at old
    rw [extends_, insertNew, if_neg (by simpa using old.2)]
    simp [addNew, old.1]

theorem addNew_foldl (known found xs : List String) :
    addNew known (xs.foldl insertNew found) = xs.foldl insertNew (addNew known found) := by
  induction xs generalizing found with
  | nil => rfl
  | cons x rest ih => rw [List.foldl_cons, List.foldl_cons, ih, addNew_insertNew]

/-- From an empty list, only the order of the first sights matters. -/
theorem foldl_insertNew_addNew (known found : List String) :
    found.foldl insertNew known = addNew known (found.foldl insertNew []) := by
  rw [addNew_foldl, addNew_nil]

theorem Entries.keys_insert_eq {α : Type} (m : Entries α) (key : String) (value : α) :
    (m.insert key value).keys = insertNew m.keys key := by
  rw [keys_insert, insertNew]
  by_cases present : m.contains key = true
  · rw [if_pos present, if_pos (by simpa using contains_iff_mem_keys.1 present)]
  · rw [if_neg present, if_neg (by simpa using fun mem => present (contains_iff_mem_keys.2 mem))]

/-- A key that is there is not new. -/
theorem Entries.insertNew_keys {α : Type} {m : Entries α} {key : String} (present : m.contains key = true) :
    insertNew m.keys key = m.keys := by
  rw [insertNew, if_pos (by simpa using contains_iff_mem_keys.1 present)]

/-- A key is written unless it is there. -/
theorem Entries.keys_insert_unless {α : Type} (m : Entries α) (key : String) (value : α) :
    (if m.contains key then m else m.insert key value).keys = insertNew m.keys key := by
  split
  next present => exact (insertNew_keys present).symm
  next => exact keys_insert_eq ..

namespace Dependency

/-! ## Paths -/

/-- The names of a path are mentioned by the chain that folds into it. -/
theorem mentioned_of_fold? {M : String → Prop} {isBound : String → Bool} : ∀ {e : Expr} {path : Path},
    fold? isBound e = some path → e.Obeys (.mentioning M) → ∀ name, path.Mentions name → M name
  | .name root, path, folds, obeys, name, mentioned => by
    obtain rfl := Option.some.inj folds
    rcases mentioned with rfl | mem
    · exact obeys
    · cases mem
  | .member object property _, path, folds, ⟨_, obeys⟩, name, mentioned => by
    obtain ⟨start, isPath, rfl⟩ := Option.map_eq_some_iff.1 folds
    refine mentioned_of_fold? isPath obeys name (mentioned.imp_right fun mem => ?_)
    rwa [keyNames_push_property] at mem
  | .index object key _, path, folds, ⟨_, obeys, ofKey⟩, name, mentioned => by
    obtain ⟨segment, start, isKey, isPath, rfl⟩ := fold?_index folds
    have ofStart := mentioned_of_fold? isPath obeys name
    rcases foldKey?_cases isKey with ⟨l, text, rfl, rfl⟩ | ⟨key, rfl, rfl⟩
    · refine ofStart (mentioned.imp_right fun mem => ?_)
      rwa [keyNames_push_property] at mem
    · rcases mentioned with root | mem
      · exact ofStart (.inl root)
      · rw [keyNames_push_nameKey] at mem
        rcases List.mem_append.1 mem with mem | mem
        · exact ofStart (.inr mem)
        · exact List.mem_singleton.1 mem ▸ ofKey

/-- A dependency is a name, or it goes on from the name with a link. -/
def LeadsFrom (name dependency : String) : Prop :=
  dependency = name ∨ ∃ rest, dependency = name ++ "." ++ rest ∨ dependency = name ++ "[" ++ rest

theorem Path.leadsFrom_text (path : Path) : LeadsFrom path.root path.text := by
  obtain ⟨root, segments⟩ := path
  cases segments with
  | nil => exact .inl (String.append_empty)
  | cons s more =>
    obtain ⟨rest, opens⟩ := s.text_opens
    refine .inr ⟨rest ++ String.join (more.map Segment.text), opens.imp (fun text => ?_) fun text => ?_⟩ <;>
      simp [Path.text, text, String.append_assoc]

/-! ## Steps -/

namespace Walk

variable {w : Walk}

/-- A walk goes on with a name entered, whatever it stands for. -/
def Enters (w : Walk) (name : String) (v : Walk) : Prop :=
  ∃ names, v = { w with found := { w.found with names } } ∧ names.keys = insertNew w.found.names.keys name

theorem enters_setName (w : Walk) (name : String) (kind : TopLevelName) : Enters w name (w.setName name kind) :=
  ⟨_, rfl, Entries.keys_insert_eq ..⟩

/-- A name that is known is entered already. -/
theorem enters_known {name : String} (known : w.found.names.contains name = true) : Enters w name w :=
  ⟨w.found.names, rfl, (Entries.insertNew_keys known).symm⟩

theorem enters_noteVar (w : Walk) (name : String) : Enters w name (w.noteVar name) := by
  unfold noteVar
  split
  next found =>
    refine enters_known ?_
    rw [Entries.contains_eq_isSome, found]
    rfl
  next => exact enters_setName ..

theorem enters_noteLoopVar (w : Walk) (name : String) : Enters w name (w.noteLoopVar name) := by
  unfold noteLoopVar
  split
  next known => exact enters_known known
  next => exact enters_setName ..

/-- Walks over the names in the head of a loop over a collection. -/
def loopHead (kind : Option DeclKind) (names : List String) (w : Walk) : Walk :=
  match kind with
  | some kind =>
    if kind == .var && !w.scopes.inFunction then names.foldl Walk.noteLoopVar w
    else w.declareNames kind names
  | none => names.foldl Walk.useName w

/-- What the walk over a piece of code does that mentions no more than some names. -/
inductive IsVisit (M : String → Prop) : (Walk → Walk) → Prop
  | stay : IsVisit M fun w => w
  | next {first later : Walk → Walk} : IsVisit M first → IsVisit M later → IsVisit M fun w => later (first w)
  | given (visit : TrackedApis → Scopes → Walk → Walk) : (∀ apis scopes, IsVisit M (visit apis scopes)) →
    IsVisit M fun w => visit w.apis w.scopes w
  | record (path : Path) : (∀ name, path.Mentions name → M name) →
    IsVisit M fun w => w.addDependency path.root path.text
  | enter {name : String} {step : Walk → Walk} : (∀ w, Enters w name (step w)) → IsVisit M step
  | rescope {change : Scopes → Scopes} :
    (∀ scopes, (change scopes).map (fun s => s.isFunction) = scopes.map fun s => s.isFunction) →
    IsVisit M fun w => { w with scopes := change w.scopes }
  | inScope {visit : Walk → Walk} (isFunction : Bool) : IsVisit M visit → IsVisit M fun w => w.inScope isFunction visit
  | collectFor {visit : Walk → Walk} (names : List String) : IsVisit M visit →
    IsVisit M fun w => w.collectFor names visit

namespace IsVisit

variable {M : String → Prop} {visit visit' : Walk → Walk}

theorem ite {c : Prop} [Decidable c] (yes : IsVisit M visit) (no : IsVisit M visit') :
    IsVisit M fun w => if c then visit w else visit' w := by
  by_cases holds : c
  · simpa only [if_pos holds] using yes
  · simpa only [if_neg holds] using no

theorem foldl {α : Type} {step : Walk → α → Walk} :
    ∀ items : List α, (∀ a ∈ items, IsVisit M fun w => step w a) → IsVisit M fun w => items.foldl step w
  | [], _ => .stay
  | a :: rest, each => (each a List.mem_cons_self).next (foldl rest fun a mem => each a (List.mem_cons_of_mem _ mem))

theorem useName {name : String} (named : M name) : IsVisit M fun w => w.useName name := by
  have record : IsVisit M fun w => w.addDependency name ({ root := name } : Path).text :=
    .record { root := name } fun _ mentions => mentions.elim (· ▸ named) nofun
  have text : ({ root := name } : Path).text = name := by simp [Path.text]
  rw [text] at record
  exact .given (fun _ scopes w => if scopes.isBound name then w else w.addDependency name name)
    fun _ _ => ite .stay record

theorem useNames {names : List String} (named : ∀ name ∈ names, M name) :
    IsVisit M fun w => names.foldl Walk.useName w :=
  foldl names fun name mem => useName (named name mem)

theorem useKeyNames {path : Path} (named : ∀ name, path.Mentions name → M name) :
    IsVisit M fun w => w.useKeyNames path :=
  useNames fun name key => named name (.inr key)

theorem usePath {path : Path} (named : ∀ name, path.Mentions name → M name) : IsVisit M fun w => w.usePath path :=
  .given (fun _ scopes w =>
      if scopes.isBound path.root then w.useKeyNames path else w.addDependency path.root path.text)
    fun _ _ => ite (useKeyNames named) (.record path named)

/-- A chain is read as the path that it stands for, or part by part if it stands for none. -/
theorem chain {e : Expr} (obeys : e.Obeys (.mentioning M)) (parts : IsVisit M visit) :
    IsVisit M fun w => match w.fold? e with
      | some path => w.usePath path
      | none => visit w := by
  refine .given (fun _ scopes w => match Dependency.fold? scopes.isBound e with
    | some path => w.usePath path
    | none => visit w) fun _ scopes => ?_
  cases folds : Dependency.fold? scopes.isBound e with
  | some path => exact usePath (mentioned_of_fold? folds obeys)
  | none => exact parts

/-- A callee depends on its root, unless the calls of the method are tracked. -/
theorem called {callee : Expr} (obeys : callee.Obeys (.mentioning M)) (parts : IsVisit M visit) :
    IsVisit M fun w => match w.fold? callee with
      | none => visit w
      | some path =>
        let tracked := match path.segments with
          | [.property method] => w.apis.tracks path.root method
          | _ => false
        if tracked then w.usePath path else (w.useName path.root).useKeyNames path := by
  refine .given (fun (apis : TrackedApis) (scopes : Scopes) (w : Walk) =>
    match Dependency.fold? scopes.isBound callee with
    | none => visit w
    | some path =>
      let tracked := match path.segments with
        | [.property method] => apis.tracks path.root method
        | _ => false
      if tracked then w.usePath path else (w.useName path.root).useKeyNames path) fun apis scopes => ?_
  cases folds : Dependency.fold? scopes.isBound callee with
  | none => exact parts
  | some path =>
    have named := mentioned_of_fold? folds obeys
    exact ite (usePath named) ((useName (named _ (.inl rfl))).next (useKeyNames named))

theorem declare (name : String) : IsVisit M fun w => w.declare name :=
  .rescope (Scopes.marks_declare name)

theorem declareNames (kind : DeclKind) (names : List String) : IsVisit M fun w => w.declareNames kind names := by
  refine foldl names fun name _ => ?_
  cases kind with
  | var => exact .rescope (Scopes.marks_declareInFunction name)
  | «let» | const => exact declare name

theorem hoistFunctions (statements : List Stmt) : IsVisit M fun w => w.hoistFunctions statements := by
  refine foldl statements fun s _ => ?_
  cases s with
  | function name definition =>
    exact .given (fun _ scopes w =>
        if scopes.inFunction then w.declare name else w.setName name (.function definition))
      fun _ _ => ite (declare name) (.enter fun w => enters_setName w name _)
  | _ => exact .stay

/-- A declaration by `var` outside of functions, or any other declaration. -/
theorem declaration (kind : DeclKind) (visits : IsVisit M visit) (others : IsVisit M visit') :
    IsVisit M fun w => if kind == .var && !w.scopes.inFunction then visit w else visit' w :=
  .given (fun _ scopes w => if kind == .var && !scopes.inFunction then visit w else visit' w)
    fun _ _ => ite visits others

theorem loopHead (kind : Option DeclKind) {names : List String} (named : kind = none → ∀ name ∈ names, M name) :
    IsVisit M (Walk.loopHead kind names) := by
  cases kind with
  | none => exact useNames (named rfl)
  | some kind =>
    have notes := foldl names fun name _ => .enter (M := M) fun w => enters_noteLoopVar w name
    exact declaration kind notes (declareNames kind names)

theorem hoistCases (cases : List Case) : IsVisit M fun w => cases.foldl (fun w c => w.hoistFunctions c.body) w :=
  foldl cases fun c _ => hoistFunctions c.body

end IsVisit

end Walk

open Walk (IsVisit)

/-! ## The walk over a tree -/

section Trees

variable {M : String → Prop}

mutual

/-- The walk over a tree is made of those steps, and mentions the names that the tree does. -/
theorem visitExpr_mentions : ∀ e : Expr, e.Obeys (.mentioning M) → IsVisit M (visitExpr e)
  | .name _, obeys => .useName obeys
  | .literal _, _ => .stay
  | .template parts, ⟨_, obeys⟩ => visitParts_mentions parts obeys
  | .unary _ operand, ⟨_, obeys⟩ => visitExpr_mentions operand obeys
  | .update _ _ operand, ⟨_, obeys⟩ => visitExpr_mentions operand obeys
  | .binary _ left right, ⟨_, ofLeft, ofRight⟩ =>
    (visitExpr_mentions left ofLeft).next (visitExpr_mentions right ofRight)
  | .conditional test consequent alternate, ⟨_, ofTest, ofConsequent, ofAlternate⟩ =>
    ((visitExpr_mentions test ofTest).next (visitExpr_mentions consequent ofConsequent)).next
      (visitExpr_mentions alternate ofAlternate)
  | .sequence items, ⟨_, obeys⟩ => visitExprs_mentions items obeys
  | .array items, ⟨_, obeys⟩ => visitExprs_mentions items obeys
  | .object properties, ⟨_, obeys⟩ => visitProperties_mentions properties obeys
  | .spread inner, ⟨_, obeys⟩ => visitExpr_mentions inner obeys
  | .member object _ _, ⟨own, obeys⟩ => .chain ⟨own, obeys⟩ (visitExpr_mentions object obeys)
  | .index object key _, ⟨own, ofObject, ofKey⟩ =>
    .chain ⟨own, ofObject, ofKey⟩ ((visitExpr_mentions object ofObject).next (visitExpr_mentions key ofKey))
  | .call callee args _, ⟨_, ofCallee, ofArgs⟩ =>
    (IsVisit.called ofCallee (visitExpr_mentions callee ofCallee)).next (visitExprs_mentions args ofArgs)
  | .assign _ target value, ⟨_, ofTarget, ofValue⟩ =>
    (visitExpr_mentions target ofTarget).next (visitExpr_mentions value ofValue)
  | .function definition, ⟨_, obeys⟩ => visitFunction_mentions definition obeys

theorem visitExprs_mentions : ∀ es : List Expr, Expr.AllObey (.mentioning M) es → IsVisit M (visitExprs es)
  | [], _ => .stay
  | e :: rest, ⟨own, others⟩ => (visitExpr_mentions e own).next (visitExprs_mentions rest others)

theorem visitOption_mentions : ∀ e : Option Expr, Expr.OptionObeys (.mentioning M) e → IsVisit M (visitOption e)
  | none, _ => .stay
  | some e, obeys => visitExpr_mentions e obeys

theorem visitParts_mentions : ∀ parts : List TemplatePart, TemplatePart.AllObey (.mentioning M) parts →
    IsVisit M (visitParts parts)
  | [], _ => .stay
  | .text _ :: rest, others => visitParts_mentions rest others
  | .hole e :: rest, ⟨own, others⟩ => (visitExpr_mentions e own).next (visitParts_mentions rest others)

theorem visitProperties_mentions : ∀ properties : List Property, Property.AllObey (.mentioning M) properties →
    IsVisit M (visitProperties properties)
  | [], _ => .stay
  | .named _ value :: rest, ⟨own, others⟩ => (visitExpr_mentions value own).next (visitProperties_mentions rest others)
  | .computed key value :: rest, ⟨⟨ofKey, ofValue⟩, others⟩ =>
    ((visitExpr_mentions key ofKey).next (visitExpr_mentions value ofValue)).next (visitProperties_mentions rest others)
  | .spread source :: rest, ⟨own, others⟩ => (visitExpr_mentions source own).next (visitProperties_mentions rest others)

theorem visitFunction_mentions : ∀ f : Function, f.Obeys (.mentioning M) → IsVisit M (visitFunction f)
  | .mk params _ body, ⟨ofParams, _, ofBody⟩ =>
    .inScope true (((IsVisit.foldl _ fun name _ => .declare name).next (visitParams_mentions params ofParams)).next
      (visitBody_mentions body ofBody))

theorem visitParams_mentions : ∀ params : List Element, Element.AllObey (.mentioning M) params →
    IsVisit M (visitParams params)
  | [], _ => .stay
  | .mk target default :: rest, ⟨⟨ofTarget, ofDefault⟩, others⟩ =>
    ((visitDefaults_mentions target ofTarget).next (visitOption_mentions default ofDefault)).next
      (visitParams_mentions rest others)

theorem visitBody_mentions : ∀ body : Body, body.Obeys (.mentioning M) → IsVisit M (visitBody body)
  | .expr e, obeys => visitExpr_mentions e obeys
  | .block statements, obeys => (IsVisit.hoistFunctions statements).next (visitStmts_mentions statements obeys)

theorem visitDefaults_mentions : ∀ p : Pattern, p.Obeys (.mentioning M) → IsVisit M (visitDefaults p)
  | .name _, _ => .stay
  | .array elements rest, ⟨_, ofElements, ofRest⟩ =>
    (visitElements_mentions elements ofElements).next (visitRest_mentions rest ofRest)
  | .object fields _, ⟨_, obeys⟩ => visitFields_mentions fields obeys

theorem visitElements_mentions : ∀ elements : List (Option Element), Pattern.ElementsObey (.mentioning M) elements →
    IsVisit M (visitElements elements)
  | [], _ => .stay
  | none :: rest, others => visitElements_mentions rest others
  | some (.mk target default) :: rest, ⟨⟨ofTarget, ofDefault⟩, others⟩ =>
    ((visitDefaults_mentions target ofTarget).next (visitOption_mentions default ofDefault)).next
      (visitElements_mentions rest others)

theorem visitRest_mentions : ∀ rest : Option Pattern, Pattern.OptionObeys (.mentioning M) rest →
    IsVisit M (visitRest rest)
  | none, _ => .stay
  | some p, obeys => visitDefaults_mentions p obeys

theorem visitFields_mentions : ∀ fields : List Field, Field.AllObey (.mentioning M) fields →
    IsVisit M (visitFields fields)
  | [], _ => .stay
  | .mk _ target default :: rest, ⟨⟨ofTarget, ofDefault⟩, others⟩ =>
    ((visitDefaults_mentions target ofTarget).next (visitOption_mentions default ofDefault)).next
      (visitFields_mentions rest others)

/-- By recursion on the statement, as for expressions. -/
theorem visitStmt_mentions : ∀ s : Stmt, s.Obeys (.mentioning M) → IsVisit M (visitStmt s)
  | .empty, _ => .stay
  | .brk, _ => .stay
  | .cont, _ => .stay
  | .expr e, ⟨_, obeys⟩ => visitExpr_mentions e obeys
  | .throw e, ⟨_, obeys⟩ => visitExpr_mentions e obeys
  | .ret e, ⟨_, obeys⟩ => visitOption_mentions e obeys
  | .block statements, ⟨_, obeys⟩ =>
    .inScope false ((IsVisit.hoistFunctions statements).next (visitStmts_mentions statements obeys))
  | .declare kind declarators, ⟨_, obeys⟩ => visitDeclarators_mentions kind declarators obeys
  | .branch test consequent alternate, ⟨_, ofTest, ofConsequent, ofAlternate⟩ =>
    ((visitExpr_mentions test ofTest).next (visitStmt_mentions consequent ofConsequent)).next
      (visitStmtOption_mentions alternate ofAlternate)
  | .whileLoop test body, ⟨_, ofTest, ofBody⟩ => (visitExpr_mentions test ofTest).next (visitStmt_mentions body ofBody)
  | .doWhile body test, ⟨_, ofTest, ofBody⟩ => (visitStmt_mentions body ofBody).next (visitExpr_mentions test ofTest)
  | .forLoop init test update body, ⟨_, ofInit, ofTest, ofUpdate, ofBody⟩ =>
    .inScope false ((((visitInit_mentions init ofInit).next (visitOption_mentions test ofTest)).next
      (visitOption_mentions update ofUpdate)).next (visitStmt_mentions body ofBody))
  | .forEach _ kind pattern object body, ⟨own, ofPattern, ofObject, ofBody⟩ =>
    have head : IsVisit M (Walk.loopHead kind pattern.boundNames) := .loopHead kind (by
      rintro rfl
      exact own)
    (visitExpr_mentions object ofObject).next
      (.inScope false ((head.next (visitDefaults_mentions pattern ofPattern)).next (visitStmt_mentions body ofBody)))
  | .attempt statements handler finalizer, ⟨_, ofStatements, ofHandler, ofFinalizer⟩ =>
    ((IsVisit.inScope false ((IsVisit.hoistFunctions statements).next
      (visitStmts_mentions statements ofStatements))).next
      (visitHandler_mentions handler ofHandler)).next (visitFinalizer_mentions finalizer ofFinalizer)
  | .switch discriminant cases, ⟨_, ofDiscriminant, ofCases⟩ =>
    (visitExpr_mentions discriminant ofDiscriminant).next (.inScope false
      ((IsVisit.hoistCases cases).next (visitCases_mentions cases ofCases)))
  | .function name definition, ⟨_, obeys⟩ =>
    .given (fun _ scopes w => if scopes.inFunction then visitFunction definition w
        else w.collectFor [name] fun w => visitFunction definition w)
      fun _ _ => .ite (visitFunction_mentions definition obeys)
        (.collectFor [name] (visitFunction_mentions definition obeys))

theorem visitStmts_mentions : ∀ statements : List Stmt, Stmt.AllObey (.mentioning M) statements →
    IsVisit M (visitStmts statements)
  | [], _ => .stay
  | s :: rest, ⟨own, others⟩ => (visitStmt_mentions s own).next (visitStmts_mentions rest others)

theorem visitStmtOption_mentions : ∀ s : Option Stmt, Stmt.OptionObeys (.mentioning M) s →
    IsVisit M (visitStmtOption s)
  | none, _ => .stay
  | some s, obeys => visitStmt_mentions s obeys

theorem visitDeclarators_mentions (kind : DeclKind) : ∀ declarators : List Declarator,
    Declarator.AllObey (.mentioning M) declarators → IsVisit M (visitDeclarators kind declarators)
  | [], _ => .stay
  | .mk pattern init :: rest, ⟨⟨ofPattern, ofInit⟩, others⟩ =>
    have visits := (visitDefaults_mentions pattern ofPattern).next (visitOption_mentions init ofInit)
    have notes := IsVisit.foldl pattern.boundNames fun name _ => .enter fun w => Walk.enters_noteVar w name
    (IsVisit.declaration kind (notes.next (.collectFor _ visits)) ((IsVisit.declareNames kind _).next visits)).next
      (visitDeclarators_mentions kind rest others)

theorem visitInit_mentions : ∀ init : ForInit, init.Obeys (.mentioning M) → IsVisit M (visitInit init)
  | .none, _ => .stay
  | .declare kind declarators, obeys => visitDeclarators_mentions kind declarators obeys
  | .expr e, obeys => visitExpr_mentions e obeys

theorem visitHandler_mentions : ∀ handler : Option Handler, Handler.OptionObeys (.mentioning M) handler →
    IsVisit M (visitHandler handler)
  | none, _ => .stay
  | some (.mk none body), obeys =>
    .inScope false ((IsVisit.hoistFunctions body).next (visitStmts_mentions body obeys))
  | some (.mk (some name) body), obeys =>
    .inScope false (((IsVisit.declare name).next (.hoistFunctions body)).next (visitStmts_mentions body obeys))

theorem visitFinalizer_mentions : ∀ finalizer : Option (List Stmt), Stmt.FinalizerObeys (.mentioning M) finalizer →
    IsVisit M (visitFinalizer finalizer)
  | none, _ => .stay
  | some statements, obeys =>
    .inScope false ((IsVisit.hoistFunctions statements).next (visitStmts_mentions statements obeys))

theorem visitCases_mentions : ∀ cases : List Case, Case.AllObey (.mentioning M) cases → IsVisit M (visitCases cases)
  | [], _ => .stay
  | .mk test body :: rest, ⟨⟨ofTest, ofBody⟩, others⟩ =>
    ((visitOption_mentions test ofTest).next (visitStmts_mentions body ofBody)).next (visitCases_mentions rest others)

end

end Trees

/-! Code in which any names are mentioned. -/

theorem visitExpr_isVisit (e : Expr) : IsVisit (fun _ => True) (visitExpr e) :=
  visitExpr_mentions e (Node.obeys_anything (.expr e))

theorem visitOption_isVisit (e : Option Expr) : IsVisit (fun _ => True) (visitOption e) :=
  visitOption_mentions e (Node.obeys_anything (.stmt (.ret e))).2

theorem visitFunction_isVisit (f : Function) : IsVisit (fun _ => True) (visitFunction f) :=
  visitFunction_mentions f (Node.obeys_anything (.expr (.function f))).2

theorem visitDefaults_isVisit (p : Pattern) : IsVisit (fun _ => True) (visitDefaults p) :=
  visitDefaults_mentions p (Node.obeys_anything (.pattern p))

theorem visitStmt_isVisit (s : Stmt) : IsVisit (fun _ => True) (visitStmt s) :=
  visitStmt_mentions s (Node.obeys_anything (.stmt s))

theorem visitStmts_isVisit (statements : List Stmt) : IsVisit (fun _ => True) (visitStmts statements) :=
  visitStmts_mentions statements (Node.obeys_anything (.stmt (.block statements))).2

theorem visitStmtOption_isVisit (s : Option Stmt) : IsVisit (fun _ => True) (visitStmtOption s) :=
  visitStmtOption_mentions s (Node.obeys_anything (.stmt (.branch (.name "") .empty s))).2.2.2

theorem visitDeclarators_isVisit (kind : DeclKind) (declarators : List Declarator) :
    IsVisit (fun _ => True) (visitDeclarators kind declarators) :=
  visitDeclarators_mentions kind declarators (Node.obeys_anything (.stmt (.declare kind declarators))).2

theorem visitInit_isVisit (init : ForInit) : IsVisit (fun _ => True) (visitInit init) :=
  visitInit_mentions init (Node.obeys_anything (.stmt (.forLoop init none none .empty))).2.1

theorem visitHandler_isVisit (handler : Option Handler) : IsVisit (fun _ => True) (visitHandler handler) :=
  visitHandler_mentions handler (Node.obeys_anything (.stmt (.attempt [] handler none))).2.2.1

theorem visitFinalizer_isVisit (finalizer : Option (List Stmt)) :
    IsVisit (fun _ => True) (visitFinalizer finalizer) :=
  visitFinalizer_mentions finalizer (Node.obeys_anything (.stmt (.attempt [] none finalizer))).2.2.2

theorem visitCases_isVisit (cases : List Case) : IsVisit (fun _ => True) (visitCases cases) :=
  visitCases_mentions cases (Node.obeys_anything (.stmt (.switch (.name "") cases))).2.2

/-! ## Side by side -/

/-- A resolution has found what was known, and then what is new in a fresh one. -/
structure Resolution.Merges (known fresh whole : Resolution) : Prop where
  dependencies : whole.dependencies = addNew known.dependencies fresh.dependencies
  declared : ∀ name, whole.declared.get? name =
    Option.merge addNew (known.declared.get? name) (fresh.declared.get? name)
  declaredNames : whole.declared.keys = addNew known.declared.keys fresh.declared.keys
  names : whole.names.keys = addNew known.names.keys fresh.names.keys

/-- Two walks at the same place, the second of which knew something before. -/
structure Walk.Beside (known : Resolution) (w w' : Walk) : Prop where
  apis : w'.apis = w.apis
  scopes : w'.scopes = w.scopes
  sinks : w'.sinks = w.sinks
  found : known.Merges w.found w'.found

/-! ## Steps of the walk -/

namespace Walk.Beside

variable {known : Resolution} {w w' v v' : Walk}

/-- The two walks may enter a name as different things. -/
theorem enter (beside : w.Beside known w') {name : String} (enters : Enters w name v)
    (enters' : Enters w' name v') : v.Beside known v' := by
  obtain ⟨names, rfl, keys⟩ := enters
  obtain ⟨names', rfl, keys'⟩ := enters'
  refine ⟨beside.apis, beside.scopes, beside.sinks, ⟨beside.found.dependencies, beside.found.declared,
    beside.found.declaredNames, ?_⟩⟩
  rw [keys, keys', beside.found.names, addNew_insertNew]

theorem rescope (beside : w.Beside known w') (change : Scopes → Scopes) :
    Beside known { w with scopes := change w.scopes } { w' with scopes := change w'.scopes } :=
  ⟨beside.apis, congrArg change beside.scopes, beside.sinks, beside.found⟩

theorem addDependency (beside : w.Beside known w') (root dependency : String) :
    (w.addDependency root dependency).Beside known (w'.addDependency root dependency) := by
  have enters : ∀ w : Walk, Enters w root { w with found := { w.found with
      names := if w.found.names.contains root then w.found.names else w.found.names.insert root .free } } :=
    fun w => ⟨_, rfl, Entries.keys_insert_unless ..⟩
  have named := beside.enter (enters w) (enters w')
  refine ⟨beside.apis, beside.scopes, ?_, ⟨?_, beside.found.declared, beside.found.declaredNames,
    named.found.names⟩⟩
  · show w'.sinks.map _ = w.sinks.map _
    rw [beside.sinks]
  · show insertNew w'.found.dependencies dependency = _
    rw [beside.found.dependencies, ← addNew_insertNew]
    rfl

theorem inScope (beside : w.Beside known w') (isFunction : Bool) {visit : Walk → Walk}
    (keeps : ∀ {w w' : Walk}, w.Beside known w' → (visit w).Beside known (visit w')) :
    (w.inScope isFunction visit).Beside known (w'.inScope isFunction visit) :=
  (keeps (beside.rescope ({ isFunction } :: ·))).rescope (List.drop 1)

/-- What is recorded under names is merged name by name. -/
theorem declared_foldl (found : List String) {fresh whole known : Entries (List String)}
    (lists : ∀ name, whole.get? name = Option.merge addNew (known.get? name) (fresh.get? name))
    (keys : whole.keys = addNew known.keys fresh.keys) (names : List String) :
    let record := fun (declared : Entries (List String)) (name : String) =>
      declared.alter name [] (found.foldl insertNew ·)
    (∀ name, (names.foldl record whole).get? name =
        Option.merge addNew (known.get? name) ((names.foldl record fresh).get? name)) ∧
      (names.foldl record whole).keys = addNew known.keys (names.foldl record fresh).keys := by
  intro record
  induction names generalizing fresh whole with
  | nil => exact ⟨lists, keys⟩
  | cons first rest ih =>
    refine ih (fun name => ?_) ?_
    · by_cases same : name = first
      · subst same
        show (Entries.insert ..).get? name = Option.merge addNew _ ((Entries.insert ..).get? name)
        rw [Entries.get?_insert_self, Entries.get?_insert_self, lists]
        cases known.get? name with
        | none => cases fresh.get? name <;> rfl
        | some old =>
          cases fresh.get? name with
          | none => exact congrArg some (foldl_insertNew_addNew old found)
          | some new => exact congrArg some (addNew_foldl old new found).symm
      · show (Entries.insert ..).get? name = Option.merge addNew _ ((Entries.insert ..).get? name)
        rw [Entries.get?_insert_of_ne same, Entries.get?_insert_of_ne same]
        exact lists name
    · show (Entries.insert ..).keys = addNew _ (Entries.insert ..).keys
      rw [Entries.keys_insert_eq, Entries.keys_insert_eq, keys, addNew_insertNew]

theorem collectFor (beside : w.Beside known w') (names : List String) {visit : Walk → Walk}
    (keeps : ∀ {w w' : Walk}, w.Beside known w' → (visit w).Beside known (visit w')) :
    (w.collectFor names visit).Beside known (w'.collectFor names visit) := by
  have inner : (visit { w with sinks := [] :: w.sinks }).Beside known
      (visit { w' with sinks := [] :: w'.sinks }) :=
    keeps ⟨beside.apis, beside.scopes, congrArg ([] :: ·) beside.sinks, beside.found⟩
  unfold Walk.collectFor
  dsimp only
  rw [inner.sinks]
  obtain ⟨lists, keys⟩ := declared_foldl ((visit { w with sinks := [] :: w.sinks }).sinks.headD [])
    inner.found.declared inner.found.declaredNames names
  exact ⟨inner.apis, inner.scopes, rfl, ⟨inner.found.dependencies, lists, keys, inner.found.names⟩⟩

end Walk.Beside

/-- Walks over one tree stay side by side, for each of the steps that they are made of keeps them so. -/
theorem Walk.IsVisit.beside {known : Resolution} {M : String → Prop} {visit : Walk → Walk} (visits : IsVisit M visit) :
    ∀ {w w' : Walk}, w.Beside known w' → (visit w).Beside known (visit w') := by
  induction visits with
  | stay => exact id
  | next _ _ first later => exact later ∘ first
  | given visit _ ih =>
    -- both walks go on in the way that their scopes and the tracked methods ask for
    intro w w' beside
    dsimp only
    rw [beside.apis, beside.scopes]
    exact ih w.apis w.scopes beside
  | record => exact fun beside => beside.addDependency _ _
  | enter enters => exact fun beside => beside.enter (enters _) (enters _)
  | rescope => exact fun beside => beside.rescope _
  | inScope isFunction _ ih => exact fun beside => beside.inScope isFunction ih
  | collectFor names _ ih => exact fun beside => beside.collectFor names ih

/-! ## Resolutions -/

theorem resolve_beside (apis : TrackedApis) (code : Code) (known : Resolution) :
    known.Merges (resolve apis code {}) (resolve apis code known) := by
  have start : Walk.Beside known { apis } { apis, found := known } := by
    refine ⟨rfl, rfl, rfl, ⟨(addNew_nil _).symm, fun name => ?_, (addNew_nil _).symm, (addNew_nil _).symm⟩⟩
    show known.declared.get? name = Option.merge addNew (known.declared.get? name) none
    cases known.declared.get? name <;> rfl
  refine (start.inScope false fun beside => ?_).found
  cases code with
  | statements body => exact ((IsVisit.hoistFunctions body).next (visitStmts_isVisit body)).beside beside
  | expression e => exact (visitExpr_isVisit e).beside beside

/-- Two resolutions with the same sets of dependencies, of dependencies of each top-level declaration, and of
names. -/
structure Resolution.SameSets (r r' : Resolution) : Prop where
  dependencies : ∀ d, d ∈ r.dependencies ↔ d ∈ r'.dependencies
  declared : ∀ name d, (∃ ds, r.declared.get? name = some ds ∧ d ∈ ds) ↔
    ∃ ds, r'.declared.get? name = some ds ∧ d ∈ ds
  declaredNames : ∀ name, name ∈ r.declared.keys ↔ name ∈ r'.declared.keys
  names : ∀ name, name ∈ r.names.keys ↔ name ∈ r'.names.keys

/-- A list that comes from two has the elements of both. -/
theorem mem_merge {known fresh whole : Option (List String)} (merged : whole = Option.merge addNew known fresh)
    (d : String) : (∃ ds, whole = some ds ∧ d ∈ ds) ↔
      (∃ ds, known = some ds ∧ d ∈ ds) ∨ ∃ ds, fresh = some ds ∧ d ∈ ds := by
  subst merged
  cases known <;> cases fresh <;> simp [Option.merge, mem_addNew]

/-- What is resolved on top of what is known merges the known part with what the code has by itself. So two
pieces of code may be resolved in either order. -/
theorem resolve_merges (apis : TrackedApis) (code : Code) (known : Resolution) :
    known.Merges (resolve apis code {}) (resolve apis code known) ∧
      ∀ (apis' : TrackedApis) (code' : Code), (resolve apis' code' (resolve apis code known)).SameSets
        (resolve apis code (resolve apis' code' known)) := by
  refine ⟨resolve_beside apis code known, fun apis' code' => ?_⟩
  have first := resolve_beside apis code known
  have first' := resolve_beside apis' code' known
  have second := resolve_beside apis' code' (resolve apis code known)
  have second' := resolve_beside apis code (resolve apis' code' known)
  refine ⟨fun d => ?_, fun name d => ?_, fun name => ?_, fun name => ?_⟩
  · rw [second.dependencies, second'.dependencies, mem_addNew, mem_addNew, first.dependencies,
      first'.dependencies, mem_addNew, mem_addNew, or_right_comm]
  · rw [mem_merge (second.declared name), mem_merge (second'.declared name), mem_merge (first.declared name),
      mem_merge (first'.declared name), or_right_comm]
  · rw [second.declaredNames, second'.declaredNames, mem_addNew, mem_addNew, first.declaredNames,
      first'.declaredNames, mem_addNew, mem_addNew, or_right_comm]
  · rw [second.names, second'.names, mem_addNew, mem_addNew, first.names, first'.names, mem_addNew, mem_addNew,
      or_right_comm]

end Dependency

end BindScript
