import BindScript.Proofs.Dependency.Covered
import BindScript.Proofs.Dependency.Twins

/-!
# Watching dependencies is enough

An expression that can be watched has the same outcome in any two contexts that agree on its dependencies
(`evaluate_of_watched`). Being watchable is needed: `dependencies_miss` has expressions that assign nothing
and still tell such contexts apart.
-/

namespace BindScript

open Dependency

/-! ## Dependencies that are words -/

/-- What is in the text of a word. -/
theorem wordPart_of_mem {name : String} {c : Char} (word : isWord name = true) (mem : c ∈ name.toList) :
    Text.isNameStart c = true ∨ Text.isWordPart c = true := by
  unfold isWord at word
  cases chars : name.toList with
  | nil =>
    rw [chars] at mem
    cases mem
  | cons first rest =>
    rw [chars] at word mem
    obtain ⟨start, parts⟩ := Bool.and_eq_true_iff.1 word
    rcases List.mem_cons.1 mem with rfl | later
    · exact .inl start
    · exact .inr (List.all_eq_true.1 parts c later)

/-- A link starts with a character that no word has. -/
theorem Dependency.Segment.text_head (s : Segment) :
    ∃ c ∈ s.text.toList, Text.isNameStart c = false ∧ Text.isWordPart c = false := by
  have dot : Text.isNameStart '.' = false ∧ Text.isWordPart '.' = false := by decide +kernel
  have bracket : Text.isNameStart '[' = false ∧ Text.isWordPart '[' = false := by decide +kernel
  cases s with
  | property key =>
    simp only [Segment.text]
    by_cases named : Text.isIdentifier key = true
    · rw [if_pos named]
      exact ⟨'.', by simp, dot⟩
    · rw [if_neg named]
      refine ⟨'[', ?_, bracket⟩
      split <;> simp
  | nameKey name => exact ⟨'[', by simp [Segment.text], bracket⟩

/-- A path whose text is a word is that word. -/
theorem Dependency.Path.segments_of_word {p : Path} (word : isWord p.text = true) : p.segments = [] := by
  cases segments : p.segments with
  | nil => rfl
  | cons s rest =>
    obtain ⟨c, mem, start, part⟩ := s.text_head
    have inside : c ∈ p.text.toList := by
      rw [Path.text, segments]
      simp [mem]
    rcases wordPart_of_mem word inside with isStart | isPart
    · rw [start] at isStart
      cases isStart
    · rw [part] at isPart
      cases isPart

/-- Dependencies that are words watch these names and no others. -/
theorem Dependency.mem_of_watches {dependencies : List String} (words : ∀ d ∈ dependencies, isWord d = true)
    {name : String} (watches : Watches dependencies name) : name ∈ dependencies := by
  obtain ⟨p, -, mem, isName⟩ := watches
  have segments := p.segments_of_word (words _ mem)
  have text : p.text = p.root := by simp [Path.text, segments]
  rcases isName with rfl | key
  · exact text ▸ mem
  · rw [Path.keyNames, segments] at key
    cases key

/-- A text leads to nothing else. -/
theorem Heap.eq_of_reaches_string {h : Heap} {text : String} {u : Value} (path : h.Reaches (.string text) u) :
    u = .string text := by
  induction path with
  | refl => rfl
  | tail _ edge ih =>
    rw [ih] at edge
    cases edge

/-! ## The theorem -/

/-- **Watching dependencies is enough.** Two contexts that agree on the names in the dependencies of an
expression give it the same outcome and leave the same state behind. -/
theorem evaluate_of_watched (apis : TrackedApis) (e : Expr) (c₁ c₂ : Context) (s : State)
    (watchable : e.Watchable [] []) (unbound : s.env.bindings = #[])
    (twins : c₁.Twins c₂ (Watches (resolve apis (.expression e) {}).dependencies) s.heap) :
    c₁.evaluate e s = c₂.evaluate e s := by
  have within := Expr.within_of_watchable apis watchable
  exact Context.Twins.evaluate_eq (A := .watched (resolve apis (.expression e) {}).dependencies) twins id
    within unbound

/-- `((p, q = p) => p + q)(a)`. -/
def doubled : Expr :=
  .call (.function (.mk [.mk (.name "p") none, .mk (.name "q") (some (.name "p"))] none
    (.expr (.binary .add (.name "p") (.name "q"))))) [.name "a"] false

/-- Two local contexts that differ in `b` only. -/
def twoContexts : State where
  heap :=
    { objects := #[{ properties := [("a", .string "x"), ("b", .string "0")] },
        { properties := [("a", .string "x"), ("b", .string "1")] }] }

/-- The context with a local context and no app context. -/
def Context.within (locals : Nat) : Context where
  locals := .object locals
  app := .undefined

/-- The two contexts agree on `a`, and so on `doubled`. -/
theorem doubled_same :
    (Context.within 0).evaluate doubled twoContexts = (Context.within 1).evaluate doubled twoContexts := by
  have words : (isWord "p" = true ∧ isWord "q" = true) ∧ isWord "a" = true := by decide +kernel
  have watchable : doubled.Watchable [] [] := by
    simpa [doubled, Expr.Watchable, Expr.AllWatchable, Function.Watchable, Element.AllWatchable,
      Expr.OptionWatchable, Pattern.Watchable, Pattern.RestWithin, Body.Watchable, Pattern.boundNames,
      Element.target] using words
  have names : ∀ n, Watches (resolve {} (.expression doubled) {}).dependencies n → n = "a" := by
    intro n watches
    exact List.mem_singleton.1 (mem_of_watches (by decide +kernel) watches)
  have text : ∀ n v, Watches (resolve {} (.expression doubled) {}).dependencies n →
      (Context.within 0).lookup twoContexts.heap n = some v → v = .string "x" := by
    intro n v watches found
    rw [names n watches] at found
    exact (Option.some.inj found).symm
  refine evaluate_of_watched {} doubled _ _ twoContexts watchable rfl ⟨rfl, ?_, ?_, ?_, ?_⟩
  · intro n watches
    rw [names n watches]
    rfl
  · simp [Context.places, Context.within, Heap.Allocates, twoContexts]
  · intro n v c watches found path
    rw [text n v watches found] at path
    cases Heap.eq_of_reaches_string path
  · intro n v watches found u _ container path
    rw [text n v watches found] at path
    rw [Heap.eq_of_reaches_string path] at container
    cases container

/-! ## Dependencies that miss something -/

/-- The text that a run gives. -/
def textOf? : EStateM.Result Exit State Value → Option String
  | .ok (.string text) _ => some text
  | _ => none

/-- Two contexts agree on the dependencies of an expression that assigns, updates and deletes nothing, and
no function of theirs could read other names. Still the expression gives different texts in them. -/
structure Dependency.Misses (e : Expr) (c₁ c₂ : Context) (s : State) : Prop where
  writeless : e.Within ⟨fun _ => True, False⟩ []
  lenient : c₁.options = c₂.options ∧ c₁.options.strict = false ∧ s.interrupted = false
  globals : c₁.globals = c₂.globals
  closureless : ∀ v, ∀ u ∈ s.heap.children v, u.isCallable = true → ∃ f i, u = .native f i
  agree : ∀ n, Watches (resolve {} (.expression e) {}).dependencies n →
    c₁.lookup s.heap n = c₂.lookup s.heap n
  differ : textOf? (c₁.evaluate e s) ≠ textOf? (c₂.evaluate e s)

/-- `((a = b, b = "2") => a)()`: the default of `a` runs before `b` is bound. -/
def readsLaterParameter : Expr :=
  .call (.function (.mk [.mk (.name "a") (some (.name "b")),
    .mk (.name "b") (some (.literal (.string "2")))] none (.expr (.name "a")))) [] false

/-- `(() => \x7b if (false) let b = "2"; return b; \x7d)()`: the declaration is in no block of its own. -/
def readsPastDeclaration : Expr :=
  .call (.function (.mk [] none (.block
    [.branch (.literal (.bool false)) (.declare .let [.mk (.name "b") (some (.literal (.string "2")))]) none,
      .ret (some (.name "b"))]))) [] false

/-- `(Object.assign(self, { b: "2" }), b)`: a built-in method writes to a local context. -/
def writesContext : Expr :=
  .sequence [.call (.member (.name "Object") "assign" false)
    [.name "self", .object [.named "b" (.literal (.string "2"))]] false, .name "b"]

/-- Two local contexts of the same contents, both of which have the first one under the name `self`. -/
def selfContexts : State where
  heap :=
    { objects := #[{ properties := [("self", .object 0), ("b", .string "0")] },
        { properties := [("self", .object 0), ("b", .string "0")] },
        { properties := [("assign", .native .assign 0)] }] }

/-- The context with a local context, no app context, and `Object`. -/
def Context.withObject (locals : Nat) : Context where
  locals := .object locals
  app := .undefined
  globals := [("Object", .object 2)]

private theorem twoContexts_closureless (v : Value) :
    ∀ u ∈ twoContexts.heap.children v, u.isCallable = true → ∃ f i, u = .native f i := by
  intro u mem callable
  match v, mem with
  | .object 0, mem | .object 1, mem =>
    rcases List.mem_pair.1 mem with rfl | rfl
    · cases callable
    · cases callable

private theorem selfContexts_closureless (v : Value) :
    ∀ u ∈ selfContexts.heap.children v, u.isCallable = true → ∃ f i, u = .native f i := by
  intro u mem callable
  match v, mem with
  | .object 0, mem | .object 1, mem =>
    rcases List.mem_pair.1 mem with rfl | rfl
    · cases callable
    · cases callable
  | .object 2, mem => exact ⟨.assign, 0, List.mem_singleton.1 mem⟩

private theorem not_watches_nil {n : String} : ¬ Watches [] n := by
  rintro ⟨p, -, mem, -⟩
  cases mem

/-- Being watchable is needed, and so is that contexts are apart from what the code reads. -/
theorem dependencies_miss :
    Misses readsLaterParameter (.within 0) (.within 1) twoContexts ∧
      Misses readsPastDeclaration (.within 0) (.within 1) twoContexts ∧
      Misses writesContext (.withObject 0) (.withObject 1) selfContexts := by
  refine ⟨⟨?_, ⟨rfl, rfl, rfl⟩, rfl, twoContexts_closureless, fun n watches => absurd watches not_watches_nil,
      by decide +kernel⟩,
    ⟨?_, ⟨rfl, rfl, rfl⟩, rfl, twoContexts_closureless, fun n watches => absurd watches not_watches_nil,
      by decide +kernel⟩,
    ⟨?_, ⟨rfl, rfl, rfl⟩, rfl, selfContexts_closureless, fun n watches => ?_, by decide +kernel⟩⟩
  · simp [readsLaterParameter, Expr.Within, Expr.AllWithin, Function.Within, Element.AllWithin,
      Expr.OptionWithin, Pattern.Within, Pattern.RestWithin, Body.Within]
  · simp [readsPastDeclaration, Expr.Within, Expr.AllWithin, Function.Within, Element.AllWithin,
      Expr.OptionWithin, Pattern.Within, Pattern.RestWithin, Body.Within, Stmt.AllWithin, Stmt.Within,
      Stmt.OptionWithin, Declarator.AllWithin]
  · simp [writesContext, Expr.Within, Expr.AllWithin, Property.AllWithin]
  · have named := mem_of_watches (by decide +kernel) watches
    have named : n ∈ ["Object", "self", "b"] := named
    simp only [List.mem_cons, List.not_mem_nil, or_false] at named
    rcases named with rfl | rfl | rfl
    · rfl
    · rfl
    · rfl

end BindScript
