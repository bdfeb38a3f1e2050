import BindScript.Proofs.Syntax.Parts
import BindScript.Proofs.Parsing.Precedence
import BindScript.Proofs.Reserved.Beside

/-!
# Two readings

Where a part of a source can be read alone, reading it in the head of a loop gives the same, and the two cursors stay
side by side (`Carries`). There are two ways out. The reservation may have reached an operation with `in`; then what
was read first tells so, and so does all that is made of it. And where only statements are read, the first reading may
have come to the end of the input, where a statement needs no semicolon; it stays there.
-/

/-!
## How far the reservation of `in` reaches

While the first part of the head of a loop is read, `in` is no operator. The reservation is lifted inside of brackets
of expressions: arguments, keys, array and object literals, the middle of a conditional, and the body of an arrow
function that is an expression. It is not lifted anywhere else, so it reaches the defaults of parameters and the
statements of a body, and everything in these up to the next bracket (`Node.reach`).

Trees do not keep parentheses. What stands in parentheses counts as reached here, although it is not.
-/

namespace BindScript

/-- The nodes of a function that the reservation reaches. -/
def Function.reach : Function → List Node
  | .mk params rest (.expr _) => params.flatMap Element.nodes ++ Pattern.optionNodes rest
  | .mk params rest (.block statements) =>
    (params.flatMap Element.nodes ++ Pattern.optionNodes rest) ++ statements.map .stmt

/-- The nodes of an expression that the reservation reaches. -/
def Expr.reach : Expr → List Node
  | .unary _ e | .update _ _ e | .member e _ _ | .index e _ _ | .call e _ _ => [.expr e]
  | .binary _ left right | .assign _ left right => [.expr left, .expr right]
  | .conditional test _ alternate => [.expr test, .expr alternate]
  | .sequence items => items.map .expr
  | .function f => f.reach
  | .name _ | .literal _ | .template _ | .array _ | .object _ | .spread _ => []

/-- The nodes of the first part of the head of a loop that the reservation reaches. After the first pattern the head
has a reservation of its own. -/
def ForInit.reach : ForInit → List Node
  | .declare _ (.mk pattern _ :: _) => [.pattern pattern]
  | _ => []

/-- The nodes of a statement that the reservation reaches. -/
def Stmt.reach : Stmt → List Node
  | .forLoop init test update body =>
    init.reach ++ (Expr.optionNodes test ++ (Expr.optionNodes update ++ [.stmt body]))
  | .function _ f => f.reach
  | s => s.parts

namespace Node

/-- The nodes that the reservation reaches directly. -/
def reach : Node → List Node
  | expr e => e.reach
  | pattern p => p.parts
  | stmt s => s.reach

/-- The reservation reaches an operation with `in`. -/
inductive ReachesIn : Node → Prop
  | here {left right : Expr} : ReachesIn (.expr (.binary .isIn left right))
  | part {x y : Node} (mem : y ∈ x.reach) (inner : y.ReachesIn) : ReachesIn x

/-- The reservation reaches an operation with `in` in one of the nodes. -/
def SomeReachIn (nodes : List Node) : Prop :=
  ∃ y ∈ nodes, y.ReachesIn

theorem ReachesIn.of_reach {x : Node} (some : SomeReachIn x.reach) : x.ReachesIn := by
  obtain ⟨y, mem, inner⟩ := some
  exact .part mem inner

theorem reachesIn_iff {x : Node} :
    x.ReachesIn ↔ (∃ left right, x = .expr (.binary .isIn left right)) ∨ SomeReachIn x.reach := by
  constructor
  · intro reached
    cases reached with
    | here => exact .inl ⟨_, _, rfl⟩
    | part mem inner => exact .inr ⟨_, mem, inner⟩
  · rintro (⟨left, right, rfl⟩ | some)
    · exact .here
    · exact .of_reach some

@[simp] theorem someReachIn_nil : ¬ SomeReachIn [] := by
  rintro ⟨y, mem, -⟩
  exact List.not_mem_nil mem

@[simp] theorem someReachIn_cons {x : Node} {nodes : List Node} :
    SomeReachIn (x :: nodes) ↔ x.ReachesIn ∨ SomeReachIn nodes := by
  simp [SomeReachIn]

@[simp] theorem someReachIn_append {nodes nodes' : List Node} :
    SomeReachIn (nodes ++ nodes') ↔ SomeReachIn nodes ∨ SomeReachIn nodes' := by
  simp [SomeReachIn, or_and_right, exists_or]

theorem someReachIn_flatMap {α : Type} {items : List α} {nodes : α → List Node} :
    SomeReachIn (items.flatMap nodes) ↔ ∃ a ∈ items, SomeReachIn (nodes a) := by
  simp only [SomeReachIn, List.mem_flatMap]
  exact ⟨fun ⟨y, ⟨a, inside, mem⟩, inner⟩ => ⟨a, inside, y, mem, inner⟩,
    fun ⟨a, inside, y, mem, inner⟩ => ⟨y, ⟨a, inside, mem⟩, inner⟩⟩

theorem someReachIn_map {α : Type} {items : List α} {node : α → Node} :
    SomeReachIn (items.map node) ↔ ∃ a ∈ items, (node a).ReachesIn := by
  simp [SomeReachIn]

end Node

end BindScript

/-! ## Carried readings -/

namespace BindScript.Parser

variable {S : Around} {may lost G : Prop} {n : Nat} {α β : Type} {V : α → Prop} {W : β → Prop} {c d : Cursor}

/-! ### What the second reading gives -/

/-- What comes of the first reading, and of the second one. -/
def CarriesAt (S : Around) (may lost : Prop) (n : Nat) (G : Prop) (V : α → Prop) (c d : Cursor)
    (r r' : EStateM.Result ParseIssue Cursor α) : Prop :=
  ∀ a c', r = .ok a c' →
    (Beside S may n c d → (∃ d', r' = .ok a d' ∧ Beside S may n c' d') ∨ may ∧ V a ∨ lost ∧ c'.AtEnd) ∧
      (G → V a) ∧ (c.AtEnd → c'.AtEnd)

/-- Where the first parser succeeds, the second one gives the same and the cursors stay side by side, unless the
reservation has reached an operation with `in`, which `V` tells, or unless the end of the input has been reached too
early, if it may be `lost` there. If the reservation had reached one before (`G`), `V` tells that, too. -/
def Carries (S : Around) (may lost : Prop) (n : Nat) (G : Prop) (p q : Parse α) (V : α → Prop) : Prop :=
  ∀ c d, CarriesAt S may lost n G V c d (p c) (q d)

/-- The first reading goes on where the second one cannot follow any more. -/
theorem CarriesAt.of_not_beside {r r' r₀ : EStateM.Result ParseIssue Cursor α} {d₀ : Cursor}
    (carries : CarriesAt S may lost n G V c d₀ r r₀) (apart : ¬ Beside S may n c d) :
    CarriesAt S may lost n G V c d r r' := by
  intro a c' run
  obtain ⟨-, guilty, stays⟩ := carries a c' run
  exact ⟨fun beside => absurd beside apart, guilty, stays⟩

/-- At the end of the input nothing more is asked for, where the first reading may be lost. -/
theorem CarriesAt.of_eof {r r' r₀ : EStateM.Result ParseIssue Cursor α} (eof : c.current.kind = .eof)
    (carries : CarriesAt S may True n G V c d r r₀) : CarriesAt S may True n G V c d r r' := by
  intro a c' run
  obtain ⟨-, guilty, stays⟩ := carries a c' run
  exact ⟨fun beside => .inr (.inr ⟨trivial, stays (beside.atEnd eof)⟩), guilty, stays⟩

/-- The reservation has reached an operation with `in`, and what is read tells so. -/
theorem CarriesAt.of_guilt {r r' r₀ : EStateM.Result ParseIssue Cursor α} (holds : may)
    (carries : CarriesAt S may lost n True V c d r r₀) : CarriesAt S may lost n G V c d r r' := by
  intro a c' run
  obtain ⟨-, guilty, stays⟩ := carries a c' run
  exact ⟨fun _ => .inr (.inl ⟨holds, guilty trivial⟩), fun _ => guilty trivial, stays⟩

/-- If the first reading is lost only where what comes next fails at the end of the input, the whole is not lost. -/
theorem CarriesAt.bind_of_lost {p q : Parse α} {f g : α → Parse β} {lost' : Prop}
    (first : CarriesAt S may lost' n False V c d (p c) (q d))
    (next : ∀ a, Carries S may lost n (G ∨ V a) (f a) (g a) W)
    (fails : lost' → ∀ a c b c', c.AtEnd → f a c = .ok b c' → lost) :
    CarriesAt S may lost n G W c d ((p >>= f) c) ((q >>= g) d) := by
  intro b c'' run
  obtain ⟨a, c', here, there⟩ := exists_of_run run
  obtain ⟨alive, -, stays⟩ := first a c' here
  obtain ⟨-, guilty, stays'⟩ := next a c' d b c'' there
  refine ⟨fun beside => ?_, fun before => guilty (.inl before), fun ends => stays' (stays ends)⟩
  rcases alive beside with ⟨d', run', beside'⟩ | ⟨holds, guilt⟩ | ⟨holds, ends⟩
  · rw [run_ok run']
    exact (next a c' d' b c'' there).1 beside'
  · exact .inr (.inl ⟨holds, guilty (.inr guilt)⟩)
  · exact .inr (.inr ⟨fails holds a c' b c'' ends there, stays' ends⟩)

theorem CarriesAt.bind {p q : Parse α} {f g : α → Parse β}
    (first : CarriesAt S may lost n False V c d (p c) (q d))
    (next : ∀ a, Carries S may lost n (G ∨ V a) (f a) (g a) W) :
    CarriesAt S may lost n G W c d ((p >>= f) c) ((q >>= g) d) :=
  first.bind_of_lost next fun holds _ _ _ _ _ _ => holds

theorem CarriesAt.ite {condition : Prop} [Decidable condition] {p q p' q' : Parse α}
    (yes : condition → CarriesAt S may lost n G V c d (p c) (q d))
    (no : ¬ condition → CarriesAt S may lost n G V c d (p' c) (q' d)) :
    CarriesAt S may lost n G V c d ((if condition then p else p') c) ((if condition then q else q') d) := by
  split
  · exact yes ‹_›
  · exact no ‹_›

namespace Carries

variable {p q : Parse α} {f g : α → Parse β}

theorem imp {V' : α → Prop} (carries : Carries S may lost n G p q V) (weaker : ∀ a, V a → V' a) :
    Carries S may lost n G p q V' := by
  intro c d a c' run
  obtain ⟨alive, guilty, stays⟩ := carries c d a c' run
  exact ⟨fun beside => (alive beside).imp_right (.imp_left (.imp_right (weaker a))),
    fun before => weaker a (guilty before), stays⟩

/-- What can be shown with more guilt can be shown with less. -/
theorem mono {G' : Prop} (carries : Carries S may lost n G p q V) (less : G' → G) : Carries S may lost n G' p q V := by
  intro c d a c' run
  obtain ⟨alive, guilty, stays⟩ := carries c d a c' run
  exact ⟨alive, fun before => guilty (less before), stays⟩

theorem pure {a : α} (tells : G → V a) : Carries S may lost n G (Pure.pure a) (Pure.pure a) V := by
  rintro c d _ _ ⟨⟩
  exact ⟨fun beside => .inl ⟨d, rfl, beside⟩, tells, id⟩

theorem bind (first : Carries S may lost n False p q V) (next : ∀ a, Carries S may lost n (G ∨ V a) (f a) (g a) W) :
    Carries S may lost n G (p >>= f) (q >>= g) W :=
  fun c d => (first c d).bind next

/-- Going on with what tells all that was reached before. -/
theorem thread (first : Carries S may lost n G p q V) (next : ∀ a, Carries S may lost n (V a) (f a) (g a) W) :
    Carries S may lost n G (p >>= f) (q >>= g) W := by
  intro c d b c'' run
  obtain ⟨a, c', here, there⟩ := exists_of_run run
  obtain ⟨-, tells, -⟩ := first c d a c' here
  have whole := (first.mono False.elim c d).bind (G := False) fun a => (next a).mono (Or.elim · False.elim id)
  obtain ⟨alive, -, stays⟩ := whole b c'' run
  obtain ⟨-, guilty, -⟩ := next a c' d b c'' there
  exact ⟨alive, fun before => guilty (tells before), stays⟩

/-- Going on after a step in which the reservation reaches nothing. -/
theorem step (first : Carries S may lost n False p q fun _ => False)
    (next : ∀ a, Carries S may lost n G (f a) (g a) W) : Carries S may lost n G (p >>= f) (q >>= g) W :=
  bind first fun a => (next a).mono (Or.elim · id False.elim)

theorem ite {condition : Prop} [Decidable condition] {p' q' : Parse α}
    (yes : condition → Carries S may lost n G p q V) (no : ¬ condition → Carries S may lost n G p' q' V) :
    Carries S may lost n G (if condition then p else p') (if condition then q else q') V :=
  fun c d => CarriesAt.ite (fun holds => yes holds c d) fun fails => no fails c d

/-- The first reading fails. -/
theorem error (fails : ∀ c a c', p c ≠ .ok a c') : Carries S may lost n G p q V :=
  fun c _ a c' run => absurd run (fails c a c')

theorem fail (cause : ParseCause) : Carries S may lost n G (Parser.fail cause) q V :=
  error nofun

theorem failAt (cause : ParseCause) (place : Position) : Carries S may lost n G (Parser.failAt cause place) q V :=
  error nofun

theorem fail_bind (cause : ParseCause) {q : Parse β} :
    Carries S may lost n G (Parser.fail cause >>= f) q W :=
  error nofun

/-- Where `in` is reserved in both or in none, nothing needs to be told. -/
theorem forget (carries : Carries S False lost n False p q V) : Carries S False lost n False p q fun _ => False := by
  intro c d a c' run
  obtain ⟨alive, -, stays⟩ := carries c d a c' run
  exact ⟨fun beside => (alive beside).imp_right (.imp_left fun no => no.1.elim), False.elim, stays⟩

end Carries

/-! ### Loops -/

namespace Carries

variable {turn₁ turn₂ : α → Parse (Turn α β)} {Q : α → Prop} {R : β → Prop}

/-- The second reading may take more turns. -/
theorem iterate (each : ∀ a, Carries S may lost n (Q a) (turn₁ a) (turn₂ a) (Turn.Holds Q R)) (turns more : Nat)
    (a : α) :
    Carries S may lost n (Q a) (Parser.iterate turn₁ turns a) (Parser.iterate turn₂ (turns + more) a) R := by
  induction turns generalizing a with
  | zero => exact fail _
  | succ turns ih =>
    rw [Nat.succ_add]
    refine thread (each a) fun t => ?_
    cases t with
    | again a' => exact ih a'
    | done b => exact pure id

/-- There are at least as many tokens ahead in the second reading, and so as many turns. -/
theorem repeatFrom_of_turns {a : α} (each : ∀ turns more, Carries S may lost n G (Parser.iterate turn₁ turns a)
      (Parser.iterate turn₂ (turns + more) a) R) :
    Carries S may lost n G (Parser.repeatFrom a turn₁) (Parser.repeatFrom a turn₂) R := by
  intro c d
  by_cases beside : Beside S may n c d
  · obtain ⟨more, length⟩ := Nat.exists_eq_add_of_le beside.ahead.length_le
    have turns := each (c.rest.length + 1) more c d
    rw [Nat.add_right_comm, ← length] at turns
    exact turns
  · exact (each (c.rest.length + 1) 0 c d).of_not_beside beside

/-- Loops, where the state of a turn tells what was reached before it. -/
theorem repeatFrom {a : α} (start : G → Q a)
    (each : ∀ a, Carries S may lost n (Q a) (turn₁ a) (turn₂ a) (Turn.Holds Q R)) :
    Carries S may lost n G (Parser.repeatFrom a turn₁) (Parser.repeatFrom a turn₂) R :=
  repeatFrom_of_turns fun turns more => (iterate each turns more a).mono start

end Carries

/-! ### Tokens -/

namespace Carries

variable {p q : Parse α} {f g : α → Parse β}

theorem get_bind_at {f g : Cursor → Parse β}
    (next : ∀ d, View S may c d → CarriesAt S may lost n G W c d (f c c) (g d d)) :
    CarriesAt S may lost n G W c d ((MonadState.get >>= f) c) ((MonadState.get >>= g) d) := by
  intro b c' run
  by_cases view : View S may c d
  · exact next d view b c' run
  · -- what does not depend on the second reading is seen from two readings that are the same
    exact (next c (.refl c)).of_not_beside (fun beside => view beside.view) b c' run

theorem get_bind {f g : Cursor → Parse β}
    (next : ∀ c d, View S may c d → CarriesAt S may lost n G W c d (f c c) (g d d)) :
    Carries S may lost n G (MonadState.get >>= f) (MonadState.get >>= g) W :=
  fun c _ => get_bind_at (next c)

theorem kind_bind_at {f g : TokenKind → Parse β}
    (next : ∀ d : Cursor, SameKind S c.current.kind d.current.kind →
      CarriesAt S may lost n G W c d (f c.current.kind c) (g d.current.kind d)) :
    CarriesAt S may lost n G W c d ((Parser.kind >>= f) c) ((Parser.kind >>= g) d) :=
  get_bind_at (f := fun c => f c.current.kind) (g := fun c => g c.current.kind) fun d view => next d view.kind

theorem kind_bind {f g : TokenKind → Parse β}
    (next : ∀ c d : Cursor, SameKind S c.current.kind d.current.kind →
      CarriesAt S may lost n G W c d (f c.current.kind c) (g d.current.kind d)) :
    Carries S may lost n G (Parser.kind >>= f) (Parser.kind >>= g) W :=
  fun c _ => kind_bind_at (next c)

/-- Going on in a way that does not tell the end of the input from a semicolon. -/
theorem kind_bind_of_agree {f g : TokenKind → Parse β}
    (templates : ∀ chunks chunks', g (.template chunks') = g (.template chunks))
    (semicolon : g (.punct .semicolon) = g .eof)
    (next : ∀ c d, CarriesAt S may lost n G W c d (f c.current.kind c) (g c.current.kind d)) :
    Carries S may lost n G (Parser.kind >>= f) (Parser.kind >>= g) W := by
  refine kind_bind fun c d kind => ?_
  rw [kind.agree templates semicolon]
  exact next c d

/-- Going on in a way that fails at the end of the input. -/
theorem kind_bind_of_fails {f g : TokenKind → Parse β}
    (templates : ∀ chunks chunks', g (.template chunks') = g (.template chunks))
    (fails : ∀ c b c', f .eof c ≠ .ok b c')
    (next : ∀ c d, c.current.kind ≠ .eof →
      CarriesAt S may lost n G W c d (f c.current.kind c) (g c.current.kind d)) :
    Carries S may lost n G (Parser.kind >>= f) (Parser.kind >>= g) W := by
  refine kind_bind fun c d kind => ?_
  by_cases eof : c.current.kind = .eof
  · rw [eof]
    exact fun b c' run => absurd run (fails c b c')
  · rw [kind.agree_of_more eof templates]
    exact next c d eof

/-- Going on where the first reading may be lost at the end of the input. -/
theorem kind_bind_or_lost {f g : TokenKind → Parse β}
    (templates : ∀ chunks chunks', g (.template chunks') = g (.template chunks))
    (next : ∀ c d, CarriesAt S may True n G W c d (f c.current.kind c) (g c.current.kind d)) :
    Carries S may True n G (Parser.kind >>= f) (Parser.kind >>= g) W := by
  refine kind_bind fun c d kind => ?_
  by_cases eof : c.current.kind = .eof
  · exact .of_eof eof (next c d)
  · rw [kind.agree_of_more eof templates]
    exact next c d

/-- Going on unless there is nothing left. -/
theorem unless_eof {p q : Parse β} (cause : ParseCause) (next : Carries S may lost n G p q W) :
    Carries S may lost n G (do if ← Parser.atEof then Parser.fail cause else p)
      (do if ← Parser.atEof then Parser.fail cause else q) W :=
  kind_bind_of_fails (f := fun k => if k.isEof = true then Parser.fail cause else p)
    (g := fun k => if k.isEof = true then Parser.fail cause else q) (fun _ _ => rfl) nofun fun c d _ =>
      ite (fun _ => fail cause) (fun _ => next) c d

theorem position_bind_at {f g : Position → Parse β}
    (next : ∀ place place', CarriesAt S may lost n G W c d (f place c) (g place' d)) :
    CarriesAt S may lost n G W c d ((Parser.position >>= f) c) ((Parser.position >>= g) d) :=
  next c.current.start d.current.start

theorem position_bind {f g : Position → Parse β}
    (next : ∀ place place', Carries S may lost n G (f place) (g place') W) :
    Carries S may lost n G (Parser.position >>= f) (Parser.position >>= g) W :=
  fun c d => position_bind_at fun place place' => next place place' c d

/-- Moving on from a token that is not the end. -/
theorem advance_at (more : c.current.kind ≠ .eof) :
    CarriesAt S may lost n False (fun _ => False) c d (Parser.advance c) (Parser.advance d) := by
  rintro _ _ ⟨⟩
  exact ⟨fun beside => .inl ⟨d.advance, rfl, beside.advance more⟩, False.elim, Cursor.AtEnd.advance⟩

theorem advance_bind_at {p q : Parse β} (more : c.current.kind ≠ .eof) (next : Carries S may lost n G p q W) :
    CarriesAt S may lost n G W c d ((Parser.advance >>= fun _ => p) c) ((Parser.advance >>= fun _ => q) d) :=
  (advance_at more).bind fun _ => next.mono (Or.elim · id False.elim)

theorem advance : Carries S may True n False Parser.advance Parser.advance fun _ => False := by
  intro c d
  by_cases eof : c.current.kind = .eof
  · rintro _ _ ⟨⟩
    exact ⟨fun beside => .inr (.inr ⟨trivial, (beside.atEnd eof).advance⟩), False.elim, Cursor.AtEnd.advance⟩
  · exact advance_at eof

theorem checkPunct (mark : Punct) (apart : mark ≠ .semicolon) :
    Carries S may lost n False (Parser.checkPunct mark) (Parser.checkPunct mark) fun _ => False := by
  refine kind_bind fun c d kind => ?_
  rw [kind.isPunct apart]
  exact pure False.elim c d

theorem checkPunct_or_lost (mark : Punct) :
    Carries S may True n False (Parser.checkPunct mark) (Parser.checkPunct mark) fun _ => False :=
  kind_bind_or_lost (f := fun k => Pure.pure (k.isPunct mark)) (fun _ _ => rfl) (fun c d => pure False.elim c d)

theorem checkKeyword (word : Keyword) :
    Carries S may lost n False (Parser.checkKeyword word) (Parser.checkKeyword word) fun _ => False := by
  refine kind_bind fun c d kind => ?_
  rw [kind.isKeyword]
  exact pure False.elim c d

/-- Moving past a token of some kinds, if the cursor is at one. -/
theorem eat (test : TokenKind → Bool) (templates : ∀ chunks chunks', test (.template chunks') = test (.template chunks))
    (semicolon : test (.punct .semicolon) = false) (eof : test .eof = false) :
    Carries S may lost n False
      (do if test (← Parser.kind) then do { Parser.advance; return true } else return false)
      (do if test (← Parser.kind) then do { Parser.advance; return true } else return false) fun _ => False := by
  refine kind_bind fun c d kind => ?_
  rw [kind.agree templates (semicolon.trans eof.symm)]
  cases here : test c.current.kind with
  | false => exact pure False.elim c d
  | true =>
    refine advance_bind_at (fun ended => ?_) (pure False.elim)
    rw [ended, eof] at here
    cases here

theorem eatPunct (mark : Punct) (apart : mark ≠ .semicolon) :
    Carries S may lost n False (Parser.eatPunct mark) (Parser.eatPunct mark) fun _ => False :=
  eat (·.isPunct mark) (fun _ _ => rfl) (beq_false_of_ne (Ne.symm apart)) rfl

theorem eatKeyword (word : Keyword) :
    Carries S may lost n False (Parser.eatKeyword word) (Parser.eatKeyword word) fun _ => False :=
  eat (·.isKeyword word) (fun _ _ => rfl) rfl rfl

theorem eatPunct_or_lost (mark : Punct) :
    Carries S may True n False (Parser.eatPunct mark) (Parser.eatPunct mark) fun _ => False :=
  step (checkPunct_or_lost mark) fun _ => ite (fun _ => step advance fun _ => pure False.elim) fun _ => pure False.elim

theorem expectPunct (mark : Punct) (cause : ParseCause) :
    Carries S may lost n False (Parser.expectPunct mark cause) (Parser.expectPunct mark cause) fun _ => False := by
  intro c d a c' run
  obtain ⟨here, rfl⟩ := of_expectPunct run
  have more : c.current.kind ≠ .eof := by
    rw [here]
    exact nofun
  refine ⟨fun beside => .inl ⟨d.advance, ?_, beside.advance more⟩, False.elim, Cursor.AtEnd.advance⟩
  have there : d.current.kind.isPunct mark = true := by
    rw [beside.kind.agree_of_more (f := (·.isPunct mark)) more fun _ _ => rfl]
    exact isPunct_iff.2 here
  have eaten : Parser.eatPunct mark d = .ok true d.advance := by rw [eatPunct_apply, if_pos there]
  exact run_ok eaten _

theorem expectIdentifier :
    Carries S may lost n False Parser.expectIdentifier Parser.expectIdentifier fun _ => False := by
  refine kind_bind_of_agree (fun _ _ => rfl) rfl fun c d => ?_
  generalize here : c.current.kind = k
  cases k with
  | identifier name =>
    have more : c.current.kind ≠ .eof := by
      rw [here]
      exact nofun
    exact advance_bind_at more (pure False.elim)
  | _ => exact fail _ c d

/-- A statement ends. -/
theorem endStatement : Carries S may True n False Parser.endStatement Parser.endStatement fun _ => False := by
  refine step (eatPunct_or_lost _) fun _ => ite (fun _ => pure False.elim) fun _ => ?_
  refine get_bind fun c d view => ?_
  rw [view.atStatementEnd]
  split
  · exact pure False.elim c d
  · refine error (fun c a c' run => ?_) c d
    obtain ⟨k, _, _, run⟩ := exists_of_run run
    split at run <;> cases run

/-! ### Names -/

/-- The innermost block is the same in both readings, so both declare the name or neither does. -/
theorem declare (kind : Option DeclKind) (place place' : Position) (name : String) :
    Carries S may lost (n + 1) False (Parser.declare kind place name) (Parser.declare kind place' name)
      fun _ => False := by
  unfold Parser.declare
  refine ite (fun _ => failAt _ _) fun _ => ite (fun _ => pure False.elim) fun _ => ?_
  intro c d a c' run
  obtain ⟨c₁, c₂, got, run⟩ := exists_of_run run
  cases got
  cases blocks : c.blocks with
  | nil =>
    rw [blocks] at run
    cases run
    refine ⟨fun beside => ?_, False.elim, id⟩
    obtain ⟨own, length, here, -⟩ := beside.blocks
    obtain ⟨block, own, rfl⟩ := List.exists_cons_of_length_eq_add_one length
    cases blocks.symm.trans here
  | cons block outer =>
    rw [blocks] at run
    dsimp only at run
    split at run
    · cases run
    next fresh =>
    cases run
    refine ⟨fun beside => ?_, False.elim, id⟩
    obtain ⟨ahead, plain, flag, own, length, here, there⟩ := beside
    obtain ⟨block', own, rfl⟩ := List.exists_cons_of_length_eq_add_one length
    cases blocks.symm.trans here
    obtain ⟨ts, blocks', noIn⟩ := d
    dsimp only at there
    subst there
    refine .inl ⟨⟨ts, (name :: block) :: (own ++ S.inside), noIn⟩, ?_, ahead, plain, flag, (name :: block) :: own,
      length, rfl, rfl⟩
    exact congrFun (if_neg fresh) _

theorem declareAll (kind : Option DeclKind) (place place' : Position) (names : List String) :
    Carries S may lost (n + 1) False (Parser.declareAll kind place names) (Parser.declareAll kind place' names)
      fun _ => False := by
  induction names with
  | nil => exact pure False.elim
  | cons name names ih => exact step (declare kind place place' name) fun _ => ih

/-! ### Flags and blocks -/

/-- Where `in` is allowed, the reservation has no effect. -/
theorem allowingIn {p q : Parse α} (carries : Carries S False lost n False p q V) :
    Carries S may lost n False (Parser.allowingIn p) (Parser.allowingIn q) fun _ => False := by
  intro c d a c' run
  unfold Parser.allowingIn at run
  split at run
  · next inner =>
    cases run
    obtain ⟨alive, -, stays⟩ := carries { c with noIn := false } { d with noIn := false } _ _ inner
    refine ⟨fun beside => ?_, False.elim, stays⟩
    rcases alive ⟨beside.ahead, beside.plain, .inl rfl, beside.blocks⟩ with ⟨d', run', beside'⟩ | ⟨no, -⟩ | ends
    · refine .inl ⟨{ d' with noIn := d.noIn }, ?_, beside'.ahead, beside'.plain, beside.flag, beside'.blocks⟩
      unfold Parser.allowingIn
      rw [run']
    · exact no.elim
    · exact .inr (.inr ends)
  · cases run

/-- In the head of a further loop, `in` is reserved in both readings. -/
theorem reservingIn {p q : Parse α} (carries : Carries S False lost n G p q V) :
    Carries S may lost n G (Parser.reservingIn p) (Parser.reservingIn q) V := by
  intro c d a c' run
  unfold Parser.reservingIn at run
  split at run
  · next inner =>
    cases run
    obtain ⟨alive, guilty, stays⟩ := carries { c with noIn := true } { d with noIn := true } _ _ inner
    refine ⟨fun beside => ?_, guilty, stays⟩
    rcases alive ⟨beside.ahead, beside.plain, .inl rfl, beside.blocks⟩ with ⟨d', run', beside'⟩ | ⟨no, -⟩ | ends
    · refine .inl ⟨{ d' with noIn := false }, ?_, beside'.ahead, beside'.plain, .inl rfl, beside'.blocks⟩
      unfold Parser.reservingIn
      rw [run']
    · exact no.elim
    · exact .inr (.inr ends)
  · cases run

theorem inBlock_at {p q : Parse α} (carries : CarriesAt S may lost (n + 1) G V { c with blocks := [] :: c.blocks }
      { d with blocks := [] :: d.blocks } (p { c with blocks := [] :: c.blocks })
      (q { d with blocks := [] :: d.blocks })) :
    CarriesAt S may lost n G V c d (Parser.inBlock p c) (Parser.inBlock q d) := by
  intro a c' run
  unfold Parser.inBlock at run
  split at run
  · next inner =>
    cases run
    obtain ⟨alive, guilty, stays⟩ := carries _ _ inner
    refine ⟨fun beside => ?_, guilty, stays⟩
    have opened : ∃ own : List (List String), own.length = n + 1 ∧ [] :: c.blocks = own ++ S.alone ∧
        [] :: d.blocks = own ++ S.inside := by
      obtain ⟨own, length, here, there⟩ := beside.blocks
      exact ⟨[] :: own, congrArg Nat.succ length, congrArg ([] :: ·) here, congrArg ([] :: ·) there⟩
    rcases alive ⟨beside.ahead, beside.plain, beside.flag, opened⟩ with ⟨d', run', beside'⟩ | guilt | ends
    · refine .inl ⟨{ d' with blocks := d'.blocks.tail }, ?_, beside'.ahead, beside'.plain, beside'.flag, ?_⟩
      · unfold Parser.inBlock
        rw [run']
      · obtain ⟨own, length, here, there⟩ := beside'.blocks
        obtain ⟨block, own, rfl⟩ := List.exists_cons_of_length_eq_add_one length
        refine ⟨own, Nat.succ.inj length, ?_, ?_⟩
        · show List.tail _ = _
          rw [here]
          rfl
        · show List.tail _ = _
          rw [there]
          rfl
    · exact .inr (.inl guilt)
    · exact .inr (.inr ends)
  · cases run

theorem inBlock {p q : Parse α} (carries : Carries S may lost (n + 1) G p q V) :
    Carries S may lost n G (Parser.inBlock p) (Parser.inBlock q) V :=
  fun _ _ => inBlock_at (carries _ _)

end Carries

end BindScript.Parser
