import BindScript.Proofs.Reserved.Readings

/-!
# Patterns and expressions read twice

Each parser of patterns and expressions carries over if those of the level below do (`Level.Carries`). What tells that
the reservation has reached an operation with `in` is passed on from the parts to the whole (`Node.reach`), through the
states of loops, too. Brackets lift the reservation, so that nothing inside of them has to tell anything.

The contents of a block end with a brace, and so they are never lost at the end of the input, although their
statements may be.
-/

namespace BindScript.Parser

open Node (SomeReachIn someReachIn_cons someReachIn_append someReachIn_map someReachIn_flatMap)

variable {S : Around} {may lost G : Prop} {n : Nat} {lower : Level}

/-- The parsers of a level carry over. Where a head of a loop is plain, a pattern there is a name, or both readings
refuse it and stay where they are. -/
structure Level.Carries (lower : Level) : Prop where
  assignment {S : Around} {may lost : Prop} {n : Nat} :
    Parser.Carries S may lost n False lower.assignment lower.assignment fun e => (Node.expr e).ReachesIn
  unary {S : Around} {may lost : Prop} {n : Nat} :
    Parser.Carries S may lost n False lower.unary lower.unary fun e => (Node.expr e).ReachesIn
  operand {S : Around} {may lost : Prop} {n : Nat} (loosest : Nat) :
    Parser.Carries S may lost n False (lower.operand loosest) (lower.operand loosest) fun e => (Node.expr e).ReachesIn
  statement {S : Around} {may : Prop} {n : Nat} :
    Parser.Carries S may True (n + 1) False lower.statement lower.statement fun s => (Node.stmt s).ReachesIn
  pattern {S : Around} {may lost : Prop} {n : Nat} :
    Parser.Carries S may lost n False lower.pattern lower.pattern fun p => (Node.pattern p).ReachesIn
  heads {c : Cursor} (plain : c.Plain) :
    (∃ name, c.current.kind = .identifier name ∧
      ∀ d : Cursor, d.current.kind = .identifier name → lower.pattern d = .ok (.name name) d.advance) ∨
    ∀ (S : Around) (d : Cursor), SameKind S c.current.kind d.current.kind →
      ∃ issue, lower.pattern d = .error issue d

namespace Carries

/-! ## Patterns -/

theorem defaultValue (carries : lower.Carries) :
    Carries S may lost n False (Parser.defaultValue lower) (Parser.defaultValue lower) fun e =>
      SomeReachIn (Expr.optionNodes e) := by
  refine step (eatPunct _ (by decide)) fun _ => ite (fun _ => ?_) fun _ => pure False.elim
  exact bind carries.assignment fun e => pure fun reached => by simpa [Expr.optionNodes] using reached

/-- The reservation reaches an operation with `in` in one of the elements. -/
def ElementsReach (found : List (Option Element)) : Prop :=
  ∃ e, some e ∈ found ∧ SomeReachIn e.nodes

theorem ElementsReach.cons {found : List (Option Element)} {e : Option Element} (reached : ElementsReach found) :
    ElementsReach (e :: found) := by
  obtain ⟨e, mem, inner⟩ := reached
  exact ⟨e, List.mem_cons_of_mem _ mem, inner⟩

theorem array_reached {found : List (Option Element)} {rest : Option Pattern}
    (reached : ElementsReach found ∨ SomeReachIn (Pattern.optionNodes rest)) :
    (Node.pattern (.array found.reverse rest)).ReachesIn := by
  refine .of_reach ?_
  rcases reached with ⟨e, mem, inner⟩ | inner
  · refine someReachIn_append.2 (.inl (someReachIn_flatMap.2 ⟨e, ?_, inner⟩))
    exact List.reduceOption_mem_iff.2 (List.mem_reverse.2 mem)
  · exact someReachIn_append.2 (.inr inner)

theorem arrayPatternTurn (carries : lower.Carries) (found : List (Option Element)) :
    Carries S may lost n (ElementsReach found) (Parser.arrayPatternTurn lower found)
      (Parser.arrayPatternTurn lower found)
      (Turn.Holds ElementsReach fun p => (Node.pattern p).ReachesIn) := by
  unfold Parser.arrayPatternTurn
  have alone : ElementsReach found → (Node.pattern (.array found.reverse none)).ReachesIn :=
    fun reached => array_reached (.inl reached)
  refine step (eatPunct _ (by decide)) fun _ => ite (fun _ => pure alone) fun _ => ?_
  refine step (eatPunct _ (by decide)) fun _ => ite (fun _ => pure .cons) fun _ => ?_
  refine step (eatPunct _ (by decide)) fun _ => ite (fun _ => ?_) fun _ => ?_
  · refine bind carries.pattern fun rest => step (eatPunct _ (by decide)) fun _ => ite (fun _ => ?_) fun _ => ?_
    · refine pure fun reached => array_reached (reached.imp_right fun inner => ?_)
      simpa [Pattern.optionNodes] using inner
    · exact step (checkPunct _ (by decide)) fun _ => ite (fun _ => fail _) fun _ => fail _
  · refine bind carries.pattern fun target => bind (defaultValue carries) fun default => ?_
    have more : (ElementsReach found ∨ (Node.pattern target).ReachesIn) ∨ SomeReachIn (Expr.optionNodes default) →
        ElementsReach (some (.mk target default) :: found) := by
      rintro ((reached | inner) | inner)
      · exact reached.cons
      · exact ⟨_, List.mem_cons_self .., someReachIn_cons.2 (.inl inner)⟩
      · exact ⟨_, List.mem_cons_self .., someReachIn_cons.2 (.inr inner)⟩
    refine step (eatPunct _ (by decide)) fun _ => ite (fun _ => pure more) fun _ => ?_
    exact step (expectPunct _ _) fun _ => pure fun reached => array_reached (.inl (more reached))

theorem patternField (carries : lower.Carries) :
    Carries S may lost n False (Parser.patternField lower) (Parser.patternField lower) fun f =>
      SomeReachIn f.nodes := by
  unfold Parser.patternField
  refine kind_bind_of_agree (fun _ _ => rfl) rfl fun c d => ?_
  cases here : propertyKey? c.current.kind with
  | none => exact fail _ c d
  | some found =>
    obtain ⟨key, shorthand⟩ := found
    have more : c.current.kind ≠ .eof := by
      intro eof
      rw [eof] at here
      cases here
    have withDefault : ∀ target : Pattern, Carries S may lost n (False ∨ (Node.pattern target).ReachesIn)
        (do return Field.mk key target (← Parser.defaultValue lower))
        (do return Field.mk key target (← Parser.defaultValue lower)) fun f => SomeReachIn f.nodes :=
      fun target => bind (defaultValue carries) fun default => pure fun reached => by
        simpa [Field.nodes] using reached
    refine advance_bind_at more (step (eatPunct _ (by decide)) fun _ => ite (fun _ => ?_) fun _ => ?_)
    · exact bind carries.pattern withDefault
    · exact ite (fun _ => (withDefault (.name key)).mono .inl) fun _ => fail_bind _

/-- The reservation reaches an operation with `in` in one of the fields. -/
def FieldsReach (found : List Field) : Prop :=
  ∃ f ∈ found, SomeReachIn f.nodes

theorem object_reached {found : List Field} {rest : Option String} (reached : FieldsReach found) :
    (Node.pattern (.object found.reverse rest)).ReachesIn := by
  obtain ⟨f, mem, inner⟩ := reached
  exact .of_reach (someReachIn_flatMap.2 ⟨f, List.mem_reverse.2 mem, inner⟩)

theorem objectPatternTurn (carries : lower.Carries) (found : List Field) :
    Carries S may lost n (FieldsReach found) (Parser.objectPatternTurn lower found)
      (Parser.objectPatternTurn lower found)
      (Turn.Holds FieldsReach fun p => (Node.pattern p).ReachesIn) := by
  unfold Parser.objectPatternTurn
  refine step (eatPunct _ (by decide)) fun _ => ite (fun _ => pure object_reached) fun _ => ?_
  refine step (eatPunct _ (by decide)) fun _ => ite (fun _ => ?_) fun _ => ?_
  · refine step expectIdentifier fun rest => ?_
    refine step (eatPunct _ (by decide)) fun _ => ite (fun _ => pure object_reached) fun _ => ?_
    exact step (checkPunct _ (by decide)) fun _ => ite (fun _ => fail _) fun _ => fail _
  · refine bind (patternField carries) fun field => ?_
    have more : FieldsReach found ∨ SomeReachIn field.nodes → FieldsReach (field :: found) := by
      rintro (⟨f, mem, inner⟩ | inner)
      · exact ⟨f, List.mem_cons_of_mem _ mem, inner⟩
      · exact ⟨field, List.mem_cons_self .., inner⟩
    refine step (eatPunct _ (by decide)) fun _ => ite (fun _ => pure more) fun _ => ?_
    exact step (expectPunct _ _) fun _ => pure fun reached => object_reached (more reached)

theorem bindingPattern (carries : lower.Carries) :
    Carries S may lost n False (Parser.bindingPattern lower) (Parser.bindingPattern lower) fun p =>
      (Node.pattern p).ReachesIn := by
  unfold Parser.bindingPattern
  refine kind_bind_of_fails (fun _ _ => rfl) nofun fun c d more => ?_
  generalize c.current.kind = k
  split
  · exact advance_bind_at more (pure False.elim)
  · exact advance_bind_at more (repeatFrom False.elim fun found => arrayPatternTurn carries found)
  · exact advance_bind_at more (repeatFrom False.elim fun found => objectPatternTurn carries found)
  · exact fail _ c d
  · exact fail _ c d

/-! ## Functions -/

/-- The reservation reaches an operation with `in` in one of the parameters. -/
def ParamsReach (found : List Element) : Prop :=
  ∃ e ∈ found, SomeReachIn e.nodes

theorem params_reached {found : List Element} {rest : Option Pattern}
    (reached : ParamsReach found ∨ SomeReachIn (Pattern.optionNodes rest)) :
    SomeReachIn (Agrees.paramNodes (found.reverse, rest)) := by
  rcases reached with ⟨e, mem, inner⟩ | inner
  · exact someReachIn_append.2 (.inl (someReachIn_flatMap.2 ⟨e, List.mem_reverse.2 mem, inner⟩))
  · exact someReachIn_append.2 (.inr inner)

/-- One parameter more, or the end of the list. -/
theorem paramsTurn (carries : lower.Carries) (found : List Element) :
    Carries S may lost (n + 1) (ParamsReach found) (Parser.paramsTurn lower found) (Parser.paramsTurn lower found)
      (Turn.Holds ParamsReach fun params => SomeReachIn (Agrees.paramNodes params)) := by
  unfold Parser.paramsTurn
  refine step (checkPunct _ (by decide)) fun _ => ite (fun _ => ?_) fun _ => ?_
  · exact pure fun reached => params_reached (.inl reached)
  refine position_bind fun place place' => ?_
  refine step (eatPunct _ (by decide)) fun _ => ite (fun _ => ?_) fun _ => ?_
  · refine bind carries.pattern fun rest => step (declareAll _ _ _ _) fun _ => ?_
    refine step (checkPunct _ (by decide)) fun _ => ite (fun _ => fail_bind _) fun _ => ?_
    refine pure fun reached => params_reached (reached.imp_right fun inner => ?_)
    simpa [Pattern.optionNodes] using inner
  · refine bind carries.pattern fun target => step (declareAll _ _ _ _) fun _ => ?_
    refine bind (defaultValue carries) fun default => ?_
    have more : (ParamsReach found ∨ (Node.pattern target).ReachesIn) ∨ SomeReachIn (Expr.optionNodes default) →
        ParamsReach (.mk target default :: found) := by
      rintro ((⟨e, mem, inner⟩ | inner) | inner)
      · exact ⟨e, List.mem_cons_of_mem _ mem, inner⟩
      · exact ⟨_, List.mem_cons_self .., someReachIn_cons.2 (.inl inner)⟩
      · exact ⟨_, List.mem_cons_self .., someReachIn_cons.2 (.inr inner)⟩
    refine step (eatPunct _ (by decide)) fun _ => ite (fun _ => pure more) fun _ => ?_
    exact pure fun reached => params_reached (.inl (more reached))

theorem params (carries : lower.Carries) :
    Carries S may lost (n + 1) False (Parser.params lower) (Parser.params lower) fun params =>
      SomeReachIn (Agrees.paramNodes params) := by
  unfold Parser.params
  refine step (expectPunct _ _) fun _ => ?_
  refine bind (repeatFrom (Q := ParamsReach) nofun fun found => paramsTurn carries found) fun params => ?_
  exact step (expectPunct _ _) fun _ => pure (Or.elim · False.elim id)

/-- The reservation reaches an operation with `in` in one of the statements. -/
def StatementsReach (found : List Stmt) : Prop :=
  ∃ s ∈ found, (Node.stmt s).ReachesIn

theorem statements_reached {found : List Stmt} (reached : StatementsReach found) :
    SomeReachIn (found.reverse.map Node.stmt) := by
  obtain ⟨s, mem, inner⟩ := reached
  exact someReachIn_map.2 ⟨s, List.mem_reverse.2 mem, inner⟩

theorem StatementsReach.cons {found : List Stmt} {s : Stmt}
    (reached : StatementsReach found ∨ (Node.stmt s).ReachesIn) : StatementsReach (s :: found) := by
  rcases reached with ⟨s, mem, inner⟩ | inner
  · exact ⟨s, List.mem_cons_of_mem _ mem, inner⟩
  · exact ⟨s, List.mem_cons_self .., inner⟩

/-- The statements of a block, one after the other. -/
theorem iterate_blockTurn (lower : Level) (turns : Nat) (found : List Stmt) :
    Parser.iterate (blockTurn lower) (turns + 1) found = (do
      if ← Parser.eatPunct .closeBrace then return found.reverse
      else if ← atEof then Parser.fail .closeBraceExpected
      else
        let s ← lower.statement
        Parser.iterate (blockTurn lower) turns (s :: found)) := by
  rw [Parser.iterate]
  unfold blockTurn Parser.eatPunct
  rw [bind_assoc, bind_assoc]
  refine congrArg (Bind.bind _) (funext fun closes => ?_)
  cases closes with
  | true => simp
  | false =>
    simp only [Bool.false_eq_true, if_false, pure_bind, bind_assoc]
    refine congrArg (Bind.bind _) (funext fun ends => ?_)
    cases ends with
    | true => rfl
    | false => simp

/-- At the end of the input a block is not finished. -/
theorem iterate_blockTurn_atEnd (lower : Level) (turns : Nat) (found : List Stmt) {c c' : Cursor}
    {statements : List Stmt} (ends : c.AtEnd) :
    Parser.iterate (blockTurn lower) turns found c ≠ .ok statements c' := by
  cases turns with
  | zero => exact nofun
  | succ turns =>
    intro run
    rw [iterate_blockTurn] at run
    obtain ⟨closes, c₁, eaten, run⟩ := exists_of_run run
    rw [eatPunct_apply, ends.kind] at eaten
    cases eaten
    obtain ⟨eof, c₂, seen, run⟩ := exists_of_run run
    have seen : EStateM.Result.ok c.current.kind.isEof c = .ok eof c₂ := seen
    rw [ends.kind] at seen
    cases seen
    cases run

/-- Statements may be lost at the end of the input, but then the block is not finished. -/
theorem blockContents (carries : lower.Carries) :
    Carries S may lost (n + 1) False (Parser.blockContents lower) (Parser.blockContents lower) fun statements =>
      SomeReachIn (statements.map Node.stmt) := by
  have turns : ∀ turns more (found : List Stmt), Carries S may lost (n + 1) (StatementsReach found)
      (Parser.iterate (blockTurn lower) turns found) (Parser.iterate (blockTurn lower) (turns + more) found)
      fun statements => SomeReachIn (statements.map Node.stmt) := by
    intro turns more
    induction turns with
    | zero => exact fun found => fail _
    | succ turns ih =>
      intro found
      rw [Nat.succ_add, iterate_blockTurn, iterate_blockTurn]
      refine step (eatPunct _ (by decide)) fun _ => ite (fun _ => pure statements_reached) fun _ => ?_
      refine unless_eof _ fun c d => ?_
      refine CarriesAt.bind_of_lost (carries.statement c d) (fun s => (ih (s :: found)).mono .cons) ?_
      exact fun _ s c b c' ends run => absurd run (iterate_blockTurn_atEnd lower turns _ ends)
  exact repeatFrom_of_turns fun m more => (turns m more []).mono False.elim

theorem block (carries : lower.Carries) :
    Carries S may lost n False (Parser.block lower) (Parser.block lower) fun statements =>
      SomeReachIn (statements.map Node.stmt) :=
  inBlock (blockContents carries)

theorem expectBlock (carries : lower.Carries) :
    Carries S may lost n False (Parser.expectBlock lower) (Parser.expectBlock lower) fun statements =>
      SomeReachIn (statements.map Node.stmt) :=
  step (expectPunct _ _) fun _ => block carries

theorem functionRest (carries : lower.Carries) :
    Carries S may lost n False (Parser.functionRest lower) (Parser.functionRest lower) fun f =>
      SomeReachIn f.reach := by
  unfold Parser.functionRest
  refine inBlock (bind (params carries) fun params => step (expectPunct _ _) fun _ => ?_)
  refine bind (blockContents carries) fun statements => pure fun reached => ?_
  exact someReachIn_append.2 (reached.imp_left (Or.elim · False.elim id))

/-- The body of an arrow function is read by the same reservation. -/
theorem arrow (carries : lower.Carries) :
    Carries S may lost n False (Parser.arrow lower) (Parser.arrow lower) fun f => SomeReachIn f.reach := by
  have body : ∀ positional rest, Carries S may lost (n + 1) (SomeReachIn (Agrees.paramNodes (positional, rest)))
      (do
        Parser.expectPunct .arrow .arrowExpected
        if ← Parser.eatPunct .openBrace then
          return Function.mk positional rest (.block (← Parser.blockContents lower))
        else return Function.mk positional rest (.expr (← Parser.allowingIn lower.assignment)))
      (do
        Parser.expectPunct .arrow .arrowExpected
        if ← Parser.eatPunct .openBrace then
          return Function.mk positional rest (.block (← Parser.blockContents lower))
        else return Function.mk positional rest (.expr (← Parser.allowingIn lower.assignment)))
      (fun f => SomeReachIn f.reach) := by
    intro positional rest
    refine step (expectPunct _ _) fun _ => step (eatPunct _ (by decide)) fun _ => ite (fun _ => ?_) fun _ => ?_
    · exact bind (blockContents carries) fun statements => pure fun reached => someReachIn_append.2 reached
    · exact step (allowingIn carries.assignment) fun e => pure id
  unfold Parser.arrow
  refine inBlock (kind_bind_of_agree (fun _ _ => rfl) rfl fun c d => ?_)
  generalize here : c.current.kind = k
  split
  · next name =>
    have more : c.current.kind ≠ .eof := by
      rw [here]
      exact nofun
    refine position_bind_at fun place place' => advance_bind_at more (step (declare _ _ _ _) fun _ => ?_)
    exact (body [.mk (.name name) none] none).mono False.elim
  · exact bind (params carries) (fun params => (body params.1 params.2).mono (Or.elim · False.elim id)) c d

/-! ## Lists of expressions -/

/-- The reservation reaches an operation with `in` in one of the expressions. -/
def ExpressionsReach (found : List Expr) : Prop :=
  ∃ e ∈ found, (Node.expr e).ReachesIn

theorem ExpressionsReach.cons {found : List Expr} {e : Expr}
    (reached : ExpressionsReach found ∨ (Node.expr e).ReachesIn) : ExpressionsReach (e :: found) := by
  rcases reached with ⟨e, mem, inner⟩ | inner
  · exact ⟨e, List.mem_cons_of_mem _ mem, inner⟩
  · exact ⟨e, List.mem_cons_self .., inner⟩

theorem sequenceTurn (carries : lower.Carries) (found : List Expr) :
    Carries S may lost n (ExpressionsReach found) (Parser.sequenceTurn lower found) (Parser.sequenceTurn lower found)
      (Turn.Holds ExpressionsReach fun e => (Node.expr e).ReachesIn) := by
  unfold Parser.sequenceTurn
  refine step (eatPunct _ (by decide)) fun _ => ite (fun _ => ?_) fun _ => pure ?_
  · exact bind carries.assignment fun e => pure .cons
  · rintro ⟨e, mem, inner⟩
    exact .of_reach (someReachIn_map.2 ⟨e, List.mem_reverse.2 mem, inner⟩)

theorem expression (carries : lower.Carries) :
    Carries S may lost n False (Parser.expression lower) (Parser.expression lower) fun e =>
      (Node.expr e).ReachesIn := by
  unfold Parser.expression
  refine bind carries.assignment fun first => ?_
  refine step (checkPunct _ (by decide)) fun _ => ite (fun _ => ?_) fun _ => pure (Or.elim · False.elim id)
  refine repeatFrom (fun reached => ?_) fun found => sequenceTurn carries found
  exact ⟨first, List.mem_cons_self .., reached.resolve_left id⟩

theorem propertyName : Carries S may lost n False Parser.propertyName Parser.propertyName fun _ => False := by
  unfold Parser.propertyName
  refine kind_bind_of_fails (fun _ _ => rfl) nofun fun c d more => ?_
  generalize c.current.kind = k
  split
  · exact advance_bind_at more (pure False.elim)
  · exact advance_bind_at more (pure False.elim)
  · exact fail _ c d

theorem bracketed (carries : lower.Carries) :
    Carries S may lost n False (Parser.bracketed lower) (Parser.bracketed lower) fun _ => False :=
  step (allowingIn (expression carries)) fun _ => step (expectPunct _ _) fun _ => pure id

/-! Inside of brackets `in` is reserved in neither reading. -/

theorem spreadable (carries : lower.Carries) :
    Carries S False lost n False (Parser.spreadable lower) (Parser.spreadable lower) fun _ => False := by
  unfold Parser.spreadable
  refine step (eatPunct _ (by decide)) fun _ => ite (fun _ => ?_) fun _ => carries.assignment.forget
  exact step carries.assignment.forget fun e => pure id

/-- Turns of a loop where there is nothing to tell. -/
theorem quiet {α β : Type} {p q : Parse (Turn α β)} (carries : Carries S may lost n False p q fun _ => False) :
    Carries S may lost n False p q (Turn.Holds (fun _ => False) fun _ => False) :=
  carries.imp fun _ => False.elim

theorem arguments (carries : lower.Carries) :
    Carries S may lost n False (Parser.arguments lower) (Parser.arguments lower) fun _ => False := by
  have turn : ∀ found : List Expr, Carries S False lost n False (Parser.argumentTurn lower found)
      (Parser.argumentTurn lower found) fun _ => False := by
    intro found
    unfold Parser.argumentTurn
    refine step (checkPunct _ (by decide)) fun _ => ite (fun _ => pure id) fun _ => ?_
    refine step (spreadable carries) fun e => ?_
    exact step (eatPunct _ (by decide)) fun _ => ite (fun _ => pure id) fun _ => pure id
  unfold Parser.arguments
  refine step (expectPunct _ _) fun _ => allowingIn (V := fun _ => False) ?_
  exact step (repeatFrom id fun found => quiet (turn found)) fun args => step (expectPunct _ _) fun _ => pure id

theorem arrayTurn (carries : lower.Carries) (found : List Expr) :
    Carries S False lost n False (Parser.arrayTurn lower found) (Parser.arrayTurn lower found) fun _ => False := by
  unfold Parser.arrayTurn
  refine step (eatPunct _ (by decide)) fun _ => ite (fun _ => pure id) fun _ => ?_
  refine step (eatPunct _ (by decide)) fun _ => ite (fun _ => pure id) fun _ => ?_
  refine step (spreadable carries) fun e => ?_
  refine step (eatPunct _ (by decide)) fun _ => ite (fun _ => pure id) fun _ => ?_
  exact step (expectPunct _ _) fun _ => pure id

/-! ## Templates -/

theorem isEof_iff {k : TokenKind} : k.isEof = true ↔ k = .eof := by
  cases k <;> simp [TokenKind.isEof]

/-- A complete expression is one with nothing behind it. -/
theorem completeExpression_ok {c c' : Cursor} {e : Expr} :
    completeExpression lower c = .ok e c' ↔ Parser.expression lower c = .ok e c' ∧ c'.current.kind = .eof := by
  have ends : ∀ c : Cursor, atEof c = .ok c.current.kind.isEof c := fun _ => rfl
  constructor
  · intro run
    obtain ⟨e₁, c₁, read, run⟩ := exists_of_run run
    cases eof : c₁.current.kind.isEof with
    | true =>
      cases (run_ok (eof ▸ ends c₁) _).symm.trans run
      exact ⟨read, isEof_iff.1 eof⟩
    | false =>
      have run := (run_ok (eof ▸ ends c₁) _).symm.trans run
      obtain ⟨_, _, none, _⟩ := exists_of_run run
      obtain ⟨k, _, _, none⟩ := exists_of_run none
      split at none <;> cases none
  · rintro ⟨read, eof⟩
    refine (run_ok read _).trans ?_
    exact run_ok (isEof_iff.2 eof ▸ ends c') _

/-- A text is read in the same way wherever it stands. -/
theorem completeExpression_anywhere (carries : lower.Carries) {tokens tokens' : List Token} {c' : Cursor} {e : Expr}
    (ends : ∃ init last, tokens = init ++ [last] ∧ last.kind = .eof ∧ ∀ t ∈ init, t.kind ≠ .eof)
    (same : Lexer.SameTokens tokens tokens') (plain : PlainHeads tokens)
    (run : completeExpression lower (.ofTokens tokens) = .ok e c') :
    ∃ d', completeExpression lower (.ofTokens tokens') = .ok e d' := by
  obtain ⟨init, last, rfl, eof, more⟩ := ends
  obtain ⟨init', last', rfl, sameInit, sameLast⟩ :
      ∃ init' last', tokens' = init' ++ [last'] ∧ Lexer.SameTokens init init' ∧ last'.unplaced = last.unplaced := by
    unfold Lexer.SameTokens at same
    rw [List.map_append, List.map_eq_append_iff] at same
    obtain ⟨init', rest, rfl, sameInit, sameRest⟩ := same
    obtain ⟨last', none, rfl, sameLast, sameNone⟩ := List.map_eq_cons_iff.1 sameRest
    obtain rfl := List.map_eq_nil_iff.1 sameNone
    exact ⟨init', last', rfl, sameInit, sameLast⟩
  have eof' : last'.kind = .eof := by
    have kind : TokenKind.unplaced last'.kind = TokenKind.unplaced last.kind := congrArg Token.kind sameLast
    rw [eof] at kind
    generalize last'.kind = k at kind
    cases k <;> first | rfl | cases kind
  let S : Around := ⟨last', [], [], [], .inl eof', by simp [eof', TokenKind.isPunct]⟩
  obtain ⟨read, ended⟩ := completeExpression_ok.1 run
  have beside : Beside S False 1 (.ofTokens (init ++ [last])) (.ofTokens (init' ++ [last'])) :=
    ⟨.of_sameTokens sameInit more eof, plain, .inl rfl, [[]], rfl, rfl, rfl⟩
  have inside : Carries S False False 1 False (Parser.expression lower) (Parser.expression lower) fun e =>
      (Node.expr e).ReachesIn := expression carries
  obtain ⟨alive, -⟩ := inside _ (.ofTokens (init' ++ [last'])) _ _ read
  rcases alive beside with ⟨d', read', beside'⟩ | ⟨no, -⟩ | ⟨no, -⟩
  · refine ⟨d', completeExpression_ok.2 ⟨read', ?_⟩⟩
    have kind := beside'.kind
    rw [ended] at kind
    generalize d'.current.kind = k at kind
    cases kind with
    | same => rfl
    | stop => exact eof'
  · exact no.elim
  · exact no.elim

/-- The substitutions of a template are read from texts of their own. -/
theorem templateParts (carries : lower.Carries) {chunks chunks' : List TemplateChunk}
    (same : Lexer.SameChunks chunks chunks') {c c' d : Cursor} {parts : List TemplatePart}
    (run : Parser.templateParts lower chunks c = .ok parts c') :
    c' = c ∧ (HolesAhead False (.template chunks) → Parser.templateParts lower chunks' d = .ok parts d) := by
  induction chunks generalizing chunks' parts with
  | nil =>
    obtain rfl := List.map_eq_nil_iff.1 same
    cases run
    exact ⟨rfl, fun _ => rfl⟩
  | cons chunk chunks ih =>
    obtain ⟨chunk', chunks', rfl, sameChunk, sameChunks⟩ := List.map_eq_cons_iff.1 same
    have later : HolesAhead False (.template (chunk :: chunks)) → HolesAhead False (.template chunks) := by
      rintro holes source start ⟨_, ⟨⟩, mem⟩
      exact holes source start ⟨_, rfl, List.mem_cons_of_mem _ mem⟩
    cases chunk with
    | text value =>
      cases chunk' with
      | hole => cases sameChunk
      | text value' =>
        cases sameChunk
        obtain ⟨others, c₁, read, run⟩ := exists_of_run run
        cases run
        obtain ⟨rfl, inside⟩ := ih sameChunks read
        exact ⟨rfl, fun holes => run_ok (inside (later holes)) _⟩
    | hole source start =>
      cases chunk' with
      | text => cases sameChunk
      | hole source' start' =>
        cases sameChunk
        unfold Parser.templateParts at run
        cases split : tokenizeAt source start with
        | error issue =>
          rw [split] at run
          cases run
        | ok tokens =>
          rw [split] at run
          dsimp only at run
          cases hole : completeExpression lower (.ofTokens tokens) with
          | error issue c₁ =>
            rw [hole] at run
            cases run
          | ok value c₁ =>
            rw [hole] at run
            obtain ⟨others, c₂, read, run⟩ := exists_of_run run
            cases run
            obtain ⟨rfl, inside⟩ := ih sameChunks read
            refine ⟨rfl, fun holes => ?_⟩
            have plain := (holes source start ⟨_, rfl, List.mem_cons_self ..⟩ tokens split).resolve_left id
            obtain ⟨tokens', split', sameTokens⟩ := Lexer.tokenizeAt_anywhere split start'
            obtain ⟨d', hole'⟩ := completeExpression_anywhere carries (Lexer.ends_at_eof split) sameTokens plain hole
            unfold Parser.templateParts
            rw [split']
            dsimp only
            rw [hole']
            exact run_ok (inside (later holes)) _

/-! ## Objects -/

theorem property (carries : lower.Carries) :
    Carries S False lost n False (Parser.property lower) (Parser.property lower) fun _ => False := by
  have value : Carries S False lost n False lower.assignment lower.assignment fun _ => False :=
    carries.assignment.forget
  have method : Carries S False lost n False (Parser.functionRest lower) (Parser.functionRest lower) fun _ => False :=
    (functionRest carries).forget
  unfold Parser.property
  refine step (eatPunct _ (by decide)) fun _ => ite (fun _ => step value fun e => pure id) fun _ => ?_
  refine step (eatPunct _ (by decide)) fun _ => ite (fun _ => ?_) fun _ => ?_
  · refine step (bracketed carries) fun key => ?_
    refine step (checkPunct _ (by decide)) fun _ => ite (fun _ => step method fun f => pure id) fun _ => ?_
    exact step (expectPunct _ _) fun _ => step value fun e => pure id
  · refine kind_bind_of_fails (fun _ _ => rfl) nofun fun c d more => ?_
    cases propertyKey? c.current.kind with
    | none => exact ite (fun _ => fail _) (fun _ => fail _) c d
    | some found =>
      refine advance_bind_at more ?_
      refine step (eatPunct _ (by decide)) fun _ => ite (fun _ => step value fun e => pure id) fun _ => ?_
      refine step (checkPunct _ (by decide)) fun _ => ite (fun _ => step method fun f => pure id) fun _ => ?_
      exact ite (fun _ => pure id) fun _ => fail _

theorem objectLiteral (carries : lower.Carries) :
    Carries S may lost n False (Parser.objectLiteral lower) (Parser.objectLiteral lower) fun _ => False := by
  have turn : ∀ found : List Property, Carries S False lost n False (Parser.propertyTurn lower found)
      (Parser.propertyTurn lower found) fun _ => False := by
    intro found
    unfold Parser.propertyTurn
    refine step (checkPunct _ (by decide)) fun _ => ite (fun _ => pure id) fun _ => ?_
    refine step (property carries) fun p => ?_
    exact step (eatPunct _ (by decide)) fun _ => ite (fun _ => pure id) fun _ => pure id
  unfold Parser.objectLiteral
  refine allowingIn (V := fun _ => False) ?_
  exact step (repeatFrom id fun found => quiet (turn found)) fun found => step (expectPunct _ _) fun _ => pure id

/-! ## Operands and operators -/

theorem functionExpr (carries : lower.Carries) :
    Carries S may lost n False (Parser.functionExpr lower) (Parser.functionExpr lower) fun e =>
      (Node.expr e).ReachesIn := by
  have value : Carries S may lost n False (do return Expr.function (← Parser.functionRest lower))
      (do return Expr.function (← Parser.functionRest lower)) fun e => (Node.expr e).ReachesIn :=
    bind (functionRest carries) fun f => pure fun reached => .of_reach (reached.resolve_left id)
  unfold Parser.functionExpr
  refine kind_bind_of_agree (fun _ _ => rfl) rfl fun c d => ?_
  generalize here : c.current.kind = k
  split
  · have more : c.current.kind ≠ .eof := by
      rw [here]
      exact nofun
    exact advance_bind_at more value
  · exact value c d

/-- The token in front tells the kind of operand. -/
theorem primary (carries : lower.Carries) :
    Carries S may lost n False (Parser.primary lower) (Parser.primary lower) fun e => (Node.expr e).ReachesIn := by
  unfold Parser.primary
  refine kind_bind fun c d kind => ?_
  have template : ∀ chunks chunks', Lexer.SameChunks chunks chunks' → c.current.kind = .template chunks →
      CarriesAt S may lost n False (fun e => (Node.expr e).ReachesIn) c d
        ((do Parser.advance; return Expr.template (← Parser.templateParts lower chunks)) c)
        ((do Parser.advance; return Expr.template (← Parser.templateParts lower chunks')) d) := by
    intro chunks chunks' same here e c' run
    obtain ⟨_, c₁, passed, run⟩ := exists_of_run run
    cases passed
    obtain ⟨parts, c₂, read, run⟩ := exists_of_run run
    cases run
    obtain ⟨rfl, inside⟩ := templateParts (d := d.advance) carries same read
    refine ⟨fun beside => .inl ⟨d.advance, ?_, beside.advance ?_⟩, False.elim, Cursor.AtEnd.advance⟩
    · exact run_ok (inside (here ▸ beside.holes)) _
    · rw [here]
      exact nofun
  by_cases eof : c.current.kind = .eof
  · rw [eof]
    exact fail _ c d
  generalize here : c.current.kind = k at kind
  generalize d.current.kind = k' at kind
  cases kind with
  | stop => exact absurd here eof
  | template same => exact template _ _ same here
  | same =>
    split
    case h_3 chunks => exact template chunks chunks rfl here
    case h_8 => exact advance_bind_at eof (functionExpr carries)
    case h_9 =>
      refine advance_bind_at eof (step (allowingIn (expression carries)) fun inner => ?_)
      exact step (expectPunct _ _) fun _ => pure False.elim
    case h_10 =>
      refine advance_bind_at eof ((allowingIn (V := fun _ => False) ?_).imp fun _ => False.elim)
      exact repeatFrom id fun found => quiet (arrayTurn carries found)
    case h_11 => exact advance_bind_at eof ((objectLiteral carries).imp fun _ => False.elim)
    case h_12 => exact fail _ c d
    case h_13 => exact fail _ c d
    all_goals exact advance_bind_at eof (pure False.elim)

/-- One link more, or the end of the chain. -/
theorem chainTurn (carries : lower.Carries) (chain : Expr) :
    Carries S may lost n (Node.expr chain).ReachesIn (Parser.chainTurn lower chain) (Parser.chainTurn lower chain)
      (Turn.Holds (fun e => (Node.expr e).ReachesIn) fun e => (Node.expr e).ReachesIn) := by
  have link : ∀ {e : Expr}, e.reach = [.expr chain] → (Node.expr chain).ReachesIn → (Node.expr e).ReachesIn := by
    intro e reach reached
    refine .part (show Node.expr chain ∈ e.reach from ?_) reached
    rw [reach]
    exact List.mem_cons_self ..
  have member : ∀ optional, Carries S may lost n (Node.expr chain).ReachesIn
      (do return Turn.again (.member chain (← Parser.propertyName) optional))
      (do return Turn.again (.member chain (← Parser.propertyName) optional))
      (Turn.Holds (fun e => (Node.expr e).ReachesIn) fun e => (Node.expr e).ReachesIn) :=
    fun optional => step propertyName fun name => pure (link rfl)
  have index : ∀ optional, Carries S may lost n (Node.expr chain).ReachesIn
      (do return Turn.again (.index chain (← Parser.bracketed lower) optional))
      (do return Turn.again (.index chain (← Parser.bracketed lower) optional))
      (Turn.Holds (fun e => (Node.expr e).ReachesIn) fun e => (Node.expr e).ReachesIn) :=
    fun optional => step (bracketed carries) fun key => pure (link rfl)
  have call : ∀ optional, Carries S may lost n (Node.expr chain).ReachesIn
      (do return Turn.again (.call chain (← Parser.arguments lower) optional))
      (do return Turn.again (.call chain (← Parser.arguments lower) optional))
      (Turn.Holds (fun e => (Node.expr e).ReachesIn) fun e => (Node.expr e).ReachesIn) :=
    fun optional => step (arguments carries) fun args => pure (link rfl)
  unfold Parser.chainTurn
  refine kind_bind_of_agree (fun _ _ => rfl) rfl fun c d => ?_
  by_cases eof : c.current.kind = .eof
  · rw [eof]
    exact pure id c d
  generalize c.current.kind = k
  split
  · exact advance_bind_at eof (member false)
  · refine advance_bind_at eof ?_
    refine step (checkPunct _ (by decide)) fun _ => ite (fun _ => call true) fun _ => ?_
    exact step (eatPunct _ (by decide)) fun _ => ite (fun _ => index true) fun _ => member true
  · exact advance_bind_at eof (index false)
  · exact call false c d
  · exact pure id c d

theorem callChain (carries : lower.Carries) :
    Carries S may lost n False (Parser.callChain lower) (Parser.callChain lower) fun e => (Node.expr e).ReachesIn :=
  thread (primary carries) fun _ => repeatFrom id fun chain => chainTurn carries chain

/-- An operator behind the chain, if there is one on the same line. -/
theorem postfixed (carries : lower.Carries) :
    Carries S may lost n False (Parser.postfixed lower) (Parser.postfixed lower) fun e => (Node.expr e).ReachesIn := by
  unfold Parser.postfixed
  refine position_bind fun place place' => thread (callChain carries) fun e => ?_
  refine get_bind fun c d view => ?_
  rw [view.kind.agree (f := updateOp?) (fun _ _ => rfl) rfl]
  cases here : updateOp? c.current.kind with
  | none =>
    rw [ite_self, ite_self]
    exact pure id c d
  | some op =>
    have more : c.current.kind ≠ .eof := by
      intro eof
      rw [eof] at here
      cases here
    rw [view.newline more]
    split
    · exact pure id c d
    · have update : (Node.expr e).ReachesIn → (Node.expr (.update op .after e)).ReachesIn :=
        .part (List.mem_cons_self ..)
      exact CarriesAt.ite (fun _ => advance_bind_at more (pure update)) fun _ => failAt _ _ c d

theorem unary (carries : lower.Carries) :
    Carries S may lost n False (Parser.unary lower) (Parser.unary lower) fun e => (Node.expr e).ReachesIn := by
  unfold Parser.unary
  refine kind_bind_of_agree (fun _ _ => rfl) rfl fun c d => ?_
  by_cases eof : c.current.kind = .eof
  · rw [eof]
    exact postfixed carries c d
  cases unaryOp? c.current.kind with
  | some op =>
    refine advance_bind_at eof (bind carries.unary fun operand => pure fun reached => ?_)
    exact .part (List.mem_cons_self ..) (reached.resolve_left id)
  | none =>
    cases updateOp? c.current.kind with
    | some op =>
      refine advance_bind_at eof (position_bind fun place place' => bind carries.unary fun operand => ?_)
      refine ite (fun _ => pure fun reached => ?_) fun _ => failAt _ _
      exact .part (List.mem_cons_self ..) (reached.resolve_left id)
    | none => exact postfixed carries c d

/-- The operators are the same, other than that `in` may be one in the first reading alone. -/
theorem view_binaryOp? {c d : Cursor} (view : View S may c d) :
    binaryOp? (!d.noIn) d.current.kind = binaryOp? (!c.noIn) c.current.kind ∨
      may ∧ binaryOp? (!c.noIn) c.current.kind = some .isIn ∧ binaryOp? (!d.noIn) d.current.kind = none := by
  rw [view.kind.agree (f := binaryOp? (!d.noIn)) (fun _ _ => rfl) rfl]
  rcases view.flag with same | ⟨holds, free⟩
  · rw [same]
    exact .inl rfl
  · rw [free]
    cases d.noIn with
    | false => exact .inl rfl
    | true =>
      by_cases word : c.current.kind = .keyword .in
      · rw [word]
        exact .inr ⟨holds, rfl, rfl⟩
      · refine .inl ?_
        generalize c.current.kind = k at word
        cases k with
        | keyword w => cases w <;> first | rfl | exact absurd rfl word
        | _ => rfl

/-- One operator more, if it binds tightly enough. -/
theorem binaryTurn (carries : lower.Carries) (loosest : Nat) (left : Expr) :
    Carries S may lost n (Node.expr left).ReachesIn (Parser.binaryTurn lower loosest left)
      (Parser.binaryTurn lower loosest left)
      (Turn.Holds (fun e => (Node.expr e).ReachesIn) fun e => (Node.expr e).ReachesIn) := by
  have operation : ∀ {op : BinaryOp} {right : Expr}, (Node.expr left).ReachesIn ∨ (Node.expr right).ReachesIn →
      (Node.expr (.binary op left right)).ReachesIn := by
    intro op right reached
    refine .of_reach ?_
    simpa [Node.reach, Expr.reach] using reached
  unfold Parser.binaryTurn
  refine get_bind fun c d view => ?_
  by_cases eof : c.current.kind = .eof
  · rw [view.kind.agree (f := binaryOp? (!d.noIn)) (fun _ _ => rfl) rfl, eof]
    exact pure id c d
  rcases view_binaryOp? view with same | ⟨holds, isIn, none⟩
  · rw [same]
    cases binaryOp? (!c.noIn) c.current.kind with
    | none => exact pure id c d
    | some op =>
      refine CarriesAt.ite (fun _ => pure id c d) fun _ => ?_
      exact advance_bind_at eof (bind (carries.operand _) fun right => pure operation)
  · -- the first reading goes on with an operation, if operators that bind so loosely are read here
    rw [isIn, none]
    dsimp only
    split
    · exact pure id c d
    · refine .of_guilt holds (advance_bind_at eof (bind (carries.operand _) fun right => pure fun _ => ?_))
      exact Node.ReachesIn.here

theorem binary (carries : lower.Carries) (loosest : Nat) :
    Carries S may lost n False (Parser.binary lower loosest) (Parser.binary lower loosest) fun e =>
      (Node.expr e).ReachesIn :=
  thread carries.unary fun _ => repeatFrom id fun left => binaryTurn carries loosest left

theorem conditional (carries : lower.Carries) :
    Carries S may lost n False (Parser.conditional lower) (Parser.conditional lower) fun e =>
      (Node.expr e).ReachesIn := by
  unfold Parser.conditional
  refine bind (binary carries 1) fun test => ?_
  refine step (eatPunct _ (by decide)) fun _ => ite (fun _ => ?_) fun _ => pure (Or.elim · False.elim id)
  refine step (allowingIn carries.assignment) fun consequent => step (expectPunct _ _) fun _ => ?_
  refine bind carries.assignment fun alternate => pure fun reached => .of_reach ?_
  simpa [Node.reach, Expr.reach] using reached

theorem assignment (carries : lower.Carries) :
    Carries S may lost n False (Parser.assignment lower) (Parser.assignment lower) fun e =>
      (Node.expr e).ReachesIn := by
  unfold Parser.assignment
  refine get_bind fun c d view => ?_
  rw [view.arrow]
  refine CarriesAt.ite (fun _ => ?_) fun _ => ?_
  · exact bind (arrow carries) (fun f => pure fun reached => .of_reach (reached.resolve_left id)) c d
  · refine bind (conditional carries) (fun target => ?_) c d
    refine kind_bind_of_agree (fun _ _ => rfl) rfl fun c d => ?_
    by_cases eof : c.current.kind = .eof
    · rw [eof]
      exact pure (Or.elim · False.elim id) c d
    cases assignOp? c.current.kind with
    | none => exact pure (Or.elim · False.elim id) c d
    | some op =>
      refine CarriesAt.ite (fun _ => ?_) fun _ => failAt _ _ c d
      refine advance_bind_at eof (bind carries.assignment fun value => pure fun reached => .of_reach ?_)
      simpa [Node.reach, Expr.reach] using reached

end Carries

end BindScript.Parser
