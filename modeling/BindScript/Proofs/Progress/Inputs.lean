import BindScript.Proofs.Progress.Levels
import BindScript.Proofs.Reserved.Heads

/-!
# Whole inputs

The loops of the parser take a limited number of turns. That is no restriction: a turn that is followed by another one
moves the cursor, so each loop comes to its end by itself (`Loop.runs`). With the nesting limited as well, any list of
tokens that ends with the end of the input leads to a tree or to an error. The last token is never passed, and what has
been read as a statement, an expression or a pattern is never nothing (`parser_answers`).

A source may be read as an expression or as a program. What is accepted as an expression begins with a token that begins
no statement of another kind, a brace and `function` apart (`beginsExpression_of_ok`). So as a program it is a statement
of its own, read one level deeper. There it is refused, or it is the same expression (`level_passes`), and what is left
is the end of the input, where the statement and the program end (`expression_as_program`).
-/

namespace BindScript

namespace Parser

section Tokens

variable {α β : Type}

/-! ## Loops -/

/-- A loop whose turns are not counted comes to an end. -/
inductive Loops (turn : α → Parse (Turn α β)) : α → Cursor → EStateM.Result ParseIssue Cursor β → Prop
  | again {a a' : α} {c c' : Cursor} {r : EStateM.Result ParseIssue Cursor β} (step : turn a c = .ok (.again a') c')
    (later : Loops turn a' c' r) : Loops turn a c r
  | done {a : α} {b : β} {c c' : Cursor} (last : turn a c = .ok (.done b) c') : Loops turn a c (.ok b c')
  | failed {a : α} {issue : ParseIssue} {c c' : Cursor} (fails : turn a c = .error issue c') :
    Loops turn a c (.error issue c')

/-- A turn that is followed by another one gets closer to the end. -/
def Shortens (turn : α → Parse (Turn α β)) : Prop :=
  ∀ a a' c c', c.Ended → turn a c = .ok (.again a') c' → c'.Ended ∧ c'.rest.length < c.rest.length

variable {turn : α → Parse (Turn α β)} {a : α} {c : Cursor}

/-- A loop without a count and one with enough turns do the same. -/
theorem Shortens.loops_iterate (shortens : Shortens turn) {n : Nat} (ended : c.Ended) (enough : c.rest.length < n) :
    Loops turn a c (iterate turn n a c) := by
  -- the turns left stay ahead of the tokens left
  induction n generalizing a c with
  | zero => exact absurd enough (Nat.not_lt_zero _)
  | succ n ih =>
    show Loops turn a c (EStateM.bind (turn a) _ c)
    unfold EStateM.bind
    cases step : turn a c with
    | error issue c' => exact .failed step
    | ok t c' =>
      cases t with
      | done b => exact .done step
      | again a' =>
        obtain ⟨ended', fewer⟩ := shortens a a' c c' ended step
        exact .again step (ih ended' (by omega))

/-- As many turns as there are tokens are enough. -/
theorem Shortens.loops (shortens : Shortens turn) (ended : c.Ended) : Loops turn a c (repeatFrom a turn c) :=
  shortens.loops_iterate ended (Nat.lt_succ_self _)

/-- The last turn of a loop that has a result. -/
theorem Loops.last {r : EStateM.Result ParseIssue Cursor β} (loops : Loops turn a c r) {b : β} {c' : Cursor}
    (result : r = .ok b c') : ∃ a' c'', turn a' c'' = .ok (.done b) c' := by
  induction loops with
  | again _ _ ih => exact ih result
  | done last =>
    cases result
    exact ⟨_, _, last⟩
  | failed => cases result

theorem Shortens.of_passes {done : Mark}
    (passes : ∀ a, Passes ⟨1, False⟩ (turn a) (turn a) (Turn.mark ⟨1, True⟩ done)) : Shortens turn := by
  intro a a' c c' ended step
  have comes := passes a c ended
  rw [step] at comes
  exact ⟨comes.2.ended ended, comes.2.length_lt⟩

theorem KeepingTurns.shortens (turns : KeepingTurns turn turn) : Shortens turn :=
  .of_passes (turns 0 False)

theorem ClosingTurns.shortens (turns : ClosingTurns turn turn) : Shortens turn :=
  .of_passes (turns 0 False)

/-- The loops of the parser: one turn of each, from the level below. -/
inductive Loop : {α β : Type} → (Level → α → Parse (Turn α β)) → Prop
  | arrayPattern : Loop arrayPatternTurn
  | objectPattern : Loop objectPatternTurn
  | params : Loop paramsTurn
  | block : Loop blockTurn
  | sequence : Loop sequenceTurn
  | argument : Loop argumentTurn
  | array : Loop arrayTurn
  | property : Loop propertyTurn
  | chain : Loop chainTurn
  | binary (loosest : Nat) : Loop (binaryTurn · loosest)
  | declarator (kind : DeclKind) : Loop (declaratorTurn · kind)
  | caseBody : Loop caseBodyTurn
  | case : Loop caseTurn
  | program : Loop programTurn

/-- In every loop of the parser, going on means to have passed a token. -/
theorem Loop.shortens {turn : Level → α → Parse (Turn α β)} (loop : Loop turn) {lower : Level}
    (passes : lower.Passes lower) : Shortens (turn lower) := by
  cases loop with
  | arrayPattern => exact (ClosingTurns.arrayPattern passes).shortens
  | objectPattern => exact (ClosingTurns.objectPattern passes).shortens
  | params => exact (KeepingTurns.params passes).shortens
  | block => exact (ClosingTurns.block passes).shortens
  | sequence => exact (KeepingTurns.sequence passes).shortens
  | argument => exact (KeepingTurns.argument passes).shortens
  | array => exact (ClosingTurns.array passes).shortens
  | property => exact (KeepingTurns.property passes).shortens
  | chain => exact (KeepingTurns.chain passes).shortens
  | binary loosest => exact (KeepingTurns.binary passes loosest).shortens
  | declarator kind => exact (KeepingTurns.declarator passes kind).shortens
  | caseBody => exact (KeepingTurns.caseBody passes).shortens
  | case => exact (ClosingTurns.case passes).shortens
  | program => exact (KeepingTurns.program passes).shortens

/-- Each loop of the parser comes to its end by itself. -/
theorem Loop.runs {turn : Level → α → Parse (Turn α β)} (loop : Loop turn) (n : Nat) (a : α) (ended : c.Ended) :
    Loops (turn (level n)) a c (repeatFrom a (turn (level n)) c) :=
  (loop.shortens (level_passes_self n)).loops ended

/-! ## Answers -/

/-- A tree or an error. The last token is still ahead, together with some of those in front of it; of these there are
as many left after a tree as the property says. -/
def Answers (front : List Token) (last : Token) (left : List Token → Prop) : EStateM.Result ParseIssue Cursor α → Prop
  | .ok _ c' => ∃ more, c'.rest = more ++ [last] ∧ more <:+ front ∧ left more
  | .error _ c' => ∃ more, c'.rest = more ++ [last] ∧ more <:+ front

section Ends

variable {front : List Token} {last : Token} {c' : Cursor} {p q : Parse α} {left : List Token → Prop}

/-- Where the last token is still ahead, it is the same one. -/
theorem exists_left (ahead : c.rest = front ++ [last]) (ended : c'.Ended) (suffix : c'.rest <:+ c.rest) :
    ∃ more, c'.rest = more ++ [last] ∧ more <:+ front := by
  obtain ⟨more, last', split, -, -⟩ := ended
  obtain ⟨passed, whole⟩ := suffix
  rw [ahead, split, ← List.append_assoc] at whole
  obtain ⟨rfl, same⟩ := List.append_inj' whole rfl
  obtain rfl := List.singleton_inj.1 same
  exact ⟨more, split, passed, rfl⟩

theorem Passes.answers {depth : Nat} {e : α → Mark} (passes : Passes ⟨depth + 1, False⟩ p p e) (ended : c.Ended)
    (ahead : c.rest = front ++ [last])
    (success : ∀ a c', p c = .ok a c' → c'.Ended → c.Comes ⟨depth + 1, False⟩ c' (e a) → ∀ more,
      c'.rest = more ++ [last] → left more) : Answers front last left (p c) := by
  have passes := passes c ended
  cases run : p c with
  | error issue c' =>
    rw [run] at passes
    exact exists_left ahead passes.2 passes.1
  | ok a c' =>
    rw [run] at passes
    obtain ⟨more, split, suffix⟩ := exists_left ahead (passes.2.ended ended) passes.2.suffix
    exact ⟨more, split, suffix, success a c' run (passes.2.ended ended) passes.2 more split⟩

theorem Moves.answers (moves : Moves p p) (ended : c.Ended) (ahead : c.rest = front ++ [last]) :
    Answers front last (fun more => more.length < front.length) (p c) := by
  refine (moves 0 False).answers ended ahead fun a c' _ _ comes more split => ?_
  have fewer := comes.length_lt
  rw [split, ahead, List.length_append, List.length_append] at fewer
  omega

/-- At the end of the input nothing else is left. -/
theorem eq_nil_of_eof {more : List Token} (ended : c.Ended) (split : c.rest = more ++ [last])
    (eof : c.current.kind = .eof) : more = [] := by
  obtain ⟨more', last', split', -, others⟩ := ended
  obtain ⟨rfl, -⟩ := List.append_inj' (split.symm.trans split') rfl
  cases more with
  | nil => rfl
  | cons t more =>
    unfold Cursor.current at eof
    rw [split] at eof
    exact absurd eof (others t (List.mem_cons_self ..))

theorem eof_of_programTurn {lower : Level} {found statements : List Stmt}
    (run : programTurn lower found c = .ok (.done statements) c') : c'.current.kind = .eof := by
  change (if c.current.kind.isEof = true then pure (Turn.done found.reverse) else _ : Parse (Turn _ _)) c = _ at run
  split at run
  · next eof =>
    cases run
    exact Carries.isEof_iff.1 eof
  · obtain ⟨_, _, -, again⟩ := exists_of_run run
    cases again

end Ends

/-- Any list of tokens whose last one, and no other, is the end of the input is answered. Loops end by themselves. A
program or a complete expression takes everything but the last token. A statement, an assignment or a pattern takes at
least one token. Whether they succeed or fail, the last token is still ahead of them, although nothing in
`Cursor.advance` keeps it there: no grammar rule takes the end of the input for one of its tokens. -/
theorem parser_answers {front : List Token} {last : Token} (eof : last.kind = .eof)
    (others : ∀ t ∈ front, t.kind ≠ .eof) (n : Nat) {c : Cursor} (ahead : c.rest = front ++ [last]) :
    (∀ {α β : Type} {turn : Level → α → Parse (Turn α β)}, Loop turn → ∀ a,
      Loops (turn (level n)) a c (repeatFrom a (turn (level n)) c)) ∧
    Answers front last (fun more => more = []) (program (level n) c) ∧
    Answers front last (fun more => more = []) (completeExpression (level n) c) ∧
    Answers front last (fun more => more.length < front.length) ((level n).statement c) ∧
    Answers front last (fun more => more.length < front.length) ((level n).assignment c) ∧
    Answers front last (fun more => more.length < front.length) ((level n).pattern c) := by
  have ended : c.Ended := ⟨front, last, ahead, eof, others⟩
  have passes := level_passes_self n
  refine ⟨fun loop a => loop.runs n a ended, ?_, ?_, passes.statement.answers ended ahead,
    passes.assignment.answers ended ahead, passes.pattern.answers ended ahead⟩
  · refine (Keeps.program passes 0 False).answers ended ahead fun statements c' run ended' _ more split => ?_
    obtain ⟨_, _, done⟩ := (Loop.program.runs n [] ended).last run
    exact eq_nil_of_eof ended' split (eof_of_programTurn done)
  · refine (Moves.completeExpression passes 0 False).answers ended ahead fun e c' run ended' _ more split => ?_
    exact eq_nil_of_eof ended' split (Carries.completeExpression_ok.1 run).2

/-- `[x]` -/
def singletonList : List Token :=
  [⟨.punct .openBracket, .start, false⟩, ⟨.identifier "x", .start, false⟩, ⟨.punct .closeBracket, .start, false⟩]

/-- A list is read as a statement, and the end of the input is still ahead. -/
theorem list_answered :
    (∀ t ∈ singletonList, t.kind ≠ .eof) ∧ ∃ s c' more,
      (level maxNesting).statement (.ofTokens (singletonList ++ [⟨.eof, .start, false⟩])) = .ok s c' ∧
        c'.rest = more ++ [⟨.eof, .start, false⟩] ∧ more.length < singletonList.length := by
  have others : ∀ t ∈ singletonList, t.kind ≠ .eof :=
    List.forall_mem_cons.2 ⟨nofun, List.forall_mem_cons.2 ⟨nofun, List.forall_mem_singleton.2 nofun⟩⟩
  obtain ⟨-, -, -, answered, -, -⟩ := @parser_answers _ ⟨.eof, .start, false⟩ rfl others maxNesting
    (.ofTokens (singletonList ++ [⟨.eof, .start, false⟩])) rfl
  obtain ⟨s, c', read⟩ : ∃ s c',
      (level maxNesting).statement (.ofTokens (singletonList ++ [⟨.eof, .start, false⟩])) = .ok s c' :=
    ⟨_, _, rfl⟩
  rw [read] at answered
  obtain ⟨more, split, -, fewer⟩ := answered
  exact ⟨others, s, c', more, read, split, fewer⟩

end Tokens

end Parser

/-! ## Beginnings of expressions -/

/-- An operand without operators may begin with the token. -/
def TokenKind.beginsOperand : TokenKind → Bool
  | .number _ | .string _ | .template _ | .identifier _ => true
  | .keyword .true | .keyword .false | .keyword .null | .keyword .function => true
  | .punct .openParen | .punct .openBracket | .punct .openBrace => true
  | _ => false

/-- An expression may begin with the token. -/
def TokenKind.beginsExpression (k : TokenKind) : Bool :=
  k.beginsOperand || (Parser.unaryOp? k).isSome || (Parser.updateOp? k).isSome

namespace Parser

variable {lower : Level} {n : Nat} {c c' : Cursor} {e : Expr}

theorem primary_fails (lower : Level) (other : c.current.kind.beginsOperand = false) :
    ∃ issue, primary lower c = .error issue c := by
  unfold primary
  rw [run_kind]
  generalize c.current.kind = k at other
  split <;> first | exact ⟨_, rfl⟩ | cases other

/-- Nothing else is accepted as an expression. -/
theorem beginsExpression_of_ok (read : expression (level n) c = .ok e c') : c.current.kind.beginsExpression = true := by
  by_contra other
  simp only [TokenKind.beginsExpression, Bool.or_eq_true, not_or, Bool.not_eq_true, Option.isSome_eq_false_iff,
    Option.isNone_iff_eq_none] at other
  obtain ⟨⟨operand, unary⟩, update⟩ := other
  have begins : c.AtOperand := by
    refine .of_kind rfl (fun name here => ?_) (fun here => ?_) unary update
    · rw [here] at operand
      cases operand
    · rw [here] at operand
      cases operand
  cases n with
  | zero => cases read
  | succ n =>
    obtain ⟨k, e', c₁, -, first⟩ := begins.exists_primary read
    obtain ⟨issue, fails⟩ := primary_fails (level k) operand
    cases fails.symm.trans first

/-- A statement that begins like an expression, but neither with a brace nor with `function`, is an expression. -/
theorem statement_of_begins (lower : Level) (begins : c.current.kind.beginsExpression = true)
    (noBrace : c.current.kind ≠ .punct .openBrace) (noFunction : c.current.kind ≠ .keyword .function) :
    statement lower c = (do let e ← expression lower; endStatement; return Stmt.expr e : Parse Stmt) c := by
  unfold statement
  rw [run_kind]
  generalize c.current.kind = k at begins noBrace noFunction
  split
  case h_2 => exact absurd rfl noBrace
  case h_16 => exact absurd rfl noFunction
  case h_17 => rfl
  all_goals exact absurd begins (by decide)

/-! ## Programs of one statement -/

theorem endStatement_of_eof (eof : c.current.kind = .eof) : endStatement c = .ok () c := by
  have semicolon : eatPunct .semicolon c = .ok false c := by
    rw [eatPunct_apply, eof]
    rfl
  refine (run_ok semicolon _).trans ?_
  show (if c.atStatementEnd = true then Pure.pure () else unexpected : Parse Unit) c = _
  have ends : c.atStatementEnd = true := by
    simp only [Cursor.atStatementEnd, eof, TokenKind.isEof, Bool.true_or]
  rw [if_pos ends]
  rfl

section Programs

variable {s : Stmt} {issue : ParseIssue}

theorem programTurn_of_more (more : c.current.kind ≠ .eof) (found : List Stmt) :
    programTurn lower found c = (do return Turn.again ((← lower.statement) :: found) : Parse _) c := by
  have goesOn : atEof c = .ok false c := by
    show EStateM.Result.ok c.current.kind.isEof c = _
    rw [Bool.eq_false_iff.2 fun eof => more (Carries.isEof_iff.1 eof)]
  exact run_ok goesOn _

/-- What fails as the first statement fails as a program. -/
theorem program_of_error (more : c.current.kind ≠ .eof) (fails : lower.statement c = .error issue c') :
    program lower c = .error issue c' := by
  have turn : programTurn lower [] c = .error issue c' := by
    rw [programTurn_of_more more]
    show EStateM.bind lower.statement _ c = _
    unfold EStateM.bind
    rw [fails]
  show EStateM.bind (programTurn lower []) _ c = _
  unfold EStateM.bind
  rw [turn]

/-- A statement up to the end of the input is the whole program. -/
theorem program_of_one (ended : c.Ended) (more : c.current.kind ≠ .eof) (read : lower.statement c = .ok s c')
    (eof : c'.current.kind = .eof) : program lower c = .ok [s] c' := by
  have first : programTurn lower [] c = .ok (.again [s]) c' := by
    rw [programTurn_of_more more]
    exact run_ok read _
  have last : programTurn lower [s] c' = .ok (.done [s]) c' := by
    show (if c'.current.kind.isEof = true then pure (Turn.done [s].reverse) else _ : Parse (Turn _ _)) c' = _
    rw [eof]
    rfl
  -- there is a token, so the loop may take a second turn, the one that finds the end
  have turns : ∃ n, c.rest.length = n + 1 := by
    rw [ended.advance_rest more]
    exact ⟨_, rfl⟩
  obtain ⟨turns, length⟩ := turns
  show iterate (programTurn lower) (c.rest.length + 1) [] c = _
  rw [length]
  exact (run_ok first _).trans (run_ok last _)

end Programs

/-- From the same tokens: the expression one level deeper is refused, and the program with it, or it is the same one,
and the whole program. -/
theorem program_of_expression (ended : c.Ended) (read : completeExpression (level (n + 1)) c = .ok e c')
    (noBrace : c.current.kind ≠ .punct .openBrace) (noFunction : c.current.kind ≠ .keyword .function) :
    program (level (n + 1)) c = .ok [.expr e] c' ∨
      ∃ issue c₁, program (level (n + 1)) c = .error issue c₁ ∧ completeExpression (level n) c = .error issue c₁ := by
  obtain ⟨read, eof⟩ := Carries.completeExpression_ok.1 read
  have begins := beginsExpression_of_ok read
  have more : c.current.kind ≠ .eof := by
    intro here
    rw [here] at begins
    cases begins
  have asStatement : (level (n + 1)).statement c =
      (do let e ← expression (level n); endStatement; return Stmt.expr e : Parse Stmt) c :=
    statement_of_begins (level n) begins noBrace noFunction
  -- the statement is parsed one level deeper than the expression that was accepted
  have deeper := Moves.expression (level_passes (Nat.le_succ n)) 0 False c ended
  cases run : expression (level n) c with
  | error issue c₁ =>
    refine .inr ⟨issue, c₁, program_of_error more (asStatement.trans ?_), ?_⟩
    · show EStateM.bind (expression (level n)) _ c = _
      unfold EStateM.bind
      rw [run]
    · show EStateM.bind (expression (level n)) _ c = _
      unfold EStateM.bind
      rw [run]
  | ok e₁ c₁ =>
    rw [run] at deeper
    cases deeper.1.symm.trans read
    refine .inl (program_of_one ended more (asStatement.trans ?_) eof)
    exact (run_ok run _).trans (run_ok (endStatement_of_eof eof) _)

/-! ## Sources -/

section Sources

variable {α : Type} {p : Parse α} {source : String}

/-- What is read from a source is read from its tokens. -/
theorem exists_of_runOn {a : α} (read : runOn p source = .ok a) :
    ∃ tokens c', tokenize source = .ok tokens ∧ p (.ofTokens tokens) = .ok a c' := by
  unfold runOn at read
  split at read
  · cases read
  · next tokens split =>
    obtain ⟨a', c', run⟩ | ⟨issue, c', run⟩ : (∃ a' c', p (.ofTokens tokens) = .ok a' c') ∨
        ∃ issue c', p (.ofTokens tokens) = .error issue c' := by
      cases p (.ofTokens tokens) with
      | ok a' c' => exact .inl ⟨a', c', rfl⟩
      | error issue c' => exact .inr ⟨issue, c', rfl⟩
    · rw [run] at read
      cases read
      exact ⟨tokens, c', split, run⟩
    · rw [run] at read
      cases read

theorem runOn_of_error {tokens : List Token} {issue : ParseIssue} (split : tokenize source = .ok tokens)
    (run : p (.ofTokens tokens) = .error issue c') : runOn p source = .error issue := by
  unfold runOn
  rw [split]
  dsimp only
  rw [run]

end Sources

end Parser

/-- A source that is accepted as an expression, and does not begin with a brace or with `function`, is as a program the
statement of that expression, or else it is refused, which happens only where the expression is refused when it may nest
one level less. -/
theorem expression_as_program {source : String} {e : Expr} (accepted : parseExpr source = .ok e)
    (starts : ∀ tokens, tokenize source = .ok tokens →
      (Parser.Cursor.ofTokens tokens).current.kind ≠ .punct .openBrace ∧
        (Parser.Cursor.ofTokens tokens).current.kind ≠ .keyword .function) :
    parseStatements source = .ok [.expr e] ∨
      ∃ issue, parseStatements source = .error issue ∧
        Parser.runOn (Parser.completeExpression (Parser.level (Parser.maxNesting - 1))) source = .error issue := by
  obtain ⟨tokens, c', split, read⟩ := Parser.exists_of_runOn accepted
  obtain ⟨noBrace, noFunction⟩ := starts tokens split
  rcases Parser.program_of_expression (Parser.Cursor.ended_ofTokens split) read noBrace noFunction with
    whole | ⟨issue, c₁, refused, deeper⟩
  · exact .inl (runOn_of_run split whole)
  · exact .inr ⟨issue, Parser.runOn_of_error split refused, Parser.runOn_of_error split deeper⟩

/-- Line breaks, comments and the body of a function are no reason for a difference. -/
theorem call_as_program :
    ∃ e, parseExpr "a(function() \x7b for ([b] of c) d // e\n\x7d)\n.f" = .ok e ∧
      parseStatements "a(function() \x7b for ([b] of c) d // e\n\x7d)\n.f" = .ok [.expr e] := by
  obtain ⟨tokens, split, first⟩ : ∃ tokens, tokenize "a(function() \x7b for ([b] of c) d // e\n\x7d)\n.f" = .ok tokens ∧
      (Parser.Cursor.ofTokens tokens).current.kind = .identifier "a" :=
    ⟨_, rfl, rfl⟩
  obtain ⟨e, accepted⟩ : ∃ e, parseExpr "a(function() \x7b for ([b] of c) d // e\n\x7d)\n.f" = .ok e := by
    have accepted : (parseExpr "a(function() \x7b for ([b] of c) d // e\n\x7d)\n.f").toBool = true := by decide +kernel
    cases read : parseExpr "a(function() \x7b for ([b] of c) d // e\n\x7d)\n.f" with
    | ok e => exact ⟨e, rfl⟩
    | error issue =>
      rw [read] at accepted
      cases accepted
  refine ⟨e, accepted, ?_⟩
  have starts := expression_as_program accepted fun tokens' split' => by
    cases split.symm.trans split'
    rw [first]
    exact ⟨nofun, nofun⟩
  rcases starts with whole | ⟨issue, refused, -⟩
  · exact whole
  · have accepted : (parseStatements "a(function() \x7b for ([b] of c) d // e\n\x7d)\n.f").toBool = true := by
      decide +kernel
    rw [refused] at accepted
    cases accepted

end BindScript
