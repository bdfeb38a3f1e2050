import BindScript.Proofs.Reserved.Expressions

/-!
# Statements read twice

Statements, and from them the levels themselves (`level_carries`). A statement may need no semicolon at the end of the
input; in the head of a loop the tokens go on there, and the second reading may take them for more of the statement.
So only statements that end earlier carry over as they are.

The head of a further loop has a reservation of its own, in both readings, and lifts the one around it. Only its first
pattern comes before that.
-/

namespace BindScript.Parser

open Node (SomeReachIn someReachIn_cons someReachIn_append someReachIn_map someReachIn_flatMap)

variable {S : Around} {may lost G : Prop} {n : Nat} {lower : Level} {c d : Cursor}

namespace Carries

/-! ## Declarations -/

theorem parenthesized (carries : lower.Carries) :
    Carries S may lost n False (Parser.parenthesized lower) (Parser.parenthesized lower) fun e =>
      (Node.expr e).ReachesIn := by
  unfold Parser.parenthesized
  refine step (expectPunct _ _) fun _ => bind (expression carries) fun e => ?_
  exact step (expectPunct _ _) fun _ => pure (Or.elim · False.elim id)

theorem finishDeclarator (carries : lower.Carries) (kind : DeclKind) (pattern : Pattern) :
    Carries S may lost n (Node.pattern pattern).ReachesIn (Parser.finishDeclarator lower kind pattern)
      (Parser.finishDeclarator lower kind pattern) fun d => SomeReachIn d.nodes := by
  unfold Parser.finishDeclarator
  refine bind (defaultValue carries) fun init => ?_
  cases init with
  | some init => exact pure fun reached => someReachIn_cons.2 reached
  | none =>
    cases pattern with
    | name id => exact ite (fun _ => fail _) fun _ => pure fun reached => someReachIn_cons.2 reached
    | array | object => exact fail _

theorem declarator (carries : lower.Carries) (kind : DeclKind) :
    Carries S may lost (n + 1) False (Parser.declarator lower kind) (Parser.declarator lower kind) fun d =>
      SomeReachIn d.nodes := by
  unfold Parser.declarator
  refine position_bind fun place place' => bind carries.pattern fun pattern => step (declareAll _ _ _ _) fun _ => ?_
  exact (finishDeclarator carries kind pattern).mono (Or.elim · False.elim id)

/-- The reservation reaches an operation with `in` in one of the declarators. -/
def DeclaratorsReach (found : List Declarator) : Prop :=
  ∃ d ∈ found, SomeReachIn d.nodes

theorem declaratorTurn (carries : lower.Carries) (kind : DeclKind) (found : List Declarator) :
    Carries S may lost (n + 1) (DeclaratorsReach found) (Parser.declaratorTurn lower kind found)
      (Parser.declaratorTurn lower kind found)
      (Turn.Holds DeclaratorsReach fun declarators => SomeReachIn (declarators.flatMap Declarator.nodes)) := by
  unfold Parser.declaratorTurn
  refine step (eatPunct _ (by decide)) fun _ => ite (fun _ => ?_) fun _ => pure ?_
  · refine bind (declarator carries kind) fun d => pure ?_
    rintro (⟨d, mem, inner⟩ | inner)
    · exact ⟨d, List.mem_cons_of_mem _ mem, inner⟩
    · exact ⟨d, List.mem_cons_self .., inner⟩
  · rintro ⟨d, mem, inner⟩
    exact someReachIn_flatMap.2 ⟨d, List.mem_reverse.2 mem, inner⟩

theorem moreDeclarators (carries : lower.Carries) (kind : DeclKind) (first : Declarator) :
    Carries S may lost (n + 1) (SomeReachIn first.nodes) (Parser.moreDeclarators lower kind first)
      (Parser.moreDeclarators lower kind first) fun declarators =>
      SomeReachIn (declarators.flatMap Declarator.nodes) :=
  repeatFrom (fun reached => ⟨first, List.mem_cons_self .., reached⟩) fun found => declaratorTurn carries kind found

theorem declaration (carries : lower.Carries) (kind : DeclKind) :
    Carries S may True (n + 1) False (Parser.declaration lower kind) (Parser.declaration lower kind) fun s =>
      (Node.stmt s).ReachesIn := by
  unfold Parser.declaration
  refine step advance fun _ => thread (declarator carries kind) fun first => ?_
  refine thread (moreDeclarators carries kind first) fun declarators => step endStatement fun _ => ?_
  exact pure fun reached => .of_reach reached

theorem functionDeclaration (carries : lower.Carries) :
    Carries S may True (n + 1) False (Parser.functionDeclaration lower) (Parser.functionDeclaration lower) fun s =>
      (Node.stmt s).ReachesIn := by
  unfold Parser.functionDeclaration
  refine step advance fun _ => position_bind fun place place' => step expectIdentifier fun name => ?_
  refine step (declare _ _ _ _) fun _ => bind (functionRest carries) fun f => pure fun reached => ?_
  exact .of_reach (reached.resolve_left id)

/-! ## Branches and loops -/

theorem branch (carries : lower.Carries) :
    Carries S may True (n + 1) False (Parser.branch lower) (Parser.branch lower) fun s =>
      (Node.stmt s).ReachesIn := by
  unfold Parser.branch
  refine step advance fun _ => bind (parenthesized carries) fun test => bind carries.statement fun consequent => ?_
  refine step (eatKeyword _) fun _ => ite (fun _ => ?_) fun _ => pure fun reached => .of_reach ?_
  · refine bind carries.statement fun alternate => pure fun reached => .of_reach ?_
    simpa [Node.reach, Stmt.reach, Stmt.parts, or_assoc] using reached
  · simpa [Node.reach, Stmt.reach, Stmt.parts] using reached

theorem whileLoop (carries : lower.Carries) :
    Carries S may True (n + 1) False (Parser.whileLoop lower) (Parser.whileLoop lower) fun s =>
      (Node.stmt s).ReachesIn := by
  unfold Parser.whileLoop
  refine step advance fun _ => bind (parenthesized carries) fun test => ?_
  refine bind carries.statement fun body => pure fun reached => .of_reach ?_
  simpa [Node.reach, Stmt.reach, Stmt.parts] using reached

theorem doWhile (carries : lower.Carries) :
    Carries S may True (n + 1) False (Parser.doWhile lower) (Parser.doWhile lower) fun s =>
      (Node.stmt s).ReachesIn := by
  unfold Parser.doWhile
  refine step advance fun _ => bind carries.statement fun body => ?_
  refine step (eatKeyword _) fun _ => ite (fun _ => ?_) fun _ => fail_bind _
  refine bind (parenthesized carries) fun test => step (eatPunct_or_lost _) fun _ => pure fun reached => .of_reach ?_
  simpa [Node.reach, Stmt.reach, Stmt.parts, or_comm] using reached

/-! ### Heads -/

/-- The reservation reaches an operation with `in` in a loop that was found, or that was so before. -/
def LoopReached (before : Prop) : Option Stmt → Prop
  | some s => (Node.stmt s).ReachesIn
  | none => before

/-- After the pattern the two readings look for the same word. -/
theorem forEach? (carries : lower.Carries) (kind : Option DeclKind) (pattern : Pattern) :
    Carries S may True (n + 1) (Node.pattern pattern).ReachesIn (Parser.forEach? lower kind pattern)
      (Parser.forEach? lower kind pattern) (LoopReached (Node.pattern pattern).ReachesIn) := by
  have body : ∀ (visits : EachKind) (object : Expr),
      Carries S may True (n + 1) ((Node.pattern pattern).ReachesIn ∨ (Node.expr object).ReachesIn)
        (do
          Parser.expectPunct .closeParen .closeParenExpected
          return some (.forEach visits kind pattern object (← lower.statement)))
        (do
          Parser.expectPunct .closeParen .closeParenExpected
          return some (.forEach visits kind pattern object (← lower.statement)))
        (LoopReached (Node.pattern pattern).ReachesIn) := by
    intro visits object
    refine step (expectPunct _ _) fun _ => bind carries.statement fun body => pure fun reached => ?_
    refine Node.ReachesIn.of_reach ?_
    simpa [Node.reach, Stmt.reach, Stmt.parts, or_assoc] using reached
  unfold Parser.forEach?
  refine kind_bind_of_agree (fun _ _ => rfl) rfl fun c d => ?_
  by_cases eof : c.current.kind = .eof
  · rw [eof]
    exact pure id c d
  split
  · exact advance_bind_at eof (bind (expression carries) (body .keys))
  · next name _ =>
    by_cases of : name = "of"
    · rw [if_pos of]
      exact advance_bind_at eof (bind carries.assignment (body .items))
    · rw [if_neg of]
      exact pure id c d
  · exact pure id c d

/-- Where there is no collection, there is none at a point that looks the same. -/
theorem forEach?_none {kind : Option DeclKind} {pattern : Pattern} {c c' d : Cursor}
    (run : Parser.forEach? lower kind pattern c = .ok none c') (same : SameKind S c.current.kind d.current.kind) :
    c' = c ∧ Parser.forEach? lower kind pattern d = .ok none d := by
  have never : ∀ (p : Parse Expr) (visits : EachKind), (do
      Parser.advance
      let object ← p
      Parser.expectPunct .closeParen .closeParenExpected
      return some (Stmt.forEach visits kind pattern object (← lower.statement))) c ≠ .ok none c' := by
    intro p visits run
    obtain ⟨_, _, -, run⟩ := exists_of_run run
    obtain ⟨_, _, -, run⟩ := exists_of_run run
    obtain ⟨_, _, -, run⟩ := exists_of_run run
    obtain ⟨_, _, -, run⟩ := exists_of_run run
    cases run
  unfold Parser.forEach? at run ⊢
  rw [run_kind] at run ⊢
  generalize c.current.kind = k at run same
  generalize d.current.kind = k' at same ⊢
  cases same with
  | template =>
    cases run
    exact ⟨rfl, rfl⟩
  | stop =>
    cases run
    rcases S.stops with stop | stop
    · rw [stop]
      exact ⟨rfl, rfl⟩
    · rw [stop]
      exact ⟨rfl, rfl⟩
  | same =>
    cases k with
    | keyword word =>
      cases word
      all_goals first
        | exact absurd run (never _ _)
        | cases run
          exact ⟨rfl, rfl⟩
    | identifier name =>
      by_cases of : name = "of"
      · simp only [if_pos of] at run
        exact absurd run (never _ _)
      · simp only [if_neg of] at run ⊢
        cases run
        exact ⟨rfl, rfl⟩
    | _ =>
      cases run
      exact ⟨rfl, rfl⟩

theorem optionalBefore (carries : lower.Carries) (mark : Punct) :
    Carries S may True n False (Parser.optionalBefore lower mark) (Parser.optionalBefore lower mark) fun e =>
      SomeReachIn (Expr.optionNodes e) := by
  unfold Parser.optionalBefore
  refine step (checkPunct_or_lost _) fun _ => ite (fun _ => pure False.elim) fun _ => ?_
  exact bind (expression carries) fun e => pure fun reached => by simpa [Expr.optionNodes] using reached

theorem forRest (carries : lower.Carries) (init : ForInit) :
    Carries S may True (n + 1) (SomeReachIn init.reach) (Parser.forRest lower init) (Parser.forRest lower init)
      fun s => (Node.stmt s).ReachesIn := by
  unfold Parser.forRest
  refine step (expectPunct _ _) fun _ => bind (optionalBefore carries _) fun test => ?_
  refine step (expectPunct _ _) fun _ => bind (optionalBefore carries _) fun update => ?_
  refine step (expectPunct _ _) fun _ => bind carries.statement fun body => pure fun reached => .of_reach ?_
  simpa [Node.reach, Stmt.reach, or_assoc] using reached

/-! In the head of a further loop only the first pattern is told from before its reservation. -/

/-- The last declarator, which is the first one that was read, has a pattern where the reservation reaches an operation
with `in`. -/
def FirstReached (found : List Declarator) : Prop :=
  ∃ others pattern init, found = others ++ [.mk pattern init] ∧ (Node.pattern pattern).ReachesIn

theorem FirstReached.init {found : List Declarator} (reached : FirstReached found) (kind : DeclKind) :
    SomeReachIn (ForInit.reach (.declare kind found.reverse)) := by
  obtain ⟨others, pattern, init, rfl, inner⟩ := reached
  rw [List.reverse_append]
  exact ⟨.pattern pattern, List.mem_singleton_self _, inner⟩

theorem forDeclarators (carries : lower.Carries) (kind : DeclKind) (pattern : Pattern) :
    Carries S False lost (n + 1) (Node.pattern pattern).ReachesIn
      (do
        let first ← Parser.finishDeclarator lower kind pattern
        Parser.moreDeclarators lower kind first)
      (do
        let first ← Parser.finishDeclarator lower kind pattern
        Parser.moreDeclarators lower kind first)
      fun declarators => SomeReachIn (ForInit.reach (.declare kind declarators)) := by
  have finish : Carries S False lost (n + 1) (Node.pattern pattern).ReachesIn
      (Parser.finishDeclarator lower kind pattern) (Parser.finishDeclarator lower kind pattern)
      fun first => FirstReached [first] := by
    have alone : ∀ init, (Node.pattern pattern).ReachesIn → FirstReached [.mk pattern init] :=
      fun init inner => ⟨[], pattern, init, rfl, inner⟩
    unfold Parser.finishDeclarator
    refine step (defaultValue carries).forget fun init => ?_
    cases init with
    | some init => exact pure (alone _)
    | none =>
      cases pattern with
      | name id => exact ite (fun _ => fail _) fun _ => pure (alone _)
      | array | object => exact fail _
  refine thread finish fun first => repeatFrom (Q := FirstReached) id fun found => ?_
  unfold Parser.declaratorTurn
  refine step (eatPunct _ (by decide)) fun _ => ite (fun _ => ?_) fun _ => pure fun reached => reached.init kind
  refine step (declarator carries kind).forget fun d => pure ?_
  rintro ⟨others, pattern, init, rfl, inner⟩
  exact ⟨d :: others, pattern, init, rfl, inner⟩

theorem forDeclaration (carries : lower.Carries) (kind : DeclKind) :
    Carries S may True (n + 1) False (Parser.forDeclaration lower kind) (Parser.forDeclaration lower kind) fun s =>
      (Node.stmt s).ReachesIn := by
  unfold Parser.forDeclaration
  refine step advance fun _ => position_bind fun place place' => thread carries.pattern fun pattern => ?_
  refine step (declareAll _ _ _ _) fun _ => thread (forEach? carries (some kind) pattern) fun found => ?_
  cases found with
  | some s => exact pure id
  | none => exact thread (reservingIn (forDeclarators carries kind pattern)) fun declarators => forRest carries _

theorem expressionHead (carries : lower.Carries) :
    Carries S may True (n + 1) False (do Parser.forRest lower (.expr (← Parser.reservingIn (Parser.expression lower))))
      (do Parser.forRest lower (.expr (← Parser.reservingIn (Parser.expression lower)))) fun s =>
      (Node.stmt s).ReachesIn := by
  refine step (reservingIn (expression carries).forget) fun e => (forRest carries (.expr e)).mono False.elim

/-- A plain head without a declaration: a name before a collection, or nothing of the kind. -/
theorem bareForEach? (carries : lower.Carries) (plain : c.Plain) :
    CarriesAt S may True (n + 1) False (LoopReached False) c d (Parser.bareForEach? lower c)
      (Parser.bareForEach? lower d) := by
  intro found c' run
  unfold Parser.bareForEach? at run
  rcases carries.heads plain with ⟨name, here, reads⟩ | refuses
  · rw [reads c here] at run
    dsimp only at run
    have more : c.current.kind ≠ .eof := by
      rw [here]
      exact nofun
    refine ⟨fun beside => ?_, False.elim, fun ends => absurd ends.kind more⟩
    have there : d.current.kind = .identifier name := by
      have kind := beside.kind
      rw [here] at kind
      generalize d.current.kind = k at kind
      cases kind
      rfl
    have beside' := beside.advance more
    unfold Parser.bareForEach?
    rw [reads d there]
    dsimp only
    cases each : Parser.forEach? lower none (.name name) c.advance with
    | error issue c₁ =>
      rw [each] at run
      cases run
    | ok found₁ c₁ =>
      rw [each] at run
      cases found₁ with
      | none =>
        obtain ⟨rfl, other⟩ := forEach?_none each beside'.kind
        cases run
        rw [other]
        exact .inl ⟨_, rfl, beside.ahead, beside.plain, beside'.flag, beside'.blocks⟩
      | some s =>
        cases run
        obtain ⟨alive, -⟩ := forEach? carries none (.name name) c.advance d.advance _ _ each
        rcases alive beside' with ⟨d', run', after⟩ | reached | ends
        · rw [run']
          exact .inl ⟨d', rfl, after⟩
        · exact .inr (.inl reached)
        · exact .inr (.inr ends)
  · obtain ⟨issue, failed⟩ := refuses S c .same
    rw [failed] at run
    cases run
    refine ⟨fun beside => ?_, False.elim, id⟩
    obtain ⟨issue', failed'⟩ := refuses S d beside.kind
    unfold Parser.bareForEach?
    rw [failed']
    exact .inl ⟨_, rfl, beside⟩

theorem bareHead (carries : lower.Carries) (plain : c.Plain) :
    CarriesAt S may True (n + 1) False (fun s => (Node.stmt s).ReachesIn) c d
      ((do
        match ← Parser.bareForEach? lower with
        | some loop => return loop
        | none => Parser.forRest lower (.expr (← Parser.reservingIn (Parser.expression lower)))) c)
      ((do
        match ← Parser.bareForEach? lower with
        | some loop => return loop
        | none => Parser.forRest lower (.expr (← Parser.reservingIn (Parser.expression lower)))) d) := by
  refine (bareForEach? carries plain).bind fun found => ?_
  cases found with
  | some s => exact pure fun reached => reached.resolve_left id
  | none => exact (expressionHead carries).mono (Or.elim · id id)

theorem forHead (carries : lower.Carries) (plain : c.Plain) :
    CarriesAt S may True (n + 1) False (fun s => (Node.stmt s).ReachesIn) c d (Parser.forHead lower c)
      (Parser.forHead lower d) := by
  unfold Parser.forHead
  refine kind_bind_at fun d same => ?_
  rw [same.agree (f := declKind?) (fun _ _ => rfl) rfl]
  cases declKind? c.current.kind with
  | some kind => exact forDeclaration carries kind c d
  | none =>
    show CarriesAt _ _ _ _ _ _ c d ((if c.current.kind.isPunct .semicolon = true then _ else _ : Parse Stmt) c)
      ((if d.current.kind.isPunct .semicolon = true then _ else _ : Parse Stmt) d)
    have head : CarriesAt S may True (n + 1) False (fun s => (Node.stmt s).ReachesIn) c d
        ((if c.current.kind.isPunct .semicolon = true then Parser.forRest lower .none else _ : Parse Stmt) c)
        ((if c.current.kind.isPunct .semicolon = true then Parser.forRest lower .none else _ : Parse Stmt) d) :=
      CarriesAt.ite (fun _ => (forRest carries .none).mono False.elim c d) fun _ => bareHead carries plain
    by_cases eof : c.current.kind = .eof
    · exact head.of_eof eof
    · rw [same.agree_of_more (f := (·.isPunct .semicolon)) eof fun _ _ => rfl]
      exact head

/-- The head is read side by side, then the body. -/
theorem forLoop (carries : lower.Carries) (loop : c.current.kind = .keyword .for) :
    CarriesAt S may True (n + 1) False (fun s => (Node.stmt s).ReachesIn) c d (Parser.forLoop lower c)
      (Parser.forLoop lower d) := by
  have more : c.current.kind ≠ .eof := by
    rw [loop]
    exact nofun
  intro s c' run
  refine ⟨fun beside => ?_, False.elim, fun ends => absurd ends.kind more⟩
  obtain ⟨_, c₁, passed, run⟩ := exists_of_run run
  cases passed
  obtain ⟨_, c₂, opened, run⟩ := exists_of_run run
  have plain : c₂.Plain := (plain_of_head (show Ahead False c.rest from .inr beside.plain) loop opened).resolve_left id
  have passes : Carries S may False (n + 1) False (Parser.expectPunct .openParen .openParenExpected)
      (Parser.expectPunct .openParen .openParenExpected) fun _ => False := expectPunct _ _
  obtain ⟨alive, -⟩ := passes c.advance d.advance _ _ opened
  rcases alive (beside.advance more) with ⟨d₂, opened', beside'⟩ | ⟨-, no⟩ | ⟨no, -⟩
  · have head : CarriesAt S may True (n + 1) False (fun s => (Node.stmt s).ReachesIn) c₂ d₂
        (Parser.inBlock (Parser.forHead lower) c₂) (Parser.inBlock (Parser.forHead lower) d₂) :=
      inBlock_at (forHead carries plain)
    have same : Parser.forLoop lower d = Parser.inBlock (Parser.forHead lower) d₂ := run_ok opened' _
    rw [same]
    exact (head s c' run).1 beside'
  · exact no.elim
  · exact no.elim

/-! ## Handlers and cases -/

theorem catchClause (carries : lower.Carries) :
    Carries S may lost n False (Parser.catchClause lower) (Parser.catchClause lower) fun handler =>
      SomeReachIn (handler.body.map Node.stmt) := by
  have body : ∀ param, Carries S may lost (n + 1) False
      (do
        Parser.expectPunct .openBrace .openBraceExpected
        return Handler.mk param (← Parser.blockContents lower))
      (do
        Parser.expectPunct .openBrace .openBraceExpected
        return Handler.mk param (← Parser.blockContents lower))
      (fun handler => SomeReachIn (handler.body.map Node.stmt)) := fun param =>
    step (expectPunct _ _) fun _ => bind (blockContents carries) fun statements => pure (Or.elim · False.elim id)
  unfold Parser.catchClause
  refine inBlock (step (eatPunct _ (by decide)) fun _ => ite (fun _ => ?_) fun _ => body none)
  refine position_bind fun place place' => step expectIdentifier fun name => step (declare _ _ _ _) fun _ => ?_
  exact step (expectPunct _ _) fun _ => body (some name)

/-- A handler or a finalizer has to follow in both readings. -/
theorem attempt (carries : lower.Carries) :
    Carries S may True (n + 1) False (Parser.attempt lower) (Parser.attempt lower) fun s =>
      (Node.stmt s).ReachesIn := by
  unfold Parser.attempt
  refine step advance fun _ => bind (expectBlock carries) fun statements => ?_
  have last : ∀ (handler : Option Handler) (finalizer : Option (List Stmt)),
      Carries S may True (n + 1) (SomeReachIn (Node.stmt (.attempt statements handler finalizer)).reach)
        (do
          if handler.isNone && finalizer.isNone then Parser.fail .catchExpected
          return Stmt.attempt statements handler finalizer)
        (do
          if handler.isNone && finalizer.isNone then Parser.fail .catchExpected
          return Stmt.attempt statements handler finalizer)
        (fun s => (Node.stmt s).ReachesIn) :=
    fun handler finalizer => ite (fun _ => fail_bind _) fun _ => pure .of_reach
  have finally_ : ∀ handler : Option Handler,
      Carries S may True (n + 1) (SomeReachIn (Node.stmt (.attempt statements handler none)).reach)
        (do
          let finalizer ←
            if ← Parser.eatKeyword .finally then Pure.pure (some (← Parser.expectBlock lower))
            else Pure.pure none
          if handler.isNone && finalizer.isNone then Parser.fail .catchExpected
          return Stmt.attempt statements handler finalizer)
        (do
          let finalizer ←
            if ← Parser.eatKeyword .finally then Pure.pure (some (← Parser.expectBlock lower))
            else Pure.pure none
          if handler.isNone && finalizer.isNone then Parser.fail .catchExpected
          return Stmt.attempt statements handler finalizer)
        (fun s => (Node.stmt s).ReachesIn) := by
    intro handler
    refine step (eatKeyword _) fun _ => ite (fun _ => ?_) fun _ => last handler none
    refine bind (expectBlock carries) fun finalizer => (last handler (some finalizer)).mono ?_
    simp [Node.reach, Stmt.reach, Stmt.parts, or_assoc]
  refine step (eatKeyword _) fun _ => ite (fun _ => ?_) fun _ => (finally_ none).mono ?_
  · refine bind (catchClause carries) fun handler => (finally_ (some handler)).mono ?_
    simp [Node.reach, Stmt.reach, Stmt.parts]
  · simp [Node.reach, Stmt.reach, Stmt.parts]

theorem caseLabel (carries : lower.Carries) (seenDefault : Bool) :
    Carries S may True n False (Parser.caseLabel lower seenDefault) (Parser.caseLabel lower seenDefault) fun e =>
      SomeReachIn (Expr.optionNodes e) := by
  unfold Parser.caseLabel
  refine step (eatKeyword _) fun _ => ite (fun _ => ?_) fun _ => ?_
  · exact bind (expression carries) fun e => pure fun reached => by simpa [Expr.optionNodes] using reached
  refine step (checkKeyword _) fun _ => ite (fun _ => ?_) fun _ => error fun c e c' run => ?_
  · exact ite (fun _ => fail_bind _) fun _ => step advance fun _ => pure False.elim
  · obtain ⟨_, _, -, run⟩ := exists_of_run run
    split at run <;> cases run

/-- The reservation reaches an operation with `in` in one of the cases. -/
def CasesReach (found : List Case) : Prop :=
  ∃ c ∈ found, SomeReachIn c.nodes

theorem caseTurn (carries : lower.Carries) (found : List Case) :
    Carries S may True (n + 1) (CasesReach found) (Parser.caseTurn lower found) (Parser.caseTurn lower found)
      (Turn.Holds CasesReach fun cases => SomeReachIn (cases.flatMap Case.nodes)) := by
  have body : Carries S may True (n + 1) False (Parser.repeatFrom [] (Parser.caseBodyTurn lower))
      (Parser.repeatFrom [] (Parser.caseBodyTurn lower)) fun statements =>
      SomeReachIn (statements.map Node.stmt) := by
    refine repeatFrom (Q := StatementsReach) nofun fun found => ?_
    unfold Parser.caseBodyTurn
    refine kind_bind_or_lost (fun _ _ => rfl) fun c d => ?_
    refine CarriesAt.ite (fun _ => ?_) fun _ => ?_
    · exact pure (a := Turn.done found.reverse) (fun reached => statements_reached reached) c d
    · exact bind carries.statement (fun s => pure .cons) c d
  unfold Parser.caseTurn
  refine step (eatPunct _ (by decide)) fun _ => ite (fun _ => pure ?_) fun _ => ?_
  · rintro ⟨c, mem, inner⟩
    exact someReachIn_flatMap.2 ⟨c, List.mem_reverse.2 mem, inner⟩
  refine bind (caseLabel carries _) fun test => step (expectPunct _ _) fun _ => bind body fun statements => pure ?_
  rintro ((⟨c, mem, inner⟩ | inner) | inner)
  · exact ⟨c, List.mem_cons_of_mem _ mem, inner⟩
  · exact ⟨_, List.mem_cons_self .., someReachIn_append.2 (.inl inner)⟩
  · exact ⟨_, List.mem_cons_self .., someReachIn_append.2 (.inr inner)⟩

theorem switch (carries : lower.Carries) :
    Carries S may True (n + 1) False (Parser.switch lower) (Parser.switch lower) fun s =>
      (Node.stmt s).ReachesIn := by
  unfold Parser.switch
  refine step advance fun _ => bind (parenthesized carries) fun discriminant => step (expectPunct _ _) fun _ => ?_
  refine bind (inBlock (repeatFrom (Q := CasesReach) nofun fun found => caseTurn carries found)) fun cases => ?_
  refine pure fun reached => .of_reach ?_
  simpa [Node.reach, Stmt.reach, Stmt.parts] using reached

/-! ## Statements -/

theorem returnStatement (carries : lower.Carries) :
    Carries S may True (n + 1) False (Parser.returnStatement lower) (Parser.returnStatement lower) fun s =>
      (Node.stmt s).ReachesIn := by
  have last : ∀ value, Carries S may True (n + 1) (SomeReachIn (Expr.optionNodes value))
      (do
        Parser.endStatement
        return Stmt.ret value)
      (do
        Parser.endStatement
        return Stmt.ret value) (fun s => (Node.stmt s).ReachesIn) :=
    fun value => step endStatement fun _ => pure fun reached => .of_reach reached
  unfold Parser.returnStatement
  refine step advance fun _ => get_bind fun c d view => ?_
  rw [view.atStatementEnd]
  refine CarriesAt.ite (fun _ => (last none).mono False.elim c d) fun _ => ?_
  refine bind (expression carries) (fun e => (last (some e)).mono ?_) c d
  simp [Expr.optionNodes]

theorem throwStatement (carries : lower.Carries) :
    Carries S may True (n + 1) False (Parser.throwStatement lower) (Parser.throwStatement lower) fun s =>
      (Node.stmt s).ReachesIn := by
  unfold Parser.throwStatement
  refine step advance fun _ => get_bind fun c d view => ?_
  rw [view.atStatementEnd]
  refine CarriesAt.ite (fun _ => fail_bind _ c d) fun _ => ?_
  refine bind (expression carries) (fun e => step endStatement fun _ => pure fun reached => .of_reach ?_) c d
  simpa [Node.reach, Stmt.reach, Stmt.parts] using reached

/-- Whatever token a statement starts with, the second reading goes on as the first one does. -/
theorem statement (carries : lower.Carries) :
    Carries S may True (n + 1) False (Parser.statement lower) (Parser.statement lower) fun s =>
      (Node.stmt s).ReachesIn := by
  unfold Parser.statement
  refine kind_bind_or_lost (fun _ _ => rfl) fun c d => ?_
  generalize here : c.current.kind = k
  split
  case h_9 => exact forLoop carries here
  case h_1 => exact step advance (fun _ => pure False.elim) c d
  case h_2 =>
    refine step advance (fun _ => thread (block carries) fun statements => pure fun reached => ?_) c d
    exact .of_reach reached
  case h_3 => exact declaration carries _ c d
  case h_4 => exact declaration carries _ c d
  case h_5 => exact declaration carries _ c d
  case h_6 => exact branch carries c d
  case h_7 => exact whileLoop carries c d
  case h_8 => exact doWhile carries c d
  case h_10 => exact returnStatement carries c d
  case h_11 => exact step advance (fun _ => step endStatement fun _ => pure False.elim) c d
  case h_12 => exact step advance (fun _ => step endStatement fun _ => pure False.elim) c d
  case h_13 => exact throwStatement carries c d
  case h_14 => exact attempt carries c d
  case h_15 => exact switch carries c d
  case h_16 => exact functionDeclaration carries c d
  case h_17 =>
    refine bind (expression carries) (fun e => step endStatement fun _ => pure fun reached => .of_reach ?_) c d
    simpa [Node.reach, Stmt.reach, Stmt.parts] using reached

end Carries

/-! ## Levels -/

/-- What is neither a name nor begins with a bracket or a brace is no pattern. -/
theorem bindingPattern_refused (lower : Level) (noName : ∀ name, d.current.kind ≠ .identifier name) (plain : d.Plain) :
    ∃ issue, bindingPattern lower d = .error issue d := by
  obtain ⟨noBracket, noBrace⟩ := plain
  unfold bindingPattern
  rw [run_kind]
  generalize d.current.kind = k at noName noBracket noBrace
  cases k with
  | identifier name => exact absurd rfl (noName name)
  | punct mark =>
    cases mark
    all_goals first
      | exact absurd rfl noBracket
      | exact absurd rfl noBrace
      | exact ⟨_, rfl⟩
  | _ => exact ⟨_, rfl⟩

/-- Where one reading finds a head that is no pattern, the other one does so, too. -/
theorem SameKind.refused {k k' : TokenKind} (same : SameKind S k k') (noName : ∀ name, k ≠ .identifier name)
    (plain : k ≠ .punct .openBracket ∧ k ≠ .punct .openBrace) :
    (∀ name, k' ≠ .identifier name) ∧ k' ≠ .punct .openBracket ∧ k' ≠ .punct .openBrace := by
  cases same with
  | same => exact ⟨noName, plain⟩
  | template => exact ⟨nofun, nofun, nofun⟩
  | stop =>
    rcases S.stops with stop | stop
    · rw [stop]
      exact ⟨nofun, nofun, nofun⟩
    · rw [stop]
      exact ⟨nofun, nofun, nofun⟩

/-- All levels carry over. -/
theorem level_carries (n : Nat) : Level.Carries (level n) := by
  induction n with
  | zero =>
    exact ⟨.fail _, .fail _, fun _ => .fail _, .fail _, .fail _, fun _ => .inr fun _ d _ => ⟨_, rfl⟩⟩
  | succ n ih =>
    refine ⟨.assignment ih, .unary ih, fun loosest => .binary ih loosest, .statement ih, .bindingPattern ih, ?_⟩
    intro c plain
    by_cases isName : ∃ name, c.current.kind = .identifier name
    · obtain ⟨name, here⟩ := isName
      refine .inl ⟨name, here, fun d there => ?_⟩
      show bindingPattern (level n) d = _
      unfold bindingPattern
      rw [run_kind, there]
      rfl
    · refine .inr fun S d same => ?_
      obtain ⟨noName, plain'⟩ := same.refused (fun name here => isName ⟨name, here⟩) plain
      exact bindingPattern_refused (level n) noName plain'

end BindScript.Parser
