import BindScript.Proofs.Nesting.Expressions

/-!
# The nesting of statements

Statements, and from them the levels themselves: where the nesting is limited to `n`, all trees are within `3 * n`,
and a greater limit makes no difference other than that less nesting is refused (`level_agrees`). Heads of loops are
followed from the state of the parse, since what is asked of them is a matter of three tokens in a row.
-/

namespace BindScript.Parser

variable {same : Prop} {bound : Nat} {lower₁ lower₂ : Level}

namespace Agrees

/-! ## Statements -/

theorem parenthesized (lower : Level.Agrees same bound lower₁ lower₂) :
    Agrees same (Parser.parenthesized lower₁) (Parser.parenthesized lower₂) fun e =>
      (Node.expr e).Within (bound + 1) := by
  unfold Parser.parenthesized
  refine bind (expectPunct _ _) fun _ _ => bind (expression lower) fun e value => ?_
  exact bind (expectPunct _ _) fun _ _ => pure value

theorem finishDeclarator (lower : Level.Agrees same bound lower₁ lower₂) (kind : DeclKind) {pattern : Pattern}
    (patternWithin : (Node.pattern pattern).Within bound) :
    Agrees same (Parser.finishDeclarator lower₁ kind pattern) (Parser.finishDeclarator lower₂ kind pattern) fun d =>
      ∀ y ∈ d.nodes, y.Within bound := by
  unfold Parser.finishDeclarator
  refine bind (defaultValue lower) fun init initWithin => ?_
  cases init with
  | some init => exact pure (List.forall_mem_cons.2 ⟨patternWithin, initWithin⟩)
  | none =>
    cases pattern with
    | name id => exact ite (fun _ => fail _) fun _ => pure (List.forall_mem_singleton.2 patternWithin)
    | array | object => exact fail _

theorem declarator (lower : Level.Agrees same bound lower₁ lower₂) (kind : DeclKind) :
    Agrees same (Parser.declarator lower₁ kind) (Parser.declarator lower₂ kind) fun d =>
      ∀ y ∈ d.nodes, y.Within bound := by
  unfold Parser.declarator
  refine bind position fun place _ => bind lower.pattern fun pattern patternWithin => ?_
  exact bind (declareAll _ _ _) fun _ _ => finishDeclarator lower kind patternWithin

theorem moreDeclarators (lower : Level.Agrees same bound lower₁ lower₂) (kind : DeclKind) {first : Declarator}
    (one : ∀ y ∈ first.nodes, y.Within bound) :
    Agrees same (Parser.moreDeclarators lower₁ kind first) (Parser.moreDeclarators lower₂ kind first)
      fun declarators => ∀ y ∈ declarators.flatMap Declarator.nodes, y.Within bound := by
  have each : ∀ d ∈ [first], ∀ y ∈ d.nodes, y.Within bound := List.forall_mem_singleton.2 one
  refine repeatFrom (Q := fun found => ∀ d ∈ found, ∀ y ∈ d.nodes, y.Within bound) each fun found each => ?_
  unfold Parser.declaratorTurn
  refine bind (eatPunct _) fun _ _ => ite (fun _ => ?_) fun _ => pure fun y mem => ?_
  · exact bind (declarator lower kind) fun d next => pure (List.forall_mem_cons.2 ⟨next, each⟩)
  · obtain ⟨d, inside, mem⟩ := List.mem_flatMap.1 mem
    exact each d (List.mem_reverse.1 inside) y mem

theorem declaration (lower : Level.Agrees same bound lower₁ lower₂) (kind : DeclKind) :
    Agrees same (Parser.declaration lower₁ kind) (Parser.declaration lower₂ kind) fun s =>
      (Node.stmt s).Within (bound + 2) := by
  unfold Parser.declaration
  refine bind advance fun _ _ => bind (declarator lower kind) fun first one => ?_
  refine bind (moreDeclarators lower kind one) fun declarators each => bind endStatement fun _ _ => pure ?_
  exact Node.within_of_unchained_of_lt rfl each (by omega)

theorem functionDeclaration (lower : Level.Agrees same bound lower₁ lower₂) :
    Agrees same (Parser.functionDeclaration lower₁) (Parser.functionDeclaration lower₂) fun s =>
      (Node.stmt s).Within (bound + 2) := by
  unfold Parser.functionDeclaration
  refine bind advance fun _ _ => bind position fun place _ => bind expectIdentifier fun name _ => ?_
  refine bind (declare _ _ _) fun _ _ => bind (functionRest lower) fun f within => pure ?_
  exact Node.within_of_unchained_of_lt rfl within (by omega)

theorem branch (lower : Level.Agrees same bound lower₁ lower₂) :
    Agrees same (Parser.branch lower₁) (Parser.branch lower₂) fun s => (Node.stmt s).Within (bound + 2) := by
  unfold Parser.branch
  refine bind advance fun _ _ => bind (parenthesized lower) fun test testWithin => ?_
  refine bind lower.statement fun consequent one => ?_
  refine bind (eatKeyword _) fun _ _ => ite (fun _ => ?_) fun _ => pure ?_
  · refine bind lower.statement fun alternate other => pure (Node.within_of_unchained rfl ?_)
    exact List.forall_mem_cons.2 ⟨testWithin, List.forall_mem_cons.2
      ⟨one.mono (Nat.le_succ _), List.forall_mem_singleton.2 (other.mono (Nat.le_succ _))⟩⟩
  · refine Node.within_of_unchained rfl ?_
    exact List.forall_mem_cons.2 ⟨testWithin, List.forall_mem_singleton.2 (one.mono (Nat.le_succ _))⟩

theorem whileLoop (lower : Level.Agrees same bound lower₁ lower₂) :
    Agrees same (Parser.whileLoop lower₁) (Parser.whileLoop lower₂) fun s => (Node.stmt s).Within (bound + 2) := by
  unfold Parser.whileLoop
  refine bind advance fun _ _ => bind (parenthesized lower) fun test testWithin => ?_
  refine bind lower.statement fun body one => pure (Node.within_of_unchained rfl ?_)
  exact List.forall_mem_cons.2 ⟨testWithin, List.forall_mem_singleton.2 (one.mono (Nat.le_succ _))⟩

theorem doWhile (lower : Level.Agrees same bound lower₁ lower₂) :
    Agrees same (Parser.doWhile lower₁) (Parser.doWhile lower₂) fun s => (Node.stmt s).Within (bound + 2) := by
  unfold Parser.doWhile
  refine bind advance fun _ _ => bind lower.statement fun body one => ?_
  refine bind (eatKeyword _) fun _ _ => ite (fun _ => ?_) fun _ => fail_bind _
  refine bind (parenthesized lower) fun test testWithin => bind (eatPunct _) fun _ _ => pure ?_
  refine Node.within_of_unchained rfl ?_
  exact List.forall_mem_cons.2 ⟨testWithin, List.forall_mem_singleton.2 (one.mono (Nat.le_succ _))⟩

/-! ### Loops with a head -/

/-- A statement that may be there. -/
def OptionWithin (bound : Nat) (found : Option Stmt) : Prop :=
  ∀ s ∈ found, (Node.stmt s).Within bound

/-- Whether a loop over a collection follows is seen at the next word, before anything is nested. -/
theorem forEach? (lower : Level.Agrees same bound lower₁ lower₂) (kind : Option DeclKind) {pattern : Pattern}
    (patternWithin : (Node.pattern pattern).Within bound) :
    Agrees same (Parser.forEach? lower₁ kind pattern) (Parser.forEach? lower₂ kind pattern)
      (OptionWithin (bound + 2)) := by
  have body : ∀ (visits : EachKind) (object : Expr), (Node.expr object).Within (bound + 1) → Agrees same
      (do
        Parser.expectPunct .closeParen .closeParenExpected
        return some (.forEach visits kind pattern object (← lower₁.statement)))
      (do
        Parser.expectPunct .closeParen .closeParenExpected
        return some (.forEach visits kind pattern object (← lower₂.statement))) (OptionWithin (bound + 2)) := by
    intro visits object objectWithin
    refine bind (expectPunct _ _) fun _ _ => bind lower.statement fun body one => pure ?_
    rintro _ ⟨⟩
    refine Node.within_of_unchained rfl (List.forall_mem_cons.2 ⟨patternWithin.mono (Nat.le_succ _), ?_⟩)
    exact List.forall_mem_cons.2 ⟨objectWithin, List.forall_mem_singleton.2 (one.mono (Nat.le_succ _))⟩
  unfold Parser.forEach?
  refine bind Agrees.kind fun k _ => ?_
  dsimp only
  split
  · exact pure nofun
  · next visits _ =>
    refine bind advance fun _ _ => ?_
    cases visits with
    | keys => exact bind (expression lower) (body .keys)
    | items => exact bind lower.assignment fun object within => body .items object (within.mono (Nat.le_succ _))

theorem optionalBefore (lower : Level.Agrees same bound lower₁ lower₂) (mark : Punct) :
    Agrees same (Parser.optionalBefore lower₁ mark) (Parser.optionalBefore lower₂ mark) fun e =>
      ∀ y ∈ Expr.optionNodes e, y.Within (bound + 1) := by
  unfold Parser.optionalBefore
  refine bind (checkPunct _) fun _ _ => ite (fun _ => pure (List.forall_mem_nil _)) fun _ => ?_
  exact bind (expression lower) fun e value => pure (List.forall_mem_singleton.2 value)

theorem forRest (lower : Level.Agrees same bound lower₁ lower₂) {init : ForInit}
    (initWithin : ∀ y ∈ init.nodes, y.Within (bound + 1)) :
    Agrees same (Parser.forRest lower₁ init) (Parser.forRest lower₂ init) fun s =>
      (Node.stmt s).Within (bound + 2) := by
  unfold Parser.forRest
  refine bind (expectPunct _ _) fun _ _ => bind (optionalBefore lower _) fun test testWithin => ?_
  refine bind (expectPunct _ _) fun _ _ => bind (optionalBefore lower _) fun update updateWithin => ?_
  refine bind (expectPunct _ _) fun _ _ => bind lower.statement fun body one => ?_
  refine pure (Node.within_of_unchained rfl (List.forall_mem_append.2 ⟨initWithin, ?_⟩))
  exact List.forall_mem_append.2 ⟨testWithin, List.forall_mem_append.2
    ⟨updateWithin, List.forall_mem_singleton.2 (one.mono (Nat.le_succ _))⟩⟩

theorem forDeclaration (lower : Level.Agrees same bound lower₁ lower₂) (kind : DeclKind) :
    Agrees same (Parser.forDeclaration lower₁ kind) (Parser.forDeclaration lower₂ kind) fun s =>
      (Node.stmt s).Within (bound + 2) := by
  unfold Parser.forDeclaration
  refine bind advance fun _ _ => bind position fun place _ => ?_
  refine bind lower.pattern fun pattern patternWithin => bind (declareAll _ _ _) fun _ _ => ?_
  refine bind (forEach? lower (some kind) patternWithin) fun found loop => ?_
  cases found with
  | some s => exact pure (loop s rfl)
  | none =>
    refine bind (reservingIn (bind (finishDeclarator lower kind patternWithin) fun first one =>
      moreDeclarators lower kind one)) fun declarators each => ?_
    exact forRest lower fun y mem => (each y mem).mono (Nat.le_succ _)

/-- A head that is read as an expression. -/
theorem expressionHead (lower : Level.Agrees same bound lower₁ lower₂) :
    Agrees same (do Parser.forRest lower₁ (.expr (← Parser.reservingIn (Parser.expression lower₁))))
      (do Parser.forRest lower₂ (.expr (← Parser.reservingIn (Parser.expression lower₂)))) fun s =>
      (Node.stmt s).Within (bound + 2) :=
  bind (reservingIn (expression lower)) fun _ value => forRest lower (List.forall_mem_singleton.2 value)

end Agrees

/-- A head without a declaration. Where it is no pattern, it is read again from the same tokens. -/
theorem Agree.bareHead (lower : Level.Agrees same bound lower₁ lower₂) {c : Cursor} (ahead : Ahead same c.rest)
    (plain : same ∨ c.Plain) :
    Agree same (fun s => (Node.stmt s).Within (bound + 2))
      ((do
        match ← bareForEach? lower₁ with
        | some loop => return loop
        | none => forRest lower₁ (.expr (← reservingIn (expression lower₁)))) c)
      ((do
        match ← bareForEach? lower₂ with
        | some loop => return loop
        | none => forRest lower₂ (.expr (← reservingIn (expression lower₂)))) c) := by
  rcases lower.heads with none | heads
  · -- at the last level even a name is refused, and so is the expression then
    subst none
    exact .inl rfl
  -- the attempt at a pattern first, then the expression from where it ended
  · refine Agree.bind (Q := Agrees.OptionWithin (bound + 2)) ?_ fun found c' _ ahead' loop => ?_
    · have pattern := lower.pattern c ahead
      unfold bareForEach?
      rw [← heads c plain]
      cases read : lower₁.pattern c with
      | error issue c' => exact ⟨rfl, ahead, nofun⟩
      | ok pattern c' =>
        rename_i head
        rw [read] at head
        have ends := Agrees.forEach? lower none head.2.2 c' head.2.1
        dsimp only
        cases run : forEach? lower₁ none pattern c' with
        | error issue c'' =>
          rw [run] at ends
          rcases ends with deep | other
          · exact .inl deep
          · rw [other]
            exact .inr rfl
        | ok found c'' =>
          rw [run] at ends
          rw [ends.1]
          cases found with
          | none => exact ⟨rfl, ahead, nofun⟩
          | some s => exact ⟨rfl, ends.2⟩
    · cases found with
      | some s => exact ⟨rfl, ahead', loop s rfl⟩
      | none => exact Agrees.expressionHead lower c' ahead'

theorem isPunct_iff {k : TokenKind} {mark : Punct} : k.isPunct mark = true ↔ k = .punct mark := by
  cases k <;> simp [TokenKind.isPunct]

theorem eatPunct_apply (mark : Punct) (c : Cursor) :
    eatPunct mark c = if c.current.kind.isPunct mark = true then .ok true c.advance else .ok false c := by
  show (if c.current.kind.isPunct mark = true then (do advance; return true) else return false : Parse Bool) c = _
  split <;> rfl

/-- A punctuator that was expected has been passed. -/
theorem of_expectPunct {c c' : Cursor} {mark : Punct} {cause : ParseCause}
    (run : expectPunct mark cause c = .ok () c') : c.current.kind = .punct mark ∧ c' = c.advance := by
  have passed : expectPunct mark cause c = if c.current.kind.isPunct mark = true then .ok () c.advance
      else fail cause c := by
    show EStateM.bind (eatPunct mark) (fun eaten => if eaten = true then Pure.pure () else fail cause) c = _
    unfold EStateM.bind
    rw [eatPunct_apply]
    by_cases here : c.current.kind.isPunct mark = true
    · simp only [if_pos here]
      rfl
    · simp only [if_neg here]
      rfl
  rw [passed] at run
  split at run
  · next here =>
    cases run
    exact ⟨isPunct_iff.1 here, rfl⟩
  · cases run
/-- What comes after `for` and a parenthesis, where heads are plain. -/
theorem plain_of_head {c c' : Cursor} {cause : ParseCause} (ahead : Ahead same c.rest)
    (loop : c.current.kind = .keyword .for)
    (run : (do advance; expectPunct .openParen cause : Parse Unit) c = .ok () c') : same ∨ c'.Plain := by
  refine ahead.imp_right fun plain => ?_
  obtain ⟨paren, rfl⟩ := of_expectPunct (c := c.advance) run
  obtain ⟨rest, blocks, noIn⟩ := c
  match rest with
  | [] => cases loop
  | [t] => cases paren
  | [t, t'] => exact ⟨nofun, nofun⟩
  | t :: t' :: t'' :: ts =>
    cases plain with
    | cons head _ _ => exact head loop paren

theorem Agree.forHead (lower : Level.Agrees same bound lower₁ lower₂) {c : Cursor} (ahead : Ahead same c.rest)
    (plain : same ∨ c.Plain) :
    Agree same (fun s => (Node.stmt s).Within (bound + 2)) (Parser.forHead lower₁ c) (Parser.forHead lower₂ c) := by
  have kind : Parser.kind c = .ok c.current.kind c := rfl
  unfold Parser.forHead
  simp only [Bind.bind, EStateM.bind, kind]
  cases declKind? c.current.kind with
  | some kind => exact Agrees.forDeclaration lower kind c ahead
  | none =>
    show Agree same _ ((if c.current.kind.isPunct .semicolon = true then _ else _ : Parse Stmt) c)
      ((if c.current.kind.isPunct .semicolon = true then _ else _ : Parse Stmt) c)
    split
    · exact Agrees.forRest lower (List.forall_mem_nil _) c ahead
    · exact Agree.bareHead lower ahead plain

theorem Agree.forLoop (lower : Level.Agrees same bound lower₁ lower₂) {c : Cursor} (ahead : Ahead same c.rest)
    (loop : c.current.kind = .keyword .for) :
    Agree same (fun s => (Node.stmt s).Within (bound + 2)) (Parser.forLoop lower₁ c) (Parser.forLoop lower₂ c) := by
  have opened : Agrees same (do advance; expectPunct .openParen .openParenExpected : Parse Unit)
      (do advance; expectPunct .openParen .openParenExpected) (fun _ => True) :=
    Agrees.bind Agrees.advance fun _ _ => Agrees.expectPunct _ _
  have forLoop_eq : ∀ lower, Parser.forLoop lower =
      (do advance; expectPunct .openParen .openParenExpected : Parse Unit) >>= fun _ =>
        Parser.inBlock (Parser.forHead lower) :=
    fun lower => (bind_assoc ..).symm
  rw [forLoop_eq, forLoop_eq]
  refine (opened c ahead).bind fun _ c' run ahead' _ => ?_
  have plain : same ∨ c'.Plain := plain_of_head ahead loop run
  exact Agree.inBlock (forHead lower ahead' plain)

namespace Agrees

/-! ### Handlers and cases -/

/-- The body of a handler is nested as a block is. -/
theorem catchClause (lower : Level.Agrees same bound lower₁ lower₂) :
    Agrees same (Parser.catchClause lower₁) (Parser.catchClause lower₂) fun handler =>
      ∀ y ∈ handler.body.map Node.stmt, y.Within bound := by
  have body : ∀ param, Agrees same
      (do
        Parser.expectPunct .openBrace .openBraceExpected
        return Handler.mk param (← Parser.blockContents lower₁))
      (do
        Parser.expectPunct .openBrace .openBraceExpected
        return Handler.mk param (← Parser.blockContents lower₂))
      (fun handler => ∀ y ∈ handler.body.map Node.stmt, y.Within bound) := fun param =>
    bind (expectPunct _ _) fun _ _ => bind (blockContents lower) fun statements each => pure each
  unfold Parser.catchClause
  refine inBlock (bind (eatPunct _) fun _ _ => ite (fun _ => ?_) fun _ => body none)
  refine bind position fun place _ => bind expectIdentifier fun name _ => bind (declare _ _ _) fun _ _ => ?_
  exact bind (expectPunct _ _) fun _ _ => body (some name)

/-- The blocks of all three clauses are read from the same level. -/
theorem attempt (lower : Level.Agrees same bound lower₁ lower₂) :
    Agrees same (Parser.attempt lower₁) (Parser.attempt lower₂) fun s => (Node.stmt s).Within (bound + 2) := by
  unfold Parser.attempt
  refine bind advance fun _ _ => bind (expectBlock lower) fun statements own => ?_
  have last : ∀ (handler : Option Handler) (finalizer : Option (List Stmt)),
      (∀ y ∈ (handler.toList.flatMap Handler.body).map Node.stmt, y.Within bound) →
      (∀ y ∈ (finalizer.getD []).map Node.stmt, y.Within bound) → Agrees same
        (do
          if handler.isNone && finalizer.isNone then Parser.fail .catchExpected
          return Stmt.attempt statements handler finalizer)
        (do
          if handler.isNone && finalizer.isNone then Parser.fail .catchExpected
          return Stmt.attempt statements handler finalizer)
        (fun s => (Node.stmt s).Within (bound + 2)) := by
    intro handler finalizer handled finalized
    refine ite (fun _ => fail_bind _) fun _ => pure ?_
    refine Node.within_of_unchained_of_lt rfl ?_ (show bound < bound + 2 by omega)
    exact List.forall_mem_append.2 ⟨own, List.forall_mem_append.2 ⟨handled, finalized⟩⟩
  -- the same goes on from a handler and from where there is none
  have finally_ : ∀ handler : Option Handler,
      (∀ y ∈ (handler.toList.flatMap Handler.body).map Node.stmt, y.Within bound) → Agrees same
        (do
          let finalizer ←
            if ← Parser.eatKeyword .finally then Pure.pure (some (← Parser.expectBlock lower₁))
            else Pure.pure none
          if handler.isNone && finalizer.isNone then Parser.fail .catchExpected
          return Stmt.attempt statements handler finalizer)
        (do
          let finalizer ←
            if ← Parser.eatKeyword .finally then Pure.pure (some (← Parser.expectBlock lower₂))
            else Pure.pure none
          if handler.isNone && finalizer.isNone then Parser.fail .catchExpected
          return Stmt.attempt statements handler finalizer)
        (fun s => (Node.stmt s).Within (bound + 2)) := by
    intro handler handled
    refine bind (eatKeyword _) fun _ _ => ite (fun _ => ?_) fun _ => last handler none handled (List.forall_mem_nil _)
    exact bind (expectBlock lower) fun finalizer own => last handler (some finalizer) handled own
  refine bind (eatKeyword _) fun _ _ => ite (fun _ => ?_) fun _ => finally_ none (List.forall_mem_nil _)
  refine bind (catchClause lower) fun handler own => finally_ (some handler) ?_
  rw [Option.toList_some, List.flatMap_singleton]
  exact own

theorem caseLabel (lower : Level.Agrees same bound lower₁ lower₂) (seenDefault : Bool) :
    Agrees same (Parser.caseLabel lower₁ seenDefault) (Parser.caseLabel lower₂ seenDefault) fun e =>
      ∀ y ∈ Expr.optionNodes e, y.Within (bound + 1) := by
  unfold Parser.caseLabel
  refine bind (eatKeyword _) fun _ _ => ite (fun _ => ?_) fun _ => ?_
  · exact bind (expression lower) fun e value => pure (List.forall_mem_singleton.2 value)
  refine bind (checkKeyword _) fun _ _ => ite (fun _ => ?_) fun _ => ?_
  · exact ite (fun _ => fail_bind _) fun _ => bind advance fun _ _ => pure (List.forall_mem_nil _)
  · exact bind atEof fun _ _ => ite (fun _ => fail _) fun _ => fail _

/-- The statements of a case are read in the level of the switch. -/
theorem caseTurn (lower : Level.Agrees same bound lower₁ lower₂) {found : List Case}
    (each : ∀ c ∈ found, ∀ y ∈ c.nodes, y.Within (bound + 1)) :
    Agrees same (Parser.caseTurn lower₁ found) (Parser.caseTurn lower₂ found)
      (Turn.Holds (fun found => ∀ c ∈ found, ∀ y ∈ c.nodes, y.Within (bound + 1))
        fun cases => ∀ y ∈ cases.flatMap Case.nodes, y.Within (bound + 1)) := by
  have body : Agrees same (Parser.repeatFrom [] (Parser.caseBodyTurn lower₁))
      (Parser.repeatFrom [] (Parser.caseBodyTurn lower₂)) fun statements =>
      ∀ y ∈ statements.map Node.stmt, y.Within bound := by
    refine repeatFrom (Q := fun found => ∀ s ∈ found, (Node.stmt s).Within bound) nofun fun found each => ?_
    unfold Parser.caseBodyTurn
    refine bind kind fun k _ => ite (fun _ => pure (statements_of_found each)) fun _ => ?_
    exact nextStatement lower each
  unfold Parser.caseTurn
  refine bind (eatPunct _) fun _ _ => ite (fun _ => pure fun y mem => ?_) fun _ => ?_
  · obtain ⟨c, inside, mem⟩ := List.mem_flatMap.1 mem
    exact each c (List.mem_reverse.1 inside) y mem
  refine bind (caseLabel lower _) fun test testWithin => bind (expectPunct _ _) fun _ _ => ?_
  refine bind body fun statements own => pure (List.forall_mem_cons.2 ⟨?_, each⟩)
  exact List.forall_mem_append.2 ⟨testWithin, fun y mem => (own y mem).mono (Nat.le_succ _)⟩

theorem switch (lower : Level.Agrees same bound lower₁ lower₂) :
    Agrees same (Parser.switch lower₁) (Parser.switch lower₂) fun s => (Node.stmt s).Within (bound + 2) := by
  unfold Parser.switch
  refine bind advance fun _ _ => bind (parenthesized lower) fun discriminant value => ?_
  refine bind (expectPunct _ _) fun _ _ => ?_
  refine bind (inBlock (repeatFrom nofun fun found each => caseTurn lower each)) fun cases all => ?_
  exact pure (Node.within_of_unchained rfl (List.forall_mem_cons.2 ⟨value, all⟩))

theorem returnStatement (lower : Level.Agrees same bound lower₁ lower₂) :
    Agrees same (Parser.returnStatement lower₁) (Parser.returnStatement lower₂) fun s =>
      (Node.stmt s).Within (bound + 2) := by
  have last : ∀ value, (∀ y ∈ Expr.optionNodes value, y.Within (bound + 1)) → Agrees same
      (do
        Parser.endStatement
        return Stmt.ret value)
      (do
        Parser.endStatement
        return Stmt.ret value) (fun s => (Node.stmt s).Within (bound + 2)) :=
    fun value own => bind endStatement fun _ _ => pure (Node.within_of_unchained rfl own)
  unfold Parser.returnStatement
  refine bind advance fun _ _ => bind get fun _ _ => ite (fun _ => last none (List.forall_mem_nil _)) fun _ => ?_
  exact bind (expression lower) fun e value => last (some e) (List.forall_mem_singleton.2 value)

theorem throwStatement (lower : Level.Agrees same bound lower₁ lower₂) :
    Agrees same (Parser.throwStatement lower₁) (Parser.throwStatement lower₂) fun s =>
      (Node.stmt s).Within (bound + 2) := by
  unfold Parser.throwStatement
  refine bind advance fun _ _ => bind get fun _ _ => ite (fun _ => fail_bind _) fun _ => ?_
  exact bind (expression lower) fun e value => bind endStatement fun _ _ =>
    pure (Node.within_of_unchained rfl (List.forall_mem_singleton.2 value))

/-- Each kind of statement agrees by its own lemma. The token that it starts with tells the kind. -/
theorem statement (lower : Level.Agrees same bound lower₁ lower₂) :
    Agrees same (Parser.statement lower₁) (Parser.statement lower₂) fun s => (Node.stmt s).Within (bound + 2) := by
  unfold Parser.statement
  refine kind_bind fun c ahead => ?_
  generalize here : c.current.kind = k
  split
  -- the only statement that depends on the place where it is read: its head may be tried as a pattern
  case h_9 => exact Agree.forLoop lower ahead here
  case h_1 =>
    refine bind advance (fun _ _ => pure ?_) c ahead
    exact Node.within_of_unchained rfl (List.forall_mem_nil _)
  case h_2 =>
    refine bind advance (fun _ _ => bind (block lower) fun statements own => pure ?_) c ahead
    exact Node.within_of_unchained_of_lt rfl own (by omega)
  case h_3 => exact declaration lower _ c ahead
  case h_4 => exact declaration lower _ c ahead
  case h_5 => exact declaration lower _ c ahead
  case h_6 => exact branch lower c ahead
  case h_7 => exact whileLoop lower c ahead
  case h_8 => exact doWhile lower c ahead
  case h_10 => exact returnStatement lower c ahead
  case h_11 =>
    refine bind advance (fun _ _ => bind endStatement fun _ _ => pure ?_) c ahead
    exact Node.within_of_unchained rfl (List.forall_mem_nil _)
  case h_12 =>
    refine bind advance (fun _ _ => bind endStatement fun _ _ => pure ?_) c ahead
    exact Node.within_of_unchained rfl (List.forall_mem_nil _)
  case h_13 => exact throwStatement lower c ahead
  case h_14 => exact attempt lower c ahead
  case h_15 => exact switch lower c ahead
  case h_16 => exact functionDeclaration lower c ahead
  case h_17 =>
    refine bind (expression lower) (fun e value => bind endStatement fun _ _ => pure ?_) c ahead
    exact Node.within_of_unchained rfl (List.forall_mem_singleton.2 value)

theorem program (lower : Level.Agrees same bound lower₁ lower₂) :
    Agrees same (Parser.program lower₁) (Parser.program lower₂) fun statements =>
      ∀ y ∈ statements.map Node.stmt, y.Within bound := by
  refine repeatFrom (Q := fun found => ∀ s ∈ found, (Node.stmt s).Within bound) nofun fun found each => ?_
  unfold Parser.programTurn
  refine bind atEof fun _ _ => ite (fun _ => pure (statements_of_found each)) fun _ => ?_
  exact nextStatement lower each

end Agrees

/-! ## Levels -/

/-- A pattern that begins with neither a bracket nor a brace is a name, or there is none. -/
theorem bindingPattern_of_plain (lower₁ lower₂ : Level) {c : Cursor} (plain : c.Plain) :
    bindingPattern lower₁ c = bindingPattern lower₂ c := by
  have kind_bind : ∀ f : TokenKind → Parse Pattern, (kind >>= f) c = f c.current.kind c := fun _ => rfl
  unfold bindingPattern
  rw [kind_bind, kind_bind]
  obtain ⟨noBracket, noBrace⟩ := plain
  generalize c.current.kind = k at noBracket noBrace
  split
  · rfl
  · exact absurd rfl noBracket
  · exact absurd rfl noBrace
  · rfl
  · rfl

/-- Below a level everything agrees with what is below a greater one, and trees are within three times the level. -/
theorem level_agrees {n m : Nat} (le : n ≤ m) (eq : same → n = m) :
    Level.Agrees same (3 * n) (level n) (level m) := by
  induction n generalizing m with
  | zero => exact ⟨.tooDeep, .tooDeep, fun _ => .tooDeep, .tooDeep, .tooDeep, .inl rfl⟩
  | succ n ih =>
    obtain ⟨m, rfl⟩ := Nat.exists_eq_add_one.2 (Nat.lt_of_lt_of_le n.succ_pos le)
    have lower := ih (Nat.le_of_succ_le_succ le) fun h => Nat.succ.inj (eq h)
    refine ⟨.assignment lower, .unary lower, fun loosest => ?_, ?_, ?_, .inr fun c plain => ?_⟩
    · exact (Agrees.binary lower loosest).imp fun e within => within.mono (by omega)
    · exact (Agrees.statement lower).imp fun s within => within.mono (by omega)
    · exact (Agrees.bindingPattern lower).imp fun p within => within.mono (by omega)
    · rcases plain with same | plain
      · rw [eq same]
      · exact bindingPattern_of_plain _ _ plain

end BindScript.Parser
