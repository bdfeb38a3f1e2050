import BindScript.Proofs.Shorthand.Mirrored

/-!
# Shorthands as keys, in patterns and expressions

Which names are shorthands is given by their places, and the parsers of the first reading take these names for nothing
but keys (`keyLevel`): no expression, no pattern and no statement begins with one. What such parsers accept the others
accept, too, and they give the same for it.

A head of a loop without a declaration is first read as a pattern, and if that fails for whatever reason, as an
expression. A failure that comes from the limits of the reading would be passed over there; here the head fails as well
(`keyHead`).

A name that has been written out takes one more expression, so there has to be room for one (`Level.Mirrors.name`).
-/

namespace BindScript.Parser

variable {short : Position → Bool} {key : Bool} {α : Type} {flag : α → Bool}

/-- Runs `p`, but not at a shorthand. -/
def unlessShort (short : Position → Bool) (p : Parse α) : Parse α := do
  if short (← position) then fail .nestingTooDeep else p

/-- The head of a loop. It fails where a pattern cannot be read for good. -/
def keyHead (lower : Level) : Parse Stmt := fun c =>
  match lower.pattern c with
  | .error issue c' => if issue.cause.isFinal then .error issue c' else forHead lower c
  | .ok _ _ => forHead lower c

/-- `for`, at its keyword. -/
def keyLoop (lower : Level) : Parse Stmt := do
  advance
  expectPunct .openParen .openParenExpected
  inBlock (keyHead lower)

/-- A statement. -/
def keyStatement (lower : Level) : Parse Stmt := do
  if ← checkKeyword .for then keyLoop lower else statement lower

/-- The level from which `n` more levels may be entered, where shorthands are nothing but keys. -/
def keyLevel (short : Position → Bool) : Nat → Level
  | 0 => Level.exhausted
  | n + 1 =>
    let lower := keyLevel short n
    { assignment := unlessShort short (assignment lower)
      unary := unlessShort short (unary lower)
      operand := fun loosest => unlessShort short (binary lower loosest)
      statement := unlessShort short (keyStatement lower)
      pattern := unlessShort short (bindingPattern lower) }

/-- The parsers of the second level mirror those of the first one, and read what a shorthand is written out to. -/
structure Level.Mirrors (short : Position → Bool) (lower lower' : Level) : Prop where
  assignment {key : Bool} : Parser.Mirrors short key lower.assignment lower'.assignment fun _ => false
  unary {key : Bool} : Parser.Mirrors short key lower.unary lower'.unary fun _ => false
  operand {key : Bool} (loosest : Nat) :
    Parser.Mirrors short key (lower.operand loosest) (lower'.operand loosest) fun _ => false
  statement {key : Bool} : Parser.Mirrors short key lower.statement lower'.statement fun _ => false
  pattern {key : Bool} : Parser.Mirrors short key lower.pattern lower'.pattern fun _ => false
  name {c : Cursor} {name : String} (here : c.current.kind = .identifier name)
    (ends : c.advance.current.kind.endsProperty = true) : lower'.assignment c = .ok (nameExpr name) c.advance
  target {c : Cursor} {name : String} (here : c.current.kind = .identifier name) :
    lower'.pattern c = .ok (.name name) c.advance

/-- Where shorthands are refused, nothing has to be known about them. -/
theorem Mirrors.unlessShort {p q : Parse α} (mirrors : Mirrors short false p q flag) :
    Mirrors short key (Parser.unlessShort short p) q flag := by
  have run : ∀ c, Parser.unlessShort short p c =
      (if short c.current.start = true then Parser.fail .nestingTooDeep else p) c := fun _ => rfl
  refine at_key (fun c d abreast => ?_) fun name c d place => ?_
  · -- The place may be that of a shorthand that has not been written out.
    rw [run]
    split
    · exact .inl rfl
    · exact mirrors c d abreast
  · rw [run, if_pos place.marked]
    exact .inl rfl

/-! ## What a shorthand is written out to -/

/-- What a token that ends a property is not. -/
theorem apart_of_endsProperty {k : TokenKind} (ends : k.endsProperty = true) :
    updateOp? k = none ∧ assignOp? k = none ∧ (∀ allowIn, binaryOp? allowIn k = none) ∧
      k.isPunct .question = false ∧ k.isPunct .arrow = false ∧ k.isPunct .colon = false ∧
        k.isPunct .openParen = false := by
  unfold TokenKind.endsProperty at ends
  split at ends
  case h_3 => cases ends
  all_goals exact ⟨rfl, rfl, fun _ => rfl, rfl, rfl, rfl, rfl⟩

section Names

variable {c : Cursor} {name : String}

theorem chainTurn_of_endsProperty (lower : Level) (e : Expr) (ends : c.current.kind.endsProperty = true) :
    chainTurn lower e c = .ok (.done e) c := by
  unfold chainTurn
  rw [run_kind]
  generalize c.current.kind = k at ends
  unfold TokenKind.endsProperty at ends
  split at ends
  case h_3 => cases ends
  all_goals rfl

/-- No arrow function starts with a name at which a property ends. -/
theorem arrowAhead_of_name (here : c.current.kind = .identifier name)
    (ends : c.advance.current.kind.endsProperty = true) : arrowAhead c.rest = false := by
  obtain ⟨ts, blocks, noIn⟩ := c
  cases ts with
  | nil => rfl
  | cons t ts =>
    have here : t.kind = .identifier name := here
    unfold arrowAhead
    dsimp only
    rw [here]
    cases ts with
    | nil => rfl
    | cons t' ts =>
      obtain ⟨-, -, -, -, noArrow, -, -⟩ := apart_of_endsProperty ends
      exact noArrow

/-- A name at which a property ends is read as a name and nothing more. -/
theorem unary_of_name (lower : Level) (here : c.current.kind = .identifier name)
    (ends : c.advance.current.kind.endsProperty = true) : unary lower c = .ok (nameExpr name) c.advance := by
  have chain : callChain lower c = .ok (nameExpr name) c.advance :=
    (run_ok (primary_name here) _).trans (repeatFrom_done (chainTurn_of_endsProperty lower _ ends))
  have post : postfixed lower c = .ok (nameExpr name) c.advance := by
    refine (run_ok chain _).trans ?_
    show (if c.advance.current.newlineBefore = true then _ else _ : Parse Expr) c.advance = _
    split
    · rfl
    · rw [(apart_of_endsProperty ends).1]
      rfl
  unfold unary
  rw [run_kind, here]
  exact post

/-- A name before a comma or a brace is a whole expression. -/
theorem assignment_of_name (n : Nat) (here : c.current.kind = .identifier name)
    (ends : c.advance.current.kind.endsProperty = true) :
    (level (n + 2)).assignment c = .ok (nameExpr name) c.advance := by
  -- No operator begins with what ends the property, so the operators of each level give the name back.
  obtain ⟨-, noAssign, noBinary, noQuestion, -⟩ := apart_of_endsProperty ends
  have operand : (level (n + 1)).unary c = .ok (nameExpr name) c.advance := unary_of_name (level n) here ends
  have joined : binaryTurn (level (n + 1)) 1 (nameExpr name) c.advance = .ok (.done (nameExpr name)) c.advance := by
    unfold binaryTurn
    rw [run_get, noBinary]
    rfl
  have test : binary (level (n + 1)) 1 c = .ok (nameExpr name) c.advance :=
    (run_ok operand _).trans (repeatFrom_done joined)
  have conditional : conditional (level (n + 1)) c = .ok (nameExpr name) c.advance := by
    refine (run_ok test _).trans ?_
    have noMark : eatPunct .question c.advance = .ok false c.advance := by
      rw [eatPunct_apply, noQuestion]
      rfl
    exact run_ok noMark _
  show assignment (level (n + 1)) c = _
  unfold assignment
  rw [run_get, arrowAhead_of_name here ends, if_neg Bool.false_ne_true]
  refine (run_ok conditional _).trans ?_
  rw [run_kind, noAssign]
  rfl

theorem pattern_of_name (n : Nat) (here : c.current.kind = .identifier name) :
    (level (n + 1)).pattern c = .ok (.name name) c.advance := by
  show bindingPattern (level n) c = _
  unfold bindingPattern
  rw [run_kind, here]
  rfl

end Names

end BindScript.Parser

/-!
## Patterns and expressions with shorthands

Each parser of patterns and expressions mirrors itself if those of the level below do (`Level.Mirrors`). Only two of
them meet a name that is written out: the parser of properties (`property`) and that of the fields of a pattern
(`patternField`). In all other constructs a name after a brace or a comma begins something that is read by the level
below, which refuses shorthands.
-/

namespace BindScript.Parser

variable {short : Position → Bool} {key : Bool} {lower lower' : Level} {c d : Cursor} {name : String}

/-- The token after a shorthand is the one after what it is written out to. -/
theorem AtShorthand.endsThere (place : AtShorthand short name c d) :
    d.advance.advance.advance.current.kind.endsProperty = true := by
  rw [TokenKind.agree_of_emptied (f := TokenKind.endsProperty) place.after.kind fun _ _ => rfl]
  exact place.ends

theorem run_advance (c : Cursor) : advance c = .ok () c.advance :=
  rfl

theorem AtShorthand.noColon (place : AtShorthand short name c d) :
    eatPunct .colon c.advance = .ok false c.advance := by
  obtain ⟨-, -, -, -, -, noColon, -⟩ := apart_of_endsProperty place.ends
  rw [eatPunct_apply, noColon]
  rfl

theorem AtShorthand.noParen (place : AtShorthand short name c d) :
    checkPunct .openParen c.advance = .ok false c.advance := by
  obtain ⟨-, -, -, -, -, -, noParen⟩ := apart_of_endsProperty place.ends
  exact congrArg (EStateM.Result.ok · c.advance) noParen

theorem AtShorthand.passColon (place : AtShorthand short name c d) :
    eatPunct .colon d.advance = .ok true d.advance.advance := by
  rw [eatPunct_apply, place.colon]
  rfl

theorem eatPunct_of_name (mark : Punct) (here : c.current.kind = .identifier name) :
    eatPunct mark c = .ok false c := by
  rw [eatPunct_apply, here]
  rfl

theorem leadsKey_of_updateOp? {k : TokenKind} {op : UpdateOp} (here : updateOp? k = some op) :
    k.leadsKey = false := by
  unfold updateOp? at here
  split at here
  · rfl
  · rfl
  · cases here

theorem leadsKey_of_propertyKey? {k : TokenKind} {found : String × Bool} (here : propertyKey? k = some found) :
    k.leadsKey = false := by
  cases k with
  | punct mark => cases here
  | _ => rfl

namespace Mirrors

/-! ### Patterns -/

theorem defaultValue (levels : lower.Mirrors short lower') :
    Mirrors short false (Parser.defaultValue lower) (Parser.defaultValue lower') fun _ => false :=
  eat _ (bind levels.assignment fun _ => pure id) (pure id)

theorem arrayPatternTurn (levels : lower.Mirrors short lower') (found : List (Option Element)) :
    Mirrors short true (Parser.arrayPatternTurn lower found) (Parser.arrayPatternTurn lower' found)
      (Turn.flag true false) := by
  unfold Parser.arrayPatternTurn
  refine eat _ (pure id) (eat _ (pure id) (eat _ ?_ ?_))
  · exact bind levels.pattern fun rest => eat _ (pure id) (check _ (fail _ _) (fail _ _))
  · refine bind levels.pattern fun target => bind (defaultValue levels) fun default => ?_
    exact eat _ (pure id) (bind (expectPunct _ _) fun _ => pure id)

/-- A shorthand in a pattern is written out to a name and a pattern that is this name. -/
theorem patternField (levels : lower.Mirrors short lower') :
    Mirrors short key (Parser.patternField lower) (Parser.patternField lower') fun _ => false := by
  have withDefault : ∀ id target, Mirrors short false (do return Field.mk id target (← Parser.defaultValue lower))
      (do return Field.mk id target (← Parser.defaultValue lower')) fun _ => false :=
    fun _ _ => bind (defaultValue levels) fun _ => pure id
  refine at_key (kind_bind (fun _ _ => rfl) fun c d abreast => ?_) fun name c d place => ?_
  · cases here : propertyKey? c.current.kind with
    | none => exact fail _ _ c d abreast
    | some found =>
      refine abreast.advance_bind_at rfl ?_
      rw [leadsKey_of_propertyKey? here]
      exact eat _ (bind levels.pattern fun target => withDefault _ target)
        (ite (fun _ => withDefault _ _) fun _ => fail_bind _ _)
  · have first : Parser.patternField lower c =
        (do return Field.mk name (.name name) (← Parser.defaultValue lower)) c.advance := by
      unfold Parser.patternField
      rw [run_kind, place.here]
      exact (run_ok (run_advance c) _).trans (run_ok place.noColon _)
    have second : Parser.patternField lower' d =
        (do return Field.mk name (.name name) (← Parser.defaultValue lower')) d.advance.advance.advance := by
      unfold Parser.patternField
      rw [run_kind, place.key]
      refine (run_ok (run_advance d) _).trans ((run_ok place.passColon _).trans ?_)
      exact run_ok (levels.target place.value) _
    rw [first, second]
    exact withDefault _ _ _ _ place.after

theorem objectPatternTurn (levels : lower.Mirrors short lower') (found : List Field) :
    Mirrors short true (Parser.objectPatternTurn lower found) (Parser.objectPatternTurn lower' found)
      (Turn.flag true false) := by
  unfold Parser.objectPatternTurn
  refine eat _ (pure id) (eat _ ?_ ?_)
  · exact bind expectIdentifier fun rest => eat _ (pure id) (check _ (fail _ _) (fail _ _))
  · refine bind (patternField levels) fun field => eat _ (pure id) ?_
    exact bind (expectPunct _ _) fun _ => pure id

theorem bindingPattern (levels : lower.Mirrors short lower') :
    Mirrors short false (Parser.bindingPattern lower) (Parser.bindingPattern lower') fun _ => false := by
  refine kind_bind (fun _ _ => rfl) fun c d abreast => ?_
  generalize here : c.current.kind = k
  split
  · exact abreast.advance_bind_at here (pure id)
  · exact abreast.advance_bind_at here (repeatFrom (arrayPatternTurn levels) []).plain
  · exact abreast.advance_bind_at here (repeatFrom (objectPatternTurn levels) [])
  · exact fail _ _ c d abreast
  · exact fail _ _ c d abreast

/-! ### Functions -/

theorem paramsTurn (levels : lower.Mirrors short lower') (found : List Element) :
    Mirrors short true (Parser.paramsTurn lower found) (Parser.paramsTurn lower' found) (Turn.flag true true) := by
  unfold Parser.paramsTurn
  refine check _ (pure fun _ => rfl) (position_bind fun place place' => eat _ ?_ ?_)
  · refine bind levels.pattern fun rest => bind (declareAll _ _ _ _) fun _ => ?_
    exact check _ (fail_bind _ _) (pure fun _ => rfl)
  · refine bind levels.pattern fun target => bind (declareAll _ _ _ _) fun _ => ?_
    exact bind (defaultValue levels) fun default => eat _ (pure id) (pure fun _ => rfl)

theorem params (levels : lower.Mirrors short lower') :
    Mirrors short false (Parser.params lower) (Parser.params lower') fun _ => false := by
  refine bind (expectPunct _ _) fun _ => bind (repeatFrom (paramsTurn levels) []).plain fun found => ?_
  exact bind (expectPunct _ _) fun _ => pure id

theorem blockTurn (levels : lower.Mirrors short lower') (found : List Stmt) :
    Mirrors short true (Parser.blockTurn lower found) (Parser.blockTurn lower' found) (Turn.flag true false) := by
  unfold Parser.blockTurn
  refine pass _ (pure id) (ends (fail_bind _ _) ?_)
  exact bind levels.statement fun _ => pure fun _ => rfl

theorem blockContents (levels : lower.Mirrors short lower') :
    Mirrors short true (Parser.blockContents lower) (Parser.blockContents lower') fun _ => false :=
  repeatFrom (blockTurn levels) []

theorem block (levels : lower.Mirrors short lower') :
    Mirrors short true (Parser.block lower) (Parser.block lower') fun _ => false :=
  inBlock (blockContents levels)

theorem expectBlock (levels : lower.Mirrors short lower') :
    Mirrors short key (Parser.expectBlock lower) (Parser.expectBlock lower') fun _ => false :=
  bind (expectPunct _ _) fun _ => block levels

theorem functionRest (levels : lower.Mirrors short lower') :
    Mirrors short false (Parser.functionRest lower) (Parser.functionRest lower') fun _ => false := by
  refine inBlock (bind (params levels) fun params => bind (expectPunct _ _) fun _ => ?_)
  exact bind (blockContents levels) fun statements => pure id

/-- What is written out in the parameters and in the body is written out in its place. -/
theorem arrow (levels : lower.Mirrors short lower') :
    Mirrors short false (Parser.arrow lower) (Parser.arrow lower') fun _ => false := by
  have body : ∀ positional rest, Mirrors short false
      (do
        Parser.expectPunct .arrow .arrowExpected
        if ← Parser.eatPunct .openBrace then
          return Function.mk positional rest (.block (← Parser.blockContents lower))
        else return Function.mk positional rest (.expr (← Parser.allowingIn lower.assignment)))
      (do
        Parser.expectPunct .arrow .arrowExpected
        if ← Parser.eatPunct .openBrace then
          return Function.mk positional rest (.block (← Parser.blockContents lower'))
        else return Function.mk positional rest (.expr (← Parser.allowingIn lower'.assignment)))
      fun _ => false := by
    intro positional rest
    refine bind (expectPunct _ _) fun _ => eat _ ?_ ?_
    · exact bind (blockContents levels) fun statements => pure id
    · exact bind (allowingIn levels.assignment) fun e => pure id
  refine inBlock (kind_bind (fun _ _ => rfl) fun c d abreast => ?_)
  generalize here : c.current.kind = k
  split
  · next name =>
    refine .position_bind (abreast.advance_bind_at here ?_)
    exact bind (declare _ _ _ _) fun _ => body [.mk (.name name) none] none
  · exact bind (params levels) (fun params => body params.1 params.2) c d abreast

/-! ### Lists of expressions -/

theorem expression (levels : lower.Mirrors short lower') :
    Mirrors short key (Parser.expression lower) (Parser.expression lower') fun _ => false := by
  have turn : ∀ found, Mirrors short false (Parser.sequenceTurn lower found) (Parser.sequenceTurn lower' found)
      (Turn.flag false false) :=
    fun _ => eat _ (bind levels.assignment fun _ => pure id) (pure id)
  exact bind levels.assignment fun first => check _ (repeatFrom turn [first]) (pure id)

theorem completeExpression (levels : lower.Mirrors short lower') :
    Mirrors short key (Parser.completeExpression lower) (Parser.completeExpression lower') fun _ => false := by
  have never : Mirrors short false (Parser.unexpected : Parse PUnit) Parser.unexpected fun _ => false := unexpected
  exact bind (expression levels) fun _ => ends (pure id) (bind never fun _ => pure id)

theorem propertyName : Mirrors short false Parser.propertyName Parser.propertyName fun _ => false := by
  refine kind_bind (fun _ _ => rfl) fun c d abreast => ?_
  generalize here : c.current.kind = k
  split
  · exact abreast.advance_bind_at here (pure id)
  · exact abreast.advance_bind_at here (pure id)
  · exact fail _ _ c d abreast

theorem bracketed (levels : lower.Mirrors short lower') :
    Mirrors short key (Parser.bracketed lower) (Parser.bracketed lower') fun _ => false :=
  bind (allowingIn (expression levels)) fun _ => bind (expectPunct _ _) fun _ => pure id

theorem spreadable (levels : lower.Mirrors short lower') :
    Mirrors short key (Parser.spreadable lower) (Parser.spreadable lower') fun _ => false :=
  eat _ (bind levels.assignment fun _ => pure id) levels.assignment

theorem arguments (levels : lower.Mirrors short lower') :
    Mirrors short key (Parser.arguments lower) (Parser.arguments lower') fun _ => false := by
  have turn : ∀ found, Mirrors short true (Parser.argumentTurn lower found) (Parser.argumentTurn lower' found)
      (Turn.flag true true) := by
    intro found
    refine check _ (pure fun _ => rfl) (bind (spreadable levels) fun e => ?_)
    exact eat _ (pure id) (pure fun _ => rfl)
  refine bind (expectPunct _ _) fun _ => allowingIn (bind (repeatFrom turn []).plain fun args => ?_)
  exact bind (expectPunct _ _) fun _ => pure id

theorem arrayTurn (levels : lower.Mirrors short lower') (found : List Expr) :
    Mirrors short true (Parser.arrayTurn lower found) (Parser.arrayTurn lower' found) (Turn.flag true false) := by
  refine eat _ (pure id) (eat _ (pure id) (bind (spreadable levels) fun e => eat _ (pure id) ?_))
  exact bind (expectPunct _ _) fun _ => pure id

/-! ### Objects -/

/-- The place where a name that is written out is met. -/
theorem property (levels : lower.Mirrors short lower') :
    Mirrors short key (Parser.property lower) (Parser.property lower') fun _ => false := by
  have method : ∀ result : Expr → Property, Mirrors short false
      (do return result (.function (← Parser.functionRest lower)))
      (do return result (.function (← Parser.functionRest lower'))) fun _ => false :=
    fun _ => bind (functionRest levels) fun _ => pure id
  refine at_key ?_ fun name c d place => ?_
  · refine eat _ (bind levels.assignment fun e => pure id) (eat _ ?_ ?_)
    · refine bind (bracketed levels) fun key => check _ (method _) (bind (expectPunct _ _) fun _ => ?_)
      exact bind levels.assignment fun e => pure id
    · refine kind_bind (fun _ _ => rfl) fun c d abreast => ?_
      cases here : propertyKey? c.current.kind with
      | none => exact .ite (fun _ => fail _ _ c d abreast) fun _ => fail _ _ c d abreast
      | some found =>
        refine abreast.advance_bind_at rfl ?_
        rw [leadsKey_of_propertyKey? here]
        refine eat _ (bind levels.assignment fun e => pure id) (check _ (method _) ?_)
        exact ite (fun _ => pure id) fun _ => fail _ _
  -- The first reading makes the value of the key, the second one reads it after the colon.
  · have first : Parser.property lower c = .ok (.named name (.name name)) c.advance := by
      unfold Parser.property
      refine (run_ok (eatPunct_of_name _ place.here) _).trans ((run_ok (eatPunct_of_name _ place.here) _).trans ?_)
      show (Parser.kind >>= _) c = _
      rw [run_kind, place.here]
      exact (run_ok (run_advance c) _).trans ((run_ok place.noColon _).trans (run_ok place.noParen _))
    have second : Parser.property lower' d = .ok (.named name (.name name)) d.advance.advance.advance := by
      unfold Parser.property
      refine (run_ok (eatPunct_of_name _ place.key) _).trans ((run_ok (eatPunct_of_name _ place.key) _).trans ?_)
      show (Parser.kind >>= _) d = _
      rw [run_kind, place.key]
      refine (run_ok (run_advance d) _).trans ((run_ok place.passColon _).trans ?_)
      refine (run_ok (levels.name place.value place.endsThere) _).trans ?_
      rw [nameExpr_of_ordinary place.ordinary]
      rfl
    rw [first, second]
    exact ⟨_, rfl, place.after⟩

theorem objectLiteral (levels : lower.Mirrors short lower') :
    Mirrors short true (Parser.objectLiteral lower) (Parser.objectLiteral lower') fun _ => false := by
  have turn : ∀ found, Mirrors short true (Parser.propertyTurn lower found) (Parser.propertyTurn lower' found)
      (Turn.flag true true) := by
    intro found
    refine check _ (pure fun _ => rfl) (bind (property levels) fun p => ?_)
    exact eat _ (pure id) (pure fun _ => rfl)
  refine allowingIn (bind (repeatFrom turn []) fun properties => ?_)
  exact bind (expectPunct _ _) fun _ => pure id

/-! ### Templates -/

/-- Each hole is read in a reading of its own, and those mirror each other, too. -/
theorem templateParts (levels : lower.Mirrors short lower') {chunks chunks' : List TemplateChunk}
    (same : chunks'.map TemplateChunk.emptied = chunks.map TemplateChunk.emptied)
    (splits : ∀ h ∈ (chunks.filterMap TemplateChunk.hole?).zip (chunks'.filterMap TemplateChunk.hole?),
      (tokenizeAt h.2.1 h.2.2).toBool = (tokenizeAt h.1.1 h.1.2).toBool)
    (holes : ∀ h ∈ (chunks.filterMap TemplateChunk.hole?).zip (chunks'.filterMap TemplateChunk.hole?), h.1 ≠ h.2 →
      ∀ us us', tokenizeAt h.1.1 h.1.2 = .ok us → tokenizeAt h.2.1 h.2.2 = .ok us' → WritesOut short false us us') :
    Mirrors short false (Parser.templateParts lower chunks) (Parser.templateParts lower' chunks') fun _ => false := by
  induction chunks generalizing chunks' with
  | nil =>
    obtain rfl := List.map_eq_nil_iff.1 same
    exact pure id
  | cons chunk chunks ih =>
    obtain ⟨chunk', chunks', rfl, first, others⟩ := List.map_eq_cons_iff.1 same
    cases chunk with
    | text value =>
      cases chunk' with
      | hole => cases first
      | text value' =>
        cases first
        exact bind (ih others splits holes) fun _ => pure id
    | hole source start =>
      cases chunk' with
      | text => cases first
      | hole source' start' =>
        obtain ⟨split, splits⟩ := List.forall_mem_cons.1 splits
        obtain ⟨hole, holes⟩ := List.forall_mem_cons.1 holes
        have rest := ih others splits holes
        unfold Parser.templateParts
        dsimp only at split hole
        cases tokens : tokenizeAt source start with
        | error issue =>
          cases tokens' : tokenizeAt source' start' with
          | error issue' => exact throw _ _
          | ok us' =>
            rw [tokens, tokens'] at split
            cases split
        | ok us =>
          cases tokens' : tokenizeAt source' start' with
          | error issue' =>
            rw [tokens, tokens'] at split
            cases split
          | ok us' =>
            have written : WritesOut short false us us' := by
              -- A hole that is the same in both readings is set beside itself.
              by_cases equal : (source, start) = (source', start')
              · cases equal
                cases tokens.symm.trans tokens'
                exact .refl us
              · exact hole equal us us' tokens tokens'
            have inner := completeExpression levels _ _ (show Abreast short false (.ofTokens us) (.ofTokens us') from
              ⟨written, rfl, rfl⟩)
            dsimp only
            cases run : Parser.completeExpression lower (.ofTokens us) with
            | error issue c =>
              rw [run] at inner
              rcases inner with final | ⟨issue', d, other, -⟩
              · exact fun _ _ _ => .inl final
              · rw [other]
                exact throw _ _
            | ok value c =>
              rw [run] at inner
              obtain ⟨d, other, -⟩ := inner
              rw [other]
              exact bind rest fun _ => pure id

/-! ### Operands and operators -/

theorem functionExpr (levels : lower.Mirrors short lower') :
    Mirrors short false (Parser.functionExpr lower) (Parser.functionExpr lower') fun _ => false := by
  have value : Mirrors short false (do return Expr.function (← Parser.functionRest lower))
      (do return Expr.function (← Parser.functionRest lower')) fun _ => false :=
    bind (functionRest levels) fun _ => pure id
  refine kind_bind (fun _ _ => rfl) fun c d abreast => ?_
  generalize here : c.current.kind = k
  split
  · exact abreast.advance_bind_at here value
  · exact value c d abreast

/-- Names are written out only as properties, so a name that is an operand is the same on both sides. -/
theorem primary (levels : lower.Mirrors short lower') :
    Mirrors short false (Parser.primary lower) (Parser.primary lower') fun _ => false := by
  intro c d abreast
  have kind := abreast.kind
  obtain ⟨splits, holes⟩ := abreast.holes
  unfold Parser.primary
  rw [run_kind, run_kind]
  generalize here : c.current.kind = k at kind splits holes
  generalize d.current.kind = k' at kind splits holes
  -- The holes of a template may differ. Every other token is the same in both readings.
  by_cases template : ∃ chunks, k = .template chunks
  · obtain ⟨chunks, rfl⟩ := template
    rcases TokenKind.eq_or_template_of_emptied kind with rfl | ⟨_, chunks', ⟨⟩, rfl, same⟩
    · exact abreast.advance_bind_at here (bind (templateParts levels rfl splits holes) fun _ => pure id)
    · exact abreast.advance_bind_at here (bind (templateParts levels same splits holes) fun _ => pure id)
  · have same : k' = k := by
      refine (TokenKind.eq_or_template_of_emptied kind).resolve_right ?_
      rintro ⟨chunks, _, rfl, -⟩
      exact template ⟨chunks, rfl⟩
    rw [same]
    split
    case h_3 => exact absurd ⟨_, rfl⟩ template
    case h_8 => exact abreast.advance_bind_at here (functionExpr levels)
    case h_9 =>
      refine abreast.advance_bind_at here (bind (allowingIn (expression levels)) fun _ => ?_)
      exact bind (expectPunct _ _) fun _ => pure id
    case h_10 => exact abreast.advance_bind_at here (allowingIn (repeatFrom (arrayTurn levels) []).plain)
    case h_11 => exact abreast.advance_bind_at here (objectLiteral levels)
    case h_12 => exact fail _ _ c d abreast
    case h_13 => exact fail _ _ c d abreast
    all_goals exact abreast.advance_bind_at here (pure id)

/-- Keys behind a point are no variables and are left as they are. -/
theorem callChain (levels : lower.Mirrors short lower') :
    Mirrors short false (Parser.callChain lower) (Parser.callChain lower') fun _ => false := by
  have turn : ∀ chain, Mirrors short false (Parser.chainTurn lower chain) (Parser.chainTurn lower' chain)
      (Turn.flag false false) := by
    intro chain
    have member : ∀ optional, Mirrors short false
        (do return .again (.member chain (← Parser.propertyName) optional) : Parse (Turn Expr Expr))
        (do return .again (.member chain (← Parser.propertyName) optional)) (Turn.flag false false) :=
      fun _ => bind propertyName fun _ => pure id
    have index : ∀ optional, Mirrors short false
        (do return .again (.index chain (← Parser.bracketed lower) optional) : Parse (Turn Expr Expr))
        (do return .again (.index chain (← Parser.bracketed lower') optional)) (Turn.flag false false) :=
      fun _ => bind (bracketed levels) fun _ => pure id
    have call : ∀ optional, Mirrors short false
        (do return .again (.call chain (← Parser.arguments lower) optional) : Parse (Turn Expr Expr))
        (do return .again (.call chain (← Parser.arguments lower') optional)) (Turn.flag false false) :=
      fun _ => bind (arguments levels) fun _ => pure id
    refine kind_bind (fun _ _ => rfl) fun c d abreast => ?_
    generalize here : c.current.kind = k
    split
    · exact abreast.advance_bind_at here (member false)
    · exact abreast.advance_bind_at here (check _ (call true) (eat _ (index true) (member true)))
    · exact abreast.advance_bind_at here (index false)
    · exact call false c d abreast
    · exact pure id c d abreast
  exact bind (primary levels) fun first => repeatFrom turn first

theorem postfixed (levels : lower.Mirrors short lower') :
    Mirrors short false (Parser.postfixed lower) (Parser.postfixed lower') fun _ => false := by
  refine position_bind fun place place' => bind (callChain levels) fun e => get_bind fun c d abreast => ?_
  rw [abreast.line]
  refine .ite (fun _ => pure id c d abreast) fun _ => ?_
  rw [TokenKind.agree_of_emptied (f := updateOp?) abreast.kind fun _ _ => rfl]
  cases here : updateOp? c.current.kind with
  | none => exact pure id c d abreast
  | some op =>
    refine .ite (fun _ => abreast.advance_bind_at rfl ?_) fun _ => failAt _ _ _ _ c d abreast
    rw [leadsKey_of_updateOp? here]
    exact pure id

theorem unary (levels : lower.Mirrors short lower') :
    Mirrors short false (Parser.unary lower) (Parser.unary lower') fun _ => false := by
  refine kind_bind (fun _ _ => rfl) fun c d abreast => ?_
  cases unaryOp? c.current.kind with
  | some op => exact abreast.advance_bind_at rfl (bind levels.unary fun _ => pure id)
  | none =>
    cases updateOp? c.current.kind with
    | none => exact postfixed levels c d abreast
    | some op =>
      refine abreast.advance_bind_at rfl (position_bind fun place place' => bind levels.unary fun operand => ?_)
      exact ite (fun _ => pure id) fun _ => failAt _ _ _ _

theorem binary (levels : lower.Mirrors short lower') (loosest : Nat) :
    Mirrors short key (Parser.binary lower loosest) (Parser.binary lower' loosest) fun _ => false := by
  have turn : ∀ left, Mirrors short false (Parser.binaryTurn lower loosest left)
      (Parser.binaryTurn lower' loosest left) (Turn.flag false false) := by
    intro left
    refine get_bind fun c d abreast => ?_
    rw [abreast.flag, TokenKind.agree_of_emptied (f := binaryOp? (!c.noIn)) abreast.kind fun _ _ => rfl]
    cases binaryOp? (!c.noIn) c.current.kind with
    | none => exact pure id c d abreast
    | some op =>
      refine .ite (fun _ => pure id c d abreast) fun _ => ?_
      exact abreast.advance_bind_at rfl (bind (levels.operand _) fun _ => pure id)
  exact bind levels.unary fun first => repeatFrom turn first

theorem conditional (levels : lower.Mirrors short lower') :
    Mirrors short key (Parser.conditional lower) (Parser.conditional lower') fun _ => false := by
  refine bind (binary levels 1) fun test => eat _ ?_ (pure id)
  refine bind (allowingIn levels.assignment) fun consequent => bind (expectPunct _ _) fun _ => ?_
  exact bind levels.assignment fun _ => pure id

theorem assignment (levels : lower.Mirrors short lower') :
    Mirrors short false (Parser.assignment lower) (Parser.assignment lower') fun _ => false := by
  refine get_bind fun c d abreast => ?_
  rw [abreast.ahead.arrowAhead]
  refine .ite (fun _ => bind (arrow levels) (fun _ => pure id) c d abreast) fun _ => ?_
  refine bind (conditional levels) (fun target => ?_) c d abreast
  refine kind_bind (fun _ _ => rfl) fun c' d' abreast' => ?_
  cases assignOp? c'.current.kind with
  | none => exact pure id c' d' abreast'
  | some op =>
    refine .ite (fun _ => ?_) fun _ => failAt _ _ _ _ c' d' abreast'
    exact abreast'.advance_bind_at rfl (bind levels.assignment fun _ => pure id)

end Mirrors

end BindScript.Parser
