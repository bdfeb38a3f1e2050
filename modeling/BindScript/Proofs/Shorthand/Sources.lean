import BindScript.Proofs.Shorthand.Expressions
import BindScript.Evaluation

/-!
# Statements and sources with shorthands

Statements, and from them the levels (`keyLevel_mirrors`): where shorthands are nothing but keys, two more levels are
enough for what they are written out to.
-/

namespace BindScript.Parser

variable {short : Position → Bool} {key : Bool} {lower lower' : Level} {c d : Cursor}

namespace Mirrors

/-! ## Declarations -/

theorem parenthesized (levels : lower.Mirrors short lower') :
    Mirrors short key (Parser.parenthesized lower) (Parser.parenthesized lower') fun _ => false := by
  refine bind (expectPunct _ _) fun _ => bind (expression levels) fun e => ?_
  exact bind (expectPunct _ _) fun _ => pure id

theorem finishDeclarator (levels : lower.Mirrors short lower') (kind : DeclKind) (pattern : Pattern) :
    Mirrors short false (Parser.finishDeclarator lower kind pattern) (Parser.finishDeclarator lower' kind pattern)
      fun _ => false := by
  refine bind (defaultValue levels) fun init => ?_
  cases init with
  | some init => exact pure id
  | none =>
    cases pattern with
    | name id => exact ite (fun _ => fail _ _) fun _ => pure fun no => no
    | array | object => exact fail _ _

theorem declarator (levels : lower.Mirrors short lower') (kind : DeclKind) :
    Mirrors short key (Parser.declarator lower kind) (Parser.declarator lower' kind) fun _ => false := by
  refine position_bind fun place place' => bind levels.pattern fun pattern => ?_
  exact bind (declareAll _ _ _ _) fun _ => finishDeclarator levels kind pattern

theorem moreDeclarators (levels : lower.Mirrors short lower') (kind : DeclKind) (first : Declarator) :
    Mirrors short false (Parser.moreDeclarators lower kind first) (Parser.moreDeclarators lower' kind first)
      fun _ => false := by
  have turn : ∀ found, Mirrors short false (Parser.declaratorTurn lower kind found)
      (Parser.declaratorTurn lower' kind found) (Turn.flag false false) :=
    fun _ => eat _ (bind (declarator levels kind) fun _ => pure id) (pure id)
  exact repeatFrom turn [first]

theorem declaration (levels : lower.Mirrors short lower') (kind : DeclKind) :
    Mirrors short false (Parser.declaration lower kind) (Parser.declaration lower' kind) fun _ => false := by
  refine bind advance fun _ => bind (declarator levels kind) fun first => ?_
  exact bind (moreDeclarators levels kind first) fun _ => bind endStatement fun _ => pure id

/-! ## Branches and loops -/

theorem branch (levels : lower.Mirrors short lower') :
    Mirrors short false (Parser.branch lower) (Parser.branch lower') fun _ => false := by
  refine bind advance fun _ => bind (parenthesized levels) fun test => bind levels.statement fun consequent => ?_
  exact eatWord _ (bind levels.statement fun _ => pure id) (pure id)

theorem whileLoop (levels : lower.Mirrors short lower') :
    Mirrors short false (Parser.whileLoop lower) (Parser.whileLoop lower') fun _ => false := by
  refine bind advance fun _ => bind (parenthesized levels) fun test => ?_
  exact bind levels.statement fun _ => pure id

theorem doWhile (levels : lower.Mirrors short lower') :
    Mirrors short false (Parser.doWhile lower) (Parser.doWhile lower') fun _ => false := by
  refine bind advance fun _ => bind levels.statement fun body => eatWord _ ?_ (fail_bind _ _)
  have semicolon : Mirrors short false (Parser.eatPunct .semicolon) (Parser.eatPunct .semicolon) fun _ => false :=
    pass _ (pure id) (pure id)
  exact bind (parenthesized levels) fun test => bind semicolon fun _ => pure id

/-- After the pattern both readings look for the same word. -/
theorem forEach? (levels : lower.Mirrors short lower') (kind : Option DeclKind) (pattern : Pattern) :
    Mirrors short false (Parser.forEach? lower kind pattern) (Parser.forEach? lower' kind pattern)
      fun _ => false := by
  have body : ∀ (visits : EachKind) (object : Expr), Mirrors short false
      (do
        Parser.expectPunct .closeParen .closeParenExpected
        return some (Stmt.forEach visits kind pattern object (← lower.statement)))
      (do
        Parser.expectPunct .closeParen .closeParenExpected
        return some (Stmt.forEach visits kind pattern object (← lower'.statement))) fun _ => false :=
    fun _ _ => bind (expectPunct _ _) fun _ => bind levels.statement fun _ => pure id
  refine kind_bind (fun _ _ => rfl) fun c d abreast => ?_
  generalize here : c.current.kind = k
  dsimp only
  split
  · exact abreast.advance_bind_at here (bind (expression levels) (body .keys))
  · next name =>
    by_cases of : name = "of"
    · rw [if_pos of]
      exact abreast.advance_bind_at here (bind levels.assignment (body .items))
    · rw [if_neg of]
      exact pure id c d abreast
  · exact pure id c d abreast

theorem optionalBefore (levels : lower.Mirrors short lower') (mark : Punct) :
    Mirrors short key (Parser.optionalBefore lower mark) (Parser.optionalBefore lower' mark) fun _ => false :=
  check _ (pure id) (bind (expression levels) fun _ => pure id)

theorem forRest (levels : lower.Mirrors short lower') (init : ForInit) :
    Mirrors short key (Parser.forRest lower init) (Parser.forRest lower' init) fun _ => false := by
  refine bind (expectPunct _ _) fun _ => bind (optionalBefore levels _) fun test => ?_
  refine bind (expectPunct _ _) fun _ => bind (optionalBefore levels _) fun update => ?_
  exact bind (expectPunct _ _) fun _ => bind levels.statement fun _ => pure id

theorem forDeclaration (levels : lower.Mirrors short lower') (kind : DeclKind) :
    Mirrors short false (Parser.forDeclaration lower kind) (Parser.forDeclaration lower' kind) fun _ => false := by
  refine bind advance fun _ => position_bind fun place place' => bind levels.pattern fun pattern => ?_
  refine bind (declareAll _ _ _ _) fun _ => bind (forEach? levels (some kind) pattern) fun found => ?_
  cases found with
  | some loop => exact pure id
  | none =>
    have declarators := bind (finishDeclarator levels kind pattern) fun first => moreDeclarators levels kind first
    exact bind (reservingIn declarators) fun _ => forRest levels _

/-! ## Heads of loops -/

/-- A head without a declaration. If it cannot be read as a pattern in the first reading, neither can it in the second
one, and both readings go back. -/
theorem bareForEach? (levels : lower.Mirrors short lower') (abreast : Abreast short false c d)
    (lasting : ∀ issue c', lower.pattern c = .error issue c' → issue.cause.isFinal = false) :
    Mirrored short (fun _ => false) (Parser.bareForEach? lower c) (Parser.bareForEach? lower' d) := by
  have pattern := levels.pattern c d abreast
  unfold Parser.bareForEach?
  cases read : lower.pattern c with
  | error issue c' =>
    rw [read] at pattern
    rcases pattern with final | ⟨issue', d', other, blocks, flag⟩
    · rw [lasting issue c' read] at final
      cases final
    · -- Both readings go back to the tokens before the pattern, but keep the blocks it leaves.
      rw [other]
      exact ⟨_, rfl, abreast.ahead, blocks, flag⟩
  | ok pattern' c' =>
    rw [read] at pattern
    obtain ⟨d', other, abreast'⟩ := pattern
    rw [other]
    have loop := forEach? levels none pattern' c' d' abreast'
    dsimp only
    cases run : Parser.forEach? lower none pattern' c' with
    | error issue c'' =>
      rw [run] at loop
      rcases loop with final | ⟨issue', d'', other, same⟩
      · exact .inl final
      · rw [other]
        exact .inr ⟨issue', d'', rfl, same⟩
    | ok found c'' =>
      rw [run] at loop
      obtain ⟨d'', other, abreast''⟩ := loop
      rw [other]
      -- without a loop both go back to the tokens before the pattern
      cases found with
      | none => exact ⟨_, rfl, abreast.ahead, abreast''.blocks, abreast''.flag⟩
      | some loop => exact ⟨_, rfl, abreast''⟩

theorem forHead (levels : lower.Mirrors short lower') (abreast : Abreast short false c d)
    (lasting : ∀ issue c', lower.pattern c = .error issue c' → issue.cause.isFinal = false) :
    Mirrored short (fun _ => false) (Parser.forHead lower c) (Parser.forHead lower' d) := by
  unfold Parser.forHead
  rw [run_kind, run_kind, TokenKind.agree_of_emptied (f := declKind?) abreast.kind fun _ _ => rfl]
  cases declKind? c.current.kind with
  | some kind => exact forDeclaration levels kind c d abreast
  | none =>
    refine .check _ abreast (forRest levels _ c d abreast) ((bareForEach? levels abreast lasting).bind fun found => ?_)
    cases found with
    | some loop => exact pure id
    | none => exact bind (reservingIn (expression levels)) fun init => forRest levels _

/-- A head is the same in both readings, unless a pattern fails for good. -/
theorem keyHead (levels : lower.Mirrors short lower') :
    Mirrors short false (Parser.keyHead lower) (Parser.forHead lower') fun _ => false := by
  intro c d abreast
  unfold Parser.keyHead
  cases read : lower.pattern c with
  | ok pattern c' =>
    refine forHead levels abreast fun issue c'' failed => ?_
    cases read.symm.trans failed
  | error issue c' =>
    by_cases final : issue.cause.isFinal = true
    · dsimp only
      rw [if_pos final]
      exact .inl final
    · dsimp only
      rw [if_neg final]
      -- A pattern that is no pattern: both readings try again with an expression.
      refine forHead levels abreast fun issue' c'' failed => ?_
      cases read.symm.trans failed
      exact Bool.eq_false_iff.2 final

theorem keyLoop (levels : lower.Mirrors short lower') :
    Mirrors short false (Parser.keyLoop lower) (Parser.forLoop lower') fun _ => false :=
  bind advance fun _ => bind (expectPunct _ _) fun _ => inBlock (keyHead levels)

/-! ## Jumps and blocks -/

theorem catchClause (levels : lower.Mirrors short lower') :
    Mirrors short false (Parser.catchClause lower) (Parser.catchClause lower') fun _ => false := by
  have body : ∀ param, Mirrors short false
      (do
        Parser.expectPunct .openBrace .openBraceExpected
        return Handler.mk param (← Parser.blockContents lower))
      (do
        Parser.expectPunct .openBrace .openBraceExpected
        return Handler.mk param (← Parser.blockContents lower')) fun _ => false :=
    fun _ => bind (expectPunct _ _) fun _ => bind (blockContents levels) fun _ => pure id
  refine inBlock (eat _ ?_ (body none))
  refine position_bind fun place place' => bind expectIdentifier fun name => ?_
  exact bind (declare _ _ _ _) fun _ => bind (expectPunct _ _) fun _ => body (some name)

/-- The two texts have the same blocks, handlers and finalizers. -/
theorem attempt (levels : lower.Mirrors short lower') :
    Mirrors short false (Parser.attempt lower) (Parser.attempt lower') fun _ => false := by
  refine bind advance fun _ => bind (expectBlock levels) fun statements => ?_
  have last : ∀ (handler : Option Handler) (finalizer : Option (List Stmt)), Mirrors short false
      (do
        if handler.isNone && finalizer.isNone then Parser.fail .catchExpected
        return Stmt.attempt statements handler finalizer)
      (do
        if handler.isNone && finalizer.isNone then Parser.fail .catchExpected
        return Stmt.attempt statements handler finalizer) fun _ => false :=
    fun _ _ => ite (fun _ => fail_bind _ _) fun _ => pure id
  have finally_ : ∀ handler : Option Handler, Mirrors short false
      (do
        let finalizer ←
          if ← Parser.eatKeyword .finally then Pure.pure (some (← Parser.expectBlock lower))
          else Pure.pure none
        if handler.isNone && finalizer.isNone then Parser.fail .catchExpected
        return Stmt.attempt statements handler finalizer)
      (do
        let finalizer ←
          if ← Parser.eatKeyword .finally then Pure.pure (some (← Parser.expectBlock lower'))
          else Pure.pure none
        if handler.isNone && finalizer.isNone then Parser.fail .catchExpected
        return Stmt.attempt statements handler finalizer) fun _ => false :=
    fun handler => eatWord _ (bind (expectBlock levels) fun finalizer => last handler (some finalizer))
      (last handler none)
  exact eatWord _ (bind (catchClause levels) fun handler => finally_ (some handler)) (finally_ none)

theorem caseLabel (levels : lower.Mirrors short lower') (seenDefault : Bool) :
    Mirrors short key (Parser.caseLabel lower seenDefault) (Parser.caseLabel lower' seenDefault) fun _ => true := by
  refine eatWord _ (bind (expression levels) fun _ => pure fun _ => rfl) (checkWord _ ?_ ?_)
  · exact ite (fun _ => fail_bind _ _) fun _ => bind advance fun _ => pure id
  · exact ends (fail _ _) (fail _ _)

theorem caseTurn (levels : lower.Mirrors short lower') (found : List Case) :
    Mirrors short true (Parser.caseTurn lower found) (Parser.caseTurn lower' found) (Turn.flag true false) := by
  have turn : ∀ found, Mirrors short false (Parser.caseBodyTurn lower found) (Parser.caseBodyTurn lower' found)
      (Turn.flag false false) := by
    intro found
    refine kind_bind (fun _ _ => rfl) fun c d abreast => ?_
    exact .ite (fun _ => pure id c d abreast) fun _ => bind levels.statement (fun _ => pure id) c d abreast
  refine eat _ (pure id) (bind (caseLabel levels _) fun test => bind (expectPunct _ _) fun _ => ?_)
  exact bind (repeatFrom turn []) fun _ => pure fun _ => rfl

theorem switch (levels : lower.Mirrors short lower') :
    Mirrors short false (Parser.switch lower) (Parser.switch lower') fun _ => false := by
  refine bind advance fun _ => bind (parenthesized levels) fun discriminant => bind (expectPunct _ _) fun _ => ?_
  exact bind (inBlock (repeatFrom (caseTurn levels) [])) fun _ => pure id

theorem throwStatement (levels : lower.Mirrors short lower') :
    Mirrors short false (Parser.throwStatement lower) (Parser.throwStatement lower') fun _ => false := by
  refine bind advance fun _ => get_bind fun c d abreast => ?_
  rw [abreast.atStatementEnd]
  refine .ite (fun _ => fail_bind _ _ c d abreast) fun _ => ?_
  exact bind (expression levels) (fun _ => bind endStatement fun _ => pure id) c d abreast

end Mirrors

/-! ## Statements and levels -/

namespace Abreast

/-- A name comes right after the word. -/
theorem functionDeclaration (levels : lower.Mirrors short lower') (abreast : Abreast short false c d)
    (here : c.current.kind = .keyword .function) :
    Mirrored short (fun _ => false) (Parser.functionDeclaration lower c) (Parser.functionDeclaration lower' d) := by
  refine abreast.advance_bind_at here (.position_bind fun place place' => .bind .expectIdentifier fun name => ?_)
  exact .bind (.declare _ _ _ _) fun _ => .bind (.functionRest levels) fun _ => .pure id

/-- The statement may end right after the word. -/
theorem returnStatement (levels : lower.Mirrors short lower') (abreast : Abreast short false c d)
    (here : c.current.kind = .keyword .return) :
    Mirrored short (fun _ => false) (Parser.returnStatement lower c) (Parser.returnStatement lower' d) := by
  have last : ∀ value, Mirrors short false
      (do
        endStatement
        return Stmt.ret value)
      (do
        endStatement
        return Stmt.ret value) fun _ => false := fun _ => .bind .endStatement fun _ => .pure id
  refine abreast.advance_bind_at here (.get_bind fun c d abreast => ?_)
  rw [abreast.atStatementEnd]
  refine .ite (fun _ => last none c d abreast) fun _ => ?_
  exact Mirrors.bind (.expression levels) (fun e => last (some e)) c d abreast

/-- All statements but loops by `for`, whose head may be read in two ways. -/
theorem statement (levels : lower.Mirrors short lower') (abreast : Abreast short false c d)
    (noLoop : c.current.kind ≠ .keyword .for) :
    Mirrored short (fun _ => false) (Parser.statement lower c) (Parser.statement lower' d) := by
  refine .kind_bind abreast (fun _ _ => rfl) ?_
  generalize here : c.current.kind = k at noLoop
  split
  case h_1 => exact abreast.advance_bind_at here (.pure id)
  case h_2 => exact abreast.advance_bind_at here (.bind (.block levels) fun _ => .pure id)
  case h_3 | h_4 | h_5 => exact Mirrors.declaration levels _ c d abreast
  case h_6 => exact Mirrors.branch levels c d abreast
  case h_7 => exact Mirrors.whileLoop levels c d abreast
  case h_8 => exact Mirrors.doWhile levels c d abreast
  case h_9 => exact absurd rfl noLoop
  case h_10 => exact abreast.returnStatement levels here
  case h_11 | h_12 => exact abreast.advance_bind_at here (.bind .endStatement fun _ => .pure id)
  case h_13 => exact Mirrors.throwStatement levels c d abreast
  case h_14 => exact Mirrors.attempt levels c d abreast
  case h_15 => exact Mirrors.switch levels c d abreast
  case h_16 => exact abreast.functionDeclaration levels here
  case h_17 => exact Mirrors.bind (.expression levels) (fun _ => .bind .endStatement fun _ => .pure id) c d abreast

end Abreast

/-- Loops by their heads, other statements as they are. -/
theorem Mirrors.keyStatement (levels : lower.Mirrors short lower') :
    Mirrors short false (Parser.keyStatement lower) (Parser.statement lower') fun _ => false := by
  intro c d abreast
  have run : Parser.keyStatement lower c =
      (if c.current.kind.isKeyword .for = true then Parser.keyLoop lower else Parser.statement lower) c := rfl
  rw [run]
  by_cases loop : c.current.kind = .keyword .for
  · have there : d.current.kind = .keyword .for := by
      have kind := abreast.kind
      rw [loop] at kind
      rcases TokenKind.eq_or_template_of_emptied kind with same | ⟨_, _, no, -⟩
      · exact same
      · cases no
    have second : Parser.statement lower' d = Parser.forLoop lower' d := by
      unfold Parser.statement
      rw [run_kind, there]
    rw [if_pos (isKeyword_iff.2 loop), second]
    exact keyLoop levels c d abreast
  · rw [if_neg fun word => loop (isKeyword_iff.1 word)]
    exact abreast.statement levels loop

/-- Where shorthands are nothing but keys, two levels more read what they are written out to. -/
theorem keyLevel_mirrors {n m : Nat} (room : n + 2 ≤ m) : (keyLevel short n).Mirrors short (level m) := by
  -- Entering a level takes one from both. The two levels that remain read the name.
  induction n generalizing m with
  | zero =>
    obtain ⟨m, rfl⟩ := Nat.exists_eq_add_of_le' room
    exact ⟨.final rfl, .final rfl, fun _ => .final rfl, .final rfl, .final rfl, assignment_of_name m,
      pattern_of_name (m + 1)⟩
  | succ n ih =>
    obtain ⟨m, rfl⟩ : ∃ m', m = m' + 2 := ⟨m - 2, by omega⟩
    have levels : (keyLevel short n).Mirrors short (level (m + 1)) := ih (by omega)
    exact ⟨.unlessShort (.assignment levels), .unlessShort (.unary levels),
      fun loosest => .unlessShort (.binary levels loosest), .unlessShort (.keyStatement levels),
      .unlessShort (.bindingPattern levels), assignment_of_name m, pattern_of_name (m + 1)⟩

/-- One more level is not enough: with two levels a shorthand is read in a literal, and with three the same literal is
too deep where it is written out. -/
example : (runOn (keyLevel (fun place => place.offset = 1) 2).assignment "\x7bx\x7d").toBool = true ∧
    (runOn (level 3).assignment "\x7bx: x\x7d").toBool = false ∧
      (runOn (level 4).assignment "\x7bx: x\x7d").toBool = true := by
  decide

end BindScript.Parser

/-!
## Sources with shorthands

A source with shorthands is the same expression as one where some of them are written out (`written_out_same`), in
literals at any place: in other literals, in arguments, in patterns and in the holes of templates.

There are two exceptions. The names `undefined`, `NaN` and `Infinity` are literals when they are written out, and names
when they are not (`undefined_not_abbreviated`). And what is written out is an expression of its own, which takes two
levels of nesting.
-/

open BindScript.Parser

namespace BindScript

/-- The second source is the first one, where some of the shorthands at the given places are written out. -/
def SpellsOut (short : Position → Bool) (brief full : String) : Prop :=
  ∃ ts ts', tokenize brief = .ok ts ∧ tokenize full = .ok ts' ∧ WritesOut short false ts ts'

/-- What a reading gives of two sources of which the second one spells out the first one. -/
theorem runOn_mirrored {short : Position → Bool} {α : Type} {p q : Parse α} {flag : α → Bool}
    (mirrors : Mirrors short false p q flag) {brief full : String} (written : SpellsOut short brief full) :
    (∀ a, runOn p brief = .ok a → runOn q full = .ok a) ∧
      ∀ issue, runOn p brief = .error issue → issue.cause.isFinal = false → (runOn q full).toBool = false := by
  obtain ⟨ts, ts', split, split', written⟩ := written
  have ends := mirrors (.ofTokens ts) (.ofTokens ts') ⟨written, rfl, rfl⟩
  unfold runOn
  rw [split, split']
  dsimp only
  cases run : p (.ofTokens ts) with
  | ok a c =>
    rw [run] at ends
    obtain ⟨d, other, -⟩ := ends
    rw [other]
    exact ⟨fun _ same => same, nofun⟩
  | error issue c =>
    rw [run] at ends
    refine ⟨nofun, fun issue' same lasting => ?_⟩
    cases same
    rcases ends with final | ⟨issue', d, other, -⟩
    · rw [lasting] at final
      cases final
    · rw [other]
      rfl

/-- Where the names at the given places are nothing but keys, and the nesting leaves room for what is written out,
both sources are the same expression, which has the same value everywhere. If the first one is refused for another
reason, both are. -/
theorem written_out_same {short : Position → Bool} {brief full : String} (written : SpellsOut short brief full)
    {n : Nat} (room : n + 2 ≤ maxNesting) :
    (∀ e, runOn (completeExpression (keyLevel short n)) brief = .ok e →
      parseExpr brief = .ok e ∧ parseExpr full = .ok e ∧
        ∀ ctx : Context, (parseExpr full).map ctx.evaluate = (parseExpr brief).map ctx.evaluate) ∧
      ∀ issue, runOn (completeExpression (keyLevel short n)) brief = .error issue → issue.cause.isFinal = false →
        (parseExpr brief).toBool = false ∧ (parseExpr full).toBool = false := by
  have alone : SpellsOut short brief brief := by
    obtain ⟨ts, _, split, -⟩ := written
    exact ⟨ts, ts, split, split, .refl ts⟩
  have mirrors : Mirrors short false (completeExpression (keyLevel short n))
      (completeExpression (level maxNesting)) fun _ => false := .completeExpression (keyLevel_mirrors room)
  -- What is accepted with shorthands as keys only is read by all levels in the same way, whether written out or not.
  obtain ⟨given, refused⟩ := runOn_mirrored mirrors alone
  obtain ⟨given', refused'⟩ := runOn_mirrored mirrors written
  refine ⟨fun e keys => ?_, fun issue keys lasting => ⟨refused issue keys lasting, refused' issue keys lasting⟩⟩
  have first : parseExpr brief = .ok e := given e keys
  have second : parseExpr full = .ok e := given' e keys
  exact ⟨first, second, fun ctx => by rw [first, second]⟩

/-- The places of the three shorthands in `{a, b: f({c}, `${{d}}`)}`. -/
def nestedKeys (place : Position) : Bool :=
  place.offset = 1 || place.offset = 10 || place.offset = 18

/-- Shorthands in an argument and in a substitution are written out where they stand, as deep as that is. -/
theorem nested_spellsOut : SpellsOut nestedKeys "\x7ba, b: f(\x7bc\x7d, `$\x7b\x7bd\x7d\x7d`)\x7d"
    "\x7ba: a, b: f(\x7bc: c\x7d, `$\x7b\x7bd: d\x7d\x7d`)\x7d" := by
  have brief : tokenize "\x7ba, b: f(\x7bc\x7d, `$\x7b\x7bd\x7d\x7d`)\x7d" = .ok
      [⟨.punct .openBrace, ⟨0, 1, 1⟩, false⟩, ⟨.identifier "a", ⟨1, 1, 2⟩, false⟩, ⟨.punct .comma, ⟨2, 1, 3⟩, false⟩,
        ⟨.identifier "b", ⟨4, 1, 5⟩, false⟩, ⟨.punct .colon, ⟨5, 1, 6⟩, false⟩, ⟨.identifier "f", ⟨7, 1, 8⟩, false⟩,
        ⟨.punct .openParen, ⟨8, 1, 9⟩, false⟩, ⟨.punct .openBrace, ⟨9, 1, 10⟩, false⟩,
        ⟨.identifier "c", ⟨10, 1, 11⟩, false⟩, ⟨.punct .closeBrace, ⟨11, 1, 12⟩, false⟩,
        ⟨.punct .comma, ⟨12, 1, 13⟩, false⟩,
        ⟨.template [.hole ['\x7b', 'd', '\x7d'] ⟨17, 1, 18⟩], ⟨14, 1, 15⟩, false⟩,
        ⟨.punct .closeParen, ⟨22, 1, 23⟩, false⟩, ⟨.punct .closeBrace, ⟨23, 1, 24⟩, false⟩,
        ⟨.eof, ⟨24, 1, 25⟩, false⟩] := rfl
  have full : tokenize "\x7ba: a, b: f(\x7bc: c\x7d, `$\x7b\x7bd: d\x7d\x7d`)\x7d" = .ok
      [⟨.punct .openBrace, ⟨0, 1, 1⟩, false⟩, ⟨.identifier "a", ⟨1, 1, 2⟩, false⟩, ⟨.punct .colon, ⟨2, 1, 3⟩, false⟩,
        ⟨.identifier "a", ⟨4, 1, 5⟩, false⟩, ⟨.punct .comma, ⟨5, 1, 6⟩, false⟩, ⟨.identifier "b", ⟨7, 1, 8⟩, false⟩,
        ⟨.punct .colon, ⟨8, 1, 9⟩, false⟩, ⟨.identifier "f", ⟨10, 1, 11⟩, false⟩,
        ⟨.punct .openParen, ⟨11, 1, 12⟩, false⟩, ⟨.punct .openBrace, ⟨12, 1, 13⟩, false⟩,
        ⟨.identifier "c", ⟨13, 1, 14⟩, false⟩, ⟨.punct .colon, ⟨14, 1, 15⟩, false⟩,
        ⟨.identifier "c", ⟨16, 1, 17⟩, false⟩, ⟨.punct .closeBrace, ⟨17, 1, 18⟩, false⟩,
        ⟨.punct .comma, ⟨18, 1, 19⟩, false⟩,
        ⟨.template [.hole ['\x7b', 'd', ':', ' ', 'd', '\x7d'] ⟨23, 1, 24⟩], ⟨20, 1, 21⟩, false⟩,
        ⟨.punct .closeParen, ⟨31, 1, 32⟩, false⟩, ⟨.punct .closeBrace, ⟨32, 1, 33⟩, false⟩,
        ⟨.eof, ⟨33, 1, 34⟩, false⟩] := rfl
  have holeBrief : tokenizeAt ['\x7b', 'd', '\x7d'] ⟨17, 1, 18⟩ = .ok [⟨.punct .openBrace, ⟨17, 1, 18⟩, false⟩,
      ⟨.identifier "d", ⟨18, 1, 19⟩, false⟩, ⟨.punct .closeBrace, ⟨19, 1, 20⟩, false⟩,
      ⟨.eof, ⟨20, 1, 21⟩, false⟩] := rfl
  have holeFull : tokenizeAt ['\x7b', 'd', ':', ' ', 'd', '\x7d'] ⟨23, 1, 24⟩ = .ok
      [⟨.punct .openBrace, ⟨23, 1, 24⟩, false⟩, ⟨.identifier "d", ⟨24, 1, 25⟩, false⟩,
        ⟨.punct .colon, ⟨25, 1, 26⟩, false⟩, ⟨.identifier "d", ⟨27, 1, 28⟩, false⟩,
        ⟨.punct .closeBrace, ⟨28, 1, 29⟩, false⟩, ⟨.eof, ⟨29, 1, 30⟩, false⟩] := rfl
  have ordinary : ∀ name ∈ ["a", "c", "d"], Ordinary name := by
    unfold Ordinary
    decide
  obtain ⟨a, c, d⟩ : Ordinary "a" ∧ Ordinary "c" ∧ Ordinary "d" := by simpa using ordinary
  refine ⟨_, _, brief, full, .token rfl rfl ?_⟩
  refine .shorthand rfl a rfl rfl rfl rfl rfl rfl (.token rfl rfl (.token rfl rfl (.token rfl rfl ?_)))
  refine .token rfl rfl (.token rfl rfl (.token rfl rfl ?_))
  refine .shorthand rfl c rfl rfl rfl rfl rfl rfl (.token rfl rfl (.token rfl rfl ?_))
  refine .cons rfl rfl (List.forall_mem_singleton.2 rfl) (List.forall_mem_singleton.2 ?_)
    (.token rfl rfl (.token rfl rfl (.token rfl rfl .nil)))
  intro _ us us' split split'
  cases holeBrief.symm.trans split
  cases holeFull.symm.trans split'
  exact .token rfl rfl (.shorthand rfl d rfl rfl rfl rfl rfl rfl (.token rfl rfl (.token rfl rfl .nil)))

/-- Shorthands in a literal, in one that is an argument, and in one that is in a template. -/
theorem nested_written_out : SpellsOut nestedKeys "\x7ba, b: f(\x7bc\x7d, `$\x7b\x7bd\x7d\x7d`)\x7d"
      "\x7ba: a, b: f(\x7bc: c\x7d, `$\x7b\x7bd: d\x7d\x7d`)\x7d" ∧ 12 + 2 ≤ maxNesting ∧
    ∃ e, runOn (completeExpression (keyLevel nestedKeys 12)) "\x7ba, b: f(\x7bc\x7d, `$\x7b\x7bd\x7d\x7d`)\x7d" =
        .ok e ∧
      parseExpr "\x7ba, b: f(\x7bc\x7d, `$\x7b\x7bd\x7d\x7d`)\x7d" = .ok e ∧
      parseExpr "\x7ba: a, b: f(\x7bc: c\x7d, `$\x7b\x7bd: d\x7d\x7d`)\x7d" = .ok e := by
  have room : 12 + 2 ≤ maxNesting := by decide
  refine ⟨nested_spellsOut, room, ?_⟩
  have accepted : (runOn (completeExpression (keyLevel nestedKeys 12))
      "\x7ba, b: f(\x7bc\x7d, `$\x7b\x7bd\x7d\x7d`)\x7d").toBool = true := by
    decide +kernel
  cases read : runOn (completeExpression (keyLevel nestedKeys 12))
      "\x7ba, b: f(\x7bc\x7d, `$\x7b\x7bd\x7d\x7d`)\x7d" with
  | error issue =>
    rw [read] at accepted
    cases accepted
  | ok e =>
    obtain ⟨brief, full, -⟩ := (written_out_same nested_spellsOut room).1 e read
    exact ⟨e, rfl, brief, full⟩

/-- A shorthand that is a literal when it is written out: the tree has a name in one case and the literal in the
other. -/
theorem undefined_not_abbreviated :
    parseExpr "\x7bundefined\x7d" = .ok (.object [.named "undefined" (.name "undefined")]) ∧
      parseExpr "\x7bundefined: undefined\x7d" = .ok (.object [.named "undefined" (.literal .undefined)]) ∧
      parseExpr "\x7bundefined\x7d" ≠ parseExpr "\x7bundefined: undefined\x7d" := by
  have brief : parseExpr "\x7bundefined\x7d" = .ok (.object [.named "undefined" (.name "undefined")]) := rfl
  have full : parseExpr "\x7bundefined: undefined\x7d" =
      .ok (.object [.named "undefined" (.literal .undefined)]) := rfl
  refine ⟨brief, full, fun same => ?_⟩
  rw [brief, full] at same
  cases same

end BindScript
