import BindScript.Proofs.Nesting.Sources
import BindScript.Proofs.Reserved.Statements

/-!
# Functions in the head of a loop

A function that can be read alone can be read in the head of a loop, and is the same there, unless the reservation of
`in` reaches an operation with `in` in it (`function_in_head`). It reaches into the bodies of functions, where nothing
lifts it (`function_refused_in_head`).
-/

open BindScript.Parser BindScript.Lexer

namespace BindScript

/-! ## Plain heads -/

section Plain

variable {t t' : Token} {tokens tokens' init init' back : List Token} {last : Token}

theorem kind_iff_of_unplaced (same : t'.unplaced = t.unplaced) {k : TokenKind}
    (noTemplate : ∀ chunks, k ≠ .template chunks) : t'.kind = k ↔ t.kind = k := by
  rcases eq_or_template_of_unplaced (congrArg Token.kind same) with same | ⟨chunks, chunks', here, there, -⟩
  · rw [same]
  · exact ⟨fun other => absurd (other.symm.trans there) (noTemplate _),
      fun other => absurd (other.symm.trans here) (noTemplate _)⟩

theorem HeadsPlainly.of_sameTokens (same : SameTokens tokens tokens') (plain : HeadsPlainly tokens) :
    HeadsPlainly tokens' := by
  unfold HeadsPlainly
  split
  · next t t' t'' ts =>
    obtain ⟨u, us, rfl, first, same⟩ := List.map_eq_cons_iff.1 same.symm
    obtain ⟨u', us, rfl, second, same⟩ := List.map_eq_cons_iff.1 same
    obtain ⟨u'', us, rfl, third, same⟩ := List.map_eq_cons_iff.1 same
    rw [kind_iff_of_unplaced (k := .keyword .for) first.symm nofun,
      kind_iff_of_unplaced (k := .punct .openParen) second.symm nofun, Ne, Ne,
      kind_iff_of_unplaced (k := .punct .openBracket) third.symm nofun,
      kind_iff_of_unplaced (k := .punct .openBrace) third.symm nofun]
    exact plain
  · trivial

/-- The holes of a token that is the same have the same sources. -/
theorem hasHole_of_unplaced (same : t'.unplaced = t.unplaced) {source : List Char} {start : Position}
    (hole : t'.kind.HasHole source start) : ∃ start', t.kind.HasHole source start' := by
  obtain ⟨chunks, template, mem⟩ := hole
  rcases eq_or_template_of_unplaced (congrArg Token.kind same) with same | ⟨own, others, here, there, sameChunks⟩
  · exact ⟨start, chunks, same.symm.trans template, mem⟩
  · cases template.symm.trans there
    have unplaced : TemplateChunk.hole source .start ∈ own.map TemplateChunk.unplaced := by
      unfold SameChunks at sameChunks
      rw [← sameChunks]
      exact List.mem_map.2 ⟨_, mem, rfl⟩
    obtain ⟨chunk, mem, same⟩ := List.mem_map.1 unplaced
    cases chunk with
    | text => cases same
    | hole source start' =>
      cases same
      exact ⟨start', own, here, mem⟩

/-- Plain heads are a matter of the tokens and not of their places. -/
theorem PlainHeads.of_sameTokens (plain : PlainHeads tokens) (same : SameTokens tokens tokens') :
    PlainHeads tokens' := by
  induction plain generalizing tokens' with
  | nil =>
    obtain rfl := List.map_eq_nil_iff.1 same
    exact .nil
  | @cons t ts head holes _ inner later =>
    obtain ⟨t', ts', rfl, first, others⟩ := List.map_eq_cons_iff.1 same
    refine .cons (head.of_sameTokens same) (fun source start hole tokens' read => ?_) (later others)
    obtain ⟨start', hole'⟩ := hasHole_of_unplaced first hole
    obtain ⟨tokens, read', sameInside⟩ := tokenizeAt_anywhere read start'
    exact inner source start' hole' tokens read' sameInside.symm

/-- Where a semicolon comes next, heads that were plain up to there are plain. -/
theorem PlainHeads.followed (plain : PlainHeads (init ++ [last])) (more : PlainHeads (t :: back))
    (semicolon : t.kind = .punct .semicolon) : PlainHeads (init ++ t :: back) := by
  induction init with
  | nil => exact more
  | cons u us ih =>
    cases plain with
    | cons head holes tail =>
      refine .cons ?_ holes (ih tail)
      rcases us with _ | ⟨u', _ | ⟨u'', us⟩⟩
      · unfold HeadsPlainly
        split
        · next same =>
          cases same
          intro _ paren
          cases semicolon.symm.trans paren
        · trivial
      · intro _ _
        rw [semicolon]
        exact ⟨nofun, nofun⟩
      · exact head

end Plain

/-! ## Around the source -/

theorem cons_of_kinds {tokens : List Token} {k : TokenKind} {ks : List TokenKind}
    (kinds : tokens.map (·.kind) = k :: ks) :
    ∃ place newline ts, tokens = ⟨k, place, newline⟩ :: ts ∧ ts.map (·.kind) = ks := by
  obtain ⟨⟨_, place, newline⟩, ts, rfl, rfl, others⟩ := List.map_eq_cons_iff.1 kinds
  exact ⟨place, newline, ts, rfl, others⟩

/-- The tokens in front of the source, wherever they stand. -/
theorem tokens_of_headFront {front : List Token} (kinds : front.map (·.kind) = headFront) :
    ∃ p₁ p₂ p₃ p₄ p₅ b₁ b₂ b₃ b₄ b₅, front = [⟨.keyword .for, p₁, b₁⟩, ⟨.punct .openParen, p₂, b₂⟩,
      ⟨.keyword .let, p₃, b₃⟩, ⟨.identifier "f", p₄, b₄⟩, ⟨.punct .assign, p₅, b₅⟩] := by
  obtain ⟨_, _, ts₁, rfl, kinds₁⟩ := cons_of_kinds kinds
  obtain ⟨_, _, ts₂, rfl, kinds₂⟩ := cons_of_kinds kinds₁
  obtain ⟨_, _, ts₃, rfl, kinds₃⟩ := cons_of_kinds kinds₂
  obtain ⟨_, _, ts₄, rfl, kinds₄⟩ := cons_of_kinds kinds₃
  obtain ⟨_, _, ts₅, rfl, kinds₅⟩ := cons_of_kinds kinds₄
  obtain rfl := List.map_eq_nil_iff.1 kinds₅
  exact ⟨_, _, _, _, _, _, _, _, _, _, rfl⟩

theorem plainHeads_of_map {tokens : List Token} {ks : List TokenKind} (kinds : tokens.map (·.kind) = ks)
    (none : ∀ k ∈ ks, k ≠ .keyword .for ∧ ∀ chunks, k ≠ .template chunks) : PlainHeads tokens := by
  refine plainHeads_of_kinds fun t mem => none t.kind ?_
  rw [← kinds]
  exact List.mem_map_of_mem mem

/-- The tokens of the head are plain, as those of the source are. -/
theorem plainHeads_around {front init init' back : List Token} {last : Token} (plain : PlainHeads (init ++ [last]))
    (same : SameTokens init init') (frontKinds : front.map (·.kind) = headFront)
    (backKinds : back.map (·.kind) = headBack) : PlainHeads (front ++ (init' ++ back)) := by
  have plainBack : PlainHeads back := plainHeads_of_map backKinds (by simp [headBack])
  obtain ⟨_, _, back, rfl, -⟩ := cons_of_kinds backKinds
  have plainInit : PlainHeads (init' ++ [last]) := plain.of_sameTokens (by
    unfold SameTokens at same ⊢
    rw [List.map_append, List.map_append, same])
  have inside := plainInit.followed plainBack rfl
  obtain ⟨_, _, _, _, _, _, _, _, _, _, rfl⟩ := tokens_of_headFront frontKinds
  refine .cons (fun _ _ => ⟨nofun, nofun⟩) ?_ ?_
  · rintro source start ⟨chunks, ⟨⟩, -⟩
  · exact .other (.other (.other (.other inside nofun nofun) nofun nofun) nofun nofun) nofun nofun

theorem Parser.ReadsKinds.inBlock {α : Type} {p : Parse α} {a : α} {ks ks' : List TokenKind}
    (reads : ReadsKinds p ks a ks') : ReadsKinds (Parser.inBlock p) ks a ks' := by
  intro c ahead
  obtain ⟨c', run, ahead'⟩ := reads { c with blocks := [] :: c.blocks } ahead
  refine ⟨{ c' with blocks := c'.blocks.tail }, ?_, ahead'⟩
  unfold Parser.inBlock
  rw [run]

/-- What comes after the source in the head is read as the rest of a counting loop with an empty body. -/
theorem forRest_back (n : Nat) (init : ForInit) :
    ReadsKinds (forRest (level (n + 1)) init) headBack (.forLoop init none none (.block [])) [.eof] := by
  have absent : ∀ mark ks, ReadsKinds (optionalBefore (level (n + 1)) mark) (.punct mark :: ks) none
      (.punct mark :: ks) := by
    intro mark ks
    refine .bind (.checkPunct mark) ?_
    rw [isPunct_iff.2 rfl, if_pos rfl]
    exact .pure
  have contents : ReadsKinds (blockContents (level n)) [.punct .closeBrace, .eof] [] [.eof] := by
    refine .repeatFrom (.iterate_done (.bind (.checkPunct _) ?_) _)
    rw [isPunct_iff.2 rfl, if_pos rfl]
    exact .bind .advance .pure
  have body : ReadsKinds (level (n + 1)).statement [.punct .openBrace, .punct .closeBrace, .eof] (.block []) [.eof] :=
    .bind .kind (.bind .advance (.bind (.inBlock contents) .pure))
  refine .bind (.expectPunct _ _) (.bind (absent _ _) (.bind (.expectPunct _ _) (.bind (absent _ _) ?_)))
  exact .bind (.expectPunct _ _) (.bind body .pure)

/-- The head is read around an expression. -/
theorem statement_head {n : Nat} {front ts : List Token} {e : Expr} {d : Cursor}
    (frontKinds : front.map (·.kind) = headFront) (more : ts ≠ [])
    (read : (level (n + 1)).assignment ⟨ts, [["f"], []], true⟩ = .ok e d) (ends : d.rest.map (·.kind) = headBack) :
    ∃ d', (level (n + 2)).statement ⟨front ++ ts, [[]], false⟩ =
        .ok (.forLoop (.declare .let [.mk (.name "f") (some e)]) none none (.block [])) d' ∧
      d'.rest.map (·.kind) = [.eof] := by
  obtain ⟨t, ts, rfl⟩ := List.exists_cons_of_ne_nil more
  obtain ⟨p₁, p₂, p₃, p₄, p₅, b₁, b₂, b₃, b₄, b₅, rfl⟩ := tokens_of_headFront frontKinds
  -- the name of the variable is declared in the block of the head
  have declared : forHead (level (n + 1)) ⟨⟨.keyword .let, p₃, b₃⟩ :: ⟨.identifier "f", p₄, b₄⟩ ::
      ⟨.punct .assign, p₅, b₅⟩ :: t :: ts, [[], []], false⟩ = (do
        let declarators ← reservingIn do
          let first ← finishDeclarator (level (n + 1)) .let (.name "f")
          moreDeclarators (level (n + 1)) .let first
        forRest (level (n + 1)) (.declare .let declarators))
        ⟨⟨.punct .assign, p₅, b₅⟩ :: t :: ts, [["f"], []], false⟩ := by
    with_unfolding_all rfl
  have only : ReadsKinds (moreDeclarators (level (n + 1)) .let (.mk (.name "f") (some e))) headBack
      [.mk (.name "f") (some e)] headBack := by
    refine .repeatFrom (.iterate_done (.bind (.eatPunct_other rfl) ?_) _)
    rw [if_neg Bool.false_ne_true]
    exact .pure
  obtain ⟨d₁, noMore, ends₁⟩ := only d ends
  have value : defaultValue (level (n + 1)) ⟨⟨.punct .assign, p₅, b₅⟩ :: t :: ts, [["f"], []], true⟩ =
      .ok (some e) d := by
    have assign : eatPunct .assign ⟨⟨.punct .assign, p₅, b₅⟩ :: t :: ts, [["f"], []], true⟩ =
        .ok true ⟨t :: ts, [["f"], []], true⟩ := rfl
    exact (run_ok assign _).trans (run_ok read _)
  have declarators : (reservingIn do
      let first ← finishDeclarator (level (n + 1)) .let (.name "f")
      moreDeclarators (level (n + 1)) .let first) ⟨⟨.punct .assign, p₅, b₅⟩ :: t :: ts, [["f"], []], false⟩ =
      .ok [.mk (.name "f") (some e)] { d₁ with noIn := false } := by
    have first : finishDeclarator (level (n + 1)) .let (.name "f")
        ⟨⟨.punct .assign, p₅, b₅⟩ :: t :: ts, [["f"], []], true⟩ = .ok (.mk (.name "f") (some e)) d :=
      run_ok value _
    unfold reservingIn
    rw [run_ok first, noMore]
  obtain ⟨d₂, rest, ends₂⟩ := forRest_back n (.declare .let [.mk (.name "f") (some e)]) { d₁ with noIn := false } ends₁
  refine ⟨{ d₂ with blocks := d₂.blocks.tail }, ?_, ends₂⟩
  show inBlock (forHead (level (n + 1))) ⟨⟨.keyword .let, p₃, b₃⟩ :: ⟨.identifier "f", p₄, b₄⟩ ::
    ⟨.punct .assign, p₅, b₅⟩ :: t :: ts, [[]], false⟩ = _
  unfold inBlock
  dsimp only
  rw [declared, run_ok declarators, rest]

/-- A loop over the expressions after a comma gives a sequence. -/
theorem sequence_of_turns {lower : Level} {turns : Nat} {found : List Expr} {c c' : Cursor} {e : Expr}
    (run : iterate (sequenceTurn lower) turns found c = .ok e c') : ∃ items, e = .sequence items := by
  induction turns generalizing found c with
  | zero => cases run
  | succ turns ih =>
    obtain ⟨turn, c₁, turned, run⟩ := exists_of_run run
    obtain ⟨comma, c₂, eaten, turned⟩ := exists_of_run turned
    split at turned
    · obtain ⟨item, c₃, read, turned⟩ := exists_of_run turned
      cases turned
      exact ih run
    · cases turned
      cases run
      exact ⟨_, rfl⟩

/-- What is read as a function is no sequence of expressions. -/
theorem assignment_of_expression {lower : Level} {f : Function} {c c' : Cursor}
    (run : expression lower c = .ok (.function f) c') : lower.assignment c = .ok (.function f) c' := by
  obtain ⟨first, c₁, read, run⟩ := exists_of_run run
  obtain ⟨comma, c₂, seen, run⟩ := exists_of_run run
  cases seen
  split at run
  · obtain ⟨items, no⟩ := sequence_of_turns run
    cases no
  · cases run
    exact read

/-- A source that is a function is read as one assignment. -/
theorem parseExpr_function {source : String} {f : Function} (read : parseExpr source = .ok (.function f)) :
    ∃ tokens c', tokenize source = .ok tokens ∧
      (level maxNesting).assignment (.ofTokens tokens) = .ok (.function f) c' ∧ c'.current.kind = .eof := by
  unfold parseExpr runOn at read
  cases split : tokenize source with
  | error issue =>
    rw [split] at read
    cases read
  | ok tokens =>
    rw [split] at read
    dsimp only at read
    cases run : completeExpression (level maxNesting) (.ofTokens tokens) with
    | error issue c' =>
      rw [run] at read
      cases read
    | ok e c' =>
      rw [run] at read
      cases read
      obtain ⟨whole, eof⟩ := Carries.completeExpression_ok.1 run
      exact ⟨tokens, c', rfl, assignment_of_expression whole, eof⟩

theorem runOn_of_run {α : Type} {p : Parse α} {source : String} {tokens : List Token} {a : α} {c' : Cursor}
    (split : tokenize source = .ok tokens) (run : p (.ofTokens tokens) = .ok a c') : runOn p source = .ok a := by
  unfold runOn
  rw [split]
  dsimp only
  rw [run]

/-- A statement with nothing after it is the whole program. -/
theorem program_of_statement {n : Nat} {t t' : Token} {ts : List Token} {s : Stmt} {d : Cursor}
    (more : t.kind.isEof = false) (read : (level n).statement (.ofTokens (t :: t' :: ts)) = .ok s d)
    (ends : d.rest.map (·.kind) = [.eof]) : ∃ d', program (level n) (.ofTokens (t :: t' :: ts)) = .ok [s] d' := by
  have first : programTurn (level n) [] (.ofTokens (t :: t' :: ts)) = .ok (.again [s]) d := by
    have goesOn : atEof (.ofTokens (t :: t' :: ts)) = .ok false (.ofTokens (t :: t' :: ts)) := by
      rw [← more]
      rfl
    exact (run_ok goesOn _).trans (run_ok read _)
  have last : ReadsKinds (programTurn (level n) [s]) [.eof] (.done [s]) [.eof] := by
    refine .bind .atEof ?_
    exact .pure
  obtain ⟨d', run, -⟩ := ReadsKinds.iterate_done last (ts.length + 1) d ends
  exact ⟨d', (run_ok first _).trans run⟩

/-! ## Functions in heads -/

/-- What stands around the source. -/
theorem around_head {back : List Token} (backKinds : back.map (·.kind) = headBack) :
    ∃ S : Around, back = S.next :: S.later ∧ S.alone = [[]] ∧ S.inside = [["f"], []] := by
  have noArrow : ∀ t ∈ back, t.kind.isPunct .arrow = false := by
    intro t mem
    have kind : t.kind ∈ headBack := backKinds ▸ List.mem_map_of_mem mem
    have each : ∀ k ∈ headBack, k.isPunct .arrow = false := by decide
    exact each t.kind kind
  obtain ⟨place, newline, later, rfl, -⟩ := cons_of_kinds backKinds
  exact ⟨⟨_, later, [[]], [["f"], []], .inr rfl, noArrow⟩, rfl, rfl, rfl⟩

/-- The function is read in the head, from the state that the head leads to. -/
theorem function_read_in_head {n : Nat} {init init' back : List Token} {last : Token} {f : Function} {c' : Cursor}
    (read : (level n).assignment (.ofTokens (init ++ [last])) = .ok (.function f) c') (ended : c'.current.kind = .eof)
    (eof : last.kind = .eof) (more : ∀ t ∈ init, t.kind ≠ .eof) (plain : PlainHeads (init ++ [last]))
    (same : SameTokens init init') (backKinds : back.map (·.kind) = headBack)
    (free : ¬ (Node.expr (.function f)).ReachesIn) :
    ∃ d, (level n).assignment ⟨init' ++ back, [["f"], []], true⟩ = .ok (.function f) d ∧
      d.rest.map (·.kind) = headBack := by
  obtain ⟨S, rfl, alone, inside⟩ := around_head backKinds
  have carries : Carries S True False 0 False (level n).assignment (level n).assignment fun e =>
      (Node.expr e).ReachesIn := (level_carries n).assignment
  have beside : Beside S True 0 (.ofTokens (init ++ [last])) ⟨init' ++ S.next :: S.later, [["f"], []], true⟩ :=
    ⟨.of_sameTokens same more eof, plain, .inr ⟨trivial, rfl⟩, [], rfl, alone.symm, inside.symm⟩
  obtain ⟨alive, -⟩ := carries _ ⟨init' ++ S.next :: S.later, [["f"], []], true⟩ _ _ read
  rcases alive beside with ⟨d, read', beside'⟩ | ⟨-, reached⟩ | ⟨no, -⟩
  · obtain ⟨t, rest, eof'⟩ := beside'.last ended
    have ahead := beside'.ahead
    rw [rest] at ahead
    refine ⟨d, read', ?_⟩
    rw [ahead.rest_of_last eof']
    exact backKinds
  · exact absurd reached free
  · exact no.elim

/-- A function that can be read alone is read as the same function in the head of a loop, unless the reservation of
`in` reaches an operation with `in`, or the nesting is too deep there. The source must not end in a line comment, and
further loops must not begin with a bracket or a brace: those are read as patterns first, and whatever fails then is
not told. -/
theorem function_in_head {source : String} {f : Function} (read : parseExpr source = .ok (.function f))
    (closed : ¬ EndsInComment source) (plain : ∀ tokens, tokenize source = .ok tokens → PlainHeads tokens)
    (free : ¬ (Node.expr (.function f)).ReachesIn) :
    parseStatements (headText source) =
        .ok [.forLoop (.declare .let [.mk (.name "f") (some (.function f))]) none none (.block [])] ∨
      ∃ issue, parseStatements (headText source) = .error issue ∧ issue.cause = .nestingTooDeep := by
  obtain ⟨tokens, c', split, alone, eof⟩ := parseExpr_function read
  obtain ⟨front, init, init', last, back, rfl, lastEof, same, frontKinds, backKinds, splitHead⟩ :=
    tokenize_headText split closed
  have plain := plain _ split
  have plainHead := plainHeads_around plain same frontKinds backKinds
  have more : ∀ t ∈ init, t.kind ≠ .eof := by
    obtain ⟨init₁, last₁, same₁, -, others⟩ := ends_at_eof split
    obtain ⟨rfl, -⟩ := List.append_inj' same₁ rfl
    exact others
  -- one level more makes up for the loop
  have enough : runOn (program (level (maxNesting + 1))) (headText source) =
      .ok [.forLoop (.declare .let [.mk (.name "f") (some (.function f))]) none none (.block [])] := by
    obtain ⟨d, read', ends⟩ := function_read_in_head alone eof lastEof more plain same backKinds free
    have some : init' ++ back ≠ [] := by
      rintro none
      rw [(List.append_eq_nil_iff.1 none).2] at backKinds
      cases backKinds
    obtain ⟨d₁, loop, ends₁⟩ := statement_head frontKinds some read' ends
    obtain ⟨_, _, _, _, _, _, _, _, _, _, rfl⟩ := tokens_of_headFront frontKinds
    obtain ⟨d₂, run⟩ := program_of_statement (n := maxNesting + 1) rfl loop ends₁
    exact runOn_of_run splitHead run
  have both : Level.Agrees False (3 * maxNesting) (level maxNesting) (level (maxNesting + 1)) :=
    level_agrees (Nat.le_succ _) False.elim
  have ahead : ∀ tokens, tokenize (headText source) = .ok tokens → Ahead False tokens := by
    intro tokens' split'
    cases splitHead.symm.trans split'
    exact .inr plainHead
  rcases ((Agrees.program both).runOn ahead).1 with agrees | deep
  · exact .inl (agrees.symm.trans enough)
  · exact .inr deep

/-- `function(a) { return [a in b]; }` -/
def bracketed : Function :=
  .mk [.mk (.name "a") none] none (.block [.ret (some (.array [.binary .isIn (.name "a") (.name "b")]))])

/-- Brackets lift the reservation. -/
theorem bracketed_in_head :
    parseExpr "function(a) \x7b return [a in b]; \x7d" = .ok (.function bracketed) ∧
      ¬ EndsInComment "function(a) \x7b return [a in b]; \x7d" ∧
      (∀ tokens, tokenize "function(a) \x7b return [a in b]; \x7d" = .ok tokens → PlainHeads tokens) ∧
      ¬ (Node.expr (.function bracketed)).ReachesIn ∧
      (parseStatements (headText "function(a) \x7b return [a in b]; \x7d") =
          .ok [.forLoop (.declare .let [.mk (.name "f") (some (.function bracketed))]) none none (.block [])] ∨
        ∃ issue, parseStatements (headText "function(a) \x7b return [a in b]; \x7d") = .error issue ∧
          issue.cause = .nestingTooDeep) := by
  have read : parseExpr "function(a) \x7b return [a in b]; \x7d" = .ok (.function bracketed) := rfl
  have closed : ¬ EndsInComment "function(a) \x7b return [a in b]; \x7d" := not_endsInComment (by decide +kernel)
  have plain : ∀ tokens, tokenize "function(a) \x7b return [a in b]; \x7d" = .ok tokens → PlainHeads tokens := by
    obtain ⟨tokens, split, kinds⟩ : ∃ tokens, tokenize "function(a) \x7b return [a in b]; \x7d" = .ok tokens ∧
        tokens.map (·.kind) = [.keyword .function, .punct .openParen, .identifier "a", .punct .closeParen,
          .punct .openBrace, .keyword .return, .punct .openBracket, .identifier "a", .keyword .in, .identifier "b",
          .punct .closeBracket, .punct .semicolon, .punct .closeBrace, .eof] := ⟨_, rfl, rfl⟩
    intro tokens' split'
    cases split.symm.trans split'
    exact plainHeads_of_map kinds (by simp)
  have free : ¬ (Node.expr (.function bracketed)).ReachesIn := by
    simp [Node.reachesIn_iff, bracketed, Node.reach, Expr.reach, Function.reach, Stmt.reach, Stmt.parts, Element.nodes,
      Pattern.parts, Pattern.optionNodes, Expr.optionNodes]
  exact ⟨read, closed, plain, free, function_in_head read closed plain free⟩

/-- `function() { return a in b; }` -/
def unbracketed : Function :=
  .mk [] none (.block [.ret (some (.binary .isIn (.name "a") (.name "b")))])

/-- The reservation reaches into the body of a function, which is not read there for that reason. -/
theorem function_refused_in_head :
    parseExpr "function() \x7b return a in b; \x7d" = .ok (.function unbracketed) ∧
      ¬ EndsInComment "function() \x7b return a in b; \x7d" ∧
      ∃ issue, parseStatements (headText "function() \x7b return a in b; \x7d") = .error issue ∧
        issue.cause ≠ .nestingTooDeep :=
  ⟨rfl, not_endsInComment (by decide +kernel), _, rfl, nofun⟩

end BindScript
