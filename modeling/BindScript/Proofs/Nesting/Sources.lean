import BindScript.Proofs.JsonText.Parsed
import BindScript.Proofs.Nesting.Statements

/-!
# How deep accepted sources nest

The limit bounds the recursion of the parser, and so the nesting of all trees, except that chains of binary operators
and of member accesses and calls may be of any length (`parsed_nesting`): a way down a tree is at most three times the
limit long, plus the nodes that go on with a chain. So the height of a tree is bounded by how long its chains are, and
not by the limit alone: the chain of the given length is accepted whatever the length is (`chainText_accepted`).

A source that is not accepted because of the limit is told so, where heads of loops are plain. Otherwise a pattern
that nests too deep is read again as an expression, and the failure may be another one.
-/

open BindScript.Parser

namespace BindScript

/-! ## A chain of any length -/

/-- `null[null][null]` and so on. -/
def chainText (links : Nat) : String :=
  String.ofList ("null".toList ++ (List.replicate links "[null]".toList).flatten)

/-- The chain that is read, around an expression. -/
def chainAround (e : Expr) : Nat → Expr
  | 0 => e
  | links + 1 => chainAround (.index e (.literal .null) false) links

/-- The kinds of the tokens of links. -/
def linkKinds : Nat → List TokenKind
  | 0 => [.eof]
  | links + 1 => .punct .openBracket :: .keyword .null :: .punct .closeBracket :: linkKinds links

theorem length_le_linkKinds (links : Nat) : links ≤ (linkKinds links).length := by
  induction links with
  | zero => exact Nat.zero_le _
  | succ links ih =>
    simp only [linkKinds, List.length_cons]
    omega

theorem links_scans (links : Nat) :
    Lexer.Scans (List.replicate links "[null]".toList).flatten (linkKinds links) := by
  induction links with
  | zero => exact .nil
  | succ links ih =>
    have stops : Lexer.StopsWord (']' :: (List.replicate links "[null]".toList).flatten) := by
      rintro _ ⟨⟩
      decide +kernel
    exact .punct rfl (.keyword .null stops (.punct rfl ih))

theorem chainText_scans (links : Nat) :
    Lexer.Scans (chainText links).toList (.keyword .null :: linkKinds links) := by
  unfold chainText
  rw [String.toList_ofList]
  refine .keyword .null ?_ (links_scans links)
  cases links with
  | zero => exact Lexer.stopsWord_nil
  | succ links =>
    rintro _ ⟨⟩
    decide +kernel

/-- The links are read one in a turn. -/
theorem links_read (m : Nat) {links turns : Nat} (enough : links < turns) (e : Expr) :
    ReadsKinds (iterate (chainTurn (level (m + 2))) turns e) (linkKinds links) (chainAround e links) [.eof] := by
  induction links generalizing turns e with
  | zero =>
    obtain ⟨turns, rfl⟩ := Nat.exists_eq_add_one.2 enough
    refine .iterate_done ?_ turns
    unfold chainTurn
    exact .bind .kind .pure
  | succ links ih =>
    obtain ⟨turns, rfl⟩ := Nat.exists_eq_add_one.2 (Nat.zero_lt_of_lt enough)
    obtain ⟨k, ks, starts⟩ : ∃ k ks, linkKinds links = k :: ks := by
      cases links <;> exact ⟨_, _, rfl⟩
    have key : ReadsKinds (level (m + 2)).assignment (.keyword .null :: .punct .closeBracket :: k :: ks)
        (.literal .null) (.punct .closeBracket :: k :: ks) :=
      .assignment_of_primary m trivial trivial (.bind .kind (.bind .advance .pure))
    have link : ReadsKinds (chainTurn (level (m + 2)) e) (linkKinds (links + 1))
        (.again (.index e (.literal .null) false)) (linkKinds links) := by
      rw [linkKinds, starts]
      refine .bind .kind (.bind .advance (.bind (.bind (.allowingIn ?_) (.bind (.expectPunct _ _) .pure)) .pure))
      exact .bind key (.bind (.checkPunct _) .pure)
    exact .iterate_again link (ih (Nat.lt_of_succ_lt_succ enough) _)

/-- The chain is accepted, whatever its length. -/
theorem chainText_accepted (links : Nat) :
    parseExpr (chainText links) = .ok (chainAround (.literal .null) links) := by
  refine parseExpr_of_kinds (chainText_scans links) ?_
  obtain ⟨k, ks, starts⟩ : ∃ k ks, linkKinds links = k :: ks := by
    cases links <;> exact ⟨_, _, rfl⟩
  have enough : links < (linkKinds links).length + 1 := Nat.lt_succ_of_le (length_le_linkKinds links)
  have chain : ReadsKinds (callChain (level 158)) (.keyword .null :: linkKinds links)
      (chainAround (.literal .null) links) [.eof] := by
    have start : ReadsKinds (primary (level 158)) (.keyword .null :: linkKinds links) (.literal .null)
        (linkKinds links) := by
      rw [starts]
      exact .bind .kind (.bind .advance .pure)
    exact .bind start (.repeatFrom (links_read 156 enough _))
  exact .assignment_of_chain 158 trivial trivial chain

/-- The way down along the chain. -/
theorem chainAround_path (links : Nat) {nodes chained : Nat} {e : Expr} (path : (Node.expr e).Path nodes chained) :
    ∃ chained', (Node.expr (chainAround e links)).Path (nodes + links) chained' := by
  induction links generalizing nodes chained e with
  | zero => exact ⟨chained, path⟩
  | succ links ih =>
    have link : ∃ chained', (Node.expr (.index e (.literal .null) false)).Path (nodes + 1) chained' := by
      cases goesOn : e.isLink with
      | true => exact ⟨_, .chained (by simp [Node.chained?, Expr.chained?, goesOn]) path⟩
      | false => exact ⟨_, .part (by simp [Node.parts, Expr.parts, goesOn]) path⟩
    obtain ⟨chained', longer⟩ := link
    obtain ⟨chained'', longest⟩ := ih longer
    refine ⟨chained'', ?_⟩
    rw [Nat.add_assoc, Nat.add_comm 1] at longest
    exact longest

/-! ## Accepted sources -/

/-- A token that is neither the word `for` nor a template has no say. -/
theorem PlainHeads.other {t : Token} {tokens : List Token} (plain : PlainHeads tokens)
    (noLoop : t.kind ≠ .keyword .for) (noTemplate : ∀ chunks, t.kind ≠ .template chunks) :
    PlainHeads (t :: tokens) := by
  refine .cons ?_ (fun source start hole => ?_) plain
  · unfold HeadsPlainly
    split
    · next same =>
      cases same
      exact fun loop => absurd loop noLoop
    · trivial
  · obtain ⟨chunks, template, -⟩ := hole
    exact absurd template (noTemplate chunks)

/-- Tokens without loops and templates. -/
theorem plainHeads_of_kinds {tokens : List Token}
    (none : ∀ t ∈ tokens, t.kind ≠ .keyword .for ∧ ∀ chunks, t.kind ≠ .template chunks) : PlainHeads tokens := by
  induction tokens with
  | nil => exact .nil
  | cons t ts ih =>
    obtain ⟨⟨noLoop, noTemplate⟩, others⟩ := List.forall_mem_cons.1 none
    exact (ih others).other noLoop noTemplate

/-- The second answer is the same as the first one, unless the first one is that the nesting is too deep. -/
def SameUnlessTooDeep {α : Type} (first second : Except ParseIssue α) : Prop :=
  second = first ∨ ∃ issue, first = .error issue ∧ issue.cause = .nestingTooDeep

/-- What parsers that agree give of a whole source. -/
theorem Parser.Agrees.runOn {same : Prop} {α : Type} {p q : Parse α} {Q : α → Prop} (agrees : Agrees same p q Q)
    {source : String} (ahead : ∀ tokens, tokenize source = .ok tokens → Ahead same tokens) :
    SameUnlessTooDeep (Parser.runOn p source) (Parser.runOn q source) ∧ ∀ a, Parser.runOn p source = .ok a → Q a := by
  unfold Parser.runOn
  cases split : tokenize source with
  | error issue => exact ⟨.inl rfl, nofun⟩
  | ok tokens =>
    have ends := agrees (.ofTokens tokens) (ahead tokens split)
    dsimp only
    cases run : p (.ofTokens tokens) with
    | ok a c =>
      rw [run] at ends
      rw [ends.1]
      refine ⟨.inl rfl, ?_⟩
      rintro _ ⟨⟩
      exact ends.2.2
    | error issue c =>
      rw [run] at ends
      refine ⟨?_, nofun⟩
      rcases ends with deep | other
      · exact .inr ⟨issue, rfl, deep⟩
      · rw [other]
        exact .inl rfl

/-- Not counting the nodes that go on with a chain, trees are at most three times as high as the nesting may be deep,
and one more. Where heads of loops are plain, a source that a greater limit makes a difference for is told that its
nesting is too deep. -/
theorem parsed_nesting (source : String) :
    (∀ e, parseExpr source = .ok e → (Node.expr e).Within (3 * maxNesting + 1)) ∧
      (∀ statements, parseStatements source = .ok statements →
        ∀ s ∈ statements, (Node.stmt s).Within (3 * maxNesting)) ∧
      ∀ tokens, tokenize source = .ok tokens → PlainHeads tokens → ∀ limit, maxNesting ≤ limit →
        SameUnlessTooDeep (parseExpr source) (runOn (completeExpression (level limit)) source) ∧
          SameUnlessTooDeep (parseStatements source) (runOn (program (level limit)) source) := by
  have alone : Level.Agrees True (3 * maxNesting) (level maxNesting) (level maxNesting) :=
    level_agrees (Nat.le_refl _) fun _ => rfl
  refine ⟨fun e read => ?_, fun statements read s mem => ?_, fun tokens split plain limit le => ?_⟩
  · exact ((Agrees.completeExpression alone).runOn fun _ _ => .inl trivial).2 e read
  · have within := ((Agrees.program alone).runOn fun _ _ => .inl trivial).2 statements read
    exact within _ (List.mem_map_of_mem mem)
  · have both : Level.Agrees False (3 * maxNesting) (level maxNesting) (level limit) := level_agrees le False.elim
    have ahead : ∀ tokens, tokenize source = .ok tokens → Ahead False tokens := by
      intro tokens' split'
      cases split.symm.trans split'
      exact .inr plain
    exact ⟨((Agrees.completeExpression both).runOn ahead).1, ((Agrees.program both).runOn ahead).1⟩

/-- A short chain stays within the bounds, and a limit ten times as high reads it no differently. -/
theorem chain_nesting :
    (∃ e, parseExpr "null[null]" = .ok e ∧ (Node.expr e).Within 481) ∧
      (∃ statements, parseStatements "null[null]" = .ok statements ∧
        ∀ s ∈ statements, (Node.stmt s).Within 480) ∧
      ∃ tokens, tokenize "null[null]" = .ok tokens ∧ PlainHeads tokens ∧
        SameUnlessTooDeep (parseExpr "null[null]") (runOn (completeExpression (level 1600)) "null[null]") ∧
        SameUnlessTooDeep (parseStatements "null[null]") (runOn (program (level 1600)) "null[null]") := by
  have text : chainText 1 = "null[null]" := by decide +kernel
  refine ⟨⟨_, text ▸ chainText_accepted 1, (parsed_nesting _).1 _ (text ▸ chainText_accepted 1)⟩, ?_, ?_⟩
  · have accepted : ∃ statements, parseStatements "null[null]" = .ok statements := by
      cases read : parseStatements "null[null]" with
      | ok statements => exact ⟨statements, rfl⟩
      | error issue =>
        have no : (parseStatements "null[null]").toBool = true := by decide +kernel
        rw [read] at no
        cases no
    obtain ⟨statements, read⟩ := accepted
    exact ⟨statements, read, (parsed_nesting _).2.1 statements read⟩
  · obtain ⟨tokens, split, kinds⟩ := (text ▸ chainText_scans 1).tokenize
    have plain : PlainHeads tokens := by
      refine plainHeads_of_kinds fun t mem => ?_
      have kind : t.kind ∈ (.keyword .null :: linkKinds 1 : List TokenKind) := kinds ▸ List.mem_map_of_mem mem
      simp only [linkKinds, List.mem_cons, List.not_mem_nil, or_false] at kind
      rcases kind with kind | kind | kind | kind | kind <;> rw [kind] <;> exact ⟨nofun, nofun⟩
    exact ⟨tokens, split, plain, (parsed_nesting _).2.2 tokens split plain 1600 (by decide)⟩

/-- More links than ten times the limit are accepted. -/
theorem longChain_accepted : ∃ e, parseExpr (chainText 1600) = .ok e ∧
    ∃ nodes links, (Node.expr e).Path nodes links ∧ 10 * maxNesting < nodes := by
  obtain ⟨links, path⟩ := chainAround_path 1600 (@Node.Path.here (.expr (.literal .null)))
  exact ⟨_, chainText_accepted 1600, _, links, path, by decide⟩

/-- `for ({a = [[ and so on ]]} of y) {}`. -/
def bracketedHead (depth : Nat) : String :=
  "for (\x7ba = " ++ String.ofList (List.replicate depth '[') ++ String.ofList (List.replicate depth ']') ++
    "\x7d of y) \x7b\x7d"

-- As a pattern the head nests too deep, and what is told is that it is no expression.
example : ((runOn (program (level 8)) (bracketedHead 4)).map List.length).mapError (·.cause) =
    .error .closeBraceExpected := by
  decide +kernel

example : ((runOn (program (level 16)) (bracketedHead 4)).map List.length).mapError (·.cause) = .ok 1 := by
  decide +kernel

end BindScript
