import BindScript.Proofs.Dependency.Watchable
import BindScript.Proofs.Parsing.Trees

/-!
# The names of scripts are words

The lexer begins a name only where one may start, and goes on as long as the characters may continue a name. So
every name in a token is a word, and with it every name in a tree that is read from a source (`parsed_words`).
-/

namespace BindScript

open Text

theorem isWordPart_of_isNameStart {c : Char} (start : isNameStart c = true) : isWordPart c = true := by
  unfold isNameStart at start
  unfold isWordPart isNamePart
  simp only [Bool.or_eq_true] at start ⊢
  exact .inl (.inl (.inl start))

namespace Lexer

variable {A : String → Prop}

/-- A token that is scanned has the property, if one is. -/
def Gives (A : String → Prop) (scan : Scan TokenKind) : Prop :=
  ∀ k r, scan = .ok (k, r) → k.Spells A

namespace Gives

theorem refuse (cause : ParseCause) (place : Position) : Gives A (Lexer.refuse cause place) :=
  nofun

theorem ok {k : TokenKind} {r : Reader} (spells : k.Spells A) : Gives A (.ok (k, r)) := by
  intro k' r' same
  cases same
  exact spells

theorem ite {condition : Prop} [Decidable condition] {scan scan' : Scan TokenKind}
    (yes : Gives A scan) (no : Gives A scan') : Gives A (if condition then scan else scan') := by
  split
  · exact yes
  · exact no

end Gives

theorem endNumber_gives (start : Position) (raw : List Char) (value : Float) (r : Reader) :
    Gives A (endNumber start raw value r) := by
  unfold endNumber
  split
  · exact .ite (.refuse _ _) (.ok trivial)
  · exact .ok trivial

theorem scanNumber_gives (r : Reader) : Gives A (scanNumber r) := by
  unfold scanNumber
  split
  · unfold scanRadix
    refine .ite (.refuse _ _) ?_
    split
    · exact endNumber_gives _ _ _ _
    · exact .refuse _ _
  · exact .ite (.refuse _ _) (endNumber_gives _ _ _ _)

theorem scanString_gives (quote : Char) (start : Position) (n : Nat) (out : List Char) (r : Reader) :
    Gives A (scanString quote start n out r) := by
  induction n generalizing out r with
  | zero => exact .refuse _ _
  | succ n ih =>
    unfold scanString
    split
    · exact .refuse _ _
    · refine .ite (.refuse _ _) (.ite (.ok trivial) (.ite ?_ (ih _ _)))
      split
      · exact ih _ _
      · exact nofun

/-- A template has no name of its own. -/
theorem scanTemplate_gives (start : Position) (n : Nat) (chunks : List TemplateChunk) (out : List Char)
    (r : Reader) : Gives A (scanTemplate start n chunks out r) := by
  induction n generalizing chunks out r with
  | zero => exact .refuse _ _
  | succ n ih =>
    unfold scanTemplate
    split
    · exact .refuse _ _
    · refine .ite (.ok trivial) (.ite ?_ ?_)
      · split
        · exact ih _ _ _
        · exact nofun
      · split
        · dsimp only
          split
          · exact ih _ _ _
          · exact nofun
        · exact ih _ _ _

theorem scanPunct_gives (r : Reader) : Gives A (scanPunct r) := by
  unfold scanPunct
  split
  · exact .ok trivial
  · exact .refuse _ _

/-- A name begins with a character that may begin one, and takes all that follow and may continue it. -/
theorem scanWord_spells {r : Reader} {c : Char} {cs : List Char} (rest : r.rest = c :: cs)
    (start : isNameStart c = true) : (scanWord r).1.Spells (isWord · = true) := by
  unfold scanWord
  dsimp only
  split
  · trivial
  · show isWord (String.ofList (r.rest.takeWhile isWordPart)) = true
    unfold isWord
    rw [String.toList_ofList, rest, List.takeWhile_cons_of_pos (isWordPart_of_isNameStart start)]
    exact Bool.and_eq_true_iff.2 ⟨start, List.all_takeWhile⟩

theorem scanToken_gives {n : Nat} {c : Char} {cs : List Char} {r : Reader} (rest : r.rest = c :: cs) :
    Gives (isWord · = true) (scanToken n c r) := by
  unfold scanToken
  split
  · next start =>
    intro k r' same
    cases same
    exact scanWord_spells rest start
  · refine .ite (scanNumber_gives _) (.ite (scanString_gives _ _ _ _ _) (.ite ?_ (scanPunct_gives _)))
    exact scanTemplate_gives _ _ _ _ _

/-- The names of all tokens are words. -/
theorem scanAll_spells (n : Nat) {found : List Token} {r : Reader} {tokens : List Token}
    (before : ∀ t ∈ found, t.kind.Spells (isWord · = true)) (scanned : scanAll n found r = .ok tokens) :
    ∀ t ∈ tokens, t.kind.Spells (isWord · = true) := by
  induction n generalizing found r with
  | zero =>
    cases scanned
    exact fun t mem => before t (List.mem_reverse.1 mem)
  | succ n ih =>
    unfold scanAll at scanned
    split at scanned
    · cases scanned
    · split at scanned
      · cases scanned
        intro t mem
        rcases List.mem_cons.1 (List.mem_reverse.1 mem) with rfl | mem
        · trivial
        · exact before t mem
      · next rest =>
        split at scanned
        · cases scanned
        · next kind _ token =>
          have next := scanToken_gives rest _ _ token
          exact ih (List.forall_mem_cons.2 ⟨next, before⟩) scanned

end Lexer

theorem spellsTokens_isWord : SpellsTokens (isWord · = true) :=
  fun _ _ _ scanned => Lexer.scanAll_spells _ (List.forall_mem_nil _) scanned

/-- The names that an accepted expression or program reads and binds are words. -/
theorem parsed_words (source : String) :
    (∀ e, parseExpr source = .ok e → e.Obeys (.names (isWord · = true))) ∧
      ∀ statements, parseStatements source = .ok statements →
        Stmt.AllObey (.names (isWord · = true)) statements := by
  obtain ⟨expression, program⟩ := parsed_grammar spellsTokens_isWord source
  exact ⟨fun e read => (expression e read).1.mono NodeRule.grammar_le_names,
    fun statements read => (program statements read).mono NodeRule.grammar_le_names⟩

end BindScript
