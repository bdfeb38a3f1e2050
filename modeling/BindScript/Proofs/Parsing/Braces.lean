import Mathlib.Data.List.TakeWhile
import BindScript.Proofs.Parsing.Substitutions

/-!
# Braces of tokens and of their text

A source splits into tokens and the gaps between them. Each token has its text, and the scanner of substitutions reads
a text as the lexer does: a brace outside of quotes is a token of its own, a string ends at the same quote in both
readings, and no other token has a brace or a quote in it (`scanToken_written`). So a source whose brace tokens are
balanced is balanced in the reading of the scanner, and it may stand in a substitution as it is
(`substitution_extends`).

Two parts of a source are read by the scanner alone. A comment is no comment for it, so the comments have to be balanced
in its reading. And it takes a template in a substitution of a template to be outside of all templates, so the text
of such a template has to be balanced, too (`Alternates`).
-/

namespace BindScript

/-- How many braces are open after a token, if so many are open before it. -/
def TokenKind.depthAfter (k : TokenKind) (d : Nat) : Nat :=
  if k.isPunct .openBrace then d + 1 else if k.isPunct .closeBrace then d - 1 else d

namespace Reader

variable {r r' : Reader} {c : Char} {text cs : List Char}

theorem Passes.skip_one (rest : r.rest = c :: cs) : r.Passes [c] (r.skip 1) := by
  have skipped := Passes.skip r 1
  rwa [rest] at skipped

theorem Passes.take (passes : r.Passes text r') : r.rest.take (r.rest.length - r'.rest.length) = text := by
  rw [passes.rest, List.length_append, Nat.add_sub_cancel, List.take_left]

end Reader

namespace Lexer

open Text Reader

/-! ## Between back quotes -/

/-- What may stand between the back quotes of a template: a back quote that is not hidden is one of a pair, and the text
between the two, which the scanner reads as if it stood outside, is balanced. -/
inductive Alternates : List Char → Prop
  | shielded {text : List Char} (shields : Shields '`' text) : Alternates text
  | nested {text inner cs : List Char} (shields : Shields '`' text) (depths : Depths 0 inner 0)
    (rest : Alternates cs) : Alternates (text ++ '`' :: (inner ++ '`' :: cs))

variable {quote c : Char} {text cs ds : List Char} {d d' k m n : Nat} {start : Position} {r r' : Reader}
  {kind : TokenKind}

/-- What alternates in two parts alternates as a whole. -/
theorem Alternates.append (first : Alternates cs) (second : Alternates ds) : Alternates (cs ++ ds) := by
  induction first with
  -- what is shielded at the end of the first text goes on in the second one, up to its first back quote
  | shielded shields =>
    cases second with
    | shielded shields' => exact .shielded (shields.append shields')
    | nested shields' depths rest =>
      rw [← List.append_assoc]
      exact .nested (shields.append shields') depths rest
  | nested shields depths _ ih =>
    rw [List.append_assoc, List.cons_append, List.append_assoc, List.cons_append]
    exact .nested shields depths ih

/-- Depths are counted from any start. -/
theorem Depths.raise (depths : Depths d cs d') (k : Nat) : Depths (d + k) cs (d' + k) := by
  induction depths with
  | nil => exact .nil _
  | plain clear _ ih => exact .plain clear ih
  | opened _ ih =>
    rw [Nat.add_right_comm] at ih
    exact .opened ih
  | closed _ ih =>
    rw [Nat.add_right_comm]
    exact .closed ih
  | quoted isQuote shields _ ih => exact .quoted isQuote shields ih

theorem Depths.anywhere (depths : Depths 0 cs 0) (d : Nat) : Depths d cs d := by
  have raised := depths.raise d
  rwa [Nat.zero_add] at raised

/-- A template is read as parts between back quotes, with balanced texts between these parts. -/
theorem Alternates.depths (alternates : Alternates text) (d : Nat) : Depths d ('`' :: (text ++ ['`'])) d := by
  have isQuote : IsQuote '`' := .inr (.inr rfl)
  induction alternates with
  | shielded shields => exact .quoted isQuote shields (.nil d)
  | nested shields depths _ ih =>
    rw [List.append_assoc, List.cons_append, List.append_assoc, List.cons_append]
    exact .quoted isQuote shields ((depths.anywhere d).append ih)

/-! ## Texts without braces and quotes -/

theorem clear_takeWhile {p : Char → Bool}
    (ends : p '\x7b' = false ∧ p '\x7d' = false ∧ p '"' = false ∧ p '\'' = false ∧ p '`' = false) (cs : List Char) :
    Clear (cs.takeWhile p) := by
  intro c mem delimits
  have fails : p c = false := by
    obtain ⟨opened, closed, double, single, back⟩ := ends
    rcases delimits with rfl | rfl | rfl | rfl | rfl <;> assumption
  rw [List.mem_takeWhile_imp mem] at fails
  cases fails

theorem Clear.nil : Clear [] :=
  List.forall_mem_nil _

theorem Clear.append (first : Clear cs) (second : Clear ds) : Clear (cs ++ ds) :=
  List.forall_mem_append.2 ⟨first, second⟩

theorem Clear.cons (here : ¬ Delimits c) (clear : Clear cs) : Clear (c :: cs) :=
  List.forall_mem_cons.2 ⟨here, clear⟩

theorem Clear.take_add (front : Clear (cs.take n)) (back : Clear ((cs.drop n).take m)) : Clear (cs.take (n + m)) := by
  rw [List.take_add]
  exact front.append back

theorem Clear.take_length (leads : ds <+: cs) (clear : Clear ds) : Clear (cs.take ds.length) := by
  rw [← List.prefix_iff_eq_take.1 leads]
  exact clear

theorem clear_digits (cs : List Char) : Clear (cs.takeWhile isDigitOrSeparator) :=
  clear_takeWhile (by decide) cs

/-- No brace or quote is taken for a part of an exponent. -/
theorem clear_exponent (cs : List Char) : Clear (cs.take (scanExponent cs).2.1) := by
  have digits (cs : List Char) : Clear (cs.take (cs.takeWhile isDigitOrSeparator).length) :=
    .take_length (List.takeWhile_prefix _) (clear_digits cs)
  unfold scanExponent
  split
  next e cs =>
    split
    next mark =>
      have clear : ¬ Delimits e := by
        simp only [Bool.or_eq_true, decide_eq_true_eq] at mark
        rcases mark with rfl | rfl <;> decide
      dsimp only
      -- the mark, then a sign if there is one, then the digits
      rw [Nat.add_assoc, Nat.add_comm, List.take_succ_cons]
      refine .cons clear ?_
      split
      · exact .take_add (.cons (by decide) .nil) (digits _)
      · exact .take_add (.cons (by decide) .nil) (digits _)
      · rw [List.length_nil, Nat.zero_add]
        exact digits _
    next => exact .nil
  next => exact .nil

/-! ## Escapes -/

/-- A character that stands for itself between any two quotes. -/
def Bare (c : Char) : Prop :=
  c ≠ '\\' ∧ ¬ IsQuote c

theorem Shields.of_bare (isQuote : IsQuote quote) (bare : ∀ c ∈ cs, Bare c) : Shields quote cs := by
  induction cs with
  | nil => exact .nil
  | cons c cs ih =>
    obtain ⟨⟨slash, other⟩, rest⟩ := List.forall_mem_cons.1 bare
    refine .plain slash (fun same => other ?_) (ih rest)
    rw [same]
    exact isQuote

/-- A scan passes over characters that stand for themselves, if it succeeds. -/
def PassesBare {α : Type} (r : Reader) : Scan α → Prop :=
  Ends fun _ r' => ∃ text, r.Passes text r' ∧ ∀ c ∈ text, Bare c

theorem PassesBare.later {α : Type} {scan : Scan α} (passes : r.Passes text r') (bare : ∀ c ∈ text, Bare c)
    (later : PassesBare r' scan) : PassesBare r scan := by
  refine later.imp ?_
  rintro _ r'' ⟨more, further, bare'⟩
  exact ⟨text ++ more, passes.trans further, List.forall_mem_append.2 ⟨bare, bare'⟩⟩

theorem bare_of_digitValue? {value : Nat} (digit : Number.digitValue? 16 c = some value) : Bare c := by
  have other {a : Char} (none : Number.digitValue? 16 a = none) : c ≠ a := by
    rintro rfl
    rw [none] at digit
    cases digit
  refine ⟨other (by decide), ?_⟩
  rintro (same | same | same)
  · exact other (by decide) same
  · exact other (by decide) same
  · exact other (by decide) same

/-- Digits of a code are bare. -/
theorem scanHex_bare (place : Position) (count code : Nat) (r : Reader) :
    PassesBare r (scanHex place count code r) := by
  induction count generalizing code r with
  | zero => exact .ok ⟨[], .nothing r, List.forall_mem_nil _⟩
  | succ count ih =>
    unfold scanHex
    split
    next read =>
      split
      next digit =>
        exact PassesBare.later (.next read) (List.forall_mem_singleton.2 (bare_of_digitValue? digit)) (ih _ _)
      next => exact .refuse _ _
    next => exact .refuse _ _

/-- By induction on the digits that are left: what stands in the braces is bare, and the closing one is the last
character passed. -/
theorem scanBracedHex_bare (place : Position) (left : Nat) (seen : Bool) (code : Nat) (r : Reader) :
    PassesBare r (scanBracedHex place left seen code r) := by
  have stop {c : Char} {code : Nat} {seen : Bool} {r r' : Reader} (read : r.next? = some (c, r'))
      (brace : (decide (c = '\x7d') && seen) = true) : PassesBare r (.ok (code, r')) := by
    obtain ⟨rfl, -⟩ : c = '\x7d' ∧ seen = true := by simpa using brace
    exact .ok ⟨_, .next read, List.forall_mem_singleton.2 (by unfold Bare; decide)⟩
  induction left generalizing seen code r with
  | zero =>
    unfold scanBracedHex
    split
    next read => exact .ite (stop read) fun _ => .refuse _ _
    next => exact .refuse _ _
  | succ left ih =>
    unfold scanBracedHex
    split
    next read =>
      refine .ite (stop read) fun _ => ?_
      split
      next same digit =>
        cases same
        exact PassesBare.later (.next read) (List.forall_mem_singleton.2 (bare_of_digitValue? digit)) (ih _ _ _)
      next => exact .refuse _ _
    next => exact .refuse _ _

theorem escapedCode_bare {place : Position} {scan : Except ParseIssue (Nat × Reader)} (bare : PassesBare r scan) :
    PassesBare r (escapedCode place scan) := by
  unfold escapedCode
  split
  · exact .error _
  · split
    · exact .ok (bare _ _ rfl)
    · exact .refuse _ _

/-- An escape has one character that the backslash hides, and the others stand for themselves. -/
theorem scanEscape_passes (r : Reader) :
    Ends (fun _ r' => ∃ c more, r.Passes (c :: more) r' ∧ ∀ a ∈ more, Bare a) (scanEscape r) := by
  unfold scanEscape
  split
  · exact .refuse _ _
  next c r' read =>
    have passed := Passes.next read
    -- most escapes are one character; only codes and broken lines take more, and those characters are bare
    have alone {escaped : Option Char} :
        Ends (fun _ r'' => ∃ c more, r.Passes (c :: more) r'' ∧ ∀ a ∈ more, Bare a) (.ok (escaped, r')) :=
      .ok ⟨_, [], passed, List.forall_mem_nil _⟩
    have later {scan : Scan (Option Char)} (bare : PassesBare r' scan) :
        Ends (fun _ r'' => ∃ c more, r.Passes (c :: more) r'' ∧ ∀ a ∈ more, Bare a) scan := by
      refine bare.imp ?_
      rintro _ r'' ⟨more, further, bare⟩
      exact ⟨_, more, passed.trans further, bare⟩
    split
    case h_7 => exact later (escapedCode_bare (scanHex_bare _ _ _ _))
    case h_8 =>
      split
      next brace =>
        have bare : ∀ c ∈ ['\x7b'], Bare c := List.forall_mem_singleton.2 (by unfold Bare; decide)
        exact later (.later (.skip_one brace) bare (escapedCode_bare (scanBracedHex_bare _ _ _ _ _)))
      next => exact later (escapedCode_bare (scanHex_bare _ _ _ _))
    case h_10 =>
      split
      next feed =>
        have bare : ∀ c ∈ ['\n'], Bare c := List.forall_mem_singleton.2 (by unfold Bare; decide)
        exact later (.ok ⟨_, Passes.skip_one feed, bare⟩)
      next => exact alone
    case h_11 =>
      split
      next => exact .ite (fun _ => .refuse _ _) fun _ => alone
      next => exact alone
    case h_12 => exact .ite (fun _ => .refuse _ _) fun _ => alone
    all_goals exact alone

theorem scanEscape_shields (isQuote : IsQuote quote) (r : Reader) :
    Ends (fun _ r' => ∃ text, Shields quote ('\\' :: text) ∧ r.Passes text r') (scanEscape r) := by
  refine (scanEscape_passes r).imp ?_
  rintro _ r' ⟨c, more, passes, bare⟩
  exact ⟨c :: more, .hidden (.of_bare isQuote bare), passes⟩

/-! ## Tokens -/

/-- What is passed over is the text of the token: in the reading of the scanner, it opens and closes the braces that the
token does. -/
def Written (r : Reader) (k : TokenKind) (r' : Reader) : Prop :=
  ∃ text, r.Passes text r' ∧
    ∀ d, (k.isPunct .closeBrace = true → 0 < d) → Depths d text (k.depthAfter d)

/-- The token is no punctuator. -/
def NoPunct (k : TokenKind) : Prop :=
  ∀ p, k.isPunct p = false

theorem Written.of_noPunct (noPunct : NoPunct kind) (passes : r.Passes text r') (depths : ∀ d, Depths d text d) :
    Written r kind r' := by
  refine ⟨text, passes, fun d _ => ?_⟩
  rw [TokenKind.depthAfter, noPunct, noPunct]
  exact depths d

theorem scanWord_written (r : Reader) : Written r (scanWord r).1 (scanWord r).2 := by
  refine .of_noPunct ?_ (.skipWhile r _) fun d => .of_clear (clear_takeWhile (by decide) _)
  unfold scanWord
  dsimp only
  split
  · exact fun p => rfl
  · exact fun p => rfl

theorem endNumber_written {raw : List Char} {value : Float} (passes : r.Passes text r')
    (clear : Clear text) : Ends (Written r) (endNumber start raw value r') := by
  have number : Written r (.number value) r' := .of_noPunct (fun p => rfl) passes fun d => .of_clear clear
  unfold endNumber
  split
  · exact .ite (fun _ => .refuse _ _) fun _ => .ok number
  · exact .ok number

theorem scanRadix_written {radix : Nat} (mark : Clear (r.rest.take 2)) :
    Ends (Written r) (scanRadix radix r) := by
  unfold scanRadix
  refine .ite (fun _ => .refuse _ _) fun _ => ?_
  split
  · refine endNumber_written ((Passes.skip r 2).trans (.skipWhile _ _)) (mark.append ?_)
    exact clear_takeWhile (by decide) _
  · exact .refuse _ _

/-- Of a number the scanner passes what it has read. -/
theorem scanDecimal_written (r : Reader) : Ends (Written r) (scanDecimal r) := by
  unfold scanDecimal
  refine .ite (fun _ => .refuse _ _) fun _ => endNumber_written (.skip r _) ?_
  refine .take_add (.take_add (.take_length (List.takeWhile_prefix _) (clear_digits _)) ?_) ?_
  · split
    next rest =>
      rw [rest]
      refine .take_length (List.cons_prefix_cons.2 ⟨rfl, List.takeWhile_prefix _⟩) ?_
      exact .cons (by decide) (clear_digits _)
    next => exact .nil
  · rw [← List.drop_drop]
    exact clear_exponent _

/-- A number has no braces in it, whatever it is written in. -/
theorem scanNumber_written (r : Reader) : Ends (Written r) (scanNumber r) := by
  unfold scanNumber
  split
  next radix digits literal =>
    refine scanRadix_written ?_
    unfold Number.radixLiteral? at literal
    split at literal
    next mark digits rest =>
      obtain ⟨base, isMark, -⟩ := Option.map_eq_some_iff.1 literal
      have clear : ¬ Delimits mark := by
        unfold Number.radixMark? at isMark
        split at isMark
        case h_7 => cases isMark
        all_goals decide
      rw [rest]
      exact .cons (by decide) (.cons clear .nil)
    next => cases literal
  next => exact scanDecimal_written r

/-- A string ends at its first quote that no backslash hides, as it does for the scanner of substitutions. -/
theorem scanString_shields (isQuote : IsQuote quote) (start : Position) (n : Nat) (out : List Char) (r : Reader) :
    Ends (fun k r' => NoPunct k ∧ ∃ text, Shields quote text ∧ r.Passes (text ++ [quote]) r')
      (scanString quote start n out r) := by
  induction n generalizing out r with
  | zero => exact .refuse _ _
  | succ n ih =>
    unfold scanString
    split
    · exact .refuse _ _
    next c r' read =>
    have passed := Passes.next read
    have later {front : List Char} {r'' : Reader} (shields : Shields quote front) (passes : r.Passes front r'')
        (out : List Char) :
        Ends (fun k r' => NoPunct k ∧ ∃ text, Shields quote text ∧ r.Passes (text ++ [quote]) r')
          (scanString quote start n out r'') := by
      refine (ih out r'').imp ?_
      rintro k r₂ ⟨noPunct, text, more, further⟩
      refine ⟨noPunct, front ++ text, shields.append more, ?_⟩
      rw [List.append_assoc]
      exact passes.trans further
    refine .ite (fun _ => .refuse _ _) fun _ => .ite (fun same => ?_) fun other => ?_
    · subst same
      exact .ok ⟨fun p => rfl, [], .nil, passed⟩
    refine .ite (fun slash => ?_) fun plain => ?_
    · subst slash
      split
      next escape =>
        obtain ⟨text, shields, further⟩ := scanEscape_shields isQuote _ _ _ escape
        exact later shields (passed.trans further) _
      next => exact .error _
    · exact later (.plain plain other .nil) passed _

/-- A template has a text between two back quotes where the scanner finds its way, if each of its substitutions has. -/
theorem scanTemplate_alternates (start : Position) (n : Nat) (chunks : List TemplateChunk) (out : List Char)
    (r : Reader) :
    Ends (fun k r' => NoPunct k ∧ ((∀ text place, k.HasHole text place → Alternates (text ++ ['\x7d'])) →
        ∃ text, Alternates text ∧ r.Passes (text ++ ['`']) r'))
      (scanTemplate start n chunks out r) := by
  induction n generalizing chunks out r with
  | zero => exact .refuse _ _
  | succ n ih =>
    unfold scanTemplate
    split
    · exact .refuse _ _
    next c r' read =>
    have passed := Passes.next read
    have later {front : List Char} {r'' : Reader} (alternates : Alternates front) (passes : r.Passes front r'')
        (chunks : List TemplateChunk) (out : List Char) :
        Ends (fun k r' => NoPunct k ∧ ((∀ text place, k.HasHole text place → Alternates (text ++ ['\x7d'])) →
            ∃ text, Alternates text ∧ r.Passes (text ++ ['`']) r'))
          (scanTemplate start n chunks out r'') := by
      refine (ih chunks out r'').imp ?_
      rintro k r₂ ⟨noPunct, template⟩
      refine ⟨noPunct, fun holes => ?_⟩
      obtain ⟨text, more, further⟩ := template holes
      refine ⟨front ++ text, alternates.append more, ?_⟩
      rw [List.append_assoc]
      exact passes.trans further
    refine .ite (fun same => ?_) fun other => .ite (fun slash => ?_) fun plain => ?_
    · subst same
      exact .ok ⟨fun p => rfl, fun _ => ⟨[], .shielded .nil, passed⟩⟩
    · subst slash
      split
      next escape =>
        obtain ⟨text, shields, further⟩ := scanEscape_shields (.inr (.inr rfl)) _ _ _ escape
        exact later (.shielded shields) (passed.trans further) _ _
      next => exact .error _
    · split
      next brace =>
        dsimp only
        split
        next hole r₂ found =>
          obtain ⟨inner, grown, through⟩ := scanHole_closes _ _ _ _ _ _ _ found
          have opened := passed.trans (Passes.skip_one brace)
          intro k r₃ scanned
          obtain ⟨noPunct, template⟩ := ih _ _ _ _ _ scanned
          refine ⟨noPunct, fun holes => ?_⟩
          -- the substitution is one of those of the token in the end, so the scanner finds its way there
          have alternates := holes _ _ (scanTemplate_keeps _ _ _ _ _ _ _ scanned _ _ (List.mem_cons_self ..))
          have front : Alternates ['$', '\x7b'] :=
            .shielded (.plain (by decide) (by decide) (.plain (by decide) (by decide) .nil))
          obtain ⟨text, more, further⟩ := template holes
          refine ⟨_, (front.append alternates).append more, ?_⟩
          rw [grown, List.append_assoc]
          exact (opened.trans through).trans further
        next => exact .error _
      next => exact later (.shielded (.plain plain other .nil)) passed _ _

theorem clear_spelling {p : Punct} (opens : p ≠ .openBrace) (closes : p ≠ .closeBrace) :
    Clear p.spelling := by
  cases p
  case openBrace => exact absurd rfl opens
  case closeBrace => exact absurd rfl closes
  all_goals decide

/-- A punctuator is its own text, and only two of them are braces. -/
theorem scanPunct_written (r : Reader) : Ends (Written r) (scanPunct r) := by
  unfold scanPunct
  split
  next p found =>
    have fits : fits r.rest p = true := List.find?_some found
    have leads : p.spelling <+: r.rest := List.isPrefixOf_iff_prefix.1 (Bool.and_eq_true_iff.1 fits).1
    have passes := Passes.skip r p.spelling.length
    rw [← List.prefix_iff_eq_take.1 leads] at passes
    refine .ok ⟨p.spelling, passes, fun d some => ?_⟩
    by_cases opens : p = .openBrace
    · subst opens
      exact .opened (.nil _)
    by_cases closes : p = .closeBrace
    · subst closes
      obtain ⟨d, rfl⟩ := Nat.exists_eq_succ_of_ne_zero (Nat.ne_of_gt (some rfl))
      exact .closed (.nil _)
    have same : (TokenKind.punct p).depthAfter d = d := by
      simp [TokenKind.depthAfter, TokenKind.isPunct, opens, closes]
    rw [same]
    exact .of_clear (clear_spelling opens closes)
  next => exact .refuse _ _

/-- Each token has a text, with the braces that it opens and closes. -/
theorem scanToken_written (rest : r.rest = c :: cs) :
    Ends (fun k r' => (∀ text place, k.HasHole text place → Alternates (text ++ ['\x7d'])) → Written r k r')
      (scanToken n c r) := by
  have first := Passes.skip_one rest
  unfold scanToken
  refine .ite (fun _ => .ok fun _ => scanWord_written r) fun _ => ?_
  refine .ite (fun _ => (scanNumber_written r).imp fun _ _ written _ => written) fun _ => ?_
  refine .ite (fun quote => ?_) fun _ => .ite (fun quote => ?_) fun _ => ?_
  · have isQuote : IsQuote c := by
      simp only [Bool.or_eq_true, decide_eq_true_eq] at quote
      exact quote.imp_right .inl
    refine (scanString_shields isQuote _ _ _ _).imp ?_
    rintro k r' ⟨noPunct, text, shields, passes⟩ -
    exact .of_noPunct noPunct (first.trans passes) fun d => .quoted isQuote shields (.nil d)
  · subst quote
    refine (scanTemplate_alternates _ _ _ _ _).imp ?_
    rintro k r' ⟨noPunct, template⟩ holes
    obtain ⟨text, alternates, passes⟩ := template holes
    exact .of_noPunct noPunct (first.trans passes) alternates.depths
  · exact (scanPunct_written r).imp fun _ _ written _ => written

/-! ## All tokens -/

/-- What stands between the tokens: the white space and the comments before each of them, and after the last one. -/
def gapsFrom : Nat → Reader → List (List Char)
  | 0, _ => []
  | n + 1, r =>
    match skipTrivia (n + 1) false r with
    | .error _ => []
    | .ok (_, r') =>
      r.rest.take (r.rest.length - r'.rest.length) ::
        match r'.rest with
        | [] => []
        | c :: _ =>
          match scanToken (n + 1) c r' with
          | .error _ => []
          | .ok (_, r'') => gapsFrom n r''

/-- What stands between the tokens of a source. -/
def gaps (source : String) : List (List Char) :=
  gapsFrom (source.toList.length + 1) ⟨source.toList, .start⟩

end Lexer

/-- How many of the tokens are the punctuator. -/
def countPunct (p : Punct) (tokens : List Token) : Nat :=
  tokens.countP (·.kind.isPunct p)

/-- With so many braces open before the tokens, no first part of them closes more than are open, and all that are opened
are closed in the end. -/
structure BalancedBraces (d : Nat) (tokens : List Token) : Prop where
  within : ∀ n, countPunct .closeBrace (tokens.take n) ≤ d + countPunct .openBrace (tokens.take n)
  closed : countPunct .closeBrace tokens = d + countPunct .openBrace tokens

instance (d : Nat) (tokens : List Token) : Decidable (BalancedBraces d tokens) :=
  decidable_of_iff
    ((∀ n < tokens.length, countPunct .closeBrace (tokens.take n) ≤ d + countPunct .openBrace (tokens.take n)) ∧
      countPunct .closeBrace tokens = d + countPunct .openBrace tokens)
    ⟨fun ⟨within, closed⟩ => ⟨fun n => by
        by_cases inside : n < tokens.length
        · exact within n inside
        · rw [List.take_of_length_le (Nat.le_of_not_lt inside)]
          exact Nat.le_of_eq closed, closed⟩,
      fun balanced => ⟨fun n _ => balanced.within n, balanced.closed⟩⟩

theorem countPunct_cons (p : Punct) (t : Token) (tokens : List Token) :
    countPunct p (t :: tokens) = countPunct p tokens + if t.kind.isPunct p then 1 else 0 :=
  List.countP_cons

theorem not_opens_of_closes {k : TokenKind} (closes : k.isPunct .closeBrace = true) : k.isPunct .openBrace = false := by
  cases k with
  | punct mark =>
    cases beq_iff_eq.1 closes
    rfl
  | _ => rfl

/-- A token shifts the number of open braces by what it opens and closes. -/
theorem TokenKind.depthAfter_add {k : TokenKind} {d : Nat} (some : k.isPunct .closeBrace = true → 0 < d) :
    k.depthAfter d + (if k.isPunct .closeBrace then 1 else 0) = d + if k.isPunct .openBrace then 1 else 0 := by
  unfold depthAfter
  by_cases closes : k.isPunct .closeBrace = true
  · rw [not_opens_of_closes closes, if_neg Bool.false_ne_true, if_pos closes, if_pos closes, if_neg Bool.false_ne_true]
    exact Nat.sub_add_cancel (some closes)
  · rw [if_neg closes, if_neg closes]
    split <;> rfl

namespace BalancedBraces

variable {d : Nat} {t : Token} {tokens : List Token}

theorem open_pos (balanced : BalancedBraces d (t :: tokens)) (closes : t.kind.isPunct .closeBrace = true) : 0 < d := by
  have first : countPunct .closeBrace [t] ≤ d + countPunct .openBrace [t] := balanced.within 1
  rw [countPunct_cons, countPunct_cons, if_pos closes, not_opens_of_closes closes] at first
  exact first

theorem later (balanced : BalancedBraces d (t :: tokens)) : BalancedBraces (t.kind.depthAfter d) tokens := by
  have shift := TokenKind.depthAfter_add balanced.open_pos
  refine ⟨fun n => ?_, ?_⟩
  · have part := balanced.within (n + 1)
    rw [List.take_succ_cons, countPunct_cons, countPunct_cons] at part
    omega
  · have whole := balanced.closed
    rw [countPunct_cons, countPunct_cons] at whole
    omega

end BalancedBraces

namespace Lexer

/-- What splits into tokens with balanced braces is balanced in the reading of the scanner. -/
theorem scanAll_depths {n d : Nat} {found tokens : List Token} {r : Reader} (enough : r.rest.length < n)
    (scanned : scanAll n found r = .ok tokens) (comments : ∀ gap ∈ gapsFrom n r, Depths 0 gap 0) :
    ∃ more, tokens = found.reverse ++ more ∧ (BalancedBraces d more →
      (∀ t ∈ more, ∀ text place, t.kind.HasHole text place → Alternates (text ++ ['\x7d'])) → Depths d r.rest 0) := by
  induction n generalizing d found r with
  | zero => exact absurd enough (Nat.not_lt_zero _)
  | succ n ih =>
    unfold scanAll at scanned
    unfold gapsFrom at comments
    split at scanned
    next => cases scanned
    next newline r' trivia =>
      have leads := skipTrivia_onward _ _ _ _ _ trivia
      have ⟨gap, passes⟩ := leads
      rw [trivia] at comments
      obtain ⟨first, others⟩ := List.forall_mem_cons.1 comments
      rw [passes.take] at first
      split at scanned
      next ends =>
        cases scanned
        refine ⟨_, List.reverse_cons, fun balanced _ => ?_⟩
        obtain rfl : d = 0 := balanced.closed.symm
        rw [passes.rest, ends, List.append_nil]
        exact first
      next rest =>
        split at scanned
        next => cases scanned
        next kind r'' token =>
          have takes := scanToken_takes rest _ _ token
          -- the end of the text stays where it is while the place moves on, so there are turns left
          have fewer : r''.rest.length < n := by
            have := takes.moves.offset_lt
            have := leads.offset_le
            have := (leads.trans takes.moves.leads).stop
            omega
          rw [rest] at others
          dsimp only at others
          rw [token] at others
          obtain ⟨more, rfl, depths⟩ := ih (d := kind.depthAfter d) fewer scanned others
          refine ⟨⟨kind, r'.place, newline⟩ :: more, ?_, fun balanced templates => ?_⟩
          · rw [List.reverse_cons, List.append_assoc, List.singleton_append]
          · obtain ⟨here, later⟩ := List.forall_mem_cons.1 templates
            obtain ⟨text, further, braces⟩ := scanToken_written rest _ _ token here
            -- gap, token and what follows, with the depth of the tokens all along
            rw [passes.rest, further.rest]
            exact (first.anywhere d).append ((braces d balanced.open_pos).append (depths balanced.later later))

/-- A source may stand in a substitution as it is, if it splits into tokens with balanced braces: the substitution
extends to the brace after the source. -/
theorem substitution_extends {source : String} {tokens : List Token} (read : tokenize source = .ok tokens)
    (balanced : BalancedBraces 0 tokens) (comments : ∀ gap ∈ gaps source, Depths 0 gap 0)
    (templates : ∀ t ∈ tokens, ∀ text place, t.kind.HasHole text place → Alternates (text ++ ['\x7d'])) :
    tokenize ("`$\x7b" ++ source ++ "\x7d`") = .ok (holeTokens source) := by
  obtain ⟨more, rfl, depths⟩ := scanAll_depths (Nat.lt_succ_self _) read comments
  exact (substitution_iff source).2 (depths balanced templates)

/-- An object with a brace in a string, braces in a comment, and a template that stands in another one: all of it is the
text of the substitution. -/
theorem object_and_templates_extend : ∃ tokens,
    tokenize "\x7ba: '\x7d'\x7d /* \x7b\x7d */ + `b$\x7b`c$\x7bd\x7d`\x7d`" = .ok tokens ∧ BalancedBraces 0 tokens ∧
      tokenize ("`$\x7b" ++ "\x7ba: '\x7d'\x7d /* \x7b\x7d */ + `b$\x7b`c$\x7bd\x7d`\x7d`" ++ "\x7d`") =
        .ok (holeTokens "\x7ba: '\x7d'\x7d /* \x7b\x7d */ + `b$\x7b`c$\x7bd\x7d`\x7d`") := by
  have read : tokenize "\x7ba: '\x7d'\x7d /* \x7b\x7d */ + `b$\x7b`c$\x7bd\x7d`\x7d`" =
      .ok [⟨.punct .openBrace, ⟨0, 1, 1⟩, false⟩, ⟨.identifier "a", ⟨1, 1, 2⟩, false⟩,
        ⟨.punct .colon, ⟨2, 1, 3⟩, false⟩, ⟨.string "\x7d", ⟨4, 1, 5⟩, false⟩,
        ⟨.punct .closeBrace, ⟨7, 1, 8⟩, false⟩, ⟨.punct .plus, ⟨18, 1, 19⟩, false⟩,
        ⟨.template [.text "b", .hole ['`', 'c', '$', '\x7b', 'd', '\x7d', '`'] ⟨24, 1, 25⟩], ⟨20, 1, 21⟩, false⟩,
        ⟨.eof, ⟨33, 1, 34⟩, false⟩] := by
    with_unfolding_all rfl
  have between : gaps "\x7ba: '\x7d'\x7d /* \x7b\x7d */ + `b$\x7b`c$\x7bd\x7d`\x7d`" =
      [[], [], [], [' '], [], [' ', '/', '*', ' ', '\x7b', '\x7d', ' ', '*', '/', ' '], [' '], []] := by
    with_unfolding_all rfl
  refine ⟨_, read, by decide, substitution_extends read (by decide) ?_ ?_⟩
  · rw [between]
    have comment : Depths 0 ([' ', '/', '*', ' '] ++ ('\x7b' :: '\x7d' :: [' ', '*', '/', ' '])) 0 :=
      .append (.of_clear (by decide)) (.opened (.closed (.of_clear (by decide))))
    have blank : Depths 0 [' '] 0 := .of_clear (by decide)
    simp only [List.forall_mem_cons]
    exact ⟨.nil 0, .nil 0, .nil 0, blank, .nil 0, comment, blank, .nil 0, List.forall_mem_nil _⟩
  · have inner : Depths 0 (['c', '$'] ++ ('\x7b' :: 'd' :: '\x7d' :: [])) 0 :=
      .append (.of_clear (by decide)) (.opened (.plain (by decide) (.closed (.nil 0))))
    have hole : Alternates ([] ++ '`' :: (['c', '$', '\x7b', 'd', '\x7d'] ++ '`' :: ['\x7d'])) :=
      .nested .nil inner (.shielded (.plain (by decide) (by decide) .nil))
    have other {k : TokenKind} (different : ∀ chunks, k ≠ .template chunks) :
        ∀ text place, k.HasHole text place → Alternates (text ++ ['\x7d']) := by
      rintro text place ⟨chunks, same, -⟩
      exact absurd same (different chunks)
    simp only [List.forall_mem_cons]
    refine ⟨other nofun, other nofun, other nofun, other nofun, other nofun, other nofun, ?_, other nofun,
      List.forall_mem_nil _⟩
    rintro text place ⟨chunks, same, mem⟩
    cases same
    cases List.mem_singleton.1 ((List.mem_cons.1 mem).resolve_left nofun)
    exact hole

/-- A template that stands in a substitution of a template that stands in a substitution: its brace ends the outer
substitution, although the text splits into a single template. -/
theorem nested_template_cuts : ∃ tokens, tokenize "`$\x7b`\x7d`\x7d`" = .ok tokens ∧ BalancedBraces 0 tokens ∧
    gaps "`$\x7b`\x7d`\x7d`" = [[], []] ∧
      tokenize ("`$\x7b" ++ "`$\x7b`\x7d`\x7d`" ++ "\x7d`") ≠ .ok (holeTokens "`$\x7b`\x7d`\x7d`") := by
  have inner : tokenize "`$\x7b`\x7d`\x7d`" =
      .ok [⟨.template [.hole ['`', '\x7d', '`'] ⟨3, 1, 4⟩], .start, false⟩, ⟨.eof, ⟨8, 1, 9⟩, false⟩] := by
    with_unfolding_all rfl
  have outer : tokenize ("`$\x7b" ++ "`$\x7b`\x7d`\x7d`" ++ "\x7d`") =
      .ok [⟨.template [.hole ['`', '$', '\x7b', '`'] ⟨3, 1, 4⟩], .start, false⟩,
        ⟨.punct .closeBrace, ⟨9, 1, 10⟩, false⟩, ⟨.template [.text "\x7d"], ⟨10, 1, 11⟩, false⟩,
        ⟨.eof, ⟨13, 1, 14⟩, false⟩] := by
    with_unfolding_all rfl
  refine ⟨_, inner, by decide, by with_unfolding_all rfl, ?_⟩
  rw [outer]
  intro same
  have length := congrArg List.length (Except.ok.inj same)
  cases length

/-- A brace in a comment ends the substitution, too. -/
example : tokenize ("`$\x7b" ++ "a /* \x7d */" ++ "\x7d`") =
    .ok [⟨.template [.hole ['a', ' ', '/', '*', ' '] ⟨3, 1, 4⟩, .text " */\x7d"], .start, false⟩,
      ⟨.eof, ⟨14, 1, 15⟩, false⟩] := by
  with_unfolding_all rfl

end Lexer

end BindScript
