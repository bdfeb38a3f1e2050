import BindScript.Proofs.Parsing.Positions

/-!
# Where a substitution ends

The text of a substitution in a template is cut out before it is split into tokens. The scanner that does so counts
braces and passes over whatever stands between two quotes. It knows neither comments nor substitutions in a template
that it passes over, so it has a reading of its own: `Depths` says how many braces are open before and after a text in
this reading, and `Shields` what may stand between two quotes. A substitution has a text exactly if the text is balanced
in this reading (`substitution_iff`).

Theorems:
- `scanHole_of_depths`, `scanHole_depths`: the scanner stops at the brace after a balanced text, and nowhere else.
- `substitution_iff`: which sources may stand in a substitution as they are.
-/

namespace BindScript

namespace Lexer

open Text Reader

/-! ## The reading of the scanner -/

/-- A quote, as it begins and ends strings and templates. -/
def IsQuote (c : Char) : Prop :=
  c = '"' ∨ c = '\'' ∨ c = '`'

/-- A brace or a quote. -/
def Delimits (c : Char) : Prop :=
  c = '\x7b' ∨ c = '\x7d' ∨ IsQuote c

instance (c : Char) : Decidable (IsQuote c) :=
  inferInstanceAs (Decidable (_ ∨ _))

instance (c : Char) : Decidable (Delimits c) :=
  inferInstanceAs (Decidable (_ ∨ _))

/-- A text without braces and quotes. -/
def Clear (cs : List Char) : Prop :=
  ∀ c ∈ cs, ¬ Delimits c

instance (cs : List Char) : Decidable (Clear cs) :=
  List.decidableBAll (fun c => ¬ Delimits c) cs

/-- What may stand between two quotes of the kind: a backslash hides the character after it, and the quote is hidden
wherever it stands. -/
inductive Shields (quote : Char) : List Char → Prop
  | nil : Shields quote []
  | hidden {c : Char} {cs : List Char} (rest : Shields quote cs) : Shields quote ('\\' :: c :: cs)
  | plain {c : Char} {cs : List Char} (slash : c ≠ '\\') (other : c ≠ quote) (rest : Shields quote cs) :
    Shields quote (c :: cs)

/-- After so many open braces, the text leaves so many open, where the parts between quotes do not count. -/
inductive Depths : Nat → List Char → Nat → Prop
  | nil (d : Nat) : Depths d [] d
  | plain {c : Char} {cs : List Char} {d d' : Nat} (clear : ¬ Delimits c) (rest : Depths d cs d') :
    Depths d (c :: cs) d'
  | opened {cs : List Char} {d d' : Nat} (rest : Depths (d + 1) cs d') : Depths d ('\x7b' :: cs) d'
  | closed {cs : List Char} {d d' : Nat} (rest : Depths d cs d') : Depths (d + 1) ('\x7d' :: cs) d'
  | quoted {quote : Char} {text cs : List Char} {d d' : Nat} (isQuote : IsQuote quote) (shields : Shields quote text)
    (rest : Depths d cs d') : Depths d (quote :: (text ++ quote :: cs)) d'

variable {quote c : Char} {text cs ds : List Char} {d d' d'' n : Nat} {start : Position} {r r' : Reader}

theorem Shields.append (first : Shields quote cs) (second : Shields quote ds) : Shields quote (cs ++ ds) := by
  induction first with
  | nil => exact second
  | hidden _ ih => exact .hidden ih
  | plain slash other _ ih => exact .plain slash other ih

theorem Depths.append (first : Depths d cs d') (second : Depths d' ds d'') : Depths d (cs ++ ds) d'' := by
  induction first with
  | nil => exact second
  | plain clear _ ih => exact .plain clear (ih second)
  | opened _ ih => exact .opened (ih second)
  | closed _ ih => exact .closed (ih second)
  | quoted isQuote shields _ ih =>
    rw [List.cons_append, List.append_assoc, List.cons_append]
    exact .quoted isQuote shields (ih second)

theorem Depths.of_clear (clear : Clear cs) : Depths d cs d := by
  induction cs with
  | nil => exact .nil d
  | cons c cs ih =>
    obtain ⟨here, rest⟩ := List.forall_mem_cons.1 clear
    exact .plain here (ih rest)

theorem next?_of_rest (rest : r.rest = c :: cs) : r.next? = some (c, ⟨cs, r.place.next c⟩) := by
  rw [next?, rest]

theorem IsQuote.ne_slash (isQuote : IsQuote quote) : quote ≠ '\\' := by
  rcases isQuote with rfl | rfl | rfl <;> decide

/-! ### Step by step -/

theorem scanQuoted_end (isQuote : IsQuote quote) (rest : r.rest = quote :: cs) (out : List Char) :
    scanQuoted quote start (n + 1) out r = .ok (quote :: out, ⟨cs, r.place.next quote⟩) := by
  rw [scanQuoted, next?_of_rest rest]
  dsimp only
  rw [if_neg isQuote.ne_slash, if_pos rfl]

theorem scanQuoted_hidden (rest : r.rest = '\\' :: c :: cs) (out : List Char) :
    scanQuoted quote start (n + 1) out r =
      scanQuoted quote start n (c :: '\\' :: out) ⟨cs, (r.place.next '\\').next c⟩ := by
  rw [scanQuoted, next?_of_rest rest]
  dsimp only
  rw [if_pos rfl]
  rfl

theorem scanQuoted_plain (slash : c ≠ '\\') (other : c ≠ quote) (rest : r.rest = c :: cs) (out : List Char) :
    scanQuoted quote start (n + 1) out r = scanQuoted quote start n (c :: out) ⟨cs, r.place.next c⟩ := by
  rw [scanQuoted, next?_of_rest rest]
  dsimp only
  rw [if_neg slash, if_neg other]

theorem scanHole_end (rest : r.rest = '\x7d' :: cs) (out : List Char) :
    scanHole start (n + 1) 0 out r = .ok (out.reverse, ⟨cs, r.place.next '\x7d'⟩) := by
  rw [scanHole, next?_of_rest rest]
  rfl

theorem scanHole_closed (rest : r.rest = '\x7d' :: cs) (out : List Char) :
    scanHole start (n + 1) (d + 1) out r = scanHole start n d ('\x7d' :: out) ⟨cs, r.place.next '\x7d'⟩ := by
  rw [scanHole, next?_of_rest rest]
  rfl

theorem scanHole_opened (rest : r.rest = '\x7b' :: cs) (out : List Char) :
    scanHole start (n + 1) d out r = scanHole start n (d + 1) ('\x7b' :: out) ⟨cs, r.place.next '\x7b'⟩ := by
  rw [scanHole, next?_of_rest rest]
  rfl

theorem scanHole_plain (clear : ¬ Delimits c) (rest : r.rest = c :: cs) (out : List Char) :
    scanHole start (n + 1) d out r = scanHole start n d (c :: out) ⟨cs, r.place.next c⟩ := by
  obtain ⟨notOpened, notClosed, notQuote⟩ : c ≠ '\x7b' ∧ c ≠ '\x7d' ∧ ¬ IsQuote c := by
    simpa [Delimits] using clear
  have notQuote : ¬ ((decide (c = '"') || decide (c = '\'') || decide (c = '`')) = true) := by
    simpa [IsQuote, and_assoc] using notQuote
  rw [scanHole, next?_of_rest rest]
  dsimp only
  rw [if_neg notClosed, if_neg notOpened, if_neg notQuote]

theorem scanHole_quoted (isQuote : IsQuote c) (rest : r.rest = c :: cs) (out : List Char) :
    scanHole start (n + 1) d out r =
      match scanQuoted c start n (c :: out) ⟨cs, r.place.next c⟩ with
      | .ok (out', r') => scanHole start n d out' r'
      | .error issue => .error issue := by
  rw [scanHole, next?_of_rest rest]
  rcases isQuote with rfl | rfl | rfl <;> rfl

/-! ### Whole texts -/

theorem exists_fuel (enough : cs.length < n) : ∃ m, n = m + 1 :=
  Nat.exists_eq_succ_of_ne_zero (Nat.ne_of_gt (Nat.zero_lt_of_lt enough))

/-- A part between quotes is passed over, up to the quote at its end. -/
theorem scanQuoted_of_shields (isQuote : IsQuote quote) (shields : Shields quote text) (enough : text.length < n)
    (rest : r.rest = text ++ quote :: cs) (out : List Char) :
    scanQuoted quote start n out r =
      .ok (quote :: (text.reverse ++ out), ⟨cs, r.place.advance (text ++ [quote])⟩) := by
  induction shields generalizing n r out with
  | nil =>
    obtain ⟨n, rfl⟩ := exists_fuel enough
    exact scanQuoted_end isQuote rest out
  | @hidden c cs' _ ih =>
    obtain ⟨n, rfl⟩ := exists_fuel enough
    simp only [List.length_cons] at enough
    rw [scanQuoted_hidden rest, ih (by omega) rfl]
    simp
  | plain slash other _ ih =>
    obtain ⟨n, rfl⟩ := exists_fuel enough
    simp only [List.length_cons] at enough
    rw [scanQuoted_plain slash other rest, ih (by omega) rfl]
    simp

/-- The substitution of a balanced text ends at the brace after it. -/
theorem scanHole_of_depths (depths : Depths d text 0) (enough : text.length < n) (rest : r.rest = text ++ '\x7d' :: cs)
    (out : List Char) :
    scanHole start n d out r = .ok (out.reverse ++ text, ⟨cs, r.place.advance (text ++ ['\x7d'])⟩) := by
  generalize ending : 0 = d' at depths
  induction depths generalizing n r out with
  | nil =>
    subst ending
    obtain ⟨n, rfl⟩ := exists_fuel enough
    rw [scanHole_end rest]
    simp
  | plain clear _ ih =>
    obtain ⟨n, rfl⟩ := exists_fuel enough
    simp only [List.length_cons] at enough
    rw [scanHole_plain clear rest, ih (by omega) rfl _ ending]
    simp
  | opened _ ih =>
    obtain ⟨n, rfl⟩ := exists_fuel enough
    simp only [List.length_cons] at enough
    rw [scanHole_opened rest, ih (by omega) rfl _ ending]
    simp
  | closed _ ih =>
    obtain ⟨n, rfl⟩ := exists_fuel enough
    simp only [List.length_cons] at enough
    rw [scanHole_closed rest, ih (by omega) rfl _ ending]
    simp
  | @quoted quote text cs' d d' isQuote shields _ ih =>
    -- the part between the quotes is passed over at one stroke, with the turns that are left
    obtain ⟨n, rfl⟩ := exists_fuel enough
    simp only [List.length_cons, List.length_append] at enough
    have inside : (⟨text ++ quote :: (cs' ++ '\x7d' :: cs), r.place.next quote⟩ : Reader).rest =
        text ++ quote :: (cs' ++ '\x7d' :: cs) := rfl
    rw [List.cons_append, List.append_assoc, List.cons_append] at rest
    rw [scanHole_quoted isQuote rest, scanQuoted_of_shields isQuote shields (by omega) inside]
    dsimp only
    rw [ih (by omega) rfl _ ending]
    simp [Position.advance_append]

/-- What is passed over as a quoted part is one. -/
theorem scanQuoted_shields (quote : Char) (start : Position) (n : Nat) (out : List Char) (r : Reader) :
    Ends (fun out' r' => ∃ text, Shields quote text ∧ out' = quote :: (text.reverse ++ out) ∧
      r.Passes (text ++ [quote]) r') (scanQuoted quote start n out r) := by
  induction n generalizing out r with
  | zero => exact .refuse _ _
  | succ n ih =>
    unfold scanQuoted
    split
    · exact .refuse _ _
    next c r' read =>
    have passed := Passes.next read
    refine .ite (fun slash => ?_) fun slash => .ite (fun same => ?_) fun other => ?_
    · subst slash
      split
      next hidden r'' next =>
        refine (ih _ _).imp ?_
        rintro out' after ⟨text, shields, grown, more⟩
        refine ⟨'\\' :: hidden :: text, .hidden shields, by simp [grown], ?_⟩
        exact passed.trans ((Passes.next next).trans more)
      next nothing =>
        -- there is nothing left to hide, so the scan fails
        cases n with
        | zero => exact .refuse _ _
        | succ n =>
          rw [scanQuoted, nothing]
          exact .refuse _ _
    · subst same
      exact .ok ⟨[], .nil, rfl, passed⟩
    · refine (ih _ _).imp ?_
      rintro out' after ⟨text, shields, grown, more⟩
      exact ⟨c :: text, .plain slash other shields, by simp [grown], passed.trans more⟩

/-- The text of a substitution is balanced. -/
theorem scanHole_depths (start : Position) (n d : Nat) (out : List Char) (r : Reader) :
    Ends (fun source r' => ∃ text, Depths d text 0 ∧ source = out.reverse ++ text ∧
      r.Passes (text ++ ['\x7d']) r') (scanHole start n d out r) := by
  induction n generalizing d out r with
  | zero => exact .refuse _ _
  | succ n ih =>
    unfold scanHole
    split
    · exact .refuse _ _
    next c r' read =>
    have passed := Passes.next read
    -- the scan goes on after a text that leads to the depth it goes on with
    have later {passing : List Char} {d₁ : Nat} {out₁ : List Char} {r₁ : Reader} (passes : r.Passes passing r₁)
        (grown : out₁ = passing.reverse ++ out) (leads : ∀ text, Depths d₁ text 0 → Depths d (passing ++ text) 0) :
        Ends (fun source r' => ∃ text, Depths d text 0 ∧ source = out.reverse ++ text ∧
          r.Passes (text ++ ['\x7d']) r') (scanHole start n d₁ out₁ r₁) := by
      refine (ih d₁ out₁ r₁).imp ?_
      rintro source r'' ⟨text, depths, rfl, more⟩
      refine ⟨passing ++ text, leads text depths, by simp [grown], ?_⟩
      rw [List.append_assoc]
      exact passes.trans more
    refine .ite (fun brace => ?_) fun notClosed => .ite (fun brace => ?_) fun notOpened => .ite (fun quote => ?_) ?_
    · subst brace
      cases d with
      | zero => exact .ok ⟨[], .nil 0, (List.append_nil _).symm, passed⟩
      | succ d => exact later passed rfl fun text depths => .closed depths
    · subst brace
      exact later passed rfl fun text depths => .opened depths
    · have isQuote : IsQuote c := by simpa [IsQuote, or_assoc] using quote
      cases part : scanQuoted c start n (c :: out) r' with
      | error issue => exact .error _
      | ok found =>
        obtain ⟨out', r''⟩ := found
        obtain ⟨text, shields, grown, more⟩ := scanQuoted_shields _ _ _ _ _ _ _ part
        refine later (passed.trans more) (by simp [grown]) fun rest depths => ?_
        rw [List.singleton_append, List.cons_append, List.append_assoc]
        exact .quoted isQuote shields depths
    · intro notQuote
      have clear : ¬ Delimits c := by
        simp only [Bool.or_eq_true, decide_eq_true_eq, or_assoc] at notQuote
        rintro (opened | closed | isQuote)
        · exact notOpened opened
        · exact notClosed closed
        · exact notQuote isQuote
      exact later passed rfl fun text depths => .plain clear depths

/-! ## Templates -/

/-- The substitutions that have been found are among those of the template. -/
theorem scanTemplate_keeps (start : Position) (n : Nat) (chunks : List TemplateChunk) (out : List Char) (r : Reader) :
    Ends (fun k _ => ∀ text place, .hole text place ∈ chunks → k.HasHole text place)
      (scanTemplate start n chunks out r) := by
  have push {chunks : List TemplateChunk} {chunk : TemplateChunk} (mem : chunk ∈ chunks) (out : List Char) :
      chunk ∈ pushText chunks out := by
    unfold pushText
    split
    · exact mem
    · exact List.mem_cons_of_mem _ mem
  induction n generalizing chunks out r with
  | zero => exact .refuse _ _
  | succ n ih =>
    unfold scanTemplate
    split
    · exact .refuse _ _
    refine .ite (fun _ => ?_) fun _ => .ite (fun _ => ?_) fun _ => ?_
    · refine .ok fun text place mem => ⟨_, rfl, ?_⟩
      have all := List.mem_reverse.2 (push mem out)
      rw [if_neg (by simpa using List.ne_nil_of_mem all)]
      exact all
    · split
      · exact ih _ _ _
      · exact .error _
    · split
      · dsimp only
        split
        · exact (ih _ _ _).imp fun k _ keeps text place mem => keeps text place (List.mem_cons_of_mem _ (push mem out))
        · exact .error _
      · exact ih _ _ _

/-- Tokens that have been found stay in front. -/
theorem scanAll_found {n : Nat} {found tokens : List Token} {r : Reader} (scanned : scanAll n found r = .ok tokens) :
    ∃ more, tokens = found.reverse ++ more := by
  induction n generalizing found r with
  | zero =>
    cases scanned
    exact ⟨[], (List.append_nil _).symm⟩
  | succ n ih =>
    unfold scanAll at scanned
    split at scanned
    · cases scanned
    split at scanned
    · cases scanned
      exact ⟨_, List.reverse_cons⟩
    split at scanned
    · cases scanned
    next kind r' _ =>
      obtain ⟨more, rfl⟩ := ih scanned
      exact ⟨_, by rw [List.reverse_cons, List.append_assoc]⟩

theorem exists_of_bind {α β : Type} {scan : Except ParseIssue α} {f : α → Except ParseIssue β} {b : β}
    (done : scan >>= f = .ok b) : ∃ a, scan = .ok a ∧ f a = .ok b := by
  cases scan with
  | error => cases done
  | ok a => exact ⟨a, rfl, done⟩

/-- Where the text of a substitution starts that stands first in a source. -/
def holeStart : Position :=
  ⟨3, 1, 4⟩

/-- The tokens of a template with nothing but a substitution. -/
def holeTokens (source : String) : List Token :=
  [⟨.template [.hole source.toList holeStart], .start, false⟩,
    ⟨.eof, Position.start.advance ("`$\x7b" ++ source ++ "\x7d`").toList, false⟩]

theorem hole_toList (source : String) :
    ("`$\x7b" ++ source ++ "\x7d`").toList = '`' :: '$' :: '\x7b' :: (source.toList ++ ['\x7d', '`']) := by
  simp

/-- A template that is one substitution is scanned in three steps, to the brace, to the back quote, and to the end. -/
theorem tokenize_hole (source : String) :
    tokenize ("`$\x7b" ++ source ++ "\x7d`") = (do
      let hole ← scanHole .start (source.toList.length + 5) 0 [] ⟨source.toList ++ ['\x7d', '`'], holeStart⟩
      let template ← scanTemplate .start (source.toList.length + 5) [.hole hole.1 holeStart] [] hole.2
      scanAll (source.toList.length + 5) [⟨template.1, .start, false⟩] template.2) := by
  have fuel : ('`' :: '$' :: '\x7b' :: (source.toList ++ ['\x7d', '`'])).length = source.toList.length + 5 := by
    simp
  unfold tokenize tokenizeAt
  rw [hole_toList, fuel]
  generalize source.toList ++ ['\x7d', '`'] = cs
  generalize source.toList.length + 5 = n
  have first : scanAll (n + 1) [] ⟨'`' :: '$' :: '\x7b' :: cs, .start⟩ = (do
      let template ← scanToken (n + 1) '`' ⟨'`' :: '$' :: '\x7b' :: cs, .start⟩
      scanAll n [⟨template.1, .start, false⟩] template.2) := by
    have trivia : skipTrivia (n + 1) false ⟨'`' :: '$' :: '\x7b' :: cs, .start⟩ =
        .ok (false, ⟨'`' :: '$' :: '\x7b' :: cs, .start⟩) := rfl
    rw [scanAll, trivia]
    dsimp only
    cases scanToken (n + 1) '`' ⟨'`' :: '$' :: '\x7b' :: cs, .start⟩ <;> rfl
  have token : scanToken (n + 1) '`' ⟨'`' :: '$' :: '\x7b' :: cs, .start⟩ = (do
      let hole ← scanHole .start n 0 [] ⟨cs, holeStart⟩
      scanTemplate .start n [.hole hole.1 holeStart] [] hole.2 : Except ParseIssue (TokenKind × Reader)) := by
    show scanTemplate .start (n + 1) [] [] ⟨'$' :: '\x7b' :: cs, ⟨1, 1, 2⟩⟩ = _
    rw [scanTemplate, next?_of_rest rfl]
    dsimp only
    have skipped : (⟨'\x7b' :: cs, (⟨1, 1, 2⟩ : Position).next '$'⟩ : Reader).skip 1 = ⟨cs, holeStart⟩ := rfl
    rw [if_neg (by decide), if_neg (by decide), skipped]
    cases scanHole .start n 0 [] ⟨cs, holeStart⟩ <;> rfl
  rw [first, token, bind_assoc]

/-- A substitution has a text exactly if the text is balanced in the reading of the scanner. -/
theorem substitution_iff (source : String) :
    tokenize ("`$\x7b" ++ source ++ "\x7d`") = .ok (holeTokens source) ↔ Depths 0 source.toList 0 := by
  rw [tokenize_hole]
  constructor
  · intro scanned
    obtain ⟨⟨text, r⟩, hole, scanned⟩ := exists_of_bind scanned
    obtain ⟨⟨kind, r'⟩, template, scanned⟩ := exists_of_bind scanned
    -- the text that was cut out stays among the substitutions of the token, so it is the text of the source
    have kept := scanTemplate_keeps _ _ _ _ _ _ _ template text holeStart (List.mem_singleton_self _)
    obtain ⟨more, tokens⟩ := scanAll_found scanned
    obtain ⟨⟨⟩, -⟩ := List.cons.inj tokens
    obtain ⟨_, ⟨⟩, mem⟩ := kept
    cases List.mem_singleton.1 mem
    obtain ⟨text', depths, same, -⟩ := scanHole_depths _ _ _ _ _ _ _ hole
    rw [same]
    exact depths
  · intro depths
    have hole : scanHole .start (source.toList.length + 5) 0 [] ⟨source.toList ++ ['\x7d', '`'], holeStart⟩ =
        .ok (source.toList, ⟨['`'], holeStart.advance (source.toList ++ ['\x7d'])⟩) :=
      scanHole_of_depths depths (by omega) rfl []
    have stop : (holeStart.advance (source.toList ++ ['\x7d'])).next '`' =
        Position.start.advance ("`$\x7b" ++ source ++ "\x7d`").toList := by
      rw [hole_toList]
      simp [holeStart, Position.advance_append, Position.start, Position.next]
    rw [hole, holeTokens, ← stop]
    rfl

end Lexer

end BindScript
