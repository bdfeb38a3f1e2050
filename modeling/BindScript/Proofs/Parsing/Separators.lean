import Mathlib.Data.Bool.AllAny
import BindScript.Proofs.Parsing.Numerals

/-!
# Separators in numeric literals

A text that is made of the characters of numeric literals is one literal only if its separators stand where they may,
and if it is one without them; the value is then the same (`isNumber_iff_separators`). They may stand between two
digits of the radix, with two exceptions: one of them may also stand right before the mark of an exponent, as in
`1_e5`, and none may stand after a lower-case `e`, though it is a digit in hexadecimal literals such as `0xe_1`. The
check of the separators sees only the characters of the literal, not which part of it they are in.

The scanner of decimal literals stops at the same places with separators and without (`decimalParts_withoutSeparators`),
since it passes over separators wherever it passes over digits.
-/

namespace BindScript

namespace Lexer

variable {text cs : List Char} {radix : Nat} {x : Float} {c : Char}

/-! ## Spellings -/

/-- The text is made of the characters of literals of the radix: of those of decimal literals, or of a zero, the mark
of the radix, digits of the radix and separators. -/
inductive Spelling : Nat → List Char → Prop
  | decimal {text : List Char} (parts : ∀ c ∈ text, isDecimalPart c = true) : Spelling 10 text
  | marked {radix : Nat} {mark : Char} {digits : List Char} (marks : Number.radixMark? mark = some radix)
    (parts : ∀ c ∈ digits, c = '_' ∨ IsDigitOf radix c) : Spelling radix ('0' :: mark :: digits)

/-- Each separator of the text has such a character right before it and such a one right after it. -/
def SeparatorsBetween (left right : Char → Prop) (text : List Char) : Prop :=
  ∀ before after, text = before ++ '_' :: after →
    (∃ c, before.getLast? = some c ∧ left c) ∧ ∃ c, after.head? = some c ∧ right c

/-- A character that the check of the separators takes before one: a digit of the radix other than a lower-case `e`. -/
def LeadsSeparator (radix : Nat) (c : Char) : Prop :=
  IsDigitOf radix c ∧ c ≠ 'e'

/-- A character that the check of the separators takes after one: a digit of the radix, or the mark of an exponent. -/
def FollowsSeparator (radix : Nat) (c : Char) : Prop :=
  IsDigitOf radix c ∨ radix = 10 ∧ IsExponentMark c

/-- A separator that the check of the separators misjudges: one after a lower-case `e` that is a digit, or one before
the mark of an exponent. -/
def MisjudgedSeparator (radix : Nat) (text : List Char) : Prop :=
  radix = 16 ∧ ['e', '_'] <:+: text ∨ radix = 10 ∧ ∃ mark, IsExponentMark mark ∧ ['_', mark] <:+: text

/-! ## The check of the separators -/

namespace SeparatorsBetween

variable {left right left' right' : Char → Prop}

theorem of_none (none : '_' ∉ text) : SeparatorsBetween left right text := by
  rintro before after rfl
  exact absurd (List.mem_append_right _ (List.mem_cons_self ..)) none

/-- A character that is no separator, and does not make way for one, has no part in it. -/
theorem cons_iff (other : c ≠ '_') (apart : cs.head? = some '_' → ¬ left c) :
    SeparatorsBetween left right (c :: cs) ↔ SeparatorsBetween left right cs := by
  constructor
  · rintro between before after rfl
    obtain ⟨⟨b, last, fits⟩, follows⟩ := between (c :: before) after rfl
    refine ⟨⟨b, ?_, fits⟩, follows⟩
    cases before with
    | nil =>
      cases last
      exact absurd fits (apart rfl)
    | cons d ds => exact last
  · intro between before after split
    cases before with
    | nil => exact absurd (List.cons.inj split).1 other
    | cons d ds =>
      obtain ⟨rfl, rfl⟩ := List.cons.inj split
      obtain ⟨⟨b, last, fits⟩, follows⟩ := between ds after rfl
      exact ⟨⟨b, by rw [List.getLast?_cons, last]; rfl, fits⟩, follows⟩

theorem single (front back : List Char) {b a : Char} (before : '_' ∉ front ++ [b]) (after : '_' ∉ a :: back)
    (leads : left b) (follows : right a) : SeparatorsBetween left right (front ++ [b] ++ '_' :: a :: back) := by
  intro front' back' split
  obtain ⟨rfl, -, rfl⟩ := (List.append_cons_inj_of_notMem before after).1 split
  exact ⟨⟨b, List.getLast?_concat, leads⟩, a, rfl, follows⟩

/-- It only matters what the characters of the text are. -/
theorem congr (lefts : ∀ c ∈ text, left c ↔ left' c) (rights : ∀ c ∈ text, right c ↔ right' c) :
    SeparatorsBetween left right text ↔ SeparatorsBetween left' right' text := by
  refine forall_congr' fun before => forall_congr' fun after => forall_congr' fun split => ?_
  subst split
  refine and_congr (exists_congr fun b => and_congr_right fun last => lefts b ?_)
    (exists_congr fun a => and_congr_right fun follows => rights a ?_)
  · exact List.mem_append_left _ (List.mem_of_getLast? last)
  · exact List.mem_append_right _ (List.mem_cons_of_mem _ (List.mem_of_head? follows))

/-- The characters of the text may be replaced by others, but for the separators. -/
theorem map_iff {f : Char → Char} (keeps : ∀ c, f c = '_' ↔ c = '_') :
    SeparatorsBetween left right (text.map f) ↔
      SeparatorsBetween (fun c => left (f c)) (fun c => right (f c)) text := by
  constructor
  · rintro between before after rfl
    have split : (before ++ '_' :: after).map f = before.map f ++ '_' :: after.map f := by
      rw [List.map_append, List.map_cons, (keeps '_').2 rfl]
    obtain ⟨⟨b, last, fits⟩, ⟨a, next, follows⟩⟩ := between _ _ split
    rw [List.getLast?_map, Option.map_eq_some_iff] at last
    rw [List.head?_map, Option.map_eq_some_iff] at next
    obtain ⟨b, last, rfl⟩ := last
    obtain ⟨a, next, rfl⟩ := next
    exact ⟨⟨b, last, fits⟩, a, next, follows⟩
  · intro between before after split
    obtain ⟨before, tail, rfl, rfl, mapped⟩ := List.map_eq_append_iff.1 split
    obtain ⟨c, after, rfl, separator, rfl⟩ := List.map_eq_cons_iff.1 mapped
    obtain rfl := (keeps c).1 separator
    obtain ⟨⟨b, last, fits⟩, ⟨a, next, follows⟩⟩ := between before after rfl
    refine ⟨⟨f b, ?_, fits⟩, f a, ?_, follows⟩
    · rw [List.getLast?_map, last]
      rfl
    · rw [List.head?_map, next]
      rfl

/-- A separator is not the first character. -/
theorem head? (between : SeparatorsBetween left right text) : text.head? ≠ some '_' := by
  intro separator
  obtain ⟨after, rfl⟩ := List.head?_eq_some_iff.1 separator
  obtain ⟨⟨b, last, -⟩, -⟩ := between [] after rfl
  cases last

/-- Separators come right after such characters. -/
theorem before (between : SeparatorsBetween left right text) {after : List Char}
    (suffix : c :: '_' :: after <:+ text) : left c := by
  obtain ⟨front, rfl⟩ := suffix
  obtain ⟨⟨b, last, fits⟩, -⟩ := between (front ++ [c]) after (by rw [List.append_assoc]; rfl)
  rw [List.getLast?_concat] at last
  cases last
  exact fits

end SeparatorsBetween

/-- One character at a time: a separator looks at the one before and the one after it. -/
theorem separatorsFit_cons (before : Option Char) (c : Char) (cs : List Char) :
    separatorsFit before (c :: cs) = true ↔
      (c = '_' →
        (∃ b, before = some b ∧ b.isAlphanum = true ∧ b ≠ 'e') ∧ ∃ a, cs.head? = some a ∧ a.isAlphanum = true) ∧
      separatorsFit (some c) cs = true := by
  by_cases separator : c = '_'
  · subst separator
    have turn : separatorsFit before ('_' :: cs) = ((before.any fun b => b.isAlphanum && b != 'e') &&
        cs.head?.any Char.isAlphanum && separatorsFit (some '_') cs) := by
      cases before <;> cases cs <;> rfl
    rw [turn]
    generalize separatorsFit (some '_') cs = later
    cases before with
    | none => simp
    | some b =>
      cases cs with
      | nil => simp
      | cons a cs => simp
  · rw [separatorsFit]
    · simp [separator]
    · exact separator

/-- The check goes through all separators of the text, with the character before the text at hand for the first one. -/
theorem separatorsFit_iff_after (before : Option Char) (cs : List Char) : separatorsFit before cs = true ↔
    ∀ front after, cs = front ++ '_' :: after →
      (∃ b, front.getLast?.or before = some b ∧ b.isAlphanum = true ∧ b ≠ 'e') ∧
        ∃ a, after.head? = some a ∧ a.isAlphanum = true := by
  induction cs generalizing before with
  | nil => simp [separatorsFit]
  | cons c cs ih =>
    have shifted (front : List Char) : (c :: front).getLast?.or before = front.getLast?.or (some c) := by
      rw [List.getLast?_cons]
      cases front.getLast? <;> rfl
    rw [separatorsFit_cons, ih]
    constructor
    · rintro ⟨here, later⟩ front after split
      cases front with
      | nil =>
        obtain ⟨rfl, rfl⟩ := List.cons.inj split
        exact here rfl
      | cons d front =>
        obtain ⟨rfl, rfl⟩ := List.cons.inj split
        rw [shifted]
        exact later front after rfl
    · intro all
      constructor
      · rintro rfl
        exact all [] cs rfl
      · rintro front after rfl
        have := all (c :: front) after rfl
        rwa [shifted] at this

/-- The check knows the characters next to a separator, but not which part of the literal they are in. -/
theorem separatorsFit_iff (raw : List Char) : separatorsFit none raw = true ↔
    SeparatorsBetween (fun c => c.isAlphanum = true ∧ c ≠ 'e') (fun c => c.isAlphanum = true) raw := by
  simp only [separatorsFit_iff_after, Option.or_none, SeparatorsBetween]

/-! ## Decimal literals without their separators -/

theorem withoutSeparators_cons (other : c ≠ '_') : withoutSeparators (c :: cs) = c :: withoutSeparators cs :=
  List.filter_cons_of_pos (by simpa using other)

theorem withoutSeparators_append (cs ds : List Char) :
    withoutSeparators (cs ++ ds) = withoutSeparators cs ++ withoutSeparators ds :=
  List.filter_append ..

theorem withoutSeparators_of_notMem (plain : '_' ∉ cs) : withoutSeparators cs = cs :=
  List.filter_eq_self.2 fun _ mem => by simpa using ne_of_mem_of_not_mem mem plain

theorem withoutSeparators_twice (cs : List Char) : withoutSeparators (withoutSeparators cs) = withoutSeparators cs :=
  List.filter_eq_self.2 fun _ mem => (List.mem_filter.1 mem).2

theorem mem_withoutSeparators : c ∈ withoutSeparators cs ↔ c ∈ cs ∧ c ≠ '_' := by
  simp [withoutSeparators, List.mem_filter]

theorem separatorsFit_withoutSeparators (cs : List Char) : separatorsFit none (withoutSeparators cs) = true :=
  (separatorsFit_iff _).2 (.of_none fun mem => (mem_withoutSeparators.1 mem).2 rfl)

/-- Separators are passed over where digits are. -/
theorem takeWhile_withoutSeparators (cs : List Char) :
    (withoutSeparators cs).takeWhile isDigitOrSeparator = withoutSeparators (cs.takeWhile isDigitOrSeparator) ∧
      (withoutSeparators cs).dropWhile isDigitOrSeparator = withoutSeparators (cs.dropWhile isDigitOrSeparator) := by
  have same : (fun c => !(c != '_') || isDigitOrSeparator c) = isDigitOrSeparator := by
    funext c
    by_cases separator : c = '_'
    · subst separator
      rfl
    · simp [separator]
  unfold withoutSeparators
  rw [List.takeWhile_filter, List.dropWhile_filter, same]
  exact ⟨rfl, rfl⟩

theorem head?_dropWhile_ne (cs : List Char) : (cs.dropWhile isDigitOrSeparator).head? ≠ some '_' := by
  intro separator
  have stops := List.head?_dropWhile_not isDigitOrSeparator cs
  rw [separator] at stops
  exact absurd stops (by decide)

theorem head?_withoutSeparators (first : cs.head? ≠ some '_') : (withoutSeparators cs).head? = cs.head? := by
  cases cs with
  | nil => rfl
  | cons c cs =>
    rw [withoutSeparators_cons (fun same => first (congrArg some same))]
    rfl

theorem withoutSeparators_eq_nil_iff (first : cs.head? ≠ some '_') : withoutSeparators cs = [] ↔ cs = [] := by
  rw [← List.head?_eq_none_iff, head?_withoutSeparators first, List.head?_eq_none_iff]

theorem signed_withoutSeparators (first : cs.head? ≠ some '_') :
    signed (withoutSeparators cs) = ((signed cs).1, withoutSeparators (signed cs).2) := by
  rcases signed_cases cs with ⟨sign, ds, signs, rfl, same⟩ | ⟨unsigned, same⟩
  · rw [same, withoutSeparators_cons (fun same => first (congrArg some same))]
    rcases signs with rfl | rfl
    · rfl
    · rfl
  · rw [same, signed_of_unsigned (by rwa [head?_withoutSeparators first])]

theorem fraction_withoutSeparators (first : cs.head? ≠ some '_') :
    fraction (withoutSeparators cs) = withoutSeparators (fraction cs) ∧
      (withoutSeparators cs).drop (fraction (withoutSeparators cs)).length =
        withoutSeparators (cs.drop (fraction cs).length) ∧
      (cs.drop (fraction cs).length).head? ≠ some '_' := by
  by_cases dot : cs.head? = some '.'
  · obtain ⟨ds, rfl⟩ := List.head?_eq_some_iff.1 dot
    have same : withoutSeparators ('.' :: ds) = '.' :: withoutSeparators ds := withoutSeparators_cons (by decide)
    obtain ⟨taken, dropped⟩ := takeWhile_withoutSeparators ds
    rw [same, (fraction_dot _).2, (fraction_dot _).2, (fraction_dot _).1, (fraction_dot _).1, taken, dropped,
      withoutSeparators_cons (by decide)]
    exact ⟨rfl, rfl, head?_dropWhile_ne ds⟩
  · rw [fraction_of_head? dot, fraction_of_head? (by rwa [head?_withoutSeparators first])]
    exact ⟨rfl, rfl, first⟩

/-- No separator is right after a character that is no digit. -/
def SeparatorsAfterDigits (text : List Char) : Prop :=
  ∀ c after, c :: '_' :: after <:+ text → c.isDigit = true

theorem SeparatorsAfterDigits.next {ds : List Char} (digits : SeparatorsAfterDigits cs) (suffix : c :: ds <:+ cs)
    (other : ¬ c.isDigit = true) : ds.head? ≠ some '_' := by
  intro separator
  obtain ⟨after, rfl⟩ := List.head?_eq_some_iff.1 separator
  exact other (digits c after suffix)

/-- Where no separator stands first, the exponent is found at the same point without the separators. -/
theorem scanExponent_withoutSeparators (first : cs.head? ≠ some '_') (digits : SeparatorsAfterDigits cs) :
    (scanExponent (withoutSeparators cs)).1 = withoutSeparators (scanExponent cs).1 ∧
      (scanExponent (withoutSeparators cs)).2.2 = (scanExponent cs).2.2 ∧
      (withoutSeparators cs).drop (scanExponent (withoutSeparators cs)).2.1 =
        withoutSeparators (cs.drop (scanExponent cs).2.1) ∧
      (cs.drop (scanExponent cs).2.1).head? ≠ some '_' := by
  by_cases mark : ∃ c ∈ cs.head?, IsExponentMark c
  · obtain ⟨c, head, marks⟩ := mark
    obtain ⟨ds, rfl⟩ := List.head?_eq_some_iff.1 head
    -- neither the mark nor a sign is a digit, so the digits of the exponent do not begin with a separator
    have next : ds.head? ≠ some '_' := digits.next List.suffix_rfl (by rcases marks with rfl | rfl <;> decide)
    have unsigned : (signed ds).2.head? ≠ some '_' := by
      rcases signed_cases ds with ⟨sign, after, signs, rfl, same⟩ | ⟨-, same⟩
      · rw [same]
        exact digits.next (List.suffix_cons ..) (by rcases signs with rfl | rfl <;> decide)
      · rwa [same]
    rw [withoutSeparators_cons (fun same => first (congrArg some same)), drop_scanExponent marks,
      drop_scanExponent marks, scanExponent_mark marks, scanExponent_mark marks, signed_withoutSeparators next]
    obtain ⟨taken, dropped⟩ := takeWhile_withoutSeparators (signed ds).2
    dsimp only
    rw [taken, dropped]
    refine ⟨?_, ?_, rfl, head?_dropWhile_ne _⟩
    · have kept : withoutSeparators (signed ds).1 = (signed ds).1 := by
        rcases signed_cases ds with ⟨sign, after, rfl | rfl, rfl, same⟩ | ⟨-, same⟩
        all_goals
          rw [same]
          rfl
      rw [List.cons_append, List.cons_append, withoutSeparators_cons (by decide), withoutSeparators_append, kept]
    · have start : ((signed ds).2.takeWhile isDigitOrSeparator).head? ≠ some '_' := by
        rw [List.head?_takeWhile]
        intro separator
        exact unsigned (Option.filter_eq_some_iff.1 separator).1
      rw [Bool.eq_iff_iff, Bool.not_eq_true', Bool.not_eq_true', Bool.eq_false_iff, Bool.eq_false_iff,
        Ne, Ne, List.isEmpty_iff, List.isEmpty_iff, withoutSeparators_eq_nil_iff start]
  · have other : ∀ c ∈ cs.head?, ¬ IsExponentMark c := fun c head marks => mark ⟨c, head, marks⟩
    rw [scanExponent_of_head? other, scanExponent_of_head? (by rwa [head?_withoutSeparators first])]
    exact ⟨rfl, rfl, rfl, first⟩

/-- Without its separators, a decimal literal has the same parts without theirs. -/
theorem decimalParts_withoutSeparators (digits : SeparatorsAfterDigits cs) :
    decimalParts (withoutSeparators cs) =
      (withoutSeparators (decimalParts cs).1, (decimalParts cs).2.1, withoutSeparators (decimalParts cs).2.2) ∧
      (decimalParts cs).2.2.head? ≠ some '_' := by
  obtain ⟨taken, dropped⟩ := takeWhile_withoutSeparators cs
  obtain ⟨tail, further, first⟩ := fraction_withoutSeparators (head?_dropWhile_ne cs)
  have within : (cs.dropWhile isDigitOrSeparator).drop (fraction (cs.dropWhile isDigitOrSeparator)).length <:+ cs :=
    (List.drop_suffix _ _).trans (List.dropWhile_suffix _)
  obtain ⟨exponent, complete, rest, ends⟩ :=
    scanExponent_withoutSeparators first fun c after suffix => digits c after (suffix.trans within)
  refine ⟨?_, ends⟩
  unfold decimalParts
  dsimp only
  rw [taken, dropped, further, tail, exponent, complete, rest, withoutSeparators_append, withoutSeparators_append]

/-! ## Separators between digits -/

theorem startsNumber_cons (c : Char) (cs : List Char) :
    startsNumber (c :: cs) = if c = '.' then cs.head?.any Char.isDigit else c.isDigit := by
  by_cases dot : c = '.'
  · subst dot
    cases cs with
    | nil => rfl
    | cons d ds => rfl
  · rw [if_neg dot]
    unfold startsNumber
    split
    · next same => exact absurd (List.cons.inj same).1 dot
    · next same => rw [(List.cons.inj same).1]
    · next same => cases same

theorem startsNumber_withoutSeparators (first : cs.head? ≠ some '_') (digits : SeparatorsAfterDigits cs) :
    startsNumber (withoutSeparators cs) = startsNumber cs := by
  cases cs with
  | nil => rfl
  | cons c cs =>
    rw [withoutSeparators_cons (fun same => first (congrArg some same)), startsNumber_cons, startsNumber_cons]
    by_cases dot : c = '.'
    · have next : cs.head? ≠ some '_' := digits.next List.suffix_rfl (by rw [dot]; decide)
      rw [head?_withoutSeparators next]
    · rw [if_neg dot, if_neg dot]

theorem lowerMark_decimal (part : isDecimalPart c = true) :
    ((lowerMark c).isAlphanum = true ∧ lowerMark c ≠ 'e' ↔ LeadsSeparator 10 c) ∧
      ((lowerMark c).isAlphanum = true ↔ FollowsSeparator 10 c) := by
  unfold LeadsSeparator FollowsSeparator
  rw [isDigitOf_ten, and_iff_right rfl]
  simp only [isDecimalPart, isDigitOrSeparator, Bool.or_eq_true, decide_eq_true_eq] at part
  rcases part with (((((digit | rfl) | rfl) | rfl) | rfl) | rfl) | rfl
  · have same : lowerMark c = c := if_neg (by rintro rfl; cases digit)
    have other : c ≠ 'e' := by
      rintro rfl
      cases digit
    simp [same, isAlphanum_iff, digit, other]
  all_goals
    unfold IsExponentMark
    decide

/-- The separators of a decimal literal that is read up to the end of the text fit if they stand between digits, or
before the mark of an exponent. -/
theorem separatorsFit_decimal (parts : ∀ c ∈ text, isDecimalPart c = true) (ends : (decimalParts text).2.2 = []) :
    separatorsFit none (decimalParts text).1 = true ↔
      SeparatorsBetween (LeadsSeparator 10) (FollowsSeparator 10) text := by
  have raw : (decimalParts text).1 = text.map lowerMark := by
    have same := decimalParts_append text
    rwa [ends, List.map_nil, List.append_nil] at same
  rw [raw, separatorsFit_iff, SeparatorsBetween.map_iff fun _ => lowerMark_eq_separator_iff]
  exact SeparatorsBetween.congr (fun c mem => (lowerMark_decimal (parts c mem)).1) fun c mem =>
    (lowerMark_decimal (parts c mem)).2

/-- Where the separators of a decimal literal may stand, and that they do not matter there. -/
theorem isNumber_decimal_iff (parts : ∀ c ∈ text, isDecimalPart c = true) :
    IsNumber text x ↔ SeparatorsBetween (LeadsSeparator 10) (FollowsSeparator 10) text ∧
      IsNumber (withoutSeparators text) x := by
  rw [isNumber_decimal parts, isNumber_decimal fun c mem => parts c (mem_withoutSeparators.1 mem).1]
  have digits (between : SeparatorsBetween (LeadsSeparator 10) (FollowsSeparator 10) text) :
      SeparatorsAfterDigits text := fun c after suffix => isDigitOf_ten.1 (between.before suffix).1
  constructor
  · rintro ⟨starts, complete, fits, ends, value⟩
    have between := (separatorsFit_decimal parts ends).1 fits
    -- nothing is left of the text, so nothing is left of it without the separators
    rw [(decimalParts_withoutSeparators (digits between)).1,
      startsNumber_withoutSeparators between.head? (digits between), withoutSeparators_twice, ends]
    exact ⟨between, starts, complete, separatorsFit_withoutSeparators _, rfl, value⟩
  · rintro ⟨between, starts, complete, -, ends, value⟩
    obtain ⟨same, next⟩ := decimalParts_withoutSeparators (digits between)
    rw [same] at complete ends value
    rw [startsNumber_withoutSeparators between.head? (digits between)] at starts
    rw [withoutSeparators_twice] at value
    -- what is left does not begin with a separator, so it is not made of separators alone
    have ends := (withoutSeparators_eq_nil_iff next).1 ends
    exact ⟨starts, complete, (separatorsFit_decimal parts ends).2 between, ends, value⟩

/-- Where the separators of a literal with a mark may stand, and that they do not matter there. -/
theorem isNumber_marked_iff {mark : Char} {digits : List Char} (marks : Number.radixMark? mark = some radix)
    (parts : ∀ c ∈ digits, c = '_' ∨ IsDigitOf radix c) :
    IsNumber ('0' :: mark :: digits) x ↔
      SeparatorsBetween (LeadsSeparator radix) (FollowsSeparator radix) ('0' :: mark :: digits) ∧
        IsNumber (withoutSeparators ('0' :: mark :: digits)) x := by
  obtain ⟨letter, other, apart, -⟩ := radixMark?_letter marks
  have named : mark ≠ '_' := by
    rintro rfl
    exact absurd letter (by decide)
  have fewer : ∀ c ∈ withoutSeparators digits, c = '_' ∨ IsDigitOf radix c := fun c mem =>
    parts c (mem_withoutSeparators.1 mem).1
  have fits : separatorsFit none digits = true ↔
      SeparatorsBetween (LeadsSeparator radix) (FollowsSeparator radix) ('0' :: mark :: digits) := by
    -- no separator comes right after the zero, and the mark is no digit
    have afterZero : (mark :: digits).head? ≠ some '_' := fun same => named (Option.some.inj same)
    rw [separatorsFit_iff, SeparatorsBetween.cons_iff (by decide) fun next => absurd next afterZero,
      SeparatorsBetween.cons_iff named fun _ leads => other leads.1]
    have digit : ∀ c ∈ digits, c.isAlphanum = true ↔ IsDigitOf radix c := fun c mem =>
      ⟨fun letter => (parts c mem).resolve_left (by rintro rfl; exact absurd letter (by decide)),
        isAlphanum_of_isDigitOf⟩
    refine SeparatorsBetween.congr (fun c mem => and_congr_left' (digit c mem)) fun c mem => ?_
    rw [digit c mem]
    exact ⟨.inl, fun follows => follows.resolve_right fun both => apart both.1⟩
  rw [withoutSeparators_cons (by decide), withoutSeparators_cons named, isNumber_marked digits marks parts,
    isNumber_marked _ marks fewer, separatorsFit_withoutSeparators, withoutSeparators_twice, fits, and_iff_right rfl]

/-- Where no separator is misjudged, the check allows those between digits. -/
theorem separatorsBetween_digits (spelling : Spelling radix text) (none : ¬ MisjudgedSeparator radix text) :
    SeparatorsBetween (LeadsSeparator radix) (FollowsSeparator radix) text ↔
      SeparatorsBetween (IsDigitOf radix) (IsDigitOf radix) text := by
  constructor
  · intro between before after split
    obtain ⟨⟨b, last, leads⟩, a, next, follows⟩ := between before after split
    refine ⟨⟨b, last, leads.1⟩, a, next, follows.resolve_right ?_⟩
    rintro ⟨ten, mark⟩
    obtain ⟨tail, rfl⟩ := List.head?_eq_some_iff.1 next
    refine none (.inr ⟨ten, a, mark, before, tail, ?_⟩)
    rw [split, List.append_assoc]
    rfl
  · intro between before after split
    obtain ⟨⟨b, last, digit⟩, a, next, follows⟩ := between before after split
    refine ⟨⟨b, last, digit, ?_⟩, a, next, .inl follows⟩
    rintro rfl
    obtain ⟨front, rfl⟩ := List.getLast?_eq_some_iff.1 last
    refine none (.inl ⟨?_, front, after, ?_⟩)
    · cases spelling with
      | decimal => exact absurd (isDigitOf_ten.1 digit) (by decide)
      | marked marks => exact (radixMark?_letter marks).2.2.2 digit
    · rw [split, List.append_assoc, List.append_assoc]
      rfl

/-- A text of the characters of numeric literals is one literal of a value exactly if its separators stand where the
check allows them and it is one of this value without them. Where it has no separator that the check misjudges, these
are the separators between two digits of the radix. -/
theorem isNumber_iff_separators (spelling : Spelling radix text) (x : Float) :
    (IsNumber text x ↔ SeparatorsBetween (LeadsSeparator radix) (FollowsSeparator radix) text ∧
        IsNumber (withoutSeparators text) x) ∧
      (¬ MisjudgedSeparator radix text → (IsNumber text x ↔
        SeparatorsBetween (IsDigitOf radix) (IsDigitOf radix) text ∧ IsNumber (withoutSeparators text) x)) := by
  have allowed : IsNumber text x ↔ SeparatorsBetween (LeadsSeparator radix) (FollowsSeparator radix) text ∧
      IsNumber (withoutSeparators text) x := by
    cases spelling with
    | decimal parts => exact isNumber_decimal_iff parts
    | marked marks parts => exact isNumber_marked_iff marks parts
  exact ⟨allowed, fun none => by rw [allowed, separatorsBetween_digits spelling none]⟩

/-- Between two digits that no check mistakes, a separator is allowed in a hexadecimal number, and the number is the one
without it. -/
theorem separated_hexadecimal : Spelling 16 "0xF_1".toList ∧ ¬ MisjudgedSeparator 16 "0xF_1".toList ∧
    ∃ x, IsNumber "0xF_1".toList x ∧ IsNumber "0xF1".toList x := by
  have spelling : Spelling 16 "0xF_1".toList := .marked rfl (List.all_iff_forall_prop.1 rfl)
  have judged : ¬ MisjudgedSeparator 16 "0xF_1".toList := by
    rintro (⟨-, misjudged⟩ | ⟨ten, -⟩)
    · exact absurd misjudged (by decide)
    · cases ten
  have between : SeparatorsBetween (IsDigitOf 16) (IsDigitOf 16) "0xF_1".toList :=
    .single ['0', 'x'] [] (by decide) (by decide) (by decide) (by decide)
  have number : ∃ x, IsNumber "0xF1".toList x :=
    ⟨_, (isNumber_marked ['F', '1'] rfl (List.all_iff_forall_prop.1 rfl)).2 ⟨rfl, rfl⟩⟩
  obtain ⟨x, number⟩ := number
  exact ⟨spelling, judged, x, ((isNumber_iff_separators spelling x).2 judged).2 ⟨between, number⟩, number⟩

/-- A separator before the mark of an exponent is accepted, and one between two hexadecimal digits is not. -/
theorem separators_misjudged :
    (Spelling 10 "1_e5".toList ∧ (∃ x, IsNumber "1_e5".toList x) ∧
      ¬ SeparatorsBetween (IsDigitOf 10) (IsDigitOf 10) "1_e5".toList) ∧
    (Spelling 16 "0xe_1".toList ∧ (∃ x, IsNumber "0xe1".toList x) ∧ (∀ x, ¬ IsNumber "0xe_1".toList x) ∧
      SeparatorsBetween (IsDigitOf 16) (IsDigitOf 16) "0xe_1".toList) := by
  have decimal : ∀ c ∈ "1_e5".toList, isDecimalPart c = true := List.all_eq_true.1 rfl
  have digits : ∀ c ∈ ['e', '_', '1'], c = '_' ∨ IsDigitOf 16 c := List.all_iff_forall_prop.1 rfl
  have number : ∃ x, IsNumber "0xe1".toList x :=
    ⟨_, (isNumber_marked ['e', '1'] rfl (List.all_iff_forall_prop.1 rfl)).2 ⟨rfl, rfl⟩⟩
  refine ⟨⟨.decimal decimal, ⟨_, (isNumber_decimal decimal).2 ⟨rfl, rfl, rfl, rfl, rfl⟩⟩, ?_⟩, .marked rfl digits,
    number, ?_, ?_⟩
  · intro between
    obtain ⟨-, a, next, digit⟩ := between ['1'] ['e', '5'] rfl
    cases next
    exact absurd digit (by decide)
  · intro x number
    exact absurd ((isNumber_marked ['e', '_', '1'] rfl digits).1 number).1 (by decide)
  · exact .single ['0', 'x'] [] (by decide) (by decide) (by decide) (by decide)

end Lexer

end BindScript
