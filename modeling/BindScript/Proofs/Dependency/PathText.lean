import Mathlib.Data.List.TakeWhile
import BindScript.Dependency.Path
import BindScript.Proofs.JsonText.Literal

/-!
# Paths read back

The text of a path is read as that path (`Path.parse?_text`), whatever its fixed keys are, as long as its root
and the variables among its keys are names. Each link is read up to where the text of the next one starts,
which no name goes on with. The paths that are read are such paths (`Path.named_of_parse?`), however the text
spells their keys, so writing a path that was read and reading it once more changes nothing.
-/

namespace BindScript.Dependency

open Text

/-- The root and the variables of the path are names that its text may spell out. -/
structure Path.Named (p : Path) : Prop where
  root : isIdentifier p.root = true
  keys : ∀ name ∈ p.keyNames, isIdentifier name = true

theorem Path.length_push (p : Path) (s : Segment) : (p.push s).length = p.length + 1 := by
  simp only [Path.length, Path.push, List.length_append, List.length_singleton]

/-! ## Characters -/

theorem isNamePart_stops : isNamePart '.' = false ∧ isNamePart '[' = false ∧ isNamePart ']' = false := by
  decide +kernel

/-- No name starts with a digit. -/
theorem isDigit_of_isNameStart {c : Char} (start : isNameStart c = true) : c.isDigit = false := by
  by_contra digit
  have digit : c.isDigit = true := eq_true_of_ne_false digit
  have range : 48 ≤ c.toNat ∧ c.toNat ≤ 57 := by
    simpa [Char.isDigit, UInt32.le_iff_toNat_le] using digit
  have ascii : c.toNat < 0x80 := by omega
  have letter : c.isAlpha = false := by
    show (decide (c.val ≥ 'A'.val ∧ c.val ≤ 'Z'.val) ||
      decide (c.val ≥ 'a'.val) && decide (c.val ≤ 'z'.val)) = false
    simp only [Bool.or_eq_false_iff, Bool.and_eq_false_iff, decide_eq_false_iff_not, ge_iff_le,
      UInt32.le_iff_toNat_le]
    have upper : ('A'.val).toNat = 65 := rfl
    have lower : ('a'.val).toNat = 97 := rfl
    have same : c.val.toNat = c.toNat := rfl
    omega
  have dollar : c ≠ '$' := by
    rintro rfl
    cases digit
  have underscore : c ≠ '_' := by
    rintro rfl
    cases digit
  simp [isNameStart, isAlphabetic, ascii, letter, dollar, underscore] at start

/-- The texts that may follow a name. -/
def StopsName (rest : List Char) : Prop :=
  ∀ c ∈ rest.head?, isNamePart c = false

theorem takeWhile_stops {p : Char → Bool} {cs rest : List Char} (all : ∀ c ∈ cs, p c = true)
    (stops : ∀ c ∈ rest.head?, p c = false) :
    (cs ++ rest).takeWhile p = cs ∧ (cs ++ rest).dropWhile p = rest := by
  have none : rest.takeWhile p = [] ∧ rest.dropWhile p = rest := by
    cases rest with
    | nil => exact ⟨rfl, rfl⟩
    | cons c rest =>
      have no := stops c rfl
      simp [no]
  rw [List.takeWhile_append_of_pos all, List.dropWhile_append_of_pos all, none.1, none.2, List.append_nil]
  exact ⟨rfl, rfl⟩

/-! ## Names and quoted keys -/

/-- A name is taken back from its own text. -/
theorem takeName?_append {name : String} (named : isIdentifier name = true) {rest : List Char}
    (stops : StopsName rest) : takeName? (name.toList ++ rest) = some (name, rest) := by
  unfold isIdentifier isName at named
  cases chars : name.toList with
  | nil =>
    rw [chars] at named
    cases named
  | cons c cs =>
    rw [chars] at named
    obtain ⟨start, parts⟩ := Bool.and_eq_true_iff.1 named
    obtain ⟨taken, left⟩ := takeWhile_stops (List.all_eq_true.1 parts) stops
    have text : String.ofList (c :: cs) = name := by rw [← chars, String.ofList_toList]
    simp only [List.cons_append, takeName?, if_pos start, taken, left, text]

theorem start_of_isIdentifier {name : String} (named : isIdentifier name = true) :
    ∃ c cs, name.toList = c :: cs ∧ isNameStart c = true := by
  unfold isIdentifier isName at named
  cases chars : name.toList with
  | nil =>
    rw [chars] at named
    cases named
  | cons c cs =>
    rw [chars] at named
    exact ⟨c, cs, rfl, (Bool.and_eq_true_iff.1 named).1⟩

theorem digits_of_isIndex {cs : List Char} (index : isIndex cs = true) :
    ∃ c more, cs = c :: more ∧ ∀ x ∈ c :: more, x.isDigit = true := by
  unfold isIndex at index
  split at index
  · cases index
  · exact ⟨'0', [], rfl, List.forall_mem_singleton.2 rfl⟩
  · cases index
  · next nonempty _ _ =>
    cases cs with
    | nil => exact absurd rfl nonempty
    | cons c more => exact ⟨c, more, rfl, List.all_eq_true.1 index⟩

theorem takeQuoted?_plain {c : Char} (quote : c ≠ '"') (backslash : c ≠ '\\') (rest : List Char) :
    takeQuoted? (c :: rest) = (takeQuoted? rest).map fun (quoted, rest) => (c :: quoted, rest) := by
  rw [takeQuoted?]
  · exact quote
  · exact fun _ _ same => absurd same backslash

theorem takeQuoted?_escape (c : Char) (rest : List Char) : takeQuoted? ('\\' :: c :: rest) =
    (takeQuoted? rest).map fun (quoted, rest) => ('\\' :: c :: quoted, rest) := by
  rw [takeQuoted?]

/-- The escapes of a quoted key are passed over as pairs, so its end is the quote that was written last. -/
theorem takeQuoted?_escaped (cs rest : List Char) :
    takeQuoted? (cs.flatMap JsonText.escapeChar ++ '"' :: rest) =
      some (cs.flatMap JsonText.escapeChar ++ ['"'], rest) := by
  have plain : ∀ more tail quoted rest, (∀ y ∈ more, y ≠ '"' ∧ y ≠ '\\') →
      takeQuoted? tail = some (quoted, rest) → takeQuoted? (more ++ tail) = some (more ++ quoted, rest) := by
    intro more tail quoted rest ordinary taken
    induction more with
    | nil => exact taken
    | cons y more ih =>
      obtain ⟨quote, backslash⟩ := ordinary y (List.mem_cons_self ..)
      have ih := ih fun y mem => ordinary y (List.mem_cons_of_mem _ mem)
      rw [List.cons_append, takeQuoted?_plain quote backslash, ih]
      rfl
  induction cs with
  | nil => rfl
  | cons c cs ih =>
    rw [List.flatMap_cons, List.append_assoc, List.append_assoc]
    rcases JsonText.escapeChar_cases c with ⟨same, quote, backslash, -⟩ | ⟨x, more, escaped, -, ordinary⟩
    · rw [same]
      refine plain [c] _ _ _ (fun y mem => ?_) ih
      rw [List.mem_singleton.1 mem]
      exact ⟨quote, backslash⟩
    · rw [escaped]
      simp only [List.cons_append, takeQuoted?_escape, plain more _ _ _ ordinary ih]
      rfl

/-! ## Links -/

/-- What stands between the brackets of a link, and how it is read up to the closing one. -/
theorem bracketed?_quote (key : String) (rest : List Char) :
    bracketed? ((JsonText.quote key).toList ++ ']' :: rest) = some (.property key, rest) := by
  have chars : (JsonText.quote key).toList = '"' :: (key.toList.flatMap JsonText.escapeChar ++ ['"']) :=
    String.toList_ofList
  have literal : String.ofList ('"' :: (key.toList.flatMap JsonText.escapeChar ++ ['"'])) = JsonText.quote key := rfl
  rw [chars, List.cons_append, List.append_assoc, List.singleton_append]
  simp only [bracketed?, takeQuoted?_escaped, literal, JsonText.parseString?_quote, closeBracket?, Option.bind_eq_bind,
    Option.bind_some]

/-- An index in brackets is read back as it is written, without quotes. -/
theorem bracketed?_index {key : String} (index : isIndex key.toList = true) (rest : List Char) :
    bracketed? (key.toList ++ ']' :: rest) = some (.property key, rest) := by
  obtain ⟨c, cs, chars, digits⟩ := digits_of_isIndex index
  have first : c.isDigit = true := digits c (List.mem_cons_self ..)
  have quote : c ≠ '"' := by
    rintro rfl
    cases first
  have stops : ∀ x ∈ (']' :: rest).head?, x.isDigit = false := by
    intro x mem
    cases mem
    rfl
  obtain ⟨taken, left⟩ := takeWhile_stops digits stops
  have text : String.ofList (c :: cs) = key := by rw [← chars, String.ofList_toList]
  rw [chars, List.cons_append]
  unfold bracketed?
  split
  case h_1 empty => cases empty
  case h_2 same => cases same; exact absurd rfl quote
  case h_3 same =>
    cases same
    rw [if_pos first, ← List.cons_append, taken, left, text]
    rfl

/-- A name in brackets is read back as a variable key. -/
theorem bracketed?_name {name : String} (named : isIdentifier name = true) (rest : List Char) :
    bracketed? (name.toList ++ ']' :: rest) = some (.nameKey name, rest) := by
  have stops : StopsName (']' :: rest) := by
    intro c mem
    cases mem
    exact isNamePart_stops.2.2
  have taken := takeName?_append named stops
  obtain ⟨c, cs, chars, start⟩ := start_of_isIdentifier named
  have quote : c ≠ '"' := by
    rintro rfl
    exact absurd start (by decide +kernel)
  have first : ¬ c.isDigit = true := by
    rw [isDigit_of_isNameStart start]
    exact Bool.false_ne_true
  rw [chars, List.cons_append] at taken ⊢
  unfold bracketed?
  split
  case h_1 empty => cases empty
  case h_2 same => cases same; exact absurd rfl quote
  case h_3 same =>
    cases same
    rw [if_neg first, taken]
    rfl

/-- A link is read up to where the next one starts. -/
theorem parseSegment?_text {s : Segment} (named : ∀ name, s = .nameKey name → isIdentifier name = true)
    {rest : List Char} (stops : StopsName rest) :
    parseSegment? (s.text.toList ++ rest) = some (s, rest) := by
  have bracket : ∀ inside : String,
      ("[" ++ inside ++ "]").toList ++ rest = '[' :: (inside.toList ++ ']' :: rest) := by
    intro inside
    simp
  cases s with
  | property key =>
    by_cases dotted : isIdentifier key = true
    · have text : (Segment.property key).text.toList = '.' :: key.toList := by
        simp [Segment.text, dotted]
      rw [text, List.cons_append, parseSegment?, takeName?_append dotted stops]
      rfl
    · by_cases index : isIndex key.toList = true
      · have text : (Segment.property key).text = "[" ++ key ++ "]" := by
          simp [Segment.text, dotted, index]
        rw [text, bracket, parseSegment?, bracketed?_index index]
      · have text : (Segment.property key).text = "[" ++ JsonText.quote key ++ "]" := by
          simp [Segment.text, dotted, index]
        rw [text, bracket, parseSegment?, bracketed?_quote]
  | nameKey name =>
    rw [Segment.text, bracket, parseSegment?, bracketed?_name (named name rfl)]

/-! ## Paths -/

/-- A link is written after a point or in brackets. -/
theorem Segment.text_opens (s : Segment) : ∃ rest, s.text = "." ++ rest ∨ s.text = "[" ++ rest := by
  cases s with
  | property key =>
    unfold Segment.text
    dsimp only
    split
    · exact ⟨key, .inl rfl⟩
    · split
      · exact ⟨key ++ "]", .inr (String.append_assoc ..)⟩
      · exact ⟨JsonText.quote key ++ "]", .inr (String.append_assoc ..)⟩
  | nameKey name => exact ⟨name ++ "]", .inr (String.append_assoc ..)⟩

/-- Every link starts with a character that no name goes on with. -/
theorem Segment.text_starts (s : Segment) :
    ∃ c more, s.text.toList = c :: more ∧ isNamePart c = false := by
  obtain ⟨rest, opens | opens⟩ := s.text_opens
  · exact ⟨'.', rest.toList, by simp [opens], isNamePart_stops.1⟩
  · exact ⟨'[', rest.toList, by simp [opens], isNamePart_stops.2.1⟩

theorem stopsName_segments (segments : List Segment) :
    StopsName (segments.flatMap fun s => s.text.toList) := by
  intro c mem
  cases segments with
  | nil => cases mem
  | cons s rest =>
    obtain ⟨first, more, text, stops⟩ := s.text_starts
    rw [List.flatMap_cons, text, List.cons_append] at mem
    cases mem
    exact stops

/-- Segments are read back one by one: each begins with a point or a bracket, where the one before it has ended. -/
theorem parseSegments?_text (segments : List Segment)
    (named : ∀ name, .nameKey name ∈ segments → isIdentifier name = true) :
    parseSegments? (segments.flatMap fun s => s.text.toList) = some segments := by
  induction segments with
  | nil => 
    unfold parseSegments?
    rfl
  | cons s rest ih =>
    have here : parseSegment? (s.text.toList ++ rest.flatMap fun s => s.text.toList) = some (s, _) :=
      parseSegment?_text (fun name same => named name (same ▸ List.mem_cons_self ..)) (stopsName_segments rest)
    have later := ih fun name mem => named name (List.mem_cons_of_mem _ mem)
    obtain ⟨c, more, text, -⟩ := s.text_starts
    have nonempty : (s.text.toList ++ rest.flatMap fun s => s.text.toList).isEmpty = false := by
      rw [text]
      rfl
    rw [List.flatMap_cons, parseSegments?, nonempty, if_neg Bool.false_ne_true]
    split
    · next none => cases here.symm.trans none
    · next some =>
      cases here.symm.trans some
      rw [later]
      rfl

/-- **A path is read back from its text.** -/
theorem Path.parse?_text {p : Path} (named : p.Named) : Path.parse? p.text = some p := by
  have text : p.text.toList = p.root.toList ++ p.segments.flatMap fun s => s.text.toList := by
    rw [Path.text, String.toList_append, String.toList_join, List.flatMap_map]
  have segments := parseSegments?_text p.segments fun name mem =>
    named.keys name (List.mem_filterMap.2 ⟨_, mem, rfl⟩)
  unfold Path.parse?
  simp only [text, takeName?_append named.root (stopsName_segments _), segments, Option.bind_eq_bind, Option.bind_some]
  rfl

/-! ## Paths that are read -/

/-- The characters that are taken for a name make one. -/
theorem isIdentifier_of_takeName? {cs rest : List Char} {name : String} (taken : takeName? cs = some (name, rest)) :
    isIdentifier name = true := by
  cases cs with
  | nil => cases taken
  | cons c cs =>
    simp only [takeName?] at taken
    by_cases start : isNameStart c = true
    · rw [if_pos start] at taken
      cases taken
      have parts : (cs.takeWhile isNamePart).all isNamePart = true :=
        List.all_eq_true.2 fun _ mem => List.mem_takeWhile_imp mem
      simp only [isIdentifier, isName, String.toList_ofList, start, parts, Bool.and_self]
    · rw [if_neg start] at taken
      cases taken

theorem eq_of_closeBracket? {s t : Segment} {cs rest : List Char} (closed : closeBracket? s cs = some (t, rest)) :
    t = s := by
  unfold closeBracket? at closed
  split at closed
  · cases closed
    rfl
  · cases closed

/-- A variable that a link reads its key from is spelt by a name. -/
theorem isIdentifier_of_parseSegment? {name : String} {cs rest : List Char}
    (parsed : parseSegment? cs = some (.nameKey name, rest)) : isIdentifier name = true := by
  unfold parseSegment? at parsed
  split at parsed
  · obtain ⟨_, _, same⟩ := Option.map_eq_some_iff.1 parsed
    cases same
  · unfold bracketed? at parsed
    split at parsed
    · cases parsed
    · -- a key in quotes is fixed
      obtain ⟨_, _, parsed⟩ := Option.bind_eq_some_iff.1 parsed
      obtain ⟨_, _, closed⟩ := Option.bind_eq_some_iff.1 parsed
      cases eq_of_closeBracket? closed
    · split at parsed
      · cases eq_of_closeBracket? parsed
      · obtain ⟨_, taken, closed⟩ := Option.bind_eq_some_iff.1 parsed
        cases eq_of_closeBracket? closed
        exact isIdentifier_of_takeName? taken
  · cases parsed

/-- The keys that are read as names are identifiers. -/
theorem isIdentifier_of_parseSegments? {cs : List Char} {segments : List Segment}
    (parsed : parseSegments? cs = some segments) {name : String} (mem : .nameKey name ∈ segments) :
    isIdentifier name = true := by
  fun_induction parseSegments? cs generalizing segments with
  | case1 =>
    cases parsed
    cases mem
  | case2 => cases parsed
  | case3 cs _ s rest here ih =>
    obtain ⟨later, read, rfl⟩ := Option.map_eq_some_iff.1 parsed
    rcases List.mem_cons.1 mem with rfl | mem
    · exact isIdentifier_of_parseSegment? here
    · exact ih read mem

/-- The root and the variables of a path that is read are names. -/
theorem Path.named_of_parse? {text : String} {p : Path} (parsed : Path.parse? text = some p) : p.Named := by
  obtain ⟨⟨root, rest⟩, taken, parsed⟩ := Option.bind_eq_some_iff.1 parsed
  obtain ⟨segments, read, same⟩ := Option.bind_eq_some_iff.1 parsed
  cases same
  refine ⟨isIdentifier_of_takeName? taken, fun name mem => ?_⟩
  obtain ⟨s, mem, key⟩ := List.mem_filterMap.1 mem
  cases s with
  | property => cases key
  | nameKey =>
    cases key
    exact isIdentifier_of_parseSegments? read mem

/-- **Paths survive writing and reading.** A path whose root and variables are names is read back from its text,
two such paths with the same text are the same, and a path that was read from some text is read back from its
own. -/
theorem Path.survives_text :
    (∀ p : Path, p.Named → Path.parse? p.text = some p) ∧
      (∀ p q : Path, p.Named → q.Named → p.text = q.text → p = q) ∧
      ∀ (text : String) (p : Path), Path.parse? text = some p → Path.parse? p.text = some p := by
  refine ⟨fun p named => Path.parse?_text named, fun p q named named' same => ?_, fun text p parsed => ?_⟩
  · have read : Path.parse? p.text = some q := same ▸ Path.parse?_text named'
    exact Option.some.inj ((Path.parse?_text named).symm.trans read)
  · exact Path.parse?_text (Path.named_of_parse? parsed)

/-- A path whose key has a leading zero, which is written in quotes, and text that spells this key without them. -/
theorem Path.survives_text_zeros :
    let p : Path := { root := "a", segments := [.property "007", .nameKey "i", .property "]\""] }
    Path.parse? p.text = some p ∧ (∀ q : Path, q.Named → p.text = q.text → p = q) ∧
      p.text = "a[\"007\"][i][\"]\\\"\"]" ∧
      ∃ q, Path.parse? "a[007]" = some q ∧ Path.parse? q.text = some q := by
  intro p
  have named : p.Named := by
    refine ⟨by decide +kernel, fun name mem => ?_⟩
    rw [List.mem_singleton.1 (show name ∈ ["i"] from mem)]
    decide +kernel
  have unquoted : Path.parse? "a[007]" = some { root := "a", segments := [.property "007"] } := by
    have root : takeName? "a[007]".toList = some ("a", "[007]".toList) := by decide +kernel
    have link : parseSegment? "[007]".toList = some (.property "007", []) := by decide +kernel
    have links : parseSegments? "[007]".toList = some [.property "007"] := by
      have more : "[007]".toList.isEmpty = false := by decide +kernel
      rw [parseSegments?, more, if_neg Bool.false_ne_true]
      split
      · next none => cases link.symm.trans none
      · next some =>
        cases link.symm.trans some
        rw [parseSegments?]
        rfl
    simp only [Path.parse?, root, links, Option.bind_eq_bind, Option.bind_some]
    rfl
  exact ⟨Path.survives_text.1 p named, fun q => Path.survives_text.2.1 p q named, by decide +kernel,
    _, unquoted, Path.survives_text.2.2 _ _ unquoted⟩

end BindScript.Dependency
