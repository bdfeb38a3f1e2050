import BindScript.Proofs.Dependency.Merge
import BindScript.Proofs.Parsing.Words

/-!
# Which dependencies are read back

Every dependency of an accepted source is the text of a path whose names are words of the source and whose root is
a top-level name (`Resolution.Recorded`): the walk adds dependencies only together with their root, and it never
takes a name out. A name in a dependency path may not have a zero-width joiner, though, and a word of a script
may. So a dependency is read back just if no name in it has one (`readsBack_iff`); reading `a\u200db` stops after
the first letter, in front of something that is no link (`joined_unread`).
-/

namespace BindScript

open Dependency Text

namespace Dependency

/-! ## Names with joiners -/

/-- The name has neither of the two zero-width joiners. -/
def Joinerless (name : String) : Prop :=
  '\u200c' ∉ name.toList ∧ '\u200d' ∉ name.toList

theorem isNamePart_joiner : isNamePart '\u200c' = false ∧ isNamePart '\u200d' = false := by
  decide +kernel

/-- The words that a dependency path may spell out are those without joiners. -/
theorem isIdentifier_iff {name : String} (word : isWord name = true) :
    isIdentifier name = true ↔ Joinerless name := by
  unfold isWord at word
  unfold isIdentifier isName Joinerless
  cases chars : name.toList with
  | nil =>
    rw [chars] at word
    cases word
  | cons c cs =>
    rw [chars] at word
    obtain ⟨start, parts⟩ := Bool.and_eq_true_iff.1 word
    -- the two joiners are all that the parts of a word have and those of an identifier have not
    have noStart : isNameStart '\u200c' = false ∧ isNameStart '\u200d' = false := by decide +kernel
    have first : ∀ joiner, isNameStart joiner = false → joiner ≠ c := by
      rintro joiner no rfl
      rw [start] at no
      cases no
    simp only [start, Bool.true_and, List.mem_cons, not_or, List.all_eq_true]
    constructor
    · intro named
      have absent : ∀ joiner, isNamePart joiner = false → joiner ∉ cs := by
        intro joiner no mem
        rw [named joiner mem] at no
        cases no
      exact ⟨⟨first _ noStart.1, absent _ isNamePart_joiner.1⟩, first _ noStart.2,
        absent _ isNamePart_joiner.2⟩
    · rintro ⟨⟨-, left⟩, -, right⟩ x mem
      have part := List.all_eq_true.1 parts x mem
      simp only [isWordPart, Bool.or_eq_true, decide_eq_true_eq] at part
      rcases part with (part | rfl) | rfl
      · exact part
      · exact absurd mem left
      · exact absurd mem right

/-- Taking a word with a joiner off the front stops in front of a character that is no part of a path. -/
theorem takeName?_word {name : String} (word : isWord name = true) (joined : isIdentifier name = false)
    (rest : List Char) : ∃ taken c more, takeName? (name.toList ++ rest) = some (taken, c :: more) ∧
      c ≠ '.' ∧ c ≠ '[' ∧ c ≠ ']' := by
  unfold isWord at word
  unfold isIdentifier isName at joined
  cases chars : name.toList with
  | nil =>
    rw [chars] at word
    cases word
  | cons first cs =>
    rw [chars] at word joined
    obtain ⟨start, parts⟩ := Bool.and_eq_true_iff.1 word
    dsimp only at joined
    replace joined : cs.all isNamePart = false := by rwa [start, Bool.true_and] at joined
    -- the character that stops the name is one of its own
    have stops : ∃ c more, (cs ++ rest).dropWhile isNamePart = c :: more ∧ c ∈ cs ∧ isNamePart c = false := by
      clear parts word chars start
      induction cs with
      | nil => cases joined
      | cons c cs ih =>
        cases part : isNamePart c with
        | false => exact ⟨c, cs ++ rest, by simp [part], List.mem_cons_self .., part⟩
        | true =>
          simp only [List.all_cons, part, Bool.true_and] at joined
          obtain ⟨d, more, left, mem, no⟩ := ih joined
          exact ⟨d, more, by simpa [part] using left, List.mem_cons_of_mem _ mem, no⟩
    obtain ⟨c, more, left, mem, no⟩ := stops
    have part := List.all_eq_true.1 parts c mem
    simp only [isWordPart, no, Bool.false_or, Bool.or_eq_true, decide_eq_true_eq] at part
    refine ⟨_, c, more, by rw [List.cons_append, takeName?, if_pos start, left], ?_⟩
    rcases part with rfl | rfl <;> decide

/-- A segment starts with a dot or a bracket, or there is none. -/
theorem parseSegments?_stuck {c : Char} (dot : c ≠ '.') (bracket : c ≠ '[') (more : List Char) :
    parseSegments? (c :: more) = none := by
  have stuck : parseSegment? (c :: more) = none := by
    unfold parseSegment?
    split
    · next same => exact absurd (List.cons.inj same).1 dot
    · next same => exact absurd (List.cons.inj same).1 bracket
    · rfl
  rw [parseSegments?, List.isEmpty_cons, if_neg Bool.false_ne_true]
  split
  · rfl
  · next found => cases stuck.symm.trans found

/-- A variable key with a joiner is not taken up to its closing bracket. -/
theorem parseSegment?_joined {name : String} (word : isWord name = true) (joined : isIdentifier name = false)
    (rest : List Char) : parseSegment? ((Segment.nameKey name).text.toList ++ rest) = none := by
  obtain ⟨taken, c, more, takes, -, -, close⟩ := takeName?_word word joined (']' :: rest)
  have text : (Segment.nameKey name).text.toList ++ rest = '[' :: (name.toList ++ ']' :: rest) := by
    simp [Segment.text]
  rw [text, parseSegment?]
  unfold isWord at word
  cases chars : name.toList with
  | nil =>
    rw [chars] at word
    cases word
  | cons first cs =>
    rw [chars] at word
    have start := (Bool.and_eq_true_iff.1 word).1
    have quote : first ≠ '"' := by
      rintro rfl
      exact absurd start (by decide +kernel)
    have digit : ¬ first.isDigit = true := by
      rw [isDigit_of_isNameStart start]
      exact Bool.false_ne_true
    rw [chars, List.cons_append] at takes
    rw [List.cons_append]
    unfold bracketed?
    split
    case h_1 empty => cases empty
    case h_2 same => exact absurd (List.cons.inj same).1 quote
    case h_3 same =>
      cases same
      rw [if_neg digit, takes]
      -- the name that is taken stops before the joiner, and no bracket is closed there
      show closeBracket? (.nameKey taken) (c :: more) = none
      unfold closeBracket?
      split
      · next same => exact absurd (List.cons.inj same).1 close
      · rfl

/-- A key that holds a joiner cannot be read back, and with it the whole path cannot. Segments before it are read. -/
theorem parseSegments?_joined {segments : List Segment}
    (words : ∀ name, .nameKey name ∈ segments → isWord name = true)
    (joined : ∃ name, .nameKey name ∈ segments ∧ isIdentifier name = false) :
    parseSegments? (segments.flatMap fun s => s.text.toList) = none := by
  induction segments with
  | nil =>
    obtain ⟨_, mem, -⟩ := joined
    cases mem
  | cons s rest ih =>
    obtain ⟨c, more, text, -⟩ := s.text_starts
    have nonempty : (s.text.toList ++ rest.flatMap fun s => s.text.toList).isEmpty = false := by
      rw [text]
      rfl
    rw [List.flatMap_cons, parseSegments?, nonempty, if_neg Bool.false_ne_true]
    -- either this segment is read back and a later one is stuck, or this one is stuck
    by_cases here : ∀ name, s = .nameKey name → isIdentifier name = true
    · have first : parseSegment? (s.text.toList ++ rest.flatMap fun s => s.text.toList) = some (s, _) :=
        parseSegment?_text here (stopsName_segments rest)
      obtain ⟨name, mem, no⟩ := joined
      have later : .nameKey name ∈ rest := by
        rcases List.mem_cons.1 mem with same | later
        · rw [here name same.symm] at no
          cases no
        · exact later
      split
      · rfl
      · next found =>
        cases first.symm.trans found
        rw [ih (fun name mem => words name (List.mem_cons_of_mem _ mem)) ⟨name, later, no⟩]
        rfl
    · push Not at here
      obtain ⟨name, rfl, no⟩ := here
      have stuck := parseSegment?_joined (words name (List.mem_cons_self ..)) (by simpa using no)
        (rest.flatMap fun s => s.text.toList)
      split
      · rfl
      · next found => cases stuck.symm.trans found

/-- A path of words with a joiner is not read back from its text. -/
theorem Path.parse?_joined {p : Path} (spelled : p.Spelled) (joined : ¬ p.Named) :
    Path.parse? p.text = none := by
  have text : p.text.toList = p.root.toList ++ p.segments.flatMap fun s => s.text.toList := by
    rw [Path.text, String.toList_append, String.toList_join, List.flatMap_map]
  unfold Path.parse?
  cases root : isIdentifier p.root with
  | false =>
    obtain ⟨taken, c, more, takes, dot, bracket, -⟩ := takeName?_word spelled.1 root
      (p.segments.flatMap fun s => s.text.toList)
    simp only [text, takes, Option.bind_eq_bind, Option.bind_some, parseSegments?_stuck dot bracket]
    rfl
  | true =>
    have mem_keyNames : ∀ name, .nameKey name ∈ p.segments → name ∈ p.keyNames := fun name mem =>
      List.mem_filterMap.2 ⟨_, mem, rfl⟩
    have segments : parseSegments? (p.segments.flatMap fun s => s.text.toList) = none := parseSegments?_joined
      (fun name mem => spelled.2 name (mem_keyNames name mem)) (by
        by_contra none
        push Not at none
        refine joined ⟨root, fun name key => ?_⟩
        obtain ⟨s, mem, same⟩ := List.mem_filterMap.1 key
        cases s with
        | property => cases same
        | nameKey =>
          cases same
          simpa using none name mem)
    simp only [text, takeName?_append root (stopsName_segments _), segments, Option.bind_eq_bind,
      Option.bind_some, Option.bind_none]

/-! ## What the walk records -/

/-- Every dependency is the text of a path that spells its names as scripts do, and whose root is a top-level
name. -/
def Resolution.Recorded (r : Resolution) : Prop :=
  ∀ d ∈ r.dependencies, ∃ p : Path, p.Spelled ∧ p.text = d ∧ p.root ∈ r.names.keys

theorem Resolution.Recorded.of_names {r r' : Resolution} (recorded : r.Recorded)
    (same : r'.dependencies = r.dependencies) (names : r.names.keys ⊆ r'.names.keys) : r'.Recorded := by
  intro d mem
  obtain ⟨p, spelled, text, root⟩ := recorded d (same ▸ mem)
  exact ⟨p, spelled, text, names root⟩

namespace Walk

variable {w : Walk}

/-- A path of words is recorded under its root with its own text. -/
theorem addDependency_recorded (recorded : w.found.Recorded) {p : Path} (spelled : p.Spelled) :
    (w.addDependency p.root p.text).found.Recorded := by
  have names := Entries.keys_insert_unless w.found.names p.root TopLevelName.free
  intro d mem
  rcases mem_insertNew.1 mem with mem | rfl
  · obtain ⟨q, qSpelled, text, root⟩ := recorded d mem
    exact ⟨q, qSpelled, text, names ▸ mem_insertNew.2 (.inl root)⟩
  · exact ⟨p, spelled, rfl, names ▸ mem_insertNew.2 (.inr rfl)⟩

/-- A visit that mentions nothing but words records paths of words. -/
theorem IsVisit.recorded {visit : Walk → Walk} (visits : IsVisit (isWord · = true) visit) :
    ∀ {w : Walk}, w.found.Recorded → (visit w).found.Recorded := by
  induction visits with
  | stay | rescope => exact id
  | next _ _ first later => exact later ∘ first
  | given _ _ ih => exact ih _ _
  | record path named =>
    exact fun recorded => addDependency_recorded recorded ⟨named _ (.inl rfl), fun n key => named n (.inr key)⟩
  | enter enters =>
    intro w recorded
    obtain ⟨names, entered, keys⟩ := enters w
    rw [entered]
    exact recorded.of_names rfl (keys ▸ fun _ mem => mem_insertNew.2 (.inl mem))
  | inScope _ _ ih => exact fun recorded => ih recorded
  | collectFor names _ ih =>
    exact fun {w} recorded => (ih (w := { w with sinks := [] :: w.sinks }) recorded).of_names rfl fun _ mem => mem

end Walk

/-! ## Trees of words -/

/-- The rule of trees whose names are words. -/
abbrev words : NodeRule :=
  .names (isWord · = true)

mutual

/-- The names that a pattern of words binds are words. -/
theorem boundNames_words : ∀ p : Pattern, p.Obeys words → ∀ n ∈ p.boundNames, isWord n = true
  | .name _, spelled => List.forall_mem_singleton.2 spelled
  | .array elements rest, spelled => by
    unfold Pattern.boundNames
    exact List.forall_mem_append.2 ⟨elementNames_words elements spelled.2.1, restNames_words rest spelled.2.2⟩
  | .object fields rest, spelled => by
    unfold Pattern.boundNames
    refine List.forall_mem_append.2 ⟨fieldNames_words fields spelled.2, ?_⟩
    cases rest with
    | none => exact nofun
    | some name => exact List.forall_mem_singleton.2 spelled.1

theorem elementNames_words : ∀ elements : List (Option Element), Pattern.ElementsObey words elements →
    ∀ n ∈ Pattern.elementNames elements, isWord n = true
  | [], _ => nofun
  | none :: more, spelled => elementNames_words more spelled
  | some (.mk target _) :: more, spelled => by
    unfold Pattern.elementNames
    exact List.forall_mem_append.2 ⟨boundNames_words target spelled.1.1, elementNames_words more spelled.2⟩

theorem restNames_words : ∀ rest : Option Pattern, Pattern.OptionObeys words rest →
    ∀ n ∈ Pattern.restNames rest, isWord n = true
  | none, _ => nofun
  | some p, spelled => boundNames_words p spelled

theorem fieldNames_words : ∀ fields : List Field, Field.AllObey words fields →
    ∀ n ∈ Pattern.fieldNames fields, isWord n = true
  | [], _ => nofun
  | .mk _ target _ :: more, spelled => by
    unfold Pattern.fieldNames
    exact List.forall_mem_append.2 ⟨boundNames_words target spelled.1.1, fieldNames_words more spelled.2⟩

end

/-- A tree of words mentions nothing but words. -/
theorem mentioning_words {x : Node} (spelled : x.Obeys words) : x.Obeys (.mentioning (isWord · = true)) := by
  refine Node.obeys_mentioning fun name mentions => ?_
  induction mentions with
  | name => exact spelled
  | assigned mem => exact boundNames_words _ spelled.2.1 name mem
  | part child _ ih => exact ih ((Node.obeys_iff.1 spelled).2 _ child)

/-! ## Sources -/

/-- The code is what is read from the source. -/
def Code.ReadFrom (source : String) : Code → Prop
  | .statements body => parseStatements source = .ok body
  | .expression e => parseExpr source = .ok e

/-- What is found in sources that are resolved one after another, each with a table of its own. -/
inductive Resolution.Found : Resolution → Prop
  | nothing : Found {}
  | next {known : Resolution} {source : String} {code : Code} (apis : TrackedApis) (before : known.Found)
      (read : code.ReadFrom source) : Found (resolve apis code known)

/-- Whatever has been resolved so far, all that is recorded are paths of words under top-level names. -/
theorem Resolution.Found.recorded {r : Resolution} (found : r.Found) : r.Recorded := by
  induction found with
  | nothing => exact nofun
  | @next known source code apis before read recorded =>
    cases code with
    | statements body =>
      have spelled := Stmt.allObey_iff.1 ((parsed_words source).2 body read)
      have named := Stmt.allObey_iff.2 fun s mem => mentioning_words (x := .stmt s) (spelled s mem)
      have visits := (Walk.IsVisit.hoistFunctions body).next (visitStmts_mentions body named)
      exact (Walk.IsVisit.inScope false visits).recorded recorded
    | expression e =>
      have named := mentioning_words (x := .expr e) ((parsed_words source).1 e read)
      exact (Walk.IsVisit.inScope false (visitExpr_mentions e named)).recorded recorded

/-- The dependency is read as a path whose text it is and whose root is a top-level name. -/
def Resolution.ReadsBack (r : Resolution) (dependency : String) : Prop :=
  ∃ p, Path.parse? dependency = some p ∧ p.text = dependency ∧ p.root ∈ r.names.keys

/-- Every dependency that is found in sources is the text of a path whose names are words, and it is read back as
this path just if none of these names has a joiner. -/
theorem readsBack_iff {r : Resolution} (found : r.Found) :
    ∀ d ∈ r.dependencies, ∃ p : Path, p.Spelled ∧ p.text = d ∧ p.root ∈ r.names.keys ∧
      (r.ReadsBack d ↔ ∀ n, p.Mentions n → Joinerless n) := by
  intro d mem
  obtain ⟨p, spelled, rfl, root⟩ := found.recorded d mem
  have word : ∀ n, p.Mentions n → isWord n = true := by
    rintro n (rfl | key)
    · exact spelled.1
    · exact spelled.2 n key
  have named : p.Named ↔ ∀ n, p.Mentions n → Joinerless n := by
    constructor
    · intro named n mentioned
      refine (isIdentifier_iff (word n mentioned)).1 ?_
      rcases mentioned with rfl | key
      · exact named.root
      · exact named.keys n key
    · intro joinerless
      exact ⟨(isIdentifier_iff spelled.1).2 (joinerless _ (.inl rfl)),
        fun n key => (isIdentifier_iff (spelled.2 n key)).2 (joinerless n (.inr key))⟩
  refine ⟨p, spelled, rfl, root, ?_⟩
  rw [← named]
  constructor
  · rintro ⟨q, read, -⟩
    by_contra joined
    cases (Path.parse?_joined spelled joined).symm.trans read
  · exact fun isNamed => ⟨p, Path.parse?_text isNamed, rfl, root⟩

/-! A chain with a quoted key and a variable one, from its source on. -/

/-- A key that is no name is written with quotes, and a path is recorded that can be read back like any other. -/
theorem quoted_readsBack : ∃ e, parseExpr "a.b['c d'][k]" = .ok e ∧
    (resolve {} (.expression e) {}).dependencies = ["a.b[\"c d\"][k]"] ∧
    ∀ d ∈ (resolve {} (.expression e) {}).dependencies, ∃ p : Path, p.Spelled ∧ p.text = d ∧
      p.root ∈ (resolve {} (.expression e) {}).names.keys ∧
      ((resolve {} (.expression e) {}).ReadsBack d ↔ ∀ n, p.Mentions n → Joinerless n) := by
  have found : (parseExpr "a.b['c d'][k]").toOption.map (fun e => (resolve {} (.expression e) {}).dependencies) =
      some ["a.b[\"c d\"][k]"] := by
    decide +kernel
  cases read : parseExpr "a.b['c d'][k]" with
  | error issue =>
    rw [read] at found
    cases found
  | ok e =>
    rw [read] at found
    exact ⟨e, rfl, Option.some.inj found, readsBack_iff (.next {} .nothing read)⟩

/-- The name `a\u200db` is a dependency of itself as an expression, and it is not read back. -/
theorem joined_unread : ¬ ∀ (apis : TrackedApis) (source : String) (e : Expr), parseExpr source = .ok e →
    ∀ d ∈ (resolve apis (.expression e) {}).dependencies, (resolve apis (.expression e) {}).ReadsBack d := by
  intro readsBack
  have found : (parseExpr "a\u200db").toOption.map (fun e => (resolve {} (.expression e) {}).dependencies) =
      some ["a\u200db"] := by
    decide +kernel
  cases read : parseExpr "a\u200db" with
  | error issue =>
    rw [read] at found
    cases found
  | ok e =>
    rw [read] at found
    have itself : (resolve {} (.expression e) {}).dependencies = ["a\u200db"] := Option.some.inj found
    obtain ⟨p, parsed, -⟩ := readsBack {} _ e read "a\u200db" (itself ▸ List.mem_singleton_self _)
    have word : isWord "a\u200db" = true ∧ isIdentifier "a\u200db" = false := by decide +kernel
    have text : ({ root := "a\u200db" } : Path).text = "a\u200db" := by simp [Path.text]
    have none := Path.parse?_joined (p := { root := "a\u200db" }) ⟨word.1, List.forall_mem_nil _⟩ fun named => by
      exact Bool.false_ne_true (word.2.symm.trans named.root)
    rw [text, parsed] at none
    cases none

end Dependency

end BindScript
