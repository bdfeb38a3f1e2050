import Mathlib.Data.List.Forall2
import BindScript.Proofs.Parsing.Scans
import BindScript.Value.Json

/-!
# The tokens of JSON text

A value made of `null`, booleans, strings, arrays and objects is a tree (`Heap.Shows`), whatever the addresses of
its containers are. Its JSON text, in any layout, is split into the tokens of that tree (`json_scans`): the
layouts differ in white space only, strings and keys are split off as they are, and what follows a value never
goes on with a word.
-/

namespace BindScript

open JsonText Lexer

/-- A value without numbers and functions, apart from the addresses of its containers. -/
inductive JsonText.Tree
  | null
  | bool (value : Bool)
  | string (value : String)
  | array (items : List Tree)
  | object (members : List (String × Tree))

/-- The value is the tree, with at most the given number of containers inside each other. Its containers are
there, and no key of an object stands twice. -/
def Heap.Shows (h : Heap) : Nat → Value → Tree → Prop
  | _, .null, .null => True
  | _, .bool b, .bool c => b = c
  | _, .string s, .string t => s = t
  | n + 1, .array a, .array items =>
    a < h.arrays.size ∧ List.Forall₂ (h.Shows n) (h.items a).toList items
  | n + 1, .object o, .object members =>
    o < h.objects.size ∧ (h.properties o).keys.Nodup ∧
      List.Forall₂ (fun entry member => entry.1 = member.1 ∧ h.Shows n entry.2 member.2)
        (h.properties o) members
  | _, _, _ => False

namespace JsonText.Tree

mutual

/-- The kinds of tokens that the tree is written with. -/
def kinds : Tree → List TokenKind
  | null => [.keyword .null]
  | bool true => [.keyword .true]
  | bool false => [.keyword .false]
  | string s => [.string s]
  | array [] => [.punct .openBracket, .punct .closeBracket]
  | array (t :: more) => .punct .openBracket :: (t.kinds ++ itemKinds more)
  | object [] => [.punct .openBrace, .punct .closeBrace]
  | object ((key, t) :: more) =>
    .punct .openBrace :: .string key :: .punct .colon :: (t.kinds ++ memberKinds more)

/-- The kinds of tokens of the items after the first, up to the closing bracket. -/
def itemKinds : List Tree → List TokenKind
  | [] => [.punct .closeBracket]
  | t :: more => .punct .comma :: (t.kinds ++ itemKinds more)

/-- The kinds of tokens of the members after the first, up to the closing brace. -/
def memberKinds : List (String × Tree) → List TokenKind
  | [] => [.punct .closeBrace]
  | (key, t) :: more => .punct .comma :: .string key :: .punct .colon :: (t.kinds ++ memberKinds more)

end

/-- The kinds of tokens of a member. -/
def memberKind (member : String × Tree) : List TokenKind :=
  .string member.1 :: .punct .colon :: member.2.kinds

theorem itemKinds_eq (items : List Tree) :
    itemKinds items = items.flatMap (fun t => .punct .comma :: t.kinds) ++ [.punct .closeBracket] := by
  induction items with
  | nil => simp [itemKinds]
  | cons t more ih => simp [itemKinds, ih]

theorem memberKinds_eq (members : List (String × Tree)) : memberKinds members =
    members.flatMap (fun m => .punct .comma :: memberKind m) ++ [.punct .closeBrace] := by
  induction members with
  | nil => simp [memberKinds]
  | cons m more ih =>
    obtain ⟨key, t⟩ := m
    simp [memberKinds, memberKind, ih]

end JsonText.Tree

/-! ## White space -/

/-- The characters are line breaks and spaces. -/
def IsGap (cs : List Char) : Prop :=
  ∀ c ∈ cs, c = ' ' ∨ c = '\n'

/-- What a layout puts before a line is white space. -/
theorem isGap_line (layout : JsonLayout) (level : Nat) : IsGap (layout.line level).toList := by
  cases layout with
  | compact => exact nofun
  | indented width =>
    have spaces : ∀ n, IsGap ("".pushn ' ' n).toList := by
      intro n
      induction n with
      | zero => exact nofun
      | succ n ih =>
        have text : "".pushn ' ' (n + 1) = ("".pushn ' ' n).push ' ' := rfl
        intro c mem
        rw [text, String.toList_push] at mem
        rcases List.mem_append.1 mem with mem | mem
        · exact ih c mem
        · exact .inl (List.mem_singleton.1 mem)
    intro c mem
    simp only [JsonLayout.line, String.toList_append, List.mem_append] at mem
    rcases mem with mem | mem
    · exact .inr (by simpa using mem)
    · exact spaces _ c mem

theorem colon_eq (layout : JsonLayout) : ∃ gap, IsGap gap ∧ layout.colon.toList = ':' :: gap := by
  cases layout with
  | compact => exact ⟨[], nofun, rfl⟩
  | indented width =>
    have text : ": ".toList = [':', ' '] := by decide
    exact ⟨[' '], List.forall_mem_singleton.2 (.inl rfl), text⟩

/-- A word does not go on with what follows a value. -/
theorem stopsWord_close {gap : List Char} (isGap : IsGap gap) {c : Char} {mark : Punct}
    (bracket : Scans.bracket? c = some mark) (rest : List Char) : StopsWord (gap ++ c :: rest) := by
  have marks : Text.isWordPart '[' = false ∧ Text.isWordPart ']' = false ∧ Text.isWordPart '\x7b' = false ∧
      Text.isWordPart '\x7d' = false ∧ Text.isWordPart ',' = false ∧ Text.isWordPart ':' = false := by
    decide +kernel
  have blanks : Text.isWordPart ' ' = false ∧ Text.isWordPart '\n' = false := by decide +kernel
  intro x mem
  cases gap with
  | nil =>
    cases mem
    unfold Scans.bracket? at bracket
    split at bracket
    case h_7 => cases bracket
    all_goals simp only [marks]
  | cons y gap =>
    cases mem
    rcases isGap x (List.mem_cons_self ..) with rfl | rfl
    · exact blanks.1
    · exact blanks.2

/-! ## Text -/

/-- In front of anything that no word goes on with, the text is split into tokens of these kinds. -/
def ScansAs (text : String) (kinds : List TokenKind) : Prop :=
  ∀ rest more, StopsWord rest → Scans rest more → Scans (text.toList ++ rest) (kinds ++ more)

/-- Texts with a comma and white space between them are split one after another. -/
theorem scans_intercalate {gap : List Char} (isGap : IsGap gap) {rest : List Char}
    {more : List TokenKind} (stops : StopsWord rest) (later : Scans rest more) :
    ∀ {text : String} {kinds : List TokenKind} {texts : List String} {each : List (List TokenKind)},
      ScansAs text kinds → List.Forall₂ ScansAs texts each →
      Scans ((',' :: gap).intercalate ((text :: texts).map String.toList) ++ rest)
        (kinds ++ (each.flatMap (fun kinds => .punct .comma :: kinds) ++ more))
  | text, kinds, [], _, first, .nil => by
    have single : (',' :: gap).intercalate ([text].map String.toList) = text.toList := by
      simp [List.intercalate]
    rw [single]
    exact first rest more stops later
  | text, kinds, text' :: texts, kinds' :: each, first, .cons second others => by
    have split : (',' :: gap).intercalate ((text :: text' :: texts).map String.toList) ++ rest =
        text.toList ++ ',' :: (gap ++
          ((',' :: gap).intercalate ((text' :: texts).map String.toList) ++ rest)) := by
      simp [List.intercalate_cons_cons]
    have next := scans_intercalate isGap stops later second others
    rw [split]
    refine first _ _ (stopsWord_close (show IsGap [] from nofun) rfl _) ?_
    have kinds_eq : (kinds' :: each).flatMap (fun kinds => .punct .comma :: kinds) ++ more =
        .punct .comma :: (kinds' ++ (each.flatMap (fun kinds => .punct .comma :: kinds) ++ more)) := by
      simp
    rw [kinds_eq]
    exact Scans.punct rfl (Scans.gaps isGap next)

/-- Items between brackets. -/
theorem enclose_scans (layout : JsonLayout) (level : Nat) {opening closing : Char} {start stop : Punct}
    (opens : Scans.bracket? opening = some start) (closes : Scans.bracket? closing = some stop)
    {texts : List String} {each : List (List TokenKind)} (items : List.Forall₂ ScansAs texts each) :
    ScansAs (layout.enclose level (.singleton opening) (.singleton closing) texts)
      (.punct start :: (match each with
        | [] => [.punct stop]
        | kinds :: each => kinds ++ (each.flatMap (fun kinds => .punct .comma :: kinds) ++ [.punct stop]))) := by
  intro rest more stops later
  have last : Scans (closing :: rest) (.punct stop :: more) := Scans.punct closes later
  cases items with
  | nil =>
    have text : (layout.enclose level (.singleton opening) (.singleton closing) []).toList ++ rest =
        opening :: closing :: rest := by
      simp [JsonLayout.enclose]
    rw [text]
    exact Scans.punct opens last
  | @cons text kinds texts each first others =>
    have chars : (layout.enclose level (.singleton opening) (.singleton closing) (text :: texts)).toList ++ rest =
        opening :: ((layout.line (level + 1)).toList ++
          ((',' :: (layout.line (level + 1)).toList).intercalate ((text :: texts).map String.toList) ++
            ((layout.line level).toList ++ closing :: rest))) := by
      simp [JsonLayout.enclose, String.toList_intercalate]
    rw [chars]
    have close := Scans.gaps (isGap_line layout level) last
    have stopped := stopsWord_close (isGap_line layout level) closes rest
    have inside := scans_intercalate (isGap_line layout (level + 1)) stopped close first others
    have whole := Scans.punct opens (Scans.gaps (isGap_line layout (level + 1)) inside)
    simpa using whole

/-- What holds of the text of one, holds of the texts of all. -/
theorem forall₂_of_mapM {α β : Type} {f : α → Option String} {R : α → β → Prop} {P : String → β → Prop}
    {as : List α} {bs : List β} {texts : List String} (related : List.Forall₂ R as bs)
    (written : as.mapM f = some texts) (one : ∀ a b text, R a b → f a = some text → P text b) :
    List.Forall₂ P texts bs := by
  induction related generalizing texts with
  | nil =>
    cases written
    exact .nil
  | cons head _ ih =>
    rw [List.mapM_cons] at written
    obtain ⟨text, here, written⟩ := Option.bind_eq_some_iff.1 written
    obtain ⟨texts, later, written⟩ := Option.bind_eq_some_iff.1 written
    cases written
    exact .cons (one _ _ text head here) (ih later)

namespace Heap

variable {h : Heap} {layout : JsonLayout} {n : Nat} {v : Value} {t : Tree}

theorem shows_null : h.Shows n .null .null := by
  unfold Shows
  trivial

theorem shows_bool (b : Bool) : h.Shows n (.bool b) (.bool b) := by
  unfold Shows
  rfl

theorem shows_string (s : String) : h.Shows n (.string s) (.string s) := by
  unfold Shows
  rfl

/-- What a value is that is a tree. -/
theorem Shows.cases (shows : h.Shows n v t) :
    (v = .null ∧ t = .null) ∨ (∃ b, v = .bool b ∧ t = .bool b) ∨ (∃ s, v = .string s ∧ t = .string s) ∨
      (∃ m a items, n = m + 1 ∧ v = .array a ∧ t = .array items ∧ a < h.arrays.size ∧
        List.Forall₂ (h.Shows m) (h.items a).toList items) ∨
      ∃ m o members, n = m + 1 ∧ v = .object o ∧ t = .object members ∧ o < h.objects.size ∧
        (h.properties o).keys.Nodup ∧
        List.Forall₂ (fun entry member => entry.1 = member.1 ∧ h.Shows m entry.2 member.2)
          (h.properties o) members := by
  unfold Shows at shows
  split at shows
  · exact .inl ⟨rfl, rfl⟩
  · next b c =>
    obtain rfl : b = c := shows
    exact .inr (.inl ⟨b, rfl, rfl⟩)
  · next s s' =>
    obtain rfl : s = s' := shows
    exact .inr (.inr (.inl ⟨s, rfl, rfl⟩))
  · exact .inr (.inr (.inr (.inl ⟨_, _, _, rfl, rfl, rfl, shows⟩)))
  · exact .inr (.inr (.inr (.inr ⟨_, _, _, rfl, rfl, rfl, shows⟩)))
  · exact shows.elim

/-- A value that is a tree is nothing that JSON text leaves out. -/
theorem Shows.not_omitted (shows : h.Shows n v t) : v.isOmitted = false := by
  rcases shows.cases with ⟨rfl, -⟩ | ⟨_, rfl, -⟩ | ⟨_, rfl, -⟩ | ⟨_, _, _, -, rfl, -⟩ | ⟨_, _, _, -, rfl, -⟩ <;> rfl

/-- A tree leaves nothing out. -/
theorem filter_of_shows {entries : Entries Value} {members : List (String × Tree)}
    (each : List.Forall₂ (fun entry member => entry.1 = member.1 ∧ h.Shows n entry.2 member.2) entries members) :
    entries.filter (fun entry => !entry.2.isOmitted) = entries := by
  have kept := (List.forall₂_and_left _ _).1 (each.imp fun entry member same =>
    (⟨same.2.not_omitted, trivial⟩ : entry.2.isOmitted = false ∧ True))
  refine List.filter_eq_self.2 fun entry mem => ?_
  rw [kept.1 entry mem]
  rfl

/-- A tree has the keys of the value, in their order. -/
theorem keys_eq_of_shows {entries : Entries Value} {members : List (String × Tree)}
    (each : List.Forall₂ (fun entry member => entry.1 = member.1 ∧ h.Shows n entry.2 member.2) entries members) :
    entries.keys = Entries.keys members := by
  induction each with
  | nil => rfl
  | cons same _ ih => rw [Entries.keys, List.map_cons, same.1, Entries.keys, List.map_cons, ← Entries.keys, ih,
      ← Entries.keys]

/-- The text of a value is split into the tokens of the tree that it is. -/
theorem jsonAt_scans (shows : h.Shows n v t) {left level : Nat} {text : String}
    (written : h.jsonAt layout left level v = some text) : ScansAs text t.kinds := by
  have constant (word : Keyword) : ScansAs word.spelling [.keyword word] := fun _ _ stops later =>
    later.keyword word stops
  induction n using Nat.strongRecOn generalizing v t left level text with
  | ind n ih =>
  obtain ⟨left, rfl⟩ : ∃ below, left = below + 1 := by
    cases left with
    | zero => cases written
    | succ left => exact ⟨left, rfl⟩
  rcases shows.cases with ⟨rfl, rfl⟩ | ⟨b, rfl, rfl⟩ | ⟨s, rfl, rfl⟩ | ⟨m, a, items, rfl, rfl, rfl, -, each⟩ |
    ⟨m, o, members, rfl, rfl, rfl, -, -, each⟩
  · cases written
    exact constant .null
  · cases written
    cases b
    · exact constant .false
    · exact constant .true
  · cases written
    exact fun _ _ _ later => Scans.string s later
  · obtain ⟨texts, inside, written⟩ := Option.bind_eq_some_iff.1 written
    cases written
    have scanned : List.Forall₂ (fun text t => ScansAs text t.kinds) texts items :=
      forall₂_of_mapM each inside fun v t text shows written => ih m (Nat.lt_succ_self m) shows written
    have enclosed := enclose_scans layout level (show Scans.bracket? '[' = some .openBracket from rfl)
      (show Scans.bracket? ']' = some .closeBracket from rfl)
      (List.forall₂_map_right_iff.2 scanned)
    cases items with
    | nil => exact enclosed
    | cons t more =>
      rw [Tree.kinds, Tree.itemKinds_eq, ← List.flatMap_map]
      exact enclosed
  · obtain ⟨texts, inside, written⟩ := Option.bind_eq_some_iff.1 written
    cases written
    rw [filter_of_shows each] at inside
    have scanned : List.Forall₂ (fun text member => ScansAs text (Tree.memberKind member)) texts members := by
      refine forall₂_of_mapM each inside fun entry member text same written => ?_
      obtain ⟨key, v⟩ := entry
      obtain ⟨_, t⟩ := member
      obtain ⟨rfl, shows⟩ := same
      obtain ⟨value, valueWritten, written⟩ := Option.bind_eq_some_iff.1 written
      cases written
      obtain ⟨gap, isGap, colon⟩ := colon_eq layout
      intro rest more stops later
      have chars : (quote key ++ layout.colon ++ value).toList ++ rest =
          (quote key).toList ++ ':' :: (gap ++ (value.toList ++ rest)) := by
        simp [colon]
      rw [chars]
      have inside := ih m (Nat.lt_succ_self m) shows valueWritten rest more stops later
      exact Scans.string key (Scans.punct rfl (Scans.gaps isGap inside))
    have enclosed := enclose_scans layout level (show Scans.bracket? '\x7b' = some .openBrace from rfl)
      (show Scans.bracket? '\x7d' = some .closeBrace from rfl)
      (List.forall₂_map_right_iff.2 scanned)
    cases members with
    | nil => exact enclosed
    | cons member more =>
      rw [Tree.kinds, Tree.memberKinds_eq, ← List.flatMap_map]
      exact enclosed

end Heap

end BindScript
