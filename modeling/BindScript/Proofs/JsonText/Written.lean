import BindScript.Proofs.JsonText.Shown

/-!
# JSON text is read as what it was written for

The text of a value that is a tree is the text of the tree (`Heap.jsonAt_of_shows`), in any layout. The reader takes
the text of a tree off the front of what is ahead and gives its document, whatever comes after it and wherever it
stands (`document_reads`), if there is a level more than containers inside each other. So a whole text is read as the
document of its tree (`parse_write`).

The reader is followed by what is ahead and what is left (`Reads`): lines and columns are counted for errors only.
-/

namespace BindScript

open JsonText

namespace JsonText.Tree

/-! ## The text and the document of a tree -/

mutual

/-- The text of the tree, at a level. -/
def write (layout : JsonLayout) (level : Nat) : Tree → String
  | null => "null"
  | bool b => if b then "true" else "false"
  | string s => quote s
  | array items => layout.enclose level "[" "]" (writeItems layout (level + 1) items)
  | object members => layout.enclose level "\x7b" "\x7d" (writeMembers layout (level + 1) members)

/-- The texts of items. -/
def writeItems (layout : JsonLayout) (level : Nat) : List Tree → List String
  | [] => []
  | t :: more => t.write layout level :: writeItems layout level more

/-- The texts of members. -/
def writeMembers (layout : JsonLayout) (level : Nat) : List (String × Tree) → List String
  | [] => []
  | (key, t) :: more => (quote key ++ layout.colon ++ t.write layout level) :: writeMembers layout level more

end

mutual

/-- The document that the tree is read as. -/
def document : Tree → Document
  | null => .null
  | bool b => .bool b
  | string s => .string s
  | array items => .array (documents items)
  | object members => .object (memberDocuments members)

/-- The documents of items. -/
def documents : List Tree → List Document
  | [] => []
  | t :: more => t.document :: documents more

/-- The members of the document of an object. -/
def memberDocuments : List (String × Tree) → List (String × Document)
  | [] => []
  | (key, t) :: more => (key, t.document) :: memberDocuments more

end

theorem keys_memberDocuments (members : List (String × Tree)) :
    Entries.keys (memberDocuments members) = Entries.keys members := by
  induction members with
  | nil => rfl
  | cons member more ih =>
    obtain ⟨key, t⟩ := member
    rw [memberDocuments, Entries.keys_cons, Entries.keys_cons, ih]

end JsonText.Tree

namespace Heap

variable {h : Heap} {layout : JsonLayout} {n left : Nat} {v : Value} {t : Tree}

/-- All items are written when each of them is. -/
theorem mapM_writeItems (layout : JsonLayout) (left level : Nat) {values : List Value} {items : List Tree}
    (each : List.Forall₂ (fun v t => h.jsonAt layout left level v = some (t.write layout level)) values items) :
    values.mapM (h.jsonAt layout left level) = some (Tree.writeItems layout level items) := by
  induction each with
  | nil => rfl
  | cons here _ ih =>
    rw [List.mapM_cons, here, ih]
    rfl

theorem mapM_writeMembers (layout : JsonLayout) (left level : Nat) {entries : Entries Value}
    {members : List (String × Tree)} (each : List.Forall₂ (fun entry member => entry.1 = member.1 ∧
      h.jsonAt layout left level entry.2 = some (member.2.write layout level)) entries members) :
    entries.mapM (fun entry => do
      let value ← h.jsonAt layout left level entry.2
      return quote entry.1 ++ layout.colon ++ value) = some (Tree.writeMembers layout level members) := by
  induction each with
  | nil => rfl
  | @cons entry member _ _ here _ ih =>
    obtain ⟨key, t⟩ := member
    obtain ⟨rfl, written⟩ := here
    rw [List.mapM_cons, written, ih]
    rfl

/-- The text of a value is the text of the tree that it is, if there are enough levels. -/
theorem jsonAt_of_shows (shows : h.Shows n v t) (enough : n < left) (level : Nat) :
    h.jsonAt layout left level v = some (t.write layout level) := by
  induction n using Nat.strongRecOn generalizing v t left level with
  | ind n ih =>
  obtain ⟨left, rfl⟩ := Nat.exists_eq_add_one.2 (Nat.zero_lt_of_lt enough)
  rcases shows.cases with ⟨rfl, rfl⟩ | ⟨b, rfl, rfl⟩ | ⟨s, rfl, rfl⟩ |
    ⟨m, a, items, rfl, rfl, rfl, -, each⟩ | ⟨m, o, members, rfl, rfl, rfl, -, -, each⟩
  · rfl
  · rfl
  · rfl
  · have inside := mapM_writeItems layout left (level + 1)
      (each.imp fun v t shows => ih m (Nat.lt_succ_self m) shows (by omega) (level + 1))
    rw [jsonAt, inside]
    rfl
  · have inside := mapM_writeMembers layout left (level + 1)
      (each.imp fun entry member same =>
        ⟨same.1, ih m (Nat.lt_succ_self m) same.2 (by omega) (level + 1)⟩)
    rw [jsonAt, filter_of_shows each]
    exact congrArg (fun texts : Option (List String) => do
      return layout.enclose level "\x7b" "\x7d" (← texts)) inside

theorem json_of_shows (shows : h.Shows n v t) (few : n ≤ maxJsonDepth) (indent : Option Nat) :
    h.json v indent = .text (t.write (.ofIndent indent) 0) := by
  rw [json, shows.not_omitted, if_neg Bool.false_ne_true, jsonAt_of_shows shows (Nat.lt_succ_of_le few) 0]

end Heap

namespace JsonText

/-! ## Reading -/

/-- With the first text ahead, the reader gives the result and leaves the second one, wherever it stands. -/
def Reads {α : Type} (p : Read α) (ahead : List Char) (a : α) (left : List Char) : Prop :=
  ∀ line column, ∃ cursor, p ⟨ahead, line, column⟩ = .ok a cursor ∧ cursor.rest = left

namespace Reads

variable {α β : Type} {p : Read α} {f : α → Read β} {a : α} {b : β} {cs ds rest : List Char} {c : Char}

theorem pure : Reads (Pure.pure a) cs a cs :=
  fun line column => ⟨⟨cs, line, column⟩, rfl, rfl⟩

theorem bind (first : Reads p cs a ds) (next : Reads (f a) ds b rest) : Reads (p >>= f) cs b rest := by
  intro line column
  obtain ⟨⟨_, line', column'⟩, run, rfl⟩ := first line column
  obtain ⟨cursor, run', left⟩ := next line' column'
  refine ⟨cursor, ?_, left⟩
  show EStateM.bind p f _ = _
  simp only [EStateM.bind, run, run']

/-- What is ahead may be looked at. -/
theorem get_bind {f : Cursor → Read β} (next : ∀ cursor : Cursor, cursor.rest = cs → Reads (f cursor) cs b rest) :
    Reads (get >>= f) cs b rest :=
  fun line column => next ⟨cs, line, column⟩ rfl line column

theorem advance : Reads JsonText.advance (c :: cs) () cs := by
  intro line column
  obtain ⟨line', column', moved⟩ := Cursor.advance_of_rest c cs line column
  exact ⟨⟨cs, line', column'⟩, congrArg (EStateM.Result.ok ()) moved, rfl⟩

theorem peek : Reads JsonText.peek cs cs.head? cs :=
  fun line column => ⟨⟨cs, line, column⟩, rfl, rfl⟩

/-! ### Tokens -/

/-- With enough turns, characters are skipped up to the first one that is not wanted. -/
theorem rest_skipWhile {p : Char → Bool} : ∀ {n : Nat} (cs : List Char) (line column : Nat),
    (cs.takeWhile p).length ≤ n → (skipWhile p n ⟨cs, line, column⟩).rest = cs.dropWhile p := by
  intro n
  induction n with
  | zero =>
    intro cs line column enough
    have none : cs.takeWhile p = [] := List.length_eq_zero_iff.1 (Nat.le_zero.1 enough)
    have split := List.takeWhile_append_dropWhile (p := p) (l := cs)
    rw [none, List.nil_append] at split
    exact split.symm
  | succ n ih =>
    intro cs line column enough
    cases cs with
    | nil => rfl
    | cons c cs =>
      obtain ⟨line', column', moved⟩ := Cursor.advance_of_rest c cs line column
      unfold skipWhile
      dsimp only
      by_cases holds : p c = true
      · rw [List.takeWhile_cons_of_pos holds, List.length_cons] at enough
        rw [if_pos holds, List.dropWhile_cons_of_pos holds, moved]
        exact ih cs line' column' (Nat.le_of_succ_le_succ enough)
      · rw [if_neg holds, List.dropWhile_cons_of_neg holds]

/-- White space is passed over. -/
theorem peekToken {gap : List Char} (isGap : IsGap gap) (dark : isJsonSpace c = false) :
    Reads JsonText.peekToken (gap ++ c :: cs) (some c) (c :: cs) := by
  have blank : ∀ c ∈ gap, isJsonSpace c = true := by
    intro c mem
    rcases isGap c mem with rfl | rfl <;> rfl
  have dropped : (gap ++ c :: cs).dropWhile isJsonSpace = c :: cs := by
    rw [List.dropWhile_append_of_pos blank, List.dropWhile_cons_of_neg (by simp [dark])]
  have passes : Reads (modify fun c : Cursor => skipWhile isJsonSpace (c.rest.takeWhile isJsonSpace).length c)
      (gap ++ c :: cs) () (c :: cs) := by
    intro line column
    exact ⟨_, rfl, (rest_skipWhile _ line column (Nat.le_refl _)).trans dropped⟩
  exact bind passes peek

/-- A word is read up to its end. -/
theorem word (expected : List Char) : Reads (JsonText.word expected) (expected ++ rest) () rest := by
  induction expected with
  | nil => exact pure
  | cons c more ih =>
    refine bind peek ?_
    show Reads (if c = c then _ else _) _ _ _
    rw [if_pos rfl]
    exact bind advance ih

/-- A literal is read from its opening quote. -/
theorem string (text : String) (rest : List Char) :
    Reads (JsonText.string false) ((quote text).toList ++ rest) text rest := by
  have chars : (quote text).toList ++ rest = '"' :: (text.toList.flatMap escapeChar ++ '"' :: rest) := by
    simp [quote, quoteChars]
  rw [chars]
  refine bind advance (get_bind ?_)
  rintro ⟨_, _, _⟩ rfl line column
  have enough : text.toList.length < (text.toList.flatMap escapeChar ++ '"' :: rest).length + 1 := by
    have shorter := length_le_escaped text.toList
    rw [List.length_append, List.length_cons]
    omega
  obtain ⟨cursor, read, left⟩ := stringBody_escaped text.toList [] rest line column enough
  rw [List.reverse_nil, List.nil_append, String.ofList_toList] at read
  exact ⟨cursor, read, left⟩

end Reads

/-! ## Items between brackets -/

/-- The items after the first one, each after a comma and white space. -/
def laterItems (gap : List Char) (texts : List String) : List Char :=
  texts.flatMap fun text => ',' :: (gap ++ text.toList)

theorem toList_intercalate_line (layout : JsonLayout) (level : Nat) (text : String) (texts : List String) :
    (("," ++ layout.line level).intercalate (text :: texts)).toList =
      text.toList ++ laterItems (layout.line level).toList texts := by
  induction texts generalizing text with
  | nil => simp [laterItems]
  | cons next texts ih =>
    have tail : laterItems (layout.line level).toList (next :: texts) =
        ',' :: ((layout.line level).toList ++ (next.toList ++ laterItems (layout.line level).toList texts)) := by
      simp [laterItems]
    rw [String.intercalate_cons_cons, String.toList_append, ih, tail]
    simp

theorem enclose_nil (layout : JsonLayout) (level : Nat) (opening closing : Char) (rest : List Char) :
    (layout.enclose level (.singleton opening) (.singleton closing) []).toList ++ rest =
      opening :: closing :: rest := by
  simp [JsonLayout.enclose]

theorem enclose_cons (layout : JsonLayout) (level : Nat) (opening closing : Char) (text : String)
    (texts : List String) (rest : List Char) :
    (layout.enclose level (.singleton opening) (.singleton closing) (text :: texts)).toList ++ rest =
      opening :: ((layout.line (level + 1)).toList ++ (text.toList ++
        (laterItems (layout.line (level + 1)).toList texts ++ ((layout.line level).toList ++ closing :: rest)))) := by
  have inside := toList_intercalate_line layout (level + 1) text texts
  simp only [JsonLayout.enclose, List.isEmpty_cons, Bool.false_eq_true, if_false, String.toList_append,
    String.toList_singleton, inside]
  simp

/-- The reader takes the text off the front, and white space before it. The text does not begin with white space or
with a closing bracket. -/
structure ReadsText (item : Read Document) (text : String) (d : Document) : Prop where
  starts : ∃ c more, text.toList = c :: more ∧ isJsonSpace c = false ∧ c ≠ ']'
  reads : ∀ {gap : List Char} (rest : List Char), IsGap gap → Reads item (gap ++ (text.toList ++ rest)) d rest

namespace ReadsText

variable {item : Read Document} {text : String} {texts : List String} {d : Document} {docs found : List Document}
  {gap close rest : List Char} {n : Nat}

theorem of_chars {c : Char} {more : List Char} (chars : text.toList = c :: more) (dark : isJsonSpace c = false)
    (inside : c ≠ ']')
    (reads : ∀ {gap : List Char} (rest : List Char), IsGap gap → Reads item (gap ++ c :: (more ++ rest)) d rest) :
    ReadsText item text d where
  starts := ⟨c, more, chars, dark, inside⟩
  reads rest isGap := by
    rw [chars]
    exact reads rest isGap

theorem isGap_nil : IsGap [] :=
  List.forall_mem_nil _

/-- The items after the first one are read one after another. -/
theorem later_items (rest : List Char) (isGap : IsGap gap) (isClose : IsGap close)
    (each : List.Forall₂ (ReadsText item) texts docs) (begun : found ≠ []) (enough : texts.length < n) :
    Reads (items item n found) (laterItems gap texts ++ (close ++ ']' :: rest)) (found.reverse ++ docs)
      (']' :: rest) := by
  induction each generalizing found n with
  | nil =>
    obtain ⟨n, rfl⟩ := Nat.exists_eq_add_one.2 enough
    rw [List.append_nil]
    exact .bind (.peekToken isClose rfl) .pure
  | @cons text d texts docs here _ ih =>
    obtain ⟨n, rfl⟩ := Nat.exists_eq_add_one.2 (Nat.zero_lt_of_lt enough)
    obtain ⟨c, more, starts, dark, inside⟩ := here.starts
    have tail : laterItems gap (text :: texts) ++ (close ++ ']' :: rest) =
        ',' :: (gap ++ (text.toList ++ (laterItems gap texts ++ (close ++ ']' :: rest)))) := by
      simp [laterItems]
    have docs_eq : found.reverse ++ d :: docs = (d :: found).reverse ++ docs := by simp
    have goesOn := ih (List.cons_ne_nil d found) (Nat.lt_of_succ_lt_succ enough)
    have one := here.reads (laterItems gap texts ++ (close ++ ']' :: rest)) isGap_nil
    rw [List.nil_append] at one
    rw [tail, docs_eq]
    refine .bind (.peekToken isGap_nil rfl) ?_
    show Reads (if found.isEmpty then _ else _) _ _ _
    rw [if_neg (by simpa using begun)]
    show Reads (if ',' = ',' then _ else _) _ _ _
    rw [if_pos rfl]
    rw [starts] at one ⊢
    refine .bind .advance (.bind (.peekToken isGap dark) ?_)
    split
    · next closes => exact absurd (Option.some.inj closes) inside
    · next none => cases none
    · exact .bind one goesOn

theorem all_items (isGap : IsGap gap) (isClose : IsGap close) (first : ReadsText item text d)
    (others : List.Forall₂ (ReadsText item) texts docs) (enough : texts.length + 1 < n) :
    Reads (items item n []) (gap ++ (text.toList ++ (laterItems gap texts ++ (close ++ ']' :: rest)))) (d :: docs)
      (']' :: rest) := by
  obtain ⟨n, rfl⟩ := Nat.exists_eq_add_one.2 (Nat.zero_lt_of_lt enough)
  obtain ⟨c, more, starts, dark, inside⟩ := first.starts
  have goesOn := later_items rest isGap isClose others (List.cons_ne_nil d []) (Nat.lt_of_succ_lt_succ enough)
  have one := first.reads (laterItems gap texts ++ (close ++ ']' :: rest)) isGap_nil
  rw [List.nil_append] at one
  rw [starts] at one ⊢
  refine .bind (.peekToken isGap dark) ?_
  split
  · next none => cases none
  · next closes => exact absurd (Option.some.inj closes) inside
  · exact .bind one goesOn

/-! ### Members -/

/-- The text of a member: its key, a colon and a text that the reader takes off the front. -/
def ReadsMember (item : Read Document) (layout : JsonLayout) (text : String) (member : String × Document) : Prop :=
  ∃ value, text = quote member.1 ++ layout.colon ++ value ∧ ReadsText item value member.2

variable {layout : JsonLayout} {key : String} {members before : Entries Document}

/-- From a key on, the first member is read, and then the others. -/
theorem member (layout : JsonLayout) {next : Read (Option String)} {ahead more : List Char} {result : Entries Document}
    (keyed : Reads next ahead (some key) (layout.colon.toList ++ (text.toList ++ more))) (value : ReadsText item text d)
    (others : Reads (JsonText.members false item n false (before.insert key d)) more result rest) :
    Reads (do
      match ← next with
      | none => return before
      | some key =>
        colon
        JsonText.members false item n false (before.insert key (← item))) ahead result rest := by
  obtain ⟨gap, isGap, chars⟩ := colon_eq layout
  have one := value.reads more isGap
  rw [chars] at keyed
  refine .bind keyed ?_
  refine .bind (.bind (.peekToken isGap_nil rfl) .advance) ?_
  exact .bind one others

theorem toList_member (key value : String) (layout : JsonLayout) (more : List Char) :
    (quote key ++ layout.colon ++ value).toList ++ more =
      (quote key).toList ++ (layout.colon.toList ++ (value.toList ++ more)) := by
  simp

theorem toList_quote (text : String) : ∃ more, (quote text).toList = '"' :: more :=
  ⟨text.toList.flatMap escapeChar ++ ['"'], by simp [quote, quoteChars]⟩

/-- The members after the first one are read one after another, each after those before it, since no key stands
twice. -/
theorem later_members (before : Entries Document) (rest : List Char) (isGap : IsGap gap) (isClose : IsGap close)
    (each : List.Forall₂ (ReadsMember item layout) texts members) (distinct : (Entries.keys (before ++ members)).Nodup)
    (enough : texts.length < n) :
    Reads (JsonText.members false item n false before) (laterItems gap texts ++ (close ++ '\x7d' :: rest))
      (before ++ members) ('\x7d' :: rest) := by
  induction each generalizing before n with
  | nil =>
    obtain ⟨n, rfl⟩ := Nat.exists_eq_add_one.2 enough
    rw [List.append_nil]
    exact .bind (.bind (.peekToken isClose rfl) .pure) .pure
  | @cons text entry texts members here _ ih =>
    obtain ⟨n, rfl⟩ := Nat.exists_eq_add_one.2 (Nat.zero_lt_of_lt enough)
    obtain ⟨key, d⟩ := entry
    obtain ⟨value, rfl, reads⟩ := here
    have absent : key ∉ before.keys := (Entries.not_mem_keys_around distinct).1
    have tail : laterItems gap ((quote key ++ layout.colon ++ value) :: texts) ++ (close ++ '\x7d' :: rest) =
        ',' :: (gap ++ ((quote key).toList ++ (layout.colon.toList ++ (value.toList ++
          (laterItems gap texts ++ (close ++ '\x7d' :: rest)))))) := by
      simp [laterItems]
    have goesOn := @ih n (before.insert key d)
    rw [Entries.insert_of_not_mem absent, List.append_assoc, List.singleton_append] at goesOn
    have others := goesOn distinct (Nat.lt_of_succ_lt_succ enough)
    rw [← Entries.insert_of_not_mem absent] at others
    obtain ⟨quoted, opens⟩ := toList_quote key
    have string := Reads.string key
      (layout.colon.toList ++ (value.toList ++ (laterItems gap texts ++ (close ++ '\x7d' :: rest))))
    rw [tail]
    refine member layout ?_ reads others
    rw [opens] at string ⊢
    refine .bind (.peekToken isGap_nil rfl) ?_
    exact .bind .advance (.bind (.peekToken isGap rfl) (.bind string .pure))

theorem all_members (isGap : IsGap gap) (isClose : IsGap close) (value : ReadsText item text d)
    (others : List.Forall₂ (ReadsMember item layout) texts members)
    (distinct : (Entries.keys ((key, d) :: members)).Nodup) (enough : texts.length + 1 < n) :
    Reads (JsonText.members false item n true [])
      (gap ++ ((quote key ++ layout.colon ++ text).toList ++ (laterItems gap texts ++ (close ++ '\x7d' :: rest))))
      ((key, d) :: members) ('\x7d' :: rest) := by
  obtain ⟨n, rfl⟩ := Nat.exists_eq_add_one.2 (Nat.zero_lt_of_lt enough)
  have goesOn := later_members [(key, d)] rest isGap isClose others distinct
    (Nat.lt_of_succ_lt_succ enough)
  obtain ⟨quoted, opens⟩ := toList_quote key
  have string := Reads.string key
    (layout.colon.toList ++ (text.toList ++ (laterItems gap texts ++ (close ++ '\x7d' :: rest))))
  rw [toList_member]
  refine member layout ?_ value goesOn
  rw [opens] at string ⊢
  exact .bind (.peekToken isGap rfl) (.bind string .pure)

end ReadsText

/-! ## Trees -/

section Trees

variable {h : Heap} {layout : JsonLayout} {n level : Nat} {v : Value} {t : Tree} {item : Read Document}

theorem forall₂_items {items : List Tree} (each : ∀ t ∈ items, ReadsText item (t.write layout level) t.document) :
    List.Forall₂ (ReadsText item) (Tree.writeItems layout level items) (Tree.documents items) := by
  induction items with
  | nil => exact .nil
  | cons t more ih =>
    obtain ⟨here, later⟩ := List.forall_mem_cons.1 each
    exact .cons here (ih later)

theorem forall₂_members {members : List (String × Tree)}
    (each : ∀ m ∈ members, ReadsText item (m.2.write layout level) m.2.document) :
    List.Forall₂ (ReadsText.ReadsMember item layout) (Tree.writeMembers layout level members)
      (Tree.memberDocuments members) := by
  induction members with
  | nil => exact .nil
  | cons m more ih =>
    obtain ⟨key, t⟩ := m
    obtain ⟨here, later⟩ := List.forall_mem_cons.1 each
    exact .cons ⟨_, rfl, here⟩ (ih later)

theorem length_le_laterItems (gap : List Char) (texts : List String) :
    texts.length ≤ (laterItems gap texts).length := by
  induction texts with
  | nil => exact Nat.zero_le _
  | cons text texts ih =>
    have tail : laterItems gap (text :: texts) = ',' :: (gap ++ (text.toList ++ laterItems gap texts)) := by
      simp [laterItems]
    rw [tail]
    simp only [List.length_cons, List.length_append]
    omega

section Containers

variable {gap ahead rest : List Char} {depth : Nat} (deep : depth ≠ 0)
include deep

/-- A list is read when what is inside of its brackets is, in as many turns as there are characters. -/
theorem list_reads (isGap : IsGap gap) {docs : List Document}
    (inside : ∀ n, ahead.length < n → Reads (items (document false depth) n []) ahead docs (']' :: rest)) :
    Reads (document false (depth + 1)) (gap ++ '[' :: ahead) (.array docs) rest := by
  refine .bind (.peekToken isGap rfl) ?_
  show Reads (if depth = 0 then _ else _) _ _ _
  rw [if_neg deep]
  refine .bind .advance (.get_bind fun cursor here => ?_)
  exact .bind (inside _ (by rw [here]; exact Nat.lt_succ_self _)) (.bind .advance .pure)

theorem record_reads (isGap : IsGap gap) {docs : Entries Document}
    (inside : ∀ n, ahead.length < n →
      Reads (members false (document false depth) n true []) ahead docs ('\x7d' :: rest)) :
    Reads (document false (depth + 1)) (gap ++ '\x7b' :: ahead) (.object docs) rest := by
  refine .bind (.peekToken isGap rfl) ?_
  show Reads (if depth = 0 then _ else _) _ _ _
  rw [if_neg deep]
  refine .bind .advance (.get_bind fun cursor here => ?_)
  exact .bind (inside _ (by rw [here]; exact Nat.lt_succ_self _)) (.bind .advance .pure)

/-- The text of an array is read when the texts of its items are. -/
theorem array_reads {items : List Tree}
    (each : ∀ t ∈ items, ReadsText (document false depth) (t.write layout (level + 1)) t.document) :
    ReadsText (document false (depth + 1)) ((Tree.array items).write layout level) (Tree.array items).document := by
  cases items with
  | nil =>
    have chars (rest : List Char) : ((Tree.array []).write layout level).toList ++ rest = '[' :: ']' :: rest :=
      enclose_nil layout level '[' ']' rest
    refine .of_chars ((List.append_nil _).symm.trans (chars [])) rfl (by decide) fun rest gap => ?_
    refine list_reads deep gap fun n enough => ?_
    obtain ⟨n, rfl⟩ := Nat.exists_eq_add_one.2 (Nat.zero_lt_of_lt enough)
    exact .bind (.peekToken ReadsText.isGap_nil rfl) .pure
  | cons t more =>
    obtain ⟨here, later⟩ := List.forall_mem_cons.1 each
    have chars (rest : List Char) := enclose_cons layout level '[' ']' (t.write layout (level + 1))
      (Tree.writeItems layout (level + 1) more) rest
    refine ⟨⟨'[', _, (List.append_nil _).symm.trans (chars []), rfl, by decide⟩, fun {gap} rest isStart => ?_⟩
    show Reads _ (gap ++ ((layout.enclose level (.singleton '[') (.singleton ']')
      (t.write layout (level + 1) :: Tree.writeItems layout (level + 1) more)).toList ++ rest)) _ _
    rw [chars]
    refine list_reads deep isStart fun n enough => ?_
    refine ReadsText.all_items (isGap_line layout (level + 1)) (isGap_line layout level) here
      (forall₂_items later) ?_
    have turns := length_le_laterItems (layout.line (level + 1)).toList (Tree.writeItems layout (level + 1) more)
    simp only [List.length_append, List.length_cons] at enough
    omega

/-- The text of an object is read when the texts of what its members hold are. -/
theorem object_reads {members : List (String × Tree)} (distinct : (Entries.keys members).Nodup)
    (each : ∀ m ∈ members, ReadsText (document false depth) (m.2.write layout (level + 1)) m.2.document) :
    ReadsText (document false (depth + 1)) ((Tree.object members).write layout level)
      (Tree.object members).document := by
  cases members with
  | nil =>
    have chars (rest : List Char) : ((Tree.object []).write layout level).toList ++ rest = '\x7b' :: '\x7d' :: rest :=
      enclose_nil layout level '\x7b' '\x7d' rest
    refine .of_chars ((List.append_nil _).symm.trans (chars [])) rfl (by decide) fun rest gap => ?_
    refine record_reads deep gap fun n enough => ?_
    obtain ⟨n, rfl⟩ := Nat.exists_eq_add_one.2 (Nat.zero_lt_of_lt enough)
    exact .bind (.bind (.peekToken ReadsText.isGap_nil rfl) .pure) .pure
  | cons m more =>
    obtain ⟨key, t⟩ := m
    obtain ⟨here, later⟩ := List.forall_mem_cons.1 each
    have keys : (Entries.keys ((key, t.document) :: Tree.memberDocuments more)).Nodup := by
      rw [Entries.keys_cons, Tree.keys_memberDocuments]
      exact distinct
    have chars (rest : List Char) := enclose_cons layout level '\x7b' '\x7d'
      (quote key ++ layout.colon ++ t.write layout (level + 1)) (Tree.writeMembers layout (level + 1) more) rest
    refine ⟨⟨'\x7b', _, (List.append_nil _).symm.trans (chars []), rfl, by decide⟩, fun {gap} rest isStart => ?_⟩
    show Reads _ (gap ++ ((layout.enclose level (.singleton '\x7b') (.singleton '\x7d')
      ((quote key ++ layout.colon ++ t.write layout (level + 1)) ::
        Tree.writeMembers layout (level + 1) more)).toList ++ rest)) _ _
    rw [chars]
    refine record_reads deep isStart fun n enough => ?_
    refine ReadsText.all_members (isGap_line layout (level + 1)) (isGap_line layout level) here
      (forall₂_members later) keys ?_
    have turns := length_le_laterItems (layout.line (level + 1)).toList (Tree.writeMembers layout (level + 1) more)
    simp only [List.length_append, List.length_cons] at enough
    omega

end Containers

/-- The text of a tree is read as its document, if there is a level more than containers inside each other. -/
theorem document_reads (shows : h.Shows n v t) {depth : Nat} (enough : n < depth) (layout : JsonLayout) (level : Nat) :
    ReadsText (document false depth) (t.write layout level) t.document := by
  induction n using Nat.strongRecOn generalizing v t depth level with
  | ind n ih =>
  obtain ⟨depth, rfl⟩ := Nat.exists_eq_add_one.2 (Nat.zero_lt_of_lt enough)
  rcases shows.cases with ⟨rfl, rfl⟩ | ⟨b, rfl, rfl⟩ | ⟨s, rfl, rfl⟩ |
    ⟨m, a, items, rfl, rfl, rfl, -, each⟩ | ⟨m, o, members, rfl, rfl, rfl, -, distinct, each⟩
  · have chars : (Tree.null.write layout level).toList = ['n', 'u', 'l', 'l'] := by simp [Tree.write]
    refine .of_chars chars rfl (by decide) fun rest gap => ?_
    exact .bind (.peekToken gap rfl) (.bind .advance (.bind (.word ['u', 'l', 'l']) .pure))
  · cases b
    · have chars : ((Tree.bool false).write layout level).toList = ['f', 'a', 'l', 's', 'e'] := by simp [Tree.write]
      refine .of_chars chars rfl (by decide) fun rest gap => ?_
      exact .bind (.peekToken gap rfl) (.bind .advance (.bind (.word ['a', 'l', 's', 'e']) .pure))
    · have chars : ((Tree.bool true).write layout level).toList = ['t', 'r', 'u', 'e'] := by simp [Tree.write]
      refine .of_chars chars rfl (by decide) fun rest gap => ?_
      exact .bind (.peekToken gap rfl) (.bind .advance (.bind (.word ['r', 'u', 'e']) .pure))
  · obtain ⟨more, opens⟩ := ReadsText.toList_quote s
    refine .of_chars opens rfl (by decide) fun rest gap => ?_
    have string := Reads.string s rest
    rw [opens] at string
    exact .bind (.peekToken gap rfl) (.bind string .pure)
  · refine array_reads (by omega) ?_
    exact ((List.forall₂_and_left items _).1 (each.flip.imp fun t v shows =>
      (⟨ih m (Nat.lt_succ_self m) shows (by omega) (level + 1), shows⟩ :
        ReadsText (document false depth) (t.write layout (level + 1)) t.document ∧ h.Shows m v t))).1
  · refine object_reads (by omega) (Heap.keys_eq_of_shows each ▸ distinct) ?_
    exact ((List.forall₂_and_left members _).1 (each.flip.imp fun member entry same =>
      (⟨ih m (Nat.lt_succ_self m) same.2 (by omega) (level + 1), same.2⟩ :
        ReadsText (document false depth) (member.2.write layout (level + 1)) member.2.document ∧
          h.Shows m entry.2 member.2))).1

/-- The text of a tree, in any layout, is read as its document. -/
theorem parse_write (shows : h.Shows n v t) (few : n < maxDepth) (layout : JsonLayout) :
    parse (t.write layout 0) = .ok t.document := by
  have read := (document_reads shows few layout 0).reads [] ReadsText.isGap_nil
  rw [List.nil_append, List.append_nil] at read
  obtain ⟨⟨rest, line, column⟩, run, rfl⟩ := read 1 0
  simp only [parse, readWhole, Bind.bind, EStateM.bind, run]
  rfl

end Trees

end JsonText

end BindScript
