import BindScript.Proofs.Frozen.Freeze
import BindScript.Proofs.JsonText.Depth
import BindScript.Proofs.JsonText.RoundTrip
import BindScript.Proofs.JsonText.Written

/-!
# Parsing undoes writing

The document of a tree is built as a value that is the tree (`ofDocument_rebuilt`). Its containers are new ones
(`Heap.Fresh`): they were not there when the building started, and none of them is frozen. The containers that were
there are kept. With what is written for a value and how it is read (`parse_write`), the text of a value is parsed to
a value of the same shape, which has the same text again (`json_parses_back`).
-/

namespace BindScript

open JsonText

namespace Heap

variable {start h h' : Heap} {n : Nat} {v u : Value} {t : Tree}

/-! ## New containers -/

/-- A container that came after the first heap, and is not frozen in the second one. -/
def IsNew (start h : Heap) : Value → Prop
  | .array a => start.arrays.size ≤ a ∧ (h.arrayAt a).frozen = false
  | .object o => start.objects.size ≤ o ∧ (h.objectAt o).frozen = false
  | _ => True

/-- All containers that can be reached from the value came after the first heap, and none of them is frozen. -/
def Fresh (start h : Heap) (v : Value) : Prop :=
  ∀ u, h.Reaches v u → start.IsNew h u

theorem Keeps.arrays_le (keeps : h.Keeps h') : h.arrays.size ≤ h'.arrays.size := by
  by_contra fewer
  exact Nat.lt_irrefl _ (keeps.arrays h'.arrays.size (Nat.not_le.1 fewer)).1

theorem Keeps.objects_le (keeps : h.Keeps h') : h.objects.size ≤ h'.objects.size := by
  by_contra fewer
  exact Nat.lt_irrefl _ (keeps.objects h'.objects.size (Nat.not_le.1 fewer)).1

/-- What is new stays new as long as containers are only added. -/
theorem IsNew.keep (new : start.IsNew h u) (keeps : h.Keeps h') : start.IsNew h' u := by
  cases u with
  | array a =>
    obtain ⟨later, unfrozen⟩ := new
    refine ⟨later, ?_⟩
    rw [(keeps.arrays a (lt_size_of_unfrozen_array unfrozen)).2]
    exact unfrozen
  | object o =>
    obtain ⟨later, unfrozen⟩ := new
    refine ⟨later, ?_⟩
    rw [(keeps.objects o (lt_size_of_unfrozen_object unfrozen)).2]
    exact unfrozen
  | _ => trivial

/-- What stands in one of two lists has its match in the other one. -/
theorem exists_of_forall₂ {α β : Type} {R : α → β → Prop} {as : List α} {bs : List β} (each : List.Forall₂ R as bs)
    {a : α} (mem : a ∈ as) : ∃ b, R a b := by
  induction each with
  | nil => cases mem
  | cons here _ ih =>
    rcases List.mem_cons.1 mem with rfl | later
    · exact ⟨_, here⟩
    · exact ih later

theorem Shows.children_keep (shows : h.Shows n v t) (keeps : h.Keeps h') : h'.children v = h.children v := by
  rcases shows.cases with ⟨rfl, -⟩ | ⟨_, rfl, -⟩ | ⟨_, rfl, -⟩ | ⟨_, a, _, -, rfl, -, there, -⟩ |
    ⟨_, o, _, -, rfl, -, there, -⟩
  · rfl
  · rfl
  · rfl
  · exact congrArg (fun array : ArrayData => array.items.toList) (keeps.arrays a there).2
  · exact congrArg (fun object : ObjectData => object.properties.map fun entry : String × Value => entry.2)
      (keeps.objects o there).2

/-- What is directly inside of a tree is a tree. -/
theorem Shows.of_mem_children (shows : h.Shows n v t) (mem : u ∈ h.children v) :
    ∃ m < n, ∃ t', h.Shows m u t' := by
  rcases shows.cases with ⟨rfl, -⟩ | ⟨_, rfl, -⟩ | ⟨_, rfl, -⟩ | ⟨m, a, _, rfl, rfl, -, -, each⟩ |
    ⟨m, o, _, rfl, rfl, -, -, -, each⟩
  · cases mem
  · cases mem
  · cases mem
  · obtain ⟨t', shows⟩ := exists_of_forall₂ each mem
    exact ⟨m, Nat.lt_succ_self m, t', shows⟩
  · obtain ⟨entry, inside, rfl⟩ := List.mem_map.1 mem
    obtain ⟨member, same⟩ := exists_of_forall₂ each inside
    exact ⟨m, Nat.lt_succ_self m, member.2, same.2⟩

/-- Nothing more can be reached from a tree when containers are added. -/
theorem Shows.reaches_keep (shows : h.Shows n v t) (keeps : h.Keeps h') (reaches : h'.Reaches v u) :
    h.Reaches v u := by
  induction n using Nat.strongRecOn generalizing v t with
  | ind n ih =>
  rcases reaches.cases_head with rfl | ⟨w, inside, further⟩
  · exact .refl
  · rw [shows.children_keep keeps] at inside
    obtain ⟨m, fewer, t', shows'⟩ := shows.of_mem_children inside
    exact .head inside (ih m fewer shows' further)

theorem Fresh.keep (fresh : start.Fresh h v) (shows : h.Shows n v t) (keeps : h.Keeps h') : start.Fresh h' v :=
  fun u reaches => (fresh u (shows.reaches_keep keeps reaches)).keep keeps

theorem Fresh.of_children (self : start.IsNew h v) (each : ∀ w ∈ h.children v, start.Fresh h w) :
    start.Fresh h v := by
  intro u reaches
  rcases reaches.cases_head with rfl | ⟨w, inside, further⟩
  · exact self
  · exact each w inside u further

/-! ## Building -/

/-- What was made out of a document: a value that is the tree, of new containers, in a heap that keeps all others. -/
structure Rebuilt (start h : Heap) (n : Nat) (t : Tree) (made : Value × Heap) : Prop where
  keeps : h.Keeps made.2
  shows : made.2.Shows n made.1 t
  fresh : start.Fresh made.2 made.1

/-- From any later heap on, the document of the tree is made into the tree. -/
def Rebuilds (start : Heap) (n : Nat) (t : Tree) : Prop :=
  ∀ h : Heap, start.Keeps h → Rebuilt start h n t (h.ofDocument t.document)

/-- A value that has been built. -/
def IsBuilt (start h : Heap) (n : Nat) (v : Value) (t : Tree) : Prop :=
  h.Shows n v t ∧ start.Fresh h v

theorem IsBuilt.keep (built : start.IsBuilt h n v t) (keeps : h.Keeps h') : start.IsBuilt h' n v t :=
  ⟨built.1.keep keeps, built.2.keep built.1 keeps⟩

theorem fresh_of_childless (none : h.children v = []) (self : start.IsNew h v) : start.Fresh h v :=
  .of_children self fun _ mem => absurd (none ▸ mem) List.not_mem_nil

theorem rebuilt_array {g : Heap} {values : Array Value} {items : List Tree} (later : start.Keeps g)
    (keeps : h.Keeps g) (each : List.Forall₂ (start.IsBuilt g n) values.toList items) :
    Rebuilt start h (n + 1) (.array items) (g.newArray values) := by
  have grown := Keeps.newArray g values
  refine ⟨keeps.trans grown, shows_newArray (each.imp fun _ _ built => built.1), ?_⟩
  refine .of_children ⟨later.arrays_le, congrArg ArrayData.frozen (arrayAt_newArray_self g values)⟩ fun w mem => ?_
  have new : (g.newArray values).2.children (g.newArray values).1 = values.toList :=
    congrArg (fun array : ArrayData => array.items.toList) (arrayAt_newArray_self g values)
  obtain ⟨t, built⟩ := exists_of_forall₂ each (new ▸ mem)
  exact (built.keep grown).2

theorem rebuilt_object {g : Heap} {entries : Entries Value} {members : List (String × Tree)}
    (later : start.Keeps g) (keeps : h.Keeps g) (distinct : entries.keys.Nodup)
    (each : List.Forall₂ (fun entry member => entry.1 = member.1 ∧ start.IsBuilt g n entry.2 member.2)
      entries members) : Rebuilt start h (n + 1) (.object members) (g.newObject entries) := by
  have grown := Keeps.newObject g entries
  refine ⟨keeps.trans grown, shows_newObject distinct (each.imp fun _ _ same => ⟨same.1, same.2.1⟩), ?_⟩
  refine .of_children ⟨later.objects_le, congrArg ObjectData.frozen (objectAt_newObject_self g entries)⟩
    fun w mem => ?_
  have new : (g.newObject entries).2.children (g.newObject entries).1 = entries.map fun entry => entry.2 :=
    congrArg (fun object : ObjectData => object.properties.map fun entry : String × Value => entry.2)
      (objectAt_newObject_self g entries)
  obtain ⟨entry, inside, rfl⟩ := List.mem_map.1 (new ▸ mem)
  obtain ⟨member, same⟩ := exists_of_forall₂ each inside
  exact (same.2.keep grown).2

/-- Items are built one after another, and those that are there stay as they are. -/
theorem ofDocuments_built {items : List Tree} (each : ∀ t ∈ items, start.Rebuilds n t) :
    ∀ (past : List Tree) (done : Array Value) {h : Heap}, start.Keeps h →
      List.Forall₂ (start.IsBuilt h n) done.toList past →
      h.Keeps (h.ofDocuments done (Tree.documents items)).2 ∧
        List.Forall₂ (start.IsBuilt (h.ofDocuments done (Tree.documents items)).2 n)
          (h.ofDocuments done (Tree.documents items)).1.toList (past ++ items) := by
  induction items with
  | nil =>
    intro past done h _ built
    rw [List.append_nil]
    exact ⟨.refl h, built⟩
  | cons t more ih =>
    intro past done h later built
    obtain ⟨here, others⟩ := List.forall_mem_cons.1 each
    have made := here h later
    have next : List.Forall₂ (start.IsBuilt (h.ofDocument t.document).2 n)
        (done.push (h.ofDocument t.document).1).toList (past ++ [t]) := by
      rw [Array.toList_push]
      exact List.rel_append (built.imp fun _ _ built => built.keep made.keeps) (.cons ⟨made.shows, made.fresh⟩ .nil)
    have rest := ih others _ _ (later.trans made.keeps) next
    rw [List.append_assoc, List.singleton_append] at rest
    exact ⟨made.keeps.trans rest.1, rest.2⟩

/-- Members are built in their order, since no key stands twice. -/
theorem ofMembers_built {members : List (String × Tree)} (each : ∀ m ∈ members, start.Rebuilds n m.2) :
    ∀ (past : List (String × Tree)) (done : Entries Value) {h : Heap}, start.Keeps h →
      (Entries.keys (past ++ members)).Nodup →
      List.Forall₂ (fun entry member => entry.1 = member.1 ∧ start.IsBuilt h n entry.2 member.2) done past →
      h.Keeps (h.ofMembers done (Tree.memberDocuments members)).2 ∧
        List.Forall₂ (fun entry member => entry.1 = member.1 ∧
            start.IsBuilt (h.ofMembers done (Tree.memberDocuments members)).2 n entry.2 member.2)
          (h.ofMembers done (Tree.memberDocuments members)).1 (past ++ members) := by
  induction members with
  | nil =>
    intro past done h _ _ built
    rw [List.append_nil]
    exact ⟨.refl h, built⟩
  | cons m more ih =>
    intro past done h later distinct built
    obtain ⟨key, t⟩ := m
    obtain ⟨here, others⟩ := List.forall_mem_cons.1 each
    have made : Rebuilt start h n t (h.ofDocument t.document) := here h later
    have absent : key ∉ done.keys := by
      rw [keys_eq_of_shows (built.imp fun _ _ same => ⟨same.1, same.2.1⟩)]
      exact (Entries.not_mem_keys_around distinct).1
    have next : List.Forall₂
        (fun entry member => entry.1 = member.1 ∧ start.IsBuilt (h.ofDocument t.document).2 n entry.2 member.2)
        (done.insert key (h.ofDocument t.document).1) (past ++ [(key, t)]) := by
      rw [Entries.insert_of_not_mem absent]
      exact List.rel_append (built.imp fun _ _ same => ⟨same.1, same.2.keep made.keeps⟩)
        (.cons ⟨rfl, made.shows, made.fresh⟩ .nil)
    have rest := ih others _ _ (later.trans made.keeps)
      (by rwa [List.append_assoc, List.singleton_append]) next
    rw [List.append_assoc, List.singleton_append] at rest
    exact ⟨made.keeps.trans rest.1, rest.2⟩

/-- What a value shows is built again from its document. -/
theorem ofDocument_rebuilt {g : Heap} (shows : g.Shows n v t) (start : Heap) : start.Rebuilds n t := by
  induction n using Nat.strongRecOn generalizing v t with
  | ind n ih =>
  intro h later
  rcases shows.cases with ⟨rfl, rfl⟩ | ⟨b, rfl, rfl⟩ | ⟨s, rfl, rfl⟩ |
    ⟨m, a, items, rfl, rfl, rfl, -, each⟩ | ⟨m, o, members, rfl, rfl, rfl, -, distinct, each⟩
  · exact ⟨.refl h, shows_null, fresh_of_childless rfl trivial⟩
  · exact ⟨.refl h, shows_bool b, fresh_of_childless rfl trivial⟩
  · exact ⟨.refl h, shows_string s, fresh_of_childless rfl trivial⟩
  · have inside : ∀ t ∈ items, start.Rebuilds m t := ((List.forall₂_and_left items _).1
      (each.flip.imp fun t v shows =>
        (⟨ih m (Nat.lt_succ_self m) shows, shows⟩ : start.Rebuilds m t ∧ g.Shows m v t))).1
    have built := ofDocuments_built inside [] #[] later .nil
    exact rebuilt_array (later.trans built.1) built.1 built.2
  · have inside : ∀ member ∈ members, start.Rebuilds m member.2 := ((List.forall₂_and_left members _).1
      (each.flip.imp fun member entry same =>
        (⟨ih m (Nat.lt_succ_self m) same.2, same.2⟩ : start.Rebuilds m member.2 ∧ g.Shows m entry.2 member.2))).1
    have keys : (Entries.keys ([] ++ members)).Nodup := keys_eq_of_shows each ▸ distinct
    have built := ofMembers_built inside [] [] later keys .nil
    refine rebuilt_object (later.trans built.1) built.1 ?_ built.2
    rw [keys_eq_of_shows (built.2.imp fun _ _ same => ⟨same.1, same.2.1⟩)]
    exact keys

end Heap

open NativeFn in
/-- **Parsing undoes writing.** A value made of `null`, booleans, strings, arrays and objects, with at most 127
containers inside each other, has a text, whatever the other arguments are. To parse this text builds a value of the
same shape, with the same keys in the same order. All of its containers are new and none is frozen; those that were
there are as they were. Written with the same arguments, the value has the same text again. -/
theorem json_parses_back {s : State} {n : Nat} {v : Value} {t : Tree} (shows : s.heap.Shows n v t)
    (few : n < maxDepth) (given : List Value) :
    ∃ text v' h', invoke .stringify (v :: given) s = .ok (.string text) s ∧
      invoke .parse [.string text] s = .ok v' { s with heap := h' } ∧
      s.heap.Keeps h' ∧ s.heap.Fresh h' v' ∧ h'.Shows n v' t ∧
      invoke .stringify (v' :: given) { s with heap := h' } = .ok (.string text) { s with heap := h' } := by
  have shallow : n ≤ maxJsonDepth := Nat.le_trans (Nat.le_of_lt few) (by decide)
  have written {s : State} {v : Value} (shows : s.heap.Shows n v t) :
      invoke .stringify (v :: given) s =
        .ok (.string (t.write (.ofIndent (indentOf (Value.argument (v :: given) 2))) 0)) s := by
    have text : s.heap.json (Value.argument (v :: given) 0) (indentOf (Value.argument (v :: given) 2)) = .text _ :=
      Heap.json_of_shows shows shallow _
    show (EvalM.readHeap _ >>= _) s = _
    rw [EvalM.readHeap_bind, text]
    rfl
  have made := Heap.ofDocument_rebuilt shows s.heap s.heap (.refl _)
  have parsed (layout : JsonLayout) : invoke .parse [.string (t.write layout 0)] s =
      .ok (s.heap.ofDocument t.document).1 { s with heap := (s.heap.ofDocument t.document).2 } := by
    have read : parse (s.heap.text (Value.argument [.string (t.write layout 0)] 0)) = .ok t.document :=
      parse_write shows few layout
    show (EvalM.readHeap _ >>= _) s = _
    rw [EvalM.readHeap_bind, read]
    rfl
  exact ⟨_, _, _, written shows, parsed _, made.keeps, made.fresh, made.shows, written made.shows⟩

/-- A frozen array that stands three times in an object. -/
def sharedHeap : Heap where
  arrays := #[{ items := #[.string "é\n\"", .null, .bool false], frozen := true }, { items := #[.array 0, .array 0] }]
  objects := #[{ properties := [("b", .array 1), ("", .array 0)] }]

/-- What the object shows: a value that is held three times is written three times. -/
def sharedTree : Tree :=
  let inner := .array [.string "é\n\"", .null, .bool false]
  .object [("b", .array [inner, inner]), ("", inner)]

/-- After the way there and back the shared array has become three, unfrozen ones, and the text is the same. -/
theorem shared_parses_back :
    sharedHeap.Shows 3 (.object 0) sharedTree ∧ ∃ text v' h',
      NativeFn.invoke .stringify [.object 0, .null, .number 2.0] { heap := sharedHeap } =
          .ok (.string text) { heap := sharedHeap } ∧
        NativeFn.invoke .parse [.string text] { heap := sharedHeap } = .ok v' { heap := h' } ∧
        sharedHeap.Keeps h' ∧ sharedHeap.Fresh h' v' ∧ h'.Shows 3 v' sharedTree ∧
        NativeFn.invoke .stringify [v', .null, .number 2.0] { heap := h' } = .ok (.string text) { heap := h' } := by
  have inner {n : Nat} : sharedHeap.Shows (n + 1) (.array 0) (.array [.string "é\n\"", .null, .bool false]) :=
    ⟨by decide, .cons (Heap.shows_string _) (.cons Heap.shows_null (.cons (Heap.shows_bool _) .nil))⟩
  have shows : sharedHeap.Shows 3 (.object 0) sharedTree :=
    ⟨by decide, by decide, .cons ⟨rfl, by decide, .cons inner (.cons inner .nil)⟩ (.cons ⟨rfl, inner⟩ .nil)⟩
  exact ⟨shows, json_parses_back (s := { heap := sharedHeap }) shows (by decide) [.null, .number 2.0]⟩

end BindScript
