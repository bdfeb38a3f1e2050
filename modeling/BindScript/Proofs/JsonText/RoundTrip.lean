import BindScript.Proofs.Control.Dependence
import BindScript.Proofs.JsonText.Parsed

/-!
# JSON text evaluates to what it was written for

The expression of a tree consists of literals, so its evaluation builds new containers of the same shape and
changes nothing that was there (`tree_evaluates`). Together with what JSON text is split into and what the tokens
are read as, the text of a value is an expression that evaluates to a value of the same shape
(`json_evaluates`): its containers are new ones, and its keys stand in the same order.
-/

namespace BindScript

open JsonText EvalM

namespace Heap

variable {h h' h'' : Heap} {n : Nat} {v : Value} {t : Tree}

/-- All containers are kept as they are. -/
structure Keeps (h h' : Heap) : Prop where
  arrays : ∀ a < h.arrays.size, a < h'.arrays.size ∧ h'.arrayAt a = h.arrayAt a
  objects : ∀ o < h.objects.size, o < h'.objects.size ∧ h'.objectAt o = h.objectAt o

theorem Keeps.refl (h : Heap) : h.Keeps h :=
  ⟨fun _ there => ⟨there, rfl⟩, fun _ there => ⟨there, rfl⟩⟩

theorem Keeps.trans (first : h.Keeps h') (second : h'.Keeps h'') : h.Keeps h'' where
  arrays a there :=
    have ⟨there', same⟩ := first.arrays a there
    have ⟨there'', same'⟩ := second.arrays a there'
    ⟨there'', same'.trans same⟩
  objects o there :=
    have ⟨there', same⟩ := first.objects o there
    have ⟨there'', same'⟩ := second.objects o there'
    ⟨there'', same'.trans same⟩

theorem Keeps.newArray (h : Heap) (items : Array Value) : h.Keeps (h.newArray items).2 where
  arrays a there := by
    refine ⟨?_, arrayAt_newArray_of_ne (Nat.ne_of_lt there)⟩
    rw [Heap.newArray, Array.size_push]
    exact Nat.lt_succ_of_lt there
  objects _ there := ⟨there, rfl⟩

theorem Keeps.newObject (h : Heap) (properties : Entries Value) : h.Keeps (h.newObject properties).2 where
  arrays _ there := ⟨there, rfl⟩
  objects o there := by
    refine ⟨?_, objectAt_newObject_of_ne (Nat.ne_of_lt there)⟩
    rw [Heap.newObject, Array.size_push]
    exact Nat.lt_succ_of_lt there

/-- A value stays the tree that it is. -/
theorem Shows.keep (shows : h.Shows n v t) (keeps : h.Keeps h') : h'.Shows n v t := by
  induction n using Nat.strongRecOn generalizing v t with
  | ind n ih =>
  rcases shows.cases with ⟨rfl, rfl⟩ | ⟨b, rfl, rfl⟩ | ⟨s, rfl, rfl⟩ |
    ⟨m, a, items, rfl, rfl, rfl, there, each⟩ | ⟨m, o, members, rfl, rfl, rfl, there, distinct, each⟩
  · exact shows_null
  · exact shows_bool b
  · exact shows_string s
  · have ⟨there', same⟩ := keeps.arrays a there
    have items : h'.items a = h.items a := congrArg ArrayData.items same
    refine ⟨there', ?_⟩
    rw [items]
    exact each.imp fun v t shows => ih m (Nat.lt_succ_self m) shows
  · have ⟨there', same⟩ := keeps.objects o there
    have properties : h'.properties o = h.properties o := congrArg ObjectData.properties same
    refine ⟨there', ?_⟩
    rw [properties]
    exact ⟨distinct, each.imp fun entry member same => ⟨same.1, ih m (Nat.lt_succ_self m) same.2⟩⟩

theorem shows_newArray {values : Array Value} {items : List Tree}
    (each : List.Forall₂ (h.Shows n) values.toList items) :
    (h.newArray values).2.Shows (n + 1) (h.newArray values).1 (.array items) := by
  have inside : h.arrays.size < (h.newArray values).2.arrays.size := by simp [newArray]
  have new : (h.newArray values).2.items h.arrays.size = values :=
    congrArg ArrayData.items (arrayAt_newArray_self h values)
  refine ⟨inside, ?_⟩
  rw [new]
  exact each.imp fun v t shows => shows.keep (.newArray h values)

theorem shows_newObject {entries : Entries Value} {members : List (String × Tree)} (distinct : entries.keys.Nodup)
    (each : List.Forall₂ (fun entry member => entry.1 = member.1 ∧ h.Shows n entry.2 member.2) entries members) :
    (h.newObject entries).2.Shows (n + 1) (h.newObject entries).1 (.object members) := by
  have inside : h.objects.size < (h.newObject entries).2.objects.size := by simp [newObject]
  have new : (h.newObject entries).2.properties h.objects.size = entries :=
    congrArg ObjectData.properties (objectAt_newObject_self h entries)
  refine ⟨inside, ?_⟩
  rw [new]
  exact ⟨distinct, each.imp fun entry member same => ⟨same.1, same.2.keep (.newObject h entries)⟩⟩

/-- A value nests as its tree does. -/
theorem Shows.nests (shows : h.Shows n v t) : t.Nests n := by
  induction n using Nat.strongRecOn generalizing v t with
  | ind n ih =>
  rcases shows.cases with ⟨rfl, rfl⟩ | ⟨b, rfl, rfl⟩ | ⟨s, rfl, rfl⟩ |
    ⟨m, a, items, rfl, rfl, rfl, -, each⟩ | ⟨m, o, members, rfl, rfl, rfl, -, -, each⟩
  · unfold Tree.Nests
    trivial
  · unfold Tree.Nests
    trivial
  · unfold Tree.Nests
    trivial
  · exact ((List.forall₂_and_left items _).1 (each.flip.imp fun t v shows =>
      (⟨ih m (Nat.lt_succ_self m) shows, shows⟩ : t.Nests m ∧ h.Shows m v t))).1
  · exact ((List.forall₂_and_left members _).1 (each.flip.imp fun member entry same =>
      (⟨ih m (Nat.lt_succ_self m) same.2, same.2⟩ : member.2.Nests m ∧ h.Shows m entry.2 member.2))).1

end Heap

/-! ## Building values -/

namespace EvalM

variable {α β : Type} {x : EvalM α} {f : α → EvalM β} {s : State} {P : α → Heap → Prop} {Q : β → Heap → Prop}

/-- From the state, the step gives a value and changes nothing but the heap, where it keeps all containers that
are there. -/
def Builds (x : EvalM α) (s : State) (P : α → Heap → Prop) : Prop :=
  ∃ a h, x s = .ok a { s with heap := h } ∧ s.heap.Keeps h ∧ P a h

namespace Builds

theorem pure {a : α} (holds : P a s.heap) : Builds (Pure.pure a) s P :=
  ⟨a, s.heap, rfl, .refl _, holds⟩

theorem bind (first : Builds x s P)
    (next : ∀ a h, s.heap.Keeps h → P a h → Builds (f a) { s with heap := h } Q) : Builds (x >>= f) s Q := by
  obtain ⟨a, h, run, keeps, holds⟩ := first
  obtain ⟨b, h', run', keeps', holds'⟩ := next a h keeps holds
  exact ⟨b, h', (bind_of_ok run).trans run', keeps.trans keeps', holds'⟩

/-- One item is taken after another. `R` says what has been built from the items so far. -/
theorem foldlM {f : β → α → EvalM β} {R : List α → β → Heap → Prop} {items : List α}
    (each : ∀ past a future, past ++ a :: future = items → ∀ (b : β) (s : State), s.interrupted = false →
      R past b s.heap → Builds (f b a) s (R (past ++ [a])))
    {past left : List α} (all : past ++ left = items) {b : β} (runs : s.interrupted = false)
    (holds : R past b s.heap) : Builds (left.foldlM f b) s (R items) := by
  induction left generalizing past b s with
  | nil =>
    rw [List.append_nil] at all
    exact pure (all ▸ holds)
  | cons a more ih =>
    rw [List.foldlM_cons]
    exact (each past a more all b s runs holds).bind fun next h _ holds' =>
      ih ((List.append_assoc past [a] more).trans all) runs holds'

end Builds

end EvalM

/-- The expression of the tree evaluates to a value that is the tree. -/
def Interpreter.Builds (sub : Interpreter) (n : Nat) (t : Tree) : Prop :=
  ∀ s : State, s.interrupted = false → EvalM.Builds (sub.expr t.expr) s fun v h => h.Shows n v t

variable {sub : Interpreter} {n : Nat} {s : State}

theorem newArray_builds {values : Array Value} {items : List Tree}
    (each : List.Forall₂ (s.heap.Shows n) values.toList items) :
    Builds (allocate (·.newArray values)) s fun v h => h.Shows (n + 1) v (.array items) :=
  ⟨_, _, rfl, .newArray s.heap values, Heap.shows_newArray each⟩

theorem newObject_builds {entries : Entries Value} {members : List (String × Tree)} (distinct : entries.keys.Nodup)
    (each : List.Forall₂ (fun entry member => entry.1 = member.1 ∧ s.heap.Shows n entry.2 member.2)
      entries members) :
    Builds (allocate (·.newObject entries)) s fun v h => h.Shows (n + 1) v (.object members) :=
  ⟨_, _, rfl, .newObject s.heap entries, Heap.shows_newObject distinct each⟩

theorem evalList_builds {items : List Tree} (each : ∀ t ∈ items, sub.Builds n t)
    (runs : s.interrupted = false) :
    EvalM.Builds (evalList sub (Tree.exprs items)) s fun values h =>
      List.Forall₂ (h.Shows n) values.toList items := by
  rw [evalList, Tree.exprs_eq_map, List.foldlM_map]
  refine Builds.foldlM (R := fun past (done : Array Value) h => List.Forall₂ (h.Shows n) done.toList past)
    (fun past t future all done s runs holds => ?_) (List.nil_append items) runs .nil
  have item : Builds (do return done.push (← sub.expr t.expr)) s fun done h =>
      List.Forall₂ (h.Shows n) done.toList (past ++ [t]) := by
    refine (each t (all ▸ List.mem_append_cons_self) s runs).bind fun v h keeps shows => .pure ?_
    rw [Array.toList_push]
    exact List.rel_append (holds.imp fun v t shows => shows.keep keeps) (.cons shows .nil)
  cases t <;> exact item

/-- Members are built in their order, since no key stands twice. -/
theorem evalObject_builds {members : List (String × Tree)} (each : ∀ m ∈ members, sub.Builds n m.2)
    (distinct : (Entries.keys members).Nodup) (runs : s.interrupted = false) :
    EvalM.Builds (evalObject sub (Tree.properties members)) s fun v h => h.Shows (n + 1) v (.object members) := by
  rw [evalObject, Tree.properties_eq_map, List.foldlM_map]
  refine Builds.bind (Builds.foldlM (R := fun past (done : Entries Value) h =>
      List.Forall₂ (fun entry member => entry.1 = member.1 ∧ h.Shows n entry.2 member.2) done past)
    (fun past m future all done s runs holds => ?_) (List.nil_append members) runs .nil) ?_
  · have absent : m.1 ∉ done.keys := by
      rw [Heap.keys_eq_of_shows holds]
      rw [← all] at distinct
      exact (Entries.not_mem_keys_around distinct).1
    have named : evalNamed sub m.1 m.2.expr = sub.expr m.2.expr := by
      cases m.2 <;> rfl
    dsimp only
    rw [named]
    refine (each m (all ▸ List.mem_append_cons_self) s runs).bind fun v h keeps shows => .pure ?_
    rw [Entries.insert_of_not_mem absent]
    exact List.rel_append (holds.imp fun _ _ same => ⟨same.1, same.2.keep keeps⟩) (.cons ⟨rfl, shows⟩ .nil)
  · intro entries h _ each
    exact newObject_builds (Heap.keys_eq_of_shows each ▸ distinct) each

/-- What a value shows is built again by the expression of its tree. -/
theorem tree_builds (ctx : Context) {h : Heap} {v : Value} {t : Tree} (shows : h.Shows n v t) {levels : Nat}
    (enough : n < levels) : (interpreter ctx levels).Builds n t := by
  induction n using Nat.strongRecOn generalizing v t levels with
  | ind n ih =>
  obtain ⟨levels, rfl⟩ : ∃ below, levels = below + 1 := ⟨levels - 1, by omega⟩
  intro s runs
  have checked : checkInterrupt s = .ok () s := by rw [checkInterrupt, runs]; rfl
  show Builds (exprStep ctx (interpreter ctx levels) t.expr) s fun v h => h.Shows n v t
  refine Builds.bind (P := fun _ h => h = s.heap) ⟨(), s.heap, checked, .refl _, rfl⟩ ?_
  rintro - _ - rfl
  rcases shows.cases with ⟨rfl, rfl⟩ | ⟨b, rfl, rfl⟩ | ⟨text, rfl, rfl⟩ |
    ⟨m, a, items, rfl, rfl, rfl, -, each⟩ | ⟨m, o, members, rfl, rfl, rfl, -, distinct, each⟩
  · exact .pure Heap.shows_null
  · exact .pure (Heap.shows_bool b)
  · exact .pure (Heap.shows_string text)
  · have items : ∀ t ∈ items, (interpreter ctx levels).Builds m t := ((List.forall₂_and_left items _).1
      (each.flip.imp fun t v shows =>
        (⟨ih m (Nat.lt_succ_self m) shows (by omega), shows⟩ : (interpreter ctx levels).Builds m t ∧ h.Shows m v t))).1
    exact (evalList_builds items runs).bind fun values h _ each => newArray_builds each
  · have inside : ∀ member ∈ members, (interpreter ctx levels).Builds m member.2 :=
      ((List.forall₂_and_left members _).1 (each.flip.imp fun member entry same =>
        (⟨ih m (Nat.lt_succ_self m) same.2 (by omega), same.2⟩ :
          (interpreter ctx levels).Builds m member.2 ∧ h.Shows m entry.2 member.2))).1
    exact evalObject_builds inside (Heap.keys_eq_of_shows each ▸ distinct) runs

/-- The JSON text of a value made of `null`, booleans, strings, arrays and objects is an expression. Evaluated on
its own it gives a value of the same shape, with the same keys in the same order, and it changes nothing that was
there. -/
theorem json_evaluates (ctx : Context) {s : State} (runs : s.interrupted = false) {h : Heap} {v : Value} {t : Tree}
    (shows : h.Shows 70 v t) {indent : Option Nat} {text : String} (written : h.json v indent = .text text) :
    ∃ e, parseExpr text = .ok e ∧ ∃ v' h', ctx.evaluate e s = .ok v' { s with heap := h' } ∧
      s.heap.Keeps h' ∧ h'.Shows 70 v' t := by
  have scans : Lexer.Scans text.toList (t.kinds ++ [.eof]) := by
    unfold Heap.json at written
    rw [shows.not_omitted, if_neg Bool.false_ne_true] at written
    split at written
    next written' =>
      cases written
      simpa using Heap.jsonAt_scans shows written' [] [.eof] Lexer.stopsWord_nil .nil
    next => cases written
  refine ⟨t.expr, parseExpr_of_scans shows.nests (by decide) scans, ?_⟩
  have enough : 70 < grantedLevels := by decide
  obtain ⟨v', h', run, keeps, shows'⟩ := tree_builds ctx shows enough
    { s with env := .empty ctx.options.maxCallDepth } runs
  exact ⟨v', h', Context.evaluate_of_ok run, keeps, shows'⟩

/-- An object with keys that are no names, an array inside, and a string with characters to escape. -/
def nestedHeap : Heap where
  arrays := #[{ items := #[.string "a\"\n", .null] }]
  objects := #[{ properties := [("k y", .array 0), ("", .bool true)] }]

/-- What the object shows. -/
def nestedTree : Tree :=
  .object [("k y", .array [.string "a\"\n", .null]), ("", .bool true)]

/-- The text of the object, evaluated as an expression, gives an object that shows the same. -/
theorem nested_json_evaluates :
    ∃ e, parseExpr "\x7b\"k y\":[\"a\\\"\\n\",null],\"\":true\x7d" = .ok e ∧
      ∃ v' h', (Context.mk (.object 0) .undefined {} []).evaluate e { heap := nestedHeap } =
          .ok v' { heap := h' } ∧
        nestedHeap.Keeps h' ∧ h'.Shows 70 v' nestedTree := by
  have shows : nestedHeap.Shows 70 (.object 0) nestedTree :=
    ⟨by decide, by decide,
      .cons ⟨rfl, by decide, .cons (Heap.shows_string _) (.cons Heap.shows_null .nil)⟩
        (.cons ⟨rfl, Heap.shows_bool _⟩ .nil)⟩
  have written : nestedHeap.json (.object 0) none =
      .text "\x7b\"k y\":[\"a\\\"\\n\",null],\"\":true\x7d" := by decide +kernel
  exact json_evaluates (Context.mk (.object 0) .undefined {} []) (s := { heap := nestedHeap }) rfl shows written

end BindScript
