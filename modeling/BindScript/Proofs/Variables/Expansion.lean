import Mathlib.Data.Finset.Card
import Mathlib.Data.Finset.Dedup
import Mathlib.Logic.Relation
import Mathlib.Order.Bounds.Defs
import BindScript.Variables.Resolve

/-!
# The dependencies of a declaration with those of its functions

What a declaration depends on is searched depth first through the table of functions. `Preorder` is the search
with no bound on its depth: a derivation is a search that comes to an end, and there is one only
(`Preorder.unique`). It says all there is to say about the result: nothing is found twice (`Preorder.nodup`),
all that is pending is found with what it leads to (`Preorder.covers`, `Preorder.closed`), and nothing else
(`Preorder.least`). The same derivation is a run of the loop over a stack of pending dependencies
(`Preorder.turns`).

`expandDeps` carries a bounded number of steps. They are enough because every step down adds a dependency that
is named somewhere, in the declaration or in the table (`preorder_expandFrom`).
-/

namespace BindScript.Variables

open Dependency

/-- One dependency leads to another: to all of the function that has its whole text as the name, or, if there
is no such function, to all of the function that its root names. -/
inductive Leads (table : FunctionDeps) (d e : String) : Prop
  | whole {deps : List String} : table.get? d = some deps → e ∈ deps → Leads table d e
  | root {path : Path} {deps : List String} : table.get? d = none → Path.parse? d = some path →
      table.get? path.root = some deps → e ∈ deps → Leads table d e

variable {table : FunctionDeps} {d e : String}

/-- The list has just what a function leads to, through other functions and around cycles. -/
theorem mem_functionDeps : e ∈ functionDeps table d ↔ Leads table d e := by
  unfold functionDeps
  constructor
  · intro mem
    split at mem
    next deps entry => exact .whole entry mem
    next missing =>
      split at mem
      next path parsed =>
        cases entry : table.get? path.root with
        | none => simp [entry] at mem
        | some deps => exact .root missing parsed entry (by simpa [entry] using mem)
      next => cases mem
  · rintro (⟨entry, mem⟩ | ⟨missing, parsed, entry, mem⟩)
    · simpa [entry] using mem
    · simpa [missing, parsed, entry] using mem

/-! ## The search -/

/-- The search through pending dependencies in their order, after some are done: one that is done is passed
by, and any other is followed by what it leads to before the next one has its turn. -/
inductive Preorder (table : FunctionDeps) : List String → List String → List String → Prop
  | nil (done : List String) : Preorder table done [] done
  | again {d : String} {done pending found : List String} : d ∈ done →
      Preorder table done pending found → Preorder table done (d :: pending) found
  | first {d : String} {done pending below found : List String} : d ∉ done →
      Preorder table (done ++ [d]) (functionDeps table d) below →
      Preorder table below pending found → Preorder table done (d :: pending) found

variable {done pending found : List String}

namespace Preorder

/-- What is done comes first, in its order. -/
theorem isPrefix_done (search : Preorder table done pending found) : done <+: found := by
  induction search with
  | nil => exact List.prefix_rfl
  | again _ _ ih => exact ih
  | first _ _ _ below later => exact (List.prefix_append _ _).trans (below.trans later)

theorem nodup (search : Preorder table done pending found) (once : done.Nodup) : found.Nodup := by
  induction search with
  | nil => exact once
  | again _ _ ih => exact ih once
  | first new _ _ below later =>
    have added := List.nodup_append.2 ⟨once, List.nodup_singleton _, fun a mem b single => by
      obtain rfl := List.mem_singleton.1 single
      rintro rfl
      exact new mem⟩
    exact later (below added)

/-- Everything that is pending is found. -/
theorem covers (search : Preorder table done pending found) : ∀ d ∈ pending, d ∈ found := by
  induction search with
  | nil => exact List.forall_mem_nil _
  | again mem search ih =>
    intro e pending
    rcases List.mem_cons.1 pending with rfl | pending
    · exact search.isPrefix_done.subset mem
    · exact ih e pending
  | first _ inside search _ later =>
    intro e pending
    rcases List.mem_cons.1 pending with rfl | pending
    · have here := inside.isPrefix_done.subset (List.mem_append_right _ List.mem_cons_self)
      exact search.isPrefix_done.subset here
    · exact later e pending

/-- What a newly found dependency leads to is found as well. -/
theorem closed (search : Preorder table done pending found) :
    ∀ d ∈ found, d ∉ done → ∀ e, Leads table d e → e ∈ found := by
  induction search with
  | nil => exact fun d mem new => absurd mem new
  | again _ _ ih => exact ih
  | @first d done _ below _ _ inside search ihBelow later =>
    intro a mem fresh e leads
    by_cases early : a ∈ below
    · have beneath : e ∈ below := by
        by_cases same : a = d
        · subst same
          exact inside.covers e (mem_functionDeps.2 leads)
        · exact ihBelow a early (by simp [fresh, same]) e leads
      exact search.isPrefix_done.subset beneath
    · exact later a mem early e leads

/-- Nothing is found that does not have to be. -/
theorem least (search : Preorder table done pending found) {s : Set String} (before : ∀ d ∈ done, d ∈ s)
    (given : ∀ d ∈ pending, d ∈ s) (closed : ∀ d ∈ s, ∀ e, Leads table d e → e ∈ s) :
    ∀ d ∈ found, d ∈ s := by
  induction search with
  | nil => exact before
  | again _ _ ih => exact ih before fun e mem => given e (List.mem_cons_of_mem _ mem)
  | @first d done _ _ _ _ _ _ below later =>
    have here : d ∈ s := given d List.mem_cons_self
    have added : ∀ e ∈ done ++ [d], e ∈ s := fun e mem => by
      rcases List.mem_append.1 mem with mem | mem
      · exact before e mem
      · exact List.mem_singleton.1 mem ▸ here
    have beneath := below added fun e mem => closed d here e (mem_functionDeps.1 mem)
    exact later beneath fun e mem => given e (List.mem_cons_of_mem _ mem)

/-- Searches that follow each other are one search. -/
theorem append {deps between : List String} (first : Preorder table done deps between)
    (later : Preorder table between pending found) : Preorder table done (deps ++ pending) found := by
  induction first with
  | nil => exact later
  | again mem _ ih => exact .again mem (ih later)
  | first new inside _ _ ih => exact .first new inside (ih later)

/-- The search finds one list only. -/
theorem unique {found₁ found₂ : List String} (one : Preorder table done pending found₁)
    (other : Preorder table done pending found₂) : found₁ = found₂ := by
  induction one generalizing found₂ with
  | nil => cases other with
    | nil => rfl
  | again mem _ ih => cases other with
    | again _ search => exact ih search
    | first new => exact absurd mem new
  | first new _ _ below later => cases other with
    | again mem => exact absurd mem new
    | first _ inside search =>
      obtain rfl := below inside
      exact later search

end Preorder

/-! ## The loop -/

/-- One turn of the loop, on what is done and the stack of what is pending with its top in front. There is none
when nothing is pending. -/
def turn (table : FunctionDeps) : List String × List String → Option (List String × List String)
  | (_, []) => none
  | (done, d :: pending) =>
    if d ∈ done then some (done, pending) else some (done ++ [d], functionDeps table d ++ pending)

/-- The turns that the loop takes from one state to another. -/
def Turns (table : FunctionDeps) : List String × List String → List String × List String → Prop :=
  Relation.ReflTransGen fun s t => turn table s = some t

/-- The loop does the search and leaves what lies deeper in the stack as it is. -/
theorem Preorder.turns (search : Preorder table done pending found) (deeper : List String) :
    Turns table (done, pending ++ deeper) (found, deeper) := by
  induction search generalizing deeper with
  | nil => exact .refl
  | again mem _ ih => exact .head (if_pos mem) (ih deeper)
  | first new _ _ below later =>
    refine .head (if_neg new) ?_
    exact (below _).trans (later deeper)

/-! ## Enough steps -/

/-- How many of some dependencies are not done. -/
def missing (named : Finset String) (done : List String) : Nat :=
  (named \ done.toFinset).card

theorem missing_anti (named : Finset String) {done found : List String} (grows : done ⊆ found) :
    missing named found ≤ missing named done :=
  Finset.card_le_card fun d mem => by
    simp only [Finset.mem_sdiff, List.mem_toFinset] at mem ⊢
    exact ⟨mem.1, fun seen => mem.2 (grows seen)⟩

theorem missing_lt {named : Finset String} (mem : d ∈ named) (new : d ∉ done) :
    missing named (done ++ [d]) < missing named done := by
  refine Finset.card_lt_card (Finset.ssubset_iff_of_subset ?_ |>.2 ⟨d, by simp [mem, new], by simp⟩)
  intro e
  simp only [Finset.mem_sdiff, List.mem_toFinset, List.mem_append, not_or]
  exact fun ⟨mem, out, _⟩ => ⟨mem, out⟩

/-- Searches from single dependencies put one after another. -/
private theorem preorder_foldl {f : List String → String → List String} {bound : Nat} (named : Finset String)
    (each : ∀ (done : List String), ∀ d ∈ named, missing named done < bound →
      Preorder table done [d] (f done d))
    (pending : List String) (known : ∀ d ∈ pending, d ∈ named) (enough : missing named done < bound) :
    Preorder table done pending (pending.foldl f done) := by
  induction pending generalizing done with
  | nil => exact .nil done
  | cons d pending ih =>
    have search := each done d (known d List.mem_cons_self) enough
    have less := missing_anti named search.isPrefix_done.subset
    exact search.append (ih (fun e mem => known e (List.mem_cons_of_mem _ mem)) (Nat.lt_of_le_of_lt less enough))

/-- With more steps than there are dependencies to find, the bounded search is the search. -/
theorem preorder_expandFrom {named : Finset String} (closed : ∀ d, ∀ e ∈ functionDeps table d, e ∈ named)
    {steps : Nat} (mem : d ∈ named) (enough : missing named done < steps) :
    Preorder table done [d] (expandFrom table steps done d) := by
  induction steps generalizing done d with
  | zero => cases enough
  | succ steps ih =>
    unfold expandFrom
    split
    next seen => exact .again (List.contains_iff_mem.1 seen) (.nil done)
    next new =>
      have new : d ∉ done := fun mem => new (List.contains_iff_mem.2 mem)
      have fewer : missing named (done ++ [d]) < steps := by
        have less := missing_lt mem new
        omega
      exact .first new (preorder_foldl named (fun _ _ mem enough => ih mem enough) _ (closed d) fewer) (.nil _)

/-- All dependencies that are named somewhere: given, or of a function. -/
def named (table : FunctionDeps) (deps : List String) : Finset String :=
  (deps ++ table.flatMap fun entry => entry.2).toFinset

theorem Leads.mem_named {deps : List String} (leads : Leads table d e) : e ∈ named table deps := by
  obtain ⟨name, members, entry, mem⟩ : ∃ name members, table.get? name = some members ∧ e ∈ members := by
    cases leads with
    | whole entry mem => exact ⟨_, _, entry, mem⟩
    | root _ _ entry mem => exact ⟨_, _, entry, mem⟩
  have inside := Entries.mem_of_get? entry
  simp only [named, List.mem_toFinset, List.mem_append, List.mem_flatMap]
  exact .inr ⟨_, inside, mem⟩

/-- A bound on the names that can be added, by which the expansion comes to an end. -/
theorem card_named_le (table : FunctionDeps) (deps : List String) :
    (named table deps).card ≤ deps.length + table.foldl (fun n entry => n + entry.2.length) 0 := by
  have total : ∀ (rest : FunctionDeps) (n : Nat),
      rest.foldl (fun n entry => n + entry.2.length) n = n + (rest.flatMap fun entry => entry.2).length := by
    intro rest
    induction rest with
    | nil => exact fun n => rfl
    | cons entry rest ih =>
      intro n
      rw [List.foldl_cons, ih, List.flatMap_cons, List.length_append]
      omega
  have card := List.toFinset_card_le (deps ++ table.flatMap fun entry => entry.2)
  rw [List.length_append] at card
  rw [total, Nat.zero_add]
  exact card

theorem preorder_expandDeps (table : FunctionDeps) (deps : List String) :
    Preorder table [] deps (expandDeps table deps) := by
  have all : missing (named table deps) [] ≤ (named table deps).card := Finset.card_le_card Finset.sdiff_subset
  have count := card_named_le table deps
  refine preorder_foldl (named table deps) ?_ deps ?_ (Nat.lt_succ_of_le (all.trans count))
  · exact fun _ d mem enough =>
      preorder_expandFrom (fun d e mem => (mem_functionDeps.1 mem).mem_named) mem enough
  · intro d mem
    simp only [named, List.mem_toFinset, List.mem_append]
    exact .inl mem

/-- The loop over the pending dependencies comes to an end. It finds each dependency once, exactly the least
set that has the given ones and all that a member leads to, in the order of first visits depth first. -/
theorem expandDeps_exact (table : FunctionDeps) (deps : List String) :
    Turns table ([], deps) (expandDeps table deps, []) ∧
      (expandDeps table deps).Nodup ∧
      IsLeast {s : Set String | (∀ d ∈ deps, d ∈ s) ∧ ∀ d ∈ s, ∀ e, Leads table d e → e ∈ s}
        {d | d ∈ expandDeps table deps} ∧
      ∀ found, Preorder table [] deps found ↔ found = expandDeps table deps := by
  have search := preorder_expandDeps table deps
  refine ⟨?_, search.nodup .nil, ⟨⟨search.covers, fun d mem => search.closed d mem List.not_mem_nil⟩, ?_⟩,
    fun found => ⟨fun other => other.unique search, ?_⟩⟩
  · have run := search.turns []
    rwa [List.append_nil] at run
  · exact fun s least => search.least (fun _ mem => absurd mem List.not_mem_nil) least.1 least.2
  · rintro rfl
    exact search

/-- Functions that lead to each other, one of them through the root of a path. -/
example : expandDeps [("a", ["b", "a.x"]), ("b", ["a", "c"])] ["a.x", "c"] = ["a.x", "b", "a", "c"] := by
  with_unfolding_all rfl

end BindScript.Variables
