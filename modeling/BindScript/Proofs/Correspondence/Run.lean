import BindScript.Environment
import BindScript.Proofs.Correspondence.Reading
import Mathlib.Order.Basic
import BindScript.Evaluation.Basic
import BindScript.Heap

/-!
# Runs that correspond

A `Correspondence` is what two runs have in common while they go on: worlds that only grow, each with a
pairing of addresses, and a relation between heaps that every write of an evaluation keeps. Its fields
are the obligations of whoever wants to compare two runs; `Interpreter.lean` shows that they suffice.

`C.Sim m Q w x₁ x₂ s₁ s₂` says that the steps `x₁` and `x₂`, taken from states `s₁` and `s₂` of the world
`w`, end in the same way: both with results related by `Q`, or both with exits that are alike, in states of
a later world. The manner `m` says besides what the steps do to the scopes and whether they may jump:
an expression leaves the scopes as they were and never jumps.
-/

/-!
## Environments that correspond

Two environments are alike when they have the same scopes and the same names, and the cells of their
bindings are paired. A name then means bindings that are alike (`Alike.find?`).

`env.Grows env'` is what an evaluation may do to the scopes around it: bind more names in the innermost
one. Leaving a scope that was entered before undoes all of it (`pop_of_grows_push`).
-/

namespace BindScript

namespace Environment

/-- The names that are bound, oldest first. -/
def names (env : Environment) : List String :=
  Binding.names env.bindings

/-- The same scopes with more bindings in the innermost one. -/
structure Grows (env env' : Environment) : Prop where
  frames : env'.frames = env.frames
  callDepth : env'.callDepth = env.callDepth
  maxCallDepth : env'.maxCallDepth = env.maxCallDepth
  bindings : env.bindings.toList <+: env'.bindings.toList

theorem Grows.refl (env : Environment) : env.Grows env :=
  ⟨rfl, rfl, rfl, List.prefix_refl _⟩

theorem Grows.trans {a b c : Environment} (h : a.Grows b) (k : b.Grows c) : a.Grows c :=
  ⟨k.frames.trans h.frames, k.callDepth.trans h.callDepth, k.maxCallDepth.trans h.maxCallDepth,
    h.bindings.trans k.bindings⟩

theorem Grows.names {env env' : Environment} (h : env.Grows env') {n : String} (mem : n ∈ env.names) :
    n ∈ env'.names := by
  obtain ⟨b, hb, rfl⟩ := List.mem_map.1 mem
  exact List.mem_map.2 ⟨b, h.bindings.subset hb, rfl⟩

theorem grows_bind (env : Environment) (name : String) (cell : Nat) (kind : BindingKind) :
    env.Grows (env.bind name cell kind) :=
  ⟨rfl, rfl, rfl, by simp [Environment.bind]⟩

/-- Leaving a scope undoes all that was bound in it. -/
theorem pop_of_grows_push {env env' : Environment} (h : env.push.Grows env') : env'.pop = env := by
  have frames : env'.frames = env.bindings.size :: env.frames := h.frames
  have kept : env'.bindings.shrink env.bindings.size = env.bindings := by
    obtain ⟨more, eq⟩ := h.bindings
    apply Array.ext'
    rw [Array.toList_shrink, ← eq]
    exact List.take_left
  have depth : env'.callDepth = env.callDepth := h.callDepth
  have limit : env'.maxCallDepth = env.maxCallDepth := h.maxCallDepth
  simp only [pop, frames, kept, depth, limit]

theorem mem_names_bind {env : Environment} {n name : String} {cell : Nat} {kind : BindingKind} :
    n ∈ (env.bind name cell kind).names ↔ n ∈ env.names ∨ n = name := by
  simp [names, Binding.names, Environment.bind]

theorem contains_iff_mem_names {env : Environment} {name : String} :
    env.contains name = true ↔ name ∈ env.names := by
  simp [contains, find?, names, Binding.names, Array.find?_isSome]

theorem find?_eq_none_iff {env : Environment} {name : String} :
    env.find? name = none ↔ name ∉ env.names := by
  rw [← contains_iff_mem_names, contains]
  cases env.find? name <;> simp

theorem mem_names_of_containsInScope {env : Environment} {name : String}
    (h : env.containsInScope name = true) : name ∈ env.names := by
  obtain ⟨i, hi, _, _, hname⟩ := Array.any_iff_exists.1 h
  exact List.mem_map.2 ⟨env.bindings[i], by simp, by simpa using hname⟩

/-- Environments with the same scopes and names, whose cells are paired. -/
structure Alike (p : Pairing) (env₁ env₂ : Environment) : Prop where
  bindings : List.Forall₂ (Binding.Alike p) env₁.bindings.toList env₂.bindings.toList
  frames : env₁.frames = env₂.frames
  callDepth : env₁.callDepth = env₂.callDepth
  maxCallDepth : env₁.maxCallDepth = env₂.maxCallDepth

namespace Alike

variable {p q : Pairing} {env₁ env₂ : Environment} (h : Environment.Alike p env₁ env₂)
include h

theorem mono (le : p.Le q) : Environment.Alike q env₁ env₂ :=
  ⟨h.bindings.imp fun _ _ b => ⟨b.name, b.kind, le.cells b.cell⟩, h.frames, h.callDepth,
    h.maxCallDepth⟩

theorem names_eq : env₁.names = env₂.names :=
  h.bindings.map_eq fun b => b.name

/-- The innermost binding of a name is paired with the innermost binding of it. -/
theorem find? (name : String) :
    Option.Rel (Binding.Alike p) (env₁.find? name) (env₂.find? name) := by
  simp only [Environment.find?, Array.findRev?_eq_find?_reverse, ← Array.find?_toList,
    Array.toList_reverse]
  have reversed := List.rel_reverse h.bindings
  generalize env₁.bindings.toList.reverse = bs₁ at reversed ⊢
  generalize env₂.bindings.toList.reverse = bs₂ at reversed ⊢
  induction reversed with
  | nil => exact .none
  | cons head _ ih =>
    rw [List.find?_cons, List.find?_cons, head.name]
    split
    · exact .some head
    · exact ih

theorem contains_eq (name : String) : env₁.contains name = env₂.contains name := by
  rw [Bool.eq_iff_iff, contains_iff_mem_names, contains_iff_mem_names, h.names_eq]

/-- The innermost scopes have the same names. -/
theorem containsInScope_eq (name : String) :
    env₁.containsInScope name = env₂.containsInScope name := by
  have sizes : env₁.bindings.size = env₂.bindings.size := h.bindings.length_eq
  have starts : env₁.frameStart = env₂.frameStart := by
    simp only [frameStart, h.frames]
  have named : ∀ (i : Nat) (h₁ : i < env₁.bindings.size) (h₂ : i < env₂.bindings.size),
      env₁.bindings[i].name = env₂.bindings[i].name := fun i h₁ h₂ =>
    (h.bindings.get (i := i) h₁ h₂).name
  rw [Bool.eq_iff_iff, containsInScope, containsInScope, Array.any_iff_exists,
    Array.any_iff_exists]
  constructor
  · rintro ⟨i, hi, start, stop, found⟩
    exact ⟨i, sizes ▸ hi, starts ▸ start, sizes ▸ stop, by rw [← named i hi (sizes ▸ hi)]; exact found⟩
  · rintro ⟨i, hi, start, stop, found⟩
    exact ⟨i, sizes ▸ hi, starts ▸ start, sizes ▸ stop, by rw [named i (sizes ▸ hi) hi]; exact found⟩

theorem bind {name : String} {kind : BindingKind} {c₁ c₂ : Nat} (paired : p.cells c₁ c₂) :
    Environment.Alike p (env₁.bind name c₁ kind) (env₂.bind name c₂ kind) :=
  ⟨by
    simp only [Environment.bind, Array.toList_push]
    exact List.rel_append h.bindings (.cons ⟨rfl, rfl, paired⟩ .nil), h.frames, h.callDepth,
    h.maxCallDepth⟩

theorem push : Environment.Alike p env₁.push env₂.push :=
  ⟨h.bindings, by
    simp only [Environment.push, h.frames]
    rw [show env₁.bindings.size = env₂.bindings.size from h.bindings.length_eq],
    h.callDepth, h.maxCallDepth⟩

end Alike

end Environment

end BindScript

/-! ## Correspondences -/

namespace BindScript

/-- What two runs have in common. -/
structure Correspondence where
  World : Type
  [order : Preorder World]
  pairing : World → Pairing
  pairing_le : ∀ {w w' : World}, w ≤ w' → (pairing w).Le (pairing w')
  /-- What the code that runs may reach. -/
  access : Access
  left : Context
  right : Context
  options_eq : left.options = right.options
  /-- The heaps of the two runs, in a world. -/
  heaps : World → Heap → Heap → Prop
  alike : ∀ {w : World} {h₁ h₂ : Heap}, heaps w h₁ h₂ → Heap.Alike (pairing w) access h₁ h₂
  lookup : ∀ {w : World} {h₁ h₂ : Heap} {n : String}, heaps w h₁ h₂ → access.reads n →
    Option.Rel (Value.Alike (pairing w)) (left.lookup h₁ n) (right.lookup h₂ n)
  locals : ∀ {w : World} {h₁ h₂ : Heap}, access.writes → heaps w h₁ h₂ →
    Value.Alike (pairing w) left.locals right.locals
  newArray : ∀ {w : World} {h₁ h₂ : Heap} {items₁ items₂ : Array Value}, heaps w h₁ h₂ →
    Value.AllAlike (pairing w) items₁.toList items₂.toList →
    ∃ w', w ≤ w' ∧ heaps w' (h₁.newArray items₁).2 (h₂.newArray items₂).2 ∧
      (pairing w').arrays h₁.arrays.size h₂.arrays.size
  newObject : ∀ {w : World} {h₁ h₂ : Heap} {m₁ m₂ : Entries Value}, heaps w h₁ h₂ →
    Entries.Alike (pairing w) m₁ m₂ →
    ∃ w', w ≤ w' ∧ heaps w' (h₁.newObject m₁).2 (h₂.newObject m₂).2 ∧
      (pairing w').objects h₁.objects.size h₂.objects.size
  newClosure : ∀ {w : World} {h₁ h₂ : Heap} {c₁ c₂ : Closure}, heaps w h₁ h₂ →
    Closure.Alike (pairing w) access c₁ c₂ →
    ∃ w', w ≤ w' ∧ heaps w' (h₁.newClosure c₁).2 (h₂.newClosure c₂).2 ∧
      (pairing w').closures h₁.closures.size h₂.closures.size
  newCell : ∀ {w : World} {h₁ h₂ : Heap} {v₁ v₂ : Value}, heaps w h₁ h₂ →
    Value.Alike (pairing w) v₁ v₂ →
    ∃ w', w ≤ w' ∧ heaps w' (h₁.newCell v₁).2 (h₂.newCell v₂).2 ∧
      (pairing w').cells h₁.cells.size h₂.cells.size
  setCell : ∀ {w : World} {h₁ h₂ : Heap} {c₁ c₂ : Nat} {v₁ v₂ : Value}, heaps w h₁ h₂ →
    (pairing w).cells c₁ c₂ → Value.Alike (pairing w) v₁ v₂ →
    ∃ w', w ≤ w' ∧ heaps w' (h₁.setCell c₁ v₁) (h₂.setCell c₂ v₂)
  /-- Items are changed only while the array is not frozen. -/
  modifyItems : ∀ {w : World} {h₁ h₂ : Heap} {a b : Nat} {f g : Array Value → Array Value},
    heaps w h₁ h₂ → (pairing w).arrays a b → (h₁.arrayAt a).frozen = false →
    Value.AllAlike (pairing w) (f (h₁.items a)).toList (g (h₂.items b)).toList →
    ∃ w', w ≤ w' ∧ heaps w' (h₁.modifyItems a f) (h₂.modifyItems b g)
  /-- Properties are changed only while the object is not frozen, and taken out only by code that may
  write. -/
  modifyProperties : ∀ {w : World} {h₁ h₂ : Heap} {a b : Nat} {f g : Entries Value → Entries Value},
    heaps w h₁ h₂ → (pairing w).objects a b → (h₁.objectAt a).frozen = false →
    (access.writes ∨ (h₁.properties a).keys ⊆ (f (h₁.properties a)).keys) →
    Entries.Alike (pairing w) (f (h₁.properties a)) (g (h₂.properties b)) →
    ∃ w', w ≤ w' ∧ heaps w' (h₁.modifyProperties a f) (h₂.modifyProperties b g)
  freeze : ∀ {w : World} {h₁ h₂ : Heap} {v₁ v₂ : Value}, heaps w h₁ h₂ →
    Value.Alike (pairing w) v₁ v₂ → ∃ w', w ≤ w' ∧ heaps w' (h₁.freeze v₁) (h₂.freeze v₂)

attribute [instance] Correspondence.order

/-- What a step may do besides giving a result. -/
inductive Manner
  /-- Leaves the scopes as they were, and never jumps. -/
  | expression
  /-- May bind names in the innermost scope, but never jumps. -/
  | binding
  /-- May bind names in the innermost scope, and may jump. -/
  | statement

namespace Manner

/-- What a step of the manner does to the scopes. -/
def Keeps : Manner → Environment → Environment → Prop
  | expression, env, env' => env' = env
  | _, env, env' => env.Grows env'

/-- Whether a step of the manner may jump. -/
def Jumps : Manner → Prop
  | statement => True
  | _ => False

/-- A manner that allows at least as much. -/
inductive Le : Manner → Manner → Prop
  | refl (m : Manner) : Le m m
  | expression (m : Manner) : Le expression m
  | binding : Le binding statement

theorem Keeps.grows {m : Manner} {env env' : Environment} (h : m.Keeps env env') :
    env.Grows env' := by
  cases m with
  | expression => exact h ▸ .refl env
  | binding | statement => exact h

theorem keeps_refl (m : Manner) (env : Environment) : m.Keeps env env := by
  cases m with
  | expression => rfl
  | binding | statement => exact .refl env

theorem Keeps.trans {m : Manner} {a b c : Environment} (h : m.Keeps a b) (k : m.Keeps b c) :
    m.Keeps a c := by
  cases m with
  | expression => exact Eq.trans k h
  | binding | statement => exact Environment.Grows.trans h k

theorem Le.keeps {m m' : Manner} (le : m.Le m') {env env' : Environment} (h : m.Keeps env env') :
    m'.Keeps env env' := by
  cases le with
  | refl => exact h
  | expression => exact Eq.symm h ▸ m'.keeps_refl env
  | binding => exact h

theorem Le.jumps {m m' : Manner} (le : m.Le m') (h : m.Jumps) : m'.Jumps := by
  cases le with
  | refl => exact h
  | expression => exact False.elim h
  | binding => trivial

end Manner

/-- Exits that are alike; jumps only where the manner allows them. -/
inductive Exit.Alike (m : Manner) (p : Pairing) : Exit → Exit → Prop
  | error {e e' : EvalError} (failure : EvalError.Alike p e e') : Exit.Alike m p (.error e) (.error e')
  | brk (jumps : m.Jumps) : Exit.Alike m p (.jump .brk) (.jump .brk)
  | cont (jumps : m.Jumps) : Exit.Alike m p (.jump .cont) (.jump .cont)
  | ret {v v' : Value} (jumps : m.Jumps) (value : Value.Alike p v v') :
    Exit.Alike m p (.jump (.ret v)) (.jump (.ret v'))
  | exhausted : Exit.Alike m p .exhausted .exhausted
  | clash : Exit.Alike m p .clash .clash

theorem Exit.Alike.mono {m m' : Manner} {p q : Pairing} {e e' : Exit} (h : Exit.Alike m p e e')
    (manner : m.Le m') (le : p.Le q) : Exit.Alike m' q e e' := by
  cases h with
  | error failure => exact .error (failure.mono le)
  | brk jumps => exact .brk (manner.jumps jumps)
  | cont jumps => exact .cont (manner.jumps jumps)
  | ret jumps value => exact .ret (manner.jumps jumps) (value.mono le)
  | exhausted => exact .exhausted
  | clash => exact .clash

namespace Correspondence

variable (C : Correspondence)

/-- States of a world. -/
structure Alike (w : C.World) (s₁ s₂ : State) : Prop where
  heap : C.heaps w s₁.heap s₂.heap
  env : Environment.Alike (C.pairing w) s₁.env s₂.env
  interrupted : s₁.interrupted = s₂.interrupted
  console : s₁.console = s₂.console
  notes : s₁.notes = s₂.notes

/-- States of a world whose scopes bind at least the given names. -/
structure At (bound : List String) (w : C.World) (s₁ s₂ : State) : Prop extends C.Alike w s₁ s₂ where
  bound : ∀ n ∈ bound, n ∈ s₁.env.names

/-- What a step leaves behind, given the world it ends in and the scopes of the first run. -/
abbrev Post (α : Type) : Type :=
  C.World → Environment → α → α → Prop

/-- Both steps end, in the same way. -/
inductive Ends {α : Type} (m : Manner) (Q : C.Post α) (w : C.World) (s₁ s₂ : State) :
    EStateM.Result Exit State α → EStateM.Result Exit State α → Prop
  | ok {a₁ a₂ : α} {t₁ t₂ : State} {w' : C.World} (le : w ≤ w') (alike : C.Alike w' t₁ t₂)
      (keeps₁ : m.Keeps s₁.env t₁.env) (keeps₂ : m.Keeps s₂.env t₂.env)
      (result : Q w' t₁.env a₁ a₂) : Ends m Q w s₁ s₂ (.ok a₁ t₁) (.ok a₂ t₂)
  | error {e₁ e₂ : Exit} {t₁ t₂ : State} {w' : C.World} (le : w ≤ w') (alike : C.Alike w' t₁ t₂)
      (keeps₁ : m.Keeps s₁.env t₁.env) (keeps₂ : m.Keeps s₂.env t₂.env)
      (exit : Exit.Alike m (C.pairing w') e₁ e₂) : Ends m Q w s₁ s₂ (.error e₁ t₁) (.error e₂ t₂)

/-- Steps that correspond when they are taken from the given states. -/
def Sim {α : Type} (m : Manner) (Q : C.Post α) (w : C.World) (x₁ x₂ : EvalM α) (s₁ s₂ : State) :
    Prop :=
  C.Ends m Q w s₁ s₂ (x₁ s₁) (x₂ s₂)

/-- The results are values that are alike. -/
def Vals : C.Post Value :=
  fun w _ v₁ v₂ => Value.Alike (C.pairing w) v₁ v₂

/-- The results are equal. -/
def Same {α : Type} : C.Post α :=
  fun _ _ a₁ a₂ => a₁ = a₂

/-- The results are values that are alike, or both runs have none. -/
def OptVals : C.Post (Option Value) :=
  fun w _ v₁ v₂ => Option.Rel (Value.Alike (C.pairing w)) v₁ v₂

/-- The results are lists of values that are alike. -/
def Lists : C.Post (List Value) :=
  fun w _ vs₁ vs₂ => Value.AllAlike (C.pairing w) vs₁ vs₂

/-- The results are arrays of values that are alike. -/
def Arrays : C.Post (Array Value) :=
  fun w _ vs₁ vs₂ => Value.AllAlike (C.pairing w) vs₁.toList vs₂.toList

end Correspondence

end BindScript
