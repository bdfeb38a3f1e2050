import BindScript.Proofs.Correspondence.Run

/-!
# Steps that correspond

The primitive steps of an evaluation correspond, and so does what is put together from steps that do: one
lemma for each way in which an evaluation joins steps. Reading the heap or the scopes changes nothing, so
`readHeap_bind` and `readEnv_bind` stay in the states they start from; all other joins go on in a later
world (`bind`).
-/

namespace BindScript.Correspondence

open EvalM

variable {C : Correspondence} {m m' : Manner} {bound : List String} {w w' : C.World}
  {s₁ s₂ t₁ t₂ : State} {α β : Type} {P Q : C.Post α} {R : C.Post β}

/-! ## States -/

theorem At.heapAlike (st : C.At bound w s₁ s₂) :
    Heap.Alike (C.pairing w) C.access s₁.heap s₂.heap :=
  C.alike st.heap

theorem Alike.at_nil (st : C.Alike w s₁ s₂) : C.At [] w s₁ s₂ :=
  ⟨st, fun _ mem => nomatch mem⟩

/-- Names that were bound stay bound. -/
theorem At.later (st : C.At bound w s₁ s₂) (alike : C.Alike w' t₁ t₂)
    (keeps : m.Keeps s₁.env t₁.env) : C.At bound w' t₁ t₂ :=
  ⟨alike, fun n mem => keeps.grows.names (st.bound n mem)⟩

theorem At.push (st : C.At bound w s₁ s₂) :
    C.At bound w { s₁ with env := s₁.env.push } { s₂ with env := s₂.env.push } :=
  ⟨⟨st.heap, st.env.push, st.interrupted, st.console, st.notes⟩, st.bound⟩

/-- The world may go on while the states stay. -/
theorem Alike.inHeap {h₁ h₂ : Heap} (st : C.Alike w s₁ s₂) (le : w ≤ w') (heaps : C.heaps w' h₁ h₂) :
    C.Alike w' { s₁ with heap := h₁ } { s₂ with heap := h₂ } :=
  ⟨heaps, st.env.mono (C.pairing_le le), st.interrupted, st.console, st.notes⟩

/-- The names are bound afterwards. -/
def Holds {α : Type} (names : List String) : C.Post α :=
  fun _ env _ _ => ∀ n ∈ names, n ∈ env.names

theorem At.holds_append {name : String} (st : C.At bound w s₁ s₂) (mem : name ∈ s₁.env.names) :
    ∀ n ∈ bound ++ [name], n ∈ s₁.env.names := fun n h =>
  (List.mem_append.1 h).elim (st.bound n) fun last => List.mem_singleton.1 last ▸ mem

/-- There is no result: the step ends with a failure. -/
def Never {α : Type} : C.Post α :=
  fun _ _ _ _ => False

/-! ## Results that last -/

/-- Results that stay related whatever happens after them. -/
structure Lasts (Q : C.Post α) : Prop where
  later : ∀ {w w' : C.World} {env env' : Environment} {a₁ a₂ : α}, w ≤ w' → Q w env a₁ a₂ →
    Q w' env' a₁ a₂

theorem lasts_vals : Lasts (C := C) C.Vals :=
  ⟨fun le v => v.mono (C.pairing_le le)⟩

theorem lasts_same : Lasts (C := C) (α := α) C.Same :=
  ⟨fun _ h => h⟩

theorem lasts_lists : Lasts (C := C) C.Lists :=
  ⟨fun le vs => vs.mono (C.pairing_le le)⟩

/-- The ends of steps that correspond, as values. -/
inductive Tried (m : Manner) (Q : C.Post α) : C.Post (Except Exit α)
  | ok {w : C.World} {env : Environment} {a₁ a₂ : α} (result : Q w env a₁ a₂) :
    Tried m Q w env (.ok a₁) (.ok a₂)
  | error {w : C.World} {env : Environment} {e₁ e₂ : Exit}
    (exit : Exit.Alike m (C.pairing w) e₁ e₂) : Tried m Q w env (.error e₁) (.error e₂)

theorem Lasts.tried (h : Lasts (C := C) Q) : Lasts (C := C) (Tried m Q) where
  later le tried := by
    cases tried with
    | ok result => exact .ok (h.later le result)
    | error exit => exact .error (exit.mono (.refl m) (C.pairing_le le))

/-! ## Primitive steps -/

namespace Sim

theorem pure {a₁ a₂ : α} (st : C.Alike w s₁ s₂) (result : Q w s₁.env a₁ a₂) :
    C.Sim m Q w (Pure.pure a₁) (Pure.pure a₂) s₁ s₂ :=
  .ok (le_refl w) st (m.keeps_refl _) (m.keeps_refl _) result

theorem throw {e₁ e₂ : Exit} (st : C.Alike w s₁ s₂) (exit : Exit.Alike m (C.pairing w) e₁ e₂) :
    C.Sim m Q w (MonadExcept.throw e₁) (MonadExcept.throw e₂) s₁ s₂ :=
  .error (le_refl w) st (m.keeps_refl _) (m.keeps_refl _) exit

theorem exhausted (st : C.Alike w s₁ s₂) :
    C.Sim m Q w (MonadExcept.throw Exit.exhausted) (MonadExcept.throw Exit.exhausted) s₁ s₂ :=
  throw st .exhausted

/-- A failure that holds no value. -/
theorem fail {e : EvalError} (st : C.Alike w s₁ s₂) (ne : ∀ v, e ≠ .thrown v) :
    C.Sim m Q w (EvalM.fail e) (EvalM.fail e) s₁ s₂ :=
  throw st (.error (.same ne))

theorem typeFault (f : TypeFault) (st : C.Alike w s₁ s₂) :
    C.Sim m Q w (EvalM.typeFault f) (EvalM.typeFault f) s₁ s₂ :=
  fail st nofun

theorem refuse (f : EnvironmentFault) (st : C.Alike w s₁ s₂) :
    C.Sim m Q w (EvalM.fail (.ofEnvironment f)) (EvalM.fail (.ofEnvironment f)) s₁ s₂ :=
  fail st (by cases f <;> nofun)

theorem ofExcept {K : α → α → Prop} {x₁ x₂ : Except EvalError α} (st : C.Alike w s₁ s₂)
    (check : CheckAlike (C.pairing w) K x₁ x₂) (result : ∀ {a₁ a₂}, K a₁ a₂ → Q w s₁.env a₁ a₂) :
    C.Sim m Q w (EvalM.ofExcept x₁) (EvalM.ofExcept x₂) s₁ s₂ := by
  cases check with
  | ok h => exact pure st (result h)
  | error failure => exact throw st (.error failure)

/-- What is read of the heap is related. -/
theorem readHeap {f₁ f₂ : Heap → α} (st : C.Alike w s₁ s₂)
    (result : Q w s₁.env (f₁ s₁.heap) (f₂ s₂.heap)) :
    C.Sim m Q w (EvalM.readHeap f₁) (EvalM.readHeap f₂) s₁ s₂ :=
  pure st result

theorem readHeap_bind {f₁ f₂ : Heap → α} {g₁ g₂ : α → EvalM β}
    (h : C.Sim m R w (g₁ (f₁ s₁.heap)) (g₂ (f₂ s₂.heap)) s₁ s₂) :
    C.Sim m R w (EvalM.readHeap f₁ >>= g₁) (EvalM.readHeap f₂ >>= g₂) s₁ s₂ :=
  h

theorem readEnv_bind {f : Environment → α} {g₁ g₂ : α → EvalM β}
    (h : C.Sim m R w (g₁ (f s₁.env)) (g₂ (f s₂.env)) s₁ s₂) :
    C.Sim m R w (EvalM.readEnv f >>= g₁) (EvalM.readEnv f >>= g₂) s₁ s₂ :=
  h

theorem modifyHeap {f₁ f₂ : Heap → Heap} {Q : C.Post Unit} (st : C.Alike w s₁ s₂)
    (heaps : ∃ w', w ≤ w' ∧ C.heaps w' (f₁ s₁.heap) (f₂ s₂.heap))
    (result : ∀ {w'}, w ≤ w' → Q w' s₁.env () ()) :
    C.Sim m Q w (EvalM.modifyHeap f₁) (EvalM.modifyHeap f₂) s₁ s₂ := by
  obtain ⟨w', le, heaps⟩ := heaps
  exact .ok le (st.inHeap le heaps) (m.keeps_refl _) (m.keeps_refl _) (result le)

theorem allocate {f₁ f₂ : Heap → α × Heap} (st : C.Alike w s₁ s₂)
    (heaps : ∃ w', w ≤ w' ∧ C.heaps w' (f₁ s₁.heap).2 (f₂ s₂.heap).2 ∧
      Q w' s₁.env (f₁ s₁.heap).1 (f₂ s₂.heap).1) :
    C.Sim m Q w (EvalM.allocate f₁) (EvalM.allocate f₂) s₁ s₂ := by
  obtain ⟨w', le, heaps, result⟩ := heaps
  exact .ok le (st.inHeap le heaps) (m.keeps_refl _) (m.keeps_refl _) result

theorem newArray {items₁ items₂ : Array Value} (st : C.Alike w s₁ s₂)
    (items : Value.AllAlike (C.pairing w) items₁.toList items₂.toList) :
    C.Sim m C.Vals w (EvalM.allocate (·.newArray items₁)) (EvalM.allocate (·.newArray items₂)) s₁ s₂ := by
  obtain ⟨w', le, heaps, paired⟩ := C.newArray st.heap items
  exact allocate st ⟨w', le, heaps, .array paired⟩

theorem newObject {entries₁ entries₂ : Entries Value} (st : C.Alike w s₁ s₂)
    (entries : Entries.Alike (C.pairing w) entries₁ entries₂) :
    C.Sim m C.Vals w (EvalM.allocate (·.newObject entries₁)) (EvalM.allocate (·.newObject entries₂))
      s₁ s₂ := by
  obtain ⟨w', le, heaps, paired⟩ := C.newObject st.heap entries
  exact allocate st ⟨w', le, heaps, .object paired⟩

/-! ## Joining steps -/

/-- What holds in a manner holds in one that allows more. -/
theorem up {x₁ x₂ : EvalM α} (manner : m.Le m') (x : C.Sim m Q w x₁ x₂ s₁ s₂) :
    C.Sim m' Q w x₁ x₂ s₁ s₂ := by
  unfold Sim at x ⊢
  generalize x₁ s₁ = r₁ at x ⊢
  generalize x₂ s₂ = r₂ at x ⊢
  cases x with
  | ok le alike keeps₁ keeps₂ result =>
    exact .ok le alike (manner.keeps keeps₁) (manner.keeps keeps₂) result
  | error le alike keeps₁ keeps₂ exit =>
    exact .error le alike (manner.keeps keeps₁) (manner.keeps keeps₂)
      (exit.mono manner (C.pairing_le (le_refl _)))

/-- Names that were bound before are bound afterwards. -/
theorem keeping {x₁ x₂ : EvalM α} (st : C.At bound w s₁ s₂) (x : C.Sim m Q w x₁ x₂ s₁ s₂) :
    C.Sim m (Holds bound) w x₁ x₂ s₁ s₂ := by
  unfold Sim at x ⊢
  generalize x₁ s₁ = r₁ at x ⊢
  generalize x₂ s₂ = r₂ at x ⊢
  cases x with
  | ok le alike keeps₁ keeps₂ =>
    exact .ok le alike keeps₁ keeps₂ fun n mem => keeps₁.grows.names (st.bound n mem)
  | error le alike keeps₁ keeps₂ exit => exact .error le alike keeps₁ keeps₂ exit

/-- Steps correspond one after another: the second ones start in states that the first ones have left in
correspondence. -/
theorem bind {x₁ x₂ : EvalM α} {f₁ f₂ : α → EvalM β} (st : C.At bound w s₁ s₂)
    (x : C.Sim m Q w x₁ x₂ s₁ s₂)
    (f : ∀ {w' t₁ t₂ a₁ a₂}, w ≤ w' → C.At bound w' t₁ t₂ → Q w' t₁.env a₁ a₂ →
      C.Sim m R w' (f₁ a₁) (f₂ a₂) t₁ t₂) :
    C.Sim m R w (x₁ >>= f₁) (x₂ >>= f₂) s₁ s₂ := by
  show C.Ends m R w s₁ s₂ (EStateM.bind x₁ f₁ s₁) (EStateM.bind x₂ f₂ s₂)
  unfold Sim at x
  unfold EStateM.bind
  generalize x₁ s₁ = r₁ at x ⊢
  generalize x₂ s₂ = r₂ at x ⊢
  cases x with
  | error le alike keeps₁ keeps₂ exit => exact .error le alike keeps₁ keeps₂ exit
  | @ok a₁ a₂ t₁ t₂ w' le alike keeps₁ keeps₂ result =>
    have next := f le (st.later alike keeps₁) result
    unfold Sim at next
    simp only
    generalize f₁ a₁ t₁ = r₁ at next ⊢
    generalize f₂ a₂ t₂ = r₂ at next ⊢
    cases next with
    | ok le' alike' keeps₁' keeps₂' result' =>
      exact .ok (le_trans le le') alike' (keeps₁.trans keeps₁') (keeps₂.trans keeps₂') result'
    | error le' alike' keeps₁' keeps₂' exit =>
      exact .error (le_trans le le') alike' (keeps₁.trans keeps₁') (keeps₂.trans keeps₂') exit

theorem discard {x₁ x₂ : EvalM α} (st : C.Alike w s₁ s₂) (x : C.Sim m Q w x₁ x₂ s₁ s₂) :
    C.Sim m C.Same w (Functor.discard x₁) (Functor.discard x₂) s₁ s₂ :=
  bind st.at_nil x fun _ st _ => pure st.toAlike rfl

theorem ite {c₁ c₂ : Bool} {x₁ x₂ y₁ y₂ : EvalM α} (eq : c₁ = c₂)
    (yes : c₁ = true → C.Sim m Q w x₁ x₂ s₁ s₂) (no : c₁ = false → C.Sim m Q w y₁ y₂ s₁ s₂) :
    C.Sim m Q w (if c₁ then x₁ else y₁) (if c₂ then x₂ else y₂) s₁ s₂ := by
  subst eq
  cases c₁ with
  | true => exact yes rfl
  | false => exact no rfl

/-! ## Ends as values -/

theorem attempt {x₁ x₂ : EvalM α} (keeps : ∀ {env env'}, m.Keeps env env' → m'.Keeps env env')
    (x : C.Sim m Q w x₁ x₂ s₁ s₂) :
    C.Sim m' (Tried m Q) w (EvalM.attempt x₁) (EvalM.attempt x₂) s₁ s₂ := by
  unfold Sim at x ⊢
  unfold EvalM.attempt
  generalize x₁ s₁ = r₁ at x ⊢
  generalize x₂ s₂ = r₂ at x ⊢
  cases x with
  | ok le alike keeps₁ keeps₂ result =>
    exact .ok le alike (keeps keeps₁) (keeps keeps₂) (.ok result)
  | error le alike keeps₁ keeps₂ exit =>
    exact .ok le alike (keeps keeps₁) (keeps keeps₂) (.error exit)

theorem resume {r₁ r₂ : Except Exit α} (st : C.Alike w s₁ s₂)
    (tried : Tried (C := C) m Q w s₁.env r₁ r₂) :
    C.Sim m Q w (EvalM.resume r₁) (EvalM.resume r₂) s₁ s₂ := by
  cases tried with
  | ok result => exact pure st result
  | error exit => exact throw st exit

/-- Leaving the scope brings back the scopes from before. -/
theorem inScope {x₁ x₂ : EvalM α} (st : C.At bound w s₁ s₂) (lasts : Lasts (C := C) Q)
    (x : C.At bound w { s₁ with env := s₁.env.push } { s₂ with env := s₂.env.push } →
      C.Sim m Q w x₁ x₂ { s₁ with env := s₁.env.push } { s₂ with env := s₂.env.push }) :
    C.Sim m Q w (EvalM.inScope x₁) (EvalM.inScope x₂) s₁ s₂ := by
  have inner := x st.push
  unfold Sim at inner ⊢
  simp only [EvalM.inScope, EvalM.modifyEnv, EvalM.attempt, EvalM.resume, Bind.bind, EStateM.bind]
  generalize x₁ _ = r₁ at inner ⊢
  generalize x₂ _ = r₂ at inner ⊢
  have back : ∀ {w' : C.World} {t₁ t₂ : State}, w ≤ w' → C.Alike w' t₁ t₂ →
      m.Keeps s₁.env.push t₁.env → m.Keeps s₂.env.push t₂.env →
      C.Alike w' { t₁ with env := t₁.env.pop } { t₂ with env := t₂.env.pop } ∧
        m.Keeps s₁.env t₁.env.pop ∧ m.Keeps s₂.env t₂.env.pop := by
    intro w' t₁ t₂ le alike keeps₁ keeps₂
    rw [Environment.pop_of_grows_push keeps₁.grows, Environment.pop_of_grows_push keeps₂.grows]
    exact ⟨⟨alike.heap, st.env.mono (C.pairing_le le), alike.interrupted, alike.console, alike.notes⟩,
      m.keeps_refl _, m.keeps_refl _⟩
  cases inner with
  | ok le alike keeps₁ keeps₂ result =>
    obtain ⟨alike, keeps₁, keeps₂⟩ := back le alike keeps₁ keeps₂
    exact .ok le alike keeps₁ keeps₂ (lasts.later (le_refl _) result)
  | error le alike keeps₁ keeps₂ exit =>
    obtain ⟨alike, keeps₁, keeps₂⟩ := back le alike keeps₁ keeps₂
    exact .error le alike keeps₁ keeps₂ exit

/-- A step that runs in scopes of its own may bind names there. -/
theorem inEnvironment {env₁ env₂ : Environment} {x₁ x₂ : EvalM α} (st : C.Alike w s₁ s₂)
    (lasts : Lasts (C := C) Q)
    (x : C.Sim .binding Q w x₁ x₂ { s₁ with env := env₁ } { s₂ with env := env₂ }) :
    C.Sim m Q w (EvalM.inEnvironment env₁ x₁) (EvalM.inEnvironment env₂ x₂) s₁ s₂ := by
  unfold Sim at x ⊢
  simp only [EvalM.inEnvironment, EvalM.readEnv, EvalM.modifyEnv, EvalM.attempt, EvalM.resume,
    Bind.bind, EStateM.bind]
  generalize x₁ _ = r₁ at x ⊢
  generalize x₂ _ = r₂ at x ⊢
  have back : ∀ {w' : C.World} {t₁ t₂ : State}, w ≤ w' → C.Alike w' t₁ t₂ →
      C.Alike w' { t₁ with env := s₁.env } { t₂ with env := s₂.env } := fun le alike =>
    ⟨alike.heap, st.env.mono (C.pairing_le le), alike.interrupted, alike.console, alike.notes⟩
  cases x with
  | ok le alike _ _ result =>
    exact .ok le (back le alike) (m.keeps_refl _) (m.keeps_refl _) (lasts.later (le_refl _) result)
  | error le alike _ _ exit =>
    refine .error le (back le alike) (m.keeps_refl _) (m.keeps_refl _) ?_
    cases exit with
    | error failure => exact .error failure
    | exhausted => exact .exhausted
    | clash => exact .clash
    | brk jumps | cont jumps | ret jumps => exact jumps.elim

theorem checkInterrupt (st : C.Alike w s₁ s₂) :
    C.Sim m C.Same w EvalM.checkInterrupt EvalM.checkInterrupt s₁ s₂ := by
  unfold Sim EvalM.checkInterrupt
  rw [st.interrupted]
  split
  · exact .error (le_refl w) st (m.keeps_refl _) (m.keeps_refl _) (.error (.same nofun))
  · exact .ok (le_refl w) st (m.keeps_refl _) (m.keeps_refl _) rfl

/-! ## Repeated steps -/

theorem repeatWhile {turn₁ turn₂ : EvalM Bool} (turns : Nat) (st : C.At bound w s₁ s₂)
    (turn : ∀ {w' t₁ t₂}, w ≤ w' → C.At bound w' t₁ t₂ → C.Sim m C.Same w' turn₁ turn₂ t₁ t₂) :
    C.Sim m C.Same w (EvalM.repeatWhile turn₁ turns) (EvalM.repeatWhile turn₂ turns) s₁ s₂ := by
  induction turns generalizing w s₁ s₂ with
  | zero => exact exhausted st.toAlike
  | succ turns ih =>
    unfold EvalM.repeatWhile
    refine bind st (checkInterrupt st.toAlike) fun le st _ => ?_
    refine bind st (turn le st) fun le' st again => ?_
    exact ite again (fun _ => ih st fun le'' st => turn (le_trans (le_trans le le') le'') st)
      fun _ => pure st.toAlike rfl

/-- A relation of items that goes on to hold in later worlds. -/
structure Rises (K : C.World → α → α → Prop) : Prop where
  later : ∀ {w w' : C.World} {a₁ a₂ : α}, w ≤ w' → K w a₁ a₂ → K w' a₁ a₂

theorem rises_alike : Rises (C := C) fun w => Value.Alike (C.pairing w) :=
  ⟨fun le v => v.mono (C.pairing_le le)⟩

theorem rises_entry : Rises (C := C) fun w => Entry.Alike (C.pairing w) :=
  ⟨fun le e => ⟨e.1, e.2.mono (C.pairing_le le)⟩⟩

/-- An item of both lists, of which something holds. -/
def Both (p : α → Prop) (_ : C.World) (a₁ a₂ : α) : Prop :=
  a₁ = a₂ ∧ p a₁

theorem rises_both {p : α → Prop} : Rises (Both (C := C) p) :=
  ⟨fun _ h => h⟩

theorem both_of_forall {p : α → Prop} {l : List α} (h : ∀ a ∈ l, p a) :
    List.Forall₂ (Both p w) l l :=
  List.forall₂_same.2 fun a mem => ⟨rfl, h a mem⟩

variable {K : C.World → α → α → Prop} {l₁ l₂ : List α}

theorem foldlM {f₁ f₂ : β → α → EvalM β} {b₁ b₂ : β} (rises : Rises K) (st : C.At bound w s₁ s₂)
    (items : List.Forall₂ (K w) l₁ l₂) (start : R w s₁.env b₁ b₂)
    (step : ∀ {w' t₁ t₂ b₁ b₂ a₁ a₂}, w ≤ w' → C.At bound w' t₁ t₂ → R w' t₁.env b₁ b₂ →
      K w' a₁ a₂ → C.Sim m R w' (f₁ b₁ a₁) (f₂ b₂ a₂) t₁ t₂) :
    C.Sim m R w (l₁.foldlM f₁ b₁) (l₂.foldlM f₂ b₂) s₁ s₂ := by
  induction l₁ generalizing w s₁ s₂ l₂ b₁ b₂ with
  | nil =>
    cases items
    exact pure st.toAlike start
  | cons a₁ l₁ ih =>
    obtain ⟨a₂, l₂, head, tail, rfl⟩ := List.forall₂_cons_left_iff.1 items
    rw [List.foldlM_cons, List.foldlM_cons]
    refine bind st (step (le_refl w) st start head) fun le st result => ?_
    exact ih st (tail.imp fun _ _ h => rises.later le h) result fun le' => step (le_trans le le')

theorem forM {f₁ f₂ : α → EvalM Unit} (rises : Rises K) (st : C.At bound w s₁ s₂)
    (items : List.Forall₂ (K w) l₁ l₂)
    (step : ∀ {w' t₁ t₂ a₁ a₂}, w ≤ w' → C.At bound w' t₁ t₂ → K w' a₁ a₂ →
      C.Sim m C.Same w' (f₁ a₁) (f₂ a₂) t₁ t₂) :
    C.Sim m C.Same w (l₁.forM f₁) (l₂.forM f₂) s₁ s₂ := by
  induction l₁ generalizing w s₁ s₂ l₂ with
  | nil =>
    cases items
    exact pure st.toAlike rfl
  | cons a₁ l₁ ih =>
    obtain ⟨a₂, l₂, head, tail, rfl⟩ := List.forall₂_cons_left_iff.1 items
    unfold List.forM
    refine bind st (step (le_refl w) st head) fun le st _ => ?_
    exact ih st (tail.imp fun _ _ h => rises.later le h) fun le' => step (le_trans le le')

/-- The results come in the order of the items. -/
theorem mapM {f₁ f₂ : α → EvalM β} {L : C.World → β → β → Prop} (rises : Rises K) (lifts : Rises L)
    (st : C.At bound w s₁ s₂) (items : List.Forall₂ (K w) l₁ l₂)
    (step : ∀ {w' t₁ t₂ a₁ a₂}, w ≤ w' → C.At bound w' t₁ t₂ → K w' a₁ a₂ →
      C.Sim m (fun w _ => L w) w' (f₁ a₁) (f₂ a₂) t₁ t₂) :
    C.Sim m (fun w _ => List.Forall₂ (L w)) w (l₁.mapM f₁) (l₂.mapM f₂) s₁ s₂ := by
  induction l₁ generalizing w s₁ s₂ l₂ with
  | nil =>
    cases items
    exact pure st.toAlike .nil
  | cons a₁ l₁ ih =>
    obtain ⟨a₂, l₂, head, tail, rfl⟩ := List.forall₂_cons_left_iff.1 items
    rw [List.mapM_cons, List.mapM_cons]
    refine bind st (step (le_refl w) st head) fun le st first => ?_
    refine bind st (ih st (tail.imp fun _ _ h => rises.later le h) fun le' => step (le_trans le le'))
      fun le' st more => ?_
    exact pure st.toAlike (.cons (lifts.later le' first) more)

/-- The same elements are kept, as the answers are equal. -/
theorem filterM {f₁ f₂ : α → EvalM Bool} (rises : Rises K) (st : C.At bound w s₁ s₂)
    (items : List.Forall₂ (K w) l₁ l₂)
    (step : ∀ {w' t₁ t₂ a₁ a₂}, w ≤ w' → C.At bound w' t₁ t₂ → K w' a₁ a₂ →
      C.Sim m C.Same w' (f₁ a₁) (f₂ a₂) t₁ t₂) :
    C.Sim m (fun w _ => List.Forall₂ (K w)) w (l₁.filterM f₁) (l₂.filterM f₂) s₁ s₂ := by
  suffices loop : ∀ {done₁ done₂}, List.Forall₂ (K w) done₁ done₂ →
      C.Sim m (fun w _ => List.Forall₂ (K w)) w (l₁.filterAuxM f₁ done₁) (l₂.filterAuxM f₂ done₂)
        s₁ s₂ by
    unfold List.filterM
    exact bind st (loop .nil) fun _ st kept => pure st.toAlike (List.rel_reverse kept)
  induction l₁ generalizing w s₁ s₂ l₂ with
  | nil =>
    intro done₁ done₂ done
    cases items
    exact pure st.toAlike done
  | cons a₁ l₁ ih =>
    intro done₁ done₂ done
    obtain ⟨a₂, l₂, head, tail, rfl⟩ := List.forall₂_cons_left_iff.1 items
    unfold List.filterAuxM
    refine bind st (step (le_refl w) st head) fun {w' t₁ t₂ c₁ c₂} le st keep => ?_
    subst keep
    refine ih st (tail.imp fun _ _ h => rises.later le h) (fun le' => step (le_trans le le')) ?_
    have done := done.imp fun _ _ h => rises.later le h
    cases c₁ with
    | true => exact .cons (rises.later le head) done
    | false => exact done

end Sim

end BindScript.Correspondence
