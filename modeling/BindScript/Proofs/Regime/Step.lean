import BindScript.Proofs.Regime.Basic

/-!
# Steps of a regime

The primitive steps follow themselves, and so does what is put together from steps that follow one another: one
lemma for each way in which an evaluation joins steps. The end of a step is looked at in a few places only, where
a scope is left, a loop goes on or a function ends. There a failure has to stay one (`attempt_bind`), as nothing is
known of the other run then.
-/

namespace BindScript.Regime

open EvalM

variable {R : Regime} {α β γ : Type} {P : α → Prop} {Q : β → Prop} {h : Heap} {v : Value} {s : State}

/-! ## Scopes -/

theorem Scopes.push {env : Environment} (scopes : R.Scopes env) : R.Scopes env.push :=
  scopes

theorem Scopes.pop {env : Environment} (scopes : R.Scopes env) : R.Scopes env.pop := by
  unfold Environment.pop
  split
  · exact scopes
  next start outer _ =>
    intro b mem
    rw [Array.toList_shrink] at mem
    exact scopes b (List.mem_of_mem_take mem)

theorem Scopes.bind {env : Environment} (scopes : R.Scopes env) {name : String} {cell : Nat} {kind : BindingKind}
    (inside : R.zone.cells cell) : R.Scopes (env.bind name cell kind) := by
  intro b mem
  rw [Environment.bind, Array.toList_push] at mem
  rcases List.mem_append.1 mem with mem | mem
  · exact scopes b mem
  · exact List.mem_singleton.1 mem ▸ inside

theorem Scopes.find? {env : Environment} (scopes : R.Scopes env) {name : String} {b : Binding}
    (found : env.find? name = some b) : R.zone.cells b.cell := by
  rw [Environment.find?, Array.findRev?_eq_find?_reverse] at found
  exact scopes b (Array.mem_toList_iff.2 (Array.mem_reverse.1 (Array.mem_of_find?_eq_some found)))

theorem At.inHeap {g : Heap} (state : R.At s) (fits : R.Fits g) : R.At { s with heap := g } :=
  ⟨fits, state.scopes⟩

theorem At.inScopes {env : Environment} (state : R.At s) (scopes : R.Scopes env) : R.At { s with env } :=
  ⟨state.heap, scopes⟩

theorem At.interrupted (state : R.At s) (flag : Bool) : R.At { s with interrupted := flag } :=
  ⟨state.heap, state.scopes⟩

theorem At.console (state : R.At s) (lines : Array String) : R.At { s with console := lines } :=
  ⟨state.heap, state.scopes⟩

theorem At.notes (state : R.At s) (texts : List String) : R.At { s with notes := texts } :=
  ⟨state.heap, state.scopes⟩

/-! ## Primitive steps -/

namespace Follows

variable {x₁ x₂ : EvalM α} {f₁ f₂ : α → EvalM β}

theorem pure {a : α} (result : P a) : R.Follows P (Pure.pure a) (Pure.pure a) :=
  fun _ state => .ok state result

theorem throw {e : Exit} (leaves : R.Leaves e) : R.Follows P (MonadExcept.throw e) (MonadExcept.throw e) :=
  fun _ state => .error state leaves

theorem readNotes : R.Follows (fun _ => True) EvalM.readNotes EvalM.readNotes :=
  fun _ state => .ok state trivial

theorem exhausted : R.Follows P (MonadExcept.throw Exit.exhausted) (MonadExcept.throw Exit.exhausted) :=
  throw trivial

theorem fail {e : EvalError} (leaves : R.Leaves (.error e)) : R.Follows P (EvalM.fail e) (EvalM.fail e) :=
  throw leaves

theorem typeFault (fault : TypeFault) : R.Follows P (EvalM.typeFault fault) (EvalM.typeFault fault) :=
  fail trivial

theorem refuse (fault : EnvironmentFault) :
    R.Follows P (EvalM.fail (.ofEnvironment fault)) (EvalM.fail (.ofEnvironment fault)) :=
  fail (by cases fault <;> trivial)

theorem jump {j : Jump} (leaves : R.Leaves (.jump j)) : R.Follows P (EvalM.jump j) (EvalM.jump j) :=
  throw leaves

theorem ofExcept {x : Except EvalError α} (value : ∀ a, x = .ok a → P a) (failure : ∀ v, x ≠ .error (.thrown v)) :
    R.Follows P (EvalM.ofExcept x) (EvalM.ofExcept x) := by
  cases x with
  | ok a => exact pure (value a rfl)
  | error e =>
    cases e with
    | thrown v => exact absurd rfl (failure v)
    | _ => exact fail trivial

theorem readHeap {f : Heap → α} (result : ∀ h, R.Fits h → P (f h)) :
    R.Follows P (EvalM.readHeap f) (EvalM.readHeap f) :=
  fun s state => .ok state (result s.heap state.heap)

theorem readEnv {f : Environment → α} (result : ∀ env, R.Scopes env → P (f env)) :
    R.Follows P (EvalM.readEnv f) (EvalM.readEnv f) :=
  fun s state => .ok state (result s.env state.scopes)

theorem modifyHeap {f : Heap → Heap} (fits : ∀ h, R.Fits h → R.Fits (f h)) :
    R.Follows (fun _ => True) (EvalM.modifyHeap f) (EvalM.modifyHeap f) :=
  fun s state => .ok (state.inHeap (fits s.heap state.heap)) trivial

theorem modifyEnv {f : Environment → Environment} (scopes : ∀ env, R.Scopes env → R.Scopes (f env)) :
    R.Follows (fun _ => True) (EvalM.modifyEnv f) (EvalM.modifyEnv f) :=
  fun s state => .ok (state.inScopes (scopes s.env state.scopes)) trivial

theorem allocate {f : Heap → α × Heap} (fits : ∀ h, R.Fits h → R.Fits (f h).2 ∧ P (f h).1) :
    R.Follows P (EvalM.allocate f) (EvalM.allocate f) :=
  fun s state =>
    have ⟨after, result⟩ := fits s.heap state.heap
    .ok (state.inHeap after) result

theorem newArray {items : Array Value} (holds : ∀ v ∈ items.toList, R.Holds v) (length : R.Length items.size) :
    R.Follows R.Holds (EvalM.allocate (·.newArray items)) (EvalM.allocate (·.newArray items)) :=
  allocate fun _ fits => fits.newArray holds length

theorem newObject {entries : Entries Value} (holds : ∀ entry ∈ entries, R.Holds entry.2) :
    R.Follows R.Holds (EvalM.allocate (·.newObject entries)) (EvalM.allocate (·.newObject entries)) :=
  allocate fun _ fits => fits.newObject holds

theorem checkInterrupt : R.Follows (fun _ => True) EvalM.checkInterrupt EvalM.checkInterrupt := by
  intro s state
  unfold EvalM.checkInterrupt
  split
  · exact .error state trivial
  · exact .ok state trivial

/-! ## Joining steps -/

theorem imp {P' : α → Prop} (x : R.Follows P x₁ x₂) (weaker : ∀ a, P a → P' a) : R.Follows P' x₁ x₂ := by
  intro s state
  have ends := x s state
  generalize x₁ s = r₁ at ends ⊢
  generalize x₂ s = r₂ at ends ⊢
  cases ends with
  | ok state result => exact .ok state (weaker _ result)
  | error state leaves => exact .error state leaves
  | parted parts fails state leaves => exact .parted parts fails state leaves

theorem bind (first : R.Follows P x₁ x₂) (next : ∀ a, P a → R.Follows Q (f₁ a) (f₂ a)) :
    R.Follows Q (x₁ >>= f₁) (x₂ >>= f₂) := by
  intro s state
  show R.Ends Q (EStateM.bind x₁ f₁ s) (EStateM.bind x₂ f₂ s)
  unfold EStateM.bind
  have ends := first s state
  generalize x₁ s = r₁ at ends ⊢
  generalize x₂ s = r₂ at ends ⊢
  cases ends with
  | ok state result => exact next _ result _ state
  | error state leaves => exact .error state leaves
  | parted parts fails state leaves => exact .parted parts fails state leaves

/-- Going on with whatever is read of the heap. -/
theorem reading {f : Heap → α} (next : ∀ a, R.Follows Q (f₁ a) (f₂ a)) :
    R.Follows Q (EvalM.readHeap f >>= f₁) (EvalM.readHeap f >>= f₂) :=
  fun s state => next (f s.heap) s state

/-- Going on with whatever is read of the scopes. -/
theorem readingEnv {f : Environment → α} (next : ∀ a, R.Follows Q (f₁ a) (f₂ a)) :
    R.Follows Q (EvalM.readEnv f >>= f₁) (EvalM.readEnv f >>= f₂) :=
  fun s state => next (f s.env) s state

/-- What is read of the heap, and what the heap is then, go together. -/
theorem readHeap_bind {f : Heap → α}
    (next : ∀ s, R.At s → R.Ends Q (f₁ (f s.heap) s) (f₂ (f s.heap) s)) :
    R.Follows Q (EvalM.readHeap f >>= f₁) (EvalM.readHeap f >>= f₂) :=
  fun s state => next s state

theorem discard (x : R.Follows P x₁ x₂) :
    R.Follows (fun _ => True) (Functor.discard x₁) (Functor.discard x₂) :=
  bind x fun _ _ => pure trivial

theorem ite {c : Bool} {y₁ y₂ : EvalM α} (yes : c = true → R.Follows P x₁ x₂)
    (no : c = false → R.Follows P y₁ y₂) :
    R.Follows P (if c then x₁ else y₁) (if c then x₂ else y₂) := by
  cases c with
  | true => exact yes rfl
  | false => exact no rfl

/-- Steps that go through a list. `I` says what holds after the first items. -/
theorem foldlM {f₁ f₂ : β → α → EvalM β} {I : List α → β → Prop} {items : List α}
    (each : ∀ past a, a ∈ items → ∀ b, I past b → R.Follows (I (past ++ [a])) (f₁ b a) (f₂ b a)) {start : β}
    (first : I [] start) : R.Follows (I items) (items.foldlM f₁ start) (items.foldlM f₂ start) := by
  suffices loop : ∀ (left past : List α) (b : β), past ++ left = items → I past b →
      R.Follows (I items) (left.foldlM f₁ b) (left.foldlM f₂ b) from loop items [] start rfl first
  intro left
  induction left with
  | nil =>
    intro past b all holds
    rw [List.append_nil] at all
    exact pure (all ▸ holds)
  | cons a more ih =>
    intro past b all holds
    rw [List.foldlM_cons, List.foldlM_cons]
    exact bind (each past a (all ▸ List.mem_append_cons_self) b holds) fun b' holds' =>
      ih (past ++ [a]) b' ((List.append_assoc past [a] more).trans all) holds'

theorem forM {f₁ f₂ : α → EvalM Unit} {items : List α}
    (each : ∀ a ∈ items, R.Follows (fun _ => True) (f₁ a) (f₂ a)) :
    R.Follows (fun _ => True) (items.forM f₁) (items.forM f₂) := by
  induction items with
  | nil => exact pure trivial
  | cons a more ih =>
    obtain ⟨head, tail⟩ := List.forall_mem_cons.1 each
    unfold List.forM
    exact bind head fun _ _ => ih tail

theorem mapM {f₁ f₂ : α → EvalM β} {items : List α} (each : ∀ a ∈ items, R.Follows Q (f₁ a) (f₂ a)) :
    R.Follows (fun results => results.length = items.length ∧ ∀ b ∈ results, Q b) (items.mapM f₁)
      (items.mapM f₂) := by
  induction items with
  | nil => exact pure ⟨rfl, nofun⟩
  | cons a more ih =>
    obtain ⟨head, tail⟩ := List.forall_mem_cons.1 each
    rw [List.mapM_cons, List.mapM_cons]
    refine bind head fun b holds => bind (ih tail) fun results others => pure ?_
    exact ⟨congrArg Nat.succ others.1, List.forall_mem_cons.2 ⟨holds, others.2⟩⟩

/-- What is kept is a part of the items, in their order. -/
theorem filterM {f₁ f₂ : α → EvalM Bool} {items : List α}
    (each : ∀ a ∈ items, R.Follows (fun _ => True) (f₁ a) (f₂ a)) :
    R.Follows (fun kept => kept.Sublist items) (items.filterM f₁) (items.filterM f₂) := by
  suffices loop : ∀ (left past done : List α), past ++ left = items → done.reverse.Sublist past →
      R.Follows (fun kept => kept.reverse.Sublist items) (left.filterAuxM f₁ done) (left.filterAuxM f₂ done) by
    unfold List.filterM
    exact bind (loop items [] [] rfl (.refl _)) fun kept among => pure among
  intro left
  induction left with
  | nil =>
    intro past done all among
    rw [List.append_nil] at all
    exact pure (all ▸ among)
  | cons a more ih =>
    intro past done all among
    unfold List.filterAuxM
    refine bind (each a (all ▸ List.mem_append_cons_self)) fun keep _ =>
      ih (past ++ [a]) _ ((List.append_assoc past [a] more).trans all) ?_
    cases keep with
    | true =>
      rw [cond_true, List.reverse_cons]
      exact among.append (.refl _)
    | false => exact among.trans (List.sublist_append_left past [a])

theorem repeatWhile {turn₁ turn₂ : EvalM Bool} (turn : R.Follows (fun _ => True) turn₁ turn₂) (turns : Nat) :
    R.Follows (fun _ => True) (EvalM.repeatWhile turn₁ turns) (EvalM.repeatWhile turn₂ turns) := by
  induction turns with
  | zero => exact exhausted
  | succ turns ih =>
    unfold EvalM.repeatWhile
    refine bind checkInterrupt fun _ _ => bind turn fun again _ => ?_
    exact ite (fun _ => ih) fun _ => pure trivial

/-! ## Ends as values -/

private theorem attempted {x : EvalM α} {f : Except Exit α → EvalM β} :
    (EvalM.attempt x >>= f) s = match x s with
      | .ok a t => f (.ok a) t
      | .error e t => f (.error e) t := by
  show EStateM.bind (EvalM.attempt x) f s = _
  unfold EStateM.bind EvalM.attempt
  cases x s <;> rfl

/-- The end of a step decides how to go on, and a failure ends in a failure. -/
theorem attempt_bind {f₁ f₂ : Except Exit α → EvalM β} (x : R.Follows P x₁ x₂)
    (next : ∀ r, R.Tried P r → R.Follows Q (f₁ r) (f₂ r))
    (fails : ∀ e, e.Fails → R.Leaves e → R.Fail (f₁ (.error e))) :
    R.Follows Q (EvalM.attempt x₁ >>= f₁) (EvalM.attempt x₂ >>= f₂) := by
  intro s state
  rw [attempted, attempted]
  have ends := x s state
  generalize x₁ s = r₁ at ends ⊢
  generalize x₂ s = r₂ at ends ⊢
  cases ends with
  | ok state result => exact next (.ok _) result _ state
  | error state leaves => exact next (.error _) leaves _ state
  | @parted e t _ parts failed state leaves =>
    -- nothing is known of the second run, so the first one must not recover
    obtain ⟨e', t', run, failed', state', leaves'⟩ := fails e failed leaves t state
    show R.Ends Q (f₁ (.error e) t) _
    rw [run]
    exact .parted parts failed' state' leaves'

/-- Jumps are looked at, and failures pass. -/
theorem attempt_jump {f : Except Exit α → EvalM β} (x : R.Follows P x₁ x₂)
    (value : ∀ a, P a → R.Follows Q (f (.ok a)) (f (.ok a)))
    (jump : ∀ j, R.Leaves (.jump j) → R.Follows Q (f (.error (.jump j))) (f (.error (.jump j))))
    (passes : ∀ e : Exit, e.Fails → f (.error e) = MonadExcept.throw e) :
    R.Follows Q (EvalM.attempt x₁ >>= f) (EvalM.attempt x₂ >>= f) := by
  refine attempt_bind x (fun r tried => ?_) fun e fails leaves s state => ?_
  · cases r with
    | ok a => exact value a tried
    | error e =>
      cases e with
      | jump j => exact jump j tried
      | error failure =>
        rw [passes (.error failure) trivial]
        exact throw tried
      | exhausted =>
        rw [passes .exhausted trivial]
        exact exhausted
      | clash =>
        rw [passes .clash trivial]
        exact throw trivial
  · rw [passes e fails]
    exact ⟨e, s, rfl, fails, state, leaves⟩

/-- Where the runs do not part, the end may be anything. -/
theorem attempt (together : ¬ R.parts) (x : R.Follows P x₁ x₂) :
    R.Follows (R.Tried P) (EvalM.attempt x₁) (EvalM.attempt x₂) := by
  intro s state
  unfold EvalM.attempt
  have ends := x s state
  generalize x₁ s = r₁ at ends ⊢
  generalize x₂ s = r₂ at ends ⊢
  cases ends with
  | ok state result => exact .ok state result
  | error state leaves => exact .ok state leaves
  | parted parts => exact absurd parts together

theorem resume {r : Except Exit α} (tried : R.Tried P r) : R.Follows P (EvalM.resume r) (EvalM.resume r) := by
  cases r with
  | ok a => exact pure tried
  | error e => exact throw tried

theorem inScope (x : R.Follows P x₁ x₂) : R.Follows P (EvalM.inScope x₁) (EvalM.inScope x₂) := by
  unfold EvalM.inScope
  refine bind (modifyEnv fun _ scopes => scopes.push) fun _ _ => attempt_bind x (fun r tried => ?_) ?_
  · exact bind (modifyEnv fun _ scopes => scopes.pop) fun _ _ => resume tried
  · exact fun e fails leaves s state => ⟨e, _, rfl, fails, state.inScopes state.scopes.pop, leaves⟩

theorem inEnvironment {env : Environment} (scopes : R.Scopes env) (x : R.Follows P x₁ x₂) :
    R.Follows P (EvalM.inEnvironment env x₁) (EvalM.inEnvironment env x₂) := by
  unfold EvalM.inEnvironment
  refine bind (P := R.Scopes) (readEnv fun _ scopes => scopes) fun before held => ?_
  refine bind (modifyEnv fun _ _ => scopes) fun _ _ => attempt_bind x (fun r tried => ?_) ?_
  · exact bind (modifyEnv fun _ _ => held) fun _ _ => resume tried
  · exact fun e fails leaves s state => ⟨e, _, rfl, fails, state.inScopes held, leaves⟩

end Follows

end BindScript.Regime
