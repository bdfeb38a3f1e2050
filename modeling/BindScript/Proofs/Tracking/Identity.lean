import Mathlib.Data.List.Perm.Subperm
import BindScript.Proofs.Tracking.Sessions

/-!
One container, one live proxy.

A read finds the proxy of a container in the cache. That it finds the one that is held rests on an
invariant of the tracker (`Tracker.Sound`): every proxy that is held has its entry, no container has two
entries, and no identity is given out twice. A sweep takes out dead entries only, and a new entry takes
the place of a dead one only, as nothing is entered for a container whose proxy was found.

The cache stays small because each sweep leaves no more entries than there are proxies held, and sets the
size of the next sweep to twice of that.

Theorems:
- `Tracker.Sound.find?_eq_some_iff`: what the cache finds is what is held.
- `Tracker.Sound.track`, `Tracker.Sound.release`: the invariant, step by step, with the most proxies that
  were held at a time.
- `one_live_proxy`: what it means for reads, and for the size of the cache.
-/

namespace BindScript

/-- A container equals itself only. -/
theorem Value.strictEquals_container_iff {v u : Value} (container : u.isContainer = true) :
    v.strictEquals u = true ↔ v = u := by
  cases u with
  | array a => cases v <;> simp [strictEquals]
  | object o => cases v <;> simp [strictEquals]
  | _ => cases container

namespace Tracking

namespace Tracker

/-- The proxies that are held. -/
def live (t : Tracker) : List Proxy :=
  t.held.map fun entry => entry.1

/-- The cache is in order, when no more than `most` proxies were ever held at a time. -/
structure Sound (t : Tracker) (most : Nat) : Prop where
  containers : ∀ p ∈ t.cache, p.target.isContainer = true
  /-- No container has two entries. -/
  targets : (t.cache.map Proxy.target).Nodup
  identities : (t.cache.map Proxy.identity).Nodup
  /-- The next identity is new. -/
  old : ∀ p ∈ t.cache, p.identity < t.next
  /-- Every proxy that is held has its entry. -/
  cached : t.live ⊆ t.cache
  distinct : t.live.Nodup
  small : t.cache.length ≤ t.sweepAt
  due : t.sweepAt ≤ max minSweep (2 * most)
  few : t.live.length ≤ most

section Steps

variable {t : Tracker} {most : Nat} {p q : Proxy} {v : Value}

theorem isHeld_iff : t.isHeld p = true ↔ ∃ q ∈ t.live, q.identity = p.identity := by
  simp [isHeld, live]

theorem live_hold (t : Tracker) (p : Proxy) : (t.hold p).live = t.live := by
  unfold live hold
  rw [List.map_map]
  refine List.map_congr_left fun entry _ => ?_
  show (if entry.1.identity = p.identity then (entry.1, entry.2 + 1) else (entry.1, entry.2)).1 = entry.1
  split <;> rfl

/-- Who lets go of a proxy leaves the others held. -/
theorem live_release (t : Tracker) (p : Proxy) : (t.release p).live.Sublist t.live := by
  unfold live release
  dsimp only
  induction t.held with
  | nil => exact .slnil
  | cons entry rest ih =>
    obtain ⟨q, holders⟩ := entry
    rw [List.filterMap_cons, List.map_cons]
    by_cases other : q.identity ≠ p.identity
    · simp only [if_pos other]
      exact ih.cons_cons q
    · by_cases last : holders ≤ 1
      · simp only [if_neg other, if_pos last]
        exact ih.cons q
      · simp only [if_neg other, if_neg last]
        exact ih.cons_cons q

namespace Sound

theorem eq_of_identity (sound : t.Sound most) (memP : p ∈ t.cache) (memQ : q ∈ t.cache)
    (same : p.identity = q.identity) : p = q :=
  List.inj_on_of_nodup_map sound.identities memP memQ same

theorem eq_of_target (sound : t.Sound most) (memP : p ∈ t.cache) (memQ : q ∈ t.cache)
    (same : p.target = q.target) : p = q :=
  List.inj_on_of_nodup_map sound.targets memP memQ same

/-- An entry that is not dead is that of a proxy that is held. -/
theorem isHeld_iff_mem (sound : t.Sound most) (entry : p ∈ t.cache) : t.isHeld p = true ↔ p ∈ t.live := by
  rw [isHeld_iff]
  constructor
  · rintro ⟨q, held, same⟩
    rwa [← sound.eq_of_identity (sound.cached held) entry same]
  · exact fun held => ⟨p, held, rfl⟩

/-- What the cache finds for a container is the proxy of it that is held. -/
theorem find?_eq_some_iff (sound : t.Sound most) (container : v.isContainer = true) :
    t.find? v = some p ↔ p ∈ t.live ∧ p.target = v := by
  unfold find?
  rw [Option.filter_eq_some_iff]
  constructor
  · rintro ⟨found, held⟩
    have target := (Value.strictEquals_container_iff container).1 (by simpa using List.find?_some found)
    exact ⟨(sound.isHeld_iff_mem (List.mem_of_find?_eq_some found)).1 held, target⟩
  · rintro ⟨held, rfl⟩
    have entry := sound.cached held
    refine ⟨?_, (sound.isHeld_iff_mem entry).2 held⟩
    cases found : t.cache.find? fun q => q.target.strictEquals p.target with
    | none =>
      have absent := List.find?_eq_none.1 found p entry
      exact absurd ((Value.strictEquals_container_iff container).2 rfl) absent
    | some q =>
      have target := (Value.strictEquals_container_iff container).1 (by simpa using List.find?_some found)
      rw [sound.eq_of_target (List.mem_of_find?_eq_some found) entry target]

/-- A sweep leaves no more entries than there are proxies held. -/
theorem length_filter_isHeld (sound : t.Sound most) : (t.cache.filter t.isHeld).length ≤ t.live.length := by
  have inside : t.cache.filter t.isHeld ⊆ t.live := by
    intro p mem
    obtain ⟨entry, held⟩ := List.mem_filter.1 mem
    exact (sound.isHeld_iff_mem entry).1 held
  have distinct : (t.cache.filter t.isHeld).Nodup := (List.Nodup.of_map _ sound.identities).filter _
  exact (distinct.subperm inside).length_le

/-- A sweep keeps everything in order, and leaves room for one more entry. -/
theorem sweep (sound : t.Sound most) :
    t.sweep.Sound most ∧ t.sweep.cache.length < t.sweep.sweepAt ∧ t.sweep.cache ⊆ t.cache := by
  unfold Tracker.sweep
  split
  next room => exact ⟨sound, room, List.Subset.refl _⟩
  next =>
    have few := sound.length_filter_isHeld
    have most := sound.few
    have kept : (t.cache.filter t.isHeld).Sublist t.cache := List.filter_sublist
    have positive : 0 < minSweep := by decide
    refine ⟨⟨fun p mem => sound.containers p (kept.subset mem), sound.targets.sublist (kept.map _),
      sound.identities.sublist (kept.map _), fun p mem => sound.old p (kept.subset mem), fun p held => ?_,
      sound.distinct, ?_, ?_, sound.few⟩, ?_, kept.subset⟩
    · have entry := sound.cached held
      exact List.mem_filter.2 ⟨entry, (sound.isHeld_iff_mem entry).2 held⟩
    · dsimp only
      omega
    · dsimp only
      omega
    · dsimp only
      omega

/-- A proxy with a new identity may be entered and held, for a container of which no proxy is held. -/
theorem enter (sound : t.Sound most) (container : p.target.isContainer = true)
    (unheld : ∀ q ∈ t.live, q.target ≠ p.target) (new : p.identity = t.next) :
    Sound { t.remember p with held := t.held ++ [(p, 1)], next := t.next + 1 }
      (max most (t.live.length + 1)) := by
  obtain ⟨swept, room, inside⟩ := sound.sweep
  have next : t.sweep.next = t.next := by
    unfold Tracker.sweep
    split <;> rfl
  have held : t.sweep.live = t.live := by
    unfold Tracker.sweep
    split <;> rfl
  have live : live { t.remember p with held := t.held ++ [(p, 1)], next := t.next + 1 } = t.live ++ [p] := by
    simp [Tracker.live]
  have others : ∀ q, q ∈ t.sweep.cache.filter (fun q => !q.target.strictEquals p.target) ↔
      q ∈ t.sweep.cache ∧ q.target ≠ p.target := by
    intro q
    rw [List.mem_filter, Bool.not_eq_true', ← Bool.not_eq_true, Value.strictEquals_container_iff container]
  have kept : (t.sweep.cache.filter fun q => !q.target.strictEquals p.target).Sublist t.sweep.cache :=
    List.filter_sublist
  have older : ∀ q ∈ t.sweep.cache, q.identity < t.next := fun q mem => sound.old q (inside mem)
  refine ⟨?_, ?_, ?_, ?_, ?_, ?_, ?_, ?_, ?_⟩
  · intro q mem
    rcases List.mem_append.1 mem with mem | mem
    · exact swept.containers q (kept.subset mem)
    · rw [List.mem_singleton.1 mem]
      exact container
  · show (List.map _ (_ ++ [p])).Nodup
    rw [List.map_append, List.map_singleton, ← List.concat_eq_append]
    refine (swept.targets.sublist (kept.map _)).concat fun mem => ?_
    obtain ⟨q, mem, same⟩ := List.mem_map.1 mem
    exact ((others q).1 mem).2 same
  · show (List.map _ (_ ++ [p])).Nodup
    rw [List.map_append, List.map_singleton, ← List.concat_eq_append]
    refine (swept.identities.sublist (kept.map _)).concat fun mem => ?_
    obtain ⟨q, mem, same⟩ := List.mem_map.1 mem
    exact Nat.ne_of_lt (older q (kept.subset mem)) (same.trans new)
  · intro q mem
    show q.identity < t.next + 1
    rcases List.mem_append.1 mem with mem | mem
    · exact Nat.lt_succ_of_lt (older q (kept.subset mem))
    · rw [List.mem_singleton.1 mem, new]
      exact Nat.lt_succ_self _
  · rw [live]
    intro q mem
    show q ∈ _ ++ [p]
    rcases List.mem_append.1 mem with mem | mem
    · exact List.mem_append_left _ ((others q).2 ⟨swept.cached (held ▸ mem), unheld q mem⟩)
    · exact List.mem_append_right _ mem
  · rw [live, ← List.concat_eq_append]
    exact sound.distinct.concat fun mem => unheld p mem rfl
  · show (_ ++ [p]).length ≤ t.sweep.sweepAt
    have shorter := kept.length_le
    rw [List.length_append, List.length_singleton]
    omega
  · show t.sweep.sweepAt ≤ _
    have due := swept.due
    omega
  · rw [live, List.length_append, List.length_singleton]
    exact Nat.le_max_right ..

/-- What is read is tracked in order. -/
theorem track (sound : t.Sound most) (h : Heap) (v : Value) (path : List String) :
    (t.track h v path).2.Sound (max most (t.track h v path).2.live.length) := by
  unfold Tracker.track
  split
  next trackable =>
    have container := (Bool.and_eq_true_iff.1 trackable).1
    cases found : t.find? v with
    | some p =>
      dsimp only
      rw [live_hold, Nat.max_eq_left sound.few]
      exact ⟨sound.containers, sound.targets, sound.identities, sound.old, live_hold t p ▸ sound.cached,
        live_hold t p ▸ sound.distinct, sound.small, sound.due, live_hold t p ▸ sound.few⟩
    | none =>
      have unheld : ∀ q ∈ t.live, q.target ≠ v := by
        intro q held target
        cases found.symm.trans ((sound.find?_eq_some_iff container).2 ⟨held, target⟩)
      have entered := sound.enter (p := ⟨t.next, v, path⟩) container unheld rfl
      simpa [live] using entered
  next => rw [Nat.max_eq_left sound.few]; exact sound

theorem release (sound : t.Sound most) (p : Proxy) : (t.release p).Sound most :=
  have left := live_release t p
  ⟨sound.containers, sound.targets, sound.identities, sound.old, fun _ mem => sound.cached (left.subset mem),
    sound.distinct.sublist left, sound.small, sound.due, left.length_le.trans sound.few⟩

theorem empty : Sound {} 0 :=
  ⟨nofun, List.nodup_nil, List.nodup_nil, nofun, nofun, List.nodup_nil, Nat.zero_le _, Nat.le_max_left ..,
    Nat.le_refl _⟩

end Sound

/-! ### Identities -/

/-- Tracking gives a proxy that is held already, or one with the next identity. -/
theorem track_eq_proxy (sound : t.Sound most) {h : Heap} {path : List String}
    (gives : (t.track h v path).1 = .proxy p) : p.target = v ∧ (p ∈ t.live ∨ p.identity = t.next) := by
  unfold track at gives
  split at gives
  next trackable =>
    have container := (Bool.and_eq_true_iff.1 trackable).1
    cases found : t.find? v with
    | some q =>
      rw [found] at gives
      cases gives
      obtain ⟨held, target⟩ := (sound.find?_eq_some_iff container).1 found
      exact ⟨target, .inl held⟩
    | none =>
      rw [found] at gives
      cases gives
      exact ⟨rfl, .inr rfl⟩
  next => cases gives

/-- The proxy of a container is given as long as it is held. -/
theorem track_of_held (sound : t.Sound most) {h : Heap} (path : List String) (held : p ∈ t.live)
    (trackable : isTrackable h p.target = true) : (t.track h p.target path).1 = .proxy p := by
  have container := (Bool.and_eq_true_iff.1 trackable).1
  unfold track
  rw [if_pos trackable, (sound.find?_eq_some_iff container).2 ⟨held, rfl⟩]

/-- Who is given a proxy holds it. -/
theorem mem_live_track (sound : t.Sound most) {h : Heap} {path : List String}
    (gives : (t.track h v path).1 = .proxy p) : p ∈ (t.track h v path).2.live := by
  unfold track at gives ⊢
  split at gives
  next trackable =>
    have container := (Bool.and_eq_true_iff.1 trackable).1
    rw [if_pos trackable]
    cases found : t.find? v with
    | some q =>
      rw [found] at gives
      cases gives
      dsimp only
      rw [live_hold]
      exact ((sound.find?_eq_some_iff container).1 found).1
    | none =>
      rw [found] at gives
      cases gives
      simp [live]
  next => cases gives

theorem next_le_track (t : Tracker) (h : Heap) (v : Value) (path : List String) :
    t.next ≤ (t.track h v path).2.next := by
  unfold track
  split
  · cases t.find? v with
    | some p => exact Nat.le_refl _
    | none => exact Nat.le_succ _
  · exact Nat.le_refl _

end Steps

end Tracker

/-! ## Sessions -/

namespace Session

variable {s : Session} {most : Nat}

/-- The most proxies that are held at a time, from the start of some turns to their end. -/
def peak (s : Session) : List Turn → Nat
  | [] => s.tracker.live.length
  | turn :: rest => max s.tracker.live.length ((s.step turn).1.peak rest)

theorem holds_iff {p : Proxy} : s.Holds p ↔ p ∈ s.tracker.live := by
  simp [Holds, Tracker.live]

/-- A turn keeps the tracker in order: it reads, or it lets go of a proxy, or it leaves the tracker alone. -/
theorem step_sound (sound : s.tracker.Sound most) (turn : Turn) :
    (s.step turn).1.tracker.Sound (max most (s.step turn).1.tracker.live.length) ∧
      s.tracker.next ≤ (s.step turn).1.tracker.next := by
  have stays : s.tracker.Sound (max most s.tracker.live.length) ∧ s.tracker.next ≤ s.tracker.next :=
    ⟨by rwa [Nat.max_eq_left sound.few], Nat.le_refl _⟩
  unfold step
  cases turn.action with
  | get p key => exact ⟨sound.track .., Tracker.next_le_track ..⟩
  | release p =>
    have left := sound.release p
    refine ⟨?_, Nat.le_refl _⟩
    show (s.tracker.release p).Sound (max most (s.tracker.release p).live.length)
    rwa [Nat.max_eq_left left.few]
  | _ => exact stays

/-- By induction on the turns. Identities are given out in order and never again. -/
theorem run_sound (sound : s.tracker.Sound most) (turns : List Turn) :
    (s.run turns).tracker.Sound (max most (s.peak turns)) ∧
      s.tracker.next ≤ (s.run turns).tracker.next := by
  induction turns generalizing s most with
  | nil =>
    refine ⟨?_, Nat.le_refl _⟩
    show s.tracker.Sound (max most s.tracker.live.length)
    rwa [Nat.max_eq_left sound.few]
  | cons turn rest ih =>
    obtain ⟨next, later⟩ := step_sound sound turn
    obtain ⟨last, latest⟩ := ih next
    refine ⟨?_, later.trans latest⟩
    have first := sound.few
    have bound : max (max most (s.step turn).1.tracker.live.length) ((s.step turn).1.peak rest) =
        max most (s.peak (turn :: rest)) := by
      have begins : (s.step turn).1.tracker.live.length ≤ (s.step turn).1.peak rest := by
        cases rest with
        | nil => exact Nat.le_refl _
        | cons => exact Nat.le_max_left ..
      show _ = max most (max _ _)
      omega
    rwa [bound] at last

theorem start_sound (h : Heap) (root : Value) (pathPrefix : List String) (turns : List Turn) :
    ((start h root pathPrefix).run turns).tracker.Sound ((start h root pathPrefix).peak turns) := by
  have sound := Tracker.Sound.empty.track h root pathPrefix
  have later := (run_sound (s := start h root pathPrefix) sound turns).1
  have begins : (start h root pathPrefix).tracker.live.length ≤ (start h root pathPrefix).peak turns := by
    cases turns with
    | nil => exact Nat.le_refl _
    | cons => exact Nat.le_max_left ..
  rw [Nat.zero_max] at later
  rwa [← Nat.max_eq_right begins]

/-- The host held a proxy at some time during these turns. -/
def EverHeld (s : Session) (turns : List Turn) (p : Proxy) : Prop :=
  ∃ before later, turns = before ++ later ∧ (s.run before).Holds p

/-- Each container has one live proxy, when `ever` tells which proxies there have been. -/
structure OneEach (s : Session) (ever : Proxy → Prop) : Prop where
  /-- No two proxies that are held are for one container. -/
  distinct : (s.tracker.live.map Proxy.target).Nodup
  /-- A read that yields a container gives the proxy of it that is held. -/
  same : ∀ (p : Proxy) (key : String) (q : Proxy), s.Holds q → q.target = s.heap.get p.target key →
    isTrackable s.heap q.target = true → (p.get s.tracker s.heap key).1 = .proxy q
  /-- A proxy that a read gives is one for what it yields, and is held from then on. It was held before, or
  it is none of those that there have been. -/
  given : ∀ (p : Proxy) (key : String) (q : Proxy), (p.get s.tracker s.heap key).1 = .proxy q →
    q.target = s.heap.get p.target key ∧ q ∈ (p.get s.tracker s.heap key).2.live ∧
      (s.Holds q ∨ ∀ r, ever r → r.identity ≠ q.identity)

end Session

/-- A read that yields a container of which a proxy is held gives this very proxy, however often the cache was
swept, and a proxy that nobody holds any more is not given out again. The cache never has more than `minSweep`
entries, or twice as many as proxies were held at a time. -/
theorem one_live_proxy (h : Heap) (root : Value) (pathPrefix : List String) (turns : List Turn) :
    ((Session.start h root pathPrefix).run turns).OneEach
        ((Session.start h root pathPrefix).EverHeld turns) ∧
      ((Session.start h root pathPrefix).run turns).tracker.cache.length ≤
        max minSweep (2 * (Session.start h root pathPrefix).peak turns) := by
  have sound := Session.start_sound h root pathPrefix
  refine ⟨⟨?_, ?_, ?_⟩, (sound turns).small.trans (sound turns).due⟩
  · refine (sound turns).distinct.map_on fun p heldP q heldQ => ?_
    exact (sound turns).eq_of_target ((sound turns).cached heldP) ((sound turns).cached heldQ)
  · intro p key q held target trackable
    unfold Proxy.get
    rw [← target]
    exact Tracker.track_of_held (sound turns) _ (Session.holds_iff.1 held) trackable
  · intro p key q gives
    obtain ⟨target, held | new⟩ := Tracker.track_eq_proxy (sound turns) gives
    · exact ⟨target, Tracker.mem_live_track (sound turns) gives, .inl (Session.holds_iff.2 held)⟩
    refine ⟨target, Tracker.mem_live_track (sound turns) gives, .inr ?_⟩
    rintro r ⟨before, later, rfl, held⟩
    -- the identity of what was held before was given out before
    have old := (sound before).old r ((sound before).cached (Session.holds_iff.1 held))
    have later := (Session.run_sound (sound before) later).2
    rw [Session.run_append] at new
    omega

/-! A shelf of 64 rows. The first one is kept; the others are read and dropped one after another. -/

/-- An array of 64 rows. -/
def shelf : Heap :=
  { arrays := #[{ items := (Array.range 64).map .object }], objects := Array.replicate 64 {} }

/-- The proxy for the shelf. -/
def wholeShelf : Proxy :=
  { identity := 0, target := .array 0, path := [] }

/-- A row is read, and its proxy dropped. -/
def visitRow (i : Nat) : List Turn :=
  [(Action.get wholeShelf (toString i)).passed,
    (Action.release { identity := i + 1, target := .object i, path := [toString i] }).passed]

/-- The last visit sweeps the cache, and the first row is found all the same: it has a second holder then. -/
example :
    let visits := (List.range 63).flatMap fun i => visitRow (i + 1)
    let s := (Session.start shelf (.array 0) []).run ((Action.get wholeShelf "0").passed :: visits)
    s.tracker.cache.map Proxy.identity = [0, 1, 64] ∧
      (wholeShelf.get s.tracker s.heap "0").2.held.map (fun entry => (entry.1.identity, entry.2)) =
        [(0, 1), (1, 2)] := by
  decide +kernel

end Tracking

end BindScript
