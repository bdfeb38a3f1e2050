import BindScript.Proofs.Tracking.Links
import BindScript.Tracking.Proxy

/-!
What a host does with the proxies that it holds, turn after turn: reads, writes, removals, appends, letting
go of a proxy; and what it does beside them, making new containers and freezing some.

The path of a proxy is the path of the read that made it. It is not followed up afterwards, so a reported
path is the way by which the container was once reached, and it leads there as long as no link of that way
is cut (`reported_path`). A link that is cut was cut by a change that was itself reported
(`Session.stands_or_cut`). A container that was moved while its proxy was held is still reported under the
old path (`moved_box_misreported`).
-/

namespace BindScript.Tracking

/-- What the host does in a turn. -/
inductive Action
  | get (p : Proxy) (key : String)
  | set (p : Proxy) (key : String) (value : Value)
  | delete (p : Proxy) (key : String)
  | push (p : Proxy) (value : Value)
  | release (p : Proxy)
  | newArray (items : Array Value)
  | newObject (properties : Entries Value)
  | freeze (v : Value)

/-- A turn of the host, and how the observer would answer in it. -/
structure Turn where
  action : Action
  observer : Observer

/-- The data and the proxies for it. -/
structure Session where
  heap : Heap
  tracker : Tracker

/-- The proxy that an action needs. -/
def Action.proxy? : Action → Option Proxy
  | get p _ | set p _ _ | delete p _ | push p _ | release p => some p
  | newArray _ | newObject _ | freeze _ => none

/-- The property that an action writes or removes, with the proxy through which it does so. -/
def Action.property? (h : Heap) : Action → Option (Proxy × String)
  | set p key _ | delete p key => some (p, key)
  | push p _ => (h.arrayItems? p.target).map fun items => (p, toString items.size)
  | _ => none

namespace Session

/-- A session that starts with a proxy for `root`, if it takes one. -/
def start (h : Heap) (root : Value) (pathPrefix : List String) : Session :=
  ⟨h, (wrap h root pathPrefix).2⟩

/-- The session after a write, and the change that was reported. -/
def after {α : Type} (s : Session) (w : Write α) : Session × Option Change :=
  ({ s with heap := w.heap }, w.change)

/-- One turn: the session after it, and the change that was reported. -/
def step (s : Session) (turn : Turn) : Session × Option Change :=
  match turn.action with
  | .get p key => ({ s with tracker := (p.get s.tracker s.heap key).2 }, none)
  | .set p key value => s.after (p.set turn.observer s.heap key value)
  | .delete p key => s.after (p.delete turn.observer s.heap key)
  | .push p value => s.after (p.push turn.observer s.heap value)
  | .release p => ({ s with tracker := s.tracker.release p }, none)
  | .newArray items => ({ s with heap := (s.heap.newArray items).2 }, none)
  | .newObject properties => ({ s with heap := (s.heap.newObject properties).2 }, none)
  | .freeze v => ({ s with heap := s.heap.freeze v }, none)

/-- The session after some turns. -/
def run (s : Session) (turns : List Turn) : Session :=
  turns.foldl (fun s turn => (s.step turn).1) s

/-- The host holds a proxy. -/
def Holds (s : Session) (p : Proxy) : Prop :=
  ∃ holders, (p, holders) ∈ s.tracker.held

/-- The host uses no proxies but those it holds. -/
def Allows (s : Session) (turn : Turn) : Prop :=
  ∀ p, turn.action.proxy? = some p → s.Holds p

/-- The turns can follow one after another. -/
def Follows (s : Session) : List Turn → Prop
  | [] => True
  | turn :: rest => s.Allows turn ∧ (s.step turn).1.Follows rest

/-- A turn reads a link through a proxy of its source. -/
structure Reads (s : Session) (turn : Turn) (link : Link) : Prop where
  action : ∃ p, turn.action = .get p link.key ∧ p.target = link.source
  stands : link.Stands s.heap

/-- A turn cuts a link: it stands before and not after, and a change that hits it was reported and
passed. -/
structure Cuts (s : Session) (turn : Turn) (link : Link) : Prop where
  stood : link.Stands s.heap
  fell : ¬ link.Stands (s.step turn).1.heap
  reported : ∃ change path key, (s.step turn).2 = some change ∧ turn.observer change = none ∧
    change.path = path ++ [key] ∧ link.Hit change.target key

/-- One of these turns cuts a link. -/
def CutIn (s : Session) (turns : List Turn) (link : Link) : Prop :=
  ∃ before turn later, turns = before ++ turn :: later ∧ (s.run before).Cuts turn link

/-- One of these turns has read a link. -/
def WasRead (s : Session) (turns : List Turn) (link : Link) : Prop :=
  ∃ before turn since, turns = before ++ turn :: since ∧ (s.run before).Reads turn link

/-- One of these turns has read a link, and one after it has cut it. -/
def WasCut (s : Session) (turns : List Turn) (link : Link) : Prop :=
  ∃ before turn since, turns = before ++ turn :: since ∧ (s.run before).Reads turn link ∧
    ((s.run before).step turn).1.CutIn since link

end Session

/-- The path of a change leads from the root to the container that is written. -/
def Change.Leads (change : Change) (h : Heap) (root : Value) (pathPrefix : List String) : Prop :=
  ∃ keys key, change.path = pathPrefix ++ keys ++ [key] ∧ h.walk root keys = change.target

/-! ## Writes -/

/-- A write reports nothing and does nothing, or it reports one change of the container at the path, and
what it makes of the heap is made only after the change has passed. -/
def Write.Reports {α : Type} (w : Write α) (h : Heap) (observer : Observer) (target : Value)
    (path : List String) (made : Heap) : Prop :=
  (w.change = none ∧ w.heap = h) ∨
    ∃ change, w.change = some change ∧ change.path = path ∧ change.target = target ∧
      (w.heap = h ∨ observer change = none ∧ w.heap = made)

section Writes

variable {α : Type} {observer : Observer} {h : Heap} {p : Proxy} {key : String}

theorem Write.Reports.nothing {target : Value} {path : List String} {made : Heap}
    (result : Except Halt α) :
    ({ result, heap := h } : Write α).Reports h observer target path made :=
  .inl ⟨rfl, rfl⟩

theorem Write.Reports.ite {c : Prop} [Decidable c] {w₁ w₂ : Write α} {target : Value}
    {path : List String} {made : Heap} (yes : w₁.Reports h observer target path made)
    (no : w₂.Reports h observer target path made) :
    (if c then w₁ else w₂).Reports h observer target path made := by
  by_cases holds : c
  · rw [if_pos holds]
    exact yes
  · rw [if_neg holds]
    exact no

/-- An announced change is the one that is asked for. -/
theorem announce_reports {change : Change} {make : Heap → Except Halt α × Heap} {made : Heap}
    (makes : (make h).2 = h ∨ (make h).2 = made) :
    (announce observer h change make).Reports h observer change.target change.path made := by
  right
  refine ⟨change, ?_⟩
  unfold announce
  cases answer : observer change with
  | some reason => exact ⟨rfl, rfl, rfl, .inl rfl⟩
  | none =>
    refine ⟨rfl, rfl, rfl, ?_⟩
    rcases makes with same | changed
    · exact .inl same
    · exact .inr ⟨rfl, changed⟩

theorem Proxy.set_reports (value : Value) :
    (p.set observer h key value).Reports h observer p.target (p.childPath key)
      (h.set p.target key value) := by
  unfold Proxy.set
  cases p.refusal? h key with
  | some fault => exact .nothing _
  | none =>
    refine .ite (.nothing _) (.ite (.nothing _) (announce_reports ?_))
    by_cases clashes : h.clashes p.target key value = true
    · exact .inl (by rw [if_pos clashes])
    by_cases takes : h.canSet p.target key value = true
    · exact .inr (by rw [if_neg clashes, if_pos takes])
    · exact .inl (by rw [if_neg clashes, if_neg takes])

theorem Proxy.delete_reports :
    (p.delete observer h key).Reports h observer p.target (p.childPath key)
      (h.remove p.target key) := by
  unfold Proxy.delete
  cases p.refusal? h key with
  | some fault => exact .nothing _
  | none =>
    refine .ite (.nothing _) (.ite (.nothing _) (announce_reports ?_))
    by_cases lets : h.canRemove p.target key = true
    · exact .inr (by rw [if_pos lets])
    · exact .inl (by rw [if_neg lets])

/-- What a write reports and passes is all that can cut a link. -/
theorem Write.Reports.stands {w : Write α} {target : Value} {path : List String} {made : Heap}
    {link : Link} (reports : w.Reports h observer target (path ++ [key]) made)
    (stands : link.Stands h) (apart : ¬ link.Hit target key → link.Stands made) :
    link.Stands w.heap ∨ ∃ change, w.change = some change ∧ observer change = none ∧
      change.path = path ++ [key] ∧ link.Hit change.target key := by
  rcases reports with ⟨-, same⟩ | ⟨change, reported, led, written, same | ⟨passed, changed⟩⟩
  · exact .inl (same ▸ stands)
  · exact .inl (same ▸ stands)
  · by_cases hit : link.Hit target key
    · exact .inr ⟨change, reported, passed, led, written ▸ hit⟩
    · exact .inl (changed ▸ apart hit)

end Writes

/-! ## Turns -/

namespace Session

variable {s first : Session} {turn : Turn} {turns : List Turn} {link : Link}

/-- A link stands after a turn unless the turn cuts it. -/
theorem stands_or_cuts (stands : link.Stands s.heap) (turn : Turn) :
    link.Stands (s.step turn).1.heap ∨ s.Cuts turn link := by
  by_cases after : link.Stands (s.step turn).1.heap
  · exact .inl after
  right
  suffices kept : link.Stands (s.step turn).1.heap ∨ ∃ change path key, (s.step turn).2 = some change ∧
      turn.observer change = none ∧ change.path = path ++ [key] ∧ link.Hit change.target key from
    ⟨stands, after, kept.resolve_left after⟩
  have ofSet : ∀ (p : Proxy) (key : String) (value : Value),
      link.Stands (p.set turn.observer s.heap key value).heap ∨
        ∃ change path key', (p.set turn.observer s.heap key value).change = some change ∧
          turn.observer change = none ∧ change.path = path ++ [key'] ∧ link.Hit change.target key' := by
    intro p key value
    rcases (Proxy.set_reports value).stands stands (stands.set value) with stays | ⟨change, reported⟩
    · exact .inl stays
    · exact .inr ⟨change, _, _, reported⟩
  unfold step
  cases turn.action with
  | get | release => exact .inl stands
  | set p key value => exact ofSet p key value
  | delete p key =>
    rcases Proxy.delete_reports.stands stands stands.remove with stays | ⟨change, reported⟩
    · exact .inl stays
    · exact .inr ⟨change, _, _, reported⟩
  | push p value =>
    dsimp only [after, Proxy.push]
    cases p.target with
    | array a => exact ofSet p _ value
    | _ => exact .inl stands
  | newArray items => exact .inl (stands.newArray items)
  | newObject properties => exact .inl (stands.newObject properties)
  | freeze v => exact .inl (stands.freeze v)

/-- A link stands after some turns unless one of them cuts it. -/
theorem stands_or_cut (stands : link.Stands s.heap) (turns : List Turn) :
    link.Stands (s.run turns).heap ∨ s.CutIn turns link := by
  induction turns generalizing s with
  | nil => exact .inl stands
  | cons turn rest ih =>
    rcases stands_or_cuts stands turn with stays | cuts
    · rcases ih stays with kept | ⟨before, other, later, rfl, cut⟩
      · exact .inl kept
      · exact .inr ⟨turn :: before, other, later, rfl, cut⟩
    · exact .inr ⟨[], turn, rest, rfl, cuts⟩

theorem run_append (s : Session) (turns more : List Turn) :
    s.run (turns ++ more) = (s.run turns).run more :=
  List.foldl_append

theorem follows_append {more : List Turn} :
    s.Follows (turns ++ more) ↔ s.Follows turns ∧ (s.run turns).Follows more := by
  induction turns generalizing s with
  | nil => simp [Follows, run]
  | cons turn rest ih =>
    rw [List.cons_append, Follows, Follows, ih, and_assoc]
    rfl

/-- A link that was read stands unless it was cut since. -/
theorem WasRead.stands_or_wasCut (read : first.WasRead turns link) :
    link.Stands (first.run turns).heap ∨ first.WasCut turns link := by
  obtain ⟨before, turn, since, rfl, reads⟩ := read
  have stands : link.Stands ((first.run before).step turn).1.heap := by
    -- a read leaves the heap as it is
    obtain ⟨⟨p, action, -⟩, stands⟩ := reads
    unfold step
    rw [action]
    exact stands
  rcases stands_or_cut stands since with stays | cut
  · left
    rw [run_append]
    exact stays
  · exact .inr ⟨before, turn, since, rfl, reads, cut⟩

theorem WasRead.later (read : first.WasRead turns link) (turn : Turn) :
    first.WasRead (turns ++ [turn]) link := by
  obtain ⟨before, other, since, rfl, reads⟩ := read
  exact ⟨before, other, since ++ [turn], by simp, reads⟩

/-- What is reported is a change of the property that the action writes, under the path of its proxy. -/
theorem step_reported {change : Change} (reported : (s.step turn).2 = some change) :
    ∃ p key, turn.action.proxy? = some p ∧ turn.action.property? s.heap = some (p, key) ∧
      change.path = p.path ++ [key] ∧ change.target = p.target := by
  have ofReports : ∀ {α : Type} {w : Write α} {made : Heap} {p : Proxy} {key : String},
      w.Reports s.heap turn.observer p.target (p.childPath key) made → w.change = some change →
        change.path = p.path ++ [key] ∧ change.target = p.target := by
    intro α w made p key reports reported
    rcases reports with ⟨none, -⟩ | ⟨other, told, led, written, -⟩
    · rw [none] at reported
      cases reported
    · rw [told] at reported
      cases reported
      exact ⟨led, written⟩
  unfold step at reported
  cases action : turn.action with
  | set p key value =>
    rw [action] at reported
    exact ⟨p, key, rfl, rfl, ofReports (Proxy.set_reports value) reported⟩
  | delete p key =>
    rw [action] at reported
    exact ⟨p, key, rfl, rfl, ofReports Proxy.delete_reports reported⟩
  | push p value =>
    rw [action] at reported
    dsimp only [after, Proxy.push] at reported
    -- an append is a write of the next index; to what is no array it is refused and nobody is told
    cases target : p.target with
    | array a =>
      rw [target] at reported
      refine ⟨p, toString (s.heap.items a).size, rfl, ?_, ?_⟩
      · simp [Action.property?, target, Heap.arrayItems?]
      · exact ofReports (Proxy.set_reports value) reported
    | _ =>
      rw [target] at reported
      cases reported
  | _ =>
    rw [action] at reported
    cases reported

end Session

/-! ## Paths of held proxies -/

/-- A proxy that is held after a value was tracked was held before, or it is new and has the path of
this read. -/
theorem Tracker.held_track {t : Tracker} {h : Heap} {v : Value} {path : List String} {p : Proxy}
    {holders : Nat} (held : (p, holders) ∈ (t.track h v path).2.held) :
    (∃ holders, (p, holders) ∈ t.held) ∨
      (v.isContainer = true ∧ p.target = v ∧ p.path = path) := by
  unfold track at held
  split at held
  · next trackable =>
    cases found : t.find? v with
    | some q =>
      rw [found] at held
      obtain ⟨⟨r, n⟩, mem, eq⟩ := List.mem_map.1 held
      left
      refine ⟨n, ?_⟩
      dsimp only at eq
      split at eq <;> · cases eq; exact mem
    | none =>
      rw [found] at held
      rcases List.mem_append.1 held with old | new
      · exact .inl ⟨holders, old⟩
      · right
        cases List.mem_singleton.1 new
        exact ⟨(Bool.and_eq_true_iff.1 trackable).1, rfl, rfl⟩
  · exact .inl ⟨holders, held⟩

/-- Releasing a proxy makes no new ones. -/
theorem Tracker.held_release {t : Tracker} {p q : Proxy} {holders : Nat}
    (held : (p, holders) ∈ (t.release q).held) : ∃ holders, (p, holders) ∈ t.held := by
  obtain ⟨⟨r, n⟩, mem, eq⟩ := List.mem_filterMap.1 held
  refine ⟨n, ?_⟩
  dsimp only at eq
  split at eq
  · cases eq
    exact mem
  · split at eq
    · cases eq
    · cases eq
      exact mem

namespace Session

variable {s first : Session} {turn : Turn} {turns : List Turn} {root : Value}
  {pathPrefix : List String} {p : Proxy}

/-- The path of a proxy is a way from the root along links that were read. -/
def Known (s : Session) (turns : List Turn) (root : Value) (pathPrefix : List String)
    (p : Proxy) : Prop :=
  ∃ links, Way root links p.target ∧ p.path = pathPrefix ++ Link.keys links ∧
    ∀ link ∈ links, s.WasRead turns link

theorem Known.later (known : first.Known turns root pathPrefix p) (turn : Turn) :
    first.Known (turns ++ [turn]) root pathPrefix p := by
  obtain ⟨links, way, path, read⟩ := known
  exact ⟨links, way, path, fun link mem => (read link mem).later turn⟩

/-- A proxy that is held after a turn was held before, or the turn has read its container through
another proxy. -/
theorem holds_of_holds_step (holds : (s.step turn).1.Holds p) :
    s.Holds p ∨ ∃ q key, turn.action = .get q key ∧ p.path = q.path ++ [key] ∧
      s.Reads turn ⟨q.target, key, p.target⟩ := by
  unfold step at holds
  cases action : turn.action with
  | get q key =>
    rw [action] at holds
    obtain ⟨holders, held⟩ := holds
    rcases Tracker.held_track held with old | ⟨container, target, path⟩
    · exact .inl old
    · refine .inr ⟨q, key, rfl, path, ⟨q, action, rfl⟩, ?_⟩
      exact ⟨target ▸ container, target.symm⟩
  | release q =>
    rw [action] at holds
    obtain ⟨holders, held⟩ := holds
    exact .inl (Tracker.held_release held)
  | _ =>
    rw [action] at holds
    exact .inl holds

/-- The proxies that are held have paths that were read, link by link. The turns are taken from the end,
as a proxy owes its path to the turn that made it and to the proxy that was held before it. -/
theorem known_of_holds {h : Heap} (follows : (start h root pathPrefix).Follows turns)
    (holds : ((start h root pathPrefix).run turns).Holds p) :
    (start h root pathPrefix).Known turns root pathPrefix p := by
  induction turns using List.reverseRecOn generalizing p with
  | nil =>
    obtain ⟨holders, held⟩ := holds
    rcases Tracker.held_track held with ⟨_, none⟩ | ⟨-, target, path⟩
    · cases none
    · refine ⟨[], ?_, by simpa [Link.keys] using path, fun _ mem => by cases mem⟩
      rw [target]
      exact .here root
  | append_singleton turns turn ih =>
    rw [follows_append] at follows
    obtain ⟨follows, allows, -⟩ := follows
    rw [run_append] at holds
    rcases holds_of_holds_step holds with old | ⟨q, key, action, path, reads⟩
    · exact (ih follows old).later turn
    · -- the proxy is new: its way is that of the proxy it was read from, and one link more
      obtain ⟨links, way, led, read⟩ := ih follows (allows q (by rw [action]; rfl))
      refine ⟨links ++ [⟨q.target, key, p.target⟩], .step way, ?_, ?_⟩
      · rw [path, led, Link.keys_append, List.append_assoc]
      · intro link mem
        rcases List.mem_append.1 mem with old | new
        · exact (read link old).later turn
        · cases List.mem_singleton.1 new
          exact ⟨turns, turn, [], rfl, reads⟩

end Session

/-! ## Reported paths -/

theorem Change.leads_iff {change : Change} {h : Heap} {root : Value} {pathPrefix keys : List String}
    {key : String} (path : change.path = pathPrefix ++ keys ++ [key]) :
    change.Leads h root pathPrefix ↔ h.walk root keys = change.target := by
  constructor
  · rintro ⟨others, other, same, leads⟩
    rw [path] at same
    have same : pathPrefix ++ keys = pathPrefix ++ others := (List.append_inj_left' same rfl)
    rw [List.append_cancel_left same]
    exact leads
  · intro leads
    exact ⟨keys, key, path, leads⟩

/-- A reported change is a change of the property that the host writes, and its path is a way from the
root that was read link by link. The path leads to the container exactly as long as its keys still do,
and if it does not then one of the links was cut after it had been read, by a change that was itself
reported. The observer has no hand in this: whatever it answers, it answers the change and does not touch
the heap. -/
theorem reported_path {h : Heap} {root : Value} {pathPrefix : List String} {turns : List Turn}
    {turn : Turn} {change : Change} {first s : Session} (starts : first = .start h root pathPrefix)
    (runs : s = first.run turns) (follows : first.Follows (turns ++ [turn]))
    (reported : (s.step turn).2 = some change) :
    ∃ p key links, turn.action.property? s.heap = some (p, key) ∧ change.target = p.target ∧
      change.path = pathPrefix ++ Link.keys links ++ [key] ∧ Way root links change.target ∧
      (∀ link ∈ links, first.WasRead turns link) ∧
      (change.Leads s.heap root pathPrefix ↔ s.heap.walk root (Link.keys links) = change.target) ∧
      (¬ change.Leads s.heap root pathPrefix → ∃ link ∈ links, first.WasCut turns link) := by
  subst starts runs
  obtain ⟨p, key, proxy, property, path, target⟩ := Session.step_reported reported
  rw [Session.follows_append] at follows
  obtain ⟨follows, allows, -⟩ := follows
  obtain ⟨links, way, led, read⟩ := Session.known_of_holds follows (allows p proxy)
  rw [led] at path
  rw [← target] at way
  refine ⟨p, key, links, property, target, path, way, read, Change.leads_iff path, fun misled => ?_⟩
  by_contra uncut
  apply misled
  rw [Change.leads_iff path]
  apply way.walk_eq
  intro link mem
  rcases (read link mem).stands_or_wasCut with stands | wasCut
  · exact stands
  · exact absurd ⟨link, mem, wasCut⟩ uncut

/-! A box inside an object, and the proxies for the two. -/

/-- An object that holds a box under `a`. -/
def boxed : Heap :=
  { objects := #[{ properties := [("a", .object 1)] }, { properties := [("x", .string "old")] }] }

/-- The proxy for the object, without a path. -/
def outside : Proxy :=
  { identity := 0, target := .object 0, path := [] }

/-- The proxy for the box, with the path it was read by. -/
def box : Proxy :=
  { identity := 1, target := .object 1, path := ["a"] }

/-- A turn in which the observer lets everything pass. -/
def Action.passed (action : Action) : Turn :=
  { action, observer := fun _ => none }

/-- While the box stands where it was read, a write in it is reported with a path that leads to it. -/
theorem box_write_reported :
    ∃ change links, (((Session.start boxed (.object 0) []).run [(Action.get outside "a").passed]).step
        (Action.set box "x" (.string "new")).passed).2 = some change ∧
      change.path = Link.keys links ++ ["x"] ∧ Way (.object 0) links change.target ∧
      change.Leads boxed (.object 0) [] := by
  have follows : (Session.start boxed (.object 0) []).Follows
      ([(Action.get outside "a").passed] ++ [(Action.set box "x" (.string "new")).passed]) := by
    refine ⟨?_, ?_, trivial⟩
    · rintro p ⟨⟩
      exact ⟨1, .head _⟩
    · rintro p ⟨⟩
      exact ⟨1, .tail _ (.head _)⟩
  obtain ⟨p, key, links, property, -, path, way, -⟩ := reported_path rfl rfl follows rfl
  cases property
  exact ⟨_, links, rfl, path, way, (Change.leads_iff rfl).2 rfl⟩

/-- The box is moved while its proxy is held, and what is written in it then is reported where the box
was before. -/
theorem moved_box_misreported :
    ¬ ∀ (h : Heap) (root : Value) (pathPrefix : List String) (turns : List Turn) (turn : Turn)
        (change : Change), (Session.start h root pathPrefix).Follows (turns ++ [turn]) →
      (((Session.start h root pathPrefix).run turns).step turn).2 = some change →
      change.Leads ((Session.start h root pathPrefix).run turns).heap root pathPrefix := by
  intro leads
  have follows : (Session.start boxed (.object 0) []).Follows
      ([(Action.get outside "a").passed, (Action.set outside "b" (.object 1)).passed,
        (Action.delete outside "a").passed] ++ [(Action.set box "x" (.string "new")).passed]) := by
    refine ⟨?_, ?_, ?_, ?_, trivial⟩
    · rintro p ⟨⟩
      exact ⟨1, .head _⟩
    · rintro p ⟨⟩
      exact ⟨1, .head _⟩
    · rintro p ⟨⟩
      exact ⟨1, .head _⟩
    · rintro p ⟨⟩
      exact ⟨1, .tail _ (.head _)⟩
  have leads := (Change.leads_iff rfl).1 (leads boxed (.object 0) [] _ _ _ follows rfl)
  cases leads

end BindScript.Tracking
