import OmniSync.Dlq.Workers
import OmniSync.Txn.History

/-!
# Concurrent failures of one operation

`record_failure` looks for an active entry and inserts one if there is none. The two are
separate statements, and no constraint of the table excludes a second active entry. So an
operation has one active entry throughout a run exactly if no transaction commits a new
entry while another one is active: `oneActive_iff`. One that does has looked before another
transaction committed an entry of the operation: `opposed_overlaps`.
-/

namespace OmniSync

open Txn

/-- What a scan knows of the rows that it has locked; `sent` are those whose task it has
sent. -/
structure ScanState.Sound (settings : Settings) (s : Store) (sent : List FailedEvent)
    (scan : ScanState) : Prop where
  due : ∀ f ∈ scan.rows, f ∈ s.failedEvents ∧ f.Due settings scan.now
  once : (scan.rows.map FailedEvent.id).Nodup
  visited : List.Sublist (sent ++ scan.rest) scan.rows

namespace DlqPoint

/-- The entries whose task a scan has sent. -/
def sent : DlqPoint → List FailedEvent
  | sendTask st => st.done.map Prod.fst
  | readClock st f => st.done.map Prod.fst ++ [f]
  | updateFailed st f _ => st.done.map Prod.fst ++ [f]
  | _ => []

/-- What the locks of a transaction secure. -/
def Secured (settings : Settings) (s : Store) : DlqPoint → Prop
  | commitNew _ _ id _ => s.failedEvents.find id = none
  | sendTask st => st.Sound settings s (sendTask st).sent
  | readClock st f => st.Sound settings s (readClock st f).sent
  | updateFailed st f t => st.Sound settings s (updateFailed st f t).sent
  | _ => True

end DlqPoint

section Points

variable {settings : Settings} {s t : Store} {vs : List Write} {p q : DlqPoint}
variable {m : Move Exn Choice} {locked : Write → Bool}

/-- The locked rows keep their committed state. -/
theorem ScanState.Sound.view {scan : ScanState} {sent : List FailedEvent}
    (h : scan.Sound settings s sent) (compatible : postgres.Compatible (scan.writes settings) vs) :
    scan.Sound settings (postgres.view s vs) sent := by
  refine ⟨fun f hf => ?_, h.once, h.visited⟩
  obtain ⟨member, due⟩ := h.due f hf
  have held : .lockFailed f.id ∈ scan.writes settings :=
    List.mem_append_left _ (List.mem_map.mpr ⟨f, hf, rfl⟩)
  have same := view_unchanged (s := s) (fun s => s.failedEvents.find f.id)
    Store.put_failedEvents_of_not_lock
    (not_lock_of_compatible compatible held (List.mem_singleton_self _))
  change (postgres.view s vs).failedEvents.find f.id = s.failedEvents.find f.id at same
  rw [Table.find_eq_some_iff.mpr ⟨member, rfl⟩] at same
  exact ⟨(Table.find_eq_some_iff.mp same).1, due⟩

namespace DlqPoint.Secured

/-- What is secured survives the commits of others. -/
theorem view (h : p.Secured settings s)
    (compatible : postgres.Compatible (p.writes settings) vs) :
    p.Secured settings (postgres.view s vs) := by
  cases p with
  | commitNew call now id t =>
      have held : .addFailed (call.row settings now id t) ∈
          (commitNew call now id t).writes settings := List.mem_singleton_self _
      exact (view_unchanged (fun s => s.failedEvents.find id) Store.put_failedEvents_of_not_lock
        (not_lock_of_compatible compatible held (List.mem_singleton_self _))).trans h
  | sendTask st => exact ScanState.Sound.view h compatible
  | readClock st f => exact ScanState.Sound.view h compatible
  | updateFailed st f t => exact ScanState.Sound.view h compatible
  | _ => trivial

/-- A step secures what the next point needs. -/
theorem step (h : p.Secured settings s) (taken : PointStep settings locked s p m q t) :
    q.Secured settings t := by
  cases taken with
  | insert absent => exact absent
  | select due once => exact ⟨due, once, List.Sublist.refl _⟩
  | @skip st f rest e same =>
      refine ⟨h.due, h.once, List.Sublist.trans ?_ h.visited⟩
      rw [same]
      exact (List.sublist_cons_self f rest).append_left _
  | @send st f rest choice same =>
      refine ⟨h.due, h.once, ?_⟩
      have visited := h.visited
      rw [same] at visited
      change List.Sublist ((st.done.map Prod.fst ++ [f]) ++ rest) st.rows
      rw [List.append_assoc]
      exact visited
  | account => exact h
  | update =>
      refine ⟨h.due, h.once, ?_⟩
      change List.Sublist ((_ ++ [_]).map Prod.fst ++ _) _
      rw [List.map_append]
      exact h.visited
  | _ => trivial

end DlqPoint.Secured

/-- The next step of a session is its commit. -/
theorem DlqPoint.commits_of_prog {k : Except Exn Unit → Tx Unit}
    (h : p.prog settings = .commit k) : p.commits = true := by
  cases p with
  | commitExisting call now existing => rfl
  | commitNew call now id t => rfl
  | sendTask st =>
      obtain ⟨now, dispatched, rows, done, rest⟩ := st
      cases rest with
      | nil => rfl
      | cons f rest => cases h
  | ended result writes => cases result <;> cases h
  | _ => cases h

end Points

section Tracking

variable {ι : Type} {settings : Settings}

/-- The points at which the sessions of a cluster are. -/
structure Tracks (settings : Settings) (c : Cluster Answer Exn Store Write World ι Unit)
    (points : ι → DlqPoint) : Prop where
  sessions : ∀ i, c.sessions i = (points i).session settings
  disjoint : c.Disjoint postgres
  secured : ∀ i, (points i).Secured settings c.shared.store

theorem tracks_start {σ : State ι} {jobs : ι → DlqJob} :
    Tracks settings (Cluster.start σ (fun i => (jobs i).prog settings))
      (fun i => (jobs i).point settings) := by
  refine ⟨fun i => ((jobs i).point_session settings).symm, Cluster.disjoint_start, fun i => ?_⟩
  cases jobs i with
  | record call => trivial
  | scan =>
      unfold DlqJob.point
      cases settings.DLQ_RETRY_ENABLED <;> trivial

variable {c c' : Cluster Answer Exn Store Write World ι Unit}
variable {points : ι → DlqPoint} {i : ι} {m : Move Exn Choice}

/-- A session commits the writes of its point, if it commits at all. -/
theorem Tracks.committed (h : Tracks settings c points) (i : ι) (m : Move Exn Choice)
    (c' : Cluster Answer Exn Store Write World ι Unit) :
    Cluster.committed ⟨c, (i, m), c'⟩ = [] ∨ ((points i).commits = true ∧
      Cluster.committed ⟨c, (i, m), c'⟩ = (points i).writes settings) := by
  unfold Cluster.committed Session.commits
  split
  · next k choice commits move =>
      have here : (points i).prog settings = .commit k := by
        rw [← commits, h.sessions i]
        rfl
      refine .inr ⟨DlqPoint.commits_of_prog here, ?_⟩
      change (c.sessions i).writes = _
      rw [h.sessions i]
      rfl
  · exact .inl rfl

variable [Fintype ι] [DecidableEq ι]

/-- One step moves one session to its next point. -/
theorem Tracks.act (h : Tracks settings c points) (taken : c.act postgres i m = some c') :
    ∃ q, PointStep settings (c.locked postgres i) c.shared.store (points i) m q c'.shared.store ∧
      Tracks settings c' (Function.update points i q) := by
  have acts : Cluster.Acts postgres c (i, m) c' := taken
  have store := Cluster.store_of_acts acts
  have disjoint := h.disjoint.act taken
  obtain ⟨session, shared, step, rfl⟩ := Cluster.act_eq_some_iff.mp taken
  rw [h.sessions i] at step
  obtain ⟨q, rfl, moved⟩ := advance_point step
  refine ⟨q, moved, fun j => ?_, disjoint, fun j => ?_⟩
  · by_cases own : j = i
    · subst own
      simp only [Function.update_self]
    · simp only [Function.update_of_ne own]
      exact h.sessions j
  · by_cases own : j = i
    · subst own
      rw [Function.update_self]
      exact (h.secured j).step moved
    · rw [Function.update_of_ne own, store]
      refine (h.secured j).view ?_
      have apart := h.disjoint j i own
      rw [h.sessions j] at apart
      unfold Cluster.committed Session.commits
      split
      · exact apart
      · exact postgres.compatible_nil_right _

end Tracking

section Single

variable {settings : Settings} {s : Store} {done : List (FailedEvent × Time)}

/-- The accounting of a scan changes each entry whose task was sent once, and no other. -/
theorem mem_view_scheduled {y : FailedEvent} (once : (done.map (fun d => d.1.id)).Nodup)
    (hy : y ∈ (postgres.view s
      (done.map (fun d => .patchFailed d.1.id (scheduled settings d.1 d.2)))).failedEvents) :
    ∃ x ∈ s.failedEvents, (∃ d ∈ done, d.1.id = x.id ∧ y = x.patch (scheduled settings d.1 d.2)) ∨
      (y = x ∧ ∀ d ∈ done, d.1.id ≠ x.id) := by
  induction done generalizing s with
  | nil => exact ⟨y, hy, .inr ⟨rfl, fun d hd => (List.not_mem_nil hd).elim⟩⟩
  | cons d done ih =>
      rw [List.map_cons, List.nodup_cons] at once
      rw [List.map_cons, view_cons] at hy
      obtain ⟨x', hx', shape⟩ := ih once.2 hy
      obtain ⟨x, hx, rfl⟩ := Store.mem_put_patchFailed.mp hx'
      refine ⟨x, hx, ?_⟩
      by_cases same : x.id = d.1.id
      · rw [if_pos same] at shape
        have other : ∀ d' ∈ done, d'.1.id ≠ x.id := fun d' hd' again =>
          once.1 (List.mem_map.mpr ⟨d', hd', again.trans same⟩)
        rcases shape with ⟨d', hd', again, _⟩ | ⟨rfl, _⟩
        · exact (other d' hd' again).elim
        · exact .inl ⟨d, List.mem_cons_self, same.symm, rfl⟩
      · rw [if_neg same] at shape
        rcases shape with ⟨d', hd', again, rfl⟩ | ⟨rfl, others⟩
        · exact .inl ⟨d', List.mem_cons_of_mem _ hd', again, rfl⟩
        · refine .inr ⟨rfl, fun d' hd' => ?_⟩
          rcases List.mem_cons.mp hd' with rfl | later
          · exact fun again => same again.symm
          · exact others d' later

theorem ScanState.Sound.subset {scan : ScanState} {sent : List FailedEvent}
    (h : scan.Sound settings s sent) {f : FailedEvent} (hf : f ∈ sent ++ scan.rest) :
    f ∈ scan.rows := h.visited.subset hf

/-- What a scan knows of an entry whose task it has sent. -/
theorem ScanState.Sound.mem_sent {scan : ScanState} {sent : List FailedEvent}
    (h : scan.Sound settings s sent) {f : FailedEvent} (hf : f ∈ sent) :
    f ∈ s.failedEvents ∧ f.Due settings scan.now :=
  h.due f (h.subset (List.mem_append_left _ hf))

theorem ScanState.Sound.nodup {scan : ScanState} {sent : List FailedEvent}
    (h : scan.Sound settings s sent) : ((sent ++ scan.rest).map FailedEvent.id).Nodup :=
  h.once.sublist (h.visited.map _)

/-- The entries after the commit of a scan. -/
theorem DlqPoint.Secured.mem_view {scan : ScanState} {y : FailedEvent}
    (h : (DlqPoint.sendTask scan).Secured settings s)
    (hy : y ∈ (postgres.view s (scan.writes settings)).failedEvents) :
    (∃ d ∈ scan.done, d.1 ∈ s.failedEvents ∧ d.1.Due settings scan.now ∧
      y = d.1.patch (scheduled settings d.1 d.2)) ∨
      (y ∈ s.failedEvents ∧ ∀ d ∈ scan.done, d.1.id ≠ y.id) := by
  have once := ScanState.Sound.nodup h
  rw [List.map_append, DlqPoint.sent, List.map_map] at once
  rw [ScanState.writes, postgres.view_append, view_lockFailed] at hy
  obtain ⟨x, hx, ⟨d, hd, same, rfl⟩ | ⟨rfl, others⟩⟩ := mem_view_scheduled once.of_append_left hy
  · obtain ⟨member, due⟩ := ScanState.Sound.mem_sent h (List.mem_map.mpr ⟨d, hd, rfl⟩)
    cases Table.eq_of_key_eq member hx same
    exact .inl ⟨d, hd, member, due, rfl⟩
  · exact .inr ⟨hx, others⟩

/-- The write adds no entry next to an active one of the same operation. -/
def Write.unopposed (s : Store) : Write → Bool
  | .addFailed row => (s.activeEntries row.source row.operation).isEmpty
  | _ => true

/-- A commit keeps the active entries apart if and only if it adds none next to an active
one. -/
theorem DlqPoint.Secured.keeps_iff {p : DlqPoint} (h : p.Secured settings s)
    (commits : p.commits = true) (before : OneActive s) :
    OneActive (postgres.view s (p.writes settings)) ↔
      ∀ w ∈ p.writes settings, w.unopposed s = true := by
  cases p with
  | commitExisting call now existing =>
      refine iff_of_true (before.patch (fun x _ _ active => active)) (fun w hw => ?_)
      rw [List.mem_singleton.mp hw]
      rfl
  | commitNew call now id t =>
      have active : (call.row settings now id t).active = true := rfl
      refine (OneActive.add_iff active h).trans ?_
      rw [DlqPoint.writes, List.forall_mem_singleton, Write.unopposed, List.isEmpty_iff]
      exact and_iff_right before
  | sendTask st =>
      refine iff_of_true (before.of_images (fun y hy => ?_)) (fun w hw => ?_)
      · rcases h.mem_view hy with ⟨d, _, member, due, rfl⟩ | ⟨member, _⟩
        · exact ⟨d.1, member, rfl, rfl, rfl, fun _ => due.1⟩
        · exact ⟨y, member, rfl, rfl, rfl, id⟩
      · rcases List.mem_append.mp hw with locks | patches
        · obtain ⟨f, _, rfl⟩ := List.mem_map.mp locks
          rfl
        · obtain ⟨d, _, rfl⟩ := List.mem_map.mp patches
          rfl
  | _ => cases commits

variable {ι : Type} [Fintype ι] [DecidableEq ι] {jobs : ι → DlqJob} {σ : State ι}
variable {c c' : Cluster Answer Exn Store Write World ι Unit}
variable {steps : List (Taken (Cluster Answer Exn Store Write World ι Unit) (ι × Move Exn Choice))}

/-- A step keeps the active entries apart if and only if it adds none next to an active one. -/
theorem Tracks.keeps_iff {points : ι → DlqPoint} {label : ι × Move Exn Choice}
    (h : Tracks settings c points) (taken : Cluster.Acts postgres c label c')
    (before : OneActive c.shared.store) : OneActive c'.shared.store ↔
      ∀ w ∈ Cluster.committed ⟨c, label, c'⟩, w.unopposed c.shared.store = true := by
  obtain ⟨i, m⟩ := label
  rw [Cluster.store_of_acts taken]
  rcases h.committed i m c' with nothing | ⟨commits, writes⟩
  · rw [nothing]
    exact iff_of_true before (fun w hw => (List.not_mem_nil hw).elim)
  · rw [writes]
    exact (h.secured i).keeps_iff commits before

theorem exists_tracks (run : Trace (Cluster.Acts postgres)
    (Cluster.start σ (fun i => (jobs i).prog settings)) steps c) :
    ∃ points, Tracks settings c points := by
  refine @Trace.invariant _ _ _ _ _ _ run (fun c => ∃ points, Tracks settings c points)
    ⟨_, tracks_start⟩ ?_
  rintro c ⟨i, m⟩ c' ⟨points, tracks⟩ taken
  obtain ⟨q, _, next⟩ := tracks.act taken
  exact ⟨_, next⟩

/-- In a run of concurrent failures and scans every committed state has at most one active
entry of an operation, if and only if no transaction commits a new entry while another one of
its operation is active. -/
theorem oneActive_iff (start : OneActive σ.store)
    (run : Trace (Cluster.Acts postgres)
      (Cluster.start σ (fun i => (jobs i).prog settings)) steps c) :
    (∀ x ∈ steps, OneActive x.after.shared.store) ↔
      ∀ x ∈ steps, ∀ w ∈ Cluster.committed x, w.unopposed x.before.shared.store = true := by
  have both : ((∀ x ∈ steps, OneActive x.after.shared.store) ↔
      ∀ x ∈ steps, ∀ w ∈ Cluster.committed x, w.unopposed x.before.shared.store = true) ∧
        ((∀ x ∈ steps, OneActive x.after.shared.store) → OneActive c.shared.store) := by
    induction run with
    | nil => exact ⟨iff_of_true (by simp) (by simp), fun _ => start⟩
    | @concat steps c c' label run taken ih =>
        obtain ⟨same, reached⟩ := ih
        obtain ⟨points, tracks⟩ := exists_tracks run
        simp only [List.forall_mem_append, List.forall_mem_singleton]
        refine ⟨?_, fun all => all.2⟩
        rw [← same]
        exact and_congr_right (fun all => tracks.keeps_iff taken (reached all))
  exact both.1

end Single

section Overlap

variable {ι : Type} {settings : Settings} {source operation : String}

/-- Session `i` looks for an active entry of the operation, and there is none. -/
def FindsNone (source operation : String) (i : ι)
    (x : Taken (Cluster Answer Exn Store Write World ι Unit) (ι × Move Exn Choice)) : Prop :=
  x.label.1 = i ∧ (∃ k, (x.before.sessions i).prog = .stmt (.selectActive source operation) k) ∧
    x.before.shared.store.activeEntries source operation = []

/-- A session other than `i` commits a new entry of the operation. -/
def AddsEntry (source operation : String) (i : ι)
    (x : Taken (Cluster Answer Exn Store Write World ι Unit) (ι × Move Exn Choice)) : Prop :=
  x.label.1 ≠ i ∧
    ∃ row, .addFailed row ∈ Cluster.committed x ∧ row.source = source ∧ row.operation = operation

/-- The session has found no active entry, and if there is one now, another session has
committed an entry since. -/
def LookedBefore (call : FailureCall) (i : ι)
    (steps : List (Taken (Cluster Answer Exn Store Write World ι Unit) (ι × Move Exn Choice)))
    (s : Store) : Prop :=
  ∃ earlier x since, steps = earlier ++ x :: since ∧ FindsNone call.source call.operation i x ∧
    (s.activeEntries call.source call.operation = [] ∨
      ∃ y ∈ since, AddsEntry call.source call.operation i y)

/-- A transaction that is about to add an entry has looked before. -/
def DlqPoint.Looked (i : ι)
    (steps : List (Taken (Cluster Answer Exn Store Write World ι Unit) (ι × Move Exn Choice)))
    (s : Store) : DlqPoint → Prop
  | insertNew call _ => LookedBefore call i steps s
  | commitNew call _ _ _ => LookedBefore call i steps s
  | _ => True

/-- An active entry of the operation was active before a commit, or the commit adds it. -/
theorem DlqPoint.Secured.active_or_added {s : Store} {p : DlqPoint} (h : p.Secured settings s)
    (commits : p.commits = true)
    (active : (postgres.view s (p.writes settings)).activeEntries source operation ≠ []) :
    s.activeEntries source operation ≠ [] ∨
      ∃ row, .addFailed row ∈ p.writes settings ∧ row.source = source ∧
        row.operation = operation := by
  obtain ⟨y, listed⟩ := List.exists_mem_of_ne_nil _ active
  obtain ⟨hy, ofSource, ofOperation, act⟩ := mem_activeEntries.mp listed
  have before : ∀ x ∈ s.failedEvents, x.source = source → x.operation = operation → x.active →
      s.activeEntries source operation ≠ [] := fun x hx ofSource ofOperation act =>
    List.ne_nil_of_mem (mem_activeEntries.mpr ⟨hx, ofSource, ofOperation, act⟩)
  cases p with
  | commitExisting call now existing =>
      obtain ⟨x, hx, rfl⟩ := Store.mem_put_patchFailed.mp hy
      by_cases same : x.id = existing.id
      · rw [if_pos same] at ofSource ofOperation act
        exact .inl (before x hx ofSource ofOperation act)
      · rw [if_neg same] at ofSource ofOperation act
        exact .inl (before x hx ofSource ofOperation act)
  | commitNew call now id t =>
      rcases Table.mem_of_mem_add hy with old | rfl
      · exact .inl (before y old ofSource ofOperation act)
      · exact .inr ⟨_, List.mem_singleton_self _, ofSource, ofOperation⟩
  | sendTask st =>
      rcases h.mem_view hy with ⟨d, _, member, due, rfl⟩ | ⟨member, _⟩
      · exact .inl (before d.1 member ofSource ofOperation due.1)
      · exact .inl (before y member ofSource ofOperation act)
  | _ => cases commits

variable [Fintype ι] [DecidableEq ι] {jobs : ι → DlqJob} {σ : State ι}
variable {c c' last : Cluster Answer Exn Store Write World ι Unit}
variable {steps : List (Taken (Cluster Answer Exn Store Write World ι Unit) (ι × Move Exn Choice))}
variable {points : ι → DlqPoint} {label : ι × Move Exn Choice} {call : FailureCall} {i : ι}

theorem Tracks.active_or_added (h : Tracks settings c points)
    (taken : Cluster.Acts postgres c label c')
    (active : c'.shared.store.activeEntries source operation ≠ []) :
    c.shared.store.activeEntries source operation ≠ [] ∨
      ∃ row, .addFailed row ∈ Cluster.committed ⟨c, label, c'⟩ ∧ row.source = source ∧
        row.operation = operation := by
  obtain ⟨j, m⟩ := label
  rw [Cluster.store_of_acts taken] at active
  rcases h.committed j m c' with nothing | ⟨commits, writes⟩
  · rw [nothing] at active
    exact .inl active
  · rw [writes] at active ⊢
    exact (h.secured j).active_or_added commits active

/-- Another session moves, or this one commits nothing. -/
theorem LookedBefore.concat (h : LookedBefore call i steps c.shared.store)
    (tracks : Tracks settings c points) (taken : Cluster.Acts postgres c label c')
    (aside : label.1 ≠ i ∨ Cluster.committed ⟨c, label, c'⟩ = []) :
    LookedBefore call i (steps ++ [⟨c, label, c'⟩]) c'.shared.store := by
  obtain ⟨earlier, x, since, rfl, finds, now⟩ := h
  refine ⟨earlier, x, since ++ [⟨c, label, c'⟩], by simp, finds, ?_⟩
  rcases now with none | ⟨y, hy, adds⟩
  · by_cases active : c'.shared.store.activeEntries call.source call.operation = []
    · exact .inl active
    · obtain ⟨row, added, same⟩ := (tracks.active_or_added taken active).resolve_left
        (fun before => before none)
      have other : label.1 ≠ i := by
        refine aside.resolve_right (fun nothing => ?_)
        rw [nothing] at added
        exact List.not_mem_nil added
      exact .inr ⟨_, List.mem_append_right _ (List.mem_singleton_self _), other, row, added, same⟩
  · exact .inr ⟨y, List.mem_append_left _ hy, adds⟩

/-- The transaction that moves has looked before it is about to add an entry. -/
theorem Tracks.looked_step {q : DlqPoint} {m : Move Exn Choice} (h : Tracks settings c points)
    (looked : (points i).Looked i steps c.shared.store)
    (taken : Cluster.Acts postgres c (i, m) c')
    (moved : PointStep settings (c.locked postgres i) c.shared.store (points i) m q
      c'.shared.store) :
    q.Looked i (steps ++ [⟨c, (i, m), c'⟩]) c'.shared.store := by
  generalize here : points i = p at looked moved
  generalize after : c'.shared.store = t at moved
  cases moved with
  | @absent call now choice empty =>
      refine ⟨steps, ⟨c, (i, .step choice), c'⟩, [], rfl, ⟨rfl, ?_, empty⟩, .inl (after ▸ empty)⟩
      change ∃ k, (c.sessions i).prog = _
      rw [h.sessions i, here]
      exact ⟨_, rfl⟩
  | @insert call now t id choice absent =>
      have quiet : Cluster.committed ⟨c, (i, .step choice), c'⟩ = [] := by
        refine (h.committed i (.step choice) c').resolve_right (fun commits => ?_)
        rw [here] at commits
        cases commits.1
      rw [← after]
      exact LookedBefore.concat looked h taken (.inr quiet)
  | _ => trivial

/-- At every point of a run, the transactions that are about to add an entry have looked. -/
theorem exists_looked (run : Trace (Cluster.Acts postgres)
    (Cluster.start σ (fun i => (jobs i).prog settings)) steps c) :
    ∃ points, Tracks settings c points ∧ ∀ i, (points i).Looked i steps c.shared.store := by
  induction run with
  | nil =>
      refine ⟨_, tracks_start, fun i => ?_⟩
      cases jobs i with
      | record call => trivial
      | scan =>
          unfold DlqJob.point
          cases settings.DLQ_RETRY_ENABLED <;> trivial
  | @concat steps c c' label run taken ih =>
      obtain ⟨points, tracks, looked⟩ := ih
      obtain ⟨j, m⟩ := label
      obtain ⟨q, moved, next⟩ := tracks.act taken
      refine ⟨_, next, fun i => ?_⟩
      by_cases own : i = j
      · subst own
        rw [Function.update_self]
        exact tracks.looked_step (looked i) taken moved
      · rw [Function.update_of_ne own]
        have before := looked i
        cases p : points i with
        | insertNew call now =>
            rw [p] at before
            exact before.concat tracks taken (.inl (Ne.symm own))
        | commitNew call now id t =>
            rw [p] at before
            exact before.concat tracks taken (.inl (Ne.symm own))
        | _ => trivial

/-- A new entry is committed next to an active one only if its transaction has found none, and
another transaction has committed an entry of the operation since. -/
theorem opposed_overlaps {before after : List (Taken (Cluster Answer Exn Store Write World ι Unit)
      (ι × Move Exn Choice))}
    {x : Taken (Cluster Answer Exn Store Write World ι Unit) (ι × Move Exn Choice)}
    {row : FailedEvent}
    (run : Trace (Cluster.Acts postgres)
      (Cluster.start σ (fun i => (jobs i).prog settings)) steps last)
    (split : steps = before ++ x :: after) (added : .addFailed row ∈ Cluster.committed x)
    (opposed : Write.unopposed x.before.shared.store (.addFailed row) = false) :
    ∃ earlier y since, before = earlier ++ y :: since ∧
      FindsNone row.source row.operation x.label.1 y ∧
        ∃ z ∈ since, AddsEntry row.source row.operation x.label.1 z := by
  obtain ⟨first, _⟩ := run.upTo split
  obtain ⟨points, tracks, looked⟩ := exists_looked first
  obtain ⟨c, ⟨i, m⟩, c'⟩ := x
  obtain ⟨commits, writes⟩ := (tracks.committed i m c').resolve_left
    (fun nothing => List.not_mem_nil (nothing ▸ added))
  rw [writes] at added
  have here := looked i
  cases p : points i with
  | commitNew call now id t =>
      rw [p] at added here
      cases List.mem_singleton.mp added
      obtain ⟨earlier, y, since, rfl, finds, now⟩ := here
      refine ⟨earlier, y, since, rfl, finds, now.resolve_left (fun empty => ?_)⟩
      exact Bool.false_ne_true (opposed.symm.trans (List.isEmpty_iff.mpr empty))
  | commitExisting call now existing =>
      rw [p] at added
      cases List.mem_singleton.mp added
  | sendTask st =>
      rw [p] at added
      rcases List.mem_append.mp added with locks | patches
      · obtain ⟨f, _, impossible⟩ := List.mem_map.mp locks
        cases impossible
      · obtain ⟨d, _, impossible⟩ := List.mem_map.mp patches
        cases impossible
  | _ =>
      rw [p] at commits
      cases commits

end Overlap

section Race

/-- The same operation fails in two workers at once. -/
def sameOperation : Bool → DlqJob := fun _ =>
  .record ⟨"imap", "src.imap.tasks.sync_imap_messages", .obj [], "timed out", none⟩

/-- The second transaction starts after the first one has committed. -/
def oneAfterTheOther : List (Bool × Move Exn Choice) :=
  [(false, .step (.time 0)), (false, .step (.rows [])), (false, .step (.draw 1 0)),
    (false, .step .none), (true, .step (.time 1)), (true, .step (.rows [1])),
    (true, .step .none), (true, .step .none), (true, .step .none)]

/-- The second failure refreshes the entry of the first. -/
theorem oneActive_iff_sequential : ∃ steps c,
    Trace (Cluster.Acts postgres)
      (Cluster.start ⟨{}, ∅, []⟩ (fun i => (sameOperation i).prog {})) steps c ∧
        steps.length = 9 ∧ ∀ x ∈ steps, OneActive x.after.shared.store := by
  have shape : ((Cluster.start ⟨{}, ∅, []⟩ (fun i => (sameOperation i).prog {})).history postgres
      oneAfterTheOther).map (fun run => (run.1.length, run.1.all (fun x =>
        (Cluster.committed x).all (fun w => w.unopposed x.before.shared.store)))) =
          some (9, true) := by decide +kernel
  obtain ⟨⟨steps, c⟩, run, checked⟩ := Option.map_eq_some_iff.mp shape
  obtain ⟨length, unopposed⟩ := Prod.mk.inj checked
  have trace := Cluster.trace_of_history run
  refine ⟨steps, c, trace, length, (oneActive_iff (by decide) trace).mpr (fun x hx w hw => ?_)⟩
  exact List.all_eq_true.mp (List.all_eq_true.mp unopposed x hx) w hw

/-- Both transactions look for an active entry before the other one commits. -/
def overlapping : List (Bool × Move Exn Choice) :=
  [(false, .step (.time 0)), (true, .step (.time 1)), (false, .step (.rows [])),
    (true, .step (.rows [])), (false, .step (.draw 1 0)), (true, .step (.draw 2 0)),
    (false, .step .none), (true, .step .none)]

/-- Both insert an entry, and the operation has two active ones. -/
theorem oneActive_overlapping : ∃ steps c,
    Trace (Cluster.Acts postgres)
      (Cluster.start ⟨{}, ∅, []⟩ (fun i => (sameOperation i).prog {})) steps c ∧
        ∃ x ∈ steps, ¬ OneActive x.after.shared.store := by
  have shape : ((Cluster.start ⟨{}, ∅, []⟩ (fun i => (sameOperation i).prog {})).history postgres
      overlapping).map (fun run => run.1.any (fun x =>
        !decide (OneActive x.after.shared.store))) = some true := by decide +kernel
  obtain ⟨⟨steps, c⟩, run, found⟩ := Option.map_eq_some_iff.mp shape
  obtain ⟨x, hx, twice⟩ := List.any_eq_true.mp found
  refine ⟨steps, c, Cluster.trace_of_history run, x, hx, ?_⟩
  exact of_decide_eq_false ((Bool.not_eq_true' _).mp twice)

end Race

end OmniSync
