import Mathlib.Data.Fintype.Option
import OmniSync.Dlq.Concurrent

/-!
# The spacing of automatic dispatches

A run of failures and scans next to a clock that never goes back; every step is labelled
with its time. The dispatches of an entry are at least the backoff apart, the first one comes
after the initial backoff, and a renewed failure moves no watermark: `dispatches_spaced`.

A scan locks an entry from its `SELECT` on until its commit. So the watermark that it has
found is the one that the last dispatch has left, and what it writes counts its own dispatch.
-/

namespace OmniSync

open Txn

/-- The entry whose task a program is about to send: the one that it accounts for next. -/
def dispatchTarget : Tx Unit → Option Uuid
  | .stmt (.sendTask _) next =>
      match next (.ok "") with
      | .stmt .utcNow next =>
          match next (.ok 0) with
          | .stmt (.updateFailed id _) _ => some id
          | _ => none
      | _ => none
  | _ => none

/-- Failures and scans next to a clock. -/
structure TimedWorkers (ι : Type) where
  now : Time
  cluster : Cluster Answer Exn Store Write World ι Unit

/-- A move of one session, and when it is made. -/
structure TimedMove (ι : Type) where
  time : Time
  session : ι
  move : Move Exn Choice

/-- A step of a run: the clock does not go back, a session that reads it reads the time of the
step, and a scan neither ends abnormally nor fails to commit. -/
structure TimedWorkers.Steps {ι : Type} [Fintype ι] [DecidableEq ι] (jobs : ι → DlqJob)
    (w : TimedWorkers ι) (l : TimedMove ι) (w' : TimedWorkers ι) : Prop where
  acts : w.cluster.act postgres l.session l.move = some w'.cluster
  later : w.now ≤ l.time
  now : w'.now = l.time
  reads : ∀ next r, (w.cluster.sessions l.session).prog = .stmt .utcNow next →
    l.move = .step (.time r) → r = l.time
  ends : jobs l.session = .scan → ∀ e, l.move ≠ .crash e
  commits : jobs l.session = .scan → ∀ next,
    (w.cluster.sessions l.session).prog = .commit next → ∀ e, l.move ≠ .fail e

/-- A step of a run, with the state before it and the state after it. -/
abbrev TimedStep (ι : Type) := Taken (TimedWorkers ι) (TimedMove ι)

namespace TimedStep

variable {ι : Type} (x : TimedStep ι)

/-- The session that makes the step. -/
def actor : TxSession Unit := x.before.cluster.sessions x.label.session

/-- The entry whose task the step sends. -/
def dispatched : Option Uuid :=
  match x.label.move with
  | .step _ => dispatchTarget x.actor.prog
  | _ => none

/-- The reading of the clock in the step. -/
def reading : Option Time :=
  match x.actor.prog, x.label.move with
  | .stmt .utcNow _, .step (.time r) => some r
  | _, _ => none

/-- The step commits the new entry `id`. -/
def Creates (id : Uuid) : Prop := ∃ row, .addFailed row ∈ x.actor.commits x.label.move ∧ row.id = id

end TimedStep

section Runs

variable {ι : Type} (steps : List (TimedStep ι))

/-- When the task of an entry was sent, by the scans of a run. -/
def dispatches (id : Uuid) : List Time :=
  steps.filterMap (fun x => if x.dispatched = some id then some x.label.time else none)

/-- The session has read the clock. -/
def HasRead (i : ι) (r : Time) : Prop := ∃ x ∈ steps, x.label.session = i ∧ x.reading = some r

/-- The entry was committed by a session that has read the clock at `r`. -/
def CreatedAt (id : Uuid) (r : Time) : Prop :=
  ∃ x ∈ steps, x.Creates id ∧ HasRead steps x.label.session r

/-- The dispatches of an entry are at least the backoff apart, and the first one comes after
the initial backoff. -/
structure Spaced (settings : Settings) (id : Uuid) : Prop where
  first : ∀ t, (dispatches steps id)[0]? = some t →
    (∃ r, CreatedAt steps id r) ∧ ∀ r, CreatedAt steps id r → r + computeBackoff settings 0 ≤ t
  next : ∀ k t t', (dispatches steps id)[k]? = some t → (dispatches steps id)[k + 1]? = some t' →
    t + computeBackoff settings (k + 1) ≤ t'

/-- The step leaves the watermark of every entry as it is. -/
def TimedStep.KeepsWatermarks (x : TimedStep ι) : Prop :=
  ∀ f ∈ x.before.cluster.shared.store.failedEvents,
    ∃ g ∈ x.after.cluster.shared.store.failedEvents, g.id = f.id ∧ g.nextRetryAt = f.nextRetryAt

variable {steps} {x : TimedStep ι} {id : Uuid} {r : Time} {i : ι}

theorem dispatches_concat : dispatches (steps ++ [x]) id =
    dispatches steps id ++ if x.dispatched = some id then [x.label.time] else [] := by
  rw [dispatches, List.filterMap_append]
  by_cases sent : x.dispatched = some id
  · simp [dispatches, sent]
  · simp [dispatches, sent]

theorem hasRead_concat : HasRead (steps ++ [x]) i r ↔
    HasRead steps i r ∨ (x.label.session = i ∧ x.reading = some r) := by
  unfold HasRead
  constructor
  · rintro ⟨y, hy, read⟩
    rcases List.mem_append.mp hy with old | new
    · exact .inl ⟨y, old, read⟩
    · rw [List.mem_singleton.mp new] at read
      exact .inr read
  · rintro (⟨y, hy, read⟩ | read)
    · exact ⟨y, List.mem_append_left _ hy, read⟩
    · exact ⟨x, List.mem_append_right _ (List.mem_singleton_self x), read⟩

end Runs

/-- Times that are spaced stay so with one more that is late enough. -/
theorem spaced_concat {settings : Settings} {ds : List Time} {t : Time}
    (before : ∀ k d d', ds[k]? = some d → ds[k + 1]? = some d' →
      d + computeBackoff settings (k + 1) ≤ d')
    (last : ∀ d ∈ ds, d + computeBackoff settings ds.length ≤ t) :
    ∀ k d d', (ds ++ [t])[k]? = some d → (ds ++ [t])[k + 1]? = some d' →
      d + computeBackoff settings (k + 1) ≤ d' := by
  intro k d d' here there
  rcases Nat.lt_trichotomy (k + 1) ds.length with inside | same | beyond
  · rw [List.getElem?_append_left inside] at there
    rw [List.getElem?_append_left (Nat.lt_of_succ_lt inside)] at here
    exact before k d d' here there
  · rw [List.getElem?_append_left (by omega)] at here
    rw [same, List.getElem?_append_right (Nat.le_refl _), Nat.sub_self] at there
    cases there
    rw [same]
    exact last d (List.mem_of_getElem? here)
  · rw [List.getElem?_append_right (by omega)] at there
    obtain ⟨j, positive⟩ : ∃ j, k + 1 - ds.length = j + 1 := ⟨k - ds.length, by omega⟩
    rw [positive] at there
    cases there

namespace DlqPoint

/-- The entry whose task is sent next. -/
def target : DlqPoint → Option Uuid
  | sendTask st => st.rest.head?.map FailedEvent.id
  | _ => none

/-- The entry whose task a move sends. -/
def sends (p : DlqPoint) : Move Exn Choice → Option Uuid
  | .step _ => p.target
  | _ => none

/-- The entries that are accounted for, with the reading of the clock. -/
def stamped : DlqPoint → List (FailedEvent × Time)
  | sendTask st => st.done
  | readClock st _ => st.done
  | updateFailed st f t => st.done ++ [(f, t)]
  | _ => []

/-- The next statement reads the clock. -/
def readsClock : DlqPoint → Bool
  | record _ => true
  | scan => true
  | readClock _ _ => true
  | _ => false

/-- When a recording transaction has read the clock. -/
def recordedAt : DlqPoint → Option Time
  | selectActive _ now => some now
  | updateExisting _ now _ => some now
  | flushExisting _ now _ => some now
  | commitExisting _ now _ => some now
  | insertNew _ now => some now
  | commitNew _ now _ _ => some now
  | _ => none

/-- The entry that a recording transaction refreshes. -/
def existing : DlqPoint → Option FailedEvent
  | updateExisting _ _ f => some f
  | flushExisting _ _ f => some f
  | commitExisting _ _ f => some f
  | _ => none

def scans : DlqPoint → Bool
  | scan => true
  | selectDue _ => true
  | sendTask _ => true
  | readClock _ _ => true
  | updateFailed _ _ _ => true
  | _ => false

/-- When a scan has read the clock for its `SELECT`. -/
def startedAt : DlqPoint → Option Time
  | selectDue now => some now
  | sendTask st => some st.now
  | readClock st _ => some st.now
  | updateFailed st _ _ => some st.now
  | _ => none

theorem dispatchTarget_prog (settings : Settings) (p : DlqPoint) :
    dispatchTarget (p.prog settings) = p.target := by
  cases p with
  | sendTask st =>
      obtain ⟨now, dispatched, rows, done, rest⟩ := st
      cases rest <;> rfl
  | ended result writes => cases result <;> rfl
  | _ => rfl

theorem readsClock_of_prog {settings : Settings} {p : DlqPoint}
    {next : Except Exn Time → Tx Unit} (h : p.prog settings = .stmt .utcNow next) :
    p.readsClock = true := by
  cases p with
  | sendTask st =>
      obtain ⟨now, dispatched, rows, done, rest⟩ := st
      cases rest <;> cases h
  | ended result writes => cases result <;> cases h
  | record call => rfl
  | scan => rfl
  | readClock st f => rfl
  | _ => cases h

/-- Only a transaction that has inserted an entry commits a new one. -/
theorem eq_commitNew {settings : Settings} {p : DlqPoint} {row : FailedEvent}
    (commits : p.commits = true) (h : .addFailed row ∈ p.writes settings) :
    ∃ call now t, p = .commitNew call now row.id t := by
  cases p with
  | commitNew call now id t =>
      cases List.mem_singleton.mp h
      exact ⟨call, now, t, rfl⟩
  | commitExisting call now existing => cases List.mem_singleton.mp h
  | sendTask st =>
      rcases List.mem_append.mp h with locks | patches
      · obtain ⟨f, _, impossible⟩ := List.mem_map.mp locks
        cases impossible
      · obtain ⟨d, _, impossible⟩ := List.mem_map.mp patches
        cases impossible
  | _ => cases commits

end DlqPoint

namespace TimedStep

variable {ι : Type} {settings : Settings} {points : ι → DlqPoint} {x : TimedStep ι}

theorem actor_eq (h : Tracks settings x.before.cluster points) :
    x.actor = (points x.label.session).session settings := h.sessions x.label.session

theorem dispatched_eq (h : Tracks settings x.before.cluster points) :
    x.dispatched = (points x.label.session).sends x.label.move := by
  unfold dispatched DlqPoint.sends
  rw [actor_eq h, ← DlqPoint.dispatchTarget_prog settings]
  rfl

theorem reading_eq_some {r : Time} (h : Tracks settings x.before.cluster points)
    (read : x.reading = some r) :
    x.label.move = .step (.time r) ∧ (points x.label.session).readsClock = true := by
  unfold reading at read
  split at read
  · next next r' prog move =>
      cases read
      rw [actor_eq h] at prog
      exact ⟨move, DlqPoint.readsClock_of_prog prog⟩
  · cases read

theorem reading_of_record {call : FailureCall} {r : Time}
    (h : Tracks settings x.before.cluster points)
    (here : points x.label.session = .record call) (move : x.label.move = .step (.time r)) :
    x.reading = some r := by
  unfold reading
  rw [actor_eq h, here, move]
  rfl

theorem exists_commitNew {id : Uuid} (h : Tracks settings x.before.cluster points)
    (creates : x.Creates id) :
    (∃ choice, x.label.move = .step choice) ∧
      ∃ call now t, points x.label.session = .commitNew call now id t := by
  obtain ⟨row, written, rfl⟩ := creates
  rw [actor_eq h] at written
  unfold Session.commits at written
  split at written
  · next next choice prog move =>
      exact ⟨⟨choice, move⟩, DlqPoint.eq_commitNew (DlqPoint.commits_of_prog prog) written⟩
  · cases written

theorem creates_of_commitNew {call : FailureCall} {now t : Time} {id : Uuid} {choice : Choice}
    (h : Tracks settings x.before.cluster points)
    (here : points x.label.session = .commitNew call now id t)
    (move : x.label.move = .step choice) : x.Creates id := by
  refine ⟨call.row settings now id t, ?_, rfl⟩
  rw [actor_eq h, here, move]
  exact List.mem_singleton_self _

end TimedStep

namespace PointStep

variable {settings : Settings} {locked : Write → Bool} {s t : Store} {p q : DlqPoint}
variable {m : Move Exn Choice}

/-- A step that changes the store is a commit. -/
theorem commits (h : PointStep settings locked s p m q t) : t = s ∨ (p.commits = true ∧
    (∃ choice, m = .step choice) ∧ q = .ended (.ok ()) [] ∧
      t = postgres.view s (p.writes settings)) := by
  cases h with
  | @commit p choice commits => exact .inr ⟨commits, ⟨choice, rfl⟩, rfl, rfl⟩
  | _ => exact .inl rfl

theorem scans (h : PointStep settings locked s p m q t) (scans : q.scans = true) :
    p.scans = true := by
  cases h <;> first | rfl | cases scans

theorem ne_record (h : PointStep settings locked s p m q t) (call : FailureCall) :
    q ≠ .record call := by
  rintro rfl
  cases h

/-- A transaction that has ended stays where it is. -/
theorem ended {result : Except Exn Unit} {writes : List Write}
    (h : PointStep settings locked s (.ended result writes) m q t) :
    ∃ result writes, q = .ended result writes := by
  cases h with
  | commit commits => cases commits
  | _ => exact ⟨_, _, rfl⟩

theorem commitNew {call : FailureCall} {now created : Time} {id : Uuid} {choice : Choice}
    (h : PointStep settings locked s (.commitNew call now id created) (.step choice) q t) :
    q = .ended (.ok ()) [] ∧ t = s.put (.addFailed (call.row settings now id created)) := by
  cases h
  exact ⟨rfl, rfl⟩

theorem startedAt (h : PointStep settings locked s p m q t) {now : Time}
    (started : q.startedAt = some now) :
    p.startedAt = some now ∨ (p.readsClock = true ∧ m = .step (.time now)) := by
  cases h with
  | readScan =>
      cases started
      exact .inr ⟨rfl, rfl⟩
  | select => exact .inl started
  | skip => exact .inl started
  | send => exact .inl started
  | account => exact .inl started
  | update => exact .inl started
  | _ => cases started

theorem recordedAt (h : PointStep settings locked s p m q t) {r : Time}
    (recorded : q.recordedAt = some r) :
    (p.recordedAt = some r ∧ p.readsClock = false) ∨
      ((∃ call, p = .record call) ∧ m = .step (.time r)) := by
  cases h with
  | read =>
      cases recorded
      exact .inr ⟨⟨_, rfl⟩, rfl⟩
  | found => exact .inl ⟨recorded, rfl⟩
  | absent => exact .inl ⟨recorded, rfl⟩
  | refresh => exact .inl ⟨recorded, rfl⟩
  | flush => exact .inl ⟨recorded, rfl⟩
  | insert => exact .inl ⟨recorded, rfl⟩
  | _ => cases recorded

end PointStep

theorem DlqPoint.prog_of_readsClock (settings : Settings) {p : DlqPoint}
    (h : p.readsClock = true) : ∃ next, p.prog settings = .stmt .utcNow next := by
  cases p with
  | record call => exact ⟨_, rfl⟩
  | scan => exact ⟨_, rfl⟩
  | readClock st f => exact ⟨_, rfl⟩
  | _ => cases h

theorem DlqPoint.prog_of_commits (settings : Settings) {p : DlqPoint} (h : p.commits = true) :
    ∃ next, p.prog settings = .commit next := by
  cases p with
  | commitExisting call now existing => exact ⟨_, rfl⟩
  | commitNew call now id t => exact ⟨_, rfl⟩
  | sendTask st =>
      obtain ⟨now, dispatched, rows, done, rest⟩ := st
      cases rest with
      | nil => exact ⟨_, rfl⟩
      | cons f rest => cases h
  | _ => cases h

/-- A transaction starts with nothing done. -/
theorem DlqJob.point_fresh (settings : Settings) (job : DlqJob) :
    (job.point settings).startedAt = none ∧ (job.point settings).recordedAt = none ∧
      (job.point settings).existing = none ∧ (job.point settings).sent = [] ∧
        (job.point settings).stamped = [] := by
  cases job with
  | record call => exact ⟨rfl, rfl, rfl, rfl, rfl⟩
  | scan =>
      unfold DlqJob.point
      cases settings.DLQ_RETRY_ENABLED <;> exact ⟨rfl, rfl, rfl, rfl, rfl⟩

section Clock

variable {ι : Type} {settings : Settings}

/-- What a run has recorded of the clock: a scan has read it before now, a recording
transaction has read it once, and who has created an entry is done. -/
structure Clocked (settings : Settings) (jobs : ι → DlqJob) (steps : List (TimedStep ι))
    (w : TimedWorkers ι) (points : ι → DlqPoint) : Prop where
  tracks : Tracks settings w.cluster points
  scans : ∀ i, (points i).scans = true → jobs i = .scan
  started : ∀ i t, (points i).startedAt = some t → t ≤ w.now
  past : ∀ x ∈ steps, x.label.time ≤ w.now
  unread : ∀ i call, points i = .record call → ∀ r, ¬ HasRead steps i r
  read : ∀ i r, (points i).recordedAt = some r → ∀ r', HasRead steps i r' ↔ r' = r
  created : ∀ x ∈ steps, ∀ id, x.Creates id →
    (∃ result writes, points x.label.session = .ended result writes) ∧
      w.cluster.shared.store.failedEvents.find id ≠ none

theorem clocked_start {σ : State ι} {jobs : ι → DlqJob} {now : Time} :
    Clocked settings jobs [] ⟨now, Cluster.start σ (fun i => (jobs i).prog settings)⟩
      (fun i => (jobs i).point settings) := by
  refine ⟨tracks_start, fun i scans => ?_, fun i t started => ?_, ?_, ?_, fun i r recorded => ?_, ?_⟩
  · cases job : jobs i with
    | record call =>
        rw [job] at scans
        cases scans
    | scan => rfl
  · rw [((jobs i).point_fresh settings).1] at started
    cases started
  · exact fun x hx => (List.not_mem_nil hx).elim
  · rintro i call _ r ⟨x, hx, _⟩
    exact List.not_mem_nil hx
  · rw [((jobs i).point_fresh settings).2.1] at recorded
    cases recorded
  · exact fun x hx => (List.not_mem_nil hx).elim

variable [Fintype ι] [DecidableEq ι] {jobs : ι → DlqJob} {steps : List (TimedStep ι)}
variable {w w' : TimedWorkers ι} {l : TimedMove ι} {points : ι → DlqPoint} {q : DlqPoint}

/-- What one step of a run does. -/
structure Moved (settings : Settings) (jobs : ι → DlqJob) (steps : List (TimedStep ι))
    (w : TimedWorkers ι) (points : ι → DlqPoint) (l : TimedMove ι) (q : DlqPoint)
    (w' : TimedWorkers ι) : Prop where
  before : Clocked settings jobs steps w points
  taken : w.Steps jobs l w'
  point : PointStep settings (w.cluster.locked postgres l.session) w.cluster.shared.store
    (points l.session) l.move q w'.cluster.shared.store
  tracks : Tracks settings w'.cluster (Function.update points l.session q)

theorem Clocked.moves (h : Clocked settings jobs steps w points) (taken : w.Steps jobs l w') :
    ∃ q, Moved settings jobs steps w points l q w' := by
  obtain ⟨q, point, tracks⟩ := h.tracks.act taken.acts
  exact ⟨q, h, taken, point, tracks⟩

namespace Moved

theorem reading_eq (h : Moved settings jobs steps w points l q w') {r : Time}
    (reads : (points l.session).readsClock = true) (move : l.move = .step (.time r)) :
    r = l.time := by
  obtain ⟨next, prog⟩ := DlqPoint.prog_of_readsClock settings reads
  refine h.taken.reads next r ?_ move
  rw [h.before.tracks.sessions l.session]
  exact prog

theorem find_ne_none (h : Moved settings jobs steps w points l q w') {id : Uuid}
    (found : w.cluster.shared.store.failedEvents.find id ≠ none) :
    w'.cluster.shared.store.failedEvents.find id ≠ none := by
  rcases h.point.commits with same | ⟨_, _, _, store⟩
  · rw [same]
    exact found
  · rw [store]
    exact fun absent => found (find_failedEvents_of_view absent)

/-- Who has created an entry does not read the clock again, and nobody creates it twice. -/
theorem createdAt_iff (h : Moved settings jobs steps w points l q w') {id : Uuid} {r : Time}
    (known : w.cluster.shared.store.failedEvents.find id ≠ none) :
    CreatedAt (steps ++ [⟨w, l, w'⟩]) id r ↔ CreatedAt steps id r := by
  constructor
  · rintro ⟨x, hx, creates, read⟩
    rcases List.mem_append.mp hx with old | new
    · refine ⟨x, old, creates, ?_⟩
      rcases hasRead_concat.mp read with before | ⟨same, now⟩
      · exact before
      · obtain ⟨⟨result, writes, ended⟩, _⟩ := h.before.created x old id creates
        obtain ⟨_, reads⟩ := TimedStep.reading_eq_some h.before.tracks now
        change l.session = x.label.session at same
        change (points l.session).readsClock = true at reads
        rw [same, ended] at reads
        cases reads
    · rw [List.mem_singleton.mp new] at creates
      obtain ⟨_, call, now, t, here⟩ := TimedStep.exists_commitNew h.before.tracks creates
      have absent := h.before.tracks.secured l.session
      change points l.session = _ at here
      rw [here] at absent
      exact (known absent).elim
  · rintro ⟨x, hx, creates, y, hy, read⟩
    exact ⟨x, List.mem_append_left _ hx, creates, y, List.mem_append_left _ hy, read⟩

/-- What is recorded of the clock stays true. -/
theorem clocked (h : Moved settings jobs steps w points l q w') :
    Clocked settings jobs (steps ++ [⟨w, l, w'⟩]) w' (Function.update points l.session q) := by
  refine ⟨h.tracks, fun i => ?_, fun i t => ?_, ?_, fun i call => ?_, fun i r => ?_, ?_⟩
  · by_cases own : i = l.session
    · subst own
      rw [Function.update_self]
      exact fun scans => h.before.scans _ (h.point.scans scans)
    · rw [Function.update_of_ne own]
      exact h.before.scans i
  · rw [h.taken.now]
    by_cases own : i = l.session
    · subst own
      rw [Function.update_self]
      intro started
      rcases h.point.startedAt started with before | ⟨reads, move⟩
      · exact Int.le_trans (h.before.started _ t before) h.taken.later
      · exact Int.le_of_eq (h.reading_eq reads move)
    · rw [Function.update_of_ne own]
      exact fun started => Int.le_trans (h.before.started i t started) h.taken.later
  · intro x hx
    rw [h.taken.now]
    rcases List.mem_append.mp hx with old | new
    · exact Int.le_trans (h.before.past x old) h.taken.later
    · rw [List.mem_singleton.mp new]
  · by_cases own : i = l.session
    · subst own
      rw [Function.update_self]
      exact fun same => (h.point.ne_record call same).elim
    · rw [Function.update_of_ne own]
      intro same r read
      rcases hasRead_concat.mp read with old | ⟨here, _⟩
      · exact h.before.unread i call same r old
      · exact own here.symm
  · by_cases own : i = l.session
    · subst own
      rw [Function.update_self]
      intro recorded r'
      rw [hasRead_concat]
      rcases h.point.recordedAt recorded with ⟨before, quiet⟩ | ⟨⟨call, here⟩, move⟩
      · rw [h.before.read _ r before r']
        refine or_iff_left ?_
        rintro ⟨_, read⟩
        obtain ⟨_, reads⟩ := TimedStep.reading_eq_some h.before.tracks read
        rw [quiet] at reads
        cases reads
      · have read := TimedStep.reading_of_record (x := ⟨w, l, w'⟩) h.before.tracks here move
        rw [read, Option.some.injEq]
        refine (or_iff_right (h.before.unread _ call here r')).trans ?_
        exact (and_iff_right rfl).trans eq_comm
    · rw [Function.update_of_ne own]
      intro recorded r'
      rw [hasRead_concat, h.before.read i r recorded r']
      exact or_iff_left (fun here => own here.1.symm)
  · intro x hx id creates
    rcases List.mem_append.mp hx with old | new
    · obtain ⟨⟨result, writes, ended⟩, found⟩ := h.before.created x old id creates
      refine ⟨?_, h.find_ne_none found⟩
      by_cases own : x.label.session = l.session
      · rw [own, Function.update_self]
        have point := h.point
        rw [← own, ended] at point
        exact point.ended
      · rw [Function.update_of_ne own]
        exact ⟨result, writes, ended⟩
    · rw [List.mem_singleton.mp new] at creates ⊢
      obtain ⟨⟨choice, move⟩, call, now, t, here⟩ :=
        TimedStep.exists_commitNew h.before.tracks creates
      change points l.session = _ at here
      change l.move = _ at move
      have point := h.point
      rw [here, move] at point
      obtain ⟨ended, store⟩ := point.commitNew
      rw [Function.update_self, store]
      exact ⟨⟨_, _, ended⟩, Table.find_add_ne_none⟩

end Moved

end Clock

section Effects

variable {settings : Settings} {locked : Write → Bool} {s t : Store} {p q : DlqPoint}
variable {m : Move Exn Choice} {now : Time}

/-- What a step does to the entries whose task a scan has sent: it leaves them, it sends one
more, or it commits. -/
inductive Effect (settings : Settings) (s : Store) (now : Time) (p : DlqPoint)
    (m : Move Exn Choice) : Option Uuid → DlqPoint → Store → Prop where
  | quiet {q : DlqPoint} : q.sent = p.sent →
      (∀ d ∈ q.stamped, d ∈ p.stamped ∨ (d.1 ∈ p.sent ∧ d.2 = now)) →
        Effect settings s now p m none q s
  | send {st : ScanState} {f : FailedEvent} {rest : List FailedEvent} : p = .sendTask st →
      st.rest = f :: rest →
        Effect settings s now p m (some f.id) (.readClock { st with rest := rest } f) s
  | commit {choice : Choice} : p.commits = true → m = .step choice →
      Effect settings s now p m none (.ended (.ok ()) []) (postgres.view s (p.writes settings))

theorem DlqPoint.sent_eq_nil (h : p.scans = false) : p.sent = [] := by
  cases p <;> first | rfl | cases h

theorem DlqPoint.sent_eq_nil_of_mayAbort (h : p.mayAbort = true) (open' : p.commits = false) :
    p.sent = [] := by
  cases p with
  | sendTask st =>
      rw [DlqPoint.mayAbort] at h
      rw [DlqPoint.commits, h] at open'
      cases open'
  | readClock st f => cases h
  | updateFailed st f t => cases h
  | _ => rfl

/-- A transaction that has sent nothing ends. -/
theorem Effect.ended {result : Except Exn Unit} {writes : List Write} (h : p.sent = []) :
    Effect settings s now p m none (.ended result writes) s :=
  .quiet h.symm (fun _ hd => (List.not_mem_nil hd).elim)

/-- In a run in which scans commit, what they have sent is accounted for. -/
theorem PointStep.effect (h : PointStep settings locked s p m q t)
    (reads : ∀ r, p.readsClock = true → m = .step (.time r) → r = now)
    (ends : p.scans = true → ∀ e, m ≠ .crash e)
    (commits : p.scans = true → p.commits = true → ∀ e, m ≠ .fail e) :
    Effect settings s now p m (p.sends m) q t := by
  have none : ∀ d ∈ ([] : List (FailedEvent × Time)),
      d ∈ p.stamped ∨ (d.1 ∈ p.sent ∧ d.2 = now) := fun _ hd => (List.not_mem_nil hd).elim
  cases h with
  | @crash p e =>
      refine .ended ?_
      cases scans : p.scans with
      | true => exact (ends scans e rfl).elim
      | false => exact DlqPoint.sent_eq_nil scans
  | close => exact .ended rfl
  | @fail p e writes mayAbort _ =>
      refine .ended ?_
      cases scans : p.scans with
      | false => exact DlqPoint.sent_eq_nil scans
      | true =>
          cases open' : p.commits with
          | true => exact (commits scans open' e rfl).elim
          | false => exact DlqPoint.sent_eq_nil_of_mayAbort mayAbort open'
  | @commit p choice over' =>
      have target : p.target = Option.none := by
        cases p with
        | sendTask st =>
            have empty := List.isEmpty_iff.mp over'
            rw [DlqPoint.target, empty]
            rfl
        | _ => rfl
      rw [DlqPoint.sends, target]
      exact .commit over' rfl
  | @skip st f rest e same => exact .quiet rfl (fun d hd => .inl hd)
  | @send st f rest choice same =>
      have target : (DlqPoint.sendTask st).target = some f.id := by
        rw [DlqPoint.target, same]
        rfl
      rw [DlqPoint.sends, target]
      exact .send rfl same
  | @account st f t =>
      refine .quiet rfl (fun d hd => ?_)
      rcases List.mem_append.mp hd with old | new
      · exact .inl old
      · rw [List.mem_singleton.mp new]
        exact .inr ⟨List.mem_append_right _ (List.mem_singleton_self f), reads t rfl rfl⟩
  | @update st f t choice =>
      refine .quiet ?_ (fun d hd => .inl hd)
      change (st.done ++ [(f, t)]).map Prod.fst = st.done.map Prod.fst ++ [f]
      rw [List.map_append]
      rfl
  | _ => exact .quiet rfl none

/-- The entry that a recording transaction refreshes was active when it was selected. -/
theorem PointStep.existing (h : PointStep settings locked s p m q t) {f : FailedEvent}
    (refreshes : q.existing = some f) :
    p.existing = some f ∨ (f ∈ s.failedEvents ∧ f.active = true) := by
  cases h with
  | found listed =>
      cases refreshes
      obtain ⟨member, _, _, active⟩ := mem_activeEntries.mp listed
      exact .inr ⟨member, active⟩
  | refresh => exact .inl refreshes
  | flush => exact .inl refreshes
  | _ => cases refreshes

theorem DlqPoint.mem_sent_of_mem_stamped {d : FailedEvent × Time} (h : d ∈ p.stamped) :
    d.1 ∈ p.sent := by
  cases p with
  | sendTask st => exact List.mem_map.mpr ⟨d, h, rfl⟩
  | readClock st f => exact List.mem_append_left _ (List.mem_map.mpr ⟨d, h, rfl⟩)
  | updateFailed st f t =>
      have marked : d.1 ∈ (st.done ++ [(f, t)]).map Prod.fst := List.mem_map.mpr ⟨d, h, rfl⟩
      rw [List.map_append] at marked
      exact marked
  | _ => exact (List.not_mem_nil h).elim

/-- The entries whose task a scan has sent are locked. -/
theorem DlqPoint.Secured.locks (h : p.Secured settings s) {f : FailedEvent} (hf : f ∈ p.sent) :
    .lockFailed f.id ∈ p.writes settings := by
  cases p with
  | sendTask st =>
      exact List.mem_append_left _ (List.mem_map.mpr
        ⟨f, ScanState.Sound.subset h (List.mem_append_left _ hf), rfl⟩)
  | readClock st g =>
      exact List.mem_append_left _ (List.mem_map.mpr
        ⟨f, ScanState.Sound.subset h (List.mem_append_left _ hf), rfl⟩)
  | updateFailed st g t =>
      exact List.mem_append_left _ (List.mem_map.mpr
        ⟨f, ScanState.Sound.subset h (List.mem_append_left _ hf), rfl⟩)
  | _ => exact (List.not_mem_nil hf).elim

/-- A renewed failure moves no watermark. -/
theorem FailureCall.patch_nextRetryAt (call : FailureCall) {f : FailedEvent}
    (seeded : f.nextRetryAt.isSome) (x : FailedEvent) :
    (x.patch (call.patch settings f now)).nextRetryAt = x.nextRetryAt := by
  have unset : f.nextRetryAt.isNone = false := Option.isNone_eq_false_iff.mpr seeded
  unfold FailureCall.patch refreshed
  rw [unset]
  rfl

/-- Where an entry comes from after a commit. -/
theorem DlqPoint.Secured.origin (h : p.Secured settings s) (commits : p.commits = true)
    (seeded : ∀ f, p.existing = some f → f.nextRetryAt.isSome) {y : FailedEvent}
    (hy : y ∈ (postgres.view s (p.writes settings)).failedEvents) :
    (∃ f ∈ s.failedEvents, (y.id = f.id ∧ y.status = f.status ∧
      y.replayAttempts = f.replayAttempts ∧ y.nextRetryAt = f.nextRetryAt) ∧
        ∀ g ∈ p.sent, g.id ≠ f.id) ∨
      (∃ call now created, p = .commitNew call now y.id created ∧
        y = call.row settings now y.id created) ∨
        ∃ d ∈ p.stamped, d.1 ∈ p.sent ∧ d.1 ∈ s.failedEvents ∧
          y = d.1.patch (scheduled settings d.1 d.2) := by
  cases p with
  | commitExisting call now f =>
      obtain ⟨x, hx, rfl⟩ := Store.mem_put_patchFailed.mp hy
      refine .inl ⟨x, hx, ?_, fun g hg => (List.not_mem_nil hg).elim⟩
      by_cases same : x.id = f.id
      · rw [if_pos same]
        exact ⟨rfl, rfl, rfl, call.patch_nextRetryAt (seeded f rfl) x⟩
      · rw [if_neg same]
        exact ⟨rfl, rfl, rfl, rfl⟩
  | commitNew call now id created =>
      rcases Table.mem_of_mem_add hy with old | rfl
      · exact .inl ⟨y, old, ⟨rfl, rfl, rfl, rfl⟩, fun g hg => (List.not_mem_nil hg).elim⟩
      · exact .inr (.inl ⟨call, now, created, rfl, rfl⟩)
  | sendTask st =>
      rcases h.mem_view hy with ⟨d, hd, member, _, rfl⟩ | ⟨member, others⟩
      · exact .inr (.inr ⟨d, hd, List.mem_map.mpr ⟨d, hd, rfl⟩, member, rfl⟩)
      · refine .inl ⟨y, member, ⟨rfl, rfl, rfl, rfl⟩, fun g hg => ?_⟩
        obtain ⟨d, hd, rfl⟩ := List.mem_map.mp hg
        exact others d hd
  | _ => cases commits

/-- The commit of a recording transaction leaves every watermark as it is. -/
theorem DlqPoint.keeps_watermark (commits : p.commits = true) (recording : p.scans = false)
    (seeded : ∀ f, p.existing = some f → f.nextRetryAt.isSome) {f : FailedEvent}
    (hf : f ∈ s.failedEvents) : ∃ g ∈ (postgres.view s (p.writes settings)).failedEvents,
      g.id = f.id ∧ g.nextRetryAt = f.nextRetryAt := by
  cases p with
  | commitExisting call now existing =>
      refine ⟨_, Store.mem_put_patchFailed.mpr ⟨f, hf, rfl⟩, ?_⟩
      by_cases same : f.id = existing.id
      · rw [if_pos same]
        exact ⟨rfl, call.patch_nextRetryAt (seeded existing rfl) f⟩
      · rw [if_neg same]
        exact ⟨rfl, rfl⟩
  | commitNew call now id t => exact ⟨f, Table.mem_add_of_mem hf, rfl, rfl⟩
  | sendTask st => cases recording
  | _ => cases commits

end Effects

section Pace

variable {ι : Type} {settings : Settings} {steps steps' : List (TimedStep ι)} {f g : FailedEvent}

/-- What the columns of an entry say that no scan has sent and not yet committed. -/
structure Rested (settings : Settings) (steps : List (TimedStep ι)) (f : FailedEvent) : Prop where
  attempts : f.replayAttempts = (dispatches steps f.id).length
  later : f.active → ∀ t, f.nextRetryAt = some t → ∀ d ∈ dispatches steps f.id,
    d + computeBackoff settings (dispatches steps f.id).length ≤ t
  initial : f.active → ∀ t, f.nextRetryAt = some t → dispatches steps f.id = [] →
    ∀ r, CreatedAt steps f.id r → r + computeBackoff settings 0 ≤ t

/-- The same entry, as far as retries are concerned. -/
def SameRetry (y f : FailedEvent) : Prop :=
  y.id = f.id ∧ y.status = f.status ∧ y.replayAttempts = f.replayAttempts ∧
    y.nextRetryAt = f.nextRetryAt

theorem SameRetry.active {y : FailedEvent} (h : SameRetry y f) : y.active = f.active := by
  unfold FailedEvent.active
  rw [h.2.1]

theorem Rested.congr (h : Rested settings steps f) {y : FailedEvent} (same : SameRetry y f)
    (sent : dispatches steps' f.id = dispatches steps f.id)
    (created : ∀ r, CreatedAt steps' f.id r ↔ CreatedAt steps f.id r) :
    Rested settings steps' y := by
  have active := same.active
  obtain ⟨id, _, attempts, watermark⟩ := same
  refine ⟨?_, ?_, ?_⟩
  · rw [attempts, id, sent]
    exact h.attempts
  · rw [active, watermark, id, sent]
    exact h.later
  · rw [active, watermark, id, sent]
    intro act t next none r read
    exact h.initial act t next none r ((created r).mp read)

theorem Spaced.congr {id : Uuid} (h : Spaced steps settings id)
    (sent : dispatches steps' id = dispatches steps id)
    (created : dispatches steps id ≠ [] → ∀ r, CreatedAt steps' id r ↔ CreatedAt steps id r) :
    Spaced steps' settings id := by
  refine ⟨fun t first => ?_, ?_⟩
  · rw [sent] at first
    have same := created (fun none => by rw [none] at first; cases first)
    obtain ⟨⟨r, born⟩, all⟩ := h.first t first
    exact ⟨⟨r, (same r).mpr born⟩, fun r read => all r ((same r).mp read)⟩
  · rw [sent]
    exact h.next

/-- The invariant of a run from an empty queue. -/
structure Paced (settings : Settings) (steps : List (TimedStep ι)) (s : Store)
    (points : ι → DlqPoint) : Prop where
  known : ∀ id, dispatches steps id ≠ [] → s.failedEvents.find id ≠ none
  born : ∀ f ∈ s.failedEvents, ∃ r, CreatedAt steps f.id r
  watermark : ∀ f ∈ s.failedEvents, f.active → f.nextRetryAt.isSome
  seeded : ∀ i f, (points i).existing = some f → f.nextRetryAt.isSome
  counted : ∀ i, ∀ f ∈ (points i).sent, f.replayAttempts + 1 = (dispatches steps f.id).length
  stamped : ∀ i, ∀ d ∈ (points i).stamped, ∀ t ∈ dispatches steps d.1.id, t ≤ d.2
  rested : ∀ f ∈ s.failedEvents, (∀ i, ∀ g ∈ (points i).sent, g.id ≠ f.id) →
    Rested settings steps f
  spaced : ∀ id, Spaced steps settings id

theorem paced_start {jobs : ι → DlqJob} {s : Store} (empty : s.failedEvents.rows = []) :
    Paced settings [] s (fun i => (jobs i).point settings) := by
  have none : ∀ f, f ∉ s.failedEvents := by
    intro f hf
    rw [Table.mem_def, empty] at hf
    cases hf
  refine ⟨fun id some => (some rfl).elim, fun f hf => (none f hf).elim,
    fun f hf => (none f hf).elim, fun i f refreshes => ?_, fun i f hf => ?_, fun i d hd => ?_,
    fun f hf => (none f hf).elim, fun id => ⟨fun t first => ?_, fun k t t' here => ?_⟩⟩
  · rw [((jobs i).point_fresh settings).2.2.1] at refreshes
    cases refreshes
  · rw [((jobs i).point_fresh settings).2.2.2.1] at hf
    cases hf
  · rw [((jobs i).point_fresh settings).2.2.2.2] at hd
    cases hd
  · cases first
  · cases here

/-- An entry that a scan is about to send was not sent before by it. -/
theorem ScanState.Sound.unsent {s : Store} {st : ScanState} {rest : List FailedEvent}
    (h : st.Sound settings s (DlqPoint.sendTask st).sent) (next : st.rest = f :: rest) :
    ∀ g ∈ (DlqPoint.sendTask st).sent, g.id ≠ f.id := by
  intro g hg same
  have once := h.nodup
  rw [next, List.map_append, List.map_cons] at once
  exact (List.nodup_append.mp once).2.2 g.id (List.mem_map.mpr ⟨g, hg, rfl⟩) f.id
    List.mem_cons_self same

/-- Nor by another transaction, since its row is locked. -/
theorem DlqPoint.Secured.unsent {s : Store} {p : DlqPoint} {st : ScanState}
    {rest : List FailedEvent} (h : p.Secured settings s)
    (here : st.Sound settings s (DlqPoint.sendTask st).sent) (next : st.rest = f :: rest)
    (apart : postgres.Compatible (p.writes settings) ((DlqPoint.sendTask st).writes settings)) :
    ∀ g ∈ p.sent, g.id ≠ f.id := by
  intro g hg same
  have locked : .lockFailed f.id ∈ (DlqPoint.sendTask st).writes settings := by
    refine List.mem_append_left _ (List.mem_map.mpr ⟨f, here.subset ?_, rfl⟩)
    rw [next]
    exact List.mem_append_right _ List.mem_cons_self
  have locked' := h.locks hg
  rw [same] at locked'
  exact not_lock_of_compatible apart locked' (List.mem_singleton_self _) _ locked
    (List.mem_singleton_self _)

/-- An entry that a scan is about to send is not held by any scan. -/
theorem Tracks.unsent {c : Cluster Answer Exn Store Write World ι Unit} {points : ι → DlqPoint}
    {i : ι} {st : ScanState} {rest : List FailedEvent} (h : Tracks settings c points)
    (here : points i = .sendTask st) (next : st.rest = f :: rest) :
    ∀ j, ∀ g ∈ (points j).sent, g.id ≠ f.id := by
  intro j
  have sound : st.Sound settings c.shared.store (DlqPoint.sendTask st).sent := by
    have secured := h.secured i
    rw [here] at secured
    exact secured
  by_cases own : j = i
  · subst own
    rw [here]
    exact sound.unsent next
  · have apart := h.disjoint j i own
    rw [h.sessions j, h.sessions i, here] at apart
    exact (h.secured j).unsent sound next apart

variable [DecidableEq ι] {points : ι → DlqPoint} {i : ι} {q : DlqPoint} {s : Store} {now : Time}

theorem find_ne_none_of_mem (hf : f ∈ s.failedEvents) : s.failedEvents.find f.id ≠ none :=
  fun absent => Table.find_eq_none_iff.mp absent f hf rfl

/-- Who is created keeps its creation. -/
def KeepsCreated (steps steps' : List (TimedStep ι)) (s : Store) : Prop :=
  ∀ id, s.failedEvents.find id ≠ none → ∀ r, CreatedAt steps' id r ↔ CreatedAt steps id r

/-- Time passes. -/
theorem Paced.quiet (h : Paced settings steps s points)
    (sent : ∀ id, dispatches steps' id = dispatches steps id)
    (created : KeepsCreated steps steps' s)
    (past : ∀ id, ∀ t ∈ dispatches steps id, t ≤ now) (same : q.sent = (points i).sent)
    (stamped : ∀ d ∈ q.stamped, d ∈ (points i).stamped ∨ (d.1 ∈ (points i).sent ∧ d.2 = now))
    (seeded : ∀ f, q.existing = some f → f.nextRetryAt.isSome) :
    Paced settings steps' s (Function.update points i q) := by
  have holds : ∀ j, (Function.update points i q j).sent = (points j).sent := by
    intro j
    by_cases own : j = i
    · subst own
      rw [Function.update_self]
      exact same
    · rw [Function.update_of_ne own]
  refine ⟨?_, ?_, h.watermark, ?_, ?_, ?_, ?_, ?_⟩
  · intro id
    rw [sent id]
    exact h.known id
  · intro f hf
    obtain ⟨r, born⟩ := h.born f hf
    exact ⟨r, (created f.id (find_ne_none_of_mem hf) r).mpr born⟩
  · intro j f refreshes
    by_cases own : j = i
    · subst own
      rw [Function.update_self] at refreshes
      exact seeded f refreshes
    · rw [Function.update_of_ne own] at refreshes
      exact h.seeded j f refreshes
  · intro j f hf
    rw [holds j] at hf
    rw [sent f.id]
    exact h.counted j f hf
  · intro j d hd
    rw [sent d.1.id]
    by_cases own : j = i
    · subst own
      rw [Function.update_self] at hd
      rcases stamped d hd with old | ⟨_, read⟩
      · exact h.stamped j d old
      · rw [read]
        exact past d.1.id
    · rw [Function.update_of_ne own] at hd
      exact h.stamped j d hd
  · intro f hf free
    refine (h.rested f hf (fun j => ?_)).congr ⟨rfl, rfl, rfl, rfl⟩ (sent f.id)
      (created f.id (find_ne_none_of_mem hf))
    rw [← holds j]
    exact free j
  · exact fun id => (h.spaced id).congr (sent id) (fun some => created id (h.known id some))

/-- A dispatch comes when the watermark has passed, which the last dispatch has set. -/
theorem Paced.send {c : Cluster Answer Exn Store Write World ι Unit} {st : ScanState}
    {rest : List FailedEvent} (h : Paced settings steps c.shared.store points)
    (tracks : Tracks settings c points) (here : points i = .sendTask st) (next : st.rest = f :: rest)
    (sent : ∀ id, dispatches steps' id = dispatches steps id ++ if f.id = id then [now] else [])
    (created : KeepsCreated steps steps' c.shared.store) (started : st.now ≤ now) :
    Paced settings steps' c.shared.store
      (Function.update points i (.readClock { st with rest := rest } f)) := by
  have unsent := tracks.unsent here next
  have sound : st.Sound settings c.shared.store (DlqPoint.sendTask st).sent := by
    have secured := tracks.secured i
    rw [here] at secured
    exact secured
  obtain ⟨member, active, _, due⟩ := sound.due f (sound.subset (by rw [next]; simp))
  have rested := h.rested f member unsent
  obtain ⟨t, watermark⟩ := Option.isSome_iff_exists.mp (h.watermark f member active)
  have elapsed : t ≤ now := Int.le_trans (due t watermark) started
  have other : ∀ id, f.id ≠ id → dispatches steps' id = dispatches steps id := by
    intro id different
    rw [sent id, if_neg different, List.append_nil]
  have own : dispatches steps' f.id = dispatches steps f.id ++ [now] := by
    rw [sent f.id, if_pos rfl]
  have holds : ∀ j, ∀ g ∈ (Function.update points i (.readClock { st with rest := rest } f) j).sent,
      (∃ k, g ∈ (points k).sent) ∨ g = f := by
    intro j g hg
    by_cases same : j = i
    · subst same
      rw [Function.update_self] at hg
      rcases List.mem_append.mp hg with old | new
      · refine .inl ⟨j, ?_⟩
        rw [here]
        exact old
      · exact .inr (List.mem_singleton.mp new)
    · rw [Function.update_of_ne same] at hg
      exact .inl ⟨j, hg⟩
  refine ⟨?_, ?_, h.watermark, ?_, ?_, ?_, ?_, ?_⟩
  · intro id some
    by_cases same : f.id = id
    · rw [← same]
      exact find_ne_none_of_mem member
    · rw [other id same] at some
      exact h.known id some
  · intro g hg
    obtain ⟨r, born⟩ := h.born g hg
    exact ⟨r, (created g.id (find_ne_none_of_mem hg) r).mpr born⟩
  · intro j g refreshes
    by_cases same : j = i
    · subst same
      rw [Function.update_self] at refreshes
      cases refreshes
    · rw [Function.update_of_ne same] at refreshes
      exact h.seeded j g refreshes
  · intro j g hg
    rcases holds j g hg with ⟨k, old⟩ | rfl
    · rw [other g.id (unsent k g old).symm]
      exact h.counted k g old
    · rw [own, List.length_append, rested.attempts]
      rfl
  · intro j d hd
    have old : d ∈ (points j).stamped := by
      by_cases same : j = i
      · subst same
        rw [Function.update_self] at hd
        rw [here]
        exact hd
      · rw [Function.update_of_ne same] at hd
        exact hd
    rw [other d.1.id (unsent j d.1 (DlqPoint.mem_sent_of_mem_stamped old)).symm]
    exact h.stamped j d old
  · intro g hg free
    have different : f.id ≠ g.id := by
      refine free i f ?_
      rw [Function.update_self]
      exact List.mem_append_right _ (List.mem_singleton_self f)
    refine (h.rested g hg (fun j g' hg' => ?_)).congr ⟨rfl, rfl, rfl, rfl⟩ (other g.id different)
      (created g.id (find_ne_none_of_mem hg))
    by_cases same : j = i
    · subst same
      refine free j g' ?_
      rw [here] at hg'
      rw [Function.update_self]
      exact List.mem_append_left _ hg'
    · refine free j g' ?_
      rw [Function.update_of_ne same]
      exact hg'
  · intro id
    by_cases same : f.id = id
    · subst same
      have creations := created f.id (find_ne_none_of_mem member)
      refine ⟨fun first earliest => ?_, ?_⟩
      · rw [own] at earliest
        cases past : dispatches steps f.id with
        | nil =>
            rw [past] at earliest
            cases earliest
            obtain ⟨r, born⟩ := h.born f member
            refine ⟨⟨r, (creations r).mpr born⟩, fun r read => ?_⟩
            exact Int.le_trans (rested.initial active t watermark past r ((creations r).mp read))
              elapsed
        | cons d ds =>
            rw [past] at earliest
            cases earliest
            obtain ⟨⟨r, born⟩, all⟩ := (h.spaced f.id).first first (by rw [past]; rfl)
            exact ⟨⟨r, (creations r).mpr born⟩, fun r read => all r ((creations r).mp read)⟩
      · rw [own]
        refine spaced_concat (h.spaced f.id).next (fun d hd => ?_)
        exact Int.le_trans (rested.later active t watermark d hd) elapsed
    · exact (h.spaced id).congr (other id same) (fun some => created id (h.known id some))

/-- A commit publishes the watermarks that are due after the dispatches of the scan. -/
theorem Paced.commit (h : Paced settings steps s points) (secured : (points i).Secured settings s)
    (commits : (points i).commits = true)
    (sent : ∀ id, dispatches steps' id = dispatches steps id)
    (created : KeepsCreated steps steps' s)
    (first : ∀ call r id t, points i = .commitNew call r id t →
      ∀ r', CreatedAt steps' id r' ↔ r' = r) {result : Except Exn Unit} {writes : List Write} :
    Paced settings steps' (postgres.view s ((points i).writes settings))
      (Function.update points i (.ended result writes)) := by
  have others : ∀ j, j ≠ i → Function.update points i (.ended result writes) j = points j :=
    fun j other => Function.update_of_ne other _ _
  have released : Function.update points i (.ended result writes) i = .ended result writes :=
    Function.update_self _ _ _
  have origin : ∀ {y}, y ∈ (postgres.view s ((points i).writes settings)).failedEvents → _ :=
    fun hy => secured.origin commits (h.seeded i) hy
  have absent : ∀ {call r id t}, points i = .commitNew call r id t →
      s.failedEvents.find id = none := by
    intro call r id t here
    rw [here] at secured
    exact secured
  refine ⟨?_, ?_, ?_, ?_, ?_, ?_, ?_, ?_⟩
  · intro id some none
    rw [sent id] at some
    exact h.known id some (find_failedEvents_of_view none)
  · intro y hy
    rcases origin hy with ⟨f, hf, ⟨id, _⟩, _⟩ | ⟨call, r, t, here, _⟩ | ⟨d, _, _, member, rfl⟩
    · obtain ⟨r, born⟩ := h.born f hf
      rw [id]
      exact ⟨r, (created f.id (find_ne_none_of_mem hf) r).mpr born⟩
    · exact ⟨r, (first call r y.id t here r).mpr rfl⟩
    · obtain ⟨r, born⟩ := h.born d.1 member
      exact ⟨r, (created d.1.id (find_ne_none_of_mem member) r).mpr born⟩
  · intro y hy active
    rcases origin hy with ⟨f, hf, same, _⟩ | ⟨call, r, t, _, new⟩ | ⟨d, _, _, _, rfl⟩
    · rw [same.2.2.2]
      exact h.watermark f hf (SameRetry.active same ▸ active)
    · rw [new]
      rfl
    · revert active
      unfold scheduled
      split
      · intro impossible
        cases impossible
      · exact fun _ => rfl
  · intro j f refreshes
    by_cases own : j = i
    · subst own
      rw [released] at refreshes
      cases refreshes
    · rw [others j own] at refreshes
      exact h.seeded j f refreshes
  · intro j f hf
    by_cases own : j = i
    · subst own
      rw [released] at hf
      exact (List.not_mem_nil hf).elim
    · rw [others j own] at hf
      rw [sent f.id]
      exact h.counted j f hf
  · intro j d hd
    by_cases own : j = i
    · subst own
      rw [released] at hd
      exact (List.not_mem_nil hd).elim
    · rw [others j own] at hd
      rw [sent d.1.id]
      exact h.stamped j d hd
  · intro y hy free
    rcases origin hy with ⟨f, hf, same, unsent⟩ | ⟨call, r, t, here, new⟩ | ⟨d, hd, held, member, rfl⟩
    · refine (h.rested f hf (fun j g hg => ?_)).congr same (sent f.id)
        (created f.id (find_ne_none_of_mem hf))
      by_cases own : j = i
      · subst own
        exact unsent g hg
      · have apart := free j g
        rw [others j own, same.1] at apart
        exact apart hg
    · have never : dispatches steps y.id = [] := by
        by_contra some
        exact h.known y.id some (absent here)
      rw [← sent y.id] at never
      refine ⟨?_, ?_, ?_⟩
      · rw [never, new]
        rfl
      · rw [never]
        exact fun _ _ _ d hd => (List.not_mem_nil hd).elim
      · intro _ w watermark _ r' read
        rw [(first call r y.id t here r').mp read]
        rw [new] at watermark
        cases watermark
        exact Int.le_refl _
    · have count := h.counted i d.1 held
      have stamps := h.stamped i d hd
      rw [← sent d.1.id] at count stamps
      have some : dispatches steps' d.1.id ≠ [] := by
        intro none
        rw [none] at count
        cases count
      unfold scheduled
      split
      · refine ⟨count, fun active => ?_, fun active => ?_⟩ <;> cases active
      · refine ⟨count, fun _ w watermark t ht => ?_, fun _ _ _ none => (some none).elim⟩
        cases watermark
        change t + computeBackoff settings (dispatches steps' d.1.id).length ≤
          d.2 + computeBackoff settings (d.1.replayAttempts + 1)
        rw [count]
        exact Int.add_le_add_right (stamps t ht) _
  · exact fun id => (h.spaced id).congr (sent id) (fun some => created id (h.known id some))

end Pace

section Run

variable {ι : Type} [Fintype ι] [DecidableEq ι] {settings : Settings} {jobs : ι → DlqJob}
variable {steps : List (TimedStep ι)} {w w' : TimedWorkers ι} {l : TimedMove ι}
variable {points : ι → DlqPoint} {q : DlqPoint}

namespace Moved

theorem effect (h : Moved settings jobs steps w points l q w') :
    Effect settings w.cluster.shared.store l.time (points l.session) l.move
      ((points l.session).sends l.move) q w'.cluster.shared.store := by
  refine h.point.effect (fun r reads move => h.reading_eq reads move)
    (fun scans => h.taken.ends (h.before.scans _ scans)) (fun scans commits e => ?_)
  obtain ⟨next, prog⟩ := DlqPoint.prog_of_commits settings commits
  refine h.taken.commits (h.before.scans _ scans) next ?_ e
  rw [h.before.tracks.sessions l.session]
  exact prog

/-- A new entry is created by the transaction that has read the clock. -/
theorem createdAt_new (h : Moved settings jobs steps w points l q w') {call : FailureCall}
    {r t : Time} {id : Uuid} {choice : Choice}
    (here : points l.session = .commitNew call r id t) (move : l.move = .step choice) (r' : Time) :
    CreatedAt (steps ++ [⟨w, l, w'⟩]) id r' ↔ r' = r := by
  have absent := h.before.tracks.secured l.session
  rw [here] at absent
  have read : HasRead steps l.session r' ↔ r' = r := by
    refine h.before.read l.session r ?_ r'
    rw [here]
    rfl
  constructor
  · rintro ⟨x, hx, creates, reads⟩
    rcases List.mem_append.mp hx with old | new
    · exact ((h.before.created x old id creates).2 absent).elim
    · rw [List.mem_singleton.mp new] at reads
      rcases hasRead_concat.mp reads with before | ⟨_, now⟩
      · exact read.mp before
      · obtain ⟨_, reads⟩ := TimedStep.reading_eq_some h.before.tracks now
        change (points l.session).readsClock = true at reads
        rw [here] at reads
        cases reads
  · intro same
    refine ⟨⟨w, l, w'⟩, List.mem_append_right _ (List.mem_singleton_self _),
      TimedStep.creates_of_commitNew h.before.tracks here move, ?_⟩
    exact hasRead_concat.mpr (.inl (read.mpr same))

theorem paced (h : Moved settings jobs steps w points l q w')
    (paced : Paced settings steps w.cluster.shared.store points) :
    Paced settings (steps ++ [⟨w, l, w'⟩]) w'.cluster.shared.store
      (Function.update points l.session q) := by
  have sent : ∀ id, dispatches (steps ++ [⟨w, l, w'⟩]) id = dispatches steps id ++
      if (points l.session).sends l.move = some id then [l.time] else [] := by
    intro id
    rw [dispatches_concat, TimedStep.dispatched_eq h.before.tracks]
  have created : KeepsCreated steps (steps ++ [⟨w, l, w'⟩]) w.cluster.shared.store :=
    fun id known r => h.createdAt_iff known
  have past : ∀ id, ∀ t ∈ dispatches steps id, t ≤ l.time := by
    intro id t ht
    obtain ⟨x, hx, time⟩ := List.mem_filterMap.mp ht
    split at time
    · cases time
      exact Int.le_trans (h.before.past x hx) h.taken.later
    · cases time
  have seeded : ∀ f, q.existing = some f → f.nextRetryAt.isSome := by
    intro f refreshes
    rcases h.point.existing refreshes with before | ⟨member, active⟩
    · exact paced.seeded l.session f before
    · exact paced.watermark f member active
  have new : ∀ choice, l.move = .step choice → ∀ call r id t,
      points l.session = .commitNew call r id t →
        ∀ r', CreatedAt (steps ++ [⟨w, l, w'⟩]) id r' ↔ r' = r :=
    fun choice move call r id t here r' => h.createdAt_new here move r'
  have effect := h.effect
  generalize steps ++ [⟨w, l, w'⟩] = steps' at sent created new ⊢
  generalize w'.cluster.shared.store = s' at effect ⊢
  generalize (points l.session).sends l.move = d at effect sent
  cases effect with
  | quiet same stamped =>
      exact paced.quiet (fun id => (sent id).trans (List.append_nil _)) created past same stamped
        seeded
  | @send st f rest here next =>
      have started : st.now ≤ l.time := by
        refine Int.le_trans (h.before.started l.session st.now ?_) h.taken.later
        rw [here]
        rfl
      simp only [Option.some.injEq] at sent
      exact paced.send h.before.tracks here next sent created started
  | commit commits move =>
      exact paced.commit (h.before.tracks.secured l.session) commits
        (fun id => (sent id).trans (List.append_nil _)) created (new _ move)

end Moved

/-- A recording transaction leaves every watermark as it is. -/
theorem Moved.keepsWatermarks (h : Moved settings jobs steps w points l q w')
    (paced : Paced settings steps w.cluster.shared.store points) {call : FailureCall}
    (job : jobs l.session = .record call) : TimedStep.KeepsWatermarks ⟨w, l, w'⟩ := by
  intro f hf
  change ∃ g ∈ w'.cluster.shared.store.failedEvents, _
  rcases h.point.commits with same | ⟨commits, _, _, store⟩
  · rw [same]
    exact ⟨f, hf, rfl, rfl⟩
  have recording : (points l.session).scans = false := by
    cases scans : (points l.session).scans with
    | false => rfl
    | true =>
        have other := h.before.scans l.session scans
        rw [job] at other
        cases other
  rw [store]
  exact DlqPoint.keeps_watermark commits recording (paced.seeded l.session) hf

/-- Every run from an empty queue. -/
theorem exists_paced {σ : State ι} {now : Time} (empty : σ.store.failedEvents.rows = [])
    (run : Trace (TimedWorkers.Steps jobs)
      ⟨now, Cluster.start σ (fun i => (jobs i).prog settings)⟩ steps w) :
    (∃ points, Clocked settings jobs steps w points ∧
      Paced settings steps w.cluster.shared.store points) ∧
        ∀ x ∈ steps, ∀ call, jobs x.label.session = .record call → x.KeepsWatermarks := by
  induction run with
  | nil =>
      exact ⟨⟨_, clocked_start, paced_start empty⟩, fun x hx => (List.not_mem_nil hx).elim⟩
  | @concat steps w w' l run taken ih =>
      obtain ⟨⟨points, clocked, paced⟩, kept⟩ := ih
      obtain ⟨q, moved⟩ := clocked.moves taken
      refine ⟨⟨_, moved.clocked, moved.paced paced⟩, fun x hx call job => ?_⟩
      rcases List.mem_append.mp hx with old | new
      · exact kept x old call job
      · rw [List.mem_singleton.mp new] at job ⊢
        exact moved.keepsWatermarks paced job

/-- The first dispatch of an entry comes at least the initial backoff after the reading of the
clock by the call that has created it, two dispatches in a row are the backoff of their number
apart, and a failure leaves the watermark of every entry as it is. -/
theorem dispatches_spaced {σ : State ι} {now : Time} (empty : σ.store.failedEvents.rows = [])
    (run : Trace (TimedWorkers.Steps jobs)
      ⟨now, Cluster.start σ (fun i => (jobs i).prog settings)⟩ steps w) :
    (∀ id, Spaced steps settings id) ∧
      ∀ x ∈ steps, ∀ call, jobs x.label.session = .record call → x.KeepsWatermarks := by
  obtain ⟨⟨_, _, paced⟩, kept⟩ := exists_paced empty run
  exact ⟨paced.spaced, kept⟩

end Run

section Example

/-- No statement fails, and a reading shows the time of the step. -/
def TimedMove.regular {ι : Type} (l : TimedMove ι) : Bool :=
  match l.move with
  | .step (.time r) => decide (r = l.time)
  | .step _ => true
  | .close => true
  | _ => false

variable {ι : Type} [Fintype ι] [DecidableEq ι]

/-- The steps of a schedule of regular moves. -/
def TimedWorkers.history (w : TimedWorkers ι) :
    List (TimedMove ι) → Option (List (TimedStep ι) × TimedWorkers ι)
  | [] => some ([], w)
  | l :: schedule =>
      if w.now ≤ l.time ∧ l.regular then
        (w.cluster.act postgres l.session l.move).bind (fun c =>
          (history ⟨l.time, c⟩ schedule).map (fun run => (⟨w, l, ⟨l.time, c⟩⟩ :: run.1, run.2)))
      else none

theorem TimedWorkers.trace_of_history (jobs : ι → DlqJob) {w last : TimedWorkers ι}
    {schedule : List (TimedMove ι)} {steps : List (TimedStep ι)}
    (h : w.history schedule = some (steps, last)) :
    Trace (TimedWorkers.Steps jobs) w steps last := by
  induction schedule generalizing w steps with
  | nil =>
      cases h
      exact .nil
  | cons l schedule ih =>
      rw [history] at h
      split at h
      · next admitted =>
          obtain ⟨c, acts, rest⟩ := Option.bind_eq_some_iff.mp h
          obtain ⟨⟨steps', last'⟩, later, same⟩ := Option.map_eq_some_iff.mp rest
          cases same
          obtain ⟨time, session, move⟩ := l
          obtain ⟨order, regular⟩ := admitted
          refine .cons ⟨acts, order, rfl, ?_, ?_, ?_⟩ (ih later)
          · rintro _ r _ rfl
            exact of_decide_eq_true regular
          · rintro _ e rfl
            cases regular
          · rintro _ _ _ e rfl
            cases regular
      · cases h

/-- A failure and two scans. -/
def failureAndScans : Option Bool → DlqJob
  | none => .record ⟨"imap", "src.imap.tasks.sync_imap_messages", .obj [], "timed out", none⟩
  | some _ => .scan

/-- A scan that dispatches the entry. -/
def scanAt (i : Option Bool) (now : Time) : List (TimedMove (Option Bool)) :=
  [⟨now, i, .step (.time now)⟩, ⟨now, i, .step (.rows [1])⟩, ⟨now, i, .step (.text "task")⟩,
    ⟨now, i, .step (.time now)⟩, ⟨now, i, .step .none⟩, ⟨now, i, .step .none⟩]

/-- Each scan comes at the first moment at which the entry is due. -/
def promptScans : List (TimedMove (Option Bool)) :=
  [⟨0, none, .step (.time 0)⟩, ⟨0, none, .step (.rows [])⟩, ⟨0, none, .step (.draw 1 0)⟩,
    ⟨0, none, .step .none⟩] ++ scanAt (some false) 60000000 ++ scanAt (some true) 180000000

theorem dispatches_spaced_promptly : ∃ steps w,
    Trace (TimedWorkers.Steps failureAndScans)
      ⟨0, Cluster.start ⟨{}, ∅, []⟩ (fun i => (failureAndScans i).prog {})⟩ steps w ∧
        dispatches steps 1 = [60000000, 180000000] ∧ Spaced steps {} 1 := by
  have shape : ((⟨0, Cluster.start ⟨{}, ∅, []⟩ (fun i => (failureAndScans i).prog {})⟩ :
      TimedWorkers (Option Bool)).history promptScans).map (fun run => dispatches run.1 1) =
        some [60000000, 180000000] := by decide +kernel
  obtain ⟨⟨steps, w⟩, played, sent⟩ := Option.map_eq_some_iff.mp shape
  have run := TimedWorkers.trace_of_history failureAndScans played
  exact ⟨steps, w, run, sent, (dispatches_spaced rfl run).1 1⟩

end Example

end OmniSync
