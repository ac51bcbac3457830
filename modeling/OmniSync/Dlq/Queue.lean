import OmniSync.Data.Trace
import OmniSync.Database.Footprint
import OmniSync.Dlq.Router
import OmniSync.Dlq.Verification
import OmniSync.Txn.Steps

/-!
# The queue of one operation at a time

Failures are recorded, the retrier scans, and operators replay entries, one after the other.
Status, counter and timestamps of every entry agree, `FailedEvent.Sound`, and an operation
has at most one active entry: `QueueSound`. A scan reads the clock once for its `SELECT`. It
changes only entries that are due at that reading and whose task it has sent, `Rescheduled`.
-/

namespace OmniSync

open Txn

/-- What the columns of an entry say about each other. -/
def FailedEvent.Sound (settings : Settings) (f : FailedEvent) : Prop :=
  match f.status with
  | .pending => f.replayAttempts = 0 ∧ f.nextRetryAt.isSome
  | .retrying =>
      1 ≤ f.replayAttempts ∧ f.replayAttempts < settings.DLQ_MAX_REPLAY_ATTEMPTS ∧
        f.nextRetryAt.isSome
  | .exhausted => f.replayAttempts = settings.DLQ_MAX_REPLAY_ATTEMPTS ∧ f.nextRetryAt = none
  | .resolved => f.resolvedAt.isSome ∧ f.nextRetryAt = none
  | .failed => False

/-- At most one entry of an operation is active. -/
def OneActive (s : Store) : Prop :=
  ∀ f ∈ s.failedEvents.rows, ∀ g ∈ s.failedEvents.rows, f.source = g.source →
    f.operation = g.operation → f.active → g.active → f.id = g.id

instance (s : Store) : Decidable (OneActive s) :=
  inferInstanceAs (Decidable (∀ f ∈ s.failedEvents.rows, ∀ g ∈ s.failedEvents.rows,
    f.source = g.source → f.operation = g.operation → f.active → g.active → f.id = g.id))

/-- Every entry is sound, and at most one entry of an operation is active. -/
structure QueueSound (settings : Settings) (s : Store) : Prop where
  sound : ∀ f ∈ s.failedEvents, f.Sound settings
  single : OneActive s

/-- The entry is active, has an attempt left, and its backoff window has elapsed. -/
def FailedEvent.Due (settings : Settings) (now : Time) (f : FailedEvent) : Prop :=
  f.active ∧ f.replayAttempts < settings.DLQ_MAX_REPLAY_ATTEMPTS ∧
    ∀ t, f.nextRetryAt = some t → t ≤ now

theorem due_of_mem_dueEntries {settings : Settings} {s : Store} {now : Time}
    {locked : Write → Bool} {f : FailedEvent}
    (h : f ∈ s.dueEntries settings.DLQ_MAX_REPLAY_ATTEMPTS now locked) :
    f ∈ s.failedEvents ∧ f.Due settings now := by
  obtain ⟨member, due⟩ := List.mem_filter.mp h
  simp only [Bool.and_eq_true, decide_eq_true_eq] at due
  refine ⟨member, due.1.1.1, due.1.1.2, fun t next => ?_⟩
  have elapsed := due.1.2
  rw [next] at elapsed
  exact of_decide_eq_true elapsed

namespace FailedEvent.Sound

variable {settings : Settings} {f : FailedEvent} {now : Time}

/-- A renewed failure leaves the watermark of an active entry alone. -/
theorem nextRetryAt (h : f.Sound settings) (active : f.active) : f.nextRetryAt.isSome := by
  unfold Sound at h
  unfold FailedEvent.active at active
  cases status : f.status with
  | pending =>
      rw [status] at h
      exact h.2
  | retrying =>
      rw [status] at h
      exact h.2.2
  | _ =>
      rw [status] at active
      cases active

theorem refreshed (h : f.Sound settings) (active : f.active) {payload : Json}
    {errorText : String} {correlationId : Option String} :
    (f.patch (refreshed settings f payload errorText correlationId now)).Sound settings := by
  have seeded : f.nextRetryAt.isNone = false := by
    rw [Option.isNone_eq_false_iff]
    exact h.nextRetryAt active
  unfold OmniSync.refreshed
  rw [seeded]
  exact h

theorem recorded {source operation errorText : String} {payload : Json}
    {correlationId : Option String} {id : Uuid} {t : Time} :
    (recorded settings source operation payload errorText correlationId now id t).Sound settings :=
  ⟨rfl, rfl⟩

/-- Accounting for a dispatch counts it, and retires the entry with the last attempt. -/
theorem scheduled (left : f.replayAttempts < settings.DLQ_MAX_REPLAY_ATTEMPTS) :
    (f.patch (scheduled settings f now)).Sound settings := by
  unfold OmniSync.scheduled
  split
  · refine ⟨?_, rfl⟩
    change f.replayAttempts + 1 = settings.DLQ_MAX_REPLAY_ATTEMPTS
    omega
  · refine ⟨?_, ?_, rfl⟩
    · change 1 ≤ f.replayAttempts + 1
      omega
    · change f.replayAttempts + 1 < settings.DLQ_MAX_REPLAY_ATTEMPTS
      omega

end FailedEvent.Sound

namespace OneActive

variable {settings : Settings} {s t : Store} {source operation : String}

/-- Every entry was there before, and none has become active. -/
theorem of_images (h : OneActive s)
    (image : ∀ y ∈ t.failedEvents, ∃ x ∈ s.failedEvents, y.id = x.id ∧ y.source = x.source ∧
      y.operation = x.operation ∧ (y.active → x.active)) : OneActive t := by
  intro y hy y' hy' source operation active active'
  obtain ⟨x, hx, id₁, source₁, operation₁, before⟩ := image y hy
  obtain ⟨x', hx', id₂, source₂, operation₂, before'⟩ := image y' hy'
  rw [source₁, source₂] at source
  rw [operation₁, operation₂] at operation
  rw [id₁, id₂]
  exact h x hx x' hx' source operation (before active) (before' active')

theorem change (h : OneActive s) (f : FailedEvent → FailedEvent)
    (image : ∀ y ∈ t.failedEvents, ∃ x ∈ s.failedEvents, y = f x)
    (kept : ∀ x ∈ s.failedEvents, (f x).id = x.id ∧ (f x).source = x.source ∧
      (f x).operation = x.operation ∧ ((f x).active → x.active)) : OneActive t := by
  refine h.of_images (fun y hy => ?_)
  obtain ⟨x, hx, rfl⟩ := image y hy
  exact ⟨x, hx, kept x hx⟩

theorem patch (h : OneActive s) {id : Uuid} {p : FailedPatch}
    (patched : ∀ x ∈ s.failedEvents, x.id = id → (x.patch p).active → x.active) :
    OneActive (s.put (.patchFailed id p)) := by
  refine h.change (fun x => if x.id = id then x.patch p else x)
    (fun y hy => Store.mem_put_patchFailed.mp hy) (fun x hx => ?_)
  by_cases same : x.id = id
  · rw [if_pos same]
    exact ⟨rfl, rfl, rfl, patched x hx same⟩
  · rw [if_neg same]
    exact ⟨rfl, rfl, rfl, fun active => active⟩

/-- A new active entry stays the only one if and only if there is no other. -/
theorem add_iff {row : FailedEvent} (active : row.active)
    (absent : s.failedEvents.find row.id = none) :
    OneActive (s.put (.addFailed row)) ↔
      OneActive s ∧ s.activeEntries row.source row.operation = [] := by
  have fresh : ∀ f ∈ s.failedEvents, f.id ≠ row.id := Table.find_eq_none_iff.mp absent
  have here : row ∈ (s.put (.addFailed row)).failedEvents := by
    change row ∈ (s.failedEvents.add row).rows
    rw [Table.rows_add_of_absent absent]
    exact List.mem_append_right _ (List.mem_singleton.mpr rfl)
  constructor
  · intro h
    refine ⟨fun f hf g hg => h f (Table.mem_add_of_mem hf) g (Table.mem_add_of_mem hg), ?_⟩
    refine List.eq_nil_iff_forall_not_mem.mpr (fun f listed => ?_)
    obtain ⟨hf, source, operation, act⟩ := mem_activeEntries.mp listed
    exact fresh f hf (h f (Table.mem_add_of_mem hf) row here source operation act active)
  · rintro ⟨h, empty⟩
    have inactive : ∀ f ∈ s.failedEvents, f.source = row.source → f.operation = row.operation →
        ¬ f.active := by
      intro f hf source operation act
      have listed := mem_activeEntries.mpr ⟨hf, source, operation, act⟩
      rw [empty] at listed
      cases listed
    intro f hf g hg source operation actf actg
    rcases Table.mem_of_mem_add hf with old | rfl
    · rcases Table.mem_of_mem_add hg with old' | rfl
      · exact h f old g old' source operation actf actg
      · exact (inactive f old source operation actf).elim
    · rcases Table.mem_of_mem_add hg with old' | rfl
      · exact (inactive g old' source.symm operation.symm actg).elim
      · rfl

end OneActive

namespace QueueSound

variable {settings : Settings} {s t : Store} {vs : List Write} {source operation : String}

theorem empty (h : s.failedEvents.rows = []) : QueueSound settings s where
  sound f hf := by
    rw [Table.mem_def, h] at hf
    cases hf
  single f hf := by
    rw [h] at hf
    cases hf

theorem patch (h : QueueSound settings s) {id : Uuid} {p : FailedPatch}
    (patched : ∀ x ∈ s.failedEvents, x.id = id → (x.patch p).Sound settings ∧
      ((x.patch p).active → x.active)) : QueueSound settings (s.put (.patchFailed id p)) := by
  refine ⟨fun f hf => ?_, h.single.patch (fun x hx same => (patched x hx same).2)⟩
  obtain ⟨x, hx, rfl⟩ := Store.mem_put_patchFailed.mp hf
  by_cases same : x.id = id
  · rw [if_pos same]
    exact (patched x hx same).1
  · rw [if_neg same]
    exact h.sound x hx

theorem recorded (h : QueueSound settings s)
    (recorded : FailureRecorded settings source operation s vs) :
    QueueSound settings (postgres.view s vs) := by
  cases recorded with
  | @refresh existing payload errorText correlationId now active =>
      obtain ⟨member, _, _, act⟩ := mem_activeEntries.mp active
      refine h.patch (fun x hx same => ?_)
      rw [Table.eq_of_key_eq hx member same]
      exact ⟨(h.sound existing member).refreshed act, fun _ => act⟩
  | first empty absent =>
      refine ⟨fun f hf => ?_, (OneActive.add_iff rfl absent).mpr ⟨h.single, empty⟩⟩
      rcases Table.mem_of_mem_add hf with old | rfl
      · exact h.sound f old
      · exact .recorded

/-- A replayed entry is resolved, whatever its status was. -/
theorem resolved (h : QueueSound settings s) {id : Uuid} {attempts : Nat} {now : Time} :
    QueueSound settings ((s.put (.patchFailed id { replayAttempts := some attempts })).put
      (.patchFailed id { status := some .resolved, nextRetryAt := some none
                         resolvedAt := some (some now) })) := by
  have images : ∀ y ∈ ((s.put (.patchFailed id { replayAttempts := some attempts })).put
      (.patchFailed id { status := some .resolved, nextRetryAt := some none
                         resolvedAt := some (some now) })).failedEvents,
      ∃ x ∈ s.failedEvents, y = if x.id = id then
        (x.patch { replayAttempts := some attempts }).patch
          { status := some .resolved, nextRetryAt := some none, resolvedAt := some (some now) }
      else x := by
    intro y hy
    obtain ⟨y', hy', rfl⟩ := Store.mem_put_patchFailed.mp hy
    obtain ⟨x, hx, rfl⟩ := Store.mem_put_patchFailed.mp hy'
    refine ⟨x, hx, ?_⟩
    by_cases same : x.id = id
    · simp only [same, if_true, FailedEvent.patch_id]
    · simp only [same, if_false]
  refine ⟨fun f hf => ?_, h.single.change _ images (fun x hx => ?_)⟩
  · obtain ⟨x, hx, rfl⟩ := images f hf
    by_cases same : x.id = id
    · rw [if_pos same]
      exact ⟨rfl, rfl⟩
    · rw [if_neg same]
      exact h.sound x hx
  · by_cases same : x.id = id
    · rw [if_pos same]
      exact ⟨rfl, rfl, rfl, fun impossible => by cases impossible⟩
    · rw [if_neg same]
      exact ⟨rfl, rfl, rfl, fun active => active⟩

end QueueSound

section Scan

/-- What a scan that has read `now` from the clock does to the queue: it sends the tasks of
entries that are due at `now`, each at most once, and changes no other entry. -/
def Rescheduled (settings : Settings) (now : Time) (σ τ : State Unit) : Prop :=
  ∃ sent : List FailedEvent,
    (∀ f ∈ sent, f ∈ σ.store.failedEvents ∧ f.Due settings now) ∧
      (sent.map FailedEvent.id).Nodup ∧
        τ.world.broker = σ.world.broker ++ sent.map FailedEvent.operation ∧
          ∀ f ∈ σ.store.failedEvents, f ∉ sent → f ∈ τ.store.failedEvents

theorem Rescheduled.refl {settings : Settings} {now : Time} (σ : State Unit) :
    Rescheduled settings now σ σ :=
  ⟨[], fun _ hf => (List.not_mem_nil hf).elim, List.nodup_nil, (List.append_nil _).symm,
    fun _ hf _ => hf⟩

/-- An entry that is not due when the scan reads the clock is left as it is. -/
theorem Rescheduled.of_not_due {settings : Settings} {now : Time} {σ τ : State Unit}
    (h : Rescheduled settings now σ τ) {f : FailedEvent} (hf : f ∈ σ.store.failedEvents)
    (early : ¬ f.Due settings now) : f ∈ τ.store.failedEvents := by
  obtain ⟨sent, due, _, _, kept⟩ := h
  exact kept f hf (fun there => early (due f there).2)

/-- A scan runs alone, and takes `now` from the clock if it gets so far. It may fail, or be
interrupted. -/
def ScansAt (settings : Settings) (now : Time) (σ τ : State Unit) : Prop :=
  ∃ script session, postgres.drive (fun _ _ _ => True) () script
      (⟨retryFailedEvents settings, []⟩, σ) = some (session, τ) ∧
    ∀ t, script.head? = some (.step (.time t)) → t = now

/-- The invariant of a scan from `start`. -/
def Rescheduling (settings : Settings) (now : Time) (start σ : State Unit) : Prop :=
  QueueSound settings σ.store ∧ Rescheduled settings now start σ

/-- The protocol of a scan that has the queue to itself. -/
def scanning (settings : Settings) (now : Time) (start : State Unit) : Protocol postgres Unit :=
  alone (Rescheduling settings now start) (fun _ _ _ => True)

/-- A scan has sent the tasks of `sent`, and `rest` is still to be dispatched. -/
structure Dispatching (settings : Settings) (start : State Unit) (now : Time)
    (sent rest : List FailedEvent) (σ : State Unit) (ws : List Write) : Prop where
  store : σ.store = start.store
  broker : σ.world.broker = start.world.broker ++ sent.map FailedEvent.operation
  due : ∀ f ∈ sent ++ rest, f ∈ start.store.failedEvents ∧ f.Due settings now
  once : ((sent ++ rest).map FailedEvent.id).Nodup
  sound : QueueSound settings (postgres.view σ.store ws)
  kept : ∀ f ∈ start.store.failedEvents, f ∉ sent → f ∈ (postgres.view σ.store ws).failedEvents

variable {settings : Settings} {start σ τ : State Unit} {now : Time} {ws : List Write}
variable {f : FailedEvent} {sent rest : List FailedEvent}

theorem hosts_scanning : Hosts (scanning settings now start) :=
  hosts_alone (fun _ _ inv => inv)

namespace Dispatching

theorem interfere (h : Dispatching settings start now sent rest σ ws)
    (rely : (scanning settings now start).rely ws σ τ) :
    Dispatching settings start now sent rest τ ws := by
  have store := alone_store rely
  have broker : τ.world.broker = σ.world.broker := by rw [(alone_world rely).2]
  exact ⟨store.trans h.store, broker.trans h.broker, h.due, h.once, store ▸ h.sound, store ▸ h.kept⟩

/-- What has been sent is not rescheduled before the commit. -/
theorem rescheduled (h : Dispatching settings start now sent rest σ ws) :
    Rescheduled settings now start σ := by
  refine ⟨sent, fun f hf => h.due f (List.mem_append_left _ hf), ?_, h.broker, ?_⟩
  · have once := h.once
    rw [List.map_append] at once
    exact (List.nodup_append.mp once).1
  · intro f hf _
    rw [h.store]
    exact hf

theorem skip (h : Dispatching settings start now sent (f :: rest) σ ws) :
    Dispatching settings start now sent rest σ ws := by
  have fewer : List.Sublist (sent ++ rest) (sent ++ f :: rest) :=
    (List.sublist_cons_self f rest).append_left sent
  exact ⟨h.store, h.broker, fun g hg => h.due g (fewer.subset hg),
    h.once.sublist (fewer.map FailedEvent.id), h.sound, h.kept⟩

/-- A failed dispatch changes nothing, a successful one counts as sent. -/
theorem send (h : Dispatching settings start now sent (f :: rest) σ ws) :
    Dispatching settings start now (sent ++ [f]) rest (withTask σ f.operation) ws := by
  refine ⟨h.store, ?_, ?_, ?_, h.sound, ?_⟩
  · rw [withTask_broker, h.broker, List.map_append, List.append_assoc]
    rfl
  · rw [List.append_assoc]
    exact h.due
  · rw [List.append_assoc]
    exact h.once
  · exact fun g hg unsent => h.kept g hg (fun there => unsent (List.mem_append_left _ there))

/-- The entry whose task was sent is accounted for. -/
theorem schedule (h : Dispatching settings start now (sent ++ [f]) rest σ ws) {t : Time}
    (there : f ∈ (postgres.view σ.store ws).failedEvents) :
    Dispatching settings start now (sent ++ [f]) rest σ
      (ws ++ [.patchFailed f.id (scheduled settings f t)]) := by
  obtain ⟨member, active, left, _⟩ := h.due f (by simp)
  refine ⟨h.store, h.broker, h.due, h.once, ?_, ?_⟩
  · rw [view_concat]
    refine h.sound.patch (fun x hx same => ?_)
    rw [Table.eq_of_key_eq hx there same]
    exact ⟨.scheduled left, fun _ => active⟩
  · intro g hg unsent
    have other : g.id ≠ f.id := by
      intro same
      rw [Table.eq_of_key_eq hg member same] at unsent
      exact unsent (List.mem_append_right _ (List.mem_singleton_self f))
    rw [view_concat]
    exact Store.mem_put_patchFailed.mpr ⟨g, h.kept g hg unsent, (if_neg other).symm⟩

end Dispatching

theorem wp_retryEntry_rescheduled {dispatched : Nat}
    (h : ∃ sent, Dispatching settings start now sent (f :: rest) σ ws) :
    wp (scanning settings now start) () (retryEntry settings dispatched f)
      (Post.andThen (β := Nat) (fun _ _ _ => True)
        (fun _ σ ws => ∃ sent, Dispatching settings start now sent rest σ ws)) σ ws := by
  obtain ⟨sent, h⟩ := h
  have fresh : f ∉ sent := by
    intro there
    have once := h.once
    rw [List.map_append, List.nodup_append] at once
    exact once.2.2 f.id (List.mem_map_of_mem there) f.id (List.mem_map_of_mem (by simp)) rfl
  unfold retryEntry
  rw [wp_bind]
  refine wp_dispatch (fun τ rely inv _ => ?_)
  have here := h.interfere rely
  have dispatched := here.send
  refine ⟨⟨sent, here.skip⟩, alone_guarantees ⟨inv.1, dispatched.rescheduled⟩, ?_⟩
  rw [Post.andThen_ok]
  change wp _ () (markRetryScheduled settings f >>= fun _ => pure _) _ _ _
  unfold markRetryScheduled
  rw [wp_bind, wp_bind]
  refine wp_utcNow hosts_scanning (fun υ rely' _ t => ?_)
  refine wp_updateFailed hosts_scanning (fun φ rely'' _ => ?_)
  have later := (dispatched.interfere rely').interfere rely''
  refine ⟨sent ++ [f], later.schedule ?_⟩
  have there := here.kept f (h.due f (by simp)).1 fresh
  rw [alone_store rely'', alone_store rely', withTask_store]
  exact there

/-- What a scan does after its first reading of the clock. -/
def scanDue (settings : Settings) (now : Time) : Tx Nat := do
  let due ← Db.selectDue settings.DLQ_MAX_REPLAY_ATTEMPTS now
    (limitOr none settings.DLQ_RETRY_BATCH_SIZE)
  let dispatched ← due.foldlM (retryEntry settings) 0
  Prog.commitWork
  return dispatched

theorem retryFailedEvents_eq (settings : Settings) : retryFailedEvents settings =
    if !settings.DLQ_RETRY_ENABLED then return 0 else Db.utcNow >>= scanDue settings := by
  unfold retryFailedEvents processDueRetries fetchDueRetries scanDue
  simp only [Prog.bind_assoc]

theorem wp_scanDue (sound : QueueSound settings start.store) (same : σ.store = start.store)
    (unsent : σ.world.broker = start.world.broker) :
    wp (scanning settings now start) () (scanDue settings now) (fun _ _ _ => True) σ [] := by
  unfold scanDue
  rw [wp_bind]
  refine wp_selectDue hosts_scanning (fun τ rely _ => ⟨fun _ => trivial, ?_⟩)
  intro locked rows selected
  have store : τ.store = start.store := (alone_store rely).trans same
  have broker : τ.world.broker = start.world.broker := by rw [(alone_world rely).2, ← unsent]
  have entered : Dispatching settings start now [] rows τ
      ([] ++ rows.map (fun f => .lockFailed f.id)) := by
    refine ⟨store, ?_, fun f hf => ?_, selected.nodup, ?_, ?_⟩
    · rw [broker, List.map_nil, List.append_nil]
    · have due := due_of_mem_dueEntries (selected.mem f hf)
      rw [postgres.view_nil, store] at due
      exact due
    · rw [List.nil_append, view_lockFailed, store]
      exact sound
    · intro f hf _
      rw [List.nil_append, view_lockFailed, store]
      exact hf
  rw [Post.andThen_ok, wp_bind]
  refine wp_foldlM (fun _ rest σ ws => ∃ sent, Dispatching settings start now sent rest σ ws)
    ?_ ?_ 0 rows ⟨[], entered⟩
  · intro dispatched f rest φ ws here
    exact wp_mono (wp_retryEntry_rescheduled here) (fun r _ _ post => by cases r <;> exact post)
  · rintro dispatched φ ws ⟨sent, here⟩
    rw [Post.andThen_ok, wp_bind, wp_commitWork]
    intro ψ rely' _
    have last := here.interfere rely'
    have once : (sent.map FailedEvent.id).Nodup := by simpa using last.once
    have rescheduled : Rescheduled settings now start (postgres.publish ψ () ws) :=
      ⟨sent, fun f hf => last.due f (List.mem_append_left _ hf), once, last.broker, last.kept⟩
    exact ⟨fun _ => trivial, alone_guarantees ⟨last.sound, rescheduled⟩, trivial⟩

/-- What a scan leaves, wherever it stops. -/
theorem ScansAt.rescheduling (h : ScansAt settings now σ τ)
    (sound : QueueSound settings σ.store) : Rescheduling settings now σ τ := by
  obtain ⟨script, session, run, reading⟩ := h
  have start : Rescheduling settings now σ σ := ⟨sound, .refl σ⟩
  -- What is left after the first move is verified from the state that it leaves.
  have onwards : ∀ {mid : TxSession Nat} {υ : State Unit} {rest : List (Move Exn Choice)},
      postgres.drive (fun _ _ _ => True) () rest (mid, υ) = some (session, τ) →
      Rescheduling settings now σ υ →
      wp (scanning settings now σ) () mid.prog (fun _ _ _ => True) υ mid.writes →
      Rescheduling settings now σ τ := by
    intro mid υ rest driven here verified
    have solo : postgres.Solo (fun _ _ _ => True) () (mid, υ) (session, τ) :=
      Engine.solo_of_drive driven
    refine (wp_solo (scanning settings now σ) .trivial ?_ ?_ solo).1
    · exact here
    · exact verified
  rw [retryFailedEvents_eq] at run
  split at run
  · exact onwards run start trivial
  · cases script with
    | nil =>
        cases run
        exact start
    | cons m rest =>
        rw [Engine.drive_cons] at run
        obtain ⟨⟨mid, υ⟩, step, rest⟩ := Option.bind_eq_some_iff.mp run
        cases m with
        | step choice =>
            obtain ⟨answer, new, world, read, _, rfl, rfl⟩ := advance_stmt step
            obtain ⟨t, rfl, rfl, rfl⟩ := exec_utcNow read
            obtain rfl := reading t rfl
            have idle := exec_moves rfl read
            refine onwards rest ⟨sound, ?_⟩ (wp_scanDue sound rfl idle.broker)
            exact ⟨[], fun f hf => (List.not_mem_nil hf).elim, List.nodup_nil,
              idle.broker.trans (List.append_nil _).symm, fun f hf _ => hf⟩
        | fail e => cases step
        | crash e =>
            rw [Engine.advance_crash] at step
            cases step
            exact onwards rest start trivial
        | close => cases step

/-- Every run of a scan alone takes some reading from the clock. -/
theorem visits_iff_scansAt : postgres.Visits () (retryFailedEvents settings) σ τ ↔
    ∃ now, ScansAt settings now σ τ := by
  constructor
  · rintro ⟨session, run⟩
    obtain ⟨script, driven⟩ := Engine.drive_of_solo run
    cases first : script.head? with
    | none => exact ⟨0, script, session, driven, fun t head => by simp [first] at head⟩
    | some m =>
        cases m with
        | step choice =>
            cases choice with
            | time t =>
                refine ⟨t, script, session, driven, fun t' head => ?_⟩
                rw [first] at head
                cases head
                rfl
            | _ => exact ⟨0, script, session, driven, fun t head => by simp [first] at head⟩
        | _ => exact ⟨0, script, session, driven, fun t head => by simp [first] at head⟩
  · rintro ⟨now, script, session, driven, _⟩
    exact ⟨session, Engine.solo_of_drive driven⟩

end Scan

/-- One operation of the queue. A scan comes with its reading of the clock. -/
inductive QueueEvent where
  | recordFailure (source operation : String) (payload : Json) (errorText : String)
      (correlationId : Option String)
  | processDueRetries (now : Time)
  | replay (failedEventId : Uuid)

/-- The operation runs alone. It may fail, or be interrupted. -/
def QueueEvent.Runs (settings : Settings) (σ : State Unit) (event : QueueEvent)
    (τ : State Unit) : Prop :=
  match event with
  | .recordFailure source operation payload errorText correlationId =>
      postgres.Visits ()
        (recordFailureStandalone settings source operation payload errorText correlationId) σ τ
  | .processDueRetries now => ScansAt settings now σ τ
  | .replay failedEventId => postgres.Visits () (replayFailedEvent failedEventId) σ τ

section Runs

variable {settings : Settings} {σ τ : State Unit} {event : QueueEvent}

theorem hosts_sound : Hosts (alone (ι := Unit) (fun σ => QueueSound settings σ.store)
    (fun _ _ _ => True)) := hosts_alone (fun _ _ inv => inv)

theorem wp_recordFailureStandalone_sound {source operation errorText : String} {payload : Json}
    {correlationId : Option String} :
    wp (alone (fun σ => QueueSound settings σ.store) (fun _ _ _ => True)) ()
      (recordFailureStandalone settings source operation payload errorText correlationId)
        (fun _ _ _ => True) σ [] := by
  unfold recordFailureStandalone
  rw [wp_bind]
  refine wp_recordFailure hosts_sound (fun _ _ _ _ _ => trivial) (fun τ id vs _ _ given => ?_)
  rw [Post.andThen_ok, wp_commitWork]
  intro υ rely sound
  refine ⟨fun _ => trivial, alone_guarantees ?_, trivial⟩
  rw [← alone_store rely] at given
  exact sound.recorded given.recorded

theorem wp_replayFailedEvent_sound {failedEventId : Uuid} :
    wp (alone (fun σ => QueueSound settings σ.store) (fun _ _ _ => True)) ()
      (replayFailedEvent failedEventId) (fun _ _ _ => True) σ [] := by
  unfold replayFailedEvent getFailed markResolved
  rw [wp_bind]
  refine wp_selectFailed hosts_sound (fun τ _ _ => ⟨fun _ => trivial, ?_⟩)
  rw [Post.andThen_ok]
  cases (postgres.view τ.store []).failedEvents.find failedEventId with
  | none => trivial
  | some failed =>
      dsimp only
      rw [wp_bind]
      refine wp_sendTask (fun υ _ sound _ => ⟨fun _ => trivial, alone_guarantees sound, fun _ => ?_⟩)
      rw [Post.andThen_ok, wp_bind]
      refine wp_updateFailed hosts_sound (fun φ _ _ => ?_)
      rw [Post.andThen_ok, wp_bind, wp_bind]
      refine wp_utcNow hosts_sound (fun ψ _ _ now => ?_)
      rw [Post.andThen_ok]
      refine wp_updateFailed hosts_sound (fun χ _ _ => ?_)
      rw [Post.andThen_ok, wp_bind, wp_commitWork]
      intro ω _ sound'
      exact ⟨fun _ => trivial, alone_guarantees sound'.resolved, trivial⟩

theorem QueueEvent.Runs.sound (taken : event.Runs settings σ τ)
    (sound : QueueSound settings σ.store) :
    QueueSound settings τ.store ∧
      ∀ now, event = .processDueRetries now → Rescheduled settings now σ τ := by
  cases event with
  | recordFailure source operation payload errorText correlationId =>
      have kept := wp_visits (alone (fun σ => QueueSound settings σ.store) (fun _ _ _ => True))
        (fun _ _ _ => trivial) sound wp_recordFailureStandalone_sound taken
      exact ⟨kept, fun now impossible => by cases impossible⟩
  | processDueRetries now =>
      obtain ⟨kept, rescheduled⟩ := ScansAt.rescheduling taken sound
      refine ⟨kept, fun now' same => ?_⟩
      cases same
      exact rescheduled
  | replay failedEventId =>
      have kept := wp_visits (alone (fun σ => QueueSound settings σ.store) (fun _ _ _ => True))
        (fun _ _ _ => trivial) sound wp_replayFailedEvent_sound taken
      exact ⟨kept, fun now impossible => by cases impossible⟩

/-- From an empty queue on, every entry is sound and an operation has at most one active
entry; a scan changes only the entries that are due when it reads the clock and whose task it
has sent. -/
theorem queue_sound {steps : List (Taken (State Unit) QueueEvent)}
    (empty : σ.store.failedEvents.rows = [])
    (run : Trace (fun σ event τ => QueueEvent.Runs settings σ event τ) σ steps τ) :
    QueueSound settings τ.store ∧ ∀ x ∈ steps, ∀ now, x.label = .processDueRetries now →
      Rescheduled settings now x.before x.after := by
  have kept : ∀ {σ event τ}, QueueSound settings σ.store → QueueEvent.Runs settings σ event τ →
      QueueSound settings τ.store := fun sound taken => (QueueEvent.Runs.sound taken sound).1
  refine ⟨run.invariant (.empty empty) kept, ?_⟩
  exact run.forall_taken (.empty empty) kept
    (fun sound taken => (QueueEvent.Runs.sound taken sound).2)

end Runs

section Example

/-- The mail poll fails. -/
def failedPoll : Tx Unit :=
  recordFailureStandalone {} "imap" "src.imap.tasks.sync_imap_messages"
    (.obj [("trigger", .str "resync")]) "timed out" none

/-- The moves of a recording that opens entry `id`. -/
def firstScript (id : Uuid) : List (Move Exn Choice) :=
  [.step (.time 0), .step (.rows []), .step (.draw id 0), .step .none]

/-- The moves of a scan at time `t` that dispatches entry `id`. -/
def scanScript (t : Time) (id : Uuid) : List (Move Exn Choice) :=
  [.step (.time t), .step (.rows [id]), .step (.text "task"), .step (.time t), .step .none,
    .step .none]

/-- The mail poll fails. A scan comes too early, and another one dispatches it again. -/
def dispatchedPoll : Option (State Unit × State Unit × State Unit) := do
  let (_, failed) ← postgres.outcome () (firstScript 1) failedPoll ⟨{}, ∅, []⟩
  let (_, early) ← postgres.drive (fun _ _ _ => True) ()
    [.step (.time 1000000), .step (.rows []), .step .none] (⟨retryFailedEvents {}, []⟩, failed)
  let (_, scanned) ← postgres.drive (fun _ _ _ => True) () (scanScript 10000000000 1)
    (⟨retryFailedEvents {}, []⟩, early)
  return (failed, early, scanned)

/-- A failure is recorded, and its task is sent again by the second scan only. -/
theorem queue_sound_dispatched : ∃ failed early scanned,
    dispatchedPoll = some (failed, early, scanned) ∧ QueueSound {} scanned.store ∧
      Rescheduled {} 1000000 failed early ∧ Rescheduled {} 10000000000 early scanned := by
  have shape : dispatchedPoll.isSome = true := by decide +kernel
  obtain ⟨⟨failed, early, scanned⟩, dispatched⟩ := Option.isSome_iff_exists.mp shape
  refine ⟨failed, early, scanned, dispatched, ?_⟩
  simp only [dispatchedPoll, Option.bind_eq_bind, Option.bind_eq_some_iff, Prod.exists,
    Option.pure_def, Option.some.injEq, Prod.mk.injEq] at dispatched
  obtain ⟨_, failed, recorded, session, early, waited, session', scanned, sent, rfl, rfl, rfl⟩ :=
    dispatched
  have first : QueueEvent.Runs {} ⟨{}, ∅, []⟩ (.recordFailure "imap"
      "src.imap.tasks.sync_imap_messages" (.obj [("trigger", .str "resync")]) "timed out" none)
        failed := (Engine.completes_of_outcome recorded).visits
  have second : QueueEvent.Runs {} failed (.processDueRetries 1000000) early :=
    ⟨_, session, waited, fun t head => by cases head; rfl⟩
  have third : QueueEvent.Runs {} early (.processDueRetries 10000000000) scanned :=
    ⟨_, session', sent, fun t head => by cases head; rfl⟩
  obtain ⟨sound, scans⟩ := queue_sound rfl (.concat (.concat (.concat .nil first) second) third)
  exact ⟨sound, scans ⟨failed, _, early⟩ (by simp) _ rfl,
    scans ⟨early, _, scanned⟩ (by simp) _ rfl⟩

end Example

end OmniSync
