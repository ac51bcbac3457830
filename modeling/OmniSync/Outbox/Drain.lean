import OmniSync.Data.Drain
import OmniSync.Outbox.Publication

/-!
# The outbox empties

A pass attempts the oldest pending rows, and rows that fail stay the oldest. But each attempt
leaves its row one attempt less, `Tried`, so the passes are passes in the sense of `Drain`,
where a job is a row and its budget is the number of attempts that are left.
-/

namespace OmniSync

open Txn

section Attempts

variable {settings : Settings}

/-- After an attempt, a row is pending only with one attempt more, and if that was not the
last one. -/
structure Tried (settings : Settings) (o o' : OutboxEvent) : Prop where
  id : o'.id = o.id
  counted : o'.status = .pending →
    o'.attempts = o.attempts + 1 ∧ o'.attempts < settings.OUTBOX_MAX_ATTEMPTS

theorem tried_publishedPatch (o : OutboxEvent) (now : Time) :
    Tried settings o (o.patch (publishedPatch o now)) := ⟨rfl, nofun⟩

theorem tried_failedPatch (o : OutboxEvent) (error : String) :
    Tried settings o (o.patch (failedPatch settings o error)) := by
  refine ⟨rfl, fun pending => ⟨rfl, ?_⟩⟩
  by_contra last
  have reached : settings.OUTBOX_MAX_ATTEMPTS ≤ o.attempts + 1 := Nat.not_lt.mp last
  have dead : (o.patch (failedPatch settings o error)).status = .dead := by
    simp [OutboxEvent.patch, failedPatch, reached]
  rw [dead] at pending
  cases pending

/-- A pass has picked some rows of the store `s`, has the rows `rest` of them still to attempt
and sees `view`. -/
structure Attempting (settings : Settings) (picked : List OutboxEvent) (s view : Store)
    (rest : List OutboxEvent) : Prop where
  origin : ∀ o' ∈ view.outboxEvents, ∃ o ∈ s.outboxEvents, o.id = o'.id
  kept : ∀ o ∈ s.outboxEvents, o ∈ rest ∨ o ∉ picked → o ∈ view.outboxEvents
  tried : ∀ o ∈ picked, o ∉ rest → ∃ o' ∈ view.outboxEvents, Tried settings o o'
  chosen : ∀ o ∈ rest, o ∈ picked
  once : (rest.map OutboxEvent.id).Nodup
  picked : ∀ o ∈ picked, o ∈ s.outboxEvents

namespace Attempting

variable {picked rest : List OutboxEvent} {s view : Store} {o : OutboxEvent} {p : OutboxPatch}

theorem patch (h : Attempting settings picked s view (o :: rest))
    (tried : Tried settings o (o.patch p)) :
    Attempting settings picked s (view.put (.patchOutbox o.id p)) rest := by
  obtain ⟨new, once⟩ := List.nodup_cons.mp h.once
  have own : o ∈ s.outboxEvents := h.picked o (h.chosen o List.mem_cons_self)
  have keep : ∀ x ∈ view.outboxEvents, x.id ≠ o.id →
      x ∈ (view.put (.patchOutbox o.id p)).outboxEvents := fun x hx other =>
    Store.mem_put_patchOutbox.mpr ⟨x, hx, (if_neg other).symm⟩
  refine ⟨?_, ?_, ?_, fun x hx => h.chosen x (List.mem_cons_of_mem _ hx), once, h.picked⟩
  · intro o' ho'
    obtain ⟨x, hx, rfl⟩ := Store.mem_put_patchOutbox.mp ho'
    obtain ⟨y, hy, same⟩ := h.origin x hx
    refine ⟨y, hy, same.trans ?_⟩
    split <;> rfl
  · intro x hx place
    refine keep x (h.kept x hx (place.imp (List.mem_cons_of_mem _) id)) (fun same => ?_)
    have equal : x = o := Table.eq_of_key_eq hx own same
    subst equal
    rcases place with later | other
    · exact new (List.mem_map_of_mem later)
    · exact other (h.chosen x List.mem_cons_self)
  · intro x hx done
    by_cases same : x = o
    · subst same
      have here := h.kept x own (.inl List.mem_cons_self)
      exact ⟨_, Store.mem_put_patchOutbox.mpr ⟨x, here, (if_pos rfl).symm⟩, tried⟩
    · obtain ⟨o', ho', before⟩ := h.tried x hx (by simp [same, done])
      refine ⟨o', keep o' ho' (fun equal => same ?_), before⟩
      exact Table.eq_of_key_eq (h.picked x hx) own (before.id.symm.trans equal)

end Attempting

variable {picked rest : List OutboxEvent} {s : Store} {σ : State Unit} {ws : List Write}

/-- Once its rows are selected, a pass attempts each of them and commits. -/
theorem wp_attempts (attempting : Attempting settings picked s (postgres.view σ.store ws) rest)
    (published : Nat) :
    wp reading () (rest.foldlM (publishRow settings) published >>= fun published =>
        Prog.commitWork >>= fun _ => pure published)
      (fun r τ _ => ∀ n, r = .ok n → Attempting settings picked s τ.store []) σ ws := by
  rw [wp_bind]
  refine wp_foldlM (fun _ rest σ ws =>
    Attempting settings picked s (postgres.view σ.store ws) rest) ?_ ?_ published rest attempting
  · intro published o rest φ ws attempting
    refine wp_publishRow hosts_reading ?_ ?_
    · intro τ error rely _
      rw [Post.andThen_ok, view_concat, alone_store rely]
      exact attempting.patch (tried_failedPatch o error)
    · intro τ rely _ _
      refine ⟨alone_guarantees trivial, fun υ now rely' _ => ?_⟩
      rw [Post.andThen_ok, view_concat, alone_store rely', withPoint_store, alone_store rely]
      exact attempting.patch (tried_publishedPatch o now)
  · intro published φ ws attempting
    rw [Post.andThen_ok, wp_bind, wp_commitWork]
    intro τ rely _
    refine ⟨fun _ => nofun, alone_guarantees trivial, fun _ _ => ?_⟩
    rw [Engine.publish_store, alone_store rely]
    exact attempting

/-- A pass that commits has attempted a batch of the oldest pending rows. -/
theorem publishOutbox_attempts {n : Nat} {τ : State Unit}
    (h : postgres.Completes () (publishOutbox settings) σ n τ) :
    ∃ picked, Selects OutboxEvent.id (fun a b => a.createdAt ≤ b.createdAt)
        settings.OUTBOX_BATCH_SIZE (σ.store.unlockedPending (fun _ => false)) picked ∧
      Attempting settings picked σ.store τ.store [] := by
  obtain ⟨choice, picked, locks, world, ws, run, rest⟩ := Engine.Completes.of_issue h
  obtain ⟨_, ⟨⟩, rfl, rfl, selected⟩ := exec_selectPending run
  refine ⟨picked, selected, ?_⟩
  have attempting : Attempting settings picked σ.store
      (postgres.view σ.store (picked.map (fun o => .lockOutbox o.id))) picked := by
    rw [view_lockOutbox]
    refine ⟨fun o' ho' => ⟨o', ho', rfl⟩, fun o ho _ => ho, fun o ho new => (new ho).elim,
      fun o ho => ho, selected.nodup, fun o ho => ?_⟩
    exact (List.mem_filter.mp (selected.mem o ho)).1
  have final : reading.Final (fun (r : Except Exn Nat) (τ : State Unit) (_ : List Write) =>
      ∀ n, r = .ok n → Attempting settings picked σ.store τ.store []) :=
    ⟨fun post rely _ n value => alone_store rely ▸ post n value, fun post => post,
      fun _ _ value => nomatch value⟩
  exact (wp_solo reading final trivial (wp_attempts attempting 0) rest).2 n rfl

end Attempts

section Budget

variable (settings : Settings)

/-- The attempts that are left for a row. -/
def attemptsLeft (s : Store) (id : Uuid) : Nat :=
  match s.outboxEvents.find id with
  | some o => if o.status = .pending then settings.OUTBOX_MAX_ATTEMPTS - o.attempts else 0
  | none => 0

def pendingRows (s : Store) : List OutboxEvent :=
  s.outboxEvents.rows.filter (fun o => decide (o.status = .pending))

/-- Every pending row has attempts left. -/
def Retryable (s : Store) : Prop :=
  ∀ o ∈ pendingRows s, o.attempts < settings.OUTBOX_MAX_ATTEMPTS

def outboxIds (s : Store) : Finset Uuid := (s.outboxEvents.rows.map OutboxEvent.id).toFinset

variable {settings} {s t : Store}

theorem mem_pendingRows {o : OutboxEvent} :
    o ∈ pendingRows s ↔ o ∈ s.outboxEvents ∧ o.status = .pending := by
  rw [pendingRows, List.mem_filter, decide_eq_true_eq]
  rfl

theorem mem_outboxIds {id : Uuid} : id ∈ outboxIds s ↔ ∃ o ∈ s.outboxEvents, o.id = id := by
  rw [outboxIds, List.mem_toFinset, List.mem_map]
  rfl

theorem attemptsLeft_of_pending {o : OutboxEvent} (ho : o ∈ pendingRows s) :
    attemptsLeft settings s o.id = settings.OUTBOX_MAX_ATTEMPTS - o.attempts := by
  obtain ⟨known, pending⟩ := mem_pendingRows.mp ho
  rw [attemptsLeft, Table.find_eq_some_iff.mpr ⟨known, rfl⟩]
  exact if_pos pending

/-- Only pending rows have attempts left. -/
theorem exists_of_attemptsLeft {id : Uuid} (left : 0 < attemptsLeft settings s id) :
    ∃ o ∈ pendingRows s, o.id = id := by
  unfold attemptsLeft at left
  split at left
  · rename_i o found
    obtain ⟨known, same⟩ := Table.find_eq_some_iff.mp found
    split at left
    · rename_i pending
      exact ⟨o, mem_pendingRows.mpr ⟨known, pending⟩, same⟩
    · exact (Nat.lt_irrefl 0 left).elim
  · exact (Nat.lt_irrefl 0 left).elim

theorem attemptsLeft_le (id : Uuid) : attemptsLeft settings s id ≤ settings.OUTBOX_MAX_ATTEMPTS := by
  unfold attemptsLeft
  split
  · split
    · exact Nat.sub_le _ _
    · exact Nat.zero_le _
  · exact Nat.zero_le _

variable {jobs : Finset Uuid}

/-- The rows that wait are the pending ones. -/
theorem waiting_eq (retryable : Retryable settings s) (known : outboxIds s ⊆ jobs) :
    Drain.waiting jobs (attemptsLeft settings s) =
      ((pendingRows s).map OutboxEvent.id).toFinset := by
  ext id
  rw [Drain.waiting, Finset.mem_filter, List.mem_toFinset, List.mem_map]
  constructor
  · rintro ⟨_, left⟩
    exact exists_of_attemptsLeft left
  · rintro ⟨o, ho, rfl⟩
    refine ⟨known (mem_outboxIds.mpr ⟨o, (mem_pendingRows.mp ho).1, rfl⟩), ?_⟩
    rw [attemptsLeft_of_pending ho]
    exact Nat.sub_pos_of_lt (retryable o ho)

theorem card_waiting (retryable : Retryable settings s) (known : outboxIds s ⊆ jobs) :
    (Drain.waiting jobs (attemptsLeft settings s)).card = (pendingRows s).length := by
  rw [waiting_eq retryable known, List.toFinset_card_of_nodup, List.length_map]
  exact s.outboxEvents.unique.sublist (List.filter_sublist.map _)

/-- What is left of a row after a pass. -/
theorem Attempting.pending {picked : List OutboxEvent}
    (h : Attempting settings picked s t []) {o' : OutboxEvent} (ho' : o' ∈ pendingRows t) :
    (o' ∈ pendingRows s ∧ o' ∉ picked) ∨ ∃ o ∈ picked, o.id = o'.id ∧
      o'.attempts = o.attempts + 1 ∧ o'.attempts < settings.OUTBOX_MAX_ATTEMPTS := by
  obtain ⟨here, pending⟩ := mem_pendingRows.mp ho'
  obtain ⟨o, own, same⟩ := h.origin o' here
  by_cases chosen : o ∈ picked
  · obtain ⟨o'', there, tried⟩ := h.tried o chosen List.not_mem_nil
    cases Table.eq_of_key_eq there here (tried.id.trans same)
    exact .inr ⟨o, chosen, same, tried.counted pending⟩
  · cases Table.eq_of_key_eq (h.kept o own (.inr chosen)) here same
    exact .inl ⟨mem_pendingRows.mpr ⟨own, pending⟩, chosen⟩

theorem Attempting.retryable {picked : List OutboxEvent} (h : Attempting settings picked s t [])
    (retryable : Retryable settings s) : Retryable settings t := by
  intro o' ho'
  rcases h.pending ho' with ⟨old, _⟩ | ⟨_, _, _, _, left⟩
  · exact retryable o' old
  · exact left

theorem Attempting.outboxIds_subset {picked : List OutboxEvent}
    (h : Attempting settings picked s t []) : outboxIds t ⊆ outboxIds s := by
  intro id hid
  obtain ⟨o', ho', rfl⟩ := mem_outboxIds.mp hid
  exact mem_outboxIds.mpr (h.origin o' ho')

/-- A pass over the outbox takes an attempt from each of the rows that it picks. -/
theorem Attempting.pass {picked : List OutboxEvent} (h : Attempting settings picked s t [])
    (selected : Selects OutboxEvent.id (fun a b => a.createdAt ≤ b.createdAt)
      settings.OUTBOX_BATCH_SIZE (s.unlockedPending (fun _ => false)) picked)
    (retryable : Retryable settings s) (known : outboxIds s ⊆ jobs) :
    Drain.Pass jobs settings.OUTBOX_BATCH_SIZE (attemptsLeft settings s)
      (attemptsLeft settings t) := by
  have rows : s.unlockedPending (fun _ => false) = pendingRows s := by
    simp [Store.unlockedPending, pendingRows]
  rw [rows] at selected
  have less : ∀ o ∈ picked, attemptsLeft settings t o.id < attemptsLeft settings s o.id := by
    intro o ho
    have own := selected.mem o ho
    have left := retryable o own
    rw [attemptsLeft_of_pending own]
    by_cases none : attemptsLeft settings t o.id = 0
    · omega
    · obtain ⟨o', ho', same⟩ := exists_of_attemptsLeft (Nat.pos_of_ne_zero none)
      rw [← same, attemptsLeft_of_pending ho']
      rcases h.pending ho' with ⟨old, new⟩ | ⟨x, hx, same', counted, _⟩
      · have equal : o' = o :=
          Table.eq_of_key_eq (mem_pendingRows.mp old).1 (mem_pendingRows.mp own).1 same
        exact (new (equal ▸ ho)).elim
      · have equal : x = o := Table.eq_of_key_eq (h.picked x hx) (h.picked o ho) (same'.trans same)
        subst equal
        omega
  refine ⟨fun id _ => ?_, ?_⟩
  · by_cases none : attemptsLeft settings t id = 0
    · exact none ▸ Nat.zero_le _
    · obtain ⟨o', ho', rfl⟩ := exists_of_attemptsLeft (Nat.pos_of_ne_zero none)
      rcases h.pending ho' with ⟨old, _⟩ | ⟨o, ho, same, _⟩
      · rw [attemptsLeft_of_pending ho', attemptsLeft_of_pending old]
      · exact same ▸ (less o ho).le
  · rw [card_waiting retryable known, ← selected.length, ← List.length_map OutboxEvent.id,
      ← List.toFinset_card_of_nodup selected.nodup]
    refine Finset.card_le_card (fun id hid => ?_)
    obtain ⟨o, ho, rfl⟩ := List.mem_map.mp (List.mem_toFinset.mp hid)
    refine Finset.mem_filter.mpr ⟨known (mem_outboxIds.mpr ⟨o, h.picked o ho, rfl⟩), less o ho⟩

end Budget

/-- `k` passes, one after the other, each of them committed. Whatever else happens in between
leaves the outbox alone. -/
inductive PublishPasses (settings : Settings) (start : State Unit) : Nat → State Unit → Prop where
  | start : PublishPasses settings start 0 start
  | other {k : Nat} {σ τ : State Unit} : PublishPasses settings start k σ →
      τ.store.outboxEvents = σ.store.outboxEvents → PublishPasses settings start k τ
  | pass {k n : Nat} {σ τ : State Unit} : PublishPasses settings start k σ →
      postgres.Completes () (publishOutbox settings) σ n τ →
        PublishPasses settings start (k + 1) τ

namespace PublishPasses

variable {settings : Settings} {start τ : State Unit} {k : Nat}

/-- The passes over the outbox are passes over the attempts that are left. -/
theorem passesThrough (retryable : Retryable settings start.store)
    (run : PublishPasses settings start k τ) :
    Retryable settings τ.store ∧ outboxIds τ.store ⊆ outboxIds start.store ∧
      Drain.PassesThrough (outboxIds start.store) settings.OUTBOX_BATCH_SIZE
        (attemptsLeft settings start.store) k (attemptsLeft settings τ.store) := by
  induction run with
  | start => exact ⟨retryable, subset_rfl, .start⟩
  | @other k σ τ _ same ih =>
      have left : attemptsLeft settings τ.store = attemptsLeft settings σ.store := by
        funext id
        rw [attemptsLeft, attemptsLeft, same]
      rw [Retryable, pendingRows, outboxIds, left, same]
      exact ih
  | pass _ pass ih =>
      obtain ⟨retryable', known, passes⟩ := ih
      obtain ⟨picked, selected, attempted⟩ := publishOutbox_attempts pass
      exact ⟨attempted.retryable retryable', attempted.outboxIds_subset.trans known,
        passes.pass (attempted.pass selected retryable' known)⟩

end PublishPasses

/-- However the deliveries turn out, no row is pending after enough passes. -/
theorem outbox_drained {settings : Settings} {start τ : State Unit} {k : Nat}
    (positive : 1 ≤ settings.OUTBOX_BATCH_SIZE)
    (retryable : ∀ o ∈ pendingRows start.store, o.attempts < settings.OUTBOX_MAX_ATTEMPTS)
    (run : PublishPasses settings start k τ)
    (enough : (pendingRows start.store).length * settings.OUTBOX_MAX_ATTEMPTS /
        settings.OUTBOX_BATCH_SIZE + settings.OUTBOX_MAX_ATTEMPTS ≤ k) :
    pendingRows τ.store = [] := by
  obtain ⟨retryable', known, passes⟩ := run.passesThrough retryable
  rw [← card_waiting retryable subset_rfl] at enough
  have drained := passes.eq_zero positive (fun id _ => attemptsLeft_le id) enough
  rw [List.eq_nil_iff_forall_not_mem]
  intro o ho
  have none := drained o.id (known (mem_outboxIds.mpr ⟨o, (mem_pendingRows.mp ho).1, rfl⟩))
  rw [attemptsLeft_of_pending ho] at none
  have left := retryable' o ho
  omega

/-- A row that waits for its first attempt. -/
def queuedRow (id : Uuid) : OutboxEvent :=
  { id := id
    aggregateType := "normalized_event"
    aggregateId := id
    eventType := "commit"
    payload := ⟨id, "github", "abc1234", "commit", "Fix login", 1, 1⟩
    createdAt := 0 }

/-- Rows of one attempt that are published one by one. -/
def singleAttempts : Settings := { OUTBOX_BATCH_SIZE := 1, OUTBOX_MAX_ATTEMPTS := 1 }

def queuedTwo : State Unit := ⟨{}, { outboxEvents := ⟨[queuedRow 12, queuedRow 22], by decide⟩ }, []⟩

/-- The delivery of the first row fails. The second one is delivered by the second pass. -/
def drainRun : Option (State Unit) := do
  let (_, failed) ← postgres.outcome () (deliverScript [12] [false])
    (publishOutbox singleAttempts) queuedTwo
  let (_, published) ← postgres.outcome () (deliverScript [22] [true])
    (publishOutbox singleAttempts) failed
  let (_, idle) ← postgres.outcome () (deliverScript [] []) (publishOutbox singleAttempts) published
  return idle

theorem publishPasses_of_drainRun {τ : State Unit} (h : drainRun = some τ) :
    PublishPasses singleAttempts queuedTwo 3 τ := by
  simp only [drainRun, Option.bind_eq_bind, Option.bind_eq_some_iff, Prod.exists,
    Option.pure_def, Option.some.injEq] at h
  obtain ⟨_, _, fail, _, _, publish, _, _, idle, rfl⟩ := h
  exact ((PublishPasses.start.pass (Engine.completes_of_outcome fail)).pass
    (Engine.completes_of_outcome publish)).pass (Engine.completes_of_outcome idle)

/-- The row that fails does not block the one behind it. -/
theorem outbox_drained_two : ∃ τ, drainRun = some τ ∧
    (τ.store.outboxEvents.rows.map OutboxEvent.status) = [.dead, .published] ∧
      pendingRows τ.store = [] := by
  have shape : drainRun.map (fun τ => τ.store.outboxEvents.rows.map OutboxEvent.status) =
      some [.dead, .published] := by decide +kernel
  obtain ⟨τ, run, statuses⟩ := Option.map_eq_some_iff.mp shape
  exact ⟨τ, run, statuses, outbox_drained (by decide) (by decide)
    (publishPasses_of_drainRun run) (by decide)⟩

end OmniSync
