import OmniSync.Database.Verification
import OmniSync.Dlq.Tasks

/-!
# Verification conditions of the dead-letter queue

`FailureRecorded` says what a recorded failure writes: it refreshes the active entry of its
operation, or opens one. A recording that has the store to itself commits exactly that.
-/

namespace OmniSync

open Txn

/-- The writes of a recorded failure: a refreshed active entry, or a new entry where there
is no active one. -/
inductive FailureRecorded (settings : Settings) (source operation : String) (s : Store) :
    List Write → Prop where
  | refresh {existing : FailedEvent} {payload : Json} {errorText : String}
      {correlationId : Option String} {now : Time} :
      existing ∈ s.activeEntries source operation →
        FailureRecorded settings source operation s
          [.patchFailed existing.id
            (refreshed settings existing payload errorText correlationId now)]
  | first {payload : Json} {errorText : String} {correlationId : Option String} {now t : Time}
      {id : Uuid} : s.activeEntries source operation = [] → s.failedEvents.find id = none →
        FailureRecorded settings source operation s
          [.addFailed (recorded settings source operation payload errorText correlationId now id t)]

/-- The writes of a recorded failure that comes with a correlation id, or with none. -/
inductive FailureGiven (settings : Settings) (source operation : String)
    (correlationId : Option String) (s : Store) : List Write → Prop where
  | refresh {existing : FailedEvent} {payload : Json} {errorText : String} {now : Time} :
      existing ∈ s.activeEntries source operation →
        FailureGiven settings source operation correlationId s
          [.patchFailed existing.id
            (refreshed settings existing payload errorText correlationId now)]
  | first {payload : Json} {errorText : String} {now t : Time} {id : Uuid} :
      s.activeEntries source operation = [] → s.failedEvents.find id = none →
        FailureGiven settings source operation correlationId s
          [.addFailed (recorded settings source operation payload errorText correlationId now id t)]

theorem FailureGiven.recorded {settings : Settings} {source operation : String}
    {correlationId : Option String} {s : Store} {ws : List Write}
    (h : FailureGiven settings source operation correlationId s ws) :
    FailureRecorded settings source operation s ws := by
  cases h with
  | refresh active => exact .refresh active
  | first empty absent => exact .first empty absent

theorem mem_activeEntries {s : Store} {source operation : String} {f : FailedEvent} :
    f ∈ s.activeEntries source operation ↔
      f ∈ s.failedEvents ∧ f.source = source ∧ f.operation = operation ∧ f.active := by
  simp only [Store.activeEntries, List.mem_filter, Bool.and_eq_true, decide_eq_true_eq, and_assoc]
  rfl

section Rules

variable {ι : Type} {i : ι} {inv : State ι → Prop} {admits : Stmt → State ι → List Write → Prop}
variable {settings : Settings} {source operation errorText : String} {payload : Json}
variable {correlationId : Option String} {σ τ : State ι} {ws : List Write}

theorem wp_recordFailure (hosts : Hosts (alone inv admits))
    {Q : Post Exn Store Write World ι Uuid}
    (failing : ∀ e τ vs, (alone inv admits).rely ws σ τ → inv τ → Q (.error e) τ vs)
    (h : ∀ τ id vs, (alone inv admits).rely ws σ τ → inv τ →
      FailureGiven settings source operation correlationId (postgres.view τ.store ws) vs →
        Q (.ok id) τ (ws ++ vs)) :
    wp (alone inv admits) i
      (recordFailure settings source operation payload errorText correlationId) Q σ ws := by
  unfold recordFailure
  rw [wp_bind]
  refine wp_utcNow hosts (fun τ rely _ now => ?_)
  rw [Post.andThen_ok, wp_bind]
  refine wp_selectActive hosts (fun υ rely' inv' => ?_)
  have before := (alone inv admits).rely_trans rely rely'
  refine ⟨fun e => failing e υ ws before inv', fun rows selected => ?_⟩
  rw [Post.andThen_ok]
  cases found : rows.head? with
  | some existing =>
      have active := selected.mem existing (List.mem_of_head? found)
      rw [wp_bind]
      refine wp_updateFailed hosts (fun φ rely'' _ => ?_)
      rw [Post.andThen_ok, wp_bind]
      refine wp_flush hosts (fun ψ pending inv'' => ?_)
      have seen : (alone inv admits).rely ws υ ψ :=
        (alone inv admits).rely_trans rely'' (hosts.weaken pending)
      have since := (alone inv admits).rely_trans before seen
      refine ⟨fun e => failing e ψ _ since inv'', ?_⟩
      rw [Post.andThen_ok, wp_pure]
      refine h ψ existing.id _ since inv'' (.refresh ?_)
      rw [alone_store seen]
      exact active
  | none =>
      have empty := (selected.eq_nil_iff (by decide)).mp (List.head?_eq_none_iff.mp found)
      refine wp_insertFailed hosts (fun φ rely'' inv'' => ?_)
      have since := (alone inv admits).rely_trans before rely''
      refine ⟨fun e => failing e φ ws since inv'', fun id t absent => ?_⟩
      refine h φ id _ since inv'' (.first ?_ absent)
      rw [alone_store rely'']
      exact empty

/-- What a recording leaves that has the store to itself. -/
theorem recordFailureStandalone_completes
    (h : postgres.Completes i
      (recordFailureStandalone settings source operation payload errorText correlationId) σ () τ) :
    σ.world.Idle τ.world ∧ ∃ vs, FailureRecorded settings source operation σ.store vs ∧
      τ.store = postgres.view σ.store vs := by
  have hosts : Hosts (alone (ι := ι) (fun _ => True) (fun _ _ _ => True)) :=
    hosts_alone (fun _ _ inv => inv)
  refine (wp_completes (alone (fun _ => True) (fun _ _ _ => True))
    (Q := fun _ τ => σ.world.Idle τ.world ∧
      ∃ vs, FailureRecorded settings source operation σ.store vs ∧
        τ.store = postgres.view σ.store vs) (fun _ _ _ => trivial) ?_ trivial ?_ h).2
  · rintro _ ws υ φ ⟨idle, vs, recorded, store⟩ rely
    exact ⟨idle.trans (alone_world rely), vs, recorded, (alone_store rely).trans store⟩
  · unfold recordFailureStandalone
    rw [wp_bind]
    refine wp_recordFailure hosts (fun _ _ _ _ _ _ impossible => (nomatch impossible)) ?_
    intro υ id vs rely _ given
    have recorded := given.recorded
    rw [Post.andThen_ok, wp_commitWork]
    intro φ rely' _
    refine ⟨fun _ _ impossible => (nomatch impossible), alone_guarantees trivial, fun _ _ => ?_⟩
    have store : φ.store = σ.store := (alone_store rely').trans (alone_store rely)
    have world : σ.world.Idle φ.world := (alone_world rely).trans (alone_world rely')
    refine ⟨world, vs, ?_, ?_⟩
    · rw [alone_store rely] at recorded
      exact recorded
    · rw [Engine.publish_store, store]
      rfl

end Rules

section Statements

variable {ι : Type} {i : ι} {locked : Write → Bool} {σ τ : State ι} {choice : Choice}

/-- What one step of a program does that issues a statement. -/
theorem advance_stmt {α : Type} {s : Stmt} {k : Except Exn (Answer s) → Tx α} {ws : List Write}
    {next : TxSession α} (h : postgres.advance i locked σ ⟨.stmt s k, ws⟩ (.step choice) = some (next, τ)) :
    ∃ answer new world, exec s choice σ.world (postgres.view σ.store ws) locked =
        some (answer, new, world) ∧ (∀ w ∈ new, locked w = false) ∧
          next = ⟨k answer, ws ++ new⟩ ∧ τ = { σ with world := world } := by
  simp only [Engine.advance] at h
  split at h
  · cases h
  · next answer new world run =>
      split at h
      · cases h
      · next free =>
          cases h
          refine ⟨answer, new, world, run, fun w hw => ?_, rfl, rfl⟩
          exact (Bool.not_eq_true _).mp (fun held => free (List.any_eq_true.mpr ⟨w, hw, held⟩))

/-- A reading of the clock. -/
theorem exec_utcNow {world world' : World} {view : Store} {answer : Except Exn Time}
    {new : List Write} (h : exec .utcNow choice world view locked = some (answer, new, world')) :
    ∃ t, choice = .time t ∧ answer = .ok t ∧ new = [] := by
  cases choice with
  | time t =>
      simp only [exec] at h
      split at h
      · cases h
        exact ⟨t, rfl, rfl, rfl⟩
      · cases h
  | _ => cases h

end Statements

section Retrier

variable {σ : State Unit} {ws : List Write} {f : FailedEvent}

theorem wp_dispatch {P : Protocol postgres Unit} {Q : Post Exn Store Write World Unit Bool}
    (h : ∀ τ, P.rely ws σ τ → P.inv τ → P.admits (.sendTask f.operation) τ ws →
      Q (.ok false) τ ws ∧ P.Guarantees () ws τ (withTask τ f.operation) ∧
        Q (.ok true) (withTask τ f.operation) ws) :
    wp P () (dispatch f) Q σ ws := by
  unfold dispatch
  rw [wp_tryCatch, wp_bind]
  refine wp_sendTask (fun τ rely inv admitted => ?_)
  obtain ⟨failed, guarantee, sent⟩ := h τ rely inv admitted
  exact ⟨fun _ => failed, guarantee, fun _ => sent⟩

/-- Row locks change nothing that a session sees. -/
theorem view_lockFailed (s : Store) (rows : List FailedEvent) :
    postgres.view s (rows.map (fun f => .lockFailed f.id)) = s := by
  induction rows with
  | nil => rfl
  | cons f rows ih => exact ih

end Retrier

end OmniSync
