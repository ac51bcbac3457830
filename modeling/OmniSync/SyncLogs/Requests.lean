import OmniSync.Database.Pending
import OmniSync.Database.Verification
import OmniSync.Outbox.Service
import OmniSync.SyncLogs.Service
import OmniSync.Webhooks.Service

/-!
# Logged requests

A request has one session, which its handler commits once. What the handler writes after
that is pending when the request is over, and the session is closed.
-/

namespace OmniSync

open Txn

/-- What a handler does when it fails. -/
def failRequest {β : Type} (logId : Uuid) (e : Exn) : Tx β := do
  Prog.rollbackWork
  updateSyncLogStatus false logId .failed (some e.message)
  throw e

/-- What the handler of a webhook does when it fails. -/
def failWebhook {β : Type} (delivery : Option (String × String)) (logId : Uuid) (e : Exn) :
    Tx β := do
  Prog.rollbackWork
  updateSyncLogStatus false logId .failed (some e.message)
  settleDelivery delivery .failed (some (slice e.message 500))
  throw e

/-- A request: what it sets up after it has opened its entry of the log, its work up to the
commit, and its answer. -/
structure LoggedRequest (α β : Type) where
  operation : String
  delivery : Option (String × String) := none
  setup : Except Exn Unit := .ok ()
  body : String → Tx α
  result : α → β

namespace LoggedRequest

variable {α β : Type} (R : LoggedRequest α β)

/-- What a request does after its commit. -/
def finish (logId : Uuid) (a : α) : Tx β := do
  updateSyncLogStatus false logId .completed none
  settleDelivery R.delivery .completed none
  return R.result a

/-- A request that has been opened. -/
def opened (correlationId : String) (logId : Uuid) : Tx β :=
  Prog.tryCatch
    (do
      let a ← R.body correlationId
      Prog.commitWork
      R.finish logId a)
    (failWebhook R.delivery logId)

def prog : Tx β := do
  let correlationId ← Db.generateCorrelationId
  let logId ← createSyncLog false correlationId R.operation
  Prog.ofAnswer R.setup
  R.opened correlationId logId

/-- A webhook request: the one of a delivery that is not known yet. -/
def received {α : Type} (R : LoggedRequest α WebhookResponse) : Tx WebhookResponse := do
  if ← claimDelivery R.delivery then
    return .duplicate
  else
    R.prog

end LoggedRequest

section Rules

variable {ι α β : Type} {P : Protocol postgres ι} {i : ι} {σ : State ι} {ws : List Write}

/-- An update of the log in the session of a request. -/
theorem wp_updateSyncLogStatus_request (hosts : Hosts P) {logId : Uuid} {status : RunStatus}
    {errorText : Option String} {Q : Post Exn Store Write World ι Unit}
    (failing : ∀ e τ vs, P.rely ws σ τ → P.inv τ → Q (.error e) τ vs)
    (h : ∀ τ vs, P.rely ws σ τ → P.inv τ → Q (.ok ()) τ (ws ++ vs)) :
    wp P i (updateSyncLogStatus false logId status errorText) Q σ ws := by
  unfold updateSyncLogStatus
  rw [wp_bind]
  refine wp_updateSyncLog hosts (fun τ rely inv => ⟨fun e => failing e τ ws rely inv, ?_⟩)
  rw [Post.andThen_ok, if_neg Bool.false_ne_true]
  refine wp_flush hosts (fun υ rely' inv' => ?_)
  have since := P.rely_trans rely (hosts.weaken rely')
  exact ⟨fun e => failing e υ _ since inv', h υ _ since inv'⟩

theorem wp_settleDelivery (hosts : Hosts P) {delivery : Option (String × String)}
    {status : DeliveryStatus} {errorText : Option String} {Q : Post Exn Store Write World ι Unit}
    (inv : P.inv σ) (failing : ∀ e τ, P.rely ws σ τ → P.inv τ → Q (.error e) τ ws)
    (h : ∀ τ vs, P.rely ws σ τ → P.inv τ → Q (.ok ()) τ (ws ++ vs)) :
    wp P i (settleDelivery delivery status errorText) Q σ ws := by
  cases delivery with
  | none =>
      have same := h σ [] (P.rely_refl ws σ) inv
      rw [List.append_nil] at same
      exact same
  | some key =>
      refine wp_updateDelivery hosts (fun τ rely inv => ⟨fun e => failing e τ rely inv, ?_⟩)
      exact h τ _ rely inv

/-- A handler that fails does not return. -/
theorem wp_failWebhook (hosts : Hosts P) {delivery : Option (String × String)} {logId : Uuid}
    {e : Exn} {Q : Post Exn Store Write World ι β}
    (failing : ∀ e τ vs, P.inv τ → Q (.error e) τ vs) :
    wp P i (failWebhook delivery logId e) Q σ ws := by
  unfold failWebhook
  rw [wp_bind, wp_rollbackWork]
  intro τ _ _
  rw [Post.andThen_ok, wp_bind]
  refine wp_updateSyncLogStatus_request hosts (fun e υ vs _ inv => failing e υ vs inv)
    (fun υ vs _ inv => ?_)
  rw [Post.andThen_ok, wp_bind]
  refine wp_settleDelivery hosts inv (fun e φ _ inv => failing e φ _ inv) (fun φ us _ inv => ?_)
  rw [Post.andThen_ok, wp_throw]
  exact failing e φ _ inv

namespace LoggedRequest

variable {R : LoggedRequest α β} {Q : Except Exn β → State ι → Prop}

/-- What is found after the commit of a request. -/
theorem wp_finish (hosts : Hosts P) (stable : ∀ {r σ τ ws}, Q r σ → P.rely ws σ τ → Q r τ)
    (failing : ∀ e τ, P.inv τ → Q (.error e) τ) {logId : Uuid} {a : α}
    (done : Q (.ok (R.result a)) σ) :
    wp P i (R.finish logId a)
      (Post.handling (fun r τ _ => Q r τ) (fun e => wp P i (failWebhook R.delivery logId e)
        (fun r τ _ => Q r τ))) σ ws := by
  have caught : ∀ e (τ : State ι) vs, wp P i (failWebhook (β := β) R.delivery logId e)
      (fun r τ _ => Q r τ) τ vs := fun e τ vs =>
    wp_failWebhook hosts (fun e υ _ inv => failing e υ inv)
  unfold finish
  rw [wp_bind]
  refine wp_updateSyncLogStatus_request hosts (fun e τ vs _ _ => caught e τ vs)
    (fun τ vs rely inv => ?_)
  rw [Post.andThen_ok, wp_bind]
  refine wp_settleDelivery hosts inv (fun e υ _ _ => caught e υ _) (fun υ us rely' _ => ?_)
  rw [Post.andThen_ok, wp_pure]
  exact stable (stable done rely) rely'

/-- What a request leaves, given what its work leaves up to the commit. -/
theorem wp_prog (hosts : Hosts P) (stable : ∀ {r σ τ ws}, Q r σ → P.rely ws σ τ → Q r τ)
    (failing : ∀ e τ, P.inv τ → Q (.error e) τ)
    (body : ∀ cid id t τ, P.rely ws σ τ → P.inv τ →
      (postgres.view τ.store ws).syncLogs.find id = none →
        wp P i (R.body cid) (fun r υ vs => ∀ a, r = .ok a → ∀ φ, P.rely vs υ φ → P.inv φ →
          P.Guarantees i vs φ (postgres.publish φ i vs) ∧
            Q (.ok (R.result a)) (postgres.publish φ i vs)) τ
          (ws ++ [.addSyncLog ⟨id, cid, R.operation, .started, none, t⟩])) :
    wp P i R.prog (fun r τ _ => Q r τ) σ ws := by
  unfold prog
  rw [wp_bind]
  refine wp_generateCorrelationId hosts (fun τ rely _ cid => ?_)
  rw [Post.andThen_ok, wp_bind]
  unfold createSyncLog
  rw [wp_bind]
  refine wp_insertSyncLog hosts (fun υ rely' inv => ⟨fun e => failing e υ inv, fun id t free => ?_⟩)
  have since := P.rely_trans rely rely'
  change wp P i (Prog.ofAnswer R.setup >>= fun _ => R.opened cid id) _ υ _
  rw [wp_bind, wp_ofAnswer]
  cases R.setup with
  | error e => exact failing e υ inv
  | ok _ =>
      rw [Post.andThen_ok]
      unfold opened
      rw [wp_tryCatch, wp_bind]
      refine wp_mono (body cid id t υ since inv free) (fun r φ vs post => ?_)
      have caught : ∀ e (τ : State ι) vs, wp P i (failWebhook (β := β) R.delivery id e)
          (fun r τ _ => Q r τ) τ vs := fun e τ vs =>
        wp_failWebhook hosts (fun e υ _ inv => failing e υ inv)
      cases r with
      | error e => exact caught e φ vs
      | ok a =>
          rw [Post.andThen_ok, wp_bind, wp_commitWork]
          intro ψ rely'' inv'
          obtain ⟨guarantee, done⟩ := post a rfl ψ rely'' inv'
          refine ⟨fun e => caught e ψ [], guarantee, ?_⟩
          rw [Post.andThen_ok]
          exact wp_finish (Q := Q) hosts stable failing done

/-- What the session of a webhook request has pending when its work begins. -/
def Claimed (delivery : Option (String × String)) (τ : State ι) (ws : List Write) : Prop :=
  match delivery with
  | none => ws = []
  | some key => τ.store.webhookDeliveries.find key = none ∧
      ∃ row, ws = [.addDelivery row] ∧ row.key = key ∧ row.status = .processing

/-- It is a row for the delivery, and one for the log. -/
theorem Claimed.table {delivery : Option (String × String)} {row : SyncLog}
    (h : Claimed delivery σ ws) :
    ∀ w ∈ ws ++ [.addSyncLog row], w.table = .webhookDeliveries ∨ w.table = .syncLogs := by
  intro w hw
  rcases List.mem_append.mp hw with old | new
  · unfold Claimed at h
    split at h
    · rw [h] at old
      exact (List.not_mem_nil old).elim
    · obtain ⟨_, delivery, rfl, _⟩ := h
      rw [List.mem_singleton.mp old]
      exact .inl rfl
  · rw [List.mem_singleton.mp new]
    exact .inr rfl

theorem Claimed.aside {delivery : Option (String × String)} {row : SyncLog}
    (h : Claimed delivery σ ws) : ∀ w ∈ ws ++ [.addSyncLog row], w.Aside := by
  intro w hw
  rcases h.table w hw with table | table <;> simp [Write.Aside, table]

/-- What a webhook request leaves, given what its work leaves up to the commit. -/
theorem wp_received {R : LoggedRequest α WebhookResponse}
    {Q : Except Exn WebhookResponse → State ι → Prop} (hosts : Hosts P)
    (stable : ∀ {r σ τ ws}, Q r σ → P.rely ws σ τ → Q r τ)
    (failing : ∀ e τ, P.inv τ → Q (.error e) τ)
    (known : ∀ key τ, R.delivery = some key → P.rely [] σ τ →
      τ.store.webhookDeliveries.find key ≠ none → Q (.ok .duplicate) τ)
    (body : ∀ υ ws, P.rely [] σ υ → Claimed R.delivery υ ws → ∀ cid id t τ, P.rely ws υ τ → P.inv τ →
      (postgres.view τ.store ws).syncLogs.find id = none →
        wp P i (R.body cid) (fun r υ vs => ∀ a, r = .ok a → ∀ φ, P.rely vs υ φ → P.inv φ →
          P.Guarantees i vs φ (postgres.publish φ i vs) ∧
            Q (.ok (R.result a)) (postgres.publish φ i vs)) τ
          (ws ++ [.addSyncLog ⟨id, cid, R.operation, .started, none, t⟩])) :
    wp P i R.received (fun r τ _ => Q r τ) σ [] := by
  unfold received
  rw [wp_bind]
  unfold claimDelivery
  cases delivery : R.delivery with
  | none => exact wp_prog hosts stable failing (body σ [] (P.rely_refl [] σ) (by rw [delivery]; rfl))
  | some key =>
      dsimp only
      rw [wp_bind]
      refine wp_selectDelivery hosts (fun τ rely inv => ⟨fun e => failing e τ inv, ?_⟩)
      rw [Post.andThen_ok]
      cases found : (postgres.view τ.store []).webhookDeliveries.find key with
      | some row =>
          refine known key τ delivery rely (fun absent => ?_)
          rw [Engine.view_nil, absent] at found
          cases found
      | none =>
          dsimp only
          rw [wp_bind]
          refine wp_insertDelivery hosts (fun υ rely' inv => ⟨fun e => failing e υ inv, ?_⟩)
          intro id t free
          rw [Post.andThen_ok, wp_pure, Post.andThen_ok]
          refine wp_prog hosts stable failing (body υ _ (P.rely_trans rely rely') ?_)
          rw [delivery]
          exact ⟨free, _, rfl, rfl, rfl⟩

end LoggedRequest

end Rules

end OmniSync
