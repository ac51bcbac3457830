import OmniSync.Integrations.Watermark
import OmniSync.Telegram.Delivery
import OmniSync.Txn.Answered
import OmniSync.Txn.Commits
import OmniSync.Webhooks.Requests

/-!
# Deliveries are processed once

A webhook request with a delivery id records its delivery in the transaction of its work, and the
deliveries have a unique key. So in every interleaving of webhook requests the write set of one
request at most is committed under an id, together with the delivery. A request that commits
nothing leaves nothing, and as long as no other request for the same id is in flight the next one
is processed.
-/

namespace OmniSync

open Txn

theorem view_find_delivery_eq_none_iff {s : Store} {ws : List Write} {key : String × String} :
    (postgres.view s ws).webhookDeliveries.find key = none ↔
      s.webhookDeliveries.find key = none ∧ ∀ row, .addDelivery row ∈ ws → row.key ≠ key := by
  induction ws generalizing s with
  | nil => simp
  | cons w ws ih =>
      have put : (s.put w).webhookDeliveries.find key = none ↔
          s.webhookDeliveries.find key = none ∧ ∀ row, w = .addDelivery row → row.key ≠ key := by
        by_cases table : w.table = .webhookDeliveries
        · cases w with
          | addDelivery row =>
              change (s.webhookDeliveries.add row).find key = none ↔ _
              by_cases same : row.key = key
              · subst same
                refine iff_of_false Table.find_add_ne_none (fun both => ?_)
                exact both.2 row rfl rfl
              · rw [Table.find_add_of_ne (Ne.symm same)]
                refine (and_iff_left (fun row' added => ?_)).symm
                cases added
                exact same
          | setDelivery k status errorText =>
              have modified : (s.put (.setDelivery k status errorText)).webhookDeliveries.find key =
                  if key = k then (s.webhookDeliveries.find key).map (·.setStatus status errorText)
                  else s.webhookDeliveries.find key :=
                Table.find_modify (f := fun row : WebhookDelivery =>
                  row.setStatus status errorText) (fun _ => rfl)
              have absent : ∀ row, Write.setDelivery k status errorText = .addDelivery row →
                  row.key ≠ key := fun _ impossible => by cases impossible
              rw [and_iff_left absent, modified]
              split
              · exact Option.map_eq_none_iff
              · exact Iff.rfl
          | _ => cases table
        · rw [Store.put_webhookDeliveries_of_table table]
          refine (and_iff_left (fun row added => ?_)).symm
          subst added
          exact (table rfl).elim
      change (postgres.view (s.put w) ws).webhookDeliveries.find key = none ↔ _
      rw [ih, put, and_assoc]
      refine and_congr_right (fun _ => ?_)
      constructor
      · rintro ⟨first, rest⟩ row here
        rcases List.mem_cons.mp here with same | here
        · exact first row same.symm
        · exact rest row here
      · intro all
        exact ⟨fun row same => all row (same ▸ List.mem_cons_self),
          fun row here => all row (List.mem_cons_of_mem w here)⟩

section Protocol

variable {ι : Type} {delivery : ι → Option (String × String)} {i : ι} {s : Store}
variable {σ τ : State ι} {ws : List Write}

/-- What a request commits records its delivery, if it has one, and touches no other one. -/
structure DeliveryClaimed (delivery : ι → Option (String × String)) (i : ι)
    (ws : List Write) : Prop where
  claimed : ∀ key, delivery i = some key → ∃ row, .addDelivery row ∈ ws ∧ row.key = key
  own : ∀ row, .addDelivery row ∈ ws → delivery i = some row.key

/-- The write sets that were committed under an id. -/
def effects (delivery : ι → Option (String × String)) (key : String × String) (σ : State ι) :
    List (ι × List Write) :=
  σ.log.filter (fun entry => decide (delivery entry.1 = some key))

/-- The store says of each id whether something was committed under it, and nothing was
committed twice. -/
structure Deduplicated (delivery : ι → Option (String × String)) (s : Store) (σ : State ι) :
    Prop where
  replays : Shared.Replays postgres s σ
  claims : ∀ entry ∈ σ.log, DeliveryClaimed delivery entry.1 entry.2
  known : ∀ key, σ.store.webhookDeliveries.find key = none ↔
    s.webhookDeliveries.find key = none ∧ effects delivery key σ = []
  fresh : ∀ key, s.webhookDeliveries.find key ≠ none → effects delivery key σ = []
  once : ∀ key, (effects delivery key σ).length ≤ 1

theorem Deduplicated.start {w : World} : Deduplicated delivery s ⟨w, s, []⟩ where
  replays := rfl
  claims _ he := (List.not_mem_nil he).elim
  known _ := ⟨fun absent => ⟨absent, rfl⟩, And.left⟩
  fresh _ _ := rfl
  once _ := Nat.zero_le 1

/-- The id of a request with these pending writes is free. -/
structure Free (delivery : ι → Option (String × String)) (i : ι) (σ : State ι)
    (ws : List Write) : Prop where
  claims : DeliveryClaimed delivery i ws
  unknown : ∀ key, delivery i = some key → σ.store.webhookDeliveries.find key = none

theorem Deduplicated.publish (h : Deduplicated delivery s σ) (free : Free delivery i σ ws) :
    Deduplicated delivery s (postgres.publish σ i ws) := by
  have log : ∀ key, effects delivery key (postgres.publish σ i ws) =
      effects delivery key σ ++ if delivery i = some key then [(i, ws)] else [] := by
    intro key
    unfold effects
    rw [Engine.publish_log, List.filter_append]
    by_cases own : delivery i = some key <;> simp [own]
  refine ⟨h.replays.publish i ws, ?_, fun key => ?_, fun key here => ?_, fun key => ?_⟩
  · intro entry here
    rcases List.mem_append.mp here with old | new
    · exact h.claims entry old
    · rw [List.mem_singleton.mp new]
      exact free.claims
  · rw [Engine.publish_store, view_find_delivery_eq_none_iff, h.known, log]
    by_cases own : delivery i = some key
    · obtain ⟨row, here, same⟩ := free.claims.claimed key own
      refine iff_of_false (fun both => both.2 row here same) (fun both => ?_)
      rw [if_pos own] at both
      exact List.append_ne_nil_of_right_ne_nil _ (List.cons_ne_nil _ _) both.2
    · rw [if_neg own, List.append_nil]
      refine and_iff_left (fun row here same => own ?_)
      rw [free.claims.own row here, same]
  · have other : delivery i ≠ some key :=
      fun own => here ((h.known key).mp (free.unknown key own)).1
    rw [log, h.fresh key here, if_neg other]
    rfl
  · rw [log]
    by_cases own : delivery i = some key
    · rw [((h.known key).mp (free.unknown key own)).2, if_pos own]
      exact le_rfl
    · rw [if_neg own, List.append_nil]
      exact h.once key

/-- The protocol of webhook requests. -/
def deduplicating (delivery : ι → Option (String × String)) (s : Store) : Protocol postgres ι :=
  Protocol.interleaved postgres (Deduplicated delivery s) World.Later (DeliveryClaimed delivery)
    (fun _ _ _ => True) World.Later.refl World.Later.trans

theorem hosts_deduplicating : Hosts (deduplicating delivery s) :=
  hosts_interleaved (fun _ _ inv _ => ⟨inv.replays, inv.claims, inv.known, inv.fresh, inv.once⟩)

/-- Nobody else can commit under an id that is claimed. -/
theorem Free.stable (h : Free delivery i σ ws) (rely : (deduplicating delivery s).rely ws σ τ) :
    Free delivery i τ ws := by
  refine ⟨h.claims, fun key own => ?_⟩
  obtain ⟨row, here, same⟩ := h.claims.claimed key own
  refine rely.preserves (fun t => t.webhookDeliveries.find key = none) ?_ (h.unknown key own)
  intro t j vs _ compatible absent
  refine view_find_delivery_eq_none_iff.mpr ⟨absent, fun row' there same' => ?_⟩
  have apart := compatible _ here _ there
  rw [show postgres.conflict = Write.conflict from rfl, Write.conflict_eq_false_iff] at apart
  exact apart (.delivery row.key) List.mem_cons_self (by simp [Write.locks, same, same'])

/-- An id that is known stays known. -/
theorem known_stable {key : String × String}
    (known : σ.store.webhookDeliveries.find key ≠ none)
    (rely : (deduplicating delivery s).rely ws σ τ) :
    τ.store.webhookDeliveries.find key ≠ none := by
  refine rely.preserves (fun t => t.webhookDeliveries.find key ≠ none) ?_ known
  exact fun t j vs _ _ found absent => found (view_find_delivery_eq_none_iff.mp absent).1

theorem Free.append (h : Free delivery i σ ws) {new : List Write} {world : World}
    (other : ∀ w ∈ new, w.table ≠ .webhookDeliveries) :
    Free delivery i { σ with world := world } (ws ++ new) := by
  refine ⟨⟨fun key own => ?_, fun row here => ?_⟩, h.unknown⟩
  · obtain ⟨row, here, same⟩ := h.claims.claimed key own
    exact ⟨row, List.mem_append.mpr (.inl here), same⟩
  · rcases List.mem_append.mp here with old | added
    · exact h.claims.own row old
    · exact (other _ added rfl).elim

theorem Free.claimed {υ : State ι} (h : LoggedRequest.Claimed (delivery i) υ ws) :
    Free delivery i υ ws := by
  unfold LoggedRequest.Claimed at h
  split at h
  · rename_i none'
    subst h
    refine ⟨⟨fun key own => ?_, fun row here => (List.not_mem_nil here).elim⟩, fun key own => ?_⟩
    · rw [none'] at own
      cases own
    · rw [none'] at own
      cases own
  · rename_i key some
    obtain ⟨absent, row, rfl, same, _⟩ := h
    refine ⟨⟨fun k own => ⟨row, List.mem_cons_self, ?_⟩, fun row' here => ?_⟩, fun k own => ?_⟩
    · rw [some] at own
      exact same.trans (Option.some.inj own)
    · cases List.mem_singleton.mp here
      rw [same]
      exact some
    · rw [some] at own
      cases own
      exact absent

/-- What the answer to a request says about its delivery. -/
def Answered (delivery : ι → Option (String × String)) (i : ι)
    (r : Except Exn WebhookResponse) (σ : State ι) : Prop :=
  r = .ok .duplicate → ∃ key, delivery i = some key ∧ σ.store.webhookDeliveries.find key ≠ none

theorem answered_error (e : Exn) : Answered delivery i (.error e) σ := by
  intro impossible
  cases impossible

theorem answered_processed (n : Nat) : Answered delivery i (.ok (.processed n)) σ := by
  intro impossible
  cases impossible

theorem Answered.stable {r : Except Exn WebhookResponse} (h : Answered delivery i r σ)
    (rely : (deduplicating delivery s).rely ws σ τ) : Answered delivery i r τ := by
  intro duplicate
  obtain ⟨key, own, known⟩ := h duplicate
  exact ⟨key, own, known_stable known rely⟩

theorem final_answered : (deduplicating delivery s).Final (fun r σ _ => Answered delivery i r σ) :=
  ⟨fun answered rely _ => answered.stable rely, id, fun _ => answered_error _⟩

/-- A webhook request claims its delivery, and commits it together with its work. -/
theorem wp_deduplicating {R : LoggedRequest Nat WebhookResponse} (own : R.delivery = delivery i)
    (processed : ∀ a, R.result a = .processed a)
    (ingesting : ∀ cid, (R.body cid).Within Stmt.Ingesting) :
    wp (deduplicating delivery s) i R.received (fun r τ _ => Answered delivery i r τ) σ [] := by
  refine LoggedRequest.wp_received hosts_deduplicating (fun answered rely => answered.stable rely)
    (fun e _ _ => answered_error e) (fun key τ some _ known _ => ⟨key, own ▸ some, known⟩) ?_
  intro υ vs _ claimed cid id t τ rely _ _
  have free : Free delivery i τ vs := (Free.claimed (own ▸ claimed)).stable rely
  refine wp_ingests (R := fun φ us => Free delivery i φ us) (ingesting cid)
    (fun free rely _ => free.stable rely) ?_ ?_ ?_
  · intro φ us new world free inv moves ingested
    refine ⟨Protocol.interleaved_guarantees_world ?_ moves.clock,
      free.append (fun w hw => (ingested w hw).webhookDeliveries)⟩
    exact ⟨inv.replays, inv.claims, inv.known, inv.fresh, inv.once⟩
  · refine free.append (fun w hw => ?_)
    rw [List.mem_singleton.mp hw]
    simp [Write.table]
  · intro _ φ us free a _ ψ rely inv
    have here := free.stable rely
    refine ⟨Protocol.interleaved_guarantees_publish (inv.publish here) here.claims, ?_⟩
    rw [processed]
    exact answered_processed a

end Protocol

section Statements

variable {delivery : Option (String × String)} {logId : Uuid} {status : RunStatus}
variable {errorText : Option String}

/-- The statements of a request for this delivery. -/
def Stmt.Requesting (delivery : Option (String × String)) : Stmt → Prop
  | insertDelivery row => ∃ key, delivery = some key ∧ ∀ id t, (row id t).key = key
  | updateDelivery key _ _ => delivery = some key
  | _ => True

theorem Stmt.Ingesting.requesting {s : Stmt} (h : s.Ingesting) : s.Requesting delivery := by
  cases s with
  | insertDelivery | updateDelivery => exact h.elim
  | _ => trivial

theorem locks_of_insertDelivery {row : Draft WebhookDelivery} {w : Write} {key : String × String}
    (writes : postgres.Writes (.insertDelivery row) w) (locked : .delivery key ∈ w.locks) :
    ∃ id t, (row id t).key = key := by
  obtain ⟨choice, world, view, _, answer, new, world', run, here⟩ := writes
  change exec _ _ _ _ _ = _ at run
  cases choice with
  | draw id t =>
      simp only [exec] at run
      split at run
      · obtain ⟨_, ⟨_, _, rfl⟩ | ⟨_, _, rfl⟩⟩ := insertUnless_some run
        · exact (List.not_mem_nil here).elim
        · rw [List.mem_singleton.mp here] at locked
          simp only [Write.locks, List.mem_singleton, Lock.delivery.injEq] at locked
          exact ⟨id, t, locked.symm⟩
      · cases run
  | _ => cases run

theorem locks_of_updateDelivery {k key : String × String} {status : DeliveryStatus} {w : Write}
    (writes : postgres.Writes (.updateDelivery k status errorText) w)
    (locked : .delivery key ∈ w.locks) : k = key := by
  obtain ⟨choice, world, view, _, answer, new, world', run, here⟩ := writes
  change exec _ _ _ _ _ = _ at run
  cases choice with
  | none =>
      simp only [exec, Option.some.injEq, Prod.mk.injEq] at run
      obtain ⟨_, rfl, _⟩ := run
      split at here
      · rw [List.mem_singleton.mp here] at locked
        simp only [Write.locks, List.mem_singleton, Lock.delivery.injEq] at locked
        exact locked.symm
      · exact (List.not_mem_nil here).elim
  | _ => cases run

/-- A request locks no other delivery. -/
theorem locks_of_requesting {s : Stmt} {w : Write} {key : String × String}
    (h : s.Requesting delivery) (writes : postgres.Writes s w) (locked : .delivery key ∈ w.locks) :
    delivery = some key := by
  have table : w.table = .webhookDeliveries := by
    cases w with
    | addDelivery | setDelivery => rfl
    | _ => simp [Write.locks] at locked
  cases s with
  | insertDelivery row =>
      obtain ⟨own, known, same⟩ := h
      obtain ⟨id, t, rfl⟩ := locks_of_insertDelivery writes locked
      rw [known, same]
  | updateDelivery k status errorText =>
      rw [← locks_of_updateDelivery writes locked]
      exact h
  | _ =>
      obtain ⟨_, _, _, _, _, _, _, run, here⟩ := writes
      have written := exec_table run w here
      rw [table] at written
      cases written

theorem claimDelivery_requesting : (claimDelivery delivery).Within (Stmt.Requesting delivery) := by
  unfold claimDelivery
  cases delivery with
  | none => trivial
  | some key =>
      refine .bind (.issue trivial) (fun known => ?_)
      cases known with
      | some row => trivial
      | none => exact .bind (.issue ⟨key, rfl, fun _ _ => rfl⟩) (fun _ => trivial)

theorem settleDelivery_requesting {status : DeliveryStatus} :
    (settleDelivery delivery status errorText).Within (Stmt.Requesting delivery) := by
  cases delivery with
  | none => trivial
  | some key => exact .issue rfl

theorem updateSyncLogStatus_requesting :
    (updateSyncLogStatus false logId status errorText).Within (Stmt.Requesting delivery) := by
  unfold updateSyncLogStatus
  exact .bind (.issue trivial) (fun _ => .issue trivial)

theorem createSyncLog_requesting {correlationId source : String} :
    (createSyncLog false correlationId source).Within (Stmt.Requesting delivery) := by
  unfold createSyncLog
  exact .bind (.issue trivial) (fun _ => trivial)

/-- A request that fails does not commit. -/
theorem failWebhook_requesting {β : Type} {e : Exn} :
    (failWebhook delivery logId e : Tx β).Issuing (Stmt.Requesting delivery) := by
  unfold failWebhook
  refine .bind .rollbackWork (fun _ => ?_)
  refine .bind (.of_within updateSyncLogStatus_requesting) (fun _ => ?_)
  exact .bind (.of_within settleDelivery_requesting) (fun _ => trivial)

theorem failWebhook_commitsOnce {β : Type} {e : Exn} {Q : Bool → Except Exn β → Prop} {c : Bool}
    (failed : ∀ e, Q c (.error e)) :
    (failWebhook delivery logId e : Tx β).CommitsOnce Q c := by
  have updated : (updateSyncLogStatus false logId .failed (some e.message)).Within
      (Stmt.Requesting delivery) := updateSyncLogStatus_requesting
  have written : (do
      updateSyncLogStatus false logId .failed (some e.message)
      settleDelivery delivery .failed (some (slice e.message 500))
      throw e : Tx β).CommitsOnce Q c := by
    refine .within_bind updated (fun _ => ?_) failed
    exact .within_bind settleDelivery_requesting (fun _ => failed e) failed
  exact written

namespace LoggedRequest

variable {R : LoggedRequest Nat WebhookResponse}

theorem finish_requesting {a : Nat} :
    (R.finish logId a).Within (Stmt.Requesting R.delivery) := by
  unfold finish
  refine .bind updateSyncLogStatus_requesting (fun _ => ?_)
  exact .bind settleDelivery_requesting (fun _ => trivial)

theorem finish_commitsOnce {a : Nat} {Q : Bool → Except Exn WebhookResponse → Prop} {c : Bool}
    (done : Q c (.ok (R.result a))) (failed : ∀ e, Q c (.error e)) :
    (R.finish logId a).CommitsOnce Q c := by
  have updated : (updateSyncLogStatus false logId .completed none).Within
      (Stmt.Requesting R.delivery) := updateSyncLogStatus_requesting
  unfold finish
  refine .within_bind updated (fun _ => ?_) failed
  exact .within_bind settleDelivery_requesting (fun _ => done) failed

theorem received_issuing (ingesting : ∀ cid, (R.body cid).Within Stmt.Ingesting) :
    R.received.Issuing (Stmt.Requesting R.delivery) := by
  unfold received
  refine .bind (.of_within claimDelivery_requesting) (fun known => ?_)
  split
  · trivial
  · unfold prog opened
    refine .bind (.of_within (.issue trivial)) (fun cid => ?_)
    refine .bind (.of_within createSyncLog_requesting) (fun id => ?_)
    refine .bind ?_ (fun _ => .tryCatch ?_ (fun e => failWebhook_requesting))
    · cases R.setup <;> trivial
    · refine .bind ((Prog.Issuing.of_within (ingesting cid)).mono fun _ h => h.requesting)
        (fun a => ?_)
      exact .bind .commitWork (fun _ => .of_within finish_requesting)

/-- A request has committed if and only if its answer says that it was processed. -/
def Told (c : Bool) (r : Except Exn WebhookResponse) : Prop :=
  ∀ a, r = .ok a → (c = true ↔ a ≠ .duplicate)

theorem told_error (c : Bool) (e : Exn) : Told c (.error e) := fun _ => nofun

theorem received_commitsOnce (processed : ∀ a, R.result a = .processed a)
    (ingesting : ∀ cid, (R.body cid).Within Stmt.Ingesting) :
    R.received.CommitsOnce Told false := by
  have identified : Db.generateCorrelationId.Within (Stmt.Requesting R.delivery) := .issue trivial
  have created : ∀ cid, (createSyncLog false cid R.operation).Within
      (Stmt.Requesting R.delivery) := fun _ => createSyncLog_requesting
  have setup : (Prog.ofAnswer R.setup : Tx Unit).Within (Stmt.Requesting R.delivery) := by
    cases R.setup <;> trivial
  unfold received
  refine .within_bind claimDelivery_requesting (fun known => ?_) (told_error false)
  split
  · rintro _ ⟨⟩
    simp
  · unfold prog
    refine .within_bind identified (fun cid => ?_) (told_error false)
    refine .within_bind (created cid) (fun id => ?_) (told_error false)
    refine .within_bind setup (fun _ => ?_) (told_error false)
    unfold opened
    refine .tryCatch (R := fun c r => ∀ a, r = .ok a → c = true ∧ a ≠ .duplicate) ?_ ?_ ?_
    · refine .within_bind (ingesting cid) (fun a => ?_) (fun e => nofun)
      refine ⟨rfl, finish_commitsOnce ?_ (fun e => nofun), fun e => nofun⟩
      rintro _ ⟨⟩
      rw [processed]
      exact ⟨rfl, nofun⟩
    · rintro c a told _ ⟨⟩
      obtain ⟨committed, other⟩ := told a rfl
      exact iff_of_true committed other
    · exact fun c e _ => failWebhook_commitsOnce (told_error c)

end LoggedRequest

end Statements

section Webhooks

variable {ι : Type} {i : ι} {s : Store} {σ : State ι} (c : WebhookConfig) (webhooks : ι → Webhook)

/-- The delivery of each request. -/
def deliveries (i : ι) : Option (String × String) := (webhooks i).delivery c

theorem Webhook.wp_run :
    wp (deduplicating (deliveries c webhooks) s) i ((webhooks i).run c)
      (fun r τ _ => Answered (deliveries c webhooks) i r τ) σ [] := by
  rcases (webhooks i).run_cases c with ⟨e, refused⟩ | ⟨R, logged, own, _, processed, ingesting⟩
  · rw [refused]
    exact answered_error e
  · rw [logged]
    exact wp_deduplicating own processed ingesting

variable (w : Webhook)

theorem Webhook.commitsOnce : (w.run c).CommitsOnce LoggedRequest.Told false := by
  rcases w.run_cases c with ⟨e, refused⟩ | ⟨R, logged, _, _, processed, ingesting⟩
  · rw [refused]
    exact LoggedRequest.told_error false e
  · rw [logged]
    exact LoggedRequest.received_commitsOnce processed ingesting

theorem Webhook.issuing : (w.run c).Issuing (Stmt.Requesting (w.delivery c)) := by
  rcases w.run_cases c with ⟨e, refused⟩ | ⟨R, logged, own, _, _, ingesting⟩
  · rw [refused]
    trivial
  · rw [logged, ← own]
    exact LoggedRequest.received_issuing ingesting

end Webhooks

section Runs

variable {ι : Type} [Fintype ι] [DecidableEq ι]

/-- Requests that are about to be received. -/
def receiving (c : WebhookConfig) (webhooks : ι → Webhook) (world : World) (s : Store) :
    Cluster Answer Exn Store Write World ι WebhookResponse :=
  Cluster.start ⟨world, s, []⟩ (fun i => (webhooks i).run c)

/-- What is committed under an id is committed once, together with its delivery. A request that
has committed nothing has left nothing, and the answer tells which one has. -/
structure OnceEach (delivery : ι → Option (String × String)) (s : Store)
    (st : Cluster Answer Exn Store Write World ι WebhookResponse) : Prop where
  once : ∀ key, (effects delivery key st.shared).length ≤ 1
  fresh : ∀ key, s.webhookDeliveries.find key ≠ none → effects delivery key st.shared = []
  together : ∀ entry ∈ st.shared.log, ∀ key, delivery entry.1 = some key →
    ∃ row, .addDelivery row ∈ entry.2 ∧ row.key = key
  recorded : ∀ key, st.shared.store.webhookDeliveries.find key = none ↔
    s.webhookDeliveries.find key = none ∧ effects delivery key st.shared = []
  nothing : ∀ i, st.commitCount i = 0 → st.shared.store =
    postgres.view s ((st.shared.log.filter (fun entry => decide (entry.1 ≠ i))).flatMap Prod.snd)
  answered : ∀ i a, (st.sessions i).returned = some a →
    st.commitCount i = if a = .duplicate then 0 else 1

/-- The session has not begun, or it is over. -/
def Idle (p : Tx WebhookResponse) (session : Session Answer Exn Write WebhookResponse) : Prop :=
  session = ⟨p, []⟩ ∨ session.prog.running = false ∧ session.writes = []

/-- The request for an id is not refused: as long as it has not committed, its claim neither
fails nor waits, and its answer is that it has been processed. -/
structure Accepted (key : String × String) (i : ι)
    (st : Cluster Answer Exn Store Write World ι WebhookResponse) : Prop where
  answer : (st.sessions i).returned ≠ some .duplicate
  processed : ∀ a, (st.sessions i).returned = some a → st.commitCount i = 1
  free : st.commitCount i = 0 → st.shared.store.webhookDeliveries.find key = none ∧
    ∀ j, j ≠ i → ∀ w ∈ (st.sessions j).writes, .delivery key ∉ w.locks

variable {c : WebhookConfig} {webhooks : ι → Webhook} {world : World} {s : Store}
variable {mid st : Cluster Answer Exn Store Write World ι WebhookResponse}

theorem receiving_safe (run : Cluster.Reachable postgres (receiving c webhooks world s) st) :
    st.Safe (deduplicating (deliveries c webhooks) s)
      (fun i r σ _ => Answered (deliveries c webhooks) i r σ) := by
  have safe : (receiving c webhooks world s).Safe (deduplicating (deliveries c webhooks) s)
      (fun i r σ _ => Answered (deliveries c webhooks) i r σ) :=
    Cluster.Safe.start _ Deduplicated.start (fun i => Webhook.wp_run c webhooks)
  exact safe.run Protocol.interleaved_coherent (fun _ => final_answered) run

theorem prog_of_returned {session : Session Answer Exn Write WebhookResponse}
    {a : WebhookResponse} (h : session.returned = some a) : session.prog = .ret a := by
  obtain ⟨prog, ws⟩ := session
  cases prog with
  | ret b =>
      cases h
      rfl
  | _ => cases h

theorem receiving_once (run : Cluster.Reachable postgres (receiving c webhooks world s) st) :
    OnceEach (deliveries c webhooks) s st := by
  have inv := (receiving_safe run).inv
  refine ⟨inv.once, inv.fresh, fun entry here => (inv.claims entry here).claimed, inv.known, ?_, ?_⟩
  · intro i none'
    rw [Cluster.commitCount_eq_zero_iff] at none'
    have all : st.shared.log.filter (fun entry => decide (entry.1 ≠ i)) = st.shared.log :=
      List.filter_eq_self.mpr (fun entry here => decide_eq_true (none' entry here))
    rw [all]
    exact inv.replays
  · intro i a returned
    obtain ⟨committed, once, count⟩ := Cluster.commits_once rfl
      (fun i => (webhooks i).commitsOnce c) (fun _ => LoggedRequest.told_error) run i
    rw [prog_of_returned returned] at once
    have told : committed = true ↔ a ≠ .duplicate := once a rfl
    rw [count]
    split
    · rename_i duplicate
      cases committed with
      | true => exact (told.mp rfl duplicate).elim
      | false => rfl
    · rename_i processed
      rw [told.mpr processed]
      rfl

/-- What is committed under an id while one request for it moves is committed by that request. -/
theorem effects_of_alone {i : ι} {key : String × String}
    (run : Cluster.Reachable postgres (receiving c webhooks world s) mid)
    (unknown : mid.shared.store.webhookDeliveries.find key = none)
    (alone : Cluster.RunOf postgres (fun j => j = i ∨ deliveries c webhooks j ≠ some key) mid st)
    (uncommitted : st.commitCount i = 0) : effects (deliveries c webhooks) key st.shared = [] := by
  have before := ((receiving_once run).recorded key).mp unknown
  obtain ⟨new, log, moved⟩ := alone.log
  unfold effects at before ⊢
  rw [log, List.filter_append, before.2, List.nil_append, List.filter_eq_nil_iff]
  intro entry here own
  rcases moved entry here with same | other
  · refine Cluster.commitCount_eq_zero_iff.mp uncommitted entry ?_ same
    rw [log]
    exact List.mem_append.mpr (.inr here)
  · exact other (of_decide_eq_true own)

theorem receiving_accepted {i : ι} {key : String × String}
    (run : Cluster.Reachable postgres (receiving c webhooks world s) mid)
    (own : deliveries c webhooks i = some key)
    (unknown : mid.shared.store.webhookDeliveries.find key = none)
    (idle : ∀ j, j ≠ i → deliveries c webhooks j = some key →
      Idle ((webhooks j).run c) (mid.sessions j))
    (alone : Cluster.RunOf postgres (fun j => j = i ∨ deliveries c webhooks j ≠ some key) mid st) :
    Accepted key i st := by
  have reached : Cluster.Reachable postgres (receiving c webhooks world s) st :=
    run.trans alone.reachable
  have each := receiving_once reached
  have before := ((receiving_once run).recorded key).mp unknown
  have absent : st.commitCount i = 0 → st.shared.store.webhookDeliveries.find key = none :=
    fun uncommitted =>
      (each.recorded key).mpr ⟨before.1, effects_of_alone run unknown alone uncommitted⟩
  have answer : (st.sessions i).returned ≠ some .duplicate := by
    intro duplicate
    have answered := (receiving_safe reached).verified i
    rw [prog_of_returned duplicate] at answered
    obtain ⟨k, own', known⟩ := answered rfl
    obtain rfl : key = k := Option.some.inj (own.symm.trans own')
    exact known (absent (each.answered i _ duplicate))
  refine ⟨answer, fun a returned => ?_, fun uncommitted => ⟨absent uncommitted, ?_⟩⟩
  · rw [each.answered i a returned, if_neg]
    rintro rfl
    exact answer returned
  · intro j other w pending locked
    by_cases same : deliveries c webhooks j = some key
    · have still := alone.sessions (j := j) (fun moves => moves.elim other (fun h => h same))
      rw [still] at pending
      rcases idle j other same with unbegun | ⟨_, none'⟩
      · rw [unbegun] at pending
        exact (List.not_mem_nil pending).elim
      · rw [none'] at pending
        exact (List.not_mem_nil pending).elim
    · obtain ⟨_, allowed, writes⟩ :=
        (Cluster.issued (fun j => (webhooks j).issuing c) reached j).writes w pending
      exact same (locks_of_requesting allowed writes locked)

/-- Whatever requests are received, and however they overlap and fail: what is committed under an
id is committed once and together with its delivery, and a request that commits nothing leaves
nothing. While no other request for the id is in flight, a request for an id that nothing has been
committed under is accepted. -/
theorem webhooks_deduplicated (c : WebhookConfig) (webhooks : ι → Webhook) (world : World)
    (s : Store) :
    (∀ st, Cluster.Reachable postgres (receiving c webhooks world s) st →
      OnceEach (deliveries c webhooks) s st) ∧
    ∀ i key mid st, Cluster.Reachable postgres (receiving c webhooks world s) mid →
      deliveries c webhooks i = some key →
      mid.shared.store.webhookDeliveries.find key = none →
      (∀ j, j ≠ i → deliveries c webhooks j = some key →
        Idle ((webhooks j).run c) (mid.sessions j)) →
      Cluster.RunOf postgres (fun j => j = i ∨ deliveries c webhooks j ≠ some key) mid st →
        Accepted key i st :=
  ⟨fun _ run => receiving_once run,
    fun _ _ _ _ run own unknown idle alone => receiving_accepted run own unknown idle alone⟩

end Runs

section Example

/-- Three requests for one update. -/
def redelivering : Party → Webhook
  | _ => .telegram none (.ok (chatUpdate 9 100 "hi"))

def redeliveringConfig : WebhookConfig where
  lib := calendar []
  rt := chatRuntime
  settings := {}
  webhooks := { hmacSha256 := fun secret body => secret ++ body }

def redeliveringStart : Cluster Answer Exn Store Write World Party WebhookResponse :=
  receiving redeliveringConfig redelivering {} ∅

/-- The moves of a request up to its commit. -/
def storingMoves (correlationId : String) (id : Uuid) : List (Move Exn Choice) :=
  [.step .none, .step (.draw id 0), .step (.text correlationId), .step (.draw (id + 1) 0),
    .step .none, .step (.draw (id + 2) 0), .step (.time 0)] ++ (createScript (id + 3)).dropLast

/-- The commit of the first request fails. -/
def failedMoves : List (Party × Move Exn Choice) :=
  (storingMoves "c" 1).map (Prod.mk .first) ++
    [.fail ⟨"OperationalError", "connection lost"⟩, .step .none, .step .none, .step .none,
      .step .none, .close].map (Prod.mk .first)

/-- The second request is processed. -/
def processedMoves : List (Party × Move Exn Choice) :=
  (storingMoves "d" 11).map (Prod.mk .second) ++
    [.step .none, .step .none, .step .none, .step .none, .close].map (Prod.mk .second)

/-- The third one is a duplicate. -/
def duplicateMoves : List (Party × Move Exn Choice) := [(.third, .step .none), (.third, .close)]

def failedRun : Option (Cluster Answer Exn Store Write World Party WebhookResponse) :=
  redeliveringStart.play postgres (fun _ _ _ => True) failedMoves

def processedRun : Option (Cluster Answer Exn Store Write World Party WebhookResponse) :=
  failedRun.bind (fun mid => mid.play postgres (fun _ _ _ => True) processedMoves)

def duplicateRun : Option (Cluster Answer Exn Store Write World Party WebhookResponse) :=
  processedRun.bind (fun mid => mid.play postgres (fun _ _ _ => True) duplicateMoves)

theorem failedRun_spec : ∃ mid, failedRun = some mid ∧
    Cluster.RunOf postgres (· = .first) redeliveringStart mid ∧
      mid.shared.store.webhookDeliveries.find ("telegram", "9") = none ∧
        (mid.sessions .first).prog.running = false ∧ (mid.sessions .first).writes = [] := by
  have shape : failedRun.map (fun mid =>
      ((mid.shared.store.webhookDeliveries.find ("telegram", "9")).isNone,
        (mid.sessions .first).prog.running, (mid.sessions .first).writes.isEmpty)) =
          some (true, false, true) := by decide +kernel
  obtain ⟨mid, run, same⟩ := Option.map_eq_some_iff.mp shape
  simp only [Prod.mk.injEq, Option.isNone_iff_eq_none, List.isEmpty_iff] at same
  exact ⟨mid, run, .of_play run (by decide), same⟩

/-- A request fails, the next one for the same update is processed, and another one is a
duplicate. -/
theorem redelivering_deduplicated : ∃ last st,
    Cluster.Reachable postgres redeliveringStart last ∧
      Cluster.Reachable postgres redeliveringStart st ∧
        (last.sessions .second).returned = some (.processed 1) ∧
          Accepted ("telegram", "9") .second last ∧
            (st.sessions .third).returned = some .duplicate ∧
              OnceEach (deliveries redeliveringConfig redelivering) ∅ st := by
  have shape : processedRun.map (fun last => (last.sessions .second).returned) =
      some (some (.processed 1)) := by decide +kernel
  have shape' : duplicateRun.map (fun st => (st.sessions .third).returned) =
      some (some .duplicate) := by decide +kernel
  obtain ⟨mid, failed, first, unknown, closed⟩ := failedRun_spec
  obtain ⟨last, run, processed⟩ := Option.map_eq_some_iff.mp shape
  obtain ⟨st, run', duplicate⟩ := Option.map_eq_some_iff.mp shape'
  have second : mid.play postgres (fun _ _ _ => True) processedMoves = some last := by
    unfold processedRun at run
    rw [failed] at run
    exact run
  have third : last.play postgres (fun _ _ _ => True) duplicateMoves = some st := by
    unfold duplicateRun at run'
    rw [run] at run'
    exact run'
  have alone : Cluster.RunOf postgres (fun j => j = .second ∨
      deliveries redeliveringConfig redelivering j ≠ some ("telegram", "9")) mid last := by
    have moves : ∀ move ∈ processedMoves, move.1 = .second := by decide
    exact .of_play second (fun move here => .inl (moves move here))
  have reached : Cluster.Reachable postgres redeliveringStart last :=
    first.reachable.trans alone.reachable
  have reached' : Cluster.Reachable postgres redeliveringStart st :=
    reached.trans (Cluster.run_of_play third)
  obtain ⟨each, accepted⟩ := webhooks_deduplicated redeliveringConfig redelivering {} ∅
  refine ⟨last, st, reached, reached', processed, ?_, duplicate, each st reached'⟩
  refine accepted .second ("telegram", "9") mid last first.reachable (by decide) unknown ?_ alone
  intro j other _
  cases j with
  | first => exact .inr closed
  | second => exact (other rfl).elim
  | third => exact .inl (first.sessions (by decide))

end Example

end OmniSync
