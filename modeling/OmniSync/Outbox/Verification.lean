import OmniSync.Database.Verification
import OmniSync.Outbox.Tasks

/-!
# The delivery of one outbox row

A row is delivered at most once in a pass, and its outcome is one patch of the row:
published after a successful delivery, and one more failed attempt otherwise.
-/

namespace OmniSync

open Txn

/-- What is delivered to the index for an outbox row. -/
def OutboxPayload.point (payload : OutboxPayload) : IndexPoint :=
  { embedded := payload.content
    source := payload.source
    eventType := payload.eventType
    content := slice payload.content 1000 }

/-- What `markPublished` writes. -/
def publishedPatch (o : OutboxEvent) (now : Time) : OutboxPatch :=
  { status := some .published
    publishedAt := some (some now)
    attempts := some (o.attempts + 1) }

/-- What `markFailed` writes. -/
def failedPatch (settings : Settings) (o : OutboxEvent) (error : String) : OutboxPatch :=
  { attempts := some (o.attempts + 1)
    lastError := some (some (slice error 1000))
    status := if settings.OUTBOX_MAX_ATTEMPTS ≤ o.attempts + 1 then some .dead else none }

/-- Row locks change nothing that a session sees. -/
theorem view_lockOutbox (s : Store) (rows : List OutboxEvent) :
    postgres.view s (rows.map (fun o => .lockOutbox o.id)) = s := by
  induction rows with
  | nil => rfl
  | cons o rows ih => exact ih

section Delivery

variable {ι : Type} {P : Protocol postgres ι} {i : ι} {σ : State ι} {ws : List Write}

theorem wp_indexEvent (hosts : Hosts P) {eventId : Uuid} {content source eventType : String}
    {Q : Post Exn Store Write World ι Bool}
    (h : ∀ τ, P.rely ws σ τ → P.inv τ → Q (.ok false) τ ws ∧
      (P.admits (.qdrantUpsert eventId ⟨content, source, eventType, slice content 1000⟩) τ ws →
        P.Guarantees i ws τ
            (withPoint τ eventId ⟨content, source, eventType, slice content 1000⟩) ∧
          Q (.ok true) (withPoint τ eventId ⟨content, source, eventType, slice content 1000⟩) ws)) :
    wp P i (indexEvent eventId content source eventType) Q σ ws := by
  unfold indexEvent
  rw [wp_bind]
  refine wp_qdrantClient hosts (fun τ rely inv up => ?_)
  cases up with
  | false => exact (h τ rely inv).1
  | true =>
      rw [Post.andThen_ok]
      change wp P i (Prog.tryCatch _ _) Q τ ws
      rw [wp_tryCatch, wp_bind]
      refine wp_qdrantUpsert (fun υ rely' inv' admitted => ?_)
      obtain ⟨failed, delivered⟩ := h υ (P.rely_trans rely rely') inv'
      exact ⟨fun _ => failed, delivered admitted⟩

/-- The row is marked as failed, or it is delivered and marked as published. -/
theorem wp_publishRow (hosts : Hosts P) {settings : Settings} {published : Nat} {o : OutboxEvent}
    {Q : Post Exn Store Write World ι Nat}
    (failed : ∀ τ error, P.rely ws σ τ → P.inv τ →
      Q (.ok published) τ (ws ++ [.patchOutbox o.id (failedPatch settings o error)]))
    (delivered : ∀ τ, P.rely ws σ τ → P.inv τ →
      P.admits (.qdrantUpsert o.payload.eventId o.payload.point) τ ws →
        P.Guarantees i ws τ (withPoint τ o.payload.eventId o.payload.point) ∧
          ∀ υ now, P.rely ws (withPoint τ o.payload.eventId o.payload.point) υ → P.inv υ →
            Q (.ok (published + 1)) υ (ws ++ [.patchOutbox o.id (publishedPatch o now)])) :
    wp P i (publishRow settings published o) Q σ ws := by
  unfold publishRow publishOne
  rw [wp_tryCatch, wp_bind, wp_bind]
  refine wp_indexEvent hosts (fun τ rely inv => ⟨?_, ?_⟩)
  · -- The handler marks the row as failed.
    change wp P i (markFailed settings o _ >>= fun _ => pure published) Q τ ws
    rw [wp_bind]
    refine wp_updateOutbox hosts (fun υ rely' inv' => ?_)
    exact failed υ _ (P.rely_trans rely rely') inv'
  · intro admitted
    obtain ⟨guarantee, marked⟩ := delivered τ rely inv admitted
    refine ⟨guarantee, ?_⟩
    rw [Post.andThen_ok]
    change wp P i (markPublished o >>= fun _ => pure (published + 1)) _ _ _
    unfold markPublished
    rw [wp_bind, wp_bind]
    refine wp_utcNow hosts (fun υ rely' _ now => ?_)
    refine wp_updateOutbox hosts (fun φ rely'' inv'' => ?_)
    exact marked φ now (P.rely_trans rely' rely'') inv''

end Delivery

end OmniSync
