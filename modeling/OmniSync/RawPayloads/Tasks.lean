import OmniSync.Database

/-!
# Raw payload retention

The clean-up is one statement. The foreign keys from `normalized_events` and `event_versions`
have no `ON DELETE` action, so the statement is rejected as a whole if it would delete a row
that is referenced.
-/

namespace OmniSync

/-- A row references the raw payload with this id. -/
def Store.referencesPayload (s : Store) (id : Uuid) : Bool :=
  s.normalizedEvents.rows.any (fun row => decide (row.rawPayloadId = some id)) ||
    s.eventVersions.rows.any (fun row => decide (row.rawPayloadId = some id))

def foreignKeyViolation (constraint : String) : Exn :=
  ⟨"IntegrityError", "update or delete on table \"raw_payloads\" violates foreign key constraint " ++
    constraint⟩

/-- `DELETE FROM raw_payloads WHERE received_at < cutoff`. -/
def Store.deletePayloads (s : Store) (cutoff : Time) : Except Exn Store :=
  if s.rawPayloads.rows.any (fun row =>
      decide (row.receivedAt < cutoff) && s.referencesPayload row.id) then
    .error (foreignKeyViolation "raw_payload_id")
  else
    .ok { s with
      rawPayloads := s.rawPayloads.filter (fun row => decide (cutoff ≤ row.receivedAt)) }

def payloadCutoff (settings : Settings) (now : Time) : Time :=
  now - settings.RAW_PAYLOAD_TTL_DAYS * 86400 * second

/-- The state that the task commits, or the exception that ends it. -/
def cleanupOldPayloads (settings : Settings) (now : Time) (s : Store) : Except Exn Store :=
  s.deletePayloads (payloadCutoff settings now)

end OmniSync
