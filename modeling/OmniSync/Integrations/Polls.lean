import OmniSync.Github.Polling
import OmniSync.Imap.Delivery
import OmniSync.Telegram.Polling
import OmniSync.Txn.Answered

/-!
# The coroutines of the polling tasks

A poll that has something to do opens one entry of the sync log. From there on it ingests and
keeps book of how it ends.
-/

namespace OmniSync

open Txn

/-- The statements of a run after it has opened its entry of the log. -/
def Stmt.Booked : Stmt → Prop
  | updateSyncLog _ _ _ => True
  | s => s.Ingesting

theorem Stmt.Ingesting.booked {s : Stmt} (h : s.Ingesting) : s.Booked := by
  cases s <;>
    first
    | exact h
    | exact h.elim

/-- A coroutine that opens one entry of the log, unless it has nothing to do. -/
inductive Polls : Tx Unit → Prop where
  | skips : Polls (pure ())
  | opens {operation : String} {work : String → Uuid → Tx Unit}
      (booked : ∀ cid logId, (work cid logId).Issuing Stmt.Booked) : Polls (do
        let cid ← Db.generateCorrelationId
        let logId ← createSyncLog true cid operation
        work cid logId)

/-- What a coroutine may issue that opens an entry of the log. -/
theorem Polls.issuing {p : Tx Unit} (h : Polls p) {allowed : Stmt → Prop}
    (named : allowed .generateCorrelationId) (logged : ∀ row, allowed (.insertSyncLog row))
    (booked : ∀ s : Stmt, s.Booked → allowed s) : p.Issuing allowed := by
  cases h with
  | skips => trivial
  | opens working =>
      refine .bind (.of_within (.issue named)) (fun cid => .bind ?_ (fun logId => ?_))
      · unfold createSyncLog
        refine .bind (.of_within (.issue (logged _))) (fun _ => .bind .commitWork (fun _ => ?_))
        exact trivial
      · exact (working cid logId).mono booked

section Issuing

variable {rt : Runtime} {settings : Settings}

theorem issuing_of_ingesting {α : Type} {p : Tx α} (h : p.Within Stmt.Ingesting) :
    p.Issuing Stmt.Booked :=
  .of_within (h.mono (fun _ => Stmt.Ingesting.booked))

theorem updateSyncLogStatus_issuing (logId : Uuid) (status : RunStatus)
    (errorText : Option String) :
    (updateSyncLogStatus true logId status errorText).Issuing Stmt.Booked := by
  unfold updateSyncLogStatus
  apply Prog.Issuing.bind
  · exact .of_within (.issue trivial)
  · exact fun _ => .commitWork

/-- The handler of the polls only keeps book. -/
theorem failRun_issuing (run : String × Uuid) (e : Exn) :
    (failRun run e : Tx Unit).Issuing Stmt.Booked := by
  unfold failRun
  exact .bind .rollbackWork (fun _ => .bind (updateSyncLogStatus_issuing _ _ _) (fun _ => trivial))

/-- The end of a run that does not fail. -/
theorem completed_issuing (logId : Uuid) : Prog.Issuing Stmt.Booked (do
    Prog.commitWork
    updateSyncLogStatus true logId .completed none) :=
  .bind .commitWork (fun _ => updateSyncLogStatus_issuing _ _ _)

theorem pollGithub_polls {α : Type} {env : GitHubEnv} {operation eventType type : String}
    {get : String → String → Option String → Tx (List α)} {parse : ItemParser α}
    (getting : ∀ owner repo since, (get owner repo since).Within Stmt.Ingesting) :
    Polls (pollGithub rt settings env operation eventType type get parse) := by
  unfold pollGithub
  split
  · exact .skips
  · refine .opens (fun cid logId => .tryCatch ?_ (failRun_issuing (cid, logId)))
    have reading : (NormalizedEventService.getWatermark "github" (some eventType)).Within
        Stmt.Ingesting := .issue trivial
    refine .bind (issuing_of_ingesting reading) (fun watermark => ?_)
    refine .bind (issuing_of_ingesting (getting _ _ _)) (fun items => ?_)
    split
    · exact completed_issuing logId
    · refine .bind (issuing_of_ingesting (saveRawPayload_ingests _ _ _)) (fun id => ?_)
      refine .bind (issuing_of_ingesting (parseItems_ingests _ _ _ _)) (fun events => ?_)
      exact .bind (issuing_of_ingesting (upsertEventsBulk_ingests _ _))
        (fun _ => completed_issuing logId)

theorem pollTelegram_polls {get : Option Int → Tx (List TelegramUpdate)}
    (getting : ∀ offset, (get offset).Within Stmt.Ingesting) :
    Polls (pollTelegram rt settings get) := by
  unfold pollTelegram
  refine .opens (fun cid logId => .tryCatch ?_ (failRun_issuing (cid, logId)))
  have reading : (getCursor "telegram").Within Stmt.Ingesting :=
    .bind (.issue trivial) (fun _ => trivial)
  refine .bind (issuing_of_ingesting reading) (fun cursor => ?_)
  refine .bind (issuing_of_ingesting (parseOffset_ingests cursor)) (fun offset => ?_)
  refine .bind (issuing_of_ingesting (getting offset)) (fun updates => ?_)
  refine .bind (issuing_of_ingesting (.foldlM _ _ (fun collected update _ =>
    collectUpdate_ingests collected update))) (fun collected => ?_)
  refine .bind (issuing_of_ingesting (acknowledge_ingests _)) (fun _ => ?_)
  split
  · exact completed_issuing logId
  · exact .bind (issuing_of_ingesting (upsertEventsBulk_ingests _ _))
      (fun _ => completed_issuing logId)

/-- A logged run only keeps book after its work. -/
theorem opened_issuing {α β : Type} {R : LoggedRun α β} (run : String × Uuid)
    (working : (R.body run.1).Within Stmt.Ingesting)
    (caught : ∀ e, (R.handler run e).Issuing Stmt.Booked) :
    (R.opened run).Issuing Stmt.Booked := by
  unfold LoggedRun.opened LoggedRun.settle LoggedRun.finish
  refine .tryCatch (.bind (issuing_of_ingesting working) (fun a => ?_)) caught
  exact .bind .commitWork (fun _ => .bind (updateSyncLogStatus_issuing _ _ _) (fun _ => trivial))

theorem syncImapMessages_polls {lib : DatetimeLib} {imapSettings : ImapSettings} :
    Polls (syncImapMessages lib rt settings imapSettings) := by
  by_cases skipped : imapSettings.IMAP_HOST = ""
  · unfold syncImapMessages
    rw [if_pos skipped]
    exact .skips
  · rw [syncImapMessages_eq skipped]
    unfold openRun
    simp only [Prog.bind_assoc]
    refine .opens (fun cid logId => .bind (issuing_of_ingesting (ofAnswer_ingests _)) (fun _ => ?_))
    exact opened_issuing (cid, logId) (imapRun_proper.ingesting cid) (failRun_issuing (cid, logId))

end Issuing

end OmniSync
