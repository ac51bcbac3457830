import OmniSync.Integrations.Sync

/-!
# The registered Celery tasks

The tasks that the worker knows by name. `connector` is the source whose generic sync the
body of a task runs, where it does.
-/

namespace OmniSync

structure CeleryTask where
  name : String
  connector : Option String := none
  deriving DecidableEq, Repr

def registeredTasks : List CeleryTask :=
  [{ name := "src.github.tasks.sync_github_commits" },
    { name := "src.github.tasks.sync_github_pull_requests" },
    { name := "src.telegram.tasks.sync_telegram_messages" },
    { name := "src.raw_payloads.tasks.cleanup_old_payloads" },
    { name := "src.imap.tasks.sync_imap_messages" },
    { name := "src.outbox.tasks.publish_outbox" },
    { name := "src.filestore.tasks.sync_filestore", connector := some "filestore" },
    { name := "src.jira.tasks.sync_jira", connector := some "jira" },
    { name := "src.dlq.tasks.retry_failed_events" }]

/-- The body of `sync_jira`. -/
def syncJira (rt : Runtime) (settings : Settings) (JIRA_BASE_URL : String) : Tx Nat :=
  if JIRA_BASE_URL = "" then pure 0 else runConnectorSync rt settings "jira" none

/-- The body of `sync_filestore`. -/
def syncFilestore (rt : Runtime) (settings : Settings) (FILESTORE_BUCKET : String) : Tx Nat :=
  if FILESTORE_BUCKET = "" then pure 0 else runConnectorSync rt settings "filestore" none

end OmniSync
