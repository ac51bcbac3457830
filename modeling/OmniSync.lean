import OmniSync.Data.Table
import OmniSync.Data.Code
import OmniSync.Data.Joined
import OmniSync.Data.Outcome
import OmniSync.Data.Selection
import OmniSync.Data.Forall2
import OmniSync.Data.Destutter
import OmniSync.Data.Drain
import OmniSync.Data.Retry
import OmniSync.Data.Digits
import OmniSync.Data.Decimal
import OmniSync.Data.Text
import OmniSync.Data.Utf8
import OmniSync.Data.Base64
import OmniSync.Data.Calendar
import OmniSync.Data.LastWrite
import OmniSync.Data.Keyset
import OmniSync.Data.Versioned
import OmniSync.Data.Trace
import OmniSync.Data.Cached
import OmniSync.Txn.Program
import OmniSync.Txn.Cluster
import OmniSync.Txn.Verification
import OmniSync.Txn.Interference
import OmniSync.Txn.Steps
import OmniSync.Txn.History
import OmniSync.Txn.Paths
import OmniSync.Txn.Answered
import OmniSync.Txn.Publishes
import OmniSync.Txn.Noted
import OmniSync.Txn.Commits
import OmniSync.Txn.Parts
import OmniSync.Schema
import OmniSync.Integrations.Schemas
import OmniSync.Integrations.Latest
import OmniSync.Database
import OmniSync.Database.Frame
import OmniSync.Database.Verification
import OmniSync.Database.Footprint
import OmniSync.Database.Content
import OmniSync.Database.Pending
import OmniSync.Outbox.Service
import OmniSync.Events.Service
import OmniSync.Events.Upsert
import OmniSync.Events.Parts
import OmniSync.Events.Transaction
import OmniSync.Events.Serial
import OmniSync.Events.History
import OmniSync.Events.Concurrent
import OmniSync.Events.Versions
import OmniSync.Events.Changes
import OmniSync.Events.Contracts
import OmniSync.Events.OneByOne
import OmniSync.Events.Cells
import OmniSync.Events.Listing
import OmniSync.Events.Parameters
import OmniSync.Outbox.Replay
import OmniSync.Agent.Router
import OmniSync.Agent.Feed
import OmniSync.Agent.Paging
import OmniSync.Search.Vector
import OmniSync.Auth.Service
import OmniSync.Auth.Router
import OmniSync.Auth.Revocation
import OmniSync.Auth.Sessions
import OmniSync.Outbox.Tasks
import OmniSync.Outbox.Verification
import OmniSync.Outbox.Publication
import OmniSync.Outbox.Drain
import OmniSync.Outbox.Workers
import OmniSync.SyncLogs.Service
import OmniSync.SyncLogs.Runs
import OmniSync.Webhooks.Service
import OmniSync.SyncLogs.Requests
import OmniSync.SyncState.Service
import OmniSync.RawPayloads.Service
import OmniSync.RawPayloads.Canonical
import OmniSync.RawPayloads.Columns
import OmniSync.RawPayloads.Storage
import OmniSync.RawPayloads.Saving
import OmniSync.RawPayloads.Content
import OmniSync.RawPayloads.Tasks
import OmniSync.Dlq.Service
import OmniSync.Dlq.Tasks
import OmniSync.Dlq.Router
import OmniSync.Dlq.Verification
import OmniSync.Dlq.Queue
import OmniSync.Dlq.Workers
import OmniSync.Dlq.Concurrent
import OmniSync.Dlq.Spacing
import OmniSync.Dlq.Runs
import OmniSync.Dlq.Budget
import OmniSync.Integrations.Sync
import OmniSync.CeleryApp
import OmniSync.Integrations.Verification
import OmniSync.Integrations.Batch
import OmniSync.Integrations.Atomic
import OmniSync.Integrations.DeadLetter
import OmniSync.Imap.Service
import OmniSync.Imap.Tasks
import OmniSync.Imap.Polling
import OmniSync.Integrations.Watermark
import OmniSync.RawPayloads.Retention
import OmniSync.Filestore.Service
import OmniSync.Filestore.Sync
import OmniSync.Imap.Delivery
import OmniSync.Imap.Identity
import OmniSync.Imap.Router
import OmniSync.Imap.Smtp
import OmniSync.Imap.Connection
import OmniSync.Jira.Service
import OmniSync.Jira.Paging
import OmniSync.Github.Service
import OmniSync.Github.Parsing
import OmniSync.Github.Tasks
import OmniSync.Github.Router
import OmniSync.Github.Polling
import OmniSync.Github.Ingestion
import OmniSync.Github.Webhook
import OmniSync.Github.Lineage
import OmniSync.Github.Delivery
import OmniSync.Github.Summaries
import OmniSync.Github.PullRequests
import OmniSync.Telegram.Service
import OmniSync.Telegram.Tasks
import OmniSync.Telegram.Polling
import OmniSync.Integrations.Identity
import OmniSync.Telegram.Delivery
import OmniSync.Telegram.Router
import OmniSync.Telegram.Agreement
import OmniSync.Telegram.Chats
import OmniSync.Imap.Message
import OmniSync.Imap.Parsing
import OmniSync.Jira.Connector
import OmniSync.Jira.Normalization
import OmniSync.Integrations.Parsing
import OmniSync.Integrations.Items
import OmniSync.Integrations.Columns
import OmniSync.Integrations.Timestamps
import OmniSync.Integrations.Http
import OmniSync.Integrations.Polls
import OmniSync.Dlq.Settled
import OmniSync.Integrations.Retries
import OmniSync.Integrations.Correlation
import OmniSync.Webhooks.Requests
import OmniSync.Webhooks.Deduplication
import OmniSync.Integrations.Requests
import OmniSync.Integrations.Operations
import OmniSync.Integrations.Feed
import OmniSync.Integrations.History
import OmniSync.Integrations.Retelling
import OmniSync.Integrations.Isolation
import OmniSync.Search.Results
import OmniSync.Agent.Replica
import OmniSync.Github.Trimming
import OmniSync.Pagination.Loads
import OmniSync.Pagination.Cursor
import OmniSync.Agent.Reconnect
