import OmniSync.Data.Cached
import OmniSync.Data.Trace
import OmniSync.Imap.Parsing

/-!
# The connection of the IMAP client

The client keeps one authenticated connection and uses it for poll after poll. What a poll
returns is compared with `fetchMessages`, which knows nothing of connections: a poll that does not
raise returns the same messages, unless the search was refused. An email that cannot be read fails
a poll, too, but leaves the connection as it is.
-/

namespace OmniSync

open Cached

/-- What is asked of the server, once it is logged in to. -/
inductive ImapCommand where
  | select (folder : String)
  | search (since : Option Datetime)
  | fetch (msgId : Nat)
  deriving DecidableEq

/-- The answers: the `UIDVALIDITY`, if it can be read, the sequence numbers, unless the status is
not `OK`, and the bytes of an email, unless there are none in the answer. -/
def ImapCommand.Answer : ImapCommand → Type
  | select _ => Option String
  | search _ => Option (List Nat)
  | fetch _ => Option (List UInt8)

abbrev ImapPeer := Peer ImapCommand Exn ImapCommand.Answer

/-- Which errors are an `IMAP4.abort`, an `IMAP4.error` or an `OSError`, and which are an
`Exception` at all. -/
structure ImapLib where
  isImapError : Exn → Bool
  isException : Exn → Bool
  exceptions : ∀ e, isImapError e = true → isException e = true

namespace IMAPClient

/-- A login is always needed. -/
def policy (lib : ImapLib) : Policy Exn where
  logsIn := true
  caught := lib.isImapError
  suppressed := lib.isException

section Script

variable (lib : ImapLib) (mail : MailLib) (frames : Nat) (peer : ImapPeer)

def close : Script ImapCommand Exn Unit := safeQuit (policy lib) peer

/-- Fetch one message. What is no email is skipped. `server` has the host and the clock only. -/
def collectOne (server : MailServer (List UInt8)) (folder : String) (uidvalidity : Option String)
    (conn : Nat) (messages : List RawMessage) (msgId : Nat) :
    Script ImapCommand Exn (List RawMessage) := do
  match ← request peer conn (.fetch msgId) with
  | none => return messages
  | some rawEmail =>
      let raw ← MonadExcept.ofExcept (parseBytes mail frames
        { server with uidvalidity := uidvalidity } folder msgId rawEmail)
      return messages ++ [raw]

/-- The messages of a folder, on the connection that is kept or on a new one. -/
def readFolder (server : MailServer (List UInt8)) (folder : String) (since : Option Datetime)
    (limit : Nat) : Script ImapCommand Exn (List RawMessage) := do
  let conn ← ensure (policy lib) peer
  let uidvalidity ← request peer conn (.select folder)
  match ← request peer conn (.search since) with
  | none => return []
  | some msgIds =>
      (lastOf limit msgIds).foldlM (collectOne mail frames peer server folder uidvalidity conn) []

/-- A poll. The connection is dropped when it has failed. -/
def pollFolder (server : MailServer (List UInt8)) (folder : String) (since : Option Datetime)
    (limit : Nat) : Script ImapCommand Exn (List RawMessage) :=
  tryCatch (readFolder lib mail frames peer server folder since limit) (fun e =>
    if lib.isImapError e then do
      safeQuit (policy lib) peer
      throw e
    else throw e)

end Script

/-- The answers are those of the server, unless it refuses a search. -/
structure Serves (peer : ImapPeer) (server : MailServer (List UInt8)) : Prop where
  select : ∀ n folder, peer.answer n (.select folder) = server.uidvalidity
  search : ∀ n since, peer.answer n (.search since) = none ∨
    peer.answer n (.search since) = some (IMAPClient.search server since)
  fetch : ∀ n msgId, peer.answer n (.fetch msgId) =
    (IMAPClient.fetch server msgId).map Filed.email

end IMAPClient

/-- What happens to the client. The server may have changed since the poll before. -/
inductive ImapEvent where
  | poll (peer : ImapPeer) (server : MailServer (List UInt8)) (folder : String)
      (since : Option Datetime) (limit : Nat)
  | close (peer : ImapPeer)

/-- The event turns the client `s` into `t`. -/
def ImapEvent.Steps (lib : ImapLib) (mail : MailLib) (frames : Nat)
    (s : Client ImapCommand Exn) (event : ImapEvent) (t : Client ImapCommand Exn) : Prop :=
  match event with
  | poll peer server folder since limit => IMAPClient.Serves peer server ∧
      t = (ran (IMAPClient.pollFolder lib mail frames peer server folder since limit) s).2
  | close peer => t = (ran (IMAPClient.close lib peer) s).2

section Polling

variable {lib : ImapLib} {mail : MailLib} {frames : Nat} {peer : ImapPeer}
variable {server : MailServer (List UInt8)} {folder : String}
variable {since : Option Datetime} {limit conn : Nat} {s t : Client ImapCommand Exn}

open IMAPClient

theorem collect_ends (serves : Serves peer server) (msgIds : List Nat)
    (h : Sound (policy lib) s) (kept : s.cached = some conn) (messages : List RawMessage) :
    Ends (msgIds.foldlM (collectOne mail frames peer server folder server.uidvalidity conn) messages)
      (fun r t => Sound (policy lib) t ∧ t.cached = some conn ∧
        ∀ all, r = .ok all →
          msgIds.foldlM (collectEmail mail frames server folder) messages = .ok all) s := by
  induction msgIds generalizing s messages with
  | nil => exact ⟨h, kept, fun all value => value⟩
  | cons msgId msgIds ih =>
      rw [List.foldlM_cons, ends_bind]
      unfold collectOne
      rw [ends_bind]
      refine (request_ends h kept (.fetch msgId)).mono ?_
      rintro (e | answer) t ⟨sound, kept', o, -, returned, -⟩
      · exact ⟨sound, kept', fun _ impossible => (nomatch impossible)⟩
      · obtain ⟨-, n, rfl⟩ := returned answer rfl
        rw [andThen_ok, serves.fetch, List.foldlM_cons]
        have rest (messages : List RawMessage) := ih sound kept' messages
        unfold collectEmail
        cases IMAPClient.fetch server msgId with
        | none => exact rest messages
        | some m =>
            dsimp only [Option.map_some]
            rw [ends_bind, ends_ofExcept]
            cases parseBytes mail frames server folder msgId m.email with
            | error e => exact ⟨sound, kept', fun _ impossible => (nomatch impossible)⟩
            | ok raw => exact rest _

/-- What a poll that has returned has returned: what is made of the emails that the server holds, or
nothing because the search was refused. -/
def Fetched (mail : MailLib) (frames : Nat) (peer : ImapPeer) (server : MailServer (List UInt8))
    (folder : String) (since : Option Datetime) (limit : Nat) (messages : List RawMessage) : Prop :=
  IMAPClient.fetchMessages mail frames server folder since limit = .ok messages ∨
    messages = [] ∧ ∃ n, peer.answer n (.search since) = none

theorem readFolder_ends (serves : Serves peer server) (h : Sound (policy lib) s) :
    Ends (readFolder lib mail frames peer server folder since limit)
      (fun r t => Sound (policy lib) t ∧ ∀ messages, r = .ok messages →
        Fetched mail frames peer server folder since limit messages) s := by
  unfold readFolder
  rw [ends_bind]
  refine (ensure_ends h).mono ?_
  rintro (e | conn) t ⟨sound, -, kept⟩
  · exact ⟨sound, fun _ impossible => (nomatch impossible)⟩
  rw [andThen_ok, ends_bind]
  refine (request_ends sound (kept conn rfl) (.select folder)).mono ?_
  rintro (e | uidvalidity) t ⟨sound, kept, o, -, returned, -⟩
  · exact ⟨sound, fun _ impossible => (nomatch impossible)⟩
  obtain ⟨-, n, rfl⟩ := returned uidvalidity rfl
  rw [andThen_ok, ends_bind, serves.select]
  refine (request_ends sound kept (.search since)).mono ?_
  rintro (e | answer) t ⟨sound, kept, o, -, returned, -⟩
  · exact ⟨sound, fun _ impossible => (nomatch impossible)⟩
  obtain ⟨-, n, rfl⟩ := returned answer rfl
  rw [andThen_ok]
  rcases serves.search n since with refused | found
  · rw [refused]
    refine ⟨sound, fun messages value => .inr ⟨?_, n, refused⟩⟩
    cases value
    rfl
  · rw [found]
    refine (collect_ends serves _ sound kept []).mono ?_
    rintro r t ⟨sound, -, all⟩
    exact ⟨sound, fun messages value => .inl (all messages value)⟩

/-- A poll that fails by an error of the connection leaves none behind. -/
theorem pollFolder_ends (serves : Serves peer server) (h : Sound (policy lib) s) :
    Ends (pollFolder lib mail frames peer server folder since limit)
      (fun r t => Sound (policy lib) t ∧
        (∀ messages, r = .ok messages →
          Fetched mail frames peer server folder since limit messages) ∧
        ∀ e, r = .error e → lib.isImapError e = true → t.cached = none) s := by
  unfold pollFolder
  rw [ends_tryCatch]
  refine (readFolder_ends serves h).mono ?_
  rintro (e | messages) t ⟨sound, fetched⟩
  · rw [orElse_error]
    split
    · rw [ends_bind]
      refine (safeQuit_ends sound).mono ?_
      rintro (e' | u) t' ⟨sound', -, gone, surfaces⟩
      · refine ⟨sound', fun _ impossible => (nomatch impossible), fun e'' value caught => ?_⟩
        cases value
        exact absurd (lib.exceptions e' caught) (Bool.eq_false_iff.mp (surfaces e' rfl))
      · exact ⟨sound', fun _ impossible => (nomatch impossible), fun _ _ _ => gone u rfl⟩
    · next other =>
        refine ⟨sound, fun _ impossible => (nomatch impossible), fun e' value caught => ?_⟩
        cases value
        exact absurd caught other
  · exact ⟨sound, fetched, fun _ impossible => (nomatch impossible)⟩

theorem collect_returns (serves : Serves peer server) (flawless : peer.Flawless)
    (uidvalidity : Option String) (msgIds : List Nat)
    (readable : ∀ msgId ∈ msgIds, ∀ m, IMAPClient.fetch server msgId = some m →
      ReadableBytes mail frames m.email) (messages : List RawMessage) :
    Ends (msgIds.foldlM (collectOne mail frames peer server folder uidvalidity conn) messages)
      (fun r _ => ∃ all, r = .ok all) s := by
  induction msgIds generalizing s messages with
  | nil => exact ⟨messages, rfl⟩
  | cons msgId msgIds ih =>
      obtain ⟨here, rest⟩ := List.forall_mem_cons.mp readable
      rw [List.foldlM_cons, ends_bind]
      unfold collectOne
      rw [ends_bind]
      refine (flawless.request_ends conn (.fetch msgId)).mono ?_
      rintro r t ⟨⟨n, rfl⟩, -⟩
      rw [andThen_ok, serves.fetch]
      cases delivered : IMAPClient.fetch server msgId with
      | none => exact ih rest messages
      | some m =>
          obtain ⟨letter, found⟩ := letterIn_of_readable (here m delivered)
          dsimp only [Option.map_some]
          rw [ends_bind, ends_ofExcept, parseBytes_eq, found]
          exact ih rest _

/-- A poll returns if nothing fails and each email that it reaches can be read. -/
theorem pollFolder_returns (serves : Serves peer server) (flawless : peer.Flawless)
    (readable : server.Readable mail frames since limit) :
    Ends (pollFolder lib mail frames peer server folder since limit)
      (fun r _ => ∃ messages, r = .ok messages) s := by
  unfold pollFolder
  rw [ends_tryCatch]
  have returns : Ends (readFolder lib mail frames peer server folder since limit)
      (fun r _ => ∃ messages, r = .ok messages) s := by
    unfold readFolder
    rw [ends_bind]
    refine flawless.ensure_ends.mono ?_
    rintro r t ⟨conn, rfl, -⟩
    rw [andThen_ok, ends_bind]
    refine (flawless.request_ends conn (.select folder)).mono ?_
    rintro r t ⟨⟨n, rfl⟩, -⟩
    rw [andThen_ok, ends_bind]
    refine (flawless.request_ends conn (.search since)).mono ?_
    rintro r t ⟨⟨n, rfl⟩, -⟩
    rw [andThen_ok]
    rcases serves.search n since with refused | found
    · rw [refused]
      exact ⟨[], rfl⟩
    · rw [found]
      exact collect_returns serves flawless _ _ readable _
  refine returns.mono ?_
  rintro r t ⟨messages, rfl⟩
  exact ⟨messages, rfl⟩

theorem ImapEvent.Steps.sound (h : Sound (policy lib) s) {event : ImapEvent}
    (step : ImapEvent.Steps lib mail frames s event t) : Sound (policy lib) t := by
  cases event with
  | poll peer server folder since limit =>
      rw [step.2]
      exact (pollFolder_ends step.1 h).1
  | close peer =>
      rw [show t = _ from step]
      exact (safeQuit_ends h).1

/-- However the server behaves, and however often connections fail: commands are sent only on
connections that were connected, logged in and not quit, and a connection is left open without
being kept only when its login has failed. A poll that returns has returned what is made of the
emails that the server holds, or nothing because its search was refused, and it returns when
nothing fails and the emails can be read. A poll that fails by an error of the connection leaves
none behind. -/
theorem mailbox_polls {steps : List (Taken (Client ImapCommand Exn) ImapEvent)}
    (run : Trace (ImapEvent.Steps lib mail frames) {} steps t) :
    (∀ before call, before ++ [call] <+: t.calls → ∀ command, call.act = .request command →
      Ready (policy lib) before call.line) ∧
    (∀ line, ⟨line, .connect, none⟩ ∈ t.calls → t.cached = some line ∨
      (∃ raised, ⟨line, .quit, raised⟩ ∈ t.calls) ∨ ∃ e, ⟨line, .login, some e⟩ ∈ t.calls) ∧
    ∀ x ∈ steps, ∀ peer server folder since limit, x.label = .poll peer server folder since limit →
      (∀ messages, (ran (pollFolder lib mail frames peer server folder since limit) x.before).1 =
        .ok messages → Fetched mail frames peer server folder since limit messages) ∧
      (peer.Flawless → server.Readable mail frames since limit → ∃ messages,
        (ran (pollFolder lib mail frames peer server folder since limit) x.before).1 =
          .ok messages) ∧
      ∀ e, (ran (pollFolder lib mail frames peer server folder since limit) x.before).1 =
        .error e → lib.isImapError e = true → x.after.cached = none := by
  have sound : Sound (policy lib) t :=
    run.invariant sound_empty (fun kept step => ImapEvent.Steps.sound kept step)
  refine ⟨sound.requests, sound.accounted, run.forall_taken sound_empty
    (fun kept step => ImapEvent.Steps.sound kept step) ?_⟩
  rintro s event t kept step peer server folder since limit rfl
  rw [step.2]
  obtain ⟨-, fetched, gone⟩ :
      Ends (pollFolder lib mail frames peer server folder since limit) _ s :=
    pollFolder_ends step.1 kept
  exact ⟨fetched, fun flawless readable => pollFolder_returns step.1 flawless readable, gone⟩

end Polling

section Example

def imapLib : ImapLib where
  isImapError e := e.kind == "abort"
  isException e := e.kind != "CancelledError"
  exceptions e h := by
    rw [beq_iff_eq] at h
    rw [h]
    rfl

/-- The server drops the connection at the first fetch, and the second poll needs another one. -/
def droppingServer : ImapPeer where
  raises n := if n = 4 then some ⟨"abort", "socket error: EOF"⟩ else none
  healthy _ := true
  answer _ command :=
    match command with
    | .select _ => (greetingServer "us-ascii").uidvalidity
    | .search since => some (IMAPClient.search (greetingServer "us-ascii") since)
    | .fetch msgId => (IMAPClient.fetch (greetingServer "us-ascii") msgId).map Filed.email

theorem droppingServer_serves :
    IMAPClient.Serves droppingServer (greetingServer "us-ascii") :=
  ⟨fun _ _ => rfl, fun _ _ => .inr rfl, fun _ _ => rfl⟩

def inboxPoll : ImapEvent := .poll droppingServer (greetingServer "us-ascii") "INBOX" none 100

/-- The client after a poll. -/
def polled (s : Client ImapCommand Exn) : Client ImapCommand Exn :=
  (ran (IMAPClient.pollFolder imapLib asciiLib 1000 droppingServer (greetingServer "us-ascii")
    "INBOX" none 100) s).2

theorem inbox_run : Trace (ImapEvent.Steps imapLib asciiLib 1000) {}
    [⟨{}, inboxPoll, polled {}⟩, ⟨polled {}, inboxPoll, polled (polled {})⟩]
    (polled (polled {})) := by
  have first : Trace (ImapEvent.Steps imapLib asciiLib 1000) {} [⟨{}, inboxPoll, polled {}⟩]
      (polled {}) := .concat .nil ⟨droppingServer_serves, rfl⟩
  exact .concat first ⟨droppingServer_serves, rfl⟩

/-- The first poll fails and leaves no connection; the second one opens another. -/
theorem mailbox_polls_dropped : (polled {}).cached = none ∧ (polled (polled {})).cached = some 1 ∧
    ∀ line, ⟨line, .connect, none⟩ ∈ (polled (polled {})).calls →
      (polled (polled {})).cached = some line ∨
        (∃ raised, ⟨line, .quit, raised⟩ ∈ (polled (polled {})).calls) ∨
          ∃ e, ⟨line, .login, some e⟩ ∈ (polled (polled {})).calls := by
  have polls := mailbox_polls inbox_run
  have first := (polls.2.2 _ List.mem_cons_self _ _ _ _ _ rfl).2.2
  exact ⟨first _ (by rfl) rfl, by decide +kernel, polls.2.1⟩

end Example

end OmniSync
