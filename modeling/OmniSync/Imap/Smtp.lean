import OmniSync.Data.Cached
import OmniSync.Data.Trace
import OmniSync.Schema

/-!
# Outgoing mail

One connection to the relay is shared by all messages. A message is handed over once more, on a
new connection if need be, when the relay has failed the first time. Calls to the relay are
serialized, so a run is a sequence of requests; the relay answers as it likes.
-/

namespace OmniSync

open Cached

structure EmailMessage where
  fromHeader : String
  toHeader : String
  subject : String
  content : String
  deriving DecidableEq

structure SmtpSettings where
  SMTP_HOST : String := ""
  SMTP_USERNAME : String := ""
  SMTP_FROM : String := ""

structure SendEmailRequest where
  toAddrs : List String
  subject : String
  body : String
  fromAddr : Option String := none

structure SentResponse where
  status : String
  recipients : Nat
  deriving DecidableEq

/-- What the code uses of its libraries: an error is an `SMTPException` or an `OSError`, an error
is an `Exception` at all, and a text can be the value of the header with a name. -/
structure SmtpLib where
  isRelayError : Exn → Bool
  isException : Exn → Bool
  checkHeader : String → String → Except Exn Unit

/-- The relay: the errors that the calls raise. -/
structure Relay where
  raises : Nat → Option Exn

/-- A probe that raises no error is good enough, and nothing is answered to a message. -/
def Relay.peer (relay : Relay) : Peer EmailMessage Exn (fun _ => Unit) where
  raises := relay.raises
  healthy _ := true
  answer _ _ := ()

namespace SMTPConnection

variable (lib : SmtpLib) (settings : SmtpSettings) (relay : Relay)

def policy : Policy Exn where
  logsIn := decide (settings.SMTP_USERNAME ≠ "")
  caught := lib.isRelayError
  suppressed := lib.isException

def close : Script EmailMessage Exn Unit := safeQuit (policy lib settings) relay.peer

/-- Hand a message over on the connection that is kept, or on a new one. -/
def handOver (message : EmailMessage) : Script EmailMessage Exn Unit := do
  let client ← ensure (policy lib settings) relay.peer
  request relay.peer client message

def sendMessage (message : EmailMessage) : Script EmailMessage Exn Unit :=
  tryCatch (handOver lib settings relay message) (fun e =>
    if lib.isRelayError e then do
      safeQuit (policy lib settings) relay.peer
      handOver lib settings relay message
    else throw e)

end SMTPConnection

/-- `from_addr or settings.SMTP_FROM or settings.SMTP_USERNAME`. -/
def senderOf (settings : SmtpSettings) (fromAddr : Option String) : String :=
  if fromAddr.getD "" ≠ "" then fromAddr.getD ""
  else if settings.SMTP_FROM ≠ "" then settings.SMTP_FROM
  else settings.SMTP_USERNAME

/-- The message of a request. -/
def SendEmailRequest.message (settings : SmtpSettings) (payload : SendEmailRequest) :
    EmailMessage where
  fromHeader := senderOf settings payload.fromAddr
  toHeader := ", ".intercalate payload.toAddrs
  subject := payload.subject
  content := payload.body

def smtpNotConfigured (detail : String) : Exn := ⟨"SMTPNotConfiguredError", detail⟩

/-- What is checked of a request before the relay is called. -/
def checkEmail (lib : SmtpLib) (settings : SmtpSettings) (payload : SendEmailRequest) :
    Except Exn Unit := do
  if settings.SMTP_HOST = "" then
    throw (smtpNotConfigured "SMTP_HOST is not configured")
  let message := payload.message settings
  if message.fromHeader = "" then
    throw (smtpNotConfigured "No sender address configured (SMTP_FROM)")
  lib.checkHeader "From" message.fromHeader
  lib.checkHeader "To" message.toHeader
  lib.checkHeader "Subject" message.subject

def sendEmail (lib : SmtpLib) (settings : SmtpSettings) (relay : Relay)
    (payload : SendEmailRequest) : Script EmailMessage Exn Unit :=
  match checkEmail lib settings payload with
  | .error e => throw e
  | .ok () => SMTPConnection.sendMessage lib settings relay (payload.message settings)

/-- The endpoint. -/
def sendMail (lib : SmtpLib) (settings : SmtpSettings) (relay : Relay)
    (payload : SendEmailRequest) : Script EmailMessage Exn SentResponse := do
  tryCatch (sendEmail lib settings relay payload) (fun e =>
    if e.kind = "SMTPNotConfiguredError" then throw ⟨"HTTPException", "503: " ++ e.message⟩
    else throw e)
  return ⟨"sent", payload.toAddrs.length⟩

/-- What happens to the shared connection. -/
inductive SmtpEvent where
  | sendMail (payload : SendEmailRequest)
  | close

/-- The event turns the connection `s` into `t`. -/
def SmtpEvent.Steps (lib : SmtpLib) (settings : SmtpSettings) (relay : Relay)
    (s : Client EmailMessage Exn) (event : SmtpEvent) (t : Client EmailMessage Exn) : Prop :=
  match event with
  | sendMail payload => t = (ran (OmniSync.sendMail lib settings relay payload) s).2
  | close => t = (ran (SMTPConnection.close lib settings relay) s).2

section Sending

variable {lib : SmtpLib} {settings : SmtpSettings} {relay : Relay}
variable {s t : Client EmailMessage Exn}

open SMTPConnection

/-- How the attempts to hand a message over have gone: each with the error that it has raised, if
any. A second one follows an error of the relay, and the outcome is that of the last one. -/
structure Handovers {α : Type} (lib : SmtpLib) (r : Except Exn α) (attempts : List (Option Exn)) :
    Prop where
  few : attempts.length ≤ 2
  failed : ∀ o ∈ attempts.dropLast, ∃ e, o = some e ∧ lib.isRelayError e = true
  last : (∃ a, r = .ok a) ↔ attempts.getLast? = some none

/-- A hand-over makes at most one request. -/
theorem handOver_ends (h : Sound (policy lib settings) s) (message : EmailMessage) :
    Ends (handOver lib settings relay message) (fun r t => Sound (policy lib settings) t ∧
      ((requestsOf t.calls = requestsOf s.calls ∧ ∃ e, r = .error e) ∨
        ∃ o, requestsOf t.calls = requestsOf s.calls ++ [(message, o)] ∧ r = outcome o)) s := by
  unfold handOver
  rw [ends_bind]
  refine (ensure_ends h).mono ?_
  rintro (e | client) t ⟨sound, same, kept⟩
  · exact ⟨sound, .inl ⟨same, e, rfl⟩⟩
  · rw [andThen_ok]
    refine (request_ends sound (kept client rfl) message).mono ?_
    rintro (e | u) t' ⟨sound', -, o, asked, returned, raised⟩
    · exact ⟨sound', .inr ⟨o, same ▸ asked, raised e rfl ▸ rfl⟩⟩
    · exact ⟨sound', .inr ⟨o, same ▸ asked, (returned u rfl).1 ▸ rfl⟩⟩

/-- No attempt has been made, or a single one. -/
theorem handovers_once {first : List (Option Exn)} {r : Except Exn Unit}
    (few : first = [] ∨ ∃ e, first = [some e] ∧ lib.isRelayError e = true) :
    (∀ e, r = .error e → Handovers lib r first) ∧
      ∀ o, r = outcome o → Handovers lib r (first ++ [o]) := by
  constructor
  · rintro e rfl
    rcases few with rfl | ⟨e', rfl, -⟩
    · exact ⟨by simp, by simp, by simp⟩
    · exact ⟨by simp, by simp, by simp⟩
  · rintro o rfl
    refine ⟨?_, ?_, ?_⟩
    · rcases few with rfl | ⟨e', rfl, -⟩ <;> simp
    · rw [List.dropLast_concat]
      rcases few with rfl | ⟨e', rfl, caught⟩
      · simp
      · exact fun o ho => ⟨e', List.mem_singleton.mp ho, caught⟩
    · rw [List.getLast?_concat]
      cases o <;> simp [outcome]

/-- The attempts of one message. -/
theorem sendMessage_ends (h : Sound (policy lib settings) s) (message : EmailMessage) :
    Ends (sendMessage lib settings relay message) (fun r t => Sound (policy lib settings) t ∧
      ∃ attempts, requestsOf t.calls = requestsOf s.calls ++ attempts.map (Prod.mk message) ∧
        Handovers lib r attempts) s := by
  unfold sendMessage
  rw [ends_tryCatch]
  refine (handOver_ends h message).mono ?_
  rintro r t ⟨sound, first⟩
  -- The attempt again, on a new connection.
  have again : ∀ first, requestsOf t.calls = requestsOf s.calls ++ first.map (Prod.mk message) →
      (first = [] ∨ ∃ e, first = [some e] ∧ lib.isRelayError e = true) →
      Ends (safeQuit (policy lib settings) relay.peer >>= fun _ =>
          handOver lib settings relay message)
        (fun r t => Sound (policy lib settings) t ∧ ∃ attempts,
          requestsOf t.calls = requestsOf s.calls ++ attempts.map (Prod.mk message) ∧
            Handovers lib r attempts) t := by
    intro first made few
    rw [ends_bind]
    refine (safeQuit_ends sound).mono ?_
    rintro (e | u) t' ⟨sound', same, -⟩
    · exact ⟨sound', first, same.trans made, (handovers_once few).1 e rfl⟩
    · rw [andThen_ok]
      refine (handOver_ends sound' message).mono ?_
      rintro r t'' ⟨sound'', ⟨same', e, raised⟩ | ⟨o, asked, ends⟩⟩
      · exact ⟨sound'', first, same'.trans (same.trans made), (handovers_once few).1 e raised⟩
      · refine ⟨sound'', first ++ [o], ?_, (handovers_once few).2 o ends⟩
        rw [asked, same, made, List.append_assoc, List.map_append]
        rfl
  cases r with
  | ok u =>
      rcases first with ⟨-, e, impossible⟩ | ⟨o, asked, ends⟩
      · cases impossible
      · exact ⟨sound, [o], asked, (handovers_once (.inl rfl)).2 o ends⟩
  | error e =>
      rw [orElse_error]
      rcases first with ⟨same, -⟩ | ⟨o, asked, ends⟩
      · split
        · exact again [] (by rw [same, List.map_nil, List.append_nil]) (.inl rfl)
        · rw [ends_throw]
          exact ⟨sound, [], by rw [same, List.map_nil, List.append_nil],
            (handovers_once (.inl rfl)).1 e rfl⟩
      · obtain rfl : o = some e := by
          cases o with
          | none => cases ends
          | some e' => exact congrArg some (Except.error.inj ends).symm
        split
        · next caught => exact again [some e] asked (.inr ⟨e, rfl, caught⟩)
        · exact ⟨sound, [some e], asked, (handovers_once (.inl rfl)).2 (some e) rfl⟩

/-- A request that is refused makes no attempt. -/
theorem sendMail_ends (h : Sound (policy lib settings) s) (payload : SendEmailRequest) :
    Ends (sendMail lib settings relay payload) (fun r t => Sound (policy lib settings) t ∧
      ∃ attempts, requestsOf t.calls =
          requestsOf s.calls ++ attempts.map (Prod.mk (payload.message settings)) ∧
        Handovers lib r attempts ∧
          (checkEmail lib settings payload ≠ .ok () → attempts = [])) s := by
  have sent : Ends (sendEmail lib settings relay payload) (fun r t =>
      Sound (policy lib settings) t ∧ ∃ attempts, requestsOf t.calls =
          requestsOf s.calls ++ attempts.map (Prod.mk (payload.message settings)) ∧
        Handovers lib r attempts ∧
          (checkEmail lib settings payload ≠ .ok () → attempts = [])) s := by
    unfold sendEmail
    cases checked : checkEmail lib settings payload with
    | error e =>
        dsimp only
        rw [ends_throw]
        exact ⟨h, [], by rw [List.map_nil, List.append_nil],
          (handovers_once (.inl rfl)).1 e rfl, fun _ => rfl⟩
    | ok u =>
        refine (sendMessage_ends h _).mono ?_
        rintro r t ⟨sound, attempts, made, attempted⟩
        exact ⟨sound, attempts, made, attempted, fun refused => absurd rfl refused⟩
  unfold sendMail
  rw [ends_bind, ends_tryCatch]
  refine sent.mono ?_
  rintro (e | u) t ⟨sound, attempts, made, attempted, refused⟩
  · have raises : ∀ e', Handovers lib (Except.error e' : Except Exn SentResponse) attempts :=
      fun e' => ⟨attempted.few, attempted.failed, by simpa using attempted.last⟩
    rw [orElse_error]
    split
    · exact ⟨sound, attempts, made, raises _, refused⟩
    · exact ⟨sound, attempts, made, raises _, refused⟩
  · exact ⟨sound, attempts, made, ⟨attempted.few, attempted.failed,
      ⟨fun _ => attempted.last.mp ⟨u, rfl⟩, fun _ => ⟨_, rfl⟩⟩⟩, refused⟩

theorem SmtpEvent.Steps.sound (h : Sound (policy lib settings) s) {event : SmtpEvent}
    (step : SmtpEvent.Steps lib settings relay s event t) : Sound (policy lib settings) t := by
  cases event with
  | sendMail payload =>
      rw [show t = _ from step]
      exact (sendMail_ends h payload).1
  | close =>
      rw [show t = _ from step]
      exact (safeQuit_ends h).1

/-- However the relay behaves: mail is handed over only on connections that were connected, logged
in if there is a user name, and not quit; and a connection is left open without being kept only
when its login has failed. A quit that raised an error which is not suppressed (no `Exception`, such
as a cancellation) leaves its connection in use. -/
theorem mail_sessions_sound {steps : List (Taken (Client EmailMessage Exn) SmtpEvent)}
    (run : Trace (SmtpEvent.Steps lib settings relay) {} steps t) :
    (∀ before call, before ++ [call] <+: t.calls → ∀ message, call.act = .request message →
      Ready (policy lib settings) before call.line) ∧
      ∀ line, ⟨line, .connect, none⟩ ∈ t.calls → t.cached = some line ∨
        (∃ raised, ⟨line, .quit, raised⟩ ∈ t.calls) ∨ ∃ e, ⟨line, .login, some e⟩ ∈ t.calls := by
  have sound : Sound (policy lib settings) t :=
    run.invariant sound_empty (fun kept step => step.sound kept)
  exact ⟨sound.requests, sound.accounted⟩

/-- However the relay behaves: a request hands its own message over at most twice, the second time
only after an error of the relay. It succeeds if and only if the relay has taken the last one, so a
message is never handed over again once it has been taken. To be taken is that the call returns: a
message that the relay accepts, but whose reply is lost, is handed over again. -/
theorem mail_handed_over {steps : List (Taken (Client EmailMessage Exn) SmtpEvent)}
    (run : Trace (SmtpEvent.Steps lib settings relay) {} steps t) :
    ∀ x ∈ steps, ∀ payload, x.label = .sendMail payload →
      ∃ attempts, requestsOf x.after.calls =
          requestsOf x.before.calls ++ attempts.map (Prod.mk (payload.message settings)) ∧
        Handovers lib (ran (sendMail lib settings relay payload) x.before).1 attempts ∧
          (checkEmail lib settings payload ≠ .ok () → attempts = []) := by
  refine run.forall_taken sound_empty (fun kept step => step.sound kept) ?_
  rintro s event t kept step payload rfl
  rw [show t = _ from step]
  exact (sendMail_ends kept payload).2

/-- In the step the message is handed over on a connection, and it is taken. Nothing else is handed
over. -/
def HandsOver (x : Taken (Client EmailMessage Exn) SmtpEvent) (message : EmailMessage)
    (line : Nat) : Prop :=
  ∃ new, x.after.calls = x.before.calls ++ (new ++ [⟨line, .request message, none⟩]) ∧
    requestsOf new = []

/-- A relay that does not fail takes the message. -/
theorem handOver_flawless (flawless : relay.peer.Flawless) (message : EmailMessage) :
    Ends (handOver lib settings relay message) (fun r t => r = .ok () ∧ ∃ line, s.Uses line t ∧
      ∃ new, t.calls = s.calls ++ (new ++ [⟨line, .request message, none⟩]) ∧
        requestsOf new = []) s := by
  unfold handOver
  rw [ends_bind]
  refine flawless.ensure_ends.mono ?_
  rintro r t ⟨line, rfl, uses, new, calls, silent⟩
  rw [andThen_ok]
  refine (flawless.request_ends line message).mono ?_
  rintro r t' ⟨⟨a, rfl⟩, rfl⟩
  refine ⟨rfl, line, ⟨uses.kept, uses.opened⟩, new, ?_, silent⟩
  rw [← List.append_assoc, ← calls]
  rfl

/-- A request is refused, and nothing is called, or its message is handed over. -/
theorem sendMail_flawless (flawless : relay.peer.Flawless) (payload : SendEmailRequest) :
    Ends (sendMail lib settings relay payload) (fun r t =>
      (checkEmail lib settings payload ≠ .ok () ∧ t = s) ∨
        (checkEmail lib settings payload = .ok () ∧ r = .ok ⟨"sent", payload.toAddrs.length⟩ ∧
          ∃ line, s.Uses line t ∧
            HandsOver ⟨s, .sendMail payload, t⟩ (payload.message settings) line)) s := by
  unfold sendMail sendEmail
  rw [ends_bind, ends_tryCatch]
  cases checked : checkEmail lib settings payload with
  | error e =>
      dsimp only
      rw [ends_throw, orElse_error]
      split
      · exact .inl ⟨fun impossible => (nomatch impossible), rfl⟩
      · exact .inl ⟨fun impossible => (nomatch impossible), rfl⟩
  | ok u =>
      dsimp only
      unfold sendMessage
      rw [ends_tryCatch]
      refine (handOver_flawless flawless _).mono ?_
      rintro r t ⟨rfl, line, uses, handed⟩
      exact .inr ⟨rfl, rfl, line, uses, handed⟩

/-- The connection is closed in the step. -/
def SmtpEvent.isClose : SmtpEvent → Bool
  | sendMail _ => false
  | close => true

/-- What a step does when the relay does not fail: it hands a message over, or it makes no
hand-over and the connection is as it was, or closed. -/
theorem SmtpEvent.Steps.cases (flawless : relay.peer.Flawless) {event : SmtpEvent}
    (step : SmtpEvent.Steps lib settings relay s event t) :
    (event.isClose = false ∧ ∃ message line, s.Uses line t ∧
      HandsOver ⟨s, event, t⟩ message line) ∨
      requestsOf t.calls = requestsOf s.calls ∧ t.opened = s.opened ∧
        t.cached = if event.isClose then none else s.cached := by
  cases event with
  | sendMail payload =>
      rw [show t = _ from step]
      rcases sendMail_flawless flawless payload with ⟨-, same⟩ | ⟨-, -, line, uses, handed⟩
      · rw [same]
        exact .inr ⟨rfl, rfl, rfl⟩
      · exact .inl ⟨rfl, _, line, uses, handed⟩
  | close =>
      rw [show t = _ from step]
      obtain ⟨-, gone, opened, silent⟩ :
          Ends (SMTPConnection.close lib settings relay) _ s := flawless.safeQuit_ends
      exact .inr ⟨silent, opened, gone⟩

/-- A step that hands a message over uses its connection. -/
theorem HandsOver.uses (flawless : relay.peer.Flawless)
    {x : Taken (Client EmailMessage Exn) SmtpEvent} {message : EmailMessage} {line : Nat}
    (h : HandsOver x message line)
    (step : SmtpEvent.Steps lib settings relay x.before x.label x.after) :
    x.label.isClose = false ∧ x.before.Uses line x.after := by
  obtain ⟨new, calls, -⟩ := h
  rcases step.cases flawless with ⟨sends, message', line', uses, new', calls', -⟩ | ⟨silent, -, -⟩
  · have same := List.append_cancel_left (calls.symm.trans calls')
    obtain ⟨-, last⟩ := List.append_inj' same rfl
    cases List.singleton_inj.mp last
    exact ⟨sends, uses⟩
  · rw [calls, requestsOf_append, requestsOf_append, List.append_right_eq_self] at silent
    exact absurd silent (List.append_ne_nil_of_right_ne_nil _ (List.cons_ne_nil _ _))

/-- A connection is opened only when none is kept, and only a close gives up the one that is. -/
theorem SmtpEvent.Steps.opened (flawless : relay.peer.Flawless) {event : SmtpEvent}
    (step : SmtpEvent.Steps lib settings relay s event t) :
    t.opened + s.cached.isSome.toNat ≤
      s.opened + t.cached.isSome.toNat + event.isClose.toNat := by
  rcases step.cases flawless with ⟨sends, _, line, uses, -⟩ | ⟨-, opened, cached⟩
  · rw [uses.kept]
    rcases uses.opened with ⟨before, opened⟩ | ⟨before, -, opened⟩
    · rw [before, opened]
      exact Nat.le_add_right _ _
    · rw [before, opened]
      exact Nat.le_add_right _ _
  · rw [opened, cached]
    cases event.isClose with
    | false => exact Nat.le_add_right _ _
    | true =>
        rw [Nat.add_assoc]
        exact Nat.add_le_add_left ((Bool.toNat_le _).trans (Nat.le_add_left _ _)) _

/-- Connections are never taken back. -/
theorem SmtpEvent.Steps.opened_le (flawless : relay.peer.Flawless) {event : SmtpEvent}
    (step : SmtpEvent.Steps lib settings relay s event t) : s.opened ≤ t.opened := by
  rcases step.cases flawless with ⟨-, _, line, uses, -⟩ | ⟨-, opened, -⟩
  · rcases uses.opened with ⟨-, opened⟩ | ⟨-, -, opened⟩ <;> omega
  · exact opened.ge

/-- Without a close the connection is kept. -/
theorem SmtpEvent.Steps.keeps (flawless : relay.peer.Flawless) {event : SmtpEvent} {line : Nat}
    (step : SmtpEvent.Steps lib settings relay s event t) (open' : event.isClose = false)
    (kept : s.cached = some line) : t.cached = some line := by
  rcases step.cases flawless with ⟨-, _, line', uses, -⟩ | ⟨-, -, cached⟩
  · rcases uses.opened with ⟨before, -⟩ | ⟨before, -⟩
    · rw [uses.kept, ← before, kept]
    · rw [kept] at before
      cases before
  · rw [cached, open', kept]
    rfl

/-- The connection that is kept, if any, is later than `line`, and so is every further one. -/
def LaterThan (line : Nat) (s : Client EmailMessage Exn) : Prop :=
  line < s.opened ∧ ∀ kept, s.cached = some kept → line < kept

theorem LaterThan.uses {line used : Nat} (h : LaterThan line s) (uses : s.Uses used t) :
    LaterThan line t ∧ line < used := by
  rcases uses.opened with ⟨before, opened⟩ | ⟨before, same, opened⟩
  · have later := h.2 used before
    refine ⟨⟨opened ▸ h.1, fun kept here => ?_⟩, later⟩
    rw [uses.kept] at here
    exact Option.some.inj here ▸ later
  · have later : line < used := same ▸ h.1
    refine ⟨⟨opened ▸ h.1.trans (Nat.lt_succ_self _), fun kept here => ?_⟩, later⟩
    rw [uses.kept] at here
    exact Option.some.inj here ▸ later

/-- After a close, no earlier connection comes back. -/
theorem SmtpEvent.Steps.laterThan (flawless : relay.peer.Flawless) {event : SmtpEvent}
    {line : Nat} (h : LaterThan line s)
    (step : SmtpEvent.Steps lib settings relay s event t) : LaterThan line t := by
  rcases step.cases flawless with ⟨-, _, used, uses, -⟩ | ⟨-, opened, cached⟩
  · exact (h.uses uses).1
  · refine ⟨opened ▸ h.1, fun kept here => ?_⟩
    rw [cached] at here
    split at here
    · cases here
    · exact h.2 kept here

/-- Two messages are handed over on one connection if and only if it has not been closed in
between. -/
theorem sameLine_iff (flawless : relay.peer.Flawless)
    {first between rest : List (Taken (Client EmailMessage Exn) SmtpEvent)}
    {x y : Taken (Client EmailMessage Exn) SmtpEvent} {message message' : EmailMessage}
    {line line' : Nat}
    (run : Trace (SmtpEvent.Steps lib settings relay) {} (first ++ x :: (between ++ y :: rest)) t)
    (hx : HandsOver x message line) (hy : HandsOver y message' line') :
    line = line' ↔ ∀ z ∈ between, z.label.isClose = false := by
  obtain ⟨untilX, stepX⟩ := run.upTo rfl
  obtain ⟨untilY, stepY⟩ := run.upTo
    (List.append_assoc first (x :: between) (y :: rest)).symm
  obtain ⟨-, usesX⟩ := hx.uses flawless stepX
  obtain ⟨-, usesY⟩ := hy.uses flawless stepY
  constructor
  · intro same z hz
    by_contra closed
    obtain ⟨before, after, rfl⟩ := List.append_of_mem hz
    have sound : Sound (policy lib settings) x.after :=
      stepX.sound (untilX.invariant sound_empty (fun kept step => step.sound kept))
    have known : line < x.after.opened :=
      sound.known _ (sound.kept line usesX.kept).connected
    obtain ⟨untilZ, stepZ⟩ := untilY.upTo
      (List.append_assoc first (x :: before) (z :: after)).symm
    have opened : line < z.before.opened :=
      @Trace.since _ _ _ _ _ _ untilZ (fun s => line < s.opened) _ _ _ rfl known
        (fun _ _ earlier step => earlier.trans_le (step.opened_le flawless))
    have gone : LaterThan line z.after := by
      rcases stepZ.cases flawless with ⟨sends, -⟩ | ⟨-, same, cached⟩
      · exact absurd sends closed
      · refine ⟨same ▸ opened, fun kept here => ?_⟩
        rw [cached, if_pos ((Bool.not_eq_false _).mp closed)] at here
        cases here
    have later : LaterThan line y.before := untilY.since
      (List.append_assoc first (x :: before) (z :: after)).symm gone
      (fun _ _ earlier step => step.laterThan flawless earlier)
    exact absurd same (later.uses usesY).2.ne
  · intro unclosed
    have kept : y.before.cached = some line :=
      @Trace.since _ _ _ _ _ _ untilY (fun s => s.cached = some line) _ _ _ rfl usesX.kept
        (fun z hz here step => step.keeps flawless (unclosed z hz) here)
    rcases usesY.opened with ⟨before, -⟩ | ⟨before, -⟩
    · exact Option.some.inj (kept.symm.trans before)
    · rw [kept] at before
      cases before

/-- With a relay that does not fail, at most one connection is opened more than are closed; every
request that is not refused succeeds, and its message is taken once; and two messages are handed
over on one connection if and only if it has not been closed in between. -/
theorem mail_connection_shared (flawless : ∀ n, relay.raises n = none)
    {steps : List (Taken (Client EmailMessage Exn) SmtpEvent)}
    (run : Trace (SmtpEvent.Steps lib settings relay) {} steps t) :
    t.opened ≤ steps.countP (fun x => x.label.isClose) + 1 ∧
      (∀ x ∈ steps, ∀ payload, x.label = .sendMail payload →
        checkEmail lib settings payload = .ok () →
          (ran (sendMail lib settings relay payload) x.before).1 =
            .ok ⟨"sent", payload.toAddrs.length⟩ ∧
              ∃ line, HandsOver x (payload.message settings) line) ∧
      ∀ first x between y rest, steps = first ++ x :: (between ++ y :: rest) →
        ∀ message message' line line', HandsOver x message line → HandsOver y message' line' →
          (line = line' ↔ ∀ z ∈ between, z.label.isClose = false) := by
  have works : relay.peer.Flawless := ⟨flawless, fun _ => rfl⟩
  refine ⟨?_, ?_, ?_⟩
  · have bound : t.opened ≤ steps.countP (fun x => x.label.isClose) + t.cached.isSome.toNat := by
      induction run with
      | nil => exact Nat.zero_le _
      | @concat steps s t event run step ih =>
          have more := step.opened works
          rw [List.countP_append, List.countP_singleton]
          cases closes : event.isClose <;> rw [closes] at more <;> simp at more ⊢ <;> omega
    exact bound.trans (Nat.add_le_add_left (Bool.toNat_le _) _)
  · refine @Trace.forall_taken _ _ _ _ _ _ run (fun _ => True) trivial (fun _ _ => trivial) _ ?_
    rintro s event t - step payload rfl accepted
    rw [show t = _ from step]
    rcases sendMail_flawless works payload with ⟨refused, -⟩ | ⟨-, sent, line, -, handed⟩
    · exact absurd accepted refused
    · exact ⟨sent, line, handed⟩
  · rintro first x between y rest rfl message message' line line' hx hy
    exact sameLine_iff works run hx hy

end Sending

section Example

def smtpLib : SmtpLib where
  isRelayError e := e.kind == "SMTPException" || e.kind == "OSError"
  isException e := e.kind != "CancelledError"
  checkHeader _ value :=
    if value.toList.any (fun c => c == '\n' || c == '\r') then
      .error ⟨"ValueError", "Header values may not contain linefeed or carriage return characters"⟩
    else .ok ()

def relaySettings : SmtpSettings where
  SMTP_HOST := "relay"
  SMTP_USERNAME := "omnisync"

def salutation : SendEmailRequest := ⟨["ben"], "Hello", "Hello Ben", none⟩

/-- The relay drops the connection when the first message is handed over. -/
def droppingRelay : Relay :=
  ⟨fun n => if n = 2 then some ⟨"SMTPException", "Connection lost"⟩ else none⟩

/-- The connection after the salutation has been sent through the relay. -/
def saluted (relay : Relay) : Client EmailMessage Exn :=
  (ran (sendMail smtpLib relaySettings relay salutation) {}).2

theorem saluted_run (relay : Relay) : Trace (SmtpEvent.Steps smtpLib relaySettings relay) {}
    [⟨{}, .sendMail salutation, saluted relay⟩] (saluted relay) := .concat .nil rfl

/-- Two connections are used, each of them after its login. -/
theorem mail_sessions_sound_dropped :
    (saluted droppingRelay).calls.map (fun call => (call.line, call.raised.isSome)) =
        [(0, false), (0, false), (0, true), (0, false), (1, false), (1, false), (1, false)] ∧
      ∀ before call, before ++ [call] <+: (saluted droppingRelay).calls →
        ∀ message, call.act = .request message →
          Ready (SMTPConnection.policy smtpLib relaySettings) before call.line :=
  ⟨by decide +kernel, (mail_sessions_sound (saluted_run droppingRelay)).1⟩

/-- The message is handed over twice, and taken once. -/
theorem mail_handed_over_dropped : ∃ attempts,
    requestsOf (saluted droppingRelay).calls =
      [] ++ attempts.map (Prod.mk (salutation.message relaySettings)) ∧
    Handovers smtpLib (ran (sendMail smtpLib relaySettings droppingRelay salutation) {}).1
      attempts ∧
    (requestsOf (saluted droppingRelay).calls).length = 2 := by
  obtain ⟨attempts, made, attempted, -⟩ := mail_handed_over (saluted_run droppingRelay)
    ⟨{}, .sendMail salutation, saluted droppingRelay⟩ List.mem_cons_self salutation rfl
  exact ⟨attempts, made, attempted, by decide +kernel⟩

/-- A relay that does not fail. -/
def steadyRelay : Relay := ⟨fun _ => none⟩

/-- The connection after another salutation has been sent. -/
def salutedAgain (s : Client EmailMessage Exn) : Client EmailMessage Exn :=
  (ran (sendMail smtpLib relaySettings steadyRelay salutation) s).2

def hungUp (s : Client EmailMessage Exn) : Client EmailMessage Exn :=
  (ran (SMTPConnection.close smtpLib relaySettings steadyRelay) s).2

/-- Three salutations, with a close before the last one. -/
def threeSalutations : List (Taken (Client EmailMessage Exn) SmtpEvent) :=
  let first := salutedAgain {}
  let second := salutedAgain first
  let closed := hungUp second
  [⟨{}, .sendMail salutation, first⟩, ⟨first, .sendMail salutation, second⟩,
    ⟨second, .close, closed⟩, ⟨closed, .sendMail salutation, salutedAgain closed⟩]

/-- The first two share a connection, and the third one gets another. -/
theorem mail_connection_shared_closed : ∃ x y z w, threeSalutations = [x, y, z, w] ∧
    w.after.opened = 2 ∧ ∃ a b c,
      HandsOver x (salutation.message relaySettings) a ∧
        HandsOver y (salutation.message relaySettings) b ∧
          HandsOver w (salutation.message relaySettings) c ∧ a = b ∧ b ≠ c := by
  have run : Trace (SmtpEvent.Steps smtpLib relaySettings steadyRelay) {} threeSalutations
      (salutedAgain (hungUp (salutedAgain (salutedAgain {})))) :=
    .cons rfl (.cons rfl (.cons rfl (.cons rfl .nil)))
  obtain ⟨-, sent, shared⟩ := mail_connection_shared (fun _ => rfl) run
  have accepted : checkEmail smtpLib relaySettings salutation = .ok () := by decide +kernel
  obtain ⟨-, a, ha⟩ := sent _ (.head _) salutation rfl accepted
  obtain ⟨-, b, hb⟩ := sent _ (.tail _ (.head _)) salutation rfl accepted
  obtain ⟨-, c, hc⟩ := sent _ (.tail _ (.tail _ (.tail _ (.head _)))) salutation rfl accepted
  refine ⟨_, _, _, _, rfl, by decide +kernel, a, b, c, ha, hb, hc, ?_, ?_⟩
  · exact (shared [] _ [] _ _ rfl _ _ _ _ ha hb).mpr (fun _ hz => (List.not_mem_nil hz).elim)
  · intro same
    have unclosed := (shared [_] _ [_] _ [] rfl _ _ _ _ hb hc).mp same
    exact absurd (unclosed _ (.head _)) (by decide)

end Example

end OmniSync
