import OmniSync.Integrations.Watermark

/-!
# Which messages a poll reaches

Messages arrive in a folder, and polls run in between. A poll stores the events of the last
hundred messages that its search finds, so it leaves a message without an event exactly when
the message is older than the watermark, or a hundred newer ones are found, or the server does
not deliver it.
-/

namespace OmniSync

open Txn

/-- A folder on the server. -/
structure Mailbox where
  uidvalidity : Option String
  messages : List Mail := []

/-- The settings of a mailbox that is polled. -/
structure MailSource where
  settings : ImapSettings
  configured : settings.IMAP_HOST ≠ ""

/-- A message arrives, or a poll returns. During a poll the server does not deliver some of the
messages, and the clock shows `now` when a message is parsed. -/
inductive MailEvent where
  | arrival (m : Mail)
  | poll (refuses : Nat → Bool) (now : Nat → Datetime)

namespace MailSource

variable (S : MailSource) (lib : DatetimeLib) (rt : Runtime) (settings : Settings)

def server (b : Mailbox) (refuses : Nat → Bool) (now : Nat → Datetime) : MailServer Letter where
  host := S.settings.IMAP_HOST
  uidvalidity := b.uidvalidity
  messages := b.messages
  refuses := refuses
  now := now

def remote (server : MailServer Letter) : Remote
  | .fetchMail folder since => some (IMAPClient.fetchLetters server folder since)
  | _ => none

/-- A message with a text arrives, or a poll returns. -/
def Steps (s : Mailbox × State Unit) (event : MailEvent) (t : Mailbox × State Unit) : Prop :=
  match event with
  | .arrival m =>
      (m.email.subject ≠ "" ∨ m.email.body ≠ "") ∧ t = ({ s.1 with messages := s.1.messages ++ [m] }, s.2)
  | .poll refuses now =>
      t.1 = s.1 ∧ postgres.Completes () (syncImapMessages lib rt settings S.settings)
        (s.2.facing (remote (S.server s.1 refuses now))) () t.2

/-- The key of the event of a message with a sequence number. -/
def eventKey (b : Mailbox) (n : Nat) (m : Mail) : String × String :=
  ("imap", buildExternalId (IMAPClient.messageOf (S.server b (fun _ => false) (fun _ => ⟨0, none⟩))
    S.settings.IMAP_FOLDER n m.email))

/-- There is an event for the message. -/
def HasEvent (b : Mailbox) (s : Store) (n : Nat) (m : Mail) : Prop :=
  s.normalizedEvents.find (S.eventKey b n m) ≠ none

end MailSource

/-- The message has the number in the folder, and it has a subject or a body. -/
structure Mailbox.Holds (b : Mailbox) (n : Nat) (m : Mail) : Prop where
  positive : 0 < n
  there : b.messages[n - 1]? = some m
  text : m.email.subject ≠ "" ∨ m.email.body ≠ ""

namespace MailSource

variable (S : MailSource) (lib : DatetimeLib) (rt : Runtime) (settings : Settings)

/-- Every message in the folder has an event. -/
def Complete (b : Mailbox) (s : Store) : Prop := ∀ n m, b.Holds n m → S.HasEvent b s n m

/-- The message is among those that are fetched. -/
def Reached (server : MailServer Letter) (since : Option Datetime) (n : Nat) : Prop :=
  n ∈ IMAPClient.lastOf 100 (IMAPClient.search server since) ∧ server.refuses n = false

/-- Every message has an event, or one of its identity is fetched. -/
def NoneMissed (b : Mailbox) (refuses : Nat → Bool) (s : Store) : Prop :=
  ∀ since, sinceDate lib (s.cursorOf "imap") = .ok since → ∀ n m, b.Holds n m →
    S.HasEvent b s n m ∨ ∃ n' m', b.Holds n' m' ∧ S.eventKey b n' m' = S.eventKey b n m ∧
      Reached (S.server b refuses (fun _ => ⟨0, none⟩)) since n'

end MailSource

section Poll

variable {S : MailSource} {lib : DatetimeLib} {rt : Runtime} {settings : Settings}
variable {b : Mailbox} {σ τ : State Unit} {refuses : Nat → Bool} {now : Nat → Datetime}

/-- The keys of the events are the old ones and those of the batch. -/
theorem Ingested.find_ne_none {source operation : String} {items : List Json}
    {batch : List NormalizedEventCreate} {watermark : Option String} {s t : Store}
    (h : Ingested rt source operation items batch watermark s t) (k : String × String) :
    t.normalizedEvents.find k ≠ none ↔
      s.normalizedEvents.find k ≠ none ∨ k ∈ batch.map NormalizedEventCreate.key := by
  by_cases known : k ∈ batch.map NormalizedEventCreate.key
  · refine ⟨fun _ => .inr known, fun _ => ?_⟩
    obtain ⟨e, he, rfl⟩ := List.mem_map.mp (mem_deduped_key.mpr known)
    obtain ⟨row, found, _⟩ := h.stored e he
    rw [found]
    exact Option.some_ne_none row
  · rw [h.untouched k known]
    exact ⟨.inl, fun now => now.resolve_right known⟩

/-- The keys of a batch are those of the messages with a text. -/
theorem MailNormalized.mem_keys {raws : List RawMessage} {batch : List NormalizedEventCreate}
    (h : MailNormalized lib raws batch) (k : String × String) :
    k ∈ batch.map NormalizedEventCreate.key ↔ ∃ raw ∈ raws, (raw.subject ≠ "" ∨ raw.body ≠ "") ∧
      ("imap", buildExternalId raw) = k := by
  have made : ∀ (raw : RawMessage) id, raw.subject ≠ "" ∨ raw.body ≠ "" →
      (IMAPConnector.normalize lib raw (some id)).map NormalizedEventCreate.key =
        some ("imap", buildExternalId raw) := by
    intro raw id text
    have full : ¬ (raw.subject = "" ∧ raw.body = "") := fun empty =>
      text.elim (fun h => h empty.1) (fun h => h empty.2)
    unfold IMAPConnector.normalize
    rw [if_neg full]
    rfl
  constructor
  · intro known
    obtain ⟨e, he, rfl⟩ := List.mem_map.mp known
    obtain ⟨raw, hr, id, same⟩ := h.exists_item he
    have text : raw.subject ≠ "" ∨ raw.body ≠ "" := by
      by_contra none
      have empty : raw.subject = "" ∧ raw.body = "" := by
        rw [not_or, not_not, not_not] at none
        exact none
      rw [IMAPConnector.normalize, if_pos empty] at same
      cases same
    have key := made raw id text
    rw [same] at key
    exact ⟨raw, hr, text, (Option.some.inj key).symm⟩
  · rintro ⟨raw, hr, text, rfl⟩
    obtain ⟨result, ⟨id, rfl⟩, mem⟩ := h.exists_event hr
    obtain ⟨e, same, key⟩ := Option.map_eq_some_iff.mp (made raw id text)
    exact List.mem_map.mpr ⟨e, mem e same, key⟩

theorem truncated_eq_empty {n : Nat} {text : String} (positive : 0 < n) :
    truncated n text = "" ↔ text = "" := by
  unfold truncated
  rw [← String.toList_inj, ← String.toList_inj]
  simp [Nat.ne_of_gt positive]

namespace IMAPClient

variable {server : MailServer Letter} {folder : String} {since : Option Datetime} {n : Nat}

theorem mem_search : n ∈ search server since ↔
    0 < n ∧ ∃ m, server.messages[n - 1]? = some m ∧ sought since m = true := by
  simp only [search, List.mem_filter, List.mem_range'_1, Option.any_eq_true]
  constructor
  · rintro ⟨⟨positive, _⟩, found⟩
    exact ⟨positive, found⟩
  · rintro ⟨positive, m, there, found⟩
    have bound := (List.getElem?_eq_some_iff.mp there).1
    exact ⟨⟨positive, by omega⟩, m, there, found⟩

theorem length_search_le : (search server since).length ≤ server.messages.length :=
  (List.length_filter_le _ _).trans List.length_range'.le

theorem mem_of_mem_lastOf {α : Type} {limit : Nat} {x : α} {xs : List α}
    (h : x ∈ lastOf limit xs) : x ∈ xs := by
  unfold lastOf at h
  split at h
  · exact h
  · exact List.mem_of_mem_drop h

/-- What a fetch returns. -/
theorem mem_fetchLetters {raw : RawMessage} : raw ∈ fetchLetters server folder since ↔
    ∃ n m, (n ∈ lastOf 100 (search server since) ∧ server.refuses n = false) ∧
      server.messages[n - 1]? = some m ∧ messageOf server folder n m.email = raw := by
  simp only [fetchLetters, List.mem_filterMap, Option.map_eq_some_iff]
  constructor
  · rintro ⟨n, last, m, fetched, rfl⟩
    unfold fetch at fetched
    split at fetched
    · cases fetched
    · rename_i delivered
      exact ⟨n, m, ⟨last, Bool.eq_false_iff.mpr delivered⟩, fetched, rfl⟩
  · rintro ⟨n, m, ⟨last, delivered⟩, there, rfl⟩
    refine ⟨n, last, m, ?_, rfl⟩
    unfold fetch
    rw [if_neg (Bool.eq_false_iff.mp delivered), there]

end IMAPClient

/-- What a poll leaves of the events. -/
theorem hasEvent_of_poll (unique : σ.store.EventIdsUnique)
    (h : postgres.Completes () (syncImapMessages lib rt settings S.settings)
      (σ.facing (MailSource.remote (S.server b refuses now))) () τ) :
    τ.store.EventIdsUnique ∧ ∃ since, sinceDate lib (σ.store.cursorOf "imap") = .ok since ∧
      ∀ n m, b.Holds n m → (S.HasEvent b τ.store n m ↔ S.HasEvent b σ.store n m ∨
        ∃ n' m', b.Holds n' m' ∧ S.eventKey b n' m' = S.eventKey b n m ∧
          MailSource.Reached (S.server b refuses (fun _ => ⟨0, none⟩)) since n') := by
  obtain ⟨since, raws, batch, maxDate, resumes, answered, _, normalized, ingested⟩ :=
    syncImapMessages_imports (facing_ids unique) S.configured h
  obtain rfl : raws = IMAPClient.fetchLetters (S.server b refuses now) S.settings.IMAP_FOLDER since :=
    answered _ rfl
  refine ⟨ingested.ids, since, resumes, fun n m _ => ?_⟩
  unfold MailSource.HasEvent
  rw [ingested.find_ne_none, normalized.mem_keys]
  refine or_congr_right ⟨?_, ?_⟩
  · rintro ⟨raw, fetched, text, same⟩
    obtain ⟨n', m', reached, there, rfl⟩ := IMAPClient.mem_fetchLetters.mp fetched
    obtain ⟨positive, _⟩ := IMAPClient.mem_search.mp (IMAPClient.mem_of_mem_lastOf reached.1)
    refine ⟨n', m', ⟨positive, there, ?_⟩, same, reached⟩
    exact text.imp_right (fun h => fun empty => h ((truncated_eq_empty (by decide)).mpr empty))
  · rintro ⟨n', m', ⟨positive, there, text⟩, same, reached⟩
    refine ⟨_, IMAPClient.mem_fetchLetters.mpr ⟨n', m', reached, there, rfl⟩, ?_, same⟩
    exact text.imp_right (fun h => fun empty => h ((truncated_eq_empty (by decide)).mp empty))

end Poll

section Run

variable {S : MailSource} {lib : DatetimeLib} {rt : Runtime} {settings : Settings}
variable {start s t : Mailbox × State Unit} {event : MailEvent}

/-- An arrival does not touch the database. -/
theorem MailSource.Steps.ids (unique : s.2.store.EventIdsUnique)
    (h : S.Steps lib rt settings s event t) : t.2.store.EventIdsUnique := by
  cases event with
  | arrival m =>
      obtain ⟨_, rfl⟩ := h
      exact unique
  | poll refuses now =>
      obtain ⟨_, run⟩ := h
      exact (hasEvent_of_poll unique run).1

/-- A poll is complete if and only if it misses nothing. -/
theorem MailSource.Steps.complete_iff {refuses : Nat → Bool} {now : Nat → Datetime}
    (unique : s.2.store.EventIdsUnique) (h : S.Steps lib rt settings s (.poll refuses now) t) :
    S.Complete s.1 t.2.store ↔ S.NoneMissed lib s.1 refuses s.2.store := by
  obtain ⟨_, run⟩ := h
  obtain ⟨_, since, resumes, each⟩ := hasEvent_of_poll unique run
  constructor
  · intro complete since' resumes' n m holds
    cases resumes.symm.trans resumes'
    exact (each n m holds).mp (complete n m holds)
  · intro none n m holds
    exact (each n m holds).mpr (none since resumes n m holds)

/-- The message has arrived on the date of the watermark or later. -/
def MailSource.Sought (lib : DatetimeLib) (s : Store) (m : Mail) : Prop :=
  ∀ since, sinceDate lib (s.cursorOf "imap") = .ok since → IMAPClient.sought since m = true

/-- A message arrives on the date of the watermark or later. A poll finds at most a hundred
messages, and all of them are delivered. -/
def MailEvent.Timely (S : MailSource) (lib : DatetimeLib) (b : Mailbox) (s : Store) :
    MailEvent → Prop
  | .arrival m => MailSource.Sought lib s m
  | .poll refuses now =>
      (∀ since, sinceDate lib (s.cursorOf "imap") = .ok since →
        (IMAPClient.search (S.server b refuses now) since).length ≤ 100) ∧
      ∀ n, refuses n = false

/-- Every message has an event or would be found. -/
def MailSource.NoneBehind (S : MailSource) (lib : DatetimeLib) (b : Mailbox) (s : Store) : Prop :=
  ∀ n m, b.Holds n m → S.HasEvent b s n m ∨ MailSource.Sought lib s m

theorem MailSource.NoneBehind.noneMissed {b : Mailbox} {s : Store} {refuses : Nat → Bool}
    {now : Nat → Datetime} (h : S.NoneBehind lib b s)
    (timely : (MailEvent.poll refuses now).Timely S lib b s) : S.NoneMissed lib b refuses s := by
  intro since resumes n m holds
  refine (h n m holds).imp_right (fun sought => ⟨n, m, holds, rfl, ?_, timely.2 n⟩)
  have found : n ∈ IMAPClient.search (S.server b refuses now) since :=
    IMAPClient.mem_search.mpr ⟨holds.positive, m, holds.there, sought since resumes⟩
  change n ∈ IMAPClient.lastOf 100 (IMAPClient.search (S.server b refuses now) since)
  unfold IMAPClient.lastOf
  rw [if_neg (by decide), Nat.sub_eq_zero_of_le (timely.1 since resumes)]
  exact found

theorem MailSource.Steps.noneBehind (unique : s.2.store.EventIdsUnique)
    (before : S.NoneBehind lib s.1 s.2.store) (h : S.Steps lib rt settings s event t)
    (timely : event.Timely S lib s.1 s.2.store) : S.NoneBehind lib t.1 t.2.store := by
  cases event with
  | poll refuses now =>
      have complete := (h.complete_iff unique).mpr (before.noneMissed timely)
      rw [h.1]
      exact fun n m holds => .inl (complete n m holds)
  | arrival m =>
      obtain ⟨_, rfl⟩ := h
      rintro n m' ⟨positive, there, text⟩
      rw [List.getElem?_append] at there
      split at there
      · exact before n m' ⟨positive, there, text⟩
      · rw [List.mem_singleton.mp (List.mem_of_getElem? there)]
        exact .inr timely

/-- The ids are unique, and no message is left behind. -/
def MailSource.Tracked (S : MailSource) (lib : DatetimeLib) (s : Mailbox × State Unit) : Prop :=
  s.2.store.EventIdsUnique ∧ S.NoneBehind lib s.1 s.2.store

/-- A poll is complete if and only if every message of the folder has an event or is among the
last hundred that are found and delivered. This is so in every poll of a run in which messages
arrive on the date of the watermark or later, and polls find at most a hundred messages. -/
theorem mail_complete {steps : List (Taken (Mailbox × State Unit) MailEvent)}
    (unique : start.2.store.EventIdsUnique) (run : Trace (S.Steps lib rt settings) start steps t) :
    (∀ x ∈ steps, ∀ refuses now, x.label = .poll refuses now →
      (S.Complete x.before.1 x.after.2.store ↔
        S.NoneMissed lib x.before.1 refuses x.before.2.store)) ∧
    (S.NoneBehind lib start.1 start.2.store →
      (∀ x ∈ steps, x.label.Timely S lib x.before.1 x.before.2.store) →
        ∀ x ∈ steps, ∀ refuses now, x.label = .poll refuses now →
          S.Complete x.before.1 x.after.2.store) := by
  have polls : ∀ x ∈ steps, ∀ refuses now, x.label = .poll refuses now →
      (S.Complete x.before.1 x.after.2.store ↔
        S.NoneMissed lib x.before.1 refuses x.before.2.store) := by
    refine run.forall_taken unique (fun unique taken => taken.ids unique) ?_
    rintro s l t unique taken refuses now rfl
    exact taken.complete_iff unique
  refine ⟨polls, fun initially timely x hx refuses now poll => ?_⟩
  have kept : ∀ {s event t}, S.Tracked lib s → S.Steps lib rt settings s event t →
      event.Timely S lib s.1 s.2.store → S.Tracked lib t :=
    fun before taken timely => ⟨taken.ids before.1, taken.noneBehind before.1 before.2 timely⟩
  have initial : S.Tracked lib start := ⟨unique, initially⟩
  obtain ⟨_, each⟩ := run.forall_of_met initial kept timely
  have here := timely x hx
  rw [poll] at here
  exact (polls x hx refuses now poll).mpr ((each x hx).1.2.noneMissed here)

end Run

section Example

def inbox : MailSource := ⟨mailbox, by decide⟩

/-- A message that arrives on the first day. -/
def arrived (uid : Nat) (messageId : String) (date : Int) : Mail where
  uid := uid
  arrival := (may 1).date
  email := ⟨messageId, "Hello", "a@b", some (may date), ""⟩

/-- The folder with a message from a sender whose clock is a day ahead, and with one more. -/
def firstMail : Mailbox := ⟨some "1", [arrived 1 "n" 2]⟩

def secondMail : Mailbox := ⟨some "1", [arrived 1 "n" 2, arrived 2 "o" 1]⟩

def delivers : Nat → Bool := fun _ => false

def noon : Nat → Datetime := fun _ => may 1

def firstMailPoll : Option (Unit × State Unit) :=
  postgres.outcome () (letterScript 1 [.step .none, .step (.draw 1 0)])
    (syncImapMessages (calendar mayDays) mayRuntime {} mailbox)
    (State.facing ⟨{}, ∅, []⟩ (MailSource.remote (inbox.server firstMail delivers noon)))

def secondMailPoll : Option (Unit × State Unit) :=
  firstMailPoll.bind (fun x => postgres.outcome ()
    [.step (.text "d"), .step (.draw 2 0), .step .none, .step .none, .step (.mails []),
      .step .none, .step .none, .step .none]
    (syncImapMessages (calendar mayDays) mayRuntime {} mailbox)
    (x.2.facing (MailSource.remote (inbox.server secondMail delivers noon))))

/-- The same folder when all clocks agree. -/
def punctualMail : Mailbox := ⟨some "1", [arrived 1 "n" 1]⟩

def nextMail : Mailbox := ⟨some "1", [arrived 1 "n" 1, arrived 2 "o" 1]⟩

def punctualPoll : Option (Unit × State Unit) :=
  postgres.outcome () (letterScript 1 [.step .none, .step (.draw 1 0)])
    (syncImapMessages (calendar mayDays) mayRuntime {} mailbox)
    (State.facing ⟨{}, ∅, []⟩ (MailSource.remote (inbox.server punctualMail delivers noon)))

/-- The poll of a folder with a known message and a new one. -/
def nextMailPoll : Option (Unit × State Unit) :=
  punctualPoll.bind (fun x => postgres.outcome ()
    [.step (.text "d"), .step (.draw 2 0), .step .none, .step .none, .step (.mails []),
      .step .none, .step .none, .step (.draw 3 0), .step .none, .step (.time 0), .step .none,
      .step (.draw 4 0), .step (.draw 5 0), .step .none, .step .none, .step .none, .step .none,
      .step .none, .step (.draw 6 0), .step (.draws [(7, 0), (8, 0)]), .step .none, .step .none,
      .step .none]
    (syncImapMessages (calendar mayDays) mayRuntime {} mailbox)
    (x.2.facing (MailSource.remote (inbox.server nextMail delivers noon))))

/-- A message arrives on the date of the stored watermark, and the second poll is complete. -/
theorem mail_complete_twice : ∃ υ φ, punctualPoll.map Prod.snd = some υ ∧
    υ.store.cursorOf "imap" = some "2026-05-01T00:00:00+00:00" ∧
      nextMailPoll.map Prod.snd = some φ ∧ inbox.Complete nextMail φ.store := by
  have shape : nextMailPoll.map (fun x => x.1) = some () := by decide +kernel
  have stored : punctualPoll.map (fun x => x.2.store.cursorOf "imap") =
      some (some "2026-05-01T00:00:00+00:00") := by decide +kernel
  obtain ⟨⟨_, φ⟩, second, _⟩ := Option.map_eq_some_iff.mp shape
  obtain ⟨⟨_, υ⟩, first, cursor⟩ := Option.map_eq_some_iff.mp stored
  have returned := second
  rw [nextMailPoll, first, Option.bind_some] at second
  have unique : (⟨{}, ∅, []⟩ : State Unit).store.EventIdsUnique :=
    fun x hx => (List.not_mem_nil hx).elim
  have arrival : inbox.Steps (calendar mayDays) mayRuntime {} (⟨some "1", []⟩, ⟨{}, ∅, []⟩)
      (.arrival (arrived 1 "n" 1)) (punctualMail, ⟨{}, ∅, []⟩) := ⟨.inl (by decide), rfl⟩
  have poll : inbox.Steps (calendar mayDays) mayRuntime {} (punctualMail, ⟨{}, ∅, []⟩)
      (.poll delivers noon) (punctualMail, υ) := ⟨rfl, Engine.completes_of_outcome first⟩
  have arrival' : inbox.Steps (calendar mayDays) mayRuntime {} (punctualMail, υ)
      (.arrival (arrived 2 "o" 1)) (nextMail, υ) := ⟨.inl (by decide), rfl⟩
  have poll' : inbox.Steps (calendar mayDays) mayRuntime {} (nextMail, υ)
      (.poll delivers noon) (nextMail, φ) := ⟨rfl, Engine.completes_of_outcome second⟩
  have run : Trace (inbox.Steps (calendar mayDays) mayRuntime {}) (⟨some "1", []⟩, ⟨{}, ∅, []⟩)
      [⟨_, _, _⟩, ⟨_, _, _⟩, ⟨_, _, _⟩, ⟨_, _, _⟩] (nextMail, φ) :=
    .concat (.concat (.concat (.concat .nil arrival) poll) arrival') poll'
  have few : ∀ (b : Mailbox) (s : Store), b.messages.length ≤ 100 →
      (MailEvent.poll delivers noon).Timely inbox (calendar mayDays) b s :=
    fun b s short => ⟨fun _ _ => IMAPClient.length_search_le.trans short, fun _ => rfl⟩
  refine ⟨υ, φ, by rw [first]; rfl, cursor, by rw [returned]; rfl, (mail_complete unique run).2 ?_
    ?_ ⟨(nextMail, υ), .poll delivers noon, (nextMail, φ)⟩ (by simp) delivers noon rfl⟩
  · rintro n m ⟨_, there, _⟩
    cases there
  · intro x hx
    simp only [List.mem_cons, List.not_mem_nil, or_false] at hx
    rcases hx with rfl | rfl | rfl | rfl
    · rintro since resumes
      cases resumes
      rfl
    · exact few punctualMail _ (by decide)
    · -- The watermark is that of the first message, and the second one arrives on its date.
      rintro since resumes
      have day : sinceDate (calendar mayDays) (some "2026-05-01T00:00:00+00:00") =
          .ok (some (may 1)) := by decide +kernel
      rw [cursor, day] at resumes
      cases resumes
      decide
    · exact few nextMail _ (by decide)

/-- The second message is missed. -/
theorem poll_misses : ¬ ∀ steps t,
    Trace (inbox.Steps (calendar mayDays) mayRuntime {}) (⟨some "1", []⟩, ⟨{}, ∅, []⟩) steps t →
      ∀ x ∈ steps, ∀ refuses now, x.label = .poll refuses now →
        inbox.Complete x.before.1 x.after.2.store := by
  intro complete
  have shape : secondMailPoll.map (fun x => x.2.store.normalizedEvents.find
      ("imap", "imap-mid-o")) = some none := by decide +kernel
  obtain ⟨⟨_, φ⟩, second, absent⟩ := Option.map_eq_some_iff.mp shape
  unfold secondMailPoll at second
  obtain ⟨⟨_, υ⟩, first, second⟩ := Option.bind_eq_some_iff.mp second
  have first_arrival : inbox.Steps (calendar mayDays) mayRuntime {} (⟨some "1", []⟩, ⟨{}, ∅, []⟩)
      (.arrival (arrived 1 "n" 2)) (firstMail, ⟨{}, ∅, []⟩) := ⟨.inl (by decide), rfl⟩
  have poll : inbox.Steps (calendar mayDays) mayRuntime {} (firstMail, ⟨{}, ∅, []⟩)
      (.poll delivers noon) (firstMail, υ) := ⟨rfl, Engine.completes_of_outcome first⟩
  have arrival : inbox.Steps (calendar mayDays) mayRuntime {} (firstMail, υ)
      (.arrival (arrived 2 "o" 1)) (secondMail, υ) := ⟨.inl (by simp [arrived]), rfl⟩
  have poll' : inbox.Steps (calendar mayDays) mayRuntime {} (secondMail, υ)
      (.poll delivers noon) (secondMail, φ) := ⟨rfl, Engine.completes_of_outcome second⟩
  have run : Trace (inbox.Steps (calendar mayDays) mayRuntime {}) (⟨some "1", []⟩, ⟨{}, ∅, []⟩)
      [⟨_, _, _⟩, ⟨_, _, _⟩, ⟨_, _, _⟩, ⟨_, _, _⟩] (secondMail, φ) :=
    .concat (.concat (.concat (.concat .nil first_arrival) poll) arrival) poll'
  have holds : secondMail.Holds 2 (arrived 2 "o" 1) := ⟨by decide, rfl, .inl (by simp [arrived])⟩
  exact complete _ _ run ⟨(secondMail, υ), .poll delivers noon, (secondMail, φ)⟩ (by simp)
    delivers noon rfl 2 (arrived 2 "o" 1) holds absent

end Example

end OmniSync
