import Mathlib.Logic.Encodable.Basic
import Mathlib.Logic.Equiv.List
import OmniSync.Data.Trace
import OmniSync.Data.Outcome
import OmniSync.Imap.Polling
import OmniSync.Integrations.Atomic

/-!
# Watermarks

The watermark of a source is the latest timestamp of the last batch that had any, whatever
the watermark was before. So it moves backwards exactly when everything in a batch is older
than the stored watermark, and sources do deliver such batches: a mailbox is searched by the
date of arrival, but its watermark is taken from the `Date` header.
-/

namespace OmniSync

open Txn

/-- The state with services that answer as given. -/
def State.facing (σ : State Unit) (remote : Remote) : State Unit :=
  { σ with world := { σ.world with remote := remote } }

/-- The instant that a stored watermark denotes. -/
def instantOf (rt : Runtime) (cursor : Option String) : Option Time :=
  cursor.bind (fun text => (rt.fromisoformat text).toOption)

/-- The watermark has not moved backwards. -/
def NotEarlier (rt : Runtime) (before after : Option String) : Prop :=
  ∀ t, instantOf rt before = some t → ∃ t', instantOf rt after = some t' ∧ t ≤ t'

/-- What is printed by `isoformat` is read back by `fromisoformat`. -/
structure Faithful (lib : DatetimeLib) (rt : Runtime) : Prop where
  time : ∀ t, rt.fromisoformat (rt.isoformat t) = .ok t
  date : ∀ d, rt.fromisoformat (lib.isoformat d) = .ok (d.instant lib)

theorem NotEarlier.refl (rt : Runtime) (cursor : Option String) : NotEarlier rt cursor cursor :=
  fun t known => ⟨t, known, le_refl t⟩

theorem NotEarlier.trans {rt : Runtime} {a b c : Option String} (first : NotEarlier rt a b)
    (rest : NotEarlier rt b c) : NotEarlier rt a c := by
  intro t known
  obtain ⟨t', known', le⟩ := first t known
  obtain ⟨t'', known'', le'⟩ := rest t' known'
  exact ⟨t'', known'', le.trans le'⟩

/-- A successful run: of a connector, with the items that it fetches, or of the mailbox, with
the messages that it fetches. -/
inductive Poll where
  | registered (source : String) (requested : Option String) (connector : Connector)
      (items : List Json)
  | mailbox (raws : List RawMessage)

namespace Poll

/-- The answer to the fetch of a poll. -/
def remote : Poll → Remote
  | .registered _ _ _ items, .fetch _ _ => some items
  | .mailbox raws, .fetchMail _ _ => some raws
  | _, _ => none

variable (lib : DatetimeLib) (rt : Runtime) (settings : Settings) (imapSettings : ImapSettings)

/-- The poll takes the database from `σ` to `τ`. -/
def Runs (σ : State Unit) (poll : Poll) (τ : State Unit) : Prop :=
  match poll with
  | .registered source requested connector _ =>
      ∃ n, postgres.Completes ()
        (runConnectorSync { rt with getConnector := fun _ => .ok connector } settings source
          requested) (σ.facing poll.remote) n τ
  | .mailbox _ =>
      postgres.Completes () (syncImapMessages lib rt settings imapSettings)
        (σ.facing poll.remote) () τ

/-- Not everything that was fetched is older than the stored watermark: of the events or the
messages those count that no other one exceeds. -/
def Forward (s : Store) : Poll → Prop
  | .registered source _ connector items =>
      ∀ t, instantOf rt (s.cursorOf source) = some t →
        ∀ batch, Normalized connector items batch → ∀ e ∈ batch,
          (∀ other ∈ batch, other.stamp.datetime.gt e.stamp.datetime = .ok false) →
            t ≤ e.timestamp
  | .mailbox raws =>
      imapSettings.IMAP_HOST ≠ "" → ∀ t, instantOf rt (s.cursorOf "imap") = some t →
        ∀ raw ∈ raws, (∀ other ∈ raws, other.date.gt raw.date = .ok false) →
          t ≤ raw.date.instant lib

end Poll

section Polls

variable {lib : DatetimeLib} {rt : Runtime} {settings : Settings} {imapSettings : ImapSettings}
variable {start σ τ : State Unit} {poll : Poll}

theorem facing_ids {remote : Remote} (h : σ.store.EventIdsUnique) :
    (σ.facing remote).store.EventIdsUnique := h

/-- What an ingestion leaves of the watermarks. -/
theorem Ingested.notEarlier {source operation : String} {items : List Json}
    {batch : List NormalizedEventCreate} {watermark : Option String} {s t : Store}
    (h : Ingested rt source operation items batch watermark s t)
    (moved : ∀ text, watermark = some text →
      NotEarlier rt (s.cursorOf source) (some text)) (other : String) :
    NotEarlier rt (s.cursorOf other) (t.cursorOf other) := by
  by_cases same : other = source
  · subst same
    rw [h.cursor]
    cases watermark with
    | none => exact .refl rt _
    | some text => exact moved text rfl
  · have unchanged : t.cursorOf other = s.cursorOf other := by
      unfold Store.cursorOf
      rw [h.cursors (other, "default") (by simp [same])]
    rw [unchanged]
    exact .refl rt _

/-- What one poll leaves. -/
theorem Poll.Runs.step (faithful : Faithful lib rt) (unique : σ.store.EventIdsUnique)
    (h : poll.Runs lib rt settings imapSettings σ τ) :
    τ.store.EventIdsUnique ∧ (poll.Forward lib rt imapSettings σ.store →
      ∀ source, NotEarlier rt (σ.store.cursorOf source) (τ.store.cursorOf source)) := by
  cases poll with
  | registered source requested connector items =>
      obtain ⟨n, run⟩ := h
      obtain ⟨_, since, fetched, batch, _, ⟨⟩, _, answered, last, normalized, ingested⟩ :=
        runConnectorSync_imports (facing_ids unique) run
      obtain rfl : fetched = items := answered items rfl
      refine ⟨ingested.ids, fun forward => ingested.notEarlier ?_⟩
      intro text moved t known
      obtain ⟨stamp, rfl, rfl⟩ := Option.map_eq_some_iff.mp moved
      obtain ⟨there, bound⟩ := exists_latest last
      obtain ⟨e, he, rfl⟩ := List.mem_map.mp there
      refine ⟨e.timestamp, ?_, forward t known batch normalized e he (List.forall_mem_map.mp bound)⟩
      unfold instantOf
      rw [Option.bind_some]
      exact congrArg Except.toOption (faithful.time e.timestamp)
  | mailbox raws =>
      by_cases configured : imapSettings.IMAP_HOST = ""
      · obtain rfl := syncImapMessages_skips configured h
        exact ⟨unique, fun _ source => .refl rt _⟩
      · obtain ⟨since, fetched, batch, maxDate, _, answered, last, _, ingested⟩ :=
          syncImapMessages_imports (facing_ids unique) configured h
        obtain rfl : fetched = raws := answered raws rfl
        refine ⟨ingested.ids, fun forward => ingested.notEarlier ?_⟩
        intro text moved t known
        obtain ⟨d, rfl, rfl⟩ := Option.map_eq_some_iff.mp moved
        obtain ⟨there, bound⟩ := exists_latest last
        obtain ⟨raw, hr, same⟩ := List.mem_map.mp there
        subst same
        refine ⟨_, ?_, forward configured t known raw hr
          (List.forall_mem_map.mp bound)⟩
        unfold instantOf
        rw [Option.bind_some]
        exact congrArg Except.toOption (faithful.date raw.date)

/-- If in every run something fetched is not older than the stored watermark,
unless nothing was, then no run has moved a watermark backwards. -/
theorem watermarks_advance {steps : List (Taken (State Unit) Poll)} (faithful : Faithful lib rt)
    (unique : start.store.EventIdsUnique)
    (run : Trace (Poll.Runs lib rt settings imapSettings) start steps τ)
    (forward : ∀ x ∈ steps, x.label.Forward lib rt imapSettings x.before.store) (source : String) :
    (∀ x ∈ steps,
      NotEarlier rt (x.before.store.cursorOf source) (x.after.store.cursorOf source)) ∧
    NotEarlier rt (start.store.cursorOf source) (τ.store.cursorOf source) := by
  have each : ∀ x ∈ steps, x.label.Forward lib rt imapSettings x.before.store →
      NotEarlier rt (x.before.store.cursorOf source) (x.after.store.cursorOf source) :=
    run.forall_taken unique (fun unique taken => (taken.step faithful unique).1)
      (fun unique taken forward => (taken.step faithful unique).2 forward source)
  have kept := fun x hx => each x hx (forward x hx)
  refine ⟨kept, run.preorder (fun σ τ => NotEarlier rt (σ.store.cursorOf source)
    (τ.store.cursorOf source)) (fun σ => .refl rt _) .trans kept⟩

end Polls

section Printed

/-- A text for a datetime that has no other one. -/
def unary (d : Datetime) : String :=
  String.ofList (List.replicate (Encodable.encode (d.wall, d.offset)) 'x')

def isoformatOf (known : List (Datetime × String)) (d : Datetime) : String :=
  match known.find? (fun p => decide (p.1 = d)) with
  | some p => p.2
  | none => unary d

/-- A calendar that knows the texts of some datetimes. -/
def calendar (known : List (Datetime × String)) : DatetimeLib where
  isoformat := isoformatOf known
  fromisoformat text :=
    match known.find? (fun p => decide (p.2 = text)) with
    | some p => .ok p.1
    | none =>
        match Encodable.decode text.length with
        | some (wall, offset) => .ok ⟨wall, offset⟩
        | none => .error ⟨"ValueError", "Invalid isoformat string"⟩
  str d := String.ofList ((isoformatOf known d).toList.map (fun c => if c = 'T' then ' ' else c))
  localInstant wall := wall

/-- The runtime of a calendar, in UTC. -/
def calendarRuntime (lib : DatetimeLib) (rt : Runtime) : Runtime :=
  { rt with
    isoformat := fun t => lib.isoformat ⟨t, some 0⟩
    fromisoformat := fun text => (lib.fromisoformat text).map (Datetime.instant lib) }

theorem calendar_reads {known : List (Datetime × String)} (once : (known.map Prod.snd).Nodup)
    (other : ∀ p ∈ known, 'x' ∉ p.2.toList ∧ p.2 ≠ "") (d : Datetime) :
    (calendar known).fromisoformat ((calendar known).isoformat d) = .ok d := by
  simp only [calendar, isoformatOf]
  cases printed : known.find? (fun p => decide (p.1 = d)) with
  | some p =>
      have hp := List.mem_of_find?_eq_some printed
      have same : p.1 = d := by simpa using List.find?_some printed
      have found : known.find? (fun q => decide (q.2 = p.2)) = some p := by
        cases read : known.find? (fun q => decide (q.2 = p.2)) with
        | none => exact (List.find?_eq_none.mp read p hp (decide_eq_true rfl)).elim
        | some q =>
            have text : q.2 = p.2 := by simpa using List.find?_some read
            rw [List.inj_on_of_nodup_map once (List.mem_of_find?_eq_some read) hp text]
      simp only [found, same]
  | none =>
      have found : known.find? (fun q => decide (q.2 = unary d)) = none := by
        refine List.find?_eq_none.mpr (fun q hq text => ?_)
        obtain ⟨free, filled⟩ := other q hq
        rw [of_decide_eq_true text] at free filled
        cases n : Encodable.encode (d.wall, d.offset) with
        | zero => exact filled (by rw [unary, n]; rfl)
        | succ n' => exact free (by simp [unary, n])
      have length : (unary d).length = Encodable.encode (d.wall, d.offset) := by
        simp [unary]
      simp only [found, length, Encodable.encodek]

theorem calendar_faithful {known : List (Datetime × String)} (rt : Runtime)
    (once : (known.map Prod.snd).Nodup) (other : ∀ p ∈ known, 'x' ∉ p.2.toList ∧ p.2 ≠ "") :
    Faithful (calendar known) (calendarRuntime (calendar known) rt) := by
  have reads := calendar_reads once other
  constructor
  · intro t
    change ((calendar known).fromisoformat ((calendar known).isoformat ⟨t, some 0⟩)).map _ = _
    rw [reads]
    exact congrArg Except.ok (Int.sub_zero t)
  · intro d
    change ((calendar known).fromisoformat ((calendar known).isoformat d)).map _ = _
    rw [reads]
    rfl

end Printed

section Example

/-- Two days, as a mailbox states them. -/
def may (date : Int) : Datetime := ⟨(20573 + date) * day, some 0⟩

def mayDays : List (Datetime × String) :=
  [(may 1, "2026-05-01T00:00:00+00:00"), (may 2, "2026-05-02T00:00:00+00:00")]

def mayRuntime : Runtime :=
  { calendarRuntime (calendar mayDays) notesRuntime with
    jsonSafe := id
    encodedSize := fun _ => 172
    canonicalHash := fun raw =>
      match raw.get? "message_id" with
      | .ok (some (.str "n")) =>
          "c3838682cd69f0e915adb31056642b275da643a585b70fe914f3023521ed92ec"
      | .ok (some (.str "o")) =>
          "c8ec6bff840d4ecf33b1a566b3a2b9ce0b4401e8f34259a005a5406b01772bee"
      | _ => "" }

def mailbox : ImapSettings where
  IMAP_HOST := "mail"
  IMAP_USERNAME := "u"
  IMAP_PASSWORD := "p"

/-- A message of a day. -/
def letter (date : Int) (messageId : String) : RawMessage where
  uid := "1"
  uidvalidity := some "1"
  messageId := messageId
  host := "mail"
  subject := "Hello"
  sender := "a@b"
  date := may date
  body := ""
  folder := "INBOX"

/-- The moves of a poll that fetches one message. -/
def letterScript (id : Uuid) (cursor : List (Move Exn Choice)) : List (Move Exn Choice) :=
  [.step (.text "c"), .step (.draw id 0), .step .none, .step .none, .step (.mails []),
    .step .none, .step (.draw id 0)] ++ cursor ++
    [.step (.time 0), .step .none, .step (.draw id 0), .step .none, .step .none, .step .none,
      .step (.draw id 0), .step (.draws [(id, 0)]), .step .none, .step .none, .step .none]

/-- The first poll of an empty database fetches one message. -/
def firstLetter (fetched : RawMessage) : Option (Unit × State Unit) :=
  postgres.outcome () (letterScript 1 [.step .none, .step (.draw 1 0)])
    (syncImapMessages (calendar mayDays) mayRuntime {} mailbox)
    (State.facing ⟨{}, ∅, []⟩ (Poll.mailbox [fetched]).remote)

/-- Two polls that fetch one message each. -/
def secondLetter (fetched next : RawMessage) : Option (Unit × State Unit) :=
  (firstLetter fetched).bind (fun x =>
    postgres.outcome () (letterScript 2 [.step .none, .step (.time 0)])
      (syncImapMessages (calendar mayDays) mayRuntime {} mailbox)
      (x.2.facing (Poll.mailbox [next]).remote))

/-- Two polls of a mailbox, with what they leave of the watermark. -/
theorem letters_run {fetched next : RawMessage} {text text' : String}
    (before : (firstLetter fetched).map (fun x => x.2.store.cursorOf "imap") = some (some text))
    (after : (secondLetter fetched next).map (fun x => x.2.store.cursorOf "imap") =
      some (some text')) :
    ∃ υ φ, υ.store.cursorOf "imap" = some text ∧ φ.store.cursorOf "imap" = some text' ∧
      Trace (Poll.Runs (calendar mayDays) mayRuntime {} mailbox) ⟨{}, ∅, []⟩
        [⟨⟨{}, ∅, []⟩, .mailbox [fetched], υ⟩, ⟨υ, .mailbox [next], φ⟩] φ := by
  obtain ⟨⟨_, υ⟩, first, stored⟩ := Option.map_eq_some_iff.mp before
  obtain ⟨⟨_, φ⟩, second, moved⟩ := Option.map_eq_some_iff.mp after
  unfold secondLetter at second
  rw [first, Option.bind_some] at second
  have runs : (Poll.mailbox [fetched]).Runs (calendar mayDays) mayRuntime {} mailbox
      ⟨{}, ∅, []⟩ υ := Engine.completes_of_outcome first
  have runs' : (Poll.mailbox [next]).Runs (calendar mayDays) mayRuntime {} mailbox υ φ :=
    Engine.completes_of_outcome second
  exact ⟨υ, φ, stored, moved, .concat (.concat .nil runs) runs'⟩

theorem mayRuntime_faithful : Faithful (calendar mayDays) mayRuntime := by
  have faithful := @calendar_faithful mayDays notesRuntime (by decide +kernel) (by decide +kernel)
  exact ⟨faithful.time, faithful.date⟩

theorem instantOf_may (date : Int) {text : String} (known : (may date, text) ∈ mayDays) :
    instantOf mayRuntime (some text) = some (may date).wall := by
  rcases List.mem_cons.mp known with first | rest
  · obtain ⟨day, rfl⟩ := Prod.mk.inj first
    rw [day]
    decide +kernel
  · obtain ⟨day, rfl⟩ := Prod.mk.inj (List.mem_singleton.mp rest)
    rw [day]
    decide +kernel

/-- A message of the first day, and then one of the second day. -/
theorem watermarks_advance_letters : ∃ υ φ : State Unit,
    (υ.store.cursorOf "imap" = some "2026-05-01T00:00:00+00:00" ∧
      φ.store.cursorOf "imap" = some "2026-05-02T00:00:00+00:00") ∧
    NotEarlier mayRuntime (υ.store.cursorOf "imap") (φ.store.cursorOf "imap") := by
  have older : (firstLetter (letter 1 "o")).map (fun x => x.2.store.cursorOf "imap") =
      some (some "2026-05-01T00:00:00+00:00") := by decide +kernel
  have newer : (secondLetter (letter 1 "o") (letter 2 "n")).map
      (fun x => x.2.store.cursorOf "imap") = some (some "2026-05-02T00:00:00+00:00") := by
    decide +kernel
  obtain ⟨υ, φ, before, after, run⟩ := letters_run older newer
  have unique : (⟨{}, ∅, []⟩ : State Unit).store.EventIdsUnique :=
    fun x hx => (List.not_mem_nil hx).elim
  have advance := watermarks_advance mayRuntime_faithful unique run ?_ "imap"
  · exact ⟨υ, φ, ⟨before, after⟩, advance.1 ⟨υ, .mailbox [letter 2 "n"], φ⟩ (by simp)⟩
  · intro x hx
    rcases List.mem_cons.mp hx with first | rest
    · subst first
      intro _ t known
      cases known
    · rw [List.mem_singleton.mp rest]
      intro _ t known raw fetched _
      change instantOf mayRuntime (υ.store.cursorOf "imap") = some t at known
      rw [before, instantOf_may 1 (by decide)] at known
      cases known
      rw [List.mem_singleton.mp fetched]
      decide +kernel

/-- The first day was before the second. -/
theorem watermark_goes_back : ¬ ∀ steps τ,
    Trace (Poll.Runs (calendar mayDays) mayRuntime {} mailbox) ⟨{}, ∅, []⟩ steps τ →
      ∀ x ∈ steps, ∀ source,
        NotEarlier mayRuntime (x.before.store.cursorOf source) (x.after.store.cursorOf source) := by
  intro advance
  have newer : (firstLetter (letter 2 "n")).map (fun x => x.2.store.cursorOf "imap") =
      some (some "2026-05-02T00:00:00+00:00") := by decide +kernel
  have older : (secondLetter (letter 2 "n") (letter 1 "o")).map
      (fun x => x.2.store.cursorOf "imap") = some (some "2026-05-01T00:00:00+00:00") := by
    decide +kernel
  obtain ⟨υ, φ, before, after, run⟩ := letters_run newer older
  obtain ⟨t, denoted, le⟩ := advance _ φ run ⟨υ, .mailbox [letter 1 "o"], φ⟩ (by simp) "imap"
    (may 2).wall (by
      change instantOf mayRuntime (υ.store.cursorOf "imap") = _
      rw [before]
      exact instantOf_may 2 (by decide))
  change instantOf mayRuntime (φ.store.cursorOf "imap") = some t at denoted
  rw [after, instantOf_may 1 (by decide)] at denoted
  cases denoted
  exact absurd le (by decide)

end Example

end OmniSync
