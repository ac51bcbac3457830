import OmniSync.Jira.Normalization
import OmniSync.RawPayloads.Content
import OmniSync.Telegram.Polling

/-!
# Which items are parsed

An issue or a message whose parts are as documented is parsed to an event, unless something
is null that must not be, or the date of the message is one that the platform cannot convert.
-/

namespace OmniSync

/-- The platform converts the seconds from `first` to `last`, of which some make no `datetime`.
Other ones are refused. -/
structure Converts (rt : Runtime) (first last : Int) : Prop where
  within : ∀ date, first ≤ date → date ≤ last → ∀ e, rt.fromtimestamp date = .error e →
    e.kind = "ValueError"
  beyond : ∀ date, date < first ∨ last < date → ∃ e, rt.fromtimestamp date = .error e ∧
    (e.kind = "OverflowError" ∨ e.kind = "OSError")

/-- The time that a date denotes, if there is any. -/
def usableTime (rt : Runtime) (date : Option Int) : Option Time :=
  date.bind (fun date => if date = 0 then none else (rt.fromtimestamp date).toOption)

/-- The message is parsed. An event has the time of the message, or the current one. -/
def MessageParsed (rt : Runtime) (now : Time) (message : TelegramMessage)
    (rawPayloadId : Option Uuid) : Prop :=
  ∃ result, parseMessageToEvent rt now message rawPayloadId = .ok result ∧
    ∀ e, result = some e → e.timestamp = (usableTime rt message.date).getD now

/-- If the message has any text, its date can be converted. -/
def Convertible (first last : Int) (message : TelegramMessage) : Prop :=
  message.some? ≠ none → ∀ date, message.date = some date → date ≠ 0 →
    first ≤ date ∧ date ≤ last

section Telegram

variable {rt : Runtime} {first last : Int} {now : Time} {message : TelegramMessage}
variable {rawPayloadId : Option Uuid}

/-- Within the range, the time of a message is that of its date, or the current one. -/
theorem messageTime_eq (converts : Converts rt first last) {date : Option Int}
    (inRange : ∀ seconds, date = some seconds → seconds ≠ 0 → first ≤ seconds ∧ seconds ≤ last) :
    messageTime rt date now = .ok ((usableTime rt date).getD now) := by
  cases date with
  | none => rfl
  | some seconds =>
      simp only [messageTime, usableTime, Option.bind_some]
      split
      · rfl
      · rename_i some
        obtain ⟨after, before⟩ := inRange seconds rfl some
        cases converted : rt.fromtimestamp seconds with
        | ok t => rfl
        | error e =>
            have kind := converts.within seconds after before e converted
            have suppresses : suppressed e = true := by simp [suppressed, kind]
            exact if_pos suppresses

theorem messageTime_error (converts : Converts rt first last) {seconds : Int} (some : seconds ≠ 0)
    (beyond : seconds < first ∨ last < seconds) :
    ∃ e, messageTime rt (.some seconds) now = .error e := by
  obtain ⟨e, converted, kind⟩ := converts.beyond seconds beyond
  have raises : suppressed e = false := by
    rcases kind with kind | kind <;> simp [suppressed, kind]
  refine ⟨e, ?_⟩
  simp only [messageTime, if_neg some, converted, raises, Bool.false_eq_true, if_false]

theorem messageParsed_iff (converts : Converts rt first last) :
    MessageParsed rt now message rawPayloadId ↔ Convertible first last message := by
  unfold MessageParsed Convertible
  cases content : message.some? with
  | none =>
      rw [parseMessageToEvent_none content]
      exact ⟨fun _ some => (some rfl).elim, fun _ => ⟨none, rfl, fun _ impossible => nomatch impossible⟩⟩
  | some text =>
      rw [parseMessageToEvent_some content]
      constructor
      · rintro ⟨result, parsed, _⟩ _ date dated some
        by_contra outside
        rw [not_and_or, not_le, not_le] at outside
        obtain ⟨e, failed⟩ : ∃ e, messageTime rt (.some date) now = .error e :=
          messageTime_error converts some outside
        rw [dated, failed] at parsed
        cases parsed
      · intro convertible
        rw [messageTime_eq converts (convertible (Option.some_ne_none text))]
        refine ⟨_, rfl, ?_⟩
        rintro _ ⟨⟩
        rfl

end Telegram

/-- A documented issue is parsed if and only if nothing is null that must not be and its
description is not nested too deeply. A message is if and only if its date can be converted. -/
theorem items_parsed_iff {lib : DatetimeLib} {rt : Runtime} {first last : Int} {frames : Nat}
    {now : Time} (rejects : lib.RejectsByValue) (converts : Converts rt first last) :
    (∀ raw rawPayloadId, IsIssue raw →
      ((∃ e, JiraConnector.normalize lib rt frames now raw rawPayloadId = .ok (some e)) ↔
        Digestible frames raw)) ∧
    ∀ message rawPayloadId,
      MessageParsed rt now message rawPayloadId ↔ Convertible first last message :=
  ⟨fun _ _ documented => jira_normalize_ok_iff rejects documented,
    fun _ _ => messageParsed_iff converts⟩

section Example

/-- The first and the last second of the years that fit into 32 bits. -/
def firstSecond : Int := -67768040609740800

def lastSecond : Int := 67768036191676799

/-- `fromtimestamp` on a 64-bit platform. -/
def fromSeconds (seconds : Int) : Except Exn Time :=
  if seconds < firstSecond ∨ lastSecond < seconds then
    if -9223372036854775808 ≤ seconds ∧ seconds ≤ 9223372036854775807 then
      .error ⟨"OSError", "Value too large for defined data type"⟩
    else .error ⟨"OverflowError", "timestamp out of range for platform time_t"⟩
  else if seconds < -62135596800 ∨ 253402300799 < seconds then
    .error ⟨"ValueError", "year is out of range"⟩
  else .ok (seconds * second)

def platformRuntime : Runtime := { textRuntime (fun _ => "") with fromtimestamp := fromSeconds }

/-- No text is a date. -/
def noDates : DatetimeLib where
  isoformat _ := ""
  fromisoformat _ := .error ⟨"ValueError", "Invalid isoformat string"⟩
  str _ := ""
  localInstant := id

theorem noDates_rejects : noDates.RejectsByValue := by
  rintro _ _ ⟨⟩
  rfl

theorem platformRuntime_converts : Converts platformRuntime firstSecond lastSecond where
  within date after before e failed := by
    change fromSeconds date = .error e at failed
    unfold fromSeconds at failed
    rw [if_neg (by omega)] at failed
    split at failed
    · cases failed
      rfl
    · cases failed
  beyond date outside := by
    change ∃ e, fromSeconds date = .error e ∧ _
    unfold fromSeconds
    rw [if_pos outside]
    split
    · exact ⟨_, rfl, .inr rfl⟩
    · exact ⟨_, rfl, .inl rfl⟩

def issueWith (fields : Json) : Json := .obj [("key", .str "OPS-1"), ("fields", fields)]

/-- A text in a paragraph of a description. -/
def textNode : Json := .obj [("type", .str "text"), ("text", .str "No space left")]

def paragraph : Json := .obj [("type", .str "paragraph"), ("content", .arr [textNode])]

def description : Json := .obj [("type", .str "doc"), ("content", .arr [paragraph])]

def reporter : Json :=
  .obj [("accountId", .null), ("emailAddress", .str "a@b"), ("displayName", .str "Ann")]

/-- The fields of an issue whose last update is no date. -/
def describedFields : List (String × Json) :=
  [("summary", .str "Disk full"), ("description", description),
    ("status", .obj [("name", .str "Open")]), ("reporter", reporter), ("updated", .str "today")]

def datedMessage (date : Int) : TelegramMessage where
  messageId := 1
  date := some date
  text := some "hi"

theorem inside_description {depth : Nat} {node : Json} (h : Inside description depth node) :
    depth ≤ 2 ∧ (node = description ∨ node = paragraph ∨ node = textNode) := by
  cases h with
  | here => exact ⟨Nat.zero_le 2, .inl rfl⟩
  | deeper content there rest =>
      cases content
      obtain rfl := List.mem_singleton.mp there
      cases rest with
      | here => exact ⟨by decide, .inr (.inl rfl)⟩
      | deeper content there rest =>
          cases content
          obtain rfl := List.mem_singleton.mp there
          cases rest with
          | here => exact ⟨by decide, .inr (.inr rfl)⟩
          | deeper content there rest => cases content

theorem describedFields_documented : IsFields (.obj describedFields) := by
  have text : ∀ t, Nullable Json.IsText (some (.str t)) := by
    rintro t _ ⟨⟩
    exact .inr ⟨t, rfl⟩
  have null : Nullable Json.IsText (some .null) := by
    rintro _ ⟨⟩
    exact .inl rfl
  have missing : ∀ documented, Nullable documented none :=
    fun _ _ impossible => (nomatch impossible)
  have list : ∀ items, Nullable Json.IsList (some (.arr items)) := by
    rintro items _ ⟨⟩
    exact .inr ⟨items, rfl⟩
  refine ⟨_, rfl, text _, ?_, ?_, ?_, text _⟩
  · rintro _ ⟨⟩
    refine .inr (.inr (fun depth node inside => ?_))
    rcases (inside_description inside).2 with rfl | rfl | rfl
    · exact ⟨_, rfl, missing _, list _⟩
    · exact ⟨_, rfl, missing _, list _⟩
    · exact ⟨_, rfl, text _, missing _⟩
  · rintro _ ⟨⟩
    exact .inr ⟨_, rfl, text _⟩
  · rintro _ ⟨⟩
    exact .inr ⟨_, rfl, null, text _, text _⟩

theorem description_legible : LegibleDescription 1000 (some description) := by
  rintro _ ⟨⟩ depth node inside
  obtain ⟨below, shape⟩ := inside_description inside
  refine ⟨by omega, ?_⟩
  rcases shape with rfl | rfl | rfl <;> rintro _ ⟨⟩
  all_goals exact ⟨nofun, nofun⟩

/-- An issue with a nested description and a reporter without an account id, and a message of a
year that is out of range. -/
theorem described_items_parsed :
    (∃ e, JiraConnector.normalize noDates platformRuntime 1000 0
      (issueWith (.obj describedFields)) none = .ok (some e)) ∧
        MessageParsed platformRuntime 0 (datedMessage 1000000000000) none := by
  refine ⟨((items_parsed_iff noDates_rejects platformRuntime_converts).1 _ _ ?_).mpr ?_,
    ((@items_parsed_iff noDates _ _ _ 1000 0 noDates_rejects platformRuntime_converts).2 _ _).mpr ?_⟩
  · refine ⟨_, "OPS-1", rfl, by decide, rfl, ?_⟩
    rintro _ ⟨⟩
    exact .inr describedFields_documented
  · rintro _ ⟨⟩
    refine ⟨nofun, ?_⟩
    rintro _ ⟨⟩
    refine ⟨description_legible, ?_⟩
    rintro _ ⟨⟩ impossible
    cases impossible
  · rintro _ _ ⟨⟩ _
    decide

/-- An issue whose fields are null, one whose reporter has a null address, and a message of a
year that the platform cannot count. -/
theorem null_items_raise :
    (IsIssue (issueWith .null) ∧
      ∀ lib rt frames now, ¬ ∃ e, JiraConnector.normalize lib rt frames now (issueWith .null) none =
        .ok (some e)) ∧
    (∃ raw, IsIssue raw ∧ raw = issueWith (.obj [("reporter", .obj [("emailAddress", .null)])]) ∧
      ¬ ∃ e, JiraConnector.normalize noDates platformRuntime 1000 0 raw none = .ok (some e)) ∧
    ¬ MessageParsed platformRuntime 0 (datedMessage 100000000000000000) none := by
  have missing : ∀ documented, Nullable documented none :=
    fun _ _ impossible => (nomatch impossible)
  refine ⟨⟨⟨_, "OPS-1", rfl, by decide, rfl, ?_⟩, ?_⟩, ⟨_, ⟨_, "OPS-1", rfl, by decide, rfl, ?_⟩, rfl, ?_⟩,
    ?_⟩
  · rintro _ ⟨⟩
    exact .inl rfl
  · rintro lib rt frames now ⟨_, impossible⟩
    cases impossible
  · rintro _ ⟨⟩
    refine .inr ⟨_, rfl, missing _, missing _, missing _, ?_, missing _⟩
    rintro _ ⟨⟩
    refine .inr ⟨_, rfl, missing _, ?_, missing _⟩
    rintro _ ⟨⟩
    exact .inl rfl
  · rintro ⟨_, impossible⟩
    cases impossible
  · rintro ⟨_, impossible, _⟩
    cases impossible

end Example

end OmniSync
