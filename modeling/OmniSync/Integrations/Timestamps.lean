import OmniSync.Imap.Parsing
import OmniSync.Imap.Polling
import OmniSync.Integrations.Batch
import OmniSync.Integrations.Items
import OmniSync.Integrations.Parsing

/-!
# Which timestamps are instants

A timestamp that is parsed from a text without an offset is naive. Naive and aware datetimes
cannot be compared, and of naive ones alone the latest is no instant.
-/

namespace OmniSync

section Collect

variable {α : Type} (normalize : α → Option Uuid → Except Exn (Option NormalizedEventCreate))

/-- The loop over the fetched items, each with the id of its raw payload. -/
def collectEvents (items : List (α × Option Uuid)) :
    Except Exn (List NormalizedEventCreate × Option Stamp) :=
  items.foldlM (fun collected x => collectEvent normalize collected x.1 x.2) ([], none)

variable {normalize} {items : List (α × Option Uuid)} {x : α × Option Uuid}
variable {batch : List NormalizedEventCreate}
variable {collected : List NormalizedEventCreate × Option Stamp}

theorem collectEvents_concat : collectEvents normalize (items ++ [x]) =
    collectEvents normalize items >>= fun collected => collectEvent normalize collected x.1 x.2 := by
  unfold collectEvents
  rw [List.foldlM_append]
  congr 1
  funext collected
  rw [List.foldlM_cons]
  exact bind_pure _

/-- A maximum of a batch has gone through a maximum of the events before the last one. -/
theorem latest_of_concat {result : Option NormalizedEventCreate} {maxTs : Option Stamp}
    (h : latest (batch ++ result.toList) = .ok maxTs) : ∃ before, latest batch = .ok before := by
  cases result with
  | none =>
      rw [Option.toList_none, List.append_nil] at h
      exact ⟨maxTs, h⟩
  | some e =>
      unfold latest at h
      rw [Option.toList_some, List.map_append, List.map_singleton, latestBy_concat] at h
      obtain ⟨before, first, _⟩ := bind_ok_iff.mp h
      exact ⟨before, first⟩

/-- The loop collects the events of the items and their maximum, and fails if an item cannot be
normalized or there is no maximum. -/
theorem collectEvents_ok_iff : collectEvents normalize items = .ok collected ↔
    Batched (fun x result => normalize x.1 x.2 = .ok result) items collected.1 ∧
      latest collected.1 = .ok collected.2 := by
  induction items using List.reverseRecOn generalizing collected with
  | nil =>
      constructor
      · rintro ⟨⟩
        exact ⟨.nil, rfl⟩
      · obtain ⟨events, maxTs⟩ := collected
        rintro ⟨⟨results, each, rfl⟩, found⟩
        cases each
        cases found
        rfl
  | append_singleton items x ih =>
      rw [collectEvents_concat, bind_ok_iff]
      constructor
      · rintro ⟨before, first, last⟩
        obtain ⟨batched, found⟩ := ih.mp first
        obtain ⟨result, made, events, maximum⟩ := (collectEvent_ok found).mp last
        refine ⟨?_, maximum⟩
        rw [events]
        exact batched.concat made
      · rintro ⟨batched, maximum⟩
        obtain ⟨batch, result, first, made, events⟩ := batched.of_concat
        rw [events] at maximum
        obtain ⟨before, found⟩ := latest_of_concat maximum
        rw [← events] at maximum
        exact ⟨(batch, before), ih.mpr ⟨first, found⟩,
          (collectEvent_ok found).mpr ⟨result, made, events, maximum⟩⟩

/-- The maximum over the fetched items is computed, and is an instant that no timestamp of their
events exceeds. -/
def ItemsHaveLatest (normalize : α → Option Uuid → Except Exn (Option NormalizedEventCreate))
    (items : List (α × Option Uuid)) : Prop :=
  ∃ collected, collectEvents normalize items = .ok collected ∧ ∀ e ∈ collected.1,
    ∃ last, collected.2 = some last ∧ last.datetime.Aware ∧
      e.stamp.datetime.gt last.datetime = .ok false

/-- The maximum is an instant if and only if every item can be normalized and all timestamps are
aware. -/
theorem itemsHaveLatest_iff : ItemsHaveLatest normalize items ↔
    ∀ x ∈ items, ∃ result, normalize x.1 x.2 = .ok result ∧
      ∀ e, result = some e → e.stamp.datetime.Aware := by
  constructor
  · rintro ⟨collected, loop, bound⟩ x hx
    obtain ⟨batched, _⟩ := collectEvents_ok_iff.mp loop
    obtain ⟨result, made, member⟩ := batched.exists_event hx
    refine ⟨result, made, fun e same => ?_⟩
    obtain ⟨last, _, aware, le⟩ := bound e (member e same)
    exact Datetime.aware_of_gt le aware
  · intro each
    obtain ⟨batch, batched⟩ := Batched.exists_of_forall (fun x hx => (each x hx).imp (fun _ h => h.1))
    have aware : ∀ stamp ∈ batch.map NormalizedEventCreate.stamp, stamp.datetime.Aware := by
      rw [List.forall_mem_map]
      intro e he
      obtain ⟨x, hx, made⟩ := batched.exists_item he
      obtain ⟨result, same, aware⟩ := each x hx
      rw [made] at same
      exact aware e (Except.ok.inj same).symm
    obtain ⟨maxTs, found, bound⟩ := haveLatest_iff.mpr aware
    exact ⟨(batch, maxTs), collectEvents_ok_iff.mpr ⟨batched, found⟩,
      fun e he => bound e.stamp (List.mem_map_of_mem he)⟩

end Collect

section Timestamps

variable (lib : DatetimeLib) (rt : Runtime) (frames : Nat) (now : Time)

/-- A date text has an offset, or is none at all. -/
def Zoned (text : String) : Prop :=
  text ≠ "" → ∀ d, lib.fromisoformat (replaceZ text) = .ok d → d.Aware

/-- The date of the item has an offset, or is none at all. -/
def RawItem.Zoned : RawItem → Prop
  | object .. => True
  | email raw => raw.date.Aware
  | issue raw => ∀ members fields text, raw = .obj members →
      Json.member members "fields" = some (.obj fields) →
        Json.member fields "updated" = some (.str text) → OmniSync.Zoned lib text
  | commit _ c => ∀ author text, c.commit.author = some author → author.date = some text →
      OmniSync.Zoned lib text
  | pullRequest _ pr => ∀ text, pr.createdAt = some text → OmniSync.Zoned lib text
  | message _ => True

end Timestamps

section Aware

variable {lib : DatetimeLib} {rt : Runtime} {frames : Nat} {now : Time}
variable {rawPayloadId : Option Uuid} {e : NormalizedEventCreate} {d : Datetime}

theorem parsedDate_aware {text : String} (some : text ≠ "") (h : parsedDate lib text now = .ok d) :
    d.Aware ↔ Zoned lib text := by
  unfold parsedDate at h
  cases parsed : lib.fromisoformat (replaceZ text) with
  | ok d' =>
      rw [parsed] at h
      cases h
      constructor
      · intro aware _ d' same
        rw [parsed] at same
        cases same
        exact aware
      · exact fun zoned => zoned some d parsed
  | error err =>
      rw [parsed] at h
      dsimp only at h
      split at h
      · cases h
        refine ⟨fun _ _ d' same => ?_, fun _ => Datetime.utc_aware now⟩
        rw [parsed] at same
        cases same
      · cases h

theorem itemTimestamp_aware {date : Option String} (h : itemTimestamp lib date now = .ok d) :
    d.Aware ↔ ∀ text, date = some text → Zoned lib text := by
  cases date with
  | none =>
      cases h
      exact ⟨fun _ _ impossible => (nomatch impossible), fun _ => Datetime.utc_aware now⟩
  | some text =>
      have single : (∀ text', some text = some text' → Zoned lib text') ↔ Zoned lib text :=
        ⟨fun h => h text rfl, by rintro h _ ⟨⟩; exact h⟩
      rw [single]
      simp only [itemTimestamp] at h
      split at h
      · rename_i empty
        cases h
        exact ⟨fun _ some => (some empty).elim, fun _ => Datetime.utc_aware now⟩
      · rename_i some
        exact parsedDate_aware some h

theorem updatedAt_aware {updated : Option Json}
    (h : JiraConnector.updatedAt lib now updated = .ok d) :
    d.Aware ↔ ∀ text, updated = some (.str text) → Zoned lib text := by
  unfold JiraConnector.updatedAt at h
  split at h
  · cases h
    exact ⟨fun _ _ impossible => (nomatch impossible), fun _ => Datetime.utc_aware now⟩
  · rename_i updated
    split at h
    · rename_i falsy
      cases h
      refine ⟨fun _ text same => ?_, fun _ => Datetime.utc_aware now⟩
      cases same
      intro some
      simp [Json.truthy, some] at falsy
    · rename_i truthy
      split at h
      · rename_i text
        have some : text ≠ "" := by
          rintro rfl
          exact truthy rfl
        rw [parsedDate_aware some h]
        constructor
        · rintro zoned _ ⟨⟩
          exact zoned
        · exact fun h => h text rfl
      · cases h

/-- The date of an issue is the `updated` that the connector finds in it. -/
theorem zoned_issue_iff {members : List (String × Json)} {updated : Option Json}
    (known : ((Json.member members "fields").getD (.obj [])).get? "updated" = .ok updated) :
    (∀ text, updated = some (.str text) → Zoned lib text) ↔
      RawItem.Zoned lib (.issue (.obj members)) := by
  cases there : Json.member members "fields" with
  | none =>
      rw [there] at known
      cases known
      refine ⟨?_, fun _ _ impossible => (nomatch impossible)⟩
      rintro _ _ fields text ⟨⟩ impossible
      rw [there] at impossible
      cases impossible
  | some v =>
      rw [there] at known
      cases v with
      | obj fields =>
          obtain rfl : Json.member fields "updated" = updated := Except.ok.inj known
          constructor
          · rintro zoned _ _ text ⟨⟩ has date
            rw [there] at has
            cases has
            exact zoned text date
          · exact fun h text date => h members fields text rfl there date
      | _ => cases known

/-- The timestamp of an event is aware if the date of its item is. -/
theorem normalize_aware {item : RawItem}
    (h : item.normalize lib rt frames now rawPayloadId = .ok (some e)) :
    e.stamp.datetime.Aware ↔ item.Zoned lib := by
  have single : ∀ made : Except Exn NormalizedEventCreate,
      made.map some = .ok (some e) → made = .ok e := by
    intro made same
    cases made with
    | error _ => cases same
    | ok e =>
        cases same
        rfl
  have dated : ∀ d : Datetime, e.naive = d.naive → (e.stamp.datetime.Aware ↔ d.Aware) := by
    intro d same
    rw [Stamp.datetime_aware, Datetime.aware_iff_naive, ← same]
    rfl
  cases item with
  | object bucket o =>
      obtain ⟨_, _, _, _, _, _, aware⟩ := object_made h
      exact ⟨fun _ => trivial, fun _ => Stamp.datetime_aware.mpr aware⟩
  | email raw =>
      obtain ⟨_, _, _, _, _, _, same⟩ := email_made (Except.ok.inj h)
      exact dated raw.date same
  | issue raw =>
      obtain ⟨members, key, fields, rfl, named, rfl, made⟩ := issue_made h
      obtain ⟨_, _, updated, d, known, parsed, _, same⟩ := issueEvent_made made
      rw [dated d same, updatedAt_aware parsed]
      exact zoned_issue_iff known
  | commit repoFullName c =>
      obtain ⟨d, parsed, rfl⟩ := github_made (parses_commit lib) (single _ h)
      refine (dated d rfl).trans ((itemTimestamp_aware parsed).trans ?_)
      change (∀ text, c.commit.author.bind GitHubCommitAuthor.date = some text → _) ↔ _
      simp only [Option.bind_eq_some_iff]
      constructor
      · exact fun h author text there date => h text ⟨author, there, date⟩
      · rintro h text ⟨author, there, date⟩
        exact h author text there date
  | pullRequest repoFullName pr =>
      obtain ⟨d, parsed, rfl⟩ := github_made (parses_pullRequest lib) (single _ h)
      exact (dated d rfl).trans (itemTimestamp_aware parsed)
  | message m =>
      obtain ⟨text, timestamp, _, _, rfl⟩ := message_made h
      exact ⟨fun _ => trivial, fun _ => Stamp.datetime_aware.mpr rfl⟩

/-- The date of an email is aware unless the header shows a naive one. -/
theorem parseMessage_aware {α : Type} {mailLib : MailLib} {server : MailServer α} {folder : String}
    {msgId : Nat} {msg : Email} {raw : RawMessage} (clock : (server.now msgId).Aware)
    (h : IMAPClient.parseMessage mailLib frames server folder msgId msg = .ok raw) :
    raw.date.Aware ↔ ∀ d, IMAPClient.dateOf mailLib msg = some d → d.Aware := by
  obtain ⟨letter, decoded, rfl⟩ := parseMessage_ok.mp h
  change (letter.date.getD (server.now msgId)).Aware ↔ _
  rw [decodeEmail_date decoded]
  cases IMAPClient.dateOf mailLib msg with
  | none => exact ⟨fun _ _ impossible => (nomatch impossible), fun _ => clock⟩
  | some d =>
      constructor
      · rintro aware _ ⟨⟩
        exact aware
      · exact fun h => h d rfl

end Aware

/-- An event has an aware timestamp if the date of its item has an offset or is none at all, and
so does an email. Where every item can be normalized and all of them have, and only there, the
maximum is an instant that is not earlier than any of them. -/
theorem timestamps_aware_iff (lib : DatetimeLib) (rt : Runtime) (frames : Nat) (now : Time)
    (mailLib : MailLib) (server : MailServer (List UInt8)) (folder : String)
    (clock : ∀ msgId, (server.now msgId).Aware) :
    (∀ item rawPayloadId e, RawItem.normalize lib rt frames now item rawPayloadId = .ok (some e) →
      (e.stamp.datetime.Aware ↔ item.Zoned lib)) ∧
    (∀ items : List (RawItem × Option Uuid),
      ItemsHaveLatest (RawItem.normalize lib rt frames now) items ↔ ∀ x ∈ items, ∃ result,
        x.1.normalize lib rt frames now x.2 = .ok result ∧
          ∀ e, result = some e → x.1.Zoned lib) ∧
    (∀ msgId msg raw, IMAPClient.parseMessage mailLib frames server folder msgId msg = .ok raw →
      (raw.date.Aware ↔ ∀ d, IMAPClient.dateOf mailLib msg = some d → d.Aware)) ∧
    ∀ raws : List RawMessage,
      (∃ maxDate, latestDate raws = .ok maxDate ∧ ∀ raw ∈ raws, ∃ last, maxDate = some last ∧
        last.Aware ∧ raw.date.gt last = .ok false) ↔ ∀ raw ∈ raws, raw.date.Aware := by
  refine ⟨fun _ _ _ made => normalize_aware made, fun items => ?_,
    fun _ _ _ parsed => parseMessage_aware (clock _) parsed, fun raws => ?_⟩
  · refine itemsHaveLatest_iff.trans (forall₂_congr (fun x _ => exists_congr (fun result => ?_)))
    refine and_congr_right (fun made => forall₂_congr (fun e same => ?_))
    exact normalize_aware (made.trans (congrArg Except.ok same))
  · have bound : HaveLatest id (raws.map RawMessage.date) ↔ _ := haveLatest_iff
    unfold HaveLatest at bound
    rw [List.forall_mem_map] at bound
    refine Iff.trans (exists_congr (fun maxDate => and_congr_right (fun _ => ?_))) bound
    rw [List.forall_mem_map]
    rfl

section Example

/-- The first of May 2026 without an offset, and two hours ahead. -/
def mayDates : DatetimeLib :=
  { noDates with
    fromisoformat := fun text =>
      if text = "2026-05-01T00:00:00" then .ok ⟨1777593600000000, none⟩
      else if text = "2026-05-01T00:00:00+02:00" then .ok ⟨1777593600000000, some 7200000000⟩
      else .error ⟨"ValueError", "Invalid isoformat string"⟩ }

def updatedIssue (updated : String) : RawItem :=
  .issue (issueWith (.obj [("updated", .str updated)]))

/-- An issue whose date has an offset, one without a date, and one without a key. -/
def zonedIssues : List (RawItem × Option Uuid) :=
  [(updatedIssue "2026-05-01T00:00:00+02:00", some 1), (updatedIssue "", some 2),
    (.issue (.obj []), some 3)]

theorem zoned_may : Zoned mayDates "2026-05-01T00:00:00+02:00" := by
  intro _ d parsed
  have same : mayDates.fromisoformat (replaceZ "2026-05-01T00:00:00+02:00") =
      .ok ⟨1777593600000000, some 7200000000⟩ := by decide
  rw [same] at parsed
  cases parsed
  exact fun impossible => (nomatch impossible)

/-- The maximum over issues with an offset, without a date and without a key. -/
theorem zoned_issues_have_latest :
    ItemsHaveLatest (RawItem.normalize mayDates platformRuntime 1000 0) zonedIssues := by
  refine ((timestamps_aware_iff mayDates platformRuntime 1000 0 asciiLib (greetingServer "us-ascii")
    "INBOX"
    (fun _ => Datetime.utc_aware 0)).2.1 zonedIssues).mpr ?_
  intro x hx
  have issues : ∀ updated, Zoned mayDates updated → (updatedIssue updated).Zoned mayDates := by
    rintro updated zoned _ _ text ⟨⟩ ⟨⟩ ⟨⟩
    exact zoned
  rcases List.mem_cons.mp hx with rfl | hx
  · exact ⟨_, rfl, fun _ _ => issues _ zoned_may⟩
  · rcases List.mem_cons.mp hx with rfl | hx
    · exact ⟨_, rfl, fun _ _ => issues _ (fun some => (some rfl).elim)⟩
    · rw [List.mem_singleton.mp hx]
      exact ⟨_, rfl, fun _ impossible => (nomatch impossible)⟩

/-- An issue whose date has no offset, and one without a date. -/
def mixedIssues : List (RawItem × Option Uuid) :=
  [(updatedIssue "2026-05-01T00:00:00", some 1), (updatedIssue "", some 2)]

/-- A naive timestamp is compared with an aware one, and so is the date of an email. -/
theorem naive_timestamps_raise :
    ((∀ x ∈ mixedIssues, ∃ e,
        x.1.normalize mayDates platformRuntime 1000 0 x.2 = .ok (some e)) ∧
      collectEvents (RawItem.normalize mayDates platformRuntime 1000 0) mixedIssues =
        .error ⟨"TypeError", "can't compare offset-naive and offset-aware datetimes"⟩) ∧
    ∃ raws : List RawMessage, latestDate raws =
      .error ⟨"TypeError", "can't compare offset-naive and offset-aware datetimes"⟩ := by
  refine ⟨⟨fun x hx => ?_, rfl⟩, [⟨"1", some "1", "m", "mail", "s", "a", ⟨0, none⟩, "", "INBOX"⟩,
    ⟨"2", some "1", "n", "mail", "s", "a", .utc 0, "", "INBOX"⟩], rfl⟩
  rcases List.mem_cons.mp hx with rfl | hx
  · exact ⟨_, rfl⟩
  · rw [List.mem_singleton.mp hx]
    exact ⟨_, rfl⟩

end Example

end OmniSync
