import OmniSync.Integrations.Identity
import OmniSync.Integrations.Items
import OmniSync.Integrations.Parsing

/-!
# Which events fit their columns

The columns of an event have widths, and nothing checks them before the insertion. Whether the
event of an item fits depends on the lengths of the texts that the item consists of.
-/

namespace OmniSync

/-- The event fits into the columns of its row. -/
structure NormalizedEventCreate.Fits (e : NormalizedEventCreate) : Prop where
  externalId : e.externalId.length ≤ 255
  source : e.source.length ≤ 50
  authorId : e.authorId.length ≤ 255
  authorName : e.authorName.length ≤ 255
  eventType : e.eventType.length ≤ 50

section Short

/-- The first one of account id and address is short, and so is the name. -/
structure ShortReporter (reporter : List (String × Json)) : Prop where
  account : ∀ text, Json.member reporter "accountId" = some (.str text) → text.length ≤ 255
  email : (∀ text, Json.member reporter "accountId" = some (.str text) → text = "") →
    ∀ text, Json.member reporter "emailAddress" = some (.str text) → text.length ≤ 255
  display : ∀ text, Json.member reporter "displayName" = some (.str text) → text.length ≤ 255

/-- The first and the last name are short together, or the username is if there are none. -/
def TelegramUser.ShortName (user : TelegramUser) : Prop :=
  let first := user.firstName.getD ""
  let last := user.lastName.getD ""
  if first = "" ∧ last = "" then (user.username.getD "").length ≤ 255
  else first.length + last.length + (if first = "" ∨ last = "" then 0 else 1) ≤ 255

/-- The texts of the item are short enough. -/
def RawItem.Short (rt : Runtime) : RawItem → Prop
  | object bucket o => bucket.length + o.key.length ≤ 244
  | email raw => raw.sender.length ≤ 255 ∧
      (raw.messageId ≠ "" → raw.messageId.length ≤ 246) ∧
        (raw.messageId = "" →
          raw.host.length + raw.folder.length + raw.epoch.length + raw.uid.length ≤ 247)
  | issue raw => ∀ members, raw = .obj members →
      (∀ key, Json.member members "key" = some key → (formatted rt key).length ≤ 250) ∧
        ∀ fields reporter, Json.member members "fields" = some (.obj fields) →
          Json.member fields "reporter" = some (.obj reporter) → ShortReporter reporter
  | commit _ c => c.sha.length ≤ 255 ∧ ∀ author, c.commit.author = some author →
      (author.email.getD "").length ≤ 255 ∧ (author.name.getD "").length ≤ 255
  | pullRequest _ pr => (toString pr.id).length ≤ 255 ∧
      ∀ user, pr.user = some user → user.login.length ≤ 255
  | message m => (toString m.messageId).length ≤ 255 ∧
      ∀ user, m.fromUser = some user → (toString user.id).length ≤ 255 ∧ user.ShortName

end Short

section Widths

variable {lib : DatetimeLib} {rt : Runtime} {frames : Nat} {now : Time}
variable {rawPayloadId : Option Uuid} {e : NormalizedEventCreate}

/-- The names of the sources and of the types are short. -/
theorem fits_iff (source : e.source.length ≤ 50) (eventType : e.eventType.length ≤ 50) :
    e.Fits ↔ e.externalId.length ≤ 255 ∧ e.authorId.length ≤ 255 ∧ e.authorName.length ≤ 255 :=
  ⟨fun h => ⟨h.externalId, h.authorId, h.authorName⟩,
    fun h => ⟨h.1, source, h.2.1, h.2.2, eventType⟩⟩

theorem object_fits_iff {bucket : String} {o : S3Object}
    (h : FileStoreConnector.normalize rt bucket now (FileStoreClient.entry lib o) rawPayloadId =
      .ok (some e)) : e.Fits ↔ (RawItem.object bucket o).Short rt := by
  obtain ⟨externalId, source, authorId, authorName, eventType, _⟩ := object_made h
  rw [fits_iff (by rw [source]; decide) (by rw [eventType]; decide), externalId, authorId,
    authorName]
  have length : ("filestore-" ++ bucket ++ "-" ++ o.key).length =
      10 + bucket.length + 1 + o.key.length := by
    simp only [String.length_append]
    rfl
  rw [length, RawItem.Short]
  omega

theorem email_fits_iff {raw : RawMessage}
    (h : IMAPConnector.normalize lib raw rawPayloadId = some e) :
    e.Fits ↔ (RawItem.email raw).Short rt := by
  obtain ⟨externalId, source, authorId, authorName, eventType, _⟩ := email_made h
  rw [fits_iff (by rw [source]; decide) (by rw [eventType]; decide), externalId, authorId,
    authorName, RawItem.Short]
  by_cases named : raw.messageId = ""
  · have length : (buildExternalId raw).length = 5 + (raw.host.length + 1 +
        (raw.folder.length + 1 + raw.epoch.length + 1 + raw.uid.length)) := by
      rw [buildExternalId_blank named]
      simp only [String.length_append]
      rfl
    rw [length]
    simp only [named, ne_eq, not_true_eq_false, false_implies, true_implies, true_and]
    omega
  · have length : (buildExternalId raw).length = 9 + raw.messageId.length := by
      unfold buildExternalId
      rw [if_pos named, String.length_append]
      rfl
    rw [length]
    simp only [named, ne_eq, not_false_eq_true, false_implies, true_implies, and_true]
    omega

theorem github_fits_iff {item : GitHubItem} {timestamp : Datetime} :
    (item.event lib rawPayloadId timestamp).Fits ↔ item.externalId.length ≤ 255 ∧
      item.authorId.length ≤ 255 ∧ item.authorName.length ≤ 255 := by
  have source : ("github" : String).length ≤ 50 := by decide
  have commit : ("commit" : String).length ≤ 50 := by decide
  have pullRequest : ("pull_request" : String).length ≤ 50 := by decide
  cases item with
  | commit c => exact fits_iff source commit
  | pullRequest pr => exact fits_iff source pullRequest

theorem commit_fits_iff {repoFullName : String} {c : GitHubCommitData}
    (h : parseCommitToEvent lib now c repoFullName rawPayloadId = .ok e) :
    e.Fits ↔ (RawItem.commit repoFullName c).Short rt := by
  obtain ⟨timestamp, _, rfl⟩ := github_made (parses_commit lib) h
  rw [github_fits_iff]
  change _ ∧ ((c.commit.author.bind GitHubCommitAuthor.email).getD "").length ≤ 255 ∧
    ((c.commit.author.bind GitHubCommitAuthor.name).getD "").length ≤ 255 ↔ _
  refine and_congr_right (fun _ => ?_)
  cases c.commit.author with
  | none => exact ⟨fun _ _ impossible => (nomatch impossible), fun _ => ⟨by decide, by decide⟩⟩
  | some author =>
      constructor
      · rintro short _ ⟨⟩
        exact short
      · exact fun short => short author rfl

theorem pullRequest_fits_iff {repoFullName : String} {pr : GitHubPRData}
    (h : parsePrToEvent lib now pr repoFullName rawPayloadId = .ok e) :
    e.Fits ↔ (RawItem.pullRequest repoFullName pr).Short rt := by
  obtain ⟨timestamp, _, rfl⟩ := github_made (parses_pullRequest lib) h
  rw [github_fits_iff]
  change _ ∧ ((pr.user.map GitHubPRUser.login).getD "").length ≤ 255 ∧
    ((pr.user.map GitHubPRUser.login).getD "").length ≤ 255 ↔ _
  refine and_congr_right (fun _ => ?_)
  cases pr.user with
  | none => exact ⟨fun _ _ impossible => (nomatch impossible), fun _ => ⟨by decide, by decide⟩⟩
  | some user =>
      constructor
      · rintro short _ ⟨⟩
        exact short.1
      · exact fun short => ⟨short user rfl, short user rfl⟩

/-- The name of a sender fits if it is short, once the id does. -/
theorem displayName_short_iff {user : TelegramUser} (id : (toString user.id).length ≤ 255) :
    user.displayName.length ≤ 255 ↔ user.ShortName := by
  obtain ⟨userId, isBot, firstName, lastName, username⟩ := user
  have named : ∀ name : Option String, name.filter (fun text => decide (text ≠ "")) =
      if name.getD "" = "" then none else some (name.getD "") := by
    intro name
    cases name with
    | none => rfl
    | some text =>
        by_cases empty : text = ""
        · simp [empty]
        · simp [empty]
  unfold TelegramUser.displayName TelegramUser.ShortName
  simp only [List.filterMap_cons, List.filterMap_nil, named]
  by_cases first : firstName.getD "" = ""
  · by_cases last : lastName.getD "" = ""
    · simp only [first, last, if_true, and_self]
      cases username with
      | none => exact ⟨fun _ => by decide, fun _ => id⟩
      | some username =>
          change (if username = "" then toString userId else username).length ≤ 255 ↔
            username.length ≤ 255
          split
          · rename_i empty
            rw [empty]
            exact ⟨fun _ => by decide, fun _ => id⟩
          · exact Iff.rfl
    · simp only [first, last, if_true, if_false, and_false, true_or]
      change (lastName.getD "").length ≤ 255 ↔ 0 + (lastName.getD "").length + 0 ≤ 255
      omega
  · by_cases last : lastName.getD "" = ""
    · simp only [first, last, if_true, if_false, false_and, or_true]
      change (firstName.getD "").length ≤ 255 ↔ (firstName.getD "").length + 0 + 0 ≤ 255
      omega
    · simp only [first, last, if_false, false_and, or_self]
      change (firstName.getD "" ++ " " ++ lastName.getD "").length ≤ 255 ↔ _
      rw [String.length_append, String.length_append, Nat.add_right_comm]
      rfl

theorem message_fits_iff {message : TelegramMessage}
    (h : parseMessageToEvent rt now message rawPayloadId = .ok (some e)) :
    e.Fits ↔ (RawItem.message message).Short rt := by
  obtain ⟨text, timestamp, _, _, rfl⟩ := message_made h
  have source : ("telegram" : String).length ≤ 50 := by decide
  have eventType : ("message" : String).length ≤ 50 := by decide
  refine (fits_iff source eventType).trans ?_
  change _ ∧ ((message.fromUser.map (fun user => toString user.id)).getD "").length ≤ 255 ∧
    ((message.fromUser.map TelegramUser.displayName).getD "").length ≤ 255 ↔ _
  refine and_congr_right (fun _ => ?_)
  cases message.fromUser with
  | none => exact ⟨fun _ _ impossible => (nomatch impossible), fun _ => ⟨by decide, by decide⟩⟩
  | some user =>
      constructor
      · rintro ⟨id, name⟩ _ ⟨⟩
        exact ⟨id, (displayName_short_iff id).mp name⟩
      · intro short
        obtain ⟨id, name⟩ := short user rfl
        exact ⟨id, (displayName_short_iff id).mpr name⟩

section Reporter

variable {reporter : List (String × Json)} {authorId authorName : String}

/-- What is left of `value or other` is a text. -/
theorem or_eq_str {value : Option Json} {other : Json} {text : String}
    (h : (value.getD (.str "")).or other = .str text) :
    (value = some (.str text) ∧ text ≠ "") ∨
      ((∀ text', value = some (.str text') → text' = "") ∧ other = .str text) := by
  unfold Json.or at h
  split at h
  · rename_i truthy
    cases value with
    | none => cases truthy
    | some v =>
        obtain rfl : v = .str text := h
        exact .inl ⟨rfl, bne_iff_ne.mp truthy⟩
  · rename_i falsy
    refine .inr ⟨fun text' same => ?_, h⟩
    rw [same] at falsy
    by_contra some
    exact falsy (bne_iff_ne.mpr some)

theorem reporter_short_iff
    (h : JiraConnector.authorOf (.obj reporter) = .ok (.str authorId, .str authorName)) :
    authorId.length ≤ 255 ∧ authorName.length ≤ 255 ↔ ShortReporter reporter := by
  rw [authorOf_obj] at h
  obtain ⟨id, name⟩ := Prod.ext_iff.mp (Except.ok.inj h)
  dsimp only at id name
  rw [id] at name
  have account : authorId.length ≤ 255 ↔
      (∀ text, Json.member reporter "accountId" = some (.str text) → text.length ≤ 255) ∧
        ((∀ text, Json.member reporter "accountId" = some (.str text) → text = "") →
          ∀ text, Json.member reporter "emailAddress" = some (.str text) → text.length ≤ 255) := by
    rcases or_eq_str id with ⟨known, some⟩ | ⟨empty, email⟩
    · constructor
      · refine fun short => ⟨fun text same => ?_, fun empty => (some (empty _ known)).elim⟩
        rw [known] at same
        cases same
        exact short
      · exact fun h => h.1 _ known
    · constructor
      · refine fun short => ⟨fun text same => ?_, fun _ text same => ?_⟩
        · rw [empty text same]
          decide
        · rw [same] at email
          cases email
          exact short
      · rintro ⟨_, addresses⟩
        cases address : Json.member reporter "emailAddress" with
        | none =>
            rw [address] at email
            cases email
            decide
        | some v =>
            rw [address] at email
            obtain rfl : v = .str authorId := email
            exact addresses empty _ address
  have display (short : authorId.length ≤ 255) : authorName.length ≤ 255 ↔
      ∀ text, Json.member reporter "displayName" = some (.str text) → text.length ≤ 255 := by
    rcases or_eq_str name with ⟨known, _⟩ | ⟨empty, same⟩
    · constructor
      · intro short text same
        rw [known] at same
        cases same
        exact short
      · exact fun h => h _ known
    · cases same
      refine ⟨fun _ text same => ?_, fun _ => short⟩
      rw [empty text same]
      decide
  constructor
  · rintro ⟨short, named⟩
    obtain ⟨accounts, addresses⟩ := account.mp short
    exact ⟨accounts, addresses, (display short).mp named⟩
  · rintro ⟨accounts, addresses, names⟩
    have short := account.mpr ⟨accounts, addresses⟩
    exact ⟨short, (display short).mpr names⟩

/-- What the code looks into is a dictionary. -/
theorem authorOf_of_or {value : Json} {author : Json × Json}
    (h : JiraConnector.authorOf (value.or (.obj [])) = .ok author) :
    ∃ reporter, JiraConnector.authorOf (.obj reporter) = .ok author ∧
      (ShortReporter reporter ↔ ∀ members, value = .obj members → ShortReporter members) := by
  have nothing : ShortReporter [] := ⟨fun _ impossible => (nomatch impossible),
    fun _ _ impossible => (nomatch impossible), fun _ impossible => (nomatch impossible)⟩
  by_cases truthy : value.truthy = true
  · rw [Json.or, if_pos truthy] at h
    cases value with
    | obj members =>
        refine ⟨members, h, ⟨?_, fun short => short members rfl⟩⟩
        rintro short _ ⟨⟩
        exact short
    | _ => cases h
  · rw [Json.or, if_neg truthy] at h
    refine ⟨[], h, ⟨fun _ members same => ?_, fun _ => nothing⟩⟩
    rw [same] at truthy
    cases members with
    | nil => exact nothing
    | cons member members => exact (truthy rfl).elim

theorem issue_fits_iff {raw : Json}
    (h : JiraConnector.normalize lib rt frames now raw rawPayloadId = .ok (some e)) :
    e.Fits ↔ (RawItem.issue raw).Short rt := by
  obtain ⟨members, key, fields, rfl, named, rfl, made⟩ := issue_made h
  obtain ⟨⟨externalId, source, eventType⟩, ⟨reporter, reports, authored⟩, _⟩ := issueEvent_made made
  have length : ("jira-" ++ formatted rt key).length = 5 + (formatted rt key).length := by
    rw [String.length_append]
    rfl
  rw [fits_iff (by rw [source]; decide) (by rw [eventType]; decide), externalId, length]
  obtain ⟨known, authors, same⟩ := authorOf_of_or authored
  rw [reporter_short_iff authors, same]
  have inner : (∀ reporter', reporter = .obj reporter' → ShortReporter reporter') ↔
      ∀ fields reporter', Json.member members "fields" = some (.obj fields) →
        Json.member fields "reporter" = some (.obj reporter') → ShortReporter reporter' := by
    cases there : Json.member members "fields" with
    | none =>
        rw [there] at reports
        cases reports
        exact ⟨fun _ _ _ impossible => (nomatch impossible),
          fun _ _ impossible => (nomatch impossible)⟩
    | some v =>
        rw [there] at reports
        cases v with
        | obj fields =>
            have value : (Json.member fields "reporter").getD .null = reporter :=
              Except.ok.inj reports
            rw [← value]
            constructor
            · rintro h _ reporter' ⟨⟩ reported
              exact h reporter' (by rw [reported]; rfl)
            · intro h reporter' dictionary
              refine h fields reporter' rfl ?_
              cases reported : Json.member fields "reporter" with
              | none =>
                  rw [reported] at dictionary
                  cases dictionary
              | some v =>
                  rw [reported] at dictionary
                  exact congrArg some dictionary
        | _ => cases reports
  rw [inner]
  constructor
  · rintro ⟨short, reporters⟩ _ ⟨⟩
    refine ⟨fun key' same' => ?_, reporters⟩
    rw [named] at same'
    cases same'
    omega
  · intro h
    obtain ⟨keys, reporters⟩ := h members rfl
    have short := keys key named
    exact ⟨by omega, reporters⟩

end Reporter

/-- The event of an item fits its columns if and only if the item is short. -/
theorem normalize_fits_iff {item : RawItem}
    (h : item.normalize lib rt frames now rawPayloadId = .ok (some e)) :
    e.Fits ↔ item.Short rt := by
  have single : ∀ made : Except Exn NormalizedEventCreate,
      made.map some = .ok (some e) → made = .ok e := by
    intro made same
    cases made with
    | error _ => cases same
    | ok e =>
        cases same
        rfl
  cases item with
  | object bucket o => exact object_fits_iff h
  | email raw => exact email_fits_iff (Except.ok.inj h)
  | issue raw => exact issue_fits_iff h
  | commit repoFullName c => exact commit_fits_iff (single _ h)
  | pullRequest repoFullName pr => exact pullRequest_fits_iff (single _ h)
  | message m => exact message_fits_iff h

end Widths

section Example

/-- A key of so many letters. -/
def letters (n : Nat) : String := String.ofList (List.replicate n 'a')

theorem length_letters (n : Nat) : (letters n).length = n := by
  rw [letters, String.length_ofList, List.length_replicate]

theorem utf8ByteSize_letters (n : Nat) : (letters n).utf8ByteSize = n := by
  induction n with
  | zero => rfl
  | succ n ih =>
      rw [letters, List.replicate_succ', String.ofList_append, String.utf8ByteSize_append]
      change (letters n).utf8ByteSize + 1 = n + 1
      rw [ih]

theorem letters_ne_empty (n : Nat) : letters (n + 1) ≠ "" := by
  intro empty
  have length := length_letters (n + 1)
  rw [empty] at length
  cases length

/-- An object whose key has `n + 1` letters. -/
def lettered (n : Nat) : S3Object := ⟨letters (n + 1), 1, "e", 0, letters_ne_empty n⟩

theorem lettered_does_not_fit {n : Nat} (long : 240 ≤ n) {e : NormalizedEventCreate}
    (made : FileStoreConnector.normalize platformRuntime "docs" 0
      (FileStoreClient.entry noDates (lettered n)) none = .ok (some e)) : ¬ e.Fits := by
  intro fits
  have short : ("docs" : String).length + (letters (n + 1)).length ≤ 244 :=
    (object_fits_iff made).mp fits
  rw [length_letters] at short
  have docs : ("docs" : String).length = 4 := rfl
  omega

/-- The event of an object with a short key. -/
theorem report_fits : ∃ e, (RawItem.object "docs" report).normalize noDates platformRuntime 1000 0
    none = .ok (some e) ∧ e.Fits := by
  obtain ⟨e, made⟩ := @object_normalized noDates platformRuntime 0 none "docs" report
  have normalized : (RawItem.object "docs" report).normalize noDates platformRuntime 1000 0 none =
      .ok (some e) := made
  refine ⟨e, made, (normalize_fits_iff normalized).mpr ?_⟩
  unfold RawItem.Short
  decide

/-- The event of an object whose key has three hundred letters, well below the limit of an
object store. -/
theorem lettered_300_does_not_fit : (lettered 299).key.utf8ByteSize ≤ 1024 ∧ ∃ e,
    (RawItem.object "docs" (lettered 299)).normalize noDates platformRuntime 1000 0 none =
      .ok (some e) ∧ ¬ e.Fits := by
  obtain ⟨e, made⟩ := @object_normalized noDates platformRuntime 0 none "docs" (lettered 299)
  refine ⟨?_, e, made, lettered_does_not_fit (by decide) made⟩
  rw [lettered, utf8ByteSize_letters]
  decide

end Example

end OmniSync
