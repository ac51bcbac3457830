import OmniSync.Data.Joined
import OmniSync.Filestore.Service
import OmniSync.Imap.Service

/-!
# External ids that are built of several components

The components are joined by a hyphen and may contain hyphens themselves. The id of an object
is ambiguous if a bucket name goes on where another one ends. The id of an email without a
Message-ID is ambiguous if the same pieces can be divided in another way, and it looks like
one with a Message-ID if the host does.
-/

namespace OmniSync

/-- The name `bucket'` is longer than `bucket` by what `key` is longer than `key'`. -/
def Straddles (bucket key bucket' key' : String) : Prop :=
  ∃ between, bucket' = bucket ++ "-" ++ between ∧ key = between ++ "-" ++ key'

/-- The UIDVALIDITY, as it is in the id. -/
def RawMessage.epoch (raw : RawMessage) : String :=
  match raw.uidvalidity with
  | some value => if value = "" then "0" else value
  | none => "0"

/-- The components of the id of an email without a Message-ID. -/
def RawMessage.components (raw : RawMessage) : List (List Char) :=
  [raw.host.toList, raw.folder.toList, raw.epoch.toList, raw.uid.toList]

/-- The same mailbox, in the same epoch, and the same number. -/
def RawMessage.SameUid (raw raw' : RawMessage) : Prop :=
  raw.host = raw'.host ∧ raw.folder = raw'.folder ∧ raw.uidvalidity = raw'.uidvalidity ∧
    raw.uid = raw'.uid

/-- The components of both emails consist of the same pieces between hyphens. But they are
divided differently, or a missing UIDVALIDITY meets the text `0`. -/
def RawMessage.Regrouped (raw raw' : RawMessage) : Prop :=
  pieces '-' raw.components = pieces '-' raw'.components ∧
    (raw.components.map (List.count '-') ≠ raw'.components.map (List.count '-') ∨
      raw.uidvalidity ≠ raw'.uidvalidity)

/-- The host begins with `mid`, and the Message-ID is what follows in the id. -/
def RawMessage.Poses (raw : RawMessage) (messageId : String) : Prop :=
  (raw.host = "mid" ∧ messageId = raw.folder ++ "-" ++ raw.epoch ++ "-" ++ raw.uid) ∨
    Straddles "mid" messageId raw.host (raw.folder ++ "-" ++ raw.epoch ++ "-" ++ raw.uid)

theorem append_hyphen_eq_iff {a x b y : String} : a ++ "-" ++ x = b ++ "-" ++ y ↔
    (a = b ∧ x = y) ∨ Straddles a x b y ∨ Straddles b y a x := by
  have text : ∀ a x : String, (a ++ "-" ++ x).toList = a.toList ++ '-' :: x.toList := by
    intro a x
    simp only [String.toList_append, List.append_assoc]
    rfl
  have straddles : ∀ a x b y : String, Straddles a x b y ↔
      ∃ r, b.toList = a.toList ++ '-' :: r ∧ x.toList = r ++ '-' :: y.toList := by
    intro a x b y
    constructor
    · rintro ⟨r, rfl, rfl⟩
      exact ⟨r.toList, text a r, text r y⟩
    · rintro ⟨r, hb, hx⟩
      refine ⟨String.ofList r, String.toList_inj.mp ?_, String.toList_inj.mp ?_⟩
      · rw [text, String.toList_ofList, hb]
      · rw [text, String.toList_ofList, hx]
  rw [← String.toList_inj, text, text, append_sep_eq_iff, straddles, straddles,
    String.toList_inj, String.toList_inj]

/-- Only an empty bridge would keep both names the same. -/
theorem Straddles.ne {bucket key bucket' key' : String} (h : Straddles bucket key bucket' key') :
    bucket ≠ bucket' := by
  obtain ⟨between, rfl, _⟩ := h
  intro same
  have lengths := congrArg String.length same
  rw [String.length_append, String.length_append] at lengths
  have hyphen : ("-" : String).length = 1 := rfl
  omega

section Mail

variable {raw raw' : RawMessage}

theorem buildExternalId_blank (blank : raw.messageId = "") : buildExternalId raw =
    "imap-" ++ (raw.host ++ "-" ++ (raw.folder ++ "-" ++ raw.epoch ++ "-" ++ raw.uid)) := by
  unfold buildExternalId
  rw [if_neg (not_not.mpr blank)]
  simp only [String.append_assoc]
  rfl

theorem buildExternalId_eq_iff (blank : raw.messageId = "") (blank' : raw'.messageId = "") :
    buildExternalId raw = buildExternalId raw' ↔
      pieces '-' raw.components = pieces '-' raw'.components := by
  have text : ∀ raw : RawMessage,
      (raw.host ++ "-" ++ (raw.folder ++ "-" ++ raw.epoch ++ "-" ++ raw.uid)).toList =
        ['-'].intercalate raw.components := by
    intro raw
    simp only [RawMessage.components, String.toList_append, List.intercalate_cons_cons,
      List.intercalate_singleton, List.append_assoc]
    rfl
  rw [buildExternalId_blank blank, buildExternalId_blank blank', String.append_right_inj,
    ← String.toList_inj, text, text]
  exact joined_eq_iff (List.cons_ne_nil _ _) (List.cons_ne_nil _ _)

theorem sameUid_of_pieces (same : pieces '-' raw.components = pieces '-' raw'.components)
    (regular : ¬ raw.Regrouped raw') : raw.SameUid raw' := by
  unfold RawMessage.Regrouped at regular
  rw [not_and, not_or, not_not, not_not] at regular
  obtain ⟨counts, epochs⟩ := regular same
  have components : raw.components = raw'.components := eq_of_pieces same counts
  simp only [RawMessage.components, List.cons.injEq, String.toList_inj] at components
  exact ⟨components.1, components.2.1, epochs, components.2.2.2.1⟩

theorem RawMessage.Regrouped.not_sameUid (h : raw.Regrouped raw') : ¬ raw.SameUid raw' := by
  rintro ⟨host, folder, uidvalidity, uid⟩
  rcases h.2 with counts | epochs
  · refine counts ?_
    unfold RawMessage.components RawMessage.epoch
    rw [host, folder, uidvalidity, uid]
  · exact epochs uidvalidity

/-- The word `mid` has no hyphen. -/
theorem not_straddles_mid {host rest messageId : String} :
    ¬ Straddles host rest "mid" messageId := by
  rintro ⟨between, split, _⟩
  have hyphen : '-' ∈ ("mid" : String).toList := by
    rw [split]
    simp [String.toList_append]
  revert hyphen
  decide

end Mail

/-- The id of an object. -/
theorem normalize_externalId {lib : DatetimeLib} {rt : Runtime} {bucket : String} {now : Time}
    {o : S3Object} {id : Option Uuid} {e : NormalizedEventCreate}
    (h : FileStoreConnector.normalize rt bucket now (FileStoreClient.entry lib o) id =
      .ok (some e)) : e.externalId = "filestore-" ++ (bucket ++ "-" ++ o.key) := by
  have truthy : (Json.str o.key).truthy = true := by simp [Json.truthy, o.named]
  change (if (!(Json.str o.key).truthy) = true then _ else _) = _ at h
  rw [truthy] at h
  cases h
  simp only [String.append_assoc]
  rfl

/-- Two emails without a Message-ID have ids that tell them apart, unless their components are
regrouped. The id of one with a Message-ID is another one, unless the host poses as the start
of that. The ids of two objects tell them apart, unless the name of one bucket goes on where
the other one ends. -/
theorem externalIds_injective_iff (raw raw' : RawMessage) (o o' : S3Object) :
    (raw.messageId = "" → raw'.messageId = "" →
      ((buildExternalId raw = buildExternalId raw' → raw.SameUid raw') ↔ ¬ raw.Regrouped raw')) ∧
    (raw.messageId = "" → raw'.messageId ≠ "" →
      (buildExternalId raw ≠ buildExternalId raw' ↔ ¬ raw.Poses raw'.messageId)) ∧
    ∀ (lib : DatetimeLib) (rt : Runtime) (bucket bucket' : String) (now now' : Time)
      (id id' : Option Uuid) (e e' : NormalizedEventCreate),
      FileStoreConnector.normalize rt bucket now (FileStoreClient.entry lib o) id = .ok (some e) →
      FileStoreConnector.normalize rt bucket' now' (FileStoreClient.entry lib o') id' =
        .ok (some e') →
      ((e.externalId = e'.externalId → bucket = bucket' ∧ o.key = o'.key) ↔
        ¬ (Straddles bucket o.key bucket' o'.key ∨ Straddles bucket' o'.key bucket o.key)) := by
  refine ⟨fun blank blank' => ?_, fun blank named => ?_, ?_⟩
  · rw [buildExternalId_eq_iff blank blank']
    exact ⟨fun injective regrouped => regrouped.not_sameUid (injective regrouped.1),
      fun regular same => sameUid_of_pieces same regular⟩
  · have posing : buildExternalId raw' = "imap-" ++ ("mid" ++ "-" ++ raw'.messageId) := by
      unfold buildExternalId
      rw [if_pos named, ← String.append_assoc]
      rfl
    rw [buildExternalId_blank blank, posing, Ne, String.append_right_inj, append_hyphen_eq_iff]
    refine not_congr ⟨?_, ?_⟩
    · rintro (⟨host, rest⟩ | impossible | straddles)
      · exact .inl ⟨host, rest.symm⟩
      · exact (not_straddles_mid impossible).elim
      · exact .inr straddles
    · rintro (⟨host, rest⟩ | straddles)
      · exact .inl ⟨host, rest.symm⟩
      · exact .inr (.inr straddles)
  · intro lib rt bucket bucket' now now' id id' e e' made made'
    rw [normalize_externalId made, normalize_externalId made', String.append_right_inj,
      append_hyphen_eq_iff]
    constructor
    · rintro injective (straddles | straddles)
      · exact straddles.ne (injective (.inr (.inl straddles))).1
      · exact straddles.ne (injective (.inr (.inr straddles))).1.symm
    · rintro regular (same | straddles)
      · exact same
      · exact (regular straddles).elim

section Example

/-- A message without a Message-ID. -/
def numbered (host folder uid : String) : RawMessage :=
  ⟨uid, some "1", "", host, "s", "a", ⟨0, some 0⟩, "", folder⟩

/-- A message with a Message-ID. -/
def identified (messageId : String) : RawMessage :=
  ⟨"1", some "1", messageId, "mail", "s", "a", ⟨0, some 0⟩, "", "INBOX"⟩

def report : S3Object := ⟨"report.txt", 1, "e", 0, by decide⟩

def euReport : S3Object := ⟨"eu-report.txt", 1, "e", 0, by decide⟩

/-- Two numbers in one folder. -/
theorem externalIds_injective_numbers :
    buildExternalId (numbered "mail" "INBOX" "1") = buildExternalId (numbered "mail" "INBOX" "2") →
      (numbered "mail" "INBOX" "1").SameUid (numbered "mail" "INBOX" "2") := by
  refine ((externalIds_injective_iff _ _ report euReport).1 rfl rfl).mpr ?_
  unfold RawMessage.Regrouped
  decide

/-- Two folders on two hosts, a host with the name `mid`, and two buckets. -/
theorem externalIds_collide :
    (∃ raw raw' : RawMessage, raw.messageId = "" ∧ raw'.messageId = "" ∧
      buildExternalId raw = buildExternalId raw' ∧ ¬ raw.SameUid raw') ∧
    (∃ raw raw' : RawMessage, raw.messageId = "" ∧ raw'.messageId ≠ "" ∧
      buildExternalId raw = buildExternalId raw') ∧
    ∀ (lib : DatetimeLib) (rt : Runtime), ∃ e e' : NormalizedEventCreate,
      FileStoreConnector.normalize rt "docs" 0 (FileStoreClient.entry lib euReport) none =
        .ok (some e) ∧
      FileStoreConnector.normalize rt "docs-eu" 0 (FileStoreClient.entry lib report) none =
        .ok (some e') ∧
      e.externalId = e'.externalId ∧ ¬ ("docs" = "docs-eu" ∧ euReport.key = report.key) := by
  refine ⟨⟨numbered "imap.eu" "west-INBOX" "1", numbered "imap.eu-west" "INBOX" "1", rfl, rfl,
    by decide, ?_⟩, ⟨numbered "mid" "INBOX" "1", identified "INBOX-1-1", rfl, by decide,
    by decide⟩, ?_⟩
  · rintro ⟨host, _⟩
    revert host
    decide
  · exact fun lib rt => ⟨_, _, rfl, rfl, rfl, by decide⟩

end Example

end OmniSync
