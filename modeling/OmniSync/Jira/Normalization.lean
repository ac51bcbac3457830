import OmniSync.Data.Outcome
import OmniSync.Jira.Connector

/-!
# Which issues are normalized

An issue of which every member is missing, null or as documented is normalized if and only if
nothing is null that the code iterates over, joins, looks into or stores: its fields, the
content and the text of a node of its description, and the address of a reporter without an
account id. The description must not be nested deeper than Python can follow.
-/

namespace OmniSync

theorem getOr_obj (fields : List (String × Json)) (name : String) (default : Json) :
    (Json.obj fields).getOr name default = .ok ((Json.member fields name).getD default) := rfl

theorem get?_obj (fields : List (String × Json)) (name : String) :
    (Json.obj fields).get? name = .ok (Json.member fields name) := rfl

section Document

/-- A value is missing, null or as documented. -/
def Nullable (documented : Json → Prop) (value : Option Json) : Prop :=
  ∀ v, value = some v → v = .null ∨ documented v

def Json.IsText (v : Json) : Prop := ∃ text, v = .str text

def Json.IsList (v : Json) : Prop := ∃ items, v = .arr items

/-- The node `inner` is in `node`, so many levels deep. -/
inductive Inside : Json → Nat → Json → Prop where
  | here {node : Json} : Inside node 0 node
  | deeper {fields : List (String × Json)} {items : List Json} {child inner : Json} {depth : Nat}
      (content : Json.member fields "content" = some (.arr items)) (there : child ∈ items)
      (rest : Inside child depth inner) : Inside (.obj fields) (depth + 1) inner

/-- The members of a node, as they are documented. -/
def Json.IsNode (node : Json) : Prop :=
  ∃ fields, node = .obj fields ∧ Nullable Json.IsText (Json.member fields "text") ∧
    Nullable Json.IsList (Json.member fields "content")

/-- A plain text, or a tree of nodes. -/
def IsDescription (v : Json) : Prop :=
  v.IsText ∨ ∀ depth node, Inside v depth node → node.IsNode

def IsStatus (v : Json) : Prop :=
  ∃ members, v = .obj members ∧ Nullable Json.IsText (Json.member members "name")

def IsReporter (v : Json) : Prop :=
  ∃ members, v = .obj members ∧ Nullable Json.IsText (Json.member members "accountId") ∧
    Nullable Json.IsText (Json.member members "emailAddress") ∧
      Nullable Json.IsText (Json.member members "displayName")

def IsFields (v : Json) : Prop :=
  ∃ fields, v = .obj fields ∧ Nullable Json.IsText (Json.member fields "summary") ∧
    Nullable IsDescription (Json.member fields "description") ∧
      Nullable IsStatus (Json.member fields "status") ∧
        Nullable IsReporter (Json.member fields "reporter") ∧
          Nullable Json.IsText (Json.member fields "updated")

/-- An issue with a key. -/
def IsIssue (raw : Json) : Prop :=
  ∃ members text, raw = .obj members ∧ text ≠ "" ∧
    Json.member members "key" = some (.str text) ∧ Nullable IsFields (Json.member members "fields")

end Document

section Condition

/-- Neither the content nor the own text of the node is null. -/
def Json.Legible (node : Json) : Prop :=
  ∀ fields, node = .obj fields →
    Json.member fields "content" ≠ some .null ∧ JiraConnector.ownText fields ≠ some .null

/-- The description can be followed to its end. -/
def LegibleDescription (frames : Nat) (description : Option Json) : Prop :=
  ∀ fields, description = some (.obj fields) →
    ∀ depth node, Inside (.obj fields) depth node → depth < frames ∧ node.Legible

/-- The reporter has an account id, or no null for an address. -/
def Identified (reporter : Option Json) : Prop :=
  ∀ members, reporter = some (.obj members) → Json.member members "emailAddress" = some .null →
    ∃ text, Json.member members "accountId" = some (.str text) ∧ text ≠ ""

/-- Nothing is null that must not be. -/
def Digestible (frames : Nat) (raw : Json) : Prop :=
  ∀ members, raw = .obj members → Json.member members "fields" ≠ some .null ∧
    ∀ fields, Json.member members "fields" = some (.obj fields) →
      LegibleDescription frames (Json.member fields "description") ∧
        Identified (Json.member fields "reporter")

end Condition

section Walk

open JiraConnector

variable {fields : List (String × Json)} {frames : Nat}

/-- What is in a node is the node, or is in one of its children. -/
theorem forall_inside_iff {P : Json → Prop} :
    (∀ depth inner, Inside (.obj fields) depth inner → depth < frames + 1 ∧ P inner) ↔
      P (.obj fields) ∧ ∀ items, Json.member fields "content" = some (.arr items) →
        ∀ child ∈ items, ∀ depth inner, Inside child depth inner → depth < frames ∧ P inner := by
  constructor
  · intro each
    refine ⟨(each 0 _ .here).2, fun items content child there depth inner inside => ?_⟩
    obtain ⟨below, holds⟩ := each _ _ (.deeper content there inside)
    exact ⟨Nat.lt_of_succ_lt_succ below, holds⟩
  · rintro ⟨here, children⟩ depth inner inside
    cases inside with
    | here => exact ⟨Nat.succ_pos _, here⟩
    | deeper content there rest =>
        obtain ⟨below, holds⟩ := children _ content _ there _ _ rest
        exact ⟨Nat.succ_lt_succ below, holds⟩

theorem ownText_isText_iff (documented : Nullable Json.IsText (Json.member fields "text")) :
    (∀ p ∈ (ownText fields).toList, p.IsText) ↔ ownText fields ≠ some .null := by
  have own : ownText fields = none ∨ ownText fields = Json.member fields "text" := by
    unfold ownText
    split
    · split
      · exact .inr rfl
      · exact .inl rfl
    · exact .inl rfl
  cases text : ownText fields with
  | none => exact ⟨fun _ impossible => (nomatch impossible),
      fun _ p hp => (List.not_mem_nil hp).elim⟩
  | some v =>
      have there : Json.member fields "text" = some v := by
        rcases own with absent | same
        · rw [text] at absent
          cases absent
        · exact same.symm.trans text
      rw [Option.toList_some]
      constructor
      · intro texts
        obtain ⟨text, rfl⟩ := texts v (List.mem_singleton.mpr rfl)
        exact fun impossible => (nomatch impossible)
      · intro some p hp
        rw [List.mem_singleton.mp hp]
        rcases documented v there with rfl | text
        · exact (some rfl).elim
        · exact text

/-- A node is walked, with texts as parts, if it can be followed to its end. -/
theorem walk_ok_iff {node : Json} {parts : List Json}
    (documented : ∀ depth inner, Inside node depth inner → inner.IsNode) :
    (∃ parts', walk frames parts node = .ok parts' ∧ ∀ p ∈ parts', p.IsText) ↔
      (∀ p ∈ parts, p.IsText) ∧
        ∀ depth inner, Inside node depth inner → depth < frames ∧ inner.Legible := by
  induction frames generalizing node parts with
  | zero =>
      constructor
      · rintro ⟨_, impossible, _⟩
        cases impossible
      · rintro ⟨_, each⟩
        exact (Nat.not_lt_zero 0 (each 0 node .here).1).elim
  | succ frames ih =>
      obtain ⟨fields, rfl, text, content⟩ := documented 0 node .here
      have own := ownText_isText_iff text
      have texts : (∀ p ∈ parts ++ (ownText fields).toList, p.IsText) ↔
          (∀ p ∈ parts, p.IsText) ∧ ownText fields ≠ some .null := by
        rw [List.forall_mem_append, own]
      have legible : (Json.obj fields).Legible ↔
          Json.member fields "content" ≠ some .null ∧ ownText fields ≠ some .null :=
        ⟨fun h => h fields rfl, by rintro h _ ⟨⟩; exact h⟩
      rw [forall_inside_iff, legible]
      unfold walk
      cases children : Json.member fields "content" with
      | none =>
          constructor
          · rintro ⟨_, ⟨⟩, good⟩
            obtain ⟨before, mine⟩ := texts.mp good
            exact ⟨before, ⟨fun impossible => (nomatch impossible), mine⟩,
              fun _ impossible => (nomatch impossible)⟩
          · rintro ⟨before, ⟨_, mine⟩, _⟩
            exact ⟨_, rfl, texts.mpr ⟨before, mine⟩⟩
      | some v =>
          rcases content v children with rfl | ⟨items, rfl⟩
          · constructor
            · rintro ⟨_, impossible, _⟩
              cases impossible
            · rintro ⟨_, ⟨impossible, _⟩, _⟩
              exact (impossible rfl).elim
          · have step : ∀ b, ∀ child ∈ items,
                (∃ b', walk frames b child = .ok b' ∧ ∀ p ∈ b', p.IsText) ↔
                  (∀ p ∈ b, p.IsText) ∧
                    ∀ depth inner, Inside child depth inner → depth < frames ∧ inner.Legible :=
              fun b child there =>
                ih (fun _ _ inside => documented _ _ (.deeper children there inside))
            refine (foldlM_ok_iff step _).trans ?_
            rw [texts, and_assoc]
            refine and_congr_right (fun _ => ?_)
            constructor
            · rintro ⟨mine, each⟩
              refine ⟨⟨fun impossible => (nomatch impossible), mine⟩, ?_⟩
              rintro _ ⟨⟩
              exact each
            · rintro ⟨⟨_, mine⟩, each⟩
              exact ⟨mine, each items rfl⟩

theorem joinable_ok_iff {parts : List Json} :
    (∃ texts, parts.mapM Json.joinable = .ok texts) ↔ ∀ p ∈ parts, p.IsText := by
  refine mapM_ok_iff.trans (forall₂_congr (fun part _ => ?_))
  cases part with
  | str text => exact ⟨fun _ => ⟨text, rfl⟩, fun _ => ⟨text, rfl⟩⟩
  | _ => exact ⟨fun ⟨_, impossible⟩ => (nomatch impossible),
      fun ⟨_, impossible⟩ => (nomatch impossible)⟩

theorem extractText_ok_iff {description : Option Json}
    (documented : Nullable IsDescription description) :
    (∃ text, extractText frames description = .ok text) ↔
      LegibleDescription frames description := by
  cases description with
  | none => exact ⟨fun _ _ impossible => (nomatch impossible), fun _ => ⟨"", rfl⟩⟩
  | some v =>
      rcases documented v rfl with rfl | ⟨text, rfl⟩ | nodes
      · exact ⟨fun _ _ impossible => (nomatch impossible), fun _ => ⟨"", rfl⟩⟩
      · exact ⟨fun _ _ impossible => (nomatch impossible), fun _ => ⟨text, rfl⟩⟩
      · obtain ⟨fields, rfl, _⟩ := nodes 0 v .here
        have walked : (∃ parts, walk frames [] (.obj fields) = .ok parts ∧ ∀ p ∈ parts, p.IsText) ↔
            _ := walk_ok_iff nodes
        unfold extractText
        rw [exists_bind_iff]
        constructor
        · rintro ⟨parts, walks, text, joined⟩
          obtain ⟨texts, each, _⟩ := exists_bind_iff.mp ⟨text, joined⟩
          rintro _ ⟨⟩
          exact (walked.mp ⟨parts, walks, joinable_ok_iff.mp ⟨texts, each⟩⟩).2
        · intro legible
          obtain ⟨parts, walks, each⟩ :=
            walked.mpr ⟨fun _ hp => (List.not_mem_nil hp).elim, legible fields rfl⟩
          obtain ⟨texts, joined⟩ := joinable_ok_iff.mpr each
          exact ⟨parts, walks, exists_bind_iff.mpr ⟨texts, joined, _, rfl⟩⟩

end Walk

section Author

open JiraConnector

variable {members : List (String × Json)} {value : Option Json}

theorem truthy_iff (documented : Nullable Json.IsText value) :
    (value.getD (.str "")).truthy = true ↔ ∃ text, value = some (.str text) ∧ text ≠ "" := by
  cases value with
  | none => exact ⟨fun impossible => (nomatch impossible),
      fun ⟨_, impossible, _⟩ => (nomatch impossible)⟩
  | some v =>
      rcases documented v rfl with rfl | ⟨text, rfl⟩
      · exact ⟨fun impossible => (nomatch impossible),
          fun ⟨_, impossible, _⟩ => (nomatch impossible)⟩
      · change (text != "") = true ↔ _
        rw [bne_iff_ne]
        constructor
        · exact fun some => ⟨text, rfl, some⟩
        · rintro ⟨_, ⟨⟩, some⟩
          exact some

theorem or_isText_iff (documented : Nullable Json.IsText value) {other : Json} :
    ((value.getD (.str "")).or other).IsText ↔
      (value.getD (.str "")).truthy = true ∨ other.IsText := by
  unfold Json.or
  split
  · rename_i truthy
    obtain ⟨text, rfl, _⟩ := (truthy_iff documented).mp truthy
    exact ⟨fun _ => .inl truthy, fun _ => ⟨text, rfl⟩⟩
  · rename_i falsy
    exact ⟨.inr, fun h => h.resolve_left falsy⟩

theorem getD_isText_iff (documented : Nullable Json.IsText value) :
    (value.getD (.str "")).IsText ↔ value ≠ some .null := by
  cases value with
  | none => exact ⟨fun _ impossible => (nomatch impossible), fun _ => ⟨"", rfl⟩⟩
  | some v =>
      rcases documented v rfl with rfl | ⟨text, rfl⟩
      · exact ⟨fun ⟨_, impossible⟩ => (nomatch impossible), fun h => (h rfl).elim⟩
      · exact ⟨fun _ impossible => (nomatch impossible), fun _ => ⟨text, rfl⟩⟩

/-- A value that is not true is replaced by a dictionary. -/
theorem or_empty (documented : Nullable (fun v => ∃ members, v = .obj members) value) :
    ∃ members, (value.getD .null).or (.obj []) = .obj members ∧
      (members = [] ∨ value = some (.obj members)) ∧
        ∀ other, value = some (.obj other) → other = members := by
  cases value with
  | none => exact ⟨[], rfl, .inl rfl, fun _ impossible => (nomatch impossible)⟩
  | some v =>
      rcases documented v rfl with rfl | ⟨members, rfl⟩
      · exact ⟨[], rfl, .inl rfl, fun _ impossible => (nomatch impossible)⟩
      · cases members with
        | nil => exact ⟨[], rfl, .inl rfl, by rintro _ ⟨⟩; rfl⟩
        | cons member members => exact ⟨_, rfl, .inr rfl, by rintro _ ⟨⟩; rfl⟩

theorem authorOf_obj : authorOf (.obj members) =
    .ok (((Json.member members "accountId").getD (.str "")).or
        ((Json.member members "emailAddress").getD (.str "")),
      ((Json.member members "displayName").getD (.str "")).or
        (((Json.member members "accountId").getD (.str "")).or
          ((Json.member members "emailAddress").getD (.str "")))) := rfl

/-- The id and the name of a reporter are texts if the reporter is identified. -/
theorem authorOf_isText_iff (documented : IsReporter (.obj members)) :
    ∃ author, authorOf (.obj members) = .ok author ∧
      (author.1.IsText ∧ author.2.IsText ↔ Identified (some (.obj members))) := by
  obtain ⟨_, ⟨⟩, account, email, display⟩ := documented
  refine ⟨_, authorOf_obj, ?_⟩
  have identified : Identified (some (.obj members)) ↔
      (Json.member members "emailAddress" = some .null →
        ∃ text, Json.member members "accountId" = some (.str text) ∧ text ≠ "") :=
    ⟨fun h => h members rfl, by rintro h _ ⟨⟩; exact h⟩
  dsimp only
  rw [identified, ← truthy_iff account, or_isText_iff display, or_isText_iff account,
    getD_isText_iff email]
  constructor
  · exact fun texts null => texts.1.resolve_right (fun some => some null)
  · intro account
    have first := (Classical.em (Json.member members "emailAddress" = some .null)).imp_left account
    exact ⟨first, .inr first⟩

end Author

section Normalize

open JiraConnector

variable {lib : DatetimeLib} {rt : Runtime} {frames : Nat} {now : Time} {raw : Json}
variable {rawPayloadId : Option Uuid}

/-- A text that is no date is a `ValueError`. -/
def DatetimeLib.RejectsByValue (lib : DatetimeLib) : Prop :=
  ∀ text e, lib.fromisoformat text = .error e → suppressed e = true

theorem updatedAt_ok (rejects : lib.RejectsByValue) {updated : Option Json}
    (documented : Nullable Json.IsText updated) :
    ∃ timestamp, updatedAt lib now updated = .ok timestamp := by
  cases updated with
  | none => exact ⟨_, rfl⟩
  | some v =>
      rcases documented v rfl with rfl | ⟨text, rfl⟩
      · exact ⟨_, rfl⟩
      · unfold updatedAt parsedDate
        dsimp only
        split
        · exact ⟨_, rfl⟩
        · cases parsed : lib.fromisoformat (replaceZ text) with
          | ok d => exact ⟨d, rfl⟩
          | error e => exact ⟨_, if_pos (rejects _ e parsed)⟩

theorem stringField_ok_iff {name : String} {v : Json} :
    (∃ text, Json.stringField name v = .ok text) ↔ v.IsText := by
  cases v with
  | str text => exact ⟨fun _ => ⟨text, rfl⟩, fun _ => ⟨text, rfl⟩⟩
  | _ => exact ⟨fun ⟨_, impossible⟩ => (nomatch impossible),
      fun ⟨_, impossible⟩ => (nomatch impossible)⟩

/-- What the event of an issue is made of. -/
theorem issueEvent_made {key fields : Json} {e : NormalizedEventCreate}
    (h : issueEvent lib rt frames now key fields rawPayloadId = .ok e) :
    (e.externalId = "jira-" ++ formatted rt key ∧ e.source = "jira" ∧ e.eventType = "issue") ∧
      (∃ reporter, fields.getOr "reporter" .null = .ok reporter ∧
        authorOf (reporter.or (.obj [])) = .ok (.str e.authorId, .str e.authorName)) ∧
      ∃ updated timestamp, fields.get? "updated" = .ok updated ∧
        updatedAt lib now updated = .ok timestamp ∧ e.timestamp = timestamp.instant lib ∧
          e.naive = timestamp.naive := by
  have text : ∀ {name v t}, Json.stringField name v = .ok t → v = .str t := by
    intro name v t ok
    cases v with
    | str text =>
        cases ok
        rfl
    | _ => cases ok
  obtain ⟨_, _, h⟩ := bind_ok_iff.mp h
  obtain ⟨_, _, h⟩ := bind_ok_iff.mp h
  obtain ⟨_, _, h⟩ := bind_ok_iff.mp h
  obtain ⟨_, _, h⟩ := bind_ok_iff.mp h
  obtain ⟨_, _, h⟩ := bind_ok_iff.mp h
  obtain ⟨reporter, reports, h⟩ := bind_ok_iff.mp h
  obtain ⟨⟨authorId, authorName⟩, authored, h⟩ := bind_ok_iff.mp h
  obtain ⟨updated, known, h⟩ := bind_ok_iff.mp h
  obtain ⟨timestamp, dated, h⟩ := bind_ok_iff.mp h
  obtain ⟨id, isId, h⟩ := bind_ok_iff.mp h
  obtain ⟨name, isName, h⟩ := bind_ok_iff.mp h
  cases h
  obtain rfl := text isId
  obtain rfl := text isName
  exact ⟨⟨rfl, rfl, rfl⟩, ⟨reporter, reports, authored⟩, updated, timestamp, known, dated, rfl, rfl⟩

/-- An event is made of documented fields if the description can be followed and the reporter
is identified. -/
theorem issueEvent_ok_iff (rejects : lib.RejectsByValue) {key : Json}
    {fields : List (String × Json)} (documented : IsFields (.obj fields)) :
    (∃ e, issueEvent lib rt frames now key (.obj fields) rawPayloadId = .ok e) ↔
      LegibleDescription frames (Json.member fields "description") ∧
        Identified (Json.member fields "reporter") := by
  obtain ⟨_, ⟨⟩, _, description, status, reporter, updated⟩ := documented
  have isStatus : Nullable (fun v => ∃ members, v = .obj members) (Json.member fields "status") :=
    fun v hv => (status v hv).imp_right (fun ⟨members, same, _⟩ => ⟨members, same⟩)
  have isDict : Nullable (fun v => ∃ members, v = .obj members) (Json.member fields "reporter") :=
    fun v hv => (reporter v hv).imp_right (fun ⟨members, same, _⟩ => ⟨members, same⟩)
  obtain ⟨statusMembers, hasStatus, _⟩ := or_empty isStatus
  obtain ⟨members, hasReporter, origin, only⟩ := or_empty isDict
  have isReporter : IsReporter (.obj members) := by
    rcases origin with rfl | same
    · exact ⟨[], rfl, fun _ impossible => (nomatch impossible),
        fun _ impossible => (nomatch impossible), fun _ impossible => (nomatch impossible)⟩
    · exact (reporter _ same).resolve_left (fun impossible => (nomatch impossible))
  have identified : Identified (Json.member fields "reporter") ↔
      Identified (some (.obj members)) := by
    constructor
    · rintro h _ ⟨⟩
      rcases origin with rfl | same
      · exact fun impossible => (nomatch impossible)
      · exact h members same
    · intro h other same
      rw [only other same]
      exact h members rfl
  obtain ⟨author, authored, texts⟩ := authorOf_isText_iff isReporter
  obtain ⟨timestamp, dated⟩ : ∃ timestamp,
      updatedAt lib now (Json.member fields "updated") = .ok timestamp := updatedAt_ok rejects updated
  rw [identified, ← texts, ← extractText_ok_iff description]
  have made : issueEvent lib rt frames now key (.obj fields) rawPayloadId = (do
      let description ← extractText frames (Json.member fields "description")
      let status := (Json.member statusMembers "name").getD (.str "")
      let content := "[" ++ formatted rt status ++ "] " ++ formatted rt key ++ ": " ++
        formatted rt ((Json.member fields "summary").getD (.str ""))
      let authorId ← Json.stringField "author_id" author.1
      let authorName ← Json.stringField "author_name" author.2
      return {
        externalId := "jira-" ++ formatted rt key
        source := "jira"
        authorId := authorId
        authorName := authorName
        content := if description = "" then content else content ++ "\n\n" ++ description
        eventType := "issue"
        timestamp := timestamp.instant lib
        rawPayloadId := rawPayloadId
        naive := timestamp.naive }) := by
    unfold issueEvent
    simp only [getOr_obj, get?_obj, ok_bind, hasStatus, hasReporter, authored, dated]
  rw [made]
  constructor
  · intro event
    obtain ⟨text, extracted, rest⟩ := exists_bind_iff.mp event
    obtain ⟨authorId, isId, rest⟩ := exists_bind_iff.mp rest
    obtain ⟨authorName, isName, _⟩ := exists_bind_iff.mp rest
    exact ⟨⟨text, extracted⟩, stringField_ok_iff.mp ⟨authorId, isId⟩,
      stringField_ok_iff.mp ⟨authorName, isName⟩⟩
  · rintro ⟨⟨text, extracted⟩, isId, isName⟩
    obtain ⟨authorId, isId⟩ := stringField_ok_iff.mpr isId
    obtain ⟨authorName, isName⟩ := stringField_ok_iff.mpr isName
    exact exists_bind_iff.mpr ⟨text, extracted, exists_bind_iff.mpr ⟨authorId, isId,
      exists_bind_iff.mpr ⟨authorName, isName, _, rfl⟩⟩⟩

theorem JiraConnector.normalize_obj {members : List (String × Json)} :
    normalize lib rt frames now (.obj members) rawPayloadId =
      if !((Json.member members "key").getD .null).truthy then .ok none
      else (issueEvent lib rt frames now ((Json.member members "key").getD .null)
        ((Json.member members "fields").getD (.obj [])) rawPayloadId).map some := by
  unfold normalize
  rw [get?_obj, ok_bind]
  dsimp only
  split
  · rfl
  · rw [getOr_obj, ok_bind]
    cases issueEvent lib rt frames now ((Json.member members "key").getD .null)
      ((Json.member members "fields").getD (.obj [])) rawPayloadId <;> rfl

/-- An issue is normalized to an event if and only if nothing is null that must not be, and
its description can be followed. -/
theorem jira_normalize_ok_iff (rejects : lib.RejectsByValue) (documented : IsIssue raw) :
    (∃ e, normalize lib rt frames now raw rawPayloadId = .ok (some e)) ↔
      Digestible frames raw := by
  obtain ⟨members, text, rfl, named, key, hasFields⟩ := documented
  have truthy : ¬ (!((Json.member members "key").getD .null).truthy) = true := by
    rw [key]
    simp [Json.truthy, named]
  have digestible : Digestible frames (.obj members) ↔
      Json.member members "fields" ≠ some .null ∧
        ∀ fields, Json.member members "fields" = some (.obj fields) →
          LegibleDescription frames (Json.member fields "description") ∧
            Identified (Json.member fields "reporter") :=
    ⟨fun h => h members rfl, by rintro h _ ⟨⟩; exact h⟩
  have event : ∀ made : Except Exn NormalizedEventCreate,
      (∃ e, made.map some = .ok (some e)) ↔ ∃ e, made = .ok e := by
    intro made
    cases made with
    | error e => exact ⟨fun ⟨_, impossible⟩ => (nomatch impossible),
        fun ⟨_, impossible⟩ => (nomatch impossible)⟩
    | ok e => exact ⟨fun _ => ⟨e, rfl⟩, fun _ => ⟨e, rfl⟩⟩
  rw [normalize_obj, if_neg truthy, digestible, event]
  have missing : Nullable Json.IsText none := fun _ impossible => (nomatch impossible)
  cases there : Json.member members "fields" with
  | none =>
      have nothing : IsFields (.obj []) := ⟨[], rfl, missing, fun _ impossible => (nomatch impossible),
        fun _ impossible => (nomatch impossible), fun _ impossible => (nomatch impossible), missing⟩
      refine ⟨fun _ => ⟨fun impossible => (nomatch impossible),
        fun _ impossible => (nomatch impossible)⟩, fun _ => (issueEvent_ok_iff rejects nothing).mpr ?_⟩
      exact ⟨fun _ impossible => (nomatch impossible), fun _ impossible => (nomatch impossible)⟩
  | some v =>
      rcases hasFields v there with rfl | isFields
      · exact ⟨fun ⟨_, impossible⟩ => (nomatch impossible), fun h => (h.1 rfl).elim⟩
      · obtain ⟨fields, rfl, rest⟩ := isFields
        have isFields : IsFields (.obj fields) := ⟨fields, rfl, rest⟩
        refine (issueEvent_ok_iff rejects isFields).trans ?_
        constructor
        · refine fun fine => ⟨fun impossible => (nomatch impossible), ?_⟩
          rintro _ ⟨⟩
          exact fine
        · exact fun h => h.2 fields rfl

end Normalize

end OmniSync
