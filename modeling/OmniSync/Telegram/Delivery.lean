import OmniSync.Integrations.Watermark
import OmniSync.RawPayloads.Content
import OmniSync.Telegram.Polling

/-!
# Which updates a poll acknowledges

The client drops the updates that do not validate, and the task acknowledges the largest id
of the others. An update behind the last valid one stays in front of the poller.
-/

namespace OmniSync

open Txn

/-- The id of an item of a response. -/
def updateId? (item : Json) : Option Int :=
  match item.get? "update_id" with
  | .ok (some (.int n)) => some n
  | _ => none

/-- Validation takes the id of an update as it is. -/
def TakesIds (rt : Runtime) : Prop :=
  ∀ item update n, rt.validateUpdate item = .ok update → updateId? item = some n →
    update.updateId = n

/-- What Telegram answers from an offset on: updates with ids, of which none is below the
offset. -/
def UpdatesFrom (offset : Option Int) (result : List Json) : Prop :=
  ∀ item ∈ result, ∃ n, updateId? item = some n ∧ ∀ m, offset = some m → m ≤ n

/-- No update is behind the last one that validates. -/
def LastValidates (rt : Runtime) (result : List Json) : Prop :=
  ∀ item ∈ result, ∀ n, updateId? item = some n →
    ∃ last ∈ result, ∃ update m, rt.validateUpdate last = .ok update ∧
      updateId? last = some m ∧ n ≤ m

/-- The cursor is behind every update, and has not moved backwards. -/
def Acknowledged (result : List Json) (before after : Option String) : Prop :=
  ∃ next, offsetOf after = .ok next ∧
    (∀ item ∈ result, ∀ n, updateId? item = some n → ∃ c, next = some c ∧ n < c) ∧
      ∀ m, offsetOf before = .ok (some m) → ∃ c, next = some c ∧ m ≤ c

section LatestId

theorem foldl_laterId (id : Int) (ids : List Int) :
    ids.foldl laterId (some id) = some (ids.foldl max id) := by
  induction ids generalizing id with
  | nil => rfl
  | cons id' ids ih =>
      have next : laterId (some id) id' = some (max id id') := by
        simp only [laterId]
        split
        · rename_i lt
          rw [max_eq_right lt.le]
        · rename_i le
          rw [max_eq_left (not_lt.mp le)]
      rw [List.foldl_cons, List.foldl_cons, next, ih]

theorem latestId_eq_max (updates : List TelegramUpdate) :
    latestId updates = (updates.map TelegramUpdate.updateId).max? := by
  cases updates with
  | nil => rfl
  | cons update updates => exact foldl_laterId update.updateId _

theorem latestId_eq_some_iff {updates : List TelegramUpdate} {id : Int} :
    latestId updates = some id ↔ (∃ last ∈ updates, last.updateId = id) ∧
      ∀ update ∈ updates, update.updateId ≤ id := by
  rw [latestId_eq_max, List.max?_eq_some_iff, List.mem_map]
  exact and_congr_right (fun _ => List.forall_mem_map)

theorem latestId_eq_none_iff {updates : List TelegramUpdate} :
    latestId updates = none ↔ updates = [] := by
  rw [latestId_eq_max, List.max?_eq_none_iff, List.map_eq_nil_iff]

end LatestId

theorem offsetOf_toString (id : Int) : offsetOf (some (toString id)) = .ok (some id) := by
  have some : toString id ≠ "" := by
    intro empty
    have read := signed_toString id
    rw [empty] at read
    cases read
  simp only [offsetOf, if_neg some, signed_toString]

theorem mem_validated {rt : Runtime} {result : List Json} {update : TelegramUpdate} :
    update ∈ TelegramClient.validated rt result ↔
      ∃ item ∈ result, rt.validateUpdate item = .ok update := by
  have made : ∀ item, (rt.validateUpdate item).toOption = some update ↔
      rt.validateUpdate item = .ok update := by
    intro item
    cases rt.validateUpdate item <;> simp [Except.toOption]
  simp only [TelegramClient.validated, List.mem_filterMap, made]

section Acknowledge

variable {rt : Runtime} {settings : Settings} {offset : Option Int} {result : List Json}
variable {before after : Option String}

/-- What the largest valid id acknowledges. -/
theorem acknowledged_iff (takes : TakesIds rt) (delivered : UpdatesFrom offset result)
    (resumes : offsetOf before = .ok offset)
    (cursor : after = ((latestId (TelegramClient.validated rt result)).map
      (fun id => toString (id + 1))).or before) :
    Acknowledged result before after ↔ LastValidates rt result := by
  cases latest : latestId (TelegramClient.validated rt result) with
  | none =>
      rw [latest] at cursor
      obtain rfl : after = before := cursor
      have dropped : ∀ item ∈ result, ∀ update, rt.validateUpdate item ≠ .ok update := by
        intro item hi update valid
        have kept : update ∈ TelegramClient.validated rt result := mem_validated.mpr ⟨item, hi, valid⟩
        rw [latestId_eq_none_iff.mp latest] at kept
        cases kept
      have unchanged : Acknowledged result after after ↔ result = [] := by
        constructor
        · rintro ⟨next, same, behind, _⟩
          obtain rfl : offset = next := Except.ok.inj (resumes.symm.trans same)
          refine List.eq_nil_iff_forall_not_mem.mpr (fun item hi => ?_)
          obtain ⟨n, known, le⟩ := delivered item hi
          obtain ⟨c, set, lt⟩ := behind item hi n known
          exact absurd (le c set) (not_le.mpr lt)
        · rintro rfl
          refine ⟨offset, resumes, fun item hi => (List.not_mem_nil hi).elim, fun m same => ?_⟩
          exact ⟨m, Except.ok.inj (resumes.symm.trans same), le_refl m⟩
      rw [unchanged]
      constructor
      · rintro rfl item hi
        cases hi
      · intro last
        refine List.eq_nil_iff_forall_not_mem.mpr (fun item hi => ?_)
        obtain ⟨n, known, _⟩ := delivered item hi
        obtain ⟨valid, hv, update, _, validates, _⟩ := last item hi n known
        exact dropped valid hv update validates
  | some id =>
      rw [latest] at cursor
      obtain rfl : after = some (toString (id + 1)) := cursor
      obtain ⟨⟨update, kept, rfl⟩, largest⟩ := latestId_eq_some_iff.mp latest
      obtain ⟨last, there, validates⟩ := mem_validated.mp kept
      obtain ⟨n, known, le⟩ := delivered last there
      obtain rfl := takes last update n validates known
      have moved : ∀ m, offsetOf before = .ok (some m) → m ≤ update.updateId + 1 := by
        intro m same
        have from' := le m (Except.ok.inj (resumes.symm.trans same))
        omega
      constructor
      · rintro ⟨next, same, behind, _⟩ item hi n' known'
        obtain ⟨c, rfl, lt⟩ := behind item hi n' known'
        rw [offsetOf_toString] at same
        cases same
        exact ⟨last, there, update, _, validates, known, Int.lt_add_one_iff.mp lt⟩
      · intro readable
        refine ⟨_, offsetOf_toString _, fun item hi n' known' => ⟨_, rfl, ?_⟩,
          fun m same => ⟨_, rfl, moved m same⟩⟩
        obtain ⟨valid, hv, update', m, validates', known'', le'⟩ := readable item hi n' known'
        obtain rfl := takes valid update' m validates' known''
        have largest' := largest update' (mem_validated.mpr ⟨valid, hv, validates'⟩)
        omega

/-- A poll that returns has moved its cursor behind everything that it received if and only if
no update is behind the last one that validates. -/
theorem syncTelegramMessages_acknowledges_iff {start τ : State Unit} (takes : TakesIds rt)
    (unique : start.store.EventIdsUnique)
    (resumes : offsetOf (start.store.cursorOf "telegram") = .ok offset)
    (answers : start.world.remote (.getUpdates offset) = some result)
    (delivered : UpdatesFrom offset result)
    (h : postgres.Completes () (syncTelegramMessages rt settings) start () τ) :
    Acknowledged result (start.store.cursorOf "telegram") (τ.store.cursorOf "telegram") ↔
      LastValidates rt result := by
  obtain ⟨offset', updates, batch, resumes', answered, _, ingested⟩ :=
    syncTelegramMessages_imports unique h
  obtain rfl : offset = offset' := Except.ok.inj (resumes.symm.trans resumes')
  obtain rfl := answered result answers
  exact acknowledged_iff takes delivered resumes ingested.cursor

end Acknowledge

section Example

/-- Validation of an update without a message. -/
def validateBare : Json → Except Exn TelegramUpdate
  | .obj [("update_id", .int n)] => .ok ⟨n, none⟩
  | _ => .error ⟨"ValidationError", "Input should be a valid dictionary"⟩

/-- The digests of the updates of the examples, by their ids and the texts of their messages. -/
def updateSha256 : Json → String
  | .obj [("update_id", .int id), ("message", message)] =>
      match id, message.get? "text" with
      | 1, .ok (some (.str "hi")) =>
          "7d3aaf1f18ef379a78858d359c975b58c7aac22ea066477f73b1c3196f4c7bbc"
      | 2, .ok (some (.str "hi")) =>
          "956e6899a1e554a6a930af31ea535048dc3f7161fb73dc1a8906629bfd57bbdb"
      | 2, .ok (some (.str "hello")) =>
          "4c3d26214ef51992773d8d872401180a6d65b03162af9df9112fa1125f41e493"
      | 3, .ok (some (.str "hello")) =>
          "94d38e887322a2ee7e41fc6f864681af3260f922978f95fba7d80699fc9120a1"
      | 3, .ok (some (.str "bye")) =>
          "336d3b74b5e94c506e7e80f6d6193f5be0e7421daff98bc93810cd1afa447723"
      | 9, .ok (some (.str "hi")) =>
          "28cddb129b015700162979a32fa7b1f9dfc803bbe06fc47072e0a8770d14248d"
      | 8, .error _ => "0ef35be050442b8b039a3c062c3dc2d55ccf3c864608ab692be832c4edf98358"
      | 9, .error _ => "6deb360068711db183c6b0975d81b574bad96c5fc1e2b1ee02f37039cf41a009"
      | _, _ => ""
  | _ => ""

def updateRuntime : Runtime := { textRuntime updateSha256 with validateUpdate := validateBare }

/-- An update whose message does not validate. -/
def brokenUpdate (id : Int) : Json := .obj [("update_id", .int id), ("message", .str "?")]

def updateServer (result : List Json) : Remote := fun s =>
  match s with
  | .getUpdates _ => some result
  | _ => none

/-- Telegram before the first poll. -/
def unpolled (result : List Json) : State Unit := State.facing ⟨{}, ∅, []⟩ (updateServer result)

/-- A broken update, and a valid one after it. -/
def validLast : List Json := [brokenUpdate 7, .obj [("update_id", .int 8)]]

def validLastPoll : Option (Unit × State Unit) :=
  postgres.outcome ()
    [.step (.text "c"), .step (.draw 1 0), .step .none, .step .none, .step (.items []),
      .step .none, .step (.draw 2 0), .step .none, .step .none, .step .none]
    (syncTelegramMessages updateRuntime {}) (unpolled validLast)

def brokenPoll : Option (Unit × State Unit) :=
  postgres.outcome ()
    [.step (.text "c"), .step (.draw 1 0), .step .none, .step .none, .step (.items []),
      .step .none, .step .none, .step .none]
    (syncTelegramMessages updateRuntime {}) (unpolled [brokenUpdate 7])

theorem updateRuntime_takesIds : TakesIds updateRuntime := by
  intro item update n valid known
  change validateBare item = .ok update at valid
  unfold validateBare at valid
  split at valid
  · cases valid
    cases known
    rfl
  · cases valid

/-- The updates up to a valid one are acknowledged. -/
theorem valid_last_acknowledged : ∃ τ,
    postgres.Completes () (syncTelegramMessages updateRuntime {}) (unpolled validLast) () τ ∧
      Acknowledged validLast none (τ.store.cursorOf "telegram") := by
  have shape : validLastPoll.map (fun x => x.1) = some () := by decide +kernel
  obtain ⟨⟨_, τ⟩, poll, _⟩ := Option.map_eq_some_iff.mp shape
  have run : postgres.Completes () (syncTelegramMessages updateRuntime {}) (unpolled validLast)
      () τ := Engine.completes_of_outcome poll
  have unique : (⟨{}, ∅, []⟩ : State Unit).store.EventIdsUnique :=
    fun x hx => (List.not_mem_nil hx).elim
  have ids : ∀ item ∈ validLast, updateId? item = some 7 ∨ updateId? item = some 8 := by
    intro item hi
    rcases List.mem_cons.mp hi with rfl | hi
    · exact .inl rfl
    · rw [List.mem_singleton.mp hi]
      exact .inr rfl
  have delivered : UpdatesFrom none validLast := by
    intro item hi
    rcases ids item hi with known | known
    · exact ⟨7, known, fun _ impossible => (nomatch impossible)⟩
    · exact ⟨8, known, fun _ impossible => (nomatch impossible)⟩
  refine ⟨τ, run, (syncTelegramMessages_acknowledges_iff updateRuntime_takesIds
    (facing_ids unique) rfl rfl delivered run).mpr ?_⟩
  intro item hi n known
  refine ⟨_, List.mem_cons_of_mem _ (List.mem_singleton.mpr rfl), ⟨8, none⟩, 8, rfl, rfl, ?_⟩
  rcases ids item hi with known' | known'
  all_goals
    rw [known'] at known
    cases known
    decide

/-- A broken update that comes last is asked for again. -/
theorem broken_update_unacknowledged : ∃ τ,
    postgres.Completes () (syncTelegramMessages updateRuntime {}) (unpolled [brokenUpdate 7]) () τ ∧
      UpdatesFrom none [brokenUpdate 7] ∧
        ¬ Acknowledged [brokenUpdate 7] none (τ.store.cursorOf "telegram") := by
  have shape : brokenPoll.map (fun x => x.2.store.cursorOf "telegram") = some none := by
    decide +kernel
  obtain ⟨⟨_, τ⟩, poll, absent⟩ := Option.map_eq_some_iff.mp shape
  refine ⟨τ, Engine.completes_of_outcome poll, fun item hi => ?_, ?_⟩
  · rw [List.mem_singleton.mp hi]
    exact ⟨7, rfl, fun _ impossible => (nomatch impossible)⟩
  · rintro ⟨next, same, behind, _⟩
    change τ.store.cursorOf "telegram" = none at absent
    rw [absent] at same
    cases same
    obtain ⟨_, impossible, _⟩ := behind _ (List.mem_singleton.mpr rfl) 7 rfl
    cases impossible

/-- Validation of an update with a text message. -/
def validateText : Json → Except Exn TelegramUpdate
  | .obj [("update_id", .int id), ("message_id", .int m), ("chat", .int chat),
      ("text", .str text)] =>
      .ok ⟨id, some { messageId := m, chat := some ⟨chat, none, none⟩, text := some text }⟩
  | _ => .error ⟨"ValidationError", "Input should be a valid dictionary"⟩

def chatRuntime : Runtime := { textRuntime updateSha256 with validateUpdate := validateText }

/-- The seventh message of a chat. -/
def chatUpdate (id chat : Int) (text : String) : Json :=
  .obj [("update_id", .int id), ("message_id", .int 7), ("chat", .int chat), ("text", .str text)]

end Example

end OmniSync
