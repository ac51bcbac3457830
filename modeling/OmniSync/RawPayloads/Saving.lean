import OmniSync.Database.Content
import OmniSync.RawPayloads.Storage

/-!
# What a call of `save_raw_payload` does

A payload that is there already is not stored again. A new one gets a row, and its body is
in the row or in the object store, under a key that ends with a reading of the clock.
-/

namespace OmniSync

open Txn

variable {rt : Runtime} {settings : Settings} {source correlationId : String} {payload : Json}

/-- The key under which a payload is put into the object store. -/
def objectKey (rt : Runtime) (source correlationId : String) (t : Time) : String :=
  source ++ "/" ++ correlationId ++ "/" ++ rt.isoformat t ++ ".json"

/-- The clock has shown `t` since it was `c`. -/
def Clock.Showed (c : Clock) (t : Time) (c' : Clock) : Prop := c.shows t = true ∧ (c.read t).Le c'

/-- A call has stored the body of a payload, in its row or in the object store. -/
inductive BodyStored (rt : Runtime) (settings : Settings) (source correlationId : String)
    (body : Json) (w w' : World) (row : RawPayload) : Prop where
  | database (stored : row.payload = some body) (url : row.storageUrl = none)
      (objects : w'.objects = w.objects)
  | objectStore (t : Time) (showed : w.clock.Showed t w'.clock) (stored : row.payload = none)
      (url : row.storageUrl = some (objectUrl settings (objectKey rt source correlationId t)))
      (objects : w'.objects = w.objects ++ [(objectKey rt source correlationId t, body)])

/-- The payload is that of a row. -/
def RawPayload.Matches (rt : Runtime) (source : String) (payload : Json) (row : RawPayload) :
    Prop :=
  row.source = source ∧ row.contentHash = some (rt.canonicalHash payload)

/-- From `s` to `t` a call has returned the row `row`. It adds the writes `new`. -/
structure PayloadSaved (rt : Runtime) (settings : Settings) (source correlationId : String)
    (payload : Json) (s : Store) (w w' : World) (row : RawPayload) (new : List Write) : Prop where
  columns : row.Matches rt source payload
  later : w.clock.Le w'.clock
  outcome : row ∈ s.rawPayloads ∧ new = [] ∧ w'.objects = w.objects ∨
    (∀ other ∈ s.rawPayloads, ¬ other.Matches rt source payload) ∧
      s.rawPayloads.find row.id = none ∧ new = [.addRawPayload row] ∧
        BodyStored rt settings source correlationId (rt.jsonSafe payload) w w' row

theorem mem_put_addRawPayload {s : Store} {row : RawPayload}
    (absent : s.rawPayloads.find row.id = none) :
    row ∈ (s.put (.addRawPayload row)).rawPayloads := by
  change row ∈ (s.rawPayloads.add row).rows
  rw [Table.rows_add_of_absent absent]
  simp

theorem mem_view_rawPayloads {s : Store} {ws : List Write} {p : RawPayload}
    (hp : p ∈ s.rawPayloads) :
    p ∈ (postgres.view s ws).rawPayloads := by
  induction ws generalizing s with
  | nil => exact hp
  | cons w ws ih =>
      refine ih ?_
      cases w with
      | addRawPayload row => exact Table.mem_add_of_mem hp
      | _ => exact hp

theorem PayloadSaved.onlyPayloads {s : Store} {w w' : World} {row : RawPayload} {new : List Write}
    (h : PayloadSaved rt settings source correlationId payload s w w' row new) :
    ∀ write ∈ new, ∃ p, write = .addRawPayload p := by
  intro write hw
  rcases h.outcome with ⟨_, rfl, _⟩ | ⟨_, _, rfl, _⟩
  · exact (List.not_mem_nil hw).elim
  · exact ⟨row, List.mem_singleton.mp hw⟩

theorem PayloadSaved.mem {s : Store} {w w' : World} {row : RawPayload} {new : List Write}
    (h : PayloadSaved rt settings source correlationId payload s w w' row new) :
    row ∈ (postgres.view s new).rawPayloads := by
  rcases h.outcome with ⟨stored, rfl, _⟩ | ⟨_, absent, rfl, _⟩
  · exact stored
  · exact mem_put_addRawPayload absent

section Protocol

variable {inv : State Unit → Prop} {σ : State Unit} {ws : List Write}

/-- A reading of the clock. -/
theorem wp_utcNow_showed {P : Protocol postgres Unit} (hosts : Hosts P)
    {Q : Post Exn Store Write World Unit Time}
    (h : ∀ τ, P.rely ws σ τ → P.inv τ → ∀ t, σ.world.clock.Showed t τ.world.clock →
      Q (.ok t) τ ws) :
    wp P () Db.utcNow Q σ ws := by
  rw [Db.utcNow, wp_issue]
  intro τ rely inv _
  refine ⟨fun impossible => (nomatch impossible), ?_⟩
  intro choice locked answer new world run _
  cases choice with
  | time t =>
      change (if τ.world.clock.shows t then _ else none) = _ at run
      split at run
      · rename_i shown
        cases run
        have before : σ.world.clock.Le τ.world.clock := (hosts.interference rely).world
        have le := Clock.le_read shown
        have guarantee : P.Guarantees () ws τ (withClock τ (τ.world.clock.read t)) :=
          hosts.keeps inv le
        refine ⟨guarantee, ?_⟩
        rw [List.append_nil]
        exact h _ (P.rely_trans rely (hosts.passes le)) guarantee.inv t
          ⟨Clock.shows_of_le before shown, Clock.read_le_read before t⟩
      · cases run
  | _ => cases run

/-- The passage of time keeps the invariant, and so does an object that a call of
`save_raw_payload` puts into the object store. -/
structure Saves (rt : Runtime) (source correlationId : String) (body : Json)
    (inv : State Unit → Prop) : Prop where
  ticks : ∀ σ c, inv σ → inv (withClock σ c)
  puts : ∀ σ t, inv σ → inv (withObject σ (objectKey rt source correlationId t) body)

/-- What the attempt to offload a payload leads to. -/
structure Offloaded (rt : Runtime) (settings : Settings) (source correlationId : String)
    (body : Json) (w w' : World) (url : Option String) : Prop where
  later : w.clock.Le w'.clock
  outcome : url = none ∧ w'.objects = w.objects ∨ ∃ t, w.clock.Showed t w'.clock ∧
    url = some (objectUrl settings (objectKey rt source correlationId t)) ∧
      w'.objects = w.objects ++ [(objectKey rt source correlationId t, body)]

/-- Offloading a payload never fails, and changes nothing in the database. -/
theorem wp_offloadLarge {body : Json} (keeps : Saves rt source correlationId body inv)
    (start : inv σ) :
    wp (alone inv (fun _ _ _ => True)) () (offloadLarge rt settings source correlationId body)
      (fun r τ vs => τ.store = σ.store ∧ vs = ws ∧ inv τ ∧ ∃ url, r = .ok url ∧
        Offloaded rt settings source correlationId body σ.world τ.world url) σ ws := by
  have hosts : Hosts (alone inv (fun _ _ _ => True)) := hosts_alone keeps.ticks
  unfold offloadLarge
  split
  · unfold offloadPayload
    rw [wp_tryCatch, wp_bind]
    refine wp_utcNow_showed hosts (fun τ rely _ now showed => ?_)
    rw [Post.andThen_ok, wp_bind]
    refine wp_putObject (fun υ rely' inv' => ?_)
    have same : υ.store = σ.store := (alone_store rely').trans (alone_store rely)
    have idle := (alone_world rely).trans (alone_world rely')
    have objects : υ.world.objects = σ.world.objects := by rw [idle.2]
    refine ⟨fun e => ⟨same, rfl, inv', none, rfl, idle.1, .inl ⟨rfl, objects⟩⟩, ?_, ?_⟩
    · exact alone_guarantees (keeps.puts υ now inv')
    · refine ⟨same, rfl, keeps.puts υ now inv', _, rfl, idle.1, .inr ⟨now, ?_, rfl, ?_⟩⟩
      · exact ⟨showed.1, showed.2.trans (alone_world rely').1⟩
      · exact congrArg (fun objects => objects ++ [_]) objects
  · exact ⟨rfl, rfl, start, none, rfl, Clock.Le.refl _, .inl ⟨rfl, rfl⟩⟩

/-- What a call leaves. -/
theorem wp_saveRawPayload_saved
    (keeps : Saves rt source correlationId (rt.jsonSafe payload) inv) :
    wp (alone inv (fun _ _ _ => True)) () (saveRawPayload rt settings source payload correlationId)
      (fun r τ vs => ∀ id, r = .ok id → τ.store = σ.store ∧ ∃ row new, row.id = id ∧
        vs = ws ++ new ∧ PayloadSaved rt settings source correlationId payload
          (postgres.view σ.store ws) σ.world τ.world row new) σ ws := by
  have hosts : Hosts (alone inv (fun _ _ _ => True)) := hosts_alone keeps.ticks
  unfold saveRawPayload
  rw [wp_bind]
  refine wp_selectRawPayload hosts
    (fun τ rely inv => ⟨fun _ _ impossible => (nomatch impossible), ?_⟩)
  rw [Post.andThen_ok, alone_store rely]
  have idle := alone_world rely
  cases found : (postgres.view σ.store ws).rawPayloads.rows.find? (fun row =>
      decide (row.source = source) && decide (row.contentHash = some (rt.canonicalHash payload)))
    with
  | some existing =>
      have columns := List.find?_some found
      simp only [Bool.and_eq_true, decide_eq_true_eq] at columns
      rintro _ ⟨⟩
      refine ⟨alone_store rely, existing, [], rfl, (List.append_nil _).symm, columns, idle.1, ?_⟩
      exact .inl ⟨List.mem_of_find?_eq_some found, rfl, by rw [idle.2]⟩
  | none =>
      have fresh : ∀ other ∈ (postgres.view σ.store ws).rawPayloads,
          ¬ other.Matches rt source payload := by
        intro other ho same
        have passes := List.find?_eq_none.mp found other ho
        simp only [Bool.and_eq_true, decide_eq_true_eq] at passes
        exact passes same
      simp only [Option.map_none]
      rw [wp_bind]
      refine wp_mono (wp_offloadLarge keeps inv) ?_
      rintro _ υ _ ⟨same, rfl, _, url, rfl, later, outcome⟩
      rw [Post.andThen_ok]
      refine wp_insertRawPayload hosts
        (fun φ rely' _ => ⟨fun _ _ impossible => (nomatch impossible), ?_⟩)
      intro id t absent
      rintro _ ⟨⟩
      have here : φ.store = σ.store := (alone_store rely').trans (same.trans (alone_store rely))
      rw [here] at absent
      have idle' := alone_world rely'
      let row : RawPayload :=
        { id := id
          source := source
          payload := if url.isSome then none else some (rt.jsonSafe payload)
          contentHash := some (rt.canonicalHash payload)
          correlationId := correlationId
          receivedAt := t
          storageUrl := url }
      refine ⟨here, row, [.addRawPayload row], rfl, rfl, ?_⟩
      refine ⟨⟨rfl, rfl⟩, (idle.1.trans later).trans idle'.1, .inr ⟨fresh, absent, rfl, ?_⟩⟩
      have objects : τ.world.objects = σ.world.objects := by rw [idle.2]
      have objects' : φ.world.objects = υ.world.objects := by rw [idle'.2]
      rcases outcome with ⟨rfl, kept⟩ | ⟨s, showed, rfl, put⟩
      · exact .database rfl rfl (objects'.trans (kept.trans objects))
      · refine .objectStore s ⟨Clock.shows_of_le idle.1 showed.1, ?_⟩ rfl rfl ?_
        · exact ((Clock.read_le_read idle.1 s).trans showed.2).trans idle'.1
        · rw [objects', put, objects]

end Protocol

end OmniSync
