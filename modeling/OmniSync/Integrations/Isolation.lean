import OmniSync.Filestore.Service
import OmniSync.Integrations.Feed
import OmniSync.Jira.Normalization

/-!
# Sources are isolated

All sources share the table of events and the outbox. A connector is faithful when it makes events
of its own source only. With faithful connectors an operation writes and announces events of its
source, or none, however the operations interleave: what belongs to the other sources stays as
it is.
-/

namespace OmniSync

open Txn

variable {ι : Type}

/-- The connector makes events of its own source only. -/
def Connector.Faithful (connector : Connector) : Prop :=
  ∀ raw rawPayloadId e, connector.normalize raw rawPayloadId = .ok (some e) →
    e.source = connector.source

/-- The registry finds a faithful connector under the name of its source, if any. -/
def Runtime.Registers (rt : Runtime) : Prop :=
  ∀ source connector, rt.getConnector source = .ok connector →
    connector.source = source ∧ connector.Faithful

section Connectors

variable {lib : DatetimeLib} {rt : Runtime}

theorem JiraConnector.connector_faithful (frames : Nat) (now : Time) :
    (JiraConnector.connector lib rt frames now).Faithful := by
  intro raw rawPayloadId e made
  change normalize lib rt frames now raw rawPayloadId = _ at made
  simp only [normalize, bind, Except.bind, pure, Except.pure] at made
  split at made
  · cases made
  · split at made
    · cases made
    · split at made
      · cases made
      · split at made
        · cases made
        · next event =>
            cases made
            exact (issueEvent_made event).1.2.1

theorem FileStoreConnector.connector_faithful (bucket : String) (now : Time) :
    (FileStoreConnector.connector rt bucket now).Faithful := by
  intro raw rawPayloadId e made
  change normalize rt bucket now raw rawPayloadId = _ at made
  simp only [normalize, bind, Except.bind, pure, Except.pure] at made
  repeat' split at made
  all_goals cases made
  rfl

theorem Runtime.Registers.sourcesOf_subset (h : rt.Registers) (source : String) :
    rt.sourcesOf source ⊆ {source} := by
  rintro _ ⟨connector, raw, rawPayloadId, e, known, made, rfl⟩
  obtain ⟨name, faithful⟩ := h source connector known
  rw [Set.mem_singleton_iff, faithful raw rawPayloadId e made, name]

end Connectors

/-- The events that an operation writes are of its source. -/
theorem Operation.source_of_mem_sources {c : SystemConfig} (registers : c.rt.Registers)
    {op : Operation} {source : String} (h : source ∈ op.sources c) : op.source = some source := by
  cases op with
  | background task =>
      cases task with
      | runConnectorSync registered _ =>
          exact congrArg some (registers.sourcesOf_subset registered h).symm
      | poll | syncImapMessages => exact congrArg some (Set.mem_singleton_iff.mp h).symm
  | request r => exact congrArg some (Set.mem_singleton_iff.mp h).symm
  | publishOutbox | retryFailedEvents | replayFailedEvent | listEvents | pollChanges => exact h.elim

/-- What the write stores or announces is an event of these sources. -/
def Write.Of (sources : Set String) : Write → Prop
  | putEvent row => row.source ∈ sources
  | addOutbox o => o.payload.source ∈ sources
  | _ => True

theorem Write.Beside.of {sources : Set String} {w : Write} (h : w.Beside) : w.Of sources := by
  cases w <;> first | exact h.elim | trivial

/-- Every session has committed events of its own sources only. -/
structure Isolated (sources : ι → Set String) (σ : State ι) : Prop where
  ids : σ.store.EventIdsUnique
  own : ∀ entry ∈ σ.log, ∀ w ∈ entry.2, w.Of (sources entry.1)

/-- The protocol of sessions that keep to their sources. -/
def isolating (sources : ι → Set String) : Protocol postgres ι :=
  Protocol.interleaved postgres (Isolated sources) World.Later (fun _ _ => True)
    (fun _ _ _ => True) World.Later.refl World.Later.trans

section Steps

variable {sources : ι → Set String} {σ τ : State ι} {ws : List Write}
variable {events : List NormalizedEventCreate} {changedBy : Option String} {p : UpsertPlan}

theorem hosts_isolating : Hosts (isolating sources) :=
  hosts_interleaved (fun _ _ inv _ => ⟨inv.ids, inv.own⟩)

/-- An upsert of events of some sources writes events of these sources. -/
theorem Upserted.of {P : Protocol postgres ι} {made : Set String}
    (h : Upserted P events changedBy p σ ws τ) (own : ∀ e ∈ events, e.source ∈ made) :
    ∀ w ∈ p.writes, w.Of made := by
  have rows : ∀ row ∈ p.rows, row.source ∈ made := by
    intro row hr
    obtain ⟨prepared, each, same⟩ := h.rows
    rw [same] at hr
    obtain ⟨_, hp, rfl⟩ := List.mem_map.mp hr
    obtain ⟨e, he, id, rfl⟩ := each.exists_left hp
    have key := Store.excluded_key (postgres.view τ.store ws)
      (e.toRow id (targetVersion (p.existing e.key) e) p.now)
    have source : ((postgres.view τ.store ws).excluded
        (e.toRow id (targetVersion (p.existing e.key) e) p.now)).source = e.source :=
      congrArg Prod.fst key
    rw [source]
    exact own e (mem_of_mem_deduped he)
  intro w hw
  cases w with
  | putEvent row => exact rows row (mem_writes_putEvent.mp hw)
  | addOutbox o =>
      obtain ⟨row, hr, id, t, rfl⟩ := h.outbox.exists_left (mem_writes_addOutbox.mp hw)
      exact rows row hr
  | _ => trivial

/-- Sessions can run the parts of the operations of their sources. -/
theorem isolating_sustains (i : ι) :
    Sustains (isolating sources) i (UpsertPart (sources i)) Stmt.Beside (fun σ ws =>
      Pending σ.store ws ∧ ∀ w ∈ ws, w.Of (sources i)) where
  stable clean rely _ := ⟨clean.1.rely hosts_isolating rely, clean.2⟩
  empty _ := ⟨Pending.nil _, fun _ hw => (List.not_mem_nil hw).elim⟩
  step here inv run := by
    have beside := exec_beside here run
    refine ⟨Protocol.interleaved_guarantees_world ⟨inv.ids, inv.own⟩ (exec_later run),
      fun clean => ⟨clean.1.append_beside beside, fun w hw => ?_⟩⟩
    rcases List.mem_append.mp hw with old | new
    · exact clean.2 w old
    · exact (beside w new).of
  commits clean inv := by
    refine Protocol.interleaved_guarantees_publish ⟨clean.1.eventIdsUnique_view inv.ids, ?_⟩ trivial
    intro entry he
    rcases List.mem_append.mp he with old | new
    · exact inv.own entry old
    · cases List.mem_singleton.mp new
      exact clean.2
  part here inv clean := by
    cases here with
    | bulk events changedBy own =>
        refine wp_upsertEventsBulk hosts_isolating (fun _ inv => inv.ids) inv clean.1
          (fun _ _ _ _ _ impossible => (nomatch impossible)) ?_
        refine fun p τ _ upserted _ _ => ⟨upserted.pending, fun w hw => ?_⟩
        rcases List.mem_append.mp hw with old | new
        · exact clean.2 w old
        · exact upserted.of own w new

end Steps

/-- However any operations interleave and wherever they fail: an operation commits and announces
events of its own source only, and the events of a source that no operation is for, and what the
feed shows of them, stay as they are. -/
theorem operations_isolated [Fintype ι] [DecidableEq ι] (c : SystemConfig)
    (registers : c.rt.Registers) (ops : ι → Operation) {shared : State ι}
    (ids : shared.store.EventIdsUnique) (fresh : shared.log = [])
    {st : Cluster Answer Exn Store Write World ι Unit}
    (run : Cluster.Reachable postgres (Cluster.start shared (fun i => (ops i).run c)) st) :
    (∀ entry ∈ st.shared.log,
      (∀ row, .putEvent row ∈ entry.2 → (ops entry.1).source = some row.source) ∧
        ∀ o, .addOutbox o ∈ entry.2 → (ops entry.1).source = some o.payload.source) ∧
      ∀ source, (∀ i, (ops i).source ≠ some source) →
        (∀ externalId, st.shared.store.normalizedEvents.find (source, externalId) =
          shared.store.normalizedEvents.find (source, externalId)) ∧
        ∀ x, x.1.source = source → (x ∈ st.shared.store.entries ↔ x ∈ shared.store.entries) := by
  have reached : Isolated (fun i => (ops i).sources c) st.shared :=
    Cluster.Composed.inv (P := isolating (fun i => (ops i).sources c))
      Protocol.interleaved_coherent isolating_sustains (fun i => (ops i).orderly c)
      ⟨ids, by simp [fresh]⟩ run
  have own : ∀ entry ∈ st.shared.log,
      (∀ row, .putEvent row ∈ entry.2 → (ops entry.1).source = some row.source) ∧
        ∀ o, .addOutbox o ∈ entry.2 → (ops entry.1).source = some o.payload.source :=
    fun entry he =>
      ⟨fun row hr => Operation.source_of_mem_sources registers (reached.own entry he _ hr),
        fun o ho => Operation.source_of_mem_sources registers (reached.own entry he _ ho)⟩
  have replayed : Shared.Replays postgres shared.store st.shared :=
    Cluster.Reachable.replayed (by simp [Shared.Replays, Cluster.start, fresh]) run
  refine ⟨own, fun source other => ⟨fun externalId => ?_, fun x hx => ?_⟩⟩
  · rw [replayed]
    refine find_view_normalizedEvents_of_free (fun row hr key => ?_)
    obtain ⟨entry, he, hr⟩ := List.mem_flatMap.mp hr
    exact other entry.1 (((own entry he).1 row hr).trans (congrArg (some ·.1) key))
  · rw [replayed]
    refine ⟨fun here => (mem_entries_of_mem_view here).resolve_right ?_, mem_entries_view_of_mem⟩
    rintro ⟨o, ho, rfl⟩
    obtain ⟨entry, he, ho⟩ := List.mem_flatMap.mp ho
    exact other entry.1 (((own entry he).2 o ho).trans (congrArg some hx))

section Example

/-- Jira and the file store have connectors. -/
def filingConfig : SystemConfig :=
  { chatConfig with
    rt := { chatRuntime with
      getConnector := fun source =>
        if source = "jira" then .ok (JiraConnector.connector chatConfig.lib chatRuntime 100 0)
        else if source = "filestore" then .ok (FileStoreConnector.connector chatRuntime "files" 0)
        else .error ⟨"ValueError", "No connector registered for source: " ++ source⟩ } }

theorem filingConfig_registers : filingConfig.rt.Registers := by
  intro source connector found
  change (if source = "jira" then _ else if source = "filestore" then _ else _) =
    Except.ok connector at found
  split at found
  · next name =>
      cases found
      exact ⟨name.symm, JiraConnector.connector_faithful 100 0⟩
  · split at found
    · next name =>
        cases found
        exact ⟨name.symm, FileStoreConnector.connector_faithful "files" 0⟩
    · cases found

def filingStart : Cluster Answer Exn Store Write World Bool Unit :=
  Cluster.start ⟨{ (unpolled twoChats).world with clock := .shared 0 1 }, ∅, []⟩
    (fun i => (chatOperations i).run filingConfig)

/-- A sync of the messages writes nothing of the file store. -/
theorem operations_isolated_chat :
    ∃ st, filingStart.play postgres (fun _ _ _ => True) chatSchedule = some st ∧
      st.shared.store.normalizedEvents.rows.map NormalizedEvent.source = ["telegram"] ∧
        ∀ externalId, st.shared.store.normalizedEvents.find ("filestore", externalId) = none := by
  have shape : (filingStart.play postgres (fun _ _ _ => True) chatSchedule).map (fun st =>
      st.shared.store.normalizedEvents.rows.map NormalizedEvent.source) = some ["telegram"] := by
    decide +kernel
  obtain ⟨st, run, rows⟩ := Option.map_eq_some_iff.mp shape
  have reached : Cluster.Reachable postgres filingStart st := Cluster.run_of_play run
  have other : ∀ i, (chatOperations i).source ≠ some "filestore" := by decide
  refine ⟨st, run, rows, fun externalId => ?_⟩
  rw [((operations_isolated filingConfig filingConfig_registers chatOperations
    (fun _ he => (List.not_mem_nil he).elim) rfl reached).2 "filestore" other).1 externalId]
  rfl

end Example

end OmniSync
