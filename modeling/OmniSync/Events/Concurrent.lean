import OmniSync.Events.History

/-!
# Upserts of the same event at the same time

A transaction reads the existing rows before it holds their locks, so two writers
of one event may choose the same version for different contents. The one that
upserts last finds the version of the other in the history and does not record its
own content. As long as this does not happen, the history covers everything that
was stored: `history_covers_stored`. It does happen: `history_misses_stored`.
-/

namespace OmniSync

open Txn

variable {ι : Type}

/-- The history has the current version of every event with its content, and every
content that a committed transaction has stored. -/
structure HistoryCovers (σ : State ι) : Prop where
  current : ∀ e ∈ σ.store.normalizedEvents, HistoryRow σ.store e.id e.version e.content
  stored : ∀ entry ∈ σ.log, ∀ row, .putEvent row ∈ entry.2 →
    ∃ v ∈ σ.store.eventVersions, v.eventId = row.id ∧ v.content = row.content

/-- The version that a statement looks up in the history. -/
def Stmt.versionLookup : Stmt → Option (Uuid × Nat)
  | .selectVersion eventId version => some (eventId, version)
  | _ => none

/-- When a transaction that has upserted a row looks up its version in the history, it
finds no row or a row with the same content. -/
def FindsOwnContent (s : Stmt) (σ : State ι) (ws : List Write) : Prop :=
  ∀ k ∈ s.versionLookup, ∀ row ∈ ws.filterMap Write.event, (row.id, row.version) = k →
    ∀ v ∈ (postgres.view σ.store ws).eventVersions.rows, v.key = k → v.content = row.content

instance (s : Stmt) (σ : State ι) (ws : List Write) : Decidable (FindsOwnContent s σ ws) :=
  inferInstanceAs (Decidable (∀ k ∈ s.versionLookup, ∀ row ∈ ws.filterMap Write.event,
    (row.id, row.version) = k →
      ∀ v ∈ (postgres.view σ.store ws).eventVersions.rows, v.key = k → v.content = row.content))

/-- The protocol of interleaved upserts whose lookups find their own content. -/
def recording : Protocol postgres ι :=
  Protocol.interleaved postgres (fun σ => σ.store.EventIdsUnique ∧ HistoryCovers σ) World.Later
    (fun _ _ => True) FindsOwnContent World.Later.refl World.Later.trans

theorem hosts_recording : Hosts (recording (ι := ι)) :=
  hosts_interleaved (fun _ _ inv _ => ⟨inv.1, inv.2.1, inv.2.2⟩)

section Commit

variable {events : List NormalizedEventCreate} {changedBy : Option String} {p : UpsertPlan}
variable {σ τ υ : State ι}

/-- Each row that is stored is in the history after the commit. -/
theorem Upserted.history_row (h : Upserted recording events changedBy p σ [] τ)
    (rely : recording.rely p.writes τ υ) {row : NormalizedEvent} (hr : row ∈ p.rows) :
    HistoryRow (postgres.view υ.store p.writes) row.id row.version row.content := by
  have committing := h.committing hosts_recording rely
  rcases h.recorded row hr with ⟨v, hv, id, t, rfl⟩ | ⟨φ, done, initial, since, admitted, found⟩
  · exact ⟨_, committing.mem_versions.mpr (.inr (.inr hv)), rfl, rfl⟩
  · -- The version was found: by the condition it has the content of `row`.
    obtain ⟨v, hv⟩ := Option.isSome_iff_exists.mp found
    obtain ⟨member, key⟩ := Table.find_eq_some_iff.mp hv
    have pending : row ∈ ([] ++ p.before.map Write.addVersion ++ p.rows.map Write.putEvent ++
        done.map Write.addVersion).filterMap Write.event :=
      List.mem_filterMap.mpr ⟨.putEvent row, by simp [hr], rfl⟩
    have content := admitted (row.id, row.version) rfl row pending rfl v member key
    refine ⟨v, committing.mem_versions.mpr ?_, key, content⟩
    rcases mem_view_eventVersions_iff member with old | own
    · exact .inl (hosts_recording.mem_eventVersions rely
        (hosts_recording.mem_eventVersions since old))
    · simp only [List.nil_append, List.mem_append, List.mem_map, Write.addVersion.injEq,
        exists_eq_right, reduceCtorEq, and_false, exists_false, or_false] at own
      exact .inr (own.imp id (fun now => initial.subset now))

theorem HistoryRow.publish {s : Store} {ws : List Write} {eventId : Uuid} {version : Nat}
    {content : String} (h : HistoryRow s eventId version content) :
    HistoryRow (postgres.view s ws) eventId version content := by
  obtain ⟨v, hv, same⟩ := h
  exact ⟨v, mem_view_eventVersions hv, same⟩

theorem Upserted.historyCovers (h : Upserted recording events changedBy p σ [] τ)
    (rely : recording.rely p.writes τ υ) (covers : HistoryCovers υ) (i : ι) :
    HistoryCovers (postgres.publish υ i p.writes) where
  current e he := by
    rcases (h.committing hosts_recording rely).mem_events.mp he with new | ⟨old, _⟩
    · exact h.history_row rely new
    · exact (covers.current e old).publish
  stored entry member row hr := by
    rcases List.mem_append.mp member with old | new
    · obtain ⟨v, hv, same⟩ := covers.stored entry old row hr
      exact ⟨v, mem_view_eventVersions hv, same⟩
    · cases List.mem_singleton.mp new
      obtain ⟨v, hv, key, content⟩ := h.history_row rely (mem_writes_putEvent.mp hr)
      exact ⟨v, hv, congrArg Prod.fst key, content⟩

end Commit

theorem recording_commits (i : ι) : Commits recording i := fun upserted rely inv =>
  Protocol.interleaved_guarantees_publish
    ⟨(upserted.committing hosts_recording rely).pending.eventIdsUnique_view inv.1,
      upserted.historyCovers rely inv.2 i⟩ trivial

/-- Whatever interleaving of upsert transactions has run on an empty database: the
history covers what was stored, provided that no lookup has found other content. -/
theorem history_covers_stored [Fintype ι] [DecidableEq ι] {world : World}
    (batch : ι → List NormalizedEventCreate) (changedBy : ι → Option String)
    {st : Cluster Answer Exn Store Write World ι (List NormalizedEvent)}
    (run : Cluster.Run postgres FindsOwnContent (Cluster.start ⟨world, ∅, []⟩
      (fun i => upsertTransaction (batch i) (changedBy i))) st) : HistoryCovers st.shared := by
  have ids : (∅ : Store).EventIdsUnique := fun _ hx => (List.not_mem_nil hx).elim
  have covers : HistoryCovers (⟨world, ∅, []⟩ : State ι) :=
    ⟨fun _ he => (List.not_mem_nil he).elim, fun _ member => (List.not_mem_nil member).elim⟩
  exact (upsertTransactions_inv hosts_recording (fun _ inv => inv.1)
    Protocol.interleaved_coherent recording_commits ⟨ids, covers⟩ run).2

/-- Three transactions that store one commit, each with its own content. -/
def threeWriters : Cluster Answer Exn Store Write World (Fin 3) (List NormalizedEvent) :=
  Cluster.start ⟨{}, ∅, []⟩ (fun i => upsertTransaction [sampleCommit (["a", "b", "c"].get i)] none)

/-- The second and the third writer read the row of the first one before either of
them upserts. Both choose version 2. -/
def overtaking : List (Fin 3 × Move Exn Choice) :=
  (createScript 10).map (Prod.mk 0) ++ [(2, .step (.time 0)), (2, .step .none)] ++
    (changeScript 20).map (Prod.mk 1) ++
      [(2, .step .none), (2, .step (.draw 30 0)), (2, .step .none), (2, .step .none),
        (2, .step .none), (2, .step (.draws [(32, 0)])), (2, .step .none)]

/-- All three writers have committed, and the content of the third one, which is the
current one, is not in the history. -/
theorem history_misses_stored : ∃ st, Cluster.Reachable postgres threeWriters st ∧
    (∀ i, (st.sessions i).returned.isSome) ∧ ¬ HistoryCovers st.shared ∧
      ∃ e ∈ st.shared.store.normalizedEvents, (e.version, e.content) = (2, "c") ∧
        st.shared.store.eventVersions.rows.map (fun v => (v.eventId, v.version, v.content)) =
          [(e.id, 1, "a"), (e.id, 2, "b")] := by
  have shape : (threeWriters.play postgres (fun _ _ _ => True) overtaking).map (fun st => decide
      ((∀ i, (st.sessions i).returned.isSome) ∧
        st.shared.store.normalizedEvents.rows.map (fun e => (e.id, e.version, e.content)) =
            [(10, 2, "c")] ∧
          st.shared.store.eventVersions.rows.map (fun v => (v.eventId, v.version, v.content)) =
            [(10, 1, "a"), (10, 2, "b")])) = some true := by decide +kernel
  obtain ⟨st, run, facts⟩ := Option.map_eq_some_iff.mp shape
  obtain ⟨finished, events, versions⟩ := of_decide_eq_true facts
  obtain ⟨e, one, state⟩ := List.map_eq_singleton_iff.mp events
  simp only [Prod.mk.injEq] at state
  obtain ⟨id, version, content⟩ := state
  have member : e ∈ st.shared.store.normalizedEvents := by
    rw [Table.mem_def, one]
    exact List.mem_singleton.mpr rfl
  refine ⟨st, Cluster.run_of_play run, finished, ?_, e, member, by rw [version, content],
    by rw [versions, id]⟩
  intro covers
  obtain ⟨v, hv, key, same⟩ := covers.current e member
  have listed : (v.eventId, v.version, v.content) ∈
      st.shared.store.eventVersions.rows.map (fun v => (v.eventId, v.version, v.content)) :=
    List.mem_map.mpr ⟨v, hv, rfl⟩
  rw [versions, same, content] at listed
  simp at listed

/-- Two writers that run one after the other are admitted. -/
theorem history_covers_stored_sequential :
    ∃ st, threeWriters.play postgres FindsOwnContent
        ((createScript 10).map (Prod.mk 0) ++ (changeScript 20).map (Prod.mk 1)) = some st ∧
      st.shared.store.eventVersions.rows.map EventVersion.content = ["a", "b"] ∧
        HistoryCovers st.shared := by
  have shape : (threeWriters.play postgres FindsOwnContent
      ((createScript 10).map (Prod.mk 0) ++ (changeScript 20).map (Prod.mk 1))).map
        (fun st => st.shared.store.eventVersions.rows.map EventVersion.content) =
          some ["a", "b"] := by decide +kernel
  obtain ⟨st, run, versions⟩ := Option.map_eq_some_iff.mp shape
  have admitted : Cluster.Run postgres FindsOwnContent threeWriters st :=
    Cluster.run_of_play run
  exact ⟨st, run, versions, history_covers_stored _ _ admitted⟩

end OmniSync
