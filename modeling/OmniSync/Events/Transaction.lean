import OmniSync.Events.Upsert

/-!
# Upsert transactions

A transaction that upserts one batch and commits. What has to be shown of such
transactions under a protocol is one thing: that the commit of an upsert keeps the
protocol. `upsertTransactions_inv` draws the conclusion for any number of them.
-/

namespace OmniSync

open Txn

variable {ι : Type}

/-- Upsert one batch in a transaction of its own. -/
def upsertTransaction (events : List NormalizedEventCreate) (changedBy : Option String) :
    Tx (List NormalizedEvent) := do
  let results ← NormalizedEventService.upsertEventsBulk events changedBy
  Prog.commitWork
  return results

/-- A commit with some content. -/
def sampleCommit (content : String) : NormalizedEventCreate :=
  { externalId := "abc123", source := "github", authorId := "dev@example.org",
    authorName := "Dev", content := content, eventType := "commit", timestamp := 0 }

/-- Three sessions. -/
inductive Party where
  | first
  | second
  | third
  deriving DecidableEq

instance : Fintype Party := ⟨{.first, .second, .third}, fun p => by cases p <;> decide⟩

/-- The moves of a transaction that stores a new event with id `id`. -/
def createScript (id : Uuid) : List (Move Exn Choice) :=
  [.step (.time 0), .step .none, .step (.draw id 0), .step .none, .step .none, .step .none,
    .step (.draw (id + 1) 0), .step (.draws [(id + 2, 0)]), .step .none]

/-- The moves of a transaction that changes the content of an event. -/
def changeScript (id : Uuid) : List (Move Exn Choice) :=
  [.step (.time 0), .step .none, .step .none, .step (.draw id 0), .step .none, .step .none,
    .step .none, .step (.draw (id + 1) 0), .step (.draws [(id + 2, 0)]), .step .none]

/-- Under `P`, session `i` may commit what it has upserted. -/
def Commits (P : Protocol postgres ι) (i : ι) : Prop :=
  ∀ {events changedBy p σ τ υ}, Upserted P events changedBy p σ [] τ → P.rely p.writes τ υ →
    P.inv υ → P.Guarantees i p.writes υ (postgres.publish υ i p.writes)

section Safety

variable {P : Protocol postgres ι}

theorem wp_upsertTransaction_of_commits (hosts : Hosts P)
    (ids : ∀ σ, P.inv σ → σ.store.EventIdsUnique) {i : ι} (commits : Commits P i)
    {events : List NormalizedEventCreate} {changedBy : Option String} {σ : State ι}
    (inv : P.inv σ) : wp P i (upsertTransaction events changedBy) (fun _ _ _ => True) σ [] := by
  unfold upsertTransaction
  rw [wp_bind]
  refine wp_upsertEventsBulk hosts ids inv (Pending.nil _) (fun _ _ _ _ => trivial) ?_
  intro p τ _ upserted
  rw [Post.andThen_ok, wp_bind, wp_commitWork]
  intro υ rely inv
  exact ⟨fun _ => trivial, commits upserted rely inv, trivial⟩

/-- Interleaved upsert transactions keep the invariant of a protocol. -/
theorem upsertTransactions_inv [Fintype ι] [DecidableEq ι] (hosts : Hosts P)
    (ids : ∀ σ, P.inv σ → σ.store.EventIdsUnique) (coherent : P.Coherent)
    (commits : ∀ i, Commits P i) {σ : State ι} (inv : P.inv σ)
    {batch : ι → List NormalizedEventCreate} {changedBy : ι → Option String}
    {st : Cluster Answer Exn Store Write World ι (List NormalizedEvent)}
    (run : Cluster.Run postgres P.admits
      (Cluster.start σ (fun i => upsertTransaction (batch i) (changedBy i))) st) :
    P.inv st.shared := by
  have verified : ∀ i, wp P i (upsertTransaction (batch i) (changedBy i)) (fun _ _ _ => True) σ [] :=
    fun i => wp_upsertTransaction_of_commits hosts ids (commits i) inv
  have safe := Cluster.Safe.start P (Q := fun _ _ _ _ => True) inv verified
  exact (safe.run coherent (fun _ => .trivial) run).inv

end Safety

/-- The protocol of interleaved upsert transactions that only looks at the identities of
the events. -/
def storing : Protocol postgres ι :=
  Protocol.interleaved postgres (fun σ => σ.store.EventIdsUnique) World.Later (fun _ _ => True)
    (fun _ _ _ => True) World.Later.refl World.Later.trans

theorem hosts_storing : Hosts (@storing ι) := hosts_interleaved (fun _ _ inv _ => inv)

theorem storing_commits (i : ι) : Commits storing i := fun upserted rely inv =>
  Protocol.interleaved_guarantees_publish
    ((upserted.committing hosts_storing rely).pending.eventIdsUnique_view inv) trivial

/-- No two events share their id, whatever interleaving of upsert transactions has run. -/
theorem upsertTransactions_ids [Fintype ι] [DecidableEq ι] {σ : State ι}
    (ids : σ.store.EventIdsUnique) {batch : ι → List NormalizedEventCreate}
    {changedBy : ι → Option String}
    {st : Cluster Answer Exn Store Write World ι (List NormalizedEvent)}
    (run : Cluster.Reachable postgres
      (Cluster.start σ (fun i => upsertTransaction (batch i) (changedBy i))) st) :
    st.shared.store.EventIdsUnique :=
  upsertTransactions_inv hosts_storing (fun _ inv => inv) Protocol.interleaved_coherent
    storing_commits ids run

end OmniSync
