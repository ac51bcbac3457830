import Mathlib.Data.List.Chain
import OmniSync.Txn.Verification

/-!
# Interference by committed write sets

The other sessions change the store only by committing, and what they commit is
compatible with what is pending here. So the interference that a session sees is
a list of write sets, replayed on the store. `Protocol.interleaved` is the
protocol of sessions that agree on a property `good` of every committed write
set and on how the world may move; `Protocol.solo` is the protocol of a session
that has the store to itself.

The store is at any moment the replay of the log, whatever the programs are
(`Cluster.Reachable.replayed`).
-/

namespace Txn

variable {Stmt : Type} {Ans : Stmt → Type} {Err Store Write World Choice ι α : Type}
variable (E : Engine Ans Err Store Write World Choice)

/-- Other sessions turn `σ` into `τ` while `ws` is pending. -/
structure Interference (tick : World → World → Prop) (good : ι → List Write → Prop)
    (ws : List Write) (σ τ : Shared Store Write World ι) : Prop where
  world : tick σ.world τ.world
  commits : ∃ new : List (ι × List Write), τ.log = σ.log ++ new ∧
    τ.store = E.view σ.store (new.flatMap Prod.snd) ∧
      ∀ entry ∈ new, good entry.1 entry.2 ∧ E.Compatible ws entry.2

namespace Interference

variable {E} {tick : World → World → Prop} {good : ι → List Write → Prop} {ws : List Write}
variable {σ τ υ : Shared Store Write World ι}

theorem refl (tick_refl : ∀ w, tick w w) : Interference E tick good ws σ σ :=
  ⟨tick_refl _, [], (List.append_nil _).symm, rfl, by simp⟩

theorem trans (tick_trans : ∀ {u v w}, tick u v → tick v w → tick u w)
    (first : Interference E tick good ws σ τ) (rest : Interference E tick good ws τ υ) :
    Interference E tick good ws σ υ := by
  obtain ⟨new, log, store, each⟩ := first.commits
  obtain ⟨new', log', store', each'⟩ := rest.commits
  refine ⟨tick_trans first.world rest.world, new ++ new', ?_, ?_, ?_⟩
  · rw [log', log, List.append_assoc]
  · rw [store', store, List.flatMap_append, E.view_append]
  · intro entry member
    rcases List.mem_append.mp member with here | there
    · exact each entry here
    · exact each' entry there

/-- A property that every compatible good write set keeps survives interference. -/
theorem preserves (keeps : Store → Prop) (h : Interference E tick good ws σ τ)
    (step : ∀ store i vs, good i vs → E.Compatible ws vs → keeps store → keeps (E.view store vs))
    (start : keeps σ.store) : keeps τ.store := by
  obtain ⟨new, log, store, each⟩ := h.commits
  rw [store]
  clear log store h
  generalize σ.store = before at start
  induction new generalizing before with
  | nil => exact start
  | cons entry new ih =>
      obtain ⟨ok, compatible⟩ := each entry (by simp)
      rw [List.flatMap_cons, E.view_append]
      exact ih (fun e he => each e (by simp [he])) _ (step before entry.1 entry.2 ok compatible start)

/-- Without committing sessions the store stays as it is. -/
theorem store_eq (h : Interference E tick (fun _ _ => False) ws σ τ) : τ.store = σ.store := by
  obtain ⟨new, _, store, each⟩ := h.commits
  cases new with
  | nil => simpa using store
  | cons entry new => exact (each entry (by simp)).1.elim

theorem log_eq (h : Interference E tick (fun _ _ => False) ws σ τ) : τ.log = σ.log := by
  obtain ⟨new, log, _, each⟩ := h.commits
  cases new with
  | nil => simpa using log
  | cons entry new => exact (each entry (by simp)).1.elim

theorem weaken {vs : List Write} (h : Interference E tick good (ws ++ vs) σ τ) :
    Interference E tick good ws σ τ := by
  obtain ⟨new, log, store, each⟩ := h.commits
  exact ⟨h.world, new, log, store, fun entry member =>
    ⟨(each entry member).1, (E.compatible_append_left.mp (each entry member).2).1⟩⟩

theorem mono {weaker : ι → List Write → Prop} (h : Interference E tick good ws σ τ)
    (imp : ∀ i vs, good i vs → weaker i vs) : Interference E tick weaker ws σ τ := by
  obtain ⟨new, log, store, each⟩ := h.commits
  exact ⟨h.world, new, log, store, fun entry member =>
    ⟨imp _ _ (each entry member).1, (each entry member).2⟩⟩

end Interference

namespace Protocol

/-- Sessions that interleave freely: each commits good write sets only, and moves
the world by `tick`. -/
def interleaved (inv : Shared Store Write World ι → Prop) (tick : World → World → Prop)
    (good : ι → List Write → Prop) (admits : Stmt → Shared Store Write World ι → List Write → Prop)
    (tick_refl : ∀ w, tick w w) (tick_trans : ∀ {u v w}, tick u v → tick v w → tick u w) :
    Protocol E ι where
  inv := inv
  rely := Interference E tick good
  guar i ws σ τ := tick σ.world τ.world ∧
    ((τ.store = σ.store ∧ τ.log = σ.log) ∨
      (good i ws ∧ τ.store = E.view σ.store ws ∧ τ.log = σ.log ++ [(i, ws)]))
  admits := admits
  rely_refl _ _ := Interference.refl tick_refl
  rely_trans := Interference.trans tick_trans
  guar_refl _ _ _ := ⟨tick_refl _, .inl ⟨rfl, rfl⟩⟩

/-- A session that has the store to itself: nobody else commits anything. -/
def solo (inv : Shared Store Write World ι → Prop) (tick : World → World → Prop)
    (admits : Stmt → Shared Store Write World ι → List Write → Prop)
    (tick_refl : ∀ w, tick w w) (tick_trans : ∀ {u v w}, tick u v → tick v w → tick u w) :
    Protocol E ι where
  inv := inv
  rely := Interference E tick (fun _ _ => False)
  guar _ _ _ _ := True
  admits := admits
  rely_refl _ _ := Interference.refl tick_refl
  rely_trans := Interference.trans tick_trans
  guar_refl _ _ _ := trivial

section Interleaved

variable {E} {inv : Shared Store Write World ι → Prop} {tick : World → World → Prop}
variable {good : ι → List Write → Prop}
variable {admits : Stmt → Shared Store Write World ι → List Write → Prop}
variable {tick_refl : ∀ w, tick w w} {tick_trans : ∀ {u v w}, tick u v → tick v w → tick u w}

theorem interleaved_coherent :
    (interleaved E inv tick good admits tick_refl tick_trans).Coherent := by
  rintro i ws others σ τ compatible ⟨world, ⟨store, log⟩ | ⟨ok, store, log⟩⟩
  · exact ⟨world, [], by simp [log], by simpa using store, by simp⟩
  · exact ⟨world, [(i, ws)], log, by simpa using store, by simpa using ⟨ok, compatible.symm⟩⟩

/-- A step that commits nothing. -/
theorem interleaved_guarantees_world {i : ι} {ws : List Write} {σ : Shared Store Write World ι}
    {world : World} (kept : inv { σ with world := world }) (moved : tick σ.world world) :
    (interleaved E inv tick good admits tick_refl tick_trans).Guarantees i ws σ
      { σ with world := world } :=
  ⟨kept, moved, .inl ⟨rfl, rfl⟩⟩

theorem interleaved_guarantees_publish {i : ι} {ws : List Write} {σ : Shared Store Write World ι}
    (kept : inv (E.publish σ i ws)) (ok : good i ws) :
    (interleaved E inv tick good admits tick_refl tick_trans).Guarantees i ws σ
      (E.publish σ i ws) :=
  ⟨kept, tick_refl _, .inr ⟨ok, rfl, rfl⟩⟩

end Interleaved

end Protocol

/-- The store is what the committed write sets make of `before`, in commit order. -/
def Shared.Replays (before : Store) (σ : Shared Store Write World ι) : Prop :=
  σ.store = E.view before (σ.log.flatMap Prod.snd)

/-- The committed states, from `before` on. -/
def Shared.states (before : Store) (σ : Shared Store Write World ι) : List Store :=
  σ.log.scanl (fun s entry => E.view s entry.2) before

variable {E}

theorem Shared.Replays.getLast?_states {before : Store} {σ : Shared Store Write World ι}
    (h : Shared.Replays E before σ) : (Shared.states E before σ).getLast? = some σ.store := by
  rw [states, List.getLast?_scanl, h]
  unfold Engine.view
  rw [List.foldl_flatMap]

theorem Shared.Replays.publish {before : Store} {σ : Shared Store Write World ι}
    (h : Shared.Replays E before σ) (i : ι) (ws : List Write) :
    Shared.Replays E before (E.publish σ i ws) := by
  unfold Replays at h ⊢
  rw [Engine.publish_store, Engine.publish_log, List.flatMap_append, E.view_append, ← h]
  simp

/-- A commit appends its state to the committed ones. -/
theorem Shared.Replays.isChain_publish {before : Store} {σ : Shared Store Write World ι}
    {R : Store → Store → Prop} (h : Shared.Replays E before σ)
    (chain : (Shared.states E before σ).IsChain R) {i : ι} {ws : List Write}
    (step : R σ.store (E.view σ.store ws)) :
    (Shared.states E before (E.publish σ i ws)).IsChain R := by
  have last := h.getLast?_states
  unfold states at chain last ⊢
  rw [List.getLast?_scanl, Option.some.injEq] at last
  rw [Engine.publish_log, List.scanl_append, last]
  refine chain.append (List.IsChain.singleton _) ?_
  intro s hs t ht
  rw [List.getLast?_scanl, last] at hs
  cases hs
  cases ht
  exact step

/-- A session changes the store and the log by committing only. -/
theorem Engine.advance_shared {i : ι} {locked : Write → Bool} {σ τ : Shared Store Write World ι}
    {session next : Session Ans Err Write α} {m : Move Err Choice}
    (h : E.advance i locked σ session m = some (next, τ)) :
    (τ.store = σ.store ∧ τ.log = σ.log) ∨
      ((∃ k, session.prog = .commit k) ∧ τ = E.publish σ i session.writes) := by
  obtain ⟨prog, ws⟩ := session
  cases m with
  | crash e =>
      have moved : (⟨.raise e, []⟩, σ) = (next, τ) := by cases prog <;> exact Option.some.inj h
      cases moved
      exact .inl ⟨rfl, rfl⟩
  | close => cases prog <;> cases h <;> exact .inl ⟨rfl, rfl⟩
  | fail e =>
      cases prog with
      | stmt s k =>
          simp only [advance] at h
          split at h
          · cases h
            exact .inl ⟨rfl, rfl⟩
          · cases h
      | commit k =>
          cases h
          exact .inl ⟨rfl, rfl⟩
      | ret a => cases h
      | raise e => cases h
      | rollback k => cases h
  | step choice =>
      cases prog with
      | ret a => cases h
      | raise e => cases h
      | stmt s k =>
          simp only [advance] at h
          split at h
          · cases h
          · split at h
            · cases h
            · cases h
              exact .inl ⟨rfl, rfl⟩
      | commit k =>
          cases h
          exact .inr ⟨⟨k, rfl⟩, rfl⟩
      | rollback k =>
          cases h
          exact .inl ⟨rfl, rfl⟩

theorem Shared.Replays.advance {before : Store} {i : ι} {locked : Write → Bool}
    {σ τ : Shared Store Write World ι} {session next : Session Ans Err Write α}
    {m : Move Err Choice} (replays : Shared.Replays E before σ)
    (h : E.advance i locked σ session m = some (next, τ)) : Shared.Replays E before τ := by
  rcases Engine.advance_shared h with ⟨store, log⟩ | ⟨_, rfl⟩
  · simpa only [Replays, store, log] using replays
  · exact replays.publish i session.writes

/-- In every interleaving the store is the replay of the log. -/
theorem Cluster.Reachable.replayed [Fintype ι] [DecidableEq ι] {before : Store}
    {st next : Cluster Ans Err Store Write World ι α}
    {admits : Stmt → Shared Store Write World ι → List Write → Prop}
    (start : Shared.Replays E before st.shared) (h : Cluster.Run E admits st next) :
    Shared.Replays E before next.shared := by
  induction h with
  | refl => exact start
  | tail _ _ step ih =>
      obtain ⟨session, shared, advanced, rfl⟩ := Cluster.act_eq_some_iff.mp step
      exact ih.advance advanced

end Txn
