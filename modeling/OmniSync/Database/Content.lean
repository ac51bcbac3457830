import OmniSync.Database.Footprint

/-!
# The ingested content

Five tables hold what was ingested; the others keep book of runs, deliveries and failures.
The ingestion work does not look at those, so from two stores with the same content it can
go the same way: `exec_sameContent`.
-/

namespace OmniSync

open Txn

/-- The two stores hold the same content. -/
structure Store.SameContent (s t : Store) : Prop where
  rawPayloads : t.rawPayloads = s.rawPayloads
  normalizedEvents : t.normalizedEvents = s.normalizedEvents
  eventVersions : t.eventVersions = s.eventVersions
  outboxEvents : t.outboxEvents = s.outboxEvents
  syncState : t.syncState = s.syncState

namespace Store.SameContent

variable {s t u : Store}

theorem refl (s : Store) : s.SameContent s := ⟨rfl, rfl, rfl, rfl, rfl⟩

theorem symm (h : s.SameContent t) : t.SameContent s :=
  ⟨h.rawPayloads.symm, h.normalizedEvents.symm, h.eventVersions.symm, h.outboxEvents.symm,
    h.syncState.symm⟩

theorem trans (first : s.SameContent t) (rest : t.SameContent u) : s.SameContent u :=
  ⟨rest.rawPayloads.trans first.rawPayloads, rest.normalizedEvents.trans first.normalizedEvents,
    rest.eventVersions.trans first.eventVersions, rest.outboxEvents.trans first.outboxEvents,
    rest.syncState.trans first.syncState⟩

theorem put (h : s.SameContent t) (w : Write) : (s.put w).SameContent (t.put w) := by
  obtain ⟨raw, events, versions, outbox, cursors⟩ := h
  constructor <;> cases w <;> simp only [Store.put, raw, events, versions, outbox, cursors]

theorem view (h : s.SameContent t) (ws : List Write) :
    (postgres.view s ws).SameContent (postgres.view t ws) := by
  induction ws generalizing s t with
  | nil => exact h
  | cons w ws ih => exact ih (h.put w)

end Store.SameContent

/-- The write is to a table that keeps book. -/
def Write.Books (w : Write) : Prop :=
  w.table = .failedEvents ∨ w.table = .syncLogs ∨ w.table = .webhookDeliveries

theorem Store.sameContent_put {s : Store} {w : Write} (h : w.Books) : s.SameContent (s.put w) := by
  cases w <;> first | exact ⟨rfl, rfl, rfl, rfl, rfl⟩ | simp [Write.Books, Write.table] at h

theorem Store.sameContent_view {s : Store} {ws : List Write} (h : ∀ w ∈ ws, w.Books) :
    s.SameContent (postgres.view s ws) := by
  induction ws generalizing s with
  | nil => exact .refl s
  | cons w ws ih =>
      exact (sameContent_put (h w (by simp))).trans (ih (fun v hv => h v (by simp [hv])))

namespace Clock

variable {c d : Clock} {t : Time}

theorem shows_of_le (h : c.Le d) (shown : d.shows t = true) : c.shows t = true := by
  cases c <;> cases d <;> simp_all [Le, shows]
  exact h.1.trans shown

theorem read_le_read (h : c.Le d) (t : Time) : (c.read t).Le (d.read t) := by
  cases c <;> cases d <;> simp_all [Le, read]

theorem foldl_max_mono {m n : Time} (h : m ≤ n) (gap : Nat) (ts : List Time) :
    ts.foldl (fun (m t : Time) => max m (t + gap)) m ≤
      ts.foldl (fun (m t : Time) => max m (t + gap)) n := by
  induction ts generalizing m n with
  | nil => exact h
  | cons t ts ih => exact ih (max_le_max h le_rfl)

theorem flush_le_flush (h : c.Le d) (ts : List Time) : (c.flush ts).Le (d.flush ts) := by
  cases c <;> cases d
  case free.free => trivial
  case shared.shared =>
      obtain ⟨le, rfl⟩ := h
      exact ⟨foldl_max_mono le _ ts, rfl⟩
  all_goals exact h.elim

end Clock

/-- An earlier world, in which the services answer the same. -/
structure World.Before (w w' : World) : Prop where
  clock : w.clock.Le w'.clock
  remote : w'.remote = w.remote

section Exec

variable {stmt : Stmt} {choice : Choice} {w w' w₂ : World} {v v' : Store}
variable {locked : Write → Bool} {answer : Except Exn (Answer stmt)} {new : List Write}

/-- An earlier clock allows the same insert. -/
theorem inserts_sameContent {constraint : String} {result : Uuid → Answer stmt}
    {write : Uuid → Time → Write} {taken : Store → Uuid → Time → Bool}
    (inserts : stmt.Inserts constraint result write taken) (before : w.Before w')
    (run : exec stmt choice w' v' locked = some (answer, new, w₂))
    (same : ∀ id t, taken v id t = taken v' id t) :
    ∃ w₁, exec stmt choice w v locked = some (answer, new, w₁) ∧ w₁.Before w₂ := by
  rw [inserts] at run ⊢
  cases choice with
  | draw id t =>
      simp only at run ⊢
      split at run
      · rename_i shown
        rw [if_pos (Clock.shows_of_le before.clock shown)]
        have later := Clock.read_le_read before.clock t
        unfold insertUnless at run ⊢
        cases free : taken v' id t with
        | false =>
            rw [free] at run
            cases run
            rw [same id t, free]
            exact ⟨_, rfl, later, before.remote⟩
        | true =>
            rw [free] at run
            cases run
            rw [same id t, free]
            exact ⟨_, rfl, later, before.remote⟩
      · cases run
  | _ => cases run

/-- From a store with the same content, and not later, a statement of the ingestion work can
have the same outcome. -/
theorem exec_sameContent (same : v.SameContent v') (before : w.Before w')
    (ingesting : stmt.Ingesting) (run : exec stmt choice w' v' locked = some (answer, new, w₂)) :
    ∃ w₁, exec stmt choice w v locked = some (answer, new, w₁) ∧ w₁.Before w₂ := by
  obtain ⟨raw, events, versions, outbox, cursors⟩ := same
  cases stmt with
  | utcNow =>
      cases choice with
      | time t =>
          simp only [exec] at run ⊢
          split at run
          · rename_i shown
            cases run
            rw [if_pos (Clock.shows_of_le before.clock shown)]
            exact ⟨_, rfl, Clock.read_le_read before.clock t, before.remote⟩
          · cases run
      | _ => cases run
  | updateCursor key cursor =>
      cases choice with
      | time t =>
          simp only [exec] at run ⊢
          split at run
          · rename_i shown
            cases run
            rw [if_pos (Clock.shows_of_le before.clock shown)]
            exact ⟨_, rfl, Clock.read_le_read before.clock t, before.remote⟩
          · cases run
      | _ => cases run
  | insertVersion row =>
      refine inserts_sameContent (fun choice _ _ _ => by cases choice <;> rfl) before run ?_
      intro id t
      rw [versions]
  | insertRawPayload row =>
      refine inserts_sameContent (fun choice _ _ _ => by cases choice <;> rfl) before run ?_
      intro id t
      rw [raw]
  | insertCursor row =>
      refine inserts_sameContent (fun choice _ _ _ => by cases choice <;> rfl) before run ?_
      intro id t
      rw [cursors]
  | insertOutbox rows =>
      cases choice with
      | draws stamps =>
          simp only [exec, outbox] at run ⊢
          split at run
          · rename_i shape
            have shown : stamps.length = rows.length ∧
                stamps.all (fun p => w.clock.shows p.2) = true := by
              refine ⟨shape.1, List.all_eq_true.mpr (fun p hp => ?_)⟩
              exact Clock.shows_of_le before.clock (List.all_eq_true.mp shape.2 p hp)
            rw [if_pos shown]
            split at run
            · rename_i fresh
              cases run
              rw [if_pos fresh]
              exact ⟨_, rfl, Clock.flush_le_flush before.clock _, before.remote⟩
            · rename_i clash
              cases run
              rw [if_neg clash]
              exact ⟨_, rfl, before⟩
          · cases run
      | _ => cases run
  | insertOnConflict row =>
      cases choice with
      | none =>
          simp only [exec, Store.excluded, events] at run ⊢
          unfold insertUnless at run ⊢
          split at run
          · rename_i taken
            cases run
            rw [if_pos taken]
            exact ⟨_, rfl, before⟩
          · rename_i free
            cases run
            rw [if_neg free]
            exact ⟨_, rfl, before⟩
      | _ => cases run
  | uuid4 | selectEvents | selectVersion | selectWatermark | selectRawPayload | selectCursor
  | putObject =>
      cases choice <;> cases run
      simp only [exec, Store.watermark, raw, events, versions, cursors]
      exact ⟨_, rfl, before.clock, before.remote⟩
  | fetch | fetchMail | getCommits | getPullRequests | getUpdates =>
      cases choice <;> cases run
      simp only [exec, before.remote]
      exact ⟨_, rfl, before⟩
  | _ => exact ingesting.elim

end Exec

end OmniSync
