import OmniSync.Database.Frame

/-!
# Verification conditions of the statements

Most statements read the store, add pending writes and take stamps from the
clock. `Hosts` says what a protocol has to allow for them: time passes, and the
other sessions interfere by committing compatible write sets. The rules below
turn a statement into the answers that it can give; a clock reading is absorbed
by the rely, so a postcondition only has to hold in the states that the rely
reaches.
-/

namespace OmniSync

open Txn

variable {ι α : Type}

/-- Time passes under `P`, and the other sessions commit compatible writes. -/
structure Hosts (P : Protocol postgres ι) : Prop where
  interference : ∀ {ws σ τ}, P.rely ws σ τ →
    Interference postgres World.Later (fun _ _ => True) ws σ τ
  passes : ∀ {ws σ c}, σ.world.clock.Le c → P.rely ws σ (withClock σ c)
  keeps : ∀ {i ws σ c}, P.inv σ → σ.world.clock.Le c → P.Guarantees i ws σ (withClock σ c)
  weaken : ∀ {ws vs σ τ}, P.rely (ws ++ vs) σ τ → P.rely ws σ τ

/-- The protocol of a program that runs alone: nothing but time passes meanwhile. -/
def alone (inv : State ι → Prop) (admits : Stmt → State ι → List Write → Prop) :
    Protocol postgres ι :=
  Protocol.solo postgres inv World.Idle admits World.Idle.refl World.Idle.trans

section Alone

variable {inv : State ι → Prop} {admits : Stmt → State ι → List Write → Prop}

/-- A program that runs alone hosts the statements when the passage of time keeps its
invariant. -/
theorem hosts_alone_of_le (keeps : ∀ σ c, inv σ → σ.world.clock.Le c → inv (withClock σ c)) :
    Hosts (alone inv admits) where
  interference h := by
    obtain ⟨world, new, log, store, each⟩ := h
    exact ⟨world.1, new, log, store, fun entry member => ⟨trivial, (each entry member).2⟩⟩
  passes le := ⟨⟨le, rfl⟩, [], (List.append_nil _).symm, rfl, by simp⟩
  keeps kept le := ⟨keeps _ _ kept le, trivial⟩
  weaken h := h.weaken

theorem hosts_alone (keeps : ∀ σ c, inv σ → inv (withClock σ c)) : Hosts (alone inv admits) :=
  hosts_alone_of_le (fun σ c kept _ => keeps σ c kept)

theorem alone_store {ws : List Write} {σ τ : State ι} (h : (alone inv admits).rely ws σ τ) :
    τ.store = σ.store := Interference.store_eq h

theorem alone_log {ws : List Write} {σ τ : State ι} (h : (alone inv admits).rely ws σ τ) :
    τ.log = σ.log := Interference.log_eq h

theorem alone_world {ws : List Write} {σ τ : State ι} (h : (alone inv admits).rely ws σ τ) :
    σ.world.Idle τ.world := Interference.world h

theorem alone_guarantees {i : ι} {ws : List Write} {σ τ : State ι} (kept : inv τ) :
    (alone inv admits).Guarantees i ws σ τ := ⟨kept, trivial⟩

end Alone

/-- The protocol of a read that runs alone. -/
def reading : Protocol postgres ι := alone (fun _ => True) (fun _ _ _ => True)

theorem hosts_reading : Hosts (reading (ι := ι)) := hosts_alone (fun _ _ _ => trivial)

/-- Interleaved sessions host the statements when they let time pass and the passage of
time keeps their invariant. -/
theorem hosts_interleaved_of {inv : State ι → Prop} {tick : World → World → Prop}
    {good : ι → List Write → Prop} {admits : Stmt → State ι → List Write → Prop}
    {tick_refl : ∀ w, tick w w} {tick_trans : ∀ {u v w}, tick u v → tick v w → tick u w}
    (later : ∀ {w w'}, tick w w' → w.Later w')
    (passes : ∀ {w : World} {c}, w.clock.Le c → tick w { w with clock := c })
    (keeps : ∀ σ c, inv σ → σ.world.clock.Le c → inv (withClock σ c)) :
    Hosts (Protocol.interleaved postgres inv tick good admits tick_refl tick_trans) where
  interference h := by
    obtain ⟨world, new, log, store, each⟩ := h
    exact ⟨later world, new, log, store, fun entry member => ⟨trivial, (each entry member).2⟩⟩
  passes le := ⟨passes le, [], (List.append_nil _).symm, rfl, by simp⟩
  keeps kept le := Protocol.interleaved_guarantees_world (keeps _ _ kept le) (passes le)
  weaken h := h.weaken

theorem hosts_interleaved {inv : State ι → Prop} {good : ι → List Write → Prop}
    {admits : Stmt → State ι → List Write → Prop}
    (keeps : ∀ σ c, inv σ → σ.world.clock.Le c → inv (withClock σ c)) :
    Hosts (Protocol.interleaved postgres inv World.Later good admits World.Later.refl
      World.Later.trans) := hosts_interleaved_of id id keeps

namespace Hosts

variable {P : Protocol postgres ι} {i : ι} {ws vs : List Write} {σ τ : State ι}

/-- What is locked by a pending write keeps its committed state. -/
theorem look_eq (hosts : Hosts P) {β : Type} (look : Store → β) {lock : Lock} {w : Write}
    (step : ∀ {s w}, lock ∉ Write.locks w → look (s.put w) = look s)
    (h : P.rely ws σ τ) (hw : w ∈ ws) (held : lock ∈ w.locks) :
    look τ.store = look σ.store :=
  (hosts.interference h).preserves (fun s => look s = look σ.store)
    (fun _ _ _ _ compatible kept =>
      (view_unchanged look step (not_lock_of_compatible compatible hw held)).trans kept) rfl

theorem mem_eventVersions (hosts : Hosts P) (h : P.rely ws σ τ) {v : EventVersion}
    (hv : v ∈ σ.store.eventVersions) : v ∈ τ.store.eventVersions :=
  (hosts.interference h).preserves (fun s => v ∈ s.eventVersions)
    (fun _ _ _ _ _ kept => mem_view_eventVersions kept) hv

theorem mem_of_mem (hosts : Hosts P) (h : P.rely ws σ τ) {row x : NormalizedEvent}
    (hw : .putEvent row ∈ ws) (hx : x ∈ τ.store.normalizedEvents) (same : x.id = row.id) :
    x ∈ σ.store.normalizedEvents := by
  refine (hosts.interference h).preserves
    (fun s => x ∈ s.normalizedEvents → x ∈ σ.store.normalizedEvents) ?_ id hx
  intro s j vs _ compatible kept here
  refine kept (mem_of_mem_view ?_ here same)
  exact not_lock_of_compatible compatible hw (by simp [Write.locks])

end Hosts

section Rules

variable {P : Protocol postgres ι} {i : ι} {σ : State ι} {ws : List Write}

/-- A statement that at most lets time pass: it suffices to consider its answers
and pending writes `R`, in the states that the rely reaches. -/
theorem wp_exec (hosts : Hosts P) {s : Stmt} {Q : Post Exn Store Write World ι (Answer s)}
    (R : Store → Except Exn (Answer s) → List Write → Prop)
    (runs : ∀ {choice world view locked answer new world'},
      exec s choice world view locked = some (answer, new, world') →
        R view answer new ∧ ∃ c, world.clock.Le c ∧ world' = { world with clock := c })
    (h : ∀ τ, P.rely ws σ τ → P.inv τ →
      (fallible s = true → ∀ e, Q (.error e) τ ws) ∧
        ∀ answer new, R (postgres.view τ.store ws) answer new → Q answer τ (ws ++ new)) :
    wp P i (Prog.issue s) Q σ ws := by
  rw [wp_issue]
  intro τ rely inv _
  refine ⟨(h τ rely inv).1, ?_⟩
  intro choice locked answer new world run _
  obtain ⟨answers, c, le, rfl⟩ := runs run
  have kept : P.Guarantees i ws τ (withClock τ c) := hosts.keeps inv le
  exact ⟨kept, (h (withClock τ c) (P.rely_trans rely (hosts.passes le)) kept.inv).2 _ _ answers⟩

/-- The statement reads the view of its session and changes nothing. -/
def Stmt.Queries (s : Stmt) (f : Store → Answer s) : Prop :=
  ∀ choice world view locked, exec s choice world view locked =
    match choice with
    | .none => some (.ok (f view), [], world)
    | _ => none

theorem wp_query (hosts : Hosts P) {s : Stmt} {f : Store → Answer s} (queries : s.Queries f)
    {Q : Post Exn Store Write World ι (Answer s)}
    (h : ∀ τ, P.rely ws σ τ → P.inv τ →
      (∀ e, Q (.error e) τ ws) ∧ Q (.ok (f (postgres.view τ.store ws))) τ ws) :
    wp P i (Prog.issue s) Q σ ws := by
  refine wp_exec hosts (fun view answer new => answer = .ok (f view) ∧ new = []) ?_ ?_
  · intro choice world view locked answer new world' run
    rw [queries] at run
    cases choice with
    | none =>
        cases run
        exact ⟨⟨rfl, rfl⟩, _, Clock.Le.refl _, rfl⟩
    | _ => cases run
  · intro τ rely inv
    obtain ⟨failing, found⟩ := h τ rely inv
    refine ⟨fun _ => failing, ?_⟩
    rintro answer new ⟨rfl, rfl⟩
    simpa using found

/-- A request of one query. -/
theorem query_completes {β : Type} {s : Stmt} {f : Store → Answer s} (queries : s.Queries f)
    {respond : Answer s → β} {σ τ : State ι} {b : β}
    (h : postgres.Completes i (do return respond (← Prog.issue s)) σ b τ) :
    b = respond (f σ.store) := by
  refine (wp_completes reading (Q := fun b _ => b = respond (f σ.store))
    (fun _ _ _ => trivial) (fun same _ => same) trivial ?_ h).2
  rw [wp_bind]
  refine wp_query hosts_reading queries
    (fun υ rely _ => ⟨fun _ _ impossible => (nomatch impossible), ?_⟩)
  rintro _ ⟨⟩
  rw [postgres.view_nil, alone_store rely]

/-- The answers to an `INSERT` under a unique constraint. -/
theorem insertUnless_some {β : Type} {taken : Bool} {constraint : String} {a : β} {write : Write}
    {world world' : World} {answer : Except Exn β} {new : List Write}
    (h : insertUnless taken constraint a write world = some (answer, new, world')) :
    world' = world ∧ ((taken = true ∧ answer = .error (integrityError constraint) ∧ new = []) ∨
      (taken = false ∧ answer = .ok a ∧ new = [write])) := by
  unfold insertUnless at h
  cases taken with
  | true =>
      cases h
      exact ⟨rfl, .inl ⟨rfl, rfl, rfl⟩⟩
  | false =>
      cases h
      exact ⟨rfl, .inr ⟨rfl, rfl, rfl⟩⟩

/-- The statement draws an identifier and inserts `write`, unless a unique key is taken. -/
def Stmt.Inserts (s : Stmt) (constraint : String) (answer : Uuid → Answer s)
    (write : Uuid → Time → Write) (taken : Store → Uuid → Time → Bool) : Prop :=
  ∀ choice world view locked, exec s choice world view locked =
    match choice with
    | .draw id t =>
        if world.clock.shows t then
          insertUnless (taken view id t) constraint (answer id) (write id t)
            { world with clock := world.clock.read t }
        else none
    | _ => none

theorem wp_insert (hosts : Hosts P) {s : Stmt} {constraint : String} {answer : Uuid → Answer s}
    {write : Uuid → Time → Write} {taken : Store → Uuid → Time → Bool}
    (inserts : s.Inserts constraint answer write taken)
    {Q : Post Exn Store Write World ι (Answer s)}
    (h : ∀ τ, P.rely ws σ τ → P.inv τ → (∀ e, Q (.error e) τ ws) ∧
      ∀ id t, taken (postgres.view τ.store ws) id t = false →
        Q (.ok (answer id)) τ (ws ++ [write id t])) :
    wp P i (Prog.issue s) Q σ ws := by
  refine wp_exec hosts (fun view result new => ((∃ e, result = .error e) ∧ new = []) ∨
    ∃ id t, result = .ok (answer id) ∧ new = [write id t] ∧ taken view id t = false) ?_ ?_
  · intro choice world view locked result new world' run
    rw [inserts] at run
    cases choice with
    | draw id t =>
        simp only at run
        split at run
        · rename_i shown
          obtain ⟨rfl, ⟨_, rfl, rfl⟩ | ⟨free, rfl, rfl⟩⟩ := insertUnless_some run
          · exact ⟨.inl ⟨⟨_, rfl⟩, rfl⟩, _, Clock.le_read shown, rfl⟩
          · exact ⟨.inr ⟨id, t, rfl, rfl, free⟩, _, Clock.le_read shown, rfl⟩
        · cases run
    | _ => cases run
  · intro τ rely inv
    obtain ⟨failing, inserted⟩ := h τ rely inv
    refine ⟨fun _ => failing, ?_⟩
    rintro result new (⟨⟨e, rfl⟩, rfl⟩ | ⟨id, t, rfl, rfl, free⟩)
    · simpa using failing e
    · exact inserted id t free

theorem wp_utcNow (hosts : Hosts P) {Q : Post Exn Store Write World ι Time}
    (h : ∀ τ, P.rely ws σ τ → P.inv τ → ∀ t, Q (.ok t) τ ws) :
    wp P i Db.utcNow Q σ ws := by
  refine wp_exec hosts (fun _ answer new => (∃ t, answer = .ok t) ∧ new = []) ?_ ?_
  · intro choice world view locked answer new world' run
    cases choice with
    | time t =>
        simp only [exec] at run
        split at run
        · rename_i shown
          cases run
          exact ⟨⟨⟨t, rfl⟩, rfl⟩, _, Clock.le_read shown, rfl⟩
        · cases run
    | _ => cases run
  · intro τ rely inv
    refine ⟨fun impossible => (nomatch impossible), ?_⟩
    rintro answer new ⟨⟨t, rfl⟩, rfl⟩
    simpa using h τ rely inv t

theorem wp_uuid4 (hosts : Hosts P) {Q : Post Exn Store Write World ι Uuid}
    (h : ∀ τ, P.rely ws σ τ → P.inv τ → ∀ id, Q (.ok id) τ ws) :
    wp P i Db.uuid4 Q σ ws := by
  refine wp_exec hosts (fun _ answer new => (∃ id, answer = .ok id) ∧ new = []) ?_ ?_
  · intro choice world view locked answer new world' run
    cases choice with
    | draw id t =>
        cases run
        exact ⟨⟨⟨id, rfl⟩, rfl⟩, _, Clock.Le.refl _, rfl⟩
    | _ => cases run
  · intro τ rely inv
    refine ⟨fun impossible => (nomatch impossible), ?_⟩
    rintro answer new ⟨⟨id, rfl⟩, rfl⟩
    simpa using h τ rely inv id

theorem wp_selectEvents (hosts : Hosts P) {keys : List (String × String)}
    {Q : Post Exn Store Write World ι (List NormalizedEvent)}
    (h : ∀ τ, P.rely ws σ τ → P.inv τ → (∀ e, Q (.error e) τ ws) ∧
      Q (.ok ((postgres.view τ.store ws).normalizedEvents.rows.filter
        (fun row => decide (row.key ∈ keys)))) τ ws) :
    wp P i (Db.selectEvents keys) Q σ ws :=
  wp_query hosts (fun choice _ _ _ => by cases choice <;> rfl) h

theorem wp_selectVersion {eventId : Uuid} {version : Nat}
    {Q : Post Exn Store Write World ι (Option Uuid)}
    (h : ∀ τ, P.rely ws σ τ → P.inv τ → P.admits (.selectVersion eventId version) τ ws →
      (∀ e, Q (.error e) τ ws) ∧
        Q (.ok (((postgres.view τ.store ws).eventVersions.find (eventId, version)).map
          EventVersion.id)) τ ws) :
    wp P i (Db.selectVersion eventId version) Q σ ws := by
  rw [Db.selectVersion, wp_issue]
  intro τ rely inv admitted
  obtain ⟨failing, found⟩ := h τ rely inv admitted
  refine ⟨fun _ => failing, ?_⟩
  intro choice locked answer new world run _
  cases choice with
  | none =>
      cases run
      exact ⟨.refl inv, by simpa using found⟩
  | _ => cases run

theorem wp_insertVersion (hosts : Hosts P) {row : Draft EventVersion}
    {Q : Post Exn Store Write World ι Uuid}
    (h : ∀ τ, P.rely ws σ τ → P.inv τ → (∀ e, Q (.error e) τ ws) ∧
      ∀ id t, (postgres.view τ.store ws).eventVersions.find (row id t).key = none →
        Q (.ok id) τ (ws ++ [.addVersion (row id t)])) :
    wp P i (Db.insertVersion row) Q σ ws := by
  refine wp_insert hosts (fun choice _ _ _ => by cases choice <;> rfl) (fun τ rely inv => ?_)
  obtain ⟨failing, inserted⟩ := h τ rely inv
  refine ⟨failing, fun id t free => inserted id t ?_⟩
  simpa using (Bool.or_eq_false_iff.mp free).1

theorem wp_insertOnConflict (hosts : Hosts P) {row : NormalizedEvent}
    {Q : Post Exn Store Write World ι Unit}
    (h : ∀ τ, P.rely ws σ τ → P.inv τ → (∀ e, Q (.error e) τ ws) ∧
      (((postgres.view τ.store ws).normalizedEvents.find row.key = none →
          ∀ other ∈ (postgres.view τ.store ws).normalizedEvents, other.id ≠ row.id) →
        Q (.ok ()) τ (ws ++ [.putEvent ((postgres.view τ.store ws).excluded row)]))) :
    wp P i (Db.insertOnConflict row) Q σ ws := by
  refine wp_exec hosts (fun view answer new => ((∃ e, answer = .error e) ∧ new = []) ∨
    (answer = .ok () ∧ new = [.putEvent (view.excluded row)] ∧
      (view.normalizedEvents.find row.key = none →
        ∀ other ∈ view.normalizedEvents, other.id ≠ row.id))) ?_ ?_
  · intro choice world view locked answer new world' run
    cases choice with
    | none =>
        obtain ⟨rfl, ⟨_, rfl, rfl⟩ | ⟨free, rfl, rfl⟩⟩ := insertUnless_some run
        · exact ⟨.inl ⟨⟨_, rfl⟩, rfl⟩, _, Clock.Le.refl _, rfl⟩
        · refine ⟨.inr ⟨rfl, rfl, ?_⟩, _, Clock.Le.refl _, rfl⟩
          intro absent other member same
          rw [absent, Option.isNone_none, Bool.true_and, List.any_eq_false] at free
          exact free other member (decide_eq_true same)
    | _ => cases run
  · intro τ rely inv
    obtain ⟨failing, written⟩ := h τ rely inv
    refine ⟨fun _ => failing, ?_⟩
    rintro answer new (⟨⟨e, rfl⟩, rfl⟩ | ⟨rfl, rfl, unused⟩)
    · simpa using failing e
    · exact written unused

/-- A flush of outbox rows. Its stamps are not earlier than the clock before it, and
the clock has passed them by its gap afterwards. -/
theorem wp_insertOutbox (hosts : Hosts P) {rows : List (Draft OutboxEvent)}
    {Q : Post Exn Store Write World ι Unit}
    (h : ∀ τ υ, P.rely ws σ τ → P.inv τ → P.rely ws τ υ → P.inv υ → (∀ e, Q (.error e) υ ws) ∧
      ∀ stamps : List (Uuid × Time), stamps.length = rows.length →
        (∀ p ∈ stamps, τ.world.clock.shows p.2 = true) → υ.store = τ.store →
        υ.world.clock = τ.world.clock.flush (stamps.map Prod.snd) →
        (stamps.map Prod.fst).Nodup →
        (∀ p ∈ stamps, (postgres.view υ.store ws).outboxEvents.find p.1 = none) →
          Q (.ok ()) υ
            (ws ++ (List.zipWith (fun row p => row p.1 p.2) rows stamps).map .addOutbox)) :
    wp P i (Db.insertOutbox rows) Q σ ws := by
  rw [Db.insertOutbox, wp_issue]
  intro τ rely inv _
  have here := h τ τ rely inv (P.rely_refl ws τ) inv
  refine ⟨fun _ => here.1, ?_⟩
  intro choice locked answer new world run _
  cases choice with
  | draws stamps =>
      change exec (.insertOutbox rows) (.draws stamps) τ.world (postgres.view τ.store ws) locked =
        some (answer, new, world) at run
      simp only [exec] at run
      split at run
      · rename_i shape
        split at run
        · rename_i fresh
          cases run
          have le := Clock.le_flush τ.world.clock (stamps.map Prod.snd)
          have kept : P.Guarantees i ws τ (withClock τ _) := hosts.keeps inv le
          refine ⟨kept, (h τ (withClock τ _) rely inv (hosts.passes le) kept.inv).2 stamps shape.1
            ?_ rfl rfl fresh.1 ?_⟩
          · simpa using shape.2
          · intro p hp
            simpa using List.all_eq_true.mp fresh.2 p hp
        · cases run
          exact ⟨.refl inv, by simpa using here.1 _⟩
      · cases run
  | _ => cases run

theorem exec_selectPending {limit : Nat} {choice : Choice} {world world' : World} {view : Store}
    {locked : Write → Bool} {answer : Except Exn (List OutboxEvent)} {new : List Write}
    (run : exec (.selectPending limit) choice world view locked = some (answer, new, world')) :
    ∃ rows, answer = .ok rows ∧ new = rows.map (fun o => .lockOutbox o.id) ∧ world' = world ∧
      Selects OutboxEvent.id (fun a b => a.createdAt ≤ b.createdAt) limit
        (view.unlockedPending locked) rows := by
  cases choice with
  | rows ids =>
      simp only [exec] at run
      split at run
      · rename_i picked
        cases run
        have selected := selects_sound picked
        simp only [decide_eq_true_eq] at selected
        refine ⟨_, rfl, ?_, rfl, selected⟩
        have keys := map_rowsOf (selects_known picked)
        conv_lhs => rw [← keys, List.map_map]
        rfl
      · cases run
  | _ => cases run

theorem wp_selectPending (hosts : Hosts P) {limit : Nat}
    {Q : Post Exn Store Write World ι (List OutboxEvent)}
    (h : ∀ τ, P.rely ws σ τ → P.inv τ → (∀ e, Q (.error e) τ ws) ∧
      ∀ locked rows, Selects OutboxEvent.id (fun a b => a.createdAt ≤ b.createdAt) limit
        ((postgres.view τ.store ws).unlockedPending locked) rows →
          Q (.ok rows) τ (ws ++ rows.map (fun o => .lockOutbox o.id))) :
    wp P i (Db.selectPending limit) Q σ ws := by
  refine wp_exec hosts (fun view answer new => ∃ locked rows, answer = .ok rows ∧
    new = rows.map (fun o => .lockOutbox o.id) ∧
      Selects OutboxEvent.id (fun a b => a.createdAt ≤ b.createdAt) limit
        (view.unlockedPending locked) rows) ?_ ?_
  · intro choice world view locked answer new world' run
    obtain ⟨rows, rfl, rfl, rfl, selected⟩ := exec_selectPending run
    exact ⟨⟨locked, rows, rfl, rfl, selected⟩, _, Clock.Le.refl _, rfl⟩
  · intro τ rely inv
    obtain ⟨failing, found⟩ := h τ rely inv
    refine ⟨fun _ => failing, ?_⟩
    rintro answer new ⟨locked, rows, rfl, rfl, selected⟩
    exact found locked rows selected

theorem wp_updateOutbox (hosts : Hosts P) {id : Uuid} {patch : OutboxPatch}
    {Q : Post Exn Store Write World ι Unit}
    (h : ∀ τ, P.rely ws σ τ → P.inv τ → Q (.ok ()) τ (ws ++ [.patchOutbox id patch])) :
    wp P i (Db.updateOutbox id patch) Q σ ws := by
  refine wp_exec hosts (fun _ answer new => answer = .ok () ∧ new = [.patchOutbox id patch]) ?_ ?_
  · intro choice world view locked answer new world' run
    cases choice with
    | none =>
        cases run
        exact ⟨⟨rfl, rfl⟩, _, Clock.Le.refl _, rfl⟩
    | _ => cases run
  · intro τ rely inv
    refine ⟨fun impossible => (nomatch impossible), ?_⟩
    rintro answer new ⟨rfl, rfl⟩
    exact h τ rely inv

theorem wp_qdrantClient (hosts : Hosts P) {Q : Post Exn Store Write World ι Bool}
    (h : ∀ τ, P.rely ws σ τ → P.inv τ → ∀ up, Q (.ok up) τ ws) :
    wp P i Db.qdrantClient Q σ ws := by
  refine wp_exec hosts (fun _ answer new => (∃ up, answer = .ok up) ∧ new = []) ?_ ?_
  · intro choice world view locked answer new world' run
    cases choice with
    | flag up =>
        cases run
        exact ⟨⟨⟨up, rfl⟩, rfl⟩, _, Clock.Le.refl _, rfl⟩
    | _ => cases run
  · intro τ rely inv
    refine ⟨fun impossible => (nomatch impossible), ?_⟩
    rintro answer new ⟨⟨up, rfl⟩, rfl⟩
    simpa using h τ rely inv up

/-- A write to the vector index takes effect at once. -/
theorem wp_qdrantUpsert {eventId : Uuid} {point : IndexPoint}
    {Q : Post Exn Store Write World ι Unit}
    (h : ∀ τ, P.rely ws σ τ → P.inv τ → P.admits (.qdrantUpsert eventId point) τ ws →
      (∀ e, Q (.error e) τ ws) ∧ P.Guarantees i ws τ (withPoint τ eventId point) ∧
        Q (.ok ()) (withPoint τ eventId point) ws) :
    wp P i (Db.qdrantUpsert eventId point) Q σ ws := by
  rw [Db.qdrantUpsert, wp_issue]
  intro τ rely inv admitted
  obtain ⟨failing, guarantee, written⟩ := h τ rely inv admitted
  refine ⟨fun _ => failing, ?_⟩
  intro choice locked answer new world run _
  cases choice with
  | none =>
      cases run
      rw [List.append_nil]
      exact ⟨guarantee, written⟩
  | _ => cases run

theorem wp_flush (hosts : Hosts P) {Q : Post Exn Store Write World ι Unit}
    (h : ∀ τ, P.rely ws σ τ → P.inv τ → (∀ e, Q (.error e) τ ws) ∧ Q (.ok ()) τ ws) :
    wp P i Db.flush Q σ ws := by
  refine wp_exec hosts (fun _ answer new => answer = .ok () ∧ new = []) ?_ ?_
  · intro choice world view locked answer new world' run
    cases choice with
    | none =>
        cases run
        exact ⟨⟨rfl, rfl⟩, _, Clock.Le.refl _, rfl⟩
    | _ => cases run
  · intro τ rely inv
    obtain ⟨failing, flushed⟩ := h τ rely inv
    refine ⟨fun _ => failing, ?_⟩
    rintro answer new ⟨rfl, rfl⟩
    simpa using flushed

theorem wp_selectActive (hosts : Hosts P) {source operation : String}
    {Q : Post Exn Store Write World ι (Option FailedEvent)}
    (h : ∀ τ, P.rely ws σ τ → P.inv τ → (∀ e, Q (.error e) τ ws) ∧
      ∀ rows, Selects FailedEvent.id (fun a b => b.createdAt ≤ a.createdAt) 1
        ((postgres.view τ.store ws).activeEntries source operation) rows →
          Q (.ok rows.head?) τ ws) :
    wp P i (Db.selectActive source operation) Q σ ws := by
  refine wp_exec hosts (fun view answer new => ∃ rows, answer = .ok rows.head? ∧ new = [] ∧
    Selects FailedEvent.id (fun a b => b.createdAt ≤ a.createdAt) 1
      (view.activeEntries source operation) rows) ?_ ?_
  · intro choice world view locked answer new world' run
    cases choice with
    | rows ids =>
        simp only [exec] at run
        split at run
        · rename_i picked
          cases run
          have selected := selects_sound picked
          simp only [decide_eq_true_eq] at selected
          exact ⟨⟨_, rfl, rfl, selected⟩, _, Clock.Le.refl _, rfl⟩
        · cases run
    | _ => cases run
  · intro τ rely inv
    obtain ⟨failing, found⟩ := h τ rely inv
    refine ⟨fun _ => failing, ?_⟩
    rintro answer new ⟨rows, rfl, rfl, selected⟩
    simpa using found rows selected

theorem wp_selectDue (hosts : Hosts P) {maxAttempts : Nat} {now : Time} {limit : Nat}
    {Q : Post Exn Store Write World ι (List FailedEvent)}
    (h : ∀ τ, P.rely ws σ τ → P.inv τ → (∀ e, Q (.error e) τ ws) ∧
      ∀ locked rows, Selects FailedEvent.id (fun a b => a.dueBefore b = true) limit
        ((postgres.view τ.store ws).dueEntries maxAttempts now locked) rows →
          Q (.ok rows) τ (ws ++ rows.map (fun f => .lockFailed f.id))) :
    wp P i (Db.selectDue maxAttempts now limit) Q σ ws := by
  refine wp_exec hosts (fun view answer new => ∃ locked rows, answer = .ok rows ∧
    new = rows.map (fun f => .lockFailed f.id) ∧
      Selects FailedEvent.id (fun a b => a.dueBefore b = true) limit
        (view.dueEntries maxAttempts now locked) rows) ?_ ?_
  · intro choice world view locked answer new world' run
    cases choice with
    | rows ids =>
        simp only [exec] at run
        split at run
        · rename_i picked
          cases run
          refine ⟨⟨locked, _, rfl, ?_, selects_sound picked⟩, _, Clock.Le.refl _, rfl⟩
          have keys := map_rowsOf (selects_known picked)
          conv_lhs => rw [← keys, List.map_map]
          rfl
        · cases run
    | _ => cases run
  · intro τ rely inv
    obtain ⟨failing, found⟩ := h τ rely inv
    refine ⟨fun _ => failing, ?_⟩
    rintro answer new ⟨locked, rows, rfl, rfl, selected⟩
    exact found locked rows selected

theorem wp_selectFailed (hosts : Hosts P) {id : Uuid}
    {Q : Post Exn Store Write World ι (Option FailedEvent)}
    (h : ∀ τ, P.rely ws σ τ → P.inv τ → (∀ e, Q (.error e) τ ws) ∧
      Q (.ok ((postgres.view τ.store ws).failedEvents.find id)) τ ws) :
    wp P i (Db.selectFailed id) Q σ ws :=
  wp_query hosts (fun choice _ _ _ => by cases choice <;> rfl) h

theorem wp_insertFailed (hosts : Hosts P) {row : Draft FailedEvent}
    {Q : Post Exn Store Write World ι Uuid}
    (h : ∀ τ, P.rely ws σ τ → P.inv τ → (∀ e, Q (.error e) τ ws) ∧
      ∀ id t, (postgres.view τ.store ws).failedEvents.find (row id t).id = none →
        Q (.ok id) τ (ws ++ [.addFailed (row id t)])) :
    wp P i (Db.insertFailed row) Q σ ws := by
  refine wp_insert hosts (fun choice _ _ _ => by cases choice <;> rfl) (fun τ rely inv => ?_)
  obtain ⟨failing, inserted⟩ := h τ rely inv
  exact ⟨failing, fun id t free => inserted id t (by simpa using free)⟩

theorem wp_updateFailed (hosts : Hosts P) {id : Uuid} {patch : FailedPatch}
    {Q : Post Exn Store Write World ι Unit}
    (h : ∀ τ, P.rely ws σ τ → P.inv τ → Q (.ok ()) τ (ws ++ [.patchFailed id patch])) :
    wp P i (Db.updateFailed id patch) Q σ ws := by
  refine wp_exec hosts (fun _ answer new => answer = .ok () ∧ new = [.patchFailed id patch]) ?_ ?_
  · intro choice world view locked answer new world' run
    cases choice with
    | none =>
        cases run
        exact ⟨⟨rfl, rfl⟩, _, Clock.Le.refl _, rfl⟩
    | _ => cases run
  · intro τ rely inv
    refine ⟨fun impossible => (nomatch impossible), ?_⟩
    rintro answer new ⟨rfl, rfl⟩
    exact h τ rely inv

/-- The broker has a task as soon as it is sent. -/
theorem wp_sendTask {name : String} {Q : Post Exn Store Write World ι String}
    (h : ∀ τ, P.rely ws σ τ → P.inv τ → P.admits (.sendTask name) τ ws →
      (∀ e, Q (.error e) τ ws) ∧ P.Guarantees i ws τ (withTask τ name) ∧
        ∀ taskId, Q (.ok taskId) (withTask τ name) ws) :
    wp P i (Db.sendTask name) Q σ ws := by
  rw [Db.sendTask, wp_issue]
  intro τ rely inv admitted
  obtain ⟨failing, guarantee, sent⟩ := h τ rely inv admitted
  refine ⟨fun _ => failing, ?_⟩
  intro choice locked answer new world run _
  cases choice with
  | text taskId =>
      cases run
      rw [List.append_nil]
      exact ⟨guarantee, sent taskId⟩
  | _ => cases run

theorem wp_generateCorrelationId (hosts : Hosts P) {Q : Post Exn Store Write World ι String}
    (h : ∀ τ, P.rely ws σ τ → P.inv τ → ∀ cid, Q (.ok cid) τ ws) :
    wp P i Db.generateCorrelationId Q σ ws := by
  refine wp_exec hosts (fun _ answer new => (∃ cid, answer = .ok cid) ∧ new = []) ?_ ?_
  · intro choice world view locked answer new world' run
    cases choice with
    | text cid =>
        cases run
        exact ⟨⟨⟨cid, rfl⟩, rfl⟩, _, Clock.Le.refl _, rfl⟩
    | _ => cases run
  · intro τ rely inv
    refine ⟨fun impossible => (nomatch impossible), ?_⟩
    rintro answer new ⟨⟨cid, rfl⟩, rfl⟩
    simpa using h τ rely inv cid

theorem wp_insertSyncLog (hosts : Hosts P) {row : Draft SyncLog}
    {Q : Post Exn Store Write World ι Uuid}
    (h : ∀ τ, P.rely ws σ τ → P.inv τ → (∀ e, Q (.error e) τ ws) ∧
      ∀ id t, (postgres.view τ.store ws).syncLogs.find (row id t).id = none →
        Q (.ok id) τ (ws ++ [.addSyncLog (row id t)])) :
    wp P i (Db.insertSyncLog row) Q σ ws := by
  refine wp_insert hosts (fun choice _ _ _ => by cases choice <;> rfl) (fun τ rely inv => ?_)
  obtain ⟨failing, inserted⟩ := h τ rely inv
  exact ⟨failing, fun id t free => inserted id t (by simpa using free)⟩

theorem wp_updateSyncLog (hosts : Hosts P) {id : Uuid} {status : RunStatus}
    {errorText : Option String} {Q : Post Exn Store Write World ι Unit}
    (h : ∀ τ, P.rely ws σ τ → P.inv τ → (∀ e, Q (.error e) τ ws) ∧
      Q (.ok ()) τ (ws ++ if ((postgres.view τ.store ws).syncLogs.find id).isSome then
        [.setSyncLog id status errorText] else [])) :
    wp P i (Db.updateSyncLog id status errorText) Q σ ws := by
  refine wp_exec hosts (fun view answer new => answer = .ok () ∧
    new = if (view.syncLogs.find id).isSome then [.setSyncLog id status errorText] else []) ?_ ?_
  · intro choice world view locked answer new world' run
    cases choice with
    | none =>
        cases run
        exact ⟨⟨rfl, rfl⟩, _, Clock.Le.refl _, rfl⟩
    | _ => cases run
  · intro τ rely inv
    obtain ⟨failing, updated⟩ := h τ rely inv
    refine ⟨fun _ => failing, ?_⟩
    rintro answer new ⟨rfl, rfl⟩
    exact updated

theorem wp_selectDelivery (hosts : Hosts P) {key : String × String}
    {Q : Post Exn Store Write World ι (Option WebhookDelivery)}
    (h : ∀ τ, P.rely ws σ τ → P.inv τ → (∀ e, Q (.error e) τ ws) ∧
      Q (.ok ((postgres.view τ.store ws).webhookDeliveries.find key)) τ ws) :
    wp P i (Db.selectDelivery key) Q σ ws :=
  wp_query hosts (fun choice _ _ _ => by cases choice <;> rfl) h

theorem wp_insertDelivery (hosts : Hosts P) {row : Draft WebhookDelivery}
    {Q : Post Exn Store Write World ι Uuid}
    (h : ∀ τ, P.rely ws σ τ → P.inv τ → (∀ e, Q (.error e) τ ws) ∧
      ∀ id t, (postgres.view τ.store ws).webhookDeliveries.find (row id t).key = none →
        Q (.ok id) τ (ws ++ [.addDelivery (row id t)])) :
    wp P i (Db.insertDelivery row) Q σ ws := by
  refine wp_insert hosts (fun choice _ _ _ => by cases choice <;> rfl) (fun τ rely inv => ?_)
  obtain ⟨failing, inserted⟩ := h τ rely inv
  exact ⟨failing, fun id t free => inserted id t (by simpa using free)⟩

theorem wp_updateDelivery (hosts : Hosts P) {key : String × String} {status : DeliveryStatus}
    {errorText : Option String} {Q : Post Exn Store Write World ι Unit}
    (h : ∀ τ, P.rely ws σ τ → P.inv τ → (∀ e, Q (.error e) τ ws) ∧
      Q (.ok ()) τ (ws ++ if ((postgres.view τ.store ws).webhookDeliveries.find key).isSome then
        [.setDelivery key status errorText] else [])) :
    wp P i (Db.updateDelivery key status errorText) Q σ ws := by
  refine wp_exec hosts (fun view answer new => answer = .ok () ∧
    new = if (view.webhookDeliveries.find key).isSome then [.setDelivery key status errorText]
      else []) ?_ ?_
  · intro choice world view locked answer new world' run
    cases choice with
    | none =>
        cases run
        exact ⟨⟨rfl, rfl⟩, _, Clock.Le.refl _, rfl⟩
    | _ => cases run
  · intro τ rely inv
    obtain ⟨failing, updated⟩ := h τ rely inv
    refine ⟨fun _ => failing, ?_⟩
    rintro answer new ⟨rfl, rfl⟩
    exact updated

theorem wp_selectWatermark (hosts : Hosts P) {source : String} {eventType : Option String}
    {Q : Post Exn Store Write World ι (Option Time)}
    (h : ∀ τ, P.rely ws σ τ → P.inv τ → (∀ e, Q (.error e) τ ws) ∧
      Q (.ok ((postgres.view τ.store ws).watermark source eventType)) τ ws) :
    wp P i (Db.selectWatermark source eventType) Q σ ws :=
  wp_query hosts (fun choice _ _ _ => by cases choice <;> rfl) h

theorem wp_selectRawPayload (hosts : Hosts P) {source contentHash : String}
    {Q : Post Exn Store Write World ι (Option Uuid)}
    (h : ∀ τ, P.rely ws σ τ → P.inv τ → (∀ e, Q (.error e) τ ws) ∧
      Q (.ok (((postgres.view τ.store ws).rawPayloads.rows.find? (fun row =>
        decide (row.source = source) && decide (row.contentHash = some contentHash))).map
          RawPayload.id)) τ ws) :
    wp P i (Db.selectRawPayload source contentHash) Q σ ws :=
  wp_query hosts (fun choice _ _ _ => by cases choice <;> rfl) h

theorem wp_insertRawPayload (hosts : Hosts P) {row : Draft RawPayload}
    {Q : Post Exn Store Write World ι Uuid}
    (h : ∀ τ, P.rely ws σ τ → P.inv τ → (∀ e, Q (.error e) τ ws) ∧
      ∀ id t, (postgres.view τ.store ws).rawPayloads.find (row id t).id = none →
        Q (.ok id) τ (ws ++ [.addRawPayload (row id t)])) :
    wp P i (Db.insertRawPayload row) Q σ ws := by
  refine wp_insert hosts (fun choice _ _ _ => by cases choice <;> rfl) (fun τ rely inv => ?_)
  obtain ⟨failing, inserted⟩ := h τ rely inv
  exact ⟨failing, fun id t free => inserted id t (by simpa using free)⟩

theorem wp_selectCursor (hosts : Hosts P) {key : String × String}
    {Q : Post Exn Store Write World ι (Option SyncState)}
    (h : ∀ τ, P.rely ws σ τ → P.inv τ → (∀ e, Q (.error e) τ ws) ∧
      Q (.ok ((postgres.view τ.store ws).syncState.find key)) τ ws) :
    wp P i (Db.selectCursor key) Q σ ws :=
  wp_query hosts (fun choice _ _ _ => by cases choice <;> rfl) h

theorem wp_insertCursor (hosts : Hosts P) {row : Draft SyncState}
    {Q : Post Exn Store Write World ι Uuid}
    (h : ∀ τ, P.rely ws σ τ → P.inv τ → (∀ e, Q (.error e) τ ws) ∧
      ∀ id t, (postgres.view τ.store ws).syncState.find (row id t).key = none →
        Q (.ok id) τ (ws ++ [.addSyncState (row id t)])) :
    wp P i (Db.insertCursor row) Q σ ws := by
  refine wp_insert hosts (fun choice _ _ _ => by cases choice <;> rfl) (fun τ rely inv => ?_)
  obtain ⟨failing, inserted⟩ := h τ rely inv
  exact ⟨failing, fun id t free => inserted id t (by simpa using free)⟩

theorem wp_updateCursor (hosts : Hosts P) {key : String × String} {cursor : Option String}
    {Q : Post Exn Store Write World ι Unit}
    (h : ∀ τ, P.rely ws σ τ → P.inv τ → (∀ e, Q (.error e) τ ws) ∧
      ∀ t, Q (.ok ()) τ (ws ++ [.setSyncState key cursor t])) :
    wp P i (Db.updateCursor key cursor) Q σ ws := by
  refine wp_exec hosts (fun _ answer new => answer = .ok () ∧
    ∃ t, new = [.setSyncState key cursor t]) ?_ ?_
  · intro choice world view locked answer new world' run
    cases choice with
    | time t =>
        simp only [exec] at run
        split at run
        · rename_i shown
          cases run
          exact ⟨⟨rfl, t, rfl⟩, _, Clock.le_read shown, rfl⟩
        · cases run
    | _ => cases run
  · intro τ rely inv
    obtain ⟨failing, updated⟩ := h τ rely inv
    refine ⟨fun _ => failing, ?_⟩
    rintro answer new ⟨rfl, t, rfl⟩
    exact updated t

/-- The statement calls an external service. Where the service determines the answer, the
choice does not matter. -/
def Stmt.Calls (s : Stmt) (offer : Choice → Option (Answer s)) : Prop :=
  ∀ choice world view locked, exec s choice world view locked =
    (offer choice).map (fun a => (.ok ((world.remote s).getD a), [], world))

theorem wp_call {s : Stmt} {offer : Choice → Option (Answer s)} (calls : s.Calls offer)
    {Q : Post Exn Store Write World ι (Answer s)}
    (h : ∀ τ, P.rely ws σ τ → P.inv τ → (∀ e, Q (.error e) τ ws) ∧
      ∀ answer, (∀ a, τ.world.remote s = some a → answer = a) → Q (.ok answer) τ ws) :
    wp P i (Prog.issue s) Q σ ws := by
  rw [wp_issue]
  intro τ rely inv _
  obtain ⟨failing, answered⟩ := h τ rely inv
  refine ⟨fun _ => failing, ?_⟩
  intro choice locked answer new world run _
  change exec s choice τ.world (postgres.view τ.store ws) locked = some (answer, new, world) at run
  rw [calls] at run
  obtain ⟨a, _, outcome⟩ := Option.map_eq_some_iff.mp run
  cases outcome
  refine ⟨.refl inv, ?_⟩
  rw [List.append_nil]
  refine answered _ (fun known same => ?_)
  rw [same, Option.getD_some]

/-- The choice answers a fetch. -/
def Choice.asItems : Choice → Option (List Json)
  | .items xs => some xs
  | _ => Option.none

theorem wp_fetch {source : String} {since : Option Time}
    {Q : Post Exn Store Write World ι (List Json)}
    (h : ∀ τ, P.rely ws σ τ → P.inv τ → (∀ e, Q (.error e) τ ws) ∧
      ∀ items, (∀ xs, τ.world.remote (.fetch source since) = some xs → items = xs) →
        Q (.ok items) τ ws) :
    wp P i (Db.fetch source since) Q σ ws := by
  have calls : Stmt.Calls (.fetch source since) Choice.asItems :=
    fun choice _ _ _ => by cases choice <;> rfl
  exact wp_call calls h

/-- The choice answers a fetch of emails. -/
def Choice.asMails : Choice → Option (List RawMessage)
  | .mails xs => some xs
  | _ => Option.none

theorem wp_fetchMail {folder : String} {since : Option Datetime}
    {Q : Post Exn Store Write World ι (List RawMessage)}
    (h : ∀ τ, P.rely ws σ τ → P.inv τ → (∀ e, Q (.error e) τ ws) ∧
      ∀ items, (∀ xs, τ.world.remote (.fetchMail folder since) = some xs → items = xs) →
        Q (.ok items) τ ws) :
    wp P i (Db.fetchMail folder since) Q σ ws := by
  have calls : Stmt.Calls (.fetchMail folder since) Choice.asMails :=
    fun choice _ _ _ => by cases choice <;> rfl
  exact wp_call calls h

/-- The choice answers a fetch of commits. -/
def Choice.asCommits : Choice → Option (List GitHubCommitData)
  | .commits xs => some xs
  | _ => Option.none

theorem wp_getCommits {owner repo : String} {since : Option String}
    {Q : Post Exn Store Write World ι (List GitHubCommitData)}
    (h : ∀ τ, P.rely ws σ τ → P.inv τ → (∀ e, Q (.error e) τ ws) ∧
      ∀ items, (∀ xs, τ.world.remote (.getCommits owner repo since) = some xs → items = xs) →
        Q (.ok items) τ ws) :
    wp P i (Db.getCommits owner repo since) Q σ ws := by
  have calls : Stmt.Calls (.getCommits owner repo since) Choice.asCommits :=
    fun choice _ _ _ => by cases choice <;> rfl
  exact wp_call calls h

/-- The choice answers a fetch of pull requests. -/
def Choice.asPullRequests : Choice → Option (List GitHubPRData)
  | .pullRequests xs => some xs
  | _ => Option.none

theorem wp_getPullRequests {owner repo : String} {since : Option String}
    {Q : Post Exn Store Write World ι (List GitHubPRData)}
    (h : ∀ τ, P.rely ws σ τ → P.inv τ → (∀ e, Q (.error e) τ ws) ∧
      ∀ items, (∀ xs, τ.world.remote (.getPullRequests owner repo since) = some xs →
        items = xs) → Q (.ok items) τ ws) :
    wp P i (Db.getPullRequests owner repo since) Q σ ws := by
  have calls : Stmt.Calls (.getPullRequests owner repo since) Choice.asPullRequests :=
    fun choice _ _ _ => by cases choice <;> rfl
  exact wp_call calls h

theorem wp_getUpdates {offset : Option Int}
    {Q : Post Exn Store Write World ι (List Json)}
    (h : ∀ τ, P.rely ws σ τ → P.inv τ → (∀ e, Q (.error e) τ ws) ∧
      ∀ result, (∀ xs, τ.world.remote (.getUpdates offset) = some xs → result = xs) →
        Q (.ok result) τ ws) :
    wp P i (Db.getUpdates offset) Q σ ws := by
  have calls : Stmt.Calls (.getUpdates offset) Choice.asItems :=
    fun choice _ _ _ => by cases choice <;> rfl
  exact wp_call calls h

/-- The object store has an object as soon as it is put there. -/
theorem wp_putObject {key : String} {body : Json} {Q : Post Exn Store Write World ι Unit}
    (h : ∀ τ, P.rely ws σ τ → P.inv τ → (∀ e, Q (.error e) τ ws) ∧
      P.Guarantees i ws τ (withObject τ key body) ∧ Q (.ok ()) (withObject τ key body) ws) :
    wp P i (Db.putObject key body) Q σ ws := by
  rw [Db.putObject, wp_issue]
  intro τ rely inv _
  obtain ⟨failing, guarantee, put⟩ := h τ rely inv
  refine ⟨fun _ => failing, ?_⟩
  intro choice locked answer new world run _
  cases choice with
  | none =>
      cases run
      rw [List.append_nil]
      exact ⟨guarantee, put⟩
  | _ => cases run

end Rules

end OmniSync
