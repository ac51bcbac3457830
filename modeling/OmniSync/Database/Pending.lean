import OmniSync.Database.Footprint

/-!
# Pending writes

`Pending s ws` says that the writes `ws` of a session fit the committed store `s`:
an upserted event has the identity of the row that it replaces, if there is one,
and inserted rows have keys that are still free. The locks of the pending writes
keep this true under interference, and the checks of the insert statements
establish it for every further write.
-/

namespace OmniSync

open Txn

/-- The primary key of `normalized_events`. -/
def Store.EventIdsUnique (s : Store) : Prop :=
  ∀ x ∈ s.normalizedEvents, ∀ y ∈ s.normalizedEvents, x.id = y.id → x.key = y.key

/-- The event that a write upserts. -/
def Write.event : Write → Option NormalizedEvent
  | .putEvent row => some row
  | _ => none

/-- The key of an inserted history row. -/
def Write.versionKey : Write → Option (Uuid × Nat)
  | .addVersion v => some v.key
  | _ => none

/-- The inserted outbox row. -/
def Write.outboxRow : Write → Option OutboxEvent
  | .addOutbox o => some o
  | _ => none

/-- The id of an inserted outbox row. -/
def Write.outboxId : Write → Option Uuid
  | .addOutbox o => some o.id
  | _ => none

/-- The write leaves the events, their history and the outbox alone. -/
def Write.Aside (w : Write) : Prop :=
  w.table ≠ .normalizedEvents ∧ w.table ≠ .eventVersions ∧ w.table ≠ .outboxEvents

theorem view_normalizedEvents_of_aside {s : Store} {ws : List Write} (h : ∀ w ∈ ws, w.Aside) :
    (postgres.view s ws).normalizedEvents = s.normalizedEvents := by
  refine view_look Store.normalizedEvents (fun s w hw => ?_)
  have aside := (h w hw).1
  cases w with
  | putEvent => exact (aside rfl).elim
  | _ => rfl

theorem view_eventVersions_of_aside {s : Store} {ws : List Write} (h : ∀ w ∈ ws, w.Aside) :
    (postgres.view s ws).eventVersions = s.eventVersions := by
  refine view_look Store.eventVersions (fun s w hw => ?_)
  have aside := (h w hw).2.1
  cases w with
  | addVersion => exact (aside rfl).elim
  | _ => rfl

structure Pending (s : Store) (ws : List Write) : Prop where
  events : ∀ row, .putEvent row ∈ ws → ∀ x ∈ s.normalizedEvents, x.key = row.key ↔ x.id = row.id
  identity : ∀ row row', .putEvent row ∈ ws → .putEvent row' ∈ ws →
    (row.key = row'.key ↔ row.id = row'.id)
  versions : ∀ v, .addVersion v ∈ ws → s.eventVersions.find v.key = none
  versionsOnce : (ws.filterMap Write.versionKey).Nodup
  outbox : ∀ o, .addOutbox o ∈ ws → s.outboxEvents.find o.id = none
  outboxOnce : (ws.filterMap Write.outboxId).Nodup

section Views

variable {s : Store} {ws : List Write}

/-- A row of the view is pending or is committed and not overwritten. -/
theorem mem_view_normalizedEvents {x : NormalizedEvent}
    (hx : x ∈ (postgres.view s ws).normalizedEvents) :
    .putEvent x ∈ ws ∨
      (x ∈ s.normalizedEvents ∧ ∀ row, .putEvent row ∈ ws → row.key ≠ x.key) := by
  induction ws using List.reverseRecOn with
  | nil => exact .inr ⟨hx, fun row impossible => (nomatch impossible)⟩
  | append_singleton ws w ih =>
      rw [view_concat] at hx
      have keep : x ∈ (postgres.view s ws).normalizedEvents →
          (∀ row, w = .putEvent row → row.key ≠ x.key) →
            .putEvent x ∈ ws ++ [w] ∨ (x ∈ s.normalizedEvents ∧
              ∀ row, .putEvent row ∈ ws ++ [w] → row.key ≠ x.key) := by
        intro old other
        refine (ih old).imp (fun own => List.mem_append_left _ own) ?_
        rintro ⟨committed, free⟩
        refine ⟨committed, fun row hr => ?_⟩
        rcases List.mem_append.mp hr with hr | hr
        · exact free row hr
        · exact other row (List.mem_singleton.mp hr).symm
      cases w with
      | putEvent row =>
          rcases Table.mem_put.mp hx with rfl | ⟨old, different⟩
          · exact .inl (by simp)
          · refine keep old ?_
            rintro row' ⟨⟩
            exact different.symm
      | _ => exact keep hx (fun row impossible => (nomatch impossible))

/-- What is upserted is in the view, under the same key. -/
theorem exists_mem_view_of_putEvent {row : NormalizedEvent} (h : .putEvent row ∈ ws) :
    ∃ x ∈ (postgres.view s ws).normalizedEvents, x.key = row.key ∧ .putEvent x ∈ ws := by
  induction ws using List.reverseRecOn with
  | nil => cases h
  | append_singleton ws w ih =>
      rw [view_concat]
      rcases List.mem_append.mp h with old | new
      · obtain ⟨x, hx, same, own⟩ := ih old
        have later : .putEvent x ∈ ws ++ [w] := List.mem_append_left _ own
        cases w with
        | putEvent row' =>
            by_cases rewritten : x.key = row'.key
            · exact ⟨row', Table.mem_put_self, rewritten.symm.trans same, by simp⟩
            · exact ⟨x, Table.mem_put_of_ne hx rewritten, same, later⟩
        | _ => exact ⟨x, hx, same, later⟩
      · obtain rfl := List.mem_singleton.mp new
        exact ⟨row, Table.mem_put_self, rfl, by simp⟩

theorem find_view_normalizedEvents_of_free {k : String × String}
    (free : ∀ row, .putEvent row ∈ ws → row.key ≠ k) :
    (postgres.view s ws).normalizedEvents.find k = s.normalizedEvents.find k := by
  refine view_unchanged (fun s => s.normalizedEvents.find k)
    Store.put_normalizedEvents_of_not_lock ?_
  intro w hw held
  cases w <;> simp [Write.locks] at held
  rename_i row
  exact free row hw held.symm

theorem put_find_congr {s s' : Store} {k : String × String}
    (h : s.normalizedEvents.find k = s'.normalizedEvents.find k) (w : Write) :
    (s.put w).normalizedEvents.find k = (s'.put w).normalizedEvents.find k := by
  cases w with
  | putEvent row =>
      change (s.normalizedEvents.put row).find k = (s'.normalizedEvents.put row).find k
      by_cases same : k = row.key
      · subst same
        rw [Table.find_put_self, Table.find_put_self]
      · rw [Table.find_put_of_ne same, Table.find_put_of_ne same, h]
  | _ => exact h

/-- What a session sees under a key depends on the committed row with that key only. -/
theorem find_view_congr {s s' : Store} {k : String × String}
    (h : s.normalizedEvents.find k = s'.normalizedEvents.find k) (ws : List Write) :
    (postgres.view s ws).normalizedEvents.find k =
      (postgres.view s' ws).normalizedEvents.find k := by
  induction ws generalizing s s' with
  | nil => exact h
  | cons w ws ih => exact ih (put_find_congr h w)

/-- The last write under a key is what the session sees. -/
theorem find_view_of_putEvent {first rest : List Write} {row : NormalizedEvent}
    (last : ∀ row', .putEvent row' ∈ rest → row'.key ≠ row.key) :
    (postgres.view s (first ++ .putEvent row :: rest)).normalizedEvents.find row.key =
      some row := by
  rw [postgres.view_append, view_cons, find_view_normalizedEvents_of_free last]
  exact Table.find_put_self

/-- A committed event is in the view, possibly overwritten. -/
theorem exists_mem_view_of_mem (ws : List Write) {x : NormalizedEvent}
    (hx : x ∈ s.normalizedEvents) :
    ∃ y ∈ (postgres.view s ws).normalizedEvents, y.key = x.key := by
  by_cases written : ∃ row, .putEvent row ∈ ws ∧ row.key = x.key
  · obtain ⟨row, hr, same⟩ := written
    obtain ⟨y, hy, key, _⟩ := exists_mem_view_of_putEvent (s := s) hr
    exact ⟨y, hy, key.trans same⟩
  · have free : ∀ row, .putEvent row ∈ ws → row.key ≠ x.key :=
      fun row hr same => written ⟨row, hr, same⟩
    have found := (find_view_normalizedEvents_of_free (s := s) free).trans
      (Table.find_eq_some_iff.mpr ⟨hx, rfl⟩)
    exact ⟨x, (Table.find_eq_some_iff.mp found).1, rfl⟩

theorem find_view_eventVersions_of_addVersion {v : EventVersion} (h : .addVersion v ∈ ws) :
    (postgres.view s ws).eventVersions.find v.key ≠ none := by
  obtain ⟨first, rest, rfl⟩ := List.append_of_mem h
  intro absent
  rw [postgres.view_append, view_cons] at absent
  exact Table.find_add_ne_none (find_eventVersions_of_view absent)

theorem find_view_outboxEvents_of_addOutbox {o : OutboxEvent} (h : .addOutbox o ∈ ws) :
    (postgres.view s ws).outboxEvents.find o.id ≠ none := by
  obtain ⟨first, rest, rfl⟩ := List.append_of_mem h
  intro absent
  rw [postgres.view_append, view_cons] at absent
  exact Table.find_add_ne_none (find_outboxEvents_of_view absent)

/-- A history row of the view is committed or pending. -/
theorem mem_view_eventVersions_iff {v : EventVersion}
    (hv : v ∈ (postgres.view s ws).eventVersions) :
    v ∈ s.eventVersions ∨ .addVersion v ∈ ws := by
  induction ws using List.reverseRecOn with
  | nil => exact .inl hv
  | append_singleton ws w ih =>
      rw [view_concat] at hv
      have keep : v ∈ (postgres.view s ws).eventVersions →
          v ∈ s.eventVersions ∨ .addVersion v ∈ ws ++ [w] :=
        fun old => (ih old).imp id (fun own => List.mem_append_left _ own)
      cases w with
      | addVersion v' =>
          rcases Table.mem_of_mem_add hv with old | rfl
          · exact keep old
          · exact .inr (by simp)
      | _ => exact keep hv

end Views

theorem filterMap_concat_none {α β : Type} {f : α → Option β} {xs : List α} {x : α}
    (h : f x = none) : (xs ++ [x]).filterMap f = xs.filterMap f := by
  rw [List.filterMap_append, List.filterMap_cons_none h, List.filterMap_nil, List.append_nil]

namespace Pending

variable {ι : Type} {P : Protocol postgres ι} {s : Store} {ws vs : List Write} {σ τ : State ι}

theorem nil (s : Store) : Pending s [] :=
  ⟨fun _ h => (nomatch h), fun _ _ h => (nomatch h), fun _ h => (nomatch h), List.nodup_nil,
    fun _ h => (nomatch h), List.nodup_nil⟩

/-- Writes that leave the events, their history and the outbox alone do not matter. -/
theorem append_aside (h : Pending s ws) (aside : ∀ w ∈ vs, w.Aside) : Pending s (ws ++ vs) := by
  have silent : ∀ {β : Type} (f : Write → Option β), (∀ w b, f w = some b →
      w.table = .eventVersions ∨ w.table = .outboxEvents) →
        (ws ++ vs).filterMap f = ws.filterMap f := by
    intro β f known
    rw [List.filterMap_append, List.append_right_eq_self]
    refine List.filterMap_eq_nil_iff.mpr (fun w hw => Option.eq_none_iff_forall_ne_some.mpr ?_)
    exact fun b found => (known w b found).elim (aside w hw).2.1 (aside w hw).2.2
  have own : ∀ {w : Write}, ¬ w.Aside → w ∈ ws ++ vs → w ∈ ws := fun known hw =>
    (List.mem_append.mp hw).resolve_right (fun here => known (aside _ here))
  refine ⟨fun row hr => h.events row (own (fun aside => aside.1 rfl) hr), fun row row' hr hr' => ?_,
    fun v hv => h.versions v (own (fun aside => aside.2.1 rfl) hv), ?_,
    fun o ho => h.outbox o (own (fun aside => aside.2.2 rfl) ho), ?_⟩
  · exact h.identity row row' (own (fun aside => aside.1 rfl) hr)
      (own (fun aside => aside.1 rfl) hr')
  · rw [silent Write.versionKey]
    · exact h.versionsOnce
    · intro w b found
      cases w <;> first | exact .inl rfl | cases found
  · rw [silent Write.outboxId]
    · exact h.outboxOnce
    · intro w b found
      cases w <;> first | exact .inr rfl | cases found

theorem of_aside (h : ∀ w ∈ ws, w.Aside) : Pending s ws := (nil s).append_aside h

/-- Raw payloads and watermarks do not matter. -/
theorem of_other (h : ∀ w ∈ ws, w.table = .rawPayloads ∨ w.table = .syncState) : Pending s ws := by
  refine of_aside (fun w hw => ?_)
  rcases h w hw with other | other
  · simp [Write.Aside, other]
  · simp [Write.Aside, other]

/-- The locks of pending writes protect them from interference. -/
theorem rely (h : Pending σ.store ws) (hosts : Hosts P) (interference : P.rely ws σ τ) :
    Pending τ.store ws where
  events row hr x hx := by
    have found := hosts.look_eq (fun s => s.normalizedEvents.find row.key)
      Store.put_normalizedEvents_of_not_lock interference hr (by simp [Write.locks])
    constructor
    · intro same
      have here : σ.store.normalizedEvents.find row.key = some x :=
        found.symm.trans (Table.find_eq_some_iff.mpr ⟨hx, same⟩)
      exact (h.events row hr x (Table.find_eq_some_iff.mp here).1).mp same
    · intro same
      exact (h.events row hr x (hosts.mem_of_mem interference hr hx same)).mpr same
  identity := h.identity
  versions v hv :=
    (hosts.look_eq (fun s => s.eventVersions.find v.key)
      Store.put_eventVersions_of_not_lock interference hv (by simp [Write.locks])).trans
      (h.versions v hv)
  versionsOnce := h.versionsOnce
  outbox o ho :=
    (hosts.look_eq (fun s => s.outboxEvents.find o.id)
      Store.put_outboxEvents_of_not_lock interference ho (by simp [Write.locks])).trans
      (h.outbox o ho)
  outboxOnce := h.outboxOnce

theorem addVersion (h : Pending s ws) {v : EventVersion}
    (absent : (postgres.view s ws).eventVersions.find v.key = none) :
    Pending s (ws ++ [.addVersion v]) where
  events row hr := h.events row (by simpa using hr)
  identity row row' hr hr' := h.identity row row' (by simpa using hr) (by simpa using hr')
  versions v' hv' := by
    rcases List.mem_append.mp hv' with old | new
    · exact h.versions v' old
    · cases List.mem_singleton.mp new
      exact find_eventVersions_of_view absent
  versionsOnce := by
    rw [List.filterMap_append]
    refine List.nodup_append.mpr ⟨h.versionsOnce, by simp [Write.versionKey], ?_⟩
    rintro k hk l hl rfl
    obtain ⟨w, hw, same⟩ := List.mem_filterMap.mp hk
    cases w with
    | addVersion v' =>
        simp only [Write.versionKey, Option.some.injEq, List.filterMap_cons, List.filterMap_nil,
          List.mem_singleton] at same hl
        exact find_view_eventVersions_of_addVersion (s := s) hw (same.trans hl ▸ absent)
    | _ => cases same
  outbox o ho := h.outbox o (by simpa using ho)
  outboxOnce := by
    rw [filterMap_concat_none (by rfl)]
    exact h.outboxOnce

/-- A committed event is in the view with its identity. -/
theorem exists_mem_view (h : Pending s ws) {x : NormalizedEvent} (hx : x ∈ s.normalizedEvents) :
    ∃ y ∈ (postgres.view s ws).normalizedEvents, y.key = x.key ∧ y.id = x.id := by
  obtain ⟨y, hy, same⟩ := exists_mem_view_of_mem ws hx
  refine ⟨y, hy, same, ?_⟩
  rcases mem_view_normalizedEvents hy with own | ⟨committed, _⟩
  · exact ((h.events y own x hx).mp same.symm).symm
  · rw [Table.eq_of_key_eq committed hx same]

/-- An upserted row has the identity of the row with its key. -/
theorem putEvent_of_identity (h : Pending s ws) {row : NormalizedEvent}
    (events : ∀ x ∈ s.normalizedEvents, x.key = row.key ↔ x.id = row.id)
    (identity : ∀ row', .putEvent row' ∈ ws → (row'.key = row.key ↔ row'.id = row.id)) :
    Pending s (ws ++ [.putEvent row]) where
  events row' hr' := by
    rcases List.mem_append.mp hr' with old | new
    · exact h.events row' old
    · cases List.mem_singleton.mp new
      exact events
  identity row₁ row₂ h₁ h₂ := by
    rcases List.mem_append.mp h₁ with old₁ | new₁ <;> rcases List.mem_append.mp h₂ with old₂ | new₂
    · exact h.identity row₁ row₂ old₁ old₂
    · cases List.mem_singleton.mp new₂
      exact identity row₁ old₁
    · cases List.mem_singleton.mp new₁
      exact ⟨fun same => ((identity row₂ old₂).mp same.symm).symm,
        fun same => ((identity row₂ old₂).mpr same.symm).symm⟩
    · cases List.mem_singleton.mp new₁
      cases List.mem_singleton.mp new₂
      exact ⟨fun _ => rfl, fun _ => rfl⟩
  versions v hv := h.versions v (by simpa using hv)
  versionsOnce := by
    rw [filterMap_concat_none (by rfl)]
    exact h.versionsOnce
  outbox o ho := h.outbox o (by simpa using ho)
  outboxOnce := by
    rw [filterMap_concat_none (by rfl)]
    exact h.outboxOnce

theorem putEvent (h : Pending s ws) (ids : s.EventIdsUnique) {row : NormalizedEvent}
    (unused : (postgres.view s ws).normalizedEvents.find row.key = none →
      ∀ other ∈ (postgres.view s ws).normalizedEvents, other.id ≠ row.id) :
    Pending s (ws ++ [.putEvent ((postgres.view s ws).excluded row)]) := by
  unfold Store.excluded
  cases found : (postgres.view s ws).normalizedEvents.find row.key with
  | none =>
      have absent := Table.find_eq_none_iff.mp found
      have fresh := unused found
      refine h.putEvent_of_identity (fun x hx => ?_) (fun row' hr' => ?_)
      · obtain ⟨y, hy, key, id⟩ := h.exists_mem_view hx
        exact ⟨fun same => (absent y hy (key.trans same)).elim,
          fun same => (fresh y hy (id.trans same)).elim⟩
      · obtain ⟨y, hy, key, own⟩ := exists_mem_view_of_putEvent (s := s) hr'
        exact ⟨fun same => (absent y hy (key.trans same)).elim,
          fun same => (fresh y hy (((h.identity y row' own hr').mp key).trans same)).elim⟩
  | some existing =>
      obtain ⟨member, key⟩ := Table.find_eq_some_iff.mp found
      refine h.putEvent_of_identity (fun x hx => ?_) (fun row' hr' => ?_)
      · change x.key = existing.key ↔ x.id = existing.id
        rcases mem_view_normalizedEvents member with own | ⟨committed, _⟩
        · exact h.events existing own x hx
        · exact ⟨fun same => by rw [Table.eq_of_key_eq hx committed same],
            fun same => ids x hx existing committed same⟩
      · change row'.key = existing.key ↔ row'.id = existing.id
        rcases mem_view_normalizedEvents member with own | ⟨committed, _⟩
        · exact h.identity row' existing hr' own
        · have same := h.events row' hr' existing committed
          exact ⟨fun k => (same.mp k.symm).symm, fun k => (same.mpr k.symm).symm⟩

theorem addOutbox (h : Pending s ws) {rows : List OutboxEvent}
    (absent : ∀ o ∈ rows, (postgres.view s ws).outboxEvents.find o.id = none)
    (once : (rows.map OutboxEvent.id).Nodup) : Pending s (ws ++ rows.map .addOutbox) where
  events row hr := h.events row (by simpa using hr)
  identity row row' hr hr' := h.identity row row' (by simpa using hr) (by simpa using hr')
  versions v hv := h.versions v (by simpa using hv)
  versionsOnce := by
    simpa [List.filterMap_map, Function.comp_def, Write.versionKey] using h.versionsOnce
  outbox o ho := by
    rcases List.mem_append.mp ho with old | new
    · exact h.outbox o old
    · obtain ⟨o', ho', same⟩ := List.mem_map.mp new
      cases same
      exact find_outboxEvents_of_view (absent o ho')
  outboxOnce := by
    have ids : (rows.map Write.addOutbox).filterMap Write.outboxId = rows.map OutboxEvent.id := by
      simp [List.filterMap_map, Function.comp_def, Write.outboxId]
    rw [List.filterMap_append, ids]
    refine List.nodup_append.mpr ⟨h.outboxOnce, once, ?_⟩
    rintro k hk l hl rfl
    obtain ⟨w, hw, same⟩ := List.mem_filterMap.mp hk
    obtain ⟨o, ho, rfl⟩ := List.mem_map.mp hl
    cases w with
    | addOutbox o' =>
        simp only [Write.outboxId, Option.some.injEq] at same
        exact find_view_outboxEvents_of_addOutbox (s := s) hw (same ▸ absent o ho)
    | _ => cases same

theorem of_append (h : Pending s (ws ++ vs)) : Pending s ws where
  events row hr := h.events row (List.mem_append_left _ hr)
  identity row row' hr hr' :=
    h.identity row row' (List.mem_append_left _ hr) (List.mem_append_left _ hr')
  versions v hv := h.versions v (List.mem_append_left _ hv)
  versionsOnce := by
    have once := h.versionsOnce
    rw [List.filterMap_append] at once
    exact once.of_append_left
  outbox o ho := h.outbox o (List.mem_append_left _ ho)
  outboxOnce := by
    have once := h.outboxOnce
    rw [List.filterMap_append] at once
    exact once.of_append_left

/-- Every inserted history row is visible to its session. -/
theorem mem_view_eventVersions (h : Pending s ws) {v : EventVersion} (hv : .addVersion v ∈ ws) :
    v ∈ (postgres.view s ws).eventVersions := by
  obtain ⟨first, rest, rfl⟩ := List.append_of_mem hv
  rw [postgres.view_append, view_cons]
  refine OmniSync.mem_view_eventVersions ?_
  change v ∈ ((postgres.view s first).eventVersions.add v).rows
  rw [Table.rows_add_of_absent, List.mem_append]
  · exact .inr (List.mem_singleton.mpr rfl)
  · cases found : (postgres.view s first).eventVersions.find v.key with
    | none => rfl
    | some x =>
        obtain ⟨hx, same⟩ := Table.find_eq_some_iff.mp found
        rcases mem_view_eventVersions_iff hx with old | own
        · exact (Table.find_eq_none_iff.mp (h.versions v hv) x old same).elim
        · have once := h.versionsOnce
          rw [List.filterMap_append] at once
          refine ((List.nodup_append.mp once).2.2 x.key ?_ v.key ?_ same).elim
          · exact List.mem_filterMap.mpr ⟨_, own, rfl⟩
          · exact List.mem_filterMap.mpr ⟨_, List.mem_cons_self, rfl⟩

/-- A session that patches no outbox rows appends its own. -/
theorem rows_view_outboxEvents (h : Pending s ws)
    (fixed : ∀ id patch, .patchOutbox id patch ∉ ws) :
    (postgres.view s ws).outboxEvents.rows = s.outboxEvents.rows ++
      ws.filterMap Write.outboxRow := by
  induction ws using List.reverseRecOn with
  | nil => exact (List.append_nil _).symm
  | append_singleton ws w ih =>
      have before := ih h.of_append (fun id patch member => fixed id patch (by simp [member]))
      rw [view_concat, List.filterMap_append, ← List.append_assoc, ← before]
      cases w with
      | addOutbox o =>
          refine Table.rows_add_of_absent ?_
          cases found : (postgres.view s ws).outboxEvents.find o.id with
          | none => rfl
          | some x =>
              obtain ⟨hx, same⟩ := Table.find_eq_some_iff.mp found
              rw [Table.mem_def, before, List.mem_append] at hx
              rcases hx with old | own
              · exact (Table.find_eq_none_iff.mp (h.outbox o (by simp)) x old same).elim
              · obtain ⟨w, hw, eq⟩ := List.mem_filterMap.mp own
                have once := h.outboxOnce
                rw [List.filterMap_append] at once
                refine ((List.nodup_append.mp once).2.2 x.id ?_ o.id ?_ same).elim
                · refine List.mem_filterMap.mpr ⟨w, hw, ?_⟩
                  cases w <;> cases eq
                  rfl
                · exact List.mem_filterMap.mpr ⟨_, List.mem_singleton.mpr rfl, rfl⟩
      | patchOutbox id patch => exact (fixed id patch (by simp)).elim
      | _ => exact (List.append_nil _).symm

/-- What is pending on top of other pending writes. -/
theorem of_view (h : Pending s (ws ++ vs)) : Pending (postgres.view s ws) vs where
  events row hr x hx := by
    have pending : .putEvent row ∈ ws ++ vs := List.mem_append_right _ hr
    rcases mem_view_normalizedEvents hx with own | ⟨old, _⟩
    · exact h.identity x row (List.mem_append_left _ own) pending
    · exact h.events row pending x old
  identity row row' hr hr' :=
    h.identity row row' (List.mem_append_right _ hr) (List.mem_append_right _ hr')
  versions v hv := by
    have once := h.versionsOnce
    rw [List.filterMap_append] at once
    refine Table.find_eq_none_iff.mpr (fun x hx same => ?_)
    rcases mem_view_eventVersions_iff hx with old | own
    · exact Table.find_eq_none_iff.mp (h.versions v (List.mem_append_right _ hv)) x old same
    · exact (List.nodup_append.mp once).2.2 x.key (List.mem_filterMap.mpr ⟨_, own, rfl⟩) v.key
        (List.mem_filterMap.mpr ⟨_, hv, rfl⟩) same
  versionsOnce := by
    have once := h.versionsOnce
    rw [List.filterMap_append] at once
    exact once.of_append_right
  outbox o ho := by
    have once := h.outboxOnce
    rw [List.filterMap_append] at once
    refine Table.find_eq_none_iff.mpr (fun x hx same => ?_)
    rcases exists_of_mem_view_outboxEvents OutboxEvent.id (fun _ _ => rfl) hx with
      ⟨o', old, id⟩ | ⟨o', own, id⟩
    · exact Table.find_eq_none_iff.mp (h.outbox o (List.mem_append_right _ ho)) o' old
        (id.trans same)
    · exact (List.nodup_append.mp once).2.2 o'.id (List.mem_filterMap.mpr ⟨_, own, rfl⟩) o.id
        (List.mem_filterMap.mpr ⟨_, ho, rfl⟩) (id.trans same)
  outboxOnce := by
    have once := h.outboxOnce
    rw [List.filterMap_append] at once
    exact once.of_append_right

/-- No two events of the view share their id. -/
theorem eventIdsUnique_view (h : Pending s ws) (ids : s.EventIdsUnique) :
    (postgres.view s ws).EventIdsUnique := by
  intro x hx y hy same
  rcases mem_view_normalizedEvents hx with ownx | ⟨oldx, _⟩ <;>
    rcases mem_view_normalizedEvents hy with owny | ⟨oldy, _⟩
  · exact (h.identity x y ownx owny).mpr same
  · exact ((h.events x ownx y oldy).mpr same.symm).symm
  · exact (h.events y owny x oldx).mpr same
  · exact ids x oldx y oldy same

end Pending

end OmniSync
