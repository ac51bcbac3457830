import OmniSync.Dlq.Runs

/-!
# The attempt budget of an operation

Failures of an operation are recorded and scans dispatch it again, in any interleaving with each
other and with anything that spares the operation. As long as the operation has one budget, its
active entry counts the dispatches: `Counts`. It has more than one if an entry is exhausted, since
the next failure opens an entry that starts to count from zero (`dispatched_beyond_budget`), or if
overlapping recordings have opened several active entries. So the budget bounds the dispatches of
the runs in which the operation is dispatched only while it has one budget, and in which what a
scan has dispatched is accounted for.
-/

namespace OmniSync

open Txn

/-- The operation has one budget: none of its entries is exhausted, and at most one is active. -/
structure OneBudget (s : Store) (operation : String) : Prop where
  unexhausted : ∀ f ∈ s.failedEvents.rows, f.operation = operation → f.status ≠ .exhausted
  single : ∀ f ∈ s.failedEvents.rows, ∀ g ∈ s.failedEvents.rows, f.operation = operation →
    g.operation = operation → f.active → g.active → f.id = g.id

instance (s : Store) (operation : String) : Decidable (OneBudget s operation) :=
  decidable_of_iff
    ((∀ f ∈ s.failedEvents.rows, f.operation = operation → f.status ≠ .exhausted) ∧
      ∀ f ∈ s.failedEvents.rows, ∀ g ∈ s.failedEvents.rows, f.operation = operation →
        g.operation = operation → f.active → g.active → f.id = g.id)
    ⟨fun h => ⟨h.1, h.2⟩, fun h => ⟨h.unexhausted, h.single⟩⟩

theorem OneBudget.congr {s t : Store} {operation : String} (h : OneBudget t operation)
    (same : SameAccounts operation s t) : OneBudget s operation := by
  refine ⟨fun f hf own => ?_, fun f hf g hg ownf owng actf actg => ?_⟩
  · obtain ⟨y, hy, account⟩ := same.new f hf own
    obtain ⟨_, operation', status, _⟩ := FailedEvent.fields_of_account account
    exact status ▸ h.unexhausted y hy (operation'.trans own)
  · obtain ⟨y, hy, account⟩ := same.new f hf ownf
    obtain ⟨z, hz, account'⟩ := same.new g hg owng
    obtain ⟨idf, opf, _, _, activef⟩ := FailedEvent.fields_of_account account
    obtain ⟨idg, opg, _, _, activeg⟩ := FailedEvent.fields_of_account account'
    rw [← idf, ← idg]
    exact h.single y hy z hz (opf.trans ownf) (opg.trans owng) (activef.trans actf)
      (activeg.trans actg)

/-- `n` dispatches are counted: those whose accounting is pending by the scan that has sent the
task, and the others by the entry. -/
structure Counts {ι : Type} (operation : String) (s : Store) (points : ι → DlqPoint) (n : Nat) :
    Prop where
  sent : ∀ i, ∀ f ∈ (points i).sent, f.operation = operation → n = f.replayAttempts + 1
  counted : ∀ f ∈ s.failedEvents, f.operation = operation → (∀ i, f ∉ (points i).sent) →
    f.replayAttempts = n
  unused : (∀ f ∈ s.failedEvents, f.operation ≠ operation) → n = 0

/-- The operation was dispatched `n` times. -/
structure Budget {ι : Type} (settings : Settings) (operation : String) (s : Store)
    (points : ι → DlqPoint) (n : Nat) : Prop where
  bounded : n ≤ settings.DLQ_MAX_REPLAY_ATTEMPTS
  kinds : ∀ f ∈ s.failedEvents, f.operation = operation → f.active ∨ f.status = .exhausted
  counts : OneBudget s operation → Counts operation s points n

section Scans

variable {settings : Settings} {operation : String} {s : Store} {st : ScanState}

/-- The entries whose task a scan has sent are those that are committed. -/
theorem DlqPoint.Secured.mem_of_sent {p : DlqPoint} (h : p.Secured settings s) {f : FailedEvent}
    (hf : f ∈ p.sent) : f ∈ s.failedEvents := by
  cases p with
  | sendTask st => exact (ScanState.Sound.mem_sent h hf).1
  | readClock st g => exact (ScanState.Sound.mem_sent h hf).1
  | updateFailed st g t => exact (ScanState.Sound.mem_sent h hf).1
  | _ => exact (List.not_mem_nil hf).elim

/-- A scan exhausts entries or leaves them active, and has locked those that it has sent. -/
theorem DlqPoint.Secured.image (h : (DlqPoint.sendTask st).Secured settings s) {f : FailedEvent}
    (hf : f ∈ s.failedEvents) :
    ∃ y ∈ (postgres.view s (st.writes settings)).failedEvents, y.id = f.id ∧
      y.operation = f.operation ∧
        (y = f ∨ (f.active ∧ (y.active ∨ y.status = .exhausted))) := by
  cases found : (postgres.view s (st.writes settings)).failedEvents.find f.id with
  | none => exact (find_ne_none_of_mem hf (find_failedEvents_of_view found)).elim
  | some y =>
      obtain ⟨hy, id⟩ := Table.find_eq_some_iff.mp found
      rcases h.mem_view hy with ⟨d, hd, member, due, rfl⟩ | ⟨member, _⟩
      · obtain rfl := Table.eq_of_key_eq member hf id
        refine ⟨_, hy, id, rfl, .inr ⟨due.1, ?_⟩⟩
        unfold scheduled
        split
        · exact .inr rfl
        · exact .inl rfl
      · obtain rfl := Table.eq_of_key_eq member hf id
        exact ⟨y, hy, rfl, rfl, .inl rfl⟩

/-- What a scan has still to commit does not turn several budgets into one. -/
theorem OneBudget.of_scan (h : OneBudget (postgres.view s (st.writes settings)) operation)
    (secured : (DlqPoint.sendTask st).Secured settings s) : OneBudget s operation := by
  have active : ∀ f ∈ s.failedEvents, f.operation = operation → f.active →
      ∃ y ∈ (postgres.view s (st.writes settings)).failedEvents, y.id = f.id ∧
        y.operation = operation ∧ y.active := by
    intro f hf own act
    obtain ⟨y, hy, id, operation', rfl | ⟨_, act' | exhausted⟩⟩ := secured.image hf
    · exact ⟨y, hy, id, own, act⟩
    · exact ⟨y, hy, id, operation'.trans own, act'⟩
    · exact (h.unexhausted y hy (operation'.trans own) exhausted).elim
  refine ⟨fun f hf own exhausted => ?_, fun f hf g hg ownf owng actf actg => ?_⟩
  · obtain ⟨y, hy, _, _, rfl | ⟨act, _⟩⟩ := secured.image hf
    · exact h.unexhausted y hy own exhausted
    · simp [FailedEvent.active, exhausted] at act
  · obtain ⟨y, hy, idf, opf, acty⟩ := active f hf ownf actf
    obtain ⟨z, hz, idg, opg, actz⟩ := active g hg owng actg
    rw [← idf, ← idg]
    exact h.single y hy z hz opf opg acty actz

end Scans

namespace Budget

variable {ι : Type} {settings : Settings} {operation : String} {s t : Store}
variable {points points' : ι → DlqPoint} {n : Nat}

theorem initial (fresh : ∀ f ∈ s.failedEvents, f.operation ≠ operation)
    (unsent : ∀ i, (points i).sent = []) : Budget settings operation s points 0 := by
  refine ⟨Nat.zero_le _, fun f hf own => (fresh f hf own).elim, fun _ => ⟨fun i f hf => ?_,
    fun f hf own => (fresh f hf own).elim, fun _ => rfl⟩⟩
  rw [unsent i] at hf
  exact (List.not_mem_nil hf).elim

/-- The accounts of the operation are the same, and so is what scans have sent of it. -/
theorem congr (h : Budget settings operation s points n) (same : SameAccounts operation s t)
    (sent : ∀ i f, f.operation = operation → (f ∈ (points' i).sent ↔ f ∈ (points i).sent))
    (held : ∀ i, ∀ f ∈ (points i).sent, f ∈ t.failedEvents) :
    Budget settings operation t points' n := by
  refine ⟨h.bounded, fun f hf own => ?_, fun one => ?_⟩
  · obtain ⟨x, hx, account⟩ := same.old f hf own
    obtain ⟨_, operation', status, _, active⟩ := FailedEvent.fields_of_account account
    rw [← status, ← active]
    exact h.kinds x hx (operation'.trans own)
  · have counts := h.counts (one.congr same)
    refine ⟨fun i f hf own => counts.sent i f ((sent i f own).mp hf) own,
      fun f hf own free => ?_, fun none => counts.unused (fun x hx own => ?_)⟩
    · obtain ⟨x, hx, account⟩ := same.old f hf own
      obtain ⟨id, operation', _, attempts, _⟩ := FailedEvent.fields_of_account account
      rw [← attempts]
      refine counts.counted x hx (operation'.trans own) (fun i there => ?_)
      obtain rfl := Table.eq_of_key_eq (held i x there) hf id
      exact free i ((sent i x own).mpr there)
    · obtain ⟨y, hy, account⟩ := same.new x hx own
      exact none y hy ((FailedEvent.fields_of_account account).2.1.trans own)

variable [DecidableEq ι] {i : ι}

/-- A step after which the accounts of the operation and what was sent of it are the same. -/
theorem update (h : Budget settings operation s points n) (same : SameAccounts operation s t)
    {q : DlqPoint} (sent : ∀ f, f.operation = operation → (f ∈ q.sent ↔ f ∈ (points i).sent))
    (held : ∀ j, ∀ f ∈ (points j).sent, f ∈ t.failedEvents) :
    Budget settings operation t (Function.update points i q) n := by
  refine h.congr same (fun j f own => ?_) held
  by_cases here : j = i
  · subst here
    rw [Function.update_self]
    exact sent f own
  · rw [Function.update_of_ne here]

/-- A scan dispatches the active entry, which has counted the dispatches so far. -/
theorem send (h : Budget settings operation s points n) {st : ScanState} {f : FailedEvent}
    {rest : List FailedEvent} (here : points i = .sendTask st)
    (secured : ∀ j, (points j).Secured settings s) (next : st.rest = f :: rest)
    (unsent : ∀ j, ∀ g ∈ (points j).sent, g.id ≠ f.id) (own : f.operation = operation)
    (one : OneBudget (postgres.view s (st.writes settings)) operation) :
    Budget settings operation s
      (Function.update points i (.readClock { st with rest := rest } f)) (n + 1) := by
  have sound : (DlqPoint.sendTask st).Secured settings s := by
    have secured := secured i
    rw [here] at secured
    exact secured
  have single := one.of_scan sound
  have counts := h.counts single
  obtain ⟨member, active, left, _⟩ :=
    ScanState.Sound.due sound f (ScanState.Sound.subset sound (by rw [next]; simp))
  have attempts : f.replayAttempts = n :=
    counts.counted f member own (fun j there => unsent j f there rfl)
  -- Every entry of the operation is the one that is dispatched.
  have only : ∀ g ∈ s.failedEvents, g.operation = operation → g = f := by
    intro g hg owng
    rcases h.kinds g hg owng with act | exhausted
    · exact Table.eq_of_key_eq hg member (single.single g hg f member owng own act active)
    · exact (single.unexhausted g hg owng exhausted).elim
  have sent : f ∈ (Function.update points i (.readClock { st with rest := rest } f) i).sent := by
    rw [Function.update_self]
    exact List.mem_append_right _ (List.mem_singleton_self f)
  refine ⟨attempts ▸ left, h.kinds, fun _ => ⟨fun j g hg owng => ?_, fun g hg owng free => ?_,
    fun none => (none f member own).elim⟩⟩
  · have kept : g ∈ s.failedEvents := by
      by_cases same : j = i
      · subst same
        rw [Function.update_self] at hg
        rcases List.mem_append.mp hg with old | new
        · exact (ScanState.Sound.mem_sent sound old).1
        · exact List.mem_singleton.mp new ▸ member
      · rw [Function.update_of_ne same] at hg
        exact (secured j).mem_of_sent hg
    rw [only g kept owng, attempts]
  · rw [only g hg owng] at free
    exact (free i sent).elim

/-- The commit of a scan counts what it has dispatched. -/
theorem account (h : Budget settings operation s points n) {st : ScanState}
    (here : points i = .sendTask st) (secured : ∀ j, (points j).Secured settings s)
    (ended : DlqPoint) (over' : ended.sent = []) :
    Budget settings operation (postgres.view s (st.writes settings))
      (Function.update points i ended) n := by
  have sound : (DlqPoint.sendTask st).Secured settings s := by
    have secured := secured i
    rw [here] at secured
    exact secured
  have others : ∀ j, j ≠ i → (Function.update points i ended j).sent = (points j).sent :=
    fun j own => by rw [Function.update_of_ne own]
  refine ⟨h.bounded, fun f hf own => ?_, fun one => ?_⟩
  · rcases sound.mem_view hf with ⟨d, _, _, _, rfl⟩ | ⟨member, _⟩
    · unfold scheduled
      split
      · exact .inr rfl
      · exact .inl rfl
    · exact h.kinds f member own
  · have counts := h.counts (one.of_scan sound)
    refine ⟨fun j f hf own => ?_, fun f hf own free => ?_, fun none => ?_⟩
    · by_cases same : j = i
      · subst same
        rw [Function.update_self, over'] at hf
        exact (List.not_mem_nil hf).elim
      · rw [others j same] at hf
        exact counts.sent j f hf own
    · rcases sound.mem_view hf with ⟨d, hd, _, _, rfl⟩ | ⟨member, unsent⟩
      · have sent : d.1 ∈ (points i).sent := by
          rw [here]
          exact List.mem_map.mpr ⟨d, hd, rfl⟩
        rw [counts.sent i d.1 sent own]
        unfold scheduled
        split <;> rfl
      · refine counts.counted f member own (fun j there => ?_)
        by_cases same : j = i
        · subst same
          rw [here] at there
          obtain ⟨d, hd, rfl⟩ := List.mem_map.mp there
          exact unsent d hd rfl
        · refine free j ?_
          rw [others j same]
          exact there
    · refine counts.unused (fun f hf own => ?_)
      obtain ⟨y, hy, _, operation', _⟩ := sound.image hf
      exact none y hy (operation'.trans own)

/-- A first failure opens an entry. -/
theorem record (h : Budget settings operation s points n) {row : FailedEvent}
    (own : row.operation = operation) (active : row.active) (attempts : row.replayAttempts = 0)
    (absent : s.failedEvents.find row.id = none)
    (held : ∀ i, ∀ f ∈ (points i).sent, f ∈ s.failedEvents) {ended : DlqPoint}
    (over' : ended.sent = []) (before : (points i).sent = []) :
    Budget settings operation (s.put (.addFailed row)) (Function.update points i ended) n := by
  have here : row ∈ (s.put (.addFailed row)).failedEvents := by
    change row ∈ (s.failedEvents.add row).rows
    rw [Table.rows_add_of_absent absent]
    exact List.mem_append_right _ (List.mem_singleton.mpr rfl)
  refine ⟨h.bounded, fun f hf ownf => ?_, fun one => ?_⟩
  · rcases Table.mem_of_mem_add hf with old | rfl
    · exact h.kinds f old ownf
    · exact .inl active
  -- With one budget there was no entry before.
  have first : ∀ f ∈ s.failedEvents, f.operation ≠ operation := by
    intro f hf ownf
    rcases h.kinds f hf ownf with act | exhausted
    · exact Table.find_eq_none_iff.mp absent f hf
        (one.single f (Table.mem_add_of_mem hf) row here ownf own act active)
    · exact one.unexhausted f (Table.mem_add_of_mem hf) ownf exhausted
  have none' : n = 0 := by
    refine (h.counts ⟨fun f hf ownf => (first f hf ownf).elim,
      fun f hf _ _ ownf => (first f hf ownf).elim⟩).unused first
  refine ⟨fun j f hf ownf => ?_, fun f hf ownf _ => ?_, fun none => (none row here own).elim⟩
  · have there : f ∈ (points j).sent := by
      by_cases same : j = i
      · subst same
        rw [Function.update_self, over'] at hf
        exact (List.not_mem_nil hf).elim
      · rw [Function.update_of_ne same] at hf
        exact hf
    exact (first f (held j f there) ownf).elim
  · rcases Table.mem_of_mem_add hf with old | rfl
    · exact (first f old ownf).elim
    · rw [attempts, none']

/-- The commit of a scan or of a recording. -/
theorem commit (h : Budget settings operation s points n)
    (secured : ∀ j, (points j).Secured settings s) (commits : (points i).commits = true)
    (next : ∀ j, (Function.update points i (.ended (.ok ()) []) j).Secured settings
      (postgres.view s ((points i).writes settings))) :
    Budget settings operation (postgres.view s ((points i).writes settings))
      (Function.update points i (.ended (.ok ()) [])) n := by
  have held : ∀ j, ∀ f ∈ (points j).sent, f ∈ s.failedEvents :=
    fun j f hf => (secured j).mem_of_sent hf
  have sound := secured i
  cases here : points i with
  | sendTask st => exact h.account here secured _ rfl
  | commitExisting call now existing =>
      rw [here] at next
      have none : ∀ f, f.operation = operation →
          (f ∈ (DlqPoint.ended (.ok ()) []).sent ↔ f ∈ (points i).sent) := by
        rw [here]
        exact fun f _ => Iff.rfl
      refine h.update (.patch rfl rfl) none (fun j f hf => ?_)
      by_cases own : j = i
      · rw [own, here] at hf
        exact (List.not_mem_nil hf).elim
      · refine (next j).mem_of_sent ?_
        rw [Function.update_of_ne own]
        exact hf
  | commitNew call now id created =>
      rw [here] at sound
      have none : (points i).sent = [] := by
        rw [here]
        rfl
      by_cases own : call.operation = operation
      · have opens : (call.row settings now id created).operation = operation := own
        exact h.record opens rfl rfl sound held rfl none
      · have spares : (Write.addFailed (call.row settings now id created)).Spares operation := own
        refine h.update (.put spares) (fun f _ => ?_)
          (fun j f hf => Table.mem_add_of_mem (held j f hf))
        rw [none]
        exact Iff.rfl
  | _ =>
      rw [here] at commits
      cases commits

end Budget

namespace DlqPoint

/-- The entry that a scan dispatches next. -/
def due : DlqPoint → Option FailedEvent
  | sendTask st => st.rest.head?
  | _ => none

/-- The task that a move sends. -/
def task (p : DlqPoint) : Move Exn Choice → Option String
  | .step _ => p.due.map FailedEvent.operation
  | _ => none

end DlqPoint

/-- What a step does to what a transaction has sent: it leaves that, it sends one more task, it
commits, or it loses what was sent. -/
inductive Progress (settings : Settings) (s : Store) (p : DlqPoint) (m : Move Exn Choice) :
    DlqPoint → Store → Prop where
  | quiet {q : DlqPoint} : q.sent = p.sent → p.task m = none → Progress settings s p m q s
  | send {st : ScanState} {f : FailedEvent} {rest : List FailedEvent} : p = .sendTask st →
      st.rest = f :: rest → p.task m = some f.operation →
        Progress settings s p m (.readClock { st with rest := rest } f) s
  | commit : p.commits = true → p.task m = none →
      Progress settings s p m (.ended (.ok ()) []) (postgres.view s (p.writes settings))
  | abort {q : DlqPoint} {e : Exn} : q.sent = [] → p.sent ≠ [] → p.task m = none →
      m = .crash e ∨ (p.commits = true ∧ m = .fail e) → Progress settings s p m q s

theorem PointStep.progress {settings : Settings} {locked : Write → Bool} {s t : Store}
    {p q : DlqPoint} {m : Move Exn Choice} (h : PointStep settings locked s p m q t) :
    Progress settings s p m q t := by
  have ended : ∀ {result : Except Exn Unit} {writes : List Write} {e : Exn},
      p.task m = none → m = .crash e ∨ (p.commits = true ∧ m = .fail e) →
      Progress settings s p m (.ended result writes) s := by
    intro result writes e unsent ends
    by_cases sent : p.sent = []
    · exact .quiet sent.symm unsent
    · exact .abort rfl sent unsent ends
  cases h with
  | crash => exact ended rfl (.inl rfl)
  | close => exact .quiet rfl rfl
  | fail mayAbort _ =>
      by_cases commits : p.commits = true
      · exact ended rfl (.inr ⟨commits, rfl⟩)
      · exact .quiet (DlqPoint.sent_eq_nil_of_mayAbort mayAbort
          ((Bool.not_eq_true _).mp commits)).symm rfl
  | commit commits =>
      refine .commit commits ?_
      cases p with
      | sendTask st =>
          change st.rest.head?.map FailedEvent.operation = none
          rw [List.isEmpty_iff.mp commits]
          rfl
      | _ => rfl
  | skip same => exact .quiet rfl rfl
  | @send st f rest choice same =>
      refine .send rfl same ?_
      change st.rest.head?.map FailedEvent.operation = _
      rw [same]
      rfl
  | @update st f t choice =>
      refine .quiet ?_ rfl
      change (st.done ++ [(f, t)]).map Prod.fst = st.done.map Prod.fst ++ [f]
      rw [List.map_append]
      rfl
  | _ => exact .quiet rfl rfl

section Steps

variable {ι : Type} {settings : Settings} {operation : String} {activities : ι → Activity}
variable {points : ι → DlqPoint} {x : QueueStep ι} {p : DlqPoint}

theorem QueueStep.task_eq (here : x.actor = p.session settings) : x.task = p.task x.label.2 := by
  unfold QueueStep.task
  rw [here]
  generalize x.label.2 = m
  cases p with
  | sendTask st =>
      obtain ⟨now, dispatched, rows, done, rest⟩ := st
      cases rest <;> cases m <;> rfl
  | ended result writes => cases result <;> cases m <;> rfl
  | _ => cases m <;> rfl

/-- A scan that ends without its commit. -/
theorem QueueStep.aborts_of_sent (here : x.actor = p.session settings) (sent : p.sent ≠ [])
    {e : Exn} (ends : x.label.2 = .crash e ∨ (p.commits = true ∧ x.label.2 = .fail e)) :
    x.aborts = true := by
  unfold QueueStep.aborts
  rw [here]
  rcases ends with crashed | ⟨commits, failed⟩
  · rw [crashed]
    cases p with
    | sendTask st =>
        obtain ⟨now, dispatched, rows, done, rest⟩ := st
        cases rest <;> rfl
    | readClock st f => rfl
    | updateFailed st f t => rfl
    | _ => exact (sent rfl).elim
  · obtain ⟨next, prog⟩ := DlqPoint.prog_of_commits settings commits
    rw [failed]
    change endsEarly (p.prog settings) _ = true
    rw [prog]
    rfl

theorem Attends.unsent {c : Cluster Answer Exn Store Write World ι Unit} {i : ι} {st : ScanState}
    {f : FailedEvent} {rest : List FailedEvent}
    (h : Attends settings operation activities c points) (here : points i = .sendTask st)
    (next : st.rest = f :: rest) : ∀ j, ∀ g ∈ (points j).sent, g.id ≠ f.id := by
  intro j
  have scan : activities i = .queue .scan := h.scanning i (by rw [here]; rfl)
  have sound := h.secured i
  rw [here] at sound
  by_cases own : j = i
  · subst own
    rw [here]
    exact ScanState.Sound.unsent sound next
  · by_cases queued : ∃ job, activities j = .queue job
    · obtain ⟨job, queued⟩ := queued
      have apart := h.disjoint j i own
      rw [h.queue j job queued, h.queue i _ scan, here] at apart
      exact (h.secured j).unsent sound next apart
    · rw [(h.aside j (fun job same => queued ⟨job, same⟩)).1]
      exact fun g hg => (List.not_mem_nil hg).elim

variable [DecidableEq ι]

/-- One step of a run in which the operation is dispatched while it has one budget, and in which
what was dispatched is accounted for. -/
theorem Budget.step {n : Nat} {q : DlqPoint} {locked : Write → Bool}
    (h : Budget settings operation x.before.shared.store points n)
    (attends : Attends settings operation activities x.before points)
    (next : Attends settings operation activities x.after (Function.update points x.label.1 q))
    (move : QueueMove settings operation (activities x.label.1) locked x.before.shared.store
      (points x.label.1) x.label.2 q x.after.shared.store)
    (automatic : ∀ id, activities x.label.1 ≠ .replay id)
    (within : x.dispatches activities operation = true → OneBudget x.view operation)
    (accounted : x.aborts = true → ∀ f ∈ (points x.label.1).sent, f.operation ≠ operation) :
    Budget settings operation x.after.shared.store (Function.update points x.label.1 q)
      (n + if x.dispatches activities operation then 1 else 0) := by
  have held : ∀ j, ∀ f ∈ (points j).sent, f ∈ x.before.shared.store.failedEvents :=
    fun j f hf => (attends.secured j).mem_of_sent hf
  have quiet : x.dispatches activities operation = false →
      n + (if x.dispatches activities operation then 1 else 0) = n := by
    intro unsent
    rw [unsent]
    rfl
  generalize same : x.after.shared.store = t at *
  cases move with
  | @aside ws aside commits =>
      have spares : ∀ w ∈ ws, w.Spares operation := by
        rcases commits with rfl | commits
        · exact fun w hw => (List.not_mem_nil hw).elim
        · cases activity : activities x.label.1 with
          | queue job => exact (aside job activity).elim
          | replay id => exact (automatic id activity).elim
          | other p =>
              rw [activity] at commits
              exact commits
      have unsent : x.dispatches activities operation = false := by
        unfold QueueStep.dispatches
        cases activity : activities x.label.1 with
        | queue job => exact (aside job activity).elim
        | _ => rfl
      rw [quiet unsent]
      refine h.update (.view spares) (fun f _ => Iff.rfl) (fun j f hf => ?_)
      rw [← same]
      refine (next.secured j).mem_of_sent ?_
      rw [Function.update_eq_self]
      exact hf
  | queue queued moved =>
      have actor : x.actor = (points x.label.1).session settings := attends.queue _ _ queued
      have task := QueueStep.task_eq actor
      have unsent : (points x.label.1).task x.label.2 = none →
          x.dispatches activities operation = false := by
        intro none
        unfold QueueStep.dispatches
        rw [task, none]
        simp
      cases moved.progress with
      | quiet sent none =>
          rw [quiet (unsent none)]
          exact h.update (.refl _) (fun f _ => by rw [sent]) held
      | @send st f rest here due sends =>
          have scan : activities x.label.1 = .queue .scan :=
            attends.scanning _ (by rw [here]; rfl)
          have dispatches : x.dispatches activities operation =
              decide (f.operation = operation) := by
            unfold QueueStep.dispatches
            rw [task, sends, scan]
            simp [Activity.scans]
          by_cases own : f.operation = operation
          · have sent : x.dispatches activities operation = true := by
              rw [dispatches, own]
              simp
            rw [sent]
            have one := within sent
            unfold QueueStep.view at one
            rw [actor, here] at one
            exact h.send here attends.secured due (attends.unsent here due) own one
          · rw [quiet (by rw [dispatches]; simpa using own)]
            refine h.update (.refl _) (fun g owng => ?_) held
            rw [here]
            change g ∈ st.done.map Prod.fst ++ [f] ↔ g ∈ st.done.map Prod.fst
            rw [List.mem_append, List.mem_singleton]
            exact or_iff_left (fun same => own (same ▸ owng))
      | commit commits none =>
          rw [quiet (unsent none)]
          refine h.commit attends.secured commits ?_
          rw [← same]
          exact next.secured
      | abort over' sent none ends =>
          have lost := accounted (QueueStep.aborts_of_sent actor sent ends)
          rw [quiet (unsent none)]
          refine h.update (.refl _) (fun f own => ?_) held
          rw [over']
          exact iff_of_false List.not_mem_nil (fun there => lost f there own)

end Steps

section Runs

variable {ι : Type} [Fintype ι] [DecidableEq ι] {settings : Settings} {operation : String}
variable {activities : ι → Activity} {σ : State ι} {steps : List (QueueStep ι)}
variable {c : Cluster Answer Exn Store Write World ι Unit}

theorem Activity.point_sent (activity : Activity) : (activity.point settings).sent = [] := by
  cases activity with
  | queue job => exact (job.point_fresh settings).2.2.2.1
  | _ => rfl

omit [Fintype ι] [DecidableEq ι] in
theorem dispatchCount_concat (x : QueueStep ι) : dispatchCount activities operation (steps ++ [x]) =
    dispatchCount activities operation steps +
      if x.dispatches activities operation then 1 else 0 := by
  unfold dispatchCount
  rw [List.countP_append, List.countP_singleton]

/-- The scans of a run that have sent a task of the operation have dispatched it in some step. -/
def Dispatched (activities : ι → Activity) (operation : String) (steps : List (QueueStep ι))
    (points : ι → DlqPoint) : Prop :=
  ∀ i, ∀ f ∈ (points i).sent, f.operation = operation →
    ∃ x ∈ steps, x.label.1 = i ∧ x.dispatches activities operation = true

omit [Fintype ι] in
theorem Dispatched.step {points : ι → DlqPoint} {x : QueueStep ι} {q : DlqPoint}
    {locked : Write → Bool} (h : Dispatched activities operation steps points)
    (attends : Attends settings operation activities x.before points)
    (move : QueueMove settings operation (activities x.label.1) locked x.before.shared.store
      (points x.label.1) x.label.2 q x.after.shared.store) :
    Dispatched activities operation (steps ++ [x]) (Function.update points x.label.1 q) := by
  have before : ∀ i, ∀ f ∈ (points i).sent, f.operation = operation →
      ∃ y ∈ steps ++ [x], y.label.1 = i ∧ y.dispatches activities operation = true := by
    intro i f hf own
    obtain ⟨y, hy, same, sent⟩ := h i f hf own
    exact ⟨y, List.mem_append_left _ hy, same, sent⟩
  intro i f hf own
  generalize x.after.shared.store = t at move
  by_cases same : i = x.label.1
  · subst same
    rw [Function.update_self] at hf
    cases move with
    | aside => exact before _ f hf own
    | queue queued moved =>
        cases moved.progress with
        | quiet sent => exact before _ f (sent ▸ hf) own
        | @send st g rest here due sends =>
            rcases List.mem_append.mp hf with old | new
            · refine before _ f ?_ own
              rw [here]
              exact old
            · obtain rfl := List.mem_singleton.mp new
              have scan := attends.scanning x.label.1 (by rw [here]; rfl)
              refine ⟨x, List.mem_append_right _ (List.mem_singleton_self x), rfl, ?_⟩
              unfold QueueStep.dispatches
              rw [QueueStep.task_eq (attends.queue _ _ queued), sends, scan, own]
              simp [Activity.scans]
        | commit => exact (List.not_mem_nil hf).elim
        | abort over' => exact (List.not_mem_nil (over' ▸ hf)).elim
  · rw [Function.update_of_ne same] at hf
    exact before i f hf own

/-- What a run has dispatched so far is counted. -/
theorem exists_budget (fresh : ∀ f ∈ σ.store.failedEvents.rows, f.operation ≠ operation)
    (leaves : ∀ i, (activities i).Leaves operation)
    (automatic : ∀ i id, activities i ≠ .replay id)
    (run : Trace (Cluster.Acts postgres)
      (Cluster.start σ (fun i => (activities i).prog settings)) steps c)
    (within : ∀ x ∈ steps, x.dispatches activities operation = true → OneBudget x.view operation)
    (accounted : ∀ x ∈ steps, x.dispatches activities operation = true →
      ∀ y ∈ steps, y.label.1 = x.label.1 → y.aborts = false) :
    ∃ points, Attends settings operation activities c points ∧
      Budget settings operation c.shared.store points (dispatchCount activities operation steps) ∧
        Dispatched activities operation steps points := by
  induction run with
  | nil =>
      refine ⟨_, attends_start leaves, .initial fresh (fun i => (activities i).point_sent),
        fun i f hf => ?_⟩
      rw [Activity.point_sent] at hf
      exact (List.not_mem_nil hf).elim
  | @concat steps c c' label run taken ih =>
      have last : (⟨c, label, c'⟩ : QueueStep ι) ∈ steps ++ [⟨c, label, c'⟩] :=
        List.mem_append_right _ (List.mem_singleton_self _)
      obtain ⟨points, attends, budget, dispatched⟩ :=
        ih (fun x hx => within x (List.mem_append_left _ hx))
          (fun x hx sends y hy => accounted x (List.mem_append_left _ hx) sends y
            (List.mem_append_left _ hy))
      obtain ⟨q, move, next⟩ := attends.act taken
      refine ⟨_, next, ?_, dispatched.step (x := ⟨c, label, c'⟩) attends move⟩
      rw [dispatchCount_concat]
      refine Budget.step (x := ⟨c, label, c'⟩) budget attends next move (automatic _)
        (within _ last) (fun aborts f hf own => ?_)
      obtain ⟨y, hy, same, sends⟩ := dispatched label.1 f hf own
      rw [accounted y (List.mem_append_left _ hy) sends _ last same.symm] at aborts
      cases aborts

/-- In every run without manual replays in which the operation is dispatched only while it has
one budget, and in which no scan that has dispatched it ends without its commit, the budget
bounds the dispatches. -/
theorem dispatches_within_budget
    (fresh : ∀ f ∈ σ.store.failedEvents.rows, f.operation ≠ operation)
    (leaves : ∀ i, (activities i).Leaves operation)
    (automatic : ∀ i id, activities i ≠ .replay id)
    (run : Trace (Cluster.Acts postgres)
      (Cluster.start σ (fun i => (activities i).prog settings)) steps c)
    (within : ∀ x ∈ steps, x.dispatches activities operation = true → OneBudget x.view operation)
    (accounted : ∀ x ∈ steps, x.dispatches activities operation = true →
      ∀ y ∈ steps, y.label.1 = x.label.1 → y.aborts = false) :
    dispatchCount activities operation steps ≤ settings.DLQ_MAX_REPLAY_ATTEMPTS := by
  obtain ⟨_, _, budget, _⟩ := exists_budget fresh leaves automatic run within accounted
  exact budget.bounded

end Runs

section Example

/-- The mail poll fails in every transaction with an even number, and the retrier scans in the
others. -/
def failingPoll (i : Fin 13) : Activity :=
  if i.val % 2 = 0 then .queue (.record ⟨"imap", "src.imap.tasks.sync_imap_messages",
    .obj [("trigger", .str "resync")], "timed out", none⟩)
  else .queue .scan

/-- A recording that opens entry `id`. -/
def opensEntry (i : Fin 13) (id : Uuid) : List (Fin 13 × Move Exn Choice) :=
  [(i, .step (.time 0)), (i, .step (.rows [])), (i, .step (.draw id 0)), (i, .step .none)]

/-- A scan at time `t` that dispatches entry `id`. -/
def dispatchesEntry (i : Fin 13) (t : Time) (id : Uuid) : List (Fin 13 × Move Exn Choice) :=
  (scanScript t id).map (fun m => (i, m))

/-- A scan at time `t` that dispatches entry `id`, and the dispatched execution fails as well. -/
def retriedInVain (i : Fin 13) (t : Time) (id : Uuid) : List (Fin 13 × Move Exn Choice) :=
  dispatchesEntry i t id ++ [(i + 1, .step (.time 0)), (i + 1, .step (.rows [id])),
    (i + 1, .step .none), (i + 1, .step .none), (i + 1, .step .none)]

/-- A failure, and five dispatches in vain. The last one exhausts the entry, so that its
failure opens another one. -/
def exhaustingSchedule : List (Fin 13 × Move Exn Choice) :=
  opensEntry 0 1 ++ retriedInVain 1 10000000000 1 ++ retriedInVain 3 20000000000 1 ++
    retriedInVain 5 30000000000 1 ++ retriedInVain 7 40000000000 1 ++
      dispatchesEntry 9 50000000000 1 ++ opensEntry 10 2

/-- The run of a schedule. -/
def failingRun (schedule : List (Fin 13 × Move Exn Choice)) :
    Option (List (QueueStep (Fin 13)) × Cluster Answer Exn Store Write World (Fin 13) Unit) :=
  (Cluster.start ⟨{}, ∅, []⟩ (fun i => (failingPoll i).prog {})).history postgres schedule

theorem failingPoll_eq (i : Fin 13) : ∃ job, failingPoll i = .queue job := by
  unfold failingPoll
  split <;> exact ⟨_, rfl⟩

theorem failingPoll_leaves (i : Fin 13) :
    (failingPoll i).Leaves "src.imap.tasks.sync_imap_messages" := by
  obtain ⟨job, here⟩ := failingPoll_eq i
  rw [here]
  trivial

/-- Up to the dispatch that spends the budget. -/
theorem dispatches_within_budget_spent : ∃ steps c,
    failingRun exhaustingSchedule = some (steps, c) ∧
      dispatchCount failingPoll "src.imap.tasks.sync_imap_messages" steps = 5 ∧
        dispatchCount failingPoll "src.imap.tasks.sync_imap_messages" steps ≤
          ({} : Settings).DLQ_MAX_REPLAY_ATTEMPTS := by
  have shape : (failingRun exhaustingSchedule).map (fun run =>
      (dispatchCount failingPoll "src.imap.tasks.sync_imap_messages" run.1,
        run.1.all (fun x => !x.aborts), run.1.all (fun x =>
          !x.dispatches failingPoll "src.imap.tasks.sync_imap_messages" ||
            decide (OneBudget x.view "src.imap.tasks.sync_imap_messages")))) =
              some (5, true, true) := by decide +kernel
  obtain ⟨⟨steps, c⟩, run, facts⟩ := Option.map_eq_some_iff.mp shape
  simp only [Prod.mk.injEq, List.all_eq_true, Bool.not_eq_true', Bool.or_eq_true,
    decide_eq_true_eq] at facts
  obtain ⟨count, kept, within⟩ := facts
  refine ⟨steps, c, run, count, dispatches_within_budget (fun _ hf => (List.not_mem_nil hf).elim)
    failingPoll_leaves (fun i id replayed => ?_) (Cluster.trace_of_history run)
    (fun x hx sends => ?_) (fun x hx sends y hy same => kept y hy)⟩
  · obtain ⟨job, here⟩ := failingPoll_eq i
    rw [here] at replayed
    cases replayed
  · rcases within x hx with quiet | one
    · rw [quiet] at sends
      cases sends
    · exact one

/-- The execution that spent the budget has failed as well. Its entry is dispatched again: six
dispatches, although every scan commits and no two recordings overlap. -/
theorem dispatched_beyond_budget : ∃ steps c,
    Trace (Cluster.Acts postgres)
      (Cluster.start ⟨{}, ∅, []⟩ (fun i => (failingPoll i).prog {})) steps c ∧
    (∀ x ∈ steps, QueueStep.aborts x = false ∧ OneActive x.after.shared.store) ∧
    ({} : Settings).DLQ_MAX_REPLAY_ATTEMPTS <
      dispatchCount failingPoll "src.imap.tasks.sync_imap_messages" steps := by
  have shape : (failingRun (exhaustingSchedule ++ retriedInVain 11 60000000000 2)).map (fun run =>
      (dispatchCount failingPoll "src.imap.tasks.sync_imap_messages" run.1,
        run.1.all (fun x => !x.aborts && decide (OneActive x.after.shared.store)))) =
          some (6, true) := by decide +kernel
  obtain ⟨⟨steps, c⟩, run, facts⟩ := Option.map_eq_some_iff.mp shape
  simp only [Prod.mk.injEq, List.all_eq_true, Bool.and_eq_true, Bool.not_eq_true',
    decide_eq_true_eq] at facts
  refine ⟨steps, c, Cluster.trace_of_history run, facts.2, ?_⟩
  rw [facts.1]
  decide

end Example

end OmniSync
