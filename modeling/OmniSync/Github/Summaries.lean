import OmniSync.Github.Lineage

/-!
# What the polls keep of their items

The raw payload of a poll is the kind of its items and their number, in the database or in the
object store. So no event of a poll finds its item there, and polls of other items, but of as many,
share a payload.
-/

namespace OmniSync

open Txn

section Loaded

variable {settings : Settings} {τ : State Unit} {body : Json}

/-- What is read from the object store has been put there, whatever the address. -/
theorem exists_of_getObject {url : String}
    (h : (getObject settings τ.world.objectStore url).toOption = some body) :
    ∃ o ∈ τ.world.objects, o.2 = body := by
  unfold getObject World.objectStore at h
  split at h
  · cases h
  · rename_i key _
    cases latest : lastWrite Prod.fst Prod.snd τ.world.objects (String.ofList key) with
    | none =>
        rw [latest] at h
        cases h
    | some found =>
        rw [latest] at h
        cases h
        obtain ⟨o, ho, _, same⟩ := exists_of_lastWrite _ _ latest
        exact ⟨o, ho, same⟩

end Loaded

/-- Only polls have run: the events come from their payloads, and all objects are theirs. -/
def PollsKept (rt : Runtime) (settings : Settings) (σ : State Unit) : Prop :=
  LineageKept rt settings (fun _ => False) σ ∧ ∀ o ∈ σ.world.objects, Polled o.1

section Kept

variable {lib : DatetimeLib} {rt : Runtime} {settings : Settings} {webhooks : WebhookSettings}
variable {σ τ : State Unit} {dialect : Dialect} {p : RawPayload} {body : Json}
variable {row : NormalizedEvent}

namespace PollsKept

theorem keptByPolls : KeptByPolls rt (PollsKept rt settings) where
  ids _ h := h.1.ids
  saves correlationId type count := by
    refine ⟨fun _ c h => ⟨h.1.tick c, h.2⟩, fun σ t h => ⟨?_, fun o ho => ?_⟩⟩
    · exact h.1.put (fun _ => ⟨type, count, rfl⟩)
    · rcases List.mem_append.mp ho with old | new
      · exact h.2 o old
      · rw [List.mem_singleton.mp new]
        exact polled_objectKey rt correlationId t
  logs _ _ only h := ⟨h.1.logs only, h.2⟩

theorem commitsPolls (s : Store) (items : List GitHubItem) :
    CommitsPolls lib rt settings (PollsKept rt settings) s items :=
  fun cid made p ws τ content stored h =>
    ⟨lineage_commitsPolls s items cid made p ws τ content stored h.1, h.2⟩

/-- What is loaded for a payload is a summary. -/
theorem loaded (kept : PollsKept rt settings τ) (safe : ∀ j, rt.jsonSafe j = j.coerce)
    (hp : p ∈ τ.store.rawPayloads) (source : p.source = "github_poll")
    (loaded : loadPayloadContent settings τ.world.objectStore (p.read dialect) = some body) :
    ∃ type count, body = pollSummary type count := by
  have summary := (kept.1.payloads p hp).poll source
  have coerced : ∀ type count, rt.jsonSafe (pollSummary type count) = pollSummary type count :=
    fun type count => safe _
  cases url : p.storageUrl with
  | none =>
      rw [RawPayload.loaded_database url] at loaded
      obtain ⟨stored, same, rfl⟩ := Option.map_eq_some_iff.mp loaded
      obtain ⟨type, count, rfl⟩ := summary.body stored same
      refine ⟨type, count, ?_⟩
      rw [coerced]
      cases dialect <;> rfl
  | some address =>
      obtain ⟨key, rfl, _⟩ := summary.url address url
      rw [RawPayload.loaded_objectStore url] at loaded
      obtain ⟨o, ho, rfl⟩ := exists_of_getObject loaded
      obtain ⟨type, count, same⟩ := kept.1.polled o ho (kept.2 o ho)
      exact ⟨type, count, same.trans (coerced type count)⟩

/-- No event finds its item in its payload. -/
theorem not_traced (kept : PollsKept rt settings τ) (safe : ∀ j, rt.jsonSafe j = j.coerce)
    (hr : row ∈ τ.store.normalizedEvents) : ¬ row.Traced settings dialect τ := by
  rintro ⟨p, hp, id, body, loaded, item, key, _, occurs⟩
  have source : row.source = "github" := by
    refine (congrArg Prod.fst key).symm.trans ?_
    cases item <;> rfl
  obtain ⟨q, hq, id', origin⟩ := kept.1.events row hr source
  obtain rfl : p = q := Table.eq_of_key_eq hp hq (Option.some.inj (id.symm.trans id'))
  have poll : p.OfPoll := origin.resolve_right (fun ⟨_, received, _⟩ => received)
  obtain ⟨type, count, rfl⟩ := kept.loaded safe hp poll loaded
  exact item.not_in_pollSummary type count occurs

end PollsKept

/-- A step of the polling paths receives no webhook, and runs one of the paths. -/
theorem LineageEvent.Happens.path {event : LineageEvent} (polls : event.source = "github_poll")
    (h : event.Happens lib rt settings webhooks σ τ) :
    (∀ payload, ¬ event.Receives rt payload) ∧ ∃ (path : GitHubPath) (server : GitHubServer),
      path.Configured ∧
        postgres.Visits () (path.prog lib rt settings) (σ.facing server.remote) τ := by
  cases event with
  | poll path server => exact ⟨fun _ received => received, path, server, h.1, h.2.visits⟩
  | interruptedPoll path server => exact ⟨fun _ received => received, path, server, h⟩
  | _ => exact absurd (show "github_webhook" = "github_poll" from polls) (by decide)

/-- A step of the polling paths, which leaves the events of its items if it returns. -/
theorem LineageEvent.Happens.polled {event : LineageEvent} (polls : event.source = "github_poll")
    (kept : PollsKept rt settings σ) (h : event.Happens lib rt settings webhooks σ τ) :
    PollsKept rt settings τ ∧ ∀ item ∈ event.items rt σ.store, ∃ row,
      τ.store.normalizedEvents.find item.key = some row := by
  obtain ⟨none, path, server, configured, run⟩ := h.path polls
  have left := (LineageEvent.Happens.left kept.1 none h).2
  refine ⟨?_, fun item hi => (left item hi).imp (fun _ found => found.1)⟩
  have begin : PollsKept rt settings (σ.facing server.remote) :=
    ⟨⟨kept.1.ids, kept.1.payloads, kept.1.events, kept.1.polled⟩, kept.2⟩
  have remote : (σ.facing server.remote).world.remote = server.remote := rfl
  have verified : wp (alone (PollsKept rt settings) (fun _ _ _ => True)) ()
      (path.prog lib rt settings) (fun _ _ _ => True) (σ.facing server.remote) [] :=
    wp_mono (GitHubPath.wp_prog configured PollsKept.keptByPolls remote
      (PollsKept.commitsPolls _ _)) (fun _ _ _ _ => trivial)
  exact wp_visits _ (fun _ _ _ => trivial) begin verified run

end Kept

/-- The items of the polls of a run are kept: each is found in the payload of its event, and polls
of other items have other payloads. -/
structure KeepsItems (rt : Runtime) (settings : Settings) (dialect : Dialect)
    (steps : List (Taken (State Unit) LineageEvent)) : Prop where
  traced : ∀ x ∈ steps, ∀ item ∈ x.label.items rt x.before.store, ∃ row,
    x.after.store.normalizedEvents.find item.key = some row ∧ row.Traced settings dialect x.after
  apart : ∀ x ∈ steps, ∀ y ∈ steps,
    x.label.items rt x.before.store ≠ y.label.items rt y.before.store →
      ∀ item ∈ x.label.items rt x.before.store, ∀ item' ∈ y.label.items rt y.before.store,
        ∀ row row', x.after.store.normalizedEvents.find item.key = some row →
          y.after.store.normalizedEvents.find item'.key = some row' →
            row.rawPayloadId ≠ row'.rawPayloadId

section Runs

variable {lib : DatetimeLib} {rt : Runtime} {settings : Settings} {webhooks : WebhookSettings}
variable {start last : State Unit} {steps : List (Taken (State Unit) LineageEvent)}

/-- Whatever polls have run on an empty database and an empty object store. -/
theorem pollsKept_of_run (store : start.store = ∅) (objects : start.world.objects = [])
    (run : Trace (fun σ event τ => LineageEvent.Happens lib rt settings webhooks σ event τ) start
      steps last)
    (polls : ∀ x ∈ steps, x.label.source = "github_poll") :
    PollsKept rt settings last ∧ ∀ x ∈ steps, PollsKept rt settings x.before ∧
      x.label.Happens lib rt settings webhooks x.before x.after := by
  have initial : PollsKept rt settings start := by
    refine ⟨lineageKept_empty store objects, ?_⟩
    rw [objects]
    exact fun o ho => (List.not_mem_nil ho).elim
  exact run.forall_of_met initial
    (fun kept taken polls => (LineageEvent.Happens.polled polls kept taken).1) polls

/-- Whatever polls have run, and however far: no event finds its item in its payload. So the polls
that have returned keep their items only if there were none. -/
theorem items_kept_iff (safe : ∀ j, rt.jsonSafe j = j.coerce) (store : start.store = ∅)
    (objects : start.world.objects = [])
    (run : Trace (fun σ event τ => LineageEvent.Happens lib rt settings webhooks σ event τ) start
      steps last)
    (polls : ∀ x ∈ steps, x.label.source = "github_poll") (dialect : Dialect) :
    (KeepsItems rt settings dialect steps ↔
      ∀ x ∈ steps, x.label.items rt x.before.store = []) ∧
    ∀ row ∈ last.store.normalizedEvents, ¬ row.Traced settings dialect last := by
  obtain ⟨kept, each⟩ := pollsKept_of_run store objects run polls
  refine ⟨⟨fun keeps x hx => ?_, fun empty => ⟨?_, ?_⟩⟩, fun row hr => kept.not_traced safe hr⟩
  · obtain ⟨before, taken⟩ := each x hx
    have after := (LineageEvent.Happens.polled (polls x hx) before taken).1
    refine List.eq_nil_iff_forall_not_mem.mpr (fun item hi => ?_)
    obtain ⟨row, found, traced⟩ := keeps.traced x hx item hi
    exact after.not_traced safe (Table.find_eq_some_iff.mp found).1 traced
  · intro x hx item hi
    rw [empty x hx] at hi
    exact (List.not_mem_nil hi).elim
  · intro x hx _ _ _ item hi
    rw [empty x hx] at hi
    exact (List.not_mem_nil hi).elim

end Runs

section Example

/-- A server whose page has one commit, which is another one than the first. -/
def nextCommitServer : GitHubServer := ⟨fun _ _ _ => [secondCommit], fun _ _ => []⟩

/-- The poll of a page with as many commits as the first one. -/
def nextCommitPoll : Option (Unit × State Unit) :=
  (firstCommitPoll summaryRuntime).bind (fun x => postgres.outcome ()
    ([.step (.text "d"), .step (.draw 11 0), .step .none, .step .none, .step (.commits []),
      .step .none, .step (.time 0)] ++ createScript 13 ++ [.step .none, .step .none])
    ((GitHubPath.commits omnisyncEnv).prog (calendar mayDays) summaryRuntime {})
    (x.2.facing nextCommitServer.remote))

/-- The run of the two polls, the first of which ends in `σ`. -/
def nextCommitSteps (σ τ : State Unit) : List (Taken (State Unit) LineageEvent) :=
  [⟨⟨{}, ∅, []⟩, .poll (.commits omnisyncEnv) oneCommitServer, σ⟩,
    ⟨σ, .poll (.commits omnisyncEnv) nextCommitServer, τ⟩]

theorem trace_of_nextCommitPoll {τ : State Unit} (h : nextCommitPoll = some ((), τ)) :
    ∃ σ, Trace (fun σ event τ => LineageEvent.Happens (calendar mayDays) summaryRuntime {} unsigned
      σ event τ) ⟨{}, ∅, []⟩ (nextCommitSteps σ τ) τ := by
  obtain ⟨⟨_, σ⟩, first, second⟩ := Option.bind_eq_some_iff.mp h
  have configured : (GitHubPath.commits omnisyncEnv).Configured := by
    change ¬ ("leakull" = "" ∨ "omnisync" = "")
    decide
  exact ⟨σ, .concat (.concat .nil ⟨configured, Engine.completes_of_outcome first⟩)
    ⟨configured, Engine.completes_of_outcome second⟩⟩

theorem nextCommitSteps_poll {σ τ : State Unit} :
    ∀ x ∈ nextCommitSteps σ τ, x.label.source = "github_poll" := by
  intro x hx
  rcases List.mem_cons.mp hx with rfl | hx
  · rfl
  · rw [List.mem_singleton.mp hx]
    rfl

theorem summaryRuntime_safe (j : Json) : summaryRuntime.jsonSafe j = j.coerce := rfl

/-- The polls of two commits share a payload, which has neither of them. -/
theorem polls_share_payload : ∃ σ τ first second,
    Trace (fun σ event τ => LineageEvent.Happens (calendar mayDays) summaryRuntime {} unsigned σ
      event τ) ⟨{}, ∅, []⟩ (nextCommitSteps σ τ) τ ∧
    (τ.store.normalizedEvents.find ("github", "a1") = some first ∧
      τ.store.normalizedEvents.find ("github", "b2") = some second ∧
        first.rawPayloadId = second.rawPayloadId) ∧
    (¬ first.Traced {} .postgresql τ ∧ ¬ second.Traced {} .postgresql τ) ∧
      ¬ KeepsItems summaryRuntime {} .postgresql (nextCommitSteps σ τ) := by
  have shape : nextCommitPoll.map (fun x =>
      ((x.2.store.normalizedEvents.find ("github", "a1")).map NormalizedEvent.rawPayloadId,
        (x.2.store.normalizedEvents.find ("github", "b2")).map NormalizedEvent.rawPayloadId)) =
          some (some (some 2), some (some 2)) := by decide +kernel
  obtain ⟨⟨_, τ⟩, both, seen⟩ := Option.map_eq_some_iff.mp shape
  obtain ⟨found, found'⟩ := Prod.mk.inj seen
  obtain ⟨first, one, id⟩ := Option.map_eq_some_iff.mp found
  obtain ⟨second, two, id'⟩ := Option.map_eq_some_iff.mp found'
  obtain ⟨σ, run⟩ := trace_of_nextCommitPoll both
  have kept := (pollsKept_of_run rfl rfl run nextCommitSteps_poll).1
  have untraced : ∀ {row}, row ∈ τ.store.normalizedEvents → ¬ row.Traced {} .postgresql τ :=
    fun hr => kept.not_traced summaryRuntime_safe hr
  refine ⟨σ, τ, first, second, run, ⟨one, two, id.trans id'.symm⟩,
    ⟨untraced (Table.find_eq_some_iff.mp one).1, untraced (Table.find_eq_some_iff.mp two).1⟩, ?_⟩
  intro keeps
  obtain ⟨row, stored, traced⟩ := keeps.traced _ (.tail _ (.head _)) (.commit secondCommit)
    (List.mem_singleton_self _)
  exact untraced (Table.find_eq_some_iff.mp stored).1 traced

/-- The events of the two polls do not find their commits. -/
theorem items_kept_twice : ∃ σ τ second,
    τ.store.normalizedEvents.find ("github", "b2") = some second ∧
      ¬ second.Traced {} .other τ ∧
        ¬ KeepsItems summaryRuntime {} .other (nextCommitSteps σ τ) := by
  have shape : nextCommitPoll.map (fun x =>
      (x.2.store.normalizedEvents.find ("github", "b2")).map NormalizedEvent.rawPayloadId) =
        some (some (some 2)) := by decide +kernel
  obtain ⟨⟨_, τ⟩, both, found⟩ := Option.map_eq_some_iff.mp shape
  obtain ⟨second, two, _⟩ := Option.map_eq_some_iff.mp found
  obtain ⟨σ, run⟩ := trace_of_nextCommitPoll both
  obtain ⟨iff, untraced⟩ :=
    items_kept_iff summaryRuntime_safe rfl rfl run nextCommitSteps_poll .other
  refine ⟨σ, τ, second, two, untraced second (Table.find_eq_some_iff.mp two).1, fun keeps => ?_⟩
  have none : [GitHubItem.commit secondCommit] = [] := iff.mp keeps _ (.tail _ (.head _))
  cases none

end Example

end OmniSync
