import OmniSync.Data.Code
import OmniSync.Github.Delivery

/-!
# Which pull requests a poll updates

Pull requests change upstream, and their events are overwritten. A poll fetches one page, the
latest updates first, and stops at the first one whose update is older than the watermark. But
the watermark is the latest creation of any pull request that has an event. So a poll leaves the
event of a pull request as it is exactly when it stops before it.
-/

namespace OmniSync

open Txn

/-- The event of the pull request has the columns that are made of it at present. -/
def GitHubPRData.Reflected (lib : DatetimeLib) (pr : GitHubPRData) (s : Store) : Prop :=
  ∃ row, s.normalizedEvents.find (GitHubItem.pullRequest pr).key = some row ∧
    ∃ rawPayloadId e, (GitHubItem.pullRequest pr).Makes lib rawPayloadId e ∧ row.Holds e

/-- The client does not stop at the pull request. -/
def GitHubPRData.Reached (since : Option String) (pr : GitHubPRData) : Prop :=
  ∀ text, since = some text → text ≠ "" → pr.olderThan text = false

/-- The first pull request has been updated no earlier than the second one. -/
def GitHubPRData.NoOlder (a b : GitHubPRData) : Prop :=
  ∀ since, a.olderThan since = true → b.olderThan since = true

/-- What happens: a pull request is opened or updated, a poll returns, or something else. -/
inductive PullRequestEvent where
  | update (pr : GitHubPRData)
  | poll (server : GitHubServer)
  | other

namespace PullRequestEvent

/-- A page of the server: at most a hundred pull requests, the latest updates first. -/
structure Answers (upstream page : List GitHubPRData) : Prop where
  few : page.length ≤ 100
  known : ∀ pr ∈ page, pr ∈ upstream
  sorted : page.Pairwise GitHubPRData.NoOlder
  latest : ∀ pr ∈ upstream, pr ∈ page ∨ page.length = 100 ∧ ∀ d ∈ page, d.NoOlder pr

variable (lib : DatetimeLib) (rt : Runtime) (settings : Settings) (env : GitHubEnv)

/-- The text of the watermark. -/
def sinceText (s : Store) : Option String :=
  (s.watermark "github" (some "pull_request")).map rt.isoformat

def page (server : GitHubServer) : List GitHubPRData :=
  server.pullRequests env.GITHUB_SYNC_OWNER env.GITHUB_SYNC_REPO

/-- What a poll fetches. -/
def fetched (server : GitHubServer) (s : Store) : List GitHubPRData :=
  server.getPullRequests env.GITHUB_SYNC_OWNER env.GITHUB_SYNC_REPO (sinceText rt s)

/-- The pull requests have changed, a poll has returned, or the events have changed otherwise. -/
def Steps (s : List GitHubPRData × State Unit) (event : PullRequestEvent)
    (t : List GitHubPRData × State Unit) : Prop :=
  match event with
  | update pr => t = (pr :: s.1.filter (fun other => decide (other.id ≠ pr.id)), s.2)
  | poll server => t.1 = s.1 ∧ Answers s.1 (page env server) ∧
      postgres.Completes () (syncGithubPullRequests lib rt settings env)
        (s.2.facing server.remote) () t.2
  | other => t.1 = s.1 ∧ t.2.store.EventIdsUnique

/-- Every pull request has an event with its present columns. -/
def AllReflected (s : List GitHubPRData × State Unit) : Prop :=
  ∀ pr ∈ s.1, pr.Reflected lib s.2.store

/-- A poll would not stop before a pull request whose event is out of date. -/
def NoneBehind (s : List GitHubPRData × State Unit) : Prop :=
  ∀ pr ∈ s.1, pr.Reflected lib s.2.store ∨ pr.Reached (sinceText rt s.2.store)

/-- An update is no older than the watermark, and the page of a poll is not full. Whatever else
happens leaves no pull request out of date that is older than the watermark. -/
def Timely (s : List GitHubPRData × State Unit) (event : PullRequestEvent)
    (t : List GitHubPRData × State Unit) : Prop :=
  match event with
  | update pr => pr.Reached (sinceText rt s.2.store)
  | poll server => (page env server).length < 100
  | other => NoneBehind lib rt t

end PullRequestEvent

section Trimming

/-- In a list in which it holds of a beginning only. -/
theorem takeWhile_eq_filter {α : Type} {p : α → Bool} {xs : List α}
    (beginning : xs.Pairwise (fun a b => p b = true → p a = true)) :
    xs.takeWhile p = xs.filter p := by
  induction xs with
  | nil => rfl
  | cons x xs ih =>
      obtain ⟨first, rest⟩ := List.pairwise_cons.mp beginning
      by_cases holds : p x = true
      · rw [List.takeWhile_cons_of_pos holds, List.filter_cons_of_pos holds, ih rest]
      · rw [List.takeWhile_cons_of_neg holds, List.filter_cons_of_neg holds, eq_comm,
          List.filter_eq_nil_iff]
        exact fun y hy later => holds (first y hy later)

variable {since : Option String} {page : List GitHubPRData} {pr : GitHubPRData}

/-- Stopping at the first one that is older loses no other ones. -/
theorem mem_trimmed_iff (sorted : page.Pairwise GitHubPRData.NoOlder) :
    pr ∈ trimmed since page ↔ pr ∈ page ∧ pr.Reached since := by
  cases since with
  | none => exact ⟨fun h => ⟨h, fun _ impossible => (nomatch impossible)⟩, And.left⟩
  | some text =>
      by_cases empty : text = ""
      · subst empty
        exact ⟨fun h => ⟨h, fun _ same filled => (filled (Option.some.inj same).symm).elim⟩,
          And.left⟩
      · have reached : pr.Reached (some text) ↔ (!pr.olderThan text) = true := by
          rw [Bool.not_eq_true']
          exact ⟨fun h => h text rfl empty, fun h _ same _ => Option.some.inj same ▸ h⟩
        have beginning : page.Pairwise (fun a b =>
            (!b.olderThan text) = true → (!a.olderThan text) = true) := by
          refine sorted.imp (fun {a b} older young => ?_)
          rw [Bool.not_eq_true'] at young ⊢
          exact Bool.eq_false_iff.mpr (fun old => Bool.eq_false_iff.mp young (older text old))
        unfold trimmed
        dsimp only
        rw [if_neg empty, takeWhile_eq_filter beginning, List.mem_filter, reached]

end Trimming

section Columns

variable {lib : DatetimeLib} {rt : Runtime} {settings : Settings} {items : List GitHubItem}
variable {s t : Store}

/-- The event of an item whose key no other one has gets the columns of the item. -/
theorem PollLeft.holds_own (h : PollLeft lib rt settings items s t) {item : GitHubItem}
    (hi : item ∈ items) (single : ∀ other ∈ items, other.key = item.key → other = item) :
    ∃ row, t.normalizedEvents.find item.key = some row ∧
      ∃ rawPayloadId e, item.Makes lib rawPayloadId e ∧ row.Holds e := by
  obtain ⟨row, found, origin, ho, key, made⟩ := h.holds hi
  obtain rfl := single origin ho key
  exact ⟨row, found, made⟩

end Columns

section Poll

variable {lib : DatetimeLib} {rt : Runtime} {settings : Settings} {env : GitHubEnv}
variable {s t start : List GitHubPRData × State Unit} {event : PullRequestEvent}
variable {server : GitHubServer}

theorem pullRequest_key_inj {a b : GitHubPRData} :
    (GitHubItem.pullRequest a).key = (GitHubItem.pullRequest b).key ↔ a.id = b.id :=
  ⟨fun same => int_toString_inj.mp (congrArg Prod.snd same),
    fun same => congrArg (fun id => ("github", toString id)) same⟩

namespace PullRequestEvent

/-- The ids of the events are unique, and so are those of the pull requests. -/
def Distinct (s : List GitHubPRData × State Unit) : Prop :=
  s.2.store.EventIdsUnique ∧ (s.1.map GitHubPRData.id).Nodup

theorem Distinct.eq_of_key (h : Distinct s) {a b : GitHubPRData} (ha : a ∈ s.1) (hb : b ∈ s.1)
    (same : (GitHubItem.pullRequest a).key = (GitHubItem.pullRequest b).key) : a = b :=
  List.inj_on_of_nodup_map h.2 ha hb (pullRequest_key_inj.mp same)

/-- What a poll leaves of the pull requests. -/
theorem reflected_of_poll
    (configured : ¬ (env.GITHUB_SYNC_OWNER = "" ∨ env.GITHUB_SYNC_REPO = ""))
    (distinct : Distinct s) (h : Steps lib rt settings env s (.poll server) t) :
    Distinct t ∧ ∀ pr ∈ s.1, pr.Reflected lib t.2.store ↔
      pr.Reflected lib s.2.store ∨ pr ∈ fetched rt env server s.2.store := by
  obtain ⟨same, answers, run⟩ := h
  have configured' : (GitHubPath.pullRequests env).Configured := configured
  obtain ⟨ids, left⟩ := GitHubPath.pollLeft configured' distinct.1 run
  have items : (GitHubPath.pullRequests env).items rt server s.2.store =
      (fetched rt env server s.2.store).map GitHubItem.pullRequest := rfl
  rw [items] at left
  have upstream : ∀ pr ∈ fetched rt env server s.2.store, pr ∈ s.1 := fun pr hp =>
    answers.known pr ((mem_trimmed_iff answers.sorted).mp hp).1
  refine ⟨⟨ids, same ▸ distinct.2⟩, fun pr hp => ?_⟩
  by_cases sought : pr ∈ fetched rt env server s.2.store
  · refine ⟨fun _ => .inr sought, fun _ => ?_⟩
    refine left.holds_own (List.mem_map_of_mem sought) (fun other ho key => ?_)
    obtain ⟨pr', hp', rfl⟩ := List.mem_map.mp ho
    exact congrArg GitHubItem.pullRequest (distinct.eq_of_key (upstream pr' hp') hp key)
  · have untouched : t.2.store.normalizedEvents.find (GitHubItem.pullRequest pr).key =
        s.2.store.normalizedEvents.find (GitHubItem.pullRequest pr).key := by
      refine left.find_other (fun item hi key => ?_)
      obtain ⟨pr', hp', rfl⟩ := List.mem_map.mp hi
      exact sought (distinct.eq_of_key (upstream pr' hp') hp key ▸ hp')
    unfold GitHubPRData.Reflected
    rw [untouched]
    exact (or_iff_left sought).symm

theorem Steps.distinct (configured : ¬ (env.GITHUB_SYNC_OWNER = "" ∨ env.GITHUB_SYNC_REPO = ""))
    (distinct : Distinct s) (h : Steps lib rt settings env s event t) : Distinct t := by
  cases event with
  | update pr =>
      cases h
      refine ⟨distinct.1, List.nodup_cons.mpr ⟨fun here => ?_, ?_⟩⟩
      · obtain ⟨other, ho, same⟩ := List.mem_map.mp here
        exact of_decide_eq_true (List.mem_filter.mp ho).2 same
      · exact distinct.2.sublist (List.filter_sublist.map _)
  | poll server => exact (reflected_of_poll configured distinct h).1
  | other => exact ⟨h.2, h.1 ▸ distinct.2⟩

/-- A poll makes everything current if and only if it fetches whatever was out of date. -/
theorem Steps.current_iff
    (configured : ¬ (env.GITHUB_SYNC_OWNER = "" ∨ env.GITHUB_SYNC_REPO = ""))
    (distinct : Distinct s) (h : Steps lib rt settings env s (.poll server) t) :
    AllReflected lib t ↔
      ∀ pr ∈ s.1, pr.Reflected lib s.2.store ∨ pr ∈ fetched rt env server s.2.store := by
  have each := (reflected_of_poll configured distinct h).2
  unfold AllReflected
  rw [h.1]
  exact forall₂_congr each

/-- A poll fetches what is not behind. -/
theorem NoneBehind.fetched (behind : NoneBehind lib rt s) (answers : Answers s.1 (page env server))
    (few : (page env server).length < 100) :
    ∀ pr ∈ s.1, pr.Reflected lib s.2.store ∨ pr ∈ fetched rt env server s.2.store := by
  intro pr hp
  refine (behind pr hp).imp_right (fun reached => ?_)
  refine (mem_trimmed_iff answers.sorted).mpr ⟨?_, reached⟩
  exact (answers.latest pr hp).resolve_right (fun full => few.ne full.1)

theorem Steps.noneBehind
    (configured : ¬ (env.GITHUB_SYNC_OWNER = "" ∨ env.GITHUB_SYNC_REPO = ""))
    (distinct : Distinct s) (before : NoneBehind lib rt s)
    (h : Steps lib rt settings env s event t) (timely : Timely lib rt env s event t) :
    NoneBehind lib rt t := by
  cases event with
  | update pr =>
      cases h
      refine List.forall_mem_cons.mpr ⟨.inr timely, fun other ho => ?_⟩
      exact before other (List.mem_filter.mp ho).1
  | poll server =>
      have current := (h.current_iff configured distinct).mpr (before.fetched h.2.1 timely)
      exact fun pr hp => .inl (current pr hp)
  | other => exact timely

/-- A poll leaves every pull request of the repository with an event that has its present columns
if and only if it fetches all that were out of date. This is so in every poll of a run in which no
pull request that is out of date is older than the watermark and pages are not full. -/
theorem pull_requests_current {last : List GitHubPRData × State Unit}
    {steps : List (Taken (List GitHubPRData × State Unit) PullRequestEvent)}
    (configured : ¬ (env.GITHUB_SYNC_OWNER = "" ∨ env.GITHUB_SYNC_REPO = ""))
    (distinct : Distinct start) (run : Trace (Steps lib rt settings env) start steps last) :
    (∀ x ∈ steps, ∀ server, x.label = .poll server → (AllReflected lib x.after ↔ ∀ pr ∈ x.before.1,
      pr.Reflected lib x.before.2.store ∨ pr ∈ fetched rt env server x.before.2.store)) ∧
    (NoneBehind lib rt start → (∀ x ∈ steps, Timely lib rt env x.before x.label x.after) →
      ∀ x ∈ steps, ∀ server, x.label = .poll server → AllReflected lib x.after) := by
  have polls : ∀ x ∈ steps, ∀ server, x.label = .poll server →
      (AllReflected lib x.after ↔ ∀ pr ∈ x.before.1,
        pr.Reflected lib x.before.2.store ∨ pr ∈ fetched rt env server x.before.2.store) := by
    refine run.forall_taken distinct (fun distinct taken => taken.distinct configured distinct) ?_
    rintro s event t distinct taken server rfl
    exact taken.current_iff configured distinct
  refine ⟨polls, fun initially timely x hx server poll => ?_⟩
  have initial : Distinct start ∧ NoneBehind lib rt start := ⟨distinct, initially⟩
  have kept : ∀ {s event t}, Distinct s ∧ NoneBehind lib rt s →
      Steps lib rt settings env s event t →
      Timely lib rt env s event t → Distinct t ∧ NoneBehind lib rt t := fun before taken timely =>
    ⟨taken.distinct configured before.1, taken.noneBehind configured before.1 before.2 timely⟩
  obtain ⟨-, each⟩ := run.forall_of_met initial kept timely
  obtain ⟨tracked, taken⟩ := each x hx
  have here := timely x hx
  rw [poll] at here taken
  exact (polls x hx server poll).mpr (tracked.2.fetched taken.2.1 here)

end PullRequestEvent

end Poll

section Example

namespace PullRequestEvent

def openedPr : GitHubPRData :=
  { id := 7, number := 1, title := "Fix", state := "open",
    updatedAt := some "2026-05-01T12:00:00Z" }

def renamedPr : GitHubPRData :=
  { openedPr with title := "Fix race", updatedAt := some "2026-05-02T12:00:00Z" }

/-- A server whose repositories have one pull request. -/
def onePrServer (pr : GitHubPRData) : GitHubServer := ⟨fun _ _ _ => [], fun _ _ => [pr]⟩

/-- A poll that finds one pull request. -/
def onePrPoll (pr : GitHubPRData) (script : List (Move Exn Choice)) (σ : State Unit) :
    Option (Unit × State Unit) :=
  postgres.outcome () script
    (syncGithubPullRequests (calendar mayDays) summaryRuntime {} omnisyncEnv)
    (σ.facing (onePrServer pr).remote)

/-- The pull request is polled, renamed, and polled again. -/
def renamedRun : Option (State Unit × State Unit) := do
  let (_, opened) ← onePrPoll openedPr
    ([.step (.text "c"), .step (.draw 1 0), .step .none, .step .none, .step (.pullRequests []),
      .step .none, .step (.draw 2 0), .step (.time 0)] ++ createScript 3 ++
      [.step .none, .step .none]) ⟨{}, ∅, []⟩
  let (_, renamed) ← onePrPoll renamedPr
    ([.step (.text "d"), .step (.draw 11 0), .step .none, .step .none, .step (.pullRequests []),
      .step .none, .step (.time 0)] ++ changeScript 13 ++ [.step .none, .step .none]) opened
  return (opened, renamed)

theorem polls_of_renamedRun {σ τ : State Unit} (h : renamedRun = some (σ, τ)) :
    (∃ script, onePrPoll openedPr script ⟨{}, ∅, []⟩ = some ((), σ)) ∧
      ∃ script, onePrPoll renamedPr script σ = some ((), τ) := by
  simp only [renamedRun, Option.bind_eq_bind, Option.bind_eq_some_iff, Prod.exists,
    Option.pure_def, Option.some.injEq, Prod.mk.injEq] at h
  obtain ⟨_, _, first, _, _, second, rfl, rfl⟩ := h
  exact ⟨⟨_, first⟩, _, second⟩

/-- The second poll leaves the event with the new title. -/
theorem pull_requests_current_renamed : ∃ σ τ, renamedRun = some (σ, τ) ∧
    τ.store.normalizedEvents.rows.map NormalizedEvent.content = ["PR #1: Fix race"] ∧
      AllReflected (calendar mayDays) ([renamedPr], τ) := by
  have shape : renamedRun.map (fun x => (sinceText summaryRuntime x.1.store,
      x.2.store.normalizedEvents.rows.map NormalizedEvent.content)) =
        some (some "1970-01-01T00:00:00+00:00", ["PR #1: Fix race"]) := by decide +kernel
  obtain ⟨⟨σ, τ⟩, both, values⟩ := Option.map_eq_some_iff.mp shape
  obtain ⟨watermark, contents⟩ := Prod.mk.inj values
  obtain ⟨⟨_, first⟩, _, second⟩ := polls_of_renamedRun both
  have configured : ¬ (omnisyncEnv.GITHUB_SYNC_OWNER = "" ∨ omnisyncEnv.GITHUB_SYNC_REPO = "") := by
    decide
  have answers (pr : GitHubPRData) : Answers [pr] (page omnisyncEnv (onePrServer pr)) :=
    ⟨Nat.le_of_ble_eq_true rfl, fun _ h => h, List.pairwise_singleton _ _, fun _ h => .inl h⟩
  have opened : Trace (Steps (calendar mayDays) summaryRuntime {} omnisyncEnv) ([], ⟨{}, ∅, []⟩)
      [⟨([], ⟨{}, ∅, []⟩), .update openedPr, ([openedPr], ⟨{}, ∅, []⟩)⟩,
        ⟨([openedPr], ⟨{}, ∅, []⟩), .poll (onePrServer openedPr), ([openedPr], σ)⟩]
      ([openedPr], σ) :=
    .concat (.concat .nil rfl) ⟨rfl, answers openedPr, Engine.completes_of_outcome first⟩
  have rename : Steps (calendar mayDays) summaryRuntime {} omnisyncEnv ([openedPr], σ)
      (.update renamedPr) ([renamedPr], σ) := rfl
  have poll : Steps (calendar mayDays) summaryRuntime {} omnisyncEnv ([renamedPr], σ)
      (.poll (onePrServer renamedPr)) ([renamedPr], τ) :=
    ⟨rfl, answers renamedPr, Engine.completes_of_outcome second⟩
  have run := (opened.concat rename).concat poll
  have distinct : Distinct ([], (⟨{}, ∅, []⟩ : State Unit)) :=
    ⟨fun x hx => (List.not_mem_nil hx).elim, .nil⟩
  refine ⟨σ, τ, both, contents, (pull_requests_current configured distinct run).2
    (fun pr hp => (List.not_mem_nil hp).elim) ?_ _
    (List.mem_append_right _ (List.mem_singleton.mpr rfl)) (onePrServer renamedPr) rfl⟩
  intro x hx
  rcases List.mem_append.mp hx with hx | last
  · rcases List.mem_append.mp hx with hx | third
    · rcases List.mem_cons.mp hx with rfl | second
      · exact fun text impossible => (nomatch impossible)
      · rw [List.mem_singleton.mp second]
        change [openedPr].length < 100
        decide
    · rw [List.mem_singleton.mp third]
      intro text same _
      rw [watermark] at same
      cases same
      decide
  · rw [List.mem_singleton.mp last]
    change [renamedPr].length < 100
    decide

end PullRequestEvent

end Example

end OmniSync
