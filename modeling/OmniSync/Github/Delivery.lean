import OmniSync.Github.Lineage

/-!
# Which commits a poll reaches

Commits are pushed to a repository, polls run in between, and other things happen: webhooks, and
requests that sync other repositories. A poll stores one page of the commits that are not older
than the watermark, so it leaves a commit without an event exactly when the page does not have
it. The watermark is the latest author date of any commit event, of whatever repository, but the
server compares it with committer dates.
-/

namespace OmniSync

open Txn

/-- A commit of the repository, with its committer date. -/
structure UpstreamCommit where
  data : GitHubCommitData
  committed : Time

namespace UpstreamCommit

/-- The key of the event of the commit. -/
def key (c : UpstreamCommit) : String × String := ("github", c.data.sha)

def HasEvent (s : Store) (c : UpstreamCommit) : Prop := s.normalizedEvents.find c.key ≠ none

end UpstreamCommit

/-- A repository that is polled, and how its server reads `since`. -/
structure CommitSource where
  env : GitHubEnv
  configured : ¬ (env.GITHUB_SYNC_OWNER = "" ∨ env.GITHUB_SYNC_REPO = "")
  read : String → Option Time

/-- What happens: a commit is pushed, a poll returns for which the server has answered with a
page, or something else. -/
inductive CommitEvent where
  | push (c : UpstreamCommit)
  | poll (server : GitHubServer) (page : List UpstreamCommit)
  | other

namespace CommitSource

variable (S : CommitSource) (lib : DatetimeLib) (rt : Runtime) (settings : Settings)

/-- The text of the watermark. -/
def since (s : Store) : Option String := (s.watermark "github" (some "commit")).map rt.isoformat

/-- The commit is not older than `since`. -/
def Sought (since : Option String) (c : UpstreamCommit) : Prop :=
  ∀ text t, since = some text → S.read text = some t → t ≤ c.committed

/-- A page of the server: at most a hundred commits, and the newest ones. -/
structure Answers (history : List UpstreamCommit) (since : Option String)
    (page : List UpstreamCommit) : Prop where
  few : page.length ≤ 100
  upstream : ∀ c ∈ page, c ∈ history ∧ S.Sought since c
  newest : ∀ c ∈ history, S.Sought since c →
    c ∈ page ∨ page.length = 100 ∧ ∀ d ∈ page, c.committed ≤ d.committed

/-- A commit is pushed, a poll returns, or something happens that deletes no event. -/
def Steps (s : List UpstreamCommit × State Unit) (event : CommitEvent)
    (t : List UpstreamCommit × State Unit) : Prop :=
  match event with
  | .push c => t = (c :: s.1, s.2)
  | .poll server page =>
      t.1 = s.1 ∧ S.Answers s.1 (since rt s.2.store) page ∧
        server.getCommits S.env.GITHUB_SYNC_OWNER S.env.GITHUB_SYNC_REPO (since rt s.2.store) =
          page.map UpstreamCommit.data ∧
          postgres.Completes () (syncGithubCommits lib rt settings S.env)
            (s.2.facing server.remote) () t.2
  | .other => t.1 = s.1 ∧ t.2.store.EventIdsUnique ∧
      ∀ k, s.2.store.normalizedEvents.find k ≠ none → t.2.store.normalizedEvents.find k ≠ none

/-- Every commit of the repository has an event. -/
def Complete (s : List UpstreamCommit × State Unit) : Prop :=
  ∀ c ∈ s.1, c.HasEvent s.2.store

/-- Every commit has an event, or the page has it. -/
def NoneMissed (s : List UpstreamCommit × State Unit) (page : List UpstreamCommit) : Prop :=
  ∀ c ∈ s.1, c.HasEvent s.2.store ∨ ∃ d ∈ page, d.key = c.key

/-- Every commit has an event, or would be sought by a poll. -/
def NoneBehind (s : List UpstreamCommit × State Unit) : Prop :=
  ∀ c ∈ s.1, c.HasEvent s.2.store ∨ S.Sought (since rt s.2.store) c

/-- A commit is pushed with a committer date that the watermark has not passed. The page of a
poll is not full. Nothing else moves the watermark past a commit without an event. -/
def Timely (s : List UpstreamCommit × State Unit) (event : CommitEvent)
    (t : List UpstreamCommit × State Unit) : Prop :=
  match event with
  | .push c => S.Sought (since rt s.2.store) c
  | .poll _ page => page.length < 100
  | .other => ∀ c ∈ s.1, ¬ c.HasEvent t.2.store → S.Sought (since rt t.2.store) c

end CommitSource

section Poll

variable {S : CommitSource} {lib : DatetimeLib} {rt : Runtime} {settings : Settings}
variable {s t start : List UpstreamCommit × State Unit} {event : CommitEvent}
variable {server : GitHubServer} {page : List UpstreamCommit}

/-- The ids of the events are unique: all that the polls need. -/
theorem eventIdsUnique_keptByPolls : KeptByPolls rt (fun σ => σ.store.EventIdsUnique) where
  ids _ unique := unique
  saves _ _ _ := ⟨fun _ _ unique => unique, fun _ _ unique => unique⟩
  logs σ ws only unique := by
    unfold Store.EventIdsUnique
    rw [Engine.publish_store, (sameContent_of_onlyLogs (s := σ.store) only).normalizedEvents]
    exact unique

theorem eventIdsUnique_commits (s : Store) (items : List GitHubItem) :
    CommitsPolls lib rt settings (fun σ => σ.store.EventIdsUnique) s items :=
  fun _ _ _ _ _ _ stored unique => stored.pending unique

/-- What a run leaves that returns, on any path. -/
theorem GitHubPath.pollLeft {path : GitHubPath} {σ τ : State Unit} (configured : path.Configured)
    (unique : σ.store.EventIdsUnique)
    (h : postgres.Completes () (path.prog lib rt settings) (σ.facing server.remote) () τ) :
    τ.store.EventIdsUnique ∧
      PollLeft lib rt settings (path.items rt server σ.store) σ.store τ.store := by
  have remote : (σ.facing server.remote).world.remote = server.remote := rfl
  have left := GitHubPath.completes configured eventIdsUnique_keptByPolls remote
    (eventIdsUnique_commits _ _) (facing_ids unique) h
  exact left

namespace CommitSource

/-- What a poll leaves of the events. -/
theorem hasEvent_of_poll (unique : s.2.store.EventIdsUnique)
    (h : S.Steps lib rt settings s (.poll server page) t) :
    t.2.store.EventIdsUnique ∧ ∀ c : UpstreamCommit, c.HasEvent t.2.store ↔
      c.HasEvent s.2.store ∨ ∃ d ∈ page, d.key = c.key := by
  obtain ⟨_, _, answered, run⟩ := h
  have configured : (GitHubPath.commits S.env).Configured := S.configured
  obtain ⟨ids, left⟩ := GitHubPath.pollLeft configured unique run
  have fetched : (GitHubPath.commits S.env).items rt server s.2.store =
      page.map (fun d => .commit d.data) := by
    change (server.getCommits S.env.GITHUB_SYNC_OWNER S.env.GITHUB_SYNC_REPO
      (since rt s.2.store)).map GitHubItem.commit = _
    rw [answered, List.map_map]
    rfl
  refine ⟨ids, fun c => ?_⟩
  unfold UpstreamCommit.HasEvent
  rw [left.find_iff, fetched]
  refine or_congr_right ⟨?_, ?_⟩
  · rintro ⟨item, hi, key⟩
    obtain ⟨d, hd, rfl⟩ := List.mem_map.mp hi
    exact ⟨d, hd, key⟩
  · rintro ⟨d, hd, key⟩
    exact ⟨_, List.mem_map_of_mem hd, key⟩

theorem Steps.ids (unique : s.2.store.EventIdsUnique) (h : S.Steps lib rt settings s event t) :
    t.2.store.EventIdsUnique := by
  cases event with
  | push c =>
      cases h
      exact unique
  | poll server page => exact (hasEvent_of_poll unique h).1
  | other => exact h.2.1

/-- A poll is complete if and only if it misses nothing. -/
theorem Steps.complete_iff (unique : s.2.store.EventIdsUnique)
    (h : S.Steps lib rt settings s (.poll server page) t) :
    Complete t ↔ NoneMissed s page := by
  have each := (hasEvent_of_poll unique h).2
  unfold Complete NoneMissed
  rw [h.1]
  exact forall₂_congr (fun c _ => each c)

theorem NoneBehind.noneMissed (behind : S.NoneBehind rt s)
    (answers : S.Answers s.1 (since rt s.2.store) page) (few : page.length < 100) :
    NoneMissed s page := by
  intro c hc
  refine (behind c hc).imp_right (fun sought => ⟨c, ?_, rfl⟩)
  exact (answers.newest c hc sought).resolve_right (fun full => few.ne full.1)

theorem Steps.noneBehind (unique : s.2.store.EventIdsUnique) (before : S.NoneBehind rt s)
    (h : S.Steps lib rt settings s event t) (timely : S.Timely rt s event t) :
    S.NoneBehind rt t := by
  cases event with
  | push c =>
      cases h
      exact List.forall_mem_cons.mpr ⟨.inr timely, before⟩
  | poll server page =>
      have complete := (h.complete_iff unique).mpr (before.noneMissed h.2.1 timely)
      exact fun c hc => .inl (complete c hc)
  | other =>
      intro c hc
      rw [h.1] at hc
      by_cases stored : c.HasEvent t.2.store
      · exact .inl stored
      · exact .inr (timely c hc stored)

/-- The ids are unique, and no commit is left behind. -/
def Tracked (S : CommitSource) (rt : Runtime) (s : List UpstreamCommit × State Unit) : Prop :=
  s.2.store.EventIdsUnique ∧ S.NoneBehind rt s

end CommitSource

/-- A poll leaves every commit of the repository with an event if and only if the page has all
commits that had none. This is so in every poll of a run in which commits are pushed with
committer dates that the watermark has not passed, pages are not full, and nothing but polls moves
the watermark past a commit without an event. -/
theorem commits_complete {last : List UpstreamCommit × State Unit}
    {steps : List (Taken (List UpstreamCommit × State Unit) CommitEvent)}
    (unique : start.2.store.EventIdsUnique)
    (run : Trace (S.Steps lib rt settings) start steps last) :
    (∀ x ∈ steps, ∀ server page, x.label = .poll server page →
      (CommitSource.Complete x.after ↔ CommitSource.NoneMissed x.before page)) ∧
    (S.NoneBehind rt start → (∀ x ∈ steps, S.Timely rt x.before x.label x.after) →
      ∀ x ∈ steps, ∀ server page, x.label = .poll server page →
        CommitSource.Complete x.after) := by
  have polls : ∀ x ∈ steps, ∀ server page, x.label = .poll server page →
      (CommitSource.Complete x.after ↔ CommitSource.NoneMissed x.before page) := by
    refine run.forall_taken unique (fun unique taken => taken.ids unique) ?_
    rintro s l t unique taken server page rfl
    exact taken.complete_iff unique
  refine ⟨polls, fun initially timely x hx server page poll => ?_⟩
  have kept : ∀ {s event t}, S.Tracked rt s → S.Steps lib rt settings s event t →
      S.Timely rt s event t → S.Tracked rt t :=
    fun before taken timely => ⟨taken.ids before.1, taken.noneBehind before.1 before.2 timely⟩
  have initial : S.Tracked rt start := ⟨unique, initially⟩
  obtain ⟨_, each⟩ := run.forall_of_met initial kept timely
  obtain ⟨tracked, taken⟩ := each x hx
  have here := timely x hx
  rw [poll] at here taken
  exact (polls x hx server page poll).mpr (tracked.2.noneMissed taken.2.1 here)

end Poll

section Example

/-- A repository whose server reads the text of the epoch, and no other one. -/
def omnisyncSource : CommitSource where
  env := omnisyncEnv
  configured := by
    change ¬ ("leakull" = "" ∨ "omnisync" = "")
    decide
  read text := if text = "1970-01-01T00:00:00+00:00" then some 0 else none

def firstPush : UpstreamCommit := ⟨firstCommit, 0⟩

def secondPush : UpstreamCommit := ⟨secondCommit, 1⟩

/-- A server whose repositories have two commits. -/
def twoCommitServer : GitHubServer := ⟨fun _ _ _ => [secondCommit, firstCommit], fun _ _ => []⟩

/-- The poll of a page with a new commit and a known one. -/
def secondCommitPoll : Option (Unit × State Unit) :=
  (firstCommitPoll summaryRuntime).bind (fun x => postgres.outcome ()
    [.step (.text "d"), .step (.draw 11 0), .step .none, .step .none, .step (.commits []),
      .step .none, .step (.draw 12 0), .step (.time 0), .step (.time 0), .step (.time 0),
      .step .none, .step (.draw 13 0), .step (.draw 14 0), .step .none, .step .none, .step .none,
      .step .none, .step (.draw 15 0), .step .none, .step (.draws [(16, 0), (17, 0)]), .step .none,
      .step .none, .step .none]
    ((GitHubPath.commits omnisyncEnv).prog (calendar mayDays) summaryRuntime {})
    (x.2.facing twoCommitServer.remote))

/-- A commit is pushed and polled, and then another one, which is not older than the watermark. -/
theorem commits_complete_twice : ∃ σ τ, (firstCommitPoll summaryRuntime).map Prod.snd = some σ ∧
    CommitSource.since summaryRuntime σ.store = some "1970-01-01T00:00:00+00:00" ∧
      secondCommitPoll.map Prod.snd = some τ ∧
        CommitSource.Complete ([secondPush, firstPush], τ) := by
  have shape : secondCommitPoll.map (fun x => x.1) = some () := by decide +kernel
  have stored : (firstCommitPoll summaryRuntime).map
      (fun x => CommitSource.since summaryRuntime x.2.store) =
        some (some "1970-01-01T00:00:00+00:00") := by decide +kernel
  obtain ⟨⟨_, τ⟩, second, _⟩ := Option.map_eq_some_iff.mp shape
  obtain ⟨⟨_, σ⟩, first, since⟩ := Option.map_eq_some_iff.mp stored
  have returned := second
  rw [secondCommitPoll, first, Option.bind_some] at second
  have unique : (⟨{}, ∅, []⟩ : State Unit).store.EventIdsUnique :=
    fun x hx => (List.not_mem_nil hx).elim
  have sought : ∀ c, omnisyncSource.Sought none c := by
    intro c text t impossible
    cases impossible
  -- The watermark reads as the epoch, and both committer dates are at or after it.
  have later : ∀ c ∈ [secondPush, firstPush],
      omnisyncSource.Sought (CommitSource.since summaryRuntime σ.store) c := by
    rintro c hc text t same read
    rw [since] at same
    cases same
    cases read
    simp only [List.mem_cons, List.not_mem_nil, or_false] at hc
    rcases hc with rfl | rfl
    · exact Int.zero_le_ofNat 1
    · exact Int.le_refl 0
  have pushed : omnisyncSource.Steps (calendar mayDays) summaryRuntime {} ([], ⟨{}, ∅, []⟩)
      (.push firstPush) ([firstPush], ⟨{}, ∅, []⟩) := rfl
  have polled : omnisyncSource.Steps (calendar mayDays) summaryRuntime {}
      ([firstPush], ⟨{}, ∅, []⟩) (.poll oneCommitServer [firstPush]) ([firstPush], σ) :=
    ⟨rfl, ⟨by decide, fun c hc => ⟨hc, sought c⟩, fun c hc _ => .inl hc⟩, rfl,
      Engine.completes_of_outcome first⟩
  have pushed' : omnisyncSource.Steps (calendar mayDays) summaryRuntime {} ([firstPush], σ)
      (.push secondPush) ([secondPush, firstPush], σ) := rfl
  have polled' : omnisyncSource.Steps (calendar mayDays) summaryRuntime {}
      ([secondPush, firstPush], σ) (.poll twoCommitServer [secondPush, firstPush])
      ([secondPush, firstPush], τ) :=
    ⟨rfl, ⟨by decide, fun c hc => ⟨hc, later c hc⟩, fun c hc _ => .inl hc⟩, rfl,
      Engine.completes_of_outcome second⟩
  have run := (((Trace.concat .nil pushed).concat polled).concat pushed').concat polled'
  have none : omnisyncSource.NoneBehind summaryRuntime ([], ⟨{}, ∅, []⟩) :=
    fun c hc => (List.not_mem_nil hc).elim
  refine ⟨σ, τ, by rw [first]; rfl, since, by rw [returned]; rfl, (commits_complete unique run).2
    none ?_ _ (List.mem_append_right _ (List.mem_singleton.mpr rfl)) twoCommitServer
    [secondPush, firstPush] rfl⟩
  intro x hx
  simp only [List.mem_append, List.mem_singleton, List.not_mem_nil, false_or] at hx
  rcases hx with ((rfl | rfl) | rfl) | rfl
  · exact sought firstPush
  · change [firstPush].length < 100
    decide
  · exact later secondPush (.head _)
  · change [secondPush, firstPush].length < 100
    decide

end Example

section Operations

variable {lib : DatetimeLib} {rt : Runtime} {settings : Settings} {webhooks : WebhookSettings}
variable {σ τ : State Unit}

theorem eventIdsUnique_keptByWebhook (body : String) :
    KeptByWebhook rt body (fun σ => σ.store.EventIdsUnique) where
  ids _ unique := unique
  ticks _ _ unique := unique
  saves _ _ _ := ⟨fun _ _ unique => unique, fun _ _ unique => unique⟩

/-- However far a webhook gets, the ids stay unique. -/
theorem eventIdsUnique_of_webhook {body : String} {signature deliveryHeader : Option String}
    (unique : σ.store.EventIdsUnique)
    (h : postgres.Visits () (githubWebhook lib rt settings webhooks body signature deliveryHeader)
      σ τ) : τ.store.EventIdsUnique := by
  have verified : wp (alone (fun σ : State Unit => σ.store.EventIdsUnique) (fun _ _ _ => True)) ()
      (githubWebhook lib rt settings webhooks body signature deliveryHeader)
      (fun _ _ _ => True) σ [] :=
    wp_mono (wp_githubWebhook (eventIdsUnique_keptByWebhook body)
      (fun _ _ _ _ _ _ _ _ stored unique => stored.pending unique)) (fun _ _ _ _ => trivial)
  exact wp_visits _ (fun _ _ _ => trivial) unique verified h

/-- However far a poll or a sync gets, the ids stay unique. -/
theorem GitHubPath.eventIdsUnique {path : GitHubPath} {server : GitHubServer}
    (configured : path.Configured) (unique : σ.store.EventIdsUnique)
    (h : postgres.Visits () (path.prog lib rt settings) (σ.facing server.remote) τ) :
    τ.store.EventIdsUnique := by
  have remote : (σ.facing server.remote).world.remote = server.remote := rfl
  have verified : wp (alone (fun σ : State Unit => σ.store.EventIdsUnique) (fun _ _ _ => True)) ()
      (path.prog lib rt settings) (fun _ _ _ => True) (σ.facing server.remote) [] :=
    wp_mono (GitHubPath.wp_prog configured eventIdsUnique_keptByPolls remote
      (eventIdsUnique_commits _ _)) (fun _ _ _ _ => trivial)
  exact wp_visits _ (fun _ _ _ => trivial) (facing_ids unique) verified h

end Operations

/-- What happens: a commit is pushed, a poll returns for which the server has answered with a
page, a webhook arrives, or another poll or sync runs, of this or of any other repository. A webhook
that is lost is no event. -/
inductive UpstreamEvent where
  | push (c : UpstreamCommit)
  | poll (server : GitHubServer) (page : List UpstreamCommit)
  | webhook (body : String) (signature deliveryHeader : Option String)
  | run (path : GitHubPath) (server : GitHubServer)

namespace CommitSource

variable (S : CommitSource) (lib : DatetimeLib) (rt : Runtime) (settings : Settings)
variable (webhooks : WebhookSettings)

/-- A commit is pushed under a new sha. Webhooks and other runs may end anywhere. -/
def Happens (s : List UpstreamCommit × State Unit) (event : UpstreamEvent)
    (t : List UpstreamCommit × State Unit) : Prop :=
  match event with
  | .push c => c.key ∉ s.1.map UpstreamCommit.key ∧ t = (c :: s.1, s.2)
  | .poll server page => S.Steps lib rt settings s (.poll server page) t
  | .webhook body signature deliveryHeader => t.1 = s.1 ∧
      postgres.Visits () (githubWebhook lib rt settings webhooks body signature deliveryHeader)
        s.2 t.2
  | .run path server => path.Configured ∧ t.1 = s.1 ∧
      postgres.Visits () (path.prog lib rt settings) (s.2.facing server.remote) t.2

/-- A poll reaches the commits that are not older than the watermark, unless its page is full: then
those that the page has. -/
def Reaches (s : List UpstreamCommit × State Unit) (page : List UpstreamCommit)
    (c : UpstreamCommit) : Prop :=
  S.Sought (since rt s.2.store) c ∧ (page.length < 100 ∨ c ∈ page)

end CommitSource

section Reached

variable {S : CommitSource} {lib : DatetimeLib} {rt : Runtime} {settings : Settings}
variable {webhooks : WebhookSettings} {s t start : List UpstreamCommit × State Unit}
variable {server : GitHubServer} {page : List UpstreamCommit}

/-- The ids of the events are unique, and so are the shas of the commits. -/
def CommitsDistinct (s : List UpstreamCommit × State Unit) : Prop :=
  s.2.store.EventIdsUnique ∧ (s.1.map UpstreamCommit.key).Nodup

namespace CommitSource

theorem Happens.distinct {event : UpstreamEvent} (h : CommitsDistinct s)
    (taken : S.Happens lib rt settings webhooks s event t) : CommitsDistinct t := by
  cases event with
  | push c =>
      obtain ⟨fresh, rfl⟩ := taken
      exact ⟨h.1, List.nodup_cons.mpr ⟨fresh, h.2⟩⟩
  | poll server page => exact ⟨(hasEvent_of_poll h.1 taken).1, taken.1 ▸ h.2⟩
  | webhook body signature deliveryHeader =>
      obtain ⟨history, run⟩ := taken
      exact ⟨eventIdsUnique_of_webhook h.1 run, history ▸ h.2⟩
  | run path server =>
      obtain ⟨configured, history, run⟩ := taken
      exact ⟨path.eventIdsUnique configured h.1 run, history ▸ h.2⟩

end CommitSource

end Reached

section Example

/-- A commit with its author date. -/
def authored (sha message date : String) : GitHubCommitData where
  sha := sha
  commit :=
    { id := sha, message := message, author := some { name := some "Ann", date := some date } }

end Example

end OmniSync
