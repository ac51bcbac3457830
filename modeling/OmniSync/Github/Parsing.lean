import OmniSync.Data.Forall2
import OmniSync.Database.Verification
import OmniSync.Github.Service

/-!
# What is parsed

The event of an item is determined by the item, its raw payload and the time at which it is
parsed. Parsing a list changes nothing, and gives one event for each item.
-/

namespace OmniSync

open Txn

/-- What is fetched from GitHub. -/
inductive GitHubItem where
  | commit (commit : GitHubCommitData)
  | pullRequest (pr : GitHubPRData)

namespace GitHubItem

def externalId : GitHubItem → String
  | commit c => c.sha
  | pullRequest pr => toString pr.id

def key (item : GitHubItem) : String × String := ("github", item.externalId)

def content : GitHubItem → String
  | commit c => c.commit.message
  | pullRequest pr => pr.content

def eventType : GitHubItem → String
  | commit _ => "commit"
  | pullRequest _ => "pull_request"

def date : GitHubItem → Option String
  | commit c => c.commit.author.bind GitHubCommitAuthor.date
  | pullRequest pr => pr.createdAt

def authorId : GitHubItem → String
  | commit c => (c.commit.author.bind GitHubCommitAuthor.email).getD ""
  | pullRequest pr => (pr.user.map GitHubPRUser.login).getD ""

def authorName : GitHubItem → String
  | commit c => (c.commit.author.bind GitHubCommitAuthor.name).getD ""
  | pullRequest pr => (pr.user.map GitHubPRUser.login).getD ""

/-- The event of an item with a given timestamp. -/
def event (lib : DatetimeLib) (item : GitHubItem) (rawPayloadId : Option Uuid)
    (timestamp : Datetime) : NormalizedEventCreate where
  externalId := item.externalId
  source := "github"
  authorId := item.authorId
  authorName := item.authorName
  content := item.content
  eventType := item.eventType
  timestamp := timestamp.instant lib
  rawPayloadId := rawPayloadId
  naive := timestamp.naive

/-- The event that is made of an item at some time. -/
def Makes (lib : DatetimeLib) (rawPayloadId : Uuid) (item : GitHubItem)
    (e : NormalizedEventCreate) : Prop :=
  ∃ now timestamp, itemTimestamp lib item.date now = .ok timestamp ∧
    e = item.event lib (some rawPayloadId) timestamp

end GitHubItem

/-- A parser of items of one kind. -/
def Parses {α : Type} (lib : DatetimeLib) (kind : α → GitHubItem) (parse : ItemParser α) : Prop :=
  ∀ now item repoFullName rawPayloadId, parse now item repoFullName rawPayloadId = (do
    let timestamp ← itemTimestamp lib (kind item).date now
    return (kind item).event lib rawPayloadId timestamp)

theorem parses_commit (lib : DatetimeLib) : Parses lib .commit (parseCommitToEvent lib) :=
  fun _ _ _ _ => rfl

theorem parses_pullRequest (lib : DatetimeLib) : Parses lib .pullRequest (parsePrToEvent lib) :=
  fun _ _ _ _ => rfl

theorem Parses.makes {α : Type} {lib : DatetimeLib} {kind : α → GitHubItem} {parse : ItemParser α}
    (parses : Parses lib kind parse) {now : Time} {item : α} {repoFullName : String}
    {rawPayloadId : Uuid} {e : NormalizedEventCreate}
    (h : parse now item repoFullName (some rawPayloadId) = .ok e) :
    (kind item).Makes lib rawPayloadId e := by
  rw [parses] at h
  cases parsed : itemTimestamp lib (kind item).date now with
  | error _ =>
      rw [parsed] at h
      cases h
  | ok timestamp =>
      rw [parsed] at h
      cases h
      exact ⟨now, timestamp, parsed, rfl⟩

section Parse

variable {α : Type} {lib : DatetimeLib} {kind : α → GitHubItem} {parse : ItemParser α}
variable {inv : State Unit → Prop} {σ : State Unit} {ws : List Write} {rawPayloadId : Uuid}
variable {repoFullName : String}

/-- Parsing a list gives one event for each item. -/
theorem wp_parseItems (parses : Parses lib kind parse)
    (ticks : ∀ σ c, inv σ → inv (withClock σ c)) {events : List NormalizedEventCreate}
    (items : List α) :
    wp (alone inv (fun _ _ _ => True)) () (parseItems parse repoFullName rawPayloadId events items)
      (fun r τ vs => (τ.store = σ.store ∧ σ.world.Idle τ.world ∧ vs = ws) ∧
        ∀ all, r = .ok all → ∃ made, all = events ++ made ∧
          List.Forall₂ (GitHubItem.Makes lib rawPayloadId) (items.map kind) made) σ ws := by
  refine wp_foldlM (fun all rest τ vs => (τ.store = σ.store ∧ σ.world.Idle τ.world ∧ vs = ws) ∧
    ∃ first made, items = first ++ rest ∧ all = events ++ made ∧
      List.Forall₂ (GitHubItem.Makes lib rawPayloadId) (first.map kind) made) ?_ ?_ events items ?_
  · rintro all item rest τ vs ⟨⟨store, idle, rfl⟩, first, made, rfl, rfl, each⟩
    rw [wp_bind]
    refine wp_utcNow (hosts_alone ticks) (fun υ rely _ now => ?_)
    rw [Post.andThen_ok, wp_bind, wp_ofAnswer]
    have same : υ.store = σ.store ∧ σ.world.Idle υ.world ∧ vs = vs :=
      ⟨(alone_store rely).trans store, idle.trans (alone_world rely), rfl⟩
    cases parsed : parse now item repoFullName (some rawPayloadId) with
    | error e => exact ⟨same, fun _ impossible => (nomatch impossible)⟩
    | ok e =>
        refine ⟨same, first ++ [item], made ++ [e], ?_, ?_, ?_⟩
        · rw [List.append_assoc, List.singleton_append]
        · rw [List.append_assoc]
        · rw [List.map_append]
          exact List.rel_append each (.cons (parses.makes parsed) .nil)
  · rintro all τ vs ⟨same, first, made, rfl, rfl, each⟩
    refine ⟨same, ?_⟩
    rintro _ ⟨⟩
    rw [List.append_nil]
    exact ⟨made, rfl, each⟩
  · exact ⟨⟨rfl, World.Idle.refl _, rfl⟩, [], [], rfl, (List.append_nil _).symm, .nil⟩

end Parse

end OmniSync
