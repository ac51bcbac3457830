import OmniSync.Data.Calendar
import OmniSync.Integrations.Http

/-!
# Trimming a page of pull requests

GitHub writes a time as its second and a `Z`, and the watermark is a text of `isoformat`. The
client compares the two texts and stops at the first pull request whose text is smaller. On a
page that is sorted by the times of the updates, this keeps exactly the pull requests that were
not updated in an earlier second than the watermark: `pullRequestsOver_sorted`.
-/

namespace OmniSync

open Calendar Txn

/-- A time as GitHub writes it. -/
def githubText (updatedAt : Civil) : String := String.ofList (stamp updatedAt ++ ['Z'])

def utc : UtcOffset := ⟨0, by decide⟩

/-- The `isoformat` of a UTC datetime. -/
def watermarkText (watermark : Civil) : String := String.ofList (isoformat ⟨watermark, some utc⟩)

/-- A pull request of a page, with the time of its last update. -/
structure ListedPr where
  fields : List (String × Json)
  updatedAt : Civil
  dated : (Json.obj fields).get? "updated_at" = .ok (some (.str (githubText updatedAt)))

def ListedPr.json (pr : ListedPr) : Json := .obj pr.fields

/-- The pull request was not updated in an earlier second. -/
def ListedPr.since (watermark : Civil) (pr : ListedPr) : Bool :=
  decide (watermark.totalSeconds ≤ pr.updatedAt.totalSeconds)

section Texts

theorem length_stamp (c : Civil) : (stamp c).length = 19 := by
  simp [stamp, dateText, timeText]

/-- The boundary second: whatever follows it in the watermark comes before `Z`. -/
theorem not_zulu_lt (watermark : Civil) :
    ¬ ['Z'] < fraction watermark.microsecond ++ offsetText utc := by
  have offset : offsetText utc = "+00:00".toList := by decide
  rw [offset, fraction]
  split
  · decide
  · intro less
    rcases List.cons_lt_cons_iff.mp less with first | ⟨same, _⟩
    · exact absurd first (by decide)
    · exact absurd same (by decide)

/-- The texts compare like the seconds. -/
theorem githubText_lt_iff (updatedAt watermark : Civil) :
    githubText updatedAt < watermarkText watermark ↔
      updatedAt.totalSeconds < watermark.totalSeconds := by
  have lengths : (stamp updatedAt).length = (stamp watermark).length :=
    (length_stamp _).trans (length_stamp _).symm
  rw [String.lt_iff, githubText, watermarkText, String.toList_ofList, String.toList_ofList]
  change stamp updatedAt ++ ['Z'] <
    stamp watermark ++ (fraction watermark.microsecond ++ offsetText utc) ↔ _
  rw [Digits.append_lt_append_iff lengths, stamp_lt_iff]
  constructor
  · rintro (less | ⟨_, less⟩)
    · exact less
    · exact (not_zulu_lt watermark less).elim
  · exact .inl

theorem githubText_ne_empty (updatedAt : Civil) : githubText updatedAt ≠ "" := by
  intro empty
  have text := congrArg String.toList empty
  rw [githubText, String.toList_ofList] at text
  exact List.append_ne_nil_of_right_ne_nil _ (List.cons_ne_nil _ _) text

theorem watermarkText_ne_empty (watermark : Civil) : watermarkText watermark ≠ "" := by
  intro empty
  have length := congrArg (fun text => text.toList.length) empty
  rw [watermarkText, String.toList_ofList] at length
  change (stamp watermark ++ _).length = 0 at length
  rw [List.length_append, length_stamp] at length
  omega

end Texts

namespace GitHubClient

variable {client : ClientLib} {http : Nat → Except Exn HttpResponse}

/-- What the loop does with one pull request. -/
theorem trimPage_cons (pr : ListedPr) (watermark : Civil) (data : List Json) :
    trimPage (watermarkText watermark) (pr.json :: data) =
      if pr.since watermark then
        (fun data => pr.json :: data) <$> trimPage (watermarkText watermark) data
      else .ok [] := by
  have filled : (some (Json.str (githubText pr.updatedAt))).filter Json.truthy =
      some (.str (githubText pr.updatedAt)) := by
    have truthy : Json.truthy (.str (githubText pr.updatedAt)) = true :=
      bne_iff_ne.mpr (githubText_ne_empty _)
    rw [Option.filter_some, if_pos truthy]
  have dated : pr.json.get? "updated_at" = .ok (some (.str (githubText pr.updatedAt))) := pr.dated
  obtain ⟨created, present⟩ : ∃ created, pr.json.get? "created_at" = .ok created := ⟨_, rfl⟩
  rw [trimPage, dated, present]
  simp only [bind, Except.bind, filled, Option.some_or]
  change (if githubText pr.updatedAt < watermarkText watermark then _ else _) = _
  rw [ListedPr.since]
  by_cases older : pr.updatedAt.totalSeconds < watermark.totalSeconds
  · rw [if_pos ((githubText_lt_iff _ _).mpr older), if_neg]
    · rfl
    · simpa using older
  · rw [if_neg (mt (githubText_lt_iff _ _).mp older), if_pos]
    simpa using older

/-- Stopping early loses nothing, as the later ones are no younger. -/
theorem trimPage_sorted {page : List ListedPr} (watermark : Civil)
    (sorted : page.Pairwise (fun a b => b.updatedAt.totalSeconds ≤ a.updatedAt.totalSeconds)) :
    trimPage (watermarkText watermark) (page.map ListedPr.json) =
      .ok ((page.filter (ListedPr.since watermark)).map ListedPr.json) := by
  induction page with
  | nil => rfl
  | cons pr page ih =>
      obtain ⟨older, sorted⟩ := List.pairwise_cons.mp sorted
      rw [List.map_cons, trimPage_cons]
      by_cases kept : pr.since watermark = true
      · rw [if_pos kept, ih sorted, List.filter_cons_of_pos kept]
        rfl
      · rw [if_neg kept, List.filter_cons_of_neg kept]
        have none : page.filter (ListedPr.since watermark) = [] := by
          apply List.filter_eq_nil_iff.mpr
          intro later member since
          apply kept
          exact decide_eq_true ((of_decide_eq_true since).trans (older later member))
        rw [none]
        rfl

/-- `get_pull_requests` returns the pull requests of the page that were not updated in an
earlier second than the watermark, in the order of the page. -/
theorem pullRequestsOver_sorted {page : List ListedPr} (watermark : Civil)
    (sorted : page.Pairwise (fun a b => b.updatedAt.totalSeconds ≤ a.updatedAt.totalSeconds))
    (fetched : request client http = .ok (.arr (page.map ListedPr.json))) (owner repo : String) :
    pullRequestsOver client http owner repo (some (watermarkText watermark)) =
      Prog.ofAnswer (((page.filter (ListedPr.since watermark)).map ListedPr.json).mapM
        client.validatePr) := by
  have trimmed := trimPage_sorted watermark sorted
  rw [pullRequestsOver, fetched]
  change Prog.ofAnswer ((pageOf _ (.arr (page.map ListedPr.json))).bind _) = _
  rw [pageOf, if_neg (watermarkText_ne_empty watermark)]
  change Prog.ofAnswer ((trimPage _ (page.map ListedPr.json)).bind _) = _
  rw [trimmed]
  rfl

end GitHubClient

section Sample

/-- A second after noon. -/
def afterNoon (second microsecond : Nat) (h : second < 60) (h' : microsecond < 1000000) : Civil :=
  ⟨2026, 6, 21, 12, 0, second, microsecond, by decide, by decide, by decide, by decide, by decide,
    h, h'⟩

def listedPr (number : Nat) (second : Nat) (h : second < 60) : ListedPr where
  fields := [("id", .int number), ("number", .int number), ("title", .str "Fix race"),
    ("state", .str "open"), ("updated_at", .str (githubText (afterNoon second 0 h (by decide))))]
  updatedAt := afterNoon second 0 h (by decide)
  dated := rfl

/-- The page of three pull requests. -/
def threePrs : List ListedPr :=
  [listedPr 3 9 (by decide), listedPr 2 5 (by decide), listedPr 1 4 (by decide)]

def validateListed (pr : Json) : Except Exn GitHubPRData :=
  match pr with
  | .obj [(_, .int id), (_, .int number), (_, .str title), (_, .str state), (_, .str updatedAt)] =>
      .ok { id := id, number := number, title := title, state := state, updatedAt := some updatedAt }
  | _ => .error ⟨"ValidationError", "Field required"⟩

def listingClient : ClientLib where
  int _ := .ok 0
  str _ := ""
  validateCommit _ := .error ⟨"ValidationError", "Field required"⟩
  validatePr := validateListed
  printRetryError e := e.kind

def threePrsPage (_ : Nat) : Except Exn HttpResponse :=
  .ok { statusCode := 200, json := .ok (.arr (threePrs.map ListedPr.json)) }

/-- The pull request of the second of the watermark is returned, the one before it is not. -/
theorem pullRequestsOver_boundary :
    watermarkText (afterNoon 5 250000 (by decide) (by decide)) =
        "2026-06-21T12:00:05.250000+00:00" ∧
      GitHubClient.pullRequestsOver listingClient threePrsPage "acme" "app" (some (watermarkText
          (afterNoon 5 250000 (by decide) (by decide)))) =
        Prog.ofAnswer (([listedPr 3 9 (by decide), listedPr 2 5 (by decide)].map
          ListedPr.json).mapM validateListed) := by
  refine ⟨by decide, ?_⟩
  have sorted : threePrs.Pairwise (fun a b =>
      b.updatedAt.totalSeconds ≤ a.updatedAt.totalSeconds) := by decide
  have kept : threePrs.filter (ListedPr.since (afterNoon 5 250000 (by decide) (by decide))) =
      [listedPr 3 9 (by decide), listedPr 2 5 (by decide)] := by
    rw [threePrs, List.filter_cons_of_pos (by decide +kernel),
      List.filter_cons_of_pos (by decide +kernel), List.filter_cons_of_neg (by decide +kernel),
      List.filter_nil]
  have fetched : GitHubClient.request listingClient threePrsPage =
      .ok (.arr (threePrs.map ListedPr.json)) := rfl
  have exact := GitHubClient.pullRequestsOver_sorted (afterNoon 5 250000 (by decide) (by decide))
    sorted fetched "acme" "app"
  rw [kept] at exact
  apply exact

end Sample

end OmniSync
