import OmniSync.Data.Code
import OmniSync.Data.Trace
import OmniSync.Imap.Delivery

/-!
# The identity of a message without a Message-ID

The external id of such a message contains the number under which it was fetched. That is its
sequence number, its position in the folder, although the key is meant to be built from its
UID: an expunge moves all later messages, and their ids with them. The ids are stable exactly
in the histories in which the numbers are.
-/

namespace OmniSync

open Txn

/-- A folder in one epoch of its UIDs. -/
structure Folder where
  uidvalidity : Option String
  messages : List Mail := []
  uidnext : Nat := 1

/-- What happens to a folder. -/
inductive FolderEvent where
  | append (m : Mail)
  | expunge (uid : Nat)
  | poll (since : Option Datetime) (refuses : Nat → Bool) (now : Nat → Datetime)

namespace Folder

/-- A new message gets a new UID and the last position. A poll leaves the folder alone. -/
def Steps (f : Folder) (event : FolderEvent) (g : Folder) : Prop :=
  match event with
  | .append m =>
      m.uid = f.uidnext ∧ g = { f with messages := f.messages ++ [m], uidnext := f.uidnext + 1 }
  | .expunge uid => g = { f with messages := f.messages.filter (fun m => decide (m.uid ≠ uid)) }
  | .poll _ _ _ => g = f

def server (f : Folder) (host : String) (refuses : Nat → Bool) (now : Nat → Datetime) :
    MailServer Letter where
  host := host
  uidvalidity := f.uidvalidity
  messages := f.messages
  refuses := refuses
  now := now

end Folder

/-- A poll fetches a message under a number, and this is what it makes of it. -/
def Fetches (host folder : String) (x : Taken Folder FolderEvent) (n : Nat) (m : Mail)
    (raw : RawMessage) : Prop :=
  match x.label with
  | .poll since refuses now =>
      n ∈ IMAPClient.lastOf 100 (IMAPClient.search (x.before.server host refuses now) since) ∧
        IMAPClient.fetch (x.before.server host refuses now) n = some m ∧
          raw = IMAPClient.messageOf (x.before.server host refuses now) folder n m.email
  | _ => False

/-- Two messages without a Message-ID never receive the same external id, and a message
receives the same one in every poll that fetches it. -/
def StableIds (host folder : String) (steps : List (Taken Folder FolderEvent)) : Prop :=
  ∀ x ∈ steps, ∀ y ∈ steps, ∀ n n' m m' raw raw', Fetches host folder x n m raw →
    Fetches host folder y n' m' raw' →
      (m.email.messageId = "" → m'.email.messageId = "" → m ≠ m' →
        buildExternalId raw ≠ buildExternalId raw') ∧
      (m = m' → buildExternalId raw = buildExternalId raw')

/-- Two fetches of messages without a Message-ID have the same number if and only if they fetch
the same message. -/
def FixedNumbers (host folder : String) (steps : List (Taken Folder FolderEvent)) : Prop :=
  ∀ x ∈ steps, ∀ y ∈ steps, ∀ n n' m m' raw raw', Fetches host folder x n m raw →
    Fetches host folder y n' m' raw' → m.email.messageId = "" → m'.email.messageId = "" → (n = n' ↔ m = m')

section Stable

variable {host folder : String} {f g : Folder} {steps : List (Taken Folder FolderEvent)}
variable {x y : Taken Folder FolderEvent} {n n' : Nat} {m m' : Mail} {raw raw' : RawMessage}

/-- The messages of a poll are those that the client returns. -/
theorem exists_fetches {since : Option Datetime} {refuses : Nat → Bool} {now : Nat → Datetime}
    (poll : x.label = .poll since refuses now) :
    raw ∈ IMAPClient.fetchLetters (x.before.server host refuses now) folder since ↔
      ∃ n m, Fetches host folder x n m raw := by
  unfold Fetches IMAPClient.fetchLetters
  simp only [poll, List.mem_filterMap, Option.map_eq_some_iff]
  constructor
  · rintro ⟨n, last, m, fetched, rfl⟩
    exact ⟨n, m, last, fetched, rfl⟩
  · rintro ⟨n, m, last, fetched, rfl⟩
    exact ⟨n, last, m, fetched, rfl⟩

theorem Folder.Steps.uidvalidity {event : FolderEvent} (h : f.Steps event g) :
    g.uidvalidity = f.uidvalidity := by
  cases event with
  | append m => rw [h.2]
  | expunge uid => rw [h]
  | poll since refuses now => rw [h]

/-- The external id of what is fetched. -/
theorem Fetches.externalId (h : Fetches host folder x n m raw) : buildExternalId raw =
    if m.email.messageId ≠ "" then "imap-mid-" ++ m.email.messageId
    else
      "imap-" ++ host ++ "-" ++ folder ++ "-" ++ (match x.before.uidvalidity with
        | some value => if value = "" then "0" else value
        | none => "0") ++ "-" ++ toString n := by
  unfold Fetches at h
  split at h
  · obtain ⟨_, _, rfl⟩ := h
    rfl
  · exact h.elim

theorem Fetches.externalId_inj (h : Fetches host folder x n m raw)
    (h' : Fetches host folder y n' m' raw') (same : x.before.uidvalidity = y.before.uidvalidity)
    (blank : m.email.messageId = "") (blank' : m'.email.messageId = "") :
    buildExternalId raw = buildExternalId raw' ↔ n = n' := by
  rw [h.externalId, h'.externalId, same, if_neg (not_not.mpr blank), if_neg (not_not.mpr blank')]
  rw [String.append_right_inj]
  exact toString_inj

/-- The epoch of the UIDs does not end. -/
theorem uidvalidity_of_mem (run : Trace Folder.Steps f steps g) :
    ∀ x ∈ steps, x.before.uidvalidity = f.uidvalidity :=
  @Trace.forall_taken _ _ _ _ _ _ run (fun g => g.uidvalidity = f.uidvalidity) rfl
    (fun before taken => taken.uidvalidity.trans before)
    (fun x => x.before.uidvalidity = f.uidvalidity) (fun before _ => before)

/-- The external ids are stable if and only if the sequence numbers are. -/
theorem external_ids_stable (run : Trace Folder.Steps f steps g) :
    StableIds host folder steps ↔ FixedNumbers host folder steps := by
  have epoch : ∀ x ∈ steps, ∀ y ∈ steps, x.before.uidvalidity = y.before.uidvalidity :=
    fun x hx y hy => (uidvalidity_of_mem run x hx).trans (uidvalidity_of_mem run y hy).symm
  constructor
  · intro stable x hx y hy n n' m m' raw raw' first second blank blank'
    obtain ⟨different, same⟩ := stable x hx y hy n n' m m' raw raw' first second
    rw [← first.externalId_inj second (epoch x hx y hy) blank blank']
    exact ⟨fun ids => by_contra fun other => different blank blank' other ids, same⟩
  · intro fixed x hx y hy n n' m m' raw raw' first second
    refine ⟨fun blank blank' other ids => other ?_, ?_⟩
    · rw [first.externalId_inj second (epoch x hx y hy) blank blank'] at ids
      exact (fixed x hx y hy n n' m m' raw raw' first second blank blank').mp ids
    · rintro rfl
      by_cases blank : m.email.messageId = ""
      · rw [first.externalId_inj second (epoch x hx y hy) blank blank]
        exact (fixed x hx y hy n n' m m raw raw' first second blank blank).mpr rfl
      · rw [first.externalId, second.externalId, if_pos blank, if_pos blank]

end Stable

section Appends

variable {host folder : String} {f g : Folder} {steps : List (Taken Folder FolderEvent)}

/-- The UIDs are in use once. -/
structure Folder.Numbered (f : Folder) : Prop where
  once : (f.messages.map Filed.uid).Nodup
  used : ∀ m ∈ f.messages, m.uid < f.uidnext

theorem Folder.Steps.numbered {event : FolderEvent} (taken : f.Steps event g) (h : f.Numbered) :
    g.Numbered := by
  cases event with
  | append m =>
      obtain ⟨next, rfl⟩ := taken
      constructor
      · rw [List.map_append, List.nodup_append]
        refine ⟨h.once, List.nodup_singleton _, ?_⟩
        rintro uid hu uid' hu' rfl
        obtain ⟨m', hm', same⟩ := List.mem_map.mp hu
        rw [List.map_singleton, List.mem_singleton] at hu'
        have bound := h.used m' hm'
        omega
      · intro m' hm'
        change m'.uid < f.uidnext + 1
        rcases List.mem_append.mp hm' with old | new
        · exact Nat.lt_succ_of_lt (h.used m' old)
        · rw [List.mem_singleton.mp new, next]
          exact Nat.lt_succ_self _
  | expunge uid =>
      subst taken
      exact ⟨h.once.sublist (List.filter_sublist.map _), fun m' hm' =>
        h.used m' (List.mem_of_mem_filter hm')⟩
  | poll since refuses now =>
      rw [taken]
      exact h

/-- Where nothing is expunged, messages keep their positions. -/
theorem messages_grow (run : Trace Folder.Steps f steps g)
    (appends : ∀ x ∈ steps, ∀ uid, x.label ≠ .expunge uid) :
    ∀ x ∈ steps, x.before.messages <+: g.messages := by
  induction run with
  | nil => exact fun x hx => (List.not_mem_nil hx).elim
  | @concat steps g' h event _ taken ih =>
      have grows : g'.messages <+: h.messages := by
        cases event with
        | append m =>
            rw [taken.2]
            exact List.prefix_append _ _
        | expunge uid => exact (appends _ (List.mem_concat_self) uid rfl).elim
        | poll since refuses now => rw [taken]
      intro x hx
      rcases List.mem_append.mp hx with old | new
      · exact (ih (fun y hy => appends y (List.mem_append_left _ hy)) x old).trans grows
      · rw [List.mem_singleton.mp new]
        exact grows

theorem position_kept {α : Type} {xs ys : List α} (h : xs <+: ys) {i : Nat} {x : α}
    (there : xs[i]? = some x) : ys[i]? = some x := by
  obtain ⟨rest, rfl⟩ := h
  rw [List.getElem?_append_left (List.getElem?_eq_some_iff.mp there).1]
  exact there

theorem Fetches.there {x : Taken Folder FolderEvent} {n : Nat} {m : Mail} {raw : RawMessage}
    (h : Fetches host folder x n m raw) : 0 < n ∧ x.before.messages[n - 1]? = some m := by
  unfold Fetches at h
  split at h
  · obtain ⟨last, fetched, _⟩ := h
    obtain ⟨positive, _⟩ := IMAPClient.mem_search.mp (IMAPClient.mem_of_mem_lastOf last)
    unfold IMAPClient.fetch at fetched
    split at fetched
    · cases fetched
    · exact ⟨positive, fetched⟩
  · exact h.elim

/-- Where nothing is expunged, the numbers, and so the external ids, are stable. -/
theorem fixedNumbers_of_appends (numbered : f.Numbered) (run : Trace Folder.Steps f steps g)
    (appends : ∀ x ∈ steps, ∀ uid, x.label ≠ .expunge uid) : FixedNumbers host folder steps := by
  have once : g.messages.Nodup :=
    (run.invariant numbered (fun h taken => taken.numbered h)).once.of_map
  intro x hx y hy n n' m m' raw raw' first second _ _
  obtain ⟨positive, there⟩ := first.there
  obtain ⟨positive', there'⟩ := second.there
  have now := position_kept (messages_grow run appends x hx) there
  have now' := position_kept (messages_grow run appends y hy) there'
  constructor
  · rintro rfl
    exact Option.some.inj (now.symm.trans now')
  · rintro rfl
    have bound := (List.getElem?_eq_some_iff.mp now).1
    have same := (List.getElem?_inj bound once).mp (now.trans now'.symm)
    omega

end Appends

section Example

/-- A message without a Message-ID. -/
def note (uid : Nat) (subject : String) : Mail where
  uid := uid
  arrival := 0
  email := ⟨"", subject, "", none, ""⟩

def emptyFolder : Folder := ⟨some "1", [], 1⟩

def oneNote : Folder := ⟨some "1", [note 1 "a"], 2⟩

def twoNotes : Folder := ⟨some "1", [note 1 "a", note 2 "b"], 3⟩

def secondNote : Folder := ⟨some "1", [note 2 "b"], 3⟩

def pollAll : FolderEvent := .poll none delivers noon

/-- Two messages, each of them polled. -/
def noteSteps : List (Taken Folder FolderEvent) :=
  [⟨emptyFolder, .append (note 1 "a"), oneNote⟩, ⟨oneNote, pollAll, oneNote⟩,
    ⟨oneNote, .append (note 2 "b"), twoNotes⟩, ⟨twoNotes, pollAll, twoNotes⟩]

theorem noteSteps_run : Trace Folder.Steps emptyFolder noteSteps twoNotes := by
  have first : emptyFolder.Steps (.append (note 1 "a")) oneNote := ⟨rfl, rfl⟩
  have poll : oneNote.Steps pollAll oneNote := rfl
  have second : oneNote.Steps (.append (note 2 "b")) twoNotes := ⟨rfl, rfl⟩
  have poll' : twoNotes.Steps pollAll twoNotes := rfl
  exact .concat (.concat (.concat (.concat .nil first) poll) second) poll'

theorem external_ids_stable_notes : StableIds "mail" "INBOX" noteSteps := by
  refine (external_ids_stable noteSteps_run).mpr (fixedNumbers_of_appends ?_ noteSteps_run ?_)
  · exact ⟨List.nodup_nil, fun m hm => (List.not_mem_nil hm).elim⟩
  · intro x hx uid
    simp only [noteSteps, List.mem_cons, List.not_mem_nil, or_false] at hx
    rcases hx with rfl | rfl | rfl | rfl <;> exact fun impossible => by cases impossible

/-- The expunge of the first message gives its id to the second one. -/
theorem external_ids_unstable : ¬ ∀ steps g, Trace Folder.Steps emptyFolder steps g →
    StableIds "mail" "INBOX" steps := by
  intro stable
  have expunge : twoNotes.Steps (.expunge 1) secondNote := rfl
  have poll : secondNote.Steps pollAll secondNote := rfl
  have run : Trace Folder.Steps emptyFolder
      (noteSteps ++ [⟨twoNotes, .expunge 1, secondNote⟩] ++ [⟨secondNote, pollAll, secondNote⟩])
      secondNote := .concat (.concat noteSteps_run expunge) poll
  have before : Fetches "mail" "INBOX" ⟨oneNote, pollAll, oneNote⟩ 1 (note 1 "a")
      (IMAPClient.messageOf (oneNote.server "mail" delivers noon) "INBOX" 1 (note 1 "a").email) :=
    ⟨by decide, rfl, rfl⟩
  have after : Fetches "mail" "INBOX" ⟨secondNote, pollAll, secondNote⟩ 1 (note 2 "b")
      (IMAPClient.messageOf (secondNote.server "mail" delivers noon) "INBOX" 1 (note 2 "b").email) :=
    ⟨by decide, rfl, rfl⟩
  exact (stable _ _ run _ (by simp [noteSteps]) _ (by simp) 1 1 _ _ _ _ before after).1 rfl rfl
    (by decide) rfl

end Example

end OmniSync
