import Mathlib.Data.List.Infix

/-!
# Cached connections

A client keeps one connection to a peer and makes its requests on it. Before it uses the
connection again it probes it; when the probe fails it quits the connection and opens another one.
A program over the client keeps what it has done when it raises an error.

Any call may raise any error. The invariant `Sound` says what holds at any moment all the same:
requests have been made only on connections that were connected, logged in and not quit, and every
connection is accounted for.
-/

namespace Cached

section Programs

variable {ε σ α β : Type}

/-- The outcome of the program in state `s`, and the state that it leaves. -/
def ran (x : EStateM ε σ α) (s : σ) : Except ε α × σ :=
  match x s with
  | .ok a t => (.ok a, t)
  | .error e t => (.error e, t)

/-- The outcome of the program in state `s`, and the state that it leaves, meet `Q`. -/
def Ends (x : EStateM ε σ α) (Q : Except ε α → σ → Prop) (s : σ) : Prop :=
  Q (ran x s).1 (ran x s).2

/-- The condition on a program that is followed by others. -/
def andThen (Q : Except ε β → σ → Prop) (next : α → σ → Prop) : Except ε α → σ → Prop
  | .ok a, t => next a t
  | .error e, t => Q (.error e) t

/-- The condition on a program whose errors are handled. -/
def orElse (Q : Except ε α → σ → Prop) (handler : ε → σ → Prop) : Except ε α → σ → Prop
  | .ok a, t => Q (.ok a) t
  | .error e, t => handler e t

variable {x : EStateM ε σ α} {Q Q' : Except ε α → σ → Prop} {s : σ}

theorem ends_throw {e : ε} : Ends (throw e : EStateM ε σ α) Q s ↔ Q (.error e) s := Iff.rfl

theorem ends_ofExcept {r : Except ε α} :
    Ends (MonadExcept.ofExcept r : EStateM ε σ α) Q s ↔ Q r s := by
  cases r <;> exact Iff.rfl

theorem ends_modify {f : σ → σ} {Q : Except ε Unit → σ → Prop} :
    Ends (modify f : EStateM ε σ Unit) Q s ↔ Q (.ok ()) (f s) := Iff.rfl

theorem ends_get_bind {f : σ → EStateM ε σ α} : Ends (get >>= f) Q s ↔ Ends (f s) Q s := Iff.rfl

theorem ends_bind {f : α → EStateM ε σ β} {Q : Except ε β → σ → Prop} :
    Ends (x >>= f) Q s ↔ Ends x (andThen Q (fun a => Ends (f a) Q)) s := by
  have run : (x >>= f) s = EStateM.bind x f s := rfl
  unfold Ends ran
  rw [run, EStateM.bind]
  cases x s <;> rfl

theorem andThen_ok {a : α} {Q : Except ε β → σ → Prop} {next : α → σ → Prop} :
    andThen Q next (.ok a) s ↔ next a s := Iff.rfl

theorem andThen_error {e : ε} {Q : Except ε β → σ → Prop} {next : α → σ → Prop} :
    andThen Q next (.error e) s ↔ Q (.error e) s := Iff.rfl

theorem orElse_error {e : ε} {handler : ε → σ → Prop} :
    orElse Q handler (.error e) s ↔ handler e s := Iff.rfl

theorem ends_tryCatch {handler : ε → EStateM ε σ α} :
    Ends (tryCatch x handler) Q s ↔ Ends x (orElse Q (fun e => Ends (handler e) Q)) s := by
  have run : (tryCatch x handler) s = EStateM.tryCatch x handler s := rfl
  unfold Ends ran
  rw [run, EStateM.tryCatch]
  cases x s <;> rfl

theorem Ends.mono (h : Ends x Q s) (imp : ∀ r t, Q r t → Q' r t) : Ends x Q' s := imp _ _ h

end Programs

/-- What is asked of a connection. -/
inductive Act (ρ : Type) where
  | connect
  | login
  | probe
  | quit
  | request (r : ρ)
  deriving DecidableEq

/-- A call on a connection, with the error that it has raised, if any. -/
structure Call (ρ ε : Type) where
  line : Nat
  act : Act ρ
  raised : Option ε
  deriving DecidableEq

/-- A client: the connection that it keeps, the number of connections that it has opened so far,
and its calls. -/
structure Client (ρ ε : Type) where
  cached : Option Nat := none
  opened : Nat := 0
  calls : List (Call ρ ε) := []

/-- What the `n`-th call comes to: it may raise an error, a probe may find the connection in bad
health, and a request is answered. -/
structure Peer (ρ ε : Type) (Ans : ρ → Type) where
  raises : Nat → Option ε
  healthy : Nat → Bool
  answer : Nat → (r : ρ) → Ans r

/-- How a client goes about it: whether it logs in, which errors tell it that the connection has
failed, and which errors of a quit it ignores. -/
structure Policy (ε : Type) where
  logsIn : Bool
  caught : ε → Bool
  suppressed : ε → Bool

variable {ρ ε α : Type} {Ans : ρ → Type}

/-- Programs over a client. -/
abbrev Script (ρ ε α : Type) := EStateM ε (Client ρ ε) α

/-- Make a call. -/
def call (peer : Peer ρ ε Ans) (line : Nat) (act : Act ρ) : Script ρ ε Unit := fun s =>
  let raised := peer.raises s.calls.length
  let after := { s with calls := s.calls ++ [⟨line, act, raised⟩] }
  match raised with
  | none => .ok () after
  | some e => .error e after

def probe (peer : Peer ρ ε Ans) (line : Nat) : Script ρ ε Bool := do
  let n := (← get).calls.length
  call peer line .probe
  return peer.healthy n

def request (peer : Peer ρ ε Ans) (line : Nat) (r : ρ) : Script ρ ε (Ans r) := do
  let n := (← get).calls.length
  call peer line (.request r)
  return peer.answer n r

/-- Quit the connection that is kept, if any, ignoring errors. -/
def safeQuit (policy : Policy ε) (peer : Peer ρ ε Ans) : Script ρ ε Unit := do
  match (← get).cached with
  | none => return ()
  | some line =>
      tryCatch (call peer line .quit) (fun e =>
        if policy.suppressed e then return () else throw e)
      modify (fun s => { s with cached := none })

/-- Log in, if the client does that. -/
def login (policy : Policy ε) (peer : Peer ρ ε Ans) (line : Nat) : Script ρ ε Unit :=
  if policy.logsIn then call peer line .login else return ()

/-- Open a connection. It is kept after the login. -/
def connect (policy : Policy ε) (peer : Peer ρ ε Ans) : Script ρ ε Nat := do
  let line := (← get).opened
  modify (fun s => { s with opened := line + 1 })
  call peer line .connect
  login policy peer line
  modify (fun s => { s with cached := some line })
  return line

/-- The connection that is kept, if the probe finds it in good health, or a new one. -/
def ensure (policy : Policy ε) (peer : Peer ρ ε Ans) : Script ρ ε Nat := do
  match (← get).cached with
  | none => connect policy peer
  | some line =>
      let alive ← tryCatch (probe peer line) (fun e =>
        if policy.caught e then return false else throw e)
      if alive then
        return line
      else
        safeQuit policy peer
        connect policy peer

/-- The connection has been connected and logged in. If it has been quit, the error was not
ignored. -/
structure Ready (policy : Policy ε) (calls : List (Call ρ ε)) (line : Nat) : Prop where
  connected : ⟨line, .connect, none⟩ ∈ calls
  loggedIn : policy.logsIn = true → ⟨line, .login, none⟩ ∈ calls
  quit : ∀ raised, ⟨line, .quit, raised⟩ ∈ calls →
    ∃ e, raised = some e ∧ policy.suppressed e = false

/-- The requests among calls, with the errors that they have raised. -/
def requestsOf : List (Call ρ ε) → List (ρ × Option ε)
  | [] => []
  | ⟨_, .request r, raised⟩ :: calls => (r, raised) :: requestsOf calls
  | _ :: calls => requestsOf calls

/-- The kept connection is ready, and so was every connection when a request was made on it. What
has been connected is kept, or has been quit, or its login has failed. -/
structure Sound (policy : Policy ε) (s : Client ρ ε) : Prop where
  known : ∀ call ∈ s.calls, call.line < s.opened
  kept : ∀ line, s.cached = some line → Ready policy s.calls line
  requests : ∀ before call, before ++ [call] <+: s.calls → ∀ r, call.act = .request r →
    Ready policy before call.line
  accounted : ∀ line, ⟨line, .connect, none⟩ ∈ s.calls → s.cached = some line ∨
    (∃ raised, ⟨line, .quit, raised⟩ ∈ s.calls) ∨ ∃ e, ⟨line, .login, some e⟩ ∈ s.calls

section Calls

variable {policy : Policy ε} {peer : Peer ρ ε Ans} {s t : Client ρ ε}
variable {calls new : List (Call ρ ε)} {line : Nat}

theorem requestsOf_append : requestsOf (calls ++ new) = requestsOf calls ++ requestsOf new := by
  induction calls with
  | nil => rfl
  | cons call calls ih =>
      obtain ⟨line, act, raised⟩ := call
      cases act <;> simp [requestsOf, ih]

theorem requestsOf_eq_nil (h : ∀ call ∈ new, ∀ r, call.act ≠ .request r) : requestsOf new = [] := by
  induction new with
  | nil => rfl
  | cons call new ih =>
      obtain ⟨line, act, raised⟩ := call
      have rest := ih (fun c hc => h c (List.mem_cons_of_mem _ hc))
      cases act with
      | request r => exact absurd rfl (h _ List.mem_cons_self r)
      | _ => exact rest

theorem Ready.append (h : Ready policy calls line)
    (quit : ∀ raised, ⟨line, .quit, raised⟩ ∈ new →
      ∃ e, raised = some e ∧ policy.suppressed e = false) :
    Ready policy (calls ++ new) line := by
  refine ⟨List.mem_append_left _ h.connected,
    fun needed => List.mem_append_left _ (h.loggedIn needed), fun raised hq => ?_⟩
  rcases List.mem_append.mp hq with old | new
  · exact h.quit raised old
  · exact quit raised new

theorem sound_empty : Sound policy ({} : Client ρ ε) := by
  refine ⟨fun _ hc => (List.not_mem_nil hc).elim, fun _ impossible => (nomatch impossible),
    fun before call h => ?_, fun _ hc => (List.not_mem_nil hc).elim⟩
  exact absurd (List.prefix_nil.mp h) (by simp)

/-- What has to be shown of a client after further calls, none of which are requests. -/
theorem Sound.extend (h : Sound policy s) (calls : t.calls = s.calls ++ new)
    (opened : s.opened ≤ t.opened)
    (known : ∀ call ∈ new, call.line < t.opened ∧ ∀ r, call.act ≠ .request r)
    (kept : ∀ line, t.cached = some line → Ready policy t.calls line)
    (accounted : ∀ line, ⟨line, .connect, none⟩ ∈ t.calls → t.cached = some line ∨
      (∃ raised, ⟨line, .quit, raised⟩ ∈ t.calls) ∨ ∃ e, ⟨line, .login, some e⟩ ∈ t.calls) :
    Sound policy t ∧ requestsOf t.calls = requestsOf s.calls := by
  refine ⟨⟨fun call hc => ?_, kept, ?_, accounted⟩, ?_⟩
  · rw [calls] at hc
    rcases List.mem_append.mp hc with old | new
    · exact (h.known call old).trans_le opened
    · exact (known call new).1
  · rw [calls]
    clear calls kept accounted
    induction new using List.reverseRecOn with
    | nil =>
        rw [List.append_nil]
        exact h.requests
    | append_singleton new last ih =>
        intro before call initial r asked
        rw [← List.append_assoc, List.prefix_concat_iff] at initial
        rcases initial with whole | shorter
        · obtain ⟨-, rfl⟩ := List.append_inj' whole rfl |>.imp id List.singleton_inj.mp
          exact absurd asked ((known call (by simp)).2 r)
        · exact ih (fun c hc => known c (List.mem_append_left _ hc)) before call shorter r asked
  · rw [calls, requestsOf_append, requestsOf_eq_nil (fun c hc => (known c hc).2), List.append_nil]

end Calls

section Rules

variable {policy : Policy ε} {peer : Peer ρ ε Ans} {s t : Client ρ ε} {line : Nat}

/-- The outcome of a call that may have raised an error. -/
def outcome : Option ε → Except ε Unit
  | none => .ok ()
  | some e => .error e

/-- The client after a call. -/
def Client.after (s : Client ρ ε) (line : Nat) (act : Act ρ) (raised : Option ε) : Client ρ ε :=
  { s with calls := s.calls ++ [⟨line, act, raised⟩] }

theorem ends_call {act : Act ρ} {Q : Except ε Unit → Client ρ ε → Prop} :
    Ends (call peer line act) Q s ↔
      Q (outcome (peer.raises s.calls.length)) (s.after line act (peer.raises s.calls.length)) := by
  unfold Ends ran call
  dsimp only
  cases peer.raises s.calls.length <;> rfl

/-- A call on the connection that is kept, other than a quit. -/
theorem Sound.call (h : Sound policy s) (kept : s.cached = some line) {act : Act ρ}
    {raised : Option ε} (other : act ≠ .quit) (known : act ≠ .connect) :
    Sound policy (s.after line act raised) := by
  have ready := h.kept line kept
  have opened : line < s.opened := h.known _ ready.connected
  have quit : ∀ raised', ⟨line, .quit, raised'⟩ ∈ [(⟨line, act, raised⟩ : Call ρ ε)] →
      ∃ e, raised' = some e ∧ policy.suppressed e = false := by
    intro raised' hq
    cases List.mem_singleton.mp hq
    exact absurd rfl other
  refine ⟨fun call hc => ?_, fun line' here => ?_, fun before call initial r asked => ?_,
    fun line' connected => ?_⟩
  · rcases List.mem_append.mp hc with old | new
    · exact h.known call old
    · cases List.mem_singleton.mp new
      exact opened
  · obtain rfl : line = line' := Option.some.inj (kept.symm.trans here)
    exact ready.append quit
  · rcases List.prefix_concat_iff.mp initial with whole | shorter
    · obtain ⟨rfl, last⟩ := List.append_inj' whole rfl
      rw [List.singleton_inj.mp last]
      exact ready
    · exact h.requests before call shorter r asked
  · rcases List.mem_append.mp connected with old | new
    · refine (h.accounted line' old).imp_right (Or.imp ?_ ?_)
      · exact fun ⟨raised, hq⟩ => ⟨raised, List.mem_append_left _ hq⟩
      · exact fun ⟨e, hl⟩ => ⟨e, List.mem_append_left _ hl⟩
    · cases List.mem_singleton.mp new
      exact absurd rfl known

/-- A request on the connection that is kept. -/
theorem request_ends (h : Sound policy s) (kept : s.cached = some line) (r : ρ) :
    Ends (request peer line r) (fun res t => Sound policy t ∧ t.cached = some line ∧
      ∃ raised, requestsOf t.calls = requestsOf s.calls ++ [(r, raised)] ∧
        (∀ a, res = .ok a → raised = none ∧ ∃ n, a = peer.answer n r) ∧
          ∀ e, res = .error e → raised = some e) s := by
  unfold request
  rw [ends_get_bind, ends_bind, ends_call]
  have sound : Sound policy (s.after line (.request r) (peer.raises s.calls.length)) :=
    h.call kept (by simp) (by simp)
  have asked : requestsOf (s.after line (.request r) (peer.raises s.calls.length)).calls =
      requestsOf s.calls ++ [(r, peer.raises s.calls.length)] := requestsOf_append
  cases raised : peer.raises s.calls.length with
  | none =>
      rw [raised] at sound asked
      refine ⟨sound, kept, none, asked, fun a value => ⟨rfl, s.calls.length, ?_⟩,
        fun _ impossible => ?_⟩
      · cases value
        rfl
      · cases impossible
  | some e =>
      rw [raised] at sound asked
      refine ⟨sound, kept, some e, asked, fun _ impossible => ?_, fun e' value => ?_⟩
      · cases impossible
      · cases value
        rfl

theorem Sound.quit (h : Sound policy s) (kept : s.cached = some line) (raised : Option ε)
    (cached : Option Nat) (left : ∀ line', cached = some line' →
      line' = line ∧ ∃ e, raised = some e ∧ policy.suppressed e = false) :
    Sound policy { s.after line .quit raised with cached := cached } ∧
      requestsOf (s.after line .quit raised).calls = requestsOf s.calls := by
  have ready := h.kept line kept
  refine h.extend (t := { s.after line .quit raised with cached := cached }) rfl (Nat.le_refl _)
    (fun call hc => ?_) (fun line' here => ?_) (fun line' connected => ?_)
  · cases List.mem_singleton.mp hc
    have opened : line < s.opened := h.known _ ready.connected
    exact ⟨opened, fun r impossible => (nomatch impossible)⟩
  · obtain ⟨rfl, failed⟩ := left line' here
    refine ready.append (fun raised' hq => ?_)
    cases List.mem_singleton.mp hq
    exact failed
  · right
    rcases List.mem_append.mp connected with old | impossible
    · rcases h.accounted line' old with here | ⟨raised', quit⟩ | ⟨e, failed⟩
      · obtain rfl := Option.some.inj (kept.symm.trans here)
        exact .inl ⟨raised, List.mem_append_right _ (List.mem_singleton.mpr rfl)⟩
      · exact .inl ⟨raised', List.mem_append_left _ quit⟩
      · exact .inr ⟨e, List.mem_append_left _ failed⟩
    · cases List.mem_singleton.mp impossible

/-- Quitting makes no request. Once it has returned, no connection is kept, and it raises only what
is not ignored. -/
theorem safeQuit_ends (h : Sound policy s) :
    Ends (safeQuit policy peer) (fun r t => Sound policy t ∧
      requestsOf t.calls = requestsOf s.calls ∧ (∀ u, r = .ok u → t.cached = none) ∧
        ∀ e, r = .error e → policy.suppressed e = false) s := by
  unfold safeQuit
  rw [ends_get_bind]
  cases kept : s.cached with
  | none => exact ⟨h, rfl, fun _ _ => kept, fun _ impossible => (nomatch impossible)⟩
  | some line =>
      have done : ∀ {raised : Option ε},
          Sound policy { s.after line .quit raised with cached := none } ∧
            requestsOf (s.after line .quit raised).calls = requestsOf s.calls :=
        h.quit kept _ none (fun _ impossible => (nomatch impossible))
      dsimp only
      rw [ends_bind, ends_tryCatch, ends_call]
      cases raised : peer.raises s.calls.length with
      | none => exact ⟨done.1, done.2, fun _ _ => rfl, fun _ impossible => (nomatch impossible)⟩
      | some e =>
          rw [outcome, orElse_error]
          split
          · exact ⟨done.1, done.2, fun _ _ => rfl, fun _ impossible => (nomatch impossible)⟩
          · next surfaces =>
              have left := h.quit kept (some e) s.cached (fun line' here =>
                ⟨Option.some.inj (here.symm.trans kept), e, rfl, Bool.eq_false_iff.mpr surfaces⟩)
              refine ⟨left.1, left.2, fun _ impossible => (nomatch impossible), fun e' value => ?_⟩
              cases value
              exact Bool.eq_false_iff.mpr surfaces

/-- The client after an attempt to open a connection. -/
theorem Sound.connect (h : Sound policy s) (none : s.cached = none) (new : List (Call ρ ε))
    (cached : Option Nat)
    (own : ∀ call ∈ new, call.line = s.opened ∧ (call.act = .connect ∨ call.act = .login))
    (ready : ∀ line, cached = some line → line = s.opened ∧ ⟨line, .connect, .none⟩ ∈ new ∧
      (policy.logsIn = true → ⟨line, .login, .none⟩ ∈ new))
    (failed : ⟨s.opened, .connect, .none⟩ ∈ new → cached = some s.opened ∨
      ∃ e, ⟨s.opened, .login, some e⟩ ∈ new) :
    Sound policy ⟨cached, s.opened + 1, s.calls ++ new⟩ ∧
      requestsOf (s.calls ++ new) = requestsOf s.calls := by
  refine h.extend (t := ⟨cached, s.opened + 1, s.calls ++ new⟩) rfl (Nat.le_succ _)
    (fun call hc => ?_) (fun line here => ?_) (fun line connected => ?_)
  · obtain ⟨line, act⟩ := own call hc
    refine ⟨line ▸ Nat.lt_succ_self _, fun r asked => ?_⟩
    rw [asked] at act
    exact act.elim (fun impossible => (nomatch impossible)) (fun impossible => (nomatch impossible))
  · obtain ⟨rfl, connected, loggedIn⟩ := ready line here
    refine ⟨List.mem_append_right _ connected,
      fun needed => List.mem_append_right _ (loggedIn needed), fun raised hq => ?_⟩
    rcases List.mem_append.mp hq with old | new
    · exact absurd (h.known _ old) (Nat.lt_irrefl _)
    · rcases (own _ new).2 with impossible | impossible <;> cases impossible
  · rcases List.mem_append.mp connected with old | new
    · rcases h.accounted line old with here | ⟨raised, quit⟩ | ⟨e, failed⟩
      · rw [none] at here
        cases here
      · exact .inr (.inl ⟨raised, List.mem_append_left _ quit⟩)
      · exact .inr (.inr ⟨e, List.mem_append_left _ failed⟩)
    · obtain rfl : line = s.opened := (own _ new).1
      exact (failed new).imp_right (fun ⟨e, failed⟩ => .inr ⟨e, List.mem_append_right _ failed⟩)

/-- Opening makes no request. The connection that it returns is kept. -/
theorem connect_ends (h : Sound policy s) (none : s.cached = none) :
    Ends (connect policy peer) (fun r t => Sound policy t ∧
      requestsOf t.calls = requestsOf s.calls ∧ ∀ line, r = .ok line → t.cached = some line) s := by
  unfold Cached.connect
  rw [ends_get_bind, ends_bind, ends_modify, andThen_ok, ends_bind, ends_call]
  cases raised : peer.raises s.calls.length with
  | some e =>
      have left := h.connect none [⟨s.opened, .connect, some e⟩] s.cached (by simp)
        (fun line here => by rw [none] at here; cases here) (by simp)
      exact ⟨left.1, left.2, fun _ impossible => (nomatch impossible)⟩
  | none =>
      rw [outcome, andThen_ok, ends_bind, login]
      cases logsIn : policy.logsIn with
      | false =>
          have left := h.connect none [⟨s.opened, .connect, .none⟩] (some s.opened) (by simp)
            (by simp [logsIn]) (by simp)
          exact ⟨left.1, left.2, fun line value => by cases value; rfl⟩
      | true =>
          rw [if_pos rfl, ends_call]
          have calls (raised : Option ε) :
              s.calls ++ [⟨s.opened, .connect, .none⟩] ++ [⟨s.opened, .login, raised⟩] =
                s.calls ++ [⟨s.opened, .connect, .none⟩, ⟨s.opened, .login, raised⟩] := by simp
          generalize peer.raises _ = raised'
          cases raised' with
          | some e =>
              have left := h.connect none [⟨s.opened, .connect, .none⟩,
                  ⟨s.opened, .login, some e⟩] s.cached (by simp)
                (fun line here => by rw [none] at here; cases here) (fun _ => .inr ⟨e, by simp⟩)
              rw [← calls] at left
              exact ⟨left.1, left.2, fun _ impossible => (nomatch impossible)⟩
          | none =>
              have left := h.connect none [⟨s.opened, .connect, .none⟩,
                  ⟨s.opened, .login, .none⟩] (some s.opened) (by simp)
                (by simp) (fun _ => .inl rfl)
              rw [← calls] at left
              exact ⟨left.1, left.2, fun line value => by cases value; rfl⟩

/-- The connection that is ensured is kept, and no request is made for it. -/
theorem ensure_ends (h : Sound policy s) :
    Ends (ensure policy peer) (fun r t => Sound policy t ∧
      requestsOf t.calls = requestsOf s.calls ∧ ∀ line, r = .ok line → t.cached = some line) s := by
  unfold ensure
  rw [ends_get_bind]
  cases kept : s.cached with
  | none => exact connect_ends h kept
  | some line =>
      -- Whatever becomes of the probe, the connection is still kept afterwards.
      have probed : ∀ {raised}, Sound policy (s.after line .probe raised) ∧
          requestsOf (s.after line .probe raised).calls = requestsOf s.calls := fun {raised} =>
        ⟨h.call kept (by simp) (by simp), requestsOf_append.trans (List.append_nil _)⟩
      have again : ∀ {raised}, Ends (safeQuit policy peer >>= fun _ => Cached.connect policy peer)
          (fun r t => Sound policy t ∧ requestsOf t.calls = requestsOf s.calls ∧
            ∀ line, r = .ok line → t.cached = some line) (s.after line .probe raised) := by
        intro raised
        rw [ends_bind]
        refine (safeQuit_ends probed.1).mono ?_
        rintro (e | u) t ⟨sound, requests, gone, -⟩
        · exact ⟨sound, requests.trans probed.2, fun _ impossible => (nomatch impossible)⟩
        · rw [andThen_ok]
          refine (connect_ends sound (gone u rfl)).mono ?_
          rintro r t' ⟨sound', requests', here⟩
          exact ⟨sound', requests'.trans (requests.trans probed.2), here⟩
      dsimp only
      rw [ends_bind, ends_tryCatch]
      unfold probe
      rw [ends_get_bind, ends_bind, ends_call]
      cases raised : peer.raises s.calls.length with
      | some e =>
          rw [outcome, andThen_error, orElse_error]
          split
          · exact again
          · exact ⟨probed.1, probed.2, fun _ impossible => (nomatch impossible)⟩
      | none =>
          rw [outcome, andThen_ok]
          cases healthy : peer.healthy s.calls.length with
          | false => exact again
          | true => exact ⟨probed.1, probed.2, fun line' value => by cases value; exact kept⟩

end Rules

/-- The peer raises no error, and every probe finds the connection in good health. -/
structure Peer.Flawless (peer : Peer ρ ε Ans) : Prop where
  raises : ∀ n, peer.raises n = none
  healthy : ∀ n, peer.healthy n = true

section Flawless

variable {policy : Policy ε} {peer : Peer ρ ε Ans} {s : Client ρ ε}

theorem Peer.Flawless.call_ends (h : peer.Flawless) (line : Nat) (act : Act ρ) :
    Ends (call peer line act) (fun r t => r = .ok () ∧ t = s.after line act none) s := by
  rw [ends_call, h.raises]
  exact ⟨rfl, rfl⟩

theorem Peer.Flawless.request_ends (h : peer.Flawless) (line : Nat) (r : ρ) :
    Ends (request peer line r) (fun res t => (∃ n, res = .ok (peer.answer n r)) ∧
      t = s.after line (.request r) none) s := by
  unfold request
  rw [ends_get_bind, ends_bind]
  refine (h.call_ends line _).mono ?_
  rintro r t ⟨rfl, rfl⟩
  exact ⟨⟨_, rfl⟩, rfl⟩

theorem Peer.Flawless.safeQuit_ends (h : peer.Flawless) :
    Ends (safeQuit policy peer) (fun r t => r = .ok () ∧ t.cached = none ∧
      t.opened = s.opened ∧ requestsOf t.calls = requestsOf s.calls) s := by
  unfold safeQuit
  rw [ends_get_bind]
  cases kept : s.cached with
  | none => exact ⟨rfl, kept, rfl, rfl⟩
  | some line =>
      dsimp only
      rw [ends_bind, ends_tryCatch]
      refine (h.call_ends line _).mono ?_
      rintro r t ⟨rfl, rfl⟩
      exact ⟨rfl, rfl, rfl, requestsOf_append.trans (List.append_nil _)⟩

/-- A connection is used: it is the one that was kept, or a new one if none was. -/
structure Client.Uses (s : Client ρ ε) (line : Nat) (t : Client ρ ε) : Prop where
  kept : t.cached = some line
  opened : (s.cached = some line ∧ t.opened = s.opened) ∨
    (s.cached = none ∧ line = s.opened ∧ t.opened = s.opened + 1)

/-- A connection is opened only when there is none. -/
theorem Peer.Flawless.ensure_ends (h : peer.Flawless) :
    Ends (ensure policy peer) (fun r t => ∃ line, r = .ok line ∧ s.Uses line t ∧
      ∃ new, t.calls = s.calls ++ new ∧ requestsOf new = []) s := by
  unfold ensure
  rw [ends_get_bind]
  cases kept : s.cached with
  | none =>
      dsimp only
      unfold connect
      rw [ends_get_bind, ends_bind, ends_modify, andThen_ok, ends_bind]
      refine (h.call_ends s.opened _).mono ?_
      rintro r t ⟨rfl, rfl⟩
      rw [andThen_ok, ends_bind, login]
      split
      · refine (h.call_ends s.opened _).mono ?_
        rintro r t ⟨rfl, rfl⟩
        exact ⟨s.opened, rfl, ⟨rfl, .inr ⟨kept, rfl, rfl⟩⟩, _, List.append_assoc _ _ _, rfl⟩
      · exact ⟨s.opened, rfl, ⟨rfl, .inr ⟨kept, rfl, rfl⟩⟩, _, rfl, rfl⟩
  | some line =>
      dsimp only
      rw [ends_bind, ends_tryCatch]
      unfold probe
      rw [ends_get_bind, ends_bind]
      refine (h.call_ends line _).mono ?_
      rintro r t ⟨rfl, rfl⟩
      rw [andThen_ok, h.healthy]
      exact ⟨line, rfl, ⟨kept, .inl ⟨kept, rfl⟩⟩, _, rfl, rfl⟩

end Flawless

end Cached
