import OmniSync.Auth.Router

/-!
# Logging out

The blacklist entry of a token lives for the whole seconds up to the expiry of the token,
rounded down, while the library accepts the token until the second of its expiry is over. In
between, a token that was logged out is accepted again. The gap is empty exactly if the
expiry has been reached at the logout.
-/

namespace OmniSync

open AuthService

section Revocation

variable (lib : AuthLib) (settings : AuthSettings)

/-- A request of the run issued tokens for the user at this time. -/
def Issued (steps : List (Taken AuthState (Time × AuthRequest))) (username : String)
    (issue : Time) : Prop :=
  ∃ x ∈ steps, ∃ user : User, x.label.1 = issue ∧ user.username = username ∧
    x.before.userOf lib issue x.label.2 = .ok (some user)

/-- Whatever is requested from now on, the refresh endpoint rejects the token. -/
def Revoked (token : String) (s : AuthState) : Prop :=
  ∀ steps t, Trace (AuthState.Steps lib) s steps t → ∀ v, t.clock ≤ v →
    ∃ e, t.refresh lib settings token v = .error e

/-- The expiry of a refresh token, in seconds. -/
def expiryOf (issue : Time) : Int :=
  (issue + settings.jwtRefreshExpireMinutes * 60 * second) / second

end Revocation

namespace AuthState

variable {lib : AuthLib} {settings : AuthSettings} {s t : AuthState}
variable {steps : List (Taken AuthState (Time × AuthRequest))}
variable {username : String} {issue u v now : Time} {l : Time × AuthRequest}

/-- An active user of this name. -/
def Active (s : AuthState) (username : String) : Prop :=
  ∃ user, getUserByUsername s.users username = some user ∧ user.isActive = true

theorem Active.append (h : s.Active username) (user : User) (now : Time) :
    AuthState.Active { s with users := s.users ++ [user], clock := now } username := by
  obtain ⟨found, find, active⟩ := h
  refine ⟨found, ?_, active⟩
  unfold getUserByUsername at find ⊢
  rw [List.find?_append, find]
  rfl

theorem Steps.active (taken : s.Steps lib l t) (h : s.Active username) : t.Active username := by
  obtain ⟨_, rfl⟩ := taken
  obtain ⟨now, request⟩ := l
  cases request with
  | register name password salt =>
      simp only [handle]
      split
      · exact h.append _ _
      · exact h
  | login name password => exact h
  | refresh token => exact h
  | logout token => exact h

theorem Steps.clock_le (taken : s.Steps lib l t) : s.clock ≤ t.clock ∧ t.clock = l.1 := by
  obtain ⟨later, rfl⟩ := taken
  obtain ⟨now, request⟩ := l
  cases request with
  | register name password salt =>
      simp only [handle]
      split <;> exact ⟨later, rfl⟩
  | login name password => exact ⟨later, rfl⟩
  | refresh token => exact ⟨later, rfl⟩
  | logout token => exact ⟨later, rfl⟩

theorem find_of_find {users : List User} {user : User}
    (h : getUserByUsername users username = some user) :
    getUserByUsername users user.username = some user := by
  have same : user.username = username := by
    unfold getUserByUsername at h
    simpa using List.find?_some h
  rw [same, h]

theorem active_of_createUser {users : List User} {user : User} {password salt : String}
    (h : createUser lib users username password salt = .ok user) :
    getUserByUsername (users ++ [user]) user.username = some user ∧ user.isActive = true := by
  unfold createUser at h
  cases find : getUserByUsername users username with
  | some other =>
      rw [find] at h
      cases h
  | none =>
      rw [find] at h
      cases h
      refine ⟨?_, rfl⟩
      unfold getUserByUsername at find ⊢
      rw [List.find?_append, find]
      simp

theorem active_of_authenticateUser {users : List User} {user : User} {password : String}
    (h : authenticateUser lib users username password = .ok user) :
    getUserByUsername users user.username = some user ∧ user.isActive = true := by
  unfold authenticateUser at h
  cases find : getUserByUsername users username with
  | none =>
      rw [find] at h
      cases h
  | some found =>
      rw [find] at h
      simp only at h
      split at h
      · split at h
        · next active =>
            cases h
            exact ⟨find_of_find find, active⟩
        · cases h
      · cases h

theorem active_of_refreshUser {user : User} {token : String}
    (h : s.refreshUser lib token now = .ok user) :
    getUserByUsername s.users user.username = some user ∧ user.isActive = true := by
  unfold refreshUser at h
  split at h
  · cases h
  · cases payload : verifyToken lib token "refresh" now with
    | error e =>
        rw [payload] at h
        cases h
    | ok payload' =>
        rw [payload] at h
        simp only [bind, Except.bind] at h
        cases find : getUserByUsername s.users payload'.sub with
        | none =>
            rw [find] at h
            cases h
        | some found =>
            rw [find] at h
            simp only at h
            split at h
            · next active =>
                cases h
                exact ⟨find_of_find find, active⟩
            · cases h

theorem map_some_ok {x : Except Exn User} {user : User} (h : x.map some = .ok (some user)) :
    x = .ok user := by
  cases x with
  | error e => cases h
  | ok found =>
      cases h
      rfl

/-- Tokens are issued for active users only. -/
theorem Steps.active_of_userOf (taken : s.Steps lib l t) {user : User}
    (h : s.userOf lib l.1 l.2 = .ok (some user)) : t.Active user.username := by
  obtain ⟨_, rfl⟩ := taken
  obtain ⟨now, request⟩ := l
  cases request with
  | register name password salt =>
      have created := map_some_ok h
      simp only [handle, created]
      exact ⟨user, active_of_createUser created⟩
  | login name password => exact ⟨user, active_of_authenticateUser (map_some_ok h)⟩
  | refresh token => exact ⟨user, active_of_refreshUser (map_some_ok h)⟩
  | logout token => cases h

/-- The user for whom a token was issued stays active. -/
theorem active_of_issued (run : Trace (Steps lib) s steps t)
    (issued : Issued lib steps username issue) : t.Active username := by
  induction run with
  | nil =>
      obtain ⟨x, hx, _⟩ := issued
      cases hx
  | concat _ taken ih =>
      obtain ⟨x, hx, user, time, rfl, granted⟩ := issued
      rcases List.mem_append.mp hx with old | new
      · exact taken.active (ih ⟨x, old, user, time, rfl, granted⟩)
      · rw [List.mem_singleton.mp new] at time granted
        subst time
        exact taken.active_of_userOf granted

section Token

variable {token : String} {expiry : Int}

/-- What the library reads in a refresh token. -/
structure Reads (lib : AuthLib) (token username : String) (expiry : Int) : Prop where
  sub : (lib.decode token).bind Claims.sub = some username
  exp : (lib.decode token).bind Claims.exp = some expiry
  iat : ((lib.decode token).bind Claims.iat).isSome
  tokenType : (lib.decode token).bind Claims.tokenType = some "refresh"

theorem reads_refreshToken (h : lib.decode (createRefreshToken lib settings username issue) =
      some (claims username settings.jwtRefreshExpireMinutes "refresh" issue)) :
    Reads lib (createRefreshToken lib settings username issue) username
      (expiryOf settings issue) := by
  constructor <;> rw [h] <;> rfl

/-- The token is accepted up to the second of its expiry. -/
theorem Reads.verifyToken (h : Reads lib token username expiry) (now : Time) :
    if expiry < now / second then
      AuthService.verifyToken lib token "refresh" now = .error TokenExpiredError
    else ∃ payload, AuthService.verifyToken lib token "refresh" now = .ok payload ∧
      payload.sub = username := by
  obtain ⟨sub, exp, iat, tokenType⟩ := h
  unfold AuthService.verifyToken
  cases read : lib.decode token with
  | none =>
      rw [read] at sub
      cases sub
  | some claims =>
      obtain ⟨sub', exp', iat', tokenType'⟩ := claims
      simp only [read, Option.bind_some] at sub exp iat tokenType
      obtain ⟨iat, rfl⟩ := Option.isSome_iff_exists.mp iat
      subst sub exp tokenType
      by_cases expired : expiry < now / second
      · simp [expired]
      · simp [expired, payloadOf]

/-- For an active user, a refresh is rejected if and only if the token is on the blacklist or
has expired. -/
theorem Reads.refresh_rejected (h : Reads lib token username expiry) (active : s.Active username) :
    (∃ e, s.refresh lib settings token now = .error e) ↔
      isTokenBlacklisted s.redis token now = true ∨ expiry < now / second := by
  unfold refresh refreshUser
  by_cases listed : isTokenBlacklisted s.redis token now = true
  · simp [listed, Except.map]
  · have verified := h.verifyToken now
    by_cases expired : expiry < now / second
    · rw [if_pos expired] at verified
      simp [listed, expired, verified, Except.map, bind, Except.bind]
    · rw [if_neg expired] at verified
      obtain ⟨payload, verified, same⟩ := verified
      obtain ⟨user, find, active⟩ := active
      simp [listed, expired, verified, same, find, active, Except.map, bind, Except.bind]

theorem Reads.blacklistToken (h : Reads lib token username expiry) (redis : Redis) :
    AuthService.blacklistToken lib redis token now =
      if expiry = 0 then redis
      else redis.setex ("blacklist:" ++ token)
        (max ((expiry * second - now).tdiv second) 1) now := by
  unfold AuthService.blacklistToken
  rw [h.exp]

theorem blacklistToken_of_ne {other : String} (redis : Redis) (different : other ≠ token) :
    AuthService.blacklistToken lib redis other now ("blacklist:" ++ token) =
      redis ("blacklist:" ++ token) := by
  have keys : "blacklist:" ++ token ≠ "blacklist:" ++ other := by
    rw [Ne, String.append_right_inj]
    exact fun same => different same.symm
  unfold AuthService.blacklistToken Redis.setex
  cases (lib.decode other).bind Claims.exp with
  | none => rfl
  | some exp =>
      simp only
      split
      · rfl
      · exact if_neg keys

theorem isTokenBlacklisted_iff : isTokenBlacklisted s.redis token now = true ↔
    ∃ expiry, s.redis ("blacklist:" ++ token) = some expiry ∧ now < expiry := by
  unfold isTokenBlacklisted Redis.holds
  cases s.redis ("blacklist:" ++ token) with
  | none => simp
  | some expiry => simp

theorem lt_div_second {expiry now : Int} :
    expiry < now / second ↔ (expiry + 1) * second ≤ now := by
  unfold second
  omega

theorem second_le_mul {ttl : Int} (h : 1 ≤ ttl) : second ≤ ttl * second := by
  have bound : (1000000 : Int) ≤ ttl * 1000000 := by omega
  exact bound

theorem succ_mul_second (expiry : Int) : (expiry + 1) * second = expiry * second + second := by
  unfold second
  omega

/-- An entry that is written before the expiry is gone before the token has expired. -/
theorem ttl_lt {expiry now : Int} (early : now < expiry * second) :
    now + max ((expiry * second - now).tdiv second) 1 * second < (expiry + 1) * second := by
  unfold second at *
  rw [Int.tdiv_eq_ediv_of_nonneg (by omega)]
  omega

/-- The expiry is reached, and the entry on the blacklist outlives the token. -/
def Outlived (token : String) (expiry : Int) (s : AuthState) : Prop :=
  expiry * second ≤ s.clock ∧
    ∃ e, s.redis ("blacklist:" ++ token) = some e ∧ (expiry + 1) * second ≤ e

theorem Reads.outlived_logout (h : Reads lib token username expiry) (nonzero : expiry ≠ 0)
    (reached : expiry * second ≤ u) : (s.logout lib token u).Outlived token expiry := by
  refine ⟨reached, u + max ((expiry * second - u).tdiv second) 1 * second, ?_, ?_⟩
  · simp only [logout, h.blacklistToken, if_neg nonzero, Redis.setex, if_pos]
  · have lives := second_le_mul (Int.le_max_right ((expiry * second - u).tdiv second) 1)
    rw [succ_mul_second]
    exact Int.add_le_add reached lives

theorem Outlived.of_redis_eq (h : s.Outlived token expiry) (later : s.clock ≤ t.clock)
    (same : t.redis ("blacklist:" ++ token) = s.redis ("blacklist:" ++ token)) :
    t.Outlived token expiry := by
  obtain ⟨reached, e, entry, bound⟩ := h
  exact ⟨Int.le_trans reached later, e, same.trans entry, bound⟩

/-- Another logout with the token comes after the expiry as well. -/
theorem Reads.outlived_step (h : Reads lib token username expiry) (nonzero : expiry ≠ 0)
    (outlived : s.Outlived token expiry) (taken : s.Steps lib l t) : t.Outlived token expiry := by
  have later := taken.clock_le.1
  obtain ⟨_, rfl⟩ := taken
  obtain ⟨now, request⟩ := l
  cases request with
  | register name password salt =>
      refine outlived.of_redis_eq later ?_
      simp only [handle]
      split <;> rfl
  | login name password => exact outlived.of_redis_eq later rfl
  | refresh other => exact outlived.of_redis_eq later rfl
  | logout other =>
      by_cases same : other = token
      · rw [same]
        exact h.outlived_logout nonzero (Int.le_trans outlived.1 later)
      · exact outlived.of_redis_eq later (blacklistToken_of_ne s.redis same)

/-- While the entry is there the token is on the blacklist, and then it has expired. -/
theorem Outlived.rejects (h : s.Outlived token expiry) :
    isTokenBlacklisted s.redis token now = true ∨ expiry < now / second := by
  obtain ⟨_, e, entry, bound⟩ := h
  by_cases listed : now < e
  · exact .inl (isTokenBlacklisted_iff.mpr ⟨e, entry, listed⟩)
  · exact .inr (lt_div_second.mpr (Int.le_trans bound (Int.not_lt.mp listed)))

/-- A token with the expiry `0` never comes on the blacklist. -/
theorem Reads.unlisted_step (h : Reads lib token username 0)
    (unlisted : s.redis ("blacklist:" ++ token) = none) (taken : s.Steps lib l t) :
    t.redis ("blacklist:" ++ token) = none := by
  obtain ⟨_, rfl⟩ := taken
  obtain ⟨now, request⟩ := l
  cases request with
  | register name password salt =>
      simp only [handle]
      split <;> exact unlisted
  | login name password => exact unlisted
  | refresh other => exact unlisted
  | logout other =>
      by_cases same : other = token
      · rw [same]
        simp only [handle, logout, h.blacklistToken, if_pos]
        exact unlisted
      · exact (blacklistToken_of_ne s.redis same).trans unlisted

/-- Before the expiry, there is a time at which the token is off the blacklist again and not
yet expired. -/
theorem Reads.gap (h : Reads lib token username expiry) (nonzero : expiry ≠ 0)
    (early : u < expiry * second) : ∃ v, u ≤ v ∧
      ¬(isTokenBlacklisted (s.logout lib token u).redis token v = true ∨ expiry < v / second) := by
  have lives := second_le_mul (Int.le_max_right ((expiry * second - u).tdiv second) 1)
  refine ⟨u + max ((expiry * second - u).tdiv second) 1 * second, ?_, ?_⟩
  · exact Int.le_add_of_nonneg_right (Int.le_trans (by decide) lives)
  · rintro (listed | expired)
    · obtain ⟨e, entry, still⟩ := isTokenBlacklisted_iff.mp listed
      simp only [logout, h.blacklistToken, if_neg nonzero, Redis.setex, if_pos,
        Option.some.injEq] at entry
      rw [entry] at still
      exact Int.lt_irrefl _ still
    · exact Int.not_le.mpr (ttl_lt early) (lt_div_second.mp expired)

end Token

end AuthState

section Logout

variable {lib : AuthLib} {settings : AuthSettings} {s : AuthState}
variable {steps : List (Taken AuthState (Time × AuthRequest))}
variable {username : String} {issue u : Time}

/-- A logout revokes a refresh token if and only if its expiry is reached at the logout. -/
theorem logout_revokes (run : Trace (AuthState.Steps lib) {} steps s)
    (issued : Issued lib steps username issue)
    (verifies : lib.decode (createRefreshToken lib settings username issue) =
      some (claims username settings.jwtRefreshExpireMinutes "refresh" issue)) :
    Revoked lib settings (createRefreshToken lib settings username issue)
        (s.logout lib (createRefreshToken lib settings username issue) u) ↔
      expiryOf settings issue * second ≤ u ∧ (expiryOf settings issue = 0 → second ≤ u) := by
  have reads := AuthState.reads_refreshToken verifies
  have active := AuthState.active_of_issued run issued
  generalize createRefreshToken lib settings username issue = token at *
  generalize expiryOf settings issue = expiry at *
  have stays : (s.logout lib token u).Active username := active
  constructor
  · intro revoked
    by_cases zero : expiry = 0
    · subst zero
      have unlisted : (s.logout lib token u).redis ("blacklist:" ++ token) = none := by
        simp only [AuthState.logout, reads.blacklistToken, if_pos]
        exact @Trace.invariant _ _ _ _ _ _ run
          (fun t => t.redis ("blacklist:" ++ token) = none) rfl
          (fun h taken => reads.unlisted_step h taken)
      rcases (reads.refresh_rejected stays).mp (revoked [] _ .nil u (Int.le_refl u)) with listed | expired
      · obtain ⟨e, entry, _⟩ := AuthState.isTokenBlacklisted_iff.mp listed
        rw [unlisted] at entry
        cases entry
      · have late := AuthState.lt_div_second.mp expired
        refine ⟨Int.le_trans (by decide) late, fun _ => late⟩
    · refine ⟨?_, fun impossible => (zero impossible).elim⟩
      by_contra early
      obtain ⟨v, later, accepted⟩ := reads.gap (s := s) zero (Int.not_le.mp early)
      exact accepted ((reads.refresh_rejected stays).mp (revoked [] _ .nil v later))
  · rintro ⟨reached, late⟩ steps' t after v later
    have still : t.Active username := after.invariant stays (fun h taken => taken.active h)
    refine (reads.refresh_rejected still).mpr ?_
    by_cases zero : expiry = 0
    · right
      have passed := @Trace.invariant _ _ _ _ _ _ after (fun t => second ≤ t.clock) (late zero)
        (fun h taken => Int.le_trans h taken.clock_le.1)
      rw [zero]
      exact AuthState.lt_div_second.mpr (Int.le_trans passed later)
    · have outlived : t.Outlived token expiry := after.invariant
        (reads.outlived_logout zero reached) (fun h taken => reads.outlived_step zero h taken)
      exact outlived.rejects

end Logout

section Example

/-- The claims of the refresh token that is issued to a new user half a second after a full
second. -/
def annClaims : Claims := claims "ann" 10080 "refresh" 1777600000500000

def tokenText (claims : Claims) : String :=
  claims.tokenType.getD "" ++ "." ++ claims.sub.getD "" ++ "." ++ toString (claims.exp.getD 0) ++
    "." ++ toString (claims.iat.getD 0)

/-- A library that knows the signature of one token. -/
def annLib : AuthLib where
  encode := tokenText
  decode token := if token = tokenText annClaims then some annClaims else none
  hash salt password := salt ++ password
  verify plainPassword hashedPassword := decide (hashedPassword = "salt" ++ plainPassword)

def annRegister : Time × AuthRequest := (1777600000500000, .register "ann" "secret" "salt")

def annState : AuthState := AuthState.handle annLib {} annRegister.1 annRegister.2

def annSteps : List (Taken AuthState (Time × AuthRequest)) := [⟨{}, annRegister, annState⟩]

theorem annSteps_run : Trace (AuthState.Steps annLib) {} annSteps annState := by
  have taken : AuthState.Steps annLib {} annRegister annState := ⟨by decide, rfl⟩
  exact .concat .nil taken

theorem annSteps_issued : Issued annLib annSteps "ann" 1777600000500000 :=
  ⟨_, List.mem_singleton_self _, ⟨"ann", "saltsecret", true⟩, rfl, rfl, rfl⟩

def annToken : String := createRefreshToken annLib {} "ann" 1777600000500000

/-- The user logs out when the token expires. -/
theorem logout_revokes_ann :
    Revoked annLib {} annToken (annState.logout annLib annToken 1778204800000000) :=
  (logout_revokes annSteps_run annSteps_issued rfl).mpr ⟨by decide, by decide⟩

/-- The user logs out 10.5 seconds before the expiry: 10.2 seconds later the token is accepted. -/
theorem logout_does_not_revoke : ¬ ∀ steps s username issue u,
    Trace (AuthState.Steps annLib) {} steps s → Issued annLib steps username issue →
      annLib.decode (createRefreshToken annLib {} username issue) =
          some (claims username 10080 "refresh" issue) → s.clock ≤ u →
        Revoked annLib {} (createRefreshToken annLib {} username issue)
          (s.logout annLib (createRefreshToken annLib {} username issue) u) := by
  intro revoked
  obtain ⟨e, rejected⟩ := revoked _ _ _ _ 1778204789500000 annSteps_run annSteps_issued rfl
    (by decide) [] _ .nil 1778204799700000 (by decide)
  have accepted : ((annState.logout annLib annToken 1778204789500000).refresh annLib {} annToken
      1778204799700000).toBool = true := by decide +kernel
  rw [show annToken = createRefreshToken annLib {} "ann" 1777600000500000 from rfl, rejected]
    at accepted
  cases accepted

end Example

end OmniSync
