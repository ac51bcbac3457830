import OmniSync.Auth.Revocation

/-!
# Sessions

A protected endpoint admits the user of an access token. Clients present what they have been
given: a token that verifies was issued before, since nobody else knows the secret. Then every
user that is admitted has given a password, and has renewed the tokens ever since without a gap
that is longer than a refresh token lives.
-/

namespace OmniSync

open AuthService

/-- The token of an authorization header. -/
def bearerToken (authorization : String) : Except Exn String :=
  if "Bearer ".toList.isPrefixOf authorization.toList then
    .ok (String.ofList (authorization.toList.drop 7))
  else .error (UnauthorizedError "Invalid authorization header format")

namespace AuthState

variable (lib : AuthLib) (s : AuthState)

/-- The user of a token of the type, unless the token has been revoked. -/
def tokenUser (token expectedType revoked : String) (now : Time) : Except Exn User := do
  if isTokenBlacklisted s.redis token now then
    .error (UnauthorizedError revoked)
  else
    let payload ← verifyToken lib token expectedType now
    match getUserByUsername s.users payload.sub with
    | none => .error (UnauthorizedError "User not found")
    | some user =>
        if user.isActive then .ok user
        else .error (UnauthorizedError "User account is disabled")

/-- The user on whose behalf a protected endpoint is called. -/
def getCurrentUser (authorization : String) (now : Time) : Except Exn User := do
  let token ← bearerToken authorization
  s.tokenUser lib token "access" "Token has been revoked" now

theorem refreshUser_eq (token : String) (now : Time) : s.refreshUser lib token now =
    s.tokenUser lib token "refresh" "Refresh token has been revoked" now := rfl

end AuthState

theorem bearerToken_bearer (token : String) : bearerToken ("Bearer " ++ token) = .ok token := by
  have split : ("Bearer " ++ token).toList = "Bearer ".toList ++ token.toList :=
    String.toList_append
  have start : "Bearer ".toList.isPrefixOf ("Bearer " ++ token).toList = true := by
    rw [split]
    exact List.isPrefixOf_iff_prefix.mpr (List.prefix_append _ _)
  unfold bearerToken
  rw [if_pos start, split]
  exact congrArg Except.ok String.ofList_toList

section Admission

variable {lib : AuthLib} {s : AuthState} {token expectedType revoked : String} {now : Time}
variable {user : User}

/-- The claims admit their subject at a time. -/
structure Claims.Admit (claims : Claims) (expectedType username : String) (now : Time) : Prop where
  sub : claims.sub = some username
  exp : ∃ exp, claims.exp = some exp ∧ now / second ≤ exp
  iat : claims.iat.isSome
  tokenType : claims.tokenType.getD "access" = expectedType

theorem verifyToken_eq_ok {payload : TokenPayload} (h : verifyToken lib token expectedType now =
      .ok payload) : ∃ claims, lib.decode token = some claims ∧
    claims.Admit expectedType payload.sub now := by
  unfold verifyToken at h
  cases read : lib.decode token with
  | none =>
      rw [read] at h
      cases h
  | some claims =>
      obtain ⟨sub, exp, iat, tokenType⟩ := claims
      rw [read] at h
      dsimp only at h
      split at h
      · cases h
      · next fresh =>
          split at h
          · cases h
          · next typed =>
              unfold payloadOf at h
              split at h
              · next sub' exp' iat' subject expiry issued =>
                  cases h
                  dsimp only at subject expiry issued
                  subst subject expiry issued
                  refine ⟨_, rfl, rfl, ⟨exp', rfl, ?_⟩, rfl, not_not.mp typed⟩
                  simpa using fresh
              all_goals cases h

theorem verifyToken_of_admits {claims : Claims} {username : String}
    (read : lib.decode token = some claims) (h : claims.Admit expectedType username now) :
    ∃ payload, verifyToken lib token expectedType now = .ok payload ∧ payload.sub = username := by
  obtain ⟨sub, exp, iat, tokenType⟩ := claims
  obtain ⟨rfl, ⟨exp', rfl, fresh⟩, issued, typed⟩ := h
  obtain ⟨iat', rfl⟩ := Option.isSome_iff_exists.mp issued
  refine ⟨⟨username, exp', iat', tokenType.getD "access"⟩, ?_, rfl⟩
  unfold verifyToken
  rw [read]
  dsimp only
  rw [if_neg (by simpa using fresh), if_neg (not_not.mpr typed)]
  rfl

/-- Who is admitted. -/
theorem tokenUser_eq_ok_iff : s.tokenUser lib token expectedType revoked now = .ok user ↔
    isTokenBlacklisted s.redis token now = false ∧ ∃ claims, lib.decode token = some claims ∧
      claims.Admit expectedType user.username now ∧
        getUserByUsername s.users user.username = some user ∧ user.isActive = true := by
  unfold AuthState.tokenUser
  by_cases listed : isTokenBlacklisted s.redis token now = true
  · simp [listed]
  · rw [if_neg listed, Bool.not_eq_true] at *
    constructor
    · intro h
      cases verified : verifyToken lib token expectedType now with
      | error e =>
          rw [verified] at h
          cases h
      | ok payload =>
          obtain ⟨claims, read, admits⟩ := verifyToken_eq_ok verified
          rw [verified] at h
          simp only [bind, Except.bind] at h
          cases find : getUserByUsername s.users payload.sub with
          | none =>
              rw [find] at h
              cases h
          | some found =>
              rw [find] at h
              dsimp only at h
              split at h
              · next active =>
                  cases h
                  have same : user.username = payload.sub := by
                    unfold getUserByUsername at find
                    simpa using List.find?_some find
                  rw [same]
                  exact ⟨listed, claims, read, admits, find, active⟩
              · cases h
    · rintro ⟨-, claims, read, admits, find, active⟩
      obtain ⟨payload, verified, same⟩ := verifyToken_of_admits read admits
      simp only [verified, bind, Except.bind, same, find, if_pos active]

end Admission

section Runs

variable (lib : AuthLib) (settings : AuthSettings)

/-- The library verifies the tokens that were issued for a user at this time. -/
structure Signs (username : String) (issue : Time) : Prop where
  access : lib.decode (createAccessToken lib settings username issue) =
    some (claims username settings.jwtExpireMinutes "access" issue)
  refresh : lib.decode (createRefreshToken lib settings username issue) =
    some (claims username settings.jwtRefreshExpireMinutes "refresh" issue)

/-- If the token verifies, a request of the run has been answered with it. -/
def Unforged (steps : List (Taken AuthState (Time × AuthRequest))) (token : String) : Prop :=
  (lib.decode token).isSome → ∃ username issue, Issued lib steps username issue ∧
    (token = createAccessToken lib settings username issue ∨
      token = createRefreshToken lib settings username issue)

/-- The token that a request presents. -/
def AuthRequest.token : AuthRequest → Option String
  | refresh token => some token
  | logout token => some token
  | _ => none

/-- Requests come one after the other, and nobody forges a token. -/
inductive AuthRun (s : AuthState) : List (Taken AuthState (Time × AuthRequest)) → AuthState → Prop
  | nil : AuthRun s [] s
  | concat {steps : List (Taken AuthState (Time × AuthRequest))} {t u : AuthState}
      {l : Time × AuthRequest} (before : AuthRun s steps t) (taken : t.Steps lib l u)
      (presented : ∀ token, l.2.token = some token → Unforged lib settings steps token) :
      AuthRun s (steps ++ [⟨t, l, u⟩]) u

/-- The request proves who the user is, by a new account or by the password of an active one. -/
def PasswordGiven (s : AuthState) (username : String) : AuthRequest → Prop
  | .register name _ _ => name = username ∧ getUserByUsername s.users name = none
  | .login name password => name = username ∧ ∃ user, getUserByUsername s.users name = some user ∧
      lib.verify password user.hashedPassword = true ∧ user.isActive = true
  | _ => False

/-- Tokens were issued for the user at this time: a password was given then, or a refresh token
of an earlier time was presented before it had expired. -/
inductive LoginSession (steps : List (Taken AuthState (Time × AuthRequest))) (username : String) :
    Time → Prop
  | password {x : Taken AuthState (Time × AuthRequest)} (here : x ∈ steps)
      (given : PasswordGiven lib x.before username x.label.2) :
      LoginSession steps username x.label.1
  | renewed {x : Taken AuthState (Time × AuthRequest)} {issue : Time} (here : x ∈ steps)
      (earlier : LoginSession steps username issue) (later : issue ≤ x.label.1)
      (request : x.label.2 = .refresh (createRefreshToken lib settings username issue))
      (valid : x.label.1 / second ≤ expiryOf settings issue) :
      LoginSession steps username x.label.1

/-- The expiry of an access token, in seconds. -/
def accessExpiryOf (issue : Time) : Int :=
  (issue + settings.jwtExpireMinutes * 60 * second) / second

end Runs

section Chains

variable {lib : AuthLib} {settings : AuthSettings} {s t : AuthState}
variable {steps steps' : List (Taken AuthState (Time × AuthRequest))}
variable {username token : String} {issue now : Time}

theorem AuthRun.trace (h : AuthRun lib settings s steps t) :
    Trace (AuthState.Steps lib) s steps t := by
  induction h with
  | nil => exact .nil
  | concat _ taken _ ih => exact .concat ih taken

theorem Issued.append (h : Issued lib steps username issue) :
    Issued lib (steps ++ steps') username issue := by
  obtain ⟨x, hx, rest⟩ := h
  exact ⟨x, List.mem_append_left _ hx, rest⟩

theorem LoginSession.append (h : LoginSession lib settings steps username issue) :
    LoginSession lib settings (steps ++ steps') username issue := by
  induction h with
  | password here given => exact .password (List.mem_append_left _ here) given
  | renewed here _ later request valid ih =>
      exact .renewed (List.mem_append_left _ here) ih later request valid

/-- A token of one kind stems from an answer, which issued it for its subject. -/
theorem Unforged.issued (unforged : Unforged lib settings steps token)
    (signs : ∀ username issue, Issued lib steps username issue → Signs lib settings username issue)
    {claims' : Claims} (read : lib.decode token = some claims') {expectedType : String}
    (admits : claims'.Admit expectedType username now) : ∃ issue, Issued lib steps username issue ∧
      ((expectedType = "access" ∧ token = createAccessToken lib settings username issue ∧
          now / second ≤ accessExpiryOf settings issue) ∨
        (expectedType = "refresh" ∧ token = createRefreshToken lib settings username issue ∧
          now / second ≤ expiryOf settings issue)) := by
  obtain ⟨name, issue, issued, which⟩ := unforged (by rw [read]; rfl)
  have signed := signs name issue issued
  obtain ⟨sub, ⟨exp, expires, fresh⟩, -, typed⟩ := admits
  rcases which with rfl | rfl
  · obtain rfl := Option.some.inj (read.symm.trans signed.access)
    cases sub
    cases expires
    exact ⟨issue, issued, .inl ⟨typed.symm, rfl, fresh⟩⟩
  · obtain rfl := Option.some.inj (read.symm.trans signed.refresh)
    cases sub
    cases expires
    exact ⟨issue, issued, .inr ⟨typed.symm, rfl, fresh⟩⟩

/-- Whenever tokens are issued, a password has been given. -/
theorem session_of_issued (run : AuthRun lib settings s steps t)
    (signs : ∀ username issue, Issued lib steps username issue → Signs lib settings username issue)
    (issued : Issued lib steps username issue) :
    LoginSession lib settings steps username issue ∧ issue ≤ t.clock := by
  induction run generalizing username issue with
  | nil =>
      obtain ⟨x, hx, -⟩ := issued
      cases hx
  | @concat steps t u l before taken presented ih =>
      have earlier := fun username issue issued => signs username issue (Issued.append issued)
      obtain ⟨monotone, now⟩ := taken.clock_le
      obtain ⟨x, hx, user, time, same, granted⟩ := issued
      rcases List.mem_append.mp hx with old | new
      · obtain ⟨session, le⟩ := ih earlier ⟨x, old, user, time, same, granted⟩
        exact ⟨session.append, Int.le_trans le monotone⟩
      · obtain rfl := List.mem_singleton.mp new
        subst time same
        refine ⟨?_, Int.le_of_eq now.symm⟩
        obtain ⟨when', request⟩ := l
        cases request with
        | register name password salt =>
            have created := AuthState.map_some_ok granted
            refine .password hx ?_
            unfold createUser at created
            cases find : getUserByUsername t.users name with
            | some other =>
                rw [find] at created
                cases created
            | none =>
                rw [find] at created
                cases created
                exact ⟨rfl, find⟩
        | login name password =>
            have authenticated := AuthState.map_some_ok granted
            refine .password hx ?_
            unfold authenticateUser at authenticated
            cases find : getUserByUsername t.users name with
            | none =>
                rw [find] at authenticated
                cases authenticated
            | some found =>
                rw [find] at authenticated
                dsimp only at authenticated
                split at authenticated
                · next verified =>
                    split at authenticated
                    · next active =>
                        cases authenticated
                        have named : user.username = name := by
                          unfold getUserByUsername at find
                          simpa using List.find?_some find
                        exact ⟨named.symm, user, find, verified, active⟩
                    · cases authenticated
                · cases authenticated
        | refresh token =>
            have renewed := AuthState.map_some_ok granted
            rw [AuthState.refreshUser_eq, tokenUser_eq_ok_iff] at renewed
            obtain ⟨-, claims', read, admits, -, -⟩ := renewed
            obtain ⟨issue, issued, ⟨impossible, -⟩ | ⟨-, rfl, valid⟩⟩ :=
              (presented token rfl).issued earlier read admits
            · exact absurd impossible (by decide)
            · obtain ⟨session, le⟩ := ih earlier issued
              exact .renewed hx session.append (Int.le_trans le taken.1) rfl valid
        | logout token => cases granted

end Chains

/-- Nobody forges tokens. Then a user is admitted to a protected endpoint only by an access token
that has not expired, and that was issued for him in a session which began with his password, at
a login or when he registered. -/
theorem access_needs_password {lib : AuthLib} {settings : AuthSettings} {s t : AuthState}
    {steps : List (Taken AuthState (Time × AuthRequest))} (run : AuthRun lib settings s steps t)
    (signs : ∀ username issue, Issued lib steps username issue → Signs lib settings username issue)
    {authorization : String} {now : Time} {user : User}
    (presented : ∀ token, bearerToken authorization = .ok token → Unforged lib settings steps token)
    (admitted : t.getCurrentUser lib authorization now = .ok user) :
    ∃ issue, LoginSession lib settings steps user.username issue ∧
      bearerToken authorization = .ok (createAccessToken lib settings user.username issue) ∧
        now / second ≤ accessExpiryOf settings issue := by
  unfold AuthState.getCurrentUser at admitted
  cases header : bearerToken authorization with
  | error e =>
      rw [header] at admitted
      cases admitted
  | ok token =>
      rw [header] at admitted
      obtain ⟨-, claims', read, admits, -, -⟩ := tokenUser_eq_ok_iff.mp admitted
      obtain ⟨issue, issued, ⟨-, rfl, valid⟩ | ⟨impossible, -⟩⟩ :=
        (presented token header).issued signs read admits
      · exact ⟨issue, (session_of_issued run signs issued).1, rfl, valid⟩
      · exact absurd impossible (by decide)

/-- An access token that nobody has logged out is good until the second of its expiry is over,
whatever happens to the refresh token that was issued with it. -/
theorem access_admitted_iff {lib : AuthLib} {settings : AuthSettings} {s : AuthState}
    {steps : List (Taken AuthState (Time × AuthRequest))} {username : String} {issue now : Time}
    (run : Trace (AuthState.Steps lib) {} steps s) (issued : Issued lib steps username issue)
    (verifies : lib.decode (createAccessToken lib settings username issue) =
      some (claims username settings.jwtExpireMinutes "access" issue))
    (kept : ∀ x ∈ steps, x.label.2 ≠ .logout (createAccessToken lib settings username issue)) :
    (∃ user, user.username = username ∧ s.getCurrentUser lib
        ("Bearer " ++ createAccessToken lib settings username issue) now = .ok user) ↔
      now / second ≤ accessExpiryOf settings issue := by
  unfold AuthState.getCurrentUser
  rw [bearerToken_bearer]
  constructor
  · rintro ⟨user, rfl, admitted⟩
    obtain ⟨-, claims', read, admits, -, -⟩ := tokenUser_eq_ok_iff.mp admitted
    obtain rfl := Option.some.inj (verifies.symm.trans read)
    obtain ⟨exp, expires, fresh⟩ := admits.exp
    cases expires
    exact fresh
  · intro fresh
    obtain ⟨user, find, active⟩ := AuthState.active_of_issued run issued
    have named : user.username = username := by
      unfold getUserByUsername at find
      simpa using List.find?_some find
    have unlisted :
        s.redis ("blacklist:" ++ createAccessToken lib settings username issue) = none := by
      refine (@Trace.forall_of_met _ _ _ _ _ _ run (fun t : AuthState =>
        t.redis ("blacklist:" ++ createAccessToken lib settings username issue) = none)
        _ rfl ?_ kept).1
      rintro t ⟨time, request⟩ u absent ⟨-, rfl⟩ other
      cases request with
      | register name password salt =>
          simp only [AuthState.handle]
          split <;> exact absent
      | login name password => exact absent
      | refresh presented => exact absent
      | logout presented =>
          refine (AuthState.blacklistToken_of_ne t.redis (fun same => other ?_)).trans absent
          rw [same]
    refine ⟨user, named, tokenUser_eq_ok_iff.mpr ⟨?_, _, verifies, ?_, named ▸ find, active⟩⟩
    · unfold isTokenBlacklisted Redis.holds
      rw [unlisted]
    · exact ⟨congrArg some named.symm, ⟨_, rfl, fresh⟩, rfl, rfl⟩

section Example

/-- The claims of the tokens that a new user gets, and of those that he renews them to. -/
def benClaims : List Claims :=
  [claims "ben" 1440 "access" 1777600000500000, claims "ben" 10080 "refresh" 1777600000500000,
    claims "ben" 1440 "access" 1777700000000000, claims "ben" 10080 "refresh" 1777700000000000]

def benLib : AuthLib where
  encode := tokenText
  decode token := benClaims.find? (fun claims => decide (tokenText claims = token))
  hash salt password := salt ++ password
  verify plainPassword hashedPassword := decide (hashedPassword = "salt" ++ plainPassword)

def benRegister : Time × AuthRequest := (1777600000500000, .register "ben" "secret" "salt")

def benRefresh : Time × AuthRequest :=
  (1777700000000000, .refresh (createRefreshToken benLib {} "ben" 1777600000500000))

def benLogout : Time × AuthRequest :=
  (1777700060000000, .logout (createRefreshToken benLib {} "ben" 1777700000000000))

def benState : AuthState := AuthState.handle benLib {} benRegister.1 benRegister.2

def renewedState : AuthState := benState.handle benLib benRefresh.1 benRefresh.2

def leftState : AuthState := renewedState.handle benLib benLogout.1 benLogout.2

def benSteps : List (Taken AuthState (Time × AuthRequest)) :=
  [⟨{}, benRegister, benState⟩, ⟨benState, benRefresh, renewedState⟩,
    ⟨renewedState, benLogout, leftState⟩]

theorem benRegister_user : AuthState.userOf benLib {} benRegister.1 benRegister.2 =
    .ok (some ⟨"ben", "saltsecret", true⟩) := rfl

theorem benRefresh_user : benState.userOf benLib benRefresh.1 benRefresh.2 =
    .ok (some ⟨"ben", "saltsecret", true⟩) := by decide +kernel

theorem issued_first (rest : List (Taken AuthState (Time × AuthRequest))) :
    Issued benLib (⟨{}, benRegister, benState⟩ :: rest) "ben" 1777600000500000 :=
  ⟨_, List.mem_cons_self, _, rfl, rfl, benRegister_user⟩

theorem issued_renewed (rest : List (Taken AuthState (Time × AuthRequest))) :
    Issued benLib (⟨{}, benRegister, benState⟩ :: ⟨benState, benRefresh, renewedState⟩ :: rest)
      "ben" 1777700000000000 :=
  ⟨_, List.mem_cons_of_mem _ List.mem_cons_self, _, rfl, rfl, benRefresh_user⟩

theorem benSteps_issued {username : String} {issue : Time}
    (h : Issued benLib benSteps username issue) :
    username = "ben" ∧ (issue = 1777600000500000 ∨ issue = 1777700000000000) := by
  obtain ⟨x, hx, user, rfl, rfl, granted⟩ := h
  rcases List.mem_cons.mp hx with rfl | hx
  · cases benRegister_user.symm.trans granted
    exact ⟨rfl, .inl rfl⟩
  · rcases List.mem_cons.mp hx with rfl | hx
    · cases benRefresh_user.symm.trans granted
      exact ⟨rfl, .inr rfl⟩
    · rw [List.mem_singleton.mp hx] at granted
      cases granted

theorem benLib_signs {username : String} {issue : Time}
    (h : Issued benLib benSteps username issue) : Signs benLib {} username issue := by
  obtain ⟨rfl, rfl | rfl⟩ := benSteps_issued h
  · exact ⟨by decide +kernel, by decide +kernel⟩
  · exact ⟨by decide +kernel, by decide +kernel⟩

theorem benSteps_run : AuthRun benLib {} {} benSteps leftState := by
  have first : AuthState.Steps benLib {} benRegister benState := ⟨by decide, rfl⟩
  have renewed : AuthState.Steps benLib benState benRefresh renewedState := ⟨by decide, rfl⟩
  have left : AuthState.Steps benLib renewedState benLogout leftState := ⟨by decide, rfl⟩
  refine .concat (.concat (.concat .nil first ?_) renewed ?_) left ?_
  · exact fun token impossible => (nomatch impossible)
  · rintro _ ⟨⟩ _
    exact ⟨"ben", _, issued_first [], .inr rfl⟩
  · rintro _ ⟨⟩ _
    exact ⟨"ben", _, issued_renewed [], .inr rfl⟩

/-- The header with the renewed access token. -/
def benHeader : String := "Bearer " ++ createAccessToken benLib {} "ben" 1777700000000000

theorem renewed_admitted : leftState.getCurrentUser benLib benHeader 1777780000000000 =
    .ok ⟨"ben", "saltsecret", true⟩ := by decide +kernel

/-- The renewed access token admits its user, who has given a password. -/
theorem access_needs_password_ben : ∃ issue, LoginSession benLib {} benSteps "ben" issue ∧
    bearerToken benHeader = .ok (createAccessToken benLib {} "ben" issue) ∧
      1777780000000000 / second ≤ accessExpiryOf {} issue := by
  refine access_needs_password benSteps_run (fun _ _ issued => benLib_signs issued) ?_
    renewed_admitted
  intro token header _
  rw [benHeader, bearerToken_bearer] at header
  cases header
  exact ⟨"ben", _, issued_renewed _, .inl rfl⟩

/-- It does so after the refresh token has been logged out, until it expires itself. -/
theorem access_admitted_iff_ben : (∃ user, user.username = "ben" ∧
    leftState.getCurrentUser benLib benHeader 1777786400000000 = .ok user) ∧
      ¬ ∃ user, user.username = "ben" ∧
        leftState.getCurrentUser benLib benHeader 1777786401000000 = .ok user := by
  have kept : ∀ x ∈ benSteps,
      x.label.2 ≠ .logout (createAccessToken benLib {} "ben" 1777700000000000) := by
    intro x hx same
    rcases List.mem_cons.mp hx with rfl | hx
    · cases same
    · rcases List.mem_cons.mp hx with rfl | hx
      · cases same
      · rw [List.mem_singleton.mp hx] at same
        injection same with tokens
        exact absurd tokens (by decide +kernel)
  have verifies := (benLib_signs (issued_renewed _)).access
  have admits := fun now => @access_admitted_iff benLib {} leftState benSteps "ben"
    1777700000000000 now benSteps_run.trace (issued_renewed _) verifies kept
  exact ⟨(admits _).mpr (by decide), fun admitted => absurd ((admits _).mp admitted) (by decide)⟩

end Example

end OmniSync
