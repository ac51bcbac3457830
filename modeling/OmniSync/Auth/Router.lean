import OmniSync.Data.Trace
import OmniSync.Auth.Service

/-!
# The authentication endpoints

A state is the table of users, Redis and the latest reading of the clock. Each request finds
the user for whom it issues tokens, or it raises; a logout issues none.
-/

namespace OmniSync

structure AuthState where
  users : List User := []
  redis : Redis := fun _ => none
  clock : Time := 0

inductive AuthRequest where
  | register (username password salt : String)
  | login (username password : String)
  | refresh (token : String)
  | logout (token : String)

namespace AuthState

variable (lib : AuthLib) (settings : AuthSettings) (s : AuthState)

def refreshUser (token : String) (now : Time) : Except Exn User := do
  if AuthService.isTokenBlacklisted s.redis token now then
    .error (UnauthorizedError "Refresh token has been revoked")
  else
    let payload ← AuthService.verifyToken lib token "refresh" now
    match AuthService.getUserByUsername s.users payload.sub with
    | none => .error (UnauthorizedError "User not found")
    | some user =>
        if user.isActive then .ok user
        else .error (UnauthorizedError "User account is disabled")

def refresh (token : String) (now : Time) : Except Exn TokenResponse :=
  (s.refreshUser lib token now).map (fun user =>
    AuthService.tokenResponse lib settings user.username now)

def logout (token : String) (now : Time) : AuthState :=
  { s with redis := AuthService.blacklistToken lib s.redis token now, clock := now }

/-- The user for whom the request issues tokens. -/
def userOf (now : Time) : AuthRequest → Except Exn (Option User)
  | .register username password salt =>
      (AuthService.createUser lib s.users username password salt).map some
  | .login username password => (AuthService.authenticateUser lib s.users username password).map some
  | .refresh token => (s.refreshUser lib token now).map some
  | .logout _ => .ok none

/-- The answer of a request. -/
def answer (now : Time) (request : AuthRequest) : Except Exn (Option TokenResponse) :=
  (s.userOf lib now request).map (Option.map fun user =>
    AuthService.tokenResponse lib settings user.username now)

def handle (now : Time) : AuthRequest → AuthState
  | .register username password salt =>
      match AuthService.createUser lib s.users username password salt with
      | .ok user => { s with users := s.users ++ [user], clock := now }
      | .error _ => { s with clock := now }
  | .login _ _ => { s with clock := now }
  | .refresh _ => { s with clock := now }
  | .logout token => s.logout lib token now

/-- Requests come one after the other. -/
def Steps (s : AuthState) (l : Time × AuthRequest) (t : AuthState) : Prop :=
  s.clock ≤ l.1 ∧ t = s.handle lib l.1 l.2

end AuthState

end OmniSync
