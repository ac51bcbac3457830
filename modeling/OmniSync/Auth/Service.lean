import OmniSync.Schema

/-!
# Users and tokens

The JWT library signs claims and reads them back; whether they have expired it decides by the
whole second of its clock. A Redis key that `SETEX` wrote exists until its time to live is
over. Every request reads the clock once.
-/

namespace OmniSync

structure User where
  username : String
  hashedPassword : String
  isActive : Bool := true
  deriving DecidableEq, Repr

/-- The payload of a token, with the claims that are present. -/
structure Claims where
  sub : Option String
  exp : Option Int
  iat : Option Int
  tokenType : Option String
  deriving DecidableEq, Repr

/-- What `jose` and `passlib` do with one secret: `decode` verifies the signature. -/
structure AuthLib where
  encode : Claims → String
  decode : String → Option Claims
  hash : (salt password : String) → String
  verify : (plainPassword hashedPassword : String) → Bool

structure AuthSettings where
  jwtExpireMinutes : Int := 1440
  jwtRefreshExpireMinutes : Int := 10080

structure TokenResponse where
  accessToken : String
  refreshToken : String
  tokenType : String := "bearer"
  deriving DecidableEq, Repr

structure TokenPayload where
  sub : String
  exp : Int
  iat : Int
  tokenType : String := "access"
  deriving DecidableEq, Repr

def UnauthorizedError (detail : String) : Exn := ⟨"UnauthorizedError", "401: " ++ detail⟩

def InvalidTokenError (detail : String) : Exn := ⟨"InvalidTokenError", "401: " ++ detail⟩

def TokenExpiredError : Exn := ⟨"TokenExpiredError", "401: Token has expired"⟩

def UserAlreadyExistsError : Exn := ⟨"UserAlreadyExistsError", "409: User already exists"⟩

/-- The keys of Redis, with the instant at which each of them ceases to exist. -/
abbrev Redis := String → Option Time

namespace Redis

def setex (redis : Redis) (key : String) (ttl : Int) (now : Time) : Redis :=
  fun key' => if key' = key then some (now + ttl * second) else redis key'

def holds (redis : Redis) (key : String) (now : Time) : Bool :=
  match redis key with
  | some expiry => decide (now < expiry)
  | none => false

end Redis

namespace AuthService

section Tokens

variable (lib : AuthLib) (settings : AuthSettings)

/-- The claims of a token, with its datetimes truncated to seconds by the library. -/
def claims (username : String) (minutes : Int) (tokenType : String) (now : Time) : Claims where
  sub := some username
  exp := some ((now + minutes * 60 * second) / second)
  iat := some (now / second)
  tokenType := some tokenType

def createAccessToken (username : String) (now : Time) : String :=
  lib.encode (claims username settings.jwtExpireMinutes "access" now)

def createRefreshToken (username : String) (now : Time) : String :=
  lib.encode (claims username settings.jwtRefreshExpireMinutes "refresh" now)

def tokenResponse (username : String) (now : Time) : TokenResponse where
  accessToken := createAccessToken lib settings username now
  refreshToken := createRefreshToken lib settings username now

/-- The claims that the token response needs. -/
def payloadOf (claims : Claims) (tokenType : String) : Except Exn TokenPayload :=
  match claims.sub, claims.exp, claims.iat with
  | some sub, some exp, some iat => .ok ⟨sub, exp, iat, tokenType⟩
  | none, _, _ => .error ⟨"KeyError", "'sub'"⟩
  | _, none, _ => .error ⟨"KeyError", "'exp'"⟩
  | _, _, none => .error ⟨"KeyError", "'iat'"⟩

def verifyToken (token : String) (expectedType : String) (now : Time) :
    Except Exn TokenPayload :=
  match lib.decode token with
  | none => .error (InvalidTokenError "Invalid token")
  | some claims =>
      if claims.exp.any (fun exp => decide (exp < now / second)) then
        .error TokenExpiredError
      else
        let tokenType := claims.tokenType.getD "access"
        if tokenType ≠ expectedType then
          .error (InvalidTokenError
            ("Expected " ++ expectedType ++ " token, got " ++ tokenType))
        else payloadOf claims tokenType

/-- The expiry is not verified, and the time to live is at least one second. -/
def blacklistToken (redis : Redis) (token : String) (now : Time) : Redis :=
  match (lib.decode token).bind Claims.exp with
  | none => redis
  | some exp =>
      if exp = 0 then redis
      else
        let ttl := max ((exp * second - now).tdiv second) 1
        redis.setex ("blacklist:" ++ token) ttl now

def isTokenBlacklisted (redis : Redis) (token : String) (now : Time) : Bool :=
  redis.holds ("blacklist:" ++ token) now

end Tokens

section Users

variable (lib : AuthLib)

def getUserByUsername (users : List User) (username : String) : Option User :=
  users.find? (fun user => decide (user.username = username))

/-- The new user, whom the caller commits. -/
def createUser (users : List User) (username password salt : String) : Except Exn User :=
  match getUserByUsername users username with
  | some _ => .error UserAlreadyExistsError
  | none => .ok { username := username, hashedPassword := lib.hash salt password }

def authenticateUser (users : List User) (username password : String) : Except Exn User :=
  match getUserByUsername users username with
  | none => .error (UnauthorizedError "Invalid username or password")
  | some user =>
      if lib.verify password user.hashedPassword then
        if user.isActive then .ok user
        else .error (UnauthorizedError "User account is disabled")
      else .error (UnauthorizedError "Invalid username or password")

end Users

end AuthService

end OmniSync
