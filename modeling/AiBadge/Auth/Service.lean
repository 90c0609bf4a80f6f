import AiBadge.Auth.Router
import AiBadge.Model.UuidText

/-! # Tokens, passwords and login

The access tokens, the login endpoint and the user behind the credentials of a request.
The token library and bcrypt are parameters; what they promise is a structure of its own.
-/

namespace AiBadge

open Lib Prog DbM

/-- The payload of an access token. -/
structure Claims where
  sub : String
  orgId : String
  role : String
  iat : Timestamp
  exp : Timestamp

/-- The part of a decoded payload that is read. -/
structure Payload where
  sub : Option String

/-- The settings, and what the backend takes from Python's text functions, from bcrypt and from
the token library, with the secret key. -/
structure Backend where
  lower : String → String
  tables : Unicode
  hashpw : (salt password : String) → Except String String
  checkpw : (password hash : String) → Except String Bool
  encode : Claims → String
  decode : Timestamp → String → Option Payload
  accessTokenExpireMinutes : Int := 60

namespace Backend

variable (b : Backend)

/-- The environment of a registration whose hash is salted with `salt`. -/
def authEnv (salt : String) : AuthEnv := ⟨b.lower, b.tables.isSpace, b.hashpw salt⟩

def uuid? (text : String) : Option Uuid := (Uuid.parse b.tables text).toOption

def accessClaims (now : Timestamp) (userId orgId : Uuid) (role : String) : Claims where
  sub := userId.str
  orgId := orgId.str
  role := role
  iat := now
  exp := now + seconds (60 * b.accessTokenExpireMinutes)

def createAccessToken (now : Timestamp) (userId orgId : Uuid) (role : String) : String :=
  b.encode (b.accessClaims now userId orgId role)

def verifyPassword (plainPassword hashed : String) : DbM Bool :=
  answer ((b.checkpw plainPassword hashed).mapError .valueError)

end Backend

/-- The whole seconds of a time, as tokens store them. -/
def Timestamp.whole (t : Timestamp) : Int := t / 1000000

/-- What the libraries promise: a token decodes to its claims until the second in which it
expires, and a password checks against a hash exactly when bcrypt reads the same from it as
from the hashed one. -/
structure Backend.Sound {κ : Type} (b : Backend) (covered : String → κ) : Prop where
  decode_encode : ∀ c now, b.decode now (b.encode c) =
    if now.whole ≤ c.exp.whole then some ⟨some c.sub⟩ else none
  checkpw_hashpw : ∀ salt password hash, b.hashpw salt password = .ok hash →
    ∀ p, b.checkpw p hash = .ok true ↔ covered p = covered password

structure TokenResponse where
  accessToken : String
  tokenType : String := "bearer"
  userId : String
  orgId : String
  role : String

/-- The response that hands a new token to a user. -/
def tokenResponse (b : Backend) (now : Timestamp) (userId orgId : Uuid) (role : String) :
    TokenResponse where
  accessToken := b.createAccessToken now userId orgId role
  userId := userId.str
  orgId := orgId.str
  role := role

/-- `POST /auth/register`, with the response behind the rows of the account. -/
def registerEndpoint (b : Backend) (salt : String) (ids : RegisterIds) (now : Timestamp)
    (body : RegisterRequest) : DbM TokenResponse := do
  register (b.authEnv salt) ids body
  return tokenResponse b now ids.user ids.org "owner"

structure LoginRequest where
  email : String
  password : String

def login (b : Backend) (now : Timestamp) (body : LoginRequest) : DbM TokenResponse := do
  let refused : Exn := .http 401 "Invalid email or password"
  let user ← require (← read fun db => db.users.find? fun u => u.email = body.email) refused
  let verified ← b.verifyPassword body.password user.passwordHash
  ensure verified refused
  return tokenResponse b now user.id user.orgId user.role

/-- `get_current_user`, for the token of the bearer credentials. -/
def Backend.getCurrentUser (b : Backend) (now : Timestamp) (token : String) : DbM User := do
  let payload ← require (b.decode now token) (.http 401 "Invalid or expired token")
  let sub ← require payload.sub (.http 401 "Invalid token payload")
  let userId ← require (b.uuid? sub) (.http 401 "Invalid token payload")
  AiBadge.getCurrentUser userId

end AiBadge
