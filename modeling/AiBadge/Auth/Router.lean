import AiBadge.Model.Database

/-! # Registration and the current user

Registration creates an organization, its owner and a virtual microphone. The
Unicode tables behind `lower` and `strip`, and the password hash, are parameters.
-/

namespace AiBadge

open Lib Prog DbM

/-- What registration takes from Python's text functions and from bcrypt. -/
structure AuthEnv where
  lower : String → String
  isSpace : Char → Bool
  hashPassword : String → Except String String

/-- Python's `s.strip(chars)`. -/
def strip (p : Char → Bool) (s : List Char) : List Char :=
  ((s.dropWhile p).reverse.dropWhile p).reverse

/-- The class `[a-z0-9]`. -/
def isSlugChar (c : Char) : Bool := ('a' ≤ c && c ≤ 'z') || ('0' ≤ c && c ≤ '9')

/-- `re.sub(r"[^a-z0-9]+", "-", s)`; the flag says that the current run is already replaced. -/
def subRuns : Bool → List Char → List Char
  | _, [] => []
  | inRun, c :: cs =>
    if isSlugChar c then c :: subRuns false cs
    else if inRun then subRuns true cs
    else '-' :: subRuns true cs

def slugify (env : AuthEnv) (name : String) : String :=
  String.ofList (strip (· = '-') (subRuns false (strip env.isSpace (env.lower name).toList)))

structure RegisterRequest where
  email : String
  password : String
  displayName : String
  orgName : String

/-- The four values drawn by a registration. -/
structure RegisterIds where
  org : Uuid
  user : Uuid
  device : Uuid
  suffix : Uuid

def register (env : AuthEnv) (ids : RegisterIds) (body : RegisterRequest) : DbM Unit := do
  let existing ← read fun db => db.users.any fun u => u.email = body.email
  ensure (!existing) (.http 409 "Email already registered")
  let slug := slugify env body.orgName
  let existingOrg ← read fun db => db.organizations.any fun o => o.slug = slug
  insertOrganization
    { id := ids.org, name := body.orgName
      slug := if existingOrg then s!"{slug}-{take ids.suffix.hex 6}" else slug }
  let passwordHash ← answer ((env.hashPassword body.password).mapError .valueError)
  insertUser
    { id := ids.user, orgId := ids.org, email := body.email, passwordHash
      displayName := body.displayName, role := "owner" }
  insertDevice
    { id := ids.device, userId := ids.user, name := "virtual_phone_mic"
      deviceKey := s!"virtual-{ids.user.str}", deviceType := "virtual_phone_mic"
      status := "active" }

/-- The user a valid token names. -/
def getCurrentUser (subject : Uuid) : DbM User := do
  require (← read fun db => db.users.find? fun u => u.id = subject) (.http 401 "User not found")

end AiBadge
