import Betsphere.Domain.Entities
set_option autoImplicit false

namespace Betsphere

/-- `str::split_once`: what stands before and after the first `sep`. -/
def splitOnce (sep : Char) (s : Text) : Option (Text × Text) :=
  match s.dropWhile (· ≠ sep) with
  | [] => none
  | _ :: after => some (s.takeWhile (· ≠ sep), after)

/-- `lowercase` is `str::to_lowercase`, by the Unicode case tables. -/
def Email.new (lowercase : Text → Text) (value : Text) : Except DomainError Email :=
  let value := lowercase (trim value)
  let valid := (splitOnce '@' value).any fun (name, host) =>
    name ≠ [] && host.contains '.' && host.head? ≠ some '.' && host.getLast? ≠ some '.'
  if valid then .ok ⟨value⟩
  else .error (.validation ("invalid email: " ++ String.ofList value))

/-- A plaintext password, only while a registration or a login runs. -/
structure Password where
  value : Text
  length : 8 ≤ value.length ∧ value.length ≤ 256
  deriving DecidableEq

def Password.new (value : Text) : Except DomainError Password :=
  if h : 8 ≤ value.length ∧ value.length ≤ 256 then .ok ⟨value, h⟩
  else .error (.validation "password must be 8-256 characters")

/-- The stored record of a refresh token; the token itself is not in it. -/
structure RefreshToken where
  id : Uuid
  userId : UserId
  tokenHash : Text
  expiresAt : DateTime
  createdAt : DateTime
  deriving DecidableEq

namespace RefreshToken

def new (id : Uuid) (userId : UserId) (tokenHash : Text) (expiresAt now : DateTime) :
    RefreshToken :=
  { id, userId, tokenHash, expiresAt, createdAt := now }

def isExpired (t : RefreshToken) (now : DateTime) : Bool := t.expiresAt ≤ now

end RefreshToken

/-- `Uuid::new_v4().simple()` twice: 32 hexadecimal digits each. -/
def generateRefreshToken (first second : Uuid) : Text :=
  hexDigits 32 first.toNat ++ hexDigits 32 second.toNat

inductive AuthPortError where
  | invalidToken
  | internal (message : String)
  deriving DecidableEq, Repr

def ApplicationError.ofAuthPort : AuthPortError → ApplicationError
  | .invalidToken => .unauthorized "invalid token"
  | .internal message => .internal message

end Betsphere
