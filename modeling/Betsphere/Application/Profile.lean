import Betsphere.Application.Ports
set_option autoImplicit false

namespace Betsphere
open MachineInt

namespace Image

def allowedTypes : List (String × String) :=
  [("image/png", "png"), ("image/jpeg", "jpg"), ("image/webp", "webp")]

/-- `char::escape_debug` inside a string, on ASCII. -/
def escapeDebug (c : Char) : Text :=
  if c = '"' then ['\\', '"'] else if c = '\\' then ['\\', '\\']
  else if c = '\n' then ['\\', 'n'] else if c = '\t' then ['\\', 't']
  else if c = '\r' then ['\\', 'r'] else if c.toNat = 0 then ['\\', '0']
  else if c.toNat < 32 ∨ c.toNat = 127 then
    ['\\', 'u', '\x7b'] ++ Nat.toDigits 16 c.toNat ++ ['\x7d']
  else [c]

/-- `{content_type:?}`. -/
def debugString (s : String) : String :=
  String.ofList ('"' :: s.toList.flatMap escapeDebug ++ ['"'])

def validate (kind contentType : String) (bytes : List UInt8) (maxBytes : Nat) :
    Except DomainError String :=
  match allowedTypes.find? fun entry => entry.1 = contentType with
  | none => .error (.validation ("unsupported " ++ kind ++ " content type: " ++
      debugString contentType ++ " (allowed: png, jpeg, webp)"))
  | some (_, ext) =>
    if bytes = [] then .error (.validation (kind ++ " file is empty"))
    else if maxBytes < bytes.length then
      .error (.validation (kind ++ " exceeds " ++ toString maxBytes ++ " bytes"))
    else .ok ext

end Image

def maxAvatarBytes : Nat := 2 * 1024 * 1024

/-- The three callers of `UserRepository::save`, with their inputs. -/
inductive ProfileJob where
  | uploadAvatar (userId : UserId) (contentType : String) (bytes : List UInt8)
  | updateUser (userId : UserId) (role : Option Role)
  | topUp (userId : UserId) (bot : String) (amount : Int)
  deriving DecidableEq

namespace ProfileJob

def userId : ProfileJob → UserId
  | uploadAvatar userId .. => userId
  | updateUser userId .. => userId
  | topUp userId .. => userId

def missingUser : ProfileJob → ApplicationError
  | uploadAvatar userId .. => .notFound ("user " ++ toString userId)
  | updateUser userId .. => .notFound ("user " ++ toString userId)
  | topUp _ bot _ => .notFound ("bot " ++ bot)

def validate : ProfileJob → Except DomainError Unit
  | uploadAvatar _ contentType bytes =>
    match Image.validate "avatar" contentType bytes maxAvatarBytes with
    | .error e => .error e
    | .ok _ => .ok ()
  | updateUser _ none => .error (.validation "no fields to update")
  | updateUser _ (some _) => .ok ()
  | topUp .. => .ok ()

inductive Phase where
  | findUser (lookup : Lookup)
  | store (user : User)
  | save (cause : SaveCause) (user : User)
  | refresh (user : User)
  deriving DecidableEq

def onUser (build : Build) (env : Env) : ProfileJob → Option User → Next Phase
  | job, none => .reply (.error job.missingUser)
  | uploadAvatar .., some user => .goto (.store user)
  | updateUser _ none, some user => .goto (.save (.role user.role) user)
  | updateUser _ (some role), some user => .goto (.save (.role role) (user.setRole role env.now))
  | topUp _ _ amount, some user =>
    if amount ≤ user.balance then .reply .done
    else
      match sub64 build (max User.startingBalance amount) user.balance with
      | .error p => .reply (.panicked p)
      | .ok missing =>
        match user.credit missing env.now with
        | .error e => .domainError e
        | .ok user => .goto (.save (.topUp missing) user)

def onStored (env : Env) (user : User) : Next Phase :=
  .goto (.save .avatar (user.setAvatarUrl (some env.url) env.now))

def onSaved (user : User) : Except RepositoryError Unit → Next Phase
  | .error e => .reply (.error (.ofRepository e))
  | .ok () => .goto (.refresh user)

def onRefreshed : ProfileJob → User → Reply
  | uploadAvatar .., user => .user user
  | updateUser .., user => .user user
  | topUp .., _ => .done

def read (build : Build) (env : Env) (db : Db) (cache : Cache) (job : ProfileJob) :
    Phase → Option (Cache × Next Phase)
  | .findUser lookup =>
    match lookup.advance job.userId env db cache with
    | (cache, .inl lookup) => some (cache, .goto (.findUser lookup))
    | (cache, .inr found) => some (cache, job.onUser build env found)
  | .store user => some (cache, onStored env user)
  | .save .. => none
  | .refresh user => some (cache.put env.redisUp user, .reply (job.onRefreshed user))

def write? : Phase → Option Write
  | .save cause user => some (.save cause user)
  | _ => none

def written : Phase → Except RepositoryError Unit → Next Phase
  | .save _ user, result => onSaved user result
  | phase, _ => .goto phase

def remote : Phase → Bool
  | .findUser .load => true
  | .findUser _ => false
  | .store _ => true
  | .save .. => true
  | .refresh _ => false

end ProfileJob

end Betsphere
