import Betsphere.Postgres.Database
set_option autoImplicit false

namespace Betsphere

/-- What the surroundings answer during one step. `scan` is the order in which a
`SELECT` without `ORDER BY` returns its rows. -/
structure Env where
  now : DateTime
  fresh : Nat → Uuid
  url : Text
  redisUp : Bool
  scan : List Bet → List Bet

def Env.txVars (env : Env) : TxVars := ⟨env.now, false⟩

inductive CacheKey where
  | id (id : UserId)
  | email (email : Email)
  | username (username : Username)
  deriving DecidableEq

abbrev Cache := CacheKey → Option User

def userKeys (u : User) : List CacheKey := [.id u.id, .email u.email, .username u.username]

namespace Cache

def empty : Cache := fun _ => none

/-- Every cache failure is a miss. -/
def get (cache : Cache) (redisUp : Bool) (key : CacheKey) : Option User :=
  if redisUp then cache key else none

/-- Stores the user under all three keys, or nothing when Redis is down. -/
def put (cache : Cache) (redisUp : Bool) (u : User) : Cache :=
  if redisUp then fun key => if key ∈ userKeys u then some u else cache key else cache

def delete (cache : Cache) (key : CacheKey) : Cache :=
  fun k => if k = key then none else cache k

theorem put_cases {cache : Cache} {redisUp : Bool} {u v : User} {key : CacheKey}
    (h : cache.put redisUp u key = some v) : v = u ∨ cache key = some v := by
  by_cases hup : redisUp
  · by_cases hk : key ∈ userKeys u
    · simp only [put, hup, hk, if_true, Option.some.injEq] at h
      exact .inl h.symm
    · simp only [put, hup, hk, if_true, if_false] at h
      exact .inr h
  · simp only [put, hup] at h
    exact .inr h

theorem delete_some {cache : Cache} {key k : CacheKey} {v : User}
    (h : cache.delete key k = some v) : cache k = some v := by
  unfold delete at h
  split at h
  · simp at h
  · exact h

end Cache

/-- `CachedUserRepository::find_by_id` between its awaits. -/
inductive Lookup where
  | get
  | load
  | put (found : User)
  deriving DecidableEq

def Lookup.advance (userId : UserId) (env : Env) (db : Db) (cache : Cache) :
    Lookup → Cache × (Lookup ⊕ Option User)
  | .get =>
    match cache.get env.redisUp (.id userId) with
    | some u => (cache, .inr (some u))
    | none => (cache, .inl .load)
  | .load =>
    match db.userById userId with
    | some u => (cache, .inl (.put u))
    | none => (cache, .inr none)
  | .put u => (cache.put env.redisUp u, .inr (some u))

inductive SaveCause where
  | registration
  | avatar
  | role (role : Role)
  | topUp (amount : Int)
  deriving DecidableEq

/-- The transactions of the repositories. -/
inductive Write where
  | create (market : Market) (outcomes : List Outcome) (now : DateTime)
  | place (bet : Bet) (priced : List Outcome) (points : List PricePoint)
  | settle (market : Market) (settled : List Bet)
  | save (cause : SaveCause) (user : User)
  deriving DecidableEq

def Write.program : Write → List Statement
  | .create market outcomes now => createProgram market outcomes now
  | .place bet priced points => placeProgram bet priced points
  | .settle market settled => settleProgram market settled
  | .save _ user => saveProgram user

/-- A bet with the names its listing shows and the bettor's average price. -/
structure BetView where
  bet : Bet
  marketTitle : MarketTitle
  outcomeLabel : OutcomeLabel
  username : Username
  avgPrice : Price
  deriving DecidableEq

inductive Reply where
  | bet (view : BetView)
  | market (market : Market) (outcomes : List Outcome)
  | user (user : User)
  | done
  | error (error : ApplicationError)
  | panicked (panic : MachineInt.Panic)
  deriving DecidableEq

inductive Next (φ : Type) where
  | goto (phase : φ)
  | reply (reply : Reply)

def Next.domainError {φ : Type} (e : DomainError) : Next φ := .reply (.error (.domain e))

end Betsphere
