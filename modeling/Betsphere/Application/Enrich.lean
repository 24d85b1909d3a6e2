import Betsphere.Application.Betting
import Betsphere.Postgres.BetListing
set_option autoImplicit false

namespace Betsphere
open MachineInt

def brokenLink (what : String) : ApplicationError :=
  .internal ("bet references missing " ++ what)

/-- One group of `PgBetRepository::active_positions`. -/
structure ActivePosition where
  userId : UserId
  outcomeId : OutcomeId
  avgPrice : Price
  deriving DecidableEq

def PgBetRepository.activePosition (db : Db) (pair : UserId × OutcomeId) :
    Option (Except RepositoryError ActivePosition) :=
  (db.averagePrice pair.1 pair.2).map fun average =>
    match Price.fromTenThousandths average with
    | .error e => .error (.storage ("corrupt average price for user " ++ toString pair.1 ++
        " on outcome " ++ toString pair.2 ++ ": " ++ e.message))
    | .ok avgPrice => .ok ⟨pair.1, pair.2, avgPrice⟩

def PgBetRepository.activePositions (db : Db) (pairs : List (UserId × OutcomeId)) :
    Except RepositoryError (List ActivePosition) :=
  (pairs.dedup.filterMap (activePosition db)).mapM id

namespace Enrich

inductive Failure where
  | error (error : ApplicationError)
  | panicked (panic : Panic)
  deriving DecidableEq

inductive Phase where
  | markets (bets : List Bet)
  | outcomes (bets : List Bet) (markets : List Market)
  | positions (bets : List Bet) (markets : List Market) (outcomes : List Outcome)
  | users (bets : List Bet) (markets : List Market) (outcomes : List Outcome)
      (positions : List ActivePosition) (usernames : List (UserId × Username)) (userId : UserId)
      (rest : List UserId) (lookup : Lookup)

inductive Step where
  | goto (phase : Phase)
  | answer (result : Except Failure (List BetView))

def viewOf (markets : List Market) (outcomes : List Outcome) (positions : List ActivePosition)
    (usernames : List (UserId × Username)) (bet : Bet) : Except Failure BetView :=
  match markets.find? fun m => m.id = bet.marketId with
  | none => .error (.error (brokenLink ("market " ++ toString bet.marketId)))
  | some market =>
    match outcomes.find? fun o => o.id = bet.outcomeId with
    | none => .error (.error (brokenLink ("outcome " ++ toString bet.outcomeId)))
    | some outcome =>
      match usernames.find? fun entry => entry.1 = bet.userId with
      | none => .error (.panicked .indexOutOfBounds)
      | some entry =>
        let position := positions.find? fun p =>
          p.userId = bet.userId ∧ p.outcomeId = bet.outcomeId
        .ok ⟨bet, market.title, outcome.label, entry.2,
          (position.map ActivePosition.avgPrice).getD bet.price⟩

def nextUser (bets : List Bet) (markets : List Market) (outcomes : List Outcome)
    (positions : List ActivePosition) (usernames : List (UserId × Username)) :
    List UserId → Step
  | [] => .answer (bets.mapM (viewOf markets outcomes positions usernames))
  | userId :: rest =>
    if usernames.any fun entry => entry.1 = userId then
      nextUser bets markets outcomes positions usernames rest
    else .goto (.users bets markets outcomes positions usernames userId rest .get)

def advance (env : Env) (db : Db) (cache : Cache) : Phase → Cache × Step
  | .markets bets =>
    let ids := bets.map Bet.marketId
    (cache, .goto (.outcomes bets (db.markets.rows.filter fun m => m.id ∈ ids)))
  | .outcomes bets markets =>
    let ids := bets.map Bet.marketId
    (cache, .goto (.positions bets markets (db.outcomes.rows.filter fun o => o.marketId ∈ ids)))
  | .positions bets markets outcomes =>
    match PgBetRepository.activePositions db (bets.map fun b => (b.userId, b.outcomeId)) with
    | .error e => (cache, .answer (.error (.error (.ofRepository e))))
    | .ok positions =>
      (cache, nextUser bets markets outcomes positions [] (bets.map Bet.userId))
  | .users bets markets outcomes positions usernames userId rest lookup =>
    match lookup.advance userId env db cache with
    | (cache, .inl lookup) =>
      (cache, .goto (.users bets markets outcomes positions usernames userId rest lookup))
    | (cache, .inr none) =>
      (cache, .answer (.error (.error (brokenLink ("user " ++ toString userId)))))
    | (cache, .inr (some user)) =>
      (cache, nextUser bets markets outcomes positions ((userId, user.username) :: usernames) rest)

end Enrich

end Betsphere
