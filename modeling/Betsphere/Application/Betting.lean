import Betsphere.Application.Ports
import Betsphere.Domain.Pricing
set_option autoImplicit false

/-!
The betting use cases, cut at their awaits. A phase holds what the use case has
read so far; each function below is the code between two awaits.
-/

namespace Betsphere
open MachineInt Pricing

structure NewBet where
  outcomeId : OutcomeId
  amount : Int
  deriving DecidableEq

structure NewMarket where
  title : Text
  description : Option Text
  category : Option Text
  closesAt : Option DateTime
  outcomes : List Text
  deriving DecidableEq

def foreignOutcome (outcomeId : OutcomeId) (marketId : MarketId) : DomainError :=
  .ruleViolation ("outcome " ++ toString outcomeId ++ " does not belong to market " ++
    toString marketId)

def adminRequired : ApplicationError := .forbidden "admin role required"

namespace CreateMarket

/-- One outcome for each label, with identifiers drawn from the `k`-th on. -/
def newOutcomes (env : Env) (marketId : MarketId) : (k : Nat) → List Text →
    Except DomainError (List Outcome)
  | _, [] => .ok []
  | k, label :: labels =>
    match OutcomeLabel.new label with
    | .error e => .error e
    | .ok label =>
      match newOutcomes env marketId (k + 1) labels with
      | .error e => .error e
      | .ok rest => .ok (Outcome.new ⟨env.fresh k⟩ marketId label Price.zero :: rest)

/-- Everything before `markets.create`. -/
def prepare (build : Build) (env : Env) (actor : Actor) (input : NewMarket) :
    Next (Market × List Outcome) :=
  if ¬canManageMarkets actor.role then .reply (.error adminRequired)
  else if input.outcomes.length < 2 then
    .domainError (.validation "a market needs at least two outcomes")
  else
    match MarketTitle.new input.title with
    | .error e => .domainError e
    | .ok title =>
      let market := Market.new ⟨env.fresh 0⟩ title input.description input.category
        input.closesAt env.now
      match newOutcomes env market.id 1 input.outcomes with
      | .error e => .domainError e
      | .ok outcomes =>
        match recalculatePrices build outcomes with
        | .error p => .reply (.panicked p)
        | .ok priced => .goto (market, priced)

def write? (env : Env) (prepared : Market × List Outcome) : Option Write :=
  some (.create prepared.1 prepared.2 env.now)

def written (prepared : Market × List Outcome) :
    Except RepositoryError Unit → Next (Market × List Outcome)
  | .error e => .reply (.error (.ofRepository e))
  | .ok () => .reply (.market prepared.1 prepared.2)

end CreateMarket

namespace PlaceBet

inductive Phase where
  | readOutcome
  | readMarket (outcome : Outcome)
  | readOutcomes (market : Market)
  | findUser (market : Market) (outcomes : List Outcome) (chosen : Nat) (lookup : Lookup)
  | place (market : Market) (user : User) (bet : Bet) (priced : List Outcome) (chosen : Nat)
      (points : List PricePoint)
  | readPosition (market : Market) (user : User) (bet : Bet) (priced : List Outcome)
      (chosen : Nat)
  deriving DecidableEq

def onOutcome (input : NewBet) : Option Outcome → Next Phase
  | none => .reply (.error (.notFound ("outcome " ++ toString input.outcomeId)))
  | some outcome => .goto (.readMarket outcome)

def onMarket (env : Env) (outcome : Outcome) : Option Market → Next Phase
  | none => .reply (.error (.notFound ("market " ++ toString outcome.marketId)))
  | some market =>
    if market.acceptsBets env.now then .goto (.readOutcomes market)
    else .domainError (.ruleViolation "market is not accepting bets")

def onOutcomes (input : NewBet) (market : Market) (outcomes : List Outcome) : Next Phase :=
  match outcomes.findIdx? fun o => o.id = input.outcomeId with
  | none => .domainError (foreignOutcome input.outcomeId market.id)
  | some chosen => .goto (.findUser market outcomes chosen .get)

/-- The outcomes a placement prices: the stake is on the chosen one. -/
def staked (outcomes : List Outcome) (chosen : Nat) (amount : Int) : List Outcome :=
  outcomes.modify chosen fun o => o.addVolume amount

/-- The code from the user found up to the call of `recalculate_prices`. -/
def back (env : Env) (actor : Actor) (input : NewBet) (market : Market) (outcomes : List Outcome)
    (chosen : Nat) : Option User → Except Reply (User × Bet × List Outcome)
  | none => .error (.error (.notFound ("user " ++ toString actor.userId)))
  | some user =>
    if user.balance < input.amount then
      .error (.error (.domain (.ruleViolation "insufficient balance")))
    else
      match outcomes[chosen]? with
      | none => .error (.panicked .indexOutOfBounds)
      | some outcome =>
        -- An outcome nobody has backed is at zero; the bet buys at one tick.
        let price := outcome.currentPrice.max Price.minTick
        match Bet.place ⟨env.fresh 0⟩ actor.userId market.id input.outcomeId input.amount price
            env.now with
        | .error e => .error (.error (.domain e))
        | .ok bet => .ok (user, bet, staked outcomes chosen bet.amount)

def onUser (build : Build) (env : Env) (actor : Actor) (input : NewBet) (market : Market)
    (outcomes : List Outcome) (chosen : Nat) (found : Option User) : Next Phase :=
  match back env actor input market outcomes chosen found with
  | .error r => .reply r
  | .ok (user, bet, backed) =>
    match recalculatePrices build backed with
    | .error p => .reply (.panicked p)
    | .ok priced =>
      .goto (.place market user bet priced chosen
        (priced.map fun o => ⟨o.id, o.currentPrice, env.now⟩))

def onPlaced (market : Market) (user : User) (bet : Bet) (priced : List Outcome) (chosen : Nat) :
    Except RepositoryError Unit → Next Phase
  | .error e => .reply (.error (.ofRepository e))
  | .ok () => .goto (.readPosition market user bet priced chosen)

def viewFor (market : Market) (user : User) (bet : Bet) (priced : List Outcome) (chosen : Nat)
    (avgPrice : Price) : Reply :=
  match priced[chosen]? with
  | none => .panicked .indexOutOfBounds
  | some outcome => .bet ⟨bet, market.title, outcome.label, user.username, avgPrice⟩

/-- A bet settled meanwhile is in no position; then its own price is the average. -/
def onPosition (market : Market) (user : User) (bet : Bet) (priced : List Outcome) (chosen : Nat) :
    Option Int → Reply
  | none => viewFor market user bet priced chosen bet.price
  | some average =>
    match Price.fromTenThousandths average with
    | .error e => .error (.internal ("corrupt average price for user " ++ toString bet.userId ++
        " on outcome " ++ toString bet.outcomeId ++ ": " ++ e.message))
    | .ok avgPrice => viewFor market user bet priced chosen avgPrice

/-- One read of a placement: the cache after it and the code up to the next await. -/
def read (build : Build) (env : Env) (db : Db) (cache : Cache) (actor : Actor) (input : NewBet) :
    Phase → Option (Cache × Next Phase)
  | .readOutcome => some (cache, onOutcome input (db.outcomeById input.outcomeId))
  | .readMarket outcome => some (cache, onMarket env outcome (db.marketById outcome.marketId))
  | .readOutcomes market => some (cache, onOutcomes input market (db.outcomesFor market.id))
  | .findUser market outcomes chosen lookup =>
    match lookup.advance actor.userId env db cache with
    | (cache, .inl lookup) => some (cache, .goto (.findUser market outcomes chosen lookup))
    | (cache, .inr found) =>
      some (cache, onUser build env actor input market outcomes chosen found)
  | .place .. => none
  | .readPosition market user bet priced chosen =>
    some (cache, .reply (onPosition market user bet priced chosen
      (db.averagePrice actor.userId input.outcomeId)))

def write? : Phase → Option Write
  | .place _ _ bet priced _ points => some (.place bet priced points)
  | _ => none

def written : Phase → Except RepositoryError Unit → Next Phase
  | .place market user bet priced chosen _, result => onPlaced market user bet priced chosen result
  | phase, _ => .goto phase

/-- Whether the pending await can fail; the cache never does. -/
def remote : Phase → Bool
  | .findUser _ _ _ .load => true
  | .findUser _ _ _ _ => false
  | _ => true

end PlaceBet

namespace ResolveMarket

inductive Phase where
  | readMarket
  | readOutcomes (market : Market)
  | readActive (market : Market) (outcomes : List Outcome)
  | settle (market : Market) (outcomes : List Outcome) (settled : List Bet)
  deriving DecidableEq

def onMarket (marketId : MarketId) : Option Market → Next Phase
  | none => .reply (.error (.notFound ("market " ++ toString marketId)))
  | some market => .goto (.readOutcomes market)

/-- The guard against resolving twice looks at the copy read before. -/
def onOutcomes (marketId : MarketId) (winner : OutcomeId) (market : Market)
    (outcomes : List Outcome) : Next Phase :=
  if outcomes.any fun o => o.id = winner then
    match market.resolve winner with
    | .error e => .domainError e
    | .ok market => .goto (.readActive market outcomes)
  else .domainError (foreignOutcome winner marketId)

def settleOne (winner : OutcomeId) (bet : Bet) : Except DomainError Bet :=
  if bet.outcomeId = winner then bet.settleAsWinner else bet.settleAsLoser

def settleAll (winner : OutcomeId) : List Bet → Except DomainError (List Bet)
  | [] => .ok []
  | bet :: bets =>
    match settleOne winner bet with
    | .error e => .error e
    | .ok bet =>
      match settleAll winner bets with
      | .error e => .error e
      | .ok bets => .ok (bet :: bets)

def onActive (winner : OutcomeId) (market : Market) (outcomes : List Outcome) (active : List Bet) :
    Next Phase :=
  match settleAll winner active with
  | .error e => .domainError e
  | .ok settled => .goto (.settle market outcomes settled)

def onSettled (market : Market) (outcomes : List Outcome) : Except RepositoryError Unit → Reply
  | .error e => .error (.ofRepository e)
  | .ok () => .market market outcomes

def read (env : Env) (db : Db) (cache : Cache) (marketId : MarketId) (winner : OutcomeId) :
    Phase → Option (Cache × Next Phase)
  | .readMarket => some (cache, onMarket marketId (db.marketById marketId))
  | .readOutcomes market => some (cache,
      onOutcomes marketId winner market (db.outcomesFor marketId))
  | .readActive market outcomes =>
    let active := db.activeForMarket marketId
    if (env.scan active).Perm active then
      some (cache, onActive winner market outcomes (env.scan active))
    else none
  | .settle .. => none

def write? : Phase → Option Write
  | .settle market _ settled => some (.settle market settled)
  | _ => none

def written : Phase → Except RepositoryError Unit → Next Phase
  | .settle market outcomes _, result => .reply (onSettled market outcomes result)
  | phase, _ => .goto phase

end ResolveMarket

end Betsphere
