import Betsphere.Application.Execution
import Betsphere.Lib.FirstMatch
import Betsphere.Postgres.Effects
set_option autoImplicit false

/-!
The stores of `InMemoryUserRepository`, `InMemoryMarketRepository` and
`InMemoryBetRepository`. A write replaces whole objects by the caller's copies; nothing
is undone when a later step of the same call fails.
-/

namespace Betsphere
open MachineInt

/-- What the locks guard; `events` are those dispatched so far. -/
structure Mem where
  users : Table User.id
  markets : List Market
  outcomes : List Outcome
  bets : List Bet
  pricePoints : List PricePoint
  events : List Event

/-- A stake in the market's aggregates: the volume saturates, the count does not. What was
written before an overflow stays. -/
def Market.recordStake (build : Build) (m : Market) (amount : Int) (newParticipant : Bool) :
    Market × Except Panic Unit :=
  let m := { m with totalVolume := saturatingAdd m.totalVolume amount }
  if newParticipant then
    match add32 build m.participantsCount 1 with
    | .error p => (m, .error p)
    | .ok count => ({ m with participantsCount := count }, .ok ())
  else (m, .ok ())

namespace Mem

def userById (m : Mem) (id : UserId) : Option User := m.users.find? id
def marketById (m : Mem) (id : MarketId) : Option Market := m.markets.find? fun r => r.id = id
def outcomeById (m : Mem) (id : OutcomeId) : Option Outcome := m.outcomes.find? fun o => o.id = id

def outcomesFor (m : Mem) (marketId : MarketId) : List Outcome :=
  m.outcomes.filter fun o => o.marketId = marketId

def activeForMarket (m : Mem) (marketId : MarketId) : List Bet :=
  m.bets.filter fun b => b.marketId = marketId ∧ b.status = .active

def hasBet (m : Mem) (userId : UserId) (marketId : MarketId) : Bool :=
  m.bets.any fun b => b.userId = userId && b.marketId = marketId

def position (m : Mem) (userId : UserId) (outcomeId : OutcomeId) : List Bet :=
  m.bets.filter fun b => b.userId = userId ∧ b.outcomeId = outcomeId ∧ b.status = .active

/-- The accumulators are wide enough; the average is cut down to `i32`. -/
def activePosition (m : Mem) (userId : UserId) (outcomeId : OutcomeId) :
    Except RepositoryError (Option Price) :=
  let group := m.position userId outcomeId
  if amountSum group = 0 then .ok none
  else
    match Price.fromTenThousandths (wrap32 ((weightedSum group).tdiv (amountSum group))) with
    | .error e => .error (.storage ("corrupt average price: " ++ e.message))
    | .ok price => .ok (some price)

def saveUser (m : Mem) (user : User) : Mem := { m with users := m.users.upsert user }

def pushBet (m : Mem) (bet : Bet) : Mem := { m with bets := m.bets ++ [bet] }

/-- The first half of `apply_bet`. -/
def recordStake (build : Build) (m : Mem) (marketId : MarketId) (amount : Int)
    (newParticipant : Bool) : Mem × Except Panic Unit :=
  match m.marketById marketId with
  | none => (m, .ok ())
  | some market =>
    match market.recordStake build amount newParticipant with
    | (market, result) =>
      ({ m with markets := FirstMatch.update Market.id marketId (fun _ => market) m.markets },
        result)

/-- The second half of `apply_bet`: the priced copies take the place of the stored ones. -/
def applyPriced (m : Mem) (priced : List Outcome) (points : List PricePoint) : Mem :=
  { m with
    outcomes := FirstMatch.overwrite Outcome.id priced m.outcomes
    pricePoints := m.pricePoints ++ points }

def resolveMarket (m : Mem) (market : Market) : Mem :=
  { m with markets := FirstMatch.update Market.id market.id (fun _ => market) m.markets }

def replaceBet (m : Mem) (bet : Bet) : Mem :=
  { m with bets := FirstMatch.update Bet.id bet.id (fun _ => bet) m.bets }

def dispatch (m : Mem) (events : List Event) : Mem := { m with events := m.events ++ events }

def debited (m : Mem) (now : DateTime) (bet : Bet) : Except RepositoryError User :=
  match m.userById bet.userId with
  | none => .error (.storage ("bettor " ++ toString bet.userId ++ " not found"))
  | some user =>
    match user.debit bet.amount now with
    | .error _ => .error (.conflict "balance no longer covers the stake")
    | .ok user => .ok user

def credited (m : Mem) (now : DateTime) (userId : UserId) (payout : Int) :
    Except RepositoryError User :=
  match m.userById userId with
  | none => .error (.storage ("winner " ++ toString userId ++ " not found"))
  | some user =>
    match user.credit payout now with
    | .error e => .error (.storage ("payout failed: " ++ e.message))
    | .ok user => .ok user

def place (build : Build) (now : DateTime) (bet : Bet) (priced : List Outcome)
    (points : List PricePoint) (m : Mem) : Mem × PortAnswer :=
  match m.debited now bet with
  | .error e => (m, .failed e)
  | .ok user =>
    let m := m.saveUser user
    let newParticipant := !m.hasBet bet.userId bet.marketId
    let m := m.pushBet bet
    match m.recordStake build bet.marketId bet.amount newParticipant with
    | (m, .error p) => (m, .panicked p)
    | (m, .ok ()) => ((m.applyPriced priced points).dispatch (placeEvents bet), .done)

def settleBets (now : DateTime) : List Bet → Mem → Mem × Except RepositoryError Unit
  | [], m => (m, .ok ())
  | bet :: rest, m =>
    let m := m.replaceBet bet
    match bet.payout with
    | none => settleBets now rest m
    | some payout =>
      match m.credited now bet.userId payout with
      | .error e => (m, .error e)
      | .ok user => settleBets now rest (m.saveUser user)

def settle (now : DateTime) (market : Market) (settled : List Bet) (m : Mem) : Mem × PortAnswer :=
  match settleBets now settled (m.resolveMarket market) with
  | (m, .error e) => (m, .failed e)
  | (m, .ok ()) => (m.dispatch ((paidUsers settled).map .userBalanceChanged), .done)

end Mem

def inMemoryRepositories (build : Build) : Repositories Mem where
  outcomeById := Mem.outcomeById
  marketById := Mem.marketById
  outcomesFor := Mem.outcomesFor
  userById := Mem.userById
  activePosition := Mem.activePosition
  activeForMarket := fun _ m marketId => m.activeForMarket marketId
  place := fun env bet priced points m => m.place build env.now bet priced points
  settle := fun env market settled m => m.settle env.now market settled

namespace Sample

def yes : OutcomeLabel := ⟨['y', 'e', 's'], by decide, by decide, by decide⟩
def no : OutcomeLabel := ⟨['n', 'o'], by decide, by decide, by decide⟩

def evens : Price := ⟨5000, by decide⟩

end Sample

end Betsphere
