import Betsphere.Domain.Values
import Betsphere.Lib.MachineInt
set_option autoImplicit false

namespace Betsphere
open MachineInt

/-- Money is in minimal units; `Int` with the `i64` operations of `MachineInt`. -/
structure User where
  id : UserId
  username : Username
  email : Email
  passwordHash : PasswordHash
  avatarUrl : Option Text
  balance : Int
  role : Role
  createdAt : DateTime
  updatedAt : DateTime
  deriving DecidableEq

namespace User

def startingBalance : Int := 10000

def new (id : UserId) (username : Username) (email : Email) (passwordHash : PasswordHash)
    (now : DateTime) : User :=
  { id, username, email, passwordHash, avatarUrl := none, balance := startingBalance,
    role := .user, createdAt := now, updatedAt := now }

def setAvatarUrl (u : User) (url : Option Text) (now : DateTime) : User :=
  { u with avatarUrl := url, updatedAt := now }

def setRole (u : User) (role : Role) (now : DateTime) : User :=
  { u with role, updatedAt := now }

def debit (u : User) (amount : Int) (now : DateTime) : Except DomainError User :=
  if amount ≤ 0 then .error (.validation "debit amount must be positive")
  else if u.balance < amount then .error (.ruleViolation "insufficient balance")
  else .ok { u with balance := u.balance - amount, updatedAt := now }

def credit (u : User) (amount : Int) (now : DateTime) : Except DomainError User :=
  if amount ≤ 0 then .error (.validation "credit amount must be positive")
  else .ok { u with balance := saturatingAdd u.balance amount, updatedAt := now }

end User

inductive MarketStatus where
  | opened | closed | resolved
  deriving DecidableEq, Repr

structure Market where
  id : MarketId
  title : MarketTitle
  description : Option Text
  category : Option Text
  thumbnailUrl : Option Text
  status : MarketStatus
  resolvedOutcomeId : Option OutcomeId
  totalVolume : Int
  participantsCount : Int
  createdAt : DateTime
  closesAt : Option DateTime
  deriving DecidableEq

def normaliseOptional (value : Option Text) : Option Text :=
  (value.map trim).filter (· ≠ [])

namespace Market

def new (id : MarketId) (title : MarketTitle) (description category : Option Text)
    (closesAt : Option DateTime) (now : DateTime) : Market :=
  { id, title, description := normaliseOptional description,
    category := normaliseOptional category, thumbnailUrl := none, status := .opened,
    resolvedOutcomeId := none, totalVolume := 0, participantsCount := 0, createdAt := now,
    closesAt }

def resolve (m : Market) (winner : OutcomeId) : Except DomainError Market :=
  if m.status = .resolved then .error (.ruleViolation "market is already resolved")
  else .ok { m with status := .resolved, resolvedOutcomeId := some winner }

def acceptsBets (m : Market) (now : DateTime) : Bool :=
  m.status = .opened && m.closesAt.all (now < ·)

theorem resolve_ok {m m' : Market} {winner : OutcomeId} (h : m.resolve winner = .ok m') :
    m.status ≠ .resolved ∧ m' = { m with status := .resolved, resolvedOutcomeId := some winner } := by
  unfold resolve at h
  by_cases hs : m.status = .resolved
  · simp [hs] at h
  · simp [hs] at h
    exact ⟨hs, h.symm⟩

theorem acceptsBets_opened {m : Market} {now : DateTime} (h : m.acceptsBets now = true) :
    m.status = .opened := by
  simp [acceptsBets] at h
  exact h.1

end Market

structure Outcome where
  id : OutcomeId
  marketId : MarketId
  label : OutcomeLabel
  thumbnailUrl : Option Text
  currentPrice : Price
  volume : Int
  deriving DecidableEq

namespace Outcome

def new (id : OutcomeId) (marketId : MarketId) (label : OutcomeLabel) (currentPrice : Price) :
    Outcome :=
  { id, marketId, label, thumbnailUrl := none, currentPrice, volume := 0 }

def setCurrentPrice (o : Outcome) (price : Price) : Outcome := { o with currentPrice := price }

def addVolume (o : Outcome) (amount : Int) : Outcome :=
  { o with volume := saturatingAdd o.volume amount }

end Outcome

inductive BetStatus where
  | active | won | lost | refunded
  deriving DecidableEq, Repr

/-- A stake on one outcome, at the price fixed when it was placed. `place` and the
table's CHECK constraints let no other amount or price in. -/
structure Bet where
  id : BetId
  userId : UserId
  marketId : MarketId
  outcomeId : OutcomeId
  amount : Int
  price : Price
  status : BetStatus
  payout : Option Int
  createdAt : DateTime
  amountPositive : 0 < amount
  pricePositive : 0 < price.tenThousandths
  deriving DecidableEq

namespace Bet

def place (id : BetId) (userId : UserId) (marketId : MarketId) (outcomeId : OutcomeId)
    (amount : Int) (price : Price) (now : DateTime) : Except DomainError Bet :=
  if ha : amount ≤ 0 then .error (.validation "bet amount must be positive")
  else if hp : price = Price.zero then .error (.validation "bet price must be above zero")
  else .ok {
    id, userId, marketId, outcomeId, amount, price
    status := .active
    payout := none
    createdAt := now
    amountPositive := by omega
    pricePositive := by
      have hne : price.tenThousandths ≠ 0 := fun h => hp (Price.eq_of_tenThousandths h)
      have := price.inRange.1
      omega }

def ensureActive (b : Bet) : Except DomainError Unit :=
  if b.status = .active then .ok ()
  else .error (.ruleViolation ("bet " ++ toString b.id ++ " is already settled"))

/-- `amount * 10000 / price`, floored; the product saturates. -/
def winnings (b : Bet) : Int :=
  (saturatingMul b.amount Price.scale).tdiv b.price.tenThousandths

def settleAsWinner (b : Bet) : Except DomainError Bet :=
  match b.ensureActive with
  | .error e => .error e
  | .ok () => .ok { b with status := .won, payout := some b.winnings }

def settleAsLoser (b : Bet) : Except DomainError Bet :=
  match b.ensureActive with
  | .error e => .error e
  | .ok () => .ok { b with status := .lost, payout := none }

theorem place_ok {id : BetId} {userId : UserId} {marketId : MarketId} {outcomeId : OutcomeId}
    {amount : Int} {price : Price} {now : DateTime} {b : Bet}
    (h : place id userId marketId outcomeId amount price now = .ok b) :
    b.id = id ∧ b.userId = userId ∧ b.marketId = marketId ∧ b.outcomeId = outcomeId ∧
      b.amount = amount ∧ b.price = price ∧ b.status = .active ∧ b.payout = none := by
  unfold place at h
  split at h
  · simp at h
  · split at h
    · simp at h
    · simp only [Except.ok.injEq] at h
      subst h
      simp

theorem ensureActive_ok {b : Bet} (h : b.ensureActive = .ok ()) : b.status = .active := by
  unfold ensureActive at h
  by_cases hs : b.status = .active
  · exact hs
  · simp [hs] at h

theorem winnings_nonneg (b : Bet) : 0 ≤ b.winnings := by
  have ha := b.amountPositive
  have hp := b.pricePositive
  unfold winnings saturatingMul
  refine Int.tdiv_nonneg (saturate64_nonneg ?_) hp.le
  unfold Price.scale; omega

end Bet

structure PricePoint where
  outcomeId : OutcomeId
  price : Price
  recordedAt : DateTime
  deriving DecidableEq

/-- A domain event as a repository records it with the change it describes. -/
inductive Event where
  | userBalanceChanged : UserId → Event
  | betPlaced : BetId → Event
  | marketPricesUpdated : MarketId → Event
  deriving DecidableEq

end Betsphere
