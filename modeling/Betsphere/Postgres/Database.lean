import Betsphere.Domain.Averages
import Betsphere.Lib.Table
import Betsphere.Lib.RowLock
import Betsphere.Postgres.Numeric
set_option autoImplicit false

/-!
The tables the betting core reads and writes, and its SQL statements one by one.
Rows are kept as the entities they convert to; the order of a table's rows is the
order of insertion, which is what `seq` records for the outcomes.
-/

namespace Betsphere
open MachineInt

structure Db where
  users : Table User.id
  markets : Table Market.id
  outcomes : Table Outcome.id
  bets : Table Bet.id
  priceHistory : List PricePoint
  outbox : List Event

namespace Db

def empty : Db := ⟨.empty, .empty, .empty, .empty, [], []⟩

def userById (db : Db) (id : UserId) : Option User := db.users.find? id
def marketById (db : Db) (id : MarketId) : Option Market := db.markets.find? id
def outcomeById (db : Db) (id : OutcomeId) : Option Outcome := db.outcomes.find? id

/-- `WHERE market_id = $1 ORDER BY seq`. -/
def outcomesFor (db : Db) (marketId : MarketId) : List Outcome :=
  db.outcomes.rows.filter fun o => o.marketId = marketId

def activeForMarket (db : Db) (marketId : MarketId) : List Bet :=
  db.bets.rows.filter fun b => b.marketId = marketId ∧ b.status = .active

def activePosition (db : Db) (userId : UserId) (outcomeId : OutcomeId) : List Bet :=
  db.bets.rows.filter fun b => b.userId = userId ∧ b.outcomeId = outcomeId ∧ b.status = .active

/-- `FLOOR(SUM(amount * price) / SUM(amount))` over one group; no row, no group. -/
def averagePrice (db : Db) (userId : UserId) (outcomeId : OutcomeId) : Option Int :=
  match db.activePosition userId outcomeId with
  | [] => none
  | group => some (Numeric.floorDiv (weightedSum group) (amountSum group))

def hasBet (db : Db) (userId : UserId) (marketId : MarketId) : Bool :=
  db.bets.rows.any fun b => b.userId = userId && b.marketId = marketId

end Db

inductive RowVersion where
  | user (row : User)
  | market (row : Market)
  | outcome (row : Outcome)
  | bet (row : Bet)
  | pricePoint (row : PricePoint)
  | event (row : Event)

inductive RowKey where
  | user (id : UserId)
  | market (id : MarketId)
  | outcome (id : OutcomeId)
  | bet (id : BetId)
  deriving DecidableEq

namespace RowVersion

def write : RowVersion → Db → Db
  | .user row, db => { db with users := db.users.upsert row }
  | .market row, db => { db with markets := db.markets.upsert row }
  | .outcome row, db => { db with outcomes := db.outcomes.upsert row }
  | .bet row, db => { db with bets := db.bets.upsert row }
  | .pricePoint row, db => { db with priceHistory := db.priceHistory ++ [row] }
  | .event row, db => { db with outbox := db.outbox ++ [row] }

/-- Rows with a sequence-drawn key never meet another writer. -/
def key : RowVersion → Option RowKey
  | .user row => some (.user row.id)
  | .market row => some (.market row.id)
  | .outcome row => some (.outcome row.id)
  | .bet row => some (.bet row.id)
  | .pricePoint _ => none
  | .event _ => none

end RowVersion

inductive Statement where
  | debit (userId : UserId) (amount : Int)
  | selectRepeatBettor (userId : UserId) (marketId : MarketId)
  | insertBet (bet : Bet)
  | updateOutcome (id : OutcomeId) (staked : Int) (price : Price)
  | updateMarketTotals (id : MarketId) (amount : Int)
  | insertPricePoint (point : PricePoint)
  | publish (event : Event)
  | updateMarketStatus (id : MarketId) (status : MarketStatus) (resolved : Option OutcomeId)
  | updateBetStatus (id : BetId) (status : BetStatus) (payout : Option Int)
  | credit (userId : UserId) (payout : Int)
  | upsertUser (user : User)
  | insertMarket (market : Market)
  | insertOutcome (outcome : Outcome)

/-- `now()` is fixed at the start of a transaction; `repeatBettor` is the one
result a program keeps between its statements. -/
structure TxVars where
  now : DateTime
  repeatBettor : Bool

def databaseError (message : String) : RepositoryError :=
  .storage ("error returned from database: " ++ message)

/-- No `text` value holds a NUL character; one that does is refused with its statement. -/
def storable (text : Text) : Bool := !text.contains (Char.ofNat 0)

def invalidEncoding : RepositoryError :=
  databaseError "invalid byte sequence for encoding \"UTF8\": 0x00"

/-- A `chrono` time in nanoseconds since the epoch. -/
abbrev Nanos := Int

namespace Timestamptz

/-- The year 2000, from which the server counts. -/
def epoch : DateTime := 946684800000000

/-- 4714 BC, and the year 294277. -/
def lowest : DateTime := -210866803200000000
def highest : DateTime := 9224318016000000000

/-- What is left of a time that the driver binds: the nanoseconds are cut off, toward the
server's epoch. -/
def cut (t : Nanos) : DateTime := epoch + (t - 1000 * epoch).tdiv 1000

def encode (t : Nanos) : Except RepositoryError DateTime :=
  if lowest ≤ cut t ∧ cut t < highest then .ok (cut t)
  else .error (databaseError "timestamp out of range")

/-- A time that the column holds as it is. -/
def Exact (t : Nanos) : Prop := lowest ≤ cut t ∧ cut t < highest ∧ 1000 * cut t = t

instance decidableExact (t : Nanos) : Decidable (Exact t) :=
  inferInstanceAs (Decidable (_ ∧ _ ∧ _))

theorem encode_exact {t : Nanos} (h : Exact t) : encode t = .ok (cut t) := if_pos ⟨h.1, h.2.1⟩

end Timestamptz

def duplicateKey (constraint : String) : RepositoryError :=
  .conflict ("duplicate key value violates unique constraint \"" ++ constraint ++ "\"")

def missingReference (table constraint : String) : RepositoryError :=
  databaseError ("insert or update on table \"" ++ table ++
    "\" violates foreign key constraint \"" ++ constraint ++ "\"")

def bigintOutOfRange : RepositoryError := databaseError "bigint out of range"
def integerOutOfRange : RepositoryError := databaseError "integer out of range"

def stakeNotCovered : RepositoryError := .conflict "balance no longer covers the stake"

def Bet.insertError (db : Db) (bet : Bet) : Option RepositoryError :=
  if (db.bets.find? bet.id).isSome then some (duplicateKey "bets_pkey")
  else if (db.userById bet.userId).isNone then
    some (missingReference "bets" "bets_user_id_fkey")
  else if (db.marketById bet.marketId).isNone then
    some (missingReference "bets" "bets_market_id_fkey")
  else if (db.outcomeById bet.outcomeId).isNone then
    some (missingReference "bets" "bets_outcome_id_fkey")
  else none

/-- The unique constraints on `users` beside the primary key. -/
def User.uniqueError (db : Db) (user : User) : Option RepositoryError :=
  if db.users.rows.any fun r => r.id ≠ user.id && r.username = user.username then
    some (duplicateKey "users_username_key")
  else if db.users.rows.any fun r => r.id ≠ user.id && r.email = user.email then
    some (duplicateKey "users_email_key")
  else none

def Statement.exec : Statement → TxVars → Db → Except RepositoryError (List RowVersion × TxVars)
  | .debit userId amount, vars, db =>
    match db.userById userId with
    | none => .error stakeNotCovered
    | some u =>
      if amount ≤ u.balance then
        .ok ([.user { u with balance := u.balance - amount, updatedAt := vars.now }], vars)
      else .error stakeNotCovered
  | .selectRepeatBettor userId marketId, vars, db =>
    .ok ([], { vars with repeatBettor := db.hasBet userId marketId })
  | .insertBet bet, vars, db =>
    match bet.insertError db with
    | some e => .error e
    | none => .ok ([.bet bet], vars)
  | .updateOutcome id staked price, vars, db =>
    match db.outcomeById id with
    | none => .ok ([], vars)
    | some o =>
      if InI64 (o.volume + staked) then
        .ok ([.outcome { o with volume := o.volume + staked, currentPrice := price }], vars)
      else .error bigintOutOfRange
  | .updateMarketTotals id amount, vars, db =>
    match db.marketById id with
    | none => .ok ([], vars)
    | some m =>
      let joined := if vars.repeatBettor then 0 else 1
      if ¬InI64 (m.totalVolume + amount) then .error bigintOutOfRange
      else if ¬InI32 (m.participantsCount + joined) then .error integerOutOfRange
      else .ok ([.market { m with
        totalVolume := m.totalVolume + amount
        participantsCount := m.participantsCount + joined }], vars)
  | .insertPricePoint point, vars, db =>
    match db.outcomeById point.outcomeId with
    | none => .error (missingReference "price_history" "price_history_outcome_id_fkey")
    | some _ => .ok ([.pricePoint point], vars)
  | .publish event, vars, _ => .ok ([.event event], vars)
  | .updateMarketStatus id status resolved, vars, db =>
    match db.marketById id with
    | none => .ok ([], vars)
    | some m =>
      if resolved.any fun o => (db.outcomeById o).isNone then
        .error (missingReference "markets" "fk_markets_resolved_outcome")
      else .ok ([.market { m with status, resolvedOutcomeId := resolved }], vars)
  | .updateBetStatus id status payout, vars, db =>
    match db.bets.find? id with
    | none => .ok ([], vars)
    | some b => .ok ([.bet { b with status, payout }], vars)
  | .credit userId payout, vars, db =>
    match db.userById userId with
    | none => .ok ([], vars)
    | some u =>
      if InI64 (u.balance + payout) then
        .ok ([.user { u with balance := u.balance + payout, updatedAt := vars.now }], vars)
      else .error bigintOutOfRange
  | .upsertUser user, vars, db =>
    match user.uniqueError db with
    | some e => .error e
    | none =>
      match db.userById user.id with
      | none => .ok ([.user user], vars)
      | some r => .ok ([.user { user with createdAt := r.createdAt }], vars)
  | .insertMarket market, vars, db =>
    match db.marketById market.id with
    | some _ => .error (duplicateKey "markets_pkey")
    | none =>
      if market.resolvedOutcomeId.any fun o => (db.outcomeById o).isNone then
        .error (missingReference "markets" "fk_markets_resolved_outcome")
      else .ok ([.market market], vars)
  | .insertOutcome outcome, vars, db =>
    match db.outcomeById outcome.id with
    | some _ => .error (duplicateKey "outcomes_pkey")
    | none =>
      match db.marketById outcome.marketId with
      | none => .error (missingReference "outcomes" "outcomes_market_id_fkey")
      | some _ => .ok ([.outcome outcome], vars)

/-- The betting statements as a dialect of the row store. -/
def pg : RowLock.Dialect Db Statement RowVersion RowKey TxVars RepositoryError where
  exec := Statement.exec
  write := RowVersion.write
  key := RowVersion.key

@[simp] theorem pg_exec : pg.exec = Statement.exec := rfl
@[simp] theorem pg_write : pg.write = RowVersion.write := rfl
@[simp] theorem pg_key : pg.key = RowVersion.key := rfl

/-- `PgBetRepository::place`. -/
def placeProgram (bet : Bet) (pricedOutcomes : List Outcome) (points : List PricePoint) :
    List Statement :=
  [.debit bet.userId bet.amount, .selectRepeatBettor bet.userId bet.marketId, .insertBet bet] ++
  (pricedOutcomes.map fun o =>
    .updateOutcome o.id (if o.id = bet.outcomeId then bet.amount else 0) o.currentPrice) ++
  [.updateMarketTotals bet.marketId bet.amount] ++
  points.map .insertPricePoint ++
  [.publish (.userBalanceChanged bet.userId), .publish (.betPlaced bet.id),
    .publish (.marketPricesUpdated bet.marketId)]

def settleBet (bet : Bet) : List Statement :=
  .updateBetStatus bet.id bet.status bet.payout ::
    match bet.payout with
    | none => []
    | some payout => [.credit bet.userId payout]

def paidUsers (settled : List Bet) : List UserId :=
  ((settled.filter fun b => b.payout.isSome).map Bet.userId).dedup

/-- `PgBetRepository::settle`. -/
def settleProgram (market : Market) (settled : List Bet) : List Statement :=
  .updateMarketStatus market.id market.status market.resolvedOutcomeId ::
    settled.flatMap settleBet ++
    (paidUsers settled).map fun userId => .publish (.userBalanceChanged userId)

/-- `PgMarketRepository::create`; every outcome gets a first chart point. -/
def createProgram (market : Market) (outcomes : List Outcome) (now : DateTime) : List Statement :=
  .insertMarket market :: outcomes.flatMap fun o =>
    [.insertOutcome o, .insertPricePoint ⟨o.id, o.currentPrice, now⟩]

/-- `save_user`. -/
def saveProgram (user : User) : List Statement := [.upsertUser user]

end Betsphere
