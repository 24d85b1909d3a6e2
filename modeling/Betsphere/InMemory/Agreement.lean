import Betsphere.InMemory.Stores
import Betsphere.System.Prices
import Betsphere.System.Retries
set_option autoImplicit false

namespace Betsphere
open MachineInt Pricing RowLock

/-- The in-memory stores hold what the tables hold. -/
structure Mirrors (db : Db) (m : Mem) : Prop where
  users : m.users = db.users
  markets : m.markets = db.markets.rows
  outcomes : m.outcomes = db.outcomes.rows
  bets : m.bets = db.bets.rows
  pricePoints : m.pricePoints = db.priceHistory
  events : m.events.Perm db.outbox

def Db.BettorsKnown (db : Db) : Prop := ∀ b ∈ db.bets.rows, db.HasUser b.userId

section Reads
variable {db : Db} {m : Mem}

theorem Mirrors.userById (h : Mirrors db m) (id : UserId) :
    m.userById id = db.userById id := by
  rw [Mem.userById, h.users]
  rfl

theorem Mirrors.marketById (h : Mirrors db m) (id : MarketId) :
    m.marketById id = db.marketById id := by
  rw [Mem.marketById, h.markets]
  rfl

theorem Mirrors.outcomeById (h : Mirrors db m) (id : OutcomeId) :
    m.outcomeById id = db.outcomeById id := by
  rw [Mem.outcomeById, h.outcomes]
  rfl

theorem Mirrors.outcomesFor (h : Mirrors db m) (id : MarketId) :
    m.outcomesFor id = db.outcomesFor id := by
  rw [Mem.outcomesFor, h.outcomes]
  rfl

theorem Mirrors.activeForMarket (h : Mirrors db m) (id : MarketId) :
    m.activeForMarket id = db.activeForMarket id := by
  rw [Mem.activeForMarket, h.bets]
  rfl

end Reads

theorem Mem.activePosition_eq (m : Mem) (userId : UserId) (outcomeId : OutcomeId) :
    m.activePosition userId outcomeId = .ok none ∧ m.position userId outcomeId = [] ∨
    ∃ price : Price, m.activePosition userId outcomeId = .ok (some price) ∧
      m.position userId outcomeId ≠ [] ∧ price.tenThousandths =
        weightedSum (m.position userId outcomeId) / amountSum (m.position userId outcomeId) := by
  unfold Mem.activePosition
  by_cases hnil : m.position userId outcomeId = []
  · left
    rw [hnil]
    exact ⟨rfl, rfl⟩
  · right
    have hpos := amountSum_pos hnil
    have hlow := amountSum_le_weightedSum (m.position userId outcomeId)
    have hhigh := weightedSum_le (m.position userId outcomeId)
    have hone : 1 ≤ weightedSum (m.position userId outcomeId) /
        amountSum (m.position userId outcomeId) := (Int.le_ediv_iff_mul_le hpos).mpr (by linarith)
    have hmax : weightedSum (m.position userId outcomeId) /
        amountSum (m.position userId outcomeId) ≤ 10000 := Int.ediv_le_of_le_mul hpos hhigh
    have hwrap : wrap32 ((weightedSum (m.position userId outcomeId)).tdiv
        (amountSum (m.position userId outcomeId))) = weightedSum (m.position userId outcomeId) /
          amountSum (m.position userId outcomeId) := by
      rw [Int.tdiv_eq_ediv_of_nonneg (by linarith)]
      refine wrap32_of_inI32 ?_
      unfold InI32 i32Min i32Max
      omega
    have hrange : 0 ≤ weightedSum (m.position userId outcomeId) /
        amountSum (m.position userId outcomeId) ∧ weightedSum (m.position userId outcomeId) /
        amountSum (m.position userId outcomeId) ≤ 10000 := ⟨by omega, hmax⟩
    refine ⟨⟨_, hrange⟩, ?_, hnil, rfl⟩
    simp only [if_neg hpos.ne', hwrap, Price.fromTenThousandths_of_inRange hrange]

theorem Mem.activePosition_ok (m : Mem) (userId : UserId) (outcomeId : OutcomeId) :
    ∃ position, m.activePosition userId outcomeId = .ok position := by
  rcases m.activePosition_eq userId outcomeId with ⟨h, -⟩ | ⟨price, h, -⟩
  · exact ⟨none, h⟩
  · exact ⟨some price, h⟩

theorem pg_activePosition_ok (db : Db) (userId : UserId) (outcomeId : OutcomeId) :
    ∃ position, pgRepositories.activePosition db userId outcomeId = .ok position := by
  simp only [pgRepositories]
  cases haverage : db.averagePrice userId outcomeId with
  | none => exact ⟨none, rfl⟩
  | some average =>
    simp only [Price.fromTenThousandths_of_inRange (averagePrice_inRange haverage)]
    exact ⟨_, rfl⟩

def Write.placement? : Write → Option (Bet × List Outcome)
  | .place bet priced _ => some (bet, priced)
  | _ => none

def Write.settlement? : Write → Option (List Bet)
  | .settle _ settled => some settled
  | _ => none

def Payable (users : Table User.id) (settled : List Bet) : Prop :=
  ∀ u ∈ users.rows, InI64 u.balance ∧ InI64 (u.balance + credits settled u.id)

def Write.SumsFit (w : Write) (db : Db) : Prop :=
  (∀ x ∈ w.placement?,
    (∀ p ∈ x.2, ∀ o ∈ db.outcomeById p.id, InI64 (o.volume + stakeOn x.1 p.id)) ∧
      ∀ r ∈ db.marketById x.1.marketId, InI64 (r.totalVolume + x.1.amount)) ∧
    ∀ settled ∈ w.settlement?, Payable db.users settled

def Write.CountFits (w : Write) (db : Db) : Prop :=
  ∀ x ∈ w.placement?, ∀ r ∈ db.marketById x.1.marketId,
    InI32 (r.participantsCount + db.joining x.1)

def Write.DrawsFresh (w : Write) (db : Db) : Prop :=
  ∀ x ∈ w.placement?, db.bets.find? x.1.id = none

instance (users : Table User.id) (settled : List Bet) : Decidable (Payable users settled) :=
  inferInstanceAs (Decidable (∀ u ∈ users.rows, _ ∧ _))

instance (w : Write) (db : Db) : Decidable (w.SumsFit db) :=
  inferInstanceAs (Decidable ((∀ x ∈ w.placement?,
    (∀ p ∈ x.2, ∀ o ∈ db.outcomeById p.id, InI64 (o.volume + stakeOn x.1 p.id)) ∧
      ∀ r ∈ db.marketById x.1.marketId, InI64 (r.totalVolume + x.1.amount)) ∧
    ∀ settled ∈ w.settlement?, Payable db.users settled))

instance (w : Write) (db : Db) : Decidable (w.CountFits db) :=
  inferInstanceAs (Decidable (∀ x ∈ w.placement?, ∀ r ∈ db.marketById x.1.marketId,
    InI32 (r.participantsCount + db.joining x.1)))

instance (w : Write) (db : Db) : Decidable (w.DrawsFresh db) :=
  inferInstanceAs (Decidable (∀ x ∈ w.placement?, db.bets.find? x.1.id = none))

section Placing
variable {db : Db} {m : Mem} {bet : Bet} {priced : List Outcome} {points : List PricePoint}
  {now : DateTime} {build : Build}

/-- The copy a placement stores differs from the stored outcome by the stake and the price. -/
def PricedCopies (db : Db) (bet : Bet) (priced : List Outcome) : Prop :=
  ∀ o ∈ db.outcomes.rows, ∀ p ∈ priced, p.id = o.id →
    p = { o with volume := o.volume + stakeOn bet o.id, currentPrice := p.currentPrice }

theorem overwrite_priced (hnd : (priced.map Outcome.id).Nodup)
    (hcopies : PricedCopies db bet priced) :
    FirstMatch.overwrite Outcome.id priced db.outcomes.rows =
      (db.repriceAll bet priced).outcomes.rows := by
  rw [FirstMatch.overwrite_eq_map hnd db.outcomes.nodup]
  simp only [Db.repriceAll, Table.rows_mapRows]
  refine List.map_congr_left fun o ho => ?_
  cases hfind : priced.find? fun p => p.id = o.id with
  | none => simp [repriced, hfind]
  | some p =>
    have hid : p.id = o.id := by simpa using List.find?_some hfind
    have hp := hcopies o ho p (List.mem_of_find?_eq_some hfind) hid
    simp only [repriced, hfind, Option.getD_some]
    exact hp

theorem debited_ok (h : Mirrors db m) {user : User} (huser : db.userById bet.userId = some user)
    (hbal : bet.amount ≤ user.balance) :
    m.debited now bet =
      .ok { user with balance := user.balance - bet.amount, updatedAt := now } := by
  have hpos := bet.amountPositive
  have hdebit : user.debit bet.amount now =
      .ok { user with balance := user.balance - bet.amount, updatedAt := now } := by
    rw [User.debit, if_neg (by omega), if_neg (by omega)]
  unfold Mem.debited
  rw [h.userById, huser]
  simp only [hdebit]

theorem recordStake_ok (build : Build) {market : Market} {joined : Bool}
    (hsum : InI64 (market.totalVolume + bet.amount))
    (hcount : InI32 (market.participantsCount + if joined then 1 else 0)) :
    market.recordStake build bet.amount joined = ({ market with
      totalVolume := market.totalVolume + bet.amount
      participantsCount := market.participantsCount + if joined then 1 else 0 }, .ok ()) := by
  unfold Market.recordStake saturatingAdd
  rw [saturate64_of_inI64 hsum]
  cases joined with
  | false => simp
  | true =>
    simp only [if_true] at hcount ⊢
    rw [add32, settle32_of_inI32 build hcount]

theorem place_mirrors (h : Mirrors db m) (hen : PlaceEnabled db bet priced points)
    (hnd : (priced.map Outcome.id).Nodup) (hcopies : PricedCopies db bet priced) :
    ∃ m', m.place build now bet priced points = (m', .done) ∧
      Mirrors (db.placed bet priced points now) m' := by
  obtain ⟨user, huser, hbal⟩ := hen.covered
  obtain ⟨hfresh, -, ⟨market, hmarket⟩, -⟩ := insertError_none hen.insertable
  obtain ⟨hsum, hcount⟩ := hen.totals market hmarket
  have hjoin : (if !db.hasBet bet.userId bet.marketId then (1 : Int) else 0) = db.joining bet := by
    unfold Db.joining
    cases db.hasBet bet.userId bet.marketId <;> rfl
  rw [← hjoin] at hcount
  have hstake := recordStake_ok build hsum hcount
  rw [hjoin] at hstake
  have husers :
      db.users.upsert { user with balance := user.balance - bet.amount, updatedAt := now } =
      (db.debit bet.userId bet.amount now).users :=
    Table.upsert_modify
      (fun u : User => { u with balance := u.balance - bet.amount, updatedAt := now })
      (fun _ => rfl) huser
  have hmarkets : FirstMatch.update Market.id bet.marketId
      (fun _ => { market with
        totalVolume := market.totalVolume + bet.amount
        participantsCount := market.participantsCount + db.joining bet }) db.markets.rows =
      (db.addTotals bet.marketId bet.amount (db.joining bet)).markets.rows := by
    rw [FirstMatch.update_eq_map db.markets.nodup]
    simp only [Db.addTotals, Table.rows_modify]
    refine List.map_congr_left fun r hr => ?_
    by_cases hid : r.id = bet.marketId
    · obtain rfl : r = market := by
        have hfind := Table.find?_of_mem hr
        rw [hid] at hfind
        exact Option.some.inj (hfind.symm.trans hmarket)
      simp [hid]
    · simp [hid]
  let after : Mem :=
    { users := (db.debit bet.userId bet.amount now).users
      markets := (db.addTotals bet.marketId bet.amount (db.joining bet)).markets.rows
      outcomes := (db.repriceAll bet priced).outcomes.rows
      bets := db.bets.rows ++ [bet]
      pricePoints := db.priceHistory ++ points
      events := m.events ++ placeEvents bet }
  have hplace : m.place build now bet priced points = (after, .done) := by
    have hfind : db.markets.rows.find? (fun r => r.id = bet.marketId) = some market := hmarket
    have hhas : (db.bets.rows.any fun b => b.userId = bet.userId && b.marketId = bet.marketId) =
        db.hasBet bet.userId bet.marketId := rfl
    unfold Mem.place
    rw [debited_ok h huser hbal]
    simp only [Mem.recordStake, Mem.marketById, Mem.saveUser, Mem.pushBet, Mem.hasBet,
      Mem.applyPriced, Mem.dispatch, h.users, h.markets, h.outcomes, h.bets, h.pricePoints, hfind,
      hhas, hstake, husers, hmarkets, overwrite_priced hnd hcopies]
    rfl
  refine ⟨after, hplace, rfl, rfl, rfl, (Table.rows_upsert_fresh hfresh).symm, rfl, ?_⟩
  exact h.events.append_right _

end Placing

def Owed (users : Table User.id) (settled : List Bet) : Prop :=
  ∀ b ∈ settled, ∀ payout ∈ b.payout, 0 < payout ∧ (users.find? b.userId).isSome

theorem Owed.credits_nonneg {users : Table User.id} {settled : List Bet} (h : Owed users settled)
    (id : UserId) : 0 ≤ credits settled id := by
  refine List.sum_nonneg fun x hx => ?_
  obtain ⟨b, hb, rfl⟩ := List.mem_map.mp hx
  cases hp : b.payout with
  | none => simp
  | some payout => exact (h b (List.mem_of_mem_filter hb) payout hp).1.le

section Paying
variable {users : Table User.id} {b : Bet} {rest : List Bet} {payout : Int} {now : DateTime}

theorem Owed.tail (h : Owed users (b :: rest)) : Owed users rest :=
  fun c hc => h c (List.mem_cons_of_mem b hc)

theorem credited_id (payout : Int) (now : DateTime) (u : User) :
    ({ u with balance := u.balance + payout, updatedAt := now } : User).id = u.id := rfl

def creditedUsers (users : Table User.id) (userId : UserId) (payout : Int) (now : DateTime) :
    Table User.id :=
  users.modify userId (fun u => { u with balance := u.balance + payout, updatedAt := now })
    (credited_id payout now)

theorem Owed.credited (h : Owed users (b :: rest)) :
    Owed (creditedUsers users b.userId payout now) rest := by
  intro c hc p hp
  obtain ⟨hpos, hsome⟩ := h.tail c hc p hp
  refine ⟨hpos, ?_⟩
  rw [creditedUsers, Table.find?_modify]
  split <;> simpa using hsome

theorem Payable.tail_none (hb : b.payout = none) (h : Payable users (b :: rest)) :
    Payable users rest := by
  intro u hu
  have hpay := h u hu
  rw [credits_cons] at hpay
  simpa [hb] using hpay

theorem Payable.credit (now : DateTime) (howed : Owed users (b :: rest))
    (hb : b.payout = some payout) (h : Payable users (b :: rest)) :
    (∀ u, users.find? b.userId = some u → InI64 (u.balance + payout)) ∧
      Payable (creditedUsers users b.userId payout now) rest := by
  have hpos := (howed b List.mem_cons_self payout hb).1
  constructor
  · intro u hu
    obtain ⟨hlow, hhigh⟩ := h u (Table.find?_mem hu)
    have hid : u.id = b.userId := Table.find?_key hu
    have hrest := howed.tail.credits_nonneg u.id
    rw [credits_cons, if_pos hid.symm, hb, Option.getD_some] at hhigh
    unfold InI64 at *
    omega
  · intro u hu
    obtain ⟨v, hv, rfl⟩ := List.mem_map.mp hu
    obtain ⟨hlow, hhigh⟩ := h v hv
    have hrest := howed.tail.credits_nonneg v.id
    rw [credits_cons] at hhigh
    by_cases hid : v.id = b.userId
    · rw [if_pos hid.symm, hb, Option.getD_some] at hhigh
      simp only [hid, if_true] at *
      unfold InI64 at *
      omega
    · rw [if_neg fun heq => hid heq.symm] at hhigh
      simp only [hid, if_false] at *
      unfold InI64 at *
      omega

theorem mapRows_credited (hb : b.payout = some payout) :
    (creditedUsers users b.userId payout now).mapRows (paidRow rest now) (paidRow_id rest now) =
      users.mapRows (paidRow (b :: rest) now) (paidRow_id (b :: rest) now) := by
  apply Table.ext
  simp only [creditedUsers, Table.rows_mapRows, Table.rows_modify, List.map_map]
  exact List.map_congr_left fun u _ => (paidRow_cons_some hb rest now u).symm

end Paying

theorem Mem.settleBets_ok {settled : List Bet} {m : Mem} {now : DateTime}
    (howed : Owed m.users settled) (hpay : Payable m.users settled) :
    Mem.settleBets now settled m = ({ m with
      users := m.users.mapRows (paidRow settled now) (paidRow_id settled now)
      bets := FirstMatch.overwrite Bet.id settled m.bets }, .ok ()) := by
  induction settled generalizing m with
  | nil =>
    have husers : m.users.mapRows (paidRow [] now) (paidRow_id [] now) = m.users :=
      Table.mapRows_id m.users (paidRow_id [] now) fun _ _ => rfl
    simp [Mem.settleBets, husers, FirstMatch.overwrite]
  | cons b rest ih =>
    unfold Mem.settleBets
    cases hb : b.payout with
    | none =>
      have hnext := ih (m := m.replaceBet b) howed.tail (hpay.tail_none hb)
      simp only [hnext]
      simp only [Mem.replaceBet, FirstMatch.overwrite_cons, paidRow_cons_none hb]
    | some payout =>
      obtain ⟨hpos, hsome⟩ := howed b List.mem_cons_self payout hb
      obtain ⟨hin, hpay'⟩ := hpay.credit now howed hb
      obtain ⟨u, hu⟩ := Option.isSome_iff_exists.mp hsome
      have hcredit : (m.replaceBet b).credited now b.userId payout =
          .ok { u with balance := u.balance + payout, updatedAt := now } := by
        have hfind : (m.replaceBet b).userById b.userId = some u := hu
        unfold Mem.credited
        rw [hfind]
        simp only [User.credit]
        rw [if_neg (by omega)]
        simp only [saturatingAdd, saturate64_of_inI64 (hin u hu)]
      have husers : m.users.upsert { u with balance := u.balance + payout, updatedAt := now } =
          creditedUsers m.users b.userId payout now :=
        Table.upsert_modify
          (fun u : User => { u with balance := u.balance + payout, updatedAt := now })
          (fun _ => rfl) hu
      have hnext := ih
        (m := { m.replaceBet b with users := creditedUsers m.users b.userId payout now })
        howed.credited hpay'
      simp only [hcredit]
      simp only [Mem.saveUser, Mem.replaceBet, husers] at hnext ⊢
      rw [hnext]
      simp only [FirstMatch.overwrite_cons, mapRows_credited hb]

section Committing
variable {db : Db} {settled : List Bet} {l : TxVars}

theorem steps_exec_ok {st : Statement} {ws : List RowVersion} {l' : TxVars}
    (he : pg.exec st l db = .ok (ws, l')) : ∃ db' l', pg.steps [st] l db = .ok (db', l') :=
  ⟨_, _, (Dialect.steps_of_exec he).mpr ⟨rfl, rfl⟩⟩

theorem steps_updateBetStatus_ok (id : BetId) (status : BetStatus) (payout : Option Int) :
    pg.steps [.updateBetStatus id status payout] l db =
      .ok (db.setBetStatus id status payout, l) := by
  have hok : ∃ db' l', pg.steps [.updateBetStatus id status payout] l db = .ok (db', l') := by
    cases hb : db.bets.find? id with
    | none =>
      have he : pg.exec (.updateBetStatus id status payout) l db = .ok ([], l) := by
        simp [Statement.exec, hb]
      exact steps_exec_ok he
    | some b =>
      have he : pg.exec (.updateBetStatus id status payout) l db =
          .ok ([.bet { b with status, payout }], l) := by simp [Statement.exec, hb]
      exact steps_exec_ok he
  obtain ⟨db', l', h⟩ := hok
  obtain ⟨rfl, rfl⟩ := steps_updateBetStatus h
  exact h

theorem steps_credit_ok {userId : UserId} {payout : Int}
    (hin : ∀ u, db.userById userId = some u → InI64 (u.balance + payout)) :
    pg.steps [.credit userId payout] l db = .ok (db.credit userId payout l.now, l) := by
  have hok : ∃ db' l', pg.steps [.credit userId payout] l db = .ok (db', l') := by
    cases hu : db.userById userId with
    | none =>
      have he : pg.exec (.credit userId payout) l db = .ok ([], l) := by simp [Statement.exec, hu]
      exact steps_exec_ok he
    | some u =>
      have he : pg.exec (.credit userId payout) l db =
          .ok ([.user { u with balance := u.balance + payout, updatedAt := l.now }], l) := by
        simp [Statement.exec, hu, hin u hu]
      exact steps_exec_ok he
  obtain ⟨db', l', h⟩ := hok
  obtain ⟨-, rfl, rfl⟩ := steps_credit h
  exact h

theorem steps_updateMarketStatus_ok (id : MarketId) (status : MarketStatus)
    {resolved : Option OutcomeId} (hres : ∀ o ∈ resolved, (db.outcomeById o).isSome) :
    pg.steps [.updateMarketStatus id status resolved] l db =
      .ok (db.setMarketStatus id status resolved, l) := by
  have hany : (resolved.any fun o => (db.outcomeById o).isNone) = false := by
    cases resolved with
    | none => rfl
    | some o => simpa using hres o rfl
  have hok : ∃ db' l', pg.steps [.updateMarketStatus id status resolved] l db = .ok (db', l') := by
    cases hm : db.marketById id with
    | none =>
      have he : pg.exec (.updateMarketStatus id status resolved) l db = .ok ([], l) := by
        simp [Statement.exec, hm]
      exact steps_exec_ok he
    | some r =>
      have he : pg.exec (.updateMarketStatus id status resolved) l db =
          .ok ([.market { r with status, resolvedOutcomeId := resolved }], l) := by
        simp [Statement.exec, hm, hany]
      exact steps_exec_ok he
  obtain ⟨db', l', h⟩ := hok
  obtain ⟨rfl, rfl⟩ := steps_updateMarketStatus h
  exact h

theorem steps_settleBets_ok (hnd : (settled.map Bet.id).Nodup) (howed : Owed db.users settled)
    (hpay : Payable db.users settled) :
    pg.steps (settled.flatMap settleBet) l db = .ok (db.settleBets settled l.now, l) := by
  induction settled generalizing db with
  | nil => simp [Dialect.steps, settleBets_nil]
  | cons b rest ih =>
    rw [List.map_cons, List.nodup_cons] at hnd
    rw [List.flatMap_cons, Dialect.steps_append]
    cases hb : b.payout with
    | none =>
      refine ⟨db.setBetStatus b.id b.status b.payout, l, ?_, ?_⟩
      · simpa [settleBet, hb] using steps_updateBetStatus_ok b.id b.status none
      · have hrest : pg.steps (rest.flatMap settleBet) l (db.setBetStatus b.id b.status b.payout) =
            .ok ((db.setBetStatus b.id b.status b.payout).settleBets rest l.now, l) :=
          ih hnd.2 howed.tail (hpay.tail_none hb)
        rw [hrest, settleBets_cons_none hb hnd.1]
    | some payout =>
      obtain ⟨hin, hpay'⟩ := hpay.credit l.now howed hb
      refine ⟨(db.setBetStatus b.id b.status b.payout).credit b.userId payout l.now, l, ?_, ?_⟩
      · simp only [settleBet, hb]
        exact Dialect.steps_cons.mpr ⟨_, l, steps_updateBetStatus_ok b.id b.status (some payout),
          steps_credit_ok hin⟩
      · have hrest : pg.steps (rest.flatMap settleBet) l
            ((db.setBetStatus b.id b.status b.payout).credit b.userId payout l.now) =
            .ok (((db.setBetStatus b.id b.status b.payout).credit b.userId payout l.now).settleBets
              rest l.now, l) := ih hnd.2 howed.credited hpay'
        rw [hrest, settleBets_cons_some hb hnd.1]

theorem settle_commits {market : Market} (hnd : (settled.map Bet.id).Nodup)
    (howed : Owed db.users settled) (hpay : Payable db.users settled)
    (hres : ∀ o ∈ market.resolvedOutcomeId, (db.outcomeById o).isSome) :
    pg.atomically (settleProgram market settled) l db = .ok (db.settled market settled l.now) := by
  have hprog : settleProgram market settled =
      .updateMarketStatus market.id market.status market.resolvedOutcomeId ::
        (settled.flatMap settleBet ++
          ((paidUsers settled).map .userBalanceChanged).map .publish) := by
    simp [settleProgram]
  have hbets : pg.steps (settled.flatMap settleBet) l
      (db.setMarketStatus market.id market.status market.resolvedOutcomeId) =
      .ok ((db.setMarketStatus market.id market.status market.resolvedOutcomeId).settleBets
        settled l.now, l) := steps_settleBets_ok hnd howed hpay
  rw [Dialect.atomically_ok, hprog]
  exact ⟨l, Dialect.steps_cons.mpr ⟨_, l, steps_updateMarketStatus_ok _ _ hres,
    Dialect.steps_append.mpr ⟨_, l, hbets, steps_publish.mpr ⟨rfl, rfl⟩⟩⟩⟩

end Committing

section Order
variable {settled settled' : List Bet}

theorem settledRow_perm (hp : settled.Perm settled') (hnd : (settled.map Bet.id).Nodup) :
    settledRow settled = settledRow settled' := by
  funext b
  have hnd' : (settled'.map Bet.id).Nodup := (hp.map Bet.id).nodup_iff.mp hnd
  let t : Table Bet.id := ⟨settled, hnd⟩
  let t' : Table Bet.id := ⟨settled', hnd'⟩
  have hfind : t.find? b.id = t'.find? b.id := by
    ext s
    rw [Table.find?_eq_some, Table.find?_eq_some]
    exact and_congr_left fun _ => hp.mem_iff
  have hfind' : (settled.find? fun s => s.id = b.id) = settled'.find? fun s => s.id = b.id := hfind
  unfold settledRow
  rw [hfind']

theorem credits_perm (hp : settled.Perm settled') (id : UserId) :
    credits settled id = credits settled' id := ((hp.filter _).map _).sum_eq

theorem paidRow_perm (hp : settled.Perm settled') (now : DateTime) :
    paidRow settled now = paidRow settled' now := by
  funext u
  have hpaid : isPaid settled u.id = isPaid settled' u.id := hp.any_eq
  unfold paidRow
  rw [hpaid, credits_perm hp]

theorem Owed.perm {users : Table User.id} (hp : settled.Perm settled') (h : Owed users settled) :
    Owed users settled' := fun b hb => h b (hp.mem_iff.mpr hb)

theorem Payable.perm {users : Table User.id} (hp : settled.Perm settled')
    (h : Payable users settled) : Payable users settled' := by
  intro u hu
  rw [← credits_perm hp]
  exact h u hu

theorem paidUsers_perm (hp : settled.Perm settled') :
    (paidUsers settled).Perm (paidUsers settled') :=
  ((hp.filter _).map _).dedup

end Order

section Settling
variable {db : Db} {m : Mem} {market stored : Market} {settled settled' : List Bet} {now : DateTime}

/-- The copy a settlement stores differs from the stored bet by status and payout. -/
def SettledCopies (db : Db) (settled : List Bet) : Prop :=
  ∀ b ∈ db.bets.rows, ∀ s ∈ settled, s.id = b.id →
    s = { b with status := s.status, payout := s.payout }

theorem overwrite_settled (hnd : (settled.map Bet.id).Nodup) (hcopies : SettledCopies db settled) :
    FirstMatch.overwrite Bet.id settled db.bets.rows = db.bets.rows.map (settledRow settled) := by
  rw [FirstMatch.overwrite_eq_map hnd db.bets.nodup]
  refine List.map_congr_left fun b hb => ?_
  cases hfind : settled.find? fun s => s.id = b.id with
  | none => simp [settledRow, hfind]
  | some s =>
    have hid : s.id = b.id := by simpa using List.find?_some hfind
    have hs := hcopies b hb s (List.mem_of_find?_eq_some hfind) hid
    simp only [settledRow, hfind, Option.getD_some]
    exact hs

/-- Only the status and the winner of the market's copy are news to the store. -/
theorem resolveMarket_markets (h : Mirrors db m) (hstored : db.marketById market.id = some stored)
    (hmarket : market =
      { stored with status := market.status, resolvedOutcomeId := market.resolvedOutcomeId }) :
    (m.resolveMarket market).markets =
      (db.setMarketStatus market.id market.status market.resolvedOutcomeId).markets.rows := by
  unfold Mem.resolveMarket
  simp only [h.markets]
  rw [FirstMatch.update_eq_map db.markets.nodup]
  simp only [Db.setMarketStatus, Table.rows_modify]
  refine List.map_congr_left fun r hr => ?_
  by_cases hid : r.id = market.id
  · obtain rfl : r = stored := by
      have hfind := Table.find?_of_mem hr
      rw [hid] at hfind
      exact Option.some.inj (hfind.symm.trans hstored)
    rw [if_pos hid, if_pos hid]
    exact hmarket
  · rw [if_neg hid, if_neg hid]

theorem settle_mirrors (h : Mirrors db m) (hp : settled.Perm settled')
    (hnd : (settled.map Bet.id).Nodup) (howed : Owed db.users settled)
    (hpay : Payable db.users settled) (hcopies : SettledCopies db settled)
    (hstored : db.marketById market.id = some stored)
    (hmarket : market =
      { stored with status := market.status, resolvedOutcomeId := market.resolvedOutcomeId }) :
    ∃ m', m.settle now market settled' = (m', .done) ∧
      Mirrors (db.settled market settled now) m' := by
  have hnd' : (settled'.map Bet.id).Nodup := (hp.map Bet.id).nodup_iff.mp hnd
  have hcopies' : SettledCopies db settled' := fun b hb s hs => hcopies b hb s (hp.mem_iff.mpr hs)
  let after : Mem :=
    { users := m.users.mapRows (paidRow settled' now) (paidRow_id settled' now)
      markets := (m.resolveMarket market).markets
      outcomes := m.outcomes
      bets := FirstMatch.overwrite Bet.id settled' m.bets
      pricePoints := m.pricePoints
      events := m.events ++ (paidUsers settled').map .userBalanceChanged }
  have hsettle : m.settle now market settled' = (after, .done) := by
    have howed' : Owed (m.resolveMarket market).users settled' := h.users ▸ howed.perm hp
    have hpay' : Payable (m.resolveMarket market).users settled' := h.users ▸ hpay.perm hp
    unfold Mem.settle
    rw [Mem.settleBets_ok howed' hpay']
    rfl
  refine ⟨after, hsettle, ?_, resolveMarket_markets h hstored hmarket, h.outcomes, ?_,
    h.pricePoints, ?_⟩
  · apply Table.ext
    change m.users.rows.map (paidRow settled' now) = db.users.rows.map (paidRow settled now)
    rw [h.users, paidRow_perm hp]
  · change FirstMatch.overwrite Bet.id settled' m.bets = db.bets.rows.map (settledRow settled)
    rw [h.bets, overwrite_settled hnd' hcopies', settledRow_perm hp hnd]
  · exact h.events.append ((paidUsers_perm hp).symm.map _)

end Settling

end Betsphere
