import Betsphere.Postgres.Database
set_option autoImplicit false

namespace Betsphere
open MachineInt RowLock

namespace Db

def debit (db : Db) (userId : UserId) (amount : Int) (now : DateTime) : Db :=
  { db with
    users := db.users.modify userId
      (fun u => { u with balance := u.balance - amount, updatedAt := now }) fun _ => rfl }

def reprice (db : Db) (id : OutcomeId) (staked : Int) (price : Price) : Db :=
  { db with
    outcomes := db.outcomes.modify id
      (fun o => { o with volume := o.volume + staked, currentPrice := price }) fun _ => rfl }

def addTotals (db : Db) (id : MarketId) (amount joined : Int) : Db :=
  { db with
    markets := db.markets.modify id
      (fun m => { m with
        totalVolume := m.totalVolume + amount
        participantsCount := m.participantsCount + joined }) fun _ => rfl }

def credit (db : Db) (userId : UserId) (payout : Int) (now : DateTime) : Db :=
  { db with
    users := db.users.modify userId
      (fun u => { u with balance := u.balance + payout, updatedAt := now }) fun _ => rfl }

def setMarketStatus (db : Db) (id : MarketId) (status : MarketStatus)
    (resolved : Option OutcomeId) : Db :=
  { db with
    markets := db.markets.modify id
      (fun m => { m with status, resolvedOutcomeId := resolved }) fun _ => rfl }

def setBetStatus (db : Db) (id : BetId) (status : BetStatus) (payout : Option Int) : Db :=
  { db with
    bets := db.bets.modify id (fun b => { b with status, payout }) fun _ => rfl }

end Db

section Statements
variable {db db' : Db} {l l' : TxVars}

theorem steps_debit {userId : UserId} {amount : Int} :
    pg.steps [.debit userId amount] l db = .ok (db', l') ↔
      (∃ u, db.userById userId = some u ∧ amount ≤ u.balance) ∧
        db' = db.debit userId amount l.now ∧ l' = l := by
  cases hu : db.userById userId with
  | none =>
    have he : pg.exec (.debit userId amount) l db = .error stakeNotCovered := by
      simp [Statement.exec, hu]
    simp [Dialect.steps_of_error he]
  | some u =>
    by_cases ha : amount ≤ u.balance
    · have he : pg.exec (.debit userId amount) l db =
          .ok ([.user { u with balance := u.balance - amount, updatedAt := l.now }], l) := by
        simp [Statement.exec, hu, ha]
      have hup := Table.upsert_modify
        (fun u : User => { u with balance := u.balance - amount, updatedAt := l.now })
        (fun _ => rfl) hu
      simp [Dialect.steps_of_exec he, ha, RowVersion.write, hup, Db.debit]
    · have he : pg.exec (.debit userId amount) l db = .error stakeNotCovered := by
        simp [Statement.exec, hu, ha]
      simp [Dialect.steps_of_error he, ha]

theorem steps_selectRepeatBettor {userId : UserId} {marketId : MarketId} :
    pg.steps [.selectRepeatBettor userId marketId] l db = .ok (db', l') ↔
      db' = db ∧ l' = { l with repeatBettor := db.hasBet userId marketId } := by
  have he : pg.exec (.selectRepeatBettor userId marketId) l db =
      .ok ([], { l with repeatBettor := db.hasBet userId marketId }) := rfl
  simp [Dialect.steps_of_exec he]

theorem steps_insertBet {bet : Bet} :
    pg.steps [.insertBet bet] l db = .ok (db', l') ↔
      bet.insertError db = none ∧ db' = { db with bets := db.bets.upsert bet } ∧ l' = l := by
  cases hb : bet.insertError db with
  | none =>
    have he : pg.exec (.insertBet bet) l db = .ok ([.bet bet], l) := by
      simp [Statement.exec, hb]
    simp [Dialect.steps_of_exec he, RowVersion.write]
  | some e =>
    have he : pg.exec (.insertBet bet) l db = .error e := by simp [Statement.exec, hb]
    simp [Dialect.steps_of_error he]

theorem steps_updateOutcome {id : OutcomeId} {staked : Int} {price : Price} :
    pg.steps [.updateOutcome id staked price] l db = .ok (db', l') ↔
      (∀ o, db.outcomeById id = some o → InI64 (o.volume + staked)) ∧
        db' = db.reprice id staked price ∧ l' = l := by
  cases ho : db.outcomeById id with
  | none =>
    have he : pg.exec (.updateOutcome id staked price) l db = .ok ([], l) := by
      simp [Statement.exec, ho]
    have hsame : db.reprice id staked price = db := by
      simp [Db.reprice, Table.modify_missing _ _ ho]
    simp [Dialect.steps_of_exec he, hsame]
  | some o =>
    by_cases hin : InI64 (o.volume + staked)
    · have he : pg.exec (.updateOutcome id staked price) l db =
          .ok ([.outcome { o with volume := o.volume + staked, currentPrice := price }], l) := by
        simp [Statement.exec, ho, hin]
      have hup := Table.upsert_modify
        (fun o : Outcome => { o with volume := o.volume + staked, currentPrice := price })
        (fun _ => rfl) ho
      simp [Dialect.steps_of_exec he, hin, RowVersion.write, hup, Db.reprice]
    · have he : pg.exec (.updateOutcome id staked price) l db = .error bigintOutOfRange := by
        simp [Statement.exec, ho, hin]
      simp [Dialect.steps_of_error he, hin]

theorem steps_updateMarketTotals {id : MarketId} {amount : Int} :
    pg.steps [.updateMarketTotals id amount] l db = .ok (db', l') ↔
      (∀ m, db.marketById id = some m → InI64 (m.totalVolume + amount) ∧
        InI32 (m.participantsCount + if l.repeatBettor then 0 else 1)) ∧
      db' = db.addTotals id amount (if l.repeatBettor then 0 else 1) ∧ l' = l := by
  cases hm : db.marketById id with
  | none =>
    have he : pg.exec (.updateMarketTotals id amount) l db = .ok ([], l) := by
      simp [Statement.exec, hm]
    have hsame : db.addTotals id amount (if l.repeatBettor then 0 else 1) = db := by
      simp [Db.addTotals, Table.modify_missing _ _ hm]
    simp [Dialect.steps_of_exec he, hsame]
  | some m =>
    by_cases h₁ : InI64 (m.totalVolume + amount)
    · by_cases h₂ : InI32 (m.participantsCount + if l.repeatBettor then 0 else 1)
      · have he : pg.exec (.updateMarketTotals id amount) l db =
            .ok ([.market { m with
              totalVolume := m.totalVolume + amount
              participantsCount := m.participantsCount + if l.repeatBettor then 0 else 1 }], l) := by
          simp [Statement.exec, hm, h₁, h₂]
        have hup := Table.upsert_modify
          (fun m : Market => { m with
            totalVolume := m.totalVolume + amount
            participantsCount := m.participantsCount + if l.repeatBettor then 0 else 1 })
          (fun _ => rfl) hm
        simp [Dialect.steps_of_exec he, h₁, h₂, RowVersion.write, hup, Db.addTotals]
      · have he : pg.exec (.updateMarketTotals id amount) l db = .error integerOutOfRange := by
          simp [Statement.exec, hm, h₁, h₂]
        simp [Dialect.steps_of_error he, h₂]
    · have he : pg.exec (.updateMarketTotals id amount) l db = .error bigintOutOfRange := by
        simp [Statement.exec, hm, h₁]
      simp [Dialect.steps_of_error he, h₁]

theorem steps_points {points : List PricePoint} :
    pg.steps (points.map .insertPricePoint) l db = .ok (db', l') ↔
      (∀ p ∈ points, (db.outcomeById p.outcomeId).isSome) ∧
        db' = { db with priceHistory := db.priceHistory ++ points } ∧ l' = l := by
  induction points generalizing db with
  | nil =>
    simp only [List.map_nil, Dialect.steps, Except.ok.injEq, Prod.mk.injEq, List.not_mem_nil,
      false_implies, implies_true, List.append_nil, true_and]
    exact and_congr eq_comm eq_comm
  | cons p ps ih =>
    rw [List.map_cons, Dialect.steps_cons]
    cases ho : db.outcomeById p.outcomeId with
    | none =>
      have he : pg.exec (.insertPricePoint p) l db =
          .error (missingReference "price_history" "price_history_outcome_id_fkey") := by
        simp [Statement.exec, ho]
      simp [Dialect.steps_of_error he, ho]
    | some o =>
      have he : pg.exec (.insertPricePoint p) l db = .ok ([.pricePoint p], l) := by
        simp [Statement.exec, ho]
      have hsame : ∀ id, ({ db with priceHistory := db.priceHistory ++ [p] } : Db).outcomeById id =
          db.outcomeById id := fun _ => rfl
      simp [Dialect.steps_of_exec he, ih, RowVersion.write, ho, hsame]

theorem steps_publish {events : List Event} :
    pg.steps (events.map .publish) l db = .ok (db', l') ↔
      db' = { db with outbox := db.outbox ++ events } ∧ l' = l := by
  induction events generalizing db with
  | nil =>
    simp only [List.map_nil, Dialect.steps, Except.ok.injEq, Prod.mk.injEq, List.append_nil]
    exact and_congr eq_comm eq_comm
  | cons e es ih =>
    have he : pg.exec (.publish e) l db = .ok ([.event e], l) := rfl
    rw [List.map_cons, Dialect.steps_cons]
    simp [Dialect.steps_of_exec he, ih, RowVersion.write]

theorem steps_updateMarketStatus {id : MarketId} {status : MarketStatus}
    {resolved : Option OutcomeId}
    (h : pg.steps [.updateMarketStatus id status resolved] l db = .ok (db', l')) :
    db' = db.setMarketStatus id status resolved ∧ l' = l := by
  cases hm : db.marketById id with
  | none =>
    have he : pg.exec (.updateMarketStatus id status resolved) l db = .ok ([], l) := by
      simp [Statement.exec, hm]
    have hsame : db.setMarketStatus id status resolved = db := by
      simp [Db.setMarketStatus, Table.modify_missing _ _ hm]
    simpa [Dialect.steps_of_exec he, hsame] using h
  | some m =>
    by_cases hr : resolved.any fun o => (db.outcomeById o).isNone
    · have he : pg.exec (.updateMarketStatus id status resolved) l db =
          .error (missingReference "markets" "fk_markets_resolved_outcome") := by
        simp [Statement.exec, hm, hr]
      simp [Dialect.steps_of_error he] at h
    · have he : pg.exec (.updateMarketStatus id status resolved) l db =
          .ok ([.market { m with status, resolvedOutcomeId := resolved }], l) := by
        simp [Statement.exec, hm, hr]
      have hup := Table.upsert_modify
        (fun m : Market => { m with status, resolvedOutcomeId := resolved }) (fun _ => rfl) hm
      simpa [Dialect.steps_of_exec he, RowVersion.write, hup, Db.setMarketStatus] using h

theorem steps_updateBetStatus {id : BetId} {status : BetStatus} {payout : Option Int}
    (h : pg.steps [.updateBetStatus id status payout] l db = .ok (db', l')) :
    db' = db.setBetStatus id status payout ∧ l' = l := by
  cases hb : db.bets.find? id with
  | none =>
    have he : pg.exec (.updateBetStatus id status payout) l db = .ok ([], l) := by
      simp [Statement.exec, hb]
    have hsame : db.setBetStatus id status payout = db := by
      simp [Db.setBetStatus, Table.modify_missing _ _ hb]
    simpa [Dialect.steps_of_exec he, hsame] using h
  | some b =>
    have he : pg.exec (.updateBetStatus id status payout) l db =
        .ok ([.bet { b with status, payout }], l) := by simp [Statement.exec, hb]
    have hup := Table.upsert_modify (fun b : Bet => { b with status, payout }) (fun _ => rfl) hb
    simpa [Dialect.steps_of_exec he, RowVersion.write, hup, Db.setBetStatus] using h

theorem steps_credit {userId : UserId} {payout : Int}
    (h : pg.steps [.credit userId payout] l db = .ok (db', l')) :
    (∀ u, db.userById userId = some u → InI64 (u.balance + payout)) ∧
      db' = db.credit userId payout l.now ∧ l' = l := by
  cases hu : db.userById userId with
  | none =>
    have he : pg.exec (.credit userId payout) l db = .ok ([], l) := by simp [Statement.exec, hu]
    have hsame : db.credit userId payout l.now = db := by
      simp [Db.credit, Table.modify_missing _ _ hu]
    simpa [Dialect.steps_of_exec he, hsame] using h
  | some u =>
    by_cases hin : InI64 (u.balance + payout)
    · have he : pg.exec (.credit userId payout) l db =
          .ok ([.user { u with balance := u.balance + payout, updatedAt := l.now }], l) := by
        simp [Statement.exec, hu, hin]
      have hup := Table.upsert_modify
        (fun u : User => { u with balance := u.balance + payout, updatedAt := l.now })
        (fun _ => rfl) hu
      simpa [Dialect.steps_of_exec he, RowVersion.write, hup, Db.credit, hin] using h
    · have he : pg.exec (.credit userId payout) l db = .error bigintOutOfRange := by
        simp [Statement.exec, hu, hin]
      simp [Dialect.steps_of_error he] at h

end Statements

/-! ### Placement -/

def stakeOn (bet : Bet) (id : OutcomeId) : Int := if id = bet.outcomeId then bet.amount else 0

/-- An outcome row after the updates of a placement: its volume moves by the stake,
its price is the one the placement brought along. -/
def repriced (bet : Bet) (priced : List Outcome) (o : Outcome) : Outcome :=
  match priced.find? fun p => p.id = o.id with
  | none => o
  | some p => { o with volume := o.volume + stakeOn bet o.id, currentPrice := p.currentPrice }

theorem repriced_id (bet : Bet) (priced : List Outcome) (o : Outcome) :
    (repriced bet priced o).id = o.id := by
  unfold repriced
  split <;> rfl

def priceUpdates (bet : Bet) (priced : List Outcome) : List Statement :=
  priced.map fun o => .updateOutcome o.id (if o.id = bet.outcomeId then bet.amount else 0)
    o.currentPrice

def Db.repriceAll (db : Db) (bet : Bet) (priced : List Outcome) : Db :=
  { db with outcomes := db.outcomes.mapRows (repriced bet priced) (repriced_id bet priced) }

theorem repriced_cons {bet : Bet} {p : Outcome} {priced : List Outcome}
    (hp : p.id ∉ priced.map Outcome.id) (o : Outcome) :
    repriced bet (p :: priced) o = repriced bet priced
      (if o.id = p.id then
        { o with volume := o.volume + stakeOn bet p.id, currentPrice := p.currentPrice } else o) := by
  by_cases ho : o.id = p.id
  · have hnone : (priced.find? fun q => q.id = o.id) = none := by
      rw [List.find?_eq_none]
      intro q hq hqo
      exact hp (List.mem_map.mpr ⟨q, hq, by simpa [ho] using hqo⟩)
    simp [repriced, ho, ho ▸ hnone]
  · have hne : ¬p.id = o.id := fun h => ho h.symm
    simp [repriced, ho, hne]

theorem steps_priceUpdates {bet : Bet} {priced : List Outcome} {db db' : Db} {l l' : TxVars}
    (hnd : (priced.map Outcome.id).Nodup) :
    pg.steps (priceUpdates bet priced) l db = .ok (db', l') ↔
      (∀ p ∈ priced, ∀ o, db.outcomeById p.id = some o → InI64 (o.volume + stakeOn bet p.id)) ∧
      db' = db.repriceAll bet priced ∧ l' = l := by
  induction priced generalizing db with
  | nil =>
    have hsame : db.repriceAll bet [] = db := by
      simp [Db.repriceAll, Table.mapRows_id db.outcomes (repriced_id bet []) fun _ _ => rfl]
    simp only [priceUpdates, List.map_nil, Dialect.steps, Except.ok.injEq, Prod.mk.injEq,
      List.not_mem_nil, false_implies, implies_true, true_and, hsame]
    exact and_congr eq_comm eq_comm
  | cons p ps ih =>
    rw [List.map_cons, List.nodup_cons] at hnd
    have hrest : ∀ q ∈ ps, (db.reprice p.id (stakeOn bet p.id) p.currentPrice).outcomeById q.id =
        db.outcomeById q.id := by
      intro q hq
      have hne : p.id ≠ q.id := fun h => hnd.1 (List.mem_map.mpr ⟨q, hq, h.symm⟩)
      have hfind := Table.find?_modify_ne db.outcomes
        (fun o : Outcome => { o with
          volume := o.volume + stakeOn bet p.id, currentPrice := p.currentPrice })
        (fun _ => rfl) hne
      exact hfind
    have hcomp : (db.reprice p.id (stakeOn bet p.id) p.currentPrice).repriceAll bet ps =
        db.repriceAll bet (p :: ps) := by
      simp only [Db.reprice, Db.repriceAll, Db.mk.injEq, true_and, and_true]
      apply Table.ext
      simp only [Table.rows_mapRows, Table.rows_modify, List.map_map]
      refine List.map_congr_left fun o _ => ?_
      exact (repriced_cons hnd.1 o).symm
    simp only [priceUpdates, List.map_cons]
    rw [Dialect.steps_cons]
    constructor
    · rintro ⟨db₁, l₁, hfirst, hothers⟩
      obtain ⟨hin, rfl, rfl⟩ := steps_updateOutcome.mp hfirst
      obtain ⟨hins, rfl, rfl⟩ := (ih hnd.2).mp hothers
      refine ⟨?_, ?_, rfl⟩
      · intro q hq o ho
        rcases List.mem_cons.mp hq with rfl | hq
        · exact hin o ho
        · exact hins q hq o ((hrest q hq).trans ho)
      · exact hcomp
    · rintro ⟨hin, rfl, rfl⟩
      refine ⟨_, l', steps_updateOutcome.mpr ⟨hin p (by simp), rfl, rfl⟩,
        (ih hnd.2).mpr ⟨?_, ?_, rfl⟩⟩
      · intro q hq o ho
        exact hin q (by simp [hq]) o ((hrest q hq).symm.trans ho)
      · exact hcomp.symm

def Db.joining (db : Db) (bet : Bet) : Int := if db.hasBet bet.userId bet.marketId then 0 else 1

def placeEvents (bet : Bet) : List Event :=
  [.userBalanceChanged bet.userId, .betPlaced bet.id, .marketPricesUpdated bet.marketId]

def Db.placed (db : Db) (bet : Bet) (priced : List Outcome) (points : List PricePoint)
    (now : DateTime) : Db where
  users := (db.debit bet.userId bet.amount now).users
  markets := (db.addTotals bet.marketId bet.amount (db.joining bet)).markets
  outcomes := (db.repriceAll bet priced).outcomes
  bets := db.bets.upsert bet
  priceHistory := db.priceHistory ++ points
  outbox := db.outbox ++ placeEvents bet

structure PlaceEnabled (db : Db) (bet : Bet) (priced : List Outcome) (points : List PricePoint) :
    Prop where
  covered : ∃ u, db.userById bet.userId = some u ∧ bet.amount ≤ u.balance
  insertable : bet.insertError db = none
  volumes : ∀ p ∈ priced, ∀ o, db.outcomeById p.id = some o → InI64 (o.volume + stakeOn bet p.id)
  totals : ∀ m, db.marketById bet.marketId = some m →
    InI64 (m.totalVolume + bet.amount) ∧ InI32 (m.participantsCount + db.joining bet)
  charted : ∀ p ∈ points, (db.outcomeById p.outcomeId).isSome

theorem insertError_debit (db : Db) (bet : Bet) (userId : UserId) (amount : Int) (now : DateTime) :
    bet.insertError (db.debit userId amount now) = bet.insertError db := by
  have huser : ((db.debit userId amount now).userById bet.userId).isNone =
      (db.userById bet.userId).isNone := by
    unfold Db.userById Db.debit
    rw [Table.find?_modify]
    split <;> simp
  unfold Bet.insertError
  rw [huser]
  rfl

theorem insertError_none {db : Db} {bet : Bet} (h : bet.insertError db = none) :
    db.bets.find? bet.id = none ∧ (∃ u, db.userById bet.userId = some u) ∧
      (∃ m, db.marketById bet.marketId = some m) ∧
      ∃ o, db.outcomeById bet.outcomeId = some o := by
  unfold Bet.insertError at h
  cases hb : db.bets.find? bet.id <;> cases hu : db.userById bet.userId <;>
    cases hm : db.marketById bet.marketId <;> cases ho : db.outcomeById bet.outcomeId <;>
    simp [hb, hu, hm, ho] at h ⊢

theorem outcomeById_repriceAll (db : Db) (bet : Bet) (priced : List Outcome) (id : OutcomeId) :
    (db.repriceAll bet priced).outcomeById id = (db.outcomeById id).map (repriced bet priced) :=
  Table.find?_mapRows db.outcomes (repriced bet priced) (repriced_id bet priced) id

/-- A placement commits exactly when its statements find what they need, and then
this is all it does. -/
theorem place_ok {db db' : Db} {bet : Bet} {priced : List Outcome} {points : List PricePoint}
    {l : TxVars} (hnd : (priced.map Outcome.id).Nodup) :
    pg.atomically (placeProgram bet priced points) l db = .ok db' ↔
      PlaceEnabled db bet priced points ∧ db' = db.placed bet priced points l.now := by
  have hprog : placeProgram bet priced points =
      .debit bet.userId bet.amount :: .selectRepeatBettor bet.userId bet.marketId ::
        .insertBet bet :: (priceUpdates bet priced ++
          .updateMarketTotals bet.marketId bet.amount ::
            (points.map .insertPricePoint ++ (placeEvents bet).map .publish)) := by
    simp [placeProgram, priceUpdates, placeEvents]
  rw [Dialect.atomically_ok, hprog]
  constructor
  · rintro ⟨l', h⟩
    obtain ⟨db₁, l₁, hdebit, h⟩ := Dialect.steps_cons.mp h
    obtain ⟨hcovered, rfl, rfl⟩ := steps_debit.mp hdebit
    obtain ⟨db₂, l₂, hselect, h⟩ := Dialect.steps_cons.mp h
    obtain ⟨rfl, rfl⟩ := steps_selectRepeatBettor.mp hselect
    obtain ⟨db₃, l₃, hinsert, h⟩ := Dialect.steps_cons.mp h
    obtain ⟨hins, rfl, rfl⟩ := steps_insertBet.mp hinsert
    obtain ⟨db₄, l₄, hprices, h⟩ := Dialect.steps_append.mp h
    obtain ⟨hvol, rfl, rfl⟩ := (steps_priceUpdates hnd).mp hprices
    obtain ⟨db₅, l₅, htotals, h⟩ := Dialect.steps_cons.mp h
    obtain ⟨htot, rfl, rfl⟩ := steps_updateMarketTotals.mp htotals
    obtain ⟨db₆, l₆, hpoints, h⟩ := Dialect.steps_append.mp h
    obtain ⟨hpts, rfl, rfl⟩ := steps_points.mp hpoints
    obtain ⟨rfl, rfl⟩ := steps_publish.mp h
    refine ⟨⟨hcovered, ?_, hvol, htot, ?_⟩, rfl⟩
    · rw [insertError_debit] at hins
      exact hins
    · intro p hp
      have hsome := hpts p hp
      have hid : (db.repriceAll bet priced).outcomeById p.outcomeId = _ :=
        outcomeById_repriceAll db bet priced p.outcomeId
      change ((db.repriceAll bet priced).outcomeById p.outcomeId).isSome at hsome
      simpa [hid] using hsome
  · rintro ⟨hen, rfl⟩
    refine ⟨{ l with repeatBettor := db.hasBet bet.userId bet.marketId },
      Dialect.steps_cons.mpr ⟨_, _, steps_debit.mpr ⟨hen.covered, rfl, rfl⟩, ?_⟩⟩
    refine Dialect.steps_cons.mpr ⟨_, _, steps_selectRepeatBettor.mpr ⟨rfl, rfl⟩, ?_⟩
    have hins : bet.insertError (db.debit bet.userId bet.amount l.now) = none := by
      rw [insertError_debit]
      exact hen.insertable
    refine Dialect.steps_cons.mpr ⟨_, _, steps_insertBet.mpr ⟨hins, rfl, rfl⟩, ?_⟩
    refine Dialect.steps_append.mpr ⟨_, _, (steps_priceUpdates hnd).mpr ⟨hen.volumes, rfl, rfl⟩, ?_⟩
    refine Dialect.steps_cons.mpr ⟨_, _, steps_updateMarketTotals.mpr ⟨hen.totals, rfl, rfl⟩, ?_⟩
    refine Dialect.steps_append.mpr ⟨_, _, steps_points.mpr ⟨?_, rfl, rfl⟩, ?_⟩
    · intro p hp
      have hid : (db.repriceAll bet priced).outcomeById p.outcomeId = _ :=
        outcomeById_repriceAll db bet priced p.outcomeId
      change ((db.repriceAll bet priced).outcomeById p.outcomeId).isSome
      simpa [hid] using hen.charted p hp
    · exact steps_publish.mpr ⟨rfl, rfl⟩

/-! ### Settlement -/

def settledRow (settled : List Bet) (b : Bet) : Bet :=
  match settled.find? fun s => s.id = b.id with
  | none => b
  | some s => { b with status := s.status, payout := s.payout }

def credits (settled : List Bet) (userId : UserId) : Int :=
  ((settled.filter fun b => b.userId = userId).map fun b => b.payout.getD 0).sum

def isPaid (settled : List Bet) (userId : UserId) : Bool :=
  settled.any fun b => b.userId = userId && b.payout.isSome

def paidRow (settled : List Bet) (now : DateTime) (u : User) : User :=
  if isPaid settled u.id then
    { u with balance := u.balance + credits settled u.id, updatedAt := now }
  else u

theorem settledRow_id (settled : List Bet) (b : Bet) : (settledRow settled b).id = b.id := by
  unfold settledRow
  split <;> rfl

theorem paidRow_id (settled : List Bet) (now : DateTime) (u : User) :
    (paidRow settled now u).id = u.id := by
  unfold paidRow
  split <;> rfl

def Db.settleBets (db : Db) (settled : List Bet) (now : DateTime) : Db :=
  { db with
    bets := db.bets.mapRows (settledRow settled) (settledRow_id settled)
    users := db.users.mapRows (paidRow settled now) (paidRow_id settled now) }

theorem settledRow_cons {b : Bet} {settled : List Bet} (hb : b.id ∉ settled.map Bet.id) (r : Bet) :
    settledRow (b :: settled) r = settledRow settled
      (if r.id = b.id then { r with status := b.status, payout := b.payout } else r) := by
  by_cases hr : r.id = b.id
  · have hnone : (settled.find? fun s => s.id = r.id) = none := by
      rw [List.find?_eq_none]
      intro s hs hsr
      exact hb (List.mem_map.mpr ⟨s, hs, by simpa [hr] using hsr⟩)
    simp [settledRow, hr, hr ▸ hnone]
  · have hne : ¬b.id = r.id := fun h => hr h.symm
    simp [settledRow, hr, hne]

theorem isPaid_cons (b : Bet) (settled : List Bet) (userId : UserId) :
    isPaid (b :: settled) userId =
      ((b.userId = userId && b.payout.isSome) || isPaid settled userId) := rfl

theorem credits_cons (b : Bet) (settled : List Bet) (userId : UserId) :
    credits (b :: settled) userId =
      (if b.userId = userId then b.payout.getD 0 else 0) + credits settled userId := by
  by_cases hb : b.userId = userId
  · simp [credits, hb]
  · simp [credits, hb]

theorem credits_unpaid {settled : List Bet} {userId : UserId} (h : isPaid settled userId = false) :
    credits settled userId = 0 := by
  induction settled with
  | nil => rfl
  | cons b rest ih =>
    simp only [isPaid, List.any_cons, Bool.or_eq_false_iff] at h
    rw [credits_cons, ih h.2]
    by_cases hb : b.userId = userId
    · have hnone : b.payout = none := by simpa [hb] using h.1
      simp [hnone]
    · simp [hb]

theorem paidRow_cons_none {b : Bet} (hb : b.payout = none) (settled : List Bet) (now : DateTime) :
    paidRow (b :: settled) now = paidRow settled now := by
  funext u
  simp [paidRow, isPaid, credits_cons, hb]

theorem paidRow_cons_some {b : Bet} {payout : Int} (hb : b.payout = some payout)
    (settled : List Bet) (now : DateTime) (u : User) :
    paidRow (b :: settled) now u = paidRow settled now
      (if u.id = b.userId then { u with balance := u.balance + payout, updatedAt := now } else u) := by
  by_cases hu : b.userId = u.id
  · cases hp : isPaid settled u.id with
    | true => simp [paidRow, isPaid_cons, credits_cons, hb, hu, hp, Int.add_assoc]
    | false => simp [paidRow, isPaid_cons, credits_cons, hb, hu, hp, credits_unpaid hp]
  · have hne : ¬u.id = b.userId := fun h => hu h.symm
    simp [paidRow, isPaid_cons, credits_cons, hu, hne]

theorem credits_eq_sum (settled : List Bet) (id : UserId) :
    credits settled id =
      (settled.map fun b => if b.userId = id then b.payout.getD 0 else 0).sum := by
  induction settled with
  | nil => rfl
  | cons b rest ih => rw [credits_cons, ih, List.map_cons, List.sum_cons]

theorem paidRow_balance (settled : List Bet) (now : DateTime) (u : User) :
    (paidRow settled now u).balance = u.balance + credits settled u.id := by
  unfold paidRow
  cases hp : isPaid settled u.id with
  | true => simp
  | false => simp [credits_unpaid hp]

theorem settleBets_nil (db : Db) (now : DateTime) : db.settleBets [] now = db := by
  have hbets := Table.mapRows_id db.bets (settledRow_id []) fun _ _ => rfl
  have husers := Table.mapRows_id db.users (paidRow_id [] now) fun _ _ => rfl
  simp [Db.settleBets, hbets, husers]

theorem settleBets_cons_none {b : Bet} {settled : List Bet} (hb : b.payout = none)
    (hid : b.id ∉ settled.map Bet.id) (db : Db) (now : DateTime) :
    (db.setBetStatus b.id b.status b.payout).settleBets settled now =
      db.settleBets (b :: settled) now := by
  simp only [Db.setBetStatus, Db.settleBets, Db.mk.injEq, true_and, and_true]
  constructor
  · simp only [paidRow_cons_none hb]
  · apply Table.ext
    simp only [Table.rows_mapRows, Table.rows_modify, List.map_map]
    exact List.map_congr_left fun r _ => (settledRow_cons hid r).symm

theorem settleBets_cons_some {b : Bet} {settled : List Bet} {payout : Int}
    (hb : b.payout = some payout) (hid : b.id ∉ settled.map Bet.id) (db : Db) (now : DateTime) :
    ((db.setBetStatus b.id b.status b.payout).credit b.userId payout now).settleBets settled now =
      db.settleBets (b :: settled) now := by
  simp only [Db.setBetStatus, Db.credit, Db.settleBets, Db.mk.injEq, true_and, and_true]
  constructor
  · apply Table.ext
    simp only [Table.rows_mapRows, Table.rows_modify, List.map_map]
    exact List.map_congr_left fun u _ => (paidRow_cons_some hb settled now u).symm
  · apply Table.ext
    simp only [Table.rows_mapRows, Table.rows_modify, List.map_map]
    exact List.map_congr_left fun r _ => (settledRow_cons hid r).symm

/-- Every credit is checked against the column's range, so a paid balance is in it. -/
def PaidInRange (db : Db) (settled : List Bet) (now : DateTime) : Prop :=
  ∀ u ∈ db.users.rows, isPaid settled u.id = true → InI64 (paidRow settled now u).balance

theorem steps_settleBets {settled : List Bet} {db db' : Db} {l l' : TxVars}
    (hnd : (settled.map Bet.id).Nodup)
    (h : pg.steps (settled.flatMap settleBet) l db = .ok (db', l')) :
    db' = db.settleBets settled l.now ∧ PaidInRange db settled l.now ∧ l' = l := by
  induction settled generalizing db with
  | nil =>
    simp only [List.flatMap_nil, Dialect.steps, Except.ok.injEq, Prod.mk.injEq] at h
    obtain ⟨rfl, rfl⟩ := h
    exact ⟨(settleBets_nil db l.now).symm, by simp [PaidInRange, isPaid], rfl⟩
  | cons b rest ih =>
    rw [List.map_cons, List.nodup_cons] at hnd
    rw [List.flatMap_cons, Dialect.steps_append] at h
    obtain ⟨db₁, l₁, hfirst, hrest⟩ := h
    cases hb : b.payout with
    | none =>
      simp only [settleBet, hb] at hfirst
      obtain ⟨rfl, rfl⟩ := steps_updateBetStatus hfirst
      obtain ⟨rfl, hin, rfl⟩ := ih hnd.2 hrest
      refine ⟨?_, ?_, rfl⟩
      · rw [← hb]
        exact settleBets_cons_none hb hnd.1 db _
      · intro u hu hpaid
        rw [paidRow_cons_none hb]
        exact hin u hu (by simpa [isPaid_cons, hb] using hpaid)
    | some payout =>
      simp only [settleBet, hb] at hfirst
      obtain ⟨db₂, l₂, hstatus, hcredit⟩ := Dialect.steps_cons.mp hfirst
      obtain ⟨rfl, rfl⟩ := steps_updateBetStatus hstatus
      obtain ⟨hcin, rfl, rfl⟩ := steps_credit hcredit
      obtain ⟨rfl, hin, rfl⟩ := ih hnd.2 hrest
      refine ⟨?_, ?_, rfl⟩
      · rw [← hb]
        exact settleBets_cons_some hb hnd.1 db _
      · intro u hu hpaid
        rw [paidRow_cons_some hb]
        cases hlater : isPaid rest u.id with
        | true =>
          refine hin _ (List.mem_map.mpr ⟨u, hu, rfl⟩) ?_
          split <;> exact hlater
        | false =>
          have hub : b.userId = u.id := by simpa [isPaid_cons, hlater, hb] using hpaid
          have hfind : db.userById b.userId = some u := by
            rw [hub]
            exact Table.find?_of_mem hu
          simpa [hub, paidRow, hlater] using hcin u hfind

def Db.settled (db : Db) (market : Market) (settled : List Bet) (now : DateTime) : Db where
  users := (db.settleBets settled now).users
  markets := (db.setMarketStatus market.id market.status market.resolvedOutcomeId).markets
  outcomes := db.outcomes
  bets := (db.settleBets settled now).bets
  priceHistory := db.priceHistory
  outbox := db.outbox ++ (paidUsers settled).map .userBalanceChanged

theorem settle_ok {db db' : Db} {market : Market} {settled : List Bet} {l : TxVars}
    (hnd : (settled.map Bet.id).Nodup)
    (h : pg.atomically (settleProgram market settled) l db = .ok db') :
    db' = db.settled market settled l.now ∧ PaidInRange db settled l.now := by
  have hprog : settleProgram market settled =
      .updateMarketStatus market.id market.status market.resolvedOutcomeId ::
        (settled.flatMap settleBet ++
          ((paidUsers settled).map .userBalanceChanged).map .publish) := by
    simp [settleProgram]
  rw [Dialect.atomically_ok, hprog] at h
  obtain ⟨l', h⟩ := h
  obtain ⟨db₁, l₁, hstatus, hrest⟩ := Dialect.steps_cons.mp h
  obtain ⟨rfl, rfl⟩ := steps_updateMarketStatus hstatus
  obtain ⟨db₂, l₂, hbets, hevents⟩ := Dialect.steps_append.mp hrest
  obtain ⟨rfl, hin, rfl⟩ := steps_settleBets hnd hbets
  obtain ⟨rfl, rfl⟩ := steps_publish.mp hevents
  exact ⟨rfl, hin⟩

/-! ### User rows and new markets -/

/-- The row an upsert leaves: `created_at` is not among the updated columns. -/
def Db.savedRow (db : Db) (user : User) : User :=
  match db.userById user.id with
  | none => user
  | some r => { user with createdAt := r.createdAt }

def Db.saved (db : Db) (user : User) : Db :=
  { db with users := db.users.upsert (db.savedRow user) }

theorem save_ok {db db' : Db} {user : User} {l : TxVars}
    (h : pg.atomically (saveProgram user) l db = .ok db') :
    user.uniqueError db = none ∧ db' = db.saved user := by
  obtain ⟨l', h⟩ := Dialect.atomically_ok.mp h
  cases hu : user.uniqueError db with
  | some e =>
    have he : pg.exec (.upsertUser user) l db = .error e := by simp [Statement.exec, hu]
    simp [saveProgram, Dialect.steps_of_error he] at h
  | none =>
    have he : pg.exec (.upsertUser user) l db = .ok ([.user (db.savedRow user)], l) := by
      unfold Db.savedRow
      cases hf : db.userById user.id <;> simp [Statement.exec, hu, hf]
    simp only [saveProgram, Dialect.steps_of_exec he] at h
    exact ⟨rfl, h.1⟩

theorem uniqueError_apart {db : Db} {user : User} (h : user.uniqueError db = none) {r : User}
    (hr : r ∈ db.users.rows) (hid : r.id ≠ user.id) :
    r.username ≠ user.username ∧ r.email ≠ user.email := by
  unfold User.uniqueError at h
  split at h
  · simp at h
  · rename_i husername
    split at h
    · simp at h
    · rename_i hemail
      constructor
      · intro heq
        exact husername (List.any_eq_true.mpr ⟨r, hr, by simp [hid, heq]⟩)
      · intro heq
        exact hemail (List.any_eq_true.mpr ⟨r, hr, by simp [hid, heq]⟩)

theorem uniqueError_taken {db : Db} {user : User} (h : (user.uniqueError db).isSome) :
    ∃ r ∈ db.users.rows, r.id ≠ user.id ∧
      (r.username = user.username ∨ r.email = user.email) := by
  unfold User.uniqueError at h
  split at h
  · rename_i hany
    obtain ⟨r, hr, hsame⟩ := List.any_eq_true.mp hany
    simp only [Bool.and_eq_true, decide_eq_true_eq] at hsame
    exact ⟨r, hr, hsame.1, .inl hsame.2⟩
  · split at h
    · rename_i hany
      obtain ⟨r, hr, hsame⟩ := List.any_eq_true.mp hany
      simp only [Bool.and_eq_true, decide_eq_true_eq] at hsame
      exact ⟨r, hr, hsame.1, .inr hsame.2⟩
    · simp at h

def Db.created (db : Db) (market : Market) (outcomes : List Outcome) (now : DateTime) : Db :=
  { db with
    markets := db.markets.upsert market
    outcomes := outcomes.foldl Table.upsert db.outcomes
    priceHistory := db.priceHistory ++ outcomes.map fun o => ⟨o.id, o.currentPrice, now⟩ }

theorem steps_insertOutcomes {outcomes : List Outcome} {now : DateTime} {db db' : Db}
    {l l' : TxVars}
    (h : pg.steps (outcomes.flatMap fun o =>
      [.insertOutcome o, .insertPricePoint ⟨o.id, o.currentPrice, now⟩]) l db = .ok (db', l')) :
    (∀ o ∈ outcomes, db.outcomeById o.id = none) ∧ (outcomes.map Outcome.id).Nodup ∧
      db' = { db with
        outcomes := outcomes.foldl Table.upsert db.outcomes
        priceHistory := db.priceHistory ++
          outcomes.map fun o => ⟨o.id, o.currentPrice, now⟩ } := by
  induction outcomes generalizing db with
  | nil =>
    simp only [List.flatMap_nil, Dialect.steps, Except.ok.injEq, Prod.mk.injEq] at h
    simp [← h.1]
  | cons o os ih =>
    rw [List.flatMap_cons, List.cons_append, Dialect.steps_cons] at h
    obtain ⟨db₁, l₁, hinsert, hafter⟩ := h
    obtain ⟨db₂, l₂, hpoint, hrest⟩ := Dialect.steps_cons.mp hafter
    cases ho : db.outcomeById o.id with
    | some r =>
      have he : pg.exec (.insertOutcome o) l db = .error (duplicateKey "outcomes_pkey") := by
        simp [Statement.exec, ho]
      simp [Dialect.steps_of_error he] at hinsert
    | none =>
      cases hm : db.marketById o.marketId with
      | none =>
        have he : pg.exec (.insertOutcome o) l db =
            .error (missingReference "outcomes" "outcomes_market_id_fkey") := by
          simp [Statement.exec, ho, hm]
        simp [Dialect.steps_of_error he] at hinsert
      | some m =>
        have he : pg.exec (.insertOutcome o) l db = .ok ([.outcome o], l) := by
          simp [Statement.exec, ho, hm]
        obtain ⟨rfl, rfl⟩ := (Dialect.steps_of_exec he).mp hinsert
        have hpoints : pg.steps (List.map .insertPricePoint [⟨o.id, o.currentPrice, now⟩]) l₁
            (pg.apply [.outcome o] db) = .ok (db₂, l₂) := hpoint
        obtain ⟨-, rfl, rfl⟩ := steps_points.mp hpoints
        obtain ⟨hfresh, hnd, rfl⟩ := ih hrest
        have hother : ∀ p ∈ os, p.id ≠ o.id ∧ db.outcomeById p.id = none := by
          intro p hp
          have hf : (db.outcomes.upsert o).find? p.id = none := hfresh p hp
          rw [Table.find?_upsert] at hf
          split at hf
          · simp at hf
          · rename_i hne
            exact ⟨fun h => hne h.symm, hf⟩
        refine ⟨?_, ?_, ?_⟩
        · intro p hp
          rcases List.mem_cons.mp hp with rfl | hp
          · exact ho
          · exact (hother p hp).2
        · rw [List.map_cons, List.nodup_cons]
          refine ⟨fun hmem => ?_, hnd⟩
          obtain ⟨p, hp, hpo⟩ := List.mem_map.mp hmem
          exact (hother p hp).1 hpo
        · simp [RowVersion.write]

theorem insertOutcomes_steps {outcomes : List Outcome} {now : DateTime} (db : Db) {l : TxVars}
    (hfresh : ∀ o ∈ outcomes, db.outcomeById o.id = none)
    (hnd : (outcomes.map Outcome.id).Nodup)
    (hmarket : ∀ o ∈ outcomes, (db.marketById o.marketId).isSome) :
    pg.steps (outcomes.flatMap fun o =>
      [.insertOutcome o, .insertPricePoint ⟨o.id, o.currentPrice, now⟩]) l db =
      .ok ({ db with
        outcomes := outcomes.foldl Table.upsert db.outcomes
        priceHistory := db.priceHistory ++
          outcomes.map fun o => ⟨o.id, o.currentPrice, now⟩ }, l) := by
  induction outcomes generalizing db with
  | nil => simp [Dialect.steps]
  | cons o os ih =>
    rw [List.map_cons, List.nodup_cons] at hnd
    obtain ⟨m, hm⟩ := Option.isSome_iff_exists.mp (hmarket o List.mem_cons_self)
    have he : pg.exec (.insertOutcome o) l db = .ok ([.outcome o], l) := by
      simp [Statement.exec, hfresh o List.mem_cons_self, hm]
    have hpoint : pg.steps (List.map .insertPricePoint [⟨o.id, o.currentPrice, now⟩]) l
        (pg.apply [.outcome o] db) = .ok ({ pg.apply [.outcome o] db with
          priceHistory := db.priceHistory ++ [⟨o.id, o.currentPrice, now⟩] }, l) := by
      refine steps_points.mpr ⟨fun p hp => ?_, rfl, rfl⟩
      obtain rfl := List.mem_singleton.mp hp
      have hfind : (db.outcomes.upsert o).find? o.id = some o := by
        rw [Table.find?_upsert, if_pos rfl]
      exact Option.isSome_iff_exists.mpr ⟨o, hfind⟩
    have hother : ∀ p ∈ os, (db.outcomes.upsert o).find? p.id = none := by
      intro p hp
      have hne : o.id ≠ p.id := fun h => hnd.1 (List.mem_map.mpr ⟨p, hp, h.symm⟩)
      rw [Table.find?_upsert_ne db.outcomes hne]
      exact hfresh p (List.mem_cons_of_mem o hp)
    have hrest := ih { pg.apply [.outcome o] db with
        priceHistory := db.priceHistory ++ [⟨o.id, o.currentPrice, now⟩] } hother hnd.2
      fun p hp => hmarket p (List.mem_cons_of_mem o hp)
    rw [List.flatMap_cons, List.cons_append, Dialect.steps_cons]
    refine ⟨_, l, (Dialect.steps_of_exec he).mpr ⟨rfl, rfl⟩, ?_⟩
    rw [List.cons_append, List.nil_append, Dialect.steps_cons]
    refine ⟨_, l, hpoint, ?_⟩
    rw [hrest]
    simp [RowVersion.write]

structure CreateEnabled (db : Db) (market : Market) (outcomes : List Outcome) : Prop where
  freshMarket : db.marketById market.id = none
  freshOutcomes : ∀ o ∈ outcomes, db.outcomeById o.id = none
  distinct : (outcomes.map Outcome.id).Nodup

theorem create_ok {db db' : Db} {market : Market} {outcomes : List Outcome} {now : DateTime}
    {l : TxVars} (h : pg.atomically (createProgram market outcomes now) l db = .ok db') :
    CreateEnabled db market outcomes ∧ db' = db.created market outcomes now := by
  obtain ⟨l', h⟩ := Dialect.atomically_ok.mp h
  obtain ⟨db₁, l₁, hmarket, hrest⟩ := Dialect.steps_cons.mp h
  cases hm : db.marketById market.id with
  | some m =>
    have he : pg.exec (.insertMarket market) l db = .error (duplicateKey "markets_pkey") := by
      simp [Statement.exec, hm]
    simp [Dialect.steps_of_error he] at hmarket
  | none =>
    by_cases hr : market.resolvedOutcomeId.any fun o => (db.outcomeById o).isNone
    · have he : pg.exec (.insertMarket market) l db =
          .error (missingReference "markets" "fk_markets_resolved_outcome") := by
        simp [Statement.exec, hm, hr]
      simp [Dialect.steps_of_error he] at hmarket
    · have he : pg.exec (.insertMarket market) l db = .ok ([.market market], l) := by
        simp [Statement.exec, hm, hr]
      obtain ⟨rfl, rfl⟩ := (Dialect.steps_of_exec he).mp hmarket
      obtain ⟨hfresh, hnd, rfl⟩ := steps_insertOutcomes hrest
      exact ⟨⟨hm, hfresh, hnd⟩, rfl⟩

theorem create_commits {db : Db} {market : Market} {outcomes : List Outcome} {now : DateTime}
    {l : TxVars} (h : CreateEnabled db market outcomes)
    (hopen : market.resolvedOutcomeId = none) (hown : ∀ o ∈ outcomes, o.marketId = market.id) :
    pg.atomically (createProgram market outcomes now) l db =
      .ok (db.created market outcomes now) := by
  have he : pg.exec (.insertMarket market) l db = .ok ([.market market], l) := by
    simp [Statement.exec, h.freshMarket, hopen]
  have hmarket : ∀ o ∈ outcomes, ((pg.apply [.market market] db).marketById o.marketId).isSome := by
    intro o ho
    have hfind : (db.markets.upsert market).find? market.id = some market := by
      rw [Table.find?_upsert, if_pos rfl]
    rw [hown o ho]
    exact Option.isSome_iff_exists.mpr ⟨market, hfind⟩
  refine Dialect.atomically_ok.mpr ⟨l, Dialect.steps_cons.mpr ⟨_, l,
    (Dialect.steps_of_exec he).mpr ⟨rfl, rfl⟩, ?_⟩⟩
  exact insertOutcomes_steps (pg.apply [.market market] db) h.freshOutcomes h.distinct hmarket

theorem rows_created {db : Db} {market : Market} {outcomes : List Outcome} {now : DateTime}
    (h : CreateEnabled db market outcomes) :
    (db.created market outcomes now).outcomes.rows = db.outcomes.rows ++ outcomes ∧
      (db.created market outcomes now).markets.rows = db.markets.rows ++ [market] :=
  ⟨Table.rows_foldl_upsert h.freshOutcomes h.distinct, Table.rows_upsert_fresh h.freshMarket⟩

end Betsphere
