import Betsphere.Application.EntryPrices
set_option autoImplicit false

namespace Betsphere
open MachineInt Pricing RowLock

def PgBetRepository.findByUser (rows : List Bet) (userId : UserId) (filter : BetFilter) :
    Except RepositoryError (List Bet) :=
  list rows (some (fun bet => bet.userId.uuid, userId.uuid)) filter

def Db.scanned (env : Env) (db : Db) : List Bet :=
  if (env.scan db.bets.rows).Perm db.bets.rows then env.scan db.bets.rows else db.bets.rows

def pgBackend : Backend Db where
  toRepositories := pgRepositories
  create := fun env market outcomes db =>
    match pg.atomically (createProgram market outcomes env.now) env.txVars db with
    | .error e => (db, .failed e)
    | .ok db => (db, .done)
  marketsByIds := fun db ids => db.markets.rows.filter fun m => m.id ∈ ids
  outcomesForMarkets := fun db ids => db.outcomes.rows.filter fun o => o.marketId ∈ ids
  activePositions := PgBetRepository.activePositions
  findByUser := fun env db => PgBetRepository.findByUser (db.scanned env)
  findByMarket := fun env db => PgBetRepository.findByMarket (db.scanned env)
  feed := fun env db => PgBetRepository.feed (db.scanned env)

def Db.book (db : Db) : Book where
  bets := db.bets.rows
  status := fun id => (db.marketById id).map Market.status
  marketOf := fun id => (db.outcomeById id).map Outcome.marketId
  known := db.HasUser

section Reads
variable {db : Db}

theorem Db.scanned_perm (env : Env) (db : Db) : (db.scanned env).Perm db.bets.rows := by
  unfold Db.scanned
  split
  · assumption
  · exact .refl _

theorem pgBackend_reads (db : Db) : pgBackend.Reads db db.book numericMean where
  bounded := meanOf_numericMean
  positions := by
    intro pairs hpairs
    have heq := PgBetRepository.activePositions_eq db pairs
    rw [hpairs.dedup] at heq
    exact heq
  users := fun id h => h
  markets := by
    rintro ids id hid ⟨status, hstatus⟩
    obtain ⟨m, hm, -⟩ := Option.map_eq_some_iff.mp hstatus
    obtain ⟨hrow, rfl⟩ := Table.find?_eq_some.mp hm
    exact ⟨m, List.mem_filter.mpr ⟨hrow, decide_eq_true hid⟩, rfl⟩
  outcomes := by
    intro ids id hid outcomeId hmarket
    obtain ⟨o, ho, rfl⟩ := Option.map_eq_some_iff.mp hmarket
    obtain ⟨hrow, rfl⟩ := Table.find?_eq_some.mp ho
    exact ⟨o, List.mem_filter.mpr ⟨hrow, decide_eq_true hid⟩, rfl⟩
  pages := by
    intro env listing bets hpage b hb
    refine (db.scanned_perm env).mem_iff.mp ?_
    cases listing with
    | user userId filter => exact PgBetRepository.mem_of_list hpage hb
    | market marketId filter => exact PgBetRepository.mem_of_list hpage hb
    | feed filter => exact PgBetRepository.mem_of_list hpage hb

end Reads

section Turns
variable {db db' : Db}

theorem Db.book_known {now : DateTime} {bet : Bet} {priced : List Outcome}
    {points : List PricePoint} (hen : PlaceEnabled db bet priced points) :
    db.book.Extends (db.placed bet priced points now).book where
  status := by
    intro id status h
    obtain ⟨m, hm, rfl⟩ := Option.map_eq_some_iff.mp h
    simp only [Db.book, marketById_placed, hm, Option.map_some, Option.some.injEq]
    split <;> rfl
  marketOf := by
    intro id market h
    obtain ⟨o, ho, rfl⟩ := Option.map_eq_some_iff.mp h
    have hplaced : (db.placed bet priced points now).outcomeById id =
        (db.outcomeById id).map (repriced bet priced) := outcomeById_repriceAll db bet priced id
    simp only [Db.book, hplaced, ho, Option.map_some, repriced_marketId]
  known := (grows_placed hen).users

theorem Db.placed_turn {now : DateTime} {input : NewBet} {id : BetId} {bet : Bet} {build : Build}
    {priced : List Outcome} {points : List PricePoint}
    (hplacing : Placing pgRepositories build db input id bet priced)
    (hen : PlaceEnabled db bet priced points) :
    db.book.Turn (db.placed bet priced points now).book := by
  obtain ⟨outcome, market, houtcome, hmarket, hopen, hbm, -⟩ := hplacing.outcome
  have hoid : outcome.id = input.outcomeId := Table.find?_key houtcome
  have hmid : market.id = outcome.marketId := Table.find?_key hmarket
  refine .place bet .opened (Db.book_known hen) (rows_bets_placed hen) ?_ hplacing.active
    hplacing.user ?_ ?_ (by decide)
  · intro hmem
    obtain ⟨b, hb⟩ := Table.mem_keys_iff.mp hmem
    rw [(insertError_none hen.insertable).1] at hb
    cases hb
  · have hfound : db.outcomeById input.outcomeId = some outcome := houtcome
    simp only [Db.book, hplacing.outcomeId, hfound, Option.map_some, hbm, hmid]
  · have hfound : db.marketById outcome.marketId = some market := hmarket
    simp only [Db.book, hbm, hmid, hfound, Option.map_some, hopen]

theorem Resolving.settled_perm {env : Env} {marketId : MarketId} {winner : OutcomeId}
    {market : Market} {settled : List Bet}
    (h : Resolving pgRepositories db env marketId winner market settled) :
    settled.Perm ((db.activeForMarket marketId).map (ResolveMarket.settleOn winner)) := by
  rw [(ResolveMarket.settleAll_ok h.settled).2]
  refine List.Perm.map _ ?_
  simp only [pgRepositories]
  split
  · assumption
  · exact .refl _

theorem Resolving.nodup {env : Env} {marketId : MarketId} {winner : OutcomeId}
    {market : Market} {settled : List Bet}
    (h : Resolving pgRepositories db env marketId winner market settled) :
    (settled.map Bet.id).Nodup := by
  have hids : ((db.activeForMarket marketId).map (ResolveMarket.settleOn winner)).map Bet.id =
      (db.activeForMarket marketId).map Bet.id := by
    rw [List.map_map]
    exact List.map_congr_left fun b _ => (ResolveMarket.settleOn_sameStake winner b).id.symm
  rw [(h.settled_perm.map Bet.id).nodup_iff, hids]
  exact ResolveMarket.activeForMarket_nodup db marketId

theorem Db.settled_turn {now : DateTime} {env : Env} {marketId : MarketId} {winner : OutcomeId}
    {market : Market} {settled : List Bet}
    (h : Resolving pgRepositories db env marketId winner market settled) :
    db.book.Turn (db.settled market settled now).book := by
  obtain ⟨stored, hstored, rfl⟩ := h.market
  have hid : stored.id = marketId := Table.find?_key hstored
  have hfound : db.marketById marketId = some stored := hstored
  refine .settle marketId (ResolveMarket.settleOn winner) (settledAs_settleOn winner) ?_ ?_ ?_
    (fun _ _ h => h) grows_settled.users
  · refine List.map_congr_left fun b hb => ?_
    have hfind := find?_settled db.bets.nodup h.settled_perm hb
    unfold settledRow
    rw [hfind]
    by_cases hactive : b.marketId = marketId ∧ b.status = .active
    · simp only [if_pos hactive]
      unfold ResolveMarket.settleOn
      split <;> rfl
    · simp only [if_neg hactive]
  · simp only [Db.book, marketById_settled, hfound, Option.map_some, if_true]
  · intro id' hne
    simp only [Db.book, marketById_settled, Option.map_map]
    cases hm : db.marketById id' with
    | none => rfl
    | some m =>
      have hkey : m.id = id' := Table.find?_key hm
      have hother : ¬m.id = stored.id := fun heq => hne (hkey.symm.trans (heq.trans hid))
      simp only [Option.map_some, Function.comp_apply, if_neg hother]

theorem Db.created_turn {now : DateTime} {market : Market} {outcomes : List Outcome}
    (h : CreateEnabled db market outcomes) :
    db.book.Turn (db.created market outcomes now).book := by
  refine .keep ⟨fun id status hstatus => ?_, fun id owner howner => ?_, fun id h => h⟩ rfl
  · obtain ⟨m, hm, rfl⟩ := Option.map_eq_some_iff.mp hstatus
    have hne : ¬market.id = id := by
      rintro rfl
      rw [h.freshMarket] at hm
      cases hm
    simp only [Db.book, marketById_created, if_neg hne, hm, Option.map_some]
  · obtain ⟨o, ho, rfl⟩ := Option.map_eq_some_iff.mp howner
    have hrow := (Table.find?_eq_some.mp ho).1
    have hid := Table.find?_key ho
    have hafter : (db.created market outcomes now).outcomeById id = some o := by
      refine Table.find?_eq_some.mpr ⟨?_, hid⟩
      rw [(rows_created h).1]
      exact List.mem_append_left _ hrow
    simp only [Db.book, hafter, Option.map_some]

theorem Placing.nodup {build : Build} {input : NewBet} {id : BetId} {bet : Bet}
    {priced : List Outcome} (h : Placing pgRepositories build db input id bet priced) :
    (priced.map Outcome.id).Nodup := by
  obtain ⟨outcome, market, -, -, -, -, chosen, -, hprice⟩ := h.outcome
  rw [recalculatePrices_map hprice Outcome.id fun _ => rfl,
    PlaceBet.staked_map Outcome.id fun _ _ => rfl]
  exact db.outcomeIds_nodup market.id

theorem Db.call_turn {build : Build} {call : MarketCall} (h : call.Effect pgBackend build db db') :
    db.book.Turn db'.book := by
  have hkeep : db.book.Turn db.book := .keep (.refl _) rfl
  cases h with
  | none => exact hkeep
  | created actor input env market outcomes hprepare =>
    simp only [pgBackend]
    cases hcommit : pg.atomically (createProgram market outcomes (env 1).now) (env 1).txVars db with
    | error e => exact hkeep
    | ok db' =>
      obtain ⟨hen, rfl⟩ := create_ok hcommit
      exact Db.created_turn hen
  | placed actor input env env' bet priced points hplacing =>
    simp only [pgBackend, pgRepositories]
    cases hcommit : pg.atomically (placeProgram bet priced points) env'.txVars db with
    | error e => exact hkeep
    | ok db' =>
      obtain ⟨hen, rfl⟩ := (place_ok (Placing.nodup hplacing)).mp hcommit
      exact Db.placed_turn hplacing hen
  | settled actor marketId winner env env' market bets hresolving =>
    simp only [pgBackend, pgRepositories]
    cases hcommit : pg.atomically (settleProgram market bets) env'.txVars db with
    | error e => exact hkeep
    | ok db' =>
      obtain ⟨rfl, -⟩ := settle_ok hresolving.nodup hcommit
      exact Db.settled_turn hresolving

theorem Db.afterCalls_sound {build : Build} {calls : List MarketCall} (h : db.book.Sound)
    (hrun : afterCalls pgBackend build calls db = some db') : db'.book.Sound := by
  induction calls generalizing db with
  | nil =>
    cases hrun
    exact h
  | cons call calls ih =>
    simp only [afterCalls] at hrun
    split at hrun
    · cases hrun
    · rename_i t r hcall
      exact ih ((Db.call_turn (MarketCall.run_effect hcall)).sound h) hrun

end Turns

end Betsphere
