import Betsphere.Application.Calls
import Betsphere.InMemory.Agreement
set_option autoImplicit false

namespace Betsphere
open MachineInt Pricing RowLock

/-- What every state between two awaits keeps. -/
structure Paired (db : Db) (m : Mem) : Prop where
  mirrors : Mirrors db m
  bettors : db.BettorsKnown

structure Write.Regular (w : Write) (db : Db) : Prop where
  sums : w.SumsFit db
  count : w.CountFits db
  fresh : w.DrawsFresh db

section Awaits
variable {build : Build} {env : Env} {db : Db} {cache : Cache} {actor : Actor} {input : NewBet}
  {marketId : MarketId} {winner : OutcomeId}

theorem PlaceBet.read_eq_advance {phase : PlaceBet.Phase} (hwrite : PlaceBet.write? phase = none)
    (hcached : ∀ market outcomes chosen lookup, phase ≠ .findUser market outcomes chosen lookup) :
    PlaceBet.read build env db cache actor input phase =
      some (cache, (PlaceBet.advance pgRepositories build actor input env phase db).2) := by
  cases phase with
  | findUser market outcomes chosen lookup =>
    exact absurd rfl (hcached market outcomes chosen lookup)
  | place market user bet priced chosen points => simp [PlaceBet.write?] at hwrite
  | readPosition market user bet priced chosen =>
    simp only [PlaceBet.read, PlaceBet.advance, pgRepositories]
    cases haverage : db.averagePrice actor.userId input.outcomeId with
    | none => rfl
    | some average =>
      simp only [PlaceBet.onPosition,
        Price.fromTenThousandths_of_inRange (averagePrice_inRange haverage)]
      rfl
  | _ => rfl

theorem PlaceBet.write_eq_advance {phase : PlaceBet.Phase} {w : Write}
    (hwrite : PlaceBet.write? phase = some w) :
    PlaceBet.advance pgRepositories build actor input env phase db =
      match pg.atomically w.program env.txVars db with
      | .error e => (db, PlaceBet.written phase (.error e))
      | .ok db => (db, PlaceBet.written phase (.ok ())) := by
  cases phase with
  | place market user bet priced chosen points =>
    cases hwrite
    simp only [PlaceBet.advance, pgRepositories, Write.program]
    cases pg.atomically (placeProgram bet priced points) env.txVars db <;> rfl
  | _ => simp [PlaceBet.write?] at hwrite

theorem ResolveMarket.read_eq_advance {phase : ResolveMarket.Phase}
    (hwrite : ResolveMarket.write? phase = none)
    (hscan : (env.scan (db.activeForMarket marketId)).Perm (db.activeForMarket marketId)) :
    ResolveMarket.read env db cache marketId winner phase =
      some (cache, (ResolveMarket.advance pgRepositories marketId winner env phase db).2) := by
  cases phase with
  | settle market outcomes settled => simp [ResolveMarket.write?] at hwrite
  | readActive market outcomes =>
    simp only [ResolveMarket.read, ResolveMarket.advance, pgRepositories, hscan, if_true]
  | _ => rfl

theorem ResolveMarket.write_eq_advance {phase : ResolveMarket.Phase} {w : Write}
    (hwrite : ResolveMarket.write? phase = some w) :
    ResolveMarket.advance pgRepositories marketId winner env phase db =
      match pg.atomically w.program env.txVars db with
      | .error e => (db, ResolveMarket.written phase (.error e))
      | .ok db => (db, ResolveMarket.written phase (.ok ())) := by
  cases phase with
  | settle market outcomes settled =>
    cases hwrite
    simp only [ResolveMarket.advance, pgRepositories, Write.program]
    cases pg.atomically (settleProgram market settled) env.txVars db <;> rfl
  | _ => simp [ResolveMarket.write?] at hwrite

end Awaits

structure Prepared (build : Build) (db : Db) (user : User) (bet : Bet) (priced : List Outcome)
    (chosen : Nat) (points : List PricePoint) : Prop where
  bettor : db.userById bet.userId = some user
  covered : bet.amount ≤ user.balance
  market : ∃ r, db.marketById bet.marketId = some r
  pricedFrom : PricedFrom build (fun _ => True) (db.outcomesFor bet.marketId) chosen bet priced
  charted : ∃ at' : DateTime, points = priced.map fun o => ⟨o.id, o.currentPrice, at'⟩

section Prepared
variable {build : Build} {db : Db} {user : User} {bet : Bet} {priced : List Outcome} {chosen : Nat}
  {points : List PricePoint}

theorem Prepared.ids (h : Prepared build db user bet priced chosen points) :
    priced.map Outcome.id = db.outcomeIds bet.marketId := by
  rw [recalculatePrices_map h.pricedFrom.result Outcome.id fun _ => rfl,
    PlaceBet.staked_map Outcome.id fun _ _ => rfl]
  rfl

theorem Prepared.nodup (h : Prepared build db user bet priced chosen points) :
    (priced.map Outcome.id).Nodup := by
  rw [h.ids]
  exact db.outcomeIds_nodup bet.marketId

theorem Prepared.stored (h : Prepared build db user bet priced chosen points) {id : OutcomeId}
    (hid : id ∈ priced.map Outcome.id) : ∃ o ∈ db.outcomesFor bet.marketId, o.id = id := by
  rw [h.ids] at hid
  exact List.mem_map.mp hid

theorem Prepared.enabled (h : Prepared build db user bet priced chosen points)
    (hreg : (Write.place bet priced points).Regular db) : PlaceEnabled db bet priced points where
  covered := ⟨user, h.bettor, h.covered⟩
  insertable := by
    obtain ⟨r, hr⟩ := h.market
    obtain ⟨o, ho, hid⟩ := h.pricedFrom.backs
    have hfind := Db.outcomeById_of_mem (List.mem_of_getElem? ho)
    rw [hid] at hfind
    have hfresh := hreg.fresh (bet, priced) rfl
    simp [Bet.insertError, hfresh, h.bettor, hr, hfind]
  volumes := fun p hp o ho => (hreg.sums.1 (bet, priced) rfl).1 p hp o ho
  totals := fun r hr => ⟨(hreg.sums.1 (bet, priced) rfl).2 r hr, hreg.count (bet, priced) rfl r hr⟩
  charted := by
    obtain ⟨at', rfl⟩ := h.charted
    intro point hpoint
    obtain ⟨p, hp, rfl⟩ := List.mem_map.mp hpoint
    obtain ⟨o, ho, hid⟩ := h.stored (List.mem_map_of_mem hp)
    have hfind := Db.outcomeById_of_mem ho
    rw [hid] at hfind
    exact Option.isSome_iff_exists.mpr ⟨o, hfind⟩

theorem eq_of_unpriced {p q : Outcome} (h : unpriced p = unpriced q) :
    p = { q with currentPrice := p.currentPrice } := by
  cases p
  cases q
  simpa [unpriced, Outcome.setCurrentPrice] using h

theorem Prepared.copies (h : Prepared build db user bet priced chosen points)
    (hreg : (Write.place bet priced points).Regular db) : PricedCopies db bet priced := by
  intro o ho p hp hid
  obtain ⟨c, hc, hcid⟩ := h.pricedFrom.backs
  have hnd : ((db.outcomesFor bet.marketId).map Outcome.id).Nodup :=
    db.outcomeIds_nodup bet.marketId
  have hmem : unpriced p ∈ (PlaceBet.staked (db.outcomesFor bet.marketId) chosen bet.amount).map
      unpriced := by
    rw [← recalculatePrices_unpriced h.pricedFrom.result]
    exact List.mem_map_of_mem hp
  rw [staked_eq_map hnd hc, List.map_map] at hmem
  obtain ⟨q, hq, hqp⟩ := List.mem_map.mp hmem
  have hqid : q.id = p.id := by
    have hids := congrArg Outcome.id hqp
    simp only [Function.comp_apply] at hids
    split at hids <;> exact hids
  obtain rfl : q = o :=
    Table.eq_of_key (Db.mem_outcomesFor.mp hq).1 ho (hqid.trans hid)
  have hvolume : InI64 (q.volume + stakeOn bet q.id) := by
    have hrange := (hreg.sums.1 (bet, priced) rfl).1 p hp q (hid ▸ Db.outcomeById_of_mem hq)
    rwa [hid] at hrange
  have hcopy : p = { (if q.id = c.id then q.addVolume bet.amount else q) with
      currentPrice := p.currentPrice } := eq_of_unpriced hqp.symm
  by_cases hqc : q.id = c.id
  · have hstake : stakeOn bet q.id = bet.amount := by simp [stakeOn, hqc, hcid]
    rw [hstake] at hvolume ⊢
    rw [if_pos hqc, Outcome.addVolume, saturatingAdd, saturate64_of_inI64 hvolume] at hcopy
    exact hcopy
  · have hne : ¬q.id = bet.outcomeId := fun heq => hqc (heq.trans hcid.symm)
    have hstake : stakeOn bet q.id = 0 := by simp [stakeOn, hne]
    rw [if_neg hqc] at hcopy
    rw [hstake, Int.add_zero]
    exact hcopy

end Prepared

/-- What a placement holds at each await, while nobody else writes. -/
def PlaceBet.Phase.Current (build : Build) (db : Db) (input : NewBet) : PlaceBet.Phase → Prop
  | .readOutcome => True
  | .readMarket _ => True
  | .readOutcomes market => ∃ r, db.marketById market.id = some r
  | .findUser market outcomes chosen _ =>
    (∃ r, db.marketById market.id = some r) ∧ outcomes = db.outcomesFor market.id ∧
      ∃ o, outcomes[chosen]? = some o ∧ o.id = input.outcomeId
  | .place _ user bet priced chosen points => Prepared build db user bet priced chosen points
  | .readPosition .. => True

section Placing
variable {build : Build} {actor : Actor} {input : NewBet} {env : Env} {db : Db} {m : Mem}

theorem PlaceBet.onUser_current {market : Market} {outcomes : List Outcome} {chosen : Nat}
    {lookup : Lookup} {phase : PlaceBet.Phase}
    (hcur : (PlaceBet.Phase.findUser market outcomes chosen lookup).Current build db input)
    (h : PlaceBet.onUser build env actor input market outcomes chosen (db.userById actor.userId) =
      .goto phase) : phase.Current build db input := by
  obtain ⟨hmarket, rfl, o, ho, hid⟩ := hcur
  obtain ⟨user, bet, backed, priced, hback, hprice, rfl⟩ := PlaceBet.onUser_goto h
  obtain ⟨huser, hbal, ⟨outcome, hchosen, hbet⟩, rfl⟩ := PlaceBet.back_ok hback
  obtain ⟨-, hbettor, hbm, hbo, hamount, -⟩ := Bet.place_ok hbet
  refine ⟨?_, ?_, ?_, ⟨⟨o, ?_, ?_⟩, trivial, ?_⟩, env.now, rfl⟩
  · rw [hbettor]
    exact huser
  · rw [hamount]
    exact hbal
  · rw [hbm]
    exact hmarket
  · rw [hbm]
    exact ho
  · rw [hbo]
    exact hid
  · rw [hbm]
    exact hprice

theorem PlaceBet.onAverage_unaveraged (market : Market) (user : User) (bet : Bet)
    (priced : List Outcome) (chosen : Nat) (position position' : Option Price) :
    (PlaceBet.onAverage market user bet priced chosen (.ok position)).unaveraged =
      (PlaceBet.onAverage market user bet priced chosen (.ok position')).unaveraged := by
  cases position <;> cases position' <;>
    simp only [PlaceBet.onAverage, PlaceBet.viewFor] <;> cases priced[chosen]? <;> rfl

theorem PlaceBet.place_paired {market : Market} {user : User} {bet : Bet} {priced : List Outcome}
    {chosen : Nat} {points : List PricePoint} (h : Paired db m)
    (hprep : Prepared build db user bet priced chosen points)
    (hreg : (Write.place bet priced points).Regular db) :
    Paired (PlaceBet.advance pgRepositories build actor input env
        (.place market user bet priced chosen points) db).1
      (PlaceBet.advance (inMemoryRepositories build) build actor input env
        (.place market user bet priced chosen points) m).1 ∧
    (PlaceBet.advance pgRepositories build actor input env
        (.place market user bet priced chosen points) db).2 =
      .goto (.readPosition market user bet priced chosen) ∧
    (PlaceBet.advance (inMemoryRepositories build) build actor input env
        (.place market user bet priced chosen points) m).2 =
      .goto (.readPosition market user bet priced chosen) := by
  have hen := hprep.enabled hreg
  have hcommit : pg.atomically (placeProgram bet priced points) env.txVars db =
      .ok (db.placed bet priced points env.now) := (place_ok hprep.nodup).mpr ⟨hen, rfl⟩
  have hmem : ∃ m', m.place build env.now bet priced points = (m', .done) ∧
      Mirrors (db.placed bet priced points env.now) m' :=
    place_mirrors h.mirrors hen hprep.nodup (hprep.copies hreg)
  obtain ⟨m', hplace, hmirrors⟩ := hmem
  have hbettors : (db.placed bet priced points env.now).BettorsKnown := by
    intro b hb
    rw [rows_bets_placed hen, List.mem_append, List.mem_singleton] at hb
    refine (grows_placed hen).users b.userId ?_
    rcases hb with hb | rfl
    · exact h.bettors b hb
    · exact ⟨user, hprep.bettor⟩
  simp only [PlaceBet.advance, pgRepositories, inMemoryRepositories, hcommit, hplace]
  exact ⟨⟨hmirrors, hbettors⟩, rfl, rfl⟩

theorem PlaceBet.step_paired {p q : PlaceBet.Phase} (h : Paired db m)
    (hp : p = q ∧ p.Current build db input) (hok : ∀ w ∈ PlaceBet.write? p, w.Regular db) :
    Paired (PlaceBet.advance pgRepositories build actor input env p db).1
        (PlaceBet.advance (inMemoryRepositories build) build actor input env q m).1 ∧
      Next.Matches (fun p' q' => p' = q' ∧ p'.Current build
          (PlaceBet.advance pgRepositories build actor input env p db).1 input)
        (PlaceBet.advance pgRepositories build actor input env p db).2
        (PlaceBet.advance (inMemoryRepositories build) build actor input env q m).2 := by
  obtain ⟨rfl, hcur⟩ := hp
  cases p with
  | readOutcome =>
    have hread : m.outcomeById input.outcomeId = db.outcomeById input.outcomeId :=
      h.mirrors.outcomeById _
    simp only [PlaceBet.advance, pgRepositories, inMemoryRepositories, hread]
    refine ⟨h, Next.matches_self _ fun p hp => ⟨rfl, ?_⟩⟩
    cases ho : db.outcomeById input.outcomeId with
    | none => simp [ho, PlaceBet.onOutcome] at hp
    | some o =>
      simp only [ho, PlaceBet.onOutcome, Next.goto.injEq] at hp
      rw [← hp]
      trivial
  | readMarket outcome =>
    have hread : m.marketById outcome.marketId = db.marketById outcome.marketId :=
      h.mirrors.marketById _
    simp only [PlaceBet.advance, pgRepositories, inMemoryRepositories, hread]
    refine ⟨h, Next.matches_self _ fun p hp => ⟨rfl, ?_⟩⟩
    cases hm : db.marketById outcome.marketId with
    | none => simp [hm, PlaceBet.onMarket] at hp
    | some market =>
      simp only [hm, PlaceBet.onMarket] at hp
      split at hp
      · cases hp
        have hid : market.id = outcome.marketId := Table.find?_key hm
        exact ⟨market, hid ▸ hm⟩
      · simp [Next.domainError] at hp
  | readOutcomes market =>
    have hread : m.outcomesFor market.id = db.outcomesFor market.id := h.mirrors.outcomesFor _
    simp only [PlaceBet.advance, pgRepositories, inMemoryRepositories, hread]
    refine ⟨h, Next.matches_self _ fun p hp => ⟨rfl, ?_⟩⟩
    unfold PlaceBet.onOutcomes at hp
    split at hp
    · simp [Next.domainError] at hp
    · rename_i chosen hfind
      cases hp
      exact ⟨hcur, rfl, PlaceBet.findIdx?_chosen hfind⟩
  | findUser market outcomes chosen lookup =>
    have hread : m.userById actor.userId = db.userById actor.userId := h.mirrors.userById _
    simp only [PlaceBet.advance, pgRepositories, inMemoryRepositories, hread]
    exact ⟨h, Next.matches_self _ fun p hp => ⟨rfl, PlaceBet.onUser_current hcur hp⟩⟩
  | place market user bet priced chosen points =>
    obtain ⟨hpaired, hpg, hmem⟩ := PlaceBet.place_paired h hcur (hok _ rfl)
    rw [hpg, hmem]
    exact ⟨hpaired, .goto _ _ ⟨rfl, trivial⟩⟩
  | readPosition market user bet priced chosen =>
    refine ⟨h, .reply _ _ ?_⟩
    obtain ⟨position, hpg⟩ := pg_activePosition_ok db actor.userId input.outcomeId
    obtain ⟨position', hmem⟩ := Mem.activePosition_ok m actor.userId input.outcomeId
    simp only [inMemoryRepositories, hpg, hmem]
    exact PlaceBet.onAverage_unaveraged market user bet priced chosen position position'

end Placing

structure ResolvedCopy (db : Db) (marketId : MarketId) (winner : OutcomeId) (market : Market) :
    Prop where
  stored : ∃ r, db.marketById marketId = some r ∧
    market = { r with status := .resolved, resolvedOutcomeId := some winner }
  belongs : winner ∈ db.outcomeIds marketId

/-- The two settlements at the same await; only the order of their bets may differ. -/
def ResolveMarket.Phase.Current (db : Db) (marketId : MarketId) (winner : OutcomeId) :
    ResolveMarket.Phase → ResolveMarket.Phase → Prop
  | .readMarket, .readMarket => True
  | .readOutcomes market, .readOutcomes market' =>
    market = market' ∧ db.marketById marketId = some market
  | .readActive market outcomes, .readActive market' outcomes' =>
    market = market' ∧ outcomes = outcomes' ∧ ResolvedCopy db marketId winner market
  | .settle market outcomes settled, .settle market' outcomes' settled' =>
    market = market' ∧ outcomes = outcomes' ∧ ResolvedCopy db marketId winner market ∧
      settled.Perm settled' ∧
      settled' = (db.activeForMarket marketId).map (ResolveMarket.settleOn winner)
  | _, _ => False

theorem Bet.winnings_pos (b : Bet) : 0 < b.winnings := by
  have ha := b.amountPositive
  have hp := b.pricePositive
  have hscale : (10000 : Int) ≤ saturatingMul b.amount Price.scale := by
    unfold saturatingMul saturate64 Price.scale i64Min i64Max
    omega
  have hone : (1 : Int) ≤ saturatingMul b.amount Price.scale / b.price.tenThousandths :=
    (Int.le_ediv_iff_mul_le hp).mpr (by linarith [b.price.inRange.2])
  rw [Bet.winnings, Int.tdiv_eq_ediv_of_nonneg (by omega)]
  omega

section Settled
variable {db : Db} {marketId : MarketId} {winner : OutcomeId}

theorem settled_ids (active : List Bet) :
    (active.map (ResolveMarket.settleOn winner)).map Bet.id = active.map Bet.id := by
  rw [List.map_map]
  exact List.map_congr_left fun b _ => (ResolveMarket.settleOn_sameStake winner b).id.symm

theorem settled_owed (hbettors : db.BettorsKnown) :
    Owed db.users ((db.activeForMarket marketId).map (ResolveMarket.settleOn winner)) := by
  intro s hs payout hpayout
  obtain ⟨b, hb, rfl⟩ := List.mem_map.mp hs
  obtain ⟨hrow, -, -⟩ := ResolveMarket.mem_activeForMarket.mp hb
  obtain ⟨u, hu⟩ := hbettors b hrow
  have hsame := ResolveMarket.settleOn_sameStake winner b
  have hpaid := (ResolveMarket.settleOn_settledOn winner b).payout
  rw [Option.mem_def.mp hpayout] at hpaid
  refine ⟨?_, ?_⟩
  · split at hpaid
    · rw [Option.some.inj hpaid]
      exact Bet.winnings_pos _
    · simp at hpaid
  · rw [← hsame.userId]
    exact Option.isSome_iff_exists.mpr ⟨u, hu⟩

theorem settled_copies :
    SettledCopies db ((db.activeForMarket marketId).map (ResolveMarket.settleOn winner)) := by
  intro b hb s hs hid
  obtain ⟨c, hc, rfl⟩ := List.mem_map.mp hs
  have hrow := (ResolveMarket.mem_activeForMarket.mp hc).1
  have hcid := (ResolveMarket.settleOn_sameStake winner c).id
  obtain rfl : c = b := Table.eq_of_key hrow hb (hcid.trans hid)
  unfold ResolveMarket.settleOn
  split <;> rfl

theorem onActive_active {market : Market} {outcomes : List Outcome} {active : List Bet}
    (hactive : ∀ b ∈ active, b.status = .active) :
    ResolveMarket.onActive winner market outcomes active =
      .goto (.settle market outcomes (active.map (ResolveMarket.settleOn winner))) := by
  have hall : ResolveMarket.settleAll winner active =
      .ok (active.map (ResolveMarket.settleOn winner)) := by
    induction active with
    | nil => rfl
    | cons b rest ih =>
      have hb := hactive b List.mem_cons_self
      have hone : ResolveMarket.settleOne winner b = .ok (ResolveMarket.settleOn winner b) := by
        unfold ResolveMarket.settleOne ResolveMarket.settleOn
        split
        · simp [Bet.settleAsWinner, Bet.ensureActive, hb]
        · simp [Bet.settleAsLoser, Bet.ensureActive, hb]
      have hrest := ih fun c hc => hactive c (List.mem_cons_of_mem b hc)
      simp only [ResolveMarket.settleAll, hone, hrest, List.map_cons]
  simp only [ResolveMarket.onActive, hall]

end Settled

section Settling
variable {build : Build} {env : Env} {db : Db} {m : Mem} {marketId : MarketId} {winner : OutcomeId}

theorem ResolveMarket.settle_paired {market : Market} {outcomes : List Outcome}
    {settled settled' : List Bet} (h : Paired db m)
    (hcopy : ResolvedCopy db marketId winner market) (hperm : settled.Perm settled')
    (hsettled : settled' = (db.activeForMarket marketId).map (ResolveMarket.settleOn winner))
    (hreg : (Write.settle market settled).Regular db) :
    Paired (ResolveMarket.advance pgRepositories marketId winner env
        (.settle market outcomes settled) db).1
      (ResolveMarket.advance (inMemoryRepositories build) marketId winner env
        (.settle market outcomes settled') m).1 ∧
    (ResolveMarket.advance pgRepositories marketId winner env
        (.settle market outcomes settled) db).2 = .reply (.market market outcomes) ∧
    (ResolveMarket.advance (inMemoryRepositories build) marketId winner env
        (.settle market outcomes settled') m).2 = .reply (.market market outcomes) := by
  obtain ⟨r, hr, rfl⟩ := hcopy.stored
  have hid : r.id = marketId := Table.find?_key hr
  have hnd : (settled.map Bet.id).Nodup := by
    rw [(hperm.map Bet.id).nodup_iff, hsettled, settled_ids]
    exact ResolveMarket.activeForMarket_nodup db marketId
  have howed : Owed db.users settled :=
    (hsettled ▸ settled_owed h.bettors : Owed db.users settled').perm hperm.symm
  have hpay : Payable db.users settled := hreg.sums.2 settled rfl
  have hcopies : SettledCopies db settled := fun b hb s hs =>
    (hsettled ▸ settled_copies : SettledCopies db settled') b hb s (hperm.mem_iff.mp hs)
  obtain ⟨o, ho, howner⟩ := List.mem_map.mp hcopy.belongs
  have hcommit : pg.atomically (settleProgram { r with
      status := .resolved, resolvedOutcomeId := some winner } settled) env.txVars db =
      .ok (db.settled { r with status := .resolved, resolvedOutcomeId := some winner } settled
        env.now) := by
    refine settle_commits hnd howed hpay fun w hw => ?_
    obtain rfl : winner = w := Option.some.inj hw
    exact Option.isSome_iff_exists.mpr ⟨o, howner ▸ Db.outcomeById_of_mem ho⟩
  have hmem : ∃ m', m.settle env.now { r with
      status := .resolved, resolvedOutcomeId := some winner } settled' = (m', .done) ∧
      Mirrors (db.settled { r with status := .resolved, resolvedOutcomeId := some winner } settled
        env.now) m' :=
    settle_mirrors h.mirrors hperm hnd howed hpay hcopies (hid ▸ hr) rfl
  obtain ⟨m', hsettle, hmirrors⟩ := hmem
  have hbettors : (db.settled { r with status := .resolved, resolvedOutcomeId := some winner }
      settled env.now).BettorsKnown := by
    intro b hb
    rw [rows_bets_settled] at hb
    obtain ⟨c, hc, rfl⟩ := List.mem_map.mp hb
    rw [(settledRow_sameStake settled c).userId]
    exact grows_settled.users c.userId (h.bettors c hc)
  simp only [ResolveMarket.advance, pgRepositories, inMemoryRepositories, hcommit, hsettle]
  exact ⟨⟨hmirrors, hbettors⟩, rfl, rfl⟩

theorem pg_activeForMarket_perm (env : Env) (db : Db) (marketId : MarketId) :
    (pgRepositories.activeForMarket env db marketId).Perm (db.activeForMarket marketId) := by
  simp only [pgRepositories]
  split
  · assumption
  · exact .refl _

theorem ResolveMarket.step_paired {p q : ResolveMarket.Phase} (h : Paired db m)
    (hp : ResolveMarket.Phase.Current db marketId winner p q)
    (hok : ∀ w ∈ ResolveMarket.write? p, w.Regular db) :
    Paired (ResolveMarket.advance pgRepositories marketId winner env p db).1
        (ResolveMarket.advance (inMemoryRepositories build) marketId winner env q m).1 ∧
      Next.Matches (fun p' q' => ResolveMarket.Phase.Current
          (ResolveMarket.advance pgRepositories marketId winner env p db).1 marketId winner p' q')
        (ResolveMarket.advance pgRepositories marketId winner env p db).2
        (ResolveMarket.advance (inMemoryRepositories build) marketId winner env q m).2 := by
  cases p with
  | readMarket =>
    cases q <;> try exact hp.elim
    have hread : m.marketById marketId = db.marketById marketId := h.mirrors.marketById _
    simp only [ResolveMarket.advance, pgRepositories, inMemoryRepositories, hread]
    refine ⟨h, Next.matches_self _ fun p hp => ?_⟩
    cases hm : db.marketById marketId with
    | none => simp [hm, ResolveMarket.onMarket] at hp
    | some market =>
      simp only [hm, ResolveMarket.onMarket, Next.goto.injEq] at hp
      rw [← hp]
      exact ⟨rfl, hm⟩
  | readOutcomes market =>
    cases q <;> try exact hp.elim
    obtain ⟨rfl, hm⟩ := hp
    have hread : m.outcomesFor marketId = db.outcomesFor marketId := h.mirrors.outcomesFor _
    simp only [ResolveMarket.advance, pgRepositories, inMemoryRepositories, hread]
    refine ⟨h, Next.matches_self _ fun p hp => ?_⟩
    unfold ResolveMarket.onOutcomes at hp
    split at hp
    · rename_i hany
      cases hr : market.resolve winner with
      | error e => simp [hr, Next.domainError] at hp
      | ok copy =>
        simp only [hr, Next.goto.injEq] at hp
        rw [← hp]
        obtain ⟨-, rfl⟩ := Market.resolve_ok hr
        obtain ⟨o, ho, howner⟩ := List.any_eq_true.mp hany
        exact ⟨rfl, rfl, ⟨market, hm, rfl⟩, List.mem_map.mpr ⟨o, ho, by simpa using howner⟩⟩
    · simp [Next.domainError] at hp
  | readActive market outcomes =>
    cases q <;> try exact hp.elim
    obtain ⟨rfl, rfl, hcopy⟩ := hp
    have hread : m.activeForMarket marketId = db.activeForMarket marketId :=
      h.mirrors.activeForMarket _
    have hperm := pg_activeForMarket_perm env db marketId
    have hactive : ∀ b ∈ db.activeForMarket marketId, b.status = .active :=
      fun b hb => (ResolveMarket.mem_activeForMarket.mp hb).2.2
    have hscanned : ∀ b ∈ pgRepositories.activeForMarket env db marketId, b.status = .active :=
      fun b hb => hactive b (hperm.mem_iff.mp hb)
    simp only [ResolveMarket.advance, inMemoryRepositories, hread, onActive_active hscanned,
      onActive_active hactive]
    exact ⟨h, .goto _ _ ⟨rfl, rfl, hcopy, hperm.map _, rfl⟩⟩
  | settle market outcomes settled =>
    cases q <;> try exact hp.elim
    obtain ⟨rfl, rfl, hcopy, hperm, hsettled⟩ := hp
    obtain ⟨hpaired, hpg, hmem⟩ :=
      ResolveMarket.settle_paired h hcopy hperm hsettled (hok _ rfl)
    rw [hpg, hmem]
    exact ⟨hpaired, .reply _ _ rfl⟩

end Settling

section Runs
variable {build : Build} {db : Db} {m : Mem}

theorem Execution.run_paired {x : Execution} (h : Paired db m)
    (hok : ∀ a ∈ x.asks pgRepositories build db, a.1.Regular a.2) :
    ∃ db' m' r r', x.run pgRepositories build db = some (db', r) ∧
      x.run (inMemoryRepositories build) build m = some (m', r') ∧
      r.unaveraged = r'.unaveraged ∧ Paired db' m' := by
  unfold Execution.asks at hok
  unfold Execution.run
  cases hx : x.request with
  | placeBet actor input =>
    simp only [hx] at hok ⊢
    have hstep : ∀ env p q (s : Db) (t : Mem), Paired s t → p = q ∧ p.Current build s input →
        (∀ w ∈ PlaceBet.write? p, w.Regular s) →
        Paired (PlaceBet.advance pgRepositories build actor input env p s).1
            (PlaceBet.advance (inMemoryRepositories build) build actor input env q t).1 ∧
          Next.Matches (fun p' q' => p' = q' ∧ p'.Current build
              (PlaceBet.advance pgRepositories build actor input env p s).1 input)
            (PlaceBet.advance pgRepositories build actor input env p s).2
            (PlaceBet.advance (inMemoryRepositories build) build actor input env q t).2 :=
      fun env p q s t hst hp hw => PlaceBet.step_paired hst hp hw
    exact drive_matches (P := fun p q s => p = q ∧ p.Current build s input) hstep
      (fun env p s p' hp => PlaceBet.advance_rank pgRepositories hp) x.env h ⟨rfl, trivial⟩ hok
      (by decide)
  | resolveMarket actor marketId winner =>
    simp only [hx] at hok ⊢
    by_cases hrole : canManageMarkets actor.role = true
    · simp only [hrole, if_true] at hok ⊢
      have hstep : ∀ env p q (s : Db) (t : Mem), Paired s t →
          ResolveMarket.Phase.Current s marketId winner p q →
          (∀ w ∈ ResolveMarket.write? p, w.Regular s) →
          Paired (ResolveMarket.advance pgRepositories marketId winner env p s).1
              (ResolveMarket.advance (inMemoryRepositories build) marketId winner env q t).1 ∧
            Next.Matches (fun p' q' => ResolveMarket.Phase.Current
                (ResolveMarket.advance pgRepositories marketId winner env p s).1 marketId winner
                p' q')
              (ResolveMarket.advance pgRepositories marketId winner env p s).2
              (ResolveMarket.advance (inMemoryRepositories build) marketId winner env q t).2 :=
        fun env p q s t hst hp hw => ResolveMarket.step_paired hst hp hw
      exact drive_matches
        (P := fun p q s => ResolveMarket.Phase.Current s marketId winner p q) hstep
        (fun env p s p' hp => ResolveMarket.advance_rank pgRepositories hp) x.env h trivial hok
        (by decide)
    · simp only [hrole] at hok ⊢
      exact ⟨db, m, .error adminRequired, .error adminRequired, rfl, rfl, rfl, h⟩

theorem runAll_paired {xs : List Execution} (h : Paired db m)
    (hok : ∀ a ∈ asksAll pgRepositories build xs db, a.1.Regular a.2) :
    ∃ pgs mems, runAll pgRepositories build xs db = some pgs ∧
      runAll (inMemoryRepositories build) build xs m = some mems ∧
      List.Forall₂ (fun a b => a.2.unaveraged = b.2.unaveraged ∧ Mirrors a.1 b.1) pgs mems := by
  induction xs generalizing db m with
  | nil => exact ⟨[], [], rfl, rfl, .nil⟩
  | cons x xs ih =>
    have hfirst : ∀ a ∈ x.asks pgRepositories build db, a.1.Regular a.2 :=
      fun a ha => hok a (List.mem_append_left _ ha)
    obtain ⟨db', m', r, r', hpg, hmem, hreply, hpaired⟩ := x.run_paired h hfirst
    have hrest : ∀ a ∈ asksAll pgRepositories build xs db', a.1.Regular a.2 := by
      intro a ha
      refine hok a ?_
      rw [asksAll, hpg]
      exact List.mem_append_right _ ha
    obtain ⟨pgs, mems, hpgs, hmems, hall⟩ := ih hpaired hrest
    refine ⟨(db', r) :: pgs, (m', r') :: mems, ?_, ?_, .cons ⟨hreply, hpaired.mirrors⟩ hall⟩
    · simp [runAll, hpg, hpgs]
    · simp [runAll, hmem, hmems]

end Runs

def Db.start (users : Table User.id) (markets : Table Market.id) (outcomes : Table Outcome.id)
    (points : List PricePoint) : Db := ⟨users, markets, outcomes, .empty, points, []⟩

def Mem.start (users : Table User.id) (markets : Table Market.id) (outcomes : Table Outcome.id)
    (points : List PricePoint) : Mem := ⟨users, markets.rows, outcomes.rows, [], points, []⟩

/-- Call by call both stores give the same reply, but for the average in it, and then hold
the same, as long as no sum and no count reaches its limit. -/
theorem sequential_runs_agree (build : Build) (users : Table User.id) (markets : Table Market.id)
    (outcomes : Table Outcome.id) (points : List PricePoint) (xs : List Execution)
    (hok : ∀ a ∈ asksAll pgRepositories build xs (Db.start users markets outcomes points),
      a.1.SumsFit a.2 ∧ a.1.CountFits a.2 ∧ a.1.DrawsFresh a.2) :
    ∃ pgs mems, runAll pgRepositories build xs (Db.start users markets outcomes points) = some pgs ∧
      runAll (inMemoryRepositories build) build xs (Mem.start users markets outcomes points) =
        some mems ∧
      List.Forall₂ (fun a b => a.2.unaveraged = b.2.unaveraged ∧ Mirrors a.1 b.1) pgs mems := by
  have hmirrors : Mirrors (Db.start users markets outcomes points)
      (Mem.start users markets outcomes points) := ⟨rfl, rfl, rfl, rfl, rfl, .refl _⟩
  have hbettors : (Db.start users markets outcomes points).BettorsKnown := by
    simp [Db.BettorsKnown, Db.start]
  refine runAll_paired ⟨hmirrors, hbettors⟩ fun a ha => ?_
  obtain ⟨hsums, hcount, hfresh⟩ := hok a ha
  exact ⟨hsums, hcount, hfresh⟩

namespace Sample

def bettors : Table User.id :=
  ⟨[User.new ⟨1⟩ alice ⟨alice.value⟩ ⟨[]⟩ 0, User.new ⟨2⟩ bob ⟨bob.value⟩ ⟨[]⟩ 0], by decide⟩

def rainOutcomes : Table Outcome.id :=
  ⟨[Outcome.new ⟨101⟩ ⟨100⟩ yes evens, Outcome.new ⟨102⟩ ⟨100⟩ no evens], by decide⟩

def rainMarkets (participants : Int) : Table Market.id :=
  ⟨[{ rainMarket with participantsCount := participants }], by simp⟩

def placing (userId : UserId) (outcomeId : OutcomeId) (amount : Int) (base : Nat) : Execution :=
  ⟨.placeBet ⟨userId, .user⟩ ⟨outcomeId, amount⟩, fun _ => env 2 base⟩

def resolving (winner : OutcomeId) : Execution :=
  ⟨.resolveMarket admin ⟨100⟩ winner, fun _ => env 3 0⟩

/-- Two bets, one that is not covered, the resolution and one too late. -/
def sequence : List Execution :=
  [placing ⟨1⟩ ⟨101⟩ 50 200, placing ⟨2⟩ ⟨102⟩ 30 300, placing ⟨2⟩ ⟨102⟩ 10000 400,
    resolving ⟨101⟩, placing ⟨1⟩ ⟨101⟩ 20 500]

end Sample

theorem sequential_runs_agree_rain :
    ∃ pgs mems,
      runAll pgRepositories .debug Sample.sequence
        (Db.start Sample.bettors (Sample.rainMarkets 0) Sample.rainOutcomes []) = some pgs ∧
      runAll (inMemoryRepositories .debug) .debug Sample.sequence
        (Mem.start Sample.bettors (Sample.rainMarkets 0) Sample.rainOutcomes []) = some mems ∧
      List.Forall₂ (fun a b => a.2.unaveraged = b.2.unaveraged ∧ Mirrors a.1 b.1) pgs mems :=
  sequential_runs_agree .debug Sample.bettors (Sample.rainMarkets 0) Sample.rainOutcomes []
    Sample.sequence (by decide +kernel)

/-- A market whose count of participants is at the limit of an `i32`: Postgres refuses the
next bettor, a release build of the in-memory store wraps the count around. -/
theorem full_market_splits_stores :
    ¬∀ (build : Build) (users : Table User.id) (markets : Table Market.id)
      (outcomes : Table Outcome.id) (points : List PricePoint) (xs : List Execution),
      (∀ a ∈ asksAll pgRepositories build xs (Db.start users markets outcomes points),
        a.1.SumsFit a.2 ∧ a.1.DrawsFresh a.2) →
      ∃ pgs mems,
        runAll pgRepositories build xs (Db.start users markets outcomes points) = some pgs ∧
        runAll (inMemoryRepositories build) build xs (Mem.start users markets outcomes points) =
          some mems ∧
        List.Forall₂ (fun a b => a.2.unaveraged = b.2.unaveraged ∧ Mirrors a.1 b.1) pgs mems := by
  intro h
  obtain ⟨pgs, mems, hpgs, hmems, hall⟩ := h .release Sample.bettors (Sample.rainMarkets i32Max)
    Sample.rainOutcomes [] [Sample.placing ⟨1⟩ ⟨101⟩ 50 200] (by decide +kernel)
  have hreplies : pgs.map (fun a => a.2.unaveraged) = mems.map fun b => b.2.unaveraged :=
    List.forall₂_eq_eq_eq ▸ List.forall₂_map_left_iff.mpr
      (List.forall₂_map_right_iff.mpr (hall.imp fun a b hab => hab.1))
  have hsame : (some pgs).map (List.map fun a => a.2.unaveraged) =
      (some mems).map (List.map fun b => b.2.unaveraged) := congrArg some hreplies
  rw [← hpgs, ← hmems] at hsame
  exact absurd hsame (by decide +kernel)

end Betsphere
