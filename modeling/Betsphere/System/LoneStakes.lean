import Betsphere.InMemory.EntryPrices
import Betsphere.Postgres.EntryPrices
import Betsphere.System.Totals
set_option autoImplicit false

namespace Betsphere
open MachineInt Pricing Apportion

structure LoneStake (db : Db) (marketId : MarketId) (outcomeId : OutcomeId) (others : Nat)
    (staked : Int) (price : Price) : Prop where
  market : ∃ m, db.marketById marketId = some m ∧ m.status = .opened ∧ m.closesAt = none ∧
    m.totalVolume = staked ∧ 0 ≤ m.participantsCount ∧
    m.participantsCount ≤ db.bets.rows.length
  outcomes : ∃ o os, db.outcomesFor marketId = o :: os ∧ o.id = outcomeId ∧ o.volume = staked ∧
    o.currentPrice = price ∧ os.length = others ∧ ∀ p ∈ os, p.volume = 0

section Placed
variable {db : Db} {marketId : MarketId} {outcomeId : OutcomeId} {others : Nat} {staked : Int}
  {price : Price}

theorem joining_bounds (db : Db) (bet : Bet) : 0 ≤ db.joining bet ∧ db.joining bet ≤ 1 := by
  unfold Db.joining
  split <;> decide

theorem outcomeById_of_listed {p : Outcome} (h : p ∈ db.outcomesFor marketId) :
    db.outcomeById p.id = some p ∧ p.marketId = marketId := by
  obtain ⟨hrow, hmarket⟩ := List.mem_filter.mp h
  exact ⟨Table.find?_of_mem hrow, of_decide_eq_true hmarket⟩

theorem LoneStake.placed (h : LoneStake db marketId outcomeId others staked price) {build : Build}
    {bet : Bet} {o first : Outcome} {os rest : List Outcome} {points : List PricePoint}
    {now : DateTime} (hen : PlaceEnabled db bet (first :: rest) points)
    (hmarket : bet.marketId = marketId) (houtcome : bet.outcomeId = outcomeId)
    (houtcomes : db.outcomesFor marketId = o :: os)
    (hprice : recalculatePrices build (o.addVolume bet.amount :: os) = .ok (first :: rest)) :
    LoneStake (db.placed bet (first :: rest) points now) marketId outcomeId others
      (staked + bet.amount) first.currentPrice := by
  obtain ⟨m, hm, hopen, hcloses, htotal, hzero, hcount⟩ := h.market
  obtain ⟨o', os', heq, hid, hvolume, -, hothers, hrest⟩ := h.outcomes
  obtain ⟨rfl, rfl⟩ := List.cons.inj (houtcomes.symm.trans heq)
  have hids := recalculatePrices_map hprice Outcome.id fun _ => rfl
  rw [List.map_cons, List.map_cons, List.cons.injEq] at hids
  have hfirst : first.id = o.id := hids.1
  have hmem : bet.outcomeId ∈ (first :: rest).map Outcome.id := by
    rw [houtcome, ← hid, ← hfirst]
    exact List.mem_cons_self
  have hmid : m.id = bet.marketId := (Table.find?_key hm).trans hmarket.symm
  have hjoin := joining_bounds db bet
  have hfound : (db.placed bet (first :: rest) points now).marketById marketId = some { m with
      totalVolume := m.totalVolume + bet.amount
      participantsCount := m.participantsCount + db.joining bet } := by
    rw [marketById_placed, hm, Option.map_some, if_pos hmid]
  have hnd : ((o :: os).map Outcome.id).Nodup := by
    rw [← houtcomes]
    exact db.outcomeIds_nodup marketId
  refine ⟨⟨_, hfound, hopen, hcloses, ?_, ?_, ?_⟩,
    repriced bet (first :: rest) o, os.map (repriced bet (first :: rest)), ?_, ?_, ?_, ?_, ?_, ?_⟩
  · rw [htotal]
  · dsimp only
    omega
  · rw [rows_bets_placed hen, List.length_append, List.length_singleton]
    dsimp only
    omega
  · rw [outcomesFor_placed, houtcomes, List.map_cons]
  · rw [repriced_id, hid]
  · rw [repriced_volume hmem, hvolume, stakeOn, if_pos (hid.trans houtcome.symm)]
  · have hfind : (first :: rest).find? (fun p => p.id = o.id) = some first := by simp [hfirst]
    rw [repriced, hfind]
  · rw [List.length_map, hothers]
  · intro p hp
    obtain ⟨q, hq, rfl⟩ := List.mem_map.mp hp
    have hne : q.id ≠ bet.outcomeId := by
      intro heq
      rw [List.map_cons, List.nodup_cons] at hnd
      exact hnd.1 (List.mem_map.mpr ⟨q, hq, heq.trans (houtcome.trans hid.symm)⟩)
    rw [repriced_volume hmem, hrest q hq, stakeOn, if_neg hne, Int.add_zero]

theorem LoneStake.enabled (h : LoneStake db marketId outcomeId others staked price) {bet : Bet}
    {priced : List Outcome} {user : User} (now : DateTime)
    (huser : db.userById bet.userId = some user) (hcovered : bet.amount ≤ user.balance)
    (hmarket : bet.marketId = marketId) (houtcome : bet.outcomeId = outcomeId)
    (hstaked : 0 ≤ staked) (hmax : staked + bet.amount ≤ i64Max)
    (hfresh : db.bets.find? bet.id = none) (hfew : (db.bets.rows.length : Int) < i32Max)
    (hpriced : priced.map Outcome.id = (db.outcomesFor marketId).map Outcome.id) :
    PlaceEnabled db bet priced (priced.map fun o => ⟨o.id, o.currentPrice, now⟩) := by
  obtain ⟨m, hm, -, -, htotal, hzero, hcount⟩ := h.market
  obtain ⟨o, os, houtcomes, hid, hvolume, -, -, hrest⟩ := h.outcomes
  have hamount := bet.amountPositive
  have hknown : ∀ p ∈ priced, ∃ q ∈ db.outcomesFor marketId, db.outcomeById p.id = some q := by
    intro p hp
    have hpid := List.mem_map_of_mem (f := Outcome.id) hp
    rw [hpriced] at hpid
    obtain ⟨q, hq, hqid⟩ := List.mem_map.mp hpid
    exact ⟨q, hq, hqid ▸ (outcomeById_of_listed hq).1⟩
  refine ⟨⟨user, huser, hcovered⟩, ?_, fun p hp q hq => ?_, fun m' hm' => ?_, fun p hp => ?_⟩
  · have hlisted : o ∈ db.outcomesFor marketId := by
      rw [houtcomes]
      exact List.mem_cons_self
    have hrow : db.outcomeById outcomeId = some o := hid ▸ (outcomeById_of_listed hlisted).1
    unfold Bet.insertError
    rw [hfresh, huser, hmarket, hm, houtcome, hrow]
    rfl
  · obtain ⟨q', hq', hfound⟩ := hknown p hp
    obtain rfl := Option.some.inj (hq.symm.trans hfound)
    have hstored : 0 ≤ q.volume ∧ q.volume ≤ staked := by
      rw [houtcomes] at hq'
      rcases List.mem_cons.mp hq' with rfl | hq'
      · omega
      · rw [hrest q hq']
        omega
    have hstake : 0 ≤ stakeOn bet p.id ∧ stakeOn bet p.id ≤ bet.amount := by
      unfold stakeOn
      split <;> omega
    unfold InI64 i64Min
    omega
  · rw [hmarket, hm] at hm'
    obtain rfl := Option.some.inj hm'
    have hjoin := joining_bounds db bet
    unfold InI64 InI32 i64Min i32Min
    omega
  · obtain ⟨o', ho', rfl⟩ := List.mem_map.mp hp
    obtain ⟨q, -, hfound⟩ := hknown o' ho'
    rw [hfound]
    rfl

theorem LoneStake.run (h : LoneStake db marketId outcomeId others staked price) (build : Build)
    (actor : Actor) {user : User} (amount : Int) (env : Nat → Env) (after : Price)
    (huser : db.userById actor.userId = some user) (hcovered : amount ≤ user.balance)
    (hamount : 0 < amount) (hstaked : 0 ≤ staked) (hmax : staked + amount ≤ i64Max)
    (hfresh : db.bets.find? ⟨(env 3).fresh 0⟩ = none)
    (hfew : (db.bets.rows.length : Int) < i32Max)
    (hprice : ∀ (o : Outcome) os, o.volume = staked → os.length = others →
      (∀ p ∈ os, p.volume = 0) → ∃ first rest,
        recalculatePrices build (o.addVolume amount :: os) = .ok (first :: rest) ∧
          first.currentPrice = after) :
    ∃ bet db' r, MarketCall.run pgBackend build db
        (.betting ⟨.placeBet actor ⟨outcomeId, amount⟩, env⟩) = some (db', r) ∧
      db'.bets.rows = db.bets.rows ++ [bet] ∧
      (bet.id = ⟨(env 3).fresh 0⟩ ∧ bet.userId = actor.userId ∧ bet.marketId = marketId ∧
        bet.outcomeId = outcomeId ∧ bet.amount = amount ∧ bet.price = price.max Price.minTick ∧
        bet.status = .active ∧ bet.payout = none) ∧
      LoneStake db' marketId outcomeId others (staked + amount) after ∧
      ∃ user', db'.userById actor.userId = some user' ∧ user'.balance = user.balance - amount := by
  obtain ⟨m, hm, hopen, hcloses, -⟩ := h.market
  obtain ⟨o, os, houtcomes, hid, hvolume, hcurrent, hothers, hrest⟩ := h.outcomes
  obtain ⟨first, rest, hpriced, hafter⟩ := hprice o os hvolume hothers hrest
  have hmid : m.id = marketId := Table.find?_key hm
  have hlisted : o ∈ db.outcomesFor marketId := by
    rw [houtcomes]
    exact List.mem_cons_self
  have hread : pgRepositories.outcomesFor db m.id = o :: os := by
    rw [hmid]
    exact houtcomes
  have htick : price.max Price.minTick ≠ Price.zero := by
    unfold Price.max
    split
    · decide
    · rename_i hle
      rintro rfl
      exact hle (by decide)
  obtain ⟨bet, hbet⟩ : ∃ bet, Bet.place ⟨(env 3).fresh 0⟩ actor.userId m.id outcomeId amount
      (price.max Price.minTick) (env 3).now = .ok bet :=
    ⟨_, by rw [Bet.place, dif_neg (by omega), dif_neg htick]⟩
  have hfields := Bet.place_ok hbet
  rw [hmid] at hfields
  obtain ⟨hbid, hbuser, hbmarket, hboutcome, rfl, -⟩ := hfields
  have hids : (first :: rest).map Outcome.id = (db.outcomesFor marketId).map Outcome.id := by
    rw [recalculatePrices_map hpriced Outcome.id fun _ => rfl, houtcomes]
    rfl
  have hnd : ((first :: rest).map Outcome.id).Nodup := by
    rw [hids]
    exact db.outcomeIds_nodup marketId
  have hen := h.enabled (env 3).now (by rwa [hbuser]) hcovered hbmarket hboutcome hstaked hmax
    (by rwa [hbid]) hfew hids
  have hcommit : pgRepositories.place (env 4) bet (first :: rest)
      ((first :: rest).map fun o => ⟨o.id, o.currentPrice, (env 3).now⟩) db =
      (db.placed bet (first :: rest) ((first :: rest).map fun o =>
        ⟨o.id, o.currentPrice, (env 3).now⟩) (env 4).now, .done) := by
    have hplace := (place_ok (l := (env 4).txVars) hnd).mpr ⟨hen, rfl⟩
    simp only [pgRepositories, hplace]
    rfl
  have hback : PlaceBet.back (env 3) actor ⟨outcomeId, bet.amount⟩ m
      (pgRepositories.outcomesFor db m.id) 0 (pgRepositories.userById db actor.userId) =
      .ok (user, bet, o.addVolume bet.amount :: os) := by
    have hfound : pgRepositories.userById db actor.userId = some user := huser
    simp only [PlaceBet.back, hread, hfound, if_neg (not_lt.mpr hcovered),
      List.getElem?_cons_zero, hcurrent, hbet, PlaceBet.staked]
    rfl
  have hrow : pgRepositories.outcomeById db outcomeId = some o := by
    rw [← hid]
    exact (outcomeById_of_listed hlisted).1
  have hmarket : pgRepositories.marketById db o.marketId = some m := by
    rw [(outcomeById_of_listed hlisted).2]
    exact hm
  have hbets : m.acceptsBets (env 1).now = true := by
    simp [Market.acceptsBets, hopen, hcloses]
  have hchosen : (pgRepositories.outcomesFor db m.id).findIdx? (fun o => o.id = outcomeId) =
      some 0 := by
    simp [hread, List.findIdx?_cons, hid]
  obtain ⟨r, hrun⟩ : ∃ r, Execution.run pgRepositories build
      ⟨.placeBet actor ⟨outcomeId, bet.amount⟩, env⟩ db = some (_, r) :=
    PlaceBet.run_places hrow hmarket hbets hchosen hback hpriced hcommit
  refine ⟨bet, _, r, hrun, rows_bets_placed hen, Bet.place_ok (hmid ▸ hbet), ?_, ?_⟩
  · rw [← hafter]
    exact h.placed hen hbmarket hboutcome houtcomes hpriced
  · refine ⟨_, by rw [userById_placed, huser, Option.map_some], ?_⟩
    rw [if_pos ((Table.find?_key huser).trans hbuser.symm)]

end Placed

/-- The computed price of the first outcome, also when the product wraps. -/
theorem recalculatePrices_first {o : Outcome} {os : List Outcome} {staked amount : Int}
    (share : Int) {after : Price} (hvolume : o.volume = staked) (hpos : 0 < staked + amount)
    (hmax : staked + amount ≤ i64Max) (hrest : ∀ p ∈ os, p.volume = 0)
    (hshare : (wrap64 ((staked + amount) * Price.scale)).tdiv (staked + amount) = share)
    (hin : 0 ≤ share ∧ share ≤ 10000) (hlen : 10000 - share ≤ os.length)
    (hafter : after.tenThousandths = if share < 10000 then share + 1 else share) :
    ∃ first rest, recalculatePrices .release (o.addVolume amount :: os) = .ok (first :: rest) ∧
      first.currentPrice = after := by
  have hsum : (o.addVolume amount).volume = staked + amount := by
    rw [Outcome.addVolume, ← hvolume]
    refine saturate64_of_inI64 ?_
    unfold InI64 i64Min
    omega
  have hcomputed := recalculatePrices_lone (by rwa [hsum]) (by rwa [hsum]) hrest (by rwa [hsum]) hin
    hlen
  split at hafter
  · rename_i hless
    obtain ⟨n, hn⟩ : ∃ n, (10000 - share).toNat = n + 1 := ⟨(10000 - share).toNat - 1, by omega⟩
    rw [hn, bump, List.zipWith_cons_cons] at hcomputed
    refine ⟨_, _, hcomputed, Price.eq_of_tenThousandths ?_⟩
    rw [assignPrice_of_inRange _ (by omega), hafter]
  · have hn : (10000 - share).toNat = 0 := by omega
    rw [hn, bump, List.zipWith_cons_cons] at hcomputed
    refine ⟨_, _, hcomputed, Price.eq_of_tenThousandths ?_⟩
    rw [assignPrice_of_inRange _ hin, hafter]

section Created
variable {db : Db} {actor : Actor} {input : NewMarket} {build : Build}
  {market : Market} {first : Outcome} {rest : List Outcome}

theorem lone_created (env : Nat → Env) (hprepare : CreateMarket.prepare build (env 0) actor input =
      .goto (market, first :: rest)) (hcloses : input.closesAt = none)
    (hen : CreateEnabled db market (first :: rest)) (hnone : db.outcomesFor market.id = []) :
    ∃ db' r, MarketCall.run pgBackend build db (.create actor input env) = some (db', r) ∧
      db'.bets = db.bets ∧ db'.users = db.users ∧
      LoneStake db' market.id first.id rest.length 0 first.currentPrice := by
  have hok : (Write.create market (first :: rest) (env 1).now).Ok db :=
    CreateMarket.prepare_ok hprepare
  obtain ⟨hopen, hresolved, htotal, hcount, hall⟩ := hok
  obtain ⟨title, raw, hnew, -⟩ := CreateMarket.prepare_goto hprepare
  have hown := fun o ho => (hall o ho).1
  have hcommit : pg.atomically (createProgram market (first :: rest) (env 1).now) (env 1).txVars
      db = .ok (db.created market (first :: rest) (env 1).now) :=
    create_commits hen hresolved hown
  refine ⟨db.created market (first :: rest) (env 1).now, .market market (first :: rest), ?_, rfl,
    rfl, ?_, ?_⟩
  · simp only [MarketCall.run, hprepare, drive, CreateMarket.advance, pgBackend, hcommit,
      PortAnswer.andThen, CreateMarket.written]
  · refine ⟨market, ?_, hopen, ?_, htotal, hcount.ge, ?_⟩
    · rw [marketById_created, if_pos rfl]
    · rw [hnew]
      exact hcloses
    · rw [hcount]
      exact Int.natCast_nonneg _
  · refine ⟨first, rest, ?_, rfl, (hall first List.mem_cons_self).2, rfl, rfl, fun p hp =>
      (hall p (List.mem_cons_of_mem first hp)).2⟩
    rw [outcomesFor_created hen hown, hnone, if_pos rfl, List.nil_append]

end Created

end Betsphere
