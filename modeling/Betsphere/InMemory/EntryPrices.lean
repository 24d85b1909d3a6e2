import Betsphere.Application.EntryPrices
import Betsphere.InMemory.BetListing
import Betsphere.InMemory.Sequential
set_option autoImplicit false

namespace Betsphere
open MachineInt Pricing

/-- Every outcome gets a first chart point. -/
def Mem.create (now : DateTime) (market : Market) (outcomes : List Outcome) (m : Mem) : Mem :=
  { m with
    markets := m.markets ++ [market]
    outcomes := m.outcomes ++ outcomes
    pricePoints := m.pricePoints ++ outcomes.map fun o => ⟨o.id, o.currentPrice, now⟩ }

def inMemoryBackend (build : Build) : Backend Mem where
  toRepositories := inMemoryRepositories build
  create := fun env market outcomes m => (m.create env.now market outcomes, .done)
  marketsByIds := fun m ids => m.markets.filter fun r => r.id ∈ ids
  outcomesForMarkets := fun m ids => m.outcomes.filter fun o => o.marketId ∈ ids
  activePositions := Mem.activePositions
  findByUser := fun _ m userId filter =>
    .ok (InMemoryBetRepository.findByUser m.bets userId filter)
  findByMarket := fun _ m marketId filter =>
    .ok (InMemoryBetRepository.findByMarket m.bets marketId filter)
  feed := fun _ m filter => .ok (InMemoryBetRepository.feed m.bets filter)

def Mem.book (m : Mem) : Book where
  bets := m.bets
  status := fun id => (m.marketById id).map Market.status
  marketOf := fun id => (m.outcomeById id).map Outcome.marketId
  known := fun id => ∃ user, m.userById id = some user

theorem InMemoryBetRepository.mem_of_filtered {bets : List Bet} {keep : Bet → Bool}
    {filter : BetFilter} {b : Bet} (h : b ∈ filtered bets keep filter) : b ∈ bets := by
  have hsorted := List.mem_of_mem_drop (List.mem_of_mem_take h)
  exact List.mem_of_mem_filter (List.mem_of_mem_filter ((List.mem_insertionSort _).mp hsorted))

theorem inMemoryBackend_reads (build : Build) (m : Mem) :
    (inMemoryBackend build).Reads m m.book flooredMean where
  bounded := meanOf_flooredMean
  positions := fun pairs _ => m.activePositions_eq pairs
  users := fun id h => h
  markets := by
    rintro ids id hid ⟨status, hstatus⟩
    obtain ⟨r, hr, -⟩ := Option.map_eq_some_iff.mp hstatus
    have hkey : r.id = id := by simpa using List.find?_some hr
    exact ⟨r, List.mem_filter.mpr ⟨List.mem_of_find?_eq_some hr, by simpa [hkey] using hid⟩, hkey⟩
  outcomes := by
    intro ids id hid outcomeId hmarket
    obtain ⟨o, ho, rfl⟩ := Option.map_eq_some_iff.mp hmarket
    have hkey : o.id = outcomeId := by simpa using List.find?_some ho
    exact ⟨o, List.mem_filter.mpr ⟨List.mem_of_find?_eq_some ho, decide_eq_true hid⟩, hkey⟩
  pages := by
    intro env listing bets hpage b hb
    cases listing with
    | user userId filter =>
      cases hpage
      exact InMemoryBetRepository.mem_of_filtered hb
    | market marketId filter =>
      cases hpage
      exact InMemoryBetRepository.mem_of_filtered hb
    | feed filter =>
      cases hpage
      exact InMemoryBetRepository.mem_of_filtered hb

structure Mem.Distinct (past : List Uuid) (m : Mem) : Prop where
  markets : (m.markets.map Market.id).Nodup
  outcomes : (m.outcomes.map Outcome.id).Nodup
  marketsDrawn : ∀ id ∈ m.markets.map Market.id, id.uuid ∈ past
  outcomesDrawn : ∀ id ∈ m.outcomes.map Outcome.id, id.uuid ∈ past
  betsDrawn : ∀ id ∈ m.bets.map Bet.id, id.uuid ∈ past

section Writes
variable {m : Mem} {past : List Uuid}

def marketPair (r : Market) : MarketId × MarketStatus := (r.id, r.status)
def outcomePair (o : Outcome) : OutcomeId × MarketId := (o.id, o.marketId)

/-- What a placement that writes leaves: a debited user, the new bet, a market with other
aggregates and, unless it panics, repriced outcomes. -/
structure Mem.Placed (m : Mem) (bet : Bet) (m' : Mem) : Prop where
  bets : m'.bets = m.bets ++ [bet]
  users : ∃ user, m'.users = m.users.upsert user
  markets : m'.markets.map marketPair = m.markets.map marketPair
  outcomes : m'.outcomes.map outcomePair = m.outcomes.map outcomePair

theorem Market.recordStake_pair (build : Build) (r : Market) (amount : Int) (joins : Bool) :
    marketPair (r.recordStake build amount joins).1 = marketPair r := by
  unfold Market.recordStake
  cases joins with
  | false => rfl
  | true =>
    simp only [if_true]
    split <;> rfl

theorem Mem.recordStake_spec (build : Build) (hd : (m.markets.map Market.id).Nodup)
    (marketId : MarketId) (amount : Int) (joins : Bool) :
    ∃ markets, (m.recordStake build marketId amount joins).1 = { m with markets } ∧
      markets.map marketPair = m.markets.map marketPair := by
  unfold Mem.recordStake
  cases hfind : m.marketById marketId with
  | none => exact ⟨m.markets, rfl, rfl⟩
  | some market =>
    refine ⟨_, rfl, FirstMatch.map_update fun r hr hk => ?_⟩
    have hid : market.id = marketId := by simpa using List.find?_some hfind
    obtain rfl : r = market := List.inj_on_of_nodup_map hd hr (List.mem_of_find?_eq_some hfind)
      (hk.trans hid.symm)
    exact Market.recordStake_pair build r amount joins

theorem Mem.place_spec (build : Build) (now : DateTime) {bet : Bet} {priced : List Outcome}
    (points : List PricePoint) (hd : (m.markets.map Market.id).Nodup)
    (hpriced : ∀ p ∈ priced, ∀ o ∈ m.outcomes, p.id = o.id → p.marketId = o.marketId) :
    (m.place build now bet priced points).1 = m ∨
      m.Placed bet (m.place build now bet priced points).1 := by
  unfold Mem.place
  cases hdebit : m.debited now bet with
  | error e => exact .inl rfl
  | ok user =>
    right
    obtain ⟨markets, hstake, hmarkets⟩ :=
      ((m.saveUser user).pushBet bet).recordStake_spec build hd bet.marketId bet.amount
        (!(m.saveUser user).hasBet bet.userId bet.marketId)
    have houtcomes : (FirstMatch.overwrite Outcome.id priced m.outcomes).map outcomePair =
        m.outcomes.map outcomePair := FirstMatch.map_pairs_overwrite hpriced
    cases hresult : ((m.saveUser user).pushBet bet).recordStake build bet.marketId bet.amount
        (!(m.saveUser user).hasBet bet.userId bet.marketId) with
    | mk staked result =>
      rw [hresult] at hstake
      obtain rfl : staked = _ := hstake
      cases result with
      | error p =>
        simp only [hresult]
        exact ⟨rfl, ⟨user, rfl⟩, hmarkets, rfl⟩
      | ok u =>
        simp only [hresult]
        exact ⟨rfl, ⟨user, rfl⟩, hmarkets, houtcomes⟩

theorem Mem.settleBets_bets {settled : List Bet} (now : DateTime) (howed : Owed m.users settled) :
    ∃ users, Mem.settleBets now settled m =
        ({ m with users, bets := FirstMatch.overwrite Bet.id settled m.bets }, .ok ()) ∧
      ∀ id, (m.users.find? id).isSome → (users.find? id).isSome := by
  induction settled generalizing m with
  | nil => exact ⟨m.users, rfl, fun _ h => h⟩
  | cons b rest ih =>
    unfold Mem.settleBets
    cases hb : b.payout with
    | none => exact ih (m := m.replaceBet b) howed.tail
    | some payout =>
      obtain ⟨hpos, hsome⟩ := howed b List.mem_cons_self payout hb
      obtain ⟨u, hu⟩ := Option.isSome_iff_exists.mp hsome
      have hcredit : ∃ user, (m.replaceBet b).credited now b.userId payout = .ok user := by
        have hfind : (m.replaceBet b).userById b.userId = some u := hu
        unfold Mem.credited
        rw [hfind]
        simp only [User.credit]
        rw [if_neg (by omega)]
        exact ⟨_, rfl⟩
      obtain ⟨user, huser⟩ := hcredit
      have hkept : ∀ id, (m.users.find? id).isSome → ((m.users.upsert user).find? id).isSome := by
        intro id h
        rw [Table.find?_upsert]
        split
        · rfl
        · exact h
      have hrest : Owed ((m.replaceBet b).saveUser user).users rest := fun c hc p hp =>
        ⟨(howed.tail c hc p hp).1, hkept _ (howed.tail c hc p hp).2⟩
      obtain ⟨users, hsettle, hlater⟩ := ih hrest
      refine ⟨users, ?_, fun id h => hlater id (hkept id h)⟩
      simp only [huser]
      exact hsettle

end Writes

section Turns
variable {m m' : Mem} {past : List Uuid} {build : Build}

theorem Mem.extends_of_pairs (husers : ∀ id, (m.users.find? id).isSome → (m'.users.find? id).isSome)
    (hmarkets : m'.markets.map marketPair = m.markets.map marketPair)
    (houtcomes : m'.outcomes.map outcomePair = m.outcomes.map outcomePair) :
    m.book.Extends m'.book where
  status := by
    intro id status h
    rw [← h]
    exact FirstMatch.find?_pairs hmarkets id
  marketOf := by
    intro id market h
    rw [← h]
    exact FirstMatch.find?_pairs houtcomes id
  known := by
    rintro id ⟨u, hu⟩
    exact Option.isSome_iff_exists.mp (husers id (Option.isSome_iff_exists.mpr ⟨u, hu⟩))

theorem Mem.placed_turn {input : NewBet} {id : BetId} {bet : Bet} {priced : List Outcome}
    (hplacing : Placing (inMemoryRepositories build) build m input id bet priced)
    (hplaced : m.Placed bet m') (hnew : id ∉ m.bets.map Bet.id) : m.book.Turn m'.book := by
  obtain ⟨outcome, market, houtcome, hmarket, hopen, hbm, -⟩ := hplacing.outcome
  have hfound : m.outcomeById input.outcomeId = some outcome := houtcome
  have hstored : m.marketById outcome.marketId = some market := hmarket
  have hmid : market.id = outcome.marketId := by simpa using List.find?_some hmarket
  obtain ⟨user, husers⟩ := hplaced.users
  have hkept : ∀ id, (m.users.find? id).isSome → (m'.users.find? id).isSome := by
    intro id h
    rw [husers, Table.find?_upsert]
    split
    · rfl
    · exact h
  refine .place bet .opened (Mem.extends_of_pairs hkept hplaced.markets hplaced.outcomes)
    hplaced.bets (hplacing.drawn ▸ hnew) hplacing.active hplacing.user ?_ ?_ (by decide)
  · simp only [Mem.book, hplacing.outcomeId, hfound, Option.map_some, hbm, hmid]
  · simp only [Mem.book, hbm, hmid, hstored, Option.map_some, hopen]

theorem Mem.created_turn {now : DateTime} {market : Market} {outcomes : List Outcome} :
    m.book.Turn (m.create now market outcomes).book := by
  refine .keep ⟨fun id status h => ?_, fun id owner h => ?_, fun id h => h⟩ rfl
  · obtain ⟨r, hr, rfl⟩ := Option.map_eq_some_iff.mp h
    have hfind : (m.create now market outcomes).marketById id = some r := by
      have hr : m.markets.find? (fun r => r.id = id) = some r := hr
      simp [Mem.marketById, Mem.create, List.find?_append, hr]
    simp only [Mem.book, hfind, Option.map_some]
  · obtain ⟨o, ho, rfl⟩ := Option.map_eq_some_iff.mp h
    have hfind : (m.create now market outcomes).outcomeById id = some o := by
      have ho : m.outcomes.find? (fun o => o.id = id) = some o := ho
      simp [Mem.outcomeById, Mem.create, List.find?_append, ho]
    simp only [Mem.book, hfind, Option.map_some]

theorem Mem.settle_spec (now : DateTime) (market : Market) {settled : List Bet}
    (howed : Owed m.users settled) :
    ∃ users, (∀ id, (m.users.find? id).isSome → (users.find? id).isSome) ∧
      (m.settle now market settled).1.users = users ∧
      (m.settle now market settled).1.bets = FirstMatch.overwrite Bet.id settled m.bets ∧
      (m.settle now market settled).1.outcomes = m.outcomes ∧
      (m.settle now market settled).1.markets =
        FirstMatch.update Market.id market.id (fun _ => market) m.markets := by
  obtain ⟨users, hsettle, hkept⟩ :=
    Mem.settleBets_bets (m := m.resolveMarket market) now howed
  refine ⟨users, hkept, ?_⟩
  unfold Mem.settle
  rw [hsettle]
  exact ⟨rfl, rfl, rfl, rfl⟩

theorem Mem.settled_owed {env : Env} {marketId : MarketId} {winner : OutcomeId}
    {market : Market} {settled : List Bet} (hs : m.book.Sound)
    (h : Resolving (inMemoryRepositories build) m env marketId winner market settled) :
    Owed m.users settled := by
  intro s hs' payout hpayout
  rw [(ResolveMarket.settleAll_ok h.settled).2] at hs'
  obtain ⟨b, hb, rfl⟩ := List.mem_map.mp hs'
  obtain ⟨u, hu⟩ := hs.known b (List.mem_of_mem_filter hb)
  have hpaid := (ResolveMarket.settleOn_settledOn winner b).payout
  rw [Option.mem_def.mp hpayout] at hpaid
  constructor
  · split at hpaid
    · rw [Option.some.inj hpaid]
      exact Bet.winnings_pos _
    · cases hpaid
  · rw [← (ResolveMarket.settleOn_sameStake winner b).userId]
    exact Option.isSome_iff_exists.mpr ⟨u, hu⟩

theorem Mem.settled_turn {now : DateTime} {env : Env} {marketId : MarketId} {winner : OutcomeId}
    {market : Market} {settled : List Bet} (hs : m.book.Sound)
    (h : Resolving (inMemoryRepositories build) m env marketId winner market settled) :
    m.book.Turn (m.settle now market settled).1.book := by
  obtain ⟨stored, hstored, hmarket⟩ := h.market
  have hfound : m.marketById marketId = some stored := hstored
  have hid : market.id = marketId := by
    rw [hmarket]
    simpa using List.find?_some hstored
  have hstatus : market.status = .resolved := by rw [hmarket]
  have hsettled : settled = (m.activeForMarket marketId).map (ResolveMarket.settleOn winner) :=
    (ResolveMarket.settleAll_ok h.settled).2
  have hdistinct : (m.bets.map Bet.id).Nodup := hs.distinct
  have hnd : (settled.map Bet.id).Nodup := by
    rw [hsettled, settled_ids]
    exact hdistinct.sublist (List.filter_sublist.map Bet.id)
  obtain ⟨users, hkept, husers, hbets, houtcomes, hmarkets⟩ :=
    Mem.settle_spec now market (Mem.settled_owed hs h)
  have hlookup : ∀ id, (m.settle now market settled).1.marketById id =
      (m.marketById id).map fun r => if id = market.id then market else r := by
    intro id
    unfold Mem.marketById
    rw [hmarkets]
    exact FirstMatch.find?_replaced rfl id
  refine .settle marketId (ResolveMarket.settleOn winner) (settledAs_settleOn winner) ?_ ?_ ?_ ?_ ?_
  · change (m.settle now market settled).1.bets = m.bets.map _
    rw [hbets, FirstMatch.overwrite_eq_map hnd hdistinct]
    refine List.map_congr_left fun b hb => ?_
    rw [find?_settled hdistinct (List.Perm.of_eq hsettled) hb]
    by_cases hactive : b.marketId = marketId ∧ b.status = .active
    · rw [if_pos hactive, if_pos hactive, Option.getD_some]
    · rw [if_neg hactive, if_neg hactive, Option.getD_none]
  · simp only [Mem.book, hlookup, hfound, Option.map_some, hid, if_true, hstatus]
  · intro id' hne
    have hother : ¬id' = market.id := fun heq => hne (heq.trans hid)
    simp only [Mem.book, hlookup, if_neg hother, Option.map_id_fun', id]
  · intro id owner howner
    simp only [Mem.book, Mem.outcomeById] at howner ⊢
    rw [houtcomes]
    exact howner
  · rintro id ⟨u, hu⟩
    obtain ⟨u', hu'⟩ := Option.isSome_iff_exists.mp
      (hkept id (Option.isSome_iff_exists.mpr ⟨u, hu⟩))
    exact ⟨u', by rw [Mem.userById, husers]; exact hu'⟩

end Turns

section Draws
variable {m m' : Mem} {past : List Uuid} {build : Build}

theorem newOutcomes_ids {env : Env} {marketId : MarketId} {k : Nat} {labels : List Text}
    {outcomes : List Outcome} (h : CreateMarket.newOutcomes env marketId k labels = .ok outcomes) :
    outcomes.map (fun o => o.id.uuid) = (List.range' k labels.length).map env.fresh := by
  induction labels generalizing k outcomes with
  | nil =>
    cases h
    rfl
  | cons label labels ih =>
    simp only [CreateMarket.newOutcomes] at h
    cases hl : OutcomeLabel.new label with
    | error e => simp [hl] at h
    | ok l =>
      cases hr : CreateMarket.newOutcomes env marketId (k + 1) labels with
      | error e => simp [hl, hr] at h
      | ok rest =>
        simp only [hl, hr, Except.ok.injEq] at h
        subst h
        rw [List.map_cons, ih hr, List.length_cons, List.range'_succ, List.map_cons]
        rfl

theorem prepare_ids {env : Nat → Env} {actor : Actor} {input : NewMarket} {market : Market}
    {outcomes : List Outcome}
    (h : CreateMarket.prepare build (env 0) actor input = .goto (market, outcomes)) :
    market.id.uuid :: outcomes.map (fun o => o.id.uuid) =
      (MarketCall.create actor input env).draws := by
  obtain ⟨title, raw, rfl, hnew, -, hprice⟩ := CreateMarket.prepare_goto h
  have hids : outcomes.map (fun o => o.id.uuid) = raw.map fun o => o.id.uuid :=
    recalculatePrices_map hprice (fun o => o.id.uuid) fun _ => rfl
  rw [hids, newOutcomes_ids hnew, MarketCall.draws, List.range_eq_range', List.range'_succ]
  rfl

theorem Mem.Distinct.kept {draws : List Uuid} (h : m.Distinct past)
    (hmarkets : m'.markets.map Market.id = m.markets.map Market.id)
    (houtcomes : m'.outcomes.map Outcome.id = m.outcomes.map Outcome.id)
    (hbets : ∀ id ∈ m'.bets.map Bet.id, id ∈ m.bets.map Bet.id ∨ id.uuid ∈ draws) :
    m'.Distinct (past ++ draws) where
  markets := hmarkets ▸ h.markets
  outcomes := houtcomes ▸ h.outcomes
  marketsDrawn := fun id hid => List.mem_append_left _ (h.marketsDrawn id (hmarkets ▸ hid))
  outcomesDrawn := fun id hid => List.mem_append_left _ (h.outcomesDrawn id (houtcomes ▸ hid))
  betsDrawn := by
    intro id hid
    rcases hbets id hid with hold | hnew
    · exact List.mem_append_left _ (h.betsDrawn id hold)
    · exact List.mem_append_right _ hnew

theorem Mem.Distinct.created {now : DateTime} {market : Market} {outcomes : List Outcome}
    {draws : List Uuid} (h : m.Distinct past) (hnd : (past ++ draws).Nodup)
    (hdraws : market.id.uuid :: outcomes.map (fun o => o.id.uuid) = draws) :
    (m.create now market outcomes).Distinct (past ++ draws) := by
  obtain ⟨-, hnew, hapart⟩ := List.nodup_append.mp hnd
  rw [← hdraws, List.nodup_cons] at hnew
  have houtcome : ∀ o ∈ outcomes, o.id.uuid ∈ draws := by
    intro o ho
    rw [← hdraws]
    exact List.mem_cons_of_mem _ (List.mem_map_of_mem (f := fun o : Outcome => o.id.uuid) ho)
  have hmarket : market.id.uuid ∈ draws := hdraws ▸ List.mem_cons_self
  refine ⟨?_, ?_, fun id hid => ?_, fun id hid => ?_, fun id hid => ?_⟩
  · simp only [Mem.create, List.map_append, List.map_singleton]
    refine List.nodup_append.mpr ⟨h.markets, List.nodup_singleton _, ?_⟩
    rintro id hid id' hid' rfl
    rw [List.mem_singleton.mp hid'] at hid
    exact hapart _ (h.marketsDrawn _ hid) _ hmarket rfl
  · simp only [Mem.create, List.map_append]
    refine List.nodup_append.mpr ⟨h.outcomes, ?_, ?_⟩
    · have huuids : ((outcomes.map Outcome.id).map OutcomeId.uuid).Nodup := by
        rw [List.map_map]
        exact hnew.2
      exact huuids.of_map _
    · rintro id hid id' hid' rfl
      obtain ⟨o, ho, rfl⟩ := List.mem_map.mp hid'
      exact hapart _ (h.outcomesDrawn _ hid) _ (houtcome o ho) rfl
  · simp only [Mem.create, List.map_append, List.map_singleton, List.mem_append,
      List.mem_singleton] at hid
    rcases hid with hid | rfl
    · exact List.mem_append_left _ (h.marketsDrawn id hid)
    · exact List.mem_append_right _ hmarket
  · simp only [Mem.create, List.map_append, List.mem_append] at hid
    rcases hid with hid | hid
    · exact List.mem_append_left _ (h.outcomesDrawn id hid)
    · obtain ⟨o, ho, rfl⟩ := List.mem_map.mp hid
      exact List.mem_append_right _ (houtcome o ho)
  · exact List.mem_append_left _ (h.betsDrawn id hid)

theorem Mem.Placed.ids {bet : Bet} (h : m.Placed bet m') :
    m'.markets.map Market.id = m.markets.map Market.id ∧
      m'.outcomes.map Outcome.id = m.outcomes.map Outcome.id := by
  constructor
  · simpa [marketPair, Function.comp_def] using congrArg (List.map Prod.fst) h.markets
  · simpa [outcomePair, Function.comp_def] using congrArg (List.map Prod.fst) h.outcomes

theorem Placing.copies {input : NewBet} {id : BetId} {bet : Bet} {priced : List Outcome}
    (h : Placing (inMemoryRepositories build) build m input id bet priced)
    (hd : (m.outcomes.map Outcome.id).Nodup) :
    ∀ p ∈ priced, ∀ o ∈ m.outcomes, p.id = o.id → p.marketId = o.marketId := by
  intro p hp o ho hid
  obtain ⟨outcome, market, -, -, -, -, chosen, -, hprice⟩ := h.outcome
  have hpairs : priced.map outcomePair = (m.outcomesFor market.id).map outcomePair := by
    rw [recalculatePrices_map hprice outcomePair fun _ => rfl,
      PlaceBet.staked_map outcomePair fun _ _ => rfl]
    rfl
  have hpair : outcomePair p ∈ (m.outcomesFor market.id).map outcomePair := by
    rw [← hpairs]
    exact List.mem_map_of_mem hp
  obtain ⟨q, hq, heq⟩ := List.mem_map.mp hpair
  simp only [outcomePair, Prod.mk.injEq] at heq
  obtain rfl : q = o := List.inj_on_of_nodup_map hd (List.mem_of_mem_filter hq) ho
    (heq.1.trans hid)
  exact heq.2.symm

/-- A call over the in-memory stores is a turn of the book, and its ids are new. -/
theorem Mem.call_turn {call : MarketCall} (h : call.Effect (inMemoryBackend build) build m m')
    (hd : m.Distinct past) (hs : m.book.Sound) (hnd : (past ++ call.draws).Nodup) :
    m.book.Turn m'.book ∧ m'.Distinct (past ++ call.draws) := by
  have hkeep : m.book.Turn m.book ∧ m.Distinct (past ++ call.draws) :=
    ⟨.keep (.refl _) rfl, hd.kept rfl rfl fun id hid => .inl hid⟩
  cases h with
  | none => exact hkeep
  | created actor input env market outcomes hprepare =>
    exact ⟨Mem.created_turn, hd.created hnd (prepare_ids hprepare)⟩
  | placed actor input env env' bet priced points hplacing =>
    rcases Mem.place_spec build env'.now points hd.markets (Placing.copies hplacing hd.outcomes)
      with hsame | hplaced
    · have hsame : ((inMemoryBackend build).place env' bet priced points m).1 = m := hsame
      rw [hsame]
      exact hkeep
    · have hnew : (⟨(env 3).fresh 0⟩ : BetId) ∉ m.bets.map Bet.id := by
        intro hmem
        exact (List.nodup_append.mp hnd).2.2 _ (hd.betsDrawn _ hmem) _ List.mem_cons_self rfl
      refine ⟨Mem.placed_turn hplacing hplaced hnew, hd.kept hplaced.ids.1 hplaced.ids.2
        fun id hid => ?_⟩
      change id ∈ (m.place build env'.now bet priced points).1.bets.map Bet.id at hid
      rw [hplaced.bets, List.map_append, List.mem_append] at hid
      refine hid.imp_right fun hid => ?_
      rw [List.mem_singleton.mp hid, hplacing.drawn]
      exact List.mem_cons_self
  | settled actor marketId winner env env' market bets hresolving =>
    obtain ⟨users, -, -, hbets, houtcomes, hmarkets⟩ :=
      Mem.settle_spec env'.now market (Mem.settled_owed hs hresolving)
    refine ⟨Mem.settled_turn hs hresolving, hd.kept ?_ ?_ fun id hid => .inl ?_⟩
    · change (m.settle env'.now market bets).1.markets.map Market.id = _
      rw [hmarkets]
      exact FirstMatch.map_update fun r _ hk => hk.symm
    · change (m.settle env'.now market bets).1.outcomes.map Outcome.id = _
      rw [houtcomes]
    · change id ∈ (m.settle env'.now market bets).1.bets.map Bet.id at hid
      rwa [hbets, FirstMatch.map_key_overwrite] at hid

theorem Mem.afterCalls_sound {calls : List MarketCall} (hd : m.Distinct past) (hs : m.book.Sound)
    (hnd : (past ++ calls.flatMap MarketCall.draws).Nodup)
    (hrun : afterCalls (inMemoryBackend build) build calls m = some m') : m'.book.Sound := by
  induction calls generalizing m past with
  | nil =>
    cases hrun
    exact hs
  | cons call calls ih =>
    rw [List.flatMap_cons, ← List.append_assoc] at hnd
    simp only [afterCalls] at hrun
    split at hrun
    · cases hrun
    · rename_i t r hcall
      obtain ⟨hturn, hd'⟩ := Mem.call_turn (MarketCall.run_effect hcall) hd hs
        (hnd.sublist (List.sublist_append_left _ _))
      exact ih hd' (hturn.sound hs) hnd hrun

end Draws

end Betsphere
