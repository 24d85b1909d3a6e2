import Betsphere.InMemory.Overlap
import Betsphere.System.WellFormed
set_option autoImplicit false

namespace Betsphere
open MachineInt Pricing

structure Mem.DistinctIds (m : Mem) : Prop where
  markets : (m.markets.map Market.id).Nodup
  outcomes : (m.outcomes.map Outcome.id).Nodup
  bets : (m.bets.map Bet.id).Nodup

namespace MemCall

def drawsFresh (m : Mem) : MemCall → Bool
  | writing _ _ p .pushBet => m.bets.all fun b => b.id ≠ p.bet.id
  | _ => true

def countFits (m : Mem) : MemCall → Bool
  | writing _ _ p (.recordStake true) => m.markets.all fun r =>
      decide (r.id = p.bet.marketId → InI32 (r.participantsCount + 1))
  | _ => true

/-- What is put back whole is what is stored, but for the stake or the winner of the call. -/
def copiesCurrent (m : Mem) : MemCall → Bool
  | writing _ _ p .applyPriced => m.outcomes.all fun o => p.priced.all fun q =>
      decide (q.id = o.id → q.thumbnailUrl = o.thumbnailUrl ∧
        q.volume = if o.id = p.bet.outcomeId then saturatingAdd o.volume p.bet.amount
          else o.volume)
  | resolving _ _ (.settle market _ _) => m.markets.all fun r =>
      decide (r.id = market.id → market.thumbnailUrl = r.thumbnailUrl ∧
        market.totalVolume = r.totalVolume ∧ market.participantsCount = r.participantsCount)
  | _ => true

end MemCall

namespace Overlap

def next (ok : Mem → MemCall → Bool) (s : Overlap) : OverlapAct → Bool
  | .advance i _ => (s.calls[i]?).all (ok s.mem)
  | _ => true

end Overlap

def Bet.stake (b : Bet) : Stake :=
  ⟨b.id, b.userId, b.marketId, b.outcomeId, b.amount, b.amountPositive⟩

def Market.tally (r : Market) : MarketTally :=
  ⟨r.id, r.thumbnailUrl, r.totalVolume, r.participantsCount⟩

def Outcome.tally (o : Outcome) : OutcomeTally := ⟨o.id, o.thumbnailUrl, o.volume⟩

def Mem.aggregates (m : Mem) : Aggregates :=
  ⟨m.markets.map Market.tally, m.outcomes.map Outcome.tally, m.bets.map Bet.stake⟩

def MemCall.debt : MemCall → Debt
  | writing _ _ p (.recordStake joins) => .unrecorded p.bet.stake joins
  | writing _ _ p .applyPriced => .unbacked p.bet.stake
  | _ => .clear

def Backs (bet : Bet) (priced : List Outcome) : Prop :=
  (priced.map Outcome.id).Nodup ∧ bet.outcomeId ∈ priced.map Outcome.id

def KeepStakes (stakes : List Stake) (settled : List Bet) : Prop := ∀ b ∈ settled, b.stake ∈ stakes

def MemCall.Held (stakes : List Stake) : MemCall → Prop
  | placing _ input (.findUser _ outcomes chosen _) =>
    (outcomes.map Outcome.id).Nodup ∧ ∃ o, outcomes[chosen]? = some o ∧ o.id = input.outcomeId
  | placing _ _ (.place _ _ bet priced _ _) => Backs bet priced
  | writing _ _ p _ => Backs p.bet p.priced
  | resolving _ _ (.settle _ _ settled) => KeepStakes stakes settled
  | settling _ _ settled .lockBets => KeepStakes stakes settled
  | settling _ _ _ (.findWinner _ _ rest) => KeepStakes stakes rest
  | settling _ _ _ (.saveWinner _ rest) => KeepStakes stakes rest
  | _ => True

theorem MemCall.Held.mono {stakes stakes' : List Stake} {call : MemCall} (h : call.Held stakes)
    (hsub : stakes ⊆ stakes') : call.Held stakes' := by
  have hkeep : ∀ settled, KeepStakes stakes settled → KeepStakes stakes' settled :=
    fun settled hk b hb => hsub (hk b hb)
  cases call with
  | placing actor input phase => cases phase <;> exact h
  | writing actor input p stage => exact h
  | resolving marketId winner phase =>
    cases phase with
    | settle market outcomes settled => exact hkeep settled h
    | _ => exact h
  | settling market outcomes settled stage =>
    cases stage with
    | lockBets => exact hkeep settled h
    | findWinner userId payout rest => exact hkeep rest h
    | saveWinner user rest => exact hkeep rest h
    | dispatch event rest => exact h
  | uploading request ext phase => exact h
  | returned reply => exact h

theorem Aggregates.Moves.stakes_subset {a a' : Aggregates} {d d' : Debt} {log log' : Postings}
    (h : a.Moves log d a' d' log') : a.stakes ⊆ a'.stakes := by
  cases h with
  | enter s joins fresh first => exact List.subset_append_left _ _
  | _ => exact List.Subset.refl _

/-- One step of a call is one move on the aggregates, and leaves the call what it holds. -/
structure MemCall.Refines (m : Mem) (log : Postings) (call : MemCall) (m' : Mem)
    (call' : MemCall) : Prop where
  moves : m.aggregates.Moves log call.debt m'.aggregates call'.debt (call.posting.toList ++ log)
  held : call'.Held m'.aggregates.stakes

section Silent
variable {m m' : Mem} {log : Postings} {call call' : MemCall}

theorem MemCall.Refines.silent (hsame : m'.aggregates = m.aggregates) (hdebt : call.debt = .clear)
    (hdebt' : call'.debt = .clear) (hposting : call.posting = none)
    (hheld : call'.Held m'.aggregates.stakes) : call.Refines m log m' call' := by
  refine ⟨?_, hheld⟩
  rw [hsame, hdebt, hdebt', hposting]
  exact .idle

end Silent

section Stores
variable {build : Build} {m m' : Mem} {bet : Bet} {joins : Bool}

theorem distinct_iff : m.aggregates.Distinct ↔ m.DistinctIds := by
  have hmarkets : m.aggregates.markets.map MarketTally.id = m.markets.map Market.id := by
    simp only [Mem.aggregates, List.map_map]
    rfl
  have houtcomes : m.aggregates.outcomes.map OutcomeTally.id = m.outcomes.map Outcome.id := by
    simp only [Mem.aggregates, List.map_map]
    rfl
  have hstakes : m.aggregates.stakes.map Stake.id = m.bets.map Bet.id := by
    simp only [Mem.aggregates, List.map_map]
    rfl
  constructor
  · intro h
    exact ⟨hmarkets ▸ h.markets, houtcomes ▸ h.outcomes, hstakes ▸ h.stakes⟩
  · intro h
    exact ⟨hmarkets ▸ h.markets, houtcomes ▸ h.outcomes, hstakes ▸ h.bets⟩

theorem aggregates_pushBet (m : Mem) (bet : Bet) :
    (m.pushBet bet).aggregates = m.aggregates.enter bet.stake := by
  simp [Mem.aggregates, Mem.pushBet, Aggregates.enter]

theorem Mem.hasBet_iff (m : Mem) (userId : UserId) (marketId : MarketId) :
    m.hasBet userId marketId = true ↔ userId ∈ m.aggregates.bettors marketId := by
  simp [Mem.hasBet, Aggregates.bettors, Mem.aggregates, Bet.stake, and_comm, and_left_comm,
    and_assoc]

theorem recordStake_fits (build : Build) (amount : Int) {market : Market}
    (hfits : joins = true → InI32 (market.participantsCount + 1)) :
    market.recordStake build amount joins = ({ market with
      totalVolume := saturatingAdd market.totalVolume amount
      participantsCount := market.participantsCount + if joins then 1 else 0 }, .ok ()) := by
  cases joins with
  | false => simp [Market.recordStake]
  | true => simp [Market.recordStake, add32, settle32_of_inI32 build (hfits rfl)]

theorem aggregates_recordStake (build : Build) (hd : m.DistinctIds)
    (hfits : joins = true → ∀ r ∈ m.markets, r.id = bet.marketId →
      InI32 (r.participantsCount + 1)) :
    ∃ m', m.recordStake build bet.marketId bet.amount joins = (m', .ok ()) ∧
      m'.aggregates = m.aggregates.record bet.stake joins := by
  unfold Mem.recordStake
  cases hfind : m.marketById bet.marketId with
  | none =>
    refine ⟨m, rfl, ?_⟩
    have hnone : m.aggregates.markets.map (fun r =>
        if r.id = bet.stake.marketId then
          { r with
            totalVolume := saturatingAdd r.totalVolume bet.stake.amount
            participantsCount := r.participantsCount + if joins then 1 else 0 }
        else r) = m.aggregates.markets := by
      conv_rhs => rw [← List.map_id m.aggregates.markets]
      refine List.map_congr_left fun t ht => ?_
      obtain ⟨r, hr, rfl⟩ := List.mem_map.mp ht
      have hne : ¬r.id = bet.marketId := by simpa using List.find?_eq_none.mp hfind r hr
      exact if_neg hne
    rw [Aggregates.record, hnone]
  | some market =>
    obtain ⟨hmem, hid⟩ : market ∈ m.markets ∧ market.id = bet.marketId :=
      ⟨List.mem_of_find?_eq_some hfind, by simpa using List.find?_some hfind⟩
    have hstake := recordStake_fits build bet.amount
      fun hjoins => hfits hjoins market hmem hid
    simp only [hstake]
    refine ⟨_, rfl, ?_⟩
    simp only [Mem.aggregates, Aggregates.record, FirstMatch.update_eq_map hd.markets,
      List.map_map]
    congr 1
    refine List.map_congr_left fun r hr => ?_
    by_cases hrid : r.id = bet.marketId
    · obtain rfl : r = market := List.inj_on_of_nodup_map hd.markets hr hmem (hrid.trans hid.symm)
      simp [Market.tally, Bet.stake, hrid]
    · simp [Market.tally, Bet.stake, hrid]

theorem aggregates_applyPriced (hd : m.DistinctIds) {priced : List Outcome}
    (points : List PricePoint) (hbacks : Backs bet priced)
    (hcur : ∀ o ∈ m.outcomes, ∀ q ∈ priced, q.id = o.id → q.thumbnailUrl = o.thumbnailUrl ∧
      q.volume = if o.id = bet.outcomeId then saturatingAdd o.volume bet.amount else o.volume) :
    (m.applyPriced priced points).aggregates = m.aggregates.back bet.stake := by
  obtain ⟨hnd, hbacked⟩ := hbacks
  simp only [Mem.aggregates, Mem.applyPriced, Aggregates.back,
    FirstMatch.overwrite_eq_map hnd hd.outcomes, List.map_map]
  congr 1
  refine List.map_congr_left fun o ho => ?_
  cases hfind : priced.find? fun q => q.id = o.id with
  | none =>
    have hne : ¬o.id = bet.outcomeId := by
      intro heq
      obtain ⟨q, hq, hqid⟩ := List.mem_map.mp hbacked
      have hmiss := List.find?_eq_none.mp hfind q hq
      simp [hqid, heq] at hmiss
    simp [hfind, Outcome.tally, Bet.stake, hne]
  | some q =>
    have hq : q ∈ priced := List.mem_of_find?_eq_some hfind
    have hid : q.id = o.id := by simpa using List.find?_some hfind
    obtain ⟨hurl, hvolume⟩ := hcur o ho q hq hid
    simp only [Function.comp_apply, hfind, Option.getD_some]
    by_cases hbet : o.id = bet.outcomeId
    · simp [Outcome.tally, Bet.stake, hid, hurl, hvolume, hbet]
    · simp [Outcome.tally, Bet.stake, hid, hurl, hvolume, hbet]

theorem aggregates_resolveMarket (hd : m.DistinctIds) {market : Market}
    (hcur : ∀ r ∈ m.markets, r.id = market.id → market.thumbnailUrl = r.thumbnailUrl ∧
      market.totalVolume = r.totalVolume ∧ market.participantsCount = r.participantsCount) :
    (m.resolveMarket market).aggregates = m.aggregates := by
  simp only [Mem.aggregates, Mem.resolveMarket, FirstMatch.update_eq_map hd.markets, List.map_map]
  congr 1
  refine List.map_congr_left fun r hr => ?_
  by_cases hid : r.id = market.id
  · obtain ⟨hurl, htotal, hcount⟩ := hcur r hr hid
    simp [Market.tally, hid, hurl, htotal, hcount]
  · simp [hid]

theorem aggregates_replaceBet (hd : m.DistinctIds) (hkeep : bet.stake ∈ m.aggregates.stakes) :
    (m.replaceBet bet).aggregates = m.aggregates := by
  simp only [Mem.aggregates, Mem.replaceBet]
  congr 1
  refine FirstMatch.map_update fun b hb hid => ?_
  obtain ⟨c, hc, hstake⟩ := List.mem_map.mp hkeep
  have hcid : c.id = bet.id := congrArg Stake.id hstake
  obtain rfl : b = c := List.inj_on_of_nodup_map hd.bets hb hc (hid.trans hcid.symm)
  exact hstake.symm

/-- The loop over the settled bets keeps the aggregates, and what is left of it keeps stakes. -/
theorem settleUntilPaid_keeps {rest : List Bet} {next : Option (UserId × Int × List Bet)}
    (hd : m.DistinctIds) (hkeep : KeepStakes m.aggregates.stakes rest)
    (h : m.settleUntilPaid rest = (m', next)) :
    m'.aggregates = m.aggregates ∧ ∀ userId payout rest', next = some (userId, payout, rest') →
      KeepStakes m.aggregates.stakes rest' := by
  induction rest generalizing m with
  | nil =>
    cases h
    exact ⟨rfl, by simp⟩
  | cons bet rest ih =>
    have hsame := aggregates_replaceBet hd (hkeep bet List.mem_cons_self)
    have htail : KeepStakes m.aggregates.stakes rest :=
      fun b hb => hkeep b (List.mem_cons_of_mem bet hb)
    simp only [Mem.settleUntilPaid] at h
    cases hpayout : bet.payout with
    | none =>
      simp only [hpayout] at h
      have hd' : (m.replaceBet bet).DistinctIds := by
        rw [← distinct_iff, hsame, distinct_iff]
        exact hd
      rw [← hsame] at htail ⊢
      exact ih hd' htail h
    | some payout =>
      simp only [hpayout, Prod.mk.injEq] at h
      obtain ⟨rfl, rfl⟩ := h
      refine ⟨hsame, fun userId payout' rest' heq => ?_⟩
      cases heq
      exact htail

theorem aggregates_saveCopy (hd : m.DistinctIds) (copy : UploadCopy) :
    (m.saveCopy copy).aggregates = m.aggregates.post copy.owner copy.url? := by
  cases copy with
  | ofUser user => simp [Mem.aggregates, Mem.saveCopy, Mem.saveUser, Aggregates.post,
      UploadCopy.owner]
  | ofMarket market =>
    simp only [Mem.aggregates, Mem.saveCopy, Aggregates.post, UploadCopy.owner, UploadCopy.url?,
      FirstMatch.update_eq_map hd.markets, List.map_map]
    congr 1
    refine List.map_congr_left fun r _ => ?_
    by_cases hid : r.id = market.id
    · simp [Market.tally, hid]
    · have hne : ¬market.id = r.id := fun heq => hid heq.symm
      simp [Market.tally, hid, hne]
  | ofOutcome market outcomes outcome =>
    simp only [Mem.aggregates, Mem.saveCopy, Aggregates.post, UploadCopy.owner, UploadCopy.url?,
      FirstMatch.update_eq_map hd.outcomes, List.map_map]
    congr 1
    refine List.map_congr_left fun o _ => ?_
    by_cases hid : o.id = outcome.id
    · simp [Outcome.tally, hid]
    · have hne : ¬outcome.id = o.id := fun heq => hid heq.symm
      simp [Outcome.tally, hid, hne]

end Stores

section Placing
variable {build : Build} {env : Env} {actor : Actor} {input : NewBet} {m m' : Mem}
  {log : Postings} {call' : MemCall}

theorem Placement.dispatching_settled {p : Placement} (hbacks : Backs p.bet p.priced)
    (actor : Actor) (input : NewBet) (events : List Event) (stakes : List Stake) :
    (p.dispatching actor input events).debt = .clear ∧
      (p.dispatching actor input events).Held stakes := by
  cases events with
  | nil => exact ⟨rfl, trivial⟩
  | cons event rest => exact ⟨rfl, hbacks⟩

theorem Placement.advance_refines {p : Placement} {stage : PlaceStage} (hd : m.DistinctIds)
    (hbacks : Backs p.bet p.priced)
    (hfresh : (MemCall.writing actor input p stage).drawsFresh m = true)
    (hfits : (MemCall.writing actor input p stage).countFits m = true)
    (hcur : (MemCall.writing actor input p stage).copiesCurrent m = true)
    (h : p.advance build actor input m stage = (m', call')) :
    (MemCall.writing actor input p stage).Refines m log m' call' := by
  cases stage with
  | saveBettor user =>
    cases h
    exact .silent rfl rfl rfl rfl hbacks
  | pushBet =>
    cases h
    refine ⟨?_, hbacks⟩
    rw [aggregates_pushBet]
    refine .enter p.bet.stake _ ?_ ?_
    · simpa [MemCall.drawsFresh, Mem.aggregates, Bet.stake] using hfresh
    · rw [Bool.not_eq_true', ← Bool.not_eq_true, m.hasBet_iff]
      rfl
  | recordStake joins =>
    have hroom : joins = true → ∀ r ∈ m.markets, r.id = p.bet.marketId →
        InI32 (r.participantsCount + 1) := by
      intro hjoins
      subst hjoins
      simpa only [MemCall.countFits, List.all_eq_true, decide_eq_true_eq] using hfits
    obtain ⟨m₁, hrecord, hagg⟩ := aggregates_recordStake build hd hroom
    simp only [Placement.advance, hrecord, Prod.mk.injEq] at h
    obtain ⟨rfl, rfl⟩ := h
    refine ⟨?_, hbacks⟩
    rw [hagg]
    exact .record p.bet.stake joins
  | applyPriced =>
    cases h
    obtain ⟨hdebt, hheld⟩ := p.dispatching_settled hbacks actor input
      (placeEvents p.bet) (m.applyPriced p.priced p.points).aggregates.stakes
    simp only [MemCall.copiesCurrent, List.all_eq_true, decide_eq_true_eq] at hcur
    refine ⟨?_, hheld⟩
    rw [hdebt, aggregates_applyPriced hd p.points hbacks hcur]
    exact .back p.bet.stake
  | dispatch event rest =>
    cases h
    obtain ⟨hdebt, hheld⟩ := p.dispatching_settled hbacks actor input rest
      m.aggregates.stakes
    exact .silent rfl rfl hdebt rfl hheld

theorem PlaceBet.onUser_backs {market : Market} {outcomes : List Outcome} {chosen : Nat}
    {found : Option User} {phase : PlaceBet.Phase} {stakes : List Stake}
    (hnd : (outcomes.map Outcome.id).Nodup)
    (hchosen : ∃ o, outcomes[chosen]? = some o ∧ o.id = input.outcomeId)
    (h : PlaceBet.onUser build env actor input market outcomes chosen found = .goto phase) :
    (MemCall.placing actor input phase).Held stakes := by
  obtain ⟨user, bet, backed, priced, hback, hprice, rfl⟩ := PlaceBet.onUser_goto h
  obtain ⟨-, -, ⟨outcome, -, hbet⟩, rfl⟩ := PlaceBet.back_ok hback
  obtain ⟨-, -, -, hbo, -⟩ := Bet.place_ok hbet
  obtain ⟨o, ho, hid⟩ := hchosen
  have hids : priced.map Outcome.id = outcomes.map Outcome.id := by
    rw [recalculatePrices_map hprice Outcome.id fun _ => rfl,
      PlaceBet.staked_map Outcome.id fun _ _ => rfl]
  refine ⟨?_, ?_⟩
  · rw [hids]
    exact hnd
  · rw [hids, hbo, ← hid]
    exact List.mem_map_of_mem (List.mem_of_getElem? ho)

theorem PlaceBet.advanceIn_refines {phase : PlaceBet.Phase} (hd : m.DistinctIds)
    (hheld : (MemCall.placing actor input phase).Held m.aggregates.stakes)
    (h : PlaceBet.advanceIn build env actor input m phase = (m', call')) :
    (MemCall.placing actor input phase).Refines m log m' call' := by
  have hread : ∀ next : Next PlaceBet.Phase, (∀ q, next = .goto q →
      (MemCall.placing actor input q).Held m.aggregates.stakes) →
      (MemCall.placing actor input phase).Refines m log m (.placed actor input next) := by
    intro next hnext
    cases next with
    | reply r => exact .silent rfl rfl rfl rfl trivial
    | goto q => exact .silent rfl rfl rfl rfl (hnext q rfl)
  cases phase with
  | readOutcome =>
    cases h
    refine hread _ fun q hq => ?_
    cases ho : m.outcomeById input.outcomeId with
    | none => simp [inMemoryRepositories, ho, PlaceBet.onOutcome] at hq
    | some o =>
      simp only [inMemoryRepositories, ho, PlaceBet.onOutcome, Next.goto.injEq] at hq
      subst hq
      trivial
  | readMarket outcome =>
    cases h
    refine hread _ fun q hq => ?_
    cases hmarket : m.marketById outcome.marketId with
    | none => simp [inMemoryRepositories, hmarket, PlaceBet.onMarket] at hq
    | some market =>
      simp only [inMemoryRepositories, hmarket, PlaceBet.onMarket] at hq
      split at hq
      · cases hq
        trivial
      · simp [Next.domainError] at hq
  | readOutcomes market =>
    cases h
    refine hread _ fun q hq => ?_
    simp only [inMemoryRepositories, PlaceBet.onOutcomes] at hq
    split at hq
    · simp [Next.domainError] at hq
    · rename_i chosen hfind
      cases hq
      refine ⟨?_, PlaceBet.findIdx?_chosen hfind⟩
      exact hd.outcomes.sublist (List.filter_sublist.map Outcome.id)
  | findUser market outcomes chosen lookup =>
    cases h
    exact hread _ fun q hq => PlaceBet.onUser_backs hheld.1 hheld.2 hq
  | place market user bet priced chosen points =>
    simp only [PlaceBet.advanceIn] at h
    cases hdebit : m.debited env.now bet with
    | error e =>
      simp only [hdebit, Prod.mk.injEq] at h
      obtain ⟨rfl, rfl⟩ := h
      exact .silent rfl rfl rfl rfl trivial
    | ok debited =>
      simp only [hdebit, Prod.mk.injEq] at h
      obtain ⟨rfl, rfl⟩ := h
      exact .silent rfl rfl rfl rfl hheld
  | readPosition market user bet priced chosen =>
    cases h
    exact hread _ fun q hq => by simp at hq

end Placing

section Settling
variable {build : Build} {env : Env} {m m' : Mem} {log : Postings} {call' : MemCall}

theorem ResolveMarket.onActive_keeps {winner : OutcomeId} {market : Market}
    {outcomes : List Outcome} {active : List Bet} {phase : ResolveMarket.Phase}
    {marketId : MarketId} (hactive : ∀ b ∈ active, b ∈ m.bets)
    (h : ResolveMarket.onActive winner market outcomes active = .goto phase) :
    (MemCall.resolving marketId winner phase).Held m.aggregates.stakes := by
  unfold ResolveMarket.onActive at h
  split at h
  · simp [Next.domainError] at h
  · rename_i settled hall
    cases h
    obtain ⟨-, rfl⟩ := ResolveMarket.settleAll_ok hall
    intro s hs
    obtain ⟨b, hb, rfl⟩ := List.mem_map.mp hs
    have hsame := ResolveMarket.settleOn_sameStake winner b
    have hstake : (ResolveMarket.settleOn winner b).stake = b.stake := by
      simp [Bet.stake, hsame.id, hsame.userId, hsame.marketId, hsame.outcomeId, hsame.amount]
    rw [hstake]
    exact List.mem_map_of_mem (hactive b hb)

theorem ResolveMarket.advanceIn_refines {marketId : MarketId} {winner : OutcomeId}
    {phase : ResolveMarket.Phase} (hd : m.DistinctIds)
    (hheld : (MemCall.resolving marketId winner phase).Held m.aggregates.stakes)
    (hcur : (MemCall.resolving marketId winner phase).copiesCurrent m = true)
    (h : ResolveMarket.advanceIn build env marketId winner m phase = (m', call')) :
    (MemCall.resolving marketId winner phase).Refines m log m' call' := by
  have hread : ∀ next : Next ResolveMarket.Phase, (∀ q, next = .goto q →
      (MemCall.resolving marketId winner q).Held m.aggregates.stakes) →
      (MemCall.resolving marketId winner phase).Refines m log m
        (.resolved marketId winner next) := by
    intro next hnext
    cases next with
    | reply r => exact .silent rfl rfl rfl rfl trivial
    | goto q => exact .silent rfl rfl rfl rfl (hnext q rfl)
  cases phase with
  | readMarket =>
    cases h
    refine hread _ fun q hq => ?_
    cases hmarket : m.marketById marketId with
    | none => simp [inMemoryRepositories, hmarket, ResolveMarket.onMarket] at hq
    | some market =>
      simp only [inMemoryRepositories, hmarket, ResolveMarket.onMarket, Next.goto.injEq] at hq
      subst hq
      trivial
  | readOutcomes market =>
    cases h
    refine hread _ fun q hq => ?_
    simp only [ResolveMarket.onOutcomes] at hq
    split at hq
    · split at hq
      · simp [Next.domainError] at hq
      · cases hq
        trivial
    · simp [Next.domainError] at hq
  | readActive market outcomes =>
    cases h
    exact hread _ fun q hq => ResolveMarket.onActive_keeps
      (fun b hb => List.mem_of_mem_filter hb) hq
  | settle market outcomes settled =>
    cases h
    simp only [MemCall.copiesCurrent, List.all_eq_true, decide_eq_true_eq] at hcur
    have hsame := aggregates_resolveMarket hd hcur
    refine .silent hsame rfl rfl rfl ?_
    rw [hsame]
    exact hheld

theorem SettleStage.dispatching_settled (market : Market) (outcomes : List Outcome)
    (settled : List Bet) (events : List Event) (stakes : List Stake) :
    (dispatching market outcomes settled events).debt = .clear ∧
      (dispatching market outcomes settled events).Held stakes := by
  cases events <;> exact ⟨rfl, trivial⟩

theorem SettleStage.looping_refines {call : MemCall} {m₀ : Mem} {market : Market}
    {outcomes : List Outcome} {settled rest : List Bet} (hd : m.DistinctIds)
    (hsame : m.aggregates = m₀.aggregates) (hdebt : call.debt = .clear)
    (hposting : call.posting = none) (hkeep : KeepStakes m.aggregates.stakes rest)
    (h : looping market outcomes settled rest m = (m', call')) :
    call.Refines m₀ log m' call' := by
  unfold looping at h
  cases hloop : m.settleUntilPaid rest with
  | mk m₁ next =>
    obtain ⟨hagg, hrest⟩ := settleUntilPaid_keeps hd hkeep hloop
    simp only [hloop] at h
    cases next with
    | none =>
      obtain ⟨rfl, rfl⟩ := Prod.mk.inj h
      obtain ⟨hdebt', hheld⟩ := dispatching_settled market outcomes settled
        ((paidUsers settled).map .userBalanceChanged) m₁.aggregates.stakes
      exact .silent (hagg.trans hsame) hdebt hdebt' hposting hheld
    | some found =>
      obtain ⟨userId, payout, rest'⟩ := found
      obtain ⟨rfl, rfl⟩ := Prod.mk.inj h
      refine .silent (hagg.trans hsame) hdebt rfl hposting ?_
      rw [hagg]
      exact hrest userId payout rest' rfl

theorem SettleStage.advance_refines {market : Market} {outcomes : List Outcome}
    {settled : List Bet} {stage : SettleStage} (hd : m.DistinctIds)
    (hheld : (MemCall.settling market outcomes settled stage).Held m.aggregates.stakes)
    (h : SettleStage.advance env market outcomes settled m stage = (m', call')) :
    (MemCall.settling market outcomes settled stage).Refines m log m' call' := by
  cases stage with
  | lockBets => exact looping_refines hd rfl rfl rfl hheld h
  | findWinner userId payout rest =>
    simp only [SettleStage.advance] at h
    cases hcredit : m.credited env.now userId payout with
    | error e =>
      simp only [hcredit, Prod.mk.injEq] at h
      obtain ⟨rfl, rfl⟩ := h
      exact .silent rfl rfl rfl rfl trivial
    | ok user =>
      simp only [hcredit, Prod.mk.injEq] at h
      obtain ⟨rfl, rfl⟩ := h
      exact .silent rfl rfl rfl rfl hheld
  | saveWinner user rest =>
    have hd' : (m.saveUser user).DistinctIds := ⟨hd.markets, hd.outcomes, hd.bets⟩
    exact looping_refines hd' rfl rfl rfl hheld h
  | dispatch event rest =>
    cases h
    obtain ⟨hdebt, hheld'⟩ := dispatching_settled market outcomes settled rest
      m.aggregates.stakes
    exact .silent rfl rfl hdebt rfl hheld'

theorem MemCall.uploaded_settled (request : UploadRequest) (ext : String) (next : UploadNext)
    (stakes : List Stake) :
    (MemCall.uploaded request ext next).debt = .clear ∧
      (MemCall.uploaded request ext next).Held stakes := by
  cases next with
  | goto phase => exact ⟨rfl, trivial⟩
  | reply answer => cases answer <;> exact ⟨rfl, trivial⟩

theorem UploadRequest.advanceIn_refines {request : UploadRequest} {ext : String}
    {phase : UploadPhase} {next : UploadNext} (hd : m.DistinctIds)
    (h : request.advanceIn env ext m phase = (m', next)) :
    (MemCall.uploading request ext phase).Refines m log m' (.uploaded request ext next) := by
  obtain ⟨hdebt, hheld⟩ := MemCall.uploaded_settled request ext next m'.aggregates.stakes
  cases phase with
  | save copy =>
    obtain ⟨rfl, rfl⟩ := Prod.mk.inj h
    refine ⟨?_, hheld⟩
    rw [hdebt, aggregates_saveCopy hd]
    exact .post copy.owner copy.url?
  | _ =>
    obtain ⟨rfl, rfl⟩ := Prod.mk.inj h
    exact .silent rfl rfl hdebt rfl hheld

/-- Under the conditions on its next step, every call refines the aggregates. -/
theorem MemCall.advance_refines {call : MemCall} (hd : m.DistinctIds)
    (hheld : call.Held m.aggregates.stakes) (hfresh : call.drawsFresh m = true)
    (hfits : call.countFits m = true) (hcur : call.copiesCurrent m = true)
    (h : call.advance build env m = some (m', call')) : call.Refines m log m' call' := by
  cases call with
  | placing actor input phase =>
    exact PlaceBet.advanceIn_refines hd hheld (Option.some.inj h)
  | writing actor input p stage =>
    exact p.advance_refines hd hheld hfresh hfits hcur (Option.some.inj h)
  | resolving marketId winner phase =>
    exact ResolveMarket.advanceIn_refines hd hheld hcur (Option.some.inj h)
  | settling market outcomes settled stage =>
    exact SettleStage.advance_refines hd hheld (Option.some.inj h)
  | uploading request ext phase =>
    simp only [MemCall.advance] at h
    cases hnext : request.advanceIn env ext m phase with
    | mk m₁ next =>
      simp only [hnext, Option.some.injEq, Prod.mk.injEq] at h
      obtain ⟨rfl, rfl⟩ := h
      exact UploadRequest.advanceIn_refines hd hnext
  | returned reply => simp [MemCall.advance] at h

end Settling

end Betsphere
