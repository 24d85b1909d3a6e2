import Betsphere.System.WellFormed
set_option autoImplicit false

namespace Betsphere

/-- `SELECT SUM(amount) FROM bets WHERE outcome_id = $1`. -/
def Db.stakesOn (db : Db) (id : OutcomeId) : Int :=
  (db.bets.rows.map fun b => if b.outcomeId = id then b.amount else 0).sum

/-- `SELECT SUM(volume) FROM outcomes WHERE market_id = $1`. -/
def Db.volumeOf (db : Db) (id : MarketId) : Int := ((db.outcomesFor id).map Outcome.volume).sum

def Db.bettors (db : Db) (id : MarketId) : Finset UserId :=
  ((db.bets.rows.filter fun b => b.marketId = id).map Bet.userId).toFinset

structure Db.VolumesExact (db : Db) : Prop where
  outcomes : ∀ o ∈ db.outcomes.rows, o.volume = db.stakesOn o.id
  markets : ∀ m ∈ db.markets.rows, m.totalVolume = db.volumeOf m.id

def Db.ParticipantsExact (db : Db) : Prop :=
  ∀ m ∈ db.markets.rows, m.participantsCount = ((db.bettors m.id).card : Int)

theorem sum_stakeOn {bet : Bet} {os : List Outcome} (hnd : (os.map Outcome.id).Nodup) :
    (os.map fun o => stakeOn bet o.id).sum =
      if bet.outcomeId ∈ os.map Outcome.id then bet.amount else 0 :=
  Table.sum_indicator hnd bet.outcomeId bet.amount

theorem stakeOn_nonneg (bet : Bet) (id : OutcomeId) : 0 ≤ stakeOn bet id := by
  have := bet.amountPositive
  unfold stakeOn
  split <;> omega

/-- An outcome outside the priced ones is not the one backed, so its stake is zero. -/
theorem repriced_volume {bet : Bet} {priced : List Outcome}
    (hmem : bet.outcomeId ∈ priced.map Outcome.id) (o : Outcome) :
    (repriced bet priced o).volume = o.volume + stakeOn bet o.id := by
  unfold repriced
  split
  · rename_i hnone
    have hne : o.id ≠ bet.outcomeId := by
      intro heq
      obtain ⟨p, hp, hpid⟩ := List.mem_map.mp hmem
      have := List.find?_eq_none.mp hnone p hp
      simp [hpid, heq] at this
    simp [stakeOn, hne]
  · rfl

section Placed
variable {db : Db} {bet : Bet} {priced : List Outcome} {points : List PricePoint} {now : DateTime}

theorem stakesOn_placed (h : PlaceEnabled db bet priced points) (id : OutcomeId) :
    (db.placed bet priced points now).stakesOn id = db.stakesOn id + stakeOn bet id := by
  unfold Db.stakesOn
  rw [rows_bets_placed h]
  simp [stakeOn, eq_comm]

theorem volumeOf_placed (hok : (Write.place bet priced points).Ok db) (id : MarketId) :
    (db.placed bet priced points now).volumeOf id =
      db.volumeOf id + if id = bet.marketId then bet.amount else 0 := by
  obtain ⟨-, hids, hmem, -⟩ := hok
  have hpriced : bet.outcomeId ∈ priced.map Outcome.id := hids ▸ hmem
  have hvol : (Outcome.volume ∘ repriced bet priced) =
      fun o => o.volume + stakeOn bet o.id := funext (repriced_volume hpriced)
  have hstake : ((db.outcomesFor id).map fun o => stakeOn bet o.id).sum =
      if bet.outcomeId ∈ db.outcomeIds id then bet.amount else 0 :=
    sum_stakeOn (db.outcomeIds_nodup id)
  have howner : bet.outcomeId ∈ db.outcomeIds id ↔ id = bet.marketId :=
    ⟨fun h => Db.outcomeIds_unique h hmem, fun h => h ▸ hmem⟩
  unfold Db.volumeOf
  rw [outcomesFor_placed, List.map_map, hvol, List.sum_map_add, hstake]
  simp only [howner]

theorem bettors_placed (h : PlaceEnabled db bet priced points) (id : MarketId) :
    (db.placed bet priced points now).bettors id =
      if bet.marketId = id then insert bet.userId (db.bettors id) else db.bettors id := by
  unfold Db.bettors
  rw [rows_bets_placed h, List.filter_append]
  by_cases hid : bet.marketId = id
  · ext u
    simp [hid]
  · simp [hid]

theorem hasBet_iff (db : Db) (userId : UserId) (id : MarketId) :
    db.hasBet userId id = true ↔ userId ∈ db.bettors id := by
  simp [Db.hasBet, Db.bettors, and_comm, and_left_comm, and_assoc]

theorem card_bettors_placed (h : PlaceEnabled db bet priced points) (id : MarketId) :
    (((db.placed bet priced points now).bettors id).card : Int) =
      (db.bettors id).card + if bet.marketId = id then db.joining bet else 0 := by
  rw [bettors_placed h]
  by_cases hid : bet.marketId = id
  · subst hid
    by_cases hmem : bet.userId ∈ db.bettors bet.marketId
    · have hrepeat := (hasBet_iff db bet.userId bet.marketId).mpr hmem
      simp [Db.joining, hrepeat, Finset.insert_eq_self.mpr hmem]
    · have hfirst : db.hasBet bet.userId bet.marketId = false := by
        rw [← Bool.not_eq_true, hasBet_iff]
        exact hmem
      simp [Db.joining, hfirst, Finset.card_insert_of_notMem hmem]
  · simp [hid]

theorem mem_markets_placed {m' : Market} :
    m' ∈ (db.placed bet priced points now).markets.rows ↔ ∃ m ∈ db.markets.rows,
      (if m.id = bet.marketId then
        { m with
          totalVolume := m.totalVolume + bet.amount
          participantsCount := m.participantsCount + db.joining bet }
      else m) = m' := by
  simp [Db.placed, Db.addTotals]

end Placed

theorem sum_rows_sameStake {rows : List Bet} {f : Bet → Bet} (hf : ∀ b, (f b).SameStake b)
    (id : OutcomeId) :
    ((rows.map f).map fun b => if b.outcomeId = id then b.amount else 0).sum =
      (rows.map fun b => if b.outcomeId = id then b.amount else 0).sum := by
  rw [List.map_map]
  congr 1
  refine List.map_congr_left fun b _ => ?_
  simp [(hf b).outcomeId, (hf b).amount]

theorem bettors_settled {db : Db} {market : Market} {settled : List Bet} {now : DateTime}
    (id : MarketId) : (db.settled market settled now).bettors id = db.bettors id := by
  have hcomp : (fun b : Bet => decide (b.marketId = id)) ∘ settledRow settled =
      fun b => decide (b.marketId = id) := by
    funext b
    simp [(settledRow_sameStake settled b).marketId]
  unfold Db.bettors
  rw [rows_bets_settled, List.filter_map, hcomp, List.map_map]
  congr 1
  exact List.map_congr_left fun b _ => (settledRow_sameStake settled b).userId

theorem fresh_market {db : Db} (hwf : db.Wf) {id : MarketId} (h : db.marketById id = none) :
    db.outcomesFor id = [] ∧ db.bettors id = ∅ := by
  have hno : ¬db.HasMarket id := by
    rintro ⟨m, hm⟩
    simp [h] at hm
  constructor
  · refine List.filter_eq_nil_iff.mpr fun o ho => ?_
    have := hwf.outcomeMarket o ho
    simp only [decide_eq_true_eq]
    rintro rfl
    exact hno this
  · have hnil : (db.bets.rows.filter fun b => b.marketId = id) = [] := by
      refine List.filter_eq_nil_iff.mpr fun b hb => ?_
      have := hwf.betMarket b hb
      simp only [decide_eq_true_eq]
      rintro rfl
      exact hno this
    simp [Db.bettors, hnil]

theorem fresh_outcome {db : Db} (hwf : db.Wf) {id : OutcomeId} (h : db.outcomeById id = none) :
    db.stakesOn id = 0 := by
  unfold Db.stakesOn
  refine List.sum_eq_zero fun x hx => ?_
  obtain ⟨b, hb, rfl⟩ := List.mem_map.mp hx
  have hne : b.outcomeId ≠ id := by
    rintro rfl
    obtain ⟨o, ho, hoid⟩ := List.mem_map.mp (hwf.betOutcome b hb)
    exact Table.find?_eq_none.mp h o (Db.mem_outcomesFor.mp ho).1 hoid
  simp [hne]

theorem Db.VolumesExact.done {w : Write} {now : DateTime} {db db' : Db} (hwf : db.Wf)
    (hok : w.Ok db) (h : w.Done db now db') (hv : db.VolumesExact) : db'.VolumesExact := by
  cases h with
  | create market outcomes at' hen =>
    obtain ⟨-, -, htotal, -, hnew⟩ := hok
    constructor
    · intro o ho
      rw [(rows_created hen).1, List.mem_append] at ho
      have hsame : (db.created market outcomes at').stakesOn o.id = db.stakesOn o.id := rfl
      rcases ho with ho | ho
      · exact hsame ▸ hv.outcomes o ho
      · rw [hsame, fresh_outcome hwf (hen.freshOutcomes o ho)]
        exact (hnew o ho).2
    · intro m hm
      have hown : ∀ o ∈ outcomes, o.marketId = market.id := fun o ho => (hnew o ho).1
      rw [(rows_created hen).2, List.mem_append, List.mem_singleton] at hm
      rw [Db.volumeOf, outcomesFor_created hen hown]
      rcases hm with hm | rfl
      · have hne : ¬market.id = m.id := fun h => by
          have := Table.find?_eq_none.mp hen.freshMarket m hm
          exact this h.symm
        rw [if_neg hne, List.append_nil]
        exact hv.markets m hm
      · rw [(fresh_market hwf hen.freshMarket).1, if_pos rfl, List.nil_append, htotal]
        refine (List.sum_eq_zero fun x hx => ?_).symm
        obtain ⟨o, ho, rfl⟩ := List.mem_map.mp hx
        exact (hnew o ho).2
  | place bet priced points hen =>
    have hpriced : bet.outcomeId ∈ priced.map Outcome.id := hok.2.1 ▸ hok.2.2.1
    constructor
    · intro o ho
      obtain ⟨p, hp, rfl⟩ := List.mem_map.mp ho
      rw [repriced_volume hpriced, repriced_id, stakesOn_placed hen, hv.outcomes p hp]
    · intro m' hm'
      obtain ⟨m, hm, rfl⟩ := mem_markets_placed.mp hm'
      have hold := hv.markets m hm
      by_cases hid : m.id = bet.marketId
      · simp only [hid, if_true] at hold ⊢
        rw [volumeOf_placed hok, if_pos rfl, hold]
      · simp only [hid, if_false]
        rw [volumeOf_placed hok, if_neg hid, hold, Int.add_zero]
  | settle market settled hin =>
    constructor
    · intro o ho
      rw [Db.stakesOn, rows_bets_settled, sum_rows_sameStake (settledRow_sameStake settled)]
      exact hv.outcomes o ho
    · intro m' hm'
      obtain ⟨m, hm, rfl⟩ := List.mem_map.mp hm'
      have hold := hv.markets m hm
      by_cases hid : m.id = market.id
      · simp only [hid, if_true] at hold ⊢
        exact hold
      · simp only [hid, if_false]
        exact hold
  | save cause user hun => exact ⟨hv.outcomes, hv.markets⟩

theorem Db.VolumesExact.nonNegative {db : Db} (h : db.VolumesExact) (id : MarketId) :
    Pricing.NonNegative (db.outcomesFor id) := by
  intro o ho
  rw [h.outcomes o (Db.mem_outcomesFor.mp ho).1]
  refine List.sum_nonneg fun x hx => ?_
  obtain ⟨b, -, rfl⟩ := List.mem_map.mp hx
  have := b.amountPositive
  split <;> omega

theorem Db.ParticipantsExact.done {w : Write} {now : DateTime} {db db' : Db} (hwf : db.Wf)
    (hok : w.Ok db) (h : w.Done db now db') (hp : db.ParticipantsExact) :
    db'.ParticipantsExact := by
  cases h with
  | create market outcomes at' hen =>
    intro m hm
    have hsame : (db.created market outcomes at').bettors m.id = db.bettors m.id := rfl
    rw [(rows_created hen).2, List.mem_append, List.mem_singleton] at hm
    rw [hsame]
    rcases hm with hm | rfl
    · exact hp m hm
    · rw [(fresh_market hwf hen.freshMarket).2, hok.2.2.2.1]
      rfl
  | place bet priced points hen =>
    intro m' hm'
    obtain ⟨m, hm, rfl⟩ := mem_markets_placed.mp hm'
    have hold := hp m hm
    by_cases hid : m.id = bet.marketId
    · simp only [hid, if_true] at hold ⊢
      rw [card_bettors_placed hen, if_pos rfl, hold]
    · simp only [hid, if_false]
      rw [card_bettors_placed hen, if_neg (fun h => hid h.symm), hold, Int.add_zero]
  | settle market settled hin =>
    intro m' hm'
    obtain ⟨m, hm, rfl⟩ := List.mem_map.mp hm'
    have hold := hp m hm
    rw [bettors_settled]
    by_cases hid : m.id = market.id
    · simp only [hid, if_true] at hold ⊢
      exact hold
    · simp only [hid, if_false]
      exact hold
  | save cause user hun => exact hp

/-- No stake is lost: volumes and totals are the sums of the bets in every committed state. -/
theorem volumes_exact {build : MachineInt.Build} {as : List Act} {s : Sys}
    (h : Transition.run (Sys.step build) Sys.init as = some s) : s.db.VolumesExact := by
  have hinit : Db.empty.VolumesExact := ⟨by simp [Db.empty], by simp [Db.empty]⟩
  exact Sys.tables_run hinit (fun w now db db' hwf hok hd hv => hv.done hwf hok hd) h

theorem volumes_exact_overlap :
    (Sample.state Sample.overlap).db.VolumesExact :=
  volumes_exact (Sample.run_state (by decide +kernel))

theorem Sys.participants_run {build : MachineInt.Build} {as : List Act} {s : Sys}
    (h : Transition.run (Sys.step build) Sys.init as = some s) : s.db.ParticipantsExact := by
  have hinit : Db.empty.ParticipantsExact := by simp [Db.ParticipantsExact, Db.empty]
  exact Sys.tables_run hinit (fun w now db db' hwf hok hd hp => hp.done hwf hok hd) h

end Betsphere
