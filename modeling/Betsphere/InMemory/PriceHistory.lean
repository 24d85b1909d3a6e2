import Betsphere.InMemory.Stores
import Betsphere.Postgres.PriceHistory
set_option autoImplicit false

namespace Betsphere
open PriceHistory

def Mem.priceHistory (m : Mem) (marketId : MarketId) (query : PriceHistoryQuery) :
    List PricePoint :=
  let outcomeIds := (m.outcomesFor marketId).map Outcome.id
  (((m.pricePoints.filter fun p => p.outcomeId ∈ outcomeIds).filter fun p =>
    query.since.all fun since => since ≤ memoryTick * p.recordedAt).filter fun p =>
      query.upTo.all fun upTo => memoryTick * p.recordedAt ≤ upTo).insertionSort fun a b =>
        a.recordedAt ≤ b.recordedAt

section Memory
variable {m : Mem} {marketId : MarketId} {query : PriceHistoryQuery}

theorem Mem.priceHistory_eq : m.priceHistory marketId query =
    (selected memoryTick m.outcomes m.pricePoints marketId query).insertionSort fun a b =>
      a.recordedAt ≤ b.recordedAt := by
  have hfilter : ((m.pricePoints.filter fun p =>
      p.outcomeId ∈ (m.outcomesFor marketId).map Outcome.id).filter fun p =>
        query.since.all fun since => since ≤ memoryTick * p.recordedAt).filter (fun p =>
          query.upTo.all fun upTo => memoryTick * p.recordedAt ≤ upTo) =
      selected memoryTick m.outcomes m.pricePoints marketId query := by
    rw [List.filter_filter, List.filter_filter]
    refine List.filter_congr fun p _ => ?_
    rw [Bool.eq_iff_iff, Bool.and_eq_true, Bool.and_eq_true, decide_eq_true_eq, Bool.and_eq_true,
      ofMarket, decide_eq_true_eq]
    simp only [Mem.outcomesFor, PriceHistoryQuery.inWindow, Bool.and_eq_true, List.mem_map,
      List.mem_filter, decide_eq_true_eq]
    constructor
    · rintro ⟨⟨hto, hsince⟩, o, ⟨ho, hmarket⟩, hid⟩
      exact ⟨⟨o, ho, hid, hmarket⟩, hsince, hto⟩
    · rintro ⟨⟨o, ho, hid, hmarket⟩, hsince, hto⟩
      exact ⟨⟨hto, hsince⟩, o, ⟨ho, hmarket⟩, hid⟩
  exact congrArg (List.insertionSort fun a b : PricePoint => a.recordedAt ≤ b.recordedAt) hfilter

/-- Returning every point is one point for each bucket when no bucket has two. -/
theorem mem_bucketed_iff : Bucketed memoryTick query.interval
    (selected memoryTick m.outcomes m.pricePoints marketId query) (m.priceHistory marketId query) ↔
      ((selected memoryTick m.outcomes m.pricePoints marketId query).map
        (slot memoryTick query.interval)).Nodup := by
  have hperm : (m.priceHistory marketId query).Perm
      (selected memoryTick m.outcomes m.pricePoints marketId query) := by
    rw [Mem.priceHistory_eq]
    exact List.perm_insertionSort _ _
  have hcount : ∀ p, ((m.priceHistory marketId query).countP fun q =>
      q.outcomeId = p.outcomeId ∧ query.interval.bucket (memoryTick * q.recordedAt) =
        query.interval.bucket (memoryTick * p.recordedAt)) =
      ((selected memoryTick m.outcomes m.pricePoints marketId query).map
        (slot memoryTick query.interval)).count (slot memoryTick query.interval p) := by
    intro p
    rw [hperm.countP_eq, List.count, List.countP_map]
    exact List.countP_congr fun q _ => by simp [slot_eq_iff]
  constructor
  · intro h
    refine List.nodup_iff_count_eq_one.mpr fun s hs => ?_
    obtain ⟨p, hp, rfl⟩ := List.mem_map.mp hs
    rw [← hcount]
    exact h.one p hp
  · intro hnodup
    refine ⟨?_, fun p hp => ⟨hperm.mem_iff.mp hp, fun q hq ho hb => ?_⟩, fun p hp => ?_⟩
    · rw [Mem.priceHistory_eq]
      exact List.pairwise_insertionSort _ _
    · obtain rfl := List.inj_on_of_nodup_map hnodup hq (hperm.mem_iff.mp hp)
        ((slot_eq_iff memoryTick).mpr ⟨ho, hb⟩)
      exact le_rfl
    · rw [hcount]
      exact List.nodup_iff_count_eq_one.mp hnodup _ (List.mem_map_of_mem hp)

end Memory

/-- The query answers one point for each bucket just when its bounds are taken and their cut
shows no point; the in-memory store just when no two selected points of an outcome share a
bucket. -/
theorem price_history_bucketed_iff (db : Db) (m : Mem) (marketId : MarketId)
    (query : PriceHistoryQuery) :
    (PgBucketed db marketId query ↔
      ∃ window, query.bind = .ok window ∧ EdgesClear db marketId query window) ∧
    (Bucketed memoryTick query.interval
        (selected memoryTick m.outcomes m.pricePoints marketId query)
        (m.priceHistory marketId query) ↔
      (selected memoryTick m.outcomes m.pricePoints marketId query).Pairwise fun p q =>
        ¬(p.outcomeId = q.outcomeId ∧
          query.interval.bucket (memoryTick * p.recordedAt) =
            query.interval.bucket (memoryTick * q.recordedAt))) := by
  refine ⟨pgBucketed_iff, ?_⟩
  rw [mem_bucketed_iff, List.Nodup, List.pairwise_map]
  simp only [ne_eq, slot_eq_iff]

namespace Sample

/-- The points of one outcome recorded in the first minute, at its start and at `t`. -/
def busyMinute (t : DateTime) : List PricePoint :=
  [⟨⟨3⟩, evens, 0⟩, ⟨⟨3⟩, ⟨6000, by decide⟩, t⟩]

def busyOutcome : Outcome := .new ⟨3⟩ ⟨2⟩ yes ⟨6000, by decide⟩

def busyMem : Mem := ⟨.empty, [], [busyOutcome], [], busyMinute 1000000000, []⟩

end Sample

/-- Memory shows both points, a second apart, the query the later one. -/
theorem both_points_of_a_minute :
    Sample.busyMem.priceHistory ⟨2⟩ ⟨.minute, none, none⟩ = Sample.busyMinute 1000000000 ∧
    PgMarketRepository.priceHistory (PgMarketRepository.latestPoints [Sample.busyOutcome]
      (Sample.busyMinute 1000000) ⟨2⟩ .minute ⟨none, none⟩) =
        [⟨⟨3⟩, ⟨6000, by decide⟩, 1000000⟩] ∧
    ¬Bucketed memoryTick .minute (selected memoryTick Sample.busyMem.outcomes
      Sample.busyMem.pricePoints ⟨2⟩ ⟨.minute, none, none⟩)
      (Sample.busyMem.priceHistory ⟨2⟩ ⟨.minute, none, none⟩) := by
  refine ⟨by decide +kernel, by decide +kernel, fun h => ?_⟩
  have hone := h.one ⟨⟨3⟩, ⟨5000, by decide⟩, 0⟩ (by decide +kernel)
  revert hone
  decide +kernel

end Betsphere
