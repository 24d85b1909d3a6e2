import Betsphere.Lib.Ranking
import Betsphere.Postgres.BetListing
set_option autoImplicit false

namespace Betsphere
open MachineInt

/-- The chosen bets in the order of the listing; tied bets stay in the order of `rows`. -/
def BetFilter.ordered (filter : BetFilter) (keep : Bet → Bool) (rows : List Bet) : List Bet :=
  (rows.filter fun bet => keep bet && filter.status.matches bet.status).insertionSort
    fun a b => PgBetRepository.orderBy filter.sort a b

namespace InMemoryBetRepository

def filtered (bets : List Bet) (keep : Bet → Bool) (filter : BetFilter) : List Bet :=
  let chosen := (bets.filter keep).filter fun bet => filter.status.matches bet.status
  let sorted := chosen.insertionSort fun a b => PgBetRepository.orderBy filter.sort a b
  Ranking.page (max filter.offset 0).toNat (max filter.limit 0).toNat sorted

def findByUser (bets : List Bet) (userId : UserId) (filter : BetFilter) : List Bet :=
  filtered bets (fun bet => bet.userId = userId) filter

def findByMarket (bets : List Bet) (marketId : MarketId) (filter : BetFilter) : List Bet :=
  filtered bets (fun bet => bet.marketId = marketId) filter

def feed (bets : List Bet) (filter : BetFilter) : List Bet := filtered bets (fun _ => true) filter

theorem filtered_eq (bets : List Bet) (keep : Bet → Bool) (filter : BetFilter) :
    filtered bets keep filter = Ranking.page (max filter.offset 0).toNat
      (max filter.limit 0).toNat (filter.ordered keep bets) := by
  unfold filtered BetFilter.ordered
  rw [List.filter_filter]
  simp only [Bool.and_comm]

end InMemoryBetRepository

namespace PgBetRepository

theorem list_eq {rows : List Bet} {condition : Option ((Bet → Uuid) × Uuid)} {filter : BetFilter}
    (hlimit : 0 ≤ filter.limit) (hoffset : 0 ≤ filter.offset) :
    list rows condition filter = .ok (Ranking.page filter.offset.toNat filter.limit.toNat
      (filter.ordered (fun bet => condition.all fun c => c.1 bet = c.2) rows)) := by
  rw [list, if_neg (not_lt.mpr hlimit), if_neg (not_lt.mpr hoffset)]
  rfl

end PgBetRepository

end Betsphere
