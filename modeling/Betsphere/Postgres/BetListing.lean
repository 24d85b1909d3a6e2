import Betsphere.Lib.Keyset
import Betsphere.Postgres.Database
set_option autoImplicit false

namespace Betsphere
open MachineInt

inductive BetSort where
  | newest
  | popular
  deriving DecidableEq

inductive BetStatusFilter where
  | any
  | is (status : BetStatus)
  | settled
  deriving DecidableEq

def BetStatusFilter.matches (filter : BetStatusFilter) (status : BetStatus) : Bool :=
  match filter with
  | .any => true
  | .is wanted => status = wanted
  | .settled => status ≠ .active

structure BetFilter where
  status : BetStatusFilter
  sort : BetSort
  limit : Int
  offset : Int
  deriving DecidableEq

def BetFilter.default : BetFilter := ⟨.any, .newest, 20, 0⟩

structure UserStats where
  totalBets : Int
  wins : Int
  losses : Int
  totalVolume : Int
  deriving DecidableEq

/-- Zero while nothing has settled. -/
def UserStats.winRate (stats : UserStats) : Rat :=
  let settled := stats.wins + stats.losses
  if settled = 0 then 0 else stats.wins / settled

namespace PgBetRepository

def orderBy (sort : BetSort) (a b : Bet) : Bool :=
  match sort with
  | .newest => b.createdAt ≤ a.createdAt
  | .popular => b.amount < a.amount ∨ (b.amount = a.amount ∧ b.createdAt ≤ a.createdAt)

instance (sort : BetSort) : Std.Total fun a b => orderBy sort a b = true where
  total a b := by
    simp only [orderBy]
    cases sort with
    | newest => simpa using le_total b.createdAt a.createdAt
    | popular =>
      have htime := le_total b.createdAt a.createdAt
      rcases lt_trichotomy a.amount b.amount with h | h | h
      · simp [h]
      · simpa [h] using htime
      · simp [h]

instance (sort : BetSort) : IsTrans Bet fun a b => orderBy sort a b = true where
  trans a b c hab hbc := by
    simp only [orderBy] at hab hbc ⊢
    cases sort with
    | newest => simpa using le_trans (of_decide_eq_true hbc) (of_decide_eq_true hab)
    | popular =>
      refine decide_eq_true ?_
      rcases of_decide_eq_true hab with hab | ⟨hab, htime⟩
      · rcases of_decide_eq_true hbc with hbc | ⟨hbc, -⟩
        · exact .inl (lt_trans hbc hab)
        · exact .inl (hbc ▸ hab)
      · rcases of_decide_eq_true hbc with hbc | ⟨hbc, htime'⟩
        · exact .inl (hab ▸ hbc)
        · exact .inr ⟨hbc.trans hab, le_trans htime' htime⟩

/-- The SELECT on the rows of `bets` in the order in which it meets them; `condition` is a
column and the value it must have. -/
def list (rows : List Bet) (condition : Option ((Bet → Uuid) × Uuid)) (filter : BetFilter) :
    Except RepositoryError (List Bet) :=
  if filter.limit < 0 then .error (databaseError "LIMIT must not be negative")
  else if filter.offset < 0 then .error (databaseError "OFFSET must not be negative")
  else
    let chosen := rows.filter fun bet =>
      (condition.all fun c => c.1 bet = c.2) && filter.status.matches bet.status
    let ordered := chosen.insertionSort fun a b => orderBy filter.sort a b
    .ok ((ordered.drop filter.offset.toNat).take filter.limit.toNat)

def findByMarket (rows : List Bet) (marketId : MarketId) (filter : BetFilter) :
    Except RepositoryError (List Bet) :=
  list rows (some (fun bet => bet.marketId.uuid, marketId.uuid)) filter

def feed (rows : List Bet) (filter : BetFilter) : Except RepositoryError (List Bet) :=
  list rows none filter

/-- `SUM` yields a NUMERIC; the cast back to BIGINT fails when it does not fit. -/
def statsForUser (rows : List Bet) (userId : UserId) : Except RepositoryError UserStats :=
  let placed := rows.filter fun bet => bet.userId = userId
  let totalVolume := (placed.map Bet.amount).sum
  if InI64 totalVolume then
    .ok ⟨placed.length, placed.countP fun bet => bet.status = .won,
      placed.countP fun bet => bet.status = .lost, totalVolume⟩
  else .error bigintOutOfRange

/-- A bet that the newest page leaves out has a page of bets that are no older. -/
theorem list_newest {rows page : List Bet} {condition : Option ((Bet → Uuid) × Uuid)} {limit : Int}
    (h : list rows condition { BetFilter.default with limit := limit } = .ok page) :
    ∀ bet ∈ rows, (condition.all fun c => c.1 bet = c.2) = true → bet ∈ page ∨
      (page.length = limit.toNat ∧ ∀ e ∈ page, e ∈ rows ∧
        (condition.all fun c => c.1 e = c.2) = true ∧ bet.createdAt ≤ e.createdAt) := by
  intro bet hbet hcondition
  simp only [list, BetFilter.default, BetStatusFilter.matches, Bool.and_true, lt_self_iff_false,
    if_false, Int.toNat_zero, List.drop_zero] at h
  split at h
  · cases h
  · cases h
    by_cases hpage : bet ∈ ((rows.filter fun bet => condition.all fun c => c.1 bet = c.2).insertionSort
        fun a b => orderBy .newest a b).take limit.toNat
    · exact .inl hpage
    · have hsorted := List.pairwise_insertionSort (fun a b : Bet => orderBy .newest a b)
        (rows.filter fun bet => condition.all fun c => c.1 bet = c.2)
      have hchosen : bet ∈ rows.filter fun bet => condition.all fun c => c.1 bet = c.2 :=
        List.mem_filter.mpr ⟨hbet, hcondition⟩
      have hmem := (List.mem_insertionSort fun a b : Bet => orderBy .newest a b).mpr hchosen
      obtain ⟨hfull, hnewer⟩ := Keyset.before_left_out hsorted hmem hpage
      refine .inr ⟨hfull, fun e he => ?_⟩
      have hchosen := (List.mem_insertionSort _).mp (List.mem_of_mem_take he)
      obtain ⟨hrow, hcond⟩ := List.mem_filter.mp hchosen
      exact ⟨hrow, hcond, by simpa [orderBy] using hnewer e he⟩

theorem list_nodup {rows page : List Bet} {condition : Option ((Bet → Uuid) × Uuid)}
    {filter : BetFilter} (h : list rows condition filter = .ok page) (hrows : rows.Nodup) :
    page.Nodup := by
  unfold list at h
  split at h
  · cases h
  · split at h
    · cases h
    · cases h
      have hsorted := (List.perm_insertionSort (fun a b : Bet => orderBy filter.sort a b)
        (rows.filter fun bet => (condition.all fun c => c.1 bet = c.2) &&
          filter.status.matches bet.status)).nodup_iff.mpr (hrows.filter _)
      exact ((List.take_sublist _ _).trans (List.drop_sublist _ _)).nodup hsorted

end PgBetRepository

end Betsphere
