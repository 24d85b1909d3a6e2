import Betsphere.Lib.Ranking
import Betsphere.Postgres.Database
set_option autoImplicit false

namespace Betsphere
open MachineInt

inductive MarketSort where
  | popular
  | newest
  | volume
  | closingSoon
  deriving DecidableEq

structure MarketFilter where
  sort : MarketSort
  category : Option Text
  status : Option MarketStatus
  search : Option Text
  limit : Int
  offset : Int
  deriving DecidableEq

def MarketFilter.default : MarketFilter := ⟨.popular, none, none, none, 20, 0⟩

/-- The conditions on the status and on the category. -/
def MarketFilter.admits (filter : MarketFilter) (m : Market) : Bool :=
  filter.status.all (fun status => m.status = status) &&
    filter.category.all fun category => m.category = some category

/-- The texts that the SELECT binds are ones the server takes. -/
def MarketFilter.bindable (filter : MarketFilter) : Bool :=
  filter.category.all storable && filter.search.all storable

/-- `closes_at ASC NULLS LAST`. -/
def closesNoLater : Option DateTime → Option DateTime → Bool
  | some x, some y => x ≤ y
  | some _, none => true
  | none, some _ => false
  | none, none => true

namespace PgMarketRepository

/-- `total_volume + participants_count`, before it is checked to be a BIGINT. -/
def activity (m : Market) : Int := m.totalVolume + m.participantsCount

def orderBy (sort : MarketSort) (a b : Market) : Bool :=
  match sort with
  | .popular =>
    activity b < activity a ∨ (activity b = activity a ∧ b.createdAt ≤ a.createdAt)
  | .newest => b.createdAt ≤ a.createdAt
  | .volume =>
    b.totalVolume < a.totalVolume ∨ (b.totalVolume = a.totalVolume ∧ b.createdAt ≤ a.createdAt)
  | .closingSoon =>
    closesNoLater a.closesAt b.closesAt ∧
      (a.closesAt = b.closesAt → b.createdAt ≤ a.createdAt)

/-- `ilike` is the operator on a title and the searched text. -/
def selected (ilike : Text → Text → Bool) (filter : MarketFilter) (m : Market) : Bool :=
  filter.admits m && filter.search.all fun search => ilike m.title.value search

/-- The SELECT on the rows of `markets` in the order in which it meets them. A LIMIT of
zero reads no row, so that no sum is taken. -/
def list (ilike : Text → Text → Bool) (rows : List Market) (filter : MarketFilter) :
    Except RepositoryError (List Market) :=
  let chosen := rows.filter (selected ilike filter)
  if filter.bindable = false then .error invalidEncoding
  else if filter.offset < 0 then .error (databaseError "OFFSET must not be negative")
  else if filter.limit < 0 then .error (databaseError "LIMIT must not be negative")
  else if filter.limit = 0 then .ok []
  else if filter.sort = .popular ∧ ∃ m ∈ chosen, ¬InI64 (activity m) then .error bigintOutOfRange
  else
    let ordered := chosen.insertionSort fun a b => orderBy filter.sort a b
    .ok (Ranking.page filter.offset.toNat filter.limit.toNat ordered)

def featured (rows : List Market) : Except RepositoryError (Option Market) :=
  let opened := rows.filter fun m => m.status = .opened
  if ∃ m ∈ opened, ¬InI64 (activity m) then .error bigintOutOfRange
  else .ok (opened.insertionSort fun a b => orderBy .popular a b).head?

end PgMarketRepository

end Betsphere
