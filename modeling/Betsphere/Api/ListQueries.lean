import Betsphere.Domain.Names
import Betsphere.InMemory.BetListing
import Betsphere.InMemory.MarketListing
set_option autoImplicit false

namespace Betsphere
open MachineInt
open PgMarketRepository (activity orderBy)
open InMemoryMarketRepository (noLater rank popularity)

namespace ListPage

def defaultLimit : Int := 20
def maxLimit : Int := 100

/-- `limit.unwrap_or(DEFAULT_LIMIT).clamp(1, MAX_LIMIT)`. -/
def limitOf (limit : Option Int) : Int := min (max (limit.getD defaultLimit) 1) maxLimit

/-- `page.unwrap_or(1).max(1)`. -/
def pageOf (page : Option Int) : Int := max (page.getD 1) 1

/-- `(page - 1) * limit`. -/
def offsetOf (build : Build) (page limit : Option Int) : Except Panic Int := do
  let before ← sub64 build (pageOf page) 1
  mul64 build before (limitOf limit)

/-- The offset is an `i64`. -/
def Fits (page limit : Option Int) : Prop := (pageOf page - 1) * limitOf limit ≤ i64Max

instance (page limit : Option Int) : Decidable (Fits page limit) :=
  inferInstanceAs (Decidable (_ ≤ _))

/-- The sort and the status are read before the offset is computed. -/
def filterFrom {σ τ φ : Type} (build : Build) (sort : Except ApplicationError σ)
    (status : Except ApplicationError τ) (page limit : Option Int)
    (filter : σ → τ → Int → Int → φ) : Except Panic (Except ApplicationError φ) :=
  match sort, status with
  | .error e, _ => .ok (.error e)
  | .ok _, .error e => .ok (.error e)
  | .ok sort, .ok status => do
    let offset ← offsetOf build page limit
    .ok (.ok (filter sort status (limitOf limit) offset))

def Known {σ τ : Type} (sort : Except ApplicationError σ) (status : Except ApplicationError τ) :
    Prop := sort.isOk ∧ status.isOk

instance {σ τ : Type} (sort : Except ApplicationError σ) (status : Except ApplicationError τ) :
    Decidable (Known sort status) := inferInstanceAs (Decidable (_ ∧ _))

section Offsets
variable {build : Build} {page limit : Option Int}

theorem limitOf_bounds (limit : Option Int) : 1 ≤ limitOf limit ∧ limitOf limit ≤ 100 := by
  unfold limitOf maxLimit
  omega

theorem pageOf_pos (page : Option Int) : 1 ≤ pageOf page := by
  unfold pageOf
  omega

theorem offset_bounds (page limit : Option Int) : 0 ≤ pageOf page - 1 ∧
    pageOf page - 1 ≤ (pageOf page - 1) * limitOf limit := by
  have hpage := pageOf_pos page
  have hlimit := (limitOf_bounds limit).1
  have hbefore : 0 ≤ pageOf page - 1 := by omega
  exact ⟨hbefore, le_mul_of_one_le_right hbefore hlimit⟩

theorem offsetOf_of_fits (build : Build) (h : Fits page limit) :
    offsetOf build page limit = .ok ((pageOf page - 1) * limitOf limit) := by
  obtain ⟨hbefore, hgrow⟩ := offset_bounds page limit
  unfold Fits at h
  have hsub : InI64 (pageOf page - 1) := by
    unfold InI64 i64Min
    omega
  have hmul : InI64 ((pageOf page - 1) * limitOf limit) := by
    unfold InI64 i64Min
    omega
  simp only [offsetOf, sub64, mul64, settle64_of_inI64 build hsub, settle64_of_inI64 build hmul,
    bind, Except.bind]

theorem offsetOf_inI64 {offset : Int} (h : offsetOf build page limit = .ok offset) :
    InI64 offset := by
  simp only [offsetOf, bind, Except.bind] at h
  cases hsub : sub64 build (pageOf page) 1 with
  | error e => simp [hsub] at h
  | ok before =>
    rw [hsub] at h
    exact settle64_inI64 h

theorem offsetOf_debug_iff :
    (∃ offset, offsetOf .debug page limit = .ok offset) ↔ Fits page limit := by
  constructor
  · rintro ⟨offset, h⟩
    simp only [offsetOf, bind, Except.bind] at h
    cases hsub : sub64 .debug (pageOf page) 1 with
    | error e => simp [hsub] at h
    | ok before =>
      rw [hsub] at h
      obtain ⟨-, rfl⟩ := settle64_debug_ok hsub
      exact (settle64_debug_ok h).1.2
  · intro h
    exact ⟨_, offsetOf_of_fits .debug h⟩

variable {σ τ φ : Type} {sort : Except ApplicationError σ} {status : Except ApplicationError τ}
  {filter : σ → τ → Int → Int → φ}

theorem known_iff : Known sort status ↔ ∃ x y, sort = .ok x ∧ status = .ok y := by
  unfold Known
  cases sort <;> cases status <;> simp [Except.isOk, Except.toBool]

theorem filterFrom_unknown (build : Build) (h : ¬Known sort status) :
    ∃ e, filterFrom build sort status page limit filter = .ok (.error e) := by
  cases sort with
  | error e => exact ⟨e, rfl⟩
  | ok x =>
    cases status with
    | error e => exact ⟨e, rfl⟩
    | ok y => exact absurd ⟨rfl, rfl⟩ h

theorem filterFrom_of_fits (build : Build) (x : σ) (y : τ) (h : Fits page limit) :
    filterFrom build (.ok x) (.ok y) page limit filter =
      .ok (.ok (filter x y (limitOf limit) ((pageOf page - 1) * limitOf limit))) := by
  simp only [filterFrom, offsetOf_of_fits build h, bind, Except.bind]

theorem filterFrom_ok {f : φ} (h : filterFrom build sort status page limit filter = .ok (.ok f)) :
    ∃ x y offset, sort = .ok x ∧ status = .ok y ∧ InI64 offset ∧
      f = filter x y (limitOf limit) offset := by
  cases sort with
  | error e => cases h
  | ok x =>
    cases status with
    | error e => cases h
    | ok y =>
      simp only [filterFrom, bind, Except.bind] at h
      cases hoffset : offsetOf build page limit with
      | error e => simp [hoffset] at h
      | ok offset =>
        simp only [hoffset, Except.ok.injEq] at h
        exact ⟨x, y, offset, rfl, rfl, offsetOf_inI64 hoffset, h.symm⟩

theorem filterFrom_known (h : Known sort status) {e : ApplicationError} :
    filterFrom build sort status page limit filter ≠ .ok (.error e) := by
  obtain ⟨x, y, rfl, rfl⟩ := known_iff.mp h
  simp only [filterFrom, bind, Except.bind]
  cases offsetOf build page limit <;> simp

theorem fits_of_filterFrom_debug (h : Known sort status) {built : Except ApplicationError φ}
    (hbuilt : filterFrom .debug sort status page limit filter = .ok built) : Fits page limit := by
  obtain ⟨x, y, rfl, rfl⟩ := known_iff.mp h
  simp only [filterFrom, bind, Except.bind] at hbuilt
  cases hoffset : offsetOf .debug page limit with
  | error e => simp [hoffset] at hbuilt
  | ok offset => exact offsetOf_debug_iff.mp ⟨offset, hoffset⟩

end Offsets

end ListPage

structure BetListQuery where
  sort : Option Text
  status : Option Text
  page : Option Int
  limit : Option Int
  deriving DecidableEq

namespace BetListQuery

def sortBy (q : BetListQuery) : Except ApplicationError BetSort :=
  match q.sort with
  | none => .ok .newest
  | some s =>
    if s = "newest".toList then .ok .newest
    else if s = "popular".toList then .ok .popular
    else .error (.domain (.validation ("unknown sort: " ++ String.ofList s)))

def statusFilter (q : BetListQuery) : Except ApplicationError BetStatusFilter :=
  match q.status.filter (· ≠ []) with
  | none => .ok .any
  | some s =>
    if s = "settled".toList then .ok .settled
    else match BetStatus.fromStr s with
      | .ok status => .ok (.is status)
      | .error e => .error (.domain e)

def intoFilter (build : Build) (q : BetListQuery) :
    Except Panic (Except ApplicationError BetFilter) :=
  ListPage.filterFrom build q.sortBy q.statusFilter q.page q.limit
    fun sort status limit offset => ⟨status, sort, limit, offset⟩

def Accepted (q : BetListQuery) : Prop := ListPage.Known q.sortBy q.statusFilter

instance (q : BetListQuery) : Decidable q.Accepted := inferInstanceAs (Decidable (_ ∧ _))

end BetListQuery

namespace ListPage
variable {α : Type}

/-- The elements numbered `(p - 1) * limit` up to `p * limit - 1`. -/
def numbered (page : Option Int) (limit : Int) (l : List α) : List α :=
  Ranking.page ((pageOf page - 1) * limit).toNat limit.toNat l

theorem numbered_end_to_end {limit : Int} (hlimit : 0 ≤ limit) (p : Nat) (l : List α) :
    ((List.range p).map fun i : Nat => numbered (some ((i : Int) + 1)) limit l).flatten =
      l.take (p * limit.toNat) := by
  rw [← Ranking.page_flatten]
  refine congrArg List.flatten (List.map_congr_left fun i _ => ?_)
  have hpage : pageOf (some ((i : Int) + 1)) - 1 = i := by simp [pageOf]
  have hoffset : ((i : Int) * limit).toNat = i * limit.toNat := by
    rw [Int.toNat_mul (Int.natCast_nonneg i) hlimit, Int.toNat_natCast]
  rw [numbered, hpage, hoffset]

/-- Pages of one list, each taken by itself, are the list from its beginning. -/
theorem end_to_end {limit : Int} (hlimit : 0 ≤ limit) {n : Nat} {shown : Nat → List α} {l : List α}
    (h : ∀ i < n, shown i = numbered (some ((i : Int) + 1)) limit l) :
    ((List.range n).map shown).flatten = l.take (n * limit.toNat) := by
  rw [← numbered_end_to_end hlimit]
  exact congrArg List.flatten (List.map_congr_left fun i hi => h i (List.mem_range.mp hi))

theorem page_wrong {page limit : Option Int} {offset : Int} (hoffset : offset ≤ i64Max)
    (hfits : ¬Fits page limit) {l : List α} (hlen : l.length = (max offset 0).toNat + 1) :
    Ranking.page (max offset 0).toNat (limitOf limit).toNat l ≠
      numbered page (limitOf limit) l := by
  have hlimit := (limitOf_bounds limit).1
  unfold Fits at hfits
  have hmax : 0 ≤ i64Max := by decide
  intro heq
  have hget := congrArg (·[0]?) heq
  have hpos : 0 < (limitOf limit).toNat := by omega
  simp only [numbered, Ranking.get_page, if_pos hpos, Nat.add_zero] at hget
  rw [List.getElem?_eq_getElem (by omega), List.getElem?_eq_none (by omega)] at hget
  cases hget

end ListPage

namespace BetListQuery
variable {build : Build} {q : BetListQuery} {condition : Option ((Bet → Uuid) × Uuid)}
  {rows : List Bet}

def chosen (status : BetStatusFilter) (condition : Option ((Bet → Uuid) × Uuid))
    (rows : List Bet) : List Bet :=
  rows.filter fun bet => (condition.all fun c => c.1 bet = c.2) && status.matches bet.status

def listed (q : BetListQuery) (condition : Option ((Bet → Uuid) × Uuid)) (rows : List Bet) :
    List Bet :=
  match q.sortBy, q.statusFilter with
  | .ok sort, .ok status => (chosen status condition rows).insertionSort
      fun a b => PgBetRepository.orderBy sort a b
  | _, _ => []

/-- The query does not panic, and its answer in either backend is the page asked for, in
Postgres in whatever order the SELECT meets the rows. -/
def PagesTile (build : Build) (q : BetListQuery) (condition : Option ((Bet → Uuid) × Uuid))
    (rows : List Bet) : Prop :=
  ∃ built, q.intoFilter build = .ok built ∧ ∀ filter, built = .ok filter →
    1 ≤ filter.limit ∧ filter.limit ≤ 100 ∧
    InMemoryBetRepository.filtered rows (fun bet => condition.all fun c => c.1 bet = c.2) filter =
      ListPage.numbered q.page filter.limit (q.listed condition rows) ∧
    ∀ scan, scan.Perm rows → PgBetRepository.list scan condition filter =
      .ok (ListPage.numbered q.page filter.limit (q.listed condition rows))

/-- No bets that the ORDER BY leaves tied meet on the page. -/
def TiesApart (q : BetListQuery) (condition : Option ((Bet → Uuid) × Uuid))
    (rows : List Bet) : Prop :=
  ∀ sort status, q.sortBy = .ok sort → q.statusFilter = .ok status →
    Ranking.Untied (fun a b => PgBetRepository.orderBy sort a b = true)
      ((ListPage.pageOf q.page - 1) * ListPage.limitOf q.limit).toNat
      (ListPage.limitOf q.limit).toNat (chosen status condition rows)

/-- One of the answers Postgres may give to the query. -/
def Answers (build : Build) (q : BetListQuery) (condition : Option ((Bet → Uuid) × Uuid))
    (rows shown : List Bet) : Prop :=
  ∃ filter scan, q.intoFilter build = .ok (.ok filter) ∧ scan.Perm rows ∧
    PgBetRepository.list scan condition filter = .ok shown

def onPage (q : BetListQuery) (i : Nat) : BetListQuery := { q with page := some ((i : Int) + 1) }

theorem listed_eq {sort : BetSort} {status : BetStatusFilter} (hsort : q.sortBy = .ok sort)
    (hstatus : q.statusFilter = .ok status) : q.listed condition rows =
      (chosen status condition rows).insertionSort
        fun a b => PgBetRepository.orderBy sort a b := by
  simp only [listed, hsort, hstatus]

theorem pagesTile_of_fits (build : Build) (hnd : rows.Nodup)
    (h : q.Accepted → ListPage.Fits q.page q.limit ∧ q.TiesApart condition rows) :
    PagesTile build q condition rows := by
  by_cases haccepted : q.Accepted
  · obtain ⟨sort, status, hsort, hstatus⟩ := ListPage.known_iff.mp haccepted
    obtain ⟨hfits, hapart⟩ := h haccepted
    obtain ⟨hlow, hhigh⟩ := ListPage.limitOf_bounds q.limit
    obtain ⟨hbefore, hgrow⟩ := ListPage.offset_bounds q.page q.limit
    have hlimit : 0 ≤ ListPage.limitOf q.limit := by omega
    have hoffset := hbefore.trans hgrow
    have hsame := (Ranking.page_choose_iff hnd (by omega)).mpr (hapart sort status hsort hstatus)
    refine ⟨_, by rw [intoFilter, hsort, hstatus,
      ListPage.filterFrom_of_fits build sort status hfits], ?_⟩
    rintro filter ⟨rfl⟩
    rw [listed_eq hsort hstatus]
    refine ⟨hlow, hhigh, ?_, fun scan hscan => ?_⟩
    · rw [InMemoryBetRepository.filtered_eq, max_eq_left hoffset, max_eq_left hlimit]
      rfl
    · rw [PgBetRepository.list_eq hlimit hoffset]
      exact congrArg Except.ok (hsame scan hscan)
  · obtain ⟨e, he⟩ := ListPage.filterFrom_unknown build haccepted
    exact ⟨_, he, by rintro filter ⟨⟩⟩

theorem Answers.of_tile {shown : List Bet} {i : Nat}
    (h : (q.onPage i).Answers build condition rows shown)
    (htile : (q.onPage i).PagesTile build condition rows) :
    shown = ListPage.numbered (some ((i : Int) + 1)) (ListPage.limitOf q.limit)
      (q.listed condition rows) := by
  obtain ⟨filter, scan, hfilter, hscan, hshown⟩ := h
  obtain ⟨built, hbuilt, hpage⟩ := htile
  rw [hfilter, Except.ok.injEq] at hbuilt
  obtain ⟨-, -, -, hpg⟩ := hpage filter hbuilt.symm
  obtain ⟨sort, status, offset, -, -, -, rfl⟩ := ListPage.filterFrom_ok hfilter
  rw [hpg scan hscan] at hshown
  exact (Except.ok.inj hshown).symm

theorem fits_of_pagesTile_debug (hnd : rows.Nodup) (h : PagesTile .debug q condition rows)
    (haccepted : q.Accepted) :
    ListPage.Fits q.page q.limit ∧ q.TiesApart condition rows := by
  obtain ⟨built, hbuilt, htile⟩ := h
  have hfits := ListPage.fits_of_filterFrom_debug haccepted hbuilt
  refine ⟨hfits, fun sort status hsort hstatus => ?_⟩
  rw [intoFilter, hsort, hstatus, ListPage.filterFrom_of_fits .debug sort status hfits,
    Except.ok.injEq] at hbuilt
  obtain ⟨hlow, -, -, hpg⟩ := htile _ hbuilt.symm
  obtain ⟨hbefore, hgrow⟩ := ListPage.offset_bounds q.page q.limit
  have hlimit : 0 < ListPage.limitOf q.limit := hlow
  refine (Ranking.page_choose_iff hnd (by omega)).mp fun scan hscan => ?_
  have hpage := hpg scan hscan
  rw [listed_eq hsort hstatus, PgBetRepository.list_eq hlimit.le (hbefore.trans hgrow)] at hpage
  exact Except.ok.inj hpage

def placedInTurn (bet : Bet) (n : Nat) : List Bet :=
  (List.range n).map fun i => { bet with id := ⟨BitVec.ofNat 128 i⟩, createdAt := (i : Int) }

theorem exists_matching (status : BetStatusFilter) :
    ∃ bet : Bet, status.matches bet.status = true := by
  let bet : BetStatus → Bet := fun status =>
    ⟨⟨1⟩, ⟨2⟩, ⟨3⟩, ⟨4⟩, 1, Price.minTick, status, none, 0, by decide, by decide⟩
  cases status with
  | any => exact ⟨bet .active, rfl⟩
  | is wanted => exact ⟨bet wanted, by simp [BetStatusFilter.matches, bet]⟩
  | settled => exact ⟨bet .won, rfl⟩

theorem placedInTurn_ids (bet : Bet) {n : Nat} (hn : n ≤ 2 ^ 128) :
    ((placedInTurn bet n).map Bet.id).Nodup := by
  unfold placedInTurn
  rw [List.map_map]
  refine List.nodup_range.map_on fun i hi j hj heq => ?_
  have hi := List.mem_range.mp hi
  have hj := List.mem_range.mp hj
  have hval := congrArg (fun id : BetId => id.uuid.toNat) heq
  simp only [Function.comp_apply, BitVec.toNat_ofNat] at hval
  rwa [Nat.mod_eq_of_lt (hi.trans_le hn), Nat.mod_eq_of_lt (hj.trans_le hn)] at hval

theorem placedInTurn_times (bet : Bet) (n : Nat) :
    ((placedInTurn bet n).map Bet.createdAt).Nodup := by
  unfold placedInTurn
  rw [List.map_map]
  exact List.nodup_range.map_on fun i _ j _ heq => Int.ofNat.inj heq

theorem fits_of_pagesTile (h : ∀ bets : Table Bet.id, (bets.rows.map Bet.createdAt).Nodup →
    PagesTile build q none bets.rows) (haccepted : q.Accepted) :
    ListPage.Fits q.page q.limit := by
  by_contra hfits
  obtain ⟨built, hbuilt, -⟩ := h .empty (by simp)
  cases built with
  | error e => exact ListPage.filterFrom_known haccepted hbuilt
  | ok filter =>
    obtain ⟨sort, status, offset, hsort, hstatus, hoffset, rfl⟩ := ListPage.filterFrom_ok hbuilt
    obtain ⟨bet, hbet⟩ := exists_matching status
    have hfew : (max offset 0).toNat + 1 ≤ 2 ^ 128 := by
      have hmax := hoffset.2
      unfold i64Max at hmax
      omega
    obtain ⟨built, hbuilt', htile⟩ :=
      h ⟨_, placedInTurn_ids bet hfew⟩ (placedInTurn_times bet _)
    rw [hbuilt, Except.ok.injEq] at hbuilt'
    obtain ⟨hlow, -, hpage, -⟩ := htile _ hbuilt'.symm
    have hmax : max (ListPage.limitOf q.limit) 0 = ListPage.limitOf q.limit :=
      max_eq_left (le_trans (by decide) hlow)
    rw [InMemoryBetRepository.filtered_eq, hmax, listed_eq hsort hstatus] at hpage
    refine ListPage.page_wrong hoffset.2 hfits ?_ hpage
    have hall : chosen status none (placedInTurn bet ((max offset 0).toNat + 1)) =
        placedInTurn bet ((max offset 0).toNat + 1) := by
      refine List.filter_eq_self.mpr fun b hb => ?_
      obtain ⟨i, -, rfl⟩ := List.mem_map.mp hb
      simpa using hbet
    change ((chosen status none (placedInTurn bet _)).insertionSort _).length = _
    rw [hall, List.length_insertionSort, placedInTurn, List.length_map, List.length_range]

theorem tiesApart_of_times (hnd : rows.Nodup) (htimes : (rows.map Bet.createdAt).Nodup) :
    q.TiesApart condition rows := by
  intro sort status _ _
  refine Ranking.untied_of_strict (hnd.filter _) (fun a ha b hb hab hba => ?_) _ _
  have ha := (List.mem_filter.mp ha).1
  have hb := (List.mem_filter.mp hb).1
  refine List.inj_on_of_nodup_map htimes hb ha ?_
  cases sort with
  | newest =>
    simp only [PgBetRepository.orderBy, decide_eq_true_eq] at hab hba
    exact le_antisymm hab hba
  | popular =>
    simp only [PgBetRepository.orderBy, decide_eq_true_eq] at hab hba
    rcases hab with hlt | ⟨hsame, hle⟩
    · rcases hba with hlt' | ⟨hsame, -⟩
      · exact absurd hlt' (not_lt.mpr hlt.le)
      · exact absurd hsame hlt.ne'
    · rcases hba with hlt | ⟨-, hle'⟩
      · exact absurd hsame hlt.ne'
      · exact le_antisymm hle hle'

end BetListQuery

structure ListQuery where
  sort : Option Text
  category : Option Text
  status : Option Text
  search : Option Text
  page : Option Int
  limit : Option Int
  deriving DecidableEq

namespace ListQuery

def sortBy (q : ListQuery) : Except ApplicationError MarketSort :=
  match q.sort with
  | none => .ok .popular
  | some s =>
    if s = "popular".toList then .ok .popular
    else if s = "newest".toList then .ok .newest
    else if s = "volume".toList then .ok .volume
    else if s = "closing_soon".toList then .ok .closingSoon
    else .error (.domain (.validation ("unknown sort: " ++ String.ofList s)))

def statusFilter (q : ListQuery) : Except ApplicationError (Option MarketStatus) :=
  match q.status with
  | none => .ok none
  | some s =>
    match MarketStatus.fromStr s with
    | .ok status => .ok (some status)
    | .error e => .error (.domain e)

def filterWith (q : ListQuery) (sort : MarketSort) (status : Option MarketStatus)
    (limit offset : Int) : MarketFilter :=
  ⟨sort, q.category.filter (· ≠ []), status, q.search.filter (· ≠ []), limit, offset⟩

def intoFilter (build : Build) (q : ListQuery) :
    Except Panic (Except ApplicationError MarketFilter) :=
  ListPage.filterFrom build q.sortBy q.statusFilter q.page q.limit q.filterWith

def Accepted (q : ListQuery) : Prop := ListPage.Known q.sortBy q.statusFilter

instance (q : ListQuery) : Decidable q.Accepted := inferInstanceAs (Decidable (_ ∧ _))

end ListQuery

section Markets
variable {build : Build} {lowercase : Text → Text} {ilike : Text → Text → Bool}
  {q : ListQuery} {ms : List Market} {filter : MarketFilter}

def MarketFilter.ordered (filter : MarketFilter) (lowercase : Text → Text) (ms : List Market) :
    List Market :=
  (ms.filter (InMemoryMarketRepository.selected lowercase filter)).insertionSort
    fun a b => noLater activity filter.sort a b

def MarketFilter.pgOrdered (filter : MarketFilter) (ilike : Text → Text → Bool)
    (rows : List Market) : List Market :=
  (rows.filter (PgMarketRepository.selected ilike filter)).insertionSort
    fun a b => orderBy filter.sort a b

/-- No sum that a popular listing takes of the markets leaves `i64`. -/
def MarketFilter.SumsFit (filter : MarketFilter) (lowercase : Text → Text)
    (ilike : Text → Text → Bool) (ms : List Market) : Prop :=
  filter.sort = .popular →
    (∀ m ∈ ms.filter (PgMarketRepository.selected ilike filter), ActivityFits m) ∧
    (2 ≤ (ms.filter (InMemoryMarketRepository.selected lowercase filter)).length →
      ∀ m ∈ ms.filter (InMemoryMarketRepository.selected lowercase filter), ActivityFits m)

theorem insertionSort_short {α : Type} (r : α → α → Prop) [DecidableRel r] {l : List α}
    (h : l.length < 2) : l.insertionSort r = l := by
  match l, h with
  | [], _ => rfl
  | [_], _ => rfl

theorem insertionSort_congr {α : Type} {r s : α → α → Prop} [DecidableRel r] [DecidableRel s]
    {l : List α} (h : ∀ a ∈ l, ∀ b ∈ l, r a b ↔ s a b) : l.insertionSort r = l.insertionSort s := by
  have hmap := List.map_insertionSort (r := r) (s := s) id l h
  rwa [List.map_id, List.map_id] at hmap

theorem inMemory_list_of_sumsFit (hlimit : 0 ≤ filter.limit) (hoffset : 0 ≤ filter.offset)
    (hfits : filter.SumsFit lowercase ilike ms) :
    InMemoryMarketRepository.list build lowercase ms filter =
      .ok (Ranking.page filter.offset.toNat filter.limit.toNat (filter.ordered lowercase ms)) := by
  have hno : ¬(filter.sort = .popular ∧
      2 ≤ (ms.filter (InMemoryMarketRepository.selected lowercase filter)).length ∧
      ∃ m ∈ ms.filter (InMemoryMarketRepository.selected lowercase filter),
        popularity build m = .error .overflow) := by
    rintro ⟨hsort, htwo, m, hm, herr⟩
    exact (popularity_error.mp herr).2 ((hfits hsort).2 htwo m hm)
  have hsame : (ms.filter (InMemoryMarketRepository.selected lowercase filter)).insertionSort
      (fun a b => noLater (rank build) filter.sort a b) = filter.ordered lowercase ms := by
    unfold MarketFilter.ordered
    by_cases htwo : 2 ≤ (ms.filter (InMemoryMarketRepository.selected lowercase filter)).length
    · refine insertionSort_congr fun a ha b hb => ?_
      rw [noLater_rank (fun hsort => (hfits hsort).2 htwo a ha)
        fun hsort => (hfits hsort).2 htwo b hb]
    · rw [insertionSort_short _ (not_le.mp htwo), insertionSort_short _ (not_le.mp htwo)]
  simp only [InMemoryMarketRepository.list, if_neg hno, max_eq_left hlimit, max_eq_left hoffset,
    hsame]

theorem pg_list_of_sumsFit (hbind : filter.bindable = true) (hlimit : 0 < filter.limit)
    (hoffset : 0 ≤ filter.offset)
    (hfits : filter.sort = .popular →
      ∀ m ∈ ms.filter (PgMarketRepository.selected ilike filter), ActivityFits m) :
    PgMarketRepository.list ilike ms filter =
      .ok (Ranking.page filter.offset.toNat filter.limit.toNat (filter.pgOrdered ilike ms)) := by
  have hno : ¬(filter.sort = .popular ∧
      ∃ m ∈ ms.filter (PgMarketRepository.selected ilike filter), ¬InI64 (activity m)) := by
    rintro ⟨hsort, m, hm, hout⟩
    exact hout (hfits hsort m hm)
  simp only [PgMarketRepository.list, hbind, Bool.true_eq_false, if_false, if_neg hno,
    if_neg (not_lt.mpr hoffset), if_neg (not_lt.mpr hlimit.le), if_neg hlimit.ne',
    MarketFilter.pgOrdered]

namespace ListQuery

/-- Which markets are chosen does not depend on the page. -/
def SumsFit (lowercase : Text → Text) (ilike : Text → Text → Bool) (q : ListQuery)
    (ms : List Market) : Prop :=
  ∀ sort status, q.sortBy = .ok sort → q.statusFilter = .ok status →
    (q.filterWith sort status 1 0).SumsFit lowercase ilike ms

/-- The texts of the query hold no NUL. -/
def Bindable (q : ListQuery) : Prop :=
  q.category.all storable = true ∧ q.search.all storable = true

def listed (lowercase : Text → Text) (q : ListQuery) (ms : List Market) : List Market :=
  match q.sortBy, q.statusFilter with
  | .ok sort, .ok status => (q.filterWith sort status 1 0).ordered lowercase ms
  | _, _ => []

def pgListed (ilike : Text → Text → Bool) (q : ListQuery) (ms : List Market) : List Market :=
  match q.sortBy, q.statusFilter with
  | .ok sort, .ok status => (q.filterWith sort status 1 0).pgOrdered ilike ms
  | _, _ => []

/-- As for bets; the in-memory sort may panic as well. -/
def PagesTile (build : Build) (lowercase : Text → Text) (ilike : Text → Text → Bool)
    (q : ListQuery) (ms : List Market) : Prop :=
  ∃ built, q.intoFilter build = .ok built ∧ ∀ filter, built = .ok filter →
    1 ≤ filter.limit ∧ filter.limit ≤ 100 ∧
    InMemoryMarketRepository.list build lowercase ms filter =
      .ok (ListPage.numbered q.page filter.limit (q.listed lowercase ms)) ∧
    ∀ scan, scan.Perm ms → PgMarketRepository.list ilike scan filter =
      .ok (ListPage.numbered q.page filter.limit (q.pgListed ilike ms))

def TiesApart (ilike : Text → Text → Bool) (q : ListQuery) (ms : List Market) : Prop :=
  ∀ sort status, q.sortBy = .ok sort → q.statusFilter = .ok status →
    Ranking.Untied (fun a b => orderBy sort a b = true)
      ((ListPage.pageOf q.page - 1) * ListPage.limitOf q.limit).toNat
      (ListPage.limitOf q.limit).toNat
      (ms.filter (PgMarketRepository.selected ilike (q.filterWith sort status 1 0)))

def Answers (build : Build) (ilike : Text → Text → Bool) (q : ListQuery)
    (ms shown : List Market) : Prop :=
  ∃ filter scan, q.intoFilter build = .ok (.ok filter) ∧ scan.Perm ms ∧
    PgMarketRepository.list ilike scan filter = .ok shown

def onPage (q : ListQuery) (i : Nat) : ListQuery := { q with page := some ((i : Int) + 1) }

theorem bindable_iff {sort : MarketSort} {status : Option MarketStatus} {limit offset : Int} :
    (q.filterWith sort status limit offset).bindable = true ↔ q.Bindable := by
  have hkept : ∀ text : Option Text,
      (text.filter fun t => t ≠ []).all storable = text.all storable := by
    intro text
    cases text with
    | none => rfl
    | some t =>
      cases t with
      | nil => rfl
      | cons c t => simp [Option.filter]
  unfold MarketFilter.bindable filterWith Bindable
  rw [Bool.and_eq_true, hkept, hkept]

theorem sumsFit_of_pages (hlimit : 0 < filter.limit) (hoffset : 0 ≤ filter.offset)
    {shown shown' : List Market}
    (hmemory : InMemoryMarketRepository.list .debug lowercase ms filter = .ok shown)
    (hpg : PgMarketRepository.list ilike ms filter = .ok shown') :
    filter.SumsFit lowercase ilike ms := by
  intro hpopular
  constructor
  · intro m hm
    by_contra hout
    have hbad : filter.sort = .popular ∧
        ∃ m ∈ ms.filter (PgMarketRepository.selected ilike filter), ¬InI64 (activity m) :=
      ⟨hpopular, m, hm, hout⟩
    simp only [PgMarketRepository.list, pg_bindable hpg, Bool.true_eq_false, if_false,
      if_neg (not_lt.mpr hoffset), if_neg (not_lt.mpr hlimit.le), if_neg hlimit.ne',
      if_pos hbad] at hpg
    cases hpg
  · intro htwo m hm
    by_contra hout
    have hbad : ∃ m ∈ ms.filter (InMemoryMarketRepository.selected lowercase filter),
        popularity .debug m = .error .overflow := ⟨m, hm, popularity_error.mpr ⟨rfl, hout⟩⟩
    have herr : InMemoryMarketRepository.list .debug lowercase ms filter = .error .overflow :=
      if_pos ⟨hpopular, htwo, hbad⟩
    rw [herr] at hmemory
    cases hmemory

theorem pagesTile_of_fits (build : Build) (hnd : ms.Nodup)
    (h : q.Accepted → q.Bindable ∧ ListPage.Fits q.page q.limit ∧ q.SumsFit lowercase ilike ms ∧
      q.TiesApart ilike ms) :
    PagesTile build lowercase ilike q ms := by
  by_cases haccepted : q.Accepted
  · obtain ⟨sort, status, hsort, hstatus⟩ := ListPage.known_iff.mp haccepted
    obtain ⟨hbind, hfits, hsums, hapart⟩ := h haccepted
    have hsums : (q.filterWith sort status (ListPage.limitOf q.limit)
        ((ListPage.pageOf q.page - 1) * ListPage.limitOf q.limit)).SumsFit lowercase ilike ms :=
      hsums sort status hsort hstatus
    obtain ⟨hlow, hhigh⟩ := ListPage.limitOf_bounds q.limit
    obtain ⟨hbefore, hgrow⟩ := ListPage.offset_bounds q.page q.limit
    have hlimit : 0 < ListPage.limitOf q.limit := by omega
    have hoffset := hbefore.trans hgrow
    have hsame := (Ranking.page_choose_iff hnd (by omega)).mpr (hapart sort status hsort hstatus)
    refine ⟨_, by rw [intoFilter, hsort, hstatus,
      ListPage.filterFrom_of_fits build sort status hfits], ?_⟩
    rintro filter ⟨rfl⟩
    refine ⟨hlow, hhigh, ?_, fun scan hscan => ?_⟩
    · rw [inMemory_list_of_sumsFit hlimit.le hoffset hsums]
      simp only [listed, hsort, hstatus]
      rfl
    · have hfits' : sort = .popular → ∀ m ∈ scan.filter (PgMarketRepository.selected ilike
          (q.filterWith sort status (ListPage.limitOf q.limit)
            ((ListPage.pageOf q.page - 1) * ListPage.limitOf q.limit))), ActivityFits m :=
        fun hpopular m hm => (hsums hpopular).1 m ((hscan.filter _).mem_iff.mp hm)
      refine (pg_list_of_sumsFit (bindable_iff.mpr hbind) hlimit hoffset hfits').trans ?_
      simp only [pgListed, hsort, hstatus]
      exact congrArg Except.ok (hsame scan hscan)
  · obtain ⟨e, he⟩ := ListPage.filterFrom_unknown build haccepted
    exact ⟨_, he, by rintro filter ⟨⟩⟩

theorem Answers.of_tile {shown : List Market} {i : Nat}
    (h : (q.onPage i).Answers build ilike ms shown)
    (htile : (q.onPage i).PagesTile build lowercase ilike ms) :
    shown = ListPage.numbered (some ((i : Int) + 1)) (ListPage.limitOf q.limit)
      (q.pgListed ilike ms) := by
  obtain ⟨filter, scan, hfilter, hscan, hshown⟩ := h
  obtain ⟨built, hbuilt, hpage⟩ := htile
  rw [hfilter, Except.ok.injEq] at hbuilt
  obtain ⟨-, -, -, hpg⟩ := hpage filter hbuilt.symm
  obtain ⟨sort, status, offset, -, -, -, rfl⟩ := ListPage.filterFrom_ok hfilter
  rw [hpg scan hscan] at hshown
  exact (Except.ok.inj hshown).symm

theorem fits_of_pagesTile_debug (hnd : ms.Nodup) (h : PagesTile .debug lowercase ilike q ms)
    (haccepted : q.Accepted) :
    q.Bindable ∧ ListPage.Fits q.page q.limit ∧ q.SumsFit lowercase ilike ms ∧
      q.TiesApart ilike ms := by
  obtain ⟨built, hbuilt, htile⟩ := h
  have hfits := ListPage.fits_of_filterFrom_debug haccepted hbuilt
  obtain ⟨sort₀, status₀, hsort₀, hstatus₀⟩ := ListPage.known_iff.mp haccepted
  rw [intoFilter, hsort₀, hstatus₀, ListPage.filterFrom_of_fits .debug sort₀ status₀ hfits,
    Except.ok.injEq] at hbuilt
  obtain ⟨hlow, -, hmemory, hpg⟩ := htile _ hbuilt.symm
  obtain ⟨hbefore, hgrow⟩ := ListPage.offset_bounds q.page q.limit
  have hlimit : 0 < ListPage.limitOf q.limit := hlow
  have hoffset := hbefore.trans hgrow
  have hself := hpg ms (List.Perm.refl ms)
  have hbind := bindable_iff.mp (pg_bindable hself)
  have hsums : (q.filterWith sort₀ status₀ (ListPage.limitOf q.limit)
      ((ListPage.pageOf q.page - 1) * ListPage.limitOf q.limit)).SumsFit lowercase ilike ms :=
    sumsFit_of_pages hlimit hoffset hmemory hself
  refine ⟨hbind, hfits, fun sort status hsort hstatus => ?_, fun sort status hsort hstatus => ?_⟩
  · cases hsort₀.symm.trans hsort
    cases hstatus₀.symm.trans hstatus
    exact hsums
  · cases hsort₀.symm.trans hsort
    cases hstatus₀.symm.trans hstatus
    refine (Ranking.page_choose_iff hnd (by omega)).mp fun scan hscan => ?_
    have hpage := hpg scan hscan
    have hfits' : sort₀ = .popular → ∀ m ∈ scan.filter (PgMarketRepository.selected ilike
        (q.filterWith sort₀ status₀ (ListPage.limitOf q.limit)
          ((ListPage.pageOf q.page - 1) * ListPage.limitOf q.limit))), ActivityFits m :=
      fun hpopular m hm => (hsums hpopular).1 m ((hscan.filter _).mem_iff.mp hm)
    have hcut := pg_list_of_sumsFit (bindable_iff.mpr hbind) hlimit hoffset hfits'
    simp only [pgListed, hsort, hstatus] at hpage
    exact Except.ok.inj (hcut.symm.trans hpage)

end ListQuery

end Markets

namespace Sample

/-- The last page number that a client can send, and the largest page. -/
def lastPage : BetListQuery := ⟨none, none, some i64Max, some 100⟩

def onlyBet : Bet :=
  ⟨⟨1⟩, ⟨2⟩, ⟨3⟩, ⟨4⟩, 1, Price.minTick, .active, none, 0, by decide, by decide⟩

end Sample

end Betsphere
