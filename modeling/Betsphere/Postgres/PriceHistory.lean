import Betsphere.Lib.DistinctOn
import Betsphere.Postgres.Database
import Mathlib.Data.Prod.Lex
set_option autoImplicit false

namespace Betsphere

inductive PriceInterval where
  | minute
  | hour
  | day
  deriving DecidableEq

def PriceInterval.width : PriceInterval → Nanos
  | minute => 60000000000
  | hour => 3600000000000
  | day => 86400000000000

/-- Which minute, hour or day since the epoch; `date_trunc` in a session set to UTC. -/
def PriceInterval.bucket (interval : PriceInterval) (t : Nanos) : Int := t / interval.width

structure PriceHistoryQuery where
  interval : PriceInterval
  since : Option Nanos
  upTo : Option Nanos
  deriving DecidableEq

namespace PriceHistory

/-- Nanoseconds for each tick of the times that a store keeps. -/
def memoryTick : Int := 1
def tableTick : Int := 1000

end PriceHistory

section Buckets
variable (tick : Int)

/-- The conditions on `recorded_at`. -/
def PriceHistoryQuery.inWindow (query : PriceHistoryQuery) (p : PricePoint) : Bool :=
  (query.since.all fun since => since ≤ tick * p.recordedAt) &&
    query.upTo.all fun upTo => tick * p.recordedAt ≤ upTo

namespace PriceHistory

/-- The outcome of a point and its bucket, in the order of `outcome_id, date_trunc`. -/
def slot (interval : PriceInterval) (p : PricePoint) : ℕ ×ₗ ℤ :=
  toLex (p.outcomeId.uuid.toNat, interval.bucket (tick * p.recordedAt))

def ofMarket (outcomes : List Outcome) (marketId : MarketId) (p : PricePoint) : Bool :=
  ∃ o ∈ outcomes, o.id = p.outcomeId ∧ o.marketId = marketId

/-- The points of a market's outcomes inside the window. -/
def selected (outcomes : List Outcome) (points : List PricePoint) (marketId : MarketId)
    (query : PriceHistoryQuery) : List PricePoint :=
  points.filter fun p => ofMarket outcomes marketId p && query.inWindow tick p

/-- One point for each outcome and bucket that has a selected point, the latest of them,
and no other; the whole sorted by time. -/
structure Bucketed (interval : PriceInterval) (selected found : List PricePoint) : Prop where
  sorted : found.Pairwise fun a b => a.recordedAt ≤ b.recordedAt
  latest : ∀ p ∈ found, p ∈ selected ∧ ∀ q ∈ selected, q.outcomeId = p.outcomeId →
    interval.bucket (tick * q.recordedAt) = interval.bucket (tick * p.recordedAt) →
      q.recordedAt ≤ p.recordedAt
  one : ∀ p ∈ selected, (found.countP fun q => q.outcomeId = p.outcomeId ∧
    interval.bucket (tick * q.recordedAt) = interval.bucket (tick * p.recordedAt)) = 1

theorem slot_eq_iff {interval : PriceInterval} {p q : PricePoint} :
    slot tick interval p = slot tick interval q ↔ p.outcomeId = q.outcomeId ∧
      interval.bucket (tick * p.recordedAt) = interval.bucket (tick * q.recordedAt) := by
  obtain ⟨⟨id⟩, _, _⟩ := p
  obtain ⟨⟨id'⟩, _, _⟩ := q
  simp [slot, BitVec.toNat_inj]

end PriceHistory

end Buckets

namespace Timestamptz

def encodeBound : Option Nanos → Except RepositoryError (Option DateTime)
  | none => .ok none
  | some t => (encode t).map some

end Timestamptz

/-- The window as the server sees it. -/
structure TableWindow where
  since : Option DateTime
  upTo : Option DateTime
  deriving DecidableEq

def TableWindow.admits (window : TableWindow) (p : PricePoint) : Bool :=
  (window.since.all fun since => since ≤ p.recordedAt) &&
    window.upTo.all fun upTo => p.recordedAt ≤ upTo

def PriceHistoryQuery.bind (query : PriceHistoryQuery) : Except RepositoryError TableWindow := do
  let since ← Timestamptz.encodeBound query.since
  let upTo ← Timestamptz.encodeBound query.upTo
  .ok ⟨since, upTo⟩

/-- A point of the first microsecond of 2000 is let in by a bound 500 ns behind it. -/
example : (PriceHistoryQuery.bind ⟨.minute, some 946684800000000500, none⟩).map
    (fun window => window.admits ⟨⟨3⟩, ⟨5000, by decide⟩, 946684800000000⟩) = .ok true := rfl

namespace PgMarketRepository
open PriceHistory

/-- The inner SELECT on the rows of `price_history`. The join with `outcomes` is on their
primary key, so it repeats no row. -/
def latestPoints (outcomes : List Outcome) (rows : List PricePoint) (marketId : MarketId)
    (interval : PriceInterval) (window : TableWindow) : List PricePoint :=
  DistinctOn.latest (slot tableTick interval) PricePoint.recordedAt
    (rows.filter fun p => ofMarket outcomes marketId p && window.admits p)

/-- The outer SELECT on the rows of the inner one. -/
def priceHistory (latest : List PricePoint) : List PricePoint :=
  latest.insertionSort fun a b => a.recordedAt ≤ b.recordedAt

end PgMarketRepository

namespace PriceHistory

/-- The server takes the bounds, and its answer is one point for each bucket, however the
planner orders the rows it reads and those it sorts. -/
def PgBucketed (db : Db) (marketId : MarketId) (query : PriceHistoryQuery) : Prop :=
  ∃ window, query.bind = .ok window ∧ ∀ rows latest, rows.Perm db.priceHistory →
    latest.Perm (PgMarketRepository.latestPoints db.outcomes.rows rows marketId query.interval
      window) →
    Bucketed tableTick query.interval
      (selected tableTick db.outcomes.rows db.priceHistory marketId query)
      (PgMarketRepository.priceHistory latest)

/-- No point that only the cut of the bounds lets in is the last of its bucket. -/
def EdgesClear (db : Db) (marketId : MarketId) (query : PriceHistoryQuery)
    (window : TableWindow) : Prop :=
  ∀ p ∈ db.priceHistory, ofMarket db.outcomes.rows marketId p = true →
    window.admits p = true → query.inWindow tableTick p = false →
    ∃ q ∈ selected tableTick db.outcomes.rows db.priceHistory marketId query,
      q.outcomeId = p.outcomeId ∧ query.interval.bucket (tableTick * q.recordedAt) =
        query.interval.bucket (tableTick * p.recordedAt) ∧ p.recordedAt < q.recordedAt

theorem tdiv_bounds {d r : Int} : (d ≤ 1000 * r → d.tdiv 1000 ≤ r) ∧
    (1000 * r ≤ d → r ≤ d.tdiv 1000) := by
  rcases le_total 0 d with hpos | hneg
  · rw [Int.tdiv_eq_ediv_of_nonneg hpos]
    omega
  · rw [← neg_neg d, Int.neg_tdiv, Int.tdiv_eq_ediv_of_nonneg (by omega)]
    omega

theorem cut_le {t r : Int} (h : t ≤ tableTick * r) : Timestamptz.cut t ≤ r := by
  have hshift : t - 1000 * Timestamptz.epoch ≤ 1000 * (r - Timestamptz.epoch) := by
    rw [mul_sub]
    exact sub_le_sub_right h _
  exact add_le_of_le_sub_left (tdiv_bounds.1 hshift)

theorem le_cut {t r : Int} (h : tableTick * r ≤ t) : r ≤ Timestamptz.cut t := by
  have hshift : 1000 * (r - Timestamptz.epoch) ≤ t - 1000 * Timestamptz.epoch := by
    rw [mul_sub]
    exact sub_le_sub_right h _
  exact sub_le_iff_le_add'.mp (tdiv_bounds.2 hshift)

theorem encodeBound_ok {bound : Option Nanos} {encoded : Option DateTime}
    (h : Timestamptz.encodeBound bound = .ok encoded) : encoded = bound.map Timestamptz.cut := by
  cases bound with
  | none =>
    cases h
    rfl
  | some t =>
    simp only [Timestamptz.encodeBound, Timestamptz.encode] at h
    split at h
    · cases h
      rfl
    · cases h

theorem bind_ok {query : PriceHistoryQuery} {window : TableWindow}
    (h : query.bind = .ok window) :
    window = ⟨query.since.map Timestamptz.cut, query.upTo.map Timestamptz.cut⟩ := by
  simp only [PriceHistoryQuery.bind, bind, Except.bind] at h
  cases hsince : Timestamptz.encodeBound query.since with
  | error e => simp [hsince] at h
  | ok since =>
    cases hupTo : Timestamptz.encodeBound query.upTo with
    | error e => simp [hsince, hupTo] at h
    | ok upTo =>
      simp only [hsince, hupTo, Except.ok.injEq] at h
      rw [← h, encodeBound_ok hsince, encodeBound_ok hupTo]

/-- The cut makes no window smaller. -/
theorem admits_of_inWindow {query : PriceHistoryQuery} {window : TableWindow}
    (hbind : query.bind = .ok window) {p : PricePoint}
    (h : query.inWindow tableTick p = true) : window.admits p = true := by
  rw [bind_ok hbind]
  simp only [PriceHistoryQuery.inWindow, TableWindow.admits, Bool.and_eq_true] at h ⊢
  constructor
  · cases hsince : query.since with
    | none => rfl
    | some since =>
      rw [hsince] at h
      exact decide_eq_true (cut_le (of_decide_eq_true h.1))
  · cases hupTo : query.upTo with
    | none => rfl
    | some upTo =>
      rw [hupTo] at h
      exact decide_eq_true (le_cut (of_decide_eq_true h.2))

section Query
variable {db : Db} {marketId : MarketId} {query : PriceHistoryQuery} {window : TableWindow}
  {rows latest : List PricePoint}

theorem mem_selected {p : PricePoint} :
    p ∈ selected tableTick db.outcomes.rows db.priceHistory marketId query ↔
      p ∈ db.priceHistory ∧ ofMarket db.outcomes.rows marketId p = true ∧
        query.inWindow tableTick p = true := by
  simp [selected]

theorem mem_answer (hrows : rows.Perm db.priceHistory)
    (hlatest : latest.Perm (PgMarketRepository.latestPoints db.outcomes.rows rows marketId
      query.interval window)) {p : PricePoint}
    (hp : p ∈ PgMarketRepository.priceHistory latest) :
    (p ∈ db.priceHistory ∧ ofMarket db.outcomes.rows marketId p = true ∧
      window.admits p = true) ∧
    ∀ q ∈ db.priceHistory, ofMarket db.outcomes.rows marketId q = true →
      window.admits q = true → slot tableTick query.interval q = slot tableTick query.interval p →
        q.recordedAt ≤ p.recordedAt := by
  have hp := ((List.perm_insertionSort _ latest).trans hlatest).mem_iff.mp hp
  have hchosen := List.mem_filter.mp (DistinctOn.latest_mem hp)
  rw [Bool.and_eq_true] at hchosen
  refine ⟨⟨hrows.mem_iff.mp hchosen.1, hchosen.2⟩, fun q hq ho hw hslot => ?_⟩
  exact DistinctOn.stamp_le_latest hp
    (List.mem_filter.mpr ⟨hrows.mem_iff.mpr hq, by rw [ho, hw]; rfl⟩) hslot

theorem countP_answer (hrows : rows.Perm db.priceHistory)
    (hlatest : latest.Perm (PgMarketRepository.latestPoints db.outcomes.rows rows marketId
      query.interval window)) {p : PricePoint} (hp : p ∈ db.priceHistory)
    (ho : ofMarket db.outcomes.rows marketId p = true) (hw : window.admits p = true) :
    ((PgMarketRepository.priceHistory latest).countP fun q =>
      slot tableTick query.interval q = slot tableTick query.interval p) = 1 := by
  have hperm : (PgMarketRepository.priceHistory latest).Perm (PgMarketRepository.latestPoints
      db.outcomes.rows rows marketId query.interval window) :=
    (List.perm_insertionSort _ latest).trans hlatest
  rw [hperm.countP_eq]
  exact DistinctOn.countP_latest
    (List.mem_filter.mpr ⟨hrows.mem_iff.mpr hp, by rw [ho, hw]; rfl⟩)

theorem pg_bucketed (hbind : query.bind = .ok window) (hclear : EdgesClear db marketId query window)
    (hrows : rows.Perm db.priceHistory)
    (hlatest : latest.Perm (PgMarketRepository.latestPoints db.outcomes.rows rows marketId
      query.interval window)) :
    Bucketed tableTick query.interval
      (selected tableTick db.outcomes.rows db.priceHistory marketId query)
      (PgMarketRepository.priceHistory latest) := by
  refine ⟨List.pairwise_insertionSort _ latest, fun p hp => ?_, fun p hp => ?_⟩
  · obtain ⟨⟨hmem, ho, hw⟩, hlast⟩ := mem_answer hrows hlatest hp
    have hinside : query.inWindow tableTick p = true := by
      by_contra hout
      obtain ⟨q, hq, hsame, hbucket, hlater⟩ :=
        hclear p hmem ho hw (Bool.eq_false_of_not_eq_true hout)
      obtain ⟨hq, hqo, hqw⟩ := mem_selected.mp hq
      have hle := hlast q hq hqo (admits_of_inWindow hbind hqw)
        ((slot_eq_iff tableTick).mpr ⟨hsame, hbucket⟩)
      exact absurd hlater (not_lt.mpr hle)
    refine ⟨mem_selected.mpr ⟨hmem, ho, hinside⟩, fun q hq hsame hbucket => ?_⟩
    obtain ⟨hq, hqo, hqw⟩ := mem_selected.mp hq
    exact hlast q hq hqo (admits_of_inWindow hbind hqw)
      ((slot_eq_iff tableTick).mpr ⟨hsame, hbucket⟩)
  · obtain ⟨hmem, ho, hw⟩ := mem_selected.mp hp
    rw [← countP_answer hrows hlatest hmem ho (admits_of_inWindow hbind hw)]
    exact List.countP_congr fun q _ => by simp [slot_eq_iff]

/-- A point let in by the cut alone is shown unless a later one of its bucket is. -/
theorem edgesClear_of_bucketed (hbucketed : Bucketed tableTick query.interval
    (selected tableTick db.outcomes.rows db.priceHistory marketId query)
    (PgMarketRepository.priceHistory (PgMarketRepository.latestPoints db.outcomes.rows
      db.priceHistory marketId query.interval window))) : EdgesClear db marketId query window := by
  intro p hp ho hw hout
  have hcount : ((PgMarketRepository.priceHistory (PgMarketRepository.latestPoints
      db.outcomes.rows db.priceHistory marketId query.interval window)).countP fun q =>
        slot tableTick query.interval q = slot tableTick query.interval p) = 1 :=
    countP_answer (List.Perm.refl _) (List.Perm.refl _) hp ho hw
  obtain ⟨q, hq, hslot⟩ := List.countP_pos_iff.mp (by rw [hcount]; exact Nat.one_pos)
  have hslot := of_decide_eq_true hslot
  have hlast := (mem_answer (List.Perm.refl _) (List.Perm.refl _) hq).2
  obtain ⟨hsame, hbucket⟩ := (slot_eq_iff tableTick).mp hslot
  have hinside := (hbucketed.latest q hq).1
  refine ⟨q, hinside, hsame, hbucket, lt_of_le_of_ne (hlast p hp ho hw hslot.symm) ?_⟩
  intro htime
  have hin := (mem_selected.mp hinside).2.2
  unfold PriceHistoryQuery.inWindow at hin hout
  rw [← htime, hout] at hin
  cases hin

theorem pgBucketed_iff : PgBucketed db marketId query ↔
    ∃ window, query.bind = .ok window ∧ EdgesClear db marketId query window := by
  constructor
  · rintro ⟨window, hbind, hall⟩
    exact ⟨window, hbind,
      edgesClear_of_bucketed (hall _ _ (List.Perm.refl _) (List.Perm.refl _))⟩
  · rintro ⟨window, hbind, hclear⟩
    exact ⟨window, hbind, fun rows latest hrows hlatest =>
      pg_bucketed hbind hclear hrows hlatest⟩

end Query

end PriceHistory

end Betsphere
