import Betsphere.Application.Enrich
import Betsphere.InMemory.Agreement
set_option autoImplicit false

namespace Betsphere
open MachineInt

/-- The loop over the pairs; it stops at the first error. -/
def Mem.activePositions (m : Mem) :
    List (UserId × OutcomeId) → Except RepositoryError (List ActivePosition)
  | [] => .ok []
  | pair :: pairs =>
    match m.activePosition pair.1 pair.2 with
    | .error e => .error e
    | .ok none => activePositions m pairs
    | .ok (some avgPrice) =>
      match activePositions m pairs with
      | .error e => .error e
      | .ok positions => .ok (⟨pair.1, pair.2, avgPrice⟩ :: positions)

def activeOn (bets : List Bet) (pair : UserId × OutcomeId) : List Bet :=
  bets.filter fun b => b.userId = pair.1 ∧ b.outcomeId = pair.2 ∧ b.status = .active

def flooredMean (group : List Bet) : Int := weightedSum group / amountSum group

def numericMean (group : List Bet) : Int := Numeric.floorDiv (weightedSum group) (amountSum group)

def ActivePosition.pair (p : ActivePosition) : UserId × OutcomeId := (p.userId, p.outcomeId)

/-- One entry for each pair with an active bet and no other, with the mean of its group,
which lies between the prices of the group. -/
structure ListsPositions (bets : List Bet) (pairs : List (UserId × OutcomeId))
    (mean : List Bet → Int) (positions : List ActivePosition) : Prop where
  nodup : (positions.map ActivePosition.pair).Nodup
  listed : ∀ pair, pair ∈ positions.map ActivePosition.pair ↔ pair ∈ pairs ∧ activeOn bets pair ≠ []
  average : ∀ p ∈ positions, p.avgPrice.tenThousandths = mean (activeOn bets p.pair)
  between : ∀ p ∈ positions, ∀ low high : Int,
    (∀ b ∈ activeOn bets p.pair, low ≤ b.price.tenThousandths ∧ b.price.tenThousandths ≤ high) →
      low ≤ p.avgPrice.tenThousandths ∧ p.avgPrice.tenThousandths ≤ high
  positive : ∀ p ∈ positions, 0 < p.avgPrice.tenThousandths

section Means
variable {group : List Bet} {low high : Int}

/-- A mean that every whole bound of the prices bounds. -/
def MeanOf (mean : List Bet → Int) : Prop :=
  ∀ group : List Bet, group ≠ [] → ∀ low high : Int,
    (∀ b ∈ group, low ≤ b.price.tenThousandths ∧ b.price.tenThousandths ≤ high) →
      low ≤ mean group ∧ mean group ≤ high

theorem meanOf_flooredMean : MeanOf flooredMean := by
  intro group hne low high hprices
  have hpos := amountSum_pos hne
  exact ⟨(Int.le_ediv_iff_mul_le hpos).mpr (mul_amountSum_le fun b hb => (hprices b hb).1),
    Int.ediv_le_of_le_mul hpos (le_mul_amountSum fun b hb => (hprices b hb).2)⟩

theorem meanOf_numericMean : MeanOf numericMean := by
  intro group hne low high hprices
  have hpos := amountSum_pos hne
  exact ⟨Decimal.le_floorRounded hpos (mul_amountSum_le fun b hb => (hprices b hb).1),
    Decimal.floorRounded_le hpos (le_mul_amountSum fun b hb => (hprices b hb).2)⟩

theorem MeanOf.inRange {mean : List Bet → Int} (h : MeanOf mean) (hne : group ≠ []) :
    1 ≤ mean group ∧ mean group ≤ 10000 :=
  h group hne 1 10000 fun b _ => ⟨b.pricePositive, b.price.inRange.2⟩

end Means

def entryOf (bets : List Bet) (mean : List Bet → Int) (pair : UserId × OutcomeId) :
    Option ActivePosition :=
  if activeOn bets pair = [] then none
  else
    match Price.fromTenThousandths (mean (activeOn bets pair)) with
    | .ok avgPrice => some ⟨pair.1, pair.2, avgPrice⟩
    | .error _ => none

section Entries
variable {bets : List Bet} {mean : List Bet → Int} {pairs : List (UserId × OutcomeId)}
  {pair : UserId × OutcomeId} {p : ActivePosition}

theorem entryOf_some (hmean : MeanOf mean) (hne : activeOn bets pair ≠ []) :
    ∃ avgPrice : Price, Price.fromTenThousandths (mean (activeOn bets pair)) = .ok avgPrice ∧
      entryOf bets mean pair = some ⟨pair.1, pair.2, avgPrice⟩ ∧
      avgPrice.tenThousandths = mean (activeOn bets pair) := by
  have hbounds := hmean.inRange hne
  have hrange : 0 ≤ mean (activeOn bets pair) ∧ mean (activeOn bets pair) ≤ 10000 :=
    ⟨by omega, hbounds.2⟩
  refine ⟨⟨_, hrange⟩, Price.fromTenThousandths_of_inRange hrange, ?_, rfl⟩
  simp only [entryOf, if_neg hne, Price.fromTenThousandths_of_inRange hrange]

theorem entryOf_eq_some (hmean : MeanOf mean) (h : entryOf bets mean pair = some p) :
    p.pair = pair ∧ activeOn bets pair ≠ [] ∧
      p.avgPrice.tenThousandths = mean (activeOn bets pair) := by
  by_cases hne : activeOn bets pair = []
  · simp [entryOf, hne] at h
  · obtain ⟨avgPrice, -, hentry, hvalue⟩ := entryOf_some hmean hne
    rw [hentry, Option.some.injEq] at h
    subst h
    exact ⟨rfl, hne, hvalue⟩

theorem listsPositions_filterMap (hmean : MeanOf mean) (hpairs : pairs.Nodup) :
    ListsPositions bets pairs mean (pairs.filterMap (entryOf bets mean)) := by
  have hentry : ∀ p ∈ pairs.filterMap (entryOf bets mean), p.pair ∈ pairs ∧
      activeOn bets p.pair ≠ [] ∧ p.avgPrice.tenThousandths = mean (activeOn bets p.pair) := by
    intro p hp
    obtain ⟨pair, hpair, hsome⟩ := List.mem_filterMap.mp hp
    obtain ⟨rfl, hne, hvalue⟩ := entryOf_eq_some hmean hsome
    exact ⟨hpair, hne, hvalue⟩
  refine ⟨?_, ?_, fun p hp => (hentry p hp).2.2, fun p hp low high hprices => ?_, fun p hp => ?_⟩
  · have hkeys : ∀ pairs : List (UserId × OutcomeId),
        ((pairs.filterMap (entryOf bets mean)).map ActivePosition.pair).Sublist pairs := by
      intro pairs
      induction pairs with
      | nil => exact List.Sublist.refl []
      | cons pair pairs ih =>
        cases hsome : entryOf bets mean pair with
        | none =>
          rw [List.filterMap_cons_none hsome]
          exact ih.cons pair
        | some p =>
          rw [List.filterMap_cons_some hsome, List.map_cons, (entryOf_eq_some hmean hsome).1]
          exact ih.cons_cons pair
    exact (hkeys pairs).nodup hpairs
  · intro pair
    constructor
    · intro hmem
      obtain ⟨p, hp, rfl⟩ := List.mem_map.mp hmem
      exact ⟨(hentry p hp).1, (hentry p hp).2.1⟩
    · rintro ⟨hpair, hne⟩
      obtain ⟨avgPrice, -, hsome, -⟩ := entryOf_some hmean hne
      exact List.mem_map.mpr ⟨_, List.mem_filterMap.mpr ⟨pair, hpair, hsome⟩, rfl⟩
  · rw [(hentry p hp).2.2]
    exact hmean _ (hentry p hp).2.1 low high hprices
  · rw [(hentry p hp).2.2]
    exact (hmean.inRange (hentry p hp).2.1).1

end Entries

theorem Mem.activePositions_eq (m : Mem) (pairs : List (UserId × OutcomeId)) :
    m.activePositions pairs = .ok (pairs.filterMap (entryOf m.bets flooredMean)) := by
  induction pairs with
  | nil => rfl
  | cons pair pairs ih =>
    have hgroup : m.position pair.1 pair.2 = activeOn m.bets pair := rfl
    rcases m.activePosition_eq pair.1 pair.2 with ⟨hread, hnil⟩ | ⟨price, hread, hne, hvalue⟩
    · have hnone : entryOf m.bets flooredMean pair = none := by
        rw [entryOf, if_pos (hgroup ▸ hnil)]
      simp only [Mem.activePositions, hread, ih, List.filterMap_cons_none hnone]
    · obtain ⟨avgPrice, -, hsome, hprice⟩ :=
        entryOf_some meanOf_flooredMean (hgroup ▸ hne : activeOn m.bets pair ≠ [])
      have hsame : price = avgPrice := Price.eq_of_tenThousandths (hvalue.trans hprice.symm)
      simp only [Mem.activePositions, hread, ih, List.filterMap_cons_some hsome, hsame]

theorem PgBetRepository.activePosition_eq (db : Db) (pair : UserId × OutcomeId) :
    PgBetRepository.activePosition db pair =
      (entryOf db.bets.rows numericMean pair).map Except.ok := by
  have hgroup : db.activePosition pair.1 pair.2 = activeOn db.bets.rows pair := rfl
  unfold PgBetRepository.activePosition Db.averagePrice
  rw [hgroup]
  cases hactive : activeOn db.bets.rows pair with
  | nil => simp [entryOf, hactive]
  | cons b group =>
    have hne : activeOn db.bets.rows pair ≠ [] := by simp [hactive]
    obtain ⟨avgPrice, hprice, hsome, -⟩ := entryOf_some meanOf_numericMean hne
    have hquotient : Price.fromTenThousandths (Numeric.floorDiv (weightedSum (b :: group))
        (amountSum (b :: group))) = .ok avgPrice := by
      rw [hactive] at hprice
      exact hprice
    rw [hsome, Option.map_some, Option.map_some]
    simp only [hquotient]

theorem mapM_id_ok {α ε : Type} (xs : List α) :
    (xs.map (Except.ok : α → Except ε α)).mapM id = .ok xs := by
  induction xs with
  | nil => rfl
  | cons x xs ih =>
    rw [List.map_cons, List.mapM_cons, ih]
    rfl

theorem PgBetRepository.activePositions_eq (db : Db) (pairs : List (UserId × OutcomeId)) :
    PgBetRepository.activePositions db pairs =
      .ok (pairs.dedup.filterMap (entryOf db.bets.rows numericMean)) := by
  have hpair : PgBetRepository.activePosition db =
      fun pair => (entryOf db.bets.rows numericMean pair).map Except.ok :=
    funext (PgBetRepository.activePosition_eq db)
  rw [PgBetRepository.activePositions, hpair, ← List.map_filterMap, mapM_id_ok]

section Backends
variable {bets rows : List Bet} {pairs : List (UserId × OutcomeId)}

theorem activeOn_perm (h : bets.Perm rows) (pair : UserId × OutcomeId) :
    (activeOn bets pair).Perm (activeOn rows pair) := h.filter _

theorem weightedSum_perm {group group' : List Bet} (h : group.Perm group') :
    weightedSum group = weightedSum group' := (h.map _).sum_eq

theorem amountSum_perm {group group' : List Bet} (h : group.Perm group') :
    amountSum group = amountSum group' := (h.map _).sum_eq

/-- NUMERIC division does not carry the mean of any requested group over. -/
def MeansExact (bets : List Bet) (pairs : List (UserId × OutcomeId)) : Prop :=
  ∀ pair ∈ pairs, activeOn bets pair ≠ [] →
    Numeric.Exact (weightedSum (activeOn bets pair)) (amountSum (activeOn bets pair))

theorem meansExact_of_small
    (h : ∀ pair ∈ pairs, amountSum (activeOn bets pair) < 2 * 10 ^ 16) : MeansExact bets pairs :=
  fun pair hpair hne =>
    Numeric.exact_of_small (amountSum_pos hne) (weightedSum_le _) (h pair hpair)

theorem numericMean_eq_iff {group : List Bet} (hne : group ≠ []) :
    numericMean group = flooredMean group ↔
      Numeric.Exact (weightedSum group) (amountSum group) :=
  Numeric.floorDiv_eq_iff (amountSum_pos hne)

theorem entries_congr (h : bets.Perm rows) {mean mean' : List Bet → Int}
    (hmean : ∀ pair ∈ pairs, activeOn bets pair ≠ [] →
      mean (activeOn rows pair) = mean' (activeOn bets pair)) :
    pairs.filterMap (entryOf rows mean) = pairs.filterMap (entryOf bets mean') := by
  refine List.filterMap_congr fun pair hpair => ?_
  have hnil : activeOn bets pair = [] ↔ activeOn rows pair = [] := by
    rw [← List.length_eq_zero_iff, ← List.length_eq_zero_iff, (activeOn_perm h pair).length_eq]
  unfold entryOf
  by_cases hne : activeOn bets pair = []
  · rw [if_pos hne, if_pos (hnil.mp hne)]
  · rw [if_neg hne, if_neg (mt hnil.mpr hne), hmean pair hpair hne]

theorem numericMean_perm {group group' : List Bet} (h : group.Perm group') :
    numericMean group = numericMean group' := by
  rw [numericMean, numericMean, weightedSum_perm h, amountSum_perm h]

/-- What both backends answer to distinct pairs. They list the same entries, with the exact
means, exactly when NUMERIC division carries none of them over to the next price. -/
theorem active_positions_exact_iff {db : Db} {m : Mem} (hsame : m.bets.Perm db.bets.rows)
    (hpairs : pairs.Nodup) :
    (∃ memory, m.activePositions pairs = .ok memory ∧
      ListsPositions m.bets pairs flooredMean memory) ∧
    (∃ table, PgBetRepository.activePositions db pairs = .ok table ∧
      ListsPositions db.bets.rows pairs numericMean table) ∧
    ((∃ memory table, m.activePositions pairs = .ok memory ∧
      PgBetRepository.activePositions db pairs = .ok table ∧
      ListsPositions m.bets pairs flooredMean memory ∧
      ListsPositions m.bets pairs flooredMean table ∧ table.Perm memory) ↔
      MeansExact m.bets pairs) := by
  have hmemory := m.activePositions_eq pairs
  have htable := PgBetRepository.activePositions_eq db pairs
  rw [hpairs.dedup] at htable
  have hlisted : ListsPositions m.bets pairs flooredMean
      (pairs.filterMap (entryOf m.bets flooredMean)) :=
    listsPositions_filterMap meanOf_flooredMean hpairs
  have hnumeric : ListsPositions db.bets.rows pairs numericMean
      (pairs.filterMap (entryOf db.bets.rows numericMean)) :=
    listsPositions_filterMap meanOf_numericMean hpairs
  refine ⟨⟨_, hmemory, hlisted⟩, ⟨_, htable, hnumeric⟩, ?_, ?_⟩
  · rintro ⟨memory, table, -, htable', -, hexact, -⟩ pair hpair hne
    obtain rfl := Except.ok.inj (htable.symm.trans htable')
    obtain ⟨p, hp, rfl⟩ := List.mem_map.mp ((hexact.listed pair).mpr ⟨hpair, hne⟩)
    refine (numericMean_eq_iff hne).mp ?_
    rw [numericMean_perm (activeOn_perm hsame p.pair), ← hnumeric.average p hp,
      hexact.average p hp]
  · intro hexact
    have heq : pairs.filterMap (entryOf db.bets.rows numericMean) =
        pairs.filterMap (entryOf m.bets flooredMean) := by
      refine entries_congr hsame fun pair hpair hne => ?_
      rw [← numericMean_perm (activeOn_perm hsame pair)]
      exact (numericMean_eq_iff hne).mpr (hexact pair hpair hne)
    exact ⟨_, _, hmemory, htable, hlisted, heq ▸ hlisted, heq ▸ List.Perm.refl _⟩

end Backends

namespace Sample

def stakeOf (id : Uuid) (amount : Int) (price : Price) (hamount : 0 < amount)
    (hprice : 0 < price.tenThousandths) : Bet :=
  ⟨⟨id⟩, ⟨1⟩, ⟨100⟩, ⟨101⟩, amount, price, .active, none, 0, hamount, hprice⟩

/-- A stake of 10 ^ 17 at 0.5000 and one of 1 at 0.4999. -/
def hugeStake : Table Bet.id :=
  ⟨[stakeOf 1 (10 ^ 17) evens (by decide) (by decide),
    stakeOf 2 1 ⟨4999, by decide⟩ Int.zero_lt_one (by decide)], by decide⟩

def smallStakes : Table Bet.id :=
  ⟨[stakeOf 1 100 evens (by decide) (by decide), stakeOf 2 900 .one (by decide) (by decide)],
    by decide⟩

end Sample

theorem active_positions_exact_iff_small :
    (Mem.activePositions ⟨.empty, [], [], Sample.smallStakes.rows, [], []⟩ [(⟨1⟩, ⟨101⟩)] =
      .ok [⟨⟨1⟩, ⟨101⟩, ⟨9500, by decide⟩⟩]) ∧
    ∃ memory table,
      Mem.activePositions ⟨.empty, [], [], Sample.smallStakes.rows, [], []⟩ [(⟨1⟩, ⟨101⟩)] =
        .ok memory ∧
      PgBetRepository.activePositions { Db.empty with bets := Sample.smallStakes }
        [(⟨1⟩, ⟨101⟩)] = .ok table ∧ table.Perm memory := by
  refine ⟨by decide, ?_⟩
  have hsame : (Mem.mk .empty [] [] Sample.smallStakes.rows [] []).bets.Perm
      ({ Db.empty with bets := Sample.smallStakes } : Db).bets.rows := List.Perm.refl _
  have hexact : MeansExact Sample.smallStakes.rows [(⟨1⟩, ⟨101⟩)] :=
    meansExact_of_small (by decide)
  obtain ⟨memory, table, hmemory, htable, -, -, hperm⟩ :=
    (active_positions_exact_iff hsame (List.nodup_singleton _)).2.2.mpr hexact
  exact ⟨memory, table, hmemory, htable, hperm⟩

/-- The exact mean is 5000 - 1 / (10 ^ 17 + 1); NUMERIC keeps sixteen decimals of it. -/
theorem numeric_mean_carried_over :
    Mem.activePositions ⟨.empty, [], [], Sample.hugeStake.rows, [], []⟩ [(⟨1⟩, ⟨101⟩)] =
      .ok [⟨⟨1⟩, ⟨101⟩, ⟨4999, by decide⟩⟩] ∧
    PgBetRepository.activePositions { Db.empty with bets := Sample.hugeStake } [(⟨1⟩, ⟨101⟩)] =
      .ok [⟨⟨1⟩, ⟨101⟩, ⟨5000, by decide⟩⟩] ∧
    flooredMean Sample.hugeStake.rows = 4999 := by
  decide +kernel

end Betsphere
