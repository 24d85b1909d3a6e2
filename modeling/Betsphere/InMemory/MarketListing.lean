import Betsphere.Postgres.MarketListing
set_option autoImplicit false

namespace Betsphere
open MachineInt

namespace InMemoryMarketRepository

def popularity (build : Build) (m : Market) : Except Panic Int :=
  add64 build m.totalVolume m.participantsCount

def rank (build : Build) (m : Market) : Int :=
  match popularity build m with
  | .ok p => p
  | .error _ => 0

/-- `a` does not come behind `b`; `score` is what the popular listing compares. -/
def noLater (score : Market → Int) (sort : MarketSort) (a b : Market) : Bool :=
  match sort with
  | .popular => score b ≤ score a
  | .newest => b.createdAt ≤ a.createdAt
  | .volume => b.totalVolume ≤ a.totalVolume
  | .closingSoon => closesNoLater a.closesAt b.closesAt

def selected (lowercase : Text → Text) (filter : MarketFilter) (m : Market) : Bool :=
  filter.admits m &&
    filter.search.all fun search => lowercase search <:+: lowercase m.title.value

/-- A sort compares, and sums, once there are two markets. -/
def list (build : Build) (lowercase : Text → Text) (markets : List Market)
    (filter : MarketFilter) : Except Panic (List Market) :=
  let filtered := markets.filter (selected lowercase filter)
  if filter.sort = .popular ∧ 2 ≤ filtered.length ∧
      ∃ m ∈ filtered, popularity build m = .error .overflow then .error .overflow
  else
    let sorted := filtered.insertionSort fun a b => noLater (rank build) filter.sort a b
    .ok (Ranking.page (max filter.offset 0).toNat (max filter.limit 0).toNat sorted)

def featured (build : Build) (markets : List Market) : Except Panic (Option Market) :=
  let opened := markets.filter fun m => m.status = .opened
  if ∃ m ∈ opened, popularity build m = .error .overflow then .error .overflow
  else .ok (Ranking.maxByKey (rank build) opened)

end InMemoryMarketRepository

open PgMarketRepository (activity orderBy)
open InMemoryMarketRepository (noLater rank popularity)

def Ahead (sort : MarketSort) (a b : Market) : Prop :=
  noLater activity sort a b ∧ ¬noLater activity sort b a

def Tied (sort : MarketSort) (a b : Market) : Prop :=
  noLater activity sort a b ∧ noLater activity sort b a

instance (sort : MarketSort) (a b : Market) : Decidable (Ahead sort a b) :=
  inferInstanceAs (Decidable (_ ∧ _))

instance (sort : MarketSort) (a b : Market) : Decidable (Tied sort a b) :=
  inferInstanceAs (Decidable (_ ∧ _))

def OldestFirst (sort : MarketSort) (a b : Market) : Prop :=
  Ahead sort a b ∨ (Tied sort a b ∧ a.createdAt < b.createdAt)

def NewestFirst (sort : MarketSort) (a b : Market) : Prop :=
  Ahead sort a b ∨ (Tied sort a b ∧ b.createdAt < a.createdAt)

instance (sort : MarketSort) : DecidableRel (OldestFirst sort) :=
  fun _ _ => inferInstanceAs (Decidable (_ ∨ _))

instance (sort : MarketSort) : DecidableRel (NewestFirst sort) :=
  fun _ _ => inferInstanceAs (Decidable (_ ∨ _))

section Orders
variable {sort : MarketSort} {a b c : Market}

theorem closesNoLater_total (x y : Option DateTime) :
    closesNoLater x y = true ∨ closesNoLater y x = true := by
  cases x <;> cases y <;> simp [closesNoLater]
  exact le_total _ _

theorem closesNoLater_trans {x y z : Option DateTime} (h : closesNoLater x y = true)
    (h' : closesNoLater y z = true) : closesNoLater x z = true := by
  cases x <;> cases y <;> cases z <;> simp [closesNoLater] at h h' ⊢
  exact le_trans h h'

theorem closesNoLater_antisymm {x y : Option DateTime} :
    (closesNoLater x y = true ∧ closesNoLater y x = true) ↔ x = y := by
  cases x <;> cases y <;> simp [closesNoLater]
  exact le_antisymm_iff.symm

instance (score : Market → Int) (sort : MarketSort) :
    Std.Total fun a b => noLater score sort a b = true where
  total a b := by
    cases sort with
    | popular => simpa [noLater] using le_total (score b) (score a)
    | newest => simpa [noLater] using le_total b.createdAt a.createdAt
    | volume => simpa [noLater] using le_total b.totalVolume a.totalVolume
    | closingSoon => exact closesNoLater_total a.closesAt b.closesAt

instance (score : Market → Int) (sort : MarketSort) :
    IsTrans Market fun a b => noLater score sort a b = true where
  trans a b c hab hbc := by
    cases sort with
    | closingSoon => exact closesNoLater_trans hab hbc
    | _ =>
      simp only [noLater, decide_eq_true_eq] at hab hbc ⊢
      exact le_trans hbc hab

theorem lt_or_tied {x y : Int} {p : Prop} : (y < x ∨ (y = x ∧ p)) ↔ y ≤ x ∧ (x ≤ y → p) := by
  rcases lt_trichotomy y x with h | h | h
  · simp [h, h.le, not_le.mpr h]
  · simp [h]
  · simp [h.ne', not_lt.mpr h.le, not_le.mpr h]

theorem orderBy_iff : orderBy sort a b = true ↔
    noLater activity sort a b ∧ (noLater activity sort b a → b.createdAt ≤ a.createdAt) := by
  cases sort with
  | popular =>
    simp only [orderBy, noLater, decide_eq_true_eq]
    exact lt_or_tied
  | newest =>
    simp only [orderBy, noLater, decide_eq_true_eq]
    exact ⟨fun h => ⟨h, fun _ => h⟩, And.left⟩
  | volume =>
    simp only [orderBy, noLater, decide_eq_true_eq]
    exact lt_or_tied
  | closingSoon =>
    simp only [orderBy, noLater, decide_eq_true_eq, ← closesNoLater_antisymm]
    constructor
    · intro h
      exact ⟨h.1, fun h' => h.2 ⟨h.1, h'⟩⟩
    · intro h
      exact ⟨h.1, fun h' => h.2 h'.2⟩

theorem noLater_total (sort : MarketSort) (a b : Market) :
    noLater activity sort a b ∨ noLater activity sort b a :=
  total_of (fun a b => noLater activity sort a b = true) a b

theorem noLater_trans (h : noLater activity sort a b) (h' : noLater activity sort b c) :
    noLater activity sort a c :=
  trans_of (fun a b => noLater activity sort a b = true) h h'

instance (sort : MarketSort) : Std.Total fun a b => orderBy sort a b = true where
  total a b := by
    rw [orderBy_iff, orderBy_iff]
    have htime := le_total a.createdAt b.createdAt
    rcases noLater_total sort a b with h | h <;> tauto

instance (sort : MarketSort) : IsTrans Market fun a b => orderBy sort a b = true where
  trans a b c hab hbc := by
    rw [orderBy_iff] at hab hbc ⊢
    refine ⟨noLater_trans hab.1 hbc.1, fun hca => ?_⟩
    have hba := noLater_trans hbc.1 hca
    have hcb := noLater_trans hca hab.1
    exact le_trans (hbc.2 hcb) (hab.2 hba)

theorem oldestFirst_asymm (a b : Market) (h : OldestFirst sort a b) : ¬OldestFirst sort b a := by
  rintro (h' | ⟨ht', htime'⟩)
  · rcases h with h | ⟨ht, -⟩
    · exact h.2 h'.1
    · exact h'.2 ht.1
  · rcases h with h | ⟨-, htime⟩
    · exact h.2 ht'.1
    · exact lt_asymm htime htime'

theorem newestFirst_asymm (a b : Market) (h : NewestFirst sort a b) : ¬NewestFirst sort b a := by
  rintro (h' | ⟨ht', htime'⟩)
  · rcases h with h | ⟨ht, -⟩
    · exact h.2 h'.1
    · exact h'.2 ht.1
  · rcases h with h | ⟨-, htime⟩
    · exact h.2 ht'.1
    · exact lt_asymm htime htime'

end Orders

/-- The sum a popular listing compares is one both backends can take. -/
def ActivityFits (m : Market) : Prop := InI64 (activity m)

instance (m : Market) : Decidable (ActivityFits m) := inferInstanceAs (Decidable (InI64 _))

def MarketFilter.top (limit : Int) : MarketFilter := ⟨.popular, none, some .opened, none, limit, 0⟩

section Listings
variable {build : Build} {lowercase : Text → Text} {ilike : Text → Text → Bool}
  {ms rows : List Market} {filter : MarketFilter}

theorem popularity_error {m : Market} :
    popularity build m = .error .overflow ↔ build = .debug ∧ ¬ActivityFits m := by
  unfold popularity add64 settle64 ActivityFits activity
  by_cases h : InI64 (m.totalVolume + m.participantsCount)
  · simp [h]
  · cases build <;> simp [h]

theorem rank_of_fits {m : Market} (h : ActivityFits m) : rank build m = activity m := by
  have hp : popularity build m = .ok (activity m) := settle64_of_inI64 build h
  simp only [rank, hp]

theorem noLater_rank {sort : MarketSort} {a b : Market}
    (ha : sort = .popular → ActivityFits a) (hb : sort = .popular → ActivityFits b) :
    noLater (rank build) sort a b = noLater activity sort a b := by
  cases sort with
  | popular => simp only [noLater, rank_of_fits (ha rfl), rank_of_fits (hb rfl)]
  | _ => rfl

theorem inMemory_sorted {sort : MarketSort}
    (hcreated : ms.Pairwise fun a b => a.createdAt < b.createdAt)
    (hfits : sort = .popular → ∀ m ∈ ms, ActivityFits m) :
    (ms.insertionSort fun a b => noLater (rank build) sort a b).Pairwise (OldestFirst sort) := by
  have hnd : ms.Nodup := hcreated.imp fun hab heq => absurd (heq ▸ hab) (lt_irrefl _)
  have hstable : (ms.insertionSort fun a b => noLater (rank build) sort a b).Pairwise
      fun a b => noLater (rank build) sort a b = true ∧
        (noLater (rank build) sort b a = true → a.createdAt < b.createdAt) :=
    Ranking.insertionSort_stable hnd hcreated
  refine List.Pairwise.imp_of_mem (fun {a b} ha hb hab => ?_) hstable
  have ha := (List.mem_insertionSort _).mp ha
  have hb := (List.mem_insertionSort _).mp hb
  rw [noLater_rank (fun h => hfits h a ha) fun h => hfits h b hb,
    noLater_rank (fun h => hfits h b hb) fun h => hfits h a ha] at hab
  by_cases hba : noLater activity sort b a = true
  · exact .inr ⟨⟨hab.1, hba⟩, hab.2 hba⟩
  · exact .inl ⟨hab.1, hba⟩

theorem pg_sorted {sort : MarketSort} (hcreated : ms.Pairwise fun a b => a.createdAt < b.createdAt)
    (hperm : rows.Perm ms) :
    (rows.insertionSort fun a b => orderBy sort a b).Pairwise (NewestFirst sort) := by
  have hsorted := List.pairwise_insertionSort (fun a b => orderBy sort a b = true) rows
  have hp := (List.perm_insertionSort (fun a b => orderBy sort a b = true) rows).trans hperm
  have hdistinct : (rows.insertionSort fun a b => orderBy sort a b = true).Pairwise
      fun a b => a.createdAt ≠ b.createdAt :=
    hp.symm.pairwise (hcreated.imp fun hab => hab.ne) fun hab => hab.symm
  refine (hsorted.and hdistinct).imp fun {a b} hab => ?_
  obtain ⟨hle, htime⟩ := orderBy_iff.mp hab.1
  by_cases hba : noLater activity sort b a = true
  · exact .inr ⟨⟨hle, hba⟩, lt_of_le_of_ne (htime hba) (Ne.symm hab.2)⟩
  · exact .inl ⟨hle, hba⟩

theorem inMemory_selected (lowercase : Text → Text) (hsearch : filter.search = none) :
    InMemoryMarketRepository.selected lowercase filter = filter.admits := by
  funext m
  simp [InMemoryMarketRepository.selected, hsearch]

theorem pg_selected (ilike : Text → Text → Bool) (hsearch : filter.search = none) :
    PgMarketRepository.selected ilike filter = filter.admits := by
  funext m
  simp [PgMarketRepository.selected, hsearch]

theorem inMemory_list (hsearch : filter.search = none) (hlimit : 0 ≤ filter.limit)
    (hoffset : 0 ≤ filter.offset)
    (hfits : filter.sort = .popular → ∀ m ∈ ms.filter filter.admits, ActivityFits m) :
    InMemoryMarketRepository.list build lowercase ms filter =
      .ok (Ranking.page filter.offset.toNat filter.limit.toNat
        ((ms.filter filter.admits).insertionSort fun a b =>
          noLater (rank build) filter.sort a b)) := by
  have hno : ¬(filter.sort = .popular ∧ 2 ≤ (ms.filter filter.admits).length ∧
      ∃ m ∈ ms.filter filter.admits, popularity build m = .error .overflow) := by
    rintro ⟨hsort, -, m, hm, herr⟩
    exact (popularity_error.mp herr).2 (hfits hsort m hm)
  simp only [InMemoryMarketRepository.list, inMemory_selected lowercase hsearch,
    if_neg hno, max_eq_left hlimit, max_eq_left hoffset]

theorem pg_list (hbind : filter.bindable = true) (hsearch : filter.search = none)
    (hlimit : 0 < filter.limit) (hoffset : 0 ≤ filter.offset)
    (hfits : filter.sort = .popular → ∀ m ∈ rows.filter filter.admits, ActivityFits m) :
    PgMarketRepository.list ilike rows filter =
      .ok (Ranking.page filter.offset.toNat filter.limit.toNat
        ((rows.filter filter.admits).insertionSort fun a b => orderBy filter.sort a b)) := by
  have hno : ¬(filter.sort = .popular ∧ ∃ m ∈ rows.filter filter.admits, ¬InI64 (activity m)) := by
    rintro ⟨hsort, m, hm, hout⟩
    exact hout (hfits hsort m hm)
  simp only [PgMarketRepository.list, pg_selected ilike hsearch, hbind, Bool.true_eq_false,
    if_false, if_neg hno, if_neg (not_lt.mpr hoffset), if_neg (not_lt.mpr hlimit.le),
    if_neg hlimit.ne']

theorem pg_bindable {page : List Market}
    (h : PgMarketRepository.list ilike rows filter = .ok page) : filter.bindable = true := by
  by_contra hbind
  rw [PgMarketRepository.list, if_pos (Bool.eq_false_of_not_eq_true hbind)] at h
  cases h

theorem pg_list_ok {page : List Market} (hsearch : filter.search = none)
    (hlimit : 0 < filter.limit) (h : PgMarketRepository.list ilike rows filter = .ok page) :
    filter.sort = .popular → ∀ m ∈ rows.filter filter.admits, ActivityFits m := by
  intro hsort m hm
  by_contra hout
  have hbad : filter.sort = .popular ∧ ∃ m ∈ rows.filter filter.admits, ¬InI64 (activity m) :=
    ⟨hsort, m, hm, hout⟩
  simp only [PgMarketRepository.list, pg_selected ilike hsearch, pg_bindable h,
    Bool.true_eq_false, if_false, if_pos hbad, if_neg (not_lt.mpr hlimit.le),
    if_neg hlimit.ne'] at h
  split at h <;> cases h

end Listings

/-- The same page, in whatever order the SELECT meets the rows. -/
def ListsAgree (build : Build) (lowercase : Text → Text) (ilike : Text → Text → Bool)
    (ms : List Market) (filter : MarketFilter) : Prop :=
  ∀ rows, rows.Perm ms → ∃ page,
    InMemoryMarketRepository.list build lowercase ms filter = .ok page ∧
      PgMarketRepository.list ilike rows filter = .ok page

def InMemoryFeaturedIsFirst (build : Build) (lowercase : Text → Text) (ms : List Market) : Prop :=
  ∀ limit, 0 < limit → ∃ page,
    InMemoryMarketRepository.list build lowercase ms (.top limit) = .ok page ∧
      InMemoryMarketRepository.featured build ms = .ok page.head?

def PgFeaturedIsFirst (ilike : Text → Text → Bool) (ms : List Market) : Prop :=
  ∀ limit, 0 < limit → ∀ rows rows', rows.Perm ms → rows'.Perm ms → ∃ page,
    PgMarketRepository.list ilike rows (.top limit) = .ok page ∧
      PgMarketRepository.featured rows' = .ok page.head?

def Summable (build : Build) (ms : List Market) (filter : MarketFilter) : Prop :=
  filter.sort = .popular → (∀ m ∈ ms.filter filter.admits, ActivityFits m) ∨
    (filter.limit = 0 ∧ (build = .debug → (ms.filter filter.admits).length < 2))

/-- Each market on the page is tied with as many older as newer ones. -/
def PageUntied (ms : List Market) (filter : MarketFilter) : Prop :=
  let chosen := ms.filter filter.admits
  ∀ m ∈ chosen,
    let ahead := chosen.countP fun b => Ahead filter.sort b m
    let older := chosen.countP fun b => Tied filter.sort b m ∧ b.createdAt < m.createdAt
    let newer := chosen.countP fun b => Tied filter.sort b m ∧ m.createdAt < b.createdAt
    filter.offset ≤ ahead + older → ahead + older < filter.offset + filter.limit → older = newer

def OneFavourite (ms : List Market) : Prop :=
  let opened := ms.filter fun m => m.status = .opened
  (∀ m ∈ opened, ActivityFits m) ∧ ∀ m ∈ opened, ∀ m' ∈ opened,
    (∀ x ∈ opened, activity x ≤ activity m) → (∀ x ∈ opened, activity x ≤ activity m') → m = m'

section Agreement
variable {build : Build} {lowercase : Text → Text} {ilike : Text → Text → Bool}
  {ms rows : List Market} {filter : MarketFilter}

theorem countP_oldestFirst (sort : MarketSort) (chosen : List Market) (m : Market) :
    (chosen.countP fun b => OldestFirst sort b m) =
      (chosen.countP fun b => Ahead sort b m) +
        chosen.countP fun b => Tied sort b m ∧ b.createdAt < m.createdAt :=
  Ranking.countP_or (fun _ ha ht => ha.2 ht.1.2) chosen

theorem countP_newestFirst (sort : MarketSort) (chosen : List Market) (m : Market) :
    (chosen.countP fun b => NewestFirst sort b m) =
      (chosen.countP fun b => Ahead sort b m) +
        chosen.countP fun b => Tied sort b m ∧ m.createdAt < b.createdAt :=
  Ranking.countP_or (fun _ ha ht => ha.2 ht.1.2) chosen

/-- With a page that is not empty, and sums that fit, the pages agree when ties do. -/
theorem pages_agree_iff (hcreated : ms.Pairwise fun a b => a.createdAt < b.createdAt)
    (hlimit : 0 ≤ filter.limit) (hoffset : 0 ≤ filter.offset) (hperm : rows.Perm ms)
    (hfits : filter.sort = .popular → ∀ m ∈ ms.filter filter.admits, ActivityFits m) :
    Ranking.page filter.offset.toNat filter.limit.toNat
        ((ms.filter filter.admits).insertionSort fun a b => noLater (rank build) filter.sort a b) =
      Ranking.page filter.offset.toNat filter.limit.toNat
        ((rows.filter filter.admits).insertionSort fun a b => orderBy filter.sort a b) ↔
      PageUntied ms filter := by
  have hcreated' := hcreated.filter filter.admits
  have hperm' := hperm.filter filter.admits
  have hmem := List.perm_insertionSort (fun a b => noLater (rank build) filter.sort a b = true)
    (ms.filter filter.admits)
  have hpg := List.perm_insertionSort (fun a b => orderBy filter.sort a b = true)
    (rows.filter filter.admits)
  rw [Ranking.page_eq_iff (hmem.trans (hperm'.symm.trans hpg.symm))
    (inMemory_sorted hcreated' hfits) (pg_sorted hcreated' hperm') oldestFirst_asymm
    newestFirst_asymm]
  simp only [hmem.countP_eq, hmem.mem_iff, countP_oldestFirst, countP_newestFirst, PageUntied]
  refine forall₂_congr fun m _ => ?_
  omega

/-- A page of no markets is read without a sum by Postgres, and without one in memory if
nothing is compared or the build does not check. -/
theorem listsAgree_empty (hbind : filter.bindable = true) (hsearch : filter.search = none)
    (hlimit : filter.limit = 0) (hoffset : 0 ≤ filter.offset) :
    ListsAgree build lowercase ilike ms filter ↔ Summable build ms filter := by
  have hpg : ∀ rows, PgMarketRepository.list ilike rows filter = .ok [] := fun rows => by
    simp [PgMarketRepository.list, hbind, hlimit, not_lt.mpr hoffset]
  have hselected := inMemory_selected lowercase hsearch
  constructor
  · intro hagree hsort
    obtain ⟨page, hmem, -⟩ := hagree ms (List.Perm.refl ms)
    by_cases hfits : ∀ m ∈ ms.filter filter.admits, ActivityFits m
    · exact .inl hfits
    · refine .inr ⟨hlimit, fun hbuild => ?_⟩
      push Not at hfits
      obtain ⟨m, hm, hout⟩ := hfits
      by_contra hlen
      have hpanic : filter.sort = .popular ∧ 2 ≤ (ms.filter filter.admits).length ∧
          ∃ m ∈ ms.filter filter.admits, popularity build m = .error .overflow :=
        ⟨hsort, not_lt.mp hlen, m, hm, popularity_error.mpr ⟨hbuild, hout⟩⟩
      simp only [InMemoryMarketRepository.list, hselected, if_pos hpanic] at hmem
      cases hmem
  · intro hsum rows _
    have hno : ¬(filter.sort = .popular ∧ 2 ≤ (ms.filter filter.admits).length ∧
        ∃ m ∈ ms.filter filter.admits, popularity build m = .error .overflow) := by
      rintro ⟨hsort, hlen, m, hm, herr⟩
      obtain ⟨hbuild, hout⟩ := popularity_error.mp herr
      rcases hsum hsort with hfits | ⟨-, hshort⟩
      · exact hout (hfits m hm)
      · exact absurd (hshort hbuild) (not_lt.mpr hlen)
    refine ⟨[], ?_, hpg rows⟩
    simp only [InMemoryMarketRepository.list, hselected, if_neg hno]
    simp [hlimit, Ranking.page]

theorem listsAgree_iff (hcreated : ms.Pairwise fun a b => a.createdAt < b.createdAt)
    (hsearch : filter.search = none) (hlimit : 0 ≤ filter.limit) (hoffset : 0 ≤ filter.offset) :
    ListsAgree build lowercase ilike ms filter ↔
      filter.bindable = true ∧ Summable build ms filter ∧ PageUntied ms filter := by
  by_cases hbind : filter.bindable = true
  · rcases eq_or_lt_of_le hlimit with hzero | hpos
    · have hvacuous : PageUntied ms filter := by
        intro m _ _ _ _ hfrom hto
        rw [← hzero] at hto
        omega
      rw [listsAgree_empty hbind hsearch hzero.symm hoffset]
      exact ⟨fun h => ⟨hbind, h, hvacuous⟩, fun h => h.2.1⟩
    · constructor
      · intro hagree
        obtain ⟨page, hmem, hpg⟩ := hagree ms (List.Perm.refl ms)
        have hfits := pg_list_ok hsearch hpos hpg
        rw [inMemory_list hsearch hlimit hoffset hfits] at hmem
        rw [pg_list hbind hsearch hpos hoffset hfits] at hpg
        refine ⟨hbind, fun hsort => .inl (hfits hsort), ?_⟩
        exact (pages_agree_iff hcreated hlimit hoffset (List.Perm.refl ms) hfits).mp
          ((Except.ok.inj hmem).trans (Except.ok.inj hpg).symm)
      · rintro ⟨-, hsum, huntied⟩ rows hperm
        have hfits : filter.sort = .popular → ∀ m ∈ ms.filter filter.admits, ActivityFits m := by
          intro hsort
          rcases hsum hsort with hfits | ⟨hzero, -⟩
          · exact hfits
          · exact absurd hzero hpos.ne'
        have hfits' : filter.sort = .popular → ∀ m ∈ rows.filter filter.admits, ActivityFits m :=
          fun hsort m hm => hfits hsort m ((hperm.filter _).mem_iff.mp hm)
        refine ⟨_, inMemory_list hsearch hlimit hoffset hfits, ?_⟩
        rw [pg_list hbind hsearch hpos hoffset hfits',
          (pages_agree_iff hcreated hlimit hoffset hperm hfits).mpr huntied]
  · refine iff_of_false (fun hagree => ?_) fun h => hbind h.1
    obtain ⟨page, -, hpg⟩ := hagree ms (List.Perm.refl ms)
    exact hbind (pg_bindable hpg)

theorem admits_top (limit : Int) :
    (MarketFilter.top limit).admits = fun m : Market => decide (m.status = .opened) := by
  funext m
  simp [MarketFilter.admits, MarketFilter.top]

theorem head_page {α : Type} {limit : Int} (hlimit : 0 < limit) (l : List α) :
    (Ranking.page 0 limit.toNat l).head? = l.head? := by
  have hpos : limit.toNat ≠ 0 := by omega
  simp [Ranking.page, List.head?_take, hpos]

theorem pgFeatured_iff (hcreated : ms.Pairwise fun a b => a.createdAt < b.createdAt) :
    PgFeaturedIsFirst ilike ms ↔ ∀ m ∈ ms.filter (fun m => m.status = .opened), ActivityFits m := by
  constructor
  · intro hfirst
    obtain ⟨page, hlist, -⟩ := hfirst 1 (by decide) ms ms (List.Perm.refl ms) (List.Perm.refl ms)
    have hfits := pg_list_ok rfl (by decide) hlist rfl
    rwa [admits_top] at hfits
  · intro hfits limit hlimit rows rows' hrows hrows'
    have hchosen := hrows.filter fun m : Market => decide (m.status = .opened)
    have hopened := hrows'.filter fun m : Market => decide (m.status = .opened)
    have hfits' : ∀ m ∈ rows.filter (MarketFilter.top limit).admits, ActivityFits m := by
      rw [admits_top]
      exact fun m hm => hfits m (hchosen.mem_iff.mp hm)
    refine ⟨_, pg_list rfl rfl hlimit (le_refl 0) fun _ => hfits', ?_⟩
    have hno : ¬∃ m ∈ rows'.filter (fun m => m.status = .opened), ¬InI64 (activity m) := by
      rintro ⟨m, hm, hout⟩
      exact hout (hfits m (hopened.mem_iff.mp hm))
    have hcreated' := hcreated.filter fun m : Market => decide (m.status = .opened)
    have hsame : (rows.filter (MarketFilter.top limit).admits).insertionSort
        (fun a b => orderBy .popular a b) =
        (rows'.filter fun m => m.status = .opened).insertionSort
          fun a b => orderBy .popular a b := by
      rw [admits_top]
      refine List.Perm.eq_of_pairwise (fun a b _ _ hab hba => ?_) (pg_sorted hcreated' hchosen)
        (pg_sorted hcreated' hopened) ?_
      · exact absurd hba (newestFirst_asymm a b hab)
      · exact (List.perm_insertionSort _ _).trans
          ((hchosen.trans hopened.symm).trans (List.perm_insertionSort _ _).symm)
    rw [PgMarketRepository.featured]
    simp only [if_neg hno]
    change _ = Except.ok (Ranking.page 0 limit.toNat _).head?
    rw [head_page hlimit, ← hsame]
    rfl

/-- The head of the stable sort is the oldest of the most popular markets, `max_by_key`
takes the newest. -/
theorem head_eq_maxByKey_iff (build : Build)
    (hcreated : ms.Pairwise fun a b => a.createdAt < b.createdAt)
    (hfits : ∀ m ∈ ms, ActivityFits m) :
    (ms.insertionSort fun a b => noLater (rank build) .popular a b).head? =
        Ranking.maxByKey (rank build) ms ↔
      ∀ m ∈ ms, ∀ m' ∈ ms, (∀ x ∈ ms, activity x ≤ activity m) →
        (∀ x ∈ ms, activity x ≤ activity m') → m = m' := by
  have hsorted : (ms.insertionSort fun a b => noLater (rank build) .popular a b).Pairwise
      (OldestFirst .popular) := inMemory_sorted hcreated fun _ => hfits
  have hperm := List.perm_insertionSort (fun a b => noLater (rank build) .popular a b = true) ms
  cases hl : ms.insertionSort fun a b => noLater (rank build) .popular a b with
  | nil =>
    rw [hl] at hperm
    have hnil : ms = [] := List.nil_perm.mp hperm
    simp [hnil, Ranking.maxByKey]
  | cons a rest =>
    rw [hl] at hsorted hperm
    have ha : a ∈ ms := hperm.mem_iff.mp List.mem_cons_self
    have hfirst : ∀ x ∈ ms, x ≠ a → OldestFirst .popular a x := by
      intro x hx hne
      have hx := hperm.mem_iff.mpr hx
      exact (List.pairwise_cons.mp hsorted).1 x ((List.mem_cons.mp hx).resolve_left hne)
    have htop : ∀ x ∈ ms, activity x ≤ activity a := by
      intro x hx
      by_cases hne : x = a
      · rw [hne]
      · rcases hfirst x hx hne with h | ⟨h, -⟩ <;> simpa [noLater] using h.1
    cases hmax : Ranking.maxByKey (rank build) ms with
    | none =>
      cases ms with
      | nil => simp at ha
      | cons x ms => simp [Ranking.maxByKey] at hmax
    | some c =>
      obtain ⟨hc, hlast⟩ := Ranking.maxByKey_spec hcreated hmax
      have hlast' : ∀ x ∈ ms, x ≠ c →
          activity x < activity c ∨ (activity x = activity c ∧ x.createdAt < c.createdAt) := by
        intro x hx hne
        have hx' := hlast x hx hne
        rwa [rank_of_fits (hfits x hx), rank_of_fits (hfits c hc)] at hx'
      simp only [List.head?_cons, Option.some.injEq]
      constructor
      · rintro rfl
        have honly : ∀ m ∈ ms, (∀ x ∈ ms, activity x ≤ activity m) → m = a := by
          intro m hm hmtop
          by_contra hne
          rcases hlast' m hm hne with h | ⟨-, hyounger⟩
          · exact absurd (hmtop a ha) (not_le.mpr h)
          · rcases hfirst m hm hne with h | ⟨-, holder⟩
            · exact h.2 (by simpa [noLater] using hmtop a ha)
            · exact lt_asymm hyounger holder
        intro m hm m' hm' hmtop hmtop'
        exact (honly m hm hmtop).trans (honly m' hm' hmtop').symm
      · intro hunique
        have hctop : ∀ x ∈ ms, activity x ≤ activity c := by
          intro x hx
          by_cases hne : x = c
          · rw [hne]
          · rcases hlast' x hx hne with h | ⟨h, -⟩
            · exact h.le
            · exact h.le
        exact hunique a ha c hc htop hctop

theorem inMemoryFeatured_iff (hcreated : ms.Pairwise fun a b => a.createdAt < b.createdAt)
    (hfits : ∀ m ∈ ms.filter (fun m => m.status = .opened), ActivityFits m) :
    InMemoryFeaturedIsFirst build lowercase ms ↔
      ∀ m ∈ ms.filter (fun m => m.status = .opened), ∀ m' ∈ ms.filter (fun m => m.status = .opened),
        (∀ x ∈ ms.filter (fun m => m.status = .opened), activity x ≤ activity m) →
        (∀ x ∈ ms.filter (fun m => m.status = .opened), activity x ≤ activity m') → m = m' := by
  have hno : ¬∃ m ∈ ms.filter (fun m => m.status = .opened),
      popularity build m = .error .overflow := by
    rintro ⟨m, hm, herr⟩
    exact (popularity_error.mp herr).2 (hfits m hm)
  have hfeatured : InMemoryMarketRepository.featured build ms =
      .ok (Ranking.maxByKey (rank build) (ms.filter fun m => m.status = .opened)) := by
    simp only [InMemoryMarketRepository.featured, if_neg hno]
  have hlist : ∀ limit : Int, 0 < limit →
      InMemoryMarketRepository.list build lowercase ms (.top limit) =
        .ok (Ranking.page 0 limit.toNat ((ms.filter fun m => m.status = .opened).insertionSort
          fun a b => noLater (rank build) .popular a b)) := by
    intro limit hlimit
    have hfits' : ∀ m ∈ ms.filter (MarketFilter.top limit).admits, ActivityFits m := by
      rw [admits_top]
      exact hfits
    rw [inMemory_list rfl hlimit.le (le_refl 0) fun _ => hfits', admits_top]
    rfl
  have hhead := head_eq_maxByKey_iff build (hcreated.filter fun m => m.status = .opened) hfits
  rw [← hhead]
  constructor
  · intro hfirst
    obtain ⟨page, hpage, hhead⟩ := hfirst 1 (by decide)
    rw [hlist 1 (by decide)] at hpage
    rw [hfeatured, ← Except.ok.inj hpage, head_page (by decide)] at hhead
    exact (Except.ok.inj hhead).symm
  · intro hsame limit hlimit
    refine ⟨_, hlist limit hlimit, ?_⟩
    rw [hfeatured, head_page hlimit, hsame]

end Agreement

namespace Sample

def listed (id : Uuid) (totalVolume : Int) (createdAt : DateTime) : Market :=
  { Market.new ⟨id⟩ ⟨['C', 'u', 'p'], by decide, by decide, by decide⟩ none none none createdAt with
    totalVolume := totalVolume }

def freshMarkets : List Market := [listed 1 0 10, listed 2 0 20]

end Sample

section Claims
open Sample

end Claims

end Betsphere
