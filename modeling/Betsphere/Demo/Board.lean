import Betsphere.Demo.CannedLine
import Betsphere.Postgres.MarketListing
import Betsphere.System.WellFormed
set_option autoImplicit false

namespace Betsphere
open MachineInt

structure MarketTemplate where
  title : String
  description : String
  category : String
  outcomes : List String
  openForHours : Int
  deriving DecidableEq

def marketTemplates : List MarketTemplate := [
  ⟨"Will Bitcoin close above $150,000 this year?",
    "Resolves on the closing price of the last trading day of the year.",
    "crypto", ["Yes", "No"], 720⟩,
  ⟨"Which team lifts the Champions League trophy?",
    "Resolves to the winner of the final. Anyone not listed resolves to Field.",
    "sports", ["Real Madrid", "Manchester City", "Bayern Munich", "Field"], 480⟩,
  ⟨"What does the central bank do at the next meeting?",
    "Resolves on the published rate decision.",
    "economics", ["Cut", "Hold", "Hike"], 336⟩,
  ⟨"Will a crewed mission leave for Mars before 2030?",
    "Resolves Yes on a crewed launch on a Mars trajectory before Jan 1, 2030.",
    "space", ["Yes", "No"], 2160⟩,
  ⟨"How many goals in Sunday's derby?",
    "Combined goals, extra time excluded.",
    "sports", ["0-1", "2-3", "4 or more"], 20⟩,
  ⟨"Will it snow in Kyiv on New Year's Eve?",
    "Resolves on the official observation for Dec 31.",
    "weather", ["Yes", "No"], 168⟩,
  ⟨"Will the sequel open above $200M domestically?",
    "Resolves on reported opening-weekend domestic box office.",
    "movies", ["Yes", "No"], 240⟩,
  ⟨"Which party forms the next coalition?",
    "Resolves to the party leading the government after talks conclude.",
    "politics", ["Left bloc", "Right bloc", "Grand coalition", "Snap election"], 600⟩,
  ⟨"Will ETH flip BTC in market cap this cycle?",
    "Resolves Yes if ETH market cap exceeds BTC's for a full trading day.",
    "crypto", ["Yes", "No"], 1440⟩,
  ⟨"Which console sells the most units this quarter?",
    "Resolves on reported quarterly hardware sales.",
    "gaming", ["Switch", "PlayStation", "Xbox"], 900⟩,
  ⟨"Will remote roles pass 30% of new postings by year end?",
    "Resolves on the December share of postings advertised as remote.",
    "work", ["Yes", "No"], 1000⟩,
  ⟨"Will this feed pass 10,000 bets this month?",
    "Settles on the platform's own counter. Yes, we bet on ourselves.",
    "meta", ["Yes", "No"], 72⟩,
  ⟨"Coffee or tea: what does the office run out of first?",
    "Deadly serious. Resolves on the empty tin.",
    "meta", ["Coffee", "Tea", "Neither, someone restocked"], 48⟩]

def questions : List Text := marketTemplates.map fun t => t.title.toList

def MarketTemplate.newMarket (t : MarketTemplate) (now : DateTime) : NewMarket where
  title := t.title.toList
  description := some t.description.toList
  category := some t.category.toList
  closesAt := some (now + t.openForHours * 3600000000)
  outcomes := t.outcomes.map String.toList

def marketSample : Int := 50

def openMarkets : MarketFilter :=
  { MarketFilter.default with status := some .opened, sort := .newest, limit := marketSample }

/-- `WHERE market_id = ANY($1) ORDER BY market_id, seq`. -/
def Db.outcomesForMarkets (db : Db) (ids : List MarketId) : List Outcome :=
  (db.outcomes.rows.filter fun o => o.marketId ∈ ids).insertionSort fun a b =>
    a.marketId.uuid.toNat ≤ b.marketId.uuid.toNat

namespace ListMarkets

/-- The outcomes of each market in the order in which they came. -/
def byMarket (outcomes : List Outcome) : MarketId → List Outcome :=
  outcomes.foldl (fun found o => Function.update found o.marketId (found o.marketId ++ [o]))
    fun _ => []

/-- Every market takes its outcomes out of the map. -/
def views : (MarketId → List Outcome) → List Market → List MarketView
  | _, [] => []
  | found, market :: markets =>
    ⟨market, found market.id⟩ :: views (Function.update found market.id []) markets

def grouped (db : Db) (markets : List Market) : List MarketView :=
  views (byMarket (db.outcomesForMarkets (markets.map Market.id))) markets

end ListMarkets

namespace MarketMaker

/-- A market past its deadline that can be settled. -/
def expired (now : DateTime) (view : MarketView) : Bool :=
  !view.market.acceptsBets now && 2 ≤ view.outcomes.length

def available (live : List MarketView) : List MarketTemplate :=
  marketTemplates.filter fun t => !live.any fun view => view.market.title.value = t.title.toList

/-- An outcome nobody backed still has to be reachable. -/
def weight (o : Outcome) : Int := max o.currentPrice.tenThousandths 1

/-- `choose_weighted` of the random generator: it draws one of the outcomes, or fails. -/
structure WeightedDraw where
  chooseWeighted : List Outcome → (Outcome → Int) → Nat → Option Outcome
  mem : ∀ {outcomes weight draw o}, chooseWeighted outcomes weight draw = some o → o ∈ outcomes

def pickWinner (rng : WeightedDraw) (outcomes : List Outcome) (draw : Nat) :
    Except Panic Outcome :=
  match outcomes with
  | [] => .error .indexOutOfBounds
  | first :: _ => .ok ((rng.chooseWeighted outcomes weight draw).getD first)

end MarketMaker

/-- Every template passes the checks of `CreateMarket`, under its own title, and stays open. -/
theorem template_valid {t : MarketTemplate} (ht : t ∈ marketTemplates) :
    trim t.title.toList = t.title.toList ∧ t.title.toList ≠ [] ∧ t.title.toList.length ≤ 200 ∧
      2 ≤ t.outcomes.length ∧ 0 < t.openForHours ∧
      ∀ label ∈ t.outcomes, trim label.toList ≠ [] ∧ (trim label.toList).length ≤ 100 := by
  revert t
  decide +kernel

theorem CreateMarket.prepare_title {build : Build} {env : Env} {actor : Actor} {input : NewMarket}
    {prepared : Market × List Outcome} (h : prepare build env actor input = .goto prepared) :
    MarketTitle.new input.title = .ok prepared.1.title := by
  unfold prepare at h
  split at h
  · simp at h
  · split at h
    · simp [Next.domainError] at h
    · cases ht : MarketTitle.new input.title with
      | error e => simp [ht, Next.domainError] at h
      | ok title =>
        obtain ⟨market, outcomes⟩ := prepared
        simp only [ht] at h
        split at h
        · simp [Next.domainError] at h
        · split at h
          · simp at h
          · cases h
            rfl

theorem template_begins {t : MarketTemplate} (ht : t ∈ marketTemplates) (build : Build) (env : Env)
    (host : UserId) (now : DateTime) : ∃ prepared : Market × List Outcome,
      (Request.createMarket ⟨host, .admin⟩ (t.newMarket now)).begin build env =
        .running (.createMarket ⟨host, .admin⟩ (t.newMarket now) prepared) ∧
      prepared.1.title.value = t.title.toList := by
  obtain ⟨htrim, hne, hshort, hlen, -, hlabels⟩ := template_valid ht
  have htitle : MarketTitle.new (t.newMarket now).title =
      .ok ⟨t.title.toList, hne, hshort, htrim⟩ := by
    simp [MarketTemplate.newMarket, MarketTitle.new, BoundedText.new, htrim, hne, hshort]
  have hinput : ∀ label ∈ (t.newMarket now).outcomes, ∃ l, OutcomeLabel.new label = .ok l := by
    intro label hlabel
    obtain ⟨text, htext, rfl⟩ := List.mem_map.mp hlabel
    obtain ⟨hfilled, hlong⟩ := hlabels text htext
    exact ⟨⟨trim text.toList, hfilled, hlong, trim_trim _⟩, by
      simp [OutcomeLabel.new, BoundedText.new, hfilled, hlong]⟩
  have hcount : 2 ≤ (t.newMarket now).outcomes.length := by
    simpa [MarketTemplate.newMarket] using hlen
  obtain ⟨market, priced, hp, -⟩ : ∃ market priced,
      CreateMarket.prepare build env ⟨host, .admin⟩ (t.newMarket now) = .goto (market, priced) ∧ _ ∧
        _ := CreateMarket.prepare_ends rfl htitle hcount hinput
  refine ⟨(market, priced), by rw [Request.begin, hp]; rfl, ?_⟩
  have hprepared := CreateMarket.prepare_title hp
  rw [htitle] at hprepared
  rw [← Except.ok.inj hprepared]

theorem Db.outcomesForMarkets_of {db : Db} {ids : List MarketId} {id : MarketId} (hid : id ∈ ids) :
    ((db.outcomesForMarkets ids).filter fun o => o.marketId = id) = db.outcomesFor id := by
  have hchosen : db.outcomesFor id =
      (db.outcomes.rows.filter fun o => o.marketId ∈ ids).filter fun o => o.marketId = id := by
    rw [Db.outcomesFor, List.filter_filter]
    refine List.filter_congr fun o _ => ?_
    by_cases ho : o.marketId = id
    · simp [ho, hid]
    · simp [ho]
  have hsame : (db.outcomesFor id).Pairwise fun a b : Outcome =>
      a.marketId.uuid.toNat ≤ b.marketId.uuid.toNat := by
    refine List.pairwise_of_forall_mem_list fun a ha b hb => ?_
    rw [(Db.mem_outcomesFor.mp ha).2, (Db.mem_outcomesFor.mp hb).2]
  have hsub : (db.outcomesFor id).Sublist (db.outcomesForMarkets ids) := by
    refine List.sublist_insertionSort hsame ?_
    rw [hchosen]
    exact List.filter_sublist
  have hperm : (db.outcomesForMarkets ids).Perm
      (db.outcomes.rows.filter fun o => o.marketId ∈ ids) := List.perm_insertionSort _ _
  have hfiltered := (hsub.filter fun o => o.marketId = id)
  have hown : ((db.outcomesFor id).filter fun o => o.marketId = id) = db.outcomesFor id :=
    List.filter_eq_self.mpr fun o ho => by simpa using (Db.mem_outcomesFor.mp ho).2
  rw [hown] at hfiltered
  refine (hfiltered.eq_of_length ?_).symm
  rw [(hperm.filter _).length_eq, ← hchosen]

namespace ListMarkets

theorem byMarket_foldl (outcomes : List Outcome) (found : MarketId → List Outcome) (id : MarketId) :
    outcomes.foldl (fun (f : MarketId → List Outcome) o =>
      Function.update f o.marketId (f o.marketId ++ [o])) found id =
      found id ++ outcomes.filter fun o => o.marketId = id := by
  induction outcomes generalizing found with
  | nil => simp
  | cons o outcomes ih =>
    rw [List.foldl_cons, ih]
    by_cases ho : o.marketId = id
    · simp [ho]
    · simp [ho, Function.update_of_ne (Ne.symm ho)]

theorem byMarket_eq (outcomes : List Outcome) (id : MarketId) :
    byMarket outcomes id = outcomes.filter fun o => o.marketId = id := by
  rw [byMarket, byMarket_foldl, List.nil_append]

theorem map_views (found : MarketId → List Outcome) (markets : List Market) :
    (views found markets).map MarketView.market = markets := by
  induction markets generalizing found with
  | nil => rfl
  | cons market markets ih => rw [views, List.map_cons, ih]

theorem mem_views {found : MarketId → List Outcome} {markets : List Market}
    (hids : (markets.map Market.id).Nodup) {view : MarketView} (h : view ∈ views found markets) :
    view.outcomes = found view.market.id := by
  induction markets generalizing found with
  | nil => exact absurd h List.not_mem_nil
  | cons market markets ih =>
    obtain ⟨hfresh, hrest⟩ := List.nodup_cons.mp hids
    rcases List.mem_cons.mp h with rfl | h
    · rfl
    · have hmem : view.market ∈ markets := by
        rw [← map_views (Function.update found market.id []) markets]
        exact List.mem_map_of_mem h
      rw [ih hrest h, Function.update_of_ne]
      rintro heq
      exact hfresh (heq ▸ List.mem_map_of_mem hmem)

theorem map_grouped (db : Db) (markets : List Market) :
    (grouped db markets).map MarketView.market = markets := map_views _ _

theorem mem_grouped {db : Db} {markets : List Market} (hids : (markets.map Market.id).Nodup)
    {view : MarketView} (h : view ∈ grouped db markets) :
    view.market ∈ markets ∧ view.outcomes = db.outcomesFor view.market.id := by
  have hmem : view.market ∈ markets := by
    rw [← map_grouped db markets]
    exact List.mem_map_of_mem h
  refine ⟨hmem, ?_⟩
  rw [mem_views hids h, byMarket_eq, Db.outcomesForMarkets_of (List.mem_map_of_mem hmem)]

end ListMarkets

def newestOpen (rows : List Market) : List Market :=
  (rows.filter fun m => m.status = .opened).insertionSort fun a b =>
    PgMarketRepository.orderBy .newest a b

theorem openMarkets_listed (ilike : Text → Text → Bool) (rows : List Market) :
    PgMarketRepository.list ilike rows openMarkets = .ok ((newestOpen rows).take 50) := by
  have hselected : PgMarketRepository.selected ilike openMarkets =
      fun m : Market => decide (m.status = .opened) := by
    funext m
    simp [PgMarketRepository.selected, openMarkets, MarketFilter.default, MarketFilter.admits]
  have hlist : PgMarketRepository.list ilike rows openMarkets =
      .ok (Ranking.page 0 50 ((rows.filter
        (PgMarketRepository.selected ilike openMarkets)).insertionSort
          fun a b => PgMarketRepository.orderBy .newest a b)) := rfl
  rw [hlist, hselected, Ranking.page, List.drop_zero, newestOpen]

theorem mem_newestOpen {rows : List Market} {m : Market} :
    m ∈ newestOpen rows ↔ m ∈ rows ∧ m.status = .opened := by
  rw [newestOpen, List.mem_insertionSort, List.mem_filter, decide_eq_true_iff]

theorem newestOpen_nodup {rows : List Market} (h : (rows.map Market.id).Nodup) :
    ((newestOpen rows).map Market.id).Nodup := by
  have hperm := (List.perm_insertionSort (fun a b => PgMarketRepository.orderBy .newest a b)
    (rows.filter fun m => m.status = .opened)).map Market.id
  exact hperm.nodup_iff.mpr (h.sublist (List.filter_sublist.map Market.id))

theorem take_newestOpen {rows : List Market}
    (h : (rows.filter fun m => m.status = .opened).length ≤ 50) :
    (newestOpen rows).take 50 = newestOpen rows := by
  refine List.take_of_length_le ?_
  rwa [newestOpen, List.length_insertionSort]

namespace MarketMaker

theorem pickWinner_mem {rng : WeightedDraw} {outcomes : List Outcome} {draw : Nat} {o : Outcome}
    (h : pickWinner rng outcomes draw = .ok o) : o ∈ outcomes := by
  cases outcomes with
  | nil => simp [pickWinner] at h
  | cons first rest =>
    simp only [pickWinner, Except.ok.injEq] at h
    cases hc : rng.chooseWeighted (first :: rest) weight draw with
    | none =>
      simp only [hc, Option.getD_none] at h
      exact h ▸ List.mem_cons_self
    | some p =>
      simp only [hc, Option.getD_some] at h
      exact h ▸ rng.mem hc

/-- An open market that no longer accepts bets has a deadline, and it has passed. -/
theorem expired_due {now : DateTime} {view : MarketView} (hopen : view.market.status = .opened)
    (h : expired now view = true) :
    ∃ closes, view.market.closesAt = some closes ∧ closes ≤ now := by
  have hrefused : view.market.acceptsBets now = false := by
    simp only [expired, Bool.and_eq_true, Bool.not_eq_true'] at h
    exact h.1
  cases hc : view.market.closesAt with
  | none => simp [Market.acceptsBets, hopen, hc] at hrefused
  | some closes =>
    refine ⟨closes, rfl, ?_⟩
    simpa [Market.acceptsBets, hopen, hc] using hrefused

theorem mem_available {live : List MarketView} {t : MarketTemplate} :
    t ∈ available live ↔ t ∈ marketTemplates ∧
      t.title.toList ∉ (live.map MarketView.market).map fun m => m.title.value := by
  simp [available]

end MarketMaker

end Betsphere
