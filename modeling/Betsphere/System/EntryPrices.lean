import Betsphere.System.LoneStakes
set_option autoImplicit false

namespace Betsphere
open MachineInt Pricing Apportion

/-- Every listing shows the bets of its page, each at its entry price. -/
def Backend.ListsEntryPrices {σ : Type} (backend : Backend σ) (s : σ) (bets : List Bet)
    (mean : List Bet → Int) : Prop :=
  ∀ env listing views, BetListing.execute backend env s listing = .ok views →
    ∃ page, listing.page backend env s = .ok page ∧ views.map BetView.bet = page ∧
      EntryPrices bets mean views

/-- NUMERIC division carries no average of an active bet in `views` over. -/
def ViewsExact (bets : List Bet) (views : List BetView) : Prop :=
  ∀ v ∈ views, v.bet.status = .active →
    Numeric.Exact (weightedSum (activeOn bets (v.bet.userId, v.bet.outcomeId)))
      (amountSum (activeOn bets (v.bet.userId, v.bet.outcomeId)))

section Listed
variable {σ : Type} {backend : Backend σ} {s : σ} {k : Book} {mean : List Bet → Int}

theorem Backend.Reads.listsEntryPrices (hr : backend.Reads s k mean) (hk : k.Sound) :
    backend.ListsEntryPrices s k.bets mean := by
  intro env listing views h
  obtain ⟨page, hpage, henrich⟩ := listing.execute_ok h
  obtain ⟨hviews, hprices⟩ := enrich_spec hr hk (hr.pages env listing page hpage) henrich
  exact ⟨page, hpage, hviews, hprices⟩

end Listed

section Means
variable {bets : List Bet} {views : List BetView}

theorem entryPrices_floored_iff (hlisted : ∀ v ∈ views, v.bet ∈ bets)
    (h : EntryPrices bets numericMean views) :
    EntryPrices bets flooredMean views ↔ ViewsExact bets views := by
  have hne : ∀ v ∈ views, v.bet.status = .active →
      activeOn bets (v.bet.userId, v.bet.outcomeId) ≠ [] := by
    intro v hv hactive
    refine List.ne_nil_of_mem (a := v.bet) (List.mem_filter.mpr ⟨hlisted v hv, ?_⟩)
    simpa using hactive
  constructor
  · intro hfloored v hv hactive
    have hnumeric := h v hv
    have hprice := hfloored v hv
    rw [if_pos hactive] at hnumeric hprice
    exact (numericMean_eq_iff (hne v hv hactive)).mp (hnumeric.symm.trans hprice)
  · intro hexact v hv
    rw [h v hv]
    split
    · rename_i hactive
      exact (numericMean_eq_iff (hne v hv hactive)).mpr (hexact v hv hactive)
    · rfl

end Means

section Runs
variable (build : Build) (users : Table User.id) (calls : List MarketCall)

theorem inMemory_listings {m : Mem} (hnd : (calls.flatMap MarketCall.draws).Nodup)
    (hrun : afterCalls (inMemoryBackend build) build calls
      (Mem.start users .empty .empty []) = some m) :
    (inMemoryBackend build).ListsEntryPrices m m.bets flooredMean := by
  have hdistinct : (Mem.start users .empty .empty []).Distinct [] :=
    ⟨List.nodup_nil, List.nodup_nil, by simp [Mem.start, Table.empty],
      by simp [Mem.start, Table.empty], by simp [Mem.start]⟩
  have hsound : (Mem.start users .empty .empty []).book.Sound :=
    ⟨List.nodup_nil, by simp [Mem.book, Mem.start], by simp [Mem.book, Mem.start],
      by simp [Mem.book, Mem.start]⟩
  exact (inMemoryBackend_reads build m).listsEntryPrices
    (Mem.afterCalls_sound hdistinct hsound hnd hrun)

theorem pg_sound {db : Db}
    (hrun : afterCalls pgBackend build calls (Db.start users .empty .empty []) = some db) :
    db.book.Sound := by
  have hsound : (Db.start users .empty .empty []).book.Sound :=
    ⟨List.nodup_nil, by simp [Db.book, Db.start, Table.empty],
      by simp [Db.book, Db.start, Table.empty], by simp [Db.book, Db.start, Table.empty]⟩
  exact Db.afterCalls_sound hsound hrun

theorem pg_listings {db : Db}
    (hrun : afterCalls pgBackend build calls (Db.start users .empty .empty []) = some db) :
    pgBackend.ListsEntryPrices db db.bets.rows numericMean :=
  (pgBackend_reads db).listsEntryPrices (pg_sound build users calls hrun)

/-- After any calls the in-memory listings show the floored means. The ones over Postgres
show them exactly when NUMERIC division carries none of them over to the next price. -/
theorem listings_report_entry_prices :
    (∃ m, afterCalls (inMemoryBackend build) build calls
        (Mem.start users .empty .empty []) = some m ∧
      ((calls.flatMap MarketCall.draws).Nodup →
        (inMemoryBackend build).ListsEntryPrices m m.bets flooredMean)) ∧
    ∃ db, afterCalls pgBackend build calls (Db.start users .empty .empty []) = some db ∧
      pgBackend.ListsEntryPrices db db.bets.rows numericMean ∧
      ∀ env listing views, BetListing.execute pgBackend env db listing = .ok views →
        (EntryPrices db.bets.rows flooredMean views ↔ ViewsExact db.bets.rows views) := by
  obtain ⟨m, hm⟩ := afterCalls_ends (inMemoryBackend build) build calls
    (Mem.start users .empty .empty [])
  obtain ⟨db, hdb⟩ := afterCalls_ends pgBackend build calls (Db.start users .empty .empty [])
  refine ⟨⟨m, hm, fun hnd => inMemory_listings build users calls hnd hm⟩, db, hdb,
    pg_listings build users calls hdb, fun env listing views h => ?_⟩
  obtain ⟨page, hpage, hviews, hprices⟩ := pg_listings build users calls hdb env listing views h
  refine entryPrices_floored_iff (fun v hv => ?_) hprices
  refine (pgBackend_reads db).pages env listing page hpage _ ?_
  rw [← hviews]
  exact List.mem_map_of_mem hv

end Runs

namespace Sample

/-- With ten thousand outcomes each price begins at one tick. -/
def wide : NewMarket :=
  ⟨['w', 'i', 'd', 'e'], none, none, none, List.replicate 10000 ['a']⟩

def wealthy : User := { User.new ⟨5⟩ alice ⟨alice.value⟩ ⟨[]⟩ 0 with balance := 10 ^ 17 }

def wealthyOnly : Table User.id := ⟨[wealthy], by decide⟩

/-- The second bet leaves the mean one stake short of the next price. -/
def wideCalls : List MarketCall := [
  .create admin wide fun _ => env 1 0,
  .betting ⟨.placeBet ⟨⟨5⟩, .user⟩ ⟨⟨1⟩, 3 * 10 ^ 12⟩, fun _ => env 2 20001⟩,
  .betting ⟨.placeBet ⟨⟨5⟩, .user⟩ ⟨⟨1⟩, 9998 * (3 * 10 ^ 12) - 1⟩, fun _ => env 3 20002⟩]

end Sample

theorem wide_created : ∃ db r, MarketCall.run pgBackend .release
    (Db.start Sample.wealthyOnly .empty .empty [])
      (.create Sample.admin Sample.wide fun _ => Sample.env 1 0) = some (db, r) ∧
    db.bets = .empty ∧ db.users = Sample.wealthyOnly ∧
      LoneStake db ⟨0⟩ ⟨1⟩ 9999 0 Price.minTick := by
  have hlabels : ∀ label ∈ Sample.wide.outcomes, ∃ l, OutcomeLabel.new label = .ok l := by
    intro label hlabel
    rw [List.eq_of_mem_replicate hlabel]
    exact ⟨⟨['a'], by decide, by decide, by decide⟩, by rfl⟩
  have htitle : MarketTitle.new Sample.wide.title =
      .ok ⟨['w', 'i', 'd', 'e'], by decide, by decide, by decide⟩ := by rfl
  have hcount : Sample.wide.outcomes.length = 10000 := List.length_replicate
  obtain ⟨market, priced, hprepare, hlen, hprices⟩ : ∃ market priced, CreateMarket.prepare .release
      (Sample.env 1 0) Sample.admin Sample.wide = .goto (market, priced) ∧ priced.length = 10000 ∧
      priceVector priced = List.replicate 10000 1 := by
    have heven : apportion Price.scale (List.replicate 10000 0) = List.replicate 10000 1 :=
      apportion_even (by decide) (by decide)
    rw [← heven, ← hcount]
    exact CreateMarket.prepare_ends (by rfl) htitle (by rw [hcount]; decide) hlabels
  have hids : market.id.uuid :: priced.map (fun o => o.id.uuid) =
      (List.range 10001).map (BitVec.ofNat 128) := by
    have hdraws : market.id.uuid :: priced.map (fun o => o.id.uuid) =
        (MarketCall.create Sample.admin Sample.wide fun _ => Sample.env 1 0).draws :=
      prepare_ids hprepare
    rw [hdraws, MarketCall.draws, hcount]
    simp [Sample.env]
  have hnd : (market.id.uuid :: priced.map fun o => o.id.uuid).Nodup := by
    rw [hids]
    refine List.Nodup.map_on (fun i hi j hj heq => ?_) List.nodup_range
    rw [List.mem_range] at hi hj
    have hnat := congrArg BitVec.toNat heq
    simp only [BitVec.toNat_ofNat] at hnat
    omega
  cases priced with
  | nil => simp at hlen
  | cons first rest =>
    rw [List.length_cons, Nat.add_right_cancel_iff] at hlen
    rw [List.range_eq_range', List.range'_succ, List.range'_succ, List.map_cons, List.map_cons,
      List.map_cons, List.cons.injEq, List.cons.injEq] at hids
    obtain ⟨hmarket, hfirst, -⟩ := hids
    have hmid : market.id = ⟨0⟩ := congrArg MarketId.mk hmarket
    have hfid : first.id = ⟨1⟩ := congrArg OutcomeId.mk hfirst
    have htick : first.currentPrice = Price.minTick := by
      rw [List.replicate_succ, priceVector, List.map_cons, List.cons.injEq] at hprices
      exact Price.eq_of_tenThousandths hprices.1
    have hdistinct : ((first :: rest).map Outcome.id).Nodup := by
      refine List.Nodup.of_map OutcomeId.uuid ?_
      rw [List.map_map]
      exact (List.nodup_cons.mp hnd).2
    have hen : CreateEnabled (Db.start Sample.wealthyOnly .empty .empty []) market
        (first :: rest) :=
      ⟨rfl, fun _ _ => rfl, hdistinct⟩
    have hlone := lone_created (fun _ => Sample.env 1 0) hprepare rfl hen rfl
    rwa [hmid, hfid, hlen, htick] at hlone

theorem wide_staked : ∃ first second db,
    afterCalls pgBackend .release Sample.wideCalls (Db.start Sample.wealthyOnly .empty .empty []) =
      some db ∧ db.bets.rows = [first, second] ∧ first.status = .active ∧
    (first.userId, first.outcomeId) = (⟨5⟩, ⟨1⟩) ∧
    activeOn [first, second] (⟨5⟩, ⟨1⟩) = [first, second] ∧
    weightedSum [first, second] = 3 * 10 ^ 12 + (9998 * (3 * 10 ^ 12) - 1) * 10000 ∧
    amountSum [first, second] = 3 * 10 ^ 12 + (9998 * (3 * 10 ^ 12) - 1) := by
  obtain ⟨db₀, r₀, hcreate, hbets₀, husers₀, hlone₀⟩ := wide_created
  have huser₀ : db₀.userById ⟨5⟩ = some Sample.wealthy := by
    rw [Db.userById, husers₀]
    rfl
  obtain ⟨first, db₁, r₁, hrun₁, hrows₁, hfirst, hlone₁, user₁, huser₁, hbalance₁⟩ :=
    hlone₀.run .release ⟨⟨5⟩, .user⟩ (3 * 10 ^ 12) (fun _ => Sample.env 2 20001) Price.one huser₀
      (by decide) (by decide) (by decide) (by decide) (by rw [hbets₀]; rfl)
      (by rw [hbets₀]; decide) fun o os hvolume hothers hrest =>
        recalculatePrices_first 10000 hvolume (by decide) (by decide) hrest (by decide +kernel)
          (by decide) (by rw [hothers]; decide) (by decide)
  rw [hbets₀, Table.rows_empty, List.nil_append] at hrows₁
  have hfresh : db₁.bets.find? ⟨(Sample.env 3 20002).fresh 0⟩ = none := by
    refine Table.find?_eq_none.mpr fun b hb => ?_
    rw [hrows₁, List.mem_singleton] at hb
    rw [hb, hfirst.1]
    decide
  obtain ⟨second, db₂, r₂, hrun₂, hrows₂, hsecond, -, -⟩ :=
    hlone₁.run .release ⟨⟨5⟩, .user⟩ (9998 * (3 * 10 ^ 12) - 1) (fun _ => Sample.env 3 20002)
      ⟨161, by decide⟩ huser₁ (by rw [hbalance₁]; decide) (by decide) (by decide) (by decide) hfresh
      (by rw [hrows₁, List.length_singleton]; decide) fun o os hvolume hothers hrest =>
        recalculatePrices_first 160 hvolume (by decide) (by decide) hrest (by decide +kernel)
          (by decide) (by rw [hothers]; decide) (by decide)
  rw [hrows₁] at hrows₂
  obtain ⟨hid₁, huser₁, hmarket₁, houtcome₁, hamount₁, hprice₁, hactive₁, -⟩ := hfirst
  obtain ⟨hid₂, huser₂, hmarket₂, houtcome₂, hamount₂, hprice₂, hactive₂, -⟩ := hsecond
  refine ⟨first, second, db₂, ?_, hrows₂, hactive₁, ?_, ?_, ?_, ?_⟩
  · simp only [afterCalls, Sample.wideCalls, hcreate, hrun₁, hrun₂]
  · rw [huser₁, houtcome₁]
  · simp [activeOn, huser₁, houtcome₁, hactive₁, huser₂, houtcome₂, hactive₂]
  · simp only [weightedSum, List.map_cons, List.map_nil, List.sum_cons, List.sum_nil, hamount₁,
      hamount₂, hprice₁, hprice₂]
    decide
  · simp only [amountSum, List.map_cons, List.map_nil, List.sum_cons, List.sum_nil, hamount₁,
      hamount₂]
    decide

/-- The feed after these calls shows the first bet at a price above its floored mean. -/
theorem listing_carries_price_over : ∃ db views,
    afterCalls pgBackend .release Sample.wideCalls (Db.start Sample.wealthyOnly .empty .empty []) =
      some db ∧
    BetListing.execute pgBackend (Sample.env 4 0) db (.feed .default) = .ok views ∧
    ¬EntryPrices db.bets.rows flooredMean views := by
  obtain ⟨first, second, db, hrun, hrows, hactive, hpair, hon, hweighted, hamount⟩ := wide_staked
  have hscanned : db.scanned (Sample.env 4 0) = [first, second] := by
    simp [Db.scanned, Sample.env, hrows]
  obtain ⟨page, hpage, hfirst⟩ : ∃ page, (BetListing.feed .default).page pgBackend (Sample.env 4 0)
      db = .ok page ∧ first ∈ page := by
    refine ⟨[first, second].insertionSort fun a b => PgBetRepository.orderBy .newest a b, ?_, ?_⟩
    · simp [BetListing.page, pgBackend, PgBetRepository.feed, PgBetRepository.list, hscanned,
        BetFilter.default, BetStatusFilter.matches]
      split <;> simp
    · exact (List.mem_insertionSort _).mpr List.mem_cons_self
  have hsound := pg_sound .release Sample.wealthyOnly Sample.wideCalls hrun
  have hreads := pgBackend_reads db
  obtain ⟨views, hviews⟩ := enrich_ok hreads hsound (hreads.pages _ _ page hpage)
  have hbets := (enrich_spec hreads hsound (hreads.pages _ _ page hpage) hviews).1
  have hexecute :
      BetListing.execute pgBackend (Sample.env 4 0) db (.feed .default) = .ok views := by
    have hfound : pgBackend.feed (Sample.env 4 0) db .default = .ok page := hpage
    simp only [BetListing.execute, ListBetFeed.execute, hfound, enrichFound, hviews]
  refine ⟨db, views, hrun, hexecute, fun hprices => ?_⟩
  obtain ⟨page', -, -, hnumeric⟩ := pg_listings .release Sample.wealthyOnly Sample.wideCalls hrun
    _ _ _ hexecute
  have hlisted : ∀ v ∈ views, v.bet ∈ db.bets.rows := by
    intro v hv
    refine hreads.pages _ _ page hpage _ ?_
    rw [← hbets]
    exact List.mem_map_of_mem hv
  have hexact := (entryPrices_floored_iff hlisted hnumeric).mp hprices
  obtain ⟨v, hv, hvbet⟩ : ∃ v ∈ views, v.bet = first := by
    rw [← hbets] at hfirst
    exact List.mem_map.mp hfirst
  have hcarried := hexact v hv (by rw [hvbet]; exact hactive)
  rw [hvbet, hpair, hrows, hon, hweighted, hamount] at hcarried
  exact absurd hcarried (by decide +kernel)

end Betsphere
