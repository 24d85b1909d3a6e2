import Betsphere.Application.Calls
import Betsphere.Domain.BetBook
import Betsphere.InMemory.Positions
set_option autoImplicit false

namespace Betsphere

/-- An active bet shows the mean of its bettor's active bets on the outcome, a settled one
the price it was placed at. -/
def EntryPrices (bets : List Bet) (mean : List Bet → Int) (views : List BetView) : Prop :=
  ∀ v ∈ views, v.avgPrice.tenThousandths =
    if v.bet.status = .active then mean (activeOn bets (v.bet.userId, v.bet.outcomeId))
    else v.bet.price.tenThousandths

section Joining
variable {bets page : List Bet} {mean : List Bet → Int} {markets : List Market}
  {outcomes : List Outcome} {positions : List ActivePosition}
  {usernames : List (UserId × Username)} {views : List BetView}

theorem find?_entries (hmean : MeanOf mean) {pairs : List (UserId × OutcomeId)}
    {pair : UserId × OutcomeId} (hpair : pair ∈ pairs) :
    (pairs.filterMap (entryOf bets mean)).find?
      (fun p => p.userId = pair.1 ∧ p.outcomeId = pair.2) =
      entryOf bets mean pair := by
  induction pairs with
  | nil => cases hpair
  | cons first pairs ih =>
    have hkey : ∀ p, entryOf bets mean first = some p →
        (decide (p.userId = pair.1 ∧ p.outcomeId = pair.2) = decide (first = pair)) := by
      intro p hp
      have hp := (entryOf_eq_some hmean hp).1
      rw [decide_eq_decide, ← hp, ActivePosition.pair, Prod.ext_iff]
    cases hentry : entryOf bets mean first with
    | none =>
      rw [List.filterMap_cons_none hentry]
      by_cases hfirst : first = pair
      · subst hfirst
        rw [hentry, List.find?_eq_none]
        intro p hp hboth
        obtain ⟨other, -, hother⟩ := List.mem_filterMap.mp hp
        have hsame : other = first := by
          rw [← (entryOf_eq_some hmean hother).1, ActivePosition.pair, Prod.ext_iff]
          exact of_decide_eq_true hboth
        rw [hsame, hentry] at hother
        cases hother
      · exact ih ((List.mem_cons.mp hpair).resolve_left fun h => hfirst h.symm)
    | some p =>
      rw [List.filterMap_cons_some hentry, List.find?_cons, hkey p hentry]
      by_cases hfirst : first = pair
      · subst hfirst
        simp [hentry]
      · simp only [hfirst, decide_false]
        exact ih ((List.mem_cons.mp hpair).resolve_left fun h => hfirst h.symm)

theorem viewOf_spec {bet : Bet} {view : BetView}
    (h : Enrich.viewOf markets outcomes positions usernames bet = .ok view) :
    view.bet = bet ∧ view.avgPrice = ((positions.find? fun p =>
      p.userId = bet.userId ∧ p.outcomeId = bet.outcomeId).map
        ActivePosition.avgPrice).getD bet.price := by
  unfold Enrich.viewOf at h
  split at h
  · cases h
  · split at h
    · cases h
    · split at h
      · cases h
      · cases h
        exact ⟨rfl, rfl⟩

theorem mapM_viewOf_spec {bets : List Bet} {views : List BetView}
    (h : bets.mapM (Enrich.viewOf markets outcomes positions usernames) = .ok views) :
    views.map BetView.bet = bets ∧ ∀ v ∈ views, v.avgPrice = ((positions.find? fun p =>
      p.userId = v.bet.userId ∧ p.outcomeId = v.bet.outcomeId).map
        ActivePosition.avgPrice).getD v.bet.price := by
  induction bets generalizing views with
  | nil =>
    cases h
    exact ⟨rfl, by simp⟩
  | cons bet bets ih =>
    rw [List.mapM_cons] at h
    cases hview : Enrich.viewOf markets outcomes positions usernames bet with
    | error e =>
      rw [hview] at h
      cases h
    | ok view =>
      cases hrest : bets.mapM (Enrich.viewOf markets outcomes positions usernames) with
      | error e =>
        rw [hview, hrest] at h
        cases h
      | ok rest =>
        rw [hview, hrest] at h
        cases h
        obtain ⟨hbet, hprice⟩ := viewOf_spec hview
        obtain ⟨hbets, hprices⟩ := ih hrest
        refine ⟨by rw [List.map_cons, hbet, hbets], fun v hv => ?_⟩
        rcases List.mem_cons.mp hv with rfl | hv
        · rw [hbet]
          exact hprice
        · exact hprices v hv

end Joining

/-- What the listing ports answer over stores that hold the book `k`. -/
structure Backend.Reads {σ : Type} (backend : Backend σ) (s : σ) (k : Book)
    (mean : List Bet → Int) : Prop where
  bounded : MeanOf mean
  positions : ∀ pairs, pairs.Nodup →
    backend.activePositions s pairs = .ok (pairs.filterMap (entryOf k.bets mean))
  users : ∀ id, k.known id → ∃ user, backend.userById s id = some user
  markets : ∀ ids, ∀ id ∈ ids, (∃ status, k.status id = some status) →
    ∃ m ∈ backend.marketsByIds s ids, m.id = id
  outcomes : ∀ ids, ∀ id ∈ ids, ∀ outcomeId, k.marketOf outcomeId = some id →
    ∃ o ∈ backend.outcomesForMarkets s ids, o.id = outcomeId
  pages : ∀ env (listing : BetListing) bets, listing.page backend env s = .ok bets →
    ∀ b ∈ bets, b ∈ k.bets

theorem Enrich.usernames_ok (userById : UserId → Option User) {ids : List UserId}
    (hids : ∀ id ∈ ids, ∃ user, userById id = some user) (known : List (UserId × Username)) :
    ∃ names, usernames userById known ids = .ok names ∧
      (∀ entry ∈ known, entry ∈ names) ∧ ∀ id ∈ ids, ∃ entry ∈ names, entry.1 = id := by
  induction ids generalizing known with
  | nil => exact ⟨known, rfl, fun _ h => h, by simp⟩
  | cons id ids ih =>
    have hrest := fun id' hid' => hids id' (List.mem_cons_of_mem id hid')
    by_cases hknown : known.any fun entry => entry.1 = id
    · obtain ⟨names, hnames, hkept, hall⟩ := ih hrest known
      refine ⟨names, by rw [usernames, if_pos hknown, hnames], hkept, fun id' hid' => ?_⟩
      rcases List.mem_cons.mp hid' with rfl | hid'
      · obtain ⟨entry, hentry, heq⟩ := List.any_eq_true.mp hknown
        exact ⟨entry, hkept entry hentry, of_decide_eq_true heq⟩
      · exact hall id' hid'
    · obtain ⟨user, huser⟩ := hids id List.mem_cons_self
      obtain ⟨names, hnames, hkept, hall⟩ := ih hrest ((id, user.username) :: known)
      refine ⟨names, ?_, fun entry h => hkept entry (List.mem_cons_of_mem _ h), fun id' hid' => ?_⟩
      · rw [usernames, if_neg hknown]
        simp only [huser]
        exact hnames
      · rcases List.mem_cons.mp hid' with rfl | hid'
        · exact ⟨_, hkept _ List.mem_cons_self, rfl⟩
        · exact hall id' hid'

theorem settledAs_settleOn (winner : OutcomeId) (b : Bet) :
    Book.SettledAs b (ResolveMarket.settleOn winner b) := by
  have hsame := ResolveMarket.settleOn_sameStake winner b
  refine ⟨hsame.id.symm, hsame.userId.symm, hsame.marketId.symm, hsame.outcomeId.symm, ?_⟩
  rw [(ResolveMarket.settleOn_settledOn winner b).status]
  split <;> decide

section Sound
variable {σ : Type} {backend : Backend σ} {s : σ} {k : Book} {mean : List Bet → Int}
  {bets : List Bet} {views : List BetView}

theorem enrich_ok (hr : backend.Reads s k mean) (hk : k.Sound) (hbets : ∀ b ∈ bets, b ∈ k.bets) :
    ∃ views, enrich backend s bets = .ok views := by
  have hpositions := hr.positions (bets.map fun b => (b.userId, b.outcomeId)).dedup
    (List.nodup_dedup _)
  have husers : ∀ id ∈ bets.map Bet.userId, ∃ user, backend.userById s id = some user := by
    intro id hid
    obtain ⟨b, hb, rfl⟩ := List.mem_map.mp hid
    exact hr.users _ (hk.known b (hbets b hb))
  obtain ⟨names, hnames, -, hall⟩ := Enrich.usernames_ok (backend.userById s) husers []
  have hviews : ∃ views, bets.mapM (Enrich.viewOf
      (backend.marketsByIds s (bets.map Bet.marketId).dedup)
      (backend.outcomesForMarkets s (bets.map Bet.marketId).dedup)
      ((bets.map fun b => (b.userId, b.outcomeId)).dedup.filterMap (entryOf k.bets mean))
      names) = .ok views := by
    refine Enrich.mapM_ok fun b hb => ?_
    have hid : b.marketId ∈ (bets.map Bet.marketId).dedup :=
      List.mem_dedup.mpr (List.mem_map_of_mem hb)
    obtain ⟨status, hstatus, -⟩ := hk.active_iff b (hbets b hb)
    exact Enrich.viewOf_ok (hr.markets _ _ hid ⟨status, hstatus⟩)
      (hr.outcomes _ _ hid _ (hk.belongs b (hbets b hb))) (hall _ (List.mem_map_of_mem hb))
  obtain ⟨views, hviews⟩ := hviews
  exact ⟨views, by simp only [enrich, hpositions, hnames, hviews]⟩

theorem enrich_spec (hr : backend.Reads s k mean) (hk : k.Sound) (hbets : ∀ b ∈ bets, b ∈ k.bets)
    (h : enrich backend s bets = .ok views) :
    views.map BetView.bet = bets ∧ EntryPrices k.bets mean views := by
  have hpositions := hr.positions (bets.map fun b => (b.userId, b.outcomeId)).dedup
    (List.nodup_dedup _)
  simp only [enrich, hpositions] at h
  split at h
  · cases h
  · obtain ⟨hviews, hprices⟩ := mapM_viewOf_spec h
    refine ⟨hviews, fun v hv => ?_⟩
    have hb : v.bet ∈ bets := by
      rw [← hviews]
      exact List.mem_map_of_mem hv
    have hpair : (v.bet.userId, v.bet.outcomeId) ∈
        (bets.map fun b => (b.userId, b.outcomeId)).dedup :=
      List.mem_dedup.mpr (List.mem_map_of_mem (f := fun b : Bet => (b.userId, b.outcomeId)) hb)
    rw [hprices v hv, find?_entries hr.bounded hpair]
    by_cases hactive : v.bet.status = .active
    · have hne : activeOn k.bets (v.bet.userId, v.bet.outcomeId) ≠ [] := by
        refine List.ne_nil_of_mem (a := v.bet) (List.mem_filter.mpr ⟨hbets _ hb, ?_⟩)
        simpa using hactive
      obtain ⟨avgPrice, -, hentry, hvalue⟩ := entryOf_some hr.bounded hne
      rw [hentry, if_pos hactive]
      exact hvalue
    · have hnil : activeOn k.bets (v.bet.userId, v.bet.outcomeId) = [] := by
        refine List.filter_eq_nil_iff.mpr fun b hmem hon => ?_
        obtain ⟨-, houtcome, hstatus⟩ := of_decide_eq_true hon
        exact hactive ((hk.together hmem (hbets _ hb) houtcome).mp hstatus)
      rw [entryOf, if_pos hnil, if_neg hactive]
      rfl

end Sound

end Betsphere
