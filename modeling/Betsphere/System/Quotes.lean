import Betsphere.System.Interleaving
set_option autoImplicit false

namespace Betsphere
open MachineInt Pricing

def Db.Quoted (db : Db) : Prop := ∀ id, db.HasMarket id → SumsToOne (db.pricesOf id)

theorem created_sumsToOne {build : Build} {raw outcomes : List Outcome} (hlen : 2 ≤ raw.length)
    (hzero : ∀ o ∈ raw, o.volume = 0) (h : recalculatePrices build raw = .ok outcomes) :
    SumsToOne (priceVector outcomes) := by
  have hne : raw ≠ [] := by
    rintro rfl
    simp at hlen
  have hnn : NonNegative raw := fun o ho => by simp [hzero o ho]
  have hvols : raw.map Outcome.volume = List.replicate raw.length 0 :=
    List.eq_replicate_iff.mpr ⟨by simp, by simpa using hzero⟩
  have hfits : Fits raw := by
    refine ⟨by simp [hvols, i64Max], fun o ho => ?_⟩
    simp [hzero o ho, i64Max]
  exact recalculatePrices_sumsToOne hne hnn hfits h

theorem PricedFrom.sumsToOne {build : Build} {outcomes priced : List Outcome} {chosen : Nat}
    {bet : Bet} (h : PricedFrom build Fits outcomes chosen bet priced)
    (hnd : (outcomes.map Outcome.id).Nodup) (hnn : NonNegative outcomes) :
    SumsToOne (priceVector priced) := by
  have hvols := staked_volumes hnd hnn h.backs h.checked
  exact recalculatePrices_sumsToOne (staked_ne_nil h.backs) (staked_nonNegative hnn hvols)
    h.checked h.result

theorem Write.Done.hadMarket {db db' : Db} {w : Write} {now : DateTime} (h : w.Done db now db')
    {id : MarketId} (hm : db'.HasMarket id) :
    db.HasMarket id ∨ ∃ market outcomes at', w = .create market outcomes at' ∧ market.id = id := by
  obtain ⟨m, hm⟩ := hm
  cases h with
  | create market outcomes at' hen =>
    rw [marketById_created] at hm
    split at hm
    · rename_i hid
      exact .inr ⟨market, outcomes, at', rfl, hid⟩
    · exact .inl ⟨m, hm⟩
  | place bet priced points hen =>
    rw [marketById_placed] at hm
    obtain ⟨m₀, hm₀, -⟩ := Option.map_eq_some_iff.mp hm
    exact .inl ⟨m₀, hm₀⟩
  | settle market settled hin =>
    rw [marketById_settled] at hm
    obtain ⟨m₀, hm₀, -⟩ := Option.map_eq_some_iff.mp hm
    exact .inl ⟨m₀, hm₀⟩
  | save cause user hun => exact .inl ⟨m, hm⟩

theorem Db.Quoted.done {build : Build} {history : List Db} {db db' : Db} {w : Write}
    {now : DateTime} (h : db.Quoted) (hwf : db.Wf) (hok : w.Ok db) (hdone : w.Done db now db')
    (hsrc : w.Sourced build Fits history) (hexact : ∀ d ∈ history, d.VolumesExact) :
    db'.Quoted := by
  intro id hm
  rcases hdone.hadMarket hm with hold | ⟨market, outcomes, at', rfl, rfl⟩
  · cases hw : w.placedOn id with
    | none =>
      rw [Db.pricesOf, hdone.outcomesFor_other hok hw hold]
      exact h id hold
    | some bet =>
      obtain ⟨priced, points, rfl, rfl⟩ := placedOn_some hw
      obtain ⟨d, hd, chosen, hfrom⟩ := hsrc
      rw [hdone.pricesOf hok]
      exact hfrom.sumsToOne (d.outcomeIds_nodup _) ((hexact d hd).nonNegative _)
  · cases hdone with
    | create market outcomes at' hen =>
      obtain ⟨raw, hlen, hzero, hprice⟩ := hsrc
      rw [Db.pricesOf, outcomesFor_created hen fun o ho => (hok.2.2.2.2 o ho).1,
        (fresh_market hwf hen.freshMarket).1, if_pos rfl, List.nil_append]
      exact created_sumsToOne hlen hzero hprice

structure Sys.Quotes (build : Build) (s : Sys) : Prop where
  wf : s.Wf
  exact : ∀ d ∈ s.history, d.VolumesExact
  sourced : s.Sourced build Fits
  quoted : s.db.Quoted

theorem Sys.Quotes.effect {build : Build} {s s' : Sys} {a : Act} (h : s.Quotes build)
    (hfits : PricingFits s a) (he : Sys.Effect build s a s') : s'.Quotes build := by
  have hsourced := h.sourced.effect h.wf hfits he
  rcases h.sourced.tables h.wf he with ⟨hdb, hlog⟩ | ⟨w, now, hok, hdone, hlog, hpriced⟩
  · have hhistory : s'.history = s.history := by simp [Sys.history, hlog]
    refine ⟨h.wf.effect he, ?_, hsourced, ?_⟩
    · rw [hhistory]
      exact h.exact
    · rw [hdb]
      exact h.quoted
  · have hhistory : s'.history = s'.db :: s.history := by simp [Sys.history, hlog]
    refine ⟨h.wf.effect he, ?_, hsourced, h.quoted.done h.wf.db hok hdone hpriced h.exact⟩
    rw [hhistory]
    refine List.forall_mem_cons.mpr ⟨?_, h.exact⟩
    exact (h.exact s.db h.sourced.current).done h.wf.db hok hdone

theorem Sys.quoted_run {build : Build} {as : List Act} {s : Sys}
    (h : Transition.run (Sys.step build) Sys.init as = some s)
    (hg : Transition.Guarded (Sys.step build) PricingFits Sys.init as) : s.db.Quoted := by
  have hinit : Sys.init.Quotes build := by
    refine ⟨Sys.wf_init, ?_, Sys.sourced_init, ?_⟩
    · intro d hd
      obtain rfl : d = Db.empty := by simpa [Sys.history, Sys.init] using hd
      exact ⟨by simp [Db.empty], by simp [Db.empty]⟩
    · rintro id ⟨m, hm⟩
      simp [Sys.init, Db.empty, Db.marketById, Table.find?] at hm
  have hstep : ∀ t a t', t.Quotes build → PricingFits t a → Sys.step build t a = some t' →
      t'.Quotes build := fun _ _ _ hi hok hs => hi.effect hok (Sys.step_effect hs)
  exact (Transition.run_invariant hstep hinit hg h).quoted

/-- Whoever reads the outcomes of a market finds prices that sum to one, whichever
statements of whichever placements ran before. -/
theorem prices_sum {build : Build} {bs : List FineAct} {f : Fine}
    (h : Transition.run (Fine.step build) Fine.init bs = some f)
    (hfits : Transition.Guarded (Fine.step build) Fine.PricingFits Fine.init bs)
    (id : MarketId) (hm : f.sys.db.HasMarket id) :
    (f.sys.db.pricesOf id).sum = 10000 ∧
      ∀ p ∈ f.sys.db.pricesOf id, 0 ≤ p ∧ p ≤ 10000 := by
  obtain ⟨as, has, hguard⟩ := Fine.run_fits h hfits
  have hone := Sys.quoted_run has hguard id hm
  exact ⟨hone.sum, hone.entries⟩

/-- Alice's transaction has updated the first outcome and bob's has debited him: a
reader still finds the even split. After the three commits he finds the last vector. -/
theorem prices_sum_tangled :
    let half := Sample.firstBets ++ Sample.execs 1 4 ++ [.exec 3]
    (Sample.fine half).sys.db.pricesOf ⟨100⟩ = [5000, 5000] ∧
      (Sample.fine Sample.tangled).sys.db.pricesOf ⟨100⟩ = [0, 10000] ∧
      ((Sample.fine half).sys.db.pricesOf ⟨100⟩).sum = 10000 ∧
      ((Sample.fine Sample.tangled).sys.db.pricesOf ⟨100⟩).sum = 10000 := by
  intro half
  refine ⟨by decide +kernel, by decide +kernel, ?_, ?_⟩
  · exact (prices_sum (Sample.run_fine (by decide +kernel)) (by decide +kernel) ⟨100⟩
      ⟨_, rfl⟩).1
  · exact (prices_sum (Sample.run_fine (by decide +kernel)) (by decide +kernel) ⟨100⟩
      ⟨_, rfl⟩).1

end Betsphere
