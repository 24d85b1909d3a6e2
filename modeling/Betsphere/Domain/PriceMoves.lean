import Betsphere.Domain.Pricing
set_option autoImplicit false

namespace Betsphere.Pricing
open MachineInt Apportion

def flooredShare (outcomes : List Outcome) (o : Outcome) : Int :=
  let total := (outcomes.map Outcome.volume).sum
  if total = 0 then 10000 / (outcomes.length : Int) else 10000 * o.volume / total

def handedOut (outcomes : List Outcome) : Int := 10000 - (outcomes.map (flooredShare outcomes)).sum

theorem floors_volumes {outcomes : List Outcome} (hnn : NonNegative outcomes) :
    floors Price.scale (outcomes.map Outcome.volume) = outcomes.map (flooredShare outcomes) := by
  have htotal : 0 ≤ (outcomes.map Outcome.volume).sum := List.sum_nonneg (volumes_nonneg hnn)
  by_cases hzero : (outcomes.map Outcome.volume).sum = 0
  · simp [floors, hzero, flooredShare, Price.scale]
  · have hpos : ¬(outcomes.map Outcome.volume).sum ≤ 0 := by omega
    simp [floors, hzero, hpos, flooredShare, Price.scale, mul_comm]

theorem leftover_volumes {outcomes : List Outcome} (hnn : NonNegative outcomes) :
    leftover Price.scale (outcomes.map Outcome.volume) = handedOut outcomes := by
  rw [leftover, floors_volumes hnn]
  rfl

theorem fits_of_total {outcomes : List Outcome} (hnn : NonNegative outcomes)
    (hfit : (outcomes.map Outcome.volume).sum * 10000 < 2 ^ 63) : Fits outcomes := by
  have hvol := volumes_nonneg hnn
  have htotal : 0 ≤ (outcomes.map Outcome.volume).sum := List.sum_nonneg hvol
  refine ⟨by unfold i64Max; omega, fun o ho => ?_⟩
  have hle := List.single_le_sum hvol o.volume (List.mem_map_of_mem ho)
  unfold i64Max Price.scale
  omega

theorem map_volume_of_unpriced {outcomes others : List Outcome}
    (h : others.map unpriced = outcomes.map unpriced) :
    others.map Outcome.volume = outcomes.map Outcome.volume := by
  have hcomp : Outcome.volume ∘ unpriced = Outcome.volume := rfl
  have hmap := congrArg (List.map Outcome.volume) h
  simpa only [List.map_map, hcomp] using hmap

theorem assignPrice_unpriced {o o' : Outcome} {share : Int} (h : 0 ≤ share ∧ share ≤ 10000)
    (ho : unpriced o = unpriced o') : assignPrice o share = assignPrice o' share := by
  have hw : wrap32 share = share := wrap32_of_inI32 (by unfold InI32 i32Min i32Max; omega)
  have hset : ∀ p : Price, o.setCurrentPrice p = o'.setCurrentPrice p := by
    intro p
    change (unpriced o).setCurrentPrice p = (unpriced o').setCurrentPrice p
    rw [ho]
  simp [assignPrice, hw, Price.fromTenThousandths_of_inRange h, hset]

theorem zipWith_unpriced {outcomes others : List Outcome} {shares : List Int}
    (h : ∀ x ∈ shares, 0 ≤ x ∧ x ≤ 10000) (ho : others.map unpriced = outcomes.map unpriced) :
    others.zipWith assignPrice shares = outcomes.zipWith assignPrice shares := by
  induction outcomes generalizing others shares with
  | nil =>
    have hnil : others = [] := by simpa using ho
    rw [hnil]
  | cons o os ih =>
    cases others with
    | nil => simp at ho
    | cons p ps =>
      cases shares with
      | nil => rfl
      | cons x xs =>
        obtain ⟨hhead, htail⟩ := List.cons_eq_cons.mp ho
        have hrest := ih (fun y hy => h y (List.mem_cons_of_mem x hy)) htail
        simp only [List.zipWith_cons_cons, hrest, assignPrice_unpriced (h x (by simp)) hhead]

theorem recalculatePrices_congr {build : Build} {outcomes others : List Outcome}
    (hne : outcomes ≠ []) (hnn : NonNegative outcomes) (hfit : Fits outcomes)
    (ho : others.map unpriced = outcomes.map unpriced) :
    recalculatePrices build others = recalculatePrices build outcomes := by
  have hvol := map_volume_of_unpriced ho
  have hne' : others ≠ [] := by
    rintro rfl
    exact hne (by simpa using ho.symm)
  rw [recalculatePrices_of_fits build hne' (nonNegative_congr hvol hnn) (fits_congr hvol hfit),
    recalculatePrices_of_fits build hne hnn hfit, hvol,
    zipWith_unpriced (apportion_inRange hne hnn) ho]

/-- `recalculate_prices` in full: no panic, nothing but prices changes, each price is its
floored share, one unit more for the first `r`, whatever the prices were before. -/
theorem prices_meet_specification (build : Build) {outcomes : List Outcome} (hne : outcomes ≠ [])
    (hnn : NonNegative outcomes) (hfit : (outcomes.map Outcome.volume).sum * 10000 < 2 ^ 63) :
    ∃ priced, recalculatePrices build outcomes = .ok priced ∧
      priced.map unpriced = outcomes.map unpriced ∧ (priceVector priced).sum = 10000 ∧
      0 ≤ handedOut outcomes ∧ handedOut outcomes < outcomes.length ∧
      (∀ (i : Nat) (o : Outcome), outcomes[i]? = some o → (priceVector priced)[i]? =
        some (flooredShare outcomes o + if (i : Int) < handedOut outcomes then 1 else 0)) ∧
      (∀ others, others.map unpriced = outcomes.map unpriced →
        recalculatePrices build others = .ok priced) ∧
      recalculatePrices build priced = .ok priced := by
  have hfits := fits_of_total hnn hfit
  have hrun := recalculatePrices_of_fits build hne hnn hfits
  have hsame := recalculatePrices_unpriced hrun
  have hbounds := remainder_bounds hne
  rw [leftover_volumes hnn] at hbounds
  refine ⟨_, hrun, hsame, (recalculatePrices_sumsToOne hne hnn hfits hrun).sum, hbounds.1,
    hbounds.2, ?_, ?_, ?_⟩
  · intro i o hi
    have hshare : (floors Price.scale (outcomes.map Outcome.volume))[i]? =
        some (flooredShare outcomes o) := by
      rw [floors_volumes hnn, List.getElem?_map, hi]
      rfl
    rw [recalculatePrices_prices hne hnn hfits hrun, apportion_get Price.scale hshare,
      leftover_volumes hnn]
  · intro others ho
    exact (recalculatePrices_congr hne hnn hfits ho).trans hrun
  · exact (recalculatePrices_congr hne hnn hfits hsame).trans hrun

/-- Prices follow volumes up to the leftover units: an outcome with less volume is dearer,
by one ten-thousandth, exactly when both shares round down to the same price and only it
is among the first `r`. Without volume the price is nothing but that unit. -/
theorem prices_follow_volumes (build : Build) {outcomes : List Outcome}
    (hnn : NonNegative outcomes) (hpos : 0 < (outcomes.map Outcome.volume).sum)
    (hfit : Fits outcomes) :
    ∃ priced, recalculatePrices build outcomes = .ok priced ∧
      (∀ (i j : Nat) (o p : Outcome) (x y : Int), outcomes[i]? = some o → outcomes[j]? = some p →
        (priceVector priced)[i]? = some x → (priceVector priced)[j]? = some y →
        o.volume < p.volume → x ≤ y + 1 ∧ (y < x ↔ flooredShare outcomes o =
          flooredShare outcomes p ∧ i < handedOut outcomes ∧ handedOut outcomes ≤ j)) ∧
      ∀ (i : Nat) (o : Outcome) (x : Int), outcomes[i]? = some o →
        (priceVector priced)[i]? = some x → o.volume = 0 →
        x = if (i : Int) < handedOut outcomes then 1 else 0 := by
  have hne : outcomes ≠ [] := by
    rintro rfl
    simp at hpos
  have hrun := recalculatePrices_of_fits build hne hnn hfit
  have hprices := recalculatePrices_prices hne hnn hfit hrun
  have hshare : ∀ o : Outcome, flooredShare outcomes o =
      o.volume * Price.scale / (outcomes.map Outcome.volume).sum := by
    intro o
    simp [flooredShare, hpos.ne', Price.scale, mul_comm]
  refine ⟨_, hrun, ?_, ?_⟩
  · intro i j o p x y hi hj hx hy hlt
    rw [hprices] at hx hy
    have horder := apportion_order (by decide) hpos (by simp [hi]) (by simp [hj]) hlt.le hx hy
    rwa [leftover_volumes hnn, ← hshare, ← hshare] at horder
  · intro i o x hi hx hzero
    rw [hprices] at hx
    have hpart := apportion_zero hpos (by simp [hi, hzero]) hx
    rwa [leftover_volumes hnn] at hpart

section Backing
variable {build : Build} {outcomes before after : List Outcome} {i : Nat} {o : Outcome} {a : Int}

theorem addVolume_volume (hmax : o.volume + a ≤ i64Max) (h₀ : 0 ≤ o.volume) (ha : 0 ≤ a) :
    (o.addVolume a).volume = o.volume + a := by
  have hin : InI64 (o.volume + a) := by
    unfold InI64 i64Min
    omega
  simp [Outcome.addVolume, saturatingAdd, saturate64_of_inI64 hin]

theorem backed_volumes (hmax : o.volume + a ≤ i64Max) (h₀ : 0 ≤ o.volume) (ha : 0 ≤ a) :
    (outcomes.set i (o.addVolume a)).map Outcome.volume =
      (outcomes.map Outcome.volume).set i (o.volume + a) := by
  rw [List.map_set, addVolume_volume hmax h₀ ha]

theorem mem_set_addVolume {p : Outcome} (hp : p ∈ outcomes.set i (o.addVolume a)) :
    p = o.addVolume a ∨ p ∈ outcomes := (List.mem_or_eq_of_mem_set hp).symm

theorem backed_nonNegative (hi : outcomes[i]? = some o) (hnn : NonNegative outcomes)
    (hmax : o.volume + a ≤ i64Max) (ha : 0 ≤ a) :
    NonNegative (outcomes.set i (o.addVolume a)) := by
  have h₀ := hnn o (List.mem_of_getElem? hi)
  intro p hp
  rcases mem_set_addVolume hp with rfl | hp
  · rw [addVolume_volume hmax h₀ ha]
    omega
  · exact hnn p hp

theorem backed_fits (hi : outcomes[i]? = some o) (hnn : NonNegative outcomes)
    (hfit : Fits outcomes) (ha : 0 ≤ a)
    (htotal : (outcomes.map Outcome.volume).sum + a ≤ i64Max)
    (hproduct : (o.volume + a) * Price.scale ≤ i64Max) (hmax : o.volume + a ≤ i64Max) :
    Fits (outcomes.set i (o.addVolume a)) := by
  have h₀ := hnn o (List.mem_of_getElem? hi)
  have hvolume : (outcomes.map Outcome.volume)[i]? = some o.volume := by simp [hi]
  refine ⟨?_, fun p hp => ?_⟩
  · rw [backed_volumes hmax h₀ ha, sum_backed hvolume]
    exact htotal
  · rcases mem_set_addVolume hp with rfl | hp
    · rw [addVolume_volume hmax h₀ ha]
      exact hproduct
    · exact hfit.2 p hp

end Backing

/-- The backed outcome never gets cheaper. Another outcome gets dearer by one unit at
most, and only when a leftover unit goes to it that it did not get before. -/
theorem backing_moves_prices {build : Build} {outcomes before after : List Outcome} {i : Nat}
    {o : Outcome} {a : Int} (hi : outcomes[i]? = some o) (ha : 0 < a)
    (hnn : NonNegative outcomes) (hpos : 0 < (outcomes.map Outcome.volume).sum)
    (hfit : Fits outcomes) (htotal : (outcomes.map Outcome.volume).sum + a ≤ i64Max)
    (hproduct : (o.volume + a) * Price.scale ≤ i64Max)
    (hbefore : recalculatePrices build outcomes = .ok before)
    (hafter : recalculatePrices build (outcomes.set i (o.addVolume a)) = .ok after)
    {j : Nat} {p q : Int} (hp : (priceVector before)[j]? = some p)
    (hq : (priceVector after)[j]? = some q) :
    (j = i → p ≤ q) ∧ (j ≠ i → q ≤ p + 1 ∧ (p < q →
      handedOut outcomes ≤ j ∧ j < handedOut (outcomes.set i (o.addVolume a)))) := by
  have hvol := volumes_nonneg hnn
  have hvolume : (outcomes.map Outcome.volume)[i]? = some o.volume := by simp [hi]
  have h₀ := hnn o (List.mem_of_getElem? hi)
  have hle := List.single_le_sum hvol o.volume (List.mem_of_getElem? hvolume)
  have hmax : o.volume + a ≤ i64Max := by omega
  have hne : outcomes ≠ [] := List.ne_nil_of_mem (List.mem_of_getElem? hi)
  have hne' : outcomes.set i (o.addVolume a) ≠ [] := by simpa using hne
  have hnn' := backed_nonNegative hi hnn hmax ha.le
  have hfit' := backed_fits hi hnn hfit ha.le htotal hproduct hmax
  have hscale : 0 ≤ Price.scale := by decide
  rw [recalculatePrices_prices hne hnn hfit hbefore] at hp
  rw [recalculatePrices_prices hne' hnn' hfit' hafter, backed_volumes hmax h₀ ha.le] at hq
  constructor
  · rintro rfl
    exact apportion_backed hscale hvol hpos ha.le hvolume hp hq
  · intro hji
    have hlt := (List.getElem?_eq_some_iff.mp hp).1
    rw [apportion_length] at hlt
    have hmoved := apportion_backed_other hscale hvol hpos ha.le hvolume hji
      (List.getElem?_eq_getElem hlt) hp hq
    rwa [← backed_volumes hmax h₀ ha.le, leftover_volumes hnn, leftover_volumes hnn'] at hmoved

namespace Sample

def option (n : Nat) (volume : Int) : Outcome :=
  ⟨⟨BitVec.ofNat 128 n⟩, ⟨7⟩, ⟨['o', 'p', 't'], by decide, by decide, by decide⟩, none,
    Price.zero, volume⟩

def thirds : List Outcome := [option 1 5, option 2 5, option 3 5]

def oneSided : List Outcome := [option 1 0, option 2 0, option 3 1]

end Sample

theorem prices_meet_specification_thirds :
    ∃ priced, recalculatePrices .release Sample.thirds = .ok priced ∧
      priceVector priced = [3334, 3333, 3333] ∧
      recalculatePrices .release priced = .ok priced := by
  have hne : Sample.thirds ≠ [] := by decide
  obtain ⟨priced, hrun, -, -, -, -, -, -, hagain⟩ :=
    prices_meet_specification .release hne (by decide) (by decide)
  refine ⟨priced, hrun, ?_, hagain⟩
  cases hrun
  decide

theorem prices_follow_volumes_one_sided :
    ∃ priced, recalculatePrices .release Sample.oneSided = .ok priced ∧
      priceVector priced = [0, 0, 10000] := by
  have hnn : NonNegative Sample.oneSided := by decide
  obtain ⟨priced, hrun, -, -⟩ :=
    prices_follow_volumes .release hnn (by decide) (by decide)
  refine ⟨priced, hrun, ?_⟩
  cases hrun
  decide

/-- The first outcome has no volume at all and is dearer than the second. -/
theorem leftover_goes_to_no_volume :
    ∃ priced, recalculatePrices .release [Sample.option 1 0, Sample.option 2 1,
        Sample.option 3 10000] = .ok priced ∧ priceVector priced = [1, 0, 9999] :=
  ⟨_, rfl, by decide⟩

/-- A stake of 2 on the second outcome lifts the first from 0.0000 to 0.0001. -/
theorem backing_moves_prices_one_sided :
    let backed := Sample.oneSided.set 1 ((Sample.option 2 0).addVolume 2)
    ∃ before after, recalculatePrices .debug Sample.oneSided = .ok before ∧
      recalculatePrices .debug backed = .ok after ∧
      (priceVector before)[0]? = some 0 ∧ (priceVector after)[0]? = some 1 ∧
      handedOut Sample.oneSided ≤ 0 ∧ 0 < handedOut backed := by
  intro backed
  obtain ⟨before, after, hbefore, hafter, hp, hq⟩ :
      ∃ before after, recalculatePrices .debug Sample.oneSided = .ok before ∧
        recalculatePrices .debug backed = .ok after ∧
        (priceVector before)[0]? = some 0 ∧ (priceVector after)[0]? = some 1 :=
    ⟨_, _, rfl, rfl, by decide, by decide⟩
  have hi : Sample.oneSided[1]? = some (Sample.option 2 0) := rfl
  have hmoved := backing_moves_prices (a := 2) hi (by decide) (by decide) (by decide) (by decide)
    (by decide) (by decide) hbefore hafter hp hq
  exact ⟨before, after, hbefore, hafter, hp, hq, (hmoved.2 (by decide)).2 (by decide)⟩

theorem backing_lifts_another :
    ∃ before after, recalculatePrices .debug Sample.oneSided = .ok before ∧
      recalculatePrices .debug (Sample.oneSided.set 1 ((Sample.option 2 0).addVolume 2)) =
        .ok after ∧ priceVector before = [0, 0, 10000] ∧ priceVector after = [1, 6666, 3333] :=
  ⟨_, _, rfl, rfl, by decide, by decide⟩

end Betsphere.Pricing
