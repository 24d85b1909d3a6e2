import Betsphere.Domain.Entities
import Betsphere.Lib.Apportion
set_option autoImplicit false

/-!
The share-of-volume price computation, with the arithmetic of the compiled program:
`Build` decides what an `i64` overflow does, and `shares[i]` can be out of bounds.
-/

namespace Betsphere.Pricing
open MachineInt Apportion

/-- `while remainder > 0 { shares[i] += 1; remainder -= 1; i += 1 }`. -/
def handOut (build : Build) : (remainder i : Nat) → List Int → Except Panic (List Int)
  | 0, _, shares => .ok shares
  | remainder + 1, i, shares =>
    match shares[i]? with
    | none => .error .indexOutOfBounds
    | some share => do
      let share ← add64 build share 1
      handOut build remainder (i + 1) (shares.set i share)

/-- `o.volume() * scale / total_volume` for every outcome. -/
def volumeShares (build : Build) (total : Int) : List Outcome → Except Panic (List Int)
  | [] => .ok []
  | o :: os => do
    let product ← mul64 build o.volume Price.scale
    let rest ← volumeShares build total os
    .ok (product.tdiv total :: rest)

def provisionalShares (build : Build) (total : Int) (outcomes : List Outcome) :
    Except Panic (List Int) :=
  if total ≤ 0 then .ok (outcomes.map fun _ => Price.scale.tdiv (outcomes.length : Int))
  else volumeShares build total outcomes

/-- The cast `share as i32` wraps; a value that is no price leaves the old one. -/
def assignPrice (o : Outcome) (share : Int) : Outcome :=
  match Price.fromTenThousandths (wrap32 share) with
  | .ok price => o.setCurrentPrice price
  | .error _ => o

def recalculatePrices (build : Build) (outcomes : List Outcome) : Except Panic (List Outcome) :=
  if outcomes = [] then .ok []
  else do
    let total ← sum64 build 0 (outcomes.map Outcome.volume)
    let shares ← provisionalShares build total outcomes
    let assigned ← sum64 build 0 shares
    let remainder ← sub64 build Price.scale assigned
    let shares ← handOut build remainder.toNat 0 shares
    .ok (outcomes.zipWith assignPrice shares)

def priceVector (outcomes : List Outcome) : List Int :=
  outcomes.map fun o => o.currentPrice.tenThousandths

/-- No product and no partial sum of the computation leaves `i64`. -/
def Fits (outcomes : List Outcome) : Prop :=
  (outcomes.map Outcome.volume).sum ≤ i64Max ∧
    ∀ o ∈ outcomes, o.volume * Price.scale ≤ i64Max

instance (outcomes : List Outcome) : Decidable (Fits outcomes) :=
  inferInstanceAs (Decidable (_ ∧ _))

def NonNegative (outcomes : List Outcome) : Prop := ∀ o ∈ outcomes, 0 ≤ o.volume

instance (outcomes : List Outcome) : Decidable (NonNegative outcomes) :=
  inferInstanceAs (Decidable (∀ o ∈ outcomes, _))

/-- The entries before `i` are already bumped and never looked at again. -/
theorem handOut_append (build : Build) (remainder : Nat) (front back : List Int)
    (hlen : remainder ≤ back.length) (hfit : ∀ x ∈ back, InI64 (x + 1)) :
    handOut build remainder front.length (front ++ back) = .ok (front ++ bump remainder back) := by
  induction remainder generalizing front back with
  | zero => simp [handOut, bump]
  | succ remainder ih =>
    cases back with
    | nil => simp at hlen
    | cons x back =>
      have hx : InI64 (x + 1) := hfit x (by simp)
      have hrest := ih (front ++ [x + 1]) back (by simpa using hlen)
        (fun y hy => hfit y (by simp [hy]))
      simp only [List.length_append, List.length_cons, List.length_nil, Nat.zero_add,
        List.append_assoc, List.cons_append, List.nil_append] at hrest
      simp [handOut, add64, settle64_of_inI64 build hx, bind, Except.bind, bump, hrest]

theorem handOut_ok (build : Build) (remainder : Nat) (shares : List Int)
    (hlen : remainder ≤ shares.length) (hfit : ∀ x ∈ shares, InI64 (x + 1)) :
    handOut build remainder 0 shares = .ok (bump remainder shares) := by
  simpa using handOut_append build remainder [] shares hlen hfit

theorem volumeShares_ok (build : Build) (total : Int) (outcomes : List Outcome)
    (hnn : NonNegative outcomes) (hfit : ∀ o ∈ outcomes, o.volume * Price.scale ≤ i64Max) :
    volumeShares build total outcomes =
      .ok ((outcomes.map Outcome.volume).map fun v => v * Price.scale / total) := by
  induction outcomes with
  | nil => rfl
  | cons o os ih =>
    have ho : 0 ≤ o.volume := hnn o (by simp)
    have hmax := hfit o (by simp)
    have hin : InI64 (o.volume * Price.scale) := by
      unfold InI64 i64Min Price.scale at *
      omega
    have hdiv : (o.volume * Price.scale).tdiv total = o.volume * Price.scale / total :=
      Int.tdiv_eq_ediv_of_nonneg (by unfold Price.scale; omega)
    have hrest := ih (fun p hp => hnn p (by simp [hp])) (fun p hp => hfit p (by simp [hp]))
    simp [volumeShares, mul64, settle64_of_inI64 build hin, hrest, hdiv, bind, Except.bind]

theorem provisionalShares_ok (build : Build) (outcomes : List Outcome)
    (hnn : NonNegative outcomes) (hfit : Fits outcomes) :
    provisionalShares build (outcomes.map Outcome.volume).sum outcomes =
      .ok (floors Price.scale (outcomes.map Outcome.volume)) := by
  unfold provisionalShares floors
  split
  · have hdiv : Price.scale.tdiv (outcomes.length : Int) = Price.scale / (outcomes.length : Int) :=
      Int.tdiv_eq_ediv_of_nonneg (by decide)
    simp [hdiv, Function.comp_def]
  · rw [volumeShares_ok build _ outcomes hnn hfit.2]

theorem volumes_nonneg {outcomes : List Outcome} (hnn : NonNegative outcomes) :
    ∀ v ∈ outcomes.map Outcome.volume, 0 ≤ v := by
  intro v hv
  obtain ⟨o, ho, rfl⟩ := List.mem_map.mp hv
  exact hnn o ho

theorem remainder_bounds {outcomes : List Outcome} (hne : outcomes ≠ []) :
    0 ≤ leftover Price.scale (outcomes.map Outcome.volume) ∧
      leftover Price.scale (outcomes.map Outcome.volume) < outcomes.length := by
  have hne' : outcomes.map Outcome.volume ≠ [] := by simpa using hne
  simpa using leftover_bounds Price.scale hne'

/-- Within its bounds the computation neither overflows nor indexes past the end, in
either build, and it hands out exactly the apportionment of the volumes. -/
theorem recalculatePrices_of_fits (build : Build) {outcomes : List Outcome}
    (hne : outcomes ≠ []) (hnn : NonNegative outcomes) (hfit : Fits outcomes) :
    recalculatePrices build outcomes =
      .ok (outcomes.zipWith assignPrice (apportion Price.scale (outcomes.map Outcome.volume))) := by
  have hvol := volumes_nonneg hnn
  have hsum := sum64_of_nonneg build 0 (outcomes.map Outcome.volume) (by omega) hvol
    (by simpa using hfit.1)
  have hscale : 0 ≤ Price.scale := by decide
  have hshares := floors_nonneg hscale hvol
  have hr := remainder_bounds hne
  have htotal : 0 ≤ (floors Price.scale (outcomes.map Outcome.volume)).sum :=
    List.sum_nonneg hshares
  have hle : (floors Price.scale (outcomes.map Outcome.volume)).sum ≤ Price.scale := by
    have := hr.1
    unfold leftover at this
    omega
  have hassigned := sum64_of_nonneg build 0 _ (by omega) hshares
    (by simp only [Int.zero_add]; refine le_trans hle (by decide))
  have hsub : sub64 build Price.scale (floors Price.scale (outcomes.map Outcome.volume)).sum =
      .ok (leftover Price.scale (outcomes.map Outcome.volume)) := by
    refine settle64_of_inI64 build ?_
    unfold InI64 i64Min i64Max Price.scale at *
    omega
  have hone : ∀ x ∈ floors Price.scale (outcomes.map Outcome.volume), InI64 (x + 1) := by
    intro x hx
    have h₀ := hshares x hx
    have h₁ := List.single_le_sum hshares x hx
    unfold InI64 i64Min i64Max Price.scale at *
    omega
  have hhand := handOut_ok build (leftover Price.scale (outcomes.map Outcome.volume)).toNat
    (floors Price.scale (outcomes.map Outcome.volume)) (by simp; omega) hone
  simp only [Int.zero_add] at hsum hassigned
  simp only [recalculatePrices, hne, if_false, hsum, provisionalShares_ok build outcomes hnn hfit,
    hassigned, hsub, hhand, bind, Except.bind]
  rfl

theorem assignPrice_of_inRange (o : Outcome) {share : Int} (h : 0 ≤ share ∧ share ≤ 10000) :
    (assignPrice o share).currentPrice.tenThousandths = share := by
  have hw : wrap32 share = share := wrap32_of_inI32 (by unfold InI32 i32Min i32Max; omega)
  simp [assignPrice, hw, Price.fromTenThousandths_of_inRange h, Outcome.setCurrentPrice]

theorem priceVector_zipWith {outcomes : List Outcome} {shares : List Int}
    (hlen : shares.length = outcomes.length) (h : ∀ x ∈ shares, 0 ≤ x ∧ x ≤ 10000) :
    priceVector (outcomes.zipWith assignPrice shares) = shares := by
  induction outcomes generalizing shares with
  | nil =>
    have : shares = [] := by simpa using hlen
    simp [this, priceVector]
  | cons o os ih =>
    cases shares with
    | nil => simp at hlen
    | cons x xs =>
      have hlen' : xs.length = os.length := by simpa using hlen
      have hrest := ih hlen' fun y hy => h y (by simp [hy])
      unfold priceVector at hrest
      simp only [List.zipWith_cons_cons, priceVector, List.map_cons,
        assignPrice_of_inRange o (h x (by simp)), hrest]

theorem apportion_inRange {outcomes : List Outcome} (hne : outcomes ≠ [])
    (hnn : NonNegative outcomes) :
    ∀ x ∈ apportion Price.scale (outcomes.map Outcome.volume), 0 ≤ x ∧ x ≤ 10000 := by
  intro x hx
  have hvol := volumes_nonneg hnn
  have hscale : 0 ≤ Price.scale := by decide
  have hne' : outcomes.map Outcome.volume ≠ [] := by simpa using hne
  exact ⟨apportion_nonneg hscale hvol x hx, apportion_le hscale hne' hvol x hx⟩

theorem recalculatePrices_prices {build : Build} {outcomes priced : List Outcome}
    (hne : outcomes ≠ []) (hnn : NonNegative outcomes) (hfit : Fits outcomes)
    (h : recalculatePrices build outcomes = .ok priced) :
    priceVector priced = apportion Price.scale (outcomes.map Outcome.volume) := by
  rw [recalculatePrices_of_fits build hne hnn hfit] at h
  cases h
  exact priceVector_zipWith (by simp) (apportion_inRange hne hnn)

structure SumsToOne (prices : List Int) : Prop where
  sum : prices.sum = 10000
  entries : ∀ p ∈ prices, 0 ≤ p ∧ p ≤ 10000

theorem recalculatePrices_sumsToOne {build : Build} {outcomes priced : List Outcome}
    (hne : outcomes ≠ []) (hnn : NonNegative outcomes) (hfit : Fits outcomes)
    (h : recalculatePrices build outcomes = .ok priced) : SumsToOne (priceVector priced) := by
  rw [recalculatePrices_prices hne hnn hfit h]
  exact ⟨apportion_sum Price.scale (by simpa using hne), apportion_inRange hne hnn⟩

theorem volumeShares_unstaked (build : Build) (total : Int) {outcomes : List Outcome}
    (h : ∀ o ∈ outcomes, o.volume = 0) :
    volumeShares build total outcomes = .ok (outcomes.map fun _ => 0) := by
  induction outcomes with
  | nil => rfl
  | cons o os ih =>
    have hzero : mul64 build o.volume Price.scale = .ok 0 := by
      rw [h o List.mem_cons_self, mul64, Int.zero_mul]
      exact settle64_of_inI64 build (by decide)
    have hrest := ih fun p hp => h p (List.mem_cons_of_mem o hp)
    simp [volumeShares, hzero, hrest, bind, Except.bind]

/-- All the volume is on the first outcome, and its product with the scale wraps: what its
share lacks goes one each to the first outcomes. -/
theorem recalculatePrices_lone {o : Outcome} {os : List Outcome} {share : Int}
    (hpos : 0 < o.volume) (hmax : o.volume ≤ i64Max) (hrest : ∀ p ∈ os, p.volume = 0)
    (hshare : (wrap64 (o.volume * Price.scale)).tdiv o.volume = share)
    (hin : 0 ≤ share ∧ share ≤ 10000) (hlen : 10000 - share ≤ os.length) :
    recalculatePrices .release (o :: os) = .ok ((o :: os).zipWith assignPrice
      (bump (10000 - share).toNat (share :: os.map fun _ => 0))) := by
  have hzeros : (os.map Outcome.volume).sum = 0 ∧ (os.map fun _ => (0 : Int)).sum = 0 := by
    refine ⟨List.sum_eq_zero fun v hv => ?_, by simp⟩
    obtain ⟨p, hp, rfl⟩ := List.mem_map.mp hv
    exact hrest p hp
  have hvolumes : ∀ v ∈ (o :: os).map Outcome.volume, 0 ≤ v := by
    intro v hv
    obtain ⟨p, hp, rfl⟩ := List.mem_map.mp hv
    rcases List.mem_cons.mp hp with rfl | hp
    · exact hpos.le
    · exact (hrest p hp).ge
  have hsum : ((o :: os).map Outcome.volume).sum = o.volume := by
    rw [List.map_cons, List.sum_cons, hzeros.1, Int.add_zero]
  have htotal : sum64 .release 0 ((o :: os).map Outcome.volume) = .ok o.volume := by
    rw [sum64_of_nonneg .release 0 _ (le_refl 0) hvolumes (by rwa [hsum, Int.zero_add]), hsum,
      Int.zero_add]
  have hshares : provisionalShares .release o.volume (o :: os) =
      .ok (share :: os.map fun _ => 0) := by
    rw [provisionalShares, if_neg (by omega), volumeShares, mul64_release,
      volumeShares_unstaked .release o.volume hrest, ← hshare]
    rfl
  have hassigned : sum64 .release 0 (share :: os.map fun _ => 0) = .ok share := by
    have hnn : ∀ x ∈ share :: os.map fun _ => (0 : Int), 0 ≤ x := by
      intro x hx
      rcases List.mem_cons.mp hx with rfl | hx
      · exact hin.1
      · obtain ⟨p, -, rfl⟩ := List.mem_map.mp hx
        exact le_refl 0
    have hfit : 0 + (share :: os.map fun _ => (0 : Int)).sum ≤ i64Max := by
      rw [List.sum_cons, hzeros.2]
      unfold i64Max
      omega
    rw [sum64_of_nonneg .release 0 _ (le_refl 0) hnn hfit, List.sum_cons, hzeros.2]
    simp
  have hremainder : sub64 .release Price.scale share = .ok (10000 - share) := by
    refine settle64_of_inI64 .release ?_
    unfold InI64 i64Min i64Max Price.scale
    omega
  have hhand : handOut .release (10000 - share).toNat 0 (share :: os.map fun _ => 0) =
      .ok (bump (10000 - share).toNat (share :: os.map fun _ => 0)) := by
    refine handOut_ok .release _ _ (by simp; omega) fun x hx => ?_
    unfold InI64 i64Min i64Max
    rcases List.mem_cons.mp hx with rfl | hx
    · omega
    · obtain ⟨p, -, rfl⟩ := List.mem_map.mp hx
      decide
  simp only [recalculatePrices, if_neg (List.cons_ne_nil o os), htotal, hshares, hassigned,
    hremainder, hhand, bind, Except.bind]

def unpriced (o : Outcome) : Outcome := o.setCurrentPrice Price.zero

theorem unpriced_assignPrice (o : Outcome) (share : Int) :
    unpriced (assignPrice o share) = unpriced o := by
  unfold assignPrice
  split <;> rfl

theorem handOut_length {build : Build} {remainder i : Nat} {shares shares' : List Int}
    (h : handOut build remainder i shares = .ok shares') : shares'.length = shares.length := by
  induction remainder generalizing i shares with
  | zero =>
    simp only [handOut, Except.ok.injEq] at h
    rw [h]
  | succ remainder ih =>
    simp only [handOut] at h
    cases hget : shares[i]? with
    | none => simp [hget] at h
    | some share =>
      simp only [hget, bind, Except.bind] at h
      cases hadd : add64 build share 1 with
      | error e => simp [hadd] at h
      | ok y =>
        simp only [hadd] at h
        simpa using ih h

theorem provisionalShares_length {build : Build} {total : Int} {outcomes : List Outcome}
    {shares : List Int} (h : provisionalShares build total outcomes = .ok shares) :
    shares.length = outcomes.length := by
  unfold provisionalShares at h
  split at h
  · simp only [Except.ok.injEq] at h
    simp [← h]
  · clear * - h
    induction outcomes generalizing shares with
    | nil =>
      simp only [volumeShares, Except.ok.injEq] at h
      simp [← h]
    | cons o os ih =>
      simp only [volumeShares, bind, Except.bind] at h
      cases hm : mul64 build o.volume Price.scale with
      | error e => simp [hm] at h
      | ok product =>
        cases hr : volumeShares build total os with
        | error e => simp [hm, hr] at h
        | ok rest =>
          simp only [hm, hr, Except.ok.injEq] at h
          simp [← h, ih hr]

theorem recalculatePrices_stages {build : Build} {outcomes priced : List Outcome}
    (hne : outcomes ≠ []) (h : recalculatePrices build outcomes = .ok priced) :
    ∃ total shares assigned remainder final,
      sum64 build 0 (outcomes.map Outcome.volume) = .ok total ∧
      provisionalShares build total outcomes = .ok shares ∧
      sum64 build 0 shares = .ok assigned ∧ sub64 build Price.scale assigned = .ok remainder ∧
      handOut build remainder.toNat 0 shares = .ok final ∧
      priced = outcomes.zipWith assignPrice final := by
  simp only [recalculatePrices, hne, if_false, bind, Except.bind] at h
  cases h₁ : sum64 build 0 (outcomes.map Outcome.volume) with
  | error e => simp [h₁] at h
  | ok total =>
    simp only [h₁] at h
    cases h₂ : provisionalShares build total outcomes with
    | error e => simp [h₂] at h
    | ok shares =>
      simp only [h₂] at h
      cases h₃ : sum64 build 0 shares with
      | error e => simp [h₃] at h
      | ok assigned =>
        simp only [h₃] at h
        cases h₄ : sub64 build Price.scale assigned with
        | error e => simp [h₄] at h
        | ok remainder =>
          simp only [h₄] at h
          cases h₅ : handOut build remainder.toNat 0 shares with
          | error e => simp [h₅] at h
          | ok final =>
            simp only [h₅, Except.ok.injEq] at h
            exact ⟨total, shares, assigned, remainder, final, rfl, h₂, h₃, h₄, h₅, h.symm⟩

theorem recalculatePrices_unpriced {build : Build} {outcomes priced : List Outcome}
    (h : recalculatePrices build outcomes = .ok priced) :
    priced.map unpriced = outcomes.map unpriced := by
  by_cases hne : outcomes = []
  · subst hne
    simp only [recalculatePrices, if_true, Except.ok.injEq] at h
    rw [← h]
  · obtain ⟨total, shares, assigned, remainder, final, -, h₂, -, -, h₅, rfl⟩ :=
      recalculatePrices_stages hne h
    have hlen : final.length = outcomes.length := by
      rw [handOut_length h₅, provisionalShares_length h₂]
    clear * - hlen
    induction outcomes generalizing final with
    | nil => simp
    | cons o os ih =>
      cases final with
      | nil => simp at hlen
      | cons x xs =>
        simp only [List.zipWith_cons_cons, List.map_cons, unpriced_assignPrice]
        rw [ih xs (by simpa using hlen)]

theorem recalculatePrices_map {β : Type} {build : Build} {outcomes priced : List Outcome}
    (h : recalculatePrices build outcomes = .ok priced) (f : Outcome → β)
    (hf : ∀ o, f (unpriced o) = f o) : priced.map f = outcomes.map f := by
  have hcomp : f ∘ unpriced = f := funext hf
  calc
    priced.map f = (priced.map unpriced).map f := by rw [List.map_map, hcomp]
    _ = (outcomes.map unpriced).map f := by rw [recalculatePrices_unpriced h]
    _ = outcomes.map f := by rw [List.map_map, hcomp]

theorem nonNegative_congr {outcomes others : List Outcome}
    (h : outcomes.map Outcome.volume = others.map Outcome.volume) (hnn : NonNegative others) :
    NonNegative outcomes := by
  intro o ho
  exact volumes_nonneg hnn o.volume (h ▸ List.mem_map_of_mem ho)

theorem fits_congr {outcomes others : List Outcome}
    (h : outcomes.map Outcome.volume = others.map Outcome.volume) (hfit : Fits others) :
    Fits outcomes := by
  refine ⟨by rw [h]; exact hfit.1, fun o ho => ?_⟩
  have hmem : o.volume ∈ others.map Outcome.volume := h ▸ List.mem_map_of_mem ho
  obtain ⟨p, hp, heq⟩ := List.mem_map.mp hmem
  rw [← heq]
  exact hfit.2 p hp

theorem zipWith_assignPrice_self (outcomes : List Outcome) :
    outcomes.zipWith assignPrice (priceVector outcomes) = outcomes := by
  induction outcomes with
  | nil => rfl
  | cons o os ih =>
    have ho : assignPrice o o.currentPrice.tenThousandths = o := by
      have hr := o.currentPrice.inRange
      have hw : wrap32 o.currentPrice.tenThousandths = o.currentPrice.tenThousandths :=
        wrap32_of_inI32 (by unfold InI32 i32Min i32Max; omega)
      simp [assignPrice, hw, Price.fromTenThousandths_of_inRange hr, Outcome.setCurrentPrice]
    unfold priceVector at ih
    simp only [priceVector, List.map_cons, List.zipWith_cons_cons, ho, ih]

theorem recalculatePrices_fixed {build : Build} {outcomes backed priced : List Outcome}
    (hne : backed ≠ []) (hnn : NonNegative backed) (hfit : Fits backed)
    (h : recalculatePrices build backed = .ok priced)
    (hvol : outcomes.map Outcome.volume = backed.map Outcome.volume)
    (hprice : priceVector outcomes = priceVector priced) :
    recalculatePrices build outcomes = .ok outcomes := by
  have hne' : outcomes ≠ [] := by
    rintro rfl
    exact hne (by simpa using hvol.symm)
  have hshares : apportion Price.scale (outcomes.map Outcome.volume) = priceVector outcomes := by
    rw [hvol, hprice, recalculatePrices_prices hne hnn hfit h]
  rw [recalculatePrices_of_fits build hne' (nonNegative_congr hvol hnn) (fits_congr hvol hfit),
    hshares, zipWith_assignPrice_self]

end Betsphere.Pricing
