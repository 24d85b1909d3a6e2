import Mathlib.Algebra.Order.BigOperators.Group.List
import Mathlib.Tactic
set_option autoImplicit false

namespace Apportion

/-- Shares rounded down. With no weight at all the whole is split evenly. -/
def floors (scale : Int) (ws : List Int) : List Int :=
  if ws.sum ≤ 0 then ws.map fun _ => scale / (ws.length : Int)
  else ws.map fun w => w * scale / ws.sum

def leftover (scale : Int) (ws : List Int) : Int := scale - (floors scale ws).sum

def bump : Nat → List Int → List Int
  | 0, xs => xs
  | _ + 1, [] => []
  | r + 1, x :: xs => (x + 1) :: bump r xs

def apportion (scale : Int) (ws : List Int) : List Int :=
  bump (leftover scale ws).toNat (floors scale ws)

@[simp] theorem floors_length (scale : Int) (ws : List Int) :
    (floors scale ws).length = ws.length := by
  unfold floors
  split <;> simp

@[simp] theorem bump_length (r : Nat) (xs : List Int) : (bump r xs).length = xs.length := by
  induction xs generalizing r with
  | nil => cases r <;> rfl
  | cons x xs ih =>
    cases r with
    | zero => rfl
    | succ r => simp [bump, ih]

theorem bump_sum {r : Nat} {xs : List Int} (h : r ≤ xs.length) :
    (bump r xs).sum = xs.sum + r := by
  induction xs generalizing r with
  | nil =>
    have hr : r = 0 := by simpa using h
    subst hr
    simp [bump]
  | cons x xs ih =>
    cases r with
    | zero => simp [bump]
    | succ r =>
      have hr : r ≤ xs.length := by simpa using h
      have hs := ih hr
      simp only [bump, List.sum_cons, hs]
      push_cast; omega

theorem bump_nonneg {r : Nat} {xs : List Int} (h : ∀ x ∈ xs, 0 ≤ x) :
    ∀ x ∈ bump r xs, 0 ≤ x := by
  induction xs generalizing r with
  | nil => cases r <;> simp [bump]
  | cons x xs ih =>
    cases r with
    | zero => exact h
    | succ r =>
      have hx : 0 ≤ x := h x (by simp)
      have ht : ∀ y ∈ bump r xs, 0 ≤ y := ih fun y hy => h y (by simp [hy])
      intro y hy
      rcases List.mem_cons.mp hy with rfl | hy
      · omega
      · exact ht y hy

theorem apportion_even {n : Nat} {scale share : Int} (hn : 0 < n) (h : scale = n * share) :
    apportion scale (List.replicate n 0) = List.replicate n share := by
  have hfloors : floors scale (List.replicate n 0) = List.replicate n share := by
    rw [floors, if_pos (by simp), List.map_replicate, List.length_replicate, h,
      Int.mul_ediv_cancel_left share (by omega)]
  have hleft : leftover scale (List.replicate n 0) = 0 := by
    rw [leftover, hfloors, List.sum_replicate, nsmul_eq_mul, h]
    omega
  rw [apportion, hleft, hfloors]
  rfl

theorem floors_sum_mul (scale total : Int) (ws : List Int) :
    total * (ws.map fun w => w * scale / total).sum + (ws.map fun w => w * scale % total).sum =
      ws.sum * scale := by
  induction ws with
  | nil => simp
  | cons w ws ih =>
    have hw := Int.mul_ediv_add_emod (w * scale) total
    simp only [List.map_cons, List.sum_cons, mul_add, add_mul]
    linarith

theorem remainders_bound (scale total : Int) (ws : List Int) (ht : 0 < total) :
    0 ≤ (ws.map fun w => w * scale % total).sum ∧
      (ws.map fun w => w * scale % total).sum + ws.length ≤ total * ws.length := by
  induction ws with
  | nil => simp
  | cons w ws ih =>
    have h₁ := Int.emod_nonneg (w * scale) (by omega : total ≠ 0)
    have h₂ := Int.emod_lt_of_pos (w * scale) ht
    simp only [List.map_cons, List.sum_cons, List.length_cons]
    push_cast
    constructor
    · omega
    · linarith [ih.2]

theorem sum_replicated (c : Int) (ws : List Int) : (ws.map fun _ => c).sum = ws.length * c := by
  simp

theorem leftover_bounds (scale : Int) {ws : List Int} (hn : ws ≠ []) :
    0 ≤ leftover scale ws ∧ leftover scale ws < ws.length := by
  have hlen : 0 < (ws.length : Int) := by
    have := List.length_pos_iff.mpr hn
    omega
  unfold leftover floors
  split
  · rw [sum_replicated]
    have hd := Int.mul_ediv_add_emod scale ws.length
    have h₁ := Int.emod_nonneg scale (by omega : (ws.length : Int) ≠ 0)
    have h₂ := Int.emod_lt_of_pos scale hlen
    constructor <;> omega
  · rename_i hpos
    have ht : 0 < ws.sum := by omega
    have hd := floors_sum_mul scale ws.sum ws
    have hb := remainders_bound scale ws.sum ws ht
    have hkey : ws.sum * (scale - (ws.map fun w => w * scale / ws.sum).sum) =
        (ws.map fun w => w * scale % ws.sum).sum := by
      rw [mul_sub]; linarith
    constructor
    · by_contra hneg
      have := mul_neg_of_pos_of_neg ht (not_le.mp hneg)
      omega
    · refine lt_of_mul_lt_mul_left ?_ ht.le
      rw [hkey]; omega

theorem floors_nonneg {scale : Int} {ws : List Int} (hs : 0 ≤ scale) (hw : ∀ w ∈ ws, 0 ≤ w) :
    ∀ x ∈ floors scale ws, 0 ≤ x := by
  intro x hx
  unfold floors at hx
  split at hx
  · obtain ⟨w, -, rfl⟩ := List.mem_map.mp hx
    exact Int.ediv_nonneg hs (by omega)
  · obtain ⟨w, hmem, rfl⟩ := List.mem_map.mp hx
    exact Int.ediv_nonneg (mul_nonneg (hw w hmem) hs) (by omega)

@[simp] theorem apportion_length (scale : Int) (ws : List Int) :
    (apportion scale ws).length = ws.length := by simp [apportion]

theorem apportion_sum (scale : Int) {ws : List Int} (hn : ws ≠ []) :
    (apportion scale ws).sum = scale := by
  have hb := leftover_bounds scale hn
  have hr : (leftover scale ws).toNat ≤ (floors scale ws).length := by
    rw [floors_length]; omega
  unfold apportion
  rw [bump_sum hr, Int.toNat_of_nonneg hb.1]
  unfold leftover; omega

theorem apportion_nonneg {scale : Int} {ws : List Int} (hs : 0 ≤ scale) (hw : ∀ w ∈ ws, 0 ≤ w) :
    ∀ x ∈ apportion scale ws, 0 ≤ x :=
  bump_nonneg (floors_nonneg hs hw)

theorem apportion_le {scale : Int} {ws : List Int} (hs : 0 ≤ scale) (hn : ws ≠ [])
    (hw : ∀ w ∈ ws, 0 ≤ w) : ∀ x ∈ apportion scale ws, x ≤ scale := by
  intro x hx
  have h := List.single_le_sum (apportion_nonneg hs hw) x hx
  rwa [apportion_sum scale hn] at h

theorem bump_get (r : Nat) (xs : List Int) (i : Nat) :
    (bump r xs)[i]? = xs[i]?.map fun x => if i < r then x + 1 else x := by
  induction xs generalizing r i with
  | nil => cases r <;> simp [bump]
  | cons x xs ih =>
    cases r with
    | zero => simp [bump]
    | succ r =>
      cases i with
      | zero => simp [bump]
      | succ i => simp [bump, ih]

theorem apportion_get (scale : Int) {ws : List Int} {i : Nat} {x : Int}
    (hx : (floors scale ws)[i]? = some x) :
    (apportion scale ws)[i]? =
      some (x + if (i : Int) < leftover scale ws then 1 else 0) := by
  rw [apportion, bump_get, hx]
  have hiff : i < (leftover scale ws).toNat ↔ (i : Int) < leftover scale ws := by omega
  by_cases hi : (i : Int) < leftover scale ws
  · simp [hi, hiff.mpr hi]
  · simp [hi, mt hiff.mp hi]

theorem floors_get (scale : Int) {ws : List Int} {i : Nat} {w : Int} (hi : ws[i]? = some w)
    (hpos : 0 < ws.sum) : (floors scale ws)[i]? = some (w * scale / ws.sum) := by
  have hnot : ¬ws.sum ≤ 0 := by omega
  simp [floors, hnot, hi]

section Order
variable {scale v w x y : Int} {ws : List Int} {i j : Nat}

/-- A smaller weight is ahead only by a leftover unit that the larger one misses. -/
theorem apportion_order (hscale : 0 ≤ scale) (hpos : 0 < ws.sum) (hi : ws[i]? = some v)
    (hj : ws[j]? = some w) (hvw : v ≤ w) (hx : (apportion scale ws)[i]? = some x)
    (hy : (apportion scale ws)[j]? = some y) :
    x ≤ y + 1 ∧ (y < x ↔ v * scale / ws.sum = w * scale / ws.sum ∧ (i : Int) < leftover scale ws ∧
      leftover scale ws ≤ j) := by
  have hshares : v * scale / ws.sum ≤ w * scale / ws.sum :=
    Int.ediv_le_ediv hpos (mul_le_mul_of_nonneg_right hvw hscale)
  rw [apportion_get scale (floors_get scale hi hpos), Option.some.injEq] at hx
  rw [apportion_get scale (floors_get scale hj hpos), Option.some.injEq] at hy
  constructor
  · split at hx <;> split at hy <;> omega
  · split at hx <;> split at hy <;> omega

theorem apportion_zero (hpos : 0 < ws.sum) (hi : ws[i]? = some 0)
    (hx : (apportion scale ws)[i]? = some x) :
    x = if (i : Int) < leftover scale ws then 1 else 0 := by
  have hget := apportion_get scale (floors_get scale hi hpos)
  rw [hx, Option.some.injEq] at hget
  simpa using hget

end Order

section Backing
variable {scale a w : Int} {ws : List Int} {i : Nat}

theorem sum_backed (hi : ws[i]? = some w) : (ws.set i (w + a)).sum = ws.sum + a := by
  induction ws generalizing i with
  | nil => simp at hi
  | cons x xs ih =>
    cases i with
    | zero =>
      simp only [List.getElem?_cons_zero, Option.some.injEq] at hi
      subst hi
      simp only [List.set_cons_zero, List.sum_cons]
      omega
    | succ i =>
      have hrest := ih (by simpa using hi)
      simp only [List.set_cons_succ, List.sum_cons, hrest]
      omega

theorem share_antitone {total : Int} (hscale : 0 ≤ scale) (hw : 0 ≤ w) (ht : 0 < total)
    (ha : 0 ≤ a) : w * scale / (total + a) ≤ w * scale / total := by
  have hq : 0 ≤ w * scale / (total + a) :=
    Int.ediv_nonneg (mul_nonneg hw hscale) (by omega)
  have hmul := Int.ediv_mul_le (w * scale) (by omega : total + a ≠ 0)
  refine (Int.le_ediv_iff_mul_le ht).mpr ?_
  have hgrow : w * scale / (total + a) * total ≤ w * scale / (total + a) * (total + a) :=
    mul_le_mul_of_nonneg_left (by omega) hq
  exact hgrow.trans hmul

theorem share_monotone {total : Int} (hscale : 0 ≤ scale) (hle : w ≤ total) (ht : 0 < total)
    (ha : 0 ≤ a) : w * scale / total ≤ (w + a) * scale / (total + a) := by
  have hmul := Int.ediv_mul_le (w * scale) (by omega : total ≠ 0)
  have hshare : w * scale / total ≤ scale := by
    refine Int.ediv_le_of_le_mul ht ?_
    rw [mul_comm scale total]
    exact mul_le_mul_of_nonneg_right hle hscale
  have hextra : w * scale / total * a ≤ scale * a := mul_le_mul_of_nonneg_right hshare ha
  refine (Int.le_ediv_iff_mul_le (by omega)).mpr ?_
  rw [mul_add, add_mul, mul_comm a scale]
  exact add_le_add hmul hextra

theorem leftover_backed (hscale : 0 ≤ scale) (hws : ∀ v ∈ ws, 0 ≤ v) (hpos : 0 < ws.sum)
    (ha : 0 ≤ a) (hi : ws[i]? = some w) :
    leftover scale ws - leftover scale (ws.set i (w + a)) ≤
      (w + a) * scale / (ws.sum + a) - w * scale / ws.sum := by
  let f := fun v : Int => v * scale / ws.sum
  let f' := fun v : Int => v * scale / (ws.sum + a)
  have hsum := sum_backed (a := a) hi
  have hfloors : floors scale ws = ws.map f := by simp [floors, f, not_le.mpr hpos]
  have hfloors' : floors scale (ws.set i (w + a)) = (ws.map f').set i (f' (w + a)) := by
    have hnot : ¬ws.sum + a ≤ 0 := by omega
    simp [floors, hsum, hnot, f', List.map_set]
  have hset : ((ws.map f').set i (f' (w + a))).sum = (ws.map f').sum + (f' (w + a) - f' w) := by
    have hget : (ws.map f')[i]? = some (f' w) := by simp [hi]
    have hgrown := sum_backed (a := f' (w + a) - f' w) hget
    rwa [add_sub_cancel] at hgrown
  have hless : ∀ v ∈ ws.map fun v => f v - f' v, 0 ≤ v := by
    intro x hx
    obtain ⟨v, hv, rfl⟩ := List.mem_map.mp hx
    exact sub_nonneg.mpr (share_antitone hscale (hws v hv) hpos ha)
  have hothers := List.single_le_sum hless (f w - f' w)
    (List.mem_map.mpr ⟨w, List.mem_of_getElem? hi, rfl⟩)
  have hsplit : (ws.map f).sum = (ws.map f').sum + (ws.map fun v => f v - f' v).sum := by
    rw [← List.sum_map_add]
    simp
  change _ ≤ f' (w + a) - f w
  simp only [leftover, hfloors, hfloors', hset]
  omega

/-- The grown weight gets no smaller part. -/
theorem apportion_backed {p q : Int} (hscale : 0 ≤ scale) (hws : ∀ v ∈ ws, 0 ≤ v)
    (hpos : 0 < ws.sum) (ha : 0 ≤ a) (hi : ws[i]? = some w)
    (hp : (apportion scale ws)[i]? = some p)
    (hq : (apportion scale (ws.set i (w + a)))[i]? = some q) : p ≤ q := by
  have hsum := sum_backed (a := a) hi
  have hlt := (List.getElem?_eq_some_iff.mp hi).1
  have hget : (ws.set i (w + a))[i]? = some (w + a) := List.getElem?_set_self hlt
  have hle : w ≤ ws.sum := List.single_le_sum hws w (List.mem_of_getElem? hi)
  have hmono := share_monotone hscale hle hpos ha
  have hleft := leftover_backed hscale hws hpos ha hi
  rw [apportion_get scale (floors_get scale hi hpos), Option.some.injEq] at hp
  rw [apportion_get scale (floors_get scale hget (by omega)), hsum, Option.some.injEq] at hq
  -- losing its leftover unit, it has gained a whole one
  split at hp <;> split at hq <;> omega

/-- Every other part grows by no more than a leftover unit that moves to it. -/
theorem apportion_backed_other {j : Nat} {v p q : Int} (hscale : 0 ≤ scale)
    (hws : ∀ v ∈ ws, 0 ≤ v) (hpos : 0 < ws.sum) (ha : 0 ≤ a) (hi : ws[i]? = some w)
    (hji : j ≠ i) (hj : ws[j]? = some v)
    (hp : (apportion scale ws)[j]? = some p)
    (hq : (apportion scale (ws.set i (w + a)))[j]? = some q) :
    q ≤ p + 1 ∧ (p < q → leftover scale ws ≤ j ∧ j < leftover scale (ws.set i (w + a))) := by
  have hsum := sum_backed (a := a) hi
  have hget : (ws.set i (w + a))[j]? = some v := (List.getElem?_set_ne (Ne.symm hji)).trans hj
  have hanti := share_antitone hscale (hws v (List.mem_of_getElem? hj)) hpos ha
  rw [apportion_get scale (floors_get scale hj hpos), Option.some.injEq] at hp
  rw [apportion_get scale (floors_get scale hget (by omega)), hsum, Option.some.injEq] at hq
  constructor
  · split at hp <;> split at hq <;> omega
  · intro hpq
    split at hp <;> split at hq <;> omega

end Backing

end Apportion
