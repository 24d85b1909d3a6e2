import Mathlib.Tactic
set_option autoImplicit false

namespace Decimal

/-- `x / y` rounded to `scale` decimals, a half up, and then down to a whole number. -/
def floorRounded (scale : Nat) (x y : Int) : Int :=
  (2 * 10 ^ scale * x + y) / (2 * y) / 10 ^ scale

section Quotients
variable {scale : Nat} {x y : Int}

theorem floorRounded_eq (scale : Nat) (x : Int) (hy : 0 < y) :
    floorRounded scale x y =
      x / y + (2 * 10 ^ scale * (x % y) + y) / (2 * 10 ^ scale * y) := by
  have hpow : (0 : Int) < 10 ^ scale := by positivity
  have hden : 2 * 10 ^ scale * y ≠ 0 := by positivity
  have hsplit : 2 * 10 ^ scale * x + y =
      2 * 10 ^ scale * (x % y) + y + 2 * 10 ^ scale * y * (x / y) := by
    have hdiv := Int.mul_ediv_add_emod x y
    calc
      2 * 10 ^ scale * x + y = 2 * 10 ^ scale * (y * (x / y) + x % y) + y := by rw [hdiv]
      _ = _ := by ring
  have hmul : 2 * y * 10 ^ scale = 2 * 10 ^ scale * y := by ring
  rw [floorRounded, Int.ediv_ediv_of_nonneg (by positivity), hmul, hsplit,
    Int.add_mul_ediv_left _ _ hden, add_comm]

theorem carry_bounds (scale : Nat) (x : Int) (hy : 0 < y) :
    0 ≤ (2 * 10 ^ scale * (x % y) + y) / (2 * 10 ^ scale * y) ∧
      (2 * 10 ^ scale * (x % y) + y) / (2 * 10 ^ scale * y) ≤ 1 := by
  have hr := Int.emod_nonneg x hy.ne'
  have hlt := Int.emod_lt_of_pos x hy
  have hpow : (1 : Int) ≤ 10 ^ scale := one_le_pow₀ (by decide)
  have hden : 0 < 2 * 10 ^ scale * y := by positivity
  refine ⟨Int.ediv_nonneg (by positivity) hden.le, ?_⟩
  refine Int.lt_add_one_iff.mp ((Int.ediv_lt_iff_lt_mul hden).mpr ?_)
  nlinarith

/-- Nothing is lost by rounding exactly when the next whole number is further away than
half a unit of the last decimal. -/
theorem floorRounded_eq_ediv_iff (scale : Nat) (x : Int) (hy : 0 < y) :
    floorRounded scale x y = x / y ↔ y < 2 * 10 ^ scale * (y - x % y) := by
  have hden : 0 < 2 * 10 ^ scale * y := by positivity
  have hcarry := carry_bounds scale x hy
  have hzero : (2 * 10 ^ scale * (x % y) + y) / (2 * 10 ^ scale * y) < 1 ↔
      2 * 10 ^ scale * (x % y) + y < 1 * (2 * 10 ^ scale * y) := Int.ediv_lt_iff_lt_mul hden
  rw [floorRounded_eq scale x hy, mul_sub]
  constructor <;> intro h
  · have := hzero.mp (by omega)
    omega
  · have := hzero.mpr (by omega)
    omega

theorem floorRounded_of_dvd (scale : Nat) (hy : 0 < y) (h : x % y = 0) :
    floorRounded scale x y = x / y := by
  rw [floorRounded_eq_ediv_iff scale x hy, h, sub_zero]
  have hpow : (1 : Int) ≤ 10 ^ scale := one_le_pow₀ (by decide)
  nlinarith

theorem le_floorRounded {low : Int} (hy : 0 < y) (h : low * y ≤ x) :
    low ≤ floorRounded scale x y := by
  have hcarry := carry_bounds scale x hy
  have hlow : low ≤ x / y := (Int.le_ediv_iff_mul_le hy).mpr h
  rw [floorRounded_eq scale x hy]
  omega

theorem floorRounded_le {high : Int} (hy : 0 < y) (h : x ≤ high * y) :
    floorRounded scale x y ≤ high := by
  by_cases hr : x % y = 0
  · rw [floorRounded_of_dvd scale hy hr]
    exact Int.ediv_le_of_le_mul hy h
  · have hcarry := carry_bounds scale x hy
    have hpos := lt_of_le_of_ne (Int.emod_nonneg x hy.ne') (Ne.symm hr)
    have hdiv := Int.mul_ediv_add_emod x y
    have hlt : x / y < high := by
      by_contra hge
      have hmul := mul_le_mul_of_nonneg_left (not_lt.mp hge) hy.le
      rw [mul_comm high y] at h
      omega
    rw [floorRounded_eq scale x hy]
    omega

end Quotients

end Decimal
