import Betsphere.Lib.Decimal
import Mathlib.Data.Nat.Log
set_option autoImplicit false

namespace Betsphere

namespace Numeric

def weight (n : Nat) : Nat := Nat.log 10000 n

def firstDigit (n : Nat) : Nat := n / 10000 ^ weight n

/-- How many decimals `x / y` keeps, of values without decimals of their own. -/
def divScale (x y : Nat) : Nat :=
  let quotientWeight : Int := weight x - weight y - if firstDigit x ≤ firstDigit y then 1 else 0
  min (16 - 4 * quotientWeight).toNat 1000

/-- `FLOOR(x / y)`. -/
def floorDiv (x y : Int) : Int := Decimal.floorRounded (divScale x.toNat y.toNat) x y

/-- Rounding does not carry the quotient over to the next whole number. -/
def Exact (x y : Int) : Prop := y < 2 * 10 ^ divScale x.toNat y.toNat * (y - x % y)

instance (x y : Int) : Decidable (Exact x y) := inferInstanceAs (Decidable (_ < _))

theorem floorDiv_eq_iff {x y : Int} (hy : 0 < y) : floorDiv x y = x / y ↔ Exact x y :=
  Decimal.floorRounded_eq_ediv_iff _ x hy

theorem sixteen_le_divScale {x y : Nat} (hy : 0 < y) (h : x ≤ 10000 * y) : 16 ≤ divScale x y := by
  have hweight : weight x ≤ weight y + 1 := by
    have hlog : Nat.log 10000 (y * 10000) = Nat.log 10000 y + 1 :=
      Nat.log_mul_base (by decide) hy.ne'
    unfold weight
    rw [← hlog]
    exact Nat.log_mono_right (by omega)
  have hdigit : weight x = weight y + 1 → firstDigit x ≤ firstDigit y := by
    intro heq
    have hpow : 0 < 10000 ^ weight y := by positivity
    unfold firstDigit
    rw [heq, pow_succ, mul_comm, ← Nat.div_div_eq_div_mul]
    refine Nat.div_le_div_right ?_
    omega
  simp only [divScale]
  by_cases hlt : weight x = weight y + 1
  · rw [if_pos (hdigit hlt)]
    omega
  · split <;> omega

theorem exact_of_small {x y : Int} (hy : 0 < y) (h : x ≤ 10000 * y)
    (hsmall : y < 2 * 10 ^ 16) : Exact x y := by
  have hscale : 16 ≤ divScale x.toNat y.toNat := sixteen_le_divScale (by omega) (by omega)
  have hpow : (10 : Int) ^ 16 ≤ 10 ^ divScale x.toNat y.toNat :=
    pow_le_pow_right₀ (by decide) hscale
  have hgap := Int.emod_lt_of_pos x hy
  have hone : 1 ≤ y - x % y := by omega
  unfold Exact
  calc
    y < 2 * 10 ^ 16 := hsmall
    _ ≤ 2 * 10 ^ divScale x.toNat y.toNat := by linarith
    _ ≤ 2 * 10 ^ divScale x.toNat y.toNat * (y - x % y) :=
      le_mul_of_one_le_right (by positivity) hone

end Numeric

end Betsphere
