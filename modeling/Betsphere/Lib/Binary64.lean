import Mathlib.Tactic
set_option autoImplicit false

namespace Binary64

/-- The whole number nearest to `num / den`, the even one of two. -/
def roundHalfEven (num den : Nat) : Nat :=
  if 2 * (num % den) < den ∨ 2 * (num % den) = den ∧ num / den % 2 = 0 then num / den
  else num / den + 1

/-- The power of two that leaves 53 bits before the point. -/
def exponent (num den : Nat) : Nat :=
  let estimate := 52 + den.log2 - num.log2
  if num * 2 ^ estimate < den * 2 ^ 52 then estimate + 1 else estimate

/-- The double nearest to `num / den`, as its significand and the power of two below it. -/
def ofFraction (num den : Nat) : Nat × Nat :=
  (roundHalfEven (num * 2 ^ exponent num den) den, exponent num den)

theorem roundHalfEven_le {num den k : Nat} (hden : 0 < den) (h : num ≤ k * den) :
    roundHalfEven num den ≤ k := by
  have hle : num / den ≤ k := Nat.div_le_of_le_mul (by rwa [Nat.mul_comm])
  unfold roundHalfEven
  split
  · exact hle
  · rename_i hup
    rcases Nat.lt_or_eq_of_le hle with hlt | heq
    · exact hlt
    · have hrest : num % den = 0 := by
        have hsplit := Nat.div_add_mod num den
        rw [heq, Nat.mul_comm] at hsplit
        omega
      exact absurd (.inl (by omega)) hup

theorem ofFraction_le {num den k : Nat} (hden : 0 < den) (h : num ≤ k * den) :
    (ofFraction num den).1 ≤ k * 2 ^ (ofFraction num den).2 := by
  refine roundHalfEven_le hden ?_
  calc
    num * 2 ^ exponent num den ≤ k * den * 2 ^ exponent num den := Nat.mul_le_mul_right _ h
    _ = k * 2 ^ exponent num den * den := Nat.mul_right_comm k den _

end Binary64
