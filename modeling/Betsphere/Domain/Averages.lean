import Betsphere.Domain.Entities
set_option autoImplicit false

namespace Betsphere

def weightedSum (bets : List Bet) : Int := (bets.map fun b => b.amount * b.price.tenThousandths).sum

def amountSum (bets : List Bet) : Int := (bets.map Bet.amount).sum

section Sums
variable {bets : List Bet} {bound : Int}

theorem amountSum_pos (h : bets ≠ []) : 0 < amountSum bets := by
  refine List.sum_pos _ (fun x hx => ?_) (by simpa using h)
  obtain ⟨b, -, rfl⟩ := List.mem_map.mp hx
  exact b.amountPositive

theorem mul_amountSum_le (h : ∀ b ∈ bets, bound ≤ b.price.tenThousandths) :
    bound * amountSum bets ≤ weightedSum bets := by
  unfold amountSum weightedSum
  rw [mul_comm, ← List.sum_map_mul_right]
  refine List.sum_le_sum fun b hb => ?_
  exact mul_le_mul_of_nonneg_left (h b hb) b.amountPositive.le

theorem le_mul_amountSum (h : ∀ b ∈ bets, b.price.tenThousandths ≤ bound) :
    weightedSum bets ≤ bound * amountSum bets := by
  unfold amountSum weightedSum
  rw [mul_comm, ← List.sum_map_mul_right]
  refine List.sum_le_sum fun b hb => ?_
  exact mul_le_mul_of_nonneg_left (h b hb) b.amountPositive.le

theorem amountSum_le_weightedSum (bets : List Bet) : amountSum bets ≤ weightedSum bets := by
  have hone : ∀ b ∈ bets, 1 ≤ b.price.tenThousandths := fun b _ => b.pricePositive
  simpa using mul_amountSum_le hone

theorem weightedSum_le (bets : List Bet) : weightedSum bets ≤ 10000 * amountSum bets :=
  le_mul_amountSum fun b _ => b.price.inRange.2

end Sums

end Betsphere
