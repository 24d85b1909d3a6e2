import Betsphere.Domain.Entities
set_option autoImplicit false

namespace Betsphere
open MachineInt

namespace Bet

def due (b : Bet) : Int := b.amount * 10000 / b.price.tenThousandths

/-- A settled bet takes neither settlement. -/
def Settled (b : Bet) : Prop :=
  b.settleAsWinner = .error (.ruleViolation ("bet " ++ toString b.id ++ " is already settled")) ∧
    b.settleAsLoser = .error (.ruleViolation ("bet " ++ toString b.id ++ " is already settled"))

/-- The winner gets what is due when an `i64` can hold it, at least the stake in any
case, and a settlement is final. -/
def PaysExactly (b : Bet) : Prop :=
  ∃ payout won lost, b.settleAsWinner = .ok won ∧ b.settleAsLoser = .ok lost ∧
    won = { b with status := .won, payout := some payout } ∧
    (b.due ≤ i64Max → payout = b.due) ∧ b.amount ≤ payout ∧ won.Settled ∧ lost.Settled

theorem settled_of_status {b : Bet} (h : b.status ≠ .active) : b.Settled := by
  have hactive : b.ensureActive =
      .error (.ruleViolation ("bet " ++ toString b.id ++ " is already settled")) := by
    simp [ensureActive, h]
  constructor
  · simp only [settleAsWinner, hactive]
  · simp only [settleAsLoser, hactive]

theorem settleAsWinner_active {b : Bet} (h : b.status = .active) :
    b.settleAsWinner = .ok { b with status := .won, payout := some b.winnings } := by
  simp only [settleAsWinner, ensureActive, h, if_true]

theorem settleAsLoser_active {b : Bet} (h : b.status = .active) :
    b.settleAsLoser = .ok { b with status := .lost, payout := none } := by
  simp only [settleAsLoser, ensureActive, h, if_true]

theorem winnings_exact {b : Bet} (h : b.amount * 10000 ≤ i64Max) : b.winnings = b.due := by
  have ha := b.amountPositive
  have hin : InI64 (b.amount * Price.scale) := by
    unfold InI64 i64Min Price.scale
    omega
  have hnonneg : 0 ≤ b.amount * Price.scale := by
    unfold Price.scale
    omega
  rw [winnings, saturatingMul, saturate64_of_inI64 hin, Int.tdiv_eq_ediv_of_nonneg hnonneg]
  rfl

theorem winnings_saturated {b : Bet} (h : i64Max < b.amount * 10000) :
    b.winnings = i64Max / b.price.tenThousandths := by
  have hsat : saturate64 (b.amount * Price.scale) = i64Max := by
    unfold saturate64 i64Min Price.scale
    unfold i64Max at *
    omega
  rw [winnings, saturatingMul, hsat, Int.tdiv_eq_ediv_of_nonneg (by decide)]

theorem amount_le_due (b : Bet) : b.amount ≤ b.due := by
  have hprice := b.price.inRange.2
  refine (Int.le_ediv_iff_mul_le b.pricePositive).mpr ?_
  exact mul_le_mul_of_nonneg_left hprice b.amountPositive.le

end Bet

/-- A winner is paid exactly if and only if the product fits an `i64`, or the division
hides that it does not, or the due payout does not fit either and the limit over the
price still covers the stake. -/
theorem winners_paid_exactly {id : BetId} {userId : UserId} {marketId : MarketId}
    {outcomeId : OutcomeId} {amount : Int} {price : Price} {now : DateTime} {b : Bet}
    (h : Bet.place id userId marketId outcomeId amount price now = .ok b) :
    b.PaysExactly ↔ amount * 10000 ≤ i64Max ∨
      i64Max / price.tenThousandths = amount * 10000 / price.tenThousandths ∨
      (i64Max < amount * 10000 / price.tenThousandths ∧
        amount * price.tenThousandths ≤ i64Max) := by
  obtain ⟨-, -, -, -, rfl, rfl, hactive, -⟩ := Bet.place_ok h
  have hpaid : b.PaysExactly ↔ (b.due ≤ i64Max → b.winnings = b.due) ∧ b.amount ≤ b.winnings := by
    constructor
    · rintro ⟨payout, won, lost, hwon, -, rfl, hexact, hstake, -, -⟩
      rw [Bet.settleAsWinner_active hactive] at hwon
      injection hwon with hwon
      have hpayout : b.winnings = payout := by
        have := congrArg Bet.payout hwon
        simpa using this
      rw [hpayout]
      exact ⟨hexact, hstake⟩
    · rintro ⟨hexact, hstake⟩
      exact ⟨b.winnings, _, _, Bet.settleAsWinner_active hactive, Bet.settleAsLoser_active hactive,
        rfl, hexact, hstake, Bet.settled_of_status (by simp), Bet.settled_of_status (by simp)⟩
  have hstake := b.amount_le_due
  rw [hpaid]
  change _ ↔ _ ∨ _ = b.due ∨ (_ < b.due ∧ _)
  by_cases hfits : b.amount * 10000 ≤ i64Max
  · rw [Bet.winnings_exact hfits]
    simp [hfits, hstake]
  · have hcovers : b.amount ≤ i64Max / b.price.tenThousandths ↔
        b.amount * b.price.tenThousandths ≤ i64Max := Int.le_ediv_iff_mul_le b.pricePositive
    have hlimit : i64Max / b.price.tenThousandths ≤ i64Max :=
      Int.ediv_le_self _ (by decide)
    rw [Bet.winnings_saturated (not_le.mp hfits), hcovers]
    constructor
    · rintro ⟨hexact, hcovered⟩
      by_cases hdue : b.due ≤ i64Max
      · exact .inr (.inl (hexact hdue))
      · exact .inr (.inr ⟨not_le.mp hdue, hcovered⟩)
    · rintro (hfit | hhidden | ⟨hdue, hcovered⟩)
      · exact absurd hfit hfits
      · exact ⟨fun _ => hhidden, hcovers.mp (hhidden ▸ hstake)⟩
      · exact ⟨fun hle => absurd hle (not_le.mpr hdue), hcovered⟩

theorem winners_paid_exactly_quarter :
    ∃ b, Bet.place ⟨1⟩ ⟨1⟩ ⟨1⟩ ⟨1⟩ 100 ⟨2500, by decide⟩ 0 = .ok b ∧ b.PaysExactly ∧
      b.due = 400 := by
  obtain ⟨b, hb, hdue⟩ : ∃ b, Bet.place ⟨1⟩ ⟨1⟩ ⟨1⟩ ⟨1⟩ 100 ⟨2500, by decide⟩ 0 = .ok b ∧
      b.due = 400 := ⟨_, rfl, by decide⟩
  exact ⟨b, hb, (winners_paid_exactly hb).mpr (.inl (by decide)), hdue⟩

/-- A quadrillion at the price 1.0000 is paid 922337203685477. -/
theorem winner_paid_less_than_stake :
    ∃ b won, Bet.place ⟨1⟩ ⟨1⟩ ⟨1⟩ ⟨1⟩ 1000000000000000 Price.one 0 = .ok b ∧
      b.settleAsWinner = .ok won ∧ won.payout = some 922337203685477 ∧
      b.due = 1000000000000000 ∧ b.due ≤ i64Max ∧ ¬b.PaysExactly := by
  refine ⟨_, _, rfl, rfl, by decide, by decide, by decide, ?_⟩
  rintro ⟨payout, won, lost, hwon, -, rfl, -, hstake, -⟩
  have hpayout : some 922337203685477 = some payout := by
    injection hwon with hwon
    exact congrArg Bet.payout hwon
  cases hpayout
  exact absurd hstake (by decide)

end Betsphere
