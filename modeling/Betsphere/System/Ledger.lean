import Betsphere.System.Totals
import Betsphere.System.Settlement
set_option autoImplicit false

/-!
The ledger of the orderly runs: no settlement overlaps another call on its market, and
nobody writes a profile. Then users, bets and markets tell one story.
-/

namespace Betsphere
open MachineInt

/-- `SELECT SUM(amount) FROM bets WHERE user_id = $1`. -/
def Db.stakedBy (db : Db) (id : UserId) : Int :=
  (db.bets.rows.map fun b => if b.userId = id then b.amount else 0).sum

def Bet.wonBy (id : UserId) (b : Bet) : Int :=
  if b.userId = id ∧ b.status = .won then b.payout.getD 0 else 0

def Db.wonBy (db : Db) (id : UserId) : Int := (db.bets.rows.map (Bet.wonBy id)).sum

def Bet.Accounted (db : Db) (b : Bet) : Prop :=
  ∃ m, db.marketById b.marketId = some m ∧
    match b.status with
    | .active => m.status ≠ .resolved
    | .won => m.status = .resolved ∧ m.resolvedOutcomeId = some b.outcomeId ∧
        b.payout = some (b.amount * Price.scale / b.price.tenThousandths)
    | .lost => m.status = .resolved ∧
        (∃ winner, m.resolvedOutcomeId = some winner ∧ winner ≠ b.outcomeId) ∧ b.payout = none
    | .refunded => False

structure Db.LedgerExact (db : Db) : Prop where
  balances : ∀ u ∈ db.users.rows,
    u.balance = User.startingBalance - db.stakedBy u.id + db.wonBy u.id
  bets : ∀ b ∈ db.bets.rows, b.Accounted db

/-- What the calls of an orderly run guarantee of the transaction they ask for. -/
def Write.Ready (db : Db) : Write → Prop
  | .create .. => True
  | .place bet _ _ => db.isResolved bet.marketId = false
  | .settle market settled =>
    db.isResolved market.id = false ∧
      (∀ b ∈ db.activeForMarket market.id, ∃ r ∈ settled, r.id = b.id) ∧
      ∀ r ∈ settled, r.payout.isSome → InI64 (r.amount * Price.scale)
  | .save _ user => user.balance = User.startingBalance ∧ db.userById user.id = none

theorem stakedBy_placed {db : Db} {bet : Bet} {priced : List Outcome} {points : List PricePoint}
    {now : DateTime} (h : PlaceEnabled db bet priced points) (id : UserId) :
    (db.placed bet priced points now).stakedBy id =
      db.stakedBy id + if bet.userId = id then bet.amount else 0 := by
  unfold Db.stakedBy
  rw [rows_bets_placed h]
  simp

theorem wonBy_placed {db : Db} {bet : Bet} {priced : List Outcome} {points : List PricePoint}
    {now : DateTime} (h : PlaceEnabled db bet priced points) (hactive : bet.status = .active)
    (id : UserId) : (db.placed bet priced points now).wonBy id = db.wonBy id := by
  unfold Db.wonBy
  rw [rows_bets_placed h]
  simp [Bet.wonBy, hactive]

section Settled
variable {db : Db} {market : Market} {settled : List Bet} {now : DateTime}

theorem stakedBy_settled (id : UserId) :
    (db.settled market settled now).stakedBy id = db.stakedBy id := by
  unfold Db.stakedBy
  rw [rows_bets_settled, List.map_map]
  congr 1
  refine List.map_congr_left fun b _ => ?_
  have hsame := settledRow_sameStake settled b
  simp [hsame.userId, hsame.amount]

theorem wonBy_settledRow (hok : (Write.settle market settled).Ok db) {r : Bet}
    (hr : r ∈ db.bets.rows) (hactive : ∀ s ∈ settled, s.id = r.id → r.status = .active)
    (id : UserId) :
    (settledRow settled r).wonBy id = r.wonBy id +
      ((settled.find? fun s => s.id = r.id).map fun s =>
        if s.userId = id then s.payout.getD 0 else 0).getD 0 := by
  cases hf : settled.find? fun s => s.id = r.id with
  | none => simp [settledRow, hf]
  | some s =>
    have hs := List.mem_of_find?_eq_some hf
    have hid : s.id = r.id := by simpa using List.find?_some hf
    have huser := (settled_row hok hs hr hid).1.userId
    obtain ⟨-, -, -, winner, -, -, hall⟩ := hok
    have hon := (hall s hs).2.1
    have hbefore : r.wonBy id = 0 := by simp [Bet.wonBy, hactive s hs hid]
    have hrow : settledRow settled r = { r with status := s.status, payout := s.payout } := by
      simp [settledRow, hf]
    rw [hrow, hbefore]
    by_cases hwin : s.outcomeId = winner
    · simp [Bet.wonBy, hon.status, hwin, huser]
    · simp [Bet.wonBy, hon.status, hon.payout, hwin]

theorem wonBy_settled (hok : (Write.settle market settled).Ok db)
    (hactive : ∀ r ∈ db.bets.rows, ∀ s ∈ settled, s.id = r.id → r.status = .active)
    (userId : UserId) :
    (db.settled market settled now).wonBy userId = db.wonBy userId + credits settled userId := by
  obtain ⟨-, -, hnd, winner, -, -, hall⟩ := id hok
  have hsub : ∀ s ∈ settled, s.id ∈ db.bets.rows.map Bet.id := by
    intro s hs
    obtain ⟨-, -, b, hb, hsame⟩ := hall s hs
    exact List.mem_map.mpr ⟨b, hb, hsame.id⟩
  unfold Db.wonBy
  rw [rows_bets_settled, List.map_map, credits_eq_sum, ← Table.sum_matched hnd hsub,
    ← List.sum_map_add]
  congr 1
  exact List.map_congr_left fun r hr => wonBy_settledRow hok hr (hactive r hr) userId

end Settled

theorem isResolved_of_unresolved {db : Db} {id : MarketId} {m : Market}
    (hm : db.marketById id = some m) : db.isResolved id = false ↔ m.status ≠ .resolved := by
  simp [Db.isResolved, hm]

theorem Bet.Accounted.kept {db db' : Db} {b : Bet} (h : b.Accounted db)
    (hkeep : ∀ m, db.marketById b.marketId = some m → ∃ m', db'.marketById b.marketId = some m' ∧
      m'.status = m.status ∧ m'.resolvedOutcomeId = m.resolvedOutcomeId) : b.Accounted db' := by
  obtain ⟨m, hm, hsays⟩ := h
  obtain ⟨m', hm', hstatus, hwinner⟩ := hkeep m hm
  refine ⟨m', hm', ?_⟩
  rw [hstatus, hwinner]
  exact hsays

theorem Bet.Accounted.active {db : Db} {b : Bet} (h : b.Accounted db)
    (hopen : db.isResolved b.marketId = false) : b.status = .active := by
  obtain ⟨m, hm, hsays⟩ := h
  have hm' := (isResolved_of_unresolved hm).mp hopen
  cases hb : b.status <;> simp_all

theorem winnings_exact {b : Bet} (h : InI64 (b.amount * Price.scale)) :
    b.winnings = b.amount * Price.scale / b.price.tenThousandths := by
  have ha := b.amountPositive
  unfold Bet.winnings saturatingMul
  rw [saturate64_of_inI64 h, Int.tdiv_eq_ediv_of_nonneg]
  unfold Price.scale
  omega

/-- A settled row says what its market does now. -/
theorem settledRow_accounted {db : Db} {market : Market} {settled : List Bet} {now : DateTime}
    (hok : (Write.settle market settled).Ok db) {r : Bet} (hr : r ∈ db.bets.rows) {s : Bet}
    (hs : s ∈ settled) (hid : s.id = r.id)
    (hfits : s.payout.isSome → InI64 (s.amount * Price.scale)) :
    ({ r with status := s.status, payout := s.payout } : Bet).Accounted
      (db.settled market settled now) := by
  obtain ⟨hsame, hmarket⟩ := settled_row hok hs hr hid
  obtain ⟨⟨m, hm⟩, hstatus, -, winner, -, hwinner, hall⟩ := hok
  have hmid : m.id = market.id := Table.find?_key hm
  have hon := (hall s hs).2.1
  refine ⟨_, by rw [hmarket, marketById_settled, hm, Option.map_some], ?_⟩
  simp only [hmid, if_true, hstatus, hwinner]
  by_cases hwin : s.outcomeId = winner
  · have hpay : s.payout = some s.winnings := by rw [hon.payout, if_pos hwin]
    have hstat : s.status = .won := by rw [hon.status, if_pos hwin]
    have hwinnings := winnings_exact (hfits (by simp [hpay]))
    simp only [hstat, true_and]
    exact ⟨by rw [hsame.outcomeId, hwin], by rw [hpay, hwinnings, hsame.amount, hsame.price]⟩
  · have hpay : s.payout = none := by rw [hon.payout, if_neg hwin]
    have hstat : s.status = .lost := by rw [hon.status, if_neg hwin]
    simp only [hstat, true_and]
    refine ⟨⟨winner, rfl, ?_⟩, hpay⟩
    rw [hsame.outcomeId]
    exact fun heq => hwin heq.symm

theorem Db.LedgerExact.settled {db : Db} {market : Market} {settled : List Bet} {now : DateTime}
    (hok : (Write.settle market settled).Ok db) (hready : (Write.settle market settled).Ready db)
    (h : db.LedgerExact) : (db.settled market settled now).LedgerExact := by
  obtain ⟨hopen, hcovers, hfits⟩ := hready
  have hactive : ∀ r ∈ db.bets.rows, ∀ s ∈ settled, s.id = r.id → r.status = .active := by
    intro r hr s hs hid
    refine (h.bets r hr).active ?_
    rw [(settled_row hok hs hr hid).2]
    exact hopen
  constructor
  · intro u' hu'
    obtain ⟨u, hu, rfl⟩ := List.mem_map.mp hu'
    rw [paidRow_balance, paidRow_id, stakedBy_settled, wonBy_settled hok hactive,
      h.balances u hu]
    omega
  · intro r' hr'
    obtain ⟨r, hr, rfl⟩ := List.mem_map.mp hr'
    rcases settledRow_cases hok hr with ⟨hsame, hnone⟩ | ⟨s, hs, hid, -, -, hrow⟩
    · rw [hsame]
      refine (h.bets r hr).kept fun m hm => ?_
      have hother : ¬m.id = market.id := by
        intro heq
        have hmid : m.id = r.marketId := Table.find?_key hm
        have hstatus := (h.bets r hr).active (by rw [← hmid, heq]; exact hopen)
        obtain ⟨s, hs, hid⟩ := hcovers r
          (ResolveMarket.mem_activeForMarket.mpr ⟨hr, hmid.symm.trans heq, hstatus⟩)
        exact hnone s hs hid
      exact ⟨m, by simp [marketById_settled, hm, hother], rfl, rfl⟩
    · rw [hrow]
      exact settledRow_accounted hok hr hs hid (hfits s hs)

theorem fresh_user {db : Db} (hwf : db.Wf) {id : UserId} (h : db.userById id = none) :
    db.stakedBy id = 0 ∧ db.wonBy id = 0 := by
  have hne : ∀ b ∈ db.bets.rows, b.userId ≠ id := by
    rintro b hb rfl
    obtain ⟨u, hu⟩ := hwf.betUser b hb
    simp [h] at hu
  constructor
  · refine List.sum_eq_zero fun x hx => ?_
    obtain ⟨b, hb, rfl⟩ := List.mem_map.mp hx
    simp [hne b hb]
  · refine List.sum_eq_zero fun x hx => ?_
    obtain ⟨b, hb, rfl⟩ := List.mem_map.mp hx
    simp [Bet.wonBy, hne b hb]

theorem Db.LedgerExact.done {db db' : Db} {w : Write} {now : DateTime} (hwf : db.Wf)
    (hok : w.Ok db) (hdone : w.Done db now db') (hready : w.Ready db) (h : db.LedgerExact) :
    db'.LedgerExact := by
  have hkept : (∀ id, w.settles id = false) → ∀ b : Bet, b.Accounted db → b.Accounted db' :=
    fun hother b hb => hb.kept fun m hm => hdone.winner_kept hm (hother _)
  cases hdone with
  | create market outcomes at' hen =>
    exact ⟨h.balances, fun b hb => hkept (fun _ => rfl) b (h.bets b hb)⟩
  | place bet priced points hen =>
    have hactive : bet.status = .active := hok.2.2.2.1
    constructor
    · intro u' hu'
      obtain ⟨u, hu, rfl⟩ := List.mem_map.mp hu'
      have hold := h.balances u hu
      rw [stakedBy_placed hen, wonBy_placed hen hactive]
      by_cases hid : u.id = bet.userId
      · simp only [hid, if_true] at hold ⊢
        omega
      · have hne : ¬bet.userId = u.id := fun heq => hid heq.symm
        simpa only [hid, hne, if_false, Int.add_zero] using hold
    · intro b hb
      refine hkept (fun _ => rfl) b ?_
      rw [rows_bets_placed hen, List.mem_append, List.mem_singleton] at hb
      rcases hb with hb | rfl
      · exact h.bets b hb
      · obtain ⟨m, hm⟩ := hok.1
        exact ⟨m, hm, by simpa [hactive] using (isResolved_of_unresolved hm).mp hready⟩
  | settle market settled hin => exact h.settled hok hready
  | save cause user hun =>
    refine ⟨fun u hu => ?_, fun b hb => hkept (fun _ => rfl) b (h.bets b hb)⟩
    rcases Table.mem_upsert.mp hu with rfl | ⟨hu, -⟩
    · obtain ⟨hstaked, hwon⟩ := fresh_user hwf hready.2
      have hsaved : (db.saved user).stakedBy user.id = 0 ∧ (db.saved user).wonBy user.id = 0 :=
        ⟨hstaked, hwon⟩
      rw [savedRow_id, hsaved.1, hsaved.2, savedRow_balance, hready.1]
      rfl
    · exact h.balances u hu

def Call.onMarket (db : Db) (id : MarketId) : Call → Bool
  | .placeBet _ input _ => (db.outcomeById input.outcomeId).any fun o => o.marketId = id
  | .resolveMarket _ marketId _ _ => marketId = id
  | _ => false

def Sys.overlaps (s : Sys) (i j : Nat) : Bool :=
  match s.calls[i]?, s.calls[j]? with
  | some (.running (.resolveMarket _ id _ _)), some (.running call) => call.onMarket s.db id
  | _, _ => false

def Sys.noOverlap (s : Sys) : Bool :=
  (List.range s.calls.length).all fun i =>
    (List.range s.calls.length).all fun j => i = j || !s.overlaps i j

/-- No settlement overlaps a settlement or a placement on its market, no call writes a
profile, and no payout saturates. -/
def orderly (s : Sys) (a : Act) : Bool :=
  s.noOverlap && (match a with
    | .start (.profile _) _ => false
    | _ => true) &&
  match s.writing? a with
  | some (.settle _ settled) => settled.all fun b =>
      b.payout.isNone || InI64 (b.amount * Price.scale)
  | _ => true

theorem Sys.apart {s : Sys} (h : s.noOverlap = true) {i j : Nat} {actor : Actor} {id : MarketId}
    {winner : OutcomeId} {phase : ResolveMarket.Phase} {call : Call}
    (hi : s.calls[i]? = some (.running (.resolveMarket actor id winner phase)))
    (hj : s.calls[j]? = some (.running call)) (hne : i ≠ j) : call.onMarket s.db id = false := by
  have hilt := (List.getElem?_eq_some_iff.mp hi).1
  have hjlt := (List.getElem?_eq_some_iff.mp hj).1
  simp only [Sys.noOverlap, List.all_eq_true, List.mem_range] at h
  have hpair := h i hilt j hjlt
  simpa [hne, Sys.overlaps, hi, hj] using hpair

def Write.touches (id : MarketId) : Write → Bool
  | .place bet _ _ => bet.marketId = id
  | .settle market _ => market.id = id
  | _ => false

theorem Write.settles_of_untouched {w : Write} {id : MarketId} (h : w.touches id = false) :
    w.settles id = false := by
  cases w <;> simp_all [Write.touches, Write.settles]

theorem Write.Done.activeForMarket {db db' : Db} {w : Write} {now : DateTime} (hok : w.Ok db)
    (h : w.Done db now db') {id : MarketId} (hother : w.touches id = false) {b : Bet}
    (hb : b ∈ db'.activeForMarket id) : b ∈ db.activeForMarket id := by
  obtain ⟨hrow, hid, hstatus⟩ := ResolveMarket.mem_activeForMarket.mp hb
  refine ResolveMarket.mem_activeForMarket.mpr ?_
  cases h with
  | create market outcomes at' hen => exact ⟨hrow, hid, hstatus⟩
  | place bet priced points hen =>
    rw [rows_bets_placed hen, List.mem_append, List.mem_singleton] at hrow
    rcases hrow with hrow | rfl
    · exact ⟨hrow, hid, hstatus⟩
    · simp [Write.touches, hid] at hother
  | settle market settled hin =>
    obtain ⟨r, hr, rfl⟩ := List.mem_map.mp hrow
    have hrid : r.marketId = id := (settledRow_sameStake settled r).marketId.symm.trans hid
    rcases settledRow_cases hok hr with ⟨hsame, -⟩ | ⟨s, -, -, -, hmarket, -⟩
    · rw [hsame] at hid hstatus ⊢
      exact ⟨hr, hid, hstatus⟩
    · simp [Write.touches, ← hmarket, hrid] at hother
  | save cause user hun => exact ⟨hrow, hid, hstatus⟩

def PlaceBet.Phase.market? : PlaceBet.Phase → Option MarketId
  | .readOutcomes market => some market.id
  | .findUser market _ _ _ => some market.id
  | .place market .. => some market.id
  | _ => none

def ResolveMarket.Phase.UpToDate (db : Db) (id : MarketId) : ResolveMarket.Phase → Prop
  | .readMarket => True
  | .readOutcomes market => market.status ≠ .resolved → db.isResolved id = false
  | .readActive .. => db.isResolved id = false
  | .settle _ _ settled =>
    db.isResolved id = false ∧ ∀ b ∈ db.activeForMarket id, ∃ r ∈ settled, r.id = b.id

def Call.UpToDate (db : Db) : Call → Prop
  | .createMarket .. => True
  | .placeBet _ _ phase => ∀ id ∈ phase.market?, db.isResolved id = false
  | .resolveMarket _ id _ phase => phase.UpToDate db id
  | .profile .. => False

def Slot.UpToDate (db : Db) : Slot → Prop
  | .running call => call.UpToDate db
  | .returned .. => True

theorem onMarket_of_mem {db : Db} {id : MarketId} {o : OutcomeId} (h : o ∈ db.outcomeIds id) :
    (db.outcomeById o).any (fun r => r.marketId = id) = true := by
  obtain ⟨r, hr, rfl⟩ := List.mem_map.mp h
  obtain ⟨hrow, hid⟩ := Db.mem_outcomesFor.mp hr
  have hfind : db.outcomeById r.id = some r := Table.find?_of_mem hrow
  simp [hfind, hid]

theorem PlaceBet.Phase.Wf.mem_outcomeIds {db : Db} {actor : Actor} {input : NewBet}
    {phase : PlaceBet.Phase} (h : phase.Wf db actor input) {id : MarketId}
    (hid : id ∈ phase.market?) : input.outcomeId ∈ db.outcomeIds id := by
  cases phase with
  | readOutcomes market =>
    cases hid
    exact h.2
  | findUser market outcomes chosen lookup =>
    cases hid
    obtain ⟨-, hids, o, ho, hoid⟩ := h
    rw [← hids, ← hoid]
    exact List.mem_map_of_mem (List.mem_of_getElem? ho)
  | place market user bet priced chosen points =>
    cases hid
    obtain ⟨⟨-, -, hmem, -⟩, -, hmarket, houtcome, -⟩ := h
    rw [← hmarket, ← houtcome]
    exact hmem
  | _ => simp [PlaceBet.Phase.market?] at hid

theorem Call.onMarket_of_touches {db : Db} {env : Env} {call : Call} {w : Write} {id : MarketId}
    (hwf : call.Wf db) (hwrite : call.write? env = some w) (h : w.touches id = true) :
    call.onMarket db id = true := by
  cases call with
  | createMarket actor input prepared =>
    cases hwrite
    simp [Write.touches] at h
  | placeBet actor input phase =>
    cases phase <;> simp [Call.write?, PlaceBet.write?] at hwrite
    subst hwrite
    obtain ⟨⟨-, -, hmem, -⟩, -, -, houtcome, -⟩ := hwf
    have hid := of_decide_eq_true h
    rw [hid, houtcome] at hmem
    exact onMarket_of_mem hmem
  | resolveMarket actor marketId winner phase =>
    cases phase <;> simp [Call.write?, ResolveMarket.write?] at hwrite
    subst hwrite
    have hid : _ = id := of_decide_eq_true h
    simp [Call.onMarket, ← hid, hwf.2.1]
  | profile job phase =>
    cases phase <;> simp [Call.write?, ProfileJob.write?] at hwrite
    subst hwrite
    simp [Write.touches] at h

theorem Call.resolves_of_settles {env : Env} {db : Db} {call : Call} {w : Write} {id : MarketId}
    (hwf : call.Wf db) (hwrite : call.write? env = some w) (h : w.settles id = true) :
    ∃ actor winner phase, call = .resolveMarket actor id winner phase := by
  cases call with
  | createMarket actor input prepared =>
    cases hwrite
    simp [Write.settles] at h
  | placeBet actor input phase =>
    cases phase <;> simp [Call.write?, PlaceBet.write?] at hwrite
    subst hwrite
    simp [Write.settles] at h
  | resolveMarket actor marketId winner phase =>
    cases phase <;> simp [Call.write?, ResolveMarket.write?] at hwrite
    subst hwrite
    have hid : _ = id := of_decide_eq_true h
    exact ⟨actor, winner, _, by rw [← hid, hwf.2.1]⟩
  | profile job phase =>
    cases phase <;> simp [Call.write?, ProfileJob.write?] at hwrite
    subst hwrite
    simp [Write.settles] at h

theorem Call.UpToDate.kept {db db' : Db} {w : Write} {now : DateTime} {call : Call}
    (hok : w.Ok db) (hdone : w.Done db now db')
    (hplace : ∀ actor input phase, call = .placeBet actor input phase →
      ∀ id ∈ phase.market?, w.settles id = false)
    (hresolve : ∀ actor id winner phase, call = .resolveMarket actor id winner phase →
      w.touches id = false)
    (h : call.UpToDate db) : call.UpToDate db' := by
  cases call with
  | createMarket actor input prepared => trivial
  | placeBet actor input phase =>
    intro id hid
    rw [hdone.isResolved hok, h id hid, hplace actor input phase rfl id hid, Bool.or_false]
  | resolveMarket actor id winner phase =>
    have hother := hresolve actor id winner phase rfl
    have hres : db'.isResolved id = db.isResolved id := by
      rw [hdone.isResolved hok, Write.settles_of_untouched hother, Bool.or_false]
    cases phase with
    | readMarket => trivial
    | readOutcomes market => exact fun hstatus => hres.trans (h hstatus)
    | readActive market outcomes => exact hres.trans h
    | settle market outcomes settled =>
      exact ⟨hres.trans h.1, fun b hb => h.2 b (hdone.activeForMarket hok hother hb)⟩
  | profile job phase => exact h

theorem Next.slot_upToDate {φ : Type} {request : Request} {call : φ → Call} {next : Next φ}
    {db : Db} (h : ∀ phase, next = .goto phase → (call phase).UpToDate db) :
    (next.slot request call).UpToDate db := by
  cases next with
  | goto phase => exact h phase rfl
  | reply r => trivial

theorem Request.begin_upToDate {build : Build} {env : Env} {request : Request} (db : Db)
    (h : ∀ job, request ≠ .profile job) : (request.begin build env).UpToDate db := by
  cases request with
  | createMarket actor input => exact Next.slot_upToDate fun _ _ => trivial
  | placeBet actor input => simp [Request.begin, Slot.UpToDate, Call.UpToDate,
      PlaceBet.Phase.market?]
  | resolveMarket actor marketId winner =>
    simp only [Request.begin]
    split <;> trivial
  | profile job => exact absurd rfl (h job)

theorem PlaceBet.read_upToDate {build : Build} {env : Env} {db : Db} {cache cache' : Cache}
    {actor : Actor} {input : NewBet} {phase phase' : PlaceBet.Phase}
    (h : ∀ id ∈ phase.market?, db.isResolved id = false)
    (hr : PlaceBet.read build env db cache actor input phase = some (cache', .goto phase')) :
    ∀ id ∈ phase'.market?, db.isResolved id = false := by
  cases phase with
  | readOutcome =>
    simp only [PlaceBet.read, Option.some.injEq, Prod.mk.injEq] at hr
    cases ho : db.outcomeById input.outcomeId with
    | none => simp [ho, PlaceBet.onOutcome] at hr
    | some o =>
      simp only [ho, PlaceBet.onOutcome, Next.goto.injEq] at hr
      rw [← hr.2]
      simp [PlaceBet.Phase.market?]
  | readMarket outcome =>
    simp only [PlaceBet.read, Option.some.injEq, Prod.mk.injEq] at hr
    cases hm : db.marketById outcome.marketId with
    | none => simp [hm, PlaceBet.onMarket] at hr
    | some m =>
      simp only [hm, PlaceBet.onMarket] at hr
      split at hr
      · rename_i haccepts
        simp only [Next.goto.injEq] at hr
        rw [← hr.2]
        rintro id ⟨rfl⟩
        have hmid : m.id = outcome.marketId := Table.find?_key hm
        rw [hmid, isResolved_of_unresolved hm, Market.acceptsBets_opened haccepts]
        simp
      · simp [Next.domainError] at hr
  | readOutcomes market =>
    simp only [PlaceBet.read, PlaceBet.onOutcomes, Option.some.injEq, Prod.mk.injEq] at hr
    split at hr
    · simp [Next.domainError] at hr
    · simp only [Next.goto.injEq] at hr
      rw [← hr.2]
      exact h
  | findUser market outcomes chosen lookup =>
    simp only [PlaceBet.read] at hr
    split at hr
    · simp only [Option.some.injEq, Prod.mk.injEq, Next.goto.injEq] at hr
      rw [← hr.2]
      exact h
    · simp only [Option.some.injEq, Prod.mk.injEq] at hr
      obtain ⟨user, bet, backed, priced, -, -, rfl⟩ := PlaceBet.onUser_goto hr.2
      exact h
  | place market user bet priced chosen points => simp [PlaceBet.read] at hr
  | readPosition market user bet priced chosen => simp [PlaceBet.read] at hr

theorem ResolveMarket.read_upToDate {env : Env} {db : Db} {cache cache' : Cache}
    {marketId : MarketId} {winner : OutcomeId} {phase phase' : ResolveMarket.Phase}
    (hwf : phase.Wf db marketId winner) (h : phase.UpToDate db marketId)
    (hr : ResolveMarket.read env db cache marketId winner phase = some (cache', .goto phase')) :
    phase'.UpToDate db marketId := by
  cases phase with
  | readMarket =>
    simp only [ResolveMarket.read, Option.some.injEq, Prod.mk.injEq] at hr
    cases hm : db.marketById marketId with
    | none => simp [hm, ResolveMarket.onMarket] at hr
    | some m =>
      simp only [hm, ResolveMarket.onMarket, Next.goto.injEq] at hr
      rw [← hr.2]
      exact (isResolved_of_unresolved hm).mpr
  | readOutcomes market =>
    simp only [ResolveMarket.read, ResolveMarket.onOutcomes, Option.some.injEq,
      Prod.mk.injEq] at hr
    split at hr
    · cases hres : market.resolve winner with
      | error e => simp [hres, Next.domainError] at hr
      | ok m =>
        simp only [hres, Next.goto.injEq] at hr
        rw [← hr.2]
        exact h (Market.resolve_ok hres).1
    · simp [Next.domainError] at hr
  | readActive market outcomes =>
    simp only [ResolveMarket.read] at hr
    split at hr
    · rename_i hperm
      simp only [Option.some.injEq, Prod.mk.injEq, ResolveMarket.onActive] at hr
      cases hs : ResolveMarket.settleAll winner (env.scan (db.activeForMarket marketId)) with
      | error e => simp [hs, Next.domainError] at hr
      | ok settled =>
        simp only [hs, Next.goto.injEq] at hr
        rw [← hr.2]
        refine ⟨h, fun b hb => ?_⟩
        obtain ⟨-, rfl⟩ := ResolveMarket.settleAll_ok hs
        exact ⟨_, List.mem_map_of_mem (hperm.mem_iff.mpr hb),
          (ResolveMarket.settleOn_sameStake winner b).id.symm⟩
    · simp at hr
  | settle market outcomes settled => simp [ResolveMarket.read] at hr

theorem Call.read_upToDate {build : Build} {env : Env} {db : Db} {cache cache' : Cache}
    {call : Call} {slot : Slot} (hwf : call.Wf db) (h : call.UpToDate db)
    (hr : call.read build env db cache = some (cache', slot)) : slot.UpToDate db := by
  cases call with
  | createMarket actor input prepared => simp [Call.read] at hr
  | placeBet actor input phase =>
    simp only [Call.read, Option.map_eq_some_iff] at hr
    obtain ⟨⟨cache₁, next⟩, hread, heq⟩ := hr
    cases heq
    refine Next.slot_upToDate fun phase' hp => ?_
    cases hp
    exact PlaceBet.read_upToDate h hread
  | resolveMarket actor marketId winner phase =>
    simp only [Call.read, Option.map_eq_some_iff] at hr
    obtain ⟨⟨cache₁, next⟩, hread, heq⟩ := hr
    cases heq
    refine Next.slot_upToDate fun phase' hp => ?_
    cases hp
    exact ResolveMarket.read_upToDate hwf h hread
  | profile job phase => exact absurd h id

theorem Call.written_upToDate {env : Env} {call : Call} {w : Write} {db : Db} (db' : Db)
    (h : call.UpToDate db) (hwrite : call.write? env = some w)
    (result : Except RepositoryError Unit) : (call.written result).UpToDate db' := by
  cases call with
  | createMarket actor input prepared => cases result <;> trivial
  | placeBet actor input phase =>
    cases phase <;> simp [Call.write?, PlaceBet.write?] at hwrite
    cases result with
    | error e => trivial
    | ok u =>
      simp [Call.written, PlaceBet.written, PlaceBet.onPlaced, Next.slot, Slot.UpToDate,
        Call.UpToDate, PlaceBet.Phase.market?]
  | resolveMarket actor marketId winner phase =>
    cases phase <;> simp [Call.write?, ResolveMarket.write?] at hwrite
    trivial
  | profile job phase => exact absurd h id

structure Sys.Orderly (s : Sys) : Prop where
  ledger : s.db.LedgerExact
  calls : ∀ {i : Nat} {x : Slot}, s.calls[i]? = some x → x.UpToDate s.db

theorem Call.UpToDate.ready {env : Env} {db : Db} {call : Call} {w : Write} (hwf : call.Wf db)
    (h : call.UpToDate db) (hwrite : call.write? env = some w)
    (hfits : ∀ market settled, w = .settle market settled →
      ∀ r ∈ settled, r.payout.isSome → InI64 (r.amount * Price.scale)) : w.Ready db := by
  cases call with
  | createMarket actor input prepared =>
    cases hwrite
    trivial
  | placeBet actor input phase =>
    cases phase <;> simp [Call.write?, PlaceBet.write?] at hwrite
    subst hwrite
    have hopen := h _ rfl
    rw [← hwf.2.2.1] at hopen
    exact hopen
  | resolveMarket actor marketId winner phase =>
    cases phase <;> simp [Call.write?, ResolveMarket.write?] at hwrite
    subst hwrite
    obtain ⟨-, hid, -⟩ := hwf
    rw [← hid] at h
    exact ⟨h.1, h.2, hfits _ _ rfl⟩
  | profile job phase => exact absurd h id

theorem Sys.Orderly.others {s : Sys} (hwf : s.Wf) (hapart : s.noOverlap = true) (h : s.Orderly)
    {i j : Nat} {env : Env} {call : Call} {w : Write} {now : DateTime} {db : Db} {x : Slot}
    (hi : s.calls[i]? = some (.running call)) (hwrite : call.write? env = some w)
    (hok : w.Ok s.db) (hdone : w.Done s.db now db) (hj : s.calls[j]? = some x) (hne : j ≠ i) :
    x.UpToDate db := by
  have hx := h.calls hj
  cases x with
  | returned request reply => trivial
  | running other =>
    refine Call.UpToDate.kept hok hdone ?_ ?_ hx
    · rintro actor input phase rfl id hid
      by_contra hsettles
      obtain ⟨actor', winner, phase', rfl⟩ :=
        Call.resolves_of_settles (hwf.call hi) hwrite (Bool.not_eq_false _ ▸ hsettles)
      have hmem := PlaceBet.Phase.Wf.mem_outcomeIds (hwf.call hj) hid
      have happart := s.apart hapart hi hj hne.symm
      simp [Call.onMarket, onMarket_of_mem hmem] at happart
    · rintro actor id winner phase rfl
      by_contra htouches
      have hon := Call.onMarket_of_touches (hwf.call hi) hwrite (Bool.not_eq_false _ ▸ htouches)
      rw [s.apart hapart hj hi hne] at hon
      simp at hon

theorem Sys.Orderly.effect {build : Build} {s s' : Sys} {a : Act} (hwf : s.Wf)
    (hg : orderly s a = true) (h : s.Orderly) (he : Sys.Effect build s a s') : s'.Orderly := by
  simp only [orderly, Bool.and_eq_true] at hg
  obtain ⟨⟨hapart, hstart⟩, hfits⟩ := hg
  cases he with
  | started request env =>
    refine ⟨h.ledger, fun {i x} hi => ?_⟩
    rcases getElem?_append_cases hi with hi | rfl
    · exact h.calls hi
    · refine Request.begin_upToDate s.db ?_
      rintro job rfl
      simp at hstart
  | read i env call cache slot hcall hread hr =>
    refine ⟨h.ledger, fun {j x} hj => ?_⟩
    rcases getElem?_set_cases hj with ⟨hj, -⟩ | ⟨-, rfl⟩
    · exact h.calls hj
    · exact Call.read_upToDate (hwf.call hcall) (h.calls hcall) hr
  | committed i env call w db hcall hwrite hc =>
    obtain ⟨hok, hdone⟩ := hwf.done hcall hwrite hc
    have hready : w.Ready s.db := by
      refine Call.UpToDate.ready (hwf.call hcall) (h.calls hcall) hwrite ?_
      rintro market settled rfl r hr hpaid
      simp only [Sys.writing?, hcall, hwrite, List.all_eq_true] at hfits
      have hor := hfits r hr
      cases hp : r.payout with
      | none => simp [hp] at hpaid
      | some payout => simpa [hp] using hor
    refine ⟨h.ledger.done hwf.db hok hdone hready, fun {j x} hj => ?_⟩
    rcases getElem?_set_cases hj with ⟨hj, hne⟩ | ⟨-, rfl⟩
    · exact h.others hwf hapart hcall hwrite hok hdone hj hne
    · exact Call.written_upToDate db (h.calls hcall) hwrite _
  | refused i env call w e hcall hwrite hc =>
    refine ⟨h.ledger, fun {j x} hj => ?_⟩
    rcases getElem?_set_cases hj with ⟨hj, -⟩ | ⟨-, rfl⟩
    · exact h.calls hj
    · exact Call.written_upToDate s.db (h.calls hcall) hwrite _
  | failed i message call hcall =>
    refine ⟨h.ledger, fun {j x} hj => ?_⟩
    rcases getElem?_set_cases hj with ⟨hj, -⟩ | ⟨-, rfl⟩
    · exact h.calls hj
    · trivial
  | registered id username email hash now db hfresh hc =>
    have hok : (Write.save .registration (User.new id username email hash now)).Ok s.db := trivial
    have hdone := Write.done hok hc
    refine ⟨h.ledger.done hwf.db hok hdone ⟨rfl, hfresh⟩, fun {j x} hj => ?_⟩
    have hx := h.calls hj
    cases x with
    | returned request reply => trivial
    | running call =>
      exact Call.UpToDate.kept hok hdone (fun _ _ _ _ _ _ => rfl) (fun _ _ _ _ _ => rfl) hx
  | evicted userId hev => exact ⟨h.ledger, h.calls⟩
  | expired key => exact ⟨h.ledger, h.calls⟩

/-- In an orderly run users, bets and markets agree in every committed state. -/
theorem ledger_exact {build : Build} {as : List Act} {s : Sys}
    (h : Transition.run (Sys.step build) Sys.init as = some s)
    (hg : Transition.Guarded (Sys.step build) (fun u a => orderly u a = true) Sys.init as) :
    s.db.LedgerExact := by
  have hstep : ∀ u a u', u.Wf ∧ u.Orderly → orderly u a = true → Sys.step build u a = some u' →
      u'.Wf ∧ u'.Orderly := by
    rintro u a u' ⟨hwf, hord⟩ ha hs
    have he := Sys.step_effect hs
    exact ⟨hwf.effect he, hord.effect hwf ha he⟩
  have hinit : Sys.init.Orderly :=
    ⟨⟨by simp [Sys.init, Db.empty], by simp [Sys.init, Db.empty]⟩, by simp [Sys.init]⟩
  exact (Transition.run_invariant hstep ⟨Sys.wf_init, hinit⟩ hg h).2.ledger

theorem ledger_exact_overlap : (Sample.state Sample.overlap).db.LedgerExact :=
  ledger_exact (Sample.run_state (by decide +kernel)) (by decide +kernel)

end Betsphere
