import Betsphere.System.Totals
set_option autoImplicit false

namespace Betsphere
open MachineInt Pricing

def Sys.history (s : Sys) : List Db := s.log.map Prod.snd ++ [Db.empty]

def Write.placedOn (id : MarketId) : Write → Option Bet
  | .place bet _ _ => if bet.marketId = id then some bet else none
  | _ => none

def placements (log : List (Write × Db)) (id : MarketId) : List Bet :=
  log.filterMap fun entry => entry.1.placedOn id

def PlaceBet.pricing? (env : Env) (db : Db) (cache : Cache) (actor : Actor) (input : NewBet) :
    PlaceBet.Phase → Option (List Outcome)
  | .findUser market outcomes chosen lookup =>
    match (lookup.advance actor.userId env db cache).2 with
    | .inl _ => none
    | .inr found =>
      match PlaceBet.back env actor input market outcomes chosen found with
      | .error _ => none
      | .ok (_, _, backed) => some backed
  | _ => none

def Sys.pricing? (s : Sys) : Act → Option (List Outcome)
  | .step i env =>
    match s.calls[i]? with
    | some (.running (.placeBet actor input phase)) =>
      PlaceBet.pricing? env s.db s.cache actor input phase
    | _ => none
  | _ => none

/-- No `i64` overflow when a placement prices its outcomes. -/
def PricingFits (s : Sys) (a : Act) : Prop := ∀ backed ∈ s.pricing? a, Fits backed

instance (s : Sys) (a : Act) : Decidable (PricingFits s a) :=
  inferInstanceAs (Decidable (∀ backed ∈ s.pricing? a, Fits backed))

/-- The prices of a placement: those of `outcomes` with the stake on the chosen one. -/
structure PricedFrom (build : Build) (Q : List Outcome → Prop) (outcomes : List Outcome)
    (chosen : Nat) (bet : Bet) (priced : List Outcome) : Prop where
  backs : ∃ o, outcomes[chosen]? = some o ∧ o.id = bet.outcomeId
  checked : Q (PlaceBet.staked outcomes chosen bet.amount)
  result : recalculatePrices build (PlaceBet.staked outcomes chosen bet.amount) = .ok priced

section Sourced
variable (build : Build) (Q : List Outcome → Prop) (history : List Db)

def PlaceBet.Phase.Sourced : PlaceBet.Phase → Prop
  | .findUser market outcomes _ _ => ∃ d ∈ history, outcomes = d.outcomesFor market.id
  | .place market _ bet priced chosen _ =>
    ∃ d ∈ history, PricedFrom build Q (d.outcomesFor market.id) chosen bet priced
  | _ => True

def Slot.Sourced : Slot → Prop
  | .running (.createMarket _ _ prepared) =>
    ∃ raw, 2 ≤ raw.length ∧ (∀ o ∈ raw, o.volume = 0) ∧
      recalculatePrices build raw = .ok prepared.2
  | .running (.placeBet _ _ phase) => phase.Sourced build Q history
  | _ => True

def Write.Sourced : Write → Prop
  | .create _ outcomes _ =>
    ∃ raw, 2 ≤ raw.length ∧ (∀ o ∈ raw, o.volume = 0) ∧ recalculatePrices build raw = .ok outcomes
  | .place bet priced _ =>
    ∃ d ∈ history, ∃ chosen, PricedFrom build Q (d.outcomesFor bet.marketId) chosen bet priced
  | _ => True

end Sourced

/-- `Q` is what is known of every list a placement priced. -/
structure Sys.Sourced (build : Build) (Q : List Outcome → Prop) (s : Sys) : Prop where
  current : s.db ∈ s.history
  slots : ∀ slot ∈ s.calls, slot.Sourced build Q s.history

variable {build : Build} {Q : List Outcome → Prop}

theorem PlaceBet.Phase.sourced_mono {history history' : List Db} (hsub : history ⊆ history')
    {phase : PlaceBet.Phase} (h : phase.Sourced build Q history) :
    phase.Sourced build Q history' := by
  cases phase with
  | findUser market outcomes chosen lookup =>
    obtain ⟨d, hd, heq⟩ := h
    exact ⟨d, hsub hd, heq⟩
  | place market user bet priced chosen points =>
    obtain ⟨d, hd, hfrom⟩ := h
    exact ⟨d, hsub hd, hfrom⟩
  | _ => trivial

theorem Slot.sourced_mono {history history' : List Db} (hsub : history ⊆ history') {slot : Slot}
    (h : slot.Sourced build Q history) : slot.Sourced build Q history' := by
  cases slot with
  | returned request reply => trivial
  | running call =>
    cases call with
    | placeBet actor input phase => exact PlaceBet.Phase.sourced_mono hsub h
    | _ => exact h

theorem Next.slot_sourced {φ : Type} {request : Request} {call : φ → Call} {next : Next φ}
    {history : List Db}
    (h : ∀ phase, next = .goto phase → (Slot.running (call phase)).Sourced build Q history) :
    (next.slot request call).Sourced build Q history := by
  cases next with
  | goto phase => exact h phase rfl
  | reply r => trivial

theorem Request.begin_sourced (env : Env) (request : Request) (history : List Db) :
    (request.begin build env).Sourced build Q history := by
  cases request with
  | createMarket actor input =>
    refine Next.slot_sourced fun prepared hp => ?_
    obtain ⟨title, raw, -, hn, hlen, hprice⟩ := CreateMarket.prepare_goto hp
    exact ⟨raw, hlen, fun o ho => ((CreateMarket.newOutcomes_ok hn).2 o ho).2, hprice⟩
  | placeBet actor input => trivial
  | resolveMarket actor marketId winner =>
    simp only [Request.begin]
    split <;> trivial
  | profile job =>
    simp only [Request.begin]
    split <;> trivial

/-- A placement past its read of the outcomes prices what it read then, whatever was
committed in between. -/
theorem PlaceBet.findUser_sourced {env : Env} {db : Db} {cache cache' : Cache} {actor : Actor}
    {input : NewBet} {market : Market} {outcomes : List Outcome} {chosen : Nat} {lookup : Lookup}
    {phase' : PlaceBet.Phase} {history : List Db}
    (hwf : (PlaceBet.Phase.findUser market outcomes chosen lookup).Wf db actor input)
    (hs : (PlaceBet.Phase.findUser market outcomes chosen lookup).Sourced build Q history)
    (hguard : ∀ backed ∈ PlaceBet.pricing? env db cache actor input
      (.findUser market outcomes chosen lookup), Q backed)
    (h : PlaceBet.read build env db cache actor input (.findUser market outcomes chosen lookup) =
      some (cache', .goto phase')) : phase'.Sourced build Q history := by
  simp only [PlaceBet.read] at h
  cases ha : lookup.advance actor.userId env db cache with
  | mk cache₁ result =>
    cases result with
    | inl l =>
      simp only [ha, Option.some.injEq, Prod.mk.injEq, Next.goto.injEq] at h
      rw [← h.2]
      exact hs
    | inr found =>
      simp only [ha, Option.some.injEq, Prod.mk.injEq] at h
      obtain ⟨user, bet, backed, priced, hback, hprice, rfl⟩ := PlaceBet.onUser_goto h.2
      have hq : Q backed := hguard backed (by simp [PlaceBet.pricing?, ha, hback])
      obtain ⟨-, -, ⟨outcome, -, hbet⟩, rfl⟩ := PlaceBet.back_ok hback
      obtain ⟨-, -, o, ho, hoid⟩ := hwf
      obtain ⟨d, hd, rfl⟩ := hs
      have hid := (Bet.place_ok hbet).2.2.2.1
      exact ⟨d, hd, ⟨o, ho, hoid.trans hid.symm⟩, hq, hprice⟩

theorem PlaceBet.read_sourced {env : Env} {db : Db} {cache cache' : Cache} {actor : Actor}
    {input : NewBet} {phase phase' : PlaceBet.Phase} {history : List Db} (hdb : db ∈ history)
    (hwf : phase.Wf db actor input) (hs : phase.Sourced build Q history)
    (hguard : ∀ backed ∈ PlaceBet.pricing? env db cache actor input phase, Q backed)
    (h : PlaceBet.read build env db cache actor input phase = some (cache', .goto phase')) :
    phase'.Sourced build Q history := by
  cases phase with
  | readOutcome =>
    simp only [PlaceBet.read, Option.some.injEq, Prod.mk.injEq] at h
    cases ho : db.outcomeById input.outcomeId with
    | none => simp [ho, PlaceBet.onOutcome] at h
    | some o =>
      simp only [ho, PlaceBet.onOutcome, Next.goto.injEq] at h
      rw [← h.2]
      trivial
  | readMarket outcome =>
    simp only [PlaceBet.read, Option.some.injEq, Prod.mk.injEq] at h
    cases hm : db.marketById outcome.marketId with
    | none => simp [hm, PlaceBet.onMarket] at h
    | some m =>
      simp only [hm, PlaceBet.onMarket] at h
      split at h
      · simp only [Next.goto.injEq] at h
        rw [← h.2]
        trivial
      · simp [Next.domainError] at h
  | readOutcomes market =>
    simp only [PlaceBet.read, PlaceBet.onOutcomes, Option.some.injEq, Prod.mk.injEq] at h
    split at h
    · simp [Next.domainError] at h
    · simp only [Next.goto.injEq] at h
      rw [← h.2]
      exact ⟨db, hdb, rfl⟩
  | findUser market outcomes chosen lookup =>
    exact PlaceBet.findUser_sourced hwf hs hguard h
  | place market user bet priced chosen points => simp [PlaceBet.read] at h
  | readPosition market user bet priced chosen => simp [PlaceBet.read] at h

theorem Call.read_sourced {env : Env} {db : Db} {cache cache' : Cache} {call : Call} {slot : Slot}
    {history : List Db} (hdb : db ∈ history) (hwf : call.Wf db)
    (hs : (Slot.running call).Sourced build Q history)
    (hguard : ∀ actor input phase, call = .placeBet actor input phase →
      ∀ backed ∈ PlaceBet.pricing? env db cache actor input phase, Q backed)
    (h : call.read build env db cache = some (cache', slot)) :
    slot.Sourced build Q history := by
  cases call with
  | createMarket actor input prepared => simp [Call.read] at h
  | placeBet actor input phase =>
    simp only [Call.read, Option.map_eq_some_iff] at h
    obtain ⟨⟨cache₁, next⟩, hr, heq⟩ := h
    cases heq
    refine Next.slot_sourced fun phase' hp => ?_
    cases hp
    exact PlaceBet.read_sourced hdb hwf hs (hguard actor input phase rfl) hr
  | resolveMarket actor marketId winner phase =>
    simp only [Call.read, Option.map_eq_some_iff] at h
    obtain ⟨⟨cache₁, next⟩, -, heq⟩ := h
    cases heq
    exact Next.slot_sourced fun _ _ => trivial
  | profile job phase =>
    simp only [Call.read, Option.map_eq_some_iff] at h
    obtain ⟨⟨cache₁, next⟩, -, heq⟩ := h
    cases heq
    exact Next.slot_sourced fun _ _ => trivial

theorem Call.written_sourced {env : Env} {call : Call} {w : Write}
    (h : call.write? env = some w) (result : Except RepositoryError Unit) (history : List Db) :
    (call.written result).Sourced build Q history := by
  cases call with
  | createMarket actor input prepared => cases result <;> trivial
  | placeBet actor input phase =>
    cases phase <;> simp [Call.write?, PlaceBet.write?] at h
    cases result <;> trivial
  | resolveMarket actor marketId winner phase => exact Next.slot_sourced fun _ _ => trivial
  | profile job phase => exact Next.slot_sourced fun _ _ => trivial

theorem Sys.Sourced.effect {s s' : Sys} {a : Act} (hwf : s.Wf) (h : s.Sourced build Q)
    (hguard : ∀ backed ∈ s.pricing? a, Q backed) (he : Sys.Effect build s a s') :
    s'.Sourced build Q := by
  cases he with
  | started request env =>
    refine ⟨h.current, fun slot hslot => ?_⟩
    rcases List.mem_append.mp hslot with hslot | hslot
    · exact h.slots slot hslot
    · rw [List.mem_singleton.mp hslot]
      exact Request.begin_sourced env request s.history
  | read i env call cache slot hcall hread hr =>
    have hs := h.slots _ (List.mem_of_getElem? hcall)
    refine ⟨h.current, Sys.forall_set h.slots
      (Call.read_sourced h.current (hwf.call hcall) hs ?_ hr)⟩
    rintro actor input phase rfl backed hb
    exact hguard backed (by simpa [Sys.pricing?, hcall] using hb)
  | committed i env call w db hcall hwrite hc =>
    refine ⟨List.mem_cons_self, Sys.forall_set (fun x hx => ?_) (Call.written_sourced hwrite _ _)⟩
    exact Slot.sourced_mono (List.subset_cons_self db s.history) (h.slots x hx)
  | refused i env call w e hcall hwrite hc =>
    exact ⟨h.current, Sys.forall_set h.slots (Call.written_sourced hwrite _ _)⟩
  | failed i message call hcall => exact ⟨h.current, Sys.forall_set h.slots trivial⟩
  | registered id username email hash now db hfresh hc =>
    exact ⟨List.mem_cons_self, fun x hx =>
      Slot.sourced_mono (List.subset_cons_self db s.history) (h.slots x hx)⟩
  | evicted userId hev => exact ⟨h.current, h.slots⟩
  | expired key => exact ⟨h.current, h.slots⟩

theorem Sys.sourced_init : Sys.init.Sourced build Q :=
  ⟨by simp [Sys.init, Sys.history], by simp [Sys.init]⟩

theorem Slot.Sourced.write {call : Call} {history : List Db} {db : Db} {env : Env} {w : Write}
    (h : (Slot.running call).Sourced build Q history) (hwf : call.Wf db)
    (hwrite : call.write? env = some w) : w.Sourced build Q history := by
  cases call with
  | createMarket actor input prepared =>
    cases hwrite
    exact h
  | placeBet actor input phase =>
    cases phase <;> simp [Call.write?, PlaceBet.write?] at hwrite
    subst hwrite
    obtain ⟨d, hd, hfrom⟩ := h
    obtain ⟨-, -, hmarket, -⟩ := hwf
    exact ⟨d, hd, _, hmarket ▸ hfrom⟩
  | resolveMarket actor marketId winner phase =>
    cases phase <;> simp [Call.write?, ResolveMarket.write?] at hwrite
    subst hwrite
    trivial
  | profile job phase =>
    cases phase <;> simp [Call.write?, ProfileJob.write?] at hwrite
    subst hwrite
    trivial

theorem Sys.Sourced.tables {s s' : Sys} {a : Act} (h : s.Sourced build Q) (hwf : s.Wf)
    (he : Sys.Effect build s a s') :
    (s'.db = s.db ∧ s'.log = s.log) ∨
      ∃ w now, w.Ok s.db ∧ w.Done s.db now s'.db ∧ s'.log = (w, s'.db) :: s.log ∧
        w.Sourced build Q s.history := by
  cases he with
  | committed i env call w db hcall hwrite hc =>
    obtain ⟨hok, hdone⟩ := hwf.done hcall hwrite hc
    exact .inr ⟨w, env.now, hok, hdone, rfl,
      (h.slots _ (List.mem_of_getElem? hcall)).write (hwf.call hcall) hwrite⟩
  | registered id username email hash now db hfresh hc =>
    have hok : (Write.save .registration (User.new id username email hash now)).Ok s.db := trivial
    exact .inr ⟨_, now, hok, Write.done hok hc, rfl, trivial⟩
  | _ => exact .inl ⟨rfl, rfl⟩

end Betsphere
