import Betsphere.System.Step
import Betsphere.Postgres.Growth
set_option autoImplicit false

/-!
What every call in progress knows about the tables, at each of its awaits and however
the other calls moved on since it read them.
-/

namespace Betsphere
open MachineInt Pricing Apportion

namespace CreateMarket

theorem newOutcomes_ok {env : Env} {marketId : MarketId} {k : Nat} {labels : List Text}
    {outcomes : List Outcome} (h : newOutcomes env marketId k labels = .ok outcomes) :
    outcomes.length = labels.length ∧ ∀ o ∈ outcomes, o.marketId = marketId ∧ o.volume = 0 := by
  induction labels generalizing k outcomes with
  | nil =>
    cases h
    simp
  | cons label labels ih =>
    simp only [newOutcomes] at h
    cases hl : OutcomeLabel.new label with
    | error e => simp [hl] at h
    | ok l =>
      cases hr : newOutcomes env marketId (k + 1) labels with
      | error e => simp [hl, hr] at h
      | ok rest =>
        simp only [hl, hr, Except.ok.injEq] at h
        subst h
        obtain ⟨hlen, hall⟩ := ih hr
        refine ⟨by simp [hlen], fun o ho => ?_⟩
        rcases List.mem_cons.mp ho with rfl | ho
        · exact ⟨rfl, rfl⟩
        · exact hall o ho

theorem newOutcomes_ends {env : Env} {marketId : MarketId} {k : Nat} {labels : List Text}
    (h : ∀ label ∈ labels, ∃ l, OutcomeLabel.new label = .ok l) :
    ∃ outcomes, newOutcomes env marketId k labels = .ok outcomes := by
  induction labels generalizing k with
  | nil => exact ⟨[], rfl⟩
  | cons label labels ih =>
    obtain ⟨l, hl⟩ := h label List.mem_cons_self
    obtain ⟨rest, hrest⟩ := ih (k := k + 1) fun other hother =>
      h other (List.mem_cons_of_mem label hother)
    exact ⟨Outcome.new ⟨env.fresh k⟩ marketId l Price.zero :: rest,
      by rw [newOutcomes, hl]; simp only [hrest]⟩

theorem prepare_ends {build : Build} {env : Env} {actor : Actor} {input : NewMarket}
    {title : MarketTitle} (hrole : canManageMarkets actor.role = true)
    (htitle : MarketTitle.new input.title = .ok title) (hlen : 2 ≤ input.outcomes.length)
    (hlabels : ∀ label ∈ input.outcomes, ∃ l, OutcomeLabel.new label = .ok l) :
    ∃ market priced, prepare build env actor input = .goto (market, priced) ∧
      priced.length = input.outcomes.length ∧
      priceVector priced = apportion Price.scale (List.replicate input.outcomes.length 0) := by
  obtain ⟨raw, hraw⟩ : ∃ raw, newOutcomes env ⟨env.fresh 0⟩ 1 input.outcomes = .ok raw :=
    newOutcomes_ends hlabels
  obtain ⟨hcount, hall⟩ := newOutcomes_ok hraw
  have hne : raw ≠ [] := by
    rintro rfl
    simp only [List.length_nil] at hcount
    omega
  have hvolumes : raw.map Outcome.volume = List.replicate input.outcomes.length 0 := by
    rw [← hcount, ← List.map_const']
    exact List.map_congr_left fun o ho => (hall o ho).2
  have hnn : NonNegative raw := fun o ho => (hall o ho).2.ge
  have hfit : Fits raw := by
    refine ⟨by rw [hvolumes]; simp [i64Max], fun o ho => ?_⟩
    rw [(hall o ho).2]
    decide
  obtain ⟨priced, hprice⟩ : ∃ priced, recalculatePrices build raw = .ok priced :=
    ⟨_, recalculatePrices_of_fits build hne hnn hfit⟩
  have hmarket : (Market.new ⟨env.fresh 0⟩ title input.description input.category input.closesAt
      env.now).id = ⟨env.fresh 0⟩ := rfl
  refine ⟨Market.new ⟨env.fresh 0⟩ title input.description input.category input.closesAt env.now,
    priced, ?_, ?_, ?_⟩
  · simp only [prepare, hrole, not_true_eq_false, if_false, if_neg (not_lt.mpr hlen), htitle,
      hmarket, hraw, hprice]
  · rw [← List.length_map (f := Outcome.id), recalculatePrices_map hprice Outcome.id fun _ => rfl,
      List.length_map, hcount]
  · rw [recalculatePrices_prices hne hnn hfit hprice, hvolumes]

theorem prepare_goto {build : Build} {env : Env} {actor : Actor} {input : NewMarket}
    {market : Market} {outcomes : List Outcome}
    (h : prepare build env actor input = .goto (market, outcomes)) :
    ∃ title raw, market = Market.new ⟨env.fresh 0⟩ title input.description input.category
        input.closesAt env.now ∧
      newOutcomes env market.id 1 input.outcomes = .ok raw ∧ 2 ≤ raw.length ∧
      recalculatePrices build raw = .ok outcomes := by
  unfold prepare at h
  split at h
  · simp at h
  · split at h
    · simp [Next.domainError] at h
    · rename_i hlen
      cases ht : MarketTitle.new input.title with
      | error e => simp [ht, Next.domainError] at h
      | ok title =>
        simp only [ht] at h
        cases hn : newOutcomes env (⟨env.fresh 0⟩ : MarketId) 1 input.outcomes with
        | error e => simp [Market.new, hn, Next.domainError] at h
        | ok raw =>
          cases hp : recalculatePrices build raw with
          | error p => simp [Market.new, hn, hp] at h
          | ok priced =>
            simp only [Market.new, hn, hp, Next.goto.injEq, Prod.mk.injEq] at h
            obtain ⟨rfl, rfl⟩ := h
            have hraw := (newOutcomes_ok hn).1
            exact ⟨title, raw, rfl, hn, by omega, hp⟩

theorem prepare_ok {build : Build} {env : Env} {actor : Actor} {input : NewMarket}
    {market : Market} {outcomes : List Outcome} {db : Db} {now : DateTime}
    (h : prepare build env actor input = .goto (market, outcomes)) :
    (Write.create market outcomes now).Ok db := by
  obtain ⟨title, raw, rfl, hn, -, hp⟩ := prepare_goto h
  refine ⟨rfl, rfl, rfl, rfl, fun o ho => ?_⟩
  have hkey : (o.marketId, o.volume) ∈ raw.map fun r => (r.marketId, r.volume) := by
    rw [← recalculatePrices_map hp (fun r => (r.marketId, r.volume)) fun _ => rfl]
    exact List.mem_map.mpr ⟨o, ho, rfl⟩
  obtain ⟨r, hr, heq⟩ := List.mem_map.mp hkey
  obtain ⟨hm, hv⟩ := (newOutcomes_ok hn).2 r hr
  simp only [Prod.mk.injEq] at heq
  exact ⟨heq.1.symm.trans hm, heq.2.symm.trans hv⟩

end CreateMarket

namespace PlaceBet

theorem staked_map {β : Type} (f : Outcome → β) (hf : ∀ o amount, f (o.addVolume amount) = f o)
    (outcomes : List Outcome) (chosen : Nat) (amount : Int) :
    (staked outcomes chosen amount).map f = outcomes.map f := by
  unfold staked
  induction outcomes generalizing chosen with
  | nil => simp
  | cons o os ih =>
    cases chosen with
    | zero => simp [hf]
    | succ chosen => simp [ih]

theorem back_ok {env : Env} {actor : Actor} {input : NewBet} {market : Market}
    {outcomes : List Outcome} {chosen : Nat} {found : Option User} {user : User} {bet : Bet}
    {backed : List Outcome}
    (h : back env actor input market outcomes chosen found = .ok (user, bet, backed)) :
    found = some user ∧ input.amount ≤ user.balance ∧
      (∃ outcome, outcomes[chosen]? = some outcome ∧
        Bet.place ⟨env.fresh 0⟩ actor.userId market.id input.outcomeId input.amount
          (outcome.currentPrice.max Price.minTick) env.now = .ok bet) ∧
      backed = staked outcomes chosen bet.amount := by
  cases found with
  | none => simp [back] at h
  | some found =>
    simp only [back] at h
    split at h
    · simp at h
    · rename_i hbal
      cases ho : outcomes[chosen]? with
      | none => simp [ho] at h
      | some outcome =>
        simp only [ho] at h
        cases hb : Bet.place ⟨env.fresh 0⟩ actor.userId market.id input.outcomeId input.amount
            (outcome.currentPrice.max Price.minTick) env.now with
        | error e => simp [hb] at h
        | ok bet' =>
          simp only [hb, Except.ok.injEq, Prod.mk.injEq] at h
          obtain ⟨rfl, rfl, rfl⟩ := h
          exact ⟨rfl, by omega, ⟨outcome, rfl, hb⟩, rfl⟩

theorem onUser_goto {build : Build} {env : Env} {actor : Actor} {input : NewBet} {market : Market}
    {outcomes : List Outcome} {chosen : Nat} {found : Option User} {phase : Phase}
    (h : onUser build env actor input market outcomes chosen found = .goto phase) :
    ∃ user bet backed priced,
      back env actor input market outcomes chosen found = .ok (user, bet, backed) ∧
      recalculatePrices build backed = .ok priced ∧
      phase = .place market user bet priced chosen
        (priced.map fun o => ⟨o.id, o.currentPrice, env.now⟩) := by
  unfold onUser at h
  cases hb : back env actor input market outcomes chosen found with
  | error r => simp [hb] at h
  | ok r =>
    obtain ⟨user, bet, backed⟩ := r
    cases hp : recalculatePrices build backed with
    | error p => simp [hb, hp] at h
    | ok priced =>
      simp only [hb, hp, Next.goto.injEq] at h
      exact ⟨user, bet, backed, priced, rfl, hp, h.symm⟩

def Phase.Wf (db : Db) (actor : Actor) (input : NewBet) : Phase → Prop
  | .readOutcome => True
  | .readMarket outcome =>
    db.HasMarket outcome.marketId ∧ input.outcomeId ∈ db.outcomeIds outcome.marketId
  | .readOutcomes market => db.HasMarket market.id ∧ input.outcomeId ∈ db.outcomeIds market.id
  | .findUser market outcomes chosen _ =>
    db.HasMarket market.id ∧ outcomes.map Outcome.id = db.outcomeIds market.id ∧
      ∃ o, outcomes[chosen]? = some o ∧ o.id = input.outcomeId
  | .place market _ bet priced _ points =>
    (Write.place bet priced points).Ok db ∧ bet.userId = actor.userId ∧
      bet.marketId = market.id ∧ bet.outcomeId = input.outcomeId ∧ bet.amount = input.amount
  | .readPosition .. => True

theorem Phase.wf_mono {db db' : Db} {actor : Actor} {input : NewBet} {phase : Phase}
    (hg : Grows db db') (h : phase.Wf db actor input) : phase.Wf db' actor input := by
  cases phase with
  | readOutcome => trivial
  | readMarket outcome => exact ⟨hg.markets _ h.1, by rw [hg.outcomes _ h.1]; exact h.2⟩
  | readOutcomes market => exact ⟨hg.markets _ h.1, by rw [hg.outcomes _ h.1]; exact h.2⟩
  | findUser market outcomes chosen lookup =>
    obtain ⟨hm, hids, ho⟩ := h
    exact ⟨hg.markets _ hm, by rw [hg.outcomes _ hm]; exact hids, ho⟩
  | place market user bet priced chosen points => exact ⟨Write.ok_mono hg h.1, h.2⟩
  | readPosition market user bet priced chosen => trivial

theorem onUser_wf {build : Build} {env : Env} {db : Db} {actor : Actor} {input : NewBet}
    {market : Market} {outcomes : List Outcome} {chosen : Nat} {lookup : Lookup}
    {found : Option User} {phase : Phase}
    (hwf : (Phase.findUser market outcomes chosen lookup).Wf db actor input)
    (h : onUser build env actor input market outcomes chosen found = .goto phase) :
    phase.Wf db actor input := by
  obtain ⟨user, bet, backed, priced, hback, hprice, rfl⟩ := onUser_goto h
  obtain ⟨-, -, ⟨outcome, hchosen, hbet⟩, rfl⟩ := back_ok hback
  obtain ⟨hm, hids, o, ho, hoid⟩ := hwf
  obtain ⟨-, huser, hmarket, houtcome, hamount, -, hstatus, hpayout⟩ := Bet.place_ok hbet
  have hpriced : priced.map Outcome.id = db.outcomeIds market.id := by
    rw [recalculatePrices_map hprice Outcome.id fun _ => rfl,
      staked_map Outcome.id (fun _ _ => rfl), hids]
  have hmem : input.outcomeId ∈ db.outcomeIds market.id := by
    rw [← hids, ← hoid]
    exact List.mem_map_of_mem (List.mem_of_getElem? ho)
  refine ⟨⟨?_, ?_, ?_, hstatus, hpayout⟩, huser, hmarket, houtcome, hamount⟩
  · rw [hmarket]
    exact hm
  · rw [hmarket]
    exact hpriced
  · rw [hmarket, houtcome]
    exact hmem

theorem findIdx?_chosen {outcomes : List Outcome} {id : OutcomeId} {chosen : Nat}
    (h : outcomes.findIdx? (fun o => o.id = id) = some chosen) :
    ∃ o, outcomes[chosen]? = some o ∧ o.id = id := by
  obtain ⟨hlt, hid, -⟩ := List.findIdx?_eq_some_iff_getElem.mp h
  exact ⟨outcomes[chosen], List.getElem?_eq_getElem hlt, by simpa using hid⟩

theorem read_wf {build : Build} {env : Env} {db : Db} {cache cache' : Cache} {actor : Actor}
    {input : NewBet} {phase phase' : Phase} (hdb : db.Wf) (hwf : phase.Wf db actor input)
    (h : read build env db cache actor input phase = some (cache', .goto phase')) :
    phase'.Wf db actor input := by
  cases phase with
  | readOutcome =>
    simp only [read, Option.some.injEq, Prod.mk.injEq] at h
    cases ho : db.outcomeById input.outcomeId with
    | none => simp [ho, onOutcome] at h
    | some o =>
      simp only [ho, onOutcome, Next.goto.injEq] at h
      rw [← h.2]
      have hrow := Table.find?_mem ho
      refine ⟨hdb.outcomeMarket o hrow, List.mem_map.mpr ⟨o, ?_, Table.find?_key ho⟩⟩
      exact Db.mem_outcomesFor.mpr ⟨hrow, rfl⟩
  | readMarket outcome =>
    simp only [read, Option.some.injEq, Prod.mk.injEq] at h
    cases hm : db.marketById outcome.marketId with
    | none => simp [hm, onMarket] at h
    | some m =>
      simp only [hm, onMarket] at h
      split at h
      · simp only [Next.goto.injEq] at h
        rw [← h.2]
        have hid : m.id = outcome.marketId := Table.find?_key hm
        exact ⟨hid ▸ hwf.1, hid ▸ hwf.2⟩
      · simp [Next.domainError] at h
  | readOutcomes market =>
    simp only [read, onOutcomes, Option.some.injEq, Prod.mk.injEq] at h
    split at h
    · simp [Next.domainError] at h
    · rename_i chosen hf
      simp only [Next.goto.injEq] at h
      rw [← h.2]
      exact ⟨hwf.1, rfl, findIdx?_chosen hf⟩
  | findUser market outcomes chosen lookup =>
    simp only [read] at h
    split at h
    · simp only [Option.some.injEq, Prod.mk.injEq, Next.goto.injEq] at h
      rw [← h.2]
      exact hwf
    · simp only [Option.some.injEq, Prod.mk.injEq] at h
      exact onUser_wf hwf h.2
  | place market user bet priced chosen points => simp [read] at h
  | readPosition market user bet priced chosen => simp [read] at h

end PlaceBet

namespace ResolveMarket

def settleOn (winner : OutcomeId) (b : Bet) : Bet :=
  if b.outcomeId = winner then { b with status := .won, payout := some b.winnings }
  else { b with status := .lost, payout := none }

theorem settleOn_sameStake (winner : OutcomeId) (b : Bet) : b.SameStake (settleOn winner b) := by
  unfold settleOn
  split <;> exact ⟨rfl, rfl, rfl, rfl, rfl, rfl⟩

theorem settleOn_settledOn (winner : OutcomeId) (b : Bet) :
    (settleOn winner b).SettledOn winner := by
  have hsame := settleOn_sameStake winner b
  constructor
  · rw [← hsame.outcomeId]
    by_cases hw : b.outcomeId = winner <;> simp [settleOn, hw]
  · rw [← hsame.outcomeId, ← hsame.winnings]
    by_cases hw : b.outcomeId = winner <;> simp [settleOn, hw]

theorem settleOne_ok {winner : OutcomeId} {b s : Bet} (h : settleOne winner b = .ok s) :
    b.status = .active ∧ s = settleOn winner b := by
  unfold settleOne Bet.settleAsWinner Bet.settleAsLoser at h
  by_cases hw : b.outcomeId = winner
  · cases hact : b.ensureActive with
    | error e => simp [hw, hact] at h
    | ok u =>
      simp only [hw, if_true, hact, Except.ok.injEq] at h
      exact ⟨Bet.ensureActive_ok hact, by simp [settleOn, hw, ← h]⟩
  · cases hact : b.ensureActive with
    | error e => simp [hw, hact] at h
    | ok u =>
      simp only [hw, if_false, hact, Except.ok.injEq] at h
      exact ⟨Bet.ensureActive_ok hact, by simp [settleOn, hw, ← h]⟩

theorem settleAll_ok {winner : OutcomeId} {active settled : List Bet}
    (h : settleAll winner active = .ok settled) :
    (∀ b ∈ active, b.status = .active) ∧ settled = active.map (settleOn winner) := by
  induction active generalizing settled with
  | nil =>
    cases h
    simp
  | cons b bs ih =>
    simp only [settleAll] at h
    cases hb : settleOne winner b with
    | error e => simp [hb] at h
    | ok s =>
      cases hr : settleAll winner bs with
      | error e => simp [hb, hr] at h
      | ok rest =>
        simp only [hb, hr, Except.ok.injEq] at h
        obtain ⟨hstatus, rfl⟩ := settleOne_ok hb
        obtain ⟨hall, rfl⟩ := ih hr
        refine ⟨fun x hx => ?_, h.symm⟩
        rcases List.mem_cons.mp hx with rfl | hx
        · exact hstatus
        · exact hall x hx

def Phase.Wf (db : Db) (marketId : MarketId) (winner : OutcomeId) : Phase → Prop
  | .readMarket => True
  | .readOutcomes market => market.id = marketId ∧ db.HasMarket marketId
  | .readActive market _ =>
    market.id = marketId ∧ db.HasMarket marketId ∧ market.status = .resolved ∧
      market.resolvedOutcomeId = some winner ∧ winner ∈ db.outcomeIds marketId
  | .settle market _ settled =>
    (Write.settle market settled).Ok db ∧ market.id = marketId ∧
      market.resolvedOutcomeId = some winner

theorem Phase.wf_mono {db db' : Db} {marketId : MarketId} {winner : OutcomeId} {phase : Phase}
    (hg : Grows db db') (h : phase.Wf db marketId winner) : phase.Wf db' marketId winner := by
  cases phase with
  | readMarket => trivial
  | readOutcomes market => exact ⟨h.1, hg.markets _ h.2⟩
  | readActive market outcomes =>
    obtain ⟨hid, hm, hstatus, hres, hmem⟩ := h
    exact ⟨hid, hg.markets _ hm, hstatus, hres, by rw [hg.outcomes _ hm]; exact hmem⟩
  | settle market outcomes settled => exact ⟨Write.ok_mono hg h.1, h.2⟩

theorem mem_activeForMarket {db : Db} {marketId : MarketId} {b : Bet} :
    b ∈ db.activeForMarket marketId ↔
      b ∈ db.bets.rows ∧ b.marketId = marketId ∧ b.status = .active := by
  simp [Db.activeForMarket]

theorem activeForMarket_nodup (db : Db) (marketId : MarketId) :
    ((db.activeForMarket marketId).map Bet.id).Nodup :=
  db.bets.nodup.sublist (List.filter_sublist.map Bet.id)

theorem onActive_wf {db : Db} {marketId : MarketId} {winner : OutcomeId} {market : Market}
    {outcomes : List Outcome} {active : List Bet} {phase : Phase}
    (hwf : (Phase.readActive market outcomes).Wf db marketId winner)
    (hperm : active.Perm (db.activeForMarket marketId))
    (h : onActive winner market outcomes active = .goto phase) :
    phase.Wf db marketId winner := by
  cases hs : settleAll winner active with
  | error e => simp [onActive, hs, Next.domainError] at h
  | ok settled =>
    simp only [onActive, hs, Next.goto.injEq] at h
    subst h
    obtain ⟨hactive, rfl⟩ := settleAll_ok hs
    obtain ⟨rfl, hm, hstatus, hres, hmem⟩ := hwf
    have hids : (active.map (settleOn winner)).map Bet.id = active.map Bet.id := by
      rw [List.map_map]
      exact List.map_congr_left fun b _ => (settleOn_sameStake winner b).id.symm
    refine ⟨⟨hm, hstatus, ?_, winner, hmem, hres, ?_⟩, rfl, hres⟩
    · rw [hids]
      exact (hperm.map Bet.id).nodup_iff.mpr (activeForMarket_nodup db market.id)
    · intro s hs
      obtain ⟨b, hb, rfl⟩ := List.mem_map.mp hs
      obtain ⟨hrow, hmarket, -⟩ := mem_activeForMarket.mp (hperm.mem_iff.mp hb)
      have hsame := settleOn_sameStake winner b
      exact ⟨hsame.marketId ▸ hmarket, settleOn_settledOn winner b, b, hrow, hsame⟩

theorem read_wf {env : Env} {db : Db} {cache cache' : Cache} {marketId : MarketId}
    {winner : OutcomeId} {phase phase' : Phase} (hwf : phase.Wf db marketId winner)
    (h : read env db cache marketId winner phase = some (cache', .goto phase')) :
    phase'.Wf db marketId winner := by
  cases phase with
  | readMarket =>
    simp only [read, Option.some.injEq, Prod.mk.injEq] at h
    cases hm : db.marketById marketId with
    | none => simp [hm, onMarket] at h
    | some m =>
      simp only [hm, onMarket, Next.goto.injEq] at h
      rw [← h.2]
      exact ⟨Table.find?_key hm, m, hm⟩
  | readOutcomes market =>
    simp only [read, onOutcomes, Option.some.injEq, Prod.mk.injEq] at h
    split at h
    · rename_i hany
      cases hr : market.resolve winner with
      | error e => simp [hr, Next.domainError] at h
      | ok copy =>
        simp only [hr, Next.goto.injEq] at h
        rw [← h.2]
        obtain ⟨-, rfl⟩ := Market.resolve_ok hr
        obtain ⟨o, ho, howner⟩ := List.any_eq_true.mp hany
        exact ⟨hwf.1, hwf.2, rfl, rfl, List.mem_map.mpr ⟨o, ho, by simpa using howner⟩⟩
    · simp [Next.domainError] at h
  | readActive market outcomes =>
    simp only [read] at h
    split at h
    · rename_i hperm
      simp only [Option.some.injEq, Prod.mk.injEq] at h
      exact onActive_wf hwf hperm h.2
    · simp at h
  | settle market outcomes settled => simp [read] at h

end ResolveMarket

def Call.Wf (db : Db) : Call → Prop
  | .createMarket _ _ prepared => ∀ now, (Write.create prepared.1 prepared.2 now).Ok db
  | .placeBet actor input phase => phase.Wf db actor input
  | .resolveMarket _ marketId winner phase => phase.Wf db marketId winner
  | .profile _ _ => True

def Slot.Wf (db : Db) : Slot → Prop
  | .running call => call.Wf db
  | .returned _ _ => True

theorem Slot.wf_mono {db db' : Db} {slot : Slot} (hg : Grows db db') (h : slot.Wf db) :
    slot.Wf db' := by
  cases slot with
  | returned request reply => trivial
  | running call =>
    cases call with
    | createMarket actor input prepared => exact fun now => Write.ok_mono hg (h now)
    | placeBet actor input phase => exact PlaceBet.Phase.wf_mono hg h
    | resolveMarket actor marketId winner phase => exact ResolveMarket.Phase.wf_mono hg h
    | profile job phase => trivial

theorem Next.slot_wf {φ : Type} {request : Request} {call : φ → Call} {next : Next φ} {db : Db}
    (h : ∀ phase, next = .goto phase → (call phase).Wf db) : (next.slot request call).Wf db := by
  cases next with
  | goto phase => exact h phase rfl
  | reply r => trivial

theorem Request.begin_wf (build : Build) (env : Env) (request : Request) (db : Db) :
    (request.begin build env).Wf db := by
  cases request with
  | createMarket actor input =>
    refine Next.slot_wf fun prepared hp now => ?_
    exact CreateMarket.prepare_ok hp
  | placeBet actor input => trivial
  | resolveMarket actor marketId winner =>
    simp only [Request.begin]
    split <;> trivial
  | profile job =>
    simp only [Request.begin]
    split <;> trivial

theorem Call.read_wf {build : Build} {env : Env} {db : Db} {cache cache' : Cache} {call : Call}
    {slot : Slot} (hdb : db.Wf) (hwf : call.Wf db)
    (h : call.read build env db cache = some (cache', slot)) : slot.Wf db := by
  cases call with
  | createMarket actor input prepared => simp [Call.read] at h
  | placeBet actor input phase =>
    simp only [Call.read, Option.map_eq_some_iff] at h
    obtain ⟨⟨cache₁, next⟩, hr, heq⟩ := h
    cases heq
    refine Next.slot_wf fun phase' hp => ?_
    cases hp
    exact PlaceBet.read_wf hdb hwf hr
  | resolveMarket actor marketId winner phase =>
    simp only [Call.read, Option.map_eq_some_iff] at h
    obtain ⟨⟨cache₁, next⟩, hr, heq⟩ := h
    cases heq
    refine Next.slot_wf fun phase' hp => ?_
    cases hp
    exact ResolveMarket.read_wf hwf hr
  | profile job phase =>
    simp only [Call.read, Option.map_eq_some_iff] at h
    obtain ⟨⟨cache₁, next⟩, hr, heq⟩ := h
    cases heq
    exact Next.slot_wf fun _ _ => trivial

theorem Call.write_ok {env : Env} {db : Db} {call : Call} {w : Write} (hwf : call.Wf db)
    (h : call.write? env = some w) : w.Ok db := by
  cases call with
  | createMarket actor input prepared =>
    cases h
    exact hwf env.now
  | placeBet actor input phase =>
    cases phase <;> simp [Call.write?, PlaceBet.write?] at h
    subst h
    exact hwf.1
  | resolveMarket actor marketId winner phase =>
    cases phase <;> simp [Call.write?, ResolveMarket.write?] at h
    subst h
    exact hwf.1
  | profile job phase =>
    cases phase <;> simp [Call.write?, ProfileJob.write?] at h
    subst h
    trivial

theorem Call.written_wf {env : Env} {call : Call} {w : Write} (h : call.write? env = some w)
    (result : Except RepositoryError Unit) (db : Db) : (call.written result).Wf db := by
  cases call with
  | createMarket actor input prepared => cases result <;> trivial
  | placeBet actor input phase =>
    cases phase <;> simp [Call.write?, PlaceBet.write?] at h
    cases result <;> trivial
  | resolveMarket actor marketId winner phase =>
    cases phase <;> simp [Call.write?, ResolveMarket.write?] at h
    trivial
  | profile job phase =>
    cases phase <;> simp [Call.write?, ProfileJob.write?] at h
    cases result <;> trivial

structure Sys.Wf (s : Sys) : Prop where
  db : s.db.Wf
  calls : ∀ slot ∈ s.calls, slot.Wf s.db

theorem Sys.wf_init : Sys.init.Wf := ⟨Db.wf_empty, by simp [Sys.init]⟩

theorem Sys.Wf.call {s : Sys} (h : s.Wf) {i : Nat} {call : Call}
    (hcall : s.calls[i]? = some (.running call)) : call.Wf s.db :=
  h.calls _ (List.mem_of_getElem? hcall)

theorem Sys.Wf.done {s : Sys} (h : s.Wf) {i : Nat} {env : Env} {call : Call} {w : Write} {db : Db}
    (hcall : s.calls[i]? = some (.running call)) (hwrite : call.write? env = some w)
    (hc : pg.atomically w.program env.txVars s.db = .ok db) :
    w.Ok s.db ∧ w.Done s.db env.now db := by
  have hok := Call.write_ok (h.call hcall) hwrite
  exact ⟨hok, Write.done hok hc⟩

theorem Sys.forall_set {P : Slot → Prop} {calls : List Slot} {i : Nat} {slot : Slot}
    (h : ∀ x ∈ calls, P x) (hslot : P slot) : ∀ x ∈ calls.set i slot, P x := by
  intro x hx
  rcases List.mem_or_eq_of_mem_set hx with hx | rfl
  · exact h x hx
  · exact hslot

/-- The tables change by one whole transaction or not at all. -/
theorem Sys.Wf.commits {build : Build} {s s' : Sys} {a : Act} (h : s.Wf)
    (he : Sys.Effect build s a s') :
    (s'.db = s.db ∧ s'.log = s.log) ∨
      ∃ w now, w.Ok s.db ∧ w.Done s.db now s'.db ∧ s'.log = (w, s'.db) :: s.log ∧
        s.Commits a w := by
  cases he with
  | committed i env call w db hcall hwrite hc =>
    obtain ⟨hok, hdone⟩ := h.done hcall hwrite hc
    exact .inr ⟨w, env.now, hok, hdone, rfl, .inl (by simp [Sys.writing?, hcall, hwrite])⟩
  | registered id username email hash now db hfresh hc =>
    have hok : (Write.save .registration (User.new id username email hash now)).Ok s.db := trivial
    exact .inr ⟨_, now, hok, Write.done hok hc, rfl,
      .inr ⟨id, username, email, hash, now, rfl, hfresh, rfl⟩⟩
  | _ => exact .inl ⟨rfl, rfl⟩

theorem Sys.Wf.tables {build : Build} {s s' : Sys} {a : Act} (h : s.Wf)
    (he : Sys.Effect build s a s') :
    (s'.db = s.db ∧ s'.log = s.log) ∨
      ∃ w now, w.Ok s.db ∧ w.Done s.db now s'.db ∧ s'.log = (w, s'.db) :: s.log := by
  rcases h.commits he with hsame | ⟨w, now, hok, hdone, hlog, -⟩
  · exact .inl hsame
  · exact .inr ⟨w, now, hok, hdone, hlog⟩

theorem Sys.Wf.effect {build : Build} {s s' : Sys} {a : Act} (h : s.Wf)
    (he : Sys.Effect build s a s') : s'.Wf := by
  cases he with
  | started request env =>
    refine ⟨h.db, fun slot hslot => ?_⟩
    rcases List.mem_append.mp hslot with hslot | hslot
    · exact h.calls slot hslot
    · rw [List.mem_singleton.mp hslot]
      exact Request.begin_wf build env request s.db
  | read i env call cache slot hcall hread hr =>
    exact ⟨h.db, Sys.forall_set h.calls (Call.read_wf h.db (h.call hcall) hr)⟩
  | committed i env call w db hcall hwrite hc =>
    obtain ⟨hok, hdone⟩ := h.done hcall hwrite hc
    have hgrows := hdone.grows hok
    exact ⟨hdone.wf h.db hok, Sys.forall_set (fun x hx => Slot.wf_mono hgrows (h.calls x hx))
      (Call.written_wf hwrite _ _)⟩
  | refused i env call w e hcall hwrite hc =>
    exact ⟨h.db, Sys.forall_set h.calls (Call.written_wf hwrite _ _)⟩
  | failed i message call hcall => exact ⟨h.db, Sys.forall_set h.calls trivial⟩
  | registered id username email hash now db hfresh hc =>
    have hok : (Write.save .registration (User.new id username email hash now)).Ok s.db := trivial
    have hdone := Write.done hok hc
    exact ⟨hdone.wf h.db hok, fun x hx => Slot.wf_mono (hdone.grows hok) (h.calls x hx)⟩
  | evicted userId hev => exact ⟨h.db, h.calls⟩
  | expired key => exact ⟨h.db, h.calls⟩

theorem Sys.tables_run {build : Build} {P : Db → Prop} (h₀ : P .empty)
    (hdone : ∀ (w : Write) now db db', db.Wf → w.Ok db → w.Done db now db' → P db → P db') {s : Sys}
    {as : List Act} (h : Transition.run (Sys.step build) Sys.init as = some s) : P s.db := by
  have hstep : ∀ t a t', t.Wf ∧ P t.db → Sys.step build t a = some t' → t'.Wf ∧ P t'.db := by
    rintro t a t' ⟨hwf, hp⟩ hs
    have he := Sys.step_effect hs
    refine ⟨hwf.effect he, ?_⟩
    rcases hwf.tables he with ⟨hdb, -⟩ | ⟨w, now, hok, hd, -⟩
    · rw [hdb]
      exact hp
    · exact hdone w now t.db t'.db hwf.db hok hd hp
  have hinit : Sys.init.Wf ∧ P Sys.init.db := ⟨Sys.wf_init, h₀⟩
  exact (Transition.run_invariant' hstep hinit h).2

end Betsphere
