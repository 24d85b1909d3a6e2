import Betsphere.System.Prices
set_option autoImplicit false

namespace Betsphere
open MachineInt Pricing Apportion

def Db.admits (db : Db) (marketId : MarketId) (outcomeId : OutcomeId) (amount : Int) : Bool :=
  (db.outcomeById outcomeId).all (fun o => (o.volume + amount) * Price.scale ≤ i64Max) &&
  (db.marketById marketId).all fun m =>
    m.totalVolume + amount ≤ i64Max && m.participantsCount < i32Max

/-- A call starts when every call before it has returned; none of them writes a profile. -/
def oneAtATime (s : Sys) : Act → Bool
  | .start (.profile _) _ => false
  | .start _ _ => s.calls.all Slot.finished
  | _ => true

/-- A placement that is about to price its stake is admitted. -/
def PlaceBet.admitted (env : Env) (db : Db) (cache : Cache) (actor : Actor) (input : NewBet)
    (phase : PlaceBet.Phase) : Bool :=
  match phase with
  | .findUser market _ _ _ =>
    (PlaceBet.pricing? env db cache actor input phase).isNone ||
      db.admits market.id input.outcomeId input.amount
  | _ => true

def stakeAdmitted (s : Sys) : Act → Bool
  | .step i env =>
    match s.calls[i]? with
    | some (.running (.placeBet actor input phase)) =>
      PlaceBet.admitted env s.db s.cache actor input phase
    | _ => true
  | _ => true

def Db.VolumesFit (db : Db) : Prop := ∀ o ∈ db.outcomes.rows, o.volume * Price.scale ≤ i64Max

theorem Db.admits_outcome {db : Db} {marketId : MarketId} {outcomeId : OutcomeId} {amount : Int}
    (h : db.admits marketId outcomeId amount = true) {o : Outcome}
    (ho : db.outcomeById outcomeId = some o) : (o.volume + amount) * Price.scale ≤ i64Max := by
  simp only [Db.admits, Bool.and_eq_true] at h
  simpa [ho] using h.1

theorem Db.admits_market {db : Db} {marketId : MarketId} {outcomeId : OutcomeId} {amount : Int}
    (h : db.admits marketId outcomeId amount = true) {m : Market}
    (hm : db.marketById marketId = some m) :
    m.totalVolume + amount ≤ i64Max ∧ m.participantsCount < i32Max := by
  simp only [Db.admits, Bool.and_eq_true] at h
  simpa [hm] using h.2

theorem addVolume_exact {o : Outcome} {amount : Int} (hv : 0 ≤ o.volume) (ha : 0 < amount)
    (hfit : (o.volume + amount) * Price.scale ≤ i64Max) :
    (o.addVolume amount).volume = o.volume + amount := by
  unfold Outcome.addVolume saturatingAdd saturate64
  simp only [Price.scale, i64Max, i64Min] at *
  omega

theorem staked_length (outcomes : List Outcome) (chosen : Nat) (amount : Int) :
    (PlaceBet.staked outcomes chosen amount).length = outcomes.length := by
  simp [PlaceBet.staked]

theorem fits_of_admits {db : Db} (hexact : db.VolumesExact) (hfit : db.VolumesFit)
    {id : MarketId} (hm : db.HasMarket id) {chosen : Nat} {o : Outcome} {amount : Int}
    (ho : (db.outcomesFor id)[chosen]? = some o) (ha : 0 < amount)
    (hadmits : db.admits id o.id amount = true) :
    Fits (PlaceBet.staked (db.outcomesFor id) chosen amount) ∧
      NonNegative (PlaceBet.staked (db.outcomesFor id) chosen amount) := by
  have hmem := List.mem_of_getElem? ho
  have hbound := Db.admits_outcome hadmits (Db.outcomeById_of_mem hmem)
  have hnn := hexact.nonNegative id
  have hrow : ∀ p ∈ db.outcomesFor id,
      (if p.id = o.id then p.addVolume amount else p).volume =
        p.volume + if p.id = o.id then amount else 0 := by
    intro p hp
    by_cases hpo : p.id = o.id
    · have hsame : p = o := Table.eq_of_key (Db.mem_outcomesFor.mp hp).1
        (Db.mem_outcomesFor.mp hmem).1 hpo
      subst hsame
      simp only [if_true]
      exact addVolume_exact (hnn p hp) ha hbound
    · simp [hpo]
  rw [staked_eq_map (db.outcomeIds_nodup id) ho]
  refine ⟨⟨?_, ?_⟩, ?_⟩
  · obtain ⟨m, hmarket⟩ := hm
    have htotal := (Db.admits_market hadmits hmarket).1
    have hvolume := hexact.markets m (Table.find?_mem hmarket)
    have hmid : m.id = id := Table.find?_key hmarket
    have hvols : ((db.outcomesFor id).map fun p =>
        if p.id = o.id then p.addVolume amount else p).map Outcome.volume =
        (db.outcomesFor id).map fun p => p.volume + if p.id = o.id then amount else 0 := by
      rw [List.map_map]
      exact List.map_congr_left hrow
    have hone := Table.sum_indicator (db.outcomeIds_nodup id) o.id amount
    rw [if_pos (List.mem_map_of_mem hmem)] at hone
    rw [hvols, List.sum_map_add, hone]
    rw [hvolume, hmid] at htotal
    exact htotal
  · intro p' hp'
    obtain ⟨p, hp, rfl⟩ := List.mem_map.mp hp'
    rw [hrow p hp]
    by_cases hpo : p.id = o.id
    · have hsame : p = o := Table.eq_of_key (Db.mem_outcomesFor.mp hp).1
        (Db.mem_outcomesFor.mp hmem).1 hpo
      simpa [hpo, hsame] using hbound
    · simpa [hpo] using hfit p (Db.mem_outcomesFor.mp hp).1
  · intro p' hp'
    obtain ⟨p, hp, rfl⟩ := List.mem_map.mp hp'
    rw [hrow p hp]
    have hv := hnn p hp
    split <;> omega

def PlaceBet.Phase.Safe (db : Db) (input : NewBet) : PlaceBet.Phase → Prop
  | .findUser market outcomes _ _ => outcomes = db.outcomesFor market.id
  | .place market _ _ priced chosen points =>
    db.admits market.id input.outcomeId input.amount = true ∧ chosen < priced.length ∧
      points.map PricePoint.outcomeId = priced.map Outcome.id
  | .readPosition _ _ _ priced chosen => chosen < priced.length
  | _ => True

def Slot.Safe (db : Db) : Slot → Prop
  | .running (.placeBet _ input phase) => phase.Safe db input
  | .returned (.placeBet ..) (.panicked _) => False
  | _ => True

theorem PlaceBet.back_reply {env : Env} {actor : Actor} {input : NewBet} {market : Market}
    {outcomes : List Outcome} {chosen : Nat} {found : Option User} {r : Reply} {o : Outcome}
    (ho : outcomes[chosen]? = some o)
    (h : PlaceBet.back env actor input market outcomes chosen found = .error r) :
    ∃ e, r = .error e := by
  cases found with
  | none =>
    cases h
    exact ⟨_, rfl⟩
  | some user =>
    simp only [PlaceBet.back, ho] at h
    split at h
    · cases h
      exact ⟨_, rfl⟩
    · split at h
      · cases h
        exact ⟨_, rfl⟩
      · simp at h

theorem PlaceBet.onUser_safe {build : Build} {env : Env} {db : Db} {actor : Actor}
    {input : NewBet} {market : Market} {chosen : Nat} {lookup : Lookup} {found : Option User}
    (hexact : db.VolumesExact) (hfit : db.VolumesFit)
    (hwf : (PlaceBet.Phase.findUser market (db.outcomesFor market.id) chosen lookup).Wf db actor
      input)
    (hadmits : ∀ user bet backed,
      PlaceBet.back env actor input market (db.outcomesFor market.id) chosen found =
        .ok (user, bet, backed) → db.admits market.id input.outcomeId input.amount = true) :
    ((PlaceBet.onUser build env actor input market (db.outcomesFor market.id) chosen found).slot
      (.placeBet actor input) (.placeBet actor input)).Safe db := by
  obtain ⟨hm, -, o, ho, hoid⟩ := hwf
  unfold PlaceBet.onUser
  cases hb : PlaceBet.back env actor input market (db.outcomesFor market.id) chosen found with
  | error r =>
    obtain ⟨e, rfl⟩ := PlaceBet.back_reply ho hb
    trivial
  | ok r =>
    obtain ⟨user, bet, backed⟩ := r
    have hadm := hadmits user bet backed hb
    obtain ⟨-, -, ⟨outcome, -, hbet⟩, rfl⟩ := PlaceBet.back_ok hb
    have hamount : bet.amount = input.amount := (Bet.place_ok hbet).2.2.2.2.1
    have hpos := bet.amountPositive
    rw [hamount] at hpos ⊢
    obtain ⟨hfits, hnn⟩ := fits_of_admits hexact hfit hm ho hpos (hoid ▸ hadm)
    have hne : PlaceBet.staked (db.outcomesFor market.id) chosen input.amount ≠ [] := by
      rw [← hamount]
      exact staked_ne_nil ⟨o, ho, hoid.trans (Bet.place_ok hbet).2.2.2.1.symm⟩
    have hprice := recalculatePrices_of_fits build hne hnn hfits
    simp only [hprice]
    refine ⟨hadm, ?_, by simp⟩
    have hlen := congrArg List.length (recalculatePrices_map hprice Outcome.id fun _ => rfl)
    rw [List.length_map, List.length_map, staked_length] at hlen
    rw [hlen]
    exact (List.getElem?_eq_some_iff.mp ho).1

theorem PlaceBet.onPosition_safe {db : Db} {actor : Actor} {input : NewBet} {market : Market}
    {user : User} {bet : Bet} {priced : List Outcome} {chosen : Nat} (h : chosen < priced.length)
    (average : Option Int) :
    (Slot.returned (.placeBet actor input)
      (PlaceBet.onPosition market user bet priced chosen average)).Safe db := by
  have hview : ∀ price, PlaceBet.viewFor market user bet priced chosen price =
      .bet ⟨bet, market.title, (priced[chosen]).label, user.username, price⟩ := by
    intro price
    simp [PlaceBet.viewFor, h]
  unfold PlaceBet.onPosition
  split
  · rw [hview]
    trivial
  · split
    · trivial
    · rw [hview]
      trivial

theorem PlaceBet.read_safe {build : Build} {env : Env} {db : Db} {cache cache' : Cache}
    {actor : Actor} {input : NewBet} {phase : PlaceBet.Phase} {next : Next PlaceBet.Phase}
    (hexact : db.VolumesExact) (hfit : db.VolumesFit) (hwf : phase.Wf db actor input)
    (hsafe : phase.Safe db input)
    (hguard : PlaceBet.admitted env db cache actor input phase = true)
    (h : PlaceBet.read build env db cache actor input phase = some (cache', next)) :
    (next.slot (.placeBet actor input) (.placeBet actor input)).Safe db := by
  cases phase with
  | readOutcome =>
    cases h
    cases db.outcomeById input.outcomeId <;> trivial
  | readMarket outcome =>
    cases h
    cases db.marketById outcome.marketId with
    | none => trivial
    | some m =>
      simp only [PlaceBet.onMarket]
      split <;> trivial
  | readOutcomes market =>
    cases h
    simp only [PlaceBet.onOutcomes]
    split
    · trivial
    · exact rfl
  | findUser market outcomes chosen lookup =>
    cases hsafe
    simp only [PlaceBet.read] at h
    cases ha : lookup.advance actor.userId env db cache with
    | mk cache₁ result =>
      cases result with
      | inl l =>
        simp only [ha, Option.some.injEq, Prod.mk.injEq] at h
        rw [← h.2]
        exact rfl
      | inr found =>
        simp only [ha, Option.some.injEq, Prod.mk.injEq] at h
        rw [← h.2]
        refine PlaceBet.onUser_safe hexact hfit hwf fun user bet backed hb => ?_
        simpa [PlaceBet.admitted, PlaceBet.pricing?, ha, hb] using hguard
  | place market user bet priced chosen points => simp [PlaceBet.read] at h
  | readPosition market user bet priced chosen =>
    cases h
    exact PlaceBet.onPosition_safe hsafe _

theorem Next.slot_safe {φ : Type} {request : Request} {call : φ → Call} {next : Next φ} {db : Db}
    (hrequest : ∀ actor input, request ≠ .placeBet actor input)
    (hcall : ∀ phase actor input place, call phase ≠ .placeBet actor input place) :
    (next.slot request call).Safe db := by
  cases next with
  | goto phase =>
    simp only [Next.slot, Slot.Safe]
    split
    · rename_i heq
      exact absurd (Slot.running.inj heq) (hcall _ _ _ _)
    · trivial
    · trivial
  | reply r =>
    cases request with
    | placeBet actor input => exact absurd rfl (hrequest actor input)
    | _ => trivial

theorem Request.begin_safe (build : Build) (env : Env) (request : Request) (db : Db) :
    (request.begin build env).Safe db := by
  cases request with
  | createMarket actor input => exact Next.slot_safe (by simp) (by simp)
  | placeBet actor input => trivial
  | resolveMarket actor marketId winner =>
    simp only [Request.begin]
    split <;> trivial
  | profile job =>
    simp only [Request.begin]
    split <;> trivial

theorem Call.read_safe {build : Build} {env : Env} {db : Db} {cache cache' : Cache} {call : Call}
    {slot : Slot} (hexact : db.VolumesExact) (hfit : db.VolumesFit) (hwf : call.Wf db)
    (hsafe : (Slot.running call).Safe db)
    (hguard : ∀ actor input phase, call = .placeBet actor input phase →
      PlaceBet.admitted env db cache actor input phase = true)
    (h : call.read build env db cache = some (cache', slot)) : slot.Safe db := by
  cases call with
  | createMarket actor input prepared => simp [Call.read] at h
  | placeBet actor input phase =>
    simp only [Call.read, Option.map_eq_some_iff] at h
    obtain ⟨⟨cache₁, next⟩, hr, heq⟩ := h
    cases heq
    exact PlaceBet.read_safe hexact hfit hwf hsafe (hguard actor input phase rfl) hr
  | resolveMarket actor marketId winner phase =>
    simp only [Call.read, Option.map_eq_some_iff] at h
    obtain ⟨⟨cache₁, next⟩, -, heq⟩ := h
    cases heq
    exact Next.slot_safe (by simp) (by simp)
  | profile job phase =>
    simp only [Call.read, Option.map_eq_some_iff] at h
    obtain ⟨⟨cache₁, next⟩, -, heq⟩ := h
    cases heq
    exact Next.slot_safe (by simp) (by simp)

theorem Call.written_safe {env : Env} {call : Call} {w : Write} {db db' : Db}
    (hsafe : (Slot.running call).Safe db) (hwrite : call.write? env = some w)
    (result : Except RepositoryError Unit) : (call.written result).Safe db' := by
  cases call with
  | createMarket actor input prepared => exact Next.slot_safe (by simp) (by simp)
  | placeBet actor input phase =>
    cases phase <;> simp [Call.write?, PlaceBet.write?] at hwrite
    cases result with
    | error e => trivial
    | ok u => exact hsafe.2.1
  | resolveMarket actor marketId winner phase => exact Next.slot_safe (by simp) (by simp)
  | profile job phase => exact Next.slot_safe (by simp) (by simp)

theorem Slot.safe_finished {db db' : Db} {x : Slot} (hx : x.finished = true) (h : x.Safe db) :
    x.Safe db' := by
  cases x with
  | running call => simp [Slot.finished] at hx
  | returned request reply => cases request <;> cases reply <;> exact h

/-- A running call that is no placement before its read of the outcomes or later looks
only at the outcomes and the markets. -/
theorem Slot.safe_congr {db db' : Db} (houtcomes : db'.outcomes = db.outcomes)
    (hmarkets : db'.markets = db.markets) {x : Slot} (h : x.Safe db) : x.Safe db' := by
  cases x with
  | returned request reply => exact Slot.safe_finished rfl h
  | running call =>
    cases call with
    | placeBet actor input phase =>
      cases phase with
      | findUser market outcomes chosen lookup =>
        simp only [Slot.Safe, PlaceBet.Phase.Safe, Db.outcomesFor, houtcomes] at h ⊢
        exact h
      | place market user bet priced chosen points =>
        simp only [Slot.Safe, PlaceBet.Phase.Safe, Db.admits, Db.outcomeById, Db.marketById,
          houtcomes, hmarkets] at h ⊢
        exact h
      | _ => exact h
    | _ => trivial

theorem Db.VolumesFit.done {db db' : Db} {w : Write} {now : DateTime} (hok : w.Ok db)
    (hdone : w.Done db now db')
    (hplace : ∀ bet priced points, w = .place bet priced points →
      ∀ o, db.outcomeById bet.outcomeId = some o → (o.volume + bet.amount) * Price.scale ≤ i64Max)
    (h : db.VolumesFit) : db'.VolumesFit := by
  cases hdone with
  | create market outcomes at' hen =>
    intro o ho
    rw [(rows_created hen).1, List.mem_append] at ho
    rcases ho with ho | ho
    · exact h o ho
    · rw [(hok.2.2.2.2 o ho).2]
      decide
  | place bet priced points hen =>
    intro o ho
    obtain ⟨p, hp, rfl⟩ := List.mem_map.mp ho
    rw [repriced_volume (hok.2.1 ▸ hok.2.2.1)]
    by_cases hid : p.id = bet.outcomeId
    · have hfind : db.outcomeById bet.outcomeId = some p := by
        rw [← hid]
        exact Table.find?_of_mem hp
      simpa [stakeOn, hid] using hplace bet priced points rfl p hfind
    · simpa [stakeOn, hid] using h p hp
  | settle market settled hin => exact h
  | save cause user hun => exact h

structure Sys.Safe (s : Sys) : Prop where
  serial : ∀ {i j : Nat} {c d : Call}, s.calls[i]? = some (.running c) →
    s.calls[j]? = some (.running d) → i = j
  fit : s.db.VolumesFit
  calls : ∀ {i : Nat} {x : Slot}, s.calls[i]? = some x → x.Safe s.db

theorem Sys.Safe.serial_set {s : Sys} (h : s.Safe) {i : Nat} {call : Call}
    (hcall : s.calls[i]? = some (.running call)) (slot : Slot) {j k : Nat} {c d : Call}
    (hj : (s.calls.set i slot)[j]? = some (.running c))
    (hk : (s.calls.set i slot)[k]? = some (.running d)) : j = k := by
  have hat : ∀ {j : Nat} {c : Call}, (s.calls.set i slot)[j]? = some (.running c) → j = i := by
    intro j c hj
    rcases getElem?_set_cases hj with ⟨hj, -⟩ | ⟨hj, -⟩
    · exact h.serial hj hcall
    · exact hj
  rw [hat hj, hat hk]

theorem Sys.Safe.others {s : Sys} (h : s.Safe) {i j : Nat} {call : Call} {x : Slot}
    (hcall : s.calls[i]? = some (.running call)) (hj : s.calls[j]? = some x) (hne : j ≠ i)
    (db : Db) : x.Safe db := by
  refine Slot.safe_finished ?_ (h.calls hj)
  cases x with
  | running c => exact absurd (h.serial hj hcall) hne
  | returned request reply => rfl

theorem Sys.Safe.effect {build : Build} {s s' : Sys} {a : Act} (hwf : s.Wf)
    (hexact : s.db.VolumesExact) (hone : oneAtATime s a = true) (hstake : stakeAdmitted s a = true)
    (h : s.Safe) (he : Sys.Effect build s a s') : s'.Safe := by
  cases he with
  | started request env =>
    have hall : ∀ x ∈ s.calls, x.finished = true := by
      cases request <;> simp_all [oneAtATime]
    have hlast : ∀ {j : Nat} {c : Call}, (s.calls ++ [request.begin build env])[j]? =
        some (.running c) → j = s.calls.length := by
      intro j c hj
      rw [List.getElem?_append] at hj
      split at hj
      · have hfin := hall _ (List.mem_of_getElem? hj)
        simp [Slot.finished] at hfin
      · have hlt := (List.getElem?_eq_some_iff.mp hj).1
        simp only [List.length_singleton] at hlt
        omega
    refine ⟨fun hi hj => (hlast hi).trans (hlast hj).symm, h.fit, fun hj => ?_⟩
    rcases getElem?_append_cases hj with hj | rfl
    · exact h.calls hj
    · exact Request.begin_safe build env request s.db
  | read i env call cache slot hcall hread hr =>
    have hslot : slot.Safe s.db := by
      refine Call.read_safe hexact h.fit (hwf.call hcall) (h.calls hcall) ?_ hr
      rintro actor input phase rfl
      simpa [stakeAdmitted, hcall] using hstake
    refine ⟨h.serial_set hcall slot, h.fit, fun hj => ?_⟩
    rcases getElem?_set_cases hj with ⟨hj, -⟩ | ⟨-, rfl⟩
    · exact h.calls hj
    · exact hslot
  | committed i env call w db hcall hwrite hc =>
    obtain ⟨hok, hdone⟩ := hwf.done hcall hwrite hc
    refine ⟨h.serial_set hcall _, h.fit.done hok hdone ?_, fun hj => ?_⟩
    · rintro bet priced points rfl o ho
      have hsafe := h.calls hcall
      have hcwf := hwf.call hcall
      cases call with
      | createMarket actor input prepared => simp [Call.write?, CreateMarket.write?] at hwrite
      | placeBet actor input phase =>
        cases phase <;> simp [Call.write?, PlaceBet.write?] at hwrite
        obtain ⟨rfl, rfl, rfl⟩ := hwrite
        obtain ⟨-, -, -, hid, hamount⟩ := hcwf
        rw [hid] at ho
        rw [hamount]
        exact Db.admits_outcome hsafe.1 ho
      | resolveMarket actor marketId winner phase =>
        cases phase <;> simp [Call.write?, ResolveMarket.write?] at hwrite
      | profile job phase => cases phase <;> simp [Call.write?, ProfileJob.write?] at hwrite
    · rcases getElem?_set_cases hj with ⟨hj, hne⟩ | ⟨-, rfl⟩
      · exact h.others hcall hj hne db
      · exact Call.written_safe (h.calls hcall) hwrite _
  | refused i env call w e hcall hwrite hc =>
    refine ⟨h.serial_set hcall _, h.fit, fun hj => ?_⟩
    rcases getElem?_set_cases hj with ⟨hj, -⟩ | ⟨-, rfl⟩
    · exact h.calls hj
    · exact Call.written_safe (h.calls hcall) hwrite _
  | failed i message call hcall =>
    refine ⟨h.serial_set hcall _, h.fit, fun hj => ?_⟩
    rcases getElem?_set_cases hj with ⟨hj, -⟩ | ⟨-, rfl⟩
    · exact h.calls hj
    · cases call <;> trivial
  | registered id username email hash now db hfresh hc =>
    obtain ⟨-, rfl⟩ := save_ok hc
    exact ⟨h.serial, h.fit, fun hj => Slot.safe_congr rfl rfl (h.calls hj)⟩
  | evicted userId hev => exact ⟨h.serial, h.fit, h.calls⟩
  | expired key => exact ⟨h.serial, h.fit, h.calls⟩

theorem placeEnabled_of_admits {db : Db} {actor : Actor} {input : NewBet} {market : Market}
    (user : User) {bet : Bet} {priced : List Outcome} {chosen : Nat} {points : List PricePoint}
    (hexact : db.VolumesExact) (hcount : db.ParticipantsExact) (hfit : db.VolumesFit)
    (hwf : (PlaceBet.Phase.place market user bet priced chosen points).Wf db actor input)
    (hsafe : (PlaceBet.Phase.place market user bet priced chosen points).Safe db input)
    (hcovered : ∃ u, db.userById bet.userId = some u ∧ bet.amount ≤ u.balance)
    (hfresh : db.bets.find? bet.id = none) : PlaceEnabled db bet priced points := by
  obtain ⟨⟨hm, hids, hmem, -, -⟩, -, hmarket, houtcome, hamount⟩ := hwf
  obtain ⟨hadmits, -, hpoints⟩ := hsafe
  rw [← hmarket, ← houtcome, ← hamount] at hadmits
  have hstored : ∀ p ∈ db.outcomesFor bet.marketId, 0 ≤ p.volume := hexact.nonNegative _
  have hknown : ∀ id ∈ db.outcomeIds bet.marketId, (db.outcomeById id).isSome := by
    intro id hid
    obtain ⟨o, ho, rfl⟩ := List.mem_map.mp hid
    simp [Db.outcomeById_of_mem ho]
  refine ⟨hcovered, ?_, ?_, ?_, ?_⟩
  · obtain ⟨u, hu, -⟩ := hcovered
    obtain ⟨m, hm⟩ := hm
    obtain ⟨o, ho⟩ := Option.isSome_iff_exists.mp (hknown _ hmem)
    simp [Bet.insertError, hfresh, hu, hm, ho]
  · intro p hp o ho
    have hpid : p.id ∈ db.outcomeIds bet.marketId := hids ▸ List.mem_map_of_mem hp
    obtain ⟨q, hq, hqid⟩ := List.mem_map.mp hpid
    have hqo : q = o := by
      have hfind := Db.outcomeById_of_mem hq
      rw [hqid, ho] at hfind
      exact (Option.some.inj hfind).symm
    subst hqo
    have hnn := hstored q hq
    have hrow := hfit q (Db.mem_outcomesFor.mp hq).1
    by_cases hback : p.id = bet.outcomeId
    · have hroom := Db.admits_outcome hadmits (hback ▸ ho)
      have hpos := bet.amountPositive
      simp only [stakeOn, hback, if_true, InI64, i64Min, i64Max, Price.scale] at *
      omega
    · simp only [stakeOn, hback, if_false, InI64, i64Min, i64Max, Price.scale] at *
      omega
  · intro m hm
    obtain ⟨htotal, hroom⟩ := Db.admits_market hadmits hm
    have hpos := bet.amountPositive
    have hvolume : 0 ≤ m.totalVolume := by
      rw [hexact.markets m (Table.find?_mem hm)]
      exact List.sum_nonneg (volumes_nonneg (hexact.nonNegative m.id))
    have hjoined := hcount m (Table.find?_mem hm)
    have hjoining : 0 ≤ db.joining bet ∧ db.joining bet ≤ 1 := by
      unfold Db.joining
      split <;> omega
    simp only [InI64, InI32, i64Min, i64Max, i32Min, i32Max] at *
    omega
  · intro p hp
    refine hknown _ ?_
    rw [← hids, ← hpoints]
    exact List.mem_map_of_mem hp

theorem PlaceBet.pricing?_some {env : Env} {db : Db} {cache : Cache} {actor : Actor}
    {input : NewBet} {market : Market} {outcomes : List Outcome} {chosen : Nat} {lookup : Lookup}
    {backed : List Outcome} (h : PlaceBet.pricing? env db cache actor input
      (.findUser market outcomes chosen lookup) = some backed) :
    ∃ found user bet,
      PlaceBet.back env actor input market outcomes chosen found = .ok (user, bet, backed) := by
  simp only [PlaceBet.pricing?] at h
  split at h
  · simp at h
  · rename_i found _
    cases hb : PlaceBet.back env actor input market outcomes chosen found with
    | error r => simp [hb] at h
    | ok r =>
      simp only [hb, Option.some.injEq] at h
      exact ⟨found, r.1, r.2.1, by rw [hb, ← h]⟩

/-- A list a placement prices is that of the current outcomes with the stake on one. -/
theorem Sys.pricing?_fits {s : Sys} {a : Act} {backed : List Outcome} (hwf : s.Wf)
    (hexact : s.db.VolumesExact) (hsafe : s.Safe) (hstake : stakeAdmitted s a = true)
    (h : s.pricing? a = some backed) : Fits backed ∧ NonNegative backed ∧ backed ≠ [] := by
  cases a with
  | step i env =>
    simp only [Sys.pricing?] at h
    split at h
    · rename_i actor input phase hcall
      have hcwf := hwf.call hcall
      have hcsafe := hsafe.calls hcall
      simp only [stakeAdmitted, hcall] at hstake
      cases phase with
      | findUser market outcomes chosen lookup =>
        cases hcsafe
        have hadmits : s.db.admits market.id input.outcomeId input.amount = true := by
          simpa [PlaceBet.admitted, h] using hstake
        obtain ⟨found, user, bet, hback⟩ := PlaceBet.pricing?_some h
        obtain ⟨-, -, ⟨outcome, -, hbet⟩, rfl⟩ := PlaceBet.back_ok hback
        obtain ⟨-, -, -, hid, hamount, -⟩ := Bet.place_ok hbet
        obtain ⟨hm, -, o, ho, hoid⟩ := hcwf
        have hpos := bet.amountPositive
        have hne := staked_ne_nil ⟨o, ho, hoid.trans hid.symm⟩
        rw [hamount] at hpos hne ⊢
        obtain ⟨hfits, hnn⟩ := fits_of_admits hexact hsafe.fit hm ho hpos (hoid ▸ hadmits)
        exact ⟨hfits, hnn, hne⟩
      | _ => simp [PlaceBet.pricing?] at h
    · simp at h
  | _ => simp [Sys.pricing?] at h

/-- In runs of one call at a time the arithmetic of placements is safe as long as every
stake is admitted: pricing neither overflows nor indexes past the end, no placement
panics, and a covered stake commits. -/
theorem pricing_safe {build : Build} {as : List Act} {s : Sys}
    (h : Transition.run (Sys.step build) Sys.init as = some s)
    (hg : Transition.Guarded (Sys.step build)
      (fun u a => oneAtATime u a = true ∧ stakeAdmitted u a = true) Sys.init as) :
    (∀ a backed, stakeAdmitted s a = true → s.pricing? a = some backed →
      Fits backed ∧
      (0 ≤ leftover Price.scale (backed.map Outcome.volume) ∧
        leftover Price.scale (backed.map Outcome.volume) < backed.length) ∧
      recalculatePrices build backed =
        .ok (backed.zipWith assignPrice (apportion Price.scale (backed.map Outcome.volume)))) ∧
    (∀ actor input p, Slot.returned (.placeBet actor input) (.panicked p) ∉ s.calls) ∧
    ∀ (i : Nat) (env : Env) (call : Call) (bet : Bet) (priced : List Outcome)
      (points : List PricePoint), s.calls[i]? = some (.running call) →
      call.write? env = some (.place bet priced points) →
      (∃ u, s.db.userById bet.userId = some u ∧ bet.amount ≤ u.balance) →
      s.db.bets.find? bet.id = none →
      pg.atomically (placeProgram bet priced points) env.txVars s.db =
        .ok (s.db.placed bet priced points env.now) := by
  have hstep : ∀ u a u', u.Board build ∧ u.Safe → oneAtATime u a = true ∧ stakeAdmitted u a = true →
      Sys.step build u a = some u' → u'.Board build ∧ u'.Safe := by
    rintro u a u' ⟨hboard, hsafe⟩ ⟨hone, hstake⟩ hs
    have he := Sys.step_effect hs
    exact ⟨hboard.effect he, hsafe.effect hboard.wf hboard.exact hone hstake he⟩
  have hrun : Transition.run (Sys.step build) Sys.init [] = some Sys.init := rfl
  have hinit : Sys.init.Board build ∧ Sys.init.Safe :=
    ⟨Sys.board_run hrun, by simp [Sys.init], by simp [Db.VolumesFit, Sys.init, Db.empty],
      by simp [Sys.init]⟩
  obtain ⟨hboard, hsafe⟩ := Transition.run_invariant hstep hinit hg h
  refine ⟨?_, ?_, ?_⟩
  · intro a backed hstake hpricing
    obtain ⟨hfits, hnn, hne⟩ := s.pricing?_fits hboard.wf hboard.exact hsafe hstake hpricing
    exact ⟨hfits, remainder_bounds hne, recalculatePrices_of_fits build hne hnn hfits⟩
  · intro actor input p hmem
    obtain ⟨i, hi⟩ := List.mem_iff_getElem?.mp hmem
    exact hsafe.calls hi
  · intro i env call bet priced points hcall hwrite hcovered hfresh
    have hcwf := hboard.wf.call hcall
    have hcsafe := hsafe.calls hcall
    cases call with
    | createMarket actor input prepared => simp [Call.write?, CreateMarket.write?] at hwrite
    | placeBet actor input phase =>
      cases phase <;> simp [Call.write?, PlaceBet.write?] at hwrite
      obtain ⟨rfl, rfl, rfl⟩ := hwrite
      rename_i market user bet priced chosen points
      have hnd : (priced.map Outcome.id).Nodup := by
        rw [hcwf.1.2.1]
        exact s.db.outcomeIds_nodup bet.marketId
      exact (place_ok hnd).mpr ⟨placeEnabled_of_admits user hboard.exact (Sys.participants_run h)
        hsafe.fit hcwf hcsafe hcovered hfresh, rfl⟩
    | resolveMarket actor marketId winner phase =>
      cases phase <;> simp [Call.write?, ResolveMarket.write?] at hwrite
    | profile job phase => cases phase <;> simp [Call.write?, ProfileJob.write?] at hwrite

namespace Sample

def openMarket (i base : Nat) : List Act :=
  [.start (.createMarket admin rain) (env 1 base), .step i (env 1 base)]

def place (i : Nat) (userId : UserId) (outcome base : Nat) (amount : Int) : List Act :=
  [bet userId ⟨BitVec.ofNat 128 outcome⟩ amount] ++ steps i 8 base ++ [.evict userId]

def settle (i market winner : Nat) : List Act :=
  [.start (.resolveMarket admin ⟨BitVec.ofNat 128 market⟩ ⟨BitVec.ofNat 128 winner⟩) (env 3 0)] ++
    steps i 4 0

/-- Bob backs the second outcome with 1, so that alice buys the first at one tick. -/
def jackpot (i base : Nat) (amount : Int) : List Act :=
  openMarket i base ++ place (i + 1) ⟨2⟩ (base + 2) (base + 3) 1 ++
    place (i + 2) ⟨1⟩ (base + 1) (base + 4) amount ++ settle (i + 3) base (base + 1)

/-- Three settled markets after which alice stakes ten quadrillion. -/
def fortune : List Act :=
  [signUp ⟨1⟩ alice, signUp ⟨2⟩ bob] ++ jackpot 0 100 10000 ++ jackpot 4 200 100000000 ++
    jackpot 8 300 1000000000000 ++ openMarket 12 400 ++
    [bet ⟨1⟩ ⟨401⟩ 10000000000000000] ++ steps 13 5 500

end Sample

theorem pricing_safe_first :
    let before := Sample.opening ++ [Sample.bet ⟨1⟩ ⟨101⟩ 50] ++ Sample.steps 1 5 200
    let backed := PlaceBet.staked ((Sample.state before).db.outcomesFor ⟨100⟩) 0 50
    (Fits backed ∧
      (0 ≤ leftover Price.scale (backed.map Outcome.volume) ∧
        leftover Price.scale (backed.map Outcome.volume) < backed.length) ∧
      recalculatePrices .debug backed =
        .ok (backed.zipWith assignPrice (apportion Price.scale (backed.map Outcome.volume)))) ∧
    ∀ actor input p,
      Slot.returned (.placeBet actor input) (.panicked p) ∉ (Sample.state before).calls := by
  intro before backed
  have hsafe := pricing_safe (Sample.run_state (by decide +kernel))
    (by decide +kernel : Transition.Guarded (Sys.step .debug)
      (fun u a => oneAtATime u a = true ∧ stakeAdmitted u a = true) Sys.init before)
  exact ⟨hsafe.1 (.step 1 (Sample.env 2 200)) backed (by decide +kernel) (by decide +kernel),
    hsafe.2.1⟩

/-- The stake is covered and the market open; a debug build panics on the product, a
release build wraps it and runs past the end of the shares. -/
theorem pricing_overflows :
    Transition.Guarded (Sys.step .debug) (fun u a => oneAtATime u a = true) Sys.init
      (Sample.fortune ++ [.step 13 (Sample.env 2 500)]) ∧
    (((Sample.state Sample.fortune).db.userById ⟨1⟩).map User.balance = some 10000000000000000 ∧
      ((Sample.state Sample.fortune).db.marketById ⟨400⟩).any fun m => m.acceptsBets 2) ∧
    ((Transition.run (Sys.step .debug) Sys.init
      (Sample.fortune ++ [.step 13 (Sample.env 2 500)])).bind fun s => s.calls[13]?) =
      some (.returned (.placeBet ⟨⟨1⟩, .user⟩ ⟨⟨401⟩, 10000000000000000⟩)
        (.panicked .overflow)) ∧
    ((Transition.run (Sys.step .release) Sys.init
      (Sample.fortune ++ [.step 13 (Sample.env 2 500)])).bind fun s => s.calls[13]?) =
      some (.returned (.placeBet ⟨⟨1⟩, .user⟩ ⟨⟨401⟩, 10000000000000000⟩)
        (.panicked .indexOutOfBounds)) := by
  decide +kernel

end Betsphere
