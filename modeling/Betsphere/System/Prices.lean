import Betsphere.System.Snapshots
set_option autoImplicit false

namespace Betsphere
open MachineInt Pricing

def Db.pricesOf (db : Db) (id : MarketId) : List Int := priceVector (db.outcomesFor id)

theorem find?_of_nodup {priced : List Outcome} (hnd : (priced.map Outcome.id).Nodup) {p : Outcome}
    (hp : p ∈ priced) : (priced.find? fun q => q.id = p.id) = some p := by
  let t : Table Outcome.id := ⟨priced, hnd⟩
  have hmem : p ∈ t.rows := hp
  exact Table.find?_of_mem hmem

theorem priceVector_repriced {bet : Bet} {outcomes priced : List Outcome}
    (hids : priced.map Outcome.id = outcomes.map Outcome.id)
    (hnd : (priced.map Outcome.id).Nodup) :
    priceVector (outcomes.map (repriced bet priced)) = priceVector priced := by
  let price : OutcomeId → Int := fun id =>
    ((priced.find? fun p => p.id = id).map fun p => p.currentPrice.tenThousandths).getD 0
  have hleft : priceVector (outcomes.map (repriced bet priced)) =
      (outcomes.map Outcome.id).map price := by
    rw [priceVector, List.map_map, List.map_map]
    refine List.map_congr_left fun o ho => ?_
    obtain ⟨p, hp, hpo⟩ := List.mem_map.mp (hids ▸ List.mem_map_of_mem ho : o.id ∈ priced.map _)
    have hfind := find?_of_nodup hnd hp
    rw [hpo] at hfind
    simp [repriced, price, hfind]
  have hright : (priced.map Outcome.id).map price = priceVector priced := by
    rw [priceVector, List.map_map]
    refine List.map_congr_left fun p hp => ?_
    simp [price, find?_of_nodup hnd hp]
  rw [hleft, ← hids, hright]

section Board
variable {db db' : Db} {w : Write} {now : DateTime}

theorem Write.Done.pricesOf {bet : Bet} {priced : List Outcome} {points : List PricePoint}
    (hok : (Write.place bet priced points).Ok db)
    (h : (Write.place bet priced points).Done db now db') :
    db'.pricesOf bet.marketId = priceVector priced := by
  cases h with
  | place bet priced points hen =>
    have hnd : (priced.map Outcome.id).Nodup := by
      rw [hok.2.1]
      exact db.outcomeIds_nodup bet.marketId
    rw [Db.pricesOf, outcomesFor_placed]
    exact priceVector_repriced hok.2.1 hnd

theorem Write.Done.volumes_placed {bet : Bet} {priced : List Outcome} {points : List PricePoint}
    (hok : (Write.place bet priced points).Ok db)
    (h : (Write.place bet priced points).Done db now db') (id : MarketId) :
    (db'.outcomesFor id).map Outcome.volume =
      (db.outcomesFor id).map fun o => o.volume + stakeOn bet o.id := by
  cases h with
  | place bet priced points hen =>
    have hpriced : bet.outcomeId ∈ priced.map Outcome.id := hok.2.1 ▸ hok.2.2.1
    rw [outcomesFor_placed, List.map_map]
    exact List.map_congr_left fun o _ => repriced_volume hpriced o

theorem Write.Done.outcomesFor_other (hok : w.Ok db) (h : w.Done db now db') {id : MarketId}
    (hother : w.placedOn id = none) (hm : db.HasMarket id) :
    db'.outcomesFor id = db.outcomesFor id := by
  cases h with
  | create market outcomes at' hen =>
    have hne : ¬market.id = id := by
      rintro rfl
      obtain ⟨m, hm⟩ := hm
      simp [hen.freshMarket] at hm
    rw [outcomesFor_created hen fun o ho => (hok.2.2.2.2 o ho).1, if_neg hne, List.append_nil]
  | place bet priced points hen =>
    have hne : bet.marketId ≠ id := by
      intro h
      simp [Write.placedOn, h] at hother
    rw [outcomesFor_placed]
    conv_rhs => rw [← List.map_id (db.outcomesFor id)]
    refine List.map_congr_left fun o ho => ?_
    have hnone : (priced.find? fun p => p.id = o.id) = none := by
      rw [List.find?_eq_none]
      intro p hp hpo
      have hpid : p.id = o.id := by simpa using hpo
      have hmem : o.id ∈ db.outcomeIds bet.marketId := by
        rw [← hok.2.1, ← hpid]
        exact List.mem_map_of_mem hp
      exact hne (Db.outcomeIds_unique hmem (List.mem_map_of_mem ho))
    simp [repriced, hnone]
  | settle market settled hin => rfl
  | save cause user hun => rfl

end Board

/-- `prices` are those of the last placement on the market: computed from the volumes of
a state committed before it, plus its stake. -/
def LastPriced (build : Build) (log : List (Write × Db)) (id : MarketId) (bet : Bet)
    (prices : List Int) : Prop :=
  ∃ newer older priced points after d chosen,
    log = newer ++ (.place bet priced points, after) :: older ∧ placements newer id = [] ∧
      d ∈ older.map Prod.snd ++ [Db.empty] ∧
      PricedFrom build (fun _ => True) (d.outcomesFor id) chosen bet priced ∧
      prices = priceVector priced

def Sys.Priced (build : Build) (s : Sys) : Prop :=
  ∀ id bet rest, placements s.log id = bet :: rest →
    s.db.HasMarket id ∧ LastPriced build s.log id bet (s.db.pricesOf id)

theorem placements_cons (w : Write) (db : Db) (log : List (Write × Db)) (id : MarketId) :
    placements ((w, db) :: log) id =
      match w.placedOn id with
      | none => placements log id
      | some bet => bet :: placements log id := by
  cases hw : w.placedOn id <;> simp [placements, hw]

theorem placedOn_some {w : Write} {id : MarketId} {bet : Bet} (h : w.placedOn id = some bet) :
    ∃ priced points, w = .place bet priced points ∧ bet.marketId = id := by
  cases w with
  | place bet' priced points =>
    simp only [Write.placedOn] at h
    split at h
    · rename_i hid
      cases h
      exact ⟨priced, points, rfl, hid⟩
    · simp at h
  | _ => simp [Write.placedOn] at h

theorem Sys.Priced.effect {build : Build} {s s' : Sys} {a : Act} (hwf : s.Wf)
    (hsrc : s.Sourced build fun _ => True) (h : s.Priced build) (he : Sys.Effect build s a s') :
    s'.Priced build := by
  rcases hsrc.tables hwf he with ⟨hdb, hlog⟩ | ⟨w, now, hok, hdone, hlog, hpriced⟩
  · intro id bet rest hp
    rw [hlog] at hp ⊢
    rw [hdb]
    exact h id bet rest hp
  · intro id bet rest hp
    rw [hlog, placements_cons] at hp
    cases hw : w.placedOn id with
    | none =>
      rw [hw] at hp
      obtain ⟨hm, newer, older, priced, points, after, d, chosen, hsplit, hnone, hd, hfrom,
        hprice⟩ :=
        h id bet rest hp
      have hboard := hdone.outcomesFor_other hok hw hm
      refine ⟨(hdone.grows hok).markets id hm, (w, s'.db) :: newer, older, priced, points, after,
        d, chosen, ?_, ?_, hd, hfrom, ?_⟩
      · rw [hlog, hsplit]
        rfl
      · rw [placements_cons, hw]
        exact hnone
      · rw [Db.pricesOf, hboard]
        exact hprice
    | some bet' =>
      rw [hw] at hp
      cases hp
      obtain ⟨priced, points, rfl, rfl⟩ := placedOn_some hw
      obtain ⟨d, hd, chosen, hfrom⟩ := hpriced
      exact ⟨(hdone.grows hok).markets _ hok.1, [], s.log, priced, points, s'.db, d, chosen,
        hlog, rfl, hd, hfrom, hdone.pricesOf hok⟩

def loggedStakes (log : List (Write × Db)) (marketId : MarketId) (id : OutcomeId) : Int :=
  ((placements log marketId).map fun bet => stakeOn bet id).sum

structure Sys.VolumesLogged (s : Sys) : Prop where
  volumes : ∀ o ∈ s.db.outcomes.rows, o.volume = loggedStakes s.log o.marketId o.id
  markets : ∀ id, placements s.log id ≠ [] → s.db.HasMarket id

theorem loggedStakes_cons (w : Write) (db : Db) (log : List (Write × Db)) (marketId : MarketId)
    (id : OutcomeId) :
    loggedStakes ((w, db) :: log) marketId id =
      loggedStakes log marketId id + ((w.placedOn marketId).map fun bet => stakeOn bet id).getD 0 := by
  unfold loggedStakes
  rw [placements_cons]
  cases hw : w.placedOn marketId with
  | none => simp
  | some bet =>
    simp only [List.map_cons, List.sum_cons, Option.map_some, Option.getD_some]
    omega

theorem Write.Done.volumesLogged {db db' : Db} {w : Write} {now : DateTime}
    {log : List (Write × Db)} (hok : w.Ok db) (h : w.Done db now db')
    (hmarkets : ∀ id, placements log id ≠ [] → db.HasMarket id)
    (hv : ∀ o ∈ db.outcomes.rows, o.volume = loggedStakes log o.marketId o.id) :
    ∀ o ∈ db'.outcomes.rows, o.volume = loggedStakes ((w, db') :: log) o.marketId o.id := by
  intro o ho
  rw [loggedStakes_cons]
  cases h with
  | create market outcomes at' hen =>
    simp only [Write.placedOn, Option.map_none, Option.getD_none, Int.add_zero]
    rw [(rows_created hen).1, List.mem_append] at ho
    rcases ho with ho | ho
    · exact hv o ho
    · obtain ⟨hm, hzero⟩ := hok.2.2.2.2 o ho
      have hnil : placements log market.id = [] := by
        by_contra hne
        obtain ⟨m, hm⟩ := hmarkets market.id hne
        simp [hen.freshMarket] at hm
      simp [hzero, hm, loggedStakes, hnil]
  | place bet priced points hen =>
    obtain ⟨p, hp, rfl⟩ := List.mem_map.mp ho
    have hpriced : bet.outcomeId ∈ priced.map Outcome.id := hok.2.1 ▸ hok.2.2.1
    rw [repriced_volume hpriced, repriced_id, repriced_marketId, hv p hp]
    congr 1
    by_cases hm : bet.marketId = p.marketId
    · simp [Write.placedOn, hm]
    · have hne : p.id ≠ bet.outcomeId := by
        intro heq
        have hmem : p.id ∈ db.outcomeIds p.marketId :=
          List.mem_map_of_mem (Db.mem_outcomesFor.mpr ⟨hp, rfl⟩)
        exact hm (Db.outcomeIds_unique hok.2.2.1 (heq ▸ hmem))
      simp [Write.placedOn, hm, stakeOn, hne]
  | settle market settled hin => simpa [Write.placedOn] using hv o ho
  | save cause user hun => simpa [Write.placedOn] using hv o ho

theorem Sys.VolumesLogged.effect {build : Build} {s s' : Sys} {a : Act} (hwf : s.Wf)
    (h : s.VolumesLogged) (he : Sys.Effect build s a s') : s'.VolumesLogged := by
  rcases hwf.tables he with ⟨hdb, hlog⟩ | ⟨w, now, hok, hdone, hlog⟩
  · exact ⟨by rw [hdb, hlog]; exact h.volumes, by rw [hdb, hlog]; exact h.markets⟩
  · constructor
    · rw [hlog]
      exact hdone.volumesLogged hok h.markets h.volumes
    · intro id hne
      rw [hlog, placements_cons] at hne
      cases hw : w.placedOn id with
      | none =>
        rw [hw] at hne
        exact (hdone.grows hok).markets id (h.markets id hne)
      | some bet =>
        obtain ⟨priced, points, rfl, rfl⟩ := placedOn_some hw
        exact (hdone.grows hok).markets _ hok.1

theorem Sys.VolumesLogged.volumes_eq {s t : Sys} (hs : s.VolumesLogged) (ht : t.VolumesLogged)
    {id : MarketId} (hids : t.db.outcomeIds id = s.db.outcomeIds id)
    (hp : placements t.log id = placements s.log id) :
    (t.db.outcomesFor id).map (fun o => (o.id, o.volume)) =
      (s.db.outcomesFor id).map fun o => (o.id, o.volume) := by
  have hboard : ∀ u : Sys, u.VolumesLogged →
      (u.db.outcomesFor id).map (fun o => (o.id, o.volume)) =
        (u.db.outcomeIds id).map fun k => (k, loggedStakes u.log id k) := by
    intro u hu
    rw [Db.outcomeIds, List.map_map]
    refine List.map_congr_left fun o ho => ?_
    obtain ⟨hrow, rfl⟩ := Db.mem_outcomesFor.mp ho
    simp [hu.volumes o hrow]
  rw [hboard t ht, hboard s hs, hids]
  simp only [loggedStakes, hp]

theorem staked_eq_map {outcomes : List Outcome} (hnd : (outcomes.map Outcome.id).Nodup)
    {chosen : Nat} {o : Outcome} (ho : outcomes[chosen]? = some o) (amount : Int) :
    PlaceBet.staked outcomes chosen amount =
      outcomes.map fun p => if p.id = o.id then p.addVolume amount else p := by
  unfold PlaceBet.staked
  induction outcomes generalizing chosen with
  | nil => simp at ho
  | cons p ps ih =>
    rw [List.map_cons, List.nodup_cons] at hnd
    cases chosen with
    | zero =>
      simp only [List.getElem?_cons_zero, Option.some.injEq] at ho
      subst ho
      have hrest : ps.map (fun q => if q.id = p.id then q.addVolume amount else q) = ps := by
        conv_rhs => rw [← List.map_id ps]
        refine List.map_congr_left fun q hq => ?_
        have hne : q.id ≠ p.id := fun h => hnd.1 (List.mem_map.mpr ⟨q, hq, h⟩)
        simp [hne]
      simp [hrest]
    | succ chosen =>
      simp only [List.getElem?_cons_succ] at ho
      have hne : p.id ≠ o.id := fun h =>
        hnd.1 (h ▸ List.mem_map_of_mem (List.mem_of_getElem? ho))
      simp [hne, ih hnd.2 ho]

theorem addVolume_of_fits {o : Outcome} {amount : Int} (hv : 0 ≤ o.volume) (ha : 0 < amount)
    (hfit : (o.addVolume amount).volume * Price.scale ≤ i64Max) :
    (o.addVolume amount).volume = o.volume + amount := by
  unfold Outcome.addVolume saturatingAdd saturate64 at *
  simp only [Price.scale, i64Max, i64Min] at *
  omega

theorem staked_volumes {outcomes : List Outcome} (hnd : (outcomes.map Outcome.id).Nodup)
    (hnn : NonNegative outcomes) {bet : Bet} {chosen : Nat}
    (hback : ∃ o, outcomes[chosen]? = some o ∧ o.id = bet.outcomeId)
    (hfit : Fits (PlaceBet.staked outcomes chosen bet.amount)) :
    (PlaceBet.staked outcomes chosen bet.amount).map Outcome.volume =
      outcomes.map fun p => p.volume + stakeOn bet p.id := by
  obtain ⟨o, ho, hid⟩ := hback
  rw [staked_eq_map hnd ho] at hfit ⊢
  rw [List.map_map]
  refine List.map_congr_left fun p hp => ?_
  by_cases hpo : p.id = o.id
  · have hbound := hfit.2 _ (List.mem_map.mpr ⟨p, hp, rfl⟩)
    simp only [hpo, if_true] at hbound
    have hstake : stakeOn bet o.id = bet.amount := by simp [stakeOn, hid]
    simp only [Function.comp_apply, hpo, if_true, hstake]
    exact addVolume_of_fits (hnn p hp) bet.amountPositive hbound
  · have hne : ¬p.id = bet.outcomeId := fun h => hpo (h.trans hid.symm)
    simp [hpo, stakeOn, hne]

theorem staked_ne_nil {outcomes : List Outcome} {bet : Bet} {chosen : Nat}
    (hback : ∃ o, outcomes[chosen]? = some o ∧ o.id = bet.outcomeId) :
    PlaceBet.staked outcomes chosen bet.amount ≠ [] := by
  obtain ⟨o, ho, -⟩ := hback
  intro hnil
  have hlen := congrArg List.length hnil
  simp only [PlaceBet.staked, List.length_modify, List.length_nil] at hlen
  simp [List.eq_nil_of_length_eq_zero hlen] at ho

theorem staked_nonNegative {outcomes : List Outcome} {bet : Bet} {chosen : Nat}
    (hnn : NonNegative outcomes)
    (hvol : (PlaceBet.staked outcomes chosen bet.amount).map Outcome.volume =
      outcomes.map fun p => p.volume + stakeOn bet p.id) :
    NonNegative (PlaceBet.staked outcomes chosen bet.amount) := by
  intro o ho
  have hmem : o.volume ∈ outcomes.map fun p => p.volume + stakeOn bet p.id :=
    hvol ▸ List.mem_map_of_mem ho
  obtain ⟨p, hp, heq⟩ := List.mem_map.mp hmem
  have h₁ := hnn p hp
  have h₂ := stakeOn_nonneg bet p.id
  omega

def Slot.PastRead : Slot → Prop
  | .running (.placeBet _ _ (.findUser ..)) => True
  | .running (.placeBet _ _ (.place ..)) => True
  | .running (.placeBet _ _ (.readPosition ..)) => True
  | .running _ => False
  | .returned _ _ => True

def Sys.Prices (build : Build) (s : Sys) (i : Nat) (d : Db) : Prop :=
  ∃ slot, s.calls[i]? = some slot ∧ slot.PastRead ∧ slot.Sourced build Fits [d]

theorem PlaceBet.read_pastRead {build : Build} {env : Env} {db : Db} {cache cache' : Cache}
    {actor : Actor} {input : NewBet} {phase : PlaceBet.Phase} {next : Next PlaceBet.Phase}
    {request : Request} (hp : (Slot.running (.placeBet actor input phase)).PastRead)
    (h : PlaceBet.read build env db cache actor input phase = some (cache', next)) :
    (next.slot request (.placeBet actor input)).PastRead := by
  cases phase with
  | findUser market outcomes chosen lookup =>
    simp only [PlaceBet.read] at h
    cases ha : lookup.advance actor.userId env db cache with
    | mk cache₁ result =>
      cases result with
      | inl l =>
        simp only [ha, Option.some.injEq, Prod.mk.injEq] at h
        rw [← h.2]
        trivial
      | inr found =>
        simp only [ha, Option.some.injEq, Prod.mk.injEq] at h
        cases hn : next with
        | reply r => trivial
        | goto phase' =>
          obtain ⟨user, bet, backed, priced, -, -, rfl⟩ := PlaceBet.onUser_goto (h.2.trans hn)
          trivial
  | readPosition market user bet priced chosen =>
    cases h
    trivial
  | place market user bet priced chosen points => simp [PlaceBet.read] at h
  | _ => exact hp.elim

theorem Sys.Prices.effect {build : Build} {s s' : Sys} {a : Act} {i : Nat} {d : Db} (hwf : s.Wf)
    (hfits : PricingFits s a) (h : s.Prices build i d) (he : Sys.Effect build s a s') :
    s'.Prices build i d := by
  obtain ⟨slot, hslot, hpast, hsrc⟩ := h
  rcases he.slot hslot with hsame | ⟨env, call, cache, slot', rfl, rfl, -, hr, hslot'⟩ |
    ⟨env, call, w, result, rfl, -, hw, hslot'⟩ | ⟨request, reply, hret⟩
  · exact ⟨slot, hsame, hpast, hsrc⟩
  · cases call with
    | placeBet actor input phase =>
      have hguard : ∀ backed ∈ PlaceBet.pricing? env s.db s.cache actor input phase, Fits backed :=
        fun backed hb => hfits backed (by simpa [Sys.pricing?, hslot] using hb)
      have hphase : (PlaceBet.Phase.Wf s.db actor input) phase := hwf.call hslot
      simp only [Call.read, Option.map_eq_some_iff] at hr
      obtain ⟨⟨cache₁, next⟩, hr, heq⟩ := hr
      cases heq
      refine ⟨_, hslot', PlaceBet.read_pastRead hpast hr, Next.slot_sourced fun phase' hp => ?_⟩
      cases hp
      cases phase with
      | findUser market outcomes chosen lookup =>
        exact PlaceBet.findUser_sourced hphase hsrc hguard hr
      | place market user bet priced chosen points => simp [PlaceBet.read] at hr
      | readPosition market user bet priced chosen => simp [PlaceBet.read] at hr
      | _ => exact hpast.elim
    | _ => exact hpast.elim
  · cases call with
    | placeBet actor input phase =>
      refine ⟨_, hslot', ?_, Call.written_sourced hw result [d]⟩
      cases phase <;> simp [Call.write?, PlaceBet.write?] at hw
      cases result <;> trivial
    | _ => exact hpast.elim
  · exact ⟨_, hret, trivial, trivial⟩

theorem Sys.Prices.start {build : Build} {s s' : Sys} {i : Nat} {env : Env} {actor : Actor}
    {input : NewBet} {market : Market}
    (hcall : s.calls[i]? = some (.running (.placeBet actor input (.readOutcomes market))))
    (hs : Sys.step build s (.step i env) = some s') :
    s'.db = s.db ∧ s'.log = s.log ∧ s'.Prices build i s.db := by
  have hlt : i < s.calls.length := (List.getElem?_eq_some_iff.mp hcall).1
  simp only [Sys.step, hcall, Sys.stepCall, Call.write?, PlaceBet.write?, Call.read, PlaceBet.read,
    Option.map_some, Option.some.injEq] at hs
  subst hs
  refine ⟨rfl, rfl, _, List.getElem?_set_self hlt, ?_, ?_⟩
  · unfold PlaceBet.onOutcomes
    split <;> trivial
  · refine Next.slot_sourced fun phase' hp => ?_
    unfold PlaceBet.onOutcomes at hp
    split at hp
    · simp [Next.domainError] at hp
    · cases hp
      exact ⟨s.db, by simp, rfl⟩

theorem Sys.grows_step {build : Build} {s s' : Sys} {a : Act} (hwf : s.Wf)
    (he : Sys.Effect build s a s') : Grows s.db s'.db := by
  rcases hwf.tables he with ⟨hdb, -⟩ | ⟨w, now, hok, hdone, -⟩
  · rw [hdb]
    exact .refl s.db
  · exact hdone.grows hok

/-- A placement that read the board when all earlier ones had committed, and that the
market's next commit belongs to, leaves the prices of the stored volumes behind. -/
theorem placement_heals {build : Build} {s s₁ s₂ s₃ : Sys} {i : Nat} {env env' : Env}
    {actor : Actor} {input : NewBet} {market : Market} {bs : List Act} (hwf : s.Wf)
    (hlogged : s.VolumesLogged) (hexact : s.db.VolumesExact)
    (hcall : s.calls[i]? = some (.running (.placeBet actor input (.readOutcomes market))))
    (hread : Sys.step build s (.step i env) = some s₁)
    (hrun : Transition.run (Sys.step build) s₁ bs = some s₂)
    (hfits : Transition.Guarded (Sys.step build) PricingFits s₁ bs)
    (hquiet : placements s₂.log market.id = placements s.log market.id)
    (hcommit : Sys.step build s₂ (.step i env') = some s₃)
    (hplaced : placements s₃.log market.id ≠ placements s₂.log market.id) :
    recalculatePrices build (s₃.db.outcomesFor market.id) =
      .ok (s₃.db.outcomesFor market.id) := by
  obtain ⟨hdb₁, hlog₁, hprices₁⟩ := Sys.Prices.start hcall hread
  have he₁ := Sys.step_effect hread
  have hstep : ∀ t a t', (t.Wf ∧ t.VolumesLogged ∧ Grows s.db t.db ∧ t.Prices build i s.db) →
      PricingFits t a → Sys.step build t a = some t' →
      t'.Wf ∧ t'.VolumesLogged ∧ Grows s.db t'.db ∧ t'.Prices build i s.db := by
    rintro t a t' ⟨ht, hl, hg, hp⟩ hok hs
    have he := Sys.step_effect hs
    exact ⟨ht.effect he, hl.effect ht he, hg.trans (Sys.grows_step ht he), hp.effect ht hok he⟩
  obtain ⟨hwf₂, hlogged₂, hgrows, slot, hslot, -, hsrc⟩ := Transition.run_invariant hstep
    ⟨hwf.effect he₁, hlogged.effect hwf he₁, Sys.grows_step hwf he₁, hprices₁⟩ hfits hrun
  have hmarket : s.db.HasMarket market.id := (hwf.call hcall).1
  cases Sys.step_effect hcommit with
  | read j env call cache slot hcall hread hr => exact absurd rfl hplaced
  | refused j env call w e hcall hwrite hc => exact absurd rfl hplaced
  | committed j env call w db hcall₂ hwrite hc =>
    obtain ⟨hok, hdone⟩ := hwf₂.done hcall₂ hwrite hc
    have hlog : placements ((w, db) :: s₂.log) market.id ≠ placements s₂.log market.id := hplaced
    rw [placements_cons] at hlog
    cases hw : w.placedOn market.id with
    | none => simp [hw] at hlog
    | some bet =>
      obtain ⟨priced, points, rfl, hid⟩ := placedOn_some hw
      rw [hslot] at hcall₂
      cases hcall₂
      obtain ⟨d, hd, chosen, hfrom⟩ := hsrc.write (hwf₂.call hslot) hwrite
      rw [List.mem_singleton] at hd
      subst hd
      rw [hid] at hfrom
      have hnd : ((s.db.outcomesFor market.id).map Outcome.id).Nodup :=
        s.db.outcomeIds_nodup market.id
      have hnn := hexact.nonNegative market.id
      have hstaked := staked_volumes hnd hnn hfrom.backs hfrom.checked
      have hsame := hlogged.volumes_eq hlogged₂ (hgrows.outcomes _ hmarket) hquiet
      have hvol : (db.outcomesFor market.id).map Outcome.volume =
          (PlaceBet.staked (s.db.outcomesFor market.id) chosen bet.amount).map Outcome.volume := by
        rw [hdone.volumes_placed hok, hstaked]
        simpa only [List.map_map, Function.comp_def] using
          congrArg (List.map fun r : OutcomeId × Int => r.2 + stakeOn bet r.1) hsame
      have hprice : priceVector (db.outcomesFor market.id) = priceVector priced := by
        rw [← hid]
        exact hdone.pricesOf hok
      exact recalculatePrices_fixed (staked_ne_nil hfrom.backs) (staked_nonNegative hnn hstaked)
        hfrom.checked hfrom.result hvol hprice

/-- What the pricing results rest on, in every reachable state. -/
structure Sys.Board (build : Build) (s : Sys) : Prop where
  wf : s.Wf
  exact : s.db.VolumesExact
  logged : s.VolumesLogged
  sourced : s.Sourced build fun _ => True
  priced : s.Priced build

theorem Sys.Board.effect {build : Build} {s s' : Sys} {a : Act} (h : s.Board build)
    (he : Sys.Effect build s a s') : s'.Board build where
  wf := h.wf.effect he
  exact := by
    rcases h.wf.tables he with ⟨hdb, -⟩ | ⟨w, now, hok, hdone, -⟩
    · rw [hdb]
      exact h.exact
    · exact h.exact.done h.wf.db hok hdone
  logged := h.logged.effect h.wf he
  sourced := h.sourced.effect h.wf (fun _ _ => trivial) he
  priced := h.priced.effect h.wf h.sourced he

theorem Sys.board_run {build : Build} {as : List Act} {s : Sys}
    (h : Transition.run (Sys.step build) Sys.init as = some s) : s.Board build := by
  have hinit : Sys.init.Board build := by
    refine ⟨Sys.wf_init, ⟨by simp [Sys.init, Db.empty], by simp [Sys.init, Db.empty]⟩,
      ⟨by simp [Sys.init, Db.empty], by simp [Sys.init, placements]⟩, Sys.sourced_init, ?_⟩
    intro id bet rest hp
    simp [Sys.init, placements] at hp
  exact Transition.run_invariant' (fun _ _ _ hi hs => hi.effect (Sys.step_effect hs)) hinit h

/-- Stored prices always go back to an earlier committed board plus the last stake, and
one placement with the market to itself brings them in line with the stored volumes. -/
theorem prices_heal {build : Build} {as : List Act} {s : Sys}
    (h : Transition.run (Sys.step build) Sys.init as = some s) :
    (∀ id bet rest, placements s.log id = bet :: rest →
      LastPriced build s.log id bet (s.db.pricesOf id)) ∧
    ∀ i actor input market env env' bs s₁ s₂ s₃,
      s.calls[i]? = some (.running (.placeBet actor input (.readOutcomes market))) →
      Sys.step build s (.step i env) = some s₁ →
      Transition.run (Sys.step build) s₁ bs = some s₂ →
      Transition.Guarded (Sys.step build) PricingFits s₁ bs →
      placements s₂.log market.id = placements s.log market.id →
      Sys.step build s₂ (.step i env') = some s₃ →
      placements s₃.log market.id ≠ placements s₂.log market.id →
      recalculatePrices build (s₃.db.outcomesFor market.id) =
        .ok (s₃.db.outcomesFor market.id) := by
  have hboard := Sys.board_run h
  refine ⟨fun id bet rest hp => (hboard.priced id bet rest hp).2, ?_⟩
  intro i actor input market env env' bs s₁ s₂ s₃ hcall hread hrun hfits hquiet hcommit hplaced
  exact placement_heals hboard.wf hboard.logged hboard.exact hcall hread hrun hfits hquiet hcommit
    hplaced

/-- After two crossed placements the prices say (0, 1) and the volumes (50, 30); a third
placement repairs them. -/
theorem prices_heal_crossed :
    let before := Sample.crossed ++ [Sample.bet ⟨1⟩ ⟨101⟩ 20] ++ Sample.steps 3 2 400
    (Sample.state before).db.pricesOf ⟨100⟩ = [0, 10000] ∧
      (Sample.state (before ++ [.step 3 (Sample.env 2 400)] ++ Sample.steps 3 1 400 ++
        [.step 3 (Sample.env 2 400)])).db.pricesOf ⟨100⟩ = [7000, 3000] ∧
      recalculatePrices .debug ((Sample.state (before ++ [.step 3 (Sample.env 2 400)] ++
        Sample.steps 3 1 400 ++ [.step 3 (Sample.env 2 400)])).db.outcomesFor ⟨100⟩) =
        .ok ((Sample.state (before ++ [.step 3 (Sample.env 2 400)] ++ Sample.steps 3 1 400 ++
          [.step 3 (Sample.env 2 400)])).db.outcomesFor ⟨100⟩) := by
  intro before
  refine ⟨by decide +kernel, by decide +kernel, ?_⟩
  exact (prices_heal (Sample.run_state (by decide +kernel))).2 3 ⟨⟨1⟩, .user⟩ ⟨⟨101⟩, 20⟩
    { Sample.rainMarket with totalVolume := 80, participantsCount := 2 } (Sample.env 2 400)
    (Sample.env 2 400) (Sample.steps 3 1 400) _ _ _ (by decide +kernel)
    (Sample.step_from (by decide +kernel)) (Sample.run_from (by decide +kernel))
    (by decide +kernel) (by decide +kernel) (Sample.step_from (by decide +kernel))
    (by decide +kernel)

end Betsphere
