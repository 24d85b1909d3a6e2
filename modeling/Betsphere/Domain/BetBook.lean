import Betsphere.Domain.Entities
set_option autoImplicit false

namespace Betsphere

structure Book where
  bets : List Bet
  status : MarketId → Option MarketStatus
  marketOf : OutcomeId → Option MarketId
  known : UserId → Prop

namespace Book

/-- The bets of a market are active until it is resolved, and none is from then on. -/
structure Sound (k : Book) : Prop where
  distinct : (k.bets.map Bet.id).Nodup
  known : ∀ b ∈ k.bets, k.known b.userId
  belongs : ∀ b ∈ k.bets, k.marketOf b.outcomeId = some b.marketId
  active_iff : ∀ b ∈ k.bets, ∃ status, k.status b.marketId = some status ∧
    (b.status = .active ↔ status ≠ .resolved)

/-- Users, markets and outcomes are only added, and no market changes its status. -/
structure Extends (k k' : Book) : Prop where
  status : ∀ id status, k.status id = some status → k'.status id = some status
  marketOf : ∀ id market, k.marketOf id = some market → k'.marketOf id = some market
  known : ∀ id, k.known id → k'.known id

theorem Extends.refl (k : Book) : k.Extends k := ⟨fun _ _ h => h, fun _ _ h => h, fun _ h => h⟩

structure SettledAs (b b' : Bet) : Prop where
  id : b'.id = b.id
  userId : b'.userId = b.userId
  marketId : b'.marketId = b.marketId
  outcomeId : b'.outcomeId = b.outcomeId
  inactive : b'.status ≠ .active

inductive Turn (k k' : Book) : Prop where
  | keep (hext : k.Extends k') (hbets : k'.bets = k.bets)
  | place (bet : Bet) (status : MarketStatus) (hext : k.Extends k')
      (hbets : k'.bets = k.bets ++ [bet]) (hnew : bet.id ∉ k.bets.map Bet.id)
      (hactive : bet.status = .active) (hknown : k.known bet.userId)
      (hbelongs : k.marketOf bet.outcomeId = some bet.marketId)
      (hstatus : k.status bet.marketId = some status) (hopen : status ≠ .resolved)
  | settle (id : MarketId) (settle : Bet → Bet) (hsettle : ∀ b, SettledAs b (settle b))
      (hbets : k'.bets =
        k.bets.map fun b => if b.marketId = id ∧ b.status = .active then settle b else b)
      (hresolved : k'.status id = some .resolved)
      (hstatus : ∀ id', id' ≠ id → k'.status id' = k.status id')
      (hmarketOf : ∀ id market, k.marketOf id = some market → k'.marketOf id = some market)
      (hknown : ∀ id, k.known id → k'.known id)

theorem Sound.extend {k k' : Book} (h : k.Sound) (hext : k.Extends k') (hbets : k'.bets = k.bets) :
    k'.Sound where
  distinct := hbets ▸ h.distinct
  known := fun b hb => hext.known _ (h.known b (hbets ▸ hb))
  belongs := fun b hb => hext.marketOf _ _ (h.belongs b (hbets ▸ hb))
  active_iff := by
    intro b hb
    obtain ⟨status, hstatus, hiff⟩ := h.active_iff b (hbets ▸ hb)
    exact ⟨status, hext.status _ _ hstatus, hiff⟩

theorem Sound.place {k k' : Book} {bet : Bet} {status : MarketStatus} (h : k.Sound)
    (hext : k.Extends k') (hbets : k'.bets = k.bets ++ [bet]) (hnew : bet.id ∉ k.bets.map Bet.id)
    (hactive : bet.status = .active) (hknown : k.known bet.userId)
    (hbelongs : k.marketOf bet.outcomeId = some bet.marketId)
    (hstatus : k.status bet.marketId = some status) (hopen : status ≠ .resolved) : k'.Sound := by
  have hmem : ∀ b ∈ k'.bets, b ∈ k.bets ∨ b = bet := fun b hb => by simpa [hbets] using hb
  refine ⟨?_, fun b hb => ?_, fun b hb => ?_, fun b hb => ?_⟩
  · rw [hbets, List.map_append, List.nodup_append]
    refine ⟨h.distinct, List.nodup_singleton _, ?_⟩
    rintro id hid _ hbet rfl
    rw [List.map_singleton, List.mem_singleton] at hbet
    exact hnew (hbet ▸ hid)
  · rcases hmem b hb with hb | rfl
    · exact hext.known _ (h.known b hb)
    · exact hext.known _ hknown
  · rcases hmem b hb with hb | rfl
    · exact hext.marketOf _ _ (h.belongs b hb)
    · exact hext.marketOf _ _ hbelongs
  · rcases hmem b hb with hb | rfl
    · obtain ⟨st, hst, hiff⟩ := h.active_iff b hb
      exact ⟨st, hext.status _ _ hst, hiff⟩
    · exact ⟨status, hext.status _ _ hstatus, iff_of_true hactive hopen⟩

theorem Sound.settle {k k' : Book} {id : MarketId} {settle : Bet → Bet} (h : k.Sound)
    (hsettle : ∀ b, SettledAs b (settle b))
    (hbets : k'.bets =
      k.bets.map fun b => if b.marketId = id ∧ b.status = .active then settle b else b)
    (hresolved : k'.status id = some .resolved)
    (hstatus : ∀ id', id' ≠ id → k'.status id' = k.status id')
    (hmarketOf : ∀ id market, k.marketOf id = some market → k'.marketOf id = some market)
    (hknown : ∀ id, k.known id → k'.known id) : k'.Sound := by
  have hkept : ∀ b : Bet,
      let b' := if b.marketId = id ∧ b.status = .active then settle b else b
      b'.id = b.id ∧ b'.userId = b.userId ∧ b'.marketId = b.marketId ∧
        b'.outcomeId = b.outcomeId := by
    intro b
    dsimp only
    split
    · exact ⟨(hsettle b).id, (hsettle b).userId, (hsettle b).marketId, (hsettle b).outcomeId⟩
    · exact ⟨rfl, rfl, rfl, rfl⟩
  refine ⟨?_, fun b' hb' => ?_, fun b' hb' => ?_, fun b' hb' => ?_⟩
  · rw [hbets, List.map_map]
    have hids : (k.bets.map (Bet.id ∘ fun b =>
        if b.marketId = id ∧ b.status = .active then settle b else b)) = k.bets.map Bet.id :=
      List.map_congr_left fun b _ => (hkept b).1
    rw [hids]
    exact h.distinct
  · rw [hbets] at hb'
    obtain ⟨b, hb, rfl⟩ := List.mem_map.mp hb'
    rw [(hkept b).2.1]
    exact hknown _ (h.known b hb)
  · rw [hbets] at hb'
    obtain ⟨b, hb, rfl⟩ := List.mem_map.mp hb'
    rw [(hkept b).2.2.1, (hkept b).2.2.2]
    exact hmarketOf _ _ (h.belongs b hb)
  · rw [hbets] at hb'
    obtain ⟨b, hb, rfl⟩ := List.mem_map.mp hb'
    rw [(hkept b).2.2.1]
    obtain ⟨status, hst, hiff⟩ := h.active_iff b hb
    by_cases hmarket : b.marketId = id
    · refine ⟨.resolved, by rw [hmarket, hresolved], iff_of_false ?_ fun hne => hne rfl⟩
      split
      · exact (hsettle b).inactive
      · rename_i hnot
        exact fun hactive => hnot ⟨hmarket, hactive⟩
    · refine ⟨status, by rw [hstatus _ hmarket, hst], ?_⟩
      rw [if_neg fun hboth => hmarket hboth.1]
      exact hiff

theorem Turn.sound {k k' : Book} (h : k.Turn k') (hk : k.Sound) : k'.Sound := by
  cases h with
  | keep hext hbets => exact hk.extend hext hbets
  | place bet status hext hbets hnew hactive hknown hbelongs hstatus hopen =>
    exact hk.place hext hbets hnew hactive hknown hbelongs hstatus hopen
  | settle id settle hsettle hbets hresolved hstatus hmarketOf hknown =>
    exact hk.settle hsettle hbets hresolved hstatus hmarketOf hknown

/-- The bets on one outcome are all active or all settled. -/
theorem Sound.together {k : Book} (h : k.Sound) {b b' : Bet} (hb : b ∈ k.bets) (hb' : b' ∈ k.bets)
    (hsame : b.outcomeId = b'.outcomeId) : b.status = .active ↔ b'.status = .active := by
  have hmarket : b.marketId = b'.marketId :=
    Option.some.inj ((h.belongs b hb).symm.trans ((congrArg k.marketOf hsame).trans
      (h.belongs b' hb')))
  obtain ⟨status, hstatus, hiff⟩ := h.active_iff b hb
  obtain ⟨status', hstatus', hiff'⟩ := h.active_iff b' hb'
  rw [hmarket, hstatus'] at hstatus
  obtain rfl := Option.some.inj hstatus
  exact hiff.trans hiff'.symm

end Book

end Betsphere
