import Betsphere.InMemory.Refinement
import Betsphere.InMemory.Sequential
set_option autoImplicit false

namespace Betsphere
open MachineInt

namespace Mem

def stakedIn (m : Mem) (id : MarketId) : Int :=
  (m.bets.map fun b => if b.marketId = id then b.amount else 0).sum

def stakedOn (m : Mem) (id : OutcomeId) : Int :=
  (m.bets.map fun b => if b.outcomeId = id then b.amount else 0).sum

def bettors (m : Mem) (id : MarketId) : Finset UserId :=
  ((m.bets.filter fun b => b.marketId = id).map Bet.userId).toFinset

/-- Every stored bet is in the aggregates, which stop at the end of an `i64`. -/
structure CountsBets (m : Mem) : Prop where
  volumes : ∀ o ∈ m.outcomes, o.volume = saturate64 (m.stakedOn o.id)
  totals : ∀ r ∈ m.markets, r.totalVolume = saturate64 (m.stakedIn r.id)
  participants : ∀ r ∈ m.markets, r.participantsCount = ((m.bettors r.id).card : Int)

end Mem

/-- Every thumbnail is the one written last, and every stored bet counts. -/
structure Overlap.Intact (s : Overlap) : Prop where
  marketThumbnails : ∀ r ∈ s.mem.markets,
    lastPosted s.posted (.market r.id) = some r.thumbnailUrl
  outcomeThumbnails : ∀ o ∈ s.mem.outcomes,
    lastPosted s.posted (.outcome o.id) = some o.thumbnailUrl
  counts : s.mem.CountsBets

theorem staked_aggregates (m : Mem) (id : MarketId) : m.aggregates.staked id = m.stakedIn id := by
  simp only [Mem.aggregates, Aggregates.staked, List.map_map]
  rfl

theorem backed_aggregates (m : Mem) (id : OutcomeId) : m.aggregates.backed id = m.stakedOn id := by
  simp only [Mem.aggregates, Aggregates.backed, List.map_map]
  rfl

theorem bettors_aggregates (m : Mem) (id : MarketId) : m.aggregates.bettors id = m.bettors id := by
  simp only [Mem.aggregates, Aggregates.bettors, List.filter_map, List.map_map]
  rfl

/-- What every state keeps while all steps are safe. -/
structure Overlap.Sound (s : Overlap) : Prop where
  distinct : s.mem.DistinctIds
  kept : s.mem.aggregates.Kept (s.calls.map MemCall.debt) s.posted
  held : ∀ call ∈ s.calls, call.Held s.mem.aggregates.stakes

theorem MemCall.start_settled (request : MemRequest) (stakes : List Stake) :
    (MemCall.start request).debt = .clear ∧ (MemCall.start request).Held stakes := by
  cases request with
  | bet request =>
    cases request with
    | placeBet actor input => exact ⟨rfl, trivial⟩
    | resolveMarket actor marketId winner =>
      simp only [MemCall.start]
      split <;> exact ⟨rfl, trivial⟩
  | upload request =>
    simp only [MemCall.start]
    split <;> exact ⟨rfl, trivial⟩

namespace Overlap
variable {build : Build} {s s' : Overlap} {m : Mem} {i : Nat}

theorem Sound.set {call call' : MemCall} {mem : Mem} (h : s.Sound)
    (hcall : s.calls[i]? = some call) (hrefines : call.Refines s.mem s.posted mem call') :
    (⟨mem, s.calls.set i call', call.posting.toList ++ s.posted⟩ : Overlap).Sound where
  distinct := distinct_iff.mp ((distinct_iff.mpr h.distinct).moves hrefines.moves)
  kept := by
    have hdebt : (s.calls.map MemCall.debt)[i]? = some call.debt := by simp [hcall]
    have hkept := h.kept.moves hdebt hrefines.moves
    rwa [← List.map_set] at hkept
  held := by
    intro c hc
    rcases List.mem_or_eq_of_mem_set hc with hmem | rfl
    · exact (h.held c hmem).mono hrefines.moves.stakes_subset
    · exact hrefines.held

theorem Sound.step {a : OverlapAct} (h : s.Sound) (hfresh : s.next MemCall.drawsFresh a = true)
    (hfits : s.next MemCall.countFits a = true) (hcur : s.next MemCall.copiesCurrent a = true)
    (hstep : s.step build a = some s') : s'.Sound := by
  cases a with
  | start request =>
    cases hstep
    obtain ⟨hdebt, hheld⟩ := MemCall.start_settled request s.mem.aggregates.stakes
    refine ⟨h.distinct, ?_, ?_⟩
    · rw [List.map_append, List.map_cons, List.map_nil, hdebt]
      exact h.kept.join
    · intro c hc
      rcases List.mem_append.mp hc with hmem | hmem
      · exact h.held c hmem
      · rw [List.mem_singleton.mp hmem]
        exact hheld
  | advance i env =>
    simp only [Overlap.step] at hstep
    cases hcall : s.calls[i]? with
    | none => simp [hcall] at hstep
    | some call =>
      simp only [hcall] at hstep
      simp only [Overlap.next, hcall, Option.all_some] at hfresh hfits hcur
      split at hstep
      · simp at hstep
      · obtain ⟨⟨mem, call'⟩, hadvance, rfl⟩ := Option.map_eq_some_iff.mp hstep
        have hheld := h.held call (List.mem_of_getElem? hcall)
        exact h.set hcall (MemCall.advance_refines h.distinct hheld hfresh hfits hcur hadvance)
  | fail i message =>
    simp only [Overlap.step] at hstep
    cases hcall : s.calls[i]? with
    | none => simp [hcall] at hstep
    | some call =>
      simp only [hcall] at hstep
      obtain ⟨e, hfail, rfl⟩ := Option.map_eq_some_iff.mp hstep
      have hidle : call.debt = .clear ∧ call.posting = none := by
        unfold MemCall.failure at hfail
        split at hfail
        · exact ⟨rfl, rfl⟩
        · exact ⟨rfl, rfl⟩
        · simp at hfail
      have hrefines : call.Refines s.mem s.posted s.mem (.returned (.error e)) :=
        .silent rfl hidle.1 rfl hidle.2 trivial
      have hset := h.set hcall hrefines
      rwa [hidle.2] at hset

theorem lastPosted_init (hd : m.DistinctIds) :
    (∀ r ∈ m.markets, lastPosted (init m).posted (.market r.id) = some r.thumbnailUrl) ∧
    ∀ o ∈ m.outcomes, lastPosted (init m).posted (.outcome o.id) = some o.thumbnailUrl := by
  let markets : Table Market.id := ⟨m.markets, hd.markets⟩
  let outcomes : Table Outcome.id := ⟨m.outcomes, hd.outcomes⟩
  constructor
  · intro r hr
    have hfind : m.markets.find? (fun x => x.id = r.id) = some r :=
      Table.find?_of_mem (t := markets) hr
    simp [lastPosted, init, List.find?_append, List.find?_map, hfind]
  · intro o ho
    have hnone : m.markets.find? (fun _ => false) = none := List.find?_eq_none.mpr (by simp)
    have hfind : m.outcomes.find? (fun x => x.id = o.id) = some o :=
      Table.find?_of_mem (t := outcomes) ho
    simp [lastPosted, init, List.find?_append, List.find?_map, hnone, hfind]

theorem Sound.init (hd : m.DistinctIds) (hcounts : m.CountsBets) : (init m).Sound where
  distinct := hd
  kept := by
    obtain ⟨hmarkets, houtcomes⟩ := lastPosted_init hd
    refine .start ?_ ?_ ?_ ?_
    · intro t ht
      obtain ⟨r, hr, rfl⟩ := List.mem_map.mp ht
      exact hmarkets r hr
    · intro t ht
      obtain ⟨o, ho, rfl⟩ := List.mem_map.mp ht
      exact houtcomes o ho
    · intro t ht
      obtain ⟨r, hr, rfl⟩ := List.mem_map.mp ht
      rw [staked_aggregates, bettors_aggregates]
      exact ⟨hcounts.totals r hr, hcounts.participants r hr⟩
    · intro t ht
      obtain ⟨o, ho, rfl⟩ := List.mem_map.mp ht
      rw [backed_aggregates]
      exact hcounts.volumes o ho
  held := by simp [Overlap.init]

theorem Sound.intact (h : s.Sound) (hdone : s.Finished) : s.Intact := by
  have hclear : ∀ d ∈ s.calls.map MemCall.debt, d = .clear := by
    intro d hd
    obtain ⟨call, hcall, rfl⟩ := List.mem_map.mp hd
    have hfinished := hdone call hcall
    cases call with
    | returned reply => rfl
    | _ => simp [MemCall.finished] at hfinished
  obtain ⟨htotals, hvolumes⟩ := h.kept.settled hclear
  refine ⟨fun r hr => ?_, fun o ho => ?_, fun o ho => ?_, fun r hr => ?_, fun r hr => ?_⟩
  · exact h.kept.marketThumbnails r.tally (List.mem_map_of_mem hr)
  · exact h.kept.outcomeThumbnails o.tally (List.mem_map_of_mem ho)
  · rw [← backed_aggregates]
    exact hvolumes o.tally (List.mem_map_of_mem ho)
  · rw [← staked_aggregates]
    exact (htotals r.tally (List.mem_map_of_mem hr)).1
  · rw [← bettors_aggregates]
    exact (htotals r.tally (List.mem_map_of_mem hr)).2

end Overlap

/-- Any calls in any order: while whole copies are only put back when they are current, no
write is rolled back. -/
theorem current_copies_keep_writes (build : Build) (m : Mem) (hd : m.DistinctIds)
    (hcounts : m.CountsBets) (as : List OverlapAct) (s : Overlap)
    (hfresh : Transition.Guarded (Overlap.step build)
      (fun s a => s.next MemCall.drawsFresh a = true) (Overlap.init m) as)
    (hfits : Transition.Guarded (Overlap.step build)
      (fun s a => s.next MemCall.countFits a = true) (Overlap.init m) as)
    (hcur : Transition.Guarded (Overlap.step build)
      (fun s a => s.next MemCall.copiesCurrent a = true) (Overlap.init m) as)
    (hr : Transition.run (Overlap.step build) (Overlap.init m) as = some s)
    (hdone : s.Finished) : s.Intact := by
  have hstep : ∀ (s : Overlap) (a : OverlapAct) (s' : Overlap), s.Sound →
      ((s.next MemCall.drawsFresh a = true ∧ s.next MemCall.countFits a = true) ∧
        s.next MemCall.copiesCurrent a = true) → s.step build a = some s' → s'.Sound :=
    fun s a s' h hok hs => h.step hok.1.1 hok.1.2 hok.2 hs
  have hguard := Transition.guarded_and (Transition.guarded_and hfresh hfits) hcur
  have hsound : s.Sound :=
    Transition.run_invariant hstep (Overlap.Sound.init hd hcounts) hguard hr
  exact hsound.intact hdone

namespace Sample

def rainMem : Mem := Mem.start bettors (rainMarkets 0) rainOutcomes []

def turns (i n base : Nat) : List OverlapAct := List.replicate n (.advance i (env 2 base))

def requestBet (userId : UserId) (outcomeId : OutcomeId) (amount : Int) : OverlapAct :=
  .start (.bet (.placeBet ⟨userId, .user⟩ ⟨outcomeId, amount⟩))

/-- Two uploads around a bet, then another bet and the resolution. -/
def current : List OverlapAct :=
  [requestBet ⟨1⟩ ⟨101⟩ 50, .start (.upload (.marketThumbnail admin ⟨100⟩ "image/png" [1])),
    .start (.upload (.outcomeThumbnail admin ⟨100⟩ ⟨102⟩ "image/png" [1]))] ++
  turns 1 4 0 ++ turns 0 5 200 ++ turns 2 4 0 ++ turns 0 3 200 ++ turns 1 2 0 ++
  turns 0 5 200 ++ turns 2 2 0 ++ [requestBet ⟨2⟩ ⟨102⟩ 30] ++ turns 3 13 300 ++
  [.start (.bet (.resolveMarket admin ⟨100⟩ ⟨101⟩))] ++ turns 4 8 0

/-- Two bets that have both read the outcomes before either of them writes. -/
def crossing : List OverlapAct :=
  [requestBet ⟨1⟩ ⟨101⟩ 50, requestBet ⟨2⟩ ⟨102⟩ 30] ++ turns 0 4 200 ++ turns 1 4 300 ++
  turns 0 9 200 ++ turns 1 9 300

theorem rainMem_distinct : rainMem.DistinctIds :=
  ⟨by decide +kernel, by decide +kernel, by decide +kernel⟩

theorem rainMem_counts : rainMem.CountsBets :=
  ⟨by decide +kernel, by decide +kernel, by decide +kernel⟩

def overlapped (as : List OverlapAct) : Overlap :=
  (Transition.run (Overlap.step .debug) (.init rainMem) as).getD (.init rainMem)

theorem run_overlapped {as : List OverlapAct}
    (h : (Transition.run (Overlap.step .debug) (.init rainMem) as).isSome = true) :
    Transition.run (Overlap.step .debug) (.init rainMem) as = some (overlapped as) := by
  obtain ⟨s, hs⟩ := Option.isSome_iff_exists.mp h
  rw [overlapped, hs]
  rfl

end Sample

theorem current_copies_keep_writes_rain : (Sample.overlapped Sample.current).Intact :=
  current_copies_keep_writes .debug Sample.rainMem Sample.rainMem_distinct Sample.rainMem_counts
    Sample.current _ (by decide +kernel) (by decide +kernel) (by decide +kernel)
    (Sample.run_overlapped (by decide +kernel)) (by decide +kernel)

/-- The second bet puts back the outcomes as they were before the first, whose stake is then
missing from the volume. -/
theorem stale_copy_drops_stake :
    ¬∀ (build : Build) (m : Mem), m.DistinctIds → m.CountsBets →
      ∀ (as : List OverlapAct) (s : Overlap),
      Transition.Guarded (Overlap.step build) (fun s a => s.next MemCall.drawsFresh a = true)
        (Overlap.init m) as →
      Transition.run (Overlap.step build) (Overlap.init m) as = some s → s.Finished →
      s.Intact := by
  intro h
  have hintact : (Sample.overlapped Sample.crossing).Intact :=
    h .debug Sample.rainMem Sample.rainMem_distinct Sample.rainMem_counts Sample.crossing _
      (by decide +kernel) (Sample.run_overlapped (by decide +kernel)) (by decide +kernel)
  have hdropped : ¬∀ o ∈ (Sample.overlapped Sample.crossing).mem.outcomes,
      o.volume = saturate64 ((Sample.overlapped Sample.crossing).mem.stakedOn o.id) := by
    decide +kernel
  exact hdropped hintact.counts.volumes

end Betsphere
