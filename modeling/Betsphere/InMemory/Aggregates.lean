import Betsphere.Domain.Entities
import Betsphere.Lib.Deferred
import Betsphere.Lib.Table
import Betsphere.Storage.ImageKeys
set_option autoImplicit false

/-!
What overlapping calls are to agree on, away from how the stores write it: the stakes that
were entered, the aggregates kept beside them and the thumbnails. Here every change is
relative to what is stored.
-/

namespace Betsphere
open MachineInt Deferred

structure Stake where
  id : BetId
  userId : UserId
  marketId : MarketId
  outcomeId : OutcomeId
  amount : Int
  amountPositive : 0 < amount

structure MarketTally where
  id : MarketId
  thumbnailUrl : Option Text
  totalVolume : Int
  participantsCount : Int

structure OutcomeTally where
  id : OutcomeId
  thumbnailUrl : Option Text
  volume : Int

structure Aggregates where
  markets : List MarketTally
  outcomes : List OutcomeTally
  stakes : List Stake

/-- The thumbnails written so far, the last one first. -/
abbrev Postings := List (ImageOwner × Option Text)

def lastPosted (log : Postings) (owner : ImageOwner) : Option (Option Text) :=
  (log.find? fun posting => posting.1 = owner).map Prod.snd

/-- What a party that has entered a stake still has to add to the aggregates. -/
inductive Debt where
  | clear
  | unrecorded (stake : Stake) (joins : Bool)
  | unbacked (stake : Stake)

def Stake.inMarket (id : MarketId) (s : Stake) : Int := if s.marketId = id then s.amount else 0
def Stake.onOutcome (id : OutcomeId) (s : Stake) : Int := if s.outcomeId = id then s.amount else 0

namespace Debt

def total (id : MarketId) : Debt → Int
  | unrecorded stake _ => stake.inMarket id
  | _ => 0

def joins (id : MarketId) : Debt → Int
  | unrecorded stake true => if stake.marketId = id then 1 else 0
  | _ => 0

def volume (id : OutcomeId) : Debt → Int
  | clear => 0
  | unrecorded stake _ => stake.onOutcome id
  | unbacked stake => stake.onOutcome id

end Debt

namespace Aggregates

def staked (a : Aggregates) (id : MarketId) : Int := (a.stakes.map (Stake.inMarket id)).sum
def backed (a : Aggregates) (id : OutcomeId) : Int := (a.stakes.map (Stake.onOutcome id)).sum

def bettors (a : Aggregates) (id : MarketId) : Finset UserId :=
  ((a.stakes.filter fun s => s.marketId = id).map Stake.userId).toFinset

def enter (a : Aggregates) (s : Stake) : Aggregates := { a with stakes := a.stakes ++ [s] }

def record (a : Aggregates) (s : Stake) (joins : Bool) : Aggregates :=
  { a with markets := a.markets.map fun r =>
      if r.id = s.marketId then
        { r with
          totalVolume := saturatingAdd r.totalVolume s.amount
          participantsCount := r.participantsCount + if joins then 1 else 0 }
      else r }

def back (a : Aggregates) (s : Stake) : Aggregates :=
  { a with outcomes := a.outcomes.map fun o =>
      if o.id = s.outcomeId then { o with volume := saturatingAdd o.volume s.amount } else o }

def post (a : Aggregates) (owner : ImageOwner) (url : Option Text) : Aggregates :=
  { a with
    markets := a.markets.map fun r =>
      if owner = .market r.id then { r with thumbnailUrl := url } else r
    outcomes := a.outcomes.map fun o =>
      if owner = .outcome o.id then { o with thumbnailUrl := url } else o }

/-- One party moves: it enters a stake, pays a part of its debt or posts a thumbnail. -/
inductive Moves (a : Aggregates) (log : Postings) :
    Debt → Aggregates → Debt → Postings → Prop where
  | idle : Moves a log .clear a .clear log
  | enter (s : Stake) (joins : Bool) (fresh : s.id ∉ a.stakes.map Stake.id)
      (first : joins = true ↔ s.userId ∉ a.bettors s.marketId) :
      Moves a log .clear (a.enter s) (.unrecorded s joins) log
  | record (s : Stake) (joins : Bool) :
      Moves a log (.unrecorded s joins) (a.record s joins) (.unbacked s) log
  | back (s : Stake) : Moves a log (.unbacked s) (a.back s) .clear log
  | post (owner : ImageOwner) (url : Option Text) :
      Moves a log .clear (a.post owner url) .clear ((owner, url) :: log)

structure Distinct (a : Aggregates) : Prop where
  markets : (a.markets.map MarketTally.id).Nodup
  outcomes : (a.outcomes.map OutcomeTally.id).Nodup
  stakes : (a.stakes.map Stake.id).Nodup

/-- Every thumbnail is the last one posted; every aggregate accounts for every stake, those
still owed to it included. -/
structure Kept (a : Aggregates) (debts : List Debt) (log : Postings) : Prop where
  marketThumbnails : ∀ r ∈ a.markets, lastPosted log (.market r.id) = some r.thumbnailUrl
  outcomeThumbnails : ∀ o ∈ a.outcomes, lastPosted log (.outcome o.id) = some o.thumbnailUrl
  totals : ∀ r ∈ a.markets, Saturated (Debt.total r.id) debts r.totalVolume (a.staked r.id)
  participants : ∀ r ∈ a.markets,
    Balanced (Debt.joins r.id) debts r.participantsCount ((a.bettors r.id).card : Int)
  volumes : ∀ o ∈ a.outcomes, Saturated (Debt.volume o.id) debts o.volume (a.backed o.id)

end Aggregates

theorem lastPosted_cons (log : Postings) (owner owner' : ImageOwner) (url : Option Text) :
    lastPosted ((owner, url) :: log) owner' =
      if owner = owner' then some url else lastPosted log owner' := by
  unfold lastPosted
  by_cases h : owner = owner' <;> simp [h]

namespace Aggregates
variable {a a' : Aggregates} {d d' : Debt} {debts : List Debt} {log log' : Postings} {i : Nat}
  {s : Stake} {joins : Bool}

theorem staked_enter (a : Aggregates) (s : Stake) (id : MarketId) :
    (a.enter s).staked id = a.staked id + s.inMarket id := by simp [staked, enter]

theorem backed_enter (a : Aggregates) (s : Stake) (id : OutcomeId) :
    (a.enter s).backed id = a.backed id + s.onOutcome id := by simp [backed, enter]

theorem card_bettors_enter (hfirst : joins = true ↔ s.userId ∉ a.bettors s.marketId)
    (id : MarketId) :
    (((a.enter s).bettors id).card : Int) =
      (a.bettors id).card + (Debt.unrecorded s joins).joins id := by
  by_cases hid : s.marketId = id
  · subst hid
    have hinsert : (a.enter s).bettors s.marketId = insert s.userId (a.bettors s.marketId) := by
      ext u
      simp [bettors, enter]
    rw [hinsert]
    cases joins with
    | false =>
      have hmem : s.userId ∈ a.bettors s.marketId := by simpa using hfirst
      simp [Debt.joins, Finset.insert_eq_self.mpr hmem]
    | true =>
      have hnew : s.userId ∉ a.bettors s.marketId := hfirst.mp rfl
      simp [Debt.joins, Finset.card_insert_of_notMem hnew]
  · have hsame : (a.enter s).bettors id = a.bettors id := by simp [bettors, enter, hid]
    cases joins <;> simp [hsame, Debt.joins, hid]

theorem Kept.enter (h : a.Kept debts log) (hd : debts[i]? = some .clear)
    (hfirst : joins = true ↔ s.userId ∉ a.bettors s.marketId) :
    (a.enter s).Kept (debts.set i (.unrecorded s joins)) log where
  marketThumbnails := h.marketThumbnails
  outcomeThumbnails := h.outcomeThumbnails
  totals r hr := by
    rw [staked_enter]
    exact (h.totals r hr).enter hd (by simp only [Debt.total]; omega)
  participants r hr := by
    rw [card_bettors_enter hfirst]
    exact (h.participants r hr).step hd (by simp only [Debt.joins]; omega)
  volumes o ho := by
    rw [backed_enter]
    exact (h.volumes o ho).enter hd (by simp only [Debt.volume]; omega)

theorem Kept.record (h : a.Kept debts log) (hd : debts[i]? = some (.unrecorded s joins)) :
    (a.record s joins).Kept (debts.set i (.unbacked s)) log := by
  have hstep : ∀ r' ∈ (a.record s joins).markets, ∃ r ∈ a.markets, r'.id = r.id ∧
      r'.thumbnailUrl = r.thumbnailUrl ∧
      Saturated (Debt.total r.id) (debts.set i (.unbacked s)) r'.totalVolume (a.staked r.id) ∧
      Balanced (Debt.joins r.id) (debts.set i (.unbacked s)) r'.participantsCount
        ((a.bettors r.id).card : Int) := by
    intro r' hr'
    obtain ⟨r, hr, rfl⟩ := List.mem_map.mp hr'
    refine ⟨r, hr, ?_⟩
    have htotal := h.totals r hr
    have hcount := h.participants r hr
    by_cases hid : r.id = s.marketId
    · simp only [hid, if_true] at htotal hcount ⊢
      refine ⟨trivial, trivial, ?_, ?_⟩
      · exact htotal.record hd s.amountPositive.le (by simp [Debt.total, Stake.inMarket])
      · exact hcount.step hd (by cases joins <;> simp [Debt.joins])
    · have hne : ¬s.marketId = r.id := fun heq => hid heq.symm
      simp only [hid, if_false]
      refine ⟨trivial, trivial, ?_, ?_⟩
      · exact htotal.enter hd (by simp [Debt.total, Stake.inMarket, hne])
      · exact hcount.step hd (by cases joins <;> simp [Debt.joins, hne])
  refine ⟨?_, h.outcomeThumbnails, ?_, ?_, ?_⟩
  · intro r' hr'
    obtain ⟨r, hr, hid, hurl, -⟩ := hstep r' hr'
    rw [hid, hurl]
    exact h.marketThumbnails r hr
  · intro r' hr'
    obtain ⟨r, -, hid, -, htotal, -⟩ := hstep r' hr'
    rw [hid]
    exact htotal
  · intro r' hr'
    obtain ⟨r, -, hid, -, -, hcount⟩ := hstep r' hr'
    rw [hid]
    exact hcount
  · intro o ho
    exact (h.volumes o ho).enter hd rfl

theorem Kept.back (h : a.Kept debts log) (hd : debts[i]? = some (.unbacked s)) :
    (a.back s).Kept (debts.set i .clear) log := by
  have hstep : ∀ o' ∈ (a.back s).outcomes, ∃ o ∈ a.outcomes, o'.id = o.id ∧
      o'.thumbnailUrl = o.thumbnailUrl ∧
      Saturated (Debt.volume o.id) (debts.set i .clear) o'.volume (a.backed o.id) := by
    intro o' ho'
    obtain ⟨o, ho, rfl⟩ := List.mem_map.mp ho'
    refine ⟨o, ho, ?_⟩
    have hvolume := h.volumes o ho
    by_cases hid : o.id = s.outcomeId
    · simp only [hid, if_true] at hvolume ⊢
      refine ⟨trivial, trivial, ?_⟩
      exact hvolume.record hd s.amountPositive.le (by simp [Debt.volume, Stake.onOutcome])
    · have hne : ¬s.outcomeId = o.id := fun heq => hid heq.symm
      simp only [hid, if_false]
      refine ⟨trivial, trivial, ?_⟩
      exact hvolume.enter hd (by simp [Debt.volume, Stake.onOutcome, hne])
  refine ⟨h.marketThumbnails, ?_, ?_, ?_, ?_⟩
  · intro o' ho'
    obtain ⟨o, ho, hid, hurl, -⟩ := hstep o' ho'
    rw [hid, hurl]
    exact h.outcomeThumbnails o ho
  · intro r hr
    exact (h.totals r hr).enter hd rfl
  · intro r hr
    exact (h.participants r hr).step hd rfl
  · intro o' ho'
    obtain ⟨o, -, hid, -, hvolume⟩ := hstep o' ho'
    rw [hid]
    exact hvolume

theorem Kept.post (h : a.Kept debts log) (hd : debts[i]? = some .clear) (owner : ImageOwner)
    (url : Option Text) :
    (a.post owner url).Kept (debts.set i .clear) ((owner, url) :: log) := by
  have hmarket : ∀ r' ∈ (a.post owner url).markets, ∃ r ∈ a.markets, r'.id = r.id ∧
      r'.thumbnailUrl = (if owner = .market r.id then url else r.thumbnailUrl) ∧
      r'.totalVolume = r.totalVolume ∧ r'.participantsCount = r.participantsCount := by
    intro r' hr'
    obtain ⟨r, hr, rfl⟩ := List.mem_map.mp hr'
    refine ⟨r, hr, ?_⟩
    split <;> exact ⟨rfl, rfl, rfl, rfl⟩
  have houtcome : ∀ o' ∈ (a.post owner url).outcomes, ∃ o ∈ a.outcomes, o'.id = o.id ∧
      o'.thumbnailUrl = (if owner = .outcome o.id then url else o.thumbnailUrl) ∧
      o'.volume = o.volume := by
    intro o' ho'
    obtain ⟨o, ho, rfl⟩ := List.mem_map.mp ho'
    refine ⟨o, ho, ?_⟩
    split <;> exact ⟨rfl, rfl, rfl⟩
  refine ⟨?_, ?_, ?_, ?_, ?_⟩
  · intro r' hr'
    obtain ⟨r, hr, hid, hurl, -, -⟩ := hmarket r' hr'
    rw [hid, hurl, lastPosted_cons, h.marketThumbnails r hr]
    split <;> rfl
  · intro o' ho'
    obtain ⟨o, ho, hid, hurl, -⟩ := houtcome o' ho'
    rw [hid, hurl, lastPosted_cons, h.outcomeThumbnails o ho]
    split <;> rfl
  · intro r' hr'
    obtain ⟨r, hr, hid, -, htotal, -⟩ := hmarket r' hr'
    rw [hid, htotal]
    exact (h.totals r hr).enter hd rfl
  · intro r' hr'
    obtain ⟨r, hr, hid, -, -, hcount⟩ := hmarket r' hr'
    rw [hid, hcount]
    exact (h.participants r hr).step hd rfl
  · intro o' ho'
    obtain ⟨o, ho, hid, -, hvolume⟩ := houtcome o' ho'
    rw [hid, hvolume]
    exact (h.volumes o ho).enter hd rfl

/-- Whatever a party does, the aggregates and the thumbnails stay accounted for. -/
theorem Kept.moves (h : a.Kept debts log) (hd : debts[i]? = some d)
    (hmoves : a.Moves log d a' d' log') : a'.Kept (debts.set i d') log' := by
  cases hmoves with
  | idle =>
    obtain ⟨hlt, hget⟩ := List.getElem?_eq_some_iff.mp hd
    rw [← hget, List.set_getElem_self hlt]
    exact h
  | enter s joins fresh first => exact h.enter hd first
  | record s joins => exact h.record hd
  | back s => exact h.back hd
  | post owner url => exact h.post hd owner url

theorem sum_stakes_nonneg {f : Stake → Int} (hf : ∀ s, 0 ≤ f s) (stakes : List Stake) :
    0 ≤ (stakes.map f).sum := by
  refine List.sum_nonneg fun x hx => ?_
  obtain ⟨s, -, rfl⟩ := List.mem_map.mp hx
  exact hf s

theorem staked_nonneg (a : Aggregates) (id : MarketId) : 0 ≤ a.staked id := by
  refine sum_stakes_nonneg (fun s => ?_) _
  have := s.amountPositive
  unfold Stake.inMarket
  split <;> omega

theorem backed_nonneg (a : Aggregates) (id : OutcomeId) : 0 ≤ a.backed id := by
  refine sum_stakes_nonneg (fun s => ?_) _
  have := s.amountPositive
  unfold Stake.onOutcome
  split <;> omega

theorem Kept.start (hmarkets : ∀ r ∈ a.markets, lastPosted log (.market r.id) = some r.thumbnailUrl)
    (houtcomes : ∀ o ∈ a.outcomes, lastPosted log (.outcome o.id) = some o.thumbnailUrl)
    (htotals : ∀ r ∈ a.markets, r.totalVolume = saturate64 (a.staked r.id) ∧
      r.participantsCount = ((a.bettors r.id).card : Int))
    (hvolumes : ∀ o ∈ a.outcomes, o.volume = saturate64 (a.backed o.id)) : a.Kept [] log where
  marketThumbnails := hmarkets
  outcomeThumbnails := houtcomes
  totals r hr := by
    rw [(htotals r hr).1]
    exact .start _ (a.staked_nonneg r.id)
  participants r hr := by
    rw [(htotals r hr).2]
    exact .start _ _
  volumes o ho := by
    rw [hvolumes o ho]
    exact .start _ (a.backed_nonneg o.id)

theorem Kept.join (h : a.Kept debts log) : a.Kept (debts ++ [.clear]) log where
  marketThumbnails := h.marketThumbnails
  outcomeThumbnails := h.outcomeThumbnails
  totals r hr := (h.totals r hr).append rfl
  participants r hr := (h.participants r hr).append rfl
  volumes o ho := (h.volumes o ho).append rfl

theorem map_ids {α κ : Type} {key : α → κ} {f : α → α} (hf : ∀ x, key (f x) = key x)
    (l : List α) : (l.map f).map key = l.map key := by
  rw [List.map_map]
  exact List.map_congr_left fun x _ => hf x

theorem Distinct.moves (h : a.Distinct) (hmoves : a.Moves log d a' d' log') : a'.Distinct := by
  cases hmoves with
  | idle => exact h
  | enter s joins fresh first =>
    exact ⟨h.markets, h.outcomes, Table.nodup_append h.stakes fresh⟩
  | record s joins =>
    refine ⟨?_, h.outcomes, h.stakes⟩
    rw [record, map_ids fun r => by split <;> rfl]
    exact h.markets
  | back s =>
    refine ⟨h.markets, ?_, h.stakes⟩
    rw [back, map_ids fun o => by split <;> rfl]
    exact h.outcomes
  | post owner url =>
    refine ⟨?_, ?_, h.stakes⟩
    · rw [post, map_ids fun r => by split <;> rfl]
      exact h.markets
    · rw [post, map_ids fun o => by split <;> rfl]
      exact h.outcomes

theorem Kept.settled (h : a.Kept debts log) (hclear : ∀ d ∈ debts, d = .clear) :
    (∀ r ∈ a.markets, r.totalVolume = saturate64 (a.staked r.id) ∧
      r.participantsCount = ((a.bettors r.id).card : Int)) ∧
    ∀ o ∈ a.outcomes, o.volume = saturate64 (a.backed o.id) := by
  have htotal : ∀ id, ∀ d ∈ debts, Debt.total id d = 0 := fun id d hd => by
    rw [hclear d hd]
    rfl
  have hjoins : ∀ id, ∀ d ∈ debts, Debt.joins id d = 0 := fun id d hd => by
    rw [hclear d hd]
    rfl
  have hvolume : ∀ id, ∀ d ∈ debts, Debt.volume id d = 0 := fun id d hd => by
    rw [hclear d hd]
    rfl
  refine ⟨fun r hr => ⟨?_, ?_⟩, fun o ho => ?_⟩
  · exact (h.totals r hr).settled (htotal r.id)
  · exact (h.participants r hr).settled (hjoins r.id)
  · exact (h.volumes o ho).settled (hvolume o.id)

end Aggregates

end Betsphere
