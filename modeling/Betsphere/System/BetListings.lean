import Betsphere.Application.Enrich
import Betsphere.System.Retries
set_option autoImplicit false

namespace Betsphere
open MachineInt

def Db.Settled (db : Db) : Prop :=
  ∀ m ∈ db.markets.rows, (m.status = .resolved ↔ m.resolvedOutcomeId.isSome) ∧
    ∀ winner, m.resolvedOutcomeId = some winner → winner ∈ db.outcomeIds m.id

section Settled
variable {db db' : Db} {w : Write} {now : DateTime}

theorem Db.Settled.kept (h : db.Settled) (hg : Grows db db') {m m' : Market}
    (hm : m ∈ db.markets.rows) (hid : m'.id = m.id) (hstatus : m'.status = m.status)
    (hwinner : m'.resolvedOutcomeId = m.resolvedOutcomeId) :
    (m'.status = .resolved ↔ m'.resolvedOutcomeId.isSome) ∧
      ∀ winner, m'.resolvedOutcomeId = some winner → winner ∈ db'.outcomeIds m'.id := by
  obtain ⟨hiff, hown⟩ := h m hm
  have hmarket : db.HasMarket m.id := ⟨m, Table.find?_of_mem hm⟩
  rw [hstatus, hwinner, hid, hg.outcomes _ hmarket]
  exact ⟨hiff, hown⟩

theorem Write.Done.settled (hs : db.Settled) (hok : w.Ok db) (h : w.Done db now db') :
    db'.Settled := by
  have hg := h.grows hok
  intro m' hm'
  cases h with
  | create market outcomes at' hen =>
    obtain ⟨hopened, hnone, -⟩ := hok
    rcases Table.mem_upsert.mp hm' with rfl | ⟨hm, -⟩
    · simp [hopened, hnone]
    · exact hs.kept hg hm rfl rfl rfl
  | place bet priced points hen =>
    obtain ⟨m, hm, rfl⟩ := List.mem_map.mp hm'
    split
    · exact hs.kept hg hm rfl rfl rfl
    · exact hs.kept hg hm rfl rfl rfl
  | settle market settled hin =>
    obtain ⟨hmarket, hresolved, -, winner, hwinner, hset, -⟩ := hok
    obtain ⟨m, hm, rfl⟩ := List.mem_map.mp hm'
    split
    · rename_i hid
      refine ⟨by simp [hresolved, hset], fun winner' hw => ?_⟩
      have heq : winner = winner' := Option.some.inj (hset.symm.trans hw)
      rw [← heq, hid, hg.outcomes _ hmarket]
      exact hwinner
    · exact hs.kept hg hm rfl rfl rfl
  | save cause user hun => exact hs.kept hg hm' rfl rfl rfl

end Settled

inductive Enrichment where
  | idle
  | running (phase : Enrich.Phase)
  | answered (result : Except Enrich.Failure (List BetView))

structure Listing where
  sys : Sys
  enrichment : Enrichment

/-- `rows` is the order in which the SELECT meets the bets. -/
inductive ListingAct where
  | sys (a : Act)
  | list (rows : List Bet) (condition : Option ((Bet → Uuid) × Uuid)) (filter : BetFilter)
  | next (env : Env)

namespace Listing

def init : Listing := ⟨.init, .idle⟩

def step (build : Build) (s : Listing) : ListingAct → Option Listing
  | .sys a => (s.sys.step build a).map fun sys => { s with sys }
  | .list rows condition filter =>
    match s.enrichment with
    | .running _ => none
    | _ =>
      if rows.Perm s.sys.db.bets.rows then
        match PgBetRepository.list rows condition filter with
        | .error _ => none
        | .ok bets => some { s with enrichment := .running (.markets bets) }
      else none
  | .next env =>
    match s.enrichment with
    | .running phase =>
      match Enrich.advance env s.sys.db s.sys.cache phase with
      | (cache, .goto phase) => some ⟨{ s.sys with cache }, .running phase⟩
      | (cache, .answer result) => some ⟨{ s.sys with cache }, .answered result⟩
    | _ => none

end Listing

def Db.Linked (db : Db) (b : Bet) : Prop :=
  db.HasUser b.userId ∧ db.HasMarket b.marketId ∧ b.outcomeId ∈ db.outcomeIds b.marketId

theorem Db.Linked.mono {db db' : Db} {b : Bet} (hg : Grows db db') (h : db.Linked b) :
    db'.Linked b := by
  obtain ⟨hu, hm, ho⟩ := h
  exact ⟨hg.users _ hu, hg.markets _ hm, by rw [hg.outcomes _ hm]; exact ho⟩

theorem Db.Wf.linked {db : Db} (h : db.Wf) : ∀ b ∈ db.bets.rows, db.Linked b :=
  fun b hb => ⟨h.betUser b hb, h.betMarket b hb, h.betOutcome b hb⟩

namespace Enrich

def Phase.bets : Phase → List Bet
  | .markets bets => bets
  | .outcomes bets _ => bets
  | .positions bets _ _ => bets
  | .users bets .. => bets

def Found (bets : List Bet) (markets : List Market) (outcomes : List Outcome) : Prop :=
  ∀ b ∈ bets, (∃ m ∈ markets, m.id = b.marketId) ∧ ∃ o ∈ outcomes, o.id = b.outcomeId

def Named (bets : List Bet) (usernames : List (UserId × Username)) (rest : List UserId) : Prop :=
  ∀ b ∈ bets, (∃ entry ∈ usernames, entry.1 = b.userId) ∨ b.userId ∈ rest

def Phase.Collected (db : Db) : Phase → Prop
  | .markets _ => True
  | .outcomes bets ms => ∀ b ∈ bets, ∃ m ∈ ms, m.id = b.marketId
  | .positions bets ms os => Found bets ms os
  | .users bets ms os _ usernames userId rest _ =>
    Found bets ms os ∧ Named bets usernames (userId :: rest) ∧
      ∀ id ∈ userId :: rest, db.HasUser id

structure Phase.Wf (db : Db) (phase : Phase) : Prop where
  linked : ∀ b ∈ phase.bets, db.Linked b
  collected : phase.Collected db

theorem Phase.Wf.mono {db db' : Db} {phase : Phase} (hg : Grows db db') (h : phase.Wf db) :
    phase.Wf db' := by
  refine ⟨fun b hb => (h.linked b hb).mono hg, ?_⟩
  have hcollected := h.collected
  cases phase with
  | users bets markets outcomes positions usernames userId rest lookup =>
    exact ⟨hcollected.1, hcollected.2.1, fun id hid => hg.users id (hcollected.2.2 id hid)⟩
  | _ => exact hcollected

def Step.Wf (db : Db) : Step → Prop
  | .goto phase => phase.Wf db
  | .answer result => ∃ views, result = .ok views

theorem mapM_ok {α β ε : Type} {f : α → Except ε β} {xs : List α}
    (h : ∀ x ∈ xs, ∃ y, f x = .ok y) : ∃ ys, xs.mapM f = .ok ys := by
  induction xs with
  | nil => exact ⟨[], rfl⟩
  | cons x xs ih =>
    obtain ⟨y, hy⟩ := h x List.mem_cons_self
    obtain ⟨ys, hys⟩ := ih fun z hz => h z (List.mem_cons_of_mem x hz)
    exact ⟨y :: ys, by rw [List.mapM_cons, hy, hys]; rfl⟩

theorem find?_some {α : Type} {p : α → Bool} {xs : List α} (h : ∃ x ∈ xs, p x = true) :
    ∃ x, xs.find? p = some x :=
  Option.isSome_iff_exists.mp (List.find?_isSome.mpr h)

section Steps
variable {db : Db} {bets : List Bet} {markets : List Market} {outcomes : List Outcome}
  {positions : List ActivePosition} {usernames : List (UserId × Username)} {rest : List UserId}

theorem viewOf_ok {bet : Bet} (hm : ∃ m ∈ markets, m.id = bet.marketId)
    (ho : ∃ o ∈ outcomes, o.id = bet.outcomeId) (hn : ∃ entry ∈ usernames, entry.1 = bet.userId) :
    ∃ view, viewOf markets outcomes positions usernames bet = .ok view := by
  obtain ⟨market, hmarket⟩ : ∃ m, markets.find? (fun m => m.id = bet.marketId) = some m :=
    find?_some (by simpa using hm)
  obtain ⟨outcome, houtcome⟩ : ∃ o, outcomes.find? (fun o => o.id = bet.outcomeId) = some o :=
    find?_some (by simpa using ho)
  obtain ⟨entry, hentry⟩ : ∃ e, usernames.find? (fun e => e.1 = bet.userId) = some e :=
    find?_some (by simpa using hn)
  exact ⟨_, by simp only [viewOf, hmarket, houtcome, hentry]; rfl⟩

theorem nextUser_wf (hlinked : ∀ b ∈ bets, db.Linked b) (hfound : Found bets markets outcomes)
    (hnamed : Named bets usernames rest) (hrest : ∀ id ∈ rest, db.HasUser id) :
    (nextUser bets markets outcomes positions usernames rest).Wf db := by
  induction rest with
  | nil =>
    refine mapM_ok fun b hb => ?_
    have hname : ∃ entry ∈ usernames, entry.1 = b.userId := by simpa using hnamed b hb
    exact viewOf_ok (hfound b hb).1 (hfound b hb).2 hname
  | cons userId rest ih =>
    simp only [nextUser]
    split
    · rename_i hknown
      refine ih (fun b hb => ?_) fun id hid => hrest id (List.mem_cons_of_mem userId hid)
      rcases hnamed b hb with hname | hmem
      · exact .inl hname
      · rcases List.mem_cons.mp hmem with heq | hmem
        · obtain ⟨entry, hentry, hid⟩ := List.any_eq_true.mp hknown
          exact .inl ⟨entry, hentry, by rw [heq]; simpa using hid⟩
        · exact .inr hmem
    · exact ⟨hlinked, hfound, hnamed, hrest⟩

theorem activePositions_ok (db : Db) (pairs : List (UserId × OutcomeId)) :
    ∃ positions, PgBetRepository.activePositions db pairs = .ok positions := by
  refine mapM_ok fun position hposition => ?_
  obtain ⟨pair, -, hpair⟩ := List.mem_filterMap.mp hposition
  obtain ⟨average, haverage, rfl⟩ := Option.map_eq_some_iff.mp hpair
  have hprice := Price.fromTenThousandths_of_inRange (averagePrice_inRange haverage)
  exact ⟨_, by simp only [id, hprice]; rfl⟩

theorem lookup_found {env : Env} {cache cache' : Cache} {userId : UserId} {lookup : Lookup}
    (h : db.HasUser userId) : lookup.advance userId env db cache ≠ (cache', .inr none) := by
  obtain ⟨user, huser⟩ := h
  cases lookup with
  | get =>
    simp only [Lookup.advance]
    split <;> simp
  | load => simp [Lookup.advance, huser]
  | put found => simp [Lookup.advance]

theorem advance_wf {env : Env} {cache cache' : Cache} {phase : Phase} {step : Step}
    (hwf : phase.Wf db) (h : advance env db cache phase = (cache', step)) : step.Wf db := by
  have hlinked := hwf.linked
  have hcollected := hwf.collected
  cases phase with
  | markets bets =>
    cases h
    refine ⟨hlinked, fun b hb => ?_⟩
    obtain ⟨m, hm⟩ := (hlinked b hb).2.1
    have hid := Table.find?_key hm
    refine ⟨m, List.mem_filter.mpr ⟨Table.find?_mem hm, ?_⟩, hid⟩
    simp only [decide_eq_true_eq, List.mem_map]
    exact ⟨b, hb, hid.symm⟩
  | outcomes bets markets =>
    cases h
    refine ⟨hlinked, fun b hb => ⟨hcollected b hb, ?_⟩⟩
    obtain ⟨o, ho, hid⟩ := List.mem_map.mp (hlinked b hb).2.2
    obtain ⟨hrow, hmarket⟩ := Db.mem_outcomesFor.mp ho
    refine ⟨o, List.mem_filter.mpr ⟨hrow, ?_⟩, hid⟩
    simp only [decide_eq_true_eq, List.mem_map]
    exact ⟨b, hb, hmarket.symm⟩
  | positions bets markets outcomes =>
    obtain ⟨positions, hpositions⟩ := activePositions_ok db
      (bets.map fun b => (b.userId, b.outcomeId))
    simp only [advance, hpositions, Prod.mk.injEq] at h
    obtain ⟨-, rfl⟩ := h
    refine nextUser_wf hlinked hcollected (fun b hb => .inr (List.mem_map_of_mem hb))
      fun id hid => ?_
    obtain ⟨b, hb, rfl⟩ := List.mem_map.mp hid
    exact (hlinked b hb).1
  | users bets markets outcomes positions usernames userId rest lookup =>
    obtain ⟨hfound, hnamed, husers⟩ := hcollected
    simp only [advance] at h
    split at h
    · cases h
      exact ⟨hlinked, hfound, hnamed, husers⟩
    · rename_i hlookup
      exact absurd hlookup (lookup_found (husers userId List.mem_cons_self))
    · cases h
      refine nextUser_wf hlinked hfound (fun b hb => ?_) fun id hid =>
        husers id (List.mem_cons_of_mem userId hid)
      rcases hnamed b hb with ⟨entry, hentry, hid⟩ | hmem
      · exact .inl ⟨entry, List.mem_cons_of_mem _ hentry, hid⟩
      · rcases List.mem_cons.mp hmem with heq | hmem
        · exact .inl ⟨_, List.mem_cons_self, heq.symm⟩
        · exact .inr hmem

end Steps

def lookupLeft : Lookup → Nat
  | .get => 3
  | .load => 2
  | .put _ => 1

theorem lookupLeft_pos (lookup : Lookup) : 0 < lookupLeft lookup := by
  cases lookup <;> exact Nat.succ_pos _

theorem lookup_left {env : Env} {db : Db} {cache cache' : Cache} {userId : UserId}
    {lookup lookup' : Lookup} (h : lookup.advance userId env db cache = (cache', .inl lookup')) :
    lookupLeft lookup' < lookupLeft lookup := by
  cases lookup with
  | get =>
    simp only [Lookup.advance] at h
    split at h <;> cases h
    decide
  | load =>
    simp only [Lookup.advance] at h
    split at h <;> cases h
    exact Nat.lt_succ_self 1
  | put found => cases h

def Phase.left : Phase → Nat
  | .markets bets => 3 * bets.length + 3
  | .outcomes bets _ => 3 * bets.length + 2
  | .positions bets _ _ => 3 * bets.length + 1
  | .users _ _ _ _ _ _ rest lookup => 3 * rest.length + lookupLeft lookup

theorem nextUser_left {bets : List Bet} {ms : List Market} {os : List Outcome}
    {positions : List ActivePosition} {usernames : List (UserId × Username)} {rest : List UserId}
    {phase : Phase} (h : nextUser bets ms os positions usernames rest = .goto phase) :
    phase.left ≤ 3 * rest.length := by
  induction rest with
  | nil => cases h
  | cons userId rest ih =>
    simp only [nextUser] at h
    rw [List.length_cons]
    split at h
    · have hle := ih h
      omega
    · cases h
      have hget : lookupLeft .get = 3 := rfl
      simp only [Phase.left, hget]
      omega

theorem advance_left {env : Env} {db : Db} {cache cache' : Cache} {phase phase' : Phase}
    (h : advance env db cache phase = (cache', .goto phase')) : phase'.left < phase.left := by
  cases phase with
  | markets bets =>
    cases h
    simp [Phase.left]
  | outcomes bets ms =>
    cases h
    simp [Phase.left]
  | positions bets ms os =>
    simp only [advance] at h
    split at h
    · cases h
    · simp only [Prod.mk.injEq] at h
      have hle := nextUser_left h.2
      rw [List.length_map] at hle
      exact Nat.lt_succ_of_le hle
  | users bets ms os positions usernames userId rest lookup =>
    have hpos := lookupLeft_pos lookup
    simp only [advance] at h
    split at h
    · rename_i hlookup
      cases h
      have hlt := lookup_left hlookup
      change 3 * rest.length + _ < 3 * rest.length + _
      omega
    · cases h
    · simp only [Prod.mk.injEq] at h
      have hle := nextUser_left h.2
      change _ < 3 * rest.length + lookupLeft lookup
      omega

end Enrich

namespace PgBetRepository

theorem mem_of_list {rows page : List Bet} {condition : Option ((Bet → Uuid) × Uuid)}
    {filter : BetFilter} (h : list rows condition filter = .ok page) {b : Bet} (hb : b ∈ page) :
    b ∈ rows := by
  unfold list at h
  split at h
  · cases h
  · split at h
    · cases h
    · cases h
      have hsorted := List.mem_of_mem_drop (List.mem_of_mem_take hb)
      exact List.mem_of_mem_filter ((List.mem_insertionSort _).mp hsorted)

end PgBetRepository

def Enrichment.Wf (db : Db) : Enrichment → Prop
  | .idle => True
  | .running phase => phase.Wf db
  | .answered result => ∃ views, result = .ok views

structure Listing.Wf (s : Listing) : Prop where
  sys : s.sys.Wf
  settled : s.sys.db.Settled
  enrichment : s.enrichment.Wf s.sys.db

section Runs
variable {build : Build} {s s' : Listing} {a : ListingAct}

theorem Listing.wf_init : Listing.init.Wf :=
  ⟨Sys.wf_init, by simp [Db.Settled, Listing.init, Sys.init, Db.empty], trivial⟩

theorem Enrichment.Wf.mono {db db' : Db} {enrichment : Enrichment} (hg : Grows db db')
    (h : enrichment.Wf db) : enrichment.Wf db' := by
  cases enrichment with
  | idle => trivial
  | running phase => exact Enrich.Phase.Wf.mono hg h
  | answered result => exact h

theorem Listing.step_next (build : Build) (env : Env) {phase : Enrich.Phase} (h : s.Wf)
    (hphase : s.enrichment = .running phase) :
    ∃ t, s.step build (.next env) = some t ∧ t.Wf ∧
      ((∃ views, t.enrichment = .answered (.ok views)) ∨
        ∃ phase', t.enrichment = .running phase' ∧ phase'.left < phase.left) := by
  have hwf : phase.Wf s.sys.db := by
    have hwf := h.enrichment
    rwa [hphase] at hwf
  have hsys : ∀ cache, ({ s.sys with cache } : Sys).Wf := fun cache => ⟨h.sys.db, h.sys.calls⟩
  rcases hadvance : Enrich.advance env s.sys.db s.sys.cache phase with ⟨cache, step⟩
  have hstep := Enrich.advance_wf hwf hadvance
  cases step with
  | goto phase' =>
    refine ⟨⟨{ s.sys with cache }, .running phase'⟩, ?_, ⟨hsys cache, h.settled, hstep⟩, ?_⟩
    · simp only [Listing.step, hphase, hadvance]
    · exact .inr ⟨phase', rfl, Enrich.advance_left hadvance⟩
  | answer result =>
    obtain ⟨views, rfl⟩ := hstep
    refine ⟨⟨{ s.sys with cache }, .answered (.ok views)⟩, ?_,
      ⟨hsys cache, h.settled, views, rfl⟩, ?_⟩
    · simp only [Listing.step, hphase, hadvance]
    · exact .inl ⟨views, rfl⟩

theorem Listing.step_wf (h : s.Wf) (hs : s.step build a = some s') : s'.Wf := by
  cases a with
  | sys a =>
    obtain ⟨sys, hsys, rfl⟩ := Option.map_eq_some_iff.mp hs
    have he := Sys.step_effect hsys
    rcases h.sys.tables he with ⟨hdb, -⟩ | ⟨w, now, hok, hdone, -⟩
    · exact ⟨h.sys.effect he, hdb ▸ h.settled, hdb ▸ h.enrichment⟩
    · exact ⟨h.sys.effect he, hdone.settled h.settled hok, h.enrichment.mono (hdone.grows hok)⟩
  | list rows condition filter =>
    simp only [Listing.step] at hs
    split at hs
    · cases hs
    · split at hs
      · rename_i hperm
        split at hs
        · cases hs
        · rename_i bets hlist
          cases hs
          refine ⟨h.sys, h.settled, fun b hb => ?_, trivial⟩
          exact h.sys.db.linked b (hperm.mem_iff.mp (PgBetRepository.mem_of_list hlist hb))
      · cases hs
  | next env =>
    cases hphase : s.enrichment with
    | running phase =>
      obtain ⟨t, ht, hwf, -⟩ := Listing.step_next build env h hphase
      rw [hs] at ht
      cases ht
      exact hwf
    | idle => simp [Listing.step, hphase] at hs
    | answered result => simp [Listing.step, hphase] at hs

theorem Listing.run_wf {as : List ListingAct}
    (h : Transition.run (Listing.step build) Listing.init as = some s) : s.Wf :=
  Transition.run_invariant' (fun _ _ _ => Listing.step_wf) Listing.wf_init h

/-- Left to itself an enrichment answers. -/
theorem Listing.answers (build : Build) (env : Env) {phase : Enrich.Phase} (h : s.Wf)
    (hphase : s.enrichment = .running phase) :
    ∃ n t views, Transition.run (Listing.step build) s (List.replicate n (.next env)) = some t ∧
      t.enrichment = .answered (.ok views) := by
  induction hleft : phase.left using Nat.strong_induction_on generalizing s phase with
  | _ left ih =>
    obtain ⟨t, hstep, hwf, hdone⟩ := Listing.step_next build env h hphase
    rcases hdone with ⟨views, hviews⟩ | ⟨phase', hphase', hlt⟩
    · exact ⟨1, t, views, by simp [Transition.run, hstep], hviews⟩
    · obtain ⟨n, u, views, hrun, hviews⟩ := ih phase'.left (hleft ▸ hlt) hwf hphase' rfl
      exact ⟨n + 1, u, views, by simp [List.replicate_succ, Transition.run, hstep, hrun], hviews⟩

end Runs

/-- In every reachable state the outcome of a bet is one of its market's, a market is
resolved exactly when it has a winner, which is one of its own outcomes, and a listing's
enrichment answers its views, whatever happens between its reads. -/
theorem bet_listings_join {build : Build} {as : List ListingAct} {s : Listing}
    (h : Transition.run (Listing.step build) Listing.init as = some s) :
    (∀ b ∈ s.sys.db.bets.rows, b.outcomeId ∈ s.sys.db.outcomeIds b.marketId) ∧
    (∀ m ∈ s.sys.db.markets.rows, (m.status = .resolved ↔ m.resolvedOutcomeId.isSome) ∧
      ∀ winner, m.resolvedOutcomeId = some winner → winner ∈ s.sys.db.outcomeIds m.id) ∧
    (∀ result, s.enrichment = .answered result → ∃ views, result = .ok views) ∧
    ∀ phase env, s.enrichment = .running phase → ∃ n t views,
      Transition.run (Listing.step build) s (List.replicate n (.next env)) = some t ∧
        t.enrichment = .answered (.ok views) := by
  have hwf := Listing.run_wf h
  refine ⟨hwf.sys.db.betOutcome, hwf.settled, fun result hresult => ?_, fun phase env hphase => ?_⟩
  · have hanswer := hwf.enrichment
    rwa [hresult] at hanswer
  · exact Listing.answers build env hwf hphase

namespace Sample

def listing : List ListingAct :=
  overlap.map .sys ++ [.list (state overlap).db.bets.rows none .default] ++
    List.replicate 3 (.next (env 4 0))

def joined : Listing :=
  (Transition.run (Listing.step .debug) Listing.init listing).getD Listing.init

end Sample

open Sample in
theorem bet_listings_join_overlap : ∃ phase n t views, joined.enrichment = .running phase ∧
    Transition.run (Listing.step .debug) joined (List.replicate n (.next (env 4 0))) = some t ∧
    t.enrichment = .answered (.ok views) := by
  have hrun : Transition.run (Listing.step .debug) Listing.init listing = some joined := by
    rfl
  obtain ⟨phase, hphase⟩ : ∃ phase, joined.enrichment = .running phase := ⟨_, rfl⟩
  obtain ⟨-, -, -, hanswers⟩ := bet_listings_join hrun
  obtain ⟨n, t, views, ht, hviews⟩ := hanswers phase (env 4 0) hphase
  exact ⟨phase, n, t, views, hphase, ht, hviews⟩

end Betsphere
