import Betsphere.Lib.Latest
import Betsphere.System.Prices
set_option autoImplicit false

namespace Betsphere
open MachineInt Pricing Latest

def Db.chart (db : Db) (id : OutcomeId) : List PricePoint :=
  db.priceHistory.filter fun p => p.outcomeId = id

/-- Every outcome has a latest point, and its latest points show its stored price. -/
def Db.ChartCurrent (db : Db) : Prop :=
  ∀ o ∈ db.outcomes.rows,
    EndsAt PricePoint.recordedAt PricePoint.price (db.chart o.id) o.currentPrice

instance (db : Db) : Decidable db.ChartCurrent :=
  inferInstanceAs (Decidable (∀ o ∈ db.outcomes.rows,
    EndsAt PricePoint.recordedAt PricePoint.price (db.chart o.id) o.currentPrice))

def Db.ChartKnown (db : Db) : Prop :=
  ∀ p ∈ db.priceHistory, p.outcomeId ∈ db.outcomes.rows.map Outcome.id

theorem chart_nil_of_unknown {db : Db} (h : db.ChartKnown) {id : OutcomeId}
    (hid : db.outcomeById id = none) : db.chart id = [] := by
  refine List.filter_eq_nil_iff.mpr fun p hp hpid => ?_
  obtain ⟨o, ho⟩ := Table.mem_keys_iff.mp (h p hp)
  have heq : p.outcomeId = id := by simpa using hpid
  rw [heq] at ho
  simp [Db.outcomeById, ho] at hid

theorem points_for {outcomes : List Outcome} (hnd : (outcomes.map Outcome.id).Nodup)
    (at' : DateTime) (id : OutcomeId) :
    ((outcomes.map fun o => (⟨o.id, o.currentPrice, at'⟩ : PricePoint)).filter
      fun p => p.outcomeId = id) =
      ((outcomes.find? fun o => o.id = id).map
        fun o => (⟨o.id, o.currentPrice, at'⟩ : PricePoint)).toList := by
  have hcomp : (fun p : PricePoint => decide (p.outcomeId = id)) ∘
      (fun o : Outcome => (⟨o.id, o.currentPrice, at'⟩ : PricePoint)) =
      fun o => decide (o.id = id) := rfl
  rw [List.filter_map, hcomp, Table.filter_key hnd]
  cases outcomes.find? fun o => o.id = id <;> rfl

def Write.points : Write → List PricePoint
  | .place _ _ points => points
  | _ => []

/-- Each point of a placement is stamped later than all the points of its outcome, or
repeats the price on the board. -/
def Write.InStampOrder (db : Db) (w : Write) : Prop :=
  ∀ point ∈ w.points, (∀ p ∈ db.chart point.outcomeId, p.recordedAt < point.recordedAt) ∨
    ∀ o ∈ db.outcomes.rows, o.id = point.outcomeId → o.currentPrice = point.price

instance (db : Db) (w : Write) : Decidable (w.InStampOrder db) :=
  inferInstanceAs (Decidable (∀ point ∈ w.points,
    (∀ p ∈ db.chart point.outcomeId, p.recordedAt < point.recordedAt) ∨
      ∀ o ∈ db.outcomes.rows, o.id = point.outcomeId → o.currentPrice = point.price))

/-- The points of a placement are its prices at one reading of the clock. -/
def Write.Stamped : Write → Prop
  | .place _ priced points =>
    ∃ at' : DateTime, points = priced.map fun o => ⟨o.id, o.currentPrice, at'⟩
  | _ => True

section Transactions
variable {db db' : Db} {w : Write} {now : DateTime}

theorem ChartKnown.done (hknown : db.ChartKnown) (hok : w.Ok db) (h : w.Done db now db') :
    db'.ChartKnown := by
  intro p hp
  cases h with
  | create market outcomes at' hen =>
    rw [(rows_created hen).1, List.map_append, List.mem_append]
    rcases List.mem_append.mp hp with hp | hp
    · exact .inl (hknown p hp)
    · obtain ⟨o, ho, rfl⟩ := List.mem_map.mp hp
      exact .inr (List.mem_map_of_mem ho)
  | place bet priced points hen =>
    have hids : (db.placed bet priced points now).outcomes.rows.map Outcome.id =
        db.outcomes.rows.map Outcome.id := by
      simp only [Db.placed, Db.repriceAll, Table.rows_mapRows, List.map_map]
      exact List.map_congr_left fun o _ => repriced_id bet priced o
    rw [hids]
    rcases List.mem_append.mp hp with hp | hp
    · exact hknown p hp
    · exact Table.mem_keys_iff.mpr (Option.isSome_iff_exists.mp (hen.charted p hp))
  | settle market settled hin => exact hknown p hp
  | save cause user hun => exact hknown p hp

theorem chart_created (market : Market) (outcomes : List Outcome) (at' : DateTime)
    (hnd : (outcomes.map Outcome.id).Nodup) (id : OutcomeId) :
    (db.created market outcomes at').chart id = db.chart id ++
      ((outcomes.find? fun o => o.id = id).map fun o => ⟨o.id, o.currentPrice, at'⟩).toList := by
  rw [← points_for hnd at' id]
  exact List.filter_append ..

theorem chart_placed (bet : Bet) {priced : List Outcome} (at' : DateTime)
    (hnd : (priced.map Outcome.id).Nodup) (id : OutcomeId) :
    (db.placed bet priced (priced.map fun o => ⟨o.id, o.currentPrice, at'⟩) now).chart id =
      db.chart id ++
        ((priced.find? fun o => o.id = id).map fun o => ⟨o.id, o.currentPrice, at'⟩).toList := by
  rw [← points_for hnd at' id]
  exact List.filter_append ..

theorem chartCurrent_created {market : Market} {outcomes : List Outcome} {at' : DateTime}
    (hen : CreateEnabled db market outcomes) (hknown : db.ChartKnown) (h : db.ChartCurrent) :
    (db.created market outcomes at').ChartCurrent := by
  intro o ho
  rw [chart_created market outcomes at' hen.distinct]
  rw [(rows_created hen).1, List.mem_append] at ho
  rcases ho with ho | ho
  · have hnone : (outcomes.find? fun p => p.id = o.id) = none := by
      rw [List.find?_eq_none]
      intro p hp hpo
      have hpid : p.id = o.id := by simpa using hpo
      have hfresh := hen.freshOutcomes p hp
      rw [hpid, Db.outcomeById, Table.find?_of_mem ho] at hfresh
      simp at hfresh
    simpa [hnone] using h o ho
  · rw [find?_of_nodup hen.distinct ho, chart_nil_of_unknown hknown (hen.freshOutcomes o ho)]
    exact endsAt_singleton

/-- A placement leaves the charts current just when it commits in the order of the stamps. -/
theorem chartCurrent_placed_iff {bet : Bet} {priced : List Outcome} {points : List PricePoint}
    (hok : (Write.place bet priced points).Ok db) (hst : (Write.place bet priced points).Stamped)
    (h : db.ChartCurrent) :
    (db.placed bet priced points now).ChartCurrent ↔
      (Write.place bet priced points).InStampOrder db := by
  obtain ⟨at', rfl⟩ := hst
  have hnd : (priced.map Outcome.id).Nodup := by
    rw [hok.2.1]
    exact db.outcomeIds_nodup bet.marketId
  have hrow : ∀ p ∈ priced, ∃ o ∈ db.outcomes.rows, o.id = p.id := by
    intro p hp
    have hmem : p.id ∈ db.outcomeIds bet.marketId := hok.2.1 ▸ List.mem_map_of_mem hp
    obtain ⟨o, ho, hid⟩ := List.mem_map.mp hmem
    exact ⟨o, (Db.mem_outcomesFor.mp ho).1, hid⟩
  constructor
  · intro hnew point hpoint
    obtain ⟨p, hp, rfl⟩ := List.mem_map.mp hpoint
    obtain ⟨o, ho, hid⟩ := hrow p hp
    have hfind := find?_of_nodup hnd hp
    have hend := hnew (repriced bet priced o) (List.mem_map_of_mem ho)
    rw [repriced_id, chart_placed bet at' hnd, hid, hfind] at hend
    have hprice : (repriced bet priced o).currentPrice = p.currentPrice := by
      simp [repriced, hid, hfind]
    rw [hprice] at hend
    refine ((endsAt_append (hid ▸ h o ho)).mp hend).imp_right fun heq o' ho' hid' => ?_
    obtain rfl : o' = o := Table.eq_of_key ho' ho (hid'.trans hid.symm)
    exact heq
  · intro horder o' ho'
    obtain ⟨o, ho, rfl⟩ := List.mem_map.mp ho'
    rw [repriced_id, chart_placed bet at' hnd]
    cases hfind : priced.find? fun p => p.id = o.id with
    | none =>
      have hsame : (repriced bet priced o).currentPrice = o.currentPrice := by
        simp [repriced, hfind]
      simpa [hsame] using h o ho
    | some p =>
      have hprice : (repriced bet priced o).currentPrice = p.currentPrice := by
        simp [repriced, hfind]
      have hid : p.id = o.id := by simpa using List.find?_some hfind
      rw [hprice]
      refine (endsAt_append (h o ho)).mpr ?_
      have hcase := horder _ (List.mem_map_of_mem (List.mem_of_find?_eq_some hfind))
      rw [← hid]
      exact hcase.imp_right fun heq => heq o ho hid.symm

theorem ChartCurrent.done_iff (hknown : db.ChartKnown) (hok : w.Ok db) (hst : w.Stamped)
    (h : w.Done db now db') (hcur : db.ChartCurrent) : db'.ChartCurrent ↔ w.InStampOrder db := by
  cases h with
  | create market outcomes at' hen =>
    exact iff_of_true (chartCurrent_created hen hknown hcur)
      (by simp [Write.InStampOrder, Write.points])
  | place bet priced points hen => exact chartCurrent_placed_iff hok hst hcur
  | settle market settled hin =>
    exact iff_of_true hcur (by simp [Write.InStampOrder, Write.points])
  | save cause user hun => exact iff_of_true hcur (by simp [Write.InStampOrder, Write.points])

end Transactions

def Slot.Stamped : Slot → Prop
  | .running (.placeBet _ _ (.place _ _ bet priced _ points)) =>
    (Write.place bet priced points).Stamped
  | _ => True

theorem PlaceBet.read_stamped {build : Build} {env : Env} {db : Db} {cache cache' : Cache}
    {actor : Actor} {input : NewBet} {phase : PlaceBet.Phase} {next : Next PlaceBet.Phase}
    {request : Request}
    (h : PlaceBet.read build env db cache actor input phase = some (cache', next)) :
    (next.slot request (.placeBet actor input)).Stamped := by
  cases hn : next with
  | reply r => trivial
  | goto phase' =>
    subst hn
    cases phase with
    | readOutcome =>
      simp only [PlaceBet.read, PlaceBet.onOutcome, Option.some.injEq, Prod.mk.injEq] at h
      split at h
      · simp at h
      · cases h.2
        trivial
    | readMarket outcome =>
      simp only [PlaceBet.read, PlaceBet.onMarket, Option.some.injEq, Prod.mk.injEq] at h
      split at h
      · simp at h
      · split at h
        · cases h.2
          trivial
        · simp [Next.domainError] at h
    | readOutcomes market =>
      simp only [PlaceBet.read, PlaceBet.onOutcomes, Option.some.injEq, Prod.mk.injEq] at h
      split at h
      · simp [Next.domainError] at h
      · cases h.2
        trivial
    | findUser market outcomes chosen lookup =>
      simp only [PlaceBet.read] at h
      split at h
      · simp only [Option.some.injEq, Prod.mk.injEq, Next.goto.injEq] at h
        rw [← h.2]
        trivial
      · simp only [Option.some.injEq, Prod.mk.injEq] at h
        obtain ⟨user, bet, backed, priced, -, -, rfl⟩ := PlaceBet.onUser_goto h.2
        exact ⟨env.now, rfl⟩
    | place market user bet priced chosen points => simp [PlaceBet.read] at h
    | readPosition market user bet priced chosen => simp [PlaceBet.read] at h

theorem Next.slot_stamped {φ : Type} {request : Request} {call : φ → Call} (next : Next φ)
    (h : ∀ phase, (Slot.running (call phase)).Stamped) : (next.slot request call).Stamped := by
  cases next with
  | goto phase => exact h phase
  | reply r => trivial

theorem Call.read_stamped {build : Build} {env : Env} {db : Db} {cache cache' : Cache} {call : Call}
    {slot : Slot} (h : call.read build env db cache = some (cache', slot)) : slot.Stamped := by
  cases call with
  | createMarket actor input prepared => simp [Call.read] at h
  | placeBet actor input phase =>
    simp only [Call.read, Option.map_eq_some_iff] at h
    obtain ⟨⟨cache₁, next⟩, hr, heq⟩ := h
    cases heq
    exact PlaceBet.read_stamped hr
  | resolveMarket actor marketId winner phase =>
    simp only [Call.read, Option.map_eq_some_iff] at h
    obtain ⟨⟨cache₁, next⟩, -, heq⟩ := h
    cases heq
    exact next.slot_stamped fun _ => trivial
  | profile job phase =>
    simp only [Call.read, Option.map_eq_some_iff] at h
    obtain ⟨⟨cache₁, next⟩, -, heq⟩ := h
    cases heq
    exact next.slot_stamped fun _ => trivial

theorem Call.written_stamped {env : Env} {call : Call} {w : Write} (h : call.write? env = some w)
    (result : Except RepositoryError Unit) : (call.written result).Stamped := by
  cases call with
  | createMarket actor input prepared => exact Next.slot_stamped _ fun _ => trivial
  | placeBet actor input phase =>
    cases phase <;> simp [Call.write?, PlaceBet.write?] at h
    cases result <;> trivial
  | resolveMarket actor marketId winner phase => exact Next.slot_stamped _ fun _ => trivial
  | profile job phase => exact Next.slot_stamped _ fun _ => trivial

theorem Request.begin_stamped (build : Build) (env : Env) (request : Request) :
    (request.begin build env).Stamped := by
  cases request with
  | createMarket actor input => exact Next.slot_stamped _ fun _ => trivial
  | placeBet actor input => trivial
  | resolveMarket actor marketId winner =>
    simp only [Request.begin]
    split <;> trivial
  | profile job =>
    simp only [Request.begin]
    split <;> trivial

theorem Slot.Stamped.write {call : Call} {env : Env} {w : Write}
    (h : (Slot.running call).Stamped) (hw : call.write? env = some w) : w.Stamped := by
  cases call with
  | createMarket actor input prepared =>
    cases hw
    trivial
  | placeBet actor input phase =>
    cases phase <;> simp [Call.write?, PlaceBet.write?] at hw
    subst hw
    exact h
  | resolveMarket actor marketId winner phase =>
    cases phase <;> simp [Call.write?, ResolveMarket.write?] at hw
    subst hw
    trivial
  | profile job phase =>
    cases phase <;> simp [Call.write?, ProfileJob.write?] at hw
    subst hw
    trivial

structure Sys.Charted (s : Sys) : Prop where
  wf : s.Wf
  known : s.db.ChartKnown
  stamped : ∀ slot ∈ s.calls, slot.Stamped

theorem Sys.charted_init : Sys.init.Charted :=
  ⟨Sys.wf_init, by simp [Db.ChartKnown, Sys.init, Db.empty], by simp [Sys.init]⟩

theorem Sys.Charted.effect {build : Build} {s s' : Sys} {a : Act} (h : s.Charted)
    (he : Sys.Effect build s a s') : s'.Charted where
  wf := h.wf.effect he
  known := by
    rcases h.wf.tables he with ⟨hdb, -⟩ | ⟨w, now, hok, hdone, -⟩
    · rw [hdb]
      exact h.known
    · exact ChartKnown.done h.known hok hdone
  stamped := by
    cases he with
    | started request env =>
      intro slot hslot
      rcases List.mem_append.mp hslot with hslot | hslot
      · exact h.stamped slot hslot
      · rw [List.mem_singleton.mp hslot]
        exact Request.begin_stamped build env request
    | read i env call cache slot hcall hread hr =>
      exact Sys.forall_set h.stamped (Call.read_stamped hr)
    | committed i env call w db hcall hwrite hc =>
      exact Sys.forall_set h.stamped (Call.written_stamped hwrite _)
    | refused i env call w e hcall hwrite hc =>
      exact Sys.forall_set h.stamped (Call.written_stamped hwrite _)
    | failed i message call hcall => exact Sys.forall_set h.stamped trivial
    | registered id username email hash now db hfresh hc => exact h.stamped
    | evicted userId hev => exact h.stamped
    | expired key => exact h.stamped

def Sys.committing? (s : Sys) : Act → Option Write
  | .step i env =>
    match s.calls[i]? with
    | some (.running call) =>
      (call.write? env).filter fun w => (pg.atomically w.program env.txVars s.db).isOk
    | _ => none
  | _ => none

/-- A placement commits only with stamps later than the points recorded before it, or
with the prices that are on the board. -/
def Sys.InStampOrder (s : Sys) (a : Act) : Prop := ∀ w ∈ s.committing? a, w.InStampOrder s.db

instance (s : Sys) (a : Act) : Decidable (s.InStampOrder a) :=
  inferInstanceAs (Decidable (∀ w ∈ s.committing? a, w.InStampOrder s.db))

theorem Sys.Charted.step_iff {build : Build} {s s' : Sys} {a : Act} (h : s.Charted)
    (hcur : s.db.ChartCurrent) (hs : Sys.step build s a = some s') :
    s.InStampOrder a ↔ s'.db.ChartCurrent := by
  have he := Sys.step_effect hs
  cases he with
  | read i env call cache slot hcall hread hr =>
    exact iff_of_true (by simp [Sys.InStampOrder, Sys.committing?, hcall, hread]) hcur
  | committed i env call w db hcall hwrite hc =>
    obtain ⟨hok, hdone⟩ := h.wf.done hcall hwrite hc
    have hst := (h.stamped _ (List.mem_of_getElem? hcall)).write hwrite
    have hcommit : s.committing? (.step i env) = some w := by
      simp [Sys.committing?, hcall, hwrite, hc, Except.isOk, Except.toBool]
    refine Iff.trans ?_ (ChartCurrent.done_iff h.known hok hst hdone hcur).symm
    simp [Sys.InStampOrder, hcommit]
  | refused i env call w e hcall hwrite hc =>
    have hnone : s.committing? (.step i env) = none := by
      simp [Sys.committing?, hcall, hwrite, hc, Except.isOk, Except.toBool]
    exact iff_of_true (by simp [Sys.InStampOrder, hnone]) hcur
  | registered id username email hash now db hfresh hc =>
    have hok : (Write.save .registration (User.new id username email hash now)).Ok s.db := trivial
    have hdone := Write.done hok hc
    refine iff_of_true (by simp [Sys.InStampOrder, Sys.committing?]) ?_
    exact (ChartCurrent.done_iff h.known hok trivial hdone hcur).mpr
      (by simp [Write.InStampOrder, Write.points])
  | _ => exact iff_of_true (by simp [Sys.InStampOrder, Sys.committing?]) hcur

/-- In a run the charts end at the board in every state just when every placement commits
in the order of the stamps. -/
theorem charts_end_at_board {build : Build} {as : List Act} {s : Sys}
    (h : Transition.run (Sys.step build) Sys.init as = some s) :
    Transition.Guarded (Sys.step build) Sys.InStampOrder Sys.init as ↔
      ∀ bs t, bs <+: as → Transition.run (Sys.step build) Sys.init bs = some t →
        t.db.ChartCurrent := by
  have hbase : ∀ t a t', t.Charted → Sys.step build t a = some t' → t'.Charted :=
    fun t a t' ht hs => ht.effect (Sys.step_effect hs)
  have hstep : ∀ t a t', t.Charted → t.db.ChartCurrent → Sys.step build t a = some t' →
      (t.InStampOrder a ↔ t'.db.ChartCurrent) := fun t a t' ht hc hs => ht.step_iff hc hs
  have hinit : Sys.init.db.ChartCurrent := by simp [Db.ChartCurrent, Sys.init, Db.empty]
  exact Transition.guarded_iff_prefixes hbase hstep Sys.charted_init hinit h

def Slot.placing : Slot → Bool
  | .running (.placeBet ..) => true
  | _ => false

namespace Sample

/-- Two placements on the empty board, prepared at times 2 and 3. -/
def prepared : List Act :=
  opening ++ [bet ⟨1⟩ ⟨101⟩ 50, bet ⟨2⟩ ⟨102⟩ 30] ++ steps 1 6 200 ++
    List.replicate 6 (.step 2 (env 3 300))

def inOrder : List Act := prepared ++ steps 1 2 200 ++ List.replicate 2 (.step 2 (env 3 300))

def outOfOrder : List Act := prepared ++ List.replicate 2 (.step 2 (env 3 300)) ++ steps 1 2 200

end Sample

theorem charts_end_at_board_in_order :
    Transition.Guarded (Sys.step .debug) Sys.InStampOrder Sys.init Sample.inOrder ∧
      ∀ bs t, bs <+: Sample.inOrder → Transition.run (Sys.step .debug) Sys.init bs = some t →
        t.db.ChartCurrent := by
  have hguarded :
      Transition.Guarded (Sys.step .debug) Sys.InStampOrder Sys.init Sample.inOrder := by
    decide +kernel
  exact ⟨hguarded, (charts_end_at_board (Sample.run_state (by decide +kernel))).mp hguarded⟩

/-- The later stamp commits first: the board keeps the prices of the other placement, and
the chart ends at those stamped last. -/
theorem chart_leaves_board :
    ¬∀ (build : Build) (as : List Act) (s : Sys),
      Transition.run (Sys.step build) Sys.init as = some s →
      (∀ slot ∈ s.calls, slot.placing = false) → s.db.ChartCurrent := by
  intro h
  have hcur := h .debug Sample.outOfOrder (Sample.state Sample.outOfOrder)
    (Sample.run_state (by decide +kernel)) (by decide +kernel)
  exact absurd hcur (by decide +kernel)

end Betsphere
