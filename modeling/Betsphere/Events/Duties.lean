import Betsphere.Events.Running
set_option autoImplicit false

namespace Betsphere
variable {W C X P φ ι : Type}

/-- `recorded` says which events the world has seen committed, `done` what a handler of one
leaves behind. -/
structure Duty (W P : Type) where
  covers : String → Prop
  recorded : W → String → P → Prop
  done : W → String → P → Prop

namespace Duty

/-- A handler that returns has done its duty, and nothing undoes it. -/
structure Kept (D : Duty W P) (F : Facts W P φ) (svc : Service W C X P φ) : Prop where
  handled : ∀ topic, D.covers topic → svc.registry.get topic ≠ []
  decoded : ∀ topic payload w handler e, D.covers topic → F.named w topic payload →
    handler ∈ svc.registry.get topic → handler payload ≠ .error e
  transact : ∀ c w w' events, F.inv w → svc.transact c w = some (w', events) →
    (∀ topic payload, D.done w topic payload → D.done w' topic payload) ∧
      ∀ topic payload, D.recorded w' topic payload →
        D.recorded w topic payload ∨ ∃ e ∈ events, e.2 = (topic, payload)
  step : ∀ x w w' phase r, svc.step x w phase = (w', r) →
    (∀ topic payload, D.done w topic payload → D.done w' topic payload) ∧
      ∀ topic payload, D.recorded w' topic payload → D.recorded w topic payload
  returns : ∀ topic payload x w w' phase, D.covers topic → F.inv w →
    F.fits w topic payload phase → svc.step x w phase = (w', .inr (.ok ())) →
      D.done w' topic payload

/-- The duties of the events that count as delivered, in the rows and in the open passes. -/
structure Done (D : Duty W P) (s : Outbox W P φ ι) : Prop where
  processed : ∀ r ∈ s.rows.rows, D.covers r.topic → r.processedAt ≠ none →
    D.done s.world r.topic r.payload
  delivered : ∀ p pass, s.passes p = some pass → ∀ r ∈ pass.claimed, r.id ∈ pass.delivered →
    D.covers r.topic → D.done s.world r.topic r.payload
  current : ∀ p pass a, s.passes p = some pass → pass.current = some a → a.ok = true →
    0 < a.next → D.covers a.event.topic → D.done s.world a.event.topic a.event.payload
  pending : ∀ topic payload, D.covers topic → D.recorded s.world topic payload →
    D.done s.world topic payload ∨
      ∃ r ∈ s.rows.rows, r.topic = topic ∧ r.payload = payload ∧ r.processedAt = none

variable {D : Duty W P} {F : Facts W P φ} {svc : Service W C X P φ} {s s' : Outbox W P φ ι}

theorem init_done {w : W} (h : ∀ topic payload, D.covers topic → ¬D.recorded w topic payload) :
    D.Done (.init w : Outbox W P φ ι) := by
  refine ⟨?_, ?_, ?_, fun topic payload hc hr => absurd hr (h topic payload hc)⟩ <;>
    simp [Outbox.init]

theorem Done.advance (hD : D.Kept F svc) (hsound : s.Sound svc) (hF : F.Hold s) (h : D.Done s)
    {p : ι} {x : X} {pass pass' : Pass P φ} {w : W} (hp : s.passes p = some pass)
    (hadv : Pass.Advance svc x s.world pass w pass') :
    (∀ topic payload, D.done s.world topic payload → D.done w topic payload) ∧
      (∀ topic payload, D.recorded w topic payload → D.recorded s.world topic payload) ∧
      (∀ r ∈ pass'.claimed, r.id ∈ pass'.delivered → D.covers r.topic →
        D.done w r.topic r.payload) ∧
      ∀ a, pass'.current = some a → a.ok = true → 0 < a.next → D.covers a.event.topic →
        D.done w a.event.topic a.event.payload := by
  have hdelivered := h.delivered p pass hp
  cases hadv with
  | next event todo hcur htodo =>
    refine ⟨fun _ _ => id, fun _ _ => id, hdelivered, fun a ha _ hpos _ => ?_⟩
    cases ha
    exact absurd hpos (Nat.lt_irrefl 0)
  | started b handler phase hcur hrun hget hdecode =>
    refine ⟨fun _ _ => id, fun _ _ => id, hdelivered, fun a ha hok hpos hc => ?_⟩
    cases ha
    exact h.current p pass b hp hcur hok hpos hc
  | refused b handler e hcur hrun hget hdecode =>
    refine ⟨fun _ _ => id, fun _ _ => id, hdelivered, fun a ha hok hpos hc => ?_⟩
    cases ha
    have hrow := (hsound.current_row hp hcur).2.1
    exact absurd hdecode
      (hD.decoded _ _ _ handler e hc (hF.rows _ hrow) (List.mem_of_getElem? hget))
  | finished b hcur hrun hget =>
    obtain ⟨hclaimed, hrow, -⟩ := hsound.current_row hp hcur
    refine ⟨fun _ _ => id, fun _ _ => id, fun r hr hid hc => ?_, fun a ha _ _ _ => ?_⟩
    · unfold Pass.finish at hr hid
      split at hid
      · rename_i hok
        rw [if_pos hok] at hr
        rw [List.mem_append, List.mem_singleton] at hid
        rcases hid with hid | hid
        · exact hdelivered r hr hid hc
        · -- The event at hand has handlers, and the last of them has returned.
          obtain rfl : r = b.event := s.rows.eq_of_key (hsound.held p pass hp r hr).2.1 hrow hid
          refine h.current p pass b hp hcur hok ?_ hc
          have hlen := List.getElem?_eq_none_iff.mp hget
          have hpos := List.length_pos_iff.mpr (hD.handled _ hc)
          omega
      · rename_i hok
        rw [if_neg hok] at hr
        exact hdelivered r hr hid hc
    · unfold Pass.finish at ha
      split at ha <;> simp at ha
  | moved b phase phase' w hcur hrun hstep =>
    obtain ⟨hdone, hrec⟩ := hD.step x _ _ phase _ hstep
    refine ⟨hdone, hrec, fun r hr hid hc => hdone _ _ (hdelivered r hr hid hc),
      fun a ha hok hpos hc => ?_⟩
    cases ha
    exact hdone _ _ (h.current p pass b hp hcur hok hpos hc)
  | returned b phase result w hcur hrun hstep =>
    obtain ⟨hdone, hrec⟩ := hD.step x _ _ phase _ hstep
    refine ⟨hdone, hrec, fun r hr hid hc => hdone _ _ (hdelivered r hr hid hc),
      fun a ha hok hpos hc => ?_⟩
    cases ha
    cases result with
    | error e => simp [Returned.accepted, Except.mapError] at hok
    | ok =>
      exact hD.returns _ _ x _ _ phase hc hF.world (hF.running p pass b phase hp hcur hrun) hstep

theorem Done.transacted (hD : D.Kept F svc) (hsound : s.Sound svc) (hF : F.Hold s) (h : D.Done s)
    {c : C} {w : W} {events : List (Nat × String × P)}
    (hc : svc.transact c s.world = some (w, events)) (hnodup : (events.map Prod.fst).Nodup)
    (hfresh : ∀ e ∈ events, e.1 ∉ s.drawn) :
    D.Done { s with
      world := w
      rows := (events.map Outbox.queued).foldl Table.upsert s.rows
      drawn := s.drawn ++ events.map Prod.fst } := by
  obtain ⟨hdone, hrec⟩ := hD.transact c s.world w events hF.world hc
  have hrows := hsound.rows_transacted hnodup hfresh
  refine ⟨fun r hr hcov hproc => ?_, fun p pass hp r hr hid hcov => ?_,
    fun p pass b hp hcur hok hpos hcov => ?_, fun topic payload hcov hr => ?_⟩
  · simp only [hrows, List.mem_append] at hr
    rcases hr with hr | hr
    · exact hdone _ _ (h.processed r hr hcov hproc)
    · obtain ⟨e, -, rfl⟩ := List.mem_map.mp hr
      exact absurd rfl hproc
  · exact hdone _ _ (h.delivered p pass hp r hr hid hcov)
  · exact hdone _ _ (h.current p pass b hp hcur hok hpos hcov)
  · simp only [hrows]
    rcases hrec topic payload hr with hr | ⟨e, he, hsame⟩
    · rcases h.pending topic payload hcov hr with hd | ⟨r, hr, hrow⟩
      · exact .inl (hdone _ _ hd)
      · exact .inr ⟨r, List.mem_append_left _ hr, hrow⟩
    · refine .inr ⟨Outbox.queued e, List.mem_append_right _ (List.mem_map_of_mem he), ?_⟩
      exact ⟨congrArg Prod.fst hsame, congrArg Prod.snd hsame, rfl⟩

/-- What the commit of a pass marks as processed has been done. -/
theorem Done.marked (hsound : s.Sound svc) (h : D.Done s) {p : ι} {now : DateTime}
    {pass : Pass P φ} (hp : s.passes p = some pass) (htodo : pass.todo = [])
    (hcur : pass.current = none) {r : OutboxRow P} (hr : r ∈ s.rows.rows) (hcov : D.covers r.topic)
    (hproc : (r.mark pass.delivered pass.failed now).processedAt ≠ none) :
    D.done s.world r.topic r.payload := by
  unfold OutboxRow.mark at hproc
  split at hproc
  · rename_i hid
    have hacc := (hsound.delivered_iff hp htodo hcur hr).mp hid
    exact h.delivered p pass hp r hacc.1 hid hcov
  · have hsame : r.processedAt ≠ none := by
      split at hproc <;> exact hproc
    exact h.processed r hr hcov hsame

theorem Done.pruned (h : D.Done s) (now : DateTime) :
    D.Done { s with
      rows := s.rows.filter fun r => !r.processedAt.any fun t => t < now - retention } := by
  refine ⟨fun r hr => ?_, h.delivered, h.current, fun topic payload hcov hr => ?_⟩
  · rw [Table.rows_filter] at hr
    exact h.processed r (List.mem_of_mem_filter hr)
  · rcases h.pending topic payload hcov hr with hd | ⟨r, hr, hrow⟩
    · exact .inl hd
    · refine .inr ⟨r, ?_, hrow⟩
      rw [Table.rows_filter, List.mem_filter]
      exact ⟨hr, by simp [hrow.2.2]⟩

variable [DecidableEq ι]

theorem Done.claimed (h : D.Done s) (p : ι) {locks : Nat → Option ι} :
    D.Done { s with
      passes := Function.update s.passes p (some (.begin s.claimable))
      locks } := by
  refine ⟨h.processed, fun q pass hq r hr hid hcov => ?_,
    fun q pass b hq hcur hok hpos hcov => ?_, h.pending⟩
  · by_cases hqp : q = p
    · subst hqp
      simp only [Function.update_self, Option.some.injEq] at hq
      subst hq
      simp [Pass.begin] at hid
    · exact h.delivered q pass (by simpa [hqp] using hq) r hr hid hcov
  · by_cases hqp : q = p
    · subst hqp
      simp only [Function.update_self, Option.some.injEq] at hq
      subst hq
      simp [Pass.begin] at hcur
    · exact h.current q pass b (by simpa [hqp] using hq) hcur hok hpos hcov

theorem Done.handled (hD : D.Kept F svc) (hsound : s.Sound svc) (hF : F.Hold s) (h : D.Done s)
    {p : ι} {x : X} {pass pass' : Pass P φ} {w : W} (hp : s.passes p = some pass)
    (hadv : Pass.Advance svc x s.world pass w pass') :
    D.Done { s with world := w, passes := Function.update s.passes p (some pass') } := by
  obtain ⟨hdone, hrec, hdelivered, hcurrent⟩ := h.advance hD hsound hF hp hadv
  refine ⟨fun r hr hcov hproc => hdone _ _ (h.processed r hr hcov hproc),
    fun q other hq r hr hid hcov => ?_, fun q other b hq hcur hok hpos hcov => ?_,
    fun topic payload hcov hr => ?_⟩
  · by_cases hqp : q = p
    · subst hqp
      simp only [Function.update_self, Option.some.injEq] at hq
      subst hq
      exact hdelivered r hr hid hcov
    · exact hdone _ _ (h.delivered q other (by simpa [hqp] using hq) r hr hid hcov)
  · by_cases hqp : q = p
    · subst hqp
      simp only [Function.update_self, Option.some.injEq] at hq
      subst hq
      exact hcurrent b hcur hok hpos hcov
    · exact hdone _ _ (h.current q other b (by simpa [hqp] using hq) hcur hok hpos hcov)
  · exact (h.pending topic payload hcov (hrec topic payload hr)).imp_left (hdone _ _)

theorem Done.committed (hsound : s.Sound svc) (h : D.Done s) {p : ι} {now : DateTime}
    {pass : Pass P φ} (hp : s.passes p = some pass) (htodo : pass.todo = [])
    (hcur : pass.current = none) :
    D.Done { s.close p with
      rows := s.rows.mapRows (OutboxRow.mark pass.delivered pass.failed now)
        (OutboxRow.mark_id pass.delivered pass.failed now) } := by
  refine ⟨fun r hr hcov hproc => ?_, fun q other hq => ?_, fun q other b hq => ?_,
    fun topic payload hcov hr => ?_⟩
  · rw [Table.rows_mapRows, List.mem_map] at hr
    obtain ⟨r, hr, rfl⟩ := hr
    rw [OutboxRow.mark_topic] at hcov ⊢
    rw [OutboxRow.mark_payload]
    exact h.marked hsound hp htodo hcur hr hcov hproc
  · exact h.delivered q other (Outbox.close_passes.mp hq).2
  · exact h.current q other b (Outbox.close_passes.mp hq).2
  · rcases h.pending topic payload hcov hr with hd | ⟨r, hrow, rfl, rfl, hnone⟩
    · exact .inl hd
    · by_cases hproc : (r.mark pass.delivered pass.failed now).processedAt = none
      · refine .inr ⟨_, List.mem_map_of_mem hrow, ?_, ?_, hproc⟩
        · rw [OutboxRow.mark_topic]
        · rw [OutboxRow.mark_payload]
      · exact .inl (h.marked hsound hp htodo hcur hrow hcov hproc)

theorem Done.closed (h : D.Done s) (p : ι) : D.Done (s.close p) :=
  ⟨h.processed, fun q other hq => h.delivered q other (Outbox.close_passes.mp hq).2,
    fun q other b hq => h.current q other b (Outbox.close_passes.mp hq).2, h.pending⟩

theorem Done.step (hD : D.Kept F svc) (hsound : s.Sound svc) (hF : F.Hold s) (h : D.Done s)
    {a : Outbox.Act C X ι} (ha : s.step svc a = some s') : D.Done s' := by
  cases Outbox.step_effect ha with
  | transacted c w events hc hnodup hfresh => exact h.transacted hD hsound hF hc hnodup hfresh
  | claimed p hp => exact h.claimed p
  | handled p x pass pass' w hp hadv => exact h.handled hD hsound hF hp hadv
  | committed p now pass hp htodo hcur => exact h.committed hsound hp htodo hcur
  | rolledBack p pass hp => exact h.closed p
  | pruned now => exact h.pruned now

/-- In every run, an event that is not pending has been seen to. -/
theorem Done.run (hD : D.Kept F svc) (hF : F.Kept svc) {w : W} (hw : F.inv w)
    (hnone : ∀ topic payload, D.covers topic → ¬D.recorded w topic payload)
    {as : List (Outbox.Act C X ι)} (h : Transition.run (Outbox.step svc) (.init w) as = some s) :
    s.Sound svc ∧ F.Hold s ∧ D.Done s := by
  have hstep : ∀ (t : Outbox W P φ ι) a t', t.Sound svc ∧ F.Hold t ∧ D.Done t →
      t.step svc a = some t' → t'.Sound svc ∧ F.Hold t' ∧ D.Done t' := by
    intro t a t' hinv ha
    obtain ⟨hs, hf, hd⟩ := hinv
    exact ⟨hs.step ha, hf.step hF hs ha, hd.step hD hs hf ha⟩
  exact Transition.run_invariant' hstep
    ⟨Outbox.init_sound w, F.init_hold hw, init_done hnone⟩ h

end Duty

end Betsphere
