import Betsphere.Events.Delivery
set_option autoImplicit false

namespace Betsphere
variable {W C X P φ ι : Type}

/-- What is said of an event and of a handler that runs for it. -/
structure Facts (W P φ : Type) where
  inv : W → Prop
  named : W → String → P → Prop
  fits : W → String → P → φ → Prop

namespace Facts
variable (F : Facts W P φ)

/-- Whatever was said of events and handlers stays true. -/
structure Grows (w w' : W) : Prop where
  named : ∀ topic payload, F.named w topic payload → F.named w' topic payload
  fits : ∀ topic payload phase, F.fits w topic payload phase → F.fits w' topic payload phase

theorem Grows.rfl {w : W} : F.Grows w w := ⟨fun _ _ => id, fun _ _ _ => id⟩

structure Kept (svc : Service W C X P φ) : Prop where
  transact : ∀ c w w' events, F.inv w → svc.transact c w = some (w', events) →
    F.inv w' ∧ F.Grows w w' ∧ ∀ e ∈ events, F.named w' e.2.1 e.2.2
  started : ∀ topic payload w handler phase, F.named w topic payload →
    handler ∈ svc.registry.get topic → handler payload = .ok phase → F.fits w topic payload phase
  step : ∀ topic payload x w w' phase r, F.inv w → F.fits w topic payload phase →
    svc.step x w phase = (w', r) →
      F.inv w' ∧ F.Grows w w' ∧ ∀ phase', r = .inl phase' → F.fits w' topic payload phase'

/-- The facts hold in a state of the outbox. -/
structure Hold (s : Outbox W P φ ι) : Prop where
  world : F.inv s.world
  rows : ∀ r ∈ s.rows.rows, F.named s.world r.topic r.payload
  running : ∀ p pass a phase, s.passes p = some pass → pass.current = some a →
    a.running = some phase → F.fits s.world a.event.topic a.event.payload phase

variable {F} {svc : Service W C X P φ} {s s' : Outbox W P φ ι}

theorem Hold.advance (h : F.Kept svc) (hsound : s.Sound svc) (hs : F.Hold s) {p : ι} {x : X}
    {pass pass' : Pass P φ} {w : W} (hp : s.passes p = some pass)
    (hadv : Pass.Advance svc x s.world pass w pass') :
    F.inv w ∧ F.Grows s.world w ∧ ∀ a phase, pass'.current = some a → a.running = some phase →
      F.fits w a.event.topic a.event.payload phase := by
  cases hadv with
  | next event todo hcur htodo =>
    refine ⟨hs.world, .rfl F, fun a phase ha hrun => ?_⟩
    cases ha
    simp at hrun
  | started b handler phase hcur hrun hget hdecode =>
    refine ⟨hs.world, .rfl F, fun a phase' ha hrun' => ?_⟩
    cases ha
    cases hrun'
    have hrow := (hsound.current_row hp hcur).2.1
    exact h.started _ _ _ _ _ (hs.rows _ hrow) (List.mem_of_getElem? hget) hdecode
  | refused b handler e hcur hrun hget hdecode =>
    refine ⟨hs.world, .rfl F, fun a phase ha hrun' => ?_⟩
    cases ha
    simp at hrun'
  | finished b hcur hrun hget =>
    refine ⟨hs.world, .rfl F, fun a phase ha _ => ?_⟩
    unfold Pass.finish at ha
    split at ha <;> simp at ha
  | moved b phase phase' w hcur hrun hstep =>
    obtain ⟨hinv, hgrows, hnext⟩ :=
      h.step _ _ x _ _ phase _ hs.world (hs.running p pass b phase hp hcur hrun) hstep
    refine ⟨hinv, hgrows, fun a phase₁ ha hrun₁ => ?_⟩
    cases ha
    cases hrun₁
    exact hnext _ rfl
  | returned b phase result w hcur hrun hstep =>
    obtain ⟨hinv, hgrows, -⟩ :=
      h.step _ _ x _ _ phase _ hs.world (hs.running p pass b phase hp hcur hrun) hstep
    refine ⟨hinv, hgrows, fun a phase₁ ha hrun₁ => ?_⟩
    cases ha
    simp at hrun₁

variable [DecidableEq ι]

theorem Hold.step (h : F.Kept svc) (hsound : s.Sound svc) (hs : F.Hold s) {a : Outbox.Act C X ι}
    (ha : s.step svc a = some s') : F.Hold s' := by
  cases Outbox.step_effect ha with
  | transacted c w events hc hnodup hfresh =>
    obtain ⟨hinv, hgrows, hnamed⟩ := h.transact c s.world w events hs.world hc
    refine ⟨hinv, fun r hr => ?_, fun p pass b phase hp hcur hrun => ?_⟩
    · simp only [hsound.rows_transacted hnodup hfresh, List.mem_append] at hr
      rcases hr with hr | hr
      · exact hgrows.named _ _ (hs.rows r hr)
      · obtain ⟨e, he, rfl⟩ := List.mem_map.mp hr
        exact hnamed e he
    · exact hgrows.fits _ _ _ (hs.running p pass b phase hp hcur hrun)
  | claimed p hp =>
    refine ⟨hs.world, hs.rows, fun q pass b phase hq hcur hrun => ?_⟩
    by_cases hqp : q = p
    · subst hqp
      simp only [Function.update_self, Option.some.injEq] at hq
      subst hq
      simp [Pass.begin] at hcur
    · exact hs.running q pass b phase (by simpa [hqp] using hq) hcur hrun
  | handled p x pass pass' w hp hadv =>
    obtain ⟨hinv, hgrows, hnext⟩ := hs.advance h hsound hp hadv
    refine ⟨hinv, fun r hr => hgrows.named _ _ (hs.rows r hr), fun q other b phase hq hcur hrun => ?_⟩
    by_cases hqp : q = p
    · subst hqp
      simp only [Function.update_self, Option.some.injEq] at hq
      subst hq
      exact hnext b phase hcur hrun
    · exact hgrows.fits _ _ _ (hs.running q other b phase (by simpa [hqp] using hq) hcur hrun)
  | committed p now pass hp htodo hcur =>
    refine ⟨hs.world, fun r hr => ?_, fun q other b phase hq hcur hrun => ?_⟩
    · rw [Table.rows_mapRows, List.mem_map] at hr
      obtain ⟨r, hr, rfl⟩ := hr
      rw [OutboxRow.mark_topic, OutboxRow.mark_payload]
      exact hs.rows r hr
    · exact hs.running q other b phase (Outbox.close_passes.mp hq).2 hcur hrun
  | rolledBack p pass hp =>
    refine ⟨hs.world, hs.rows, fun q other b phase hq hcur hrun => ?_⟩
    exact hs.running q other b phase (Outbox.close_passes.mp hq).2 hcur hrun
  | pruned now =>
    refine ⟨hs.world, fun r hr => ?_, hs.running⟩
    rw [Table.rows_filter] at hr
    exact hs.rows r (List.mem_of_mem_filter hr)

omit [DecidableEq ι] in
theorem init_hold {w : W} (h : F.inv w) : F.Hold (.init w : Outbox W P φ ι) := by
  refine ⟨h, ?_, ?_⟩ <;> simp [Outbox.init]

end Facts

theorem Outbox.step_world [DecidableEq ι] {svc : Service W C X P φ} {s s' : Outbox W P φ ι}
    {a : Outbox.Act C X ι} (h : s.step svc a = some s') : s'.world = s.world ∨
      (∃ c events, svc.transact c s.world = some (s'.world, events)) ∨
      ∃ x phase r, svc.step x s.world phase = (s'.world, r) := by
  cases Outbox.step_effect h with
  | transacted c w events ht hnodup hfresh => exact .inr (.inl ⟨c, events, ht⟩)
  | handled p x pass pass' w hp hadv =>
    cases hadv with
    | moved a phase phase' w hcur hrun hstep => exact .inr (.inr ⟨x, phase, _, hstep⟩)
    | returned a phase result w hcur hrun hstep => exact .inr (.inr ⟨x, phase, _, hstep⟩)
    | _ => exact .inl rfl
  | _ => exact .inl rfl

end Betsphere
