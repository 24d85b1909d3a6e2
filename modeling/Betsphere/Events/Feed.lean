import Betsphere.Events.Delivery
set_option autoImplicit false

/-!
What subscribers are shown, and when it ends up being the truth. A handler publishes a
value it has read, or one its event carries; a value that was overtaken is harmless as
long as some event that will publish the current one is still to be handled.
-/

namespace Betsphere

/-- What is shown and what is true under each key, and what an event and a running
handler will show there: nothing, a value still to be read, or a value at hand. -/
structure Feed (W P φ K T : Type) where
  inv : W → Prop
  known : W → K → Prop
  truth : W → K → T
  shown : W → K → Option T
  about : String → P → K → Option (Option T)
  view : φ → K → Option (Option T)

namespace Feed
variable {W C X P φ ι K T : Type}

/-- What is still to be read will be the truth. -/
def Current (F : Feed W P φ K T) (w : W) (k : K) (seen : Option T) : Prop :=
  seen = none ∨ seen = some (F.truth w k)

def Settled (F : Feed W P φ K T) (w : W) (k : K) : Prop :=
  ∀ v, F.shown w k = some v → v = F.truth w k

/-- One await of a handler reads the truth, publishes what it holds, or fails. -/
def Step (F : Feed W P φ K T) (w w' : W) (k : K) (phase : φ) : φ ⊕ Except String Unit → Prop
  | .inl phase' => F.shown w' k = F.shown w k ∧
      (F.view phase' k = F.view phase k ∨
        F.view phase k = some none ∧ F.view phase' k = some (some (F.truth w k)))
  | .inr result => F.view phase k = none ∧ F.shown w' k = F.shown w k ∨
      ∃ seen, F.view phase k = some seen ∧
        (F.shown w' k = F.shown w k ∧ (∃ e, result = .error e) ∨
          ∃ v, seen = some v ∧ F.shown w' k = some v)

/-- The handlers of the service show what the feed says of their events. -/
structure Served (F : Feed W P φ K T) (svc : Service W C X P φ) : Prop where
  transact : ∀ c w w' events, F.inv w → svc.transact c w = some (w', events) → F.inv w' ∧
    ∀ k, (F.known w k → F.known w' k) ∧ ∀ e ∈ events, F.about e.2.1 e.2.2 k ≠ none → F.known w' k
  handler : ∀ topic payload k seen, F.about topic payload k = some seen →
    ∃ handler phase, svc.registry.get topic = [handler] ∧ handler payload = .ok phase ∧
      F.view phase k = some seen
  other : ∀ topic payload k, F.about topic payload k = none →
    ∀ handler ∈ svc.registry.get topic, ∀ phase, handler payload = .ok phase →
      F.view phase k = none
  step : ∀ x w w' phase r, F.inv w → (∀ k, F.view phase k ≠ none → F.known w k) →
    svc.step x w phase = (w', r) → F.inv w' ∧
      ∀ k, F.truth w' k = F.truth w k ∧ (F.known w k → F.known w' k) ∧ F.Step w w' k phase r

/-- A transaction shows nothing itself, and records an event with every change of the truth. -/
structure Coherent (F : Feed W P φ K T) (svc : Service W C X P φ) : Prop extends F.Served svc where
  recorded : ∀ c w w' events, F.inv w → svc.transact c w = some (w', events) →
    ∀ k, F.shown w' k = F.shown w k ∧
      (F.truth w' k = F.truth w k ∨ F.shown w k = none ∧ ¬F.known w k ∨
        ∃ e ∈ events, ∃ seen, F.about e.2.1 e.2.2 k = some seen ∧ F.Current w' k seen)

def Unserved (F : Feed W P φ K T) (w : W) (k : K) (pass : Pass P φ) (r : OutboxRow P) : Prop :=
  r ∈ pass.todo ∨ r.id ∈ pass.failed ∨ ∃ a, pass.current = some a ∧ a.event = r ∧
    (a.ok = false ∨ a.next = 0 ∧ ∀ phase, a.running = some phase →
      ∃ seen, F.view phase k = some seen ∧ F.Current w k seen)

structure Owed (F : Feed W P φ K T) (s : Outbox W P φ ι) (k : K) (r : OutboxRow P) : Prop where
  row : r ∈ s.rows.rows
  pending : r.processedAt = none
  current : ∃ seen, F.about r.topic r.payload k = some seen ∧ F.Current s.world k seen
  unserved : ∀ p pass, s.passes p = some pass → r ∈ pass.claimed → F.Unserved s.world k pass r

/-- An overtaken value replaces what is shown only while another row is owed, unless the
handler fails after all and reads again. -/
def Corrected (F : Feed W P φ K T) (svc : Service W C X P φ) (s : Outbox W P φ ι)
    (a : Outbox.Act C X ι) : Prop :=
  ∀ p x pass current phase k v w' result, a = .handle p x → s.passes p = some pass →
    pass.current = some current → current.running = some phase →
    F.view phase k = some (some v) → v ≠ F.truth s.world k →
    svc.step x s.world phase = (w', .inr result) → F.shown s.world k ≠ some v →
    F.shown w' k = some v →
    (result = .ok () ∨ F.about current.event.topic current.event.payload k ≠ some none) →
    ∃ r, r ≠ current.event ∧ F.Owed s k r

structure Tracked (F : Feed W P φ K T) (s : Outbox W P φ ι) : Prop where
  world : F.inv s.world
  known : ∀ r ∈ s.rows.rows, ∀ k, F.about r.topic r.payload k ≠ none → F.known s.world k
  running : ∀ p pass a phase, s.passes p = some pass → pass.current = some a →
    a.running = some phase → ∀ k, F.view phase k ≠ none →
      a.next = 0 ∧ F.about a.event.topic a.event.payload k ≠ none

def Converging (F : Feed W P φ K T) (s : Outbox W P φ ι) : Prop :=
  ∀ k, F.Settled s.world k ∨ ∃ r, F.Owed s k r

section Steps
variable {F : Feed W P φ K T} {svc : Service W C X P φ} {s s' : Outbox W P φ ι}

theorem Current.congr {w w' : W} {k : K} {seen : Option T} (h : F.Current w k seen)
    (htruth : F.truth w' k = F.truth w k) : F.Current w' k seen := by
  unfold Current at *
  rw [htruth]
  exact h

theorem Unserved.congr {w w' : W} {k : K} {pass : Pass P φ} {r : OutboxRow P}
    (h : F.Unserved w k pass r) (htruth : F.truth w' k = F.truth w k) :
    F.Unserved w' k pass r := by
  rcases h with htodo | hfailed | ⟨a, hcur, hev, hok | ⟨hnext, hrun⟩⟩
  · exact .inl htodo
  · exact .inr (.inl hfailed)
  · exact .inr (.inr ⟨a, hcur, hev, .inl hok⟩)
  · refine .inr (.inr ⟨a, hcur, hev, .inr ⟨hnext, fun phase hp => ?_⟩⟩)
    obtain ⟨seen, hview, hcurrent⟩ := hrun phase hp
    exact ⟨seen, hview, hcurrent.congr htruth⟩

theorem Settled.congr {w w' : W} {k : K} (h : F.Settled w k)
    (hshown : F.shown w' k = F.shown w k) (htruth : F.truth w' k = F.truth w k) :
    F.Settled w' k := by
  unfold Settled at *
  rw [hshown, htruth]
  exact h

theorem Served.only (h : F.Served svc) {topic : String} {payload : P} {k : K}
    (habout : F.about topic payload k ≠ none) {n : Nat} {handler : P → Except DeliveryError φ}
    (hget : (svc.registry.get topic)[n]? = some handler) :
    n = 0 ∧ ∃ phase, handler payload = .ok phase ∧
      F.view phase k = F.about topic payload k := by
  obtain ⟨seen, hseen⟩ := Option.ne_none_iff_exists'.mp habout
  obtain ⟨only, phase, hall, hdecode, hview⟩ := h.handler topic payload k seen hseen
  rw [hall, List.getElem?_singleton] at hget
  split at hget
  · rename_i hn
    cases hget
    exact ⟨hn, phase, hdecode, hview.trans hseen.symm⟩
  · simp at hget

section Unserved
variable {x : X} {w w' : W} {k : K} {pass : Pass P φ} {a : Attempt P φ} {phase : φ}
  {r : OutboxRow P} {seen : Option T}

theorem unserved_at (hcur : pass.current = some a) : F.Unserved w k pass r ↔
    (r ∈ pass.todo ∨ r.id ∈ pass.failed) ∨ a.event = r ∧ (a.ok = false ∨ a.next = 0 ∧
      ∀ phase, a.running = some phase → ∃ seen, F.view phase k = some seen ∧ F.Current w k seen) := by
  rw [Unserved, hcur, ← or_assoc]
  simp only [Option.some.injEq, exists_eq_left']

theorem Unserved.next {event : OutboxRow P} {todo : List (OutboxRow P)}
    (hcur : pass.current = none) (htodo : pass.todo = event :: todo)
    (hr : F.Unserved w k pass r) :
    F.Unserved w k { pass with todo, current := some ⟨event, 0, none, true⟩ } r := by
  rw [unserved_at rfl]
  rcases hr with hmem | hfailed | ⟨a, ha, -⟩
  · rw [htodo, List.mem_cons] at hmem
    rcases hmem with rfl | hmem
    · exact .inr ⟨rfl, .inr ⟨rfl, by simp⟩⟩
    · exact .inl (.inl hmem)
  · exact .inl (.inr hfailed)
  · simp [hcur] at ha

theorem Unserved.started (h : F.Served svc) {handler : P → Except DeliveryError φ}
    (hcur : pass.current = some a)
    (hget : (svc.registry.get a.event.topic)[a.next]? = some handler)
    (hdecode : handler a.event.payload = .ok phase)
    (habout : F.about r.topic r.payload k = some seen) (hcurrent : F.Current w k seen)
    (hr : F.Unserved w k pass r) :
    F.Unserved w k { pass with current := some { a with running := some phase } } r := by
  rw [unserved_at rfl]
  rcases (unserved_at hcur).mp hr with hout | ⟨rfl, hok | ⟨hnext, -⟩⟩
  · exact .inl hout
  · exact .inr ⟨rfl, .inl hok⟩
  · have hne : F.about a.event.topic a.event.payload k ≠ none := by simp [habout]
    obtain ⟨-, phase₀, hdecode₀, hview⟩ := h.only hne hget
    rw [hdecode] at hdecode₀
    cases hdecode₀
    refine .inr ⟨rfl, .inr ⟨hnext, fun phase₁ hp => ?_⟩⟩
    cases hp
    exact ⟨seen, hview.trans habout, hcurrent⟩

theorem Unserved.refused (h : F.Served svc) {handler : P → Except DeliveryError φ}
    {e : DeliveryError} (hcur : pass.current = some a)
    (hget : (svc.registry.get a.event.topic)[a.next]? = some handler)
    (hdecode : handler a.event.payload = .error e)
    (habout : F.about r.topic r.payload k = some seen) (hr : F.Unserved w k pass r) :
    F.Unserved w k (pass.record a (.error e)) r := by
  rw [unserved_at rfl]
  rcases (unserved_at hcur).mp hr with hout | ⟨rfl, hok | ⟨hnext, -⟩⟩
  · exact .inl hout
  · exact .inr ⟨rfl, .inl (by simp [hok])⟩
  · have hne : F.about a.event.topic a.event.payload k ≠ none := by simp [habout]
    obtain ⟨-, phase₀, hdecode₀, -⟩ := h.only hne hget
    simp [hdecode] at hdecode₀

/-- The attempt at a row of the feed cannot end well before its handler has run. -/
theorem Unserved.finished (h : F.Served svc) (hcur : pass.current = some a)
    (hget : (svc.registry.get a.event.topic)[a.next]? = none)
    (habout : F.about r.topic r.payload k = some seen) (hr : F.Unserved w k pass r) :
    F.Unserved w k (pass.finish a) r := by
  unfold Pass.finish
  rcases (unserved_at hcur).mp hr with (hmem | hfailed) | ⟨rfl, hok | ⟨hnext, -⟩⟩
  · split <;> exact .inl hmem
  · split
    · exact .inr (.inl hfailed)
    · exact .inr (.inl (List.mem_append_left _ hfailed))
  · rw [hok, if_neg Bool.false_ne_true]
    exact .inr (.inl (by simp))
  · obtain ⟨only, phase, hall, -, -⟩ := h.handler _ _ _ _ habout
    simp [hall, hnext] at hget

theorem Unserved.moved {phase' : φ} (hcur : pass.current = some a)
    (hrun : a.running = some phase) (htruth : F.truth w' k = F.truth w k)
    (hstep : F.Step w w' k phase (.inl phase')) (hr : F.Unserved w k pass r) :
    F.Unserved w' k { pass with current := some { a with running := some phase' } } r := by
  rw [unserved_at rfl]
  rcases (unserved_at hcur).mp hr with hout | ⟨rfl, hok | ⟨hnext, hseen⟩⟩
  · exact .inl hout
  · exact .inr ⟨rfl, .inl hok⟩
  · refine .inr ⟨rfl, .inr ⟨hnext, fun phase₁ hp => ?_⟩⟩
    cases hp
    obtain ⟨seen', hv, hc⟩ := hseen phase hrun
    rcases hstep.2 with hsame | ⟨-, hread⟩
    · exact ⟨seen', hsame.trans hv, hc.congr htruth⟩
    · exact ⟨_, hread, .inr (by rw [htruth])⟩

/-- A handler that returns has published the truth, or has failed. -/
theorem Unserved.returned {result : Except String Unit} (hcur : pass.current = some a)
    (hrun : a.running = some phase) (htruth : F.truth w' k = F.truth w k)
    (hstep : F.Step w w' k phase (.inr result)) (hr : F.Unserved w k pass r) :
    F.Unserved w' k (pass.record a (result.mapError .failed)) r ∨ F.Settled w' k := by
  rw [unserved_at rfl]
  rcases (unserved_at hcur).mp hr with hout | ⟨rfl, hok | ⟨hnext, hseen⟩⟩
  · exact .inl (.inl hout)
  · exact .inl (.inr ⟨rfl, .inl (by simp [hok])⟩)
  · obtain ⟨seen', hv, hc⟩ := hseen phase hrun
    rcases hstep with ⟨hnone, -⟩ | ⟨seen₁, hv₁, ⟨-, e, rfl⟩ | ⟨v, rfl, hshown⟩⟩
    · simp [hv] at hnone
    · exact .inl (.inr ⟨rfl, .inl (by simp [Returned.accepted, Except.mapError])⟩)
    · rw [hv] at hv₁
      cases hv₁
      refine .inr fun u hu => ?_
      rw [hshown] at hu
      cases hu
      rcases hc with hnone | htrue
      · simp at hnone
      · rw [htruth]
        exact Option.some.inj htrue

theorem Unserved.advance (h : F.Served svc) {pass' : Pass P φ}
    (hadv : Pass.Advance svc x w pass w' pass')
    (hworld : ∀ a phase, pass.current = some a → a.running = some phase →
      ∀ r', svc.step x w phase = (w', r') → F.truth w' k = F.truth w k ∧ F.Step w w' k phase r')
    (habout : F.about r.topic r.payload k = some seen) (hcurrent : F.Current w k seen)
    (hr : F.Unserved w k pass r) : F.Unserved w' k pass' r ∨ F.Settled w' k := by
  cases hadv with
  | next event todo hcur htodo => exact .inl (hr.next hcur htodo)
  | started a handler phase hcur hrun hget hdecode =>
    exact .inl (hr.started h hcur hget hdecode habout hcurrent)
  | refused a handler e hcur hrun hget hdecode =>
    exact .inl (hr.refused h hcur hget hdecode habout)
  | finished a hcur hrun hget => exact .inl (hr.finished h hcur hget habout)
  | moved a phase phase' w' hcur hrun hstep =>
    obtain ⟨htruth, hlaw⟩ := hworld a phase hcur hrun _ hstep
    exact .inl (hr.moved hcur hrun htruth hlaw)
  | returned a phase result w' hcur hrun hstep =>
    obtain ⟨htruth, hlaw⟩ := hworld a phase hcur hrun _ hstep
    exact hr.returned hcur hrun htruth hlaw

end Unserved

theorem Tracked.law (h : F.Served svc) (hsound : s.Sound svc) (ht : F.Tracked s) {p : ι} {x : X}
    {pass : Pass P φ} {a : Attempt P φ} {phase : φ} {w : W} {r : φ ⊕ Except String Unit}
    (hp : s.passes p = some pass) (hcur : pass.current = some a) (hrun : a.running = some phase)
    (hstep : svc.step x s.world phase = (w, r)) :
    F.inv w ∧ ∀ k, F.truth w k = F.truth s.world k ∧ (F.known s.world k → F.known w k) ∧
      F.Step s.world w k phase r := by
  refine h.step x s.world w phase r ht.world (fun k hk => ?_) hstep
  exact ht.known a.event (hsound.current_row hp hcur).2.1 k
    (ht.running p pass a phase hp hcur hrun k hk).2

theorem Tracked.await (h : F.Served svc) (hsound : s.Sound svc) (ht : F.Tracked s) {p : ι} {x : X}
    {pass pass' : Pass P φ} {w : W} (hp : s.passes p = some pass)
    (hadv : Pass.Advance svc x s.world pass w pass') :
    F.inv w ∧ ∀ k, F.truth w k = F.truth s.world k ∧ (F.known s.world k → F.known w k) := by
  have hstep : ∀ a phase r, pass.current = some a → a.running = some phase →
      svc.step x s.world phase = (w, r) →
      F.inv w ∧ ∀ k, F.truth w k = F.truth s.world k ∧ (F.known s.world k → F.known w k) := by
    intro a phase r hcur hrun hstep
    obtain ⟨hinv, hall⟩ := ht.law h hsound hp hcur hrun hstep
    exact ⟨hinv, fun k => ⟨(hall k).1, (hall k).2.1⟩⟩
  cases hadv with
  | moved a phase phase' w hcur hrun hs => exact hstep a phase _ hcur hrun hs
  | returned a phase result w hcur hrun hs => exact hstep a phase _ hcur hrun hs
  | _ => exact ⟨ht.world, fun k => ⟨rfl, id⟩⟩

theorem Tracked.runs (h : F.Served svc) (hsound : s.Sound svc) (ht : F.Tracked s) {p : ι} {x : X}
    {pass pass' : Pass P φ} {w : W} (hp : s.passes p = some pass)
    (hadv : Pass.Advance svc x s.world pass w pass') {a' : Attempt P φ} {phase' : φ}
    (hcur' : pass'.current = some a') (hrun' : a'.running = some phase') {k : K}
    (hview : F.view phase' k ≠ none) :
    a'.next = 0 ∧ F.about a'.event.topic a'.event.payload k ≠ none := by
  cases hadv with
  | next event todo hcur htodo =>
    cases hcur'
    simp at hrun'
  | started a handler phase hcur hrun hget hdecode =>
    cases hcur'
    cases hrun'
    have habout : F.about a.event.topic a.event.payload k ≠ none := by
      intro hnone
      exact hview (h.other _ _ k hnone handler (List.mem_of_getElem? hget) _ hdecode)
    exact ⟨(h.only habout hget).1, habout⟩
  | refused a handler e hcur hrun hget hdecode =>
    cases hcur'
    simp at hrun'
  | finished a hcur hrun hget =>
    unfold Pass.finish at hcur'
    split at hcur' <;> simp at hcur'
  | moved a phase phase₁ w hcur hrun hs =>
    cases hcur'
    cases hrun'
    have hstep := ((ht.law h hsound hp hcur hrun hs).2 k).2.2
    have hview₀ : F.view phase k ≠ none := by
      rcases hstep.2 with hsame | ⟨hsome, -⟩
      · exact hsame ▸ hview
      · simp [hsome]
    exact ht.running p pass a phase hp hcur hrun k hview₀
  | returned a phase result w hcur hrun hs =>
    cases hcur'
    simp at hrun'

section Actions
variable [DecidableEq ι]

theorem Tracked.step (h : F.Served svc) (hsound : s.Sound svc) (ht : F.Tracked s)
    {a : Outbox.Act C X ι} (ha : s.step svc a = some s') : F.Tracked s' := by
  cases Outbox.step_effect ha with
  | transacted c w events hc hnodup hfresh =>
    obtain ⟨hinv, hall⟩ := h.transact c s.world w events ht.world hc
    refine ⟨hinv, fun r hr k hk => ?_, ht.running⟩
    simp only [hsound.rows_transacted hnodup hfresh, List.mem_append] at hr
    rcases hr with hr | hr
    · exact (hall k).1 (ht.known r hr k hk)
    · obtain ⟨e, he, rfl⟩ := List.mem_map.mp hr
      exact (hall k).2 e he hk
  | claimed p hp =>
    refine ⟨ht.world, ht.known, fun q pass b phase hq hcur hrun k hk => ?_⟩
    by_cases hqp : q = p
    · subst hqp
      simp only [Function.update_self, Option.some.injEq] at hq
      subst hq
      simp [Pass.begin] at hcur
    · exact ht.running q pass b phase (by simpa [hqp] using hq) hcur hrun k hk
  | handled p x pass pass' w hp hadv =>
    obtain ⟨hinv, hall⟩ := ht.await h hsound hp hadv
    refine ⟨hinv, fun r hr k hk => (hall k).2 (ht.known r hr k hk),
      fun q other b phase hq hcur hrun k hk => ?_⟩
    by_cases hqp : q = p
    · subst hqp
      simp only [Function.update_self, Option.some.injEq] at hq
      subst hq
      exact ht.runs h hsound hp hadv hcur hrun hk
    · exact ht.running q other b phase (by simpa [hqp] using hq) hcur hrun k hk
  | committed p now pass hp htodo hcur =>
    refine ⟨ht.world, fun r hr k hk => ?_, fun q other b phase hq =>
      ht.running q other b phase (Outbox.close_passes.mp hq).2⟩
    rw [Table.rows_mapRows, List.mem_map] at hr
    obtain ⟨x, hx, rfl⟩ := hr
    rw [OutboxRow.mark_topic, OutboxRow.mark_payload] at hk
    exact ht.known x hx k hk
  | rolledBack p pass hp =>
    exact ⟨ht.world, ht.known, fun q other b phase hq =>
      ht.running q other b phase (Outbox.close_passes.mp hq).2⟩
  | pruned now =>
    refine ⟨ht.world, fun r hr => ?_, ht.running⟩
    rw [Table.rows_filter] at hr
    exact ht.known r (List.mem_of_mem_filter hr)

omit [DecidableEq ι] in
theorem Owed.kept {k : K} {r : OutboxRow P} (ho : F.Owed s k r)
    (hrows : ∀ x ∈ s.rows.rows, x.processedAt = none → x ∈ s'.rows.rows)
    (htruth : F.truth s'.world k = F.truth s.world k)
    (hpasses : ∀ p pass, s'.passes p = some pass → r ∈ pass.claimed →
      s.passes p = some pass ∨ F.Unserved s'.world k pass r) : F.Owed s' k r := by
  obtain ⟨seen, habout, hcurrent⟩ := ho.current
  refine ⟨hrows r ho.row ho.pending, ho.pending, ⟨seen, habout, hcurrent.congr htruth⟩, ?_⟩
  intro p pass hp hr
  rcases hpasses p pass hp hr with hsame | hun
  · exact (ho.unserved p pass hsame hr).congr htruth
  · exact hun

section Transactions
variable {w : W} {events : List (Nat × String × P)} {k : K}

def recorded (s : Outbox W P φ ι) (w : W) (events : List (Nat × String × P)) : Outbox W P φ ι :=
  { s with
    world := w
    rows := (events.map Outbox.queued).foldl Table.upsert s.rows
    drawn := s.drawn ++ events.map Prod.fst }

omit [DecidableEq ι] in
theorem Owed.transacted {r : OutboxRow P} (ho : F.Owed s k r) (hsound : s.Sound svc)
    (hnodup : (events.map Prod.fst).Nodup) (hfresh : ∀ e ∈ events, e.1 ∉ s.drawn)
    (htruth : F.truth w k = F.truth s.world k) : F.Owed (recorded s w events) k r := by
  refine ho.kept (fun x hx _ => ?_) htruth fun p pass hp _ => .inl hp
  simp only [recorded, hsound.rows_transacted hnodup hfresh, List.mem_append]
  exact .inl hx

omit [DecidableEq ι] in
theorem Owed.recorded (hsound : s.Sound svc) (hnodup : (events.map Prod.fst).Nodup)
    (hfresh : ∀ e ∈ events, e.1 ∉ s.drawn) {e : Nat × String × P} (he : e ∈ events)
    (hcurrent : ∃ seen, F.about e.2.1 e.2.2 k = some seen ∧ F.Current w k seen) :
    F.Owed (recorded s w events) k (Outbox.queued e) := by
  refine ⟨?_, rfl, hcurrent, ?_⟩
  · simp only [Feed.recorded, hsound.rows_transacted hnodup hfresh, List.mem_append]
    exact .inr (List.mem_map_of_mem he)
  · intro p pass hp hclaimed
    have hdrawn := hsound.drawn _ (hsound.held p pass hp _ hclaimed).2.1
    exact absurd hdrawn (hfresh e he)

end Transactions

omit [DecidableEq ι] in
theorem Converging.transacted (h : F.Coherent svc) (hsound : s.Sound svc) (ht : F.Tracked s)
    (hconv : F.Converging s) {c : C} {w : W} {events : List (Nat × String × P)}
    (hc : svc.transact c s.world = some (w, events)) (hnodup : (events.map Prod.fst).Nodup)
    (hfresh : ∀ e ∈ events, e.1 ∉ s.drawn) :
    F.Converging (recorded s w events) := by
  intro k
  obtain ⟨hshown, htruth | ⟨hnone, -⟩ | ⟨e, he, hcurrent⟩⟩ :=
    h.recorded c s.world w events ht.world hc k
  · rcases hconv k with hset | ⟨r, hr⟩
    · exact .inl (hset.congr hshown htruth)
    · exact .inr ⟨r, hr.transacted hsound hnodup hfresh htruth⟩
  · refine .inl fun v hv => ?_
    have hsome : F.shown w k = some v := hv
    simp [hshown, hnone] at hsome
  · exact .inr ⟨_, Owed.recorded hsound hnodup hfresh he hcurrent⟩

theorem Converging.handled (h : F.Served svc) (hsound : s.Sound svc) (ht : F.Tracked s)
    (hconv : F.Converging s) {p : ι} {x : X} {pass pass' : Pass P φ} {w : W}
    (hok : F.Corrected svc s (.handle p x)) (hp : s.passes p = some pass)
    (hadv : Pass.Advance svc x s.world pass w pass') :
    F.Converging { s with world := w, passes := Function.update s.passes p (some pass') } := by
  obtain ⟨-, hall⟩ := ht.await h hsound hp hadv
  have hclaimed := Pass.Progress.claimed_advance hadv
  -- a row the pass still has to serve stays owed
  have howed : ∀ k r, F.Owed s k r → (r ∈ pass.claimed → F.Unserved w k pass' r) →
      F.Owed { s with world := w, passes := Function.update s.passes p (some pass') } k r := by
    intro k r hr hun
    refine hr.kept (fun y hy _ => hy) (hall k).1 fun q other hq hmem => ?_
    by_cases hqp : q = p
    · subst hqp
      simp only [Function.update_self, Option.some.injEq] at hq
      subst hq
      exact .inr (hun (hclaimed ▸ hmem))
    · exact .inl (by simpa [hqp] using hq)
  have hadvance : ∀ k r, F.Owed s k r → r ∈ pass.claimed →
      F.Unserved w k pass' r ∨ F.Settled w k := by
    intro k r hr hmem
    obtain ⟨seen, habout, hcurrent⟩ := hr.current
    refine Unserved.advance h hadv (fun a phase hcur hrun r' hs => ?_) habout hcurrent
      (hr.unserved p pass hp hmem)
    obtain ⟨-, hlaw⟩ := ht.law h hsound hp hcur hrun hs
    exact ⟨(hlaw k).1, (hlaw k).2.2⟩
  have hkeep : ∀ k, (∃ r, F.Owed s k r) → F.Settled w k ∨ ∃ r, F.Owed
      { s with world := w, passes := Function.update s.passes p (some pass') } k r := by
    intro k hex
    obtain ⟨r, hr⟩ := hex
    by_cases hmem : r ∈ pass.claimed
    · rcases hadvance k r hr hmem with hun | hset
      · exact .inr ⟨r, howed k r hr fun _ => hun⟩
      · exact .inl hset
    · exact .inr ⟨r, howed k r hr fun hm => absurd hm hmem⟩
  intro k
  rcases hconv k with hset | hex
  · have hsame : F.shown w k = F.shown s.world k → F.Settled w k :=
      fun hshown => hset.congr hshown (hall k).1
    cases hadv with
    | moved a phase phase' w hcur hrun hs =>
      exact .inl (hsame ((ht.law h hsound hp hcur hrun hs).2 k).2.2.1)
    | returned a phase result w hcur hrun hs =>
      rcases ((ht.law h hsound hp hcur hrun hs).2 k).2.2 with
        ⟨-, hshown⟩ | ⟨seen, hview, ⟨hshown, -⟩ | ⟨v, rfl, hshown⟩⟩
      · exact .inl (hsame hshown)
      · exact .inl (hsame hshown)
      · by_cases hv : v = F.truth s.world k
        · refine .inl fun u hu => ?_
          rw [hshown] at hu
          cases hu
          exact hv.trans (hall k).1.symm
        · obtain ⟨-, hrow, hpending⟩ := hsound.current_row hp hcur
          have hnone : F.view phase k ≠ none := by simp [hview]
          obtain ⟨hnext, habout⟩ := ht.running p pass a phase hp hcur hrun k hnone
          by_cases hretry : result = .ok () ∨
              F.about a.event.topic a.event.payload k ≠ some none
          · obtain ⟨r, hne, hr⟩ := hok p x pass a phase k v w result rfl hp hcur hrun hview hv hs
              (fun hv' => hv (hset v hv')) hshown hretry
            refine .inr ⟨r, howed k r hr fun hmem => ?_⟩
            rcases hr.unserved p pass hp hmem with htodo | hfailed | ⟨b, hb, hev, -⟩
            · exact .inl htodo
            · exact .inr (.inl hfailed)
            · rw [hcur] at hb
              cases hb
              exact absurd hev.symm hne
          · rw [not_or, not_not] at hretry
            obtain ⟨herr, hread⟩ := hretry
            obtain ⟨e, rfl⟩ : ∃ e, result = .error e := by
              cases result with
              | ok u => exact absurd rfl herr
              | error e => exact ⟨e, rfl⟩
            refine .inr ⟨a.event, hrow, hpending, ⟨none, hread, .inl rfl⟩, fun q other hq hmem => ?_⟩
            by_cases hqp : q = p
            · subst hqp
              simp only [Function.update_self, Option.some.injEq] at hq
              subst hq
              refine .inr (.inr ⟨_, rfl, rfl, .inl ?_⟩)
              simp [Returned.accepted, Except.mapError]
            · have hq' : s.passes q = some other := by simpa [hqp] using hq
              have hown := (hsound.current_row hp hcur).1
              exact absurd (hsound.owner hq' hp (List.mem_map_of_mem hmem)
                (List.mem_map_of_mem hown)) hqp
    | _ => exact .inl (hsame rfl)
  · exact hkeep k hex

theorem Converging.committed (hsound : s.Sound svc) (hconv : F.Converging s) {p : ι}
    {now : DateTime} {pass : Pass P φ} (hp : s.passes p = some pass) (htodo : pass.todo = [])
    (hcur : pass.current = none) : F.Converging { s.close p with
      rows := s.rows.mapRows (OutboxRow.mark pass.delivered pass.failed now)
        (OutboxRow.mark_id pass.delivered pass.failed now) } := by
  intro k
  rcases hconv k with hset | ⟨r, hr⟩
  · exact .inl hset
  · right
    obtain ⟨seen, habout, hcurrent⟩ := hr.current
    refine ⟨r.mark pass.delivered pass.failed now, ?_, ?_, ⟨seen, ?_, hcurrent⟩, ?_⟩
    · rw [Table.rows_mapRows]
      exact List.mem_map_of_mem hr.row
    · by_cases hmem : r ∈ pass.claimed
      · rcases hr.unserved p pass hp hmem with hin | hfailed | ⟨b, hb, -⟩
        · simp [htodo] at hin
        · have hnot : r.id ∉ pass.delivered := by
            rw [hsound.delivered_iff hp htodo hcur hr.row]
            obtain ⟨gone, hgone⟩ := hsound.progress p pass hp
            rw [hgone.failed] at hfailed
            obtain ⟨y, hy, hid⟩ := List.mem_map.mp hfailed
            obtain ⟨hy, hacc⟩ := List.mem_filter.mp hy
            rw [hid] at hacc
            simp only [Bool.not_eq_true'] at hacc
            simp [hacc]
          simp [OutboxRow.mark, hnot, hfailed, hr.pending]
        · simp [hcur] at hb
      · rw [hsound.marked hp fun hid => ?_]
        · exact hr.pending
        · obtain ⟨y, hy, hid⟩ := List.mem_map.mp hid
          obtain rfl : y = r :=
            s.rows.eq_of_key (hsound.held p pass hp y hy).2.1 hr.row hid
          exact hmem hy
    · rw [OutboxRow.mark_topic, OutboxRow.mark_payload]
      exact habout
    · intro q other hq hmem
      obtain ⟨hne, hq⟩ := Outbox.close_passes.mp hq
      obtain ⟨hl, hrow, hpending⟩ := hsound.held q other hq _ hmem
      rw [OutboxRow.mark_id] at hl
      have hsame : r.mark pass.delivered pass.failed now = r :=
        s.rows.eq_of_key hrow hr.row (OutboxRow.mark_id _ _ _ r)
      rw [hsame] at hmem ⊢
      exact hr.unserved q other hq hmem

theorem Converging.advance (h : F.Served svc) (hsound : s.Sound svc) (ht : F.Tracked s)
    (hconv : F.Converging s) {a : Outbox.Act C X ι} (hok : F.Corrected svc s a)
    (htransact : ∀ c w events, a = .transact c → svc.transact c s.world = some (w, events) →
      (events.map Prod.fst).Nodup → (∀ e ∈ events, e.1 ∉ s.drawn) →
      F.Converging (recorded s w events))
    (ha : s.step svc a = some s') : F.Converging s' := by
  cases Outbox.step_effect ha with
  | transacted c w events hc hnodup hfresh => exact htransact c w events rfl hc hnodup hfresh
  | claimed p hp =>
    intro k
    rcases hconv k with hset | ⟨r, hr⟩
    · exact .inl hset
    · refine .inr ⟨r, hr.kept (fun y hy _ => hy) rfl fun q pass hq hmem => ?_⟩
      by_cases hqp : q = p
      · subst hqp
        simp only [Function.update_self, Option.some.injEq] at hq
        subst hq
        exact .inr (.inl hmem)
      · exact .inl (by simpa [hqp] using hq)
  | handled p x pass pass' w hp hadv => exact hconv.handled h hsound ht hok hp hadv
  | committed p now pass hp htodo hcur => exact hconv.committed hsound hp htodo hcur
  | rolledBack p pass hp =>
    intro k
    rcases hconv k with hset | ⟨r, hr⟩
    · exact .inl hset
    · exact .inr ⟨r, hr.kept (fun y hy _ => hy) rfl fun q other hq _ =>
        .inl (Outbox.close_passes.mp hq).2⟩
  | pruned now =>
    intro k
    rcases hconv k with hset | ⟨r, hr⟩
    · exact .inl hset
    · refine .inr ⟨r, hr.kept (fun y hy hnone => ?_) rfl fun q other hq _ => .inl hq⟩
      rw [Table.rows_filter, List.mem_filter]
      exact ⟨hy, by simp [hnone]⟩

theorem Converging.step (h : F.Coherent svc) (hsound : s.Sound svc) (ht : F.Tracked s)
    (hconv : F.Converging s) {a : Outbox.Act C X ι} (hok : F.Corrected svc s a)
    (ha : s.step svc a = some s') : F.Converging s' := by
  refine hconv.advance h.toServed hsound ht hok (fun c w events _ hc hnodup hfresh => ?_) ha
  exact hconv.transacted h hsound ht hc hnodup hfresh

/-- In a run in which overtaken values get corrected, what is shown is the truth wherever
no event is pending. -/
theorem converges (h : F.Coherent svc) {as : List (Outbox.Act C X ι)} (hsound : s.Sound svc)
    (ht : F.Tracked s) (hconv : F.Converging s)
    (hok : Transition.Guarded (Outbox.step svc) (F.Corrected svc) s as)
    (hr : Transition.run (Outbox.step svc) s as = some s') {k : K}
    (hdone : ∀ r ∈ s'.rows.rows, F.about r.topic r.payload k ≠ none → r.processedAt ≠ none) :
    F.Settled s'.world k := by
  have hstep : ∀ (u : Outbox W P φ ι) a u', (u.Sound svc ∧ F.Tracked u ∧ F.Converging u) →
      F.Corrected svc u a → u.step svc a = some u' →
      u'.Sound svc ∧ F.Tracked u' ∧ F.Converging u' := by
    intro u a u' hu hok ha
    obtain ⟨hsound, ht, hconv⟩ := hu
    exact ⟨hsound.step ha, ht.step h.toServed hsound ha, hconv.step h hsound ht hok ha⟩
  obtain ⟨-, -, hend⟩ := Transition.run_invariant hstep ⟨hsound, ht, hconv⟩ hok hr
  rcases hend k with hset | ⟨r, ho⟩
  · exact hset
  · obtain ⟨seen, habout, -⟩ := ho.current
    exact absurd ho.pending (hdone r ho.row (by simp [habout]))

/-- Events carry no value of their own. -/
def Rereads (F : Feed W P φ K T) : Prop :=
  ∀ topic payload k seen, F.about topic payload k = some seen → seen = none

/-- When a handler holds an overtaken value, the event that overtook it is unclaimed. -/
def Outrun (F : Feed W P φ K T) (s : Outbox W P φ ι) : Prop :=
  ∀ p pass a phase k v, s.passes p = some pass → pass.current = some a →
    a.running = some phase → F.view phase k = some (some v) → v ≠ F.truth s.world k →
    ∃ r ∈ s.rows.rows, r.processedAt = none ∧ F.about r.topic r.payload k = some none ∧
      s.locks r.id = none

omit [DecidableEq ι] in
theorem Outrun.awaited (h : F.Served svc) (hread : F.Rereads) (hsound : s.Sound svc)
    (ht : F.Tracked s) (hout : F.Outrun s) {p : ι} {x : X} {pass pass' : Pass P φ} {w : W}
    (hp : s.passes p = some pass) (hadv : Pass.Advance svc x s.world pass w pass')
    {a : Attempt P φ} {phase : φ} {k : K} {v : T} (hcur : pass'.current = some a)
    (hrun : a.running = some phase) (hview : F.view phase k = some (some v))
    (hv : v ≠ F.truth w k) : ∃ r ∈ s.rows.rows, r.processedAt = none ∧
      F.about r.topic r.payload k = some none ∧ s.locks r.id = none := by
  cases hadv with
  | next event todo hcur₀ htodo =>
    cases hcur
    simp at hrun
  | started b handler phase₀ hcur₀ hrun₀ hget hdecode =>
    cases hcur
    cases hrun
    cases habout : F.about b.event.topic b.event.payload k with
    | none =>
      have hnone := h.other _ _ k habout handler (List.mem_of_getElem? hget) _ hdecode
      simp [hview] at hnone
    | some seen =>
      obtain rfl := hread _ _ _ _ habout
      have hne : F.about b.event.topic b.event.payload k ≠ none := by simp [habout]
      obtain ⟨-, phase₁, hdecode₁, hsame⟩ := h.only hne hget
      rw [hdecode] at hdecode₁
      cases hdecode₁
      rw [hview, habout] at hsame
      simp at hsame
  | refused b handler e hcur₀ hrun₀ hget hdecode =>
    cases hcur
    simp at hrun
  | finished b hcur₀ hrun₀ hget =>
    unfold Pass.finish at hcur
    split at hcur <;> simp at hcur
  | moved b phase₀ phase₁ w hcur₀ hrun₀ hs =>
    cases hcur
    cases hrun
    obtain ⟨htruth, -, -, hstep⟩ := (ht.law h hsound hp hcur₀ hrun₀ hs).2 k
    rcases hstep with hsame | ⟨-, hseen⟩
    · exact hout p pass b phase₀ k v hp hcur₀ hrun₀ (hsame ▸ hview) (htruth ▸ hv)
    · rw [hview] at hseen
      simp only [Option.some.injEq] at hseen
      exact absurd (hseen.trans htruth.symm) hv
  | returned b phase₀ result w hcur₀ hrun₀ hs =>
    cases hcur
    simp at hrun

theorem Outrun.step [Subsingleton ι] (h : F.Coherent svc) (hread : F.Rereads)
    (hsound : s.Sound svc) (ht : F.Tracked s) (hout : F.Outrun s) {a : Outbox.Act C X ι}
    (ha : s.step svc a = some s') : F.Outrun s' := by
  have hclosed : ∀ p, F.Outrun (s.close p) := by
    intro p q pass b phase k v hq
    exact absurd (Subsingleton.elim q p) (Outbox.close_passes.mp hq).1
  cases Outbox.step_effect ha with
  | transacted c w events hc hnodup hfresh =>
    intro p pass b phase k v hp hcur hrun hview hv
    have hrows := hsound.rows_transacted hnodup hfresh
    have hknown : F.known s.world k := ht.known b.event (hsound.current_row hp hcur).2.1 k
      (ht.running p pass b phase hp hcur hrun k (by simp [hview])).2
    obtain ⟨-, htruth | ⟨-, hunknown⟩ | ⟨e, he, seen, habout, -⟩⟩ :=
      h.recorded c s.world w events ht.world hc k
    · obtain ⟨r, hr, hrest⟩ := hout p pass b phase k v hp hcur hrun hview (htruth ▸ hv)
      refine ⟨r, ?_, hrest⟩
      simp only [hrows, List.mem_append]
      exact .inl hr
    · exact absurd hknown hunknown
    · obtain rfl := hread _ _ _ _ habout
      refine ⟨Outbox.queued e, ?_, rfl, habout, ?_⟩
      · simp only [hrows, List.mem_append]
        exact .inr (List.mem_map_of_mem he)
      · cases hl : s.locks e.1 with
        | none => exact hl
        | some q =>
          obtain ⟨other, hother, hid⟩ := hsound.locked e.1 q hl
          obtain ⟨y, hy, hyid⟩ := List.mem_map.mp hid
          have hdrawn := hsound.drawn y (hsound.held q other hother y hy).2.1
          exact absurd (hyid ▸ hdrawn) (hfresh e he)
  | claimed p hp =>
    intro q pass b phase k v hq hcur
    obtain rfl := Subsingleton.elim q p
    simp only [Function.update_self, Option.some.injEq] at hq
    subst hq
    simp [Pass.begin] at hcur
  | handled p x pass pass' w hp hadv =>
    intro q other b phase k v hq hcur hrun hview hv
    obtain rfl := Subsingleton.elim q p
    simp only [Function.update_self, Option.some.injEq] at hq
    subst hq
    exact hout.awaited h.toServed hread hsound ht hp hadv hcur hrun hview hv
  | committed p now pass hp htodo hcur =>
    intro q other b phase k v hq
    exact absurd (Subsingleton.elim q p) (Outbox.close_passes.mp hq).1
  | rolledBack p pass hp => exact hclosed p
  | pruned now =>
    intro p pass b phase k v hp hcur hrun hview hv
    obtain ⟨r, hr, hnone, hrest⟩ := hout p pass b phase k v hp hcur hrun hview hv
    refine ⟨r, ?_, hnone, hrest⟩
    rw [Table.rows_filter, List.mem_filter]
    exact ⟨hr, by simp [hnone]⟩

omit [DecidableEq ι] in
theorem Outrun.corrected (hsound : s.Sound svc) (hout : F.Outrun s) (a : Outbox.Act C X ι) :
    F.Corrected svc s a := by
  intro p x pass b phase k v w result _ hp hcur hrun hview hv _ _ _ _
  obtain ⟨r, hr, hnone, habout, hfree⟩ := hout p pass b phase k v hp hcur hrun hview hv
  refine ⟨r, ?_, hr, hnone, ⟨none, habout, .inl rfl⟩, fun q other hq hmem => ?_⟩
  · rintro rfl
    have hl := (hsound.held p pass hp _ (hsound.current_row hp hcur).1).1
    simp [hfree] at hl
  · have hl := (hsound.held q other hq r hmem).1
    simp [hfree] at hl

/-- With one processor and events that carry no value, overtaken values are corrected. -/
theorem corrected_single [Subsingleton ι] (h : F.Coherent svc) (hread : F.Rereads)
    (hsound : s.Sound svc) (ht : F.Tracked s) (hout : F.Outrun s) (as : List (Outbox.Act C X ι)) :
    Transition.Guarded (Outbox.step svc) (F.Corrected svc) s as := by
  have hstep : ∀ (u : Outbox W P φ ι) (a : Outbox.Act C X ι) u',
      (u.Sound svc ∧ F.Tracked u ∧ F.Outrun u) → True → u.step svc a = some u' →
      u'.Sound svc ∧ F.Tracked u' ∧ F.Outrun u' := by
    intro u a u' hu _ ha
    obtain ⟨hsound, ht, hout⟩ := hu
    exact ⟨hsound.step ha, ht.step h.toServed hsound ha, hout.step h hread hsound ht ha⟩
  exact Transition.guarded_invariant hstep (fun u a hu _ => hu.2.2.corrected hu.1 a)
    ⟨hsound, ht, hout⟩ (Transition.guarded_true s as)

end Actions

end Steps

end Feed

end Betsphere
