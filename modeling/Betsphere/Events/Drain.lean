import Betsphere.Events.Delivery
set_option autoImplicit false

namespace Betsphere
variable {P : Type}

abbrev OutboxTable (P : Type) := Table (OutboxRow.id (P := P))

/-- `deliver_batch` with nobody else at the table, and how many it delivered. An event's
handlers end the same way every time. -/
def deliverBatch (succeeds : Nat → Bool) (now : DateTime) (rows : OutboxTable P) :
    OutboxTable P × Nat :=
  let events := (oldestPending rows.rows).map OutboxRow.id
  let delivered := events.filter succeeds
  let failed := events.filter fun id => !succeeds id
  (rows.mapRows (OutboxRow.mark delivered failed now) (OutboxRow.mark_id delivered failed now),
    delivered.length)

/-- The loop of `drain`; `fuel` bounds the batches. -/
def drainLoop (succeeds : Nat → Bool) (now : DateTime) : Nat → OutboxTable P → OutboxTable P
  | 0, rows => rows
  | fuel + 1, rows =>
    match deliverBatch succeeds now rows with
    | (rows, delivered) => if delivered = batch then drainLoop succeeds now fuel rows else rows

/-- Every full batch marks a hundred rows, so there are fewer batches than rows. -/
def drain (succeeds : Nat → Bool) (now : DateTime) (rows : OutboxTable P) : OutboxTable P :=
  drainLoop succeeds now (rows.rows.length + 1) rows

def OutboxRow.pending (r : OutboxRow P) : Bool := r.processedAt.isNone

def failingBefore (succeeds : Nat → Bool) (rows : OutboxTable P) (id : Nat) : Nat :=
  rows.rows.countP fun r => r.pending && !succeeds r.id && decide (r.id < id)

def waiting (succeeds : Nat → Bool) (rows : OutboxTable P) : Nat :=
  rows.rows.countP fun r => r.pending && succeeds r.id

theorem countP_map_le {α : Type} {f : α → α} {p : α → Bool} {rows : List α}
    (h : ∀ r ∈ rows, p (f r) = true → p r = true) : (rows.map f).countP p ≤ rows.countP p := by
  rw [List.countP_map]
  exact List.countP_mono_left h

theorem countP_map_lt {α : Type} {f : α → α} {p : α → Bool} {rows : List α}
    (h : ∀ r ∈ rows, p (f r) = true → p r = true) {x : α} (hx : x ∈ rows) (hp : p x = true)
    (hf : p (f x) = false) : (rows.map f).countP p < rows.countP p := by
  induction rows with
  | nil => simp at hx
  | cons a rest ih =>
    have hrest : ∀ r ∈ rest, p (f r) = true → p r = true := fun r hr => h r (by simp [hr])
    rw [List.map_cons, List.countP_cons, List.countP_cons]
    rcases List.mem_cons.mp hx with rfl | hx
    · have hle := countP_map_le hrest
      rw [if_pos hp, hf, if_neg Bool.false_ne_true]
      omega
    · have hlt := ih hrest hx
      cases hpa : p (f a) with
      | true =>
        rw [if_pos rfl, if_pos (h a (by simp) hpa)]
        omega
      | false =>
        rw [if_neg Bool.false_ne_true]
        omega

section Batch
variable {succeeds : Nat → Bool} {now : DateTime} {rows : OutboxTable P}

theorem deliverBatch_rows : (deliverBatch succeeds now rows).1.rows = rows.rows.map
    (OutboxRow.mark (((oldestPending rows.rows).map OutboxRow.id).filter succeeds)
      (((oldestPending rows.rows).map OutboxRow.id).filter fun id => !succeeds id) now) := rfl

theorem mark_pending {delivered failed : List Nat} {r : OutboxRow P} :
    (r.mark delivered failed now).pending = (r.pending && !decide (r.id ∈ delivered)) := by
  unfold OutboxRow.mark OutboxRow.pending
  by_cases hd : r.id ∈ delivered
  · simp [hd]
  · by_cases hf : r.id ∈ failed
    · simp [hd, hf]
    · simp [hd, hf]

theorem mem_claimed_ids {r : OutboxRow P} (hr : r ∈ rows.rows) :
    r.id ∈ (oldestPending rows.rows).map OutboxRow.id ↔ r ∈ oldestPending rows.rows := by
  constructor
  · intro h
    obtain ⟨x, hx, hid⟩ := List.mem_map.mp h
    obtain rfl : x = r := rows.eq_of_key (mem_oldestPending hx).1 hr hid
    exact hx
  · exact List.mem_map_of_mem

theorem failingBefore_batch (id : Nat) :
    failingBefore succeeds (deliverBatch succeeds now rows).1 id =
      failingBefore succeeds rows id := by
  unfold failingBefore
  rw [deliverBatch_rows, List.countP_map]
  refine List.countP_congr fun r hr => ?_
  simp only [Function.comp_apply, mark_pending, OutboxRow.mark_id, List.mem_filter]
  cases hs : succeeds r.id <;> simp

theorem waiting_batch_le :
    waiting succeeds (deliverBatch succeeds now rows).1 ≤ waiting succeeds rows := by
  unfold waiting
  rw [deliverBatch_rows]
  refine countP_map_le fun r hr h => ?_
  rw [mark_pending, OutboxRow.mark_id] at h
  simp only [Bool.and_eq_true] at h ⊢
  exact ⟨h.1.1, h.2⟩

theorem waiting_batch_lt {r : OutboxRow P} (hr : r ∈ oldestPending rows.rows)
    (hs : succeeds r.id = true) :
    waiting succeeds (deliverBatch succeeds now rows).1 < waiting succeeds rows := by
  obtain ⟨hmem, hnone⟩ := mem_oldestPending hr
  unfold waiting
  rw [deliverBatch_rows]
  refine countP_map_lt (fun x hx h => ?_) hmem ?_ ?_
  · rw [mark_pending, OutboxRow.mark_id] at h
    simp only [Bool.and_eq_true] at h ⊢
    exact ⟨h.1.1, h.2⟩
  · simp [OutboxRow.pending, hnone, hs]
  · have hid : r.id ∈ (oldestPending rows.rows).map OutboxRow.id := List.mem_map_of_mem hr
    rw [mark_pending]
    simp only [List.mem_filter, hid, hs, and_self, decide_true, Bool.not_true, Bool.and_false,
      Bool.false_and]

theorem batch_ids : (deliverBatch succeeds now rows).1.rows.map OutboxRow.id =
    rows.rows.map OutboxRow.id := by
  rw [deliverBatch_rows, List.map_map]
  exact List.map_congr_left fun r _ => OutboxRow.mark_id _ _ _ r

theorem queue_sorted :
    ((rows.rows.filter OutboxRow.pending).insertionSort fun a b => a.id ≤ b.id).Pairwise
      fun a b => a.id ≤ b.id :=
  List.pairwise_insertionSort (fun a b : OutboxRow P => a.id ≤ b.id) _

theorem failingBefore_queue (id : Nat) : failingBefore succeeds rows id =
    ((rows.rows.filter OutboxRow.pending).insertionSort fun a b => a.id ≤ b.id).countP
      fun r => !succeeds r.id && decide (r.id < id) := by
  rw [(List.perm_insertionSort _ _).countP_eq, List.countP_filter]
  unfold failingBefore
  refine List.countP_congr fun r _ => ?_
  cases r.pending <;> simp

/-- A hundred failing events before an event fill the batch. -/
theorem starved {r : OutboxRow P} (h : batch ≤ failingBefore succeeds rows r.id) :
    r ∉ oldestPending rows.rows := by
  intro hr
  rw [failingBefore_queue] at h
  generalize hq : (rows.rows.filter OutboxRow.pending).insertionSort (fun a b => a.id ≤ b.id) = q
    at h
  have hsorted : q.Pairwise fun a b => a.id ≤ b.id := hq ▸ queue_sorted
  have htake : r ∈ q.take batch := hq ▸ hr
  have hlater : (q.drop batch).countP (fun f => !succeeds f.id && decide (f.id < r.id)) = 0 := by
    rw [List.countP_eq_zero]
    intro f hf
    have hsplit := hsorted
    rw [← List.take_append_drop batch q, List.pairwise_append] at hsplit
    have hle := hsplit.2.2 r htake f hf
    simp only [Bool.and_eq_true, decide_eq_true_eq, not_and]
    omega
  have hcount : (q.take batch).countP (fun f => !succeeds f.id && decide (f.id < r.id)) =
      q.countP fun f => !succeeds f.id && decide (f.id < r.id) := by
    conv_rhs => rw [← List.take_append_drop batch q, List.countP_append, hlater]
    simp
  have hlt : (q.take batch).countP (fun f => !succeeds f.id && decide (f.id < r.id)) <
      (q.take batch).length := by
    refine lt_of_le_of_ne List.countP_le_length fun heq => ?_
    have hall := List.countP_eq_length.mp heq r htake
    simp at hall
  have hlen : (q.take batch).length ≤ batch := List.length_take_le _ _
  omega

theorem served {r : OutboxRow P} (hr : r ∈ rows.rows) (hp : r.processedAt = none)
    (hs : succeeds r.id = true) (h : failingBefore succeeds rows r.id < batch) :
    ∃ e ∈ oldestPending rows.rows, succeeds e.id = true := by
  by_cases hclaimed : r ∈ oldestPending rows.rows
  · exact ⟨r, hclaimed, hs⟩
  · by_contra hnone
    rw [failingBefore_queue] at h
    have hmem : r ∈ (rows.rows.filter OutboxRow.pending).insertionSort fun a b => a.id ≤ b.id := by
      rw [List.mem_insertionSort, List.mem_filter]
      exact ⟨hr, by simp [OutboxRow.pending, hp]⟩
    have hnodup : ((rows.rows.filter OutboxRow.pending).map OutboxRow.id).Nodup :=
      (List.filter_sublist.map _).nodup rows.nodup
    have hqueue : oldestPending rows.rows = ((rows.rows.filter OutboxRow.pending).insertionSort
        fun a b => a.id ≤ b.id).take batch := rfl
    have hfield : ∀ e ∈ oldestPending rows.rows, e ∈ rows.rows :=
      fun e he => (mem_oldestPending he).1
    rw [hqueue] at hclaimed hnone hfield
    generalize hq : (rows.rows.filter OutboxRow.pending).insertionSort (fun a b => a.id ≤ b.id) = q
      at h hmem hclaimed hnone hfield
    have hsorted : q.Pairwise fun a b => a.id ≤ b.id := hq ▸ queue_sorted
    have hdrop : r ∈ q.drop batch := by
      rw [← List.take_append_drop batch q, List.mem_append] at hmem
      exact hmem.resolve_left hclaimed
    have hfull : (q.take batch).length = batch := by
      have hpos : 0 < (q.drop batch).length := List.length_pos_of_mem hdrop
      rw [List.length_drop] at hpos
      rw [List.length_take]
      omega
    have hall : (q.take batch).countP (fun f => !succeeds f.id && decide (f.id < r.id)) =
        (q.take batch).length := by
      rw [List.countP_eq_length]
      intro f hf
      have hfail : succeeds f.id = false := by
        by_contra hne
        exact hnone ⟨f, hf, by simpa using hne⟩
      rw [← List.take_append_drop batch q, List.pairwise_append] at hsorted
      have hle := hsorted.2.2 f hf r hdrop
      have hne : f.id ≠ r.id := by
        intro heq
        obtain rfl : f = r := rows.eq_of_key (hfield f hf) hr heq
        exact hclaimed hf
      simp only [hfail, Bool.not_false, Bool.true_and, decide_eq_true_eq]
      omega
    have hle : (q.take batch).countP (fun f => !succeeds f.id && decide (f.id < r.id)) ≤
        q.countP fun f => !succeeds f.id && decide (f.id < r.id) :=
      (List.take_sublist batch q).countP_le
    omega

theorem batch_row {r' : OutboxRow P} (h : r' ∈ (deliverBatch succeeds now rows).1.rows) :
    ∃ r ∈ rows.rows, r'.id = r.id ∧ (r'.processedAt = none → r.processedAt = none) := by
  rw [deliverBatch_rows] at h
  obtain ⟨r, hr, rfl⟩ := List.mem_map.mp h
  refine ⟨r, hr, OutboxRow.mark_id _ _ _ r, fun hnone => ?_⟩
  unfold OutboxRow.mark at hnone
  split at hnone
  · simp at hnone
  · split at hnone <;> exact hnone

def Stuck (succeeds : Nat → Bool) (id : Nat) (rows : OutboxTable P) : Prop :=
  (∃ r ∈ rows.rows, r.id = id ∧ r.processedAt = none) ∧ batch ≤ failingBefore succeeds rows id

def Clear (succeeds : Nat → Bool) (rows : OutboxTable P) : Prop :=
  ∀ r ∈ rows.rows, r.processedAt = none → succeeds r.id = true →
    failingBefore succeeds rows r.id < batch

theorem Stuck.batch {id : Nat} (h : Stuck succeeds id rows) :
    Stuck succeeds id (deliverBatch succeeds now rows).1 := by
  obtain ⟨⟨r, hr, rfl, hnone⟩, hmany⟩ := h
  refine ⟨?_, by rw [failingBefore_batch]; exact hmany⟩
  have hunclaimed : r.id ∉ (oldestPending rows.rows).map OutboxRow.id := by
    rw [mem_claimed_ids hr]
    exact starved hmany
  rw [deliverBatch_rows]
  refine ⟨_, List.mem_map_of_mem hr, OutboxRow.mark_id _ _ _ r, ?_⟩
  unfold OutboxRow.mark
  rw [if_neg (fun hd => hunclaimed (List.mem_of_mem_filter hd)),
    if_neg (fun hf => hunclaimed (List.mem_of_mem_filter hf))]
  exact hnone

theorem Clear.batch (h : Clear succeeds rows) :
    Clear succeeds (deliverBatch succeeds now rows).1 := by
  intro r' hr' hnone hs
  obtain ⟨r, hr, hid, hback⟩ := batch_row hr'
  rw [failingBefore_batch, hid]
  exact h r hr (hback hnone) (hid ▸ hs)

end Batch

section Drain
variable {succeeds : Nat → Bool} {now : DateTime} {rows : OutboxTable P}

theorem drainLoop_invariant {Inv : OutboxTable P → Prop}
    (hbatch : ∀ rows, Inv rows → Inv (deliverBatch succeeds now rows).1) (fuel : Nat)
    (h : Inv rows) : Inv (drainLoop succeeds now fuel rows) := by
  induction fuel generalizing rows with
  | zero => exact h
  | succ fuel ih =>
    simp only [drainLoop]
    split
    · exact ih (hbatch rows h)
    · exact hbatch rows h

theorem drain_invariant {Inv : OutboxTable P → Prop}
    (hbatch : ∀ rows, Inv rows → Inv (deliverBatch succeeds now rows).1) (h : Inv rows) (k : Nat) :
    Inv ((drain succeeds now)^[k] rows) := by
  induction k generalizing rows with
  | zero => exact h
  | succ k ih =>
    rw [Function.iterate_succ_apply]
    exact ih (drainLoop_invariant hbatch _ h)

/-- The fuel of a drain is enough: more of it changes nothing. -/
theorem drainLoop_enough {n m : Nat} (hn : waiting succeeds rows < n)
    (hm : waiting succeeds rows < m) :
    drainLoop succeeds now n rows = drainLoop succeeds now m rows := by
  induction n generalizing rows m with
  | zero => omega
  | succ n ih =>
    cases m with
    | zero => omega
    | succ m =>
      simp only [drainLoop]
      by_cases hfull : (deliverBatch succeeds now rows).2 = batch
      · have hsome : ∃ e ∈ oldestPending rows.rows, succeeds e.id = true := by
          by_contra hnone
          have hempty : ((oldestPending rows.rows).map OutboxRow.id).filter succeeds = [] := by
            rw [List.filter_eq_nil_iff]
            intro id hid hs
            obtain ⟨e, he, rfl⟩ := List.mem_map.mp hid
            exact hnone ⟨e, he, hs⟩
          simp [deliverBatch, hempty, batch] at hfull
        obtain ⟨e, he, hs⟩ := hsome
        have hlt : waiting succeeds (deliverBatch succeeds now rows).1 < waiting succeeds rows :=
          waiting_batch_lt he hs
        rw [if_pos hfull, if_pos hfull]
        exact ih (by omega) (by omega)
      · rw [if_neg hfull, if_neg hfull]

theorem drain_waiting_le : waiting succeeds (drain succeeds now rows) ≤
    waiting succeeds (deliverBatch succeeds now rows).1 := by
  have hloop : ∀ (fuel : Nat) (r : OutboxTable P),
      waiting succeeds (drainLoop succeeds now fuel r) ≤ waiting succeeds r := by
    intro fuel r
    induction fuel generalizing r with
    | zero => exact Nat.le_refl _
    | succ fuel ih =>
      simp only [drainLoop]
      split
      · exact (ih _).trans waiting_batch_le
      · exact waiting_batch_le
  unfold drain
  simp only [drainLoop]
  split
  · exact hloop _ _
  · exact Nat.le_refl _

theorem Stuck.drained {id : Nat} (h : Stuck succeeds id rows) (k : Nat) :
    Stuck succeeds id ((drain succeeds now)^[k] rows) :=
  drain_invariant (fun _ ht => ht.batch) h k

theorem Clear.drain (h : Clear succeeds rows) : Clear succeeds (drain succeeds now rows) :=
  drainLoop_invariant (fun _ ht => ht.batch) _ h

/-- Where no event has a hundred failing ones before it, every drain delivers some. -/
theorem Clear.drained (h : Clear succeeds rows) :
    ∃ k, waiting succeeds ((Betsphere.drain succeeds now)^[k] rows) = 0 := by
  induction hn : waiting succeeds rows using Nat.strong_induction_on generalizing rows with
  | _ n ih =>
    cases n with
    | zero => exact ⟨0, hn⟩
    | succ n =>
      have hpos : 0 < waiting succeeds rows := by omega
      obtain ⟨r, hr, hw⟩ := List.countP_pos_iff.mp hpos
      simp only [Bool.and_eq_true, OutboxRow.pending, Option.isNone_iff_eq_none] at hw
      obtain ⟨e, he, hs⟩ := served hr hw.1 hw.2 (h r hr hw.1 hw.2)
      have hless : waiting succeeds (Betsphere.drain succeeds now rows) < n + 1 := by
        rw [← hn]
        exact lt_of_le_of_lt drain_waiting_le (waiting_batch_lt he hs)
      obtain ⟨k, hk⟩ := ih _ hless h.drain rfl
      exact ⟨k + 1, by rw [Function.iterate_succ_apply]; exact hk⟩

theorem drain_ids (k : Nat) :
    ((drain succeeds now)^[k] rows).rows.map OutboxRow.id = rows.rows.map OutboxRow.id := by
  have hbatch : ∀ t : OutboxTable P, t.rows.map OutboxRow.id = rows.rows.map OutboxRow.id →
      (deliverBatch succeeds now t).1.rows.map OutboxRow.id = rows.rows.map OutboxRow.id :=
    fun t ht => batch_ids.trans ht
  exact drain_invariant hbatch rfl k

end Drain

/-- Every deliverable event is marked after some number of drains, exactly when fewer
than a hundred pending events that keep failing come before each of them. -/
theorem drained_iff (succeeds : Nat → Bool) (now : DateTime) (rows : OutboxTable P) :
    (∃ k, ∀ r ∈ rows.rows, r.processedAt = none → succeeds r.id = true →
      ∃ r' ∈ ((drain succeeds now)^[k] rows).rows, r'.id = r.id ∧ r'.processedAt ≠ none) ↔
    ∀ r ∈ rows.rows, r.processedAt = none → succeeds r.id = true →
      failingBefore succeeds rows r.id < batch := by
  constructor
  · intro hex r hr hnone hs
    obtain ⟨k, hk⟩ := hex
    by_contra hmany
    obtain ⟨r', hr', hid, hdone⟩ := hk r hr hnone hs
    have hstuck : Stuck succeeds r.id rows := ⟨⟨r, hr, rfl, hnone⟩, by omega⟩
    obtain ⟨x, hx, hxid, hxnone⟩ := (hstuck.drained k).1
    obtain rfl : r' = x := Table.eq_of_key hr' hx (hid.trans hxid.symm)
    exact hdone hxnone
  · intro hfew
    have hclear : Clear succeeds rows := hfew
    obtain ⟨k, hk⟩ : ∃ k, waiting succeeds ((drain succeeds now)^[k] rows) = 0 := hclear.drained
    refine ⟨k, fun r hr hnone hs => ?_⟩
    have hmem : r.id ∈ ((drain succeeds now)^[k] rows).rows.map OutboxRow.id := by
      rw [drain_ids]
      exact List.mem_map_of_mem hr
    obtain ⟨r', hr', hid⟩ := List.mem_map.mp hmem
    refine ⟨r', hr', hid, fun hpending => ?_⟩
    have hzero := List.countP_eq_zero.mp hk r' hr'
    simp [OutboxRow.pending, hpending, hid, hs] at hzero

namespace Sample

/-- Events 0 to 99 keep failing, event 100 does not. -/
def backlog : OutboxTable Unit where
  rows := (List.range 101).map fun id => ⟨id, "bet.placed", (), 0, none⟩
  nodup := by
    rw [List.map_map]
    exact List.nodup_range.map fun _ _ h => h

def onlyLast (id : Nat) : Bool := decide (100 ≤ id)

end Sample

theorem backlog_starves :
    ¬∃ k, ∀ r ∈ Sample.backlog.rows, r.processedAt = none → Sample.onlyLast r.id = true →
      ∃ r' ∈ ((drain Sample.onlyLast 0)^[k] Sample.backlog).rows,
        r'.id = r.id ∧ r'.processedAt ≠ none := by
  have hlast : (⟨100, "bet.placed", (), 0, none⟩ : OutboxRow Unit) ∈ Sample.backlog.rows :=
    List.mem_map.mpr ⟨100, by simp, rfl⟩
  have hstuck : Stuck Sample.onlyLast 100 Sample.backlog :=
    ⟨⟨_, hlast, rfl, rfl⟩, by decide +kernel⟩
  intro hex
  obtain ⟨k, hk⟩ := hex
  obtain ⟨r', hr', hid, hdone⟩ := hk _ hlast rfl (by decide)
  obtain ⟨x, hx, hxid, hxnone⟩ := (hstuck.drained k).1
  obtain rfl : r' = x := Table.eq_of_key hr' hx (hid.trans hxid.symm)
  exact hdone hxnone

section Refinement
variable {W C X φ ι : Type} [DecidableEq ι] {svc : Service W C X P φ}

theorem handles_keep {s s' : Outbox W P φ ι} {p : ι} {xs : List X} {batch : List (OutboxRow P)}
    (hpass : ∃ pass, s.passes p = some pass ∧ pass.claimed = batch)
    (hr : Transition.run (Outbox.step svc) s (xs.map (.handle p)) = some s') :
    s'.rows = s.rows ∧ ∃ pass, s'.passes p = some pass ∧ pass.claimed = batch := by
  induction xs generalizing s with
  | nil =>
    cases hr
    exact ⟨rfl, hpass⟩
  | cons x xs ih =>
    obtain ⟨u, hu, hrest⟩ := Transition.run_cons_some hr
    obtain ⟨pass, hp, hclaimed⟩ := hpass
    cases Outbox.step_effect hu with
    | handled p x pass₀ pass' w hp₀ hadv =>
      rw [hp] at hp₀
      cases hp₀
      have hnext : ∃ pass'', Function.update s.passes p (some pass') p = some pass'' ∧
          pass''.claimed = batch :=
        ⟨pass', Function.update_self _ _ _, (Pass.Progress.claimed_advance hadv).trans hclaimed⟩
      have hkept := ih hnext hrest
      exact hkept

/-- A pass of the processor that meets nobody else is `deliverBatch`. -/
theorem pass_is_batch {s₀ s₁ s₂ s₃ : Outbox W P φ ι} {p : ι} {xs : List X} {now : DateTime}
    {succeeds : Nat → Bool} (hsound : s₀.Sound svc) (hfree : ∀ id, s₀.locks id = none)
    (h₁ : s₀.step svc (.claim p) = some s₁)
    (h₂ : Transition.run (Outbox.step svc) s₁ (xs.map (.handle p)) = some s₂)
    (h₃ : s₂.step svc (.commit p now) = some s₃)
    (hout : ∀ pass, s₂.passes p = some pass → ∀ r ∈ pass.claimed,
      accepts pass.returned r.id = succeeds r.id) :
    s₃.rows = (deliverBatch succeeds now s₀.rows).1 := by
  have hsound₂ : s₂.Sound svc := (hsound.step h₁).run h₂
  have hclaim : s₀.claimable = oldestPending s₀.rows.rows := by
    unfold Outbox.claimable
    rw [List.filter_eq_self.mpr fun r _ => by simp [hfree]]
  have hstart : ∃ pass, s₁.passes p = some pass ∧ pass.claimed = oldestPending s₀.rows.rows := by
    cases Outbox.step_effect h₁ with
    | claimed p hp => exact ⟨_, Function.update_self _ _ _, hclaim⟩
  have hrows₁ : s₁.rows = s₀.rows := by
    cases Outbox.step_effect h₁ with
    | claimed p hp => rfl
  obtain ⟨hrows₂, pass, hp, hclaimed⟩ := handles_keep hstart h₂
  cases Outbox.step_effect h₃ with
  | committed p now pass' hp' htodo hcur =>
    rw [hp] at hp'
    cases hp'
    obtain ⟨gone, hgone⟩ := hsound₂.progress p pass hp
    have hwhole := hgone.whole htodo hcur
    have hdelivered : pass.delivered =
        ((oldestPending s₀.rows.rows).map OutboxRow.id).filter succeeds := by
      rw [hgone.delivered, hwhole, List.filter_map, ← hclaimed]
      congr 1
      exact List.filter_congr fun r hr => hout pass hp r hr
    have hfailed : pass.failed =
        ((oldestPending s₀.rows.rows).map OutboxRow.id).filter fun id => !succeeds id := by
      rw [hgone.failed, hwhole, List.filter_map, ← hclaimed]
      congr 1
      exact List.filter_congr fun r hr => by simp [hout pass hp r hr]
    apply Table.ext
    rw [Table.rows_mapRows, deliverBatch_rows, hrows₂, hrows₁, hdelivered, hfailed]

end Refinement

end Betsphere
