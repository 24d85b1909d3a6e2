import Betsphere.Events.Outbox
set_option autoImplicit false

namespace Betsphere

theorem mem_oldestPending {P : Type} {rows : List (OutboxRow P)} {r : OutboxRow P}
    (h : r ∈ oldestPending rows) : r ∈ rows ∧ r.processedAt = none := by
  have hmem := List.mem_of_mem_take h
  rw [List.mem_insertionSort, List.mem_filter] at hmem
  simpa using hmem

theorem oldestPending_sorted {P : Type} {rows : List (OutboxRow P)}
    (h : (rows.map OutboxRow.id).Nodup) :
    (oldestPending rows).Pairwise fun a b => a.id < b.id := by
  have hsorted : (oldestPending rows).Pairwise fun a b => a.id ≤ b.id :=
    (List.pairwise_insertionSort (fun a b : OutboxRow P => a.id ≤ b.id) _).sublist
      (List.take_sublist _ _)
  have hnodup : ((oldestPending rows).map OutboxRow.id).Nodup := by
    refine ((List.take_sublist _ _).map _).nodup ?_
    refine ((List.perm_insertionSort _ _).map _).nodup_iff.mpr ?_
    exact (List.filter_sublist.map _).nodup h
  rw [List.Nodup, List.pairwise_map] at hnodup
  exact (hsorted.and hnodup).imp fun h => Nat.lt_of_le_of_ne h.1 h.2

theorem older_oldestPending {P : Type} {rows : List (OutboxRow P)} {a b : OutboxRow P}
    (hb : b ∈ oldestPending rows) (ha : a ∈ rows) (hnone : a.processedAt = none)
    (hlt : a.id < b.id) : a ∈ oldestPending rows := by
  have hmem : a ∈ (rows.filter fun r => r.processedAt.isNone).insertionSort fun a b =>
      a.id ≤ b.id := by
    rw [List.mem_insertionSort, List.mem_filter]
    exact ⟨ha, by simp [hnone]⟩
  have hsorted := List.pairwise_insertionSort (fun a b : OutboxRow P => a.id ≤ b.id)
    (rows.filter fun r => r.processedAt.isNone)
  unfold oldestPending at hb ⊢
  rw [← List.take_append_drop batch (List.insertionSort _ _)] at hmem hsorted
  rcases List.mem_append.mp hmem with htake | hdrop
  · exact htake
  · have hle := (List.pairwise_append.mp hsorted).2.2 b hb a hdrop
    omega

section Answers
variable {P φ W C X : Type}

def accepts (returned : List Returned) (id : Nat) : Bool :=
  returned.all fun r => !decide (r.event = id) || r.accepted

def Answered (returned : List Returned) (id n : Nat) : Prop :=
  ∀ k < n, ∃ r ∈ returned, r.event = id ∧ r.handler = k

theorem accepts_iff {returned : List Returned} {id : Nat} :
    accepts returned id = true ↔ ∀ r ∈ returned, r.event = id → r.accepted = true := by
  simp only [accepts, List.all_eq_true, Bool.or_eq_true, Bool.not_eq_true', decide_eq_false_iff_not]
  constructor
  · intro h r hr hid
    exact (h r hr).resolve_left (fun hne => hne hid)
  · intro h r hr
    by_cases hid : r.event = id
    · exact .inr (h r hr hid)
    · exact .inl hid

theorem accepts_append_other {returned : List Returned} {r : Returned} {id : Nat}
    (h : r.event ≠ id) : accepts (returned ++ [r]) id = accepts returned id := by
  simp [accepts, h]

theorem accepts_append_own {returned : List Returned} {r : Returned} :
    accepts (returned ++ [r]) r.event = (accepts returned r.event && r.accepted) := by
  simp [accepts]

theorem accepts_unknown {returned : List Returned} {id : Nat} (h : ∀ r ∈ returned, r.event ≠ id) :
    accepts returned id = true := by
  rw [accepts_iff]
  intro r hr hid
  exact absurd hid (h r hr)

theorem Answered.append {returned : List Returned} {id n : Nat} (h : Answered returned id n)
    (more : List Returned) : Answered (returned ++ more) id n := by
  intro k hk
  obtain ⟨r, hr, hid, hpos⟩ := h k hk
  exact ⟨r, List.mem_append_left _ hr, hid, hpos⟩

theorem Answered.succ {returned : List Returned} {r : Returned} {n : Nat}
    (h : Answered returned r.event n) (hr : r.handler = n) :
    Answered (returned ++ [r]) r.event (n + 1) := by
  intro k hk
  rcases Nat.lt_succ_iff_lt_or_eq.mp hk with hlt | rfl
  · exact h.append [r] k hlt
  · exact ⟨r, by simp, rfl, hr⟩

/-- Where a pass stands: `gone` is the part of its batch it is through with. -/
structure Pass.Progress (svc : Service W C X P φ) (pass : Pass P φ) (gone : List (OutboxRow P)) :
    Prop where
  split : pass.claimed = gone ++ (pass.current.map Attempt.event).toList ++ pass.todo
  sorted : pass.claimed.Pairwise fun a b => a.id < b.id
  delivered : pass.delivered = (gone.filter fun r => accepts pass.returned r.id).map OutboxRow.id
  failed : pass.failed = (gone.filter fun r => !accepts pass.returned r.id).map OutboxRow.id
  answered : ∀ r ∈ gone, Answered pass.returned r.id (svc.registry.get r.topic).length
  current : ∀ a, pass.current = some a →
    Answered pass.returned a.event.id a.next ∧ a.ok = accepts pass.returned a.event.id
  known : ∀ r ∈ pass.returned, r.event ∈ gone.map OutboxRow.id ∨
    ∃ a, pass.current = some a ∧ r.event = a.event.id

namespace Pass.Progress
variable {svc : Service W C X P φ} {pass : Pass P φ} {gone : List (OutboxRow P)}

theorem begin {events : List (OutboxRow P)} (h : events.Pairwise fun a b => a.id < b.id) :
    (Pass.begin events : Pass P φ).Progress svc [] := by
  constructor <;> simp [Pass.begin, h]

theorem before (h : pass.Progress svc gone) {event : OutboxRow P}
    (hev : event ∈ (pass.current.map Attempt.event).toList ++ pass.todo) {r : OutboxRow P}
    (hr : r ∈ gone) : r.id < event.id := by
  have hsorted := h.sorted
  rw [h.split, List.append_assoc, List.pairwise_append] at hsorted
  exact hsorted.2.2 r hr event hev

theorem gone_ne (h : pass.Progress svc gone) {event : OutboxRow P}
    (hev : event ∈ (pass.current.map Attempt.event).toList ++ pass.todo) {r : OutboxRow P}
    (hr : r ∈ gone) : event.id ≠ r.id := by
  have hlt := h.before hev hr
  omega

theorem record (h : pass.Progress svc gone) {a : Attempt P φ} (hcur : pass.current = some a)
    (result : Except DeliveryError Unit) : (pass.record a result).Progress svc gone := by
  have hne : ∀ r ∈ gone, a.event.id ≠ r.id := fun r hr => h.gone_ne (by simp [hcur]) hr
  have hsame : ∀ r ∈ gone,
      accepts (pass.returned ++ [⟨a.event.id, a.next, result⟩]) r.id = accepts pass.returned r.id :=
    fun r hr => accepts_append_other (hne r hr)
  obtain ⟨hans, hok⟩ := h.current a hcur
  constructor
  · simpa [Pass.record, hcur] using h.split
  · exact h.sorted
  · rw [Pass.record, h.delivered]
    congr 1
    exact List.filter_congr fun r hr => (hsame r hr).symm
  · rw [Pass.record, h.failed]
    congr 1
    exact List.filter_congr fun r hr => by rw [hsame r hr]
  · intro r hr
    exact (h.answered r hr).append _
  · intro b hb
    simp only [Pass.record, Option.some.injEq] at hb
    subst hb
    refine ⟨Answered.succ (r := ⟨a.event.id, a.next, result⟩) hans rfl, ?_⟩
    simp only [Pass.record, hok]
    exact (accepts_append_own (r := ⟨a.event.id, a.next, result⟩)).symm
  · intro r hr
    simp only [Pass.record, List.mem_append, List.mem_singleton] at hr
    rcases hr with hr | rfl
    · rcases h.known r hr with hgone | ⟨b, hb, hid⟩
      · exact .inl hgone
      · rw [hcur] at hb
        cases hb
        exact .inr ⟨_, rfl, hid⟩
    · exact .inr ⟨_, rfl, rfl⟩

theorem running (h : pass.Progress svc gone) {a : Attempt P φ} (hcur : pass.current = some a)
    (phase : Option φ) :
    ({ pass with current := some { a with running := phase } } : Pass P φ).Progress svc gone := by
  constructor
  · simpa [hcur] using h.split
  · exact h.sorted
  · exact h.delivered
  · exact h.failed
  · exact h.answered
  · intro b hb
    cases hb
    exact h.current a hcur
  · intro r hr
    rcases h.known r hr with hgone | ⟨b, hb, hid⟩
    · exact .inl hgone
    · rw [hcur] at hb
      cases hb
      exact .inr ⟨_, rfl, hid⟩

theorem finish (h : pass.Progress svc gone) {a : Attempt P φ} (hcur : pass.current = some a)
    (hall : (svc.registry.get a.event.topic).length ≤ a.next) :
    (pass.finish a).Progress svc (gone ++ [a.event]) := by
  obtain ⟨hans, hok⟩ := h.current a hcur
  have hsplit : pass.claimed = (gone ++ [a.event]) ++ pass.todo := by
    simpa [hcur] using h.split
  have hanswered : ∀ r ∈ gone ++ [a.event],
      Answered pass.returned r.id (svc.registry.get r.topic).length := by
    intro r hr
    simp only [List.mem_append, List.mem_singleton] at hr
    rcases hr with hr | rfl
    · exact h.answered r hr
    · intro k hk
      exact hans k (by omega)
  have hknown : ∀ r ∈ pass.returned, r.event ∈ (gone ++ [a.event]).map OutboxRow.id := by
    intro r hr
    rw [List.map_append, List.mem_append]
    rcases h.known r hr with hgone | ⟨b, hb, hid⟩
    · exact .inl hgone
    · rw [hcur] at hb
      cases hb
      exact .inr (by simp [hid])
  unfold Pass.finish
  cases hacc : a.ok with
  | true =>
    rw [hacc] at hok
    refine ⟨by simpa using hsplit, h.sorted, ?_, ?_, hanswered, by simp, fun r hr =>
      .inl (hknown r hr)⟩
    · simp [h.delivered, ← hok]
    · simp [h.failed, ← hok]
  | false =>
    rw [hacc] at hok
    refine ⟨by simpa using hsplit, h.sorted, ?_, ?_, hanswered, by simp, fun r hr =>
      .inl (hknown r hr)⟩
    · simp [h.delivered, ← hok]
    · simp [h.failed, ← hok]

theorem next (h : pass.Progress svc gone) {event : OutboxRow P} {todo : List (OutboxRow P)}
    (hcur : pass.current = none) (htodo : pass.todo = event :: todo) :
    ({ pass with todo, current := some ⟨event, 0, none, true⟩ } : Pass P φ).Progress svc gone := by
  constructor
  · simpa [hcur, htodo] using h.split
  · exact h.sorted
  · exact h.delivered
  · exact h.failed
  · exact h.answered
  · intro b hb
    cases hb
    refine ⟨fun k hk => absurd hk (Nat.not_lt_zero k), ?_⟩
    refine (accepts_unknown fun r hr heq => ?_).symm
    change r.event = event.id at heq
    rcases h.known r hr with hgone | ⟨b, hb, -⟩
    · obtain ⟨g, hg, hid⟩ := List.mem_map.mp hgone
      have hne : event.id ≠ g.id := h.gone_ne (by simp [htodo]) hg
      omega
    · simp [hcur] at hb
  · intro r hr
    rcases h.known r hr with hgone | ⟨b, hb, -⟩
    · exact .inl hgone
    · simp [hcur] at hb

theorem claimed_advance {x : X} {w w' : W} {pass' : Pass P φ}
    (ha : Pass.Advance svc x w pass w' pass') : pass'.claimed = pass.claimed := by
  cases ha with
  | finished a hcur hrun hget =>
    unfold Pass.finish
    split <;> rfl
  | _ => rfl

theorem advance {x : X} {w w' : W} {pass' : Pass P φ} (h : pass.Progress svc gone)
    (ha : Pass.Advance svc x w pass w' pass') : ∃ gone', pass'.Progress svc gone' := by
  cases ha with
  | next event todo hcur htodo => exact ⟨gone, h.next hcur htodo⟩
  | started a handler phase hcur hrun hget hdecode => exact ⟨gone, h.running hcur _⟩
  | refused a handler e hcur hrun hget hdecode => exact ⟨gone, h.record hcur _⟩
  | finished a hcur hrun hget =>
    exact ⟨gone ++ [a.event], h.finish hcur (List.getElem?_eq_none_iff.mp hget)⟩
  | moved a phase phase' w' hcur hrun hstep => exact ⟨gone, h.running hcur _⟩
  | returned a phase result w' hcur hrun hstep => exact ⟨gone, h.record hcur _⟩

theorem whole (h : pass.Progress svc gone) (htodo : pass.todo = []) (hcur : pass.current = none) :
    gone = pass.claimed := by
  simpa [hcur, htodo] using h.split.symm

end Pass.Progress

end Answers

/-- The lock table and the open passes agree with the rows. -/
structure Outbox.Sound {W C X P φ ι : Type} (svc : Service W C X P φ) (s : Outbox W P φ ι) :
    Prop where
  held : ∀ p pass, s.passes p = some pass → ∀ r ∈ pass.claimed,
    s.locks r.id = some p ∧ r ∈ s.rows.rows ∧ r.processedAt = none
  locked : ∀ id p, s.locks id = some p →
    ∃ pass, s.passes p = some pass ∧ id ∈ pass.claimed.map OutboxRow.id
  progress : ∀ p pass, s.passes p = some pass → ∃ gone, pass.Progress svc gone
  drawn : ∀ r ∈ s.rows.rows, r.id ∈ s.drawn

namespace Outbox
variable {W C X P φ ι : Type} {svc : Service W C X P φ} {s s' : Outbox W P φ ι}

theorem mem_claimable {r : OutboxRow P} (h : r ∈ s.claimable) :
    r ∈ s.rows.rows ∧ r.processedAt = none ∧ s.locks r.id = none := by
  obtain ⟨hmem, hnone⟩ := mem_oldestPending h
  rw [List.mem_filter, Option.isNone_iff_eq_none] at hmem
  exact ⟨hmem.1, hnone, hmem.2⟩

theorem claimable_sorted (s : Outbox W P φ ι) : s.claimable.Pairwise fun a b => a.id < b.id :=
  oldestPending_sorted ((List.filter_sublist.map _).nodup s.rows.nodup)

theorem init_sound (w : W) : (init w : Outbox W P φ ι).Sound svc := by
  constructor <;> simp [init]

theorem Sound.rows_transacted (h : s.Sound svc) {events : List (Nat × String × P)}
    (hnodup : (events.map Prod.fst).Nodup) (hfresh : ∀ e ∈ events, e.1 ∉ s.drawn) :
    ((events.map queued).foldl Table.upsert s.rows).rows = s.rows.rows ++ events.map queued := by
  refine Table.rows_foldl_upsert ?_ ?_
  · intro r hr
    obtain ⟨e, he, rfl⟩ := List.mem_map.mp hr
    rw [Table.find?_eq_none]
    intro r' hr' heq
    have hid : r'.id = e.1 := heq
    exact hfresh e he (hid ▸ h.drawn r' hr')
  · rw [List.map_map]
    exact hnodup

/-- A row is claimed by one open pass at most. -/
theorem Sound.owner (h : s.Sound svc) {p q : ι} {pass pass' : Pass P φ}
    (hp : s.passes p = some pass) (hq : s.passes q = some pass') {id : Nat}
    (hid : id ∈ pass.claimed.map OutboxRow.id) (hid' : id ∈ pass'.claimed.map OutboxRow.id) :
    p = q := by
  obtain ⟨r, hr, rfl⟩ := List.mem_map.mp hid
  obtain ⟨r', hr', heq⟩ := List.mem_map.mp hid'
  have hl := (h.held p pass hp r hr).1
  have hl' := (h.held q pass' hq r' hr').1
  rw [heq, hl] at hl'
  exact Option.some.inj hl'

theorem Sound.marked (h : s.Sound svc) {p : ι} {pass : Pass P φ} (hp : s.passes p = some pass)
    {now : DateTime} {r : OutboxRow P} (hr : r.id ∉ pass.claimed.map OutboxRow.id) :
    r.mark pass.delivered pass.failed now = r := by
  obtain ⟨gone, hgone⟩ := h.progress p pass hp
  have hsub : ∀ x ∈ gone, x.id ∈ pass.claimed.map OutboxRow.id := by
    intro x hx
    rw [hgone.split]
    exact List.mem_map_of_mem (by simp [hx])
  have hdelivered : r.id ∉ pass.delivered := by
    rw [hgone.delivered]
    intro hmem
    obtain ⟨x, hx, hid⟩ := List.mem_map.mp hmem
    exact hr (hid ▸ hsub x (List.mem_of_mem_filter hx))
  have hfailed : r.id ∉ pass.failed := by
    rw [hgone.failed]
    intro hmem
    obtain ⟨x, hx, hid⟩ := List.mem_map.mp hmem
    exact hr (hid ▸ hsub x (List.mem_of_mem_filter hx))
  simp [OutboxRow.mark, hdelivered, hfailed]

theorem Sound.current_row (h : s.Sound svc) {p : ι} {pass : Pass P φ} {a : Attempt P φ}
    (hp : s.passes p = some pass) (hcur : pass.current = some a) :
    a.event ∈ pass.claimed ∧ a.event ∈ s.rows.rows ∧ a.event.processedAt = none := by
  obtain ⟨gone, hgone⟩ := h.progress p pass hp
  have hmem : a.event ∈ pass.claimed := by
    rw [hgone.split, hcur]
    simp
  exact ⟨hmem, (h.held p pass hp _ hmem).2⟩

theorem Sound.transacted (h : s.Sound svc) {w : W} {events : List (Nat × String × P)}
    (hnodup : (events.map Prod.fst).Nodup) (hfresh : ∀ e ∈ events, e.1 ∉ s.drawn) :
    Sound svc { s with
      world := w
      rows := (events.map queued).foldl Table.upsert s.rows
      drawn := s.drawn ++ events.map Prod.fst } := by
  have hrows := h.rows_transacted hnodup hfresh
  constructor
  · intro p pass hp r hr
    obtain ⟨hl, hmem, hnone⟩ := h.held p pass hp r hr
    exact ⟨hl, by simp only [hrows, List.mem_append]; exact .inl hmem, hnone⟩
  · exact h.locked
  · exact h.progress
  · intro r hr
    simp only [hrows, List.mem_append] at hr
    rw [List.mem_append]
    rcases hr with hr | hr
    · exact .inl (h.drawn r hr)
    · obtain ⟨e, he, rfl⟩ := List.mem_map.mp hr
      exact .inr (List.mem_map_of_mem he)

theorem Sound.pruned (h : s.Sound svc) (now : DateTime) :
    Sound svc { s with
      rows := s.rows.filter fun r => !r.processedAt.any fun t => t < now - retention } := by
  constructor
  · intro p pass hp r hr
    obtain ⟨hl, hmem, hnone⟩ := h.held p pass hp r hr
    refine ⟨hl, ?_, hnone⟩
    rw [Table.rows_filter, List.mem_filter]
    exact ⟨hmem, by simp [hnone]⟩
  · exact h.locked
  · exact h.progress
  · intro r hr
    rw [Table.rows_filter] at hr
    exact h.drawn r (List.mem_of_mem_filter hr)

variable [DecidableEq ι]

theorem close_passes {p q : ι} {pass : Pass P φ} :
    (s.close p).passes q = some pass ↔ q ≠ p ∧ s.passes q = some pass := by
  by_cases hq : q = p
  · simp [close, hq]
  · simp [close, hq]

theorem close_locks {p q : ι} {id : Nat} :
    (s.close p).locks id = some q ↔ q ≠ p ∧ s.locks id = some q := by
  simp only [close]
  by_cases hl : s.locks id = some p
  · simp only [hl, if_true, Option.some.injEq]
    constructor
    · intro h
      simp at h
    · intro h
      exact absurd h.2.symm h.1
  · simp only [hl, if_false]
    constructor
    · intro h
      refine ⟨?_, h⟩
      rintro rfl
      exact hl h
    · exact And.right

theorem Sound.close (h : s.Sound svc) (p : ι) : (s.close p).Sound svc := by
  constructor
  · intro q pass hq r hr
    obtain ⟨hne, hq⟩ := close_passes.mp hq
    obtain ⟨hl, hrow⟩ := h.held q pass hq r hr
    exact ⟨close_locks.mpr ⟨hne, hl⟩, hrow⟩
  · intro id q hq
    obtain ⟨hne, hq⟩ := close_locks.mp hq
    obtain ⟨pass, hpass, hid⟩ := h.locked id q hq
    exact ⟨pass, close_passes.mpr ⟨hne, hpass⟩, hid⟩
  · intro q pass hq
    exact h.progress q pass (close_passes.mp hq).2
  · exact h.drawn

theorem Sound.claimed (h : s.Sound svc) {p : ι} (hp : s.passes p = none) :
    Sound svc { s with
      locks := fun id => if id ∈ s.claimable.map OutboxRow.id then some p else s.locks id
      passes := Function.update s.passes p (some (.begin s.claimable)) } := by
  constructor
  · intro q pass hq r hr
    by_cases hpq : q = p
    · subst hpq
      simp only [Function.update_self, Option.some.injEq] at hq
      subst hq
      obtain ⟨hmem, hnone, -⟩ := mem_claimable hr
      have hid : r.id ∈ s.claimable.map OutboxRow.id := List.mem_map_of_mem hr
      exact ⟨if_pos hid, hmem, hnone⟩
    · have hq' : s.passes q = some pass := by simpa [hpq] using hq
      obtain ⟨hl, hrow⟩ := h.held q pass hq' r hr
      have hfree : r.id ∉ s.claimable.map OutboxRow.id := by
        intro hmem
        obtain ⟨r', hr', hid⟩ := List.mem_map.mp hmem
        have hnone := (mem_claimable hr').2.2
        rw [hid, hl] at hnone
        simp at hnone
      exact ⟨(if_neg hfree).trans hl, hrow⟩
  · intro id q hl
    simp only at hl
    split at hl
    · rename_i hid
      cases hl
      exact ⟨_, Function.update_self _ _ _, hid⟩
    · obtain ⟨pass, hpass, hid⟩ := h.locked id q hl
      have hne : q ≠ p := by
        rintro rfl
        simp [hp] at hpass
      exact ⟨pass, by simpa [hne] using hpass, hid⟩
  · intro q pass hq
    by_cases hpq : q = p
    · subst hpq
      simp only [Function.update_self, Option.some.injEq] at hq
      subst hq
      exact ⟨[], Pass.Progress.begin s.claimable_sorted⟩
    · exact h.progress q pass (by simpa [hpq] using hq)
  · exact h.drawn

theorem Sound.handled (h : s.Sound svc) {p : ι} {x : X} {pass pass' : Pass P φ} {w : W}
    (hp : s.passes p = some pass) (hadv : Pass.Advance svc x s.world pass w pass') :
    Sound svc { s with world := w, passes := Function.update s.passes p (some pass') } := by
  have hclaimed := Pass.Progress.claimed_advance hadv
  constructor
  · intro q other hq r hr
    by_cases hpq : q = p
    · subst hpq
      simp only [Function.update_self, Option.some.injEq] at hq
      subst hq
      exact h.held q pass hp r (hclaimed ▸ hr)
    · exact h.held q other (by simpa [hpq] using hq) r hr
  · intro id q hl
    obtain ⟨other, hother, hid⟩ := h.locked id q hl
    by_cases hpq : q = p
    · subst hpq
      rw [hp] at hother
      cases hother
      exact ⟨pass', Function.update_self _ _ _, hclaimed ▸ hid⟩
    · exact ⟨other, by simpa [hpq] using hother, hid⟩
  · intro q other hq
    by_cases hpq : q = p
    · subst hpq
      simp only [Function.update_self, Option.some.injEq] at hq
      subst hq
      obtain ⟨gone, hgone⟩ := h.progress q pass hp
      exact hgone.advance hadv
    · exact h.progress q other (by simpa [hpq] using hq)
  · exact h.drawn

theorem Sound.committed (h : s.Sound svc) {p : ι} {now : DateTime} {pass : Pass P φ}
    (hp : s.passes p = some pass) :
    Sound svc { s.close p with
      rows := s.rows.mapRows (OutboxRow.mark pass.delivered pass.failed now)
        (OutboxRow.mark_id pass.delivered pass.failed now) } := by
  have hclose := h.close p
  constructor
  · intro q other hq r hr
    obtain ⟨hl, hmem, hnone⟩ := hclose.held q other hq r hr
    refine ⟨hl, ?_, hnone⟩
    rw [Table.rows_mapRows, List.mem_map]
    refine ⟨r, hmem, h.marked hp fun hid => ?_⟩
    obtain ⟨hne, hq⟩ := close_passes.mp hq
    exact hne (h.owner hq hp (List.mem_map_of_mem hr) hid)
  · exact hclose.locked
  · exact hclose.progress
  · intro r hr
    rw [Table.rows_mapRows, List.mem_map] at hr
    obtain ⟨r', hr', rfl⟩ := hr
    rw [OutboxRow.mark_id]
    exact h.drawn r' hr'

theorem Sound.step (h : s.Sound svc) {a : Outbox.Act C X ι} (ha : s.step svc a = some s') :
    s'.Sound svc := by
  cases step_effect ha with
  | transacted c w events ht hnodup hfresh => exact h.transacted hnodup hfresh
  | claimed p hp => exact h.claimed hp
  | handled p x pass pass' w hp hadv => exact h.handled hp hadv
  | committed p now pass hp htodo hcur => exact h.committed hp
  | rolledBack p pass hp => exact h.close p
  | pruned now => exact h.pruned now

theorem Sound.run {as : List (Outbox.Act C X ι)} (h : s.Sound svc)
    (hr : Transition.run (Outbox.step svc) s as = some s') : s'.Sound svc :=
  Transition.run_invariant' (fun _ _ _ hi hs => hi.step hs) h hr

omit [DecidableEq ι] in
/-- One processor claims every older pending event along with a newer one. -/
theorem Sound.claim_takes_older [Subsingleton ι] (h : s.Sound svc) {p : ι}
    (hp : s.passes p = none) {r r' : OutboxRow P} (hr' : r' ∈ s.claimable) (hr : r ∈ s.rows.rows)
    (hnone : r.processedAt = none) (hlt : r.id < r'.id) : r ∈ s.claimable := by
  refine older_oldestPending hr' ?_ hnone hlt
  rw [List.mem_filter]
  refine ⟨hr, ?_⟩
  cases hl : s.locks r.id with
  | none => rfl
  | some q =>
    obtain ⟨pass, hq, -⟩ := h.locked r.id q hl
    obtain rfl := Subsingleton.elim q p
    simp [hp] at hq

omit [DecidableEq ι] in
/-- A pass marks exactly the events of its batch that none of its handlers failed. -/
theorem Sound.delivered_iff (h : s.Sound svc) {p : ι} {pass : Pass P φ}
    (hp : s.passes p = some pass) (htodo : pass.todo = []) (hcur : pass.current = none)
    {r : OutboxRow P} (hr : r ∈ s.rows.rows) :
    r.id ∈ pass.delivered ↔ r ∈ pass.claimed ∧ accepts pass.returned r.id = true := by
  obtain ⟨gone, hgone⟩ := h.progress p pass hp
  rw [hgone.delivered, hgone.whole htodo hcur]
  constructor
  · intro hmem
    obtain ⟨x, hx, hid⟩ := List.mem_map.mp hmem
    obtain ⟨hx, hacc⟩ := List.mem_filter.mp hx
    obtain rfl : x = r := s.rows.eq_of_key (h.held p pass hp x hx).2.1 hr hid
    exact ⟨hx, hacc⟩
  · intro hmem
    exact List.mem_map_of_mem (List.mem_filter.mpr hmem)

end Outbox

/-- In every run of any number of processors, whatever the handlers answer and whichever
passes are rolled back. -/
theorem outbox_loses_nothing {W C X P φ ι : Type} [DecidableEq ι] {svc : Service W C X P φ} {w : W}
    {as : List (Outbox.Act C X ι)} {a : Outbox.Act C X ι} {s s' : Outbox W P φ ι}
    (h : Transition.run (Outbox.step svc) (.init w) as = some s) (ha : s.step svc a = some s') :
    (∀ r ∈ s.rows.rows, r.processedAt = none →
      ∀ r' ∈ s'.rows.rows, r'.id = r.id → r'.processedAt ≠ none →
        ∃ p now pass, a = .commit p now ∧ s.passes p = some pass ∧ r ∈ pass.claimed ∧
          (∀ k < (svc.registry.get r.topic).length,
            ∃ answer ∈ pass.returned, answer.event = r.id ∧ answer.handler = k) ∧
          ∀ answer ∈ pass.returned, answer.event = r.id →
            answer.result = .ok () ∨ ∃ e, answer.result = .error (.undecodable e)) ∧
    (∀ r ∈ s.rows.rows, r.processedAt = none →
      ∃ r' ∈ s'.rows.rows, r'.id = r.id ∧ r'.topic = r.topic ∧ r'.payload = r.payload) ∧
    ∀ p q pass pass', s'.passes p = some pass → s'.passes q = some pass' →
      ∀ id ∈ pass.claimed.map OutboxRow.id, id ∈ pass'.claimed.map OutboxRow.id → p = q := by
  have hsound : s.Sound svc := (Outbox.init_sound w).run h
  refine ⟨?_, ?_, fun p q pass pass' hp hq id => (hsound.step ha).owner hp hq⟩
  · intro r hr hnone r' hr' hid hsome
    have hkept : r' ∈ s.rows.rows → False := by
      intro hmem
      obtain rfl : r' = r := s.rows.eq_of_key hmem hr hid
      exact hsome hnone
    cases Outbox.step_effect ha with
    | transacted c w events ht hnodup hfresh =>
      simp only [hsound.rows_transacted hnodup hfresh, List.mem_append] at hr'
      rcases hr' with hr' | hr'
      · exact (hkept hr').elim
      · obtain ⟨e, he, rfl⟩ := List.mem_map.mp hr'
        exact absurd rfl hsome
    | claimed p hp => exact (hkept hr').elim
    | handled p x pass pass' w hp hadv => exact (hkept hr').elim
    | committed p now pass hp htodo hcur =>
      rw [Table.rows_mapRows, List.mem_map] at hr'
      obtain ⟨x, hx, rfl⟩ := hr'
      rw [OutboxRow.mark_id] at hid
      obtain rfl : x = r := s.rows.eq_of_key hx hr hid
      have hdelivered : x.id ∈ pass.delivered := by
        by_contra hnot
        unfold OutboxRow.mark at hsome
        rw [if_neg hnot] at hsome
        split at hsome <;> exact hsome hnone
      obtain ⟨hclaimed, hacc⟩ := (hsound.delivered_iff hp htodo hcur hr).mp hdelivered
      obtain ⟨gone, hgone⟩ := hsound.progress p pass hp
      refine ⟨p, now, pass, rfl, hp, hclaimed, ?_, ?_⟩
      · exact hgone.answered x (hgone.whole htodo hcur ▸ hclaimed)
      · intro answer hanswer heq
        have haccepted := accepts_iff.mp hacc answer hanswer heq
        unfold Returned.accepted at haccepted
        rcases hres : answer.result with (e | e) | u
        · exact .inr ⟨e, rfl⟩
        · simp [hres] at haccepted
        · exact .inl rfl
    | rolledBack p pass hp => exact (hkept hr').elim
    | pruned now =>
      rw [Table.rows_filter] at hr'
      exact (hkept (List.mem_of_mem_filter hr')).elim
  · intro r hr hnone
    cases Outbox.step_effect ha with
    | transacted c w events ht hnodup hfresh =>
      refine ⟨r, ?_, rfl, rfl, rfl⟩
      simp only [hsound.rows_transacted hnodup hfresh, List.mem_append]
      exact .inl hr
    | claimed p hp => exact ⟨r, hr, rfl, rfl, rfl⟩
    | handled p x pass pass' w hp hadv => exact ⟨r, hr, rfl, rfl, rfl⟩
    | committed p now pass hp htodo hcur =>
      refine ⟨r.mark pass.delivered pass.failed now, ?_, OutboxRow.mark_id _ _ _ r,
        OutboxRow.mark_topic _ _ _ r, OutboxRow.mark_payload _ _ _ r⟩
      rw [Table.rows_mapRows]
      exact List.mem_map_of_mem hr
    | rolledBack p pass hp => exact ⟨r, hr, rfl, rfl, rfl⟩
    | pruned now =>
      refine ⟨r, ?_, rfl, rfl, rfl⟩
      rw [Table.rows_filter, List.mem_filter]
      exact ⟨hr, by simp [hnone]⟩

namespace Sample

/-- Two handlers of one topic: the first answers what the action says, the second cannot
decode its event. -/
def flaky : Service Nat (List (Nat × String × Unit)) (Except String Unit) Unit Unit where
  transact := fun events calls => some (calls, events)
  registry := (Registry.withHandler [] "bet.placed" fun _ => .ok ()).withHandler "bet.placed"
    (typedHandler "bet.placed" (fun _ => .error "missing field") id)
  step := fun answer calls _ => (calls + 1, .inr answer)

def handles (p : Bool) (n : Nat) (answer : Except String Unit) :
    List (Outbox.Act (List (Nat × String × Unit)) (Except String Unit) Bool) :=
  List.replicate n (.handle p answer)

/-- Two processors; the first fails event 1 and commits, the second retries it. -/
def retried : List (Outbox.Act (List (Nat × String × Unit)) (Except String Unit) Bool) :=
  [.transact [(1, "bet.placed", ()), (2, "user.renamed", ())], .claim true, .claim false] ++
    handles true 7 (.error "redis down") ++ [.commit true 5, .commit false 6, .claim false] ++
    handles false 5 (.ok ())

def flakyOutbox (as : List (Outbox.Act (List (Nat × String × Unit)) (Except String Unit) Bool)) :
    Outbox Nat Unit Unit Bool :=
  (Transition.run (Outbox.step flaky) (.init 0) as).getD (.init 0)

end Sample

theorem outbox_loses_nothing_retried :
    let s := Sample.flakyOutbox Sample.retried
    let s' := Sample.flakyOutbox (Sample.retried ++ [.commit false 9])
    s.rows.rows.map OutboxRow.processedAt = [none, some 5] ∧
      s'.rows.rows.map OutboxRow.processedAt = [some 9, some 5] ∧
      ∀ r ∈ s.rows.rows, r.processedAt = none →
        ∃ r' ∈ s'.rows.rows, r'.id = r.id ∧ r'.topic = r.topic ∧ r'.payload = r.payload := by
  have hrun : Transition.run (Outbox.step Sample.flaky) (.init 0) Sample.retried =
      some (Sample.flakyOutbox Sample.retried) := rfl
  have hstep : (Sample.flakyOutbox Sample.retried).step Sample.flaky (.commit false 9) =
      some (Sample.flakyOutbox (Sample.retried ++ [.commit false 9])) := rfl
  exact ⟨by decide +kernel, by decide +kernel, (outbox_loses_nothing hrun hstep).2.1⟩

end Betsphere
