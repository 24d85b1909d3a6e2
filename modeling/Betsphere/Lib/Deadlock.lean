import Betsphere.Lib.RowLock
import Mathlib.Logic.Relation
set_option autoImplicit false

namespace RowLock

section Order
variable {τ κ ρ : Type} {wants holds : τ → κ → Prop}

def Blocks (wants holds : τ → κ → Prop) (t t' : τ) : Prop := ∃ k, wants t k ∧ holds t' k

theorem blocks_rise [Preorder ρ] (rank : κ → ρ)
    (hrise : ∀ t k k', holds t k → wants t k' → rank k < rank k') {t t' : τ}
    (h : Relation.TransGen (Blocks wants holds) t t') :
    ∃ k k', wants t k ∧ holds t' k' ∧ rank k ≤ rank k' := by
  induction h with
  | single h =>
    obtain ⟨k, hk, hk'⟩ := h
    exact ⟨k, k, hk, hk', le_refl _⟩
  | tail _ h ih =>
    obtain ⟨k, k', hk, hk', hle⟩ := ih
    obtain ⟨m, hm, hm'⟩ := h
    exact ⟨k, m, hk, hm', hle.trans (hrise _ _ _ hk' hm).le⟩

/-- Where what is held ranks below what is wanted, nobody waits in a circle. -/
theorem no_circle [Preorder ρ] (rank : κ → ρ)
    (hrise : ∀ t k k', holds t k → wants t k' → rank k < rank k') (t : τ) :
    ¬Relation.TransGen (Blocks wants holds) t t := by
  intro h
  obtain ⟨k, k', hk, hk', hle⟩ := blocks_rise rank hrise h
  exact (hrise t k' k hk' hk).not_ge hle

end Order

theorem pairwise_take {α : Type} {R : α → α → Prop} {l : List α} (h : l.Pairwise R) {n : Nat}
    {a b : α} (ha : a ∈ l.take n) (hb : l[n]? = some b) : R a b := by
  obtain ⟨hlt, rfl⟩ := List.getElem?_eq_some_iff.mp hb
  rw [← List.take_append_drop n l, List.pairwise_append] at h
  refine h.2.2 a ha _ ?_
  rw [List.mem_iff_getElem]
  exact ⟨0, by simpa using hlt, by simp⟩

namespace Store
variable {σ ς ω κ ℓ ε τ : Type} {D : Dialect σ ς ω κ ℓ ε} {s : Store σ ς ω κ ℓ τ}

def needs (D : Dialect σ ς ω κ ℓ ε) (s : Store σ ς ω κ ℓ τ) (t : τ) : List κ :=
  match s.tx t with
  | none => []
  | some tx =>
    match tx.prog[tx.pc]? with
    | none => []
    | some st =>
      match D.exec st tx.vars (D.apply tx.writes s.db) with
      | .error _ => []
      | .ok (ws, _) => ws.filterMap D.key

def WaitsFor (D : Dialect σ ς ω κ ℓ ε) (s : Store σ ς ω κ ℓ τ) (t t' : τ) : Prop :=
  t' ≠ t ∧ ∃ k ∈ s.needs D t, s.locks k = some t'

instance decidableWaitsFor [DecidableEq τ] (D : Dialect σ ς ω κ ℓ ε) (s : Store σ ς ω κ ℓ τ)
    (t t' : τ) : Decidable (s.WaitsFor D t t') :=
  inferInstanceAs (Decidable (t' ≠ t ∧ ∃ k ∈ s.needs D t, s.locks k = some t'))

theorem mem_needs {t : τ} {k : κ} (h : k ∈ s.needs D t) :
    ∃ tx st ws vars w, s.tx t = some tx ∧ tx.prog[tx.pc]? = some st ∧
      D.exec st tx.vars (D.apply tx.writes s.db) = .ok (ws, vars) ∧ w ∈ ws ∧ D.key w = some k := by
  unfold needs at h
  split at h
  · simp at h
  · rename_i tx htx
    split at h
    · simp at h
    · rename_i st hst
      split at h
      · simp at h
      · rename_i ws vars hexec
        obtain ⟨w, hw, hk⟩ := List.mem_filterMap.mp h
        exact ⟨tx, st, ws, vars, w, htx, hst, hexec, hw, hk⟩

/-- Every lock belongs to a statement its open transaction has run; `target` is the row
a statement locks. -/
def Owned (target : ς → Option κ) (s : Store σ ς ω κ ℓ τ) : Prop :=
  ∀ k t, s.locks k = some t → ∃ tx, s.tx t = some tx ∧
    ∃ st ∈ tx.prog.take tx.pc, target st = some k

theorem owned_closed (target : ς → Option κ) (db : σ) :
    Owned target (⟨db, fun _ => none, fun _ => none⟩ : Store σ ς ω κ ℓ τ) := by simp [Owned]

section Locks
variable [DecidableEq τ] {target : ς → Option κ}

theorem unlock_some {t t' : τ} {k : κ} (h : s.unlock t k = some t') :
    s.locks k = some t' ∧ t' ≠ t := by
  unfold unlock at h
  split at h
  · simp at h
  · rename_i hne
    refine ⟨h, fun heq => hne ?_⟩
    rw [h, heq]

theorem Owned.abort (h : s.Owned target) (t : τ) : (s.abort t).Owned target := by
  intro k t' hk
  obtain ⟨hl, hne⟩ := unlock_some hk
  obtain ⟨tx, htx, hst⟩ := h k t' hl
  exact ⟨tx, by simpa [Store.abort, hne] using htx, hst⟩

theorem Owned.commit (h : s.Owned target) {t : τ} {s' : Store σ ς ω κ ℓ τ}
    (hc : s.commit D t = some s') : s'.Owned target := by
  obtain ⟨tx, -, -, rfl⟩ := commit_cases hc
  intro k t' hk
  obtain ⟨hl, hne⟩ := unlock_some hk
  obtain ⟨tx', htx, hst⟩ := h k t' hl
  exact ⟨tx', by simpa [hne] using htx, hst⟩

theorem Owned.begin (h : s.Owned target) {t : τ} {prog : List ς} {start : ℓ}
    {s' : Store σ ς ω κ ℓ τ} (hb : s.begin t prog start = some s') : s'.Owned target := by
  unfold Store.begin at hb
  split at hb
  · simp at hb
  · rename_i hnone
    simp only [Option.some.injEq] at hb
    subst hb
    intro k t' hk
    obtain ⟨tx, htx, hst⟩ := h k t' hk
    have hne : t' ≠ t := by
      rintro rfl
      simp [hnone] at htx
    exact ⟨tx, by simpa [hne] using htx, hst⟩

theorem Owned.advance [DecidableEq κ] (h : s.Owned target)
    (htarget : ∀ st l (v : σ) ws l', D.exec st l v = .ok (ws, l') →
      ∀ w ∈ ws, ∀ k, D.key w = some k → target st = some k)
    {t : τ} {r : Store σ ς ω κ ℓ τ × Option ε} (ha : s.advance D t = some r) :
    r.1.Owned target := by
  obtain ⟨tx, st, htx, hst, ⟨e, -, rfl⟩ | ⟨ws, vars, hexec, -, rfl⟩⟩ := advance_cases ha
  · exact h.abort t
  · intro k t' hk
    have hrun : tx.prog.take (tx.pc + 1) = tx.prog.take tx.pc ++ [st] := by
      simp [List.take_add_one, hst]
    by_cases hany : (ws.any fun w => decide (D.key w = some k)) = true
    · simp only [lock, hany, if_true, Option.some.injEq] at hk
      subst hk
      obtain ⟨w, hw, hwk⟩ := List.any_eq_true.mp hany
      refine ⟨_, Function.update_self _ _ _, st, ?_, ?_⟩
      · rw [hrun]
        exact List.mem_append_right _ List.mem_cons_self
      · exact htarget st _ _ ws vars hexec w hw k (by simpa using hwk)
    · simp only [lock, hany] at hk
      obtain ⟨tx', htx', st', hst', hk'⟩ := h k t' hk
      by_cases ht : t' = t
      · subst ht
        cases htx.symm.trans htx'
        refine ⟨_, Function.update_self _ _ _, st', ?_, hk'⟩
        rw [hrun]
        exact List.mem_append_left _ hst'
      · exact ⟨tx', by simpa [ht] using htx', st', hst', hk'⟩

end Locks

end Store

end RowLock
