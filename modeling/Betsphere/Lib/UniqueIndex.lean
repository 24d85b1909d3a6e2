import Mathlib.Data.List.Nodup
import Mathlib.Tactic
set_option autoImplicit false

namespace UniqueIndex
variable {α κ ι : Type} (key : α → κ)

/-- `rows` are committed, `held` is the row an open transaction has inserted. -/
structure Kept (rows : List α) (held : ι → Option α) : Prop where
  committed : (rows.map key).Nodup
  apart : ∀ i a, held i = some a → ∀ r ∈ rows, key r ≠ key a
  exclusive : ∀ i j a b, held i = some a → held j = some b → key a = key b → i = j

variable {key} {rows : List α} {held : ι → Option α} {i : ι} {a : α}

theorem kept_nil : Kept key [] (fun _ : ι => none) := by
  refine ⟨List.nodup_nil, ?_, ?_⟩ <;> simp

theorem Kept.eq_of_key (h : Kept key rows held) {r r' : α} (hr : r ∈ rows) (hr' : r' ∈ rows)
    (hkey : key r = key r') : r = r' :=
  List.inj_on_of_nodup_map h.committed hr hr' hkey

theorem Kept.mapRows (h : Kept key rows held) {rows' : List α}
    (hkeys : rows'.map key = rows.map key) : Kept key rows' held where
  committed := hkeys ▸ h.committed
  apart := by
    intro i a ha r hr heq
    have hmem : key r ∈ rows.map key := hkeys ▸ List.mem_map_of_mem hr
    obtain ⟨r', hr', hsame⟩ := List.mem_map.mp hmem
    exact h.apart i a ha r' hr' (hsame.trans heq)
  exclusive := h.exclusive

variable [DecidableEq ι]

theorem Kept.release (h : Kept key rows held) (i : ι) :
    Kept key rows (Function.update held i none) where
  committed := h.committed
  apart := by
    intro j b hb
    by_cases hj : j = i
    · simp [hj] at hb
    · exact h.apart j b (by simpa [hj] using hb)
  exclusive := by
    intro j k b c hb hc
    by_cases hj : j = i
    · simp [hj] at hb
    · by_cases hk : k = i
      · simp [hk] at hc
      · exact h.exclusive j k b c (by simpa [hj] using hb) (by simpa [hk] using hc)

theorem Kept.take (h : Kept key rows held) (hrows : ∀ r ∈ rows, key r ≠ key a)
    (hfree : ∀ j b, j ≠ i → held j = some b → key b ≠ key a) :
    Kept key rows (Function.update held i (some a)) where
  committed := h.committed
  apart := by
    intro j b hb
    by_cases hj : j = i
    · simp only [hj, Function.update_self, Option.some.injEq] at hb
      exact hb ▸ hrows
    · exact h.apart j b (by simpa [hj] using hb)
  exclusive := by
    intro j k b c hb hc hkey
    by_cases hj : j = i
    · simp only [hj, Function.update_self, Option.some.injEq] at hb
      by_cases hk : k = i
      · exact hj.trans hk.symm
      · exact absurd (hkey.symm.trans (hb ▸ rfl)) (hfree k c hk (by simpa [hk] using hc))
    · have hb' : held j = some b := by simpa [hj] using hb
      by_cases hk : k = i
      · simp only [hk, Function.update_self, Option.some.injEq] at hc
        exact absurd (hkey.trans (hc ▸ rfl)) (hfree j b hj hb')
      · exact h.exclusive j k b c hb' (by simpa [hk] using hc) hkey

theorem Kept.commit (h : Kept key rows held) (ha : held i = some a) :
    Kept key (rows ++ [a]) (Function.update held i none) where
  committed := by
    rw [List.map_append, List.nodup_append]
    refine ⟨h.committed, by simp, fun k hk k' hk' heq => ?_⟩
    obtain ⟨r, hr, rfl⟩ := List.mem_map.mp hk
    obtain rfl := List.mem_singleton.mp hk'
    exact h.apart i a ha r hr heq
  apart := by
    intro j b hb r hr
    have hj : j ≠ i := by
      rintro rfl
      simp at hb
    have hb' : held j = some b := by simpa [hj] using hb
    rcases List.mem_append.mp hr with hr | hr
    · exact h.apart j b hb' r hr
    · obtain rfl := List.mem_singleton.mp hr
      exact fun heq => hj (h.exclusive j i b r hb' ha heq.symm)
  exclusive := (h.release i).exclusive

end UniqueIndex
