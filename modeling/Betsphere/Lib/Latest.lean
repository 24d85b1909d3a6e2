import Mathlib.Tactic
set_option autoImplicit false

namespace Latest
variable {α τ β : Type} [LinearOrder τ] (stamp : α → τ) (value : α → β)

def IsLatest (log : List α) (a : α) : Prop := a ∈ log ∧ ∀ b ∈ log, stamp b ≤ stamp a

/-- The log has a latest entry, and all its latest entries say `v`. -/
def EndsAt (log : List α) (v : β) : Prop :=
  (∃ a, IsLatest stamp log a) ∧ ∀ a, IsLatest stamp log a → value a = v

variable {stamp value} {log : List α} {a : α} {v : β}

theorem exists_isLatest (h : log ≠ []) : ∃ a, IsLatest stamp log a := by
  classical
  obtain ⟨a, ha, hmax⟩ := log.toFinset.exists_max_image stamp (by simpa using h)
  simp only [List.mem_toFinset] at ha hmax
  exact ⟨a, ha, hmax⟩

theorem endsAt_iff : EndsAt stamp value log v ↔
    log.isEmpty = false ∧ ∀ a ∈ log, (∀ b ∈ log, stamp b ≤ stamp a) → value a = v := by
  constructor
  · rintro ⟨⟨a, ha, -⟩, hall⟩
    exact ⟨List.isEmpty_eq_false_iff_exists_mem.mpr ⟨a, ha⟩, fun b hb hmax => hall b ⟨hb, hmax⟩⟩
  · rintro ⟨hne, hall⟩
    exact ⟨exists_isLatest (List.isEmpty_eq_false_iff.mp hne), fun b hb => hall b hb.1 hb.2⟩

instance [DecidableEq β] : Decidable (EndsAt stamp value log v) :=
  decidable_of_iff (log.isEmpty = false ∧ ∀ a ∈ log, (∀ b ∈ log, stamp b ≤ stamp a) → value a = v)
    endsAt_iff.symm

theorem endsAt_singleton : EndsAt stamp value [a] (value a) := by
  refine ⟨exists_isLatest (by simp), fun b hb => ?_⟩
  rw [List.mem_singleton.mp hb.1]

/-- One more entry is the last word just when it repeats the old one or is stamped later
than all the log. -/
theorem endsAt_append (h : EndsAt stamp value log v) :
    EndsAt stamp value (log ++ [a]) (value a) ↔ (∀ b ∈ log, stamp b < stamp a) ∨ v = value a := by
  constructor
  · intro hnew
    by_cases hlater : ∀ b ∈ log, stamp b < stamp a
    · exact .inl hlater
    · right
      push Not at hlater
      obtain ⟨b, hb, hab⟩ := hlater
      obtain ⟨c, hc⟩ := h.1
      have hlast : IsLatest stamp (log ++ [a]) c := by
        refine ⟨List.mem_append_left _ hc.1, fun d hd => ?_⟩
        rcases List.mem_append.mp hd with hd | hd
        · exact hc.2 d hd
        · rw [List.mem_singleton.mp hd]
          exact hab.trans (hc.2 b hb)
      rw [← h.2 c hc, hnew.2 c hlast]
  · intro hcase
    refine ⟨exists_isLatest (by simp), fun b hb => ?_⟩
    rcases List.mem_append.mp hb.1 with hmem | hmem
    · rcases hcase with hlater | hsame
      · have hle : stamp a ≤ stamp b := hb.2 a (by simp)
        exact absurd (hlater b hmem) (not_lt.mpr hle)
      · rw [← hsame]
        exact h.2 b ⟨hmem, fun c hc => hb.2 c (List.mem_append_left _ hc)⟩
    · rw [List.mem_singleton.mp hmem]

end Latest
