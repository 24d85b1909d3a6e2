import Mathlib.Data.List.Infix
import Mathlib.Tactic
set_option autoImplicit false

namespace LastSplit
variable {α : Type} [DecidableEq α]

def rsplitOnce (pat : List α) : List α → Option (List α × List α)
  | [] => if pat = [] then some ([], []) else none
  | a :: s =>
    match rsplitOnce pat s with
    | some (before, after) => some (a :: before, after)
    | none => if pat <+: a :: s then some ([], (a :: s).drop pat.length) else none

variable {pat s before after : List α}

theorem rsplitOnce_eq_none : rsplitOnce pat s = none ↔ ¬pat <:+: s := by
  induction s with
  | nil =>
    rw [rsplitOnce, List.infix_nil]
    split <;> simp_all
  | cons a s ih =>
    rw [rsplitOnce, List.infix_cons_iff]
    cases hs : rsplitOnce pat s with
    | some split =>
      have hin : pat <:+: s := by
        by_contra hin
        cases hs.symm.trans (ih.mpr hin)
      simp [hin]
    | none =>
      have hrest : ¬pat <:+: s := ih.mp hs
      by_cases hpre : pat <+: a :: s
      · simp [hpre]
      · simp [hpre, hrest]

theorem rsplitOnce_some (hpat : pat ≠ []) (h : rsplitOnce pat s = some (before, after)) :
    s = before ++ pat ++ after ∧ ¬pat <:+: after := by
  induction s generalizing before with
  | nil => simp [rsplitOnce, hpat] at h
  | cons a s ih =>
    rw [rsplitOnce] at h
    cases hs : rsplitOnce pat s with
    | some split =>
      obtain ⟨before', after'⟩ := split
      rw [hs] at h
      cases h
      obtain ⟨hsplit, hlast⟩ := ih hs
      exact ⟨by rw [hsplit]; rfl, hlast⟩
    | none =>
      simp only [hs] at h
      split_ifs at h with hpre
      · cases h
        obtain ⟨rest, hrest⟩ := hpre
        have hdrop : (a :: s).drop pat.length = rest := by rw [← hrest, List.drop_left]
        refine ⟨by rw [hdrop, List.nil_append, hrest], fun hin => ?_⟩
        have hsuffix : rest <:+ s := by
          cases pat with
          | nil => exact absurd rfl hpat
          | cons b pat =>
            rw [List.cons_append, List.cons.injEq] at hrest
            exact ⟨pat, hrest.2⟩
        exact rsplitOnce_eq_none.mp hs (hin.trans (hdrop ▸ hsuffix.isInfix))

theorem rsplitOnce_last {front rest : List α} (h : rsplitOnce pat s = some (before, after))
    (hs : s = front ++ pat ++ rest) : front.length ≤ before.length := by
  induction s generalizing before front with
  | nil =>
    rw [List.append_assoc, eq_comm, List.append_eq_nil_iff] at hs
    simp [hs.1]
  | cons a s ih =>
    cases front with
    | nil => simp
    | cons b front =>
      rw [List.cons_append, List.cons_append, List.cons.injEq] at hs
      rw [rsplitOnce] at h
      cases hrest : rsplitOnce pat s with
      | some split =>
        obtain ⟨before', after'⟩ := split
        rw [hrest] at h
        cases h
        exact Nat.succ_le_succ (ih hrest hs.2)
      | none =>
        refine absurd ?_ (rsplitOnce_eq_none.mp hrest)
        exact ⟨front, rest, hs.2.symm⟩

theorem rsplitOnce_singleton_iff {a : α} :
    rsplitOnce [a] s = some (before, after) ↔ s = before ++ a :: after ∧ a ∉ after := by
  constructor
  · intro h
    obtain ⟨hsplit, hlast⟩ := rsplitOnce_some (by simp) h
    exact ⟨by simpa using hsplit, fun hmem => hlast ((List.singleton_infix_iff _ _).mpr hmem)⟩
  · rintro ⟨rfl, hafter⟩
    cases hsplit : rsplitOnce [a] (before ++ a :: after) with
    | none =>
      have hmem : a ∈ before ++ a :: after := by simp
      exact absurd ((List.singleton_infix_iff _ _).mpr hmem) (rsplitOnce_eq_none.mp hsplit)
    | some parts =>
      obtain ⟨before', after'⟩ := parts
      obtain ⟨heq, hlast⟩ := rsplitOnce_some (by simp) hsplit
      have hafter' : a ∉ after' := fun hmem => hlast ((List.singleton_infix_iff _ _).mpr hmem)
      rw [List.append_assoc, List.singleton_append] at heq
      rcases List.append_eq_append_iff.mp heq with ⟨more, rfl, hmore⟩ | ⟨more, rfl, hmore⟩
      · cases more with
        | nil =>
          cases hmore
          rw [List.append_nil]
        | cons b more =>
          cases hmore
          exact absurd (by simp) hafter
      · cases more with
        | nil =>
          cases hmore
          rw [List.append_nil]
        | cons b more =>
          cases hmore
          exact absurd (by simp) hafter'

theorem splitOn_spec (sep : α) (s : List α) :
    (∀ part ∈ s.splitOn sep, part <:+: s ∧ sep ∉ part) ∧
      ∀ part ∈ (s.splitOn sep).head?, part <+: s := by
  induction s with
  | nil => simp
  | cons a s ih =>
    obtain ⟨hparts, hhead⟩ := ih
    rw [List.splitOn_cons_eq_if_modifyHead]
    split
    · refine ⟨fun part hpart => ?_, by simp⟩
      rcases List.mem_cons.mp hpart with rfl | hpart
      · exact ⟨List.nil_infix, List.not_mem_nil⟩
      · exact ⟨List.infix_cons (hparts part hpart).1, (hparts part hpart).2⟩
    · rename_i hne
      cases hsplit : s.splitOn sep with
      | nil => exact absurd hsplit (List.splitOn_ne_nil sep s)
      | cons first rest =>
        rw [hsplit] at hparts hhead
        have hfirst : a :: first <+: a :: s :=
          List.cons_prefix_cons.mpr ⟨rfl, hhead first rfl⟩
        refine ⟨fun part hpart => ?_, fun part hpart => ?_⟩
        · rcases List.mem_cons.mp hpart with rfl | hpart
          · have hsep := (hparts first List.mem_cons_self).2
            refine ⟨hfirst.isInfix, List.not_mem_cons_of_ne_of_not_mem ?_ hsep⟩
            rintro rfl
            exact hne (beq_self_eq_true _)
          · have hrest := hparts part (List.mem_cons_of_mem first hpart)
            exact ⟨List.infix_cons hrest.1, hrest.2⟩
        · obtain rfl : a :: first = part := Option.some.inj hpart
          exact hfirst

end LastSplit
