import Mathlib.Data.List.Destutter
import Mathlib.Data.List.Sort
import Mathlib.Tactic
set_option autoImplicit false

namespace DistinctOn
variable {α κ τ : Type} [LinearOrder κ] [LinearOrder τ] (key : α → κ) (stamp : α → τ)

/-- `ORDER BY key, stamp DESC`. -/
def Before (a b : α) : Prop := key a < key b ∨ (key a = key b ∧ stamp b ≤ stamp a)

instance : DecidableRel (Before key stamp) := fun _ _ => inferInstanceAs (Decidable (_ ∨ _))

instance : Std.Total (Before key stamp) where
  total a b := by
    rcases lt_trichotomy (key a) (key b) with h | h | h
    · exact .inl (.inl h)
    · rcases le_total (stamp b) (stamp a) with hs | hs
      · exact .inl (.inr ⟨h, hs⟩)
      · exact .inr (.inr ⟨h.symm, hs⟩)
    · exact .inr (.inl h)

instance : IsTrans α (Before key stamp) where
  trans a b c hab hbc := by
    rcases hab with hab | ⟨hab, hs⟩
    · rcases hbc with hbc | ⟨hbc, -⟩
      · exact .inl (hab.trans hbc)
      · exact .inl (hbc ▸ hab)
    · rcases hbc with hbc | ⟨hbc, hs'⟩
      · exact .inl (hab ▸ hbc)
      · exact .inr ⟨hab.trans hbc, hs'.trans hs⟩

/-- `SELECT DISTINCT ON (key) … ORDER BY key, stamp DESC`. -/
def latest (l : List α) : List α :=
  (l.insertionSort (Before key stamp)).destutter fun a b => key a ≠ key b

variable {key stamp} {l : List α} {a : α}

theorem Before.key_le {a b : α} (h : Before key stamp a b) : key a ≤ key b := by
  rcases h with h | ⟨h, -⟩
  · exact h.le
  · exact h.le

/-- One pass over sorted rows keeps increasing keys and covers every row it drops. -/
theorem destutter'_sorted (h : (a :: l).Pairwise (Before key stamp)) :
    (l.destutter' (fun a b => key a ≠ key b) a).Pairwise (fun b c => key b < key c) ∧
      ∀ b ∈ a :: l, ∃ c ∈ l.destutter' (fun a b => key a ≠ key b) a,
        key c = key b ∧ stamp b ≤ stamp c := by
  induction l generalizing a with
  | nil => simp
  | cons b l ih =>
    obtain ⟨ha, hl⟩ := List.pairwise_cons.mp h
    by_cases hab : key a = key b
    · rw [List.destutter'_cons_neg _ (by simpa using hab)]
      have hskip : (a :: l).Pairwise (Before key stamp) :=
        h.sublist (List.Sublist.cons_cons a (List.sublist_cons_self b l))
      obtain ⟨hsorted, hcover⟩ := ih hskip
      refine ⟨hsorted, fun c hc => ?_⟩
      rcases List.mem_cons.mp hc with rfl | hc
      · exact hcover c List.mem_cons_self
      · rcases List.mem_cons.mp hc with rfl | hc
        · obtain ⟨d, hd, hkey, hstamp⟩ := hcover a List.mem_cons_self
          rcases ha c List.mem_cons_self with hlt | ⟨-, hle⟩
          · exact absurd hab hlt.ne
          · exact ⟨d, hd, hkey.trans hab, hle.trans hstamp⟩
        · exact hcover c (List.mem_cons_of_mem a hc)
    · rw [List.destutter'_cons_pos _ (by simpa using hab)]
      obtain ⟨hsorted, hcover⟩ := ih hl
      have hlt : key a < key b := lt_of_le_of_ne (ha b List.mem_cons_self).key_le hab
      refine ⟨List.pairwise_cons.mpr ⟨fun d hd => ?_, hsorted⟩, fun c hc => ?_⟩
      · have hd := (l.destutter'_sublist _ b).subset hd
        rcases List.mem_cons.mp hd with rfl | hd
        · exact hlt
        · exact hlt.trans_le ((List.pairwise_cons.mp hl).1 d hd).key_le
      · rcases List.mem_cons.mp hc with rfl | hc
        · exact ⟨c, List.mem_cons_self, rfl, le_rfl⟩
        · obtain ⟨d, hd, hcovers⟩ := hcover c hc
          exact ⟨d, List.mem_cons_of_mem a hd, hcovers⟩

theorem latest_spec (key : α → κ) (stamp : α → τ) (l : List α) :
    (latest key stamp l).Pairwise (fun b c => key b < key c) ∧
      ∀ b ∈ l, ∃ c ∈ latest key stamp l, key c = key b ∧ stamp b ≤ stamp c := by
  have hperm := List.perm_insertionSort (Before key stamp) l
  have hsorted := List.pairwise_insertionSort (Before key stamp) l
  unfold latest
  cases hsort : l.insertionSort (Before key stamp) with
  | nil =>
    have hl : l = [] := List.Perm.eq_nil (hsort ▸ hperm).symm
    simp [hl]
  | cons a rest =>
    rw [hsort] at hperm hsorted
    obtain ⟨hkeys, hcover⟩ := destutter'_sorted hsorted
    exact ⟨hkeys, fun b hb => hcover b (hperm.mem_iff.mpr hb)⟩

theorem latest_mem (h : a ∈ latest key stamp l) : a ∈ l :=
  (List.mem_insertionSort (Before key stamp)).mp ((List.destutter_sublist _ _).subset h)

theorem countP_latest (h : a ∈ l) :
    ((latest key stamp l).countP fun b => key b = key a) = 1 := by
  obtain ⟨hkeys, hcover⟩ := latest_spec key stamp l
  obtain ⟨c, hc, hkey, -⟩ := hcover a h
  have hnodup : ((latest key stamp l).map key).Nodup :=
    List.pairwise_map.mpr (hkeys.imp fun hlt => hlt.ne)
  have hmem : key a ∈ (latest key stamp l).map key := hkey ▸ List.mem_map_of_mem hc
  have hcount := List.nodup_iff_count_eq_one.mp hnodup (key a) hmem
  rw [List.count, List.countP_map] at hcount
  exact hcount

theorem stamp_le_latest (ha : a ∈ latest key stamp l) {b : α} (hb : b ∈ l)
    (hkey : key b = key a) : stamp b ≤ stamp a := by
  obtain ⟨hkeys, hcover⟩ := latest_spec key stamp l
  obtain ⟨c, hc, hkey', hle⟩ := hcover b hb
  have hnodup : ((latest key stamp l).map key).Nodup :=
    List.pairwise_map.mpr (hkeys.imp fun hlt => hlt.ne)
  obtain rfl := List.inj_on_of_nodup_map hnodup hc ha (hkey'.trans hkey)
  exact hle

end DistinctOn
