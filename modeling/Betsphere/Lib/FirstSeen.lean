import Mathlib.Data.List.Basic
import Mathlib.Tactic
set_option autoImplicit false

namespace FirstSeen
variable {α : Type} [DecidableEq α]

/-- What both lists have comes in the same order in both. -/
def SameOrder (l m : List α) : Prop :=
  ∀ a ∈ l, ∀ b ∈ l, a ∈ m → b ∈ m → (l.idxOf a < l.idxOf b ↔ m.idxOf a < m.idxOf b)

instance (l m : List α) : Decidable (SameOrder l m) := by
  unfold SameOrder
  infer_instance

/-- Taking `e` out between `pre` and `post` takes away where it is first seen, and something
new is seen before it comes again. -/
def Unseats (pre : List α) (e : α) (post : List α) : Prop :=
  e ∉ pre ∧ e ∈ post ∧ ∃ f ∈ post, f ∉ pre ∧ post.idxOf f < post.idxOf e

instance (pre post : List α) (e : α) : Decidable (Unseats pre e post) := by
  unfold Unseats
  infer_instance

variable {l m pre post : List α} {a b e : α}

theorem eraseDups_concat (l : List α) (a : α) :
    (l ++ [a]).eraseDups = if a ∈ l then l.eraseDups else l.eraseDups ++ [a] := by
  rw [List.eraseDups_append]
  by_cases ha : a ∈ l
  · simp [ha, List.removeAll]
  · simp [ha, List.removeAll, List.eraseDups_cons]

theorem nodup_eraseDups (l : List α) : l.eraseDups.Nodup := by
  induction l using List.reverseRecOn with
  | nil => exact List.nodup_nil
  | append_singleton l a ih =>
    rw [eraseDups_concat]
    split
    · exact ih
    · rename_i ha
      rw [List.nodup_append]
      refine ⟨ih, by simp, ?_⟩
      intro b hb c hc hbc
      rw [List.mem_singleton] at hc
      subst hbc
      exact ha (hc ▸ List.mem_eraseDups.mp hb)

theorem idxOf_concat (l : List α) (a b : α) :
    (l ++ [a]).idxOf b = if b ∈ l then l.idxOf b else if b = a then l.length else l.length + 1 := by
  rw [List.idxOf_append]
  by_cases hb : b ∈ l
  · simp [hb]
  · by_cases hba : b = a
    · subst hba
      simp [hb]
    · simp [hb, hba]
      omega

theorem idxOf_eraseDups (ha : a ∈ l) (hb : b ∈ l) :
    l.eraseDups.idxOf a < l.eraseDups.idxOf b ↔ l.idxOf a < l.idxOf b := by
  induction l using List.reverseRecOn with
  | nil => simp at ha
  | append_singleton l c ih =>
    have hlen : ∀ x ∈ l, l.idxOf x < l.length := fun x hx => List.idxOf_lt_length_of_mem hx
    have hseen : ∀ x ∈ l, l.eraseDups.idxOf x < l.eraseDups.length := fun x hx =>
      List.idxOf_lt_length_of_mem (List.mem_eraseDups.mpr hx)
    rw [eraseDups_concat]
    by_cases hc : c ∈ l
    · have hal : a ∈ l := by
        rcases List.mem_append.mp ha with ha | ha
        · exact ha
        · rwa [List.mem_singleton.mp ha]
      have hbl : b ∈ l := by
        rcases List.mem_append.mp hb with hb | hb
        · exact hb
        · rwa [List.mem_singleton.mp hb]
      simp only [hc, if_true, idxOf_concat, hal, hbl]
      exact ih hal hbl
    · simp only [hc, if_false, idxOf_concat, List.mem_eraseDups]
      by_cases hal : a ∈ l
      · have hla := hlen a hal
        have hsa := hseen a hal
        by_cases hbl : b ∈ l
        · simp only [hal, hbl, if_true]
          exact ih hal hbl
        · simp only [hal, hbl, if_true, if_false]
          split <;> omega
      · obtain rfl : a = c := by simpa [hal] using ha
        by_cases hbl : b ∈ l
        · have hlb := hlen b hbl
          have hsb := hseen b hbl
          simp only [hal, hbl, if_true, if_false]
          omega
        · obtain rfl : b = a := by simpa [hbl] using hb
          simp

def Alike (l m : List α) : Prop := (∀ a, a ∈ l ↔ a ∈ m) ∧ SameOrder l m

theorem alike_eraseDups (l : List α) : Alike l.eraseDups l :=
  ⟨fun _ => List.mem_eraseDups, fun _ ha _ hb _ _ =>
    idxOf_eraseDups (List.mem_eraseDups.mp ha) (List.mem_eraseDups.mp hb)⟩

theorem pairwise_idxOf (h : l.Nodup) : l.Pairwise fun a b => l.idxOf a < l.idxOf b := by
  rw [List.pairwise_iff_getElem]
  intro i j hi hj hij
  rw [h.idxOf_getElem, h.idxOf_getElem]
  exact hij

theorem Alike.eq_of_nodup (h : Alike l m) (hl : l.Nodup) (hm : m.Nodup) : l = m := by
  have hperm : l.Perm m := (List.perm_ext_iff_of_nodup hl hm).mpr h.1
  have hsame : m.Pairwise fun a b => l.idxOf a < l.idxOf b := by
    refine (pairwise_idxOf hm).imp_of_mem fun {a b} ha hb hab => ?_
    exact (h.2 a ((h.1 a).mpr ha) b ((h.1 b).mpr hb) ha hb).mpr hab
  refine hperm.eq_of_pairwise ?_ (pairwise_idxOf hl) hsame
  intro a b _ _ hab hba
  omega

theorem Alike.of_common {x : List α} (h : Alike l x) (h' : Alike m x) : Alike l m := by
  refine ⟨fun a => (h.1 a).trans (h'.1 a).symm, fun a ha b hb ham hbm => ?_⟩
  have hax := (h.1 a).mp ha
  have hbx := (h.1 b).mp hb
  exact (h.2 a ha b hb hax hbx).trans (h'.2 a ham b hbm hax hbx).symm

theorem SameOrder.congr {l' m' : List α} (hl : Alike l l') (hm : Alike m m') :
    SameOrder l m ↔ SameOrder l' m' := by
  constructor
  · intro h a ha b hb ham hbm
    have hal := (hl.1 a).mpr ha
    have hbl := (hl.1 b).mpr hb
    have ham' := (hm.1 a).mpr ham
    have hbm' := (hm.1 b).mpr hbm
    rw [← hl.2 a hal b hbl ha hb, ← hm.2 a ham' b hbm' ham hbm]
    exact h a hal b hbl ham' hbm'
  · intro h a ha b hb ham hbm
    have hal := (hl.1 a).mp ha
    have hbl := (hl.1 b).mp hb
    have ham' := (hm.1 a).mp ham
    have hbm' := (hm.1 b).mp hbm
    rw [hl.2 a ha b hb hal hbl, hm.2 a ham b hbm ham' hbm']
    exact h a hal b hbl ham' hbm'

theorem idxOf_sorted {κ : Type} [LinearOrder κ] {f : α → κ}
    (h : l.Pairwise fun x y => f x < f y) (ha : a ∈ l) (hb : b ∈ l) :
    l.idxOf a < l.idxOf b ↔ f a < f b := by
  induction l with
  | nil => simp at ha
  | cons x l ih =>
    obtain ⟨hhead, htail⟩ := List.pairwise_cons.mp h
    rcases List.mem_cons.mp ha with rfl | hal
    · rcases List.mem_cons.mp hb with rfl | hbl
      · simp
      · have hlt := hhead b hbl
        have hne : a ≠ b := fun heq => (heq ▸ hlt).ne rfl
        simp [hne, hlt]
    · rcases List.mem_cons.mp hb with rfl | hbl
      · simpa [List.idxOf_cons] using (hhead a hal).le
      · have hxa : x ≠ a := fun heq => (heq ▸ hhead a hal).ne rfl
        have hxb : x ≠ b := fun heq => (heq ▸ hhead b hbl).ne rfl
        simp [hxa, hxb, ih htail hal hbl]

theorem idxOf_earliest {β τ : Type} [LinearOrder τ] {f : β → α} {time : β → τ} {xs : List β}
    {s t : τ} (h : xs.Pairwise fun x y => time x < time y)
    (hs : IsLeast {u | ∃ x ∈ xs, f x = a ∧ time x = u} s)
    (ht : IsLeast {u | ∃ x ∈ xs, f x = b ∧ time x = u} t) :
    (xs.map f).idxOf a < (xs.map f).idxOf b ↔ s < t := by
  induction xs with
  | nil =>
    obtain ⟨x, hx, -⟩ := hs.1
    simp at hx
  | cons x xs ih =>
    obtain ⟨hhead, htail⟩ := List.pairwise_cons.mp h
    -- The least time of what the head shows is the head's own.
    have hfirst : ∀ c u, IsLeast {u | ∃ y ∈ x :: xs, f y = c ∧ time y = u} u → f x = c →
        u = time x := by
      intro c u hu hc
      obtain ⟨y, hy, -, rfl⟩ := hu.1
      refine le_antisymm (hu.2 ⟨x, List.mem_cons_self, hc, rfl⟩) ?_
      rcases List.mem_cons.mp hy with rfl | hy
      · exact le_refl _
      · exact (hhead y hy).le
    have hrest : ∀ c u, IsLeast {u | ∃ y ∈ x :: xs, f y = c ∧ time y = u} u → f x ≠ c →
        IsLeast {u | ∃ y ∈ xs, f y = c ∧ time y = u} u ∧ time x < u := by
      intro c u hu hc
      obtain ⟨y, hy, hyc, hyu⟩ := hu.1
      rcases List.mem_cons.mp hy with rfl | hy
      · exact absurd hyc hc
      · refine ⟨⟨⟨y, hy, hyc, hyu⟩, ?_⟩, hyu ▸ hhead y hy⟩
        rintro v ⟨z, hz, hzc, hzv⟩
        exact hu.2 ⟨z, List.mem_cons_of_mem x hz, hzc, hzv⟩
    rw [List.map_cons]
    by_cases ha : f x = a
    · have hsx := hfirst a s hs ha
      by_cases hb : f x = b
      · have htx := hfirst b t ht hb
        rw [← ha, ← hb, hsx, htx]
        simp
      · have hlt := (hrest b t ht hb).2
        simp [← ha, hb, hsx, hlt]
    · obtain ⟨hs', hslt⟩ := hrest a s hs ha
      by_cases hb : f x = b
      · have htx := hfirst b t ht hb
        simp [← hb, htx, hslt.le]
      · obtain ⟨ht', -⟩ := hrest b t ht hb
        simp [ha, hb, ih htail hs' ht']

theorem SameOrder.rfl {l : List α} : SameOrder l l := fun _ _ _ _ _ _ => Iff.rfl

theorem sameOrder_concat (l : List α) (a : α) : SameOrder l (l ++ [a]) := by
  intro b hb c hc _ _
  simp only [idxOf_concat, hb, hc, if_true]

theorem idxOf_pre_post (pre post : List α) (e a : α) : (pre ++ e :: post).idxOf a =
    if a ∈ pre then pre.idxOf a else if a = e then pre.length
    else pre.length + 1 + post.idxOf a := by
  rw [List.idxOf_append]
  by_cases ha : a ∈ pre
  · simp [ha]
  · by_cases hae : a = e
    · subst hae
      simp [ha]
    · simp [ha, hae, Ne.symm hae]
      omega

/-- Taking an element out keeps the order exactly if it unseats nothing. -/
theorem sameOrder_removed (pre post : List α) (e : α) :
    SameOrder (pre ++ e :: post) (pre ++ post) ↔ ¬Unseats pre e post := by
  have hpre : ∀ x ∈ pre, pre.idxOf x < pre.length := fun x hx => List.idxOf_lt_length_of_mem hx
  constructor
  · -- The element seen in between changes places with `e`.
    rintro h ⟨hepre, hepost, f, hf, hfpre, hlt⟩
    have hfe : f ≠ e := by
      rintro rfl
      omega
    have horder := h e (by simp) f (by simp [hf]) (by simp [hepost]) (by simp [hf])
    rw [idxOf_pre_post, idxOf_pre_post, List.idxOf_append, List.idxOf_append] at horder
    simp only [hepre, hfpre, hfe, if_false, if_true] at horder
    omega
  · intro hkeep a ha b hb hap hbp
    rw [idxOf_pre_post, idxOf_pre_post, List.idxOf_append, List.idxOf_append]
    have hstay : ∀ x, e ∉ pre → e ∈ post → x ∈ post → x ∉ pre → x ≠ e →
        post.idxOf e < post.idxOf x := by
      intro x he hepost hx hxpre hxe
      rcases Nat.lt_trichotomy (post.idxOf e) (post.idxOf x) with hlt | heq | hgt
      · exact hlt
      · exact absurd ((List.idxOf_inj hepost).mp heq).symm hxe
      · exact absurd ⟨he, hepost, x, hx, hxpre, hgt⟩ hkeep
    by_cases hapre : a ∈ pre
    · have hla := hpre a hapre
      by_cases hbpre : b ∈ pre
      · simp [hapre, hbpre]
      · simp only [hapre, hbpre, if_true, if_false]
        split <;> omega
    · have hapost : a ∈ post := by simpa [hapre] using hap
      by_cases hbpre : b ∈ pre
      · have hlb := hpre b hbpre
        simp only [hapre, hbpre, if_true, if_false]
        split <;> omega
      · have hbpost : b ∈ post := by simpa [hbpre] using hbp
        simp only [hapre, hbpre, if_false]
        by_cases hae : a = e
        · subst hae
          by_cases hba : b = a
          · simp [hba]
          · have hlt := hstay b hapre hapost hbpost hbpre hba
            simp only [hba, if_true, if_false]
            omega
        · by_cases hbe : b = e
          · subst hbe
            have hlt := hstay a hbpre hbpost hapost hapre hae
            simp only [hae, if_true, if_false]
            omega
          · simp only [hae, hbe, if_false]
            omega

end FirstSeen
