import Mathlib.Data.List.DropRight
import Mathlib.Tactic
set_option autoImplicit false

namespace Trimmed
variable {α : Type} {p : α → Bool}

def Trim (p : α → Bool) (l : List α) : Prop :=
  (∀ a ∈ l.head?, p a = false) ∧ ∀ a ∈ l.getLast?, p a = false

theorem trimmed_iff {l : List α} : (l.dropWhile p).rdropWhile p = l ↔ Trim p l := by
  have hhead : l.dropWhile p = l ↔ ∀ a ∈ l.head?, p a = false := by
    cases l with
    | nil => simp
    | cons a l => simp [List.dropWhile_eq_self_iff]
  have hlast : l.rdropWhile p = l ↔ ∀ a ∈ l.getLast?, p a = false := by
    rw [List.rdropWhile_eq_self_iff]
    constructor
    · intro h a ha
      obtain ⟨ys, rfl⟩ := List.getLast?_eq_some_iff.mp ha
      simpa using h (by simp)
    · intro h hne
      simpa using h _ (List.getLast?_eq_some_getLast hne)
  constructor
  · intro h
    have hsuffix := List.dropWhile_suffix p (l := l)
    have hprefix := List.rdropWhile_prefix p (l.dropWhile p)
    have hlen := congrArg List.length h
    have hdrop : l.dropWhile p = l := hsuffix.eq_of_length
      (le_antisymm hsuffix.length_le (hlen ▸ hprefix.length_le))
    rw [hdrop] at h
    exact ⟨hhead.mp hdrop, hlast.mp h⟩
  · rintro ⟨h₁, h₂⟩
    rw [hhead.mpr h₁, hlast.mpr h₂]

/-- `m` is what stands in `l` between the `p`s at its ends. -/
def Core (p : α → Bool) (l m : List α) : Prop :=
  Trim p m ∧ ∃ left right, l = left ++ m ++ right ∧ (∀ a ∈ left, p a = true) ∧
    ∀ a ∈ right, p a = true

theorem Trim.map {β : Type} {q : β → Bool} {f : α → β} (hf : ∀ a, q (f a) = p a) {l : List α}
    (h : Trim p l) : Trim q (l.map f) := by
  constructor
  · intro b hb
    rw [List.head?_map, Option.mem_map] at hb
    obtain ⟨a, ha, rfl⟩ := hb
    rw [hf, h.1 a ha]
  · intro b hb
    rw [List.getLast?_map, Option.mem_map] at hb
    obtain ⟨a, ha, rfl⟩ := hb
    rw [hf, h.2 a ha]

theorem sublist_tail {u l : List α} (h : u.Sublist l) (hl : ∀ a ∈ l.head?, p a = false)
    (hu : ∃ a ∈ u.head?, p a = true) : u.Sublist l.tail := by
  obtain ⟨a, ha, hpa⟩ := hu
  cases l with
  | nil => exact h
  | cons b l =>
    rcases List.sublist_cons_iff.mp h with h | ⟨r, rfl, -⟩
    · exact h
    · have hab : b = a := by simpa using ha
      have hb := hl b (by simp)
      rw [hab, hpa] at hb
      cases hb

theorem sublist_dropLast {u l : List α} (h : u.Sublist l) (hl : ∀ a ∈ l.getLast?, p a = false)
    (hu : ∃ a ∈ u.getLast?, p a = true) : u.Sublist l.dropLast := by
  have hback : u.reverse.Sublist l.reverse.tail := by
    refine sublist_tail (p := p) (List.reverse_sublist.mpr h) ?_ ?_
    · rwa [List.head?_reverse]
    · rwa [List.head?_reverse]
  rw [List.tail_reverse] at hback
  exact List.reverse_sublist.mp hback

/-- One place more for each end that trimming would remove. -/
def ends (p : α → Bool) (u : List α) : Nat :=
  (if u.head?.any p then 1 else 0) + if u.getLast?.any p then 1 else 0

theorem any_iff_exists {o : Option α} : o.any p = true ↔ ∃ a ∈ o, p a = true := by
  cases o <;> simp

theorem length_add_front {u l : List α} (hne : u ≠ []) (h : u.Sublist l)
    (hl : ∀ a ∈ l.head?, p a = false) :
    ∃ m, u.Sublist m ∧ m.getLast? = l.getLast? ∧
      m.length + (if u.head?.any p then 1 else 0) = l.length := by
  by_cases hfront : u.head?.any p = true
  · have htail := sublist_tail h hl (any_iff_exists.mp hfront)
    cases l with
    | nil => exact absurd (List.sublist_nil.mp h) hne
    | cons b m =>
      have hm : m ≠ [] := by
        rintro rfl
        exact hne (List.sublist_nil.mp htail)
      refine ⟨m, htail, ?_, by simp [hfront]⟩
      rw [List.getLast?_cons_of_ne_nil hm]
  · exact ⟨l, h, rfl, by simp [hfront]⟩

theorem length_add_ends {u l : List α} (h : u.Sublist l) (hl : Trim p l) :
    u.length + ends p u ≤ l.length := by
  by_cases hne : u = []
  · simp [hne, ends]
  · obtain ⟨m, hm, hlast, hlen⟩ := length_add_front hne h hl.1
    have hback : u.length + (if u.getLast?.any p then 1 else 0) ≤ m.length := by
      by_cases hend : u.getLast?.any p = true
      · have hdrop := sublist_dropLast hm (hlast ▸ hl.2) (any_iff_exists.mp hend)
        have hpos : 0 < m.length := (List.length_pos_iff.mpr hne).trans_le hm.length_le
        have hle := hdrop.length_le
        rw [List.length_dropLast] at hle
        rw [if_pos hend]
        omega
      · rw [if_neg hend]
        exact hm.length_le
    unfold ends
    omega

theorem ends_le {bs : List Bool} {u : List α}
    (h : List.Forall₂ (fun b a => b = true → p a = true) bs u) : ends id bs ≤ ends p u := by
  have hhead : ∀ {bs : List Bool} {u : List α},
      List.Forall₂ (fun b a => b = true → p a = true) bs u →
      bs.head?.any id = true → u.head?.any p = true := by
    intro bs u h hb
    cases h with
    | nil => cases hb
    | cons hba _ => exact hba hb
  have hfront := hhead h
  have hback : bs.getLast?.any id = true → u.getLast?.any p = true := by
    have hreverse := hhead (List.rel_reverse h)
    rwa [List.head?_reverse, List.head?_reverse] at hreverse
  unfold ends
  split
  · rename_i hb
    rw [if_pos (hfront hb)]
    split
    · rename_i hb
      rw [if_pos (hback hb)]
    · omega
  · split
    · rename_i hb
      rw [if_pos (hback hb)]
      omega
    · omega

section Ends
variable {q w : α → Bool} {l m : List α}

theorem rdropWhile_append_of_pos (h : ∀ a ∈ m, p a = true) :
    (l ++ m).rdropWhile p = l.rdropWhile p := by
  induction m using List.reverseRecOn with
  | nil => rw [List.append_nil]
  | append_singleton m a ih =>
    rw [← List.append_assoc, List.rdropWhile_concat_pos _ _ _ (h a (by simp))]
    exact ih fun b hb => h b (List.mem_append_left _ hb)

theorem core_iff {l m : List α} : Core p l m ↔ (l.dropWhile p).rdropWhile p = m := by
  constructor
  · rintro ⟨hm, left, right, rfl, hleft, hright⟩
    rw [List.append_assoc, List.dropWhile_append_of_pos hleft]
    cases m with
    | nil =>
      rw [List.nil_append, List.dropWhile_eq_nil_iff.mpr hright]
      rfl
    | cons a m =>
      rw [List.cons_append, List.dropWhile_cons_of_neg (by simp [hm.1 a rfl]), ← List.cons_append,
        rdropWhile_append_of_pos hright]
      exact List.rdropWhile_eq_self_iff.mpr fun hne => by
        simpa using hm.2 _ (List.getLast?_eq_some_getLast hne)
  · rintro rfl
    refine ⟨⟨fun a ha => ?_, ?_⟩, l.takeWhile p, (l.dropWhile p).rtakeWhile p, ?_,
      fun a ha => List.mem_takeWhile_imp ha, fun a ha => List.mem_rtakeWhile_imp ha⟩
    · obtain ⟨rest, hrest⟩ := List.rdropWhile_prefix p (l.dropWhile p)
      have hhead := List.head?_dropWhile_not p l
      rw [← hrest, List.head?_append, ha] at hhead
      simpa using hhead
    · intro a ha
      obtain ⟨front, hfront⟩ := List.getLast?_eq_some_iff.mp ha
      have hlast := List.rdropWhile_last_not p (l.dropWhile p) (by simp [hfront])
      simpa [hfront] using hlast
    · rw [List.append_assoc, List.rdropWhile_append_rtakeWhile,
        List.takeWhile_append_dropWhile]

theorem ends_in_iff (hqp : ∀ a, q a = true → p a = false) (hwp : ∀ a, w a = true → p a = false)
    (hwq : ∀ a, w a = true → q a = false) :
    (∃ a ∈ ((l.rdropWhile p).rdropWhile q).getLast?, w a = true) ↔
      ∃ front a xs ys, l = front ++ a :: (xs ++ ys) ∧ w a = true ∧ (∀ b ∈ xs, q b = true) ∧
        ∀ b ∈ ys, p b = true := by
  constructor
  · rintro ⟨a, ha, hw⟩
    obtain ⟨front, hfront⟩ := List.getLast?_eq_some_iff.mp ha
    refine ⟨front, a, (l.rdropWhile p).rtakeWhile q, l.rtakeWhile p, ?_, hw,
      fun b hb => List.mem_rtakeWhile_imp hb, fun b hb => List.mem_rtakeWhile_imp hb⟩
    have hinner : (l.rdropWhile p).rdropWhile q ++ (l.rdropWhile p).rtakeWhile q =
        l.rdropWhile p := List.rdropWhile_append_rtakeWhile
    calc
      l = l.rdropWhile p ++ l.rtakeWhile p := List.rdropWhile_append_rtakeWhile.symm
      _ = (front ++ [a]) ++ (l.rdropWhile p).rtakeWhile q ++ l.rtakeWhile p := by
        rw [← hfront, hinner]
      _ = _ := by simp
  · rintro ⟨front, a, xs, ys, rfl, hw, hxs, hys⟩
    have hinner : (front ++ a :: (xs ++ ys)).rdropWhile p = front ++ a :: xs := by
      rw [← List.cons_append, ← List.append_assoc, rdropWhile_append_of_pos hys]
      cases xs using List.reverseRecOn with
      | nil => exact List.rdropWhile_concat_neg _ _ _ (by simp [hwp a hw])
      | append_singleton xs b =>
        rw [← List.cons_append, ← List.append_assoc]
        exact List.rdropWhile_concat_neg _ _ _ (by simp [hqp b (hxs b (by simp))])
    have houter : (front ++ a :: xs).rdropWhile q = front ++ [a] := by
      rw [← List.singleton_append, ← List.append_assoc, rdropWhile_append_of_pos hxs,
        List.rdropWhile_concat_neg _ _ _ (by simp [hwq a hw])]
    exact ⟨a, by rw [hinner, houter]; simp, hw⟩

end Ends

section Initial
variable {l m t : List α}

theorem rdropWhile_self : l.rdropWhile p = l ↔ ∀ a ∈ l.getLast?, p a = false := by
  rw [List.rdropWhile_eq_self_iff]
  constructor
  · intro h a ha
    obtain ⟨ys, rfl⟩ := List.getLast?_eq_some_iff.mp ha
    simpa using h (by simp)
  · intro h hne
    simpa using h _ (List.getLast?_eq_some_getLast hne)

theorem getLast?_rdropWhile (l : List α) : ∀ a ∈ (l.rdropWhile p).getLast?, p a = false :=
  rdropWhile_self.mp (List.rdropWhile_idempotent p l)

theorem rdropWhile_append_of_neg (h : ∃ a ∈ m, p a = false) :
    (l ++ m).rdropWhile p = l ++ m.rdropWhile p := by
  induction m using List.reverseRecOn with
  | nil => simp at h
  | append_singleton m a ih =>
    rw [← List.append_assoc]
    cases ha : p a with
    | false => rw [List.rdropWhile_concat_neg _ _ _ (by simp [ha]),
        List.rdropWhile_concat_neg _ _ _ (by simp [ha]), List.append_assoc]
    | true =>
      rw [List.rdropWhile_concat_pos _ _ _ ha, List.rdropWhile_concat_pos _ _ _ ha]
      obtain ⟨b, hb, hneg⟩ := h
      refine ih ⟨b, (List.mem_append.mp hb).resolve_right fun hlast => ?_, hneg⟩
      rw [List.mem_singleton.mp hlast, ha] at hneg
      cases hneg

theorem rdropWhile_append (hlast : ∀ a ∈ l.getLast?, p a = false) :
    (l ++ m).rdropWhile p = l ++ m.rdropWhile p := by
  by_cases hm : ∃ a ∈ m, p a = false
  · exact rdropWhile_append_of_neg hm
  · have hall : ∀ a ∈ m, p a = true := fun a ha =>
      Bool.eq_true_of_not_eq_false fun hneg => hm ⟨a, ha, hneg⟩
    rw [rdropWhile_append_of_pos hall, rdropWhile_self.mpr hlast,
      List.rdropWhile_eq_nil_iff.mpr hall, List.append_nil]

theorem prefix_rdropWhile (ht : t <+: l) (hlast : ∀ a ∈ t.getLast?, p a = false) :
    t <+: l.rdropWhile p := by
  obtain ⟨rest, rfl⟩ := ht
  rw [rdropWhile_append hlast]
  exact List.prefix_append _ _

theorem rdropWhile_mono (h : t <+: l) : t.rdropWhile p <+: l.rdropWhile p :=
  prefix_rdropWhile ((List.rdropWhile_prefix p t).trans h) (getLast?_rdropWhile t)

theorem dropWhile_append_of_neg (h : ∃ a ∈ t, p a = false) :
    (t ++ m).dropWhile p = t.dropWhile p ++ m := by
  rw [List.dropWhile_append, if_neg]
  rw [List.isEmpty_iff, List.dropWhile_eq_nil_iff]
  obtain ⟨a, ha, hneg⟩ := h
  intro hall
  rw [hall a ha] at hneg
  cases hneg

theorem dropWhile_mono (h : t <+: l) : t.dropWhile p <+: l.dropWhile p := by
  obtain ⟨rest, rfl⟩ := h
  by_cases ht : ∃ a ∈ t, p a = false
  · rw [dropWhile_append_of_neg ht]
    exact List.prefix_append _ _
  · have hall : ∀ a ∈ t, p a = true := fun a ha =>
      Bool.eq_true_of_not_eq_false fun hneg => ht ⟨a, ha, hneg⟩
    rw [List.dropWhile_eq_nil_iff.mpr hall]
    exact List.nil_prefix

/-- The two ends can be taken off in either order. -/
theorem rdropWhile_dropWhile (l : List α) :
    (l.dropWhile p).rdropWhile p = (l.rdropWhile p).dropWhile p := by
  refine core_iff.mp ⟨⟨fun a ha => ?_, fun a ha => ?_⟩, (l.rdropWhile p).takeWhile p,
    l.rtakeWhile p, ?_, fun a ha => List.mem_takeWhile_imp ha,
    fun a ha => List.mem_rtakeWhile_imp ha⟩
  · simpa [Option.mem_def.mp ha] using List.head?_dropWhile_not p (l.rdropWhile p)
  · obtain ⟨front, hfront⟩ := List.dropWhile_suffix p (l := l.rdropWhile p)
    refine getLast?_rdropWhile l a ?_
    rw [← hfront, List.getLast?_append, Option.mem_def.mp ha]
    rfl
  · rw [List.takeWhile_append_dropWhile, List.rdropWhile_append_rtakeWhile]

theorem trim_eq_iff (ht : t <+: l) (hm : m <+: l) :
    (t.dropWhile p).rdropWhile p = (m.dropWhile p).rdropWhile p ↔
      t.rdropWhile p = m.rdropWhile p := by
  have hlonger : ∀ {u v : List α}, u <+: v → (∀ a ∈ u.getLast?, p a = false) →
      (∀ a ∈ v.getLast?, p a = false) → u.dropWhile p = v.dropWhile p → u = v := by
    rintro u _ ⟨rest, rfl⟩ hu hv heq
    by_cases hneg : ∃ a ∈ u, p a = false
    · rw [dropWhile_append_of_neg hneg, List.self_eq_append_right] at heq
      rw [heq, List.append_nil]
    · have hall : ∀ a ∈ u, p a = true := fun a ha =>
        Bool.eq_true_of_not_eq_false fun h => hneg ⟨a, ha, h⟩
      rw [List.dropWhile_eq_nil_iff.mpr hall, eq_comm, List.dropWhile_eq_nil_iff] at heq
      have hnil : (u ++ rest).rdropWhile p = [] := List.rdropWhile_eq_nil_iff.mpr heq
      rw [rdropWhile_self.mpr hv, List.append_eq_nil_iff] at hnil
      rw [hnil.1, hnil.2, List.append_nil]
  rw [rdropWhile_dropWhile, rdropWhile_dropWhile]
  constructor
  · intro heq
    have htl := (List.rdropWhile_prefix p t).trans ht
    have hml := (List.rdropWhile_prefix p m).trans hm
    rcases List.prefix_or_prefix_of_prefix htl hml with h | h
    · exact hlonger h (getLast?_rdropWhile t) (getLast?_rdropWhile m) heq
    · exact (hlonger h (getLast?_rdropWhile m) (getLast?_rdropWhile t) heq.symm).symm
  · exact congrArg _

end Initial

end Trimmed
