import Mathlib.Data.List.Sort
import Mathlib.Data.Prod.Lex
import Mathlib.Tactic
set_option autoImplicit false

namespace Keyset
variable {α κ : Type} [LinearOrder κ] (key : α → κ)

def sort (l : List α) : List α := l.insertionSort fun a b => key a ≤ key b

def Rising (l : List α) : Prop := l.Pairwise fun a b => key a < key b

def older (k : κ) (l : List α) : List α := l.filter fun a => key a < k

def newer (k : κ) (l : List α) : List α := l.filter fun a => k < key a

def newest (n : Nat) (l : List α) : List α := l.drop (l.length - n)

variable {key} {l l' pre post page : List α} {a b : α} {k : κ} {n : Nat}

theorem sort_perm (l : List α) : (sort key l).Perm l := List.perm_insertionSort _ l

@[simp] theorem mem_sort : a ∈ sort key l ↔ a ∈ l := (sort_perm l).mem_iff

theorem rising_sort (h : (l.map key).Nodup) : Rising key (sort key l) := by
  have hle : (sort key l).Pairwise fun a b => key a ≤ key b := List.pairwise_insertionSort _ l
  have hne : (sort key l).Pairwise fun a b => key a ≠ key b := by
    have hnodup : ((sort key l).map key).Nodup := ((sort_perm l).map key).nodup_iff.mpr h
    exact List.pairwise_map.mp hnodup
  exact hle.imp₂ (fun _ _ hab hne => lt_of_le_of_ne hab hne) hne

theorem Rising.filter (h : Rising key l) (p : α → Bool) : Rising key (l.filter p) :=
  List.Pairwise.filter p h

theorem Rising.sublist (h : Rising key l) (hs : l'.Sublist l) : Rising key l' :=
  List.Pairwise.sublist hs h

theorem Rising.eq_of_perm (h : Rising key l) (h' : Rising key l') (hp : l.Perm l') : l = l' := by
  refine List.Perm.eq_of_pairwise ?_ h h' hp
  intro a b _ _ hab hba
  exact absurd hab (not_lt.mpr hba.le)

theorem Rising.sort_eq (h : Rising key l) : sort key l = l := by
  have hle : l.Pairwise fun a b => key a ≤ key b := List.Pairwise.imp (fun hab => hab.le) h
  exact hle.insertionSort_eq

theorem Rising.mem_take (h : Rising key l) (hb : b ∈ l.take n) (ha : a ∈ l)
    (hle : key a ≤ key b) : a ∈ l.take n := by
  rw [← List.take_append_drop n l] at ha
  rcases List.mem_append.mp ha with ha | ha
  · exact ha
  · have hsplit : Rising key (l.take n ++ l.drop n) := by
      rw [List.take_append_drop]
      exact h
    have hlt := (List.pairwise_append.mp hsplit).2.2 b hb a ha
    exact absurd hle (not_le.mpr hlt)

theorem sort_filter (h : (l.map key).Nodup) (p : α → Bool) :
    sort key (l.filter p) = (sort key l).filter p := by
  have hsub : ((l.filter p).map key).Nodup := (List.filter_sublist.map key).nodup h
  refine (rising_sort hsub).eq_of_perm ((rising_sort h).filter p) ?_
  exact (sort_perm _).trans ((sort_perm l).filter p).symm

theorem sort_descending (h : (l.map key).Nodup) :
    (l.insertionSort fun a b => key b ≤ key a) = (sort key l).reverse := by
  have hge : (l.insertionSort fun a b => key b ≤ key a).Pairwise fun a b => key b ≤ key a := by
    have : Std.Total fun a b : α => key b ≤ key a := ⟨fun a b => le_total (key b) (key a)⟩
    have : IsTrans α fun a b => key b ≤ key a := ⟨fun _ _ _ hab hbc => le_trans hbc hab⟩
    exact List.pairwise_insertionSort _ l
  have hperm := List.perm_insertionSort (fun a b => key b ≤ key a) l
  have hnodup := (hperm.map key).nodup_iff.mpr h
  have hgt := hge.imp₂ (fun _ _ hab hne => lt_of_le_of_ne hab (Ne.symm hne))
    (List.pairwise_map.mp hnodup)
  have hrising : Rising key (l.insertionSort fun a b => key b ≤ key a).reverse :=
    List.pairwise_reverse.mpr hgt
  have heq := hrising.eq_of_perm (rising_sort h)
    ((List.reverse_perm _).trans (hperm.trans (sort_perm l).symm))
  rw [← heq, List.reverse_reverse]

/-- The descending limit, put back in order, is the last `n` rows. -/
theorem sort_take_reverse (h : Rising key l) : sort key (l.reverse.take n) = newest n l := by
  rw [List.take_reverse, newest]
  have hrising : Rising key (l.drop (l.length - n)) := h.sublist (List.drop_sublist _ _)
  have hnodup : ((l.drop (l.length - n)).reverse.map key).Nodup := by
    rw [List.map_reverse, List.nodup_reverse]
    exact List.pairwise_map.mpr (hrising.imp fun hab => hab.ne)
  exact (rising_sort hnodup).eq_of_perm hrising ((sort_perm _).trans (List.reverse_perm _))

theorem before_left_out {R : α → α → Prop} (h : l.Pairwise R) (ha : a ∈ l)
    (hnot : a ∉ l.take n) : (l.take n).length = n ∧ ∀ b ∈ l.take n, R b a := by
  rw [← List.take_append_drop n l] at ha h
  have hdrop := (List.mem_append.mp ha).resolve_left hnot
  refine ⟨?_, fun b hb => (List.pairwise_append.mp h).2.2 b hb a hdrop⟩
  have hpos := List.length_pos_of_mem hdrop
  rw [List.length_drop] at hpos
  rw [List.length_take]
  omega

theorem Rising.newer_left_out (h : Rising key l) (ha : a ∈ l) (hnot : a ∉ newest n l) :
    n ≤ (newer key (key a) l).length := by
  have hreverse : l.reverse.Pairwise fun b c => key c < key b := List.pairwise_reverse.mpr h
  have hnot' : a ∉ l.reverse.take n := by
    rw [List.take_reverse, List.mem_reverse]
    exact hnot
  obtain ⟨hfull, hnewer⟩ := before_left_out hreverse (List.mem_reverse.mpr ha) hnot'
  have hsub : ((l.reverse.take n).filter fun b => key a < key b).Sublist
      (l.reverse.filter fun b => key a < key b) := (List.take_sublist n l.reverse).filter _
  rw [List.filter_eq_self.mpr fun b hb => by simpa using hnewer b hb, List.filter_reverse] at hsub
  calc n = (l.reverse.take n).length := hfull.symm
    _ ≤ (newer key (key a) l).reverse.length := hsub.length_le
    _ = (newer key (key a) l).length := List.length_reverse

/-- The binary search over rising rows finds where the older ones end. -/
theorem Rising.takeWhile_eq (h : Rising key l) (k : κ) :
    l.takeWhile (fun a => key a < k) = older key k l := by
  induction l with
  | nil => rfl
  | cons a l ih =>
    obtain ⟨hhead, htail⟩ := List.pairwise_cons.mp h
    by_cases ha : key a < k
    · simp only [older, List.takeWhile_cons, List.filter_cons, ha, decide_true, if_true]
      rw [ih htail, older]
    · have hnone : l.filter (fun b => key b < k) = [] := by
        rw [List.filter_eq_nil_iff]
        intro b hb
        have hab := hhead b hb
        simp only [decide_eq_true_eq, not_lt]
        exact (not_lt.mp ha).trans hab.le
      simp [older, ha, hnone]

theorem Rising.drop_eq (h : Rising key l) (k : κ) :
    l.drop (older key k l).length = l.filter fun a => k ≤ key a := by
  induction l with
  | nil => rfl
  | cons a l ih =>
    obtain ⟨hhead, htail⟩ := List.pairwise_cons.mp h
    by_cases ha : key a < k
    · have hlen : (older key k (a :: l)).length = (older key k l).length + 1 := by
        simp [older, ha]
      rw [hlen, List.drop_succ_cons, ih htail, List.filter_cons_of_neg (by simpa using ha)]
    · have hall : ∀ b ∈ a :: l, k ≤ key b := by
        intro b hb
        rcases List.mem_cons.mp hb with rfl | hb
        · exact not_lt.mp ha
        · exact (not_lt.mp ha).trans (hhead b hb).le
      have hnone : older key k (a :: l) = [] := by
        rw [older, List.filter_eq_nil_iff]
        intro b hb
        simpa using hall b hb
      have hself : (a :: l).filter (fun b => k ≤ key b) = a :: l := by
        rw [List.filter_eq_self]
        intro b hb
        simpa using hall b hb
      rw [hnone, hself]
      rfl

theorem older_split (h : Rising key (pre ++ a :: post)) :
    older key (key a) (pre ++ a :: post) = pre := by
  obtain ⟨-, hpost, hcross⟩ := List.pairwise_append.mp h
  have hkeep : pre.filter (fun b => key b < key a) = pre := by
    rw [List.filter_eq_self]
    intro b hb
    simpa using hcross b hb a (by simp)
  have hnone : (a :: post).filter (fun b => key b < key a) = [] := by
    rw [List.filter_eq_nil_iff]
    intro b hb
    rcases List.mem_cons.mp hb with rfl | hb
    · simp
    · simpa using ((List.pairwise_cons.mp hpost).1 b hb).le
  rw [older, List.filter_append, hkeep, hnone, List.append_nil]

theorem newer_split (h : Rising key (pre ++ a :: post)) :
    newer key (key a) (pre ++ a :: post) = post := by
  obtain ⟨-, hpost, hcross⟩ := List.pairwise_append.mp h
  have hnone : pre.filter (fun b => key a < key b) = [] := by
    rw [List.filter_eq_nil_iff]
    intro b hb
    simpa using (hcross b hb a (by simp)).le
  have hkeep : post.filter (fun b => key a < key b) = post := by
    rw [List.filter_eq_self]
    intro b hb
    simpa using (List.pairwise_cons.mp hpost).1 b hb
  rw [newer, List.filter_append, hnone, List.filter_cons_of_neg (by simp), hkeep, List.nil_append]

end Keyset
