import Mathlib.Data.List.Sort
import Mathlib.Tactic
set_option autoImplicit false

namespace Ranking
variable {α : Type}

def page (offset limit : Nat) (l : List α) : List α := (l.drop offset).take limit

theorem get_page (offset limit i : Nat) (l : List α) :
    (page offset limit l)[i]? = if i < limit then l[offset + i]? else none := by
  rw [page, List.getElem?_take]
  simp only [List.getElem?_drop]

theorem page_flatten (limit pages : Nat) (l : List α) :
    ((List.range pages).map fun i => page (i * limit) limit l).flatten =
      l.take (pages * limit) := by
  induction pages with
  | zero => simp
  | succ n ih =>
    rw [List.range_succ, List.map_append, List.flatten_append, ih, Nat.succ_mul, List.take_add]
    simp [page]

theorem countP_or {p q : α → Prop} [DecidablePred p] [DecidablePred q] (h : ∀ a, p a → ¬q a)
    (l : List α) :
    (l.countP fun a => p a ∨ q a) = (l.countP fun a => p a) + l.countP fun a => q a := by
  induction l with
  | nil => rfl
  | cons a l ih =>
    simp only [List.countP_cons, decide_eq_true_eq] at ih ⊢
    rw [ih]
    by_cases hp : p a
    · simp only [hp, h a hp, true_or, if_true, if_false]
      omega
    · simp only [hp, false_or, if_false]
      omega

section Positions
variable {R S : α → α → Prop} [DecidableRel R] [DecidableRel S] {l l' : List α} {a : α} {p : Nat}

theorem countP_before (hR : l.Pairwise R) (hasymm : ∀ a b, R a b → ¬R b a)
    (ha : l[p]? = some a) : (l.countP fun b => R b a) = p := by
  obtain ⟨hp, hget⟩ := List.getElem?_eq_some_iff.mp ha
  have hsplit : l.take p ++ a :: l.drop (p + 1) = l := by
    rw [← hget, ← List.drop_eq_getElem_cons hp, List.take_append_drop]
  have hR' : (l.take p ++ a :: l.drop (p + 1)).Pairwise R := by rwa [hsplit]
  obtain ⟨-, hafter, hbefore⟩ := List.pairwise_append.mp hR'
  have hall : ∀ b ∈ l.take p, decide (R b a) = true := fun b hb =>
    decide_eq_true (hbefore b hb a List.mem_cons_self)
  have htake : (l.take p).countP (fun b => R b a) = p := by
    rw [List.countP_eq_length.mpr hall, List.length_take, min_eq_left hp.le]
  have hdrop : (a :: l.drop (p + 1)).countP (fun b => R b a) = 0 := by
    rw [List.countP_eq_zero]
    intro b hb hlt
    have hlt := of_decide_eq_true hlt
    rcases List.mem_cons.mp hb with rfl | hb
    · exact hasymm _ _ hlt hlt
    · exact hasymm _ _ ((List.pairwise_cons.mp hafter).1 b hb) hlt
  calc
    (l.countP fun b => R b a) = (l.take p ++ a :: l.drop (p + 1)).countP fun b => R b a := by
      rw [hsplit]
    _ = p := by rw [List.countP_append, htake, hdrop, Nat.add_zero]

theorem get_countP (hR : l.Pairwise R) (hasymm : ∀ a b, R a b → ¬R b a) (ha : a ∈ l) :
    l[l.countP fun b => R b a]? = some a := by
  obtain ⟨p, hp⟩ := List.mem_iff_getElem?.mp ha
  rw [countP_before hR hasymm hp, hp]

/-- Two orders of the same elements agree on a page when every element of it stands at
the same place in both. -/
theorem page_eq_iff {o n : Nat} (hperm : l.Perm l') (hR : l.Pairwise R) (hS : l'.Pairwise S)
    (hasymmR : ∀ a b, R a b → ¬R b a) (hasymmS : ∀ a b, S a b → ¬S b a) :
    page o n l = page o n l' ↔
      ∀ a ∈ l, o ≤ (l.countP fun b => R b a) → (l.countP fun b => R b a) < o + n →
        (l.countP fun b => R b a) = l.countP fun b => S b a := by
  constructor
  · intro heq a ha ho hn
    have hget := get_countP hR hasymmR ha
    have hpage := congrArg (·[(l.countP fun b => R b a) - o]?) heq
    simp only [get_page] at hpage
    rw [if_pos (by omega), if_pos (by omega), Nat.add_sub_cancel' ho, hget] at hpage
    rw [← countP_before hS hasymmS hpage.symm, hperm.countP_eq]
  · intro hsame
    refine List.ext_getElem? fun i => ?_
    rw [get_page, get_page]
    by_cases hi : i < n
    · rw [if_pos hi, if_pos hi]
      cases hget : l[o + i]? with
      | none =>
        have hlen := List.getElem?_eq_none_iff.mp hget
        rw [eq_comm, List.getElem?_eq_none_iff, ← hperm.length_eq]
        exact hlen
      | some a =>
        have hcount := countP_before hR hasymmR hget
        have ha := List.mem_of_getElem? hget
        have hplace := hsame a ha (by omega) (by omega)
        have hget' := get_countP hS hasymmS (hperm.mem_iff.mp ha)
        rw [← hperm.countP_eq, ← hplace, hcount] at hget'
        exact hget'.symm
    · rw [if_neg hi, if_neg hi]

end Positions

section Ties
variable {le : α → α → Prop} [DecidableRel le] {S : α → α → Prop} {l : List α}

theorem pair_sublist {a b : α} (ha : a ∈ l) (hb : b ∈ l) (hne : a ≠ b) :
    [a, b].Sublist l ∨ [b, a].Sublist l := by
  obtain ⟨s, t, rfl⟩ := List.append_of_mem ha
  rcases List.mem_append.mp hb with hb | hb
  · right
    exact (List.singleton_sublist.mpr hb).append (List.singleton_sublist.mpr (by simp))
  · left
    have hb' : b ∈ t := (List.mem_cons.mp hb).resolve_left (Ne.symm hne)
    exact ((List.singleton_sublist.mpr hb').cons_cons a).trans (List.sublist_append_right s _)

theorem pair_sublist_asymm {a b : α} (hnd : l.Nodup) (h : [a, b].Sublist l) :
    ¬[b, a].Sublist l := by
  have hmem : ∀ {l : List α}, [a, b].Sublist l ∨ [b, a].Sublist l → a ∈ l ∧ b ∈ l := by
    rintro l (h | h)
    · exact ⟨h.subset (by simp), h.subset (by simp)⟩
    · exact ⟨h.subset (by simp), h.subset (by simp)⟩
  induction l with
  | nil => simp at h
  | cons x l ih =>
    intro h'
    obtain ⟨hx, hnd⟩ := List.nodup_cons.mp hnd
    rcases List.sublist_cons_iff.mp h with hl | ⟨r, hr, hl⟩
    · rcases List.sublist_cons_iff.mp h' with hl' | ⟨r', hr', hl'⟩
      · exact ih hnd hl hl'
      · cases hr'
        exact hx (hmem (.inl hl)).2
    · cases hr
      rcases List.sublist_cons_iff.mp h' with hl' | ⟨r', hr', hl'⟩
      · exact hx (hmem (.inr hl')).1
      · cases hr'
        exact hx (List.singleton_sublist.mp hl)

theorem insertionSort_stable [Std.Total le] [IsTrans α le] (hnd : l.Nodup)
    (hS : l.Pairwise S) :
    (l.insertionSort le).Pairwise fun a b => le a b ∧ (le b a → S a b) := by
  have hsorted := List.pairwise_insertionSort le l
  have hnd' : (l.insertionSort le).Nodup := (List.perm_insertionSort le l).nodup_iff.mpr hnd
  refine List.pairwise_iff_forall_sublist.mpr fun {a b} hab => ?_
  have hle : le a b := List.pairwise_iff_forall_sublist.mp hsorted hab
  refine ⟨hle, fun hba => ?_⟩
  have ha : a ∈ l := (List.mem_insertionSort le).mp (hab.subset (by simp))
  have hb : b ∈ l := (List.mem_insertionSort le).mp (hab.subset (by simp))
  have hne : a ≠ b := by
    rintro rfl
    exact pair_sublist_asymm hnd' hab hab
  rcases pair_sublist ha hb hne with h | h
  · exact List.pairwise_iff_forall_sublist.mp hS h
  · have hback := List.pair_sublist_insertionSort hba h
    exact absurd hback (pair_sublist_asymm hnd' hab)

end Ties

section Pages
variable {le : α → α → Prop} {l sorted : List α} {a b : α} {i : Nat}

/-- Elements that the order leaves tied do not meet on the page, nor does it cut them apart:
those in front of `a` and those that are not behind it number all of its places. -/
def Untied (le : α → α → Prop) [DecidableRel le] (offset limit : Nat) (l : List α) : Prop :=
  ∀ a ∈ l, let first := l.countP fun b => ¬le a b
    let last := l.countP fun b => le b a
    last ≤ first + 1 ∨ last ≤ offset ∨ offset + limit ≤ first

instance [DecidableRel le] (offset limit : Nat) (l : List α) :
    Decidable (Untied le offset limit l) := inferInstanceAs (Decidable (∀ a ∈ l, _ ∨ _))

theorem countP_drop {p : α → Bool} (h : ∀ b ∈ l.drop i, p b = false) : l.countP p ≤ i := by
  calc
    l.countP p = (l.take i ++ l.drop i).countP p := by rw [List.take_append_drop]
    _ = (l.take i).countP p := by
      have hzero : (l.drop i).countP p = 0 := List.countP_eq_zero.mpr fun b hb => by simp [h b hb]
      rw [List.countP_append, hzero, Nat.add_zero]
    _ ≤ (l.take i).length := List.countP_le_length
    _ ≤ i := List.length_take_le i l

theorem countP_take {p : α → Bool} (hi : i ≤ l.length) (h : ∀ b ∈ l.take i, p b = true) :
    i ≤ l.countP p := by
  calc
    i = (l.take i).length := by rw [List.length_take, min_eq_left hi]
    _ = (l.take i).countP p := (List.countP_eq_length.mpr h).symm
    _ ≤ l.countP p := (List.take_sublist i l).countP_le

theorem le_later (hsorted : sorted.Pairwise le) [Std.Refl le] {j : Nat} (hij : i ≤ j)
    (ha : sorted[i]? = some a) (hb : sorted[j]? = some b) : le a b := by
  obtain ⟨hi, rfl⟩ := List.getElem?_eq_some_iff.mp ha
  obtain ⟨hj, rfl⟩ := List.getElem?_eq_some_iff.mp hb
  rcases Nat.lt_or_eq_of_le hij with hlt | rfl
  · exact List.pairwise_iff_getElem.mp hsorted i j hi hj hlt
  · exact refl_of le _

theorem refl_total [Std.Total le] : Std.Refl le := ⟨fun a => by simpa using total_of le a a⟩

variable [DecidableRel le]

theorem place_perm (le : α → α → Prop) [DecidableRel le] {l' : List α} (hperm : l.Perm l')
    (a : α) :
    (l.countP fun b => ¬le a b) = (l'.countP fun b => ¬le a b) ∧
      (l.countP fun b => le b a) = l'.countP fun b => le b a :=
  ⟨hperm.countP_eq _, hperm.countP_eq _⟩

theorem place_bounds (hsorted : sorted.Pairwise le) [Std.Refl le] (ha : sorted[i]? = some a) :
    (sorted.countP fun b => ¬le a b) ≤ i ∧ i < sorted.countP fun b => le b a := by
  constructor
  · refine countP_drop fun b hb => ?_
    obtain ⟨k, hk⟩ := List.mem_iff_getElem?.mp hb
    rw [List.getElem?_drop] at hk
    simpa using le_later hsorted (Nat.le_add_right i k) ha hk
  · have hi := (List.getElem?_eq_some_iff.mp ha).1
    refine countP_take hi fun b hb => ?_
    obtain ⟨k, hk⟩ := List.mem_iff_getElem?.mp hb
    rw [List.getElem?_take] at hk
    split at hk
    · rename_i hlt
      exact decide_eq_true (le_later hsorted (Nat.le_of_lt_succ hlt) hk ha)
    · cases hk

variable [Std.Total le]

theorem page_eq_of_untied {offset limit : Nat} {l' : List α} (hl : l.Pairwise le)
    (hl' : l'.Pairwise le) (hperm : l.Perm l') (huntied : Untied le offset limit l) :
    page offset limit l = page offset limit l' := by
  have : Std.Refl le := refl_total
  refine List.ext_getElem? fun i => ?_
  rw [get_page, get_page]
  by_cases hi : i < limit
  · rw [if_pos hi, if_pos hi]
    cases hget : l[offset + i]? with
    | none =>
      have hlen := List.getElem?_eq_none_iff.mp hget
      rw [eq_comm, List.getElem?_eq_none_iff, ← hperm.length_eq]
      exact hlen
    | some a =>
      have ha := List.mem_of_getElem? hget
      obtain ⟨j, hj⟩ := List.mem_iff_getElem?.mp (hperm.mem_iff.mp ha)
      obtain ⟨hfirst, hlast⟩ := place_bounds hl hget
      obtain ⟨hfirst', hlast'⟩ := place_bounds hl' hj
      obtain ⟨hsame, hsame'⟩ := place_perm le hperm a
      have hplace : j = offset + i := by
        have hties := huntied a ha
        dsimp only at hties
        omega
      rw [← hplace, hj]
  · rw [if_neg hi, if_neg hi]

variable [IsTrans α le]

theorem tied_of_place (hsorted : sorted.Pairwise le) (hb : sorted[i]? = some b)
    (hfirst : (sorted.countP fun c => ¬le a c) ≤ i) (hlast : i < sorted.countP fun c => le c a) :
    le a b ∧ le b a := by
  have : Std.Refl le := refl_total
  obtain ⟨hbefore, hbehind⟩ := place_bounds hsorted hb
  constructor
  · by_contra hab
    have hmono : (sorted.countP fun c => le c b) ≤ sorted.countP fun c => ¬le a c :=
      List.countP_mono_left fun c _ hc => by
        simp only [decide_eq_true_eq] at hc ⊢
        exact fun hac => hab (trans_of le hac hc)
    omega
  · by_contra hba
    have hmono : (sorted.countP fun c => le c a) ≤ sorted.countP fun c => ¬le b c :=
      List.countP_mono_left fun c _ hc => by
        simp only [decide_eq_true_eq] at hc ⊢
        exact fun hbc => hba (trans_of le hbc hc)
    omega

theorem map_swap_perm [DecidableEq α] {c d : α} (hnd : l.Nodup) (hc : c ∈ l) (hd : d ∈ l) :
    (l.map (Equiv.swap c d)).Perm l := by
  have hinside : ∀ x ∈ l, Equiv.swap c d x ∈ l := by
    intro x hx
    by_cases hxc : x = c
    · simpa only [hxc, Equiv.swap_apply_left] using hd
    · by_cases hxd : x = d
      · simpa only [hxd, Equiv.swap_apply_right] using hc
      · simpa only [Equiv.swap_apply_of_ne_of_ne hxc hxd] using hx
  refine (List.perm_ext_iff_of_nodup (hnd.map (Equiv.injective _)) hnd).mpr fun x => ?_
  rw [List.mem_map]
  constructor
  · rintro ⟨y, hy, rfl⟩
    exact hinside y hy
  · exact fun hx => ⟨Equiv.swap c d x, hinside x hx, Equiv.swap_apply_self c d x⟩

omit [DecidableRel le] in
theorem pairwise_map_swap [DecidableEq α] {c d : α} (hsorted : l.Pairwise le)
    (hcd : le c d ∧ le d c) : (l.map (Equiv.swap c d)).Pairwise le := by
  have : Std.Refl le := refl_total
  have hlevel : ∀ x, le (Equiv.swap c d x) x ∧ le x (Equiv.swap c d x) := by
    intro x
    by_cases hxc : x = c
    · simpa only [hxc, Equiv.swap_apply_left] using hcd.symm
    · by_cases hxd : x = d
      · simpa only [hxd, Equiv.swap_apply_right] using hcd
      · simpa only [Equiv.swap_apply_of_ne_of_ne hxc hxd, and_self] using refl_of le x
  refine List.pairwise_map.mpr (hsorted.imp fun {x y} hxy => ?_)
  exact trans_of le (hlevel x).1 (trans_of le hxy (hlevel y).2)

/-- However tied elements are ordered, the page is the same, exactly when none of them is on
it. -/
theorem page_sort_iff {offset limit : Nat} (hnd : l.Nodup) (hlimit : 0 < limit) :
    (∀ scan : List α, scan.Perm l →
      page offset limit (scan.insertionSort le) = page offset limit (l.insertionSort le)) ↔
        Untied le offset limit l := by
  classical
  have : Std.Refl le := refl_total
  have hperm := List.perm_insertionSort le l
  have hsorted := List.pairwise_insertionSort le l
  constructor
  · intro hsame a ha
    dsimp only
    obtain ⟨hfirst, hlast⟩ := place_perm le hperm a
    by_contra htied
    push Not at htied
    -- The first place of the page that belongs to an element tied with `a`.
    obtain ⟨i, hi⟩ : ∃ i, i = max offset (l.countP fun b => ¬le a b) := ⟨_, rfl⟩
    have hlen : (l.countP fun b => le b a) ≤ (l.insertionSort le).length := by
      rw [hperm.length_eq]
      exact List.countP_le_length
    obtain ⟨c, hc⟩ : ∃ c, (l.insertionSort le)[i]? = some c :=
      ⟨_, List.getElem?_eq_getElem (by omega)⟩
    have hac := tied_of_place hsorted hc (a := a) (by omega) (by omega)
    obtain ⟨j, hj⟩ : ∃ j, (l.countP fun b => ¬le a b) ≤ j ∧ (j < l.countP fun b => le b a) ∧
        j ≠ i := by
      by_cases hleft : i = l.countP fun b => ¬le a b
      · exact ⟨i + 1, by omega⟩
      · exact ⟨i - 1, by omega⟩
    obtain ⟨d, hd⟩ : ∃ d, (l.insertionSort le)[j]? = some d :=
      ⟨_, List.getElem?_eq_getElem (by omega)⟩
    have had := tied_of_place hsorted hd (a := a) (by omega) (by omega)
    have hnd' := hperm.nodup_iff.mpr hnd
    have hne : d ≠ c := by
      rintro rfl
      obtain ⟨hi', hci⟩ := List.getElem?_eq_some_iff.mp hc
      obtain ⟨hj₁, hdj⟩ := List.getElem?_eq_some_iff.mp hd
      exact hj.2.2 ((hnd'.getElem_inj_iff).mp (hdj.trans hci.symm))
    -- Exchanging the two leaves the list sorted and shows another element there.
    have htied : le c d ∧ le d c := ⟨trans_of le hac.2 had.1, trans_of le had.2 hac.1⟩
    have hscan := map_swap_perm hnd' (List.mem_of_getElem? hc) (List.mem_of_getElem? hd)
    have hswapped := pairwise_map_swap hsorted htied
    have hpage := congrArg (·[i - offset]?) (hsame _ (hscan.trans hperm))
    simp only [hswapped.insertionSort_eq, get_page] at hpage
    rw [if_pos (by omega), if_pos (by omega), Nat.add_sub_cancel' (by omega), List.getElem?_map,
      hc, Option.map_some] at hpage
    exact hne (by simpa using hpage)
  · intro huntied scan hscan
    have hperm' := (List.perm_insertionSort le scan).trans hscan
    refine (page_eq_of_untied hsorted (List.pairwise_insertionSort le scan)
      (hperm.trans hperm'.symm) ?_).symm
    intro b hb
    obtain ⟨hfirst, hlast⟩ := place_perm le hperm b
    dsimp only
    rw [hfirst, hlast]
    exact huntied b (hperm.mem_iff.mp hb)

theorem page_choose_iff {offset limit : Nat} {keep : α → Bool} {rows : List α} (hnd : rows.Nodup)
    (hlimit : 0 < limit) :
    (∀ scan : List α, scan.Perm rows → page offset limit ((scan.filter keep).insertionSort le) =
      page offset limit ((rows.filter keep).insertionSort le)) ↔
        Untied le offset limit (rows.filter keep) := by
  rw [← page_sort_iff (hnd.filter keep) hlimit]
  constructor
  · intro hsame chosen hchosen
    have hscan := (hchosen.append_right _).trans (List.filter_append_perm keep rows)
    have hpage := hsame _ hscan
    have hkept : chosen.filter keep = chosen :=
      List.filter_eq_self.mpr fun a ha => (List.mem_filter.mp (hchosen.mem_iff.mp ha)).2
    have hnone : (rows.filter fun a => !keep a).filter keep = [] :=
      List.filter_eq_nil_iff.mpr fun a ha => by simpa using (List.mem_filter.mp ha).2
    rwa [List.filter_append, hkept, hnone, List.append_nil] at hpage
  · exact fun hsame scan hscan => hsame _ (hscan.filter keep)

omit [IsTrans α le] in
theorem untied_of_strict [DecidableEq α] (hnd : l.Nodup)
    (hstrict : ∀ a ∈ l, ∀ b ∈ l, le a b → le b a → b = a) (offset limit : Nat) :
    Untied le offset limit l := by
  intro a ha
  have hone : (l.countP fun b => b = a) ≤ 1 := by
    simpa [List.count, BEq.beq] using List.nodup_iff_count_le_one.mp hnd a
  have hsplit : (l.countP fun b => le b a) ≤ l.countP fun b => ¬le a b ∨ b = a :=
    List.countP_mono_left fun b hb hba => by
      by_cases hab : le a b
      · simp [hstrict a ha b hb hab (of_decide_eq_true hba)]
      · simp [hab]
  have hapart : ∀ b, ¬le a b → ¬b = a := by
    rintro b hab rfl
    exact hab (by simpa using total_of le b b)
  rw [countP_or hapart] at hsplit
  left
  omega

end Pages

section Greatest
variable {key : α → Int} {l : List α} {a : α}

def maxByKey (key : α → Int) : List α → Option α
  | [] => none
  | a :: l => some (l.foldl (fun best b => if key b < key best then best else b) a)

theorem maxByKey_spec {S : α → α → Prop} (hS : l.Pairwise S) (h : maxByKey key l = some a) :
    a ∈ l ∧ ∀ b ∈ l, b ≠ a → key b < key a ∨ (key b = key a ∧ S b a) := by
  cases l with
  | nil => simp [maxByKey] at h
  | cons x l =>
    simp only [maxByKey, Option.some.injEq] at h
    induction l generalizing x with
    | nil =>
      subst h
      exact ⟨by simp, by simp⟩
    | cons y l ih =>
      obtain ⟨hx, hrest⟩ := List.pairwise_cons.mp hS
      obtain ⟨hy, htail⟩ := List.pairwise_cons.mp hrest
      rw [List.foldl_cons] at h
      by_cases hlt : key y < key x
      · rw [if_pos hlt] at h
        have hxl : (x :: l).Pairwise S :=
          List.pairwise_cons.mpr ⟨fun b hb => hx b (List.mem_cons_of_mem y hb), htail⟩
        obtain ⟨ha, hbest⟩ := ih x hxl h
        have hkey : key x ≤ key a := by
          by_cases hxa : x = a
          · rw [hxa]
          · rcases hbest x (by simp) hxa with hk | ⟨hk, -⟩ <;> omega
        refine ⟨by grind, fun b hb hne => ?_⟩
        by_cases hby : b = y
        · exact .inl (by rw [hby]; omega)
        · exact hbest b (by grind) hne
      · rw [if_neg hlt] at h
        obtain ⟨ha, hbest⟩ := ih y hrest h
        have hkey : key y ≤ key a := by
          by_cases hya : y = a
          · rw [hya]
          · rcases hbest y (by simp) hya with hk | ⟨hk, -⟩ <;> omega
        refine ⟨List.mem_cons_of_mem x ha, fun b hb hne => ?_⟩
        rcases List.mem_cons.mp hb with rfl | hb
        · rcases lt_or_eq_of_le ((not_lt.mp hlt).trans hkey) with hk | hk
          · exact .inl hk
          · exact .inr ⟨hk, hx a ha⟩
        · exact hbest b hb hne

end Greatest

end Ranking
