import Mathlib.Data.List.Nodup
import Mathlib.Tactic
set_option autoImplicit false

namespace FirstMatch
variable {α κ : Type} [DecidableEq κ] (key : α → κ)

def update (k : κ) (f : α → α) : List α → List α
  | [] => []
  | a :: l => if key a = k then f a :: l else a :: update k f l

/-- Each item takes the place of the first element with its key. -/
def overwrite (items : List α) (l : List α) : List α :=
  items.foldl (fun l item => update key (key item) (fun _ => item) l) l

variable {key} {k : κ} {f : α → α} {l : List α}

theorem update_eq_map (hnd : (l.map key).Nodup) (k : κ) (f : α → α) :
    update key k f l = l.map fun a => if key a = k then f a else a := by
  induction l with
  | nil => rfl
  | cons a l ih =>
    rw [List.map_cons, List.nodup_cons] at hnd
    by_cases ha : key a = k
    · subst ha
      have hrest : l.map (fun b => if key b = key a then f b else b) = l := by
        conv_rhs => rw [← List.map_id l]
        refine List.map_congr_left fun b hb => ?_
        have hne : key b ≠ key a := fun h => hnd.1 (List.mem_map.mpr ⟨b, hb, h⟩)
        simp [hne]
      simp [update, hrest]
    · simp [update, ha, ih hnd.2]

theorem map_update {β : Type} {g : α → β} (hg : ∀ a ∈ l, key a = k → g (f a) = g a) :
    (update key k f l).map g = l.map g := by
  induction l with
  | nil => rfl
  | cons a l ih =>
    by_cases ha : key a = k
    · simp [update, ha, hg a (by simp) ha]
    · simp [update, ha, ih fun b hb => hg b (by simp [hb])]

theorem find?_replaced {x : α} (hx : key x = k) (k' : κ) :
    (update key k (fun _ => x) l).find? (fun a => key a = k') =
      (l.find? fun a => key a = k').map fun a => if k' = k then x else a := by
  induction l with
  | nil => rfl
  | cons a l ih =>
    by_cases ha : key a = k
    · by_cases hk : k' = k
      · simp [update, ha, hx, hk]
      · have hne : ¬k = k' := fun h => hk h.symm
        simp [update, ha, hx, hk, hne]
    · by_cases hk : key a = k'
      · have hne : ¬k' = k := fun h => ha (hk.trans h)
        simp [update, hk, hne]
      · simp [update, ha, hk, ih]

theorem overwrite_cons (item : α) (items l : List α) :
    overwrite key (item :: items) l =
      overwrite key items (update key (key item) (fun _ => item) l) := rfl

theorem map_key_overwrite (items l : List α) : (overwrite key items l).map key = l.map key := by
  induction items generalizing l with
  | nil => rfl
  | cons item items ih =>
    rw [overwrite_cons, ih]
    exact map_update fun a _ ha => ha.symm

theorem map_pairs_overwrite {β : Type} {g : α → β} {items : List α}
    (hg : ∀ item ∈ items, ∀ a ∈ l, key item = key a → g item = g a) :
    (overwrite key items l).map (fun a => (key a, g a)) = l.map fun a => (key a, g a) := by
  induction items generalizing l with
  | nil => rfl
  | cons item items ih =>
    have hfirst : (update key (key item) (fun _ => item) l).map (fun a => (key a, g a)) =
        l.map fun a => (key a, g a) := by
      refine map_update fun a ha hk => ?_
      rw [hk, hg item List.mem_cons_self a ha hk.symm]
    rw [overwrite_cons, ih, hfirst]
    intro other hother a ha hk
    have hpair : (key a, g a) ∈ l.map fun a => (key a, g a) := by
      rw [← hfirst]
      exact List.mem_map_of_mem (f := fun a => (key a, g a)) ha
    obtain ⟨b, hb, heq⟩ := List.mem_map.mp hpair
    rw [Prod.mk.injEq] at heq
    rw [hg other (List.mem_cons_of_mem item hother) b hb (hk.trans heq.1.symm), heq.2]

theorem find?_pairs {β : Type} {g : α → β} {l' : List α}
    (h : l.map (fun a => (key a, g a)) = l'.map fun a => (key a, g a)) (k : κ) :
    (l.find? fun a => key a = k).map g = (l'.find? fun a => key a = k).map g := by
  have hpairs : ∀ l : List α, (l.find? fun a => key a = k).map g =
      ((l.map fun a => (key a, g a)).find? fun x => x.1 = k).map Prod.snd := by
    intro l
    rw [List.find?_map, Option.map_map]
    rfl
  rw [hpairs l, hpairs l', h]

theorem overwrite_eq_map {items : List α} (hitems : (items.map key).Nodup)
    (hnd : (l.map key).Nodup) :
    overwrite key items l = l.map fun a => (items.find? fun item => key item = key a).getD a := by
  induction items generalizing l with
  | nil => simp [overwrite]
  | cons item items ih =>
    rw [List.map_cons, List.nodup_cons] at hitems
    have hnd' : ((update key (key item) (fun _ => item) l).map key).Nodup := by
      rw [map_update fun a _ ha => ha.symm]
      exact hnd
    rw [overwrite_cons, ih hitems.2 hnd', update_eq_map hnd, List.map_map]
    refine List.map_congr_left fun a _ => ?_
    by_cases ha : key a = key item
    · have hnone : (items.find? fun x => key x = key item) = none := by
        rw [List.find?_eq_none]
        intro x hx hk
        exact hitems.1 (List.mem_map.mpr ⟨x, hx, by simpa using hk⟩)
      simp [ha, hnone]
    · have hne : ¬key item = key a := fun h => ha h.symm
      simp [ha, hne]

end FirstMatch
