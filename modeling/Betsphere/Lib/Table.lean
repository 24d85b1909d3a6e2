import Mathlib.Algebra.BigOperators.Group.List.Basic
import Mathlib.Data.List.Nodup
import Mathlib.Tactic
set_option autoImplicit false

/-!
A table of rows with a primary key, in insertion order. The field `nodup` is the
primary-key constraint, so a table that breaks it cannot be built.
-/

structure Table {α κ : Type} (key : α → κ) where
  rows : List α
  nodup : (rows.map key).Nodup

namespace Table
variable {α κ : Type} {key : α → κ}

@[ext] theorem ext {t u : Table key} (h : t.rows = u.rows) : t = u := by
  cases t; cases u; cases h; rfl

def empty : Table key := ⟨[], List.nodup_nil⟩

@[simp] theorem rows_empty : (empty : Table key).rows = [] := rfl

theorem eq_of_key {t : Table key} {r r' : α} (h : r ∈ t.rows) (h' : r' ∈ t.rows)
    (hk : key r = key r') : r = r' := List.inj_on_of_nodup_map t.nodup h h' hk

theorem nodup_append {rows : List α} {a : α} (h : (rows.map key).Nodup)
    (ha : key a ∉ rows.map key) : ((rows ++ [a]).map key).Nodup := by
  rw [List.map_append, List.nodup_append]
  refine ⟨h, by simp, ?_⟩
  rintro x hx y hy rfl
  simp only [List.map_cons, List.map_nil, List.mem_singleton] at hy
  exact ha (hy ▸ hx)

/-- Changes every row in place; no key may change. -/
def mapRows (t : Table key) (f : α → α) (hf : ∀ r, key (f r) = key r) : Table key :=
  ⟨t.rows.map f, by
    have hk : key ∘ f = key := funext hf
    rw [List.map_map, hk]
    exact t.nodup⟩

@[simp] theorem rows_mapRows (t : Table key) (f : α → α) (hf : ∀ r, key (f r) = key r) :
    (t.mapRows f hf).rows = t.rows.map f := rfl

theorem mapRows_id (t : Table key) {f : α → α} (hf : ∀ r, key (f r) = key r)
    (h : ∀ r ∈ t.rows, f r = r) : t.mapRows f hf = t := by
  apply ext
  rw [rows_mapRows]
  conv_rhs => rw [← List.map_id t.rows]
  exact List.map_congr_left h

def filter (t : Table key) (p : α → Bool) : Table key :=
  ⟨t.rows.filter p, (List.filter_sublist.map key).nodup t.nodup⟩

@[simp] theorem rows_filter (t : Table key) (p : α → Bool) :
    (t.filter p).rows = t.rows.filter p := rfl

variable [DecidableEq κ]

def find? (t : Table key) (k : κ) : Option α := t.rows.find? fun r => key r = k

theorem nodup_replace {rows : List α} (a : α) (h : (rows.map key).Nodup) :
    ((rows.map fun r => if key r = key a then a else r).map key).Nodup := by
  have hk : (rows.map fun r => if key r = key a then a else r).map key = rows.map key := by
    rw [List.map_map]
    refine List.map_congr_left fun r _ => ?_
    by_cases hr : key r = key a <;> simp [hr]
  rw [hk]
  exact h

/-- Replaces the row that has the new row's key, or appends the new row. -/
def upsert (t : Table key) (a : α) : Table key :=
  if h : key a ∈ t.rows.map key then
    ⟨t.rows.map fun r => if key r = key a then a else r, nodup_replace a t.nodup⟩
  else ⟨t.rows ++ [a], nodup_append t.nodup h⟩

theorem find?_eq_some {t : Table key} {k : κ} {r : α} :
    t.find? k = some r ↔ r ∈ t.rows ∧ key r = k := by
  constructor
  · intro h
    exact ⟨List.mem_of_find?_eq_some h, by simpa using List.find?_some h⟩
  · rintro ⟨hmem, rfl⟩
    cases hf : t.find? (key r) with
    | none =>
      have := List.find?_eq_none.mp hf r hmem
      simp at this
    | some r' =>
      have hmem' := List.mem_of_find?_eq_some hf
      have hkey : key r' = key r := by simpa using List.find?_some hf
      rw [List.inj_on_of_nodup_map t.nodup hmem' hmem hkey]

theorem find?_eq_none {t : Table key} {k : κ} :
    t.find? k = none ↔ ∀ r ∈ t.rows, key r ≠ k := by
  simp [find?, List.find?_eq_none]

theorem find?_mem {t : Table key} {k : κ} {r : α} (h : t.find? k = some r) : r ∈ t.rows :=
  (find?_eq_some.mp h).1

theorem find?_key {t : Table key} {k : κ} {r : α} (h : t.find? k = some r) : key r = k :=
  (find?_eq_some.mp h).2

theorem find?_of_mem {t : Table key} {r : α} (h : r ∈ t.rows) : t.find? (key r) = some r :=
  find?_eq_some.mpr ⟨h, rfl⟩

theorem find?_filter (t : Table key) (p : α → Bool) (k : κ) :
    (t.filter p).find? k = (t.find? k).filter p := by
  cases hf : t.find? k with
  | none =>
    rw [Option.filter_none, find?_eq_none]
    intro r hr
    exact find?_eq_none.mp hf r (List.mem_of_mem_filter hr)
  | some r =>
    obtain ⟨hmem, hk⟩ := find?_eq_some.mp hf
    cases hp : p r with
    | true =>
      rw [Option.filter_some_pos hp, find?_eq_some, rows_filter, List.mem_filter]
      exact ⟨⟨hmem, hp⟩, hk⟩
    | false =>
      rw [Option.filter_some_neg (by simp [hp]), find?_eq_none]
      intro x hx hxk
      obtain ⟨hx, hpx⟩ := List.mem_filter.mp hx
      obtain rfl : x = r := eq_of_key hx hmem (hxk.trans hk.symm)
      simp [hp] at hpx

theorem mem_keys_iff {t : Table key} {k : κ} : k ∈ t.rows.map key ↔ ∃ r, t.find? k = some r := by
  constructor
  · intro h
    obtain ⟨r, hr, rfl⟩ := List.mem_map.mp h
    exact ⟨r, find?_of_mem hr⟩
  · rintro ⟨r, hr⟩
    exact List.mem_map.mpr ⟨r, find?_mem hr, find?_key hr⟩

theorem filter_key {rows : List α} (hnd : (rows.map key).Nodup) (k : κ) :
    (rows.filter fun r => key r = k) = (rows.find? fun r => key r = k).toList := by
  induction rows with
  | nil => rfl
  | cons r rows ih =>
    rw [List.map_cons, List.nodup_cons] at hnd
    by_cases hr : key r = k
    · have hnone : (rows.filter fun x => key x = k) = [] := by
        rw [List.filter_eq_nil_iff]
        intro x hx hxk
        exact hnd.1 (List.mem_map.mpr ⟨x, hx, by simpa [hr] using hxk⟩)
      simp [hr, hnone]
    · simp [hr, ih hnd.2]

theorem rows_upsert_found {t : Table key} {a r : α} (h : t.find? (key a) = some r) :
    (t.upsert a).rows = t.rows.map fun x => if key x = key a then a else x := by
  have hk : key a ∈ t.rows.map key := mem_keys_iff.mpr ⟨r, h⟩
  simp only [upsert, hk, dite_true]

theorem rows_upsert_fresh {t : Table key} {a : α} (h : t.find? (key a) = none) :
    (t.upsert a).rows = t.rows ++ [a] := by
  have hk : key a ∉ t.rows.map key := fun hk => by
    obtain ⟨r, hr⟩ := mem_keys_iff.mp hk
    simp [h] at hr
  simp only [upsert, hk, dite_false]

theorem find?_upsert (t : Table key) (a : α) (k : κ) :
    (t.upsert a).find? k = if key a = k then some a else t.find? k := by
  cases hf : t.find? (key a) with
  | none =>
    rw [find?, rows_upsert_fresh hf, List.find?_append]
    by_cases hk : key a = k
    · subst hk
      have hnone : t.rows.find? (fun r => decide (key r = key a)) = none := hf
      simp [hnone]
    · simp [hk, find?]
  | some r =>
    by_cases hk : key a = k
    · subst hk
      rw [if_pos rfl, find?_eq_some, rows_upsert_found hf]
      refine ⟨List.mem_map.mpr ⟨r, find?_mem hf, ?_⟩, rfl⟩
      simp [find?_key hf]
    · rw [if_neg hk, find?, rows_upsert_found hf, List.find?_map, find?]
      cases ho : t.rows.find? fun r => decide (key r = k) with
      | none =>
        have hc : t.rows.find? ((fun r => decide (key r = k)) ∘
            fun x => if key x = key a then a else x) = none := by
          rw [List.find?_eq_none] at ho ⊢
          intro x hx
          have hxk := ho x hx
          by_cases hxa : key x = key a
          · simpa [hxa] using hk
          · simpa [hxa] using hxk
        rw [hc]; rfl
      | some o =>
        have hofind : t.find? k = some o := ho
        have hok := find?_key hofind
        have hc : t.rows.find? ((fun r => decide (key r = k)) ∘
            fun x => if key x = key a then a else x) = some o := by
          rw [← ho]
          congr 1
          funext x
          by_cases hxa : key x = key a
          · simp [hxa]
          · simp [hxa]
        rw [hc]
        have hne : key o ≠ key a := by rw [hok]; exact fun h => hk h.symm
        simp [hne]

theorem find?_upsert_ne (t : Table key) {a : α} {k : κ} (h : key a ≠ k) :
    (t.upsert a).find? k = t.find? k := by simp [find?_upsert, h]

theorem mem_upsert {t : Table key} {a x : α} :
    x ∈ (t.upsert a).rows ↔ x = a ∨ (x ∈ t.rows ∧ key x ≠ key a) := by
  have hx : x ∈ (t.upsert a).rows ↔ (t.upsert a).find? (key x) = some x :=
    ⟨find?_of_mem, find?_mem⟩
  rw [hx, find?_upsert]
  by_cases hk : key a = key x
  · simp only [hk, if_true, Option.some.injEq, ne_eq, not_true_eq_false, and_false, or_false]
    exact eq_comm
  · rw [if_neg hk]
    constructor
    · intro h
      exact .inr ⟨find?_mem h, fun h' => hk h'.symm⟩
    · rintro (rfl | ⟨hmem, -⟩)
      · exact absurd rfl hk
      · exact find?_of_mem hmem

theorem rows_foldl_upsert {t : Table key} {as : List α} (hfresh : ∀ a ∈ as, t.find? (key a) = none)
    (hnd : (as.map key).Nodup) : (as.foldl upsert t).rows = t.rows ++ as := by
  induction as generalizing t with
  | nil => simp
  | cons a as ih =>
    rw [List.map_cons, List.nodup_cons] at hnd
    have hrest : ∀ x ∈ as, (t.upsert a).find? (key x) = none := by
      intro x hx
      have hne : key a ≠ key x := fun h => hnd.1 (List.mem_map.mpr ⟨x, hx, h.symm⟩)
      rw [find?_upsert_ne t hne]
      exact hfresh x (by simp [hx])
    rw [List.foldl_cons, ih hrest hnd.2, rows_upsert_fresh (hfresh a (by simp))]
    simp

def modify (t : Table key) (k : κ) (f : α → α) (hf : ∀ r, key (f r) = key r) : Table key :=
  t.mapRows (fun r => if key r = k then f r else r) fun r => by
    by_cases hk : key r = k
    · simp [hk, hf]
    · simp [hk]

@[simp] theorem rows_modify (t : Table key) (k : κ) (f : α → α) (hf : ∀ r, key (f r) = key r) :
    (t.modify k f hf).rows = t.rows.map fun r => if key r = k then f r else r := rfl

theorem find?_mapRows (t : Table key) (f : α → α) (hf : ∀ r, key (f r) = key r) (k : κ) :
    (t.mapRows f hf).find? k = (t.find? k).map f := by
  have hcomp : (fun r => decide (key r = k)) ∘ f = fun r => decide (key r = k) := by
    funext r
    simp [hf]
  unfold find?
  rw [rows_mapRows, List.find?_map, hcomp]

theorem find?_modify (t : Table key) (k : κ) (f : α → α) (hf : ∀ r, key (f r) = key r) (k' : κ) :
    (t.modify k f hf).find? k' = if k = k' then (t.find? k').map f else t.find? k' := by
  rw [modify, find?_mapRows]
  cases hr : t.find? k' with
  | none => simp
  | some r =>
    have hk := find?_key hr
    by_cases h : k = k'
    · simp [hk, h]
    · simp [hk, h, Ne.symm h]

theorem find?_modify_ne (t : Table key) {k k' : κ} (f : α → α) (hf : ∀ r, key (f r) = key r)
    (h : k ≠ k') : (t.modify k f hf).find? k' = t.find? k' := by
  rw [find?_modify, if_neg h]

theorem modify_missing {t : Table key} {k : κ} (f : α → α) (hf : ∀ r, key (f r) = key r)
    (h : t.find? k = none) : t.modify k f hf = t := by
  refine mapRows_id t _ fun r hr => ?_
  rw [if_neg (find?_eq_none.mp h r hr)]

theorem upsert_modify {t : Table key} {k : κ} {r : α} (f : α → α) (hf : ∀ r, key (f r) = key r)
    (h : t.find? k = some r) : t.upsert (f r) = t.modify k f hf := by
  have hk : key (f r) = k := (hf r).trans (find?_key h)
  have hfind : t.find? (key (f r)) = some r := by rw [hk]; exact h
  apply ext
  rw [rows_upsert_found hfind, rows_modify]
  refine List.map_congr_left fun x hx => ?_
  rw [hk]
  by_cases hx' : key x = k
  · have hxr : x = r := eq_of_key hx (find?_mem h) (hx'.trans (find?_key h).symm)
    simp [hxr]
  · simp [hx']

theorem sum_indicator {rows : List α} (hnd : (rows.map key).Nodup) (k : κ) (c : Int) :
    (rows.map fun r => if key r = k then c else 0).sum = if k ∈ rows.map key then c else 0 := by
  induction rows with
  | nil => simp
  | cons r rows ih =>
    rw [List.map_cons, List.nodup_cons] at hnd
    rw [List.map_cons, List.sum_cons, ih hnd.2]
    by_cases hr : key r = k
    · subst hr
      simp [hnd.1]
    · simp [hr, Ne.symm hr]

/-- A sum over the rows that only counts the rows some item names, each for its item,
is the sum over the items. -/
theorem sum_matched {β : Type} {t : Table key} {items : List β} {key' : β → κ}
    (hnd : (items.map key').Nodup) (hsub : ∀ x ∈ items, key' x ∈ t.rows.map key) (g : β → Int) :
    (t.rows.map fun r => ((items.find? fun x => key' x = key r).map g).getD 0).sum =
      (items.map g).sum := by
  induction items with
  | nil => simp
  | cons x items ih =>
    rw [List.map_cons, List.nodup_cons] at hnd
    have hsplit : ∀ r, (((x :: items).find? fun y => key' y = key r).map g).getD 0 =
        (if key r = key' x then g x else 0) +
          ((items.find? fun y => key' y = key r).map g).getD 0 := by
      intro r
      by_cases hr : key' x = key r
      · have hnone : (items.find? fun y => key' y = key r) = none := by
          rw [List.find?_eq_none]
          intro y hy hyr
          exact hnd.1 (List.mem_map.mpr ⟨y, hy, by simpa [hr] using hyr⟩)
        simp [hr, hnone]
      · simp [hr, Ne.symm hr]
    have hmem : key' x ∈ t.rows.map key := hsub x (by simp)
    simp only [hsplit, List.sum_map_add, List.map_cons, List.sum_cons,
      ih hnd.2 fun y hy => hsub y (by simp [hy]), sum_indicator t.nodup, hmem, if_true]

end Table
