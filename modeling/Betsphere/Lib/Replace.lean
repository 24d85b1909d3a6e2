import Mathlib.Data.List.Infix
import Mathlib.Tactic
set_option autoImplicit false

namespace Replace
variable {α : Type} [DecidableEq α]

/-- `skip` elements belong to an occurrence that is already replaced. -/
def fillFrom (values : List (List α × List α)) : (skip : Nat) → List α → List α
  | _, [] => []
  | skip + 1, _ :: s => fillFrom values skip s
  | 0, a :: s =>
    match values.find? fun v => v.1 <+: a :: s with
    | some v => v.2 ++ fillFrom values (v.1.length - 1) s
    | none => a :: fillFrom values 0 s

/-- All the patterns at once: nothing that was put in is looked at again. -/
def fill (values : List (List α × List α)) (s : List α) : List α := fillFrom values 0 s

def replace (pat new s : List α) : List α := fill [(pat, new)] s

section Fill
variable {values : List (List α × List α)} {v : List α × List α} {s t : List α} {a : α}

theorem fillFrom_eq_drop (values : List (List α × List α)) (n : Nat) (s : List α) :
    fillFrom values n s = fill values (s.drop n) := by
  induction n generalizing s with
  | zero => rfl
  | succ n ih =>
    cases s with
    | nil => rfl
    | cons a s => exact ih s

@[simp] theorem fill_nil (values : List (List α × List α)) : fill values [] = [] := rfl

theorem fill_cons (h : ∀ v ∈ values, ¬v.1 <+: a :: s) :
    fill values (a :: s) = a :: fill values s := by
  have hnone : (values.find? fun v => v.1 <+: a :: s) = none :=
    List.find?_eq_none.mpr fun v hv => by simpa using h v hv
  rw [fill, fillFrom, hnone]
  rfl

theorem fill_pattern (hne : v.1 ≠ [])
    (hfirst : (values.find? fun w => w.1 <+: v.1 ++ s) = some v) :
    fill values (v.1 ++ s) = v.2 ++ fill values s := by
  cases hpat : v.1 with
  | nil => exact absurd hpat hne
  | cons a pat =>
    rw [hpat, List.cons_append] at hfirst
    rw [List.cons_append, fill, fillFrom, hfirst]
    dsimp only
    rw [fillFrom_eq_drop, hpat, List.length_cons, Nat.add_sub_cancel, List.drop_left]

theorem fill_append (h : ∀ a ∈ s, ∀ v ∈ values, v.1.head? ≠ some a)
    (hne : ∀ v ∈ values, v.1 ≠ []) : fill values (s ++ t) = s ++ fill values t := by
  induction s with
  | nil => rfl
  | cons a s ih =>
    rw [List.cons_append, fill_cons, ih fun b hb => h b (List.mem_cons_of_mem a hb)]
    · rfl
    · intro v hv hin
      refine h a List.mem_cons_self v hv ?_
      obtain ⟨rest, hrest⟩ := hin
      have hhead := congrArg List.head? hrest
      rwa [List.head?_append_of_ne_nil _ (hne v hv)] at hhead

end Fill

section Seam
variable {α : Type} {pat s t : List α} {op cl : α}

def Apart (pat s t : List α) : Prop :=
  ∀ front back, front ≠ [] → back ≠ [] → pat = front ++ back → front <:+ s → ¬back <+: t

theorem Apart.suffix {u : List α} (h : Apart pat s t) (hu : u <:+ s) : Apart pat u t :=
  fun front back hf hb hpat hin => h front back hf hb hpat (hin.trans hu)

/-- A pattern between an opening and a closing mark that holds neither within. -/
def Slot (op cl : α) (pat : List α) : Prop :=
  ∃ inner, pat = op :: inner ++ [cl] ∧ op ∉ inner ∧ cl ∉ inner ∧ op ≠ cl

/-- No opening mark waits for a closing one behind the list. -/
def Closed (op cl : α) (s : List α) : Prop := ∀ u, u <:+ s → op ∈ u → cl ∈ u

/-- No closing mark waits for an opening one in front of the list. -/
def Opens (op cl : α) (s : List α) : Prop := ∀ u, u <+: s → cl ∈ u → op ∈ u

theorem Slot.ne_nil (h : Slot op cl pat) : pat ≠ [] := by
  obtain ⟨inner, rfl, -⟩ := h
  exact List.append_ne_nil_of_right_ne_nil _ (List.cons_ne_nil cl [])

theorem Slot.halves {front back : List α} (h : Slot op cl (front ++ back))
    (hf : front ≠ []) (hb : back ≠ []) :
    (op ∈ front ∧ cl ∉ front) ∧ cl ∈ back ∧ op ∉ back := by
  obtain ⟨inner, heq, hop, hcl, hne⟩ := h
  obtain ⟨a, front, rfl⟩ := List.exists_cons_of_ne_nil hf
  obtain ⟨back, b, rfl⟩ := (List.eq_nil_or_concat' back).resolve_left hb
  rw [List.cons_append, List.cons_append, List.cons.injEq, ← List.append_assoc,
    List.append_singleton_inj] at heq
  obtain ⟨rfl, rfl, rfl⟩ := heq
  simp only [List.mem_append, not_or] at hop hcl
  refine ⟨⟨List.mem_cons_self, ?_⟩, by simp, ?_⟩
  · simp [hne.symm, hcl.1]
  · simp [hne, hop.2]

/-- What leaves no mark open on the left keeps an occurrence from reaching over the seam. -/
theorem Slot.apart_of_closed (hpat : Slot op cl pat) (hs : Closed op cl s) :
    Apart pat s t := by
  rintro front back hf hb rfl hin -
  have hhalf := (hpat.halves hf hb).1
  exact hhalf.2 (hs front hin hhalf.1)

theorem Slot.apart_of_opens (hpat : Slot op cl pat) (ht : Opens op cl t) :
    Apart pat s t := by
  rintro front back hf hb rfl - hin
  have hhalf := (hpat.halves hf hb).2
  exact hhalf.2 (ht back hin hhalf.1)

theorem closed_of_not_mem (h : op ∉ s) : Closed op cl s :=
  fun _ hu hop => absurd (hu.subset hop) h

theorem opens_of_not_mem (h : cl ∉ s) : Opens op cl s :=
  fun _ hu hcl => absurd (hu.subset hcl) h

theorem Opens.append (hs : Opens op cl s) (ht : Opens op cl t) :
    Opens op cl (s ++ t) := by
  intro u hu hcl
  rcases List.prefix_or_prefix_of_prefix hu (List.prefix_append s t) with hin | ⟨back, rfl⟩
  · exact hs u hin hcl
  · rw [List.prefix_append_right_inj] at hu
    rcases List.mem_append.mp hcl with h | h
    · exact List.mem_append_left back (hs s (List.prefix_refl s) h)
    · exact List.mem_append_right s (ht back hu h)

theorem Slot.closed (h : Slot op cl pat) : Closed op cl pat := by
  rintro u ⟨front, rfl⟩ hop
  have hu : u ≠ [] := List.ne_nil_of_mem hop
  cases front with
  | nil =>
    obtain ⟨inner, heq, -⟩ := h
    rw [List.nil_append] at heq
    simp [heq]
  | cons a front => exact absurd hop (h.halves (List.cons_ne_nil a front) hu).2.2

theorem Slot.opens (h : Slot op cl pat) : Opens op cl pat := by
  rintro u ⟨back, rfl⟩ hcl
  have hu : u ≠ [] := List.ne_nil_of_mem hcl
  cases back with
  | nil =>
    obtain ⟨inner, heq, -⟩ := h
    rw [List.append_nil] at heq
    simp [heq]
  | cons a back => exact absurd hcl (h.halves hu (List.cons_ne_nil a back)).1.2

theorem Slot.eq_of_prefix {other : List α} (h : Slot op cl pat) (hother : Slot op cl other)
    (hin : pat <+: other ++ s) : pat = other := by
  rcases List.prefix_or_prefix_of_prefix hin (List.prefix_append other s) with hp | hp
  · obtain ⟨back, rfl⟩ := hp
    by_cases hback : back = []
    · rw [hback, List.append_nil]
    · exact absurd (h.closed pat (List.suffix_refl pat) (hother.halves h.ne_nil hback).1.1)
        (hother.halves h.ne_nil hback).1.2
  · obtain ⟨back, rfl⟩ := hp
    by_cases hback : back = []
    · rw [hback, List.append_nil]
    · exact absurd (hother.closed other (List.suffix_refl other) (h.halves hother.ne_nil hback).1.1)
        (h.halves hother.ne_nil hback).1.2

end Seam

section Replaced
variable {pat new s t : List α} {a : α}

theorem replace_cons (h : ¬pat <+: a :: s) : replace pat new (a :: s) = a :: replace pat new s :=
  fill_cons fun v hv => by rwa [List.mem_singleton.mp hv]

theorem replace_pattern (hpat : pat ≠ []) : replace pat new (pat ++ s) = new ++ replace pat new s :=
  fill_pattern (v := (pat, new)) hpat
    (List.find?_cons_of_pos (decide_eq_true (List.prefix_append pat s)))

theorem replace_whole (hpat : pat ≠ []) : replace pat new pat = new := by
  have hwhole : replace pat new (pat ++ []) = new ++ [] := replace_pattern hpat
  rwa [List.append_nil, List.append_nil] at hwhole

theorem replace_append (hpat : pat ≠ []) (h : Apart pat s t) :
    replace pat new (s ++ t) = replace pat new s ++ replace pat new t := by
  induction hn : s.length using Nat.strong_induction_on generalizing s with
  | _ n ih =>
    cases s with
    | nil => rfl
    | cons a s =>
      by_cases hin : pat <+: a :: s
      · obtain ⟨rest, hrest⟩ := hin
        have hsuffix : rest <:+ a :: s := ⟨pat, hrest⟩
        have hless : rest.length < n := by
          have hlen := congrArg List.length hrest
          have hpos := List.length_pos_iff.mpr hpat
          rw [List.length_append] at hlen
          omega
        rw [← hrest, List.append_assoc, replace_pattern hpat, replace_pattern hpat,
          ih rest.length hless (h.suffix hsuffix) rfl, List.append_assoc]
      · have hover : ¬pat <+: a :: (s ++ t) := by
          intro hover
          rcases List.prefix_or_prefix_of_prefix hover (List.prefix_append (a :: s) t) with hp | hp
          · exact hin hp
          · obtain ⟨back, rfl⟩ := hp
            rw [← List.cons_append, List.prefix_append_right_inj] at hover
            cases back with
            | nil => exact hin (by simp)
            | cons b back =>
              exact h (a :: s) (b :: back) (by simp) (by simp) rfl (List.suffix_refl _) hover
        rw [List.cons_append, replace_cons hover, replace_cons hin,
          ih s.length (by rw [← hn]; simp) (h.suffix (List.suffix_cons a s)) rfl,
          List.cons_append]

theorem replace_of_absent (h : ¬pat <:+: s) : replace pat new s = s := by
  induction s with
  | nil => rfl
  | cons a s ih =>
    rw [replace_cons fun hin => h hin.isInfix, ih fun hin => h (List.infix_cons hin)]

theorem replace_self (hpat : pat ≠ []) (s : List α) : replace pat pat s = s := by
  induction hn : s.length using Nat.strong_induction_on generalizing s with
  | _ n ih =>
    cases s with
    | nil => rfl
    | cons a s =>
      by_cases hin : pat <+: a :: s
      · obtain ⟨rest, hrest⟩ := hin
        have hless : rest.length < n := by
          have hlen := congrArg List.length hrest
          have hpos := List.length_pos_iff.mpr hpat
          rw [List.length_append] at hlen
          omega
        rw [← hrest, replace_pattern hpat, ih rest.length hless rest rfl]
      · rw [replace_cons hin, ih s.length (by rw [← hn]; simp) s rfl]

theorem replace_infix (new : List α) (hpat : pat ≠ []) (h : pat <:+: s) : ∃ front rest,
    s = front ++ pat ++ rest ∧ replace pat new s = front ++ new ++ replace pat new rest := by
  induction s with
  | nil => exact absurd (List.infix_nil.mp h) hpat
  | cons a s ih =>
    by_cases hin : pat <+: a :: s
    · obtain ⟨rest, hrest⟩ := hin
      exact ⟨[], rest, hrest.symm, by rw [← hrest, replace_pattern hpat, List.nil_append]⟩
    · obtain ⟨front, rest, hs, hreplace⟩ := ih ((List.infix_cons_iff.mp h).resolve_left hin)
      exact ⟨a :: front, rest, by rw [hs]; rfl, by rw [replace_cons hin, hreplace]; rfl⟩

theorem replace_sum (new : List α) (hpat : pat ≠ []) (f : α → Nat) (s : List α) :
    ∃ k, ((replace pat new s).map f).sum + k * (pat.map f).sum =
      (s.map f).sum + k * (new.map f).sum := by
  induction hn : s.length using Nat.strong_induction_on generalizing s with
  | _ n ih =>
    cases s with
    | nil => exact ⟨0, by simp [replace]⟩
    | cons a s =>
      by_cases hin : pat <+: a :: s
      · obtain ⟨rest, hrest⟩ := hin
        have hless : rest.length < n := by
          have hlen := congrArg List.length hrest
          have hpos := List.length_pos_iff.mpr hpat
          rw [List.length_append] at hlen
          omega
        obtain ⟨k, hk⟩ := ih rest.length hless rest rfl
        refine ⟨k + 1, ?_⟩
        rw [← hrest, replace_pattern hpat]
        simp only [List.map_append, List.sum_append, Nat.add_mul, Nat.one_mul]
        omega
      · obtain ⟨k, hk⟩ := ih s.length (by rw [← hn]; simp) s rfl
        refine ⟨k, ?_⟩
        rw [replace_cons hin]
        simp only [List.map_cons, List.sum_cons]
        omega

theorem replace_eq_self_iff (hpat : pat ≠ []) :
    replace pat new s = s ↔ ¬pat <:+: s ∨ new = pat := by
  constructor
  · intro heq
    refine or_iff_not_imp_left.mpr fun hin => ?_
    obtain ⟨front, rest, hs, hreplace⟩ := replace_infix new hpat (not_not.mp hin)
    obtain ⟨k, hk⟩ := replace_sum new hpat (fun _ => 1) rest
    have htail : new ++ replace pat new rest = pat ++ rest := by
      rw [heq] at hreplace
      have hboth := hreplace.symm.trans hs
      rwa [List.append_assoc, List.append_assoc, List.append_cancel_left_eq] at hboth
    have hlen := congrArg List.length htail
    have hsame : new.length = pat.length := by
      simp only [List.map_const', List.sum_replicate, smul_eq_mul, Nat.mul_one] at hk
      simp only [List.length_append] at hlen
      have hmul : (k + 1) * new.length = (k + 1) * pat.length := by
        rw [Nat.add_mul, Nat.add_mul, Nat.one_mul, Nat.one_mul]
        omega
      exact Nat.eq_of_mul_eq_mul_left (by omega) hmul
    exact (List.append_inj htail hsame).1
  · rintro (hno | rfl)
    · exact replace_of_absent hno
    · exact replace_self hpat s

end Replaced

end Replace
