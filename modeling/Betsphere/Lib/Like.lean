import Mathlib.Data.List.Infix
import Mathlib.Tactic
set_option autoImplicit false

namespace Like

inductive Token where
  | any
  | one
  | lit (c : Char)
  deriving DecidableEq

def matching : List Token → List Char → Bool
  | [], s => s.isEmpty
  | .any :: ts, s => s.tails.any (matching ts)
  | .one :: _, [] => false
  | .one :: ts, _ :: s => matching ts s
  | .lit _ :: _, [] => false
  | .lit c :: ts, d :: s => c = d && matching ts s

def single (c : Char) : Token :=
  if c = '%' then .any else if c = '_' then .one else .lit c

/-- A backslash at the very end escapes nothing and stands for itself. -/
def parse : List Char → List Token
  | [] => []
  | [c] => [single c]
  | c :: d :: p => if c = '\\' then .lit d :: parse p else single c :: parse (d :: p)

def like (pattern s : List Char) : Bool := matching (parse pattern) s

def special (c : Char) : Bool := c = '%' || c = '_' || c = '\\'

def Literal (s : List Char) : Prop := ∀ c ∈ s, special c = false

instance (s : List Char) : Decidable (Literal s) :=
  inferInstanceAs (Decidable (∀ c ∈ s, _))

section Matching
variable {ts us : List Token} {s a b : List Char}

theorem matching_any : matching (.any :: ts) s = true ↔ ∃ a b, a ++ b = s ∧ matching ts b = true := by
  simp only [matching, List.any_eq_true, List.mem_tails]
  constructor
  · rintro ⟨b, ⟨a, hab⟩, h⟩
    exact ⟨a, b, hab, h⟩
  · rintro ⟨a, b, hab, h⟩
    exact ⟨b, ⟨a, hab⟩, h⟩

theorem matching_only_any (s : List Char) : matching [.any] s = true :=
  matching_any.mpr ⟨s, [], by simp, rfl⟩

theorem matching_lit (w : List Char) :
    matching (w.map .lit ++ ts) s = true ↔ ∃ b, s = w ++ b ∧ matching ts b = true := by
  induction w generalizing s with
  | nil => simp
  | cons c w ih =>
    cases s with
    | nil => simp [matching]
    | cons d s =>
      simp only [List.map_cons, List.cons_append, matching, Bool.and_eq_true, decide_eq_true_eq,
        ih, List.cons.injEq]
      constructor
      · rintro ⟨rfl, b, rfl, hb⟩
        exact ⟨b, ⟨rfl, rfl⟩, hb⟩
      · rintro ⟨b, ⟨rfl, rfl⟩, hb⟩
        exact ⟨rfl, b, rfl, hb⟩

theorem matching_infix (w : List Char) :
    matching (.any :: (w.map .lit ++ [.any])) s = true ↔ w <:+: s := by
  rw [matching_any]
  constructor
  · rintro ⟨a, b, rfl, hb⟩
    obtain ⟨c, rfl, -⟩ := (matching_lit w).mp hb
    exact ⟨a, c, by simp⟩
  · rintro ⟨a, c, rfl⟩
    exact ⟨a, w ++ c, by simp, (matching_lit w).mpr ⟨c, rfl, matching_only_any c⟩⟩

end Matching

theorem single_lit {c : Char} (h : special c = false) : single c = .lit c := by
  simp only [special, Bool.or_eq_false_iff, decide_eq_false_iff_not] at h
  simp [single, h.1.1, h.1.2]

theorem parse_literal {w : List Char} (h : Literal w) :
    parse (w ++ ['%']) = w.map .lit ++ [.any] := by
  induction w with
  | nil => rfl
  | cons c w ih =>
    have hc := h c List.mem_cons_self
    have hrest := ih fun d hd => h d (List.mem_cons_of_mem c hd)
    have hslash : c ≠ '\\' := by
      rintro rfl
      cases hc
    cases w with
    | nil =>
      change parse [c, '%'] = _
      rw [parse, if_neg hslash, single_lit hc]
      rfl
    | cons d w =>
      simp only [List.cons_append] at hrest ⊢
      rw [parse, if_neg hslash, single_lit hc, hrest]
      rfl

theorem parse_percent {p : List Char} (h : p ≠ []) : parse ('%' :: p) = .any :: parse p := by
  cases p with
  | nil => exact absurd rfl h
  | cons d p =>
    rw [parse, if_neg (by decide)]
    rfl

/-- The pattern `%w%`. -/
def around (w : List Char) : List Char := '%' :: (w ++ ['%'])

theorem parse_around (w : List Char) : parse (around w) = .any :: parse (w ++ ['%']) :=
  parse_percent (by simp)

theorem like_around_literal {w s : List Char} (h : Literal w) :
    like (around w) s = true ↔ w <:+: s := by
  rw [like, parse_around, parse_literal h, matching_infix]

end Like
