import Betsphere.Lib.MachineInt
set_option autoImplicit false

namespace Deferred
open MachineInt
variable {ι : Type} (due : ι → Int)

/-- What has been added and what is still owed make up the entries. -/
def Balanced (parties : List ι) (recorded entered : Int) : Prop :=
  recorded + (parties.map due).sum = entered

def Saturated (parties : List ι) (total entered : Int) : Prop :=
  ∃ recorded, 0 ≤ recorded ∧ total = saturate64 recorded ∧ Balanced due parties recorded entered

variable {parties : List ι} {i : Nat} {a b : ι}

theorem sum_set (ha : parties[i]? = some a) (b : ι) :
    ((parties.set i b).map due).sum + due a = (parties.map due).sum + due b := by
  induction parties generalizing i with
  | nil => simp at ha
  | cons p parties ih =>
    cases i with
    | zero =>
      simp only [List.getElem?_cons_zero, Option.some.injEq] at ha
      subst ha
      simp only [List.set_cons_zero, List.map_cons, List.sum_cons]
      omega
    | succ i =>
      have hrest := ih (by simpa using ha)
      simp only [List.set_cons_succ, List.map_cons, List.sum_cons]
      omega

variable {due}

theorem sum_settled (h : ∀ p ∈ parties, due p = 0) : (parties.map due).sum = 0 := by
  refine List.sum_eq_zero fun x hx => ?_
  obtain ⟨p, hp, rfl⟩ := List.mem_map.mp hx
  exact h p hp

section Balanced
variable {recorded recorded' entered entered' : Int}

/-- One party moves: what it adds it no longer owes, what it enters it owes from now on. -/
theorem Balanced.step (h : Balanced due parties recorded entered) (ha : parties[i]? = some a)
    (hmove : recorded' + due b + entered = recorded + due a + entered') :
    Balanced due (parties.set i b) recorded' entered' := by
  have hsum := sum_set due ha b
  unfold Balanced at *
  omega

theorem Balanced.start (due : ι → Int) (entered : Int) : Balanced due [] entered entered := by
  simp [Balanced]

theorem Balanced.append (h : Balanced due parties recorded entered) (hb : due b = 0) :
    Balanced due (parties ++ [b]) recorded entered := by
  unfold Balanced at *
  simp only [List.map_append, List.map_cons, List.map_nil, List.sum_append, List.sum_cons,
    List.sum_nil]
  omega

theorem Balanced.settled (h : Balanced due parties recorded entered)
    (hdue : ∀ p ∈ parties, due p = 0) : recorded = entered := by
  have hsum := sum_settled hdue
  unfold Balanced at h
  omega

end Balanced

section Saturated
variable {total entered entered' x : Int}

theorem Saturated.enter (h : Saturated due parties total entered) (ha : parties[i]? = some a)
    (hmove : due b + entered = due a + entered') :
    Saturated due (parties.set i b) total entered' := by
  obtain ⟨recorded, hpos, htotal, hbal⟩ := h
  exact ⟨recorded, hpos, htotal, hbal.step ha (by omega)⟩

theorem Saturated.record (h : Saturated due parties total entered) (ha : parties[i]? = some a)
    (hx : 0 ≤ x) (hmove : due b + x = due a) :
    Saturated due (parties.set i b) (saturatingAdd total x) entered := by
  obtain ⟨recorded, hpos, rfl, hbal⟩ := h
  refine ⟨recorded + x, by omega, ?_, hbal.step ha (by omega)⟩
  unfold saturatingAdd saturate64 i64Min i64Max
  omega

theorem Saturated.start (due : ι → Int) (hpos : 0 ≤ entered) :
    Saturated due [] (saturate64 entered) entered := ⟨entered, hpos, rfl, .start due entered⟩

theorem Saturated.append (h : Saturated due parties total entered) (hb : due b = 0) :
    Saturated due (parties ++ [b]) total entered := by
  obtain ⟨recorded, hpos, htotal, hbal⟩ := h
  exact ⟨recorded, hpos, htotal, hbal.append hb⟩

theorem Saturated.settled (h : Saturated due parties total entered)
    (hdue : ∀ p ∈ parties, due p = 0) : total = saturate64 entered := by
  obtain ⟨recorded, -, rfl, hbal⟩ := h
  rw [hbal.settled hdue]

end Saturated

end Deferred
