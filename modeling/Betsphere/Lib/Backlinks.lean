import Mathlib.Data.List.Basic
import Mathlib.Tactic
set_option autoImplicit false

namespace Backlinks
variable {α κ ρ : Type} (id : α → κ) (link : α → Option κ) (room : α → ρ)

/-- What a row names stands before it and in its room. -/
def Linked (rows : List α) : Prop :=
  ∀ pre a post, rows = pre ++ a :: post → ∀ k, link a = some k →
    ∃ b ∈ pre, id b = k ∧ room b = room a

variable {id link room} {rows pre post chain : List α} {a b : α}

theorem linked_nil : Linked id link room [] := by
  intro pre a post h
  simp at h

theorem Linked.concat (h : Linked id link room rows)
    (ha : ∀ k, link a = some k → ∃ b ∈ rows, id b = k ∧ room b = room a) :
    Linked id link room (rows ++ [a]) := by
  intro pre b post heq k hk
  rcases List.eq_nil_or_concat post with rfl | ⟨rest, last, rfl⟩
  · obtain ⟨rfl, hab⟩ := List.append_inj' heq rfl
    obtain rfl : a = b := by simpa using hab
    exact ha k hk
  · rw [List.concat_eq_append, ← List.cons_append, ← List.append_assoc] at heq
    exact h pre b rest (List.append_inj' heq rfl).1 k hk

theorem Linked.before (h : Linked id link room rows) (hnodup : (rows.map id).Nodup)
    (hrows : rows = pre ++ a :: post) (hb : b ∈ rows) (hlink : link a = some (id b)) :
    b ∈ pre ∧ room b = room a := by
  obtain ⟨c, hc, hid, hroom⟩ := h pre a post hrows (id b) hlink
  have hmem : c ∈ rows := by
    rw [hrows]
    exact List.mem_append_left _ hc
  obtain rfl := List.inj_on_of_nodup_map hnodup hmem hb hid
  exact ⟨hc, hroom⟩

theorem Linked.room_eq (h : Linked id link room rows) (hnodup : (rows.map id).Nodup)
    (ha : a ∈ rows) (hb : b ∈ rows) (hlink : link a = some (id b)) : room b = room a := by
  obtain ⟨pre, post, hrows⟩ := List.append_of_mem ha
  exact (h.before hnodup hrows hb hlink).2

theorem Linked.chain_before (h : Linked id link room rows) (hnodup : (rows.map id).Nodup)
    (hrows : rows = pre ++ a :: post) (hmem : ∀ b ∈ chain, b ∈ rows)
    (hchain : (a :: chain).IsChain fun a b => link a = some (id b)) :
    chain.length ≤ pre.length ∧ ∀ b ∈ chain, room b = room a := by
  induction chain generalizing a pre post with
  | nil => simp
  | cons c chain ih =>
    obtain ⟨hlink, hrest⟩ := List.isChain_cons_cons.mp hchain
    obtain ⟨hc, hroom⟩ := h.before hnodup hrows (hmem c List.mem_cons_self) hlink
    obtain ⟨front, back, hpre⟩ := List.append_of_mem hc
    have hsplit : rows = front ++ c :: (back ++ a :: post) := by
      rw [hrows, hpre]
      simp
    obtain ⟨hlen, hrooms⟩ := ih hsplit (fun b hb => hmem b (List.mem_cons_of_mem c hb)) hrest
    have hfront : front.length < pre.length := by
      rw [hpre]
      simp
    refine ⟨?_, fun b hb => ?_⟩
    · rw [List.length_cons]
      omega
    · rcases List.mem_cons.mp hb with rfl | hb
      · exact hroom
      · exact (hrooms b hb).trans hroom

theorem Linked.chain_le (h : Linked id link room rows) (hnodup : (rows.map id).Nodup)
    (hmem : ∀ b ∈ chain, b ∈ rows) (hchain : chain.IsChain fun a b => link a = some (id b)) :
    chain.length ≤ rows.length ∧ ∀ a ∈ chain, ∀ b ∈ chain, room a = room b := by
  cases chain with
  | nil => simp
  | cons c chain =>
    obtain ⟨pre, post, hrows⟩ := List.append_of_mem (hmem c List.mem_cons_self)
    obtain ⟨hlen, hrooms⟩ :=
      h.chain_before hnodup hrows (fun b hb => hmem b (List.mem_cons_of_mem c hb)) hchain
    have hall : ∀ a ∈ c :: chain, room a = room c := by
      intro a ha
      rcases List.mem_cons.mp ha with rfl | ha
      · rfl
      · exact hrooms a ha
    refine ⟨?_, fun a ha b hb => (hall a ha).trans (hall b hb).symm⟩
    rw [hrows, List.length_append, List.length_cons, List.length_cons]
    omega

end Backlinks
