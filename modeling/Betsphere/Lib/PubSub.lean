import Mathlib.Tactic
set_option autoImplicit false

namespace PubSub
variable {τ ν π : Type} [DecidableEq ν]

/-- One subscription: what it asked for, what waits for it and what it took. -/
structure Subscription (τ π : Type) where
  topic : τ
  queue : List π
  received : List π

inductive Act (τ π : Type) where
  | subscribe (topic : τ)
  | publish (payload : π)
  | receive (i : Nat)
  | lag (i n : Nat)

section Broker
variable (name : τ → ν) (topicOf : π → τ)

def deliver (payload : π) (s : Subscription τ π) : Subscription τ π :=
  if name s.topic = name (topicOf payload) then { s with queue := s.queue ++ [payload] } else s

def take (s : Subscription τ π) : Subscription τ π :=
  match s.queue with
  | [] => s
  | payload :: queue => { s with queue, received := s.received ++ [payload] }

/-- A slow subscription loses the oldest of what waits for it. -/
def skip (n : Nat) (s : Subscription τ π) : Subscription τ π := { s with queue := s.queue.drop n }

def step (subs : List (Subscription τ π)) : Act τ π → List (Subscription τ π)
  | .subscribe topic => subs ++ [⟨topic, [], []⟩]
  | .publish payload => subs.map (deliver name topicOf payload)
  | .receive i => subs.modify i take
  | .lag i n => subs.modify i (skip n)

def run (subs : List (Subscription τ π)) (acts : List (Act τ π)) : List (Subscription τ π) :=
  acts.foldl (step name topicOf) subs

def Pure (s : Subscription τ π) : Prop :=
  ∀ payload ∈ s.received ++ s.queue, topicOf payload = s.topic

end Broker

variable {name : τ → ν} {topicOf : π → τ} {s : Subscription τ π}
  {subs : List (Subscription τ π)}

theorem Pure.deliver (hinj : Function.Injective name) (h : Pure topicOf s) (payload : π) :
    Pure topicOf (deliver name topicOf payload s) := by
  unfold PubSub.deliver
  split
  · rename_i hname
    intro p hp
    rw [← List.append_assoc, List.mem_append, List.mem_singleton] at hp
    rcases hp with hp | rfl
    · exact h p hp
    · exact (hinj hname).symm
  · exact h

theorem Pure.take (h : Pure topicOf s) : Pure topicOf (take s) := by
  unfold PubSub.take
  split
  · exact h
  · rename_i payload queue hqueue
    intro p hp
    refine h p ?_
    rw [hqueue]
    simpa using hp

theorem Pure.skip (h : Pure topicOf s) (n : Nat) : Pure topicOf (skip n s) := by
  intro p hp
  refine h p ?_
  rw [List.mem_append] at hp ⊢
  exact hp.imp_right List.mem_of_mem_drop

theorem Pure.modify {f : Subscription τ π → Subscription τ π}
    (hf : ∀ s, Pure topicOf s → Pure topicOf (f s)) (h : ∀ s ∈ subs, Pure topicOf s) (i : Nat) :
    ∀ s ∈ subs.modify i f, Pure topicOf s := by
  intro s hs
  obtain ⟨j, hj⟩ := List.mem_iff_getElem?.mp hs
  rw [List.getElem?_modify] at hj
  obtain ⟨t, ht, rfl⟩ := Option.map_eq_some_iff.mp hj
  have hpure := h t (List.mem_of_getElem? ht)
  split
  · exact hf t hpure
  · exact hpure

theorem step_pure (hinj : Function.Injective name) (h : ∀ s ∈ subs, Pure topicOf s)
    (a : Act τ π) : ∀ s ∈ step name topicOf subs a, Pure topicOf s := by
  cases a with
  | subscribe topic =>
    intro s hs
    rcases List.mem_append.mp hs with hs | hs
    · exact h s hs
    · cases List.mem_singleton.mp hs
      simp [Pure]
  | publish payload =>
    intro s hs
    obtain ⟨t, ht, rfl⟩ := List.mem_map.mp hs
    exact (h t ht).deliver hinj payload
  | receive i => exact Pure.modify (fun _ => Pure.take) h i
  | lag i n => exact Pure.modify (fun _ hs => Pure.skip hs n) h i

theorem run_pure (hinj : Function.Injective name) (h : ∀ s ∈ subs, Pure topicOf s)
    (acts : List (Act τ π)) : ∀ s ∈ run name topicOf subs acts, Pure topicOf s := by
  induction acts generalizing subs with
  | nil => exact h
  | cons a acts ih => exact ih (step_pure hinj h a)

end PubSub
