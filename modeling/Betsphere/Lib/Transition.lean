import Mathlib.Tactic
set_option autoImplicit false

/-!
Runs of a deterministic step function over a list of actions. Whatever is not
determined (who moves next, a clock, a reply from outside) is part of the action.
-/

namespace Transition

section Runs
variable {σ α : Type} (step : σ → α → Option σ)

/-- `none` as soon as one action is not enabled. -/
def run : σ → List α → Option σ
  | s, [] => some s
  | s, a :: as => (step s a).bind fun s' => run s' as

def Guarded (ok : σ → α → Prop) : σ → List α → Prop
  | _, [] => True
  | s, a :: as => ok s a ∧ ∀ s', step s a = some s' → Guarded ok s' as

instance decidableGuarded (ok : σ → α → Prop) [∀ s a, Decidable (ok s a)] :
    (s : σ) → (as : List α) → Decidable (Guarded step ok s as)
  | _, [] => isTrue trivial
  | s, a :: as =>
    match h : step s a with
    | none => decidable_of_iff (ok s a) (by simp [Guarded, h])
    | some s' =>
      have := decidableGuarded ok s' as
      decidable_of_iff (ok s a ∧ Guarded step ok s' as) (by simp [Guarded, h])

variable {step}

theorem run_cons_some {s t : σ} {a : α} {as : List α} (h : run step s (a :: as) = some t) :
    ∃ s', step s a = some s' ∧ run step s' as = some t := by
  simpa [run, Option.bind_eq_some_iff] using h

theorem run_append (s : σ) (as bs : List α) :
    run step s (as ++ bs) = (run step s as).bind fun s' => run step s' bs := by
  induction as generalizing s with
  | nil => rfl
  | cons a as ih =>
    cases h : step s a with
    | none => simp [run, h]
    | some s' => simp [run, h, ih]

theorem run_append_some {s t u : σ} {as bs : List α} (h₁ : run step s as = some t)
    (h₂ : run step t bs = some u) : run step s (as ++ bs) = some u := by
  rw [run_append, h₁]
  exact h₂

theorem guarded_append {ok : σ → α → Prop} {s : σ} {as bs : List α} :
    Guarded step ok s (as ++ bs) ↔
      Guarded step ok s as ∧ ∀ t, run step s as = some t → Guarded step ok t bs := by
  induction as generalizing s with
  | nil => simp [Guarded, run]
  | cons a as ih =>
    simp only [List.cons_append, Guarded, ih]
    constructor
    · rintro ⟨ha, hrest⟩
      refine ⟨⟨ha, fun s' hs => (hrest s' hs).1⟩, fun t ht => ?_⟩
      obtain ⟨s', hs, hr⟩ := run_cons_some ht
      exact (hrest s' hs).2 t hr
    · rintro ⟨⟨ha, hrest⟩, hafter⟩
      refine ⟨ha, fun s' hs => ⟨hrest s' hs, fun t ht => hafter t ?_⟩⟩
      simp [run, hs, ht]

theorem guarded_true (s : σ) (as : List α) : Guarded step (fun _ _ => True) s as := by
  induction as generalizing s with
  | nil => trivial
  | cons a as ih => exact ⟨trivial, fun s' _ => ih s'⟩

theorem guarded_of_forall {ok : α → Prop} (s : σ) {as : List α} (h : ∀ a ∈ as, ok a) :
    Guarded step (fun _ a => ok a) s as := by
  induction as generalizing s with
  | nil => trivial
  | cons a as ih =>
    rw [List.forall_mem_cons] at h
    exact ⟨h.1, fun s' _ => ih s' h.2⟩

theorem guarded_and {ok ok' : σ → α → Prop} {s : σ} {as : List α} (h : Guarded step ok s as)
    (h' : Guarded step ok' s as) : Guarded step (fun s a => ok s a ∧ ok' s a) s as := by
  induction as generalizing s with
  | nil => trivial
  | cons a as ih => exact ⟨⟨h.1, h'.1⟩, fun s' hs => ih (h.2 s' hs) (h'.2 s' hs)⟩

theorem run_invariant {ok : σ → α → Prop} {Inv : σ → Prop}
    (hstep : ∀ s a s', Inv s → ok s a → step s a = some s' → Inv s')
    {s t : σ} {as : List α} (h₀ : Inv s) (hg : Guarded step ok s as)
    (hr : run step s as = some t) : Inv t := by
  induction as generalizing s with
  | nil =>
    simp only [run, Option.some.injEq] at hr
    exact hr ▸ h₀
  | cons a as ih =>
    obtain ⟨s', hs, hrest⟩ := run_cons_some hr
    exact ih (hstep s a s' h₀ hg.1 hs) (hg.2 s' hs) hrest

theorem run_invariant' {Inv : σ → Prop}
    (hstep : ∀ s a s', Inv s → step s a = some s' → Inv s')
    {s t : σ} {as : List α} (h₀ : Inv s) (hr : run step s as = some t) : Inv t :=
  run_invariant (fun s a s' hi _ hs => hstep s a s' hi hs) h₀ (guarded_true s as) hr

theorem guarded_invariant {ok ok' : σ → α → Prop} {Inv : σ → Prop}
    (hstep : ∀ s a s', Inv s → ok s a → step s a = some s' → Inv s')
    (hok : ∀ s a, Inv s → ok s a → ok' s a) {s : σ} {as : List α} (h₀ : Inv s)
    (hg : Guarded step ok s as) : Guarded step ok' s as := by
  induction as generalizing s with
  | nil => trivial
  | cons a as ih => exact ⟨hok s a h₀ hg.1, fun s' hs => ih (hstep s a s' h₀ hg.1 hs) (hg.2 s' hs)⟩

/-- An action that is not `ok'` leads to a state that stays bad to the end; a run that
does not end badly took no such action. -/
theorem guarded_of_end {ok ok' : σ → α → Prop} {Inv Bad : σ → Prop}
    (hinv : ∀ s a s', Inv s → ok s a → step s a = some s' → Inv s')
    (hstep : ∀ s a s', Inv s → ok s a → step s a = some s' → ok' s a ∨ Bad s')
    (hbad : ∀ s a s', Bad s → ok s a → step s a = some s' → Bad s')
    {s t : σ} {as : List α} (h₀ : Inv s) (hg : Guarded step ok s as)
    (hr : run step s as = some t) (hend : ¬Bad t) : Guarded step ok' s as := by
  induction as generalizing s with
  | nil => trivial
  | cons a as ih =>
    obtain ⟨s', hs, hrest⟩ := run_cons_some hr
    have hnext := ih (hinv s a s' h₀ hg.1 hs) (hg.2 s' hs) hrest
    rcases hstep s a s' h₀ hg.1 hs with hok | hb
    · refine ⟨hok, fun u hu => ?_⟩
      rw [hs] at hu
      cases hu
      exact hnext
    · exact absurd (run_invariant hbad hb (hg.2 s' hs) hrest) hend

/-- Where `ok` says of each action whether it keeps `P`, the actions of a run are all `ok`
just when `P` holds all along it. -/
theorem guarded_iff_prefixes {ok : σ → α → Prop} {Base P : σ → Prop}
    (hbase : ∀ s a s', Base s → step s a = some s' → Base s')
    (hstep : ∀ s a s', Base s → P s → step s a = some s' → (ok s a ↔ P s')) {s t : σ} {as : List α}
    (h₀ : Base s) (hp : P s) (hr : run step s as = some t) :
    Guarded step ok s as ↔ ∀ bs u, bs <+: as → run step s bs = some u → P u := by
  induction as generalizing s with
  | nil =>
    refine ⟨fun _ bs u hbs hu => ?_, fun _ => trivial⟩
    rw [List.prefix_nil.mp hbs] at hu
    cases hu
    exact hp
  | cons a as ih =>
    obtain ⟨s', hs, hrest⟩ := run_cons_some hr
    have hb := hbase s a s' h₀ hs
    constructor
    · rintro ⟨ha, hg⟩ bs u hbs hu
      have hp' := (hstep s a s' h₀ hp hs).mp ha
      cases bs with
      | nil =>
        cases hu
        exact hp
      | cons b bs =>
        obtain ⟨rfl, htail⟩ := List.cons_prefix_cons.mp hbs
        obtain ⟨s'', hs'', hu⟩ := run_cons_some hu
        rw [hs] at hs''
        cases hs''
        exact (ih hb hp' hrest).mp (hg s' hs) bs u htail hu
    · intro hall
      have hp' : P s' := hall [a] s' (by simp) (by simp [run, hs])
      refine ⟨(hstep s a s' h₀ hp hs).mpr hp', fun s'' hs'' => ?_⟩
      rw [hs] at hs''
      cases hs''
      refine (ih hb hp' hrest).mpr fun bs u hbs hu => ?_
      exact hall (a :: bs) u (List.cons_prefix_cons.mpr ⟨rfl, hbs⟩) (by simp [run, hs, hu])

end Runs

section Simulation
variable {σ α τ β : Type} {step : σ → α → Option σ} {fine : τ → β → Option τ}

/-- Every fine step is matched by a run of the coarse system from the abstracted
state, guards included; then so is every fine run. -/
theorem run_simulates {abs : τ → σ} {Inv : τ → Prop} {okF : τ → β → Prop} {ok : σ → α → Prop}
    (hsim : ∀ t b t', Inv t → okF t b → fine t b = some t' →
      Inv t' ∧ ∃ as, run step (abs t) as = some (abs t') ∧ Guarded step ok (abs t) as)
    {t u : τ} {bs : List β} (h₀ : Inv t) (hg : Guarded fine okF t bs)
    (hr : run fine t bs = some u) :
    Inv u ∧ ∃ as, run step (abs t) as = some (abs u) ∧ Guarded step ok (abs t) as := by
  induction bs generalizing t with
  | nil =>
    simp only [run, Option.some.injEq] at hr
    subst hr
    exact ⟨h₀, [], rfl, trivial⟩
  | cons b bs ih =>
    obtain ⟨t', ht, hrest⟩ := run_cons_some hr
    obtain ⟨hinv, as, has, hgas⟩ := hsim t b t' h₀ hg.1 ht
    obtain ⟨hinv', cs, hcs, hgcs⟩ := ih hinv (hg.2 t' ht) hrest
    refine ⟨hinv', as ++ cs, run_append_some has hcs, ?_⟩
    rw [guarded_append]
    refine ⟨hgas, fun v hv => ?_⟩
    rw [has] at hv
    cases hv
    exact hgcs

end Simulation

end Transition
