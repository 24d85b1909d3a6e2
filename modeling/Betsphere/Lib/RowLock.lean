import Mathlib.Logic.Function.Basic
import Mathlib.Tactic
set_option autoImplicit false

/-!
Transactions of a row store under READ COMMITTED. A statement is evaluated on the
committed rows overlaid with the transaction's own writes; a row it writes stays
locked until the transaction ends, and nobody else may write it meanwhile.

The result: where no transaction can change what another one has read, a commit has
exactly the effect of running the whole transaction in one step at the commit.
-/

namespace RowLock

/-- What the statements of a store do. `exec` lists the row versions a statement
writes and its transaction-local variables after it; `key` is the row a write locks. -/
structure Dialect (σ ς ω κ ℓ ε : Type) where
  exec : ς → ℓ → σ → Except ε (List ω × ℓ)
  write : ω → σ → σ
  key : ω → Option κ

variable {σ ς ω κ ℓ ε τ : Type}

namespace Dialect
variable (D : Dialect σ ς ω κ ℓ ε)

def apply (ws : List ω) (s : σ) : σ := ws.foldl (fun s w => D.write w s) s

@[simp] theorem apply_nil (s : σ) : D.apply [] s = s := rfl

@[simp] theorem apply_cons (w : ω) (ws : List ω) (s : σ) :
    D.apply (w :: ws) s = D.apply ws (D.write w s) := rfl

theorem apply_append (ws vs : List ω) (s : σ) :
    D.apply (ws ++ vs) s = D.apply vs (D.apply ws s) := by
  simp [apply, List.foldl_append]

/-- Runs statements one after the other on their own overlay, collecting the writes. -/
def collect : List ς → ℓ → σ → Except ε (List ω × ℓ)
  | [], l, _ => .ok ([], l)
  | st :: rest, l, s =>
    match D.exec st l s with
    | .error e => .error e
    | .ok (ws, l') =>
      match collect rest l' (D.apply ws s) with
      | .error e => .error e
      | .ok (vs, l'') => .ok (ws ++ vs, l'')

/-- The whole transaction as one step: all its writes, or an error and no change. -/
def atomically (prog : List ς) (l : ℓ) (s : σ) : Except ε σ :=
  match D.collect prog l s with
  | .error e => .error e
  | .ok (ws, _) => .ok (D.apply ws s)

def steps : List ς → ℓ → σ → Except ε (σ × ℓ)
  | [], l, s => .ok (s, l)
  | st :: rest, l, s =>
    match D.exec st l s with
    | .error e => .error e
    | .ok (ws, l') => steps rest l' (D.apply ws s)

variable {D}

theorem steps_of_exec {st : ς} {l l' m : ℓ} {s s' : σ} {ws : List ω}
    (h : D.exec st l s = .ok (ws, m)) :
    D.steps [st] l s = .ok (s', l') ↔ s' = D.apply ws s ∧ l' = m := by
  simp only [steps, h, Except.ok.injEq, Prod.mk.injEq]
  exact and_congr eq_comm eq_comm

theorem steps_of_error {st : ς} {l : ℓ} {s : σ} {e : ε} (h : D.exec st l s = .error e) :
    D.steps [st] l s = .error e := by simp [steps, h]

theorem steps_cons {st : ς} {rest : List ς} {l : ℓ} {s : σ} {r : σ × ℓ} :
    D.steps (st :: rest) l s = .ok r ↔
      ∃ s' l', D.steps [st] l s = .ok (s', l') ∧ D.steps rest l' s' = .ok r := by
  cases he : D.exec st l s with
  | error e => simp [steps, he]
  | ok q => simp [steps, he]

theorem steps_append {as bs : List ς} {l : ℓ} {s : σ} {r : σ × ℓ} :
    D.steps (as ++ bs) l s = .ok r ↔
      ∃ s' l', D.steps as l s = .ok (s', l') ∧ D.steps bs l' s' = .ok r := by
  induction as generalizing l s with
  | nil => simp [steps]
  | cons a as ih =>
    rw [List.cons_append, steps_cons]
    constructor
    · rintro ⟨s₁, l₁, ha, hrest⟩
      obtain ⟨s₂, l₂, has, hbs⟩ := ih.mp hrest
      exact ⟨s₂, l₂, steps_cons.mpr ⟨s₁, l₁, ha, has⟩, hbs⟩
    · rintro ⟨s₂, l₂, haas, hbs⟩
      obtain ⟨s₁, l₁, ha, has⟩ := steps_cons.mp haas
      exact ⟨s₁, l₁, ha, ih.mpr ⟨s₂, l₂, has, hbs⟩⟩

theorem steps_eq_collect (prog : List ς) (l : ℓ) (s : σ) :
    D.steps prog l s = (D.collect prog l s).map fun r => (D.apply r.1 s, r.2) := by
  induction prog generalizing l s with
  | nil => rfl
  | cons st rest ih =>
    cases he : D.exec st l s with
    | error e => simp [steps, collect, he, Except.map]
    | ok q =>
      obtain ⟨ws, l'⟩ := q
      cases hc : D.collect rest l' (D.apply ws s) with
      | error e => simp [steps, collect, he, hc, ih, Except.map]
      | ok q =>
        obtain ⟨vs, l''⟩ := q
        simp [steps, collect, he, hc, ih, Except.map, apply_append]

theorem atomically_ok {prog : List ς} {l : ℓ} {s s' : σ} :
    D.atomically prog l s = .ok s' ↔ ∃ l', D.steps prog l s = .ok (s', l') := by
  rw [steps_eq_collect]
  unfold atomically
  cases hc : D.collect prog l s with
  | error e => simp [Except.map]
  | ok q =>
    obtain ⟨ws, l'⟩ := q
    simp [Except.map]

theorem collect_cons_ok {st : ς} {rest : List ς} {l l'' : ℓ} {s : σ} {us : List ω}
    (h : D.collect (st :: rest) l s = .ok (us, l'')) :
    ∃ ws l' vs, D.exec st l s = .ok (ws, l') ∧
      D.collect rest l' (D.apply ws s) = .ok (vs, l'') ∧ us = ws ++ vs := by
  simp only [collect] at h
  cases he : D.exec st l s with
  | error e => simp [he] at h
  | ok r =>
    obtain ⟨ws, l'⟩ := r
    simp only [he] at h
    cases hc : D.collect rest l' (D.apply ws s) with
    | error e => simp [hc] at h
    | ok r =>
      obtain ⟨vs, m⟩ := r
      simp only [hc, Except.ok.injEq, Prod.mk.injEq] at h
      obtain ⟨rfl, rfl⟩ := h
      exact ⟨ws, l', vs, rfl, hc, rfl⟩

theorem collect_mem {prog : List ς} {l l' : ℓ} {s : σ} {us : List ω} {st : ς}
    (h : D.collect prog l s = .ok (us, l')) (hst : st ∈ prog) :
    ∃ before m ws m', D.exec st m (D.apply before s) = .ok (ws, m') ∧ ws ⊆ us := by
  induction prog generalizing l s us with
  | nil => simp at hst
  | cons head rest ih =>
    obtain ⟨ws, m, vs, he, hrest, rfl⟩ := collect_cons_ok h
    rcases List.mem_cons.mp hst with rfl | hst
    · exact ⟨[], l, ws, m, he, List.subset_append_left _ _⟩
    · obtain ⟨before, m₁, ws₁, m₂, he₁, hsub⟩ := ih hrest hst
      refine ⟨ws ++ before, m₁, ws₁, m₂, ?_, fun w hw => List.mem_append_right _ (hsub hw)⟩
      rw [apply_append]
      exact he₁

theorem collect_snoc {st : ς} {done : List ς} {l l' l'' : ℓ} {s : σ} {ws vs : List ω}
    (h : D.collect done l s = .ok (ws, l'))
    (he : D.exec st l' (D.apply ws s) = .ok (vs, l'')) :
    D.collect (done ++ [st]) l s = .ok (ws ++ vs, l'') := by
  induction done generalizing l s ws with
  | nil =>
    simp only [collect, Except.ok.injEq, Prod.mk.injEq] at h
    obtain ⟨rfl, rfl⟩ := h
    simp only [apply_nil] at he
    simp [collect, he]
  | cons st' done ih =>
    obtain ⟨ws₁, l₁, ws₂, h₁, h₂, rfl⟩ := collect_cons_ok h
    rw [apply_append] at he
    have hi := ih h₂ he
    simp [collect, h₁, hi]

theorem collect_error {done rest : List ς} {st : ς} {l l' : ℓ} {s : σ} {ws : List ω} {e : ε}
    (h : D.collect done l s = .ok (ws, l')) (he : D.exec st l' (D.apply ws s) = .error e) :
    D.collect (done ++ st :: rest) l s = .error e := by
  induction done generalizing l s ws with
  | nil =>
    simp only [collect, Except.ok.injEq, Prod.mk.injEq] at h
    obtain ⟨rfl, rfl⟩ := h
    simp only [apply_nil] at he
    simp [collect, he]
  | cons st' done ih =>
    obtain ⟨ws₁, l₁, ws₂, h₁, h₂, rfl⟩ := collect_cons_ok h
    rw [apply_append] at he
    simp [collect, h₁, ih h₂ he]

/-- Two stores that look the same to every statement give the same writes. `R` is
what the caller keeps between the two stores while both apply those writes. -/
theorem collect_congr {R : σ → σ → Prop} {prog : List ς} {l l' : ℓ} {s s' : σ} {us : List ω}
    (hexec : ∀ st ∈ prog, ∀ m m' v v' ws, R v v' → ws ⊆ us →
      D.exec st m v = .ok (ws, m') →
        D.exec st m v' = .ok (ws, m') ∧ R (D.apply ws v) (D.apply ws v'))
    (hR : R s s') (h : D.collect prog l s = .ok (us, l')) :
    D.collect prog l s' = .ok (us, l') := by
  have hgen : ∀ (prog : List ς) (l : ℓ) (s s' : σ) (vs : List ω),
      (∀ st ∈ prog, ∀ m m' v v' ws, R v v' → ws ⊆ us → D.exec st m v = .ok (ws, m') →
        D.exec st m v' = .ok (ws, m') ∧ R (D.apply ws v) (D.apply ws v')) →
      R s s' → vs ⊆ us → D.collect prog l s = .ok (vs, l') →
      D.collect prog l s' = .ok (vs, l') := by
    intro prog
    induction prog with
    | nil =>
      intro l s s' vs _ _ _ h
      simpa [collect] using h
    | cons st rest ih =>
      intro l s s' vs hexec hR hsub h
      obtain ⟨ws₁, l₁, ws₂, h₁, h₂, rfl⟩ := collect_cons_ok h
      have hsub₁ : ws₁ ⊆ us := fun w hw => hsub (List.mem_append_left _ hw)
      have hsub₂ : ws₂ ⊆ us := fun w hw => hsub (List.mem_append_right _ hw)
      obtain ⟨he, hR'⟩ := hexec st (by simp) l l₁ s s' ws₁ hR hsub₁ h₁
      have hrest := ih l₁ (D.apply ws₁ s) (D.apply ws₁ s') ws₂
        (fun st' hst' => hexec st' (by simp [hst'])) hR' hsub₂ h₂
      simp [collect, he, hrest]
  exact hgen prog l s s' us hexec hR (List.Subset.refl us) h

end Dialect

/-- An open transaction: its program, how far it got, and what it wrote so far. -/
structure Tx (ς ω ℓ : Type) where
  prog : List ς
  start : ℓ
  pc : Nat
  vars : ℓ
  writes : List ω

def Tx.begin (prog : List ς) (start : ℓ) : Tx ς ω ℓ := ⟨prog, start, 0, start, []⟩

structure Store (σ ς ω κ ℓ τ : Type) where
  db : σ
  tx : τ → Option (Tx ς ω ℓ)
  locks : κ → Option τ

namespace Store
variable [DecidableEq τ]

def unlock (s : Store σ ς ω κ ℓ τ) (t : τ) : κ → Option τ :=
  fun k => if s.locks k = some t then none else s.locks k

/-- Rollback: the transaction's overlay and its locks are dropped. -/
def abort (s : Store σ ς ω κ ℓ τ) (t : τ) : Store σ ς ω κ ℓ τ :=
  { s with tx := Function.update s.tx t none, locks := s.unlock t }

def begin (s : Store σ ς ω κ ℓ τ) (t : τ) (prog : List ς) (start : ℓ) :
    Option (Store σ ς ω κ ℓ τ) :=
  match s.tx t with
  | some _ => none
  | none => some { s with tx := Function.update s.tx t (some (Tx.begin prog start)) }

def available (D : Dialect σ ς ω κ ℓ ε) (s : Store σ ς ω κ ℓ τ) (t : τ) (w : ω) : Bool :=
  match D.key w with
  | none => true
  | some k => s.locks k = none || s.locks k = some t

def lock [DecidableEq κ] (D : Dialect σ ς ω κ ℓ ε) (s : Store σ ς ω κ ℓ τ) (t : τ)
    (ws : List ω) : κ → Option τ :=
  fun k => if ws.any fun w => D.key w = some k then some t else s.locks k

/-- The next statement of `t`. It is not enabled while another transaction holds a
row it would write; an error rolls the transaction back. -/
def advance [DecidableEq κ] (D : Dialect σ ς ω κ ℓ ε) (s : Store σ ς ω κ ℓ τ) (t : τ) :
    Option (Store σ ς ω κ ℓ τ × Option ε) :=
  match s.tx t with
  | none => none
  | some tx =>
    match tx.prog[tx.pc]? with
    | none => none
    | some st =>
      match D.exec st tx.vars (D.apply tx.writes s.db) with
      | .error e => some (s.abort t, some e)
      | .ok (ws, vars) =>
        if ws.all (available D s t) then
          some ({ s with
            tx := Function.update s.tx t
              (some { tx with pc := tx.pc + 1, vars := vars, writes := tx.writes ++ ws })
            locks := lock D s t ws }, none)
        else none

def commit (D : Dialect σ ς ω κ ℓ ε) (s : Store σ ς ω κ ℓ τ) (t : τ) :
    Option (Store σ ς ω κ ℓ τ) :=
  match s.tx t with
  | none => none
  | some tx =>
    if tx.pc = tx.prog.length then
      some { db := D.apply tx.writes s.db, tx := Function.update s.tx t none, locks := s.unlock t }
    else none

end Store

/-- What the transaction wrote is what its statements would write on `s` now. -/
def Tx.Faithful (D : Dialect σ ς ω κ ℓ ε) (s : σ) (tx : Tx ς ω ℓ) : Prop :=
  D.collect (tx.prog.take tx.pc) tx.start s = .ok (tx.writes, tx.vars)

/-- Every written row is locked by its writer, and every open transaction is faithful. -/
structure Store.Serial (D : Dialect σ ς ω κ ℓ ε) (s : Store σ ς ω κ ℓ τ) : Prop where
  held : ∀ t tx, s.tx t = some tx → ∀ w ∈ tx.writes, ∀ k, D.key w = some k → s.locks k = some t
  faithful : ∀ t tx, s.tx t = some tx → tx.Faithful D s.db

namespace Store
variable {D : Dialect σ ς ω κ ℓ ε} {s : Store σ ς ω κ ℓ τ}

theorem Serial.disjoint (h : s.Serial D) {t t' : τ} (hne : t ≠ t') {tx tx' : Tx ς ω ℓ}
    (ht : s.tx t = some tx) (ht' : s.tx t' = some tx') {w w' : ω} (hw : w ∈ tx.writes)
    (hw' : w' ∈ tx'.writes) {k : κ} (hk : D.key w = some k) : D.key w' ≠ some k := by
  intro hk'
  have h₁ := h.held t tx ht w hw k hk
  have h₂ := h.held t' tx' ht' w' hw' k hk'
  rw [h₁] at h₂
  exact hne (Option.some.inj h₂)

theorem serial_closed (db : σ) : Serial D (⟨db, fun _ => none, fun _ => none⟩ :
    Store σ ς ω κ ℓ τ) where
  held := by simp
  faithful := by simp

theorem Serial.external (h : s.Serial D) {db : σ}
    (hstable : ∀ t tx, s.tx t = some tx → tx.Faithful D db) : ({ s with db }).Serial D :=
  ⟨h.held, hstable⟩

variable [DecidableEq τ]

theorem Serial.abort (h : s.Serial D) (t : τ) : (s.abort t).Serial D where
  held := by
    intro t' tx' ht' w hw k hk
    by_cases he : t' = t
    · subst he
      simp [Store.abort] at ht'
    · have ht₀ : s.tx t' = some tx' := by simpa [Store.abort, he] using ht'
      have hl := h.held t' tx' ht₀ w hw k hk
      have hne : some t' ≠ some t := fun hc => he (Option.some.inj hc)
      simp [Store.abort, Store.unlock, hl, hne]
  faithful := by
    intro t' tx' ht'
    by_cases he : t' = t
    · subst he
      simp [Store.abort] at ht'
    · exact h.faithful t' tx' (by simpa [Store.abort, he] using ht')

theorem Serial.begin (h : s.Serial D) {t : τ} {prog : List ς} {start : ℓ}
    {s' : Store σ ς ω κ ℓ τ} (hb : s.begin t prog start = some s') : s'.Serial D := by
  unfold Store.begin at hb
  split at hb
  · simp at hb
  · simp only [Option.some.injEq] at hb
    subst hb
    constructor
    · intro t' tx' ht' w hw k hk
      by_cases he : t' = t
      · subst he
        simp only [Function.update_self, Option.some.injEq] at ht'
        subst ht'
        simp [Tx.begin] at hw
      · exact h.held t' tx' (by simpa [he] using ht') w hw k hk
    · intro t' tx' ht'
      by_cases he : t' = t
      · subst he
        simp only [Function.update_self, Option.some.injEq] at ht'
        subst ht'
        simp [Tx.Faithful, Tx.begin, Dialect.collect]
      · exact h.faithful t' tx' (by simpa [he] using ht')

/-- What one statement does: it rolls its transaction back, or it appends the row
versions it wrote, all of them free or its own. -/
theorem advance_cases [DecidableEq κ] {t : τ} {r : Store σ ς ω κ ℓ τ × Option ε}
    (h : s.advance D t = some r) :
    ∃ tx st, s.tx t = some tx ∧ tx.prog[tx.pc]? = some st ∧
      ((∃ e, D.exec st tx.vars (D.apply tx.writes s.db) = .error e ∧ r = (s.abort t, some e)) ∨
       (∃ ws vars, D.exec st tx.vars (D.apply tx.writes s.db) = .ok (ws, vars) ∧
          (∀ w ∈ ws, available D s t w) ∧
          r = ({ s with
            tx := Function.update s.tx t
              (some { tx with pc := tx.pc + 1, vars := vars, writes := tx.writes ++ ws })
            locks := lock D s t ws }, none))) := by
  unfold advance at h
  cases ht : s.tx t with
  | none => simp [ht] at h
  | some tx =>
    cases hp : tx.prog[tx.pc]? with
    | none => simp [ht, hp] at h
    | some st =>
      refine ⟨tx, st, rfl, hp, ?_⟩
      simp only [ht, hp] at h
      cases he : D.exec st tx.vars (D.apply tx.writes s.db) with
      | error e =>
        simp only [he, Option.some.injEq] at h
        exact .inl ⟨e, rfl, h.symm⟩
      | ok q =>
        obtain ⟨ws, vars⟩ := q
        simp only [he] at h
        split at h
        · rename_i hall
          simp only [Option.some.injEq] at h
          exact .inr ⟨ws, vars, rfl, by simpa using hall, h.symm⟩
        · simp at h

theorem Serial.advance [DecidableEq κ] (h : s.Serial D) {t : τ} {r : Store σ ς ω κ ℓ τ × Option ε}
    (ha : s.advance D t = some r) : r.1.Serial D := by
  obtain ⟨tx, st, ht, hp, ⟨e, -, rfl⟩ | ⟨ws, vars, hexec, havail, rfl⟩⟩ := advance_cases ha
  · exact h.abort t
  · constructor
    · intro t' tx' ht' w hw k hk
      by_cases he : t' = t
      · subst he
        simp only [Function.update_self, Option.some.injEq] at ht'
        subst ht'
        rcases List.mem_append.mp hw with hw | hw
        · have hl := h.held t' tx ht w hw k hk
          simp [lock, hl]
        · have hany : (ws.any fun w => decide (D.key w = some k)) = true := by
            simp only [List.any_eq_true, decide_eq_true_eq]
            exact ⟨w, hw, hk⟩
          simp [lock, hany]
      · have ht₀ : s.tx t' = some tx' := by simpa [he] using ht'
        have hl := h.held t' tx' ht₀ w hw k hk
        have hany : (ws.any fun w => decide (D.key w = some k)) = false := by
          simp only [List.any_eq_false, decide_eq_true_eq]
          intro v hv hvk
          have hfree := havail v hv
          have hne : t' ≠ t := he
          simp [available, hvk, hl, hne] at hfree
        simp [lock, hany, hl]
    · intro t' tx' ht'
      by_cases he : t' = t
      · subst he
        simp only [Function.update_self, Option.some.injEq] at ht'
        subst ht'
        have hf := h.faithful t' tx ht
        unfold Tx.Faithful at hf ⊢
        simp only [List.take_add_one, hp, Option.toList_some]
        exact Dialect.collect_snoc hf hexec
      · exact h.faithful t' tx' (by simpa [he] using ht')

theorem Serial.advance_error [DecidableEq κ] (h : s.Serial D) {t : τ} {tx : Tx ς ω ℓ}
    (ht : s.tx t = some tx) {s' : Store σ ς ω κ ℓ τ} {e : ε}
    (ha : s.advance D t = some (s', some e)) :
    s' = s.abort t ∧ D.atomically tx.prog tx.start s.db = .error e := by
  obtain ⟨tx', st, ht', hp, ⟨e', hexec, heq⟩ | ⟨ws, vars, -, -, heq⟩⟩ := advance_cases ha
  · rw [ht] at ht'
    cases ht'
    simp only [Prod.mk.injEq, Option.some.injEq] at heq
    obtain ⟨rfl, rfl⟩ := heq
    refine ⟨rfl, ?_⟩
    obtain ⟨hlt, hst⟩ := List.getElem?_eq_some_iff.mp hp
    have hsplit : tx.prog = tx.prog.take tx.pc ++ st :: tx.prog.drop (tx.pc + 1) := by
      rw [← hst, List.cons_getElem_drop_succ, List.take_append_drop]
    have hf := h.faithful t tx ht
    unfold Tx.Faithful at hf
    unfold Dialect.atomically
    rw [hsplit, Dialect.collect_error hf hexec]
  · simp at heq

theorem commit_cases {t : τ} {s' : Store σ ς ω κ ℓ τ} (h : s.commit D t = some s') :
    ∃ tx, s.tx t = some tx ∧ tx.pc = tx.prog.length ∧
      s' = ⟨D.apply tx.writes s.db, Function.update s.tx t none, s.unlock t⟩ := by
  unfold commit at h
  cases ht : s.tx t with
  | none => simp [ht] at h
  | some tx =>
    simp only [ht] at h
    split at h
    · rename_i hpc
      exact ⟨tx, rfl, hpc, (Option.some.inj h).symm⟩
    · simp at h

theorem Serial.commit_atomically (h : s.Serial D) {t : τ} {tx : Tx ς ω ℓ} (ht : s.tx t = some tx)
    {s' : Store σ ς ω κ ℓ τ} (hc : s.commit D t = some s') :
    s'.db = D.apply tx.writes s.db ∧ D.atomically tx.prog tx.start s.db = .ok s'.db := by
  obtain ⟨tx', ht', hpc, rfl⟩ := commit_cases hc
  obtain rfl : tx' = tx := Option.some.inj (ht'.symm.trans ht)
  have hf := h.faithful t tx' ht
  unfold Tx.Faithful at hf
  rw [hpc, List.take_length] at hf
  exact ⟨rfl, by simp [Dialect.atomically, hf]⟩

/-- It keeps the store serial when nothing `t` wrote matters to what the other open
transactions have run so far. -/
theorem Serial.commit (h : s.Serial D) {t : τ} {s' : Store σ ς ω κ ℓ τ}
    (hstable : ∀ t' tx', t' ≠ t → s.tx t' = some tx' → tx'.Faithful D s'.db)
    (hc : s.commit D t = some s') : s'.Serial D := by
  obtain ⟨tx, -, -, rfl⟩ := commit_cases hc
  constructor
  · intro t' tx' ht' w hw k hk
    by_cases he : t' = t
    · subst he
      simp at ht'
    · have hl := h.held t' tx' (by simpa [he] using ht') w hw k hk
      have hne : some t' ≠ some t := fun hc => he (Option.some.inj hc)
      simp [unlock, hl, hne]
  · intro t' tx' ht'
    by_cases he : t' = t
    · subst he
      simp at ht'
    · exact hstable t' tx' he (by simpa [he] using ht')

end Store

end RowLock
