import Betsphere.System.Prices
import Betsphere.Postgres.Locking
set_option autoImplicit false

/-!
Placements whose SQL statements interleave. A transaction holds the lock of every row it
updated until it ends, so each commit is one step of the system with whole transactions,
and what holds of that system's tables holds of the rows any reader finds.
-/

namespace Betsphere
open MachineInt Pricing RowLock

/-- `tx i` is the open transaction of the placement at `i`. -/
structure Fine where
  sys : Sys
  tx : Nat → Option (Tx Statement RowVersion TxVars)
  locks : RowKey → Option Nat

inductive FineAct where
  | act (a : Act)
  | begin (i : Nat) (now : DateTime)
  | exec (i : Nat)
  | commit (i : Nat)
  | abort (i : Nat) (message : String)

def Sys.placing? (s : Sys) (i : Nat) : Option (Call × Write) :=
  match s.calls[i]? with
  | some (.running (.placeBet actor input phase)) =>
    (PlaceBet.write? phase).map fun w => (.placeBet actor input phase, w)
  | _ => none

def Sys.transaction? (s : Sys) : Act → Option (Write × TxVars)
  | .step i env => (s.writing? (.step i env)).map fun w => (w, env.txVars)
  | .register id username email passwordHash now =>
    some (.save .registration (User.new id username email passwordHash now), ⟨now, false⟩)
  | _ => none

def Sys.rows (s : Sys) (a : Act) : List RowVersion :=
  match s.transaction? a with
  | none => []
  | some (w, vars) =>
    match pg.collect w.program vars s.db with
    | .error _ => []
    | .ok (ws, _) => ws

namespace Fine

def init : Fine := ⟨Sys.init, fun _ => none, fun _ => none⟩

def store (f : Fine) : Store Db Statement RowVersion RowKey TxVars Nat := ⟨f.sys.db, f.tx, f.locks⟩

/-- A placement moves by its statements; a call with an open transaction fails by `abort`. -/
def permits (f : Fine) : Act → Bool
  | .step i _ => (f.sys.placing? i).isNone
  | .fail i _ => (f.tx i).isNone
  | _ => true

def free (f : Fine) (a : Act) : Bool :=
  (f.sys.rows a).all fun v => v.key.all fun k => (f.locks k).isNone

def step (build : Build) (f : Fine) : FineAct → Option Fine
  | .act a =>
    if f.permits a && f.free a then (f.sys.step build a).map fun sys => { f with sys } else none
  | .begin i now =>
    match f.sys.placing? i with
    | none => none
    | some (_, w) =>
      (f.store.begin i w.program ⟨now, false⟩).map fun store => { f with tx := store.tx }
  | .exec i =>
    match f.sys.placing? i, f.store.advance pg i with
    | some _, some (store, none) => some { f with tx := store.tx, locks := store.locks }
    | some (call, _), some (store, some e) =>
      some ⟨f.sys.setCall i (call.written (.error e)), store.tx, store.locks⟩
    | _, _ => none
  | .commit i =>
    match f.sys.placing? i, f.store.commit pg i with
    | some (call, w), some store =>
      some ⟨(f.sys.commit w store.db).setCall i (call.written (.ok ())), store.tx, store.locks⟩
    | _, _ => none
  | .abort i message =>
    match f.sys.placing? i, f.tx i with
    | some (call, _), some _ =>
      some ⟨f.sys.setCall i (.returned call.request (.error (.internal message))),
        (f.store.abort i).tx, (f.store.abort i).locks⟩
    | _, _ => none

end Fine

theorem Sys.placing?_some {s : Sys} {i : Nat} {call : Call} {w : Write}
    (h : s.placing? i = some (call, w)) :
    s.calls[i]? = some (.running call) ∧ (∀ env, call.write? env = some w) ∧
      call.remote = true ∧ ∃ bet priced points, w = .place bet priced points := by
  unfold Sys.placing? at h
  split at h
  · rename_i actor input phase hcall
    cases phase <;> simp [PlaceBet.write?] at h
    obtain ⟨rfl, rfl⟩ := h
    exact ⟨hcall, fun _ => rfl, rfl, _, _, _, rfl⟩
  · simp at h

theorem Sys.placing?_of_place {s : Sys} {i : Nat} {env : Env} {bet : Bet} {priced : List Outcome}
    {points : List PricePoint} (h : s.writing? (.step i env) = some (.place bet priced points)) :
    (s.placing? i).isSome := by
  simp only [Sys.writing?] at h
  split at h
  · rename_i call hcall
    cases call with
    | placeBet actor input phase =>
      have hw : PlaceBet.write? phase = some (.place bet priced points) := h
      simp [Sys.placing?, hcall, hw]
    | createMarket actor input prepared => simp [Call.write?, CreateMarket.write?] at h
    | resolveMarket actor marketId winner phase =>
      cases phase <;> simp [Call.write?, ResolveMarket.write?] at h
    | profile job phase => cases phase <;> simp [Call.write?, ProfileJob.write?] at h
  · simp at h

theorem Sys.placing?_congr {s s' : Sys} {i : Nat} (h : s'.calls[i]? = s.calls[i]?) :
    s'.placing? i = s.placing? i := by
  simp only [Sys.placing?, h]

theorem Sys.Effect.rows {build : Build} {s s' : Sys} {a : Act} (he : Sys.Effect build s a s') :
    s'.db = pg.apply (s.rows a) s.db := by
  cases he with
  | read i env call cache slot hcall hread hr =>
    simp [Sys.rows, Sys.transaction?, Sys.writing?, hcall, hread, Sys.setCall]
  | committed i env call w db hcall hwrite hc =>
    obtain ⟨ws, l, hcollect, rfl⟩ := atomically_rows hc
    simp [Sys.rows, Sys.transaction?, Sys.writing?, hcall, hwrite, hcollect, Sys.setCall,
      Sys.commit]
  | refused i env call w e hcall hwrite hc =>
    simp [Sys.rows, Sys.transaction?, Sys.writing?, hcall, hwrite, atomically_refused hc,
      Sys.setCall]
  | registered id username email hash now db hfresh hc =>
    obtain ⟨ws, l, hcollect, rfl⟩ := atomically_rows hc
    simp [Sys.rows, Sys.transaction?, Write.program, hcollect, Sys.commit]
  | _ => simp [Sys.rows, Sys.transaction?, Sys.setCall]

def envAt (start : TxVars) : Env := ⟨start.now, fun _ => 0, [], true, id⟩

theorem Sys.step_placing_ok {build : Build} {s : Sys} {i : Nat} {call : Call} {w : Write}
    {env : Env} {db : Db} (hp : s.placing? i = some (call, w))
    (hc : pg.atomically w.program env.txVars s.db = .ok db) :
    s.step build (.step i env) = some ((s.commit w db).setCall i (call.written (.ok ()))) := by
  obtain ⟨hcall, hwrite, -⟩ := Sys.placing?_some hp
  simp [Sys.step, hcall, Sys.stepCall, hwrite env, hc]

theorem Sys.step_placing_error {build : Build} {s : Sys} {i : Nat} {call : Call} {w : Write}
    {env : Env} {e : RepositoryError} (hp : s.placing? i = some (call, w))
    (hc : pg.atomically w.program env.txVars s.db = .error e) :
    s.step build (.step i env) = some (s.setCall i (call.written (.error e))) := by
  obtain ⟨hcall, hwrite, -⟩ := Sys.placing?_some hp
  simp [Sys.step, hcall, Sys.stepCall, hwrite env, hc]

theorem Sys.step_placing_fail {build : Build} {s : Sys} {i : Nat} {call : Call} {w : Write}
    (hp : s.placing? i = some (call, w)) (message : String) :
    s.step build (.fail i message) =
      some (s.setCall i (.returned call.request (.error (.internal message)))) := by
  obtain ⟨hcall, -, hremote, -⟩ := Sys.placing?_some hp
  simp [Sys.step, hcall, hremote]

theorem Sys.pricing?_placing {s : Sys} {i : Nat} {call : Call} {w : Write}
    (hp : s.placing? i = some (call, w)) (env : Env) : s.pricing? (.step i env) = none := by
  unfold Sys.placing? at hp
  split at hp
  · rename_i actor input phase hcall
    cases phase <;> simp [PlaceBet.write?] at hp
    simp [Sys.pricing?, hcall, PlaceBet.pricing?]
  · simp at hp

structure Fine.Inv (f : Fine) : Prop where
  wf : f.sys.Wf
  serial : f.store.Serial pg
  opened : ∀ i tx, f.tx i = some tx → ∃ call bet priced points,
    f.sys.placing? i = some (call, .place bet priced points) ∧
      tx.prog = placeProgram bet priced points ∧ tx.start.repeatBettor = false

/-- No `i64` overflow when a placement prices its outcomes. -/
def Fine.PricingFits (f : Fine) : FineAct → Prop
  | .act a => Betsphere.PricingFits f.sys a
  | _ => True

instance (f : Fine) : (b : FineAct) → Decidable (f.PricingFits b)
  | .act a => inferInstanceAs (Decidable (Betsphere.PricingFits f.sys a))
  | .begin .. => isTrue trivial
  | .exec _ => isTrue trivial
  | .commit _ => isTrue trivial
  | .abort .. => isTrue trivial

/-- What actions with whole transactions have to match. -/
def Fine.Matched (build : Build) (f : Fine) (b : FineAct) (f' : Fine) : Prop :=
  ∃ as, Transition.run (Sys.step build) f.sys as = some f'.sys ∧
    (f.PricingFits b → Transition.Guarded (Sys.step build) Betsphere.PricingFits f.sys as)

theorem Fine.matched_one {build : Build} {f f' : Fine} {a : Act} {b : FineAct}
    (h : f.sys.step build a = some f'.sys) (hg : f.PricingFits b → Betsphere.PricingFits f.sys a) :
    f.Matched build b f' :=
  ⟨[a], by simp [Transition.run, h], fun hb => ⟨hg hb, fun _ _ => trivial⟩⟩

theorem Fine.matched_none {build : Build} {f f' : Fine} (b : FineAct) (h : f'.sys = f.sys) :
    f.Matched build b f' := ⟨[], by simp [Transition.run, h], fun _ => trivial⟩

section Simulation
variable {build : Build} {f f' : Fine}

theorem Fine.Inv.placement_ok (h : f.Inv) {i : Nat} {call : Call} {w : Write}
    (hp : f.sys.placing? i = some (call, w)) : w.Ok f.sys.db := by
  obtain ⟨hcall, hwrite, -⟩ := Sys.placing?_some hp
  exact Call.write_ok (h.wf.call hcall) (hwrite (envAt ⟨0, false⟩))

theorem Fine.Inv.undisturbed (h : f.Inv) {db : Db} {w : Write} {now : DateTime}
    {ws : List RowVersion} (hdone : w.Done f.sys.db now db) (happly : db = pg.apply ws f.sys.db)
    (hlocks : ∀ bet priced points, w = .place bet priced points → Locked ws (.user bet.userId))
    {i : Nat} {tx : Tx Statement RowVersion TxVars} (htx : f.tx i = some tx)
    (hfree : ∀ v ∈ ws, ∀ k, v.key = some k → ¬Locked tx.writes k) : tx.Faithful pg db := by
  obtain ⟨call, bet, priced, points, hp, hprog, -⟩ := h.opened i tx htx
  exact placement_undisturbed hprog (h.placement_ok hp) (h.serial.faithful i tx htx) hdone happly
    hfree hlocks

theorem Fine.Inv.act (h : f.Inv) {a : Act} (hs : f.step build (.act a) = some f') :
    f'.Inv ∧ f.sys.step build a = some f'.sys := by
  simp only [Fine.step] at hs
  split at hs
  · rename_i hallowed
    simp only [Bool.and_eq_true] at hallowed
    obtain ⟨hpermits, hfree⟩ := hallowed
    obtain ⟨sys, hsys, rfl⟩ := Option.map_eq_some_iff.mp hs
    have he := Sys.step_effect hsys
    refine ⟨⟨h.wf.effect he, ?_, ?_⟩, hsys⟩
    · refine Store.Serial.external h.serial fun i tx htx => ?_
      rcases h.wf.commits he with ⟨hdb, -⟩ | ⟨w, now, -, hdone, -, hc⟩
      · rw [hdb]
        exact h.serial.faithful i tx htx
      · refine h.undisturbed hdone he.rows ?_ htx ?_
        · rintro bet priced points rfl
          rcases hc with hw | ⟨_, _, _, _, _, -, -, hsave⟩
          · cases a with
            | step j env =>
              have hplacing := Sys.placing?_of_place hw
              simp only [Fine.permits, Option.isNone_iff_eq_none] at hpermits
              simp [hpermits] at hplacing
            | _ => simp [Sys.writing?] at hw
          · simp at hsave
        · rintro v hv k hk ⟨u, hu, huk⟩
          have hheld := h.serial.held i tx htx u hu k huk
          simp only [Fine.free, List.all_eq_true] at hfree
          have hnone := hfree v hv
          simp only [hk, Option.all_some, Option.isNone_iff_eq_none] at hnone
          simp only [Fine.store, hnone] at hheld
          simp at hheld
    · intro i tx htx
      obtain ⟨call, bet, priced, points, hp, hprog, hstart⟩ := h.opened i tx htx
      obtain ⟨hcall, -⟩ := Sys.placing?_some hp
      have hopen : f.tx i = some tx := htx
      have hlt := (List.getElem?_eq_some_iff.mp hcall).1
      have hkept := he.untouched hlt
        (by
          rintro env rfl
          simp [Fine.permits, hp] at hpermits)
        (by
          rintro message rfl
          simp [Fine.permits, hopen] at hpermits)
      exact ⟨call, bet, priced, points, (Sys.placing?_congr hkept).trans hp, hprog, hstart⟩
  · simp at hs

theorem Fine.Inv.opened_set (h : f.Inv) {i : Nat} {slot : Slot}
    {tx : Nat → Option (Tx Statement RowVersion TxVars)} (hclosed : tx i = none)
    (hkept : ∀ j, j ≠ i → tx j = f.tx j) (db : Db) (log : List (Write × Db)) :
    ∀ j t, tx j = some t → ∃ call bet priced points,
      (({ f.sys with db, log } : Sys).setCall i slot).placing? j =
          some (call, .place bet priced points) ∧
        t.prog = placeProgram bet priced points ∧ t.start.repeatBettor = false := by
  intro j t ht
  have hne : j ≠ i := by
    rintro rfl
    simp [hclosed] at ht
  obtain ⟨call, bet, priced, points, hp, hprog, hstart⟩ := h.opened j t (hkept j hne ▸ ht)
  refine ⟨call, bet, priced, points, Eq.trans (Sys.placing?_congr ?_) hp, hprog, hstart⟩
  exact List.getElem?_set_ne hne.symm

theorem Fine.Inv.begin (h : f.Inv) {i : Nat} {now : DateTime}
    (hs : f.step build (.begin i now) = some f') : f'.Inv ∧ f'.sys = f.sys := by
  simp only [Fine.step] at hs
  cases hp : f.sys.placing? i with
  | none => simp [hp] at hs
  | some r =>
    obtain ⟨call, w⟩ := r
    simp only [hp, Option.map_eq_some_iff] at hs
    obtain ⟨store, hstore, rfl⟩ := hs
    have hserial := Store.Serial.begin h.serial hstore
    obtain ⟨-, -, -, bet, priced, points, rfl⟩ := Sys.placing?_some hp
    unfold Store.begin at hstore
    split at hstore
    · simp at hstore
    · simp only [Option.some.injEq] at hstore
      subst hstore
      refine ⟨⟨h.wf, hserial, fun j tx htx => ?_⟩, rfl⟩
      by_cases hj : j = i
      · subst hj
        simp only [Function.update_self, Option.some.injEq] at htx
        subst htx
        exact ⟨call, bet, priced, points, hp, rfl, rfl⟩
      · have hkept : f.store.tx j = some tx := by simpa [hj] using htx
        exact h.opened j tx hkept

theorem Fine.Inv.exec (h : f.Inv) {i : Nat} (hs : f.step build (.exec i) = some f') :
    f'.Inv ∧ (f'.sys = f.sys ∨ ∃ env, (f.sys.placing? i).isSome ∧
      f.sys.step build (.step i env) = some f'.sys) := by
  simp only [Fine.step] at hs
  cases hp : f.sys.placing? i with
  | none => simp [hp] at hs
  | some r =>
    obtain ⟨call, w⟩ := r
    cases ha : f.store.advance pg i with
    | none => simp [hp, ha] at hs
    | some r =>
      obtain ⟨store, result⟩ := r
      have hserial := Store.Serial.advance h.serial ha
      obtain ⟨tx, st, htx, -, hcases⟩ := Store.advance_cases ha
      obtain ⟨call', bet, priced, points, hp', hprog, hstart⟩ := h.opened i tx htx
      obtain ⟨rfl, rfl⟩ : call' = call ∧ .place bet priced points = w := by
        simpa [hp] using hp'.symm
      cases result with
      | none =>
        simp only [hp, ha, Option.some.injEq] at hs
        subst hs
        rcases hcases with ⟨e, -, heq⟩ | ⟨ws, vars, -, -, heq⟩
        · simp at heq
        · simp only [Prod.mk.injEq, and_true] at heq
          subst heq
          refine ⟨⟨h.wf, hserial, fun j t ht => ?_⟩, .inl rfl⟩
          by_cases hj : j = i
          · subst hj
            simp only [Function.update_self, Option.some.injEq] at ht
            subst ht
            exact ⟨call', bet, priced, points, hp, hprog, hstart⟩
          · have hkept : f.store.tx j = some t := by simpa [hj] using ht
            exact h.opened j t hkept
      | some e =>
        simp only [hp, ha, Option.some.injEq] at hs
        subst hs
        obtain ⟨rfl, hfail⟩ := h.serial.advance_error htx ha
        have hvars : (envAt tx.start).txVars = tx.start := by
          simp [envAt, Env.txVars, ← hstart]
        have hstep : f.sys.step build (.step i (envAt tx.start)) =
            some (f.sys.setCall i (call'.written (.error e))) := by
          refine Sys.step_placing_error hp ?_
          rw [hvars, Write.program, ← hprog]
          exact hfail
        refine ⟨⟨h.wf.effect (Sys.step_effect hstep), hserial, ?_⟩, .inr ⟨_, rfl, hstep⟩⟩
        exact h.opened_set (by simp [Store.abort])
          (fun j hj => by simp [Store.abort, Fine.store, hj]) f.sys.db f.sys.log

theorem Fine.Inv.commit (h : f.Inv) {i : Nat} (hs : f.step build (.commit i) = some f') :
    f'.Inv ∧ ∃ env, (f.sys.placing? i).isSome ∧
      f.sys.step build (.step i env) = some f'.sys := by
  simp only [Fine.step] at hs
  cases hp : f.sys.placing? i with
  | none => simp [hp] at hs
  | some r =>
    obtain ⟨call, w⟩ := r
    cases hc : f.store.commit pg i with
    | none => simp [hp, hc] at hs
    | some store =>
      simp only [hp, hc, Option.some.injEq] at hs
      subst hs
      obtain ⟨tx, htx, hpc, hstore⟩ := Store.commit_cases hc
      obtain ⟨call', bet, priced, points, hp', hprog, hstart⟩ := h.opened i tx htx
      obtain ⟨rfl, rfl⟩ : call' = call ∧ .place bet priced points = w := by
        simpa [hp] using hp'.symm
      obtain ⟨happly, hrun⟩ := h.serial.commit_atomically htx hc
      have hvars : (envAt tx.start).txVars = tx.start := by
        simp [envAt, Env.txVars, ← hstart]
      have hwhole : pg.atomically (Write.place bet priced points).program (envAt tx.start).txVars
          f.sys.db = .ok store.db := by
        rw [hvars, Write.program, ← hprog]
        exact hrun
      have hstep : f.sys.step build (.step i (envAt tx.start)) = some _ :=
        Sys.step_placing_ok hp hwhole
      obtain ⟨hcall, hwrite, -⟩ := Sys.placing?_some hp
      obtain ⟨-, hdone⟩ := h.wf.done hcall (hwrite _) hwhole
      have hpaid : Locked tx.writes (.user bet.userId) := by
        refine debit_locks hprog ?_ (h.serial.faithful i tx htx)
        rw [hpc, hprog]
        simp [placeProgram]
      refine ⟨⟨h.wf.effect (Sys.step_effect hstep), ?_, ?_⟩, _, rfl, hstep⟩
      · refine Store.Serial.commit h.serial (fun j t hj ht => ?_) hc
        refine h.undisturbed hdone happly ?_ ht ?_
        · rintro other priced' points' heq
          cases heq
          exact hpaid
        · rintro v hv k hk ⟨u, hu, huk⟩
          exact h.serial.disjoint hj.symm htx ht hv hu hk huk
      · subst hstore
        exact h.opened_set (by simp) (fun j hj => by simp [Fine.store, hj]) _ _

theorem Fine.Inv.abort (h : f.Inv) {i : Nat} {message : String}
    (hs : f.step build (.abort i message) = some f') :
    f'.Inv ∧ f.sys.step build (.fail i message) = some f'.sys := by
  simp only [Fine.step] at hs
  split at hs
  · rename_i call w tx hp htx
    cases hs
    have hstep : f.sys.step build (.fail i message) = some _ := Sys.step_placing_fail hp message
    refine ⟨⟨h.wf.effect (Sys.step_effect hstep), h.serial.abort i, ?_⟩, hstep⟩
    exact h.opened_set (by simp [Store.abort])
      (fun j hj => by simp [Store.abort, Fine.store, hj]) f.sys.db f.sys.log
  · simp at hs

/-- A statement changes nothing a reader sees; a commit, an error or an abort is one
action of the system with whole transactions. -/
theorem Fine.simulates (h : f.Inv) {b : FineAct} (hs : f.step build b = some f') :
    f'.Inv ∧ f.Matched build b f' := by
  have hquiet : ∀ {i : Nat} (env : Env), (f.sys.placing? i).isSome →
      Betsphere.PricingFits f.sys (.step i env) := by
    intro i env hp backed hb
    obtain ⟨r, hr⟩ := Option.isSome_iff_exists.mp hp
    simp [Sys.pricing?_placing hr] at hb
  cases b with
  | act a =>
    obtain ⟨hinv, hstep⟩ := h.act hs
    exact ⟨hinv, Fine.matched_one hstep fun hfits => hfits⟩
  | begin i now =>
    obtain ⟨hinv, hsame⟩ := h.begin hs
    exact ⟨hinv, Fine.matched_none _ hsame⟩
  | exec i =>
    obtain ⟨hinv, hsame | ⟨env, hp, hstep⟩⟩ := h.exec hs
    · exact ⟨hinv, Fine.matched_none _ hsame⟩
    · exact ⟨hinv, Fine.matched_one hstep fun _ => hquiet env hp⟩
  | commit i =>
    obtain ⟨hinv, env, hp, hstep⟩ := h.commit hs
    exact ⟨hinv, Fine.matched_one hstep fun _ => hquiet env hp⟩
  | abort i message =>
    obtain ⟨hinv, hstep⟩ := h.abort hs
    refine ⟨hinv, Fine.matched_one hstep fun _ => ?_⟩
    simp [Betsphere.PricingFits, Sys.pricing?]

end Simulation

theorem Fine.inv_init : Fine.init.Inv where
  wf := Sys.wf_init
  serial := Store.serial_closed _
  opened := by simp [Fine.init]

theorem Fine.run_sys {build : Build} {bs : List FineAct} {f : Fine}
    (h : Transition.run (Fine.step build) Fine.init bs = some f) :
    ∃ as, Transition.run (Sys.step build) Sys.init as = some f.sys := by
  have hsim : ∀ g b g', g.Inv → True → Fine.step build g b = some g' → g'.Inv ∧
      ∃ as, Transition.run (Sys.step build) g.sys as = some g'.sys ∧
        Transition.Guarded (Sys.step build) (fun _ _ => True) g.sys as := by
    intro g b g' hi _ hs
    obtain ⟨hi', as, has, -⟩ := Fine.simulates hi hs
    exact ⟨hi', as, has, Transition.guarded_true _ _⟩
  obtain ⟨-, as, has, -⟩ := Transition.run_simulates hsim Fine.inv_init
    (Transition.guarded_true Fine.init bs) h
  exact ⟨as, has⟩

theorem Fine.run_fits {build : Build} {bs : List FineAct} {f : Fine}
    (h : Transition.run (Fine.step build) Fine.init bs = some f)
    (hg : Transition.Guarded (Fine.step build) Fine.PricingFits Fine.init bs) :
    ∃ as, Transition.run (Sys.step build) Sys.init as = some f.sys ∧
      Transition.Guarded (Sys.step build) Betsphere.PricingFits Sys.init as := by
  have hsim : ∀ g b g', g.Inv → g.PricingFits b → Fine.step build g b = some g' → g'.Inv ∧
      ∃ as, Transition.run (Sys.step build) g.sys as = some g'.sys ∧
        Transition.Guarded (Sys.step build) Betsphere.PricingFits g.sys as := by
    intro g b g' hi hfits hs
    obtain ⟨hi', as, has, hguard⟩ := Fine.simulates hi hs
    exact ⟨hi', as, has, hguard hfits⟩
  exact (Transition.run_simulates hsim Fine.inv_init hg h).2

namespace Sample

def fine (bs : List FineAct) : Fine :=
  (Transition.run (Fine.step .debug) Fine.init bs).getD Fine.init

theorem run_fine {bs : List FineAct}
    (h : (Transition.run (Fine.step .debug) Fine.init bs).isSome) :
    Transition.run (Fine.step .debug) Fine.init bs = some (fine bs) := by
  obtain ⟨f, hf⟩ := Option.isSome_iff_exists.mp h
  simp [fine, hf]

def execs (i n : Nat) : List FineAct := List.replicate n (.exec i)

/-- Two first bets of alice and one of bob, all priced from the empty board and with
their transactions open. -/
def firstBets : List FineAct :=
  (opening ++ [bet ⟨1⟩ ⟨101⟩ 50, bet ⟨1⟩ ⟨102⟩ 30, bet ⟨2⟩ ⟨102⟩ 20] ++ steps 1 6 200 ++
    steps 2 4 300 ++ steps 3 6 400).map .act ++ [.begin 1 2, .begin 2 2, .begin 3 2]

/-- Bob's first three statements run inside alice's first transaction; her second waits
for the lock on her row. -/
def tangled : List FineAct :=
  firstBets ++ [.exec 1, .exec 3, .exec 1, .exec 3, .exec 1, .exec 3] ++ execs 1 8 ++
    [.commit 1, .exec 3, .exec 2, .exec 2, .exec 2] ++ execs 3 7 ++ [.commit 3] ++
    execs 2 8 ++ [.commit 2]

end Sample

/-- Every market counts its bettors exactly, however the statements of the placements
interleave: of two first bets of one user the second waits at the debit. -/
theorem participants_exact {build : Build} {bs : List FineAct} {f : Fine}
    (h : Transition.run (Fine.step build) Fine.init bs = some f) : f.sys.db.ParticipantsExact := by
  obtain ⟨as, has⟩ := Fine.run_sys h
  exact Sys.participants_run has

theorem participants_exact_tangled :
    (Fine.step .debug (Sample.fine (Sample.firstBets ++ [.exec 1])) (.exec 2)).isNone ∧
      (∀ i ∈ [1, 2, 3], ((Sample.fine Sample.tangled).tx i).isNone) ∧
      (Sample.fine Sample.tangled).sys.db.bets.rows.length = 3 ∧
      (Sample.fine Sample.tangled).sys.db.ParticipantsExact := by
  refine ⟨by decide +kernel, by decide +kernel, by decide +kernel, ?_⟩
  exact participants_exact (Sample.run_fine (by decide +kernel))

end Betsphere
