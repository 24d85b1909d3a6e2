import Betsphere.System.Copies
set_option autoImplicit false

namespace Betsphere
open MachineInt

def Solvent (u : User) : Prop := 0 ≤ u.balance

theorem credit_solvent {u u' : User} {amount : Int} {now : DateTime} (hu : Solvent u)
    (h : u.credit amount now = .ok u') : Solvent u' := by
  unfold User.credit at h
  split at h
  · simp at h
  · rename_i hpos
    cases h
    unfold Solvent saturatingAdd at *
    refine saturate64_nonneg ?_
    omega

theorem edits_solvent : EditsKeep Solvent where
  setRole _ _ _ hu := hu
  setAvatarUrl _ _ _ hu := hu
  credit _ _ _ _ := credit_solvent

theorem placed_solvent {db : Db} {bet : Bet} {priced : List Outcome} {points : List PricePoint}
    {now : DateTime} (hen : PlaceEnabled db bet priced points)
    (h : ∀ u ∈ db.users.rows, Solvent u) :
    ∀ u ∈ (db.placed bet priced points now).users.rows, Solvent u := by
  intro u' hu'
  obtain ⟨payer, hpayer, hcovered⟩ := hen.covered
  simp only [Db.placed, Db.debit, Table.rows_modify, List.mem_map] at hu'
  obtain ⟨u, hu, rfl⟩ := hu'
  by_cases hid : u.id = bet.userId
  · have hsame : u = payer :=
      Table.eq_of_key hu (Table.find?_mem hpayer) (hid.trans (Table.find?_key hpayer).symm)
    subst hsame
    simp only [hid, if_true, Solvent]
    omega
  · simpa only [hid, if_false] using h u hu

theorem credits_nonneg {settled : List Bet} {winner : OutcomeId}
    (h : ∀ s ∈ settled, s.SettledOn winner) (userId : UserId) : 0 ≤ credits settled userId := by
  refine List.sum_nonneg fun x hx => ?_
  obtain ⟨s, hs, rfl⟩ := List.mem_map.mp hx
  have hpayout := (h s (List.mem_filter.mp hs).1).payout
  have hwin := s.winnings_nonneg
  rw [hpayout]
  split
  · exact hwin
  · exact Int.le_refl 0

theorem paidRow_solvent {settled : List Bet} {winner : OutcomeId} {now : DateTime} {u : User}
    (h : ∀ s ∈ settled, s.SettledOn winner) (hu : Solvent u) : Solvent (paidRow settled now u) := by
  have hc := credits_nonneg h u.id
  unfold paidRow
  split
  · unfold Solvent at *
    simp only
    omega
  · exact hu

theorem saved_solvent {db : Db} {user : User} (h : ∀ u ∈ db.users.rows, Solvent u)
    (huser : Solvent user) : ∀ u ∈ (db.saved user).users.rows, Solvent u := by
  intro u hu
  rcases Table.mem_upsert.mp hu with rfl | ⟨hu, -⟩
  · unfold Solvent at *
    rw [savedRow_balance]
    exact huser
  · exact h u hu

theorem Write.Done.solvent {db db' : Db} {w : Write} {now : DateTime} (hok : w.Ok db)
    (h : w.Done db now db') (hsave : ∀ cause user, w = .save cause user → Solvent user)
    (hdb : ∀ u ∈ db.users.rows, Solvent u) : ∀ u ∈ db'.users.rows, Solvent u := by
  cases h with
  | create market outcomes at' hen => exact hdb
  | place bet priced points hen => exact placed_solvent hen hdb
  | settle market settled hin =>
    intro u hu
    obtain ⟨r, hr, rfl⟩ := List.mem_map.mp hu
    obtain ⟨-, -, -, winner, -, -, hall⟩ := hok
    exact paidRow_solvent (fun s hs => (hall s hs).2.1) (hdb r hr)
  | save cause user hun => exact saved_solvent hdb (hsave cause user rfl)

theorem new_solvent (id : UserId) (username : Username) (email : Email) (hash : PasswordHash)
    (now : DateTime) : Solvent (User.new id username email hash now) := by
  simp [Solvent, User.new, User.startingBalance]

theorem Sys.solvent_run {build : Build} {as : List Act} {s : Sys}
    (h : Transition.run (Sys.step build) Sys.init as = some s) : s.AllCopies Solvent := by
  have hstep : ∀ t a t', t.Wf ∧ t.AllCopies Solvent → Sys.step build t a = some t' →
      t'.Wf ∧ t'.AllCopies Solvent := by
    rintro t a t' ⟨hwf, hsol⟩ hs
    have he := Sys.step_effect hs
    refine ⟨hwf.effect he, hsol.effect edits_solvent (fun _ hu => hu) ?_ he⟩
    rcases hwf.commits he with ⟨hdb, -⟩ | ⟨w, now, hok, hdone, -, hc⟩
    · rw [hdb]
      exact hsol.stored
    · exact hdone.solvent hok (fun _ _ hw => hsol.saved new_solvent hc hw) hsol.stored
  have hinit : Sys.init.Wf ∧ Sys.init.AllCopies Solvent :=
    ⟨Sys.wf_init, by simp [Sys.init, Db.empty], by simp [Sys.init, Cache.empty], by simp [Sys.init]⟩
  exact (Transition.run_invariant' hstep hinit h).2

theorem exec_debit_uncovered {db : Db} {userId : UserId} {amount : Int} (vars : TxVars)
    (h : ∀ u, db.userById userId = some u → u.balance < amount) :
    pg.exec (.debit userId amount) vars db = .error stakeNotCovered := by
  cases hu : db.userById userId with
  | none => simp [Statement.exec, hu]
  | some u =>
    have hlt := h u hu
    have hnot : ¬amount ≤ u.balance := by omega
    simp [Statement.exec, hu, hnot]

theorem place_uncovered {db : Db} {bet : Bet} (priced : List Outcome) (points : List PricePoint)
    (vars : TxVars) (h : ∀ u, db.userById bet.userId = some u → u.balance < bet.amount) :
    pg.atomically (Write.place bet priced points).program vars db = .error stakeNotCovered := by
  have hexec := exec_debit_uncovered vars h
  simp only [Write.program, placeProgram, List.cons_append, List.nil_append,
    RowLock.Dialect.atomically, RowLock.Dialect.collect, hexec]

/-- A transaction whose debit statement meets a balance below the stake: what it wrote
so far is dropped with it, and the committed tables stay. -/
theorem advance_uncovered {τ : Type} [DecidableEq τ]
    {store : RowLock.Store Db Statement RowVersion RowKey TxVars τ} {t : τ}
    {tx : RowLock.Tx Statement RowVersion TxVars} {userId : UserId} {amount : Int}
    (htx : store.tx t = some tx) (hpc : tx.prog[tx.pc]? = some (.debit userId amount))
    (h : ∀ u, (pg.apply tx.writes store.db).userById userId = some u → u.balance < amount) :
    store.advance pg t = some (store.abort t, some stakeNotCovered) := by
  have hexec := exec_debit_uncovered tx.vars h
  simp only [RowLock.Store.advance, htx, hpc, hexec]

/-- No interleaving of placements, settlements and whole-row saves makes a balance
negative, and a stake above the balance changes no table. -/
theorem balances_nonneg {build : Build} {as : List Act} {s : Sys}
    (h : Transition.run (Sys.step build) Sys.init as = some s) :
    (∀ u ∈ s.db.users.rows, 0 ≤ u.balance) ∧
    (∀ i env call bet priced points, s.calls[i]? = some (.running call) →
      call.write? env = some (.place bet priced points) →
      (∀ u, s.db.userById bet.userId = some u → u.balance < bet.amount) →
      ∃ s', s.step build (.step i env) = some s' ∧ s'.db = s.db ∧
        s'.calls[i]? = some (.returned call.request
          (.error (.conflict "balance no longer covers the stake")))) ∧
    ∀ (store : RowLock.Store Db Statement RowVersion RowKey TxVars Nat) t tx userId amount,
      store.tx t = some tx → tx.prog[tx.pc]? = some (.debit userId amount) →
      (∀ u, (pg.apply tx.writes store.db).userById userId = some u → u.balance < amount) →
      ∃ store', store.advance pg t = some (store',
        some (.conflict "balance no longer covers the stake")) ∧ store'.db = store.db := by
  refine ⟨(Sys.solvent_run h).stored, ?_, ?_⟩
  · intro i env call bet priced points hcall hwrite hlow
    have hplace := place_uncovered priced points env.txVars hlow
    refine ⟨s.setCall i (call.written (.error stakeNotCovered)), ?_, rfl, ?_⟩
    · simp only [Sys.step, hcall, Sys.stepCall, hwrite, hplace]
    · have hlt : i < s.calls.length := (List.getElem?_eq_some_iff.mp hcall).1
      have hslot : call.written (.error stakeNotCovered) =
          .returned call.request (.error (.conflict "balance no longer covers the stake")) := by
        cases call with
        | placeBet actor input phase =>
          cases phase <;> simp [Call.write?, PlaceBet.write?] at hwrite
          rfl
        | createMarket actor input prepared => simp [Call.write?, CreateMarket.write?] at hwrite
        | resolveMarket actor marketId winner phase =>
          cases phase <;> simp [Call.write?, ResolveMarket.write?] at hwrite
        | profile job phase => cases phase <;> simp [Call.write?, ProfileJob.write?] at hwrite
      simp [Sys.setCall, hlt, hslot]
  · intro store t tx userId amount htx hpc hlow
    exact ⟨store.abort t, advance_uncovered htx hpc hlow, rfl⟩

theorem balances_nonneg_overlap :
    (Sample.state Sample.overlap).db.users.rows.map User.balance = [10050, 9970] ∧
      (Sample.state Sample.overlap).db.users.rows.all fun u => 0 ≤ u.balance := by
  have hrun : Transition.run (Sys.step .debug) Sys.init Sample.overlap = some _ :=
    Sample.run_state (by decide +kernel)
  have hall := (balances_nonneg hrun).1
  exact ⟨by decide +kernel, by simpa using hall⟩

end Betsphere
