import Betsphere.Postgres.Growth
set_option autoImplicit false

/-!
Why the statements a placement has run so far cannot tell what another transaction
commits meanwhile: each of them read rows it then locked, or rows that never vanish; the
EXISTS check looks at bets of a user whose row the debit before it has locked.
-/

namespace Betsphere
open MachineInt RowLock

namespace Db

def row (db : Db) : RowKey → Option RowVersion
  | .user id => (db.userById id).map .user
  | .market id => (db.marketById id).map .market
  | .outcome id => (db.outcomeById id).map .outcome
  | .bet id => (db.bets.find? id).map .bet

end Db

theorem row_write (v : RowVersion) (db : Db) (k : RowKey) :
    (v.write db).row k = if v.key = some k then some v else db.row k := by
  cases v with
  | user u =>
    cases k with
    | user id =>
      simp only [Db.row, RowVersion.write, Db.userById, Table.find?_upsert, RowVersion.key,
        Option.some.injEq, RowKey.user.injEq]
      split <;> rfl
    | _ => simp [Db.row, RowVersion.write, RowVersion.key, Db.marketById, Db.outcomeById]
  | market m =>
    cases k with
    | market id =>
      simp only [Db.row, RowVersion.write, Db.marketById, Table.find?_upsert, RowVersion.key,
        Option.some.injEq, RowKey.market.injEq]
      split <;> rfl
    | _ => simp [Db.row, RowVersion.write, RowVersion.key, Db.userById, Db.outcomeById]
  | outcome o =>
    cases k with
    | outcome id =>
      simp only [Db.row, RowVersion.write, Db.outcomeById, Table.find?_upsert, RowVersion.key,
        Option.some.injEq, RowKey.outcome.injEq]
      split <;> rfl
    | _ => simp [Db.row, RowVersion.write, RowVersion.key, Db.userById, Db.marketById]
  | bet b =>
    cases k with
    | bet id =>
      simp only [Db.row, RowVersion.write, Table.find?_upsert, RowVersion.key,
        Option.some.injEq, RowKey.bet.injEq]
      split <;> rfl
    | _ => simp [Db.row, RowVersion.write, RowVersion.key, Db.userById, Db.marketById,
        Db.outcomeById]
  | pricePoint p => simp [Db.row, RowVersion.write, RowVersion.key, Db.userById, Db.marketById,
      Db.outcomeById]
  | event e => simp [Db.row, RowVersion.write, RowVersion.key, Db.userById, Db.marketById,
      Db.outcomeById]

theorem atomically_rows {prog : List Statement} {vars : TxVars} {db db' : Db}
    (h : pg.atomically prog vars db = .ok db') :
    ∃ ws l, pg.collect prog vars db = .ok (ws, l) ∧ db' = pg.apply ws db := by
  unfold Dialect.atomically at h
  cases hc : pg.collect prog vars db with
  | error e => simp [hc] at h
  | ok r =>
    simp only [hc, Except.ok.injEq] at h
    exact ⟨r.1, r.2, rfl, h.symm⟩

theorem atomically_refused {prog : List Statement} {vars : TxVars} {db : Db} {e : RepositoryError}
    (h : pg.atomically prog vars db = .error e) : pg.collect prog vars db = .error e := by
  unfold Dialect.atomically at h
  cases hc : pg.collect prog vars db with
  | error e' => simpa [hc] using h
  | ok r => simp [hc] at h

theorem row_apply_of_not_written {ws : List RowVersion} {k : RowKey}
    (h : ∀ w ∈ ws, w.key ≠ some k) (db : Db) : (pg.apply ws db).row k = db.row k := by
  induction ws generalizing db with
  | nil => rfl
  | cons w ws ih =>
    rw [Dialect.apply_cons, ih (fun v hv => h v (by simp [hv])), pg_write, row_write,
      if_neg (h w (by simp))]

theorem row_apply_isSome (ws : List RowVersion) {k : RowKey} {db : Db}
    (h : (db.row k).isSome) : ((pg.apply ws db).row k).isSome := by
  induction ws generalizing db with
  | nil => exact h
  | cons w ws ih =>
    rw [Dialect.apply_cons]
    refine ih ?_
    rw [pg_write, row_write]
    split
    · rfl
    · exact h

theorem userById_of_row {db db' : Db} {id : UserId} (h : db'.row (.user id) = db.row (.user id)) :
    db'.userById id = db.userById id :=
  Option.map_injective (fun _ _ heq => RowVersion.user.inj heq) h

theorem marketById_of_row {db db' : Db} {id : MarketId}
    (h : db'.row (.market id) = db.row (.market id)) : db'.marketById id = db.marketById id :=
  Option.map_injective (fun _ _ heq => RowVersion.market.inj heq) h

theorem outcomeById_of_row {db db' : Db} {id : OutcomeId}
    (h : db'.row (.outcome id) = db.row (.outcome id)) : db'.outcomeById id = db.outcomeById id :=
  Option.map_injective (fun _ _ heq => RowVersion.outcome.inj heq) h

theorem betById_of_row {db db' : Db} {id : BetId} (h : db'.row (.bet id) = db.row (.bet id)) :
    db'.bets.find? id = db.bets.find? id :=
  Option.map_injective (fun _ _ heq => RowVersion.bet.inj heq) h

def Locked (ws : List RowVersion) (k : RowKey) : Prop := ∃ w ∈ ws, w.key = some k

/-- Two versions of the tables that the statements of a placement on its locked rows
cannot tell apart. -/
structure Agrees (bet : Bet) (priced : List Outcome) (us : List RowVersion) (v v' : Db) : Prop where
  rows : ∀ k, Locked us k → v'.row k = v.row k
  known : ∀ k, (v.row k).isSome → (v'.row k).isSome
  repeats : Locked us (.user bet.userId) →
    v'.hasBet bet.userId bet.marketId = v.hasBet bet.userId bet.marketId
  outcomes : ∀ p ∈ priced, (v.row (.outcome p.id)).isSome
  market : (v.row (.market bet.marketId)).isSome

section Congruence
variable {bet : Bet} {priced : List Outcome} {us : List RowVersion} {v v' : Db}

theorem Agrees.write (h : Agrees bet priced us v v') (w : RowVersion)
    (hrepeats : Locked us (.user bet.userId) →
      (w.write v').hasBet bet.userId bet.marketId = (w.write v).hasBet bet.userId bet.marketId) :
    Agrees bet priced us (pg.apply [w] v) (pg.apply [w] v') := by
  change Agrees bet priced us (w.write v) (w.write v')
  have hsome : ∀ k, (v.row k).isSome → ((w.write v).row k).isSome := by
    intro k hk
    rw [row_write]
    split
    · rfl
    · exact hk
  refine ⟨fun k hk => ?_, fun k hk => ?_, hrepeats, fun p hp => hsome _ (h.outcomes p hp),
    hsome _ h.market⟩
  · rw [row_write, row_write, h.rows k hk]
  · rw [row_write] at hk ⊢
    by_cases hw : w.key = some k
    · simp [hw]
    · simp only [hw, if_false] at hk ⊢
      exact h.known k hk

theorem Agrees.write_other (h : Agrees bet priced us v v') {w : RowVersion}
    (hbets : ∀ db : Db, (w.write db).bets = db.bets) :
    Agrees bet priced us (pg.apply [w] v) (pg.apply [w] v') := by
  refine h.write w fun hpaid => ?_
  have hsame : ∀ db : Db, (w.write db).hasBet bet.userId bet.marketId =
      db.hasBet bet.userId bet.marketId := by
    intro db
    simp only [Db.hasBet, hbets]
  rw [hsame, hsame]
  exact h.repeats hpaid

theorem Agrees.insertError (h : Agrees bet priced us v v') (hbet : Locked us (.bet bet.id))
    (hins : bet.insertError v = none) : bet.insertError v' = none := by
  obtain ⟨hfresh, ⟨u, hu⟩, ⟨m, hm⟩, ⟨o, ho⟩⟩ := insertError_none hins
  have hfresh' := betById_of_row (h.rows _ hbet)
  have huser := h.known (.user bet.userId) (by simp [Db.row, hu])
  have hmarket := h.known (.market bet.marketId) (by simp [Db.row, hm])
  have houtcome := h.known (.outcome bet.outcomeId) (by simp [Db.row, ho])
  simp only [Db.row, Option.isSome_map] at huser hmarket houtcome
  obtain ⟨u', hu'⟩ := Option.isSome_iff_exists.mp huser
  obtain ⟨m', hm'⟩ := Option.isSome_iff_exists.mp hmarket
  obtain ⟨o', ho'⟩ := Option.isSome_iff_exists.mp houtcome
  simp [Bet.insertError, hfresh', hfresh, hu', hm', ho']

theorem hasBet_insert {db : Db} (hfresh : db.bets.find? bet.id = none) (userId : UserId)
    (marketId : MarketId) :
    ((RowVersion.bet bet).write db).hasBet userId marketId =
      (db.hasBet userId marketId || (bet.userId = userId && bet.marketId = marketId)) := by
  simp [Db.hasBet, RowVersion.write, Table.rows_upsert_fresh hfresh]

theorem Agrees.exec {points : List PricePoint} {st : Statement}
    (hst : st ∈ placeProgram bet priced points) (hpaid : Locked us (.user bet.userId))
    (h : Agrees bet priced us v v') {m m' : TxVars} {ws : List RowVersion} (hsub : ws ⊆ us)
    (he : pg.exec st m v = .ok (ws, m')) :
    pg.exec st m v' = .ok (ws, m') ∧ Agrees bet priced us (pg.apply ws v) (pg.apply ws v') := by
  simp only [placeProgram, List.mem_append, List.mem_cons, List.mem_map, List.not_mem_nil,
    or_false] at hst
  simp only [pg_exec] at he ⊢
  rcases hst with ((((rfl | rfl | rfl) | ⟨p, hp, rfl⟩) | rfl) | ⟨p, hp, rfl⟩) | rfl | rfl | rfl
  · have hsame := userById_of_row (h.rows _ hpaid)
    simp only [Statement.exec, hsame] at he ⊢
    refine ⟨he, ?_⟩
    split at he
    · simp at he
    · split at he
      · simp only [Except.ok.injEq, Prod.mk.injEq] at he
        rw [← he.1]
        exact h.write_other fun _ => rfl
      · simp at he
  · simp only [Statement.exec, Except.ok.injEq, Prod.mk.injEq] at he ⊢
    rw [h.repeats hpaid]
    refine ⟨he, ?_⟩
    rw [← he.1]
    exact h
  · cases hins : bet.insertError v with
    | some e => simp [Statement.exec, hins] at he
    | none =>
      simp only [Statement.exec, hins, Except.ok.injEq, Prod.mk.injEq] at he
      obtain ⟨rfl, rfl⟩ := he
      have hbet : Locked us (.bet bet.id) := ⟨_, hsub List.mem_cons_self, rfl⟩
      have hins' := h.insertError hbet hins
      refine ⟨by simp [Statement.exec, hins'], h.write _ fun _ => ?_⟩
      rw [hasBet_insert (insertError_none hins).1, hasBet_insert (insertError_none hins').1,
        h.repeats hpaid]
  · obtain ⟨o, ho⟩ := Option.isSome_iff_exists.mp (h.outcomes p hp)
    obtain ⟨row, hrow, -⟩ := Option.map_eq_some_iff.mp ho
    generalize (if p.id = bet.outcomeId then bet.amount else 0) = staked at he ⊢
    by_cases hin : InI64 (row.volume + staked)
    · simp only [Statement.exec, hrow, hin, if_true, Except.ok.injEq, Prod.mk.injEq] at he
      obtain ⟨rfl, rfl⟩ := he
      have hid : row.id = p.id := Table.find?_key hrow
      have hlocked : Locked us (.outcome p.id) :=
        ⟨_, hsub List.mem_cons_self, by simp [RowVersion.key, hid]⟩
      have hsame := outcomeById_of_row (h.rows _ hlocked)
      exact ⟨by simp [Statement.exec, hsame, hrow, hin], h.write_other fun _ => rfl⟩
    · simp [Statement.exec, hrow, hin] at he
  · obtain ⟨o, ho⟩ := Option.isSome_iff_exists.mp h.market
    obtain ⟨row, hrow, -⟩ := Option.map_eq_some_iff.mp ho
    have hid : row.id = bet.marketId := Table.find?_key hrow
    by_cases h₁ : InI64 (row.totalVolume + bet.amount)
    · by_cases h₂ : InI32 (row.participantsCount + if m.repeatBettor then 0 else 1)
      · simp only [Statement.exec, hrow, h₁, h₂, not_true_eq_false, if_false, Except.ok.injEq,
          Prod.mk.injEq] at he
        obtain ⟨rfl, rfl⟩ := he
        have hlocked : Locked us (.market bet.marketId) :=
          ⟨_, hsub List.mem_cons_self, by simp [RowVersion.key, hid]⟩
        have hsame := marketById_of_row (h.rows _ hlocked)
        exact ⟨by simp [Statement.exec, hsame, hrow, h₁, h₂], h.write_other fun _ => rfl⟩
      · simp [Statement.exec, hrow, h₁, h₂] at he
    · simp [Statement.exec, hrow, h₁] at he
  · cases ho : v.outcomeById p.outcomeId with
    | none => simp [Statement.exec, ho] at he
    | some o =>
      simp only [Statement.exec, ho, Except.ok.injEq, Prod.mk.injEq] at he
      obtain ⟨rfl, rfl⟩ := he
      have hknown := h.known (.outcome p.outcomeId) (by simp [Db.row, ho])
      simp only [Db.row, Option.isSome_map] at hknown
      obtain ⟨o', ho'⟩ := Option.isSome_iff_exists.mp hknown
      exact ⟨by simp [Statement.exec, ho'], h.write_other fun _ => rfl⟩
  all_goals
    simp only [Statement.exec, Except.ok.injEq, Prod.mk.injEq] at he ⊢
    obtain ⟨rfl, rfl⟩ := he
    exact ⟨⟨rfl, rfl⟩, h.write_other fun _ => rfl⟩

end Congruence

theorem debit_locks {db : Db} {bet : Bet} {priced : List Outcome} {points : List PricePoint}
    {tx : Tx Statement RowVersion TxVars} (hprog : tx.prog = placeProgram bet priced points)
    (hpc : tx.pc ≠ 0) (hf : tx.Faithful pg db) : Locked tx.writes (.user bet.userId) := by
  obtain ⟨n, hn⟩ := Nat.exists_eq_succ_of_ne_zero hpc
  unfold Tx.Faithful at hf
  rw [hn, hprog] at hf
  simp only [placeProgram, List.cons_append, List.take_succ_cons] at hf
  obtain ⟨ws, l', vs, he, -, hwrites⟩ := Dialect.collect_cons_ok hf
  cases hu : db.userById bet.userId with
  | none => simp [Statement.exec, hu] at he
  | some u =>
    by_cases ha : bet.amount ≤ u.balance
    · simp only [pg_exec, Statement.exec, hu, ha, if_true, Except.ok.injEq, Prod.mk.injEq] at he
      have hid : u.id = bet.userId := Table.find?_key hu
      refine ⟨.user { u with balance := u.balance - bet.amount, updatedAt := tx.start.now }, ?_,
        by simp [RowVersion.key, hid]⟩
      rw [hwrites, ← he.1]
      simp
    · simp [Statement.exec, hu, ha] at he

/-- What a placement has run so far would have run the same way on tables that differ
only where it has not looked. -/
theorem placement_stable {db db' : Db} {bet : Bet} {priced : List Outcome}
    {points : List PricePoint} {tx : Tx Statement RowVersion TxVars}
    (hprog : tx.prog = placeProgram bet priced points)
    (hok : (Write.place bet priced points).Ok db) (hf : tx.Faithful pg db)
    (hrows : ∀ k, Locked tx.writes k → db'.row k = db.row k)
    (hknown : ∀ k, (db.row k).isSome → (db'.row k).isSome)
    (hrepeats : Locked tx.writes (.user bet.userId) →
      db'.hasBet bet.userId bet.marketId = db.hasBet bet.userId bet.marketId) :
    tx.Faithful pg db' := by
  by_cases hpc : tx.pc = 0
  · unfold Tx.Faithful at hf ⊢
    rw [hpc, List.take_zero] at hf ⊢
    exact hf
  · have hpaid := debit_locks hprog hpc hf
    obtain ⟨⟨m, hm⟩, hids, -⟩ := hok
    have hstart : Agrees bet priced tx.writes db db' := by
      refine ⟨hrows, hknown, hrepeats, fun p hp => ?_, by simp [Db.row, hm]⟩
      have hmem : p.id ∈ db.outcomeIds bet.marketId := hids ▸ List.mem_map_of_mem hp
      obtain ⟨o, ho, hoid⟩ := List.mem_map.mp hmem
      have hfind : db.outcomeById o.id = some o :=
        Table.find?_of_mem (Db.mem_outcomesFor.mp ho).1
      rw [hoid] at hfind
      simp [Db.row, hfind]
    refine Dialect.collect_congr (fun st hst l l' v v' ws hagrees hsub he => ?_) hstart hf
    rw [hprog] at hst
    exact hagrees.exec (List.mem_of_mem_take hst) hpaid hsub he

theorem Write.Done.hasBet {db db' : Db} {w : Write} {now : DateTime} (h : w.Done db now db')
    {userId : UserId} (hother : ∀ bet priced points, w = .place bet priced points →
      bet.userId ≠ userId) (marketId : MarketId) :
    db'.hasBet userId marketId = db.hasBet userId marketId := by
  cases h with
  | create market outcomes at' hen => rfl
  | place bet priced points hen =>
    have hne := hother bet priced points rfl
    simp [Db.hasBet, rows_bets_placed hen, hne]
  | settle market settled hin =>
    unfold Db.hasBet
    rw [rows_bets_settled, List.any_map]
    congr 1
    funext b
    have hsame := settledRow_sameStake settled b
    simp [hsame.userId, hsame.marketId]
  | save cause user hun => rfl

/-- A transaction that writes none of its locked rows leaves a placement faithful. -/
theorem placement_undisturbed {db db' : Db} {bet : Bet} {priced : List Outcome}
    {points : List PricePoint} {tx : Tx Statement RowVersion TxVars} {w : Write} {now : DateTime}
    {ws : List RowVersion} (hprog : tx.prog = placeProgram bet priced points)
    (hok : (Write.place bet priced points).Ok db) (hf : tx.Faithful pg db)
    (hdone : w.Done db now db') (happly : db' = pg.apply ws db)
    (hfree : ∀ v ∈ ws, ∀ k, v.key = some k → ¬Locked tx.writes k)
    (hlocks : ∀ other priced points, w = .place other priced points →
      Locked ws (.user other.userId)) : tx.Faithful pg db' := by
  refine placement_stable hprog hok hf ?_ ?_ ?_
  · intro k hk
    rw [happly]
    exact row_apply_of_not_written (fun v hv hvk => hfree v hv k hvk hk) db
  · intro k hk
    rw [happly]
    exact row_apply_isSome ws hk
  · intro hpaid
    refine hdone.hasBet ?_ bet.marketId
    rintro other priced' points' rfl heq
    obtain ⟨v, hv, hkey⟩ := hlocks other priced' points' rfl
    exact hfree v hv _ hkey (heq ▸ hpaid)

/-- The row a statement locks, where it finds or makes one. -/
def Statement.target : Statement → Option RowKey
  | .debit userId _ => some (.user userId)
  | .selectRepeatBettor _ _ => none
  | .insertBet bet => some (.bet bet.id)
  | .updateOutcome id _ _ => some (.outcome id)
  | .updateMarketTotals id _ => some (.market id)
  | .insertPricePoint _ => none
  | .publish _ => none
  | .updateMarketStatus id _ _ => some (.market id)
  | .updateBetStatus id _ _ => some (.bet id)
  | .credit userId _ => some (.user userId)
  | .upsertUser user => some (.user user.id)
  | .insertMarket market => some (.market market.id)
  | .insertOutcome outcome => some (.outcome outcome.id)

namespace Db
variable {db : Db}

theorem userById_id {id : UserId} {u : User} (h : db.userById id = some u) : u.id = id :=
  Table.find?_key h

theorem marketById_id {id : MarketId} {m : Market} (h : db.marketById id = some m) : m.id = id :=
  Table.find?_key h

theorem outcomeById_id {id : OutcomeId} {o : Outcome} (h : db.outcomeById id = some o) :
    o.id = id := Table.find?_key h

theorem betById_id {id : BetId} {b : Bet} (h : db.bets.find? id = some b) : b.id = id :=
  Table.find?_key h

end Db

theorem exec_target {st : Statement} {l l' : TxVars} {db : Db} {ws : List RowVersion}
    (h : st.exec l db = .ok (ws, l')) : ∀ w ∈ ws, ∀ k, w.key = some k → st.target = some k := by
  intro w hw k hk
  cases st <;> grind [Statement.exec, RowVersion.key, Statement.target, Db.userById_id,
    Db.marketById_id, Db.outcomeById_id, Db.betById_id]

/-- Two versions of the tables that the statements of a settlement on its locked rows
cannot tell apart; all rows it names are there. -/
structure SettleAgrees (market : Market) (settled : List Bet) (us : List RowVersion)
    (v v' : Db) : Prop where
  rows : ∀ k, Locked us k → v'.row k = v.row k
  known : ∀ k, (v.row k).isSome → (v'.row k).isSome
  named : ∀ st ∈ settleProgram market settled, ∀ k, st.target = some k → (v.row k).isSome
  winner : ∀ o, market.resolvedOutcomeId = some o → (v.row (.outcome o)).isSome

section Settling
variable {market : Market} {settled : List Bet} {us : List RowVersion} {v v' : Db}

theorem mem_settleProgram {st : Statement} : st ∈ settleProgram market settled ↔
    st = .updateMarketStatus market.id market.status market.resolvedOutcomeId ∨
      (∃ b ∈ settled, st = .updateBetStatus b.id b.status b.payout ∨
        ∃ payout, b.payout = some payout ∧ st = .credit b.userId payout) ∨
      ∃ userId ∈ paidUsers settled, st = .publish (.userBalanceChanged userId) := by
  have hbet : ∀ b : Bet, st ∈ settleBet b ↔ st = .updateBetStatus b.id b.status b.payout ∨
      ∃ payout, b.payout = some payout ∧ st = .credit b.userId payout := by
    intro b
    cases hp : b.payout <;> simp [settleBet, hp]
  simp only [settleProgram, List.cons_append, List.mem_cons, List.mem_append, List.mem_flatMap,
    List.mem_map, hbet, eq_comm]

theorem SettleAgrees.write (h : SettleAgrees market settled us v v') (w : RowVersion) :
    SettleAgrees market settled us (pg.apply [w] v) (pg.apply [w] v') where
  rows := by
    intro k hk
    change (w.write v').row k = (w.write v).row k
    rw [row_write, row_write, h.rows k hk]
  known := by
    intro k hk
    change ((w.write v).row k).isSome at hk
    change ((w.write v').row k).isSome
    rw [row_write] at hk ⊢
    by_cases hw : w.key = some k
    · simp [hw]
    · simp only [hw, if_false] at hk ⊢
      exact h.known k hk
  named := fun st hst k hk => row_apply_isSome [w] (h.named st hst k hk)
  winner := fun o ho => row_apply_isSome [w] (h.winner o ho)

theorem SettleAgrees.exec {st : Statement} (hst : st ∈ settleProgram market settled)
    (h : SettleAgrees market settled us v v') {m m' : TxVars} {ws : List RowVersion}
    (hsub : ws ⊆ us) (he : pg.exec st m v = .ok (ws, m')) :
    pg.exec st m v' = .ok (ws, m') ∧
      SettleAgrees market settled us (pg.apply ws v) (pg.apply ws v') := by
  have hnamed := h.named st hst
  simp only [pg_exec] at he ⊢
  rcases mem_settleProgram.mp hst with rfl | ⟨b, hb, rfl | ⟨payout, hp, rfl⟩⟩ | ⟨userId, hu, rfl⟩
  · obtain ⟨row, hrow⟩ := Option.isSome_iff_exists.mp (hnamed _ rfl)
    obtain ⟨stored, hstored, -⟩ := Option.map_eq_some_iff.mp hrow
    have hwinner : (market.resolvedOutcomeId.any fun o => (v'.outcomeById o).isNone) = false := by
      cases ho : market.resolvedOutcomeId with
      | none => rfl
      | some o =>
        have hknown := h.known _ (h.winner o ho)
        simp only [Db.row, Option.isSome_map] at hknown
        simpa [Option.isSome_iff_ne_none] using hknown
    by_cases hmissing : (market.resolvedOutcomeId.any fun o => (v.outcomeById o).isNone) = true
    · simp [Statement.exec, hstored, hmissing] at he
    · simp only [Statement.exec, hstored, hmissing] at he
      cases he
      have hid : stored.id = market.id := Table.find?_key hstored
      have hlocked : Locked us (.market market.id) :=
        ⟨_, hsub List.mem_cons_self, by simp [RowVersion.key, hid]⟩
      have hsame := marketById_of_row (h.rows _ hlocked)
      exact ⟨by simp [Statement.exec, hsame, hstored, hwinner], h.write _⟩
  · obtain ⟨row, hrow⟩ := Option.isSome_iff_exists.mp (hnamed _ rfl)
    obtain ⟨stored, hstored, -⟩ := Option.map_eq_some_iff.mp hrow
    simp only [Statement.exec, hstored, Except.ok.injEq, Prod.mk.injEq] at he
    obtain ⟨rfl, rfl⟩ := he
    have hid : stored.id = b.id := Table.find?_key hstored
    have hlocked : Locked us (.bet b.id) :=
      ⟨_, hsub List.mem_cons_self, by simp [RowVersion.key, hid]⟩
    have hsame := betById_of_row (h.rows _ hlocked)
    exact ⟨by simp [Statement.exec, hsame, hstored], h.write _⟩
  · obtain ⟨row, hrow⟩ := Option.isSome_iff_exists.mp (hnamed _ rfl)
    obtain ⟨stored, hstored, -⟩ := Option.map_eq_some_iff.mp hrow
    by_cases hin : InI64 (stored.balance + payout)
    · simp only [Statement.exec, hstored, hin, if_true, Except.ok.injEq, Prod.mk.injEq] at he
      obtain ⟨rfl, rfl⟩ := he
      have hid : stored.id = b.userId := Table.find?_key hstored
      have hlocked : Locked us (.user b.userId) :=
        ⟨_, hsub List.mem_cons_self, by simp [RowVersion.key, hid]⟩
      have hsame := userById_of_row (h.rows _ hlocked)
      exact ⟨by simp [Statement.exec, hsame, hstored, hin], h.write _⟩
    · simp [Statement.exec, hstored, hin] at he
  · simp only [Statement.exec, Except.ok.injEq, Prod.mk.injEq] at he ⊢
    obtain ⟨rfl, rfl⟩ := he
    exact ⟨⟨rfl, rfl⟩, h.write _⟩

theorem settle_named {db : Db} (hwf : db.Wf) (hok : (Write.settle market settled).Ok db) :
    ∀ st ∈ settleProgram market settled, ∀ k, st.target = some k → (db.row k).isSome := by
  obtain ⟨⟨m, hm⟩, -, -, winner, -, -, hall⟩ := hok
  intro st hst k hk
  rcases mem_settleProgram.mp hst with rfl | ⟨b, hb, hcase⟩ | ⟨userId, hu, rfl⟩
  · cases hk
    simp [Db.row, hm]
  · obtain ⟨-, -, stored, hstored, hsame⟩ := hall b hb
    rcases hcase with rfl | ⟨payout, hp, rfl⟩
    · cases hk
      have hfind : db.bets.find? b.id = some stored := hsame.id ▸ Table.find?_of_mem hstored
      simp [Db.row, hfind]
    · cases hk
      obtain ⟨u, hu⟩ := hwf.betUser stored hstored
      rw [hsame.userId] at hu
      simp [Db.row, hu]
  · simp [Statement.target] at hk

theorem settlement_undisturbed {db : Db} {tx : Tx Statement RowVersion TxVars}
    {ws : List RowVersion} (hprog : tx.prog = settleProgram market settled) (hwf : db.Wf)
    (hok : (Write.settle market settled).Ok db) (hf : tx.Faithful pg db)
    (hfree : ∀ v ∈ ws, ∀ k, v.key = some k → ¬Locked tx.writes k) :
    tx.Faithful pg (pg.apply ws db) := by
  have hstart : SettleAgrees market settled tx.writes db (pg.apply ws db) := by
    refine ⟨?_, fun k hk => row_apply_isSome ws hk, settle_named hwf hok, ?_⟩
    · intro k hk
      exact row_apply_of_not_written (fun v hv hvk => hfree v hv k hvk hk) db
    · intro o ho
      obtain ⟨-, -, -, winner, hmem, hres, -⟩ := hok
      obtain rfl : winner = o := Option.some.inj (hres.symm.trans ho)
      obtain ⟨outcome, hrow, rfl⟩ := List.mem_map.mp hmem
      have hfind : db.outcomeById outcome.id = some outcome :=
        Table.find?_of_mem (Db.mem_outcomesFor.mp hrow).1
      simp [Db.row, hfind]
  refine Dialect.collect_congr (fun st hst l l' v v' vs hagrees hsub he => ?_) hstart hf
  rw [hprog] at hst
  exact hagrees.exec (List.mem_of_mem_take hst) hsub he

end Settling

end Betsphere
