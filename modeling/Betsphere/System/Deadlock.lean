import Betsphere.Lib.Deadlock
import Betsphere.System.WellFormed
import Betsphere.Postgres.Locking
set_option autoImplicit false

namespace Betsphere
open MachineInt RowLock

abbrev Money := Store Db Statement RowVersion RowKey TxVars Nat

inductive MoneyAct where
  | begin (t : Nat) (w : Write) (now : DateTime)
  | exec (t : Nat)
  | commit (t : Nat)
  | abort (t : Nat)

def Write.placesOrSettles : Write → Bool
  | .place _ _ _ => true
  | .settle _ _ => true
  | _ => false

namespace Money

def init (db : Db) : Money := ⟨db, fun _ => none, fun _ => none⟩

def step (s : Money) : MoneyAct → Option Money
  | .begin t w now => if w.placesOrSettles then s.begin t w.program ⟨now, false⟩ else none
  | .exec t => (s.advance pg t).map Prod.fst
  | .commit t => s.commit pg t
  | .abort t => if (s.tx t).isSome then some (s.abort t) else none

/-- A transaction begins with copies that still agree with the tables. -/
def Prepared (s : Money) : MoneyAct → Prop
  | .begin _ w _ => w.Ok s.db
  | _ => True

def Crediting (s : Money) (t : Nat) : Prop :=
  ∃ tx userId payout, s.tx t = some tx ∧ tx.prog[tx.pc]? = some (.credit userId payout)

structure Inv (s : Money) : Prop where
  wf : s.db.Wf
  serial : s.Serial pg
  owned : s.Owned Statement.target
  opened : ∀ t tx, s.tx t = some tx →
    ∃ w : Write, w.placesOrSettles = true ∧ w.Ok s.db ∧ tx.prog = w.program

theorem inv_init {db : Db} (hwf : db.Wf) : Inv (init db) :=
  ⟨hwf, Store.serial_closed db, Store.owned_closed _ db, by simp [init]⟩

end Money

section Locks
variable {s : Money} {t : Nat} {tx : Tx Statement RowVersion TxVars} {market : Market}
  {settled : List Bet}

theorem Money.Inv.settle_holds (h : Money.Inv s) (htx : s.tx t = some tx)
    (hprog : tx.prog = settleProgram market settled) (hok : (Write.settle market settled).Ok s.db)
    (hpc : tx.pc ≠ 0) : s.locks (.market market.id) = some t := by
  have hst : Statement.updateMarketStatus market.id market.status market.resolvedOutcomeId ∈
      tx.prog.take tx.pc := by
    obtain ⟨n, hn⟩ := Nat.exists_eq_succ_of_ne_zero hpc
    rw [hprog, hn]
    simp [settleProgram]
  obtain ⟨before, m, ws, m', hexec, hsub⟩ := Dialect.collect_mem (h.serial.faithful t tx htx) hst
  obtain ⟨stored, hstored⟩ := hok.1
  have hthere : ((pg.apply before s.db).row (.market market.id)).isSome :=
    row_apply_isSome before (by simp [Db.row, hstored])
  obtain ⟨row, hrow⟩ := Option.isSome_iff_exists.mp hthere
  obtain ⟨found, hfound, -⟩ := Option.map_eq_some_iff.mp hrow
  simp only [pg_exec, Statement.exec, hfound] at hexec
  split at hexec
  · simp at hexec
  · cases hexec
    refine h.serial.held t tx htx _ (hsub List.mem_cons_self) _ ?_
    simp [RowVersion.key, Db.marketById_id hfound]

theorem Money.Inv.inserted_absent (h : Money.Inv s) (htx : s.tx t = some tx) {bet : Bet}
    (hst : Statement.insertBet bet ∈ tx.prog.take tx.pc) : s.db.bets.find? bet.id = none := by
  obtain ⟨before, m, ws, m', hexec, -⟩ := Dialect.collect_mem (h.serial.faithful t tx htx) hst
  cases hins : bet.insertError (pg.apply before s.db) with
  | some e => simp [Statement.exec, hins] at hexec
  | none =>
    have hfresh := (insertError_none hins).1
    cases hfind : s.db.bets.find? bet.id with
    | none => rfl
    | some stored =>
      have hthere : ((pg.apply before s.db).row (.bet bet.id)).isSome :=
        row_apply_isSome before (by simp [Db.row, hfind])
      simp [Db.row, hfresh] at hthere

theorem Money.Inv.settle_of_bet (h : Money.Inv s) {id : BetId}
    (hlock : s.locks (.bet id) = some t) (hstored : (s.db.bets.find? id).isSome) :
    ∃ tx market settled b, s.tx t = some tx ∧ tx.prog = settleProgram market settled ∧
      (Write.settle market settled).Ok s.db ∧ tx.pc ≠ 0 ∧ b ∈ settled ∧ b.id = id := by
  obtain ⟨tx, htx, st, hst, hkey⟩ := h.owned _ t hlock
  obtain ⟨w, hkind, hok, hprog⟩ := h.opened t tx htx
  have hpc : tx.pc ≠ 0 := by
    intro hzero
    simp [hzero] at hst
  have hmem : st ∈ w.program := hprog ▸ List.mem_of_mem_take hst
  cases w with
  | create market outcomes now => simp [Write.placesOrSettles] at hkind
  | save cause user => simp [Write.placesOrSettles] at hkind
  | place bet priced points =>
    have hins : st = .insertBet bet ∧ bet.id = id := by
      simp only [Write.program, placeProgram, List.mem_append, List.mem_cons, List.mem_map,
        List.not_mem_nil, or_false] at hmem
      rcases hmem with ((((rfl | rfl | rfl) | ⟨o, ho, rfl⟩) | rfl) | ⟨p, hp, rfl⟩) | rfl | rfl |
        rfl <;> simp_all [Statement.target]
    obtain ⟨rfl, rfl⟩ := hins
    simp [h.inserted_absent htx hst] at hstored
  | settle market settled =>
    refine ⟨tx, market, settled, ?_⟩
    rcases mem_settleProgram.mp hmem with rfl | ⟨b, hb, rfl | ⟨payout, hp, rfl⟩⟩ |
      ⟨userId, hu, rfl⟩
    · simp [Statement.target] at hkey
    · simp only [Statement.target, Option.some.injEq, RowKey.bet.injEq] at hkey
      exact ⟨b, htx, hprog, hok, hpc, hb, hkey⟩
    · simp [Statement.target] at hkey
    · simp [Statement.target] at hkey

/-- A settlement never waits for the row of a bet: who has locked it has locked the
market before. -/
theorem Money.Inv.bet_free (h : Money.Inv s) (htx : s.tx t = some tx)
    (hprog : tx.prog = settleProgram market settled) (hok : (Write.settle market settled).Ok s.db)
    (hpc : tx.pc ≠ 0) {b : Bet} (hb : b ∈ settled) {t' : Nat}
    (hlock : s.locks (.bet b.id) = some t') : t' = t := by
  have hheld := h.settle_holds htx hprog hok hpc
  obtain ⟨-, -, -, winner, -, -, hall⟩ := hok
  obtain ⟨hmarket, -, stored, hstored, hsame⟩ := hall b hb
  have hfind : s.db.bets.find? b.id = some stored := hsame.id ▸ Table.find?_of_mem hstored
  obtain ⟨tx', market', settled', b', htx', hprog', hok', hpc', hb', hid⟩ :=
    h.settle_of_bet hlock (by simp [hfind])
  have hheld' := h.settle_holds htx' hprog' hok' hpc'
  obtain ⟨-, -, -, winner', -, -, hall'⟩ := hok'
  obtain ⟨hmarket', -, stored', hstored', hsame'⟩ := hall' b' hb'
  have hrow : stored' = stored :=
    Table.eq_of_key hstored' hstored (hsame'.id.trans (hid.trans hsame.id.symm))
  have hsamemarket : market'.id = market.id := by
    rw [← hmarket', ← hmarket, ← hsame'.marketId, ← hsame.marketId, hrow]
  rw [hsamemarket, hheld] at hheld'
  exact (Option.some.inj hheld').symm

end Locks

section Steps
variable {s s' : Money}

theorem Money.Inv.opened_update (h : Money.Inv s) {db : Db}
    (hok : ∀ w : Write, w.Ok s.db → w.Ok db) {t : Nat}
    {o : Option (Tx Statement RowVersion TxVars)}
    (hnew : ∀ tx, o = some tx →
      ∃ w : Write, w.placesOrSettles = true ∧ w.Ok db ∧ tx.prog = w.program) :
    ∀ t' tx, Function.update s.tx t o t' = some tx →
      ∃ w : Write, w.placesOrSettles = true ∧ w.Ok db ∧ tx.prog = w.program := by
  intro t' tx htx
  by_cases ht : t' = t
  · subst ht
    rw [Function.update_self] at htx
    exact hnew tx htx
  · rw [Function.update_of_ne ht] at htx
    obtain ⟨w, hkind, hw, hprog⟩ := h.opened t' tx htx
    exact ⟨w, hkind, hok w hw, hprog⟩

theorem Money.Inv.abort (h : Money.Inv s) (t : Nat) : Money.Inv (s.abort t) :=
  ⟨h.wf, h.serial.abort t, h.owned.abort t, h.opened_update (fun _ hw => hw) (by simp)⟩

theorem Money.Inv.begin (h : Money.Inv s) {t : Nat} {w : Write} {now : DateTime}
    (hkind : w.placesOrSettles = true) (hok : w.Ok s.db)
    (hs : s.begin t w.program ⟨now, false⟩ = some s') : Money.Inv s' := by
  have hserial := h.serial.begin hs
  have howned := h.owned.begin hs
  unfold Store.begin at hs
  split at hs
  · simp at hs
  · cases hs
    refine ⟨h.wf, hserial, howned, h.opened_update (fun _ hw => hw) ?_⟩
    intro tx htx
    cases htx
    exact ⟨w, hkind, hok, rfl⟩

theorem Money.Inv.exec (h : Money.Inv s) {t : Nat} {r : Money × Option RepositoryError}
    (hs : s.advance pg t = some r) : Money.Inv r.1 := by
  have hserial := h.serial.advance hs
  have howned := h.owned.advance (fun st l v ws l' he => exec_target he) hs
  obtain ⟨tx, st, htx, -, ⟨e, -, rfl⟩ | ⟨ws, vars, -, -, rfl⟩⟩ := Store.advance_cases hs
  · exact h.abort t
  · refine ⟨h.wf, hserial, howned, h.opened_update (fun _ hw => hw) ?_⟩
    intro tx' htx'
    cases htx'
    exact h.opened t tx htx

theorem Money.Inv.commit (h : Money.Inv s) {t : Nat} (hs : s.commit pg t = some s') :
    Money.Inv s' := by
  have howned := h.owned.commit hs
  obtain ⟨tx, htx, hpc, hstore⟩ := Store.commit_cases hs
  obtain ⟨w, hkind, hok, hprog⟩ := h.opened t tx htx
  obtain ⟨happly, hrun⟩ := h.serial.commit_atomically htx hs
  rw [hprog] at hrun
  have hdone := Write.done hok hrun
  have hgrows := hdone.grows hok
  have hfree : ∀ t' tx', t' ≠ t → s.tx t' = some tx' → ∀ v ∈ tx.writes, ∀ k, v.key = some k →
      ¬Locked tx'.writes k := by
    rintro t' tx' hne htx' v hv k hk ⟨u, hu, huk⟩
    exact h.serial.disjoint hne.symm htx htx' hv hu hk huk
  have hserial : s'.Serial pg := by
    refine Store.Serial.commit h.serial (fun t' tx' hne htx' => ?_) hs
    obtain ⟨w', hkind', hok', hprog'⟩ := h.opened t' tx' htx'
    have hf := h.serial.faithful t' tx' htx'
    cases w' with
    | create market outcomes now => simp [Write.placesOrSettles] at hkind'
    | save cause user => simp [Write.placesOrSettles] at hkind'
    | place bet priced points =>
      refine placement_undisturbed hprog' hok' hf hdone happly (hfree t' tx' hne htx') ?_
      rintro other priced' points' rfl
      refine debit_locks hprog ?_ (h.serial.faithful t tx htx)
      rw [hpc, hprog]
      simp [Write.program, placeProgram]
    | settle market settled =>
      rw [happly]
      exact settlement_undisturbed hprog' h.wf hok' hf (hfree t' tx' hne htx')
  have hopened := h.opened_update (t := t) (o := none) (fun w hw => Write.ok_mono hgrows hw)
    (by simp)
  refine ⟨hdone.wf h.wf hok, hserial, howned, ?_⟩
  rw [hstore] at hopened ⊢
  exact hopened

theorem Money.Inv.step (h : Money.Inv s) {a : MoneyAct} (ha : Money.Prepared s a)
    (hs : Money.step s a = some s') : Money.Inv s' := by
  cases a with
  | begin t w now =>
    simp only [Money.step] at hs
    split at hs
    · rename_i hkind
      exact h.begin hkind ha hs
    · simp at hs
  | exec t =>
    obtain ⟨r, hr, rfl⟩ := Option.map_eq_some_iff.mp hs
    exact h.exec hr
  | commit t => exact h.commit hs
  | abort t =>
    simp only [Money.step] at hs
    split at hs
    · cases hs
      exact h.abort t
    · simp at hs

end Steps

/-- Users first, then bets, then outcomes in the order of their table, then markets. -/
def lockRank (db : Db) : RowKey → Nat
  | .user _ => 0
  | .bet _ => 1
  | .outcome id => 2 + (db.outcomes.rows.map Outcome.id).idxOf id
  | .market _ => 3 + db.outcomes.rows.length

theorem lockRank_outcome (db : Db) (id : OutcomeId) (market : MarketId) :
    lockRank db (.outcome id) < lockRank db (.market market) := by
  have hle := List.idxOf_le_length (a := id) (l := db.outcomes.rows.map Outcome.id)
  rw [List.length_map] at hle
  simp only [lockRank]
  omega

theorem outcomes_rising (db : Db) (id : MarketId) :
    (db.outcomeIds id).Pairwise fun a b =>
      lockRank db (.outcome a) < lockRank db (.outcome b) := by
  have hall : (db.outcomes.rows.map Outcome.id).Pairwise fun a b =>
      lockRank db (.outcome a) < lockRank db (.outcome b) := by
    rw [List.pairwise_iff_getElem]
    intro i j hi hj hij
    simp only [lockRank, db.outcomes.nodup.idxOf_getElem]
    omega
  exact hall.sublist (List.filter_sublist.map Outcome.id)

theorem place_targets (bet : Bet) (priced : List Outcome) (points : List PricePoint) :
    (placeProgram bet priced points).filterMap Statement.target =
      .user bet.userId :: .bet bet.id ::
        (priced.map fun o => RowKey.outcome o.id) ++ [.market bet.marketId] := by
  have houtcomes : ((priced.map fun o => Statement.updateOutcome o.id
      (if o.id = bet.outcomeId then bet.amount else 0) o.currentPrice).filterMap
        Statement.target) = priced.map fun o => RowKey.outcome o.id := by
    induction priced with
    | nil => rfl
    | cons o rest ih => simpa [Statement.target] using ih
  have hpoints : (points.map Statement.insertPricePoint).filterMap Statement.target = [] := by
    induction points with
    | nil => rfl
    | cons p rest ih => simp [Statement.target]
  simp only [placeProgram, List.filterMap_append, houtcomes, hpoints, List.filterMap_cons,
    List.filterMap_nil, Statement.target, List.append_nil, List.cons_append, List.nil_append]

/-- A placement locks its rows in rising order. -/
theorem place_rising {db : Db} {bet : Bet} {priced : List Outcome} (points : List PricePoint)
    (hids : priced.map Outcome.id = db.outcomeIds bet.marketId) :
    (placeProgram bet priced points).Pairwise fun a b =>
      ∀ k, a.target = some k → ∀ k', b.target = some k' → lockRank db k < lockRank db k' := by
  rw [← List.pairwise_filterMap (R := fun k k' => lockRank db k < lockRank db k'), place_targets]
  have hrising := outcomes_rising db bet.marketId
  rw [← hids, List.pairwise_map] at hrising
  have huser : ∀ k ∈ (.bet bet.id :: (priced.map fun o => RowKey.outcome o.id) ++
      [RowKey.market bet.marketId]), lockRank db (.user bet.userId) < lockRank db k := by
    intro k hk
    simp only [List.cons_append, List.mem_cons, List.mem_append, List.mem_map,
      List.not_mem_nil, or_false] at hk
    rcases hk with rfl | ⟨o, -, rfl⟩ | rfl <;> simp only [lockRank] <;> omega
  have hbet : ∀ k ∈ ((priced.map fun o => RowKey.outcome o.id) ++ [RowKey.market bet.marketId]),
      lockRank db (.bet bet.id) < lockRank db k := by
    intro k hk
    simp only [List.mem_append, List.mem_map, List.mem_singleton] at hk
    rcases hk with ⟨o, -, rfl⟩ | rfl <;> simp only [lockRank] <;> omega
  refine List.pairwise_cons.mpr ⟨huser, List.pairwise_cons.mpr ⟨hbet, ?_⟩⟩
  refine List.pairwise_append.mpr
    ⟨List.pairwise_map.mpr hrising, List.pairwise_singleton _ _, fun k hk k' hk' => ?_⟩
  obtain ⟨o, -, rfl⟩ := List.mem_map.mp hk
  rw [List.mem_singleton.mp hk']
  exact lockRank_outcome db o.id bet.marketId

section Circles
variable {s : Money}

theorem Money.Inv.rising (h : Money.Inv s) {t : Nat} {k k' : RowKey} (hheld : s.locks k = some t)
    (hneeds : k' ∈ s.needs pg t) (hbusy : ∃ t', t' ≠ t ∧ s.locks k' = some t')
    (hcredit : ¬Money.Crediting s t) : lockRank s.db k < lockRank s.db k' := by
  obtain ⟨tx, st, ws, vars, v, htx, hst, hexec, hv, hkey⟩ := Store.mem_needs hneeds
  have htarget : st.target = some k' := exec_target hexec v hv k' hkey
  obtain ⟨tx', htx', st', hst', htarget'⟩ := h.owned k t hheld
  obtain rfl : tx' = tx := Option.some.inj (htx'.symm.trans htx)
  obtain ⟨w, hkind, hok, hprog⟩ := h.opened t tx' htx
  have hpc : tx'.pc ≠ 0 := by
    intro hzero
    simp [hzero] at hst'
  cases w with
  | create market outcomes now => simp [Write.placesOrSettles] at hkind
  | save cause user => simp [Write.placesOrSettles] at hkind
  | place bet priced points =>
    have hrising := place_rising points hok.2.1
    rw [← Write.program, ← hprog] at hrising
    exact pairwise_take hrising hst' hst k htarget' k' htarget
  | settle market settled =>
    have hmem : st ∈ settleProgram market settled := by
      rw [← Write.program, ← hprog]
      exact List.mem_of_getElem? hst
    obtain ⟨t', hne, hlock⟩ := hbusy
    rcases mem_settleProgram.mp hmem with rfl | ⟨b, hb, rfl | ⟨payout, hp, rfl⟩⟩ |
      ⟨userId, hu, rfl⟩
    · cases htarget
      rw [h.settle_holds htx hprog hok hpc] at hlock
      exact absurd (Option.some.inj hlock).symm hne
    · cases htarget
      exact absurd (h.bet_free htx hprog hok hpc hb hlock) hne
    · exact absurd ⟨tx', b.userId, payout, htx, hst⟩ hcredit
    · simp [Statement.target] at htarget

/-- Without a transaction that waits to credit a user nobody waits in a circle. -/
theorem Money.Inv.no_circle (h : Money.Inv s) (t : Nat) :
    ¬Relation.TransGen (fun a b => s.WaitsFor pg a b ∧ ¬Money.Crediting s a) t t := by
  have hfree : ¬Relation.TransGen (Blocks (fun t k => k ∈ s.needs pg t ∧
      (∃ t', t' ≠ t ∧ s.locks k = some t') ∧ ¬Money.Crediting s t)
      (fun t k => s.locks k = some t)) t t :=
    RowLock.no_circle (lockRank s.db)
      (fun t k k' hheld hwants => h.rising hheld hwants.1 hwants.2.1 hwants.2.2) t
  intro hcircle
  refine hfree (Relation.TransGen.mono ?_ _ _ hcircle)
  rintro a b ⟨⟨hne, k, hk, hlock⟩, hcredit⟩
  exact ⟨k, ⟨hk, ⟨b, hne, hlock⟩, hcredit⟩, hlock⟩

theorem Money.Inv.crediting (h : Money.Inv s) {t t' : Nat} (hcredit : Money.Crediting s t)
    (hwaits : s.WaitsFor pg t t') : ∃ tx market settled userId payout, s.tx t = some tx ∧
      tx.prog = settleProgram market settled ∧ tx.prog[tx.pc]? = some (.credit userId payout) ∧
      s.locks (.market market.id) = some t ∧ s.locks (.user userId) = some t' := by
  obtain ⟨tx, userId, payout, htx, hst⟩ := hcredit
  obtain ⟨w, hkind, hok, hprog⟩ := h.opened t tx htx
  have hmem : Statement.credit userId payout ∈ w.program := by
    rw [← hprog]
    exact List.mem_of_getElem? hst
  cases w with
  | create market outcomes now => simp [Write.placesOrSettles] at hkind
  | save cause user => simp [Write.placesOrSettles] at hkind
  | place bet priced points =>
    simp [Write.program, placeProgram] at hmem
  | settle market settled =>
    have hpc : tx.pc ≠ 0 := by
      intro hzero
      simp [hzero, hprog, Write.program, settleProgram] at hst
    obtain ⟨-, k, hk, hlock⟩ := hwaits
    obtain ⟨tx', st, ws, vars, v, htx', hst', hexec, hv, hkey⟩ := Store.mem_needs hk
    obtain rfl : tx' = tx := Option.some.inj (htx'.symm.trans htx)
    have htarget : st.target = some k := exec_target hexec v hv k hkey
    cases hst'.symm.trans hst
    cases htarget
    exact ⟨tx', market, settled, userId, payout, htx, hprog, hst,
      h.settle_holds htx hprog hok hpc, hlock⟩

end Circles

instance decidableSameStake (a b : Bet) : Decidable (a.SameStake b) :=
  decidable_of_iff (a.id = b.id ∧ a.userId = b.userId ∧ a.marketId = b.marketId ∧
      a.outcomeId = b.outcomeId ∧ a.amount = b.amount ∧ a.price = b.price)
    ⟨fun ⟨h₁, h₂, h₃, h₄, h₅, h₆⟩ => ⟨h₁, h₂, h₃, h₄, h₅, h₆⟩,
      fun h => ⟨h.id, h.userId, h.marketId, h.outcomeId, h.amount, h.price⟩⟩

instance decidableSettledOn (winner : OutcomeId) (s : Bet) : Decidable (s.SettledOn winner) :=
  decidable_of_iff ((s.status = if s.outcomeId = winner then .won else .lost) ∧
      s.payout = if s.outcomeId = winner then some s.winnings else none)
    ⟨fun ⟨hstatus, hpayout⟩ => ⟨hstatus, hpayout⟩, fun h => ⟨h.status, h.payout⟩⟩

instance decidableHasMarket (db : Db) (id : MarketId) : Decidable (db.HasMarket id) :=
  decidable_of_iff (db.marketById id).isSome Option.isSome_iff_exists

instance decidableOk (db : Db) : (w : Write) → Decidable (w.Ok db)
  | .create market outcomes _ => inferInstanceAs (Decidable (market.status = .opened ∧
      market.resolvedOutcomeId = none ∧ market.totalVolume = 0 ∧ market.participantsCount = 0 ∧
      ∀ o ∈ outcomes, o.marketId = market.id ∧ o.volume = 0))
  | .place bet priced _ => inferInstanceAs (Decidable (db.HasMarket bet.marketId ∧
      priced.map Outcome.id = db.outcomeIds bet.marketId ∧
      bet.outcomeId ∈ db.outcomeIds bet.marketId ∧ bet.status = .active ∧ bet.payout = none))
  | .settle market settled => inferInstanceAs (Decidable (db.HasMarket market.id ∧
      market.status = .resolved ∧ (settled.map Bet.id).Nodup ∧
      ∃ winner ∈ db.outcomeIds market.id, market.resolvedOutcomeId = some winner ∧
        ∀ s ∈ settled, s.marketId = market.id ∧ s.SettledOn winner ∧
          ∃ b ∈ db.bets.rows, b.SameStake s))
  | .save _ _ => isTrue trivial

instance decidablePrepared (s : Money) : (a : MoneyAct) → Decidable (Money.Prepared s a)
  | .begin _ w _ => inferInstanceAs (Decidable (w.Ok s.db))
  | .exec _ => isTrue trivial
  | .commit _ => isTrue trivial
  | .abort _ => isTrue trivial

namespace Sample

/-- Alice holds a winning bet on market 100; she places another while it is resolved, and
both calls are about to run their transaction. -/
def clash : List Act :=
  opening ++ [bet ⟨1⟩ ⟨101⟩ 50] ++ steps 1 8 200 ++ [bet ⟨1⟩ ⟨101⟩ 30, resolve ⟨101⟩] ++
    steps 2 4 300 ++ steps 3 3 0

def writeOf (as : List Act) (i : Nat) : Write :=
  ((state as).writing? (.step i (env 2 300))).getD (.create rainMarket [] 0)

/-- The placement up to its UPDATE of the market, the settlement up to alice's credit. -/
def embraced : List MoneyAct :=
  [.begin 1 (writeOf clash 2) 4, .begin 2 (writeOf clash 3) 4] ++ List.replicate 5 (.exec 1) ++
    List.replicate 2 (.exec 2)

def money (bs : List MoneyAct) : Money :=
  (Transition.run Money.step (.init (state clash).db) bs).getD (.init (state clash).db)

theorem run_money {bs : List MoneyAct}
    (h : (Transition.run Money.step (.init (state clash).db) bs).isSome) :
    Transition.run Money.step (.init (state clash).db) bs = some (money bs) := by
  obtain ⟨s, hs⟩ := Option.isSome_iff_exists.mp h
  simp [money, hs]

end Sample

/-- Every circle of waiting transactions runs through a settlement that holds its market's
row and waits to credit a user whose row another transaction has locked. -/
theorem circles_cross_credits {db : Db} (hwf : db.Wf) {bs : List MoneyAct} {s : Money}
    (hr : Transition.run Money.step (.init db) bs = some s)
    (hg : Transition.Guarded Money.step Money.Prepared (.init db) bs) :
    (∀ t, ¬Relation.TransGen (fun a b => s.WaitsFor pg a b ∧ ¬Money.Crediting s a) t t) ∧
      ∀ t t', Money.Crediting s t → s.WaitsFor pg t t' →
        ∃ tx market settled userId payout, s.tx t = some tx ∧
          tx.prog = settleProgram market settled ∧
          tx.prog[tx.pc]? = some (.credit userId payout) ∧
          s.locks (.market market.id) = some t ∧ s.locks (.user userId) = some t' := by
  have hinv := Transition.run_invariant (fun u a u' hu ha hs => Money.Inv.step hu ha hs)
    (Money.inv_init hwf) hg hr
  exact ⟨hinv.no_circle, fun t t' => hinv.crediting⟩

theorem wf_state {as : List Act} (h : (Transition.run (Sys.step .debug) Sys.init as).isSome) :
    (Sample.state as).Wf :=
  Transition.run_invariant' (fun _ _ _ hwf hs => hwf.effect (Sys.step_effect hs)) Sys.wf_init
    (Sample.run_state h)

/-- The placement waits for the market row of the settlement, which waits for alice's. -/
theorem circles_cross_credits_embraced :
    let s := Sample.money Sample.embraced
    s.WaitsFor pg 1 2 ∧ s.WaitsFor pg 2 1 ∧
      (∀ t, ¬Relation.TransGen (fun a b => s.WaitsFor pg a b ∧ ¬Money.Crediting s a) t t) := by
  intro s
  have hwf : (Sample.state Sample.clash).Wf := wf_state (by decide +kernel)
  have hrun : Transition.run Money.step (.init (Sample.state Sample.clash).db) Sample.embraced =
      some s := Sample.run_money (by decide +kernel)
  exact ⟨by decide +kernel, by decide +kernel,
    (circles_cross_credits hwf.db hrun (by decide +kernel)).1⟩

/-- Two transactions that two calls have prepared wait for each other. -/
theorem money_deadlocks :
    let s := Sample.money Sample.embraced
    (Transition.run (Sys.step .debug) Sys.init Sample.clash).isSome ∧
      (Sample.state Sample.clash).writing? (.step 2 (Sample.env 2 300)) =
        some (Sample.writeOf Sample.clash 2) ∧
      (Sample.state Sample.clash).writing? (.step 3 (Sample.env 2 300)) =
        some (Sample.writeOf Sample.clash 3) ∧
      Transition.Guarded Money.step Money.Prepared (.init (Sample.state Sample.clash).db)
        Sample.embraced ∧
      Transition.run Money.step (.init (Sample.state Sample.clash).db) Sample.embraced = some s ∧
      Relation.TransGen (s.WaitsFor pg) 1 1 := by
  intro s
  have hforth : s.WaitsFor pg 1 2 := by decide +kernel
  have hback : s.WaitsFor pg 2 1 := by decide +kernel
  exact ⟨by decide +kernel, by decide +kernel, by decide +kernel, by decide +kernel,
    Sample.run_money (by decide +kernel), .tail (.single hforth) hback⟩

end Betsphere
