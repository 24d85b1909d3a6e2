import Betsphere.Postgres.Effects
import Betsphere.Application.Ports
set_option autoImplicit false

namespace Betsphere

structure Bet.SameStake (a b : Bet) : Prop where
  id : a.id = b.id
  userId : a.userId = b.userId
  marketId : a.marketId = b.marketId
  outcomeId : a.outcomeId = b.outcomeId
  amount : a.amount = b.amount
  price : a.price = b.price

theorem Bet.SameStake.refl (b : Bet) : b.SameStake b := ⟨rfl, rfl, rfl, rfl, rfl, rfl⟩

theorem Bet.SameStake.trans {a b c : Bet} (h : a.SameStake b) (h' : b.SameStake c) :
    a.SameStake c :=
  ⟨h.id.trans h'.id, h.userId.trans h'.userId, h.marketId.trans h'.marketId,
    h.outcomeId.trans h'.outcomeId, h.amount.trans h'.amount, h.price.trans h'.price⟩

theorem Bet.SameStake.winnings {a b : Bet} (h : a.SameStake b) : a.winnings = b.winnings := by
  simp [Bet.winnings, h.amount, h.price]

namespace Db

def HasUser (db : Db) (id : UserId) : Prop := ∃ u, db.userById id = some u
def HasMarket (db : Db) (id : MarketId) : Prop := ∃ m, db.marketById id = some m

def outcomeIds (db : Db) (id : MarketId) : List OutcomeId := (db.outcomesFor id).map Outcome.id

theorem outcomeIds_nodup (db : Db) (id : MarketId) : (db.outcomeIds id).Nodup :=
  db.outcomes.nodup.sublist (List.filter_sublist.map Outcome.id)

theorem mem_outcomesFor {db : Db} {id : MarketId} {o : Outcome} :
    o ∈ db.outcomesFor id ↔ o ∈ db.outcomes.rows ∧ o.marketId = id := by
  simp [outcomesFor]

theorem outcomeById_of_mem {db : Db} {id : MarketId} {o : Outcome} (h : o ∈ db.outcomesFor id) :
    db.outcomeById o.id = some o := Table.find?_of_mem (mem_outcomesFor.mp h).1

theorem outcomeIds_unique {db : Db} {id id' : MarketId} {o : OutcomeId} (h : o ∈ db.outcomeIds id)
    (h' : o ∈ db.outcomeIds id') : id = id' := by
  obtain ⟨p, hp, rfl⟩ := List.mem_map.mp h
  obtain ⟨q, hq, hqp⟩ := List.mem_map.mp h'
  rw [mem_outcomesFor] at hp hq
  have hpq : q = p := Table.eq_of_key hq.1 hp.1 hqp
  rw [← hp.2, ← hq.2, hpq]

end Db

structure Grows (db db' : Db) : Prop where
  users : ∀ id, db.HasUser id → db'.HasUser id
  markets : ∀ id, db.HasMarket id → db'.HasMarket id
  outcomes : ∀ id, db.HasMarket id → db'.outcomeIds id = db.outcomeIds id
  bets : ∀ b ∈ db.bets.rows, ∃ b' ∈ db'.bets.rows, b'.SameStake b

theorem Grows.refl (db : Db) : Grows db db :=
  ⟨fun _ h => h, fun _ h => h, fun _ _ => rfl, fun b hb => ⟨b, hb, .refl b⟩⟩

theorem Grows.trans {a b c : Db} (h : Grows a b) (h' : Grows b c) : Grows a c where
  users id hu := h'.users id (h.users id hu)
  markets id hm := h'.markets id (h.markets id hm)
  outcomes id hm := (h'.outcomes id (h.markets id hm)).trans (h.outcomes id hm)
  bets b hb := by
    obtain ⟨b', hb', hs⟩ := h.bets b hb
    obtain ⟨b'', hb'', hs'⟩ := h'.bets b' hb'
    exact ⟨b'', hb'', hs'.trans hs⟩

/-- The references of the stored rows. -/
structure Db.Wf (db : Db) : Prop where
  outcomeMarket : ∀ o ∈ db.outcomes.rows, db.HasMarket o.marketId
  betUser : ∀ b ∈ db.bets.rows, db.HasUser b.userId
  betMarket : ∀ b ∈ db.bets.rows, db.HasMarket b.marketId
  betOutcome : ∀ b ∈ db.bets.rows, b.outcomeId ∈ db.outcomeIds b.marketId

structure Bet.SettledOn (winner : OutcomeId) (s : Bet) : Prop where
  status : s.status = if s.outcomeId = winner then .won else .lost
  payout : s.payout = if s.outcomeId = winner then some s.winnings else none

/-- What the copies a transaction was prepared from still share with the tables. -/
def Write.Ok (db : Db) : Write → Prop
  | .create market outcomes _ =>
    market.status = .opened ∧ market.resolvedOutcomeId = none ∧ market.totalVolume = 0 ∧
      market.participantsCount = 0 ∧ ∀ o ∈ outcomes, o.marketId = market.id ∧ o.volume = 0
  | .place bet priced _ =>
    db.HasMarket bet.marketId ∧ priced.map Outcome.id = db.outcomeIds bet.marketId ∧
      bet.outcomeId ∈ db.outcomeIds bet.marketId ∧ bet.status = .active ∧ bet.payout = none
  | .settle market settled =>
    db.HasMarket market.id ∧ market.status = .resolved ∧ (settled.map Bet.id).Nodup ∧
      ∃ winner ∈ db.outcomeIds market.id, market.resolvedOutcomeId = some winner ∧
        ∀ s ∈ settled, s.marketId = market.id ∧ s.SettledOn winner ∧
          ∃ b ∈ db.bets.rows, b.SameStake s
  | .save _ _ => True

theorem Write.ok_mono {db db' : Db} {w : Write} (hg : Grows db db') (h : w.Ok db) : w.Ok db' := by
  cases w with
  | create market outcomes now => exact h
  | place bet priced points =>
    obtain ⟨hm, hids, hmem, hactive, hpay⟩ := h
    have hsame := hg.outcomes _ hm
    exact ⟨hg.markets _ hm, by rw [hsame]; exact hids, by rw [hsame]; exact hmem, hactive, hpay⟩
  | settle market settled =>
    obtain ⟨hm, hstatus, hnd, winner, hmem, hres, hall⟩ := h
    refine ⟨hg.markets _ hm, hstatus, hnd, winner, ?_, hres, fun s hs => ?_⟩
    · rw [hg.outcomes _ hm]
      exact hmem
    · obtain ⟨hmarket, hon, b, hb, hsame⟩ := hall s hs
      obtain ⟨b', hb', hsame'⟩ := hg.bets b hb
      exact ⟨hmarket, hon, b', hb', hsame'.trans hsame⟩
  | save cause user => trivial

section Placed
variable {db : Db} {bet : Bet} {priced : List Outcome} {points : List PricePoint} {now : DateTime}

theorem repriced_marketId (bet : Bet) (priced : List Outcome) (o : Outcome) :
    (repriced bet priced o).marketId = o.marketId := by
  unfold repriced
  split <;> rfl

theorem outcomesFor_placed (id : MarketId) :
    (db.placed bet priced points now).outcomesFor id =
      (db.outcomesFor id).map (repriced bet priced) := by
  have hcomp : (fun o : Outcome => decide (o.marketId = id)) ∘ repriced bet priced =
      fun o => decide (o.marketId = id) := by
    funext o
    simp [repriced_marketId]
  simp only [Db.outcomesFor, Db.placed, Db.repriceAll, Table.rows_mapRows, List.filter_map, hcomp]

theorem outcomeIds_placed (id : MarketId) :
    (db.placed bet priced points now).outcomeIds id = db.outcomeIds id := by
  unfold Db.outcomeIds
  rw [outcomesFor_placed, List.map_map]
  exact List.map_congr_left fun o _ => repriced_id bet priced o

theorem rows_bets_placed (h : PlaceEnabled db bet priced points) :
    (db.placed bet priced points now).bets.rows = db.bets.rows ++ [bet] :=
  Table.rows_upsert_fresh (insertError_none h.insertable).1

theorem marketById_placed (id : MarketId) :
    (db.placed bet priced points now).marketById id = (db.marketById id).map fun m =>
      if m.id = bet.marketId then
        { m with
          totalVolume := m.totalVolume + bet.amount
          participantsCount := m.participantsCount + db.joining bet }
      else m := by
  simp only [Db.marketById, Db.placed, Db.addTotals, Table.modify, Table.find?_mapRows]

theorem userById_placed (id : UserId) :
    (db.placed bet priced points now).userById id = (db.userById id).map fun u =>
      if u.id = bet.userId then { u with balance := u.balance - bet.amount, updatedAt := now }
      else u := by
  simp only [Db.userById, Db.placed, Db.debit, Table.modify, Table.find?_mapRows]

theorem grows_placed (h : PlaceEnabled db bet priced points) :
    Grows db (db.placed bet priced points now) where
  users := by
    rintro id ⟨u, hu⟩
    exact ⟨_, by rw [userById_placed, hu]; rfl⟩
  markets := by
    rintro id ⟨m, hm⟩
    exact ⟨_, by rw [marketById_placed, hm]; rfl⟩
  outcomes := fun id _ => outcomeIds_placed id
  bets := fun b hb => ⟨b, by rw [rows_bets_placed h]; exact List.mem_append_left _ hb, .refl b⟩

end Placed

section Settled
variable {db : Db} {market : Market} {settled : List Bet} {now : DateTime}

theorem rows_bets_settled :
    (db.settled market settled now).bets.rows = db.bets.rows.map (settledRow settled) := rfl

theorem marketById_settled (id : MarketId) :
    (db.settled market settled now).marketById id = (db.marketById id).map fun m =>
      if m.id = market.id then
        { m with status := market.status, resolvedOutcomeId := market.resolvedOutcomeId }
      else m := by
  simp only [Db.marketById, Db.settled, Db.setMarketStatus, Table.modify, Table.find?_mapRows]

theorem userById_settled (id : UserId) :
    (db.settled market settled now).userById id = (db.userById id).map (paidRow settled now) :=
  Table.find?_mapRows db.users (paidRow settled now) (paidRow_id settled now) id

theorem settledRow_sameStake (settled : List Bet) (b : Bet) :
    (settledRow settled b).SameStake b := by
  unfold settledRow
  split <;> exact ⟨rfl, rfl, rfl, rfl, rfl, rfl⟩

theorem grows_settled : Grows db (db.settled market settled now) where
  users := by
    rintro id ⟨u, hu⟩
    exact ⟨_, by rw [userById_settled, hu]; rfl⟩
  markets := by
    rintro id ⟨m, hm⟩
    exact ⟨_, by rw [marketById_settled, hm]; rfl⟩
  outcomes := fun _ _ => rfl
  bets := fun b hb => ⟨settledRow settled b, List.mem_map.mpr ⟨b, hb, rfl⟩,
    settledRow_sameStake settled b⟩

end Settled

section Saved
variable {db : Db} {user : User}

theorem savedRow_id (db : Db) (user : User) : (db.savedRow user).id = user.id := by
  unfold Db.savedRow
  split <;> rfl

theorem savedRow_balance (db : Db) (user : User) : (db.savedRow user).balance = user.balance := by
  unfold Db.savedRow
  split <;> rfl

theorem userById_saved (id : UserId) :
    (db.saved user).userById id = if user.id = id then some (db.savedRow user)
      else db.userById id := by
  unfold Db.userById Db.saved
  rw [Table.find?_upsert, savedRow_id]

theorem grows_saved : Grows db (db.saved user) where
  users := by
    rintro id ⟨u, hu⟩
    rw [Db.HasUser, userById_saved]
    split
    · exact ⟨_, rfl⟩
    · exact ⟨u, hu⟩
  markets := fun _ h => h
  outcomes := fun _ _ => rfl
  bets := fun b hb => ⟨b, hb, .refl b⟩

end Saved

section Created
variable {db : Db} {market : Market} {outcomes : List Outcome} {now : DateTime}

theorem marketById_created (id : MarketId) :
    (db.created market outcomes now).marketById id =
      if market.id = id then some market else db.marketById id :=
  Table.find?_upsert db.markets market id

theorem outcomesFor_created (h : CreateEnabled db market outcomes)
    (hown : ∀ o ∈ outcomes, o.marketId = market.id) (id : MarketId) :
    (db.created market outcomes now).outcomesFor id =
      db.outcomesFor id ++ if market.id = id then outcomes else [] := by
  unfold Db.outcomesFor
  rw [(rows_created h).1, List.filter_append]
  congr 1
  split
  · rename_i hid
    refine List.filter_eq_self.mpr fun o ho => ?_
    simp [hown o ho, hid]
  · rename_i hid
    refine List.filter_eq_nil_iff.mpr fun o ho => ?_
    simp [hown o ho, hid]

theorem grows_created (h : CreateEnabled db market outcomes)
    (hown : ∀ o ∈ outcomes, o.marketId = market.id) :
    Grows db (db.created market outcomes now) where
  users := fun _ h => h
  markets := by
    rintro id ⟨m, hm⟩
    rw [Db.HasMarket, marketById_created]
    split
    · exact ⟨_, rfl⟩
    · exact ⟨m, hm⟩
  outcomes := by
    rintro id ⟨m, hm⟩
    have hne : ¬market.id = id := by
      rintro rfl
      simp [h.freshMarket] at hm
    unfold Db.outcomeIds
    rw [outcomesFor_created h hown, if_neg hne, List.append_nil]
  bets := fun b hb => ⟨b, hb, .refl b⟩

end Created

inductive Write.Done (db : Db) (now : DateTime) : Write → Db → Prop where
  | create (market : Market) (outcomes : List Outcome) (at' : DateTime)
      (h : CreateEnabled db market outcomes) :
      Done db now (.create market outcomes at') (db.created market outcomes at')
  | place (bet : Bet) (priced : List Outcome) (points : List PricePoint)
      (h : PlaceEnabled db bet priced points) :
      Done db now (.place bet priced points) (db.placed bet priced points now)
  | settle (market : Market) (settled : List Bet) (h : PaidInRange db settled now) :
      Done db now (.settle market settled) (db.settled market settled now)
  | save (cause : SaveCause) (user : User) (h : user.uniqueError db = none) :
      Done db now (.save cause user) (db.saved user)

theorem Write.done {db db' : Db} {w : Write} {l : TxVars} (hok : w.Ok db)
    (h : pg.atomically w.program l db = .ok db') : w.Done db l.now db' := by
  cases w with
  | create market outcomes now =>
    obtain ⟨hen, rfl⟩ := create_ok h
    exact .create market outcomes now hen
  | place bet priced points =>
    have hnd : (priced.map Outcome.id).Nodup := by
      rw [hok.2.1]
      exact db.outcomeIds_nodup bet.marketId
    obtain ⟨hen, rfl⟩ := (place_ok hnd).mp h
    exact .place bet priced points hen
  | settle market settled =>
    obtain ⟨rfl, hin⟩ := settle_ok hok.2.2.1 h
    exact .settle market settled hin
  | save cause user =>
    obtain ⟨hun, rfl⟩ := save_ok h
    exact .save cause user hun

theorem Write.Done.grows {db db' : Db} {w : Write} {now : DateTime} (hok : w.Ok db)
    (h : w.Done db now db') : Grows db db' := by
  cases h with
  | create market outcomes at' hen => exact grows_created hen fun o ho => (hok.2.2.2.2 o ho).1
  | place bet priced points hen => exact grows_placed hen
  | settle market settled hin => exact grows_settled
  | save cause user hun => exact grows_saved

theorem Db.wf_empty : Db.empty.Wf := ⟨by simp [Db.empty], by simp [Db.empty], by simp [Db.empty],
  by simp [Db.empty]⟩

theorem Db.Wf.bets_of_grows {db db' : Db} (hwf : db.Wf) (hg : Grows db db') {b b' : Bet}
    (hb : b ∈ db.bets.rows) (hs : b'.SameStake b) :
    db'.HasUser b'.userId ∧ db'.HasMarket b'.marketId ∧
      b'.outcomeId ∈ db'.outcomeIds b'.marketId := by
  have hm := hwf.betMarket b hb
  rw [hs.userId, hs.marketId, hs.outcomeId, hg.outcomes _ hm]
  exact ⟨hg.users _ (hwf.betUser b hb), hg.markets _ hm, hwf.betOutcome b hb⟩

theorem Db.Wf.of_grows {db db' : Db} (hwf : db.Wf) (hg : Grows db db')
    (hout : ∀ o ∈ db'.outcomes.rows, db'.HasMarket o.marketId)
    (hbets : ∀ b' ∈ db'.bets.rows, (∃ b ∈ db.bets.rows, b'.SameStake b) ∨
      (db'.HasUser b'.userId ∧ db'.HasMarket b'.marketId ∧
        b'.outcomeId ∈ db'.outcomeIds b'.marketId)) : db'.Wf := by
  have hall : ∀ b' ∈ db'.bets.rows, db'.HasUser b'.userId ∧ db'.HasMarket b'.marketId ∧
      b'.outcomeId ∈ db'.outcomeIds b'.marketId := by
    intro b' hb'
    rcases hbets b' hb' with ⟨b, hb, hs⟩ | h
    · exact hwf.bets_of_grows hg hb hs
    · exact h
  exact ⟨hout, fun b hb => (hall b hb).1, fun b hb => (hall b hb).2.1,
    fun b hb => (hall b hb).2.2⟩

theorem Write.Done.wf {db db' : Db} {w : Write} {now : DateTime} (hwf : db.Wf) (hok : w.Ok db)
    (h : w.Done db now db') : db'.Wf := by
  have hg := h.grows hok
  cases h with
  | create market outcomes at' hen =>
    refine hwf.of_grows hg ?_ fun b hb => .inl ⟨b, hb, .refl b⟩
    intro o ho
    rw [(rows_created hen).1, List.mem_append] at ho
    rcases ho with ho | ho
    · exact hg.markets _ (hwf.outcomeMarket o ho)
    · rw [(hok.2.2.2.2 o ho).1]
      exact ⟨market, by rw [marketById_created, if_pos rfl]⟩
  | place bet priced points hen =>
    refine hwf.of_grows hg ?_ ?_
    · intro o ho
      obtain ⟨p, hp, rfl⟩ := List.mem_map.mp ho
      rw [repriced_marketId]
      exact hg.markets _ (hwf.outcomeMarket p hp)
    · intro b hb
      rw [rows_bets_placed hen, List.mem_append, List.mem_singleton] at hb
      rcases hb with hb | rfl
      · exact .inl ⟨b, hb, .refl b⟩
      · obtain ⟨-, huser, -, -⟩ := insertError_none hen.insertable
        obtain ⟨hm, -, hmem, -⟩ := hok
        refine .inr ⟨hg.users _ huser, hg.markets _ hm, ?_⟩
        rw [outcomeIds_placed]
        exact hmem
  | settle market settled hin =>
    refine hwf.of_grows hg (fun o ho => hg.markets _ (hwf.outcomeMarket o ho)) ?_
    intro b hb
    obtain ⟨r, hr, rfl⟩ := List.mem_map.mp hb
    exact .inl ⟨r, hr, settledRow_sameStake settled r⟩
  | save cause user hun =>
    exact hwf.of_grows hg (fun o ho => hg.markets _ (hwf.outcomeMarket o ho))
      fun b hb => .inl ⟨b, hb, .refl b⟩

end Betsphere
