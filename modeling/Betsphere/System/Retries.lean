import Betsphere.System.WellFormed
import Betsphere.Postgres.Locking
set_option autoImplicit false

namespace Betsphere
open MachineInt RowLock

def Act.ofCall (i : Nat) : Act → Bool
  | .step j _ => j = i
  | .fail j _ => j = i
  | _ => false

def KeepsTables (build : Build) (i : Nat) (s : Sys) (a : Act) : Prop :=
  a.ofCall i = true → ∀ s', s.step build a = some s' → s'.db = s.db

def Slot.readsBack : Slot → Bool
  | .running (.placeBet _ _ (.readPosition ..)) => true
  | _ => false

/-- The call at `i` has committed its bet, and reading the position back fails. -/
def readBackFails (i : Nat) (s : Sys) : Act → Bool
  | .fail j _ => j = i && s.calls[i]?.any Slot.readsBack
  | _ => false

/-- The bet is committed, and only a failed read-back can turn the answer into an error. -/
def Slot.staked : Slot → Bool
  | .running (.placeBet _ _ (.readPosition ..)) => true
  | .running _ => false
  | .returned _ (.error _) => false
  | .returned _ _ => true

def Sys.placementAt (s : Sys) (i : Nat) (actor : Actor) (input : NewBet) : Prop :=
  (∃ phase, s.calls[i]? = some (.running (.placeBet actor input phase))) ∨
    ∃ reply, s.calls[i]? = some (.returned (.placeBet actor input) reply)

theorem debit_writes {db : Db} {userId : UserId} {amount : Int} {vars vars' : TxVars}
    {ws : List RowVersion} (h : Statement.exec (.debit userId amount) vars db = .ok (ws, vars'))
    (id : BetId) : ∀ w ∈ ws, w.key ≠ some (.bet id) := by
  simp only [Statement.exec] at h
  split at h
  · simp at h
  · split at h
    · simp only [Except.ok.injEq, Prod.mk.injEq] at h
      simp [← h.1, RowVersion.key]
    · simp at h

theorem insertBet_writes {db : Db} {bet : Bet} {vars vars' : TxVars} {ws : List RowVersion}
    (h : Statement.exec (.insertBet bet) vars db = .ok (ws, vars')) :
    db.bets.find? bet.id = none ∧ ws = [.bet bet] := by
  cases hins : bet.insertError db with
  | some e => simp [Statement.exec, hins] at h
  | none =>
    simp only [Statement.exec, hins, Except.ok.injEq, Prod.mk.injEq] at h
    exact ⟨(insertError_none hins).1, h.1.symm⟩

theorem place_changes {db db' : Db} {bet : Bet} {priced : List Outcome} {points : List PricePoint}
    {vars : TxVars} (h : pg.atomically (placeProgram bet priced points) vars db = .ok db') :
    db' ≠ db := by
  obtain ⟨ws, l, hc, rfl⟩ := atomically_rows h
  simp only [placeProgram, List.cons_append, List.nil_append] at hc
  obtain ⟨ws₁, l₁, vs₁, h₁, hc₁, hw₁⟩ := Dialect.collect_cons_ok hc
  obtain ⟨ws₂, l₂, vs₂, h₂, hc₂, hw₂⟩ := Dialect.collect_cons_ok hc₁
  obtain ⟨ws₃, l₃, vs₃, h₃, -, hw₃⟩ := Dialect.collect_cons_ok hc₂
  have hselect : ws₂ = [] := by
    simp only [pg_exec, Statement.exec, Except.ok.injEq, Prod.mk.injEq] at h₂
    exact h₂.1.symm
  subst hselect
  obtain ⟨hfresh, hinserted⟩ := insertBet_writes h₃
  have hrow : db.row (.bet bet.id) = none := by
    rw [← row_apply_of_not_written (debit_writes h₁ bet.id) db]
    simp only [Db.row, Option.map_eq_none_iff]
    exact hfresh
  have hafter : ((pg.apply ws db).row (.bet bet.id)).isSome := by
    rw [hw₁, hw₂, hw₃, hinserted]
    simp only [Dialect.apply_append]
    refine row_apply_isSome vs₃ ?_
    rw [Dialect.apply_cons, Dialect.apply_nil, pg_write, row_write]
    simp [RowVersion.key]
  intro heq
  rw [heq, hrow] at hafter
  simp at hafter

theorem averagePrice_bounds {db : Db} {userId : UserId} {outcomeId : OutcomeId} {average : Int}
    (h : db.averagePrice userId outcomeId = some average) : 1 ≤ average ∧ average ≤ 10000 := by
  unfold Db.averagePrice at h
  cases hgroup : db.activePosition userId outcomeId with
  | nil => simp [hgroup] at h
  | cons first rest =>
    simp only [hgroup, Option.some.injEq] at h
    subst h
    have hamount := amountSum_pos (List.cons_ne_nil first rest)
    have hlow := amountSum_le_weightedSum (first :: rest)
    exact ⟨Decimal.le_floorRounded hamount (by linarith),
      Decimal.floorRounded_le hamount (weightedSum_le (first :: rest))⟩

theorem averagePrice_inRange {db : Db} {userId : UserId} {outcomeId : OutcomeId} {average : Int}
    (h : db.averagePrice userId outcomeId = some average) : 0 ≤ average ∧ average ≤ 10000 := by
  have hbounds := averagePrice_bounds h
  exact ⟨by omega, hbounds.2⟩

theorem PlaceBet.onPosition_average {db : Db} {market : Market} {user : User} {bet : Bet}
    {priced : List Outcome} {chosen : Nat} {userId : UserId} {outcomeId : OutcomeId}
    {e : ApplicationError} :
    PlaceBet.onPosition market user bet priced chosen (db.averagePrice userId outcomeId) ≠
      .error e := by
  have hview : ∀ price, PlaceBet.viewFor market user bet priced chosen price ≠ .error e := by
    intro price
    unfold PlaceBet.viewFor
    split <;> simp
  cases ha : db.averagePrice userId outcomeId with
  | none => exact hview bet.price
  | some average =>
    simp only [PlaceBet.onPosition, Price.fromTenThousandths_of_inRange (averagePrice_inRange ha)]
    exact hview _

section Step
variable {build : Build} {s s' : Sys} {a : Act} {i : Nat} {actor : Actor} {input : NewBet}

theorem Sys.step_placement {phase : PlaceBet.Phase}
    (hcall : s.calls[i]? = some (.running (.placeBet actor input phase)))
    (ha : a.ofCall i = true) (hs : s.step build a = some s') :
    (∃ env cache next, PlaceBet.read build env s.db s.cache actor input phase = some (cache, next) ∧
      (∃ env', a = .step i env') ∧ s'.db = s.db ∧
      s'.calls[i]? = some (next.slot (.placeBet actor input) (.placeBet actor input))) ∨
    (∃ e, ((∃ message, a = .fail i message) ∨ (PlaceBet.write? phase).isSome) ∧ s'.db = s.db ∧
      s'.calls[i]? = some (.returned (.placeBet actor input) (.error e))) ∨
    ∃ market user bet priced chosen points vars, phase = .place market user bet priced chosen points ∧
      pg.atomically (placeProgram bet priced points) vars s.db = .ok s'.db ∧
      s'.calls[i]? = some (.running (.placeBet actor input
        (.readPosition market user bet priced chosen))) := by
  have hlt : i < s.calls.length := (List.getElem?_eq_some_iff.mp hcall).1
  have hself : ∀ x : Slot, (s.calls.set i x)[i]? = some x := fun x => List.getElem?_set_self hlt
  cases a with
  | step j env =>
    obtain rfl : j = i := by simpa [Act.ofCall] using ha
    cases Sys.step_effect hs with
    | read j env call cache slot hcall' hread hr =>
      rw [hcall] at hcall'
      cases hcall'
      simp only [Call.read, Option.map_eq_some_iff] at hr
      obtain ⟨⟨cache₁, next⟩, hr, heq⟩ := hr
      cases heq
      exact .inl ⟨env, cache₁, next, hr, ⟨env, rfl⟩, rfl, hself _⟩
    | committed j env call w db hcall' hwrite hc =>
      rw [hcall] at hcall'
      cases hcall'
      cases phase <;> simp [Call.write?, PlaceBet.write?] at hwrite
      subst hwrite
      exact .inr (.inr ⟨_, _, _, _, _, _, env.txVars, rfl, hc, hself _⟩)
    | refused j env call w e hcall' hwrite hc =>
      rw [hcall] at hcall'
      cases hcall'
      cases phase <;> simp [Call.write?, PlaceBet.write?] at hwrite
      exact .inr (.inl ⟨_, .inr rfl, rfl, hself _⟩)
  | fail j message =>
    obtain rfl : j = i := by simpa [Act.ofCall] using ha
    cases Sys.step_effect hs with
    | failed j message call hcall' =>
      rw [hcall] at hcall'
      cases hcall'
      exact .inr (.inl ⟨_, .inl ⟨message, rfl⟩, rfl, hself _⟩)
  | _ => simp [Act.ofCall] at ha

theorem Sys.step_returned {request : Request} {reply : Reply}
    (hcall : s.calls[i]? = some (.returned request reply)) (ha : a.ofCall i = true) :
    s.step build a = none := by
  cases a with
  | step j env =>
    obtain rfl : j = i := by simpa [Act.ofCall] using ha
    simp [Sys.step, hcall]
  | fail j message =>
    obtain rfl : j = i := by simpa [Act.ofCall] using ha
    simp [Sys.step, hcall]
  | _ => simp [Act.ofCall] at ha

theorem Sys.step_apart {x : Slot} (hx : s.calls[i]? = some x) (ha : a.ofCall i = false)
    (hs : s.step build a = some s') : s'.calls[i]? = some x := by
  rw [(Sys.step_effect hs).untouched (List.getElem?_eq_some_iff.mp hx).1 ?_ ?_]
  · exact hx
  · rintro env rfl
    simp [Act.ofCall] at ha
  · rintro message rfl
    simp [Act.ofCall] at ha

theorem Sys.placementAt.slot (h : s.placementAt i actor input) : ∃ x, s.calls[i]? = some x := by
  rcases h with ⟨phase, h⟩ | ⟨reply, h⟩
  · exact ⟨_, h⟩
  · exact ⟨_, h⟩

theorem Next.slot_placementAt {next : Next PlaceBet.Phase}
    (h : s.calls[i]? = some (next.slot (.placeBet actor input) (.placeBet actor input))) :
    s.placementAt i actor input := by
  cases next with
  | goto phase => exact .inl ⟨phase, h⟩
  | reply r => exact .inr ⟨r, h⟩

theorem Sys.placementAt.step (h : s.placementAt i actor input)
    (hs : s.step build a = some s') : s'.placementAt i actor input := by
  cases ha : a.ofCall i with
  | false =>
    rcases h with ⟨phase, h⟩ | ⟨reply, h⟩
    · exact .inl ⟨phase, Sys.step_apart h ha hs⟩
    · exact .inr ⟨reply, Sys.step_apart h ha hs⟩
  | true =>
    rcases h with ⟨phase, h⟩ | ⟨reply, h⟩
    · rcases Sys.step_placement h ha hs with ⟨_, _, next, -, -, -, hnext⟩ | ⟨e, -, -, hret⟩ |
        ⟨_, _, _, _, _, _, _, -, -, hback⟩
      · exact Next.slot_placementAt hnext
      · exact .inr ⟨_, hret⟩
      · exact .inl ⟨_, hback⟩
    · simp [Sys.step_returned h ha] at hs

theorem PlaceBet.read_notBack {env : Env} {db : Db} {cache cache' : Cache}
    {phase : PlaceBet.Phase} {next : Next PlaceBet.Phase}
    (h : PlaceBet.read build env db cache actor input phase = some (cache', next)) :
    (next.slot (.placeBet actor input) (.placeBet actor input)).readsBack = false := by
  cases next with
  | reply r => rfl
  | goto phase' =>
    cases phase with
    | readOutcome =>
      simp only [PlaceBet.read, Option.some.injEq, Prod.mk.injEq] at h
      cases ho : db.outcomeById input.outcomeId <;> simp [ho, PlaceBet.onOutcome] at h
      rw [← h.2]
      rfl
    | readMarket outcome =>
      simp only [PlaceBet.read, Option.some.injEq, Prod.mk.injEq] at h
      cases hm : db.marketById outcome.marketId with
      | none => simp [hm, PlaceBet.onMarket] at h
      | some m =>
        simp only [hm, PlaceBet.onMarket] at h
        split at h
        · rw [← Next.goto.inj h.2]
          rfl
        · simp [Next.domainError] at h
    | readOutcomes market =>
      simp only [PlaceBet.read, PlaceBet.onOutcomes, Option.some.injEq, Prod.mk.injEq] at h
      split at h
      · simp [Next.domainError] at h
      · rw [← Next.goto.inj h.2]
        rfl
    | findUser market outcomes chosen lookup =>
      simp only [PlaceBet.read] at h
      cases ha : lookup.advance actor.userId env db cache with
      | mk cache₁ result =>
        cases result with
        | inl l =>
          simp only [ha, Option.some.injEq, Prod.mk.injEq] at h
          rw [← Next.goto.inj h.2]
          rfl
        | inr found =>
          simp only [ha, Option.some.injEq, Prod.mk.injEq] at h
          obtain ⟨user, bet, backed, priced, -, -, rfl⟩ := PlaceBet.onUser_goto h.2
          rfl
    | place market user bet priced chosen points => simp [PlaceBet.read] at h
    | readPosition market user bet priced chosen => simp [PlaceBet.read] at h

/-- Where no action of the call changes a table, the call never gets to its read-back. -/
theorem notBack_step (h : s.placementAt i actor input)
    (hback : s.calls[i]?.any Slot.readsBack = false) (hkeep : KeepsTables build i s a)
    (hs : s.step build a = some s') : s'.calls[i]?.any Slot.readsBack = false := by
  cases ha : a.ofCall i with
  | false =>
    obtain ⟨x, hx⟩ := h.slot
    rw [hx] at hback
    rw [Sys.step_apart hx ha hs]
    exact hback
  | true =>
    rcases h with ⟨phase, h⟩ | ⟨reply, h⟩
    · rcases Sys.step_placement h ha hs with ⟨_, _, next, hread, -, -, hnext⟩ | ⟨e, -, -, hret⟩ |
        ⟨_, _, _, _, _, _, _, -, hc, -⟩
      · rw [hnext]
        exact PlaceBet.read_notBack hread
      · rw [hret]
        rfl
      · exact absurd (hkeep ha s' hs) (place_changes hc)
    · simp [Sys.step_returned h ha] at hs

theorem readBackFails_step (h : s.placementAt i actor input)
    (hs : s.step build a = some s') :
    readBackFails i s a = false ∨
      ∃ e, s'.calls[i]? = some (.returned (.placeBet actor input) (.error e)) := by
  cases a with
  | fail j message =>
    by_cases hj : j = i
    · subst hj
      rcases h with ⟨phase, h⟩ | ⟨reply, h⟩
      · rcases Sys.step_placement h (by simp [Act.ofCall]) hs with
          ⟨_, _, next, -, ⟨env, heq⟩, -, -⟩ | ⟨e, -, -, hret⟩ | ⟨_, _, _, _, _, _, _, rfl, -, -⟩
        · simp at heq
        · exact .inr ⟨e, hret⟩
        · exact .inl (by simp [readBackFails, h, Slot.readsBack])
      · exact .inl (by simp [readBackFails, h, Slot.readsBack])
    · exact .inl (by simp [readBackFails, hj])
  | _ => exact .inl rfl

theorem returned_step {request : Request} {reply : Reply}
    (h : s.calls[i]? = some (.returned request reply)) (hs : s.step build a = some s') :
    s'.calls[i]? = some (.returned request reply) := by
  cases ha : a.ofCall i with
  | false => exact Sys.step_apart h ha hs
  | true => simp [Sys.step_returned h ha] at hs

theorem keeps_or_staked (h : s.placementAt i actor input) (hs : s.step build a = some s') :
    KeepsTables build i s a ∨ s'.calls[i]?.any Slot.staked = true := by
  cases ha : a.ofCall i with
  | false => exact .inl fun hown => by simp [ha] at hown
  | true =>
    have hkeeps : s'.db = s.db → KeepsTables build i s a := by
      intro hdb _ u hu
      rw [hs] at hu
      cases hu
      exact hdb
    rcases h with ⟨phase, h⟩ | ⟨reply, h⟩
    · rcases Sys.step_placement h ha hs with ⟨_, _, next, -, -, hdb, -⟩ | ⟨e, -, hdb, -⟩ |
        ⟨_, _, _, _, _, _, _, -, -, hback⟩
      · exact .inl (hkeeps hdb)
      · exact .inl (hkeeps hdb)
      · exact .inr (by rw [hback]; rfl)
    · simp [Sys.step_returned h ha] at hs

theorem staked_step (h : s.placementAt i actor input)
    (hstaked : s.calls[i]?.any Slot.staked = true) (hback : readBackFails i s a = false)
    (hs : s.step build a = some s') : s'.calls[i]?.any Slot.staked = true := by
  cases ha : a.ofCall i with
  | false =>
    obtain ⟨x, hx⟩ := h.slot
    rw [hx] at hstaked
    rw [Sys.step_apart hx ha hs]
    exact hstaked
  | true =>
    rcases h with ⟨phase, h⟩ | ⟨reply, h⟩
    · rw [h] at hstaked
      cases phase with
      | readPosition market user bet priced chosen =>
        rcases Sys.step_placement h ha hs with ⟨_, _, next, hread, -, -, hnext⟩ |
          ⟨e, hcause, -, -⟩ | ⟨_, _, _, _, _, _, _, heq, -, -⟩
        · cases hread
          rw [hnext]
          cases hr : PlaceBet.onPosition market user bet priced chosen
              (s.db.averagePrice actor.userId input.outcomeId) with
          | error e => exact absurd hr PlaceBet.onPosition_average
          | _ => rfl
        · rcases hcause with ⟨message, rfl⟩ | hwrite
          · simp [readBackFails, h, Slot.readsBack] at hback
          · simp [PlaceBet.write?] at hwrite
        · simp at heq
      | _ => simp [Slot.staked] at hstaked
    · simp [Sys.step_returned h ha] at hs

end Step

def Sys.beforeBack (s : Sys) (i : Nat) (actor : Actor) (input : NewBet) : Prop :=
  s.placementAt i actor input ∧ s.calls[i]?.any Slot.readsBack = false

def Sys.stakedAt (s : Sys) (i : Nat) (actor : Actor) (input : NewBet) : Prop :=
  s.placementAt i actor input ∧ s.calls[i]?.any Slot.staked = true

theorem Sys.beforeBack.step {build : Build} {s s' : Sys} {a : Act} {i : Nat} {actor : Actor}
    {input : NewBet} (h : s.beforeBack i actor input) (hkeep : KeepsTables build i s a)
    (hs : s.step build a = some s') : s'.beforeBack i actor input :=
  ⟨h.1.step hs, notBack_step h.1 h.2 hkeep hs⟩

theorem Sys.beforeBack.ok {s : Sys} {i : Nat} {actor : Actor} {input : NewBet}
    (h : s.beforeBack i actor input) (a : Act) : readBackFails i s a = false := by
  cases a <;> simp [readBackFails, h.2]

theorem Sys.stakedAt.step {build : Build} {s s' : Sys} {a : Act} {i : Nat} {actor : Actor}
    {input : NewBet} (h : s.stakedAt i actor input) (hok : readBackFails i s a = false)
    (hs : s.step build a = some s') : s'.stakedAt i actor input :=
  ⟨h.1.step hs, staked_step h.1 h.2 hok hs⟩

/-- A placement that answers with an error has changed no table, exactly in the runs in
which its read-back after the commit does not fail. Anything may run in between. -/
theorem failed_bet_free {build : Build} {s t : Sys} {as : List Act} {i : Nat} {actor : Actor}
    {input : NewBet} (hcall : s.calls[i]? = some (.running (.placeBet actor input .readOutcome)))
    (h : Transition.run (Sys.step build) s as = some t) :
    ((∃ e, t.calls[i]? = some (.returned (.placeBet actor input) (.error e))) →
      Transition.Guarded (Sys.step build) (KeepsTables build i) s as) ↔
    Transition.Guarded (Sys.step build) (fun u a => readBackFails i u a = false) s as := by
  have hstart : s.placementAt i actor input := .inl ⟨_, hcall⟩
  have hplacement : ∀ u a u', u.placementAt i actor input → Sys.step build u a = some u' →
      u'.placementAt i actor input := fun _ _ _ hu hs => hu.step hs
  constructor
  · intro hfree
    by_cases hend : ∃ e, t.calls[i]? = some (.returned (.placeBet actor input) (.error e))
    · have hbefore : s.beforeBack i actor input := ⟨hstart, by rw [hcall]; rfl⟩
      have hkept : ∀ u a u', u.beforeBack i actor input → KeepsTables build i u a →
          Sys.step build u a = some u' → u'.beforeBack i actor input :=
        fun _ _ _ hu hkeep hs => hu.step hkeep hs
      exact Transition.guarded_invariant hkept (fun _ a hu _ => hu.ok a) hbefore (hfree hend)
    · refine Transition.guarded_of_end (fun u a u' hu _ hs => hplacement u a u' hu hs)
        (fun u a u' hu _ hs => readBackFails_step hu hs) ?_ hstart
        (Transition.guarded_true s as) h hend
      intro u a u' hu _ hs
      obtain ⟨e, hu⟩ := hu
      exact ⟨e, returned_step hu hs⟩
  · intro hback hend
    obtain ⟨e, hend⟩ := hend
    have hstaked : ∀ u a u', u.stakedAt i actor input → readBackFails i u a = false →
        Sys.step build u a = some u' → u'.stakedAt i actor input :=
      fun _ _ _ hu hok hs => hu.step hok hs
    have hclear : ¬t.stakedAt i actor input := by
      intro hstaked
      have hslot := hstaked.2
      rw [hend] at hslot
      simp [Slot.staked] at hslot
    refine Transition.guarded_of_end (fun u a u' hu _ hs => hplacement u a u' hu hs)
      (fun u a u' hu _ hs => ?_) hstaked hstart hback h hclear
    exact (keeps_or_staked hu hs).imp id fun hcommitted => ⟨hu.step hs, hcommitted⟩

namespace Sample

def asked : List Act := opening ++ [bet ⟨1⟩ ⟨101⟩ 50]

def losesTransaction : List Act := steps 1 6 200 ++ [.fail 1 "connection reset"]

def losesReadBack : List Act := steps 1 7 200 ++ [.fail 1 "connection reset"]

end Sample

theorem failed_bet_free_lost_transaction :
    let s := Sample.state Sample.asked
    (Sample.state (Sample.asked ++ Sample.losesTransaction)).calls[1]? =
        some (.returned (.placeBet ⟨⟨1⟩, .user⟩ ⟨⟨101⟩, 50⟩)
          (.error (.internal "connection reset"))) ∧
      Transition.Guarded (Sys.step .debug) (KeepsTables .debug 1) s Sample.losesTransaction := by
  have hend : (Sample.state (Sample.asked ++ Sample.losesTransaction)).calls[1]? =
      some (.returned (.placeBet ⟨⟨1⟩, .user⟩ ⟨⟨101⟩, 50⟩)
        (.error (.internal "connection reset"))) := by decide +kernel
  refine ⟨hend, ?_⟩
  exact (failed_bet_free (by decide +kernel) (Sample.run_from (by decide +kernel))).mpr
    (by decide +kernel) ⟨_, hend⟩

/-- The bet is committed, then the connection is lost: the answer is an error and the
stake is gone. -/
theorem failed_bet_stakes :
    let before := (Sample.state Sample.asked).db
    let after := Sample.state (Sample.asked ++ Sample.losesReadBack)
    after.calls[1]? = some (.returned (.placeBet ⟨⟨1⟩, .user⟩ ⟨⟨101⟩, 50⟩)
        (.error (.internal "connection reset"))) ∧
      (before.userById ⟨1⟩).map User.balance = some 10000 ∧
      (after.db.userById ⟨1⟩).map User.balance = some 9950 ∧
      before.bets.rows.length = 0 ∧ after.db.bets.rows.length = 1 := by
  decide +kernel

end Betsphere
