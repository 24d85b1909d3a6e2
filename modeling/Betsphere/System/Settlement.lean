import Betsphere.System.WellFormed
set_option autoImplicit false

/-!
Settlement. The guards against settling twice and against late bets look at copies; the
statements of the two transactions repeat neither. What holds is what holds of the runs
in which every transaction finds the tables as its copies say.
-/

namespace Betsphere
open MachineInt

def Db.isResolved (db : Db) (id : MarketId) : Bool :=
  (db.marketById id).any fun m => m.status = .resolved

def Write.settles (id : MarketId) : Write → Bool
  | .settle market _ => market.id = id
  | _ => false

/-- A settlement runs only while the stored market is not resolved. -/
def settlesFresh (s : Sys) (a : Act) : Bool :=
  match s.writing? a with
  | some (.settle market _) => !s.db.isResolved market.id
  | _ => true

/-- A placement runs only while the stored market is not resolved, and a settlement
settles every stored active bet of its market. -/
def settlesAll (s : Sys) (a : Act) : Bool :=
  match s.writing? a with
  | some (.place bet _ _) => !s.db.isResolved bet.marketId
  | some (.settle market settled) =>
    (s.db.activeForMarket market.id).all fun b => settled.any fun r => r.id = b.id
  | _ => true

/-- The payouts a transaction credits for a bet. -/
def Write.paidFor (id : BetId) : Write → List Int
  | .settle _ settled => settled.filterMap fun b => if b.id = id then b.payout else none
  | _ => []

def credited (log : List (Write × Db)) (id : BetId) : List Int :=
  log.flatMap fun entry => entry.1.paidFor id

def Slot.resolvedOk (id : MarketId) : Slot → Bool
  | .returned (.resolveMarket _ marketId _) (.market _ _) => marketId = id
  | _ => false

def Db.SettledResolved (db : Db) : Prop :=
  ∀ b ∈ db.bets.rows, b.status ≠ .active → db.isResolved b.marketId = true

def Db.NoneStranded (db : Db) : Prop :=
  ∀ b ∈ db.bets.rows, b.status = .active → db.isResolved b.marketId = false

theorem isResolved_iff {db : Db} {id : MarketId} :
    db.isResolved id = true ↔ ∃ m, db.marketById id = some m ∧ m.status = .resolved := by
  unfold Db.isResolved
  cases db.marketById id <;> simp

section Done
variable {db db' : Db} {w : Write} {now : DateTime}

theorem Write.Done.isResolved (hok : w.Ok db) (h : w.Done db now db') (id : MarketId) :
    db'.isResolved id = (db.isResolved id || w.settles id) := by
  unfold Db.isResolved
  cases h with
  | create market outcomes at' hen =>
    rw [marketById_created]
    by_cases hid : market.id = id
    · subst hid
      simp [hen.freshMarket, hok.1, Write.settles]
    · simp [hid, Write.settles]
  | place bet priced points hen =>
    rw [marketById_placed]
    cases db.marketById id with
    | none => simp [Write.settles]
    | some m => by_cases hm : m.id = bet.marketId <;> simp [hm, Write.settles]
  | settle market settled hin =>
    obtain ⟨⟨m₀, hm₀⟩, hstatus, -⟩ := hok
    rw [marketById_settled]
    cases hm : db.marketById id with
    | none =>
      have hne : ¬market.id = id := by
        rintro rfl
        simp [hm₀] at hm
      simp [Write.settles, hne]
    | some m =>
      have hid : m.id = id := Table.find?_key hm
      by_cases heq : m.id = market.id
      · simp [Write.settles, heq, ← hid, hstatus]
      · have hne : ¬market.id = m.id := fun h => heq h.symm
        simp [Write.settles, heq, ← hid, hne]
  | save cause user hun => simp [Db.saved, Db.marketById, Write.settles]

theorem Write.Done.winner_kept (h : w.Done db now db') {id : MarketId} {m : Market}
    (hm : db.marketById id = some m) (hother : w.settles id = false) :
    ∃ m', db'.marketById id = some m' ∧ m'.status = m.status ∧
      m'.resolvedOutcomeId = m.resolvedOutcomeId := by
  cases h with
  | create market outcomes at' hen =>
    have hne : ¬market.id = id := by
      rintro rfl
      simp [hen.freshMarket] at hm
    exact ⟨m, by rw [marketById_created, if_neg hne]; exact hm, rfl, rfl⟩
  | place bet priced points hen =>
    refine ⟨_, by rw [marketById_placed, hm, Option.map_some], ?_⟩
    by_cases hb : m.id = bet.marketId <;> simp [hb]
  | settle market settled hin =>
    have hid : m.id = id := Table.find?_key hm
    have hne : ¬m.id = market.id := by
      intro heq
      simp [Write.settles, ← hid, heq] at hother
    exact ⟨m, by simp [marketById_settled, hm, hne], rfl, rfl⟩
  | save cause user hun => exact ⟨m, hm, rfl, rfl⟩

theorem settled_row {market : Market} {settled : List Bet}
    (hok : (Write.settle market settled).Ok db) {s r : Bet} (hs : s ∈ settled)
    (hr : r ∈ db.bets.rows) (hid : s.id = r.id) : r.SameStake s ∧ r.marketId = market.id := by
  obtain ⟨-, -, -, winner, -, -, hall⟩ := hok
  obtain ⟨hmarket, -, b, hb, hsame⟩ := hall s hs
  have hbr : b = r := Table.eq_of_key hb hr (hsame.id.trans hid)
  subst hbr
  exact ⟨hsame, hsame.marketId.trans hmarket⟩

theorem settledRow_cases {market : Market} {settled : List Bet}
    (hok : (Write.settle market settled).Ok db) {r : Bet} (hr : r ∈ db.bets.rows) :
    settledRow settled r = r ∧ (∀ s ∈ settled, s.id ≠ r.id) ∨
      ∃ s ∈ settled, s.id = r.id ∧ r.SameStake s ∧ r.marketId = market.id ∧
        settledRow settled r = { r with status := s.status, payout := s.payout } := by
  cases hf : settled.find? fun s => s.id = r.id with
  | none =>
    refine .inl ⟨by simp [settledRow, hf], fun s hs hid => ?_⟩
    have := List.find?_eq_none.mp hf s hs
    simp [hid] at this
  | some s =>
    have hs := List.mem_of_find?_eq_some hf
    have hid : s.id = r.id := by simpa using List.find?_some hf
    obtain ⟨hsame, hmarket⟩ := settled_row hok hs hr hid
    exact .inr ⟨s, hs, hid, hsame, hmarket, by simp [settledRow, hf]⟩

theorem settled_inactive {market : Market} {settled : List Bet}
    (hok : (Write.settle market settled).Ok db) {s : Bet} (hs : s ∈ settled) :
    s.status ≠ .active := by
  obtain ⟨-, -, -, winner, -, -, hall⟩ := hok
  rw [(hall s hs).2.1.status]
  split <;> simp

theorem inactive_untouched {market : Market} {settled : List Bet}
    (hok : (Write.settle market settled).Ok db) (hsr : db.SettledResolved)
    (hfresh : db.isResolved market.id = false) {r : Bet} (hr : r ∈ db.bets.rows)
    (hstatus : r.status ≠ .active) : settledRow settled r = r ∧ ∀ s ∈ settled, s.id ≠ r.id := by
  rcases settledRow_cases hok hr with hsame | ⟨s, -, -, -, hmarket, -⟩
  · exact hsame
  · have hres := hsr r hr hstatus
    rw [hmarket, hfresh] at hres
    simp at hres

def Write.Fresh (db : Db) : Write → Prop
  | .settle market _ => db.isResolved market.id = false
  | _ => True

theorem Write.Done.bet_kept (hok : w.Ok db) (h : w.Done db now db') (hfresh : w.Fresh db)
    (hsr : db.SettledResolved) {r : Bet} (hr : r ∈ db.bets.rows) (hstatus : r.status ≠ .active) :
    r ∈ db'.bets.rows := by
  cases h with
  | create market outcomes at' hen => exact hr
  | place bet priced points hen =>
    rw [rows_bets_placed hen]
    exact List.mem_append_left _ hr
  | settle market settled hin =>
    rw [rows_bets_settled]
    exact List.mem_map.mpr ⟨r, hr, (inactive_untouched hok hsr hfresh hr hstatus).1⟩
  | save cause user hun => exact hr

theorem Write.Done.settledResolved (hok : w.Ok db) (h : w.Done db now db')
    (hsr : db.SettledResolved) : db'.SettledResolved := by
  have hres := h.isResolved hok
  intro r' hr' hstatus
  rw [hres]
  cases h with
  | create market outcomes at' hen => simp [hsr r' hr' hstatus]
  | place bet priced points hen =>
    rw [rows_bets_placed hen, List.mem_append, List.mem_singleton] at hr'
    rcases hr' with hr' | rfl
    · simp [hsr r' hr' hstatus]
    · exact absurd hok.2.2.2.1 hstatus
  | settle market settled hin =>
    obtain ⟨r, hr, rfl⟩ := List.mem_map.mp hr'
    rw [(settledRow_sameStake settled r).marketId]
    rcases settledRow_cases hok hr with ⟨hsame, -⟩ | ⟨s, -, -, -, hmarket, -⟩
    · rw [hsame] at hstatus
      simp [hsr r hr hstatus]
    · simp [Write.settles, hmarket]
  | save cause user hun => simp [hsr r' hr' hstatus]

end Done

theorem settlesFresh_commits {s : Sys} {a : Act} {w : Write} (hg : settlesFresh s a = true)
    (hc : s.Commits a w) : w.Fresh s.db := by
  rcases hc with hw | ⟨id, username, email, hash, now, -, -, rfl⟩
  · cases w with
    | settle market settled =>
      have hfresh : s.db.isResolved market.id = false := by simpa [settlesFresh, hw] using hg
      exact hfresh
    | _ => trivial
  · trivial

theorem credited_cons (w : Write) (db : Db) (log : List (Write × Db)) (id : BetId) :
    credited ((w, db) :: log) id = w.paidFor id ++ credited log id := rfl

theorem paidFor_length {settled : List Bet} (hnd : (settled.map Bet.id).Nodup) (id : BetId) :
    (settled.filterMap fun b => if b.id = id then b.payout else none).length ≤ 1 := by
  induction settled with
  | nil => simp
  | cons b rest ih =>
    rw [List.map_cons, List.nodup_cons] at hnd
    by_cases hb : b.id = id
    · have hnil : (rest.filterMap fun r => if r.id = id then r.payout else none) = [] := by
        rw [List.filterMap_eq_nil_iff]
        intro r hr
        have hne : ¬r.id = id := fun h => hnd.1 (List.mem_map.mpr ⟨r, hr, h.trans hb.symm⟩)
        simp [hne]
      cases hp : b.payout <;> simp [hb, hp, hnil]
    · simpa [hb] using ih hnd.2

/-- A payout was credited at most once, and then the bet is no longer active. -/
def PaidOnce (db : Db) (log : List (Write × Db)) : Prop :=
  ∀ id, (credited log id).length ≤ 1 ∧
    (credited log id ≠ [] → ∃ b ∈ db.bets.rows, b.id = id ∧ b.status ≠ .active)

theorem paidFor_mem {market : Market} {settled : List Bet} {id : BetId}
    (h : (Write.settle market settled).paidFor id ≠ []) : ∃ r ∈ settled, r.id = id := by
  obtain ⟨p, hmem⟩ := List.exists_mem_of_ne_nil _ h
  obtain ⟨r, hr, hrp⟩ := List.mem_filterMap.mp hmem
  refine ⟨r, hr, ?_⟩
  by_contra hne
  simp [hne] at hrp

/-- A fresh settlement that pays a bet finds it active and never paid before. -/
theorem settled_first {db : Db} {market : Market} {settled : List Bet} {log : List (Write × Db)}
    (hok : (Write.settle market settled).Ok db) (hsr : db.SettledResolved)
    (hfresh : db.isResolved market.id = false) (h : PaidOnce db log) {r : Bet} (hr : r ∈ settled) :
    credited log r.id = [] := by
  obtain ⟨-, -, -, winner, -, -, hall⟩ := id hok
  obtain ⟨-, -, b, hb, hsame⟩ := hall r hr
  by_contra hne
  obtain ⟨b', hb', hid', hstatus⟩ := (h r.id).2 hne
  rw [Table.eq_of_key hb' hb (hid'.trans hsame.id.symm)] at hstatus
  exact (inactive_untouched hok hsr hfresh hb hstatus).2 r hr hsame.id.symm

theorem PaidOnce.done {db db' : Db} {w : Write} {now : DateTime} {log : List (Write × Db)}
    (hok : w.Ok db) (hdone : w.Done db now db') (hsr : db.SettledResolved) (hfresh : w.Fresh db)
    (h : PaidOnce db log) : PaidOnce db' ((w, db') :: log) := by
  intro betId
  obtain ⟨hlen, hsettled⟩ := h betId
  rw [credited_cons]
  by_cases hp : w.paidFor betId = []
  · rw [hp, List.nil_append]
    refine ⟨hlen, fun hne => ?_⟩
    obtain ⟨b, hb, hid, hstatus⟩ := hsettled hne
    exact ⟨b, hdone.bet_kept hok hfresh hsr hb hstatus, hid, hstatus⟩
  · cases hdone with
    | settle market settled hin =>
      obtain ⟨r, hr, rfl⟩ := paidFor_mem hp
      rw [settled_first hok hsr hfresh h hr, List.append_nil]
      obtain ⟨-, -, hnd, winner, -, -, hall⟩ := id hok
      obtain ⟨-, -, b, hb, hsame⟩ := hall r hr
      refine ⟨paidFor_length hnd r.id, fun _ => ⟨settledRow settled b, ?_, ?_, ?_⟩⟩
      · exact List.mem_map.mpr ⟨b, hb, rfl⟩
      · exact (settledRow_id settled b).trans hsame.id
      · rcases settledRow_cases hok hb with ⟨-, hnone⟩ | ⟨s, hs, -, -, -, hrow⟩
        · exact absurd hsame.id.symm (hnone r hr)
        · have hstatus := settled_inactive hok hs
          rw [hrow]
          exact hstatus
    | _ => exact absurd rfl hp

theorem Next.slot_resolvedOk {φ : Type} {request : Request} {call : φ → Call} {next : Next φ}
    {id : MarketId} (h : (next.slot request call).resolvedOk id = true) :
    ∃ actor winner market outcomes, request = .resolveMarket actor id winner ∧
      next = .reply (.market market outcomes) := by
  cases next with
  | goto phase => simp [Next.slot, Slot.resolvedOk] at h
  | reply r =>
    simp only [Next.slot, Slot.resolvedOk] at h
    split at h
    · rename_i actor marketId winner market outcomes heq
      cases heq
      have hid : marketId = id := by simpa using h
      exact ⟨actor, winner, market, outcomes, by rw [hid], rfl⟩
    · simp at h

theorem ResolveMarket.read_reply {env : Env} {db : Db} {cache cache' : Cache} {marketId : MarketId}
    {winner : OutcomeId} {phase : ResolveMarket.Phase} {market : Market} {outcomes : List Outcome} :
    ResolveMarket.read env db cache marketId winner phase ≠
      some (cache', .reply (.market market outcomes)) := by
  intro h
  cases phase with
  | readMarket =>
    simp only [ResolveMarket.read, ResolveMarket.onMarket, Option.some.injEq, Prod.mk.injEq] at h
    split at h <;> simp at h
  | readOutcomes m =>
    simp only [ResolveMarket.read, ResolveMarket.onOutcomes, Option.some.injEq,
      Prod.mk.injEq] at h
    split at h
    · split at h <;> simp [Next.domainError] at h
    · simp [Next.domainError] at h
  | readActive m os =>
    simp only [ResolveMarket.read, ResolveMarket.onActive] at h
    split at h
    · simp only [Option.some.injEq, Prod.mk.injEq] at h
      split at h <;> simp [Next.domainError] at h
    · simp at h
  | settle m os settled => simp [ResolveMarket.read] at h

theorem Call.read_unresolved {build : Build} {env : Env} {db : Db} {cache cache' : Cache}
    {call : Call} {slot : Slot} (h : call.read build env db cache = some (cache', slot))
    (id : MarketId) : slot.resolvedOk id = false := by
  by_contra hok
  rw [Bool.not_eq_false] at hok
  cases call with
  | createMarket actor input prepared => simp [Call.read] at h
  | placeBet actor input phase =>
    simp only [Call.read, Option.map_eq_some_iff] at h
    obtain ⟨⟨cache₁, next⟩, -, heq⟩ := h
    cases heq
    obtain ⟨_, _, _, _, hreq, -⟩ := Next.slot_resolvedOk hok
    simp at hreq
  | resolveMarket actor marketId winner phase =>
    simp only [Call.read, Option.map_eq_some_iff] at h
    obtain ⟨⟨cache₁, next⟩, hr, heq⟩ := h
    cases heq
    obtain ⟨_, _, market, outcomes, -, hnext⟩ := Next.slot_resolvedOk hok
    simp only at hnext
    rw [hnext] at hr
    exact ResolveMarket.read_reply hr
  | profile job phase =>
    simp only [Call.read, Option.map_eq_some_iff] at h
    obtain ⟨⟨cache₁, next⟩, -, heq⟩ := h
    cases heq
    obtain ⟨_, _, _, _, hreq, -⟩ := Next.slot_resolvedOk hok
    simp at hreq

theorem Request.begin_unresolved (build : Build) (env : Env) (request : Request) (id : MarketId) :
    (request.begin build env).resolvedOk id = false := by
  by_contra hok
  rw [Bool.not_eq_false] at hok
  cases request with
  | createMarket actor input =>
    obtain ⟨_, _, _, _, hreq, -⟩ := Next.slot_resolvedOk hok
    simp at hreq
  | placeBet actor input => simp [Request.begin, Slot.resolvedOk] at hok
  | resolveMarket actor marketId winner =>
    simp only [Request.begin] at hok
    split at hok <;> simp [Slot.resolvedOk] at hok
  | profile job =>
    simp only [Request.begin] at hok
    split at hok <;> simp [Slot.resolvedOk] at hok

/-- A call returns Ok from resolving only right after its settlement went through. -/
theorem Call.written_resolved {env : Env} {db : Db} {call : Call} {w : Write}
    {result : Except RepositoryError Unit} {id : MarketId} (hwf : call.Wf db)
    (hwrite : call.write? env = some w) (h : (call.written result).resolvedOk id = true) :
    result = .ok () ∧ ∃ market settled, w = .settle market settled ∧ market.id = id := by
  cases call with
  | createMarket actor input prepared =>
    obtain ⟨_, _, _, _, hreq, -⟩ := Next.slot_resolvedOk h
    simp at hreq
  | placeBet actor input phase =>
    obtain ⟨_, _, _, _, hreq, -⟩ := Next.slot_resolvedOk h
    simp at hreq
  | resolveMarket actor marketId winner phase =>
    obtain ⟨_, _, _, _, hreq, hnext⟩ := Next.slot_resolvedOk h
    cases phase <;> simp [Call.write?, ResolveMarket.write?] at hwrite
    cases result with
    | error e => simp [ResolveMarket.written, ResolveMarket.onSettled] at hnext
    | ok u =>
      cases hreq
      exact ⟨rfl, _, _, hwrite.symm, hwf.2.1⟩
  | profile job phase =>
    obtain ⟨_, _, _, _, hreq, -⟩ := Next.slot_resolvedOk h
    simp at hreq

theorem Sys.Effect.resolvedOk {build : Build} {s s' : Sys} {a : Act} (hwf : s.Wf)
    (he : Sys.Effect build s a s') {i : Nat} {x : Slot} {id : MarketId}
    (hi : s'.calls[i]? = some x) (hx : x.resolvedOk id = true) :
    s.calls[i]? = some x ∨ ∃ env w, a = .step i env ∧ s.writing? a = some w ∧
      w.settles id = true ∧ s'.db.isResolved id = true := by
  cases he with
  | started request env =>
    rcases getElem?_append_cases hi with h | rfl
    · exact .inl h
    · simp [Request.begin_unresolved] at hx
  | read j env call cache slot hcall hread hr =>
    rcases getElem?_set_cases hi with ⟨h, -⟩ | ⟨-, rfl⟩
    · exact .inl h
    · simp [Call.read_unresolved hr] at hx
  | committed j env call w db hcall hwrite hc =>
    rcases getElem?_set_cases hi with ⟨h, -⟩ | ⟨rfl, rfl⟩
    · exact .inl h
    · obtain ⟨-, market, settled, rfl, hid⟩ := Call.written_resolved (hwf.call hcall) hwrite hx
      obtain ⟨hok, hdone⟩ := hwf.done hcall hwrite hc
      have hsettles : (Write.settle market settled).settles id = true := by
        simp [Write.settles, hid]
      have hres := hdone.isResolved hok id
      rw [hsettles, Bool.or_true] at hres
      exact .inr ⟨env, _, rfl, by simp [Sys.writing?, hcall, hwrite], hsettles, hres⟩
  | refused j env call w e hcall hwrite hc =>
    rcases getElem?_set_cases hi with ⟨h, -⟩ | ⟨rfl, rfl⟩
    · exact .inl h
    · have hbad := (Call.written_resolved (hwf.call hcall) hwrite hx).1
      simp at hbad
  | failed j message call hcall =>
    rcases getElem?_set_cases hi with ⟨h, -⟩ | ⟨rfl, rfl⟩
    · exact .inl h
    · simp [Slot.resolvedOk] at hx
  | registered uid username email hash now db hfresh hc => exact .inl hi
  | evicted userId hev => exact .inl hi
  | expired key => exact .inl hi

/-- What holds while no settlement runs on a resolved market. -/
structure Sys.SettledOnce (s : Sys) : Prop where
  settledResolved : s.db.SettledResolved
  paid : PaidOnce s.db s.log
  resolved : ∀ {i : Nat} {x : Slot} {id : MarketId}, s.calls[i]? = some x →
    x.resolvedOk id = true → s.db.isResolved id = true
  single : ∀ {i j : Nat} {x y : Slot} {id : MarketId}, s.calls[i]? = some x → s.calls[j]? = some y →
    x.resolvedOk id = true → y.resolvedOk id = true → i = j

theorem Sys.settledOnce_init : Sys.init.SettledOnce where
  settledResolved := by simp [Db.SettledResolved, Sys.init, Db.empty]
  paid := by simp [PaidOnce, credited, Sys.init]
  resolved := by simp [Sys.init]
  single := by simp [Sys.init]

theorem Sys.Wf.isResolved_kept {build : Build} {s s' : Sys} {a : Act} (hwf : s.Wf)
    (he : Sys.Effect build s a s') {id : MarketId} (h : s.db.isResolved id = true) :
    s'.db.isResolved id = true := by
  rcases hwf.tables he with ⟨hdb, -⟩ | ⟨w, now, hok, hdone, -⟩
  · rw [hdb]
    exact h
  · rw [hdone.isResolved hok, h, Bool.true_or]

theorem Sys.SettledOnce.effect {build : Build} {s s' : Sys} {a : Act} (hwf : s.Wf)
    (hg : settlesFresh s a = true) (h : s.SettledOnce) (he : Sys.Effect build s a s') :
    s'.SettledOnce := by
  have hfirst : ∀ {w id}, s.writing? a = some w → w.settles id = true →
      s.db.isResolved id = false := by
    intro w id hw hsettles
    cases w with
    | settle market settled =>
      have hid : market.id = id := by simpa [Write.settles] using hsettles
      rw [← hid]
      exact settlesFresh_commits hg (.inl hw)
    | _ => simp [Write.settles] at hsettles
  constructor
  · rcases hwf.tables he with ⟨hdb, -⟩ | ⟨w, now, hok, hdone, -⟩
    · rw [hdb]
      exact h.settledResolved
    · exact hdone.settledResolved hok h.settledResolved
  · rcases hwf.commits he with ⟨hdb, hlog⟩ | ⟨w, now, hok, hdone, hlog, hc⟩
    · rw [hdb, hlog]
      exact h.paid
    · rw [hlog]
      exact h.paid.done hok hdone h.settledResolved (settlesFresh_commits hg hc)
  · intro i x id hi hx
    rcases he.resolvedOk hwf hi hx with hold | ⟨env, w, -, -, -, hres⟩
    · exact hwf.isResolved_kept he (h.resolved hold hx)
    · exact hres
  · intro i j x y id hi hj hx hy
    rcases he.resolvedOk hwf hi hx with hi' | ⟨env, w, ha, hw, hsettles, -⟩
    · rcases he.resolvedOk hwf hj hy with hj' | ⟨env, w, -, hw, hsettles, -⟩
      · exact h.single hi' hj' hx hy
      · have hres := h.resolved hi' hx
        rw [hfirst hw hsettles] at hres
        simp at hres
    · rcases he.resolvedOk hwf hj hy with hj' | ⟨env', w', ha', -, -, -⟩
      · have hres := h.resolved hj' hy
        rw [hfirst hw hsettles] at hres
        simp at hres
      · rw [ha] at ha'
        cases ha'
        rfl

structure Sys.KeepsSettled (s t : Sys) : Prop where
  winner : ∀ id m, s.db.marketById id = some m → m.status = .resolved →
    ∃ m', t.db.marketById id = some m' ∧ m'.status = .resolved ∧
      m'.resolvedOutcomeId = m.resolvedOutcomeId
  bets : ∀ b ∈ s.db.bets.rows, b.status ≠ .active → b ∈ t.db.bets.rows

theorem Sys.KeepsSettled.effect {build : Build} {s t t' : Sys} {a : Act} (hwf : t.Wf)
    (hg : settlesFresh t a = true) (hsr : t.db.SettledResolved) (h : s.KeepsSettled t)
    (he : Sys.Effect build t a t') : s.KeepsSettled t' := by
  rcases hwf.commits he with ⟨hdb, -⟩ | ⟨w, now, hok, hdone, -, hc⟩
  · constructor
    · rw [hdb]
      exact h.winner
    · rw [hdb]
      exact h.bets
  · have hfresh := settlesFresh_commits hg hc
    refine ⟨fun id m hm hres => ?_, fun b hb hstatus => ?_⟩
    · obtain ⟨m', hm', hstatus, hwinner⟩ := h.winner id m hm hres
      have hother : w.settles id = false := by
        cases w with
        | settle market settled =>
          by_contra hsettles
          have hid : market.id = id := by simpa [Write.settles] using hsettles
          have hstored := isResolved_iff.mpr ⟨m', hid ▸ hm', hstatus⟩
          rw [show t.db.isResolved market.id = false from hfresh] at hstored
          simp at hstored
        | _ => rfl
      obtain ⟨m'', hm'', hstatus', hwinner'⟩ := hdone.winner_kept hm' hother
      exact ⟨m'', hm'', hstatus'.trans hstatus, hwinner'.trans hwinner⟩
    · exact hdone.bet_kept hok hfresh hsr (h.bets b hb hstatus) hstatus

/-- Settlement happens at most once in a run where every settlement finds its market
not resolved yet. -/
theorem settles_once {build : Build} {s t : Sys} {as bs : List Act}
    (hs : Transition.run (Sys.step build) Sys.init as = some s)
    (ht : Transition.run (Sys.step build) s bs = some t)
    (hg : Transition.Guarded (Sys.step build) (fun u a => settlesFresh u a = true) Sys.init
      (as ++ bs)) :
    (∀ (id : MarketId) (i j : Nat) (x y : Slot), t.calls[i]? = some x → t.calls[j]? = some y →
      x.resolvedOk id = true →
      y.resolvedOk id = true → i = j) ∧
    (∀ id m, s.db.marketById id = some m → m.status = .resolved →
      ∃ m', t.db.marketById id = some m' ∧ m'.status = .resolved ∧
        m'.resolvedOutcomeId = m.resolvedOutcomeId) ∧
    (∀ b ∈ s.db.bets.rows, b.status ≠ .active → b ∈ t.db.bets.rows) ∧
    ∀ id, (credited t.log id).length ≤ 1 := by
  rw [Transition.guarded_append] at hg
  have hone : ∀ u a u', u.Wf ∧ u.SettledOnce → settlesFresh u a = true →
      Sys.step build u a = some u' → u'.Wf ∧ u'.SettledOnce := by
    rintro u a u' ⟨hwf, h⟩ hfresh hstep
    have he := Sys.step_effect hstep
    exact ⟨hwf.effect he, h.effect hwf hfresh he⟩
  have hbefore := Transition.run_invariant hone ⟨Sys.wf_init, Sys.settledOnce_init⟩ hg.1 hs
  have hkeep : ∀ u a u', (u.Wf ∧ u.SettledOnce) ∧ s.KeepsSettled u → settlesFresh u a = true →
      Sys.step build u a = some u' → (u'.Wf ∧ u'.SettledOnce) ∧ s.KeepsSettled u' := by
    rintro u a u' ⟨hinv, h⟩ hfresh hstep
    exact ⟨hone u a u' hinv hfresh hstep,
      h.effect hinv.1 hfresh hinv.2.settledResolved (Sys.step_effect hstep)⟩
  have hstart : s.KeepsSettled s := ⟨fun id m hm hres => ⟨m, hm, hres, rfl⟩, fun b hb _ => hb⟩
  obtain ⟨⟨-, hafter⟩, hkept⟩ :=
    Transition.run_invariant hkeep ⟨hbefore, hstart⟩ (hg.2 s hs) ht
  exact ⟨fun id i j x y => hafter.single, hkept.winner, hkept.bets, fun id => (hafter.paid id).1⟩

namespace Sample

def again : List Act := [resolve ⟨102⟩] ++ steps 4 2 0

/-- Settlements on `first` and on `second` that both read the market open; the one on
`second` has committed, the other has not. -/
def bothResolve (first second : OutcomeId) : List Act :=
  crossed ++ [resolve first, resolve second] ++ steps 3 3 0 ++ steps 4 4 0

def winner (as : List Act) : Option OutcomeId :=
  ((state as).db.marketById ⟨100⟩).bind Market.resolvedOutcomeId

def betsOf (as : List Act) : List (BetId × BetStatus × Option Int) :=
  (state as).db.bets.rows.map fun b => (b.id, b.status, b.payout)

def balancesOf (as : List Act) : List Int := (state as).db.users.rows.map User.balance

end Sample

theorem settles_once_again :
    (∀ (id : MarketId) (i j : Nat) (x y : Slot),
      (Sample.state (Sample.overlap ++ Sample.again)).calls[i]? = some x →
      (Sample.state (Sample.overlap ++ Sample.again)).calls[j]? = some y →
      x.resolvedOk id = true → y.resolvedOk id = true → i = j) ∧
    (∀ id m, (Sample.state Sample.overlap).db.marketById id = some m → m.status = .resolved →
      ∃ m', (Sample.state (Sample.overlap ++ Sample.again)).db.marketById id = some m' ∧
        m'.status = .resolved ∧ m'.resolvedOutcomeId = m.resolvedOutcomeId) ∧
    (∀ b ∈ (Sample.state Sample.overlap).db.bets.rows, b.status ≠ .active →
      b ∈ (Sample.state (Sample.overlap ++ Sample.again)).db.bets.rows) ∧
    ∀ id, (credited (Sample.state (Sample.overlap ++ Sample.again)).log id).length ≤ 1 :=
  settles_once (Sample.run_state (by decide +kernel)) (Sample.run_from (by decide +kernel))
    (by decide +kernel)

/-- Two overlapping settlements both return Ok. On different outcomes the second commit
replaces the winner and the settled bets; on the same outcome it pays the bet again. -/
theorem settles_twice :
    (Transition.run (Sys.step .debug) Sys.init
      (Sample.bothResolve ⟨101⟩ ⟨102⟩ ++ Sample.steps 3 1 0)).isSome ∧
    ([3, 4].all fun i => (Sample.state (Sample.bothResolve ⟨101⟩ ⟨102⟩ ++
      Sample.steps 3 1 0)).calls[i]?.any fun x => x.resolvedOk ⟨100⟩) ∧
    Sample.winner (Sample.bothResolve ⟨101⟩ ⟨102⟩) = some ⟨102⟩ ∧
    Sample.winner (Sample.bothResolve ⟨101⟩ ⟨102⟩ ++ Sample.steps 3 1 0) = some ⟨101⟩ ∧
    Sample.betsOf (Sample.bothResolve ⟨101⟩ ⟨102⟩) =
      [(⟨200⟩, .lost, none), (⟨300⟩, .won, some 60)] ∧
    Sample.betsOf (Sample.bothResolve ⟨101⟩ ⟨102⟩ ++ Sample.steps 3 1 0) =
      [(⟨200⟩, .won, some 100), (⟨300⟩, .lost, none)] ∧
    Sample.balancesOf (Sample.bothResolve ⟨101⟩ ⟨101⟩) = [10000 - 50 + 100, 10000 - 30] ∧
    Sample.balancesOf (Sample.bothResolve ⟨101⟩ ⟨101⟩ ++ Sample.steps 3 1 0) =
      [10000 - 50 + 100 + 100, 10000 - 30] := by
  decide +kernel

theorem Db.NoneStranded.done {db db' : Db} {w : Write} {now : DateTime}
    (hok : w.Ok db) (hdone : w.Done db now db') (hplace : ∀ bet priced points,
      w = .place bet priced points → db.isResolved bet.marketId = false)
    (hsettle : ∀ market settled, w = .settle market settled →
      ∀ b ∈ db.activeForMarket market.id, ∃ r ∈ settled, r.id = b.id)
    (h : db.NoneStranded) : db'.NoneStranded := by
  have hres := hdone.isResolved hok
  intro r' hr' hactive
  rw [hres]
  cases hdone with
  | create market outcomes at' hen => simp [Write.settles, h r' hr' hactive]
  | place bet priced points hen =>
    rw [rows_bets_placed hen, List.mem_append, List.mem_singleton] at hr'
    rcases hr' with hr' | rfl
    · simp [Write.settles, h r' hr' hactive]
    · simp [Write.settles, hplace r' priced points rfl]
  | settle market settled hin =>
    obtain ⟨r, hr, rfl⟩ := List.mem_map.mp hr'
    rcases settledRow_cases hok hr with ⟨hsame, hnone⟩ | ⟨s, hs, -, -, -, hrow⟩
    · rw [hsame] at hactive ⊢
      have hother : ¬market.id = r.marketId := by
        intro hid
        obtain ⟨s, hs, hsid⟩ := hsettle market settled rfl r
          (ResolveMarket.mem_activeForMarket.mpr ⟨hr, hid.symm, hactive⟩)
        exact hnone s hs hsid
      simp [Write.settles, h r hr hactive, hother]
    · have hstatus := settled_inactive hok hs
      rw [hrow] at hactive
      exact absurd hactive hstatus
  | save cause user hun => simp [Write.settles, h r' hr' hactive]

/-- No bet is stranded in a run where every placement finds its market not resolved and
every settlement has read all the bets active when it commits. -/
theorem none_stranded {build : Build} {s : Sys} {as : List Act}
    (hs : Transition.run (Sys.step build) Sys.init as = some s)
    (hg : Transition.Guarded (Sys.step build) (fun u a => settlesAll u a = true) Sys.init as) :
    s.db.NoneStranded := by
  have hstep : ∀ u a u', u.Wf ∧ u.db.NoneStranded → settlesAll u a = true →
      Sys.step build u a = some u' → u'.Wf ∧ u'.db.NoneStranded := by
    rintro u a u' ⟨hwf, h⟩ hall hstep
    have he := Sys.step_effect hstep
    refine ⟨hwf.effect he, ?_⟩
    rcases hwf.commits he with ⟨hdb, -⟩ | ⟨w, now, hok, hdone, -, hc⟩
    · rw [hdb]
      exact h
    · refine h.done hok hdone ?_ ?_
      · rintro bet priced points rfl
        rcases hc with hw | ⟨_, _, _, _, _, -, -, hsave⟩
        · simpa [settlesAll, hw] using hall
        · simp at hsave
      · rintro market settled rfl b hb
        rcases hc with hw | ⟨_, _, _, _, _, -, -, hsave⟩
        · simp only [settlesAll, hw, List.all_eq_true, List.any_eq_true] at hall
          obtain ⟨r, hr, hid⟩ := hall b hb
          exact ⟨r, hr, by simpa using hid⟩
        · simp at hsave
  have hinit : Sys.init.Wf ∧ Sys.init.db.NoneStranded :=
    ⟨Sys.wf_init, by simp [Db.NoneStranded, Sys.init, Db.empty]⟩
  exact (Transition.run_invariant hstep hinit hg hs).2

theorem none_stranded_overlap : (Sample.state Sample.overlap).db.NoneStranded :=
  none_stranded (Sample.run_state (by decide +kernel)) (by decide +kernel)

namespace Sample

/-- Bob's placement has read the market open when the settlement reads the active bets,
and commits after it. -/
def late : List Act :=
  opening ++ [bet ⟨1⟩ ⟨101⟩ 50, bet ⟨2⟩ ⟨102⟩ 30] ++ steps 1 8 200 ++ steps 2 6 300 ++
    [resolve ⟨101⟩] ++ steps 3 4 0 ++ steps 2 2 300

end Sample

/-- With every call returned, bob's bet is active on a resolved market. -/
theorem bet_stranded :
    (Transition.run (Sys.step .debug) Sys.init Sample.late).isSome ∧
    (Sample.state Sample.late).calls.all Slot.finished ∧
    (Sample.state Sample.late).db.isResolved ⟨100⟩ ∧
    Sample.betsOf Sample.late = [(⟨200⟩, .won, some 100), (⟨300⟩, .active, none)] ∧
    ((Sample.state Sample.late).db.bets.rows.all fun b => b.marketId = ⟨100⟩) := by
  decide +kernel

end Betsphere
