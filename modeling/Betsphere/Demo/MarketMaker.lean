import Betsphere.Demo.Board
set_option autoImplicit false

/-!
The loop that opens and settles the demo's markets, beside everything else that happens on
the same tables. It looks at the board before it acts, and the board moves on in between.
-/

namespace Betsphere
open MachineInt

namespace MarketMaker

/-- Where the loop stands: at the await of its constructor's name. `call` is the index of the
call it waits for. -/
inductive Phase where
  | asleep
  | settleListing (now : DateTime)
  | settleOutcomes (now : DateTime) (markets : List Market)
  | resolving (now : DateTime) (marketId : MarketId) (winner : OutcomeId) (call : Nat)
  | announcingWinner
  | openListing
  | openOutcomes (markets : List Market)
  | opening (template : MarketTemplate) (call : Nat)
  | announcingMarket
  | stopped
  deriving DecidableEq

def Phase.call? : Phase → Option Nat
  | .resolving _ _ _ call => some call
  | .opening _ call => some call
  | _ => none

def Phase.page? : Phase → Option (List Market)
  | .settleOutcomes _ markets => some markets
  | .openOutcomes markets => some markets
  | _ => none

end MarketMaker

open MarketMaker

def Sys.reply? (s : Sys) (call : Nat) : Option Reply :=
  match s.calls[call]? with
  | some (.returned _ reply) => some reply
  | _ => none

structure Simulation where
  sys : Sys
  maker : MarketMaker.Phase

/-- `world` is any action of the system, those of the maker's own call included. The rest are
the maker's: `draw` and `winner` are what the generator gives, and a listing meets its rows
in any order. -/
inductive SimAct where
  | world (act : Act)
  | wake (now : DateTime)
  | listed (rows : List Market)
  | grouped (draw winner : Nat) (now : DateTime) (env : Env)
  | returned
  | announced (posted : Bool)
  | failed
  | restart

namespace Simulation

def init : Simulation := ⟨.init, .asleep⟩

def await (build : Build) (s : Simulation) (request : Request) (env : Env) (phase : Nat → Phase) :
    Option Simulation :=
  (s.sys.step build (.start request env)).map fun sys => ⟨sys, phase s.sys.calls.length⟩

/-- `settle_expired` from the views of the board to its call. -/
def settleExpired (build : Build) (rng : WeightedDraw) (host : UserId) (s : Simulation) (now : DateTime)
    (live : List MarketView) (draw winner : Nat) (env : Env) : Option Simulation :=
  match Chatter.choose (live.filter fun view => expired now view) draw with
  | none => some { s with maker := .openListing }
  | some view =>
    match pickWinner rng view.outcomes winner with
    | .error _ => some { s with maker := .stopped }
    | .ok outcome => s.await build (.resolveMarket ⟨host, .admin⟩ view.market.id outcome.id) env
        (.resolving now view.market.id outcome.id)

/-- `open_market` from the views of the board to its call. -/
def openMarket (build : Build) (host : UserId) (s : Simulation) (live : List MarketView)
    (draw : Nat) (now : DateTime) (env : Env) : Option Simulation :=
  match Chatter.choose (available live) draw with
  | none => some { s with maker := .asleep }
  | some template =>
    s.await build (.createMarket ⟨host, .admin⟩ (template.newMarket now)) env (.opening template)

/-- A panic ends the task; an error ends the round. -/
def resume (s : Simulation) (announcing : Phase) : Reply → Simulation
  | .error _ => { s with maker := .asleep }
  | .panicked _ => { s with maker := .stopped }
  | _ => { s with maker := announcing }

/-- A restarted server begins anew once the call of the old one has ended, either way. -/
def step (build : Build) (ilike : Text → Text → Bool) (rng : WeightedDraw) (host : UserId)
    (s : Simulation) : SimAct → Option Simulation
  | .world act => (s.sys.step build act).map fun sys => { s with sys }
  | .wake now =>
    match s.maker with
    | .asleep => some { s with maker := .settleListing now }
    | _ => none
  | .listed rows =>
    if rows.Perm s.sys.db.markets.rows then
      match s.maker, PgMarketRepository.list ilike rows openMarkets with
      | .settleListing now, .ok markets => some { s with maker := .settleOutcomes now markets }
      | .openListing, .ok markets => some { s with maker := .openOutcomes markets }
      | .settleListing _, .error _ => some { s with maker := .asleep }
      | .openListing, .error _ => some { s with maker := .asleep }
      | _, _ => none
    else none
  | .grouped draw winner now env =>
    match s.maker with
    | .settleOutcomes woken markets =>
      s.settleExpired build rng host woken (ListMarkets.grouped s.sys.db markets) draw winner env
    | .openOutcomes markets =>
      s.openMarket build host (ListMarkets.grouped s.sys.db markets) draw now env
    | _ => none
  | .returned =>
    match s.maker with
    | .resolving _ _ _ call => (s.sys.reply? call).map (s.resume .announcingWinner)
    | .opening _ call => (s.sys.reply? call).map (s.resume .announcingMarket)
    | _ => none
  | .announced posted =>
    match s.maker with
    | .announcingWinner => some { s with maker := if posted then .openListing else .asleep }
    | .announcingMarket => some { s with maker := .asleep }
    | _ => none
  | .failed =>
    match s.maker with
    | .settleListing _ => some { s with maker := .asleep }
    | .settleOutcomes _ _ => some { s with maker := .asleep }
    | .openListing => some { s with maker := .asleep }
    | .openOutcomes _ => some { s with maker := .asleep }
    | _ => none
  | .restart =>
    match s.maker.call? with
    | some call => (s.sys.reply? call).map fun _ => { s with maker := .asleep }
    | none => some { s with maker := .asleep }

end Simulation

def Db.liveTitles (db : Db) : List Text :=
  (db.markets.rows.filter fun m => m.status = .opened).map fun m => m.title.value

/-- The questions of the templates that are live, as often as they are. -/
def Db.questionsOn (db : Db) : List Text := db.liveTitles.filter fun q => q ∈ questions

def SimAct.AsksAnew : SimAct → Prop
  | .world (.start (.createMarket _ input) _) =>
    ∀ title, MarketTitle.new input.title = .ok title → title.value ∉ questions
  | _ => True

def SimAct.LeavesOpening : SimAct → Prop
  | .world (.start (.createMarket _ _) _) => False
  | _ => True

theorem SimAct.LeavesOpening.asksAnew {act : SimAct} (h : act.LeavesOpening) : act.AsksAnew := by
  unfold SimAct.LeavesOpening at h
  split at h
  · exact absurd h id
  · rename_i hother
    unfold SimAct.AsksAnew
    split
    · exact absurd rfl (hother _ _ _)
    · trivial

def FitsSample (s : Simulation) : SimAct → Prop
  | .listed _ => match s.maker with
    | .openListing => s.sys.db.liveTitles.length ≤ 50
    | _ => True
  | _ => True

def Slot.request : Slot → Request
  | .running call => call.request
  | .returned request _ => request

def Db.Due (db : Db) (now : DateTime) (id : MarketId) : Prop :=
  ∃ m ∈ db.markets.rows, m.id = id ∧ ∃ closes, m.closesAt = some closes ∧ closes ≤ now

/-! ### What the system does to the board -/

/-- What no transaction changes in the row of a market; and none opens it again. -/
structure Market.Kept (m m' : Market) : Prop where
  id : m'.id = m.id
  title : m'.title = m.title
  closesAt : m'.closesAt = m.closesAt
  opened : m'.status = .opened → m.status = .opened

theorem Market.Kept.refl (m : Market) : m.Kept m := ⟨rfl, rfl, rfl, fun h => h⟩

theorem Write.Done.markets {db db' : Db} {w : Write} {now : DateTime} (hok : w.Ok db)
    (h : w.Done db now db') :
    (∃ f : Market → Market, db'.markets.rows = db.markets.rows.map f ∧ ∀ m : Market, m.Kept (f m)) ∨
      ∃ market outcomes at', w = .create market outcomes at' ∧ market.status = .opened ∧
        db'.markets.rows = db.markets.rows ++ [market] := by
  cases h with
  | create market outcomes at' hen =>
    exact .inr ⟨market, outcomes, at', rfl, hok.1, (rows_created hen).2⟩
  | place bet priced points hen =>
    refine .inl ⟨fun m => if m.id = bet.marketId then
      { m with
        totalVolume := m.totalVolume + bet.amount
        participantsCount := m.participantsCount + db.joining bet }
      else m, ?_, fun m => ?_⟩
    · simp only [Db.placed, Db.addTotals, Table.modify, Table.rows_mapRows]
    · dsimp only
      split
      · exact ⟨rfl, rfl, rfl, fun h => h⟩
      · exact .refl m
  | settle market settled hin =>
    refine .inl ⟨fun m => if m.id = market.id then
      { m with status := market.status, resolvedOutcomeId := market.resolvedOutcomeId }
      else m, ?_, fun m => ?_⟩
    · simp only [Db.settled, Db.setMarketStatus, Table.modify, Table.rows_mapRows]
    · dsimp only
      split
      · refine ⟨rfl, rfl, rfl, fun hopen => ?_⟩
        rw [hok.2.1] at hopen
        cases hopen
      · exact .refl m
  | save cause user hun => exact .inl ⟨id, (List.map_id _).symm, fun m => .refl m⟩

theorem Call.read_creates {build : Build} {env : Env} {db : Db} {cache cache' : Cache} {call : Call}
    {actor : Actor} {input : NewMarket} {prepared : Market × List Outcome} :
    call.read build env db cache ≠ some (cache', .running (.createMarket actor input prepared)) := by
  intro h
  cases call with
  | createMarket actor input prepared => simp [Call.read] at h
  | placeBet actor input phase =>
    simp only [Call.read, Option.map_eq_some_iff, Prod.mk.injEq] at h
    obtain ⟨⟨cache₁, next⟩, -, -, hslot⟩ := h
    cases next <;> simp [Next.slot] at hslot
  | resolveMarket actor marketId winner phase =>
    simp only [Call.read, Option.map_eq_some_iff, Prod.mk.injEq] at h
    obtain ⟨⟨cache₁, next⟩, -, -, hslot⟩ := h
    cases next <;> simp [Next.slot] at hslot
  | profile job phase =>
    simp only [Call.read, Option.map_eq_some_iff, Prod.mk.injEq] at h
    obtain ⟨⟨cache₁, next⟩, -, -, hslot⟩ := h
    cases next <;> simp [Next.slot] at hslot

theorem Call.written_creates {call : Call} {result : Except RepositoryError Unit} {actor : Actor}
    {input : NewMarket} {prepared : Market × List Outcome} :
    call.written result ≠ .running (.createMarket actor input prepared) := by
  intro h
  cases call with
  | createMarket actor input prepared =>
    cases result <;> simp [Call.written, CreateMarket.written, Next.slot] at h
  | placeBet actor input phase =>
    simp only [Call.written] at h
    cases hn : PlaceBet.written phase result <;> simp [hn, Next.slot] at h
  | resolveMarket actor marketId winner phase =>
    simp only [Call.written] at h
    cases hn : ResolveMarket.written phase result <;> simp [hn, Next.slot] at h
  | profile job phase =>
    simp only [Call.written] at h
    cases hn : ProfileJob.written phase result <;> simp [hn, Next.slot] at h

theorem Request.begin_creates {build : Build} {env : Env} {request : Request} {actor : Actor}
    {input : NewMarket} {prepared : Market × List Outcome}
    (h : request.begin build env = .running (.createMarket actor input prepared)) :
    request = .createMarket actor input ∧
      CreateMarket.prepare build env actor input = .goto prepared := by
  cases request with
  | createMarket actor input =>
    simp only [Request.begin] at h
    cases hp : CreateMarket.prepare build env actor input with
    | reply r => simp [hp, Next.slot] at h
    | goto phase =>
      simp only [hp, Next.slot, Slot.running.injEq, Call.createMarket.injEq] at h
      obtain ⟨rfl, rfl, rfl⟩ := h
      exact ⟨rfl, hp⟩
  | placeBet actor input => simp [Request.begin] at h
  | resolveMarket actor marketId winner =>
    simp only [Request.begin] at h
    split at h <;> simp at h
  | profile job =>
    simp only [Request.begin] at h
    split at h <;> simp at h

def Sys.Creating (s : Sys) (i : Nat) (title : Text) : Prop :=
  ∃ actor input prepared, s.calls[i]? = some (Slot.running (.createMarket actor input prepared)) ∧
    prepared.1.title.value = title

theorem Sys.Effect.creating {build : Build} {s s' : Sys} {a : Act} (he : Sys.Effect build s a s')
    {i : Nat} {title : Text} (h : s'.Creating i title) :
    s.Creating i title ∨ i = s.calls.length ∧ ∃ env actor input prepared,
      a = .start (.createMarket actor input) env ∧
        CreateMarket.prepare build env actor input = .goto prepared ∧
        prepared.1.title.value = title := by
  obtain ⟨actor, input, prepared, h, htitle⟩ := h
  have hset : ∀ {j : Nat} {slot : Slot} {calls : List Slot},
      slot ≠ .running (.createMarket actor input prepared) → (calls.set j slot)[i]? =
        some (.running (.createMarket actor input prepared)) →
      calls[i]? = some (.running (.createMarket actor input prepared)) := by
    intro j slot calls hne hi
    rcases getElem?_set_cases hi with ⟨hi, -⟩ | ⟨-, heq⟩
    · exact hi
    · exact absurd heq.symm hne
  cases he with
  | started request env =>
    rcases Nat.lt_trichotomy i s.calls.length with hlt | heq | hgt
    · rw [List.getElem?_append_left hlt] at h
      exact .inl ⟨actor, input, prepared, h, htitle⟩
    · subst heq
      rw [List.getElem?_concat_length, Option.some.injEq] at h
      obtain ⟨rfl, hp⟩ := Request.begin_creates h
      exact .inr ⟨rfl, env, actor, input, prepared, rfl, hp, htitle⟩
    · have hnone : (s.calls ++ [request.begin build env])[i]? = none :=
        List.getElem?_eq_none (by rw [List.length_append, List.length_singleton]; omega)
      rw [hnone] at h
      cases h
  | read j env call cache slot hcall hread hr =>
    refine .inl ⟨actor, input, prepared, hset ?_ h, htitle⟩
    rintro rfl
    exact Call.read_creates hr
  | committed j env call w db hcall hwrite hc =>
    exact .inl ⟨actor, input, prepared, hset Call.written_creates h, htitle⟩
  | refused j env call w e hcall hwrite hc =>
    exact .inl ⟨actor, input, prepared, hset Call.written_creates h, htitle⟩
  | failed j message call hcall =>
    exact .inl ⟨actor, input, prepared, hset (by simp) h, htitle⟩
  | registered id username email hash now db hfresh hc =>
    exact .inl ⟨actor, input, prepared, h, htitle⟩
  | evicted userId hev => exact .inl ⟨actor, input, prepared, h, htitle⟩
  | expired key => exact .inl ⟨actor, input, prepared, h, htitle⟩

theorem Sys.Effect.wrote {build : Build} {s s' : Sys} {i : Nat} {env : Env}
    (he : Sys.Effect build s (.step i env) s') {call : Call}
    (hcall : s.calls[i]? = some (.running call)) {w : Write} (hw : call.write? env = some w)
    (title : Text) : ¬s'.Creating i title := by
  rintro ⟨actor, input, prepared, h, -⟩
  cases he with
  | read _ _ call' cache slot hcall' hread hr =>
    rw [hcall] at hcall'
    cases hcall'
    rw [hread] at hw
    cases hw
  | committed _ _ call' w' db hcall' hwrite hc =>
    rcases getElem?_set_cases h with ⟨-, hne⟩ | ⟨-, heq⟩
    · exact hne rfl
    · exact Call.written_creates heq.symm
  | refused _ _ call' w' e hcall' hwrite hc =>
    rcases getElem?_set_cases h with ⟨-, hne⟩ | ⟨-, heq⟩
    · exact hne rfl
    · exact Call.written_creates heq.symm

theorem Call.creates {env : Env} {call : Call} {market : Market} {outcomes : List Outcome}
    {now : DateTime} (h : call.write? env = some (.create market outcomes now)) :
    ∃ actor input, call = .createMarket actor input (market, outcomes) := by
  cases call with
  | createMarket actor input prepared =>
    cases h
    exact ⟨actor, input, rfl⟩
  | placeBet actor input phase => cases phase <;> simp [Call.write?, PlaceBet.write?] at h
  | resolveMarket actor marketId winner phase =>
    cases phase <;> simp [Call.write?, ResolveMarket.write?] at h
  | profile job phase => cases phase <;> simp [Call.write?, ProfileJob.write?] at h

/-- What an action of the system does to the markets: it keeps those there are, or a creation
that was in progress adds one and no longer is. -/
theorem Sys.Effect.markets {build : Build} {s s' : Sys} {a : Act} (hwf : s.Wf)
    (he : Sys.Effect build s a s') :
    (∃ f : Market → Market, s'.db.markets.rows = s.db.markets.rows.map f ∧
        ∀ m : Market, m.Kept (f m)) ∨
      ∃ i market, s.Creating i market.title.value ∧ (∀ other, ¬s'.Creating i other) ∧
        market.status = .opened ∧ s'.db.markets.rows = s.db.markets.rows ++ [market] := by
  rcases hwf.commits he with ⟨hdb, -⟩ | ⟨w, now, hok, hdone, -, hcommits⟩
  · exact .inl ⟨id, by rw [hdb, List.map_id], Market.Kept.refl⟩
  · rcases hdone.markets hok with hkept | ⟨market, outcomes, at', rfl, hopen, hrows⟩
    · exact .inl hkept
    · rcases hcommits with hw | ⟨id, username, email, hash, now, -, -, heq⟩
      · cases a with
        | step i env =>
          simp only [Sys.writing?] at hw
          split at hw
          · rename_i call hcall
            obtain ⟨actor, input, rfl⟩ := Call.creates hw
            exact .inr ⟨i, market, ⟨actor, input, (market, outcomes), hcall, rfl⟩,
              he.wrote hcall hw, hopen, hrows⟩
          · simp at hw
        | _ => simp [Sys.writing?] at hw
      · cases heq

theorem Sys.Effect.row {build : Build} {s s' : Sys} {a : Act} (hwf : s.Wf)
    (he : Sys.Effect build s a s') {m : Market} (hm : m ∈ s.db.markets.rows) :
    ∃ m' ∈ s'.db.markets.rows, m.Kept m' := by
  rcases he.markets hwf with ⟨f, hrows, hf⟩ | ⟨i, market, -, -, -, hrows⟩
  · exact ⟨f m, by rw [hrows]; exact List.mem_map_of_mem hm, hf m⟩
  · exact ⟨m, by rw [hrows]; exact List.mem_append_left _ hm, .refl m⟩

theorem Sys.Effect.grows {build : Build} {s s' : Sys} {a : Act} (hwf : s.Wf)
    (he : Sys.Effect build s a s') : Grows s.db s'.db := by
  rcases hwf.tables he with ⟨hdb, -⟩ | ⟨w, now, hok, hdone, -⟩
  · rw [hdb]
    exact .refl _
  · exact hdone.grows hok

theorem Next.slot_request {φ : Type} {request : Request} {call : φ → Call} {next : Next φ}
    (h : ∀ phase, (call phase).request = request) : (next.slot request call).request = request := by
  cases next with
  | goto phase => exact h phase
  | reply r => rfl

theorem Request.begin_request (build : Build) (env : Env) (request : Request) :
    (request.begin build env).request = request := by
  cases request with
  | createMarket actor input => exact Next.slot_request fun _ => rfl
  | placeBet actor input => rfl
  | resolveMarket actor marketId winner =>
    simp only [Request.begin]
    split <;> rfl
  | profile job =>
    simp only [Request.begin]
    split <;> rfl

theorem Call.read_request {build : Build} {env : Env} {db : Db} {cache cache' : Cache} {call : Call}
    {slot : Slot} (h : call.read build env db cache = some (cache', slot)) :
    slot.request = call.request := by
  cases call with
  | createMarket actor input prepared => simp [Call.read] at h
  | placeBet actor input phase =>
    simp only [Call.read, Option.map_eq_some_iff] at h
    obtain ⟨r, -, heq⟩ := h
    cases heq
    exact Next.slot_request fun _ => rfl
  | resolveMarket actor marketId winner phase =>
    simp only [Call.read, Option.map_eq_some_iff] at h
    obtain ⟨r, -, heq⟩ := h
    cases heq
    exact Next.slot_request fun _ => rfl
  | profile job phase =>
    simp only [Call.read, Option.map_eq_some_iff] at h
    obtain ⟨r, -, heq⟩ := h
    cases heq
    exact Next.slot_request fun _ => rfl

theorem Call.written_request (call : Call) (result : Except RepositoryError Unit) :
    (call.written result).request = call.request := by
  cases call <;> exact Next.slot_request fun _ => rfl

theorem Sys.Effect.request {build : Build} {s s' : Sys} {a : Act} (he : Sys.Effect build s a s')
    {i : Nat} {slot : Slot} (hi : s.calls[i]? = some slot) :
    ∃ slot', s'.calls[i]? = some slot' ∧ slot'.request = slot.request := by
  have hlt : i < s.calls.length := (List.getElem?_eq_some_iff.mp hi).1
  have hset : ∀ {j : Nat} {call : Call} {slot' : Slot}, s.calls[j]? = some (.running call) →
      slot'.request = call.request →
      ∃ x, (s.calls.set j slot')[i]? = some x ∧ x.request = slot.request := by
    intro j call slot' hj hsame
    by_cases hji : j = i
    · subst hji
      rw [hi] at hj
      cases hj
      exact ⟨slot', List.getElem?_set_self hlt, hsame⟩
    · exact ⟨slot, by rw [List.getElem?_set_ne hji]; exact hi, rfl⟩
  cases he with
  | started request env => exact ⟨slot, by rw [List.getElem?_append_left hlt]; exact hi, rfl⟩
  | read j env call cache slot' hcall hread hr => exact hset hcall (Call.read_request hr)
  | committed j env call w db hcall hwrite hc => exact hset hcall (call.written_request _)
  | refused j env call w e hcall hwrite hc => exact hset hcall (call.written_request _)
  | failed j message call hcall => exact hset hcall rfl
  | registered id username email hash now db hfresh hc => exact ⟨slot, hi, rfl⟩
  | evicted userId hev => exact ⟨slot, hi, rfl⟩
  | expired key => exact ⟨slot, hi, rfl⟩

theorem liveTitles_kept {db db' : Db} {f : Market → Market}
    (hrows : db'.markets.rows = db.markets.rows.map f) (hf : ∀ m : Market, m.Kept (f m)) :
    db'.liveTitles.Sublist db.liveTitles := by
  have htitle : (fun m : Market => m.title.value) ∘ f = fun m => m.title.value := by
    funext m
    rw [Function.comp_apply, (hf m).title]
  rw [Db.liveTitles, hrows, List.filter_map, List.map_map, htitle]
  refine List.Sublist.map _ (List.monotone_filter_right _ fun m hm => ?_)
  exact decide_eq_true ((hf m).opened (of_decide_eq_true hm))

theorem liveTitles_created {db db' : Db} {market : Market} (hopen : market.status = .opened)
    (hrows : db'.markets.rows = db.markets.rows ++ [market]) :
    db'.liveTitles = db.liveTitles ++ [market.title.value] := by
  have hlive : [market].filter (fun m => m.status = .opened) = [market] := by simp [hopen]
  rw [Db.liveTitles, hrows, List.filter_append, List.map_append, hlive]
  rfl

theorem mem_liveTitles {db : Db} {title : Text} : title ∈ db.liveTitles ↔
    ∃ m ∈ db.markets.rows, m.status = .opened ∧ m.title.value = title := by
  simp only [Db.liveTitles, List.mem_map, List.mem_filter, decide_eq_true_eq, and_assoc]

theorem mem_questionsOn {db : Db} {q : Text} :
    q ∈ db.questionsOn ↔ q ∈ db.liveTitles ∧ q ∈ questions := by
  simp only [Db.questionsOn, List.mem_filter, decide_eq_true_eq]

/-- The live questions: some may go, or one comes with a creation that is then done. -/
theorem Sys.Effect.live_questions {build : Build} {s s' : Sys} {a : Act} (hwf : s.Wf)
    (he : Sys.Effect build s a s') :
    s'.db.questionsOn.Sublist s.db.questionsOn ∨
      ∃ i title, s.Creating i title ∧ (∀ other, ¬s'.Creating i other) ∧ title ∈ questions ∧
        s'.db.questionsOn = s.db.questionsOn ++ [title] := by
  rcases he.markets hwf with ⟨f, hrows, hf⟩ | ⟨i, market, hi, hdone, hopen, hrows⟩
  · exact .inl ((liveTitles_kept hrows hf).filter _)
  · have hnew : s'.db.questionsOn = s.db.questionsOn ++
        [market.title.value].filter fun q => q ∈ questions := by
      rw [Db.questionsOn, liveTitles_created hopen hrows, List.filter_append]
      rfl
    by_cases hq : market.title.value ∈ questions
    · refine .inr ⟨i, market.title.value, hi, hdone, hq, ?_⟩
      rw [hnew]
      simp [hq]
    · rw [hnew]
      simp [hq]

/-! ### No question twice -/

/-- Each question is live once, and only the maker is about to ask one, which is not live. -/
structure Simulation.Single (s : Simulation) : Prop where
  wf : s.sys.Wf
  distinct : s.sys.db.questionsOn.Nodup
  asked : ∀ i title, s.sys.Creating i title → title ∈ questions →
    (∃ template, s.maker = .opening template i) ∧ title ∉ s.sys.db.questionsOn
  seen : ∀ markets, s.maker = .openOutcomes markets →
    ∀ q ∈ s.sys.db.questionsOn, q ∈ markets.map fun m => m.title.value

namespace Simulation
variable {build : Build} {ilike : Text → Text → Bool} {rng : WeightedDraw} {host : UserId}
  {s s' : Simulation}
  {maker : Phase}

theorem single_init : init.Single := by
  refine ⟨Sys.wf_init, List.nodup_nil, ?_, ?_⟩
  · rintro i title ⟨actor, input, prepared, h, -⟩
    simp [init, Sys.init] at h
  · intro markets h
    cases h

theorem Single.move (h : s.Single)
    (hasked : ∀ template i, s.maker = .opening template i → ∀ title, ¬s.sys.Creating i title)
    (hseen : ∀ markets, maker = .openOutcomes markets →
      ∀ q ∈ s.sys.db.questionsOn, q ∈ markets.map fun m => m.title.value) :
    Single ⟨s.sys, maker⟩ where
  wf := h.wf
  distinct := h.distinct
  asked := by
    intro i title hcreating hq
    obtain ⟨template, hmaker⟩ := (h.asked i title hcreating hq).1
    exact absurd hcreating (hasked template i hmaker title)
  seen := hseen

theorem Single.effect (h : s.Single) {a : Act} {sys : Sys} (he : Sys.Effect build s.sys a sys)
    (hmaker : maker = s.maker ∨
      (∀ template i, s.maker ≠ .opening template i) ∧ ∀ markets, maker ≠ .openOutcomes markets)
    (hstart : ∀ env actor input prepared, a = .start (.createMarket actor input) env →
      CreateMarket.prepare build env actor input = .goto prepared →
      prepared.1.title.value ∈ questions →
      (∃ template, maker = .opening template s.sys.calls.length) ∧
        prepared.1.title.value ∉ s.sys.db.questionsOn) : Single ⟨sys, maker⟩ := by
  have hnew : ∀ i title, sys.Creating i title → title ∈ questions →
      (∃ template, maker = .opening template i) ∧ title ∉ s.sys.db.questionsOn := by
    intro i title hcreating hq
    rcases he.creating hcreating with hold | ⟨rfl, env, actor, input, prepared, ha, hp, rfl⟩
    · obtain ⟨⟨template, hopening⟩, habsent⟩ := h.asked i title hold hq
      rcases hmaker with hsame | ⟨hidle, -⟩
      · exact ⟨⟨template, hsame.trans hopening⟩, habsent⟩
      · exact absurd hopening (hidle template i)
    · exact hstart env actor input prepared ha hp hq
  rcases he.live_questions h.wf with hsub | ⟨j, question, hj, hdone, hq, hquestions⟩
  · refine ⟨h.wf.effect he, h.distinct.sublist hsub, fun i title hi hq => ?_,
      fun markets hm q hq => ?_⟩
    · obtain ⟨hopening, habsent⟩ := hnew i title hi hq
      exact ⟨hopening, fun hmem => habsent (hsub.subset hmem)⟩
    · rcases hmaker with hsame | ⟨-, hother⟩
      · exact h.seen markets (hsame ▸ hm) q (hsub.subset hq)
      · exact absurd hm (hother markets)
  · obtain ⟨⟨template, hopening⟩, habsent⟩ := h.asked j question hj hq
    rcases hmaker with rfl | ⟨hidle, -⟩
    · refine ⟨h.wf.effect he, ?_, fun i title hi hq' => ?_, fun markets hm => ?_⟩
      · rw [hquestions]
        exact List.nodup_append.mpr ⟨h.distinct, List.nodup_singleton _, by
          intro a ha b hb heq
          rw [List.mem_singleton.mp hb] at heq
          exact habsent (heq ▸ ha)⟩
      · -- Only one call is awaited, and that one is done.
        obtain ⟨⟨other, hother⟩, -⟩ := hnew i title hi hq'
        rw [hopening, Phase.opening.injEq] at hother
        exact absurd hi (hother.2 ▸ hdone title)
      · rw [hopening] at hm
        cases hm
    · exact absurd hopening (hidle template j)

theorem await_some {request : Request} {env : Env} {phase : Nat → Phase}
    (hs : s.await build request env phase = some s') :
    Sys.Effect build s.sys (.start request env) s'.sys ∧
      s'.maker = phase s.sys.calls.length ∧
      s'.sys.calls[s.sys.calls.length]? = some (request.begin build env) := by
  obtain ⟨sys, hsys, rfl⟩ := Option.map_eq_some_iff.mp hs
  have he := Sys.step_effect hsys
  cases hsys
  exact ⟨he, rfl, List.getElem?_concat_length⟩

theorem choose_mem {α : Type} {items : List α} {draw : Nat} {a : α}
    (h : Chatter.choose items draw = some a) : a ∈ items := List.mem_of_getElem? h

theorem returned_idle {call : Nat} {reply : Reply} (h : s.sys.reply? call = some reply)
    (title : Text) : ¬s.sys.Creating call title := by
  rintro ⟨actor, input, prepared, hcall, -⟩
  simp [Sys.reply?, hcall] at h

theorem Single.rest (h : s.Single)
    (hcall : ∀ call, s.maker.call? = some call → ∃ reply, s.sys.reply? call = some reply)
    (hpage : maker.page? = none) : Single ⟨s.sys, maker⟩ := by
  refine h.move (fun template i hopening => ?_) fun markets heq => ?_
  · obtain ⟨reply, hreply⟩ := hcall i (by rw [hopening]; rfl)
    exact returned_idle hreply
  · rw [heq] at hpage
    cases hpage

theorem Single.resume (h : s.Single) {call : Nat} (hcall : s.maker.call? = some call)
    {announcing : Phase} (hpage : announcing.page? = none)
    (hs : (s.sys.reply? call).map (s.resume announcing) = some s') : s'.Single := by
  obtain ⟨reply, hreply, rfl⟩ := Option.map_eq_some_iff.mp hs
  have hended : ∀ c, s.maker.call? = some c → ∃ r, s.sys.reply? c = some r := by
    intro c hc
    rw [hcall] at hc
    cases hc
    exact ⟨reply, hreply⟩
  unfold Simulation.resume
  split
  · exact h.rest hended rfl
  · exact h.rest hended rfl
  · exact h.rest hended hpage

theorem Single.settleExpired (h : s.Single) {woken : DateTime} {markets : List Market}
    (hm : s.maker = .settleOutcomes woken markets) {live : List MarketView} {draw winner : Nat}
    {env : Env} (hs : s.settleExpired build rng host woken live draw winner env = some s') :
    s'.Single := by
  have hidle : ∀ template i, s.maker ≠ .opening template i := by
    intro template i hopening
    rw [hm] at hopening
    cases hopening
  have hcall : ∀ call, s.maker.call? = some call → ∃ reply, s.sys.reply? call = some reply := by
    simp [hm, Phase.call?]
  unfold Simulation.settleExpired at hs
  split at hs
  · cases hs
    exact h.rest hcall rfl
  · split at hs
    · cases hs
      exact h.rest hcall rfl
    · obtain ⟨he, hmaker, -⟩ := await_some hs
      have hsingle : Single ⟨s'.sys, s'.maker⟩ := by
        refine h.effect he (.inr ⟨hidle, fun markets heq => ?_⟩)
          fun env actor input prepared ha => ?_
        · rw [hmaker] at heq
          cases heq
        · cases ha
      exact hsingle

theorem Single.openMarket (h : s.Single) {markets : List Market}
    (hm : s.maker = .openOutcomes markets) {draw : Nat} {now : DateTime} {env : Env}
    (hs : s.openMarket build host (ListMarkets.grouped s.sys.db markets) draw now env = some s') :
    s'.Single := by
  have hidle : ∀ template i, s.maker ≠ .opening template i := by
    intro template i hopening
    rw [hm] at hopening
    cases hopening
  unfold Simulation.openMarket at hs
  split at hs
  · cases hs
    exact h.rest (by simp [hm, Phase.call?]) rfl
  · rename_i template hchosen
    obtain ⟨htemplate, hfresh⟩ := mem_available.mp (choose_mem hchosen)
    rw [ListMarkets.map_grouped] at hfresh
    have habsent : template.title.toList ∉ s.sys.db.questionsOn :=
      fun hq => hfresh (h.seen markets hm _ hq)
    obtain ⟨he, hmaker, -⟩ := await_some hs
    have hsingle : Single ⟨s'.sys, s'.maker⟩ := by
      refine h.effect he (.inr ⟨hidle, fun markets heq => ?_⟩)
        fun env actor input prepared ha hp hq => ⟨⟨template, hmaker⟩, ?_⟩
      · rw [hmaker] at heq
        cases heq
      · cases ha
        obtain ⟨prepared', hbegin, htitle⟩ := template_begins htemplate build env host now
        have hsame := (Request.begin_creates hbegin).2
        rw [hp] at hsame
        cases hsame
        rwa [htitle]
    exact hsingle

theorem Single.listed (h : s.Single) {rows : List Market} (hfits : FitsSample s (.listed rows))
    (hs : s.step build ilike rng host (.listed rows) = some s') : s'.Single := by
  simp only [Simulation.step, openMarkets_listed] at hs
  split at hs
  · rename_i hrows
    cases hm : s.maker with
    | settleListing now =>
      simp only [hm] at hs
      cases hs
      refine h.move (fun template i hopening => ?_) fun markets heq => by cases heq
      rw [hm] at hopening
      cases hopening
    | openListing =>
      simp only [hm] at hs
      cases hs
      refine h.move (fun template i hopening => ?_) fun markets heq q hq => ?_
      · rw [hm] at hopening
        cases hopening
      · cases heq
        obtain ⟨m, hmem, hopen, rfl⟩ := mem_liveTitles.mp (mem_questionsOn.mp hq).1
        have hcount : (rows.filter fun m => m.status = .opened).length ≤ 50 := by
          rw [(hrows.filter _).length_eq]
          simpa [FitsSample, hm, Db.liveTitles] using hfits
        rw [take_newestOpen hcount]
        exact List.mem_map.mpr
          ⟨m, mem_newestOpen.mpr ⟨hrows.mem_iff.mpr hmem, hopen⟩, rfl⟩
    | _ => simp [hm] at hs
  · cases hs

theorem Single.step (h : s.Single) {act : SimAct} (hnew : act.AsksAnew) (hfits : FitsSample s act)
    (hs : s.step build ilike rng host act = some s') : s'.Single := by
  cases act with
  | world a =>
    obtain ⟨sys, hsys, rfl⟩ := Option.map_eq_some_iff.mp hs
    refine h.effect (Sys.step_effect hsys) (.inl rfl) fun env actor input prepared ha hp hq => ?_
    subst ha
    exact absurd hq (hnew _ (CreateMarket.prepare_title hp))
  | wake now =>
    simp only [Simulation.step] at hs
    split at hs
    · rename_i hm
      cases hs
      exact h.rest (by simp [hm, Phase.call?]) rfl
    · cases hs
  | listed rows => exact h.listed hfits hs
  | grouped draw winner now env =>
    simp only [Simulation.step] at hs
    split at hs
    · rename_i woken markets hm
      exact h.settleExpired hm hs
    · rename_i markets hm
      exact h.openMarket hm hs
    · cases hs
  | returned =>
    simp only [Simulation.step] at hs
    split at hs
    · rename_i hm
      exact h.resume (by rw [hm]; rfl) rfl hs
    · rename_i hm
      exact h.resume (by rw [hm]; rfl) rfl hs
    · cases hs
  | announced posted =>
    simp only [Simulation.step] at hs
    split at hs
    · rename_i hm
      cases hs
      exact h.rest (by simp [hm, Phase.call?]) (by cases posted <;> rfl)
    · rename_i hm
      cases hs
      exact h.rest (by simp [hm, Phase.call?]) rfl
    · cases hs
  | failed =>
    simp only [Simulation.step] at hs
    split at hs <;> first
      | cases hs; done
      | rename_i hm
        cases hs
        exact h.rest (by simp [hm, Phase.call?]) rfl
  | restart =>
    simp only [Simulation.step] at hs
    split at hs
    · rename_i call hcall
      obtain ⟨reply, hreply, rfl⟩ := Option.map_eq_some_iff.mp hs
      refine h.rest (fun c hc => ?_) rfl
      rw [hcall] at hc
      cases hc
      exact ⟨reply, hreply⟩
    · rename_i hcall
      cases hs
      exact h.rest (by simp [hcall]) rfl

/-- A step moves the system by one of its actions or not at all, and only a template makes the
maker start a creation. -/
theorem step_sys {act : SimAct} (hs : s.step build ilike rng host act = some s') :
    s'.sys = s.sys ∨ ∃ a, Sys.Effect build s.sys a s'.sys ∧
      ∀ env actor input, a = .start (.createMarket actor input) env →
        act = .world a ∨ ∃ template ∈ marketTemplates, ∃ now, input = template.newMarket now := by
  cases act with
  | world a =>
    obtain ⟨sys, hsys, rfl⟩ := Option.map_eq_some_iff.mp hs
    exact .inr ⟨a, Sys.step_effect hsys, fun _ _ _ _ => .inl rfl⟩
  | grouped draw winner now env =>
    simp only [Simulation.step] at hs
    split at hs
    · unfold Simulation.settleExpired at hs
      split at hs
      · cases hs
        exact .inl rfl
      · split at hs
        · cases hs
          exact .inl rfl
        · exact .inr ⟨_, (await_some hs).1, fun _ _ _ ha => by cases ha⟩
    · unfold Simulation.openMarket at hs
      split at hs
      · cases hs
        exact .inl rfl
      · rename_i template hchosen
        refine .inr ⟨_, (await_some hs).1, fun _ _ _ ha => .inr ?_⟩
        cases ha
        exact ⟨template, (mem_available.mp (choose_mem hchosen)).1, now, rfl⟩
    · cases hs
  | returned =>
    have hresume : ∀ {call : Nat} {announcing : Phase},
        (s.sys.reply? call).map (s.resume announcing) = some s' → s'.sys = s.sys := by
      intro call announcing h
      obtain ⟨reply, -, rfl⟩ := Option.map_eq_some_iff.mp h
      cases reply <;> rfl
    simp only [Simulation.step] at hs
    split at hs
    · exact .inl (hresume hs)
    · exact .inl (hresume hs)
    · cases hs
  | restart =>
    simp only [Simulation.step] at hs
    split at hs
    · obtain ⟨reply, -, rfl⟩ := Option.map_eq_some_iff.mp hs
      exact .inl rfl
    · cases hs
      exact .inl rfl
  | listed rows =>
    simp only [Simulation.step, openMarkets_listed] at hs
    split at hs
    · split at hs <;> cases hs <;> exact .inl rfl
    · cases hs
  | wake now =>
    simp only [Simulation.step] at hs
    split at hs <;> cases hs
    exact .inl rfl
  | announced posted =>
    simp only [Simulation.step] at hs
    split at hs <;> cases hs <;> exact .inl rfl
  | failed =>
    simp only [Simulation.step] at hs
    split at hs <;> cases hs <;> exact .inl rfl

/-! ### Nobody else -/

/-- Every open market, and every one about to be opened, asks a question of the templates. -/
structure Lone (s : Simulation) : Prop where
  live : ∀ title ∈ s.sys.db.liveTitles, title ∈ questions
  creating : ∀ i title, s.sys.Creating i title → title ∈ questions

theorem lone_init : init.Lone := by
  refine ⟨fun title h => absurd h List.not_mem_nil, ?_⟩
  rintro i title ⟨actor, input, prepared, h, -⟩
  simp [init, Sys.init] at h

theorem Lone.step (h : s.Lone) (hwf : s.sys.Wf) {act : SimAct} (hlone : act.LeavesOpening)
    (hs : s.step build ilike rng host act = some s') : s'.Lone := by
  rcases step_sys hs with hsame | ⟨a, he, hstarts⟩
  · exact ⟨hsame ▸ h.live, hsame ▸ h.creating⟩
  · refine ⟨fun title htitle => ?_, fun i title hi => ?_⟩
    · rcases he.markets hwf with ⟨f, hrows, hf⟩ | ⟨i, market, hi, -, hopen, hrows⟩
      · exact h.live title ((liveTitles_kept hrows hf).subset htitle)
      · rw [liveTitles_created hopen hrows, List.mem_append, List.mem_singleton] at htitle
        rcases htitle with htitle | rfl
        · exact h.live title htitle
        · exact h.creating i _ hi
    · rcases he.creating hi with hi | ⟨-, env, actor, input, prepared, rfl, hp, rfl⟩
      · exact h.creating i title hi
      · rcases hstarts env actor input rfl with rfl | ⟨template, htemplate, now, rfl⟩
        · exact absurd hlone id
        · have htitle := CreateMarket.prepare_title hp
          obtain ⟨prepared', hbegin, hquestion⟩ :=
            template_begins htemplate build env host now
          have htitle' := CreateMarket.prepare_title (Request.begin_creates hbegin).2
          rw [htitle, Except.ok.injEq] at htitle'
          rw [htitle', hquestion]
          exact List.mem_map_of_mem htemplate

theorem Lone.liveTitles (h : s.Lone) (hsingle : s.Single) :
    s.sys.db.liveTitles.Nodup ∧ s.sys.db.liveTitles.length ≤ questions.length := by
  have hall : s.sys.db.questionsOn = s.sys.db.liveTitles :=
    List.filter_eq_self.mpr fun title htitle => decide_eq_true (h.live title htitle)
  have hnodup := hsingle.distinct
  rw [hall] at hnodup
  exact ⟨hnodup, (hnodup.subperm fun title htitle => h.live title htitle).length_le⟩

theorem Lone.fitsSample (h : s.Lone) (hsingle : s.Single) (act : SimAct) : FitsSample s act := by
  have hfew : s.sys.db.liveTitles.length ≤ 50 := (h.liveTitles hsingle).2.trans (by decide)
  cases act with
  | listed rows =>
    simp only [FitsSample]
    split
    · exact hfew
    · trivial
  | _ => trivial

/-! ### What is settled -/

/-- What the maker looks at is still there, and what it settles was due when it woke. -/
structure Settles (host : UserId) (s : Simulation) : Prop where
  wf : s.sys.Wf
  listed : ∀ now markets, s.maker = .settleOutcomes now markets →
    (markets.map Market.id).Nodup ∧ ∀ m ∈ markets, m.status = .opened ∧
      ∃ row ∈ s.sys.db.markets.rows, row.id = m.id ∧ row.closesAt = m.closesAt
  resolving : ∀ now id winner call, s.maker = .resolving now id winner call →
    s.sys.db.Due now id ∧ winner ∈ s.sys.db.outcomeIds id ∧
      ∃ slot, s.sys.calls[call]? = some slot ∧
        slot.request = .resolveMarket ⟨host, .admin⟩ id winner

theorem Settles.move (h : s.Settles host) (hpage : maker.page? = none)
    (hcall : maker.call? = none) : Settles host ⟨s.sys, maker⟩ where
  wf := h.wf
  listed := by
    intro now markets heq
    cases heq
    cases hpage
  resolving := by
    intro now id winner call heq
    cases heq
    cases hcall

theorem Settles.effect (h : s.Settles host) {a : Act} {sys : Sys}
    (he : Sys.Effect build s.sys a sys) : Settles host ⟨sys, s.maker⟩ where
  wf := h.wf.effect he
  listed := by
    intro now markets hm
    obtain ⟨hids, hrows⟩ := h.listed now markets hm
    refine ⟨hids, fun m hmem => ?_⟩
    obtain ⟨hopen, row, hrow, hid, hcloses⟩ := hrows m hmem
    obtain ⟨row', hrow', hkept⟩ := he.row h.wf hrow
    exact ⟨hopen, row', hrow', hkept.id.trans hid, hkept.closesAt.trans hcloses⟩
  resolving := by
    intro now id winner call hm
    obtain ⟨⟨row, hrow, hid, closes, hcloses, hle⟩, hwinner, slot, hslot, hrequest⟩ :=
      h.resolving now id winner call hm
    obtain ⟨row', hrow', hkept⟩ := he.row h.wf hrow
    obtain ⟨slot', hslot', hsame⟩ := he.request hslot
    have hmarket : s.sys.db.HasMarket id := ⟨row, hid ▸ Table.find?_of_mem hrow⟩
    refine ⟨⟨row', hrow', hkept.id.trans hid, closes, hkept.closesAt.trans hcloses, hle⟩, ?_,
      slot', hslot', hsame.trans hrequest⟩
    rw [(he.grows h.wf).outcomes id hmarket]
    exact hwinner

theorem Settles.settleExpired (h : s.Settles host) {woken : DateTime} {markets : List Market}
    (hm : s.maker = .settleOutcomes woken markets) {draw winner : Nat} {env : Env}
    (hs : s.settleExpired build rng host woken (ListMarkets.grouped s.sys.db markets) draw winner env =
      some s') : s'.Settles host := by
  obtain ⟨hids, hrows⟩ := h.listed woken markets hm
  unfold Simulation.settleExpired at hs
  split at hs
  · cases hs
    exact h.move rfl rfl
  · rename_i view hchosen
    split at hs
    · cases hs
      exact h.move rfl rfl
    · rename_i outcome hpicked
      obtain ⟨hview, hexpired⟩ := List.mem_filter.mp (choose_mem hchosen)
      obtain ⟨hmem, houtcomes⟩ := ListMarkets.mem_grouped hids hview
      obtain ⟨hopen, row, hrow, hid, hcloses⟩ := hrows view.market hmem
      obtain ⟨closes, hdeadline, hle⟩ := expired_due hopen hexpired
      have hwinner : outcome.id ∈ s.sys.db.outcomeIds view.market.id := by
        have hpick := pickWinner_mem hpicked
        rw [houtcomes] at hpick
        exact List.mem_map_of_mem hpick
      obtain ⟨he, hmaker, hslot⟩ := await_some hs
      refine ⟨h.wf.effect he, fun now markets heq => ?_, fun now id winner call heq => ?_⟩
      · rw [hmaker] at heq
        cases heq
      · rw [hmaker] at heq
        cases heq
        have hmarket : s.sys.db.HasMarket view.market.id := ⟨row, hid ▸ Table.find?_of_mem hrow⟩
        obtain ⟨row', hrow', hkept⟩ := he.row h.wf hrow
        refine ⟨⟨row', hrow', hkept.id.trans hid, closes,
          (hkept.closesAt.trans hcloses).trans hdeadline, hle⟩, ?_, _, hslot,
          Request.begin_request _ _ _⟩
        rw [(he.grows h.wf).outcomes _ hmarket]
        exact hwinner

theorem Settles.openMarket (h : s.Settles host) {live : List MarketView} {draw : Nat}
    {now : DateTime} {env : Env} (hs : s.openMarket build host live draw now env = some s') :
    s'.Settles host := by
  unfold Simulation.openMarket at hs
  split at hs
  · cases hs
    exact h.move rfl rfl
  · obtain ⟨he, hmaker, -⟩ := await_some hs
    refine ⟨h.wf.effect he, fun now markets heq => ?_, fun now id winner call heq => ?_⟩
    · rw [hmaker] at heq
      cases heq
    · rw [hmaker] at heq
      cases heq

theorem Settles.listed_rows (h : s.Settles host) {rows : List Market}
    (hrows : rows.Perm s.sys.db.markets.rows) (woken : DateTime) :
    Settles host ⟨s.sys, .settleOutcomes woken ((newestOpen rows).take 50)⟩ where
  wf := h.wf
  listed := by
    intro now markets heq
    cases heq
    have hids : (rows.map Market.id).Nodup :=
      (hrows.map Market.id).nodup_iff.mpr s.sys.db.markets.nodup
    refine ⟨(newestOpen_nodup hids).sublist ((List.take_sublist _ _).map _), fun m hm => ?_⟩
    obtain ⟨hmem, hopen⟩ := mem_newestOpen.mp (List.mem_of_mem_take hm)
    exact ⟨hopen, m, hrows.mem_iff.mp hmem, rfl, rfl⟩
  resolving := fun now id winner call heq => by cases heq

theorem Settles.resume (h : s.Settles host) {reply : Reply} {announcing : Phase}
    (hpage : announcing.page? = none) (hcall : announcing.call? = none) :
    (s.resume announcing reply).Settles host := by
  unfold Simulation.resume
  split
  · exact h.move rfl rfl
  · exact h.move rfl rfl
  · exact h.move hpage hcall

theorem Settles.step (h : s.Settles host) {act : SimAct}
    (hs : s.step build ilike rng host act = some s') : s'.Settles host := by
  cases act with
  | world a =>
    obtain ⟨sys, hsys, rfl⟩ := Option.map_eq_some_iff.mp hs
    exact h.effect (Sys.step_effect hsys)
  | wake now =>
    simp only [Simulation.step] at hs
    split at hs <;> cases hs
    exact h.move rfl rfl
  | listed rows =>
    simp only [Simulation.step, openMarkets_listed] at hs
    split at hs
    · rename_i hrows
      split at hs
      · rename_i woken markets hm hlist
        cases hlist
        cases hs
        exact h.listed_rows hrows woken
      · cases hs
        refine ⟨h.wf, fun now markets heq => ?_, fun now id winner call heq => ?_⟩
        · cases heq
        · cases heq
      · rename_i hlist
        cases hlist
      · rename_i hlist
        cases hlist
      · cases hs
    · cases hs
  | grouped draw winner now env =>
    simp only [Simulation.step] at hs
    split at hs
    · rename_i woken markets hm
      exact h.settleExpired hm hs
    · exact h.openMarket hs
    · cases hs
  | returned =>
    simp only [Simulation.step] at hs
    split at hs
    · obtain ⟨reply, -, rfl⟩ := Option.map_eq_some_iff.mp hs
      exact h.resume rfl rfl
    · obtain ⟨reply, -, rfl⟩ := Option.map_eq_some_iff.mp hs
      exact h.resume rfl rfl
    · cases hs
  | announced posted =>
    simp only [Simulation.step] at hs
    split at hs
    · cases hs
      exact h.move (by cases posted <;> rfl) (by cases posted <;> rfl)
    · cases hs
      exact h.move rfl rfl
    · cases hs
  | failed =>
    simp only [Simulation.step] at hs
    split at hs <;> cases hs <;>
      exact h.move rfl rfl
  | restart =>
    simp only [Simulation.step] at hs
    split at hs
    · obtain ⟨reply, -, rfl⟩ := Option.map_eq_some_iff.mp hs
      exact h.move rfl rfl
    · cases hs
      exact h.move rfl rfl

theorem settles_init : init.Settles host where
  wf := Sys.wf_init
  listed := fun now markets heq => by cases heq
  resolving := fun now id winner call heq => by cases heq

end Simulation

section Runs
open Transition
variable {build : Build} {ilike : Text → Text → Bool} {rng : WeightedDraw} {host : UserId}

/-- The maker beside everything else on the same tables. With other titles than its own in
everybody else's markets, and no more open markets than its sample whenever it looks for a
question, none of its questions is live twice; with nobody else opening any, the board never
holds more than the questions. Whatever else happens, it settles only markets that were due
when it woke, on one of their outcomes. -/
theorem maker_board {acts : List SimAct} {s : Simulation}
    (hrun : run (Simulation.step build ilike rng host) .init acts = some s) :
    (Guarded (Simulation.step build ilike rng host) (fun s act => act.AsksAnew ∧ FitsSample s act) .init
        acts → s.sys.db.questionsOn.Nodup) ∧
      (Guarded (Simulation.step build ilike rng host) (fun _ act => act.LeavesOpening) .init acts →
        s.sys.db.liveTitles.Nodup ∧ s.sys.db.liveTitles.length ≤ questions.length ∧
          ∀ title ∈ s.sys.db.liveTitles, title ∈ questions) ∧
      ∀ now id winner call, s.maker = .resolving now id winner call →
        s.sys.db.Due now id ∧ winner ∈ s.sys.db.outcomeIds id ∧
          ∃ slot, s.sys.calls[call]? = some slot ∧
            slot.request = .resolveMarket ⟨host, .admin⟩ id winner := by
  refine ⟨fun hguard => ?_, fun hguard => ?_, ?_⟩
  · exact (run_invariant (fun s act s' h hok hs => h.step hok.1 hok.2 hs) Simulation.single_init
      hguard hrun).distinct
  · have hstep : ∀ (s : Simulation) act s', s.Single ∧ s.Lone → act.LeavesOpening →
        s.step build ilike rng host act = some s' → s'.Single ∧ s'.Lone := by
      rintro s act s' ⟨hsingle, hlone⟩ hleaves hs
      exact ⟨hsingle.step hleaves.asksAnew (hlone.fitsSample hsingle act) hs,
        hlone.step hsingle.wf hleaves hs⟩
    obtain ⟨hsingle, hlone⟩ := run_invariant hstep ⟨Simulation.single_init, Simulation.lone_init⟩
      hguard hrun
    obtain ⟨hnodup, hlength⟩ := hlone.liveTitles hsingle
    exact ⟨hnodup, hlength, hlone.live⟩
  · exact (run_invariant' (fun s act s' h hs => h.step hs) Simulation.settles_init hrun).resolving

end Runs

namespace Sample

def firstExceeding (weight : Outcome → Int) : List Outcome → Int → Option Outcome
  | [], _ => none
  | o :: rest, draw =>
    if draw < weight o then some o else firstExceeding weight rest (draw - weight o)

theorem firstExceeding_mem {weight : Outcome → Int} {outcomes : List Outcome} {draw : Int}
    {o : Outcome} (h : firstExceeding weight outcomes draw = some o) : o ∈ outcomes := by
  induction outcomes generalizing draw with
  | nil => simp [firstExceeding] at h
  | cons p rest ih =>
    rw [firstExceeding] at h
    split at h
    · cases h
      exact List.mem_cons_self
    · exact List.mem_cons_of_mem p (ih h)

/-- A generator that goes by the weights while they add up in an `i32`. -/
def byWeight : WeightedDraw where
  chooseWeighted := fun outcomes weight draw =>
    let total := (outcomes.map weight).sum
    if InI32 total ∧ 0 < total then firstExceeding weight outcomes (draw % total) else none
  mem := by
    intro outcomes weight draw o h
    dsimp only at h
    split at h
    · exact firstExceeding_mem h
    · simp at h

/-- The maker opens its fifth question. -/
def firstRound : List SimAct :=
  [.wake 1, .listed [], .grouped 0 0 1 (env 1 0), .listed [], .grouped 4 0 1 (env 1 100),
    .world (.step 0 (env 1 100)), .returned, .announced true]

def rounds (acts : List SimAct) : Simulation :=
  (Transition.run (Simulation.step .debug (fun _ _ => false) byWeight ⟨9⟩) .init acts).getD .init

/-- Twenty hours later it settles it. -/
def secondRound : List SimAct :=
  [.wake 72000000001, .listed (rounds firstRound).sys.db.markets.rows,
    .grouped 0 0 72000000001 (env 72000000001 0)]

end Sample

theorem maker_board_settled :
    (Sample.rounds (Sample.firstRound ++ Sample.secondRound)).sys.db.liveTitles.length ≤ 13 ∧
      (Sample.rounds (Sample.firstRound ++ Sample.secondRound)).sys.db.Due 72000000001 ⟨100⟩ := by
  have hsome : (Transition.run (Simulation.step .debug (fun _ _ => false) Sample.byWeight ⟨9⟩) .init
      (Sample.firstRound ++ Sample.secondRound)).isSome := by decide +kernel
  obtain ⟨s, hs⟩ := Option.isSome_iff_exists.mp hsome
  have hstate : Sample.rounds (Sample.firstRound ++ Sample.secondRound) = s := by
    rw [Sample.rounds, hs]
    rfl
  have hmaker : (Sample.rounds (Sample.firstRound ++ Sample.secondRound)).maker =
      .resolving 72000000001 ⟨100⟩ ⟨101⟩ 1 := by decide +kernel
  rw [hstate] at hmaker ⊢
  obtain ⟨-, halone, hdue⟩ := maker_board hs
  have hleaves : ∀ act ∈ Sample.firstRound ++ Sample.secondRound, act.LeavesOpening := by
    simp [Sample.firstRound, Sample.secondRound, SimAct.LeavesOpening]
  exact ⟨(halone (Transition.guarded_of_forall _ hleaves)).2.1, (hdue _ _ _ _ hmaker).1⟩

end Betsphere
