import Betsphere.Application.Enrich
import Betsphere.Application.Execution
import Betsphere.System.BetListings
set_option autoImplicit false

namespace Betsphere
open MachineInt Pricing

/-- The ports of the listings and of `CreateMarket`, beside those of the betting use cases. -/
structure Backend (σ : Type) extends Repositories σ where
  create : Env → Market → List Outcome → σ → σ × PortAnswer
  marketsByIds : σ → List MarketId → List Market
  outcomesForMarkets : σ → List MarketId → List Outcome
  activePositions : σ → List (UserId × OutcomeId) → Except RepositoryError (List ActivePosition)
  findByUser : Env → σ → UserId → BetFilter → Except RepositoryError (List Bet)
  findByMarket : Env → σ → MarketId → BetFilter → Except RepositoryError (List Bet)
  feed : Env → σ → BetFilter → Except RepositoryError (List Bet)

section Listings
variable {σ : Type} (backend : Backend σ)

def Enrich.usernames (userById : UserId → Option User) (known : List (UserId × Username)) :
    List UserId → Except ApplicationError (List (UserId × Username))
  | [] => .ok known
  | userId :: rest =>
    if known.any fun entry => entry.1 = userId then usernames userById known rest
    else
      match userById userId with
      | none => .error (brokenLink ("user " ++ toString userId))
      | some user => usernames userById ((userId, user.username) :: known) rest

def enrich (s : σ) (bets : List Bet) : Except Enrich.Failure (List BetView) :=
  let marketIds := (bets.map Bet.marketId).dedup
  let markets := backend.marketsByIds s marketIds
  let outcomes := backend.outcomesForMarkets s marketIds
  match backend.activePositions s (bets.map fun b => (b.userId, b.outcomeId)).dedup with
  | .error e => .error (.error (.ofRepository e))
  | .ok positions =>
    match Enrich.usernames (backend.userById s) [] (bets.map Bet.userId) with
    | .error e => .error (.error e)
    | .ok usernames => bets.mapM (Enrich.viewOf markets outcomes positions usernames)

def enrichFound (s : σ) : Except RepositoryError (List Bet) → Except Enrich.Failure (List BetView)
  | .error e => .error (.error (.ofRepository e))
  | .ok bets => enrich backend s bets

def ListUserBets.execute (env : Env) (s : σ) (userId : UserId) (filter : BetFilter) :
    Except Enrich.Failure (List BetView) :=
  match backend.userById s userId with
  | none => .error (.error (.notFound ("user " ++ toString userId)))
  | some _ => enrichFound backend s (backend.findByUser env s userId filter)

def ListMarketBets.execute (env : Env) (s : σ) (marketId : MarketId) (filter : BetFilter) :
    Except Enrich.Failure (List BetView) :=
  match backend.marketById s marketId with
  | none => .error (.error (.notFound ("market " ++ toString marketId)))
  | some _ => enrichFound backend s (backend.findByMarket env s marketId filter)

def ListBetFeed.execute (env : Env) (s : σ) (filter : BetFilter) :
    Except Enrich.Failure (List BetView) := enrichFound backend s (backend.feed env s filter)

inductive BetListing where
  | user (userId : UserId) (filter : BetFilter)
  | market (marketId : MarketId) (filter : BetFilter)
  | feed (filter : BetFilter)
  deriving DecidableEq

def BetListing.execute (env : Env) (s : σ) : BetListing → Except Enrich.Failure (List BetView)
  | .user userId filter => ListUserBets.execute backend env s userId filter
  | .market marketId filter => ListMarketBets.execute backend env s marketId filter
  | .feed filter => ListBetFeed.execute backend env s filter

def BetListing.page (env : Env) (s : σ) : BetListing → Except RepositoryError (List Bet)
  | .user userId filter => backend.findByUser env s userId filter
  | .market marketId filter => backend.findByMarket env s marketId filter
  | .feed filter => backend.feed env s filter

theorem BetListing.execute_ok {backend : Backend σ} {env : Env} {s : σ} {listing : BetListing}
    {views : List BetView} (h : listing.execute backend env s = .ok views) :
    ∃ bets, listing.page backend env s = .ok bets ∧ enrich backend s bets = .ok views := by
  have hfound : ∀ found, enrichFound backend s found = .ok views →
      ∃ bets, found = .ok bets ∧ enrich backend s bets = .ok views := by
    intro found hviews
    cases found with
    | error e => cases hviews
    | ok bets => exact ⟨bets, rfl, hviews⟩
  cases listing with
  | user userId filter =>
    simp only [execute, ListUserBets.execute] at h
    split at h
    · cases h
    · exact hfound _ h
  | market marketId filter =>
    simp only [execute, ListMarketBets.execute] at h
    split at h
    · cases h
    · exact hfound _ h
  | feed filter => exact hfound _ h

end Listings

inductive MarketCall where
  | create (actor : Actor) (input : NewMarket) (env : Nat → Env)
  | betting (x : Execution)

section Calls
variable {σ : Type} (backend : Backend σ) (build : Build)

def CreateMarket.advance (env : Env) (prepared : Market × List Outcome) (s : σ) :
    σ × Next (Market × List Outcome) :=
  match backend.create env prepared.1 prepared.2 s with
  | (s, answer) => (s, answer.andThen (written prepared))

def MarketCall.run (s : σ) : MarketCall → Option (σ × Reply)
  | .create actor input env =>
    match CreateMarket.prepare build (env 0) actor input with
    | .reply r => some (s, r)
    | .goto prepared => drive (CreateMarket.advance backend) env 1 1 prepared s
  | .betting x => x.run backend.toRepositories build s

/-- The stores after calls run one at a time. -/
def afterCalls : List MarketCall → σ → Option σ
  | [], s => some s
  | call :: calls, s =>
    match call.run backend build s with
    | none => none
    | some (s, _) => afterCalls calls s

def MarketCall.draws : MarketCall → List Uuid
  | .create _ input env => (List.range (input.outcomes.length + 1)).map (env 0).fresh
  | .betting x =>
    match x.request with
    | .placeBet .. => [(x.env 3).fresh 0]
    | .resolveMarket .. => []

end Calls

section Drive
variable {φ σ : Type} {advance : Env → φ → σ → σ × Next φ} {env : Nat → Env}

theorem drive_invariant {Inv : Nat → φ → σ → Prop} {Done : σ → Prop}
    (hgo : ∀ k p s s' p', Inv k p s → advance (env k) p s = (s', .goto p') → Inv (k + 1) p' s')
    (hend : ∀ k p s s' r, Inv k p s → advance (env k) p s = (s', .reply r) → Done s')
    {fuel k : Nat} {p : φ} {s s' : σ} {r : Reply}
    (hdrive : drive advance env fuel k p s = some (s', r)) (h : Inv k p s) : Done s' := by
  induction fuel generalizing k p s with
  | zero => cases hdrive
  | succ fuel ih =>
    rw [drive] at hdrive
    cases ha : advance (env k) p s with
    | mk t next =>
      rw [ha] at hdrive
      cases next with
      | reply r' =>
        cases hdrive
        exact hend k p s _ _ h ha
      | goto p' => exact ih hdrive (hgo k p s t p' h ha)

theorem drive_ends {rank : φ → Nat}
    (hrank : ∀ env p s p', (advance env p s).2 = .goto p' → rank p' < rank p)
    {fuel : Nat} (k : Nat) (p : φ) (s : σ) (hfuel : rank p < fuel) :
    ∃ s' r, drive advance env fuel k p s = some (s', r) := by
  induction fuel generalizing k p s with
  | zero => omega
  | succ fuel ih =>
    rw [drive]
    cases ha : advance (env k) p s with
    | mk t next =>
      cases next with
      | reply r => exact ⟨t, r, rfl⟩
      | goto p' =>
        have hlt := hrank (env k) p s p' (by rw [ha])
        exact ih (k + 1) p' t (by omega)

end Drive

section Ranks
variable {σ : Type} {build : Build} {env : Env} {actor : Actor} {input : NewBet}
  {marketId : MarketId} {winner : OutcomeId}

theorem PlaceBet.advance_rank (repos : Repositories σ) {s : σ} {p p' : PlaceBet.Phase}
    (h : (PlaceBet.advance repos build actor input env p s).2 = .goto p') : p'.rank < p.rank := by
  cases p with
  | readOutcome =>
    simp only [PlaceBet.advance] at h
    cases ho : repos.outcomeById s input.outcomeId with
    | none => simp [ho, PlaceBet.onOutcome] at h
    | some o =>
      simp only [ho, PlaceBet.onOutcome, Next.goto.injEq] at h
      rw [← h]
      simp [PlaceBet.Phase.rank]
  | readMarket outcome =>
    simp only [PlaceBet.advance] at h
    cases hm : repos.marketById s outcome.marketId with
    | none => simp [hm, PlaceBet.onMarket] at h
    | some market =>
      simp only [hm, PlaceBet.onMarket] at h
      split at h
      · cases h
        simp [PlaceBet.Phase.rank]
      · simp [Next.domainError] at h
  | readOutcomes market =>
    simp only [PlaceBet.advance, PlaceBet.onOutcomes] at h
    split at h
    · simp [Next.domainError] at h
    · cases h
      simp [PlaceBet.Phase.rank]
  | findUser market outcomes chosen lookup =>
    obtain ⟨user, bet, backed, priced, -, -, rfl⟩ := PlaceBet.onUser_goto h
    simp [PlaceBet.Phase.rank]
  | place market user bet priced chosen points =>
    simp only [PlaceBet.advance] at h
    cases ha : (repos.place env bet priced points s).2 with
    | done =>
      simp only [ha, PortAnswer.andThen, PlaceBet.onPlaced, Next.goto.injEq] at h
      rw [← h]
      simp [PlaceBet.Phase.rank]
    | failed e => simp [ha, PortAnswer.andThen, PlaceBet.onPlaced] at h
    | panicked p => simp [ha, PortAnswer.andThen] at h
  | readPosition market user bet priced chosen => simp [PlaceBet.advance] at h

theorem ResolveMarket.advance_rank (repos : Repositories σ) {s : σ}
    {p p' : ResolveMarket.Phase}
    (h : (ResolveMarket.advance repos marketId winner env p s).2 = .goto p') :
    p'.rank < p.rank := by
  cases p with
  | readMarket =>
    simp only [ResolveMarket.advance] at h
    cases hm : repos.marketById s marketId with
    | none => simp [hm, ResolveMarket.onMarket] at h
    | some market =>
      simp only [hm, ResolveMarket.onMarket, Next.goto.injEq] at h
      rw [← h]
      simp [ResolveMarket.Phase.rank]
  | readOutcomes market =>
    simp only [ResolveMarket.advance, ResolveMarket.onOutcomes] at h
    split at h
    · cases hr : market.resolve winner with
      | error e => simp [hr, Next.domainError] at h
      | ok copy =>
        simp only [hr, Next.goto.injEq] at h
        rw [← h]
        simp [ResolveMarket.Phase.rank]
    · simp [Next.domainError] at h
  | readActive market outcomes =>
    simp only [ResolveMarket.advance, ResolveMarket.onActive] at h
    split at h
    · simp [Next.domainError] at h
    · cases h
      simp [ResolveMarket.Phase.rank]
  | settle market outcomes settled =>
    simp only [ResolveMarket.advance] at h
    cases ha : (repos.settle env market settled s).2 <;> simp [ha, PortAnswer.andThen] at h

end Ranks

section Effects
variable {σ : Type} {repos : Repositories σ} {build : Build} {s s' : σ} {r : Reply}
  {env : Nat → Env}

/-- What a placement that comes to its write has read of the stores. -/
structure Placing (repos : Repositories σ) (build : Build) (s : σ) (input : NewBet) (id : BetId)
    (bet : Bet) (priced : List Outcome) : Prop where
  outcome : ∃ outcome market, repos.outcomeById s input.outcomeId = some outcome ∧
    repos.marketById s outcome.marketId = some market ∧ market.status = .opened ∧
    bet.marketId = market.id ∧ ∃ chosen, (repos.outcomesFor s market.id)[chosen]?.any
      (fun o => o.id = input.outcomeId) ∧ recalculatePrices build
        (PlaceBet.staked (repos.outcomesFor s market.id) chosen bet.amount) = .ok priced
  outcomeId : bet.outcomeId = input.outcomeId
  user : ∃ user, repos.userById s bet.userId = some user
  active : bet.status = .active
  drawn : bet.id = id

theorem PlaceBet.run_places {actor : Actor} {input : NewBet} {outcome : Outcome} {market : Market}
    {chosen : Nat} {user : User} {bet : Bet} {backed priced : List Outcome}
    (houtcome : repos.outcomeById s input.outcomeId = some outcome)
    (hmarket : repos.marketById s outcome.marketId = some market)
    (hopen : market.acceptsBets (env 1).now = true)
    (hchosen : (repos.outcomesFor s market.id).findIdx? (fun o => o.id = input.outcomeId) =
      some chosen)
    (hback : PlaceBet.back (env 3) actor input market (repos.outcomesFor s market.id) chosen
      (repos.userById s actor.userId) = .ok (user, bet, backed))
    (hprice : recalculatePrices build backed = .ok priced)
    (hplace : repos.place (env 4) bet priced
      (priced.map fun o => ⟨o.id, o.currentPrice, (env 3).now⟩) s = (s', .done)) :
    ∃ r, Execution.run repos build ⟨.placeBet actor input, env⟩ s = some (s', r) := by
  refine ⟨PlaceBet.onAverage market user bet priced chosen
    (repos.activePosition s' actor.userId input.outcomeId), ?_⟩
  simp only [Execution.run, drive, PlaceBet.advance, PlaceBet.onOutcome, PlaceBet.onMarket,
    PlaceBet.onOutcomes, PlaceBet.onUser, PortAnswer.andThen, PlaceBet.onPlaced, houtcome, hmarket,
    hopen, hchosen, hback, hprice, hplace, if_true]

/-- The state of a placement at its `k`-th await, while nobody else writes. -/
def PlaceBet.Phase.Reads (repos : Repositories σ) (build : Build) (s : σ) (input : NewBet)
    (env : Nat → Env) (Done : σ → Prop) (k : Nat) (t : σ) : PlaceBet.Phase → Prop
  | .readOutcome => k = 0 ∧ t = s
  | .readMarket outcome => k = 1 ∧ t = s ∧ repos.outcomeById s input.outcomeId = some outcome
  | .readOutcomes market => k = 2 ∧ t = s ∧ ∃ outcome,
    repos.outcomeById s input.outcomeId = some outcome ∧
      repos.marketById s outcome.marketId = some market ∧ market.status = .opened
  | .findUser market outcomes chosen _ => k = 3 ∧ t = s ∧ outcomes = repos.outcomesFor s market.id ∧
    outcomes[chosen]?.any (fun o => o.id = input.outcomeId) ∧ ∃ outcome,
      repos.outcomeById s input.outcomeId = some outcome ∧
        repos.marketById s outcome.marketId = some market ∧ market.status = .opened
  | .place _ _ bet priced _ _ =>
    t = s ∧ Placing repos build s input ⟨(env 3).fresh 0⟩ bet priced
  | .readPosition .. => Done t

/-- What a placement can leave behind of stores `s`. -/
def PlaceBet.Leaves (repos : Repositories σ) (build : Build) (s : σ) (input : NewBet)
    (env : Nat → Env) (t : σ) : Prop :=
  t = s ∨ ∃ env' bet priced points, Placing repos build s input ⟨(env 3).fresh 0⟩ bet priced ∧
    t = (repos.place env' bet priced points s).1

section Place
variable {input : NewBet} {actor : Actor} {k : Nat} {p p' : PlaceBet.Phase} {t t' : σ}

theorem PlaceBet.reads_goto
    (hp : p.Reads repos build s input env (PlaceBet.Leaves repos build s input env) k t)
    (hadvance : PlaceBet.advance repos build actor input (env k) p t = (t', .goto p')) :
    p'.Reads repos build s input env (PlaceBet.Leaves repos build s input env) (k + 1) t' := by
  cases p with
  | readOutcome =>
    obtain ⟨rfl, rfl⟩ := hp
    simp only [PlaceBet.advance, Prod.mk.injEq] at hadvance
    obtain ⟨rfl, hnext⟩ := hadvance
    cases ho : repos.outcomeById t input.outcomeId with
    | none => simp [ho, PlaceBet.onOutcome] at hnext
    | some outcome =>
      simp only [ho, PlaceBet.onOutcome, Next.goto.injEq] at hnext
      subst hnext
      exact ⟨rfl, rfl, ho⟩
  | readMarket outcome =>
    obtain ⟨rfl, rfl, ho⟩ := hp
    simp only [PlaceBet.advance, Prod.mk.injEq] at hadvance
    obtain ⟨rfl, hnext⟩ := hadvance
    cases hm : repos.marketById t outcome.marketId with
    | none => simp [hm, PlaceBet.onMarket] at hnext
    | some market =>
      simp only [hm, PlaceBet.onMarket] at hnext
      split at hnext
      · rename_i hopen
        cases hnext
        exact ⟨rfl, rfl, outcome, ho, hm, Market.acceptsBets_opened hopen⟩
      · simp [Next.domainError] at hnext
  | readOutcomes market =>
    obtain ⟨rfl, rfl, hfound⟩ := hp
    simp only [PlaceBet.advance, PlaceBet.onOutcomes, Prod.mk.injEq] at hadvance
    obtain ⟨rfl, hnext⟩ := hadvance
    split at hnext
    · simp [Next.domainError] at hnext
    · rename_i chosen hchosen
      cases hnext
      obtain ⟨o, ho, hid⟩ := PlaceBet.findIdx?_chosen hchosen
      exact ⟨rfl, rfl, rfl, by simpa [ho] using hid, hfound⟩
  | findUser market outcomes chosen lookup =>
    obtain ⟨rfl, rfl, rfl, hchosen, outcome, ho, hm, hopen⟩ := hp
    simp only [PlaceBet.advance, Prod.mk.injEq] at hadvance
    obtain ⟨rfl, hnext⟩ := hadvance
    obtain ⟨user, bet, backed, priced, hback, hprice, rfl⟩ := PlaceBet.onUser_goto hnext
    obtain ⟨huser, -, ⟨o, -, hbet⟩, rfl⟩ := PlaceBet.back_ok hback
    obtain ⟨hid, hbettor, hmarket, houtcome, -, -, hactive, -⟩ := Bet.place_ok hbet
    refine ⟨rfl, ⟨⟨outcome, market, ho, hm, hopen, hmarket, chosen, hchosen, hprice⟩,
      houtcome, ⟨user, ?_⟩, hactive, hid⟩⟩
    rw [hbettor]
    exact huser
  | place market user bet priced chosen points =>
    obtain ⟨rfl, hplacing⟩ := hp
    have ht' : t' = (repos.place (env k) bet priced points t).1 := by
      rw [PlaceBet.advance] at hadvance
      exact (congrArg Prod.fst hadvance).symm
    have hleaves : PlaceBet.Leaves repos build t input env t' :=
      .inr ⟨env k, bet, priced, points, hplacing, ht'⟩
    simp only [PlaceBet.advance, Prod.mk.injEq] at hadvance
    obtain ⟨-, hnext⟩ := hadvance
    cases hanswer : (repos.place (env k) bet priced points t).2 with
    | done =>
      simp only [hanswer, PortAnswer.andThen, PlaceBet.onPlaced, Next.goto.injEq] at hnext
      subst hnext
      exact hleaves
    | failed e => simp [hanswer, PortAnswer.andThen, PlaceBet.onPlaced] at hnext
    | panicked p => simp [hanswer, PortAnswer.andThen] at hnext
  | readPosition market user bet priced chosen => simp [PlaceBet.advance] at hadvance

theorem PlaceBet.reads_reply
    (hp : p.Reads repos build s input env (PlaceBet.Leaves repos build s input env) k t)
    (hadvance : PlaceBet.advance repos build actor input (env k) p t = (t', .reply r)) :
    PlaceBet.Leaves repos build s input env t' := by
  have ht' := congrArg Prod.fst hadvance
  cases p with
  | readOutcome => exact .inl (ht'.symm.trans hp.2)
  | readMarket outcome => exact .inl (ht'.symm.trans hp.2.1)
  | readOutcomes market => exact .inl (ht'.symm.trans hp.2.1)
  | findUser market outcomes chosen lookup => exact .inl (ht'.symm.trans hp.2.1)
  | place market user bet priced chosen points =>
    obtain ⟨rfl, hplacing⟩ := hp
    exact .inr ⟨env k, bet, priced, points, hplacing, ht'.symm⟩
  | readPosition market user bet priced chosen =>
    have hsame : t' = t := ht'.symm
    rw [hsame]
    exact hp

theorem PlaceBet.drive_effect {fuel : Nat}
    (h : drive (PlaceBet.advance repos build actor input) env fuel 0 .readOutcome s =
      some (s', r)) : PlaceBet.Leaves repos build s input env s' :=
  drive_invariant (fun _ _ _ _ _ => PlaceBet.reads_goto) (fun _ _ _ _ _ => PlaceBet.reads_reply) h
    ⟨rfl, rfl⟩

end Place

/-- What a settlement that comes to its write has read of the stores. -/
structure Resolving (repos : Repositories σ) (s : σ) (env : Env) (marketId : MarketId)
    (winner : OutcomeId) (market : Market) (settled : List Bet) : Prop where
  market : ∃ stored, repos.marketById s marketId = some stored ∧
    market = { stored with status := .resolved, resolvedOutcomeId := some winner }
  settled : ResolveMarket.settleAll winner (repos.activeForMarket env s marketId) = .ok settled

def ResolveMarket.Phase.Reads (repos : Repositories σ) (s : σ) (marketId : MarketId)
    (winner : OutcomeId) (env : Nat → Env) (k : Nat) (t : σ) : ResolveMarket.Phase → Prop
  | .readMarket => k = 0 ∧ t = s
  | .readOutcomes market => k = 1 ∧ t = s ∧ repos.marketById s marketId = some market
  | .readActive market _ => k = 2 ∧ t = s ∧ ∃ stored, repos.marketById s marketId = some stored ∧
    market = { stored with status := .resolved, resolvedOutcomeId := some winner }
  | .settle market _ settled => t = s ∧ Resolving repos s (env 2) marketId winner market settled

/-- What a settlement can leave behind of stores `s`. -/
def ResolveMarket.Leaves (repos : Repositories σ) (s : σ) (marketId : MarketId)
    (winner : OutcomeId) (env : Nat → Env) (t : σ) : Prop :=
  t = s ∨ ∃ env' market settled, Resolving repos s (env 2) marketId winner market settled ∧
    t = (repos.settle env' market settled s).1

section Resolve
variable {marketId : MarketId} {winner : OutcomeId} {k : Nat} {p p' : ResolveMarket.Phase}
  {t t' : σ}

theorem ResolveMarket.reads_goto (hp : p.Reads repos s marketId winner env k t)
    (hadvance : ResolveMarket.advance repos marketId winner (env k) p t = (t', .goto p')) :
    p'.Reads repos s marketId winner env (k + 1) t' := by
  cases p with
  | readMarket =>
    obtain ⟨rfl, rfl⟩ := hp
    simp only [ResolveMarket.advance, Prod.mk.injEq] at hadvance
    obtain ⟨rfl, hnext⟩ := hadvance
    cases hm : repos.marketById t marketId with
    | none => simp [hm, ResolveMarket.onMarket] at hnext
    | some market =>
      simp only [hm, ResolveMarket.onMarket, Next.goto.injEq] at hnext
      subst hnext
      exact ⟨rfl, rfl, hm⟩
  | readOutcomes market =>
    obtain ⟨rfl, rfl, hm⟩ := hp
    simp only [ResolveMarket.advance, ResolveMarket.onOutcomes, Prod.mk.injEq] at hadvance
    obtain ⟨rfl, hnext⟩ := hadvance
    split at hnext
    · cases hresolve : market.resolve winner with
      | error e => simp [hresolve, Next.domainError] at hnext
      | ok resolved =>
        simp only [hresolve, Next.goto.injEq] at hnext
        subst hnext
        exact ⟨rfl, rfl, market, hm, (Market.resolve_ok hresolve).2⟩
    · simp [Next.domainError] at hnext
  | readActive market outcomes =>
    obtain ⟨rfl, rfl, hmarket⟩ := hp
    simp only [ResolveMarket.advance, ResolveMarket.onActive, Prod.mk.injEq] at hadvance
    obtain ⟨rfl, hnext⟩ := hadvance
    cases hall : ResolveMarket.settleAll winner (repos.activeForMarket (env 2) t marketId) with
    | error e => simp [hall, Next.domainError] at hnext
    | ok settled =>
      simp only [hall, Next.goto.injEq] at hnext
      subst hnext
      exact ⟨rfl, hmarket, hall⟩
  | settle market outcomes settled =>
    simp only [ResolveMarket.advance, Prod.mk.injEq] at hadvance
    obtain ⟨-, hnext⟩ := hadvance
    cases hanswer : (repos.settle (env k) market settled t).2 <;>
      simp [hanswer, PortAnswer.andThen] at hnext

theorem ResolveMarket.reads_reply (hp : p.Reads repos s marketId winner env k t)
    (hadvance : ResolveMarket.advance repos marketId winner (env k) p t = (t', .reply r)) :
    ResolveMarket.Leaves repos s marketId winner env t' := by
  have ht' := congrArg Prod.fst hadvance
  cases p with
  | readMarket => exact .inl (ht'.symm.trans hp.2)
  | readOutcomes market => exact .inl (ht'.symm.trans hp.2.1)
  | readActive market outcomes => exact .inl (ht'.symm.trans hp.2.1)
  | settle market outcomes settled =>
    obtain ⟨rfl, hresolving⟩ := hp
    exact .inr ⟨env k, market, settled, hresolving, ht'.symm⟩

theorem ResolveMarket.drive_effect {fuel : Nat}
    (h : drive (ResolveMarket.advance repos marketId winner) env fuel 0 .readMarket s =
      some (s', r)) : ResolveMarket.Leaves repos s marketId winner env s' :=
  drive_invariant (fun _ _ _ _ _ => ResolveMarket.reads_goto)
    (fun _ _ _ _ _ => ResolveMarket.reads_reply) h ⟨rfl, rfl⟩

end Resolve

end Effects

/-- What a call does: it leaves the stores alone or makes the one write it has prepared. -/
inductive MarketCall.Effect {σ : Type} (backend : Backend σ) (build : Build) (s : σ) :
    MarketCall → σ → Prop where
  | none (call : MarketCall) : Effect backend build s call s
  | created (actor : Actor) (input : NewMarket) (env : Nat → Env) (market : Market)
      (outcomes : List Outcome)
      (h : CreateMarket.prepare build (env 0) actor input = .goto (market, outcomes)) :
      Effect backend build s (.create actor input env) (backend.create (env 1) market outcomes s).1
  | placed (actor : Actor) (input : NewBet) (env : Nat → Env) (env' : Env) (bet : Bet)
      (priced : List Outcome) (points : List PricePoint)
      (h : Placing backend.toRepositories build s input ⟨(env 3).fresh 0⟩ bet priced) :
      Effect backend build s (.betting ⟨.placeBet actor input, env⟩)
        (backend.place env' bet priced points s).1
  | settled (actor : Actor) (marketId : MarketId) (winner : OutcomeId) (env : Nat → Env)
      (env' : Env) (market : Market) (bets : List Bet)
      (h : Resolving backend.toRepositories s (env 2) marketId winner market bets) :
      Effect backend build s (.betting ⟨.resolveMarket actor marketId winner, env⟩)
        (backend.settle env' market bets s).1

section Runs
variable {σ : Type} {backend : Backend σ} {build : Build} {s s' : σ} {r : Reply}

theorem MarketCall.run_effect {call : MarketCall} (h : call.run backend build s = some (s', r)) :
    call.Effect backend build s s' := by
  cases call with
  | create actor input env =>
    simp only [run] at h
    cases hprepare : CreateMarket.prepare build (env 0) actor input with
    | reply r' =>
      rw [hprepare] at h
      cases h
      exact .none _
    | goto prepared =>
      simp only [hprepare, drive] at h
      split at h
      · rename_i t r' hadvance
        cases h
        have hs : (backend.create (env 1) prepared.1 prepared.2 s).1 = s' :=
          congrArg Prod.fst hadvance
        rw [← hs]
        exact .created actor input env prepared.1 prepared.2 hprepare
      · cases h
  | betting x =>
    obtain ⟨request, env⟩ := x
    cases request with
    | placeBet actor input =>
      rcases PlaceBet.drive_effect h with rfl | ⟨env', bet, priced, points, hplacing, rfl⟩
      · exact .none _
      · exact .placed actor input env env' bet priced points hplacing
    | resolveMarket actor marketId winner =>
      simp only [run, Execution.run] at h
      split at h
      · rcases ResolveMarket.drive_effect h with rfl | ⟨env', market, bets, hresolving, rfl⟩
        · exact .none _
        · exact .settled actor marketId winner env env' market bets hresolving
      · cases h
        exact .none _

theorem MarketCall.run_ends (backend : Backend σ) (build : Build) (call : MarketCall) (s : σ) :
    ∃ s' r, call.run backend build s = some (s', r) := by
  cases call with
  | create actor input env =>
    simp only [run]
    cases hprepare : CreateMarket.prepare build (env 0) actor input with
    | reply r => exact ⟨s, r, rfl⟩
    | goto prepared =>
      have hreply : ∀ s p' prepared, (CreateMarket.advance backend (env 1) prepared s).2 ≠
          .goto p' := by
        intro s p' prepared h
        simp only [CreateMarket.advance] at h
        cases hanswer : (backend.create (env 1) prepared.1 prepared.2 s).2 <;>
          simp [hanswer, PortAnswer.andThen, CreateMarket.written] at h
      simp only [drive]
      split
      · exact ⟨_, _, rfl⟩
      · rename_i t p' hadvance
        exact absurd (congrArg Prod.snd hadvance) (hreply s p' prepared)
  | betting x =>
    obtain ⟨request, env⟩ := x
    cases request with
    | placeBet actor input =>
      exact drive_ends (fun env p s p' h => PlaceBet.advance_rank backend.toRepositories h)
        0 .readOutcome s (by decide)
    | resolveMarket actor marketId winner =>
      simp only [run, Execution.run]
      split
      · exact drive_ends (fun env p s p' h => ResolveMarket.advance_rank backend.toRepositories h)
          0 .readMarket s (by decide)
      · exact ⟨s, _, rfl⟩

theorem afterCalls_ends (backend : Backend σ) (build : Build) (calls : List MarketCall) (s : σ) :
    ∃ s', afterCalls backend build calls s = some s' := by
  induction calls generalizing s with
  | nil => exact ⟨s, rfl⟩
  | cons call calls ih =>
    obtain ⟨t, r, ht⟩ := call.run_ends backend build s
    obtain ⟨s', hs'⟩ := ih t
    exact ⟨s', by rw [afterCalls, ht]; exact hs'⟩

end Runs

section Settling
variable {bets settled : List Bet} {marketId : MarketId} {winner : OutcomeId}

/-- A settlement of all active bets of a market holds a copy of each of them and no other. -/
theorem find?_settled (hnd : (bets.map Bet.id).Nodup)
    (hp : settled.Perm ((bets.filter fun b => b.marketId = marketId ∧ b.status = .active).map
      (ResolveMarket.settleOn winner))) {b : Bet} (hb : b ∈ bets) :
    settled.find? (fun s => s.id = b.id) = if b.marketId = marketId ∧ b.status = .active then
      some (ResolveMarket.settleOn winner b) else none := by
  have hcopy : ∀ s ∈ settled, s.id = b.id → (b.marketId = marketId ∧ b.status = .active) ∧
      s = ResolveMarket.settleOn winner b := by
    intro s hs hid
    obtain ⟨c, hc, rfl⟩ := List.mem_map.mp (hp.mem_iff.mp hs)
    obtain ⟨hrow, hactive⟩ := List.mem_filter.mp hc
    have hcid := (ResolveMarket.settleOn_sameStake winner c).id
    obtain rfl : c = b := List.inj_on_of_nodup_map hnd hrow hb (hcid.trans hid)
    exact ⟨of_decide_eq_true hactive, rfl⟩
  split
  · rename_i hactive
    have hmem : ResolveMarket.settleOn winner b ∈ settled := by
      refine hp.mem_iff.mpr (List.mem_map_of_mem (List.mem_filter.mpr ⟨hb, ?_⟩))
      exact decide_eq_true hactive
    have hid := (ResolveMarket.settleOn_sameStake winner b).id
    obtain ⟨s, hs⟩ := Enrich.find?_some (p := fun s => decide (s.id = b.id))
      ⟨_, hmem, decide_eq_true hid.symm⟩
    rw [hs, (hcopy s (List.mem_of_find?_eq_some hs) (by simpa using List.find?_some hs)).2]
  · rename_i hactive
    refine List.find?_eq_none.mpr fun s hs hid => hactive (hcopy s hs (by simpa using hid)).1

end Settling

end Betsphere
