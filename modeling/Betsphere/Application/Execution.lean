import Betsphere.Application.Betting
set_option autoImplicit false

namespace Betsphere
open MachineInt

/-- How a write of a repository ends. -/
inductive PortAnswer where
  | done
  | failed (error : RepositoryError)
  | panicked (panic : Panic)
  deriving DecidableEq

structure Repositories (σ : Type) where
  outcomeById : σ → OutcomeId → Option Outcome
  marketById : σ → MarketId → Option Market
  outcomesFor : σ → MarketId → List Outcome
  userById : σ → UserId → Option User
  activePosition : σ → UserId → OutcomeId → Except RepositoryError (Option Price)
  activeForMarket : Env → σ → MarketId → List Bet
  place : Env → Bet → List Outcome → List PricePoint → σ → σ × PortAnswer
  settle : Env → Market → List Bet → σ → σ × PortAnswer

def PortAnswer.andThen {φ : Type} (written : Except RepositoryError Unit → Next φ) :
    PortAnswer → Next φ
  | .done => written (.ok ())
  | .failed e => written (.error e)
  | .panicked p => .reply (.panicked p)

section UseCases
variable {σ : Type} (repos : Repositories σ)

namespace PlaceBet

/-- The average of the bettor's active bets, or the price of this one when there is none. -/
def onAverage (market : Market) (user : User) (bet : Bet) (priced : List Outcome) (chosen : Nat) :
    Except RepositoryError (Option Price) → Reply
  | .error e => .error (.ofRepository e)
  | .ok none => viewFor market user bet priced chosen bet.price
  | .ok (some avgPrice) => viewFor market user bet priced chosen avgPrice

def advance (build : Build) (actor : Actor) (input : NewBet) (env : Env) :
    Phase → σ → σ × Next Phase
  | .readOutcome, s => (s, onOutcome input (repos.outcomeById s input.outcomeId))
  | .readMarket outcome, s => (s, onMarket env outcome (repos.marketById s outcome.marketId))
  | .readOutcomes market, s => (s, onOutcomes input market (repos.outcomesFor s market.id))
  | .findUser market outcomes chosen _, s =>
    (s, onUser build env actor input market outcomes chosen (repos.userById s actor.userId))
  | .place market user bet priced chosen points, s =>
    match repos.place env bet priced points s with
    | (s, answer) => (s, answer.andThen (onPlaced market user bet priced chosen))
  | .readPosition market user bet priced chosen, s =>
    (s, .reply (onAverage market user bet priced chosen
      (repos.activePosition s actor.userId input.outcomeId)))

def Phase.rank : Phase → Nat
  | .readOutcome => 5
  | .readMarket .. => 4
  | .readOutcomes .. => 3
  | .findUser .. => 2
  | .place .. => 1
  | .readPosition .. => 0

end PlaceBet

namespace ResolveMarket

def advance (marketId : MarketId) (winner : OutcomeId) (env : Env) : Phase → σ → σ × Next Phase
  | .readMarket, s => (s, onMarket marketId (repos.marketById s marketId))
  | .readOutcomes market, s =>
    (s, onOutcomes marketId winner market (repos.outcomesFor s marketId))
  | .readActive market outcomes, s =>
    (s, onActive winner market outcomes (repos.activeForMarket env s marketId))
  | .settle market outcomes settled, s =>
    match repos.settle env market settled s with
    | (s, answer) => (s, answer.andThen fun result => .reply (onSettled market outcomes result))

def Phase.rank : Phase → Nat
  | .readMarket => 3
  | .readOutcomes .. => 2
  | .readActive .. => 1
  | .settle .. => 0

end ResolveMarket

end UseCases

section Drive
variable {φ σ : Type} (advance : Env → φ → σ → σ × Next φ) (env : Nat → Env)

/-- The stores and the reply after at most `fuel` awaits; `env k` is what the `k`-th meets. -/
def drive : (fuel k : Nat) → φ → σ → Option (σ × Reply)
  | 0, _, _, _ => none
  | fuel + 1, k, phase, s =>
    match advance (env k) phase s with
    | (s, .reply r) => some (s, r)
    | (s, .goto phase) => drive fuel (k + 1) phase s

def asked (write? : φ → Option Write) : (fuel k : Nat) → φ → σ → List (Write × σ)
  | 0, _, _, _ => []
  | fuel + 1, k, phase, s =>
    ((write? phase).map fun w => (w, s)).toList ++
      match advance (env k) phase s with
      | (_, .reply _) => []
      | (s, .goto phase) => asked write? fuel (k + 1) phase s

end Drive

/-- A reply without the average, in which the two backends can differ. -/
def Reply.unaveraged : Reply → Reply
  | .bet view => .bet { view with avgPrice := view.bet.price }
  | r => r

inductive Next.Matches {φ : Type} (rel : φ → φ → Prop) : Next φ → Next φ → Prop where
  | reply (r r' : Reply) (h : r.unaveraged = r'.unaveraged) : Matches rel (.reply r) (.reply r')
  | goto (p q : φ) (h : rel p q) : Matches rel (.goto p) (.goto q)

theorem Next.matches_self {φ : Type} {rel : φ → φ → Prop} (n : Next φ)
    (h : ∀ p, n = .goto p → rel p p) : Next.Matches rel n n := by
  cases n with
  | reply r => exact .reply r r rfl
  | goto p => exact .goto p p (h p rfl)

section Simulation
variable {φ σ τ : Type} {advance : Env → φ → σ → σ × Next φ} {advance' : Env → φ → τ → τ × Next φ}
  {write? : φ → Option Write} {R : σ → τ → Prop} {P : φ → φ → σ → Prop}
  {ok : Write → σ → Prop} {rank : φ → Nat}

/-- Two use cases that match await by await both come to an end, with matching replies. -/
theorem drive_matches
    (hstep : ∀ env p q s t, R s t → P p q s → (∀ w ∈ write? p, ok w s) →
      R (advance env p s).1 (advance' env q t).1 ∧
        Next.Matches (fun p' q' => P p' q' (advance env p s).1) (advance env p s).2
          (advance' env q t).2)
    (hrank : ∀ env p s p', (advance env p s).2 = .goto p' → rank p' < rank p)
    (env : Nat → Env) {fuel k : Nat} {p q : φ} {s : σ} {t : τ} (hr : R s t) (hp : P p q s)
    (hok : ∀ x ∈ asked advance env write? fuel k p s, ok x.1 x.2) (hfuel : rank p < fuel) :
    ∃ s' t' r r', drive advance env fuel k p s = some (s', r) ∧
      drive advance' env fuel k q t = some (t', r') ∧ r.unaveraged = r'.unaveraged ∧ R s' t' := by
  induction fuel generalizing k p q s t with
  | zero => omega
  | succ fuel ih =>
    have hwrite : ∀ w ∈ write? p, ok w s := by
      intro w hw
      refine hok (w, s) ?_
      rw [asked, List.mem_append]
      exact .inl (by simp [Option.mem_def.mp hw])
    obtain ⟨hr', hnext⟩ := hstep (env k) p q s t hr hp hwrite
    cases ha : advance (env k) p s with
    | mk s' next =>
      cases ha' : advance' (env k) q t with
      | mk t' next' =>
        rw [ha, ha'] at hr' hnext
        cases hnext with
        | reply r r' hreply =>
          exact ⟨s', t', r, r', by simp [drive, ha], by simp [drive, ha'], hreply, hr'⟩
        | goto p' q' hp' =>
          have hlt := hrank (env k) p s p' (by rw [ha])
          have hrest : ∀ x ∈ asked advance env write? fuel (k + 1) p' s', ok x.1 x.2 := by
            intro x hx
            refine hok x ?_
            rw [asked, ha]
            exact List.mem_append_right _ hx
          obtain ⟨s'', t'', r, r', hd, hd', hreply, hr''⟩ := ih hr' hp' hrest (by omega)
          exact ⟨s'', t'', r, r', by simpa [drive, ha] using hd, by simpa [drive, ha'] using hd',
            hreply, hr''⟩

end Simulation

inductive BetRequest where
  | placeBet (actor : Actor) (input : NewBet)
  | resolveMarket (actor : Actor) (marketId : MarketId) (winner : OutcomeId)
  deriving DecidableEq

structure Execution where
  request : BetRequest
  env : Nat → Env

section Executions
variable {σ : Type} (repos : Repositories σ) (build : Build)

def Execution.run (x : Execution) (s : σ) : Option (σ × Reply) :=
  match x.request with
  | .placeBet actor input =>
    drive (PlaceBet.advance repos build actor input) x.env 6 0 .readOutcome s
  | .resolveMarket actor marketId winner =>
    if canManageMarkets actor.role then
      drive (ResolveMarket.advance repos marketId winner) x.env 4 0 .readMarket s
    else some (s, .error adminRequired)

def Execution.asks (x : Execution) (s : σ) : List (Write × σ) :=
  match x.request with
  | .placeBet actor input =>
    asked (PlaceBet.advance repos build actor input) x.env PlaceBet.write? 6 0 .readOutcome s
  | .resolveMarket actor marketId winner =>
    if canManageMarkets actor.role then
      asked (ResolveMarket.advance repos marketId winner) x.env ResolveMarket.write? 4 0
        .readMarket s
    else []

def runAll : List Execution → σ → Option (List (σ × Reply))
  | [], _ => some []
  | x :: xs, s =>
    match x.run repos build s with
    | none => none
    | some (s, r) => (runAll xs s).map fun rest => (s, r) :: rest

def asksAll : List Execution → σ → List (Write × σ)
  | [], _ => []
  | x :: xs, s =>
    x.asks repos build s ++
      match x.run repos build s with
      | none => []
      | some (s, _) => asksAll xs s

end Executions

def corruptAverage (userId : UserId) (outcomeId : OutcomeId) (e : DomainError) : String :=
  "corrupt average price for user " ++ toString userId ++ " on outcome " ++ toString outcomeId ++
    ": " ++ e.message

/-- `PgMarketRepository`, `PgUserRepository` and `PgBetRepository`; a SELECT without ORDER BY
answers in any order. -/
def pgRepositories : Repositories Db where
  outcomeById := Db.outcomeById
  marketById := Db.marketById
  outcomesFor := Db.outcomesFor
  userById := Db.userById
  activePosition := fun db userId outcomeId =>
    match db.averagePrice userId outcomeId with
    | none => .ok none
    | some average =>
      match Price.fromTenThousandths average with
      | .error e => .error (.storage (corruptAverage userId outcomeId e))
      | .ok price => .ok (some price)
  activeForMarket := fun env db marketId =>
    let active := db.activeForMarket marketId
    if (env.scan active).Perm active then env.scan active else active
  place := fun env bet priced points db =>
    match pg.atomically (placeProgram bet priced points) env.txVars db with
    | .error e => (db, .failed e)
    | .ok db => (db, .done)
  settle := fun env market settled db =>
    match pg.atomically (settleProgram market settled) env.txVars db with
    | .error e => (db, .failed e)
    | .ok db => (db, .done)

end Betsphere
