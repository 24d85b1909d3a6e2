import Betsphere.Application.Betting
import Betsphere.Application.Profile
import Betsphere.Lib.Transition
set_option autoImplicit false

/-!
The whole system: the committed tables, the user cache, and any number of calls, each
at one of its awaits. An action moves one call by one repository call; a transaction
of a repository is one action here.
-/

namespace Betsphere
open MachineInt

inductive Request where
  | createMarket (actor : Actor) (input : NewMarket)
  | placeBet (actor : Actor) (input : NewBet)
  | resolveMarket (actor : Actor) (marketId : MarketId) (winner : OutcomeId)
  | profile (job : ProfileJob)
  deriving DecidableEq

inductive Call where
  | createMarket (actor : Actor) (input : NewMarket) (prepared : Market × List Outcome)
  | placeBet (actor : Actor) (input : NewBet) (phase : PlaceBet.Phase)
  | resolveMarket (actor : Actor) (marketId : MarketId) (winner : OutcomeId)
      (phase : ResolveMarket.Phase)
  | profile (job : ProfileJob) (phase : ProfileJob.Phase)
  deriving DecidableEq

inductive Slot where
  | running (call : Call)
  | returned (request : Request) (reply : Reply)
  deriving DecidableEq

def Slot.finished : Slot → Bool
  | .running _ => false
  | .returned .. => true

namespace Next

def slot {φ : Type} (request : Request) (call : φ → Call) : Next φ → Slot
  | .goto phase => .running (call phase)
  | .reply r => .returned request r

end Next

def Request.begin (build : Build) (env : Env) : Request → Slot
  | .createMarket actor input =>
    (CreateMarket.prepare build env actor input).slot (.createMarket actor input)
      (.createMarket actor input)
  | .placeBet actor input => .running (.placeBet actor input .readOutcome)
  | .resolveMarket actor marketId winner =>
    if canManageMarkets actor.role then .running (.resolveMarket actor marketId winner .readMarket)
    else .returned (.resolveMarket actor marketId winner) (.error adminRequired)
  | .profile job =>
    match job.validate with
    | .error e => .returned (.profile job) (.error (.domain e))
    | .ok () => .running (.profile job (.findUser .get))

namespace Call

def request : Call → Request
  | .createMarket actor input _ => .createMarket actor input
  | .placeBet actor input _ => .placeBet actor input
  | .resolveMarket actor marketId winner _ => .resolveMarket actor marketId winner
  | .profile job _ => .profile job

def read (build : Build) (env : Env) (db : Db) (cache : Cache) : Call → Option (Cache × Slot)
  | .createMarket .. => none
  | .placeBet actor input phase =>
    (PlaceBet.read build env db cache actor input phase).map fun r =>
      (r.1, r.2.slot (.placeBet actor input) (.placeBet actor input))
  | .resolveMarket actor marketId winner phase =>
    (ResolveMarket.read env db cache marketId winner phase).map fun r =>
      (r.1, r.2.slot (.resolveMarket actor marketId winner) (.resolveMarket actor marketId winner))
  | .profile job phase =>
    (ProfileJob.read build env db cache job phase).map fun r =>
      (r.1, r.2.slot (.profile job) (.profile job))

def write? (env : Env) : Call → Option Write
  | .createMarket _ _ prepared => CreateMarket.write? env prepared
  | .placeBet _ _ phase => PlaceBet.write? phase
  | .resolveMarket _ _ _ phase => ResolveMarket.write? phase
  | .profile _ phase => ProfileJob.write? phase

def written (result : Except RepositoryError Unit) : Call → Slot
  | .createMarket actor input prepared =>
    (CreateMarket.written prepared result).slot (.createMarket actor input)
      (.createMarket actor input)
  | .placeBet actor input phase =>
    (PlaceBet.written phase result).slot (.placeBet actor input) (.placeBet actor input)
  | .resolveMarket actor marketId winner phase =>
    (ResolveMarket.written phase result).slot (.resolveMarket actor marketId winner)
      (.resolveMarket actor marketId winner)
  | .profile job phase => (ProfileJob.written phase result).slot (.profile job) (.profile job)

def remote : Call → Bool
  | .createMarket .. => true
  | .placeBet _ _ phase => PlaceBet.remote phase
  | .resolveMarket .. => true
  | .profile _ phase => ProfileJob.remote phase

end Call

/-- `log` is what was committed, newest first, each with the tables it left behind;
no action looks at it. -/
structure Sys where
  db : Db
  cache : Cache
  calls : List Slot
  log : List (Write × Db)

def Sys.init : Sys := ⟨.empty, .empty, [], []⟩

inductive Act where
  | start (request : Request) (env : Env)
  | step (i : Nat) (env : Env)
  | fail (i : Nat) (message : String)
  | register (id : UserId) (username : Username) (email : Email) (passwordHash : PasswordHash)
      (now : DateTime)
  | evict (userId : UserId)
  | expire (key : CacheKey)

namespace Sys

def setCall (s : Sys) (i : Nat) (slot : Slot) : Sys := { s with calls := s.calls.set i slot }

def commit (s : Sys) (w : Write) (db : Db) : Sys := { s with db, log := (w, db) :: s.log }

def stepCall (build : Build) (s : Sys) (i : Nat) (env : Env) (call : Call) : Option Sys :=
  match call.write? env with
  | some w =>
    match pg.atomically w.program env.txVars s.db with
    | .error e => some (s.setCall i (call.written (.error e)))
    | .ok db => some ((s.commit w db).setCall i (call.written (.ok ())))
  | none =>
    match call.read build env s.db s.cache with
    | none => none
    | some (cache, slot) => some ({ s with cache }.setCall i slot)

/-- Registration draws an identifier no row has; its two reads only anticipate the
unique constraints. A cached entry is evicted once the event is in the outbox. -/
def step (build : Build) (s : Sys) : Act → Option Sys
  | .start request env => some { s with calls := s.calls ++ [request.begin build env] }
  | .step i env =>
    match s.calls[i]? with
    | some (.running call) => s.stepCall build i env call
    | _ => none
  | .fail i message =>
    match s.calls[i]? with
    | some (.running call) =>
      if call.remote then
        some (s.setCall i (.returned call.request (.error (.internal message))))
      else none
    | _ => none
  | .register id username email passwordHash now =>
    if (s.db.userById id).isSome then none
    else
      let w := Write.save .registration (User.new id username email passwordHash now)
      match pg.atomically w.program ⟨now, false⟩ s.db with
      | .error _ => none
      | .ok db => some (s.commit w db)
  | .evict userId =>
    if .userBalanceChanged userId ∈ s.db.outbox then
      some { s with cache := s.cache.delete (.id userId) }
    else none
  | .expire key => some { s with cache := s.cache.delete key }

def writing? (s : Sys) : Act → Option Write
  | .step i env =>
    match s.calls[i]? with
    | some (.running call) => call.write? env
    | _ => none
  | _ => none

def Commits (s : Sys) (a : Act) (w : Write) : Prop :=
  s.writing? a = some w ∨ ∃ id username email hash now, a = .register id username email hash now ∧
    s.db.userById id = none ∧ w = .save .registration (User.new id username email hash now)

end Sys

inductive Sys.Effect (build : Build) (s : Sys) : Act → Sys → Prop where
  | started (request : Request) (env : Env) :
      Effect build s (.start request env)
        { s with calls := s.calls ++ [request.begin build env] }
  | read (i : Nat) (env : Env) (call : Call) (cache : Cache) (slot : Slot)
      (hcall : s.calls[i]? = some (.running call)) (hread : call.write? env = none)
      (hr : call.read build env s.db s.cache = some (cache, slot)) :
      Effect build s (.step i env) ({ s with cache }.setCall i slot)
  | committed (i : Nat) (env : Env) (call : Call) (w : Write) (db : Db)
      (hcall : s.calls[i]? = some (.running call)) (hwrite : call.write? env = some w)
      (hc : pg.atomically w.program env.txVars s.db = .ok db) :
      Effect build s (.step i env) ((s.commit w db).setCall i (call.written (.ok ())))
  | refused (i : Nat) (env : Env) (call : Call) (w : Write) (e : RepositoryError)
      (hcall : s.calls[i]? = some (.running call)) (hwrite : call.write? env = some w)
      (hc : pg.atomically w.program env.txVars s.db = .error e) :
      Effect build s (.step i env) (s.setCall i (call.written (.error e)))
  | failed (i : Nat) (message : String) (call : Call)
      (hcall : s.calls[i]? = some (.running call)) :
      Effect build s (.fail i message)
        (s.setCall i (.returned call.request (.error (.internal message))))
  | registered (id : UserId) (username : Username) (email : Email) (hash : PasswordHash)
      (now : DateTime) (db : Db) (hfresh : s.db.userById id = none)
      (hc : pg.atomically (saveProgram (User.new id username email hash now)) ⟨now, false⟩ s.db =
        .ok db) :
      Effect build s (.register id username email hash now)
        (s.commit (.save .registration (User.new id username email hash now)) db)
  | evicted (userId : UserId) (hev : .userBalanceChanged userId ∈ s.db.outbox) :
      Effect build s (.evict userId) { s with cache := s.cache.delete (.id userId) }
  | expired (key : CacheKey) :
      Effect build s (.expire key) { s with cache := s.cache.delete key }

theorem Sys.step_effect {build : Build} {s s' : Sys} {a : Act} (h : s.step build a = some s') :
    Sys.Effect build s a s' := by
  cases a with
  | start request env =>
    cases h
    exact .started request env
  | step i env =>
    simp only [Sys.step] at h
    split at h
    · rename_i call hcall
      unfold Sys.stepCall at h
      cases hw : call.write? env with
      | none =>
        cases hr : call.read build env s.db s.cache with
        | none => simp [hw, hr] at h
        | some r =>
          simp only [hw, hr, Option.some.injEq] at h
          subst h
          exact .read i env call r.1 r.2 hcall hw hr
      | some w =>
        cases hc : pg.atomically w.program env.txVars s.db with
        | error e =>
          simp only [hw, hc, Option.some.injEq] at h
          subst h
          exact .refused i env call w e hcall hw hc
        | ok db =>
          simp only [hw, hc, Option.some.injEq] at h
          subst h
          exact .committed i env call w db hcall hw hc
    · simp at h
  | fail i message =>
    simp only [Sys.step] at h
    split at h
    · rename_i call hcall
      split at h
      · cases h
        exact .failed i message call hcall
      · simp at h
    · simp at h
  | register id username email hash now =>
    simp only [Sys.step] at h
    split at h
    · simp at h
    · rename_i hfresh
      split at h
      · simp at h
      · rename_i db hc
        cases h
        exact .registered id username email hash now db (by simpa using hfresh) hc
  | evict userId =>
    simp only [Sys.step] at h
    split at h
    · rename_i hev
      cases h
      exact .evicted userId hev
    · simp at h
  | expire key =>
    cases h
    exact .expired key

theorem getElem?_set_cases {calls : List Slot} {i j : Nat} {slot x : Slot}
    (h : (calls.set i slot)[j]? = some x) : calls[j]? = some x ∧ j ≠ i ∨ j = i ∧ x = slot := by
  by_cases hij : i = j
  · subst hij
    rw [List.getElem?_set] at h
    split at h
    · split at h
      · exact .inr ⟨rfl, by simpa using h.symm⟩
      · simp at h
    · rename_i hne
      exact absurd rfl hne
  · rw [List.getElem?_set_ne hij] at h
    exact .inl ⟨h, fun heq => hij heq.symm⟩

theorem getElem?_append_cases {calls : List Slot} {j : Nat} {slot x : Slot}
    (h : (calls ++ [slot])[j]? = some x) : calls[j]? = some x ∨ x = slot := by
  rw [List.getElem?_append] at h
  split at h
  · exact .inl h
  · rw [List.getElem?_singleton] at h
    split at h
    · exact .inr (by simpa using h.symm)
    · simp at h

/-- What one action does to the call at `i`. -/
theorem Sys.Effect.slot {build : Build} {s s' : Sys} {a : Act} (h : Sys.Effect build s a s')
    {i : Nat} {slot : Slot} (hi : s.calls[i]? = some slot) :
    s'.calls[i]? = some slot ∨
    (∃ env call cache slot', slot = .running call ∧ a = .step i env ∧ call.write? env = none ∧
      call.read build env s.db s.cache = some (cache, slot') ∧ s'.calls[i]? = some slot') ∨
    (∃ env call w result, slot = .running call ∧ a = .step i env ∧ call.write? env = some w ∧
      s'.calls[i]? = some (call.written result)) ∨
    ∃ request reply, s'.calls[i]? = some (.returned request reply) := by
  have hlt : i < s.calls.length := (List.getElem?_eq_some_iff.mp hi).1
  have hset : ∀ j (x : Slot), j ≠ i → (s.calls.set j x)[i]? = some slot := fun j x hne => by
    rw [List.getElem?_set_ne hne]
    exact hi
  have hself : ∀ x : Slot, (s.calls.set i x)[i]? = some x := fun x =>
    List.getElem?_set_self hlt
  cases h with
  | started request env => exact .inl (by rw [List.getElem?_append_left hlt]; exact hi)
  | read j env call cache slot' hcall hread hr =>
    by_cases hj : j = i
    · subst hj
      rw [hi] at hcall
      exact .inr (.inl ⟨env, call, cache, slot', Option.some.inj hcall, rfl, hread, hr,
        hself slot'⟩)
    · exact .inl (hset j slot' hj)
  | committed j env call w db hcall hwrite hc =>
    by_cases hj : j = i
    · subst hj
      rw [hi] at hcall
      exact .inr (.inr (.inl ⟨env, call, w, .ok (), Option.some.inj hcall, rfl, hwrite, hself _⟩))
    · exact .inl (hset j _ hj)
  | refused j env call w e hcall hwrite hc =>
    by_cases hj : j = i
    · subst hj
      rw [hi] at hcall
      exact .inr (.inr (.inl ⟨env, call, w, .error e, Option.some.inj hcall, rfl, hwrite, hself _⟩))
    · exact .inl (hset j _ hj)
  | failed j message call hcall =>
    by_cases hj : j = i
    · subst hj
      exact .inr (.inr (.inr ⟨_, _, hself _⟩))
    · exact .inl (hset j _ hj)
  | registered id username email hash now db hfresh hc => exact .inl hi
  | evicted userId hev => exact .inl hi
  | expired key => exact .inl hi

theorem Sys.Effect.untouched {build : Build} {s s' : Sys} {a : Act} (he : Sys.Effect build s a s')
    {i : Nat} (hi : i < s.calls.length) (hstep : ∀ env, a ≠ .step i env)
    (hfail : ∀ message, a ≠ .fail i message) : s'.calls[i]? = s.calls[i]? := by
  have hset : ∀ j (x : Slot), j ≠ i → (s.calls.set j x)[i]? = s.calls[i]? :=
    fun j x hne => List.getElem?_set_ne hne
  cases he with
  | started request env => exact List.getElem?_append_left hi
  | read j env call cache slot hcall hread hr =>
    exact hset j slot fun heq => hstep env (heq ▸ rfl)
  | committed j env call w db hcall hwrite hc => exact hset j _ fun heq => hstep env (heq ▸ rfl)
  | refused j env call w e hcall hwrite hc => exact hset j _ fun heq => hstep env (heq ▸ rfl)
  | failed j message call hcall => exact hset j _ fun heq => hfail message (heq ▸ rfl)
  | registered id username email hash now db hfresh hc => rfl
  | evicted userId hev => rfl
  | expired key => rfl

namespace Sample

def env (now : DateTime) (base : Nat) : Env where
  now := now
  fresh := fun k => BitVec.ofNat 128 (base + k)
  url := ['/', 'a']
  redisUp := true
  scan := id

def alice : Username := ⟨['a', 'l', 'i', 'c', 'e'], by decide, by decide⟩
def bob : Username := ⟨['b', 'o', 'b'], by decide, by decide⟩

def signUp (id : UserId) (name : Username) : Act := .register id name ⟨name.value⟩ ⟨[]⟩ 0

def admin : Actor := ⟨⟨9⟩, .admin⟩

def rain : NewMarket := ⟨['r', 'a', 'i', 'n'], none, none, none, [['y', 'e', 's'], ['n', 'o']]⟩

def rainMarket : Market :=
  Market.new ⟨100⟩ ⟨['r', 'a', 'i', 'n'], by decide, by decide, by decide⟩ none none none 1

/-- Users 1 and 2, and market 100 with the outcomes 101 and 102. -/
def opening : List Act :=
  [signUp ⟨1⟩ alice, signUp ⟨2⟩ bob, .start (.createMarket admin rain) (env 1 100),
    .step 0 (env 1 100)]

def bet (userId : UserId) (outcomeId : OutcomeId) (amount : Int) : Act :=
  .start (.placeBet ⟨userId, .user⟩ ⟨outcomeId, amount⟩) (env 2 0)

def resolve (winner : OutcomeId) : Act :=
  .start (.resolveMarket admin ⟨100⟩ winner) (env 3 0)

def steps (i n base : Nat) : List Act := List.replicate n (.step i (env 2 base))

/-- Two placements that both read the empty board before either commits. -/
def crossed : List Act :=
  opening ++ [bet ⟨1⟩ ⟨101⟩ 50, bet ⟨2⟩ ⟨102⟩ 30] ++ steps 1 6 200 ++ steps 2 6 300 ++
    steps 1 2 200 ++ steps 2 2 300

def overlap : List Act := crossed ++ [resolve ⟨101⟩] ++ steps 3 4 0

def state (as : List Act) : Sys := (Transition.run (Sys.step .debug) Sys.init as).getD Sys.init

theorem run_state {as : List Act} (h : (Transition.run (Sys.step .debug) Sys.init as).isSome) :
    Transition.run (Sys.step .debug) Sys.init as = some (state as) := by
  obtain ⟨s, hs⟩ := Option.isSome_iff_exists.mp h
  simp [state, hs]

theorem run_from {as bs : List Act}
    (h : (Transition.run (Sys.step .debug) Sys.init (as ++ bs)).isSome) :
    Transition.run (Sys.step .debug) (state as) bs = some (state (as ++ bs)) := by
  have hall := run_state h
  rw [Transition.run_append] at hall
  cases hs : Transition.run (Sys.step .debug) Sys.init as with
  | none => simp [hs] at hall
  | some s => simpa [hs, state] using hall

theorem step_from {as : List Act} {a : Act}
    (h : (Transition.run (Sys.step .debug) Sys.init (as ++ [a])).isSome) :
    Sys.step .debug (state as) a = some (state (as ++ [a])) := by
  have hrun := run_from h
  simpa [Transition.run, Option.bind_eq_some_iff] using hrun

end Sample

end Betsphere
