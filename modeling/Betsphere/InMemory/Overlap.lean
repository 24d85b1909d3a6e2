import Betsphere.InMemory.Aggregates
import Betsphere.InMemory.Stores
import Betsphere.Lib.Transition
import Betsphere.Storage.Uploads
set_option autoImplicit false

/-!
`PlaceBet`, `ResolveMarket` and the uploads over the in-memory stores, cut at their awaits,
those inside `place` and `settle` included. Each step takes one lock, or has it already: the
loop over the settled bets keeps the lock on the bets while it pays.
-/

namespace Betsphere
open MachineInt

namespace Mem

/-- `users.save`, `update_thumbnail` and `update_outcome_thumbnail`: of a market or an outcome
only the thumbnail moves. -/
def saveCopy (m : Mem) : UploadCopy → Mem
  | .ofUser user => m.saveUser user
  | .ofMarket market =>
    { m with
      markets := FirstMatch.update Market.id market.id
        (fun slot => { slot with thumbnailUrl := market.thumbnailUrl }) m.markets }
  | .ofOutcome _ _ outcome =>
    { m with
      outcomes := FirstMatch.update Outcome.id outcome.id
        (fun slot => { slot with thumbnailUrl := outcome.thumbnailUrl }) m.outcomes }

/-- The loop over the settled bets up to the next winner to find. -/
def settleUntilPaid : List Bet → Mem → Mem × Option (UserId × Int × List Bet)
  | [], m => (m, none)
  | bet :: rest, m =>
    let m := m.replaceBet bet
    match bet.payout with
    | none => settleUntilPaid rest m
    | some payout => (m, some (bet.userId, payout, rest))

end Mem

structure Placement where
  market : Market
  user : User
  bet : Bet
  priced : List Outcome
  chosen : Nat
  points : List PricePoint
  deriving DecidableEq

inductive PlaceStage where
  | saveBettor (user : User)
  | pushBet
  | recordStake (newParticipant : Bool)
  | applyPriced
  | dispatch (event : Event) (rest : List Event)
  deriving DecidableEq

inductive SettleStage where
  | lockBets
  | findWinner (userId : UserId) (payout : Int) (rest : List Bet)
  | saveWinner (user : User) (rest : List Bet)
  | dispatch (event : Event) (rest : List Event)
  deriving DecidableEq

inductive MemCall where
  | placing (actor : Actor) (input : NewBet) (phase : PlaceBet.Phase)
  | writing (actor : Actor) (input : NewBet) (placement : Placement) (stage : PlaceStage)
  | resolving (marketId : MarketId) (winner : OutcomeId) (phase : ResolveMarket.Phase)
  | settling (market : Market) (outcomes : List Outcome) (settled : List Bet)
      (stage : SettleStage)
  | uploading (request : UploadRequest) (ext : String) (phase : UploadPhase)
  | returned (reply : Reply)
  deriving DecidableEq

inductive MemRequest where
  | bet (request : BetRequest)
  | upload (request : UploadRequest)
  deriving DecidableEq

def UploadReply.reply : UploadReply → Reply
  | user u => .user u
  | marketView market outcomes => .market market outcomes

namespace MemCall

def placed (actor : Actor) (input : NewBet) : Next PlaceBet.Phase → MemCall
  | .goto phase => .placing actor input phase
  | .reply r => .returned r

def resolved (marketId : MarketId) (winner : OutcomeId) : Next ResolveMarket.Phase → MemCall
  | .goto phase => .resolving marketId winner phase
  | .reply r => .returned r

def uploaded (request : UploadRequest) (ext : String) : UploadNext → MemCall
  | .goto phase => .uploading request ext phase
  | .reply (.error e) => .returned (.error e)
  | .reply (.ok answer) => .returned answer.reply

def start : MemRequest → MemCall
  | .bet (.placeBet actor input) => .placing actor input .readOutcome
  | .bet (.resolveMarket actor marketId winner) =>
    if canManageMarkets actor.role then .resolving marketId winner .readMarket
    else .returned (.error adminRequired)
  | .upload request =>
    match request.validate with
    | .error e => .returned (.error e)
    | .ok ext => .uploading request ext .load

end MemCall

namespace Placement

/-- The end of `place`, reached when all its events are dispatched. -/
def dispatching (p : Placement) (actor : Actor) (input : NewBet) : List Event → MemCall
  | [] => .placed actor input
      (PlaceBet.onPlaced p.market p.user p.bet p.priced p.chosen (.ok ()))
  | event :: rest => .writing actor input p (.dispatch event rest)

def advance (p : Placement) (build : Build) (actor : Actor) (input : NewBet) (m : Mem) :
    PlaceStage → Mem × MemCall
  | .saveBettor user => (m.saveUser user, .writing actor input p .pushBet)
  | .pushBet =>
    let newParticipant := !m.hasBet p.bet.userId p.bet.marketId
    (m.pushBet p.bet, .writing actor input p (.recordStake newParticipant))
  | .recordStake newParticipant =>
    match m.recordStake build p.bet.marketId p.bet.amount newParticipant with
    | (m, .error panic) => (m, .returned (.panicked panic))
    | (m, .ok ()) => (m, .writing actor input p .applyPriced)
  -- The lock on the outcomes is kept until the points are in; nobody else takes theirs.
  | .applyPriced =>
    (m.applyPriced p.priced p.points, p.dispatching actor input (placeEvents p.bet))
  | .dispatch event rest => (m.dispatch [event], p.dispatching actor input rest)

end Placement

namespace PlaceBet

/-- The reads of a placement, and in `place` the code up to the save of the bettor. -/
def advanceIn (build : Build) (env : Env) (actor : Actor) (input : NewBet) (m : Mem) :
    Phase → Mem × MemCall
  | .place market user bet priced chosen points =>
    match m.debited env.now bet with
    | .error e => (m, .placed actor input (onPlaced market user bet priced chosen (.error e)))
    | .ok debited =>
      (m, .writing actor input ⟨market, user, bet, priced, chosen, points⟩ (.saveBettor debited))
  | phase =>
    match PlaceBet.advance (inMemoryRepositories build) build actor input env phase m with
    | (m, next) => (m, .placed actor input next)

end PlaceBet

namespace SettleStage

def dispatching (market : Market) (outcomes : List Outcome) (settled : List Bet) :
    List Event → MemCall
  | [] => .returned (ResolveMarket.onSettled market outcomes (.ok ()))
  | event :: rest => .settling market outcomes settled (.dispatch event rest)

def looping (market : Market) (outcomes : List Outcome) (settled rest : List Bet) (m : Mem) :
    Mem × MemCall :=
  match m.settleUntilPaid rest with
  | (m, some (userId, payout, rest)) =>
    (m, .settling market outcomes settled (.findWinner userId payout rest))
  | (m, none) =>
    (m, dispatching market outcomes settled ((paidUsers settled).map .userBalanceChanged))

def advance (env : Env) (market : Market) (outcomes : List Outcome) (settled : List Bet)
    (m : Mem) : SettleStage → Mem × MemCall
  | .lockBets => looping market outcomes settled settled m
  | .findWinner userId payout rest =>
    match m.credited env.now userId payout with
    | .error e => (m, .returned (ResolveMarket.onSettled market outcomes (.error e)))
    | .ok user => (m, .settling market outcomes settled (.saveWinner user rest))
  | .saveWinner user rest => looping market outcomes settled rest (m.saveUser user)
  | .dispatch event rest => (m.dispatch [event], dispatching market outcomes settled rest)

end SettleStage

namespace ResolveMarket

/-- The reads of a resolution, and `markets.resolve`. -/
def advanceIn (build : Build) (env : Env) (marketId : MarketId) (winner : OutcomeId) (m : Mem) :
    Phase → Mem × MemCall
  | .settle market outcomes settled =>
    (m.resolveMarket market, .settling market outcomes settled .lockBets)
  | phase =>
    match ResolveMarket.advance (inMemoryRepositories build) marketId winner env phase m with
    | (m, next) => (m, .resolved marketId winner next)

end ResolveMarket

namespace UploadRequest

def onLoadedIn (m : Mem) (ext : String) : UploadRequest → UploadNext
  | avatar userId .. =>
    match m.userById userId with
    | none => .reply (.error (.notFound ("user " ++ toString userId)))
    | some user => .goto (.removing (.ofUser user) (Image.others ext))
  | marketThumbnail _ marketId .. =>
    match m.marketById marketId with
    | none => .reply (.error (.notFound ("market " ++ toString marketId)))
    | some market => .goto (.removing (.ofMarket market) (Image.others ext))
  | outcomeThumbnail _ marketId .. =>
    match m.marketById marketId with
    | none => .reply (.error (.notFound ("market " ++ toString marketId)))
    | some market => .goto (.siblings market)

/-- The file storage answers with any URL; it shares nothing with the stores. -/
def advanceIn (env : Env) (request : UploadRequest) (ext : String) (m : Mem) :
    UploadPhase → Mem × UploadNext
  | .load => (m, request.onLoadedIn m ext)
  | .siblings market => (m, request.onSiblings market (m.outcomesFor market.id) ext)
  | .delete copy _ rest => (m, .goto (.removing copy rest))
  | .put copy => (m, .goto (.save (copy.setUrl env.url env.now)))
  | .save copy => (m.saveCopy copy, copy.onSaved)
  | .siblingsAfter market => (m, .reply (.ok (.marketView market (m.outcomesFor market.id))))

end UploadRequest

namespace MemCall

def advance (build : Build) (env : Env) (m : Mem) : MemCall → Option (Mem × MemCall)
  | placing actor input phase => some (PlaceBet.advanceIn build env actor input m phase)
  | writing actor input placement stage => some (placement.advance build actor input m stage)
  | resolving marketId winner phase =>
    some (ResolveMarket.advanceIn build env marketId winner m phase)
  | settling market outcomes settled stage =>
    some (SettleStage.advance env market outcomes settled m stage)
  | uploading request ext phase =>
    match request.advanceIn env ext m phase with
    | (m, next) => some (m, .uploaded request ext next)
  | returned _ => none

/-- Between two steps only the loop over the settled bets keeps a lock. -/
def holdsBets : MemCall → Bool
  | settling _ _ _ (.findWinner ..) => true
  | settling _ _ _ (.saveWinner ..) => true
  | _ => false

def awaitsBets : MemCall → Bool
  | placing _ _ (.readPosition ..) => true
  | writing _ _ _ .pushBet => true
  | resolving _ _ (.readActive ..) => true
  | settling _ _ _ .lockBets => true
  | _ => false

def posting : MemCall → Option (ImageOwner × Option Text)
  | uploading _ _ (.save copy) => some (copy.owner, copy.url?)
  | _ => none

def failure (message : String) : MemCall → Option ApplicationError
  | uploading _ _ (.delete ..) => some (.ofStoragePort (.internal message))
  | uploading _ _ (.put _) => some (.ofStoragePort (.internal message))
  | _ => none

def finished : MemCall → Bool
  | returned _ => true
  | _ => false

end MemCall

/-- The stores and the calls on them; `posted` logs what was written to each thumbnail,
the last first. -/
structure Overlap where
  mem : Mem
  calls : List MemCall
  posted : Postings

/-- A `fail` is an await of the file storage that ends in an error. -/
inductive OverlapAct where
  | start (request : MemRequest)
  | advance (i : Nat) (env : Env)
  | fail (i : Nat) (message : String)

namespace Overlap

/-- Before any call; the thumbnails already there count as written. -/
def init (m : Mem) : Overlap :=
  ⟨m, [], m.markets.map (fun r => (.market r.id, r.thumbnailUrl)) ++
    m.outcomes.map fun o => (.outcome o.id, o.thumbnailUrl)⟩

def step (build : Build) (s : Overlap) : OverlapAct → Option Overlap
  | .start request => some { s with calls := s.calls ++ [.start request] }
  | .advance i env =>
    match s.calls[i]? with
    | none => none
    | some call =>
      if call.awaitsBets && s.calls.any MemCall.holdsBets then none
      else (call.advance build env s.mem).map fun (mem, call') =>
        ⟨mem, s.calls.set i call', call.posting.toList ++ s.posted⟩
  | .fail i message =>
    match s.calls[i]? with
    | none => none
    | some call =>
      (call.failure message).map fun e => { s with calls := s.calls.set i (.returned (.error e)) }

def Finished (s : Overlap) : Prop := ∀ call ∈ s.calls, call.finished = true

instance (s : Overlap) : Decidable s.Finished := inferInstanceAs (Decidable (∀ _ ∈ _, _))

end Overlap

end Betsphere
