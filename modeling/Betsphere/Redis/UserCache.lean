import Betsphere.Application.Ports
import Betsphere.Events.Feed
import Betsphere.Events.Topics
import Betsphere.Postgres.Growth
import Betsphere.System.Step
set_option autoImplicit false

/-!
The user cache between its readers, its writers and `UserCacheInvalidator`. Redis answers
every command and no entry expires; what may go wrong is that a copy read before a bet
committed is cached after the eviction.
-/

namespace Betsphere

inductive UserQuery where
  | byId (id : UserId)
  | byEmail (email : Email)
  | byUsername (username : Username)

namespace UserQuery

def key : UserQuery → CacheKey
  | .byId id => .id id
  | .byEmail email => .email email
  | .byUsername username => .username username

def load (db : Db) : UserQuery → Option User
  | .byId id => db.userById id
  | .byEmail email => db.users.rows.find? fun u => u.email = email
  | .byUsername username => db.users.rows.find? fun u => u.username = username

end UserQuery

/-- A call of `CachedUserRepository` between its awaits; `answer` is what it returns once
the copy is in the cache. -/
inductive UserCall where
  | get (query : UserQuery)
  | load (query : UserQuery)
  | put (user : User) (answer : Option User)
  | write (user : User)
  | returned (result : Except RepositoryError (Option User))

namespace UserCall

def find (query : UserQuery) : UserCall := .get query
def save (user : User) : UserCall := .write user

def advance (now : DateTime) (db : Db) (cache : Cache) : UserCall → Option (Db × Cache × UserCall)
  | .get query =>
    match cache.get true query.key with
    | some u => some (db, cache, .returned (.ok (some u)))
    | none => some (db, cache, .load query)
  | .load query =>
    match query.load db with
    | some u => some (db, cache, .put u (some u))
    | none => some (db, cache, .returned (.ok none))
  | .put user answer => some (db, cache.put true user, .returned (.ok answer))
  | .write user =>
    match pg.atomically (saveProgram user) ⟨now, false⟩ db with
    | .error e => some (db, cache, .returned (.error e))
    | .ok db => some (db, cache, .put user none)
  | .returned _ => none

def finished : UserCall → Bool
  | .returned _ => true
  | _ => false

def putting : UserCall → Option User
  | .put user _ => some user
  | _ => none

end UserCall

structure UserWorld where
  db : Db
  cache : Cache
  calls : List UserCall

def UserWorld.init (db : Db) : UserWorld := ⟨db, .empty, []⟩

inductive UserAct where
  | find (query : UserQuery)
  | save (user : User)
  | step (i : Nat) (now : DateTime)
  | fail (i : Nat) (message : String)
  | commit (w : Write) (now : DateTime) (ids : List Nat)
  | other (events : List (Nat × String × String))

/-- The transactions that move balances, with what their callers promise: the outcomes of
one market, and bets of one market, each once. -/
def Write.movesMoney : Write → Bool
  | .place _ priced _ => decide (priced.map Outcome.id).Nodup
  | .settle _ settled => decide (settled.map Bet.id).Nodup
  | _ => false

namespace UserWorld

def transact (w : UserWorld) (a : UserAct) : Option (UserWorld × List (Nat × String × Payload)) :=
  match a with
  | .find query => some ({ w with calls := w.calls ++ [.find query] }, [])
  | .save user => some ({ w with calls := w.calls ++ [.save user] }, [])
  | .step i now =>
    match w.calls[i]? with
    | none => none
    | some c => (c.advance now w.db w.cache).map fun r => (⟨r.1, r.2.1, w.calls.set i r.2.2⟩, [])
  | .fail i message =>
    match w.calls[i]? with
    | some (.load _) | some (.write _) =>
      some ({ w with calls := w.calls.set i (.returned (.error (.storage message))) }, [])
    | _ => none
  | .commit write now ids =>
    if write.movesMoney then
      match pg.atomically write.program ⟨now, false⟩ w.db with
      | .error _ => none
      | .ok db =>
        let recorded := db.outbox.drop w.db.outbox.length
        if ids.length = recorded.length then
          some ({ w with db }, (ids.zip recorded).map fun e => e.2.queue e.1)
        else none
    else none
  | .other events =>
    if events.all fun e => e.2.1 ∉ ownTopics then
      some (w, events.map fun e => (e.1, e.2.1, .json e.2.2))
    else none

def next (w : UserWorld) (a : UserAct) : Option UserWorld := (w.transact a).map Prod.fst

/-- What `find_by_id` answers when nothing happens meanwhile. -/
def findById (w : UserWorld) (id : UserId) : Option User :=
  (w.cache.get true (.id id)).or (w.db.userById id)

end UserWorld

inductive UserPhase where
  | evict (userId : UserId)
  | elsewhere

namespace UserCacheInvalidator

def begin : Payload → Except DeliveryError UserPhase :=
  typedHandler "user.balance_changed" UserBalanceChanged.fromValue .evict

/-- The id key goes; an unconfirmed delete may have taken effect. -/
def handle (x : Await) (w : UserWorld) : UserPhase → UserWorld × (UserPhase ⊕ Except String Unit)
  | .evict userId =>
    let w := if x.reaches then { w with cache := w.cache.delete (.id userId) } else w
    match x.failure with
    | none => (w, .inr (.ok ()))
    | some _ => (w, .inr (.error ("could not evict user " ++ toString userId ++ " from cache")))
  | .elsewhere => (w, .inr (x.outcome "handler failed"))

end UserCacheInvalidator

def userService : Service UserWorld UserAct Await Payload UserPhase where
  transact := fun a w => w.transact a
  registry := serverRegistry .elsewhere UserCacheInvalidator.begin (fun _ => .ok .elsewhere)
    (fun _ => .ok .elsewhere) (fun _ => .ok .elsewhere)
  step := UserCacheInvalidator.handle

namespace UserWorld

def balance (w : UserWorld) (id : UserId) : Option Int := (w.db.userById id).map User.balance

def mending (w : UserWorld) (id : UserId) : Bool :=
  w.calls.any fun c => c.putting.any fun u => u.id = id && some u.balance = w.balance id

/-- Nothing, or the stored balance, is cached under the identifier, or soon will be. -/
def fresh (w : UserWorld) (id : UserId) : Bool :=
  (w.cache (.id id)).all (fun u => some u.balance = w.balance id) || w.mending id

end UserWorld

/-- The freshness of the cached entry as a feed: an eviction makes it fresh. -/
def cacheFeed : Feed UserWorld Payload UserPhase UserId Bool where
  inv _ := True
  known _ _ := True
  truth _ _ := true
  shown w id := some (w.fresh id)
  about topic payload id :=
    if topic = "user.balance_changed" ∧ payload = .event (.userBalanceChanged id) then
      some (some true)
    else none
  view phase id :=
    match phase with
    | .evict userId => if userId = id then some (some true) else none
    | .elsewhere => none

theorem settled_iff {w : UserWorld} {id : UserId} : cacheFeed.Settled w id ↔ w.fresh id = true := by
  simp [Feed.Settled, cacheFeed]

theorem evict_fresh (w : UserWorld) (id : UserId) :
    ({ w with cache := w.cache.delete (.id id) } : UserWorld).fresh id = true := by
  simp [UserWorld.fresh, Cache.delete]

theorem evict_other {w : UserWorld} {id id' : UserId} (h : id ≠ id') :
    ({ w with cache := w.cache.delete (.id id) } : UserWorld).fresh id' = w.fresh id' := by
  have hkey : CacheKey.id id' ≠ .id id := by
    intro heq
    cases heq
    exact h rfl
  simp [UserWorld.fresh, UserWorld.mending, UserWorld.balance, Cache.delete, hkey]

theorem cacheFeed_step {x : Await} {w w' : UserWorld} {phase : UserPhase}
    {r : UserPhase ⊕ Except String Unit} (h : UserCacheInvalidator.handle x w phase = (w', r))
    (k : UserId) : cacheFeed.Step w w' k phase r := by
  cases phase with
  | evict userId =>
    simp only [UserCacheInvalidator.handle] at h
    by_cases hk : userId = k
    · subst hk
      have hview : cacheFeed.view (.evict userId) userId = some (some true) := by simp [cacheFeed]
      cases hreach : x.reaches with
      | true =>
        have hshown : cacheFeed.shown w' userId = some true := by
          rw [hreach, if_pos rfl] at h
          split at h <;> cases h <;> simp [cacheFeed, evict_fresh]
        split at h <;> cases h <;> exact .inr ⟨_, hview, .inr ⟨_, rfl, hshown⟩⟩
      | false =>
        cases hf : x.failure with
        | none => simp [Await.reaches, hf] at hreach
        | some e =>
          simp only [hreach, hf, Bool.false_eq_true, if_false] at h
          cases h
          exact .inr ⟨_, hview, .inl ⟨rfl, _, rfl⟩⟩
    · have hview : cacheFeed.view (.evict userId) k = none := by simp [cacheFeed, hk]
      have hshown : cacheFeed.shown w' k = cacheFeed.shown w k := by
        cases hreach : x.reaches with
        | true =>
          rw [hreach, if_pos rfl] at h
          split at h <;> cases h <;> simp [cacheFeed, evict_other hk]
        | false =>
          rw [hreach, if_neg Bool.false_ne_true] at h
          split at h <;> cases h <;> rfl
      split at h <;> cases h <;> exact .inl ⟨hview, hshown⟩
  | elsewhere =>
    cases h
    exact .inl ⟨rfl, rfl⟩

theorem cacheFeed_served : cacheFeed.Served userService where
  transact := fun _ _ _ _ _ _ => ⟨trivial, fun _ => ⟨id, fun _ _ _ => trivial⟩⟩
  handler := by
    intro topic payload k seen habout
    simp only [cacheFeed] at habout
    split at habout
    · rename_i h
      obtain ⟨rfl, rfl⟩ := h
      exact ⟨_, .evict k, registered_userCache, rfl, by simpa [cacheFeed] using habout⟩
    · simp at habout
  other := by
    intro topic payload k habout handler hmem phase hdecode
    rcases registered hmem with ⟨rfl, rfl⟩ | ⟨rfl, rfl⟩ | ⟨rfl, rfl⟩ | ⟨rfl, rfl⟩ | rfl
    · simp only [UserCacheInvalidator.begin, typedHandler] at hdecode
      cases hvalue : UserBalanceChanged.fromValue payload with
      | error e => simp [hvalue] at hdecode
      | ok userId =>
        simp only [hvalue, Except.ok.injEq] at hdecode
        subst hdecode
        have hpayload : payload = .event (.userBalanceChanged userId) := by
          unfold UserBalanceChanged.fromValue at hvalue
          split at hvalue
          · cases hvalue
            rfl
          · simp at hvalue
        have hk : userId ≠ k := by
          rintro rfl
          simp [cacheFeed, hpayload] at habout
        simp [cacheFeed, hk]
    all_goals
      cases hdecode
      rfl
  step := fun _ _ _ _ _ _ _ h => ⟨trivial, fun k => ⟨rfl, id, cacheFeed_step h k⟩⟩

theorem moves_recorded {db db' : Db} {w : Write} {now : DateTime} (hw : w.movesMoney = true)
    (h : pg.atomically w.program ⟨now, false⟩ db = .ok db') :
    ∃ events, db'.outbox = db.outbox ++ events ∧ ∀ id,
      (db'.userById id).map User.balance = (db.userById id).map User.balance ∨
        .userBalanceChanged id ∈ events := by
  cases w with
  | place bet priced points =>
    obtain ⟨-, rfl⟩ := (place_ok (of_decide_eq_true hw)).mp h
    refine ⟨placeEvents bet, rfl, fun id => ?_⟩
    by_cases hid : bet.userId = id
    · exact .inr (by simp [placeEvents, hid])
    · left
      rw [userById_placed]
      cases hu : db.userById id with
      | none => rfl
      | some u =>
        have huid : u.id = id := Table.find?_key hu
        have hne : u.id ≠ bet.userId := fun heq => hid (heq.symm.trans huid)
        simp [hne]
  | settle market settled =>
    obtain ⟨rfl, -⟩ := settle_ok (of_decide_eq_true hw) h
    refine ⟨_, rfl, fun id => ?_⟩
    cases hpaid : isPaid settled id with
    | true =>
      right
      simp only [isPaid, List.any_eq_true, Bool.and_eq_true, decide_eq_true_eq] at hpaid
      obtain ⟨b, hb, hid, hsome⟩ := hpaid
      refine List.mem_map_of_mem ?_
      rw [paidUsers, List.mem_dedup, List.mem_map]
      exact ⟨b, List.mem_filter.mpr ⟨hb, hsome⟩, hid⟩
    | false =>
      left
      rw [userById_settled]
      cases hu : db.userById id with
      | none => rfl
      | some u =>
        have huid : u.id = id := Table.find?_key hu
        simp [paidRow_balance, huid, credits_unpaid hpaid]
  | _ => simp [Write.movesMoney] at hw

def UserWorld.moved (w : UserWorld) (i : Nat) (r : Db × Cache × UserCall) : UserWorld :=
  ⟨r.1, r.2.1, w.calls.set i r.2.2⟩

section Calls
variable {w : UserWorld} {i : Nat} {c : UserCall} {id : UserId}

theorem mending_iff : w.mending id = true ↔ ∃ (i : Nat) (c : UserCall) (u : User),
    w.calls[i]? = some c ∧ c.putting = some u ∧ u.id = id ∧ some u.balance = w.balance id := by
  simp only [UserWorld.mending, List.any_eq_true, Option.any_eq_true, Bool.and_eq_true,
    decide_eq_true_eq]
  constructor
  · rintro ⟨c, hc, u, hu, hid, hbalance⟩
    obtain ⟨i, hi⟩ := List.mem_iff_getElem?.mp hc
    exact ⟨i, c, u, hi, hu, hid, hbalance⟩
  · rintro ⟨i, c, u, hi, hu, hid, hbalance⟩
    exact ⟨c, List.mem_of_getElem? hi, u, hu, hid, hbalance⟩

/-- A call that is not about to put may move on without harm, if the cache and the stored
balance stay. -/
theorem fresh_moved {r : Db × Cache × UserCall} (hc : w.calls[i]? = some c)
    (hputting : ∀ u, c.putting = some u → u.id ≠ id)
    (hcache : r.2.1 (.id id) = w.cache (.id id))
    (hbalance : (w.moved i r).balance id = w.balance id) (h : w.fresh id = true) :
    (w.moved i r).fresh id = true := by
  unfold UserWorld.fresh at h ⊢
  rw [Bool.or_eq_true] at h ⊢
  rw [hbalance]
  rcases h with h | h
  · left
    simp only [UserWorld.moved, hcache]
    exact h
  · right
    obtain ⟨j, d, u, hd, hu, hid, hstored⟩ := mending_iff.mp h
    refine mending_iff.mpr ⟨j, d, u, ?_, hu, hid, hstored.trans hbalance.symm⟩
    have hj : i ≠ j := by
      rintro rfl
      rw [hc] at hd
      cases hd
      exact hputting u hu hid
    simp only [UserWorld.moved, List.getElem?_set_ne hj]
    exact hd

end Calls

/-- A copy whose balance is not the stored one is put only while an event of the user, or
another call with the stored balance, still comes after it. -/
def CacheCorrected {ι : Type} (s : Outbox UserWorld Payload UserPhase ι) :
    Outbox.Act UserAct Await ι → Prop
  | .transact (.step i _) => ∀ c u, s.world.calls[i]? = some c → c.putting = some u →
      some u.balance ≠ s.world.balance u.id →
      (∃ (j : Nat) (d : UserCall) (v : User), j ≠ i ∧ s.world.calls[j]? = some d ∧
        d.putting = some v ∧ v.id = u.id ∧ some v.balance = s.world.balance u.id) ∨
      ∃ r, cacheFeed.Owed s u.id r
  | _ => True

/-- What one round trip leaves fresh: everything, except a user whose put copy is stale. -/
theorem advance_fresh {w : UserWorld} {i : Nat} {c : UserCall} {now : DateTime}
    {r : Db × Cache × UserCall} {id : UserId} (hc : w.calls[i]? = some c)
    (hr : c.advance now w.db w.cache = some r) (h : w.fresh id = true) :
    (w.moved i r).fresh id = true ∨ ∃ u, c.putting = some u ∧ u.id = id ∧
      some u.balance ≠ w.balance id ∧ (w.moved i r).balance id = w.balance id := by
  have hlt : i < w.calls.length := (List.getElem?_eq_some_iff.mp hc).1
  cases c with
  | get query =>
    left
    simp only [UserCall.advance] at hr
    split at hr <;> cases hr <;> exact fresh_moved hc (by simp [UserCall.putting]) rfl rfl h
  | load query =>
    left
    simp only [UserCall.advance] at hr
    split at hr <;> cases hr <;> exact fresh_moved hc (by simp [UserCall.putting]) rfl rfl h
  | put user answer =>
    simp only [UserCall.advance, Option.some.injEq] at hr
    subst hr
    by_cases hid : user.id = id
    · by_cases hstored : some user.balance = w.balance id
      · left
        have hentry : (w.moved i (w.db, w.cache.put true user, .returned (.ok answer))).cache
            (.id id) = some user := by
          simp [UserWorld.moved, Cache.put, userKeys, hid]
        have hbalance : (w.moved i (w.db, w.cache.put true user, .returned (.ok answer))).balance id =
            w.balance id := rfl
        simp [UserWorld.fresh, hbalance, hstored, hentry]
      · exact .inr ⟨user, rfl, hid, hstored, rfl⟩
    · left
      refine fresh_moved hc ?_ ?_ rfl h
      · intro u hu
        cases hu
        exact hid
      · have hkey : CacheKey.id id ≠ .id user.id := by
          intro heq
          cases heq
          exact hid rfl
        simp [Cache.put, userKeys, hkey]
  | write user =>
    left
    simp only [UserCall.advance] at hr
    split at hr
    · cases hr
      exact fresh_moved hc (by simp [UserCall.putting]) rfl rfl h
    · rename_i db hdb
      cases hr
      obtain ⟨-, rfl⟩ := save_ok hdb
      by_cases hid : user.id = id
      · -- the new row is what this call is about to cache
        have hmending : (w.moved i (w.db.saved user, w.cache, .put user none)).mending id = true := by
          refine mending_iff.mpr ⟨i, .put user none, user, ?_, rfl, hid, ?_⟩
          · simp [UserWorld.moved, hlt]
          · simp [UserWorld.balance, UserWorld.moved, userById_saved, hid, savedRow_balance]
        simp [UserWorld.fresh, hmending]
      · refine fresh_moved hc (by simp [UserCall.putting]) rfl ?_ h
        simp [UserWorld.balance, UserWorld.moved, userById_saved, hid]
  | returned result => simp [UserCall.advance] at hr

theorem begun_fresh {w : UserWorld} {c : UserCall} {id : UserId} (h : w.fresh id = true) :
    ({ w with calls := w.calls ++ [c] } : UserWorld).fresh id = true := by
  unfold UserWorld.fresh UserWorld.mending UserWorld.balance at *
  rw [List.any_append, ← Bool.or_assoc, h, Bool.true_or]

section Transactions
variable {ι : Type} {s : Outbox UserWorld Payload UserPhase ι} {w : UserWorld}
  {events : List (Nat × String × Payload)} {id : UserId}

theorem settled_recorded (h : w.fresh id = true) :
    cacheFeed.Settled (Feed.recorded s w events).world id :=
  settled_iff.mpr h

theorem cache_stepped (hsound : s.Sound userService) (hset : s.world.fresh id = true) {i : Nat}
    {now : DateTime} (hok : CacheCorrected s (.transact (.step i now)))
    (ha : s.world.transact (.step i now) = some (w, events))
    (hnodup : (events.map Prod.fst).Nodup) (hfresh : ∀ e ∈ events, e.1 ∉ s.drawn) :
    cacheFeed.Settled (Feed.recorded s w events).world id ∨
      ∃ r, cacheFeed.Owed (Feed.recorded s w events) id r := by
  simp only [UserWorld.transact] at ha
  cases hc : s.world.calls[i]? with
  | none => simp [hc] at ha
  | some c =>
    simp only [hc] at ha
    obtain ⟨r, hr, heq⟩ := Option.map_eq_some_iff.mp ha
    cases heq
    rcases advance_fresh hc hr hset with hstill | ⟨u, hu, hid, hstale, hbalance⟩
    · exact .inl (settled_recorded hstill)
    · subst hid
      rcases hok c u hc hu hstale with ⟨j, d, v, hj, hd, hv, hvid, hstored⟩ | ⟨r', howed⟩
      · have hmending : (s.world.moved i r).mending u.id = true := by
          refine mending_iff.mpr ⟨j, d, v, ?_, hv, hvid, hstored.trans hbalance.symm⟩
          simp only [UserWorld.moved, List.getElem?_set_ne (Ne.symm hj)]
          exact hd
        refine .inl (settled_recorded ?_)
        change (s.world.moved i r).fresh u.id = true
        simp [UserWorld.fresh, hmending]
      · exact .inr ⟨r', howed.transacted hsound hnodup hfresh rfl⟩

theorem cache_committed (hsound : s.Sound userService) (hset : s.world.fresh id = true)
    {write : Write} {now : DateTime} {ids : List Nat}
    (ha : s.world.transact (.commit write now ids) = some (w, events))
    (hnodup : (events.map Prod.fst).Nodup) (hfresh : ∀ e ∈ events, e.1 ∉ s.drawn) :
    cacheFeed.Settled (Feed.recorded s w events).world id ∨
      ∃ r, cacheFeed.Owed (Feed.recorded s w events) id r := by
  simp only [UserWorld.transact] at ha
  split at ha
  · rename_i hmoves
    split at ha
    · simp at ha
    · rename_i db hdb
      obtain ⟨recorded, houtbox, hall⟩ := moves_recorded hmoves hdb
      rw [houtbox, List.drop_left] at ha
      split at ha
      · rename_i hlen
        cases ha
        rcases hall id with hsame | hmem
        · have hbalance : ({ s.world with db } : UserWorld).balance id = s.world.balance id := hsame
          refine .inl (settled_recorded ?_)
          unfold UserWorld.fresh UserWorld.mending at hset ⊢
          rw [hbalance]
          exact hset
        · rw [← List.map_snd_zip hlen.ge] at hmem
          obtain ⟨e, he, hevent⟩ := List.mem_map.mp hmem
          refine .inr ⟨_, Feed.Owed.recorded hsound hnodup hfresh (List.mem_map_of_mem he)
            ⟨some true, ?_, .inr rfl⟩⟩
          simp [cacheFeed, Event.queue, hevent, Event.topic]
      · simp at ha
  · simp at ha

theorem cache_transacted (hsound : s.Sound userService) (hconv : cacheFeed.Converging s)
    {a : UserAct} (hok : CacheCorrected s (.transact a))
    (ha : s.world.transact a = some (w, events)) (hnodup : (events.map Prod.fst).Nodup)
    (hfresh : ∀ e ∈ events, e.1 ∉ s.drawn) : cacheFeed.Converging (Feed.recorded s w events) := by
  intro k
  rcases hconv k with hset | ⟨r, hr⟩
  · rw [settled_iff] at hset
    cases a with
    | find query =>
      cases ha
      exact .inl (settled_recorded (begun_fresh hset))
    | save user =>
      cases ha
      exact .inl (settled_recorded (begun_fresh hset))
    | step i now => exact cache_stepped hsound hset hok ha hnodup hfresh
    | fail i message =>
      simp only [UserWorld.transact] at ha
      have hmoved : ∀ c, s.world.calls[i]? = some c → c.putting = none → (s.world.moved i
          (s.world.db, s.world.cache, .returned (.error (.storage message)))).fresh k = true := by
        intro c hc hnone
        exact fresh_moved hc (by simp [hnone]) rfl rfl hset
      split at ha
      · rename_i query hc
        cases ha
        exact .inl (settled_recorded (hmoved _ hc rfl))
      · rename_i user hc
        cases ha
        exact .inl (settled_recorded (hmoved _ hc rfl))
      · simp at ha
    | commit write now ids => exact cache_committed hsound hset ha hnodup hfresh
    | other foreign =>
      simp only [UserWorld.transact] at ha
      split at ha
      · cases ha
        exact .inl (settled_recorded hset)
      · simp at ha
  · exact .inr ⟨r, hr.transacted hsound hnodup hfresh rfl⟩

end Transactions

theorem findById_answers (w : UserWorld) (id : UserId) (now : DateTime) : ∃ n w',
    Transition.run UserWorld.next w (.find (.byId id) :: List.replicate n
    (.step w.calls.length now)) =
      some w' ∧ w'.calls[w.calls.length]? = some (.returned (.ok (w.findById id))) := by
  cases hentry : w.cache.get true (.id id) with
  | some u =>
    refine ⟨1, ⟨w.db, w.cache, w.calls ++ [.returned (.ok (some u))]⟩, ?_, ?_⟩
    · simp [Transition.run, UserWorld.next, UserWorld.transact, UserCall.find, UserCall.advance,
        UserQuery.key, hentry]
    · simp [UserWorld.findById, hentry]
  | none =>
    cases hrow : w.db.userById id with
    | none =>
      refine ⟨2, ⟨w.db, w.cache, w.calls ++ [.returned (.ok none)]⟩, ?_, ?_⟩
      · simp [Transition.run, UserWorld.next, UserWorld.transact, UserCall.find, UserCall.advance,
          UserQuery.key, UserQuery.load, hentry, hrow, List.replicate]
      · simp [UserWorld.findById, hentry, hrow]
    | some u =>
      refine ⟨3, ⟨w.db, w.cache.put true u, w.calls ++ [.returned (.ok (some u))]⟩, ?_, ?_⟩
      · simp [Transition.run, UserWorld.next, UserWorld.transact, UserCall.find, UserCall.advance,
          UserQuery.key, UserQuery.load, hentry, hrow, List.replicate]
      · simp [UserWorld.findById, hentry, hrow]

/-- In a run in which stale copies get corrected, a user none of whose balance events is
pending and of whom no copy is about to be cached is found with the stored balance. -/
theorem user_cache_converges {ι : Type} [DecidableEq ι] {db : Db}
    {as : List (Outbox.Act UserAct Await ι)} {s : Outbox UserWorld Payload UserPhase ι}
    (hok : Transition.Guarded (Outbox.step userService) CacheCorrected (.init (.init db)) as)
    (hr : Transition.run (Outbox.step userService) (.init (.init db)) as = some s) {id : UserId}
    (hdone : ∀ r ∈ s.rows.rows, r.topic = "user.balance_changed" →
      r.payload = .event (.userBalanceChanged id) → r.processedAt ≠ none)
    (hidle : ∀ c ∈ s.world.calls, ∀ u, c.putting = some u → u.id ≠ id) (now : DateTime) :
    ∃ n w' answer, Transition.run UserWorld.next s.world
        (.find (.byId id) :: List.replicate n (.step s.world.calls.length now)) = some w' ∧
      w'.calls[s.world.calls.length]? = some (.returned (.ok answer)) ∧
      answer.map User.balance = s.world.balance id := by
  have htracked : cacheFeed.Tracked (.init (.init db) : Outbox UserWorld Payload UserPhase ι) :=
    ⟨trivial, fun _ _ _ _ => trivial, by simp [Outbox.init]⟩
  have hconverging : cacheFeed.Converging
      (.init (.init db) : Outbox UserWorld Payload UserPhase ι) :=
    fun _ => .inl (settled_iff.mpr rfl)
  have hstep : ∀ (t : Outbox UserWorld Payload UserPhase ι) a t',
      (t.Sound userService ∧ cacheFeed.Tracked t ∧ cacheFeed.Converging t) → CacheCorrected t a →
      t.step userService a = some t' →
      t'.Sound userService ∧ cacheFeed.Tracked t' ∧ cacheFeed.Converging t' := by
    intro t a t' ht hguard ha
    obtain ⟨hsound, htracked, hconv⟩ := ht
    refine ⟨hsound.step ha, htracked.step cacheFeed_served hsound ha, ?_⟩
    refine hconv.advance cacheFeed_served hsound htracked ?_ (fun c w events hc htransact => ?_) ha
    · -- an eviction never shows a stale entry
      intro p x pass current phase k v w' result _ _ _ _ hview hstale
      exfalso
      simp only [cacheFeed] at hview hstale
      split at hview
      · split at hview
        · simp only [Option.some.injEq] at hview
          exact hstale hview.symm
        · simp at hview
      · simp at hview
    · subst hc
      exact cache_transacted hsound hconv hguard htransact
  obtain ⟨-, -, hend⟩ := Transition.run_invariant hstep
    ⟨Outbox.init_sound _, htracked, hconverging⟩ hok hr
  have hfresh : s.world.fresh id = true := by
    rcases hend id with hset | ⟨r, howed⟩
    · exact settled_iff.mp hset
    · obtain ⟨seen, habout, -⟩ := howed.current
      simp only [cacheFeed] at habout
      split at habout
      · rename_i h
        exact absurd howed.pending (hdone r howed.row h.1 h.2)
      · simp at habout
  have hnot : s.world.mending id = false := by
    by_contra hmending
    obtain ⟨j, d, u, hd, hu, huid, -⟩ := mending_iff.mp (by simpa using hmending)
    exact hidle d (List.mem_of_getElem? hd) u hu huid
  obtain ⟨n, w', hrun, hanswer⟩ := findById_answers s.world id now
  refine ⟨n, w', _, hrun, hanswer, ?_⟩
  simp only [UserWorld.fresh, hnot, Bool.or_false] at hfresh
  cases hentry : s.world.cache (.id id) with
  | none => simp [UserWorld.findById, Cache.get, hentry, UserWorld.balance]
  | some u =>
    simp only [hentry, Option.all_some, decide_eq_true_eq] at hfresh
    simp [UserWorld.findById, Cache.get, hentry, hfresh]

/-- A copy that is put has the stored balance, or an unclaimed event follows it. -/
def EvictionFollows {ι : Type} (s : Outbox UserWorld Payload UserPhase ι) :
    Outbox.Act UserAct Await ι → Prop
  | .transact (.step i _) =>
    match s.world.calls[i]?.bind UserCall.putting with
    | some u => some u.balance = s.world.balance u.id ∨ ∃ r ∈ s.rows.rows, r.processedAt = none ∧
        s.locks r.id = none ∧ r.topic = "user.balance_changed" ∧
        r.payload = .event (.userBalanceChanged u.id)
    | none => True
  | _ => True

instance {ι : Type} [DecidableEq ι] (s : Outbox UserWorld Payload UserPhase ι) (a) :
    Decidable (EvictionFollows s a) := by
  unfold EvictionFollows
  split
  · split <;> infer_instance
  · exact isTrue trivial

theorem EvictionFollows.corrected {ι : Type} {s : Outbox UserWorld Payload UserPhase ι}
    {a : Outbox.Act UserAct Await ι} (hsound : s.Sound userService) (h : EvictionFollows s a) :
    CacheCorrected s a := by
  unfold CacheCorrected
  split
  · rename_i i now
    intro c u hc hu hstale
    simp only [EvictionFollows, hc, Option.bind_some, hu] at h
    rcases h with hstored | ⟨r, hrow, hnone, hfree, htopic, hpayload⟩
    · exact absurd hstored hstale
    · refine .inr ⟨r, hrow, hnone, ⟨some true, ?_, .inr rfl⟩, fun p pass hp hclaimed => ?_⟩
      · simp [cacheFeed, htopic, hpayload]
      · have hl := (hsound.held p pass hp r hclaimed).1
        simp [hfree] at hl
  · trivial

theorem evictions_follow {ι : Type} [DecidableEq ι] {db : Db}
    {as : List (Outbox.Act UserAct Await ι)}
    (h : Transition.Guarded (Outbox.step userService) EvictionFollows (.init (.init db)) as) :
    Transition.Guarded (Outbox.step userService) CacheCorrected (.init (.init db)) as :=
  Transition.guarded_invariant (fun _ _ _ hsound _ ha => Outbox.Sound.step hsound ha)
    (fun _ _ hsound hok => EvictionFollows.corrected hsound hok) (Outbox.init_sound _) h

namespace Sample

def aliceStake : Write :=
  ((state (opening ++ [bet ⟨1⟩ ⟨101⟩ 50] ++ steps 1 6 200)).writing? (.step 1 (env 2 200))).getD
    (.create rainMarket [] 0)

/-- A lookup of Alice that has read her row when her bet commits. -/
def lookupAndStake : List (Outbox.Act UserAct Await Unit) :=
  [.transact (.find (.byId ⟨1⟩)), .transact (.step 0 3), .transact (.step 0 3),
    .transact (.commit aliceStake 3 [1, 2, 3])]

def deliver : List (Outbox.Act UserAct Await Unit) :=
  [.claim ()] ++ List.replicate 12 (.handle () ⟨5, none, true⟩) ++ [.commit () 6]

/-- The copy is cached before the eviction, or after it. -/
def putThenEvict : List (Outbox.Act UserAct Await Unit) :=
  lookupAndStake ++ [.transact (.step 0 4)] ++ deliver

def evictThenPut : List (Outbox.Act UserAct Await Unit) :=
  lookupAndStake ++ deliver ++ [.transact (.step 0 4)]

def cached (as : List (Outbox.Act UserAct Await Unit)) : Outbox UserWorld Payload UserPhase Unit :=
  (Transition.run (Outbox.step userService) (.init (.init (state opening).db)) as).getD
    (.init (.init (state opening).db))

theorem run_cached {as : List (Outbox.Act UserAct Await Unit)}
    (h : (Transition.run (Outbox.step userService) (.init (.init (state opening).db)) as).isSome) :
    Transition.run (Outbox.step userService) (.init (.init (state opening).db)) as =
      some (cached as) := by
  obtain ⟨s, hs⟩ := Option.isSome_iff_exists.mp h
  simp [cached, hs]

end Sample

theorem user_cache_converges_evicted :
    let w := (Sample.cached Sample.putThenEvict).world
    w.balance ⟨1⟩ = some 9950 ∧ ∃ n w' answer, Transition.run UserWorld.next w
        (.find (.byId ⟨1⟩) :: List.replicate n (.step w.calls.length 7)) = some w' ∧
      w'.calls[w.calls.length]? = some (.returned (.ok answer)) ∧
      answer.map User.balance = w.balance ⟨1⟩ :=
  ⟨by decide +kernel, user_cache_converges (evictions_follow (by decide +kernel))
    (Sample.run_cached (by decide +kernel)) (by decide +kernel) (by decide +kernel) 7⟩

/-- Every event is delivered and no call runs, and Alice's old balance stays cached. -/
theorem user_cache_stale :
    let s := Sample.cached Sample.evictThenPut
    (s.rows.rows.all fun r => r.processedAt.isSome) = true ∧ s.rows.rows.length = 3 ∧
      s.world.calls.all UserCall.finished = true ∧
      (s.world.findById ⟨1⟩).map User.balance = some 10000 ∧
      s.world.balance ⟨1⟩ = some 9950 := by
  decide +kernel

end Betsphere
