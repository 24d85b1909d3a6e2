import Betsphere.System.Accounts
set_option autoImplicit false

namespace Betsphere
open MachineInt

def Cache.Keyed (cache : Cache) : Prop := ∀ key u, cache key = some u → key ∈ userKeys u

/-- The copy is of a user who was made an admin, if it says so. -/
def User.Granted (granted : UserId → Prop) (u : User) : Prop := u.role = .admin → granted u.id

def ProfileJob.Granted (granted : UserId → Prop) : ProfileJob → Prop
  | .updateUser id (some .admin) => granted id
  | _ => True

def Request.Granted (granted : UserId → Prop) : Request → Prop
  | .createMarket actor _ => actor.role = .admin → granted actor.userId
  | .resolveMarket actor _ _ => actor.role = .admin → granted actor.userId
  | .placeBet _ _ => True
  | .profile job => job.Granted granted

/-- The check of the role is behind the calls that manage markets. -/
def Call.Granted (granted : UserId → Prop) : Call → Prop
  | .createMarket actor _ _ => actor.role = .admin ∧ granted actor.userId
  | .resolveMarket actor _ _ _ => actor.role = .admin ∧ granted actor.userId
  | .placeBet actor input phase =>
    ∀ u ∈ (Call.placeBet actor input phase).copies, u.Granted granted
  | .profile job phase => job.Granted granted ∧
    ∀ u ∈ (Call.profile job phase).copies, u.Granted granted ∧ u.id = job.userId

def Slot.Granted (granted : UserId → Prop) : Slot → Prop
  | .running call => call.Granted granted
  | .returned _ _ => True

structure Sys.Granted (s : Sys) (granted : UserId → Prop) : Prop where
  stored : ∀ u ∈ s.db.users.rows, u.Granted granted
  keyed : s.cache.Keyed
  cached : ∀ key u, s.cache key = some u → u.Granted granted
  calls : ∀ slot ∈ s.calls, slot.Granted granted

section Copies
variable {granted granted' : UserId → Prop}

theorem Call.Granted.mono {call : Call} (h : call.Granted granted)
    (himp : ∀ id, granted id → granted' id) : call.Granted granted' := by
  cases call with
  | createMarket actor input prepared => exact ⟨h.1, himp _ h.2⟩
  | resolveMarket actor marketId winner phase => exact ⟨h.1, himp _ h.2⟩
  | placeBet actor input phase => exact fun u hu hrole => himp _ (h u hu hrole)
  | profile job phase =>
    refine ⟨?_, fun u hu => ⟨fun hrole => himp _ ((h.2 u hu).1 hrole), (h.2 u hu).2⟩⟩
    have hjob := h.1
    unfold ProfileJob.Granted at hjob ⊢
    split
    · exact himp _ hjob
    · trivial

theorem Sys.Granted.mono {s : Sys} (h : s.Granted granted) (himp : ∀ id, granted id → granted' id) :
    s.Granted granted' where
  stored := fun u hu hrole => himp _ (h.stored u hu hrole)
  keyed := h.keyed
  cached := fun key u hu hrole => himp _ (h.cached key u hu hrole)
  calls := by
    intro slot hslot
    cases slot with
    | running call => exact Call.Granted.mono (h.calls _ hslot) himp
    | returned request reply => trivial

theorem Sys.granted_init : Sys.init.Granted granted := by
  refine ⟨?_, ?_, ?_, ?_⟩ <;> simp [Sys.init, Db.empty, Cache.Keyed, Cache.empty]

theorem Cache.Keyed.put {cache : Cache} (h : cache.Keyed) (redisUp : Bool) (u : User) :
    (cache.put redisUp u).Keyed := by
  intro key v hv
  unfold Cache.put at hv
  split at hv
  · dsimp only at hv
    split at hv
    · rename_i hkey
      cases hv
      exact hkey
    · exact h key v hv
  · exact h key v hv

theorem Cache.Keyed.delete {cache : Cache} (h : cache.Keyed) (key : CacheKey) :
    (cache.delete key).Keyed :=
  fun k v hv => h k v (Cache.delete_some hv)

theorem Cache.Keyed.id_eq {cache : Cache} (h : cache.Keyed) {id : UserId} {u : User}
    (hu : cache (.id id) = some u) : u.id = id := by
  have hkey := h _ _ hu
  simp only [userKeys, List.mem_cons, List.not_mem_nil, or_false, CacheKey.id.injEq, reduceCtorEq]
    at hkey
  exact hkey.symm

end Copies

section Calls
variable {granted : UserId → Prop} {build : Build} {env : Env} {db : Db} {cache cache' : Cache}

theorem Lookup.advance_keyed {lookup : Lookup} {userId : UserId} {next : Lookup ⊕ Option User}
    (hkeyed : cache.Keyed) (h : lookup.advance userId env db cache = (cache', next)) :
    cache'.Keyed := by
  cases lookup with
  | get =>
    simp only [Lookup.advance] at h
    split at h <;> exact (Prod.mk.inj h).1 ▸ hkeyed
  | load =>
    simp only [Lookup.advance] at h
    split at h <;> exact (Prod.mk.inj h).1 ▸ hkeyed
  | put u =>
    rw [← (Prod.mk.inj h).1]
    exact hkeyed.put env.redisUp u

theorem Lookup.advance_id {lookup : Lookup} {userId : UserId} {next : Lookup ⊕ Option User}
    (hkeyed : cache.Keyed) (hl : ∀ u ∈ lookup.copies, u.id = userId)
    (h : lookup.advance userId env db cache = (cache', next)) :
    (∀ l, next = .inl l → ∀ u ∈ l.copies, u.id = userId) ∧
      ∀ u, next = .inr (some u) → u.id = userId := by
  cases lookup with
  | get =>
    simp only [Lookup.advance] at h
    cases hg : cache.get env.redisUp (.id userId) with
    | none =>
      simp only [hg, Prod.mk.injEq] at h
      obtain ⟨-, rfl⟩ := h
      refine ⟨fun l hl => ?_, by simp⟩
      cases hl
      simp [Lookup.copies]
    | some u =>
      simp only [hg, Prod.mk.injEq] at h
      obtain ⟨-, rfl⟩ := h
      have hu : cache (.id userId) = some u := by
        unfold Cache.get at hg
        split at hg
        · exact hg
        · simp at hg
      refine ⟨by simp, fun v hv => ?_⟩
      cases hv
      exact hkeyed.id_eq hu
  | load =>
    simp only [Lookup.advance] at h
    cases hu : db.userById userId with
    | none =>
      simp only [hu, Prod.mk.injEq] at h
      obtain ⟨-, rfl⟩ := h
      exact ⟨by simp, by simp⟩
    | some u =>
      simp only [hu, Prod.mk.injEq] at h
      obtain ⟨-, rfl⟩ := h
      refine ⟨fun l hl v hv => ?_, by simp⟩
      cases hl
      rw [List.mem_singleton.mp hv]
      exact Table.find?_key hu
  | put u =>
    simp only [Lookup.advance, Prod.mk.injEq] at h
    obtain ⟨-, rfl⟩ := h
    refine ⟨by simp, fun v hv => ?_⟩
    cases hv
    exact hl u (List.mem_singleton_self u)

/-- The one edit that makes an admin is the one `UpdateUser` was asked for. -/
theorem ProfileJob.onUser_granted {job : ProfileJob} {found : Option User} {request : Request}
    (hjob : job.Granted granted)
    (hu : ∀ u, found = some u → u.Granted granted ∧ u.id = job.userId) :
    ((job.onUser build env found).slot request (.profile job)).Granted granted := by
  cases found with
  | none => cases job <;> trivial
  | some user =>
    obtain ⟨huser, hid⟩ := hu user rfl
    have hkept : ∀ v : User, v.role = user.role → v.id = user.id →
        v.Granted granted ∧ v.id = job.userId := by
      intro v hrole hsame
      refine ⟨fun hadmin => ?_, hsame.trans hid⟩
      rw [hsame]
      exact huser (hrole.symm.trans hadmin)
    cases job with
    | uploadAvatar userId contentType bytes =>
      refine ⟨hjob, fun v hv => ?_⟩
      obtain rfl := List.mem_singleton.mp hv
      exact ⟨huser, hid⟩
    | updateUser userId role =>
      cases role with
      | none =>
        refine ⟨hjob, fun v hv => ?_⟩
        obtain rfl := List.mem_singleton.mp hv
        exact ⟨huser, hid⟩
      | some role =>
        refine ⟨hjob, fun v hv => ?_⟩
        obtain rfl := List.mem_singleton.mp hv
        refine ⟨fun hadmin => ?_, hid⟩
        have hrole : role = .admin := hadmin
        subst hrole
        change granted user.id
        rw [hid]
        exact hjob
    | topUp userId bot amount =>
      simp only [ProfileJob.onUser]
      split
      · trivial
      · cases hs : sub64 build (max User.startingBalance amount) user.balance with
        | error p => trivial
        | ok missing =>
          cases hcr : user.credit missing env.now with
          | error e => simp only [hcr]; trivial
          | ok u' =>
            simp only [hcr]
            refine ⟨hjob, fun v hv => ?_⟩
            obtain rfl := List.mem_singleton.mp hv
            unfold User.credit at hcr
            split at hcr
            · simp at hcr
            · cases hcr
              exact hkept _ rfl rfl

theorem ProfileJob.read_granted {job : ProfileJob} {phase : ProfileJob.Phase}
    {next : Next ProfileJob.Phase} {request : Request}
    (hdb : ∀ u ∈ db.users.rows, u.Granted granted) (hkeyed : cache.Keyed)
    (hcache : ∀ key u, cache key = some u → u.Granted granted)
    (hc : (Call.profile job phase).Granted granted)
    (h : ProfileJob.read build env db cache job phase = some (cache', next)) :
    cache'.Keyed ∧ (∀ key u, cache' key = some u → u.Granted granted) ∧
      (next.slot request (.profile job)).Granted granted := by
  obtain ⟨hjob, hcopies⟩ := hc
  cases phase with
  | findUser lookup =>
    simp only [ProfileJob.read] at h
    cases ha : lookup.advance job.userId env db cache with
    | mk cache₁ result =>
      have hkept := Lookup.advance_keyed hkeyed ha
      obtain ⟨hcached, hnext, hfound⟩ :=
        Lookup.advance_keeps hdb hcache (fun u hu => (hcopies u hu).1) ha
      obtain ⟨hnextId, hfoundId⟩ := Lookup.advance_id hkeyed (fun u hu => (hcopies u hu).2) ha
      cases result with
      | inl l =>
        simp only [ha, Option.some.injEq, Prod.mk.injEq] at h
        obtain ⟨rfl, rfl⟩ := h
        exact ⟨hkept, hcached, hjob, fun u hu => ⟨hnext l rfl u hu, hnextId l rfl u hu⟩⟩
      | inr found =>
        simp only [ha, Option.some.injEq, Prod.mk.injEq] at h
        obtain ⟨rfl, rfl⟩ := h
        refine ⟨hkept, hcached, ProfileJob.onUser_granted hjob fun u hu => ?_⟩
        rw [hu] at hfound hfoundId
        exact ⟨hfound u rfl, hfoundId u rfl⟩
  | store user =>
    cases h
    refine ⟨hkeyed, hcache, hjob, fun v hv => ?_⟩
    obtain rfl := List.mem_singleton.mp hv
    exact hcopies user (List.mem_singleton_self user)
  | save cause user => simp [ProfileJob.read] at h
  | refresh user =>
    cases h
    have huser := (hcopies user (List.mem_singleton_self user)).1
    exact ⟨hkeyed.put env.redisUp user, cache_put_keeps hcache huser, trivial⟩

theorem PlaceBet.read_keyed {actor : Actor} {input : NewBet} {phase : PlaceBet.Phase}
    {next : Next PlaceBet.Phase} (hkeyed : cache.Keyed)
    (h : PlaceBet.read build env db cache actor input phase = some (cache', next)) :
    cache'.Keyed := by
  cases phase with
  | findUser market outcomes chosen lookup =>
    simp only [PlaceBet.read] at h
    cases ha : lookup.advance actor.userId env db cache with
    | mk cache₁ result =>
      have hkept := Lookup.advance_keyed hkeyed ha
      cases result with
      | inl l =>
        simp only [ha, Option.some.injEq, Prod.mk.injEq] at h
        exact h.1 ▸ hkept
      | inr found =>
        simp only [ha, Option.some.injEq, Prod.mk.injEq] at h
        exact h.1 ▸ hkept
  | place market user bet priced chosen points => simp [PlaceBet.read] at h
  | _ =>
    cases h
    exact hkeyed

theorem Call.read_granted {call : Call} {slot : Slot}
    (hdb : ∀ u ∈ db.users.rows, u.Granted granted) (hkeyed : cache.Keyed)
    (hcache : ∀ key u, cache key = some u → u.Granted granted) (hc : call.Granted granted)
    (h : call.read build env db cache = some (cache', slot)) :
    cache'.Keyed ∧ (∀ key u, cache' key = some u → u.Granted granted) ∧ slot.Granted granted := by
  cases call with
  | createMarket actor input prepared => simp [Call.read] at h
  | placeBet actor input phase =>
    simp only [Call.read, Option.map_eq_some_iff] at h
    obtain ⟨⟨cache₁, next⟩, hr, heq⟩ := h
    cases heq
    have hkept : ∀ request, (∀ key u, cache₁ key = some u → u.Granted granted) ∧
        ∀ u ∈ (next.slot request (.placeBet actor input)).copies, u.Granted granted :=
      fun request => PlaceBet.read_keeps hdb hcache hc hr
    refine ⟨PlaceBet.read_keyed hkeyed hr, (hkept (.placeBet actor input)).1, ?_⟩
    cases next with
    | goto phase' => exact (hkept (.placeBet actor input)).2
    | reply r => trivial
  | resolveMarket actor marketId winner phase =>
    simp only [Call.read, Option.map_eq_some_iff] at h
    obtain ⟨⟨cache₁, next⟩, hr, heq⟩ := h
    cases heq
    rw [ResolveMarket.read_cache hr]
    refine ⟨hkeyed, hcache, ?_⟩
    cases next with
    | goto phase' => exact hc
    | reply r => trivial
  | profile job phase =>
    simp only [Call.read, Option.map_eq_some_iff] at h
    obtain ⟨⟨cache₁, next⟩, hr, heq⟩ := h
    cases heq
    exact ProfileJob.read_granted hdb hkeyed hcache hc hr

theorem Request.begin_granted {request : Request} (h : request.Granted granted) :
    (request.begin build env).Granted granted := by
  cases request with
  | createMarket actor input =>
    simp only [Request.begin]
    cases hp : CreateMarket.prepare build env actor input with
    | reply r => trivial
    | goto prepared =>
      have hadmin : actor.role = .admin := by
        by_contra hrole
        simp [CreateMarket.prepare, canManageMarkets, hrole] at hp
      exact ⟨hadmin, h hadmin⟩
  | placeBet actor input => exact fun u hu => absurd hu List.not_mem_nil
  | resolveMarket actor marketId winner =>
    simp only [Request.begin]
    split
    · rename_i hrole
      have hadmin : actor.role = .admin := by simpa [canManageMarkets] using hrole
      exact ⟨hadmin, h hadmin⟩
    · trivial
  | profile job =>
    simp only [Request.begin]
    split
    · trivial
    · exact ⟨h, fun u hu => absurd hu List.not_mem_nil⟩

theorem Call.written_granted {call : Call} (hc : call.Granted granted)
    (result : Except RepositoryError Unit) : (call.written result).Granted granted := by
  cases call with
  | createMarket actor input prepared => cases result <;> trivial
  | placeBet actor input phase =>
    have hslot : ∀ u ∈ ((Call.placeBet actor input phase).written result).copies,
        u.Granted granted := fun u hu => hc u (Call.written_copies hu)
    revert hslot
    simp only [Call.written]
    cases PlaceBet.written phase result with
    | goto phase' => exact id
    | reply r => exact fun _ => trivial
  | resolveMarket actor marketId winner phase =>
    simp only [Call.written]
    cases ResolveMarket.written phase result with
    | goto phase' => exact hc
    | reply r => trivial
  | profile job phase =>
    have hslot : ∀ u ∈ ((Call.profile job phase).written result).copies,
        u.Granted granted ∧ u.id = job.userId := fun u hu => hc.2 u (Call.written_copies hu)
    revert hslot
    simp only [Call.written]
    cases ProfileJob.written phase result with
    | goto phase' => exact fun hslot => ⟨hc.1, hslot⟩
    | reply r => exact fun _ => trivial

end Calls

theorem Write.Done.users_granted {granted : UserId → Prop} {db db' : Db} {w : Write}
    {now : DateTime} (h : w.Done db now db') (hdb : ∀ u ∈ db.users.rows, u.Granted granted)
    (hsave : ∀ cause user, w = .save cause user → user.Granted granted) :
    ∀ u ∈ db'.users.rows, u.Granted granted := by
  cases h with
  | create market outcomes at' hen => exact hdb
  | place bet priced points hen =>
    intro u' hu'
    obtain ⟨u, hu, rfl⟩ := List.mem_map.mp hu'
    have hold := hdb u hu
    dsimp only
    split <;> exact hold
  | settle market settled hin =>
    intro u' hu'
    obtain ⟨u, hu, rfl⟩ := List.mem_map.mp hu'
    have hold := hdb u hu
    unfold paidRow
    split <;> exact hold
  | save cause user hun =>
    intro u hu
    rcases Table.mem_upsert.mp hu with rfl | ⟨hu, -⟩
    · intro hrole
      rw [savedRow_role] at hrole
      rw [savedRow_id]
      exact hsave cause user rfl hrole
    · exact hdb u hu

theorem Sys.Granted.pending_save {granted : UserId → Prop} {s : Sys} {a : Act} {cause : SaveCause}
    {user : User} (h : s.Granted granted) (hw : s.writing? a = some (.save cause user)) :
    user.Granted granted := by
  cases a with
  | step i env =>
    simp only [Sys.writing?] at hw
    split at hw
    · rename_i call hcall
      have hgranted := h.calls _ (List.mem_of_getElem? hcall)
      have hcopy := Call.save_copies hw
      cases call with
      | profile job phase => exact (hgranted.2 user hcopy).1
      | placeBet actor input phase => exact hgranted user hcopy
      | createMarket actor input prepared => simp [Call.copies] at hcopy
      | resolveMarket actor marketId winner phase => simp [Call.copies] at hcopy
    · simp at hw
  | _ => simp [Sys.writing?] at hw

theorem Sys.Granted.effect {granted : UserId → Prop} {build : Build} {s s' : Sys} {a : Act}
    (hwf : s.Wf) (h : s.Granted granted)
    (hstart : ∀ request env, a = .start request env → request.Granted granted)
    (he : Sys.Effect build s a s') : s'.Granted granted := by
  have hstored : ∀ u ∈ s'.db.users.rows, u.Granted granted := by
    rcases hwf.commits he with ⟨hdb, -⟩ | ⟨w, now, -, hdone, -, hcommits⟩
    · rw [hdb]
      exact h.stored
    · refine hdone.users_granted h.stored fun cause user hw => ?_
      subst hw
      rcases hcommits with hw | ⟨id, username, email, hash, now, -, -, heq⟩
      · exact h.pending_save hw
      · cases heq
        intro hrole
        cases hrole
  cases he with
  | started request env =>
    refine ⟨hstored, h.keyed, h.cached, fun slot hslot => ?_⟩
    rcases List.mem_append.mp hslot with hslot | hslot
    · exact h.calls slot hslot
    · rw [List.mem_singleton.mp hslot]
      exact Request.begin_granted (hstart request env rfl)
  | read i env call cache slot hcall hread hr =>
    obtain ⟨hkeyed, hcached, hslot⟩ := Call.read_granted h.stored h.keyed h.cached
      (h.calls _ (List.mem_of_getElem? hcall)) hr
    exact ⟨hstored, hkeyed, hcached, Sys.forall_set h.calls hslot⟩
  | committed i env call w db hcall hwrite hc =>
    have hslot := Call.written_granted (h.calls _ (List.mem_of_getElem? hcall)) (.ok ())
    exact ⟨hstored, h.keyed, h.cached, Sys.forall_set h.calls hslot⟩
  | refused i env call w e hcall hwrite hc =>
    have hslot := Call.written_granted (h.calls _ (List.mem_of_getElem? hcall)) (.error e)
    exact ⟨hstored, h.keyed, h.cached, Sys.forall_set h.calls hslot⟩
  | failed i message call hcall =>
    exact ⟨hstored, h.keyed, h.cached, Sys.forall_set h.calls trivial⟩
  | registered id username email hash now db hfresh hc =>
    exact ⟨hstored, h.keyed, h.cached, h.calls⟩
  | evicted userId hev =>
    exact ⟨hstored, h.keyed.delete _, fun key u hu => h.cached key u (Cache.delete_some hu),
      h.calls⟩
  | expired key =>
    exact ⟨hstored, h.keyed.delete _, fun k u hu => h.cached k u (Cache.delete_some hu), h.calls⟩

/-- A market is there only since a transaction that creates one. -/
theorem Write.Done.first_market {db db' : Db} {w : Write} {now : DateTime} (h : w.Done db now db')
    (hne : db'.markets.rows ≠ []) :
    db.markets.rows ≠ [] ∨ ∃ market outcomes at', w = .create market outcomes at' := by
  cases h with
  | create market outcomes at' hen => exact .inr ⟨market, outcomes, at', rfl⟩
  | place bet priced points hen =>
    refine .inl fun hnil => hne ?_
    simp [Db.placed, Db.addTotals, Table.modify, Table.mapRows, hnil]
  | settle market settled hin =>
    refine .inl fun hnil => hne ?_
    simp [Db.settled, Db.setMarketStatus, Table.modify, Table.mapRows, hnil]
  | save cause user hun => exact .inl hne

theorem Sys.Granted.pending_create {granted : UserId → Prop} {s : Sys} {a : Act} {market : Market}
    {outcomes : List Outcome} {now : DateTime} (h : s.Granted granted)
    (hw : s.writing? a = some (.create market outcomes now)) : ∃ id, granted id := by
  cases a with
  | step i env =>
    simp only [Sys.writing?] at hw
    split at hw
    · rename_i call hcall
      have hgranted := h.calls _ (List.mem_of_getElem? hcall)
      cases call with
      | createMarket actor input prepared => exact ⟨_, hgranted.2⟩
      | placeBet actor input phase => cases phase <;> simp [Call.write?, PlaceBet.write?] at hw
      | resolveMarket actor marketId winner phase =>
        cases phase <;> simp [Call.write?, ResolveMarket.write?] at hw
      | profile job phase => cases phase <;> simp [Call.write?, ProfileJob.write?] at hw
    · simp at hw
  | _ => simp [Sys.writing?] at hw

theorem Sys.Granted.markets_effect {granted : UserId → Prop} {build : Build} {s s' : Sys} {a : Act}
    (h : s.Granted granted) (hwf : s.Wf) (hm : s.db.markets.rows ≠ [] → ∃ id, granted id)
    (he : Sys.Effect build s a s') : s'.db.markets.rows ≠ [] → ∃ id, granted id := by
  rcases hwf.commits he with ⟨hdb, -⟩ | ⟨w, now, -, hdone, -, hcommits⟩
  · rw [hdb]
    exact hm
  · intro hne
    rcases hdone.first_market hne with hbefore | ⟨market, outcomes, at', rfl⟩
    · exact hm hbefore
    · rcases hcommits with hw | ⟨id, username, email, hash, now', -, -, heq⟩
      · exact h.pending_create hw
      · cases heq

end Betsphere
