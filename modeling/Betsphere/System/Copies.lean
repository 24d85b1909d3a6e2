import Betsphere.System.WellFormed
set_option autoImplicit false

namespace Betsphere
open MachineInt

/-- The user copies a call may still write to the cache or the table. -/
def Lookup.copies : Lookup → List User
  | .put u => [u]
  | _ => []

def Call.copies : Call → List User
  | .placeBet _ _ (.findUser _ _ _ lookup) => lookup.copies
  | .profile _ (.findUser lookup) => lookup.copies
  | .profile _ (.store u) => [u]
  | .profile _ (.save _ u) => [u]
  | .profile _ (.refresh u) => [u]
  | _ => []

def Slot.copies : Slot → List User
  | .running call => call.copies
  | .returned _ _ => []

structure EditsKeep (P : User → Prop) : Prop where
  setRole : ∀ u role now, P u → P (u.setRole role now)
  setAvatarUrl : ∀ u url now, P u → P (u.setAvatarUrl url now)
  credit : ∀ u u' amount now, P u → u.credit amount now = .ok u' → P u'

/-- `P` holds of every stored row and of every copy of one. -/
structure Sys.AllCopies (s : Sys) (P : User → Prop) : Prop where
  stored : ∀ u ∈ s.db.users.rows, P u
  cached : ∀ key u, s.cache key = some u → P u
  copied : ∀ slot ∈ s.calls, ∀ u ∈ slot.copies, P u

section Calls
variable {P : User → Prop} {build : Build} {env : Env} {db : Db} {cache : Cache}

theorem cache_put_keeps {redisUp : Bool} {u : User}
    (hcache : ∀ key u, cache key = some u → P u) (hu : P u) :
    ∀ key v, cache.put redisUp u key = some v → P v := by
  intro key v hv
  rcases Cache.put_cases hv with rfl | hv
  · exact hu
  · exact hcache key v hv

theorem Lookup.advance_keeps {lookup : Lookup} {userId : UserId} {cache' : Cache}
    {next : Lookup ⊕ Option User} (hdb : ∀ u ∈ db.users.rows, P u)
    (hcache : ∀ key u, cache key = some u → P u) (hl : ∀ u ∈ lookup.copies, P u)
    (h : lookup.advance userId env db cache = (cache', next)) :
    (∀ key u, cache' key = some u → P u) ∧
      (∀ l, next = .inl l → ∀ u ∈ l.copies, P u) ∧
      ∀ u, next = .inr (some u) → P u := by
  cases lookup with
  | get =>
    simp only [Lookup.advance] at h
    cases hg : cache.get env.redisUp (.id userId) with
    | none =>
      simp only [hg, Prod.mk.injEq] at h
      obtain ⟨rfl, rfl⟩ := h
      refine ⟨hcache, ?_, by simp⟩
      rintro l ⟨⟩
      simp [Lookup.copies]
    | some u =>
      simp only [hg, Prod.mk.injEq] at h
      obtain ⟨rfl, rfl⟩ := h
      have hu : cache (.id userId) = some u := by
        unfold Cache.get at hg
        split at hg
        · exact hg
        · simp at hg
      refine ⟨hcache, by simp, ?_⟩
      rintro v ⟨⟩
      exact hcache _ _ hu
  | load =>
    simp only [Lookup.advance] at h
    cases hu : db.userById userId with
    | none =>
      simp only [hu, Prod.mk.injEq] at h
      obtain ⟨rfl, rfl⟩ := h
      exact ⟨hcache, by simp, by simp⟩
    | some u =>
      simp only [hu, Prod.mk.injEq] at h
      obtain ⟨rfl, rfl⟩ := h
      refine ⟨hcache, ?_, by simp⟩
      rintro l ⟨⟩ v hv
      rw [List.mem_singleton.mp hv]
      exact hdb u (Table.find?_mem hu)
  | put u =>
    simp only [Lookup.advance, Prod.mk.injEq] at h
    obtain ⟨rfl, rfl⟩ := h
    have hu := hl u (by simp [Lookup.copies])
    refine ⟨cache_put_keeps hcache hu, by simp, ?_⟩
    rintro v ⟨⟩
    exact hu

theorem PlaceBet.onUser_copies {actor : Actor} {input : NewBet} {market : Market}
    {outcomes : List Outcome} {chosen : Nat} {found : Option User} {request : Request} :
    ((PlaceBet.onUser build env actor input market outcomes chosen found).slot request
      (.placeBet actor input)).copies = [] := by
  cases hn : PlaceBet.onUser build env actor input market outcomes chosen found with
  | reply r => rfl
  | goto phase =>
    obtain ⟨user, bet, backed, priced, -, -, rfl⟩ := PlaceBet.onUser_goto hn
    rfl

theorem PlaceBet.read_keeps {actor : Actor} {input : NewBet} {phase : PlaceBet.Phase}
    {cache' : Cache} {next : Next PlaceBet.Phase} {request : Request}
    (hdb : ∀ u ∈ db.users.rows, P u) (hcache : ∀ key u, cache key = some u → P u)
    (hc : ∀ u ∈ (Call.placeBet actor input phase).copies, P u)
    (h : PlaceBet.read build env db cache actor input phase = some (cache', next)) :
    (∀ key u, cache' key = some u → P u) ∧
      ∀ u ∈ (next.slot request (.placeBet actor input)).copies, P u := by
  cases phase with
  | readOutcome =>
    cases h
    refine ⟨hcache, ?_⟩
    cases db.outcomeById input.outcomeId <;>
      simp [PlaceBet.onOutcome, Next.slot, Slot.copies, Call.copies]
  | readMarket outcome =>
    cases h
    refine ⟨hcache, ?_⟩
    cases db.marketById outcome.marketId with
    | none => simp [PlaceBet.onMarket, Next.slot, Slot.copies]
    | some m =>
      simp only [PlaceBet.onMarket]
      split <;> simp [Next.domainError, Next.slot, Slot.copies, Call.copies]
  | readOutcomes market =>
    cases h
    refine ⟨hcache, ?_⟩
    simp only [PlaceBet.onOutcomes]
    split <;> simp [Next.domainError, Next.slot, Slot.copies, Call.copies, Lookup.copies]
  | findUser market outcomes chosen lookup =>
    simp only [PlaceBet.read] at h
    cases ha : lookup.advance actor.userId env db cache with
    | mk cache₁ result =>
      obtain ⟨hkept, hnext, -⟩ := Lookup.advance_keeps hdb hcache hc ha
      cases result with
      | inl l =>
        simp only [ha, Option.some.injEq, Prod.mk.injEq] at h
        obtain ⟨rfl, rfl⟩ := h
        exact ⟨hkept, hnext l rfl⟩
      | inr found =>
        simp only [ha, Option.some.injEq, Prod.mk.injEq] at h
        obtain ⟨rfl, rfl⟩ := h
        refine ⟨hkept, ?_⟩
        rw [PlaceBet.onUser_copies]
        simp
  | place market user bet priced chosen points => simp [PlaceBet.read] at h
  | readPosition market user bet priced chosen =>
    cases h
    exact ⟨hcache, by simp [Next.slot, Slot.copies]⟩

theorem ResolveMarket.slot_copies {actor : Actor} {marketId : MarketId} {winner : OutcomeId}
    {next : Next ResolveMarket.Phase} {request : Request} :
    (next.slot request (.resolveMarket actor marketId winner)).copies = [] := by
  cases next <;> rfl

theorem ResolveMarket.read_cache {marketId : MarketId} {winner : OutcomeId}
    {phase : ResolveMarket.Phase} {cache' : Cache} {next : Next ResolveMarket.Phase}
    (h : ResolveMarket.read env db cache marketId winner phase = some (cache', next)) :
    cache' = cache := by
  cases phase <;> simp only [ResolveMarket.read] at h
  case readActive market outcomes =>
    split at h
    · simp only [Option.some.injEq, Prod.mk.injEq] at h
      exact h.1.symm
    · simp at h
  all_goals simp_all

theorem ProfileJob.onUser_keeps (hedit : EditsKeep P) {job : ProfileJob} {found : Option User}
    {request : Request}
    (hu : ∀ u, found = some u → P u) :
    ∀ u ∈ ((job.onUser build env found).slot request (.profile job)).copies, P u := by
  cases found with
  | none => cases job <;> simp [ProfileJob.onUser, Next.slot, Slot.copies]
  | some user =>
    have huser := hu user rfl
    cases job with
    | uploadAvatar userId contentType bytes =>
      simpa [ProfileJob.onUser, Next.slot, Slot.copies, Call.copies] using huser
    | updateUser userId role =>
      cases role with
      | none => simpa [ProfileJob.onUser, Next.slot, Slot.copies, Call.copies] using huser
      | some role =>
        have hset := hedit.setRole user role env.now huser
        simpa [ProfileJob.onUser, Next.slot, Slot.copies, Call.copies] using hset
    | topUp userId bot amount =>
      simp only [ProfileJob.onUser]
      split
      · simp [Next.slot, Slot.copies]
      · cases hs : sub64 build (max User.startingBalance amount) user.balance with
        | error p => simp [Next.slot, Slot.copies]
        | ok missing =>
          cases hcr : user.credit missing env.now with
          | error e => simp [hcr, Next.domainError, Next.slot, Slot.copies]
          | ok u' =>
            simpa [hcr, Next.slot, Slot.copies, Call.copies] using
              hedit.credit user u' missing env.now huser hcr

theorem ProfileJob.read_keeps (hedit : EditsKeep P) {job : ProfileJob} {phase : ProfileJob.Phase}
    {cache' : Cache}
    {next : Next ProfileJob.Phase} {request : Request} (hdb : ∀ u ∈ db.users.rows, P u)
    (hcache : ∀ key u, cache key = some u → P u)
    (hc : ∀ u ∈ (Call.profile job phase).copies, P u)
    (h : ProfileJob.read build env db cache job phase = some (cache', next)) :
    (∀ key u, cache' key = some u → P u) ∧
      ∀ u ∈ (next.slot request (.profile job)).copies, P u := by
  cases phase with
  | findUser lookup =>
    simp only [ProfileJob.read] at h
    cases ha : lookup.advance job.userId env db cache with
    | mk cache₁ result =>
      obtain ⟨hkept, hnext, hfound⟩ := Lookup.advance_keeps hdb hcache hc ha
      cases result with
      | inl l =>
        simp only [ha, Option.some.injEq, Prod.mk.injEq] at h
        obtain ⟨rfl, rfl⟩ := h
        exact ⟨hkept, hnext l rfl⟩
      | inr found =>
        simp only [ha, Option.some.injEq, Prod.mk.injEq] at h
        obtain ⟨rfl, rfl⟩ := h
        refine ⟨hkept, ProfileJob.onUser_keeps hedit fun u hu => hfound u ?_⟩
        rw [hu]
  | store user =>
    cases h
    have huser := hc user (by simp [Call.copies])
    have hset := hedit.setAvatarUrl user (some env.url) env.now huser
    exact ⟨hcache, by simpa [ProfileJob.onStored, Next.slot, Slot.copies, Call.copies] using hset⟩
  | save cause user => simp [ProfileJob.read] at h
  | refresh user =>
    cases h
    have huser := hc user (by simp [Call.copies])
    exact ⟨cache_put_keeps hcache huser, by simp [Next.slot, Slot.copies]⟩

theorem Call.read_keeps (hedit : EditsKeep P) {call : Call} {cache' : Cache} {slot : Slot}
    (hdb : ∀ u ∈ db.users.rows, P u) (hcache : ∀ key u, cache key = some u → P u)
    (hc : ∀ u ∈ call.copies, P u)
    (h : call.read build env db cache = some (cache', slot)) :
    (∀ key u, cache' key = some u → P u) ∧ ∀ u ∈ slot.copies, P u := by
  cases call with
  | createMarket actor input prepared => simp [Call.read] at h
  | placeBet actor input phase =>
    simp only [Call.read, Option.map_eq_some_iff] at h
    obtain ⟨⟨cache₁, next⟩, hr, heq⟩ := h
    cases heq
    exact PlaceBet.read_keeps hdb hcache hc hr
  | resolveMarket actor marketId winner phase =>
    simp only [Call.read, Option.map_eq_some_iff] at h
    obtain ⟨⟨cache₁, next⟩, hr, heq⟩ := h
    cases heq
    rw [ResolveMarket.read_cache hr, ResolveMarket.slot_copies]
    exact ⟨hcache, by simp⟩
  | profile job phase =>
    simp only [Call.read, Option.map_eq_some_iff] at h
    obtain ⟨⟨cache₁, next⟩, hr, heq⟩ := h
    cases heq
    exact ProfileJob.read_keeps hedit hdb hcache hc hr

end Calls

theorem Request.begin_copies (build : Build) (env : Env) (request : Request) :
    (request.begin build env).copies = [] := by
  cases request with
  | createMarket actor input =>
    simp only [Request.begin]
    cases CreateMarket.prepare build env actor input <;> rfl
  | placeBet actor input => rfl
  | resolveMarket actor marketId winner =>
    simp only [Request.begin]
    split <;> rfl
  | profile job =>
    simp only [Request.begin]
    split <;> rfl

theorem Call.written_copies {call : Call} {result : Except RepositoryError Unit} :
    (call.written result).copies ⊆ call.copies := by
  cases call with
  | createMarket actor input prepared =>
    cases result <;> simp [Call.written, CreateMarket.written, Next.slot, Slot.copies]
  | placeBet actor input phase =>
    cases phase <;> cases result <;>
      simp [Call.written, PlaceBet.written, PlaceBet.onPlaced, Next.slot, Slot.copies, Call.copies]
  | resolveMarket actor marketId winner phase =>
    rw [Call.written, ResolveMarket.slot_copies]
    simp
  | profile job phase =>
    cases phase <;> cases result <;>
      simp [Call.written, ProfileJob.written, ProfileJob.onSaved, Next.slot, Slot.copies,
        Call.copies]

theorem Call.save_copies {env : Env} {call : Call} {cause : SaveCause} {user : User}
    (h : call.write? env = some (.save cause user)) : user ∈ call.copies := by
  cases call with
  | createMarket actor input prepared => simp [Call.write?, CreateMarket.write?] at h
  | placeBet actor input phase =>
    cases phase <;> simp [Call.write?, PlaceBet.write?] at h
  | resolveMarket actor marketId winner phase =>
    cases phase <;> simp [Call.write?, ResolveMarket.write?] at h
  | profile job phase =>
    cases phase <;> simp [Call.write?, ProfileJob.write?] at h
    simp [Call.copies, h.2]

theorem Sys.AllCopies.saved {P : User → Prop} {s : Sys} {a : Act} {w : Write}
    (h : s.AllCopies P) (hnew : ∀ id username email hash now,
    P (User.new id username email hash now))
    (hc : s.Commits a w) {cause : SaveCause} {user : User} (hw : w = .save cause user) :
    P user := by
  subst hw
  rcases hc with hwrite | ⟨id, username, email, hash, now, -, -, hreg⟩
  · cases a with
    | step i env =>
      simp only [Sys.writing?] at hwrite
      split at hwrite
      · rename_i call hcall
        exact h.copied _ (List.mem_of_getElem? hcall) user (Call.save_copies hwrite)
      · simp at hwrite
    | _ => simp [Sys.writing?] at hwrite
  · cases hreg
    exact hnew id username email hash now

/-- One action keeps `P` of all copies when it keeps `P` of the stored rows. Where `P`
refers to the tables, `P'` is the same predicate after the action. -/
theorem Sys.AllCopies.effect {P P' : User → Prop} {build : Build} {s s' : Sys} {a : Act}
    (hedit : EditsKeep P) (himp : ∀ u, P u → P' u) (h : s.AllCopies P)
    (hstored : ∀ u ∈ s'.db.users.rows, P' u) (he : Sys.Effect build s a s') :
    s'.AllCopies P' := by
  have hcached : ∀ key u, s.cache key = some u → P' u := fun key u hu => himp u (h.cached key u hu)
  have hcopied : ∀ slot ∈ s.calls, ∀ u ∈ slot.copies, P' u :=
    fun slot hslot u hu => himp u (h.copied slot hslot u hu)
  have hwritten : ∀ {i : Nat} {call : Call} (result : Except RepositoryError Unit),
      s.calls[i]? = some (.running call) → ∀ u ∈ (call.written result).copies, P' u :=
    fun result hcall u hu => hcopied _ (List.mem_of_getElem? hcall) u (Call.written_copies hu)
  cases he with
  | started request env =>
    refine ⟨hstored, hcached, fun slot hslot => ?_⟩
    rcases List.mem_append.mp hslot with hslot | hslot
    · exact hcopied slot hslot
    · rw [List.mem_singleton.mp hslot, Request.begin_copies]
      simp
  | read i env call cache slot hcall hread hr =>
    obtain ⟨hcache, hslot⟩ := Call.read_keeps hedit h.stored h.cached
      (h.copied _ (List.mem_of_getElem? hcall)) hr
    exact ⟨hstored, fun key u hu => himp u (hcache key u hu),
      Sys.forall_set hcopied fun u hu => himp u (hslot u hu)⟩
  | committed i env call w db hcall hwrite hc =>
    exact ⟨hstored, hcached, Sys.forall_set hcopied (hwritten _ hcall)⟩
  | refused i env call w e hcall hwrite hc =>
    exact ⟨hstored, hcached, Sys.forall_set hcopied (hwritten _ hcall)⟩
  | failed i message call hcall =>
    exact ⟨hstored, hcached, Sys.forall_set hcopied (by simp [Slot.copies])⟩
  | registered id username email hash now db hfresh hc => exact ⟨hstored, hcached, hcopied⟩
  | evicted userId hev =>
    exact ⟨hstored, fun key u hu => hcached key u (Cache.delete_some hu), hcopied⟩
  | expired key =>
    exact ⟨hstored, fun k u hu => hcached k u (Cache.delete_some hu), hcopied⟩

end Betsphere
