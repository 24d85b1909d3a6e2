import Betsphere.Domain.Credentials
import Betsphere.Domain.Names
import Betsphere.System.Admins
set_option autoImplicit false

namespace Betsphere

structure AccessClaims where
  userId : UserId
  role : Role
  deriving DecidableEq

def Actor.ofClaims (claims : AccessClaims) : Actor := ⟨claims.userId, claims.role⟩

structure Claims where
  sub : Uuid
  role : Text
  iat : Int
  exp : Int
  deriving DecidableEq

/-- `decode` is the check of the signature and of the shape of the payload. -/
structure JwtAccessTokens where
  encode : Claims → Except String Text
  decode : Text → Option Claims
  ttl : Int

def DateTime.timestamp (t : DateTime) : Int := t / 1000000

theorem Role.fromStr_admin {text : Text} (h : Role.fromStr text = .ok .admin) :
    text = "admin".toList := by
  unfold Role.fromStr fromName at h
  split at h
  · rename_i name hname
    have hmem := List.mem_of_find?_eq_some hname
    have htext := List.find?_some hname
    simp only [List.mem_cons, List.not_mem_nil, or_false] at hmem
    rcases hmem with rfl | rfl
    · simp at h
    · exact (of_decide_eq_true htext).symm
  · simp at h

namespace JwtAccessTokens

def claims (jwt : JwtAccessTokens) (userId : UserId) (role : Role) (now : DateTime) : Claims where
  sub := userId.uuid
  role := role.asStr
  iat := DateTime.timestamp now
  exp := DateTime.timestamp (now + jwt.ttl)

def issue (jwt : JwtAccessTokens) (userId : UserId) (role : Role) (now : DateTime) :
    Except AuthPortError Text :=
  match jwt.encode (jwt.claims userId role now) with
  | .error e => .error (.internal ("jwt signing failed: " ++ e))
  | .ok token => .ok token

/-- The seconds `Validation::default()` allows a clock to lag. -/
def leeway : Int := 60

def verify (jwt : JwtAccessTokens) (now : DateTime) (token : Text) :
    Except AuthPortError AccessClaims :=
  match jwt.decode token with
  | none => .error .invalidToken
  | some claims =>
    if claims.exp < DateTime.timestamp now - leeway then .error .invalidToken
    else
      match Role.fromStr claims.role with
      | .error _ => .error .invalidToken
      | .ok role => .ok ⟨⟨claims.sub⟩, role⟩

/-- What was signed decodes to what was signed. -/
def Signs (jwt : JwtAccessTokens) : Prop :=
  ∀ claims token, jwt.encode claims = .ok token → jwt.decode token = some claims

theorem verify_ok {jwt : JwtAccessTokens} {now : DateTime} {token : Text} {accepted : AccessClaims}
    (h : jwt.verify now token = .ok accepted) :
    ∃ claims, jwt.decode token = some claims ∧
      DateTime.timestamp now ≤ claims.exp + leeway ∧ claims.sub = accepted.userId.uuid ∧
      Role.fromStr claims.role = .ok accepted.role := by
  unfold verify at h
  cases hd : jwt.decode token with
  | none => simp [hd] at h
  | some claims =>
    simp only [hd] at h
    split at h
    · simp at h
    · rename_i hexp
      cases hr : Role.fromStr claims.role with
      | error e => simp [hr] at h
      | ok role =>
        simp only [hr, Except.ok.injEq] at h
        subst h
        exact ⟨claims, rfl, by omega, rfl, hr⟩

theorem issue_ok {jwt : JwtAccessTokens} {userId : UserId} {role : Role} {now : DateTime}
    {token : Text} (h : jwt.issue userId role now = .ok token) :
    jwt.encode (jwt.claims userId role now) = .ok token := by
  unfold issue at h
  cases he : jwt.encode (jwt.claims userId role now) with
  | error e => simp [he] at h
  | ok signed =>
    simp only [he, Except.ok.injEq] at h
    rw [h]

theorem verify_issued {jwt : JwtAccessTokens} (hsigns : jwt.Signs) {userId : UserId} {role : Role}
    {issuedAt now : DateTime} {token : Text} {accepted : AccessClaims}
    (hissue : jwt.issue userId role issuedAt = .ok token)
    (h : jwt.verify now token = .ok accepted) :
    accepted = ⟨userId, role⟩ ∧
      DateTime.timestamp now ≤ DateTime.timestamp (issuedAt + jwt.ttl) + leeway := by
  obtain ⟨claims, hd, hexp, hsub, hrole⟩ := verify_ok h
  rw [hsigns _ _ (issue_ok hissue), Option.some.injEq] at hd
  subst hd
  have hparsed : accepted.role = role := by
    have hsame := (Role.fromStr_asStr role).symm.trans hrole
    exact (Except.ok.inj hsame).symm
  have hid : accepted.userId = userId := congrArg UserId.mk hsub.symm
  refine ⟨?_, hexp⟩
  rw [← hparsed, ← hid]

end JwtAccessTokens

def bearerToken (authorization : Option Text) : Option Text :=
  authorization.bind fun value => "Bearer ".toList.isPrefixOf? value

/-- The extractor `CurrentUser`. A header that is not text is no header here. -/
def currentUser (jwt : JwtAccessTokens) (now : DateTime) (authorization : Option Text) :
    Except ApplicationError AccessClaims :=
  match bearerToken authorization with
  | none => .error (.unauthorized "missing bearer token")
  | some token =>
    match jwt.verify now token with
    | .error e => .error (.ofAuthPort e)
    | .ok claims => .ok claims

theorem currentUser_ok {jwt : JwtAccessTokens} {now : DateTime} {authorization : Option Text}
    {claims : AccessClaims} (h : currentUser jwt now authorization = .ok claims) :
    ∃ token, bearerToken authorization = some token ∧ jwt.verify now token = .ok claims := by
  unfold currentUser at h
  cases hb : bearerToken authorization with
  | none => simp [hb] at h
  | some token =>
    cases hv : jwt.verify now token with
    | error e => simp [hb, hv] at h
    | ok accepted =>
      simp only [hb, hv, Except.ok.injEq] at h
      exact ⟨token, rfl, by rw [hv, h]⟩

def asBytes (text : Text) : List UInt8 := (String.ofList text).toUTF8.data.toList

theorem asBytes_injective {s t : Text} (h : asBytes s = asBytes t) : s = t := by
  have hdata := Array.toList_inj.mp h
  have hutf8 : (String.ofList s).toUTF8 = (String.ofList t).toUTF8 := ByteArray.ext hdata
  exact String.ofList_injective (String.toByteArray_inj.mp hutf8)

def constantTimeEq (a b : List UInt8) : Bool :=
  if a.length ≠ b.length then false
  else (a.zip b).foldl (fun acc xy => acc ||| (xy.1 ^^^ xy.2)) 0 = 0

theorem foldl_xor_eq_zero {a b : List UInt8} (hlen : a.length = b.length) (acc : UInt8) :
    (a.zip b).foldl (fun acc xy => acc ||| (xy.1 ^^^ xy.2)) acc = 0 ↔ acc = 0 ∧ a = b := by
  induction a generalizing b acc with
  | nil =>
    cases b with
    | nil => simp
    | cons y ys => simp at hlen
  | cons x xs ih =>
    cases b with
    | nil => simp at hlen
    | cons y ys =>
      have hrest : xs.length = ys.length := by simpa using hlen
      rw [List.zip_cons_cons, List.foldl_cons, ih hrest, UInt8.or_eq_zero_iff,
        UInt8.xor_eq_zero_iff, List.cons.injEq, and_assoc]

theorem constantTimeEq_iff {a b : List UInt8} : constantTimeEq a b = true ↔ a = b := by
  unfold constantTimeEq
  split
  · rename_i hlen
    constructor
    · simp
    · rintro rfl
      exact absurd rfl hlen
  · rename_i hlen
    rw [decide_eq_true_iff, foldl_xor_eq_zero (not_not.mp hlen)]
    simp

def internalAuth (apiKey header : Option Text) : Except ApplicationError Unit :=
  match apiKey with
  | none => .error (.forbidden "internal API is disabled")
  | some expected =>
    match header with
    | none => .error (.forbidden "missing or malformed internal API key")
    | some provided =>
      if constantTimeEq (asBytes provided) (asBytes expected) then .ok ()
      else .error (.forbidden "invalid internal API key")

theorem internalAuth_ok {apiKey header : Option Text} :
    internalAuth apiKey header = .ok () ↔ ∃ key, apiKey = some key ∧ header = some key := by
  cases apiKey with
  | none => simp [internalAuth]
  | some expected =>
    cases header with
    | none => simp [internalAuth]
    | some provided =>
      have heq : constantTimeEq (asBytes provided) (asBytes expected) = true ↔
          provided = expected := by
        rw [constantTimeEq_iff]
        exact ⟨asBytes_injective, fun h => by rw [h]⟩
      simp only [internalAuth]
      split
      · rename_i hkey
        obtain rfl := heq.mp hkey
        simp
      · rename_i hkey
        have hne : ¬provided = expected := fun h => hkey (heq.mpr h)
        simpa using hne

def UpdateUserRequest.intoInput (role : Option Text) : Except DomainError (Option Role) :=
  match role with
  | none => .ok none
  | some r =>
    match Role.fromStr r with
    | .error e => .error e
    | .ok role => .ok (some role)

/-- The routes behind `CurrentUser` whose calls the system runs. -/
inductive Route where
  | createMarket (input : NewMarket)
  | resolveMarket (id : MarketId) (winningOutcomeId : OutcomeId)
  | placeBet (input : NewBet)
  | uploadAvatar (contentType : String) (bytes : List UInt8)

def Route.request (claims : AccessClaims) : Route → Request
  | .createMarket input => .createMarket (.ofClaims claims) input
  | .resolveMarket id winningOutcomeId =>
    .resolveMarket (.ofClaims claims) id winningOutcomeId
  | .placeBet input => .placeBet (.ofClaims claims) input
  | .uploadAvatar contentType bytes => .profile (.uploadAvatar claims.userId contentType bytes)

structure ApiConfig where
  jwt : JwtAccessTokens
  internalApiKey : Option Text

/-- An access token, the copy of the user it was signed for, and when. -/
structure Issued where
  token : Text
  user : User
  issuedAt : DateTime

/-- `held` are the copies of users that registrations, logins and refreshes work with. -/
structure Api where
  sys : Sys
  held : List User
  issued : List Issued

def Api.init : Api := ⟨.init, [], []⟩

/-- Where the lookup of a login or a refresh is answered from. -/
inductive UserSource where
  | cache
  | table

def UserSource.find (sys : Sys) (key : CacheKey) : UserSource → Option User
  | .cache => sys.cache key
  | .table => sys.db.users.rows.find? fun u => decide (key ∈ userKeys u)

inductive ApiAct where
  | call (authorization : Option Text) (route : Route) (env : Env)
  | updateUser (internalKey : Option Text) (id : UserId) (role : Option Text) (env : Env)
  | register (id : UserId) (username : Username) (email : Email) (passwordHash : PasswordHash)
      (now : DateTime)
  | find (key : CacheKey) (source : UserSource)
  | put (i : Nat) (redisUp : Bool)
  | issue (i : Nat) (now : DateTime)
  | step (i : Nat) (env : Env)
  | fail (i : Nat) (message : String)
  | evict (userId : UserId)
  | expire (key : CacheKey)

namespace Api

def within (api : Api) (sys : Option Sys) : Option Api := sys.map fun sys => { api with sys }

/-- A rejected request is answered at once and starts nothing. -/
def step (config : ApiConfig) (build : MachineInt.Build) (api : Api) : ApiAct → Option Api
  | .call authorization route env =>
    match currentUser config.jwt env.now authorization with
    | .error _ => some api
    | .ok claims => api.within (api.sys.step build (.start (route.request claims) env))
  | .updateUser internalKey id role env =>
    match internalAuth config.internalApiKey internalKey with
    | .error _ => some api
    | .ok () =>
      match UpdateUserRequest.intoInput role with
      | .error _ => some api
      | .ok role => api.within (api.sys.step build (.start (.profile (.updateUser id role)) env))
  | .register id username email passwordHash now =>
    (api.within (api.sys.step build (.register id username email passwordHash now))).map fun api =>
      { api with held := api.held ++ [User.new id username email passwordHash now] }
  | .find key source =>
    (source.find api.sys key).map fun u => { api with held := api.held ++ [u] }
  | .put i redisUp =>
    api.held[i]?.map fun u =>
      { api with sys := { api.sys with cache := api.sys.cache.put redisUp u } }
  | .issue i now =>
    match api.held[i]? with
    | none => none
    | some u =>
      match config.jwt.issue u.id u.role now with
      | .error _ => some api
      | .ok token => some { api with issued := ⟨token, u, now⟩ :: api.issued }
  | .step i env => api.within (api.sys.step build (.step i env))
  | .fail i message => api.within (api.sys.step build (.fail i message))
  | .evict userId => api.within (api.sys.step build (.evict userId))
  | .expire key => api.within (api.sys.step build (.expire key))

end Api

/-- A presented token that decodes was signed here. -/
def Unforged (config : ApiConfig) (api : Api) (authorization : Option Text) : Prop :=
  ∀ token ∈ bearerToken authorization, (config.jwt.decode token).isSome →
    token ∈ api.issued.map Issued.token

instance (config : ApiConfig) (api : Api) (authorization : Option Text) :
    Decidable (Unforged config api authorization) :=
  inferInstanceAs (Decidable (∀ token ∈ bearerToken authorization,
    (config.jwt.decode token).isSome → token ∈ api.issued.map Issued.token))

def ApiAct.authorization? : ApiAct → Option Text
  | .call authorization _ _ => authorization
  | _ => none

/-- Whom an action of the holder of the internal key makes an admin. -/
def ApiAct.grants (config : ApiConfig) : ApiAct → Option UserId
  | .updateUser internalKey id role _ =>
    if internalKey.isSome ∧ internalKey = config.internalApiKey ∧ role = some "admin".toList then
      some id
    else none
  | _ => none

def grantedBy (config : ApiConfig) (acts : List ApiAct) : List UserId :=
  acts.filterMap (ApiAct.grants config)

def Call.manager? : Call → Option Actor
  | .createMarket actor _ _ => some actor
  | .resolveMarket actor _ _ _ => some actor
  | _ => none

structure Api.Inv (config : ApiConfig) (granted : UserId → Prop) (api : Api) : Prop where
  wf : api.sys.Wf
  sys : api.sys.Granted granted
  held : ∀ u ∈ api.held, u.Granted granted
  issued : ∀ x ∈ api.issued, x.user.Granted granted ∧
    config.jwt.issue x.user.id x.user.role x.issuedAt = .ok x.token
  markets : api.sys.db.markets.rows ≠ [] → ∃ id, granted id

section Steps
variable {config : ApiConfig} {build : MachineInt.Build} {granted : UserId → Prop} {api : Api}

theorem Api.inv_init : Api.init.Inv config granted where
  wf := Sys.wf_init
  sys := Sys.granted_init
  held := by simp [Api.init]
  issued := by simp [Api.init]
  markets := fun h => absurd rfl h

theorem Api.Inv.mono {granted' : UserId → Prop} (h : api.Inv config granted)
    (himp : ∀ id, granted id → granted' id) : api.Inv config granted' where
  wf := h.wf
  sys := h.sys.mono himp
  held := fun u hu hrole => himp _ (h.held u hu hrole)
  issued := fun x hx => ⟨fun hrole => himp _ ((h.issued x hx).1 hrole), (h.issued x hx).2⟩
  markets := fun hne => (h.markets hne).imp himp

theorem Api.Inv.accepted (h : api.Inv config granted) (hsigns : config.jwt.Signs)
    {authorization : Option Text} (hun : Unforged config api authorization) {now : DateTime}
    {claims : AccessClaims} (hc : currentUser config.jwt now authorization = .ok claims) :
    ∃ x ∈ api.issued, claims = ⟨x.user.id, x.user.role⟩ ∧
      (claims.role = .admin → granted claims.userId) ∧
      DateTime.timestamp now ≤
        DateTime.timestamp (x.issuedAt + config.jwt.ttl) + JwtAccessTokens.leeway := by
  obtain ⟨token, hb, hv⟩ := currentUser_ok hc
  obtain ⟨payload, hd, -⟩ := JwtAccessTokens.verify_ok hv
  obtain ⟨x, hx, hxt⟩ := List.mem_map.mp (hun token hb (by rw [hd]; rfl))
  obtain ⟨hgranted, hissue⟩ := h.issued x hx
  rw [hxt] at hissue
  obtain ⟨rfl, hlate⟩ := JwtAccessTokens.verify_issued hsigns hissue hv
  exact ⟨x, hx, rfl, hgranted, hlate⟩

theorem Api.Inv.sys_step {sys : Sys} {a : Act} (h : api.Inv config granted)
    (hstart : ∀ request env, a = .start request env → request.Granted granted)
    (hs : api.sys.step build a = some sys) : ({ api with sys } : Api).Inv config granted where
  wf := h.wf.effect (Sys.step_effect hs)
  sys := h.sys.effect h.wf hstart (Sys.step_effect hs)
  held := h.held
  issued := h.issued
  markets := h.sys.markets_effect h.wf h.markets (Sys.step_effect hs)

theorem Api.within_some {api' : Api} {sys : Option Sys} (h : api.within sys = some api') :
    ∃ next, sys = some next ∧ api' = { api with sys := next } := by
  obtain ⟨next, hs, heq⟩ := Option.map_eq_some_iff.mp h
  exact ⟨next, hs, heq.symm⟩

theorem Route.request_granted {claims : AccessClaims} (route : Route)
    (h : claims.role = .admin → granted claims.userId) :
    (route.request claims).Granted granted := by
  cases route with
  | createMarket input => exact h
  | resolveMarket id winningOutcomeId => exact h
  | placeBet input => trivial
  | uploadAvatar contentType bytes => trivial

theorem UserSource.find_granted {source : UserSource} {key : CacheKey} {u : User}
    (h : api.sys.Granted granted) (hu : source.find api.sys key = some u) : u.Granted granted := by
  cases source with
  | cache => exact h.cached key u hu
  | table => exact h.stored u (List.mem_of_find?_eq_some hu)

theorem ApiAct.updateUser_granted {internalKey : Option Text} {id : UserId} {role : Option Text}
    {env : Env} {parsed : Option Role}
    (hauth : internalAuth config.internalApiKey internalKey = .ok ())
    (hinput : UpdateUserRequest.intoInput role = .ok parsed) :
    (Request.profile (.updateUser id parsed)).Granted fun i =>
      granted i ∨ (ApiAct.updateUser internalKey id role env).grants config = some i := by
  cases parsed with
  | none => trivial
  | some parsed =>
    cases parsed with
    | user => trivial
    | admin =>
      obtain ⟨key, hkey, hheader⟩ := internalAuth_ok.mp hauth
      have hrole : role = some "admin".toList := by
        cases role with
        | none => simp [UpdateUserRequest.intoInput] at hinput
        | some text =>
          simp only [UpdateUserRequest.intoInput] at hinput
          cases hr : Role.fromStr text with
          | error e => simp [hr] at hinput
          | ok found =>
            simp only [hr, Except.ok.injEq, Option.some.injEq] at hinput
            subst hinput
            rw [Role.fromStr_admin hr]
      refine .inr ?_
      simp [ApiAct.grants, hkey, hheader, hrole]

theorem Api.Inv.step (h : api.Inv config granted) (hsigns : config.jwt.Signs) {act : ApiAct}
    (hun : Unforged config api act.authorization?) {api' : Api}
    (hs : api.step config build act = some api') :
    api'.Inv config fun id => granted id ∨ act.grants config = some id := by
  have hkept : api.Inv config fun id => granted id ∨ act.grants config = some id :=
    h.mono fun id hid => .inl hid
  cases act with
  | call authorization route env =>
    simp only [Api.step] at hs
    cases hc : currentUser config.jwt env.now authorization with
    | error e =>
      simp only [hc, Option.some.injEq] at hs
      exact hs ▸ hkept
    | ok claims =>
      simp only [hc] at hs
      obtain ⟨sys, hsys, rfl⟩ := Api.within_some hs
      obtain ⟨x, -, -, hadmin, -⟩ := hkept.accepted hsigns hun hc
      refine hkept.sys_step (fun request env' heq => ?_) hsys
      cases heq
      exact route.request_granted hadmin
  | updateUser internalKey id role env =>
    simp only [Api.step] at hs
    cases hauth : internalAuth config.internalApiKey internalKey with
    | error e =>
      simp only [hauth, Option.some.injEq] at hs
      exact hs ▸ hkept
    | ok done =>
      cases hinput : UpdateUserRequest.intoInput role with
      | error e =>
        simp only [hauth, hinput, Option.some.injEq] at hs
        exact hs ▸ hkept
      | ok parsed =>
        simp only [hauth, hinput] at hs
        obtain ⟨sys, hsys, rfl⟩ := Api.within_some hs
        refine hkept.sys_step (fun request env' heq => ?_) hsys
        cases heq
        exact ApiAct.updateUser_granted hauth hinput
  | register id username email passwordHash now =>
    simp only [Api.step] at hs
    obtain ⟨api₁, hw, rfl⟩ := Option.map_eq_some_iff.mp hs
    obtain ⟨sys, hsys, rfl⟩ := Api.within_some hw
    have hnext := hkept.sys_step (fun request env heq => by cases heq) hsys
    refine { hnext with held := fun u hu => ?_ }
    rcases List.mem_append.mp hu with hu | hu
    · exact hkept.held u hu
    · obtain rfl := List.mem_singleton.mp hu
      intro hrole
      cases hrole
  | find key source =>
    simp only [Api.step] at hs
    obtain ⟨found, hfound, rfl⟩ := Option.map_eq_some_iff.mp hs
    refine { hkept with held := fun u hu => ?_ }
    rcases List.mem_append.mp hu with hu | hu
    · exact hkept.held u hu
    · obtain rfl := List.mem_singleton.mp hu
      exact UserSource.find_granted hkept.sys hfound
  | put i redisUp =>
    simp only [Api.step] at hs
    obtain ⟨u, hu, rfl⟩ := Option.map_eq_some_iff.mp hs
    have hcopy := hkept.held u (List.mem_of_getElem? hu)
    refine { hkept with wf := ⟨hkept.wf.db, hkept.wf.calls⟩, sys := ?_ }
    exact { hkept.sys with
      keyed := hkept.sys.keyed.put redisUp u
      cached := cache_put_keeps hkept.sys.cached hcopy }
  | issue i now =>
    simp only [Api.step] at hs
    cases hu : api.held[i]? with
    | none => simp [hu] at hs
    | some u =>
      cases hissue : config.jwt.issue u.id u.role now with
      | error e =>
        simp only [hu, hissue, Option.some.injEq] at hs
        exact hs ▸ hkept
      | ok token =>
        simp only [hu, hissue, Option.some.injEq] at hs
        subst hs
        refine { hkept with issued := fun x hx => ?_ }
        rcases List.mem_cons.mp hx with rfl | hx
        · exact ⟨hkept.held u (List.mem_of_getElem? hu), hissue⟩
        · exact hkept.issued x hx
  | _ =>
    obtain ⟨sys, hsys, rfl⟩ := Api.within_some hs
    exact hkept.sys_step (fun request env heq => by cases heq) hsys

end Steps

section Runs
open Transition
variable {config : ApiConfig} {build : MachineInt.Build}

theorem Api.Inv.run (hsigns : config.jwt.Signs) {acts : List ApiAct} {granted : List UserId}
    {api api' : Api} (h : api.Inv config (· ∈ granted))
    (hun : Guarded (Api.step config build)
      (fun api act => Unforged config api act.authorization?) api acts)
    (hr : Transition.run (Api.step config build) api acts = some api') :
    api'.Inv config (· ∈ granted ++ grantedBy config acts) := by
  induction acts generalizing api granted with
  | nil =>
    cases hr
    exact h.mono fun id hid => List.mem_append_left _ hid
  | cons act acts ih =>
    obtain ⟨api₁, hs, hrest⟩ := run_cons_some hr
    have hstep := h.step hsigns hun.1 hs
    have hnext : api₁.Inv config (· ∈ granted ++ (act.grants config).toList) := by
      refine hstep.mono fun id hid => ?_
      rw [List.mem_append, Option.mem_toList]
      exact hid
    refine (ih hnext (hun.2 api₁ hs) hrest).mono fun id hid => ?_
    rw [List.append_assoc] at hid
    have hsplit : (act.grants config).toList ++ grantedBy config acts =
        grantedBy config (act :: acts) := by
      unfold grantedBy
      cases hg : act.grants config with
      | none => rw [List.filterMap_cons_none hg]; rfl
      | some id => rw [List.filterMap_cons_some hg]; rfl
    rwa [hsplit] at hid

theorem grantedBy_nil (hkey : config.internalApiKey = none) (acts : List ApiAct) :
    grantedBy config acts = [] := by
  refine List.filterMap_eq_nil_iff.mpr fun act _ => ?_
  cases act with
  | updateUser internalKey id role env =>
    rw [ApiAct.grants, hkey, if_neg]
    rintro ⟨hsome, hnone, -⟩
    rw [hnone] at hsome
    cases hsome
  | _ => rfl

/-- However the calls interleave and whatever the cache still holds, the admin role in the
table, in an accepted token and behind a call on a market goes back to an edit under the
internal key. -/
theorem authority_traced (hsigns : config.jwt.Signs) {acts : List ApiAct} {api : Api}
    (hun : Guarded (Api.step config build)
      (fun api act => Unforged config api act.authorization?) Api.init acts)
    (hr : Transition.run (Api.step config build) Api.init acts = some api) :
    (∀ u ∈ api.sys.db.users.rows, u.role = .admin → u.id ∈ grantedBy config acts) ∧
    (∀ call actor, .running call ∈ api.sys.calls → call.manager? = some actor →
      actor.role = .admin ∧ actor.userId ∈ grantedBy config acts) ∧
    (api.sys.db.markets.rows ≠ [] → grantedBy config acts ≠ []) ∧
    (∀ authorization now claims, Unforged config api authorization →
      currentUser config.jwt now authorization = .ok claims →
      ∃ x ∈ api.issued, claims = ⟨x.user.id, x.user.role⟩ ∧
        (claims.role = .admin → claims.userId ∈ grantedBy config acts) ∧
        DateTime.timestamp now ≤
          DateTime.timestamp (x.issuedAt + config.jwt.ttl) + JwtAccessTokens.leeway) ∧
    (config.internalApiKey = none →
      (∀ u ∈ api.sys.db.users.rows, u.role = .user) ∧ api.sys.db.markets.rows = []) := by
  have hnobody : Api.init.Inv config (· ∈ ([] : List UserId)) := Api.inv_init
  have hinv : api.Inv config (· ∈ grantedBy config acts) := hnobody.run hsigns hun hr
  have hmarkets : api.sys.db.markets.rows ≠ [] → grantedBy config acts ≠ [] := by
    intro hne
    obtain ⟨id, hid⟩ := hinv.markets hne
    exact List.ne_nil_of_mem hid
  refine ⟨hinv.sys.stored, fun call actor hcall hactor => ?_, hmarkets,
    fun authorization now claims hu hc => hinv.accepted hsigns hu hc, fun hkey => ?_⟩
  · have hgranted := hinv.sys.calls _ hcall
    cases call with
    | createMarket actor' input prepared =>
      cases hactor
      exact hgranted
    | resolveMarket actor' marketId winner phase =>
      cases hactor
      exact hgranted
    | placeBet actor' input phase => cases hactor
    | profile job phase => cases hactor
  · have hnobody := grantedBy_nil hkey acts
    refine ⟨fun u hu => ?_, ?_⟩
    · cases hrole : u.role with
      | user => rfl
      | admin =>
        have hmem := hinv.sys.stored u hu hrole
        rw [hnobody] at hmem
        exact absurd hmem List.not_mem_nil
    · by_contra hne
      exact hmarkets hne hnobody

end Runs

namespace Sample

def aliceTokens : JwtAccessTokens where
  encode := fun claims =>
    if claims = ⟨1, "admin".toList, 0, 900⟩ then .ok ['t'] else .error "no such payload"
  decode := fun token => if token = ['t'] then some ⟨1, "admin".toList, 0, 900⟩ else none
  ttl := 900000000

def aliceConfig : ApiConfig := ⟨aliceTokens, some ['k']⟩

/-- Alice is made an admin, signs in again and opens a market. -/
def promotion : List ApiAct :=
  [.register ⟨1⟩ alice ⟨alice.value⟩ ⟨[]⟩ 0,
    .updateUser (some ['k']) ⟨1⟩ (some "admin".toList) (env 1 0)] ++
  List.replicate 5 (.step 0 (env 2 0)) ++
  [.find (.id ⟨1⟩) .cache, .issue 1 2,
    .call (some "Bearer t".toList) (.createMarket rain) (env 3 100), .step 1 (env 3 100)]

def promoted : Api :=
  (Transition.run (Api.step aliceConfig .debug) Api.init promotion).getD Api.init

theorem run_promotion :
    Transition.run (Api.step aliceConfig .debug) Api.init promotion = some promoted := by
  have h : (Transition.run (Api.step aliceConfig .debug) Api.init promotion).isSome := by
    decide +kernel
  obtain ⟨api, hapi⟩ := Option.isSome_iff_exists.mp h
  simp [promoted, hapi]

theorem aliceTokens_signs : aliceTokens.Signs := by
  intro claims token h
  simp only [aliceTokens] at h
  split at h
  · rename_i hclaims
    cases h
    rw [hclaims]
    rfl
  · cases h

end Sample

theorem authority_traced_promotion :
    Sample.promoted.sys.db.markets.rows ≠ [] ∧
      grantedBy Sample.aliceConfig Sample.promotion = [⟨1⟩] ∧
      ∀ u ∈ Sample.promoted.sys.db.users.rows, u.role = .admin →
        u.id ∈ grantedBy Sample.aliceConfig Sample.promotion :=
  ⟨by decide +kernel, by decide +kernel,
    (authority_traced Sample.aliceTokens_signs (by decide +kernel) Sample.run_promotion).1⟩

end Betsphere
