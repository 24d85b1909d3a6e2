import Betsphere.Domain.Credentials
import Betsphere.Storage.Uploads
import Betsphere.System.Admins
set_option autoImplicit false

namespace Betsphere
open MachineInt

def Db.userByEmail (db : Db) (email : Email) : Option User :=
  db.users.rows.find? fun u => u.email = email

def Lookup.advanceEmail (email : Email) (env : Env) (db : Db) (cache : Cache) :
    Lookup → Cache × (Lookup ⊕ Option User)
  | .get =>
    match cache.get env.redisUp (.email email) with
    | some u => (cache, .inr (some u))
    | none => (cache, .inl .load)
  | .load =>
    match db.userByEmail email with
    | some u => (cache, .inl (.put u))
    | none => (cache, .inr none)
  | .put u => (cache.put env.redisUp u, .inr (some u))

structure Bot where
  name : String
  actor : Actor
  deriving DecidableEq

namespace Cast

def emailDomain : String := "bots.betsphere.invalid"

def hostName : String := "the_oracle"

def botNames : List String := [
  "hedge_hana", "long_leo", "short_sasha", "odds_omar", "delta_dana", "spread_sven",
  "chalk_chloe", "parlay_pia", "tilt_tomas", "arb_arjun", "punt_priya", "edge_elena",
  "fade_felix", "vega_vik", "yield_yuki", "moon_mika"]

/-- Whom `provision` asks for: the host, and of the others as many as are configured. -/
def names (bots : Nat) : List (String × Role) :=
  (hostName, .admin) :: (botNames.take (min (bots - 1) botNames.length)).map fun name =>
    (name, .user)

def botEmail (name : String) : Text := name.toList ++ '@' :: emailDomain.toList

inductive Phase where
  | find (email : Email) (lookup : Lookup)
  | save (email : Email) (user : User) (created : Bool)
  | refresh (user : User)
  deriving DecidableEq

end Cast

/-- A run of `provision` at the account of `name`: `bots` has been collected, `todo` is left. -/
structure Provision where
  size : Nat
  hash : PasswordHash
  bots : List Bot
  name : String
  role : Role
  todo : List (String × Role)
  phase : Cast.Phase
  deriving DecidableEq

inductive Provisioning where
  | running (p : Provision)
  | done (size : Nat) (bots : List Bot)
  | failed
  deriving DecidableEq

def Provisioning.bots : Provisioning → List Bot
  | .running p => p.bots
  | .done _ bots => bots
  | .failed => []

section Provisioning
variable (lowercase : Text → Text)

def Provisioning.begin (size : Nat) (hash : PasswordHash) (bots : List Bot) :
    List (String × Role) → Provisioning
  | [] => .done size bots
  | (name, role) :: todo =>
    match Email.new lowercase (Cast.botEmail name) with
    | .error _ => .failed
    | .ok email => .running ⟨size, hash, bots, name, role, todo, .find email .get⟩

/-- `provision` up to its first account: one hash of the configured password for them all. -/
def Provisioning.start (size : Nat) (botPassword : Text)
    (hasher : Password → Except AuthPortError PasswordHash) : Provisioning :=
  match Password.new botPassword with
  | .error _ => .failed
  | .ok password =>
    match hasher password with
    | .error _ => .failed
    | .ok hash => .begin lowercase size hash [] (Cast.names size)

namespace Provision

def recruit (p : Provision) (userId : UserId) : Provisioning :=
  .begin lowercase p.size p.hash (p.bots ++ [⟨p.name, ⟨userId, p.role⟩⟩]) p.todo

/-- An account that is there keeps everything but its role. -/
def onUser (env : Env) (p : Provision) (email : Email) : Option User → Provisioning
  | some user =>
    if user.role ≠ p.role then
      .running { p with phase := .save email (user.setRole p.role env.now) false }
    else p.recruit lowercase user.id
  | none =>
    match Username.new p.name.toList with
    | .error _ => .failed
    | .ok username =>
      let user := User.new ⟨env.fresh 0⟩ username email p.hash env.now
      .running { p with phase := .save email (user.setRole p.role env.now) true }

def read (env : Env) (db : Db) (cache : Cache) (p : Provision) : Option (Cache × Provisioning) :=
  match p.phase with
  | .find email lookup =>
    match lookup.advanceEmail email env db cache with
    | (cache, .inl lookup) => some (cache, .running { p with phase := .find email lookup })
    | (cache, .inr found) => some (cache, p.onUser lowercase env email found)
  | .save .. => none
  | .refresh user => some (cache.put env.redisUp user, p.recruit lowercase user.id)

end Provision

structure Troupe where
  sys : Sys
  runs : List Provisioning

inductive TroupeAct where
  | world (act : Act)
  | provision (size : Nat) (botPassword : Text)
      (hasher : Password → Except AuthPortError PasswordHash)
  | step (i : Nat) (env : Env)
  | fail (i : Nat)

namespace Troupe

def init : Troupe := ⟨.init, []⟩

def save (t : Troupe) (i : Nat) (p : Provision) (user : User) (created : Bool) (env : Env) :
    Option Troupe :=
  if created ∧ (t.sys.db.userById user.id).isSome then none
  else
    match pg.atomically (saveProgram user) env.txVars t.sys.db with
    | .error _ => some { t with runs := t.runs.set i .failed }
    | .ok db => some
      ⟨t.sys.commit (.save (if created then .registration else .role p.role) user) db,
        t.runs.set i (.running { p with phase := .refresh user })⟩

def step (build : Build) (t : Troupe) : TroupeAct → Option Troupe
  | .world act => (t.sys.step build act).map fun sys => { t with sys }
  | .provision size botPassword hasher => some
    { t with runs := t.runs ++ [.start lowercase size botPassword hasher] }
  | .step i env =>
    match t.runs[i]? with
    | some (.running p) =>
      match p.phase with
      | .save _ user created => t.save i p user created env
      | _ => (p.read lowercase env t.sys.db t.sys.cache).map fun r =>
        ⟨{ t.sys with cache := r.1 }, t.runs.set i r.2⟩
    | _ => none
  | .fail i =>
    match t.runs[i]? with
    | some (.running _) => some { t with runs := t.runs.set i .failed }
    | _ => none

end Troupe

end Provisioning

def Db.LoginsApart (db : Db) : Prop :=
  ∀ u ∈ db.users.rows, ∀ v ∈ db.users.rows, u.username = v.username ∨ u.email = v.email → u = v

/-- The hypothesis on `to_lowercase`: it changes no ASCII text without upper-case letters. -/
def Cast.KeepsLower (lowercase : Text → Text) : Prop :=
  ∀ s : Text, (∀ c ∈ s, c.toNat < 128 ∧ c.toLower = c) → lowercase s = s

def Cast.Addressed (lowercase : Text → Text) (name : String) (email : Email) : Prop :=
  Email.new lowercase (Cast.botEmail name) = .ok email

def Bot.Stored (lowercase : Text → Text) (db : Db) (b : Bot) : Prop :=
  ∃ u, db.userById b.actor.userId = some u ∧ Cast.Addressed lowercase b.name u.email

/-- What a run of `provision` knows of the table at each of its awaits. -/
def Cast.Phase.Held (lowercase : Text → Text) (db : Db) (name : String) : Cast.Phase → Prop
  | .find email lookup => Cast.Addressed lowercase name email ∧
    ∀ u ∈ lookup.copies, SameLogin db u ∧ u.email = email
  | .save email user created => Cast.Addressed lowercase name email ∧ user.email = email ∧
    (created = false → SameLogin db user) ∧ (created = true → user.username.value = name.toList)
  | .refresh user => Cast.Addressed lowercase name user.email ∧ SameLogin db user

def Provisioning.Held (lowercase : Text → Text) (db : Db) : Provisioning → Prop
  | .running p => (∀ b ∈ p.bots, b.Stored lowercase db) ∧ p.phase.Held lowercase db p.name ∧
    (p.bots.map fun b => (b.name, b.actor.role)) ++ (p.name, p.role) :: p.todo = Cast.names p.size
  | .done size bots => (∀ b ∈ bots, b.Stored lowercase db) ∧
    (bots.map fun b => (b.name, b.actor.role)) = Cast.names size
  | .failed => True

structure Troupe.Inv (lowercase : Text → Text) (t : Troupe) : Prop where
  wf : t.sys.Wf
  copies : t.sys.AllCopies (SameLogin t.sys.db)
  granted : t.sys.Granted fun _ => True
  apart : t.sys.db.LoginsApart
  runs : ∀ run ∈ t.runs, run.Held lowercase t.sys.db

/-! ### One address, one account -/

section Tables
variable {db db' : Db}

theorem Db.LoginsApart.map (h : db.LoginsApart) {f : User → User}
    (hrows : db'.users.rows = db.users.rows.map f)
    (hf : ∀ u, (f u).username = u.username ∧ (f u).email = u.email) : db'.LoginsApart := by
  intro u hu v hv heq
  rw [hrows] at hu hv
  obtain ⟨u₀, hu₀, rfl⟩ := List.mem_map.mp hu
  obtain ⟨v₀, hv₀, rfl⟩ := List.mem_map.mp hv
  rw [(hf u₀).1, (hf v₀).1, (hf u₀).2, (hf v₀).2] at heq
  rw [h u₀ hu₀ v₀ hv₀ heq]

theorem savedRow_login (db : Db) (user : User) :
    (db.savedRow user).username = user.username ∧ (db.savedRow user).email = user.email ∧
      (db.savedRow user).passwordHash = user.passwordHash := by
  unfold Db.savedRow
  split <;> exact ⟨rfl, rfl, rfl⟩

theorem Write.Done.loginsApart {w : Write} {now : DateTime} (h : w.Done db now db')
    (hapart : db.LoginsApart) : db'.LoginsApart := by
  cases h with
  | create market outcomes at' hen => exact hapart
  | place bet priced points hen =>
    refine hapart.map rfl fun u => ?_
    dsimp only
    split <;> exact ⟨rfl, rfl⟩
  | settle market settled hin =>
    refine hapart.map rfl fun u => ?_
    unfold paidRow
    split <;> exact ⟨rfl, rfl⟩
  | save cause user hun =>
    obtain ⟨hname, hemail, -⟩ := savedRow_login db user
    have hsaved : ∀ r ∈ db.users.rows, r.id ≠ (db.savedRow user).id →
        ¬(r.username = (db.savedRow user).username ∨ r.email = (db.savedRow user).email) := by
      intro r hr hid heq
      rw [savedRow_id] at hid
      rw [hname, hemail] at heq
      obtain ⟨hname', hemail'⟩ := uniqueError_apart hun hr hid
      exact heq.elim hname' hemail'
    intro u hu v hv heq
    rcases Table.mem_upsert.mp hu with rfl | ⟨hu, huid⟩
    · rcases Table.mem_upsert.mp hv with rfl | ⟨hv, hvid⟩
      · rfl
      · exact absurd (heq.imp Eq.symm Eq.symm) (hsaved v hv hvid)
    · rcases Table.mem_upsert.mp hv with rfl | ⟨hv, hvid⟩
      · exact absurd heq (hsaved u hu huid)
      · exact hapart u hu v hv heq

theorem Bot.Stored.mono {lowercase : Text → Text} {b : Bot} (h : b.Stored lowercase db)
    (hmono : ∀ u, SameLogin db u → SameLogin db' u) : b.Stored lowercase db' := by
  obtain ⟨u, hu, haddress⟩ := h
  have hid : u.id = b.actor.userId := Table.find?_key hu
  obtain ⟨stored, hstored, -, hemail, -⟩ := hmono u (sameLogin_stored (Table.find?_mem hu))
  exact ⟨stored, hid ▸ hstored, hemail.symm ▸ haddress⟩

theorem Provisioning.Held.mono {lowercase : Text → Text} {run : Provisioning}
    (h : run.Held lowercase db) (hmono : ∀ u, SameLogin db u → SameLogin db' u) :
    run.Held lowercase db' := by
  cases run with
  | done size bots => exact ⟨fun b hb => (h.1 b hb).mono hmono, h.2⟩
  | failed => trivial
  | running p =>
    obtain ⟨hbots, hphase, hnames⟩ := h
    refine ⟨fun b hb => (hbots b hb).mono hmono, ?_, hnames⟩
    cases hp : p.phase with
    | find email lookup =>
      rw [hp] at hphase
      exact ⟨hphase.1, fun u hu => ⟨hmono u (hphase.2 u hu).1, (hphase.2 u hu).2⟩⟩
    | save email user created =>
      rw [hp] at hphase
      obtain ⟨haddress, hemail, hstored, hcreated⟩ := hphase
      exact ⟨haddress, hemail, fun hc => hmono user (hstored hc), hcreated⟩
    | refresh user =>
      rw [hp] at hphase
      exact ⟨hphase.1, hmono user hphase.2⟩

end Tables

section Accounts
variable {lowercase : Text → Text} {db : Db}

theorem Provisioning.begin_held {size : Nat} {hash : PasswordHash} {bots : List Bot}
    {todo : List (String × Role)} (hbots : ∀ b ∈ bots, b.Stored lowercase db)
    (hnames : (bots.map fun b => (b.name, b.actor.role)) ++ todo = Cast.names size) :
    (Provisioning.begin lowercase size hash bots todo).Held lowercase db := by
  cases todo with
  | nil => exact ⟨hbots, by rwa [List.append_nil] at hnames⟩
  | cons next todo =>
    obtain ⟨name, role⟩ := next
    simp only [Provisioning.begin]
    cases he : Email.new lowercase (Cast.botEmail name) with
    | error e => trivial
    | ok email => exact ⟨hbots, ⟨he, by simp [Lookup.copies]⟩, hnames⟩

theorem Provisioning.start_held (size : Nat) (botPassword : Text)
    (hasher : Password → Except AuthPortError PasswordHash) :
    (Provisioning.start lowercase size botPassword hasher).Held lowercase db := by
  unfold Provisioning.start
  cases Password.new botPassword with
  | error e => trivial
  | ok password =>
    dsimp only
    cases hasher password with
    | error e => trivial
    | ok hash => exact begin_held (by simp) rfl

theorem Username.new_ok {value : Text} {username : Username}
    (h : Username.new value = .ok username) : username.value = value := by
  unfold Username.new at h
  split at h
  · split at h
    · cases h
      rfl
    · simp at h
  · simp at h

namespace Provision
variable {p : Provision}

theorem recruit_held (hbots : ∀ b ∈ p.bots, b.Stored lowercase db)
    (hnames : (p.bots.map fun b => (b.name, b.actor.role)) ++ (p.name, p.role) :: p.todo =
      Cast.names p.size) {user : User} (haddress : Cast.Addressed lowercase p.name user.email)
    (hlogin : SameLogin db user) : (p.recruit lowercase user.id).Held lowercase db := by
  refine Provisioning.begin_held (fun b hb => ?_) ?_
  · rcases List.mem_append.mp hb with hb | hb
    · exact hbots b hb
    · rw [List.mem_singleton.mp hb]
      obtain ⟨stored, hstored, -, hemail, -⟩ := hlogin
      exact ⟨stored, hstored, hemail.symm ▸ haddress⟩
  · rw [← hnames, List.map_append, List.append_assoc]
    rfl

theorem onUser_held {env : Env} {email : Email} (hbots : ∀ b ∈ p.bots, b.Stored lowercase db)
    (hnames : (p.bots.map fun b => (b.name, b.actor.role)) ++ (p.name, p.role) :: p.todo =
      Cast.names p.size) (haddress : Cast.Addressed lowercase p.name email) {found : Option User}
    (hfound : ∀ u, found = some u → SameLogin db u ∧ u.email = email) :
    (p.onUser lowercase env email found).Held lowercase db := by
  cases found with
  | none =>
    simp only [onUser]
    split
    · trivial
    · rename_i username hnew
      exact ⟨hbots, ⟨haddress, rfl, by simp, fun _ => Username.new_ok hnew⟩, hnames⟩
  | some user =>
    obtain ⟨hlogin, hemail⟩ := hfound user rfl
    simp only [onUser]
    split
    · exact ⟨hbots, ⟨haddress, hemail, fun _ => hlogin, by simp⟩, hnames⟩
    · exact recruit_held hbots hnames (hemail.symm ▸ haddress) hlogin

end Provision

/-- What the cache has under an address is a copy of the user who has it. -/
theorem Lookup.advanceEmail_spec {lookup : Lookup} {email : Email} {env : Env}
    {cache cache' : Cache} {next : Lookup ⊕ Option User} (hkeyed : cache.Keyed)
    (hcache : ∀ key u, cache key = some u → SameLogin db u)
    (hl : ∀ u ∈ lookup.copies, SameLogin db u ∧ u.email = email)
    (h : lookup.advanceEmail email env db cache = (cache', next)) :
    cache'.Keyed ∧ (∀ key u, cache' key = some u → SameLogin db u) ∧
      (∀ l, next = .inl l → ∀ u ∈ l.copies, SameLogin db u ∧ u.email = email) ∧
      ∀ u, next = .inr (some u) → SameLogin db u ∧ u.email = email := by
  cases lookup with
  | get =>
    simp only [advanceEmail] at h
    split at h
    · rename_i found hget
      cases h
      have hcached : cache (.email email) = some found := by
        unfold Cache.get at hget
        split at hget
        · exact hget
        · simp at hget
      have hemail : found.email = email := by
        have hkey := hkeyed _ _ hcached
        simp only [userKeys, List.mem_cons, List.not_mem_nil, or_false, reduceCtorEq, false_or,
          CacheKey.email.injEq] at hkey
        exact hkey.symm
      refine ⟨hkeyed, hcache, by simp, fun u hu => ?_⟩
      cases hu
      exact ⟨hcache _ _ hcached, hemail⟩
    · cases h
      refine ⟨hkeyed, hcache, fun l hl => ?_, by simp⟩
      cases hl
      simp [copies]
  | load =>
    simp only [advanceEmail] at h
    split at h
    · rename_i found hfind
      cases h
      refine ⟨hkeyed, hcache, fun l hl u hu => ?_, by simp⟩
      cases hl
      rw [List.mem_singleton.mp hu]
      have hemail := List.find?_some (p := fun u : User => u.email = email) hfind
      exact ⟨sameLogin_stored (List.mem_of_find?_eq_some hfind), of_decide_eq_true hemail⟩
    · cases h
      exact ⟨hkeyed, hcache, by simp, by simp⟩
  | put found =>
    cases h
    have hfound := hl found (List.mem_singleton.mpr rfl)
    refine ⟨hkeyed.put _ _, cache_put_keeps hcache hfound.1, by simp, fun u hu => ?_⟩
    cases hu
    exact hfound

theorem Provision.read_held {p : Provision} {env : Env} {cache cache' : Cache}
    {run : Provisioning} (hkeyed : cache.Keyed)
    (hcache : ∀ key u, cache key = some u → SameLogin db u)
    (hp : (Provisioning.running p).Held lowercase db)
    (h : p.read lowercase env db cache = some (cache', run)) :
    cache'.Keyed ∧ (∀ key u, cache' key = some u → SameLogin db u) ∧ run.Held lowercase db := by
  obtain ⟨hbots, hphase, hnames⟩ := hp
  unfold Provision.read at h
  split at h
  · rename_i email lookup hfind
    rw [hfind] at hphase
    obtain ⟨haddress, hcopies⟩ := hphase
    split at h
    · rename_i cache₁ next hnext
      cases h
      obtain ⟨hkeyed', hcache', hon, -⟩ :=
        Lookup.advanceEmail_spec hkeyed hcache hcopies hnext
      exact ⟨hkeyed', hcache', hbots, ⟨haddress, hon next rfl⟩, hnames⟩
    · rename_i cache₁ found hfound
      cases h
      obtain ⟨hkeyed', hcache', -, hon⟩ :=
        Lookup.advanceEmail_spec hkeyed hcache hcopies hfound
      refine ⟨hkeyed', hcache', onUser_held hbots hnames haddress fun u hu => ?_⟩
      exact hon u (by rw [hu])
  · simp at h
  · rename_i user hrefresh
    rw [hrefresh] at hphase
    cases h
    exact ⟨hkeyed.put _ _, cache_put_keeps hcache hphase.2,
      recruit_held hbots hnames hphase.1 hphase.2⟩

end Accounts

/-! ### Every run keeps what it knows -/

theorem Sys.Effect.sameLogin_mono {build : Build} {s s' : Sys} {a : Act} (hwf : s.Wf)
    (h : s.AllCopies (SameLogin s.db)) (he : Sys.Effect build s a s') {u : User}
    (hu : SameLogin s.db u) : SameLogin s'.db u := by
  rcases hwf.commits he with ⟨hdb, -⟩ | ⟨w, now, -, hdone, -, hc⟩
  · rw [hdb]
    exact hu
  · refine hdone.sameLogin ?_ hu
    intro cause user hw
    subst hw
    rcases hc with hw | ⟨id, username, email, hash, at', -, hfresh, hreg⟩
    · exact .inr (h.save_stored hw)
    · cases hreg
      exact .inl hfresh

theorem Request.granted_all (request : Request) : request.Granted fun _ => True := by
  cases request with
  | createMarket actor input => exact fun _ => trivial
  | placeBet actor input => trivial
  | resolveMarket actor marketId winner => exact fun _ => trivial
  | profile job =>
    unfold Request.Granted ProfileJob.Granted
    dsimp only
    split <;> trivial

theorem sameLogin_saved (db : Db) (user : User) : SameLogin (db.saved user) user :=
  ⟨db.savedRow user, by rw [userById_saved, if_pos rfl], savedRow_login db user⟩

namespace Troupe
variable {lowercase : Text → Text} {build : Build} {t t' : Troupe}

theorem inv_init : (init).Inv lowercase where
  wf := Sys.wf_init
  copies := by
    refine ⟨?_, ?_, ?_⟩ <;> simp [init, Sys.init, Db.empty, Cache.empty]
  granted := Sys.granted_init
  apart := by simp [init, Sys.init, Db.empty, Db.LoginsApart]
  runs := by simp [init]

theorem Inv.world (h : t.Inv lowercase) {a : Act} {sys : Sys} (he : Sys.Effect build t.sys a sys) :
    ({ t with sys } : Troupe).Inv lowercase where
  wf := h.wf.effect he
  copies := h.copies.sameLogin_effect h.wf he
  granted := h.granted.effect h.wf (fun request env _ => request.granted_all) he
  apart := by
    rcases h.wf.commits he with ⟨hdb, -⟩ | ⟨w, now, -, hdone, -, -⟩
    · rw [hdb]
      exact h.apart
    · exact hdone.loginsApart h.apart
  runs := fun run hrun => (h.runs run hrun).mono fun u hu => he.sameLogin_mono h.wf h.copies hu

theorem forall_set {P : Provisioning → Prop} {runs : List Provisioning} {i : Nat}
    {run : Provisioning} (h : ∀ r ∈ runs, P r) (hrun : P run) : ∀ r ∈ runs.set i run, P r := by
  intro r hr
  rcases List.mem_or_eq_of_mem_set hr with hr | rfl
  · exact h r hr
  · exact hrun

theorem Inv.save (h : t.Inv lowercase) {i : Nat} {p : Provision} {env : Env} {email : Email}
    {user : User} {created : Bool} (hrun : t.runs[i]? = some (.running p))
    (hphase : p.phase = .save email user created) (hs : t.save i p user created env = some t') :
    t'.Inv lowercase := by
  obtain ⟨hbots, hheld, hnames⟩ := h.runs _ (List.mem_of_getElem? hrun)
  rw [hphase] at hheld
  obtain ⟨haddress, hemail, hstored, -⟩ := hheld
  unfold Troupe.save at hs
  split at hs
  · simp at hs
  · rename_i hfresh
    split at hs
    · cases hs
      exact ⟨h.wf, h.copies, h.granted, h.apart, forall_set h.runs trivial⟩
    · rename_i db hc
      cases hs
      have hok : (Write.save (if created then .registration else .role p.role) user).Ok
          t.sys.db := trivial
      have hdone := Write.done hok hc
      have hsaved := hdone.of_save
      have hlogin : ∀ u, SameLogin t.sys.db u → SameLogin db u := by
        intro u hu
        refine hdone.sameLogin (fun cause user' hw => ?_) hu
        cases hw
        cases created with
        | true => exact .inl (by simpa using hfresh)
        | false => exact .inr (hstored rfl)
      refine ⟨⟨hdone.wf h.wf.db hok, fun x hx => Slot.wf_mono (hdone.grows hok) (h.wf.calls x hx)⟩,
        ⟨fun u hu => sameLogin_stored hu, fun key u hu => hlogin u (h.copies.cached key u hu),
          fun slot hslot u hu => hlogin u (h.copies.copied slot hslot u hu)⟩,
        ⟨fun u hu _ => trivial, h.granted.keyed, fun key u hu _ => trivial, h.granted.calls⟩,
        hdone.loginsApart h.apart, ?_⟩
      refine forall_set (fun run hr => (h.runs run hr).mono hlogin) ?_
      refine ⟨fun b hb => (hbots b hb).mono hlogin, ⟨hemail.symm ▸ haddress, ?_⟩, hnames⟩
      rw [hsaved]
      exact sameLogin_saved _ _

theorem Inv.step (h : t.Inv lowercase) {a : TroupeAct}
    (hs : t.step lowercase build a = some t') : t'.Inv lowercase := by
  cases a with
  | world act =>
    obtain ⟨sys, hsys, rfl⟩ := Option.map_eq_some_iff.mp hs
    exact h.world (Sys.step_effect hsys)
  | provision size botPassword hasher =>
    cases hs
    refine ⟨h.wf, h.copies, h.granted, h.apart, fun run hrun => ?_⟩
    rcases List.mem_append.mp hrun with hrun | hrun
    · exact h.runs run hrun
    · rw [List.mem_singleton.mp hrun]
      exact Provisioning.start_held size botPassword hasher
  | step i env =>
    simp only [Troupe.step] at hs
    split at hs
    · rename_i p hrun
      split at hs
      · rename_i email user created hphase
        exact h.save hrun hphase hs
      · obtain ⟨r, hread, rfl⟩ := Option.map_eq_some_iff.mp hs
        obtain ⟨hkeyed, hcached, hheld⟩ := Provision.read_held h.granted.keyed h.copies.cached
          (h.runs _ (List.mem_of_getElem? hrun)) hread
        exact ⟨⟨h.wf.db, h.wf.calls⟩, ⟨h.copies.stored, hcached, h.copies.copied⟩,
          ⟨h.granted.stored, hkeyed, fun key u hu _ => trivial, h.granted.calls⟩, h.apart,
          forall_set h.runs hheld⟩
    · simp at hs
  | fail i =>
    simp only [Troupe.step] at hs
    split at hs
    · cases hs
      exact ⟨h.wf, h.copies, h.granted, h.apart, forall_set h.runs trivial⟩
    · simp at hs

theorem Inv.run {as : List TroupeAct}
    (h : Transition.run (Troupe.step lowercase build) .init as = some t) : t.Inv lowercase :=
  Transition.run_invariant' (fun _ _ _ h hs => h.step hs) inv_init h

end Troupe

/-! ### Which account is whose -/

namespace Cast
variable {lowercase : Text → Text}

theorem botEmail_inj {name name' : String} (h : botEmail name = botEmail name') : name = name' :=
  String.toList_inj.mp (List.append_cancel_right h)

theorem mem_names {size : Nat} {name : String} {role : Role} (h : (name, role) ∈ names size) :
    name ∈ hostName :: botNames := by
  rcases List.mem_cons.mp h with h | h
  · cases h
    exact List.mem_cons_self
  · obtain ⟨bot, hbot, heq⟩ := List.mem_map.mp h
    cases heq
    exact List.mem_cons_of_mem _ (List.mem_of_mem_take hbot)

theorem names_valid : ((hostName :: botNames).all fun name =>
    (Username.new name.toList).isOk && trim (botEmail name) = botEmail name &&
      ((botEmail name).all fun c => c.toNat < 128 && c.toLower = c) &&
      (Email.new id (botEmail name)).toOption = some ⟨botEmail name⟩) = true := by
  decide +kernel

theorem username_valid {name : String} (hname : name ∈ hostName :: botNames) :
    ∃ username, Username.new name.toList = .ok username := by
  have hvalid := List.all_eq_true.mp names_valid name hname
  simp only [Bool.and_eq_true] at hvalid
  cases hu : Username.new name.toList with
  | ok username => exact ⟨username, rfl⟩
  | error e => simp [hu, Except.isOk, Except.toBool] at hvalid

theorem addressed {name : String} (hlower : KeepsLower lowercase)
    (hname : name ∈ hostName :: botNames) : Addressed lowercase name ⟨botEmail name⟩ := by
  have hvalid := List.all_eq_true.mp names_valid name hname
  simp only [Bool.and_eq_true, List.all_eq_true, decide_eq_true_eq] at hvalid
  obtain ⟨⟨⟨-, htrim⟩, hplain⟩, hemail⟩ := hvalid
  have hsame : lowercase (trim (botEmail name)) = id (trim (botEmail name)) := by
    rw [htrim, hlower _ hplain, id]
  have hnew : Email.new lowercase (botEmail name) = Email.new id (botEmail name) := by
    unfold Email.new
    rw [hsame]
  unfold Addressed
  rw [hnew]
  cases hok : Email.new id (botEmail name) with
  | ok email =>
    rw [hok] at hemail
    exact congrArg Except.ok (Option.some.inj hemail)
  | error e => simp [hok, Except.toOption] at hemail

theorem Addressed.eq {name : String} {email : Email} (hlower : KeepsLower lowercase)
    (h : Addressed lowercase name email) (hname : name ∈ hostName :: botNames) :
    email = ⟨botEmail name⟩ :=
  Except.ok.inj (h.symm.trans (addressed hlower hname))

end Cast

theorem Provisioning.Held.stored {lowercase : Text → Text} {db : Db} {run : Provisioning}
    (h : run.Held lowercase db) {b : Bot} (hb : b ∈ run.bots) :
    b.Stored lowercase db ∧ b.name ∈ Cast.hostName :: Cast.botNames := by
  have hrole : ∀ {bots : List Bot}, b ∈ bots →
      (b.name, b.actor.role) ∈ bots.map fun b => (b.name, b.actor.role) :=
    fun hb => List.mem_map.mpr ⟨b, hb, rfl⟩
  cases run with
  | running p => exact ⟨h.1 b hb, Cast.mem_names (h.2.2 ▸ List.mem_append_left _ (hrole hb))⟩
  | done size bots => exact ⟨h.1 b hb, Cast.mem_names (h.2 ▸ hrole hb)⟩
  | failed => simp [bots] at hb

theorem Troupe.Inv.account {lowercase : Text → Text}
    (hlower : Cast.KeepsLower lowercase) {t : Troupe} (h : t.Inv lowercase)
    {run : Provisioning} (hrun : run ∈ t.runs) {b : Bot} (hb : b ∈ run.bots) :
    ∃ u ∈ t.sys.db.users.rows, u.id = b.actor.userId ∧ u.email = ⟨Cast.botEmail b.name⟩ ∧
      ∀ v ∈ t.sys.db.users.rows, v.email = ⟨Cast.botEmail b.name⟩ → v = u := by
  obtain ⟨⟨u, hu, haddress⟩, hname⟩ := (h.runs run hrun).stored hb
  have hemail := haddress.eq hlower hname
  have hmem : u ∈ t.sys.db.users.rows := Table.find?_mem hu
  exact ⟨u, hmem, Table.find?_key hu, hemail,
    fun v hv hv' => h.apart v hv u hmem (.inr (hv'.trans hemail.symm))⟩

/-! ### When provisioning fails -/

section Alive
variable {lowercase : Text → Text} {db : Db}

theorem Provisioning.begin_alive (hlower : Cast.KeepsLower lowercase) {size : Nat}
    {hash : PasswordHash} {bots : List Bot} {todo : List (String × Role)}
    (htodo : ∀ x ∈ todo, x.1 ∈ Cast.hostName :: Cast.botNames) :
    Provisioning.begin lowercase size hash bots todo ≠ .failed := by
  cases todo with
  | nil => simp [Provisioning.begin]
  | cons next todo =>
    have haddress := Cast.addressed hlower (htodo next List.mem_cons_self)
    unfold Cast.Addressed at haddress
    simp [Provisioning.begin, haddress]

theorem Provisioning.start_failed (hlower : Cast.KeepsLower lowercase) {size : Nat}
    {botPassword : Text} {hasher : Password → Except AuthPortError PasswordHash}
    (h : Provisioning.start lowercase size botPassword hasher = .failed) {password : Password}
    (hpassword : Password.new botPassword = .ok password) : ∃ e, hasher password = .error e := by
  simp only [Provisioning.start, hpassword] at h
  cases hhash : hasher password with
  | error e => exact ⟨e, rfl⟩
  | ok hash =>
    simp only [hhash] at h
    exact absurd h (begin_alive hlower fun x hx => Cast.mem_names hx)

theorem Provisioning.Held.names {p : Provision} (h : (running p).Held lowercase db) :
    ∀ x ∈ (p.name, p.role) :: p.todo, x.1 ∈ Cast.hostName :: Cast.botNames :=
  fun _ hx => Cast.mem_names (h.2.2 ▸ List.mem_append_right _ hx)

namespace Provision
variable {p : Provision}

theorem recruit_alive (hlower : Cast.KeepsLower lowercase)
    (hnames : ∀ x ∈ (p.name, p.role) :: p.todo, x.1 ∈ Cast.hostName :: Cast.botNames)
    (userId : UserId) : p.recruit lowercase userId ≠ .failed :=
  Provisioning.begin_alive hlower fun x hx => hnames x (List.mem_cons_of_mem _ hx)

theorem onUser_alive (hlower : Cast.KeepsLower lowercase)
    (hnames : ∀ x ∈ (p.name, p.role) :: p.todo, x.1 ∈ Cast.hostName :: Cast.botNames) {env : Env}
    {email : Email} {found : Option User} : p.onUser lowercase env email found ≠ .failed := by
  cases found with
  | none =>
    obtain ⟨username, hnew⟩ := Cast.username_valid (hnames _ List.mem_cons_self)
    simp [onUser, hnew]
  | some user =>
    simp only [onUser]
    split
    · simp
    · exact recruit_alive hlower hnames user.id

theorem read_alive (hlower : Cast.KeepsLower lowercase) {env : Env} {cache cache' : Cache}
    {run : Provisioning} (hp : (Provisioning.running p).Held lowercase db)
    (h : p.read lowercase env db cache = some (cache', run)) : run ≠ .failed := by
  unfold read at h
  split at h
  · split at h
    · cases h
      simp
    · cases h
      exact onUser_alive hlower hp.names
  · simp at h
  · cases h
    exact recruit_alive hlower hp.names _

end Provision

end Alive

/-- A save refused is a save of a new row, and another row has its name or its address. -/
theorem Troupe.Inv.refused {lowercase : Text → Text} (hlower : Cast.KeepsLower lowercase)
    {t : Troupe} (h : t.Inv lowercase) {i : Nat} {p : Provision} {email : Email} {user : User}
    {created : Bool} {l : TxVars} {e : RepositoryError} (hrun : t.runs[i]? = some (.running p))
    (hphase : p.phase = .save email user created)
    (hc : pg.atomically (saveProgram user) l t.sys.db = .error e) :
    created = true ∧ ∃ v ∈ t.sys.db.users.rows,
      v.username.value = p.name.toList ∨ v.email = ⟨Cast.botEmail p.name⟩ := by
  have hp := h.runs _ (List.mem_of_getElem? hrun)
  have hheld := hp.2.1
  rw [hphase] at hheld
  obtain ⟨haddress, hemail, hstored, hcreated⟩ := hheld
  have haddressed := hemail.trans (haddress.eq hlower (hp.names _ List.mem_cons_self))
  obtain ⟨v, hv, hid, hsame⟩ := uniqueError_taken (save_error hc)
  cases created with
  | true =>
    refine ⟨rfl, v, hv, hsame.imp (fun hname => ?_) fun hv' => hv'.trans haddressed⟩
    rw [hname]
    exact hcreated rfl
  | false =>
    obtain ⟨stored, hfind, hname, hmail, -⟩ := hstored rfl
    rw [← hname, ← hmail] at hsame
    have hown := h.apart v hv stored (Table.find?_mem hfind) hsame
    exact absurd (hown ▸ Table.find?_key hfind) hid

/-- Whatever else the users do and however often the server starts, at every point of every run:
a provisioning that ends has the whole cast in its order, each bot acts as the one account that
has its address, and two bots share an account only if they share the name. -/
theorem cast_resumes {lowercase : Text → Text} (hlower : Cast.KeepsLower lowercase)
    {build : Build} {as : List TroupeAct} {t : Troupe}
    (h : Transition.run (Troupe.step lowercase build) .init as = some t) :
    (∀ size bots, .done size bots ∈ t.runs →
      (bots.map fun b => (b.name, b.actor.role)) = Cast.names size) ∧
    (∀ run ∈ t.runs, ∀ b ∈ run.bots, ∃ u ∈ t.sys.db.users.rows, u.id = b.actor.userId ∧
      u.email = ⟨Cast.botEmail b.name⟩ ∧
      ∀ v ∈ t.sys.db.users.rows, v.email = ⟨Cast.botEmail b.name⟩ → v = u) ∧
    ∀ run ∈ t.runs, ∀ run' ∈ t.runs, ∀ b ∈ run.bots, ∀ b' ∈ run'.bots,
      b.name = b'.name ↔ b.actor.userId = b'.actor.userId := by
  have hinv := Troupe.Inv.run h
  refine ⟨fun size bots hdone => (hinv.runs _ hdone).2,
    fun run hrun b hb => hinv.account hlower hrun hb, ?_⟩
  intro run hrun run' hrun' b hb b' hb'
  obtain ⟨u, hu, hid, hemail, honly⟩ := hinv.account hlower hrun hb
  obtain ⟨u', hu', hid', hemail', honly'⟩ := hinv.account hlower hrun' hb'
  constructor
  · intro hname
    rw [← hid, ← hid', honly u' hu' (hname ▸ hemail')]
  · intro hids
    have hsame : u = u' := Table.eq_of_key hu hu' (hid.trans (hids.trans hid'.symm))
    subst hsame
    exact Cast.botEmail_inj (Email.mk.inj (hemail.symm.trans hemail'))

namespace Sample

def lower : Text → Text := List.map Char.toLower

theorem lower_keeps : Cast.KeepsLower lower := by
  intro s hs
  unfold lower
  conv_rhs => rw [← List.map_id s]
  exact List.map_congr_left fun c hc => (hs c hc).2

def castHash : PasswordHash := ⟨['h']⟩

def startCast : TroupeAct :=
  .provision 2 "demo-password".toList fun _ => .ok castHash

def twoStarts : List TroupeAct :=
  startCast :: List.replicate 4 (.step 0 (env 0 1)) ++
    List.replicate 4 (.step 0 (env 1 2)) ++
    startCast :: List.replicate 2 (.step 1 (env 2 3))

def troupe (as : List TroupeAct) : Troupe :=
  (Transition.run (Troupe.step lower .debug) .init as).getD .init

theorem run_troupe (as : List TroupeAct)
    (h : (Transition.run (Troupe.step lower .debug) .init as).isSome) :
    Transition.run (Troupe.step lower .debug) .init as = some (troupe as) := by
  obtain ⟨t, ht⟩ := Option.isSome_iff_exists.mp h
  simp [troupe, ht]

end Sample

theorem cast_resumes_restarted :
    ∃ host hana, host.name = Cast.hostName ∧ host.actor.userId ≠ hana.actor.userId ∧
      (Sample.troupe Sample.twoStarts).runs = [.done 2 [host, hana], .done 2 [host, hana]] ∧
      ∃ u ∈ (Sample.troupe Sample.twoStarts).sys.db.users.rows, u.id = host.actor.userId ∧
        u.email = ⟨Cast.botEmail host.name⟩ ∧
        ∀ v ∈ (Sample.troupe Sample.twoStarts).sys.db.users.rows,
          v.email = ⟨Cast.botEmail host.name⟩ → v = u := by
  have hrun := Sample.run_troupe Sample.twoStarts (by decide +kernel)
  let host : Bot := ⟨"the_oracle", ⟨⟨1⟩, .admin⟩⟩
  let hana : Bot := ⟨"hedge_hana", ⟨⟨2⟩, .user⟩⟩
  have hruns : (Sample.troupe Sample.twoStarts).runs =
      [.done 2 [host, hana], .done 2 [host, hana]] := by
    decide +kernel
  refine ⟨host, hana, rfl, by decide, hruns, ?_⟩
  exact (cast_resumes Sample.lower_keeps hrun).2.1 (.done 2 [host, hana]) (by simp [hruns]) host
    (by simp [Provisioning.bots])

/-- Beside a failure of the storage, a configured password that is none, one the hasher fails
on, and an account of somebody else under the name or the address of a bot that is still to be
created make provisioning fail, and nothing else does. -/
theorem provision_fails_taken {lowercase : Text → Text} (hlower : Cast.KeepsLower lowercase)
    {build : Build} {as : List TroupeAct} {t t' : Troupe} {a : TroupeAct}
    (h : Transition.run (Troupe.step lowercase build) .init as = some t)
    (hs : t.step lowercase build a = some t') {i : Nat} (halive : t.runs[i]? ≠ some .failed)
    (hfailed : t'.runs[i]? = some .failed) :
    a = .fail i ∨
    (∃ size botPassword hasher, a = .provision size botPassword hasher ∧ i = t.runs.length ∧
      ∀ password, Password.new botPassword = .ok password → ∃ e, hasher password = .error e) ∨
    ∃ env p email user, a = .step i env ∧ t.runs[i]? = some (.running p) ∧
      p.phase = .save email user true ∧ ∃ v ∈ t.sys.db.users.rows,
        v.username.value = p.name.toList ∨ v.email = ⟨Cast.botEmail p.name⟩ := by
  have hinv := Troupe.Inv.run h
  have hset : ∀ {j : Nat} {p : Provision} {run : Provisioning},
      t.runs[j]? = some (.running p) → (t.runs.set j run)[i]? = some .failed →
        j = i ∧ run = .failed := by
    intro j p run hrun hi
    by_cases hj : j = i
    · subst hj
      rw [List.getElem?_set_self (List.getElem?_eq_some_iff.mp hrun).1] at hi
      exact ⟨rfl, Option.some.inj hi⟩
    · rw [List.getElem?_set_ne hj] at hi
      exact absurd hi halive
  cases a with
  | world act =>
    obtain ⟨sys, -, rfl⟩ := Option.map_eq_some_iff.mp hs
    exact absurd hfailed halive
  | provision size botPassword hasher =>
    cases hs
    rw [List.getElem?_append] at hfailed
    split at hfailed
    · exact absurd hfailed halive
    · rename_i hnew
      obtain ⟨hlast, hstart⟩ := List.getElem?_eq_some_iff.mp hfailed
      have hindex : i = t.runs.length := by
        rw [List.length_singleton] at hlast
        omega
      have hstarted := List.mem_singleton.mp (List.mem_of_getElem? hfailed)
      exact .inr (.inl ⟨size, botPassword, hasher, rfl, hindex,
        fun password hpassword => Provisioning.start_failed hlower hstarted.symm hpassword⟩)
  | step j env =>
    simp only [Troupe.step] at hs
    split at hs
    · rename_i p hrun
      split at hs
      · rename_i email user created hphase
        unfold Troupe.save at hs
        split at hs
        · simp at hs
        · split at hs
          · rename_i e hc
            cases hs
            obtain ⟨rfl, -⟩ := hset hrun hfailed
            obtain ⟨rfl, htaken⟩ := hinv.refused hlower hrun hphase hc
            exact .inr (.inr ⟨env, p, email, user, rfl, hrun, hphase, htaken⟩)
          · cases hs
            exact absurd (hset hrun hfailed).2 (by simp)
      · obtain ⟨r, hread, rfl⟩ := Option.map_eq_some_iff.mp hs
        have halive' := Provision.read_alive hlower
          (hinv.runs _ (List.mem_of_getElem? hrun)) hread
        exact absurd (hset hrun hfailed).2 halive'
    · simp at hs
  | fail j =>
    simp only [Troupe.step] at hs
    split at hs
    · rename_i p hrun
      cases hs
      exact .inl (congrArg TroupeAct.fail (hset hrun hfailed).1)
    · simp at hs

namespace Sample

/-- Somebody takes the name of the host before the server first starts. -/
def hostTaken : List TroupeAct :=
  [.world (.register ⟨7⟩ ⟨Cast.hostName.toList, by decide, by decide⟩ ⟨['a', '@', 'b', '.', 'c']⟩
    castHash 0), startCast, .step 0 (env 1 1), .step 0 (env 1 1)]

end Sample

theorem provision_fails_taken_host :
    ∃ t' p, (Sample.troupe Sample.hostTaken).step Sample.lower .debug
        (.step 0 (Sample.env 1 1)) = some t' ∧ t'.runs = [.failed] ∧
      (Sample.troupe Sample.hostTaken).runs[0]? = some (.running p) ∧
      ∃ v ∈ (Sample.troupe Sample.hostTaken).sys.db.users.rows,
        v.username.value = p.name.toList ∨ v.email = ⟨Cast.botEmail p.name⟩ := by
  have hrun := Sample.run_troupe Sample.hostTaken (by decide +kernel)
  have hstep : ((Sample.troupe Sample.hostTaken).step Sample.lower .debug
      (.step 0 (Sample.env 1 1))).map Troupe.runs = some [.failed] := by
    decide +kernel
  obtain ⟨t', hs, hruns⟩ := Option.map_eq_some_iff.mp hstep
  have halive : (Sample.troupe Sample.hostTaken).runs[0]? ≠ some .failed := by decide +kernel
  have hfailed : t'.runs[0]? = some .failed := by simp [hruns]
  rcases provision_fails_taken Sample.lower_keeps hrun hs halive hfailed with
    hfail | ⟨size, botPassword, hasher, hstart, -⟩ | ⟨env, p, email, user, -, hp, -, htaken⟩
  · cases hfail
  · cases hstart
  · exact ⟨t', p, hs, hruns, hp, htaken⟩

end Betsphere
