import Betsphere.System.Copies
set_option autoImplicit false

namespace Betsphere
open MachineInt

def Write.money (id : UserId) : Write → Int
  | .place bet _ _ => if bet.userId = id then -bet.amount else 0
  | .settle _ settled => credits settled id
  | .save (.topUp amount) user => if user.id = id then amount else 0
  | _ => 0

def Write.role? (id : UserId) : Write → Option Role
  | .save (.role role) user => if user.id = id then some role else none
  | _ => none

def moneyOf (log : List (Write × Db)) (id : UserId) : Int :=
  (log.map fun entry => entry.1.money id).sum

def lastRole (log : List (Write × Db)) (id : UserId) : Option Role :=
  log.findSome? fun entry => entry.1.role? id

structure Accounts (db : Db) (log : List (Write × Db)) : Prop where
  balance : ∀ u ∈ db.users.rows, u.balance = User.startingBalance + moneyOf log u.id
  role : ∀ u ∈ db.users.rows, u.role = (lastRole log u.id).getD .user

/-- Whether the copy about to be saved is the stored row, but for the change made to it. -/
def SaveCause.current (stored copy : User) : SaveCause → Bool
  | .registration => true
  | .avatar => copy.balance = stored.balance && copy.role = stored.role
  | .role _ => copy.balance = stored.balance
  | .topUp amount => copy.balance = stored.balance + amount && copy.role = stored.role

def savesCurrent (s : Sys) (a : Act) : Bool :=
  match s.writing? a with
  | some (.save cause user) => (s.db.userById user.id).all fun stored => cause.current stored user
  | _ => true

/-- A copy agrees with the stored row on the columns no call edits. -/
def SameLogin (db : Db) (u : User) : Prop :=
  ∃ stored, db.userById u.id = some stored ∧ stored.username = u.username ∧
    stored.email = u.email ∧ stored.passwordHash = u.passwordHash

theorem edits_sameLogin (db : Db) : EditsKeep (SameLogin db) where
  setRole _ _ _ hu := hu
  setAvatarUrl _ _ _ hu := hu
  credit u u' amount now hu h := by
    unfold User.credit at h
    split at h
    · simp at h
    · cases h
      exact hu

theorem sameLogin_stored {db : Db} {u : User} (hu : u ∈ db.users.rows) : SameLogin db u :=
  ⟨u, Table.find?_of_mem hu, rfl, rfl, rfl⟩

theorem Write.Done.sameLogin {db db' : Db} {w : Write} {now : DateTime} (h : w.Done db now db')
    (hsave : ∀ cause user, w = .save cause user →
      db.userById user.id = none ∨ SameLogin db user) {u : User} (hu : SameLogin db u) :
    SameLogin db' u := by
  obtain ⟨stored, hstored, hname, hemail, hhash⟩ := hu
  cases h with
  | create market outcomes at' hen => exact ⟨stored, hstored, hname, hemail, hhash⟩
  | place bet priced points hen =>
    refine ⟨_, by rw [userById_placed, hstored, Option.map_some], ?_⟩
    by_cases hid : stored.id = bet.userId <;> simp [hid, hname, hemail, hhash]
  | settle market settled hin =>
    refine ⟨_, by rw [userById_settled, hstored, Option.map_some], ?_⟩
    cases hp : isPaid settled stored.id <;> simp [paidRow, hp, hname, hemail, hhash]
  | save cause user hun =>
    by_cases hid : user.id = u.id
    · have hlogin : SameLogin db user := by
        rcases hsave cause user rfl with hnone | hlogin
        · rw [hid, hstored] at hnone
          simp at hnone
        · exact hlogin
      obtain ⟨stored', hstored', hname', hemail', hhash'⟩ := hlogin
      rw [hid, hstored] at hstored'
      cases hstored'
      refine ⟨db.savedRow user, by rw [userById_saved, if_pos hid], ?_⟩
      simp only [Db.savedRow, hid, hstored]
      exact ⟨hname'.symm.trans hname, hemail'.symm.trans hemail, hhash'.symm.trans hhash⟩
    · exact ⟨stored, by rw [userById_saved, if_neg hid]; exact hstored, hname, hemail, hhash⟩

theorem Sys.AllCopies.save_stored {s : Sys} {a : Act} {cause : SaveCause} {user : User}
    (h : s.AllCopies (SameLogin s.db)) (hw : s.writing? a = some (.save cause user)) :
    SameLogin s.db user := by
  cases a with
  | step i env =>
    simp only [Sys.writing?] at hw
    split at hw
    · rename_i call hcall
      exact h.copied _ (List.mem_of_getElem? hcall) user (Call.save_copies hw)
    · simp at hw
  | _ => simp [Sys.writing?] at hw

theorem Sys.AllCopies.sameLogin_effect {build : Build} {s s' : Sys} {a : Act} (hwf : s.Wf)
    (h : s.AllCopies (SameLogin s.db)) (he : Sys.Effect build s a s') :
    s'.AllCopies (SameLogin s'.db) := by
  refine h.effect (edits_sameLogin s.db) ?_ (fun u hu => sameLogin_stored hu) he
  rcases hwf.commits he with ⟨hdb, -⟩ | ⟨w, now, -, hdone, -, hc⟩
  · rw [hdb]
    exact fun u hu => hu
  · refine fun u hu => hdone.sameLogin ?_ hu
    rintro cause user rfl
    rcases hc with hw | ⟨id, username, email, hash, at', -, hfresh, hreg⟩
    · exact .inr (h.save_stored hw)
    · cases hreg
      exact .inl hfresh

def SaveCause.Sets (user : User) : SaveCause → Prop
  | .registration => False
  | .role new => user.role = new
  | _ => True

def Slot.Sets : Slot → Prop
  | .running (.profile _ (.save cause user)) => cause.Sets user
  | _ => True

theorem ProfileJob.onUser_sets {build : Build} {env : Env} {job : ProfileJob}
    {found : Option User} {request : Request} :
    ((job.onUser build env found).slot request (.profile job)).Sets := by
  cases found with
  | none => cases job <;> trivial
  | some user =>
    cases job with
    | uploadAvatar userId contentType bytes => trivial
    | updateUser userId role => cases role <;> rfl
    | topUp userId bot amount =>
      simp only [ProfileJob.onUser]
      split
      · trivial
      · cases sub64 build (max User.startingBalance amount) user.balance with
        | error p => trivial
        | ok missing =>
          simp only
          cases user.credit missing env.now <;> trivial

theorem Call.read_sets {build : Build} {env : Env} {db : Db} {cache cache' : Cache}
    {call : Call} {slot : Slot} (h : call.read build env db cache = some (cache', slot)) :
    slot.Sets := by
  cases call with
  | createMarket actor input prepared => simp [Call.read] at h
  | placeBet actor input phase =>
    simp only [Call.read, Option.map_eq_some_iff] at h
    obtain ⟨⟨cache₁, next⟩, -, heq⟩ := h
    cases heq
    cases next <;> trivial
  | resolveMarket actor marketId winner phase =>
    simp only [Call.read, Option.map_eq_some_iff] at h
    obtain ⟨⟨cache₁, next⟩, -, heq⟩ := h
    cases heq
    cases next <;> trivial
  | profile job phase =>
    simp only [Call.read, Option.map_eq_some_iff] at h
    obtain ⟨⟨cache₁, next⟩, hr, heq⟩ := h
    cases heq
    cases phase with
    | findUser lookup =>
      simp only [ProfileJob.read] at hr
      split at hr
      · simp only [Option.some.injEq, Prod.mk.injEq] at hr
        simp only [← hr.2]
        trivial
      · simp only [Option.some.injEq, Prod.mk.injEq] at hr
        simp only [← hr.2]
        exact ProfileJob.onUser_sets
    | store user =>
      simp only [ProfileJob.read, Option.some.injEq, Prod.mk.injEq] at hr
      simp only [← hr.2]
      trivial
    | save cause user => simp [ProfileJob.read] at hr
    | refresh user =>
      simp only [ProfileJob.read, Option.some.injEq, Prod.mk.injEq] at hr
      simp only [← hr.2]
      trivial

theorem Call.written_sets {env : Env} {call : Call} {w : Write}
    (h : call.write? env = some w) (result : Except RepositoryError Unit) :
    (call.written result).Sets := by
  cases call with
  | createMarket actor input prepared => cases result <;> trivial
  | placeBet actor input phase =>
    cases phase <;> simp [Call.write?, PlaceBet.write?] at h
    cases result <;> trivial
  | resolveMarket actor marketId winner phase =>
    cases phase <;> simp [Call.write?, ResolveMarket.write?] at h
    trivial
  | profile job phase =>
    cases phase <;> simp [Call.write?, ProfileJob.write?] at h
    cases result <;> trivial

theorem Request.begin_sets (build : Build) (env : Env) (request : Request) :
    (request.begin build env).Sets := by
  cases request with
  | createMarket actor input =>
    simp only [Request.begin]
    cases CreateMarket.prepare build env actor input <;> trivial
  | placeBet actor input => trivial
  | resolveMarket actor marketId winner =>
    simp only [Request.begin]
    split <;> trivial
  | profile job =>
    simp only [Request.begin]
    split <;> trivial

theorem Sys.Effect.sets {build : Build} {s s' : Sys} {a : Act}
    (he : Sys.Effect build s a s') (h : ∀ x ∈ s.calls, x.Sets) : ∀ x ∈ s'.calls, x.Sets := by
  cases he with
  | started request env =>
    intro x hx
    rcases List.mem_append.mp hx with hx | hx
    · exact h x hx
    · rw [List.mem_singleton.mp hx]
      exact Request.begin_sets build env request
  | read i env call cache slot hcall hread hr => exact Sys.forall_set h (Call.read_sets hr)
  | committed i env call w db hcall hwrite hc =>
    exact Sys.forall_set h (Call.written_sets hwrite _)
  | refused i env call w e hcall hwrite hc =>
    exact Sys.forall_set h (Call.written_sets hwrite _)
  | failed i message call hcall => exact Sys.forall_set h trivial
  | registered id username email hash now db hfresh hc => exact h
  | evicted userId hev => exact h
  | expired key => exact h

theorem Sys.save_sets {s : Sys} (h : ∀ x ∈ s.calls, x.Sets) {a : Act} {cause : SaveCause}
    {user : User} (hw : s.writing? a = some (.save cause user)) : cause.Sets user := by
  cases a with
  | step i env =>
    simp only [Sys.writing?] at hw
    split at hw
    · rename_i call hcall
      have hsets := h _ (List.mem_of_getElem? hcall)
      cases call with
      | createMarket actor input prepared => simp [Call.write?, CreateMarket.write?] at hw
      | placeBet actor input phase => cases phase <;> simp [Call.write?, PlaceBet.write?] at hw
      | resolveMarket actor marketId winner phase =>
        cases phase <;> simp [Call.write?, ResolveMarket.write?] at hw
      | profile job phase =>
        cases phase <;> simp [Call.write?, ProfileJob.write?] at hw
        obtain ⟨rfl, rfl⟩ := hw
        exact hsets
    · simp at hw
  | _ => simp [Sys.writing?] at hw

theorem moneyOf_cons (w : Write) (db : Db) (log : List (Write × Db)) (id : UserId) :
    moneyOf ((w, db) :: log) id = w.money id + moneyOf log id := by
  simp [moneyOf]

theorem lastRole_cons (w : Write) (db : Db) (log : List (Write × Db)) (id : UserId) :
    lastRole ((w, db) :: log) id = (w.role? id).or (lastRole log id) := by
  cases hr : w.role? id <;> simp [lastRole, hr]

/-- Nothing was ever paid to a user nobody registered. -/
def UnknownUnpaid (db : Db) (log : List (Write × Db)) : Prop :=
  ∀ id, db.userById id = none → moneyOf log id = 0 ∧ lastRole log id = none

theorem Write.Done.unknown {db db' : Db} {w : Write} {now : DateTime} (hwf : db.Wf) (hok : w.Ok db)
    (h : w.Done db now db') {id : UserId} (hid : db'.userById id = none) :
    db.userById id = none ∧ w.money id = 0 ∧ w.role? id = none := by
  have hbefore : db.userById id = none := by
    cases hu : db.userById id with
    | none => rfl
    | some u =>
      obtain ⟨u', hu'⟩ := (h.grows hok).users id ⟨u, hu⟩
      simp [hid] at hu'
  refine ⟨hbefore, ?_⟩
  cases h with
  | create market outcomes at' hen => exact ⟨rfl, rfl⟩
  | place bet priced points hen =>
    obtain ⟨u, hu, -⟩ := hen.covered
    have hne : ¬bet.userId = id := by
      rintro rfl
      simp [hu] at hbefore
    exact ⟨if_neg hne, rfl⟩
  | settle market settled hin =>
    obtain ⟨-, -, -, winner, -, -, hall⟩ := hok
    refine ⟨?_, rfl⟩
    have hnone : (settled.filter fun b => b.userId = id) = [] := by
      refine List.filter_eq_nil_iff.mpr fun s hs => ?_
      obtain ⟨-, -, b, hb, hsame⟩ := hall s hs
      obtain ⟨u, hu⟩ := hwf.betUser b hb
      simp only [decide_eq_true_eq]
      rintro rfl
      rw [hsame.userId, hbefore] at hu
      simp at hu
    simp [Write.money, credits, hnone]
  | save cause user hun =>
    have hne : ¬user.id = id := by
      rintro rfl
      rw [userById_saved, if_pos rfl] at hid
      simp at hid
    cases cause <;> simp [Write.money, Write.role?, hne]

theorem UnknownUnpaid.done {db db' : Db} {w : Write} {now : DateTime} {log : List (Write × Db)}
    (hwf : db.Wf) (hok : w.Ok db) (hdone : w.Done db now db') (h : UnknownUnpaid db log) :
    UnknownUnpaid db' ((w, db') :: log) := by
  intro id hid
  obtain ⟨hbefore, hmoney, hrole⟩ := hdone.unknown hwf hok hid
  obtain ⟨hpaid, hlast⟩ := h id hbefore
  rw [moneyOf_cons, lastRole_cons, hmoney, hrole, hpaid, hlast]
  exact ⟨rfl, rfl⟩

def Write.SavesCurrent (db : Db) : Write → Prop
  | .save cause user =>
    (cause = .registration ∧ db.userById user.id = none ∧
      user.balance = User.startingBalance ∧ user.role = .user) ∨
    (cause ≠ .registration ∧ (∃ stored, db.userById user.id = some stored ∧
      cause.current stored user = true) ∧ ∀ role, cause = .role role → user.role = role)
  | _ => True

theorem savedRow_role (db : Db) (user : User) : (db.savedRow user).role = user.role := by
  unfold Db.savedRow
  split <;> rfl

theorem Accounts.saved {db : Db} {cause : SaveCause} {user : User} {log : List (Write × Db)}
    (hsave : (Write.save cause user).SavesCurrent db) (hunknown : UnknownUnpaid db log)
    (h : Accounts db log) :
    user.balance = User.startingBalance + moneyOf ((.save cause user, db.saved user) :: log) user.id ∧
      user.role = (lastRole ((.save cause user, db.saved user) :: log) user.id).getD .user := by
  rw [moneyOf_cons, lastRole_cons]
  rcases hsave with ⟨rfl, hfresh, hbalance, hrole⟩ | ⟨hne, ⟨stored, hstored, hcurrent⟩, hset⟩
  · obtain ⟨hpaid, hlast⟩ := hunknown user.id hfresh
    simp [Write.money, Write.role?, hpaid, hlast, hbalance, hrole]
  · have hrow := Table.find?_mem hstored
    have hid : stored.id = user.id := Table.find?_key hstored
    have hbalance := h.balance stored hrow
    have hrole := h.role stored hrow
    rw [hid] at hbalance hrole
    cases cause with
    | registration => exact absurd rfl hne
    | avatar =>
      simp only [SaveCause.current, Bool.and_eq_true, decide_eq_true_eq] at hcurrent
      simp [Write.money, Write.role?, hcurrent, hbalance, hrole]
    | role role =>
      have hsame : user.balance = stored.balance := of_decide_eq_true hcurrent
      simp [Write.money, Write.role?, hsame, hbalance, hset role rfl]
    | topUp amount =>
      simp only [SaveCause.current, Bool.and_eq_true, decide_eq_true_eq] at hcurrent
      simp [Write.money, Write.role?, hcurrent, hbalance, hrole]
      omega

theorem Accounts.done {db db' : Db} {w : Write} {now : DateTime} {log : List (Write × Db)}
    (hdone : w.Done db now db') (hsave : w.SavesCurrent db) (hunknown : UnknownUnpaid db log)
    (h : Accounts db log) : Accounts db' ((w, db') :: log) := by
  cases hdone with
  | create market outcomes at' hen =>
    constructor
    · intro u hu
      have hold := h.balance u hu
      simpa [moneyOf_cons, Write.money] using hold
    · intro u hu
      have hold := h.role u hu
      simpa [lastRole_cons, Write.role?] using hold
  | place bet priced points hen =>
    constructor
    · intro u' hu'
      obtain ⟨u, hu, rfl⟩ := List.mem_map.mp hu'
      have hold := h.balance u hu
      rw [moneyOf_cons]
      by_cases hid : u.id = bet.userId
      · simp only [hid, if_true, Write.money] at hold ⊢
        omega
      · have hne : ¬bet.userId = u.id := fun heq => hid heq.symm
        simpa only [hid, hne, if_false, Write.money, Int.zero_add] using hold
    · intro u' hu'
      obtain ⟨u, hu, rfl⟩ := List.mem_map.mp hu'
      have hold := h.role u hu
      rw [lastRole_cons]
      by_cases hid : u.id = bet.userId
      · simpa only [hid, if_true, Write.role?, Option.none_or] using hold
      · simpa only [hid, if_false, Write.role?, Option.none_or] using hold
  | settle market settled hin =>
    constructor
    · intro u' hu'
      obtain ⟨u, hu, rfl⟩ := List.mem_map.mp hu'
      have hold := h.balance u hu
      rw [moneyOf_cons, paidRow_balance, paidRow_id, hold]
      simp only [Write.money]
      omega
    · intro u' hu'
      obtain ⟨u, hu, rfl⟩ := List.mem_map.mp hu'
      have hold := h.role u hu
      rw [lastRole_cons, paidRow_id]
      cases hp : isPaid settled u.id <;> simpa [paidRow, hp, Write.role?] using hold
  | save cause user hun =>
    obtain ⟨hbalance, hrole⟩ := h.saved hsave hunknown
    have hother : ∀ u : User, u.id ≠ (db.savedRow user).id →
        (Write.save cause user).money u.id = 0 ∧ (Write.save cause user).role? u.id = none := by
      intro u hne
      rw [savedRow_id] at hne
      have hne' : ¬user.id = u.id := fun heq => hne heq.symm
      cases cause <;> simp [Write.money, Write.role?, hne']
    constructor
    · intro u hu
      rcases Table.mem_upsert.mp hu with rfl | ⟨hu, hne⟩
      · rw [savedRow_balance, savedRow_id]
        exact hbalance
      · rw [moneyOf_cons, (hother u hne).1, Int.zero_add]
        exact h.balance u hu
    · intro u hu
      rcases Table.mem_upsert.mp hu with rfl | ⟨hu, hne⟩
      · rw [savedRow_role, savedRow_id]
        exact hrole
      · rw [lastRole_cons, (hother u hne).2, Option.none_or]
        exact h.role u hu

structure Sys.Accounted (s : Sys) : Prop where
  copies : s.AllCopies (SameLogin s.db)
  saves : ∀ x ∈ s.calls, x.Sets
  unknown : UnknownUnpaid s.db s.log
  accounts : Accounts s.db s.log

theorem Sys.accounted_init : Sys.init.Accounted where
  copies := ⟨by simp [Sys.init, Db.empty], by simp [Sys.init, Cache.empty], by simp [Sys.init]⟩
  saves := by simp [Sys.init]
  unknown := by simp [UnknownUnpaid, moneyOf, lastRole, Sys.init]
  accounts := ⟨by simp [Sys.init, Db.empty], by simp [Sys.init, Db.empty]⟩

theorem Sys.Accounted.savesCurrent {s : Sys} {a : Act} {w : Write} (h : s.Accounted)
    (hg : savesCurrent s a = true) (hc : s.Commits a w) : w.SavesCurrent s.db := by
  rcases hc with hw | ⟨id, username, email, hash, now, -, hfresh, rfl⟩
  · cases w with
    | save cause user =>
      obtain ⟨stored, hstored, -⟩ := h.copies.save_stored hw
      refine .inr ⟨?_, ⟨stored, hstored, by simpa [Betsphere.savesCurrent, hw, hstored] using hg⟩, ?_⟩
      · rintro rfl
        exact s.save_sets h.saves hw
      · rintro role rfl
        exact s.save_sets h.saves hw
    | _ => trivial
  · exact .inl ⟨rfl, hfresh, rfl, rfl⟩

theorem Sys.Accounted.effect {build : Build} {s s' : Sys} {a : Act} (hwf : s.Wf)
    (hg : Betsphere.savesCurrent s a = true) (h : s.Accounted) (he : Sys.Effect build s a s') :
    s'.Accounted := by
  refine ⟨h.copies.sameLogin_effect hwf he, he.sets h.saves, ?_, ?_⟩
  · rcases hwf.tables he with ⟨hdb, hlog⟩ | ⟨w, now, hok, hdone, hlog⟩
    · rw [hdb, hlog]
      exact h.unknown
    · rw [hlog]
      exact h.unknown.done hwf.db hok hdone
  · rcases hwf.commits he with ⟨hdb, hlog⟩ | ⟨w, now, -, hdone, hlog, hc⟩
    · rw [hdb, hlog]
      exact h.accounts
    · rw [hlog]
      exact h.accounts.done hdone (h.savesCurrent hg hc) h.unknown

theorem Write.Done.of_save {db db' : Db} {cause : SaveCause} {user : User} {now : DateTime}
    (h : (Write.save cause user).Done db now db') : db' = db.saved user := by
  cases h
  rfl

theorem avatar_saved {db : Db} {user : User} (hlogin : SameLogin db user)
    (hcurrent : ∀ stored, db.userById user.id = some stored →
      SaveCause.avatar.current stored user = true) {id : UserId} {u : User}
    (hu : db.userById id = some u) :
    ∃ url at', (db.saved user).userById id =
      some { u with avatarUrl := url, updatedAt := at' } := by
  by_cases hid : user.id = id
  · obtain ⟨stored, hstored, hname, hemail, hhash⟩ := hlogin
    have hcur := hcurrent stored hstored
    simp only [SaveCause.current, Bool.and_eq_true, decide_eq_true_eq] at hcur
    have hkey : stored.id = user.id := Table.find?_key hstored
    have hsame : stored = u := by
      rw [hid, hu] at hstored
      exact (Option.some.inj hstored).symm
    subst hsame
    refine ⟨user.avatarUrl, user.updatedAt, ?_⟩
    rw [userById_saved, if_pos hid]
    simp only [Db.savedRow, hstored, hkey, hname, hemail, hhash, ← hcur.1, ← hcur.2]
  · exact ⟨u.avatarUrl, u.updatedAt, by rw [userById_saved, if_neg hid]; exact hu⟩

/-- No money and no role is lost in a run where every save writes back a copy that is
still current; then an avatar changes two columns of one row. -/
theorem saves_keep_accounts {build : Build} {as : List Act} {s : Sys}
    (h : Transition.run (Sys.step build) Sys.init as = some s)
    (hg : Transition.Guarded (Sys.step build) (fun u a => savesCurrent u a = true) Sys.init as) :
    Accounts s.db s.log ∧
    ∀ i env user s', s.writing? (.step i env) = some (.save .avatar user) →
      savesCurrent s (.step i env) = true → s.step build (.step i env) = some s' →
      (∀ id u, s.db.userById id = some u → ∃ url at', s'.db.userById id =
        some { u with avatarUrl := url, updatedAt := at' }) ∧
      s'.db.markets = s.db.markets ∧ s'.db.outcomes = s.db.outcomes ∧ s'.db.bets = s.db.bets := by
  have hstep : ∀ u a u', u.Wf ∧ u.Accounted → savesCurrent u a = true →
      Sys.step build u a = some u' → u'.Wf ∧ u'.Accounted := by
    rintro u a u' ⟨hwf, hacc⟩ ha hs
    have he := Sys.step_effect hs
    exact ⟨hwf.effect he, hacc.effect hwf ha he⟩
  obtain ⟨hwf, hacc⟩ := Transition.run_invariant hstep ⟨Sys.wf_init, Sys.accounted_init⟩ hg h
  refine ⟨hacc.accounts, fun i env user s' hw hcur hs => ?_⟩
  rcases hwf.commits (Sys.step_effect hs) with ⟨hdb, -⟩ | ⟨w, now, -, hdone, -, hc⟩
  · rw [hdb]
    exact ⟨fun id u hu => ⟨u.avatarUrl, u.updatedAt, hu⟩, rfl, rfl, rfl⟩
  · rcases hc with hw' | ⟨_, _, _, _, _, hact, -, -⟩
    · rw [hw] at hw'
      cases hw'
      rw [hdone.of_save]
      refine ⟨fun id u hu => avatar_saved (hacc.copies.save_stored hw) ?_ hu, rfl, rfl, rfl⟩
      intro stored hstored
      simpa [savesCurrent, hw, hstored] using hcur
    · simp at hact

namespace Sample

def avatar (userId : UserId) : Act :=
  .start (.profile (.uploadAvatar userId "image/png" [0])) (env 4 0)

def setRole (userId : UserId) (role : Role) : Act :=
  .start (.profile (.updateUser userId (some role))) (env 4 0)

def topUp (userId : UserId) (amount : Int) : Act :=
  .start (.profile (.topUp userId "bob" amount)) (env 4 0)

/-- After a stake and its eviction an avatar call stands before its save. -/
def currentAvatar : List Act :=
  opening ++ [bet ⟨1⟩ ⟨101⟩ 50] ++ steps 1 8 200 ++ [.evict ⟨1⟩, avatar ⟨1⟩] ++ steps 2 4 0

def withAvatar : User :=
  { User.new ⟨1⟩ alice ⟨alice.value⟩ ⟨[]⟩ 0 with
    avatarUrl := some ['/', 'a']
    balance := 9950
    updatedAt := 2 }

/-- Then the save, a role and a top-up. -/
def currentSaves : List Act :=
  currentAvatar ++ steps 2 2 0 ++ [setRole ⟨1⟩ .admin] ++ steps 3 3 0 ++ [topUp ⟨2⟩ 20000] ++
    steps 4 5 0

/-- The avatar call takes the bettor from the cache, where the eviction has not come yet. -/
def staleAvatar : List Act :=
  opening ++ [bet ⟨1⟩ ⟨101⟩ 50] ++ steps 1 8 200 ++ [avatar ⟨1⟩] ++ steps 2 4 0

/-- The avatar call has read the user when the role is set. -/
def crossedRole : List Act :=
  opening ++ [avatar ⟨1⟩] ++ steps 1 3 0 ++ [setRole ⟨1⟩ .admin] ++ steps 2 3 0 ++ steps 1 3 0

def accountOf (as : List Act) (id : UserId) : Option (Int × Role) :=
  ((state as).db.userById id).map fun u => (u.balance, u.role)

end Sample

theorem saves_keep_accounts_current :
    Accounts (Sample.state Sample.currentSaves).db (Sample.state Sample.currentSaves).log ∧
    ∀ id u, (Sample.state Sample.currentAvatar).db.userById id = some u → ∃ url at',
      (Sample.state (Sample.currentAvatar ++ [.step 2 (Sample.env 2 0)])).db.userById id =
        some { u with avatarUrl := url, updatedAt := at' } :=
  ⟨(saves_keep_accounts (Sample.run_state (by decide +kernel)) (by decide +kernel)).1,
    ((saves_keep_accounts (Sample.run_state (by decide +kernel)) (by decide +kernel)).2 2
      (Sample.env 2 0) Sample.withAvatar _ (by decide +kernel) (by decide +kernel)
      (Sample.step_from (by decide +kernel))).1⟩

/-- A stake comes back although the two calls never overlapped, and a role is lost. -/
theorem save_restores :
    (Transition.run (Sys.step .debug) Sys.init Sample.staleAvatar).isSome ∧
    (Sample.state Sample.staleAvatar).calls.all Slot.finished ∧
    Sample.accountOf Sample.staleAvatar ⟨1⟩ = some (10000, .user) ∧
    moneyOf (Sample.state Sample.staleAvatar).log ⟨1⟩ = -50 ∧
    (Transition.run (Sys.step .debug) Sys.init Sample.crossedRole).isSome ∧
    (Sample.state Sample.crossedRole).calls.all Slot.finished ∧
    Sample.accountOf Sample.crossedRole ⟨1⟩ = some (10000, .user) ∧
    lastRole (Sample.state Sample.crossedRole).log ⟨1⟩ = some .admin := by
  decide +kernel

end Betsphere
