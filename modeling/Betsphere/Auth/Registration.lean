import Betsphere.Auth.Sessions
import Betsphere.Lib.Transition
import Betsphere.Lib.UniqueIndex
import Betsphere.Postgres.Effects
set_option autoImplicit false

namespace Betsphere

/-- The hasher draws a salt for every password. -/
structure RegisterPorts extends AuthPorts where
  hash : Password → Text → Except AuthPortError PasswordHash

structure RegisterInput where
  username : Text
  email : Text
  password : Text
  deriving DecidableEq

structure RegisterEnv extends AuthEnv where
  userId : Uuid

/-- From `saveToken` on the transaction has inserted `user`, which nobody else sees yet. -/
inductive RegisterPhase where
  | begin (username : Username) (email : Email) (passwordHash : PasswordHash)
  | findByEmail (username : Username) (email : Email) (passwordHash : PasswordHash)
  | findByUsername (username : Username) (email : Email) (passwordHash : PasswordHash)
  | saveUser (user : User)
  | saveToken (user : User) (session : AuthSession) (record : RefreshToken)
  | commit (user : User) (session : AuthSession) (record : RefreshToken)
  | returned (answer : Except ApplicationError AuthSession)
  | dropped

/-- A call up to its first await; the password is hashed before the transaction. -/
def RegisterInput.begin (P : RegisterPorts) (input : RegisterInput) (salt : Text) :
    RegisterPhase :=
  match Username.new input.username with
  | .error e => .returned (.error (.domain e))
  | .ok username =>
    match Email.new P.lowercase input.email with
    | .error e => .returned (.error (.domain e))
    | .ok email =>
      match Password.new input.password with
      | .error e => .returned (.error (.domain e))
      | .ok password =>
        match P.hash password salt with
        | .error e => .returned (.error (.ofAuthPort e))
        | .ok passwordHash => .begin username email passwordHash

namespace RegisterPhase

def waiting? : RegisterPhase → Option User
  | .saveUser user => some user
  | .saveToken user _ _ => some user
  | .commit user _ _ => some user
  | _ => none

def held? : RegisterPhase → Option User
  | .saveToken user _ _ => some user
  | .commit user _ _ => some user
  | _ => none

def finished : RegisterPhase → Bool
  | .returned _ => true
  | .dropped => true
  | _ => false

def fail (e : ApplicationError) : RegisterPhase := .returned (.error e)

end RegisterPhase

structure RegisterCall where
  input : RegisterInput
  phase : RegisterPhase

/-- The sign-in calls over the committed rows, and the registrations. -/
structure Signups where
  auth : Auth
  registrations : List RegisterCall

def Signups.init : Signups := ⟨.init .empty, []⟩

inductive RegisterAct where
  | start (input : RegisterInput) (salt : Text)
  | next (i : Nat) (env : RegisterEnv)
  | fail (i : Nat) (message : String)
  | drop (i : Nat)
  | saveProfile (id : UserId) (avatarUrl : Option Text) (balance : Int) (role : Role)
      (now : DateTime)
  | auth (a : AuthAct)

namespace Signups

def setPhase (s : Signups) (i : Nat) (c : RegisterCall) (phase : RegisterPhase) : Signups :=
  { s with registrations := s.registrations.set i { c with phase } }

def db (s : Signups) : Db := { Db.empty with users := s.auth.users }

def userByUsername (s : Signups) (username : Username) : Option User :=
  s.auth.users.rows.find? fun u => u.username = username

/-- Another open transaction has inserted a row with one of the keys. -/
def blocked (s : Signups) (i : Nat) (user : User) : Bool :=
  s.registrations.zipIdx.any fun c => c.2 ≠ i && c.1.phase.held?.any fun u =>
    u.id = user.id || u.username = user.username || u.email = user.email

/-- The rows as the transaction that has inserted `user` sees them. -/
def withUser (s : Signups) (user : User) : Auth :=
  { s.auth with users := s.auth.users.upsert (s.db.savedRow user) }

def advance (P : RegisterPorts) (s : Signups) (i : Nat) (env : RegisterEnv) :
    RegisterPhase → Option RegisterPhase
  | .begin username email passwordHash => some (.findByEmail username email passwordHash)
  | .findByEmail username email passwordHash =>
    match s.auth.userByEmail email with
    | some _ => some (.fail (.conflict
        ("user with email " ++ String.ofList email.value ++ " already exists")))
    | none => some (.findByUsername username email passwordHash)
  | .findByUsername username email passwordHash =>
    match s.userByUsername username with
    | some _ => some (.fail (.conflict
        ("username " ++ String.ofList username.value ++ " is already taken")))
    | none => some (.saveUser (.new ⟨env.userId⟩ username email passwordHash env.now))
  | .saveUser user =>
    if s.blocked i user then none
    else
      match user.uniqueError s.db with
      | some e => some (.fail (.ofRepository e))
      | none =>
        match P.issue env.toAuthEnv user with
        | .error e => some (.fail e)
        | .ok (session, record) => some (.saveToken user session record)
  | .saveToken user session record =>
    match (s.withUser user).insertError record with
    | some e => some (.fail (.ofRepository e))
    | none => some (.commit user session record)
  | _ => none

def commit (s : Signups) (i : Nat) (c : RegisterCall) (user : User) (session : AuthSession)
    (record : RefreshToken) : Signups :=
  { s.setPhase i c (.returned (.ok session)) with auth := (s.withUser user).insertToken record }

/-- A failed await and a dropped call roll the transaction back. -/
def step (P : RegisterPorts) (s : Signups) : RegisterAct → Option Signups
  | .start input salt =>
    some { s with registrations := s.registrations ++ [⟨input, input.begin P salt⟩] }
  | .next i env =>
    match s.registrations[i]? with
    | none => none
    | some c =>
      match c.phase with
      | .commit user session record => some (s.commit i c user session record)
      | phase => (s.advance P i env phase).map (s.setPhase i c)
  | .fail i message =>
    match s.registrations[i]? with
    | none => none
    | some c =>
      if c.phase.finished then none else some (s.setPhase i c (.fail (.internal message)))
  | .drop i =>
    match s.registrations[i]? with
    | none => none
    | some c => if c.phase.finished then none else some (s.setPhase i c .dropped)
  | .saveProfile id avatarUrl balance role now =>
    match s.auth.users.find? id with
    | none => none
    | some u =>
      let user := { u with avatarUrl, balance, role, updatedAt := now }
      some { s with auth := { s.auth with users := s.auth.users.upsert user } }
  | .auth (.saveUser _) => none
  | .auth a => (s.auth.step P.toAuthPorts a).map fun auth => { s with auth }

def Registered (s : Signups) (i : Nat) (session : AuthSession) : Prop :=
  ∃ input, s.registrations[i]? = some ⟨input, .returned (.ok session)⟩

def draws (s : Signups) (i : Nat) : Bool :=
  match s.registrations[i]?.map RegisterCall.phase with
  | some (.findByUsername _ _ _) => true
  | _ => false

def Fresh (s : Signups) : RegisterAct → Prop
  | .next i env => s.draws i = true → (∀ u ∈ s.auth.users.rows, u.id ≠ ⟨env.userId⟩) ∧
      ∀ c ∈ s.registrations, (c.phase.waiting?.all fun u => u.id ≠ ⟨env.userId⟩) = true
  | _ => True

instance decidableFresh (s : Signups) : (a : RegisterAct) → Decidable (s.Fresh a)
  | .next i env => inferInstanceAs (Decidable (s.draws i = true →
      (∀ u ∈ s.auth.users.rows, u.id ≠ ⟨env.userId⟩) ∧
      ∀ c ∈ s.registrations, (c.phase.waiting?.all fun u => u.id ≠ ⟨env.userId⟩) = true))
  | .start _ _ => isTrue trivial
  | .fail _ _ => isTrue trivial
  | .drop _ => isTrue trivial
  | .saveProfile _ _ _ _ _ => isTrue trivial
  | .auth _ => isTrue trivial

def waiting (s : Signups) (i : Nat) : Option User :=
  s.registrations[i]?.bind fun c => c.phase.waiting?

def held (s : Signups) (i : Nat) : Option User :=
  s.registrations[i]?.bind fun c => c.phase.held?

end Signups

/-- What a registration asks for is what the domain makes of its input. -/
def RegisterInput.Accepts (P : RegisterPorts) (input : RegisterInput) (username : Username)
    (email : Email) (passwordHash : PasswordHash) : Prop :=
  Username.new input.username = .ok username ∧ Email.new P.lowercase input.email = .ok email ∧
    ∃ password salt, Password.new input.password = .ok password ∧
      P.hash password salt = .ok passwordHash

/-- The call's user has the credentials it was asked for, and its session is that user's. -/
def RegisterCall.Right (P : RegisterPorts) (c : RegisterCall) : Prop :=
  match c.phase with
  | .begin username email passwordHash => c.input.Accepts P username email passwordHash
  | .findByEmail username email passwordHash => c.input.Accepts P username email passwordHash
  | .findByUsername username email passwordHash => c.input.Accepts P username email passwordHash
  | .saveUser user => c.input.Accepts P user.username user.email user.passwordHash
  | .saveToken user session record | .commit user session record =>
    c.input.Accepts P user.username user.email user.passwordHash ∧ session.user = user ∧
      record.userId = user.id ∧ record.tokenHash = P.hashRefreshToken session.refreshToken
  | .returned (.ok session) =>
    c.input.Accepts P session.user.username session.user.email session.user.passwordHash
  | _ => True

/-- Profile saves leave who a user is as it is. -/
def User.SameAccount (u v : User) : Prop :=
  u.id = v.id ∧ u.username = v.username ∧ u.email = v.email ∧ u.passwordHash = v.passwordHash

structure Signups.Inv (P : RegisterPorts) (s : Signups) : Prop where
  ids : UniqueIndex.Kept User.id s.auth.users.rows s.waiting
  usernames : UniqueIndex.Kept User.username s.auth.users.rows s.held
  emails : UniqueIndex.Kept User.email s.auth.users.rows s.held
  right : ∀ c ∈ s.registrations, c.Right P
  accounts : ∀ i session, s.Registered i session →
    ∃ u ∈ s.auth.users.rows, u.SameAccount session.user
  owners : ∀ u ∈ s.auth.users.rows, ∃ i session, s.Registered i session ∧ session.user.id = u.id
  once : ∀ i j x y, s.Registered i x → s.Registered j y → x.user.id = y.user.id → i = j

namespace Signups
variable {P : RegisterPorts} {s s' : Signups} {i : Nat} {c : RegisterCall} {phase : RegisterPhase}

theorem waiting_setPhase (hc : s.registrations[i]? = some c) :
    (s.setPhase i c phase).waiting = Function.update s.waiting i phase.waiting? := by
  funext j
  have hi := (List.getElem?_eq_some_iff.mp hc).1
  by_cases hj : j = i
  · subst hj
    simp [waiting, setPhase, List.getElem?_set_self hi]
  · simp [waiting, setPhase, List.getElem?_set_ne (Ne.symm hj), hj]

theorem held_setPhase (hc : s.registrations[i]? = some c) :
    (s.setPhase i c phase).held = Function.update s.held i phase.held? := by
  funext j
  have hi := (List.getElem?_eq_some_iff.mp hc).1
  by_cases hj : j = i
  · subst hj
    simp [held, setPhase, List.getElem?_set_self hi]
  · simp [held, setPhase, List.getElem?_set_ne (Ne.symm hj), hj]

theorem waiting_of (hc : s.registrations[i]? = some c) : s.waiting i = c.phase.waiting? := by
  simp [waiting, hc]

theorem held_of (hc : s.registrations[i]? = some c) : s.held i = c.phase.held? := by
  simp [held, hc]

theorem registered_setPhase (hc : s.registrations[i]? = some c) (hopen : c.phase.finished = false)
    (hphase : ∀ session, phase ≠ .returned (.ok session)) (j : Nat) (session : AuthSession) :
    (s.setPhase i c phase).Registered j session ↔ s.Registered j session := by
  have hi := (List.getElem?_eq_some_iff.mp hc).1
  unfold Registered setPhase
  by_cases hj : j = i
  · subst hj
    simp only [List.getElem?_set_self hi, hc, Option.some.injEq]
    constructor
    · rintro ⟨input, heq⟩
      cases heq
      exact absurd rfl (hphase session)
    · rintro ⟨input, heq⟩
      rw [heq] at hopen
      simp [RegisterPhase.finished] at hopen
  · rw [List.getElem?_set_ne (Ne.symm hj)]

theorem mem_setPhase {d : RegisterCall} (hd : d ∈ (s.setPhase i c phase).registrations) :
    d ∈ s.registrations ∨ d = { c with phase } :=
  List.mem_or_eq_of_mem_set hd

theorem Inv.moved (h : s.Inv P) (hc : s.registrations[i]? = some c)
    (hopen : c.phase.finished = false) (hphase : ∀ session, phase ≠ .returned (.ok session))
    (hids : UniqueIndex.Kept User.id s.auth.users.rows
      (Function.update s.waiting i phase.waiting?))
    (husernames : UniqueIndex.Kept User.username s.auth.users.rows
      (Function.update s.held i phase.held?))
    (hemails : UniqueIndex.Kept User.email s.auth.users.rows
      (Function.update s.held i phase.held?))
    (hright : RegisterCall.Right P { c with phase }) : (s.setPhase i c phase).Inv P where
  ids := by
    rw [waiting_setPhase hc]
    exact hids
  usernames := by
    rw [held_setPhase hc]
    exact husernames
  emails := by
    rw [held_setPhase hc]
    exact hemails
  right := by
    intro d hd
    rcases mem_setPhase hd with hd | rfl
    · exact h.right d hd
    · exact hright
  accounts := by
    intro j session hj
    exact h.accounts j session ((registered_setPhase hc hopen hphase j session).mp hj)
  owners := by
    intro u hu
    obtain ⟨j, session, hj, hid⟩ := h.owners u hu
    exact ⟨j, session, (registered_setPhase hc hopen hphase j session).mpr hj, hid⟩
  once := by
    intro j k x y hx hy
    exact h.once j k x y ((registered_setPhase hc hopen hphase j x).mp hx)
      ((registered_setPhase hc hopen hphase k y).mp hy)

theorem Inv.ended (h : s.Inv P) (hc : s.registrations[i]? = some c)
    (hopen : c.phase.finished = false)
    (hphase : phase = .dropped ∨ ∃ e, phase = .fail e) : (s.setPhase i c phase).Inv P := by
  rcases hphase with rfl | ⟨e, rfl⟩
  · exact h.moved hc hopen (by simp) (h.ids.release i) (h.usernames.release i)
      (h.emails.release i) trivial
  · exact h.moved hc hopen (by simp [RegisterPhase.fail]) (h.ids.release i)
      (h.usernames.release i) (h.emails.release i) trivial

theorem blocked_false {user : User} (h : s.blocked i user = false) {j : Nat} {u : User}
    (hj : j ≠ i) (hu : s.held j = some u) :
    u.id ≠ user.id ∧ u.username ≠ user.username ∧ u.email ≠ user.email := by
  obtain ⟨d, hd, hheld⟩ := Option.bind_eq_some_iff.mp hu
  have hall := List.any_eq_false.mp h (d, j) (List.mem_zipIdx_iff_getElem?.mpr hd)
  simpa [hj, hheld, and_assoc] using hall

theorem issue_spec {env : AuthEnv} {user : User} {session : AuthSession} {record : RefreshToken}
    (h : P.issue env user = .ok (session, record)) :
    session.user = user ∧ record.userId = user.id ∧
      record.tokenHash = P.hashRefreshToken session.refreshToken := by
  unfold AuthPorts.issue at h
  split at h
  · simp at h
  · cases h
    exact ⟨rfl, rfl, rfl⟩

theorem Inv.userSaved (h : s.Inv P) (hc : s.registrations[i]? = some c) {env : RegisterEnv}
    {user : User} (hphase : c.phase = .saveUser user)
    (hnext : s.advance P i env (.saveUser user) = some phase) : (s.setPhase i c phase).Inv P := by
  have hright := h.right c (List.mem_of_getElem? hc)
  have hwaiting := waiting_of hc
  have hopen : c.phase.finished = false := by rw [hphase]; rfl
  simp only [RegisterCall.Right, hphase] at hright
  simp only [Signups.advance] at hnext
  split at hnext
  · simp at hnext
  · rename_i hfree
    have hunlocked : s.blocked i user = false := by simpa using hfree
    split at hnext
    · cases hnext
      exact h.ended hc hopen (.inr ⟨_, rfl⟩)
    · rename_i hunique
      split at hnext
      · cases hnext
        exact h.ended hc hopen (.inr ⟨_, rfl⟩)
      · rename_i session record hissue
        cases hnext
        rw [hphase] at hwaiting
        have hsame : Function.update s.waiting i (some user) = s.waiting := by
          rw [← show s.waiting i = some user from hwaiting, Function.update_eq_self]
        have hapart := h.ids.apart i user hwaiting
        refine h.moved hc hopen (by simp) ?_ ?_ ?_ ⟨hright, issue_spec hissue⟩
        · change UniqueIndex.Kept User.id _ (Function.update s.waiting i (some user))
          rw [hsame]
          exact h.ids
        · exact h.usernames.take (fun r hr => (uniqueError_apart hunique hr (hapart r hr)).1)
            fun j u hj hu => (blocked_false hunlocked hj hu).2.1
        · exact h.emails.take (fun r hr => (uniqueError_apart hunique hr (hapart r hr)).2)
            fun j u hj hu => (blocked_false hunlocked hj hu).2.2

theorem Inv.tokenSaved (h : s.Inv P) (hc : s.registrations[i]? = some c) {env : RegisterEnv}
    {user : User} {session : AuthSession} {record : RefreshToken}
    (hphase : c.phase = .saveToken user session record)
    (hnext : s.advance P i env (.saveToken user session record) = some phase) :
    (s.setPhase i c phase).Inv P := by
  have hright := h.right c (List.mem_of_getElem? hc)
  have hwaiting := waiting_of hc
  have hheld := held_of hc
  have hopen : c.phase.finished = false := by rw [hphase]; rfl
  simp only [RegisterCall.Right, hphase] at hright
  simp only [Signups.advance] at hnext
  split at hnext
  · cases hnext
    exact h.ended hc hopen (.inr ⟨_, rfl⟩)
  · cases hnext
    rw [hphase] at hwaiting hheld
    have hsame : Function.update s.waiting i (some user) = s.waiting := by
      rw [← show s.waiting i = some user from hwaiting, Function.update_eq_self]
    have hsame' : Function.update s.held i (some user) = s.held := by
      rw [← show s.held i = some user from hheld, Function.update_eq_self]
    refine h.moved hc hopen (by simp) ?_ ?_ ?_ hright
    · change UniqueIndex.Kept User.id _ (Function.update s.waiting i (some user))
      rw [hsame]
      exact h.ids
    · change UniqueIndex.Kept User.username _ (Function.update s.held i (some user))
      rw [hsame']
      exact h.usernames
    · change UniqueIndex.Kept User.email _ (Function.update s.held i (some user))
      rw [hsame']
      exact h.emails

theorem Inv.advance (h : s.Inv P) (hc : s.registrations[i]? = some c) {env : RegisterEnv}
    (hfresh : s.Fresh (.next i env)) (hnext : s.advance P i env c.phase = some phase) :
    (s.setPhase i c phase).Inv P := by
  have hright := h.right c (List.mem_of_getElem? hc)
  cases hphase : c.phase with
  | begin username email passwordHash =>
    simp only [RegisterCall.Right, hphase] at hright
    rw [hphase] at hnext
    cases hnext
    exact h.moved hc (by rw [hphase]; rfl) (by simp) (h.ids.release i) (h.usernames.release i)
      (h.emails.release i) hright
  | findByEmail username email passwordHash =>
    simp only [RegisterCall.Right, hphase] at hright
    simp only [hphase, Signups.advance] at hnext
    have hopen : c.phase.finished = false := by rw [hphase]; rfl
    split at hnext
    · cases hnext
      exact h.ended hc hopen (.inr ⟨_, rfl⟩)
    · cases hnext
      exact h.moved hc hopen (by simp) (h.ids.release i) (h.usernames.release i)
        (h.emails.release i) hright
  | findByUsername username email passwordHash =>
    simp only [RegisterCall.Right, hphase] at hright
    simp only [hphase, Signups.advance] at hnext
    have hopen : c.phase.finished = false := by rw [hphase]; rfl
    split at hnext
    · cases hnext
      exact h.ended hc hopen (.inr ⟨_, rfl⟩)
    · cases hnext
      obtain ⟨hstored, hdrawn⟩ := hfresh (by simp [draws, hc, hphase])
      refine h.moved hc hopen (by simp) (h.ids.take hstored fun j u _ hu => ?_)
        (h.usernames.release i) (h.emails.release i) hright
      obtain ⟨d, hd, hdwait⟩ := Option.bind_eq_some_iff.mp hu
      have hall := hdrawn d (List.mem_of_getElem? hd)
      rw [hdwait, Option.all_some, decide_eq_true_iff] at hall
      exact hall
  | saveUser user => exact h.userSaved hc hphase (hphase ▸ hnext)
  | saveToken user session record => exact h.tokenSaved hc hphase (hphase ▸ hnext)
  | commit user session record => simp [hphase, Signups.advance] at hnext
  | returned answer => simp [hphase, Signups.advance] at hnext
  | dropped => simp [hphase, Signups.advance] at hnext

theorem Inv.withUser_rows (h : s.Inv P) {user : User} (hwaiting : s.waiting i = some user) :
    (s.withUser user).users.rows = s.auth.users.rows ++ [user] := by
  have hnone : s.auth.users.find? user.id = none :=
    Table.find?_eq_none.mpr (h.ids.apart i user hwaiting)
  have hsaved : s.db.savedRow user = user := by
    unfold Db.savedRow
    rw [show s.db.userById user.id = none from hnone]
  simp only [withUser, hsaved]
  exact Table.rows_upsert_fresh hnone

theorem registered_commit (hc : s.registrations[i]? = some c) {user : User} {session : AuthSession}
    {record : RefreshToken} (hphase : c.phase = .commit user session record) (j : Nat)
    (x : AuthSession) : (s.commit i c user session record).Registered j x ↔
      j = i ∧ x = session ∨ s.Registered j x := by
  have hi := (List.getElem?_eq_some_iff.mp hc).1
  unfold Registered commit setPhase
  by_cases hj : j = i
  · subst hj
    simp only [List.getElem?_set_self hi, hc, Option.some.injEq, true_and]
    constructor
    · rintro ⟨input, heq⟩
      cases heq
      exact .inl rfl
    · rintro (rfl | ⟨input, heq⟩)
      · exact ⟨c.input, rfl⟩
      · rw [heq] at hphase
        simp at hphase
  · simp [List.getElem?_set_ne (Ne.symm hj), hj]

theorem Inv.commit (h : s.Inv P) (hc : s.registrations[i]? = some c) {user : User}
    {session : AuthSession} {record : RefreshToken}
    (hphase : c.phase = .commit user session record) :
    (s.commit i c user session record).Inv P := by
  have hright := h.right c (List.mem_of_getElem? hc)
  simp only [RegisterCall.Right, hphase] at hright
  obtain ⟨haccepts, rfl, -, -⟩ := hright
  have hwaiting : s.waiting i = some session.user := by rw [waiting_of hc, hphase]; rfl
  have hheld : s.held i = some session.user := by rw [held_of hc, hphase]; rfl
  have hrows : (s.commit i c session.user session record).auth.users.rows =
      s.auth.users.rows ++ [session.user] := h.withUser_rows hwaiting
  have hnew := h.ids.apart i session.user hwaiting
  refine ⟨?_, ?_, ?_, fun d hd => ?_, fun j x hx => ?_, fun u hu => ?_, fun j k x y hx hy hid => ?_⟩
  · rw [hrows]
    exact (waiting_setPhase hc) ▸ h.ids.commit hwaiting
  · rw [hrows]
    exact (held_setPhase hc) ▸ h.usernames.commit hheld
  · rw [hrows]
    exact (held_setPhase hc) ▸ h.emails.commit hheld
  · rcases mem_setPhase hd with hd | rfl
    · exact h.right d hd
    · exact haccepts
  · rw [hrows]
    rcases (registered_commit hc hphase j x).mp hx with ⟨-, rfl⟩ | hx
    · exact ⟨x.user, by simp, rfl, rfl, rfl, rfl⟩
    · obtain ⟨u, hu, hsame⟩ := h.accounts j x hx
      exact ⟨u, List.mem_append_left _ hu, hsame⟩
  · rw [hrows] at hu
    rcases List.mem_append.mp hu with hu | hu
    · obtain ⟨j, x, hx, hid⟩ := h.owners u hu
      exact ⟨j, x, (registered_commit hc hphase j x).mpr (.inr hx), hid⟩
    · obtain rfl := List.mem_singleton.mp hu
      exact ⟨i, session, (registered_commit hc hphase i session).mpr (.inl ⟨rfl, rfl⟩), rfl⟩
  · -- A stored identifier is not the new one.
    have hother : ∀ j x, s.Registered j x → x.user.id ≠ session.user.id := by
      intro j x hx
      obtain ⟨u, hu, hsame⟩ := h.accounts j x hx
      exact hsame.1 ▸ hnew u hu
    rcases (registered_commit hc hphase j x).mp hx with ⟨hj, hxs⟩ | hx'
    · rcases (registered_commit hc hphase k y).mp hy with ⟨hk, -⟩ | hy'
      · exact hj.trans hk.symm
      · rw [hxs] at hid
        exact absurd hid.symm (hother k y hy')
    · rcases (registered_commit hc hphase k y).mp hy with ⟨-, hys⟩ | hy'
      · rw [hys] at hid
        exact absurd hid (hother j x hx')
      · exact h.once j k x y hx' hy' hid

theorem Inv.same (h : s.Inv P) (hreg : s'.registrations = s.registrations)
    (hids : s'.auth.users.rows.map User.id = s.auth.users.rows.map User.id)
    (husernames : s'.auth.users.rows.map User.username = s.auth.users.rows.map User.username)
    (hemails : s'.auth.users.rows.map User.email = s.auth.users.rows.map User.email)
    (hkept : ∀ u ∈ s.auth.users.rows, ∃ v ∈ s'.auth.users.rows, v.SameAccount u) : s'.Inv P where
  ids := by
    have hwaiting : s'.waiting = s.waiting := by
      funext j
      simp [waiting, hreg]
    rw [hwaiting]
    exact h.ids.mapRows hids
  usernames := by
    have hheld : s'.held = s.held := by
      funext j
      simp [held, hreg]
    rw [hheld]
    exact h.usernames.mapRows husernames
  emails := by
    have hheld : s'.held = s.held := by
      funext j
      simp [held, hreg]
    rw [hheld]
    exact h.emails.mapRows hemails
  right := hreg ▸ h.right
  accounts := by
    intro j session hj
    unfold Registered at hj
    rw [hreg] at hj
    obtain ⟨u, hu, hsame⟩ := h.accounts j session hj
    obtain ⟨v, hv, h₁, h₂, h₃, h₄⟩ := hkept u hu
    obtain ⟨h₅, h₆, h₇, h₈⟩ := hsame
    exact ⟨v, hv, h₁.trans h₅, h₂.trans h₆, h₃.trans h₇, h₄.trans h₈⟩
  owners := by
    intro u hu
    have hmem : u.id ∈ s.auth.users.rows.map User.id := hids ▸ List.mem_map_of_mem hu
    obtain ⟨v, hv, hid⟩ := List.mem_map.mp hmem
    obtain ⟨j, session, hj, hsame⟩ := h.owners v hv
    unfold Registered at hj ⊢
    rw [hreg]
    exact ⟨j, session, hj, hsame.trans hid⟩
  once := by
    intro j k x y hx hy
    unfold Registered at hx hy
    rw [hreg] at hx hy
    exact h.once j k x y hx hy

theorem begin_cases (P : RegisterPorts) (input : RegisterInput) (salt : Text) :
    (∃ e, input.begin P salt = .returned (.error e)) ∨
      ∃ username email passwordHash, input.begin P salt = .begin username email passwordHash ∧
        input.Accepts P username email passwordHash := by
  unfold RegisterInput.begin
  split
  · exact .inl ⟨_, rfl⟩
  · rename_i username husername
    split
    · exact .inl ⟨_, rfl⟩
    · rename_i email hemail
      split
      · exact .inl ⟨_, rfl⟩
      · rename_i password hpassword
        split
        · exact .inl ⟨_, rfl⟩
        · rename_i passwordHash hhash
          exact .inr ⟨_, _, _, rfl, husername, hemail, password, salt, hpassword, hhash⟩

theorem Inv.started (h : s.Inv P) (input : RegisterInput) (salt : Text) :
    ({ s with registrations := s.registrations ++ [⟨input, input.begin P salt⟩] } :
      Signups).Inv P := by
  have hbegin : (input.begin P salt).waiting? = none ∧ (input.begin P salt).held? = none ∧
      (∀ session, input.begin P salt ≠ .returned (.ok session)) ∧
      RegisterCall.Right P ⟨input, input.begin P salt⟩ := by
    rcases begin_cases P input salt with ⟨e, he⟩ | ⟨username, email, passwordHash, he, haccepts⟩
    · rw [he]
      exact ⟨rfl, rfl, by simp, trivial⟩
    · rw [he]
      exact ⟨rfl, rfl, by simp, haccepts⟩
  obtain ⟨hwait, hhold, hphase, hright⟩ := hbegin
  generalize input.begin P salt = phase at hwait hhold hphase hright
  have hget : ∀ j : Nat, (s.registrations ++ [RegisterCall.mk input phase])[j]? =
      s.registrations[j]? ∨ s.registrations[j]? = none ∧
        ((s.registrations ++ [RegisterCall.mk input phase])[j]? =
          some (RegisterCall.mk input phase) ∨
          (s.registrations ++ [RegisterCall.mk input phase])[j]? = none) := by
    intro j
    rw [List.getElem?_append]
    split
    · exact .inl rfl
    · rename_i hlt
      refine .inr ⟨List.getElem?_eq_none (by omega), ?_⟩
      rw [List.getElem?_singleton]
      split
      · exact .inl rfl
      · exact .inr rfl
  have hwaiting : ({ s with registrations := s.registrations ++ [.mk input phase] } :
      Signups).waiting = s.waiting := by
    funext j
    rcases hget j with hsame | ⟨hnone, hnew | hnew⟩
    · simp [waiting, hsame]
    · simp [waiting, hnone, hnew, hwait]
    · simp [waiting, hnone, hnew]
  have hheld : ({ s with registrations := s.registrations ++ [.mk input phase] } :
      Signups).held = s.held := by
    funext j
    rcases hget j with hsame | ⟨hnone, hnew | hnew⟩
    · simp [held, hsame]
    · simp [held, hnone, hnew, hhold]
    · simp [held, hnone, hnew]
  have hregistered : ∀ j session, ({ s with registrations := s.registrations ++
      [.mk input phase] } : Signups).Registered j session ↔ s.Registered j session := by
    intro j session
    unfold Registered
    rcases hget j with hsame | ⟨hnone, hnew | hnew⟩
    · rw [hsame]
    · simp only [hnone, hnew, Option.some.injEq, RegisterCall.mk.injEq, reduceCtorEq]
      constructor
      · rintro ⟨x, -, hx⟩
        exact absurd hx (hphase session)
      · rintro ⟨x, hx⟩
        exact absurd hx id
    · rw [hnone, hnew]
  refine ⟨hwaiting ▸ h.ids, hheld ▸ h.usernames, hheld ▸ h.emails, fun d hd => ?_,
    fun j x hx => h.accounts j x ((hregistered j x).mp hx), fun u hu => ?_,
    fun j k x y hx hy => h.once j k x y ((hregistered j x).mp hx) ((hregistered k y).mp hy)⟩
  · rcases List.mem_append.mp hd with hd | hd
    · exact h.right d hd
    · obtain rfl := List.mem_singleton.mp hd
      exact hright
  · obtain ⟨j, x, hx, hid⟩ := h.owners u hu
    exact ⟨j, x, (hregistered j x).mpr hx, hid⟩

theorem Inv.savedProfile (h : s.Inv P) {u : User} (hu : s.auth.users.find? u.id = some u)
    {v : User} (hv : v.SameAccount u) :
    ({ s with auth := { s.auth with users := s.auth.users.upsert v } } : Signups).Inv P := by
  obtain ⟨hid, husername, hemail, hhash⟩ := hv
  have hrows : (s.auth.users.upsert v).rows = s.auth.users.rows.map fun x =>
      if x.id = v.id then v else x := Table.rows_upsert_found (by rw [hid]; exact hu)
  -- The one row that changes is the user's, and only in its profile.
  have hsame : ∀ x ∈ s.auth.users.rows, (if x.id = v.id then v else x).SameAccount x := by
    intro x hx
    split
    · rename_i heq
      have hxu := s.auth.users.eq_of_key hx (Table.find?_mem hu) (heq.trans hid)
      rw [hxu]
      exact ⟨hid, husername, hemail, hhash⟩
    · exact ⟨rfl, rfl, rfl, rfl⟩
  have hkeys : ∀ {β : Type} (key : User → β), (∀ a b : User, a.SameAccount b → key a = key b) →
      (s.auth.users.upsert v).rows.map key = s.auth.users.rows.map key := by
    intro β key hkey
    rw [hrows, List.map_map]
    exact List.map_congr_left fun x hx => hkey _ _ (hsame x hx)
  refine h.same rfl (hkeys _ fun _ _ hab => hab.1) (hkeys _ fun _ _ hab => hab.2.1)
    (hkeys _ fun _ _ hab => hab.2.2.1) fun x hx => ⟨_, ?_, hsame x hx⟩
  rw [hrows]
  exact List.mem_map_of_mem hx

theorem auth_users {t t' : Auth} {a : AuthAct} (ha : ∀ user, a ≠ .saveUser user)
    (h : t.step P.toAuthPorts a = some t') : t'.users = t.users := by
  cases Auth.step_effect h with
  | saved user => exact absurd rfl (ha user)
  | _ => rfl

theorem auth_step {a : AuthAct} (h : s.step P (.auth a) = some s') :
    s'.registrations = s.registrations ∧ s'.auth.users = s.auth.users := by
  have hcases : (∀ user, a ≠ .saveUser user) ∧
      (s.auth.step P.toAuthPorts a).map (fun auth => { s with auth }) = some s' := by
    cases a with
    | saveUser user => simp [step] at h
    | _ => exact ⟨by simp, h⟩
  obtain ⟨auth, hauth, rfl⟩ := Option.map_eq_some_iff.mp hcases.2
  exact ⟨rfl, auth_users hcases.1 hauth⟩

theorem next_cases {env : RegisterEnv} (h : s.step P (.next i env) = some s') :
    ∃ c, s.registrations[i]? = some c ∧
      ((∃ user session record, c.phase = .commit user session record ∧
        s' = s.commit i c user session record) ∨
      ∃ phase, s.advance P i env c.phase = some phase ∧ s' = s.setPhase i c phase) := by
  simp only [step] at h
  split at h
  · simp at h
  · rename_i c hc
    refine ⟨c, hc, ?_⟩
    split at h
    · rename_i user session record hphase
      cases h
      exact .inl ⟨user, session, record, hphase, rfl⟩
    · obtain ⟨phase, hphase, rfl⟩ := Option.map_eq_some_iff.mp h
      exact .inr ⟨phase, hphase, rfl⟩

theorem Inv.step (h : s.Inv P) {a : RegisterAct} (hfresh : s.Fresh a)
    (hs : s.step P a = some s') : s'.Inv P := by
  cases a with
  | start input salt =>
    cases hs
    exact h.started input salt
  | next i env =>
    obtain ⟨c, hc, ⟨user, session, record, hphase, rfl⟩ | ⟨phase, hphase, rfl⟩⟩ := next_cases hs
    · exact h.commit hc hphase
    · exact h.advance hc hfresh hphase
  | fail i message =>
    simp only [Signups.step] at hs
    split at hs
    · simp at hs
    · rename_i c hc
      split at hs
      · simp at hs
      · rename_i hopen
        cases hs
        exact h.ended hc (by simpa using hopen) (.inr ⟨_, rfl⟩)
  | drop i =>
    simp only [Signups.step] at hs
    split at hs
    · simp at hs
    · rename_i c hc
      split at hs
      · simp at hs
      · rename_i hopen
        cases hs
        exact h.ended hc (by simpa using hopen) (.inl rfl)
  | saveProfile id avatarUrl balance role now =>
    simp only [Signups.step] at hs
    split at hs
    · simp at hs
    · rename_i u hu
      cases hs
      have hid : u.id = id := Table.find?_key hu
      subst hid
      exact h.savedProfile hu ⟨rfl, rfl, rfl, rfl⟩
  | auth a =>
    obtain ⟨hreg, husers⟩ := auth_step hs
    refine h.same hreg (by rw [husers]) (by rw [husers]) (by rw [husers]) fun u hu => ?_
    exact ⟨u, husers ▸ hu, rfl, rfl, rfl, rfl⟩

theorem init_inv : Signups.init.Inv P := by
  have hwaiting : Signups.init.waiting = fun _ => none := by
    funext j
    simp [waiting, init]
  have hheld : Signups.init.held = fun _ => none := by
    funext j
    simp [held, init]
  refine ⟨hwaiting ▸ UniqueIndex.kept_nil, hheld ▸ UniqueIndex.kept_nil,
    hheld ▸ UniqueIndex.kept_nil, ?_, ?_, ?_, ?_⟩ <;> simp [Registered, init, Auth.init]

theorem Inv.run {as : List RegisterAct} (h : Transition.run (Signups.step P) .init as = some s)
    (hg : Transition.Guarded (Signups.step P) Fresh .init as) : s.Inv P :=
  Transition.run_invariant (fun _ _ _ hi ha hs => hi.step ha hs) init_inv hg h

/-- A user appears when its registration answers, and its first token with it. -/
theorem Inv.appears (h : s.Inv P) {a : RegisterAct} (hs : s.step P a = some s') {u : User}
    (hu : u ∈ s'.auth.users.rows) (hnew : ∀ v ∈ s.auth.users.rows, v.id ≠ u.id) :
    ∃ i session, s'.Registered i session ∧ session.user = u ∧
      ∃ r ∈ s'.auth.refreshTokens.rows, r.userId = u.id ∧
        r.tokenHash = P.hashRefreshToken session.refreshToken := by
  cases a with
  | next i env =>
    obtain ⟨c, hc, ⟨user, session, record, hphase, rfl⟩ | ⟨phase, -, rfl⟩⟩ := next_cases hs
    · have hright := h.right c (List.mem_of_getElem? hc)
      simp only [RegisterCall.Right, hphase] at hright
      obtain ⟨-, rfl, huser, hhash⟩ := hright
      have hwaiting : s.waiting i = some session.user := by rw [waiting_of hc, hphase]; rfl
      change u ∈ (s.withUser session.user).users.rows at hu
      rw [h.withUser_rows hwaiting] at hu
      rcases List.mem_append.mp hu with hu | hu
      · exact absurd rfl (hnew u hu)
      · obtain rfl := List.mem_singleton.mp hu
        refine ⟨i, session, (registered_commit hc hphase i session).mpr (.inl ⟨rfl, rfl⟩), rfl,
          record, ?_, huser, hhash⟩
        exact Table.mem_upsert.mpr (.inl rfl)
    · exact absurd rfl (hnew u hu)
  | start input salt =>
    cases hs
    exact absurd rfl (hnew u hu)
  | fail i message =>
    simp only [Signups.step] at hs
    split at hs
    · simp at hs
    · split at hs
      · simp at hs
      · cases hs
        exact absurd rfl (hnew u hu)
  | drop i =>
    simp only [Signups.step] at hs
    split at hs
    · simp at hs
    · split at hs
      · simp at hs
      · cases hs
        exact absurd rfl (hnew u hu)
  | saveProfile id avatarUrl balance role now =>
    simp only [Signups.step] at hs
    split at hs
    · simp at hs
    · rename_i v hv
      cases hs
      rcases Table.mem_upsert.mp hu with rfl | ⟨hold, -⟩
      · exact absurd rfl (hnew v (Table.find?_mem hv))
      · exact absurd rfl (hnew u hold)
  | auth a => exact absurd rfl (hnew u ((auth_step hs).2 ▸ hu))

end Signups

/-- In every run, accounts differ in username and email, there is exactly one for each
registration that answered with a session, with the credentials it asked for, and a new one
appears together with its first refresh token. -/
theorem registrations_apart {P : RegisterPorts} {as : List RegisterAct} {s : Signups}
    (h : Transition.run (Signups.step P) .init as = some s)
    (hg : Transition.Guarded (Signups.step P) Signups.Fresh .init as) :
    (s.auth.users.rows.map User.username).Nodup ∧ (s.auth.users.rows.map User.email).Nodup ∧
    (∀ (i : Nat) input session,
      s.registrations[i]? = some (RegisterCall.mk input (.returned (.ok session))) →
      ∃ u ∈ s.auth.users.rows, u.SameAccount session.user ∧
        input.Accepts P u.username u.email u.passwordHash) ∧
    (∀ u ∈ s.auth.users.rows, ∃! i, ∃ session, s.Registered i session ∧ session.user.id = u.id) ∧
    ∀ a s', s.step P a = some s' → ∀ u ∈ s'.auth.users.rows,
      (∀ v ∈ s.auth.users.rows, v.id ≠ u.id) →
      ∃ i session, s'.Registered i session ∧ session.user = u ∧
        ∃ r ∈ s'.auth.refreshTokens.rows, r.userId = u.id ∧
          r.tokenHash = P.hashRefreshToken session.refreshToken := by
  have hinv := Signups.Inv.run h hg
  refine ⟨hinv.usernames.committed, hinv.emails.committed, fun i input session hi => ?_,
    fun u hu => ?_, fun a s' hs u hu hnew => hinv.appears hs hu hnew⟩
  · obtain ⟨u, hu, hid, husername, hemail, hhash⟩ := hinv.accounts i session ⟨input, hi⟩
    have hright := hinv.right _ (List.mem_of_getElem? hi)
    refine ⟨u, hu, ⟨hid, husername, hemail, hhash⟩, ?_⟩
    rw [husername, hemail, hhash]
    exact hright
  · obtain ⟨i, session, hi, hid⟩ := hinv.owners u hu
    refine ⟨i, ⟨session, hi, hid⟩, ?_⟩
    rintro j ⟨x, hx, hxid⟩
    exact hinv.once j i x session hx hi (hxid.trans hid.symm)

namespace Sample

def registerPorts : RegisterPorts where
  lowercase := List.map Char.toLower
  verify := fun password hash => .ok (password.value.isPrefixOf hash.value)
  issueAccess := fun userId _ _ => .ok (displayUuid userId.uuid).toList
  hashRefreshToken := List.reverse
  refreshTtl := 100
  hash := fun password salt => .ok ⟨password.value ++ salt⟩

def registering (n : Nat) : RegisterEnv :=
  ⟨⟨0, BitVec.ofNat 128 n, (BitVec.ofNat 128 (2 * n), BitVec.ofNat 128 (2 * n + 1)), none⟩,
    BitVec.ofNat 128 n⟩

def aliceInput (email : Text) : RegisterInput :=
  ⟨['a', 'l', 'i', 'c', 'e'], email, List.replicate 8 'x'⟩

/-- Two calls want one username; both find it free, and the first has inserted its row. -/
def twoAlices : List RegisterAct :=
  [.start (aliceInput ['A', '@', 'b', '.', 'c']) ['s'],
    .start (aliceInput ['d', '@', 'b', '.', 'c']) ['t']] ++
    List.replicate 3 (.next 0 (registering 1)) ++ List.replicate 3 (.next 1 (registering 2)) ++
    [.next 0 (registering 1)]

/-- The first commits, and the second is refused. -/
def oneAlice : List RegisterAct :=
  twoAlices ++ List.replicate 2 (.next 0 (registering 1)) ++ [.next 1 (registering 2)]

def signups (as : List RegisterAct) : Signups :=
  (Transition.run (Signups.step registerPorts) .init as).getD .init

theorem run_signups (as : List RegisterAct)
    (h : (Transition.run (Signups.step registerPorts) .init as).isSome) :
    Transition.run (Signups.step registerPorts) .init as = some (signups as) := by
  obtain ⟨s, hs⟩ := Option.isSome_iff_exists.mp h
  simp [signups, hs]

end Sample

theorem registrations_apart_raced :
    ((Sample.signups Sample.twoAlices).step Sample.registerPorts
        (.next 1 (Sample.registering 2))).isNone ∧
      (∃ input, (Sample.signups Sample.oneAlice).registrations[1]? =
        some ⟨input, .returned (.error (.conflict
          "duplicate key value violates unique constraint \"users_username_key\""))⟩) ∧
      ∃ u, (Sample.signups Sample.oneAlice).auth.users.rows = [u] ∧
        ∃! i, ∃ session, (Sample.signups Sample.oneAlice).Registered i session ∧
          session.user.id = u.id := by
  have hrun := Sample.run_signups Sample.oneAlice (by decide +kernel)
  have hlength : (Sample.signups Sample.oneAlice).auth.users.rows.length = 1 := by
    decide +kernel
  obtain ⟨u, hu⟩ := List.length_eq_one_iff.mp hlength
  refine ⟨by decide +kernel, ⟨_, rfl⟩, u, hu, ?_⟩
  exact (registrations_apart hrun (by decide +kernel)).2.2.2.1 u (by simp [hu])

/-! ### Logging in -/

section Login
variable {P : RegisterPorts} {s : Signups} {session : AuthSession} {login : LoginInput}
  {email : Email} {password : Password} {env : AuthEnv}

theorem Signups.Inv.userByEmail (h : s.Inv P) {u : User} (hu : u ∈ s.auth.users.rows) :
    s.auth.userByEmail u.email = some u := by
  unfold Auth.userByEmail
  cases hfind : s.auth.users.rows.find? fun v => v.email = u.email with
  | none => simpa using List.find?_eq_none.mp hfind u hu
  | some v =>
    have hemail : v.email = u.email := by simpa using List.find?_some hfind
    rw [h.emails.eq_of_key (List.mem_of_find?_eq_some hfind) hu hemail]

theorem login_answers {t : Auth} {n : Nat} (hn : n = t.calls.length) {user : User}
    {accessToken : Text} (hemail : Email.new P.lowercase login.email = .ok email)
    (hpassword : Password.new login.password = .ok password)
    (huser : env.cached.or (t.userByEmail email) = some user)
    (hverify : P.verify password user.passwordHash = .ok true)
    (hissue : P.issueAccess user.id user.role env.now = .ok accessToken)
    (hid : ∀ r ∈ t.refreshTokens.rows, r.id ≠ env.id)
    (hhash : ∀ r ∈ t.refreshTokens.rows, r.tokenHash ≠ P.hashRefreshToken env.refreshToken)
    (hstored : (t.users.find? user.id).isSome) (env' : AuthEnv) :
    ∃ t' session, Transition.run (Auth.step P.toAuthPorts) t
        [.start (.login login), .next n env, .next n env'] = some t' ∧
      t'.calls[n]? = some (.login login (.returned (.ok session))) ∧ session.user = user := by
  subst hn
  have hbegin : (AuthRequest.login login).begin P.toAuthPorts =
      .login login (.findUser email password) := by
    simp only [AuthRequest.begin, hemail, hpassword]
  let record := RefreshToken.new env.id user.id (P.hashRefreshToken env.refreshToken)
    (env.now + P.refreshTtl) env.now
  let session : AuthSession := ⟨user, accessToken, env.refreshToken, record.expiresAt⟩
  let t₁ : Auth := { t with calls := t.calls ++ [.login login (.findUser email password)] }
  let t₂ := (t₁.draw session record).setCall t.calls.length (.login login (.save session record))
  let t₃ := (t₂.insertToken record).setCall t.calls.length
    (.login login (.returned (.ok session)))
  have hstart : t.step P.toAuthPorts (.start (.login login)) = some t₁ := by
    simp only [Auth.step, hbegin]
    rfl
  have hfirst : t₁.calls[t.calls.length]? = some (.login login (.findUser email password)) := by
    simp [t₁]
  have hfound : t₁.step P.toAuthPorts (.next t.calls.length env) = some t₂ := by
    have hissued : P.toAuthPorts.issue env user = .ok (session, record) := by
      simp only [AuthPorts.issue, hissue]
      rfl
    have huser' : env.cached.or (t₁.userByEmail email) = some user := huser
    simp only [Auth.step, hfirst, Auth.nextCall, Auth.nextLogin, huser', hverify, hissued]
    rfl
  have hsecond : t₂.calls[t.calls.length]? = some (.login login (.save session record)) := by
    simp [t₂, t₁, Auth.setCall, Auth.draw]
  have hsaved : t₂.step P.toAuthPorts (.next t.calls.length env') = some t₃ := by
    have hinsert : t₂.insertError record = none := by
      have hnone : t.refreshTokens.find? env.id = none := Table.find?_eq_none.mpr hid
      have hhashes : t.findByTokenHash (P.hashRefreshToken env.refreshToken) = none := by
        unfold Auth.findByTokenHash
        rw [List.find?_eq_none]
        intro r hr
        simpa using hhash r hr
      obtain ⟨v, hv⟩ := Option.isSome_iff_exists.mp hstored
      change t.insertError record = none
      unfold Auth.insertError
      rw [show t.refreshTokens.find? record.id = none from hnone,
        show t.findByTokenHash record.tokenHash = none from hhashes,
        show t.users.find? record.userId = some v from hv]
      rfl
    simp only [Auth.step, hsecond, Auth.nextCall, Auth.nextLogin, hinsert]
    rfl
  refine ⟨t₃, session, ?_, ?_, rfl⟩
  · simp only [Transition.run, hstart, hfound, hsaved, Option.bind_some]
  · simp [t₃, t₂, t₁, Auth.setCall, Auth.draw, Auth.insertToken]

theorem Signups.run_auth {s : Signups} {as : List AuthAct} {t : Auth}
    (hsave : ∀ a ∈ as, ∀ user, a ≠ .saveUser user)
    (h : Transition.run (Auth.step P.toAuthPorts) s.auth as = some t) :
    Transition.run (Signups.step P) s (as.map .auth) = some { s with auth := t } := by
  induction as generalizing s with
  | nil =>
    cases h
    rfl
  | cons a as ih =>
    obtain ⟨u, hu, hrest⟩ := Transition.run_cons_some h
    have hstep : s.step P (.auth a) = some { s with auth := u } := by
      have hmap : s.step P (.auth a) =
          (s.auth.step P.toAuthPorts a).map fun auth => { s with auth } := by
        cases a with
        | saveUser user => exact absurd rfl (hsave _ List.mem_cons_self user)
        | _ => rfl
      rw [hmap, hu]
      rfl
    have hnext := ih (s := { s with auth := u })
      (fun b hb => hsave b (List.mem_cons_of_mem _ hb)) hrest
    simp only [List.map_cons, Transition.run, hstep, Option.bind_some]
    exact hnext

end Login

/-- After any run, whoever has registered logs in with the same address, however it is
written, and the same password, and gets a session of that account. -/
theorem registered_logs_in {P : RegisterPorts}
    (hverify : ∀ password salt passwordHash, P.hash password salt = .ok passwordHash →
      P.verify password passwordHash = .ok true)
    {as : List RegisterAct} {s : Signups}
    (h : Transition.run (Signups.step P) .init as = some s)
    (hg : Transition.Guarded (Signups.step P) Signups.Fresh .init as) {i : Nat}
    {input : RegisterInput} {session : AuthSession}
    (hi : s.registrations[i]? = some ⟨input, .returned (.ok session)⟩) (login : LoginInput)
    (hemail : Email.new P.lowercase login.email = Email.new P.lowercase input.email)
    (hpassword : login.password = input.password) (env : AuthEnv)
    (hcached : ∀ u, env.cached = some u → u.SameAccount session.user)
    (hissue : ∀ role, ∃ token, P.issueAccess session.user.id role env.now = .ok token)
    (hid : ∀ r ∈ s.auth.refreshTokens.rows, r.id ≠ env.id)
    (hhash : ∀ r ∈ s.auth.refreshTokens.rows,
      r.tokenHash ≠ P.hashRefreshToken env.refreshToken) (env' : AuthEnv) :
    ∃ s' session', Transition.run (Signups.step P) s
        ([.start (.login login), .next s.auth.calls.length env,
          .next s.auth.calls.length env'].map .auth) = some s' ∧
      s'.auth.calls[s.auth.calls.length]? = some (.login login (.returned (.ok session'))) ∧
        session'.user.SameAccount session.user := by
  have hinv := Signups.Inv.run h hg
  obtain ⟨u, hu, hsame⟩ := hinv.accounts i session ⟨input, hi⟩
  have hright := hinv.right _ (List.mem_of_getElem? hi)
  obtain ⟨-, hemail', password, salt, hpassword', hhashed⟩ := hright
  have hfind : s.auth.userByEmail session.user.email = some u :=
    hsame.2.2.1 ▸ hinv.userByEmail hu
  -- The copy the login meets, cached or stored, is of the account.
  obtain ⟨user, huser, haccount⟩ : ∃ user, env.cached.or
      (s.auth.userByEmail session.user.email) = some user ∧ user.SameAccount session.user := by
    cases hc : env.cached with
    | none => exact ⟨u, hfind, hsame⟩
    | some v => exact ⟨v, rfl, hcached v hc⟩
  obtain ⟨token, htoken⟩ := hissue user.role
  have hstored : (s.auth.users.find? user.id).isSome := by
    rw [haccount.1, ← hsame.1, Table.find?_of_mem hu]
    rfl
  obtain ⟨t', session', hrun, hcall, hsession⟩ := login_answers (P := P) rfl
    (hemail.trans hemail') (hpassword ▸ hpassword') huser
    (by rw [haccount.2.2.2]; exact hverify _ _ _ hhashed) (by rw [haccount.1]; exact htoken)
    hid hhash hstored env'
  refine ⟨{ s with auth := t' }, session', Signups.run_auth (by simp) hrun, hcall, ?_⟩
  rw [hsession]
  exact haccount

theorem registered_logs_in_again :
    let s := Sample.signups Sample.oneAlice
    ∃ session s' session', s.Registered 0 session ∧
      Transition.run (Signups.step Sample.registerPorts) s
        ([.start (.login ⟨[' ', 'a', '@', 'B', '.', 'c'], List.replicate 8 'x'⟩),
          .next 0 (Sample.registering 3).toAuthEnv,
          .next 0 (Sample.registering 3).toAuthEnv].map .auth) = some s' ∧
      s'.auth.calls[0]? = some (.login ⟨[' ', 'a', '@', 'B', '.', 'c'], List.replicate 8 'x'⟩
        (.returned (.ok session'))) ∧ session'.user.SameAccount session.user := by
  have hverify : ∀ password salt passwordHash,
      Sample.registerPorts.hash password salt = .ok passwordHash →
        Sample.registerPorts.verify password passwordHash = .ok true := by
    intro password salt passwordHash h
    cases h
    exact congrArg Except.ok (List.isPrefixOf_iff_prefix.mpr (List.prefix_append _ _))
  have hrun := Sample.run_signups Sample.oneAlice (by decide +kernel)
  obtain ⟨session, hsession⟩ : ∃ session, (Sample.signups Sample.oneAlice).registrations[0]? =
      some ⟨Sample.aliceInput ['A', '@', 'b', '.', 'c'], .returned (.ok session)⟩ := ⟨_, rfl⟩
  obtain ⟨s', session', h⟩ := registered_logs_in hverify hrun (by decide +kernel) hsession
    ⟨[' ', 'a', '@', 'B', '.', 'c'], List.replicate 8 'x'⟩ (by decide +kernel) rfl
    (Sample.registering 3).toAuthEnv (by simp [Sample.registering]) (fun _ => ⟨_, rfl⟩)
    (by decide +kernel) (by decide +kernel) (Sample.registering 3).toAuthEnv
  exact ⟨session, s', session', ⟨_, hsession⟩, h⟩

end Betsphere
