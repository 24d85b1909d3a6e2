import Betsphere.Domain.Credentials
import Betsphere.Postgres.Database
set_option autoImplicit false

/-!
`Login`, `RefreshSession` and `Logout`, cut at their awaits, over the stored refresh
tokens. A refresh runs in one transaction: the row it deleted stays locked, and what it
deleted and inserted shows only when it commits. The other two write on their own.
-/

namespace Betsphere

/-- The hasher, the access token service and the digest behind the use cases. -/
structure AuthPorts where
  lowercase : Text → Text
  verify : Password → PasswordHash → Except AuthPortError Bool
  issueAccess : UserId → Role → DateTime → Except AuthPortError Text
  hashRefreshToken : Text → Text
  refreshTtl : Int

/-- What a step draws, and a user the cache may answer a login with. -/
structure AuthEnv where
  now : DateTime
  id : Uuid
  token : Uuid × Uuid
  cached : Option User

def AuthEnv.refreshToken (env : AuthEnv) : Text := generateRefreshToken env.token.1 env.token.2

structure AuthSession where
  user : User
  accessToken : Text
  refreshToken : Text
  refreshExpiresAt : DateTime
  deriving DecidableEq

/-- `SessionIssuer::issue` up to its INSERT. -/
def AuthPorts.issue (P : AuthPorts) (env : AuthEnv) (user : User) :
    Except ApplicationError (AuthSession × RefreshToken) :=
  match P.issueAccess user.id user.role env.now with
  | .error e => .error (.ofAuthPort e)
  | .ok accessToken =>
    let record := RefreshToken.new env.id user.id (P.hashRefreshToken env.refreshToken)
      (env.now + P.refreshTtl) env.now
    .ok (⟨user, accessToken, env.refreshToken, record.expiresAt⟩, record)

theorem AuthPorts.issue_ok {P : AuthPorts} {env : AuthEnv} {user : User} {session : AuthSession}
    {record : RefreshToken} (h : P.issue env user = .ok (session, record)) :
    session.refreshToken = env.refreshToken ∧ record.id = env.id ∧
      record.tokenHash = P.hashRefreshToken env.refreshToken := by
  unfold AuthPorts.issue at h
  split at h
  · simp at h
  · cases h
    exact ⟨rfl, rfl, rfl⟩

structure LoginInput where
  email : Text
  password : Text
  deriving DecidableEq

inductive LoginPhase where
  | findUser (email : Email) (password : Password)
  | save (session : AuthSession) (record : RefreshToken)
  | returned (answer : Except ApplicationError AuthSession)
  | dropped

/-- From `delete` on the transaction may hold `found`, the row it has deleted. -/
inductive RefreshPhase where
  | begin
  | find
  | delete (found : RefreshToken)
  | keepDeletion (found : RefreshToken) (now : DateTime) (expired : found.isExpired now = true)
  | findUser (found : RefreshToken)
  | save (found : RefreshToken) (session : AuthSession) (record : RefreshToken)
  | commit (found : RefreshToken) (session : AuthSession) (record : RefreshToken)
  | returned (answer : Except ApplicationError AuthSession)
  | dropped

inductive LogoutPhase where
  | find
  | delete (found : RefreshToken)
  | returned (answer : Except ApplicationError Unit)
  | dropped

inductive AuthCall where
  | login (input : LoginInput) (phase : LoginPhase)
  | refresh (rawToken : Text) (phase : RefreshPhase)
  | logout (rawToken : Text) (phase : LogoutPhase)

inductive AuthRequest where
  | login (input : LoginInput)
  | refresh (rawToken : Text)
  | logout (rawToken : Text)

def invalidCredentials : ApplicationError := .unauthorized "invalid credentials"
def invalidRefreshToken : ApplicationError := .unauthorized "invalid refresh token"

def AuthRequest.begin (P : AuthPorts) : AuthRequest → AuthCall
  | .login input =>
    match Email.new P.lowercase input.email, Password.new input.password with
    | .ok email, .ok password => .login input (.findUser email password)
    | _, _ => .login input (.returned (.error invalidCredentials))
  | .refresh rawToken => .refresh rawToken .begin
  | .logout rawToken => .logout rawToken .find

namespace AuthCall

def presented? : AuthCall → Option Text
  | .login .. => none
  | .refresh rawToken _ => some rawToken
  | .logout rawToken _ => some rawToken

/-- The row an earlier SELECT found, while the call still works with it. -/
def found? : AuthCall → Option RefreshToken
  | .refresh _ (.delete found) => some found
  | .refresh _ (.keepDeletion found _ _) => some found
  | .refresh _ (.findUser found) => some found
  | .refresh _ (.save found _ _) => some found
  | .refresh _ (.commit found _ _) => some found
  | .logout _ (.delete found) => some found
  | _ => none

/-- The row the open transaction has deleted. -/
def held? : AuthCall → Option RefreshToken
  | .refresh _ (.keepDeletion found _ _) => some found
  | .refresh _ (.findUser found) => some found
  | .refresh _ (.save found _ _) => some found
  | .refresh _ (.commit found _ _) => some found
  | _ => none

/-- The token drawn for a session that is not handed out yet, and its record. -/
def pending? : AuthCall → Option (Text × RefreshToken)
  | .login _ (.save session record) => some (session.refreshToken, record)
  | .refresh _ (.save _ session record) => some (session.refreshToken, record)
  | .refresh _ (.commit _ session record) => some (session.refreshToken, record)
  | _ => none

/-- The token a successful refresh or logout has used up. -/
def spent? : AuthCall → Option Text
  | .refresh rawToken (.returned (.ok _)) => some rawToken
  | .logout rawToken (.returned (.ok _)) => some rawToken
  | _ => none

def finished : AuthCall → Bool
  | .login _ (.returned _) => true
  | .login _ .dropped => true
  | .refresh _ (.returned _) => true
  | .refresh _ .dropped => true
  | .logout _ (.returned _) => true
  | .logout _ .dropped => true
  | _ => false

def failed (e : ApplicationError) : AuthCall → AuthCall
  | .login input _ => .login input (.returned (.error e))
  | .refresh rawToken _ => .refresh rawToken (.returned (.error e))
  | .logout rawToken _ => .logout rawToken (.returned (.error e))

def drop : AuthCall → AuthCall
  | .login input _ => .login input .dropped
  | .refresh rawToken _ => .refresh rawToken .dropped
  | .logout rawToken _ => .logout rawToken .dropped

end AuthCall

/-- The committed rows and the calls. `drawn` has every token that was ever generated,
with its record; no action looks at it. -/
structure Auth where
  users : Table User.id
  refreshTokens : Table RefreshToken.id
  calls : List AuthCall
  drawn : List (Text × RefreshToken)

def Auth.init (users : Table User.id) : Auth := ⟨users, .empty, [], []⟩

/-- `fail` is an await that ends in a storage error, `drop` a caller that gives up; both
roll an open transaction back. -/
inductive AuthAct where
  | saveUser (user : User)
  | start (request : AuthRequest)
  | next (i : Nat) (env : AuthEnv)
  | fail (i : Nat) (message : String)
  | drop (i : Nat)

namespace Auth

def setCall (s : Auth) (i : Nat) (c : AuthCall) : Auth := { s with calls := s.calls.set i c }

def userByEmail (s : Auth) (email : Email) : Option User :=
  s.users.rows.find? fun u => u.email = email

def findByTokenHash (s : Auth) (tokenHash : Text) : Option RefreshToken :=
  s.refreshTokens.rows.find? fun r => r.tokenHash = tokenHash

def deleteToken (s : Auth) (id : Uuid) : Auth :=
  { s with refreshTokens := s.refreshTokens.filter fun r => r.id ≠ id }

def insertToken (s : Auth) (record : RefreshToken) : Auth :=
  { s with refreshTokens := s.refreshTokens.upsert record }

def draw (s : Auth) (session : AuthSession) (record : RefreshToken) : Auth :=
  { s with drawn := (session.refreshToken, record) :: s.drawn }

/-- Another open transaction has deleted the row. -/
def blocked (s : Auth) (i : Nat) (id : Uuid) : Bool :=
  s.calls.zipIdx.any fun c => c.2 ≠ i && c.1.held?.any fun r => r.id = id

def insertError (s : Auth) (record : RefreshToken) : Option RepositoryError :=
  if (s.refreshTokens.find? record.id).isSome then some (duplicateKey "refresh_tokens_pkey")
  else if (s.findByTokenHash record.tokenHash).isSome then
    some (duplicateKey "refresh_tokens_token_hash_key")
  else if (s.users.find? record.userId).isNone then
    some (missingReference "refresh_tokens" "refresh_tokens_user_id_fkey")
  else none

def nextLogin (P : AuthPorts) (s : Auth) (i : Nat) (env : AuthEnv) (input : LoginInput) :
    LoginPhase → Option Auth
  | .findUser email password =>
    match env.cached.or (s.userByEmail email) with
    | none => some (s.setCall i (.login input (.returned (.error invalidCredentials))))
    | some user =>
      match P.verify password user.passwordHash with
      | .error e => some (s.setCall i (.login input (.returned (.error (.ofAuthPort e)))))
      | .ok false => some (s.setCall i (.login input (.returned (.error invalidCredentials))))
      | .ok true =>
        match P.issue env user with
        | .error e => some (s.setCall i (.login input (.returned (.error e))))
        | .ok (session, record) =>
          some ((s.draw session record).setCall i (.login input (.save session record)))
  | .save session record =>
    match s.insertError record with
    | some e => some (s.setCall i (.login input (.returned (.error (.ofRepository e)))))
    | none => some ((s.insertToken record).setCall i (.login input (.returned (.ok session))))
  | .returned _ => none
  | .dropped => none

def nextRefresh (P : AuthPorts) (s : Auth) (i : Nat) (env : AuthEnv) (rawToken : Text) :
    RefreshPhase → Option Auth
  | .begin => some (s.setCall i (.refresh rawToken .find))
  | .find =>
    match s.findByTokenHash (P.hashRefreshToken rawToken) with
    | none => some (s.setCall i (.refresh rawToken (.returned (.error invalidRefreshToken))))
    | some found => some (s.setCall i (.refresh rawToken (.delete found)))
  | .delete found =>
    if (s.refreshTokens.find? found.id).isNone then
      some (s.setCall i (.refresh rawToken (.returned (.error invalidRefreshToken))))
    else if s.blocked i found.id then none
    else if expired : found.isExpired env.now = true then
      some (s.setCall i (.refresh rawToken (.keepDeletion found env.now expired)))
    else some (s.setCall i (.refresh rawToken (.findUser found)))
  | .keepDeletion found _ _ =>
    some ((s.deleteToken found.id).setCall i
      (.refresh rawToken (.returned (.error invalidRefreshToken))))
  | .findUser found =>
    match s.users.find? found.userId with
    | none => some (s.setCall i (.refresh rawToken (.returned (.error invalidRefreshToken))))
    | some user =>
      match P.issue env user with
      | .error e => some (s.setCall i (.refresh rawToken (.returned (.error e))))
      | .ok (session, record) =>
        some ((s.draw session record).setCall i (.refresh rawToken (.save found session record)))
  | .save found session record =>
    match (s.deleteToken found.id).insertError record with
    | some e => some (s.setCall i (.refresh rawToken (.returned (.error (.ofRepository e)))))
    | none => some (s.setCall i (.refresh rawToken (.commit found session record)))
  | .commit found session record =>
    some (((s.deleteToken found.id).insertToken record).setCall i
      (.refresh rawToken (.returned (.ok session))))
  | .returned _ => none
  | .dropped => none

/-- The next round trip of `Logout`; each of its statements is a transaction of its own. -/
def nextLogout (P : AuthPorts) (s : Auth) (i : Nat) (rawToken : Text) : LogoutPhase → Option Auth
  | .find =>
    match s.findByTokenHash (P.hashRefreshToken rawToken) with
    | none => some (s.setCall i (.logout rawToken (.returned (.ok ()))))
    | some found => some (s.setCall i (.logout rawToken (.delete found)))
  | .delete found =>
    if (s.refreshTokens.find? found.id).isNone then
      some (s.setCall i (.logout rawToken (.returned (.ok ()))))
    else if s.blocked i found.id then none
    else some ((s.deleteToken found.id).setCall i (.logout rawToken (.returned (.ok ()))))
  | .returned _ => none
  | .dropped => none

def nextCall (P : AuthPorts) (s : Auth) (i : Nat) (env : AuthEnv) : AuthCall → Option Auth
  | .login input phase => s.nextLogin P i env input phase
  | .refresh rawToken phase => s.nextRefresh P i env rawToken phase
  | .logout rawToken phase => s.nextLogout P i rawToken phase

def step (P : AuthPorts) (s : Auth) : AuthAct → Option Auth
  | .saveUser user => some { s with users := s.users.upsert user }
  | .start request => some { s with calls := s.calls ++ [request.begin P] }
  | .next i env =>
    match s.calls[i]? with
    | none => none
    | some c => s.nextCall P i env c
  | .fail i message =>
    match s.calls[i]? with
    | none => none
    | some c => if c.finished then none else some (s.setCall i (c.failed (.internal message)))
  | .drop i =>
    match s.calls[i]? with
    | none => none
    | some c => if c.finished then none else some (s.setCall i c.drop)

end Auth

/-- The call moves on, or ends without success, and gets hold of nothing new. -/
structure AuthCall.Quiet (c c' : AuthCall) : Prop where
  presented : c'.presented? = c.presented?
  found : ∀ r, c'.found? = some r → c.found? = some r
  held : ∀ r, c'.held? = some r → c.held? = some r
  pending : ∀ p, c'.pending? = some p → c.pending? = some p
  spent : c'.spent? = none

def AuthAct.call? : AuthAct → Option Nat
  | .next i _ => some i
  | .fail i _ => some i
  | .drop i => some i
  | _ => none

inductive Auth.Effect (P : AuthPorts) (s : Auth) : AuthAct → Auth → Prop where
  | saved (user : User) :
      Effect P s (.saveUser user) { s with users := s.users.upsert user }
  | started (request : AuthRequest) :
      Effect P s (.start request) { s with calls := s.calls ++ [request.begin P] }
  | quiet (a : AuthAct) (i : Nat) (c c' : AuthCall) (hc : s.calls[i]? = some c)
      (ha : a.call? = some i) (hopen : c.finished = false) (hquiet : c.Quiet c') :
      Effect P s a (s.setCall i c')
  | found (i : Nat) (env : AuthEnv) (c c' : AuthCall) (raw : Text) (r : RefreshToken)
      (hc : s.calls[i]? = some c) (hopen : c.finished = false) (hraw : c.presented? = some raw)
      (hc' : c' = .refresh raw (.delete r) ∨ c' = .logout raw (.delete r))
      (hrow : s.findByTokenHash (P.hashRefreshToken raw) = some r) :
      Effect P s (.next i env) (s.setCall i c')
  | locked (i : Nat) (env : AuthEnv) (raw : Text) (r : RefreshToken) (c' : AuthCall)
      (hc : s.calls[i]? = some (.refresh raw (.delete r)))
      (hrow : (s.refreshTokens.find? r.id).isSome) (hfree : s.blocked i r.id = false)
      (hc' : (∃ expired, c' = .refresh raw (.keepDeletion r env.now expired)) ∨
        c' = .refresh raw (.findUser r)) :
      Effect P s (.next i env) (s.setCall i c')
  | drew (i : Nat) (env : AuthEnv) (user : User) (session : AuthSession) (record : RefreshToken)
      (c c' : AuthCall) (hc : s.calls[i]? = some c)
      (hissue : P.issue env user = .ok (session, record))
      (hc' : (∃ input email password, c = .login input (.findUser email password) ∧
          c' = .login input (.save session record)) ∨
        ∃ raw r, c = .refresh raw (.findUser r) ∧ c' = .refresh raw (.save r session record)) :
      Effect P s (.next i env) ((s.draw session record).setCall i c')
  | granted (i : Nat) (env : AuthEnv) (input : LoginInput) (session : AuthSession)
      (record : RefreshToken) (hc : s.calls[i]? = some (.login input (.save session record)))
      (hins : s.insertError record = none) :
      Effect P s (.next i env)
        ((s.insertToken record).setCall i (.login input (.returned (.ok session))))
  | kept (i : Nat) (env : AuthEnv) (raw : Text) (r : RefreshToken) (now : DateTime)
      (expired : r.isExpired now = true)
      (hc : s.calls[i]? = some (.refresh raw (.keepDeletion r now expired))) :
      Effect P s (.next i env) ((s.deleteToken r.id).setCall i
        (.refresh raw (.returned (.error invalidRefreshToken))))
  | rotated (i : Nat) (env : AuthEnv) (raw : Text) (r : RefreshToken) (session : AuthSession)
      (record : RefreshToken)
      (hc : s.calls[i]? = some (.refresh raw (.commit r session record))) :
      Effect P s (.next i env) (((s.deleteToken r.id).insertToken record).setCall i
        (.refresh raw (.returned (.ok session))))
  | absent (i : Nat) (env : AuthEnv) (raw : Text) (phase : LogoutPhase)
      (hc : s.calls[i]? = some (.logout raw phase))
      (hrow : (phase = .find ∧ s.findByTokenHash (P.hashRefreshToken raw) = none) ∨
        ∃ r, phase = .delete r ∧ s.refreshTokens.find? r.id = none) :
      Effect P s (.next i env) (s.setCall i (.logout raw (.returned (.ok ()))))
  | revoked (i : Nat) (env : AuthEnv) (raw : Text) (r : RefreshToken)
      (hc : s.calls[i]? = some (.logout raw (.delete r)))
      (hfree : s.blocked i r.id = false) :
      Effect P s (.next i env) ((s.deleteToken r.id).setCall i (.logout raw (.returned (.ok ()))))

namespace Auth
variable {P : AuthPorts} {s s' : Auth} {i : Nat}

theorem quiet_failed (c : AuthCall) (e : ApplicationError) : c.Quiet (c.failed e) := by
  cases c <;> constructor <;>
    simp [AuthCall.failed, AuthCall.presented?, AuthCall.found?, AuthCall.held?,
      AuthCall.pending?, AuthCall.spent?]

theorem quiet_drop (c : AuthCall) : c.Quiet c.drop := by
  cases c <;> constructor <;>
    simp [AuthCall.drop, AuthCall.presented?, AuthCall.found?, AuthCall.held?,
      AuthCall.pending?, AuthCall.spent?]

theorem effect_failed {env : AuthEnv} {c : AuthCall} (hc : s.calls[i]? = some c)
    (hopen : c.finished = false) (e : ApplicationError) :
    s.Effect P (.next i env) (s.setCall i (c.failed e)) :=
  .quiet (.next i env) i c (c.failed e) hc rfl hopen (quiet_failed c e)

theorem login_effect {env : AuthEnv} {input : LoginInput} {phase : LoginPhase}
    (hc : s.calls[i]? = some (.login input phase))
    (h : s.nextLogin P i env input phase = some s') : s.Effect P (.next i env) s' := by
  cases phase with
  | findUser email password =>
    have herror : ∀ e, s.Effect P (.next i env) (s.setCall i (AuthCall.failed e _)) :=
      effect_failed hc rfl
    simp only [nextLogin] at h
    cases hu : env.cached.or (s.userByEmail email) with
    | none =>
      simp only [hu, Option.some.injEq] at h
      exact h ▸ herror invalidCredentials
    | some user =>
      simp only [hu] at h
      cases hv : P.verify password user.passwordHash with
      | error e =>
        simp only [hv, Option.some.injEq] at h
        exact h ▸ herror (.ofAuthPort e)
      | ok valid =>
        cases valid with
        | false =>
          simp only [hv, Option.some.injEq] at h
          exact h ▸ herror invalidCredentials
        | true =>
          simp only [hv] at h
          cases hissue : P.issue env user with
          | error e =>
            simp only [hissue, Option.some.injEq] at h
            exact h ▸ herror e
          | ok issued =>
            obtain ⟨session, record⟩ := issued
            simp only [hissue, Option.some.injEq] at h
            rw [← h]
            exact .drew i env user session record _ _ hc hissue
              (.inl ⟨input, email, password, rfl, rfl⟩)
  | save session record =>
    simp only [nextLogin] at h
    cases hins : s.insertError record with
    | some e =>
      simp only [hins, Option.some.injEq] at h
      exact h ▸ effect_failed hc rfl (.ofRepository e)
    | none =>
      simp only [hins, Option.some.injEq] at h
      exact h ▸ .granted i env input session record hc hins
  | returned answer => simp [nextLogin] at h
  | dropped => simp [nextLogin] at h

theorem refresh_effect {env : AuthEnv} {raw : Text} {phase : RefreshPhase}
    (hc : s.calls[i]? = some (.refresh raw phase))
    (h : s.nextRefresh P i env raw phase = some s') : s.Effect P (.next i env) s' := by
  cases phase with
  | begin =>
    simp only [nextRefresh, Option.some.injEq] at h
    rw [← h]
    refine .quiet _ i _ _ hc rfl rfl ?_
    constructor <;>
      simp [AuthCall.presented?, AuthCall.found?, AuthCall.held?, AuthCall.pending?,
        AuthCall.spent?]
  | find =>
    simp only [nextRefresh] at h
    cases hrow : s.findByTokenHash (P.hashRefreshToken raw) with
    | none =>
      simp only [hrow, Option.some.injEq] at h
      exact h ▸ effect_failed hc rfl invalidRefreshToken
    | some r =>
      simp only [hrow, Option.some.injEq] at h
      exact h ▸ .found i env _ _ raw r hc rfl rfl (.inl rfl) hrow
  | delete r =>
    simp only [nextRefresh] at h
    split at h
    · simp only [Option.some.injEq] at h
      exact h ▸ effect_failed hc rfl invalidRefreshToken
    · rename_i hrow
      have hsome : (s.refreshTokens.find? r.id).isSome := by
        simpa [Option.isSome_iff_ne_none] using hrow
      split at h
      · simp at h
      · rename_i hfree
        have hunlocked : s.blocked i r.id = false := by simpa using hfree
        split at h
        · rename_i expired
          simp only [Option.some.injEq] at h
          exact h ▸ .locked i env raw r _ hc hsome hunlocked (.inl ⟨expired, rfl⟩)
        · simp only [Option.some.injEq] at h
          exact h ▸ .locked i env raw r _ hc hsome hunlocked (.inr rfl)
  | keepDeletion r now expired =>
    simp only [nextRefresh, Option.some.injEq] at h
    exact h ▸ .kept i env raw r now expired hc
  | findUser r =>
    have herror : ∀ e, s.Effect P (.next i env) (s.setCall i (AuthCall.failed e _)) :=
      effect_failed hc rfl
    simp only [nextRefresh] at h
    cases hu : s.users.find? r.userId with
    | none =>
      simp only [hu, Option.some.injEq] at h
      exact h ▸ herror invalidRefreshToken
    | some user =>
      simp only [hu] at h
      cases hissue : P.issue env user with
      | error e =>
        simp only [hissue, Option.some.injEq] at h
        exact h ▸ herror e
      | ok issued =>
        obtain ⟨session, record⟩ := issued
        simp only [hissue, Option.some.injEq] at h
        rw [← h]
        exact .drew i env user session record _ _ hc hissue (.inr ⟨raw, r, rfl, rfl⟩)
  | save r session record =>
    simp only [nextRefresh] at h
    cases hins : (s.deleteToken r.id).insertError record with
    | some e =>
      simp only [hins, Option.some.injEq] at h
      exact h ▸ effect_failed hc rfl (.ofRepository e)
    | none =>
      simp only [hins, Option.some.injEq] at h
      rw [← h]
      refine .quiet _ i _ _ hc rfl rfl ?_
      constructor <;>
        simp [AuthCall.presented?, AuthCall.found?, AuthCall.held?, AuthCall.pending?,
          AuthCall.spent?]
  | commit r session record =>
    simp only [nextRefresh, Option.some.injEq] at h
    exact h ▸ .rotated i env raw r session record hc
  | returned answer => simp [nextRefresh] at h
  | dropped => simp [nextRefresh] at h

theorem logout_effect {env : AuthEnv} {raw : Text} {phase : LogoutPhase}
    (hc : s.calls[i]? = some (.logout raw phase))
    (h : s.nextLogout P i raw phase = some s') : s.Effect P (.next i env) s' := by
  cases phase with
  | find =>
    simp only [nextLogout] at h
    cases hrow : s.findByTokenHash (P.hashRefreshToken raw) with
    | none =>
      simp only [hrow, Option.some.injEq] at h
      exact h ▸ .absent i env raw .find hc (.inl ⟨rfl, hrow⟩)
    | some r =>
      simp only [hrow, Option.some.injEq] at h
      exact h ▸ .found i env _ _ raw r hc rfl rfl (.inr rfl) hrow
  | delete r =>
    simp only [nextLogout] at h
    split at h
    · rename_i hrow
      simp only [Option.some.injEq] at h
      have hnone : s.refreshTokens.find? r.id = none := by simpa using hrow
      exact h ▸ .absent i env raw (.delete r) hc (.inr ⟨r, rfl, hnone⟩)
    · split at h
      · simp at h
      · rename_i hfree
        have hunlocked : s.blocked i r.id = false := by simpa using hfree
        simp only [Option.some.injEq] at h
        exact h ▸ .revoked i env raw r hc hunlocked
  | returned answer => simp [nextLogout] at h
  | dropped => simp [nextLogout] at h

theorem step_effect {a : AuthAct} (h : s.step P a = some s') : s.Effect P a s' := by
  cases a with
  | saveUser user =>
    cases h
    exact .saved user
  | start request =>
    cases h
    exact .started request
  | next i env =>
    simp only [step] at h
    split at h
    · simp at h
    · rename_i c hc
      cases c with
      | login input phase => exact login_effect hc h
      | refresh raw phase => exact refresh_effect hc h
      | logout raw phase => exact logout_effect hc h
  | fail i message =>
    simp only [step] at h
    split at h
    · simp at h
    · rename_i c hc
      split at h
      · simp at h
      · rename_i hopen
        cases h
        exact .quiet _ i c _ hc rfl (by simpa using hopen) (quiet_failed c _)
  | drop i =>
    simp only [step] at h
    split at h
    · simp at h
    · rename_i c hc
      split at h
      · simp at h
      · rename_i hopen
        cases h
        exact .quiet _ i c _ hc rfl (by simpa using hopen) (quiet_drop c)

end Auth

end Betsphere
