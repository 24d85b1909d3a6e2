import Betsphere.Auth.Lineages
import Betsphere.Postgres.BetListing
set_option autoImplicit false

/-!
`POST /api/auth/refresh`. The handler awaits `RefreshSession`, whose transaction has
committed when it returns a session, and after that the betting record of the user;
only then it has an answer that carries the new cookie.
-/

namespace Betsphere

structure UserStatsResponse where
  totalBets : Int
  wins : Int
  losses : Int
  winRate : Rat
  totalVolume : Int
  deriving DecidableEq

def UserStatsResponse.ofUserStats (stats : UserStats) : UserStatsResponse :=
  ⟨stats.totalBets, stats.wins, stats.losses, stats.winRate, stats.totalVolume⟩

structure PrivateUserResponse where
  id : Uuid
  username : Username
  email : Email
  avatarUrl : Option Text
  balance : Int
  role : Role
  stats : UserStatsResponse
  createdAt : DateTime
  updatedAt : DateTime
  deriving DecidableEq

def PrivateUserResponse.new (user : User) (stats : UserStats) : PrivateUserResponse :=
  ⟨user.id.uuid, user.username, user.email, user.avatarUrl, user.balance, user.role,
    .ofUserStats stats, user.createdAt, user.updatedAt⟩

structure AuthResponse where
  accessToken : Text
  user : PrivateUserResponse
  deriving DecidableEq

inductive SameSite where
  | strict | lax | none
  deriving DecidableEq

structure Cookie where
  name : String
  value : Text
  path : String
  httpOnly : Bool
  sameSite : SameSite
  secure : Bool
  maxAge : Int
  deriving DecidableEq

def refreshCookie (session : AuthSession) (secure : Bool) (now : DateTime) : Cookie where
  name := "refresh_token"
  value := session.refreshToken
  path := "/api/auth"
  httpOnly := true
  sameSite := .lax
  secure := secure
  maxAge := max 0 (session.refreshExpiresAt - now)

/-- The handler of one request; `refreshing` is its call of `RefreshSession`. -/
inductive RefreshHandler where
  | refreshing (call : Nat)
  | stats (session : AuthSession)
  | answered (answer : Except ApplicationError (Cookie × AuthResponse))
  | dropped

/-- The handlers over the calls of the use cases and the rows these read. -/
structure RefreshRoute where
  auth : Auth
  bets : Table Bet.id
  cookieSecure : Bool
  handlers : List RefreshHandler

/-- `auth` is an action of the use cases, those of the handlers among them, `failStats` a
betting record that cannot be read. -/
inductive RouteAct where
  | request (cookie : Option Text)
  | auth (a : AuthAct)
  | saveBet (bet : Bet)
  | resume (j : Nat)
  | stats (j : Nat) (now : DateTime)
  | failStats (j : Nat) (message : String)
  | drop (j : Nat)

namespace RefreshRoute

def setHandler (w : RefreshRoute) (j : Nat) (h : RefreshHandler) : RefreshRoute :=
  { w with handlers := w.handlers.set j h }

def request (w : RefreshRoute) : Option Text → RefreshRoute
  | none =>
    let missing := ApplicationError.unauthorized "missing refresh token"
    { w with handlers := w.handlers ++ [.answered (.error missing)] }
  | some token =>
    { w with
      auth := { w.auth with calls := w.auth.calls ++ [.refresh token .begin] }
      handlers := w.handlers ++ [.refreshing w.auth.calls.length] }

def resume (w : RefreshRoute) (j call : Nat) : Option RefreshRoute :=
  match w.auth.calls[call]? with
  | some (.refresh _ (.returned (.error e))) => some (w.setHandler j (.answered (.error e)))
  | some (.refresh _ (.returned (.ok session))) => some (w.setHandler j (.stats session))
  | _ => none

/-- `auth_response`, and the cookie when it has succeeded. -/
def authResponse (w : RefreshRoute) (session : AuthSession) (now : DateTime) :
    Except ApplicationError (Cookie × AuthResponse) :=
  match PgBetRepository.statsForUser w.bets.rows session.user.id with
  | .error e => .error (.ofRepository e)
  | .ok stats => .ok (refreshCookie session w.cookieSecure now,
      ⟨session.accessToken, .new session.user stats⟩)

/-- A handler that goes away drops the call it waits for. -/
def step (P : AuthPorts) (w : RefreshRoute) : RouteAct → Option RefreshRoute
  | .request cookie => some (w.request cookie)
  | .auth a => (w.auth.step P a).map fun auth => { w with auth := auth }
  | .saveBet bet => some { w with bets := w.bets.upsert bet }
  | .resume j =>
    match w.handlers[j]? with
    | some (.refreshing call) => w.resume j call
    | _ => none
  | .stats j now =>
    match w.handlers[j]? with
    | some (.stats session) => some (w.setHandler j (.answered (w.authResponse session now)))
    | _ => none
  | .failStats j message =>
    match w.handlers[j]? with
    | some (.stats _) => some (w.setHandler j (.answered (.error (.internal message))))
    | _ => none
  | .drop j =>
    match w.handlers[j]? with
    | some (.refreshing call) =>
      (w.auth.step P (.drop call)).map fun auth => { w with auth := auth }.setHandler j .dropped
    | some (.stats _) => some (w.setHandler j .dropped)
    | _ => none

end RefreshRoute

/-! ### The row of one token -/

def RefreshPhase.Tracks (r : RefreshToken) (tokens : Table RefreshToken.id) : RefreshPhase → Prop
  | .begin => r ∈ tokens.rows
  | .find => r ∈ tokens.rows
  | .delete found => found = r ∧ r ∈ tokens.rows
  | .keepDeletion _ _ _ => False
  | .findUser found => found = r ∧ r ∈ tokens.rows
  | .save found _ _ => found = r ∧ r ∈ tokens.rows
  | .commit found _ _ => found = r ∧ r ∈ tokens.rows
  | .returned (.error _) => r ∈ tokens.rows
  | .returned (.ok _) => r ∉ tokens.rows
  | .dropped => r ∈ tokens.rows

namespace Auth

/-- The user of `r` exists and no other row has its id or its hash: both are unique. -/
structure Backed (s : Auth) (r : RefreshToken) : Prop where
  user : ∃ user, s.users.find? r.userId = some user
  only : ∀ q ∈ s.refreshTokens.rows, q.id = r.id ∨ q.tokenHash = r.tokenHash → q = r

/-- No open call beside `k` is about `r`, and no record that waits to be stored has its
id or its hash. -/
structure Spares (P : AuthPorts) (r : RefreshToken) (k : Nat) (s : Auth) : Prop where
  presented : ∀ i c, i ≠ k → s.calls[i]? = some c →
    c.finished = true ∨ ∀ raw ∈ c.presented?, P.hashRefreshToken raw ≠ r.tokenHash
  found : ∀ i c q, i ≠ k → s.calls[i]? = some c → c.found? = some q → q.id ≠ r.id
  drawn : ∀ c ∈ s.calls, ∀ p, c.pending? = some p → p.2.id ≠ r.id ∧ p.2.tokenHash ≠ r.tokenHash

/-- Nobody else presents the token, it does not expire under call `k`, and what is drawn
is new. -/
def Undisturbed (P : AuthPorts) (r : RefreshToken) (k : Nat) (s : Auth) : AuthAct → Prop
  | .start request => ∀ raw ∈ (request.begin P).presented?, P.hashRefreshToken raw ≠ r.tokenHash
  | .next i env =>
    (i = k → r.isExpired env.now = false) ∧
      (s.issues i = true → env.id ≠ r.id ∧ P.hashRefreshToken env.refreshToken ≠ r.tokenHash)
  | _ => True

/-- Call `k` refreshes the token of `r`. -/
def Tracked (raw : Text) (r : RefreshToken) (k : Nat) (s : Auth) : Prop :=
  ∃ phase, s.calls[k]? = some (.refresh raw phase) ∧ phase.Tracks r s.refreshTokens

section Row
variable {P : AuthPorts} {s s' : Auth} {a : AuthAct} {r : RefreshToken} {raw : Text} {i k : Nat}
  {c c' : AuthCall}

theorem Spares.setCall (h : s.Spares P r k) (hc : s.calls[i]? = some c)
    (hopen : c.finished = false) (hpresented : c'.presented? = c.presented?)
    (hfound : i ≠ k → ∀ q, c'.found? = some q → q.id ≠ r.id)
    (hdrawn : ∀ p, c'.pending? = some p → p.2.id ≠ r.id ∧ p.2.tokenHash ≠ r.tokenHash) :
    (s.setCall i c').Spares P r k where
  presented := by
    intro j d hj hd
    rcases setCall_get hd with ⟨rfl, rfl⟩ | ⟨-, hd⟩
    · rw [hpresented]
      have hold := h.presented j c hj hc
      simp only [hopen, Bool.false_eq_true, false_or] at hold
      exact .inr hold
    · exact h.presented j d hj hd
  found := by
    intro j d q hj hd hq
    rcases setCall_get hd with ⟨rfl, rfl⟩ | ⟨-, hd⟩
    · exact hfound hj q hq
    · exact h.found j d q hj hd hq
  drawn := by
    intro d hd p hp
    rcases mem_setCall hd with rfl | hd
    · exact hdrawn p hp
    · exact h.drawn d hd p hp

theorem Spares.step (h : s.Spares P r k) (hb : s.Backed r) (ha : s.Undisturbed P r k a)
    (hs : s.step P a = some s') : s'.Spares P r k := by
  cases step_effect hs with
  | saved user => exact ⟨h.presented, h.found, h.drawn⟩
  | started request =>
    obtain ⟨hfound, -, hpending, -⟩ := begin_idle P request
    have hget : ∀ {j : Nat} {d}, (s.calls ++ [request.begin P])[j]? = some d →
        s.calls[j]? = some d ∨ d = request.begin P := by
      intro j d hd
      rw [List.getElem?_append] at hd
      split at hd
      · exact .inl hd
      · exact .inr (List.mem_singleton.mp (List.mem_of_getElem? hd))
    refine ⟨?_, ?_, ?_⟩
    · intro j d hj hd
      rcases hget hd with hd | rfl
      · exact h.presented j d hj hd
      · exact .inr ha
    · intro j d q hj hd hq
      rcases hget hd with hd | rfl
      · exact h.found j d q hj hd hq
      · simp [hfound] at hq
    · intro d hd p hp
      rcases List.mem_append.mp hd with hd | hd
      · exact h.drawn d hd p hp
      · rw [List.mem_singleton.mp hd] at hp
        simp [hpending] at hp
  | quiet _ j d d' hd _ hopen hq =>
    refine h.setCall hd hopen hq.presented ?_ ?_
    · intro hj q hfound
      exact h.found j d q hj hd (hq.found q hfound)
    · intro p hp
      exact h.drawn d (List.mem_of_getElem? hd) p (hq.pending p hp)
  | found j env d d' token q hd hopen htoken hd' hrow =>
    obtain ⟨hq, hhash⟩ := findByTokenHash_some hrow
    have hclose : d'.presented? = some token ∧ d'.found? = some q ∧ d'.pending? = none := by
      rcases hd' with rfl | rfl <;> exact ⟨rfl, rfl, rfl⟩
    refine h.setCall hd hopen (hclose.1.trans htoken.symm) ?_ (by simp [hclose.2.2])
    intro hj x hx hid
    cases hclose.2.1.symm.trans hx
    obtain rfl := hb.only q hq (.inl hid)
    have hother := h.presented j d hj hd
    simp only [hopen, Bool.false_eq_true, false_or] at hother
    exact hother token htoken hhash.symm
  | locked j env token q d' hd hrow hfree hd' =>
    have hclose : d'.presented? = some token ∧ d'.found? = some q ∧ d'.pending? = none := by
      rcases hd' with ⟨-, rfl⟩ | rfl <;> exact ⟨rfl, rfl, rfl⟩
    refine h.setCall hd rfl hclose.1 ?_ (by simp [hclose.2.2])
    intro hj x hx
    cases hclose.2.1.symm.trans hx
    exact h.found j _ q hj hd rfl
  | drew j env user session record d d' hd hissue hd' =>
    obtain ⟨-, hid, hhash⟩ := AuthPorts.issue_ok hissue
    have hdrawn : s.issues j = true → record.id ≠ r.id ∧ record.tokenHash ≠ r.tokenHash := by
      rw [hid, hhash]
      exact ha.2
    have hspares : (s.draw session record).Spares P r k := ⟨h.presented, h.found, h.drawn⟩
    obtain ⟨input, email, password, rfl, rfl⟩ | ⟨token, q, rfl, rfl⟩ := hd'
    · refine hspares.setCall hd rfl rfl (by simp [AuthCall.found?]) ?_
      intro p hp
      cases hp
      exact hdrawn (by simp [issues, hd])
    · refine hspares.setCall hd rfl rfl (fun hj x hx => h.found j _ x hj hd hx) ?_
      intro p hp
      cases hp
      exact hdrawn (by simp [issues, hd])
  | granted j env input session record hd hins =>
    have hspares : (s.insertToken record).Spares P r k := ⟨h.presented, h.found, h.drawn⟩
    exact hspares.setCall hd rfl rfl (by simp [AuthCall.found?]) (by simp [AuthCall.pending?])
  | kept j env token q now expired hd =>
    have hspares : (s.deleteToken q.id).Spares P r k := ⟨h.presented, h.found, h.drawn⟩
    exact hspares.setCall hd rfl rfl (by simp [AuthCall.found?]) (by simp [AuthCall.pending?])
  | rotated j env token q session record hd =>
    have hspares : ((s.deleteToken q.id).insertToken record).Spares P r k :=
      ⟨h.presented, h.found, h.drawn⟩
    exact hspares.setCall hd rfl rfl (by simp [AuthCall.found?]) (by simp [AuthCall.pending?])
  | absent j env token phase hd hrow =>
    refine h.setCall hd ?_ rfl (by simp [AuthCall.found?]) (by simp [AuthCall.pending?])
    rcases hrow with ⟨rfl, -⟩ | ⟨q, rfl, -⟩ <;> rfl
  | revoked j env token q hd hfree =>
    have hspares : (s.deleteToken q.id).Spares P r k := ⟨h.presented, h.found, h.drawn⟩
    exact hspares.setCall hd rfl rfl (by simp [AuthCall.found?]) (by simp [AuthCall.pending?])

theorem Backed.step (h : s.Backed r) (hsp : s.Spares P r k) (hs : s.step P a = some s') :
    s'.Backed r where
  user := by
    cases step_effect hs with
    | saved user =>
      rw [Table.find?_upsert]
      split
      · exact ⟨user, rfl⟩
      · exact h.user
    | _ => exact h.user
  only := by
    intro q hq hsame
    rcases row_step hs hq with hold | ⟨i, input, session, hc, -⟩ | ⟨i, token, x, session, hc, -⟩
    · exact h.only q hold hsame
    · have hnew := hsp.drawn _ (List.mem_of_getElem? hc) (session.refreshToken, q) rfl
      exact absurd hsame (not_or.mpr hnew)
    · have hnew := hsp.drawn _ (List.mem_of_getElem? hc) (session.refreshToken, q) rfl
      exact absurd hsame (not_or.mpr hnew)

theorem Spares.row_other (h : s.Spares P r k) (hs : s.step P a = some s')
    (ha : a.call? ≠ some k) : r ∈ s'.refreshTokens.rows ↔ r ∈ s.refreshTokens.rows := by
  have hdelete : ∀ {q : RefreshToken}, q.id ≠ r.id →
      (r ∈ (s.deleteToken q.id).refreshTokens.rows ↔ r ∈ s.refreshTokens.rows) := by
    intro q hq
    rw [mem_deleteToken]
    exact and_iff_left (Ne.symm hq)
  have hinsert : ∀ {u : Auth} {q : RefreshToken}, q.id ≠ r.id →
      (r ∈ (u.insertToken q).refreshTokens.rows ↔ r ∈ u.refreshTokens.rows) := by
    intro u q hq
    have hne : r ≠ q := by
      rintro rfl
      exact hq rfl
    rw [insertToken, Table.mem_upsert]
    simp [hne, Ne.symm hq]
  cases step_effect hs with
  | granted i env input session record hc hins =>
    exact hinsert (h.drawn _ (List.mem_of_getElem? hc) (session.refreshToken, record) rfl).1
  | kept i env token q now expired hc =>
    exact hdelete (h.found i _ q (fun hi => ha (congrArg some hi)) hc rfl)
  | rotated i env token q session record hc =>
    have hrecord := h.drawn _ (List.mem_of_getElem? hc) (session.refreshToken, record) rfl
    have hq := h.found i _ q (fun hi => ha (congrArg some hi)) hc rfl
    exact (hinsert hrecord.1).trans (hdelete hq)
  | revoked i env token q hc hfree =>
    exact hdelete (h.found i _ q (fun hi => ha (congrArg some hi)) hc rfl)
  | _ => exact Iff.rfl

theorem Tracked.next {env : AuthEnv} {phase : RefreshPhase}
    (hc : s.calls[k]? = some (.refresh raw phase)) (htracks : phase.Tracks r s.refreshTokens)
    (hb : s.Backed r) (hsp : s.Spares P r k) (hhash : r.tokenHash = P.hashRefreshToken raw)
    (hnow : r.isExpired env.now = false) (hs : s.nextRefresh P k env raw phase = some s') :
    s'.Tracked raw r k := by
  have hmoved : ∀ {u : Auth} {phase' : RefreshPhase}, u.calls = s.calls →
      phase'.Tracks r u.refreshTokens → (u.setCall k (.refresh raw phase')).Tracked raw r k := by
    intro u phase' hcalls htracks'
    have hcall : u.calls[k]? = some (.refresh raw phase) := by rw [hcalls, hc]
    exact ⟨phase', setCall_self hcall, htracks'⟩
  cases phase with
  | begin =>
    simp only [nextRefresh, Option.some.injEq] at hs
    exact hs ▸ hmoved rfl htracks
  | find =>
    simp only [nextRefresh] at hs
    cases hrow : s.findByTokenHash (P.hashRefreshToken raw) with
    | none =>
      simp only [hrow, Option.some.injEq] at hs
      exact hs ▸ hmoved rfl htracks
    | some q =>
      simp only [hrow, Option.some.injEq] at hs
      obtain ⟨hq, hsame⟩ := findByTokenHash_some hrow
      exact hs ▸ hmoved rfl ⟨hb.only q hq (.inr (hsame.trans hhash.symm)), htracks⟩
  | delete q =>
    obtain ⟨rfl, hrow⟩ := htracks
    simp only [nextRefresh, hnow, Bool.false_eq_true, dite_false] at hs
    split at hs
    · simp only [Option.some.injEq] at hs
      exact hs ▸ hmoved rfl hrow
    · split at hs
      · simp at hs
      · simp only [Option.some.injEq] at hs
        exact hs ▸ hmoved rfl ⟨rfl, hrow⟩
  | keepDeletion q now expired => exact htracks.elim
  | findUser q =>
    obtain ⟨rfl, hrow⟩ := htracks
    simp only [nextRefresh] at hs
    split at hs
    · simp only [Option.some.injEq] at hs
      exact hs ▸ hmoved rfl hrow
    · split at hs
      · simp only [Option.some.injEq] at hs
        exact hs ▸ hmoved rfl hrow
      · rename_i session record hissue
        simp only [Option.some.injEq] at hs
        have hdrew : ((s.draw session record).setCall k
            (.refresh raw (.save q session record))).Tracked raw q k := hmoved rfl ⟨rfl, hrow⟩
        exact hs ▸ hdrew
  | save q session record =>
    obtain ⟨rfl, hrow⟩ := htracks
    simp only [nextRefresh] at hs
    split at hs
    · simp only [Option.some.injEq] at hs
      exact hs ▸ hmoved rfl hrow
    · simp only [Option.some.injEq] at hs
      exact hs ▸ hmoved rfl ⟨rfl, hrow⟩
  | commit q session record =>
    obtain ⟨rfl, hrow⟩ := htracks
    simp only [nextRefresh, Option.some.injEq] at hs
    have hrecord := hsp.drawn _ (List.mem_of_getElem? hc) (session.refreshToken, record) rfl
    have hgone : q ∉ ((s.deleteToken q.id).insertToken record).refreshTokens.rows := by
      intro hq
      rcases Table.mem_upsert.mp hq with rfl | ⟨hq, -⟩
      · exact hrecord.1 rfl
      · exact (mem_deleteToken.mp hq).2 rfl
    have hrotated : (((s.deleteToken q.id).insertToken record).setCall k
        (.refresh raw (.returned (.ok session)))).Tracked raw q k := hmoved rfl hgone
    exact hs ▸ hrotated
  | returned answer => simp [nextRefresh] at hs
  | dropped => simp [nextRefresh] at hs

theorem tracks_row {phase : RefreshPhase} {tokens : Table RefreshToken.id}
    (h : phase.Tracks r tokens) (hopen : (AuthCall.refresh raw phase).finished = false) :
    r ∈ tokens.rows := by
  cases phase with
  | begin => exact h
  | find => exact h
  | delete q => exact h.2
  | keepDeletion q now expired => exact h.elim
  | findUser q => exact h.2
  | save q session record => exact h.2
  | commit q session record => exact h.2
  | returned answer => simp [AuthCall.finished] at hopen
  | dropped => exact h

theorem tracks_congr {phase : RefreshPhase} {tokens tokens' : Table RefreshToken.id}
    (h : phase.Tracks r tokens) (hrow : r ∈ tokens'.rows ↔ r ∈ tokens.rows) :
    phase.Tracks r tokens' := by
  cases phase with
  | returned answer =>
    cases answer with
    | error e => exact hrow.mpr h
    | ok session => exact fun hr => h (hrow.mp hr)
  | keepDeletion q now expired => exact h.elim
  | _ => simpa only [RefreshPhase.Tracks, hrow] using h

theorem call_other {d : AuthCall} (hs : s.step P a = some s') (hd : s.calls[k]? = some d)
    (ha : a.call? ≠ some k) : s'.calls[k]? = some d := by
  rcases step_calls hs with hcalls | ⟨request, hcalls⟩ | ⟨i, c, c', hi, -, -, hcalls, -⟩
  · rw [hcalls]
    exact hd
  · rw [hcalls, List.getElem?_append_left (List.getElem?_eq_some_iff.mp hd).1]
    exact hd
  · have hne : i ≠ k := by
      rintro rfl
      exact ha hi
    rw [hcalls, List.getElem?_set_ne hne]
    exact hd

theorem Tracked.step (h : s.Tracked raw r k) (hb : s.Backed r) (hsp : s.Spares P r k)
    (hhash : r.tokenHash = P.hashRefreshToken raw) (ha : s.Undisturbed P r k a)
    (hs : s.step P a = some s') : s'.Tracked raw r k := by
  obtain ⟨phase, hc, htracks⟩ := h
  by_cases hk : a.call? = some k
  · cases a with
    | saveUser user => simp [AuthAct.call?] at hk
    | start request => simp [AuthAct.call?] at hk
    | next i env =>
      cases hk
      simp only [Auth.step, hc] at hs
      exact Tracked.next hc htracks hb hsp hhash (ha.1 rfl) hs
    | fail i message =>
      cases hk
      simp only [Auth.step, hc] at hs
      split at hs
      · simp at hs
      · rename_i hopen
        cases hs
        have hrow := tracks_row htracks (by simpa using hopen)
        exact ⟨.returned (.error (.internal message)), setCall_self hc, hrow⟩
    | drop i =>
      cases hk
      simp only [Auth.step, hc] at hs
      split at hs
      · simp at hs
      · rename_i hopen
        cases hs
        have hrow := tracks_row htracks (by simpa using hopen)
        exact ⟨.dropped, setCall_self hc, hrow⟩
  · exact ⟨phase, call_other hs hc hk, tracks_congr htracks (hsp.row_other hs hk)⟩

/-- A call that has returned takes no further step, so the row stays as it is. -/
theorem Spares.row_returned {answer : Except ApplicationError AuthSession}
    (h : s.Spares P r k) (hc : s.calls[k]? = some (.refresh raw (.returned answer)))
    (hs : s.step P a = some s') : r ∈ s'.refreshTokens.rows ↔ r ∈ s.refreshTokens.rows := by
  refine h.row_other hs ?_
  intro hk
  cases a with
  | saveUser user => simp [AuthAct.call?] at hk
  | start request => simp [AuthAct.call?] at hk
  | next i env =>
    cases hk
    simp [Auth.step, hc, nextCall, nextRefresh] at hs
  | fail i message =>
    cases hk
    simp [Auth.step, hc, AuthCall.finished] at hs
  | drop i =>
    cases hk
    simp [Auth.step, hc, AuthCall.finished] at hs

end Row

end Auth

/-! ### Handlers -/

def RefreshHandler.Follows (raw : Text) (k : Nat) (s : Auth) : RefreshHandler → Prop
  | .refreshing call => call = k
  | .stats session => s.calls[k]? = some (.refresh raw (.returned (.ok session)))
  | .answered _ => ∃ answer, s.calls[k]? = some (.refresh raw (.returned answer))
  | .dropped => True

def RouteAct.handler? : RouteAct → Option Nat
  | .resume j => some j
  | .stats j _ => some j
  | .failStats j _ => some j
  | .drop j => some j
  | _ => none

inductive RefreshHandler.Effect (w : RefreshRoute) (j : Nat) :
    RouteAct → RefreshHandler → RefreshHandler → Prop where
  | same (a : RouteAct) (h : RefreshHandler) (hother : a.handler? ≠ some j) : Effect w j a h h
  | refused (call : Nat) (token : Text) (e : ApplicationError)
      (hc : w.auth.calls[call]? = some (.refresh token (.returned (.error e)))) :
      Effect w j (.resume j) (.refreshing call) (.answered (.error e))
  | refreshed (call : Nat) (token : Text) (session : AuthSession)
      (hc : w.auth.calls[call]? = some (.refresh token (.returned (.ok session)))) :
      Effect w j (.resume j) (.refreshing call) (.stats session)
  | responded (now : DateTime) (session : AuthSession) :
      Effect w j (.stats j now) (.stats session) (.answered (w.authResponse session now))
  | failed (message : String) (session : AuthSession) :
      Effect w j (.failStats j message) (.stats session) (.answered (.error (.internal message)))
  | gone (h : RefreshHandler) (hopen : ∀ answer, h ≠ .answered answer) :
      Effect w j (.drop j) h .dropped

namespace RefreshRoute

def Undisturbed (P : AuthPorts) (r : RefreshToken) (k : Nat) (w : RefreshRoute) : RouteAct → Prop
  | .request cookie => ∀ raw ∈ cookie, P.hashRefreshToken raw ≠ r.tokenHash
  | .auth a => w.auth.Undisturbed P r k a
  | _ => True

/-- The betting record that handler `j` asks for is not read. -/
def LosesStats (w : RefreshRoute) (j : Nat) : RouteAct → Prop
  | .stats i now => i = j ∧ ∃ session e, w.handlers[j]? = some (.stats session) ∧
      w.authResponse session now = .error e
  | .failStats i _ => i = j
  | _ => False

/-- Handler `j` refreshes the token of `r` through call `k`. -/
structure Handles (P : AuthPorts) (raw : Text) (r : RefreshToken) (j k : Nat)
    (w : RefreshRoute) : Prop where
  hash : r.tokenHash = P.hashRefreshToken raw
  backed : w.auth.Backed r
  spares : w.auth.Spares P r k
  tracked : w.auth.Tracked raw r k
  handler : ∃ h, w.handlers[j]? = some h ∧ h.Follows raw k w.auth

def Refused (w : RefreshRoute) (j : Nat) : Prop :=
  ∃ e, w.handlers[j]? = some (.answered (.error e))

section Steps
variable {P : AuthPorts} {w w' : RefreshRoute} {a : RouteAct} {raw : Text} {r : RefreshToken}
  {j k : Nat} {h : RefreshHandler}

theorem setHandler_effect {i : Nat} {old new : RefreshHandler} (hi : w.handlers[i]? = some old)
    (ha : a.handler? = some i) (heffect : RefreshHandler.Effect w i a old new)
    (hj : w.handlers[j]? = some h) :
    ∃ h', (w.setHandler i new).handlers[j]? = some h' ∧ RefreshHandler.Effect w j a h h' := by
  have hlt := (List.getElem?_eq_some_iff.mp hj).1
  by_cases hij : i = j
  · subst hij
    cases hj.symm.trans hi
    exact ⟨new, List.getElem?_set_self hlt, heffect⟩
  · have hother : a.handler? ≠ some j := by simpa [ha] using hij
    exact ⟨h, (List.getElem?_set_ne hij).trans hj, .same a h hother⟩

theorem handler_step (hs : w.step P a = some w') (hj : w.handlers[j]? = some h) :
    ∃ h', w'.handlers[j]? = some h' ∧ RefreshHandler.Effect w j a h h' := by
  have hlt := (List.getElem?_eq_some_iff.mp hj).1
  cases a with
  | request cookie =>
    cases hs
    cases cookie with
    | none => exact ⟨h, (List.getElem?_append_left hlt).trans hj,
        .same _ h (by simp [RouteAct.handler?])⟩
    | some token => exact ⟨h, (List.getElem?_append_left hlt).trans hj,
        .same _ h (by simp [RouteAct.handler?])⟩
  | auth b =>
    obtain ⟨auth, -, rfl⟩ := Option.map_eq_some_iff.mp hs
    exact ⟨h, hj, .same _ h (by simp [RouteAct.handler?])⟩
  | saveBet bet =>
    cases hs
    exact ⟨h, hj, .same _ h (by simp [RouteAct.handler?])⟩
  | resume i =>
    simp only [step] at hs
    split at hs
    · rename_i call hi
      simp only [resume] at hs
      split at hs
      · rename_i token e hc
        cases hs
        exact setHandler_effect hi rfl (.refused call token e hc) hj
      · rename_i token session hc
        cases hs
        exact setHandler_effect hi rfl (.refreshed call token session hc) hj
      · cases hs
    · cases hs
  | stats i now =>
    simp only [step] at hs
    split at hs
    · rename_i session hi
      cases hs
      exact setHandler_effect hi rfl (.responded now session) hj
    · cases hs
  | failStats i message =>
    simp only [step] at hs
    split at hs
    · rename_i session hi
      cases hs
      exact setHandler_effect hi rfl (.failed message session) hj
    · cases hs
  | drop i =>
    simp only [step] at hs
    split at hs
    · rename_i call hi
      obtain ⟨auth, -, rfl⟩ := Option.map_eq_some_iff.mp hs
      exact setHandler_effect hi rfl (.gone _ (by simp)) hj
    · rename_i session hi
      cases hs
      exact setHandler_effect hi rfl (.gone _ (by simp)) hj
    · cases hs

theorem auth_step (hs : w.step P a = some w') :
    w'.auth = w.auth ∨ ∃ b, w.auth.step P b = some w'.auth ∧
      ∀ r k, w.Undisturbed P r k a → w.auth.Undisturbed P r k b := by
  cases a with
  | request cookie =>
    cases hs
    cases cookie with
    | none => exact .inl rfl
    | some token => exact .inr ⟨.start (.refresh token), rfl, fun r k ha => ha⟩
  | auth b =>
    obtain ⟨auth, hauth, rfl⟩ := Option.map_eq_some_iff.mp hs
    exact .inr ⟨b, hauth, fun r k ha => ha⟩
  | saveBet bet =>
    cases hs
    exact .inl rfl
  | resume i =>
    simp only [step] at hs
    split at hs
    · simp only [resume] at hs
      split at hs <;> cases hs <;> exact .inl rfl
    · cases hs
  | stats i now =>
    simp only [step] at hs
    split at hs <;> cases hs
    exact .inl rfl
  | failStats i message =>
    simp only [step] at hs
    split at hs <;> cases hs
    exact .inl rfl
  | drop i =>
    simp only [step] at hs
    split at hs
    · rename_i call hi
      obtain ⟨auth, hauth, rfl⟩ := Option.map_eq_some_iff.mp hs
      exact .inr ⟨.drop call, hauth, fun r k _ => trivial⟩
    · cases hs
      exact .inl rfl
    · cases hs

theorem auth_stays (hs : w.step P a = some w') {d : AuthCall} {i : Nat}
    (hd : w.auth.calls[i]? = some d) (hfin : d.finished = true) : w'.auth.calls[i]? = some d := by
  rcases auth_step hs with hauth | ⟨b, hb, -⟩
  · rw [hauth]
    exact hd
  · exact Auth.finished_stays hb hd hfin

theorem follows_stays (hs : w.step P a = some w') (hf : h.Follows raw k w.auth) :
    h.Follows raw k w'.auth := by
  cases h with
  | refreshing call => exact hf
  | stats session => exact auth_stays hs hf rfl
  | answered answer =>
    obtain ⟨returned, hc⟩ := hf
    exact ⟨returned, auth_stays hs hc rfl⟩
  | dropped => trivial

theorem Handles.step (hw : w.Handles P raw r j k) (ha : w.Undisturbed P r k a)
    (hs : w.step P a = some w') : w'.Handles P raw r j k where
  hash := hw.hash
  backed := by
    rcases auth_step hs with hauth | ⟨b, hb, -⟩
    · exact hauth ▸ hw.backed
    · exact hw.backed.step hw.spares hb
  spares := by
    rcases auth_step hs with hauth | ⟨b, hb, hquiet⟩
    · exact hauth ▸ hw.spares
    · exact hw.spares.step hw.backed (hquiet r k ha) hb
  tracked := by
    rcases auth_step hs with hauth | ⟨b, hb, hquiet⟩
    · exact hauth ▸ hw.tracked
    · exact hw.tracked.step hw.backed hw.spares hw.hash (hquiet r k ha) hb
  handler := by
    obtain ⟨h, hj, hfollows⟩ := hw.handler
    obtain ⟨h', hj', heffect⟩ := handler_step hs hj
    refine ⟨h', hj', ?_⟩
    cases heffect with
    | same => exact follows_stays hs hfollows
    | refused call token e hc =>
      cases hfollows
      obtain ⟨phase, hcall, -⟩ := hw.tracked
      cases hc.symm.trans hcall
      exact ⟨.error e, auth_stays hs hc rfl⟩
    | refreshed call token session hc =>
      cases hfollows
      obtain ⟨phase, hcall, -⟩ := hw.tracked
      cases hc.symm.trans hcall
      exact auth_stays hs hc rfl
    | responded now session =>
      exact ⟨.ok session, auth_stays hs hfollows rfl⟩
    | failed message session =>
      exact ⟨.ok session, auth_stays hs hfollows rfl⟩
    | gone h hopen => trivial

/-- An answer is final, and with it what became of the row. -/
theorem Handles.settled (hw : w.Handles P raw r j k) (hs : w.step P a = some w')
    {answer : Except ApplicationError (Cookie × AuthResponse)}
    (hj : w.handlers[j]? = some (.answered answer)) :
    w'.handlers[j]? = some (.answered answer) ∧
      (r ∈ w'.auth.refreshTokens.rows ↔ r ∈ w.auth.refreshTokens.rows) := by
  constructor
  · obtain ⟨h', hj', heffect⟩ := handler_step hs hj
    cases heffect with
    | same => exact hj'
    | gone _ hopen => exact absurd rfl (hopen answer)
  · obtain ⟨h, hh, hfollows⟩ := hw.handler
    cases hj.symm.trans hh
    obtain ⟨returned, hc⟩ := hfollows
    rcases auth_step hs with hauth | ⟨b, hb, -⟩
    · rw [hauth]
    · exact hw.spares.row_returned hc hb

theorem Handles.loses (hw : w.Handles P raw r j k) (hs : w.step P a = some w')
    (ha : w.LosesStats j a) : w'.Refused j ∧ r ∉ w'.auth.refreshTokens.rows := by
  obtain ⟨h, hj, hfollows⟩ := hw.handler
  obtain ⟨h', hj', heffect⟩ := handler_step hs hj
  have hgone : ∀ session, h = .stats session → w'.auth = w.auth →
      r ∉ w'.auth.refreshTokens.rows := by
    rintro session rfl hauth
    obtain ⟨phase, hcall, htracks⟩ := hw.tracked
    cases hcall.symm.trans hfollows
    rw [hauth]
    exact htracks
  cases a with
  | stats i now =>
    obtain ⟨rfl, session, e, hsession, hresponse⟩ := ha
    cases hj.symm.trans hsession
    simp only [RefreshRoute.step, hsession, Option.some.injEq] at hs
    refine ⟨⟨e, ?_⟩, hgone session rfl (hs ▸ rfl)⟩
    cases heffect with
    | same _ _ hother => exact absurd rfl hother
    | responded => rw [hj', hresponse]
  | failStats i message =>
    cases ha
    simp only [RefreshRoute.step] at hs
    split at hs
    · rename_i session hsession
      cases hj.symm.trans hsession
      cases hs
      refine ⟨⟨.internal message, ?_⟩, hgone session rfl rfl⟩
      cases heffect with
      | same _ _ hother => exact absurd rfl hother
      | failed => exact hj'
    · cases hs
  | _ => exact ha.elim

theorem Handles.keeps (hw : w.Handles P raw r j k) (hs : w.step P a = some w')
    (ha : ¬w.LosesStats j a) (hkeep : w.Refused j → r ∈ w.auth.refreshTokens.rows)
    (hrefused : w'.Refused j) : r ∈ w'.auth.refreshTokens.rows := by
  obtain ⟨e, he⟩ := hrefused
  obtain ⟨h, hj, hfollows⟩ := hw.handler
  obtain ⟨h', hj', heffect⟩ := handler_step hs hj
  cases he.symm.trans hj'
  generalize hanswered : RefreshHandler.answered (.error e) = answered at heffect
  cases heffect with
  | same _ _ hother =>
    subst hanswered
    exact (hw.settled hs hj).2.mpr (hkeep ⟨e, hj⟩)
  | refused call token e' hc =>
    cases hfollows
    obtain ⟨phase, hcall, htracks⟩ := hw.tracked
    cases hc.symm.trans hcall
    simp only [RefreshRoute.step, hj, resume, hc, Option.some.injEq] at hs
    rw [← hs]
    exact htracks
  | refreshed call token session hc => cases hanswered
  | responded now session =>
    injection hanswered with hresponse
    exact absurd ⟨rfl, session, e, hj, hresponse.symm⟩ ha
  | failed message session => exact absurd rfl ha
  | gone h hopen => cases hanswered

end Steps

end RefreshRoute

/-! ### A later refresh -/

namespace Auth

def withRefresh (s : Auth) (raw : Text) (phase : RefreshPhase) : Auth :=
  { s with calls := s.calls ++ [.refresh raw phase] }

section Retry
variable {P : AuthPorts} {s : Auth} {raw : Text} {r : RefreshToken} {env : AuthEnv} {i : Nat}

theorem withRefresh_setCall (s : Auth) (raw : Text) (phase phase' : RefreshPhase) :
    (s.withRefresh raw phase).setCall s.calls.length (.refresh raw phase') =
      s.withRefresh raw phase' := by
  simp [withRefresh, setCall]

theorem withRefresh_call (s : Auth) (raw : Text) (phase : RefreshPhase) :
    (s.withRefresh raw phase).calls[s.calls.length]? = some (.refresh raw phase) := by
  simp [withRefresh]

theorem withRefresh_step (s : Auth) (raw : Text) (env : AuthEnv) (phase : RefreshPhase) :
    (s.withRefresh raw phase).step P (.next s.calls.length env) =
      (s.withRefresh raw phase).nextRefresh P s.calls.length env raw phase := by
  simp only [step, withRefresh_call, nextCall]

theorem not_blocked {id : Uuid} (h : ∀ j c q, j ≠ i → s.calls[j]? = some c →
    c.held? = some q → q.id ≠ id) : s.blocked i id = false := by
  rw [blocked, List.any_eq_false]
  rintro ⟨c, j⟩ hmem
  have hj : s.calls[j]? = some c := List.mem_zipIdx_iff_getElem?.mp hmem
  by_cases hji : j = i
  · simp [hji]
  · cases hq : c.held? with
    | none => simp
    | some q =>
      have hne := h j c q hji hj hq
      simp [hne]

theorem findByTokenHash_row (hb : s.Backed r) (hrow : r ∈ s.refreshTokens.rows) :
    s.findByTokenHash r.tokenHash = some r := by
  cases hfound : s.findByTokenHash r.tokenHash with
  | none => exact absurd rfl (findByTokenHash_none hfound r hrow)
  | some q =>
    obtain ⟨hq, hhash⟩ := findByTokenHash_some hfound
    rw [hb.only q hq (.inr hhash)]

theorem issue_owner {user : User} {session : AuthSession} {record : RefreshToken}
    (h : P.issue env user = .ok (session, record)) :
    session.user = user ∧ record.userId = user.id := by
  unfold AuthPorts.issue at h
  split at h
  · simp at h
  · cases h
    exact ⟨rfl, rfl⟩

theorem insertError_none {user : User} {record : RefreshToken}
    (hnew : ∀ q ∈ s.refreshTokens.rows, q.id ≠ record.id ∧ q.tokenHash ≠ record.tokenHash)
    (huser : s.users.find? record.userId = some user) : s.insertError record = none := by
  have hid : s.refreshTokens.find? record.id = none :=
    Table.find?_eq_none.mpr fun q hq => (hnew q hq).1
  have hhash : s.findByTokenHash record.tokenHash = none := by
    rw [findByTokenHash, List.find?_eq_none]
    intro q hq
    simpa using (hnew q hq).2
  simp only [insertError, hid, hhash, huser, Option.isSome_none, Option.isNone_some,
    Bool.false_eq_true, if_false]

theorem refresh_takes (hb : s.Backed r) (hrow : r ∈ s.refreshTokens.rows)
    (hhash : r.tokenHash = P.hashRefreshToken raw)
    (hheld : ∀ c ∈ s.calls, ∀ q, c.held? = some q → q.id ≠ r.id)
    (hnow : r.isExpired env.now = false) :
    Transition.run (step P) (s.withRefresh raw .begin)
      (List.replicate 3 (.next s.calls.length env)) = some (s.withRefresh raw (.findUser r)) := by
  have hfind : (s.withRefresh raw .begin).step P (.next s.calls.length env) =
      some (s.withRefresh raw .find) := by
    rw [withRefresh_step]
    simp only [nextRefresh, withRefresh_setCall]
  have hdelete : (s.withRefresh raw .find).step P (.next s.calls.length env) =
      some (s.withRefresh raw (.delete r)) := by
    have hfound : (s.withRefresh raw .find).findByTokenHash (P.hashRefreshToken raw) = some r := by
      rw [← hhash]
      exact findByTokenHash_row (s := s) hb hrow
    rw [withRefresh_step]
    simp only [nextRefresh, hfound, withRefresh_setCall]
  have hfindUser : (s.withRefresh raw (.delete r)).step P (.next s.calls.length env) =
      some (s.withRefresh raw (.findUser r)) := by
    have hstored : s.refreshTokens.find? r.id = some r := Table.find?_of_mem hrow
    have hfree : (s.withRefresh raw (.delete r)).blocked s.calls.length r.id = false := by
      refine not_blocked fun j c q hj hc hq => ?_
      have hmem := List.mem_of_getElem? hc
      rcases List.mem_append.mp hmem with hold | hnew
      · exact hheld c hold q hq
      · rw [List.mem_singleton.mp hnew] at hq
        simp [AuthCall.held?] at hq
    rw [withRefresh_step]
    simp only [nextRefresh, hfree, hnow, withRefresh_setCall, Bool.false_eq_true, if_false,
      dite_false]
    simp only [withRefresh, hstored, Option.isNone_some, Bool.false_eq_true, if_false]
  simp only [List.replicate, Transition.run, hfind, hdelete, hfindUser, Option.bind_some]

theorem refresh_rotates {user : User} {session : AuthSession} {record : RefreshToken}
    (huser : s.users.find? r.userId = some user)
    (hissue : P.issue env user = .ok (session, record))
    (hnew : ∀ q ∈ s.refreshTokens.rows,
      q.id ≠ env.id ∧ q.tokenHash ≠ P.hashRefreshToken env.refreshToken) :
    Transition.run (step P) (s.withRefresh raw (.findUser r))
      (List.replicate 3 (.next s.calls.length env)) =
      some ((((s.draw session record).deleteToken r.id).insertToken record).withRefresh raw
        (.returned (.ok session))) := by
  have howner := issue_owner hissue
  obtain ⟨-, hid, hhash⟩ := AuthPorts.issue_ok hissue
  have hdraw : (s.withRefresh raw (.findUser r)).step P (.next s.calls.length env) =
      some ((s.draw session record).withRefresh raw (.save r session record)) := by
    have hstored : (s.withRefresh raw (.findUser r)).users.find? r.userId = some user := huser
    rw [withRefresh_step]
    simp only [nextRefresh, hstored, hissue]
    simp [withRefresh, setCall, draw]
  have hsave : ((s.draw session record).withRefresh raw (.save r session record)).step P
      (.next s.calls.length env) =
      some ((s.draw session record).withRefresh raw (.commit r session record)) := by
    have hinsert : (((s.draw session record).withRefresh raw
        (.save r session record)).deleteToken r.id).insertError record = none := by
      refine insertError_none ?_ (?_ : _ = some user)
      · intro q hq
        rw [hid, hhash]
        exact hnew q (mem_deleteToken.mp hq).1
      · rw [howner.2, Table.find?_key huser]
        exact huser
    have hstep := withRefresh_step (P := P) (s.draw session record) raw env
      (.save r session record)
    have hset := withRefresh_setCall (s.draw session record) raw
      (.save r session record) (.commit r session record)
    simp only [nextRefresh, hinsert] at hstep
    exact hstep.trans (congrArg some hset)
  have hcommit : ((s.draw session record).withRefresh raw (.commit r session record)).step P
      (.next s.calls.length env) =
      some ((((s.draw session record).deleteToken r.id).insertToken record).withRefresh raw
        (.returned (.ok session))) := by
    have hstep := withRefresh_step (P := P) (s.draw session record) raw env
      (.commit r session record)
    simp only [nextRefresh] at hstep
    refine hstep.trans ?_
    simp [withRefresh, setCall, draw, deleteToken, insertToken]
  simp only [List.replicate, Transition.run, hdraw, hsave, hcommit, Option.bind_some]

end Retry

end Auth

namespace RefreshRoute

def retry (w : RefreshRoute) (raw : Text) (env : AuthEnv) : List RouteAct :=
  .request (some raw) ::
    (List.replicate 6 (.next w.auth.calls.length env)).map .auth ++
      [.resume w.handlers.length, .stats w.handlers.length env.now]

/-- One more request with the token of `r` gets a new session when none of its calls fails
and what it draws is new. -/
def Retries (P : AuthPorts) (raw : Text) (r : RefreshToken) (w : RefreshRoute) : Prop :=
  ∀ env user session record stats, w.auth.users.find? r.userId = some user →
    P.issue env user = .ok (session, record) → r.isExpired env.now = false →
    (∀ q ∈ w.auth.refreshTokens.rows,
      q.id ≠ env.id ∧ q.tokenHash ≠ P.hashRefreshToken env.refreshToken) →
    PgBetRepository.statsForUser w.bets.rows user.id = .ok stats →
    ∃ w', Transition.run (step P) w (w.retry raw env) = some w' ∧
      w'.handlers[w.handlers.length]? = some (.answered (.ok
        (refreshCookie session w.cookieSecure env.now,
          ⟨session.accessToken, .new session.user stats⟩)))

section Retry
variable {P : AuthPorts} {w : RefreshRoute} {raw : Text} {r : RefreshToken}

theorem run_auth {s : Auth} {as : List AuthAct}
    (h : Transition.run (Auth.step P) w.auth as = some s) :
    Transition.run (step P) w (as.map .auth) = some { w with auth := s } := by
  induction as generalizing w with
  | nil =>
    cases h
    rfl
  | cons a as ih =>
    obtain ⟨u, hu, hrest⟩ := Transition.run_cons_some h
    have hstep : w.step P (.auth a) = some { w with auth := u } := by
      simp only [step, hu, Option.map_some]
    simp only [List.map_cons, Transition.run, hstep, Option.bind_some]
    exact ih (w := { w with auth := u }) hrest

theorem answers {j call : Nat} {session : AuthSession} {stats : UserStats} (now : DateTime)
    (hj : w.handlers[j]? = some (.refreshing call))
    (hc : w.auth.calls[call]? = some (.refresh raw (.returned (.ok session))))
    (hstats : PgBetRepository.statsForUser w.bets.rows session.user.id = .ok stats) :
    ∃ w', Transition.run (step P) w [.resume j, .stats j now] = some w' ∧
      w'.handlers[j]? = some (.answered (.ok (refreshCookie session w.cookieSecure now,
        ⟨session.accessToken, .new session.user stats⟩))) := by
  have hlt := (List.getElem?_eq_some_iff.mp hj).1
  have hresume : w.step P (.resume j) = some (w.setHandler j (.stats session)) := by
    simp only [step, hj, resume, hc]
  have hwaits : (w.setHandler j (.stats session)).handlers[j]? = some (.stats session) :=
    List.getElem?_set_self hlt
  have hlt' := (List.getElem?_eq_some_iff.mp hwaits).1
  have hread : (w.setHandler j (.stats session)).step P (.stats j now) =
      some ((w.setHandler j (.stats session)).setHandler j
        (.answered ((w.setHandler j (.stats session)).authResponse session now))) := by
    simp only [step, hwaits]
  have hrun : Transition.run (step P) w [.resume j, .stats j now] =
      (w.setHandler j (.stats session)).step P (.stats j now) := by
    simp only [Transition.run, hresume, Option.bind_some, Option.bind_fun_some]
  refine ⟨_, hrun.trans hread, ?_⟩
  refine (List.getElem?_set_self hlt').trans ?_
  simp only [authResponse, setHandler, hstats]

theorem retries (hb : w.auth.Backed r) (hrow : r ∈ w.auth.refreshTokens.rows)
    (hhash : r.tokenHash = P.hashRefreshToken raw)
    (hheld : ∀ c ∈ w.auth.calls, ∀ q, c.held? = some q → q.id ≠ r.id) : w.Retries P raw r := by
  intro env user session record stats huser hissue hnow hnew hstats
  have hcalls := Transition.run_append_some
    (Auth.refresh_takes hb hrow hhash hheld hnow) (Auth.refresh_rotates huser hissue hnew)
  rw [List.replicate_append_replicate] at hcalls
  have hauth := run_auth (w := w.request (some raw)) hcalls
  have hwaits : (w.request (some raw)).handlers[w.handlers.length]? =
      some (.refreshing w.auth.calls.length) := by
    simp [request]
  have hreturned := Auth.withRefresh_call
    (((w.auth.draw session record).deleteToken r.id).insertToken record) raw
    (.returned (.ok session))
  rw [← (Auth.issue_owner hissue).1] at hstats
  obtain ⟨w', hanswer, hreply⟩ := answers (P := P) (w := { w.request (some raw) with
    auth := (((w.auth.draw session record).deleteToken r.id).insertToken record).withRefresh raw
      (.returned (.ok session)) }) env.now hwaits hreturned hstats
  refine ⟨w', ?_, hreply⟩
  have hrequest : Transition.run (step P) w [.request (some raw)] = some (w.request (some raw)) :=
    rfl
  exact Transition.run_append_some (Transition.run_append_some hrequest hauth) hanswer

end Retry

theorem handles_request {P : AuthPorts} {w : RefreshRoute} {raw : Text} {r : RefreshToken}
    (hhash : r.tokenHash = P.hashRefreshToken raw) (hrow : r ∈ w.auth.refreshTokens.rows)
    (hb : w.auth.Backed r) (hsp : w.auth.Spares P r w.auth.calls.length) :
    (w.request (some raw)).Handles P raw r w.handlers.length w.auth.calls.length where
  hash := hhash
  backed := ⟨hb.user, hb.only⟩
  spares := by
    have hold : ∀ {i : Nat} {c}, i ≠ w.auth.calls.length →
        (w.request (some raw)).auth.calls[i]? = some c → w.auth.calls[i]? = some c := by
      intro i c hi hc
      have hlt := (List.getElem?_eq_some_iff.mp hc).1
      simp only [request, List.length_append, List.length_singleton] at hlt
      exact (List.getElem?_append_left (by omega)).symm.trans hc
    refine ⟨fun i c hi hc => hsp.presented i c hi (hold hi hc),
      fun i c q hi hc => hsp.found i c q hi (hold hi hc), ?_⟩
    intro c hc p hp
    rcases List.mem_append.mp hc with hc | hc
    · exact hsp.drawn c hc p hp
    · rw [List.mem_singleton.mp hc] at hp
      simp [AuthCall.pending?] at hp
  tracked := ⟨.begin, by simp [request], hrow⟩
  handler := ⟨.refreshing w.auth.calls.length, by simp [request], rfl⟩

theorem Handles.free {P : AuthPorts} {w : RefreshRoute} {raw : Text} {r : RefreshToken}
    {j k : Nat} (hw : w.Handles P raw r j k) (hrefused : w.Refused j) :
    ∀ c ∈ w.auth.calls, ∀ q, c.held? = some q → q.id ≠ r.id := by
  intro c hc q hq
  obtain ⟨i, hi⟩ := List.mem_iff_getElem?.mp hc
  by_cases hik : i = k
  · subst hik
    obtain ⟨e, he⟩ := hrefused
    obtain ⟨h, hj, hfollows⟩ := hw.handler
    cases he.symm.trans hj
    obtain ⟨answer, hanswer⟩ := hfollows
    cases hi.symm.trans hanswer
    simp [AuthCall.held?] at hq
  · exact hw.spares.found i c q hik hi (AuthCall.found_of_held hq)

end RefreshRoute

/-- A refresh that is answered with an error leaves the token stored and good for another
refresh if and only if the record of the bets, read after the commit, was not lost. -/
theorem failed_refresh_keeps_session {P : AuthPorts} {w t : RefreshRoute} {raw : Text}
    {r : RefreshToken} {as : List RouteAct} (hhash : r.tokenHash = P.hashRefreshToken raw)
    (hrow : r ∈ w.auth.refreshTokens.rows) (hb : w.auth.Backed r)
    (hsp : w.auth.Spares P r w.auth.calls.length)
    (hrun : Transition.run (RefreshRoute.step P) w (.request (some raw) :: as) = some t)
    (hg : Transition.Guarded (RefreshRoute.step P)
      (RefreshRoute.Undisturbed P r w.auth.calls.length) (w.request (some raw)) as) :
    (t.Refused w.handlers.length → r ∈ t.auth.refreshTokens.rows ∧ t.Retries P raw r) ↔
      Transition.Guarded (RefreshRoute.step P)
        (fun u a => ¬u.LosesStats w.handlers.length a) (w.request (some raw)) as := by
  have hrest : Transition.run (RefreshRoute.step P) (w.request (some raw)) as = some t := hrun
  have hinit := RefreshRoute.handles_request hhash hrow hb hsp
  let j := w.handlers.length
  let k := w.auth.calls.length
  constructor
  · intro hkeeps
    -- once the record is lost the row is gone and the refusal stays
    have hlost : ∀ (u : RefreshRoute) (a : RouteAct) (u' : RefreshRoute), u.Handles P raw r j k →
        u.Undisturbed P r k a → u.step P a = some u' →
        ¬u.LosesStats j a ∨ (u'.Handles P raw r j k ∧ u'.Refused j ∧
          r ∉ u'.auth.refreshTokens.rows) := by
      intro u a u' hu ha hs
      by_cases hloses : u.LosesStats j a
      · exact .inr ⟨hu.step ha hs, hu.loses hs hloses⟩
      · exact .inl hloses
    refine Transition.guarded_of_end (fun u a u' hu ha hs => hu.step ha hs) hlost ?_ hinit hg
      hrest fun hend => hend.2.2 (hkeeps hend.2.1).1
    rintro u a u' ⟨hu, ⟨e, he⟩, hgone⟩ ha hs
    obtain ⟨hstays, hsame⟩ := hu.settled hs he
    exact ⟨hu.step ha hs, ⟨e, hstays⟩, fun hr => hgone (hsame.mp hr)⟩
  · intro hread hrefused
    have hstep : ∀ (u : RefreshRoute) (a : RouteAct) (u' : RefreshRoute),
        u.Handles P raw r j k ∧ (u.Refused j → r ∈ u.auth.refreshTokens.rows) →
        u.Undisturbed P r k a ∧ ¬u.LosesStats j a → u.step P a = some u' →
        u'.Handles P raw r j k ∧ (u'.Refused j → r ∈ u'.auth.refreshTokens.rows) :=
      fun u a u' hu ha hs => ⟨hu.1.step ha.1 hs, hu.1.keeps hs ha.2 hu.2⟩
    obtain ⟨hhandles, hkept⟩ := Transition.run_invariant hstep ⟨hinit, fun _ => hrow⟩
      (Transition.guarded_and hg hread) hrest
    have hstored := hkept hrefused
    exact ⟨hstored, RefreshRoute.retries hhandles.backed hstored hhash (hhandles.free hrefused)⟩

namespace Sample

def signedIn : RefreshRoute where
  auth := sessions (.start (.login aliceLogin) :: nexts 0 2 (draws 10 1))
  bets := .empty
  cookieSecure := true
  handlers := []

def firstRow : RefreshToken := .new (draws 10 1).id ⟨1⟩ firstToken.reverse 101 1

/-- The SELECT of the user fails inside the transaction. -/
def failsInside : List RouteAct :=
  (nexts 1 3 (draws 11 3)).map .auth ++ [.auth (.fail 1 "connection reset"), .resume 0]

/-- The transaction commits, then the SELECT on the bets fails. -/
def failsAfter : List RouteAct :=
  (nexts 1 6 (draws 11 3)).map .auth ++ [.resume 0, .failStats 0 "connection reset"]

def refreshes (as : List RouteAct) : RefreshRoute :=
  (Transition.run (RefreshRoute.step authPorts) signedIn (.request (some firstToken) :: as)).getD
    signedIn

end Sample

/-- After a failure inside the transaction the token is as good as before. -/
theorem failed_refresh_keeps_session_inside :
    let t := Sample.refreshes Sample.failsInside
    t.handlers[0]? = some (.answered (.error (.internal "connection reset"))) ∧
      Sample.firstRow ∈ t.auth.refreshTokens.rows ∧
      t.Retries Sample.authPorts Sample.firstToken Sample.firstRow ∧
      ∃ u reply, Transition.run (RefreshRoute.step Sample.authPorts) t
          (t.retry Sample.firstToken (Sample.draws 12 9)) = some u ∧
        u.handlers[1]? = some (.answered (.ok reply)) := by
  intro t
  have hrefused : t.handlers[0]? = some (.answered (.error (.internal "connection reset"))) := rfl
  have hrun : Transition.run (RefreshRoute.step Sample.authPorts) Sample.signedIn
      (.request (some Sample.firstToken) :: Sample.failsInside) = some t := rfl
  have hb : Sample.signedIn.auth.Backed Sample.firstRow := ⟨⟨_, rfl⟩, by decide +kernel⟩
  have hidle : ∀ c ∈ Sample.signedIn.auth.calls,
      c.finished = true ∧ c.found? = none ∧ c.pending? = none := by decide +kernel
  have hsp : Sample.signedIn.auth.Spares Sample.authPorts Sample.firstRow 1 := by
    refine ⟨?_, ?_, ?_⟩
    · intro i c _ hc
      exact .inl (hidle c (List.mem_of_getElem? hc)).1
    · intro i c q _ hc hq
      simp [(hidle c (List.mem_of_getElem? hc)).2.1] at hq
    · intro c hc p hp
      simp [(hidle c hc).2.2] at hp
  have hg : Transition.Guarded (RefreshRoute.step Sample.authPorts)
      (RefreshRoute.Undisturbed Sample.authPorts Sample.firstRow 1)
      (Sample.signedIn.request (some Sample.firstToken)) Sample.failsInside := by
    have hnew : (Sample.draws 11 3).id ≠ Sample.firstRow.id ∧
        Sample.authPorts.hashRefreshToken (Sample.draws 11 3).refreshToken ≠
          Sample.firstRow.tokenHash := by decide +kernel
    have hnext : ∀ u : RefreshRoute, u.Undisturbed Sample.authPorts Sample.firstRow 1
        (.auth (.next 1 (Sample.draws 11 3))) := fun u => ⟨fun _ => rfl, fun _ => hnew⟩
    exact ⟨hnext _, fun _ _ => ⟨hnext _, fun _ _ => ⟨hnext _, fun _ _ => ⟨trivial, fun _ _ =>
      ⟨trivial, fun _ _ => trivial⟩⟩⟩⟩⟩
  have hkeeps := failed_refresh_keeps_session (by decide) (by decide) hb hsp hrun hg
  have hread : Transition.Guarded (RefreshRoute.step Sample.authPorts)
      (fun u a => ¬u.LosesStats 0 a) (Sample.signedIn.request (some Sample.firstToken))
      Sample.failsInside :=
    ⟨id, fun _ _ => ⟨id, fun _ _ => ⟨id, fun _ _ => ⟨id, fun _ _ => ⟨id, fun _ _ => trivial⟩⟩⟩⟩⟩
  obtain ⟨hstored, hretries⟩ := hkeeps.mpr hread ⟨_, hrefused⟩
  exact ⟨hrefused, hstored, hretries, _, _, rfl, rfl⟩

/-- After a failed read of the bets the client has no cookie and its token is gone. -/
theorem failed_refresh_loses_session :
    let t := Sample.refreshes Sample.failsAfter
    Sample.firstRow ∈ Sample.signedIn.auth.refreshTokens.rows ∧
      Sample.firstRow.tokenHash = Sample.authPorts.hashRefreshToken Sample.firstToken ∧
      Sample.firstRow.isExpired 9 = false ∧
      (Sample.signedIn.auth.users.find? Sample.firstRow.userId).isSome ∧
      Transition.run (RefreshRoute.step Sample.authPorts) Sample.signedIn
        (.request (some Sample.firstToken) :: Sample.failsAfter) = some t ∧
      t.handlers[0]? = some (.answered (.error (.internal "connection reset"))) ∧
      Sample.firstRow ∉ t.auth.refreshTokens.rows ∧
      ∃ u, Transition.run (RefreshRoute.step Sample.authPorts) t
          (.request (some Sample.firstToken) ::
            (Sample.nexts 2 2 (Sample.draws 12 9)).map .auth ++ [.resume 1]) = some u ∧
        u.handlers[1]? = some (.answered (.error invalidRefreshToken)) := by
  exact ⟨by decide +kernel, by decide +kernel, by decide, by decide +kernel, rfl, rfl,
    by decide +kernel, _, rfl, rfl⟩

end Betsphere
