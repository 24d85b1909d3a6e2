import Betsphere.Auth.Rotation
import Betsphere.System.Step
set_option autoImplicit false

namespace Betsphere

namespace Auth

def LoggedIn (s : Auth) (i : Nat) (session : AuthSession) : Prop :=
  ∃ input, s.calls[i]? = some (.login input (.returned (.ok session)))

def LoggedOut (s : Auth) (i : Nat) (raw : Text) : Prop :=
  s.calls[i]? = some (.logout raw (.returned (.ok ())))

def Yields (s : Auth) (a b : Text) : Prop :=
  ∃ i session, s.Refreshed i a session ∧ session.refreshToken = b

/-- `b` is `root` or was obtained from it by refreshing. -/
def Lineage (s : Auth) (root b : Text) : Prop := Relation.ReflTransGen s.Yields root b

def Carries (P : AuthPorts) (s : Auth) (root : Text) (r : RefreshToken) : Prop :=
  ∃ raw, s.Lineage root raw ∧ r.tokenHash = P.hashRefreshToken raw

section Steps
variable {P : AuthPorts} {s s' : Auth} {a : AuthAct}

theorem step_calls (h : s.step P a = some s') :
    s'.calls = s.calls ∨ (∃ request : AuthRequest, s'.calls = s.calls ++ [request.begin P]) ∨
      ∃ i c c', a.call? = some i ∧ s.calls[i]? = some c ∧ c.finished = false ∧
        s'.calls = s.calls.set i c' ∧ c'.presented? = c.presented? := by
  cases step_effect h with
  | saved user => exact .inl rfl
  | started request => exact .inr (.inl ⟨request, rfl⟩)
  | quiet _ i c c' hc ha hopen hq => exact .inr (.inr ⟨i, c, c', ha, hc, hopen, rfl, hq.presented⟩)
  | found i env c c' raw r hc hopen hraw hc' hrow =>
    refine .inr (.inr ⟨i, c, c', rfl, hc, hopen, rfl, ?_⟩)
    rcases hc' with rfl | rfl <;> exact hraw.symm
  | locked i env raw r c' hc hrow hfree hc' =>
    refine .inr (.inr ⟨i, _, c', rfl, hc, rfl, rfl, ?_⟩)
    rcases hc' with ⟨-, rfl⟩ | rfl <;> rfl
  | drew i env user session record c c' hc hissue hc' =>
    obtain ⟨input, email, password, rfl, rfl⟩ | ⟨raw, r, rfl, rfl⟩ := hc'
    · exact .inr (.inr ⟨i, _, _, rfl, hc, rfl, rfl, rfl⟩)
    · exact .inr (.inr ⟨i, _, _, rfl, hc, rfl, rfl, rfl⟩)
  | granted i env input session record hc hins =>
      exact .inr (.inr ⟨i, _, _, rfl, hc, rfl, rfl, rfl⟩)
  | kept i env raw r now expired hc => exact .inr (.inr ⟨i, _, _, rfl, hc, rfl, rfl, rfl⟩)
  | rotated i env raw r session record hc => exact .inr (.inr ⟨i, _, _, rfl, hc, rfl, rfl, rfl⟩)
  | absent i env raw phase hc hrow =>
    refine .inr (.inr ⟨i, _, _, rfl, hc, ?_, rfl, rfl⟩)
    rcases hrow with ⟨rfl, -⟩ | ⟨r, rfl, -⟩ <;> rfl
  | revoked i env raw r hc hfree => exact .inr (.inr ⟨i, _, _, rfl, hc, rfl, rfl, rfl⟩)

theorem finished_stays (h : s.step P a = some s') {j : Nat} {d : AuthCall}
    (hd : s.calls[j]? = some d) (hfin : d.finished = true) : s'.calls[j]? = some d := by
  rcases step_calls h with hcalls | ⟨request, hcalls⟩ | ⟨i, c, c', -, hc, hopen, hcalls, -⟩
  · rw [hcalls]
    exact hd
  · rw [hcalls, List.getElem?_append_left (List.getElem?_eq_some_iff.mp hd).1]
    exact hd
  · have hne : i ≠ j := by
      rintro rfl
      cases hc.symm.trans hd
      simp [hfin] at hopen
    rw [hcalls, List.getElem?_set_ne hne]
    exact hd

theorem presented_stays (h : s.step P a = some s') {raw : Text}
    (hraw : ∃ c ∈ s.calls, c.presented? = some raw) : ∃ c ∈ s'.calls, c.presented? = some raw := by
  obtain ⟨d, hd, htoken⟩ := hraw
  rcases step_calls h with hcalls | ⟨request, hcalls⟩ | ⟨i, c, c', -, hc, -, hcalls, hsame⟩
  · exact ⟨d, hcalls ▸ hd, htoken⟩
  · exact ⟨d, hcalls ▸ List.mem_append_left _ hd, htoken⟩
  · obtain ⟨j, hj⟩ := List.mem_iff_getElem?.mp hd
    by_cases hji : i = j
    · subst hji
      cases hc.symm.trans hj
      refine ⟨c', List.mem_of_getElem? (i := i) ?_, hsame.trans htoken⟩
      rw [hcalls]
      exact List.getElem?_set_self (List.getElem?_eq_some_iff.mp hc).1
    · refine ⟨d, List.mem_of_getElem? (i := j) ?_, htoken⟩
      rw [hcalls, List.getElem?_set_ne hji]
      exact hj

theorem yields_stays (h : s.step P a = some s') {x y : Text} (hxy : s.Yields x y) :
    s'.Yields x y := by
  obtain ⟨i, session, hi, rfl⟩ := hxy
  exact ⟨i, session, finished_stays h hi rfl, rfl⟩

theorem lineage_stays (h : s.step P a = some s') {root x : Text} (hx : s.Lineage root x) :
    s'.Lineage root x :=
  Relation.ReflTransGen.mono (fun _ _ hxy => yields_stays h hxy) _ _ hx

theorem loggedIn_stays (h : s.step P a = some s') {i : Nat} {session : AuthSession}
    (hi : s.LoggedIn i session) : s'.LoggedIn i session := by
  obtain ⟨input, hi⟩ := hi
  exact ⟨input, finished_stays h hi rfl⟩

theorem drawn_stays (h : s.step P a = some s') {d : Text × RefreshToken} (hd : d ∈ s.drawn) :
    d ∈ s'.drawn := by
  cases step_effect h with
  | drew i env user session record c c' hc hissue hc' => exact List.mem_cons_of_mem _ hd
  | _ => exact hd

theorem row_step (h : s.step P a = some s') {r : RefreshToken} (hr : r ∈ s'.refreshTokens.rows) :
    r ∈ s.refreshTokens.rows ∨
      (∃ i input session, s.calls[i]? = some (.login input (.save session r)) ∧
        s'.LoggedIn i session) ∨
      ∃ i raw q session, s.calls[i]? = some (.refresh raw (.commit q session r)) ∧
        s'.Refreshed i raw session := by
  cases step_effect h with
  | granted i env input session record hc hins =>
    rcases Table.mem_upsert.mp hr with rfl | ⟨hr, -⟩
    · exact .inr (.inl ⟨i, input, session, hc, input, setCall_self hc⟩)
    · exact .inl hr
  | kept i env raw q now expired hc => exact .inl (mem_deleteToken.mp hr).1
  | rotated i env raw q session record hc =>
    rcases Table.mem_upsert.mp hr with rfl | ⟨hr, -⟩
    · exact .inr (.inr ⟨i, raw, q, session, hc, setCall_self hc⟩)
    · exact .inl (mem_deleteToken.mp hr).1
  | revoked i env raw q hc hfree => exact .inl (mem_deleteToken.mp hr).1
  | _ => exact .inl hr

theorem Inv.new_row (hinv : s.Inv P) (h : s.step P a = some s') {r : RefreshToken}
    (hr : r ∈ s'.refreshTokens.rows) :
    r ∈ s.refreshTokens.rows ∨
      ∃ raw, (raw, r) ∈ s.drawn ∧ ∀ c ∈ s.calls, c.presented? ≠ some raw := by
  rcases row_step h hr with hold | ⟨i, input, session, hc, -⟩ | ⟨i, raw, q, session, hc, -⟩
  · exact .inl hold
  · exact .inr ⟨_, hinv.pending _ (List.mem_of_getElem? hc) (session.refreshToken, r) rfl⟩
  · exact .inr ⟨_, hinv.pending _ (List.mem_of_getElem? hc) (session.refreshToken, r) rfl⟩

end Steps

/-- Every stored row was obtained, by refreshing, from the token of a login. -/
def Descended (s : Auth) : Prop :=
  ∀ r ∈ s.refreshTokens.rows, ∃ i session raw, s.LoggedIn i session ∧
    s.Lineage session.refreshToken raw ∧ (raw, r) ∈ s.drawn

section Lineages
variable {P : AuthPorts} {s s' : Auth} {a : AuthAct}

theorem Descended.step (hd : s.Descended) (h : s.Inv P) (hs : s.step P a = some s') :
    s'.Descended := by
  intro r hr
  rcases row_step hs hr with hold | ⟨i, input, session, hc, hlogin⟩ |
    ⟨i, raw, q, session, hc, hrefresh⟩
  · obtain ⟨i, session, raw, hlogin, hline, hdrawn⟩ := hd r hold
    exact ⟨i, session, raw, loggedIn_stays hs hlogin, lineage_stays hs hline,
      drawn_stays hs hdrawn⟩
  · have hdrawn := (h.pending _ (List.mem_of_getElem? hc) (session.refreshToken, r) rfl).1
    exact ⟨i, session, session.refreshToken, hlogin, .refl, drawn_stays hs hdrawn⟩
  · have hmem := List.mem_of_getElem? hc
    have hdrawn := (h.pending _ hmem (session.refreshToken, r) rfl).1
    obtain ⟨j, first, raw', hlogin, hline, hq⟩ := hd q (h.held _ hmem q rfl)
    have hfound := h.found _ hmem q raw rfl rfl
    have hraw : raw' = raw := congrArg Prod.fst (h.unique _ hq _ hfound (.inr rfl))
    rw [hraw] at hline
    have hnext : s'.Yields raw session.refreshToken := ⟨i, session, hrefresh, rfl⟩
    exact ⟨j, first, session.refreshToken, loggedIn_stays hs hlogin,
      (lineage_stays hs hline).tail hnext, drawn_stays hs hdrawn⟩

theorem Inv.yields_unique (h : s.Inv P) : Relator.RightUnique s.Yields := by
  rintro x y z ⟨i, session, hi, rfl⟩ ⟨j, session', hj, rfl⟩
  obtain rfl := h.once i j x session session' hi hj
  cases hi.symm.trans hj
  rfl

theorem Inv.last_of_line (h : s.Inv P) {x y : Text} {r : RefreshToken}
    (hr : r ∈ s.refreshTokens.rows) (hhash : r.tokenHash = P.hashRefreshToken x)
    (hline : s.Lineage x y) : x = y := by
  rcases hline.cases_head with heq | ⟨z, ⟨i, session, hi, -⟩, -⟩
  · exact heq
  · exact absurd hhash (h.spent _ (List.mem_of_getElem? hi) x rfl r hr)

/-- A lineage has at most one stored row. -/
theorem Inv.lineage_single (h : s.Inv P) {root : Text} {r q : RefreshToken}
    (hr : r ∈ s.refreshTokens.rows) (hq : q ∈ s.refreshTokens.rows) (hrc : s.Carries P root r)
    (hqc : s.Carries P root q) : r = q := by
  obtain ⟨x, hx, hxhash⟩ := hrc
  obtain ⟨y, hy, hyhash⟩ := hqc
  have hxy : x = y := by
    rcases Relation.ReflTransGen.total_of_right_unique h.yields_unique hx hy with hline | hline
    · exact h.last_of_line hr hxhash hline
    · exact (h.last_of_line hq hyhash hline).symm
  refine h.apart r hr q hq ?_
  rw [hxhash, hyhash, hxy]

end Lineages

/-- Nothing that starts from call `n` on can refresh `raw`. -/
structure Ended (P : AuthPorts) (s : Auth) (n : Nat) (raw : Text) : Prop where
  presented : ∃ c ∈ s.calls, c.presented? = some raw
  rows : ∀ r ∈ s.refreshTokens.rows, r.tokenHash ≠ P.hashRefreshToken raw
  later : ∀ j c, n ≤ j → s.calls[j]? = some c → c.presented? = some raw →
    c.found? = none ∧ ∀ session, c ≠ .refresh raw (.returned (.ok session))

/-- Every action of the call leaves the stored tokens as they are. -/
def Keeps (P : AuthPorts) (i : Nat) (s : Auth) (a : AuthAct) : Prop :=
  a.call? = some i → ∀ s', s.step P a = some s' → s'.refreshTokens = s.refreshTokens

def Expires (i : Nat) (s : Auth) (a : AuthAct) : Prop :=
  (∃ env, a = .next i env) ∧ ∃ raw found now expired,
    s.calls[i]? = some (.refresh raw (.keepDeletion found now expired))

section Ends
variable {P : AuthPorts} {s s' : Auth} {a : AuthAct} {n i : Nat} {raw : Text}

theorem LoggedOut.ended (h : s.Inv P) (hout : s.LoggedOut i raw) :
    s.Ended P s.calls.length raw where
  presented := ⟨_, List.mem_of_getElem? hout, rfl⟩
  rows := h.spent _ (List.mem_of_getElem? hout) raw rfl
  later := by
    intro j c hj hc _
    have hlt := (List.getElem?_eq_some_iff.mp hc).1
    omega

theorem stays_out (hs : s.step P a = some s')
    (hrows : ∀ r ∈ s.refreshTokens.rows, r.tokenHash ≠ P.hashRefreshToken raw) {j : Nat}
    {d : AuthCall} (hd : s'.calls[j]? = some d) (hraw : d.presented? = some raw)
    (hold : ∀ c, s.calls[j]? = some c → c.presented? = some raw →
      c.found? = none ∧ ∀ session, c ≠ .refresh raw (.returned (.ok session))) :
    d.found? = none ∧ ∀ session, d ≠ .refresh raw (.returned (.ok session)) := by
  cases step_effect hs with
  | saved user => exact hold d hd hraw
  | started request =>
    rw [List.getElem?_append] at hd
    split at hd
    · exact hold d hd hraw
    · obtain ⟨hfound, -, -, hspent⟩ := begin_idle P request
      rw [← List.mem_singleton.mp (List.mem_of_getElem? hd)] at hfound hspent
      refine ⟨hfound, fun session hsession => ?_⟩
      simp [hsession, AuthCall.spent?] at hspent
  | quiet _ i c c' hc _ _ hq =>
    rcases setCall_get hd with ⟨rfl, rfl⟩ | ⟨-, hd'⟩
    · have hnone := (hold c hc (hq.presented ▸ hraw)).1
      refine ⟨Option.eq_none_iff_forall_ne_some.mpr fun r hr => ?_, fun session hsession => ?_⟩
      · simp [hq.found r hr] at hnone
      · have hspent := hq.spent
        simp [hsession, AuthCall.spent?] at hspent
    · exact hold d hd' hraw
  | found i env c c' token r hc _ htoken hc' hrow =>
    rcases setCall_get hd with ⟨rfl, rfl⟩ | ⟨-, hd'⟩
    · have hsame : token = raw := by rcases hc' with rfl | rfl <;> exact Option.some.inj hraw
      obtain ⟨hr, hhash⟩ := findByTokenHash_some hrow
      exact absurd (hsame ▸ hhash) (hrows r hr)
    · exact hold d hd' hraw
  | locked i env token r c' hc hrow hfree hc' =>
    rcases setCall_get hd with ⟨rfl, rfl⟩ | ⟨-, hd'⟩
    · have hsame : token = raw := by rcases hc' with ⟨_, rfl⟩ | rfl <;> exact Option.some.inj hraw
      exact absurd (hold _ hc (congrArg some hsame)).1 (by simp [AuthCall.found?])
    · exact hold d hd' hraw
  | drew i env user session record c c' hc hissue hc' =>
    rcases setCall_get hd with ⟨rfl, rfl⟩ | ⟨-, hd'⟩
    · obtain ⟨input, email, password, rfl, rfl⟩ | ⟨token, r, rfl, rfl⟩ := hc'
      · simp [AuthCall.presented?] at hraw
      · exact absurd (hold _ hc hraw).1 (by simp [AuthCall.found?])
    · exact hold d hd' hraw
  | granted i env input session record hc hins =>
    rcases setCall_get hd with ⟨rfl, rfl⟩ | ⟨-, hd'⟩
    · simp [AuthCall.presented?] at hraw
    · exact hold d hd' hraw
  | kept i env token r now expired hc =>
    rcases setCall_get hd with ⟨rfl, rfl⟩ | ⟨-, hd'⟩
    · exact ⟨rfl, by simp⟩
    · exact hold d hd' hraw
  | rotated i env token r session record hc =>
    rcases setCall_get hd with ⟨rfl, rfl⟩ | ⟨-, hd'⟩
    · exact absurd (hold _ hc hraw).1 (by simp [AuthCall.found?])
    · exact hold d hd' hraw
  | absent i env token phase hc hrow =>
    rcases setCall_get hd with ⟨rfl, rfl⟩ | ⟨-, hd'⟩
    · exact ⟨rfl, by simp⟩
    · exact hold d hd' hraw
  | revoked i env token r hc hfree =>
    rcases setCall_get hd with ⟨rfl, rfl⟩ | ⟨-, hd'⟩
    · exact ⟨rfl, by simp⟩
    · exact hold d hd' hraw

theorem Ended.step (he : s.Ended P n raw) (h : s.Inv P) (hfree : s.CollisionFree P)
    (hs : s.step P a = some s') : s'.Ended P n raw where
  presented := presented_stays hs he.presented
  rows := by
    intro r hr
    rcases h.new_row hs hr with hold | ⟨token, hdrawn, hunseen⟩
    · exact he.rows r hold
    · intro hhash
      obtain ⟨c, hc, hraw⟩ := he.presented
      have hsame : token = raw := by
        refine hfree _ (drawn_mem hdrawn) _ (presented_mem hc hraw) ?_
        rw [← hhash]
        exact (h.hashes _ hdrawn).symm
      exact hunseen c hc (hsame ▸ hraw)
  later := by
    intro j c hj hc hraw
    exact stays_out hs he.rows hc hraw fun d hd hdraw => he.later j d hj hd hdraw

theorem settled_stays (hs : s.step P a = some s')
    (hd : ∃ c, s.calls[i]? = some c ∧ c.finished = true ∧
      ∀ raw e, c ≠ .refresh raw (.returned (.error e))) :
    ∃ c, s'.calls[i]? = some c ∧ c.finished = true ∧
      ∀ raw e, c ≠ .refresh raw (.returned (.error e)) := by
  obtain ⟨c, hc, hfin, hne⟩ := hd
  exact ⟨c, finished_stays hs hc hfin, hfin, hne⟩

/-- An action of a call keeps the stored tokens, or it commits the deletion of an
expired token, or it ends the call with success. -/
theorem keeps_or_settles (hs : s.step P a = some s') :
    (s.Keeps P i a ∨ s.Expires i a) ∨
      ∃ c, s'.calls[i]? = some c ∧ c.finished = true ∧
        ∀ raw e, c ≠ .refresh raw (.returned (.error e)) := by
  have hkeep : s'.refreshTokens = s.refreshTokens → s.Keeps P i a := by
    intro hsame _ u hu
    cases hs.symm.trans hu
    exact hsame
  by_cases ha : a.call? = some i
  · cases step_effect hs with
    | granted j env input session record hc hins =>
      cases ha
      exact .inr ⟨_, setCall_self hc, rfl, by simp⟩
    | kept j env raw r now expired hc =>
      cases ha
      exact .inl (.inr ⟨⟨env, rfl⟩, raw, r, now, expired, hc⟩)
    | rotated j env raw r session record hc =>
      cases ha
      exact .inr ⟨_, setCall_self hc, rfl, by simp⟩
    | revoked j env raw r hc hfree =>
      cases ha
      exact .inr ⟨_, setCall_self hc, rfl, by simp⟩
    | _ => exact .inl (.inl (hkeep rfl))
  · exact .inl (.inl fun h => absurd h ha)

end Ends

theorem inv_init (P : AuthPorts) (users : Table User.id) : (init users).Inv P := by
  constructor <;> simp [init, Refreshed]

theorem descended_init (users : Table User.id) : (init users).Descended := by
  simp [init, Descended]

end Auth

namespace Sample

/-- Access tokens without a signature, a digest that turns its input round. -/
def authPorts : AuthPorts where
  lowercase := id
  verify := fun password hash => .ok (password.value = hash.value)
  issueAccess := fun userId _ _ => .ok (displayUuid userId.uuid).toList
  hashRefreshToken := List.reverse
  refreshTtl := 100

def draws (n : Nat) (now : DateTime) : AuthEnv :=
  ⟨now, BitVec.ofNat 128 n, (BitVec.ofNat 128 (2 * n), BitVec.ofNat 128 (2 * n + 1)), none⟩

def aliceLogin : LoginInput := ⟨['a', '@', 'b', '.', 'c'], List.replicate 8 'x'⟩

def members : Table User.id :=
  Table.empty.upsert (User.new ⟨1⟩ alice ⟨aliceLogin.email⟩ ⟨aliceLogin.password⟩ 0)

def firstToken : Text := (draws 10 1).refreshToken
def secondToken : Text := (draws 11 3).refreshToken

def nexts (i n : Nat) (env : AuthEnv) : List AuthAct := List.replicate n (.next i env)

/-- Alice logs in; two refreshes of her token have found its row, one has deleted it. -/
def racing : List AuthAct :=
  .start (.login aliceLogin) :: nexts 0 2 (draws 10 1) ++
    [.start (.refresh firstToken), .start (.refresh firstToken)] ++ nexts 1 2 (draws 11 3) ++
    nexts 2 2 (draws 12 3) ++ [.next 1 (draws 11 3)]

/-- The first commits, the second fails; then a logout with the new token returns. -/
def raced : List AuthAct :=
  racing ++ nexts 1 3 (draws 11 3) ++ [.next 2 (draws 12 4), .start (.logout secondToken)] ++
    nexts 3 2 (draws 13 5)

def tried : List AuthAct := .start (.refresh secondToken) :: nexts 4 2 (draws 14 6)

def sessions (as : List AuthAct) : Auth :=
  (Transition.run (Auth.step authPorts) (.init members) as).getD (.init members)

end Sample

/-- Refresh tokens are single-use, sessions do not fork, a logout is final and a refresh
that fails changes nothing, whatever the interleaving of the calls' statements. -/
theorem sessions_never_fork {P : AuthPorts} {users : Table User.id} {as bs : List AuthAct}
    {t s : Auth} (ht : Transition.run (Auth.step P) (Auth.init users) as = some t)
    (hs : Transition.run (Auth.step P) t bs = some s)
    (hg : Transition.Guarded (Auth.step P) (Auth.Assumed P) (Auth.init users) (as ++ bs)) :
    (∀ i j raw x y, s.Refreshed i raw x → s.Refreshed j raw y → i = j) ∧
      (∀ r ∈ s.refreshTokens.rows, ∃ i session, s.LoggedIn i session ∧
        s.Carries P session.refreshToken r) ∧
      (∀ root, ∀ r ∈ s.refreshTokens.rows, ∀ q ∈ s.refreshTokens.rows,
        s.Carries P root r → s.Carries P root q → r = q) ∧
      (∀ i raw, t.LoggedOut i raw →
        ∀ j session, t.calls.length ≤ j → ¬s.Refreshed j raw session) ∧
      ∀ i raw e, s.calls[i]? = some (.refresh raw (.returned (.error e))) →
        Transition.Guarded (Auth.step P) (fun u a => u.Keeps P i a ∨ u.Expires i a)
          (Auth.init users) (as ++ bs) := by
  have hrun := Transition.run_append_some ht hs
  have hstep : ∀ (u : Auth) (a : AuthAct) (u' : Auth), u.Inv P ∧ u.Descended →
      u.Assumed P a → u.step P a = some u' → u'.Inv P ∧ u'.Descended :=
    fun u a u' hu ha hu' => ⟨hu.1.step ha hu', hu.2.step hu.1 hu'⟩
  have hinit := And.intro (Auth.inv_init P users) (Auth.descended_init users)
  obtain ⟨hfirst, hsecond⟩ := Transition.guarded_append.mp hg
  have hmid := Transition.run_invariant hstep hinit hfirst ht
  obtain ⟨hinv, hdesc⟩ := Transition.run_invariant hstep hinit hg hrun
  refine ⟨hinv.once, ?_, fun root r hr q hq => hinv.lineage_single hr hq, ?_, ?_⟩
  · intro r hr
    obtain ⟨i, session, raw, hlogin, hline, hdrawn⟩ := hdesc r hr
    exact ⟨i, session, hlogin, raw, hline, hinv.hashes _ hdrawn⟩
  · intro i raw hout j session hj hrefreshed
    have hkeep : ∀ (u : Auth) (a : AuthAct) (u' : Auth),
        u.Inv P ∧ u.Ended P t.calls.length raw → u.Assumed P a → u.step P a = some u' →
        u'.Inv P ∧ u'.Ended P t.calls.length raw :=
      fun u a u' hu ha hu' => ⟨hu.1.step ha hu', hu.2.step hu.1 ha.1 hu'⟩
    have hended := Transition.run_invariant hkeep ⟨hmid.1, hout.ended hmid.1⟩ (hsecond t ht) hs
    exact (hended.2.later j _ hj hrefreshed rfl).2 session rfl
  · intro i raw e hfailed
    refine Transition.guarded_of_end (fun _ _ _ _ _ _ => trivial)
      (fun u a u' _ _ hu => Auth.keeps_or_settles hu) (fun u a u' hu _ hstep' =>
        Auth.settled_stays hstep' hu) trivial (Transition.guarded_true _ _) hrun ?_
    rintro ⟨c, hc, -, hne⟩
    cases hfailed.symm.trans hc
    exact hne raw e rfl

/-- Of two racing refreshes the second waits and fails; after the logout nothing is left. -/
theorem sessions_never_fork_raced :
    let s := Sample.sessions (Sample.raced ++ Sample.tried)
    ((Sample.sessions Sample.racing).step Sample.authPorts (.next 2 (Sample.draws 12 4))).isNone ∧
      (Sample.sessions Sample.raced).LoggedOut 3 Sample.secondToken ∧
      (∃ session, s.Refreshed 1 Sample.firstToken session ∧
        session.refreshToken = Sample.secondToken) ∧
      s.refreshTokens.rows = [] ∧
      (∀ i j raw x y, s.Refreshed i raw x → s.Refreshed j raw y → i = j) ∧
      ∀ session, ¬s.Refreshed 4 Sample.secondToken session := by
  intro s
  have hout : (Sample.sessions Sample.raced).LoggedOut 3 Sample.secondToken := rfl
  have hraced : Transition.run (Auth.step Sample.authPorts) (.init Sample.members) Sample.raced =
      some (Sample.sessions Sample.raced) := rfl
  have htried : Transition.run (Auth.step Sample.authPorts) (Sample.sessions Sample.raced)
      Sample.tried = some s := rfl
  have hall := sessions_never_fork hraced htried (by decide +kernel)
  exact ⟨by decide +kernel, hout, ⟨_, rfl, rfl⟩, rfl, hall.1,
    fun session => hall.2.2.2.1 3 _ hout 4 session (by decide +kernel)⟩

end Betsphere
