import Betsphere.Auth.Sessions
import Betsphere.Lib.Transition
set_option autoImplicit false

namespace Betsphere

namespace AuthCall
variable {c : AuthCall}

theorem found_of_held {r : RefreshToken} (h : c.held? = some r) : c.found? = some r := by
  cases c with
  | login input phase => simp [held?] at h
  | refresh raw phase => cases phase <;> simp_all [held?, found?]
  | logout raw phase => simp [held?] at h

theorem presented_of_held {r : RefreshToken} (h : c.held? = some r) :
    ∃ raw, c.presented? = some raw := by
  cases c with
  | login input phase => simp [held?] at h
  | refresh raw phase => exact ⟨raw, rfl⟩
  | logout raw phase => exact ⟨raw, rfl⟩

theorem presented_of_spent {raw : Text} (h : c.spent? = some raw) : c.presented? = some raw := by
  cases c with
  | login input phase => simp [spent?] at h
  | refresh token phase =>
    cases phase with
    | returned answer => cases answer <;> simp_all [spent?, presented?]
    | _ => simp [spent?] at h
  | logout token phase =>
    cases phase with
    | returned answer => cases answer <;> simp_all [spent?, presented?]
    | _ => simp [spent?] at h

end AuthCall

namespace Auth

def tokens (s : Auth) : List Text := s.drawn.map Prod.fst ++ s.calls.filterMap AuthCall.presented?

def CollisionFree (P : AuthPorts) (s : Auth) : Prop :=
  ∀ a ∈ s.tokens, ∀ b ∈ s.tokens, P.hashRefreshToken a = P.hashRefreshToken b → a = b

def issues (s : Auth) (i : Nat) : Bool :=
  match s.calls[i]? with
  | some (.login _ (.findUser _ _)) => true
  | some (.refresh _ (.findUser _)) => true
  | _ => false

/-- A generated token and its record's id are new, and nobody presents the token before
it has been handed out. -/
def Fresh (P : AuthPorts) (s : Auth) : AuthAct → Prop
  | .start request =>
    ∀ c ∈ s.calls, ∀ p ∈ c.pending?, (request.begin P).presented? ≠ some p.1
  | .next i env =>
    s.issues i = true →
      (∀ d ∈ s.drawn, d.1 ≠ env.refreshToken ∧ d.2.id ≠ env.id) ∧
        ∀ c ∈ s.calls, c.presented? ≠ some env.refreshToken
  | _ => True

/-- The assumptions on digest and generator, before every action. -/
def Assumed (P : AuthPorts) (s : Auth) (a : AuthAct) : Prop := s.CollisionFree P ∧ s.Fresh P a

instance decidableFresh (P : AuthPorts) (s : Auth) : (a : AuthAct) → Decidable (s.Fresh P a)
  | .saveUser _ => isTrue trivial
  | .start request => inferInstanceAs (Decidable (∀ c ∈ s.calls, ∀ p ∈ c.pending?,
      (request.begin P).presented? ≠ some p.1))
  | .next i env => inferInstanceAs (Decidable (s.issues i = true →
      (∀ d ∈ s.drawn, d.1 ≠ env.refreshToken ∧ d.2.id ≠ env.id) ∧
        ∀ c ∈ s.calls, c.presented? ≠ some env.refreshToken))
  | .fail _ _ => isTrue trivial
  | .drop _ => isTrue trivial

instance decidableAssumed (P : AuthPorts) (s : Auth) (a : AuthAct) : Decidable (s.Assumed P a) :=
  inferInstanceAs (Decidable ((∀ a ∈ s.tokens, ∀ b ∈ s.tokens,
    P.hashRefreshToken a = P.hashRefreshToken b → a = b) ∧ s.Fresh P a))

def Refreshed (s : Auth) (i : Nat) (raw : Text) (session : AuthSession) : Prop :=
  s.calls[i]? = some (.refresh raw (.returned (.ok session)))

/-- What every interleaving keeps. -/
structure Inv (P : AuthPorts) (s : Auth) : Prop where
  hashes : ∀ d ∈ s.drawn, d.2.tokenHash = P.hashRefreshToken d.1
  unique : ∀ d ∈ s.drawn, ∀ e ∈ s.drawn, d.1 = e.1 ∨ d.2.id = e.2.id → d = e
  rows : ∀ r ∈ s.refreshTokens.rows, ∃ raw, (raw, r) ∈ s.drawn
  apart : ∀ r ∈ s.refreshTokens.rows, ∀ q ∈ s.refreshTokens.rows, r.tokenHash = q.tokenHash → r = q
  found : ∀ c ∈ s.calls, ∀ r raw, c.found? = some r → c.presented? = some raw →
    (raw, r) ∈ s.drawn
  held : ∀ c ∈ s.calls, ∀ r, c.held? = some r → r ∈ s.refreshTokens.rows
  exclusive : ∀ (i j : Nat) (c d : AuthCall) (r q : RefreshToken), s.calls[i]? = some c →
    s.calls[j]? = some d → c.held? = some r → d.held? = some q → r.id = q.id → i = j
  pending : ∀ c ∈ s.calls, ∀ p, c.pending? = some p →
    p ∈ s.drawn ∧ ∀ d ∈ s.calls, d.presented? ≠ some p.1
  spent : ∀ c ∈ s.calls, ∀ raw, c.spent? = some raw →
    ∀ r ∈ s.refreshTokens.rows, r.tokenHash ≠ P.hashRefreshToken raw
  once : ∀ i j raw x y, s.Refreshed i raw x → s.Refreshed j raw y → i = j

section Calls
variable {P : AuthPorts} {s : Auth} {i j : Nat} {c c' d : AuthCall}

theorem mem_setCall (hd : d ∈ (s.setCall i c').calls) : d = c' ∨ d ∈ s.calls :=
  (List.mem_or_eq_of_mem_set hd).symm

theorem setCall_get (hd : (s.setCall i c').calls[j]? = some d) :
    (j = i ∧ d = c') ∨ (j ≠ i ∧ s.calls[j]? = some d) := by
  by_cases hj : j = i
  · subst hj
    have hlt := (List.getElem?_eq_some_iff.mp hd).1
    simp only [setCall, List.length_set] at hlt
    simp only [setCall, List.getElem?_set_self hlt, Option.some.injEq] at hd
    exact .inl ⟨rfl, hd.symm⟩
  · simp only [setCall, List.getElem?_set_ne (Ne.symm hj)] at hd
    exact .inr ⟨hj, hd⟩

theorem setCall_self (hc : s.calls[i]? = some c) : (s.setCall i c').calls[i]? = some c' :=
  List.getElem?_set_self (List.getElem?_eq_some_iff.mp hc).1

theorem setCall_other (hj : j ≠ i) : (s.setCall i c').calls[j]? = s.calls[j]? :=
  List.getElem?_set_ne (Ne.symm hj)

theorem unblocked {id : Uuid} {r : RefreshToken} (hfree : s.blocked i id = false)
    (hd : s.calls[j]? = some d) (hheld : d.held? = some r) (hid : r.id = id) : j = i := by
  by_contra hne
  have hmem : (d, j) ∈ s.calls.zipIdx := by
    rw [List.mem_zipIdx_iff_getElem?]
    exact hd
  have hall := List.any_eq_false.mp hfree _ hmem
  simp [hne, hheld, hid] at hall

theorem findByTokenHash_some {hash : Text} {r : RefreshToken}
    (h : s.findByTokenHash hash = some r) : r ∈ s.refreshTokens.rows ∧ r.tokenHash = hash :=
  ⟨List.mem_of_find?_eq_some h, by simpa using List.find?_some h⟩

theorem findByTokenHash_none {hash : Text} (h : s.findByTokenHash hash = none) :
    ∀ r ∈ s.refreshTokens.rows, r.tokenHash ≠ hash := by
  simpa [findByTokenHash] using h

theorem mem_deleteToken {id : Uuid} {r : RefreshToken} :
    r ∈ (s.deleteToken id).refreshTokens.rows ↔ r ∈ s.refreshTokens.rows ∧ r.id ≠ id := by
  simp [deleteToken]

theorem presented_mem {raw : Text} (hc : c ∈ s.calls) (hraw : c.presented? = some raw) :
    raw ∈ s.tokens :=
  List.mem_append_right _ (List.mem_filterMap.mpr ⟨c, hc, hraw⟩)

theorem drawn_mem {d : Text × RefreshToken} (hd : d ∈ s.drawn) : d.1 ∈ s.tokens :=
  List.mem_append_left _ (List.mem_map_of_mem hd)

end Calls

theorem begin_idle (P : AuthPorts) (request : AuthRequest) :
    (request.begin P).found? = none ∧ (request.begin P).held? = none ∧
      (request.begin P).pending? = none ∧ (request.begin P).spent? = none := by
  cases request with
  | login input =>
    simp only [AuthRequest.begin]
    split <;> exact ⟨rfl, rfl, rfl, rfl⟩
  | refresh raw => exact ⟨rfl, rfl, rfl, rfl⟩
  | logout raw => exact ⟨rfl, rfl, rfl, rfl⟩

namespace Inv
variable {P : AuthPorts} {s : Auth} {i : Nat} {c c' : AuthCall}

theorem only_row (h : s.Inv P) (hfree : s.CollisionFree P) {raw : Text} {r x : RefreshToken}
    (hr : (raw, r) ∈ s.drawn) (hx : x ∈ s.refreshTokens.rows)
    (hhash : x.tokenHash = P.hashRefreshToken raw) : x = r := by
  obtain ⟨raw', hx'⟩ := h.rows x hx
  have hsame : raw' = raw := by
    refine hfree raw' (drawn_mem hx') raw (drawn_mem hr) ?_
    rw [← hhash]
    exact (h.hashes _ hx').symm
  have heq := h.unique _ hx' _ hr (.inl hsame)
  exact congrArg Prod.snd heq

theorem only_record (h : s.Inv P) (hfree : s.CollisionFree P) {raw : Text}
    {r x : RefreshToken} (hr : (raw, r) ∈ s.drawn) (hx : x ∈ s.refreshTokens.rows)
    (hhash : x.tokenHash = r.tokenHash) : x = r :=
  h.only_row hfree hr hx (hhash.trans (h.hashes _ hr))

theorem drawn_of_row (h : s.Inv P) (hfree : s.CollisionFree P) {raw : Text} {r : RefreshToken}
    (hraw : raw ∈ s.tokens) (hr : r ∈ s.refreshTokens.rows)
    (hhash : r.tokenHash = P.hashRefreshToken raw) : (raw, r) ∈ s.drawn := by
  obtain ⟨raw', hr'⟩ := h.rows r hr
  have hsame : raw' = raw := by
    refine hfree raw' (drawn_mem hr') raw hraw ?_
    rw [← hhash]
    exact (h.hashes _ hr').symm
  exact hsame ▸ hr'

theorem setCall (h : s.Inv P) (hc : s.calls[i]? = some c)
    (hpresented : c'.presented? = c.presented?)
    (hfound : ∀ r raw, c'.found? = some r → c'.presented? = some raw → (raw, r) ∈ s.drawn)
    (hheld : ∀ r, c'.held? = some r → r ∈ s.refreshTokens.rows ∧
      ∀ j d q, s.calls[j]? = some d → d.held? = some q → q.id = r.id → j = i)
    (hpending : ∀ p, c'.pending? = some p →
      p ∈ s.drawn ∧ ∀ d ∈ s.calls, d.presented? ≠ some p.1)
    (hspent : ∀ raw, c'.spent? = some raw →
      ∀ r ∈ s.refreshTokens.rows, r.tokenHash ≠ P.hashRefreshToken raw)
    (honce : ∀ raw x, c' = .refresh raw (.returned (.ok x)) →
      ∀ j y, j ≠ i → ¬s.Refreshed j raw y) :
    (s.setCall i c').Inv P := by
  have hmem : c ∈ s.calls := List.mem_of_getElem? hc
  have hquiet : ∀ token, (∀ d ∈ s.calls, d.presented? ≠ some token) →
      ∀ d ∈ (s.setCall i c').calls, d.presented? ≠ some token := by
    intro token htoken d hd
    rcases mem_setCall hd with rfl | hd
    · rw [hpresented]
      exact htoken c hmem
    · exact htoken d hd
  refine ⟨h.hashes, h.unique, h.rows, h.apart, ?_, ?_, ?_, ?_, ?_, ?_⟩
  · intro d hd r raw hr hraw
    rcases mem_setCall hd with rfl | hd
    · exact hfound r raw hr hraw
    · exact h.found d hd r raw hr hraw
  · intro d hd r hr
    rcases mem_setCall hd with rfl | hd
    · exact (hheld r hr).1
    · exact h.held d hd r hr
  · intro j k d e r q hd he hr hq hid
    rcases setCall_get hd with ⟨rfl, rfl⟩ | ⟨hj, hd'⟩
    · rcases setCall_get he with ⟨rfl, rfl⟩ | ⟨hk, he⟩
      · rfl
      · exact ((hheld r hr).2 k e q he hq hid.symm).symm
    · rcases setCall_get he with ⟨rfl, rfl⟩ | ⟨hk, he⟩
      · exact (hheld q hq).2 j d r hd' hr hid
      · exact h.exclusive j k d e r q hd' he hr hq hid
  · intro d hd p hp
    rcases mem_setCall hd with rfl | hd
    · exact ⟨(hpending p hp).1, hquiet p.1 (hpending p hp).2⟩
    · exact ⟨(h.pending d hd p hp).1, hquiet p.1 (h.pending d hd p hp).2⟩
  · intro d hd raw hraw
    rcases mem_setCall hd with rfl | hd
    · exact hspent raw hraw
    · exact h.spent d hd raw hraw
  · intro j k raw x y hx hy
    rcases setCall_get hx with ⟨rfl, hx'⟩ | ⟨hj, hx'⟩
    · rcases setCall_get hy with ⟨rfl, hy'⟩ | ⟨hk, hy'⟩
      · rfl
      · exact absurd hy' (honce raw x hx'.symm k y hk)
    · rcases setCall_get hy with ⟨rfl, hy'⟩ | ⟨hk, hy'⟩
      · exact absurd hx' (honce raw y hy'.symm j x hj)
      · exact h.once j k raw x y hx' hy'

theorem quiet (h : s.Inv P) (hc : s.calls[i]? = some c) (hq : c.Quiet c') :
    (s.setCall i c').Inv P := by
  have hmem : c ∈ s.calls := List.mem_of_getElem? hc
  refine h.setCall hc hq.presented ?_ ?_ ?_ ?_ ?_
  · intro r raw hr hraw
    exact h.found c hmem r raw (hq.found r hr) (hq.presented ▸ hraw)
  · intro r hr
    refine ⟨h.held c hmem r (hq.held r hr), fun j d q hd hdq hid => ?_⟩
    exact h.exclusive j i d c q r hd hc hdq (hq.held r hr) hid
  · intro p hp
    exact h.pending c hmem p (hq.pending p hp)
  · intro raw hraw
    simp [hq.spent] at hraw
  · intro raw x hx
    have hspent := hq.spent
    simp [hx, AuthCall.spent?] at hspent

theorem deleteToken (h : s.Inv P) {id : Uuid}
    (hfree : ∀ c ∈ s.calls, ∀ r, c.held? = some r → r.id ≠ id) : (s.deleteToken id).Inv P where
  hashes := h.hashes
  unique := h.unique
  rows := fun r hr => h.rows r (mem_deleteToken.mp hr).1
  apart := fun r hr q hq => h.apart r (mem_deleteToken.mp hr).1 q (mem_deleteToken.mp hq).1
  found := h.found
  held := fun c hc r hr => mem_deleteToken.mpr ⟨h.held c hc r hr, hfree c hc r hr⟩
  exclusive := h.exclusive
  pending := h.pending
  spent := fun c hc raw hraw r hr => h.spent c hc raw hraw r (mem_deleteToken.mp hr).1
  once := h.once

theorem insertToken (h : s.Inv P) {raw : Text} {record : RefreshToken}
    (hdrawn : (raw, record) ∈ s.drawn)
    (hnew : ∀ c ∈ s.calls, ∀ token, c.presented? = some token →
      P.hashRefreshToken raw ≠ P.hashRefreshToken token)
    (hapart : ∀ r ∈ s.refreshTokens.rows, r.tokenHash = record.tokenHash → r = record) :
    (s.insertToken record).Inv P where
  hashes := h.hashes
  unique := h.unique
  rows := by
    intro r hr
    rcases Table.mem_upsert.mp hr with rfl | ⟨hr, -⟩
    · exact ⟨raw, hdrawn⟩
    · exact h.rows r hr
  apart := by
    intro r hr q hq hhash
    rcases Table.mem_upsert.mp hr with rfl | ⟨hr', -⟩
    · rcases Table.mem_upsert.mp hq with rfl | ⟨hq', -⟩
      · rfl
      · exact (hapart q hq' hhash.symm).symm
    · rcases Table.mem_upsert.mp hq with rfl | ⟨hq', -⟩
      · exact hapart r hr' hhash
      · exact h.apart r hr' q hq' hhash
  found := h.found
  held := by
    intro c hc r hr
    refine Table.mem_upsert.mpr (.inr ⟨h.held c hc r hr, fun hid => ?_⟩)
    obtain ⟨raw', hraw'⟩ := AuthCall.presented_of_held hr
    have hr' := h.found c hc r raw' (AuthCall.found_of_held hr) hraw'
    have heq := h.unique _ hr' _ hdrawn (.inr hid)
    exact hnew c hc raw' hraw' (congrArg (P.hashRefreshToken ∘ Prod.fst) heq.symm)
  exclusive := h.exclusive
  pending := h.pending
  spent := by
    intro c hc raw' hraw' r hr
    rcases Table.mem_upsert.mp hr with rfl | ⟨hr, -⟩
    · rw [h.hashes _ hdrawn]
      exact hnew c hc raw' (AuthCall.presented_of_spent hraw')
    · exact h.spent c hc raw' hraw' r hr
  once := h.once

theorem draw (h : s.Inv P) {env : AuthEnv} {user : User} {session : AuthSession}
    {record : RefreshToken} (hissue : P.issue env user = .ok (session, record))
    (hnew : ∀ d ∈ s.drawn, d.1 ≠ env.refreshToken ∧ d.2.id ≠ env.id) :
    (s.draw session record).Inv P := by
  obtain ⟨htoken, hid, hhash⟩ := AuthPorts.issue_ok hissue
  have hapart : ∀ d ∈ s.drawn, d.1 ≠ session.refreshToken ∧ d.2.id ≠ record.id := by
    rw [htoken, hid]
    exact hnew
  refine ⟨?_, ?_, ?_, h.apart, ?_, h.held, h.exclusive, ?_, h.spent, h.once⟩
  · intro d hd
    rcases List.mem_cons.mp hd with rfl | hd
    · rw [hhash, htoken]
    · exact h.hashes d hd
  · intro d hd e he hsame
    rcases List.mem_cons.mp hd with rfl | hd
    · rcases List.mem_cons.mp he with rfl | he
      · rfl
      · rcases hsame with hraw | hid'
        · exact absurd hraw.symm (hapart e he).1
        · exact absurd hid'.symm (hapart e he).2
    · rcases List.mem_cons.mp he with rfl | he
      · rcases hsame with hraw | hid'
        · exact absurd hraw (hapart d hd).1
        · exact absurd hid' (hapart d hd).2
      · exact h.unique d hd e he hsame
  · intro r hr
    obtain ⟨raw, hraw⟩ := h.rows r hr
    exact ⟨raw, List.mem_cons_of_mem _ hraw⟩
  · intro c hc r raw hr hraw
    exact List.mem_cons_of_mem _ (h.found c hc r raw hr hraw)
  · intro c hc p hp
    exact ⟨List.mem_cons_of_mem _ (h.pending c hc p hp).1, (h.pending c hc p hp).2⟩

theorem started (h : s.Inv P) {request : AuthRequest} (hfresh : s.Fresh P (.start request)) :
    ({ s with calls := s.calls ++ [request.begin P] } : Auth).Inv P := by
  obtain ⟨hfound, hheld, hpending, hspent⟩ := begin_idle P request
  have hmem : ∀ {d}, d ∈ s.calls ++ [request.begin P] → d ∈ s.calls ∨ d = request.begin P := by
    intro d hd
    simpa using hd
  have hget : ∀ {j : Nat} {d}, (s.calls ++ [request.begin P])[j]? = some d →
      s.calls[j]? = some d ∨ d = request.begin P := by
    intro j d hd
    rw [List.getElem?_append] at hd
    split at hd
    · exact .inl hd
    · exact .inr (List.mem_singleton.mp (List.mem_of_getElem? hd))
  refine ⟨h.hashes, h.unique, h.rows, h.apart, ?_, ?_, ?_, ?_, ?_, ?_⟩
  · intro d hd r raw hr hraw
    rcases hmem hd with hd | rfl
    · exact h.found d hd r raw hr hraw
    · simp [hfound] at hr
  · intro d hd r hr
    rcases hmem hd with hd | rfl
    · exact h.held d hd r hr
    · simp [hheld] at hr
  · intro j k d e r q hd he hr hq hid
    rcases hget hd with hd | rfl
    · rcases hget he with he | rfl
      · exact h.exclusive j k d e r q hd he hr hq hid
      · simp [hheld] at hq
    · simp [hheld] at hr
  · intro d hd p hp
    rcases hmem hd with hd | rfl
    · refine ⟨(h.pending d hd p hp).1, fun e he => ?_⟩
      rcases hmem he with he | rfl
      · exact (h.pending d hd p hp).2 e he
      · exact hfresh d hd p hp
    · simp [hpending] at hp
  · intro d hd raw hraw
    rcases hmem hd with hd | rfl
    · exact h.spent d hd raw hraw
    · simp [hspent] at hraw
  · intro j k raw x y hx hy
    rcases hget hx with hx | hx
    · rcases hget hy with hy | hy
      · exact h.once j k raw x y hx hy
      · simp [← hy, AuthCall.spent?] at hspent
    · simp [← hx, AuthCall.spent?] at hspent

theorem takes (h : s.Inv P) {raw : Text} {r : RefreshToken} (hc : s.calls[i]? = some c)
    (hraw : c.presented? = some raw) (hdrawn : (raw, r) ∈ s.drawn)
    (hpresented : c'.presented? = some raw) (hfound : c'.found? = some r)
    (hheld : ∀ q, c'.held? = some q → q = r ∧ r ∈ s.refreshTokens.rows ∧
      s.blocked i r.id = false)
    (hpending : c'.pending? = none) (hspent : c'.spent? = none) : (s.setCall i c').Inv P := by
  refine h.setCall hc (hpresented.trans hraw.symm) ?_ ?_ ?_ ?_ ?_
  · intro q token hq htoken
    cases hfound.symm.trans hq
    cases hpresented.symm.trans htoken
    exact hdrawn
  · intro q hq
    obtain ⟨rfl, hstored, hfree⟩ := hheld q hq
    exact ⟨hstored, fun j d x hd hx hid => unblocked hfree hd hx hid⟩
  · simp [hpending]
  · simp [hspent]
  · intro token x hx
    simp [hx, AuthCall.spent?] at hspent

theorem drawn_of_select (h : s.Inv P) (hfree : s.CollisionFree P) {raw : Text} {r : RefreshToken}
    (hc : c ∈ s.calls) (hraw : c.presented? = some raw)
    (hrow : s.findByTokenHash (P.hashRefreshToken raw) = some r) : (raw, r) ∈ s.drawn := by
  obtain ⟨hr, hhash⟩ := findByTokenHash_some hrow
  exact h.drawn_of_row hfree (presented_mem hc hraw) hr hhash

theorem stored_of_id (h : s.Inv P) {raw : Text} {r : RefreshToken} (hdrawn : (raw, r) ∈ s.drawn)
    (hrow : (s.refreshTokens.find? r.id).isSome) : r ∈ s.refreshTokens.rows := by
  obtain ⟨x, hx⟩ := Option.isSome_iff_exists.mp hrow
  obtain ⟨raw', hx'⟩ := h.rows x (Table.find?_mem hx)
  have heq : x = r :=
    congrArg Prod.snd (h.unique _ hx' _ hdrawn (.inr (Table.find?_key hx)))
  exact heq ▸ Table.find?_mem hx

theorem alone (h : s.Inv P) {r : RefreshToken} (hc : s.calls[i]? = some c)
    (hheld : c.held? = some r) (hc' : c'.held? = none) :
    ∀ d ∈ (s.setCall i c').calls, ∀ q, d.held? = some q → q.id ≠ r.id := by
  intro d hd q hq hid
  obtain ⟨j, hj⟩ := List.mem_iff_getElem?.mp hd
  rcases setCall_get hj with ⟨-, rfl⟩ | ⟨hne, hd'⟩
  · simp [hc'] at hq
  · exact hne (h.exclusive j i d c q r hd' hc hq hheld hid)

theorem no_row_left (h : s.Inv P) (hfree : s.CollisionFree P) {raw : Text} {r : RefreshToken}
    (hr : (raw, r) ∈ s.drawn) :
    ∀ x ∈ (s.deleteToken r.id).refreshTokens.rows, x.tokenHash ≠ P.hashRefreshToken raw := by
  intro x hx hhash
  obtain ⟨hx, hid⟩ := mem_deleteToken.mp hx
  exact hid (congrArg RefreshToken.id (h.only_row hfree hr hx hhash))

theorem drew (h : s.Inv P) {env : AuthEnv} {user : User} {session : AuthSession}
    {record : RefreshToken} (hissue : P.issue env user = .ok (session, record))
    (hnew : (∀ d ∈ s.drawn, d.1 ≠ env.refreshToken ∧ d.2.id ≠ env.id) ∧
      ∀ c ∈ s.calls, c.presented? ≠ some env.refreshToken) (hc : s.calls[i]? = some c)
    (hpresented : c'.presented? = c.presented?) (hfound : c'.found? = c.found?)
    (hheld : c'.held? = c.held?) (hpending : c'.pending? = some (session.refreshToken, record))
    (hspent : c'.spent? = none) : ((s.draw session record).setCall i c').Inv P := by
  have hmem : c ∈ s.calls := List.mem_of_getElem? hc
  have hd := h.draw hissue hnew.1
  have htoken := (AuthPorts.issue_ok hissue).1
  refine hd.setCall hc hpresented ?_ ?_ ?_ ?_ ?_
  · intro r raw hr hraw
    exact hd.found c hmem r raw (hfound ▸ hr) (hpresented ▸ hraw)
  · intro r hr
    rw [hheld] at hr
    exact ⟨h.held c hmem r hr, fun j d q hdc hq hid => h.exclusive j i d c q r hdc hc hq hr hid⟩
  · intro p hp
    cases hpending.symm.trans hp
    refine ⟨List.mem_cons_self, fun d hd => ?_⟩
    rw [htoken]
    exact hnew.2 d hd
  · simp [hspent]
  · intro raw x hx
    simp [hx, AuthCall.spent?] at hspent

theorem kept (h : s.Inv P) {r : RefreshToken} (hc : s.calls[i]? = some c)
    (hheld : c.held? = some r) (hq : c.Quiet c') (hc' : c'.held? = none) :
    ((s.deleteToken r.id).setCall i c').Inv P :=
  (h.quiet hc hq).deleteToken (h.alone hc hheld hc')

/-- The commit of a refresh: the row goes, its successor appears. -/
theorem rotated (h : s.Inv P) (hfree : s.CollisionFree P) {raw : Text} {r : RefreshToken}
    {session : AuthSession} {record : RefreshToken}
    (hc : s.calls[i]? = some (.refresh raw (.commit r session record))) :
    (((s.deleteToken r.id).insertToken record).setCall i
      (.refresh raw (.returned (.ok session)))).Inv P := by
  have hmem := List.mem_of_getElem? hc
  have hdrawn : (raw, r) ∈ s.drawn := h.found _ hmem r raw rfl rfl
  have hstored : r ∈ s.refreshTokens.rows := h.held _ hmem r rfl
  obtain ⟨hrecord, hunseen⟩ := h.pending _ hmem (session.refreshToken, record) rfl
  have hnew : ∀ d ∈ s.calls, ∀ token, d.presented? = some token →
      P.hashRefreshToken session.refreshToken ≠ P.hashRefreshToken token := by
    intro d hd token htoken hhash
    have hsame := hfree _ (drawn_mem hrecord) _ (presented_mem hd htoken) hhash
    exact hunseen d hd (hsame ▸ htoken)
  -- the call gives its row up, the rows change, the call answers
  have hdropped := h.kept hc rfl (quiet_drop _) rfl
  have hinserted := hdropped.insertToken hrecord (by
    intro d hd
    rcases mem_setCall hd with rfl | hd
    · exact hnew (.refresh raw (.commit r session record)) hmem
    · exact hnew d hd) (fun x hx => h.only_record hfree hrecord (mem_deleteToken.mp hx).1)
  have hself : (((s.deleteToken r.id).setCall i (.refresh raw .dropped)).insertToken
      record).calls[i]? = some (.refresh raw .dropped) := setCall_self hc
  have hanswered := @setCall _ _ _ _ (.refresh raw (.returned (.ok session))) hinserted hself rfl
    (by simp [AuthCall.found?]) (by simp [AuthCall.held?]) (by simp [AuthCall.pending?]) (by
      intro token htoken x hx
      cases htoken
      rcases Table.mem_upsert.mp hx with rfl | ⟨hx, -⟩
      · rw [h.hashes _ hrecord]
        exact hnew _ hmem raw rfl
      · exact h.no_row_left hfree hdrawn x hx) (by
      intro token x hx j y hj hy
      cases hx
      have hy' : s.calls[j]? = some (.refresh raw (.returned (.ok y))) :=
        (setCall_other (s := s) hj).symm.trans hy
      exact h.spent _ (List.mem_of_getElem? hy') raw rfl r hstored (h.hashes _ hdrawn))
  have hset : (((s.deleteToken r.id).setCall i (.refresh raw .dropped)).insertToken record).setCall
      i (.refresh raw (.returned (.ok session))) =
      ((s.deleteToken r.id).insertToken record).setCall i
        (.refresh raw (.returned (.ok session))) := by
    simp [Auth.setCall, Auth.deleteToken, Auth.insertToken, List.set_set]
  exact hset ▸ hanswered

theorem answered (h : s.Inv P) {raw : Text} {phase : LogoutPhase}
    (hc : s.calls[i]? = some (.logout raw phase))
    (hgone : ∀ r ∈ s.refreshTokens.rows, r.tokenHash ≠ P.hashRefreshToken raw) :
    (s.setCall i (.logout raw (.returned (.ok ())))).Inv P := by
  refine h.setCall hc rfl (by simp [AuthCall.found?]) (by simp [AuthCall.held?])
    (by simp [AuthCall.pending?]) ?_ (by simp)
  intro token htoken
  cases htoken
  exact hgone

theorem step (h : s.Inv P) {a : AuthAct} (ha : s.Assumed P a) {s' : Auth}
    (hs : s.step P a = some s') : s'.Inv P := by
  obtain ⟨hfree, hfresh⟩ := ha
  cases step_effect hs with
  | saved user =>
    exact ⟨h.hashes, h.unique, h.rows, h.apart, h.found, h.held, h.exclusive, h.pending, h.spent,
      h.once⟩
  | started request => exact h.started hfresh
  | quiet _ i c c' hc _ _ hq => exact h.quiet hc hq
  | found i env c c' raw r hc _ hraw hc' hrow =>
    have hdrawn := h.drawn_of_select hfree (List.mem_of_getElem? hc) hraw hrow
    rcases hc' with rfl | rfl
    · exact h.takes hc hraw hdrawn rfl rfl (by simp [AuthCall.held?]) rfl rfl
    · exact h.takes hc hraw hdrawn rfl rfl (by simp [AuthCall.held?]) rfl rfl
  | locked i env raw r c' hc hrow hunlocked hc' =>
    have hdrawn := h.found _ (List.mem_of_getElem? hc) r raw rfl rfl
    have hheld : ∀ q, some r = some q → q = r ∧ r ∈ s.refreshTokens.rows ∧
        s.blocked i r.id = false := by
      intro q hq
      exact ⟨(Option.some.inj hq).symm, h.stored_of_id hdrawn hrow, hunlocked⟩
    rcases hc' with ⟨expired, rfl⟩ | rfl
    · exact h.takes hc rfl hdrawn rfl rfl hheld rfl rfl
    · exact h.takes hc rfl hdrawn rfl rfl hheld rfl rfl
  | drew i env user session record c c' hc hissue hc' =>
    obtain ⟨input, email, password, rfl, rfl⟩ | ⟨raw, r, rfl, rfl⟩ := hc'
    · exact h.drew hissue (hfresh (by simp [issues, hc])) hc rfl rfl rfl rfl rfl
    · exact h.drew hissue (hfresh (by simp [issues, hc])) hc rfl rfl rfl rfl rfl
  | granted i env input session record hc hins =>
    have hmem := List.mem_of_getElem? hc
    obtain ⟨hrecord, hunseen⟩ := h.pending _ hmem (session.refreshToken, record) rfl
    have hinserted := h.insertToken hrecord (by
      intro d hd token htoken hhash
      have hsame := hfree _ (drawn_mem hrecord) _ (presented_mem hd htoken) hhash
      exact hunseen d hd (hsame ▸ htoken)) (fun x hx => h.only_record hfree hrecord hx)
    refine hinserted.quiet hc ?_
    constructor <;>
      simp [AuthCall.presented?, AuthCall.found?, AuthCall.held?, AuthCall.pending?,
        AuthCall.spent?]
  | kept i env raw r now expired hc =>
    exact h.kept hc rfl (quiet_failed _ invalidRefreshToken) rfl
  | rotated i env raw r session record hc => exact h.rotated hfree hc
  | absent i env raw phase hc hrow =>
    refine h.answered hc ?_
    rcases hrow with ⟨-, hnone⟩ | ⟨r, rfl, hnone⟩
    · exact findByTokenHash_none hnone
    · intro x hx hhash
      have hdrawn := h.found _ (List.mem_of_getElem? hc) r raw rfl rfl
      have hxr := h.only_row hfree hdrawn hx hhash
      exact Table.find?_eq_none.mp hnone x hx (congrArg RefreshToken.id hxr)
  | revoked i env raw r hc hunlocked =>
    have hdrawn := h.found _ (List.mem_of_getElem? hc) r raw rfl rfl
    have hdeleted : (s.deleteToken r.id).Inv P := h.deleteToken (by
      intro c hcall q hq hid
      obtain ⟨j, hj⟩ := List.mem_iff_getElem?.mp hcall
      obtain rfl := unblocked hunlocked hj hq hid
      cases hc.symm.trans hj
      simp [AuthCall.held?] at hq)
    exact hdeleted.answered hc (h.no_row_left hfree hdrawn)

end Inv

end Auth

end Betsphere
