import Betsphere.Postgres.BetListing
import Betsphere.Ws.Delivery
set_option autoImplicit false

namespace Betsphere.Ws
open Transition

def historyLimit : Int := 50

def carries (feed : BetFeed) (bet : Bet) : Bool :=
  match feed with
  | .global => true
  | .market id => bet.marketId = id

def betHistory (feed : BetFeed) (rows : List Bet) : Except RepositoryError (List Bet) :=
  let filter := { BetFilter.default with limit := historyLimit }
  match feed with
  | .global => PgBetRepository.feed rows filter
  | .market id => PgBetRepository.findByMarket rows id filter

structure Snapshot where
  messages : List ChatMessage
  bets : List Bet
  users : List User

/-- The tables and one connection. `seen` is what the history query of the join in progress
saw, and `reads` what it saw for the task of each join. -/
structure FeedWorld where
  messages : Table ChatMessage.id
  bets : Table Bet.id
  users : Table User.id
  conn : Connection
  seen : Option Snapshot
  reads : Nat → Snapshot

def FeedWorld.init : FeedWorld := ⟨.empty, .empty, .empty, .init, none, fun _ => ⟨[], [], []⟩⟩

/-- `messages` and `bets` answer the history of a join; `order` is the order in which the
query meets the rows. Everything else the connection does is `conn`. -/
inductive FeedAct where
  | saveUser (user : User)
  | commitMessage (message : ChatMessage)
  | commitBet (bet : Bet)
  | settleBet (id : BetId) (status : BetStatus) (payout : Option Int)
  | airMessage (id : MessageId) (author : ChatAuthor) (replyTo : Option QuotedMessage)
  | airBet (id : BetId) (feed : BetFeed)
  | query
  | messages (viewer : UserId) (r : HistoryReads)
  | bets (order : Except RepositoryError (List Bet))
  | conn (a : WsAct)

def WsAct.free : WsAct → Bool
  | .publish (.message ..) => false
  | .publish (.bet ..) => false
  | .answer (.views _) => false
  | .answer (.bets _) => false
  | _ => true

def finds (r : HistoryReads) (users : List User) : Bool :=
  users.all fun user =>
    match r.findUser user.id with
    | .ok none => false
    | _ => true

def lists (r : HistoryReads) (room : ChatChannel) (rows : List ChatMessage) : Bool :=
  match r.listRecent room historyLimit none, listRecentMessages rows room historyLimit none with
  | .ok page, .ok page' => page = page'
  | .ok _, .error _ => false
  | .error _, _ => true

namespace FeedWorld

def publish (w : FeedWorld) (live : Live) : FeedWorld := { w with conn := w.conn.publish live }

/-- The rows of the last query answer the join, and are kept as what its task was shown. -/
def answer (w : FeedWorld) (parseUuid : Text → Option Uuid) (snap : Snapshot) (x : Answer) :
    Option FeedWorld :=
  (w.conn.step parseUuid (.answer x)).map fun c =>
    { w with
      conn := c
      seen := none
      reads := Function.update w.reads w.conn.forwarders.length snap }

def step (parseUuid : Text → Option Uuid) (w : FeedWorld) : FeedAct → Option FeedWorld
  | .saveUser user => some { w with users := w.users.upsert user }
  | .commitMessage m =>
    if (w.messages.find? m.id).isNone ∧ (w.users.find? m.authorId).isSome then
      some { w with messages := w.messages.upsert m }
    else none
  | .commitBet bet =>
    if (w.bets.find? bet.id).isNone then some { w with bets := w.bets.upsert bet } else none
  | .settleBet id status payout =>
    (w.bets.find? id).map fun bet =>
      { w with bets := w.bets.upsert { bet with status := status, payout := payout } }
  | .airMessage id author replyTo =>
    (w.messages.find? id).map fun m =>
      w.publish (.message m.channel ⟨m.id, author, m.body.value, replyTo, m.createdAt⟩)
  | .airBet id feed =>
    match w.bets.find? id with
    | some bet => if carries feed bet then some (w.publish (.bet feed bet.broadcast)) else none
    | none => none
  | .query =>
    match w.conn.handling with
    | .joining j =>
      match j.stage with
      | .history =>
        if w.seen.isNone then
          some { w with seen := some ⟨w.messages.rows, w.bets.rows, w.users.rows⟩ }
        else none
      | _ => none
    | _ => none
  | .messages viewer r =>
    match w.conn.handling, w.seen with
    | .joining j, some snap =>
      match j.channel with
      | .chat room =>
        if lists r room snap.messages ∧ finds r snap.users then
          w.answer parseUuid snap
            (.views (ListRecentMessages.execute r viewer room historyLimit ⟨none, none⟩))
        else none
      | _ => none
    | _, _ => none
  | .bets order =>
    match w.conn.handling, w.seen with
    | .joining j, some snap =>
      match j.channel, order with
      | .bets feed, .ok rows =>
        if rows.Perm snap.bets then w.answer parseUuid snap (.bets (betHistory feed rows)) else none
      | .bets _, .error e => w.answer parseUuid snap (.bets (.error e))
      | _, _ => none
    | _, _ => none
  | .conn a =>
    if a.free then
      (w.conn.step parseUuid a).map fun c =>
        { w with
          conn := c
          seen :=
            match a with
            | .answer _ => none
            | _ => w.seen }
    else none

end FeedWorld

def FeedWorld.Backs (w : FeedWorld) : Live → Prop
  | .message _ b => ∃ m ∈ w.messages.rows, m.id = b.id
  | .bet _ b => ∃ bet ∈ w.bets.rows, bet.id = b.id
  | _ => True

/-- Nothing is forgotten on the way from one state to another; a settlement changes nothing
of a bet that a frame shows. -/
structure FeedWorld.Grows (w w' : FeedWorld) : Prop where
  messages : ∀ m ∈ w.messages.rows, m ∈ w'.messages.rows
  bets : ∀ bet ∈ w.bets.rows, ∃ row ∈ w'.bets.rows,
    BetPlacedResponse.ofBet row = BetPlacedResponse.ofBet bet
  wire : w.conn.wire <+: w'.conn.wire

structure Snapshot.Sees (snap : Snapshot) (w : FeedWorld) (n : Nat) : Prop where
  bound : n ≤ w.conn.wire.length
  messages : ∀ k < n, ∀ room b, w.conn.wire[k]? = some (.message room b) →
    ∃ m ∈ snap.messages, m.id = b.id
  bets : ∀ k < n, ∀ feed b, w.conn.wire[k]? = some (.bet feed b) →
    ∃ bet ∈ snap.bets, bet.id = b.id
  stored : ∀ m ∈ snap.messages, m ∈ w.messages.rows
  placed : ∀ bet ∈ snap.bets, ∃ row ∈ w.bets.rows,
    BetPlacedResponse.ofBet row = BetPlacedResponse.ofBet bet
  ids : (snap.messages.map ChatMessage.id).Nodup
  betIds : (snap.bets.map Bet.id).Nodup
  authors : ∀ m ∈ snap.messages, ∃ user ∈ snap.users, user.id = m.authorId

def Snapshot.newer (snap : Snapshot) (room : ChatChannel) (m : ChatMessage) : List ChatMessage :=
  (roomOf room snap.messages).filter fun e => m.key < e.key

def Snapshot.newerBets (snap : Snapshot) (feed : BetFeed) (bet : Bet) : List Bet :=
  snap.bets.filter fun e => carries feed e ∧ bet.createdAt ≤ e.createdAt ∧ e.id ≠ bet.id

/-- The replay shows each row of the snapshot, or a page of rows before it. -/
def Snapshot.Shows (snap : Snapshot) (name : Text) (channel : Channel)
    (frames : List ServerFrame) : Prop :=
  match channel with
  | .chat room => ∃ views, frames = [.history name views] ∧
      ∀ m ∈ snap.messages, m.channel = room →
        (∃ v ∈ views, v.message = m) ∨ historyLimit ≤ (snap.newer room m).length
  | .bets feed => ∃ data, frames = [.betHistory name data] ∧
      ∀ bet ∈ snap.bets, carries feed bet →
        BetPlacedResponse.ofBet bet ∈ data ∨ historyLimit ≤ (snap.newerBets feed bet).length
  | .marketFeed _ => True

def Snapshot.Covers (snap : Snapshot) (w : FeedWorld) (n : Nat) (name : Text) (channel : Channel)
    (frames : List ServerFrame) : Prop :=
  (∃ marketId, channel = .marketFeed marketId) ∨
    (snap.Sees w n ∧ snap.Shows name channel frames)

structure FeedWorld.Wf (parseUuid : Text → Option Uuid) (w : FeedWorld) : Prop where
  conn : w.conn.Wf parseUuid
  delivering : w.conn.Delivering
  authors : ∀ m ∈ w.messages.rows, ∃ user ∈ w.users.rows, user.id = m.authorId
  wire : ∀ live ∈ w.conn.wire, w.Backs live
  joining : ∀ j, w.conn.handling = .joining j → j.heardFrom ≤ w.conn.wire.length
  seen : ∀ j snap, w.conn.handling = .joining j → w.seen = some snap → j.stage = .history →
    snap.Sees w j.heardFrom
  replaying : ∀ j frames, w.conn.handling = .joining j → j.stage = .replay frames →
    (w.reads w.conn.forwarders.length).Covers w j.heardFrom j.name j.channel j.replayed
  tasks : ∀ (t : Nat) (f : Forwarder), w.conn.forwarders[t]? = some f →
    (w.reads t).Covers w f.heardFrom f.name f.channel f.replayed

section
variable {parseUuid : Text → Option Uuid} {w w' : FeedWorld} {snap : Snapshot} {n : Nat}

theorem FeedWorld.Backs.grows {live : Live} (h : w.Backs live) (hgrows : w.Grows w') :
    w'.Backs live := by
  cases live with
  | message room b =>
    obtain ⟨m, hm, hid⟩ := h
    exact ⟨m, hgrows.messages m hm, hid⟩
  | bet feed b =>
    obtain ⟨bet, hbet, hid⟩ := h
    obtain ⟨row, hrow, hsame⟩ := hgrows.bets bet hbet
    exact ⟨row, hrow, (congrArg BetPlacedResponse.id hsame).trans hid⟩
  | _ => trivial

theorem Snapshot.Sees.grows (h : snap.Sees w n) (hgrows : w.Grows w') : snap.Sees w' n := by
  have hsame : ∀ k < n, w'.conn.wire[k]? = w.conn.wire[k]? := fun k hk => by
    obtain ⟨later, hlater⟩ := hgrows.wire
    rw [← hlater, List.getElem?_append_left (lt_of_lt_of_le hk h.bound)]
  exact
    { bound := le_trans h.bound hgrows.wire.length_le
      messages := fun k hk room b hb => h.messages k hk room b (hsame k hk ▸ hb)
      bets := fun k hk feed b hb => h.bets k hk feed b (hsame k hk ▸ hb)
      stored := fun m hm => hgrows.messages m (h.stored m hm)
      placed := fun bet hbet => by
        obtain ⟨row, hrow, hrowsame⟩ := h.placed bet hbet
        obtain ⟨row', hrow', hrowsame'⟩ := hgrows.bets row hrow
        exact ⟨row', hrow', hrowsame'.trans hrowsame⟩
      ids := h.ids
      betIds := h.betIds
      authors := h.authors }

theorem Snapshot.Covers.grows {name : Text} {channel : Channel} {frames : List ServerFrame}
    (h : snap.Covers w n name channel frames) (hgrows : w.Grows w') :
    snap.Covers w' n name channel frames :=
  h.imp_right fun ⟨hsees, hshows⟩ => ⟨hsees.grows hgrows, hshows⟩

namespace FeedWorld

theorem Wf.tables (h : w.Wf parseUuid) (hgrows : w.Grows w') (hconn : w'.conn = w.conn)
    (hseen : w'.seen = w.seen) (hreads : w'.reads = w.reads)
    (hauthors : ∀ m ∈ w'.messages.rows, ∃ user ∈ w'.users.rows, user.id = m.authorId) :
    w'.Wf parseUuid where
  conn := hconn ▸ h.conn
  delivering := hconn ▸ h.delivering
  authors := hauthors
  wire live hlive := (h.wire live (hconn ▸ hlive)).grows hgrows
  joining j hj := by
    rw [hconn] at hj ⊢
    exact h.joining j hj
  seen j snap hj hsnap hstage := (h.seen j snap (hconn ▸ hj) (hseen ▸ hsnap) hstage).grows hgrows
  replaying j frames hj hstage := by
    rw [hreads, hconn]
    exact (h.replaying j frames (hconn ▸ hj) hstage).grows hgrows
  tasks t f hf := by
    rw [hreads]
    exact (h.tasks t f (hconn ▸ hf)).grows hgrows

theorem publish_grows (w : FeedWorld) {c : Connection} {a : WsAct}
    (heff : Effect parseUuid w.conn a c) (seen : Option Snapshot) (reads : Nat → Snapshot) :
    w.Grows { w with conn := c, seen := seen, reads := reads } := by
  refine ⟨fun _ h => h, fun bet h => ⟨bet, h, rfl⟩, ?_⟩
  rcases heff.wire with hwire | ⟨live, -, hwire⟩ <;> simp [hwire]

theorem JoinStage.start_cases (name : Text) (channel : Channel) :
    (Join.start name channel).stage ≠ .history ∧
      ∀ frames, (Join.start name channel).stage ≠ .replay frames := by
  cases hcheck : channel.checked with
  | some id => simp [Join.start, hcheck]
  | none =>
    cases hall : channel.topics with
    | nil => exact absurd hall channel.topics_ne_nil
    | cons topic rest => simp [Join.start, hcheck, hall, JoinStage.subscribing]

theorem Wf.acts (h : w.Wf parseUuid) {a : WsAct} {c : Connection}
    (heff : Effect parseUuid w.conn a c) (ha : ∀ x, a ≠ .answer x)
    (hbacks : ∀ live, a = .publish live → w.Backs live) :
    { w with conn := c }.Wf parseUuid := by
  have hgrows := w.publish_grows heff w.seen w.reads
  have hlen := heff.forwarders_length ha
  refine
    { conn := h.conn.effect heff
      delivering := h.delivering.effect h.conn heff
      authors := h.authors
      wire := fun live hlive => ?_
      joining := fun j' hj' => ?_
      seen := fun j' snap hj' hsnap hstage => ?_
      replaying := fun j' frames hj' hstage => ?_
      tasks := fun t g hg => ?_ }
  · rcases heff.wire with hwire | ⟨live', rfl, hwire⟩
    · exact (h.wire live (hwire ▸ hlive)).grows hgrows
    · rcases List.mem_append.mp (hwire ▸ hlive) with hold | hnew
      · exact (h.wire live hold).grows hgrows
      · exact (hbacks live (List.mem_singleton.mp hnew ▸ rfl)).grows hgrows
  · rcases heff.joining_kept ha hj' with ⟨j, hj, -, -, -, hfrom, -⟩ | ⟨name, channel, rfl⟩
    · exact hfrom ▸ le_trans (h.joining j hj) heff.wire_le
    · exact Nat.zero_le _
  · rcases heff.joining_kept ha hj' with ⟨j, hj, -, -, hsame, hfrom, -⟩ | ⟨name, channel, rfl⟩
    · exact hfrom ▸ (h.seen j snap hj hsnap (hsame ▸ hstage)).grows hgrows
    · exact absurd hstage (JoinStage.start_cases name channel).1
  · rcases heff.joining_kept ha hj' with ⟨j, hj, hname, hchannel, hsame, hfrom, hreplayed⟩ | hstart
    · have hcovers := (h.replaying j frames hj (hsame ▸ hstage)).grows hgrows
      rw [hname, hchannel, hfrom, hreplayed]
      simpa only [hlen] using hcovers
    · obtain ⟨name, channel, rfl⟩ := hstart
      exact absurd hstage ((JoinStage.start_cases name channel).2 frames)
  · rcases heff.forwarder hg with ⟨f, hf, hstep⟩ | ⟨x, j, j', frames, -, -, -, -, -, ht, -⟩
    · rw [hstep.kept.1, hstep.kept.2, hstep.name, hstep.channel]
      exact (h.tasks t f hf).grows hgrows
    · have hlt := (List.getElem?_eq_some_iff.mp hg).1
      simp only at hlt
      omega

theorem subscribing_not_replay {topics : List Topic} {frames : List ServerFrame} :
    JoinStage.subscribing topics ≠ .replay frames := by
  cases topics <;> simp [JoinStage.subscribing]

theorem Wf.answers (h : w.Wf parseUuid) {a : WsAct} {x : Answer} {c : Connection}
    {reads : Nat → Snapshot} (heff : Effect parseUuid w.conn a c) (ha : a = .answer x)
    (hreads : ∀ t < w.conn.forwarders.length, reads t = w.reads t)
    (hreplay : ∀ j frames, w.conn.handling = .joining j → j.stage = .replay frames →
      reads w.conn.forwarders.length = w.reads w.conn.forwarders.length)
    (hread : ∀ j frames, w.conn.handling = .joining j → j.stage = .history →
      j.read x = some (.ok frames) →
      (reads w.conn.forwarders.length).Covers w j.heardFrom j.name j.channel frames) :
    { w with conn := c, seen := none, reads := reads }.Wf parseUuid := by
  have hgrows := w.publish_grows heff none reads
  have hwire : c.wire = w.conn.wire := by
    rcases heff.wire with hwire | ⟨live, rfl, -⟩
    · exact hwire
    · cases ha
  have hcovers : ∀ j j' frames rest, w.conn.handling = .joining j →
      JoinStep w.conn.wire.length x j j' frames → j'.stage = .replay rest →
      (reads w.conn.forwarders.length).Covers w j'.heardFrom j'.name j'.channel j'.replayed := by
    intro j j' frames rest hj hstep hstage
    cases hstep with
    | market id found hmarket => exact absurd hstage subscribing_not_replay
    | subscribed topic topics hsub => exact absurd hstage subscribing_not_replay
    | read frames hhistory hframes => exact hread j frames hj hhistory hframes
    | replayed frame rest' hold =>
      rw [hreplay j _ hj hold]
      exact h.replaying j _ hj hold
  refine
    { conn := h.conn.effect heff
      delivering := h.delivering.effect h.conn heff
      authors := h.authors
      wire := fun live hlive => (h.wire live (hwire ▸ hlive)).grows hgrows
      joining := fun j' hj' => ?_
      seen := fun j' snap hj' hsnap => by cases hsnap
      replaying := fun j' frames hj' hstage => ?_
      tasks := fun t g hg => ?_ }
  · simp only [hwire]
    cases heff with
    | joined y j j'' frames hjoin hstep =>
      cases ha
      have hbound : j''.heardFrom ≤ w.conn.wire.length := by
        cases hstep with
        | subscribed topic rest hstage => exact le_rfl
        | _ => exact h.joining j hjoin
      rcases (w.conn.writeAll frames).proceed_cases j'' with hp | ⟨-, hp⟩
      · rw [hp] at hj'
        cases hj'
        exact hbound
      · rw [hp] at hj'
        cases hj'
    | refused message => cases hj'
    | turned _ handling hjoin => exact absurd hj' (hjoin j')
    | moved _ s f f' hf hstep => exact h.joining j' hj'
    | _ => cases ha
  · cases heff with
    | joined y j j'' sent hjoin hstep =>
      cases ha
      rcases (w.conn.writeAll sent).proceed_cases j'' with hp | ⟨-, hp⟩
      · rw [hp] at hj' hgrows ⊢
        cases hj'
        exact (hcovers j _ sent frames hjoin hstep hstage).grows hgrows
      · rw [hp] at hj'
        cases hj'
    | refused message => cases hj'
    | turned _ handling hjoin => exact absurd hj' (hjoin j')
    | moved _ s f f' hf hstep =>
      have hcov := (h.replaying j' frames hj' hstage).grows hgrows
      rw [← hreplay j' frames hj' hstage] at hcov
      simpa only [List.length_set] using hcov
    | _ => cases ha
  · rcases heff.forwarder hg with ⟨f, hf, hstep⟩ |
      ⟨y, j, j', frames, hy, hjoin, hstep, hstage, -, rfl, rfl⟩
    · have hcov := (h.tasks t f hf).grows hgrows
      rw [← hreads t (List.getElem?_eq_some_iff.mp hf).1] at hcov
      rw [hstep.kept.1, hstep.kept.2, hstep.name, hstep.channel]
      exact hcov
    · cases hy.symm.trans ha
      exact (hcovers j j' frames [] hjoin hstep hstage).grows hgrows

end FeedWorld

/-! ### What the history query shows -/

theorem Snapshot.Sees.shows_messages {r : HistoryReads} {room : ChatChannel} {viewer : UserId}
    {views : List ChatMessageView} (h : snap.Sees w n) (name : Text)
    (hlists : lists r room snap.messages = true) (hfinds : finds r snap.users = true)
    (hviews : ListRecentMessages.execute r viewer room historyLimit ⟨none, none⟩ = .ok views) :
    snap.Shows name (.chat room) [.history name views] := by
  obtain ⟨page, hpage, hcover⟩ := ListRecentMessages.execute_covers hviews
  have hquery : listRecentMessages snap.messages room historyLimit none =
      .ok (Keyset.newest historyLimit.toNat (roomOf room snap.messages)) :=
    query_newest h.ids (List.Perm.refl snap.messages) (by decide)
  have hnewest : page = Keyset.newest historyLimit.toNat (roomOf room snap.messages) := by
    simpa [lists, hpage, hquery] using hlists
  have hfound : ∀ m ∈ page, r.findUser m.authorId ≠ .ok none := by
    intro m hm hnone
    obtain ⟨hmem, -⟩ := mem_listRecentMessages (hnewest ▸ hquery) m hm
    obtain ⟨user, huser, hid⟩ := h.authors m hmem
    have hfind := List.all_eq_true.mp hfinds user huser
    simp [hid, hnone] at hfind
  refine ⟨views, rfl, fun m hm hroom => ?_⟩
  by_cases hshown : m ∈ page
  · exact .inl (hcover hfound m hshown)
  · rw [hnewest] at hshown
    have hleft := (roomOf_rising room h.ids).newer_left_out (mem_roomOf.mpr ⟨hm, hroom⟩) hshown
    exact .inr (Int.toNat_le.mp hleft)

theorem betHistory_newest {feed : BetFeed} {rows page : List Bet}
    (h : betHistory feed rows = .ok page) (hrows : rows.Nodup) :
    page.Nodup ∧ ∀ bet ∈ rows, carries feed bet = true → bet ∈ page ∨
      (page.length = historyLimit.toNat ∧ ∀ e ∈ page, e ∈ rows ∧ carries feed e = true ∧
        bet.createdAt ≤ e.createdAt) := by
  cases feed with
  | global =>
    have hlist : PgBetRepository.list rows none { BetFilter.default with limit := historyLimit } =
        .ok page := h
    refine ⟨PgBetRepository.list_nodup hlist hrows, fun bet hbet hfeed => ?_⟩
    rcases PgBetRepository.list_newest hlist bet hbet rfl with hpage | ⟨hfull, hnewer⟩
    · exact .inl hpage
    · exact .inr ⟨hfull, fun e he => ⟨(hnewer e he).1, rfl, (hnewer e he).2.2⟩⟩
  | market id =>
    have hcolumn : ∀ bet : Bet, ((some (fun bet : Bet => bet.marketId.uuid, id.uuid)).all
        fun c => c.1 bet = c.2) = carries (.market id) bet := by
      intro bet
      have hid : bet.marketId.uuid = id.uuid ↔ bet.marketId = id := by
        rw [← MarketId.mk.injEq]
      simp [carries, hid]
    have hlist : PgBetRepository.list rows (some (fun bet => bet.marketId.uuid, id.uuid))
        { BetFilter.default with limit := historyLimit } = .ok page := h
    refine ⟨PgBetRepository.list_nodup hlist hrows, fun bet hbet hfeed => ?_⟩
    rcases PgBetRepository.list_newest hlist bet hbet ((hcolumn bet).trans hfeed) with
      hpage | ⟨hfull, hnewer⟩
    · exact .inl hpage
    · refine .inr ⟨hfull, fun e he => ?_⟩
      obtain ⟨hrow, hcond, htime⟩ := hnewer e he
      exact ⟨hrow, (hcolumn e).symm.trans hcond, htime⟩

theorem Snapshot.Sees.shows_bets {feed : BetFeed} {rows page : List Bet} (h : snap.Sees w n)
    (name : Text) (hperm : rows.Perm snap.bets) (hpage : betHistory feed rows = .ok page) :
    snap.Shows name (.bets feed) [.betHistory name (page.reverse.map .ofBet)] := by
  have hnodup : rows.Nodup := hperm.nodup_iff.mpr (List.Nodup.of_map _ h.betIds)
  obtain ⟨hpageNodup, hnewest⟩ := betHistory_newest hpage hnodup
  refine ⟨_, rfl, fun bet hbet hfeed => ?_⟩
  by_cases hmem : bet ∈ page
  · exact .inl (List.mem_map_of_mem (List.mem_reverse.mpr hmem))
  · obtain ⟨hfull, hnewer⟩ := (hnewest bet (hperm.mem_iff.mpr hbet) hfeed).resolve_left hmem
    have hsub : page ⊆ snap.newerBets feed bet := by
      intro e he
      obtain ⟨hrow, hcarries, htime⟩ := hnewer e he
      have hseen := hperm.mem_iff.mp hrow
      have hne : e.id ≠ bet.id := fun hid =>
        hmem (List.inj_on_of_nodup_map h.betIds hseen hbet hid ▸ he)
      exact List.mem_filter.mpr ⟨hseen, by simp [hcarries, htime, hne]⟩
    have hle := (hpageNodup.subperm hsub).length_le
    rw [hfull] at hle
    exact .inr (Int.toNat_le.mp hle)

theorem Connection.history_awaited {c c' : Connection} {j : Join} {x : Answer}
    (hjoin : c.handling = .joining j) (h : c.step parseUuid (.answer x) = some c')
    (hx : (∃ result, x = .views result) ∨ ∃ result, x = .bets result) : j.stage = .history := by
  simp only [Connection.step, Connection.handleAnswer, hjoin, Connection.answerJoin] at h
  cases hstage : j.stage with
  | history => rfl
  | market id => rcases hx with ⟨result, rfl⟩ | ⟨result, rfl⟩ <;> simp [hstage] at h
  | subscribe topic rest => rcases hx with ⟨result, rfl⟩ | ⟨result, rfl⟩ <;> simp [hstage] at h
  | replay frames =>
    cases frames with
    | nil => simp [hstage] at h
    | cons frame rest => rcases hx with ⟨result, rfl⟩ | ⟨result, rfl⟩ <;> simp [hstage] at h

namespace FeedWorld

theorem Wf.answered (h : w.Wf parseUuid) {j : Join} {x : Answer}
    (hjoin : w.conn.handling = .joining j) (hseen : w.seen = some snap)
    (hx : (∃ result, x = .views result) ∨ ∃ result, x = .bets result)
    (hshows : ∀ frames, snap.Sees w j.heardFrom → j.read x = some (.ok frames) →
      snap.Shows j.name j.channel frames)
    (hstep : w.answer parseUuid snap x = some w') : w'.Wf parseUuid := by
  obtain ⟨c, hc, rfl⟩ := Option.map_eq_some_iff.mp hstep
  have hstage := Connection.history_awaited hjoin hc hx
  have hsees := h.seen j snap hjoin hseen hstage
  refine h.answers (Effect.of_step hc) rfl (fun t ht => ?_) (fun j' frames hj' hreplay => ?_)
    (fun j' frames hj' _ hread => ?_)
  · exact Function.update_of_ne (Nat.ne_of_lt ht) _ _
  · rw [hjoin] at hj'
    cases hj'
    rw [hstage] at hreplay
    cases hreplay
  · rw [hjoin] at hj'
    cases hj'
    rw [Function.update_self]
    exact .inr ⟨hsees, hshows frames hsees hread⟩

/-- The query sees every row that anything was published about. -/
theorem Wf.queried (h : w.Wf parseUuid) :
    { w with seen := some ⟨w.messages.rows, w.bets.rows, w.users.rows⟩ }.Wf parseUuid := by
  have hgrows : w.Grows { w with seen := some ⟨w.messages.rows, w.bets.rows, w.users.rows⟩ } :=
    ⟨fun _ hm => hm, fun bet hbet => ⟨bet, hbet, rfl⟩, List.prefix_refl _⟩
  refine
    { conn := h.conn
      delivering := h.delivering
      authors := h.authors
      wire := fun live hlive => (h.wire live hlive).grows hgrows
      joining := h.joining
      seen := fun j snap hj hsnap _ => ?_
      replaying := fun j frames hj hstage => (h.replaying j frames hj hstage).grows hgrows
      tasks := fun t f hf => (h.tasks t f hf).grows hgrows }
  cases hsnap
  exact
    { bound := h.joining j hj
      messages := fun k _ room b hb => h.wire _ (List.mem_of_getElem? hb)
      bets := fun k _ feed b hb => h.wire _ (List.mem_of_getElem? hb)
      stored := fun _ hm => hm
      placed := fun bet hbet => ⟨bet, hbet, rfl⟩
      ids := w.messages.nodup
      betIds := w.bets.nodup
      authors := h.authors }

theorem kept_bets (w : FeedWorld) : ∀ bet ∈ w.bets.rows, ∃ row ∈ w.bets.rows,
    BetPlacedResponse.ofBet row = BetPlacedResponse.ofBet bet := fun bet hbet => ⟨bet, hbet, rfl⟩

theorem Wf.saveUser (h : w.Wf parseUuid) (user : User) :
    Wf parseUuid { w with users := w.users.upsert user } := by
  refine h.tables ⟨fun _ hm => hm, w.kept_bets, List.prefix_refl _⟩ rfl rfl rfl fun m hm => ?_
  obtain ⟨author, hauthor, hid⟩ := h.authors m hm
  by_cases hsame : author.id = user.id
  · exact ⟨user, Table.mem_upsert.mpr (.inl rfl), hsame.symm.trans hid⟩
  · exact ⟨author, Table.mem_upsert.mpr (.inr ⟨hauthor, hsame⟩), hid⟩

theorem Wf.commitMessage (h : w.Wf parseUuid) {m : ChatMessage}
    (hstep : w.step parseUuid (.commitMessage m) = some w') : w'.Wf parseUuid := by
  simp only [FeedWorld.step] at hstep
  split at hstep <;> cases hstep
  rename_i hok
  have hfresh : w.messages.find? m.id = none := Option.isNone_iff_eq_none.mp hok.1
  have hrows := Table.rows_upsert_fresh hfresh
  refine h.tables ⟨fun _ hm => ?_, w.kept_bets, List.prefix_refl _⟩ rfl rfl rfl fun m' hm' => ?_
  · rw [hrows]
    exact List.mem_append_left _ hm
  · simp only [hrows] at hm'
    rcases List.mem_append.mp hm' with hold | hnew
    · exact h.authors m' hold
    · cases List.mem_singleton.mp hnew
      obtain ⟨author, hauthor⟩ := Option.isSome_iff_exists.mp hok.2
      exact ⟨author, Table.find?_mem hauthor, Table.find?_key hauthor⟩

theorem Wf.commitBet (h : w.Wf parseUuid) {bet : Bet}
    (hstep : w.step parseUuid (.commitBet bet) = some w') : w'.Wf parseUuid := by
  simp only [FeedWorld.step] at hstep
  split at hstep <;> cases hstep
  rename_i hfresh
  refine h.tables ⟨fun _ hm => hm, fun b hb => ⟨b, ?_, rfl⟩, List.prefix_refl _⟩ rfl rfl rfl h.authors
  rw [Table.rows_upsert_fresh (Option.isNone_iff_eq_none.mp hfresh)]
  exact List.mem_append_left _ hb

theorem Wf.settleBet (h : w.Wf parseUuid) {id : BetId} {status : BetStatus} {payout : Option Int}
    (hstep : w.step parseUuid (.settleBet id status payout) = some w') : w'.Wf parseUuid := by
  obtain ⟨bet, hbet, rfl⟩ := Option.map_eq_some_iff.mp hstep
  refine h.tables ⟨fun _ hm => hm, fun b hb => ?_, List.prefix_refl _⟩ rfl rfl rfl h.authors
  by_cases hid : b.id = bet.id
  · have hsame : b = bet := w.bets.eq_of_key hb (Table.find?_mem hbet) hid
    exact ⟨_, Table.mem_upsert.mpr (.inl rfl), by rw [hsame]; rfl⟩
  · exact ⟨b, Table.mem_upsert.mpr (.inr ⟨hb, hid⟩), rfl⟩

theorem Wf.airBet (h : w.Wf parseUuid) {id : BetId} {feed : BetFeed}
    (hstep : w.step parseUuid (.airBet id feed) = some w') : w'.Wf parseUuid := by
  simp only [FeedWorld.step] at hstep
  split at hstep
  · rename_i bet hbet
    split at hstep <;> cases hstep
    refine h.acts (.published _) (by simp) fun live hlive => ?_
    cases hlive
    exact ⟨bet, Table.find?_mem hbet, rfl⟩
  · cases hstep

theorem Wf.query (h : w.Wf parseUuid) (hstep : w.step parseUuid .query = some w') :
    w'.Wf parseUuid := by
  simp only [FeedWorld.step] at hstep
  split at hstep
  · rename_i j hjoin
    split at hstep
    · split at hstep <;> cases hstep
      exact h.queried
    · cases hstep
  · cases hstep

theorem Wf.messages (h : w.Wf parseUuid) {viewer : UserId} {r : HistoryReads}
    (hstep : w.step parseUuid (.messages viewer r) = some w') : w'.Wf parseUuid := by
  simp only [FeedWorld.step] at hstep
  split at hstep
  · rename_i j snap hjoin hseen
    split at hstep
    · rename_i room hroom
      split at hstep
      · rename_i hok
        refine h.answered hjoin hseen (.inl ⟨_, rfl⟩) (fun frames hsees hread => ?_) hstep
        cases hviews : ListRecentMessages.execute r viewer room historyLimit ⟨none, none⟩ with
        | error e => simp [Join.read, hroom, hviews] at hread
        | ok views =>
          simp only [Join.read, hroom, hviews, Option.some.injEq, Except.ok.injEq] at hread
          rw [hroom, ← hread]
          exact hsees.shows_messages j.name hok.1 hok.2 hviews
      · cases hstep
    · cases hstep
  · cases hstep

theorem Wf.bets (h : w.Wf parseUuid) {order : Except RepositoryError (List Bet)}
    (hstep : w.step parseUuid (.bets order) = some w') : w'.Wf parseUuid := by
  simp only [FeedWorld.step] at hstep
  split at hstep
  · rename_i j snap hjoin hseen
    split at hstep
    · rename_i feed rows hfeed
      split at hstep
      · rename_i hperm
        refine h.answered hjoin hseen (.inr ⟨_, rfl⟩) (fun frames hsees hread => ?_) hstep
        cases hpage : betHistory feed rows with
        | error e => simp [Join.read, hfeed, hpage] at hread
        | ok page =>
          simp only [Join.read, hfeed, hpage, Option.some.injEq, Except.ok.injEq] at hread
          rw [hfeed, ← hread]
          exact hsees.shows_bets j.name hperm hpage
      · cases hstep
    · rename_i feed e hfeed
      refine h.answered hjoin hseen (.inr ⟨_, rfl⟩) (fun frames hsees hread => ?_) hstep
      simp [Join.read, hfeed] at hread
    · cases hstep
  · cases hstep

theorem Wf.conned (h : w.Wf parseUuid) {a : WsAct}
    (hstep : w.step parseUuid (.conn a) = some w') : w'.Wf parseUuid := by
  simp only [FeedWorld.step] at hstep
  split at hstep
  · rename_i hfree
    obtain ⟨c, hc, rfl⟩ := Option.map_eq_some_iff.mp hstep
    have heff := Effect.of_step hc
    cases a with
    | answer x =>
      refine h.answers heff rfl (fun _ _ => rfl) (fun _ _ _ _ => rfl) fun j frames hj hstage hread => ?_
      -- The histories of rooms and bet feeds are not answered this way.
      refine .inl ?_
      unfold Join.read at hread
      split at hread
      · cases hfree
      · cases hfree
      · split at hread
        · rename_i marketId _ hchannel
          exact ⟨marketId, hchannel⟩
        · cases hread
        · cases hread
      · cases hread
    | publish live =>
      refine h.acts heff (by simp) fun live' hlive => ?_
      cases hlive
      cases live with
      | message room b => cases hfree
      | bet feed b => cases hfree
      | _ => trivial
    | _ => exact h.acts heff (by simp) (by simp)
  · cases hstep

theorem Wf.step {a : FeedAct} (h : w.Wf parseUuid) (hstep : w.step parseUuid a = some w') :
    w'.Wf parseUuid := by
  cases a with
  | saveUser user =>
    cases hstep
    exact h.saveUser user
  | commitMessage m => exact h.commitMessage hstep
  | commitBet bet => exact h.commitBet hstep
  | settleBet id status payout => exact h.settleBet hstep
  | airMessage id author replyTo =>
    obtain ⟨m, hm, rfl⟩ := Option.map_eq_some_iff.mp hstep
    refine h.acts (.published _) (by simp) fun live hlive => ?_
    cases hlive
    exact ⟨m, Table.find?_mem hm, rfl⟩
  | airBet id feed => exact h.airBet hstep
  | query => exact h.query hstep
  | messages viewer r => exact h.messages hstep
  | bets order => exact h.bets hstep
  | conn a => exact h.conned hstep

theorem init_wf : init.Wf parseUuid where
  conn := Connection.init_wf
  delivering := Connection.init_delivering
  authors m hm := absurd hm List.not_mem_nil
  wire live hlive := absurd hlive List.not_mem_nil
  joining j hj := by cases hj
  seen j snap hj := by cases hj
  replaying j frames hj := by cases hj
  tasks t f hf := by simp [init, Connection.init] at hf

end FeedWorld

/-- A live frame of a task: a payload in its inbox expands to it, or it is further on its way. -/
def Connection.Sends (c : Connection) (t : Nat) (f : Forwarder) (frame : ServerFrame) : Prop :=
  ∃ k, (∃ live, (k, live) ∈ f.inbox ∧ frame ∈ live.frames f.name) ∨
    c.Carries f ⟨frame, some (t, k)⟩

theorem Forwarder.Delivers.sends {c : Connection} {t k : Nat} {f : Forwarder} {live : Live}
    (h : f.Delivers c t) (hk : f.heardFrom ≤ k) (hlive : c.wire[k]? = some live)
    (htopic : live.topic ∈ f.channel.topics) : ∀ frame ∈ live.frames f.name, c.Sends t f frame := by
  intro frame hframe
  rcases h k live hk hlive htopic with hin | hsent
  · exact ⟨k, .inl ⟨live, hin, hframe⟩⟩
  · exact ⟨k, .inr (hsent frame hframe)⟩

def WsAct.forwards (t : Nat) : WsAct → Prop
  | .poll s | .send s | .next s _ => s = t
  | .drain => True
  | _ => False

theorem Connection.Sends.enabled {c : Connection} {t : Nat} {f : Forwarder} {frame : ServerFrame}
    (h : c.Sends t f frame) (hf : c.forwarders[t]? = some f) (ha : f.aborted = false)
    (hidle : c.handling = .idle) : (∃ k, ⟨frame, some (t, k)⟩ ∈ c.written) ∨
      ∃ a : WsAct, a.forwards t ∧ (c.step parseUuid a).isSome = true := by
  cases hqueue : c.queue with
  | cons out rest => exact .inr ⟨.drain, trivial, by simp [Connection.step, hidle, hqueue]⟩
  | nil =>
    cases hpolling : f.polling with
    | false =>
      refine .inr ⟨.poll t, rfl, ?_⟩
      simp [Connection.step, Connection.onForwarder, hf, Forwarder.poll, ha, hpolling]
    | true =>
      cases hpending : f.pending with
      | cons out rest =>
        refine .inr ⟨.send t, rfl, ?_⟩
        simp [Connection.step, Connection.send, hf, hidle, hpolling, hpending, hqueue,
          queueCapacity]
      | nil =>
        obtain ⟨k, ⟨live, hin, -⟩ | hout | hout | hout⟩ := h
        · have hfind : (f.inbox.find? fun x => x.2.topic = live.topic).isSome = true :=
            List.find?_isSome.mpr ⟨(k, live), hin, decide_eq_true rfl⟩
          refine .inr ⟨.next t live.topic, rfl, ?_⟩
          simpa [Connection.step, Connection.onForwarder, hf, Forwarder.next, hpolling, hpending]
            using hfind
        · simp [hpending] at hout
        · simp [hqueue] at hout
        · exact .inl ⟨k, hout⟩

theorem Connection.Sends.written {c : Connection} {t : Nat} {f : Forwarder} {frame : ServerFrame}
    (h : c.Sends t f frame) (hinbox : f.inbox = []) (hpending : f.pending = [])
    (hqueue : c.queue = []) : ∃ k, ⟨frame, some (t, k)⟩ ∈ c.written := by
  obtain ⟨k, ⟨live, hin, -⟩ | hout | hout | hout⟩ := h
  · rw [hinbox] at hin
    cases hin
  · rw [hpending] at hout
    cases hout
  · rw [hqueue] at hout
    cases hout
  · exact ⟨k, hout⟩

namespace FeedWorld

theorem Wf.misses_no_message (h : w.Wf parseUuid) {t : Nat} {f : Forwarder}
    (hf : w.conn.forwarders[t]? = some f) (ha : f.aborted = false) {room : ChatChannel}
    {m : ChatMessage} (hchannel : f.channel = .chat room) (hm : m ∈ w.messages.rows)
    (hroom : m.channel = room) {b : ChatMessageBroadcast} (hb : .message room b ∈ w.conn.wire)
    (hid : b.id = m.id) :
    (∃ views, ⟨.history f.name views, none⟩ ∈ w.conn.written ∧ ∃ v ∈ views, v.message = m) ∨
      (∃ b, b.id = m.id ∧ w.conn.Sends t f (.chatMessage f.name b)) ∨
      (m ∈ (w.reads t).messages ∧ historyLimit ≤ ((w.reads t).newer room m).length) := by
  obtain ⟨k, hk⟩ := List.getElem?_of_mem hb
  by_cases hbefore : k < f.heardFrom
  · rcases h.tasks t f hf with ⟨marketId, hfeed⟩ | ⟨hsees, hshows⟩
    · rw [hchannel] at hfeed
      cases hfeed
    · obtain ⟨m', hm', hid'⟩ := hsees.messages k hbefore room b hk
      have hsame : m' = m := w.messages.eq_of_key (hsees.stored m' hm') hm (hid'.trans hid)
      subst hsame
      rw [hchannel] at hshows
      obtain ⟨views, hviews, hall⟩ := hshows
      rcases hall m' hm' hroom with hview | hold
      · refine .inl ⟨views, h.delivering.replayed t f hf _ ?_, hview⟩
        rw [hviews]
        exact List.mem_cons_self
      · exact .inr (.inr ⟨hm', hold⟩)
  · -- Published after the join subscribed, so the task heard it.
    refine .inr (.inl ⟨b, hid, (h.delivering.tasks t f hf ha).sends (not_lt.mp hbefore) hk ?_ _
      List.mem_cons_self⟩)
    rw [hchannel]
    exact List.mem_cons_self

theorem Wf.misses_no_bet (h : w.Wf parseUuid) {t : Nat} {f : Forwarder}
    (hf : w.conn.forwarders[t]? = some f) (ha : f.aborted = false) {feed : BetFeed} {bet : Bet}
    (hchannel : f.channel = .bets feed) (hbet : bet ∈ w.bets.rows)
    (hfeed : carries feed bet = true) {b : BetPlacedBroadcast} (hb : .bet feed b ∈ w.conn.wire)
    (hid : b.id = bet.id) :
    (∃ data, ⟨.betHistory f.name data, none⟩ ∈ w.conn.written ∧ ∃ d ∈ data, d.id = bet.id) ∨
      (∃ d : BetPlacedResponse, d.id = bet.id ∧ w.conn.Sends t f (.betPlaced f.name d)) ∨
      (∃ seen ∈ (w.reads t).bets, seen.id = bet.id ∧
        historyLimit ≤ ((w.reads t).newerBets feed seen).length) := by
  obtain ⟨k, hk⟩ := List.getElem?_of_mem hb
  by_cases hbefore : k < f.heardFrom
  · rcases h.tasks t f hf with ⟨marketId, hother⟩ | ⟨hsees, hshows⟩
    · rw [hchannel] at hother
      cases hother
    · obtain ⟨seen, hseen, hid'⟩ := hsees.bets k hbefore feed b hk
      obtain ⟨row, hrow, hsame⟩ := hsees.placed seen hseen
      have hrowId : row.id = bet.id :=
        (congrArg BetPlacedResponse.id hsame).trans (hid'.trans hid)
      have hrowBet : row = bet := w.bets.eq_of_key hrow hbet hrowId
      have hmarket : bet.marketId = seen.marketId :=
        hrowBet ▸ congrArg BetPlacedResponse.marketId hsame
      have hcarries : carries feed seen = true := by
        rw [← hfeed]
        cases feed with
        | global => rfl
        | market id => simp [carries, hmarket]
      rw [hchannel] at hshows
      obtain ⟨data, hdata, hall⟩ := hshows
      rcases hall seen hseen hcarries with hshown | hold
      · refine .inl ⟨data, h.delivering.replayed t f hf _ ?_, _, hshown, hid'.trans hid⟩
        rw [hdata]
        exact List.mem_cons_self
      · exact .inr (.inr ⟨seen, hseen, hid'.trans hid, hold⟩)
  · refine .inr (.inl ⟨.ofBroadcast b, hid, (h.delivering.tasks t f hf ha).sends
      (not_lt.mp hbefore) hk ?_ _ List.mem_cons_self⟩)
    rw [hchannel]
    exact List.mem_cons_self

end FeedWorld

namespace Sample

def posted (id : Uuid) : ChatMessage := Betsphere.Sample.said id id.toNat

def aired (id : Uuid) : FeedAct := .airMessage ⟨id⟩ (chatAuthor Betsphere.Sample.carol) none

def history (messages : List ChatMessage) : HistoryReads :=
  InMemoryChatMessageRepository.reads messages [] (fun _ => none)
    fun _ => some Betsphere.Sample.carol

/-- One message before the join, one between its subscriptions and its query, one after. -/
def postsAround : List FeedAct :=
  [.saveUser Betsphere.Sample.carol, .commitMessage (posted 1),
    .conn (.receive (some (.subscribe globalChat))), .conn (.answer (.subscribed (.ok ()))),
    .commitMessage (posted 2), aired 2, .conn (.answer (.subscribed (.ok ()))), .query, aired 1,
    .messages Betsphere.Sample.carol.id (history [posted 1, posted 2]), .conn (.answer .sent),
    .commitMessage (posted 3), aired 3]

def feed (as : List FeedAct) : FeedWorld :=
  (run (FeedWorld.step fun _ => none) .init as).getD .init

end Sample

end

end Betsphere.Ws
