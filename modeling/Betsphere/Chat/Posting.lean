import Betsphere.Chat.History
import Betsphere.Chat.ReactionOrder
import Betsphere.Chat.Routing
set_option autoImplicit false

namespace Betsphere

/-- `PostMessage::execute` between its awaits; a message is built before it is saved. -/
inductive PostPhase where
  | findAuthor
  | findMarket (author : User) (id : MarketId)
  | findQuoted (author : User) (id : MessageId)
  | findQuotedAuthor (author : User) (quoted : ChatMessage)
  | save (author : User) (quoted : Option RepliedMessage) (message : ChatMessage)
  | returned (result : Except ApplicationError ChatMessageView)

structure PostCall where
  authorId : UserId
  channel : ChatChannel
  body : Text
  replyTo : Option MessageId
  phase : PostPhase

structure PostWorld where
  room : ChatWorld
  markets : Table Market.id
  calls : List PostCall

def PostWorld.init : PostWorld := ⟨.init, .empty, []⟩

/-- What one await meets: the copy of the user that the cache has, the clock, and the
identifiers drawn for a message and its event. -/
structure PostEnv where
  cached : Option User
  now : DateTime
  fresh : Uuid
  event : Nat

def PostWorld.reads {κ : Type} [LinearOrder κ] (collate : ReactionEmoji → κ) (w : PostWorld) :
    HistoryReads where
  findMarket := fun id => .ok (w.markets.find? id)
  findById := fun id => .ok (w.room.chat.db.messages.find? id)
  listRecent := listRecentMessages w.room.chat.db.messages.rows
  reactionsFor := fun ids viewer =>
    .ok (PgChatMessageRepository.reactionsFor collate w.room.chat.db.reactions ids viewer)
  findByIds := fun ids => .ok (w.room.chat.db.messages.rows.filter fun m => m.id ∈ ids)
  findUser := fun id => .ok (w.room.chat.db.users.find? id)

def PostEnv.findUser (env : PostEnv) (w : PostWorld) (id : UserId) : Option User :=
  (env.cached.filter fun u => u.id = id).or (w.room.chat.db.users.find? id)

/-- What the INSERT answers when the server cannot take the text, or a constraint fails. -/
def ChatMessage.insertError (db : ChatDb) (message : ChatMessage) : Option RepositoryError :=
  if storable message.body.value = false then some invalidEncoding
  else if (db.messages.find? message.id).isSome then some (duplicateKey "chat_messages_pkey")
  else if (db.users.find? message.authorId).isNone then
    some (missingReference "chat_messages" "chat_messages_author_id_fkey")
  else if message.replyTo.any fun id => (db.messages.find? id).isNone then
    some (missingReference "chat_messages" "chat_messages_reply_to_id_fkey")
  else none

namespace PostMessage

def fail (e : ApplicationError) : PostPhase := .returned (.error e)

def compose (c : PostCall) (env : PostEnv) (author : User) (quoted : Option RepliedMessage) :
    PostPhase :=
  match MessageBody.new c.body with
  | .error e => fail (.domain e)
  | .ok body =>
    .save author quoted ⟨⟨env.fresh⟩, c.authorId, c.channel, body, c.replyTo, env.now⟩

def onRoom (c : PostCall) (env : PostEnv) (author : User) : PostPhase :=
  match c.replyTo with
  | some id => .findQuoted author id
  | none => compose c env author none

/-- Whatever was wrong with the quoted message, it is unknown. -/
def unknown (id : MessageId) : PostPhase := fail (.notFound ("message " ++ displayUuid id.uuid))

def read (c : PostCall) (env : PostEnv) (w : PostWorld) : PostPhase → PostPhase
  | .findAuthor =>
    match env.findUser w c.authorId with
    | none => fail (.notFound ("user " ++ toString c.authorId))
    | some author =>
      match c.channel with
      | .market id => .findMarket author id
      | .global => onRoom c env author
  | .findMarket author id =>
    match w.markets.find? id with
    | none => fail (.notFound ("market " ++ toString id))
    | some _ => onRoom c env author
  | .findQuoted author id =>
    match (w.room.chat.db.messages.find? id).filter fun message => message.channel = c.channel with
    | none => unknown id
    | some message => .findQuotedAuthor author message
  | .findQuotedAuthor author message =>
    match env.findUser w message.authorId with
    | none => unknown message.id
    | some user => compose c env author (some ⟨message, user⟩)
  | phase => phase

end PostMessage

namespace PostWorld

def setPhase (w : PostWorld) (i : Nat) (c : PostCall) (phase : PostPhase) : PostWorld :=
  { w with calls := w.calls.set i { c with phase } }

/-- The transaction of `save`: the row and its event appear together. -/
def saveMessage (w : PostWorld) (i : Nat) (c : PostCall) (env : PostEnv) (author : User)
    (quoted : Option RepliedMessage) (message : ChatMessage) :
    Option (PostWorld × List (Nat × String × Payload)) :=
  match message.insertError w.room.chat.db with
  | some e => some (w.setPhase i c (PostMessage.fail (.ofRepository e)), [])
  | none =>
    ((ChatAct.post message env.event).transact w.room).map fun r =>
      ({ w.setPhase i c (.returned (.ok ⟨message, author, quoted, []⟩)) with room := r.1 }, r.2)

end PostWorld

inductive PostAct where
  | call (authorId : UserId) (channel : ChatChannel) (body : Text) (replyTo : Option MessageId)
  | step (i : Nat) (env : PostEnv)
  | fail (i : Nat) (message : String)
  | saveMarket (market : Market)
  | other (a : ChatAct)

def PostAct.transact (a : PostAct) (w : PostWorld) :
    Option (PostWorld × List (Nat × String × Payload)) :=
  match a with
  | .call authorId channel body replyTo =>
    some ({ w with calls := w.calls ++ [⟨authorId, channel, body, replyTo, .findAuthor⟩] }, [])
  | .step i env =>
    match w.calls[i]? with
    | none => none
    | some c =>
      match c.phase with
      | .returned _ => none
      | .save author quoted message => w.saveMessage i c env author quoted message
      | phase => some (w.setPhase i c (PostMessage.read c env w phase), [])
  | .fail i message =>
    match w.calls[i]? with
    | none => none
    | some c =>
      match c.phase with
      | .returned _ => none
      | _ => some (w.setPhase i c (PostMessage.fail (.internal message)), [])
  | .saveMarket market => some ({ w with markets := w.markets.upsert market }, [])
  | .other (.post _ _) => none
  | .other a => (a.transact w.room).map fun r => ({ w with room := r.1 }, r.2)

def postService : Service PostWorld PostAct ChatAwait Payload ChatPhase where
  transact := PostAct.transact
  registry := chatService.registry
  step := fun x w phase =>
    let r := phase.step x w.room
    ({ w with room := r.1 }, r.2)

inductive PostWorld.Effect (w : PostWorld) :
    PostWorld → List (Nat × String × Payload) → Prop where
  | called (authorId : UserId) (channel : ChatChannel) (body : Text) (replyTo : Option MessageId) :
      Effect w { w with calls := w.calls ++ [⟨authorId, channel, body, replyTo, .findAuthor⟩] } []
  | moved (i : Nat) (c : PostCall) (phase : PostPhase) (hc : w.calls[i]? = some c)
      (hphase : (∃ env, phase = PostMessage.read c env w c.phase) ∨
        ∃ e, phase = PostMessage.fail e) : Effect w (w.setPhase i c phase) []
  | saved (i : Nat) (c : PostCall) (author : User) (quoted : Option RepliedMessage)
      (message : ChatMessage) (event : Nat) (hc : w.calls[i]? = some c)
      (hphase : c.phase = .save author quoted message)
      (hnew : w.room.chat.db.messages.find? message.id = none) (room : ChatWorld)
      (events : List (Nat × String × Payload))
      (hroom : (ChatAct.post message event).transact w.room = some (room, events)) :
      Effect w { w.setPhase i c (.returned (.ok ⟨message, author, quoted, []⟩)) with room } events
  | marketSaved (market : Market) : Effect w { w with markets := w.markets.upsert market } []
  | other (a : ChatAct) (hpost : ∀ message event, a ≠ .post message event) (room : ChatWorld)
      (events : List (Nat × String × Payload)) (hroom : a.transact w.room = some (room, events)) :
      Effect w { w with room } events

theorem ChatMessage.insertError_none {db : ChatDb} {message : ChatMessage}
    (h : message.insertError db = none) : db.messages.find? message.id = none := by
  unfold insertError at h
  cases hfind : db.messages.find? message.id with
  | none => rfl
  | some m =>
    rw [hfind] at h
    split at h <;> cases h

theorem PostWorld.saveMessage_effect {w w' : PostWorld} {i : Nat} {c : PostCall} {env : PostEnv}
    {author : User} {quoted : Option RepliedMessage} {message : ChatMessage}
    {events : List (Nat × String × Payload)} (hc : w.calls[i]? = some c)
    (hphase : c.phase = .save author quoted message)
    (h : w.saveMessage i c env author quoted message = some (w', events)) :
    w.Effect w' events := by
  unfold saveMessage at h
  cases he : message.insertError w.room.chat.db with
  | some e =>
    rw [he] at h
    cases h
    exact .moved i c _ hc (.inr ⟨_, rfl⟩)
  | none =>
    rw [he] at h
    obtain ⟨r, hr, heq⟩ := Option.map_eq_some_iff.mp h
    cases heq
    exact .saved i c author quoted message env.event hc hphase
      (ChatMessage.insertError_none he) r.1 r.2 hr

theorem PostAct.other_cases {a : ChatAct} {w w' : PostWorld}
    {events : List (Nat × String × Payload)}
    (h : (PostAct.other a).transact w = some (w', events)) :
    (∀ message event, a ≠ .post message event) ∧
      ∃ room, a.transact w.room = some (room, events) ∧ w' = { w with room } := by
  by_cases hpost : ∃ message event, a = .post message event
  · obtain ⟨message, event, rfl⟩ := hpost
    simp [PostAct.transact] at h
  · have hother : (PostAct.other a).transact w =
        (a.transact w.room).map fun r => ({ w with room := r.1 }, r.2) := by
      cases a with
      | post message event => exact absurd ⟨message, event, rfl⟩ hpost
      | _ => rfl
    obtain ⟨r, hr, heq⟩ := Option.map_eq_some_iff.mp (hother.symm.trans h)
    cases heq
    exact ⟨fun message event ha => hpost ⟨message, event, ha⟩, r.1, hr, rfl⟩

theorem PostAct.transact_effect {a : PostAct} {w w' : PostWorld}
    {events : List (Nat × String × Payload)} (h : a.transact w = some (w', events)) :
    w.Effect w' events := by
  cases a with
  | call authorId channel body replyTo =>
    cases h
    exact .called authorId channel body replyTo
  | step i env =>
    cases hc : w.calls[i]? with
    | none => simp [PostAct.transact, hc] at h
    | some c =>
      simp only [PostAct.transact, hc] at h
      cases hphase : c.phase with
      | returned result => simp [hphase] at h
      | save author quoted message =>
        rw [hphase] at h
        exact PostWorld.saveMessage_effect hc hphase h
      | _ =>
        rw [hphase] at h
        cases h
        exact .moved i c _ hc (.inl ⟨env, by rw [hphase]⟩)
  | fail i message =>
    cases hc : w.calls[i]? with
    | none => simp [PostAct.transact, hc] at h
    | some c =>
      simp only [PostAct.transact, hc] at h
      split at h
      · simp at h
      · cases h
        exact .moved i c _ hc (.inr ⟨_, rfl⟩)
  | saveMarket market =>
    cases h
    exact .marketSaved market
  | other a =>
    obtain ⟨hpost, room, hroom, rfl⟩ := PostAct.other_cases h
    exact .other a hpost room events hroom

theorem Chat.step_messages {s s' : Chat} {a : ChatAct} {events : List (Nat × String × Payload)}
    (hpost : ∀ message event, a ≠ .post message event) (h : s.step a = some (s', events)) :
    s'.db.messages = s.db.messages := by
  cases a with
  | post message event => exact absurd rfl (hpost message event)
  | saveUser user =>
    cases h
    rfl
  | begin added key now =>
    cases h
    rfl
  | step i id =>
    cases hc : s.calls[i]? with
    | none => simp [Chat.step, hc] at h
    | some c =>
      simp only [Chat.step, hc] at h
      unfold Chat.stepCall at h
      split at h
      · obtain ⟨t, ht, heq⟩ := Option.map_eq_some_iff.mp h
        cases heq
        split at ht
        · unfold Chat.insertReaction at ht
          grind [Chat.setPhase]
        · unfold Chat.deleteReaction at ht
          grind [Chat.setPhase]
      · split at h
        · cases h
          rfl
        · simp at h
      · cases h
        rfl
      · cases h
        rfl
      · simp at h
  | fail i message =>
    cases hc : s.calls[i]? with
    | none => simp [Chat.step, hc] at h
    | some c =>
      simp only [Chat.step, hc] at h
      split at h
      · simp at h
      · cases h
        rfl
  | other foreign =>
    simp only [Chat.step] at h
    split at h
    · cases h
      rfl
    · simp at h

section Rooms
variable {w w' : ChatWorld} {events : List (Nat × String × Payload)}

theorem ChatAct.post_messages {message : ChatMessage} {event : Nat}
    (h : (ChatAct.post message event).transact w = some (w', events)) :
    w'.chat.db.messages = w.chat.db.messages.upsert message ∧ w'.messages = w.messages := by
  obtain ⟨r, hr, heq⟩ := Option.map_eq_some_iff.mp h
  cases heq
  simp only [Chat.step] at hr
  split at hr
  · cases hr
    exact ⟨rfl, rfl⟩
  · simp at hr

theorem ChatAct.other_messages {a : ChatAct} (hpost : ∀ message event, a ≠ .post message event)
    (h : a.transact w = some (w', events)) :
    w'.chat.db.messages = w.chat.db.messages ∧ w'.messages = w.messages := by
  obtain ⟨r, hr, heq⟩ := Option.map_eq_some_iff.mp h
  cases heq
  exact ⟨Chat.step_messages hpost hr, rfl⟩

end Rooms

def PostAct.commits (w : PostWorld) : PostAct → Option ChatMessage
  | .step i _ =>
    match w.calls[i]?.map PostCall.phase with
    | some (.save _ _ message) =>
      if (message.insertError w.room.chat.db).isNone then some message else none
    | _ => none
  | _ => none

theorem PostAct.transact_rows {w w' : PostWorld} {a : PostAct}
    {events : List (Nat × String × Payload)} (h : a.transact w = some (w', events)) :
    w'.room.chat.db.messages.rows = w.room.chat.db.messages.rows ++ (a.commits w).toList ∧
      ∀ m, a.commits w = some m → w.room.chat.db.messages.find? m.id = none := by
  have hsame : a.commits w = none →
      w'.room.chat.db.messages.rows = w.room.chat.db.messages.rows →
      w'.room.chat.db.messages.rows = w.room.chat.db.messages.rows ++ (a.commits w).toList ∧
        ∀ m, a.commits w = some m → w.room.chat.db.messages.find? m.id = none := by
    intro hnone hrows
    simp [hnone, hrows]
  cases a with
  | call authorId channel body replyTo =>
    cases h
    exact hsame rfl rfl
  | step i env =>
    cases hc : w.calls[i]? with
    | none => simp [PostAct.transact, hc] at h
    | some c =>
      simp only [PostAct.transact, hc] at h
      cases hphase : c.phase with
      | returned result => simp [hphase] at h
      | save author quoted message =>
        simp only [hphase, PostWorld.saveMessage] at h
        cases he : message.insertError w.room.chat.db with
        | some e =>
          rw [he] at h
          cases h
          exact hsame (by simp [commits, hc, hphase, he]) rfl
        | none =>
          have hcommits : (PostAct.step i env).commits w = some message := by
            simp [commits, hc, hphase, he]
          have hnew := ChatMessage.insertError_none he
          rw [he] at h
          obtain ⟨r, hr, heq⟩ := Option.map_eq_some_iff.mp h
          cases heq
          rw [hcommits]
          refine ⟨?_, fun m hm => ?_⟩
          · change r.1.chat.db.messages.rows = _
            rw [(ChatAct.post_messages hr).1, Table.rows_upsert_fresh hnew, Option.toList_some]
          · cases hm
            exact hnew
      | _ =>
        rw [hphase] at h
        cases h
        exact hsame (by simp [commits, hc, hphase]) rfl
  | fail i message =>
    cases hc : w.calls[i]? with
    | none => simp [PostAct.transact, hc] at h
    | some c =>
      simp only [PostAct.transact, hc] at h
      split at h
      · simp at h
      · cases h
        exact hsame rfl rfl
  | saveMarket market =>
    cases h
    exact hsame rfl rfl
  | other b =>
    obtain ⟨hpost, room, hroom, rfl⟩ := PostAct.other_cases h
    exact hsame rfl (congrArg Table.rows (ChatAct.other_messages hpost hroom).1)

theorem PostWorld.pagesOf {κ : Type} [LinearOrder κ] (collate : ReactionEmoji → κ) (w : PostWorld)
    (channel : ChatChannel) {limit : Int} (hlimit : 0 ≤ limit) :
    PagesOf (ListRecentMessages.page (w.reads collate) channel limit)
      (roomOf channel w.room.chat.db.messages.rows) limit.toNat := by
  have hids := w.room.chat.db.messages.nodup
  have hanchor : ∀ m ∈ roomOf channel w.room.chat.db.messages.rows,
      ListRecentMessages.anchorOf (w.reads collate) channel m.id = .ok (.of m) := by
    intro m hm
    obtain ⟨hstored, hchannel⟩ := mem_roomOf.mp hm
    exact anchorOf_stored (congrArg Except.ok (Table.find?_of_mem hstored)) hchannel
  have hrising := roomOf_rising channel hids
  have hpage : ∀ cursor messages,
      listRecentMessages w.room.chat.db.messages.rows channel limit cursor = .ok messages →
      orInternal ((w.reads collate).listRecent channel limit cursor) = .ok messages := by
    intro cursor messages h
    exact congrArg orInternal h
  refine ⟨?_, fun pre m post hroom => ?_, fun pre m post hroom => ?_⟩
  · exact hpage none _ (query_newest hids (List.Perm.refl _) hlimit)
  · have hm : m ∈ roomOf channel w.room.chat.db.messages.rows := by simp [hroom]
    have holder : Keyset.older ChatMessage.key m.key
        (roomOf channel w.room.chat.db.messages.rows) = pre := by
      rw [hroom] at hrising ⊢
      exact Keyset.older_split hrising
    simp only [ListRecentMessages.page, ListRecentMessages.resolveCursor, hanchor m hm]
    refine hpage (some (.before (.of m))) _ ?_
    rw [query_before hids (List.Perm.refl _) hlimit, ← holder]
    rfl
  · have hm : m ∈ roomOf channel w.room.chat.db.messages.rows := by simp [hroom]
    have hnewer : Keyset.newer ChatMessage.key m.key
        (roomOf channel w.room.chat.db.messages.rows) = post := by
      rw [hroom] at hrising ⊢
      exact Keyset.newer_split hrising
    simp only [ListRecentMessages.page, ListRecentMessages.resolveCursor, hanchor m hm]
    refine hpage (some (.after (.of m))) _ ?_
    rw [query_after hids (List.Perm.refl _) hlimit, ← hnewer]
    rfl

end Betsphere
