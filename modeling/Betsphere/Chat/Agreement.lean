import Betsphere.Chat.Posting
set_option autoImplicit false

namespace Betsphere

/-- What a server keeps beside its store of messages. -/
structure Lobby where
  users : Table User.id
  markets : Table Market.id

structure ChatStore (σ : Type) where
  findById : σ → MessageId → Except RepositoryError (Option ChatMessage)
  findByIds : σ → List MessageId → Except RepositoryError (List ChatMessage)
  listRecent : σ → ChatChannel → Int → Option MessageCursor →
    Except RepositoryError (List ChatMessage)
  reactionsFor : σ → List MessageId → UserId →
    Except RepositoryError (MessageId → Option (List ReactionTally))
  save : Lobby → ChatMessage → σ → Except RepositoryError Unit × σ
  react : Lobby → DateTime → ReactionOp → σ → Except RepositoryError Bool × σ

def ChatStore.reads {σ : Type} (store : ChatStore σ) (lobby : Lobby) (s : σ) : HistoryReads where
  findMarket := fun id => .ok (lobby.markets.find? id)
  findById := store.findById s
  listRecent := store.listRecent s
  reactionsFor := store.reactionsFor s
  findByIds := store.findByIds s
  findUser := fun id => .ok (lobby.users.find? id)

def ReactionOp.key : ReactionOp → ReactionKey
  | .add r => r
  | .remove r => r

def ReactionOp.added : ReactionOp → Bool
  | .add _ => true
  | .remove _ => false

def ReactionOp.event (op : ReactionOp) : Payload :=
  .reactionChanged op.key.messageId op.key.userId op.key.emoji.value op.added

/-- The vectors behind `InMemoryChatMessageRepository`, and what it dispatched. -/
structure ChatMem where
  messages : List ChatMessage
  reactions : List ReactionKey
  events : List Payload

def ChatMem.empty : ChatMem := ⟨[], [], []⟩

namespace InMemoryChatMessageRepository

def store : ChatStore ChatMem where
  findById := fun s id => .ok (s.messages.find? fun m => m.id = id)
  findByIds := fun s ids => .ok (s.messages.filter fun m => m.id ∈ ids)
  listRecent := fun s channel limit cursor => .ok (listRecent s.messages channel limit cursor)
  reactionsFor := fun s ids viewer => .ok (reactionsFor s.reactions ids viewer)
  save := fun _ m s =>
    (.ok (), { s with messages := s.messages ++ [m], events := s.events ++ [.messagePosted m.id] })
  react := fun _ _ op s =>
    let (reactions, changed) := react s.reactions op
    (.ok changed,
      { s with reactions, events := s.events ++ if changed then [op.event] else [] })

end InMemoryChatMessageRepository

/-- The tables behind `PgChatMessageRepository`, and what is in the outbox. -/
structure ChatTables where
  messages : Table ChatMessage.id
  reactions : Table Reaction.key
  outbox : List Payload

def ChatTables.empty : ChatTables := ⟨.empty, .empty, []⟩

namespace PgChatMessageRepository

def constraintError (lobby : Lobby) (t : ChatTables) (m : ChatMessage) : Option RepositoryError :=
  match m.insertError ⟨lobby.users, t.messages, t.reactions⟩ with
  | some e => some e
  | none =>
    if m.channel.marketId.any fun id => (lobby.markets.find? id).isNone then
      some (missingReference "chat_messages" "chat_messages_market_id_fkey")
    else none

/-- The INSERT of a message. Its values are taken one by one before a constraint is looked
at; the row keeps the time in microseconds. -/
def insert (lobby : Lobby) (t : ChatTables) (m : ChatMessage) :
    Except RepositoryError ChatMessage :=
  if storable m.body.value = false then .error invalidEncoding
  else
    match Timestamptz.encode m.createdAt with
    | .error e => .error e
    | .ok micros =>
      match constraintError lobby t m with
      | some e => .error e
      | none => .ok { m with createdAt := 1000 * micros }

def reactError (lobby : Lobby) (t : ChatTables) : ReactionOp → Option RepositoryError
  | .add r =>
    if (t.reactions.find? r).isSome then none
    else if (t.messages.find? r.messageId).isNone then
      some (missingReference "chat_message_reactions" "chat_message_reactions_message_id_fkey")
    else if (lobby.users.find? r.userId).isNone then
      some (missingReference "chat_message_reactions" "chat_message_reactions_user_id_fkey")
    else none
  | .remove _ => none

/-- Texts are ordered by `collate`; `scan` is the order of a query without one. -/
def store {κ : Type} [LinearOrder κ] (collate : ReactionEmoji → κ)
    (scan : List ChatMessage → List ChatMessage) : ChatStore ChatTables where
  findById := fun t id => .ok (t.messages.find? id)
  findByIds := fun t ids => .ok (scan (t.messages.rows.filter fun m => m.id ∈ ids))
  listRecent := fun t => listRecentMessages (scan t.messages.rows)
  reactionsFor := fun t ids viewer => .ok (reactionsFor collate t.reactions ids viewer)
  save := fun lobby m t =>
    match insert lobby t m with
    | .error e => (.error e, t)
    | .ok row => (.ok (), { t with
        messages := t.messages.upsert row
        outbox := t.outbox ++ [.messagePosted m.id] })
  react := fun lobby now op t =>
    match reactError lobby t op with
    | some e => (.error e, t)
    | none =>
      let (reactions, changed) := react t.reactions op now
      (.ok changed,
        { t with reactions, outbox := t.outbox ++ if changed then [op.event] else [] })

end PgChatMessageRepository

namespace PostMessage

/-- `PostMessage::quoted`. -/
def quoted (r : HistoryReads) (id : MessageId) (channel : ChatChannel) :
    Except ApplicationError RepliedMessage := do
  match (← orInternal (r.findById id)).filter fun message => message.channel = channel with
  | none => .error (.notFound ("message " ++ displayUuid id.uuid))
  | some message =>
    match ← orInternal (r.findUser message.authorId) with
    | none => .error (.notFound ("message " ++ displayUuid id.uuid))
    | some author => .ok ⟨message, author⟩

def quotedOf (r : HistoryReads) (channel : ChatChannel) :
    Option MessageId → Except ApplicationError (Option RepliedMessage)
  | some id => (quoted r id channel).map some
  | none => .ok none

/-- Everything before the message is saved. -/
def prepare (r : HistoryReads) (authorId : UserId) (channel : ChatChannel) (body : Text)
    (replyTo : Option MessageId) (fresh : Uuid) (now : DateTime) :
    Except ApplicationError (User × Option RepliedMessage × ChatMessage) := do
  match ← orInternal (r.findUser authorId) with
  | none => .error (.notFound ("user " ++ toString authorId))
  | some author =>
    ListRecentMessages.findRoom r channel
    let quoted ← quotedOf r channel replyTo
    match MessageBody.new body with
    | .error e => .error (.domain e)
    | .ok body => .ok (author, quoted, ⟨⟨fresh⟩, authorId, channel, body, replyTo, now⟩)

variable {σ : Type}

def execute (store : ChatStore σ) (lobby : Lobby) (authorId : UserId) (channel : ChatChannel)
    (body : Text) (replyTo : Option MessageId) (fresh : Uuid) (now : DateTime) (s : σ) :
    Except ApplicationError ChatMessageView × σ :=
  match prepare (store.reads lobby s) authorId channel body replyTo fresh now with
  | .error e => (.error e, s)
  | .ok (author, quoted, message) =>
    match store.save lobby message s with
    | (.error e, s) => (.error (.ofRepository e), s)
    | (.ok (), s) => (.ok ⟨message, author, quoted, []⟩, s)

end PostMessage

namespace ReactToMessage

def resolve (r : HistoryReads) (messageId : MessageId) (emoji : Text) :
    Except ApplicationError ReactionEmoji :=
  match ReactionEmoji.new emoji with
  | .error e => .error (.domain e)
  | .ok emoji => do
    match ← orInternal (r.findById messageId) with
    | none => .error (.notFound ("message " ++ displayUuid messageId.uuid))
    | some _ => .ok emoji

variable {σ : Type}

/-- What `add` and `remove` share: `op` is the call of the repository. -/
def execute (store : ChatStore σ) (lobby : Lobby) (op : ReactionKey → ReactionOp) (userId : UserId)
    (messageId : MessageId) (emoji : Text) (now : DateTime) (s : σ) :
    Except ApplicationError Bool × σ :=
  match resolve (store.reads lobby s) messageId emoji with
  | .error e => (.error e, s)
  | .ok emoji =>
    match store.react lobby now (op ⟨messageId, userId, emoji⟩) s with
    | (.error e, s) => (.error (.ofRepository e), s)
    | (.ok changed, s) => (.ok changed, s)

def add (store : ChatStore σ) (lobby : Lobby) (userId : UserId) (messageId : MessageId)
    (emoji : Text) (now : DateTime) (s : σ) : Except ApplicationError Bool × σ :=
  execute store lobby .add userId messageId emoji now s

def remove (store : ChatStore σ) (lobby : Lobby) (userId : UserId) (messageId : MessageId)
    (emoji : Text) (now : DateTime) (s : σ) : Except ApplicationError Bool × σ :=
  execute store lobby .remove userId messageId emoji now s

end ReactToMessage

/-- A request, with the identifier and the time it draws: a message has its time in
nanoseconds from the clock of the server, a reaction from that of the database. The last two
are what other use cases do to the users and the markets. -/
inductive ChatRequest where
  | post (authorId : UserId) (channel : ChatChannel) (body : Text) (replyTo : Option MessageId)
      (fresh : Uuid) (now : Nanos)
  | addReaction (userId : UserId) (messageId : MessageId) (emoji : Text) (now : DateTime)
  | removeReaction (userId : UserId) (messageId : MessageId) (emoji : Text) (now : DateTime)
  | history (viewer : UserId) (channel : ChatChannel) (limit : Int) (window : HistoryWindow)
  | userSaved (user : User)
  | marketSaved (market : Market)

inductive ChatReply where
  | posted (result : Except ApplicationError ChatMessageView)
  | reacted (result : Except ApplicationError Bool)
  | page (result : Except ApplicationError (List ChatMessageView))
  | saved

section Serving
variable {σ : Type}

def ChatRequest.serve (store : ChatStore σ) (lobby : Lobby) (s : σ) :
    ChatRequest → ChatReply × Lobby × σ
  | .post authorId channel body replyTo fresh now =>
    let (result, s) := PostMessage.execute store lobby authorId channel body replyTo fresh now s
    (.posted result, lobby, s)
  | .addReaction userId messageId emoji now =>
    let (result, s) := ReactToMessage.add store lobby userId messageId emoji now s
    (.reacted result, lobby, s)
  | .removeReaction userId messageId emoji now =>
    let (result, s) := ReactToMessage.remove store lobby userId messageId emoji now s
    (.reacted result, lobby, s)
  | .history viewer channel limit window =>
    (.page (ListRecentMessages.execute (store.reads lobby s) viewer channel limit window), lobby, s)
  | .userSaved user => (.saved, { lobby with users := lobby.users.upsert user }, s)
  | .marketSaved market => (.saved, { lobby with markets := lobby.markets.upsert market }, s)

def converse (store : ChatStore σ) : List ChatRequest → Lobby → σ → List ChatReply × Lobby × σ
  | [], lobby, s => ([], lobby, s)
  | request :: requests, lobby, s =>
    let (reply, lobby, s) := request.serve store lobby s
    let (replies, lobby, s) := converse store requests lobby s
    (reply :: replies, lobby, s)

end Serving

section Awaits
variable {κ : Type} [LinearOrder κ] (collate : ReactionEmoji → κ) (c : PostCall) (env : PostEnv)
  (w : PostWorld)

def PostEnv.reads : HistoryReads :=
  { w.reads collate with findUser := fun id => .ok (env.findUser w id) }

def PostPhase.ofPrepared :
    Except ApplicationError (User × Option RepliedMessage × ChatMessage) → PostPhase
  | .error e => PostMessage.fail e
  | .ok (author, quoted, message) => .save author quoted message

namespace PostMessage

def composed (author : User) (quoted : Option RepliedMessage) :
    Except ApplicationError (User × Option RepliedMessage × ChatMessage) :=
  match MessageBody.new c.body with
  | .error e => .error (.domain e)
  | .ok body =>
    .ok (author, quoted, ⟨⟨env.fresh⟩, c.authorId, c.channel, body, c.replyTo, env.now⟩)

theorem read_fail (e : ApplicationError) (n : Nat) : (read c env w)^[n] (fail e) = fail e :=
  Function.iterate_fixed rfl n

theorem read_compose (author : User) (quoted : Option RepliedMessage) (n : Nat) :
    (read c env w)^[n] (compose c env author quoted) = .ofPrepared (composed c env author quoted) := by
  have hstay : read c env w (compose c env author quoted) = compose c env author quoted := by
    unfold compose
    split <;> rfl
  have hfixed : (read c env w)^[n] (compose c env author quoted) = compose c env author quoted :=
    Function.iterate_fixed hstay n
  rw [hfixed, compose, composed]
  cases MessageBody.new c.body <;> rfl

theorem read_onRoom (author : User) (n : Nat) :
    (read c env w)^[n + 2] (onRoom c env author) =
      .ofPrepared (do
        composed c env author (← quotedOf (env.reads collate w) c.channel c.replyTo)) := by
  cases hreply : c.replyTo with
  | none =>
    simp only [onRoom, hreply, quotedOf, read_compose]
    rfl
  | some id =>
    simp only [onRoom, hreply, quotedOf]
    rw [Function.iterate_succ_apply]
    cases hm : (w.room.chat.db.messages.find? id).filter
        fun message => message.channel = c.channel with
    | none =>
      have hq : quoted (env.reads collate w) id c.channel =
          .error (.notFound ("message " ++ displayUuid id.uuid)) := by
        simp only [quoted, PostEnv.reads, PostWorld.reads, orInternal, Except.mapError, bind,
          Except.bind, hm]
      simp only [read, hm, hq, unknown, read_fail, Except.map]
      rfl
    | some message =>
      have hid : message.id = id := Table.find?_key (Option.filter_eq_some_iff.mp hm).1
      rw [Function.iterate_succ_apply]
      simp only [read, hm]
      cases hu : env.findUser w message.authorId with
      | none =>
        have hq : quoted (env.reads collate w) id c.channel =
            .error (.notFound ("message " ++ displayUuid id.uuid)) := by
          simp only [quoted, PostEnv.reads, PostWorld.reads, orInternal, Except.mapError, bind,
            Except.bind, hm, hu]
        simp only [hq, unknown, hid, read_fail, Except.map]
        rfl
      | some user =>
        have hq : quoted (env.reads collate w) id c.channel = .ok ⟨message, user⟩ := by
          simp only [quoted, PostEnv.reads, PostWorld.reads, orInternal, Except.mapError, bind,
            Except.bind, hm, hu]
        simp only [hq, read_compose, Except.map]
        rfl

/-- The awaits of a post between which nothing else happens read what `prepare` reads. -/
theorem read_prepare : (read c env w)^[4] .findAuthor =
    .ofPrepared (prepare (env.reads collate w) c.authorId c.channel c.body c.replyTo env.fresh
      env.now) := by
  rw [Function.iterate_succ_apply]
  cases hu : env.findUser w c.authorId with
  | none =>
    have hp : prepare (env.reads collate w) c.authorId c.channel c.body c.replyTo env.fresh
        env.now = .error (.notFound ("user " ++ toString c.authorId)) := by
      simp only [prepare, PostEnv.reads, orInternal, Except.mapError, bind, Except.bind, hu]
    simp only [read, hu, hp, read_fail]
    rfl
  | some author =>
    have hauthor : orInternal ((env.reads collate w).findUser c.authorId) = .ok (some author) := by
      simp only [PostEnv.reads, orInternal, Except.mapError, hu]
    have hrest : ∀ n, ListRecentMessages.findRoom (env.reads collate w) c.channel = .ok () →
        (read c env w)^[n + 2] (onRoom c env author) = .ofPrepared (prepare (env.reads collate w)
          c.authorId c.channel c.body c.replyTo env.fresh env.now) := by
      intro n hfound
      rw [read_onRoom collate, prepare, hauthor]
      simp only [bind, Except.bind, hfound]
      rfl
    cases hc : c.channel with
    | global =>
      rw [hc] at hrest
      have hnext : read c env w .findAuthor = onRoom c env author := by
        simp only [read, hu, hc]
      rw [hnext]
      exact hrest 1 rfl
    | market id =>
      rw [hc] at hrest
      have hnext : read c env w .findAuthor = .findMarket author id := by
        simp only [read, hu, hc]
      rw [hnext, Function.iterate_succ_apply]
      cases hm : w.markets.find? id with
      | none =>
        have hfound : ListRecentMessages.findRoom (env.reads collate w) (.market id) =
            .error (.notFound ("market " ++ toString id)) := by
          simp only [ListRecentMessages.findRoom, PostEnv.reads, PostWorld.reads, orInternal,
            Except.mapError, bind, Except.bind, hm]
        simp only [read, hm, prepare, hauthor, bind, Except.bind, hfound, read_fail]
        rfl
      | some market =>
        have hfound : ListRecentMessages.findRoom (env.reads collate w) (.market id) = .ok () := by
          simp only [ListRecentMessages.findRoom, PostEnv.reads, PostWorld.reads, orInternal,
            Except.mapError, bind, Except.bind, hm]
        have hroom : read c env w (.findMarket author id) = onRoom c env author := by
          simp only [read, hm]
        rw [hroom]
        exact hrest 0 hfound

end PostMessage

end Awaits

/-- A message gets an identifier of its own, a text and a time that the columns hold as they
are; whoever reacts has an account and does so after all earlier reactions; and the page size
is that of a route. -/
def ChatRequest.Proper (lobby : Lobby) (t : ChatTables) : ChatRequest → Prop
  | .post _ _ body _ fresh now =>
    t.messages.find? ⟨fresh⟩ = none ∧ storable body = true ∧ Timestamptz.Exact now
  | .addReaction userId _ _ now =>
    (lobby.users.find? userId).isSome ∧ ∀ r ∈ t.reactions.rows, r.createdAt < now
  | .history _ _ limit _ => 0 ≤ limit
  | _ => True

instance decidableProper (lobby : Lobby) (t : ChatTables) :
    (request : ChatRequest) → Decidable (request.Proper lobby t)
  | .post _ _ body _ fresh now => inferInstanceAs (Decidable (t.messages.find? ⟨fresh⟩ = none ∧
      storable body = true ∧ Timestamptz.Exact now))
  | .addReaction userId _ _ now => inferInstanceAs (Decidable ((lobby.users.find? userId).isSome ∧
      ∀ r ∈ t.reactions.rows, r.createdAt < now))
  | .removeReaction .. => isTrue trivial
  | .history _ _ limit _ => inferInstanceAs (Decidable (0 ≤ limit))
  | .userSaved _ => isTrue trivial
  | .marketSaved _ => isTrue trivial

/-- The vectors hold the rows of the tables, and both announced the same. -/
structure ChatTables.HeldBy (t : ChatTables) (m : ChatMem) : Prop where
  messages : m.messages = t.messages.rows
  reactions : m.reactions = t.reactions.rows.map Reaction.key
  rising : t.reactions.rows.Pairwise fun r q => r.createdAt < q.createdAt
  events : m.events = t.outbox

section Tallies
variable {κ : Type} [LinearOrder κ] {collate : ReactionEmoji → κ}

theorem groupOf_standing {rows : List Reaction} {messageIds : List MessageId} {id : MessageId}
    (hid : id ∈ messageIds) (viewer : UserId) (e : ReactionEmoji) :
    let held := (rows.map Reaction.key).filter fun r => r.messageId = id
    let group := PgChatMessageRepository.groupOf
      (rows.filter fun r => r.key.messageId ∈ messageIds) (id, e)
    (⟨e, group.length, group.any fun r => r.key.userId = viewer⟩ : ReactionTally) =
      InMemoryChatMessageRepository.standing viewer held e := by
  intro held group
  have hheld : held = (rows.filter fun r => r.key.messageId = id).map Reaction.key :=
    List.filter_map
  have hgroup : group = (rows.filter fun r => r.key.messageId = id).filter
      fun r => r.key.emoji = e := by
    simp only [group, PgChatMessageRepository.groupOf, List.filter_filter]
    refine List.filter_congr fun r _ => ?_
    by_cases hr : r.key.messageId = id
    · simp [hr, hid]
    · simp [hr]
  rw [hheld, hgroup, InMemoryChatMessageRepository.standing]
  have hany : ((rows.filter fun r => r.key.messageId = id).filter fun r => r.key.emoji = e).any
      (fun r => r.key.userId = viewer) =
      ((rows.filter fun r => r.key.messageId = id).map Reaction.key).any
        fun r => r.emoji = e && r.userId = viewer := by
    rw [List.any_filter, List.any_map]
    rfl
  have hcount : ((rows.filter fun r => r.key.messageId = id).filter
      fun r => r.key.emoji = e).length =
      (((rows.filter fun r => r.key.messageId = id).map Reaction.key).filter
        fun r => r.emoji = e).length := by
    rw [List.filter_map, List.length_map]
    rfl
  rw [hany, hcount]

def heldOn (reactions : List ReactionKey) (id : MessageId) : List ReactionKey :=
  reactions.filter fun r => r.messageId = id

/-- Each emoji stands once, with what the reactions of the message amount to for it. -/
def Standing (held : List ReactionKey) (viewer : UserId) (tallies : List ReactionTally) : Prop :=
  (tallies.map ReactionTally.emoji).Nodup ∧
    tallies = (tallies.map ReactionTally.emoji).map
      (InMemoryChatMessageRepository.standing viewer held)

theorem PgChatMessageRepository.reactionsFor_standing {reactions : Table Reaction.key}
    {messageIds : List MessageId} {viewer : UserId} {id : MessageId} {tallies : List ReactionTally}
    (hid : id ∈ messageIds)
    (h : reactionsFor collate reactions messageIds viewer id = some tallies) :
    Standing (heldOn (reactions.rows.map Reaction.key) id) viewer tallies := by
  rw [reactionsFor_eq] at h
  split at h
  · cases h
  · cases h
    have hgroups : (groupsOf collate
        (reactions.rows.filter fun r => r.key.messageId ∈ messageIds)).Nodup :=
      (Keyset.sort_perm _).nodup_iff.mpr (List.nodup_dedup _)
    refine ⟨?_, ?_⟩
    · rw [List.map_map]
      refine List.Nodup.map_on ?_ (hgroups.filter _)
      rintro ⟨ia, ea⟩ ha ⟨ib, eb⟩ hb heq
      have hia := of_decide_eq_true (List.mem_filter.mp ha).2
      have hib := of_decide_eq_true (List.mem_filter.mp hb).2
      exact Prod.ext (hia.trans hib.symm) heq
    · rw [List.map_map, List.map_map]
      refine List.map_congr_left fun k hk => ?_
      have hkid : k.1 = id := of_decide_eq_true (List.mem_filter.mp hk).2
      obtain ⟨kid, e⟩ := k
      subst hkid
      exact groupOf_standing hid viewer e

theorem InMemoryChatMessageRepository.reactionsFor_standing {reactions : List ReactionKey}
    {messageIds : List MessageId} {viewer : UserId} {id : MessageId} {tallies : List ReactionTally}
    (h : reactionsFor reactions messageIds viewer id = some tallies) :
    Standing (heldOn reactions id) viewer tallies := by
  rw [reactionsFor_eq] at h
  simp only at h
  split at h
  · cases h
    rw [Standing, map_standing]
    exact ⟨FirstSeen.nodup_eraseDups _, rfl⟩
  · cases h

/-- At rising times the query and the vector give the same tallies in the same order. -/
theorem reactionsFor_alike {reactions : Table Reaction.key}
    (hrise : reactions.rows.Pairwise fun r q => r.createdAt < q.createdAt)
    (messageIds : List MessageId) (viewer : UserId) :
    PgChatMessageRepository.reactionsFor collate reactions messageIds viewer =
      InMemoryChatMessageRepository.reactionsFor (reactions.rows.map Reaction.key) messageIds
        viewer := by
  funext id
  have hfirst : FirstSeenFirst (reactions.rows.map Reaction.key)
      (PgChatMessageRepository.reactionsFor collate reactions) :=
    PgChatMessageRepository.firstSeenFirst hrise
  have hpg := hfirst messageIds viewer id
  have hmem := InMemoryChatMessageRepository.firstSeenFirst (reactions.rows.map Reaction.key)
    messageIds viewer id
  split at hpg
  · rename_i hid
    rw [if_pos hid] at hmem
    obtain ⟨tallies, htallies, halike⟩ := hpg
    obtain ⟨tallies', htallies', halike'⟩ := hmem
    obtain ⟨hnodup, hstanding⟩ :=
      PgChatMessageRepository.reactionsFor_standing hid.1 htallies
    obtain ⟨hnodup', hstanding'⟩ :=
      InMemoryChatMessageRepository.reactionsFor_standing htallies'
    have hemojis := (halike.of_common halike').eq_of_nodup hnodup hnodup'
    rw [htallies, htallies', hstanding, hstanding', hemojis]
  · rename_i hid
    rw [if_neg hid] at hmem
    rw [hpg, hmem]

end Tallies

section Reads
variable {κ : Type} [LinearOrder κ] {collate : ReactionEmoji → κ}
  {scan : List ChatMessage → List ChatMessage} {lobby : Lobby} {t : ChatTables} {m : ChatMem}

/-- The reads of the tables, with the two queries answered by the vector. -/
def ChatTables.vectorReads (t : ChatTables) (r : HistoryReads) : HistoryReads :=
  { r with
    listRecent := fun channel limit cursor =>
      .ok (InMemoryChatMessageRepository.listRecent t.messages.rows channel limit cursor)
    findByIds := fun ids => .ok (t.messages.rows.filter fun q => q.id ∈ ids) }

theorem ChatTables.HeldBy.reads (h : t.HeldBy m) (collate : ReactionEmoji → κ)
    (scan : List ChatMessage → List ChatMessage) (lobby : Lobby) :
    InMemoryChatMessageRepository.store.reads lobby m =
      t.vectorReads ((PgChatMessageRepository.store collate scan).reads lobby t) := by
  have htallies : (fun ids viewer => Except.ok (ε := RepositoryError)
      (InMemoryChatMessageRepository.reactionsFor m.reactions ids viewer)) =
      fun ids viewer =>
        .ok (PgChatMessageRepository.reactionsFor collate t.reactions ids viewer) := by
    funext ids viewer
    rw [reactionsFor_alike h.rising, h.reactions]
  simp only [ChatStore.reads, InMemoryChatMessageRepository.store, htallies, h.messages]
  rfl

theorem PostMessage.prepare_vectorReads (r : HistoryReads) (authorId : UserId)
    (channel : ChatChannel) (body : Text) (replyTo : Option MessageId) (fresh : Uuid)
    (now : DateTime) : prepare (t.vectorReads r) authorId channel body replyTo fresh now =
      prepare r authorId channel body replyTo fresh now := rfl

theorem ReactToMessage.resolve_vectorReads (r : HistoryReads) (messageId : MessageId)
    (emoji : Text) : resolve (t.vectorReads r) messageId emoji = resolve r messageId emoji := rfl

namespace ListRecentMessages

theorem anchorOf_stored_row {r : HistoryReads}
    (hfind : ∀ id, r.findById id = .ok (t.messages.find? id)) {channel : ChatChannel}
    {id : MessageId} {anchor : MessageAnchor} (h : anchorOf r channel id = .ok anchor) :
    ∃ q ∈ t.messages.rows, anchor = .of q := by
  obtain ⟨found, hread, h⟩ := bind_ok h
  rw [hfind] at hread
  cases hread
  cases hq : (t.messages.find? id).filter fun message => message.channel = channel with
  | none => simp [hq] at h
  | some q =>
    simp only [hq, Except.ok.injEq] at h
    have hfound := (Option.filter_eq_some_iff.mp hq).1
    exact ⟨q, Table.find?_mem hfound, h.symm⟩

theorem placed_stored {q : ChatMessage} (hq : q ∈ t.messages.rows) (channel : ChatChannel) :
    MessageCursor.Placed t.messages.rows channel (some (.after (.of q))) := by
  intro later hlater hid
  have hnewer := List.mem_of_mem_head? hlater
  obtain ⟨hroom, hlt⟩ := List.mem_filter.mp hnewer
  have hsame : later = q :=
    List.inj_on_of_nodup_map t.messages.nodup (mem_roomOf.mp hroom).1 hq hid
  subst hsame
  simp [ChatMessage.key] at hlt

theorem resolveCursor_placed {r : HistoryReads}
    (hfind : ∀ id, r.findById id = .ok (t.messages.find? id)) {channel : ChatChannel}
    {window : HistoryWindow} {cursor : Option MessageCursor}
    (h : resolveCursor r channel window = .ok cursor) :
    MessageCursor.Placed t.messages.rows channel cursor := by
  unfold resolveCursor at h
  split at h
  · cases h
    trivial
  · obtain ⟨anchor, -, h⟩ := bind_ok h
    cases h
    trivial
  · obtain ⟨anchor, hanchor, h⟩ := bind_ok h
    cases h
    obtain ⟨q, hq, rfl⟩ := anchorOf_stored_row hfind hanchor
    exact placed_stored hq channel
  · cases h

theorem foldl_found {l : List ChatMessage} (hnodup : (l.map ChatMessage.id).Nodup)
    (found : MessageId → Option ChatMessage) (id : MessageId) :
    l.foldl (fun (f : MessageId → Option ChatMessage) q => Function.update f q.id (some q)) found
      id = (l.find? fun q => q.id = id).or (found id) := by
  induction l generalizing found with
  | nil => rfl
  | cons q l ih =>
    obtain ⟨hfresh, hrest⟩ := List.nodup_cons.mp hnodup
    rw [List.foldl_cons, ih hrest]
    by_cases hq : q.id = id
    · have hnone : l.find? (fun p => p.id = id) = none := by
        refine List.find?_eq_none.mpr fun p hp hpid => hfresh ?_
        rw [hq, ← of_decide_eq_true hpid]
        exact List.mem_map_of_mem hp
      simp [hnone, hq]
    · simp [hq, Function.update_of_ne (Ne.symm hq)]

theorem find?_perm {l l' : List ChatMessage} (hp : l.Perm l')
    (hnodup : (l'.map ChatMessage.id).Nodup) (id : MessageId) :
    l.find? (fun q => q.id = id) = l'.find? fun q => q.id = id := by
  cases hq : l.find? fun q => q.id = id with
  | none =>
    have habsent := List.find?_eq_none.mp hq
    exact (List.find?_eq_none.mpr fun q hmem => habsent q (hp.mem_iff.mpr hmem)).symm
  | some q =>
    have hmem := hp.mem_iff.mp (List.mem_of_find?_eq_some hq)
    have hid : q.id = id := by simpa using List.find?_some hq
    rw [← hid]
    exact (find_stored hnodup hmem).symm

theorem quotedMessages_vectorReads {r : HistoryReads} (hscan : ∀ l, (scan l).Perm l)
    (hids : ∀ ids, r.findByIds ids = .ok (scan (t.messages.rows.filter fun q => q.id ∈ ids)))
    (messages : List ChatMessage) :
    quotedMessages (t.vectorReads r) messages = quotedMessages r messages := by
  have hfold : ∀ l : List ChatMessage, (l.map ChatMessage.id).Nodup →
      l.foldl (fun (f : MessageId → Option ChatMessage) q => Function.update f q.id (some q))
        (fun _ => none) =
      (scan l).foldl (fun (f : MessageId → Option ChatMessage) q =>
        Function.update f q.id (some q)) fun _ => none := by
    intro l hnodup
    funext id
    have hscanned := ((hscan l).map ChatMessage.id).nodup_iff.mpr hnodup
    rw [foldl_found hnodup, foldl_found hscanned, find?_perm (hscan l) hnodup]
  have hrows : ∀ ids : List MessageId,
      ((t.messages.rows.filter fun q => q.id ∈ ids).map ChatMessage.id).Nodup :=
    fun ids => (List.filter_sublist.map ChatMessage.id).nodup t.messages.nodup
  have hread : ∀ ids : List MessageId,
      (do let quoted ← orInternal ((t.vectorReads r).findByIds ids)
          return quoted.foldl (fun f q => Function.update f q.id (some q)) fun _ => none :
        Except ApplicationError (MessageId → Option ChatMessage)) =
      do let quoted ← orInternal (r.findByIds ids)
         return quoted.foldl (fun f q => Function.update f q.id (some q)) fun _ => none := by
    intro ids
    simp only [hids, ChatTables.vectorReads, orInternal, Except.mapError, bind, Except.bind, pure,
      Except.pure, hfold _ (hrows _)]
  exact hread _

theorem views_vectorReads (r : HistoryReads) (quoted : MessageId → Option ChatMessage)
    (reactions : MessageId → Option (List ReactionTally)) (cache : UserId → Option User)
    (messages : List ChatMessage) :
    views (t.vectorReads r) quoted reactions cache messages =
      views r quoted reactions cache messages := by
  induction messages generalizing reactions cache with
  | nil => rfl
  | cons message messages ih => simp only [views, ih]; rfl

theorem execute_alike (h : t.HeldBy m) (hscan : ∀ l, (scan l).Perm l) {limit : Int}
    (hlimit : 0 ≤ limit) (viewer : UserId) (channel : ChatChannel) (window : HistoryWindow) :
    execute ((PgChatMessageRepository.store collate scan).reads lobby t) viewer channel limit
        window =
      execute (InMemoryChatMessageRepository.store.reads lobby m) viewer channel limit window := by
  rw [h.reads collate scan]
  generalize hr : (PgChatMessageRepository.store collate scan).reads lobby t = r
  have hroom : findRoom (t.vectorReads r) channel = findRoom r channel := rfl
  have hpage : page (t.vectorReads r) channel limit window = page r channel limit window := by
    have hcursor : resolveCursor (t.vectorReads r) channel window =
        resolveCursor r channel window := rfl
    simp only [page, hcursor]
    cases hc : resolveCursor r channel window with
    | error e => rfl
    | ok cursor =>
      have hplaced := resolveCursor_placed (t := t) (fun id => by rw [← hr]; rfl) hc
      have halike := (stores_page_alike t.messages.rows (scan t.messages.rows) t.messages.nodup
        (hscan _) channel limit hlimit cursor).mpr (.inr hplaced)
      have hquery : r.listRecent channel limit cursor =
          .ok (InMemoryChatMessageRepository.listRecent t.messages.rows channel limit cursor) := by
        rw [← hr, ← halike]
        rfl
      simp only [bind, Except.bind, hquery]
      rfl
  have hquoted := quotedMessages_vectorReads (t := t) (r := r) hscan fun ids => by rw [← hr]; rfl
  simp only [execute, hroom, hpage, hquoted, views_vectorReads]
  rfl

end ListRecentMessages

theorem PostMessage.quoted_stored {r : HistoryReads} {id : MessageId} {channel : ChatChannel}
    {reply : RepliedMessage} (h : quoted r id channel = .ok reply) :
    ∃ message, r.findById id = .ok (some message) := by
  obtain ⟨found, hfound, h⟩ := bind_ok h
  cases found with
  | none => simp at h
  | some message => exact ⟨message, orInternal_ok hfound⟩

theorem ListRecentMessages.findRoom_stored {r : HistoryReads} {id : MarketId} {u : Unit}
    (h : findRoom r (.market id) = .ok u) : ∃ market, r.findMarket id = .ok (some market) := by
  obtain ⟨found, hfound, h⟩ := bind_ok h
  cases found with
  | none => simp at h
  | some market => exact ⟨market, orInternal_ok hfound⟩

theorem MessageBody.new_mem {text : Text} {body : MessageBody}
    (h : MessageBody.new text = .ok body) :
    ∀ c ∈ body.value, c ∈ text := by
  unfold MessageBody.new BoundedText.new at h
  split at h
  · cases h
  · split at h
    · cases h
      exact fun c hc => mem_of_mem_trim hc
    · cases h

theorem PostMessage.prepare_ok {authorId : UserId} {channel : ChatChannel} {body : Text}
    {replyTo : Option MessageId} {fresh : Uuid} {now : DateTime} {author : User}
    {quoted : Option RepliedMessage} {message : ChatMessage}
    (h : prepare ((PgChatMessageRepository.store collate scan).reads lobby t) authorId channel body
      replyTo fresh now = .ok (author, quoted, message)) :
    message.id = ⟨fresh⟩ ∧ message.createdAt = now ∧
      (∀ c ∈ message.body.value, c ∈ body) ∧ lobby.users.find? message.authorId = some author ∧
      (∀ id, message.channel = .market id → (lobby.markets.find? id).isSome) ∧
      ∀ id, message.replyTo = some id → (t.messages.find? id).isSome := by
  obtain ⟨found, hauthor, h⟩ := bind_ok h
  cases hauthor
  cases hu : lobby.users.find? authorId with
  | none => simp [hu] at h
  | some user =>
    simp only [hu] at h
    obtain ⟨u, hroom, h⟩ := bind_ok h
    obtain ⟨parent, hquoted, h⟩ := bind_ok h
    cases hb : MessageBody.new body with
    | error e => simp [hb] at h
    | ok text =>
      simp only [hb, Except.ok.injEq, Prod.mk.injEq] at h
      obtain ⟨rfl, rfl, rfl⟩ := h
      refine ⟨rfl, rfl, MessageBody.new_mem hb, hu, fun id hid => ?_, fun id hid => ?_⟩
      · obtain rfl : channel = .market id := hid
        obtain ⟨market, hmarket⟩ := ListRecentMessages.findRoom_stored hroom
        exact Option.isSome_iff_exists.mpr ⟨market, Except.ok.inj hmarket⟩
      · obtain rfl : replyTo = some id := hid
        cases hq : PostMessage.quoted ((PgChatMessageRepository.store collate scan).reads lobby t)
            id channel with
        | error e => simp [PostMessage.quotedOf, hq, Except.map] at hquoted
        | ok reply =>
          obtain ⟨row, hrow⟩ := PostMessage.quoted_stored hq
          exact Option.isSome_iff_exists.mpr ⟨row, Except.ok.inj hrow⟩

theorem storable_mono {s text : Text} (hsub : ∀ c ∈ s, c ∈ text) (h : storable text = true) :
    storable s = true := by
  simp only [storable, Bool.not_eq_true', List.contains_eq_mem, decide_eq_false_iff_not] at h ⊢
  exact fun hnul => h (hsub _ hnul)

/-- After its checks the INSERT of a message has nothing to object to. -/
theorem PgChatMessageRepository.insert_ok {message : ChatMessage} {author : User}
    (hfresh : t.messages.find? message.id = none) (htext : storable message.body.value = true)
    (htime : Timestamptz.Exact message.createdAt)
    (hauthor : lobby.users.find? message.authorId = some author)
    (hmarket : ∀ id, message.channel = .market id → (lobby.markets.find? id).isSome)
    (hreply : ∀ id, message.replyTo = some id → (t.messages.find? id).isSome) :
    insert lobby t message = .ok message := by
  have hinsert : message.insertError ⟨lobby.users, t.messages, t.reactions⟩ = none := by
    unfold ChatMessage.insertError
    cases hr : message.replyTo with
    | none => simp [htext, hfresh, hauthor]
    | some id =>
      obtain ⟨parent, hparent⟩ := Option.isSome_iff_exists.mp (hreply id hr)
      simp [htext, hfresh, hauthor, hparent]
  have hconstraint : constraintError lobby t message = none := by
    rw [constraintError, hinsert]
    cases hc : message.channel with
    | global => rfl
    | market id =>
      obtain ⟨market, hm⟩ := Option.isSome_iff_exists.mp (hmarket id hc)
      simp [ChatChannel.marketId, hm]
  have hplain : ¬storable message.body.value = false := by simp [htext]
  rw [insert, if_neg hplain]
  simp only [Timestamptz.encode_exact htime, hconstraint, htime.2.2]

theorem post_alike (collate : ReactionEmoji → κ) (scan : List ChatMessage → List ChatMessage)
    (lobby : Lobby) (h : t.HeldBy m) (authorId : UserId) (channel : ChatChannel) {body : Text}
    (replyTo : Option MessageId) {fresh : Uuid} {now : Nanos}
    (hfresh : t.messages.find? ⟨fresh⟩ = none) (htext : storable body = true)
    (htime : Timestamptz.Exact now) :
    let pg := PostMessage.execute (PgChatMessageRepository.store collate scan) lobby authorId
      channel body replyTo fresh now t
    let mem := PostMessage.execute InMemoryChatMessageRepository.store lobby authorId channel body
      replyTo fresh now m
    pg.1 = mem.1 ∧ pg.2.HeldBy mem.2 := by
  intro pg mem
  simp only [pg, mem, PostMessage.execute]
  rw [h.reads collate scan, PostMessage.prepare_vectorReads]
  cases hp : PostMessage.prepare ((PgChatMessageRepository.store collate scan).reads lobby t)
      authorId channel body replyTo fresh now with
  | error e => exact ⟨rfl, h⟩
  | ok prepared =>
    obtain ⟨author, quoted, message⟩ := prepared
    obtain ⟨hid, hat, hbody, hauthor, hmarket, hreply⟩ := PostMessage.prepare_ok hp
    have hnew : t.messages.find? message.id = none := hid ▸ hfresh
    have hsave : PgChatMessageRepository.insert lobby t message = .ok message :=
      PgChatMessageRepository.insert_ok hnew (storable_mono hbody htext) (hat ▸ htime) hauthor
        hmarket hreply
    simp only [PgChatMessageRepository.store, hsave, InMemoryChatMessageRepository.store]
    refine ⟨trivial, ?_, h.reactions, h.rising, ?_⟩
    · rw [Table.rows_upsert_fresh hnew, h.messages]
    · rw [h.events]

theorem PgChatMessageRepository.reactError_none {op : ReactionOp}
    (hmessage : (t.messages.find? op.key.messageId).isSome)
    (huser : op.added = true → (lobby.users.find? op.key.userId).isSome) :
    reactError lobby t op = none := by
  cases op with
  | add r =>
    obtain ⟨message, hm⟩ := Option.isSome_iff_exists.mp hmessage
    obtain ⟨user, hu⟩ := Option.isSome_iff_exists.mp (huser rfl)
    simp only [ReactionOp.key] at hm hu
    simp [reactError, hm, hu]
  | remove r => rfl

theorem PgChatMessageRepository.react_rising (op : ReactionOp) {now : DateTime}
    (hrise : t.reactions.rows.Pairwise fun r q => r.createdAt < q.createdAt)
    (hlater : op.added = true → ∀ r ∈ t.reactions.rows, r.createdAt < now) :
    (react t.reactions op now).1.rows.Pairwise fun r q => r.createdAt < q.createdAt := by
  cases op with
  | remove r =>
    rw [react, removeReaction]
    split
    · exact hrise.filter _
    · exact hrise
  | add r =>
    rw [react, addReaction]
    split
    · exact hrise
    · rename_i hnew
      have hnone : t.reactions.find? (Reaction.key ⟨r, now⟩) = none := by simpa using hnew
      rw [Table.rows_upsert_fresh hnone]
      refine List.pairwise_append.mpr ⟨hrise, List.pairwise_singleton _ _, fun a ha b hb => ?_⟩
      rw [List.mem_singleton.mp hb]
      exact hlater rfl a ha

theorem PgChatMessageRepository.react_changed (reactions : Table Reaction.key) (op : ReactionOp)
    (now : DateTime) : (react reactions op now).2 =
      (InMemoryChatMessageRepository.react (reactions.rows.map Reaction.key) op).2 := by
  have hheld : ∀ r, (reactions.find? r).isSome ↔ r ∈ reactions.rows.map Reaction.key :=
    fun _ => find?_isSome
  cases op with
  | add r =>
    rw [react, addReaction, InMemoryChatMessageRepository.react]
    by_cases hr : r ∈ reactions.rows.map Reaction.key
    · rw [if_pos ((hheld r).mpr hr), InMemoryChatMessageRepository.addReaction_held hr]
    · rw [if_neg fun h => hr ((hheld r).mp h), InMemoryChatMessageRepository.addReaction_new hr]
  | remove r =>
    rw [react, removeReaction, InMemoryChatMessageRepository.react]
    by_cases hr : r ∈ reactions.rows.map Reaction.key
    · rw [if_pos ((hheld r).mpr hr), InMemoryChatMessageRepository.removeReaction_held hr]
    · rw [if_neg fun h => hr ((hheld r).mp h),
        InMemoryChatMessageRepository.removeReaction_absent hr]

theorem ReactToMessage.resolve_stored {messageId : MessageId} {emoji : Text}
    {parsed : ReactionEmoji} (h : resolve ((PgChatMessageRepository.store collate scan).reads lobby t)
      messageId emoji = .ok parsed) : (t.messages.find? messageId).isSome := by
  unfold resolve at h
  cases he : ReactionEmoji.new emoji with
  | error e => simp [he] at h
  | ok value =>
    simp only [he] at h
    obtain ⟨found, hfound, h⟩ := bind_ok h
    cases found with
    | none => simp at h
    | some message =>
      have hrow := Except.ok.inj (orInternal_ok hfound)
      exact Option.isSome_iff_exists.mpr ⟨message, hrow⟩

theorem react_alike (collate : ReactionEmoji → κ) (scan : List ChatMessage → List ChatMessage)
    (h : t.HeldBy m) {op : ReactionKey → ReactionOp} (hop : ∀ r, (op r).key = r) {userId : UserId}
    (messageId : MessageId) (emoji : Text) (now : DateTime)
    (hadd : ∀ r, (op r).added = true → (lobby.users.find? userId).isSome ∧
      ∀ q ∈ t.reactions.rows, q.createdAt < now) :
    let pg := ReactToMessage.execute (PgChatMessageRepository.store collate scan) lobby op userId
      messageId emoji now t
    let mem := ReactToMessage.execute InMemoryChatMessageRepository.store lobby op userId messageId
      emoji now m
    pg.1 = mem.1 ∧ pg.2.HeldBy mem.2 := by
  intro pg mem
  simp only [pg, mem, ReactToMessage.execute]
  rw [h.reads collate scan, ReactToMessage.resolve_vectorReads]
  cases hr : ReactToMessage.resolve ((PgChatMessageRepository.store collate scan).reads lobby t)
      messageId emoji with
  | error e => exact ⟨rfl, h⟩
  | ok emoji =>
    have hmessage := ReactToMessage.resolve_stored hr
    have herror : PgChatMessageRepository.reactError lobby t (op ⟨messageId, userId, emoji⟩) =
        none := by
      refine PgChatMessageRepository.reactError_none ?_ fun hadded => ?_
      · rw [hop]
        exact hmessage
      · rw [hop]
        exact (hadd _ hadded).1
    have hchanged := PgChatMessageRepository.react_changed t.reactions
      (op ⟨messageId, userId, emoji⟩) now
    have hrising := PgChatMessageRepository.react_rising (op ⟨messageId, userId, emoji⟩) h.rising
      fun hadded => (hadd _ hadded).2
    simp only [PgChatMessageRepository.store, herror, InMemoryChatMessageRepository.store,
      h.reactions, hchanged]
    exact ⟨trivial, h.messages, (PgChatMessageRepository.react_keys _ now).symm, hrising,
      by rw [h.events]⟩

theorem serve_alike (collate : ReactionEmoji → κ) (hscan : ∀ l, (scan l).Perm l)
    (h : t.HeldBy m) {request : ChatRequest} (hproper : request.Proper lobby t) :
    let pg := request.serve (PgChatMessageRepository.store collate scan) lobby t
    let mem := request.serve InMemoryChatMessageRepository.store lobby m
    pg.1 = mem.1 ∧ pg.2.1 = mem.2.1 ∧ pg.2.2.HeldBy mem.2.2 := by
  intro pg mem
  cases request with
  | post authorId channel body replyTo fresh now =>
    obtain ⟨hfresh, htext, htime⟩ := hproper
    obtain ⟨hreply, hheld⟩ :=
      post_alike collate scan lobby h authorId channel replyTo hfresh htext htime
    exact ⟨congrArg ChatReply.posted hreply, rfl, hheld⟩
  | addReaction userId messageId emoji now =>
    have hkey : ∀ r, (ReactionOp.add r).key = r := fun _ => rfl
    obtain ⟨hreply, hheld⟩ :=
      react_alike collate scan h hkey messageId emoji now fun _ _ => hproper
    exact ⟨congrArg ChatReply.reacted hreply, rfl, hheld⟩
  | removeReaction userId messageId emoji now =>
    have hkey : ∀ r, (ReactionOp.remove r).key = r := fun _ => rfl
    obtain ⟨hreply, hheld⟩ := react_alike collate scan h hkey messageId emoji now
      fun _ hadded => absurd hadded Bool.false_ne_true
    exact ⟨congrArg ChatReply.reacted hreply, rfl, hheld⟩
  | history viewer channel limit window =>
    exact ⟨congrArg ChatReply.page
      (ListRecentMessages.execute_alike h hscan hproper viewer channel window), rfl, h⟩
  | userSaved user => exact ⟨rfl, rfl, h⟩
  | marketSaved market => exact ⟨rfl, rfl, h⟩

end Reads

section Runs
open Transition
variable {κ : Type} [LinearOrder κ]

def serveNext (collate : ReactionEmoji → κ) (scan : List ChatMessage → List ChatMessage)
    (s : Lobby × ChatTables) (request : ChatRequest) : Option (Lobby × ChatTables) :=
  some (request.serve (PgChatMessageRepository.store collate scan) s.1 s.2).2

theorem converse_alike (collate : ReactionEmoji → κ) {scan : List ChatMessage → List ChatMessage}
    (hscan : ∀ l, (scan l).Perm l) {requests : List ChatRequest} {lobby : Lobby} {t : ChatTables}
    {m : ChatMem} (h : t.HeldBy m)
    (hproper : Guarded (serveNext collate scan) (fun s request => request.Proper s.1 s.2) (lobby, t)
      requests) :
    let pg := converse (PgChatMessageRepository.store collate scan) requests lobby t
    let mem := converse InMemoryChatMessageRepository.store requests lobby m
    pg.1 = mem.1 ∧ pg.2.1 = mem.2.1 ∧ pg.2.2.HeldBy mem.2.2 := by
  induction requests generalizing lobby t m with
  | nil => exact ⟨rfl, rfl, h⟩
  | cons request requests ih =>
    obtain ⟨hfirst, hrest⟩ := hproper
    obtain ⟨hreply, hlobby, hheld⟩ := serve_alike collate hscan h hfirst
    have hnext := ih hheld (hrest _ rfl)
    rw [hlobby] at hnext
    obtain ⟨hreplies, hend, hstores⟩ := hnext
    simp only [converse]
    rw [hlobby]
    exact ⟨List.cons_eq_cons.mpr ⟨hreply, hreplies⟩, hend, hstores⟩

/-- From empty stores every sequence of requests gets the same replies from both, and leaves
the same messages, reactions and events behind. -/
theorem chat_stores_agree (collate : ReactionEmoji → κ)
    {scan : List ChatMessage → List ChatMessage} (hscan : ∀ l, (scan l).Perm l)
    (requests : List ChatRequest) (lobby : Lobby)
    (hproper : Guarded (serveNext collate scan) (fun s request => request.Proper s.1 s.2)
      (lobby, .empty) requests) :
    let pg := converse (PgChatMessageRepository.store collate scan) requests lobby .empty
    let mem := converse InMemoryChatMessageRepository.store requests lobby .empty
    pg.1 = mem.1 ∧ mem.2.2.messages = pg.2.2.messages.rows ∧
      mem.2.2.reactions = pg.2.2.reactions.rows.map Reaction.key ∧
      mem.2.2.events = pg.2.2.outbox := by
  intro pg mem
  have hempty : ChatTables.empty.HeldBy .empty := ⟨rfl, rfl, List.Pairwise.nil, rfl⟩
  obtain ⟨hreplies, -, hstores⟩ := converse_alike collate hscan hempty hproper
  exact ⟨hreplies, hstores.messages, hstores.reactions, hstores.events⟩

end Runs

namespace Sample

/-- A message, an answer to it that the room does not have, two reactions and one page. -/
def smallTalk : List ChatRequest :=
  [.userSaved carol, .post carol.id .global ['h', 'i'] none 7 1000,
    .post carol.id (.market ⟨9⟩) ['n', 'o'] (some ⟨7⟩) 8 2000,
    .addReaction carol.id ⟨7⟩ heart.value 3, .addReaction carol.id ⟨7⟩ fire.value 4,
    .removeReaction carol.id ⟨7⟩ heart.value 5, .history carol.id .global 50 ⟨none, none⟩]

end Sample

theorem chat_stores_agree_talk :
    (converse (PgChatMessageRepository.store Sample.codePoints List.reverse) Sample.smallTalk
        ⟨.empty, .empty⟩ .empty).1 =
      (converse InMemoryChatMessageRepository.store Sample.smallTalk ⟨.empty, .empty⟩ .empty).1 :=
  (chat_stores_agree Sample.codePoints List.reverse_perm Sample.smallTalk ⟨.empty, .empty⟩
    (by decide +kernel)).1

end Betsphere
