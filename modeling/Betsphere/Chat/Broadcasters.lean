import Betsphere.Chat.Reactions
set_option autoImplicit false

namespace Betsphere

structure ChatAuthor where
  id : UserId
  username : Username
  avatarUrl : Option Text
  deriving DecidableEq

structure QuotedMessage where
  id : MessageId
  author : ChatAuthor
  body : Text
  deriving DecidableEq

structure ChatMessageBroadcast where
  id : MessageId
  author : ChatAuthor
  body : Text
  replyTo : Option QuotedMessage
  createdAt : DateTime
  deriving DecidableEq

/-- `count` is how many users hold the emoji now; `added` is what the event said. -/
structure ChatReactionBroadcast where
  messageId : MessageId
  emoji : Text
  count : Nat
  userId : UserId
  added : Bool
  deriving DecidableEq

structure ReactionTally where
  emoji : ReactionEmoji
  count : Nat
  reacted : Bool

/-- `reactions_for` with one message. The order of the tallies is not modelled. -/
def ChatDb.reactionsFor (db : ChatDb) (messageId : MessageId) (viewer : UserId) :
    List ReactionTally :=
  let rows := db.reactions.rows.filter fun r => r.key.messageId = messageId
  (rows.map fun r => r.key.emoji).dedup.map fun emoji =>
    let held := rows.filter fun r => r.key.emoji = emoji
    ⟨emoji, held.length, held.any fun r => r.key.userId = viewer⟩

/-- The chat, every committed post with the identifier of its event, and the frames that
reached a channel, oldest first. -/
structure ChatWorld where
  chat : Chat
  posted : List (Nat × MessageId)
  messages : List (ChatChannel × ChatMessageBroadcast)
  reactions : List (ChatChannel × ChatReactionBroadcast)

def ChatWorld.init : ChatWorld := ⟨.init, [], [], []⟩

/-- A running handler between its awaits. -/
inductive ChatPhase where
  | findMessage (event : ChatMessagePosted)
  | findAuthor (message : ChatMessage)
  | findQuoted (message : ChatMessage) (author : User) (id : MessageId)
  | findQuotedAuthor (message : ChatMessage) (author : User) (quoted : ChatMessage)
  | publishMessage (channel : ChatChannel) (broadcast : ChatMessageBroadcast)
  | findReacted (event : ChatReactionChanged)
  | tally (event : ChatReactionChanged) (message : ChatMessage) (emoji : ReactionEmoji)
      (hemoji : ReactionEmoji.new event.emoji = .ok emoji)
  | publishReaction (channel : ChatChannel) (broadcast : ChatReactionBroadcast)
  | elsewhere

/-- What one await meets, and what a user lookup finds in the cache: a copy of the row
that may be older than it. -/
structure ChatAwait extends Await where
  cached : Option User

def ChatAwait.findUser (x : ChatAwait) (w : ChatWorld) (id : UserId) : Option User :=
  (x.cached.filter fun u => u.id = id).or (w.chat.db.users.find? id)

def chatAuthor (author : User) : ChatAuthor := ⟨author.id, author.username, author.avatarUrl⟩

def ChatAwait.orFail {φ : Type} (x : ChatAwait) (doing : String) (w : ChatWorld)
    (next : ChatWorld × (φ ⊕ Except String Unit)) : ChatWorld × (φ ⊕ Except String Unit) :=
  match x.failure with
  | some e => (w, .inr (.error (doing ++ ": " ++ e)))
  | none => next

namespace ChatMessageBroadcaster

def begin : Payload → Except DeliveryError ChatPhase :=
  typedHandler "chat.message_posted" ChatMessagePosted.fromValue .findMessage

def broadcast (message : ChatMessage) (author : User) (replyTo : Option QuotedMessage) :
    ChatPhase :=
  .publishMessage message.channel
    ⟨message.id, chatAuthor author, message.body.value, replyTo, message.createdAt⟩

def handle (x : ChatAwait) (w : ChatWorld) :
    ChatPhase → ChatWorld × (ChatPhase ⊕ Except String Unit)
  | .findMessage event =>
    x.orFail ("could not load chat message " ++ toString event.messageId) w <|
      match w.chat.db.messages.find? event.messageId with
      | none => (w, .inr (.ok ()))
      | some message => (w, .inl (.findAuthor message))
  | .findAuthor message =>
    x.orFail ("could not load author of chat message " ++ toString message.id) w <|
      match x.findUser w message.authorId with
      | none => (w, .inr (.ok ()))
      | some author =>
        match message.replyTo with
        | none => (w, .inl (broadcast message author none))
        | some id => (w, .inl (.findQuoted message author id))
  | .findQuoted message author id =>
    x.orFail ("could not load quoted chat message " ++ toString id) w <|
      match w.chat.db.messages.find? id with
      | none => (w, .inl (broadcast message author none))
      | some quoted => (w, .inl (.findQuotedAuthor message author quoted))
  | .findQuotedAuthor message author quoted =>
    x.orFail ("could not load author of quoted chat message " ++ toString quoted.id) w <|
      match x.findUser w quoted.authorId with
      | none => (w, .inl (broadcast message author none))
      | some user =>
        (w, .inl (broadcast message author (some ⟨quoted.id, chatAuthor user, quoted.body.value⟩)))
  | .publishMessage channel b =>
    let w := if x.reaches then { w with messages := w.messages ++ [(channel, b)] } else w
    (w, .inr (x.outcome ("could not broadcast chat message " ++ toString b.id)))
  | _ => (w, .inr (x.outcome "handler failed"))

end ChatMessageBroadcaster

namespace ChatReactionBroadcaster

def begin : Payload → Except DeliveryError ChatPhase :=
  typedHandler "chat.reaction_changed" ChatReactionChanged.fromValue .findReacted

def handle (x : ChatAwait) (w : ChatWorld) :
    ChatPhase → ChatWorld × (ChatPhase ⊕ Except String Unit)
  | .findReacted event =>
    x.orFail ("could not load chat message " ++ toString event.messageId) w <|
      match w.chat.db.messages.find? event.messageId with
      | none => (w, .inr (.ok ()))
      | some message =>
        match hemoji : ReactionEmoji.new event.emoji with
        | .error e => (w, .inr (.error
            ("unusable emoji on chat message " ++ toString event.messageId ++ ": " ++ e.message)))
        | .ok emoji => (w, .inl (.tally event message emoji hemoji))
  | .tally event message emoji _ =>
    x.orFail ("could not tally reactions of chat message " ++ toString event.messageId) w <|
      let count := ((w.chat.db.reactionsFor event.messageId event.userId).find? fun t =>
        t.emoji = emoji).elim 0 ReactionTally.count
      (w, .inl (.publishReaction message.channel
        ⟨event.messageId, event.emoji, count, event.userId, event.added⟩))
  | .publishReaction channel b =>
    let w := if x.reaches then { w with reactions := w.reactions ++ [(channel, b)] } else w
    (w, .inr (x.outcome ("could not broadcast reaction on chat message " ++ toString b.messageId)))
  | _ => (w, .inr (x.outcome "handler failed"))

end ChatReactionBroadcaster

def ChatPhase.step (x : ChatAwait) (w : ChatWorld) (phase : ChatPhase) :
    ChatWorld × (ChatPhase ⊕ Except String Unit) :=
  match phase with
  | .findReacted _ | .tally _ _ _ _ | .publishReaction _ _ =>
      ChatReactionBroadcaster.handle x w phase
  | _ => ChatMessageBroadcaster.handle x w phase

def postsOf (events : List (Nat × String × Payload)) : List (Nat × MessageId) :=
  events.filterMap fun e =>
    match e.2.2 with
    | .messagePosted messageId => some (e.1, messageId)
    | _ => none

def ChatAct.transact (a : ChatAct) (w : ChatWorld) :
    Option (ChatWorld × List (Nat × String × Payload)) :=
  (w.chat.step a).map fun r =>
    ({ w with chat := r.1, posted := w.posted ++ postsOf r.2 }, r.2)

def chatService : Service ChatWorld ChatAct ChatAwait Payload ChatPhase where
  transact := ChatAct.transact
  registry := serverRegistry .elsewhere (fun _ => .ok .elsewhere) (fun _ => .ok .elsewhere)
    ChatMessageBroadcaster.begin ChatReactionBroadcaster.begin
  step := fun x w phase => phase.step x w

def ChatPhase.composing : ChatPhase → Option ChatMessage
  | .findAuthor m | .findQuoted m _ _ | .findQuotedAuthor m _ _ => some m
  | _ => none

def ChatDb.count (db : ChatDb) (messageId : MessageId) (emoji : ReactionEmoji) : Nat :=
  (db.reactions.rows.filter fun r => r.key.messageId = messageId ∧ r.key.emoji = emoji).length

inductive ChatPhase.Effect (w : ChatWorld) :
    ChatPhase → ChatWorld → ChatPhase ⊕ Except String Unit → Prop where
  | failed (phase : ChatPhase) (e : String) : Effect w phase w (.inr (.error e))
  | vanished (event : ChatMessagePosted)
      (hmessage : w.chat.db.messages.find? event.messageId = none) :
      Effect w (.findMessage event) w (.inr (.ok ()))
  | found (event : ChatMessagePosted) (m : ChatMessage)
      (hmessage : w.chat.db.messages.find? event.messageId = some m) :
      Effect w (.findMessage event) w (.inl (.findAuthor m))
  | orphaned (m : ChatMessage) (hauthor : w.chat.db.users.find? m.authorId = none) :
      Effect w (.findAuthor m) w (.inr (.ok ()))
  | composed (phase phase' : ChatPhase) (m : ChatMessage) (hphase : phase.composing = some m)
      (hnext : phase'.composing = some m ∨
        ∃ author replyTo, phase' = ChatMessageBroadcaster.broadcast m author replyTo) :
      Effect w phase w (.inl phase')
  | messageSent (channel : ChatChannel) (b : ChatMessageBroadcast) (result : Except String Unit) :
      Effect w (.publishMessage channel b) { w with messages := w.messages ++ [(channel, b)] }
        (.inr result)
  | reactedVanished (event : ChatReactionChanged)
      (hmessage : w.chat.db.messages.find? event.messageId = none) :
      Effect w (.findReacted event) w (.inr (.ok ()))
  | reactedFound (event : ChatReactionChanged) (m : ChatMessage) (emoji : ReactionEmoji)
      (hmessage : w.chat.db.messages.find? event.messageId = some m)
      (hemoji : ReactionEmoji.new event.emoji = .ok emoji) :
      Effect w (.findReacted event) w (.inl (.tally event m emoji hemoji))
  | tallied (event : ChatReactionChanged) (m : ChatMessage) (emoji : ReactionEmoji)
      (hemoji : ReactionEmoji.new event.emoji = .ok emoji) :
      Effect w (.tally event m emoji hemoji) w (.inl (.publishReaction m.channel
        ⟨event.messageId, event.emoji, w.chat.db.count event.messageId emoji, event.userId,
          event.added⟩))
  | reactionSent (channel : ChatChannel) (b : ChatReactionBroadcast) (result : Except String Unit) :
      Effect w (.publishReaction channel b) { w with reactions := w.reactions ++ [(channel, b)] }
        (.inr result)
  | elsewhere (result : Except String Unit) : Effect w .elsewhere w (.inr result)

theorem ChatDb.find_reactionsFor (db : ChatDb) (messageId : MessageId) (viewer : UserId)
    (emoji : ReactionEmoji) :
    ((db.reactionsFor messageId viewer).find? fun t => t.emoji = emoji).elim 0 ReactionTally.count =
      db.count messageId emoji := by
  unfold reactionsFor count
  rw [List.find?_map]
  have hfilter : (db.reactions.rows.filter fun r =>
      r.key.messageId = messageId ∧ r.key.emoji = emoji) =
      (db.reactions.rows.filter fun r => r.key.messageId = messageId).filter
        fun r => r.key.emoji = emoji := by
    rw [List.filter_filter]
    exact List.filter_congr fun r _ => by rw [Bool.and_comm, Bool.decide_and]
  rw [hfilter]
  generalize (db.reactions.rows.filter fun r => r.key.messageId = messageId) = rows
  cases hfind : ((rows.map fun r => r.key.emoji).dedup).find? ((fun t : ReactionTally =>
      decide (t.emoji = emoji)) ∘ fun emoji =>
        ⟨emoji, (rows.filter fun r => r.key.emoji = emoji).length,
          (rows.filter fun r => r.key.emoji = emoji).any fun r => r.key.userId = viewer⟩) with
  | none =>
    have hnone := List.find?_eq_none.mp hfind
    have hempty : rows.filter (fun r => r.key.emoji = emoji) = [] := by
      rw [List.filter_eq_nil_iff]
      intro r hr heq
      refine hnone emoji ?_ (by simp)
      rw [List.mem_dedup, List.mem_map]
      exact ⟨r, hr, by simpa using heq⟩
    simp [hempty]
  | some found =>
    have hfound := List.find?_some hfind
    simp only [Function.comp_apply, decide_eq_true_eq] at hfound
    simp [hfound]

theorem Await.outcome_error {x : Await} (h : x.reaches = false) (doing : String) :
    ∃ e, x.outcome doing = .error e := by
  cases hf : x.failure with
  | none => simp [Await.reaches, hf] at h
  | some e => exact ⟨doing ++ ": " ++ e, by simp [Await.outcome, hf]⟩

theorem ChatAwait.findUser_none {x : ChatAwait} {w : ChatWorld} {id : UserId}
    (h : x.findUser w id = none) : w.chat.db.users.find? id = none :=
  (Option.or_eq_none_iff.mp h).2

namespace ChatPhase
variable {x : ChatAwait} {w w' : ChatWorld} {r : ChatPhase ⊕ Except String Unit}

theorem orFail_effect {phase : ChatPhase} {doing : String}
    {next : ChatWorld × (ChatPhase ⊕ Except String Unit)} (h : x.orFail doing w next = (w', r))
    (hnext : next = (w', r) → phase.Effect w w' r) : phase.Effect w w' r := by
  cases hf : x.failure with
  | none => exact hnext (by simpa [ChatAwait.orFail, hf] using h)
  | some e =>
    simp only [ChatAwait.orFail, hf, Prod.mk.injEq] at h
    obtain ⟨rfl, rfl⟩ := h
    exact .failed _ _

theorem findMessage_effect {event : ChatMessagePosted}
    (h : (findMessage event).step x w = (w', r)) : (findMessage event).Effect w w' r := by
  refine orFail_effect h fun hnext => ?_
  cases hm : w.chat.db.messages.find? event.messageId with
  | none =>
    rw [hm] at hnext
    cases hnext
    exact .vanished event hm
  | some m =>
    rw [hm] at hnext
    cases hnext
    exact .found event m hm

theorem findAuthor_effect {m : ChatMessage} (h : (findAuthor m).step x w = (w', r)) :
    (findAuthor m).Effect w w' r := by
  refine orFail_effect h fun hnext => ?_
  cases ha : x.findUser w m.authorId with
  | none =>
    rw [ha] at hnext
    cases hnext
    exact .orphaned m (ChatAwait.findUser_none ha)
  | some author =>
    rw [ha] at hnext
    cases hreply : m.replyTo with
    | none =>
      rw [hreply] at hnext
      cases hnext
      exact .composed _ _ m rfl (.inr ⟨_, _, rfl⟩)
    | some id =>
      rw [hreply] at hnext
      cases hnext
      exact .composed _ _ m rfl (.inl rfl)

theorem findQuoted_effect {m : ChatMessage} {author : User} {id : MessageId}
    (h : (findQuoted m author id).step x w = (w', r)) :
    (findQuoted m author id).Effect w w' r := by
  refine orFail_effect h fun hnext => ?_
  cases hq : w.chat.db.messages.find? id with
  | none =>
    rw [hq] at hnext
    cases hnext
    exact .composed _ _ m rfl (.inr ⟨_, _, rfl⟩)
  | some quoted =>
    rw [hq] at hnext
    cases hnext
    exact .composed _ _ m rfl (.inl rfl)

theorem findQuotedAuthor_effect {m : ChatMessage} {author : User} {quoted : ChatMessage}
    (h : (findQuotedAuthor m author quoted).step x w = (w', r)) :
    (findQuotedAuthor m author quoted).Effect w w' r := by
  refine orFail_effect h fun hnext => ?_
  cases hu : x.findUser w quoted.authorId with
  | none =>
    rw [hu] at hnext
    cases hnext
    exact .composed _ _ m rfl (.inr ⟨_, _, rfl⟩)
  | some user =>
    rw [hu] at hnext
    cases hnext
    exact .composed _ _ m rfl (.inr ⟨_, _, rfl⟩)

theorem findReacted_effect {event : ChatReactionChanged}
    (h : (findReacted event).step x w = (w', r)) : (findReacted event).Effect w w' r := by
  refine orFail_effect h fun hnext => ?_
  cases hm : w.chat.db.messages.find? event.messageId with
  | none =>
    rw [hm] at hnext
    cases hnext
    exact .reactedVanished event hm
  | some m =>
    rw [hm] at hnext
    dsimp only at hnext
    split at hnext
    · cases hnext
      exact .failed _ _
    · rename_i emoji hemoji
      cases hnext
      exact .reactedFound event m emoji hm hemoji

/-- A publication that goes out may still be reported as failed. -/
theorem publishMessage_effect {channel : ChatChannel} {b : ChatMessageBroadcast}
    (h : (publishMessage channel b).step x w = (w', r)) :
    (publishMessage channel b).Effect w w' r := by
  cases hreach : x.reaches with
  | true =>
    simp only [ChatPhase.step, ChatMessageBroadcaster.handle, hreach, if_true, Prod.mk.injEq] at h
    obtain ⟨rfl, rfl⟩ := h
    exact .messageSent channel b _
  | false =>
    simp only [ChatPhase.step, ChatMessageBroadcaster.handle, hreach, Bool.false_eq_true,
      if_false, Prod.mk.injEq] at h
    obtain ⟨rfl, rfl⟩ := h
    obtain ⟨e, he⟩ := Await.outcome_error hreach
      ("could not broadcast chat message " ++ toString b.id)
    rw [he]
    exact .failed _ _

theorem publishReaction_effect {channel : ChatChannel} {b : ChatReactionBroadcast}
    (h : (publishReaction channel b).step x w = (w', r)) :
    (publishReaction channel b).Effect w w' r := by
  cases hreach : x.reaches with
  | true =>
    simp only [ChatPhase.step, ChatReactionBroadcaster.handle, hreach, if_true, Prod.mk.injEq] at h
    obtain ⟨rfl, rfl⟩ := h
    exact .reactionSent channel b _
  | false =>
    simp only [ChatPhase.step, ChatReactionBroadcaster.handle, hreach, Bool.false_eq_true,
      if_false, Prod.mk.injEq] at h
    obtain ⟨rfl, rfl⟩ := h
    obtain ⟨e, he⟩ := Await.outcome_error hreach
      ("could not broadcast reaction on chat message " ++ toString b.messageId)
    rw [he]
    exact .failed _ _

theorem step_effect {phase : ChatPhase} (h : phase.step x w = (w', r)) : phase.Effect w w' r := by
  cases phase with
  | findMessage event => exact findMessage_effect h
  | findAuthor m => exact findAuthor_effect h
  | findQuoted m author id => exact findQuoted_effect h
  | findQuotedAuthor m author quoted => exact findQuotedAuthor_effect h
  | publishMessage channel b => exact publishMessage_effect h
  | findReacted event => exact findReacted_effect h
  | tally event m emoji hemoji =>
    refine orFail_effect h fun hnext => ?_
    rw [ChatDb.find_reactionsFor] at hnext
    cases hnext
    exact .tallied event m emoji hemoji
  | publishReaction channel b => exact publishReaction_effect h
  | elsewhere =>
    cases h
    exact .elsewhere _

end ChatPhase

end Betsphere
