import Betsphere.Chat.Replies
import Betsphere.Events.Duties
set_option autoImplicit false

namespace Betsphere

/-- The frame shows the stored message, its author and what it replies to. -/
structure ChatMessageBroadcast.Shows (b : ChatMessageBroadcast) (db : ChatDb) (m : ChatMessage) :
    Prop where
  id : b.id = m.id
  author : b.author.id = m.authorId
  body : b.body = m.body.value
  createdAt : b.createdAt = m.createdAt
  replyTo : b.replyTo.map QuotedMessage.id = m.replyTo
  quoted : ∀ q, b.replyTo = some q → ∃ m', db.messages.find? q.id = some m' ∧
    q.body = m'.body.value ∧ q.author.id = m'.authorId

/-- The event is the post of a stored message. -/
def ChatDb.Names (db : ChatDb) (topic : String) (payload : Payload) (m : ChatMessage) : Prop :=
  topic = "chat.message_posted" ∧ payload = .messagePosted m.id ∧
    db.messages.find? m.id = some m

def ChatPhase.Composes (db : ChatDb) (topic : String) (payload : Payload) : ChatPhase → Prop
  | .findMessage event => ∃ m, db.Names topic payload m ∧ m.id = event.messageId
  | .findAuthor m => db.Names topic payload m
  | .findQuoted m author id =>
    db.Names topic payload m ∧ author.id = m.authorId ∧ m.replyTo = some id
  | .findQuotedAuthor m author quoted =>
    db.Names topic payload m ∧ author.id = m.authorId ∧ m.replyTo = some quoted.id ∧
      db.messages.find? quoted.id = some quoted
  | .publishMessage channel b =>
    ∃ m, db.Names topic payload m ∧ channel = m.channel ∧ b.Shows db m
  | _ => topic ≠ "chat.message_posted"

def ChatDb.Showing (db : ChatDb) (f : ChatChannel × ChatMessageBroadcast) : Prop :=
  ∃ m, db.messages.find? m.id = some m ∧ f.1 = m.channel ∧ f.2.Shows db m

structure PostWorld.Live (w : PostWorld) : Prop where
  kept : w.Kept
  chat : w.room.chat.Wf
  frames : ∀ f ∈ w.room.messages, w.room.chat.db.Showing f
  answered : ∀ c ∈ w.calls, ∀ view, c.phase = .returned (.ok view) →
    w.room.chat.db.messages.find? view.message.id = some view.message

def roomFacts : Facts PostWorld Payload ChatPhase where
  inv := PostWorld.Live
  named w topic payload :=
    topic = "chat.message_posted" → ∃ m, w.room.chat.db.Names topic payload m
  fits w topic payload phase := phase.Composes w.room.chat.db topic payload

/-- A posted message has been shown in its room. -/
def roomDuty : Duty PostWorld Payload where
  covers topic := topic = "chat.message_posted"
  recorded w topic payload := ∃ m, w.room.chat.db.Names topic payload m
  done w topic payload := ∃ m, w.room.chat.db.Names topic payload m ∧
    ∃ b, (m.channel, b) ∈ w.room.messages ∧ b.Shows w.room.chat.db m

section Growing
variable {db db' : ChatDb} {topic : String} {payload : Payload} {m : ChatMessage}
  {b : ChatMessageBroadcast} {w w' : PostWorld}

theorem ChatMessageBroadcast.Shows.kept (h : b.Shows db m) (hk : db.Keeps db') : b.Shows db' m where
  id := h.id
  author := h.author
  body := h.body
  createdAt := h.createdAt
  replyTo := h.replyTo
  quoted := by
    intro q hq
    obtain ⟨m', hm', hsame⟩ := h.quoted q hq
    exact ⟨m', hk _ _ hm', hsame⟩

theorem ChatDb.Names.kept (h : db.Names topic payload m) (hk : db.Keeps db') :
    db'.Names topic payload m :=
  ⟨h.1, h.2.1, hk _ _ h.2.2⟩

theorem ChatDb.Showing.kept {f : ChatChannel × ChatMessageBroadcast} (h : db.Showing f)
    (hk : db.Keeps db') : db'.Showing f := by
  obtain ⟨m, hm, hchannel, hshows⟩ := h
  exact ⟨m, hk _ _ hm, hchannel, hshows.kept hk⟩

theorem ChatPhase.Composes.kept {phase : ChatPhase} (h : phase.Composes db topic payload)
    (hk : db.Keeps db') : phase.Composes db' topic payload := by
  cases phase with
  | findMessage event =>
    obtain ⟨m, hm, hid⟩ := h
    exact ⟨m, hm.kept hk, hid⟩
  | findAuthor m => exact ChatDb.Names.kept h hk
  | findQuoted m author id => exact ⟨h.1.kept hk, h.2⟩
  | findQuotedAuthor m author quoted => exact ⟨h.1.kept hk, h.2.1, h.2.2.1, hk _ _ h.2.2.2⟩
  | publishMessage channel b =>
    obtain ⟨m, hm, hchannel, hshows⟩ := h
    exact ⟨m, hm.kept hk, hchannel, hshows.kept hk⟩
  | _ => exact h

theorem roomFacts_grows (hk : w.room.chat.db.Keeps w'.room.chat.db) : roomFacts.Grows w w' where
  named := by
    intro topic payload hnamed htopic
    obtain ⟨m, hm⟩ := hnamed htopic
    exact ⟨m, hm.kept hk⟩
  fits := fun _ _ _ h => ChatPhase.Composes.kept h hk

theorem roomDuty_grows (hk : w.room.chat.db.Keeps w'.room.chat.db)
    (hframes : ∀ f ∈ w.room.messages, f ∈ w'.room.messages) (h : roomDuty.done w topic payload) :
    roomDuty.done w' topic payload := by
  obtain ⟨m, hm, b, hb, hshows⟩ := h
  exact ⟨m, hm.kept hk, b, hframes _ hb, hshows.kept hk⟩

end Growing

section Transactions
variable {w w' : PostWorld} {events : List (Nat × String × Payload)}

theorem ChatAct.post_effect {room room' : ChatWorld} {message : ChatMessage} {event : Nat}
    (h : (ChatAct.post message event).transact room = some (room', events)) :
    events = [(event, "chat.message_posted", .messagePosted message.id)] := by
  obtain ⟨r, hr, heq⟩ := Option.map_eq_some_iff.mp h
  cases heq
  simp only [Chat.step] at hr
  split at hr
  · cases hr
    rfl
  · simp at hr

theorem ChatAct.other_posts {room room' : ChatWorld} {a : ChatAct}
    (hpost : ∀ message event, a ≠ .post message event)
    (h : a.transact room = some (room', events)) :
    ∀ e ∈ events, e.2.1 ≠ "chat.message_posted" := by
  have hmessages := (ChatAct.other_messages hpost h).1
  obtain ⟨-, heff⟩ := ChatAct.transact_cases h
  generalize room'.chat = chat at heff hmessages
  intro e he htopic
  cases heff with
  | posted message event hnew hauthor =>
    have hfound := Table.find?_upsert room.chat.db.messages message message.id
    rw [if_pos rfl] at hfound
    simp only at hmessages
    rw [hmessages, hnew] at hfound
    simp at hfound
  | foreign others htopics =>
    obtain ⟨f, hf, rfl⟩ := List.mem_map.mp he
    exact absurd (by simp [show f.2.1 = _ from htopic, ownTopics]) (htopics f hf)
  | committed i c id hc hphase =>
    obtain rfl := List.mem_singleton.mp he
    simp [RecordedChange.queue] at htopic
  | _ => simp at he

theorem PostMessage.read_answered {c : PostCall} {env : PostEnv} {phase : PostPhase}
    {view : ChatMessageView} (h : PostMessage.read c env w phase = .returned (.ok view)) :
    phase = .returned (.ok view) := by
  have hcompose : ∀ author quoted,
      PostMessage.compose c env author quoted ≠ .returned (.ok view) := by
    intro author quoted hcompose
    unfold PostMessage.compose at hcompose
    split at hcompose
    · simp [PostMessage.fail] at hcompose
    · simp at hcompose
  have honRoom : ∀ author, PostMessage.onRoom c env author ≠ .returned (.ok view) := by
    intro author honRoom
    unfold PostMessage.onRoom at honRoom
    split at honRoom
    · simp at honRoom
    · exact hcompose author none honRoom
  cases phase with
  | findAuthor =>
    simp only [PostMessage.read] at h
    split at h
    · simp [PostMessage.fail] at h
    · split at h
      · simp at h
      · exact absurd h (honRoom _)
  | findMarket author id =>
    simp only [PostMessage.read] at h
    split at h
    · simp [PostMessage.fail] at h
    · exact absurd h (honRoom _)
  | findQuoted author id =>
    simp only [PostMessage.read] at h
    split at h
    · simp [PostMessage.unknown, PostMessage.fail] at h
    · simp at h
  | findQuotedAuthor author quoted =>
    simp only [PostMessage.read] at h
    split at h
    · simp [PostMessage.unknown, PostMessage.fail] at h
    · exact absurd h (hcompose _ _)
  | save author quoted message => exact h
  | returned result => exact h

theorem PostWorld.setPhase_call {i : Nat} {c d : PostCall} {phase : PostPhase}
    (hd : d ∈ (w.setPhase i c phase).calls) : d.phase = phase ∨ d ∈ w.calls := by
  rcases List.mem_or_eq_of_mem_set hd with hd | rfl
  · exact .inr hd
  · exact .inl rfl

theorem PostWorld.Live.effect (h : w.Live) (he : w.Effect w' events) :
    w'.Live ∧ w'.room.messages = w.room.messages := by
  have hkept := h.kept.effect he
  have hkeeps := he.keeps
  have hanswered : ∀ c ∈ w.calls, ∀ view, c.phase = .returned (.ok view) →
      w'.room.chat.db.messages.find? view.message.id = some view.message :=
    fun c hc view hphase => hkeeps _ _ (h.answered c hc view hphase)
  have hframes : ∀ f ∈ w.room.messages, w'.room.chat.db.Showing f :=
    fun f hf => (h.frames f hf).kept hkeeps
  cases he with
  | called authorId channel body replyTo =>
    refine ⟨⟨hkept, h.chat, hframes, fun c hc view hphase => ?_⟩, rfl⟩
    rcases List.mem_append.mp hc with hc | hc
    · exact hanswered c hc view hphase
    · obtain rfl := List.mem_singleton.mp hc
      simp at hphase
  | moved i c phase hc hphase =>
    refine ⟨⟨hkept, h.chat, hframes, fun d hd view hview => ?_⟩, rfl⟩
    rcases PostWorld.setPhase_call hd with heq | hd
    · -- A call that has just moved has not returned a message, unless it had before.
      rcases hphase with ⟨env, hread⟩ | ⟨e, hfail⟩
      · have hold := PostMessage.read_answered ((hread.symm.trans heq.symm).trans hview)
        exact hanswered c (List.mem_of_getElem? hc) view hold
      · rw [heq, hfail] at hview
        simp [PostMessage.fail] at hview
    · exact hanswered d hd view hview
  | saved i c author quoted message event hc hphase hnew room events hroom =>
    obtain ⟨hmessages, hsent⟩ := ChatAct.post_messages hroom
    have hwf := h.chat.effect (ChatAct.transact_cases hroom).2
    refine ⟨⟨hkept, hwf, fun f hf => hframes f (hsent ▸ hf), fun d hd view hview => ?_⟩, hsent⟩
    rcases PostWorld.setPhase_call hd with heq | hd
    · cases heq.symm.trans hview
      change room.chat.db.messages.find? message.id = some message
      rw [hmessages, Table.find?_upsert, if_pos rfl]
    · exact hanswered d hd view hview
  | marketSaved market => exact ⟨⟨hkept, h.chat, hframes, hanswered⟩, rfl⟩
  | other a hpost room events hroom =>
    obtain ⟨-, hsent⟩ := ChatAct.other_messages hpost hroom
    have hwf := h.chat.effect (ChatAct.transact_cases hroom).2
    exact ⟨⟨hkept, hwf, fun f hf => hframes f (hsent ▸ hf), hanswered⟩, hsent⟩

theorem PostWorld.Effect.recorded (he : w.Effect w' events) :
    (∀ e ∈ events, e.2.1 = "chat.message_posted" →
      ∃ m, w'.room.chat.db.Names e.2.1 e.2.2 m) ∧
    ∀ topic payload m, w'.room.chat.db.Names topic payload m →
      w.room.chat.db.Names topic payload m ∨ ∃ e ∈ events, e.2 = (topic, payload) := by
  cases he with
  | saved i c author quoted message event hc hphase hnew room events hroom =>
    obtain rfl := ChatAct.post_effect hroom
    have hmessages := (ChatAct.post_messages hroom).1
    refine ⟨fun e he htopic => ?_, fun topic payload m hm => ?_⟩
    · obtain rfl := List.mem_singleton.mp he
      refine ⟨message, rfl, rfl, ?_⟩
      change room.chat.db.messages.find? message.id = some message
      rw [hmessages, Table.find?_upsert, if_pos rfl]
    · obtain ⟨rfl, rfl, hfind⟩ := hm
      simp only [hmessages, Table.find?_upsert] at hfind
      split at hfind
      · cases hfind
        exact .inr ⟨_, List.mem_singleton_self _, rfl⟩
      · exact .inl ⟨rfl, rfl, hfind⟩
  | other a hpost room events hroom =>
    have hmessages := (ChatAct.other_messages hpost hroom).1
    refine ⟨fun e he htopic => absurd htopic (ChatAct.other_posts hpost hroom e he),
      fun topic payload m hm => .inl ⟨hm.1, hm.2.1, ?_⟩⟩
    rw [← hmessages]
    exact hm.2.2
  | _ => exact ⟨by simp, fun topic payload m hm => .inl hm⟩

end Transactions

section Handlers
variable {x : ChatAwait} {w w' : ChatWorld} {phase : ChatPhase} {topic : String}
  {payload : Payload}

structure ChatWorld.Composed (w : ChatWorld) (topic : String) (payload : Payload) (w' : ChatWorld)
    (r : ChatPhase ⊕ Except String Unit) : Prop where
  chat : w'.chat = w.chat
  sent : ∀ f ∈ w.messages, f ∈ w'.messages
  frames : ∀ f ∈ w'.messages, f ∈ w.messages ∨ w.chat.db.Showing f
  next : ∀ phase', r = .inl phase' → phase'.Composes w.chat.db topic payload
  returned : topic = "chat.message_posted" → r = .inr (.ok ()) →
    ∃ m, w.chat.db.Names topic payload m ∧
      ∃ b, (m.channel, b) ∈ w'.messages ∧ b.Shows w.chat.db m

theorem ChatPhase.step_keeps {r : ChatPhase ⊕ Except String Unit}
    (h : phase.step x w = (w', r)) : w'.chat = w.chat ∧ ∀ f ∈ w.messages, f ∈ w'.messages := by
  cases ChatPhase.step_effect h with
  | messageSent channel b result => exact ⟨rfl, fun f hf => List.mem_append_left _ hf⟩
  | _ => exact ⟨rfl, fun _ => id⟩

theorem composed_next (h : phase.Composes w.chat.db topic payload) :
    w.Composed topic payload w (.inl phase) := by
  refine ⟨rfl, fun _ => id, fun _ => .inl, fun phase' heq => ?_, by simp⟩
  cases heq
  exact h

theorem composed_error (e : String) : w.Composed topic payload w (.inr (.error e)) :=
  ⟨rfl, fun _ => id, fun _ => .inl, by simp, by simp⟩

theorem composed_elsewhere {r : ChatPhase ⊕ Except String Unit} (hw : w'.chat = w.chat)
    (hm : w'.messages = w.messages) (htopic : topic ≠ "chat.message_posted")
    (hnext : ∀ phase', r = .inl phase' → phase'.Composes w.chat.db topic payload) :
    w.Composed topic payload w' r :=
  ⟨hw, fun _ hf => hm ▸ hf, fun _ hf => .inl (hm ▸ hf), hnext, fun h => absurd h htopic⟩

theorem ChatAwait.findUser_id {id : UserId} {user : User} (h : x.findUser w id = some user) :
    user.id = id := by
  rcases Option.or_eq_some_iff.mp h with h | ⟨-, h⟩
  · exact of_decide_eq_true (Option.filter_eq_some_iff.mp h).2
  · exact Table.find?_key h

theorem ChatAwait.findUser_author (hwf : w.chat.Wf) {m : ChatMessage}
    (hm : w.chat.db.messages.find? m.id = some m) :
    ∃ user, x.findUser w m.authorId = some user ∧ user.id = m.authorId := by
  cases hu : x.findUser w m.authorId with
  | some user => exact ⟨user, rfl, ChatAwait.findUser_id hu⟩
  | none =>
    have hauthor := hwf.authors m (Table.find?_mem hm)
    simp [ChatAwait.findUser_none hu] at hauthor

theorem Replies.find (hreplies : Replies w.chat.db.messages.rows) {m : ChatMessage} {id : MessageId}
    (hm : w.chat.db.messages.find? m.id = some m) (hreply : m.replyTo = some id) :
    ∃ quoted, w.chat.db.messages.find? id = some quoted ∧ quoted.id = id := by
  obtain ⟨pre, post, hrows⟩ := List.append_of_mem (Table.find?_mem hm)
  obtain ⟨quoted, hquoted, hid, -⟩ := hreplies pre m post hrows id hreply
  have hmem : quoted ∈ w.chat.db.messages.rows := by
    rw [hrows]
    exact List.mem_append_left _ hquoted
  exact ⟨quoted, hid ▸ Table.find?_of_mem hmem, hid⟩

theorem ChatDb.Showing.has {db : ChatDb} {f : ChatChannel × ChatMessageBroadcast}
    (hreplies : Replies db.messages.rows) (h : db.Showing f) {q : QuotedMessage}
    (hq : f.2.replyTo = some q) : db.Has q.id f.1 := by
  obtain ⟨m, hm, hchannel, hshows⟩ := h
  obtain ⟨quoted, hquoted, -⟩ := hshows.quoted q hq
  have hid : quoted.id = q.id := Table.find?_key hquoted
  have hreply : m.replyTo = some quoted.id := by
    rw [← hshows.replyTo, hq, hid]
    rfl
  have hroom := hreplies.room_eq db.messages.nodup (Table.find?_mem hm) (Table.find?_mem hquoted)
    hreply
  exact ⟨quoted, hquoted, hroom.trans hchannel.symm⟩

theorem broadcast_shows {db : ChatDb} {m : ChatMessage} {author : User}
    {replyTo : Option QuotedMessage} (hm : db.Names topic payload m)
    (hauthor : author.id = m.authorId) (hreply : replyTo.map QuotedMessage.id = m.replyTo)
    (hquoted : ∀ q, replyTo = some q → ∃ m', db.messages.find? q.id = some m' ∧
      q.body = m'.body.value ∧ q.author.id = m'.authorId) :
    (ChatMessageBroadcaster.broadcast m author replyTo).Composes db topic payload :=
  ⟨m, hm, rfl, rfl, hauthor, rfl, rfl, hreply, hquoted⟩

theorem handle_composed (hwf : w.chat.Wf) (hreplies : Replies w.chat.db.messages.rows)
    (hphase : phase.Composes w.chat.db topic payload) {r : ChatPhase ⊕ Except String Unit}
    (h : phase.step x w = (w', r)) : w.Composed topic payload w' r := by
  have hfail : ∀ doing next, x.orFail doing w next = (w', r) →
      (next = (w', r) → w.Composed topic payload w' r) → w.Composed topic payload w' r := by
    intro doing next heq hnext
    cases hf : x.failure with
    | none => exact hnext (by simpa [ChatAwait.orFail, hf] using heq)
    | some e =>
      simp only [ChatAwait.orFail, hf, Prod.mk.injEq] at heq
      obtain ⟨rfl, rfl⟩ := heq
      exact composed_error _
  cases phase with
  | findMessage event =>
    refine hfail _ _ h fun hnext => ?_
    obtain ⟨m, hm, hid⟩ := hphase
    rw [← hid, hm.2.2] at hnext
    cases hnext
    exact composed_next hm
  | findAuthor m =>
    refine hfail _ _ h fun hnext => ?_
    obtain ⟨author, hauthor, hid⟩ := ChatAwait.findUser_author (x := x) hwf hphase.2.2
    rw [hauthor] at hnext
    cases hreply : m.replyTo with
    | none =>
      rw [hreply] at hnext
      cases hnext
      exact composed_next (broadcast_shows hphase hid (by simp [hreply]) (by simp))
    | some id =>
      rw [hreply] at hnext
      cases hnext
      exact composed_next ⟨hphase, hid, hreply⟩
  | findQuoted m author id =>
    refine hfail _ _ h fun hnext => ?_
    obtain ⟨hm, hauthor, hreply⟩ := hphase
    obtain ⟨quoted, hquoted, rfl⟩ := Replies.find hreplies hm.2.2 hreply
    rw [hquoted] at hnext
    cases hnext
    exact composed_next ⟨hm, hauthor, hreply, hquoted⟩
  | findQuotedAuthor m author quoted =>
    refine hfail _ _ h fun hnext => ?_
    obtain ⟨hm, hauthor, hreply, hquoted⟩ := hphase
    obtain ⟨user, huser, hid⟩ := ChatAwait.findUser_author (x := x) hwf hquoted
    rw [huser] at hnext
    cases hnext
    refine composed_next (broadcast_shows hm hauthor hreply.symm fun q hq => ?_)
    cases hq
    exact ⟨quoted, hquoted, rfl, hid⟩
  | publishMessage channel b =>
    obtain ⟨m, hm, rfl, hshows⟩ := hphase
    simp only [ChatPhase.step, ChatMessageBroadcaster.handle, Prod.mk.injEq] at h
    obtain ⟨rfl, rfl⟩ := h
    cases hreach : x.reaches with
    | true =>
      refine ⟨rfl, fun f hf => List.mem_append_left _ hf, fun f hf => ?_, by simp,
        fun _ _ => ⟨m, hm, b, by simp, hshows⟩⟩
      rcases List.mem_append.mp hf with hf | hf
      · exact .inl hf
      · obtain rfl := List.mem_singleton.mp hf
        exact .inr ⟨m, hm.2.2, rfl, hshows⟩
    | false =>
      obtain ⟨e, he⟩ := Await.outcome_error hreach
        ("could not broadcast chat message " ++ toString b.id)
      rw [he]
      exact composed_error _
  | findReacted event =>
    cases ChatPhase.step_effect h with
    | failed phase e => exact composed_error e
    | composed phase phase' m hcomposing hnext => cases hcomposing
    | reactedVanished event hmessage => exact composed_elsewhere rfl rfl hphase (by simp)
    | reactedFound event m emoji hmessage hemoji => exact composed_next hphase
  | tally event m emoji hemoji =>
    cases ChatPhase.step_effect h with
    | failed phase e => exact composed_error e
    | composed phase phase' m hcomposing hnext => cases hcomposing
    | tallied event m emoji hemoji => exact composed_next hphase
  | publishReaction channel b =>
    cases ChatPhase.step_effect h with
    | failed phase e => exact composed_error e
    | composed phase phase' m hcomposing hnext => cases hcomposing
    | reactionSent channel b result => exact composed_elsewhere rfl rfl hphase (by simp)
  | elsewhere =>
    cases ChatPhase.step_effect h with
    | failed phase e => exact composed_error e
    | composed phase phase' m hcomposing hnext => cases hcomposing
    | elsewhere result => exact composed_elsewhere rfl rfl hphase (by simp)

end Handlers

section Runs
variable {w w' : PostWorld} {topic : String} {payload : Payload} {phase : ChatPhase}

theorem roomFacts_started {handler : Payload → Except DeliveryError ChatPhase}
    (hnamed : roomFacts.named w topic payload) (hmem : handler ∈ postService.registry.get topic)
    (hdecode : handler payload = .ok phase) :
    phase.Composes w.room.chat.db topic payload := by
  by_cases htopic : topic = "chat.message_posted"
  · obtain ⟨m, hm⟩ := hnamed htopic
    obtain ⟨rfl, rfl, hfind⟩ := hm
    simp only [postService, chatService, registered_chatMessage, List.mem_singleton] at hmem
    subst hmem
    cases hdecode
    exact ⟨m, ⟨rfl, rfl, hfind⟩, rfl⟩
  · rcases registered hmem with ⟨-, rfl⟩ | ⟨-, rfl⟩ | ⟨heq, -⟩ | ⟨-, rfl⟩ | rfl
    · cases hdecode
      exact htopic
    · cases hdecode
      exact htopic
    · exact absurd heq htopic
    · simp only [ChatReactionBroadcaster.begin, typedHandler] at hdecode
      split at hdecode
      · simp at hdecode
      · cases hdecode
        exact htopic
    · cases hdecode
      exact htopic

theorem postService_composed {x : ChatAwait} {r : ChatPhase ⊕ Except String Unit}
    (hw : w.Live) (hphase : phase.Composes w.room.chat.db topic payload)
    (h : postService.step x w phase = (w', r)) :
    w'.Live ∧ w.room.Composed topic payload w'.room r := by
  cases hstep : phase.step x w.room with
  | mk room result =>
    have hcomposed := handle_composed hw.chat hw.kept.replies hphase hstep
    simp only [postService, hstep, Prod.mk.injEq] at h
    obtain ⟨rfl, rfl⟩ := h
    have hframes : ∀ f ∈ room.messages, w.room.chat.db.Showing f :=
      fun f hf => (hcomposed.frames f hf).elim (hw.frames f) id
    refine ⟨⟨⟨?_, ?_, fun f hf q hq => ?_⟩, ?_, fun f hf => ?_, ?_⟩, hcomposed⟩
    · exact hcomposed.chat ▸ hw.kept.replies
    · exact hcomposed.chat ▸ hw.kept.calls
    · simp only [hcomposed.chat]
      exact (hframes f hf).has hw.kept.replies hq
    · exact hcomposed.chat ▸ hw.chat
    · simp only [hcomposed.chat]
      exact hframes f hf
    · exact hcomposed.chat ▸ hw.answered

theorem roomFacts_kept : roomFacts.Kept postService where
  transact := by
    intro c w w' events hinv h
    have he := PostAct.transact_effect h
    refine ⟨(hinv.effect he).1, roomFacts_grows he.keeps, fun e hmem htopic => ?_⟩
    exact he.recorded.1 e hmem htopic
  started := fun _ _ _ _ _ hnamed hmem hdecode => roomFacts_started hnamed hmem hdecode
  step := by
    intro topic payload x w w' phase r hinv hfits h
    obtain ⟨hlive, hcomposed⟩ := postService_composed hinv hfits h
    refine ⟨hlive, roomFacts_grows fun id m hm => ?_, fun phase' hphase => ?_⟩
    · rw [hcomposed.chat]
      exact hm
    · have hnext := hcomposed.next phase' hphase
      rw [← hcomposed.chat] at hnext
      exact hnext

theorem roomDuty_kept : roomDuty.Kept roomFacts postService where
  handled := by
    rintro topic rfl
    exact List.cons_ne_nil _ _
  decoded := by
    intro topic payload w handler e htopic hnamed hmem herror
    obtain ⟨m, rfl, rfl, -⟩ := hnamed htopic
    simp only [postService, chatService, registered_chatMessage, List.mem_singleton] at hmem
    subst hmem
    cases herror
  transact := by
    intro c w w' events hinv h
    have he := PostAct.transact_effect h
    have hsent := (hinv.effect he).2
    refine ⟨fun topic payload => roomDuty_grows he.keeps fun f hf => hsent ▸ hf,
      fun topic payload hrec => ?_⟩
    obtain ⟨m, hm⟩ := hrec
    exact (he.recorded.2 topic payload m hm).imp_left fun hold => ⟨m, hold⟩
  step := by
    intro x w w' phase r h
    cases hstep : phase.step x w.room with
    | mk room result =>
      simp only [postService, hstep, Prod.mk.injEq] at h
      obtain ⟨rfl, rfl⟩ := h
      obtain ⟨hchat, hsent⟩ := ChatPhase.step_keeps hstep
      refine ⟨fun topic payload => roomDuty_grows (fun id m hm => ?_) hsent,
        fun topic payload hrec => ?_⟩
      · simp only [hchat]
        exact hm
      · obtain ⟨m, hm⟩ := hrec
        simp only [hchat] at hm
        exact ⟨m, hm⟩
  returns := by
    intro topic payload x w w' phase htopic hinv hfits h
    obtain ⟨-, hcomposed⟩ := postService_composed hinv hfits h
    obtain ⟨m, hm, b, hb, hshows⟩ := hcomposed.returned htopic rfl
    refine ⟨m, ?_, b, hb, ?_⟩
    · rw [hcomposed.chat]
      exact hm
    · rw [hcomposed.chat]
      exact hshows

variable {ι : Type} [DecidableEq ι]

theorem init_live : PostWorld.init.Live := by
  refine ⟨init_kept, Chat.init_wf, ?_, ?_⟩ <;> simp [PostWorld.init, ChatWorld.init]

/-- In every run, a message that a post answered with is stored, and once its event is not
pending a frame in its room has shown it with its author and what it quotes; no other frames
go out. -/
theorem messages_reach_rooms {as : List (Outbox.Act PostAct ChatAwait ι)}
    {s : Outbox PostWorld Payload ChatPhase ι}
    (h : Transition.run (Outbox.step postService) (.init .init) as = some s) :
    (∀ c ∈ s.world.calls, ∀ view, c.phase = .returned (.ok view) →
      view.message ∈ s.world.room.chat.db.messages.rows) ∧
    (∀ m ∈ s.world.room.chat.db.messages.rows,
      (∀ r ∈ s.rows.rows, r.topic = "chat.message_posted" → r.payload = .messagePosted m.id →
        r.processedAt ≠ none) →
      ∃ b, (m.channel, b) ∈ s.world.room.messages ∧ b.Shows s.world.room.chat.db m) ∧
    ∀ f ∈ s.world.room.messages, ∃ m ∈ s.world.room.chat.db.messages.rows,
      f.1 = m.channel ∧ f.2.Shows s.world.room.chat.db m := by
  have hnone : ∀ topic payload, roomDuty.covers topic →
      ¬roomDuty.recorded PostWorld.init topic payload := by
    rintro topic payload - ⟨m, -, -, hm⟩
    cases hm
  obtain ⟨-, hfacts, hdone⟩ := Duty.Done.run roomDuty_kept roomFacts_kept init_live hnone h
  have hlive := hfacts.world
  refine ⟨fun c hc view hview => Table.find?_mem (hlive.answered c hc view hview),
    fun m hm hprocessed => ?_, fun f hf => ?_⟩
  · have hfind := Table.find?_of_mem hm
    rcases hdone.pending "chat.message_posted" (.messagePosted m.id) rfl ⟨m, rfl, rfl, hfind⟩ with
      ⟨m', ⟨-, hid, hm'⟩, hshown⟩ | ⟨r, hr, htopic, hpayload, hpending⟩
    · simp only [Payload.messagePosted.injEq] at hid
      rw [← hid, hfind] at hm'
      cases hm'
      exact hshown
    · exact absurd hpending (hprocessed r hr htopic hpayload)
  · obtain ⟨m, hm, hchannel, hshows⟩ := hlive.frames f hf
    exact ⟨m, Table.find?_mem hm, hchannel, hshows⟩

end Runs

namespace Sample

def postAwaits (n : Nat) : List (Outbox.Act PostAct ChatAwait Unit) :=
  List.replicate n (.handle () ⟨⟨5, none, false⟩, none⟩)

/-- The first frame reaches the room but its publish fails, and a later pass sends it again. -/
def shownReply : List (Outbox.Act PostAct ChatAwait Unit) :=
  selfReply ++ [.claim ()] ++ postAwaits 4 ++ [.handle () ⟨⟨5, some "down", true⟩, none⟩] ++
    postAwaits 9 ++ [.commit () 6, .claim ()] ++ postAwaits 6 ++ [.commit () 7]

end Sample

theorem messages_reach_rooms_again :
    let w := (Sample.posting Sample.shownReply).world
    (w.room.messages.map fun f => (f.2.id, f.2.replyTo.map QuotedMessage.id)) =
        [(⟨7⟩, none), (⟨8⟩, some ⟨7⟩), (⟨7⟩, none)] ∧
      ∀ m ∈ w.room.chat.db.messages.rows,
        ∃ b, (m.channel, b) ∈ w.room.messages ∧ b.Shows w.room.chat.db m := by
  have hprocessed : (Sample.posting Sample.shownReply).rows.rows.all
      (fun r => r.processedAt.isSome) = true := by decide +kernel
  refine ⟨by decide +kernel, fun m hm => ?_⟩
  refine (messages_reach_rooms (Sample.run_posting (by decide +kernel))).2.1 m hm
    fun r hr _ _ => ?_
  exact Option.isSome_iff_ne_none.mp (List.all_eq_true.mp hprocessed r hr)

end Betsphere
