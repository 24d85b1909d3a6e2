import Betsphere.Chat.Posting
import Betsphere.Lib.Backlinks
set_option autoImplicit false

namespace Betsphere

/-- Every reply in the table is to an earlier message of its own channel. -/
abbrev Replies (rows : List ChatMessage) : Prop :=
  Backlinks.Linked ChatMessage.id ChatMessage.replyTo ChatMessage.channel rows

def ChatDb.Has (db : ChatDb) (id : MessageId) (channel : ChatChannel) : Prop :=
  ∃ m, db.messages.find? id = some m ∧ m.channel = channel

/-- What a post may quote is stored in its room. -/
def PostPhase.Quotes (db : ChatDb) (channel : ChatChannel) (replyTo : Option MessageId) :
    PostPhase → Prop
  | .findQuoted _ id => replyTo = some id
  | .findQuotedAuthor _ quoted =>
    replyTo = some quoted.id ∧ db.messages.find? quoted.id = some quoted ∧ quoted.channel = channel
  | .save _ quoted message =>
    (∀ id, message.replyTo = some id → db.Has id message.channel) ∧
      ∀ q, quoted = some q → q.message.channel = message.channel
  | .returned (.ok view) => ∀ q, view.replyTo = some q → q.message.channel = view.message.channel
  | _ => True

def PostCall.Quotes (db : ChatDb) (c : PostCall) : Prop := c.phase.Quotes db c.channel c.replyTo

def ChatPhase.Quotes (db : ChatDb) : ChatPhase → Prop
  | .findAuthor m => db.messages.find? m.id = some m
  | .findQuoted m _ id => db.messages.find? m.id = some m ∧ m.replyTo = some id
  | .findQuotedAuthor m _ quoted => db.Has quoted.id m.channel
  | .publishMessage channel b => ∀ q, b.replyTo = some q → db.Has q.id channel
  | _ => True

structure PostWorld.Kept (w : PostWorld) : Prop where
  replies : Replies w.room.chat.db.messages.rows
  calls : ∀ c ∈ w.calls, c.Quotes w.room.chat.db
  frames : ∀ f ∈ w.room.messages, ∀ q, f.2.replyTo = some q → w.room.chat.db.Has q.id f.1

def replyFacts : Facts PostWorld Payload ChatPhase where
  inv := PostWorld.Kept
  named _ _ _ := True
  fits w _ _ phase := phase.Quotes w.room.chat.db

section Growing
variable {db db' : ChatDb} {w w' : PostWorld}

def ChatDb.Keeps (db db' : ChatDb) : Prop :=
  ∀ id m, db.messages.find? id = some m → db'.messages.find? id = some m

theorem ChatDb.Has.kept {id : MessageId} {channel : ChatChannel} (h : db.Has id channel)
    (hk : db.Keeps db') : db'.Has id channel := by
  obtain ⟨m, hm, hchannel⟩ := h
  exact ⟨m, hk id m hm, hchannel⟩

theorem PostCall.Quotes.kept {c : PostCall} (h : c.Quotes db) (hk : db.Keeps db') :
    c.Quotes db' := by
  obtain ⟨authorId, channel, body, replyTo, phase⟩ := c
  cases phase with
  | findQuotedAuthor author quoted => exact ⟨h.1, hk _ _ h.2.1, h.2.2⟩
  | save author quoted message => exact ⟨fun id hid => (h.1 id hid).kept hk, h.2⟩
  | returned result => cases result <;> exact h
  | _ => exact h

theorem ChatPhase.Quotes.kept {phase : ChatPhase} (h : phase.Quotes db) (hk : db.Keeps db') :
    phase.Quotes db' := by
  cases phase with
  | findAuthor m => exact hk _ _ h
  | findQuoted m author id => exact ⟨hk _ _ h.1, h.2⟩
  | findQuotedAuthor m author quoted => exact ChatDb.Has.kept h hk
  | publishMessage channel b => exact fun q hq => (h q hq).kept hk
  | _ => trivial

theorem replyFacts_grows (hk : w.room.chat.db.Keeps w'.room.chat.db) : replyFacts.Grows w w' where
  named := fun _ _ h => h
  fits := fun _ _ _ h => ChatPhase.Quotes.kept h hk

end Growing

section Posts
variable {w : PostWorld} {c : PostCall} {env : PostEnv} {author : User} {db : ChatDb}

theorem compose_quotes {quoted : Option RepliedMessage}
    (hreply : ∀ id, c.replyTo = some id → db.Has id c.channel)
    (hquoted : ∀ q, quoted = some q → q.message.channel = c.channel) :
    (PostMessage.compose c env author quoted).Quotes db c.channel c.replyTo := by
  unfold PostMessage.compose
  cases hbody : MessageBody.new c.body with
  | error e => trivial
  | ok body => exact ⟨hreply, hquoted⟩

theorem onRoom_quotes : (PostMessage.onRoom c env author).Quotes db c.channel c.replyTo := by
  unfold PostMessage.onRoom
  cases hreply : c.replyTo with
  | some id => exact rfl
  | none =>
    have hquotes : (PostMessage.compose c env author none).Quotes db c.channel c.replyTo :=
      compose_quotes (by simp [hreply]) (by simp)
    rw [hreply] at hquotes
    exact hquotes

theorem read_quotes (h : c.Quotes w.room.chat.db) :
    (PostMessage.read c env w c.phase).Quotes w.room.chat.db c.channel c.replyTo := by
  unfold PostCall.Quotes at h
  cases hphase : c.phase with
  | findAuthor =>
    simp only [PostMessage.read]
    split
    · trivial
    · split
      · trivial
      · exact onRoom_quotes
  | findMarket author id =>
    simp only [PostMessage.read]
    split
    · trivial
    · exact onRoom_quotes
  | findQuoted author id =>
    simp only [PostMessage.read]
    rw [hphase] at h
    split
    · trivial
    · rename_i message hfind
      obtain ⟨hstored, hchannel⟩ := Option.filter_eq_some_iff.mp hfind
      have hid : message.id = id := Table.find?_key hstored
      rw [← hid] at hstored
      exact ⟨by rw [hid]; exact h, hstored, of_decide_eq_true hchannel⟩
  | findQuotedAuthor author quoted =>
    rw [hphase] at h
    obtain ⟨hreply, hstored, hchannel⟩ := h
    simp only [PostMessage.read]
    split
    · trivial
    · refine compose_quotes (fun id hid => ?_) fun q hq => ?_
      · rw [hreply] at hid
        cases hid
        exact ⟨quoted, hstored, hchannel⟩
      · cases hq
        exact hchannel
  | save author quoted message =>
    rw [hphase] at h
    exact h
  | returned result =>
    rw [hphase] at h
    exact h

end Posts

section Steps
variable {w w' : PostWorld}

theorem PostWorld.Effect.keeps {events : List (Nat × String × Payload)} (h : w.Effect w' events) :
    w.room.chat.db.Keeps w'.room.chat.db := by
  cases h with
  | saved i c author quoted message event hc hphase hnew room events hroom =>
    exact (ChatAct.transact_cases hroom).2.grows.messages
  | other a hpost room events hroom => exact (ChatAct.transact_cases hroom).2.grows.messages
  | _ => exact fun _ _ => id

theorem setPhase_quotes {db : ChatDb} {i : Nat} {c : PostCall} {phase : PostPhase}
    (h : ∀ c ∈ w.calls, c.Quotes db) (hphase : phase.Quotes db c.channel c.replyTo) :
    ∀ d ∈ (w.setPhase i c phase).calls, d.Quotes db := by
  intro d hd
  rcases List.mem_or_eq_of_mem_set hd with hd | rfl
  · exact h d hd
  · exact hphase

theorem PostWorld.Kept.effect {events : List (Nat × String × Payload)} (h : w.Kept)
    (he : w.Effect w' events) : w'.Kept := by
  have hkeeps := he.keeps
  have hcalls : ∀ c ∈ w.calls, c.Quotes w'.room.chat.db := fun c hc => (h.calls c hc).kept hkeeps
  have hframes : ∀ f ∈ w.room.messages, ∀ q, f.2.replyTo = some q →
      w'.room.chat.db.Has q.id f.1 := fun f hf q hq => (h.frames f hf q hq).kept hkeeps
  cases he with
  | called authorId channel body replyTo =>
    refine ⟨h.replies, fun c hc => ?_, h.frames⟩
    rcases List.mem_append.mp hc with hc | hc
    · exact h.calls c hc
    · obtain rfl := List.mem_singleton.mp hc
      trivial
  | moved i c phase hc hphase =>
    refine ⟨h.replies, setPhase_quotes h.calls ?_, h.frames⟩
    rcases hphase with ⟨env, rfl⟩ | ⟨e, rfl⟩
    · exact read_quotes (h.calls c (List.mem_of_getElem? hc))
    · trivial
  | saved i c author quoted message event hc hphase hnew room events hroom =>
    have hmem := List.mem_of_getElem? hc
    have hquotes := h.calls c hmem
    rw [PostCall.Quotes, hphase] at hquotes
    obtain ⟨hmessages, hsent⟩ := ChatAct.post_messages hroom
    refine ⟨?_, setPhase_quotes hcalls hquotes.2, fun f hf => hframes f (hsent ▸ hf)⟩
    change Replies room.chat.db.messages.rows
    rw [hmessages, Table.rows_upsert_fresh hnew]
    refine h.replies.concat fun id hid => ?_
    obtain ⟨q, hq, hchannel⟩ := hquotes.1 id hid
    exact ⟨q, Table.find?_mem hq, Table.find?_key hq, hchannel⟩
  | marketSaved market => exact ⟨h.replies, h.calls, h.frames⟩
  | other a hpost room events hroom =>
    obtain ⟨hmessages, hsent⟩ := ChatAct.other_messages hpost hroom
    refine ⟨?_, hcalls, fun f hf => hframes f (hsent ▸ hf)⟩
    change Replies room.chat.db.messages.rows
    rw [hmessages]
    exact h.replies

theorem replyFacts_transact {a : PostAct} {events : List (Nat × String × Payload)} (h : w.Kept)
    (ha : a.transact w = some (w', events)) :
    w'.Kept ∧ replyFacts.Grows w w' ∧ ∀ e ∈ events, replyFacts.named w' e.2.1 e.2.2 := by
  have he := PostAct.transact_effect ha
  exact ⟨h.effect he, replyFacts_grows he.keeps, fun _ _ => trivial⟩

theorem replyFacts_started {topic : String} {payload : Payload}
    {handler : Payload → Except DeliveryError ChatPhase} {phase : ChatPhase}
    (hmem : handler ∈ postService.registry.get topic) (hdecode : handler payload = .ok phase) :
    phase.Quotes w.room.chat.db := by
  have hbegin : ∀ (name : String) (E : Type) (fromValue : Payload → Except String E)
      (begin : E → ChatPhase), (∀ event, (begin event).Quotes w.room.chat.db) →
      typedHandler name fromValue begin payload = .ok phase → phase.Quotes w.room.chat.db := by
    intro name E fromValue begin hquotes h
    unfold typedHandler at h
    cases hvalue : fromValue payload with
    | error e => simp [hvalue] at h
    | ok event =>
      rw [hvalue] at h
      cases h
      exact hquotes event
  rcases registered hmem with ⟨-, rfl⟩ | ⟨-, rfl⟩ | ⟨-, rfl⟩ | ⟨-, rfl⟩ | rfl
  · cases hdecode
    trivial
  · cases hdecode
    trivial
  · exact hbegin _ _ _ .findMessage (fun _ => trivial) hdecode
  · exact hbegin _ _ _ .findReacted (fun _ => trivial) hdecode
  · cases hdecode
    trivial

theorem broadcast_quotes {db : ChatDb} {m : ChatMessage} {author : User}
    {replyTo : Option QuotedMessage} (h : ∀ q, replyTo = some q → db.Has q.id m.channel) :
    (ChatMessageBroadcaster.broadcast m author replyTo).Quotes db := h

/-- What a handler goes on with still quotes from the room of its message. -/
theorem handle_quotes {x : ChatAwait} {room room' : ChatWorld} {phase phase' : ChatPhase}
    (hreplies : Replies room.chat.db.messages.rows) (hquotes : phase.Quotes room.chat.db)
    (h : phase.step x room = (room', .inl phase')) : phase'.Quotes room.chat.db := by
  have hgoes : ∀ doing (next : ChatWorld × (ChatPhase ⊕ Except String Unit)),
      x.orFail doing room next = (room', .inl phase') → next = (room', .inl phase') := by
    intro doing next heq
    unfold ChatAwait.orFail at heq
    split at heq
    · simp at heq
    · exact heq
  cases phase with
  | findMessage event =>
    have hnext := hgoes _ _ h
    cases hm : room.chat.db.messages.find? event.messageId with
    | none => simp [hm] at hnext
    | some m =>
      rw [hm] at hnext
      cases hnext
      have hid : m.id = event.messageId := Table.find?_key hm
      change room.chat.db.messages.find? m.id = some m
      rw [hid]
      exact hm
  | findAuthor m =>
    have hnext := hgoes _ _ h
    cases ha : x.findUser room m.authorId with
    | none => simp [ha] at hnext
    | some author =>
      rw [ha] at hnext
      cases hreply : m.replyTo with
      | none =>
        rw [hreply] at hnext
        cases hnext
        exact broadcast_quotes (by simp)
      | some id =>
        rw [hreply] at hnext
        cases hnext
        exact ⟨hquotes, hreply⟩
  | findQuoted m author id =>
    have hnext := hgoes _ _ h
    cases hq : room.chat.db.messages.find? id with
    | none =>
      rw [hq] at hnext
      cases hnext
      exact broadcast_quotes (by simp)
    | some quoted =>
      rw [hq] at hnext
      cases hnext
      -- The message and what it replies to are both stored, so they share their room.
      have hid : quoted.id = id := Table.find?_key hq
      have hroom : quoted.channel = m.channel :=
        hreplies.room_eq room.chat.db.messages.nodup (Table.find?_mem hquotes.1)
          (Table.find?_mem hq) (by rw [hid]; exact hquotes.2)
      exact ⟨quoted, hid ▸ hq, hroom⟩
  | findQuotedAuthor m author quoted =>
    have hnext := hgoes _ _ h
    cases hu : x.findUser room quoted.authorId with
    | none =>
      rw [hu] at hnext
      cases hnext
      exact broadcast_quotes (by simp)
    | some user =>
      rw [hu] at hnext
      cases hnext
      refine broadcast_quotes fun q hq => ?_
      cases hq
      exact hquotes
  | publishMessage channel b => simp [ChatPhase.step, ChatMessageBroadcaster.handle] at h
  | findReacted event =>
    cases ChatPhase.step_effect h with
    | composed phase phase' m hphase hnext => simp [ChatPhase.composing] at hphase
    | reactedFound event m emoji hmessage hemoji => trivial
  | tally event m emoji hemoji =>
    cases ChatPhase.step_effect h with
    | composed phase phase' m hphase hnext => simp [ChatPhase.composing] at hphase
    | tallied event m emoji hemoji => trivial
  | publishReaction channel b => simp [ChatPhase.step, ChatReactionBroadcaster.handle] at h
  | elsewhere => simp [ChatPhase.step, ChatMessageBroadcaster.handle] at h

theorem replyFacts_step {x : ChatAwait} {phase : ChatPhase}
    {r : ChatPhase ⊕ Except String Unit} (hw : w.Kept) (hquotes : phase.Quotes w.room.chat.db)
    (h : postService.step x w phase = (w', r)) :
    w'.Kept ∧ replyFacts.Grows w w' ∧ ∀ phase', r = .inl phase' → phase'.Quotes w'.room.chat.db := by
  cases hstep : phase.step x w.room with
  | mk room result =>
    simp only [postService, hstep, Prod.mk.injEq] at h
    obtain ⟨rfl, rfl⟩ := h
    have hdb : room.chat.db = w.room.chat.db := by
      cases ChatPhase.step_effect hstep <;> rfl
    refine ⟨⟨hdb ▸ hw.replies, hdb ▸ hw.calls, ?_⟩, replyFacts_grows ?_, ?_⟩
    · cases ChatPhase.step_effect hstep with
      | messageSent channel b result =>
        intro f hf q hq
        rcases List.mem_append.mp hf with hf | hf
        · exact hw.frames f hf q hq
        · obtain rfl := List.mem_singleton.mp hf
          exact hquotes q hq
      | _ => exact hw.frames
    · intro id m hm
      simp only [hdb]
      exact hm
    · rintro phase' rfl
      simp only [hdb]
      exact handle_quotes hw.replies hquotes hstep

theorem replyFacts_kept : replyFacts.Kept postService where
  transact := fun _ _ _ _ hinv h => replyFacts_transact hinv h
  started := fun _ _ _ _ _ _ hmem hdecode => replyFacts_started hmem hdecode
  step := fun _ _ _ _ _ _ _ hinv hquotes h => replyFacts_step hinv hquotes h

end Steps

/-- A request reads its page in one state and what the page quotes in a later one; whatever
else it reads, and which of its reads fail, is open. -/
structure HistoryReads.Between (r : HistoryReads) (earlier later : ChatDb) : Prop where
  listRecent : ∀ channel limit cursor page, r.listRecent channel limit cursor = .ok page →
    listRecentMessages earlier.messages.rows channel limit cursor = .ok page
  findByIds : ∀ ids found, r.findByIds ids = .ok found →
    found.Perm (later.messages.rows.filter fun m => m.id ∈ ids)

/-- Nothing quotes across rooms. -/
structure PostWorld.RepliesStay (w : PostWorld) : Prop where
  stored : ∀ pre m post, w.room.chat.db.messages.rows = pre ++ m :: post → ∀ id,
    m.replyTo = some id → ∃ q ∈ pre, q.id = id ∧ q.channel = m.channel
  chains : ∀ chain : List ChatMessage, (∀ m ∈ chain, m ∈ w.room.chat.db.messages.rows) →
    (chain.IsChain fun m q => m.replyTo = some q.id) →
      chain.length ≤ w.room.chat.db.messages.rows.length ∧
        ∀ m ∈ chain, ∀ q ∈ chain, m.channel = q.channel
  posted : ∀ c ∈ w.calls, ∀ view, c.phase = .returned (.ok view) → ∀ q, view.replyTo = some q →
    q.message.channel = view.message.channel
  frames : ∀ f ∈ w.room.messages, ∀ q, f.2.replyTo = some q →
    ∃ m ∈ w.room.chat.db.messages.rows, m.id = q.id ∧ m.channel = f.1

section Runs
variable {ι : Type} [DecidableEq ι] {s s' : Outbox PostWorld Payload ChatPhase ι}

theorem PostWorld.Kept.repliesStay {w : PostWorld} (h : w.Kept) : w.RepliesStay where
  stored := h.replies
  chains := fun _ hmem hchain => h.replies.chain_le w.room.chat.db.messages.nodup hmem hchain
  posted := by
    intro c hc view hphase
    have hquotes := h.calls c hc
    rw [PostCall.Quotes, hphase] at hquotes
    exact hquotes
  frames := by
    intro f hf q hq
    obtain ⟨m, hm, hchannel⟩ := h.frames f hf q hq
    exact ⟨m, Table.find?_mem hm, Table.find?_key hm, hchannel⟩

theorem post_step_keeps {a : Outbox.Act PostAct ChatAwait ι} (h : s.step postService a = some s') :
    s.world.room.chat.db.Keeps s'.world.room.chat.db := by
  rcases Outbox.step_world h with heq | ⟨c, events, ht⟩ | ⟨x, phase, result, hstep⟩
  · rw [heq]
    exact fun _ _ => id
  · exact (PostAct.transact_effect ht).keeps
  · have hdb : (phase.step x s.world.room).1.chat.db = s.world.room.chat.db := by
      cases hroom : phase.step x s.world.room with
      | mk room r => cases ChatPhase.step_effect hroom <;> rfl
    have hworld : { s.world with room := (phase.step x s.world.room).1 } = s'.world :=
      congrArg Prod.fst hstep
    intro id m hm
    rw [← hworld, hdb]
    exact hm

theorem init_kept : PostWorld.init.Kept := by
  refine ⟨Backlinks.linked_nil, ?_, ?_⟩ <;> simp [PostWorld.init, ChatWorld.init]

theorem post_run_kept {as : List (Outbox.Act PostAct ChatAwait ι)}
    (h : Transition.run (Outbox.step postService) (.init .init) as = some s) : s.world.Kept := by
  have hstep : ∀ (t : Outbox PostWorld Payload ChatPhase ι) a t',
      t.Sound postService ∧ replyFacts.Hold t → t.step postService a = some t' →
        t'.Sound postService ∧ replyFacts.Hold t' :=
    fun t a t' hi ha => ⟨hi.1.step ha, Facts.Hold.step replyFacts_kept hi.1 hi.2 ha⟩
  exact (Transition.run_invariant' hstep
    ⟨Outbox.init_sound _, Facts.init_hold init_kept⟩ h).2.world

theorem post_run_keeps {as : List (Outbox.Act PostAct ChatAwait ι)}
    (h : Transition.run (Outbox.step postService) s as = some s') :
    s.world.room.chat.db.Keeps s'.world.room.chat.db := by
  have hstep : ∀ (t : Outbox PostWorld Payload ChatPhase ι) a t',
      s.world.room.chat.db.Keeps t.world.room.chat.db → t.step postService a = some t' →
        s.world.room.chat.db.Keeps t'.world.room.chat.db :=
    fun t a t' hi ha id m hm => post_step_keeps ha id m (hi id m hm)
  exact Transition.run_invariant' hstep (fun _ _ => id) h

/-- In every state that posts lead to, replies, and everything that shows a quote, stay in
their room; so does a page of the history, however much is posted while it is loaded. -/
theorem replies_stay {as as' : List (Outbox.Act PostAct ChatAwait ι)}
    (h : Transition.run (Outbox.step postService) (.init .init) as = some s)
    (h' : Transition.run (Outbox.step postService) s as' = some s') :
    s'.world.RepliesStay ∧
      ∀ r : HistoryReads, r.Between s.world.room.chat.db s'.world.room.chat.db →
        ∀ viewer channel limit window views,
          ListRecentMessages.execute r viewer channel limit window = .ok views → ∀ v ∈ views,
            v.message.channel = channel ∧
              ∀ q, v.replyTo = some q → q.message.channel = channel := by
  have hrun : Transition.run (Outbox.step postService) (.init .init) (as ++ as') = some s' := by
    rw [Transition.run_append_some h]
    exact h'
  have hkept := post_run_kept hrun
  refine ⟨hkept.repliesStay, fun r hr viewer channel limit window views hviews v hv => ?_⟩
  have hkeeps := post_run_keeps h'
  obtain ⟨messages, cursor, ids, found, hlist, hfound, hall⟩ :=
    ListRecentMessages.execute_of hviews
  obtain ⟨hmem, hquote⟩ := hall v hv
  obtain ⟨hstored, hchannel⟩ := mem_listRecentMessages (hr.listRecent _ _ _ _ hlist) _ hmem
  refine ⟨hchannel, fun q hq => ?_⟩
  obtain ⟨hreply, hqmem⟩ := hquote q hq
  have hlater : v.message ∈ s'.world.room.chat.db.messages.rows :=
    Table.find?_mem (hkeeps _ _ (Table.find?_of_mem hstored))
  have hqlater : q.message ∈ s'.world.room.chat.db.messages.rows :=
    List.mem_of_mem_filter (((hr.findByIds _ _ hfound).mem_iff).mp hqmem)
  exact (hkept.replies.room_eq s'.world.room.chat.db.messages.nodup hlater hqlater hreply).trans
    hchannel

end Runs

namespace Sample

def drawing (fresh : Uuid) (event : Nat) : PostEnv := ⟨none, 0, fresh, event⟩

def selfReply : List (Outbox.Act PostAct ChatAwait Unit) :=
  [.other (.saveUser carol), .call carol.id .global ['h', 'i'] none, .step 0 (drawing 7 0),
    .step 0 (drawing 0 0), .call carol.id .global ['h', 'o'] (some ⟨7⟩), .step 1 (drawing 0 0),
    .step 1 (drawing 0 0), .step 1 (drawing 8 0), .step 1 (drawing 0 1)].map .transact

def posting (as : List (Outbox.Act PostAct ChatAwait Unit)) :
    Outbox PostWorld Payload ChatPhase Unit :=
  (Transition.run (Outbox.step postService) (.init .init) as).getD (.init .init)

theorem run_posting {as : List (Outbox.Act PostAct ChatAwait Unit)}
    (h : (Transition.run (Outbox.step postService) (.init .init) as).isSome) :
    Transition.run (Outbox.step postService) (.init .init) as = some (posting as) := by
  obtain ⟨s, hs⟩ := Option.isSome_iff_exists.mp h
  simp [posting, hs]

end Sample

theorem replies_stay_answered :
    let s := Sample.posting Sample.selfReply
    (s.world.room.chat.db.messages.rows.map fun m => (m.id, m.replyTo)) =
        [(⟨7⟩, none), (⟨8⟩, some ⟨7⟩)] ∧
      s.world.RepliesStay ∧
      ∀ r : HistoryReads, r.Between s.world.room.chat.db s.world.room.chat.db →
        ∀ viewer channel limit window views,
          ListRecentMessages.execute r viewer channel limit window = .ok views → ∀ v ∈ views,
            v.message.channel = channel ∧
              ∀ q, v.replyTo = some q → q.message.channel = channel :=
  have hnothing : Transition.run (Outbox.step postService) (Sample.posting Sample.selfReply) [] =
      some (Sample.posting Sample.selfReply) := rfl
  ⟨by decide +kernel, replies_stay (Sample.run_posting (by decide +kernel)) hnothing⟩

end Betsphere
