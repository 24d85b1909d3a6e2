import Betsphere.Chat.Broadcasters
import Betsphere.Events.Running
set_option autoImplicit false

namespace Betsphere

/-- The foreign keys of the chat tables. -/
structure Chat.Wf (s : Chat) : Prop where
  mirrors : s.Mirrors
  authors : ∀ m ∈ s.db.messages.rows, (s.db.users.find? m.authorId).isSome
  reacted : ∀ r ∈ s.db.reactions.rows, (s.db.messages.find? r.key.messageId).isSome
  reacting : ∀ (i : Nat) (c : ReactionCall), s.calls[i]? = some c → c.holds = true →
    (s.db.messages.find? c.key.messageId).isSome

/-- Messages never change and users never go. -/
structure Chat.Grows (s s' : Chat) : Prop where
  messages : ∀ id m, s.db.messages.find? id = some m → s'.db.messages.find? id = some m
  users : ∀ id, (s.db.users.find? id).isSome → (s'.db.users.find? id).isSome

namespace Chat
variable {s s' : Chat} {i : Nat} {c : ReactionCall} {phase : ReactionPhase}

theorem Grows.rfl {s : Chat} : s.Grows s := ⟨fun _ _ => id, fun _ => id⟩

theorem Grows.message (h : s.Grows s') {id : MessageId} (hm : (s.db.messages.find? id).isSome) :
    (s'.db.messages.find? id).isSome := by
  obtain ⟨m, hm⟩ := Option.isSome_iff_exists.mp hm
  rw [h.messages id m hm]
  rfl

theorem init_wf : init.Wf := by
  refine ⟨init_mirrors, ?_, ?_, ?_⟩ <;> simp [init, ChatDb.empty]

theorem Effect.grows {events : List (Nat × String × Payload)} (h : s.Effect s' events) :
    s.Grows s' := by
  cases h with
  | saved user =>
    refine ⟨fun _ _ => id, fun id hid => ?_⟩
    rw [Table.find?_upsert]
    split
    · rfl
    · exact hid
  | posted message event hnew hauthor =>
    refine ⟨fun id m hm => ?_, fun _ => id⟩
    rw [Table.find?_upsert, if_neg]
    · exact hm
    · rintro rfl
      simp [hnew] at hm
  | _ => exact ⟨fun _ _ => id, fun _ => id⟩

theorem Wf.moved (h : s.Wf) (hm : (s.setPhase i c phase).Mirrors) (hc : s.calls[i]? = some c)
    (hmessage : ({ c with phase } : ReactionCall).holds = true →
      (s.db.messages.find? c.key.messageId).isSome) : (s.setPhase i c phase).Wf where
  mirrors := hm
  authors := h.authors
  reacted := h.reacted
  reacting := by
    intro j d hd hholds
    rcases setPhase_call hc hd with ⟨rfl, rfl⟩ | ⟨hj, hd⟩
    · exact hmessage hholds
    · exact h.reacting j d hd hholds

theorem Wf.effect {events : List (Nat × String × Payload)} (h : s.Wf) (he : s.Effect s' events) :
    s'.Wf := by
  have hm := h.mirrors.effect he
  have hg := he.grows
  cases he with
  | saved user =>
    exact ⟨hm, fun m hmem => hg.users _ (h.authors m hmem), h.reacted, h.reacting⟩
  | posted message event hnew hauthor =>
    refine ⟨hm, fun m hmem => ?_, fun r hr => hg.message (h.reacted r hr), fun j d hd hholds =>
      hg.message (h.reacting j d hd hholds)⟩
    rcases Table.mem_upsert.mp hmem with rfl | ⟨hold, -⟩
    · exact hauthor
    · exact h.authors m hold
  | foreign events htopics => exact h
  | began added key now =>
    refine ⟨hm, h.authors, h.reacted, fun j d hd hholds => ?_⟩
    simp only [List.getElem?_append] at hd
    split at hd
    · exact h.reacting j d hd hholds
    · rw [List.getElem?_singleton] at hd
      split at hd
      · cases hd
        simp [ReactionCall.holds] at hholds
      · simp at hd
  | changed j d hd hphase hfree hrow hmessage =>
    refine h.moved hm hd fun _ => ?_
    cases hadd : d.added with
    | true => exact hmessage hadd
    | false =>
      rw [hadd] at hrow
      obtain ⟨r, hr⟩ := Option.isSome_iff_exists.mp hrow
      have hkey := Table.find?_key hr
      rw [← hkey]
      exact h.reacted r (Table.find?_mem hr)
  | published j d id hd hphase hid =>
    have hholds : d.holds = true := by simp [ReactionCall.holds, hphase]
    refine ⟨hm, h.authors, h.reacted, fun k e he heholds => ?_⟩
    rcases setPhase_call hd he with ⟨rfl, rfl⟩ | ⟨hk, he⟩
    · exact h.reacting k d hd hholds
    · exact h.reacting k e he heholds
  | committed j d id hd hphase =>
    have hholds : d.holds = true := by simp [ReactionCall.holds, hphase]
    refine ⟨hm, h.authors, fun r hr => ?_, fun k e he heholds => ?_⟩
    · cases hadd : d.added with
      | true =>
        simp only [commitReaction, hadd, if_true] at hr
        rcases Table.mem_upsert.mp hr with rfl | ⟨hold, -⟩
        · exact h.reacting j d hd hholds
        · exact h.reacted r hold
      | false =>
        simp only [commitReaction, hadd, Bool.false_eq_true, if_false, Table.rows_filter] at hr
        exact h.reacted r (List.mem_of_mem_filter hr)
    · rcases setPhase_call hd he with ⟨rfl, rfl⟩ | ⟨hk, he⟩
      · simp [ReactionCall.holds] at heholds
      · exact h.reacting k e he heholds
  | left j d phase hd hphase hopen =>
    refine h.moved hm hd fun hholds => ?_
    rcases hphase with rfl | ⟨e, rfl⟩ | rfl <;> simp [ReactionCall.holds] at hholds

end Chat

def ChatWorld.Room (w : ChatWorld) (id : MessageId) (channel : ChatChannel) : Prop :=
  ∃ m, w.chat.db.messages.find? id = some m ∧ m.channel = channel

structure ChatWorld.Routed (w : ChatWorld) : Prop where
  chat : w.chat.Wf
  messages : ∀ f ∈ w.messages, w.Room f.2.id f.1
  reactions : ∀ f ∈ w.reactions, w.Room f.2.messageId f.1

def ChatPhase.Fits (w : ChatWorld) (topic : String) (payload : Payload) : ChatPhase → Prop
  | .findMessage event => topic = "chat.message_posted" ∧ payload = .messagePosted event.messageId
  | .findAuthor m | .findQuoted m _ _ | .findQuotedAuthor m _ _ =>
    topic = "chat.message_posted" ∧ payload = .messagePosted m.id ∧
      w.chat.db.messages.find? m.id = some m
  | .publishMessage channel b =>
    topic = "chat.message_posted" ∧ payload = .messagePosted b.id ∧ w.Room b.id channel
  | .findReacted _ => topic = "chat.reaction_changed"
  | .tally event m _ _ =>
    topic = "chat.reaction_changed" ∧ w.chat.db.messages.find? event.messageId = some m
  | .publishReaction channel b => topic = "chat.reaction_changed" ∧ w.Room b.messageId channel
  | .elsewhere => topic ≠ "chat.message_posted"

def chatFacts : Facts ChatWorld Payload ChatPhase where
  inv := ChatWorld.Routed
  named w topic payload := topic = "chat.message_posted" →
    ∃ m, payload = .messagePosted m.id ∧ w.chat.db.messages.find? m.id = some m
  fits := ChatPhase.Fits

section Facts
variable {w w' : ChatWorld}

theorem ChatWorld.Room.grows (h : w.chat.Grows w'.chat) {id : MessageId} {channel : ChatChannel}
    (hr : w.Room id channel) : w'.Room id channel := by
  obtain ⟨m, hm, hc⟩ := hr
  exact ⟨m, h.messages _ _ hm, hc⟩

theorem chatFacts_grows (h : w.chat.Grows w'.chat) : chatFacts.Grows w w' where
  named := by
    intro topic payload hnamed htopic
    obtain ⟨m, hp, hm⟩ := hnamed htopic
    exact ⟨m, hp, h.messages _ _ hm⟩
  fits := by
    intro topic payload phase hfits
    cases phase with
    | findMessage event => exact hfits
    | findAuthor m => exact ⟨hfits.1, hfits.2.1, h.messages _ _ hfits.2.2⟩
    | findQuoted m author id => exact ⟨hfits.1, hfits.2.1, h.messages _ _ hfits.2.2⟩
    | findQuotedAuthor m author quoted => exact ⟨hfits.1, hfits.2.1, h.messages _ _ hfits.2.2⟩
    | publishMessage channel b => exact ⟨hfits.1, hfits.2.1, hfits.2.2.grows h⟩
    | findReacted event => exact hfits
    | tally event m emoji hemoji => exact ⟨hfits.1, h.messages _ _ hfits.2⟩
    | publishReaction channel b => exact ⟨hfits.1, hfits.2.grows h⟩
    | elsewhere => exact hfits

theorem ChatAct.transact_cases {a : ChatAct} {events : List (Nat × String × Payload)}
    (h : a.transact w = some (w', events)) :
    w' = { w with chat := w'.chat, posted := w.posted ++ postsOf events } ∧
      w.chat.Effect w'.chat events := by
  obtain ⟨r, hr, heq⟩ := Option.map_eq_some_iff.mp h
  cases heq
  exact ⟨rfl, Chat.step_effect hr⟩

theorem ChatWorld.Routed.grows (h : w.Routed) (hwf : w'.chat.Wf) (hg : w.chat.Grows w'.chat)
    (hmessages : w'.messages = w.messages) (hreactions : w'.reactions = w.reactions) :
    w'.Routed where
  chat := hwf
  messages := fun f hf => (h.messages f (hmessages ▸ hf)).grows hg
  reactions := fun f hf => (h.reactions f (hreactions ▸ hf)).grows hg

theorem chatFacts_transact {a : ChatAct} {events : List (Nat × String × Payload)} (hinv : w.Routed)
    (h : a.transact w = some (w', events)) :
    w'.Routed ∧ chatFacts.Grows w w' ∧ ∀ e ∈ events, chatFacts.named w' e.2.1 e.2.2 := by
  obtain ⟨hw, heff⟩ := ChatAct.transact_cases h
  have hgrows := heff.grows
  refine ⟨hinv.grows (hinv.chat.effect heff) hgrows (by rw [hw]) (by rw [hw]),
    chatFacts_grows hgrows, ?_⟩
  generalize w'.chat = chat at heff hw
  subst hw
  cases heff with
  | posted message event hnew hauthor =>
    intro e he _
    obtain rfl := List.mem_singleton.mp he
    exact ⟨message, rfl, by simp [Table.find?_upsert]⟩
  | foreign others htopics =>
    intro e he htopic
    obtain ⟨f, hf, rfl⟩ := List.mem_map.mp he
    exact absurd (by simp [show f.2.1 = _ from htopic, ownTopics]) (htopics f hf)
  | committed i c id hc hphase =>
    intro e he htopic
    obtain rfl := List.mem_singleton.mp he
    simp [RecordedChange.queue] at htopic
  | _ => simp

theorem chatFacts_started {topic : String} {payload : Payload}
    {handler : Payload → Except DeliveryError ChatPhase} {phase : ChatPhase}
    (hmem : handler ∈ chatService.registry.get topic) (hdecode : handler payload = .ok phase) :
    phase.Fits w topic payload := by
  by_cases hposted : topic = "chat.message_posted"
  · subst hposted
    simp only [chatService, registered_chatMessage, List.mem_singleton] at hmem
    subst hmem
    simp only [ChatMessageBroadcaster.begin, typedHandler] at hdecode
    cases hvalue : ChatMessagePosted.fromValue payload with
    | error e => simp [hvalue] at hdecode
    | ok event =>
      simp only [hvalue, Except.ok.injEq] at hdecode
      subst hdecode
      refine ⟨rfl, ?_⟩
      unfold ChatMessagePosted.fromValue at hvalue
      split at hvalue
      · cases hvalue
        rfl
      · simp at hvalue
  · by_cases hchanged : topic = "chat.reaction_changed"
    · subst hchanged
      simp only [chatService, registered_chatReaction, List.mem_singleton] at hmem
      subst hmem
      simp only [ChatReactionBroadcaster.begin, typedHandler] at hdecode
      split at hdecode
      · simp at hdecode
      · cases hdecode
        exact rfl
    · rcases registered hmem with ⟨rfl, rfl⟩ | ⟨rfl, rfl⟩ | ⟨rfl, -⟩ | ⟨rfl, -⟩ | rfl
      · cases hdecode
        exact hposted
      · cases hdecode
        exact hposted
      · exact absurd rfl hposted
      · exact absurd rfl hchanged
      · cases hdecode
        exact hposted

theorem chatFacts_step {x : ChatAwait} {topic : String} {payload : Payload} {phase : ChatPhase}
    {r : ChatPhase ⊕ Except String Unit} (hinv : w.Routed) (hfits : phase.Fits w topic payload)
    (h : phase.step x w = (w', r)) : w'.Routed ∧ chatFacts.Grows w w' ∧
    ∀ phase', r = .inl phase' → phase'.Fits w' topic payload := by
  cases ChatPhase.step_effect h with
  | found event m hmessage =>
    refine ⟨hinv, chatFacts_grows .rfl, fun phase' hr => ?_⟩
    cases hr
    obtain ⟨htopic, hpayload⟩ := hfits
    have hid : m.id = event.messageId := Table.find?_key hmessage
    exact ⟨htopic, hpayload.trans (by rw [hid]), hid ▸ hmessage⟩
  | composed phase phase' m hphase hnext =>
    refine ⟨hinv, chatFacts_grows .rfl, fun phase₁ hr => ?_⟩
    cases hr
    have hm : topic = "chat.message_posted" ∧ payload = .messagePosted m.id ∧
        w.chat.db.messages.find? m.id = some m := by
      cases phase <;> simp only [ChatPhase.composing, Option.some.injEq, reduceCtorEq] at hphase <;>
        exact hphase ▸ hfits
    rcases hnext with hnext | ⟨author, replyTo, rfl⟩
    · cases phase' <;> simp only [ChatPhase.composing, Option.some.injEq, reduceCtorEq] at hnext <;>
        exact hnext ▸ hm
    · exact ⟨hm.1, hm.2.1, m, hm.2.2, rfl⟩
  | messageSent channel b result =>
    refine ⟨⟨hinv.chat, fun f hf => ?_, hinv.reactions⟩, chatFacts_grows .rfl, by simp⟩
    simp only [List.mem_append, List.mem_singleton] at hf
    rcases hf with hf | rfl
    · exact hinv.messages f hf
    · exact hfits.2.2
  | reactedFound event m emoji hmessage hemoji =>
    refine ⟨hinv, chatFacts_grows .rfl, fun phase' hr => ?_⟩
    cases hr
    exact ⟨hfits, hmessage⟩
  | tallied event m emoji hemoji =>
    refine ⟨hinv, chatFacts_grows .rfl, fun phase' hr => ?_⟩
    cases hr
    exact ⟨hfits.1, m, hfits.2, rfl⟩
  | reactionSent channel b result =>
    refine ⟨⟨hinv.chat, hinv.messages, fun f hf => ?_⟩, chatFacts_grows .rfl, by simp⟩
    simp only [List.mem_append, List.mem_singleton] at hf
    rcases hf with hf | rfl
    · exact hinv.reactions f hf
    · exact hfits.2
  | _ => exact ⟨hinv, chatFacts_grows .rfl, by simp⟩

theorem chatFacts_kept : chatFacts.Kept chatService where
  transact := fun _ _ _ _ hinv h => chatFacts_transact hinv h
  started := fun _ _ _ _ _ _ hmem hdecode => chatFacts_started hmem hdecode
  step := fun _ _ _ _ _ _ _ hinv hfits h => chatFacts_step hinv hfits h

theorem init_routed : ChatWorld.init.Routed := by
  refine ⟨Chat.init_wf, ?_, ?_⟩ <;> simp [ChatWorld.init]

end Facts

namespace Sample

def chats (as : List ChatAct) : List (Outbox.Act ChatAct ChatAwait Unit) := as.map .transact

def chatAwaits (n : Nat) (failure : Option String) : List (Outbox.Act ChatAct ChatAwait Unit) :=
  List.replicate n (.handle () ⟨⟨5, failure, false⟩, none⟩)

def chatRoom (as : List (Outbox.Act ChatAct ChatAwait Unit)) :
    Outbox ChatWorld Payload ChatPhase Unit :=
  (Transition.run (Outbox.step chatService) (.init .init) as).getD (.init .init)

theorem run_chatRoom {as : List (Outbox.Act ChatAct ChatAwait Unit)}
    (h : (Transition.run (Outbox.step chatService) (.init .init) as).isSome) :
    Transition.run (Outbox.step chatService) (.init .init) as = some (chatRoom as) := by
  obtain ⟨s, hs⟩ := Option.isSome_iff_exists.mp h
  simp [chatRoom, hs]

end Sample

end Betsphere
