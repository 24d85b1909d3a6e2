import Betsphere.Chat.Routing
set_option autoImplicit false

namespace Betsphere

def ChatWorld.room (w : ChatWorld) (id : MessageId) : Option ChatChannel :=
  (w.chat.db.messages.find? id).map ChatMessage.channel

def ChatWorld.Broadcast (w : ChatWorld) (id : MessageId) : Prop := ∃ f ∈ w.messages, f.2.id = id

instance (w : ChatWorld) (id : MessageId) : Decidable (w.Broadcast id) :=
  inferInstanceAs (Decidable (∃ f ∈ w.messages, f.2.id = id))

/-- Before each frame of the second post there is one of the first. -/
def ChatWorld.Precedes (w : ChatWorld) (first second : MessageId) : Prop :=
  ∀ (n : Nat) (f : ChatChannel × ChatMessageBroadcast), w.messages[n]? = some f →
    f.2.id = second → ∃ (k : Nat) (g : ChatChannel × ChatMessageBroadcast),
      k < n ∧ w.messages[k]? = some g ∧ g.2.id = first

section Guard
variable {ι : Type}

/-- A post commits before any later post of its room is out; when a message goes out, every
earlier post of its room that is not out was claimed by this pass and has not failed in it. -/
def InTurn (s : Outbox ChatWorld Payload ChatPhase ι) : Outbox.Act ChatAct ChatAwait ι → Prop
  | .transact (.post message event) => ∀ e ∈ s.world.posted, event < e.1 →
      s.world.room e.2 = some message.channel → ¬s.world.Broadcast e.2
  | .handle p x =>
    match s.passes p with
    | some pass =>
      match pass.current with
      | some ⟨event, _, some (.publishMessage channel _), _⟩ => x.reaches = true →
        ∀ e ∈ s.world.posted, e.1 < event.id → s.world.room e.2 = some channel →
          ¬s.world.Broadcast e.2 → e.1 ∈ pass.claimed.map OutboxRow.id ∧ e.1 ∉ pass.failed
      | _ => True
    | none => True
  | _ => True

instance decidableInTurn (s : Outbox ChatWorld Payload ChatPhase ι) :
    (a : Outbox.Act ChatAct ChatAwait ι) → Decidable (InTurn s a)
  | .transact (.post message event) => inferInstanceAs (Decidable (∀ e ∈ s.world.posted,
      event < e.1 → s.world.room e.2 = some message.channel → ¬s.world.Broadcast e.2))
  | .handle p x => by
    dsimp only [InTurn]
    generalize s.passes p = o
    rcases o with _ | ⟨claimed, todo, _ | ⟨event, next, _ | phase, ok⟩⟩
    · exact isTrue trivial
    · exact isTrue trivial
    · exact isTrue trivial
    · cases phase <;> dsimp only <;> infer_instance
  | .transact (.saveUser _) | .transact (.begin _ _ _) | .transact (.step _ _)
  | .transact (.fail _ _) | .transact (.other _) => isTrue trivial
  | .claim _ | .commit _ _ | .rollback _ | .prune _ => isTrue trivial

end Guard

structure Ordered {ι : Type} (s : Outbox ChatWorld Payload ChatPhase ι) : Prop where
  order : ∀ e ∈ s.world.posted, ∀ e' ∈ s.world.posted, e.1 < e'.1 →
    s.world.room e.2 = s.world.room e'.2 → s.world.Precedes e.2 e'.2
  pending : ∀ e ∈ s.world.posted, ¬s.world.Broadcast e.2 → ∃ r ∈ s.rows.rows, r.id = e.1 ∧
    r.topic = "chat.message_posted" ∧ r.payload = .messagePosted e.2 ∧ r.processedAt = none
  posted : ∀ r ∈ s.rows.rows, r.topic = "chat.message_posted" → ∀ m, r.payload = .messagePosted m →
    (r.id, m) ∈ s.world.posted
  stored : ∀ e ∈ s.world.posted, (s.world.room e.2).isSome
  unique : ∀ e ∈ s.world.posted, ∀ e' ∈ s.world.posted, e.2 = e'.2 → e.1 = e'.1
  answered : ∀ p pass, s.passes p = some pass → ∀ x ∈ pass.returned, x.accepted = true →
    ∀ r ∈ pass.claimed, r.id = x.event → r.topic = "chat.message_posted" →
      ∀ m, r.payload = .messagePosted m → s.world.Broadcast m

section Worlds
variable {w w' : ChatWorld}

theorem ChatWorld.room_grows (h : w.chat.Grows w'.chat) {id : MessageId}
    (hid : (w.room id).isSome) : w'.room id = w.room id := by
  obtain ⟨channel, hc⟩ := Option.isSome_iff_exists.mp hid
  obtain ⟨m, hm, rfl⟩ := Option.map_eq_some_iff.mp hc
  simp [ChatWorld.room, hm, h.messages id m hm]

theorem ChatWorld.Routed.room_broadcast (h : w.Routed) {id : MessageId} (hb : w.Broadcast id) :
    (w.room id).isSome := by
  obtain ⟨f, hf, rfl⟩ := hb
  obtain ⟨m, hm, -⟩ := h.messages f hf
  simp [ChatWorld.room, hm]

theorem ChatWorld.precedes_never {first second : MessageId} (h : ¬w.Broadcast second) :
    w.Precedes first second := by
  intro n f hf hid
  exact absurd ⟨f, List.mem_of_getElem? hf, hid⟩ h

theorem ChatWorld.Precedes.append {first second : MessageId} (h : w.Precedes first second)
    {f : ChatChannel × ChatMessageBroadcast} (hw : w'.messages = w.messages ++ [f])
    (hf : f.2.id = second → w.Broadcast first) : w'.Precedes first second := by
  intro n g hg hid
  rw [hw, List.getElem?_append] at hg
  split at hg
  · rename_i hlt
    obtain ⟨k, g', hk, hg', hid'⟩ := h n g hg hid
    exact ⟨k, g', hk, by rw [hw, List.getElem?_append_left (by omega)]; exact hg', hid'⟩
  · rename_i hge
    rw [List.getElem?_singleton] at hg
    split at hg
    · cases hg
      obtain ⟨g', hg', hid'⟩ := hf hid
      obtain ⟨k, hk⟩ := List.mem_iff_getElem?.mp hg'
      have hlt := (List.getElem?_eq_some_iff.mp hk).1
      exact ⟨k, g', by omega, by rw [hw, List.getElem?_append_left hlt]; exact hk, hid'⟩
    · simp at hg

/-- A transaction records a post, or no post at all. -/
theorem ChatAct.transact_posts {a : ChatAct} {events : List (Nat × String × Payload)}
    (h : a.transact w = some (w', events)) :
    (∃ message event, a = .post message event ∧ w.chat.db.messages.find? message.id = none ∧
      w'.chat.db.messages.find? message.id = some message ∧
      events = [(event, "chat.message_posted", .messagePosted message.id)]) ∨
    ∀ e ∈ events, e.2.1 ≠ "chat.message_posted" ∧ ∀ m, e.2.2 ≠ .messagePosted m := by
  obtain ⟨r, hr, heq⟩ := Option.map_eq_some_iff.mp h
  cases heq
  cases a with
  | post message event =>
    simp only [Chat.step] at hr
    split at hr
    · rename_i hok
      cases hr
      exact .inl ⟨message, event, rfl, Option.isNone_iff_eq_none.mp hok.1,
        by simp [Table.find?_upsert], rfl⟩
    · simp at hr
  | step i id =>
    right
    simp only [Chat.step, Chat.stepCall] at hr
    split at hr
    · simp at hr
    · split at hr
      · obtain ⟨t, -, rfl⟩ := Option.map_eq_some_iff.mp hr
        simp
      · split at hr
        · cases hr
          simp
        · simp at hr
      · cases hr
        simp
      · cases hr
        simp [RecordedChange.queue]
      · simp at hr
  | fail i message =>
    right
    simp only [Chat.step] at hr
    split at hr
    · simp at hr
    · split at hr
      · simp at hr
      · cases hr
        simp
  | other foreign =>
    right
    simp only [Chat.step] at hr
    split at hr
    · rename_i hall
      cases hr
      intro e he
      obtain ⟨f, hf, rfl⟩ := List.mem_map.mp he
      have hforeign : f.2.1 ∉ ownTopics := by simpa using List.all_eq_true.mp hall f hf
      refine ⟨?_, by simp⟩
      intro htopic
      exact hforeign (by simp [show f.2.1 = _ from htopic, ownTopics])
    · simp at hr
  | _ =>
    cases hr
    exact .inr (by simp)

theorem postsOf_none {events : List (Nat × String × Payload)}
    (h : ∀ e ∈ events, ∀ m, e.2.2 ≠ .messagePosted m) : postsOf events = [] := by
  rw [postsOf, List.filterMap_eq_nil_iff]
  intro e he
  split
  · rename_i m hm
    exact absurd hm (h e he m)
  · rfl

end Worlds

namespace Ordered
variable {ι : Type} {s s' : Outbox ChatWorld Payload ChatPhase ι}

section Transacted
variable {a : ChatAct} {w : ChatWorld} {events : List (Nat × String × Payload)}

theorem messages_transact (ha : a.transact s.world = some (w, events)) :
    w.messages = s.world.messages := by
  obtain ⟨hw, -⟩ := ChatAct.transact_cases ha
  rw [hw]

theorem posted_transact (ha : a.transact s.world = some (w, events)) :
    w.posted = s.world.posted ++ postsOf events := by
  obtain ⟨hw, -⟩ := ChatAct.transact_cases ha
  rw [hw]

theorem broadcast_transact (ha : a.transact s.world = some (w, events)) (id : MessageId) :
    w.Broadcast id ↔ s.world.Broadcast id := by
  simp only [ChatWorld.Broadcast, messages_transact ha]

theorem precedes_transact (ha : a.transact s.world = some (w, events)) (id id' : MessageId) :
    w.Precedes id id' ↔ s.world.Precedes id id' := by
  simp only [ChatWorld.Precedes, messages_transact ha]

theorem room_transact (h : Ordered s) (ha : a.transact s.world = some (w, events))
    {e : Nat × MessageId} (he : e ∈ s.world.posted) : w.room e.2 = s.world.room e.2 :=
  ChatWorld.room_grows (ChatAct.transact_cases ha).2.grows (h.stored e he)

theorem mem_transacted (hsound : s.Sound chatService) (hnodup : (events.map Prod.fst).Nodup)
    (hfresh : ∀ e ∈ events, e.1 ∉ s.drawn) {r : OutboxRow Payload} :
    r ∈ ((events.map Outbox.queued).foldl Table.upsert s.rows).rows ↔
      r ∈ s.rows.rows ∨ ∃ e ∈ events, Outbox.queued e = r := by
  rw [hsound.rows_transacted hnodup hfresh, List.mem_append, List.mem_map]

theorem pending_transact (h : Ordered s) (hsound : s.Sound chatService)
    (ha : a.transact s.world = some (w, events)) (hnodup : (events.map Prod.fst).Nodup)
    (hfresh : ∀ e ∈ events, e.1 ∉ s.drawn) {e : Nat × MessageId} (he : e ∈ s.world.posted)
    (hnot : ¬w.Broadcast e.2) : ∃ r,
      r ∈ ((events.map Outbox.queued).foldl Table.upsert s.rows).rows ∧ r.id = e.1 ∧
        r.topic = "chat.message_posted" ∧ r.payload = .messagePosted e.2 ∧
        r.processedAt = none := by
  rw [broadcast_transact ha] at hnot
  obtain ⟨r, hr, hrest⟩ := h.pending e he hnot
  exact ⟨r, (mem_transacted hsound hnodup hfresh).mpr (.inl hr), hrest⟩

theorem answered_transact (h : Ordered s) (ha : a.transact s.world = some (w, events)) :
    ∀ p pass, s.passes p = some pass → ∀ x ∈ pass.returned, x.accepted = true →
      ∀ r ∈ pass.claimed, r.id = x.event → r.topic = "chat.message_posted" →
        ∀ m, r.payload = .messagePosted m → w.Broadcast m := by
  intro p pass hp x hx hacc r hr hid htopic m hm
  rw [broadcast_transact ha]
  exact h.answered p pass hp x hx hacc r hr hid htopic m hm

theorem transacted_post (h : Ordered s) (hhold : chatFacts.Hold s) (hsound : s.Sound chatService)
    {message : ChatMessage} {event : Nat} (hturn : InTurn s (.transact (.post message event)))
    (hevents : events = [(event, "chat.message_posted", .messagePosted message.id)])
    (ha : (ChatAct.post message event).transact s.world = some (w, events))
    (hnew : s.world.chat.db.messages.find? message.id = none)
    (hthere : w.chat.db.messages.find? message.id = some message)
    (hnodup : (events.map Prod.fst).Nodup) (hfresh : ∀ e ∈ events, e.1 ∉ s.drawn) :
    Ordered { s with
      world := w
      rows := (events.map Outbox.queued).foldl Table.upsert s.rows
      drawn := s.drawn ++ events.map Prod.fst } := by
  have hposted : w.posted = s.world.posted ++ [(event, message.id)] := by
    rw [posted_transact ha, hevents]
    rfl
  have hquiet : ¬s.world.Broadcast message.id := by
    intro hb
    have hsome := hhold.world.room_broadcast hb
    simp [ChatWorld.room, hnew] at hsome
  have hmine : w.room message.id = some message.channel := by simp [ChatWorld.room, hthere]
  have hother : ∀ e ∈ s.world.posted, e.2 ≠ message.id := by
    intro e he heq
    have hsome := h.stored e he
    simp [ChatWorld.room, heq, hnew] at hsome
  have hqueued : (event, "chat.message_posted", Payload.messagePosted message.id) ∈ events := by
    rw [hevents]
    exact List.mem_singleton_self _
  refine ⟨fun e he e' he' hlt hsame => ?_, fun e he hnot => ?_, fun r hr htopic m hm => ?_,
    fun e he => ?_, fun e he e' he' heq => ?_, h.answered_transact ha⟩
  · simp only [hposted, List.mem_append, List.mem_singleton] at he he'
    refine (precedes_transact ha _ _).mpr ?_
    rcases he' with he' | rfl
    · rcases he with he | rfl
      · simp only [h.room_transact ha he, h.room_transact ha he'] at hsame
        exact h.order e he e' he' hlt hsame
      · simp only [hmine, h.room_transact ha he'] at hsame
        exact ChatWorld.precedes_never (hturn e' he' hlt hsame.symm)
    · exact ChatWorld.precedes_never hquiet
  · simp only [hposted, List.mem_append, List.mem_singleton] at he
    rcases he with he | rfl
    · exact h.pending_transact hsound ha hnodup hfresh he hnot
    · exact ⟨_, (mem_transacted hsound hnodup hfresh).mpr (.inr ⟨_, hqueued, rfl⟩), rfl, rfl, rfl,
        rfl⟩
  · simp only [hposted, List.mem_append, List.mem_singleton]
    rcases (mem_transacted hsound hnodup hfresh).mp hr with hr | ⟨e, he, rfl⟩
    · exact .inl (h.posted r hr htopic m hm)
    · rw [hevents] at he
      obtain rfl := List.mem_singleton.mp he
      cases hm
      exact .inr rfl
  · simp only [hposted, List.mem_append, List.mem_singleton] at he
    rcases he with he | rfl
    · simp only [h.room_transact ha he]
      exact h.stored e he
    · simp [hmine]
  · simp only [hposted, List.mem_append, List.mem_singleton] at he he'
    rcases he with he | rfl <;> rcases he' with he' | rfl
    · exact h.unique e he e' he' heq
    · exact absurd heq (hother e he)
    · exact absurd heq.symm (hother e' he')
    · rfl

theorem transacted_quiet (h : Ordered s) (hsound : s.Sound chatService)
    (ha : a.transact s.world = some (w, events))
    (hnone : ∀ e ∈ events, e.2.1 ≠ "chat.message_posted" ∧ ∀ m, e.2.2 ≠ .messagePosted m)
    (hnodup : (events.map Prod.fst).Nodup) (hfresh : ∀ e ∈ events, e.1 ∉ s.drawn) :
    Ordered { s with
      world := w
      rows := (events.map Outbox.queued).foldl Table.upsert s.rows
      drawn := s.drawn ++ events.map Prod.fst } := by
  have hsame : w.posted = s.world.posted := by
    rw [posted_transact ha, postsOf_none fun e he => (hnone e he).2, List.append_nil]
  refine ⟨fun e he e' he' hlt hrooms => ?_, fun e he hnot => ?_, fun r hr htopic m hm => ?_,
    fun e he => ?_, ?_, h.answered_transact ha⟩
  · simp only [hsame] at he he'
    simp only [h.room_transact ha he, h.room_transact ha he'] at hrooms
    exact (precedes_transact ha _ _).mpr (h.order e he e' he' hlt hrooms)
  · simp only [hsame] at he
    exact h.pending_transact hsound ha hnodup hfresh he hnot
  · simp only [hsame]
    rcases (mem_transacted hsound hnodup hfresh).mp hr with hr | ⟨e, he, rfl⟩
    · exact h.posted r hr htopic m hm
    · exact absurd hm ((hnone e he).2 m)
  · simp only [hsame] at he
    simp only [h.room_transact ha he]
    exact h.stored e he
  · simp only [hsame]
    exact h.unique

theorem transacted (h : Ordered s) (hhold : chatFacts.Hold s) (hsound : s.Sound chatService)
    (hturn : InTurn s (.transact a)) (ha : a.transact s.world = some (w, events))
    (hnodup : (events.map Prod.fst).Nodup) (hfresh : ∀ e ∈ events, e.1 ∉ s.drawn) :
    Ordered { s with
      world := w
      rows := (events.map Outbox.queued).foldl Table.upsert s.rows
      drawn := s.drawn ++ events.map Prod.fst } := by
  rcases ChatAct.transact_posts ha with ⟨message, event, rfl, hnew, hthere, hevents⟩ | hnone
  · exact h.transacted_post hhold hsound hturn hevents ha hnew hthere hnodup hfresh
  · exact h.transacted_quiet hsound ha hnone hnodup hfresh

end Transacted

theorem sent (hhold : chatFacts.Hold s) {r : OutboxRow Payload} (hrow : r ∈ s.rows.rows)
    (htopic : r.topic = "chat.message_posted") {m : MessageId} (hm : r.payload = .messagePosted m)
    {phase : ChatPhase} (hfits : phase.Fits s.world r.topic r.payload) {x : ChatAwait}
    {w : ChatWorld}
    (hstep : phase.step x s.world = (w, .inr (.ok ()))) : w.Broadcast m := by
  obtain ⟨stored, hpayload, hstored⟩ := hhold.rows r hrow htopic
  generalize hresult : (Sum.inr (Except.ok ()) : ChatPhase ⊕ Except String Unit) = result at hstep
  cases ChatPhase.step_effect hstep with
  | failed phase e => simp at hresult
  | vanished event hmessage =>
    have hid : stored.id = event.messageId := by simpa [hpayload] using hfits.2
    simp [← hid, hstored] at hmessage
  | orphaned m' hauthor =>
    obtain ⟨-, -, hm'⟩ := hfits
    have hauthors := hhold.world.chat.authors m' (Table.find?_mem hm')
    simp [hauthor] at hauthors
  | messageSent channel b result =>
    have hid := hfits.2.1
    rw [hm] at hid
    cases hid
    exact ⟨(channel, b), by simp, rfl⟩
  | reactedVanished event hmessage => exact absurd (htopic.symm.trans hfits) (by decide)
  | reactionSent channel b result => exact absurd (htopic.symm.trans hfits.1) (by decide)
  | elsewhere result => exact absurd htopic hfits
  | _ => simp at hresult

theorem await_messages {x : ChatAwait} {pass pass' : Pass Payload ChatPhase} {w : ChatWorld}
    (hadv : Pass.Advance chatService x s.world pass w pass') :
    w.chat = s.world.chat ∧ w.posted = s.world.posted ∧
      (w.messages = s.world.messages ∨ ∃ a channel b, pass.current = some a ∧
        a.running = some (.publishMessage channel b) ∧ x.reaches = true ∧
        w.messages = s.world.messages ++ [(channel, b)]) := by
  have hstep : ∀ (phase : ChatPhase) r, phase.step x s.world = (w, r) → w.chat = s.world.chat ∧
      w.posted = s.world.posted ∧ (w.messages = s.world.messages ∨ ∃ channel b,
        phase = .publishMessage channel b ∧ x.reaches = true ∧
        w.messages = s.world.messages ++ [(channel, b)]) := by
    intro phase r hs
    cases ChatPhase.step_effect hs with
    | messageSent channel b result =>
      cases hreach : x.reaches with
      | true => exact ⟨rfl, rfl, .inr ⟨channel, b, rfl, rfl, rfl⟩⟩
      | false =>
        simp only [ChatPhase.step, ChatMessageBroadcaster.handle, hreach, Bool.false_eq_true,
          if_false, Prod.mk.injEq] at hs
        have hlen := congrArg (fun w : ChatWorld => w.messages.length) hs.1
        simp at hlen
    | _ => exact ⟨rfl, rfl, .inl rfl⟩
  cases hadv with
  | moved a phase phase' w hcur hrun hs =>
    obtain ⟨hchat, hposted, hsame | ⟨channel, b, rfl, hreach, hmore⟩⟩ := hstep phase _ hs
    · exact ⟨hchat, hposted, .inl hsame⟩
    · exact ⟨hchat, hposted, .inr ⟨a, channel, b, hcur, hrun, hreach, hmore⟩⟩
  | returned a phase result w hcur hrun hs =>
    obtain ⟨hchat, hposted, hsame | ⟨channel, b, rfl, hreach, hmore⟩⟩ := hstep phase _ hs
    · exact ⟨hchat, hposted, .inl hsame⟩
    · exact ⟨hchat, hposted, .inr ⟨a, channel, b, hcur, hrun, hreach, hmore⟩⟩
  | _ => exact ⟨rfl, rfl, .inl rfl⟩

theorem answers (h : Ordered s) (hhold : chatFacts.Hold s) (hsound : s.Sound chatService) {p : ι}
    {x : ChatAwait} {pass pass' : Pass Payload ChatPhase} {w : ChatWorld}
    (hp : s.passes p = some pass) (hadv : Pass.Advance chatService x s.world pass w pass')
    (hmono : ∀ id, s.world.Broadcast id → w.Broadcast id) :
    ∀ y ∈ pass'.returned, y.accepted = true → ∀ r ∈ pass.claimed, r.id = y.event →
      r.topic = "chat.message_posted" → ∀ m, r.payload = .messagePosted m → w.Broadcast m := by
  have hold : ∀ y ∈ pass.returned, y.accepted = true → ∀ r ∈ pass.claimed, r.id = y.event →
      r.topic = "chat.message_posted" → ∀ m, r.payload = .messagePosted m → w.Broadcast m :=
    fun y hy hacc r hr hid htopic m hm =>
      hmono m (h.answered p pass hp y hy hacc r hr hid htopic m hm)
  have hown : ∀ a, pass.current = some a → ∀ r ∈ pass.claimed, r.id = a.event.id → r = a.event := by
    intro a hcur r hr hid
    exact s.rows.eq_of_key (hsound.held p pass hp r hr).2.1 (hsound.current_row hp hcur).2.1 hid
  cases hadv with
  | refused a handler e hcur hrun hget hdecode =>
    intro y hy hacc r hr hid htopic m hm
    simp only [Pass.record, List.mem_append, List.mem_singleton] at hy
    rcases hy with hy | rfl
    · exact hold y hy hacc r hr hid htopic m hm
    · obtain rfl := hown a hcur r hr hid
      simp only [chatService, htopic, registered_chatMessage, List.getElem?_singleton] at hget
      split at hget
      · cases hget
        simp [ChatMessageBroadcaster.begin, typedHandler, hm, ChatMessagePosted.fromValue] at hdecode
      · simp at hget
  | returned a phase result w hcur hrun hs =>
    intro y hy hacc r hr hid htopic m hm
    simp only [Pass.record, List.mem_append, List.mem_singleton] at hy
    rcases hy with hy | rfl
    · exact hold y hy hacc r hr hid htopic m hm
    · obtain rfl := hown a hcur r hr hid
      have hok : result = .ok () := by
        cases result with
        | error e => simp [Returned.accepted, Except.mapError] at hacc
        | ok u => rfl
      subst hok
      exact sent hhold (hsound.current_row hp hcur).2.1 htopic hm
        (hhold.running p pass a phase hp hcur hrun) hs
  | finished a hcur hrun hget =>
    intro y hy
    have hsame : (pass.finish a).returned = pass.returned := by
      unfold Pass.finish
      split <;> rfl
    rw [hsame] at hy
    exact hold y hy
  | _ => exact hold

theorem accepted_out (h : Ordered s) {p : ι} {pass : Pass Payload ChatPhase}
    (hp : s.passes p = some pass) {gone : List (OutboxRow Payload)}
    (hgone : pass.Progress chatService gone) {r : OutboxRow Payload} (hr : r ∈ gone)
    (hacc : accepts pass.returned r.id = true) (htopic : r.topic = "chat.message_posted")
    {m : MessageId} (hm : r.payload = .messagePosted m) : s.world.Broadcast m := by
  have hclaimed : r ∈ pass.claimed := by
    rw [hgone.split]
    simp [hr]
  have hall := hgone.answered r hr
  simp only [chatService, htopic, registered_chatMessage, List.length_singleton] at hall
  obtain ⟨answer, hanswer, hevent, -⟩ := hall 0 Nat.one_pos
  exact h.answered p pass hp answer hanswer (accepts_iff.mp hacc answer hanswer hevent) r hclaimed
    hevent.symm htopic m hm

/-- Every earlier post of the room is out when a message goes out. -/
theorem earlier_out (h : Ordered s) (hsound : s.Sound chatService) {p : ι}
    {pass : Pass Payload ChatPhase} {a : Attempt Payload ChatPhase} (hp : s.passes p = some pass)
    (hcur : pass.current = some a) {e : Nat × MessageId} (he : e ∈ s.world.posted)
    (hlt : e.1 < a.event.id) (hturn : ¬s.world.Broadcast e.2 →
      e.1 ∈ pass.claimed.map OutboxRow.id ∧ e.1 ∉ pass.failed) : s.world.Broadcast e.2 := by
  by_contra hnot
  obtain ⟨hclaimed, hfailed⟩ := hturn hnot
  obtain ⟨r, hr, hid, htopic, hpayload, -⟩ := h.pending e he hnot
  obtain ⟨y, hy, hyid⟩ := List.mem_map.mp hclaimed
  obtain rfl : y = r := s.rows.eq_of_key (hsound.held p pass hp y hy).2.1 hr (hyid.trans hid.symm)
  obtain ⟨gone, hgone⟩ := hsound.progress p pass hp
  -- the pass takes its events in the order of their identifiers
  have hmem : y ∈ gone := by
    have hsorted := hgone.sorted
    rw [hgone.split, hcur, List.pairwise_append] at hsorted
    rw [hgone.split, hcur] at hy
    simp only [Option.map_some, Option.toList_some, List.mem_append, List.mem_singleton] at hy
    rcases hy with (hy | rfl) | hy
    · exact hy
    · omega
    · have hafter := hsorted.2.2 a.event (by simp) y hy
      omega
  have hacc : accepts pass.returned y.id = true := by
    by_contra hno
    refine hfailed ?_
    rw [hgone.failed, ← hid]
    exact List.mem_map_of_mem (List.mem_filter.mpr ⟨hmem, by simpa using hno⟩)
  exact hnot (h.accepted_out hp hgone hmem hacc htopic hpayload)

variable [DecidableEq ι]

theorem handled (h : Ordered s) (hhold : chatFacts.Hold s) (hsound : s.Sound chatService) {p : ι}
    {x : ChatAwait} {pass pass' : Pass Payload ChatPhase} {w : ChatWorld}
    (hturn : InTurn s (.handle p x)) (hp : s.passes p = some pass)
    (hadv : Pass.Advance chatService x s.world pass w pass') :
    Ordered { s with world := w, passes := Function.update s.passes p (some pass') } := by
  obtain ⟨hchat, hposted, hframes⟩ := await_messages hadv
  have hroom : ∀ id, w.room id = s.world.room id := by
    intro id
    simp only [ChatWorld.room, hchat]
  have hmono : ∀ id, s.world.Broadcast id → w.Broadcast id := by
    intro id hb
    obtain ⟨f, hf, hid⟩ := hb
    refine ⟨f, ?_, hid⟩
    rcases hframes with hsame | ⟨_, channel, b, -, -, -, hmore⟩
    · rw [hsame]
      exact hf
    · rw [hmore]
      exact List.mem_append_left _ hf
  constructor
  · intro e he e' he' hlt hsame
    simp only [hposted] at he he'
    simp only [hroom] at hsame
    have hbefore := h.order e he e' he' hlt hsame
    rcases hframes with hquiet | ⟨a, channel, b, hcur, hrun, hreach, hmore⟩
    · intro n f hf
      rw [hquiet] at hf ⊢
      exact hbefore n f hf
    · refine hbefore.append hmore fun hid => ?_
      -- the frame is that of the post at hand
      obtain ⟨htopic, hpayload, m, hm, hchannel⟩ := hhold.running p pass a _ hp hcur hrun
      have hmine := h.posted a.event (hsound.current_row hp hcur).2.1 htopic b.id hpayload
      have hevent : e'.1 = a.event.id := h.unique e' he' _ hmine hid.symm
      have hearlier : e.1 < a.event.id := by omega
      have hrooms : s.world.room e.2 = some channel := by
        rw [hsame, ← (show b.id = e'.2 from hid)]
        simp [ChatWorld.room, hm, hchannel]
      refine h.earlier_out hsound hp hcur he hearlier fun hnot => ?_
      obtain ⟨event, next, running, ok⟩ := a
      cases hrun
      simp only [InTurn, hp, hcur] at hturn
      exact hturn hreach e he hearlier hrooms hnot
  · intro e he hnot
    simp only [hposted] at he
    exact h.pending e he fun hb => hnot (hmono _ hb)
  · intro r hr htopic m hm
    simp only [hposted]
    exact h.posted r hr htopic m hm
  · intro e he
    simp only [hposted] at he
    simp only [hroom]
    exact h.stored e he
  · simp only [hposted]
    exact h.unique
  · intro q other hq y hy hacc r hr
    by_cases hqp : q = p
    · subst hqp
      simp only [Function.update_self, Option.some.injEq] at hq
      subst hq
      exact h.answers hhold hsound hp hadv hmono y hy hacc r
        (Pass.Progress.claimed_advance hadv ▸ hr)
    · intro hid htopic m hm
      exact hmono m (h.answered q other (by simpa [hqp] using hq) y hy hacc r hr hid htopic m hm)

theorem committed (h : Ordered s) (hsound : s.Sound chatService) {p : ι} {now : DateTime}
    {pass : Pass Payload ChatPhase} (hp : s.passes p = some pass) (htodo : pass.todo = [])
    (hcur : pass.current = none) : Ordered { s.close p with
      rows := s.rows.mapRows (OutboxRow.mark pass.delivered pass.failed now)
        (OutboxRow.mark_id pass.delivered pass.failed now) } := by
  refine ⟨h.order, fun e he hnot => ?_, fun r hr => ?_, h.stored, h.unique, fun q other hq => ?_⟩
  · obtain ⟨r, hr, hid, htopic, hpayload, hnone⟩ := h.pending e he hnot
    refine ⟨r.mark pass.delivered pass.failed now, ?_, ?_, ?_, ?_, ?_⟩
    · rw [Table.rows_mapRows]
      exact List.mem_map_of_mem hr
    · rw [OutboxRow.mark_id, hid]
    · rw [OutboxRow.mark_topic, htopic]
    · rw [OutboxRow.mark_payload, hpayload]
    · have hkeep : r.id ∉ pass.delivered := by
        rw [hsound.delivered_iff hp htodo hcur hr]
        rintro ⟨hclaimed, hacc⟩
        obtain ⟨gone, hgone⟩ := hsound.progress p pass hp
        have hgone' : r ∈ gone := hgone.whole htodo hcur ▸ hclaimed
        exact hnot (h.accepted_out hp hgone hgone' hacc htopic hpayload)
      unfold OutboxRow.mark
      rw [if_neg hkeep]
      split <;> exact hnone
  · rw [Table.rows_mapRows, List.mem_map] at hr
    obtain ⟨r, hr, rfl⟩ := hr
    rw [OutboxRow.mark_topic, OutboxRow.mark_payload, OutboxRow.mark_id]
    exact h.posted r hr
  · exact h.answered q other (Outbox.close_passes.mp hq).2

theorem step (h : Ordered s) (hhold : chatFacts.Hold s) (hsound : s.Sound chatService)
    {a : Outbox.Act ChatAct ChatAwait ι} (hturn : InTurn s a)
    (ha : s.step chatService a = some s') : Ordered s' := by
  cases Outbox.step_effect ha with
  | transacted c w events hc hnodup hfresh =>
    exact h.transacted hhold hsound hturn hc hnodup hfresh
  | claimed p hp =>
    refine ⟨h.order, h.pending, h.posted, h.stored, h.unique, fun q pass hq => ?_⟩
    by_cases hqp : q = p
    · subst hqp
      simp only [Function.update_self, Option.some.injEq] at hq
      subst hq
      simp [Pass.begin]
    · exact h.answered q pass (by simpa [hqp] using hq)
  | handled p x pass pass' w hp hadv => exact h.handled hhold hsound hturn hp hadv
  | committed p now pass hp htodo hcur => exact h.committed hsound hp htodo hcur
  | rolledBack p pass hp =>
    refine ⟨h.order, h.pending, h.posted, h.stored, h.unique, fun q other hq => ?_⟩
    exact h.answered q other (Outbox.close_passes.mp hq).2
  | pruned now =>
    refine ⟨h.order, fun e he hnot => ?_, fun r hr => ?_, h.stored, h.unique, h.answered⟩
    · obtain ⟨r, hr, hid, htopic, hpayload, hnone⟩ := h.pending e he hnot
      refine ⟨r, ?_, hid, htopic, hpayload, hnone⟩
      rw [Table.rows_filter, List.mem_filter]
      exact ⟨hr, by simp [hnone]⟩
    · rw [Table.rows_filter] at hr
      exact h.posted r (List.mem_of_mem_filter hr)

end Ordered

theorem ordered_init {ι : Type} : Ordered (.init .init : Outbox ChatWorld Payload ChatPhase ι) := by
  constructor <;> simp [Outbox.init, ChatWorld.init]

/-- In a run in which every post has its turn, the first frame of a post goes out before any
frame of a later post of its room. -/
theorem room_in_order {ι : Type} [DecidableEq ι] {as : List (Outbox.Act ChatAct ChatAwait ι)}
    {s : Outbox ChatWorld Payload ChatPhase ι}
    (hok : Transition.Guarded (Outbox.step chatService) InTurn (.init .init) as)
    (hr : Transition.run (Outbox.step chatService) (.init .init) as = some s) :
    ∀ e ∈ s.world.posted, ∀ e' ∈ s.world.posted, e.1 < e'.1 →
      s.world.room e.2 = s.world.room e'.2 →
      ∀ (n : Nat) (f : ChatChannel × ChatMessageBroadcast), s.world.messages[n]? = some f →
        f.2.id = e'.2 → ∃ (k : Nat) (g : ChatChannel × ChatMessageBroadcast),
          k < n ∧ s.world.messages[k]? = some g ∧ g.2.id = e.2 := by
  have hstep : ∀ (t : Outbox ChatWorld Payload ChatPhase ι) a t',
      (t.Sound chatService ∧ chatFacts.Hold t ∧ Ordered t) → InTurn t a →
      t.step chatService a = some t' → t'.Sound chatService ∧ chatFacts.Hold t' ∧ Ordered t' := by
    intro t a t' ht hturn ha
    obtain ⟨hsound, hhold, hordered⟩ := ht
    exact ⟨hsound.step ha, hhold.step chatFacts_kept hsound ha,
      hordered.step hhold hsound hturn ha⟩
  have hend := Transition.run_invariant hstep
    ⟨Outbox.init_sound _, Facts.init_hold init_routed, ordered_init⟩ hok hr
  exact hend.2.2.order

section Alone
variable {ι : Type} {s s' : Outbox ChatWorld Payload ChatPhase ι}

/-- A post commits before any later post of its room is claimed or out, and no message goes
out when its pass has failed on an earlier one of its room. -/
def InTurnAlone (s : Outbox ChatWorld Payload ChatPhase ι) :
    Outbox.Act ChatAct ChatAwait ι → Prop
  | .transact (.post message event) => ∀ e ∈ s.world.posted, event < e.1 →
      s.world.room e.2 = some message.channel → ¬s.world.Broadcast e.2 ∧
        ∀ p pass, s.passes p = some pass → e.1 ∉ pass.claimed.map OutboxRow.id
  | .handle p x =>
    match s.passes p with
    | some pass =>
      match pass.current with
      | some ⟨event, _, some (.publishMessage channel _), _⟩ => x.reaches = true →
        ∀ e ∈ s.world.posted, e.1 < event.id → s.world.room e.2 = some channel →
          ¬s.world.Broadcast e.2 → e.1 ∉ pass.failed
      | _ => True
    | none => True
  | _ => True

/-- A pass that has claimed a post has claimed every earlier post of its room that is not out. -/
def ClaimsEarlier (s : Outbox ChatWorld Payload ChatPhase ι) : Prop :=
  ∀ p pass, s.passes p = some pass → ∀ e ∈ s.world.posted, ∀ e' ∈ s.world.posted, e.1 < e'.1 →
    s.world.room e.2 = s.world.room e'.2 → ¬s.world.Broadcast e.2 →
      e'.1 ∈ pass.claimed.map OutboxRow.id → e.1 ∈ pass.claimed.map OutboxRow.id

theorem InTurnAlone.inTurn (h : Ordered s) (hhold : chatFacts.Hold s)
    (hsound : s.Sound chatService) (hclaims : ClaimsEarlier s)
    {a : Outbox.Act ChatAct ChatAwait ι} (hturn : InTurnAlone s a) : InTurn s a := by
  cases a with
  | transact c =>
    cases c with
    | post message event => exact fun e he hlt hroom => (hturn e he hlt hroom).1
    | _ => trivial
  | handle p x =>
    simp only [InTurn]
    split
    · rename_i pass hp
      split
      · rename_i event next channel b ok hcur
        simp only [InTurnAlone, hp, hcur] at hturn
        intro hreach e he hlt hroom hnot
        refine ⟨?_, hturn hreach e he hlt hroom hnot⟩
        obtain ⟨htopic, hpayload, m, hm, hchannel⟩ := hhold.running p pass _ _ hp hcur rfl
        obtain ⟨hclaimed, hrow, -⟩ := hsound.current_row hp hcur
        have hposted := h.posted event hrow htopic b.id hpayload
        refine hclaims p pass hp e he _ hposted hlt ?_ hnot (List.mem_map_of_mem hclaimed)
        rw [hroom]
        simp [ChatWorld.room, hm, hchannel]
      · trivial
    · trivial
  | _ => trivial

namespace ClaimsEarlier

theorem transacted (hclaims : ClaimsEarlier s) (h : Ordered s) (hsound : s.Sound chatService)
    {a : ChatAct} {w : ChatWorld} {events : List (Nat × String × Payload)}
    (hturn : InTurnAlone s (.transact a)) (ha : a.transact s.world = some (w, events))
    (hfresh : ∀ e ∈ events, e.1 ∉ s.drawn) {p : ι} {pass : Pass Payload ChatPhase}
    (hp : s.passes p = some pass) {e e' : Nat × MessageId} (he : e ∈ w.posted)
    (he' : e' ∈ w.posted) (hlt : e.1 < e'.1) (hrooms : w.room e.2 = w.room e'.2)
    (hnot : ¬w.Broadcast e.2) (hmem : e'.1 ∈ pass.claimed.map OutboxRow.id) :
    e.1 ∈ pass.claimed.map OutboxRow.id := by
  have hdrawn : ∀ e ∈ events, e.1 ∉ pass.claimed.map OutboxRow.id := by
    intro e he hclaimed
    obtain ⟨r, hr, hid⟩ := List.mem_map.mp hclaimed
    exact hfresh e he (hid ▸ hsound.drawn r (hsound.held p pass hp r hr).2.1)
  rw [Ordered.broadcast_transact ha] at hnot
  rw [Ordered.posted_transact ha] at he he'
  rcases ChatAct.transact_posts ha with ⟨message, event, rfl, -, hthere, rfl⟩ | hnone
  · have hpost : postsOf [(event, "chat.message_posted", Payload.messagePosted message.id)] =
        [(event, message.id)] := rfl
    rw [hpost, List.mem_append, List.mem_singleton] at he he'
    rcases he' with he' | rfl
    · rw [h.room_transact ha he'] at hrooms
      rcases he with he | rfl
      · rw [h.room_transact ha he] at hrooms
        exact hclaims p pass hp e he e' he' hlt hrooms hnot hmem
      · have hmine : w.room message.id = some message.channel := by simp [ChatWorld.room, hthere]
        rw [hmine] at hrooms
        exact absurd hmem ((hturn e' he' hlt hrooms.symm).2 p pass hp)
    · exact absurd hmem (hdrawn _ (List.mem_singleton_self _))
  · rw [postsOf_none fun e he => (hnone e he).2, List.append_nil] at he he'
    rw [h.room_transact ha he, h.room_transact ha he'] at hrooms
    exact hclaims p pass hp e he e' he' hlt hrooms hnot hmem

variable [DecidableEq ι]

/-- The one processor begins with every pending event older than any it takes. -/
theorem claimed [Subsingleton ι] (hclaims : ClaimsEarlier s) (h : Ordered s)
    (hsound : s.Sound chatService) {p : ι} (hp : s.passes p = none) :
    ClaimsEarlier { s with
      locks := fun id => if id ∈ s.claimable.map OutboxRow.id then some p else s.locks id
      passes := Function.update s.passes p (some (.begin s.claimable)) } := by
  intro q pass hq e he e' he' hlt hrooms hnot hmem
  by_cases hpq : q = p
  · subst hpq
    simp only [Function.update_self, Option.some.injEq] at hq
    subst hq
    obtain ⟨r', hr', hid'⟩ := List.mem_map.mp hmem
    obtain ⟨r, hr, hid, -, -, hnone⟩ := h.pending e he hnot
    have hold : r.id < r'.id := by
      rw [hid, hid']
      exact hlt
    exact hid ▸ List.mem_map_of_mem (hsound.claim_takes_older hp hr' hr hnone hold)
  · exact hclaims q pass (by simpa [hpq] using hq) e he e' he' hlt hrooms hnot hmem

theorem handled (hclaims : ClaimsEarlier s) {p : ι} {x : ChatAwait}
    {pass pass' : Pass Payload ChatPhase} {w : ChatWorld} (hp : s.passes p = some pass)
    (hadv : Pass.Advance chatService x s.world pass w pass') :
    ClaimsEarlier { s with
      world := w
      passes := Function.update s.passes p (some pass') } := by
  obtain ⟨hchat, hposted, hframes⟩ := Ordered.await_messages hadv
  have hroom : ∀ id, w.room id = s.world.room id := by
    intro id
    simp only [ChatWorld.room, hchat]
  intro q other hq e he e' he' hlt hrooms hnot hmem
  simp only [hposted] at he he'
  simp only [hroom] at hrooms
  have hquiet : ¬s.world.Broadcast e.2 := by
    rintro ⟨f, hf, hid⟩
    refine hnot ⟨f, ?_, hid⟩
    rcases hframes with hsame | ⟨_, channel, b, -, -, -, hmore⟩
    · rw [hsame]
      exact hf
    · rw [hmore]
      exact List.mem_append_left _ hf
  by_cases hpq : q = p
  · subst hpq
    simp only [Function.update_self, Option.some.injEq] at hq
    subst hq
    rw [Pass.Progress.claimed_advance hadv] at hmem ⊢
    exact hclaims q pass hp e he e' he' hlt hrooms hquiet hmem
  · exact hclaims q other (by simpa [hpq] using hq) e he e' he' hlt hrooms hquiet hmem

theorem step [Subsingleton ι] (hclaims : ClaimsEarlier s) (h : Ordered s)
    (hsound : s.Sound chatService) {a : Outbox.Act ChatAct ChatAwait ι}
    (hturn : InTurnAlone s a) (ha : s.step chatService a = some s') : ClaimsEarlier s' := by
  cases Outbox.step_effect ha with
  | transacted c w events hc hnodup hfresh =>
    intro p pass hp e he e' he' hlt hrooms hnot hmem
    exact hclaims.transacted h hsound hturn hc hfresh hp he he' hlt hrooms hnot hmem
  | claimed p hp => exact hclaims.claimed h hsound hp
  | handled p x pass pass' w hp hadv => exact hclaims.handled hp hadv
  | committed p now pass hp htodo hcur =>
    intro q other hq
    exact hclaims q other (Outbox.close_passes.mp hq).2
  | rolledBack p pass hp =>
    intro q other hq
    exact hclaims q other (Outbox.close_passes.mp hq).2
  | pruned now => exact hclaims

end ClaimsEarlier

/-- With one processor the order needs no condition on the claims: it is enough that no post
commits behind a claim of a later one, and that none fails before a later one of its pass. -/
theorem room_in_order_alone [DecidableEq ι] [Subsingleton ι]
    {as : List (Outbox.Act ChatAct ChatAwait ι)}
    (hok : Transition.Guarded (Outbox.step chatService) InTurnAlone (.init .init) as)
    (hr : Transition.run (Outbox.step chatService) (.init .init) as = some s) :
    ∀ e ∈ s.world.posted, ∀ e' ∈ s.world.posted, e.1 < e'.1 →
      s.world.room e.2 = s.world.room e'.2 → s.world.Precedes e.2 e'.2 := by
  have hstep : ∀ (t : Outbox ChatWorld Payload ChatPhase ι) a t',
      (t.Sound chatService ∧ chatFacts.Hold t ∧ Ordered t ∧ ClaimsEarlier t) → InTurnAlone t a →
      t.step chatService a = some t' →
      t'.Sound chatService ∧ chatFacts.Hold t' ∧ Ordered t' ∧ ClaimsEarlier t' := by
    rintro t a t' ⟨hsound, hhold, hordered, hclaims⟩ hturn ha
    have hin := hturn.inTurn hordered hhold hsound hclaims
    exact ⟨hsound.step ha, hhold.step chatFacts_kept hsound ha,
      hordered.step hhold hsound hin ha, hclaims.step hordered hsound hturn ha⟩
  have hinit : ClaimsEarlier (.init .init : Outbox ChatWorld Payload ChatPhase ι) := by
    simp [ClaimsEarlier, Outbox.init]
  have hend := Transition.run_invariant hstep
    ⟨Outbox.init_sound _, Facts.init_hold init_routed, ordered_init, hinit⟩ hok hr
  exact hend.2.2.1.order

end Alone

namespace Sample

def twoPosts : List (Outbox.Act ChatAct ChatAwait Unit) :=
  chats [.saveUser carol, .post (hello ⟨7⟩) 0, .post (hello ⟨8⟩) 1]

/-- The first post cannot be loaded; the second goes out in the same pass. -/
def overtakenPost : List (Outbox.Act ChatAct ChatAwait Unit) :=
  twoPosts ++ [.claim ()] ++ chatAwaits 2 none ++ chatAwaits 1 (some "timeout") ++
    chatAwaits 1 none ++ chatAwaits 6 none ++ [.commit () 6] ++ [.claim ()] ++ chatAwaits 6 none ++
    [.commit () 7]

/-- The pass breaks off after the first post's frame, and both are handled again. -/
def repeatedPost : List (Outbox.Act ChatAct ChatAwait Unit) :=
  twoPosts ++ [.claim ()] ++ chatAwaits 8 none ++ [.rollback (), .claim ()] ++ chatAwaits 12 none ++
    [.commit () 7]

end Sample

theorem room_in_order_repeated :
    let w := (Sample.chatRoom Sample.repeatedPost).world
    w.posted = [(0, ⟨7⟩), (1, ⟨8⟩)] ∧ w.messages.map (fun f => f.2.id) = [⟨7⟩, ⟨7⟩, ⟨8⟩] ∧
      ∀ e ∈ w.posted, ∀ e' ∈ w.posted, e.1 < e'.1 → w.room e.2 = w.room e'.2 →
        ∀ (n : Nat) (f : ChatChannel × ChatMessageBroadcast), w.messages[n]? = some f →
          f.2.id = e'.2 → ∃ (k : Nat) (g : ChatChannel × ChatMessageBroadcast),
            k < n ∧ w.messages[k]? = some g ∧ g.2.id = e.2 :=
  ⟨by decide +kernel, by decide +kernel,
    room_in_order (by decide +kernel) (Sample.run_chatRoom (by decide +kernel))⟩

/-- Both posts are in the global room, and the second is out before the first. -/
theorem room_out_of_order :
    let w := (Sample.chatRoom Sample.overtakenPost).world
    w.posted = [(0, ⟨7⟩), (1, ⟨8⟩)] ∧ w.room ⟨7⟩ = some .global ∧ w.room ⟨8⟩ = some .global ∧
      w.messages.map (fun f => f.2.id) = [⟨8⟩, ⟨7⟩] := by
  decide +kernel

end Betsphere
