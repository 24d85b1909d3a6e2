import Betsphere.Chat.Routing
import Betsphere.Events.Feed
set_option autoImplicit false

namespace Betsphere

/-- What a client shows under the messages of a room. -/
structure ReactionView where
  count : MessageId → Text → Nat
  reacted : MessageId → Text → Bool

namespace ReactionView

def fresh : ReactionView := ⟨fun _ _ => 0, fun _ _ => false⟩

/-- The documented fold: assign the count, and the own flag if the frame is about oneself. -/
def apply (self : UserId) (v : ReactionView) (b : ChatReactionBroadcast) : ReactionView where
  count messageId emoji :=
    if b.messageId = messageId ∧ b.emoji = emoji then b.count else v.count messageId emoji
  reacted messageId emoji :=
    if b.messageId = messageId ∧ b.emoji = emoji ∧ b.userId = self then b.added
    else v.reacted messageId emoji

def folded (self : UserId) (frames : List ChatReactionBroadcast) : ReactionView :=
  frames.foldl (apply self) fresh

theorem folded_append (self : UserId) (frames : List ChatReactionBroadcast)
    (b : ChatReactionBroadcast) : folded self (frames ++ [b]) = apply self (folded self frames) b := by
  simp [folded]

end ReactionView

/-- A client that was subscribed to the room throughout. -/
def ChatWorld.client (w : ChatWorld) (self : UserId) (room : ChatChannel) : ReactionView :=
  .folded self ((w.reactions.filter fun f => f.1 = room).map Prod.snd)

/-- One thing a client shows for each key: which events move it, what an event says of it
already, and what a frame assigns. -/
structure ReactionReading (K T : Type) where
  message : K → MessageId
  names : K → MessageId → UserId → Text → Bool
  held : Bool → Option T
  carried : ChatReactionBroadcast → T
  shown : List ChatReactionBroadcast → K → T
  truth : ChatDb → K → T

namespace ReactionReading

/-- The number under an emoji: read when the event is delivered. -/
def counts (self : UserId) : ReactionReading (MessageId × ReactionEmoji) Nat where
  message k := k.1
  names k messageId _ emoji := messageId = k.1 && emoji = k.2.value
  held _ := none
  carried := ChatReactionBroadcast.count
  shown frames k := (ReactionView.folded self frames).count k.1 k.2.value
  truth db k := db.count k.1 k.2

/-- Everybody's own flag: what the event says. -/
def flags : ReactionReading ReactionKey Bool where
  message := ReactionKey.messageId
  names k messageId userId emoji :=
    messageId = k.messageId && userId = k.userId && emoji = k.emoji.value
  held added := some added
  carried := ChatReactionBroadcast.added
  shown frames k := (ReactionView.folded k.userId frames).reacted k.messageId k.emoji.value
  truth db k := (db.reactions.find? k).isSome

structure Lawful {K T : Type} (R : ReactionReading K T) : Prop where
  message : ∀ k messageId userId emoji, R.names k messageId userId emoji = true →
    R.message k = messageId
  apply : ∀ frames b k, R.shown (frames ++ [b]) k =
    if R.names k b.messageId b.userId b.emoji then R.carried b else R.shown frames k
  tables : ∀ (db db' : ChatDb) k, db'.reactions = db.reactions → R.truth db' k = R.truth db k
  tallied : ∀ (db : ChatDb) (event : ChatReactionChanged) (emoji : ReactionEmoji) k,
    emoji.value = event.emoji → R.names k event.messageId event.userId event.emoji = true →
    R.held event.added = some (R.carried ⟨event.messageId, event.emoji,
      db.count event.messageId emoji, event.userId, event.added⟩) ∨
    R.held event.added = none ∧ R.carried ⟨event.messageId, event.emoji,
      db.count event.messageId emoji, event.userId, event.added⟩ = R.truth db k
  committed : ∀ (s : Chat) (i : Nat) (c : ReactionCall) (id : Nat) k,
    s.stored c.key = (!c.added) → R.truth (s.commitReaction i c id).db k = R.truth s.db k ∨
      R.names k c.key.messageId c.key.userId c.key.emoji.value = true ∧
        (R.held c.added = none ∨ R.held c.added = some (R.truth (s.commitReaction i c id).db k))

theorem count_commit {s : Chat} {i : Nat} {c : ReactionCall} {id : Nat}
    {k : MessageId × ReactionEmoji} (hstored : s.stored c.key = !c.added)
    (hk : ¬(c.key.messageId = k.1 ∧ c.key.emoji = k.2)) :
    (s.commitReaction i c id).db.count k.1 k.2 = s.db.count k.1 k.2 := by
  unfold ChatDb.count Chat.commitReaction
  cases hadd : c.added with
  | true =>
    have hnone : s.db.reactions.find? c.key = none := by
      simpa [Chat.stored, hadd] using hstored
    have hrows : (s.db.reactions.upsert ⟨c.key, c.now⟩).rows =
        s.db.reactions.rows ++ [⟨c.key, c.now⟩] := Table.rows_upsert_fresh hnone
    simp [hrows, List.filter_append, hk]
  | false =>
    simp only [Bool.false_eq_true, if_false, Table.rows_filter, List.filter_filter]
    congr 1
    refine List.filter_congr fun r _ => ?_
    by_cases hr : r.key.messageId = k.1 ∧ r.key.emoji = k.2
    · have hne : r.key ≠ c.key := by
        intro heq
        exact hk (heq ▸ hr)
      simp [hr, hne]
    · simp [hr]

theorem counts_lawful (self : UserId) : (counts self).Lawful where
  message := by
    intro k messageId userId emoji h
    simp only [counts, Bool.and_eq_true, decide_eq_true_eq] at h
    exact h.1.symm
  apply := by
    intro frames b k
    simp [counts, ReactionView.folded_append, ReactionView.apply]
  tables := by
    intro db db' k h
    simp [counts, ChatDb.count, h]
  tallied := by
    intro db event emoji k hemoji hnames
    simp only [counts, Bool.and_eq_true, decide_eq_true_eq] at hnames
    obtain ⟨hmessage, hvalue⟩ := hnames
    have hk : emoji = k.2 := ReactionEmoji.ext (hemoji.trans hvalue)
    exact .inr ⟨rfl, by simp [counts, hmessage, hk]⟩
  committed := by
    intro s i c id k hstored
    by_cases hk : c.key.messageId = k.1 ∧ c.key.emoji = k.2
    · exact .inr ⟨by simp [counts, hk], .inl rfl⟩
    · exact .inl (count_commit hstored hk)

theorem flags_lawful : flags.Lawful where
  message := by
    intro k messageId userId emoji h
    simp only [flags, Bool.and_eq_true, decide_eq_true_eq] at h
    exact h.1.1.symm
  apply := by
    intro frames b k
    simp only [flags, ReactionView.folded_append, ReactionView.apply, Bool.and_eq_true,
      decide_eq_true_eq]
    congr 1
    simp only [eq_iff_iff]
    tauto
  tables := by
    intro db db' k h
    simp [flags, h]
  tallied := fun _ _ _ _ _ _ => .inl rfl
  committed := by
    intro s i c id k hstored
    have htruth : flags.truth (s.commitReaction i c id).db k =
        if c.key = k then c.added else s.stored k := Chat.Mirrors.stored_commit s i c id k
    rw [htruth]
    by_cases hk : c.key = k
    · exact .inr ⟨by simp [flags, hk], .inr (by simp [flags, hk])⟩
    · exact .inl (if_neg hk)

section Feeds
variable {K T : Type} (R : ReactionReading K T)

def feed : Feed ChatWorld Payload ChatPhase K T where
  inv w := w.chat.Wf
  known w k := (w.chat.db.messages.find? (R.message k)).isSome
  truth w k := R.truth w.chat.db k
  shown w k := some (R.shown (w.reactions.map Prod.snd) k)
  about topic payload k :=
    match payload with
    | .reactionChanged messageId userId emoji added =>
      if topic = "chat.reaction_changed" ∧ R.names k messageId userId emoji = true then
        some (R.held added)
      else none
    | _ => none
  view phase k :=
    match phase with
    | .findReacted event | .tally event _ _ _ =>
      if R.names k event.messageId event.userId event.emoji = true then some (R.held event.added)
      else none
    | .publishReaction _ b =>
      if R.names k b.messageId b.userId b.emoji = true then some (some (R.carried b)) else none
    | _ => none

variable {R} {k : K}

theorem about_some {topic : String} {payload : Payload} {seen : Option T}
    (h : R.feed.about topic payload k = some seen) : topic = "chat.reaction_changed" ∧
    ∃ messageId userId emoji added, payload = .reactionChanged messageId userId emoji added ∧
      R.names k messageId userId emoji = true ∧ seen = R.held added := by
  simp only [feed] at h
  split at h
  · split at h
    · rename_i hnames
      exact ⟨hnames.1, _, _, _, _, rfl, hnames.2, (Option.some.inj h).symm⟩
    · simp at h
  · simp at h

theorem about_queue (c : RecordedChange) (h : R.names k c.key.messageId c.key.userId
    c.key.emoji.value = true) :
    R.feed.about c.queue.2.1 c.queue.2.2 k = some (R.held c.added) := by
  simp [feed, RecordedChange.queue, h]

theorem begin_reaction {payload : Payload} {phase : ChatPhase}
    (h : ChatReactionBroadcaster.begin payload = .ok phase) :
    ∃ messageId userId emoji added, payload = .reactionChanged messageId userId emoji added ∧
      phase = .findReacted ⟨messageId, userId, emoji, added⟩ := by
  simp only [ChatReactionBroadcaster.begin, typedHandler] at h
  unfold ChatReactionChanged.fromValue at h
  split at h
  · simp at h
  · rename_i heq
    split at heq
    · cases heq
      cases h
      exact ⟨_, _, _, _, rfl, rfl⟩
    · simp at heq

theorem begin_message {payload : Payload} {phase : ChatPhase}
    (h : ChatMessageBroadcaster.begin payload = .ok phase) :
    ∃ event, phase = .findMessage event := by
  simp only [ChatMessageBroadcaster.begin, typedHandler] at h
  split at h
  · simp at h
  · cases h
    exact ⟨_, rfl⟩

theorem feed_transact (hR : R.Lawful) {a : ChatAct} {w w' : ChatWorld}
    {events : List (Nat × String × Payload)} (hinv : w.chat.Wf)
    (h : a.transact w = some (w', events)) : w'.chat.Wf ∧ ∀ k,
    R.feed.shown w' k = R.feed.shown w k ∧ (R.feed.known w k → R.feed.known w' k) ∧
      (∀ e ∈ events, R.feed.about e.2.1 e.2.2 k ≠ none → R.feed.known w' k) ∧
      (R.feed.truth w' k = R.feed.truth w k ∨ R.feed.shown w k = none ∧ ¬R.feed.known w k ∨
        ∃ e ∈ events, ∃ seen, R.feed.about e.2.1 e.2.2 k = some seen ∧ R.feed.Current w' k seen) := by
  obtain ⟨hw, heff⟩ := ChatAct.transact_cases h
  refine ⟨hinv.effect heff, fun k => ⟨by rw [hw]; rfl, heff.grows.message, ?_⟩⟩
  have hmessages := heff.grows
  generalize w'.chat = chat at heff hw hmessages
  subst hw
  have hquiet : ∀ {t : Chat}, t.db.reactions = w.chat.db.reactions →
      R.truth t.db k = R.truth w.chat.db k := fun ht => hR.tables _ _ k ht
  cases heff with
  | saved user => exact ⟨by simp, .inl (hquiet rfl)⟩
  | posted message event hnew hauthor =>
    refine ⟨fun e he habout => ?_, .inl (hquiet rfl)⟩
    obtain rfl := List.mem_singleton.mp he
    exact absurd rfl habout
  | foreign others htopics =>
    refine ⟨fun e he habout => ?_, .inl rfl⟩
    obtain ⟨f, hf, rfl⟩ := List.mem_map.mp he
    exact absurd rfl habout
  | committed i c id hc hphase =>
    have hholds : c.holds = true := by simp [ReactionCall.holds, hphase]
    have hstored := hinv.mirrors.held i c hc hholds
    refine ⟨fun e he habout => ?_, ?_⟩
    · obtain rfl := List.mem_singleton.mp he
      obtain ⟨seen, hseen⟩ := Option.ne_none_iff_exists'.mp habout
      obtain ⟨-, messageId, userId, emoji, added, hpayload, hnames, -⟩ := about_some hseen
      cases hpayload
      change (Table.find? _ (R.message k)).isSome
      rw [hR.message k _ _ _ hnames]
      exact hmessages.message (hinv.reacting i c hc hholds)
    · rcases hR.committed w.chat i c id k hstored with hsame | ⟨hnames, hheld⟩
      · exact .inl hsame
      · exact .inr (.inr ⟨_, List.mem_singleton_self _, _, about_queue _ hnames, hheld⟩)
  | _ => exact ⟨by simp, .inl (hquiet rfl)⟩

theorem feed_step (hR : R.Lawful) {x : ChatAwait} {w w' : ChatWorld} {phase : ChatPhase}
    {r : ChatPhase ⊕ Except String Unit} (hinv : w.chat.Wf)
    (hknown : ∀ k, R.feed.view phase k ≠ none → R.feed.known w k)
    (h : phase.step x w = (w', r)) : w'.chat.Wf ∧ ∀ k,
    R.feed.truth w' k = R.feed.truth w k ∧ (R.feed.known w k → R.feed.known w' k) ∧
      R.feed.Step w w' k phase r := by
  cases ChatPhase.step_effect h with
  | failed phase e =>
    refine ⟨hinv, fun k => ⟨rfl, id, ?_⟩⟩
    cases hview : R.feed.view phase k with
    | none => exact .inl ⟨hview, rfl⟩
    | some seen => exact .inr ⟨seen, hview, .inl ⟨rfl, e, rfl⟩⟩
  | vanished event hmessage => exact ⟨hinv, fun k => ⟨rfl, id, .inl ⟨rfl, rfl⟩⟩⟩
  | found event m hmessage => exact ⟨hinv, fun k => ⟨rfl, id, rfl, .inl rfl⟩⟩
  | orphaned m hauthor => exact ⟨hinv, fun k => ⟨rfl, id, .inl ⟨rfl, rfl⟩⟩⟩
  | composed phase phase' m hphase hnext =>
    refine ⟨hinv, fun k => ⟨rfl, id, rfl, .inl ?_⟩⟩
    have hbefore : R.feed.view phase k = none := by
      cases phase <;> first | rfl | simp [ChatPhase.composing] at hphase
    have hafter : R.feed.view phase' k = none := by
      rcases hnext with hnext | ⟨author, replyTo, rfl⟩
      · cases phase' <;> first | rfl | simp [ChatPhase.composing] at hnext
      · rfl
    rw [hbefore, hafter]
  | messageSent channel b result => exact ⟨hinv, fun k => ⟨rfl, id, .inl ⟨rfl, rfl⟩⟩⟩
  | reactedVanished event hmessage =>
    refine ⟨hinv, fun k => ⟨rfl, id, .inl ⟨?_, rfl⟩⟩⟩
    by_contra hview
    have hk := hknown k hview
    have hnames : R.names k event.messageId event.userId event.emoji = true := by
      by_contra hnot
      exact hview (if_neg hnot)
    simp [feed, hR.message k _ _ _ hnames, hmessage] at hk
  | reactedFound event m emoji hmessage hemoji => exact ⟨hinv, fun k => ⟨rfl, id, rfl, .inl rfl⟩⟩
  | tallied event m emoji hemoji =>
    refine ⟨hinv, fun k => ⟨rfl, id, rfl, ?_⟩⟩
    cases hnames : R.names k event.messageId event.userId event.emoji with
    | false => exact .inl (by simp [feed, hnames])
    | true =>
      rcases hR.tallied w.chat.db event emoji k (ReactionEmoji.value_of_new hemoji) hnames with
        hheld | ⟨hheld, htruth⟩
      · exact .inl (by simp [feed, hnames, hheld])
      · exact .inr ⟨by simp [feed, hnames, hheld], by simp [feed, hnames, htruth]⟩
  | reactionSent channel b result =>
    refine ⟨hinv, fun k => ⟨rfl, id, ?_⟩⟩
    have hshown : R.feed.shown { w with reactions := w.reactions ++ [(channel, b)] } k =
        some (if R.names k b.messageId b.userId b.emoji then R.carried b
          else R.shown (w.reactions.map Prod.snd) k) := by
      simp [feed, hR.apply]
    cases hnames : R.names k b.messageId b.userId b.emoji with
    | false => exact .inl ⟨by simp [feed, hnames], by rw [hshown, hnames]; rfl⟩
    | true =>
      exact .inr ⟨_, by simp [feed, hnames]; rfl, .inr ⟨_, rfl, by rw [hshown, hnames]; rfl⟩⟩
  | elsewhere result => exact ⟨hinv, fun k => ⟨rfl, id, .inl ⟨rfl, rfl⟩⟩⟩

theorem feed_coherent (hR : R.Lawful) : R.feed.Coherent chatService where
  transact := by
    intro a w w' events hinv h
    obtain ⟨hwf, hall⟩ := feed_transact hR hinv h
    exact ⟨hwf, fun k => ⟨(hall k).2.1, (hall k).2.2.1⟩⟩
  recorded := by
    intro a w w' events hinv h k
    obtain ⟨hshown, -, -, htruth⟩ := (feed_transact hR hinv h).2 k
    exact ⟨hshown, htruth⟩
  handler := by
    intro topic payload k seen habout
    obtain ⟨rfl, messageId, userId, emoji, added, rfl, hnames, rfl⟩ := about_some habout
    exact ⟨_, .findReacted ⟨messageId, userId, emoji, added⟩, registered_chatReaction, rfl,
      if_pos hnames⟩
  other := by
    intro topic payload k habout handler hmem phase hdecode
    rcases registered hmem with ⟨rfl, rfl⟩ | ⟨rfl, rfl⟩ | ⟨rfl, rfl⟩ | ⟨rfl, rfl⟩ | rfl
    · cases hdecode
      rfl
    · cases hdecode
      rfl
    · obtain ⟨event, rfl⟩ := begin_message hdecode
      rfl
    · obtain ⟨messageId, userId, emoji, added, rfl, rfl⟩ := begin_reaction hdecode
      simpa [feed] using habout
    · cases hdecode
      rfl
  step := fun _ _ _ _ _ hinv hknown h => feed_step hR hinv hknown h

theorem feed_tracked {ι : Type} :
    R.feed.Tracked (.init .init : Outbox ChatWorld Payload ChatPhase ι) where
  world := Chat.init_wf
  known := by simp [Outbox.init]
  running := by simp [Outbox.init]

/-- A client shows the truth of every key none of whose events is pending. -/
theorem feed_settles {ι : Type} [DecidableEq ι] (hR : R.Lawful)
    (hinit : ∀ k, R.shown [] k = R.truth .empty k) {as : List (Outbox.Act ChatAct ChatAwait ι)}
    {s : Outbox ChatWorld Payload ChatPhase ι}
    (hok : Transition.Guarded (Outbox.step chatService) (R.feed.Corrected chatService)
      (.init .init) as)
    (hr : Transition.run (Outbox.step chatService) (.init .init) as = some s)
    (hdone : ∀ r ∈ s.rows.rows, r.topic = "chat.reaction_changed" → r.processedAt ≠ none) (k : K) :
    R.shown (s.world.reactions.map Prod.snd) k = R.truth s.world.chat.db k := by
  have hconv : R.feed.Converging (.init .init : Outbox ChatWorld Payload ChatPhase ι) := by
    refine fun k => .inl fun v hv => ?_
    exact (Option.some.inj hv).symm.trans (hinit k)
  have hsettled := Feed.converges (feed_coherent hR) (Outbox.init_sound _) feed_tracked hconv hok hr
    (k := k) (fun r hmem habout => by
      obtain ⟨seen, hseen⟩ := Option.ne_none_iff_exists'.mp habout
      exact hdone r hmem (about_some hseen).1)
  exact hsettled _ rfl

end Feeds

end ReactionReading

theorem client_eq {w : ChatWorld} (h : w.Routed) {m : ChatMessage}
    (hm : m ∈ w.chat.db.messages.rows) (self : UserId) (emoji : Text) :
    (w.client self m.channel).count m.id emoji =
        (ReactionView.folded self (w.reactions.map Prod.snd)).count m.id emoji ∧
      (w.client self m.channel).reacted m.id emoji =
        (ReactionView.folded self (w.reactions.map Prod.snd)).reacted m.id emoji := by
  unfold ChatWorld.client
  have hroom : ∀ f ∈ w.reactions, f.1 ≠ m.channel → f.2.messageId ≠ m.id := by
    intro f hf hne heq
    obtain ⟨m', hm', hchannel⟩ := h.reactions f hf
    rw [heq, Table.find?_of_mem hm, Option.some.injEq] at hm'
    exact hne (hchannel ▸ hm' ▸ rfl)
  generalize w.reactions = frames at hroom
  induction frames using List.reverseRecOn with
  | nil => exact ⟨rfl, rfl⟩
  | append_singleton frames f ih =>
    obtain ⟨hcount, hreacted⟩ := ih fun g hg => hroom g (List.mem_append_left _ hg)
    rw [List.map_append, List.map_singleton, ReactionView.folded_append, List.filter_append,
      List.map_append]
    by_cases hf : f.1 = m.channel
    · simp [hf, ReactionView.folded_append, ReactionView.apply, hcount, hreacted]
    · have hne := hroom f (by simp) hf
      simp [hf, ReactionView.apply, hne, hcount, hreacted]

/-- A flag that is not the stored one goes out only while another event of the same
reaction that carries the stored flag is still to be handled. -/
def FlagsCorrected {ι : Type} (s : Outbox ChatWorld Payload ChatPhase ι)
    (a : Outbox.Act ChatAct ChatAwait ι) : Prop :=
  ReactionReading.flags.feed.Corrected chatService s a

/-- One processor, any reactions, posts, failures and rollbacks: once no reaction event is
pending, every client shows the stored counts, and the stored flags if overtaken flags got
corrected. -/
theorem reactions_converge {ι : Type} [DecidableEq ι] [Subsingleton ι]
    {as : List (Outbox.Act ChatAct ChatAwait ι)} {s : Outbox ChatWorld Payload ChatPhase ι}
    (hok : Transition.Guarded (Outbox.step chatService) FlagsCorrected (.init .init) as)
    (hr : Transition.run (Outbox.step chatService) (.init .init) as = some s)
    (hdone : ∀ r ∈ s.rows.rows, r.topic = "chat.reaction_changed" → r.processedAt ≠ none) :
    ∀ m ∈ s.world.chat.db.messages.rows, ∀ (emoji : ReactionEmoji) (user : UserId),
      (s.world.client user m.channel).count m.id emoji.value = s.world.chat.db.count m.id emoji ∧
      ((s.world.client user m.channel).reacted m.id emoji.value = true ↔
        (s.world.chat.db.reactions.find? ⟨m.id, user, emoji⟩).isSome) := by
  intro m hm emoji user
  have hcounts : Transition.Guarded (Outbox.step chatService)
      ((ReactionReading.counts user).feed.Corrected chatService) (.init .init) as := by
    refine Feed.corrected_single (ReactionReading.feed_coherent
      (ReactionReading.counts_lawful user))
      ?_ (Outbox.init_sound _) ReactionReading.feed_tracked ?_ as
    · intro topic payload k seen habout
      obtain ⟨-, _, _, _, _, -, -, rfl⟩ := ReactionReading.about_some habout
      rfl
    · intro p pass a phase k v hp
      simp [Outbox.init] at hp
  have hcount := ReactionReading.feed_settles (ReactionReading.counts_lawful user) (fun _ => rfl)
    hcounts hr hdone (m.id, emoji)
  have hflag := ReactionReading.feed_settles ReactionReading.flags_lawful (fun _ => rfl) hok hr
    hdone ⟨m.id, user, emoji⟩
  have hinv : ∀ (t : Outbox ChatWorld Payload ChatPhase ι) a t',
      (t.Sound chatService ∧ chatFacts.Hold t) → t.step chatService a = some t' →
      t'.Sound chatService ∧ chatFacts.Hold t' := by
    intro t a t' ht ha
    exact ⟨ht.1.step ha, ht.2.step chatFacts_kept ht.1 ha⟩
  have hhold := (Transition.run_invariant' hinv
    ⟨Outbox.init_sound _, Facts.init_hold init_routed⟩ hr).2
  obtain ⟨hc, hf⟩ := client_eq hhold.world hm user emoji.value
  rw [hc, hf]
  refine ⟨hcount, ?_⟩
  change _ ↔ (ReactionReading.flags.truth _ _) = true
  rw [← hflag]
  exact Iff.rfl

/-- The opposite change of the same reaction waits to be handled after this one. -/
def Followed {ι : Type} (s : Outbox ChatWorld Payload ChatPhase ι)
    (pass : Pass Payload ChatPhase) (b : ChatReactionBroadcast) : Prop :=
  ∃ r ∈ s.rows.rows, r.processedAt = none ∧ (s.locks r.id = none ∨ r ∈ pass.todo) ∧
    r.topic = "chat.reaction_changed" ∧
    r.payload = .reactionChanged b.messageId b.userId b.emoji (!b.added)

/-- A flag that goes out is the stored one, or its opposite follows. -/
def FlagsFollowed {ι : Type} (s : Outbox ChatWorld Payload ChatPhase ι) :
    Outbox.Act ChatAct ChatAwait ι → Prop
  | .handle p _ =>
    match s.passes p with
    | some pass =>
      match pass.current.bind Attempt.running with
      | some (.publishReaction _ b) =>
        match ReactionEmoji.new b.emoji with
        | .ok emoji =>
          (s.world.chat.db.reactions.find? ⟨b.messageId, b.userId, emoji⟩).isSome = b.added ∨
            Followed s pass b
        | .error _ => True
      | _ => True
    | none => True
  | _ => True

instance {ι : Type} [DecidableEq ι] (s : Outbox ChatWorld Payload ChatPhase ι) (a) :
    Decidable (FlagsFollowed s a) := by
  unfold FlagsFollowed Followed
  split
  · split
    · split
      · split <;> infer_instance
      · exact isTrue trivial
    · exact isTrue trivial
  · exact isTrue trivial

theorem FlagsFollowed.corrected {ι : Type} {s : Outbox ChatWorld Payload ChatPhase ι}
    {a : Outbox.Act ChatAct ChatAwait ι} (hsound : s.Sound chatService) (h : FlagsFollowed s a) :
    FlagsCorrected s a := by
  rintro p x pass current phase k v w' result rfl hp hcur hrun hview hstale hstep hbefore hshown -
  simp only [FlagsFollowed, hp, hcur, Option.bind_some, hrun] at h
  cases ChatPhase.step_effect hstep with
  | reactionSent channel b result =>
    have hnames : b.messageId = k.messageId ∧ b.userId = k.userId ∧ b.emoji = k.emoji.value := by
      simp only [ReactionReading.feed] at hview
      split at hview
      · rename_i hnames
        simpa [ReactionReading.flags, and_assoc] using hnames
      · simp at hview
    obtain ⟨hmessage, huser, hemoji⟩ := hnames
    have hv : b.added = v := by
      simpa [ReactionReading.feed, ReactionReading.flags, hmessage, huser, hemoji] using hview
    have hstored : ReactionReading.flags.feed.truth s.world k = !b.added := by
      cases htruth : ReactionReading.flags.feed.truth s.world k <;> simp_all
    simp only [hemoji, ReactionEmoji.new_value, hmessage, huser] at h
    rcases h with hsame | ⟨r, hrow, hnone, hfree, htopic, hpayload⟩
    · exact absurd (hsame.symm.trans hstored) (by simp)
    · have habout : ReactionReading.flags.feed.about r.topic r.payload k = some (some (!b.added)) := by
        simp [ReactionReading.feed, ReactionReading.flags, htopic, hpayload, hmessage, huser, hemoji]
      obtain ⟨gone, hgone⟩ := hsound.progress p pass hp
      refine ⟨r, ?_, hrow, hnone, ⟨_, habout, .inr (by rw [hstored])⟩, fun q other hq hmem => ?_⟩
      · rintro rfl
        have hclaimed := (hsound.current_row hp hcur).1
        rcases hfree with hfree | htodo
        · have hl := (hsound.held p pass hp _ hclaimed).1
          simp [hfree] at hl
        · have hsorted := hgone.sorted
          rw [hgone.split, hcur, List.pairwise_append] at hsorted
          exact absurd (hsorted.2.2 _ (by simp) _ htodo) (lt_irrefl _)
      · have hl := (hsound.held q other hq r hmem).1
        rcases hfree with hfree | htodo
        · simp [hfree] at hl
        · have hmine : r ∈ pass.claimed := by
            rw [hgone.split]
            simp [htodo]
          obtain rfl := hsound.owner hq hp (List.mem_map_of_mem hmem) (List.mem_map_of_mem hmine)
          rw [hp] at hq
          cases hq
          exact .inl htodo
  | _ => exact absurd hshown hbefore

theorem flags_followed {ι : Type} [DecidableEq ι] {as : List (Outbox.Act ChatAct ChatAwait ι)}
    (h : Transition.Guarded (Outbox.step chatService) FlagsFollowed (.init .init) as) :
    Transition.Guarded (Outbox.step chatService) FlagsCorrected (.init .init) as :=
  Transition.guarded_invariant (fun _ _ _ hsound _ ha => Outbox.Sound.step hsound ha)
    (fun _ _ hsound hok => FlagsFollowed.corrected hsound hok) (Outbox.init_sound _) h

namespace Sample

/-- Carol posts a message, hearts it and takes the heart back: the events 0, 1 and 2. -/
def heartAndBack : List (Outbox.Act ChatAct ChatAwait Unit) :=
  chats [.saveUser carol, .post (hello ⟨7⟩) 0, .begin true hearted 1, .step 0 0, .step 0 1, .step 0 0,
    .begin false hearted 2, .step 1 0, .step 1 2, .step 1 0]

/-- The addition cannot be tallied, so its frame goes out in the next pass, after the
removal's. -/
def lateHeart : List (Outbox.Act ChatAct ChatAwait Unit) :=
  heartAndBack ++ [.claim ()] ++ chatAwaits 6 none ++ chatAwaits 3 none ++
    chatAwaits 1 (some "timeout") ++ chatAwaits 1 none ++ chatAwaits 6 none ++ [.commit () 6] ++
    [.claim ()] ++ chatAwaits 6 none ++ [.commit () 7]

/-- The removal fails, too, and both are handled again. -/
def bothLate : List (Outbox.Act ChatAct ChatAwait Unit) :=
  heartAndBack ++ [.claim ()] ++ chatAwaits 6 none ++ chatAwaits 3 none ++
    chatAwaits 1 (some "timeout") ++ chatAwaits 1 none ++ chatAwaits 4 none ++
    chatAwaits 1 (some "timeout") ++ chatAwaits 1 none ++ [.commit () 6] ++
    [.claim ()] ++ chatAwaits 12 none ++ [.commit () 7]

end Sample

theorem reactions_converge_retried :
    let s := Sample.chatRoom Sample.bothLate
    s.world.reactions.map (fun f => (f.2.count, f.2.added)) = [(0, true), (0, false)] ∧
      ∀ m ∈ s.world.chat.db.messages.rows, ∀ (emoji : ReactionEmoji) (user : UserId),
        (s.world.client user m.channel).count m.id emoji.value = s.world.chat.db.count m.id emoji ∧
        ((s.world.client user m.channel).reacted m.id emoji.value = true ↔
          (s.world.chat.db.reactions.find? ⟨m.id, user, emoji⟩).isSome) :=
  ⟨by decide +kernel, reactions_converge (flags_followed (by decide +kernel))
    (Sample.run_chatRoom (by decide +kernel)) (by decide +kernel)⟩

/-- Every event is processed, Carol's heart is gone, and her own client still shows it. -/
theorem reaction_flag_stale :
    let s := Sample.chatRoom Sample.lateHeart
    (s.rows.rows.all fun r => r.processedAt.isSome) = true ∧ s.rows.rows.length = 3 ∧
      (s.world.client Sample.carol.id .global).reacted ⟨7⟩ Sample.heart.value = true ∧
      (s.world.chat.db.reactions.find? Sample.hearted).isSome = false := by
  decide +kernel

end Betsphere
