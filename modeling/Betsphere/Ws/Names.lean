import Betsphere.Domain.UuidText
import Betsphere.Lib.PubSub
import Betsphere.Ws.Frames
set_option autoImplicit false

namespace Betsphere

def ChatMessageBroadcast.channel : ChatChannel → String
  | .global => "chat:global"
  | .market id => "chat:market:" ++ toString id

def ChatReactionBroadcast.channel : ChatChannel → String
  | .global => "chat_reactions:global"
  | .market id => "chat_reactions:market:" ++ toString id

def BetPlacedBroadcast.channel : BetFeed → String
  | .global => "global_bets"
  | .market id => "market_bets:" ++ toString id

def PriceUpdateBroadcast.channel (marketId : MarketId) : String := "market:" ++ toString marketId

namespace Ws

/-- `Broadcast::channel` of a message type, at a scope of it. -/
def Topic.channel : Topic → String
  | .messages room => ChatMessageBroadcast.channel room
  | .reactions room => ChatReactionBroadcast.channel room
  | .bets feed => BetPlacedBroadcast.channel feed
  | .prices marketId => PriceUpdateBroadcast.channel marketId

def Channel.name : Channel → Text
  | .chat .global => globalChat
  | .chat (.market id) => marketChatPrefix ++ (toString id).toList
  | .bets .global => globalBets
  | .bets (.market id) => marketBetsPrefix ++ (toString id).toList
  | .marketFeed id => marketFeedPrefix ++ (toString id).toList

/-- The names of a stream: a global one, or a prefix before any spelling of the market's id. -/
inductive Named (parseUuid : Text → Option Uuid) : Text → Channel → Prop where
  | globalChat : Named parseUuid globalChat (.chat .global)
  | globalBets : Named parseUuid globalBets (.bets .global)
  | marketChat (text : Text) (id : Uuid) (h : parseUuid text = some id) :
      Named parseUuid (marketChatPrefix ++ text) (.chat (.market ⟨id⟩))
  | marketBets (text : Text) (id : Uuid) (h : parseUuid text = some id) :
      Named parseUuid (marketBetsPrefix ++ text) (.bets (.market ⟨id⟩))
  | marketFeed (text : Text) (id : Uuid) (h : parseUuid text = some id) :
      Named parseUuid (marketFeedPrefix ++ text) (.marketFeed ⟨id⟩)

section Wire
variable {parseUuid : Text → Option Uuid} {name : Text} {channel : Channel}

theorem isPrefixOf?_eq_some {initial rest : Text} :
    initial.isPrefixOf? name = some rest ↔ name = initial ++ rest := by
  rw [List.isPrefixOf?_eq_some_iff_append_eq, eq_comm]

/-- One text begins both names only where one prefix continues the other. -/
theorem isPrefixOf?_append_eq_none (initial other text : Text)
    (h : ¬initial <+: other) (h' : ¬other <+: initial) :
    initial.isPrefixOf? (other ++ text) = none := by
  cases hsplit : initial.isPrefixOf? (other ++ text) with
  | none => rfl
  | some rest =>
    have heq := isPrefixOf?_eq_some.mp hsplit
    rcases List.prefix_or_prefix_of_prefix ⟨text, rfl⟩ ⟨rest, heq.symm⟩ with hin | hin
    · exact absurd hin h'
    · exact absurd hin h

theorem isPrefixOf?_append_self (initial text : Text) :
    initial.isPrefixOf? (initial ++ text) = some text := isPrefixOf?_eq_some.mpr rfl

theorem append_ne {initial other : Text} (text : Text) (h : ¬initial <+: other) :
    initial ++ text ≠ other := fun heq => h ⟨text, heq⟩

theorem parse_marketChat (text : Text) : parse parseUuid (marketChatPrefix ++ text) =
    (parseUuid text).map fun id => .chat (.market ⟨id⟩) := by
  rw [parse, if_neg (append_ne text (by decide)), if_neg (append_ne text (by decide))]
  simp only [isPrefixOf?_append_self]

theorem parse_marketBets (text : Text) : parse parseUuid (marketBetsPrefix ++ text) =
    (parseUuid text).map fun id => .bets (.market ⟨id⟩) := by
  rw [parse, if_neg (append_ne text (by decide)), if_neg (append_ne text (by decide))]
  simp only [isPrefixOf?_append_self, isPrefixOf?_append_eq_none marketChatPrefix
    marketBetsPrefix text (by decide) (by decide)]

theorem parse_marketFeed (text : Text) : parse parseUuid (marketFeedPrefix ++ text) =
    (parseUuid text).map fun id => .marketFeed ⟨id⟩ := by
  rw [parse, if_neg (append_ne text (by decide)), if_neg (append_ne text (by decide))]
  simp only [isPrefixOf?_append_self,
    isPrefixOf?_append_eq_none marketChatPrefix marketFeedPrefix text (by decide) (by decide),
    isPrefixOf?_append_eq_none marketBetsPrefix marketFeedPrefix text (by decide) (by decide)]
  rfl

theorem parse_iff : parse parseUuid name = some channel ↔ Named parseUuid name channel := by
  constructor
  · intro h
    unfold parse at h
    split at h
    · rename_i hname
      cases h
      exact hname ▸ .globalChat
    · split at h
      · rename_i hname
        cases h
        exact hname ▸ .globalBets
      · split at h
        · rename_i text htext
          obtain ⟨id, hid, rfl⟩ := Option.map_eq_some_iff.mp h
          exact isPrefixOf?_eq_some.mp htext ▸ .marketChat text id hid
        · split at h
          · rename_i text htext
            obtain ⟨id, hid, rfl⟩ := Option.map_eq_some_iff.mp h
            exact isPrefixOf?_eq_some.mp htext ▸ .marketBets text id hid
          · obtain ⟨text, htext, h⟩ := Option.bind_eq_some_iff.mp h
            obtain ⟨id, hid, rfl⟩ := Option.map_eq_some_iff.mp h
            exact isPrefixOf?_eq_some.mp htext ▸ .marketFeed text id hid
  · intro h
    cases h with
    | globalChat => rfl
    | globalBets => rfl
    | marketChat text id h => rw [parse_marketChat, h, Option.map_some]
    | marketBets text id h => rw [parse_marketBets, h, Option.map_some]
    | marketFeed text id h => rw [parse_marketFeed, h, Option.map_some]

theorem Channel.named (hdisplay : ∀ id, parseUuid (displayUuid id).toList = some id)
    (channel : Channel) : Named parseUuid channel.name channel := by
  cases channel with
  | chat room =>
    cases room with
    | global => exact .globalChat
    | market id => exact .marketChat _ _ (hdisplay id.uuid)
  | bets feed =>
    cases feed with
    | global => exact .globalBets
    | market id => exact .marketBets _ _ (hdisplay id.uuid)
  | marketFeed id => exact .marketFeed _ _ (hdisplay id.uuid)

end Wire

def Topic.market : Topic → Option MarketId
  | .messages room => room.marketId
  | .reactions room => room.marketId
  | .bets .global => none
  | .bets (.market id) => some id
  | .prices id => some id

def Topic.stem : Topic → String
  | .messages .global => "chat:global"
  | .messages (.market _) => "chat:market:"
  | .reactions .global => "chat_reactions:global"
  | .reactions (.market _) => "chat_reactions:market:"
  | .bets .global => "global_bets"
  | .bets (.market _) => "market_bets:"
  | .prices _ => "market:"

def topics (id : MarketId) : List (String × Topic) :=
  [("chat:global", .messages .global), ("chat:market:", .messages (.market id)),
    ("chat_reactions:global", .reactions .global),
    ("chat_reactions:market:", .reactions (.market id)), ("global_bets", .bets .global),
    ("market_bets:", .bets (.market id)), ("market:", .prices id)]

def stems : List String :=
  ["chat:global", "chat:market:", "chat_reactions:global", "chat_reactions:market:",
    "global_bets", "market_bets:", "market:"]

theorem stems_apart : ∀ a ∈ stems, ∀ b ∈ stems, a.toList <+: b.toList → a = b := by decide

theorem topics_stem (id : MarketId) : (topics id).map Prod.fst = stems := rfl

theorem Topic.mem_topics (topic : Topic) (id : MarketId) (h : topic.market.getD id = id) :
    (topic.stem, topic) ∈ topics id := by
  cases topic with
  | messages room =>
    cases room with
    | global => simp [topics, stem]
    | market id' =>
      obtain rfl : id' = id := h
      simp [topics, stem]
  | reactions room =>
    cases room with
    | global => simp [topics, stem]
    | market id' =>
      obtain rfl : id' = id := h
      simp [topics, stem]
  | bets feed =>
    cases feed with
    | global => simp [topics, stem]
    | market id' =>
      obtain rfl : id' = id := h
      simp [topics, stem]
  | prices id' =>
    obtain rfl : id' = id := h
    simp [topics, stem]

theorem Topic.stem_mem (topic : Topic) : topic.stem ∈ stems := by
  have hmem := topic.mem_topics (topic.market.getD ⟨0⟩) (by cases topic.market <;> rfl)
  rw [← topics_stem (topic.market.getD ⟨0⟩)]
  exact List.mem_map_of_mem (f := Prod.fst) hmem

theorem Topic.eq_of_stem {topic topic' : Topic} (hstem : topic.stem = topic'.stem)
    (hmarket : topic.market = topic'.market) : topic = topic' := by
  have hmem := topic.mem_topics (topic.market.getD ⟨0⟩) (by cases topic.market <;> rfl)
  have hmem' := topic'.mem_topics (topic.market.getD ⟨0⟩)
    (by rw [hmarket]; cases topic'.market <;> rfl)
  have hnd : ((topics (topic.market.getD ⟨0⟩)).map Prod.fst).Nodup := by
    rw [topics_stem]
    decide
  exact congrArg Prod.snd (List.inj_on_of_nodup_map hnd hmem hmem' hstem)

theorem Topic.channel_eq (topic : Topic) :
    topic.channel = topic.stem ++ topic.market.elim "" toString := by
  cases topic with
  | messages room => cases room <;> rfl
  | reactions room => cases room <;> rfl
  | bets feed => cases feed <;> rfl
  | prices id => rfl

theorem market_elim_injective {market market' : Option MarketId}
    (h : market.elim "" toString = market'.elim "" toString) : market = market' := by
  have hread : ∀ market : Option MarketId,
      readUuid (market.elim "" toString).toList = market.map MarketId.uuid := by
    intro market
    cases market with
    | none => rfl
    | some id => exact readUuid_displayUuid id.uuid
  have huuid : market.map MarketId.uuid = market'.map MarketId.uuid := by
    rw [← hread, ← hread, h]
  refine Option.map_injective (fun id id' hid => ?_) huuid
  cases id
  cases id'
  exact congrArg MarketId.mk hid

theorem Topic.channel_injective : Function.Injective Topic.channel := by
  intro topic topic' h
  rw [channel_eq, channel_eq] at h
  have hlist := congrArg String.toList h
  rw [String.toList_append, String.toList_append] at hlist
  have hstem : topic.stem = topic'.stem := by
    rcases List.prefix_or_prefix_of_prefix ⟨_, hlist⟩ ⟨_, rfl⟩ with hin | hin
    · exact stems_apart _ topic.stem_mem _ topic'.stem_mem hin
    · exact (stems_apart _ topic'.stem_mem _ topic.stem_mem hin).symm
  rw [hstem] at hlist
  exact eq_of_stem hstem
    (market_elim_injective (String.toList_inj.mp (List.append_cancel_left hlist)))

/-- Every wire name means one stream, and every stream answers to the name it is printed
with. On the broker no subscription is sent what is meant for another topic, in any run. -/
theorem channel_names_unambiguous (parseUuid : Text → Option Uuid)
    (hdisplay : ∀ id, parseUuid (displayUuid id).toList = some id) :
    (∀ channel : Channel, parse parseUuid channel.name = some channel) ∧
    (∀ name channel, parse parseUuid name = some channel ↔ Named parseUuid name channel) ∧
    Function.Injective Topic.channel ∧
    ∀ acts, ∀ s ∈ PubSub.run Topic.channel Live.topic [] acts,
      ∀ live ∈ s.received ++ s.queue, live.topic = s.topic :=
  ⟨fun channel => parse_iff.mpr (channel.named hdisplay), fun _ _ => parse_iff,
    Topic.channel_injective,
    fun acts => PubSub.run_pure Topic.channel_injective (fun _ h => absurd h List.not_mem_nil) acts⟩

/-- With the hyphenated spelling as the only one that is read. -/
theorem channel_names_unambiguous_seven :
    parse readUuid "market_bets:00000000-0000-0000-0000-000000000007".toList =
      some (.bets (.market ⟨7⟩)) ∧
    parse readUuid "market:00000000-0000-0000-0000-000000000007".toList =
      some (.marketFeed ⟨7⟩) := by
  have hall := (channel_names_unambiguous readUuid readUuid_displayUuid).1
  exact ⟨hall (.bets (.market ⟨7⟩)), hall (.marketFeed ⟨7⟩)⟩

end Ws

end Betsphere
