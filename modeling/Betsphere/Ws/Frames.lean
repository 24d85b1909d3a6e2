import Betsphere.Application.Profile
import Betsphere.Chat.History
import Betsphere.Events.PriceFeed
set_option autoImplicit false

namespace Betsphere

inductive BetFeed where
  | global
  | market (id : MarketId)
  deriving DecidableEq

structure BetPlacedBroadcast where
  id : BetId
  userId : UserId
  marketId : MarketId
  outcomeId : OutcomeId
  amount : Int
  price : Price
  createdAt : DateTime
  deriving DecidableEq

def Bet.broadcast (bet : Bet) : BetPlacedBroadcast where
  id := bet.id
  userId := bet.userId
  marketId := bet.marketId
  outcomeId := bet.outcomeId
  amount := bet.amount
  price := bet.price
  createdAt := bet.createdAt

def RepositoryError.message : RepositoryError → String
  | .conflict msg => "entity already exists: " ++ msg
  | .storage msg => "storage error: " ++ msg

def ApplicationError.message : ApplicationError → String
  | .domain e => e.message
  | .notFound what => what ++ " not found"
  | .conflict msg => msg
  | .unauthorized msg => msg
  | .forbidden msg => msg
  | .internal msg => "internal error: " ++ msg

namespace Ws

inductive Channel where
  | chat (room : ChatChannel)
  | bets (feed : BetFeed)
  | marketFeed (marketId : MarketId)
  deriving DecidableEq

def globalChat : Text := "global_chat".toList
def globalBets : Text := "global_bets".toList
def marketChatPrefix : Text := "market_chat:".toList
def marketBetsPrefix : Text := "market_bets:".toList
def marketFeedPrefix : Text := "market:".toList

/-- The stream a wire name names. `parseUuid` is `Uuid::parse_str`, which reads several
spellings of one identifier. -/
def parse (parseUuid : Text → Option Uuid) (name : Text) : Option Channel :=
  if name = globalChat then some (.chat .global)
  else if name = globalBets then some (.bets .global)
  else
    match marketChatPrefix.isPrefixOf? name with
    | some id => (parseUuid id).map fun id => .chat (.market ⟨id⟩)
    | none =>
      match marketBetsPrefix.isPrefixOf? name with
      | some id => (parseUuid id).map fun id => .bets (.market ⟨id⟩)
      | none => do
        let id ← marketFeedPrefix.isPrefixOf? name
        (parseUuid id).map fun id => .marketFeed ⟨id⟩

def hint : String :=
  "expected \x7b\"type\": \"subscribe|unsubscribe|chat_message\", \"channel\": " ++
    "\"global_chat\" | \"market_chat:<id>\" | \"market:<id>\" | " ++
    "\"market_bets:<id>\" | \"global_bets\", ...\x7d or " ++
    "\x7b\"type\": \"add_reaction|remove_reaction\", \"message_id\": \"<id>\", \"emoji\": \"👍\"\x7d"

inductive ClientFrame where
  | subscribe (channel : Text)
  | unsubscribe (channel : Text)
  | chatMessage (channel : Text) (body : Text) (replyTo : Option MessageId)
  | addReaction (messageId : MessageId) (emoji : Text)
  | removeReaction (messageId : MessageId) (emoji : Text)
  deriving DecidableEq

/-- A bet as its frame shows it, from a stored bet or from its broadcast. -/
structure BetPlacedResponse where
  id : BetId
  userId : UserId
  marketId : MarketId
  outcomeId : OutcomeId
  amount : Int
  price : Price
  createdAt : DateTime
  deriving DecidableEq

def BetPlacedResponse.ofBroadcast (b : BetPlacedBroadcast) : BetPlacedResponse where
  id := b.id
  userId := b.userId
  marketId := b.marketId
  outcomeId := b.outcomeId
  amount := b.amount
  price := b.price
  createdAt := b.createdAt

def BetPlacedResponse.ofBet (bet : Bet) : BetPlacedResponse where
  id := bet.id
  userId := bet.userId
  marketId := bet.marketId
  outcomeId := bet.outcomeId
  amount := bet.amount
  price := bet.price
  createdAt := bet.createdAt

inductive ServerFrame where
  | history (channel : Text) (data : List ChatMessageView)
  | betHistory (channel : Text) (data : List BetPlacedResponse)
  | chatMessage (channel : Text) (data : ChatMessageBroadcast)
  | reactionUpdate (channel : Text) (data : ChatReactionBroadcast)
  | priceUpdate (channel : Text) (data : PriceTick)
  | betPlaced (channel : Text) (data : BetPlacedResponse)
  | error (message : String)

def ServerFrame.channel? : ServerFrame → Option Text
  | .history channel _ => some channel
  | .betHistory channel _ => some channel
  | .chatMessage channel _ => some channel
  | .reactionUpdate channel _ => some channel
  | .priceUpdate channel _ => some channel
  | .betPlaced channel _ => some channel
  | .error _ => none

/-- A channel of the broker: a message type and its scope. -/
inductive Topic where
  | messages (room : ChatChannel)
  | reactions (room : ChatChannel)
  | bets (feed : BetFeed)
  | prices (marketId : MarketId)
  deriving DecidableEq

/-- A decoded payload on the broker channel that carries it. -/
inductive Live where
  | message (room : ChatChannel) (b : ChatMessageBroadcast)
  | reaction (room : ChatChannel) (b : ChatReactionBroadcast)
  | bet (feed : BetFeed) (b : BetPlacedBroadcast)
  | prices (b : PriceUpdateBroadcast)
  deriving DecidableEq

def Live.topic : Live → Topic
  | .message room _ => .messages room
  | .reaction room _ => .reactions room
  | .bet feed _ => .bets feed
  | .prices b => .prices b.market

/-- The wire frames of one payload, under the name the client subscribed with. -/
def Live.frames (name : Text) : Live → List ServerFrame
  | .message _ b => [.chatMessage name b]
  | .reaction _ b => [.reactionUpdate name b]
  | .bet _ b => [.betPlaced name (.ofBroadcast b)]
  | .prices b => b.ticks.map fun tick => .priceUpdate name tick

theorem Live.frames_channel {name : Text} {live : Live} {frame : ServerFrame}
    (h : frame ∈ live.frames name) : frame.channel? = some name := by
  cases live with
  | prices b =>
    obtain ⟨tick, -, rfl⟩ := List.mem_map.mp h
    rfl
  | _ =>
    cases List.mem_singleton.mp h
    rfl

/-- What one subscription listens to, in the order in which it subscribes. -/
def Channel.topics : Channel → List Topic
  | .chat room => [.messages room, .reactions room]
  | .bets feed => [.bets feed]
  | .marketFeed marketId => [.prices marketId]

theorem Channel.topics_disjoint {channel channel' : Channel} {topic : Topic}
    (h : topic ∈ channel.topics) (h' : topic ∈ channel'.topics) : channel = channel' := by
  cases channel <;> cases channel' <;> simp only [topics, List.mem_cons, List.not_mem_nil,
    or_false] at h h' <;> grind

theorem Channel.topics_ne_nil (channel : Channel) : channel.topics ≠ [] := by
  cases channel <;> simp [topics]

/-- The market whose existence is checked before its feed is joined. -/
def Channel.checked : Channel → Option MarketId
  | .chat _ => none
  | .bets .global => none
  | .bets (.market id) => some id
  | .marketFeed id => some id

end Ws

end Betsphere
