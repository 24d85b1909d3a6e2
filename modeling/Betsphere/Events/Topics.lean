import Betsphere.Domain.Chat
import Betsphere.Events.Outbox
set_option autoImplicit false

namespace Betsphere

/-- A stored payload; `json` is one that is none of the encodings a handler looks for. -/
inductive Payload where
  | event (event : Event)
  | messagePosted (messageId : MessageId)
  | reactionChanged (messageId : MessageId) (userId : UserId) (emoji : Text) (added : Bool)
  | json (text : String)
  deriving DecidableEq

def Event.topic : Event → String
  | .userBalanceChanged _ => "user.balance_changed"
  | .betPlaced _ => "bet.placed"
  | .marketPricesUpdated _ => "market.prices_updated"

def Event.queue (id : Nat) (event : Event) : Nat × String × Payload :=
  (id, event.topic, .event event)

def ownTopics : List String :=
  ["user.balance_changed", "bet.placed", "market.prices_updated", "chat.message_posted",
    "chat.reaction_changed"]

def UserBalanceChanged.fromValue : Payload → Except String UserId
  | .event (.userBalanceChanged userId) => .ok userId
  | _ => .error "invalid value"

def MarketPricesUpdated.fromValue : Payload → Except String MarketId
  | .event (.marketPricesUpdated marketId) => .ok marketId
  | _ => .error "invalid value"

structure ChatMessagePosted where
  messageId : MessageId
  deriving DecidableEq

def ChatMessagePosted.fromValue : Payload → Except String ChatMessagePosted
  | .messagePosted messageId => .ok ⟨messageId⟩
  | _ => .error "invalid value"

structure ChatReactionChanged where
  messageId : MessageId
  userId : UserId
  emoji : Text
  added : Bool
  deriving DecidableEq

def ChatReactionChanged.fromValue : Payload → Except String ChatReactionChanged
  | .reactionChanged messageId userId emoji added => .ok ⟨messageId, userId, emoji, added⟩
  | _ => .error "invalid value"

/-- What one await of a handler meets: the clock, a failure, and whether a publish that
failed still went out. -/
structure Await where
  now : DateTime
  failure : Option String
  sent : Bool

namespace Await

def reaches (x : Await) : Bool := x.failure.isNone || x.sent

def outcome (x : Await) (doing : String) : Except String Unit :=
  match x.failure with
  | none => .ok ()
  | some e => .error (doing ++ ": " ++ e)

end Await

/-- The registry of the server, with the handlers of the topics a model is not about
standing aside. -/
def serverRegistry {φ : Type} (elsewhere : φ) (userCache priceUpdate chatMessage chatReaction :
    Payload → Except DeliveryError φ) : Registry Payload φ :=
  let aside : Payload → Except DeliveryError φ := fun _ => .ok elsewhere
  Registry.withHandler [] "user.balance_changed" userCache
    |>.withHandler "bet.placed" aside
    |>.withHandler "market.prices_updated" priceUpdate
    |>.withHandler "chat.message_posted" chatMessage
    |>.withHandler "chat.reaction_changed" chatReaction

section Registered
variable {φ : Type} {elsewhere : φ}
  {userCache priceUpdate chatMessage chatReaction : Payload → Except DeliveryError φ}

theorem registered {topic : String} {handler : Payload → Except DeliveryError φ}
    (h : handler ∈ (serverRegistry elsewhere userCache priceUpdate chatMessage chatReaction).get
      topic) :
    (topic = "user.balance_changed" ∧ handler = userCache) ∨
      (topic = "market.prices_updated" ∧ handler = priceUpdate) ∨
      (topic = "chat.message_posted" ∧ handler = chatMessage) ∨
      (topic = "chat.reaction_changed" ∧ handler = chatReaction) ∨
      handler = fun _ => .ok elsewhere := by
  obtain ⟨entry, hentry, rfl⟩ := List.mem_map.mp h
  obtain ⟨hmem, htopic⟩ := List.mem_filter.mp hentry
  simp only [serverRegistry, Registry.withHandler, List.nil_append, List.cons_append,
    List.mem_cons, List.not_mem_nil, or_false] at hmem
  rcases hmem with rfl | rfl | rfl | rfl | rfl
  · exact .inl ⟨(of_decide_eq_true htopic).symm, rfl⟩
  · exact .inr (.inr (.inr (.inr rfl)))
  · exact .inr (.inl ⟨(of_decide_eq_true htopic).symm, rfl⟩)
  · exact .inr (.inr (.inl ⟨(of_decide_eq_true htopic).symm, rfl⟩))
  · exact .inr (.inr (.inr (.inl ⟨(of_decide_eq_true htopic).symm, rfl⟩)))

theorem registered_userCache :
    (serverRegistry elsewhere userCache priceUpdate chatMessage chatReaction).get
      "user.balance_changed" = [userCache] := rfl

theorem registered_priceUpdate :
    (serverRegistry elsewhere userCache priceUpdate chatMessage chatReaction).get
    "market.prices_updated" =
      [priceUpdate] := rfl

theorem registered_chatMessage :
    (serverRegistry elsewhere userCache priceUpdate chatMessage chatReaction).get
    "chat.message_posted" =
      [chatMessage] := rfl

theorem registered_chatReaction :
    (serverRegistry elsewhere userCache priceUpdate chatMessage chatReaction).get
    "chat.reaction_changed" =
      [chatReaction] := rfl

end Registered

end Betsphere
