import Betsphere.Domain.Entities
set_option autoImplicit false

namespace Betsphere

structure MessageId where
  uuid : Uuid
  deriving DecidableEq

instance : ToString MessageId := ⟨fun id => displayUuid id.uuid⟩

inductive ChatChannel where
  | global
  | market (id : MarketId)
  deriving DecidableEq

def ChatChannel.marketId : ChatChannel → Option MarketId
  | .global => none
  | .market id => some id

abbrev MessageBody := BoundedText 2000

def MessageBody.new (value : Text) : Except DomainError MessageBody :=
  BoundedText.new 2000 "message must not be empty" "message must be at most 2000 characters" value

def inAny (ranges : List (Nat × Nat)) (n : Nat) : Bool :=
  ranges.any fun r => decide (r.1 ≤ n) && decide (n ≤ r.2)

/-- A scalar that renders as an emoji on its own, or the enclosing keycap. -/
def isEmojiScalar (c : Char) : Bool :=
  inAny [(0x00A9, 0x00A9), (0x00AE, 0x00AE), (0x203C, 0x203C), (0x2049, 0x2049), (0x20E3, 0x20E3),
    (0x2122, 0x2122), (0x2139, 0x2139), (0x2194, 0x21AA), (0x231A, 0x231B), (0x2328, 0x2328),
    (0x23CF, 0x23CF), (0x23E9, 0x23FA), (0x24C2, 0x24C2), (0x25AA, 0x25FE), (0x2600, 0x27BF),
    (0x2934, 0x2935), (0x2B00, 0x2BFF), (0x3030, 0x3030), (0x303D, 0x303D), (0x3297, 0x3297),
    (0x3299, 0x3299), (0x1F000, 0x1FAFF)] c.toNat

/-- A pictograph, one of the joiners that combine them, or a keycap base. -/
def isSequenceScalar (c : Char) : Bool :=
  isEmojiScalar c || inAny [(0x200D, 0x200D), (0xFE0E, 0xFE0F), (0xE0020, 0xE007F)] c.toNat ||
    c.isDigit || c = '#' || c = '*'

/-- A reaction, stored exactly as written. -/
@[ext] structure ReactionEmoji where
  value : Text
  nonempty : value ≠ []
  short : value.length ≤ 16
  scalars : value.all isSequenceScalar = true ∧ value.any isEmojiScalar = true

instance : DecidableEq ReactionEmoji := fun a b =>
  decidable_of_iff (a.value = b.value) ReactionEmoji.ext_iff.symm

def ReactionEmoji.new (value : Text) : Except DomainError ReactionEmoji :=
  if he : value = [] then .error (.validation "reaction must be a single emoji")
  else if hs : value.length ≤ 16 then
    if hc : value.all isSequenceScalar = true ∧ value.any isEmojiScalar = true then
      .ok ⟨value, he, hs, hc⟩
    else .error (.validation "reaction must be a single emoji")
  else .error (.validation "reaction must be at most 16 characters")

theorem ReactionEmoji.new_value (emoji : ReactionEmoji) :
    ReactionEmoji.new emoji.value = .ok emoji := by
  simp [ReactionEmoji.new, emoji.nonempty, emoji.short, emoji.scalars.1, emoji.scalars.2]

theorem ReactionEmoji.value_of_new {value : Text} {emoji : ReactionEmoji}
    (h : ReactionEmoji.new value = .ok emoji) : emoji.value = value := by
  unfold ReactionEmoji.new at h
  split at h
  · simp at h
  · split at h
    · split at h
      · cases h
        rfl
      · simp at h
    · simp at h

structure ChatMessage where
  id : MessageId
  authorId : UserId
  channel : ChatChannel
  body : MessageBody
  replyTo : Option MessageId
  createdAt : DateTime
  deriving DecidableEq

end Betsphere
