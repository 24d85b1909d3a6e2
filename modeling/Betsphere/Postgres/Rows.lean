import Betsphere.Domain.Chat
import Betsphere.Domain.Credentials
import Betsphere.Domain.Names
set_option autoImplicit false

namespace Betsphere

def corruptRow (what id : String) (e : DomainError) : RepositoryError :=
  .storage ("corrupt " ++ what ++ " row " ++ id ++ ": " ++ e.message)

structure UserRow where
  id : Uuid
  username : Text
  email : Text
  passwordHash : Text
  avatarUrl : Option Text
  balance : Int
  role : Text
  createdAt : DateTime
  updatedAt : DateTime
  deriving DecidableEq

namespace UserRow

/-- The columns that `save_user` binds. -/
def ofUser (u : User) : UserRow :=
  ⟨u.id.uuid, u.username.value, u.email.value, u.passwordHash.value, u.avatarUrl, u.balance,
    u.role.asStr, u.createdAt, u.updatedAt⟩

def toUser (lowercase : Text → Text) (row : UserRow) : Except RepositoryError User := do
  let corrupt := corruptRow "user" (displayUuid row.id)
  let username ← (Username.new row.username).mapError corrupt
  let email ← (Email.new lowercase row.email).mapError corrupt
  let role ← (Role.fromStr row.role).mapError corrupt
  return ⟨⟨row.id⟩, username, email, ⟨row.passwordHash⟩, row.avatarUrl, row.balance, role,
    row.createdAt, row.updatedAt⟩

end UserRow

structure MarketRow where
  id : Uuid
  title : Text
  description : Option Text
  category : Option Text
  thumbnailUrl : Option Text
  status : Text
  resolvedOutcomeId : Option Uuid
  totalVolume : Int
  participantsCount : Int
  createdAt : DateTime
  closesAt : Option DateTime
  deriving DecidableEq

namespace MarketRow

def ofMarket (m : Market) : MarketRow :=
  ⟨m.id.uuid, m.title.value, m.description, m.category, m.thumbnailUrl, m.status.asStr,
    m.resolvedOutcomeId.map OutcomeId.uuid, m.totalVolume, m.participantsCount, m.createdAt,
    m.closesAt⟩

def toMarket (row : MarketRow) : Except RepositoryError Market := do
  let corrupt := corruptRow "market" (displayUuid row.id)
  let title ← (MarketTitle.new row.title).mapError corrupt
  let status ← (MarketStatus.fromStr row.status).mapError corrupt
  return ⟨⟨row.id⟩, title, row.description, row.category, row.thumbnailUrl, status,
    row.resolvedOutcomeId.map OutcomeId.mk, row.totalVolume, row.participantsCount,
    row.createdAt, row.closesAt⟩

end MarketRow

structure OutcomeRow where
  id : Uuid
  marketId : Uuid
  label : Text
  thumbnailUrl : Option Text
  currentPrice : Int
  volume : Int
  deriving DecidableEq

namespace OutcomeRow

def ofOutcome (o : Outcome) : OutcomeRow :=
  ⟨o.id.uuid, o.marketId.uuid, o.label.value, o.thumbnailUrl, o.currentPrice.tenThousandths,
    o.volume⟩

def toOutcome (row : OutcomeRow) : Except RepositoryError Outcome := do
  let corrupt := corruptRow "outcome" (displayUuid row.id)
  let label ← (OutcomeLabel.new row.label).mapError corrupt
  let price ← (Price.fromTenThousandths row.currentPrice).mapError corrupt
  return ⟨⟨row.id⟩, ⟨row.marketId⟩, label, row.thumbnailUrl, price, row.volume⟩

end OutcomeRow

structure PricePointRow where
  outcomeId : Uuid
  price : Int
  recordedAt : DateTime
  deriving DecidableEq

namespace PricePointRow

def ofPricePoint (p : PricePoint) : PricePointRow :=
  ⟨p.outcomeId.uuid, p.price.tenThousandths, p.recordedAt⟩

def toPricePoint (row : PricePointRow) : Except RepositoryError PricePoint := do
  let price ← (Price.fromTenThousandths row.price).mapError fun e =>
    .storage ("corrupt price_history row for outcome " ++ displayUuid row.outcomeId ++ ": " ++
      e.message)
  return ⟨⟨row.outcomeId⟩, price, row.recordedAt⟩

end PricePointRow

/-- The two fields behind `createdAt` are the CHECK constraints of the table. -/
structure BetRow where
  id : Uuid
  userId : Uuid
  marketId : Uuid
  outcomeId : Uuid
  amount : Int
  price : Int
  status : Text
  payout : Option Int
  createdAt : DateTime
  amountPositive : 0 < amount
  priceInRange : 0 < price ∧ price ≤ 10000

theorem Price.tenThousandths_of_from {value : Int} {price : Price}
    (h : Price.fromTenThousandths value = .ok price) : price.tenThousandths = value := by
  unfold Price.fromTenThousandths at h
  split at h
  · cases h
    rfl
  · cases h

theorem Price.from_tenThousandths (price : Price) :
    Price.fromTenThousandths price.tenThousandths = .ok price :=
  Price.fromTenThousandths_of_inRange price.inRange

namespace BetRow

def ofBet (b : Bet) : BetRow :=
  ⟨b.id.uuid, b.userId.uuid, b.marketId.uuid, b.outcomeId.uuid, b.amount,
    b.price.tenThousandths, b.status.asStr, b.payout, b.createdAt, b.amountPositive,
    b.pricePositive, b.price.inRange.2⟩

def toBet (row : BetRow) : Except RepositoryError Bet :=
  let corrupt := corruptRow "bet" (displayUuid row.id)
  match hprice : Price.fromTenThousandths row.price with
  | .error e => .error (corrupt e)
  | .ok price =>
    match BetStatus.fromStr row.status with
    | .error e => .error (corrupt e)
    | .ok status =>
      .ok ⟨⟨row.id⟩, ⟨row.userId⟩, ⟨row.marketId⟩, ⟨row.outcomeId⟩, row.amount, price, status,
        row.payout, row.createdAt, row.amountPositive,
        Price.tenThousandths_of_from hprice ▸ row.priceInRange.1⟩

end BetRow

def ChatChannel.ofMarketId : Option MarketId → ChatChannel
  | none => .global
  | some id => .market id

structure ChatMessageRow where
  id : Uuid
  authorId : Uuid
  marketId : Option Uuid
  body : Text
  replyToId : Option Uuid
  createdAt : DateTime
  deriving DecidableEq

namespace ChatMessageRow

def ofMessage (m : ChatMessage) : ChatMessageRow :=
  ⟨m.id.uuid, m.authorId.uuid, m.channel.marketId.map MarketId.uuid, m.body.value,
    m.replyTo.map MessageId.uuid, m.createdAt⟩

def toMessage (row : ChatMessageRow) : Except RepositoryError ChatMessage := do
  let corrupt := corruptRow "chat message" (displayUuid row.id)
  let body ← (MessageBody.new row.body).mapError corrupt
  return ⟨⟨row.id⟩, ⟨row.authorId⟩, .ofMarketId (row.marketId.map MarketId.mk), body,
    row.replyToId.map MessageId.mk, row.createdAt⟩

end ChatMessageRow

section Constructors

/-- What a constructor has let through it lets through again, unchanged. -/
theorem BoundedText.new_value {maxChars : Nat} {empty long : String}
    (text : BoundedText maxChars) : BoundedText.new maxChars empty long text.value = .ok text := by
  obtain ⟨value, hne, hshort, htrimmed⟩ := text
  have hne' : ¬trim value = [] := by rwa [htrimmed]
  have hshort' : (trim value).length ≤ maxChars := by rwa [htrimmed]
  simp only [BoundedText.new, dif_neg hne', dif_pos hshort', Except.ok.injEq]
  congr 1

theorem Username.new_value (username : Username) : Username.new username.value = .ok username := by
  simp [Username.new, username.length, username.chars]

theorem Email.new_value {lowercase : Text → Text} {value : Text} {email : Email}
    (hidem : ∀ s, lowercase (lowercase s) = lowercase s)
    (htrim : ∀ s, trim s = s → trim (lowercase s) = lowercase s)
    (h : Email.new lowercase value = .ok email) :
    Email.new lowercase email.value = .ok email := by
  have hvalue : email.value = lowercase (trim value) := by
    simp only [Email.new] at h
    split at h
    · cases h
      rfl
    · cases h
  have hagain : lowercase (trim email.value) = lowercase (trim value) := by
    rw [hvalue, htrim _ (trim_trim value), hidem]
  unfold Email.new at h ⊢
  rw [hagain]
  exact h

end Constructors

section Rows

theorem UserRow.toUser_ofUser {lowercase : Text → Text} {u : User}
    (hemail : Email.new lowercase u.email.value = .ok u.email) :
    (UserRow.ofUser u).toUser lowercase = .ok u := by
  simp only [toUser, ofUser, Username.new_value, hemail, Role.fromStr_asStr]
  rfl

theorem MarketRow.toMarket_ofMarket (m : Market) : (MarketRow.ofMarket m).toMarket = .ok m := by
  have hresolved : (m.resolvedOutcomeId.map OutcomeId.uuid).map OutcomeId.mk =
      m.resolvedOutcomeId := by
    cases m.resolvedOutcomeId <;> rfl
  simp only [toMarket, ofMarket, MarketTitle.new, BoundedText.new_value,
    MarketStatus.fromStr_asStr, hresolved]
  rfl

theorem OutcomeRow.toOutcome_ofOutcome (o : Outcome) :
    (OutcomeRow.ofOutcome o).toOutcome = .ok o := by
  simp only [toOutcome, ofOutcome, OutcomeLabel.new, BoundedText.new_value,
    Price.from_tenThousandths]
  rfl

theorem PricePointRow.toPricePoint_ofPricePoint (p : PricePoint) :
    (PricePointRow.ofPricePoint p).toPricePoint = .ok p := by
  simp only [toPricePoint, ofPricePoint, Price.from_tenThousandths]
  rfl

theorem BetRow.toBet_ofBet (b : Bet) : (BetRow.ofBet b).toBet = .ok b := by
  unfold toBet
  split
  · rename_i e he
    cases he.symm.trans (Price.from_tenThousandths b.price)
  · rename_i price hprice
    obtain rfl := Except.ok.inj (hprice.symm.trans (Price.from_tenThousandths b.price))
    simp only [ofBet, BetStatus.fromStr_asStr]

theorem ChatMessageRow.toMessage_ofMessage (m : ChatMessage) :
    (ChatMessageRow.ofMessage m).toMessage = .ok m := by
  have hchannel : ChatChannel.ofMarketId
      ((m.channel.marketId.map MarketId.uuid).map MarketId.mk) = m.channel := by
    cases m.channel <;> rfl
  have hreply : (m.replyTo.map MessageId.uuid).map MessageId.mk = m.replyTo := by
    cases m.replyTo <;> rfl
  simp only [toMessage, ofMessage, MessageBody.new, BoundedText.new_value, hchannel, hreply]
  rfl

end Rows

end Betsphere
