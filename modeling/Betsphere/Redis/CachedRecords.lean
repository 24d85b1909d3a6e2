import Betsphere.Postgres.Rows
import Betsphere.Postgres.TitleSearch
set_option autoImplicit false

namespace Betsphere

structure CachedUser where
  id : Uuid
  username : Text
  email : Text
  passwordHash : Text
  avatarUrl : Option Text
  balance : Int
  role : Text
  createdAt : DateTime
  updatedAt : DateTime
  deriving DecidableEq

namespace CachedUser

def ofUser (u : User) : CachedUser :=
  ⟨u.id.uuid, u.username.value, u.email.value, u.passwordHash.value, u.avatarUrl, u.balance,
    u.role.asStr, u.createdAt, u.updatedAt⟩

def toUser (lowercase : Text → Text) (cached : CachedUser) : Except DomainError User := do
  let username ← Username.new cached.username
  let email ← Email.new lowercase cached.email
  let role ← Role.fromStr cached.role
  return ⟨⟨cached.id⟩, username, email, ⟨cached.passwordHash⟩, cached.avatarUrl, cached.balance,
    role, cached.createdAt, cached.updatedAt⟩

theorem toUser_ofUser {lowercase : Text → Text} {u : User}
    (hemail : Email.new lowercase u.email.value = .ok u.email) :
    (CachedUser.ofUser u).toUser lowercase = .ok u := by
  simp only [toUser, ofUser, Username.new_value, hemail, Role.fromStr_asStr]
  rfl

end CachedUser

/-- A user whose e-mail address the constructor made comes back from the cache and from
the table, every validated text passes its constructor again, and so every row is read. -/
theorem stored_values_read_back (lowercase : Text → Text)
    (hidem : ∀ s, lowercase (lowercase s) = lowercase s)
    (htrim : ∀ s, trim s = s → trim (lowercase s) = lowercase s) :
    (∀ (u : User) (name email : Text), Username.new name = .ok u.username →
      Email.new lowercase email = .ok u.email →
        (CachedUser.ofUser u).toUser lowercase = .ok u ∧
        (UserRow.ofUser u).toUser lowercase = .ok u) ∧
    (∀ s title, MarketTitle.new s = .ok title → MarketTitle.new title.value = .ok title) ∧
    (∀ s label, OutcomeLabel.new s = .ok label → OutcomeLabel.new label.value = .ok label) ∧
    (∀ s body, MessageBody.new s = .ok body → MessageBody.new body.value = .ok body) ∧
    (∀ m, (MarketRow.ofMarket m).toMarket = .ok m) ∧
    (∀ o, (OutcomeRow.ofOutcome o).toOutcome = .ok o) ∧
    (∀ p, (PricePointRow.ofPricePoint p).toPricePoint = .ok p) ∧
    (∀ b, (BetRow.ofBet b).toBet = .ok b) ∧
    (∀ m, (ChatMessageRow.ofMessage m).toMessage = .ok m) ∧
    ∀ emoji : ReactionEmoji, ReactionEmoji.new emoji.value = .ok emoji := by
  refine ⟨fun u name email _ h => ?_, fun _ title _ => title.new_value,
    fun _ label _ => label.new_value, fun _ body _ => body.new_value,
    MarketRow.toMarket_ofMarket, OutcomeRow.toOutcome_ofOutcome,
    PricePointRow.toPricePoint_ofPricePoint, BetRow.toBet_ofBet,
    ChatMessageRow.toMessage_ofMessage, ReactionEmoji.new_value⟩
  have hagain := Email.new_value hidem htrim h
  exact ⟨CachedUser.toUser_ofUser hagain, UserRow.toUser_ofUser hagain⟩

namespace Sample

theorem asciiLower_cases (c : Char) : asciiLower c = c ∨
    ∃ n, 65 ≤ n ∧ n ≤ 90 ∧ c = Char.ofNat n := by
  by_cases h : 'A' ≤ c ∧ c ≤ 'Z'
  · exact .inr ⟨c.toNat, h.1, h.2, (Char.ofNat_toNat c).symm⟩
  · exact .inl (if_neg h)

theorem asciiLower_idem (c : Char) : asciiLower (asciiLower c) = asciiLower c := by
  obtain h | ⟨n, hlow, hhigh, rfl⟩ := asciiLower_cases c
  · rw [h, h]
  · interval_cases n <;> rfl

theorem isWhitespace_asciiLower (c : Char) : isWhitespace (asciiLower c) = isWhitespace c := by
  obtain h | ⟨n, hlow, hhigh, rfl⟩ := asciiLower_cases c
  · rw [h]
  · interval_cases n <;> rfl

theorem asciiLowercase_idem (s : Text) : CaseFolding.ascii.lowercase
    (CaseFolding.ascii.lowercase s) = CaseFolding.ascii.lowercase s := by
  unfold CaseFolding.lowercase
  rw [List.map_map]
  exact List.map_congr_left fun c _ => asciiLower_idem c

theorem asciiLowercase_trim (s : Text) (h : trim s = s) :
    trim (CaseFolding.ascii.lowercase s) = CaseFolding.ascii.lowercase s :=
  Trimmed.trimmed_iff.mpr ((Trimmed.trimmed_iff.mp h).map isWhitespace_asciiLower)

def registered : User :=
  User.new ⟨1⟩ ⟨"alice".toList, by decide, by decide⟩ ⟨"alice@b.org".toList⟩
    ⟨"$argon2id$v=19".toList⟩ 0

end Sample

theorem stored_values_read_back_alice :
    Email.new CaseFolding.ascii.lowercase " Alice@B.org ".toList = .ok Sample.registered.email ∧
    (CachedUser.ofUser Sample.registered).toUser CaseFolding.ascii.lowercase =
      .ok Sample.registered ∧
    (UserRow.ofUser Sample.registered).toUser CaseFolding.ascii.lowercase =
      .ok Sample.registered := by
  have hemail : Email.new CaseFolding.ascii.lowercase " Alice@B.org ".toList =
      .ok Sample.registered.email := by decide +kernel
  have hname : Username.new "alice".toList = .ok Sample.registered.username := by decide +kernel
  exact ⟨hemail, (stored_values_read_back CaseFolding.ascii.lowercase Sample.asciiLowercase_idem
    Sample.asciiLowercase_trim).1 Sample.registered _ _ hname hemail⟩

end Betsphere
