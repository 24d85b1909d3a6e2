import Betsphere.Domain.Chat
import Betsphere.Lib.Keyset
import Betsphere.Postgres.Database
set_option autoImplicit false

namespace Betsphere

structure MessageAnchor where
  id : MessageId
  createdAt : DateTime
  deriving DecidableEq

def MessageAnchor.of (m : ChatMessage) : MessageAnchor := ⟨m.id, m.createdAt⟩

/-- Which side of an anchor to page towards; both exclude it. -/
inductive MessageCursor where
  | before (anchor : MessageAnchor)
  | after (anchor : MessageAnchor)
  deriving DecidableEq

/-- `(created_at, id)`, compared as a row value. -/
abbrev ChatKey := Int ×ₗ Nat

def MessageAnchor.key (a : MessageAnchor) : ChatKey := toLex (a.createdAt, a.id.uuid.toNat)

def ChatMessage.key (m : ChatMessage) : ChatKey := (MessageAnchor.of m).key

def roomOf (channel : ChatChannel) (messages : List ChatMessage) : List ChatMessage :=
  Keyset.sort ChatMessage.key (messages.filter fun m => m.channel = channel)

/-- How many elements stand before the first that fails `p`. -/
def partitionPoint {α : Type} (p : α → Bool) (l : List α) : Nat := (l.takeWhile p).length

def InMemoryChatMessageRepository.listRecent (messages : List ChatMessage)
    (channel : ChatChannel) (limit : Int) (cursor : Option MessageCursor) : List ChatMessage :=
  let recent := roomOf channel messages
  let recent : List ChatMessage := match cursor with
    | none => recent
    | some (.before anchor) => recent.take (partitionPoint (fun m => m.key < anchor.key) recent)
    | some (.after anchor) =>
      let split := partitionPoint (fun m => m.key < anchor.key) recent
      let anchorPresent : Bool := recent[split]?.any fun m => m.id = anchor.id
      recent.drop (if anchorPresent then split + 1 else split)
  let limit := limit.toNat
  match cursor with
  | some (.after _) => recent.take limit
  | _ => recent.drop (recent.length - limit)

def MessageCursor.admits (cursor : Option MessageCursor) (m : ChatMessage) : Bool :=
  match cursor with
  | none => true
  | some (.before anchor) => m.key < anchor.key
  | some (.after anchor) => anchor.key < m.key

/-- The query of `list_recent_messages` on the rows of `chat_messages`, in any order. -/
def listRecentMessages (rows : List ChatMessage) (channel : ChatChannel) (limit : Int)
    (cursor : Option MessageCursor) : Except RepositoryError (List ChatMessage) :=
  if limit < 0 then .error (databaseError "LIMIT must not be negative")
  else
    let chosen := rows.filter fun m =>
      m.channel.marketId = channel.marketId && MessageCursor.admits cursor m
    let ordered : List ChatMessage := match cursor with
      | some (.after _) => chosen.insertionSort fun a b => a.key ≤ b.key
      | _ => chosen.insertionSort fun a b => b.key ≤ a.key
    .ok ((ordered.take limit.toNat).insertionSort fun a b => a.key ≤ b.key)

theorem ChatChannel.marketId_inj {c d : ChatChannel} : c.marketId = d.marketId ↔ c = d := by
  cases c <;> cases d <;> simp [ChatChannel.marketId]

theorem MessageAnchor.key_inj {a b : MessageAnchor} : a.key = b.key ↔ a = b := by
  constructor
  · intro h
    have hpair : (a.createdAt, a.id.uuid.toNat) = (b.createdAt, b.id.uuid.toNat) := toLex_inj.mp h
    obtain ⟨⟨u⟩, at₁⟩ := a
    obtain ⟨⟨v⟩, at₂⟩ := b
    simp only [Prod.mk.injEq] at hpair
    obtain ⟨rfl, huv⟩ := hpair
    rw [BitVec.eq_of_toNat_eq huv]
  · rintro rfl
    rfl

theorem ChatMessage.key_id {m : ChatMessage} {a : MessageAnchor} (h : m.key = a.key) :
    m.id = a.id := by
  rw [← MessageAnchor.key_inj.mp h]
  rfl

section Room
variable {messages rows : List ChatMessage} {channel : ChatChannel} {limit : Int}
  {anchor : MessageAnchor} {m : ChatMessage}

theorem keys_nodup (h : (messages.map ChatMessage.id).Nodup) :
    (messages.map ChatMessage.key).Nodup := by
  have hid : messages.map ChatMessage.id =
      (messages.map MessageAnchor.of).map MessageAnchor.id := by
    rw [List.map_map]
    rfl
  have hanchors : (messages.map MessageAnchor.of).Nodup := List.Nodup.of_map _ (hid ▸ h)
  have hkey : messages.map ChatMessage.key =
      (messages.map MessageAnchor.of).map MessageAnchor.key := by
    rw [List.map_map]
    rfl
  rw [hkey]
  exact hanchors.map fun a b hab => MessageAnchor.key_inj.mp hab

@[simp] theorem mem_roomOf : m ∈ roomOf channel messages ↔ m ∈ messages ∧ m.channel = channel := by
  simp [roomOf]

theorem roomOf_rising (channel : ChatChannel) (h : (messages.map ChatMessage.id).Nodup) :
    Keyset.Rising ChatMessage.key (roomOf channel messages) :=
  Keyset.rising_sort ((List.filter_sublist.map _).nodup (keys_nodup h))

theorem roomOf_perm (h : (messages.map ChatMessage.id).Nodup) (hp : rows.Perm messages) :
    roomOf channel rows = roomOf channel messages := by
  have hrows : (rows.map ChatMessage.id).Nodup := (hp.map _).nodup_iff.mpr h
  refine (roomOf_rising channel hrows).eq_of_perm (roomOf_rising channel h) ?_
  exact (Keyset.sort_perm _).trans ((hp.filter _).trans (Keyset.sort_perm _).symm)

theorem memory_newest : InMemoryChatMessageRepository.listRecent messages channel limit none =
    Keyset.newest limit.toNat (roomOf channel messages) := rfl

theorem memory_before (h : (messages.map ChatMessage.id).Nodup) :
    InMemoryChatMessageRepository.listRecent messages channel limit (some (.before anchor)) =
      Keyset.newest limit.toNat
        (Keyset.older ChatMessage.key anchor.key (roomOf channel messages)) := by
  have hsplit : (roomOf channel messages).take
      (partitionPoint (fun m => m.key < anchor.key) (roomOf channel messages)) =
      Keyset.older ChatMessage.key anchor.key (roomOf channel messages) := by
    rw [partitionPoint, ← (roomOf_rising channel h).takeWhile_eq]
    exact (List.prefix_iff_eq_take.mp (List.takeWhile_prefix _)).symm
  simp only [InMemoryChatMessageRepository.listRecent, hsplit, Keyset.newest]

/-- The messages at or behind the anchor; the anchor's own message is dropped by its id. -/
theorem memory_after (h : (messages.map ChatMessage.id).Nodup) :
    InMemoryChatMessageRepository.listRecent messages channel limit (some (.after anchor)) =
      (let behind := (roomOf channel messages).filter fun m => anchor.key ≤ m.key
      behind.drop (if behind.head?.any fun m => m.id = anchor.id then 1 else 0)).take
        limit.toNat := by
  have hrising := roomOf_rising channel h
  simp only [InMemoryChatMessageRepository.listRecent, partitionPoint, hrising.takeWhile_eq,
    ← hrising.drop_eq]
  have hhead : ((roomOf channel messages).drop
      (Keyset.older ChatMessage.key anchor.key (roomOf channel messages)).length).head? =
      (roomOf channel messages)[(Keyset.older ChatMessage.key anchor.key
        (roomOf channel messages)).length]? := List.head?_drop
  rw [hhead, List.drop_drop]
  congr 2
  split <;> rfl

theorem sort_chosen (h : (messages.map ChatMessage.id).Nodup) (hp : rows.Perm messages)
    (channel : ChatChannel) (cursor : Option MessageCursor) :
    Keyset.sort ChatMessage.key (rows.filter fun m =>
        m.channel.marketId = channel.marketId && MessageCursor.admits cursor m) =
      (roomOf channel messages).filter (MessageCursor.admits cursor) := by
  have hrows : (rows.map ChatMessage.id).Nodup := (hp.map _).nodup_iff.mpr h
  have hroom : (rows.filter fun m =>
      m.channel.marketId = channel.marketId && MessageCursor.admits cursor m) =
      (rows.filter fun m => m.channel = channel).filter (MessageCursor.admits cursor) := by
    rw [List.filter_filter]
    refine List.filter_congr fun m _ => ?_
    rw [Bool.and_comm]
    simp only [ChatChannel.marketId_inj]
  have hsub : ((rows.filter fun m => m.channel = channel).map ChatMessage.key).Nodup :=
    (List.filter_sublist.map _).nodup (keys_nodup hrows)
  rw [hroom, Keyset.sort_filter hsub, ← roomOf_perm h hp]
  rfl

theorem query_downwards (h : (messages.map ChatMessage.id).Nodup) (hp : rows.Perm messages)
    (cursor : Option MessageCursor) (n : Nat) :
    (((rows.filter fun m => m.channel.marketId = channel.marketId &&
        MessageCursor.admits cursor m).insertionSort fun a b => b.key ≤ a.key).take
          n).insertionSort (fun a b => a.key ≤ b.key) =
      Keyset.newest n ((roomOf channel messages).filter (MessageCursor.admits cursor)) := by
  have hrows : (rows.map ChatMessage.id).Nodup := (hp.map _).nodup_iff.mpr h
  have hchosen : ((rows.filter fun m => m.channel.marketId = channel.marketId &&
      MessageCursor.admits cursor m).map ChatMessage.key).Nodup :=
    (List.filter_sublist.map _).nodup (keys_nodup hrows)
  rw [Keyset.sort_descending hchosen, sort_chosen h hp]
  exact Keyset.sort_take_reverse ((roomOf_rising channel h).filter _)

theorem query_newest (h : (messages.map ChatMessage.id).Nodup) (hp : rows.Perm messages)
    (hlimit : 0 ≤ limit) : listRecentMessages rows channel limit none =
      .ok (Keyset.newest limit.toNat (roomOf channel messages)) := by
  have hall : (roomOf channel messages).filter (MessageCursor.admits none) =
      roomOf channel messages := List.filter_eq_self.mpr fun _ _ => rfl
  simp only [listRecentMessages, not_lt.mpr hlimit, if_false, query_downwards h hp, hall]

theorem query_before (h : (messages.map ChatMessage.id).Nodup) (hp : rows.Perm messages)
    (hlimit : 0 ≤ limit) : listRecentMessages rows channel limit (some (.before anchor)) =
      .ok (Keyset.newest limit.toNat
        (Keyset.older ChatMessage.key anchor.key (roomOf channel messages))) := by
  simp only [listRecentMessages, not_lt.mpr hlimit, if_false, query_downwards h hp]
  rfl

theorem query_after (h : (messages.map ChatMessage.id).Nodup) (hp : rows.Perm messages)
    (hlimit : 0 ≤ limit) : listRecentMessages rows channel limit (some (.after anchor)) =
      .ok ((Keyset.newer ChatMessage.key anchor.key (roomOf channel messages)).take
        limit.toNat) := by
  have hsort := sort_chosen h hp channel (some (.after anchor))
  simp only [Keyset.sort] at hsort
  simp only [listRecentMessages, not_lt.mpr hlimit, if_false, hsort]
  have hrising := (roomOf_rising channel h).filter
    (MessageCursor.admits (some (.after anchor)))
  exact congrArg Except.ok (hrising.sublist (List.take_sublist _ _)).sort_eq

/-- The room's first message behind the anchor does not bear the anchor's own id. -/
def MessageCursor.Placed (messages : List ChatMessage) (channel : ChatChannel) :
    Option MessageCursor → Prop
  | some (.after anchor) => ∀ m ∈ (Keyset.newer ChatMessage.key anchor.key
      (roomOf channel messages)).head?, m.id ≠ anchor.id
  | _ => True

instance decidablePlaced (messages : List ChatMessage) (channel : ChatChannel) :
    (cursor : Option MessageCursor) → Decidable (MessageCursor.Placed messages channel cursor)
  | some (.after anchor) => inferInstanceAs (Decidable (∀ m ∈ (Keyset.newer ChatMessage.key
      anchor.key (roomOf channel messages)).head?, m.id ≠ anchor.id))
  | some (.before _) => isTrue trivial
  | none => isTrue trivial

theorem behind_cases (channel : ChatChannel) (anchor : MessageAnchor)
    (h : (messages.map ChatMessage.id).Nodup) :
    (∃ m, m.key = anchor.key ∧ (roomOf channel messages).filter (fun m => anchor.key ≤ m.key) =
        m :: Keyset.newer ChatMessage.key anchor.key (roomOf channel messages)) ∨
      (roomOf channel messages).filter (fun m => anchor.key ≤ m.key) =
        Keyset.newer ChatMessage.key anchor.key (roomOf channel messages) := by
  have hrising := roomOf_rising channel h
  by_cases hex : ∃ m ∈ roomOf channel messages, m.key = anchor.key
  · obtain ⟨m, hm, hkey⟩ := hex
    obtain ⟨pre, post, hsplit⟩ := List.append_of_mem hm
    refine .inl ⟨m, hkey, ?_⟩
    rw [hsplit] at hrising ⊢
    have hlen : (Keyset.older ChatMessage.key m.key (pre ++ m :: post)).length = pre.length := by
      rw [Keyset.older_split hrising]
    rw [← hkey, Keyset.newer_split hrising, ← hrising.drop_eq m.key, hlen, List.drop_left]
  · refine .inr (List.filter_congr fun m hm => ?_)
    have hne : anchor.key ≠ m.key := fun heq => hex ⟨m, hm, heq.symm⟩
    simp [le_iff_lt_or_eq, hne]

/-- The two stores give the same page exactly when the limit is zero or no later message
bears the anchor's id right behind the anchor. -/
theorem stores_page_alike (messages rows : List ChatMessage)
    (hids : (messages.map ChatMessage.id).Nodup) (hrows : rows.Perm messages)
    (channel : ChatChannel) (limit : Int) (hlimit : 0 ≤ limit) (cursor : Option MessageCursor) :
    listRecentMessages rows channel limit cursor =
        .ok (InMemoryChatMessageRepository.listRecent messages channel limit cursor) ↔
      limit = 0 ∨ MessageCursor.Placed messages channel cursor := by
  match cursor with
  | none => simp [query_newest hids hrows hlimit, memory_newest, MessageCursor.Placed]
  | some (.before anchor) =>
    simp [query_before hids hrows hlimit, memory_before hids, MessageCursor.Placed]
  | some (.after anchor) =>
    rw [query_after hids hrows hlimit, memory_after hids, Except.ok.injEq]
    rcases behind_cases channel anchor hids with
      ⟨own, hkey, hbehind⟩ | hbehind
    · -- The anchor's message is stored: both stores start right behind it.
      have howned : own.id = anchor.id := ChatMessage.key_id hkey
      have hplaced : MessageCursor.Placed messages channel (some (.after anchor)) := by
        intro m hm hid
        have hmem := List.mem_of_mem_head? hm
        have hlt : anchor.key < m.key := by simpa [Keyset.newer] using List.of_mem_filter hmem
        have hown : own ∈ roomOf channel messages := by
          have : own ∈ (roomOf channel messages).filter fun m => anchor.key ≤ m.key := by
            rw [hbehind]
            simp
          exact List.mem_of_mem_filter this
        have hsame : m = own := List.inj_on_of_nodup_map hids (mem_roomOf.mp
          (List.mem_of_mem_filter hmem)).1 (mem_roomOf.mp hown).1 (hid.trans howned.symm)
        rw [hsame, hkey] at hlt
        exact absurd hlt (lt_irrefl _)
      simp [hbehind, howned, hplaced]
    · rw [hbehind]
      cases hnewer : Keyset.newer ChatMessage.key anchor.key (roomOf channel messages) with
      | nil => simp [MessageCursor.Placed, hnewer]
      | cons m later =>
        by_cases hid : m.id = anchor.id
        · -- The store takes a later message for the anchor's own and skips it.
          have hnodup : (m :: later).Nodup := by
            rw [← hnewer]
            exact ((roomOf_rising channel hids).filter _).imp fun hab heq => hab.ne (congrArg _ heq)
          have hplaced : ¬MessageCursor.Placed messages channel (some (.after anchor)) := by
            simp [MessageCursor.Placed, hnewer, hid]
          simp only [List.head?_cons, Option.any_some, hid, decide_true, if_true, hplaced, or_false,
            List.drop_succ_cons, List.drop_zero]
          constructor
          · intro heq
            cases hn : limit.toNat with
            | zero => omega
            | succ n =>
              rw [hn, List.take_succ_cons] at heq
              have hm : m ∈ later.take (n + 1) := by
                rw [← heq]
                simp
              exact absurd (List.mem_of_mem_take hm) (List.nodup_cons.mp hnodup).1
          · rintro rfl
            rfl
        · have hplaced : MessageCursor.Placed messages channel (some (.after anchor)) := by
            simp [MessageCursor.Placed, hnewer, hid]
          simp [hid, hplaced]

end Room

theorem mem_listRecentMessages {rows page : List ChatMessage} {channel : ChatChannel} {limit : Int}
    {cursor : Option MessageCursor} (h : listRecentMessages rows channel limit cursor = .ok page) :
    ∀ m ∈ page, m ∈ rows ∧ m.channel = channel := by
  intro m hm
  unfold listRecentMessages at h
  split at h
  · cases h
  · cases h
    rw [List.mem_insertionSort] at hm
    have hm := List.mem_of_mem_take hm
    have hchosen : m ∈ rows.filter fun m =>
        m.channel.marketId = channel.marketId && MessageCursor.admits cursor m := by
      split at hm <;> exact (List.mem_insertionSort _).mp hm
    obtain ⟨hmem, hroom⟩ := List.mem_filter.mp hchosen
    simp only [Bool.and_eq_true, decide_eq_true_eq] at hroom
    exact ⟨hmem, ChatChannel.marketId_inj.mp hroom.1⟩

namespace Sample

def said (id : Uuid) (createdAt : DateTime) : ChatMessage :=
  ⟨⟨id⟩, ⟨1⟩, .global, ⟨['h', 'e', 'y'], by decide, by decide, by decide +kernel⟩, none, createdAt⟩

end Sample

open Sample in
theorem stores_page_alike_tied :
    listRecentMessages [said 3 6, said 2 5, said 1 5] .global 10 (some (.after ⟨⟨1⟩, 5⟩)) =
      .ok (InMemoryChatMessageRepository.listRecent [said 1 5, said 2 5, said 3 6] .global 10
        (some (.after ⟨⟨1⟩, 5⟩))) :=
  (stores_page_alike [said 1 5, said 2 5, said 3 6] [said 3 6, said 2 5, said 1 5] (by decide)
    (by decide) .global 10 (by decide) (some (.after ⟨⟨1⟩, 5⟩))).mpr (.inr (by decide))

open Sample in
/-- An anchor with the id of a stored message and an earlier timestamp. -/
theorem stores_page_apart :
    listRecentMessages [said 1 5] .global 10 (some (.after ⟨⟨1⟩, 3⟩)) = .ok [said 1 5] ∧
      InMemoryChatMessageRepository.listRecent [said 1 5] .global 10
        (some (.after ⟨⟨1⟩, 3⟩)) = [] := by
  decide

end Betsphere
