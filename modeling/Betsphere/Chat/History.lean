import Betsphere.Chat.Paging
import Betsphere.Chat.Tallies
set_option autoImplicit false

namespace Betsphere

structure HistoryWindow where
  before : Option MessageId
  after : Option MessageId

structure RepliedMessage where
  message : ChatMessage
  author : User

structure ChatMessageView where
  message : ChatMessage
  author : User
  replyTo : Option RepliedMessage
  reactions : List ReactionTally

structure HistoryReads where
  findMarket : MarketId → Except RepositoryError (Option Market)
  findById : MessageId → Except RepositoryError (Option ChatMessage)
  listRecent : ChatChannel → Int → Option MessageCursor → Except RepositoryError (List ChatMessage)
  reactionsFor : List MessageId → UserId →
    Except RepositoryError (MessageId → Option (List ReactionTally))
  findByIds : List MessageId → Except RepositoryError (List ChatMessage)
  findUser : UserId → Except RepositoryError (Option User)

def orInternal {α : Type} (answer : Except RepositoryError α) : Except ApplicationError α :=
  answer.mapError ApplicationError.ofRepository

namespace ListRecentMessages
variable (r : HistoryReads)

/-- Reading a market room that does not exist is an error, not an empty list. -/
def findRoom : ChatChannel → Except ApplicationError Unit
  | .global => .ok ()
  | .market id => do
    match ← orInternal (r.findMarket id) with
    | none => .error (.notFound ("market " ++ toString id))
    | some _ => .ok ()

def anchorOf (channel : ChatChannel) (id : MessageId) : Except ApplicationError MessageAnchor := do
  match (← orInternal (r.findById id)).filter fun message => message.channel = channel with
  | none => .error (.notFound ("message " ++ displayUuid id.uuid))
  | some message => .ok (.of message)

/-- A message of another channel is no anchor. -/
def resolveCursor (channel : ChatChannel) (window : HistoryWindow) :
    Except ApplicationError (Option MessageCursor) :=
  match window.before, window.after with
  | none, none => .ok none
  | some before, none => do return some (.before (← anchorOf r channel before))
  | none, some after => do return some (.after (← anchorOf r channel after))
  | some _, some _ =>
    .error (.domain (.validation "before_uuid and after_uuid are mutually exclusive"))

def page (channel : ChatChannel) (limit : Int) (window : HistoryWindow) :
    Except ApplicationError (List ChatMessage) := do
  orInternal (r.listRecent channel limit (← resolveCursor r channel window))

def quotedMessages (messages : List ChatMessage) :
    Except ApplicationError (MessageId → Option ChatMessage) := do
  let ids := (messages.filterMap ChatMessage.replyTo).insertionSort fun a b =>
    a.uuid.toNat ≤ b.uuid.toNat
  let quoted ← orInternal (r.findByIds (ids.destutter fun a b => a ≠ b))
  return quoted.foldl (fun found m => Function.update found m.id (some m)) fun _ => none

/-- One author, looked up once for a whole page. -/
def author (cache : UserId → Option User) (id : UserId) :
    Except ApplicationError (Option User × (UserId → Option User)) :=
  match cache id with
  | some user => .ok (some user, cache)
  | none => do
    match ← orInternal (r.findUser id) with
    | none => return (none, cache)
    | some user => return (some user, Function.update cache id (some user))

/-- The quote of a reply; a message or an author no longer there is left out. -/
def quote (quoted : MessageId → Option ChatMessage) (cache : UserId → Option User)
    (message : ChatMessage) :
    Except ApplicationError (Option RepliedMessage × (UserId → Option User)) :=
  match message.replyTo.bind quoted with
  | none => .ok (none, cache)
  | some parent => do
    let (user, cache) ← author r cache parent.authorId
    return (user.map fun user => ⟨parent, user⟩, cache)

/-- Messages whose author has since been deleted are skipped. -/
def views (quoted : MessageId → Option ChatMessage) :
    (MessageId → Option (List ReactionTally)) → (UserId → Option User) → List ChatMessage →
      Except ApplicationError (List ChatMessageView)
  | _, _, [] => .ok []
  | reactions, cache, message :: messages => do
    match ← author r cache message.authorId with
    | (none, cache) => views quoted reactions cache messages
    | (some user, cache) =>
      let (replyTo, cache) ← quote r quoted cache message
      let rest ← views quoted (Function.update reactions message.id none) cache messages
      return ⟨message, user, replyTo, (reactions message.id).getD []⟩ :: rest

def execute (viewer : UserId) (channel : ChatChannel) (limit : Int) (window : HistoryWindow) :
    Except ApplicationError (List ChatMessageView) := do
  findRoom r channel
  let messages ← page r channel limit window
  let reactions ← orInternal (r.reactionsFor (messages.map ChatMessage.id) viewer)
  let quoted ← quotedMessages r messages
  views r quoted reactions (fun _ => none) messages

end ListRecentMessages

def InMemoryChatMessageRepository.reads (messages : List ChatMessage)
    (reactions : List ReactionKey) (markets : MarketId → Option Market)
    (users : UserId → Option User) : HistoryReads where
  findMarket := fun id => .ok (markets id)
  findById := fun id => .ok (messages.find? fun m => m.id = id)
  listRecent := fun channel limit cursor =>
    .ok (InMemoryChatMessageRepository.listRecent messages channel limit cursor)
  reactionsFor := fun ids viewer =>
    .ok (InMemoryChatMessageRepository.reactionsFor reactions ids viewer)
  findByIds := fun ids => .ok (messages.filter fun m => m.id ∈ ids)
  findUser := fun id => .ok (users id)

/-- Puts the page before the oldest message held in front of what is held, until a page is
empty; `none` when `fuel` requests were not enough. -/
def loadBack (page : HistoryWindow → Except ApplicationError (List ChatMessage)) :
    Nat → List ChatMessage → Option (Except ApplicationError (List ChatMessage))
  | 0, _ => none
  | fuel + 1, held =>
    match page ⟨held.head?.map ChatMessage.id, none⟩ with
    | .error e => some (.error e)
    | .ok [] => some (.ok held)
    | .ok messages => loadBack page fuel (messages ++ held)

/-- Puts the page after the newest message held behind what is held. -/
def loadForward (page : HistoryWindow → Except ApplicationError (List ChatMessage)) :
    Nat → List ChatMessage → Option (Except ApplicationError (List ChatMessage))
  | 0, _ => none
  | fuel + 1, held =>
    match page ⟨none, held.getLast?.map ChatMessage.id⟩ with
    | .error e => some (.error e)
    | .ok [] => some (.ok held)
    | .ok messages => loadForward page fuel (held ++ messages)

section Pages
variable {messages : List ChatMessage} {channel : ChatChannel} {limit : Int} {m : ChatMessage}

theorem memory_after_stored (h : (messages.map ChatMessage.id).Nodup)
    (hm : m ∈ roomOf channel messages) :
    InMemoryChatMessageRepository.listRecent messages channel limit (some (.after (.of m))) =
      (Keyset.newer ChatMessage.key m.key (roomOf channel messages)).take limit.toNat := by
  rw [memory_after h]
  rcases behind_cases channel (.of m) h with ⟨own, hkey, hbehind⟩ | hbehind
  · have hid : own.id = (MessageAnchor.of m).id := ChatMessage.key_id hkey
    simp only [hbehind, List.head?_cons, Option.any_some, hid, decide_true, if_true, List.drop_one,
      List.tail_cons]
    rfl
  · -- The anchor's own message is in the room.
    have hmem : m ∈ (roomOf channel messages).filter fun q => (MessageAnchor.of m).key ≤ q.key :=
      List.mem_filter.mpr ⟨hm, by simp [ChatMessage.key]⟩
    rw [hbehind] at hmem
    have hlt := (List.mem_filter.mp hmem).2
    simp [ChatMessage.key] at hlt

theorem anchorOf_stored {r : HistoryReads} (hfind : r.findById m.id = .ok (some m))
    (hchannel : m.channel = channel) :
    ListRecentMessages.anchorOf r channel m.id = .ok (.of m) := by
  have hread : orInternal (r.findById m.id) = .ok (some m) := by
    rw [hfind]
    rfl
  simp only [ListRecentMessages.anchorOf, hread]
  simp [bind, Except.bind, Option.filter, hchannel]

theorem find_stored (h : (messages.map ChatMessage.id).Nodup) (hm : m ∈ messages) :
    messages.find? (fun q => q.id = m.id) = some m := by
  cases hq : messages.find? fun q => q.id = m.id with
  | none => exact absurd (by simp) (List.find?_eq_none.mp hq m hm)
  | some q =>
    have hid : q.id = m.id := by simpa using List.find?_some hq
    rw [List.inj_on_of_nodup_map h (List.mem_of_find?_eq_some hq) hm hid]

end Pages

section Views
variable {r : HistoryReads} {messages : List ChatMessage}

theorem bind_ok {ε α β : Type} {x : Except ε α} {f : α → Except ε β} {b : β}
    (h : x >>= f = .ok b) : ∃ a, x = .ok a ∧ f a = .ok b := by
  cases x with
  | error e => simp [bind, Except.bind] at h
  | ok a => exact ⟨a, rfl, h⟩

theorem orInternal_ok {α : Type} {answer : Except RepositoryError α} {a : α}
    (h : orInternal answer = .ok a) : answer = .ok a := by
  cases answer with
  | error e => simp [orInternal, Except.mapError] at h
  | ok b =>
    simp only [orInternal, Except.mapError, Except.ok.injEq] at h
    rw [h]

namespace ListRecentMessages

theorem quote_of {quoted : MessageId → Option ChatMessage} {cache cache' : UserId → Option User}
    {message : ChatMessage} {replyTo : Option RepliedMessage}
    (h : quote r quoted cache message = .ok (replyTo, cache')) :
    ∀ q, replyTo = some q → message.replyTo.bind quoted = some q.message := by
  intro q hq
  unfold quote at h
  split at h
  · cases h
    cases hq
  · rename_i parent hparent
    obtain ⟨⟨user, cache₁⟩, -, h⟩ := bind_ok h
    cases h
    obtain ⟨user, -, rfl⟩ := Option.map_eq_some_iff.mp hq
    exact hparent

theorem views_of {quoted : MessageId → Option ChatMessage}
    {reactions : MessageId → Option (List ReactionTally)} {cache : UserId → Option User}
    {vs : List ChatMessageView} (h : views r quoted reactions cache messages = .ok vs) :
    ∀ v ∈ vs, v.message ∈ messages ∧
      ∀ q, v.replyTo = some q → v.message.replyTo.bind quoted = some q.message := by
  induction messages generalizing reactions cache vs with
  | nil =>
    cases h
    simp
  | cons message messages ih =>
    obtain ⟨⟨user, cache'⟩, -, h⟩ := bind_ok h
    cases user with
    | none =>
      intro v hv
      obtain ⟨hmem, hquote⟩ := ih h v hv
      exact ⟨List.mem_cons_of_mem message hmem, hquote⟩
    | some user =>
      obtain ⟨⟨replyTo, cache''⟩, hquote, h⟩ := bind_ok h
      obtain ⟨rest, hrest, h⟩ := bind_ok h
      cases h
      intro v hv
      rcases List.mem_cons.mp hv with rfl | hv
      · exact ⟨List.mem_cons_self, quote_of hquote⟩
      · obtain ⟨hmem, hq⟩ := ih hrest v hv
        exact ⟨List.mem_cons_of_mem message hmem, hq⟩

theorem found_of {l : List ChatMessage} {found : MessageId → Option ChatMessage} {id : MessageId}
    {m : ChatMessage} (h : l.foldl (fun (f : MessageId → Option ChatMessage) q =>
      Function.update f q.id (some q)) found id = some m) :
    found id = some m ∨ (m ∈ l ∧ m.id = id) := by
  induction l generalizing found with
  | nil => exact .inl h
  | cons q l ih =>
    rcases ih h with hfound | ⟨hmem, hid⟩
    · change Function.update found q.id (some q) id = some m at hfound
      by_cases hq : id = q.id
      · subst hq
        rw [Function.update_self] at hfound
        cases hfound
        exact .inr ⟨List.mem_cons_self, rfl⟩
      · rw [Function.update_of_ne hq] at hfound
        exact .inl hfound
    · exact .inr ⟨List.mem_cons_of_mem q hmem, hid⟩

theorem quoted_of {quoted : MessageId → Option ChatMessage}
    (h : quotedMessages r messages = .ok quoted) : ∃ ids found, r.findByIds ids = .ok found ∧
      ∀ id m, quoted id = some m → m ∈ found ∧ m.id = id := by
  obtain ⟨found, hfound, h⟩ := bind_ok h
  cases h
  refine ⟨_, found, orInternal_ok hfound, fun id m hm => ?_⟩
  rcases found_of hm with hnone | hmem
  · cases hnone
  · exact hmem

theorem page_of {channel : ChatChannel} {limit : Int} {window : HistoryWindow}
    (h : page r channel limit window = .ok messages) :
    ∃ cursor, r.listRecent channel limit cursor = .ok messages := by
  obtain ⟨cursor, -, h⟩ := bind_ok h
  exact ⟨cursor, orInternal_ok h⟩

theorem execute_of {viewer : UserId} {channel : ChatChannel} {limit : Int}
    {window : HistoryWindow} {vs : List ChatMessageView}
    (h : execute r viewer channel limit window = .ok vs) :
    ∃ messages cursor ids found, r.listRecent channel limit cursor = .ok messages ∧
      r.findByIds ids = .ok found ∧ ∀ v ∈ vs, v.message ∈ messages ∧
        ∀ q, v.replyTo = some q → v.message.replyTo = some q.message.id ∧ q.message ∈ found := by
  obtain ⟨-, -, h⟩ := bind_ok h
  obtain ⟨messages, hpage, h⟩ := bind_ok h
  obtain ⟨reactions, -, h⟩ := bind_ok h
  obtain ⟨quoted, hquoted, h⟩ := bind_ok h
  obtain ⟨cursor, hcursor⟩ := page_of hpage
  obtain ⟨ids, found, hfound, hmem⟩ := quoted_of hquoted
  refine ⟨messages, cursor, ids, found, hcursor, hfound, fun v hv => ?_⟩
  obtain ⟨hv, hq⟩ := views_of h v hv
  refine ⟨hv, fun q hreply => ?_⟩
  obtain ⟨id, hid, hload⟩ := Option.bind_eq_some_iff.mp (hq q hreply)
  obtain ⟨hin, heq⟩ := hmem id q.message hload
  exact ⟨by rw [hid, heq], hin⟩

theorem author_found {cache cache' : UserId → Option User} {id : UserId} {user : Option User}
    (hfound : r.findUser id ≠ .ok none) (h : author r cache id = .ok (user, cache')) :
    user.isSome = true := by
  unfold author at h
  split at h
  · cases h
    rfl
  · obtain ⟨found, hread, h⟩ := bind_ok h
    cases found with
    | none => exact absurd (orInternal_ok hread) hfound
    | some user =>
      cases h
      rfl

theorem views_cover {quoted : MessageId → Option ChatMessage}
    {reactions : MessageId → Option (List ReactionTally)} {cache : UserId → Option User}
    {vs : List ChatMessageView} (hfound : ∀ m ∈ messages, r.findUser m.authorId ≠ .ok none)
    (h : views r quoted reactions cache messages = .ok vs) :
    ∀ m ∈ messages, ∃ v ∈ vs, v.message = m := by
  induction messages generalizing reactions cache vs with
  | nil => exact fun m hm => absurd hm List.not_mem_nil
  | cons message messages ih =>
    obtain ⟨⟨user, cache'⟩, hauthor, h⟩ := bind_ok h
    have hsome := author_found (hfound message List.mem_cons_self) hauthor
    cases user with
    | none => cases hsome
    | some user =>
      obtain ⟨⟨replyTo, cache''⟩, -, h⟩ := bind_ok h
      obtain ⟨rest, hrest, h⟩ := bind_ok h
      cases h
      intro m hm
      rcases List.mem_cons.mp hm with rfl | hm
      · exact ⟨_, List.mem_cons_self, rfl⟩
      · obtain ⟨v, hv, hmessage⟩ :=
          ih (fun m hm => hfound m (List.mem_cons_of_mem message hm)) hrest m hm
        exact ⟨v, List.mem_cons_of_mem _ hv, hmessage⟩

theorem execute_covers {viewer : UserId} {channel : ChatChannel} {limit : Int}
    {vs : List ChatMessageView} (h : execute r viewer channel limit ⟨none, none⟩ = .ok vs) :
    ∃ messages, r.listRecent channel limit none = .ok messages ∧
      ((∀ m ∈ messages, r.findUser m.authorId ≠ .ok none) →
        ∀ m ∈ messages, ∃ v ∈ vs, v.message = m) := by
  obtain ⟨-, -, h⟩ := bind_ok h
  obtain ⟨messages, hpage, h⟩ := bind_ok h
  obtain ⟨reactions, -, h⟩ := bind_ok h
  obtain ⟨quoted, -, h⟩ := bind_ok h
  obtain ⟨cursor, hcursor, hpage⟩ := bind_ok hpage
  cases hcursor
  exact ⟨messages, orInternal_ok hpage, fun hfound => views_cover hfound h⟩

end ListRecentMessages

end Views

/-- The pages of a room: next to a message of it, the `n` nearest ones on the side asked for. -/
structure PagesOf (page : HistoryWindow → Except ApplicationError (List ChatMessage))
    (room : List ChatMessage) (n : Nat) : Prop where
  newest : page ⟨none, none⟩ = .ok (Keyset.newest n room)
  before : ∀ pre m post, room = pre ++ m :: post →
    page ⟨some m.id, none⟩ = .ok (Keyset.newest n pre)
  after : ∀ pre m post, room = pre ++ m :: post → page ⟨none, some m.id⟩ = .ok (post.take n)

namespace PagesOf
variable {page : HistoryWindow → Except ApplicationError (List ChatMessage)}
  {room pre post held : List ChatMessage} {m : ChatMessage} {n fuel : Nat}

theorem before_held (h : PagesOf page room n) (hroom : room = pre ++ held) :
    page ⟨held.head?.map ChatMessage.id, none⟩ = .ok (Keyset.newest n pre) := by
  cases held with
  | nil =>
    rw [List.append_nil] at hroom
    rw [← hroom]
    exact h.newest
  | cons m held => exact h.before pre m held hroom

theorem loadBack_room (h : PagesOf page room n) (hn : 1 ≤ n) (hroom : room = pre ++ held)
    (hfuel : pre.length < fuel) : loadBack page fuel held = some (.ok room) := by
  induction fuel generalizing pre held with
  | zero => omega
  | succ fuel ih =>
    rw [loadBack, h.before_held hroom]
    cases hpage : Keyset.newest n pre with
    | nil =>
      have hnone : pre = [] := by
        have hlen := congrArg List.length hpage
        simp only [Keyset.newest, List.length_drop, List.length_nil] at hlen
        rw [← List.length_eq_zero_iff]
        omega
      rw [hroom, hnone, List.nil_append]
    | cons m page =>
      have hsplit : pre = pre.take (pre.length - n) ++ m :: page := by
        rw [← hpage, Keyset.newest, List.take_append_drop]
      have hlen := congrArg List.length hpage
      simp only [Keyset.newest, List.length_drop, List.length_cons] at hlen
      have hroom' : room = pre.take (pre.length - n) ++ (m :: page ++ held) := by
        rw [hroom, ← List.append_assoc, ← hsplit]
      have hfuel' : (pre.take (pre.length - n)).length < fuel := by
        rw [List.length_take]
        omega
      exact ih hroom' hfuel'

/-- From a message of the room on, everything behind it is received. -/
theorem loadForward_room (h : PagesOf page room n) (hn : 1 ≤ n) (hroom : room = pre ++ m :: post)
    (hfuel : post.length < fuel) (received : List ChatMessage) :
    loadForward page fuel (received ++ [m]) = some (.ok (received ++ m :: post)) := by
  induction fuel generalizing pre m post received with
  | zero => omega
  | succ fuel ih =>
    have hlast : (received ++ [m]).getLast?.map ChatMessage.id = some m.id := by simp
    rw [loadForward, hlast, h.after pre m post hroom]
    rcases List.eq_nil_or_concat (post.take n) with hpage | ⟨front, last, hpage⟩
    · have hnone : post = [] := by
        rcases List.take_eq_nil_iff.mp hpage with hzero | hnil
        · omega
        · exact hnil
      rw [hpage, hnone]
    · have hsplit : post = front ++ last :: post.drop n := by
        conv_lhs => rw [← List.take_append_drop n post]
        simp [hpage]
      have hlen := congrArg List.length hsplit
      simp only [List.length_append, List.length_cons] at hlen
      have hroom' : room = (pre ++ m :: front) ++ last :: post.drop n := by
        simp [hroom, ← hsplit]
      have hmore := ih hroom' (by omega) (received ++ m :: front)
      have hend : (received ++ m :: front) ++ last :: post.drop n = received ++ m :: post := by
        simp [← hsplit]
      rw [hend] at hmore
      rw [hpage]
      cases hcons : front.concat last with
      | nil => simp at hcons
      | cons q qs =>
        have hheld : (received ++ [m]) ++ (q :: qs) = (received ++ m :: front) ++ [last] := by
          simp [← hcons]
        rw [← hheld] at hmore
        exact hmore

end PagesOf

theorem InMemoryChatMessageRepository.pagesOf {messages : List ChatMessage}
    (h : (messages.map ChatMessage.id).Nodup) (reactions : List ReactionKey)
    (markets : MarketId → Option Market) (users : UserId → Option User) (channel : ChatChannel)
    (limit : Int) : PagesOf (ListRecentMessages.page (reads messages reactions markets users)
      channel limit) (roomOf channel messages) limit.toNat := by
  have hanchor : ∀ m ∈ roomOf channel messages, ListRecentMessages.anchorOf
      (reads messages reactions markets users) channel m.id = .ok (.of m) := by
    intro m hm
    obtain ⟨hstored, hchannel⟩ := mem_roomOf.mp hm
    exact anchorOf_stored (congrArg Except.ok (find_stored h hstored)) hchannel
  have hrising := roomOf_rising channel h
  refine ⟨rfl, fun pre m post hroom => ?_, fun pre m post hroom => ?_⟩
  · have hm : m ∈ roomOf channel messages := by simp [hroom]
    have holder : Keyset.older ChatMessage.key m.key (roomOf channel messages) = pre := by
      rw [hroom] at hrising ⊢
      exact Keyset.older_split hrising
    have hlist : listRecent messages channel limit (some (.before (.of m))) =
        Keyset.newest limit.toNat pre := by
      rw [memory_before h, ← holder]
      rfl
    simp only [ListRecentMessages.page, ListRecentMessages.resolveCursor, hanchor m hm, ← hlist]
    rfl
  · have hm : m ∈ roomOf channel messages := by simp [hroom]
    have hnewer : Keyset.newer ChatMessage.key m.key (roomOf channel messages) = post := by
      rw [hroom] at hrising ⊢
      exact Keyset.newer_split hrising
    have hlist : listRecent messages channel limit (some (.after (.of m))) =
        post.take limit.toNat := by
      rw [memory_after_stored h hm, hnewer]
    simp only [ListRecentMessages.page, ListRecentMessages.resolveCursor, hanchor m hm, ← hlist]
    rfl

/-- A client that loads the newest page and then each page before what it holds ends with the
whole room, and so does one that starts from the oldest message and pages forwards. -/
theorem history_paged (messages : List ChatMessage) (reactions : List ReactionKey)
    (markets : MarketId → Option Market) (users : UserId → Option User)
    (h : (messages.map ChatMessage.id).Nodup) (channel : ChatChannel) (limit : Int)
    (hlimit : 1 ≤ limit) (fuel : Nat) (hfuel : (roomOf channel messages).length < fuel) :
    let page := ListRecentMessages.page
      (InMemoryChatMessageRepository.reads messages reactions markets users) channel limit
    loadBack page fuel [] = some (.ok (roomOf channel messages)) ∧
      ∀ oldest ∈ (roomOf channel messages).head?,
        loadForward page fuel [oldest] = some (.ok (roomOf channel messages)) := by
  have hpages := InMemoryChatMessageRepository.pagesOf h reactions markets users channel limit
  have hn : 1 ≤ limit.toNat := by omega
  refine ⟨hpages.loadBack_room hn (List.append_nil _).symm hfuel, ?_⟩
  intro oldest holdest
  obtain ⟨post, hroom⟩ := List.head?_eq_some_iff.mp holdest
  have hlen : post.length < fuel := by
    rw [hroom, List.length_cons] at hfuel
    omega
  have hroom' : roomOf channel messages = [] ++ oldest :: post := hroom
  have hall := hpages.loadForward_room hn hroom' hlen []
  rw [hroom]
  exact hall

open Sample in
theorem history_paged_tied :
    let page := ListRecentMessages.page (InMemoryChatMessageRepository.reads
      [said 3 5, said 1 5, said 2 5] [] (fun _ => none) fun _ => none) .global 2
    loadBack page 4 [] = some (.ok (roomOf .global [said 3 5, said 1 5, said 2 5])) ∧
      ∀ oldest ∈ (roomOf .global [said 3 5, said 1 5, said 2 5]).head?,
        loadForward page 4 [oldest] =
          some (.ok (roomOf .global [said 3 5, said 1 5, said 2 5])) :=
  history_paged _ [] (fun _ => none) (fun _ => none) (by decide) .global 2 (by decide) 4 (by decide)

end Betsphere
