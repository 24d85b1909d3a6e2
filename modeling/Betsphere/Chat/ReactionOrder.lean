import Betsphere.Chat.Tallies
import Betsphere.Lib.Keyset
set_option autoImplicit false

namespace Betsphere

namespace PgChatMessageRepository

/-- `INSERT .. ON CONFLICT DO NOTHING`; `now` is the time of the transaction. -/
def addReaction (reactions : Table Reaction.key) (r : ReactionKey) (now : DateTime) :
    Table Reaction.key × Bool :=
  if (reactions.find? r).isSome then (reactions, false) else (reactions.upsert ⟨r, now⟩, true)

def removeReaction (reactions : Table Reaction.key) (r : ReactionKey) :
    Table Reaction.key × Bool :=
  if (reactions.find? r).isSome then (reactions.filter fun q => q.key ≠ r, true)
  else (reactions, false)

def react (reactions : Table Reaction.key) (op : ReactionOp) (now : DateTime) :
    Table Reaction.key × Bool :=
  match op with
  | .add r => addReaction reactions r now
  | .remove r => removeReaction reactions r

/-- The table after some calls on an empty one, the `i`-th of them at `clock i`. -/
def reactionsAfter (clock : Nat → DateTime) (ops : List ReactionOp) : Table Reaction.key :=
  ops.zipIdx.foldl (fun reactions op => (react reactions op.1 (clock op.2)).1) .empty

structure ReactionTallyRow where
  messageId : MessageId
  emoji : ReactionEmoji
  count : Nat
  reacted : Bool

/-- `MIN(created_at)`; a group has a row. -/
def minCreatedAt : List Reaction → DateTime
  | [] => 0
  | r :: group => group.foldl (fun t q => min t q.createdAt) r.createdAt

def groupOf (rows : List Reaction) (k : MessageId × ReactionEmoji) : List Reaction :=
  rows.filter fun r => (r.key.messageId, r.key.emoji) = k

/-- `GROUP BY message_id, emoji ORDER BY message_id, MIN(created_at), emoji`, the texts in
the order of the database's collation. -/
def groupsOf {κ : Type} [LinearOrder κ] (collate : ReactionEmoji → κ) (rows : List Reaction) :
    List (MessageId × ReactionEmoji) :=
  Keyset.sort (fun k => (toLex (k.1.uuid.toNat,
    toLex (minCreatedAt (groupOf rows k), collate k.2)) :
    Nat ×ₗ Int ×ₗ κ)) (rows.map fun r => (r.key.messageId, r.key.emoji)).dedup

def tallyRows {κ : Type} [LinearOrder κ] (collate : ReactionEmoji → κ) (rows : List Reaction)
    (viewer : UserId) : List ReactionTallyRow :=
  (groupsOf collate rows).map fun k =>
    ⟨k.1, k.2, (groupOf rows k).length, (groupOf rows k).any fun r => r.key.userId = viewer⟩

def reactionsFor {κ : Type} [LinearOrder κ] (collate : ReactionEmoji → κ)
    (reactions : Table Reaction.key) (messageIds : List MessageId) (viewer : UserId) :
    MessageId → Option (List ReactionTally) :=
  if messageIds.isEmpty then fun _ => none
  else
    groupInto ReactionTallyRow.messageId
      (fun tallies row => tallies ++ [⟨row.emoji, row.count, row.reacted⟩])
      (tallyRows collate (reactions.rows.filter fun r => r.key.messageId ∈ messageIds) viewer)

end PgChatMessageRepository

/-- The removal of the reaction that an emoji's place on the message stands by, while a later
one with the emoji stays and another emoji came in between. -/
def ReactionOp.Unseats (reactions : List ReactionKey) : ReactionOp → Prop
  | .add _ => False
  | .remove r => ∃ pre post,
    reactions.filter (fun q => q.messageId = r.messageId) = pre ++ r :: post ∧
      FirstSeen.Unseats (pre.map ReactionKey.emoji) r.emoji (post.map ReactionKey.emoji)

/-- The emojis that `reactions_for` answers for a message before and after an operation are
in one order. -/
def KeepsOrder (before after : List MessageId → UserId → MessageId → Option (List ReactionTally)) :
    Prop :=
  ∀ messageIds viewer id tallies tallies', before messageIds viewer id = some tallies →
    after messageIds viewer id = some tallies' →
      FirstSeen.SameOrder (tallies.map ReactionTally.emoji) (tallies'.map ReactionTally.emoji)

def emojisOn (reactions : List ReactionKey) (id : MessageId) : List ReactionEmoji :=
  (reactions.filter fun r => r.messageId = id).map ReactionKey.emoji

/-- `reactions_for` answers with the emojis as they were first seen. -/
def FirstSeenFirst (reactions : List ReactionKey)
    (grouped : List MessageId → UserId → MessageId → Option (List ReactionTally)) : Prop :=
  ∀ messageIds viewer id,
    if id ∈ messageIds ∧ emojisOn reactions id ≠ [] then
      ∃ tallies, grouped messageIds viewer id = some tallies ∧
        FirstSeen.Alike (tallies.map ReactionTally.emoji) (emojisOn reactions id)
    else grouped messageIds viewer id = none

section Order
variable {reactions after : List ReactionKey} {op : ReactionOp} {r : ReactionKey}
  {grouped grouped' : List MessageId → UserId → MessageId → Option (List ReactionTally)}

theorem FirstSeenFirst.keepsOrder_iff (h : FirstSeenFirst reactions grouped)
    (h' : FirstSeenFirst after grouped') : KeepsOrder grouped grouped' ↔
      ∀ id, FirstSeen.SameOrder (emojisOn reactions id) (emojisOn after id) := by
  constructor
  · intro hkeep id
    by_cases hempty : emojisOn reactions id = []
    · intro a ha
      rw [hempty] at ha
      exact absurd ha List.not_mem_nil
    by_cases hempty' : emojisOn after id = []
    · intro a _ b _ ha
      rw [hempty'] at ha
      exact absurd ha List.not_mem_nil
    have hb := h [id] ⟨0⟩ id
    have ha := h' [id] ⟨0⟩ id
    rw [if_pos ⟨List.mem_singleton_self id, hempty⟩] at hb
    rw [if_pos ⟨List.mem_singleton_self id, hempty'⟩] at ha
    obtain ⟨tallies, htallies, halike⟩ := hb
    obtain ⟨tallies', htallies', halike'⟩ := ha
    exact (FirstSeen.SameOrder.congr halike halike').mp
      (hkeep _ _ _ _ _ htallies htallies')
  · intro hsame messageIds viewer id tallies tallies' hb ha
    have hbefore := h messageIds viewer id
    have hafter := h' messageIds viewer id
    split at hbefore
    · split at hafter
      · obtain ⟨ts, hts, halike⟩ := hbefore
        obtain ⟨ts', hts', halike'⟩ := hafter
        cases hb.symm.trans hts
        cases ha.symm.trans hts'
        exact (FirstSeen.SameOrder.congr halike halike').mpr (hsame id)
      · cases ha.symm.trans hafter
    · cases hb.symm.trans hbefore

theorem emojisOn_ne {id : MessageId} (h : r.messageId ≠ id) :
    emojisOn (reactions.filter fun q => q ≠ r) id = emojisOn reactions id := by
  have hsame : (reactions.filter fun q => q ≠ r).filter (fun q => q.messageId = id) =
      reactions.filter fun q => q.messageId = id := by
    rw [List.filter_filter]
    refine List.filter_congr fun q _ => ?_
    by_cases hq : q.messageId = id
    · have hqr : q ≠ r := by
        rintro rfl
        exact h hq
      simp [hq, hqr]
    · simp [hq]
  rw [emojisOn, hsame, emojisOn]

theorem emojisOn_removed {pre post : List ReactionKey} (hnodup : reactions.Nodup)
    (h : reactions.filter (fun q => q.messageId = r.messageId) = pre ++ r :: post) :
    emojisOn (reactions.filter fun q => q ≠ r) r.messageId =
      pre.map ReactionKey.emoji ++ post.map ReactionKey.emoji := by
  have hrow : (pre ++ r :: post).Nodup := h ▸ hnodup.filter _
  obtain ⟨-, hpost, hdisj⟩ := List.nodup_append.mp hrow
  have hpre : pre.filter (fun q => q ≠ r) = pre := by
    rw [List.filter_eq_self]
    intro q hq
    simpa using hdisj q hq r List.mem_cons_self
  have hpost' : post.filter (fun q => q ≠ r) = post := by
    rw [List.filter_eq_self]
    intro q hq
    have hne : q ≠ r := by
      rintro rfl
      exact (List.nodup_cons.mp hpost).1 hq
    simpa using hne
  have hrest : (reactions.filter fun q => q ≠ r).filter (fun q => q.messageId = r.messageId) =
      pre ++ post := by
    rw [List.filter_comm, h, List.filter_append, List.filter_cons, hpre, hpost']
    simp
  rw [emojisOn, hrest, List.map_append]

open InMemoryChatMessageRepository in
/-- One operation keeps every message's order exactly if it does not unseat an emoji. -/
theorem sameOrder_react (hnodup : reactions.Nodup) :
    (∀ id, FirstSeen.SameOrder (emojisOn reactions id) (emojisOn (react reactions op).1 id)) ↔
      ¬op.Unseats reactions := by
  cases op with
  | add r =>
    refine iff_of_true (fun id => ?_) not_false
    by_cases hr : r ∈ reactions
    · rw [react, addReaction_held hr]
      exact FirstSeen.SameOrder.rfl
    · rw [react, addReaction_new hr]
      by_cases hid : r.messageId = id
      · have hsnoc : emojisOn (reactions ++ [r]) id = emojisOn reactions id ++ [r.emoji] := by
          simp [emojisOn, hid]
        rw [hsnoc]
        exact FirstSeen.sameOrder_concat _ _
      · have hsame : emojisOn (reactions ++ [r]) id = emojisOn reactions id := by
          simp [emojisOn, hid]
        rw [hsame]
        exact FirstSeen.SameOrder.rfl
  | remove r =>
    have hkept : (react reactions (.remove r)).1 = reactions.filter fun q => q ≠ r := rfl
    have hrow : ∀ pre post,
        reactions.filter (fun q => q.messageId = r.messageId) = pre ++ r :: post →
        (FirstSeen.SameOrder (emojisOn reactions r.messageId)
          (emojisOn (reactions.filter fun q => q ≠ r) r.messageId) ↔
          ¬FirstSeen.Unseats (pre.map ReactionKey.emoji) r.emoji
            (post.map ReactionKey.emoji)) := by
      intro pre post h
      rw [emojisOn_removed hnodup h, emojisOn, h, List.map_append, List.map_cons]
      exact FirstSeen.sameOrder_removed _ _ _
    rw [hkept]
    constructor
    · rintro hsame ⟨pre, post, h, hunseats⟩
      exact (hrow pre post h).mp (hsame r.messageId) hunseats
    · intro hkeep id
      by_cases hid : r.messageId = id
      · subst hid
        by_cases hr : r ∈ reactions
        · have hmem : r ∈ reactions.filter fun q => q.messageId = r.messageId := by
            simp [hr]
          obtain ⟨pre, post, h⟩ := List.append_of_mem hmem
          exact (hrow pre post h).mpr fun hunseats => hkeep ⟨pre, post, h, hunseats⟩
        · have habsent := congrArg Prod.fst (removeReaction_absent hr)
          have hall : reactions.filter (fun q => q ≠ r) = reactions := habsent
          rw [hall]
          exact FirstSeen.SameOrder.rfl
      · rw [emojisOn_ne hid]
        exact FirstSeen.SameOrder.rfl

end Order

theorem InMemoryChatMessageRepository.firstSeenFirst (reactions : List ReactionKey) :
    FirstSeenFirst reactions (reactionsFor reactions) := by
  intro messageIds viewer id
  have hempty : emojisOn reactions id ≠ [] ↔
      reactions.filter (fun r => r.messageId = id) ≠ [] := by
    rw [emojisOn, ne_eq, List.map_eq_nil_iff]
  have heq := reactionsFor_eq reactions messageIds viewer id
  split
  · rename_i h
    rw [hempty] at h
    refine ⟨_, heq.trans (if_pos h), ?_⟩
    rw [map_standing]
    exact FirstSeen.alike_eraseDups _
  · rename_i h
    rw [hempty] at h
    exact heq.trans (if_neg h)

namespace PgChatMessageRepository

theorem foldl_min_le (group : List Reaction) (t : DateTime) :
    let least := group.foldl (fun t q => min t q.createdAt) t
    least ≤ t ∧ (∀ q ∈ group, least ≤ q.createdAt) ∧
      (least = t ∨ ∃ q ∈ group, q.createdAt = least) := by
  induction group generalizing t with
  | nil => exact ⟨le_refl t, by simp, .inl rfl⟩
  | cons r group ih =>
    obtain ⟨hle, hall, hfrom⟩ := ih (min t r.createdAt)
    refine ⟨hle.trans (min_le_left _ _), fun q hq => ?_, ?_⟩
    · rcases List.mem_cons.mp hq with rfl | hq
      · exact hle.trans (min_le_right _ _)
      · exact hall q hq
    · rcases hfrom with heq | ⟨q, hq, heq⟩
      · rcases min_choice t r.createdAt with hmin | hmin
        · exact .inl (heq.trans hmin)
        · exact .inr ⟨r, List.mem_cons_self, (heq.trans hmin).symm⟩
      · exact .inr ⟨q, List.mem_cons_of_mem r hq, heq⟩

theorem isLeast_minCreatedAt {group : List Reaction} (h : group ≠ []) :
    IsLeast {t | ∃ q ∈ group, q.createdAt = t} (minCreatedAt group) := by
  cases group with
  | nil => exact absurd rfl h
  | cons r group =>
    obtain ⟨hle, hall, hfrom⟩ := foldl_min_le group r.createdAt
    constructor
    · rcases hfrom with heq | ⟨q, hq, heq⟩
      · exact ⟨r, List.mem_cons_self, heq.symm⟩
      · exact ⟨q, List.mem_cons_of_mem r hq, heq⟩
    · rintro t ⟨q, hq, rfl⟩
      rcases List.mem_cons.mp hq with rfl | hq
      · exact hle
      · exact hall q hq

section Query
variable {κ : Type} [LinearOrder κ] {collate : ReactionEmoji → κ} {rows : List Reaction}
  {id : MessageId} {e e' : ReactionEmoji}

def emojisIn (rows : List Reaction) (id : MessageId) : List ReactionEmoji :=
  (rows.filter fun r => r.key.messageId = id).map fun r => r.key.emoji

theorem mem_emojisIn : e ∈ emojisIn rows id ↔
    ∃ r ∈ rows, r.key.messageId = id ∧ r.key.emoji = e := by
  simp [emojisIn, and_assoc]

theorem isLeast_groupOf (he : e ∈ emojisIn rows id) :
    IsLeast {t | ∃ r ∈ rows.filter (fun r => r.key.messageId = id),
      r.key.emoji = e ∧ r.createdAt = t} (minCreatedAt (groupOf rows (id, e))) := by
  obtain ⟨r, hr, hid, hre⟩ := mem_emojisIn.mp he
  have hmem : r ∈ groupOf rows (id, e) := by
    simp [groupOf, hr, hid, hre]
  have hset : {t | ∃ q ∈ groupOf rows (id, e), q.createdAt = t} =
      {t | ∃ r ∈ rows.filter (fun r => r.key.messageId = id),
        r.key.emoji = e ∧ r.createdAt = t} := by
    ext t
    simp [groupOf, and_assoc]
  rw [← hset]
  exact isLeast_minCreatedAt (List.ne_nil_of_mem hmem)

/-- Where the times of the rows rise, emojis stand by their least times as they were seen. -/
theorem minCreatedAt_lt (hrise : rows.Pairwise fun r q => r.createdAt < q.createdAt)
    (he : e ∈ emojisIn rows id) (he' : e' ∈ emojisIn rows id) :
    (emojisIn rows id).idxOf e < (emojisIn rows id).idxOf e' ↔
      minCreatedAt (groupOf rows (id, e)) < minCreatedAt (groupOf rows (id, e')) :=
  FirstSeen.idxOf_earliest (hrise.filter _) (isLeast_groupOf he) (isLeast_groupOf he')

theorem minCreatedAt_ne (hrise : rows.Pairwise fun r q => r.createdAt < q.createdAt)
    (he : e ∈ emojisIn rows id) (he' : e' ∈ emojisIn rows id) (hne : e ≠ e') :
    minCreatedAt (groupOf rows (id, e)) ≠ minCreatedAt (groupOf rows (id, e')) := by
  intro heq
  have hidx : (emojisIn rows id).idxOf e ≠ (emojisIn rows id).idxOf e' :=
    fun h => hne ((List.idxOf_inj he).mp h)
  rcases Nat.lt_or_gt_of_ne hidx with h | h
  · exact absurd heq ((minCreatedAt_lt hrise he he').mp h).ne
  · exact absurd heq.symm ((minCreatedAt_lt hrise he' he).mp h).ne

theorem mem_groupsOf {k : MessageId × ReactionEmoji} :
    k ∈ groupsOf collate rows ↔ k.2 ∈ emojisIn rows k.1 := by
  obtain ⟨id, e⟩ := k
  rw [groupsOf, Keyset.mem_sort, List.mem_dedup, mem_emojisIn]
  simp

theorem pairwise_groupsOf (hrise : rows.Pairwise fun r q => r.createdAt < q.createdAt)
    (id : MessageId) : ((groupsOf collate rows).filter fun k => k.1 = id).Pairwise fun a b =>
      minCreatedAt (groupOf rows (id, a.2)) < minCreatedAt (groupOf rows (id, b.2)) := by
  have hsorted : (groupsOf collate rows).Pairwise fun a b =>
      (toLex (a.1.uuid.toNat, toLex (minCreatedAt (groupOf rows a), collate a.2)) :
        Nat ×ₗ Int ×ₗ κ) ≤
      toLex (b.1.uuid.toNat, toLex (minCreatedAt (groupOf rows b), collate b.2)) :=
    List.pairwise_insertionSort _ _
  have hnodup : (groupsOf collate rows).Nodup :=
    (Keyset.sort_perm _).nodup_iff.mpr (List.nodup_dedup _)
  have hboth := (hsorted.and hnodup).filter fun k => k.1 = id
  refine hboth.imp_of_mem ?_
  rintro ⟨ia, ea⟩ ⟨ib, eb⟩ ha hb ⟨hle, hne⟩
  obtain ⟨hga, hia⟩ := List.mem_filter.mp ha
  obtain ⟨hgb, hib⟩ := List.mem_filter.mp hb
  simp only [decide_eq_true_eq] at hia hib
  rw [hia] at hga hle hne
  rw [hib] at hgb hle hne
  have hmin : minCreatedAt (groupOf rows (id, ea)) ≤ minCreatedAt (groupOf rows (id, eb)) := by
    simp only [Prod.Lex.toLex_le_toLex, lt_self_iff_false, false_or, true_and] at hle
    rcases hle with hlt | ⟨heq, -⟩
    · exact hlt.le
    · exact heq.le
  refine lt_of_le_of_ne hmin (minCreatedAt_ne hrise (mem_groupsOf.mp hga) (mem_groupsOf.mp hgb) ?_)
  rintro rfl
  exact hne rfl

theorem foldl_push {β γ : Type} (g : β → γ) (l : List β) (acc : List γ) :
    l.foldl (fun tallies b => tallies ++ [g b]) acc = acc ++ l.map g := by
  induction l generalizing acc with
  | nil => simp
  | cons b l ih => simp [ih]

theorem reactionsFor_eq (reactions : Table Reaction.key) (messageIds : List MessageId)
    (viewer : UserId) (id : MessageId) :
    let rows := reactions.rows.filter fun r => r.key.messageId ∈ messageIds
    let groups := (groupsOf collate rows).filter fun k => k.1 = id
    reactionsFor collate reactions messageIds viewer id =
      if groups = [] then none
      else some (groups.map fun k =>
        ⟨k.2, (groupOf rows k).length, (groupOf rows k).any fun r => r.key.userId = viewer⟩) := by
  intro rows groups
  have hfilter : (tallyRows collate rows viewer).filter (fun row => row.messageId = id) =
      groups.map fun k => ⟨k.1, k.2, (groupOf rows k).length,
        (groupOf rows k).any fun r => r.key.userId = viewer⟩ := List.filter_map
  rw [reactionsFor]
  split
  · rename_i hempty
    have hrows : rows = [] := by
      rw [List.isEmpty_iff] at hempty
      simp [rows, hempty]
    have hgroups : groups = [] := by
      simp [groups, hrows, groupsOf, Keyset.sort]
    exact (if_pos hgroups).symm
  · rw [groupInto_eq, hfilter, foldl_push, List.nil_append, List.map_map]
    simp only [List.map_eq_nil_iff]
    rfl

theorem firstSeenFirst {reactions : Table Reaction.key}
    (hrise : reactions.rows.Pairwise fun r q => r.createdAt < q.createdAt) :
    FirstSeenFirst (reactions.rows.map Reaction.key) (reactionsFor collate reactions) := by
  intro messageIds viewer id
  have hon : emojisOn (reactions.rows.map Reaction.key) id = emojisIn reactions.rows id := by
    rw [emojisOn, emojisIn, List.filter_map, List.map_map]
    rfl
  have hin : emojisIn (reactions.rows.filter fun r => r.key.messageId ∈ messageIds) id =
      if id ∈ messageIds then emojisIn reactions.rows id else [] := by
    rw [emojisIn, List.filter_filter]
    split
    · rename_i hid
      rw [emojisIn]
      refine congrArg _ (List.filter_congr fun r _ => ?_)
      by_cases hr : r.key.messageId = id
      · simp [hr, hid]
      · simp [hr]
    · rename_i hid
      rw [List.map_eq_nil_iff, List.filter_eq_nil_iff]
      intro r _ hr
      simp only [Bool.and_eq_true, decide_eq_true_eq] at hr
      exact hid (hr.1 ▸ hr.2)
  rw [hon, reactionsFor_eq]
  have hrise' := hrise.filter fun r => decide (r.key.messageId ∈ messageIds)
  generalize reactions.rows.filter (fun r => decide (r.key.messageId ∈ messageIds)) = rows at *
  have hmem : ∀ e, e ∈ ((groupsOf collate rows).filter fun k => k.1 = id).map Prod.snd ↔
      e ∈ emojisIn rows id := by
    intro e
    simp [mem_groupsOf]
  have hsorted : (((groupsOf collate rows).filter fun k => k.1 = id).map Prod.snd).Pairwise
      fun e e' => minCreatedAt (groupOf rows (id, e)) < minCreatedAt (groupOf rows (id, e')) :=
    List.pairwise_map.mpr (pairwise_groupsOf hrise' id)
  split
  · rename_i h
    rw [if_pos h.1] at hin
    have hgroups : (groupsOf collate rows).filter (fun k => k.1 = id) ≠ [] := by
      intro hempty
      obtain ⟨e, he⟩ := List.exists_mem_of_ne_nil _ h.2
      have hin' := (hmem e).mpr (hin ▸ he)
      rw [hempty] at hin'
      exact absurd hin' List.not_mem_nil
    refine ⟨_, if_neg hgroups, ?_⟩
    rw [List.map_map]
    refine ⟨fun e => (hmem e).trans (by rw [hin]), fun e he e' he' heon heon' => ?_⟩
    rw [← hin] at heon heon' ⊢
    rw [minCreatedAt_lt hrise' heon heon']
    exact FirstSeen.idxOf_sorted hsorted he he'
  · rename_i h
    refine if_pos ?_
    rw [List.filter_eq_nil_iff]
    rintro k hk hid
    simp only [decide_eq_true_eq] at hid
    have he := mem_groupsOf.mp hk
    rw [hid, hin] at he
    split at he
    · rename_i hids
      exact h ⟨hids, List.ne_nil_of_mem he⟩
    · exact absurd he List.not_mem_nil

end Query

section Runs
variable {reactions : Table Reaction.key} {clock : Nat → DateTime} {r : ReactionKey}

theorem find?_isSome : (reactions.find? r).isSome ↔ r ∈ reactions.rows.map Reaction.key := by
  rw [Table.mem_keys_iff, Option.isSome_iff_exists]

theorem reactionsAfter_concat (clock : Nat → DateTime) (ops : List ReactionOp) (op : ReactionOp) :
    reactionsAfter clock (ops ++ [op]) =
      (react (reactionsAfter clock ops) op (clock ops.length)).1 := by
  simp [reactionsAfter, List.zipIdx_append]

open InMemoryChatMessageRepository in
theorem react_keys (op : ReactionOp) (now : DateTime) :
    (react reactions op now).1.rows.map Reaction.key =
      (InMemoryChatMessageRepository.react (reactions.rows.map Reaction.key) op).1 := by
  cases op with
  | add r =>
    by_cases hr : r ∈ reactions.rows.map Reaction.key
    · rw [react, addReaction, if_pos (find?_isSome.mpr hr),
        InMemoryChatMessageRepository.react, addReaction_held hr]
    · have hnone : reactions.find? r = none := by
        rw [← Option.not_isSome_iff_eq_none]
        exact fun h => hr (find?_isSome.mp h)
      rw [react, addReaction, hnone, InMemoryChatMessageRepository.react, addReaction_new hr]
      simp [Table.rows_upsert_fresh (show reactions.find? (Reaction.key ⟨r, now⟩) = none from hnone)]
  | remove r =>
    by_cases hr : r ∈ reactions.rows.map Reaction.key
    · rw [react, removeReaction, if_pos (find?_isSome.mpr hr),
        InMemoryChatMessageRepository.react, removeReaction_held hr, Table.rows_filter,
        List.filter_map]
      rfl
    · rw [react, removeReaction, if_neg fun h => hr (find?_isSome.mp h),
        InMemoryChatMessageRepository.react, removeReaction_absent hr]

theorem react_rows (op : ReactionOp) (now : DateTime) :
    ((react reactions op now).1.rows.Sublist reactions.rows) ∨
      ∃ r, (react reactions op now).1.rows = reactions.rows ++ [⟨r, now⟩] := by
  cases op with
  | add r =>
    rw [react, addReaction]
    cases hr : reactions.find? r with
    | some row => exact .inl (List.Sublist.refl _)
    | none => exact .inr ⟨r, Table.rows_upsert_fresh hr⟩
  | remove r =>
    rw [react, removeReaction]
    split
    · exact .inl List.filter_sublist
    · exact .inl (List.Sublist.refl _)

theorem reactionsAfter_alike (hclock : StrictMono clock) (ops : List ReactionOp) :
    (reactionsAfter clock ops).rows.map Reaction.key =
        InMemoryChatMessageRepository.reactionsAfter ops ∧
      (reactionsAfter clock ops).rows.Pairwise (fun r q => r.createdAt < q.createdAt) ∧
      ∀ r ∈ (reactionsAfter clock ops).rows, r.createdAt < clock ops.length := by
  induction ops using List.reverseRecOn with
  | nil => exact ⟨rfl, List.Pairwise.nil, by simp [reactionsAfter]⟩
  | append_singleton ops op ih =>
    obtain ⟨hkeys, hrise, hpast⟩ := ih
    have htick : clock ops.length < clock (ops ++ [op]).length := hclock (by simp)
    rw [reactionsAfter_concat, InMemoryChatMessageRepository.reactionsAfter_concat]
    refine ⟨by rw [react_keys, hkeys], ?_⟩
    rcases react_rows op (clock ops.length) with hsub | ⟨r, hrows⟩
    · exact ⟨hrise.sublist hsub, fun r hr => (hpast r (hsub.subset hr)).trans htick⟩
    · rw [hrows]
      refine ⟨List.pairwise_append.mpr ⟨hrise, List.pairwise_singleton _ _, ?_⟩, ?_⟩
      · intro q hq q' hq'
        rw [List.mem_singleton.mp hq']
        exact hpast q hq
      · intro q hq
        rcases List.mem_append.mp hq with hq | hq
        · exact (hpast q hq).trans htick
        · rw [List.mem_singleton.mp hq]
          exact htick

end Runs

end PgChatMessageRepository

theorem InMemoryChatMessageRepository.keepsOrder_iff (ops : List ReactionOp) (op : ReactionOp) :
    KeepsOrder (reactionsFor (reactionsAfter ops)) (reactionsFor (reactionsAfter (ops ++ [op]))) ↔
      ¬op.Unseats (reactionsAfter ops) := by
  rw [(firstSeenFirst _).keepsOrder_iff (firstSeenFirst _), reactionsAfter_concat]
  exact sameOrder_react (reactionsAfter_held ops).1

theorem PgChatMessageRepository.keepsOrder_iff {κ : Type} [LinearOrder κ]
    (collate : ReactionEmoji → κ) {clock : Nat → DateTime} (hclock : StrictMono clock)
    (ops : List ReactionOp) (op : ReactionOp) :
    KeepsOrder (reactionsFor collate (reactionsAfter clock ops))
        (reactionsFor collate (reactionsAfter clock (ops ++ [op]))) ↔
      ¬op.Unseats (InMemoryChatMessageRepository.reactionsAfter ops) := by
  obtain ⟨hkeys, hrise, -⟩ := reactionsAfter_alike hclock ops
  obtain ⟨hkeys', hrise', -⟩ := reactionsAfter_alike hclock (ops ++ [op])
  rw [(firstSeenFirst hrise).keepsOrder_iff (firstSeenFirst hrise'), hkeys, hkeys',
    InMemoryChatMessageRepository.reactionsAfter_concat]
  exact sameOrder_react (InMemoryChatMessageRepository.reactionsAfter_held ops).1

/-- Both stores keep the order of a message's row exactly if the operation does not unseat an
emoji. -/
theorem reaction_order_kept {κ : Type} [LinearOrder κ] (collate : ReactionEmoji → κ)
    {clock : Nat → DateTime} (hclock : StrictMono clock) (ops : List ReactionOp)
    (op : ReactionOp) :
    (KeepsOrder
        (InMemoryChatMessageRepository.reactionsFor
          (InMemoryChatMessageRepository.reactionsAfter ops))
        (InMemoryChatMessageRepository.reactionsFor
          (InMemoryChatMessageRepository.reactionsAfter (ops ++ [op]))) ∧
      KeepsOrder
        (PgChatMessageRepository.reactionsFor collate
          (PgChatMessageRepository.reactionsAfter clock ops))
        (PgChatMessageRepository.reactionsFor collate
          (PgChatMessageRepository.reactionsAfter clock (ops ++ [op])))) ↔
      ¬op.Unseats (InMemoryChatMessageRepository.reactionsAfter ops) := by
  rw [InMemoryChatMessageRepository.keepsOrder_iff,
    PgChatMessageRepository.keepsOrder_iff collate hclock, and_self]

namespace Sample

def fire : ReactionEmoji := ⟨[Char.ofNat 0x1F525], by decide, by decide, by decide⟩

def dave : UserId := ⟨2⟩

/-- Carol's heart, then fire from her, then a heart from somebody else. -/
def heartFireHeart : List ReactionOp :=
  [.add ⟨⟨7⟩, carol.id, heart⟩, .add ⟨⟨7⟩, carol.id, fire⟩, .add ⟨⟨7⟩, dave, heart⟩]

def codePoints (e : ReactionEmoji) : List Nat := e.value.map Char.toNat

end Sample

theorem reaction_order_kept_fire :
    (KeepsOrder
        (InMemoryChatMessageRepository.reactionsFor
          (InMemoryChatMessageRepository.reactionsAfter Sample.heartFireHeart))
        (InMemoryChatMessageRepository.reactionsFor
          (InMemoryChatMessageRepository.reactionsAfter
            (Sample.heartFireHeart ++ [.remove ⟨⟨7⟩, Sample.dave, Sample.heart⟩]))) ∧
      KeepsOrder
        (PgChatMessageRepository.reactionsFor Sample.codePoints
          (PgChatMessageRepository.reactionsAfter Nat.cast Sample.heartFireHeart))
        (PgChatMessageRepository.reactionsFor Sample.codePoints
          (PgChatMessageRepository.reactionsAfter Nat.cast
            (Sample.heartFireHeart ++ [.remove ⟨⟨7⟩, Sample.dave, Sample.heart⟩])))) ↔
      ¬(ReactionOp.remove ⟨⟨7⟩, Sample.dave, Sample.heart⟩).Unseats
        (InMemoryChatMessageRepository.reactionsAfter Sample.heartFireHeart) :=
  reaction_order_kept Sample.codePoints (Nat.strictMono_cast) _ _

/-- Carol takes her heart back: fire, which came after it, stands before the other heart. -/
theorem reaction_order_lost :
    ¬KeepsOrder
        (InMemoryChatMessageRepository.reactionsFor
          (InMemoryChatMessageRepository.reactionsAfter Sample.heartFireHeart))
        (InMemoryChatMessageRepository.reactionsFor
          (InMemoryChatMessageRepository.reactionsAfter
            (Sample.heartFireHeart ++ [.remove ⟨⟨7⟩, Sample.carol.id, Sample.heart⟩]))) ∧
      ¬KeepsOrder
        (PgChatMessageRepository.reactionsFor Sample.codePoints
          (PgChatMessageRepository.reactionsAfter Nat.cast Sample.heartFireHeart))
        (PgChatMessageRepository.reactionsFor Sample.codePoints
          (PgChatMessageRepository.reactionsAfter Nat.cast
            (Sample.heartFireHeart ++ [.remove ⟨⟨7⟩, Sample.carol.id, Sample.heart⟩]))) := by
  have hunseats : (ReactionOp.remove ⟨⟨7⟩, Sample.carol.id, Sample.heart⟩).Unseats
      (InMemoryChatMessageRepository.reactionsAfter Sample.heartFireHeart) :=
    ⟨[], [⟨⟨7⟩, Sample.carol.id, Sample.fire⟩, ⟨⟨7⟩, Sample.dave, Sample.heart⟩],
      by decide +kernel, by decide +kernel⟩
  rw [InMemoryChatMessageRepository.keepsOrder_iff,
    PgChatMessageRepository.keepsOrder_iff _ Nat.strictMono_cast, not_not, and_self]
  exact hunseats

end Betsphere
