import Betsphere.Chat.Broadcasters
import Betsphere.Lib.FirstSeen
set_option autoImplicit false

namespace Betsphere

inductive ReactionOp where
  | add (r : ReactionKey)
  | remove (r : ReactionKey)

/-- `grouped.entry(key).or_default()`, changed by `f`, for one element after the other. -/
def groupInto {β γ : Type} (id : β → MessageId) (f : List γ → β → List γ) (l : List β) :
    MessageId → Option (List γ) :=
  l.foldl (fun grouped b =>
    Function.update grouped (id b) (some (f ((grouped (id b)).getD []) b))) fun _ => none

namespace InMemoryChatMessageRepository

def addReaction (reactions : List ReactionKey) (r : ReactionKey) : List ReactionKey × Bool :=
  if reactions.any fun held => held = r then (reactions, false) else (reactions ++ [r], true)

def removeReaction (reactions : List ReactionKey) (r : ReactionKey) : List ReactionKey × Bool :=
  let kept := reactions.filter fun held => held ≠ r
  (kept, kept.length < reactions.length)

/-- The tally of the emoji is raised where it stands, or a new one is put at the end. -/
def tally (viewer : UserId) : List ReactionTally → ReactionKey → List ReactionTally
  | [], r => [⟨r.emoji, 1, r.userId = viewer⟩]
  | t :: tallies, r =>
    if t.emoji = r.emoji then
      { t with count := t.count + 1, reacted := t.reacted || decide (r.userId = viewer) } :: tallies
    else t :: tally viewer tallies r

def reactionsFor (reactions : List ReactionKey) (messageIds : List MessageId) (viewer : UserId) :
    MessageId → Option (List ReactionTally) :=
  groupInto ReactionKey.messageId (tally viewer)
    (reactions.filter fun r => r.messageId ∈ messageIds)

def react (reactions : List ReactionKey) : ReactionOp → List ReactionKey × Bool
  | .add r => addReaction reactions r
  | .remove r => removeReaction reactions r

def reactionsAfter (ops : List ReactionOp) : List ReactionKey :=
  ops.foldl (fun reactions op => (react reactions op).1) []

end InMemoryChatMessageRepository

def heldAfter (ops : List ReactionOp) : Finset ReactionKey :=
  ops.foldl (fun held op =>
    match op with
    | .add r => insert r held
    | .remove r => held.erase r) ∅

section Grouping
variable {β γ : Type} {id : β → MessageId} {f : List γ → β → List γ}

theorem groupInto_eq (l : List β) (k : MessageId) : groupInto id f l k =
    if l.filter (fun b => id b = k) = [] then none
    else some ((l.filter fun b => id b = k).foldl f []) := by
  induction l using List.reverseRecOn with
  | nil => rfl
  | append_singleton l b ih =>
    have hsnoc : groupInto id f (l ++ [b]) = Function.update (groupInto id f l) (id b)
        (some (f ((groupInto id f l (id b)).getD []) b)) := by
      simp [groupInto, List.foldl_append]
    rw [hsnoc, List.filter_append]
    by_cases hk : id b = k
    · subst hk
      rw [Function.update_self, ih]
      by_cases hempty : l.filter (fun c => id c = id b) = []
      · simp [hempty]
      · simp [hempty, List.foldl_append]
    · rw [Function.update_of_ne (Ne.symm hk), ih]
      simp [hk]

end Grouping

namespace InMemoryChatMessageRepository
variable {viewer : UserId} {rows reactions : List ReactionKey} {r : ReactionKey}
  {emoji : ReactionEmoji}

/-- What `rows` amount to for one emoji. -/
def standing (viewer : UserId) (rows : List ReactionKey) (emoji : ReactionEmoji) : ReactionTally :=
  ⟨emoji, (rows.filter fun r => r.emoji = emoji).length,
    rows.any fun r => r.emoji = emoji && r.userId = viewer⟩

theorem map_standing (emojis : List ReactionEmoji) :
    (emojis.map (standing viewer rows)).map ReactionTally.emoji = emojis := by
  rw [List.map_map]
  exact List.map_id _

theorem standing_concat_ne (h : r.emoji ≠ emoji) :
    standing viewer (rows ++ [r]) emoji = standing viewer rows emoji := by
  simp [standing, h]

theorem standing_concat_self : standing viewer (rows ++ [r]) r.emoji =
    { standing viewer rows r.emoji with
      count := (standing viewer rows r.emoji).count + 1
      reacted := (standing viewer rows r.emoji).reacted || decide (r.userId = viewer) } := by
  simp [standing]

theorem tally_standing {emojis : List ReactionEmoji} (hnodup : emojis.Nodup)
    (hall : ∀ e ∈ rows.map ReactionKey.emoji, e ∈ emojis) :
    tally viewer (emojis.map (standing viewer rows)) r =
      (if r.emoji ∈ emojis then emojis else emojis ++ [r.emoji]).map
        (standing viewer (rows ++ [r])) := by
  have hkey : ∀ es : List ReactionEmoji, es.Nodup →
      tally viewer (es.map (standing viewer rows)) r =
        if r.emoji ∈ es then es.map (standing viewer (rows ++ [r]))
        else es.map (standing viewer rows) ++ [⟨r.emoji, 1, r.userId = viewer⟩] := by
    intro es hes
    induction es with
    | nil => simp [tally]
    | cons e es ih =>
      obtain ⟨hfresh, hes⟩ := List.nodup_cons.mp hes
      rw [List.map_cons, tally]
      by_cases he : e = r.emoji
      · subst he
        have hrest : es.map (standing viewer rows) = es.map (standing viewer (rows ++ [r])) := by
          refine List.map_congr_left fun e' he' => (standing_concat_ne ?_).symm
          rintro rfl
          exact hfresh he'
        have hsame : (standing viewer rows r.emoji).emoji = r.emoji := rfl
        simp only [if_pos hsame, standing_concat_self, List.mem_cons, true_or, if_true,
          List.map_cons, ← hrest]
      · have hne : ¬(standing viewer rows e).emoji = r.emoji := he
        have hstay : standing viewer (rows ++ [r]) e = standing viewer rows e :=
          standing_concat_ne (Ne.symm he)
        rw [if_neg hne, ih hes]
        by_cases hmem : r.emoji ∈ es
        · simp [hmem, hstay]
        · simp [hmem, Ne.symm he]
  rw [hkey emojis hnodup]
  by_cases hmem : r.emoji ∈ emojis
  · simp only [hmem, if_true]
  · have hstay : emojis.map (standing viewer (rows ++ [r])) = emojis.map (standing viewer rows) := by
      refine List.map_congr_left fun e he => standing_concat_ne ?_
      rintro rfl
      exact hmem he
    have hnone : rows.filter (fun q => q.emoji = r.emoji) = [] := by
      rw [List.filter_eq_nil_iff]
      intro q hq heq
      refine hmem (hall r.emoji ?_)
      exact List.mem_map.mpr ⟨q, hq, by simpa using heq⟩
    have hfresh : rows.any (fun q => q.emoji = r.emoji && q.userId = viewer) = false := by
      rw [List.any_eq_false]
      intro q hq
      have hq' := List.filter_eq_nil_iff.mp hnone q hq
      simp only [decide_eq_true_eq] at hq'
      simp [hq']
    simp [hmem, hstay, standing, hnone, hfresh]

/-- The tallies of one message: its emojis as they were first seen, each with what the rows
amount to. -/
theorem foldl_tally (viewer : UserId) (rows : List ReactionKey) :
    rows.foldl (tally viewer) [] =
      (rows.map ReactionKey.emoji).eraseDups.map (standing viewer rows) := by
  induction rows using List.reverseRecOn with
  | nil => rfl
  | append_singleton rows r ih =>
    rw [List.foldl_append, List.foldl_cons, List.foldl_nil, ih,
      tally_standing (FirstSeen.nodup_eraseDups _) fun e he => List.mem_eraseDups.mpr he,
      List.map_append, List.map_cons, List.map_nil, FirstSeen.eraseDups_concat]
    simp only [List.mem_eraseDups]

theorem reactionsFor_eq (reactions : List ReactionKey) (messageIds : List MessageId)
    (viewer : UserId) (id : MessageId) :
    reactionsFor reactions messageIds viewer id =
      let rows := reactions.filter fun r => r.messageId = id
      if id ∈ messageIds ∧ rows ≠ [] then
        some ((rows.map ReactionKey.emoji).eraseDups.map (standing viewer rows))
      else none := by
  have hrows : (reactions.filter fun r => r.messageId ∈ messageIds).filter
      (fun r => r.messageId = id) =
      if id ∈ messageIds then reactions.filter fun r => r.messageId = id else [] := by
    rw [List.filter_filter]
    by_cases hid : id ∈ messageIds
    · rw [if_pos hid]
      refine List.filter_congr fun r _ => ?_
      by_cases hr : r.messageId = id
      · simp [hr, hid]
      · simp [hr]
    · rw [if_neg hid, List.filter_eq_nil_iff]
      intro r _ hr
      simp only [Bool.and_eq_true, decide_eq_true_eq] at hr
      exact hid (hr.1 ▸ hr.2)
  rw [reactionsFor, groupInto_eq, hrows]
  by_cases hid : id ∈ messageIds
  · by_cases hempty : reactions.filter (fun r => r.messageId = id) = []
    · simp [hid, hempty]
    · simp [hid, hempty, foldl_tally]
  · simp [hid]

theorem addReaction_held (h : r ∈ reactions) : addReaction reactions r = (reactions, false) := by
  simp [addReaction, h]

theorem addReaction_new (h : r ∉ reactions) :
    addReaction reactions r = (reactions ++ [r], true) := by
  simp [addReaction, h]

theorem removeReaction_held (h : r ∈ reactions) :
    removeReaction reactions r = (reactions.filter fun held => held ≠ r, true) := by
  have hlt : (reactions.filter fun held => held ≠ r).length < reactions.length := by
    rw [List.length_filter_lt_length_iff_exists]
    exact ⟨r, h, by simp⟩
  simp only [removeReaction, decide_eq_true hlt]

theorem removeReaction_absent (h : r ∉ reactions) :
    removeReaction reactions r = (reactions, false) := by
  have hsame : reactions.filter (fun held => held ≠ r) = reactions := by
    rw [List.filter_eq_self]
    intro held hheld
    simp only [ne_eq, decide_not, Bool.not_eq_eq_eq_not, Bool.not_true, decide_eq_false_iff_not]
    rintro rfl
    exact h hheld
  simp only [removeReaction, hsame, lt_self_iff_false, decide_false]

theorem reactionsAfter_concat (ops : List ReactionOp) (op : ReactionOp) :
    reactionsAfter (ops ++ [op]) = (react (reactionsAfter ops) op).1 := by
  simp [reactionsAfter]

theorem heldAfter_concat (ops : List ReactionOp) (op : ReactionOp) :
    heldAfter (ops ++ [op]) =
      match op with
      | .add r => insert r (heldAfter ops)
      | .remove r => (heldAfter ops).erase r := by
  simp [heldAfter]

theorem reactionsAfter_held (ops : List ReactionOp) :
    (reactionsAfter ops).Nodup ∧ ∀ r, r ∈ reactionsAfter ops ↔ r ∈ heldAfter ops := by
  induction ops using List.reverseRecOn with
  | nil => exact ⟨List.nodup_nil, by simp [reactionsAfter, heldAfter]⟩
  | append_singleton ops op ih =>
    obtain ⟨hnodup, hmem⟩ := ih
    rw [reactionsAfter_concat, heldAfter_concat]
    cases op with
    | add r =>
      by_cases hr : r ∈ reactionsAfter ops
      · simp only [react, addReaction_held hr, Finset.insert_eq_of_mem ((hmem r).mp hr)]
        exact ⟨hnodup, hmem⟩
      · simp only [react, addReaction_new hr]
        refine ⟨?_, fun q => ?_⟩
        · refine List.nodup_append.mpr ⟨hnodup, List.nodup_singleton r, ?_⟩
          intro a ha b hb hab
          rw [List.mem_singleton] at hb
          exact hr (hb ▸ hab ▸ ha)
        · simp [hmem, or_comm]
    | remove r =>
      have hkept : (react (reactionsAfter ops) (.remove r)).1 =
          (reactionsAfter ops).filter fun held => held ≠ r := rfl
      rw [hkept]
      refine ⟨hnodup.filter _, fun q => ?_⟩
      simp [hmem, and_comm]

theorem react_changed (ops : List ReactionOp) (op : ReactionOp) :
    (react (reactionsAfter ops) op).2 = true ↔ heldAfter (ops ++ [op]) ≠ heldAfter ops := by
  obtain ⟨-, hmem⟩ := reactionsAfter_held ops
  rw [heldAfter_concat]
  cases op with
  | add r =>
    by_cases hr : r ∈ reactionsAfter ops
    · rw [react, addReaction_held hr]
      simp [Finset.insert_eq_of_mem ((hmem r).mp hr)]
    · rw [react, addReaction_new hr]
      have hnew : r ∉ heldAfter ops := fun h => hr ((hmem r).mpr h)
      simp [Finset.insert_ne_self.mpr hnew]
  | remove r =>
    by_cases hr : r ∈ reactionsAfter ops
    · rw [react, removeReaction_held hr]
      simp [Finset.erase_eq_self, (hmem r).mp hr]
    · rw [react, removeReaction_absent hr]
      have hnew : r ∉ heldAfter ops := fun h => hr ((hmem r).mpr h)
      simp [Finset.erase_eq_of_notMem hnew]

end InMemoryChatMessageRepository

def holders (held : Finset ReactionKey) (id : MessageId) (emoji : ReactionEmoji) :
    Finset UserId :=
  (held.filter fun r => r.messageId = id ∧ r.emoji = emoji).image ReactionKey.userId

/-- What `reactions_for` answers is what is held. -/
structure TalliesExact (held : Finset ReactionKey) (messageIds : List MessageId)
    (viewer : UserId) (grouped : MessageId → Option (List ReactionTally)) : Prop where
  mapped : ∀ id, (grouped id).isSome ↔ id ∈ messageIds ∧ ∃ r ∈ held, r.messageId = id
  once : ∀ id tallies, grouped id = some tallies → (tallies.map ReactionTally.emoji).Nodup
  emojis : ∀ id tallies, grouped id = some tallies → ∀ emoji,
    emoji ∈ tallies.map ReactionTally.emoji ↔ ∃ r ∈ held, r.messageId = id ∧ r.emoji = emoji
  counted : ∀ id tallies, grouped id = some tallies → ∀ t ∈ tallies,
    t.count = (holders held id t.emoji).card ∧ t.count ≠ 0
  reacted : ∀ id tallies, grouped id = some tallies → ∀ t ∈ tallies,
    t.reacted = true ↔ ⟨id, viewer, t.emoji⟩ ∈ held

open InMemoryChatMessageRepository in
theorem holders_card {reactions : List ReactionKey} {held : Finset ReactionKey}
    (hnodup : reactions.Nodup) (hmem : ∀ r, r ∈ reactions ↔ r ∈ held) (id : MessageId)
    (emoji : ReactionEmoji) :
    ((reactions.filter fun r => r.messageId = id).filter fun r => r.emoji = emoji).length =
      (holders held id emoji).card := by
  have hset : held.filter (fun r => r.messageId = id ∧ r.emoji = emoji) =
      ((reactions.filter fun r => r.messageId = id).filter fun r => r.emoji = emoji).toFinset := by
    ext r
    simp only [Finset.mem_filter, List.mem_toFinset, List.mem_filter, decide_eq_true_eq, hmem,
      and_assoc]
  have hinj : Set.InjOn ReactionKey.userId
      (held.filter fun r => r.messageId = id ∧ r.emoji = emoji : Finset ReactionKey) := by
    intro a ha b hb hab
    simp only [Finset.coe_filter, Set.mem_ofPred_eq] at ha hb
    obtain ⟨m, u, e⟩ := a
    obtain ⟨m', u', e'⟩ := b
    simp_all
  rw [holders, Finset.card_image_of_injOn hinj, hset]
  exact (List.toFinset_card_of_nodup ((hnodup.filter _).filter _)).symm

open InMemoryChatMessageRepository in
theorem reactionsFor_exact {reactions : List ReactionKey} {held : Finset ReactionKey}
    (hnodup : reactions.Nodup) (hmem : ∀ r, r ∈ reactions ↔ r ∈ held)
    (messageIds : List MessageId) (viewer : UserId) :
    TalliesExact held messageIds viewer (reactionsFor reactions messageIds viewer) := by
  have hsome : ∀ id tallies, reactionsFor reactions messageIds viewer id = some tallies →
      tallies = ((reactions.filter fun r => r.messageId = id).map
        ReactionKey.emoji).eraseDups.map
          (standing viewer (reactions.filter fun r => r.messageId = id)) := by
    intro id tallies h
    rw [reactionsFor_eq] at h
    simp only at h
    split at h
    · exact (Option.some.inj h).symm
    · simp at h
  refine ⟨?_, ?_, ?_, ?_, ?_⟩
  · intro id
    have hrows : reactions.filter (fun r => r.messageId = id) ≠ [] ↔
        ∃ r ∈ held, r.messageId = id := by
      rw [ne_eq, List.filter_eq_nil_iff]
      simp [hmem]
    rw [← hrows, reactionsFor_eq]
    simp only
    split
    · rename_i h
      exact iff_of_true rfl h
    · rename_i h
      exact iff_of_false Bool.false_ne_true h
  · intro id tallies h
    rw [hsome id tallies h, map_standing]
    exact FirstSeen.nodup_eraseDups _
  · intro id tallies h emoji
    rw [hsome id tallies h, map_standing, List.mem_eraseDups]
    simp [hmem, and_assoc]
  · intro id tallies h t ht
    rw [hsome id tallies h] at ht
    obtain ⟨emoji, hemoji, rfl⟩ := List.mem_map.mp ht
    obtain ⟨r, hr, hre⟩ := List.mem_map.mp (List.mem_eraseDups.mp hemoji)
    refine ⟨holders_card hnodup hmem id emoji, ?_⟩
    have hpos : 0 < ((reactions.filter fun r => r.messageId = id).filter
        fun r => r.emoji = emoji).length :=
      List.length_pos_of_mem (List.mem_filter.mpr ⟨hr, by simpa using hre⟩)
    exact hpos.ne'
  · intro id tallies h t ht
    rw [hsome id tallies h] at ht
    obtain ⟨emoji, -, rfl⟩ := List.mem_map.mp ht
    simp only [standing, List.any_eq_true, List.mem_filter, decide_eq_true_eq, Bool.and_eq_true]
    constructor
    · rintro ⟨r, ⟨hr, rfl⟩, rfl, rfl⟩
      exact (hmem r).mp hr
    · intro hheld
      exact ⟨_, ⟨(hmem _).mpr hheld, rfl⟩, rfl, rfl⟩

/-- After any additions and removals the tallies are those of the reactions held, and each
of them answered whether it changed what is held. -/
theorem reaction_tallies_exact (ops : List ReactionOp) :
    (∀ messageIds viewer, TalliesExact (heldAfter ops) messageIds viewer
      (InMemoryChatMessageRepository.reactionsFor
        (InMemoryChatMessageRepository.reactionsAfter ops) messageIds viewer)) ∧
      ∀ op, (InMemoryChatMessageRepository.react
        (InMemoryChatMessageRepository.reactionsAfter ops) op).2 = true ↔
          heldAfter (ops ++ [op]) ≠ heldAfter ops := by
  obtain ⟨hnodup, hmem⟩ := InMemoryChatMessageRepository.reactionsAfter_held ops
  exact ⟨reactionsFor_exact hnodup hmem, InMemoryChatMessageRepository.react_changed ops⟩

end Betsphere
