import Betsphere.Events.Topics
import Betsphere.Postgres.Database
set_option autoImplicit false

/-!
The chat tables and the transactions on them. A message is saved in one step; a reaction
transaction takes its statements one by one, and the row it inserted or deleted stays
locked until it ends.
-/

namespace Betsphere

/-- The primary key of `chat_message_reactions`. -/
structure ReactionKey where
  messageId : MessageId
  userId : UserId
  emoji : ReactionEmoji
  deriving DecidableEq

structure Reaction where
  key : ReactionKey
  createdAt : DateTime

structure ChatDb where
  users : Table User.id
  messages : Table ChatMessage.id
  reactions : Table Reaction.key

def ChatDb.empty : ChatDb := ⟨.empty, .empty, .empty⟩

/-- What a reaction transaction does next; `commit` has the event it recorded, if any. -/
inductive ReactionPhase where
  | statement
  | publish
  | commit (event : Option Nat)
  | returned (result : Except RepositoryError Bool)

structure ReactionCall where
  added : Bool
  key : ReactionKey
  now : DateTime
  phase : ReactionPhase

def ReactionCall.holds (c : ReactionCall) : Bool :=
  match c.phase with
  | .publish => true
  | .commit (some _) => true
  | _ => false

/-- A committed `ChatReactionChanged` with the call that recorded it. -/
structure RecordedChange where
  id : Nat
  call : Nat
  key : ReactionKey
  added : Bool
  deriving DecidableEq

def RecordedChange.queue (c : RecordedChange) : Nat × String × Payload :=
  (c.id, "chat.reaction_changed",
    .reactionChanged c.key.messageId c.key.userId c.key.emoji.value c.added)

/-- `nextId` is below nothing the sequence has still to hand out; `recorded` lists the
committed changes in the order of their commits, and no action looks at it. -/
structure Chat where
  db : ChatDb
  calls : List ReactionCall
  nextId : Nat
  recorded : List RecordedChange

def Chat.init : Chat := ⟨.empty, [], 0, []⟩

inductive ChatAct where
  | saveUser (user : User)
  | post (message : ChatMessage) (event : Nat)
  | begin (added : Bool) (key : ReactionKey) (now : DateTime)
  | step (i : Nat) (id : Nat)
  | fail (i : Nat) (message : String)
  | other (events : List (Nat × String × String))

namespace Chat

def setPhase (s : Chat) (i : Nat) (c : ReactionCall) (phase : ReactionPhase) : Chat :=
  { s with calls := s.calls.set i { c with phase } }

def blocked (s : Chat) (i : Nat) (key : ReactionKey) : Bool :=
  s.calls.zipIdx.any fun c => c.2 ≠ i && c.1.holds && c.1.key = key

/-- `INSERT .. ON CONFLICT DO NOTHING`: waits for whoever holds the row. -/
def insertReaction (s : Chat) (i : Nat) (c : ReactionCall) : Option Chat :=
  if s.blocked i c.key then none
  else if (s.db.reactions.find? c.key).isSome then some (s.setPhase i c (.commit none))
  else if (s.db.messages.find? c.key.messageId).isNone then
    some (s.setPhase i c (.returned (.error
      (missingReference "chat_message_reactions" "chat_message_reactions_message_id_fkey"))))
  else if (s.db.users.find? c.key.userId).isNone then
    some (s.setPhase i c (.returned (.error
      (missingReference "chat_message_reactions" "chat_message_reactions_user_id_fkey"))))
  else some (s.setPhase i c .publish)

/-- `DELETE`: a row nobody has committed is not there to wait for. -/
def deleteReaction (s : Chat) (i : Nat) (c : ReactionCall) : Option Chat :=
  if (s.db.reactions.find? c.key).isNone then some (s.setPhase i c (.commit none))
  else if s.blocked i c.key then none
  else some (s.setPhase i c .publish)

/-- The committed row appears or goes, together with its event. -/
def commitReaction (s : Chat) (i : Nat) (c : ReactionCall) (id : Nat) : Chat :=
  let reactions := if c.added then s.db.reactions.upsert ⟨c.key, c.now⟩
    else s.db.reactions.filter fun r => r.key ≠ c.key
  { s.setPhase i c (.returned (.ok true)) with
    db := { s.db with reactions }
    recorded := s.recorded ++ [⟨id, i, c.key, c.added⟩] }

def stepCall (s : Chat) (i : Nat) (c : ReactionCall) (id : Nat) :
    Option (Chat × List (Nat × String × Payload)) :=
  match c.phase with
  | .statement =>
    (if c.added then s.insertReaction i c else s.deleteReaction i c).map fun t => (t, [])
  | .publish =>
    if s.nextId ≤ id then
      some ({ s.setPhase i c (.commit (some id)) with nextId := id + 1 }, [])
    else none
  | .commit none => some (s.setPhase i c (.returned (.ok false)), [])
  | .commit (some event) =>
    some (s.commitReaction i c event, [(⟨event, i, c.key, c.added⟩ : RecordedChange).queue])
  | .returned _ => none

def step (s : Chat) : ChatAct → Option (Chat × List (Nat × String × Payload))
  | .saveUser user => some ({ s with db := { s.db with users := s.db.users.upsert user } }, [])
  | .post message event =>
    if (s.db.messages.find? message.id).isNone ∧ (s.db.users.find? message.authorId).isSome ∧
        (message.replyTo.all fun id => (s.db.messages.find? id).isSome) then
      some ({ s with db := { s.db with messages := s.db.messages.upsert message } },
        [(event, "chat.message_posted", .messagePosted message.id)])
    else none
  | .begin added key now => some ({ s with calls := s.calls ++ [⟨added, key, now, .statement⟩] }, [])
  | .step i id =>
    match s.calls[i]? with
    | none => none
    | some c => s.stepCall i c id
  | .fail i message =>
    match s.calls[i]? with
    | none => none
    | some c =>
      match c.phase with
      | .returned _ => none
      | _ => some (s.setPhase i c (.returned (.error (.storage message))), [])
  | .other events =>
    if events.all fun e => e.2.1 ∉ ownTopics then
      some (s, events.map fun e => (e.1, e.2.1, .json e.2.2))
    else none

def next (s : Chat) (a : ChatAct) : Option Chat := (s.step a).map Prod.fst

end Chat

inductive Chat.Effect (s : Chat) : Chat → List (Nat × String × Payload) → Prop where
  | saved (user : User) : Effect s { s with db := { s.db with users := s.db.users.upsert user } } []
  | posted (message : ChatMessage) (event : Nat) (hnew : s.db.messages.find? message.id = none)
      (hauthor : (s.db.users.find? message.authorId).isSome) :
      Effect s { s with db := { s.db with messages := s.db.messages.upsert message } }
        [(event, "chat.message_posted", .messagePosted message.id)]
  /-- Another transaction recorded events. -/
  | foreign (events : List (Nat × String × String)) (htopics : ∀ e ∈ events, e.2.1 ∉ ownTopics) :
      Effect s s (events.map fun e => (e.1, e.2.1, .json e.2.2))
  | began (added : Bool) (key : ReactionKey) (now : DateTime) :
      Effect s { s with calls := s.calls ++ [⟨added, key, now, .statement⟩] } []
  | changed (i : Nat) (c : ReactionCall) (hc : s.calls[i]? = some c) (hphase : c.phase = .statement)
      (hfree : s.blocked i c.key = false)
      (hrow : (s.db.reactions.find? c.key).isSome = !c.added)
      (hmessage : c.added = true → (s.db.messages.find? c.key.messageId).isSome) :
      Effect s (s.setPhase i c .publish) []
  | published (i : Nat) (c : ReactionCall) (id : Nat) (hc : s.calls[i]? = some c)
      (hphase : c.phase = .publish) (hid : s.nextId ≤ id) :
      Effect s { s.setPhase i c (.commit (some id)) with nextId := id + 1 } []
  | committed (i : Nat) (c : ReactionCall) (id : Nat) (hc : s.calls[i]? = some c)
      (hphase : c.phase = .commit (some id)) :
      Effect s (s.commitReaction i c id) [(⟨id, i, c.key, c.added⟩ : RecordedChange).queue]
  /-- The call changes nothing: it found nothing to do, failed, or says that it did nothing. -/
  | left (i : Nat) (c : ReactionCall) (phase : ReactionPhase) (hc : s.calls[i]? = some c)
      (hphase : phase = .commit none ∨ (∃ e, phase = .returned (.error e)) ∨
        phase = .returned (.ok false))
      (hopen : ∀ result, c.phase ≠ .returned result) :
      Effect s (s.setPhase i c phase) []

theorem Chat.insertReaction_effect {s s' : Chat} {i : Nat} {c : ReactionCall}
    (h : s.insertReaction i c = some s') (hc : s.calls[i]? = some c)
    (hphase : c.phase = .statement) (hadd : c.added = true) : s.Effect s' [] := by
  have hopen : ∀ result, c.phase ≠ .returned result := by simp [hphase]
  unfold Chat.insertReaction at h
  split at h
  · simp at h
  · rename_i hfree
    split at h
    · cases h
      exact .left i c _ hc (.inl rfl) hopen
    · rename_i hrow
      split at h
      · cases h
        exact .left i c _ hc (.inr (.inl ⟨_, rfl⟩)) hopen
      · rename_i hmessage
        split at h
        · cases h
          exact .left i c _ hc (.inr (.inl ⟨_, rfl⟩)) hopen
        · cases h
          refine .changed i c hc hphase (by simpa using hfree) ?_ fun _ => ?_
          · rw [hadd]
            simpa using hrow
          · cases hm : s.db.messages.find? c.key.messageId with
            | none => simp [hm] at hmessage
            | some m => rfl

theorem Chat.deleteReaction_effect {s s' : Chat} {i : Nat} {c : ReactionCall}
    (h : s.deleteReaction i c = some s') (hc : s.calls[i]? = some c)
    (hphase : c.phase = .statement) (hadd : c.added = false) : s.Effect s' [] := by
  have hopen : ∀ result, c.phase ≠ .returned result := by simp [hphase]
  unfold Chat.deleteReaction at h
  split at h
  · cases h
    exact .left i c _ hc (.inl rfl) hopen
  · rename_i hrow
    split at h
    · simp at h
    · rename_i hfree
      cases h
      refine .changed i c hc hphase (by simpa using hfree) ?_ fun htrue => ?_
      · rw [hadd]
        cases hr : s.db.reactions.find? c.key with
        | none => simp [hr] at hrow
        | some r => rfl
      · simp [hadd] at htrue

theorem Chat.stepCall_effect {s s' : Chat} {i id : Nat} {c : ReactionCall}
    {events : List (Nat × String × Payload)} (h : s.stepCall i c id = some (s', events))
    (hc : s.calls[i]? = some c) : s.Effect s' events := by
  unfold Chat.stepCall at h
  cases hphase : c.phase with
  | statement =>
    simp only [hphase] at h
    cases hadd : c.added with
    | true =>
      simp only [hadd, if_true, Option.map_eq_some_iff, Prod.mk.injEq] at h
      obtain ⟨t, ht, rfl, rfl⟩ := h
      exact Chat.insertReaction_effect ht hc hphase hadd
    | false =>
      simp only [hadd, Bool.false_eq_true, if_false, Option.map_eq_some_iff,
        Prod.mk.injEq] at h
      obtain ⟨t, ht, rfl, rfl⟩ := h
      exact Chat.deleteReaction_effect ht hc hphase hadd
  | publish =>
    simp only [hphase] at h
    split at h
    · rename_i hid
      cases h
      exact .published i c id hc hphase hid
    · simp at h
  | commit event =>
    cases event with
    | none =>
      simp only [hphase] at h
      cases h
      exact .left i c _ hc (.inr (.inr rfl)) (by simp [hphase])
    | some event =>
      simp only [hphase] at h
      cases h
      exact .committed i c event hc hphase
  | returned result => simp [hphase] at h

theorem Chat.step_effect {s s' : Chat} {a : ChatAct} {events : List (Nat × String × Payload)}
    (h : s.step a = some (s', events)) : s.Effect s' events := by
  cases a with
  | saveUser user =>
    cases h
    exact .saved user
  | post message event =>
    simp only [Chat.step] at h
    split at h
    · rename_i hok
      cases h
      exact .posted message event (Option.isNone_iff_eq_none.mp hok.1) hok.2.1
    · simp at h
  | begin added key now =>
    cases h
    exact .began added key now
  | step i id =>
    cases hc : s.calls[i]? with
    | none => simp [Chat.step, hc] at h
    | some c =>
      simp only [Chat.step, hc] at h
      exact Chat.stepCall_effect h hc
  | fail i message =>
    cases hc : s.calls[i]? with
    | none => simp [Chat.step, hc] at h
    | some c =>
      simp only [Chat.step, hc] at h
      split at h
      · simp at h
      · rename_i hopen
        cases h
        exact .left i c _ hc (.inr (.inl ⟨_, rfl⟩)) hopen
  | other foreign =>
    simp only [Chat.step] at h
    split at h
    · rename_i hall
      cases h
      refine .foreign foreign fun e he => ?_
      simpa using List.all_eq_true.mp hall e he
    · simp at h

end Betsphere
