import Betsphere.Chat.Store
import Betsphere.Lib.Transition
set_option autoImplicit false

namespace Betsphere

/-- `first`, then its opposite, then `first` again and so on. -/
def Alternates : Bool → List Bool → Prop
  | _, [] => True
  | first, b :: rest => b = first ∧ Alternates (!first) rest

instance decidableAlternates : (first : Bool) → (bits : List Bool) →
    Decidable (Alternates first bits)
  | _, [] => isTrue trivial
  | first, b :: rest =>
    have := decidableAlternates (!first) rest
    inferInstanceAs (Decidable (b = first ∧ Alternates (!first) rest))

def nextBit : Bool → List Bool → Bool
  | first, [] => first
  | _, b :: rest => nextBit (!b) rest

theorem nextBit_append (first b : Bool) (bits : List Bool) : nextBit first (bits ++ [b]) = !b := by
  induction bits generalizing first with
  | nil => rfl
  | cons c rest ih => exact ih _

theorem nextBit_getLast (bits : List Bool) : nextBit true bits = !(bits.getLast?.getD false) := by
  induction bits using List.reverseRecOn with
  | nil => rfl
  | append_singleton rest b ih => simp [nextBit_append]

theorem Alternates.append {first b : Bool} {bits : List Bool} (h : Alternates first bits)
    (hb : b = nextBit first bits) : Alternates first (bits ++ [b]) := by
  induction bits generalizing first with
  | nil => exact ⟨hb, trivial⟩
  | cons c rest ih =>
    obtain ⟨rfl, hrest⟩ := h
    exact ⟨rfl, ih hrest hb⟩

namespace Chat

/-- The committed changes of one reaction, in the order of their commits. -/
def changes (s : Chat) (key : ReactionKey) : List RecordedChange :=
  s.recorded.filter fun r => r.key = key

def stored (s : Chat) (key : ReactionKey) : Bool := (s.db.reactions.find? key).isSome

def committedBy (s : Chat) (i : Nat) : List RecordedChange := s.recorded.filter fun r => r.call = i

def returnedTrue (s : Chat) (i : Nat) : Bool :=
  match s.calls[i]? with
  | some ⟨_, _, _, .returned (.ok true)⟩ => true
  | _ => false

/-- What every interleaving keeps about the row locks and the recorded changes. -/
structure Mirrors (s : Chat) : Prop where
  alternate : ∀ key, Alternates true ((s.changes key).map RecordedChange.added)
  last : ∀ key, nextBit true ((s.changes key).map RecordedChange.added) = !s.stored key
  sorted : ∀ key, (s.changes key).Pairwise fun a b => a.id < b.id
  drawn : ∀ r ∈ s.recorded, r.id < s.nextId
  exclusive : ∀ (i j : Nat) (c d : ReactionCall), s.calls[i]? = some c → s.calls[j]? = some d →
    c.holds = true →
    d.holds = true → c.key = d.key → i = j
  held : ∀ (i : Nat) (c : ReactionCall), s.calls[i]? = some c → c.holds = true →
    s.stored c.key = !c.added
  later : ∀ (i : Nat) (c : ReactionCall) (id : Nat), s.calls[i]? = some c →
    c.phase = .commit (some id) →
    id < s.nextId ∧ ∀ r ∈ s.recorded, r.key = c.key → r.id < id
  own : ∀ i, (s.committedBy i).length = if s.returnedTrue i then 1 else 0
  named : ∀ r ∈ s.recorded, ∃ c, s.calls[r.call]? = some c ∧ r.key = c.key ∧ r.added = c.added

theorem init_mirrors : init.Mirrors := by
  constructor <;>
    simp [init, changes, stored, committedBy, returnedTrue, Alternates, nextBit, ChatDb.empty,
      Table.find?]

section Calls
variable {s : Chat} {i j : Nat} {c d : ReactionCall} {phase : ReactionPhase}

theorem setPhase_call (hc : s.calls[i]? = some c) (hd : (s.setPhase i c phase).calls[j]? = some d) :
    (j = i ∧ d = { c with phase }) ∨ (j ≠ i ∧ s.calls[j]? = some d) := by
  have hlt : i < s.calls.length := (List.getElem?_eq_some_iff.mp hc).1
  by_cases hj : j = i
  · subst hj
    simp only [setPhase, List.getElem?_set_self hlt, Option.some.injEq] at hd
    exact .inl ⟨rfl, hd.symm⟩
  · simp only [setPhase] at hd
    rw [List.getElem?_set_ne (Ne.symm hj)] at hd
    exact .inr ⟨hj, hd⟩

theorem setPhase_self (hc : s.calls[i]? = some c) :
    (s.setPhase i c phase).calls[i]? = some { c with phase } :=
  List.getElem?_set_self (List.getElem?_eq_some_iff.mp hc).1

theorem setPhase_other (hj : j ≠ i) : (s.setPhase i c phase).calls[j]? = s.calls[j]? :=
  List.getElem?_set_ne (Ne.symm hj)

theorem setPhase_named (hc : s.calls[i]? = some c) (hd : s.calls[j]? = some d) :
    ∃ e, (s.setPhase i c phase).calls[j]? = some e ∧ e.key = d.key ∧ e.added = d.added := by
  by_cases hj : j = i
  · subst hj
    obtain rfl : d = c := Option.some.inj (hd.symm.trans hc)
    exact ⟨_, setPhase_self hc, rfl, rfl⟩
  · exact ⟨d, (setPhase_other hj).trans hd, rfl, rfl⟩

theorem returnedTrue_other (hj : j ≠ i) :
    (s.setPhase i c phase).returnedTrue j = s.returnedTrue j := by
  unfold returnedTrue
  rw [setPhase_other hj]

theorem unblocked (hfree : s.blocked i c.key = false) (hd : s.calls[j]? = some d)
    (hholds : d.holds = true) (hkey : d.key = c.key) : j = i := by
  by_contra hne
  have hmem : (d, j) ∈ s.calls.zipIdx := by
    rw [List.mem_zipIdx_iff_getElem?]
    exact hd
  have hall := List.any_eq_false.mp hfree _ hmem
  simp [hne, hholds, hkey] at hall

end Calls

namespace Mirrors
variable {s s' : Chat} {i : Nat} {c : ReactionCall} {phase : ReactionPhase}

theorem moved (h : s.Mirrors) (hc : s.calls[i]? = some c)
    (hopen : ∀ result, c.phase ≠ .returned result)
    (hnot : phase ≠ .returned (.ok true))
    (hholds : ({ c with phase } : ReactionCall).holds = true →
      s.stored c.key = (!c.added) ∧ ∀ j d, s.calls[j]? = some d → d.holds = true →
        d.key = c.key → j = i)
    (hlater : ∀ id, phase = .commit (some id) →
      id < s.nextId ∧ ∀ r ∈ s.recorded, r.key = c.key → r.id < id) :
    (s.setPhase i c phase).Mirrors where
  alternate := h.alternate
  last := h.last
  sorted := h.sorted
  drawn := h.drawn
  exclusive := by
    intro j k d e hd he hdholds heholds hkey
    rcases setPhase_call hc hd with ⟨rfl, rfl⟩ | ⟨hj, hd'⟩
    · rcases setPhase_call hc he with ⟨rfl, rfl⟩ | ⟨hk, he'⟩
      · rfl
      · exact ((hholds hdholds).2 k e he' heholds hkey.symm).symm
    · rcases setPhase_call hc he with ⟨rfl, rfl⟩ | ⟨hk, he'⟩
      · exact (hholds heholds).2 j d hd' hdholds hkey
      · exact h.exclusive j k d e hd' he' hdholds heholds hkey
  held := by
    intro j d hd hdholds
    rcases setPhase_call hc hd with ⟨rfl, rfl⟩ | ⟨hj, hd⟩
    · exact (hholds hdholds).1
    · exact h.held j d hd hdholds
  later := by
    intro j d id hd hdphase
    rcases setPhase_call hc hd with ⟨rfl, rfl⟩ | ⟨hj, hd⟩
    · exact hlater id hdphase
    · exact h.later j d id hd hdphase
  own := by
    intro j
    have hsame : (s.setPhase i c phase).returnedTrue j = s.returnedTrue j := by
      by_cases hj : j = i
      · subst hj
        unfold returnedTrue
        rw [setPhase_self hc, hc]
        obtain ⟨added, key, now, before⟩ := c
        cases phase with
        | returned result =>
          cases before with
          | returned r => exact absurd rfl (hopen r)
          | _ =>
            cases result with
            | error e => rfl
            | ok b =>
              cases b with
              | true => exact absurd rfl hnot
              | false => rfl
        | _ =>
          cases before with
          | returned r => exact absurd rfl (hopen r)
          | _ => rfl
      · exact returnedTrue_other hj
    rw [hsame]
    exact h.own j
  named := by
    intro r hr
    obtain ⟨d, hd, hkey, hadded⟩ := h.named r hr
    obtain ⟨e, he, hekey, headded⟩ := setPhase_named hc hd
    exact ⟨e, he, hkey.trans hekey.symm, hadded.trans headded.symm⟩

theorem raise (h : s.Mirrors) {n : Nat} (hn : s.nextId ≤ n) :
    ({ s with nextId := n } : Chat).Mirrors :=
  { h with
    drawn := fun r hr => Nat.lt_of_lt_of_le (h.drawn r hr) hn
    later := fun j d id hd hphase =>
      ⟨Nat.lt_of_lt_of_le (h.later j d id hd hphase).1 hn, (h.later j d id hd hphase).2⟩ }

theorem tables (h : s.Mirrors) {db : ChatDb} (hreactions : db.reactions = s.db.reactions) :
    ({ s with db } : Chat).Mirrors := by
  have hstored : ∀ key, ({ s with db } : Chat).stored key = s.stored key := by
    intro key
    simp [stored, hreactions]
  exact { h with
    last := fun key => (h.last key).trans (by rw [hstored])
    held := fun j d hd hdholds => (hstored d.key).trans (h.held j d hd hdholds) }

theorem changes_commit (s : Chat) (i : Nat) (c : ReactionCall) (id : Nat) (key : ReactionKey) :
    (s.commitReaction i c id).changes key =
      s.changes key ++ if c.key = key then [⟨id, i, c.key, c.added⟩] else [] := by
  unfold changes commitReaction
  rw [List.filter_append]
  split <;> simp_all

theorem stored_commit (s : Chat) (i : Nat) (c : ReactionCall) (id : Nat) (key : ReactionKey) :
    (s.commitReaction i c id).stored key = if c.key = key then c.added else s.stored key := by
  unfold stored commitReaction
  cases hadd : c.added with
  | true =>
    simp only [if_true, Table.find?_upsert]
    split <;> rfl
  | false =>
    simp only [Bool.false_eq_true, if_false, Table.find?_filter]
    cases hf : s.db.reactions.find? key with
    | none => simp
    | some r =>
      have hr : r.key = key := Table.find?_key hf
      by_cases hkey : c.key = key
      · simp [hkey, hr]
      · simp [hkey, hr, Ne.symm hkey]

theorem committedBy_commit (s : Chat) (i : Nat) (c : ReactionCall) (id j : Nat) :
    (s.commitReaction i c id).committedBy j =
      s.committedBy j ++ if i = j then [⟨id, i, c.key, c.added⟩] else [] := by
  unfold committedBy commitReaction
  rw [List.filter_append]
  split <;> simp_all

theorem committed_holds {j : Nat} {d : ReactionCall} {id : Nat} (hc : s.calls[i]? = some c)
    (hd : (s.commitReaction i c id).calls[j]? = some d) (hholds : d.holds = true) :
    j ≠ i ∧ s.calls[j]? = some d := by
  rcases setPhase_call hc hd with ⟨rfl, rfl⟩ | hother
  · simp [ReactionCall.holds] at hholds
  · exact hother

theorem returnedTrue_committed (hc : s.calls[i]? = some c) {id : Nat}
    (hphase : c.phase = .commit (some id)) :
    s.returnedTrue i = false ∧ (s.commitReaction i c id).returnedTrue i = true := by
  constructor
  · unfold returnedTrue
    rw [hc]
    obtain ⟨added, key, now, phase⟩ := c
    cases hphase
    rfl
  · have hcalls : (s.commitReaction i c id).calls =
        (s.setPhase i c (.returned (.ok true))).calls := rfl
    unfold returnedTrue
    rw [hcalls, setPhase_self hc]

theorem committed (h : s.Mirrors) {id : Nat} (hc : s.calls[i]? = some c)
    (hphase : c.phase = .commit (some id)) : (s.commitReaction i c id).Mirrors where
  alternate := by
    intro key
    rw [changes_commit]
    split
    · rename_i hkey
      subst hkey
      rw [List.map_append]
      refine (h.alternate c.key).append ?_
      simp [h.last c.key, h.held i c hc (by simp [ReactionCall.holds, hphase])]
    · simpa using h.alternate key
  last := by
    intro key
    rw [changes_commit, stored_commit]
    split
    · rw [List.map_append]
      exact nextBit_append _ _ _
    · simpa using h.last key
  sorted := by
    intro key
    rw [changes_commit]
    split
    · rename_i hkey
      subst hkey
      rw [List.pairwise_append]
      refine ⟨h.sorted c.key, List.pairwise_singleton _ _, ?_⟩
      intro a ha b hb
      obtain rfl := List.mem_singleton.mp hb
      obtain ⟨hmem, hkey⟩ := List.mem_filter.mp ha
      exact (h.later i c id hc hphase).2 a hmem (by simpa using hkey)
    · simpa using h.sorted key
  drawn := by
    intro r hr
    simp only [commitReaction, List.mem_append, List.mem_singleton] at hr
    rcases hr with hr | rfl
    · exact h.drawn r hr
    · exact (h.later i c id hc hphase).1
  exclusive := by
    intro j k d e hd he hdholds heholds hkey
    obtain ⟨-, hd⟩ := committed_holds hc hd hdholds
    obtain ⟨-, he⟩ := committed_holds hc he heholds
    exact h.exclusive j k d e hd he hdholds heholds hkey
  held := by
    intro j d hd hdholds
    obtain ⟨hj, hd⟩ := committed_holds hc hd hdholds
    rw [stored_commit]
    split
    · rename_i hkey
      have hholds : c.holds = true := by simp [ReactionCall.holds, hphase]
      exact absurd (h.exclusive j i d c hd hc hdholds hholds hkey.symm) hj
    · exact h.held j d hd hdholds
  later := by
    intro j d n hd hdphase
    have hdholds : d.holds = true := by simp [ReactionCall.holds, hdphase]
    obtain ⟨hj, hd⟩ := committed_holds hc hd hdholds
    obtain ⟨hn, hall⟩ := h.later j d n hd hdphase
    refine ⟨hn, fun r hr hkey => ?_⟩
    simp only [commitReaction, List.mem_append, List.mem_singleton] at hr
    rcases hr with hr | rfl
    · exact hall r hr hkey
    · have hholds : c.holds = true := by simp [ReactionCall.holds, hphase]
      exact absurd (h.exclusive j i d c hd hc hdholds hholds hkey.symm) hj
  own := by
    intro j
    rw [committedBy_commit, List.length_append, h.own j]
    by_cases hj : i = j
    · subst hj
      obtain ⟨hbefore, hafter⟩ := returnedTrue_committed hc hphase
      simp [hbefore, hafter]
    · have hsame : (s.commitReaction i c id).returnedTrue j = s.returnedTrue j :=
        returnedTrue_other (Ne.symm hj)
      simp [hsame, hj]
  named := by
    intro r hr
    simp only [commitReaction, List.mem_append, List.mem_singleton] at hr
    rcases hr with hr | rfl
    · obtain ⟨d, hd, hkey, hadded⟩ := h.named r hr
      obtain ⟨e, he, hekey, headded⟩ := setPhase_named hc hd
      exact ⟨e, he, hkey.trans hekey.symm, hadded.trans headded.symm⟩
    · exact ⟨{ c with phase := .returned (.ok true) }, setPhase_self hc, rfl, rfl⟩

theorem effect {events : List (Nat × String × Payload)} (h : s.Mirrors) (he : s.Effect s' events) :
    s'.Mirrors := by
  cases he with
  | saved user => exact h.tables rfl
  | posted message event hnew hauthor => exact h.tables rfl
  | foreign events htopics => exact h
  | began added key now =>
    have hnew : ∀ (j : Nat) (d : ReactionCall),
        (s.calls ++ [⟨added, key, now, .statement⟩])[j]? = some d →
        s.calls[j]? = some d ∨ d = ⟨added, key, now, .statement⟩ ∧ j = s.calls.length := by
      intro j d hd
      rw [List.getElem?_append] at hd
      split at hd
      · exact .inl hd
      · rw [List.getElem?_singleton] at hd
        split at hd
        · exact .inr ⟨(Option.some.inj hd).symm, by omega⟩
        · simp at hd
    exact { h with
      exclusive := by
        intro j k d e hd he hdholds heholds hkey
        rcases hnew j d hd with hd | ⟨rfl, -⟩
        · rcases hnew k e he with he | ⟨rfl, -⟩
          · exact h.exclusive j k d e hd he hdholds heholds hkey
          · simp [ReactionCall.holds] at heholds
        · simp [ReactionCall.holds] at hdholds
      held := by
        intro j d hd hdholds
        rcases hnew j d hd with hd | ⟨rfl, -⟩
        · exact h.held j d hd hdholds
        · simp [ReactionCall.holds] at hdholds
      later := by
        intro j d id hd hdphase
        rcases hnew j d hd with hd | ⟨rfl, -⟩
        · exact h.later j d id hd hdphase
        · simp at hdphase
      own := by
        intro j
        have hsame : returnedTrue
            { s with calls := s.calls ++ [⟨added, key, now, .statement⟩] } j = s.returnedTrue j := by
          unfold returnedTrue
          by_cases hlen : j < s.calls.length
          · rw [List.getElem?_append_left hlen]
          · rw [List.getElem?_append_right (by omega), List.getElem?_singleton,
              List.getElem?_eq_none (by omega)]
            by_cases hzero : j - s.calls.length = 0
            · rw [if_pos hzero]
            · rw [if_neg hzero]
        rw [hsame]
        exact h.own j
      named := by
        intro r hr
        obtain ⟨d, hd, hrest⟩ := h.named r hr
        exact ⟨d, (List.getElem?_append_left (List.getElem?_eq_some_iff.mp hd).1).trans hd, hrest⟩ }
  | changed i c hc hphase hfree hrow hmessage =>
    refine h.moved hc (by simp [hphase]) (by simp) (fun _ => ⟨hrow, ?_⟩) (by simp)
    intro j d hd hdholds hkey
    exact unblocked hfree hd hdholds hkey
  | published i c id hc hphase hid =>
    have hholds : c.holds = true := by simp [ReactionCall.holds, hphase]
    have hraised : ({ s with nextId := id + 1 } : Chat).Mirrors := h.raise (by omega)
    refine hraised.moved hc (by simp [hphase]) (by simp) (fun _ => ⟨h.held i c hc hholds, ?_⟩) ?_
    · intro j d hd hdholds hkey
      exact h.exclusive j i d c hd hc hdholds hholds hkey
    · intro n hn
      cases hn
      refine ⟨Nat.lt_succ_self id, fun r hr _ => ?_⟩
      exact Nat.lt_of_lt_of_le (h.drawn r hr) hid
  | committed i c id hc hphase => exact h.committed hc hphase
  | left i c phase hc hphase hopen =>
    refine h.moved hc hopen ?_ (fun hholds => ?_) ?_
    · rintro rfl
      simp at hphase
    · rcases hphase with rfl | ⟨e, rfl⟩ | rfl <;> simp [ReactionCall.holds] at hholds
    · intro id hid
      subst hid
      simp at hphase

end Mirrors

def inIdOrder (s : Chat) (key : ReactionKey) : List RecordedChange :=
  (s.changes key).insertionSort fun a b => a.id ≤ b.id

theorem Mirrors.inIdOrder_eq {s : Chat} (h : s.Mirrors) (key : ReactionKey) :
    s.inIdOrder key = s.changes key :=
  List.Pairwise.insertionSort_eq ((h.sorted key).imp Nat.le_of_lt)

end Chat

/-- In every interleaving of reaction transactions: the events of one reaction alternate,
the last says whether its row is there, and a call returns `true` exactly when it
committed one. -/
theorem reactions_mirrored {as : List ChatAct} {s : Chat}
    (h : Transition.run Chat.next Chat.init as = some s) :
    (∀ key, Alternates true ((s.inIdOrder key).map RecordedChange.added) ∧
      (((s.inIdOrder key).map RecordedChange.added).getLast? = some true ↔
        (s.db.reactions.find? key).isSome)) ∧
    ∀ (i : Nat) (c : ReactionCall) result, s.calls[i]? = some c → c.phase = .returned result →
      (result = .ok true ↔ (s.committedBy i).length = 1) ∧ (s.committedBy i).length ≤ 1 ∧
        ∀ r ∈ s.committedBy i, r.key = c.key ∧ r.added = c.added := by
  have hstep : ∀ (t : Chat) a t', t.Mirrors → t.next a = some t' → t'.Mirrors := by
    intro t a t' ht hs
    obtain ⟨r, hr, rfl⟩ := Option.map_eq_some_iff.mp hs
    exact ht.effect (Chat.step_effect hr)
  have hm := Transition.run_invariant' hstep Chat.init_mirrors h
  refine ⟨fun key => ?_, fun i c result hc hphase => ?_⟩
  · rw [hm.inIdOrder_eq]
    refine ⟨hm.alternate key, ?_⟩
    have hlast := hm.last key
    rw [nextBit_getLast] at hlast
    change _ ↔ s.stored key = true
    have hsame : s.stored key =
        (((s.changes key).map RecordedChange.added).getLast?.getD false) := by
      simpa using hlast.symm
    rw [hsame]
    cases ((s.changes key).map RecordedChange.added).getLast? with
    | none => simp
    | some b => simp
  · have hown := hm.own i
    have htrue : s.returnedTrue i = true ↔ result = .ok true := by
      unfold Chat.returnedTrue
      obtain ⟨added, key, now, phase⟩ := c
      cases hphase
      rw [hc]
      cases result with
      | error e => simp
      | ok b => cases b <;> simp
    refine ⟨?_, ?_, fun r hr => ?_⟩
    · rw [← htrue, hown]
      cases s.returnedTrue i <;> simp
    · rw [hown]
      split <;> omega
    · obtain ⟨hmem, hcall⟩ := List.mem_filter.mp hr
      obtain ⟨d, hd, hrest⟩ := hm.named r hmem
      rw [of_decide_eq_true hcall, hc] at hd
      cases hd
      exact hrest

namespace Sample

def carol : User :=
  User.new ⟨1⟩ ⟨['c', 'a', 'r', 'o', 'l'], by decide, by decide⟩ ⟨['c', '@', 'b', '.', 'o']⟩ ⟨[]⟩ 0

def heart : ReactionEmoji := ⟨[Char.ofNat 0x2764], by decide, by decide, by decide⟩

def hello (id : MessageId) : ChatMessage :=
  ⟨id, carol.id, .global, ⟨['h', 'i'], by decide, by decide, by decide +kernel⟩, none, 0⟩

def hearted : ReactionKey := ⟨⟨7⟩, carol.id, heart⟩

/-- Two additions and a removal of one reaction at once: the second addition waits for the
first one's commit and finds the row there. -/
def heartRace : List ChatAct :=
  [.saveUser carol, .post (hello ⟨7⟩) 0, .begin true hearted 1, .begin true hearted 2,
    .step 0 0, .step 0 5, .step 0 0, .begin false hearted 3, .step 1 0, .step 2 0, .step 2 9,
    .step 1 0, .step 2 0]

def chatting (as : List ChatAct) : Chat := (Transition.run Chat.next .init as).getD .init

theorem run_chatting {as : List ChatAct} (h : (Transition.run Chat.next .init as).isSome) :
    Transition.run Chat.next .init as = some (chatting as) := by
  obtain ⟨s, hs⟩ := Option.isSome_iff_exists.mp h
  simp [chatting, hs]

end Sample

theorem reactions_mirrored_race :
    let s := Sample.chatting Sample.heartRace
    s.recorded = [⟨5, 0, Sample.hearted, true⟩, ⟨9, 2, Sample.hearted, false⟩] ∧
      ∀ key, Alternates true ((s.inIdOrder key).map RecordedChange.added) ∧
        (((s.inIdOrder key).map RecordedChange.added).getLast? = some true ↔
          (s.db.reactions.find? key).isSome) :=
  ⟨by decide +kernel, (reactions_mirrored (Sample.run_chatting (by decide +kernel))).1⟩

end Betsphere
