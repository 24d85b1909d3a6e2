import Betsphere.Chat.Posting
set_option autoImplicit false

namespace Betsphere

/-- The tables and the open posts, and the messages that the reader has received, as they came. -/
structure CatchUp where
  world : PostWorld
  received : List ChatMessage

inductive CatchUpAct where
  | post (a : PostAct)
  | read

namespace CatchUp

def rows (s : CatchUp) : List ChatMessage := s.world.room.chat.db.messages.rows

section System
variable {κ : Type} [LinearOrder κ] (collate : ReactionEmoji → κ) (channel : ChatChannel)
  (limit : Int)

/-- A read asks for the page after the newest message received. -/
def next (s : CatchUp) : CatchUpAct → Option CatchUp
  | .post a => (a.transact s.world).map fun r => { s with world := r.1 }
  | .read =>
    match ListRecentMessages.page (s.world.reads collate) channel limit
        ⟨none, s.received.getLast?.map ChatMessage.id⟩ with
    | .ok messages => some { s with received := s.received ++ messages }
    | .error _ => some s

/-- What the reader has once it got an empty page, with nobody posting. -/
def caughtUp (s : CatchUp) (fuel : Nat) : Option (Except ApplicationError (List ChatMessage)) :=
  loadForward (ListRecentMessages.page (s.world.reads collate) channel limit) fuel s.received

end System

/-- What is committed in the room comes after what the reader has received. -/
def Ahead (channel : ChatChannel) (s : CatchUp) : CatchUpAct → Prop
  | .post a => ∀ m, a.commits s.world = some m → m.channel = channel →
    ∀ newest, s.received.getLast? = some newest → newest.key < m.key
  | .read => True

/-- The reader has a newest message, and what it has is stored in the room; `old` are the rows
of its first read. -/
structure Reading (channel : ChatChannel) (old : List ChatMessage) (s : CatchUp) : Prop where
  old : ∀ m ∈ old, m ∈ s.rows
  stored : ∀ m ∈ s.received, m ∈ roomOf channel s.rows
  newest : s.received ≠ []

/-- No later row up to the newest message received is missing. -/
def Caught (channel : ChatChannel) (old : List ChatMessage) (s : CatchUp) : Prop :=
  ∀ m ∈ roomOf channel s.rows, m ∉ old → ∀ newest, s.received.getLast? = some newest →
    m.key ≤ newest.key → m ∈ s.received

/-- A later row that the reader has moved past. -/
def Missed (channel : ChatChannel) (old : List ChatMessage) (s : CatchUp) (m : ChatMessage) :
    Prop :=
  m ∈ roomOf channel s.rows ∧ m ∉ old ∧ m ∉ s.received ∧
    ∀ newest, s.received.getLast? = some newest → m.key < newest.key

section Steps
variable {κ : Type} [LinearOrder κ] {collate : ReactionEmoji → κ} {channel : ChatChannel}
  {limit : Int} {s s' : CatchUp} {a : CatchUpAct} {old : List ChatMessage} {m : ChatMessage}

theorem roomOf_split (s : CatchUp) (hm : m ∈ roomOf channel s.rows) :
    ∃ pre, roomOf channel s.rows =
      pre ++ m :: Keyset.newer ChatMessage.key m.key (roomOf channel s.rows) := by
  obtain ⟨pre, post, hroom⟩ := List.append_of_mem hm
  have hrising := roomOf_rising channel s.world.room.chat.db.messages.nodup
  have hnewer : Keyset.newer ChatMessage.key m.key (roomOf channel s.rows) = post := by
    change Keyset.Rising ChatMessage.key (roomOf channel s.rows) at hrising
    rw [hroom] at hrising ⊢
    exact Keyset.newer_split hrising
  exact ⟨pre, by rw [hnewer]; exact hroom⟩

theorem next_read (hlimit : 0 ≤ limit) (h : Reading channel old s)
    (hs : next collate channel limit s .read = some s') :
    ∃ newest, s.received.getLast? = some newest ∧ newest ∈ roomOf channel s.rows ∧
      s' = { s with received := s.received ++
        (Keyset.newer ChatMessage.key newest.key (roomOf channel s.rows)).take limit.toNat } := by
  have hlast := List.getLast?_eq_some_getLast h.newest
  have hmem := h.stored _ (List.getLast_mem h.newest)
  obtain ⟨pre, hroom⟩ := s.roomOf_split hmem
  refine ⟨_, hlast, hmem, ?_⟩
  have hpage := (s.world.pagesOf collate channel hlimit).after pre _ _ hroom
  rw [next, hlast, Option.map_some, hpage] at hs
  exact (Option.some.inj hs).symm

theorem next_post {b : PostAct} (hs : next collate channel limit s (.post b) = some s') :
    s'.received = s.received ∧ s'.rows = s.rows ++ (b.commits s.world).toList ∧
      ∀ m, b.commits s.world = some m → m.id ∉ s.rows.map ChatMessage.id := by
  obtain ⟨r, hr, rfl⟩ := Option.map_eq_some_iff.mp hs
  obtain ⟨hrows, hnew⟩ := PostAct.transact_rows hr
  refine ⟨rfl, hrows, fun m hm hid => ?_⟩
  obtain ⟨q, hq, hqid⟩ := List.mem_map.mp hid
  exact Table.find?_eq_none.mp (hnew m hm) q hq hqid

theorem Reading.next (hlimit : 0 ≤ limit) (h : Reading channel old s)
    (hs : CatchUp.next collate channel limit s a = some s') : Reading channel old s' := by
  cases a with
  | post b =>
    obtain ⟨hreceived, hrows, -⟩ := next_post hs
    refine ⟨fun m hm => ?_, fun m hm => ?_, hreceived ▸ h.newest⟩
    · rw [hrows]
      exact List.mem_append_left _ (h.old m hm)
    · obtain ⟨hstored, hchannel⟩ := mem_roomOf.mp (h.stored m (hreceived ▸ hm))
      rw [mem_roomOf, hrows]
      exact ⟨List.mem_append_left _ hstored, hchannel⟩
  | read =>
    obtain ⟨newest, -, -, rfl⟩ := next_read hlimit h hs
    refine ⟨h.old, fun m hm => ?_, fun hnil => h.newest (List.append_eq_nil_iff.mp hnil).1⟩
    rcases List.mem_append.mp hm with hm | hm
    · exact h.stored m hm
    · exact List.mem_of_mem_filter (List.mem_of_mem_take hm)

theorem getLast?_read {received page : List ChatMessage} {newest : ChatMessage}
    (h : (received ++ page).getLast? = some newest) :
    (page = [] ∧ received.getLast? = some newest) ∨ newest ∈ page := by
  rcases List.eq_nil_or_concat page with rfl | ⟨front, last, rfl⟩
  · rw [List.append_nil] at h
    exact .inl ⟨rfl, h⟩
  · rw [List.concat_eq_append, ← List.append_assoc, List.getLast?_concat] at h
    cases h
    exact .inr (by simp)

theorem Caught.next (hlimit : 0 ≤ limit) (hr : Reading channel old s)
    (h : Caught channel old s) (hok : Ahead channel s a)
    (hs : CatchUp.next collate channel limit s a = some s') : Caught channel old s' := by
  intro m hm hold newest' hlast hle
  cases a with
  | post b =>
    obtain ⟨hreceived, hrows, -⟩ := next_post hs
    obtain ⟨hmem, hchannel⟩ := mem_roomOf.mp hm
    rw [hreceived] at hlast ⊢
    rw [hrows, List.mem_append, Option.mem_toList] at hmem
    rcases hmem with hmem | hcommit
    · exact h m (mem_roomOf.mpr ⟨hmem, hchannel⟩) hold newest' hlast hle
    · exact absurd hle (not_le.mpr (hok m hcommit hchannel newest' hlast))
  | read =>
    obtain ⟨newest, hnewest, hstored, rfl⟩ := next_read hlimit hr hs
    rw [List.mem_append]
    by_cases hbefore : m.key ≤ newest.key
    · exact .inl (h m hm hold newest hnewest hbefore)
    · -- It is behind the old newest message and not behind the new one: it is on the page.
      refine .inr ?_
      rcases getLast?_read hlast with ⟨-, hsame⟩ | hpage
      · rw [hnewest] at hsame
        cases hsame
        exact absurd hle hbefore
      · have hnewer : m ∈ Keyset.newer ChatMessage.key newest.key (roomOf channel s.rows) :=
          List.mem_filter.mpr ⟨hm, by simpa using hbefore⟩
        have hrising := (roomOf_rising channel s.world.room.chat.db.messages.nodup).filter
          fun q => newest.key < q.key
        exact Keyset.Rising.mem_take hrising hpage hnewer hle

theorem Missed.next (hlimit : 0 ≤ limit) (hr : Reading channel old s)
    (h : Missed channel old s m) (hs : CatchUp.next collate channel limit s a = some s') :
    Missed channel old s' m := by
  obtain ⟨hm, hold, hmissing, hpast⟩ := h
  cases a with
  | post b =>
    obtain ⟨hreceived, hrows, -⟩ := next_post hs
    obtain ⟨hmem, hchannel⟩ := mem_roomOf.mp hm
    refine ⟨?_, hold, hreceived ▸ hmissing, hreceived ▸ hpast⟩
    rw [mem_roomOf, hrows]
    exact ⟨List.mem_append_left _ hmem, hchannel⟩
  | read =>
    obtain ⟨newest, hnewest, hstored, rfl⟩ := next_read hlimit hr hs
    have hbehind := hpast newest hnewest
    have hpage : ∀ q ∈ (Keyset.newer ChatMessage.key newest.key (roomOf channel s.rows)).take
        limit.toNat, newest.key < q.key := by
      intro q hq
      simpa using List.of_mem_filter (List.mem_of_mem_take hq)
    refine ⟨hm, hold, fun hin => ?_, fun newest' hlast => ?_⟩
    · rcases List.mem_append.mp hin with hin | hin
      · exact hmissing hin
      · exact absurd (hpage m hin) (not_lt.mpr hbehind.le)
    · rcases getLast?_read hlast with ⟨-, hsame⟩ | hin
      · exact hpast newest' hsame
      · exact hbehind.trans (hpage newest' hin)

theorem missed_of_behind (hr : Reading channel old s)
    (hs : CatchUp.next collate channel limit s a = some s') :
    Ahead channel s a ∨ ∃ m, Missed channel old s' m := by
  by_cases hok : Ahead channel s a
  · exact .inl hok
  · refine .inr ?_
    cases a with
    | read => exact absurd trivial hok
    | post b =>
      simp only [Ahead, not_forall] at hok
      obtain ⟨m, hcommit, hchannel, newest, hnewest, hbehind⟩ := hok
      obtain ⟨hreceived, hrows, hfresh⟩ := next_post hs
      have hnew := hfresh m hcommit
      have hnotin : m ∉ s.rows := fun hmem => hnew (List.mem_map_of_mem hmem)
      refine ⟨m, ?_, fun hold => hnotin (hr.old m hold), fun hin => ?_, fun newest' hlast => ?_⟩
      · rw [mem_roomOf, hrows, hcommit]
        exact ⟨by simp, hchannel⟩
      · rw [hreceived] at hin
        exact hnotin (mem_roomOf.mp (hr.stored m hin)).1
      · rw [hreceived, hnewest] at hlast
        cases hlast
        refine lt_of_le_of_ne (not_lt.mp hbehind) fun heq => ?_
        have hid : m.id = newest.id := ChatMessage.key_id (a := .of newest) heq
        have hmem := (mem_roomOf.mp (hr.stored _ (List.mem_of_getLast? hnewest))).1
        exact hnew (hid ▸ List.mem_map_of_mem hmem)

theorem reading_first {w : PostWorld} {limit : Int} {window : HistoryWindow}
    {first : List ChatMessage}
    (hfirst : ListRecentMessages.page (w.reads collate) channel limit window = .ok first)
    (hne : first ≠ []) : Reading channel w.room.chat.db.messages.rows ⟨w, first⟩ := by
  obtain ⟨cursor, hlist⟩ := ListRecentMessages.page_of hfirst
  exact ⟨fun m hm => hm, fun m hm => mem_roomOf.mpr (mem_listRecentMessages hlist m hm), hne⟩

/-- The reader ends with what it has and everything behind its newest message. -/
theorem Reading.caughtUp (collate : ReactionEmoji → κ) (hlimit : 1 ≤ limit)
    (h : Reading channel old s) {fuel : Nat}
    (hfuel : (roomOf channel s.rows).length < fuel) :
    ∃ newest, s.received.getLast? = some newest ∧ newest ∈ roomOf channel s.rows ∧
      s.caughtUp collate channel limit fuel = some (.ok (s.received ++
        Keyset.newer ChatMessage.key newest.key (roomOf channel s.rows))) := by
  have hlast := List.getLast?_eq_some_getLast h.newest
  have hmem := h.stored _ (List.getLast_mem h.newest)
  refine ⟨_, hlast, hmem, ?_⟩
  generalize hnewest : s.received.getLast h.newest = newest at hmem
  have hreceived : s.received = s.received.dropLast ++ [newest] := by
    rw [← hnewest, List.dropLast_append_getLast]
  obtain ⟨pre, hroom⟩ := s.roomOf_split hmem
  have hpost : (Keyset.newer ChatMessage.key newest.key (roomOf channel s.rows)).length < fuel :=
    (List.length_filter_le _ _).trans_lt hfuel
  have hpages := s.world.pagesOf collate channel (by omega : 0 ≤ limit)
  have hall := hpages.loadForward_room (by omega) hroom hpost s.received.dropLast
  have hend : s.received ++ Keyset.newer ChatMessage.key newest.key (roomOf channel s.rows) =
      s.received.dropLast ++ newest ::
        Keyset.newer ChatMessage.key newest.key (roomOf channel s.rows) := by
    conv_lhs => rw [hreceived]
    simp
  rw [hend, CatchUp.caughtUp]
  conv_lhs => rw [hreceived]
  exact hall

end Steps

end CatchUp

/-- A reader that pages forwards until a page is empty ends with everything committed since its
first read, exactly if every commit came after the newest message it then had. -/
theorem catches_up {κ : Type} [LinearOrder κ] (collate : ReactionEmoji → κ)
    (channel : ChatChannel) {limit limit₀ : Int} (hlimit : 1 ≤ limit) {w₀ : PostWorld}
    {window : HistoryWindow} {first : List ChatMessage}
    (hfirst : ListRecentMessages.page (w₀.reads collate) channel limit₀ window = .ok first)
    (hne : first ≠ []) {as : List CatchUpAct} {s : CatchUp}
    (h : Transition.run (CatchUp.next collate channel limit) ⟨w₀, first⟩ as = some s) :
    (∃ received, (∀ fuel, (roomOf channel s.rows).length < fuel →
        s.caughtUp collate channel limit fuel = some (.ok received)) ∧
      ∀ m ∈ s.rows, m.channel = channel → m ∉ w₀.room.chat.db.messages.rows → m ∈ received) ↔
      Transition.Guarded (CatchUp.next collate channel limit) (CatchUp.Ahead channel)
        ⟨w₀, first⟩ as := by
  have hlimit' : 0 ≤ limit := by omega
  have hreading := CatchUp.reading_first hfirst hne
  have hkeep : ∀ (t : CatchUp) a t', CatchUp.Reading channel w₀.room.chat.db.messages.rows t →
      CatchUp.next collate channel limit t a = some t' →
        CatchUp.Reading channel w₀.room.chat.db.messages.rows t' :=
    fun _ _ _ hr hs => hr.next hlimit' hs
  constructor
  · rintro ⟨received, hcaught, hall⟩
    have hbad : ∀ (t : CatchUp) a t',
        CatchUp.Reading channel w₀.room.chat.db.messages.rows t ∧
          (∃ m, CatchUp.Missed channel w₀.room.chat.db.messages.rows t m) →
        CatchUp.next collate channel limit t a = some t' →
        CatchUp.Reading channel w₀.room.chat.db.messages.rows t' ∧
          ∃ m, CatchUp.Missed channel w₀.room.chat.db.messages.rows t' m := by
      rintro t a t' ⟨hr, m, hm⟩ hs
      exact ⟨hkeep t a t' hr hs, m, hm.next hlimit' hr hs⟩
    refine Transition.guarded_of_end (fun t a t' hr _ hs => hkeep t a t' hr hs)
      (fun t a t' hr _ hs => ?_) (fun t a t' hb _ hs => hbad t a t' hb hs) hreading
      (Transition.guarded_true _ _) h ?_
    · rcases CatchUp.missed_of_behind hr hs with hok | hm
      · exact .inl hok
      · exact .inr ⟨hkeep t a t' hr hs, hm⟩
    · -- A missed message is neither among those received nor behind the newest of them.
      rintro ⟨hr, m, hm, hold, hmissing, hpast⟩
      obtain ⟨newest, hlast, -, hresult⟩ := hr.caughtUp collate hlimit
        (Nat.lt_succ_self (roomOf channel s.rows).length)
      obtain ⟨hstored, hchannel⟩ := mem_roomOf.mp hm
      have hmem := hall m hstored hchannel hold
      rw [hcaught _ (Nat.lt_succ_self _)] at hresult
      cases hresult
      rcases List.mem_append.mp hmem with hmem | hmem
      · exact hmissing hmem
      · have hlt : newest.key < m.key := by simpa using List.of_mem_filter hmem
        exact absurd hlt (not_lt.mpr (hpast newest hlast).le)
  · intro hg
    have hend := Transition.run_invariant (fun t a t' hi hok hs =>
      (⟨hkeep t a t' hi.1 hs, CatchUp.Caught.next hlimit' hi.1 hi.2 hok hs⟩ :
        CatchUp.Reading channel w₀.room.chat.db.messages.rows t' ∧
          CatchUp.Caught channel w₀.room.chat.db.messages.rows t'))
      ⟨hreading, fun m hm hold => absurd (mem_roomOf.mp hm).1 hold⟩ hg h
    obtain ⟨newest, hlast, -, -⟩ := hend.1.caughtUp collate hlimit
      (Nat.lt_succ_self (roomOf channel s.rows).length)
    refine ⟨s.received ++ Keyset.newer ChatMessage.key newest.key (roomOf channel s.rows),
      fun fuel hfuel => ?_, fun m hm hchannel hold => ?_⟩
    · obtain ⟨newest', hlast', -, hresult⟩ := hend.1.caughtUp collate hlimit hfuel
      rw [hlast] at hlast'
      cases hlast'
      exact hresult
    · have hroom : m ∈ roomOf channel s.rows := mem_roomOf.mpr ⟨hm, hchannel⟩
      by_cases hle : m.key ≤ newest.key
      · exact List.mem_append_left _ (hend.2 m hroom hold newest hlast hle)
      · refine List.mem_append_right _ (List.mem_filter.mpr ⟨hroom, ?_⟩)
        simpa using hle

namespace Sample

def posted (as : List PostAct) : PostWorld :=
  (Transition.run (fun w a => (PostAct.transact a w).map Prod.fst) .init as).getD .init

def atTime (now : DateTime) (fresh : Uuid) : PostEnv := ⟨none, now, fresh, fresh.toNat⟩

def oneMessage : PostWorld :=
  posted [.other (.saveUser carol), .call carol.id .global ['h', 'i'] none, .step 0 (atTime 1 7),
    .step 0 (atTime 1 7)]

def followed : List CatchUpAct :=
  [.post (.call carol.id .global ['h', 'o'] none), .post (.step 1 (atTime 2 8)),
    .post (.step 1 (atTime 2 8)), .read, .post (.call carol.id .global ['h', 'a'] none),
    .post (.step 2 (atTime 3 9)), .post (.step 2 (atTime 3 9)), .read]

/-- The first post is built before the second and committed after it was read. -/
def overtakenCommit : List CatchUpAct :=
  [.post (.call carol.id .global ['h', 'o'] none), .post (.step 1 (atTime 2 8)),
    .post (.call carol.id .global ['h', 'a'] none), .post (.step 2 (atTime 3 9)),
    .post (.step 2 (atTime 3 9)), .read, .post (.step 1 (atTime 2 8)), .read]

def firstPage : List ChatMessage := roomOf .global oneMessage.room.chat.db.messages.rows

def catching (as : List CatchUpAct) : CatchUp :=
  (Transition.run (CatchUp.next codePoints .global 50) ⟨oneMessage, firstPage⟩ as).getD
    ⟨oneMessage, firstPage⟩

theorem run_catching {as : List CatchUpAct}
    (h : (Transition.run (CatchUp.next codePoints .global 50) ⟨oneMessage, firstPage⟩ as).isSome) :
    Transition.run (CatchUp.next codePoints .global 50) ⟨oneMessage, firstPage⟩ as =
      some (catching as) := by
  obtain ⟨s, hs⟩ := Option.isSome_iff_exists.mp h
  simp [catching, hs]

end Sample

open Sample in
theorem catches_up_followed :
    (∃ received, (∀ fuel, (roomOf .global (catching followed).rows).length < fuel →
        (catching followed).caughtUp codePoints .global 50 fuel = some (.ok received)) ∧
      ∀ m ∈ (catching followed).rows, m.channel = .global →
        m ∉ oneMessage.room.chat.db.messages.rows → m ∈ received) ↔
      Transition.Guarded (CatchUp.next codePoints .global 50) (CatchUp.Ahead .global)
        ⟨oneMessage, firstPage⟩ followed :=
  have hfirst : ListRecentMessages.page (oneMessage.reads codePoints) .global 50 ⟨none, none⟩ =
      .ok firstPage := rfl
  catches_up codePoints .global (by decide) hfirst (by decide +kernel)
    (run_catching (by decide +kernel))

open Sample in
/-- The second message of the room is never received. -/
theorem catch_up_misses :
    ¬∀ as s, Transition.run (CatchUp.next codePoints .global 50) ⟨oneMessage, firstPage⟩ as =
        some s → ∃ received, (∀ fuel, (roomOf .global s.rows).length < fuel →
          s.caughtUp codePoints .global 50 fuel = some (.ok received)) ∧
        ∀ m ∈ s.rows, m.channel = .global → m ∉ oneMessage.room.chat.db.messages.rows →
          m ∈ received := by
  intro h
  obtain ⟨received, hcaught, hall⟩ :=
    h overtakenCommit (catching overtakenCommit) (run_catching (by decide +kernel))
  have hids : (catching overtakenCommit).caughtUp codePoints .global 50 4 = some (.ok
      (catching overtakenCommit).received) := by rfl
  rw [hcaught 4 (by decide +kernel)] at hids
  cases hids
  have hlost : ∃ m ∈ (catching overtakenCommit).rows, m.channel = .global ∧
      m ∉ oneMessage.room.chat.db.messages.rows ∧ m ∉ (catching overtakenCommit).received := by
    decide +kernel
  obtain ⟨m, hm, hchannel, hold, hmissing⟩ := hlost
  exact hmissing (hall m hm hchannel hold)

end Betsphere
