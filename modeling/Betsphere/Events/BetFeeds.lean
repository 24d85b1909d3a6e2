import Betsphere.Events.Duties
import Betsphere.Ws.Frames
set_option autoImplicit false

namespace Betsphere
open MachineInt

def BetPlaced.fromValue : Payload → Except String BetId
  | .event (.betPlaced betId) => .ok betId
  | _ => .error "invalid value"

def BetPlacedBroadcast.feeds (b : BetPlacedBroadcast) : List BetFeed :=
  [.market b.marketId, .global]

/-- The betting system and what was published to the bet feeds, oldest first. -/
structure BetWorld where
  sys : Sys
  published : List (BetFeed × BetPlacedBroadcast)

inductive BetPhase where
  | find (betId : BetId)
  | publish (feeds : List BetFeed) (broadcast : BetPlacedBroadcast)
  | elsewhere

namespace BetPlacedBroadcaster

def begin : Payload → Except DeliveryError BetPhase :=
  typedHandler "bet.placed" BetPlaced.fromValue .find

def handle (x : Await) (w : BetWorld) : BetPhase → BetWorld × (BetPhase ⊕ Except String Unit)
  | .find betId =>
    match x.failure with
    | some e => (w, .inr (.error ("could not find bet " ++ toString betId ++ ": " ++ e)))
    | none =>
      match w.sys.db.bets.find? betId with
      | none => (w, .inr (.ok ()))
      | some bet => (w, .inl (.publish bet.broadcast.feeds bet.broadcast))
  | .publish [] _ => (w, .inr (.ok ()))
  | .publish (feed :: feeds) b =>
    let w := if x.reaches then { w with published := w.published ++ [(feed, b)] } else w
    match x.outcome ("could not broadcast bet " ++ toString b.id), feeds with
    | .error e, _ => (w, .inr (.error e))
    | .ok _, [] => (w, .inr (.ok ()))
    | .ok _, feeds => (w, .inl (.publish feeds b))
  | .elsewhere => (w, .inr (x.outcome "handler failed"))

end BetPlacedBroadcaster

/-- The transactions are those of the price channels, which the betting system commits. -/
def BetWorld.transact (build : Build) (c : PriceChange) (w : BetWorld) :
    Option (BetWorld × List (Nat × String × Payload)) :=
  (c.transact build ⟨w.sys, []⟩).map fun r => ({ w with sys := r.1.sys }, r.2)

def betService (build : Build) : Service BetWorld PriceChange Await Payload BetPhase where
  transact := BetWorld.transact build
  registry := Registry.withHandler [] "user.balance_changed" (fun _ => .ok .elsewhere)
    |>.withHandler "bet.placed" BetPlacedBroadcaster.begin
    |>.withHandler "market.prices_updated" (fun _ => .ok .elsewhere)
    |>.withHandler "chat.message_posted" (fun _ => .ok .elsewhere)
    |>.withHandler "chat.reaction_changed" (fun _ => .ok .elsewhere)
  step := BetPlacedBroadcaster.handle

def Db.Announces (db : Db) (b : BetPlacedBroadcast) : Prop :=
  ∃ bet ∈ db.bets.rows, bet.broadcast = b

theorem broadcast_settledRow (settled : List Bet) (b : Bet) :
    (settledRow settled b).broadcast = b.broadcast := by
  unfold settledRow
  split <;> rfl

theorem Write.Done.announces {db db' : Db} {w : Write} {now : DateTime} (h : w.Done db now db') :
    ∃ events, db'.outbox = db.outbox ++ events ∧
      (∀ b, db.Announces b → db'.Announces b) ∧
      (∀ b, db'.Announces b → db.Announces b ∨ .betPlaced b.id ∈ events) ∧
      ∀ id, .betPlaced id ∈ events → ∃ b, db'.Announces b ∧ b.id = id := by
  cases h with
  | create market outcomes at' hen =>
    exact ⟨[], by simp [Db.created], fun b hb => hb, fun b hb => .inl hb, by simp⟩
  | place bet priced points hen =>
    have hrows : (db.placed bet priced points now).bets.rows = db.bets.rows ++ [bet] :=
      rows_bets_placed hen
    refine ⟨placeEvents bet, rfl, fun b hb => ?_, fun b hb => ?_, fun id hid => ?_⟩
    · obtain ⟨old, hold, rfl⟩ := hb
      exact ⟨old, by rw [hrows]; exact List.mem_append_left _ hold, rfl⟩
    · obtain ⟨new, hnew, rfl⟩ := hb
      rw [hrows, List.mem_append, List.mem_singleton] at hnew
      rcases hnew with hold | rfl
      · exact .inl ⟨new, hold, rfl⟩
      · exact .inr (by simp [placeEvents, Bet.broadcast])
    · have heq : bet.id = id := by simpa [placeEvents, eq_comm] using hid
      exact ⟨bet.broadcast, ⟨bet, by rw [hrows]; simp, rfl⟩, heq⟩
  | settle market settled hin =>
    refine ⟨_, rfl, fun b hb => ?_, fun b hb => .inl ?_, by simp⟩
    · obtain ⟨old, hold, rfl⟩ := hb
      exact ⟨_, List.mem_map_of_mem hold, broadcast_settledRow settled old⟩
    · obtain ⟨new, hnew, rfl⟩ := hb
      obtain ⟨old, hold, rfl⟩ := List.mem_map.mp hnew
      exact ⟨old, hold, (broadcast_settledRow settled old).symm⟩
  | save cause user hun =>
    exact ⟨[], by simp [Db.saved], fun b hb => hb, fun b hb => .inl hb, by simp⟩

theorem Sys.Wf.announces {build : Build} {s s' : Sys} {a : Act} (hwf : s.Wf)
    (hs : s.step build a = some s') : ∃ events, s'.db.outbox = s.db.outbox ++ events ∧
      (∀ b, s.db.Announces b → s'.db.Announces b) ∧
      (∀ b, s'.db.Announces b → s.db.Announces b ∨ .betPlaced b.id ∈ events) ∧
      ∀ id, .betPlaced id ∈ events → ∃ b, s'.db.Announces b ∧ b.id = id := by
  rcases hwf.tables (Sys.step_effect hs) with ⟨hdb, -⟩ | ⟨w, now, hok, hdone, -⟩
  · rw [hdb]
    exact ⟨[], by simp, fun b hb => hb, fun b hb => .inl hb, by simp⟩
  · exact hdone.announces

theorem BetWorld.transact_cases {build : Build} {c : PriceChange} {w w' : BetWorld}
    {events : List (Nat × String × Payload)} (hwf : w.sys.Wf)
    (h : w.transact build c = some (w', events)) :
    w'.published = w.published ∧ w'.sys.Wf ∧
      (∀ b, w.sys.db.Announces b → w'.sys.db.Announces b) ∧
      (∀ b, w'.sys.db.Announces b → w.sys.db.Announces b ∨
        ∃ e ∈ events, e.2 = ("bet.placed", .event (.betPlaced b.id))) ∧
      ∀ e ∈ events, e.2.1 = "bet.placed" →
        ∃ b, w'.sys.db.Announces b ∧ e.2.2 = .event (.betPlaced b.id) := by
  obtain ⟨⟨after, events'⟩, hc, heq⟩ := Option.map_eq_some_iff.mp h
  obtain ⟨rfl, rfl⟩ := Prod.mk.inj heq
  cases c with
  | sys a ids =>
    simp only [PriceChange.transact] at hc
    cases hs : w.sys.step build a with
    | none => simp [hs] at hc
    | some s' =>
      obtain ⟨recorded, houtbox, hkeep, hnew, hnamed⟩ := hwf.announces hs
      have hdrop : s'.db.outbox.drop w.sys.db.outbox.length = recorded := by
        rw [houtbox, List.drop_left]
      simp only [hs, hdrop] at hc
      split at hc
      · rename_i hlen
        cases hc
        refine ⟨rfl, hwf.effect (Sys.step_effect hs), hkeep, fun b hb => ?_, fun e he htopic => ?_⟩
        · refine (hnew b hb).imp_right fun hmem => ?_
          rw [← List.map_snd_zip hlen.ge] at hmem
          obtain ⟨x, hx, hev⟩ := List.mem_map.mp hmem
          refine ⟨_, List.mem_map_of_mem hx, ?_⟩
          rw [Event.queue, hev]
          rfl
        · obtain ⟨x, hx, rfl⟩ := List.mem_map.mp he
          have hmem := (List.of_mem_zip hx).2
          obtain ⟨n, ev⟩ := x
          cases ev with
          | betPlaced id =>
            obtain ⟨b, hb, rfl⟩ := hnamed id hmem
            exact ⟨b, hb, rfl⟩
          | userBalanceChanged id => simp [Event.queue, Event.topic] at htopic
          | marketPricesUpdated id => simp [Event.queue, Event.topic] at htopic
      · simp at hc
  | other foreign =>
    simp only [PriceChange.transact] at hc
    split at hc
    · rename_i hall
      cases hc
      refine ⟨rfl, hwf, fun b hb => hb, fun b hb => .inl hb, fun e he htopic => ?_⟩
      obtain ⟨f, hf, rfl⟩ := List.mem_map.mp he
      have hforeign : f.2.1 ∉ ownTopics := by simpa using List.all_eq_true.mp hall f hf
      have hsame : f.2.1 = "bet.placed" := htopic
      exact absurd (by simp [hsame, ownTopics]) hforeign
    · simp at hc

def BetWorld.Carries (w : BetWorld) (feeds : List BetFeed) (b : BetPlacedBroadcast) : Prop :=
  (feeds.map fun feed => (feed, b)).Sublist w.published

def betFacts : Facts BetWorld Payload BetPhase where
  inv w := w.sys.Wf ∧ ∀ e ∈ w.published, w.sys.db.Announces e.2 ∧ e.1 ∈ e.2.feeds
  named w topic payload :=
    topic = "bet.placed" → ∃ b, w.sys.db.Announces b ∧ payload = .event (.betPlaced b.id)
  fits w topic payload phase :=
    match phase with
    | .find betId => ∃ b, w.sys.db.Announces b ∧ b.id = betId ∧ payload = .event (.betPlaced betId)
    | .publish feeds b => w.sys.db.Announces b ∧ payload = .event (.betPlaced b.id) ∧
        ∃ sent, sent ++ feeds = b.feeds ∧ w.Carries sent b
    | .elsewhere => topic ≠ "bet.placed"

def betDuty : Duty BetWorld Payload where
  covers topic := topic = "bet.placed"
  recorded w topic payload :=
    topic = "bet.placed" ∧ ∃ b, w.sys.db.Announces b ∧ payload = .event (.betPlaced b.id)
  done w _ payload :=
    ∃ b, w.sys.db.Announces b ∧ payload = .event (.betPlaced b.id) ∧ w.Carries b.feeds b

theorem Bet.find_of_announces {db : Db} {b : BetPlacedBroadcast} (h : db.Announces b) :
    ∃ bet, db.bets.find? b.id = some bet ∧ bet.broadcast = b := by
  obtain ⟨bet, hbet, rfl⟩ := h
  exact ⟨bet, Table.find?_of_mem hbet, rfl⟩

theorem betFacts_grows {w w' : BetWorld}
    (hbets : ∀ b, w.sys.db.Announces b → w'.sys.db.Announces b)
    (hpub : w.published <+: w'.published) : betFacts.Grows w w' where
  named := by
    intro topic payload hnamed htopic
    obtain ⟨b, hb, hpayload⟩ := hnamed htopic
    exact ⟨b, hbets b hb, hpayload⟩
  fits := by
    intro topic payload phase hfits
    cases phase with
    | find betId =>
      obtain ⟨b, hb, hrest⟩ := hfits
      exact ⟨b, hbets b hb, hrest⟩
    | publish feeds b =>
      obtain ⟨hb, hpayload, sent, hsent, hcarries⟩ := hfits
      exact ⟨hbets b hb, hpayload, sent, hsent, hcarries.trans hpub.sublist⟩
    | elsewhere => exact hfits

theorem betDuty_grows {w w' : BetWorld}
    (hbets : ∀ b, w.sys.db.Announces b → w'.sys.db.Announces b)
    (hpub : w.published <+: w'.published) {topic : String} {payload : Payload}
    (h : betDuty.done w topic payload) : betDuty.done w' topic payload := by
  obtain ⟨b, hb, hpayload, hcarries⟩ := h
  exact ⟨b, hbets b hb, hpayload, hcarries.trans hpub.sublist⟩

/-- One await of a handler: it publishes to one feed at most, and a call that returns has
published to all of them. -/
structure BetPhase.Handled (phase : BetPhase) (w w' : BetWorld)
    (r : BetPhase ⊕ Except String Unit) : Prop where
  sys : w'.sys = w.sys
  published : w.published <+: w'.published
  announced : ∀ {topic payload}, betFacts.fits w topic payload phase →
    ∀ e ∈ w'.published, e ∈ w.published ∨ w.sys.db.Announces e.2 ∧ e.1 ∈ e.2.feeds
  fits : ∀ {topic payload}, betFacts.fits w topic payload phase →
    ∀ phase', r = .inl phase' → betFacts.fits w' topic payload phase'
  done : ∀ {topic payload}, betFacts.fits w topic payload phase →
    topic = "bet.placed" → r = .inr (.ok ()) → betDuty.done w' topic payload

namespace BetPlacedBroadcaster
variable {x : Await} {w w' : BetWorld} {r : BetPhase ⊕ Except String Unit}

theorem find_handled {betId : BetId} (h : handle x w (.find betId) = (w', r)) :
    (BetPhase.find betId).Handled w w' r := by
  simp only [handle] at h
  cases hf : x.failure with
  | some e =>
    simp only [hf, Prod.mk.injEq] at h
    obtain ⟨rfl, rfl⟩ := h
    exact ⟨rfl, List.prefix_refl _, fun _ e he => .inl he, by simp, by simp⟩
  | none =>
    cases hbet : w.sys.db.bets.find? betId with
    | none =>
      simp only [hf, hbet, Prod.mk.injEq] at h
      obtain ⟨rfl, rfl⟩ := h
      refine ⟨rfl, List.prefix_refl _, fun _ e he => .inl he, by simp, fun hfits _ _ => ?_⟩
      obtain ⟨b, hb, rfl, -⟩ := hfits
      obtain ⟨bet, hfound, -⟩ := Bet.find_of_announces hb
      simp [hbet] at hfound
    | some bet =>
      simp only [hf, hbet, Prod.mk.injEq] at h
      obtain ⟨rfl, rfl⟩ := h
      refine ⟨rfl, List.prefix_refl _, fun _ e he => .inl he, fun hfits phase' hphase => ?_,
        by simp⟩
      obtain ⟨b, hb, rfl, hpayload⟩ := hfits
      obtain ⟨bet', hfound, rfl⟩ := Bet.find_of_announces hb
      obtain rfl : bet = bet' := Option.some.inj (hbet.symm.trans hfound)
      cases hphase
      exact ⟨hb, hpayload, [], rfl, List.nil_sublist _⟩

theorem feed_announced {topic : String} {payload : Payload} {feed : BetFeed} {feeds : List BetFeed}
    {b : BetPlacedBroadcast} (hfits : betFacts.fits w topic payload (.publish (feed :: feeds) b))
    {e : BetFeed × BetPlacedBroadcast} (he : e ∈ w.published ++ [(feed, b)]) :
    e ∈ w.published ∨ w.sys.db.Announces e.2 ∧ e.1 ∈ e.2.feeds := by
  obtain ⟨hb, -, sent, hsent, -⟩ := hfits
  rw [List.mem_append, List.mem_singleton] at he
  refine he.imp_right fun heq => ?_
  rw [heq]
  exact ⟨hb, by simp [← hsent]⟩

theorem sent_fits {topic : String} {payload : Payload} {feed : BetFeed} {feeds : List BetFeed}
    {b : BetPlacedBroadcast} (hfits : betFacts.fits w topic payload (.publish (feed :: feeds) b)) :
    betFacts.fits { w with published := w.published ++ [(feed, b)] } topic payload
      (.publish feeds b) := by
  obtain ⟨hb, hpayload, sent, hsent, hcarries⟩ := hfits
  refine ⟨hb, hpayload, sent ++ [feed], by rw [← hsent]; simp, ?_⟩
  unfold BetWorld.Carries
  rw [List.map_append]
  exact hcarries.append (List.Sublist.refl _)

theorem done_of_fits {topic : String} {payload : Payload} {b : BetPlacedBroadcast}
    (hfits : betFacts.fits w topic payload (.publish [] b)) : betDuty.done w topic payload := by
  obtain ⟨hb, hpayload, sent, hsent, hcarries⟩ := hfits
  rw [List.append_nil] at hsent
  exact ⟨b, hb, hpayload, hsent ▸ hcarries⟩

theorem publish_handled {feed : BetFeed} {feeds : List BetFeed} {b : BetPlacedBroadcast}
    (h : handle x w (.publish (feed :: feeds) b) = (w', r)) :
    (BetPhase.publish (feed :: feeds) b).Handled w w' r := by
  simp only [handle] at h
  cases hf : x.failure with
  | some e =>
    simp only [Await.outcome, hf, Prod.mk.injEq] at h
    obtain ⟨rfl, rfl⟩ := h
    refine ⟨by split <;> rfl, ?_, fun hfits e' he => ?_, by simp, by simp⟩
    · split
      · exact List.prefix_append _ _
      · exact List.prefix_refl _
    · split at he
      · exact feed_announced hfits he
      · exact .inl he
  | none =>
    have hreach : x.reaches = true := by simp [Await.reaches, hf]
    simp only [Await.outcome, hf, hreach, if_true] at h
    cases feeds with
    | nil =>
      obtain ⟨rfl, rfl⟩ := Prod.mk.inj h
      exact ⟨rfl, List.prefix_append _ _, fun hfits e he => feed_announced hfits he, by simp,
        fun hfits _ _ => done_of_fits (sent_fits hfits)⟩
    | cons next rest =>
      obtain ⟨rfl, rfl⟩ := Prod.mk.inj h
      refine ⟨rfl, List.prefix_append _ _, fun hfits e he => feed_announced hfits he,
        fun hfits phase' hphase => ?_, by simp⟩
      cases hphase
      exact sent_fits hfits

theorem handled {phase : BetPhase} (h : handle x w phase = (w', r)) : phase.Handled w w' r := by
  cases phase with
  | find betId => exact find_handled h
  | publish feeds b =>
    cases feeds with
    | nil =>
      simp only [handle, Prod.mk.injEq] at h
      obtain ⟨rfl, rfl⟩ := h
      exact ⟨rfl, List.prefix_refl _, fun _ e he => .inl he, by simp,
        fun hfits _ _ => done_of_fits hfits⟩
    | cons feed feeds => exact publish_handled h
  | elsewhere =>
    simp only [handle, Prod.mk.injEq] at h
    obtain ⟨rfl, rfl⟩ := h
    exact ⟨rfl, List.prefix_refl _, fun _ e he => .inl he, by simp,
      fun hfits htopic _ => absurd htopic hfits⟩

end BetPlacedBroadcaster

section Runs
variable {build : Build} {ι : Type}

theorem betService_handler {topic : String} {handler : Payload → Except DeliveryError BetPhase}
    (h : handler ∈ (betService build).registry.get topic) :
    topic = "bet.placed" ∧ handler = BetPlacedBroadcaster.begin ∨
      topic ≠ "bet.placed" ∧ handler = fun _ => .ok .elsewhere := by
  obtain ⟨entry, hentry, rfl⟩ := List.mem_map.mp h
  obtain ⟨hmem, htopic⟩ := List.mem_filter.mp hentry
  have heq : entry.1 = topic := of_decide_eq_true htopic
  simp only [betService, Registry.withHandler, List.nil_append, List.cons_append,
    List.mem_cons, List.not_mem_nil, or_false] at hmem
  rcases hmem with rfl | rfl | rfl | rfl | rfl
  · exact .inr ⟨by simp [← heq], rfl⟩
  · exact .inl ⟨heq.symm, rfl⟩
  · exact .inr ⟨by simp [← heq], rfl⟩
  · exact .inr ⟨by simp [← heq], rfl⟩
  · exact .inr ⟨by simp [← heq], rfl⟩

theorem betFacts_kept (build : Build) : betFacts.Kept (betService build) where
  transact := by
    intro c w w' events hinv h
    obtain ⟨hpub, hwf, hkeep, -, hnamed⟩ := BetWorld.transact_cases hinv.1 h
    refine ⟨⟨hwf, fun e he => ?_⟩, betFacts_grows hkeep (hpub ▸ List.prefix_refl _),
      fun e he htopic => hnamed e he htopic⟩
    obtain ⟨hb, hfeed⟩ := hinv.2 e (hpub ▸ he)
    exact ⟨hkeep _ hb, hfeed⟩
  started := by
    intro topic payload w handler phase hnamed hmem hphase
    rcases betService_handler hmem with ⟨htopic, rfl⟩ | ⟨htopic, rfl⟩
    · obtain ⟨b, hb, rfl⟩ := hnamed htopic
      cases hphase
      exact ⟨b, hb, rfl, rfl⟩
    · cases hphase
      exact htopic
  step := by
    intro topic payload x w w' phase r hinv hfits h
    have hone := BetPlacedBroadcaster.handled h
    refine ⟨⟨hone.sys ▸ hinv.1, fun e he => ?_⟩,
      betFacts_grows (fun b hb => hone.sys ▸ hb) hone.published, hone.fits hfits⟩
    rw [hone.sys]
    exact (hone.announced hfits e he).elim (hinv.2 e) id

theorem betDuty_kept (build : Build) : betDuty.Kept betFacts (betService build) where
  handled := by
    rintro topic rfl
    exact List.cons_ne_nil _ _
  decoded := by
    intro topic payload w handler e htopic hnamed hmem herror
    obtain ⟨b, -, rfl⟩ := hnamed htopic
    rcases betService_handler hmem with ⟨-, rfl⟩ | ⟨hne, -⟩
    · cases herror
    · exact hne htopic
  transact := by
    intro c w w' events hinv h
    obtain ⟨hpub, -, hkeep, hnew, -⟩ := BetWorld.transact_cases hinv.1 h
    refine ⟨fun topic payload => betDuty_grows hkeep (hpub ▸ List.prefix_refl _),
      fun topic payload hrec => ?_⟩
    obtain ⟨rfl, b, hb, rfl⟩ := hrec
    exact (hnew b hb).imp_left fun hold => ⟨rfl, b, hold, rfl⟩
  step := by
    intro x w w' phase r h
    have hone := BetPlacedBroadcaster.handled h
    refine ⟨fun topic payload => betDuty_grows (fun b hb => hone.sys ▸ hb) hone.published,
      fun topic payload hrec => ?_⟩
    obtain ⟨htopic, b, hb, hpayload⟩ := hrec
    exact ⟨htopic, b, hone.sys ▸ hb, hpayload⟩
  returns := by
    intro topic payload x w w' phase htopic hinv hfits h
    exact (BetPlacedBroadcaster.handled h).done hfits htopic rfl

def BetWorld.init : BetWorld := ⟨.init, []⟩

/-- In every run, a stored bet whose event is not pending went out on its market's feed and
then on the global one; and nothing goes out but stored bets, on their own feeds. -/
theorem bets_reach_feeds [DecidableEq ι] {as : List (Outbox.Act PriceChange Await ι)}
    {s : Outbox BetWorld Payload BetPhase ι}
    (h : Transition.run (Outbox.step (betService build)) (.init .init) as = some s) :
    (∀ bet ∈ s.world.sys.db.bets.rows,
      (∀ r ∈ s.rows.rows, r.topic = "bet.placed" → r.payload = .event (.betPlaced bet.id) →
        r.processedAt ≠ none) →
      [(.market bet.marketId, bet.broadcast), (.global, bet.broadcast)].Sublist
        s.world.published) ∧
    ∀ e ∈ s.world.published, ∃ bet ∈ s.world.sys.db.bets.rows, e.2 = bet.broadcast ∧
      (e.1 = .market bet.marketId ∨ e.1 = .global) := by
  have hinit : betFacts.inv .init := ⟨Sys.wf_init, by simp [BetWorld.init]⟩
  have hnone : ∀ topic payload, betDuty.covers topic →
      ¬betDuty.recorded BetWorld.init topic payload := by
    rintro topic payload - ⟨-, b, ⟨bet, hbet, -⟩, -⟩
    simp [BetWorld.init, Sys.init, Db.empty] at hbet
  obtain ⟨-, hfacts, hdone⟩ :=
    Duty.Done.run (betDuty_kept build) (betFacts_kept build) hinit hnone h
  refine ⟨fun bet hbet hprocessed => ?_, fun e he => ?_⟩
  · rcases hdone.pending "bet.placed" (.event (.betPlaced bet.id)) rfl
      ⟨rfl, bet.broadcast, ⟨bet, hbet, rfl⟩, rfl⟩ with
      ⟨b, ⟨bet', hbet', rfl⟩, hid, hcarries⟩ | ⟨r, hr, htopic, hpayload, hpending⟩
    · simp only [Payload.event.injEq, Event.betPlaced.injEq] at hid
      obtain rfl : bet = bet' := s.world.sys.db.bets.eq_of_key hbet hbet' hid
      exact hcarries
    · exact absurd hpending (hprocessed r hr htopic hpayload)
  · obtain ⟨⟨bet, hbet, heq⟩, hfeed⟩ := hfacts.world.2 e he
    refine ⟨bet, hbet, heq.symm, ?_⟩
    rw [← heq] at hfeed
    simpa [BetPlacedBroadcast.feeds, Bet.broadcast] using hfeed

end Runs

namespace Sample

/-- Alice's bet has gone out on its market's feed when a publish fails and the pass is rolled
back; a second processor delivers it. -/
def retriedBet : List (Outbox.Act PriceChange Await Bool) :=
  aliceBets ++ [.claim true] ++ awaits true 8 ++ [.handle true ⟨5, some "down", false⟩,
    .rollback true, .claim false] ++ awaits false 14 ++ [.commit false 6]

def betFeeds : Outbox BetWorld Payload BetPhase Bool :=
  (Transition.run (Outbox.step (betService .debug)) (.init .init) retriedBet).getD (.init .init)

end Sample

theorem bets_reach_feeds_retried :
    ∃ bet, Sample.betFeeds.world.sys.db.bets.rows = [bet] ∧
      [(.market bet.marketId, bet.broadcast), (.global, bet.broadcast)].Sublist
        Sample.betFeeds.world.published ∧ Sample.betFeeds.world.published.length = 3 := by
  have hsome : (Transition.run (Outbox.step (betService .debug)) (.init .init)
      Sample.retriedBet).isSome := by decide +kernel
  obtain ⟨s, hs⟩ := Option.isSome_iff_exists.mp hsome
  have hs' : Sample.betFeeds = s := by simp [Sample.betFeeds, hs]
  have hone : Sample.betFeeds.world.sys.db.bets.rows.length = 1 := by decide +kernel
  obtain ⟨bet, hbet⟩ := List.length_eq_one_iff.mp hone
  have hprocessed : Sample.betFeeds.rows.rows.all (fun r => r.processedAt.isSome) = true := by
    decide +kernel
  refine ⟨bet, hbet, ?_, by decide +kernel⟩
  refine (bets_reach_feeds (hs' ▸ hs)).1 bet (by simp [hbet]) fun r hr _ _ => ?_
  have hr' := List.all_eq_true.mp hprocessed r hr
  exact Option.isSome_iff_ne_none.mp hr'

end Betsphere
