import Betsphere.Events.Duties
import Betsphere.Events.Feed
import Betsphere.Events.Topics
import Betsphere.System.Prices
set_option autoImplicit false

namespace Betsphere
open MachineInt

structure PriceTick where
  outcomeId : OutcomeId
  price : Price
  recordedAt : DateTime
  deriving DecidableEq

structure PriceUpdateBroadcast where
  market : MarketId
  ticks : List PriceTick
  deriving DecidableEq

/-- The betting system and what was published to the price channels, oldest first. -/
structure PriceWorld where
  sys : Sys
  published : List PriceUpdateBroadcast

inductive PricePhase where
  | read (marketId : MarketId)
  | publish (marketId : MarketId) (ticks : List PriceTick)
  | elsewhere

/-- An action of the betting system with the identifiers its events draw, or another
transaction with events of its own. -/
inductive PriceChange where
  | sys (a : Act) (ids : List Nat)
  | other (events : List (Nat × String × String))

namespace MarketPriceUpdateBroadcaster

def begin : Payload → Except DeliveryError PricePhase :=
  typedHandler "market.prices_updated" MarketPricesUpdated.fromValue .read

def handle (x : Await) (w : PriceWorld) :
    PricePhase → PriceWorld × (PricePhase ⊕ Except String Unit)
  | .read marketId =>
    match x.failure with
    | some e => (w, .inr (.error ("could not load outcomes of market " ++ toString marketId ++
        ": " ++ e)))
    | none =>
      match w.sys.db.outcomesFor marketId with
      | [] => (w, .inr (.ok ()))
      | outcomes =>
        (w, .inl (.publish marketId (outcomes.map fun o => ⟨o.id, o.currentPrice, x.now⟩)))
  | .publish marketId ticks =>
    let w := if x.reaches then { w with published := w.published ++ [⟨marketId, ticks⟩] } else w
    (w, .inr (x.outcome ("could not broadcast prices of market " ++ toString marketId)))
  | .elsewhere => (w, .inr (x.outcome "handler failed"))

end MarketPriceUpdateBroadcaster

def PriceChange.transact (build : Build) (c : PriceChange) (w : PriceWorld) :
    Option (PriceWorld × List (Nat × String × Payload)) :=
  match c with
  | .sys a ids =>
    match w.sys.step build a with
    | none => none
    | some after =>
      let recorded := after.db.outbox.drop w.sys.db.outbox.length
      if ids.length = recorded.length then
        some ({ w with sys := after }, (ids.zip recorded).map fun e => e.2.queue e.1)
      else none
  | .other events =>
    if events.all fun e => e.2.1 ∉ ownTopics then
      some (w, events.map fun e => (e.1, e.2.1, .json e.2.2))
    else none

def priceService (build : Build) : Service PriceWorld PriceChange Await Payload PricePhase where
  transact := PriceChange.transact build
  registry := serverRegistry .elsewhere (fun _ => .ok .elsewhere)
    MarketPriceUpdateBroadcaster.begin (fun _ => .ok .elsewhere) (fun _ => .ok .elsewhere)
  step := MarketPriceUpdateBroadcaster.handle

def Db.board (db : Db) (id : MarketId) : List (OutcomeId × Price) :=
  (db.outcomesFor id).map fun o => (o.id, o.currentPrice)

def PriceUpdateBroadcast.board (b : PriceUpdateBroadcast) : List (OutcomeId × Price) :=
  b.ticks.map fun t => (t.outcomeId, t.price)

def PriceWorld.lastBroadcast (w : PriceWorld) (id : MarketId) : Option PriceUpdateBroadcast :=
  (w.published.filter fun b => b.market = id).getLast?

/-- Prices as a feed: every event is read anew. -/
def priceFeed : Feed PriceWorld Payload PricePhase MarketId (List (OutcomeId × Price)) where
  inv w := w.sys.Wf ∧ ∀ b ∈ w.published, w.sys.db.outcomesFor b.market ≠ []
  known w id := w.sys.db.outcomesFor id ≠ []
  truth w id := w.sys.db.board id
  shown w id := (w.lastBroadcast id).map PriceUpdateBroadcast.board
  about topic payload id :=
    if topic = "market.prices_updated" ∧ payload = .event (.marketPricesUpdated id) then some none
    else none
  view phase id :=
    match phase with
    | .read marketId => if marketId = id then some none else none
    | .publish marketId ticks =>
      if marketId = id then some (some (ticks.map fun t => (t.outcomeId, t.price))) else none
    | .elsewhere => none

/-- Exactly a placement on the market records that its prices moved. -/
theorem Write.Done.recorded {db db' : Db} {w : Write} {now : DateTime} (h : w.Done db now db') :
    ∃ events, db'.outbox = db.outbox ++ events ∧
      ∀ id, .marketPricesUpdated id ∈ events ↔ ∃ bet, w.placedOn id = some bet := by
  cases h with
  | create market outcomes at' hen =>
    exact ⟨[], by simp [Db.created], fun id => by simp [Write.placedOn]⟩
  | place bet priced points hen =>
    refine ⟨placeEvents bet, rfl, fun id => ?_⟩
    by_cases hid : bet.marketId = id
    · simp [placeEvents, Write.placedOn, hid]
    · simp [placeEvents, Write.placedOn, hid, Ne.symm hid]
  | settle market settled hin =>
    exact ⟨_, rfl, fun id => by simp [Write.placedOn]⟩
  | save cause user hun =>
    exact ⟨[], by simp [Db.saved], fun id => by simp [Write.placedOn]⟩

theorem Write.Done.bet_placed {db db' : Db} {w : Write} {now : DateTime} (h : w.Done db now db')
    {bet : Bet} (hbet : bet ∈ db'.bets.rows) :
    (∃ old ∈ db.bets.rows, old.marketId = bet.marketId) ∨
      ∃ placed, w.placedOn bet.marketId = some placed := by
  cases h with
  | create market outcomes at' hen => exact .inl ⟨bet, hbet, rfl⟩
  | place placed priced points hen =>
    rw [rows_bets_placed hen, List.mem_append, List.mem_singleton] at hbet
    rcases hbet with hold | rfl
    · exact .inl ⟨bet, hold, rfl⟩
    · exact .inr ⟨bet, by simp [Write.placedOn]⟩
  | settle market settled hin =>
    obtain ⟨old, hold, rfl⟩ := List.mem_map.mp hbet
    exact .inl ⟨old, hold, (settledRow_sameStake settled old).marketId.symm⟩
  | save cause user hun => exact .inl ⟨bet, hbet, rfl⟩

theorem Db.hasMarket_of_outcomes {db : Db} (hwf : db.Wf) {id : MarketId}
    (h : db.outcomesFor id ≠ []) : db.HasMarket id := by
  obtain ⟨o, ho⟩ := List.exists_mem_of_ne_nil _ h
  obtain ⟨hrow, hid⟩ := Db.mem_outcomesFor.mp ho
  exact hid ▸ hwf.outcomeMarket o hrow

theorem Grows.outcomesFor_ne_nil {db db' : Db} (hg : Grows db db') {id : MarketId}
    (hm : db.HasMarket id) (h : db.outcomesFor id ≠ []) : db'.outcomesFor id ≠ [] := by
  have hids := hg.outcomes id hm
  intro hnil
  simp only [Db.outcomeIds, hnil, List.map_nil] at hids
  exact h (List.map_eq_nil_iff.mp hids.symm)

structure Sys.Records (s s' : Sys) (events : List Event) : Prop where
  outbox : s'.db.outbox = s.db.outbox ++ events
  known : ∀ id, s.db.outcomesFor id ≠ [] → s'.db.outcomesFor id ≠ []
  named : ∀ id, .marketPricesUpdated id ∈ events → s'.db.outcomesFor id ≠ []
  board : ∀ id, s.db.outcomesFor id ≠ [] →
    s'.db.board id = s.db.board id ∨ .marketPricesUpdated id ∈ events
  bets : ∀ bet ∈ s'.db.bets.rows, (∃ old ∈ s.db.bets.rows, old.marketId = bet.marketId) ∨
    .marketPricesUpdated bet.marketId ∈ events

theorem Sys.Wf.records {build : Build} {s s' : Sys} {a : Act} (hwf : s.Wf)
    (hs : s.step build a = some s') : ∃ events, s.Records s' events := by
  rcases hwf.tables (Sys.step_effect hs) with ⟨hdb, -⟩ | ⟨w, now, hok, hdone, -⟩
  · refine ⟨[], ?_, fun id h => ?_, by simp, fun id _ => ?_, fun bet hbet => ?_⟩
    · simp [hdb]
    · rw [hdb]
      exact h
    · rw [hdb]
      exact .inl rfl
    · rw [hdb] at hbet
      exact .inl ⟨bet, hbet, rfl⟩
  · have hg := hdone.grows hok
    obtain ⟨events, houtbox, hevents⟩ := hdone.recorded
    refine ⟨events, houtbox, fun id h => ?_, fun id hid => ?_, fun id h => ?_,
      fun bet hbet => (hdone.bet_placed hbet).imp_right (hevents bet.marketId).mpr⟩
    · exact hg.outcomesFor_ne_nil (Db.hasMarket_of_outcomes hwf.db h) h
    · obtain ⟨bet, hbet⟩ := (hevents id).mp hid
      obtain ⟨priced, points, rfl, rfl⟩ := placedOn_some hbet
      have hne : s.db.outcomesFor bet.marketId ≠ [] := by
        intro hnil
        have hmem := hok.2.2.1
        simp [Db.outcomeIds, hnil] at hmem
      exact hg.outcomesFor_ne_nil hok.1 hne
    · cases hplaced : w.placedOn id with
      | some bet => exact .inr ((hevents id).mpr ⟨bet, hplaced⟩)
      | none =>
        left
        unfold Db.board
        rw [hdone.outcomesFor_other hok hplaced (Db.hasMarket_of_outcomes hwf.db h)]

theorem lastBroadcast_other {w : PriceWorld} {b : PriceUpdateBroadcast} {id : MarketId}
    (h : b.market ≠ id) :
    ({ w with published := w.published ++ [b] } : PriceWorld).lastBroadcast id =
      w.lastBroadcast id := by
  simp [PriceWorld.lastBroadcast, List.filter_append, h]

theorem lastBroadcast_own {w : PriceWorld} {b : PriceUpdateBroadcast} :
    ({ w with published := w.published ++ [b] } : PriceWorld).lastBroadcast b.market = some b := by
  simp [PriceWorld.lastBroadcast, List.filter_append]

theorem priceFeed_about {topic : String} {payload : Payload} {id : MarketId} :
    priceFeed.about topic payload id ≠ none ↔
      topic = "market.prices_updated" ∧ payload = .event (.marketPricesUpdated id) := by
  simp only [priceFeed]
  split
  · rename_i h
    simp [h]
  · rename_i h
    simpa using h

theorem PriceChange.transact_cases {build : Build} {c : PriceChange} {w w' : PriceWorld}
    {events : List (Nat × String × Payload)} (hwf : w.sys.Wf)
    (h : c.transact build w = some (w', events)) :
    w' = { w with sys := w'.sys } ∧ w'.sys.Wf ∧
      (∃ (recorded : List Event) (ids : List Nat), w.sys.Records w'.sys recorded ∧
        ids.length = recorded.length ∧
        events = (ids.zip recorded).map fun e => e.2.queue e.1) ∨
    w' = w ∧ ∀ e ∈ events, e.2.1 ∉ ownTopics := by
  cases c with
  | sys a ids =>
    simp only [PriceChange.transact] at h
    cases hs : w.sys.step build a with
    | none => simp [hs] at h
    | some after =>
      obtain ⟨recorded, hrec⟩ := hwf.records hs
      have hdrop : after.db.outbox.drop w.sys.db.outbox.length = recorded := by
        rw [hrec.outbox, List.drop_left]
      simp only [hs, hdrop] at h
      split at h
      · rename_i hlen
        cases h
        exact .inl ⟨rfl, hwf.effect (Sys.step_effect hs), recorded, ids, hrec, hlen, rfl⟩
      · simp at h
  | other foreign =>
    simp only [PriceChange.transact] at h
    split at h
    · rename_i hall
      cases h
      refine .inr ⟨rfl, fun e he => ?_⟩
      obtain ⟨f, hf, rfl⟩ := List.mem_map.mp he
      simpa using List.all_eq_true.mp hall f hf
    · simp at h

theorem priceFeed_transact {build : Build} {c : PriceChange} {w w' : PriceWorld}
    {events : List (Nat × String × Payload)} (hinv : priceFeed.inv w)
    (h : c.transact build w = some (w', events)) : priceFeed.inv w' ∧
    ∀ k, priceFeed.shown w' k = priceFeed.shown w k ∧ (priceFeed.known w k → priceFeed.known w' k) ∧
      (∀ e ∈ events, priceFeed.about e.2.1 e.2.2 k ≠ none → priceFeed.known w' k) ∧
      (priceFeed.truth w' k = priceFeed.truth w k ∨
        priceFeed.shown w k = none ∧ ¬priceFeed.known w k ∨
        ∃ e ∈ events, ∃ seen, priceFeed.about e.2.1 e.2.2 k = some seen ∧
          priceFeed.Current w' k seen) := by
  obtain ⟨hwf, hpublished⟩ := hinv
  rcases PriceChange.transact_cases hwf h with
    ⟨hsame, hwf', recorded, ids, hrec, hlen, rfl⟩ | ⟨rfl, hforeign⟩
  · have hpub : w'.published = w.published := by rw [hsame]
    refine ⟨⟨hwf', fun b hb => hrec.known _ (hpublished b (hpub ▸ hb))⟩, fun k => ?_⟩
    refine ⟨by simp only [priceFeed, PriceWorld.lastBroadcast, hpub], hrec.known k, ?_, ?_⟩
    · intro e he habout
      obtain ⟨x, hx, rfl⟩ := List.mem_map.mp he
      obtain ⟨-, hpayload⟩ := priceFeed_about.mp habout
      have hev : x.2 = .marketPricesUpdated k := by simpa [Event.queue] using hpayload
      exact hrec.named k (hev ▸ (List.of_mem_zip hx).2)
    · by_cases hk : w.sys.db.outcomesFor k = []
      · refine .inr (.inl ⟨?_, by simp [priceFeed, hk]⟩)
        simp only [priceFeed, Option.map_eq_none_iff, PriceWorld.lastBroadcast,
          List.getLast?_eq_none_iff, List.filter_eq_nil_iff, decide_eq_true_eq]
        rintro b hb rfl
        exact hpublished b hb hk
      · rcases hrec.board k hk with hboard | hmem
        · exact .inl hboard
        · rw [← List.map_snd_zip hlen.ge] at hmem
          obtain ⟨x, hx, hev⟩ := List.mem_map.mp hmem
          refine .inr (.inr ⟨_, List.mem_map_of_mem hx, none, ?_, .inl rfl⟩)
          simp [priceFeed, Event.queue, hev, Event.topic]
  · refine ⟨⟨hwf, hpublished⟩, fun k => ⟨rfl, id, fun e he habout => ?_, .inl rfl⟩⟩
    obtain ⟨htopic, -⟩ := priceFeed_about.mp habout
    exact absurd (by simp [htopic, ownTopics]) (hforeign e he)

theorem priceFeed_step {x : Await} {w w' : PriceWorld} {phase : PricePhase}
    {r : PricePhase ⊕ Except String Unit} (hinv : priceFeed.inv w)
    (hknown : ∀ k, priceFeed.view phase k ≠ none → priceFeed.known w k)
    (h : MarketPriceUpdateBroadcaster.handle x w phase = (w', r)) : priceFeed.inv w' ∧
    ∀ k, priceFeed.truth w' k = priceFeed.truth w k ∧ (priceFeed.known w k → priceFeed.known w' k) ∧
      priceFeed.Step w w' k phase r := by
  cases phase with
  | read marketId =>
    simp only [MarketPriceUpdateBroadcaster.handle] at h
    cases hf : x.failure with
    | some e =>
      simp only [hf, Prod.mk.injEq] at h
      obtain ⟨rfl, rfl⟩ := h
      refine ⟨hinv, fun k => ⟨rfl, id, ?_⟩⟩
      by_cases hk : marketId = k
      · exact .inr ⟨none, by simp [priceFeed, hk], .inl ⟨rfl, _, rfl⟩⟩
      · exact .inl ⟨by simp [priceFeed, hk], rfl⟩
    | none =>
      have hne : w.sys.db.outcomesFor marketId ≠ [] := hknown marketId (by simp [priceFeed])
      obtain ⟨o, rest, hall⟩ := List.exists_cons_of_ne_nil hne
      simp only [hf, hall, Prod.mk.injEq] at h
      obtain ⟨rfl, rfl⟩ := h
      refine ⟨hinv, fun k => ⟨rfl, id, rfl, ?_⟩⟩
      by_cases hk : marketId = k
      · subst hk
        refine .inr ⟨by simp [priceFeed], ?_⟩
        simp [priceFeed, Db.board, hall]
      · exact .inl (by simp [priceFeed, hk])
  | publish marketId ticks =>
    simp only [MarketPriceUpdateBroadcaster.handle, Prod.mk.injEq] at h
    obtain ⟨rfl, rfl⟩ := h
    have hm : w.sys.db.outcomesFor marketId ≠ [] := hknown marketId (by simp [priceFeed])
    cases hreach : x.reaches with
    | false =>
      have hfail : ∃ e, x.failure = some e := by
        cases hf : x.failure with
        | none => simp [Await.reaches, hf] at hreach
        | some e => exact ⟨e, rfl⟩
      obtain ⟨e, he⟩ := hfail
      refine ⟨hinv, fun k => ⟨rfl, id, ?_⟩⟩
      by_cases hk : marketId = k
      · refine .inr ⟨some (ticks.map fun t => (t.outcomeId, t.price)), by simp [priceFeed, hk],
          .inl ⟨rfl, ?_⟩⟩
        simp [Await.outcome, he]
      · exact .inl ⟨by simp [priceFeed, hk], rfl⟩
    | true =>
      refine ⟨⟨hinv.1, fun b hb => ?_⟩, fun k => ⟨rfl, id, ?_⟩⟩
      · simp only [if_true, List.mem_append, List.mem_singleton] at hb
        rcases hb with hb | rfl
        · exact hinv.2 b hb
        · exact hm
      · by_cases hk : marketId = k
        · subst hk
          refine .inr ⟨some (ticks.map fun t => (t.outcomeId, t.price)), by simp [priceFeed],
            .inr ⟨_, rfl, ?_⟩⟩
          simp only [priceFeed, if_true, lastBroadcast_own (b := ⟨marketId, ticks⟩),
            Option.map_some]
          rfl
        · refine .inl ⟨by simp [priceFeed, hk], ?_⟩
          simp only [priceFeed, if_true, lastBroadcast_other (b := ⟨marketId, ticks⟩) hk]
  | elsewhere =>
    simp only [MarketPriceUpdateBroadcaster.handle, Prod.mk.injEq] at h
    obtain ⟨rfl, rfl⟩ := h
    exact ⟨hinv, fun k => ⟨rfl, id, .inl ⟨rfl, rfl⟩⟩⟩

theorem priceFeed_coherent (build : Build) : priceFeed.Coherent (priceService build) where
  transact := by
    intro c w w' events hinv h
    obtain ⟨hinv', hall⟩ := priceFeed_transact hinv h
    exact ⟨hinv', fun k => ⟨(hall k).2.1, (hall k).2.2.1⟩⟩
  recorded := by
    intro c w w' events hinv h k
    obtain ⟨hshown, -, -, htruth⟩ := (priceFeed_transact hinv h).2 k
    exact ⟨hshown, htruth⟩
  handler := by
    intro topic payload k seen habout
    have hne : priceFeed.about topic payload k ≠ none := by simp [habout]
    obtain ⟨rfl, rfl⟩ := priceFeed_about.mp hne
    refine ⟨_, .read k, registered_priceUpdate, rfl, ?_⟩
    rw [← habout]
    simp [priceFeed]
  other := by
    intro topic payload k habout handler hmem phase hdecode
    rcases registered hmem with ⟨rfl, rfl⟩ | ⟨rfl, rfl⟩ | ⟨rfl, rfl⟩ | ⟨rfl, rfl⟩ | rfl
    · cases hdecode
      rfl
    · simp only [MarketPriceUpdateBroadcaster.begin, typedHandler] at hdecode
      cases hvalue : MarketPricesUpdated.fromValue payload with
      | error e => simp [hvalue] at hdecode
      | ok marketId =>
        simp only [hvalue, Except.ok.injEq] at hdecode
        subst hdecode
        have hpayload : payload = .event (.marketPricesUpdated marketId) := by
          unfold MarketPricesUpdated.fromValue at hvalue
          split at hvalue
          · cases hvalue
            rfl
          · simp at hvalue
        have hk : marketId ≠ k := by
          rintro rfl
          exact priceFeed_about.mpr ⟨rfl, hpayload⟩ habout
        simp [priceFeed, hk]
    all_goals
      cases hdecode
      rfl
  step := fun _ _ _ _ _ hinv hknown h => priceFeed_step hinv hknown h

def PriceWorld.Aired (w : PriceWorld) (id : MarketId) : Prop := ∃ b ∈ w.published, b.market = id

def priceFacts : Facts PriceWorld Payload PricePhase where
  inv := priceFeed.inv
  named w topic payload := topic = "market.prices_updated" →
    ∃ id, w.sys.db.outcomesFor id ≠ [] ∧ payload = .event (.marketPricesUpdated id)
  fits w topic payload phase :=
    match phase with
    | .read id => w.sys.db.outcomesFor id ≠ [] ∧ payload = .event (.marketPricesUpdated id)
    | .publish id _ => w.sys.db.outcomesFor id ≠ [] ∧ payload = .event (.marketPricesUpdated id)
    | .elsewhere => topic ≠ "market.prices_updated"

def priceDuty : Duty PriceWorld Payload where
  covers topic := topic = "market.prices_updated"
  recorded w topic payload := topic = "market.prices_updated" ∧
    ∃ bet ∈ w.sys.db.bets.rows, payload = .event (.marketPricesUpdated bet.marketId)
  done w _ payload := ∃ id, payload = .event (.marketPricesUpdated id) ∧ w.Aired id

theorem priceFacts_grows {w w' : PriceWorld}
    (hknown : ∀ id, w.sys.db.outcomesFor id ≠ [] → w'.sys.db.outcomesFor id ≠ []) :
    priceFacts.Grows w w' where
  named := by
    intro topic payload hnamed htopic
    obtain ⟨id, hid, hpayload⟩ := hnamed htopic
    exact ⟨id, hknown id hid, hpayload⟩
  fits := by
    intro topic payload phase hfits
    cases phase with
    | read id => exact ⟨hknown id hfits.1, hfits.2⟩
    | publish id ticks => exact ⟨hknown id hfits.1, hfits.2⟩
    | elsewhere => exact hfits

theorem priceDuty_grows {w w' : PriceWorld} (hpub : w.published <+: w'.published) {topic : String}
    {payload : Payload} (h : priceDuty.done w topic payload) : priceDuty.done w' topic payload := by
  obtain ⟨id, hpayload, b, hb, hid⟩ := h
  exact ⟨id, hpayload, b, hpub.subset hb, hid⟩

theorem MarketPriceUpdateBroadcaster.handle_spec {x : Await} {w w' : PriceWorld}
    {phase : PricePhase} {r : PricePhase ⊕ Except String Unit} (h : handle x w phase = (w', r)) :
    w'.sys = w.sys ∧ w.published <+: w'.published ∧
      ∀ topic payload, priceFacts.fits w topic payload phase →
        (∀ phase', r = .inl phase' → priceFacts.fits w' topic payload phase') ∧
        (topic = "market.prices_updated" → r = .inr (.ok ()) →
          priceDuty.done w' topic payload) := by
  cases phase with
  | read id =>
    simp only [handle] at h
    cases hf : x.failure with
    | some e =>
      simp only [hf, Prod.mk.injEq] at h
      obtain ⟨rfl, rfl⟩ := h
      exact ⟨rfl, List.prefix_refl _, fun topic payload hfits => ⟨by simp, by simp⟩⟩
    | none =>
      cases hall : w.sys.db.outcomesFor id with
      | nil =>
        simp only [hf, hall, Prod.mk.injEq] at h
        obtain ⟨rfl, rfl⟩ := h
        exact ⟨rfl, List.prefix_refl _, fun topic payload hfits => absurd hall hfits.1⟩
      | cons o rest =>
        simp only [hf, hall, Prod.mk.injEq] at h
        obtain ⟨rfl, rfl⟩ := h
        refine ⟨rfl, List.prefix_refl _, fun topic payload hfits => ⟨fun phase' hphase => ?_,
          by simp⟩⟩
        cases hphase
        exact hfits
  | publish id ticks =>
    simp only [handle, Prod.mk.injEq] at h
    obtain ⟨rfl, rfl⟩ := h
    refine ⟨by split <;> rfl, ?_, fun topic payload hfits => ⟨by simp, fun _ hr => ?_⟩⟩
    · split
      · exact List.prefix_append _ _
      · exact List.prefix_refl _
    · cases hf : x.failure with
      | some e => simp [Await.outcome, hf] at hr
      | none =>
        have hreach : x.reaches = true := by simp [Await.reaches, hf]
        exact ⟨id, hfits.2, ⟨id, ticks⟩, by simp [hreach], rfl⟩
  | elsewhere =>
    simp only [handle, Prod.mk.injEq] at h
    obtain ⟨rfl, rfl⟩ := h
    exact ⟨rfl, List.prefix_refl _, fun topic payload hfits =>
      ⟨by simp, fun htopic _ => absurd htopic hfits⟩⟩

theorem priceService_handler {build : Build} {topic : String}
    {handler : Payload → Except DeliveryError PricePhase}
    (h : handler ∈ (priceService build).registry.get topic) :
    topic = "market.prices_updated" ∧ handler = MarketPriceUpdateBroadcaster.begin ∨
      topic ≠ "market.prices_updated" ∧ handler = fun _ => .ok .elsewhere := by
  by_cases htopic : topic = "market.prices_updated"
  · subst htopic
    rw [priceService, registered_priceUpdate, List.mem_singleton] at h
    exact .inl ⟨rfl, h⟩
  · rcases registered h with ⟨-, rfl⟩ | ⟨hsame, -⟩ | ⟨-, rfl⟩ | ⟨-, rfl⟩ | rfl
    · exact .inr ⟨htopic, rfl⟩
    · exact absurd hsame htopic
    all_goals exact .inr ⟨htopic, rfl⟩

theorem priceFacts_transact {build : Build} {c : PriceChange} {w w' : PriceWorld}
    {events : List (Nat × String × Payload)} (hinv : priceFeed.inv w)
    (h : c.transact build w = some (w', events)) :
    w'.published = w.published ∧ priceFacts.Grows w w' ∧
      (∀ e ∈ events, priceFacts.named w' e.2.1 e.2.2) ∧
      ∀ bet ∈ w'.sys.db.bets.rows, (∃ old ∈ w.sys.db.bets.rows, old.marketId = bet.marketId) ∨
        ∃ e ∈ events, e.2 = ("market.prices_updated", .event (.marketPricesUpdated bet.marketId)) := by
  rcases PriceChange.transact_cases hinv.1 h with
    ⟨hsame, -, recorded, ids, hrec, hlen, rfl⟩ | ⟨rfl, hforeign⟩
  · refine ⟨by rw [hsame], priceFacts_grows hrec.known, fun e he htopic => ?_, fun bet hbet => ?_⟩
    · obtain ⟨x, hx, rfl⟩ := List.mem_map.mp he
      have hmem := (List.of_mem_zip hx).2
      obtain ⟨n, ev⟩ := x
      cases ev with
      | marketPricesUpdated id => exact ⟨id, hrec.named id hmem, rfl⟩
      | betPlaced id => simp [Event.queue, Event.topic] at htopic
      | userBalanceChanged id => simp [Event.queue, Event.topic] at htopic
    · refine (hrec.bets bet hbet).imp_right fun hmem => ?_
      rw [← List.map_snd_zip hlen.ge] at hmem
      obtain ⟨x, hx, hev⟩ := List.mem_map.mp hmem
      refine ⟨_, List.mem_map_of_mem hx, ?_⟩
      rw [Event.queue, hev]
      rfl
  · refine ⟨rfl, .rfl _, fun e he htopic => ?_, fun bet hbet => .inl ⟨bet, hbet, rfl⟩⟩
    exact absurd (by simp [htopic, ownTopics]) (hforeign e he)

theorem priceFacts_kept (build : Build) : priceFacts.Kept (priceService build) where
  transact := by
    intro c w w' events hinv h
    obtain ⟨-, hgrows, hnamed, -⟩ := priceFacts_transact hinv h
    exact ⟨(priceFeed_transact hinv h).1, hgrows, hnamed⟩
  started := by
    intro topic payload w handler phase hnamed hmem hphase
    rcases priceService_handler hmem with ⟨htopic, rfl⟩ | ⟨htopic, rfl⟩
    · obtain ⟨id, hid, rfl⟩ := hnamed htopic
      cases hphase
      exact ⟨hid, rfl⟩
    · cases hphase
      exact htopic
  step := by
    intro topic payload x w w' phase r hinv hfits h
    obtain ⟨hsys, -, hall⟩ := MarketPriceUpdateBroadcaster.handle_spec h
    refine ⟨(priceFeed_step hinv (fun k hk => ?_) h).1,
      priceFacts_grows fun id hid => hsys ▸ hid, (hall topic payload hfits).1⟩
    cases phase with
    | read id =>
      obtain rfl : id = k := by
        by_contra hne
        simp [priceFeed, hne] at hk
      exact hfits.1
    | publish id ticks =>
      obtain rfl : id = k := by
        by_contra hne
        simp [priceFeed, hne] at hk
      exact hfits.1
    | elsewhere => simp [priceFeed] at hk

theorem priceDuty_kept (build : Build) : priceDuty.Kept priceFacts (priceService build) where
  handled := by
    rintro topic rfl
    exact List.cons_ne_nil _ _
  decoded := by
    intro topic payload w handler e htopic hnamed hmem herror
    obtain ⟨id, -, rfl⟩ := hnamed htopic
    rcases priceService_handler hmem with ⟨-, rfl⟩ | ⟨hne, -⟩
    · cases herror
    · exact hne htopic
  transact := by
    intro c w w' events hinv h
    obtain ⟨hpub, -, -, hbets⟩ := priceFacts_transact hinv h
    refine ⟨fun topic payload => priceDuty_grows (hpub ▸ List.prefix_refl _),
      fun topic payload hrec => ?_⟩
    obtain ⟨rfl, bet, hbet, rfl⟩ := hrec
    refine (hbets bet hbet).imp_left fun hold => ?_
    obtain ⟨old, hold, hmarket⟩ := hold
    exact ⟨rfl, old, hold, by rw [hmarket]⟩
  step := by
    intro x w w' phase r h
    obtain ⟨hsys, hpub, -⟩ := MarketPriceUpdateBroadcaster.handle_spec h
    refine ⟨fun topic payload => priceDuty_grows hpub, fun topic payload hrec => ?_⟩
    obtain ⟨htopic, bet, hbet, hpayload⟩ := hrec
    exact ⟨htopic, bet, hsys ▸ hbet, hpayload⟩
  returns := by
    intro topic payload x w w' phase htopic hinv hfits h
    obtain ⟨-, -, hall⟩ := MarketPriceUpdateBroadcaster.handle_spec h
    exact (hall topic payload hfits).2 htopic rfl

section Runs
variable {build : Build} {ι : Type} [DecidableEq ι]

def PriceWorld.init : PriceWorld := ⟨.init, []⟩

/-- Prices that were overtaken go out as a success only while another event of the market
will still publish the stored ones. -/
def PricesCorrected (build : Build) (s : Outbox PriceWorld Payload PricePhase ι)
    (a : Outbox.Act PriceChange Await ι) : Prop :=
  priceFeed.Corrected (priceService build) s a

omit [DecidableEq ι] in
theorem prices_tracked :
    priceFeed.Tracked (.init .init : Outbox PriceWorld Payload PricePhase ι) where
  world := ⟨Sys.wf_init, by simp [Outbox.init, PriceWorld.init]⟩
  known := by simp [Outbox.init]
  running := by simp [Outbox.init]

omit [DecidableEq ι] in
theorem prices_converging :
    priceFeed.Converging (.init .init : Outbox PriceWorld Payload PricePhase ι) := by
  refine fun k => .inl fun v hv => ?_
  simp [Outbox.init, PriceWorld.init, priceFeed, PriceWorld.lastBroadcast] at hv

/-- With one processor no overtaken price goes uncorrected. -/
theorem prices_corrected_single [Subsingleton ι] (as : List (Outbox.Act PriceChange Await ι)) :
    Transition.Guarded (Outbox.step (priceService build)) (PricesCorrected build) (.init .init) as := by
  refine priceFeed.corrected_single (priceFeed_coherent build) ?_ (Outbox.init_sound _)
    prices_tracked ?_ as
  · intro topic payload k seen habout
    simp only [priceFeed] at habout
    split at habout
    · exact (Option.some.inj habout).symm
    · simp at habout
  · intro p pass a phase k v hp
    simp [Outbox.init] at hp

/-- In a run in which overtaken prices are corrected, the last broadcast of a market none
of whose price events is pending carries the stored prices. -/
theorem last_broadcast_true {as : List (Outbox.Act PriceChange Await ι)}
    {s : Outbox PriceWorld Payload PricePhase ι}
    (hok : Transition.Guarded (Outbox.step (priceService build)) (PricesCorrected build)
      (.init .init) as)
    (hr : Transition.run (Outbox.step (priceService build)) (.init .init) as = some s)
    {id : MarketId}
    (hdone : ∀ r ∈ s.rows.rows, r.topic = "market.prices_updated" →
      r.payload = .event (.marketPricesUpdated id) → r.processedAt ≠ none)
    {b : PriceUpdateBroadcast} (hb : s.world.lastBroadcast id = some b) :
    b.board = s.world.sys.db.board id := by
  have hsettled := Feed.converges (priceFeed_coherent build) (Outbox.init_sound _) prices_tracked
    prices_converging hok hr (k := id) (fun r hmem habout => by
      obtain ⟨htopic, hpayload⟩ := priceFeed_about.mp habout
      exact hdone r hmem htopic hpayload)
  exact hsettled b.board (by simp [priceFeed, hb])

/-- A market with a bet has a last broadcast once none of its price events is pending. -/
theorem lastBroadcast_of_bet {as : List (Outbox.Act PriceChange Await ι)}
    {s : Outbox PriceWorld Payload PricePhase ι}
    (hr : Transition.run (Outbox.step (priceService build)) (.init .init) as = some s) {bet : Bet}
    (hbet : bet ∈ s.world.sys.db.bets.rows)
    (hdone : ∀ r ∈ s.rows.rows, r.topic = "market.prices_updated" →
      r.payload = .event (.marketPricesUpdated bet.marketId) → r.processedAt ≠ none) :
    ∃ b, s.world.lastBroadcast bet.marketId = some b := by
  have hinv : priceFacts.inv PriceWorld.init := ⟨Sys.wf_init, by simp [PriceWorld.init]⟩
  have hnone : ∀ topic payload, priceDuty.covers topic →
      ¬priceDuty.recorded PriceWorld.init topic payload := by
    rintro topic payload - ⟨-, bet, hbet, -⟩
    simp [PriceWorld.init, Sys.init, Db.empty] at hbet
  obtain ⟨-, -, hduty⟩ :=
    Duty.Done.run (priceDuty_kept build) (priceFacts_kept build) hinv hnone hr
  rcases hduty.pending _ _ rfl ⟨rfl, bet, hbet, rfl⟩ with
    ⟨id, hpayload, b, hb, hid⟩ | ⟨r, hr, htopic, hpayload, hpending⟩
  · cases hpayload
    cases hlast : s.world.lastBroadcast bet.marketId with
    | some last => exact ⟨last, rfl⟩
    | none =>
      rw [PriceWorld.lastBroadcast, List.getLast?_eq_none_iff, List.filter_eq_nil_iff] at hlast
      exact absurd (decide_eq_true hid) (hlast b hb)
  · exact absurd hpending (hdone r hr htopic hpayload)

end Runs

namespace Sample

def quiet {ι : Type} (as : List Act) : List (Outbox.Act PriceChange Await ι) :=
  as.map fun a => .transact (.sys a [])

/-- Alice backs "yes", then Bob "no"; the commits record the events 1 to 3 and 4 to 6. -/
def aliceBets {ι : Type} : List (Outbox.Act PriceChange Await ι) :=
  quiet (opening ++ [bet ⟨1⟩ ⟨101⟩ 50] ++ steps 1 6 200) ++
    [.transact (.sys (.step 1 (env 2 200)) [1, 2, 3])]

def bobBets {ι : Type} : List (Outbox.Act PriceChange Await ι) :=
  quiet ([bet ⟨2⟩ ⟨102⟩ 30] ++ steps 2 6 300) ++
    [.transact (.sys (.step 2 (env 2 300)) [4, 5, 6])]

def awaits {ι : Type} (p : ι) (n : Nat) : List (Outbox.Act PriceChange Await ι) :=
  List.replicate n (.handle p ⟨5, none, true⟩)

/-- The first processor has read the prices when Bob's bet commits; the second publishes
the new ones before the first gets to publish the old ones. -/
def slowPublish : List (Outbox.Act PriceChange Await Bool) :=
  aliceBets ++ [.claim true] ++ awaits true 11 ++ bobBets ++ [.claim false] ++ awaits false 13 ++
    [.commit false 6] ++ awaits true 2 ++ [.commit true 7]

/-- One processor: Bob's bet commits between its read and its publish. -/
def overtaken : List (Outbox.Act PriceChange Await Unit) :=
  aliceBets ++ [.claim ()] ++ awaits () 11 ++ bobBets ++ awaits () 2 ++ [.commit () 6, .claim ()] ++
    awaits () 13 ++ [.commit () 7]

def prices {ι : Type} [DecidableEq ι] (as : List (Outbox.Act PriceChange Await ι)) :
    Outbox PriceWorld Payload PricePhase ι :=
  (Transition.run (Outbox.step (priceService .debug)) (.init .init) as).getD (.init .init)

theorem run_prices {ι : Type} [DecidableEq ι] {as : List (Outbox.Act PriceChange Await ι)}
    (h : (Transition.run (Outbox.step (priceService .debug)) (.init .init) as).isSome) :
    Transition.run (Outbox.step (priceService .debug)) (.init .init) as = some (prices as) := by
  obtain ⟨s, hs⟩ := Option.isSome_iff_exists.mp h
  simp [prices, hs]

end Sample

theorem last_broadcast_true_overtaken :
    let w := (Sample.prices Sample.overtaken).world
    w.published.map (fun b => b.board.map fun t => t.2.tenThousandths) =
        [[10000, 0], [6250, 3750]] ∧
      ∀ b, w.lastBroadcast ⟨100⟩ = some b → b.board = w.sys.db.board ⟨100⟩ := by
  refine ⟨by decide +kernel, fun b hb => ?_⟩
  exact last_broadcast_true (prices_corrected_single Sample.overtaken)
    (Sample.run_prices (by decide +kernel)) (by decide +kernel) hb

/-- Every event is processed, and the last broadcast is Alice's board. -/
theorem last_broadcast_stale :
    let s := Sample.prices Sample.slowPublish
    (s.rows.rows.all fun r => r.processedAt.isSome) = true ∧ s.rows.rows.length = 6 ∧
      ((s.world.lastBroadcast ⟨100⟩).map fun b => b.board.map fun t => t.2.tenThousandths) =
        some [10000, 0] ∧
      (s.world.sys.db.board ⟨100⟩).map (fun t => t.2.tenThousandths) = [6250, 3750] := by
  decide +kernel

end Betsphere
