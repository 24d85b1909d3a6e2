import Betsphere.Ws.Connection
set_option autoImplicit false

namespace Betsphere.Ws
open Transition

inductive Forwarder.Moves (t : Nat) : Forwarder → Forwarder → Prop
  | polled (f : Forwarder) (ha : f.aborted = false) : Moves t f { f with polling := true }
  | parked (f : Forwarder) : Moves t f { f with polling := false }
  | next (f : Forwarder) (topic : Topic) (x : Nat × Live)
      (hx : (f.inbox.find? fun x => x.2.topic = topic) = some x) (hpending : f.pending = []) :
      Moves t f { f with
        inbox := f.inbox.eraseP fun x => x.2.topic = topic
        pending := (x.2.frames f.name).map fun frame => ⟨frame, some (t, x.1)⟩ }

inductive Forwarder.Evolves (wire wire' : List Live) (t : Nat) : Forwarder → Forwarder → Prop
  | same (f : Forwarder) : Evolves wire wire' t f f
  | heard (f : Forwarder) (live : Live) (hwire : wire' = wire ++ [live])
      (hrun : f.running = true) (htopic : live.topic ∈ f.channel.topics) :
      Evolves wire wire' t f { f with
        inbox := f.inbox ++ [(wire.length, live)]
        heard := f.heard ++ [wire.length] }
  | moved (f g : Forwarder) (h : f.Moves t g) : Evolves wire wire' t f g
  | sent (f : Forwarder) (out : Outgoing) (rest : List Outgoing)
      (hpending : f.pending = out :: rest) : Evolves wire wire' t f { f with pending := rest }
  | aborted (f : Forwarder) : Evolves wire wire' t f f.abort

namespace Forwarder
variable {wire wire' : List Live} {t : Nat} {f g : Forwarder}

theorem Moves.of_poll (h : f.poll = some g) : Moves t f g := by
  unfold Forwarder.poll at h
  split at h
  · cases h
  · rename_i hn
    cases h
    exact .polled f (by simpa using fun ha => hn (.inl ha))

theorem Moves.of_park (h : f.park = some g) : Moves t f g := by
  unfold Forwarder.park at h
  split at h
  · cases h
    exact .parked f
  · cases h

theorem Moves.of_next {topic : Topic} (h : f.next t topic = some g) : Moves t f g := by
  unfold Forwarder.next at h
  split at h
  · rename_i hidle
    obtain ⟨x, hx, rfl⟩ := Option.map_eq_some_iff.mp h
    exact .next f topic x hx (List.isEmpty_iff.mp hidle.2)
  · cases h

namespace Evolves

theorem hear (f : Forwarder) (live : Live) :
    Evolves wire (wire ++ [live]) t f (f.hear wire.length live) := by
  by_cases h : f.running = true ∧ live.topic ∈ f.channel.topics
  · rw [Forwarder.hear, if_pos h]
    exact .heard f live rfl h.1 h.2
  · rw [Forwarder.hear, if_neg h]
    exact .same f

theorem name (h : Evolves wire wire' t f g) : g.name = f.name := by
  cases h with
  | moved _ h => cases h <;> rfl
  | _ => rfl

theorem channel (h : Evolves wire wire' t f g) : g.channel = f.channel := by
  cases h with
  | moved _ h => cases h <;> rfl
  | _ => rfl

theorem running_of (h : Evolves wire wire' t f g) (hg : g.running = true) : f.running = true := by
  cases h with
  | moved _ h =>
    cases h with
    | polled ha => simp [running, ha]
    | parked =>
      cases ha : f.aborted with
      | false => simp [running, ha]
      | true => simp [running, ha] at hg
    | next topic x hx hpending => exact hg
  | aborted =>
    have hp : f.polling = true := by simpa [running, abort] using hg
    simp [running, hp]
  | _ => exact hg

theorem heard_of (h : Evolves wire wire' t f g) {k : Nat} (hk : k ∈ g.heard) :
    k ∈ f.heard ∨ ∃ live, wire' = wire ++ [live] ∧ k = wire.length ∧ f.running = true ∧
      live.topic ∈ f.channel.topics := by
  cases h with
  | heard live hwire hrun htopic =>
    rcases List.mem_append.mp hk with hk | hk
    · exact .inl hk
    · exact .inr ⟨live, hwire, List.mem_singleton.mp hk, hrun, htopic⟩
  | moved _ h => cases h <;> exact .inl hk
  | _ => exact .inl hk

theorem heard_le (h : Evolves wire wire' t f g) {k : Nat} (hk : k ∈ f.heard) : k ∈ g.heard := by
  cases h with
  | heard live hwire hrun htopic => exact List.mem_append_left _ hk
  | moved _ h => cases h <;> exact hk
  | _ => exact hk

end Evolves

end Forwarder

inductive JoinStep (number : Nat) : Answer → Join → Join → List ServerFrame → Prop
  | market {j : Join} (id : MarketId) (found : Market) (hstage : j.stage = .market id) :
      JoinStep number (.market (.ok (some found))) j
        { j with stage := .subscribing j.channel.topics } []
  | subscribed {j : Join} (topic : Topic) (rest : List Topic)
      (hstage : j.stage = .subscribe topic rest) :
      JoinStep number (.subscribed (.ok ())) j { j with
        stage := .subscribing rest
        subscribed := topic :: j.subscribed
        heardFrom := number } []
  | read {x : Answer} {j : Join} (frames : List ServerFrame) (hstage : j.stage = .history)
      (hread : j.read x = some (.ok frames)) :
      JoinStep number x j { j with stage := .replay frames, replayed := frames } []
  | replayed {j : Join} (frame : ServerFrame) (rest : List ServerFrame)
      (hstage : j.stage = .replay (frame :: rest)) :
      JoinStep number .sent j { j with stage := .replay rest } [frame]

def Connection.writeAll (c : Connection) (frames : List ServerFrame) : Connection :=
  { c with written := c.written ++ frames.map fun frame => ⟨frame, none⟩ }

section
variable (parseUuid : Text → Option Uuid)

inductive Effect (c : Connection) : WsAct → Connection → Prop
  | published (live : Live) : Effect c (.publish live) (c.publish live)
  | moved (a : WsAct) (t : Nat) (f g : Forwarder) (hf : c.forwarders[t]? = some f)
      (hstep : f.Moves t g) :
      Effect c a { c with forwarders := c.forwarders.set t g }
  | sent (t : Nat) (f : Forwarder) (out : Outgoing) (rest : List Outgoing)
      (hf : c.forwarders[t]? = some f) (hpolling : f.polling = true)
      (hpending : f.pending = out :: rest) :
      Effect c (.send t) { c with
        forwarders := c.forwarders.set t { f with pending := rest }
        queue := c.queue ++ [out] }
  | drained (out : Outgoing) (rest : List Outgoing) (hidle : c.handling = .idle)
      (hqueue : c.queue = out :: rest) :
      Effect c .drain { c with queue := rest, written := c.written ++ [out] }
  | refused (a : WsAct) (message : String) : Effect c a (c.refuse message)
  | turned (a : WsAct) (handling : Handling) (hjoin : ∀ j, handling ≠ .joining j) :
      Effect c a { c with handling := handling }
  | began (name : Text) (channel : Channel) (hidle : c.handling = .idle)
      (hparse : parse parseUuid name = some channel) (hname : name ∉ c.subs.map Prod.fst) :
      Effect c (.receive (some (.subscribe name)))
        { c with handling := .joining (.start name channel) }
  | unsubscribed (name : Text) (t : Nat) (hidle : c.handling = .idle)
      (hname : c.subs.lookup name = some t) :
      Effect c (.receive (some (.unsubscribe name))) { c with
        subs := c.subs.filter fun s => s.1 ≠ name
        forwarders := c.forwarders.modify t Forwarder.abort }
  | joined (x : Answer) (j j' : Join) (frames : List ServerFrame)
      (hjoin : c.handling = .joining j) (hstep : JoinStep c.wire.length x j j' frames) :
      Effect c (.answer x) ((c.writeAll frames).proceed j')
  | closed : Effect c .close c.close

variable {parseUuid}

theorem Connection.onForwarder_some {c c' : Connection} {t : Nat}
    {g : Forwarder → Option Forwarder} (h : c.onForwarder t g = some c') :
    ∃ f f', c.forwarders[t]? = some f ∧ g f = some f' ∧
      c' = { c with forwarders := c.forwarders.set t f' } := by
  obtain ⟨f', hf', rfl⟩ := Option.map_eq_some_iff.mp h
  obtain ⟨f, hf, hg⟩ := Option.bind_eq_some_iff.mp hf'
  exact ⟨f, f', hf, hg, rfl⟩

theorem Effect.of_frame {c : Connection} (hidle : c.handling = .idle) (frame : Option ClientFrame) :
    Effect parseUuid c (.receive frame) (c.handleFrame parseUuid frame) := by
  cases frame with
  | none => exact .refused _ _
  | some frame =>
    cases frame with
    | subscribe name =>
      simp only [Connection.handleFrame]
      cases hparse : parse parseUuid name with
      | none => exact .refused _ _
      | some channel =>
        by_cases hname : name ∈ c.subs.map Prod.fst
        · simp only [hname, if_true]
          exact .refused _ _
        · simp only [hname, if_false]
          exact .began name channel hidle hparse hname
    | unsubscribe name =>
      simp only [Connection.handleFrame]
      cases hname : c.subs.lookup name with
      | none => exact .refused _ _
      | some t => exact .unsubscribed name t hidle hname
    | chatMessage name body replyTo =>
      simp only [Connection.handleFrame]
      cases hparse : parse parseUuid name with
      | none => exact .refused _ _
      | some channel =>
        cases channel with
        | chat room => exact .turned _ _ (by simp)
        | bets feed => exact .refused _ _
        | marketFeed id => exact .refused _ _
    | addReaction messageId emoji => exact .turned _ _ (by simp)
    | removeReaction messageId emoji => exact .turned _ _ (by simp)

theorem Effect.of_answerJoin {c c' : Connection} {j : Join} {x : Answer}
    (hjoin : c.handling = .joining j) (h : c.answerJoin j x = some c') :
    Effect parseUuid c (.answer x) c' := by
  have hnone : c.writeAll [] = c := by simp [Connection.writeAll]
  have hstep : ∀ j', JoinStep c.wire.length x j j' [] →
      Effect parseUuid c (.answer x) (c.proceed j') := fun j' hj => by
    have heff : Effect parseUuid c (.answer x) ((c.writeAll []).proceed j') :=
      .joined x j j' [] hjoin hj
    rwa [hnone] at heff
  unfold Connection.answerJoin at h
  split at h
  · rename_i id hstage
    split at h <;> cases h
    · exact hstep _ (.market id _ hstage)
    · exact .refused _ _
    · exact .refused _ _
  · rename_i topic rest hstage
    split at h <;> cases h
    · exact hstep _ (.subscribed topic rest hstage)
    · exact .refused _ _
  · rename_i hstage
    split at h <;> cases h
    · rename_i frames hread
      exact hstep _ (.read frames hstage hread)
    · exact .refused _ _
  · cases h
  · rename_i frame rest hstage
    split at h <;> cases h
    rename_i x
    exact .joined _ j _ [frame] hjoin (.replayed frame rest hstage)

theorem Effect.of_step {c c' : Connection} {a : WsAct} (h : c.step parseUuid a = some c') :
    Effect parseUuid c a c' := by
  cases a with
  | publish live =>
    cases h
    exact .published live
  | poll t =>
    obtain ⟨f, g, hf, hg, rfl⟩ := Connection.onForwarder_some h
    exact .moved _ t f g hf (.of_poll hg)
  | next t topic =>
    obtain ⟨f, g, hf, hg, rfl⟩ := Connection.onForwarder_some h
    exact .moved _ t f g hf (.of_next hg)
  | send t =>
    simp only [Connection.step, Connection.send] at h
    split at h
    · cases h
    · rename_i f hf _
      split at h
      · rename_i out rest hpolling hpending
        split at h <;> cases h
        exact .sent t f out rest hf hpolling hpending
      · cases h
    · cases h
  | park t =>
    obtain ⟨f, g, hf, hg, rfl⟩ := Connection.onForwarder_some h
    exact .moved _ t f g hf (.of_park hg)
  | drain =>
    simp only [Connection.step] at h
    split at h <;> cases h
    rename_i out rest hidle hqueue
    exact .drained out rest hidle hqueue
  | receive frame =>
    simp only [Connection.step] at h
    split at h <;> cases h
    rename_i hidle
    exact .of_frame hidle frame
  | answer x =>
    simp only [Connection.step, Connection.handleAnswer] at h
    split at h
    · rename_i j hjoin
      exact .of_answerJoin hjoin h
    all_goals cases h
    all_goals first
      | exact .refused _ _
      | exact .turned _ _ (by simp)
  | close =>
    simp only [Connection.step] at h
    split at h <;> cases h
    exact .closed

/-! ### What becomes of the tasks -/

theorem Connection.proceed_cases (c : Connection) (j : Join) :
    c.proceed j = { c with handling := .joining j } ∨
      (j.stage = .replay [] ∧ c.proceed j = c.spawn j) := by
  unfold Connection.proceed
  split
  · rename_i hstage
    exact .inr ⟨hstage, rfl⟩
  · exact .inl rfl

theorem Effect.wire {c c' : Connection} {a : WsAct} (h : Effect parseUuid c a c') :
    c'.wire = c.wire ∨ ∃ live, a = .publish live ∧ c'.wire = c.wire ++ [live] := by
  cases h with
  | published live => exact .inr ⟨live, rfl, rfl⟩
  | joined x j j' frames hjoin hstep =>
    rcases (c.writeAll frames).proceed_cases j' with hp | ⟨-, hp⟩ <;> rw [hp] <;> exact .inl rfl
  | _ => exact .inl rfl

theorem Effect.wire_le {c c' : Connection} {a : WsAct} (h : Effect parseUuid c a c') :
    c.wire.length ≤ c'.wire.length := by
  rcases h.wire with hw | ⟨live, -, hw⟩
  · rw [hw]
  · simp [hw]

theorem evolves_set {wire wire' : List Live} {s t : Nat} {fs : List Forwarder} {f f' g : Forwarder}
    (hf : fs[s]? = some f) (hstep : f.Evolves wire wire' s f') (hg : (fs.set s f')[t]? = some g) :
    ∃ f, fs[t]? = some f ∧ f.Evolves wire wire' t g := by
  by_cases hst : s = t
  · subst hst
    have hlt := (List.getElem?_eq_some_iff.mp hf).1
    rw [List.getElem?_set_self hlt, Option.some.injEq] at hg
    exact ⟨f, hf, hg ▸ hstep⟩
  · rw [List.getElem?_set_ne hst] at hg
    exact ⟨g, hg, .same g⟩

theorem Effect.forwarder {c c' : Connection} {a : WsAct} (h : Effect parseUuid c a c') {t : Nat}
    {g : Forwarder} (hg : c'.forwarders[t]? = some g) :
    (∃ f, c.forwarders[t]? = some f ∧ f.Evolves c.wire c'.wire t g) ∨
      ∃ x j j' frames, a = .answer x ∧ c.handling = .joining j ∧
      JoinStep c.wire.length x j j' frames ∧
        j'.stage = .replay [] ∧ c' = (c.writeAll frames).spawn j' ∧
        t = c.forwarders.length ∧ g = j'.forwarder := by
  cases h with
  | published live =>
    obtain ⟨f, hf, rfl⟩ := Option.map_eq_some_iff.mp (List.getElem?_map ▸ hg)
    exact .inl ⟨f, hf, .hear f live⟩
  | moved _ s f f' hf hstep => exact .inl (evolves_set hf (.moved f f' hstep) hg)
  | sent s f out rest hf hpolling hpending =>
    exact .inl (evolves_set hf (.sent f out rest hpending) hg)
  | unsubscribed name s hidle hname =>
    rw [List.getElem?_modify] at hg
    obtain ⟨f, hf, rfl⟩ := Option.map_eq_some_iff.mp hg
    refine .inl ⟨f, hf, ?_⟩
    split
    · exact .aborted f
    · exact .same f
  | joined x j j' frames hjoin hstep =>
    rcases (c.writeAll frames).proceed_cases j' with hp | ⟨hstage, hp⟩
    · rw [hp] at hg ⊢
      exact .inl ⟨g, hg, .same g⟩
    · rw [hp] at hg ⊢
      simp only [Connection.spawn, List.getElem?_append] at hg
      split at hg
      · exact .inl ⟨g, hg, .same g⟩
      · rename_i hge
        rw [List.getElem?_singleton] at hg
        split at hg
        · rename_i heq
          refine .inr ⟨x, j, j', frames, rfl, hjoin, hstep, hstage, rfl, ?_, ?_⟩
          · simp only [Connection.writeAll] at heq hge ⊢
            omega
          · exact (Option.some.inj hg).symm
        · cases hg
  | closed =>
    simp only [Connection.close, List.getElem?_mapIdx] at hg
    obtain ⟨f, hf, rfl⟩ := Option.map_eq_some_iff.mp hg
    refine .inl ⟨f, hf, ?_⟩
    split
    · exact .aborted f
    · exact .same f
  | _ => exact .inl ⟨g, hg, .same g⟩

theorem Effect.forwarders_le {c c' : Connection} {a : WsAct} (h : Effect parseUuid c a c') :
    c.forwarders.length ≤ c'.forwarders.length := by
  cases h with
  | joined x j j' frames hjoin hstep =>
    rcases (c.writeAll frames).proceed_cases j' with hp | ⟨-, hp⟩ <;> rw [hp] <;>
      simp [Connection.spawn, Connection.writeAll]
  | published live => simp [Connection.publish]
  | closed => simp [Connection.close]
  | _ => simp [Connection.refuse, Connection.write]

theorem Effect.forwarders_length {c c' : Connection} {a : WsAct} (h : Effect parseUuid c a c')
    (ha : ∀ x, a ≠ .answer x) : c'.forwarders.length = c.forwarders.length := by
  cases h with
  | joined x j j' frames hjoin hstep => exact absurd rfl (ha x)
  | published live => simp [Connection.publish]
  | closed => simp [Connection.close]
  | _ => simp [Connection.refuse, Connection.write]

theorem Effect.persists {c c' : Connection} {a : WsAct} (h : Effect parseUuid c a c') {t : Nat}
    {f : Forwarder} (hf : c.forwarders[t]? = some f) :
    ∃ g, c'.forwarders[t]? = some g ∧ f.Evolves c.wire c'.wire t g := by
  have hlt := (List.getElem?_eq_some_iff.mp hf).1
  have hlt' := lt_of_lt_of_le hlt h.forwarders_le
  refine ⟨c'.forwarders[t], List.getElem?_eq_getElem hlt', ?_⟩
  rcases h.forwarder (List.getElem?_eq_getElem hlt') with
    ⟨f', hf', hstep⟩ | ⟨x, j, j', frames, -, -, -, -, -, ht, -⟩
  · rw [hf] at hf'
    exact Option.some.inj hf' ▸ hstep
  · omega

theorem Forwarder.Evolves.kept {wire wire' : List Live} {t : Nat} {f g : Forwarder}
    (h : f.Evolves wire wire' t g) : g.heardFrom = f.heardFrom ∧ g.replayed = f.replayed := by
  cases h with
  | moved _ h => cases h <;> exact ⟨rfl, rfl⟩
  | _ => exact ⟨rfl, rfl⟩

structure Join.Evolves (wire wire' : List Live) (j j' : Join) : Prop where
  name : j'.name = j.name
  channel : j'.channel = j.channel
  inbox : ∀ x ∈ j'.inbox, x ∈ j.inbox ∨
    (wire' = wire ++ [x.2] ∧ x.1 = wire.length ∧ x.2.topic ∈ j.subscribed)

theorem Join.Evolves.refl {wire wire' : List Live} (j : Join) : j.Evolves wire wire' j :=
  ⟨rfl, rfl, fun _ hx => .inl hx⟩

theorem Join.Evolves.hear {wire : List Live} (j : Join) (live : Live) :
    j.Evolves wire (wire ++ [live]) (j.hear wire.length live) := by
  unfold Join.hear
  split
  · rename_i htopic
    refine ⟨rfl, rfl, fun x hx => ?_⟩
    rcases List.mem_append.mp hx with hx | hx
    · exact .inl hx
    · cases List.mem_singleton.mp hx
      exact .inr ⟨rfl, rfl, htopic⟩
  · exact .refl j

theorem JoinStep.evolves {wire wire' : List Live} {x : Answer} {j j' : Join}
    {frames : List ServerFrame} (h : JoinStep wire.length x j j' frames) :
    j.Evolves wire wire' j' := by
  cases h <;> exact ⟨rfl, rfl, fun _ hx => .inl hx⟩

theorem Effect.joining {c c' : Connection} {a : WsAct} (h : Effect parseUuid c a c') {j' : Join}
    (hj' : c'.handling = .joining j') :
    (∃ j, c.handling = .joining j ∧ j.Evolves c.wire c'.wire j') ∨
      ∃ name channel, a = .receive (some (.subscribe name)) ∧
        parse parseUuid name = some channel ∧ name ∉ c.subs.map Prod.fst ∧
        j' = .start name channel ∧ c' = { c with handling := .joining j' } := by
  cases h with
  | published live =>
    simp only [Connection.publish] at hj'
    split at hj'
    · rename_i j hj
      cases hj'
      exact .inl ⟨j, hj, .hear j live⟩
    · exact .inl ⟨j', hj', .refl j'⟩
  | refused message => cases hj'
  | turned _ handling hjoin => exact absurd hj' (hjoin j')
  | began name channel hidle hparse hname =>
    cases hj'
    exact .inr ⟨name, channel, rfl, hparse, hname, rfl, rfl⟩
  | joined x j j'' frames hjoin hstep =>
    rcases (c.writeAll frames).proceed_cases j'' with hp | ⟨-, hp⟩
    · rw [hp] at hj' ⊢
      cases hj'
      exact .inl ⟨j, hjoin, hstep.evolves⟩
    · rw [hp] at hj'
      cases hj'
  | closed => cases hj'
  | _ => exact .inl ⟨j', hj', .refl j'⟩

theorem Effect.joining_kept {c c' : Connection} {a : WsAct} (h : Effect parseUuid c a c')
    (ha : ∀ x, a ≠ .answer x) {j' : Join} (hj' : c'.handling = .joining j') :
    (∃ j, c.handling = .joining j ∧ j'.name = j.name ∧ j'.channel = j.channel ∧
      j'.stage = j.stage ∧ j'.heardFrom = j.heardFrom ∧ j'.replayed = j.replayed) ∨
      ∃ name channel, j' = .start name channel := by
  cases h with
  | published live =>
    simp only [Connection.publish] at hj'
    split at hj'
    · rename_i j hj
      cases hj'
      refine .inl ⟨j, hj, ?_⟩
      rw [Join.hear]
      split <;> exact ⟨rfl, rfl, rfl, rfl, rfl⟩
    · exact .inl ⟨j', hj', rfl, rfl, rfl, rfl, rfl⟩
  | refused message => cases hj'
  | turned _ handling hjoin => exact absurd hj' (hjoin j')
  | began name channel hidle hparse hname =>
    cases hj'
    exact .inr ⟨name, channel, rfl⟩
  | joined x j j'' frames hjoin hstep => exact absurd rfl (ha x)
  | closed => cases hj'
  | _ => exact .inl ⟨j', hj', rfl, rfl, rfl, rfl, rfl⟩

end

structure Forwarder.Wf (parseUuid : Text → Option Uuid) (published t : Nat) (f : Forwarder) :
    Prop where
  parsed : parse parseUuid f.name = some f.channel
  inbox : ∀ x ∈ f.inbox, x.1 ∈ f.heard
  pending : ∀ out ∈ f.pending, out.frame.channel? = some f.name ∧
    ∃ k ∈ f.heard, out.source = some (t, k)
  heard : ∀ k ∈ f.heard, k < published

def JoinStage.Wf (name : Text) (channel : Channel) : JoinStage → Prop
  | .subscribe topic rest => ∀ x ∈ topic :: rest, x ∈ channel.topics
  | .replay frames => ∀ frame ∈ frames, frame.channel? = some name
  | _ => True

structure Join.Wf (parseUuid : Text → Option Uuid) (published : Nat) (j : Join) : Prop where
  parsed : parse parseUuid j.name = some j.channel
  subscribed : ∀ topic ∈ j.subscribed, topic ∈ j.channel.topics
  stage : j.stage.Wf j.name j.channel
  inbox : ∀ x ∈ j.inbox, x.1 < published

def Forwarder.tag (f : Forwarder) : Text × Bool := (f.name, f.aborted)

/-- The map holds exactly the tasks that were not aborted, each under its own name. -/
structure Connection.Wf (parseUuid : Text → Option Uuid) (c : Connection) : Prop where
  forwarders : ∀ t (f : Forwarder), c.forwarders[t]? = some f → f.Wf parseUuid c.wire.length t
  join : ∀ j, c.handling = .joining j →
    j.Wf parseUuid c.wire.length ∧ j.name ∉ c.subs.map Prod.fst
  names : (c.subs.map Prod.fst).Nodup
  owned : ∀ name t, (name, t) ∈ c.subs ↔
    c.forwarders[t]?.map Forwarder.tag = some (name, false)

section
variable {parseUuid : Text → Option Uuid}

namespace Forwarder
variable {n n' t : Nat} {f g : Forwarder}

theorem Wf.moves (h : f.Wf parseUuid n t) (hstep : f.Moves t g) : g.Wf parseUuid n t := by
  cases hstep with
  | next topic x hx hpending =>
    refine ⟨h.parsed, fun y hy => h.inbox y (List.mem_of_mem_eraseP hy), fun out hout => ?_,
      h.heard⟩
    obtain ⟨frame, hframe, rfl⟩ := List.mem_map.mp hout
    exact ⟨Live.frames_channel hframe, x.1, h.inbox x (List.mem_of_find?_eq_some hx), rfl⟩
  | _ => exact ⟨h.parsed, h.inbox, h.pending, h.heard⟩

theorem Wf.later (h : f.Wf parseUuid n t) (hle : n ≤ n') : f.Wf parseUuid n' t :=
  ⟨h.parsed, h.inbox, h.pending, fun k hk => lt_of_lt_of_le (h.heard k hk) hle⟩

theorem Wf.evolves {wire wire' : List Live} (h : f.Wf parseUuid wire.length t)
    (hle : wire.length ≤ wire'.length) (hstep : f.Evolves wire wire' t g) :
    g.Wf parseUuid wire'.length t := by
  cases hstep with
  | heard live hwire hrun htopic =>
    refine ⟨h.parsed, fun x hx => ?_, fun out hout => ?_, fun k hk => ?_⟩
    · rcases List.mem_append.mp hx with hx | hx
      · exact List.mem_append_left _ (h.inbox x hx)
      · cases List.mem_singleton.mp hx
        simp
    · obtain ⟨hname, k, hk, hsource⟩ := h.pending out hout
      exact ⟨hname, k, List.mem_append_left _ hk, hsource⟩
    · rcases List.mem_append.mp hk with hk | hk
      · exact lt_of_lt_of_le (h.heard k hk) hle
      · cases List.mem_singleton.mp hk
        simp [hwire]
  | moved _ hstep => exact (h.moves hstep).later hle
  | sent out rest hpending =>
    have hmem : ∀ o ∈ rest, o ∈ f.pending := fun o ho => hpending ▸ List.mem_cons_of_mem out ho
    exact ⟨h.parsed, h.inbox, fun o ho => h.pending o (hmem o ho), (h.later hle).heard⟩
  | _ => exact ⟨h.parsed, h.inbox, h.pending, (h.later hle).heard⟩

end Forwarder

namespace Join
variable {n : Nat} {x : Answer} {j j' : Join} {frames : List ServerFrame}

theorem read_channel (h : j.read x = some (.ok frames)) :
    ∀ frame ∈ frames, frame.channel? = some j.name := by
  unfold Join.read at h
  intro frame hframe
  split at h
  · split at h <;> cases h
    cases List.mem_singleton.mp hframe
    rfl
  · split at h <;> cases h
    cases List.mem_singleton.mp hframe
    rfl
  · split at h <;> cases h
    obtain ⟨o, -, rfl⟩ := List.mem_map.mp hframe
    rfl
  · cases h

theorem subscribing_wf (name : Text) {channel : Channel} {topics : List Topic}
    (h : ∀ topic ∈ topics, topic ∈ channel.topics) :
    (JoinStage.subscribing topics).Wf name channel := by
  cases topics with
  | nil => trivial
  | cons topic rest => exact h

theorem start_wf {name : Text} {channel : Channel}
    (hparse : parse parseUuid name = some channel) : (start name channel).Wf parseUuid n := by
  refine ⟨hparse, fun topic h => absurd h List.not_mem_nil, ?_, fun x h =>
    absurd h List.not_mem_nil⟩
  simp only [start]
  split
  · trivial
  · exact subscribing_wf name fun _ h => h

theorem Wf.hear (h : j.Wf parseUuid n) (live : Live) : (j.hear n live).Wf parseUuid (n + 1) := by
  have hlater : ∀ x ∈ j.inbox, x.1 < n + 1 := fun x hx => Nat.lt_succ_of_lt (h.inbox x hx)
  unfold Join.hear
  split
  · refine ⟨h.parsed, h.subscribed, h.stage, fun x hx => ?_⟩
    rcases List.mem_append.mp hx with hx | hx
    · exact hlater x hx
    · cases List.mem_singleton.mp hx
      exact Nat.lt_succ_self n
  · exact ⟨h.parsed, h.subscribed, h.stage, hlater⟩

theorem Wf.step (h : j.Wf parseUuid n) (hstep : JoinStep n x j j' frames) :
    j'.Wf parseUuid n := by
  cases hstep with
  | market id found hstage =>
    exact ⟨h.parsed, h.subscribed, subscribing_wf _ fun _ hx => hx, h.inbox⟩
  | subscribed topic rest hstage =>
    have htopics : ∀ y ∈ topic :: rest, y ∈ j.channel.topics := by
      have hwf := h.stage
      rwa [hstage] at hwf
    refine ⟨h.parsed, fun y hy => ?_, subscribing_wf _ fun y hy => ?_, h.inbox⟩
    · rcases List.mem_cons.mp hy with rfl | hy
      · exact htopics y List.mem_cons_self
      · exact h.subscribed y hy
    · exact htopics y (List.mem_cons_of_mem topic hy)
  | read frames hstage hread =>
    exact ⟨h.parsed, h.subscribed, read_channel hread, h.inbox⟩
  | replayed frame rest hstage =>
    have hframes : ∀ y ∈ frame :: rest, y.channel? = some j.name := by
      have hwf := h.stage
      rwa [hstage] at hwf
    exact ⟨h.parsed, h.subscribed, fun y hy => hframes y (List.mem_cons_of_mem frame hy), h.inbox⟩

theorem Wf.forwarder (h : j.Wf parseUuid n) (t : Nat) : j.forwarder.Wf parseUuid n t :=
  ⟨h.parsed, fun _ hx => List.mem_map_of_mem hx, fun out hout => absurd hout List.not_mem_nil,
    fun k hk => by
      obtain ⟨x, hx, rfl⟩ := List.mem_map.mp hk
      exact h.inbox x hx⟩

end Join

namespace Connection
variable {c c' : Connection} {a : WsAct}

theorem Wf.name_unique (h : c.Wf parseUuid) {name : Text} {t t' : Nat} (ht : (name, t) ∈ c.subs)
    (ht' : (name, t') ∈ c.subs) : t = t' :=
  congrArg Prod.snd (List.inj_on_of_nodup_map h.names ht ht' rfl)

theorem Wf.of_lookup {name : Text} {t : Nat} (h : c.subs.lookup name = some t) :
    (name, t) ∈ c.subs := by
  obtain ⟨l₁, l₂, hsubs, -⟩ := List.lookup_eq_some_iff.mp h
  simp [hsubs]

theorem owned_congr (h : c.Wf parseUuid) (hsubs : c'.subs = c.subs)
    (htag : ∀ t : Nat, c'.forwarders[t]?.map Forwarder.tag = c.forwarders[t]?.map Forwarder.tag)
    (name : Text) (t : Nat) :
    (name, t) ∈ c'.subs ↔ c'.forwarders[t]?.map Forwarder.tag = some (name, false) := by
  rw [hsubs, htag]
  exact h.owned name t

theorem tag_set {fs : List Forwarder} {s : Nat} {f g : Forwarder} (hf : fs[s]? = some f)
    (htag : g.tag = f.tag) (t : Nat) :
    (fs.set s g)[t]?.map Forwarder.tag = fs[t]?.map Forwarder.tag := by
  by_cases hst : s = t
  · subst hst
    rw [List.getElem?_set_self (List.getElem?_eq_some_iff.mp hf).1, hf]
    simp [htag]
  · rw [List.getElem?_set_ne hst]

theorem owned_unsubscribed (h : c.Wf parseUuid) {name : Text} {s : Nat}
    (hs : c.subs.lookup name = some s) (n : Text) (t : Nat) :
    (n, t) ∈ (c.subs.filter fun x => x.1 ≠ name) ↔
      (c.forwarders.modify s Forwarder.abort)[t]?.map Forwarder.tag = some (n, false) := by
  have hmem := Wf.of_lookup hs
  have htag := (h.owned name s).mp hmem
  rw [List.mem_filter, List.getElem?_modify, h.owned n t]
  by_cases hst : s = t
  · subst hst
    obtain ⟨f, hf, hft⟩ := Option.map_eq_some_iff.mp htag
    have hname : f.name = name := congrArg Prod.fst hft
    simp only [hf, Option.map_some, Option.map_eq_map, if_true, Forwarder.tag, Forwarder.abort,
      Option.some.injEq, Prod.mk.injEq, decide_eq_true_eq]
    constructor
    · rintro ⟨⟨hn, -⟩, hne⟩
      exact absurd (hn.symm.trans hname) hne
    · simp
  · simp only [hst, if_false, Option.map_eq_map, Option.map_id', decide_eq_true_eq]
    refine ⟨fun hx => hx.1, fun hx => ⟨hx, ?_⟩⟩
    rintro rfl
    exact hst (h.name_unique hmem ((h.owned n t).mpr hx))

theorem owned_spawned (h : c.Wf parseUuid) (j : Join) (n : Text) (t : Nat) :
    (n, t) ∈ (c.spawn j).subs ↔
      (c.spawn j).forwarders[t]?.map Forwarder.tag = some (n, false) := by
  simp only [spawn, List.mem_cons, Prod.mk.injEq]
  rcases lt_trichotomy t c.forwarders.length with hlt | rfl | hgt
  · rw [List.getElem?_append_left hlt, ← h.owned n t]
    exact ⟨fun hx => hx.resolve_left fun he => absurd he.2 (Nat.ne_of_lt hlt), .inr⟩
  · rw [List.getElem?_concat_length]
    have hnot : (n, c.forwarders.length) ∉ c.subs := fun hx => by
      have htag := (h.owned _ _).mp hx
      simp at htag
    simp [hnot, Forwarder.tag, Join.forwarder, eq_comm]
  · have hnot : (n, t) ∉ c.subs := fun hx => by
      have htag := (h.owned _ _).mp hx
      rw [List.getElem?_eq_none (Nat.le_of_lt hgt)] at htag
      simp at htag
    have hnone : (c.forwarders ++ [j.forwarder])[t]? = none :=
      List.getElem?_eq_none (by simpa using hgt)
    simp [hnot, hnone, Nat.ne_of_gt hgt]

theorem owned_closed (h : c.Wf parseUuid) (n : Text) (t : Nat) :
    (n, t) ∈ c.close.subs ↔ c.close.forwarders[t]?.map Forwarder.tag = some (n, false) := by
  simp only [close, List.not_mem_nil, List.getElem?_mapIdx, false_iff]
  intro hx
  obtain ⟨g, hg, htag⟩ := Option.map_eq_some_iff.mp hx
  obtain ⟨f, hf, rfl⟩ := Option.map_eq_some_iff.mp hg
  by_cases ht : t ∈ c.subs.map Prod.snd
  · simp [ht, Forwarder.tag, Forwarder.abort] at htag
  · simp only [ht, if_false] at htag
    have hmem := (h.owned n t).mpr (by rw [hf, Option.map_some, htag])
    exact ht (List.mem_map_of_mem hmem)

theorem Wf.join_effect (h : c.Wf parseUuid) (heff : Effect parseUuid c a c') {j' : Join}
    (hj' : c'.handling = .joining j') :
    j'.Wf parseUuid c'.wire.length ∧ j'.name ∉ c'.subs.map Prod.fst := by
  cases heff with
  | published live =>
    simp only [publish] at hj'
    split at hj'
    · rename_i j hj
      cases hj'
      obtain ⟨hwf, hname⟩ := h.join j hj
      have hlen : (c.publish live).wire.length = c.wire.length + 1 := by simp [publish]
      rw [hlen]
      refine ⟨hwf.hear live, ?_⟩
      rw [Join.hear]
      split <;> exact hname
    · rename_i hnot
      exact absurd hj' (hnot j')
  | refused message => cases hj'
  | turned _ handling hjoin => exact absurd hj' (hjoin j')
  | began name channel hidle hparse hname =>
    cases hj'
    exact ⟨Join.start_wf hparse, hname⟩
  | unsubscribed name s hidle hname =>
    have hnot : c.handling = .joining j' := hj'
    rw [hidle] at hnot
    cases hnot
  | joined x j j'' frames hjoin hstep =>
    obtain ⟨hwf, hname⟩ := h.join j hjoin
    have hname' : j''.name = j.name := by cases hstep <;> rfl
    rcases (c.writeAll frames).proceed_cases j'' with hp | ⟨-, hp⟩
    · rw [hp] at hj' ⊢
      cases hj'
      exact ⟨hwf.step hstep, hname' ▸ hname⟩
    · rw [hp] at hj'
      cases hj'
  | closed => cases hj'
  | _ => exact h.join j' hj'

theorem Wf.effect (h : c.Wf parseUuid) (heff : Effect parseUuid c a c') : c'.Wf parseUuid := by
  have hforwarders : ∀ t (g : Forwarder), c'.forwarders[t]? = some g →
      g.Wf parseUuid c'.wire.length t := by
    intro t g hg
    rcases heff.forwarder hg with ⟨f, hf, hstep⟩ |
      ⟨x, j, j', frames, -, hjoin, hstep, -, rfl, -, rfl⟩
    · exact (h.forwarders t f hf).evolves heff.wire_le hstep
    · exact ((h.join j hjoin).1.step hstep).forwarder t
  refine ⟨hforwarders, fun j' hj' => h.join_effect heff hj', ?_, ?_⟩
  · cases heff with
    | unsubscribed name s hidle hname => exact (List.filter_sublist.map Prod.fst).nodup h.names
    | joined x j j' frames hjoin hstep =>
      have hname : j'.name ∉ c.subs.map Prod.fst := by
        have hold := (h.join j hjoin).2
        cases hstep <;> exact hold
      rcases (c.writeAll frames).proceed_cases j' with hp | ⟨-, hp⟩ <;> rw [hp]
      · exact h.names
      · exact List.nodup_cons.mpr ⟨hname, h.names⟩
    | closed => exact List.nodup_nil
    | _ => exact h.names
  · cases heff with
    | published live =>
      refine owned_congr h rfl fun t => ?_
      simp only [publish, List.getElem?_map, Option.map_map]
      congr 1
      funext f
      simp only [Function.comp_apply, Forwarder.hear]
      split <;> rfl
    | moved _ s f g hf hstep => exact owned_congr h rfl (tag_set hf (by cases hstep <;> rfl))
    | sent s f out rest hf hpolling hpending => exact owned_congr h rfl (tag_set hf rfl)
    | unsubscribed name s hidle hname => exact owned_unsubscribed h hname
    | joined x j j' frames hjoin hstep =>
      rcases (c.writeAll frames).proceed_cases j' with hp | ⟨-, hp⟩ <;> rw [hp]
      · exact h.owned
      · have hwritten : (c.writeAll frames).Wf parseUuid := ⟨h.forwarders, h.join, h.names, h.owned⟩
        exact owned_spawned hwritten j'
    | closed => exact owned_closed h
    | _ => exact h.owned

theorem init_wf : init.Wf parseUuid :=
  ⟨fun t f hf => by simp [init] at hf, fun j hj => by simp [init] at hj, List.nodup_nil,
    fun name t => by simp [init]⟩

end Connection

section
variable {c c' : Connection} {a : WsAct}

theorem Effect.queued (heff : Effect parseUuid c a c') {out : Outgoing} (hout : out ∈ c'.queue) :
    out ∈ c.queue ∨ ∃ (t : Nat) (f : Forwarder), c.forwarders[t]? = some f ∧ f.polling = true ∧
      out ∈ f.pending := by
  cases heff with
  | sent t f out' rest hf hpolling hpending =>
    rcases List.mem_append.mp hout with hout | hout
    · exact .inl hout
    · cases List.mem_singleton.mp hout
      exact .inr ⟨t, f, hf, hpolling, hpending ▸ List.mem_cons_self⟩
  | drained out' rest hidle hqueue => exact .inl (hqueue ▸ List.mem_cons_of_mem out' hout)
  | joined x j j' frames hjoin hstep =>
    rcases (c.writeAll frames).proceed_cases j' with hp | ⟨-, hp⟩ <;> rw [hp] at hout <;>
      exact .inl hout
  | closed => exact absurd hout List.not_mem_nil
  | _ => exact .inl hout

/-- What is written was queued, or is no live frame: an error or the replay of a join. -/
theorem Effect.writes (hwf : c.Wf parseUuid) (heff : Effect parseUuid c a c') :
    ∃ new, c'.written = c.written ++ new ∧ ∀ out ∈ new, out ∈ c.queue ∨
      (out.source = none ∧ (out.frame.channel? = none ∨
        ∃ j, c.handling = .joining j ∧ out.frame.channel? = some j.name)) := by
  cases heff with
  | drained out rest hidle hqueue =>
    refine ⟨[out], rfl, fun o ho => .inl ?_⟩
    rw [List.mem_singleton.mp ho, hqueue]
    exact List.mem_cons_self
  | refused _ message =>
    refine ⟨[⟨.error message, none⟩], rfl, fun o ho => .inr ?_⟩
    rw [List.mem_singleton.mp ho]
    exact ⟨rfl, .inl rfl⟩
  | joined x j j' frames hjoin hstep =>
    refine ⟨frames.map fun frame => ⟨frame, none⟩, ?_, fun o ho => .inr ?_⟩
    · rcases (c.writeAll frames).proceed_cases j' with hp | ⟨-, hp⟩ <;> rw [hp] <;> rfl
    · obtain ⟨frame, hframe, rfl⟩ := List.mem_map.mp ho
      cases hstep with
      | replayed frame' rest hstage =>
        have hstagewf := (hwf.join j hjoin).1.stage
        rw [hstage] at hstagewf
        cases List.mem_singleton.mp hframe
        exact ⟨rfl, .inr ⟨j, hjoin, hstagewf frame List.mem_cons_self⟩⟩
      | _ => exact absurd hframe List.not_mem_nil
  | _ => exact ⟨[], (List.append_nil _).symm, fun o ho => absurd ho List.not_mem_nil⟩

theorem Connection.wf_of_run {as : List WsAct} (hwf : c.Wf parseUuid)
    (hrun : run (Connection.step parseUuid) c as = some c') : c'.Wf parseUuid :=
  run_invariant' (fun _ _ _ h hs => h.effect (Effect.of_step hs)) hwf hrun

end

end

end Betsphere.Ws
