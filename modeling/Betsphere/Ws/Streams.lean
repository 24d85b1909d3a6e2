import Betsphere.Ws.Invariants
set_option autoImplicit false

namespace Betsphere.Ws
open Transition

section
variable (parseUuid : Text → Option Uuid)

/-- A subscribe that the loop would join is to a stream that no subscription under another
name is for, and that no aborted task is still in the middle of forwarding. -/
def Connection.NewStream (c : Connection) : WsAct → Prop
  | .receive (some (.subscribe name)) => name ∈ c.subs.map Prod.fst ∨
      ((∀ s ∈ c.subs, parse parseUuid s.1 ≠ parse parseUuid name) ∧
        ∀ f ∈ c.forwarders, parse parseUuid f.name = parse parseUuid name →
          f.aborted = true → f.polling = false)
  | _ => True

instance (c : Connection) : DecidablePred (c.NewStream parseUuid)
  | .receive (some (.subscribe _)) => inferInstanceAs (Decidable (_ ∨ (_ ∧ _)))
  | .receive none | .receive (some (.unsubscribe _)) | .receive (some (.chatMessage ..))
  | .receive (some (.addReaction ..)) | .receive (some (.removeReaction ..))
  | .publish _ | .poll _ | .next .. | .send _ | .park _ | .drain | .answer _ | .close =>
    isTrue trivial

variable {parseUuid}

/-- No two running tasks forward one stream, and no two tasks hear one publication. -/
structure Connection.OneEach (c : Connection) : Prop where
  one : ∀ (t t' : Nat) (f f' : Forwarder), c.forwarders[t]? = some f →
    c.forwarders[t']? = some f' → f.running = true → f'.running = true →
    f.channel = f'.channel → t = t'
  join : ∀ j, c.handling = .joining j → ∀ (t : Nat) (f : Forwarder),
    c.forwarders[t]? = some f → f.running = true → f.channel ≠ j.channel
  heard : ∀ (t t' : Nat) (f f' : Forwarder) (k : Nat), c.forwarders[t]? = some f →
    c.forwarders[t']? = some f' → k ∈ f.heard → k ∈ f'.heard → t = t'
  joinHeard : ∀ j, c.handling = .joining j → ∀ x ∈ j.inbox, ∀ (t : Nat) (f : Forwarder),
    c.forwarders[t]? = some f → x.1 ∉ f.heard

/-- Every live frame is of a publication that its task heard. -/
def Connection.Heard (c : Connection) (out : Outgoing) : Prop :=
  ∀ t k, out.source = some (t, k) →
    ∃ f : Forwarder, c.forwarders[t]? = some f ∧ k ∈ f.heard

structure Connection.Sourced (c : Connection) : Prop where
  queue : ∀ out ∈ c.queue, c.Heard out
  written : ∀ out ∈ c.written, c.Heard out

namespace Connection
variable {c c' : Connection} {a : WsAct}

/-- A task of the stream that a guarded subscribe joins no longer runs. -/
theorem NewStream.stopped (hwf : c.Wf parseUuid) {name : Text} {channel : Channel}
    (hnew : c.NewStream parseUuid (.receive (some (.subscribe name))))
    (hparse : parse parseUuid name = some channel) (hname : name ∉ c.subs.map Prod.fst) {t : Nat}
    {f : Forwarder} (hf : c.forwarders[t]? = some f) (hrun : f.running = true) :
    f.channel ≠ channel := by
  rintro rfl
  obtain ⟨hsubs, htasks⟩ := hnew.resolve_left hname
  have hsame : parse parseUuid f.name = parse parseUuid name := by
    rw [(hwf.forwarders t f hf).parsed, hparse]
  cases ha : f.aborted with
  | false =>
    have hmem := (hwf.owned f.name t).mpr (by rw [hf, Option.map_some, Forwarder.tag, ha])
    exact hsubs _ hmem hsame
  | true =>
    have hparked := htasks f (List.mem_of_getElem? hf) hsame ha
    simp [Forwarder.running, ha, hparked] at hrun

theorem OneEach.one_effect (h : c.OneEach) (heff : Effect parseUuid c a c') {t t' : Nat}
    {g g' : Forwarder} (hg : c'.forwarders[t]? = some g) (hg' : c'.forwarders[t']? = some g')
    (hrun : g.running = true) (hrun' : g'.running = true) (hchannel : g.channel = g'.channel) :
    t = t' := by
  rcases heff.forwarder hg with ⟨f, hf, hstep⟩ | ⟨x, j, j', frames, -, hjoin, hj, -, -, rfl, rfl⟩
  · have hfrun := hstep.running_of hrun
    rcases heff.forwarder hg' with ⟨f', hf', hstep'⟩ |
      ⟨x, j, j', frames, -, hjoin, hj, -, -, -, rfl⟩
    · exact h.one t t' f f' hf hf' hfrun (hstep'.running_of hrun')
        (by rw [← hstep.channel, ← hstep'.channel, hchannel])
    · have hj' : j'.channel = j.channel := by cases hj <;> rfl
      exact absurd (hstep.channel ▸ hchannel.trans hj') (h.join j hjoin t f hf hfrun)
  · rcases heff.forwarder hg' with ⟨f', hf', hstep'⟩ | ⟨x, -, -, -, -, -, -, -, -, rfl, -⟩
    · have hj' : j'.channel = j.channel := by cases hj <;> rfl
      exact absurd (hstep'.channel ▸ hchannel.symm.trans hj')
        (h.join j hjoin t' f' hf' (hstep'.running_of hrun'))
    · rfl

theorem OneEach.join_effect (h : c.OneEach) (hwf : c.Wf parseUuid)
    (heff : Effect parseUuid c a c') (hnew : c.NewStream parseUuid a) {j' : Join}
    (hj' : c'.handling = .joining j') {t : Nat} {g : Forwarder} (hg : c'.forwarders[t]? = some g)
    (hrun : g.running = true) : g.channel ≠ j'.channel := by
  rcases heff.forwarder hg with ⟨f, hf, hstep⟩ | ⟨x, j, j'', frames, -, -, -, -, rfl, -, -⟩
  · rw [hstep.channel]
    rcases heff.joining hj' with ⟨j, hj, hevolves⟩ | ⟨name, channel, rfl, hparse, hname, rfl, -⟩
    · rw [hevolves.channel]
      exact h.join j hj t f hf (hstep.running_of hrun)
    · exact hnew.stopped hwf hparse hname hf (hstep.running_of hrun)
  · cases hj'

theorem OneEach.heard_effect (h : c.OneEach) (hwf : c.Wf parseUuid)
    (heff : Effect parseUuid c a c') {t t' : Nat} {g g' : Forwarder} {k : Nat}
    (hg : c'.forwarders[t]? = some g) (hg' : c'.forwarders[t']? = some g') (hk : k ∈ g.heard)
    (hk' : k ∈ g'.heard) : t = t' := by
  rcases heff.forwarder hg with ⟨f, hf, hstep⟩ | ⟨x, j, j', frames, -, hjoin, hj, -, -, rfl, rfl⟩
  · rcases heff.forwarder hg' with ⟨f', hf', hstep'⟩ |
      ⟨x, j, j', frames, -, hjoin, hj, -, rfl, -, rfl⟩
    · rcases hstep.heard_of hk with hold | ⟨live, hwire, rfl, hrun, htopic⟩
      · rcases hstep'.heard_of hk' with hold' | ⟨live, -, rfl, -, -⟩
        · exact h.heard t t' f f' k hf hf' hold hold'
        · exact absurd ((hwf.forwarders t f hf).heard _ hold) (lt_irrefl _)
      · rcases hstep'.heard_of hk' with hold' | ⟨live', hwire', -, hrun', htopic'⟩
        · exact absurd ((hwf.forwarders t' f' hf').heard _ hold') (lt_irrefl _)
        · -- Both heard the one payload that was published.
          rw [hwire, List.append_cancel_left_eq, List.cons.injEq] at hwire'
          obtain ⟨rfl, -⟩ := hwire'
          exact h.one t t' f f' hf hf' hrun hrun' (Channel.topics_disjoint htopic htopic')
    · obtain ⟨y, hy, rfl⟩ := List.mem_map.mp hk'
      have hy' : y ∈ j.inbox := by cases hj <;> exact hy
      rcases hstep.heard_of hk with hold | ⟨live, -, heq, -, -⟩
      · exact absurd hold (h.joinHeard j hjoin y hy' t f hf)
      · exact absurd ((hwf.join j hjoin).1.inbox y hy') (heq ▸ lt_irrefl _)
  · obtain ⟨y, hy, rfl⟩ := List.mem_map.mp hk
    have hy' : y ∈ j.inbox := by cases hj <;> exact hy
    rcases heff.forwarder hg' with ⟨f', hf', hstep'⟩ | ⟨x, -, -, -, -, -, -, -, -, rfl, -⟩
    · rcases hstep'.heard_of hk' with hold | ⟨live, -, heq, -, -⟩
      · exact absurd hold (h.joinHeard j hjoin y hy' t' f' hf')
      · exact absurd ((hwf.join j hjoin).1.inbox y hy') (heq ▸ lt_irrefl _)
    · rfl

theorem OneEach.joinHeard_effect (h : c.OneEach) (hwf : c.Wf parseUuid)
    (heff : Effect parseUuid c a c') {j' : Join} (hj' : c'.handling = .joining j')
    {x : Nat × Live} (hx : x ∈ j'.inbox) {t : Nat} {g : Forwarder}
    (hg : c'.forwarders[t]? = some g) : x.1 ∉ g.heard := by
  intro hk
  rcases heff.joining hj' with ⟨j, hj, hevolves⟩ | ⟨name, channel, -, -, -, rfl, -⟩
  · rcases heff.forwarder hg with ⟨f, hf, hstep⟩ | ⟨y, i, i', frames, -, -, -, -, rfl, -, -⟩
    · rcases hevolves.inbox x hx with hold | ⟨hwire, hnumber, htopic⟩
      · rcases hstep.heard_of hk with hheard | ⟨live, -, heq, -, -⟩
        · exact h.joinHeard j hj x hold t f hf hheard
        · exact absurd ((hwf.join j hj).1.inbox x hold) (heq ▸ lt_irrefl _)
      · rcases hstep.heard_of hk with hheard | ⟨live, hwire', -, hrun, htopic'⟩
        · exact absurd ((hwf.forwarders t f hf).heard _ hheard) (hnumber ▸ lt_irrefl _)
        · -- The join and the task would listen to one topic, so to one stream.
          rw [hwire, List.append_cancel_left_eq, List.cons.injEq] at hwire'
          rw [← hwire'.1] at htopic'
          exact h.join j hj t f hf hrun
            (Channel.topics_disjoint htopic' ((hwf.join j hj).1.subscribed _ htopic))
    · cases hj'
  · exact absurd hx List.not_mem_nil

theorem OneEach.effect (h : c.OneEach) (hwf : c.Wf parseUuid) (heff : Effect parseUuid c a c')
    (hnew : c.NewStream parseUuid a) : c'.OneEach where
  one _ _ _ _ hg hg' := h.one_effect heff hg hg'
  join _ hj' _ _ hg := h.join_effect hwf heff hnew hj' hg
  heard _ _ _ _ _ hg hg' := h.heard_effect hwf heff hg hg'
  joinHeard _ hj' _ hx _ _ hg := h.joinHeard_effect hwf heff hj' hx hg

theorem Heard.effect {out : Outgoing} (h : c.Heard out) (heff : Effect parseUuid c a c') :
    c'.Heard out := by
  intro t k hsource
  obtain ⟨f, hf, hk⟩ := h t k hsource
  obtain ⟨g, hg, hstep⟩ := heff.persists hf
  exact ⟨g, hg, hstep.heard_le hk⟩

theorem Sourced.effect (h : c.Sourced) (hwf : c.Wf parseUuid) (heff : Effect parseUuid c a c') :
    c'.Sourced := by
  refine ⟨fun out hout => ?_, fun out hout => ?_⟩
  · rcases heff.queued hout with hout | ⟨t, f, hf, -, hpending⟩
    · exact (h.queue out hout).effect heff
    · have hheard : c.Heard out := by
        obtain ⟨-, k, hk, hsource⟩ := (hwf.forwarders t f hf).pending out hpending
        intro t' k' hsource'
        rw [hsource, Option.some.injEq, Prod.mk.injEq] at hsource'
        exact hsource'.1 ▸ hsource'.2 ▸ ⟨f, hf, hk⟩
      exact hheard.effect heff
  · obtain ⟨new, hnew, hfrom⟩ := heff.writes hwf
    rw [hnew] at hout
    rcases List.mem_append.mp hout with hout | hout
    · exact (h.written out hout).effect heff
    · rcases hfrom out hout with hqueue | ⟨hsource, -⟩
      · exact (h.queue out hqueue).effect heff
      · intro t k hsome
        rw [hsource] at hsome
        cases hsome

theorem init_oneEach : init.OneEach where
  one t t' f f' hf := by simp [init] at hf
  join j hj := by simp [init] at hj
  heard t t' f f' k hf := by simp [init] at hf
  joinHeard j hj := by simp [init] at hj

theorem init_sourced : init.Sourced where
  queue _ hout := absurd hout List.not_mem_nil
  written _ hout := absurd hout List.not_mem_nil

end Connection

/-- While every subscribe is to a new stream, each stream has at most one running task, no
publication is written by two tasks, and a subscribe to a subscribed stream is an error. -/
theorem one_forwarder {parseUuid : Text → Option Uuid} {as : List WsAct} {c : Connection}
    (hrun : run (Connection.step parseUuid) .init as = some c)
    (hg : Guarded (Connection.step parseUuid) (Connection.NewStream parseUuid) .init as) :
    (∀ (t t' : Nat) (f f' : Forwarder), c.forwarders[t]? = some f → c.forwarders[t']? = some f' →
      f.running = true → f'.running = true → f.channel = f'.channel → t = t') ∧
    (∀ out ∈ c.written, ∀ out' ∈ c.written, ∀ t t' k, out.source = some (t, k) →
      out'.source = some (t', k) → t = t') ∧
    (∀ name s, c.handling = .idle → s ∈ c.subs →
      parse parseUuid s.1 = parse parseUuid name →
      c.NewStream parseUuid (.receive (some (.subscribe name))) →
      c.step parseUuid (.receive (some (.subscribe name))) =
        some (c.refuse ("already subscribed to " ++ String.ofList name))) := by
  have hkeep : ∀ (d : Connection) a (d' : Connection),
      (d.Wf parseUuid ∧ d.OneEach ∧ d.Sourced) → d.NewStream parseUuid a →
      d.step parseUuid a = some d' → d'.Wf parseUuid ∧ d'.OneEach ∧ d'.Sourced := by
    rintro d a d' ⟨hwf, hone, hsourced⟩ hnew hstep
    have heff := Effect.of_step hstep
    exact ⟨hwf.effect heff, hone.effect hwf heff hnew, hsourced.effect hwf heff⟩
  obtain ⟨hwf, hone, hsourced⟩ := run_invariant hkeep
    ⟨Connection.init_wf, Connection.init_oneEach, Connection.init_sourced⟩ hg hrun
  refine ⟨hone.one, fun out hout out' hout' t t' k hk hk' => ?_, fun name s hidle hs hsame hnew => ?_⟩
  · obtain ⟨f, hf, hheard⟩ := hsourced.written out hout t k hk
    obtain ⟨f', hf', hheard'⟩ := hsourced.written out' hout' t' k hk'
    exact hone.heard t t' f f' k hf hf' hheard hheard'
  · obtain ⟨f, hf, htag⟩ := Option.map_eq_some_iff.mp ((hwf.owned s.1 s.2).mp hs)
    have hname : f.name = s.1 := congrArg Prod.fst htag
    have hparse : parse parseUuid name = some f.channel := by
      rw [← hsame, ← hname, (hwf.forwarders s.2 f hf).parsed]
    have hmem : name ∈ c.subs.map Prod.fst := by
      rcases hnew with hmem | ⟨hother, -⟩
      · exact hmem
      · exact absurd hsame (hother s hs)
    simp only [Connection.step, hidle, Connection.handleFrame, hparse, hmem, if_true]

namespace Sample

def hexValue (c : Char) : Option Nat :=
  if c.isDigit then some (c.toNat - '0'.toNat)
  else if 'a' ≤ c ∧ c ≤ 'f' then some (c.toNat - 'a'.toNat + 10)
  else if 'A' ≤ c ∧ c ≤ 'F' then some (c.toNat - 'A'.toNat + 10)
  else none

/-- `Uuid::parse_str` on the hyphenated form, in either case. -/
def parseHyphenated (text : Text) : Option Uuid :=
  if text.length = 36 ∧ text.findIdxs (fun c => c = '-') = [8, 13, 18, 23] then
    ((text.filter fun c => c ≠ '-').mapM hexValue).map fun digits =>
      BitVec.ofNat 128 (digits.foldl (fun n d => 16 * n + d) 0)
  else none

def lowerRoom : Text := "market_chat:0000000a-0000-0000-0000-000000000000".toList
def upperRoom : Text := "market_chat:0000000A-0000-0000-0000-000000000000".toList

/-- A client joins a room under `name`. -/
def joinsRoom (name : Text) : List WsAct :=
  [.receive (some (.subscribe name)), .answer (.subscribed (.ok ())),
    .answer (.subscribed (.ok ())), .answer (.views (.ok [])), .answer .sent]

def room : ChatChannel := .market ⟨0xa000000000000000000000000#128⟩

/-- A reaction in the room goes through both tasks to the socket. -/
def deliversTwice : List WsAct :=
  [.publish (.reaction room ⟨⟨7⟩, ['👍'], 1, ⟨9⟩, true⟩),
    .poll 0, .next 0 (.reactions room), .send 0, .poll 1, .next 1 (.reactions room), .send 1,
    .drain, .drain]

end Sample

/-- The client that leaves the room and joins it again has one task for it. -/
theorem one_forwarder_rejoined : ∃ c,
    run (Connection.step Sample.parseHyphenated) .init
      (Sample.joinsRoom Sample.lowerRoom ++
        [.receive (some (.unsubscribe Sample.lowerRoom))] ++
        Sample.joinsRoom Sample.upperRoom) = some c ∧
      ∀ (t t' : Nat) (f f' : Forwarder), c.forwarders[t]? = some f →
        c.forwarders[t']? = some f' → f.running = true → f'.running = true →
        f.channel = f'.channel → t = t' :=
  ⟨_, rfl, (@one_forwarder Sample.parseHyphenated (Sample.joinsRoom Sample.lowerRoom ++
    [.receive (some (.unsubscribe Sample.lowerRoom))] ++
    Sample.joinsRoom Sample.upperRoom) _ rfl (by decide)).1⟩

/-- Two spellings of one market give two tasks, and its reaction is written twice. -/
theorem two_forwarders : ∃ c,
    run (Connection.step Sample.parseHyphenated) .init
      (Sample.joinsRoom Sample.lowerRoom ++ Sample.joinsRoom Sample.upperRoom ++
        Sample.deliversTwice) = some c ∧
      (c.forwarders.map fun f => (f.channel, f.running)) =
        [(.chat Sample.room, true), (.chat Sample.room, true)] ∧
      (c.written.filterMap fun out => out.source) = [(0, 0), (1, 0)] := by
  have h : ((run (Connection.step Sample.parseHyphenated) .init
      (Sample.joinsRoom Sample.lowerRoom ++ Sample.joinsRoom Sample.upperRoom ++
        Sample.deliversTwice)).map fun c =>
      (c.forwarders.map fun f => (f.channel, f.running),
        c.written.filterMap fun out => out.source)) =
      some ([(.chat Sample.room, true), (.chat Sample.room, true)], [(0, 0), (1, 0)]) := by
    decide +kernel
  obtain ⟨c, hrun, hc⟩ := Option.map_eq_some_iff.mp h
  rw [Prod.mk.injEq] at hc
  exact ⟨c, hrun, hc.1, hc.2⟩

end

end Betsphere.Ws
