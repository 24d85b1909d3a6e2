import Betsphere.Ws.Invariants
set_option autoImplicit false

namespace Betsphere.Ws
open Transition

section
variable (parseUuid : Text → Option Uuid)

/-- Nothing of the channel is on its way when the client leaves it. -/
def Connection.Drained (c : Connection) (name : Text) : Prop :=
  (∀ out ∈ c.queue, out.frame.channel? ≠ some name) ∧
    ∀ f ∈ c.forwarders, f.name = name → f.polling = false

/-- Until the client subscribes to the name again, nothing written carries it. -/
def Connection.Quiet (c : Connection) (name : Text) : Prop :=
  ∀ as c', run (Connection.step parseUuid) c as = some c' →
    .receive (some (.subscribe name)) ∉ as →
    ∃ new, c'.written = c.written ++ new ∧ ∀ out ∈ new, out.frame.channel? ≠ some name

structure Connection.Silent (name : Text) (c : Connection) : Prop where
  queue : ∀ out ∈ c.queue, out.frame.channel? ≠ some name
  stopped : ∀ (t : Nat) (f : Forwarder), c.forwarders[t]? = some f → f.name = name →
    f.running = false
  join : ∀ j, c.handling = .joining j → j.name ≠ name

variable {parseUuid} {c c' : Connection} {a : WsAct} {name : Text}

theorem Connection.Silent.effect (hsilent : c.Silent name) (hwf : c.Wf parseUuid)
    (heff : Effect parseUuid c a c') (ha : a ≠ .receive (some (.subscribe name))) :
    c'.Silent name ∧
      ∃ new, c'.written = c.written ++ new ∧ ∀ out ∈ new, out.frame.channel? ≠ some name := by
  refine ⟨⟨fun out hout => ?_, fun t g hg hname => ?_, fun j' hj' => ?_⟩, ?_⟩
  · rcases heff.queued hout with hout | ⟨t, f, hf, hpolling, hpending⟩
    · exact hsilent.queue out hout
    · rw [((hwf.forwarders t f hf).pending out hpending).1]
      intro hname
      have hstopped := hsilent.stopped t f hf (Option.some.inj hname)
      simp [Forwarder.running, hpolling] at hstopped
  · rcases heff.forwarder hg with ⟨f, hf, hstep⟩ | ⟨x, j, j', frames, -, hjoin, hstep, -, -, -, rfl⟩
    · have hstopped := hsilent.stopped t f hf (hstep.name ▸ hname)
      cases hrun : g.running with
      | false => rfl
      | true => rw [hstep.running_of hrun] at hstopped; cases hstopped
    · have hname' : j'.name = j.name := by cases hstep <;> rfl
      exact absurd (hname'.symm.trans hname) (hsilent.join j hjoin)
  · rcases heff.joining hj' with ⟨j, hj, hstep⟩ | ⟨name', channel, hbegan, -, -, rfl, -⟩
    · exact hstep.name ▸ hsilent.join j hj
    · rintro rfl
      exact ha hbegan
  · obtain ⟨new, hnew, hout⟩ := heff.writes hwf
    refine ⟨new, hnew, fun out hmem => ?_⟩
    rcases hout out hmem with hqueue | ⟨-, hnone | ⟨j, hj, hname⟩⟩
    · exact hsilent.queue out hqueue
    · simp [hnone]
    · rw [hname]
      exact fun h => hsilent.join j hj (Option.some.inj h)

theorem Connection.Silent.quiet (hsilent : c.Silent name) (hwf : c.Wf parseUuid) :
    c.Quiet parseUuid name := by
  intro as
  induction as generalizing c with
  | nil =>
    intro c' hrun _
    cases hrun
    exact ⟨[], (List.append_nil _).symm, fun out h => absurd h List.not_mem_nil⟩
  | cons a as ih =>
    intro c' hrun hnot
    obtain ⟨c₁, hstep, hrest⟩ := run_cons_some hrun
    have heff := Effect.of_step hstep
    obtain ⟨hsilent₁, new, hnew, hquiet⟩ :=
      hsilent.effect hwf heff fun h => hnot (h ▸ List.mem_cons_self)
    obtain ⟨later, hlater, hquiet'⟩ := ih hsilent₁ (hwf.effect heff) c' hrest fun h =>
      hnot (List.mem_cons_of_mem a h)
    refine ⟨new ++ later, by rw [hlater, hnew, List.append_assoc], fun out hout => ?_⟩
    rcases List.mem_append.mp hout with hout | hout
    · exact hquiet out hout
    · exact hquiet' out hout

theorem Connection.step_unsubscribe {t : Nat} (hname : c.subs.lookup name = some t)
    (hstep : c.step parseUuid (.receive (some (.unsubscribe name))) = some c') :
    c.handling = .idle ∧ c' = { c with
      subs := c.subs.filter fun s => s.1 ≠ name
      forwarders := c.forwarders.modify t Forwarder.abort } := by
  simp only [Connection.step] at hstep
  split at hstep
  · rename_i hidle
    simp only [Connection.handleFrame, hname, Option.some.injEq] at hstep
    exact ⟨hidle, hstep.symm⟩
  · cases hstep

theorem Connection.Drained.silent {t : Nat} (hdrained : c.Drained name) (hwf : c.Wf parseUuid)
    (hname : c.subs.lookup name = some t)
    (hstep : c.step parseUuid (.receive (some (.unsubscribe name))) = some c') :
    c'.Silent name := by
  obtain ⟨hidle, rfl⟩ := step_unsubscribe hname hstep
  refine ⟨hdrained.1, fun s g hg hgname => ?_, fun j hj => ?_⟩
  · rw [List.getElem?_modify] at hg
    obtain ⟨f, hf, rfl⟩ := Option.map_eq_some_iff.mp hg
    have hfname : f.name = name := by
      rw [← hgname]
      split <;> rfl
    have hparked := hdrained.2 f (List.mem_of_getElem? hf) hfname
    by_cases hst : t = s
    · simp [hst, Forwarder.abort, Forwarder.running, hparked]
    · -- Another task of the name is no longer in the map, so it was aborted before.
      simp only [hst, if_false]
      cases ha : f.aborted with
      | true => simp [Forwarder.running, ha, hparked]
      | false =>
        have hmem : (name, s) ∈ c.subs := (hwf.owned name s).mpr (by
          rw [hf, Option.map_some, Forwarder.tag, hfname, ha])
        exact absurd (hwf.name_unique (Wf.of_lookup hname) hmem) hst
  · have hnot : c.handling = .joining j := hj
    rw [hidle] at hnot
    cases hnot

variable (parseUuid) in
/-- Some schedule writes a frame that carries the name, with no subscribe to it. -/
def Connection.Leaks (c : Connection) (name : Text) : Prop :=
  ∃ as c', run (Connection.step parseUuid) c as = some c' ∧
    .receive (some (.subscribe name)) ∉ as ∧
    ∃ new out, c'.written = c.written ++ new ∧ out ∈ new ∧ out.frame.channel? = some name

namespace Connection

theorem Leaks.not_quiet (h : c.Leaks parseUuid name) : ¬c.Quiet parseUuid name := by
  obtain ⟨as, c', hrun, hnot, new, out, hnew, hout, hname⟩ := h
  intro hquiet
  obtain ⟨new', hnew', hclean⟩ := hquiet as c' hrun hnot
  have heq : new = new' := List.append_cancel_left (hnew.symm.trans hnew')
  exact hclean out (heq ▸ hout) hname

theorem Leaks.step {w : List Outgoing} (hstep : c.step parseUuid a = some c')
    (ha : a ≠ .receive (some (.subscribe name))) (hw : c'.written = c.written ++ w)
    (h : c'.Leaks parseUuid name) : c.Leaks parseUuid name := by
  obtain ⟨as, c'', hrun, hnot, new, out, hnew, hout, hname⟩ := h
  refine ⟨a :: as, c'', by simp [run, hstep, hrun], ?_, w ++ new, out, ?_,
    List.mem_append_right w hout, hname⟩
  · rintro hmem
    rcases List.mem_cons.mp hmem with heq | hmem
    · exact ha heq.symm
    · exact hnot hmem
  · rw [hnew, hw, List.append_assoc]

theorem drain_queue (hidle : c.handling = .idle) :
    run (Connection.step parseUuid) c (List.replicate c.queue.length .drain) =
      some { c with queue := [], written := c.written ++ c.queue } := by
  cases hqueue : c.queue with
  | nil =>
    cases c
    cases hqueue
    simp [run]
  | cons out rest =>
    induction rest generalizing c out with
    | nil => simp [run, Connection.step, hidle, hqueue]
    | cons next rest ih =>
      have hdrain : c.step parseUuid .drain =
          some { c with queue := next :: rest, written := c.written ++ [out] } := by
        simp [Connection.step, hidle, hqueue]
      have hrest := ih (c := { c with queue := next :: rest, written := c.written ++ [out] }) hidle
        next rfl
      rw [List.length_cons, List.replicate_succ, run, hdrain, Option.bind_some, hrest]
      simp

theorem leaks_queued (hidle : c.handling = .idle) {out : Outgoing} (hout : out ∈ c.queue)
    (hname : out.frame.channel? = some name) : c.Leaks parseUuid name :=
  ⟨_, _, drain_queue hidle, by simp, c.queue, out, rfl, hout, hname⟩

/-- The loop can empty the queue first. -/
theorem leaks_drained (hidle : c.handling = .idle)
    (h : ∀ d : Connection, d.handling = .idle → d.queue = [] → d.forwarders = c.forwarders →
      d.Leaks parseUuid name) : c.Leaks parseUuid name := by
  obtain ⟨as, c', hrun, hnot, new, out, hnew, hout, hname⟩ :=
    h { c with queue := [], written := c.written ++ c.queue } hidle rfl rfl
  refine ⟨_, c', run_append_some (drain_queue hidle) hrun, ?_, c.queue ++ new, out, ?_,
    List.mem_append_right _ hout, hname⟩
  · simpa using hnot
  · rw [hnew, List.append_assoc]

theorem onForwarder_of {t : Nat} {f g : Forwarder} {move : Forwarder → Option Forwarder}
    (hf : c.forwarders[t]? = some f) (hg : move f = some g) :
    c.onForwarder t move = some { c with forwarders := c.forwarders.set t g } := by
  simp [onForwarder, hf, hg]

theorem leaks_pending {t : Nat} {f : Forwarder} {out : Outgoing} {rest : List Outgoing}
    (hidle : c.handling = .idle) (hqueue : c.queue = []) (hf : c.forwarders[t]? = some f)
    (hpolling : f.polling = true) (hpending : f.pending = out :: rest)
    (hname : out.frame.channel? = some name) : c.Leaks parseUuid name := by
  have hsend : c.step parseUuid (.send t) = some { c with
      forwarders := c.forwarders.set t { f with pending := rest }
      queue := [out] } := by
    simp [Connection.step, Connection.send, hf, hidle, hpolling, hpending, hqueue, queueCapacity]
  exact Leaks.step hsend (by simp) (List.append_nil _).symm
    (leaks_queued hidle (List.mem_singleton_self out) hname)

theorem exists_live (channel : Channel) (name : Text) :
    ∃ live : Live, live.topic ∈ channel.topics ∧ live.frames name ≠ [] := by
  cases channel with
  | chat room => exact ⟨.reaction room ⟨⟨0⟩, [], 0, ⟨0⟩, true⟩,
      by simp [Live.topic, Channel.topics],
      by simp [Live.frames]⟩
  | bets feed => exact ⟨.bet feed ⟨⟨0⟩, ⟨0⟩, ⟨0⟩, ⟨0⟩, 0, .one, 0⟩,
      by simp [Live.topic, Channel.topics],
      by simp [Live.frames]⟩
  | marketFeed id => exact ⟨.prices ⟨id, [⟨⟨0⟩, .one, 0⟩]⟩, by simp [Live.topic, Channel.topics],
      by simp [Live.frames]⟩

theorem leaks_polling {t : Nat} {f : Forwarder} (hidle : c.handling = .idle)
    (hqueue : c.queue = []) (hf : c.forwarders[t]? = some f) (hpolling : f.polling = true)
    (hname : f.name = name) (hpending : ∀ out ∈ f.pending, out.frame.channel? = some name) :
    c.Leaks parseUuid name := by
  have hlt := (List.getElem?_eq_some_iff.mp hf).1
  cases hrest : f.pending with
  | cons out rest =>
    exact leaks_pending hidle hqueue hf hpolling hrest (hpending out (hrest ▸ List.mem_cons_self))
  | nil =>
    -- By induction on the payloads in the inbox, some of which may have no frames.
    induction hinbox : f.inbox generalizing c f with
    | nil =>
      obtain ⟨live, htopic, hframes⟩ := exists_live f.channel name
      obtain ⟨frame, frames, hcons⟩ := List.exists_cons_of_ne_nil hframes
      let heard := f.hear c.wire.length live
      have hhear : heard =
          { f with inbox := [(c.wire.length, live)], heard := f.heard ++ [c.wire.length] } := by
        simp [heard, Forwarder.hear, Forwarder.running, hpolling, htopic, hinbox]
      have hg : (c.publish live).forwarders[t]? = some heard := by
        simp [publish, hf, heard]
      have hnext : heard.next t live.topic = some { heard with
          inbox := []
          pending := (frame :: frames).map fun frame => ⟨frame, some (t, c.wire.length)⟩ } := by
        simp [Forwarder.next, hhear, hpolling, hrest, hname, hcons]
      have hmem : frame ∈ live.frames name := by simp [hcons]
      have hidle' : (c.publish live).handling = .idle := by simp [publish, hidle]
      refine Leaks.step (a := .publish live) rfl (by simp) (List.append_nil _).symm ?_
      refine Leaks.step (a := .next t live.topic) (onForwarder_of hg hnext) (by simp)
        (List.append_nil _).symm ?_
      refine leaks_pending hidle' hqueue (List.getElem?_set_self ?_) ?_ rfl
        (Live.frames_channel hmem)
      · simpa [publish] using hlt
      · rw [hhear]
        exact hpolling
    | cons x xs ih =>
      have hnext : f.next t x.2.topic = some { f with
          inbox := xs
          pending := (x.2.frames f.name).map fun frame => ⟨frame, some (t, x.1)⟩ } := by
        simp [Forwarder.next, hpolling, hrest, hinbox]
      refine Leaks.step (a := .next t x.2.topic) (onForwarder_of hf hnext) (by simp)
        (List.append_nil _).symm ?_
      cases hframes : x.2.frames f.name with
      | nil =>
        exact ih hidle hqueue (List.getElem?_set_self hlt) hpolling hname (by simp)
          (by simpa using hlt) rfl rfl
      | cons frame frames =>
        have hmem : frame ∈ x.2.frames f.name := by simp [hframes]
        exact leaks_pending hidle hqueue (List.getElem?_set_self hlt) hpolling rfl
          (hname ▸ Live.frames_channel hmem)

end Connection

/-- After an unsubscribe nothing is delivered under the name exactly if nothing of the
channel was queued, and no task of it was being polled. -/
theorem unsubscribed_quiet {parseUuid : Text → Option Uuid} {as : List WsAct} {c c' : Connection}
    {name : Text} {t : Nat} (hrun : run (Connection.step parseUuid) .init as = some c)
    (hname : c.subs.lookup name = some t)
    (hstep : c.step parseUuid (.receive (some (.unsubscribe name))) = some c') :
    c'.Quiet parseUuid name ↔ c.Drained name := by
  have hwf := Connection.wf_of_run Connection.init_wf hrun
  constructor
  · intro hquiet
    obtain ⟨hidle, hc'⟩ := Connection.step_unsubscribe hname hstep
    have hidle' : c'.handling = .idle := by rw [hc', hidle]
    have hqueue' : c'.queue = c.queue := by rw [hc']
    have hforwarders : c'.forwarders = c.forwarders.modify t Forwarder.abort := by rw [hc']
    refine ⟨fun out hout hchannel => ?_, fun f hmem hfname => ?_⟩
    · exact (Connection.leaks_queued hidle' (hqueue' ▸ hout) hchannel).not_quiet hquiet
    · obtain ⟨s, hs⟩ := List.getElem?_of_mem hmem
      cases hpolling : f.polling with
      | false => rfl
      | true =>
        refine absurd hquiet (Connection.leaks_drained hidle' fun d hd hqueue hfs => ?_).not_quiet
        -- The abort leaves the poll that is under way alone.
        let g := if t = s then f.abort else f
        have hg : d.forwarders[s]? = some g := by
          rw [hfs, hforwarders, List.getElem?_modify, hs]
          rfl
        have hsame : g.polling = true ∧ g.name = name ∧ g.pending = f.pending := by
          by_cases hts : t = s <;> simp [g, hts, Forwarder.abort, hpolling, hfname]
        refine Connection.leaks_polling hd hqueue hg hsame.1 hsame.2.1 fun out hout => ?_
        rw [hsame.2.2] at hout
        rw [((hwf.forwarders s f hs).pending out hout).1, hfname]
  · exact fun hdrained => (hdrained.silent hwf hname hstep).quiet
      (hwf.effect (Effect.of_step hstep))

namespace Sample

def joinsGlobal : List WsAct :=
  [.receive (some (.subscribe globalChat)), .answer (.subscribed (.ok ())),
    .answer (.subscribed (.ok ())), .answer (.views (.ok [])), .answer .sent]

def reacted : Live := .reaction .global ⟨⟨7⟩, ['👍'], 1, ⟨9⟩, true⟩

def queuesReaction : List WsAct :=
  [.publish reacted, .poll 0, .next 0 (.reactions .global), .send 0, .park 0]

end Sample

/-- The task of the room has nothing queued, so the client that leaves hears no more. -/
theorem unsubscribed_quiet_drained : ∃ c c',
    run (Connection.step fun _ => none) .init Sample.joinsGlobal = some c ∧
      c.step (fun _ => none) (.receive (some (.unsubscribe globalChat))) = some c' ∧
      (c'.Quiet (fun _ => none) globalChat ↔ c.Drained globalChat) :=
  ⟨_, _, rfl, rfl, @unsubscribed_quiet _ Sample.joinsGlobal _ _ _ 0 rfl rfl rfl⟩

/-- The frame that was queued before the client left is written after it. -/
theorem unsubscribed_heard : ∃ c c',
    run (Connection.step fun _ => none) .init (Sample.joinsGlobal ++ Sample.queuesReaction) = some c ∧
      c.subs.lookup globalChat = some 0 ∧
      c.step (fun _ => none) (.receive (some (.unsubscribe globalChat))) = some c' ∧
      ¬c'.Quiet (fun _ => none) globalChat :=
  ⟨_, _, rfl, rfl, rfl,
    (Connection.leaks_queued rfl (List.mem_singleton_self _) rfl).not_quiet⟩

end

end Betsphere.Ws
