import Betsphere.Ws.Invariants
set_option autoImplicit false

namespace Betsphere.Ws
open Transition

def Connection.Carries (c : Connection) (f : Forwarder) (out : Outgoing) : Prop :=
  out ∈ f.pending ∨ out ∈ c.queue ∨ out ∈ c.written

/-- Everything published on its topics since the task listens waits in its inbox, or its
frames were made. -/
def Forwarder.Delivers (c : Connection) (t : Nat) (f : Forwarder) : Prop :=
  ∀ k live, f.heardFrom ≤ k → c.wire[k]? = some live → live.topic ∈ f.channel.topics →
    (k, live) ∈ f.inbox ∨ ∀ frame ∈ live.frames f.name, c.Carries f ⟨frame, some (t, k)⟩

structure Join.Listens (wire : List Live) (j : Join) : Prop where
  topics : ∀ topic ∈ j.channel.topics, topic ∈ j.subscribed
  inbox : ∀ k live, j.heardFrom ≤ k → wire[k]? = some live → live.topic ∈ j.channel.topics →
    (k, live) ∈ j.inbox

def Join.Ready (c : Connection) (j : Join) : Prop :=
  match j.stage with
  | .market _ => True
  | .subscribe topic rest => ∀ x ∈ j.channel.topics, x ∈ j.subscribed ∨ x ∈ topic :: rest
  | .history => j.Listens c.wire
  | .replay frames => j.Listens c.wire ∧
      ∀ frame ∈ j.replayed, frame ∈ frames ∨ ⟨frame, none⟩ ∈ c.written

structure Connection.Delivering (c : Connection) : Prop where
  tasks : ∀ (t : Nat) (f : Forwarder), c.forwarders[t]? = some f → f.aborted = false →
    f.Delivers c t
  replayed : ∀ (t : Nat) (f : Forwarder), c.forwarders[t]? = some f →
    ∀ frame ∈ f.replayed, ⟨frame, none⟩ ∈ c.written
  join : ∀ j, c.handling = .joining j → j.Ready c

section
variable {parseUuid : Text → Option Uuid} {c c' : Connection} {a : WsAct}

theorem mem_eraseP_or {α : Type} {p : α → Bool} {l : List α} {x y : α}
    (hx : l.find? p = some x) (hy : y ∈ l) : y = x ∨ y ∈ l.eraseP p := by
  induction l with
  | nil => cases hy
  | cons z l ih =>
    cases hz : p z with
    | true =>
      rw [List.find?_cons_of_pos hz, Option.some.injEq] at hx
      rw [List.eraseP_cons_of_pos hz]
      rcases List.mem_cons.mp hy with rfl | hy
      · exact .inl hx
      · exact .inr hy
    | false =>
      have hnot : ¬p z = true := by simp [hz]
      rw [List.find?_cons_of_neg hnot] at hx
      rw [List.eraseP_cons_of_neg hnot]
      rcases List.mem_cons.mp hy with rfl | hy
      · exact .inr List.mem_cons_self
      · exact (ih hx hy).imp_right (List.mem_cons_of_mem z)

theorem published_at {wire : List Live} {live live' : Live} {k : Nat}
    (h : (wire ++ [live])[k]? = some live') :
    wire[k]? = some live' ∨ (k, live') = (wire.length, live) := by
  rcases lt_trichotomy k wire.length with hlt | rfl | hgt
  · rw [List.getElem?_append_left hlt] at h
    exact .inl h
  · rw [List.getElem?_concat_length, Option.some.injEq] at h
    exact .inr (h ▸ rfl)
  · have hlen := (List.getElem?_eq_some_iff.mp h).1
    rw [List.length_append, List.length_singleton] at hlen
    omega

namespace Forwarder
variable {t : Nat} {f g : Forwarder}

theorem Delivers.congr (h : f.Delivers c t) (hwire : c'.wire = c.wire)
    (hfrom : g.heardFrom = f.heardFrom) (hchannel : g.channel = f.channel) (hname : g.name = f.name)
    (hinbox : ∀ x ∈ f.inbox, x ∈ g.inbox ∨
      ∀ frame ∈ x.2.frames f.name, c'.Carries g ⟨frame, some (t, x.1)⟩)
    (hcarries : ∀ out, c.Carries f out → c'.Carries g out) : g.Delivers c' t := by
  intro k live hk hlive htopic
  rw [hwire] at hlive
  rw [hfrom] at hk
  rw [hchannel] at htopic
  rw [hname]
  rcases h k live hk hlive htopic with hin | hsent
  · exact hinbox (k, live) hin
  · exact .inr fun frame hframe => hcarries _ (hsent frame hframe)

theorem Delivers.moves (h : f.Delivers c t) (hstep : f.Moves t g) (fs : List Forwarder) :
    g.Delivers { c with forwarders := fs } t := by
  cases hstep with
  | next topic x hx hpending =>
    refine h.congr rfl rfl rfl rfl (fun y hy => ?_) fun out hout => .inr (hout.resolve_left ?_)
    · rcases mem_eraseP_or hx hy with rfl | hy
      · exact .inr fun frame hframe => .inl (List.mem_map_of_mem hframe)
      · exact .inl hy
    · simp [hpending]
  | _ => exact h.congr rfl rfl rfl rfl (fun y hy => .inl hy) fun out hout => hout

theorem Delivers.published (h : f.Delivers c t) (hrun : f.running = true) (live : Live) :
    (f.hear c.wire.length live).Delivers (c.publish live) t := by
  unfold Forwarder.hear
  split
  · intro k live' hk hlive htopic
    rcases published_at hlive with hold | heq
    · rcases h k live' hk hold htopic with hin | hsent
      · exact .inl (List.mem_append_left _ hin)
      · exact .inr hsent
    · exact .inl (heq ▸ List.mem_append_right _ List.mem_cons_self)
  · rename_i hnot
    intro k live' hk hlive htopic
    rcases published_at hlive with hold | heq
    · exact h k live' hk hold htopic
    · rw [Prod.mk.injEq] at heq
      exact absurd ⟨hrun, heq.2 ▸ htopic⟩ hnot

end Forwarder

namespace Join
variable {j j' : Join}

theorem Listens.hear {wire : List Live} (h : j.Listens wire) (live : Live) :
    (j.hear wire.length live).Listens (wire ++ [live]) := by
  unfold Join.hear
  split
  · refine ⟨h.topics, fun k live' hk hlive htopic => ?_⟩
    rcases published_at hlive with hold | heq
    · exact List.mem_append_left _ (h.inbox k live' hk hold htopic)
    · exact heq ▸ List.mem_append_right _ List.mem_cons_self
  · rename_i hnot
    refine ⟨h.topics, fun k live' hk hlive htopic => ?_⟩
    rcases published_at hlive with hold | heq
    · exact h.inbox k live' hk hold htopic
    · rw [Prod.mk.injEq] at heq
      exact absurd (h.topics _ (heq.2 ▸ htopic)) hnot

theorem Ready.published (h : j.Ready c) (live : Live) :
    (j.hear c.wire.length live).Ready (c.publish live) := by
  have hkeep : (j.hear c.wire.length live).stage = j.stage ∧
      (j.hear c.wire.length live).replayed = j.replayed ∧
      (j.hear c.wire.length live).channel = j.channel ∧
      (j.hear c.wire.length live).subscribed = j.subscribed := by
    unfold Join.hear
    split <;> exact ⟨rfl, rfl, rfl, rfl⟩
  obtain ⟨hstage, hreplayed, hchannel, hsubscribed⟩ := hkeep
  unfold Ready at h ⊢
  rw [hstage, hreplayed, hchannel, hsubscribed]
  split at h
  · trivial
  · exact h
  · exact Listens.hear h live
  · exact ⟨h.1.hear live, h.2⟩

theorem Ready.subscribing (h : j.stage = .subscribing j.channel.topics) : j.Ready c := by
  unfold Ready
  rw [h]
  cases hall : j.channel.topics with
  | nil => exact absurd hall j.channel.topics_ne_nil
  | cons topic rest => exact fun x hx => .inr (hall ▸ hx)

/-- All topics are subscribed when the state is read, so from then on all is heard. -/
theorem Ready.step {x : Answer} {frames : List ServerFrame} (h : j.Ready c)
    (hstep : JoinStep c.wire.length x j j' frames) :
    j'.Ready { c.writeAll frames with handling := .joining j' } := by
  unfold Ready at h
  cases hstep with
  | market id found hstage => exact .subscribing rfl
  | subscribed topic rest hstage =>
    rw [hstage] at h
    unfold Ready
    cases rest with
    | nil =>
      refine ⟨fun x hx => ?_, fun k live hk hlive => ?_⟩
      · rcases h x hx with hx | hx
        · exact List.mem_cons_of_mem topic hx
        · exact List.mem_singleton.mp hx ▸ List.mem_cons_self
      · have hlt := (List.getElem?_eq_some_iff.mp hlive).1
        exact absurd (lt_of_le_of_lt hk hlt) (lt_irrefl _)
    | cons next rest =>
      intro x hx
      rcases h x hx with hx | hx
      · exact .inl (List.mem_cons_of_mem topic hx)
      · rcases List.mem_cons.mp hx with rfl | hx
        · exact .inl List.mem_cons_self
        · exact .inr hx
  | read frames hstage hread =>
    rw [hstage] at h
    exact ⟨⟨h.topics, h.inbox⟩, fun frame hframe => .inl hframe⟩
  | replayed frame rest hstage =>
    rw [hstage] at h
    refine ⟨⟨h.1.topics, h.1.inbox⟩, fun shown hshown => ?_⟩
    rcases h.2 shown hshown with hmem | hwritten
    · rcases List.mem_cons.mp hmem with rfl | hmem
      · exact .inr (List.mem_append_right _ List.mem_cons_self)
      · exact .inl hmem
    · exact .inr (List.mem_append_left _ hwritten)

theorem Ready.start (name : Text) (channel : Channel) : (Join.start name channel).Ready c := by
  cases hcheck : channel.checked with
  | some id => simp [Ready, Join.start, hcheck]
  | none => exact .subscribing (by simp [Join.start, hcheck])

theorem Ready.forwarder (h : j.Ready c) (hstage : j.stage = .replay []) (t : Nat) :
    j.forwarder.Delivers c t ∧ ∀ frame ∈ j.replayed, ⟨frame, none⟩ ∈ c.written := by
  unfold Ready at h
  rw [hstage] at h
  refine ⟨fun k live hk hlive htopic => .inl (h.1.inbox k live hk hlive htopic), fun frame hframe => ?_⟩
  exact (h.2 frame hframe).resolve_left List.not_mem_nil

end Join

namespace Connection

theorem tasks_set {s : Nat} {f g : Forwarder} {d : Connection} (h : c.Delivering)
    (hf : c.forwarders[s]? = some f) (hforwarders : d.forwarders = c.forwarders.set s g)
    (haborted : g.aborted = false → f.aborted = false)
    (hg : f.Delivers c s → g.Delivers d s)
    (hkeep : ∀ t (f : Forwarder), f.Delivers c t → f.Delivers d t) (t : Nat) (f' : Forwarder)
    (hf' : d.forwarders[t]? = some f') (ha : f'.aborted = false) : f'.Delivers d t := by
  rw [hforwarders] at hf'
  by_cases hst : s = t
  · subst hst
    rw [List.getElem?_set_self (List.getElem?_eq_some_iff.mp hf).1, Option.some.injEq] at hf'
    subst hf'
    exact hg (h.tasks s f hf (haborted ha))
  · rw [List.getElem?_set_ne hst] at hf'
    exact hkeep t f' (h.tasks t f' hf' ha)

theorem Delivering.tasks_effect (h : c.Delivering) (hwf : c.Wf parseUuid)
    (heff : Effect parseUuid c a c') (t : Nat) (g : Forwarder) (hg : c'.forwarders[t]? = some g)
    (ha : g.aborted = false) : g.Delivers c' t := by
  cases heff with
  | published live =>
    obtain ⟨f, hf, rfl⟩ := Option.map_eq_some_iff.mp (List.getElem?_map ▸ hg)
    have hfa : f.aborted = false := by
      unfold Forwarder.hear at ha
      split at ha <;> exact ha
    exact (h.tasks t f hf hfa).published (by simp [Forwarder.running, hfa]) live
  | moved _ s f g hf hstep =>
    refine tasks_set (d := { c with forwarders := c.forwarders.set s g }) h hf rfl (fun hg => ?_)
      (fun hf => hf.moves hstep _) (fun t f hf => hf) t _ hg ha
    cases hstep <;> exact hg
  | sent s f out rest hf hpolling hpending =>
    refine tasks_set (g := { f with pending := rest }) h hf rfl (fun hg => hg) (fun hf => ?_)
      (fun t f hf => ?_) t _ hg ha
    · refine hf.congr rfl rfl rfl rfl (fun x hx => .inl hx) fun o ho => ?_
      rcases ho with ho | ho | ho
      · rw [hpending] at ho
        rcases List.mem_cons.mp ho with rfl | ho
        · exact .inr (.inl (List.mem_append_right _ List.mem_cons_self))
        · exact .inl ho
      · exact .inr (.inl (List.mem_append_left _ ho))
      · exact .inr (.inr ho)
    · exact hf.congr rfl rfl rfl rfl (fun x hx => .inl hx) fun o ho =>
        ho.imp_right (Or.imp_left (List.mem_append_left _))
  | drained out rest hidle hqueue =>
    refine (h.tasks t g hg ha).congr rfl rfl rfl rfl (fun x hx => .inl hx) fun o ho => ?_
    rcases ho with ho | ho | ho
    · exact .inl ho
    · rw [hqueue] at ho
      rcases List.mem_cons.mp ho with rfl | ho
      · exact .inr (.inr (List.mem_append_right _ List.mem_cons_self))
      · exact .inr (.inl ho)
    · exact .inr (.inr (List.mem_append_left _ ho))
  | refused _ message =>
    exact (h.tasks t g hg ha).congr rfl rfl rfl rfl (fun x hx => .inl hx) fun o ho =>
      ho.imp_right (Or.imp_right (List.mem_append_left _))
  | unsubscribed name s hidle hname =>
    rw [List.getElem?_modify] at hg
    obtain ⟨f, hf, rfl⟩ := Option.map_eq_some_iff.mp hg
    by_cases hst : s = t
    · simp [hst, Forwarder.abort] at ha
    · simp only [hst, if_false] at ha ⊢
      exact h.tasks t f hf ha
  | joined x j j' frames hjoin hstep =>
    have hold : ∀ f : Forwarder, c.forwarders[t]? = some f → f.aborted = false →
        f.Delivers (c.writeAll frames) t := fun f hf hfa =>
      (h.tasks t f hf hfa).congr rfl rfl rfl rfl (fun x hx => .inl hx) fun o ho =>
        ho.imp_right (Or.imp_right (List.mem_append_left _))
    rcases (c.writeAll frames).proceed_cases j' with hp | ⟨hstage, hp⟩
    · rw [hp] at hg ⊢
      exact hold g hg ha
    · rw [hp] at hg ⊢
      simp only [spawn, List.getElem?_append] at hg
      split at hg
      · exact hold g hg ha
      · rw [List.getElem?_singleton] at hg
        split at hg
        · cases hg
          exact (((h.join j hjoin).step hstep).forwarder hstage t).1
        · cases hg
  | closed =>
    simp only [close, List.getElem?_mapIdx] at hg
    obtain ⟨f, hf, rfl⟩ := Option.map_eq_some_iff.mp hg
    by_cases hmem : t ∈ c.subs.map Prod.snd
    · simp [hmem, Forwarder.abort] at ha
    · -- Every task that was not aborted is in the map.
      simp only [hmem, if_false] at ha
      have howned := (hwf.owned f.name t).mpr (by rw [hf, Option.map_some, Forwarder.tag, ha])
      exact absurd (List.mem_map_of_mem howned) hmem
  | _ => exact h.tasks t g hg ha

theorem Delivering.effect (h : c.Delivering) (hwf : c.Wf parseUuid)
    (heff : Effect parseUuid c a c') : c'.Delivering := by
  refine ⟨h.tasks_effect hwf heff, fun t g hg frame hframe => ?_, fun j' hj' => ?_⟩
  · rcases heff.forwarder hg with ⟨f, hf, hstep⟩ |
      ⟨x, j, j', frames, -, hjoin, hstep, hstage, rfl, -, rfl⟩
    · have hsame : g.replayed = f.replayed := by
        cases hstep with
        | moved _ hmove => cases hmove <;> rfl
        | _ => rfl
      obtain ⟨new, hnew, -⟩ := heff.writes hwf
      rw [hnew]
      exact List.mem_append_left _ (h.replayed t f hf frame (hsame ▸ hframe))
    · exact (((h.join j hjoin).step hstep).forwarder hstage t).2 frame hframe
  · cases heff with
    | published live =>
      simp only [publish] at hj'
      split at hj'
      · rename_i j hj
        cases hj'
        exact (h.join j hj).published live
      · rename_i hnot
        exact absurd hj' (hnot j')
    | drained out rest hidle hqueue =>
      have hnot : c.handling = .joining j' := hj'
      rw [hidle] at hnot
      cases hnot
    | refused message => cases hj'
    | turned _ handling hjoin => exact absurd hj' (hjoin j')
    | began name channel hidle hparse hname =>
      cases hj'
      exact .start name channel
    | unsubscribed name s hidle hname =>
      have hnot : c.handling = .joining j' := hj'
      rw [hidle] at hnot
      cases hnot
    | joined x j j'' frames hjoin hstep =>
      rcases (c.writeAll frames).proceed_cases j'' with hp | ⟨-, hp⟩
      · rw [hp] at hj' ⊢
        cases hj'
        exact (h.join j hjoin).step hstep
      · rw [hp] at hj'
        cases hj'
    | closed => cases hj'
    | _ => exact h.join j' hj'

theorem init_delivering : init.Delivering where
  tasks t f hf := by simp [init] at hf
  replayed t f hf := by simp [init] at hf
  join j hj := by simp [init] at hj

end Connection

end

end Betsphere.Ws
