import Betsphere.Domain.Values
import Betsphere.Lib.Table
import Betsphere.Lib.Transition
import Mathlib.Data.List.Sort
set_option autoImplicit false

/-!
The transactional outbox and the passes of its processors, for any handlers. What the
handlers do to the rest of the system is the service's; a pass only records how each
call ended. A pass that is rolled back leaves what its handlers did.
-/

namespace Betsphere

structure OutboxRow (P : Type) where
  id : Nat
  topic : String
  payload : P
  attempts : Nat
  processedAt : Option DateTime
  deriving DecidableEq

inductive DeliveryError where
  | undecodable (message : String)
  | failed (message : String)
  deriving DecidableEq

/-- `TypedHandler`: decodes the stored payload, then starts its handler. -/
def typedHandler {P E φ : Type} (topic : String) (fromValue : P → Except String E) (begin : E → φ)
    (payload : P) : Except DeliveryError φ :=
  match fromValue payload with
  | .error e => .error (.undecodable ("not a " ++ topic ++ " event: " ++ e))
  | .ok event => .ok (begin event)

/-- The handlers by topic, in the order of their registration. -/
abbrev Registry (P φ : Type) := List (String × (P → Except DeliveryError φ))

namespace Registry
variable {P φ : Type}

def withHandler (r : Registry P φ) (topic : String) (handler : P → Except DeliveryError φ) :
    Registry P φ := r ++ [(topic, handler)]

def get (r : Registry P φ) (topic : String) : List (P → Except DeliveryError φ) :=
  (r.filter fun entry => entry.1 = topic).map Prod.snd

end Registry

/-- What surrounds the outbox: `transact` is a committed transaction with the events it
recorded under the identifiers it drew, `step` one await of a running handler. -/
structure Service (W C X P φ : Type) where
  transact : C → W → Option (W × List (Nat × String × P))
  registry : Registry P φ
  step : X → W → φ → W × (φ ⊕ Except String Unit)

structure Returned where
  event : Nat
  handler : Nat
  result : Except DeliveryError Unit

def Returned.accepted (r : Returned) : Bool :=
  match r.result with
  | .error (.failed _) => false
  | _ => true

/-- The event a pass is at: the next handler, the one that runs, and whether none failed. -/
structure Attempt (P φ : Type) where
  event : OutboxRow P
  next : Nat
  running : Option φ
  ok : Bool

/-- An open `deliver_batch`. `returned` is what its calls answered; nothing reads it. -/
structure Pass (P φ : Type) where
  claimed : List (OutboxRow P)
  todo : List (OutboxRow P)
  current : Option (Attempt P φ)
  delivered : List Nat
  failed : List Nat
  returned : List Returned

namespace Pass
variable {W C X P φ : Type}

def begin (events : List (OutboxRow P)) : Pass P φ := ⟨events, events, none, [], [], []⟩

def record (pass : Pass P φ) (a : Attempt P φ) (result : Except DeliveryError Unit) : Pass P φ :=
  let r : Returned := ⟨a.event.id, a.next, result⟩
  { pass with
    current := some { a with next := a.next + 1, running := none, ok := a.ok && r.accepted }
    returned := pass.returned ++ [r] }

def finish (pass : Pass P φ) (a : Attempt P φ) : Pass P φ :=
  if a.ok then { pass with current := none, delivered := pass.delivered ++ [a.event.id] }
  else { pass with current := none, failed := pass.failed ++ [a.event.id] }

def advance (svc : Service W C X P φ) (x : X) (w : W) (pass : Pass P φ) : Option (W × Pass P φ) :=
  match pass.current with
  | none =>
    match pass.todo with
    | [] => none
    | event :: todo => some (w, { pass with todo, current := some ⟨event, 0, none, true⟩ })
  | some a =>
    match a.running with
    | some phase =>
      match svc.step x w phase with
      | (w, .inl phase) => some (w, { pass with current := some { a with running := some phase } })
      | (w, .inr result) => some (w, pass.record a (result.mapError .failed))
    | none =>
      match (svc.registry.get a.event.topic)[a.next]? with
      | none => some (w, pass.finish a)
      | some handler =>
        match handler a.event.payload with
        | .error e => some (w, pass.record a (.error e))
        | .ok phase => some (w, { pass with current := some { a with running := some phase } })

def done (pass : Pass P φ) : Bool := pass.todo.isEmpty && pass.current.isNone

end Pass

namespace OutboxRow
variable {P : Type}

def mark (delivered failed : List Nat) (now : DateTime) (r : OutboxRow P) : OutboxRow P :=
  if r.id ∈ delivered then { r with processedAt := some now }
  else if r.id ∈ failed then { r with attempts := r.attempts + 1 }
  else r

@[simp] theorem mark_id (delivered failed : List Nat) (now : DateTime) (r : OutboxRow P) :
    (r.mark delivered failed now).id = r.id := by
  unfold mark
  split
  · rfl
  · split <;> rfl

@[simp] theorem mark_topic (delivered failed : List Nat) (now : DateTime) (r : OutboxRow P) :
    (r.mark delivered failed now).topic = r.topic := by
  unfold mark
  split
  · rfl
  · split <;> rfl

@[simp] theorem mark_payload (delivered failed : List Nat) (now : DateTime) (r : OutboxRow P) :
    (r.mark delivered failed now).payload = r.payload := by
  unfold mark
  split
  · rfl
  · split <;> rfl

end OutboxRow

/-- Events claimed per delivery pass. -/
def batch : Nat := 100

/-- `WHERE processed_at IS NULL ORDER BY id LIMIT $1`. -/
def oldestPending {P : Type} (rows : List (OutboxRow P)) : List (OutboxRow P) :=
  ((rows.filter fun r => r.processedAt.isNone).insertionSort fun a b => a.id ≤ b.id).take batch

/-- `INTERVAL '1 day'`, in microseconds. -/
def retention : Int := 86400000000

/-- `drawn` holds every identifier a committed row was given; `locks` the open pass that
holds a row. -/
structure Outbox (W P φ ι : Type) where
  world : W
  rows : Table (OutboxRow.id (P := P))
  drawn : List Nat
  passes : ι → Option (Pass P φ)
  locks : Nat → Option ι

inductive Outbox.Act (C X ι : Type) where
  | transact (c : C)
  | claim (p : ι)
  | handle (p : ι) (x : X)
  | commit (p : ι) (now : DateTime)
  | rollback (p : ι)
  | prune (now : DateTime)

namespace Outbox
variable {W C X P φ ι : Type}

def init (w : W) : Outbox W P φ ι := ⟨w, .empty, [], fun _ => none, fun _ => none⟩

/-- With `FOR UPDATE SKIP LOCKED`. -/
def claimable (s : Outbox W P φ ι) : List (OutboxRow P) :=
  oldestPending (s.rows.rows.filter fun r => (s.locks r.id).isNone)

def queued (event : Nat × String × P) : OutboxRow P := ⟨event.1, event.2.1, event.2.2, 0, none⟩

variable [DecidableEq ι]

def close (s : Outbox W P φ ι) (p : ι) : Outbox W P φ ι :=
  { s with
    passes := Function.update s.passes p none
    locks := fun id => if s.locks id = some p then none else s.locks id }

def step (svc : Service W C X P φ) (s : Outbox W P φ ι) : Act C X ι → Option (Outbox W P φ ι)
  | .transact c =>
    match svc.transact c s.world with
    | none => none
    | some (w, events) =>
      if (events.map Prod.fst).Nodup ∧ ∀ e ∈ events, e.1 ∉ s.drawn then
        some { s with
          world := w
          rows := (events.map queued).foldl Table.upsert s.rows
          drawn := s.drawn ++ events.map Prod.fst }
      else none
  | .claim p =>
    match s.passes p with
    | some _ => none
    | none => some { s with
        passes := Function.update s.passes p (some (.begin s.claimable))
        locks := fun id => if id ∈ s.claimable.map OutboxRow.id then some p else s.locks id }
  | .handle p x =>
    match s.passes p with
    | none => none
    | some pass =>
      match pass.advance svc x s.world with
      | none => none
      | some (w, pass) =>
        some { s with world := w, passes := Function.update s.passes p (some pass) }
  | .commit p now =>
    match s.passes p with
    | none => none
    | some pass =>
      if pass.done then
        some { s.close p with
          rows := s.rows.mapRows (OutboxRow.mark pass.delivered pass.failed now)
            (OutboxRow.mark_id pass.delivered pass.failed now) }
      else none
  | .rollback p =>
    match s.passes p with
    | none => none
    | some _ => some (s.close p)
  | .prune now =>
    some { s with rows := s.rows.filter fun r => !r.processedAt.any fun t => t < now - retention }

end Outbox

inductive Pass.Advance {W C X P φ : Type} (svc : Service W C X P φ) (x : X) (w : W)
    (pass : Pass P φ) : W → Pass P φ → Prop where
  | next (event : OutboxRow P) (todo : List (OutboxRow P)) (hcur : pass.current = none)
      (htodo : pass.todo = event :: todo) :
      Advance svc x w pass w { pass with todo, current := some ⟨event, 0, none, true⟩ }
  | started (a : Attempt P φ) (handler : P → Except DeliveryError φ) (phase : φ)
      (hcur : pass.current = some a) (hrun : a.running = none)
      (hget : (svc.registry.get a.event.topic)[a.next]? = some handler)
      (hdecode : handler a.event.payload = .ok phase) :
      Advance svc x w pass w { pass with current := some { a with running := some phase } }
  | refused (a : Attempt P φ) (handler : P → Except DeliveryError φ) (e : DeliveryError)
      (hcur : pass.current = some a) (hrun : a.running = none)
      (hget : (svc.registry.get a.event.topic)[a.next]? = some handler)
      (hdecode : handler a.event.payload = .error e) :
      Advance svc x w pass w (pass.record a (.error e))
  | finished (a : Attempt P φ) (hcur : pass.current = some a) (hrun : a.running = none)
      (hget : (svc.registry.get a.event.topic)[a.next]? = none) :
      Advance svc x w pass w (pass.finish a)
  | moved (a : Attempt P φ) (phase phase' : φ) (w' : W) (hcur : pass.current = some a)
      (hrun : a.running = some phase) (hstep : svc.step x w phase = (w', .inl phase')) :
      Advance svc x w pass w' { pass with current := some { a with running := some phase' } }
  | returned (a : Attempt P φ) (phase : φ) (result : Except String Unit) (w' : W)
      (hcur : pass.current = some a) (hrun : a.running = some phase)
      (hstep : svc.step x w phase = (w', .inr result)) :
      Advance svc x w pass w' (pass.record a (result.mapError .failed))

theorem Pass.advance_cases {W C X P φ : Type} {svc : Service W C X P φ} {x : X} {w w' : W}
    {pass pass' : Pass P φ} (h : pass.advance svc x w = some (w', pass')) :
    Pass.Advance svc x w pass w' pass' := by
  unfold Pass.advance at h
  cases hcur : pass.current with
  | none =>
    cases htodo : pass.todo with
    | nil => simp [hcur, htodo] at h
    | cons event todo =>
      simp only [hcur, htodo, Option.some.injEq, Prod.mk.injEq] at h
      obtain ⟨rfl, rfl⟩ := h
      exact .next event todo hcur htodo
  | some a =>
    cases hrun : a.running with
    | some phase =>
      simp only [hcur, hrun] at h
      cases hstep : svc.step x w phase with
      | mk w₁ r =>
        cases r with
        | inl phase' =>
          simp only [hstep, Option.some.injEq, Prod.mk.injEq] at h
          obtain ⟨rfl, rfl⟩ := h
          exact .moved a phase phase' w₁ hcur hrun hstep
        | inr result =>
          simp only [hstep, Option.some.injEq, Prod.mk.injEq] at h
          obtain ⟨rfl, rfl⟩ := h
          exact .returned a phase result w₁ hcur hrun hstep
    | none =>
      simp only [hcur, hrun] at h
      cases hget : (svc.registry.get a.event.topic)[a.next]? with
      | none =>
        simp only [hget, Option.some.injEq, Prod.mk.injEq] at h
        obtain ⟨rfl, rfl⟩ := h
        exact .finished a hcur hrun hget
      | some handler =>
        cases hdecode : handler a.event.payload with
        | error e =>
          simp only [hget, hdecode, Option.some.injEq, Prod.mk.injEq] at h
          obtain ⟨rfl, rfl⟩ := h
          exact .refused a handler e hcur hrun hget hdecode
        | ok phase =>
          simp only [hget, hdecode, Option.some.injEq, Prod.mk.injEq] at h
          obtain ⟨rfl, rfl⟩ := h
          exact .started a handler phase hcur hrun hget hdecode

inductive Outbox.Effect {W C X P φ ι : Type} [DecidableEq ι] (svc : Service W C X P φ)
    (s : Outbox W P φ ι) : Outbox.Act C X ι → Outbox W P φ ι → Prop where
  | transacted (c : C) (w : W) (events : List (Nat × String × P))
      (ht : svc.transact c s.world = some (w, events)) (hnodup : (events.map Prod.fst).Nodup)
      (hfresh : ∀ e ∈ events, e.1 ∉ s.drawn) :
      Effect svc s (.transact c) { s with
        world := w
        rows := (events.map Outbox.queued).foldl Table.upsert s.rows
        drawn := s.drawn ++ events.map Prod.fst }
  | claimed (p : ι) (hp : s.passes p = none) :
      Effect svc s (.claim p) { s with
        passes := Function.update s.passes p (some (.begin s.claimable))
        locks := fun id => if id ∈ s.claimable.map OutboxRow.id then some p else s.locks id }
  | handled (p : ι) (x : X) (pass pass' : Pass P φ) (w : W) (hp : s.passes p = some pass)
      (ha : Pass.Advance svc x s.world pass w pass') :
      Effect svc s (.handle p x)
        { s with world := w, passes := Function.update s.passes p (some pass') }
  | committed (p : ι) (now : DateTime) (pass : Pass P φ) (hp : s.passes p = some pass)
      (htodo : pass.todo = []) (hcur : pass.current = none) :
      Effect svc s (.commit p now)
        { s.close p with
          rows := s.rows.mapRows (OutboxRow.mark pass.delivered pass.failed now)
            (OutboxRow.mark_id pass.delivered pass.failed now) }
  | rolledBack (p : ι) (pass : Pass P φ) (hp : s.passes p = some pass) :
      Effect svc s (.rollback p) (s.close p)
  | pruned (now : DateTime) :
      Effect svc s (.prune now)
        { s with rows := s.rows.filter fun r => !r.processedAt.any fun t => t < now - retention }

theorem Outbox.step_effect {W C X P φ ι : Type} [DecidableEq ι] {svc : Service W C X P φ}
    {s s' : Outbox W P φ ι} {a : Outbox.Act C X ι} (h : s.step svc a = some s') :
    Outbox.Effect svc s a s' := by
  cases a with
  | transact c =>
    simp only [Outbox.step] at h
    cases ht : svc.transact c s.world with
    | none => simp [ht] at h
    | some r =>
      simp only [ht] at h
      split at h
      · rename_i hids
        cases h
        exact .transacted c r.1 r.2 ht hids.1 hids.2
      · simp at h
  | claim p =>
    cases hp : s.passes p with
    | some pass => simp [Outbox.step, hp] at h
    | none =>
      simp only [Outbox.step, hp, Option.some.injEq] at h
      subst h
      exact .claimed p hp
  | handle p x =>
    cases hp : s.passes p with
    | none => simp [Outbox.step, hp] at h
    | some pass =>
      cases ha : pass.advance svc x s.world with
      | none => simp [Outbox.step, hp, ha] at h
      | some r =>
        simp only [Outbox.step, hp, ha, Option.some.injEq] at h
        subst h
        exact .handled p x pass r.2 r.1 hp (Pass.advance_cases ha)
  | commit p now =>
    cases hp : s.passes p with
    | none => simp [Outbox.step, hp] at h
    | some pass =>
      simp only [Outbox.step, hp] at h
      split at h
      · rename_i hdone
        cases h
        simp only [Pass.done, Bool.and_eq_true, List.isEmpty_iff, Option.isNone_iff_eq_none] at hdone
        exact .committed p now pass hp hdone.1 hdone.2
      · simp at h
  | rollback p =>
    cases hp : s.passes p with
    | none => simp [Outbox.step, hp] at h
    | some pass =>
      simp only [Outbox.step, hp, Option.some.injEq] at h
      subst h
      exact .rolledBack p pass hp
  | prune now =>
    cases h
    exact .pruned now

end Betsphere
