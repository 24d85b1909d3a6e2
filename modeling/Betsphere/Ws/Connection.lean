import Betsphere.Lib.Transition
import Betsphere.Ws.Frames
set_option autoImplicit false

/-!
One socket: the connection loop, the join it may be in the middle of, the tasks that
forward the broker streams into its queue, and the broker.
-/

namespace Betsphere.Ws
open Transition

/-- A frame for the socket. A live one has the task that made it and the number of the
publication it was made from as its source. -/
structure Outgoing where
  frame : ServerFrame
  source : Option (Nat × Nat)

/-- The task of one subscription. `inbox` is what its broker streams have for it, by the
number of the publication; `pending` are the frames of the message in hand. -/
structure Forwarder where
  name : Text
  channel : Channel
  inbox : List (Nat × Live)
  pending : List Outgoing
  polling : Bool
  aborted : Bool
  heard : List Nat
  heardFrom : Nat
  replayed : List ServerFrame

namespace Forwarder

/-- An aborted task ends at its next await. -/
def running (f : Forwarder) : Bool := !f.aborted || f.polling

def hear (number : Nat) (live : Live) (f : Forwarder) : Forwarder :=
  if f.running ∧ live.topic ∈ f.channel.topics then
    { f with inbox := f.inbox ++ [(number, live)], heard := f.heard ++ [number] }
  else f

def poll (f : Forwarder) : Option Forwarder :=
  if f.aborted ∨ f.polling then none else some { f with polling := true }

def park (f : Forwarder) : Option Forwarder :=
  if f.polling then some { f with polling := false } else none

/-- `live.next()`, when the stream of `topic` is the one that is polled first. -/
def next (t : Nat) (topic : Topic) (f : Forwarder) : Option Forwarder :=
  if f.polling ∧ f.pending.isEmpty then
    (f.inbox.find? fun x => x.2.topic = topic).map fun x =>
      { f with
        inbox := f.inbox.eraseP fun x => x.2.topic = topic
        pending := (x.2.frames f.name).map fun frame => ⟨frame, some (t, x.1)⟩ }
  else none

def abort (f : Forwarder) : Forwarder := { f with aborted := true }

end Forwarder

inductive JoinStage where
  | market (id : MarketId)
  | subscribe (topic : Topic) (rest : List Topic)
  | history
  | replay (frames : List ServerFrame)

def JoinStage.subscribing : List Topic → JoinStage
  | [] => .history
  | topic :: rest => .subscribe topic rest

/-- `subscribe::chat`, `bets` or `market_feed` between its awaits. -/
structure Join where
  name : Text
  channel : Channel
  stage : JoinStage
  subscribed : List Topic
  inbox : List (Nat × Live)
  heardFrom : Nat
  replayed : List ServerFrame

inductive Answer where
  | market (found : Except RepositoryError (Option Market))
  | subscribed (result : Except String Unit)
  | views (result : Except ApplicationError (List ChatMessageView))
  | bets (result : Except RepositoryError (List Bet))
  | outcomes (result : Except RepositoryError (List Outcome)) (now : DateTime)
  | sent
  | acted (result : Except ApplicationError Unit)

namespace Join

/-- The global feeds have nothing to check, and `list_recent` checks the market of a room. -/
def start (name : Text) (channel : Channel) : Join where
  name := name
  channel := channel
  stage :=
    match channel.checked with
    | some id => .market id
    | none => .subscribing channel.topics
  subscribed := []
  inbox := []
  heardFrom := 0
  replayed := []

def hear (number : Nat) (live : Live) (j : Join) : Join :=
  if live.topic ∈ j.subscribed then { j with inbox := j.inbox ++ [(number, live)] } else j

def forwarder (j : Join) : Forwarder where
  name := j.name
  channel := j.channel
  inbox := j.inbox
  pending := []
  polling := false
  aborted := false
  heard := j.inbox.map Prod.fst
  heardFrom := j.heardFrom
  replayed := j.replayed

/-- The frames that replay the current state. Bets are listed newest first. -/
def read (j : Join) : Answer → Option (Except String (List ServerFrame))
  | .views result =>
    match j.channel, result with
    | .chat _, .ok views => some (.ok [.history j.name views])
    | .chat _, .error e => some (.error e.message)
    | _, _ => none
  | .bets result =>
    match j.channel, result with
    | .bets _, .ok bets => some (.ok [.betHistory j.name (bets.reverse.map .ofBet)])
    | .bets _, .error e => some (.error e.message)
    | _, _ => none
  | .outcomes result now =>
    match j.channel, result with
    | .marketFeed _, .ok outcomes =>
      some (.ok (outcomes.map fun o => .priceUpdate j.name ⟨o.id, o.currentPrice, now⟩))
    | .marketFeed _, .error e => some (.error e.message)
    | _, _ => none
  | _ => none

end Join

inductive Handling where
  | idle
  | joining (join : Join)
  | posting (room : ChatChannel) (body : Text) (replyTo : Option MessageId)
  | reacting (messageId : MessageId) (emoji : Text) (added : Bool)
  | closed

/-- `subs` maps wire names to tasks. `wire` is what was published so far, oldest first. -/
structure Connection where
  forwarders : List Forwarder
  subs : List (Text × Nat)
  queue : List Outgoing
  written : List Outgoing
  handling : Handling
  wire : List Live

/-- `receive none` is a text frame that does not decode. -/
inductive WsAct where
  | publish (live : Live)
  | poll (t : Nat)
  | next (t : Nat) (topic : Topic)
  | send (t : Nat)
  | park (t : Nat)
  | drain
  | receive (frame : Option ClientFrame)
  | answer (answer : Answer)
  | close

def queueCapacity : Nat := 64

namespace Connection

def init : Connection := ⟨[], [], [], [], .idle, []⟩

def publish (c : Connection) (live : Live) : Connection :=
  { c with
    forwarders := c.forwarders.map (Forwarder.hear c.wire.length live)
    handling :=
      match c.handling with
      | .joining j => .joining (j.hear c.wire.length live)
      | handling => handling
    wire := c.wire ++ [live] }

def onForwarder (c : Connection) (t : Nat) (g : Forwarder → Option Forwarder) :
    Option Connection :=
  (c.forwarders[t]?.bind g).map fun f => { c with forwarders := c.forwarders.set t f }

/-- `tx.send`, which waits while the queue is full. -/
def send (c : Connection) (t : Nat) : Option Connection :=
  match c.forwarders[t]?, c.handling with
  | _, .closed => none
  | some f, _ =>
    match f.polling, f.pending with
    | true, out :: rest =>
      if c.queue.length < queueCapacity then
        some { c with
          forwarders := c.forwarders.set t { f with pending := rest }
          queue := c.queue ++ [out] }
      else none
    | _, _ => none
  | none, _ => none

def write (c : Connection) (frame : ServerFrame) : Connection :=
  { c with written := c.written ++ [⟨frame, none⟩] }

def refuse (c : Connection) (message : String) : Connection :=
  { c.write (.error message) with handling := .idle }

def spawn (c : Connection) (j : Join) : Connection :=
  { c with
    forwarders := c.forwarders ++ [j.forwarder]
    subs := (j.name, c.forwarders.length) :: c.subs
    handling := .idle }

def proceed (c : Connection) (j : Join) : Connection :=
  match j.stage with
  | .replay [] => c.spawn j
  | _ => { c with handling := .joining j }

def handleFrame (parseUuid : Text → Option Uuid) (c : Connection) :
    Option ClientFrame → Connection
  | none => c.refuse hint
  | some (.subscribe name) =>
    match parse parseUuid name with
    | none => c.refuse ("unknown channel " ++ Image.debugString (String.ofList name))
    | some channel =>
      if name ∈ c.subs.map Prod.fst then
        c.refuse ("already subscribed to " ++ String.ofList name)
      else { c with handling := .joining (.start name channel) }
  | some (.unsubscribe name) =>
    match c.subs.lookup name with
    | none => c.refuse ("not subscribed to " ++ String.ofList name)
    | some t =>
      { c with
        subs := c.subs.filter fun s => s.1 ≠ name
        forwarders := c.forwarders.modify t Forwarder.abort }
  | some (.chatMessage name body replyTo) =>
    match parse parseUuid name with
    | none => c.refuse ("unknown channel " ++ Image.debugString (String.ofList name))
    | some (.chat room) => { c with handling := .posting room body replyTo }
    | some _ => c.refuse (String.ofList name ++ " is not a chat channel")
  | some (.addReaction messageId emoji) => { c with handling := .reacting messageId emoji true }
  | some (.removeReaction messageId emoji) =>
    { c with handling := .reacting messageId emoji false }

def answerJoin (c : Connection) (j : Join) (x : Answer) : Option Connection :=
  match j.stage with
  | .market id =>
    match x with
    | .market (.ok (some _)) => some (c.proceed { j with stage := .subscribing j.channel.topics })
    | .market (.ok none) => some (c.refuse ("unknown market " ++ toString id))
    | .market (.error e) => some (c.refuse e.message)
    | _ => none
  | .subscribe topic rest =>
    match x with
    | .subscribed (.ok ()) =>
      some (c.proceed { j with
        stage := .subscribing rest
        subscribed := topic :: j.subscribed
        heardFrom := c.wire.length })
    | .subscribed (.error _) => some (c.refuse "subscription failed, try again")
    | _ => none
  | .history =>
    match j.read x with
    | some (.ok frames) => some (c.proceed { j with stage := .replay frames, replayed := frames })
    | some (.error message) => some (c.refuse message)
    | none => none
  | .replay [] => none
  | .replay (frame :: rest) =>
    match x with
    | .sent => some ((c.write frame).proceed { j with stage := .replay rest })
    | _ => none

def handleAnswer (c : Connection) (x : Answer) : Option Connection :=
  match c.handling, x with
  | .joining j, x => c.answerJoin j x
  | .posting .., .acted (.ok ()) => some { c with handling := .idle }
  | .posting .., .acted (.error e) => some (c.refuse e.message)
  | .reacting .., .acted (.ok ()) => some { c with handling := .idle }
  | .reacting .., .acted (.error e) => some (c.refuse e.message)
  | _, _ => none

/-- The loop ends: every task is aborted and the queue is dropped. -/
def close (c : Connection) : Connection :=
  { c with
    forwarders := c.forwarders.mapIdx fun t f => if t ∈ c.subs.map Prod.snd then f.abort else f
    subs := []
    queue := []
    handling := .closed }

def step (parseUuid : Text → Option Uuid) (c : Connection) : WsAct → Option Connection
  | .publish live => some (c.publish live)
  | .poll t => c.onForwarder t Forwarder.poll
  | .next t topic => c.onForwarder t (Forwarder.next t topic)
  | .send t => c.send t
  | .park t => c.onForwarder t Forwarder.park
  | .drain =>
    match c.handling, c.queue with
    | .idle, out :: rest => some { c with queue := rest, written := c.written ++ [out] }
    | _, _ => none
  | .receive frame =>
    match c.handling with
    | .idle => some (c.handleFrame parseUuid frame)
    | _ => none
  | .answer x => c.handleAnswer x
  | .close =>
    match c.handling with
    | .closed => none
    | _ => some c.close

end Connection

end Betsphere.Ws
