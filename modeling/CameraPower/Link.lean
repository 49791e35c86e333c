import CameraPower.Engine
import CameraPower.Receiver

/-!
# A link in virtual time

An engine, a receiver, and the line between them and the controller.  Time stands still while
anything can happen, and then jumps to the next due event.  Processing takes no time.  All bytes of
one instant are decoded before a call looks at the inbox.

* `Wire`          the line: the controller, the bytes on their way, the requests sent;
* `Link.settle`   everything that can happen at the current instant;
* `Link.advance`  time passes;
* `Link.call`     one exchange from its start to its end;
* `Link.hold`     a whole conversation.
-/

set_option linter.unusedVariables false

namespace CameraPower

/-! ## the line -/

structure Wire where
  device : Device
  /-- what is on its way to the host -/
  agenda : Agenda LineEvent := {}
  /-- the requests that were put on the line, and when -/
  sent : Array (Time × List UInt8) := #[]

namespace Wire

/-- puts a request on the line and enters what the controller sends back -/
def send : Send Wire := fun wire now bytes =>
  match Frame.decode? bytes with
  | .error _ => ({ wire with sent := wire.sent.push (now, bytes) }, .ok ())
  | .ok request =>
    let (device, reaction) := wire.device.react request.command request.payload
    let agenda := wire.agenda.insertAll (reaction.replies.map fun (delay, data) =>
      (now + delay, .bytes data))
    let agenda := if reaction.hangsUp then agenda.insert now .ended else agenda
    let sent := wire.sent.push (now, bytes)
    match reaction.fault with
    | none => ({ device, agenda, sent }, .ok ())
    | some (.write fault) => ({ device, agenda, sent := wire.sent }, .error (.write fault))
    | some fault => ({ device, agenda, sent }, .error fault)

end Wire

/-! ## the link -/

/-- the end of a call: who called, when it ended, and with what -/
structure Finished (ι : Type) where
  ticket : ι
  time : Time
  answer : Answer

structure Link (ι : Type) where
  now : Time := 0
  engine : Engine ι Wire
  receiver : Receiver
  /-- the calls that have ended since somebody asked -/
  finished : List (Finished ι) := []

namespace Link

variable {ι : Type} [DecidableEq ι]

def start (device : Device) (frameLimit inboxCapacity : Nat) : Link ι :=
  { engine := { inbox := .withCapacity inboxCapacity, port := { device } }
    receiver := .withLimit frameLimit }

/-- the ends of calls among the actions of an engine -/
def endsAt (now : Time) : List (Engine.Action ι) → List (Finished ι)
  | [] => []
  | .write _ _ :: rest => endsAt now rest
  | .finish ticket answer :: rest => ⟨ticket, now, answer⟩ :: endsAt now rest

/-- one event of the engine at the current instant -/
def perform (link : Link ι) (event : Engine.Event ι) : Link ι :=
  let (engine, actions) := link.engine.step Wire.send link.now event
  { link with engine, finished := link.finished ++ endsAt link.now actions }

/-- hears some events of the line at the current instant -/
def hear (link : Link ι) (events : List LineEvent) : Link ι :=
  let (receiver, frames) := link.receiver.hearAll events
  { link with receiver }.perform (.received frames (link.receiver.running && !receiver.running))

def hearDue (link : Link ι) : Link ι :=
  let (due, agenda) := link.engine.port.agenda.takeDue link.now
  { link with engine := { link.engine with port := { link.engine.port with agenda } } }.hear due

/-- whether something on the line is due -/
def isDue (link : Link ι) : Bool :=
  link.engine.port.agenda.next?.any (· ≤ link.now)

/-- Everything that can happen at the current instant.  What has been heard can bring about new
replies only by handing the line to calls that waited for it. -/
def settle (link : Link ι) : Link ι :=
  if link.isDue then
    let heard := link.hearDue
    if h : heard.engine.queue.length < link.engine.queue.length then heard.settle else heard
  else link
termination_by link.engine.queue.length

/-- a caller asks for an exchange at the current instant -/
def begin (link : Link ι) (call : Engine.Call ι) : Link ι :=
  link.perform (.call call)

def next? (link : Link ι) : Option Time :=
  earlier? link.engine.port.agenda.next? (link.engine.current.map Engine.Exchange.deadline)

/-- the clock jumps to a later instant, and everything happens that can happen then -/
def jump (link : Link ι) (time : Time) : Link ι :=
  ({ link with now := time }.settle.perform .clock).settle

/-- time passes until an instant, or until `stop` holds -/
def advance (stop : Link ι → Bool) (link : Link ι) (instant : Time) : Link ι :=
  if stop link then link
  else
    match link.next? with
    | some next =>
      if h : link.now < next ∧ next ≤ instant then
        { link.jump next with now := next }.advance stop instant
      else { link with now := max link.now instant }
    | none => { link with now := max link.now instant }
termination_by instant - link.now
decreasing_by exact Nat.sub_lt_sub_left (Nat.lt_of_lt_of_le h.1 h.2) h.1

def idle (link : Link ι) : Bool :=
  link.engine.current.isNone && link.engine.queue.isEmpty

/-- the ends of calls so far, and the link with none -/
def collect (link : Link ι) : List (Finished ι) × Link ι :=
  (link.finished, { link with finished := [] })

/-! ## the line's end -/

/-- the receiver is told to stop, and the inbox is closed -/
def stop (link : Link ι) : Link ι :=
  if link.receiver.running then
    { link with receiver := link.receiver.stop }.perform (.received [] true)
  else link

/-! ## one caller -/

/-- an exchange for a caller who has the link to itself, and gives up at an instant if it has one -/
def exchange (ticket : ι) (timeout : Time) (giveUp : Option Time) (link : Link ι)
    (request : Request) : Link ι × Option Answer :=
  let link := link.begin ⟨ticket, request, timeout⟩
  let patience := giveUp.getD (link.now + timeout)
  let link := if link.now < patience then link.settle else link
  let link := link.advance idle patience
  match link.finished with
  | ended :: _ => ({ link with finished := [] }.settle, some ended.answer)
  | [] => ((link.perform (.abandon ticket)).settle, none)

/-- an exchange for a caller who has the link to itself -/
def call (ticket : ι) (timeout : Time) (link : Link ι) (request : Request) : Link ι × Answer :=
  let (link, answer) := link.exchange ticket timeout none request
  (link, answer.getD (.error .linkClosed))

def pause (link : Link ι) (ms : Time) : Link ι :=
  link.advance (fun _ => false) (link.now + ms)

/-- holds a conversation over the link -/
def hold {α : Type} (ticket : ι) (timeout : Time) : Link ι → Dialogue α → Link ι × α
  | link, .done result => (link, result)
  | link, .ask request next =>
    let (link, answer) := link.call ticket timeout request
    hold ticket timeout link (next answer)
  | link, .pause ms next => hold ticket timeout (link.pause ms) next

/-! ## several callers -/

/-- callers arrive one after the other, each at an instant -/
def arriveAll (link : Link ι) : List (Time × Engine.Call ι) → Link ι
  | [] => link
  | (time, call) :: rest =>
    (((link.advance (fun _ => false) time).begin call).settle).arriveAll rest

/-- Callers that arrive at fixed instants, until the last of them is served: the ends of their
calls in the order in which they ended. -/
def serve (link : Link ι) (calls : List (Time × Engine.Call ι)) : Link ι × List (Finished ι) :=
  let link := link.arriveAll (calls.mergeSort fun a b => a.1 ≤ b.1)
  let patience := calls.foldl (fun sum call => sum + call.2.timeout) 0
  let link := link.advance idle (link.now + patience)
  ({ link with finished := [] }, link.finished)

end Link
end CameraPower
