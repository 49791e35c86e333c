import CameraPower.Agenda
import CameraPower.Dialogue
import CameraPower.Inbox

/-!
# One exchange at a time

Replies carry no number: a reply is matched only by repeating the command of its request.  So calls
take turns.  The call whose turn it is holds the line from the write of its request until the reply,
the deadline, a failure, or until its caller gives up; the others wait in the order of their arrival.

The engine is a machine over events:

* `Event`   a call arrives, frames come in, the clock moves on, a caller gives up;
* `Action`  a request is put on the line, a call ends;
* `step`    what an event makes of the engine, and the actions in their order.

The port is a parameter: a state, and what sending bytes at an instant makes of it.  The port of this
machine takes a request at once, so that nothing comes in between a look into the inbox and a write.
-/

namespace CameraPower

/-- what puts bytes on a line: the port after a write, and how the write went -/
abbrev Send (π : Type) := π → Time → List UInt8 → π × Except PortFault Unit

namespace Engine

/-- a call that waits for its turn -/
structure Call (ι : Type) where
  ticket : ι
  request : Request
  timeout : Time
  deriving DecidableEq, Repr

/-- the call that holds the line: its request is written, its reply is awaited -/
structure Exchange (ι : Type) where
  ticket : ι
  command : UInt8
  timeout : Time
  deadline : Time
  deriving DecidableEq, Repr

/-- what happens to an engine -/
inductive Event (ι : Type) where
  /-- a caller asks for an exchange -/
  | call (call : Call ι)
  /-- at one instant frames came in, and then perhaps the line ended -/
  | received (frames : List Frame) (ended : Bool)
  /-- the clock has moved on -/
  | clock
  /-- a caller gives up -/
  | abandon (ticket : ι)

/-- what an engine does -/
inductive Action (ι : Type) where
  /-- puts the frame of a request on the line -/
  | write (ticket : ι) (bytes : List UInt8)
  /-- ends a call -/
  | finish (ticket : ι) (answer : Answer)

end Engine

/-- the calls under way, the inbox, and the port -/
structure Engine (ι π : Type) where
  inbox : Inbox
  port : π
  current : Option (Engine.Exchange ι) := none
  queue : List (Engine.Call ι) := []

namespace Engine

variable {ι π : Type}

/-- what an awaited reply has come to: first what the inbox holds, then whether the line has ended,
then the deadline -/
def outcome? (now : Time) (exchange : Exchange ι) (inbox : Inbox) : Inbox × Option Answer :=
  match inbox.take exchange.command with
  | (inbox, some frame) => (inbox, some (.ok frame))
  | (inbox, none) =>
    if inbox.closed then (inbox, some (.error .linkClosed))
    else if exchange.deadline ≤ now then
      (inbox, some (.error (.timeout exchange.command exchange.timeout)))
    else (inbox, none)

/-- Hands the free line to the calls of a queue, in order, until one of them has to wait for its
reply.  A call that finds the line ended and the inbox empty fails without a write; any other throws
away the frames that are in, which belong to nobody, and writes its request at the same instant.  With
a port that takes its time frames can come in between the two. -/
def grant (send : Send π) (now : Time) (inbox : Inbox) (port : π) :
    List (Call ι) → Engine ι π × List (Action ι)
  | [] => ({ inbox, port }, [])
  | call :: rest =>
    let ⟨command, payload⟩ := call.request
    if inbox.closed && inbox.frames.isEmpty then
      let (engine, actions) := grant send now inbox port rest
      (engine, .finish call.ticket (.error .linkClosed) :: actions)
    else
      let bytes := Frame.bytes command payload
      let inbox := inbox.drain.1
      match send port now bytes with
      | (port, .error fault) =>
        let (engine, actions) := grant send now inbox port rest
        (engine, .write call.ticket bytes :: .finish call.ticket (.error (.serial fault)) :: actions)
      | (port, .ok ()) =>
        let exchange : Exchange ι := ⟨call.ticket, command, call.timeout, now + call.timeout⟩
        match outcome? now exchange inbox with
        | (inbox, none) =>
          ({ inbox, port, current := some exchange, queue := rest }, [.write call.ticket bytes])
        | (inbox, some answer) =>
          let (engine, actions) := grant send now inbox port rest
          (engine, .write call.ticket bytes :: .finish call.ticket answer :: actions)

/-- Looks after the call that holds the line; when it has come to an end, or there is none, the line
goes to the next. -/
def look (send : Send π) (now : Time) (engine : Engine ι π) : Engine ι π × List (Action ι) :=
  match engine.current with
  | none => grant send now engine.inbox engine.port engine.queue
  | some exchange =>
    match outcome? now exchange engine.inbox with
    | (inbox, none) => ({ engine with inbox }, [])
    | (inbox, some answer) =>
      let (engine, actions) := grant send now inbox engine.port engine.queue
      (engine, .finish exchange.ticket answer :: actions)

/-- a call that does not fit a frame is refused on arrival, any other stands in line -/
def arrive (engine : Engine ι π) (call : Call ι) : Engine ι π × List (Action ι) :=
  match Frame.encode? call.request.command call.request.payload with
  | .error error => (engine, [.finish call.ticket (.error error)])
  | .ok _ => ({ engine with queue := engine.queue ++ [call] }, [])

/-- a caller that gives up leaves the line or the queue -/
def forget [DecidableEq ι] (engine : Engine ι π) (ticket : ι) : Engine ι π :=
  { engine with
    current := engine.current.filter (·.ticket ≠ ticket)
    queue := engine.queue.filter (·.ticket ≠ ticket) }

/-- what an event makes of an engine at an instant -/
def step [DecidableEq ι] (send : Send π) (now : Time) (engine : Engine ι π) :
    Event ι → Engine ι π × List (Action ι)
  | .call call =>
    let (engine, refused) := engine.arrive call
    let (engine, actions) := engine.look send now
    (engine, refused ++ actions)
  | .received frames ended =>
    let inbox := engine.inbox.pushAll frames
    let inbox := if ended then inbox.close else inbox
    { engine with inbox }.look send now
  | .clock => engine.look send now
  | .abandon ticket => (engine.forget ticket).look send now

end Engine
end CameraPower
