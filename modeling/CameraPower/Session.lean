import CameraPower.Agenda
import CameraPower.ClientCommand
import CameraPower.Controller
import CameraPower.Session.LineReader

/-!
# A telemetry client's session

Each line of the vocabulary is answered from the controller, one after the other; other lines are
passed over.  A client that completes no line for a push interval gets a battery reading as if it
had asked.  The session ends with the client's input, with a reply that cannot be delivered, or when
it is told to stop; a request that is under way is answered first.

A session is a machine over events (`Session.step`):

* `ClientCommand.request`, `ClientCommand.reply`  what a command asks and how the answer reads;
* `Session.Event`, `Session.Action`               what happens to a session, what it does;
* `Session.listen`                                reads lines until one of them needs an answer.
-/

namespace CameraPower

/-! ## commands -/

/-- what a client is sent -/
structure Reply where
  text : String
  /-- the reading asks the host to shut down -/
  shutdownRequested : Bool := false
  deriving DecidableEq, Repr

namespace ClientCommand

/-- a reply of one line -/
def status (line : String) : Reply :=
  { text := line ++ "\n" }

/-- how the answer to a query reads, failures included -/
def replyTo {α : Type} (command : ClientCommand) (query : Query α) (text : α → Reply)
    (answer : Answer) : Reply :=
  match query.result answer with
  | .ok value => text value
  | .error error => status (command.text ++ " failed: " ++ error.message)

/-- the one request that a command makes -/
def request : ClientCommand → Request
  | .getBatteryData => Controller.batteryData.request
  | .setShippingMode enabled => (Controller.setShippingMode enabled).request
  | .setPowerupMode mode => (Controller.setPowerupMode mode).request
  | .getPowerupMode => Controller.powerupMode.request
  | .setFanAuto => (Controller.setFanOverride .auto).request
  | .setFanOff => (Controller.setFanOverride (.fixed 0)).request
  | .setFanSpeed speed => (Controller.setFanOverride (.fixed speed)).request
  | .getFanMode => Controller.fanOverride.request
  | .getShutdownReason => Controller.shutdownReason.request

/-- what a client is sent when its command's request has come to an answer -/
def reply (command : ClientCommand) (answer : Answer) : Reply :=
  match command with
  | .getBatteryData =>
    command.replyTo Controller.batteryData (fun t => ⟨t.block, t.shutdownRequested⟩) answer
  | .setShippingMode enabled =>
    command.replyTo (Controller.setShippingMode enabled)
      (fun _ => status (shippingModeText enabled)) answer
  | .setPowerupMode mode =>
    command.replyTo (Controller.setPowerupMode mode) (fun _ => status mode.text) answer
  | .getPowerupMode => command.replyTo Controller.powerupMode (fun mode => status mode.text) answer
  | .setFanAuto =>
    command.replyTo (Controller.setFanOverride .auto)
      (fun _ => status "disabled fan override") answer
  | .setFanOff =>
    command.replyTo (Controller.setFanOverride (.fixed 0))
      (fun _ => status "enabled fan override") answer
  | .setFanSpeed speed =>
    command.replyTo (Controller.setFanOverride (.fixed speed))
      (fun _ => status ("fan override " ++ Numeral.ofNat speed.toNat)) answer
  | .getFanMode => command.replyTo Controller.fanOverride (fun fan => status fan.text) answer
  | .getShutdownReason =>
    command.replyTo Controller.shutdownReason (fun reason => status reason.text) answer

end ClientCommand

/-! ## the session -/

namespace Session

inductive Phase where
  /-- waits for a line until the client counts as quiet -/
  | listening (quietAt : Time)
  /-- waits for the answer to a command's request -/
  | asking (command : ClientCommand)
  | closed (outcome : Except Error Unit)

/-- What happens to a session.  A read that fails is none of these: it ends the task that a session
runs in, as any failure of the task does, and nothing more is seen of the session. -/
inductive Event where
  | input (bytes : List UInt8)
  /-- the client sends nothing more -/
  | inputEnded
  /-- the client is gone: nothing more comes from it, and nothing reaches it -/
  | vanished
  | stop
  | answered (answer : Answer)
  /-- the clock has moved on -/
  | clock

inductive Action where
  | ask (request : Request)
  | write (text : String)
  | requestShutdown
  deriving DecidableEq, Repr

end Session

structure Session where
  pushInterval : Time
  phase : Session.Phase
  reader : LineReader := {}
  /-- bytes that came in and are not yet taken into a line -/
  received : List UInt8 := []
  inputEnded : Bool := false
  /-- what is written reaches the client -/
  connected : Bool := true
  stopping : Bool := false

namespace Session

/-- a session that begins at an instant -/
def start (pushInterval : Time) (now : Time) : Session :=
  { pushInterval, phase := .listening (now + pushInterval) }

/-- makes a command's request -/
def ask (session : Session) (command : ClientCommand) : Session × List Action :=
  ({ session with phase := .asking command }, [.ask command.request])

def command? : ClientLine → Option ClientCommand
  | .text line => ClientCommand.parse? line
  | .malformed => none

/-- Reads lines until one of them needs an answer; each line that does not begins the wait for a
quiet client anew. -/
def listen (now : Time) (session : Session) (quietAt : Time) : Session × List Action :=
  if session.stopping then ({ session with phase := .closed (.ok ()) }, [])
  else
    match _ : session.reader.next session.received session.inputEnded with
    | .ended => ({ session with phase := .closed (.ok ()) }, [])
    | .more reader =>
      let session := { session with reader, received := [] }
      if quietAt ≤ now then session.ask .getBatteryData
      else ({ session with phase := .listening quietAt }, [])
    | .line line rest =>
      let session := { session with reader := {}, received := rest }
      match command? line with
      | some command => session.ask command
      | none => session.listen now (now + session.pushInterval)
termination_by session.reader.backlog session.received
decreasing_by
  simpa [LineReader.backlog, LineReader.isEmpty] using LineReader.length_lt_backlog ‹_›

/-- listens on, if it is listening at all -/
def resume (now : Time) (session : Session) : Session × List Action :=
  match session.phase with
  | .listening quietAt => session.listen now quietAt
  | _ => (session, [])

/-- sends a reply, and then says that the host is asked to shut down; a reply that does not reach
the client ends the session -/
def deliver (now : Time) (session : Session) (reply : Reply) : Session × List Action :=
  if session.connected then
    let (session, actions) := session.listen now (now + session.pushInterval)
    (session, .write reply.text ::
      ((if reply.shutdownRequested then [.requestShutdown] else []) ++ actions))
  else ({ session with phase := .closed (.error (.io .brokenPipe)) }, [])

/-- what an event makes of a session at an instant, and the actions in their order -/
def step (now : Time) (session : Session) : Event → Session × List Action
  | .input bytes =>
    if session.inputEnded then (session, [])
    else { session with received := session.received ++ bytes }.resume now
  | .inputEnded => { session with inputEnded := true }.resume now
  | .vanished => { session with inputEnded := true, connected := false }.resume now
  | .stop => { session with stopping := true }.resume now
  | .clock => session.resume now
  | .answered answer =>
    match session.phase with
    | .asking command => session.deliver now (command.reply answer)
    | _ => (session, [])

/-- how the session ended, if it has -/
def outcome? (session : Session) : Option (Except Error Unit) :=
  match session.phase with
  | .closed outcome => some outcome
  | _ => none

/-- when the clock alone makes the session act -/
def wakeAt? (session : Session) : Option Time :=
  match session.phase with
  | .listening quietAt => some quietAt
  | _ => none

end Session
end CameraPower
