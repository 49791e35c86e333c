import CameraPower.Link
import CameraPower.Monitor
import CameraPower.Server

/-!
# Sessions and the monitor over one link

The telemetry service and the battery monitor share a link to the controller, in virtual time.  Time
stands still while any of them can act.

* `Party`             who makes calls over the link;
* `Station.settle`    everything that can happen at the current instant;
* `Station.advance`   time passes.
-/

set_option linter.unusedVariables false

namespace CameraPower

/-- who makes calls over the link -/
inductive Party where
  | session (number : Nat)
  | monitor
  deriving DecidableEq, Repr

structure Station where
  link : Link Party
  /-- the timeout of every call -/
  timeout : Time
  server : Server
  monitor : Monitor
  /-- how often a shutdown of the host was asked for -/
  shutdownRequests : Nat := 0
  /-- what clients were sent, oldest first -/
  written : List (Nat × String) := []
  /-- how the time of day is written in the names of log files -/
  localTime : String := "20000101_000000"
  /-- how the time of day is written in samples -/
  timestamp : String := "2000-01-01T00:00:00+00:00"

namespace Station

/-! ## what the parties do -/

/-- a party asks the controller -/
def ask (station : Station) (party : Party) (request : Request) : Station :=
  { station with link := station.link.begin ⟨party, request, station.timeout⟩ }

/-- somebody asks for a shutdown of the host -/
def requestShutdown (station : Station) : Station :=
  { station with shutdownRequests := station.shutdownRequests + 1 }

def performSession (station : Station) : Nat × Session.Action → Station
  | (number, .ask request) => station.ask (.session number) request
  | (number, .write text) => { station with written := station.written ++ [(number, text)] }
  | (_, .requestShutdown) => station.requestShutdown

def performMonitor (station : Station) : Monitor.Action → Station
  | .ask request => station.ask .monitor request
  | .requestShutdown => station.requestShutdown

def tellSession (station : Station) (number : Nat) (event : Session.Event) : Station :=
  let (server, actions) := station.server.tell station.link.now number event
  actions.foldl performSession { station with server }

def tellMonitor (station : Station) (event : Monitor.Event) : Station :=
  let (monitor, actions) :=
    station.monitor.step station.localTime station.timestamp station.link.now event
  actions.foldl performMonitor { station with monitor }

/-- a call has ended -/
def tellFinished (station : Station) (finished : Finished Party) : Station :=
  match finished.ticket with
  | .session number => station.tellSession number (.answered finished.answer)
  | .monitor => station.tellMonitor (.answered finished.answer)

/-! ## one instant -/

def next? (station : Station) : Option Time :=
  earlier? station.link.next? (earlier? station.server.wakeAt? station.monitor.wakeAt?)

/-- the clock has moved on -/
def tellClock (station : Station) : Station :=
  let (server, actions) := station.server.tellAll station.link.now .clock
  (actions.foldl performSession { station with server }).tellMonitor .clock

/-- Everything that can happen now, in at most so many rounds: what is due on the line, then the
parties whose calls have ended, then those who were waiting for this instant. -/
def settleWithin : Nat → Station → Station
  | 0, station => station
  | rounds + 1, station =>
    let link := station.link.settle
    let (finished, link) := link.collect
    let told := (finished.foldl tellFinished { station with link }).tellClock
    if finished.isEmpty && told.next?.all (station.link.now < ·) then told
    else settleWithin rounds told

/-- No instant needs more rounds: each ends a call or a wait, and a session has at most one call for
each byte that it has received. -/
def rounds (station : Station) : Nat :=
  station.server.sessions.foldl (fun n session => n + 2 * session.received.length + 8) 16

/-- everything that can happen at the current instant -/
def settle (station : Station) : Station :=
  settleWithin station.rounds station

/-! ## time -/

/-- the clock jumps to a later instant, and everything happens that can happen then -/
def jump (station : Station) (time : Time) : Station :=
  { station with link := station.link.jump time }.settle

/-- time passes until an instant, or until `stop` holds -/
def advance (stop : Station → Bool) (station : Station) (instant : Time) : Station :=
  if stop station then station
  else
    match station.next? with
    | some next =>
      if h : station.link.now < next ∧ next ≤ instant then
        let jumped := station.jump next
        { jumped with link := { jumped.link with now := next } }.advance stop instant
      else { station with link := { station.link with now := max station.link.now instant } }
    | none => { station with link := { station.link with now := max station.link.now instant } }
termination_by instant - station.link.now
decreasing_by exact Nat.sub_lt_sub_left (Nat.lt_of_lt_of_le h.1 h.2) h.1

def pause (station : Station) (ms : Time) : Station :=
  station.advance (fun _ => false) (station.link.now + ms)

/-! ## from outside -/

def connect (station : Station) : Station × Server.Admission :=
  let (server, admission) := station.server.connect station.link.now
  ({ station with server }, admission)

def stopServer (station : Station) : Station :=
  let (server, actions) := station.server.stop station.link.now
  actions.foldl performSession { station with server }

/-- something comes over the line -/
def hear (station : Station) (event : LineEvent) : Station :=
  { station with link := station.link.hear [event] }

end Station
end CameraPower
