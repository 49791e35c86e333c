import CameraPower.Agenda
import CameraPower.Controller
import CameraPower.SampleLog

/-!
# The battery monitor

The monitor polls the controller at a fixed interval, whether or not a client is connected.  Each
reading is logged and asks the host to shut down if its flag says so; neither a failed poll nor a
failed log entry ends the monitor.

The first tick is at the start.  A tick that comes while a poll is under way is taken right after
it; ticks missed beyond that are skipped.

* `Monitor.nextTick`  when the tick after one that was taken late is due;
* `Monitor.step`      the monitor as a machine over events.
-/

namespace CameraPower

namespace Monitor

inductive Phase where
  | idle
  /-- waits for its next tick -/
  | waiting (tick : Time)
  /-- a poll is under way; a running monitor knows its next tick -/
  | polling (tick : Option Time)
  | stopped
  /-- it was to poll without an interval, and never came up -/
  | broken
  deriving DecidableEq, Repr

inductive Event where
  /-- it starts to poll by itself -/
  | run
  /-- it polls once -/
  | poll
  | stop
  | answered (answer : Answer)
  /-- the clock has moved on -/
  | clock

inductive Action where
  | ask (request : Request)
  | requestShutdown
  deriving DecidableEq, Repr

/-- a log and the directory that it writes to -/
structure Logging where
  log : SampleLog
  directory : Directory
  deriving DecidableEq, Repr

/-- How late a tick may be taken without being counted as missed. -/
def leniency : Time := 5

/-- When the next tick is due, if the tick that was due at `tick` is taken at `now`: one interval
later, or at the next multiple of the interval when the tick was missed. -/
def nextTick (interval tick now : Time) : Time :=
  if tick + leniency < now then now + interval - (now - tick) % interval else tick + interval

end Monitor

structure Monitor where
  interval : Time
  logging : Option Monitor.Logging := none
  /-- how many polls succeeded; 64 bits never run out -/
  samples : Nat := 0
  /-- what the last poll came to -/
  last : Option (Except Error Telemetry) := none
  phase : Monitor.Phase := .idle
  stopping : Bool := false

namespace Monitor

/-- Logs a reading; a failure is of no further consequence.  Times of day are not modelled. -/
def record (monitor : Monitor) (localTime timestamp : String) (t : Telemetry) : Monitor :=
  match monitor.logging with
  | none => monitor
  | some logging =>
    let (log, directory, _) := logging.log.log logging.directory localTime timestamp t
    { monitor with logging := some { log, directory } }

def poll (monitor : Monitor) (tick : Option Time) : Monitor × List Action :=
  ({ monitor with phase := .polling tick }, [.ask Controller.batteryData.request])

/-- waits for a tick, or takes it if it is due -/
def await (now : Time) (monitor : Monitor) (tick : Time) : Monitor × List Action :=
  if monitor.stopping then ({ monitor with phase := .stopped }, [])
  else if tick ≤ now then monitor.poll (some (nextTick monitor.interval tick now))
  else ({ monitor with phase := .waiting tick }, [])

/-- a poll has come to a result -/
def take (localTime timestamp : String) (monitor : Monitor) (result : Except Error Telemetry) :
    Monitor × List Action :=
  let monitor := { monitor with last := some result }
  match result with
  | .error _ => (monitor, [])
  | .ok t =>
    let monitor := { monitor with samples := monitor.samples + 1 }.record localTime timestamp t
    (monitor, if t.shutdownRequested then [.requestShutdown] else [])

/-- what an event makes of a monitor at an instant, and its actions -/
def step (localTime timestamp : String) (now : Time) (monitor : Monitor) :
    Event → Monitor × List Action
  | .run =>
    match monitor.phase with
    | .idle =>
      if monitor.interval = 0 then ({ monitor with phase := .broken }, [])
      else monitor.await now now
    | _ => (monitor, [])
  | .poll =>
    match monitor.phase with
    | .idle => monitor.poll none
    | _ => (monitor, [])
  | .stop =>
    let monitor := { monitor with stopping := true }
    match monitor.phase with
    | .waiting tick => monitor.await now tick
    | _ => (monitor, [])
  | .clock =>
    match monitor.phase with
    | .waiting tick => monitor.await now tick
    | _ => (monitor, [])
  | .answered answer =>
    match monitor.phase with
    | .polling tick =>
      let (monitor, actions) :=
        monitor.take localTime timestamp (Controller.batteryData.result answer)
      match tick with
      | none => ({ monitor with phase := .idle }, actions)
      | some tick =>
        let (monitor, more) := monitor.await now tick
        (monitor, actions ++ more)
    | _ => (monitor, [])

/-- when the clock alone makes the monitor act -/
def wakeAt? (monitor : Monitor) : Option Time :=
  match monitor.phase with
  | .waiting tick => some tick
  | _ => none

end Monitor
end CameraPower
