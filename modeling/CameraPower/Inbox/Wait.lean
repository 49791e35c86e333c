import CameraPower.Agenda
import CameraPower.Inbox

/-!
# Waiting on an inbox

An inbox in time: frames come in, and the inbox is closed, at instants that are fixed beforehand.
Whoever waits for the next frame gets the oldest one that is in; a closed inbox without frames ends
the wait, and so does a deadline.

* `TimedInbox.advance`  time passes;
* `TimedInbox.await`    the wait for what arrives later;
* `TimedInbox.receive`  waits for the next frame until a deadline.
-/

set_option linter.unusedVariables false

namespace CameraPower

/-- what happens to an inbox from the line's side -/
inductive Arrival where
  | frame (frame : Frame)
  | close
  deriving DecidableEq, Repr

/-- what a wait ends with -/
inductive Received where
  | frame (frame : Frame)
  | elapsed
  | closed
  deriving DecidableEq, Repr

/-- an inbox with what will arrive -/
structure TimedInbox where
  now : Time := 0
  inbox : Inbox
  agenda : Agenda Arrival := {}
  deriving DecidableEq, Repr

namespace TimedInbox

def apply (inbox : Inbox) : Arrival → Inbox
  | .frame frame => inbox.push frame
  | .close => inbox.close

/-- everything due at an instant arrives -/
def arriveAt (timed : TimedInbox) (now : Time) : TimedInbox :=
  let (due, agenda) := timed.agenda.takeDue now
  { now, inbox := due.foldl apply timed.inbox, agenda }

def schedule (timed : TimedInbox) (delay : Time) (arrival : Arrival) : TimedInbox :=
  { timed with agenda := timed.agenda.insert (timed.now + delay) arrival }

def advance (timed : TimedInbox) (instant : Time) : TimedInbox :=
  timed.arriveAt (max timed.now instant)

/-- what a look at the inbox ends a wait with -/
def look? (timed : TimedInbox) : Option (TimedInbox × Received) :=
  match timed.inbox.pop with
  | (inbox, some frame) => some ({ timed with inbox }, .frame frame)
  | (_, none) => if timed.inbox.closed then some (timed, .closed) else none

/-- Waits for the next frame when nothing more is due now.  At each instant at which something
arrives, all of it arrives before the inbox is looked at. -/
def await (timed : TimedInbox) (deadline : Time) : TimedInbox × Received :=
  match timed.look? with
  | some ended => ended
  | none =>
    match timed.agenda.next? with
    | some next =>
      if h : timed.now < next ∧ next ≤ deadline then (timed.arriveAt next).await deadline
      else (timed.advance deadline, .elapsed)
    | none => (timed.advance deadline, .elapsed)
termination_by deadline - timed.now
decreasing_by
  exact Nat.sub_lt_sub_left (Nat.lt_of_lt_of_le h.1 h.2) h.1

/-- Waits for the next frame.  What is due now arrives before the wait begins, unless the wait ends
at once. -/
def receive (timed : TimedInbox) (deadline : Time) : TimedInbox × Received :=
  match timed.look? with
  | some ended => ended
  | none =>
    if timed.now < deadline then (timed.arriveAt timed.now).await deadline
    else (timed.advance deadline, .elapsed)

end TimedInbox
end CameraPower
