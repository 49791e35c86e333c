/-!
# Virtual time and what is due when

Time is a number of milliseconds that moves only from one due event to the next.  An agenda holds
the events to come, sorted; events of one instant stand in the order in which they were entered.
-/

namespace CameraPower

/-- milliseconds since the start -/
abbrev Time := Nat

/-- events to come, sorted by time -/
structure Agenda (α : Type) where
  entries : List (Time × α) := []
  deriving DecidableEq, Repr

namespace Agenda

variable {α : Type}

/-- a sorted list with an event entered behind those of its own instant -/
def insertEntry (entry : Time × α) : List (Time × α) → List (Time × α)
  | [] => [entry]
  | other :: rest =>
    if entry.1 < other.1 then entry :: other :: rest else other :: insertEntry entry rest

def insert (agenda : Agenda α) (time : Time) (event : α) : Agenda α :=
  ⟨insertEntry (time, event) agenda.entries⟩

def insertAll (agenda : Agenda α) (events : List (Time × α)) : Agenda α :=
  events.foldl (fun agenda event => agenda.insert event.1 event.2) agenda

/-- the events due at an instant or before, and the agenda without them -/
def takeDue (agenda : Agenda α) (now : Time) : List α × Agenda α :=
  ((agenda.entries.takeWhile (·.1 ≤ now)).map Prod.snd,
    ⟨agenda.entries.dropWhile (·.1 ≤ now)⟩)

/-- when the first event is due -/
def next? (agenda : Agenda α) : Option Time :=
  agenda.entries.head?.map Prod.fst

end Agenda

/-- the earlier of two instants that may never come -/
def earlier? : Option Time → Option Time → Option Time
  | some a, some b => some (min a b)
  | some a, none => some a
  | none, b => b

end CameraPower
