import CameraPower.Frame

/-!
# Frames that wait for a reader

A bounded queue between the receiver of a link and whoever waits for a reply.  When it is full, a
new frame takes the place of the oldest.  Closing says that no more frames come from the line; the
frames that are in stay readable.
-/

namespace CameraPower

/-- the frames not yet read, oldest first -/
structure Inbox where
  capacity : Nat
  frames : List Frame := []
  closed : Bool := false
  /-- how many frames were lost to newer ones; 64 bits never run out -/
  overwritten : Nat := 0
  deriving DecidableEq, Repr

namespace Inbox

/-- the capacity of an inbox that is not given one -/
def defaultCapacity : Nat := 4

/-- an empty inbox for at least one frame -/
def withCapacity (capacity : Nat) : Inbox :=
  { capacity := max 1 capacity }

/-- takes a frame in, at the cost of the oldest one when the inbox is full -/
def push (inbox : Inbox) (frame : Frame) : Inbox :=
  match inbox.frames with
  | oldest :: rest =>
    if inbox.frames.length = inbox.capacity then
      { inbox with frames := rest ++ [frame], overwritten := inbox.overwritten + 1 }
    else { inbox with frames := oldest :: rest ++ [frame] }
  | [] => { inbox with frames := [frame] }

def pushAll (inbox : Inbox) (frames : List Frame) : Inbox :=
  frames.foldl push inbox

def pop (inbox : Inbox) : Inbox × Option Frame :=
  match inbox.frames with
  | [] => (inbox, none)
  | frame :: rest => ({ inbox with frames := rest }, some frame)

/-- throws all frames away and counts them -/
def drain (inbox : Inbox) : Inbox × Nat :=
  ({ inbox with frames := [] }, inbox.frames.length)

/-- no more frames come from the line -/
def close (inbox : Inbox) : Inbox :=
  { inbox with closed := true }

def size (inbox : Inbox) : Nat :=
  inbox.frames.length

/-- takes frames out until one carries a command, throwing the others away -/
def take (command : UInt8) (inbox : Inbox) : Inbox × Option Frame :=
  match inbox.frames.dropWhile (·.command != command) with
  | [] => ({ inbox with frames := [] }, none)
  | frame :: rest => ({ inbox with frames := rest }, some frame)

end Inbox
end CameraPower
