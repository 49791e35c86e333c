import CameraPower.Device
import CameraPower.Frame.Decoder
import CameraPower.Inbox

/-!
# The receiving side of a link

The receiver hears the line until it ends or the receiver is told to stop; after that it hears
nothing.  What it hears goes through one decoder, however the bytes are cut into reads.

* `hear`     one event of the line, and the frames it completes;
* `publish`  what a run of events leaves in an inbox nobody reads.
-/

namespace CameraPower

structure Receiver where
  decoder : Decoder
  running : Bool := true
  /-- how many frames it has completed; 64 bits never run out -/
  published : Nat := 0
  deriving DecidableEq, Repr

namespace Receiver

/-- a receiver that accepts frames of declared length up to `limit` -/
def withLimit (limit : Nat) : Receiver :=
  { decoder := .withLimit limit }

/-- a receiver that has been told to stop -/
def stop (receiver : Receiver) : Receiver :=
  { receiver with running := false }

def hear (receiver : Receiver) : LineEvent → Receiver × List Frame
  | .bytes data =>
    if receiver.running then
      let (decoder, frames) := receiver.decoder.feedAll data
      ({ receiver with decoder, published := receiver.published + frames.length }, frames)
    else (receiver, [])
  | .ended => (receiver.stop, [])

def hearAll (receiver : Receiver) : List LineEvent → Receiver × List Frame
  | [] => (receiver, [])
  | event :: rest =>
    let (receiver, frames) := receiver.hear event
    let (receiver, more) := receiver.hearAll rest
    (receiver, frames ++ more)

/-- A run of events with an inbox that nobody reads: frames are pushed as they complete, and the
inbox is closed once the receiver no longer runs. -/
def publish (receiver : Receiver) (inbox : Inbox) (events : List LineEvent) : Receiver × Inbox :=
  let (receiver, frames) := receiver.hearAll events
  let inbox := inbox.pushAll frames
  (receiver, if receiver.running then inbox else inbox.close)

end Receiver
end CameraPower
