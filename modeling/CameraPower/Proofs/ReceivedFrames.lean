import CameraPower.Proofs.InboxRing
import CameraPower.Proofs.LinkTime

/-!
# What a receiver leaves in the inbox

The line of a link is heard, and nobody makes a call.  However the bytes are cut into reads, and the
reads fall together in time, the receiver publishes what one decoder finds in all of them, and the
inbox holds the newest of these frames.

* `Receiver.hearAll_bytes`     a run of reads;
* `Link.listening`             the link that has heard some bytes;
* `keeps_newest_of_stream`     what is left when the line ends, or the receiver is told to stop.
-/

namespace CameraPower

/-! ## the receiver -/

namespace Receiver

theorem hearAll_bytes (decoder : Decoder) (published : Nat) (reads : List (List UInt8)) :
    ({ decoder, published } : Receiver).hearAll (reads.map .bytes) =
      ({ decoder := (decoder.feedAll reads.flatten).1
         published := published + (decoder.feedAll reads.flatten).2.length },
        (decoder.feedAll reads.flatten).2) := by
  induction reads generalizing decoder published with
  | nil => rfl
  | cons read rest ih =>
    simp only [List.map_cons, hearAll, hear, if_true, ih, List.flatten_cons,
      Decoder.feedAll_append, List.length_append, Nat.add_assoc]

theorem hearAll_append (receiver : Receiver) (events more : List LineEvent) :
    receiver.hearAll (events ++ more) =
      (((receiver.hearAll events).1.hearAll more).1,
        (receiver.hearAll events).2 ++ ((receiver.hearAll events).1.hearAll more).2) := by
  induction events generalizing receiver with
  | nil => rfl
  | cons event rest ih => simp only [List.cons_append, hearAll, ih, List.append_assoc]

/-- a receiver that no longer runs hears nothing -/
theorem hearAll_stopped (receiver : Receiver) (hstopped : receiver.running = false)
    (events : List LineEvent) : receiver.hearAll events = (receiver, []) := by
  induction events with
  | nil => rfl
  | cons event rest ih =>
    cases event with
    | bytes data => simp [hearAll, hear, hstopped, ih]
    | ended =>
      have hsame : receiver.stop = receiver := by rw [stop, ← hstopped]
      simp only [hearAll, hear, hsame, ih, List.append_nil]

end Receiver

/-! ## a link without calls -/

namespace Link
variable {ι : Type} [DecidableEq ι]

/-- the link when nothing more is heard, and the inbox says so -/
def deafened (link : Link ι) : Link ι :=
  { link with
    receiver := link.receiver.stop
    engine := { link.engine with inbox := link.engine.inbox.close } }

theorem stop_idle (link : Link ι) (hcurrent : link.engine.current = none)
    (hqueue : link.engine.queue = []) (hrunning : link.receiver.running = true) :
    link.stop = link.deafened := by
  rw [stop, if_pos hrunning]
  exact perform_received { link with receiver := link.receiver.stop } hcurrent hqueue [] true

/-- the link of `start`, without calls, when it has heard some bytes -/
def listening (device : Device) (limit room : Nat) (bytes : List UInt8) : Link ι :=
  let heard := (Decoder.withLimit limit).feedAll bytes
  { engine := { inbox := (Inbox.withCapacity room).pushAll heard.2, port := { device } }
    receiver := { decoder := heard.1, published := heard.2.length } }

theorem listening_hear (device : Device) (limit room : Nat) (bytes : List UInt8)
    (reads : List (List UInt8)) :
    (listening device limit room bytes : Link ι).hear (reads.map .bytes) =
      listening device limit room (bytes ++ reads.flatten) := by
  rw [hear_idle _ rfl rfl]
  simp [listening, Receiver.hearAll_bytes, Engine.received, Decoder.feedAll_append,
    Inbox.pushAll_append]

theorem listening_ended (device : Device) (limit room : Nat) (bytes : List UInt8)
    (reads : List (List UInt8)) :
    (listening device limit room bytes : Link ι).hear (reads.map .bytes ++ [.ended]) =
      (listening device limit room (bytes ++ reads.flatten)).deafened := by
  rw [hear_idle _ rfl rfl, Receiver.hearAll_append]
  simp [listening, deafened, Receiver.hearAll_bytes, Receiver.hearAll, Receiver.hear, Receiver.stop,
    Engine.received, Decoder.feedAll_append, Inbox.pushAll_append]

theorem listening_foldl (device : Device) (limit room : Nat) (bytes : List UInt8)
    (instants : List (List (List UInt8))) :
    instants.foldl (fun link reads => link.hear (reads.map .bytes))
        (listening device limit room bytes : Link ι) =
      listening device limit room (bytes ++ instants.flatten.flatten) := by
  induction instants generalizing bytes with
  | nil => simp
  | cons reads rest ih =>
    rw [List.foldl_cons, listening_hear, ih, List.flatten_cons, List.flatten_append,
      List.append_assoc]

/-- What is left of a link when nothing more is heard: the number of frames is known, and the inbox
is closed and holds the newest of them. -/
structure Leaves (decoded : List Frame) (room : Nat) (link : Link ι) : Prop where
  stopped : link.receiver.running = false
  published : link.receiver.published = decoded.length
  inbox : link.engine.inbox =
    { capacity := room
      frames := decoded.drop (decoded.length - min decoded.length room)
      closed := true
      overwritten := decoded.length - min decoded.length room }
  /-- a frame that was not complete stays so -/
  deaf : ∀ events, link.hear events = link

theorem leaves_deafened (device : Device) (limit room : Nat) (bytes : List UInt8) :
    Leaves ((Decoder.withLimit limit).feedAll bytes).2 (max 1 room)
      (listening device limit room bytes : Link ι).deafened where
  stopped := rfl
  published := rfl
  inbox := by
    show ((Inbox.withCapacity room).pushAll _).close = _
    generalize ((Decoder.withLimit limit).feedAll bytes).2 = decoded
    have hlost : decoded.length - min decoded.length (max 1 room) = decoded.length - max 1 room := by
      omega
    rw [Inbox.pushAll_eq (Inbox.sound_withCapacity room), hlost]
    simp only [Inbox.withCapacity, Inbox.close, List.nil_append, List.length_nil, Nat.zero_add,
      List.rtake]
  deaf := by
    intro events
    rw [hear_idle _ rfl rfl, Receiver.hearAll_stopped _ rfl]
    rfl

/-- **What the receiver leaves behind.**  Bytes come in, cut into reads in any way and at any
instants, and nobody makes a call; then the line ends, or the receiver is told to stop between two
reads.  The receiver has published as many frames as one decoder finds in all the bytes.  The inbox
is closed and holds the newest of them in order, as many as it has room for; the others are counted
as lost. -/
theorem keeps_newest_of_stream (device : Device) (limit room : Nat)
    (instants : List (List (List UInt8))) (last : List (List UInt8)) :
    let bytes := (instants ++ [last]).flatten.flatten
    let decoded := ((Decoder.withLimit limit).feedAll bytes).2
    let heard : Link ι := instants.foldl (fun link reads => link.hear (reads.map .bytes))
      (start device limit room)
    Leaves decoded (max 1 room) (heard.hear (last.map .bytes ++ [.ended])) ∧
      Leaves decoded (max 1 room) (heard.hear (last.map .bytes)).stop := by
  intro bytes decoded heard
  have hbytes : bytes = instants.flatten.flatten ++ last.flatten := by simp [bytes]
  have hheard : heard = listening device limit room instants.flatten.flatten :=
    listening_foldl device limit room [] instants
  constructor
  · rw [hheard, listening_ended, ← hbytes]
    exact leaves_deafened device limit room bytes
  · rw [hheard, listening_hear, ← hbytes, stop_idle _ rfl rfl rfl]
    exact leaves_deafened device limit room bytes

end Link
end CameraPower
