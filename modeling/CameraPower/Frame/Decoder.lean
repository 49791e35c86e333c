import CameraPower.Frame

/-!
# Frames in a stream of bytes

The controller's line carries frames between noise.  A `Decoder` takes one byte at a time and
gives a frame with the byte that completes it.  Whatever does not check is dropped without a
second look: the bytes of a dropped frame are never examined again for a start byte.

* `State`   how far the current frame has come;
* `feed`    one byte, `feedAll` a run of bytes;
* `states`  the state after each byte of a run.
-/

namespace CameraPower

/-- how much of a frame has been seen -/
inductive Decoder.State where
  /-- waiting for a start byte -/
  | start
  /-- waiting for the high byte of the length -/
  | lengthHigh
  /-- waiting for the low byte of the length -/
  | lengthLow (high : UInt8) (crc : UInt16)
  /-- some bytes of command and payload are in -/
  | body (length : Nat) (received : Array UInt8) (crc : UInt16)
  /-- command and payload are complete, the checksum's high byte is next -/
  | crcHigh (received : Array UInt8) (crc : UInt16)
  /-- the checksum's high byte was right, the low byte is next -/
  | crcLow (received : Array UInt8) (crc : UInt16)
  deriving DecidableEq, Repr

/-- a decoder that accepts frames of declared length up to `limit` -/
structure Decoder where
  limit : Nat
  state : Decoder.State := .start
  deriving DecidableEq, Repr

namespace Decoder

/-- the limit of a decoder that is not given one -/
def defaultLimit : Nat := 144

/-- A decoder for a limit, which is brought into the range of the length field. -/
def withLimit (limit : Nat) : Decoder :=
  { limit := max 1 (min limit Frame.maxLength) }

def default : Decoder :=
  withLimit defaultLimit

/-- drops a frame that is under way -/
def reset (decoder : Decoder) : Decoder :=
  { decoder with state := .start }

/-- the frame of a complete body -/
def complete (received : Array UInt8) (crc : UInt16) : Option Frame :=
  match received.toList with
  | [] => none
  | command :: payload => some ⟨command, payload, crc⟩

/-- what one byte makes of a state, and the frame that it completes -/
def State.next (limit : Nat) : State → UInt8 → State × Option Frame
  | .start, byte =>
    (if byte = Frame.startByte then .lengthHigh else .start, none)
  | .lengthHigh, byte =>
    (.lengthLow byte (Crc.step Crc.initial byte), none)
  | .lengthLow high crc, byte =>
    let length := (Words.ofBigEndian high byte).toNat
    if length = 0 ∨ length > limit then (.start, none)
    else (.body length #[] (Crc.step crc byte), none)
  | .body length received crc, byte =>
    let received := received.push byte
    let crc := Crc.step crc byte
    if received.size ≥ length then (.crcHigh received crc, none)
    else (.body length received crc, none)
  | .crcHigh received crc, byte =>
    if byte = (crc >>> 8).toUInt8 then (.crcLow received crc, none) else (.start, none)
  | .crcLow received crc, byte =>
    (.start, if byte = crc.toUInt8 then complete received crc else none)

def feed (decoder : Decoder) (byte : UInt8) : Decoder × Option Frame :=
  let (state, frame?) := decoder.state.next decoder.limit byte
  ({ decoder with state }, frame?)

/-- one byte, the frame it completes appended to those found before -/
def gather (found : Decoder × Array Frame) (byte : UInt8) : Decoder × Array Frame :=
  match found.1.feed byte with
  | (decoder, none) => (decoder, found.2)
  | (decoder, some frame) => (decoder, found.2.push frame)

/-- a run of bytes, with the frames completed by them in order -/
def feedAll (decoder : Decoder) (bytes : List UInt8) : Decoder × List Frame :=
  let (decoder, frames) := bytes.foldl gather (decoder, #[])
  (decoder, frames.toList)

/-- the state after each byte of a run -/
def states (decoder : Decoder) : List UInt8 → List State
  | [] => []
  | byte :: rest =>
    let decoder := (decoder.feed byte).1
    decoder.state :: decoder.states rest

/-! ## the frames of a run -/

theorem gather_eq (decoder : Decoder) (frames : Array Frame) (byte : UInt8) :
    gather (decoder, frames) byte =
      ((decoder.feed byte).1, frames ++ (decoder.feed byte).2.toArray) := by
  unfold gather
  split <;> simp_all

theorem foldl_gather (decoder : Decoder) (frames : Array Frame) (bytes : List UInt8) :
    bytes.foldl gather (decoder, frames) =
      ((bytes.foldl gather (decoder, #[])).1, frames ++ (bytes.foldl gather (decoder, #[])).2) := by
  induction bytes generalizing decoder frames with
  | nil => simp
  | cons byte rest ih =>
    rw [List.foldl_cons, List.foldl_cons, gather_eq, gather_eq, ih, ih _ (#[] ++ _)]
    simp

@[simp] theorem feedAll_nil (decoder : Decoder) : decoder.feedAll [] = (decoder, []) := rfl

theorem feedAll_cons (decoder : Decoder) (byte : UInt8) (rest : List UInt8) :
    decoder.feedAll (byte :: rest) =
      (((decoder.feed byte).1.feedAll rest).1,
        (decoder.feed byte).2.toList ++ ((decoder.feed byte).1.feedAll rest).2) := by
  simp only [feedAll, List.foldl_cons, gather_eq]
  rw [foldl_gather]
  simp

/-- A stream may be cut anywhere: the frames of the parts are those of the whole. -/
theorem feedAll_append (decoder : Decoder) (front back : List UInt8) :
    decoder.feedAll (front ++ back) =
      (((decoder.feedAll front).1.feedAll back).1,
        (decoder.feedAll front).2 ++ ((decoder.feedAll front).1.feedAll back).2) := by
  induction front generalizing decoder with
  | nil => simp
  | cons byte front ih => simp [feedAll_cons, ih]

@[simp] theorem limit_feed (decoder : Decoder) (byte : UInt8) :
    (decoder.feed byte).1.limit = decoder.limit := rfl

end Decoder
end CameraPower
