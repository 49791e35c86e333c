import CameraPower.Crc
import CameraPower.Error
import CameraPower.Words

/-!
# Frames

What travels on the serial line:

    start byte (0x5A)   length (2 bytes)   command   payload   checksum (2 bytes)

Words go high byte first.  The length counts the command and the payload; the checksum covers the
length, the command and the payload.

* `Frame.make?`   the frame of a command and a payload;
* `encode?`       its bytes;
* `Frame.decode?` the frame that a buffer holds, exactly.
-/

namespace CameraPower

/-- a command, its payload, and the checksum they travel with -/
structure Frame where
  command : UInt8
  payload : List UInt8
  crc : UInt16
  deriving DecidableEq, Repr

namespace Frame

/-- the byte that opens a frame -/
def startByte : UInt8 := 0x5A

/-- bytes of a frame besides the command and the payload -/
def overhead : Nat := 5

/-- the largest value of the length field -/
def maxLength : Nat := 0xFFFF

/-- the largest payload: the length field also counts the command -/
def maxPayload : Nat := maxLength - 1

def lengthField (payload : List UInt8) : UInt16 :=
  UInt16.ofNat (1 + payload.length)

/-- the value of the length field -/
def length (frame : Frame) : UInt16 :=
  lengthField frame.payload

/-- what the checksum covers: length, command, payload -/
def covered (command : UInt8) (payload : List UInt8) : List UInt8 :=
  Words.bigEndian (lengthField payload) ++ command :: payload

def checksum (command : UInt8) (payload : List UInt8) : UInt16 :=
  Crc.ofBytes (covered command payload) Crc.initial

/-- The frame of a command and a payload, its checksum taken of length and command first and then
continued over the payload; a payload beyond the length field is refused. -/
def make? (command : UInt8) (payload : List UInt8) : Except Error Frame :=
  if payload.length > maxPayload then .error (.payloadTooLarge payload.length)
  else
    let header := Words.bigEndian (lengthField payload) ++ [command]
    .ok ⟨command, payload, Crc.ofBytes payload (Crc.ofBytes header Crc.initial)⟩

/-- the bytes of a command and a payload that fit a frame -/
def bytes (command : UInt8) (payload : List UInt8) : List UInt8 :=
  startByte :: covered command payload ++ Words.bigEndian (checksum command payload)

/-- The bytes of a command and a payload; a payload beyond the length field is refused. -/
def encode? (command : UInt8) (payload : List UInt8) : Except Error (List UInt8) :=
  if payload.length > maxPayload then .error (.payloadTooLarge payload.length)
  else .ok (bytes command payload)

/-! ## a buffer that holds one frame -/

/-- a buffer cut behind its length field: declared length, command, payload and checksum -/
def split? (size : Nat) : List UInt8 → Except ProtocolFault (Frame × UInt16)
  | start :: high :: low :: command :: rest =>
    let declared := (Words.ofBigEndian high low).toNat
    if start ≠ startByte then .error (.startByte start)
    else if declared = 0 ∨ size ≠ overhead + declared then .error (.lengthField declared size)
    else
      match rest.drop (declared - 1) with
      | [crcHigh, crcLow] =>
        let payload := rest.take (declared - 1)
        .ok (⟨command, payload, Words.ofBigEndian crcHigh crcLow⟩,
          Crc.ofBytes (high :: low :: command :: payload) Crc.initial)
      | _ => .error (.lengthField declared size)
  | _ => .error .frameTooShort

/-- The frame that a buffer holds from its first byte to its last.  A short buffer is refused
first, then a wrong start byte, then a length that is not the buffer's, then a wrong checksum. -/
def decode? (buffer : List UInt8) : Except Error Frame :=
  if buffer.length < overhead + 1 then .error (.protocol .frameTooShort)
  else
    match split? buffer.length buffer with
    | .error fault => .error (.protocol fault)
    | .ok (frame, computed) =>
      if computed = frame.crc then .ok frame
      else .error (.protocol (.checksum computed frame.crc))

/-! ## sizes -/

theorem encode?_of_le {command : UInt8} {payload : List UInt8} (h : payload.length ≤ maxPayload) :
    encode? command payload = .ok (bytes command payload) :=
  if_neg (Nat.not_lt.mpr h)

theorem checksum_eq (command : UInt8) (payload : List UInt8) :
    checksum command payload =
      Crc.ofBytes payload
        (Crc.ofBytes (Words.bigEndian (lengthField payload) ++ [command]) Crc.initial) := by
  simp [checksum, covered]

theorem make?_of_le {command : UInt8} {payload : List UInt8} (h : payload.length ≤ maxPayload) :
    make? command payload = .ok ⟨command, payload, checksum command payload⟩ := by
  rw [make?, if_neg (Nat.not_lt.mpr h), checksum_eq]

@[simp] theorem length_bytes (command : UInt8) (payload : List UInt8) :
    (bytes command payload).length = payload.length + 6 := by
  simp [bytes, covered]
  omega

end Frame
end CameraPower
