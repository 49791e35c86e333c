/-!
# The checksum of a frame

CRC-16 with the reflected polynomial `0xA001`, started at `0xFFFF` (the MODBUS checksum).

* `shiftBit`, `shiftByte`  the register divided by one bit, by eight;
* `step`, `ofBytes`        the running value, one table look-up a byte;
* `stepBitwise`, `bitwise` the same division done bit by bit, without the table.
-/

namespace CameraPower.Crc

/-! ## the register -/

/-- the reflected generator polynomial -/
def polynomial : UInt16 := 0xA001

def initial : UInt16 := 0xFFFF

/-- One bit leaves the register; the polynomial is subtracted when that bit was set. -/
def shiftBit (crc : UInt16) : UInt16 :=
  if crc &&& 1 = 0 then crc >>> 1 else (crc >>> 1) ^^^ polynomial

def shiftByte (crc : UInt16) : UInt16 :=
  shiftBit (shiftBit (shiftBit (shiftBit (shiftBit (shiftBit (shiftBit (shiftBit crc)))))))

/-! ## bit by bit -/

/-- folds one byte into a running checksum, bit by bit -/
def stepBitwise (crc : UInt16) (byte : UInt8) : UInt16 :=
  shiftByte (crc ^^^ byte.toUInt16)

/-- the checksum of `data` continued from `seed`, bit by bit -/
def bitwise (data : List UInt8) (seed : UInt16) : UInt16 :=
  data.foldl stepBitwise seed

/-! ## by table -/

/-- what eight shifts make of each low byte -/
def table : Vector UInt16 256 :=
  Vector.ofFn fun i => shiftByte (UInt16.ofNat i)

/-- Folds one byte into a running checksum: the high byte moves down and the table gives what the
low byte leaves behind. -/
def step (crc : UInt16) (byte : UInt8) : UInt16 :=
  (crc >>> 8) ^^^ table.get (crc ^^^ byte.toUInt16).toUInt8.toFin

/-- the checksum of `data` continued from `seed` -/
def ofBytes (data : List UInt8) (seed : UInt16) : UInt16 :=
  data.foldl step seed

@[simp] theorem ofBytes_nil (seed : UInt16) : ofBytes [] seed = seed := rfl

@[simp] theorem ofBytes_cons (byte : UInt8) (data : List UInt8) (seed : UInt16) :
    ofBytes (byte :: data) seed = ofBytes data (step seed byte) := rfl

@[simp] theorem ofBytes_append (front back : List UInt8) (seed : UInt16) :
    ofBytes (front ++ back) seed = ofBytes back (ofBytes front seed) := by
  simp [ofBytes]

end CameraPower.Crc
