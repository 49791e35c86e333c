/-!
# Words as bytes

The controller sends words high byte first; its bootloader takes flash addresses low byte first.

* `UInt16.bigEndian`, `ofBigEndian`  a 16-bit word and its two bytes;
* `littleEndian32`                   a 32-bit word as four bytes, low byte first;
* `toSigned`                         a 16-bit word read as two's complement.
-/

namespace CameraPower.Words

/-- the two bytes of a word, high byte first -/
def bigEndian (word : UInt16) : List UInt8 :=
  [(word >>> 8).toUInt8, word.toUInt8]

/-- the word whose bytes are `high` and `low` -/
def ofBigEndian (high low : UInt8) : UInt16 :=
  (high.toUInt16 <<< 8) ||| low.toUInt16

/-- the four bytes of a word, low byte first -/
def littleEndian32 (word : UInt32) : List UInt8 :=
  [word.toUInt8, (word >>> 8).toUInt8, (word >>> 16).toUInt8, (word >>> 24).toUInt8]

/-- a word read as a two's complement number -/
def toSigned (word : UInt16) : Int16 :=
  word.toInt16

@[simp] theorem length_bigEndian (word : UInt16) : (bigEndian word).length = 2 := rfl

@[simp] theorem length_littleEndian32 (word : UInt32) : (littleEndian32 word).length = 4 := rfl

end CameraPower.Words
