import CameraPower.Error
import CameraPower.Flash
import CameraPower.Text.Blank
import CameraPower.Words

/-!
# Intel HEX files

Each line that is not blank is a colon and pairs of hexadecimal digits:

    count   address (2 bytes)   type   data (count bytes)   checksum

and all of its bytes add up to zero.  Types: `00` data, `01` end of file, `02` and `04` set the base
that the following addresses are relative to.

* `Line.decode?`  the bytes of one line, checked;
* `parse?`        the records of a whole file, which ends with its end-of-file line.
-/

namespace CameraPower.IntelHex

open Flash (Record)

/-! ## one line -/

/-- the checked fields of a line -/
structure Line where
  offset : UInt16
  type : UInt8
  data : List UInt8
  deriving DecidableEq, Repr

/-- the value of two characters as a byte: two hexadecimal digits, or a plus sign and one -/
def pairValue? (a b : Char) : Option UInt8 :=
  (Numeral.unsigned? 16 255 [a, b]).map UInt8.ofNat

/-- the bytes of pairs of digits, the first of them at `column` -/
def pairs? (column : Nat) : List Char → Except HexFault (List UInt8)
  | [] => .ok []
  | [_] => .error (.digits column)
  | a :: b :: rest =>
    match pairValue? a b with
    | none => .error (.digits column)
    | some byte =>
      match pairs? (column + 2) rest with
      | .error fault => .error fault
      | .ok bytes => .ok (byte :: bytes)

def utf8Size (text : List Char) : Nat :=
  text.foldl (fun size c => size + c.utf8Size) 0

/-- The bytes behind the colon: an odd size is refused before any digit is looked at. -/
def digits? (text : List Char) : Except HexFault (List UInt8) :=
  if utf8Size text % 2 ≠ 0 then .error .oddDigits else pairs? 2 text

/-- The fields of a line's bytes: too few bytes are refused first, then a count that is not theirs,
then a wrong sum. -/
def fields? : List UInt8 → Except HexFault Line
  | count :: high :: low :: type :: rest =>
    if rest = [] then .error .recordTooShort
    else if rest.length ≠ count.toNat + 1 then .error (.byteCount count.toNat)
    else if (count :: high :: low :: type :: rest).foldl (· + ·) 0 ≠ 0 then .error .checksum
    else .ok ⟨Words.ofBigEndian high low, type, rest.take count.toNat⟩
  | _ => .error .recordTooShort

/-- the fields of a line without blanks at its ends -/
def Line.decode? : List Char → Except HexFault Line
  | ':' :: rest =>
    match digits? rest with
    | .error fault => .error fault
    | .ok bytes => fields? bytes
  | _ => .error .startCode

/-! ## a file -/

/-- what a line does to the file read so far -/
inductive Effect where
  | record (record : Record)
  | nothing
  | base (base : UInt32)
  | endOfFile
  deriving DecidableEq, Repr

/-- what a line means when addresses are relative to `base` -/
def Line.effect? (base : UInt32) (line : Line) : Except HexFault Effect :=
  match line.type with
  | 0x00 =>
    if line.data = [] then .ok .nothing
    else .ok (.record ⟨base + line.offset.toUInt32, line.data⟩)
  | 0x01 => .ok .endOfFile
  | 0x02 =>
    match line.data with
    | [high, low] => .ok (.base ((Words.ofBigEndian high low).toUInt32 <<< 4))
    | _ => .error .addressSize
  | 0x04 =>
    match line.data with
    | [high, low] => .ok (.base ((Words.ofBigEndian high low).toUInt32 <<< 16))
    | _ => .error .addressSize
  | type => .error (.recordType type)

/-- The records of lines, the first of them numbered `number`, with addresses relative to `base`.
Nothing behind an end-of-file line is looked at. -/
def records? (number : Nat) (base : UInt32) : List (List Char) → Except Error (List Record)
  | [] => .ok []
  | raw :: rest =>
    match Text.trim raw with
    | [] => records? (number + 1) base rest
    | text =>
      match (Line.decode? text).bind (Line.effect? base) with
      | .error fault => .error (.hexFormat number fault)
      | .ok .endOfFile => .ok []
      | .ok .nothing => records? (number + 1) base rest
      | .ok (.base base) => records? (number + 1) base rest
      | .ok (.record record) =>
        match records? (number + 1) base rest with
        | .error error => .error error
        | .ok records => .ok (record :: records)

def lines (text : List Char) : List (List Char) :=
  text.splitOnP (· == '\n')

/-- the data records of a file, or the first line that is none and why -/
def parse? (text : String) : Except Error (List Record) :=
  records? 1 0 (lines text.toList)

end CameraPower.IntelHex
