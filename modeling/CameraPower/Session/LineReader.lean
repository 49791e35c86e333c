/-!
# Lines of a client

A client's bytes are cut at newlines.  A line of more than 256 bytes, or one that is not UTF-8, is
malformed; no more than 256 bytes of an unfinished line are ever kept.  Input that ends without a
newline ends its last line.

* `LineReader.next`     the next line of what has been received, or why there is none yet;
* `ClientLine.ofBytes`  what a line is, said without a reader.
-/

namespace CameraPower

/-- one line of input -/
inductive ClientLine where
  | text (line : String)
  | malformed
  deriving DecidableEq, Repr

namespace ClientLine

/-- the most bytes that a line may have -/
def maxSize : Nat := 256

/-- the line of bytes without a newline -/
def ofBytes (bytes : List UInt8) : ClientLine :=
  if bytes.length > maxSize then .malformed
  else
    match String.fromUTF8? ⟨bytes.toArray⟩ with
    | some line => .text line
    | none => .malformed

end ClientLine

/-- the part of a line that has been taken in -/
structure LineReader where
  kept : List UInt8 := []
  /-- the line is already too long, and nothing of it is kept -/
  overflowed : Bool := false
  deriving DecidableEq, Repr

namespace LineReader

def keep (reader : LineReader) (chunk : List UInt8) : LineReader :=
  if reader.overflowed then reader
  else if reader.kept.length + chunk.length > ClientLine.maxSize then
    { kept := [], overflowed := true }
  else { reader with kept := reader.kept ++ chunk }

/-- the line that ends here -/
def finish (reader : LineReader) : ClientLine :=
  if reader.overflowed then .malformed else .ofBytes reader.kept

def isEmpty (reader : LineReader) : Bool :=
  reader.kept.isEmpty && !reader.overflowed

/-- what comes next in a client's input -/
inductive Next where
  /-- a line, and the bytes behind it -/
  | line (line : ClientLine) (rest : List UInt8)
  /-- no line is complete yet -/
  | more (reader : LineReader)
  /-- the input is over -/
  | ended
  deriving DecidableEq, Repr

/-- bytes cut at their first newline -/
def cut (bytes : List UInt8) : Option (List UInt8 × List UInt8) :=
  match bytes.dropWhile (· != 10) with
  | [] => none
  | _ :: rest => some (bytes.takeWhile (· != 10), rest)

/-- the next line of received bytes; `ended` says that no more will come -/
def next (reader : LineReader) (received : List UInt8) (ended : Bool) : Next :=
  match cut received with
  | some (front, rest) => .line (reader.keep front).finish rest
  | none =>
    let reader := reader.keep received
    if ended then
      if reader.isEmpty then .ended else .line reader.finish []
    else .more reader

/-- how much there is to be read -/
def backlog (reader : LineReader) (received : List UInt8) : Nat :=
  received.length + if reader.isEmpty then 0 else 1

theorem length_lt_of_cut {bytes front rest : List UInt8} (h : cut bytes = some (front, rest)) :
    rest.length < bytes.length := by
  unfold cut at h
  split at h
  · cases h
  · next heq =>
    cases h
    have := (List.dropWhile_suffix (· != 10) (l := bytes)).length_le
    rw [heq, List.length_cons] at this
    omega

theorem isEmpty_keep (reader : LineReader) (h : reader.isEmpty = true) :
    (reader.keep []).isEmpty = true := by
  simp only [isEmpty, Bool.and_eq_true, List.isEmpty_iff, Bool.not_eq_true'] at h
  simp [keep, isEmpty, h.1, h.2, ClientLine.maxSize]

/-- **A line that is read leaves less to be read.** -/
theorem length_lt_backlog {reader : LineReader} {received rest : List UInt8} {ended : Bool}
    {line : ClientLine} (h : reader.next received ended = .line line rest) :
    rest.length < reader.backlog received := by
  unfold next at h
  split at h
  · next front rest' hcut =>
    cases h
    have := length_lt_of_cut hcut
    simp only [backlog]
    omega
  · dsimp only at h
    split at h
    · split at h
      · cases h
      · next hne =>
        cases h
        simp only [backlog, List.length_nil]
        cases received with
        | cons => simp only [List.length_cons]; omega
        | nil =>
          cases he : reader.isEmpty with
          | false => simp
          | true => exact absurd (isEmpty_keep reader he) hne
    · cases h

end LineReader
end CameraPower
