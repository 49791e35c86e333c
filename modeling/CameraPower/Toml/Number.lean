import CameraPower.Numeral
import CameraPower.Toml.Scan

/-!
# Numbers, dates and times

* `integer`   whole numbers of 64 bits, in decimal, or without sign in base 16, 8 or 2;
* `float`     numbers with a fraction or an exponent, infinities and what is not a number;
* `datetime`  dates, times of day, and both with or without an offset.
-/

namespace CameraPower.Toml

open Scan

/-! ## digits -/

def isDigit (c : Char) : Bool := '0' ≤ c && c ≤ '9'

/-- digits of a base, single underscores between them left out -/
def digits (base : Nat) : Scan (List Char) := do
  let digit := satisfy fun c => (Numeral.digitValue? base c).isSome
  let first ← digit
  let rest ← many (digit <|> (do char '_'; digit))
  return first :: rest

/-- digits of a whole number, which starts with a zero only if it is one -/
def wholeDigits : Scan (List Char) :=
  (do char '0'; return ['0']) <|> digits 10

/-- whether a sign says that what follows is negative -/
def sign : Scan Bool :=
  (do char '-'; return true) <|> (do char '+'; return false) <|> pure false

/-! ## whole numbers -/

/-- the magnitude from which on a positive number does not fit into 64 bits with a sign -/
def integerLimit : Nat := 9223372036854775808

/-- a number behind a zero and a letter that names its base -/
def based (letter : Char) (base : Nat) : Scan Int := do
  word ['0', letter]
  match Numeral.value? base (← digits base) with
  | some n => if n < integerLimit then return n else failure
  | none => failure

def decimal : Scan Int := do
  let negative ← sign
  match Numeral.value? 10 (← wholeDigits) with
  | some n =>
    if negative ∧ n ≤ integerLimit then return -(n : Int)
    else if n < integerLimit then return n
    else failure
  | none => failure

def integer : Scan Int :=
  based 'x' 16 <|> based 'o' 8 <|> based 'b' 2 <|> decimal

/-! ## numbers with a fraction or an exponent -/

def exponent : Scan Int := do
  char 'e' <|> char 'E'
  let negative ← sign
  match Numeral.value? 10 (← digits 10) with
  | some n => return if negative then -(n : Int) else n
  | none => failure

/-- Whether `mantissa * 10 ^ exponent` is nearer to infinity than to the greatest number of double
precision, `2 ^ 1024 - 2 ^ 971`. -/
def overflows (mantissa : List Char) (exponent : Int) : Bool :=
  let m := (Numeral.value? 10 mantissa).getD 0
  let magnitude := (Numeral.decimal m).length + exponent
  if m = 0 ∨ magnitude < 308 then false
  else if 310 < magnitude then true
  else Nat.pow 2 1024 - Nat.pow 2 970 ≤
    m * Nat.pow 10 exponent.toNat / Nat.pow 10 (-exponent).toNat

/-- A number with a fraction or an exponent or both.  A positive one is of double precision. -/
def float : Scan Unit := do
  let negative ← sign
  let whole ← wholeDigits
  let fraction ← optional? do
    char '.'
    digits 10
  let power ← if fraction.isSome then (·.getD 0) <$> optional? exponent else exponent
  let fraction := fraction.getD []
  if !negative && overflows (whole ++ fraction) (power - fraction.length) then failure

/-- infinity, or what is not a number -/
def special : Scan Unit := do
  let _ ← sign
  word ['i', 'n', 'f'] <|> word ['n', 'a', 'n']

/-! ## dates and times -/

/-- a number of a fixed count of digits, from `low` to `high` -/
def clockNumber (count low high : Nat) : Scan Nat := do
  match Numeral.value? 10 (← exactly isDigit count) with
  | some n => if low ≤ n ∧ n ≤ high then return n else failure
  | none => failure

def daysOfMonth (year month : Nat) : Nat :=
  if month = 2 then
    if year % 4 = 0 ∧ (year % 100 ≠ 0 ∨ year % 400 = 0) then 29 else 28
  else if month = 4 ∨ month = 6 ∨ month = 9 ∨ month = 11 then 30
  else 31

/-- a day of the calendar -/
def date : Scan Unit := do
  let year ← clockNumber 4 0 9999
  char '-'
  let month ← clockNumber 2 1 12
  char '-'
  let _ ← clockNumber 2 1 (daysOfMonth year month)

def hoursMinutes : Scan Unit := do
  let _ ← clockNumber 2 0 23
  char ':'
  let _ ← clockNumber 2 0 59

/-- a time of day; a minute may have a leap second -/
def time : Scan Unit := do
  hoursMinutes
  char ':'
  let _ ← clockNumber 2 0 60
  let _ ← optional? do
    char '.'
    let _ ← satisfy isDigit
    takeWhile isDigit

/-- how far a time is from universal time -/
def offset : Scan Unit :=
  char 'Z' <|> char 'z' <|> (do
    char '+' <|> char '-'
    hoursMinutes)

/-- a date, a time, or a date and a time, with which an offset may go -/
def datetime : Scan Unit :=
  (do
    date
    let _ ← optional? do
      char 'T' <|> char 't' <|> char ' '
      time
      optional? offset) <|> time

end CameraPower.Toml
