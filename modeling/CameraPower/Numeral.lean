/-!
# Numerals

How numbers are written and read, over lists of characters.

* `decimal`, `signed`   a number in decimal, without leading zeros;
* `padded`              a numeral brought to a least width with zeros;
* `hex`                 upper-case hexadecimal of a least width;
* `value?`              the value of a non-empty run of digits of a base;
* `unsigned?`, `signed?` a number with an optional sign, bounded from above or on both sides.
-/

namespace CameraPower.Numeral

/-! ## digits -/

/-- the digit of a value below sixteen, letters in upper case -/
def digit (value : Nat) : Char :=
  if value < 10 then Char.ofNat (48 + value) else Char.ofNat (55 + value)

/-- The value of a digit of `base`, at most sixteen; letters count in either case. -/
def digitValue? (base : Nat) (c : Char) : Option Nat :=
  let value :=
    if '0' ≤ c ∧ c ≤ '9' then some (c.toNat - 48)
    else if 'A' ≤ c ∧ c ≤ 'F' then some (c.toNat - 55)
    else if 'a' ≤ c ∧ c ≤ 'f' then some (c.toNat - 87)
    else none
  value.filter (· < base)

/-! ## writing -/

/-- decimal digits of a number, the first of them zero only for zero itself -/
def decimal (n : Nat) : List Char :=
  if n < 10 then [digit n] else decimal (n / 10) ++ [digit (n % 10)]

/-- decimal digits after a minus sign where one is needed -/
def signed (n : Int) : List Char :=
  if n < 0 then '-' :: decimal n.natAbs else decimal n.natAbs

/-- hexadecimal digits of a number, without leading zeros -/
def hexDigits (n : Nat) : List Char :=
  if n < 16 then [digit n] else hexDigits (n / 16) ++ [digit (n % 16)]

/-- zeros in front of a numeral until it has `width` characters -/
def padded (width : Nat) (numeral : List Char) : List Char :=
  List.replicate (width - numeral.length) '0' ++ numeral

/-- upper-case hexadecimal with at least `width` digits -/
def hex (width : Nat) (n : Nat) : String :=
  String.ofList (padded width (hexDigits n))

def ofNat (n : Nat) : String :=
  String.ofList (decimal n)

def ofInt (n : Int) : String :=
  String.ofList (signed n)

/-! ## reading -/

/-- the value of digits read after a number of value `acc` -/
def valueFrom? (base : Nat) : Nat → List Char → Option Nat
  | acc, [] => some acc
  | acc, c :: rest =>
    match digitValue? base c with
    | none => none
    | some d => valueFrom? base (acc * base + d) rest

/-- the value of a non-empty run of digits -/
def value? (base : Nat) : List Char → Option Nat
  | [] => none
  | digits => valueFrom? base 0 digits

/-- A number of at most `limit`, which may carry a plus sign. -/
def unsigned? (base limit : Nat) (text : List Char) : Option Nat :=
  let digits := match text with
    | '+' :: rest => rest
    | _ => text
  (value? base digits).filter (· ≤ limit)

/-- A number from `low` to `high`, which may carry a sign. -/
def signed? (low high : Int) (text : List Char) : Option Int :=
  let value := match text with
    | '-' :: rest => (value? 10 rest).map fun n => -(n : Int)
    | '+' :: rest => (value? 10 rest).map fun n => (n : Int)
    | _ => (value? 10 text).map fun n => (n : Int)
  value.filter fun n => low ≤ n && n ≤ high

end CameraPower.Numeral
