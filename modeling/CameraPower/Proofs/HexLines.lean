import CameraPower.IntelHex
import CameraPower.Proofs.DecoderCompleteness
import Mathlib.Algebra.GroupWithZero.Nat
import Mathlib.Data.List.Basic
import Mathlib.Tactic.SplitIfs

/-!
# The lines of an Intel HEX file

What a line of the format is, said without reading it.  A pair of characters that makes a byte is a
parameter (`HexPair`, `ReadPair`): the reader takes more pairs than the format has.

* `Digit`, `HexPair`   hexadecimal digits, and two of them;
* `ReadPair`           the pairs that the reader takes: a plus sign may stand for the first digit;
* `Spells`             bytes written as pairs of characters;
* `IsLine`             a line of the format;
* `isLine_iff`         the reader takes the lines of the format, with its own pairs of characters.
-/

namespace CameraPower.IntelHex

/-! ## digits -/

/-- the digits in the order of their values -/
def upperDigits : List Char :=
  ['0', '1', '2', '3', '4', '5', '6', '7', '8', '9', 'A', 'B', 'C', 'D', 'E', 'F']

def lowerDigits : List Char :=
  ['0', '1', '2', '3', '4', '5', '6', '7', '8', '9', 'a', 'b', 'c', 'd', 'e', 'f']

/-- a character is the digit of a value, a letter in either case -/
def Digit (c : Char) (value : Nat) : Prop :=
  upperDigits[value]? = some c ∨ lowerDigits[value]? = some c

theorem Digit.lt {c : Char} {value : Nat} (h : Digit c value) : value < 16 := by
  rcases h with h | h
  · exact (List.getElem?_eq_some_iff.1 h).1
  · exact (List.getElem?_eq_some_iff.1 h).1

theorem Digit.mem {c : Char} {value : Nat} (h : Digit c value) : c ∈ upperDigits ++ lowerDigits := by
  rcases h with h | h
  · exact List.mem_append_left _ (List.mem_of_getElem? h)
  · exact List.mem_append_right _ (List.mem_of_getElem? h)

instance (c : Char) (value : Nat) : Decidable (Digit c value) :=
  inferInstanceAs (Decidable (_ ∨ _))

theorem toNat_lt_of_digitValue? {c : Char} {value : Nat}
    (h : Numeral.digitValue? 16 c = some value) : c.toNat < 103 := by
  rw [Numeral.digitValue?, Option.filter_eq_some_iff] at h
  obtain ⟨hvalue, -⟩ := h
  simp only [Char.le_def, UInt32.le_iff_toNat_le] at hvalue
  change (if 48 ≤ c.toNat ∧ c.toNat ≤ 57 then _ else if 65 ≤ c.toNat ∧ c.toNat ≤ 70 then _
    else if 97 ≤ c.toNat ∧ c.toNat ≤ 102 then _ else _) = _ at hvalue
  split_ifs at hvalue <;> omega

theorem digitValue?_eq_some_iff (c : Char) (value : Nat) :
    Numeral.digitValue? 16 c = some value ↔ Digit c value := by
  constructor
  · intro h
    have htable : ∀ n < 103, ∀ value ∈ Numeral.digitValue? 16 (Char.ofNat n),
        Digit (Char.ofNat n) value := by decide +kernel
    have hdigit := htable c.toNat (toNat_lt_of_digitValue? h) value
    rw [Char.ofNat_toNat] at hdigit
    exact hdigit h
  · intro hdigit
    have htable : ∀ value < 16, [upperDigits, lowerDigits].all fun digits =>
        digits[value]?.all fun c => Numeral.digitValue? 16 c == some value := by decide
    have hlists := List.all_eq_true.1 (htable value hdigit.lt)
    rcases hdigit with hc | hc
    · simpa [hc] using hlists upperDigits (by simp)
    · simpa [hc] using hlists lowerDigits (by simp)

/-- two hexadecimal digits and the byte that they make -/
def HexPair (a b : Char) (byte : UInt8) : Prop :=
  ∃ high low, Digit a high ∧ Digit b low ∧ byte.toNat = 16 * high + low

/-- The pairs that are taken for a byte: a plus sign may stand in front of a single digit. -/
def ReadPair (a b : Char) (byte : UInt8) : Prop :=
  HexPair a b byte ∨ a = '+' ∧ Digit b byte.toNat

theorem value?_single (b : Char) (value : Nat) :
    Numeral.value? 16 [b] = some value ↔ Digit b value := by
  rw [← digitValue?_eq_some_iff]
  cases hb : Numeral.digitValue? 16 b <;> simp [Numeral.value?, Numeral.valueFrom?, hb]

theorem value?_pair (a b : Char) (value : Nat) :
    Numeral.value? 16 [a, b] = some value ↔
      ∃ high low, Digit a high ∧ Digit b low ∧ value = 16 * high + low := by
  simp only [← digitValue?_eq_some_iff]
  cases ha : Numeral.digitValue? 16 a with
  | none => simp [Numeral.value?, Numeral.valueFrom?, ha]
  | some high =>
    cases hb : Numeral.digitValue? 16 b with
    | none => simp [Numeral.value?, Numeral.valueFrom?, ha, hb]
    | some low =>
      simp [Numeral.value?, Numeral.valueFrom?, ha, hb, Nat.mul_comm high 16, eq_comm]

theorem not_digit_plus (value : Nat) : ¬ Digit '+' value := by
  intro h
  exact absurd h.mem (by decide)

theorem unsigned?_pair (a b : Char) (value : Nat) :
    Numeral.unsigned? 16 255 [a, b] = some value ↔
      (∃ high low, Digit a high ∧ Digit b low ∧ value = 16 * high + low) ∨
        a = '+' ∧ Digit b value := by
  by_cases hplus : a = '+'
  · subst hplus
    have hread : Numeral.unsigned? 16 255 ['+', b] = (Numeral.value? 16 [b]).filter (· ≤ 255) := rfl
    rw [hread, Option.filter_eq_some_iff, value?_single, decide_eq_true_eq]
    constructor
    · rintro ⟨hdigit, -⟩
      exact .inr ⟨rfl, hdigit⟩
    · rintro (⟨high, low, hhigh, -, -⟩ | ⟨-, hdigit⟩)
      · exact absurd hhigh (not_digit_plus high)
      · have := hdigit.lt
        exact ⟨hdigit, by omega⟩
  · have hread : Numeral.unsigned? 16 255 [a, b] = (Numeral.value? 16 [a, b]).filter (· ≤ 255) := by
      rw [Numeral.unsigned?]
      rintro rest ⟨⟩
      exact hplus rfl
    rw [hread, Option.filter_eq_some_iff, value?_pair, decide_eq_true_eq]
    constructor
    · rintro ⟨hpair, -⟩
      exact .inl hpair
    · rintro (⟨high, low, hhigh, hlow, rfl⟩ | ⟨heq, -⟩)
      · have := hhigh.lt
        have := hlow.lt
        exact ⟨⟨high, low, hhigh, hlow, rfl⟩, by omega⟩
      · exact absurd heq hplus

theorem pairValue?_eq_some_iff (a b : Char) (byte : UInt8) :
    pairValue? a b = some byte ↔ ReadPair a b byte := by
  rw [pairValue?, Option.map_eq_some_iff]
  simp only [unsigned?_pair]
  constructor
  · rintro ⟨value, ⟨high, low, hhigh, hlow, rfl⟩ | ⟨rfl, hdigit⟩, rfl⟩
    · have := hhigh.lt
      have := hlow.lt
      refine .inl ⟨high, low, hhigh, hlow, ?_⟩
      rw [UInt8.toNat_ofNat']
      omega
    · have hsmall : value % 2 ^ 8 = value := by
        have := hdigit.lt
        omega
      refine .inr ⟨rfl, ?_⟩
      rwa [UInt8.toNat_ofNat', hsmall]
  · rintro (⟨high, low, hhigh, hlow, hbyte⟩ | ⟨rfl, hdigit⟩)
    · exact ⟨byte.toNat, .inl ⟨high, low, hhigh, hlow, hbyte⟩, UInt8.ofNat_toNat⟩
    · exact ⟨byte.toNat, .inr ⟨rfl, hdigit⟩, UInt8.ofNat_toNat⟩

/-! ## bytes -/

/-- bytes written as pairs of characters -/
inductive Spells (pair : Char → Char → UInt8 → Prop) : List Char → List UInt8 → Prop
  | nil : Spells pair [] []
  | cons {a b : Char} {byte : UInt8} {digits : List Char} {bytes : List UInt8}
    (head : pair a b byte) (tail : Spells pair digits bytes) :
    Spells pair (a :: b :: digits) (byte :: bytes)

theorem Spells.mono {pair pair' : Char → Char → UInt8 → Prop} {digits : List Char}
    {bytes : List UInt8} (h : Spells pair digits bytes)
    (hpair : ∀ {a b byte}, pair a b byte → pair' a b byte) : Spells pair' digits bytes := by
  induction h with
  | nil => exact .nil
  | cons head tail ih => exact .cons (hpair head) ih

theorem pairs?_eq_ok_iff (column : Nat) (digits : List Char) (bytes : List UInt8) :
    pairs? column digits = .ok bytes ↔ Spells ReadPair digits bytes := by
  constructor
  · intro h
    fun_induction pairs? column digits generalizing bytes with
    | case1 =>
      cases h
      exact .nil
    | case2 => cases h
    | case3 => cases h
    | case4 => cases h
    | case5 column a b rest byte hpair more hmore ih =>
      cases h
      exact .cons ((pairValue?_eq_some_iff a b byte).1 hpair) (ih more hmore)
  · intro h
    induction h generalizing column with
    | nil => rfl
    | @cons a b byte digits bytes head tail ih =>
      rw [pairs?, (pairValue?_eq_some_iff a b byte).2 head, ih]

theorem utf8Size_eq (text : List Char) : utf8Size text = (text.map Char.utf8Size).sum := by
  rw [utf8Size, List.sum_eq_foldl, List.foldl_map]

/-- what is taken for bytes is ASCII, two characters each -/
theorem Spells.utf8Size {digits : List Char} {bytes : List UInt8}
    (h : Spells ReadPair digits bytes) : utf8Size digits = 2 * bytes.length := by
  have hdigit : ∀ {c value}, Digit c value → c.utf8Size = 1 := by
    intro c value hdigit
    have hascii : (upperDigits ++ lowerDigits).all (·.utf8Size == 1) = true := by decide
    exact beq_iff_eq.1 (List.all_eq_true.1 hascii c hdigit.mem)
  have hpair : ∀ {a b byte}, ReadPair a b byte → a.utf8Size = 1 ∧ b.utf8Size = 1 := by
    rintro a b byte (⟨high, low, hhigh, hlow, -⟩ | ⟨rfl, hlow⟩)
    · exact ⟨hdigit hhigh, hdigit hlow⟩
    · exact ⟨rfl, hdigit hlow⟩
  induction h with
  | nil => rfl
  | cons head tail ih =>
    obtain ⟨ha, hb⟩ := hpair head
    rw [utf8Size_eq] at ih ⊢
    rw [List.map_cons, List.map_cons, List.sum_cons, List.sum_cons, ha, hb, ih, List.length_cons]
    omega

theorem digits?_eq_ok_iff (text : List Char) (bytes : List UInt8) :
    digits? text = .ok bytes ↔ Spells ReadPair text bytes := by
  rw [← pairs?_eq_ok_iff 2, digits?]
  split
  · next hodd =>
    refine ⟨nofun, fun h => ?_⟩
    have hsize := ((pairs?_eq_ok_iff 2 text bytes).1 h).utf8Size
    omega
  · rfl

/-! ## lines -/

/-- Bytes that carry a line: its count, offset, type and data, and one that makes their sum zero. -/
def Carries (bytes : List UInt8) (line : Line) : Prop :=
  ∃ count high low checksum : UInt8,
    bytes = count :: high :: low :: line.type :: (line.data ++ [checksum]) ∧
      count.toNat = line.data.length ∧ line.offset.toNat = 256 * high.toNat + low.toNat ∧
      (bytes.map UInt8.toNat).sum % 256 = 0

theorem toNat_foldl_add (bytes : List UInt8) (sum : UInt8) :
    (bytes.foldl (· + ·) sum).toNat = (sum.toNat + (bytes.map UInt8.toNat).sum) % 256 := by
  induction bytes generalizing sum with
  | nil => simp
  | cons byte rest ih =>
    rw [List.foldl_cons, ih, List.map_cons, List.sum_cons, UInt8.toNat_add]
    omega

theorem sum_eq_zero_iff (bytes : List UInt8) :
    bytes.foldl (· + ·) 0 = 0 ↔ (bytes.map UInt8.toNat).sum % 256 = 0 := by
  rw [← UInt8.toNat_inj, toNat_foldl_add]
  simp

theorem fields?_eq_ok_iff (bytes : List UInt8) (line : Line) :
    fields? bytes = .ok line ↔ Carries bytes line := by
  constructor
  · intro h
    unfold fields? at h
    split at h
    · next count high low type rest =>
      split_ifs at h with hshort hcount hsum
      cases h
      obtain ⟨data, checksum, rfl⟩ := (List.eq_nil_or_concat' rest).resolve_left hshort
      have hdata : count.toNat = data.length := by simpa using (not_not.1 hcount).symm
      refine ⟨count, high, low, checksum, ?_, ?_, Words.toNat_ofBigEndian high low,
        (sum_eq_zero_iff _).1 (not_not.1 hsum)⟩
      · rw [hdata, List.take_left]
      · rw [hdata, List.take_left]
    · cases h
  · rintro ⟨count, high, low, checksum, rfl, hcount, hoffset, hsum⟩
    have hword : Words.ofBigEndian high low = line.offset := by
      rw [← UInt16.toNat_inj, Words.toNat_ofBigEndian, hoffset]
    rw [fields?, if_neg (by simp), if_neg (by simp [hcount]),
      if_neg (not_not.2 ((sum_eq_zero_iff _).2 hsum)), hcount, List.take_left, hword]

/-- a line of one of the types there are; an address is two bytes -/
def Line.IsKnown (line : Line) : Prop :=
  line.type = 0x00 ∨ line.type = 0x01 ∨
    (line.type = 0x02 ∨ line.type = 0x04) ∧ line.data.length = 2

/-- A line of the format, without blanks at its ends. -/
def IsLine (pair : Char → Char → UInt8 → Prop) (text : List Char) (line : Line) : Prop :=
  ∃ digits bytes, text = ':' :: digits ∧ Spells pair digits bytes ∧ Carries bytes line ∧
    line.IsKnown

theorem IsLine.ne_nil {pair : Char → Char → UInt8 → Prop} {text : List Char} {line : Line}
    (h : IsLine pair text line) : text ≠ [] := by
  obtain ⟨digits, bytes, rfl, -⟩ := h
  exact List.cons_ne_nil _ _

theorem decode?_eq_ok_iff (text : List Char) (line : Line) :
    Line.decode? text = .ok line ↔
      ∃ digits bytes, text = ':' :: digits ∧ Spells ReadPair digits bytes ∧ Carries bytes line := by
  constructor
  · intro h
    unfold Line.decode? at h
    split at h
    · next digits =>
      split at h
      · cases h
      · next bytes hdigits =>
        exact ⟨digits, bytes, rfl, (digits?_eq_ok_iff digits bytes).1 hdigits,
          (fields?_eq_ok_iff bytes line).1 h⟩
    · cases h
  · rintro ⟨digits, bytes, rfl, hdigits, hbytes⟩
    rw [Line.decode?, (digits?_eq_ok_iff digits bytes).2 hdigits]
    exact (fields?_eq_ok_iff bytes line).2 hbytes

/-- The reader takes the lines of the format, with its own pairs of characters. -/
theorem isLine_iff (text : List Char) (line : Line) :
    IsLine ReadPair text line ↔ Line.decode? text = .ok line ∧ line.IsKnown := by
  rw [decode?_eq_ok_iff]
  constructor
  · rintro ⟨digits, bytes, htext, hdigits, hbytes, hknown⟩
    exact ⟨⟨digits, bytes, htext, hdigits, hbytes⟩, hknown⟩
  · rintro ⟨⟨digits, bytes, htext, hdigits, hbytes⟩, hknown⟩
    exact ⟨digits, bytes, htext, hdigits, hbytes, hknown⟩

end CameraPower.IntelHex
