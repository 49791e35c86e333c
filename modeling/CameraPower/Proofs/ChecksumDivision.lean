import CameraPower.Proofs.Checksum
import Mathlib.Algebra.CharP.Two
import Mathlib.Algebra.Field.ZMod
import Mathlib.Algebra.Polynomial.Div
import Mathlib.Data.Nat.Bitwise
import Mathlib.Tactic.LinearCombination

/-!
# The checksum is a remainder

The table, the division bit by bit, and the division of polynomials over the field of two elements
are one and the same.  Everything is reflected: the lowest bit of a register or of a byte is the
coefficient of the highest power.

* `reflect`               the polynomial that the lowest bits of a number stand for;
* `generator`, `message`  what is divided by, and the polynomial of a run of bytes;
* `register_shiftBit`     a bit that leaves the register, `register_shiftBits` a number of them;
* `register_bitwise`      a run of bytes, up to a multiple of the generator;
* `divides_by_table`      the look-ups in the table come to the remainder.
-/

namespace CameraPower.Crc

open Polynomial

/-! ## polynomials for numbers -/

/-- the `n` lowest bits of a number as coefficients, the lowest bit in front -/
noncomputable def reflect : Nat → Nat → (ZMod 2)[X]
  | 0, _ => 0
  | n + 1, x => C (x : ZMod 2) * X ^ n + reflect n (x / 2)

theorem natCast_xor (x y : Nat) : ((x ^^^ y : Nat) : ZMod 2) = x + y := by
  rw [← Nat.cast_add]
  exact (ZMod.natCast_eq_natCast_iff' _ _ 2).mpr Nat.xor_mod_two_eq

theorem natCast_of_even {x : Nat} (h : x % 2 = 0) : (x : ZMod 2) = 0 := by
  rw [← ZMod.natCast_mod, h, Nat.cast_zero]

theorem natCast_of_odd {x : Nat} (h : x % 2 = 1) : (x : ZMod 2) = 1 := by
  rw [← ZMod.natCast_mod, h, Nat.cast_one]

theorem reflect_zero (x : Nat) : reflect 0 x = 0 := rfl

theorem reflect_bit (n x : Nat) :
    reflect (n + 1) x = (if x % 2 = 1 then X ^ n else 0) + reflect n (x / 2) := by
  rcases Nat.mod_two_eq_zero_or_one x with heven | hodd
  · rw [reflect, natCast_of_even heven, C_0, zero_mul, if_neg (by omega)]
  · rw [reflect, natCast_of_odd hodd, C_1, one_mul, if_pos hodd]

theorem reflect_xor (n x y : Nat) : reflect n (x ^^^ y) = reflect n x + reflect n y := by
  induction n generalizing x y with
  | zero => exact (add_zero 0).symm
  | succ n ih =>
    rw [reflect, reflect, reflect, natCast_xor, C_add, Nat.xor_div_two, ih]
    ring

/-- A clear bit at the top is no coefficient: the others move up. -/
theorem reflect_succ {n x : Nat} (h : x < 2 ^ n) : reflect (n + 1) x = X * reflect n x := by
  induction n generalizing x with
  | zero =>
    obtain rfl : x = 0 := Nat.lt_one_iff.mp h
    simp [reflect]
  | succ n ih =>
    have hhalf : x / 2 < 2 ^ n := by
      rw [Nat.pow_succ] at h
      omega
    rw [reflect, ih hhalf, reflect]
    ring

theorem reflect_add {n x : Nat} (h : x < 2 ^ n) (k : Nat) :
    reflect (n + k) x = X ^ k * reflect n x := by
  induction k with
  | zero => rw [Nat.add_zero, pow_zero, one_mul]
  | succ k ih =>
    have hwide : x < 2 ^ (n + k) :=
      Nat.lt_of_lt_of_le h (Nat.pow_le_pow_right (by decide) (Nat.le_add_right n k))
    rw [← Nat.add_assoc, reflect_succ hwide, ih]
    ring

theorem degree_reflect_lt (n x : Nat) : (reflect n x).degree < n := by
  induction n generalizing x with
  | zero => exact degree_zero.trans_lt (WithBot.bot_lt_coe 0)
  | succ n ih =>
    have hsucc : (n : WithBot Nat) < (n + 1 : Nat) := by exact_mod_cast Nat.lt_succ_self n
    refine lt_of_le_of_lt (degree_add_le _ _) (max_lt ?_ ((ih _).trans hsucc))
    exact (degree_C_mul_X_pow_le n _).trans_lt hsucc

/-! ## what is divided, and by what -/

noncomputable def register (crc : UInt16) : (ZMod 2)[X] := reflect 16 crc.toNat

/-- the polynomial that is divided by -/
noncomputable def generator : (ZMod 2)[X] := X ^ 16 + X ^ 15 + X ^ 2 + 1

/-- a run of bytes, the first one in front -/
noncomputable def message : List UInt8 → (ZMod 2)[X]
  | [] => 0
  | byte :: rest => X ^ (8 * rest.length) * reflect 8 byte.toNat + message rest

theorem register_xor (crc other : UInt16) :
    register (crc ^^^ other) = register crc + register other := by
  rw [register, UInt16.toNat_xor, reflect_xor, ← register, ← register]

theorem register_byte (byte : UInt8) :
    register byte.toUInt16 = X ^ 8 * reflect 8 byte.toNat := by
  rw [register, UInt8.toNat_toUInt16]
  exact reflect_add byte.toNat_lt 8

theorem generator_eq : generator = X ^ 16 + register polynomial := by
  have hbits : register polynomial = X ^ 15 + X ^ 2 + 1 := by
    show reflect 16 0xA001 = _
    simp [reflect_bit, reflect_zero, add_assoc]
  rw [generator, hbits]
  ring

theorem monic_generator : generator.Monic := by
  rw [generator_eq]
  exact monic_X_pow_add (degree_reflect_lt 16 _)

/-! ## division -/

/-- **One bit leaves the register**: it is multiplied by `X`, and the generator is taken off if the
bit was set. -/
theorem register_shiftBit (crc : UInt16) :
    register (shiftBit crc) = X * register crc + C (crc.toNat : ZMod 2) * generator := by
  have hlt := crc.toNat_lt
  have hhalf : crc.toNat / 2 < 2 ^ 15 := by omega
  have hdown : register (crc >>> 1) = X * reflect 15 (crc.toNat / 2) := by
    rw [register, toNat_shiftRight_one]
    exact reflect_succ hhalf
  have hfull : register crc = C (crc.toNat : ZMod 2) * X ^ 15 + reflect 15 (crc.toNat / 2) := rfl
  rcases Nat.mod_two_eq_zero_or_one crc.toNat with heven | hodd
  · rw [shiftBit_of_even heven, hdown, hfull, natCast_of_even heven, C_0]
    ring
  · rw [shiftBit_of_odd hodd, register_xor, hdown, hfull, natCast_of_odd hodd, C_1, generator_eq]
    linear_combination (-X ^ 16) * (CharTwo.two_eq_zero : (2 : (ZMod 2)[X]) = 0)

theorem register_shiftBits (n : Nat) (crc : UInt16) :
    generator ∣ register (shiftBits n crc) - X ^ n * register crc := by
  induction n generalizing crc with
  | zero =>
    rw [shiftBits, pow_zero, one_mul, sub_self]
    exact dvd_zero _
  | succ n ih =>
    have hfirst : generator ∣ X ^ n * (C (crc.toNat : ZMod 2) * generator) :=
      (dvd_mul_left generator _).mul_left _
    have hsplit : register (shiftBits (n + 1) crc) - X ^ (n + 1) * register crc =
        (register (shiftBits n (shiftBit crc)) - X ^ n * register (shiftBit crc)) +
          X ^ n * (C (crc.toNat : ZMod 2) * generator) := by
      rw [shiftBits, register_shiftBit]
      ring
    rw [hsplit]
    exact dvd_add (ih (shiftBit crc)) hfirst

theorem register_stepBitwise (crc : UInt16) (byte : UInt8) :
    generator ∣ register (stepBitwise crc byte) -
      (X ^ 8 * register crc + X ^ 16 * reflect 8 byte.toNat) := by
  have hshifted := register_shiftBits 8 (crc ^^^ byte.toUInt16)
  rw [register_xor, register_byte] at hshifted
  have hsum : X ^ 8 * (register crc + X ^ 8 * reflect 8 byte.toNat) =
      X ^ 8 * register crc + X ^ 16 * reflect 8 byte.toNat := by ring
  rw [← hsum]
  exact hshifted

/-- The seed goes in front of the bytes, and both are moved up by the width of the register. -/
theorem register_bitwise (data : List UInt8) (seed : UInt16) :
    generator ∣ register (bitwise data seed) -
      (X ^ (8 * data.length) * register seed + X ^ 16 * message data) := by
  induction data generalizing seed with
  | nil =>
    rw [bitwise, List.foldl_nil, message, List.length_nil, Nat.mul_zero, pow_zero, one_mul, mul_zero,
      add_zero, sub_self]
    exact dvd_zero _
  | cons byte rest ih =>
    have hrest := ih (stepBitwise seed byte)
    have hfirst := (register_stepBitwise seed byte).mul_left (X ^ (8 * rest.length))
    have hsplit : register (bitwise (byte :: rest) seed) -
        (X ^ (8 * (byte :: rest).length) * register seed + X ^ 16 * message (byte :: rest)) =
        (register (bitwise rest (stepBitwise seed byte)) -
          (X ^ (8 * rest.length) * register (stepBitwise seed byte) + X ^ 16 * message rest)) +
        X ^ (8 * rest.length) * (register (stepBitwise seed byte) -
          (X ^ 8 * register seed + X ^ 16 * reflect 8 byte.toNat)) := by
      rw [message, List.length_cons, bitwise, List.foldl_cons, ← bitwise, Nat.mul_add]
      ring
    rw [hsplit]
    exact dvd_add hrest hfirst

/-! ## the table -/

theorem ofBytes_eq_bitwise (data : List UInt8) (seed : UInt16) :
    ofBytes data seed = bitwise data seed := by
  induction data generalizing seed with
  | nil => rfl
  | cons byte rest ih =>
    calc ofBytes (byte :: rest) seed = ofBytes rest (step seed byte) := ofBytes_cons byte rest seed
      _ = ofBytes rest (stepBitwise seed byte) := by rw [step_eq_stepBitwise]
      _ = bitwise rest (stepBitwise seed byte) := ih _

/-- **The table divides.**  Looked up byte by byte, the checksum is what the division bit by bit
makes of the same bytes and the same seed, and that is the remainder of seed and bytes, moved up by
the width of the register, in the division by the generator. -/
theorem divides_by_table (data : List UInt8) (seed : UInt16) :
    ofBytes data seed = bitwise data seed ∧
      register (ofBytes data seed) =
        (X ^ (8 * data.length) * register seed + X ^ 16 * message data) %ₘ generator := by
  have hbitwise := ofBytes_eq_bitwise data seed
  have hdegree : (register (bitwise data seed)).degree < generator.degree := by
    rw [generator_eq, degree_add_eq_left_of_degree_lt] <;> rw [degree_X_pow]
    · exact degree_reflect_lt 16 _
    · exact degree_reflect_lt 16 _
  refine ⟨hbitwise, ?_⟩
  calc register (ofBytes data seed) = register (bitwise data seed) := by rw [hbitwise]
    _ = register (bitwise data seed) %ₘ generator :=
      ((modByMonic_eq_self_iff monic_generator).mpr hdegree).symm
    _ = _ := modByMonic_eq_of_dvd_sub monic_generator (register_bitwise data seed)

end CameraPower.Crc
