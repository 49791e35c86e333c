import CameraPower.Crc
import Mathlib.Algebra.Group.Nat.Defs

/-!
# What the checksum tells apart

One byte in place of another always changes the checksum, whatever stands before and behind it, and
so do two bytes in place of two others.  The table is first traded for the division it stands for
(`step_eq_stepBitwise`): a register whose low byte is clear only moves down, so the high byte goes past
the table (`shiftBits_xor`).  No bit is lost in the division (`shiftBit_inj`), and so none in a run of
it (`ofBytes_inj`).  Two bytes fill the register once, so that none of their bits meet (`step_step`).
-/

namespace CameraPower.Crc

/-! ## one bit -/

theorem toNat_shiftRight_one (x : UInt16) : (x >>> 1).toNat = x.toNat / 2 := by
  rw [UInt16.toNat_shiftRight]
  exact Nat.shiftRight_eq_div_pow x.toNat 1

theorem and_one_eq_zero_iff (x : UInt16) : x &&& 1 = 0 ↔ x.toNat % 2 = 0 := by
  rw [← UInt16.toNat_inj, UInt16.toNat_and]
  exact iff_of_eq (congrArg (· = 0) (Nat.and_one_is_mod x.toNat))

theorem toNat_xor_mod_two {x y : UInt16} (hy : y.toNat % 2 = 0) :
    (x ^^^ y).toNat % 2 = x.toNat % 2 := by
  have hmod : (x.toNat ^^^ y.toNat) % 2 ^ 1 = x.toNat % 2 ^ 1 ^^^ y.toNat % 2 ^ 1 :=
    Nat.xor_mod_two_pow
  rw [UInt16.toNat_xor]
  rw [Nat.pow_one, hy, Nat.xor_zero] at hmod
  exact hmod

theorem shiftBit_of_even {x : UInt16} (h : x.toNat % 2 = 0) : shiftBit x = x >>> 1 :=
  if_pos ((and_one_eq_zero_iff x).mpr h)

theorem shiftBit_of_odd {x : UInt16} (h : x.toNat % 2 = 1) :
    shiftBit x = (x >>> 1) ^^^ polynomial := by
  refine if_neg fun hzero => ?_
  rw [and_one_eq_zero_iff, h] at hzero
  cases hzero

theorem shiftBit_xor (x : UInt16) {y : UInt16} (hy : y.toNat % 2 = 0) :
    shiftBit (x ^^^ y) = shiftBit x ^^^ (y >>> 1) := by
  have hxor := toNat_xor_mod_two (x := x) hy
  rcases Nat.mod_two_eq_zero_or_one x.toNat with hx | hx
  · rw [shiftBit_of_even hx, shiftBit_of_even (hxor.trans hx), UInt16.shiftRight_xor]
  · rw [shiftBit_of_odd hx, shiftBit_of_odd (hxor.trans hx), UInt16.shiftRight_xor,
      UInt16.xor_assoc, UInt16.xor_comm _ polynomial, ← UInt16.xor_assoc]

/-- the top bit tells whether the polynomial was subtracted -/
theorem shiftRight_one_ne_xor_polynomial (x y : UInt16) : x >>> 1 ≠ (y >>> 1) ^^^ polynomial := by
  intro heq
  have hlow : ∀ z : UInt16, (z >>> 1).toNat.testBit 15 = false := by
    intro z
    have hz := z.toNat_lt
    apply Nat.testBit_lt_two_pow
    rw [toNat_shiftRight_one]
    omega
  have hbit := congrArg (fun z : UInt16 => z.toNat.testBit 15) heq
  simp only [UInt16.toNat_xor, Nat.testBit_xor, hlow] at hbit
  exact absurd hbit (by decide)

theorem shiftBit_inj {x y : UInt16} (h : shiftBit x = shiftBit y) : x = y := by
  have hhalf : x >>> 1 = y >>> 1 → x.toNat % 2 = y.toNat % 2 → x = y := by
    intro hdiv hmod
    have hdiv' := congrArg UInt16.toNat hdiv
    rw [toNat_shiftRight_one, toNat_shiftRight_one] at hdiv'
    apply UInt16.toNat_inj.mp
    omega
  rcases Nat.mod_two_eq_zero_or_one x.toNat with hx | hx <;>
    rcases Nat.mod_two_eq_zero_or_one y.toNat with hy | hy
  · rw [shiftBit_of_even hx, shiftBit_of_even hy] at h
    exact hhalf h (hx.trans hy.symm)
  · rw [shiftBit_of_even hx, shiftBit_of_odd hy] at h
    exact absurd h (shiftRight_one_ne_xor_polynomial x y)
  · rw [shiftBit_of_odd hx, shiftBit_of_even hy] at h
    exact absurd h.symm (shiftRight_one_ne_xor_polynomial y x)
  · rw [shiftBit_of_odd hx, shiftBit_of_odd hy] at h
    exact hhalf ((UInt16.xor_left_inj polynomial).mp h) (hx.trans hy.symm)

/-! ## one byte -/

def shiftBits : Nat → UInt16 → UInt16
  | 0, crc => crc
  | n + 1, crc => shiftBits n (shiftBit crc)

theorem shiftByte_eq (crc : UInt16) : shiftByte crc = shiftBits 8 crc := rfl

theorem shiftBits_inj (n : Nat) {x y : UInt16} (h : shiftBits n x = shiftBits n y) : x = y := by
  induction n generalizing x y with
  | zero => exact h
  | succ n ih => exact shiftBit_inj (ih h)

/-- bits that leave the register clear only move the others down -/
theorem shiftBits_xor (n : Nat) (x : UInt16) {y : UInt16} (hy : y.toNat % 2 ^ n = 0) :
    shiftBits n (x ^^^ y) = shiftBits n x ^^^ UInt16.ofNat (y.toNat / 2 ^ n) := by
  induction n generalizing x y with
  | zero =>
    show x ^^^ y = x ^^^ UInt16.ofNat (y.toNat / 1)
    rw [Nat.div_one, UInt16.ofNat_toNat]
  | succ n ih =>
    have hdvd : 2 ^ n * 2 ∣ y.toNat := Nat.dvd_of_mod_eq_zero (by rw [← Nat.pow_succ]; exact hy)
    have heven : y.toNat % 2 = 0 := Nat.mod_eq_zero_of_dvd (Nat.dvd_trans (Nat.dvd_mul_left ..) hdvd)
    have hrest : (y >>> 1).toNat % 2 ^ n = 0 := by
      rw [toNat_shiftRight_one]
      refine Nat.mod_eq_zero_of_dvd ?_
      exact (Nat.dvd_div_iff_mul_dvd (Nat.dvd_of_mod_eq_zero heven)).mpr
        (by rw [Nat.mul_comm]; exact hdvd)
    show shiftBits n (shiftBit (x ^^^ y)) = shiftBits n (shiftBit x) ^^^ _
    rw [shiftBit_xor x heven, ih _ hrest, toNat_shiftRight_one, Nat.div_div_eq_div_mul,
      Nat.pow_succ, Nat.mul_comm 2]

/-- a register is its low byte and its high byte, moved up -/
theorem xor_high_byte (x : UInt16) :
    UInt16.ofNat (x.toNat % 256) ^^^ UInt16.ofNat (256 * (x.toNat / 256)) = x := by
  have hx := x.toNat_lt
  have hsum : x.toNat % 2 ^ 8 ^^^ 2 ^ 8 * (x.toNat / 2 ^ 8) = x.toNat := by
    generalize hboth : x.toNat % 2 ^ 8 ^^^ 2 ^ 8 * (x.toNat / 2 ^ 8) = both
    have hmod : both % 2 ^ 8 = x.toNat % 2 ^ 8 := by
      rw [← hboth, Nat.xor_mod_two_pow, Nat.mod_mod, Nat.mul_mod_right, Nat.xor_zero]
    have hdiv : both / 2 ^ 8 = x.toNat / 2 ^ 8 := by
      rw [← hboth, Nat.xor_div_two_pow, Nat.mod_div_self, Nat.zero_xor,
        Nat.mul_div_cancel_left _ (by decide)]
    omega
  apply UInt16.toNat_inj.mp
  rw [UInt16.toNat_xor, UInt16.toNat_ofNat_of_lt' (by show _ < 65536; omega),
    UInt16.toNat_ofNat_of_lt' (by show _ < 65536; omega)]
  exact hsum

/-- **The table stands for the division**: one look-up is eight bits of it. -/
theorem step_eq_stepBitwise (crc : UInt16) (byte : UInt8) :
    step crc byte = stepBitwise crc byte := by
  have hbyte := byte.toNat_lt
  generalize hx : crc ^^^ byte.toUInt16 = x
  have hhigh : crc >>> 8 = x >>> 8 := by
    have hgone : byte.toUInt16 >>> 8 = 0 := by
      apply UInt16.toNat_inj.mp
      rw [UInt16.toNat_shiftRight, UInt8.toNat_toUInt16]
      show byte.toNat >>> 8 = 0
      rw [Nat.shiftRight_eq_div_pow]
      omega
    rw [← hx, UInt16.shiftRight_xor, hgone, UInt16.xor_zero]
  have hdiv : x >>> 8 = UInt16.ofNat (x.toNat / 256) := by
    have hlt := x.toNat_lt
    apply UInt16.toNat_inj.mp
    rw [UInt16.toNat_shiftRight, UInt16.toNat_ofNat_of_lt' (by show _ < 65536; omega)]
    exact Nat.shiftRight_eq_div_pow x.toNat 8
  have htable : table.get x.toUInt8.toFin = shiftBits 8 (UInt16.ofNat (x.toNat % 256)) := by
    have hindex : x.toUInt8.toFin.val = x.toNat % 256 := UInt16.toNat_toUInt8 x
    rw [← hindex]
    exact Vector.getElem_ofFn ..
  have hclear : (UInt16.ofNat (256 * (x.toNat / 256))).toNat = 256 * (x.toNat / 256) := by
    have hlt := x.toNat_lt
    exact UInt16.toNat_ofNat_of_lt' (by show _ < 65536; omega)
  have hsplit := shiftBits_xor 8 (UInt16.ofNat (x.toNat % 256))
    (y := UInt16.ofNat (256 * (x.toNat / 256))) (by rw [hclear]; exact Nat.mul_mod_right ..)
  have hdown : 256 * (x.toNat / 256) / 2 ^ 8 = x.toNat / 256 := Nat.mul_div_cancel_left _ (by decide)
  rw [hclear, hdown, xor_high_byte] at hsplit
  calc step crc byte = (x >>> 8) ^^^ table.get x.toUInt8.toFin := by rw [step, hx, hhigh]
    _ = shiftBits 8 x := by rw [hdiv, htable, hsplit, UInt16.xor_comm]
    _ = stepBitwise crc byte := by rw [stepBitwise, hx, shiftByte_eq]

/-! ## two bytes -/

/-- the word that two bytes make, the second of them the high one -/
theorem xor_second_byte (first second : UInt8) :
    first.toUInt16 ^^^ UInt16.ofNat (256 * second.toNat) =
      UInt16.ofNat (256 * second.toNat + first.toNat) := by
  have hfirst := first.toNat_lt
  have hsecond := second.toNat_lt
  have hsplit := xor_high_byte (UInt16.ofNat (256 * second.toNat + first.toNat))
  have hlow : (256 * second.toNat + first.toNat) % 256 = first.toNat := by omega
  have hhigh : (256 * second.toNat + first.toNat) / 256 = second.toNat := by omega
  have hword : UInt16.ofNat first.toNat = first.toUInt16 := by
    apply UInt16.toNat_inj.mp
    rw [UInt16.toNat_ofNat_of_lt' (by show _ < 65536; omega), UInt8.toNat_toUInt16]
  rwa [UInt16.toNat_ofNat_of_lt' (by show _ < 65536; omega), hlow, hhigh, hword] at hsplit

/-- two steps divide the register by sixteen bits, once the bytes are in it side by side -/
theorem step_step (crc : UInt16) (first second : UInt8) :
    step (step crc first) second =
      shiftBits 16 (crc ^^^ UInt16.ofNat (256 * second.toNat + first.toNat)) := by
  have hsecond := second.toNat_lt
  have hword : (UInt16.ofNat (256 * second.toNat)).toNat = 256 * second.toNat :=
    UInt16.toNat_ofNat_of_lt' (by show _ < 65536; omega)
  have hdown := shiftBits_xor 8 (crc ^^^ first.toUInt16) (y := UInt16.ofNat (256 * second.toNat))
    (by rw [hword]; exact Nat.mul_mod_right ..)
  have hbyte : UInt16.ofNat (256 * second.toNat / 2 ^ 8) = second.toUInt16 := by
    have hdiv : 256 * second.toNat / 2 ^ 8 = second.toNat := Nat.mul_div_cancel_left _ (by decide)
    apply UInt16.toNat_inj.mp
    rw [hdiv, UInt8.toNat_toUInt16, UInt16.toNat_ofNat_of_lt' (by show _ < 65536; omega)]
  rw [hword, hbyte] at hdown
  calc step (step crc first) second
      = shiftBits 8 (shiftBits 8 (crc ^^^ first.toUInt16) ^^^ second.toUInt16) := by
        rw [step_eq_stepBitwise, step_eq_stepBitwise, stepBitwise, stepBitwise, shiftByte_eq,
          shiftByte_eq]
    _ = shiftBits 16 (crc ^^^ first.toUInt16 ^^^ UInt16.ofNat (256 * second.toNat)) := by
        rw [← hdown]
        rfl
    _ = shiftBits 16 (crc ^^^ UInt16.ofNat (256 * second.toNat + first.toNat)) := by
        rw [UInt16.xor_assoc, xor_second_byte]

/-! ## runs of bytes -/

theorem step_inj {crc crc' : UInt16} {byte : UInt8} (h : step crc byte = step crc' byte) :
    crc = crc' := by
  rw [step_eq_stepBitwise, step_eq_stepBitwise] at h
  exact (UInt16.xor_left_inj _).mp (shiftBits_inj 8 h)

theorem byte_of_step {crc : UInt16} {byte byte' : UInt8} (h : step crc byte = step crc byte') :
    byte = byte' := by
  rw [step_eq_stepBitwise, step_eq_stepBitwise] at h
  have hword : byte.toUInt16 = byte'.toUInt16 := (UInt16.xor_right_inj _).mp (shiftBits_inj 8 h)
  exact UInt8.toUInt16_inj.mp hword

theorem bytes_of_step_step {crc : UInt16} {first second first' second' : UInt8}
    (h : step (step crc first) second = step (step crc first') second') :
    first = first' ∧ second = second' := by
  have hfirst := first.toNat_lt
  have hfirst' := first'.toNat_lt
  have hsecond := second.toNat_lt
  have hsecond' := second'.toNat_lt
  rw [step_step, step_step] at h
  have hword := congrArg UInt16.toNat ((UInt16.xor_right_inj _).mp (shiftBits_inj 16 h))
  rw [UInt16.toNat_ofNat_of_lt' (by show _ < 65536; omega),
    UInt16.toNat_ofNat_of_lt' (by show _ < 65536; omega)] at hword
  exact ⟨UInt8.toNat_inj.mp (by omega), UInt8.toNat_inj.mp (by omega)⟩

theorem ofBytes_inj {data : List UInt8} {seed seed' : UInt16}
    (h : ofBytes data seed = ofBytes data seed') : seed = seed' := by
  induction data generalizing seed seed' with
  | nil => exact h
  | cons byte data ih => exact step_inj (ih h)

/-- **One byte in place of another changes the checksum.** -/
theorem ofBytes_ne_of_byte {byte byte' : UInt8} (hne : byte ≠ byte') (front back : List UInt8)
    (seed : UInt16) : ofBytes (front ++ byte :: back) seed ≠ ofBytes (front ++ byte' :: back) seed := by
  intro h
  rw [ofBytes_append, ofBytes_append, ofBytes_cons, ofBytes_cons] at h
  exact hne (byte_of_step (ofBytes_inj h))

end CameraPower.Crc
