import CameraPower.Numeral
import Mathlib.Algebra.Group.Nat.Defs
import Mathlib.Data.Nat.Init
import Mathlib.Tactic.SplitIfs

/-!
# Decimal numerals

What is read as a number in decimal, and that it reads back what is written.

* `IsDecimal`               digits that make up a number, zeros in front of them or not;
* `value?_eq_some_iff`      these are what is read, `unsigned?_eq_some_iff` with a sign or without;
* `isDecimal_decimal`       what is written is among them;
* `signed_injective`        no two numbers are written alike;
* `padded_append_lt`        numerals of one width sort as their values.
-/

namespace CameraPower.Numeral

/-- a non-empty run of ASCII digits with the value that it has in base ten -/
structure IsDecimal (digits : List Char) (n : Nat) : Prop where
  nonempty : digits ≠ []
  isDigit : ∀ c ∈ digits, c.isDigit = true
  value : Nat.ofDigitChars 10 digits 0 = n

/-! ## reading -/

theorem digitValue?_ten (c : Char) :
    digitValue? 10 c = if c.isDigit = true then some (c.toNat - 48) else none := by
  simp only [digitValue?, Char.isDigit_iff_toNat, Char.le_def, UInt32.le_iff_toNat_le]
  change Option.filter _ (if 48 ≤ c.toNat ∧ c.toNat ≤ 57 then _ else if 65 ≤ c.toNat ∧ c.toNat ≤ 70
    then _ else if 97 ≤ c.toNat ∧ c.toNat ≤ 102 then _ else _) =
      if 48 ≤ c.toNat ∧ c.toNat ≤ 57 then _ else _
  split_ifs
  · rw [Option.filter_some, if_pos (by rw [decide_eq_true_eq]; omega)]
  · rw [Option.filter_some, if_neg (by rw [decide_eq_true_eq]; omega)]
  · rw [Option.filter_some, if_neg (by rw [decide_eq_true_eq]; omega)]
  · rfl

theorem valueFrom?_eq_some_iff (digits : List Char) (acc n : Nat) :
    valueFrom? 10 acc digits = some n ↔
      (∀ c ∈ digits, c.isDigit = true) ∧ Nat.ofDigitChars 10 digits acc = n := by
  induction digits generalizing acc with
  | nil => simp [valueFrom?]
  | cons c rest ih =>
    rw [valueFrom?, digitValue?_ten, List.forall_mem_cons, Nat.ofDigitChars_cons, Nat.mul_comm 10]
    by_cases hc : c.isDigit = true
    · rw [if_pos hc, and_iff_right hc]
      exact ih _
    · simp [hc]

theorem value?_eq_some_iff (digits : List Char) (n : Nat) :
    value? 10 digits = some n ↔ IsDecimal digits n := by
  cases digits with
  | nil => exact iff_of_false nofun fun h => h.nonempty rfl
  | cons c rest =>
    rw [value?, valueFrom?_eq_some_iff]
    · exact ⟨fun h => ⟨List.cons_ne_nil c rest, h.1, h.2⟩, fun h => ⟨h.isDigit, h.value⟩⟩
    · exact List.cons_ne_nil c rest

/-- a number that may carry a plus sign -/
theorem unsigned?_eq_some_iff (limit : Nat) (text : List Char) (n : Nat) :
    unsigned? 10 limit text = some n ↔
      n ≤ limit ∧ (IsDecimal text n ∨ ∃ digits, text = '+' :: digits ∧ IsDecimal digits n) := by
  by_cases hsign : ∃ digits, text = '+' :: digits
  · obtain ⟨digits, rfl⟩ := hsign
    have hplus : ¬ IsDecimal ('+' :: digits) n := fun h =>
      absurd (h.isDigit '+' List.mem_cons_self) (by decide)
    have hread : unsigned? 10 limit ('+' :: digits) = (value? 10 digits).filter (· ≤ limit) := rfl
    rw [hread, Option.filter_eq_some_iff, value?_eq_some_iff, decide_eq_true_eq, and_comm]
    simp [hplus]
  · have hread : unsigned? 10 limit text = (value? 10 text).filter (· ≤ limit) := by
      rw [unsigned?]
      exact fun digits htext => hsign ⟨digits, htext⟩
    have hplain : ¬ ∃ digits, text = '+' :: digits ∧ IsDecimal digits n :=
      fun ⟨digits, htext, _⟩ => hsign ⟨digits, htext⟩
    rw [hread, Option.filter_eq_some_iff, value?_eq_some_iff, decide_eq_true_eq, and_comm,
      or_iff_left hplain]

/-! ## writing -/

theorem digit_of_lt {value : Nat} (h : value < 10) : digit value = value.digitChar := by
  have htable : ∀ value < 10, digit value = value.digitChar := by decide
  exact htable value h

theorem decimal_eq (n : Nat) : decimal n = Nat.toDigits 10 n := by
  fun_induction decimal n with
  | case1 n hsmall => rw [Nat.toDigits_of_lt_base hsmall, digit_of_lt hsmall]
  | case2 n hlarge ih =>
    rw [Nat.toDigits_eq_if (by decide), if_neg hlarge, ih, digit_of_lt (Nat.mod_lt n (by decide))]

theorem isDecimal_decimal (n : Nat) : IsDecimal (decimal n) n := by
  rw [decimal_eq]
  exact ⟨Nat.toDigits_ne_nil, fun c hc => Nat.isDigit_of_mem_toDigits (by decide) (by decide) hc,
    Nat.ofDigitChars_ten_toDigits⟩

theorem toList_ofNat (n : Nat) : (ofNat n).toList = decimal n :=
  String.toList_ofList

theorem decimal_injective {m n : Nat} (h : decimal m = decimal n) : m = n := by
  rw [← (isDecimal_decimal m).value, ← (isDecimal_decimal n).value, h]

/-! ## signs -/

theorem mem_signed {n : Int} {c : Char} (h : c ∈ signed n) : c = '-' ∨ c.isDigit = true := by
  have hdigit : ∀ c ∈ decimal n.natAbs, c.isDigit = true := (isDecimal_decimal n.natAbs).isDigit
  unfold signed at h
  split at h
  · exact (List.mem_cons.mp h).imp_right (hdigit c)
  · exact Or.inr (hdigit c h)

theorem signed_injective {m n : Int} (h : signed m = signed n) : m = n := by
  have hplain : ∀ (a : Nat) (rest : List Char), decimal a ≠ '-' :: rest := by
    intro a rest hminus
    have hdigit := (isDecimal_decimal a).isDigit '-' (hminus ▸ List.mem_cons_self)
    exact absurd hdigit (by decide)
  unfold signed at h
  split at h <;> split at h
  · have hsize := decimal_injective (List.cons.inj h).2
    omega
  · exact absurd h.symm (hplain _ _)
  · exact absurd h (hplain _ _)
  · have hsize := decimal_injective h
    omega

/-! ## numerals of one width -/

theorem digit_lt {m n : Nat} (hlt : m < n) (h : n < 10) : digit m < digit n := by
  have htable : ∀ n < 10, ∀ m < n, digit m < digit n := by decide
  exact htable n h m hlt

theorem padded_succ {width : Nat} (h : 0 < width) (n : Nat) :
    padded (width + 1) (decimal n) = padded width (decimal (n / 10)) ++ [digit (n % 10)] := by
  by_cases hsmall : n < 10
  · have hnone : decimal (n / 10) = ['0'] := by
      rw [Nat.div_eq_of_lt hsmall, decimal, if_pos (by decide)]
      rfl
    have hone : decimal n = [digit n] := by rw [decimal, if_pos hsmall]
    rw [hnone, hone, Nat.mod_eq_of_lt hsmall, padded, padded, List.append_assoc]
    obtain ⟨width, rfl⟩ : ∃ less, width = less + 1 := ⟨width - 1, (Nat.sub_add_cancel h).symm⟩
    simp [List.replicate_succ']
  · have hmore : decimal n = decimal (n / 10) ++ [digit (n % 10)] := by
      rw [decimal, if_neg hsmall]
    rw [hmore, padded, padded, List.length_append, List.length_singleton, Nat.add_sub_add_right,
      List.append_assoc]

theorem padded_one {n : Nat} (h : n < 10) : padded 1 (decimal n) = [digit n] := by
  rw [decimal, if_pos h]
  rfl

/-- **Numerals of one width sort as their values**, whatever follows them. -/
theorem padded_append_lt {width m n : Nat} (hwidth : 0 < width) (hlt : m < n) (h : n < 10 ^ width)
    (back back' : List Char) :
    padded width (decimal m) ++ back < padded width (decimal n) ++ back' := by
  induction width, hwidth using Nat.le_induction generalizing m n back back' with
  | base =>
    rw [padded_one (by omega), padded_one (by omega)]
    exact List.cons_lt_cons_iff.mpr (Or.inl (digit_lt hlt (by omega)))
  | succ width hwidth ih =>
    rw [padded_succ hwidth, padded_succ hwidth, List.append_assoc, List.append_assoc]
    rcases Nat.lt_or_ge (m / 10) (n / 10) with htens | htens
    · exact ih htens (by omega) _ _
    · have hsame : m / 10 = n / 10 := by omega
      have hlast : digit (m % 10) < digit (n % 10) := digit_lt (by omega) (by omega)
      rw [hsame]
      exact List.append_left_lt (List.cons_lt_cons_iff.mpr (Or.inl hlast))

end CameraPower.Numeral
