import CameraPower.Flash.Plan
import Mathlib.Algebra.Group.Nat.Defs
import Mathlib.Data.List.GetD

/-!
# The pages of a run of bytes

Bytes that start at an address and stay below `2 ^ 32` are sent page by page.  In natural numbers:

* `byteAt address data a`      what the bytes put at `a`, an erased byte where they put nothing;
* `touched address size`       the pages that they touch, in order;
* `writesOf_eq`                the writes of the bytes are one for each page they touch, and hold at
                               each of its places what the bytes put there.
-/

namespace CameraPower.Flash

/-! ## addresses as natural numbers -/

theorem and_pageMask (x : Nat) (hx : x < 2 ^ 32) : x &&& 0xFFFFFF80 = x / 128 * 128 := by
  have hmask : 0xFFFFFF80 = (2 ^ 25 - 1) <<< 7 := by decide
  have hpage : x / 128 * 128 = (x >>> 7) <<< 7 := by
    rw [Nat.shiftLeft_eq, Nat.shiftRight_eq_div_pow]
  rw [hmask, hpage]
  apply Nat.eq_of_testBit_eq
  intro i
  rw [Nat.testBit_and, Nat.testBit_shiftLeft, Nat.testBit_shiftLeft, Nat.testBit_shiftRight,
    Nat.testBit_two_pow_sub_one]
  by_cases h7 : 7 ≤ i
  · have e : 7 + (i - 7) = i := by omega
    rw [e]
    by_cases h32 : i < 32
    · have h25 : i - 7 < 25 := by omega
      simp [h7, h25]
    · have hbig : x < 2 ^ i := Nat.lt_of_lt_of_le hx (Nat.pow_le_pow_right (by decide) (by omega))
      rw [Nat.testBit_lt_two_pow hbig]
      simp
  · simp [h7]

theorem toNat_pageBase (address : UInt32) :
    (pageBase address).toNat = address.toNat / 128 * 128 := by
  unfold pageBase
  rw [UInt32.toNat_and, ← and_pageMask address.toNat address.toNat_lt]
  rfl

theorem toNat_wordAddress (address : UInt32) :
    (wordAddress address).toNat = address.toNat / 2 := by
  unfold wordAddress
  rw [UInt32.toNat_shiftRight]
  exact Nat.shiftRight_eq_div_pow ..

theorem wordAddress_eq (address : UInt32) :
    wordAddress address = UInt32.ofNat (address.toNat / 2) := by
  rw [← toNat_wordAddress, UInt32.ofNat_toNat]

theorem two_mul_wordAddress {page : UInt32} (h : page.toNat % 128 = 0) :
    2 * (wordAddress page).toNat = page.toNat := by
  rw [toNat_wordAddress]
  omega

theorem toNat_add_ofNat {address : UInt32} {n : Nat} (h : address.toNat + n < 2 ^ 32) :
    (address + UInt32.ofNat n).toNat = address.toNat + n := by
  rw [UInt32.toNat_add, UInt32.toNat_ofNat', Nat.mod_eq_of_lt (show n < 2 ^ 32 by omega),
    Nat.mod_eq_of_lt h]

/-! ## the bytes that a run puts at an address -/

/-- what bytes that start at `address` put at `a`, an erased byte where they put nothing -/
def byteAt (address : Nat) (data : List UInt8) (a : Nat) : UInt8 :=
  if address ≤ a then data.getD (a - address) erased else erased

theorem byteAt_of_lt {address a : Nat} (data : List UInt8) (h : a < address) :
    byteAt address data a = erased :=
  if_neg (Nat.not_le.mpr h)

theorem byteAt_of_ge {address a : Nat} {data : List UInt8} (h : address + data.length ≤ a) :
    byteAt address data a = erased := by
  unfold byteAt
  rw [if_pos (by omega), List.getD_eq_default]
  omega

theorem byteAt_add {address i : Nat} {data : List UInt8} (h : i < data.length) :
    byteAt address data (address + i) = data[i] := by
  unfold byteAt
  rw [if_pos (Nat.le_add_right ..), Nat.add_sub_cancel_left, List.getD_eq_getElem _ _ h]

theorem byteAt_drop {address size a : Nat} (data : List UInt8) (h : address + size ≤ a) :
    byteAt (address + size) (data.drop size) a = byteAt address data a := by
  unfold byteAt
  rw [if_pos h, if_pos (by omega), List.getD_eq_getElem?_getD, List.getElem?_drop,
    List.getD_eq_getElem?_getD]
  have e : size + (a - (address + size)) = a - address := by omega
  rw [e]

/-! ## one page -/

/-- the contents of a page that is erased but for what a run of bytes puts there -/
def pageView (address : Nat) (data : List UInt8) (page : Nat) : Vector UInt8 pageSize :=
  Vector.ofFn fun i => byteAt address data (page + i.val)

theorem getD_replicate_append (offset : Nat) (chunk : List UInt8) (i : Nat) :
    (List.replicate offset erased ++ chunk).getD i erased = byteAt offset chunk i := by
  by_cases h : offset ≤ i
  · rw [List.getD_append_right _ _ _ _ (by simpa using h), List.length_replicate, byteAt, if_pos h]
  · rw [byteAt_of_lt chunk (Nat.lt_of_not_le h), List.getD_append _ _ _ _ (by simpa using h),
      List.getD_replicate _ (Nat.lt_of_not_le h)]

theorem getElem_pageContents (offset : Nat) (chunk : List UInt8) (i : Nat) (hi : i < pageSize) :
    (pageContents offset chunk)[i] = byteAt offset chunk i := by
  let covered := (List.replicate offset erased ++ chunk).take pageSize
  have hlist : (pageContents offset chunk)[i] =
      (covered ++ List.replicate (pageSize - covered.length) erased).getD i erased := by
    rw [List.getD_eq_getElem]
    rfl
  rw [hlist]
  by_cases h : i < covered.length
  · have htake : covered[i]? = (List.replicate offset erased ++ chunk)[i]? :=
      List.getElem?_take_of_lt hi
    rw [List.getD_append _ _ _ _ h, List.getD_eq_getElem?_getD, htake,
      ← List.getD_eq_getElem?_getD, getD_replicate_append]
  · have hlen : covered.length = min pageSize (offset + chunk.length) := by
      simp [covered]
    have hge : offset + chunk.length ≤ i := by omega
    rw [List.getD_append_right _ _ _ _ (Nat.le_of_not_lt h), byteAt_of_ge hge,
      List.getD_eq_getElem?_getD, List.getElem?_getD_replicate_default_eq]

/-! ## the writes of a run -/

/-- the pages that `size` bytes from `address` touch, in order -/
def touched (address size : Nat) : List Nat :=
  if size = 0 then [] else List.range' (address / 128 * 128) ((address % 128 + size + 127) / 128) 128

def pageWrite (address : Nat) (data : List UInt8) (page : Nat) : Write :=
  ⟨UInt32.ofNat page, pageView address data page⟩

theorem mem_touched {address size page : Nat} :
    page ∈ touched address size ↔
      page % 128 = 0 ∧ 0 < size ∧ page < address + size ∧ address < page + 128 := by
  unfold touched
  split
  · simp; omega
  · rw [List.mem_range']
    constructor
    · rintro ⟨i, hi, rfl⟩
      omega
    · rintro ⟨hmod, -, hlt, hge⟩
      exact ⟨(page - address / 128 * 128) / 128, by omega, by omega⟩

theorem touched_one {address size : Nat} (h0 : 0 < size) (h : address % 128 + size ≤ 128) :
    touched address size = [address / 128 * 128] := by
  have hcount : (address % 128 + size + 127) / 128 = 1 := by omega
  rw [touched, if_neg (by omega), hcount]
  rfl

/-- bytes that go on behind their first page -/
theorem touched_cons {address size : Nat} (h : 128 < address % 128 + size) :
    touched address size = address / 128 * 128 ::
      touched (address + (128 - address % 128)) (size - (128 - address % 128)) := by
  have hstart : address / 128 * 128 + 128 =
      (address + (128 - address % 128)) / 128 * 128 := by omega
  have hcount : (address % 128 + size + 127) / 128 =
      ((address + (128 - address % 128)) % 128 + (size - (128 - address % 128)) + 127) / 128 + 1 := by
    omega
  rw [touched, if_neg (by omega), hcount, List.range'_succ, hstart, touched, if_neg (by omega)]

theorem pageContents_first (address : UInt32) (data : List UInt8) :
    pageContents (pageOffset address) (data.take (pageSize - pageOffset address)) =
      pageView address.toNat data (address.toNat / 128 * 128) := by
  have hoffset : pageOffset address = address.toNat % 128 := pageOffset_eq_mod address
  rw [hoffset]
  apply Vector.ext
  intro i hi
  have hi' : i < 128 := hi
  rw [getElem_pageContents, pageView, Vector.getElem_ofFn]
  show byteAt _ _ i = byteAt _ _ (address.toNat / 128 * 128 + i)
  unfold byteAt
  by_cases h : address.toNat % 128 ≤ i
  · have hin : i - address.toNat % 128 < pageSize - address.toNat % 128 :=
      Nat.sub_lt_sub_right h hi
    have e : address.toNat / 128 * 128 + i - address.toNat = i - address.toNat % 128 := by omega
    rw [if_pos h, if_pos (by omega), e, List.getD_eq_getElem?_getD, List.getElem?_take_of_lt hin,
      ← List.getD_eq_getElem?_getD]
  · rw [if_neg h, if_neg (by omega)]

/-- later pages get from the later bytes of a run what they get from the whole run -/
theorem pageWrite_drop {address size page : Nat} (data : List UInt8) (h : address + size ≤ page) :
    pageWrite (address + size) (data.drop size) page = pageWrite address data page := by
  have hview : pageView (address + size) (data.drop size) page = pageView address data page := by
    unfold pageView
    congr 1
    funext i
    exact byteAt_drop data (by omega)
  rw [pageWrite, hview, pageWrite]

/-- **The writes of a run of bytes** are one for each page that it touches, in order. -/
theorem writesOf_eq (address : UInt32) (data : List UInt8)
    (h : address.toNat + data.length ≤ 2 ^ 32) :
    writesOf address data =
      (touched address.toNat data.length).map (pageWrite address.toNat data) := by
  induction address, data using writesOf.induct with
  | case1 address =>
    rw [writesOf]
    simp [touched]
  | case2 address data hne offset size ih =>
    have hsize : size = 128 - address.toNat % 128 := by
      show pageSize - pageOffset address = _
      rw [pageOffset_eq_mod]
      rfl
    have hpos : 0 < data.length := List.length_pos_iff.mpr hne
    have hfirst : (⟨pageBase address, pageContents offset (data.take size)⟩ : Write) =
        pageWrite address.toNat data (address.toNat / 128 * 128) := by
      have hcontents : pageContents offset (data.take size) = _ := pageContents_first address data
      rw [pageWrite, hcontents, ← toNat_pageBase, UInt32.ofNat_toNat]
    have hwrites : writesOf address data = ⟨pageBase address, pageContents offset (data.take size)⟩ ::
        writesOf (address + UInt32.ofNat (min size data.length)) (data.drop size) := by
      rw [writesOf, dif_neg hne]
    rw [hwrites, hfirst]
    by_cases hlen : data.length ≤ size
    · rw [List.drop_eq_nil_of_le hlen, touched_one hpos (by omega), writesOf]
      rfl
    · have hmin : min size data.length = size := by omega
      have hnext : (address + UInt32.ofNat size).toNat = address.toNat + size :=
        toNat_add_ofNat (by omega)
      have hrest : writesOf (address + UInt32.ofNat size) (data.drop size) =
          (touched (address.toNat + size) (data.length - size)).map
            (pageWrite (address.toNat + size) (data.drop size)) := by
        rw [hmin] at ih
        rw [ih (by rw [hnext, List.length_drop]; omega), hnext, List.length_drop]
      have hmap : (touched (address.toNat + size) (data.length - size)).map
          (pageWrite (address.toNat + size) (data.drop size)) =
          (touched (address.toNat + size) (data.length - size)).map
            (pageWrite address.toNat data) := by
        apply List.map_congr_left
        intro page hpage
        have hge := mem_touched.mp hpage
        exact pageWrite_drop data (by omega)
      have htouched := touched_cons (show 128 < address.toNat % 128 + data.length by omega)
      rw [← hsize] at htouched
      rw [hmin, hrest, hmap, htouched, List.map_cons]

end CameraPower.Flash
