import CameraPower.Flash

/-!
# What an update may touch

The two regions of an update and their pages in natural numbers.  The bootloader lies between them.

* `InRegion`        the addresses of the regions;
* `PageOfRegions`   the starts of whole pages that lie inside a region;
* `pagesInOrder`    the pages that an update erases: those are all of them (`mem_pagesInOrder`).
-/

namespace CameraPower.Flash

/-- an address that an update may touch -/
def InRegion (a : Nat) : Prop :=
  a ≤ 0x03FF ∨ (0x1C00 ≤ a ∧ a ≤ 0x57FF)

instance (a : Nat) : Decidable (InRegion a) :=
  inferInstanceAs (Decidable (_ ∨ _))

/-- the start of a whole page inside a region -/
def PageOfRegions (page : Nat) : Prop :=
  page % 128 = 0 ∧ (page + 127 ≤ 0x03FF ∨ (0x1C00 ≤ page ∧ page + 127 ≤ 0x57FF))

/-- the pages of the interrupt vectors and then those of the application, each region in order -/
def pagesInOrder : List UInt32 :=
  (List.range 8).map (fun i => UInt32.ofNat (128 * i)) ++
    (List.range 120).map (fun i => UInt32.ofNat (0x1C00 + 128 * i))

theorem erasedPages_eq : erasedPages = pagesInOrder := by decide +kernel

theorem length_erasedPages : erasedPages.length = 128 := by
  rw [erasedPages_eq]
  simp [pagesInOrder]

theorem mem_pagesInOrder {page : UInt32} : page ∈ pagesInOrder ↔ PageOfRegions page.toNat := by
  unfold pagesInOrder PageOfRegions
  simp only [List.mem_append, List.mem_map, List.mem_range]
  constructor
  · rintro (⟨i, hi, rfl⟩ | ⟨i, hi, rfl⟩)
    · rw [UInt32.toNat_ofNat', Nat.mod_eq_of_lt (show 128 * i < 2 ^ 32 by omega)]
      omega
    · rw [UInt32.toNat_ofNat', Nat.mod_eq_of_lt (show 0x1C00 + 128 * i < 2 ^ 32 by omega)]
      omega
  · rintro ⟨hmod, hlow | ⟨hge, hle⟩⟩
    · refine Or.inl ⟨page.toNat / 128, by omega, ?_⟩
      rw [Nat.mul_div_cancel' (Nat.dvd_of_mod_eq_zero hmod), UInt32.ofNat_toNat]
    · refine Or.inr ⟨(page.toNat - 0x1C00) / 128, by omega, ?_⟩
      have e : 0x1C00 + 128 * ((page.toNat - 0x1C00) / 128) = page.toNat := by omega
      rw [e, UInt32.ofNat_toNat]

/-! ## the region of an address -/

theorem regionOf?_cases (address : UInt32) :
    (regionOf? address = some vectors ∧ address.toNat ≤ 0x03FF) ∨
      (regionOf? address = some application ∧ 0x1C00 ≤ address.toNat ∧ address.toNat ≤ 0x57FF) ∨
      (regionOf? address = none ∧ ¬ InRegion address.toNat) := by
  have hvectors : vectors.contains address = decide (address.toNat ≤ 0x03FF) := by
    simp [Region.contains, vectors, UInt32.le_iff_toNat_le]
  have happlication : application.contains address =
      (decide (0x1C00 ≤ address.toNat) && decide (address.toNat ≤ 0x57FF)) := by
    simp [Region.contains, application, UInt32.le_iff_toNat_le]
  unfold regionOf? regions
  rw [List.find?_cons, hvectors, List.find?_cons, happlication, List.find?_nil]
  by_cases hlow : address.toNat ≤ 0x03FF
  · exact Or.inl ⟨by simp [hlow], hlow⟩
  · by_cases hhigh : 0x1C00 ≤ address.toNat ∧ address.toNat ≤ 0x57FF
    · exact Or.inr (Or.inl ⟨by simp [hlow, hhigh], hhigh⟩)
    · refine Or.inr (Or.inr ⟨?_, fun h => h.elim hlow hhigh⟩)
      have hfalse : (decide (0x1C00 ≤ address.toNat) && decide (address.toNat ≤ 0x57FF)) = false := by
        simpa using hhigh
      simp [hlow, hfalse]

theorem isSome_regionOf? (address : UInt32) :
    (regionOf? address).isSome ↔ InRegion address.toNat := by
  rcases regionOf?_cases address with ⟨h, hlow⟩ | ⟨h, hhigh⟩ | ⟨h, hout⟩
  · simp [h, InRegion, hlow]
  · simp [h, InRegion, hhigh]
  · simp [h, hout]

end CameraPower.Flash
