import CameraPower.Proofs.FlashRegions
import CameraPower.Proofs.PageWrites

/-!
# What becomes of an image

An image whose records are short of `2 ^ 31` bytes (`Bounded`) has a plan unless a record overruns
its region.  The plan is then, record by record,

* nothing            for a record without data;
* one more skipped   for a record that starts outside the regions (`Outside`);
* `writesOf`         for a record that starts in a region, and stays there (`Fits`).

* `of?_outcome`      the plan of an image, or a record that overruns;
* `page_of_mem`      every write of a plan is to a whole page inside a region.
-/

namespace CameraPower.Flash

/-- no record is so long that its addresses could wrap around -/
def Bounded (records : List Record) : Prop :=
  ∀ record ∈ records, record.data.length < 2 ^ 31

namespace Record

/-- a record with data that starts in a region -/
def Placed (record : Record) : Prop :=
  record.data ≠ [] ∧ InRegion record.address.toNat

/-- a record with data that starts outside the regions -/
def Outside (record : Record) : Prop :=
  record.data ≠ [] ∧ ¬ InRegion record.address.toNat

instance (record : Record) : Decidable record.Placed :=
  inferInstanceAs (Decidable (_ ∧ _))

instance (record : Record) : Decidable record.Outside :=
  inferInstanceAs (Decidable (_ ∧ _))

/-- a record with data that starts in a region and whose last byte lies behind the region's end -/
def Overruns (record : Record) : Prop :=
  record.data ≠ [] ∧ ∃ region ∈ regions, region.first ≤ record.address ∧
    record.address ≤ region.last ∧
    region.last.toNat < record.address.toNat + (record.data.length - 1)

/-- a record with data that lies in a region from its first byte to its last -/
def Fits (record : Record) : Prop :=
  record.data ≠ [] ∧
    (record.address.toNat + record.data.length ≤ 0x0400 ∨
      (0x1C00 ≤ record.address.toNat ∧ record.address.toNat + record.data.length ≤ 0x5800))

theorem overruns_iff (record : Record) :
    record.Overruns ↔ record.data ≠ [] ∧
      ((record.address.toNat ≤ 0x03FF ∧ 0x0400 < record.address.toNat + record.data.length) ∨
        (0x1C00 ≤ record.address.toNat ∧ record.address.toNat ≤ 0x57FF ∧
          0x5800 < record.address.toNat + record.data.length)) := by
  unfold Overruns regions
  simp only [List.mem_cons, List.not_mem_nil, or_false, exists_eq_or_imp, exists_eq_left,
    UInt32.le_iff_toNat_le]
  apply and_congr_right
  intro hne
  have hpos := List.length_pos_iff.mpr hne
  have h1 : vectors.first.toNat = 0 := rfl
  have h2 : vectors.last.toNat = 0x03FF := rfl
  have h3 : application.first.toNat = 0x1C00 := rfl
  have h4 : application.last.toNat = 0x57FF := rfl
  rw [h1, h2, h3, h4]
  omega

theorem placed_iff (record : Record) : record.Placed ↔ record.Overruns ∨ record.Fits := by
  rw [overruns_iff]
  unfold Placed Fits InRegion
  by_cases hne : record.data = []
  · simp [hne]
  · have hpos := List.length_pos_iff.mpr hne
    simp only [ne_eq, hne, not_false_eq_true, true_and]
    omega

theorem Fits.placed {record : Record} (h : record.Fits) : record.Placed :=
  (placed_iff record).mpr (Or.inr h)

theorem toNat_lastAddress {record : Record} (hlen : record.data.length < 2 ^ 31)
    (h : InRegion record.address.toNat) :
    record.lastAddress.toNat = record.address.toNat + (record.data.length - 1) := by
  unfold InRegion at h
  exact toNat_add_ofNat (by omega)

/-- a record that starts in a region overruns when its last byte lies behind the region's end -/
theorem overruns_iff_last {record : Record} {region : Region} (hlen : record.data.length < 2 ^ 31)
    (hne : record.data ≠ []) (h : regionOf? record.address = some region) :
    InRegion record.address.toNat ∧ (record.Overruns ↔ region.last < record.lastAddress) := by
  have hpos := List.length_pos_iff.mpr hne
  rcases regionOf?_cases record.address with ⟨hregion, hlow⟩ | ⟨hregion, hhigh⟩ | ⟨hregion, hout⟩
  · have hin : InRegion record.address.toNat := Or.inl hlow
    obtain rfl : vectors = region := Option.some.inj (hregion.symm.trans h)
    refine ⟨hin, ?_⟩
    rw [overruns_iff, and_iff_right hne, UInt32.lt_iff_toNat_lt, toNat_lastAddress hlen hin]
    show _ ↔ 0x03FF < _
    omega
  · have hin : InRegion record.address.toNat := Or.inr hhigh
    obtain rfl : application = region := Option.some.inj (hregion.symm.trans h)
    refine ⟨hin, ?_⟩
    rw [overruns_iff, and_iff_right hne, UInt32.lt_iff_toNat_lt, toNat_lastAddress hlen hin]
    show _ ↔ 0x57FF < _
    omega
  · rw [hregion] at h
    cases h

def writes (record : Record) : List Write :=
  if record.Placed then writesOf record.address record.data else []

end Record

/-! ## the outcome of planning -/

namespace Plan

/-- what one record does to a plan -/
theorem add_outcome (plan : Plan) {record : Record} (hlen : record.data.length < 2 ^ 31) :
    (record.Overruns ∧ ∃ error, plan.add record = .error error) ∨
      (¬ record.Overruns ∧ plan.add record =
        .ok ⟨plan.writes ++ record.writes, plan.skipped + if record.Outside then 1 else 0⟩) := by
  unfold add
  by_cases hne : record.data = []
  · have hnot : ¬ record.Overruns := fun h => h.1 hne
    refine Or.inr ⟨hnot, ?_⟩
    simp [hne, Record.writes, Record.Placed, Record.Outside]
  · rw [if_neg hne]
    cases hregion : regionOf? record.address with
    | none =>
      have hout : ¬ InRegion record.address.toNat := by
        rw [← isSome_regionOf?, hregion]
        simp
      have hnot : ¬ record.Overruns := fun h => hout ((record.placed_iff.mpr (Or.inl h)).2)
      have hwrites : record.writes = [] := if_neg fun h => hout h.2
      rw [hwrites, List.append_nil, if_pos ⟨hne, hout⟩]
      exact Or.inr ⟨hnot, rfl⟩
    | some region =>
      obtain ⟨hin, hover⟩ := Record.overruns_iff_last hlen hne hregion
      have hwrites : record.writes = writesOf record.address record.data := if_pos ⟨hne, hin⟩
      rw [hwrites, if_neg (show ¬ record.Outside from fun h => h.2 hin)]
      by_cases hlast : region.last < record.lastAddress
      · exact Or.inl ⟨hover.mpr hlast, _, if_pos hlast⟩
      · exact Or.inr ⟨fun h => hlast (hover.mp h), if_neg hlast⟩

theorem foldlM_add_outcome {records : List Record} (h : Bounded records) (plan : Plan) :
    ((∃ record ∈ records, record.Overruns) ∧ ∃ error, records.foldlM add plan = .error error) ∨
      ((∀ record ∈ records, ¬ record.Overruns) ∧ records.foldlM add plan =
        .ok ⟨plan.writes ++ records.flatMap Record.writes,
          plan.skipped + records.countP fun record => decide record.Outside⟩) := by
  induction records generalizing plan with
  | nil =>
    refine Or.inr ⟨by simp, ?_⟩
    rw [List.flatMap_nil, List.append_nil]
    rfl
  | cons record records ih =>
    rw [List.foldlM_cons]
    rcases plan.add_outcome (h record (List.mem_cons_self ..)) with ⟨hover, error, hadd⟩ | ⟨hnot, hadd⟩
    · rw [hadd]
      exact Or.inl ⟨⟨record, List.mem_cons_self .., hover⟩, error, rfl⟩
    · rw [hadd]
      have hrest : Bounded records := fun other hother => h other (List.mem_cons_of_mem _ hother)
      rcases ih hrest ⟨plan.writes ++ record.writes, plan.skipped + if record.Outside then 1 else 0⟩
        with ⟨⟨other, hother, hover⟩, herror⟩ | ⟨hall, hok⟩
      · exact Or.inl ⟨⟨other, List.mem_cons_of_mem _ hother, hover⟩, herror⟩
      · refine Or.inr ⟨List.forall_mem_cons.mpr ⟨hnot, hall⟩, ?_⟩
        show records.foldlM add _ = _
        rw [hok, List.flatMap_cons, List.append_assoc, List.countP_cons, Nat.add_assoc]
        simp only [decide_eq_true_eq]
        rw [Nat.add_comm (records.countP _)]

/-- **The plan of an image**: there is one unless a record overruns its region, and then it holds
the writes of the records in order and counts those outside the regions. -/
theorem of?_outcome {records : List Record} (h : Bounded records) :
    ((∃ record ∈ records, record.Overruns) ∧ ∃ error, of? records = .error error) ∨
      ((∀ record ∈ records, ¬ record.Overruns) ∧ of? records =
        .ok ⟨records.flatMap Record.writes, records.countP fun record => decide record.Outside⟩) := by
  have := foldlM_add_outcome h {}
  rw [List.nil_append, Nat.zero_add] at this
  exact this

/-- a plan that there is -/
theorem of?_eq_ok {records : List Record} {plan : Plan} (hlen : Bounded records)
    (hplan : of? records = .ok plan) :
    (∀ record ∈ records, ¬ record.Overruns) ∧
      plan = ⟨records.flatMap Record.writes, records.countP fun record => decide record.Outside⟩ := by
  rcases of?_outcome hlen with ⟨-, error, herror⟩ | ⟨hall, hok⟩
  · rw [hplan] at herror
    cases herror
  · rw [hplan] at hok
    exact ⟨hall, Except.ok.inj hok⟩

/-! ## where a plan writes -/

theorem fits_of_placed {records : List Record} {plan : Plan} (hlen : Bounded records)
    (hplan : of? records = .ok plan) {record : Record} (hmem : record ∈ records)
    (h : record.Placed) : record.Fits := by
  exact (record.placed_iff.mp h).resolve_left ((of?_eq_ok hlen hplan).1 record hmem)

end Plan

theorem Record.Fits.writes_eq {record : Record} (h : record.Fits) :
    record.writes = (touched record.address.toNat record.data.length).map
      (pageWrite record.address.toNat record.data) := by
  unfold Record.writes
  rw [if_pos h.placed]
  refine writesOf_eq record.address record.data ?_
  unfold Record.Fits at h
  omega

theorem Record.Fits.page_of_touched {record : Record} (h : record.Fits) {page : Nat}
    (hpage : page ∈ touched record.address.toNat record.data.length) : PageOfRegions page := by
  obtain ⟨hmod, -, hlt, hge⟩ := mem_touched.mp hpage
  unfold Record.Fits at h
  unfold PageOfRegions
  omega

theorem PageOfRegions.toNat_ofNat {page : Nat} (h : PageOfRegions page) :
    (UInt32.ofNat page).toNat = page := by
  unfold PageOfRegions at h
  rw [UInt32.toNat_ofNat', Nat.mod_eq_of_lt (show page < 2 ^ 32 by omega)]

/-- a plan writes whole pages of the regions -/
theorem Plan.page_of_mem {records : List Record} {plan : Plan} (hlen : Bounded records)
    (hplan : of? records = .ok plan) {write : Write} (hwrite : write ∈ plan.writes) :
    PageOfRegions write.page.toNat := by
  rw [(of?_eq_ok hlen hplan).2] at hwrite
  obtain ⟨record, hmem, hin⟩ := List.mem_flatMap.mp hwrite
  by_cases hplaced : record.Placed
  · have hfits := fits_of_placed hlen hplan hmem hplaced
    rw [hfits.writes_eq] at hin
    obtain ⟨page, hpage, rfl⟩ := List.mem_map.mp hin
    have hregions := hfits.page_of_touched hpage
    show PageOfRegions (UInt32.ofNat page).toNat
    rw [hregions.toNat_ofNat]
    exact hregions
  · rw [show record.writes = [] from if_neg hplaced] at hin
    cases hin

end CameraPower.Flash
