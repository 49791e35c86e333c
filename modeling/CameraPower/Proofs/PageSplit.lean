import CameraPower.Proofs.FlashMemory
import Mathlib.Data.List.Sort

/-!
# The page split of an image

The writes of a plan, described by the pages that a record touches and by the bytes that it covers,
without the loop that makes them.

* `Record.Splits`         one write for each page that a record touches, in order, with the bytes of
                          the record where it covers the page and erased ones elsewhere;
* `Record.Splits.unique`  there is one split of a record at most;
* `Record.Fits.splits`    the writes of a record that stays in its region are its split;
* `Plan.splits_pages`     a plan is the splits of the records that start in a region.
-/

namespace CameraPower.Flash

namespace Record

instance (record : Record) (a : Nat) : Decidable (record.Covers a) :=
  inferInstanceAs (Decidable (_ ∧ _))

/-- a page, by where it starts, that a record has a byte for -/
def Touches (record : Record) (page : Nat) : Prop :=
  page % 128 = 0 ∧ ∃ a, record.Covers a ∧ page ≤ a ∧ a < page + 128

/-- the bytes of a write at the addresses that a record covers -/
def slice (record : Record) (write : Write) : List UInt8 :=
  ((write.data.toList.zipIdx write.page.toNat).filter fun byte => record.Covers byte.2).map Prod.fst

/-- how the bytes of a record are to be split into writes of pages -/
structure Splits (record : Record) (writes : List Write) : Prop where
  ascending : writes.Pairwise fun first second => first.page < second.page
  pages : ∀ page, page ∈ writes.map Write.page ↔ record.Touches page.toNat
  covered : ∀ write ∈ writes, ∀ i (_ : i < pageSize) k (_ : k < record.data.length),
    write.page.toNat + i = record.address.toNat + k → write.data[i] = record.data[k]
  uncovered : ∀ write ∈ writes, ∀ i (_ : i < pageSize),
    ¬ record.Covers (write.page.toNat + i) → write.data[i] = erased
  /-- nothing of the record is lost, and nothing comes twice -/
  joined : writes.flatMap record.slice = record.data

/-! ## there is one split at most -/

variable {record : Record}

theorem Splits.eq_of_page_eq {writes writes' : List Write} (h : record.Splits writes)
    (h' : record.Splits writes') {write write' : Write} (hwrite : write ∈ writes)
    (hwrite' : write' ∈ writes') (hpage : write.page = write'.page) : write = write' := by
  have hdata : write.data = write'.data := by
    refine Vector.ext fun i hi => ?_
    by_cases hcovers : record.Covers (write.page.toNat + i)
    · obtain ⟨hle, hlt⟩ := hcovers
      have hk : write.page.toNat + i - record.address.toNat < record.data.length := by omega
      rw [h.covered write hwrite i hi _ hk (by omega),
        h'.covered write' hwrite' i hi _ hk (by rw [← hpage]; omega)]
    · rw [h.uncovered write hwrite i hi hcovers, h'.uncovered write' hwrite' i hi (hpage ▸ hcovers)]
  cases write
  cases write'
  cases hpage
  cases hdata
  rfl

theorem Splits.subset {writes writes' : List Write} (h : record.Splits writes)
    (h' : record.Splits writes') : writes ⊆ writes' := by
  intro write hwrite
  have htouches := (h.pages write.page).mp (List.mem_map_of_mem hwrite)
  obtain ⟨write', hwrite', hpage⟩ := List.mem_map.mp ((h'.pages write.page).mpr htouches)
  rw [h.eq_of_page_eq h' hwrite hwrite' hpage.symm]
  exact hwrite'

theorem Splits.unique {writes writes' : List Write} (h : record.Splits writes)
    (h' : record.Splits writes') : writes = writes' := by
  have : Std.Irrefl fun first second : Write => first.page < second.page :=
    ⟨fun write => UInt32.lt_irrefl write.page⟩
  have : Std.Antisymm fun first second : Write => first.page < second.page :=
    ⟨fun _ _ hlt hgt => absurd hgt (UInt32.lt_asymm hlt)⟩
  exact List.Subset.antisymm_of_pairwise h.ascending h'.ascending (h.subset h') (h'.subset h)

/-! ## the split of a record that stays in its region -/

theorem mem_touched_iff {page : Nat} :
    page ∈ touched record.address.toNat record.data.length ↔ record.Touches page := by
  rw [mem_touched]
  unfold Touches Covers
  constructor
  · rintro ⟨hmod, hpos, hlt, hgt⟩
    exact ⟨hmod, max page record.address.toNat, by omega, by omega, by omega⟩
  · rintro ⟨hmod, a, hcovers, hle, hlt⟩
    omega

theorem flatMap_range' (first count : Nat) :
    (List.range' first count 128).flatMap (fun page => List.range' page 128) =
      List.range' first (128 * count) := by
  induction count generalizing first with
  | zero => rfl
  | succ count ih =>
    rw [List.range'_succ, List.flatMap_cons, ih, List.range'_append_1, Nat.mul_succ,
      Nat.add_comm 128]

/-- the addresses that a record covers, out of a range that has them all -/
theorem filter_covers {first size : Nat} (hfirst : first ≤ record.address.toNat)
    (hsize : record.address.toNat + record.data.length ≤ first + size) :
    ((List.range' first size).filter fun a => record.Covers a) =
      List.range' record.address.toNat record.data.length := by
  obtain ⟨before, hbefore⟩ := Nat.exists_eq_add_of_le hfirst
  obtain ⟨after, hafter⟩ := Nat.exists_eq_add_of_le hsize
  have hsplit : List.range' first size = List.range' first before ++
      (List.range' record.address.toNat record.data.length ++
        List.range' (record.address.toNat + record.data.length) after) := by
    rw [List.range'_append_1, hbefore, List.range'_append_1]
    congr 1
    omega
  have hnone (start count : Nat) (h : ∀ a, start ≤ a → a < start + count → ¬ record.Covers a) :
      ((List.range' start count).filter fun a => record.Covers a) = [] := by
    rw [List.filter_eq_nil_iff]
    intro a ha
    obtain ⟨hle, hlt⟩ := List.mem_range'_1.mp ha
    simpa using h a hle hlt
  have hall : ((List.range' record.address.toNat record.data.length).filter
      fun a => record.Covers a) = List.range' record.address.toNat record.data.length := by
    rw [List.filter_eq_self]
    intro a ha
    exact decide_eq_true (List.mem_range'_1.mp ha)
  rw [hsplit, List.filter_append, List.filter_append, hall,
    hnone first before fun a _ hlt hcovers => Nat.not_le.mpr hlt (hbefore ▸ hcovers.1),
    hnone _ after fun a hle _ hcovers => Nat.not_lt.mpr hle hcovers.2]
  exact List.append_nil _

theorem map_byteAt (address : Nat) (data : List UInt8) :
    (List.range' address data.length).map (byteAt address data) = data := by
  refine List.ext_getElem (by simp) fun i hi hi' => ?_
  rw [List.getElem_map, List.getElem_range', Nat.one_mul, byteAt_add hi']

theorem slice_pageWrite {page : Nat} (hpage : page < 2 ^ 32) :
    record.slice (pageWrite record.address.toNat record.data page) =
      ((List.range' page 128).filter fun a => record.Covers a).map
        (byteAt record.address.toNat record.data) := by
  have hfirst : (pageWrite record.address.toNat record.data page).page.toNat = page := by
    show (UInt32.ofNat page).toNat = page
    rw [UInt32.toNat_ofNat', Nat.mod_eq_of_lt hpage]
  have hbytes : (pageView record.address.toNat record.data page).toList.zipIdx page =
      (List.range' page 128).map fun a => (byteAt record.address.toNat record.data a, a) := by
    refine List.ext_getElem ?_ fun i hi hi' => ?_
    · rw [List.length_zipIdx, length_pageView, List.length_map, List.length_range']
    · simp [pageView]
  unfold slice
  rw [hfirst]
  show ((((pageView _ _ _).toList.zipIdx page).filter _).map _) = _
  rw [hbytes, List.filter_map, List.map_map]
  rfl

theorem Fits.joined (h : record.Fits) : record.writes.flatMap record.slice = record.data := by
  have hslice : ∀ page ∈ touched record.address.toNat record.data.length,
      record.slice (pageWrite record.address.toNat record.data page) =
        ((List.range' page 128).filter fun a => record.Covers a).map
          (byteAt record.address.toNat record.data) := by
    intro page hpage
    have hregions := h.page_of_touched hpage
    unfold PageOfRegions at hregions
    exact slice_pageWrite (by omega)
  have hpos : record.data.length ≠ 0 := fun hzero => h.1 (List.length_eq_zero_iff.mp hzero)
  rw [h.writes_eq, List.flatMap_map, List.flatMap_congr hslice, ← List.map_flatMap,
    ← List.filter_flatMap, touched, if_neg hpos, flatMap_range',
    filter_covers (by omega) (by omega), map_byteAt]

theorem Fits.of_mem_writes (h : record.Fits) {write : Write} (hwrite : write ∈ record.writes) :
    record.Touches write.page.toNat ∧ ∀ i (hi : i < pageSize),
      write.data[i] = byteAt record.address.toNat record.data (write.page.toNat + i) := by
  rw [h.writes_eq] at hwrite
  obtain ⟨page, hpage, rfl⟩ := List.mem_map.mp hwrite
  have hfirst : (pageWrite record.address.toNat record.data page).page.toNat = page :=
    (h.page_of_touched hpage).toNat_ofNat
  rw [hfirst]
  exact ⟨mem_touched_iff.mp hpage, fun i hi => Vector.getElem_ofFn ..⟩

/-- **The writes of a record** that stays in its region split its bytes by pages. -/
theorem Fits.splits (h : record.Fits) : record.Splits record.writes where
  ascending := by
    have hpages : (touched record.address.toNat record.data.length).Pairwise (· < ·) := by
      unfold touched
      split
      · exact List.Pairwise.nil
      · exact List.pairwise_lt_range' _ (by decide)
    rw [h.writes_eq, List.pairwise_map]
    refine hpages.imp_of_mem fun hfirst hsecond hlt => ?_
    show UInt32.ofNat _ < UInt32.ofNat _
    rw [UInt32.lt_iff_toNat_lt, (h.page_of_touched hfirst).toNat_ofNat,
      (h.page_of_touched hsecond).toNat_ofNat]
    exact hlt
  pages page := by
    constructor
    · intro hpage
      obtain ⟨write, hwrite, rfl⟩ := List.mem_map.mp hpage
      exact (h.of_mem_writes hwrite).1
    · intro htouches
      rw [h.writes_eq, List.map_map]
      exact List.mem_map.mpr ⟨page.toNat, mem_touched_iff.mpr htouches, UInt32.ofNat_toNat⟩
  covered write hwrite i hi k hk haddress := by
    rw [(h.of_mem_writes hwrite).2 i hi, haddress, byteAt_add hk]
  uncovered write hwrite i hi hcovers := by
    rw [(h.of_mem_writes hwrite).2 i hi]
    by_cases hle : record.address.toNat ≤ write.page.toNat + i
    · exact byteAt_of_ge (Nat.le_of_not_lt fun hlt => hcovers ⟨hle, hlt⟩)
    · exact byteAt_of_lt _ (Nat.lt_of_not_le hle)
  joined := h.joined

end Record

/-! ## the split of an image -/

/-- the writes of records come from those that start in a region -/
theorem flatMap_writes (records : List Record) :
    records.flatMap Record.writes =
      ((records.filter fun record => decide record.Placed).map Record.writes).flatten := by
  induction records with
  | nil => rfl
  | cons record records ih =>
    rw [List.flatMap_cons, ih]
    by_cases hplaced : record.Placed
    · rw [List.filter_cons_of_pos (by simpa using hplaced)]
      rfl
    · rw [List.filter_cons_of_neg (by simpa using hplaced), Record.writes, if_neg hplaced,
        List.nil_append]

/-- **A plan is the page split of its image.**  Record after record of those that start in a region,
it has one write for each page that the record touches, in order; the records that start outside
are counted. -/
theorem Plan.splits_pages {records : List Record} {plan : Plan} (hlen : Bounded records)
    (hplan : Plan.of? records = .ok plan) :
    (∃! parts : List (List Write),
      List.Forall₂ Record.Splits (records.filter fun record => decide record.Placed) parts ∧
        plan.writes = parts.flatten) ∧
    plan.skipped = records.countP fun record => decide record.Outside := by
  have hok := (of?_eq_ok hlen hplan).2
  have hsplits : List.Forall₂ Record.Splits (records.filter fun record => decide record.Placed)
      ((records.filter fun record => decide record.Placed).map Record.writes) := by
    rw [List.forall₂_map_right_iff, List.forall₂_same]
    intro record hrecord
    obtain ⟨hmem, hplaced⟩ := List.mem_filter.mp hrecord
    exact (fits_of_placed hlen hplan hmem (of_decide_eq_true hplaced)).splits
  have hwrites : plan.writes =
      ((records.filter fun record => decide record.Placed).map Record.writes).flatten := by
    rw [hok]
    exact flatMap_writes records
  have hunique : Relator.RightUnique Record.Splits := fun _ _ _ h h' => h.unique h'
  exact ⟨⟨_, ⟨hsplits, hwrites⟩, fun parts hparts => hunique.forall₂ hparts.1 hsplits⟩, by rw [hok]⟩

/-- a record on either side of a page boundary, one without data, and one for the bootloader -/
theorem Plan.splits_pages_straddling :
    let records : List Record := [⟨0x1C7E, [1, 2, 3, 4]⟩, ⟨0x1C00, []⟩, ⟨0x0400, [5]⟩]
    let plan : Plan := ⟨[⟨0x1C00, pageContents 126 [1, 2]⟩, ⟨0x1C80, pageContents 0 [3, 4]⟩], 1⟩
    Bounded records ∧ Plan.of? records = .ok plan ∧
      (∃! parts : List (List Write),
        List.Forall₂ Record.Splits (records.filter fun record => decide record.Placed) parts ∧
          plan.writes = parts.flatten) ∧
      plan.skipped = records.countP fun record => decide record.Outside := by
  intro records plan
  have hlen : Bounded records := by simp [Bounded, records]
  have hwrites : writesOf 0x1C7E [1, 2, 3, 4] =
      [⟨0x1C00, pageContents 126 [1, 2]⟩, ⟨0x1C80, pageContents 0 [3, 4]⟩] := by cbv
  have hplan : Plan.of? records = .ok plan :=
    congrArg (fun writes => Except.ok (Plan.mk writes 1)) hwrites
  exact ⟨hlen, hplan, Plan.splits_pages hlen hplan⟩

end CameraPower.Flash
