import CameraPower.Proofs.PlanOutcome

/-!
# Flash memory

What erasing and programming make of a memory, byte by byte.  Erasing sets all bits of a page;
programming can clear bits and not set them.

* `Memory.erase`, `Memory.program`  one page erased, bytes programmed;
* `foldl_erase`                     a byte after pages were erased;
* `foldl_pageWrite`                 a byte after the writes of a run of bytes;
* `foldl_records`                   a byte after the writes of records;
* `foldl_byte_of_covers`            what records that do not overlap put at an address.
-/

namespace CameraPower.Flash

/-- the contents of a flash, by byte address -/
abbrev Memory := Nat → UInt8

namespace Memory

/-- the page that starts at `first`, erased -/
def erase (memory : Memory) (first : Nat) : Memory := fun a =>
  if first ≤ a ∧ a < first + 128 then erased else memory a

/-- bytes programmed from `first` on: each bit stays set where it was and is to be -/
def program (memory : Memory) (first : Nat) (data : List UInt8) : Memory := fun a =>
  if first ≤ a ∧ a < first + data.length then memory a &&& data.getD (a - first) erased else memory a

def write (memory : Memory) (write : Write) : Memory :=
  memory.program write.page.toNat write.data.toList

end Memory

/-! ## erased bytes -/

@[simp] theorem and_erased (byte : UInt8) : byte &&& erased = byte :=
  UInt8.and_neg_one

@[simp] theorem erased_and (byte : UInt8) : erased &&& byte = byte := by
  rw [UInt8.and_comm, and_erased]

theorem foldl_erase (pages : List Nat) (memory : Memory) (a : Nat) :
    pages.foldl Memory.erase memory a =
      if ∃ page ∈ pages, page ≤ a ∧ a < page + 128 then erased else memory a := by
  induction pages generalizing memory with
  | nil => simp
  | cons page pages ih =>
    rw [List.foldl_cons, ih]
    simp only [List.mem_cons, exists_eq_or_imp]
    unfold Memory.erase
    by_cases hlater : ∃ page ∈ pages, page ≤ a ∧ a < page + 128
    · rw [if_pos hlater, if_pos (Or.inr hlater)]
    · by_cases hfirst : page ≤ a ∧ a < page + 128
      · rw [if_neg hlater, if_pos hfirst, if_pos (Or.inl hfirst)]
      · rw [if_neg hlater, if_neg hfirst, if_neg fun h => h.elim hfirst hlater]

theorem exists_pageOfRegions {a : Nat} :
    (∃ page, PageOfRegions page ∧ page ≤ a ∧ a < page + 128) ↔ InRegion a := by
  unfold PageOfRegions InRegion
  constructor
  · rintro ⟨page, hpage, hle, hlt⟩
    omega
  · intro h
    exact ⟨a / 128 * 128, by omega, by omega, by omega⟩

theorem foldl_erase_pagesInOrder (memory : Memory) (a : Nat) :
    (pagesInOrder.map UInt32.toNat).foldl Memory.erase memory a =
      if InRegion a then erased else memory a := by
  have hpages : (∃ page ∈ pagesInOrder.map UInt32.toNat, page ≤ a ∧ a < page + 128) ↔ InRegion a := by
    rw [← exists_pageOfRegions]
    constructor
    · rintro ⟨page, hmem, hcovers⟩
      obtain ⟨word, hword, rfl⟩ := List.mem_map.mp hmem
      exact ⟨word.toNat, mem_pagesInOrder.mp hword, hcovers⟩
    · rintro ⟨page, hpage, hcovers⟩
      have hword : UInt32.ofNat page ∈ pagesInOrder := by
        rw [mem_pagesInOrder, hpage.toNat_ofNat]
        exact hpage
      exact ⟨page, List.mem_map.mpr ⟨_, hword, hpage.toNat_ofNat⟩, hcovers⟩
  rw [foldl_erase]
  simp only [hpages]

/-! ## programmed bytes -/

theorem length_pageView (address : Nat) (data : List UInt8) (page : Nat) :
    (pageView address data page).toList.length = 128 :=
  Vector.length_toList

theorem getD_pageView {address page i : Nat} {data : List UInt8} (h : i < 128) :
    (pageView address data page).toList.getD i erased = byteAt address data (page + i) := by
  have hi : i < (pageView address data page).toList.length := by
    rw [length_pageView]
    exact h
  rw [List.getD_eq_getElem _ _ hi, Vector.getElem_toList]
  exact Vector.getElem_ofFn ..

theorem write_pageWrite (memory : Memory) {address page : Nat} {data : List UInt8}
    (hpage : page < 2 ^ 32) (a : Nat) :
    memory.write (pageWrite address data page) a =
      if page ≤ a ∧ a < page + 128 then memory a &&& byteAt address data a else memory a := by
  have hfirst : (pageWrite address data page).page.toNat = page := by
    show (UInt32.ofNat page).toNat = page
    rw [UInt32.toNat_ofNat', Nat.mod_eq_of_lt hpage]
  have hdata : (pageWrite address data page).data = pageView address data page := rfl
  unfold Memory.write Memory.program
  rw [hfirst, hdata, length_pageView]
  by_cases h : page ≤ a ∧ a < page + 128
  · have e : page + (a - page) = a := by omega
    rw [if_pos h, if_pos h, getD_pageView (by omega), e]
  · rw [if_neg h, if_neg h]

theorem and_and_self (a b : UInt8) : a &&& b &&& b = a &&& b := by
  rw [UInt8.and_assoc, UInt8.and_self]

/-- a byte after the writes of some pages of a run of bytes, however often they are written -/
theorem foldl_pageWrite (memory : Memory) (address : Nat) (data : List UInt8) {pages : List Nat}
    (hpages : ∀ page ∈ pages, page < 2 ^ 32) (a : Nat) :
    (pages.map (pageWrite address data)).foldl Memory.write memory a =
      if ∃ page ∈ pages, page ≤ a ∧ a < page + 128 then memory a &&& byteAt address data a
      else memory a := by
  induction pages generalizing memory with
  | nil => simp
  | cons page pages ih =>
    obtain ⟨hpage, hrest⟩ := List.forall_mem_cons.mp hpages
    rw [List.map_cons, List.foldl_cons, ih _ hrest, write_pageWrite memory hpage]
    simp only [List.mem_cons, exists_eq_or_imp]
    by_cases hfirst : page ≤ a ∧ a < page + 128
    · rw [if_pos hfirst, if_pos (Or.inl hfirst), and_and_self, ite_self]
    · simp only [hfirst, if_false, false_or]

/-- what a record puts at an address, an erased byte where it puts nothing -/
def Record.byte (record : Record) (a : Nat) : UInt8 :=
  if record.Placed then byteAt record.address.toNat record.data a else erased

theorem foldl_record (memory : Memory) {record : Record} (h : record.Placed → record.Fits) (a : Nat) :
    record.writes.foldl Memory.write memory a = memory a &&& record.byte a := by
  unfold Record.byte
  by_cases hplaced : record.Placed
  · have hfits := h hplaced
    have hpages : ∀ page ∈ touched record.address.toNat record.data.length, page < 2 ^ 32 := by
      intro page hpage
      have hregions := hfits.page_of_touched hpage
      unfold PageOfRegions at hregions
      omega
    rw [hfits.writes_eq, foldl_pageWrite memory _ _ hpages, if_pos hplaced]
    by_cases hcovered : ∃ page ∈ touched record.address.toNat record.data.length,
        page ≤ a ∧ a < page + 128
    · rw [if_pos hcovered]
    · -- the page of an address that the record covers would be touched
      have hbyte : byteAt record.address.toNat record.data a = erased := by
        by_cases hle : record.address.toNat ≤ a
        · refine byteAt_of_ge (Nat.le_of_not_lt fun hlt => hcovered ?_)
          exact ⟨a / 128 * 128, mem_touched.mpr ⟨by omega, by omega, by omega, by omega⟩, by omega,
            by omega⟩
        · exact byteAt_of_lt _ (Nat.lt_of_not_le hle)
      rw [if_neg hcovered, hbyte, and_erased]
  · rw [Record.writes, if_neg hplaced, if_neg hplaced, and_erased]
    rfl

theorem foldl_records (memory : Memory) {records : List Record}
    (h : ∀ record ∈ records, record.Placed → record.Fits) (a : Nat) :
    (records.flatMap Record.writes).foldl Memory.write memory a =
      records.foldl (fun byte record => byte &&& record.byte a) (memory a) := by
  induction records generalizing memory with
  | nil => rfl
  | cons record records ih =>
    obtain ⟨hfirst, hrest⟩ := List.forall_mem_cons.mp h
    rw [List.flatMap_cons, List.foldl_append, ih _ hrest, List.foldl_cons, foldl_record _ hfirst]

/-! ## records that do not overlap -/

/-- a record has a byte for an address -/
def Record.Covers (record : Record) (a : Nat) : Prop :=
  record.address.toNat ≤ a ∧ a < record.address.toNat + record.data.length

theorem Record.Fits.inRegion_of_covers {record : Record} (h : record.Fits) {a : Nat}
    (hcovers : record.Covers a) : InRegion a := by
  unfold Record.Fits at h
  unfold Record.Covers at hcovers
  unfold InRegion
  omega

/-- two records, if both start in a region, have no address in common -/
def Record.Apart (first second : Record) : Prop :=
  first.Placed → second.Placed → ∀ a, ¬ (first.Covers a ∧ second.Covers a)

/-- a record that does not cover an address puts nothing there -/
theorem Record.byte_of_not_covers {record : Record} {a : Nat}
    (h : record.Placed → ¬ record.Covers a) : record.byte a = erased := by
  unfold Record.byte
  by_cases hplaced : record.Placed
  · rw [if_pos hplaced]
    by_cases hle : record.address.toNat ≤ a
    · exact byteAt_of_ge (Nat.le_of_not_lt fun hlt => h hplaced ⟨hle, hlt⟩)
    · exact byteAt_of_lt _ (Nat.lt_of_not_le hle)
  · rw [if_neg hplaced]

theorem foldl_byte_of_not_covers {records : List Record} {a : Nat}
    (h : ∀ record ∈ records, record.Placed → ¬ record.Covers a) (byte : UInt8) :
    records.foldl (fun byte record => byte &&& record.byte a) byte = byte := by
  induction records generalizing byte with
  | nil => rfl
  | cons record records ih =>
    obtain ⟨hfirst, hrest⟩ := List.forall_mem_cons.mp h
    rw [List.foldl_cons, Record.byte_of_not_covers hfirst, and_erased]
    exact ih hrest byte

/-- records that do not overlap put at an address what the one that covers it puts there -/
theorem foldl_byte_of_covers {records : List Record} (hapart : records.Pairwise Record.Apart)
    {record : Record} (hmem : record ∈ records) (hplaced : record.Placed) {a : Nat}
    (hcovers : record.Covers a) (byte : UInt8) :
    records.foldl (fun byte record => byte &&& record.byte a) byte =
      byte &&& byteAt record.address.toNat record.data a := by
  -- the records before and after this one put nothing at `a`
  obtain ⟨before, after, rfl⟩ := List.append_of_mem hmem
  obtain ⟨-, hafter, hbefore⟩ := List.pairwise_append.mp hapart
  have hnotBefore : ∀ other ∈ before, other.Placed → ¬ other.Covers a := by
    intro other hother hp hc
    exact hbefore other hother record (List.mem_cons_self ..) hp hplaced a ⟨hc, hcovers⟩
  have hnotAfter : ∀ other ∈ after, other.Placed → ¬ other.Covers a := by
    intro other hother hp hc
    exact (List.pairwise_cons.mp hafter).1 other hother hplaced hp a ⟨hcovers, hc⟩
  rw [List.foldl_append, foldl_byte_of_not_covers hnotBefore, List.foldl_cons,
    foldl_byte_of_not_covers hnotAfter, Record.byte, if_pos hplaced]

end CameraPower.Flash
