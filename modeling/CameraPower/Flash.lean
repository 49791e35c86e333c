/-!
# The controller's flash

Flash is erased and programmed in pages of 128 bytes.  Images carry byte addresses; the controller
takes word addresses, two bytes to a word.

    0x0000 ..= 0x03FF   interrupt vectors   rewritten by an update
    0x0400 ..= 0x1BFF   bootloader          never touched
    0x1C00 ..= 0x57FF   application         rewritten by an update
-/

namespace CameraPower.Flash

/-- bytes of a page -/
def pageSize : Nat := 128

/-- the value of an erased byte -/
def erased : UInt8 := 0xFF

/-! ## addresses -/

def wordAddress (address : UInt32) : UInt32 :=
  address >>> 1

/-- where the page of a byte address starts -/
def pageBase (address : UInt32) : UInt32 :=
  address &&& ~~~127

/-- how far into its page a byte address is -/
def pageOffset (address : UInt32) : Nat :=
  (address &&& 127).toNat

theorem pageOffset_eq_mod (address : UInt32) : pageOffset address = address.toNat % pageSize := by
  simp only [pageOffset, UInt32.toNat_and]
  exact Nat.and_two_pow_sub_one_eq_mod address.toNat 7

theorem pageOffset_lt (address : UInt32) : pageOffset address < pageSize := by
  rw [pageOffset_eq_mod]
  exact Nat.mod_lt _ (by decide)

/-! ## regions -/

/-- an inclusive range of byte addresses -/
structure Region where
  name : String
  first : UInt32
  last : UInt32
  deriving DecidableEq, Repr

def vectors : Region := ⟨"IVT", 0x0000, 0x03FF⟩

def application : Region := ⟨"application", 0x1C00, 0x57FF⟩

/-- the regions that an update erases and programs, in this order -/
def regions : List Region := [vectors, application]

namespace Region

def contains (region : Region) (address : UInt32) : Bool :=
  region.first ≤ address && address ≤ region.last

def pageCount (region : Region) : Nat :=
  (region.last - region.first + 1).toNat / pageSize

/-- where the pages of a region start -/
def pages (region : Region) : List UInt32 :=
  (List.range region.pageCount).map fun i => region.first + UInt32.ofNat (i * pageSize)

end Region

/-- the region of an address, if an update may write there -/
def regionOf? (address : UInt32) : Option Region :=
  regions.find? (·.contains address)

/-- the pages that an update erases, in order -/
def erasedPages : List UInt32 :=
  regions.flatMap Region.pages

/-! ## images -/

/-- bytes of an image and the address of the first of them -/
structure Record where
  address : UInt32
  data : List UInt8
  deriving DecidableEq, Repr

/-- the address of a record's last byte -/
def Record.lastAddress (record : Record) : UInt32 :=
  record.address + UInt32.ofNat (record.data.length - 1)

end CameraPower.Flash
