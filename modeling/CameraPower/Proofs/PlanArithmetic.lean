import CameraPower.Proofs.PlanOutcome

/-!
# Planning in machine words

The addresses of a plan are 32-bit words, and its chunks are cut out by index.  Here each of these
operations has no result where it would leave its range, and the loop over the pages of a record
has a number of rounds that it may take.  Planning an image of `Bounded` records never gets there.

* `add?`, `sub?`, `addSize?`, `subSize?`  sums and differences of words and of sizes;
* `slice?`, `splice?`                     bytes cut out of a list, and put into a page;
* `round?`, `pages?`                      one round of the loop over pages, and the loop;
* `Plan.checked?`                         the plan of an image in such steps;
* `Plan.checked?_eq`                      it is `Plan.of?`.
-/

namespace CameraPower.Flash

/-! ## operations that may leave their range -/

def add? (a b : UInt32) : Option UInt32 :=
  if a.toNat + b.toNat < 2 ^ 32 then some (a + b) else none

def sub? (a b : UInt32) : Option UInt32 :=
  if b ≤ a then some (a - b) else none

/-- a sum of sizes, on a machine whose sizes are words of 32 bits -/
def addSize? (a b : Nat) : Option Nat :=
  if a + b < 2 ^ 32 then some (a + b) else none

def subSize? (a b : Nat) : Option Nat :=
  if b ≤ a then some (a - b) else none

def slice? (bytes : List UInt8) (first behind : Nat) : Option (List UInt8) :=
  if first ≤ behind ∧ behind ≤ bytes.length then some ((bytes.drop first).take (behind - first))
  else none

/-- an erased page with bytes from index `first` up to index `behind` -/
def splice? (first behind : Nat) (chunk : List UInt8) : Option (Vector UInt8 pageSize) :=
  if first ≤ behind ∧ behind ≤ pageSize ∧ chunk.length = behind - first then
    some (Vector.ofFn fun i => if first ≤ i.val then chunk.getD (i.val - first) erased else erased)
  else none

theorem add?_of_lt {a b : UInt32} (h : a.toNat + b.toNat < 2 ^ 32) : add? a b = some (a + b) :=
  if_pos h

theorem sub?_of_le {a b : UInt32} (h : b.toNat ≤ a.toNat) : sub? a b = some (a - b) :=
  if_pos (UInt32.le_iff_toNat_le.mpr h)

theorem addSize?_of_lt {a b : Nat} (h : a + b < 2 ^ 32) : addSize? a b = some (a + b) :=
  if_pos h

theorem subSize?_of_le {a b : Nat} (h : b ≤ a) : subSize? a b = some (a - b) :=
  if_pos h

theorem slice?_of_le {bytes : List UInt8} {first size : Nat} (h : first + size ≤ bytes.length) :
    slice? bytes first (first + size) = some ((bytes.drop first).take size) := by
  unfold slice?
  rw [if_pos ⟨Nat.le_add_right .., h⟩, Nat.add_sub_cancel_left]

theorem splice?_of_le {first : Nat} {chunk : List UInt8} (h : first + chunk.length ≤ pageSize) :
    splice? first (first + chunk.length) chunk = some (pageContents first chunk) := by
  unfold splice?
  rw [if_pos ⟨Nat.le_add_right .., h, (Nat.add_sub_cancel_left ..).symm⟩]
  refine congrArg some (Vector.ext fun i hi => ?_)
  rw [Vector.getElem_ofFn, getElem_pageContents]
  rfl

/-! ## the loop over the pages of a record -/

/-- one round at an offset into the record: its write, and the next offset -/
def round? (record : Record) (offset : Nat) : Option (Write × Nat) := do
  let address ← add? record.address (UInt32.ofNat offset)
  let page := pageBase address
  let inPage := (← sub? address page).toNat
  let size := min (← subSize? pageSize inPage) (← subSize? record.data.length offset)
  let next ← addSize? offset size
  let chunk ← slice? record.data offset next
  let contents ← splice? inPage (← addSize? inPage size) chunk
  some (⟨page, contents⟩, next)

/-- the writes of a record from an offset on, in no more than `rounds` rounds -/
def pages? (record : Record) (rounds offset : Nat) : Option (List Write) :=
  if offset < record.data.length then
    match rounds with
    | 0 => none
    | rounds + 1 => do
      let (write, next) ← round? record offset
      let rest ← pages? record rounds next
      some (write :: rest)
  else some []

theorem toNat_sub_pageBase (address : UInt32) :
    (address - pageBase address).toNat = address.toNat % 128 := by
  have hle : pageBase address ≤ address := by
    rw [UInt32.le_iff_toNat_le, toNat_pageBase]
    omega
  rw [UInt32.toNat_sub_of_le _ _ hle, toNat_pageBase]
  omega

/-- the writes of bytes that are left, after as many of them as go into their first page -/
theorem writesOf_step {address : UInt32} {data : List UInt8} (hne : data ≠ []) {size : Nat}
    (hsize : size = min (pageSize - pageOffset address) data.length) :
    writesOf address data = ⟨pageBase address, pageContents (pageOffset address) (data.take size)⟩ ::
      writesOf (address + UInt32.ofNat size) (data.drop size) := by
  have htake : data.take (pageSize - pageOffset address) = data.take size := by
    rw [List.take_eq_take_iff]
    omega
  have hdrop : data.drop (pageSize - pageOffset address) = data.drop size := by
    by_cases h : data.length ≤ pageSize - pageOffset address
    · rw [List.drop_eq_nil_of_le h, List.drop_eq_nil_of_le (show data.length ≤ size by omega)]
    · rw [show pageSize - pageOffset address = size by omega]
  rw [writesOf, dif_neg hne]
  show (⟨_, pageContents _ (data.take (pageSize - pageOffset address))⟩ : Write) ::
    writesOf (address + UInt32.ofNat (min (pageSize - pageOffset address) data.length))
      (data.drop (pageSize - pageOffset address)) = _
  rw [htake, hdrop, ← hsize]

/-- A round stays in its ranges, and makes the first write of the bytes that are left. -/
theorem round?_eq {record : Record} {offset : Nat} (hlt : offset < record.data.length)
    (hend : record.address.toNat + record.data.length < 2 ^ 32) :
    ∃ size write, 0 < size ∧ offset + size ≤ record.data.length ∧
      round? record offset = some (write, offset + size) ∧
      writesOf (record.address + UInt32.ofNat offset) (record.data.drop offset) =
        write :: writesOf (record.address + UInt32.ofNat (offset + size))
          (record.data.drop (offset + size)) := by
  have hoffset : (UInt32.ofNat offset).toNat = offset := by
    rw [UInt32.toNat_ofNat', Nat.mod_eq_of_lt (show offset < 2 ^ 32 by omega)]
  let address := record.address + UInt32.ofNat offset
  let inPage := pageOffset address
  let size := min (pageSize - inPage) (record.data.length - offset)
  let chunk := (record.data.drop offset).take size
  have hinPage : inPage < pageSize := pageOffset_lt address
  have hpage : pageSize = 128 := rfl
  have hlength : chunk.length = size := by
    rw [List.length_take, List.length_drop]
    omega
  -- the operations of a round, in order
  have haddress : add? record.address (UInt32.ofNat offset) = some address :=
    add?_of_lt (by omega)
  have hbase : sub? address (pageBase address) = some (address - pageBase address) := by
    refine sub?_of_le ?_
    rw [toNat_pageBase]
    omega
  have hdifference : (address - pageBase address).toNat = inPage := by
    rw [toNat_sub_pageBase]
    exact (pageOffset_eq_mod address).symm
  have hroom : subSize? pageSize inPage = some (pageSize - inPage) := subSize?_of_le (Nat.le_of_lt hinPage)
  have hleft : subSize? record.data.length offset = some (record.data.length - offset) :=
    subSize?_of_le (Nat.le_of_lt hlt)
  have hnext : addSize? offset size = some (offset + size) := addSize?_of_lt (by omega)
  have hchunk : slice? record.data offset (offset + size) = some chunk := slice?_of_le (by omega)
  have hbehind : addSize? inPage size = some (inPage + size) := addSize?_of_lt (by omega)
  have hcontents : splice? inPage (inPage + size) chunk = some (pageContents inPage chunk) := by
    rw [← hlength]
    exact splice?_of_le (by omega)
  refine ⟨size, ⟨pageBase address, pageContents inPage chunk⟩, by omega, by omega, ?_, ?_⟩
  · unfold round?
    rw [haddress]
    simp only [Option.bind_eq_bind, Option.bind_some, hbase, hdifference, hroom, hleft]
    show (addSize? offset size).bind _ = _
    rw [hnext, Option.bind_some, hchunk, Option.bind_some]
    show (addSize? inPage size).bind _ = _
    rw [hbehind, Option.bind_some, hcontents, Option.bind_some]
  · have hne : record.data.drop offset ≠ [] := by
      rw [Ne, List.drop_eq_nil_iff]
      omega
    have hsize : size = min (pageSize - pageOffset address) (record.data.drop offset).length := by
      rw [List.length_drop]
    rw [writesOf_step hne hsize, List.drop_drop, UInt32.add_assoc, ← UInt32.ofNat_add]

/-- The loop is done after one round a byte at the latest: from any offset on it makes the writes
of the bytes that are left. -/
theorem pages?_eq {record : Record} (hend : record.address.toNat + record.data.length < 2 ^ 32)
    (rounds : Nat) {offset : Nat} (hoffset : offset ≤ record.data.length)
    (hrounds : record.data.length ≤ offset + rounds) :
    pages? record rounds offset =
      some (writesOf (record.address + UInt32.ofNat offset) (record.data.drop offset)) := by
  -- every round takes at least one byte, so the rounds last as long as the bytes
  induction rounds generalizing offset with
  | zero =>
    have hnil : record.data.drop offset = [] := List.drop_eq_nil_of_le (by omega)
    rw [pages?, if_neg (by omega), hnil, writesOf, dif_pos rfl]
  | succ rounds ih =>
    rw [pages?]
    by_cases hlt : offset < record.data.length
    · obtain ⟨size, write, hpos, hle, hround, hwrites⟩ := round?_eq hlt hend
      rw [if_pos hlt, hround, hwrites]
      show (pages? record rounds (offset + size)).bind _ = _
      rw [ih hle (by omega), Option.bind_some]
    · have hnil : record.data.drop offset = [] := List.drop_eq_nil_of_le (by omega)
      rw [if_neg hlt, hnil, writesOf, dif_pos rfl]

/-! ## a whole image -/

def Record.lastAddress? (record : Record) : Option UInt32 :=
  add? record.address (UInt32.ofNat (record.data.length - 1))

namespace Plan

def addChecked? (plan : Plan) (record : Record) : Option (Except Error Plan) :=
  if record.data = [] then some (.ok plan)
  else
    match regionOf? record.address with
    | none => some (.ok { plan with skipped := plan.skipped + 1 })
    | some region => do
      if (← record.lastAddress?) > region.last then
        some (.error (.firmware
          (.pastRegion record.address record.data.length region.name region.last)))
      else
        let writes ← pages? record record.data.length 0
        some (.ok { plan with writes := plan.writes ++ writes })

def addAllChecked? : Plan → List Record → Option (Except Error Plan)
  | plan, [] => some (.ok plan)
  | plan, record :: records =>
    match addChecked? plan record with
    | none => none
    | some (.error error) => some (.error error)
    | some (.ok plan) => addAllChecked? plan records

/-- the plan of an image, unless an operation leaves its range or a loop does not end -/
def checked? (records : List Record) : Option (Except Error Plan) :=
  addAllChecked? {} records

theorem addChecked?_eq (plan : Plan) {record : Record} (hlen : record.data.length < 2 ^ 31) :
    plan.addChecked? record = some (plan.add record) := by
  unfold addChecked? add
  by_cases hne : record.data = []
  · rw [if_pos hne, if_pos hne]
  · rw [if_neg hne, if_neg hne]
    cases hregion : regionOf? record.address with
    | none => rfl
    | some region =>
      have hin : InRegion record.address.toNat := (record.overruns_iff_last hlen hne hregion).1
      have hbelow : record.address.toNat ≤ 0x57FF := by
        unfold InRegion at hin
        omega
      have hword : (UInt32.ofNat (record.data.length - 1)).toNat = record.data.length - 1 := by
        rw [UInt32.toNat_ofNat', Nat.mod_eq_of_lt (by omega)]
      have hlast : record.lastAddress? = some record.lastAddress := add?_of_lt (by omega)
      have hpages : pages? record record.data.length 0 =
          some (writesOf record.address record.data) := by
        rw [pages?_eq (by omega) _ (Nat.zero_le _) (by omega), List.drop_zero]
        rw [show UInt32.ofNat 0 = 0 from rfl, UInt32.add_zero]
      show record.lastAddress?.bind _ = _
      rw [hlast, Option.bind_some]
      by_cases hover : record.lastAddress > region.last
      · rw [if_pos hover]
        exact congrArg some (if_pos hover).symm
      · rw [if_neg hover, hpages]
        exact congrArg some (if_neg hover).symm

theorem addAllChecked?_eq {records : List Record} (h : Bounded records) (plan : Plan) :
    addAllChecked? plan records = some (records.foldlM add plan) := by
  induction records generalizing plan with
  | nil => rfl
  | cons record records ih =>
    have hrest : Bounded records := fun other hother => h other (List.mem_cons_of_mem _ hother)
    rw [addAllChecked?, addChecked?_eq plan (h record (List.mem_cons_self ..)), List.foldlM_cons]
    cases plan.add record with
    | error error => rfl
    | ok plan => exact ih hrest plan

/-- **Planning stays in its ranges and comes to an end.** -/
theorem checked?_eq {records : List Record} (h : Bounded records) :
    checked? records = some (of? records) :=
  addAllChecked?_eq h {}

end Plan
end CameraPower.Flash
