import CameraPower.Error
import CameraPower.Flash

/-!
# From an image to page writes

Every record becomes one write for each page it touches.  The bytes of a page that the record does
not cover are sent as erased, which leaves what is already programmed there as it is.  Records
that start outside the regions of an update are skipped and counted; one that starts inside a
region and runs past its end makes the whole image unfit.

* `Write`      a page and its contents;
* `writesOf`   the writes of a run of bytes;
* `Plan.of?`   the plan of an image.
-/

namespace CameraPower.Flash

/-- the full contents of one page -/
structure Write where
  page : UInt32
  data : Vector UInt8 pageSize
  deriving DecidableEq, Repr

/-- where the controller is told to write -/
def Write.word (write : Write) : UInt32 :=
  wordAddress write.page

/-- A page that is erased but for `chunk` at `offset`; what does not fit is cut off. -/
def pageContents (offset : Nat) (chunk : List UInt8) : Vector UInt8 pageSize :=
  let covered := (List.replicate offset erased ++ chunk).take pageSize
  ⟨(covered ++ List.replicate (pageSize - covered.length) erased).toArray, by
    have : covered.length ≤ pageSize := List.length_take_le ..
    simp; omega⟩

/-- the writes of bytes that start at an address, one for each page they touch -/
def writesOf (address : UInt32) (data : List UInt8) : List Write :=
  if _ : data = [] then []
  else
    let offset := pageOffset address
    let size := pageSize - offset
    ⟨pageBase address, pageContents offset (data.take size)⟩ ::
      writesOf (address + UInt32.ofNat (min size data.length)) (data.drop size)
termination_by data.length
decreasing_by
  have := pageOffset_lt address
  have : 0 < data.length := List.length_pos_iff.mpr ‹data ≠ []›
  simp only [List.length_drop]
  omega

/-- page writes in the order of the image, and the number of records left out -/
structure Plan where
  writes : List Write := []
  skipped : Nat := 0
  deriving DecidableEq, Repr

namespace Plan

/-- takes one record into a plan -/
def add (plan : Plan) (record : Record) : Except Error Plan :=
  if record.data = [] then .ok plan
  else
    match regionOf? record.address with
    | none => .ok { plan with skipped := plan.skipped + 1 }
    | some region =>
      if record.lastAddress > region.last then
        .error (.firmware
          (.pastRegion record.address record.data.length region.name region.last))
      else .ok { plan with writes := plan.writes ++ writesOf record.address record.data }

/-- the plan of an image, unless one of its records runs past its region -/
def of? (records : List Record) : Except Error Plan :=
  records.foldlM add {}

end Plan
end CameraPower.Flash
