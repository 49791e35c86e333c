import CameraPower.Proofs.HexFormat
import CameraPower.Proofs.TrimmedText

/-!
# Records that are printed are read back

Printing and reading meet at `Complete`: the lines that records are printed as are lines of the
format, wherever blanks stand around them, and what they describe are the records.

* `Line.bytes`        the bytes of a line, with the checksum they need;
* `printed`           the lines that records are printed as;
* `Row`, `Shows`      a text that shows lines;
* `complete_of_shows` such a text has these lines, and no others are read;
* `reads_printed`     records that are printed are read back.
-/

namespace CameraPower.IntelHex

open Flash (Record)
open Text (trim_cons trim_append trimEnd_blank)

/-! ## printing -/

/-- bytes with one more that makes their sum zero -/
def summed (bytes : List UInt8) : List UInt8 :=
  bytes ++ [0 - bytes.foldl (· + ·) 0]

def Line.bytes (line : Line) : List UInt8 :=
  summed (UInt8.ofNat line.data.length :: Words.bigEndian line.offset ++ line.type :: line.data)

/-- the half of an address that a base is for -/
def upper (record : Record) : UInt16 :=
  (record.address >>> 16).toUInt16

def addressLine (upper : UInt16) : Line :=
  ⟨0, 0x04, Words.bigEndian upper⟩

def dataLine (record : Record) : Line :=
  ⟨record.address.toUInt16, 0x00, record.data⟩

def endLine : Line :=
  ⟨0, 0x01, []⟩

/-- The lines that records are printed as.  An address line stands in front of each record that the
base in force is not for. -/
def printed (base : UInt16) : List Record → List Line
  | [] => []
  | record :: rest =>
    (if upper record = base then [] else [addressLine (upper record)]) ++
      dataLine record :: printed (upper record) rest

/-! ## what is printed -/

theorem toNat_upper (record : Record) : (upper record).toNat = record.address.toNat / 65536 := by
  have haddress := record.address.toNat_lt
  rw [upper, UInt32.toNat_toUInt16, UInt32.toNat_shiftRight]
  show record.address.toNat >>> 16 % 65536 = record.address.toNat / 65536
  rw [Nat.shiftRight_eq_div_pow]
  omega

theorem value_bigEndian (word : UInt16) : value (Words.bigEndian word) = word.toNat := by
  rw [← congrArg UInt16.toNat (Words.ofBigEndian_bigEndian word), Words.toNat_ofBigEndian]
  simp [value, Words.bigEndian]

theorem described_printed {records : List Record} (hdata : ∀ record ∈ records, record.data ≠ [])
    (base : UInt16) :
    described (65536 * base.toNat) (printed base records) = records.map place := by
  induction records generalizing base with
  | nil => rfl
  | cons record rest ih =>
    rw [List.forall_mem_cons] at hdata
    have hrecord : described (65536 * (upper record).toNat)
        (dataLine record :: printed (upper record) rest) = place record :: rest.map place := by
      have hplace : 65536 * (upper record).toNat + record.address.toUInt16.toNat =
          record.address.toNat := by
        rw [toNat_upper, UInt32.toNat_toUInt16]
        omega
      rw [described, Line.placed, if_pos ⟨rfl, hdata.1⟩]
      show (65536 * (upper record).toNat + record.address.toUInt16.toNat, record.data) ::
        described (65536 * (upper record).toNat) (printed (upper record) rest) = _
      rw [hplace, ih hdata.2]
      rfl
    -- behind an address line, or without one, the base in force is the record's own
    rw [printed, List.map_cons]
    split
    · next hsame =>
      rw [← hsame, List.nil_append, hrecord]
    · show described (65536 * value (Words.bigEndian (upper record))) _ = _
      rw [value_bigEndian]
      exact hrecord

/-! ## what is shown -/

/-- a line as it stands in a text, behind any number of blanks and blank lines -/
inductive Row (line : Line) : List Char → Prop
  | intro {gap digits pad : List Char} (gap_blank : ∀ c ∈ gap, Text.isBlank c = true)
    (spelled : Spells HexPair digits line.bytes)
    (pad_blank : ∀ c ∈ pad, Text.isBlank c = true ∧ c ≠ '\n') :
    Row line (gap ++ (':' :: digits ++ pad))

/-- Lines one below the other, and the end-of-file line.  Anything may stand below that. -/
inductive Shows : List Line → List Char → Prop
  | ends {row : List Char} (last : Row endLine row) : Shows [] row
  | endsAbove {row : List Char} (last : Row endLine row) (more : List Char) :
    Shows [] (row ++ '\n' :: more)
  | cons {line : Line} {row : List Char} {lines : List Line} {text : List Char} (head : Row line row)
    (tail : Shows lines text) : Shows (line :: lines) (row ++ '\n' :: text)

/-! ## blanks -/

/-- Blanks and blank lines in front of a line count for nothing but its number. -/
theorem content_gap {gap : List Char} (hgap : ∀ c ∈ gap, Text.isBlank c = true) (text : List Char)
    (number : Nat) :
    ∃ later, content number (lines (gap ++ text)) = content later (lines text) := by
  induction gap generalizing number with
  | nil => exact ⟨number, rfl⟩
  | cons c gap ih =>
    rw [List.forall_mem_cons] at hgap
    rw [List.cons_append, lines_cons]
    split
    · rw [content_cons, if_pos Text.trim_nil]
      exact ih hgap.2 (number + 1)
    · obtain ⟨later, hlater⟩ := ih hgap.2 number
      refine ⟨later, Eq.trans ?_ hlater⟩
      obtain ⟨first, more, hlines⟩ := List.exists_cons_of_ne_nil (lines_ne_nil (gap ++ text))
      rw [hlines, List.modifyHead_cons, content_cons, content_cons, trim_cons hgap.1]

theorem ReadPair.not_blank {a b : Char} {byte : UInt8} (h : ReadPair a b byte) :
    Text.isBlank a = false ∧ Text.isBlank b = false := by
  have hdigit : ∀ {c value}, Digit c value → Text.isBlank c = false := by
    intro c value hdigit
    have hplain : (upperDigits ++ lowerDigits).all (!Text.isBlank ·) = true := by decide
    simpa using List.all_eq_true.1 hplain c hdigit.mem
  rcases h with ⟨high, low, hhigh, hlow, -⟩ | ⟨rfl, hlow⟩
  · exact ⟨hdigit hhigh, hdigit hlow⟩
  · exact ⟨by decide, hdigit hlow⟩

theorem isBlank_of_spells {digits : List Char} {bytes : List UInt8}
    (h : Spells ReadPair digits bytes) : ∀ c ∈ ':' :: digits, Text.isBlank c = false := by
  refine List.forall_mem_cons.2 ⟨by decide, ?_⟩
  induction h with
  | nil => exact nofun
  | cons head tail ih =>
    obtain ⟨ha, hb⟩ := head.not_blank
    exact List.forall_mem_cons.2 ⟨ha, List.forall_mem_cons.2 ⟨hb, ih⟩⟩

/-- A row is one entry of the content, and the one below it comes next. -/
theorem content_row {line : Line} {row : List Char} (h : Row line row) :
    ∃ digits, Spells HexPair digits line.bytes ∧
      ∀ number, (∃ place, content number (lines row) = [(place, ':' :: digits)]) ∧
        ∀ text, ∃ place, content number (lines (row ++ '\n' :: text)) =
          (place, ':' :: digits) :: content (place + 1) (lines text) := by
  obtain @⟨gap, digits, pad, hgap, hdigits, hpad⟩ := h
  have hplain := isBlank_of_spells (hdigits.mono .inl)
  have htrim : Text.trim (':' :: digits ++ pad) = ':' :: digits := by
    rw [trim_append hplain, trimEnd_blank fun c hc => (hpad c hc).1, List.append_nil]
  have hone : '\n' ∉ ':' :: digits ++ pad := by
    rw [List.mem_append, not_or]
    exact ⟨fun h => absurd (hplain _ h) (by decide), fun h => (hpad _ h).2 rfl⟩
  have hentry : ∀ place rest, content place ((':' :: digits ++ pad) :: rest) =
      (place, ':' :: digits) :: content (place + 1) rest := by
    intro place rest
    rw [content_cons, htrim, if_neg (List.cons_ne_nil _ _)]
  refine ⟨digits, hdigits, fun number => ⟨?_, fun text => ?_⟩⟩
  · obtain ⟨place, hplace⟩ := content_gap hgap (':' :: digits ++ pad) number
    exact ⟨place, by rw [hplace, lines_single hone, hentry]; rfl⟩
  · obtain ⟨place, hplace⟩ := content_gap hgap (':' :: digits ++ pad ++ '\n' :: text) number
    exact ⟨place, by rw [List.append_assoc, hplace, lines_row hone, hentry]⟩

/-! ## reading what is printed -/

/-- a line that can be printed: its count is a byte -/
structure Line.Fits (line : Line) : Prop where
  short : line.data.length ≤ 255
  known : line.IsKnown

theorem sum_summed (bytes : List UInt8) : (summed bytes).foldl (· + ·) 0 = 0 := by
  rw [summed, List.foldl_append, List.foldl_cons, List.foldl_nil, UInt8.add_comm,
    UInt8.sub_add_cancel]

theorem carries_bytes {line : Line} (hshort : line.data.length ≤ 255) : Carries line.bytes line := by
  have hcount : (UInt8.ofNat line.data.length).toNat = line.data.length := by
    rw [UInt8.toNat_ofNat']
    omega
  have hoffset := congrArg UInt16.toNat (Words.ofBigEndian_bigEndian line.offset)
  rw [Words.toNat_ofBigEndian] at hoffset
  exact ⟨_, _, _, _, rfl, hcount, hoffset.symm, (sum_eq_zero_iff _).1 (sum_summed _)⟩

theorem isLine_of_spells {line : Line} {digits : List Char} (hfits : line.Fits)
    (h : Spells HexPair digits line.bytes) : IsLine ReadPair (':' :: digits) line :=
  ⟨digits, line.bytes, rfl, h.mono .inl, carries_bytes hfits.short, hfits.known⟩

theorem addressLine_fits (upper : UInt16) : (addressLine upper).Fits :=
  ⟨show 2 ≤ 255 by decide, .inr (.inr ⟨.inr rfl, rfl⟩)⟩

theorem endLine_fits : endLine.Fits :=
  ⟨by decide, .inr (.inl rfl)⟩

/-- **A text that shows lines has these lines**, and what stands below the end is not read. -/
theorem complete_of_shows {shown : List Line} {text : List Char} (h : Shows shown text)
    (hfits : ∀ line ∈ shown, line.Fits ∧ line.type ≠ 0x01) (number : Nat) :
    Complete ReadPair (content number (lines text)) shown := by
  induction h generalizing number with
  | ends last =>
    obtain ⟨digits, hdigits, hrow⟩ := content_row last
    obtain ⟨place, hplace⟩ := (hrow number).1
    rw [hplace, complete_cons_iff]
    exact .inl ⟨rfl, endLine, isLine_of_spells endLine_fits hdigits, rfl⟩
  | endsAbove last more =>
    obtain ⟨digits, hdigits, hrow⟩ := content_row last
    obtain ⟨place, hplace⟩ := (hrow number).2 more
    rw [hplace, complete_cons_iff]
    exact .inl ⟨rfl, endLine, isLine_of_spells endLine_fits hdigits, rfl⟩
  | @cons line row shown text head tail ih =>
    rw [List.forall_mem_cons] at hfits
    obtain ⟨digits, hdigits, hrow⟩ := content_row head
    obtain ⟨place, hplace⟩ := (hrow number).2 text
    rw [hplace, complete_cons_iff]
    exact .inr ⟨line, shown, rfl, isLine_of_spells hfits.1.1 hdigits, hfits.1.2,
      ih hfits.2 (place + 1)⟩

theorem fits_of_mem_printed {records : List Record}
    (hshort : ∀ record ∈ records, record.data.length ≤ 255) {base : UInt16} {line : Line}
    (hline : line ∈ printed base records) : line.Fits ∧ line.type ≠ 0x01 := by
  induction records generalizing base with
  | nil => cases hline
  | cons record rest ih =>
    rw [List.forall_mem_cons] at hshort
    rw [printed, List.mem_append, List.mem_cons] at hline
    rcases hline with hline | rfl | hline
    · have hline : line = addressLine (upper record) := by
        split at hline
        · cases hline
        · exact List.mem_singleton.1 hline
      rw [hline]
      exact ⟨addressLine_fits (upper record), show (0x04 : UInt8) ≠ 0x01 by decide⟩
    · exact ⟨⟨hshort.1, .inl rfl⟩, show (0x00 : UInt8) ≠ 0x01 by decide⟩
    · exact ih hshort.2 hline

/-- **Records that are printed are read back**, in whatever case the digits are written and whatever
blanks stand around the lines. -/
theorem reads_printed (records : List Record)
    (hsizes : ∀ record ∈ records, 1 ≤ record.data.length ∧ record.data.length ≤ 255) (text : String)
    (h : Shows (printed 0 records) text.toList) : parse? text = .ok records := by
  have hcomplete := complete_of_shows h
    (fun line hline => fits_of_mem_printed (fun record hrecord => (hsizes record hrecord).2) hline) 1
  obtain ⟨read, hread, hplaces⟩ := records?_complete hcomplete room_at_start
  have hdata : ∀ record ∈ records, record.data ≠ [] :=
    fun record hrecord => List.ne_nil_of_length_pos (hsizes record hrecord).1
  have hsame : read.map place = records.map place := hplaces.trans (described_printed hdata 0)
  rw [place_injective.list_map hsame] at hread
  exact hread

theorem row_of_pairs? {line : Line} (gap digits pad : List Char)
    (hgap : gap.all Text.isBlank = true) (hplus : '+' ∉ digits)
    (hdigits : pairs? 2 digits = .ok line.bytes)
    (hpad : pad.all (fun c => Text.isBlank c && c != '\n') = true) :
    Row line (gap ++ (':' :: digits ++ pad)) := by
  refine .intro (List.all_eq_true.1 hgap) ?_ fun c hc => ?_
  · exact (spells_hexPair_iff hplus).1 ((pairs?_eq_ok_iff 2 digits line.bytes).1 hdigits)
  · simpa using List.all_eq_true.1 hpad c hc

/-- two records with an address line between them, and blanks, line ends and letters of all kinds -/
theorem reads_printed_two_records :
    let records : List Record := [⟨0, [0x55]⟩, ⟨0x10002, [0xAB, 1]⟩]
    let text := " :0100000055AA\r\n \n:020000040001F9\n:02000200aB0150 \n:00000001Ff\nno more"
    (∀ record ∈ records, 1 ≤ record.data.length ∧ record.data.length ≤ 255) ∧
      Shows (printed 0 records) text.toList ∧ parse? text = .ok records := by
  intro records text
  have hsizes : ∀ record ∈ records, 1 ≤ record.data.length ∧ record.data.length ≤ 255 := by decide
  have hshows : Shows (printed 0 records) text.toList := by
    have first : Row (dataLine ⟨0, [0x55]⟩) " :0100000055AA\r".toList :=
      row_of_pairs? [' '] "0100000055AA".toList ['\r'] rfl (by decide) rfl rfl
    have second : Row (addressLine 1) " \n:020000040001F9".toList :=
      row_of_pairs? [' ', '\n'] "020000040001F9".toList [] rfl (by decide) rfl rfl
    have third : Row (dataLine ⟨0x10002, [0xAB, 1]⟩) ":02000200aB0150 ".toList :=
      row_of_pairs? [] "02000200aB0150".toList [' '] rfl (by decide) rfl rfl
    have last : Row endLine ":00000001Ff".toList :=
      row_of_pairs? [] "00000001Ff".toList [] rfl (by decide) rfl rfl
    have hprinted : printed 0 records =
        [dataLine ⟨0, [0x55]⟩, addressLine 1, dataLine ⟨0x10002, [0xAB, 1]⟩] := by decide
    have htext : text.toList = " :0100000055AA\r".toList ++ '\n' :: (" \n:020000040001F9".toList ++
        '\n' :: (":02000200aB0150 ".toList ++ '\n' :: (":00000001Ff".toList ++
          '\n' :: "no more".toList))) := by decide
    rw [hprinted, htext]
    exact .cons first (.cons second (.cons third (.endsAbove last "no more".toList)))
  exact ⟨hsizes, hshows, reads_printed records hsizes text hshows⟩

end CameraPower.IntelHex
