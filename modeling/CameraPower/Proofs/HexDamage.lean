import CameraPower.Proofs.HexRoundTrip

/-!
# A damaged byte of a file

A byte that is replaced by another one makes its line one that is not of the format, whatever the
byte was for: the bytes of either line would add up to zero, and they differ in this one.  The lines
above are read as before, so that this one is the first that is refused.

* `Spot`                     where a byte stands in a text, on a line that is read;
* `Spot.exists_of_line`      every byte of a line has its spot, if no line above ends the file;
* `eq_of_isLine`             lines of the format do not differ in one byte alone;
* `Spot.content_text`        a text line by line, whatever the byte at the spot;
* `Spot.exists_of_accepted`  every byte that is read of an accepted text has its spot;
* `names_damaged_line`       with another byte there it is refused, and the line is named.
-/

namespace CameraPower.IntelHex

open Flash (Record)
open Text (trim_gap trim_cases trim_append)

/-! ## a byte of a line -/

/-- a line that nothing is read behind -/
def EndsFile (raw : List Char) : Prop :=
  ∃ line, IsLine ReadPair (Text.trim raw) line ∧ line.type = 0x01

/-- Where a byte stands in a text: the lines above its line, what is in front of it on its line, and
all that comes behind it.  None of the lines above ends the file. -/
structure Spot where
  above : List (List Char)
  gap : List Char
  before : List Char
  behind : List Char
  above_lines : ∀ raw ∈ above, '\n' ∉ raw
  above_goes_on : ∀ raw ∈ above, ¬ EndsFile raw
  gap_blank : ∀ c ∈ gap, Text.isBlank c = true ∧ c ≠ '\n'
  before_spelled : ∃ bytes, Spells ReadPair before bytes

/-- the text with these two characters at the spot -/
def Spot.text (spot : Spot) (a b : Char) : String :=
  String.ofList (spot.above.flatMap (· ++ ['\n']) ++
    (spot.gap ++ ':' :: spot.before ++ a :: b :: spot.behind))

/-- the number of the line that a spot is on -/
def Spot.number (spot : Spot) : Nat :=
  spot.above.length + 1

/-! ## the lines of a text -/

theorem lines_above {above : List (List Char)} (h : ∀ raw ∈ above, '\n' ∉ raw) (text : List Char) :
    lines (above.flatMap (· ++ ['\n']) ++ text) = above ++ lines text := by
  induction above with
  | nil => rfl
  | cons raw above ih =>
    rw [List.forall_mem_cons] at h
    rw [List.flatMap_cons, List.append_assoc, List.append_assoc, List.singleton_append,
      lines_row h.1, ih h.2, List.cons_append]

theorem content_append (number : Nat) (above below : List (List Char)) :
    content number (above ++ below) =
      content number above ++ content (number + above.length) below := by
  rw [content, List.zipIdx_append, List.map_append, List.filter_append]
  rfl

/-! ## every byte has its spot -/

theorem lines_eq_cons {text raw : List Char} {below : List (List Char)}
    (h : lines text = raw :: below) :
    '\n' ∉ raw ∧
      (below = [] ∧ text = raw ∨ ∃ rest, text = raw ++ '\n' :: rest ∧ lines rest = below) := by
  induction text generalizing raw with
  | nil =>
    rw [lines_nil] at h
    obtain ⟨rfl, rfl⟩ := List.cons.inj h
    exact ⟨List.not_mem_nil, .inl ⟨rfl, rfl⟩⟩
  | cons c text ih =>
    rw [lines_cons] at h
    split at h
    · next hend =>
      obtain ⟨rfl, hbelow⟩ := List.cons.inj h
      exact ⟨List.not_mem_nil, .inr ⟨text, by rw [hend, List.nil_append], hbelow⟩⟩
    · next hgoes =>
      obtain ⟨first, more, hlines⟩ := List.exists_cons_of_ne_nil (lines_ne_nil text)
      rw [hlines, List.modifyHead_cons] at h
      obtain ⟨rfl, rfl⟩ := List.cons.inj h
      obtain ⟨hfirst, hcut⟩ := ih hlines
      refine ⟨fun hmem => (List.mem_cons.1 hmem).elim (fun heq => hgoes heq.symm) hfirst, ?_⟩
      rcases hcut with ⟨hlast, rfl⟩ | ⟨rest, rfl, hrest⟩
      · exact .inl ⟨hlast, rfl⟩
      · exact .inr ⟨rest, rfl, hrest⟩

theorem eq_of_lines {above : List (List Char)} {text raw : List Char} {below : List (List Char)}
    (h : lines text = above ++ raw :: below) :
    (∀ other ∈ raw :: above, '\n' ∉ other) ∧
      ∃ behind, text = above.flatMap (· ++ ['\n']) ++ (raw ++ behind) := by
  induction above generalizing text with
  | nil =>
    obtain ⟨hraw, hcut⟩ := lines_eq_cons h
    refine ⟨List.forall_mem_singleton.2 hraw, ?_⟩
    rcases hcut with ⟨-, rfl⟩ | ⟨rest, rfl, -⟩
    · exact ⟨[], (List.append_nil _).symm⟩
    · exact ⟨_, rfl⟩
  | cons first above ih =>
    obtain ⟨hfirst, ⟨hnone, -⟩ | ⟨rest, rfl, hrest⟩⟩ := lines_eq_cons h
    · exact absurd hnone (by simp)
    · obtain ⟨hplain, behind, rfl⟩ := ih hrest
      rw [List.forall_mem_cons] at hplain
      refine ⟨List.forall_mem_cons.2 ⟨hplain.1, List.forall_mem_cons.2 ⟨hfirst, hplain.2⟩⟩,
        behind, ?_⟩
      simp

theorem Spells.cut {digits : List Char} {bytes : List UInt8} (h : Spells ReadPair digits bytes)
    {k : Nat} (hk : k < bytes.length) :
    ∃ before a b behind, digits = before ++ a :: b :: behind ∧ before.length = 2 * k ∧
      Spells ReadPair before (bytes.take k) ∧ ReadPair a b bytes[k] := by
  induction h generalizing k with
  | nil => exact absurd hk (Nat.not_lt_zero k)
  | @cons a b byte digits bytes head tail ih =>
    cases k with
    | zero => exact ⟨[], a, b, digits, rfl, rfl, .nil, head⟩
    | succ k =>
      obtain ⟨before, a', b', behind, rfl, hlength, hbefore, hpair⟩ :=
        ih (Nat.lt_of_succ_lt_succ hk)
      have hlength' : (a :: b :: before).length = 2 * (k + 1) := by
        rw [List.length_cons, List.length_cons, hlength]
        omega
      exact ⟨_, a', b', behind, rfl, hlength', .cons head hbefore, hpair⟩

/-- Every byte of a line that is read has its spot. -/
theorem Spot.exists_of_line {text : String} {above below : List (List Char)} {raw : List Char}
    (hlines : lines text.toList = above ++ raw :: below) (hgoes : ∀ other ∈ above, ¬ EndsFile other)
    {digits : List Char} {bytes : List UInt8} (hraw : Text.trim raw = ':' :: digits)
    (hdigits : Spells ReadPair digits bytes) {k : Nat} (hk : k < bytes.length) :
    ∃ (spot : Spot) (a b : Char), spot.text a b = text ∧ spot.above = above ∧
      spot.before.length = 2 * k ∧ ReadPair a b bytes[k] := by
  obtain ⟨hplain, behind, htext⟩ := eq_of_lines hlines
  obtain ⟨hend, habove⟩ := List.forall_mem_cons.1 hplain
  obtain ⟨gap, pad, hcut, hgap, -⟩ := trim_cases raw
  obtain ⟨before, a, b, after, rfl, hlength, hbefore, hpair⟩ := hdigits.cut hk
  rw [hraw] at hcut
  let spot : Spot :=
    { above, gap, before, behind := after ++ pad ++ behind
      above_lines := habove
      above_goes_on := hgoes
      gap_blank := fun c hc => ⟨hgap c hc, by
        rintro rfl
        rw [hcut] at hend
        exact hend (List.mem_append_left _ hc)⟩
      before_spelled := ⟨_, hbefore⟩ }
  refine ⟨spot, a, b, ?_, rfl, hlength, hpair⟩
  rw [Spot.text, ← String.toList_inj, String.toList_ofList, htext, hcut]
  simp [spot]

/-! ## two lines that differ in one byte -/

theorem Spells.unique {digits : List Char} {bytes bytes' : List UInt8}
    (h : Spells ReadPair digits bytes) (h' : Spells ReadPair digits bytes') : bytes = bytes' := by
  rw [← pairs?_eq_ok_iff 2] at h h'
  exact Except.ok.inj (h.symm.trans h')

theorem ReadPair.unique {a b : Char} {byte byte' : UInt8} (h : ReadPair a b byte)
    (h' : ReadPair a b byte') : byte = byte' := by
  rw [← pairValue?_eq_some_iff] at h h'
  exact Option.some.inj (h.symm.trans h')

theorem Spells.append {pair : Char → Char → UInt8 → Prop} {digits more : List Char}
    {bytes rest : List UInt8} (h : Spells pair digits bytes) (hmore : Spells pair more rest) :
    Spells pair (digits ++ more) (bytes ++ rest) := by
  induction h with
  | nil => exact hmore
  | cons head tail ih => exact .cons head ih

/-- the bytes of digits in the middle of which a pair stands -/
theorem Spells.at_pair {before behind : List Char} {a b : Char} {byte : UInt8}
    {first bytes : List UInt8} (hbefore : Spells ReadPair before first) (hpair : ReadPair a b byte)
    (h : Spells ReadPair (before ++ a :: b :: behind) bytes) :
    ∃ rest, bytes = first ++ byte :: rest ∧ Spells ReadPair behind rest := by
  induction hbefore generalizing bytes with
  | nil =>
    cases h with
    | cons head tail => exact ⟨_, by rw [head.unique hpair]; rfl, tail⟩
  | cons first _ ih =>
    cases h with
    | cons head tail =>
      obtain ⟨rest, rfl, hrest⟩ := ih tail
      exact ⟨rest, by rw [head.unique first]; rfl, hrest⟩

theorem Carries.sum {bytes : List UInt8} {line : Line} (h : Carries bytes line) :
    (bytes.map UInt8.toNat).sum % 256 = 0 := by
  obtain ⟨_, _, _, _, -, -, -, hsum⟩ := h
  exact hsum

/-- **One byte decides the sum**: lines of the format do not differ in one byte alone. -/
theorem eq_of_isLine {before behind : List Char} {a b c d : Char} {byte byte' : UInt8}
    {first : List UInt8} {line line' : Line} (hbefore : Spells ReadPair before first)
    (hpair : ReadPair a b byte) (hpair' : ReadPair c d byte')
    (h : IsLine ReadPair (':' :: (before ++ a :: b :: behind)) line)
    (h' : IsLine ReadPair (':' :: (before ++ c :: d :: behind)) line') : byte' = byte := by
  obtain ⟨_, bytes, ⟨⟩, hdigits, hbytes, -⟩ := h
  obtain ⟨_, bytes', ⟨⟩, hdigits', hbytes', -⟩ := h'
  obtain ⟨rest, rfl, hrest⟩ := hbefore.at_pair hpair hdigits
  obtain ⟨rest', rfl, hrest'⟩ := hbefore.at_pair hpair' hdigits'
  obtain rfl := hrest.unique hrest'
  have hsum := hbytes.sum
  have hsum' := hbytes'.sum
  simp only [List.map_append, List.map_cons, List.sum_append, List.sum_cons] at hsum hsum'
  have hbyte := byte.toNat_lt
  have hbyte' := byte'.toNat_lt
  rw [← UInt8.toNat_inj]
  omega

/-! ## the damaged text -/

/-- what is read in front of an entry, if nothing there ends the file -/
theorem plain_of_complete {pair : Char → Char → UInt8 → Prop} {front rest : List (Nat × List Char)}
    {entry : Nat × List Char} {all : List Line} (h : Complete pair (front ++ entry :: rest) all)
    (hgoes : ∀ other ∈ front, ∀ line, IsLine pair other.2 line → line.type ≠ 0x01) :
    (∃ lines, Plain pair front lines) ∧ ∃ line, IsLine pair entry.2 line := by
  induction front generalizing all with
  | nil =>
    refine ⟨⟨[], .nil, nofun⟩, ?_⟩
    rcases complete_cons_iff.1 h with ⟨-, line, hline, -⟩ | ⟨line, _, -, hline, -⟩
    · exact ⟨line, hline⟩
    · exact ⟨line, hline⟩
  | cons other front ih =>
    rw [List.forall_mem_cons] at hgoes
    rcases complete_cons_iff.1 h with ⟨-, line, hline, hend⟩ | ⟨line, more, -, hline, hgo, hmore⟩
    · exact absurd hend (hgoes.1 line hline)
    · obtain ⟨⟨lines, hlines⟩, hentry⟩ := ih hmore hgoes.2
      exact ⟨⟨line :: lines, plain_cons hline hgo hlines⟩, hentry⟩

/-- the content of a text above a spot, on its line, and below -/
theorem Spot.content_text (spot : Spot) :
    ∃ behind rest, ∀ {a b : Char} {byte : UInt8}, ReadPair a b byte →
      content 1 (lines (spot.text a b).toList) =
        content 1 spot.above ++
          (spot.number, ':' :: (spot.before ++ a :: b :: behind)) :: rest := by
  obtain ⟨first, below, hbelow⟩ := List.exists_cons_of_ne_nil (lines_ne_nil spot.behind)
  obtain ⟨bytes, hbytes⟩ := spot.before_spelled
  refine ⟨Text.trimEnd first, content (spot.number + 1) below, fun {a b byte} hpair => ?_⟩
  -- the line up to the byte has no end of line, and blanks only in its gap
  have hplain := isBlank_of_spells (hbytes.append (.cons hpair .nil))
  have hfront : '\n' ∉ spot.gap ++ ':' :: (spot.before ++ [a, b]) := by
    rw [List.mem_append, not_or]
    exact ⟨fun h => (spot.gap_blank _ h).2 rfl, fun h => absurd (hplain _ h) (by decide)⟩
  have hlines : lines (spot.text a b).toList =
      spot.above ++ (spot.gap ++ (':' :: (spot.before ++ [a, b]) ++ first)) :: below := by
    have hcut : spot.gap ++ ':' :: spot.before ++ a :: b :: spot.behind =
        spot.gap ++ ':' :: (spot.before ++ [a, b]) ++ spot.behind := by simp
    rw [Spot.text, String.toList_ofList, lines_above spot.above_lines, hcut, lines_append hfront,
      hbelow, List.modifyHead_cons, List.append_assoc]
  have htrim : Text.trim (spot.gap ++ (':' :: (spot.before ++ [a, b]) ++ first)) =
      ':' :: (spot.before ++ a :: b :: Text.trimEnd first) := by
    rw [trim_gap fun c hc => (spot.gap_blank c hc).1, trim_append hplain]
    simp
  rw [hlines, content_append, content_cons, htrim, if_neg (List.cons_ne_nil _ _), Nat.add_comm 1]
  rfl

/-- what an accepted text has up to an entry, if nothing above it ends the file -/
theorem plain_of_accepted {text : String} {records : List Record} {above : List (List Char)}
    {entry : Nat × List Char} {rest : List (Nat × List Char)} (h : parse? text = .ok records)
    (hcontent : content 1 (lines text.toList) = content 1 above ++ entry :: rest)
    (hgoes : ∀ raw ∈ above, ¬ EndsFile raw) :
    (∃ read, Plain ReadPair (content 1 above) read) ∧ ∃ line, IsLine ReadPair entry.2 line := by
  obtain ⟨all, hall, -⟩ := ((readsBy_readPair text).accepts records).1 h
  rw [hcontent] at hall
  refine plain_of_complete hall fun other hother line hline hend => ?_
  obtain ⟨⟨raw, place⟩, hraw, rfl⟩ := List.mem_map.1 (List.mem_filter.1 hother).1
  exact hgoes raw (List.fst_mem_of_mem_zipIdx hraw) ⟨line, hline, hend⟩

/-- every line of an accepted text, down to the one that ends the file, is made of bytes, and each of
them has its spot -/
theorem Spot.exists_of_accepted {text : String} {records : List Record}
    {above below : List (List Char)} {raw : List Char} (h : parse? text = .ok records)
    (hlines : lines text.toList = above ++ raw :: below) (hgoes : ∀ other ∈ above, ¬ EndsFile other)
    (hsome : Text.trim raw ≠ []) :
    ∃ digits bytes, Text.trim raw = ':' :: digits ∧ Spells ReadPair digits bytes ∧
      ∀ k (hk : k < bytes.length), ∃ (spot : Spot) (a b : Char), spot.text a b = text ∧
        spot.above = above ∧ spot.before.length = 2 * k ∧ ReadPair a b bytes[k] := by
  have hcontent : content 1 (lines text.toList) =
      content 1 above ++ (1 + above.length, Text.trim raw) :: content (1 + above.length + 1) below := by
    rw [hlines, content_append, content_cons, if_neg hsome]
  obtain ⟨-, line, digits, bytes, hraw, hdigits, -⟩ := plain_of_accepted h hcontent hgoes
  exact ⟨digits, bytes, hraw, hdigits, fun k => Spot.exists_of_line hlines hgoes hraw hdigits⟩

/-- another byte at the spot is noticed, and its line is named -/
theorem Spot.damaged (spot : Spot) {a b c d : Char} {byte byte' : UInt8} {records : List Record}
    (hbyte : ReadPair a b byte) (hbyte' : HexPair c d byte') (hdamaged : byte' ≠ byte)
    (h : parse? (spot.text a b) = .ok records) :
    ∃ fault, parse? (spot.text c d) = .error (.hexFormat spot.number fault) := by
  obtain ⟨behind, rest, hcontent⟩ := spot.content_text
  obtain ⟨bytes, hbytes⟩ := spot.before_spelled
  have hread : ReadPair c d byte' := .inl hbyte'
  obtain ⟨⟨lines, hlines⟩, line, hline⟩ := plain_of_accepted h (hcontent hbyte) spot.above_goes_on
  have hnone : ∀ line', ¬ IsLine ReadPair (':' :: (spot.before ++ c :: d :: behind)) line' :=
    fun line' hline' => hdamaged (eq_of_isLine hbytes hbyte hread hline hline')
  exact records?_offends ⟨_, _, rest, lines, hcontent hread, hlines, hnone⟩ room_at_start

/-- **A damaged byte is noticed**, and its line is named.  A text that is accepted has a spot for each
byte of each line down to the one that ends the file: it is the text with that byte at the spot.  And
with another byte there it is refused. -/
theorem names_damaged_line :
    (∀ (spot : Spot) (a b c d : Char) (byte byte' : UInt8) (records : List Record),
      ReadPair a b byte → HexPair c d byte' → byte' ≠ byte → parse? (spot.text a b) = .ok records →
        ∃ fault, parse? (spot.text c d) = .error (.hexFormat spot.number fault)) ∧
    ∀ (text : String) (records : List Record) (above below : List (List Char)) (raw : List Char),
      parse? text = .ok records → lines text.toList = above ++ raw :: below →
      (∀ other ∈ above, ¬ EndsFile other) → Text.trim raw ≠ [] →
        ∃ digits bytes, Text.trim raw = ':' :: digits ∧ Spells ReadPair digits bytes ∧
          ∀ k (hk : k < bytes.length), ∃ (spot : Spot) (a b : Char), spot.text a b = text ∧
            spot.above = above ∧ spot.before.length = 2 * k ∧ ReadPair a b bytes[k] :=
  ⟨fun spot _ _ _ _ _ _ _ => spot.damaged, fun _ _ _ _ _ => Spot.exists_of_accepted⟩

/-- An end-of-file line that would become a line of data without data. -/
theorem names_damaged_line_end_of_file :
    ∃ spot : Spot, spot.number = 2 ∧ spot.text '0' '1' = ":0100000055AA\n:00000001FF\n" ∧
      ReadPair '0' '1' 1 ∧ HexPair '0' '0' 0 ∧ (0 : UInt8) ≠ 1 ∧
      parse? (spot.text '0' '1') = .ok [⟨0, [0x55]⟩] ∧
      ∃ fault, parse? (spot.text '0' '0') = .error (.hexFormat spot.number fault) := by
  have hgoes : ¬ EndsFile ":0100000055AA".toList := by
    rintro ⟨line, hline, hend⟩
    obtain ⟨hdecode, -⟩ := (isLine_iff _ line).1 hline
    obtain rfl : (⟨0, 0x00, [0x55]⟩ : Line) = line := Except.ok.inj hdecode
    exact absurd hend (by decide)
  let spot : Spot :=
    { above := [":0100000055AA".toList], gap := [], before := "000000".toList
      behind := "FF\n".toList
      above_lines := by decide
      above_goes_on := List.forall_mem_singleton.2 hgoes
      gap_blank := nofun
      before_spelled := ⟨[0, 0, 0], (pairs?_eq_ok_iff 2 _ _).1 rfl⟩ }
  have hbyte : ReadPair '0' '1' 1 := (pairValue?_eq_some_iff _ _ _).1 rfl
  have hbyte' : HexPair '0' '0' 0 := ⟨0, 0, by decide, by decide, rfl⟩
  have hne : (0 : UInt8) ≠ 1 := by decide
  have htext : spot.text '0' '1' = ":0100000055AA\n:00000001FF\n" := rfl
  have hparse : parse? (spot.text '0' '1') = .ok [⟨0, [0x55]⟩] := by
    rw [htext]
    rfl
  exact ⟨spot, rfl, htext, hbyte, hbyte', hne, hparse,
    names_damaged_line.1 spot _ _ _ _ _ _ _ hbyte hbyte' hne hparse⟩

end CameraPower.IntelHex
