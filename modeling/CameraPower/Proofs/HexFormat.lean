import CameraPower.Proofs.HexLines
import Mathlib.Data.List.Forall2

/-!
# What is read from an Intel HEX file

A file is read if all of its lines are lines of the format, up to the one that ends it; otherwise the
first line that is none is named.

* `content`         the lines that are not blank, with their numbers;
* `Complete`        all lines up to the one that ends the file are lines of the format;
* `Offends`         a line is the first that is none;
* `described`       the data of lines and where it goes;
* `records?_plain`  one line, and what is left to do behind it;
* `ReadsBy`         a text is read by the format.
-/

namespace CameraPower.IntelHex

open Flash (Record)

/-! ## the format of a file -/

/-- the lines that are not blank, less the blanks at their ends, with their numbers -/
def content (number : Nat) (raws : List (List Char)) : List (Nat × List Char) :=
  ((raws.zipIdx number).map fun (raw, number) => (number, Text.trim raw)).filter (·.2 ≠ [])

/-- lines of the format, none of which ends the file -/
def Plain (pair : Char → Char → UInt8 → Prop) (read : List (Nat × List Char)) (lines : List Line) :
    Prop :=
  List.Forall₂ (fun entry line => IsLine pair entry.2 line) read lines ∧
    ∀ line ∈ lines, line.type ≠ 0x01

/-- These are the lines of a file in front of the first that ends it, or all if none does. -/
def Complete (pair : Char → Char → UInt8 → Prop) (content : List (Nat × List Char))
    (lines : List Line) : Prop :=
  ∃ read unread, content = read ++ unread ∧ Plain pair read lines ∧
    (unread = [] ∨ ∃ entry rest line, unread = entry :: rest ∧ IsLine pair entry.2 line ∧
      line.type = 0x01)

/-- The line with this number is the first that is not one of the format. -/
def Offends (pair : Char → Char → UInt8 → Prop) (content : List (Nat × List Char)) (number : Nat) :
    Prop :=
  ∃ read text rest lines, content = read ++ (number, text) :: rest ∧ Plain pair read lines ∧
    ∀ line, ¬ IsLine pair text line

/-- the number that bytes make, the first of them the highest -/
def value (bytes : List UInt8) : Nat :=
  bytes.foldl (fun value byte => 256 * value + byte.toNat) 0

/-- the base that is in force behind a line -/
def Line.base (base : Nat) (line : Line) : Nat :=
  if line.type = 0x02 then 16 * value line.data
  else if line.type = 0x04 then 65536 * value line.data
  else base

/-- what a line says of the data, and where it goes when a base is in force -/
def Line.placed (base : Nat) (line : Line) : List (Nat × List UInt8) :=
  if line.type = 0x00 ∧ line.data ≠ [] then [(base + line.offset.toNat, line.data)] else []

/-- the data of lines and where it goes, with a base in force at their start -/
def described (base : Nat) : List Line → List (Nat × List UInt8)
  | [] => []
  | line :: rest => line.placed base ++ described (line.base base) rest

/-- where the data of a record goes, and the data -/
def place (record : Record) : Nat × List UInt8 :=
  (record.address.toNat, record.data)

theorem place_injective : Function.Injective place := by
  rintro ⟨address, data⟩ ⟨address', data'⟩ h
  obtain ⟨haddress, hdata⟩ := Prod.mk.inj h
  rw [UInt32.toNat_inj] at haddress
  exact congrArg₂ Record.mk haddress hdata

theorem lines_nil : lines [] = [[]] :=
  List.splitOnP_nil

theorem lines_cons (c : Char) (rest : List Char) :
    lines (c :: rest) =
      if c = '\n' then [] :: lines rest else (lines rest).modifyHead (c :: ·) := by
  rw [lines, List.splitOnP_cons_eq_if_modifyHead]
  simp only [beq_iff_eq]
  rfl

theorem lines_ne_nil (text : List Char) : lines text ≠ [] :=
  List.splitOnP_ne_nil _ text

theorem lines_append {front : List Char} (h : '\n' ∉ front) (text : List Char) :
    lines (front ++ text) = (lines text).modifyHead (front ++ ·) := by
  induction front with
  | nil =>
    rw [List.nil_append]
    cases lines text <;> rfl
  | cons c front ih =>
    rw [List.mem_cons, not_or] at h
    rw [List.cons_append, lines_cons, if_neg (Ne.symm h.1), ih h.2, List.modifyHead_modifyHead]
    rfl

theorem lines_row {row : List Char} (h : '\n' ∉ row) (text : List Char) :
    lines (row ++ '\n' :: text) = row :: lines text := by
  rw [lines_append h, lines_cons, if_pos rfl, List.modifyHead_cons, List.append_nil]

theorem lines_single {row : List Char} (h : '\n' ∉ row) : lines row = [row] := by
  have hlines := lines_append h []
  rwa [List.append_nil, lines_nil, List.modifyHead_cons, List.append_nil] at hlines

section
variable {pair : Char → Char → UInt8 → Prop}

theorem content_cons (number : Nat) (raw : List Char) (rest : List (List Char)) :
    content number (raw :: rest) =
      if Text.trim raw = [] then content (number + 1) rest
      else (number, Text.trim raw) :: content (number + 1) rest := by
  rw [content, List.zipIdx_cons, List.map_cons, List.filter_cons]
  by_cases hblank : Text.trim raw = []
  · simp [hblank, content]
  · simp [hblank, content]

theorem plain_cons {entry : Nat × List Char} {line : Line} {read : List (Nat × List Char)}
    {lines : List Line} (hline : IsLine pair entry.2 line) (hgoes : line.type ≠ 0x01)
    (h : Plain pair read lines) : Plain pair (entry :: read) (line :: lines) :=
  ⟨.cons hline h.1, List.forall_mem_cons.2 ⟨hgoes, h.2⟩⟩

theorem complete_nil_iff {lines : List Line} : Complete pair [] lines ↔ lines = [] := by
  constructor
  · rintro ⟨read, unread, hcut, hplain, -⟩
    obtain ⟨rfl, rfl⟩ := List.append_eq_nil_iff.1 hcut.symm
    exact List.forall₂_nil_left_iff.1 hplain.1
  · rintro rfl
    exact ⟨[], [], rfl, ⟨.nil, nofun⟩, .inl rfl⟩

theorem complete_cons_iff {entry : Nat × List Char} {content : List (Nat × List Char)}
    {lines : List Line} : Complete pair (entry :: content) lines ↔
      (lines = [] ∧ ∃ line, IsLine pair entry.2 line ∧ line.type = 0x01) ∨
        ∃ line rest, lines = line :: rest ∧ IsLine pair entry.2 line ∧ line.type ≠ 0x01 ∧
          Complete pair content rest := by
  constructor
  · rintro ⟨read, unread, hcut, hplain, hend⟩
    cases read with
    | nil =>
      rw [List.nil_append] at hcut
      subst hcut
      rcases hend with hend | ⟨entry', rest, line, heq, hline, htype⟩
      · cases hend
      · obtain ⟨rfl, rfl⟩ := List.cons.inj heq
        exact .inl ⟨List.forall₂_nil_left_iff.1 hplain.1, line, hline, htype⟩
    | cons first read =>
      obtain ⟨rfl, rfl⟩ := List.cons.inj hcut
      obtain ⟨hlines, hgo⟩ := hplain
      cases hlines with
      | cons hline hlines =>
        rw [List.forall_mem_cons] at hgo
        exact .inr ⟨_, _, rfl, hline, hgo.1, read, unread, rfl, ⟨hlines, hgo.2⟩, hend⟩
  · rintro (⟨rfl, line, hline, htype⟩ | ⟨line, rest, rfl, hline, hgoes, hrest⟩)
    · exact ⟨[], _, rfl, ⟨.nil, nofun⟩, .inr ⟨entry, content, line, rfl, hline, htype⟩⟩
    · obtain ⟨read, unread, rfl, hplain, hend⟩ := hrest
      exact ⟨entry :: read, unread, rfl, plain_cons hline hgoes hplain, hend⟩

theorem not_offends_nil (number : Nat) : ¬ Offends pair [] number := by
  rintro ⟨read, text, rest, lines, hcut, -⟩
  cases read <;> cases hcut

theorem offends_cons_iff {entry : Nat × List Char} {content : List (Nat × List Char)}
    {number : Nat} : Offends pair (entry :: content) number ↔
      (number = entry.1 ∧ ∀ line, ¬ IsLine pair entry.2 line) ∨
        ∃ line, IsLine pair entry.2 line ∧ line.type ≠ 0x01 ∧ Offends pair content number := by
  constructor
  · rintro ⟨read, text, rest, lines, hcut, hplain, hnone⟩
    cases read with
    | nil =>
      obtain ⟨rfl, rfl⟩ := List.cons.inj hcut
      exact .inl ⟨rfl, hnone⟩
    | cons first read =>
      obtain ⟨rfl, rfl⟩ := List.cons.inj hcut
      obtain ⟨hlines, hgo⟩ := hplain
      cases hlines with
      | cons hline hlines =>
        rw [List.forall_mem_cons] at hgo
        exact .inr ⟨_, hline, hgo.1, read, text, rest, _, rfl, ⟨hlines, hgo.2⟩, hnone⟩
  · rintro (⟨rfl, hnone⟩ | ⟨line, hline, hgoes, read, text, rest, lines, rfl, hplain, hnone⟩)
    · exact ⟨[], entry.2, content, [], rfl, ⟨.nil, nofun⟩, hnone⟩
    · exact ⟨entry :: read, text, rest, line :: lines, rfl, plain_cons hline hgoes hplain, hnone⟩

theorem complete_or_offends (pair : Char → Char → UInt8 → Prop) (content : List (Nat × List Char)) :
    (∃ lines, Complete pair content lines) ∨ ∃ number, Offends pair content number := by
  induction content with
  | nil => exact .inl ⟨[], complete_nil_iff.2 rfl⟩
  | cons entry content ih =>
    by_cases hline : ∃ line, IsLine pair entry.2 line
    · obtain ⟨line, hline⟩ := hline
      by_cases htype : line.type = 0x01
      · exact .inl ⟨[], complete_cons_iff.2 (.inl ⟨rfl, line, hline, htype⟩)⟩
      · rcases ih with ⟨lines, hlines⟩ | ⟨number, hnumber⟩
        · exact .inl ⟨_, complete_cons_iff.2 (.inr ⟨line, lines, rfl, hline, htype, hlines⟩)⟩
        · exact .inr ⟨number, offends_cons_iff.2 (.inr ⟨line, hline, htype, hnumber⟩)⟩
    · exact .inr ⟨entry.1, offends_cons_iff.2 (.inl ⟨rfl, not_exists.1 hline⟩)⟩

end

/-! ## the reader, line by line -/

section
variable {number : Nat} {base : UInt32} {raw : List Char} {line : Line}

theorem records?_blank (hblank : Text.trim raw = []) (rest : List (List Char)) :
    records? number base (raw :: rest) = records? (number + 1) base rest := by
  rw [records?, hblank]

theorem records?_line (hline : Text.trim raw ≠ []) (number : Nat) (base : UInt32)
    (rest : List (List Char)) :
    records? number base (raw :: rest) =
      match (Line.decode? (Text.trim raw)).bind (Line.effect? base) with
      | .error fault => .error (.hexFormat number fault)
      | .ok .endOfFile => .ok []
      | .ok .nothing => records? (number + 1) base rest
      | .ok (.base base) => records? (number + 1) base rest
      | .ok (.record record) => (records? (number + 1) base rest).map (record :: ·) := by
  rw [records?]
  split
  · next hblank => exact absurd hblank hline
  · cases (Line.decode? (Text.trim raw)).bind (Line.effect? base) with
    | error fault => rfl
    | ok effect =>
      cases effect with
      | nothing | base | endOfFile => rfl
      | record record => cases records? (number + 1) base rest <;> rfl

theorem effect?_unknown (hunknown : ¬ line.IsKnown) (base : UInt32) :
    ∃ fault, line.effect? base = .error fault := by
  unfold Line.IsKnown at hunknown
  unfold Line.effect?
  split
  · next htype => exact absurd (.inl htype) hunknown
  · next htype => exact absurd (.inr (.inl htype)) hunknown
  · next htype =>
    split
    · next hdata => exact absurd (.inr (.inr ⟨.inl htype, by rw [hdata]; rfl⟩)) hunknown
    · exact ⟨_, rfl⟩
  · next htype =>
    split
    · next hdata => exact absurd (.inr (.inr ⟨.inr htype, by rw [hdata]; rfl⟩)) hunknown
    · exact ⟨_, rfl⟩
  · exact ⟨_, rfl⟩

theorem effect?_endOfFile (htype : line.type = 0x01) : line.effect? base = .ok .endOfFile := by
  rw [Line.effect?, htype]
  rfl

theorem toNat_base (high low : UInt8) (shift : UInt32) (hshift : shift.toNat ≤ 16) :
    ((Words.ofBigEndian high low).toUInt32 <<< shift).toNat = 2 ^ shift.toNat * value [high, low] ∧
      2 ^ shift.toNat * value [high, low] + 65535 < 2 ^ 32 := by
  have hvalue : (Words.ofBigEndian high low).toUInt32.toNat = value [high, low] := by
    rw [UInt16.toNat_toUInt32, Words.toNat_ofBigEndian]
    simp [value]
  have hword : value [high, low] ≤ 65535 := by
    rw [← hvalue, UInt16.toNat_toUInt32]
    exact Nat.le_of_lt_succ (UInt16.toNat_lt _)
  have hproduct : 2 ^ shift.toNat * value [high, low] ≤ 2 ^ 16 * 65535 :=
    Nat.mul_le_mul (Nat.pow_le_pow_right (by decide) hshift) hword
  have hwidth : shift.toNat % 32 = shift.toNat := Nat.mod_eq_of_lt (by omega)
  refine ⟨?_, by omega⟩
  rw [UInt32.toNat_shiftLeft, hvalue, hwidth, Nat.shiftLeft_eq, Nat.mul_comm,
    Nat.mod_eq_of_lt (by omega)]

theorem effect?_address (htype : line.type = 0x02 ∨ line.type = 0x04) (hsize : line.data.length = 2) :
    ∃ next : UInt32, line.effect? base = .ok (.base next) ∧ next.toNat = line.base base.toNat ∧
      next.toNat + 65535 < 2 ^ 32 := by
  obtain ⟨high, low, hdata⟩ := List.length_eq_two.1 hsize
  rcases htype with htype | htype
  · obtain ⟨hnext, hfits⟩ := toNat_base high low 4 (by decide)
    refine ⟨(Words.ofBigEndian high low).toUInt32 <<< 4, ?_, ?_, ?_⟩
    · simp only [Line.effect?, htype, hdata]
    · rw [hnext, Line.base, if_pos htype, hdata]
      rfl
    · rwa [hnext]
  · obtain ⟨hnext, hfits⟩ := toNat_base high low 16 (by decide)
    refine ⟨(Words.ofBigEndian high low).toUInt32 <<< 16, ?_, ?_, ?_⟩
    · simp only [Line.effect?, htype, hdata]
    · rw [hnext, Line.base, if_neg (by simp [htype]), if_pos htype, hdata]
      rfl
    · rwa [hnext]

theorem effect?_data (htype : line.type = 0x00) (hdata : line.data ≠ [])
    (hroom : base.toNat + 65535 < 2 ^ 32) :
    ∃ record, line.effect? base = .ok (.record record) ∧ [place record] = line.placed base.toNat := by
  -- the base leaves room for every offset, so that the sum does not wrap around
  have hoffset := line.offset.toNat_lt
  have haddress : (base + line.offset.toUInt32).toNat = base.toNat + line.offset.toNat := by
    rw [UInt32.toNat_add, UInt16.toNat_toUInt32]
    omega
  refine ⟨⟨base + line.offset.toUInt32, line.data⟩, by simp [Line.effect?, htype, hdata], ?_⟩
  rw [Line.placed, if_pos ⟨htype, hdata⟩, place, haddress]

/-- **One line**: the base that is in force behind it, and the record that it makes if it does. -/
theorem records?_plain (hline : IsLine ReadPair (Text.trim raw) line) (hgoes : line.type ≠ 0x01)
    (hroom : base.toNat + 65535 < 2 ^ 32) (number : Nat) (rest : List (List Char)) :
    ∃ (next : UInt32) (own : List Record), next.toNat = line.base base.toNat ∧
      next.toNat + 65535 < 2 ^ 32 ∧ own.map place = line.placed base.toNat ∧
      records? number base (raw :: rest) = (records? (number + 1) next rest).map (own ++ ·) := by
  have hnone : ∀ result : Except Error (List Record), result.map ([] ++ ·) = result := by
    intro result
    cases result <;> rfl
  obtain ⟨hdecode, hknown⟩ := (isLine_iff _ line).1 hline
  have hread := records?_line hline.ne_nil number base rest
  rw [hdecode, Except.bind] at hread
  rcases hknown with htype | htype | ⟨htype, hsize⟩
  · have hbase : base.toNat = line.base base.toNat := by simp [Line.base, htype]
    by_cases hempty : line.data = []
    · have heffect : line.effect? base = .ok .nothing := by simp [Line.effect?, htype, hempty]
      refine ⟨base, [], hbase, hroom, by simp [Line.placed, hempty], ?_⟩
      rw [hread, heffect, hnone]
    · obtain ⟨record, heffect, hplace⟩ := effect?_data htype hempty hroom
      refine ⟨base, [record], hbase, hroom, hplace, ?_⟩
      rw [hread, heffect]
      rfl
  · exact absurd htype hgoes
  · obtain ⟨next, heffect, hbase, hnext⟩ := effect?_address htype hsize
    have hnodata : line.type ≠ 0x00 := by rcases htype with htype | htype <;> simp [htype]
    refine ⟨next, [], hbase, hnext, by simp [Line.placed, hnodata], ?_⟩
    rw [hread, heffect, hnone]

theorem records?_endOfFile (hline : IsLine ReadPair (Text.trim raw) line) (htype : line.type = 0x01)
    (number : Nat) (rest : List (List Char)) : records? number base (raw :: rest) = .ok [] := by
  obtain ⟨hdecode, -⟩ := (isLine_iff _ line).1 hline
  rw [records?_line hline.ne_nil, hdecode, Except.bind, effect?_endOfFile htype]

theorem records?_offending (hblank : Text.trim raw ≠ [])
    (hnone : ∀ line, ¬ IsLine ReadPair (Text.trim raw) line) (number : Nat)
    (rest : List (List Char)) :
    ∃ fault, records? number base (raw :: rest) = .error (.hexFormat number fault) := by
  rw [records?_line hblank]
  cases hdecode : Line.decode? (Text.trim raw) with
  | error fault => exact ⟨fault, rfl⟩
  | ok line =>
    have hunknown : ¬ line.IsKnown := fun hknown =>
      hnone line ((isLine_iff _ line).2 ⟨hdecode, hknown⟩)
    obtain ⟨fault, hfault⟩ := effect?_unknown hunknown base
    rw [Except.bind, hfault]
    exact ⟨fault, rfl⟩

end

/-! ## whole texts -/

/-- **All lines**: if they are lines of the format, the records are what they describe. -/
theorem records?_complete {raws : List (List Char)} {lines : List Line} {number : Nat} {base : UInt32}
    (h : Complete ReadPair (content number raws) lines) (hroom : base.toNat + 65535 < 2 ^ 32) :
    ∃ records, records? number base raws = .ok records ∧
      records.map place = described base.toNat lines := by
  induction raws generalizing number base lines with
  | nil =>
    obtain rfl := complete_nil_iff.1 h
    exact ⟨[], rfl, rfl⟩
  | cons raw rest ih =>
    rw [content_cons] at h
    split at h
    · next hblank =>
      rw [records?_blank hblank]
      exact ih h hroom
    · rcases complete_cons_iff.1 h with
        ⟨rfl, line, hline, htype⟩ | ⟨line, more, rfl, hline, hgoes, hmore⟩
      · exact ⟨[], records?_endOfFile hline htype number rest, rfl⟩
      · -- the room above the base is what the induction carries along
        obtain ⟨next, own, hnext, hfits, hown, hread⟩ := records?_plain hline hgoes hroom number rest
        obtain ⟨records, hrecords, hplaces⟩ := ih hmore hfits
        refine ⟨own ++ records, by rw [hread, hrecords]; rfl, ?_⟩
        rw [List.map_append, hown, hplaces, hnext]
        rfl

/-- **An offending line**: the first one is named. -/
theorem records?_offends {raws : List (List Char)} {number offending : Nat} {base : UInt32}
    (h : Offends ReadPair (content number raws) offending) (hroom : base.toNat + 65535 < 2 ^ 32) :
    ∃ fault, records? number base raws = .error (.hexFormat offending fault) := by
  induction raws generalizing number base with
  | nil => exact absurd h (not_offends_nil offending)
  | cons raw rest ih =>
    rw [content_cons] at h
    split at h
    · next hblank =>
      rw [records?_blank hblank]
      exact ih h hroom
    · next hblank =>
      rcases offends_cons_iff.1 h with ⟨rfl, hnone⟩ | ⟨line, hline, hgoes, hmore⟩
      · exact records?_offending hblank hnone _ rest
      · obtain ⟨next, own, -, hfits, -, hread⟩ := records?_plain hline hgoes hroom number rest
        obtain ⟨fault, hfault⟩ := ih hmore hfits
        exact ⟨fault, by rw [hread, hfault]; rfl⟩

/-- A text is read by the format, with these pairs of characters for bytes. -/
structure ReadsBy (pair : Char → Char → UInt8 → Prop) (text : String) : Prop where
  /-- The records are the data of the lines, each where the base in force and the offset say. -/
  accepts : ∀ records, parse? text = .ok records ↔
    ∃ read, Complete pair (content 1 (lines text.toList)) read ∧
      records.map place = described 0 read
  /-- The first line that is not one of the format is named. -/
  refuses : ∀ number, (∃ fault, parse? text = .error (.hexFormat number fault)) ↔
    Offends pair (content 1 (lines text.toList)) number
  fails : ∀ error, parse? text = .error error → ∃ number fault, error = .hexFormat number fault

theorem room_at_start : (0 : UInt32).toNat + 65535 < 2 ^ 32 := by decide

theorem parse?_cases (text : String) :
    (∃ read records, Complete ReadPair (content 1 (lines text.toList)) read ∧
        parse? text = .ok records ∧ records.map place = described 0 read) ∨
      ∃ number fault, Offends ReadPair (content 1 (lines text.toList)) number ∧
        parse? text = .error (.hexFormat number fault) := by
  rcases complete_or_offends ReadPair (content 1 (lines text.toList)) with
    ⟨read, hread⟩ | ⟨number, hnumber⟩
  · obtain ⟨records, hrecords, hplaces⟩ := records?_complete hread room_at_start
    exact .inl ⟨read, records, hread, hrecords, hplaces⟩
  · obtain ⟨fault, hfault⟩ := records?_offends hnumber room_at_start
    exact .inr ⟨number, fault, hnumber, hfault⟩

theorem readsBy_readPair (text : String) : ReadsBy ReadPair text := by
  constructor
  case accepts =>
    intro records
    constructor
    · intro h
      rcases parse?_cases text with ⟨read, own, hread, hown, hplaces⟩ | ⟨number, fault, -, hfault⟩
      · cases hown.symm.trans h
        exact ⟨read, hread, hplaces⟩
      · cases hfault.symm.trans h
    · rintro ⟨read, hread, hplaces⟩
      obtain ⟨own, hown, hsame⟩ := records?_complete hread room_at_start
      rw [place_injective.list_map (hplaces.trans hsame.symm)]
      exact hown
  case refuses =>
    intro number
    constructor
    · rintro ⟨fault, h⟩
      rcases parse?_cases text with ⟨read, own, -, hown, -⟩ | ⟨first, fault', hfirst, hfault⟩
      · cases hown.symm.trans h
      · cases hfault.symm.trans h
        exact hfirst
    · intro h
      exact records?_offends h room_at_start
  case fails =>
    intro error h
    rcases parse?_cases text with ⟨read, own, -, hown, -⟩ | ⟨first, fault, -, hfault⟩
    · cases hown.symm.trans h
    · cases hfault.symm.trans h
      exact ⟨first, fault, rfl⟩

/-! ## texts without a plus sign -/

theorem mem_of_mem_lines {text raw : List Char} {c : Char} (hraw : raw ∈ lines text) (hc : c ∈ raw) :
    c ∈ text := by
  induction text generalizing raw with
  | nil =>
    rw [lines_nil, List.mem_singleton] at hraw
    exact hraw ▸ hc
  | cons d rest ih =>
    rw [lines_cons] at hraw
    split at hraw
    · rcases List.mem_cons.1 hraw with rfl | hraw
      · cases hc
      · exact List.mem_cons_of_mem _ (ih hraw hc)
    · obtain ⟨first, more, hlines⟩ := List.exists_cons_of_ne_nil (lines_ne_nil rest)
      rw [hlines] at ih
      rw [hlines, List.modifyHead_cons, List.mem_cons] at hraw
      rcases hraw with rfl | hraw
      · rcases List.mem_cons.1 hc with rfl | hc
        · exact List.mem_cons_self
        · exact List.mem_cons_of_mem _ (ih List.mem_cons_self hc)
      · exact List.mem_cons_of_mem _ (ih (List.mem_cons_of_mem _ hraw) hc)

theorem mem_of_mem_trim {text : List Char} {c : Char} (h : c ∈ Text.trim text) : c ∈ text := by
  rw [Text.trim, Text.trimEnd, List.mem_reverse] at h
  have hend := (List.dropWhile_sublist _).subset h
  rw [List.mem_reverse] at hend
  exact (List.dropWhile_sublist _).subset hend

theorem mem_of_mem_content {text : List Char} {entry : Nat × List Char} {number : Nat}
    (hentry : entry ∈ content number (lines text)) {c : Char} (hc : c ∈ entry.2) : c ∈ text := by
  obtain ⟨⟨raw, place⟩, hraw, rfl⟩ := List.mem_map.1 (List.mem_filter.1 hentry).1
  exact mem_of_mem_lines (List.fst_mem_of_mem_zipIdx hraw) (mem_of_mem_trim hc)

theorem spells_hexPair_iff {digits : List Char} {bytes : List UInt8} (hplus : '+' ∉ digits) :
    Spells ReadPair digits bytes ↔ Spells HexPair digits bytes := by
  constructor
  · intro h
    induction h with
    | nil => exact .nil
    | cons head tail ih =>
      rw [List.mem_cons, List.mem_cons, not_or, not_or] at hplus
      exact .cons (head.resolve_right fun h => hplus.1 h.1.symm) (ih hplus.2.2)
  · intro h
    exact h.mono .inl

theorem isLine_hexPair_iff {text : List Char} (hplus : '+' ∉ text) (line : Line) :
    IsLine ReadPair text line ↔ IsLine HexPair text line := by
  have hspells : ∀ digits bytes, text = ':' :: digits →
      (Spells ReadPair digits bytes ↔ Spells HexPair digits bytes) := by
    rintro digits bytes rfl
    exact spells_hexPair_iff fun h => hplus (List.mem_cons_of_mem _ h)
  constructor
  · rintro ⟨digits, bytes, htext, hdigits, hrest⟩
    exact ⟨digits, bytes, htext, (hspells digits bytes htext).1 hdigits, hrest⟩
  · rintro ⟨digits, bytes, htext, hdigits, hrest⟩
    exact ⟨digits, bytes, htext, (hspells digits bytes htext).2 hdigits, hrest⟩

section
variable {pair pair' : Char → Char → UInt8 → Prop} {content : List (Nat × List Char)}

theorem complete_congr
    (h : ∀ entry ∈ content, ∀ line, IsLine pair entry.2 line ↔ IsLine pair' entry.2 line)
    (lines : List Line) : Complete pair content lines ↔ Complete pair' content lines := by
  induction content generalizing lines with
  | nil => rw [complete_nil_iff, complete_nil_iff]
  | cons entry content ih =>
    rw [List.forall_mem_cons] at h
    simp only [complete_cons_iff, h.1, ih h.2]

theorem offends_congr
    (h : ∀ entry ∈ content, ∀ line, IsLine pair entry.2 line ↔ IsLine pair' entry.2 line)
    (number : Nat) : Offends pair content number ↔ Offends pair' content number := by
  induction content with
  | nil => exact iff_of_false (not_offends_nil number) (not_offends_nil number)
  | cons entry content ih =>
    rw [List.forall_mem_cons] at h
    simp only [offends_cons_iff, h.1, ih h.2]

end

/-- **A text is read by the format, but that a plus sign passes for the first digit of a byte.** -/
theorem reads_format (text : String) :
    ReadsBy ReadPair text ∧ ('+' ∉ text.toList → ReadsBy HexPair text) := by
  refine ⟨readsBy_readPair text, fun hplus => ?_⟩
  have hread := readsBy_readPair text
  have hlines : ∀ entry ∈ content 1 (lines text.toList), ∀ line,
      IsLine ReadPair entry.2 line ↔ IsLine HexPair entry.2 line :=
    fun entry hentry => isLine_hexPair_iff fun h => hplus (mem_of_mem_content hentry h)
  constructor
  case accepts =>
    intro records
    simp only [hread.accepts, complete_congr hlines]
  case refuses =>
    intro number
    rw [hread.refuses, offends_congr hlines]
  case fails => exact hread.fails

/-- A text with a plus sign for a digit is read, although it is not of the format. -/
theorem reads_plus_sign : ¬ ReadsBy HexPair ":+100000055AA\n" := by
  intro h
  have hparse : parse? ":+100000055AA\n" = .ok [⟨0, [0x55]⟩] := rfl
  have hcontent : content 1 (lines ":+100000055AA\n".toList) = [(1, ":+100000055AA".toList)] := rfl
  obtain ⟨read, hread, hplaces⟩ := (h.accepts _).1 hparse
  have hline : ∃ line, IsLine HexPair ":+100000055AA".toList line := by
    rw [hcontent, complete_cons_iff] at hread
    rcases hread with ⟨-, line, hline, -⟩ | ⟨line, -, -, hline, -⟩
    · exact ⟨line, hline⟩
    · exact ⟨line, hline⟩
  obtain ⟨line, digits, bytes, htext, hdigits, -⟩ := hline
  obtain rfl : "+100000055AA".toList = digits := (List.cons.inj htext).2
  cases hdigits with
  | cons head tail =>
    obtain ⟨high, low, hplus, -⟩ := head
    exact not_digit_plus high hplus

end CameraPower.IntelHex
