import CameraPower.ClientCommand
import CameraPower.Proofs.Decimals
import CameraPower.Proofs.TrimmedText
import Mathlib.Data.List.Basic

/-!
# What is a command

The lines that are taken for a command, said without reading them.  A command is written as its own
text, and a fan speed also with zeros in front of it; blanks around it do not count.

* `ClientCommand.Spells`     how a command can be written;
* `ofTrimmed?_eq_some_iff`   what is read of a text without blanks at its ends;
* `reads_vocabulary`         what is read of a line, and that every command reads back.
-/

namespace CameraPower.ClientCommand

/-- how a command can be written -/
inductive Spells : ClientCommand → List Char → Prop
  | text (command : ClientCommand) : Spells command command.text.toList
  | speed {digits : List Char} {speed : UInt8} (h : Numeral.IsDecimal digits speed.toNat) :
    Spells (.setFanSpeed speed) ("SET_FAN_".toList ++ digits)

/-! ## numbers -/

theorem mode?_eq_some_iff {digits : List Char} {mode : PowerupMode} :
    mode? digits = some mode ↔ digits = Numeral.decimal mode.bits.toNat := by
  constructor
  · intro h
    unfold mode? at h
    split at h
    · next c =>
      rw [Numeral.digitValue?_ten] at h
      by_cases hc : c.isDigit = true
      · rw [if_pos hc, Option.bind_some, PowerupMode.ofBits?] at h
        split at h
        · cases h
          obtain ⟨hlow, hhigh⟩ : 48 ≤ c.toNat ∧ c.toNat ≤ 57 := Char.isDigit_iff_toNat.1 hc
          have hsmall : c.toNat - 48 < 10 := by omega
          have hbits : (UInt8.ofNat (c.toNat - 48)).toNat = c.toNat - 48 := by
            rw [UInt8.toNat_ofNat']
            omega
          rw [hbits, Numeral.decimal, if_pos hsmall, Numeral.digit_of_lt hsmall, List.singleton_inj,
            ← Char.toNat_inj, Nat.toNat_digitChar_of_lt_ten hsmall]
          omega
        · cases h
      · simp [hc] at h
    · cases h
  · intro h
    have hbits : mode.bits.toNat < 4 := mode.defined
    have htable : ∀ n < 4, mode? [Numeral.digit n] = PowerupMode.ofBits? (UInt8.ofNat n) := by
      decide
    rw [h, Numeral.decimal, if_pos (by omega), htable _ hbits, UInt8.ofNat_toNat,
      PowerupMode.ofBits?, dif_pos mode.defined]

theorem speed?_eq_some_iff {digits : List Char} {speed : UInt8} :
    speed? digits = some speed ↔ Numeral.IsDecimal digits speed.toNat := by
  have hspeed := speed.toNat_lt
  simp only [speed?, Option.map_eq_some_iff, Option.filter_eq_some_iff, Numeral.value?_eq_some_iff,
    decide_eq_true_eq]
  constructor
  · rintro ⟨n, ⟨hn, hle⟩, rfl⟩
    have hsame : (UInt8.ofNat n).toNat = n := by
      rw [UInt8.toNat_ofNat']
      omega
    rwa [hsame]
  · intro h
    exact ⟨speed.toNat, ⟨h, by omega⟩, UInt8.ofNat_toNat⟩

/-! ## commands -/

theorem isPrefixOf?_eq_some_iff {front text rest : List Char} :
    List.isPrefixOf? front text = some rest ↔ text = front ++ rest := by
  induction front generalizing text with
  | nil => rw [List.isPrefixOf?, List.nil_append, Option.some.injEq]
  | cons c front ih =>
    cases text with
    | nil => exact iff_of_false nofun nofun
    | cons d text =>
      rw [List.isPrefixOf?, List.cons_append, List.cons.injEq]
      by_cases hc : c = d
      · rw [if_pos (beq_iff_eq.2 hc), ih, and_iff_right hc.symm]
      · rw [if_neg (by simpa using hc)]
        exact iff_of_false nofun fun h => hc h.1.symm

theorem last_of_mem_words :
    ∀ word ∈ words, word.text.toList.getLast?.map Char.isDigit = some false := by
  decide

/-- no word ends in a digit, so a numeral does not make one -/
theorem find?_words_eq_none {front digits : List Char} {n : Nat} (h : Numeral.IsDecimal digits n) :
    words.find? (fun command => command.text.toList == front ++ digits) = none := by
  rw [List.find?_eq_none]
  intro word hword heq
  obtain ⟨init, c, rfl⟩ := (List.eq_nil_or_concat' digits).resolve_left h.nonempty
  have hlast := last_of_mem_words word hword
  rw [beq_iff_eq.1 heq, ← List.append_assoc, List.getLast?_concat, Option.map_some,
    h.isDigit c (by simp)] at hlast
  cases hlast

theorem ofTrimmed?_speed {digits : List Char} {speed : UInt8}
    (h : Numeral.IsDecimal digits speed.toNat) :
    ofTrimmed? ("SET_FAN_".toList ++ digits) = some (.setFanSpeed speed) := by
  have hmode : List.isPrefixOf? "SET_POWERUP_MODE_".toList ("SET_FAN_".toList ++ digits) = none :=
    rfl
  rw [ofTrimmed?, find?_words_eq_none h, hmode, isPrefixOf?_eq_some_iff.2 rfl]
  show (speed? digits).map setFanSpeed = _
  rw [speed?_eq_some_iff.2 h, Option.map_some]

theorem ofTrimmed?_mode (mode : PowerupMode) :
    ofTrimmed? ("SET_POWERUP_MODE_".toList ++ Numeral.decimal mode.bits.toNat) =
      some (.setPowerupMode mode) := by
  rw [ofTrimmed?, find?_words_eq_none (Numeral.isDecimal_decimal _), isPrefixOf?_eq_some_iff.2 rfl]
  show (mode? _).map setPowerupMode = _
  rw [mode?_eq_some_iff.2 rfl, Option.map_some]

theorem ofTrimmed?_word : ∀ word ∈ words, ofTrimmed? word.text.toList = some word := by
  decide

theorem cases_words (command : ClientCommand) :
    command ∈ words ∨ (∃ mode, command = .setPowerupMode mode) ∨
      ∃ speed, command = .setFanSpeed speed := by
  cases command with
  | setShippingMode enabled => cases enabled <;> simp [words]
  | _ => simp [words]

theorem toList_text_setPowerupMode (mode : PowerupMode) : (setPowerupMode mode).text.toList =
    "SET_POWERUP_MODE_".toList ++ Numeral.decimal mode.bits.toNat := by
  show ("SET_POWERUP_MODE_" ++ Numeral.ofNat mode.bits.toNat).toList = _
  rw [String.toList_append, Numeral.toList_ofNat]

theorem toList_text_setFanSpeed (speed : UInt8) : (setFanSpeed speed).text.toList =
    "SET_FAN_".toList ++ Numeral.decimal speed.toNat := by
  show ("SET_FAN_" ++ Numeral.ofNat speed.toNat).toList = _
  rw [String.toList_append, Numeral.toList_ofNat]

/-- every command reads back -/
theorem ofTrimmed?_text (command : ClientCommand) :
    ofTrimmed? command.text.toList = some command := by
  rcases cases_words command with hword | ⟨mode, rfl⟩ | ⟨speed, rfl⟩
  · exact ofTrimmed?_word command hword
  · rw [toList_text_setPowerupMode]
    exact ofTrimmed?_mode mode
  · rw [toList_text_setFanSpeed]
    exact ofTrimmed?_speed (Numeral.isDecimal_decimal _)

theorem ofTrimmed?_eq_some_iff {line : List Char} {command : ClientCommand} :
    ofTrimmed? line = some command ↔ Spells command line := by
  constructor
  · intro h
    unfold ofTrimmed? at h
    split at h
    · next word hfind =>
      cases h
      have hline := List.find?_some hfind
      rw [beq_iff_eq] at hline
      rw [← hline]
      exact .text command
    · split at h
      · next digits hfront =>
        obtain ⟨mode, hmode, rfl⟩ := Option.map_eq_some_iff.1 h
        rw [isPrefixOf?_eq_some_iff.1 hfront, mode?_eq_some_iff.1 hmode,
          ← toList_text_setPowerupMode]
        exact .text _
      · split at h
        · next digits hfront =>
          obtain ⟨speed, hspeed, rfl⟩ := Option.map_eq_some_iff.1 h
          rw [isPrefixOf?_eq_some_iff.1 hfront]
          exact .speed (speed?_eq_some_iff.1 hspeed)
        · cases h
  · intro h
    cases h with
    | text => exact ofTrimmed?_text command
    | speed h => exact ofTrimmed?_speed h

/-! ## lines -/

theorem plain_of_isDecimal {front digits : List Char} {n : Nat}
    (hfront : ∀ c ∈ front, Text.isBlank c = false) (h : Numeral.IsDecimal digits n) :
    ∀ c ∈ front ++ digits, Text.isBlank c = false :=
  List.forall_mem_append.2 ⟨hfront, fun c hc => Text.isBlank_of_isDigit (h.isDigit c hc)⟩

theorem Spells.plain {command : ClientCommand} {core : List Char} (h : Spells command core) :
    ∀ c ∈ core, Text.isBlank c = false := by
  have hspeed : ∀ c ∈ "SET_FAN_".toList, Text.isBlank c = false := Text.plain_of_all (by decide)
  cases h with
  | text =>
    rcases cases_words command with hword | ⟨mode, rfl⟩ | ⟨speed, rfl⟩
    · have hwords : ∀ word ∈ words, (word.text.toList.all fun c => !Text.isBlank c) = true := by
        decide
      exact Text.plain_of_all (hwords command hword)
    · have hmode : ∀ c ∈ "SET_POWERUP_MODE_".toList, Text.isBlank c = false :=
        Text.plain_of_all (by decide)
      rw [toList_text_setPowerupMode]
      exact plain_of_isDecimal hmode (Numeral.isDecimal_decimal _)
    · rw [toList_text_setFanSpeed]
      exact plain_of_isDecimal hspeed (Numeral.isDecimal_decimal _)
  | speed h => exact plain_of_isDecimal hspeed h

theorem parse?_of_strips {line : String} {core : List Char} (h : Text.Strips line.toList core) :
    parse? line = ofTrimmed? core := by
  rw [parse?, Text.trim_of_strips h]

/-- **The vocabulary.**  A line is taken for a command if it is a way to write that command, with
blanks around it or without; so every command reads back. -/
theorem reads_vocabulary :
    (∀ (line : String) (command : ClientCommand), parse? line = some command ↔
      ∃ core, Text.Strips line.toList core ∧ Spells command core) ∧
    ∀ command : ClientCommand, parse? command.text = some command := by
  constructor
  · intro line command
    constructor
    · intro h
      rw [parse?, ofTrimmed?_eq_some_iff] at h
      exact ⟨_, Text.strips_trim line.toList, h⟩
    · rintro ⟨core, hcore, hspells⟩
      rw [parse?_of_strips hcore]
      exact ofTrimmed?_eq_some_iff.2 hspells
  · intro command
    rw [parse?_of_strips (Text.strips_plain (Spells.text command).plain)]
    exact ofTrimmed?_text command

end CameraPower.ClientCommand
