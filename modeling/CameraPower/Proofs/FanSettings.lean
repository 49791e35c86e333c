import CameraPower.CommandLine
import CameraPower.Proofs.ClientVocabulary

/-!
# Fan speeds of clients and of the command line

Clients and the command line write a fan speed as a numeral of at most 255, zeros in front of it or not.
Behind what a client writes in front of a speed there can also be the words for no override and for no
speed.

* `spells_fan_iff`         what a client can set the fan to;
* `fan?_eq_some_iff`       which speeds the command line takes;
* `Agree`                  the two, for one text;
* `takes_same_speeds`      where they agree, and where only one of them takes a text.
-/

namespace CameraPower

/-! ## clients -/

namespace ClientCommand

theorem isPrefixOf?_words : ∀ word ∈ words,
    List.isPrefixOf? "SET_FAN_".toList word.text.toList =
      if word = .setFanAuto then some "AUTO".toList
      else if word = .setFanOff then some "OFF".toList else none := by
  decide

theorem spells_fan_iff {command : ClientCommand} {rest : List Char} :
    Spells command ("SET_FAN_".toList ++ rest) ↔
      (command = .setFanAuto ∧ rest = "AUTO".toList) ∨
        (command = .setFanOff ∧ rest = "OFF".toList) ∨
          ∃ speed, command = .setFanSpeed speed ∧ Numeral.IsDecimal rest speed.toNat := by
  constructor
  · intro h
    generalize hcore : "SET_FAN_".toList ++ rest = core at h
    cases h with
    | text =>
      rcases cases_words command with hword | ⟨mode, rfl⟩ | ⟨speed, rfl⟩
      · have hfront := isPrefixOf?_words command hword
        rw [isPrefixOf?_eq_some_iff.2 hcore.symm] at hfront
        split_ifs at hfront with hauto hoff
        · exact .inl ⟨hauto, Option.some.inj hfront⟩
        · exact .inr (.inl ⟨hoff, Option.some.inj hfront⟩)
      · rw [toList_text_setPowerupMode] at hcore
        cases isPrefixOf?_eq_some_iff.2 hcore.symm
      · rw [toList_text_setFanSpeed, List.append_cancel_left_eq] at hcore
        exact .inr (.inr ⟨speed, rfl, hcore ▸ Numeral.isDecimal_decimal _⟩)
    | @speed digits speed h =>
      rw [List.append_cancel_left_eq] at hcore
      exact .inr (.inr ⟨speed, rfl, hcore ▸ h⟩)
  · rintro (⟨rfl, rfl⟩ | ⟨rfl, rfl⟩ | ⟨speed, rfl, h⟩)
    · exact .text .setFanAuto
    · exact .text .setFanOff
    · exact .speed h

theorem parse?_fan {text : String} (h : ∀ c ∈ text.toList, Text.isBlank c = false)
    (command : ClientCommand) : parse? ("SET_FAN_" ++ text) = some command ↔
      (command = .setFanAuto ∧ text = "AUTO") ∨ (command = .setFanOff ∧ text = "OFF") ∨
        ∃ speed, command = .setFanSpeed speed ∧ Numeral.IsDecimal text.toList speed.toNat := by
  have hplain : ∀ c ∈ ("SET_FAN_" ++ text).toList, Text.isBlank c = false := by
    rw [String.toList_append]
    exact List.forall_mem_append.2 ⟨Text.plain_of_all (by decide), h⟩
  rw [parse?_of_strips (Text.strips_plain hplain), ofTrimmed?_eq_some_iff, String.toList_append,
    spells_fan_iff, String.toList_inj, String.toList_inj]

end ClientCommand

/-! ## the command line -/

namespace CommandLine

theorem fan?_eq_some_iff {text : String} (h : text ≠ "off" ∧ text ≠ "auto") (fan : FanOverride) :
    fan? text = some fan ↔ ∃ speed : UInt8, fan = .fixed speed ∧
      (Numeral.IsDecimal text.toList speed.toNat ∨
        ∃ digits, text.toList = '+' :: digits ∧ Numeral.IsDecimal digits speed.toNat) := by
  rw [fan?, if_neg (not_or.2 h), Option.map_eq_some_iff]
  simp only [Numeral.unsigned?_eq_some_iff]
  constructor
  · rintro ⟨n, ⟨hsmall, hn⟩, rfl⟩
    have hsame : (UInt8.ofNat n).toNat = n := by
      rw [UInt8.toNat_ofNat']
      omega
    exact ⟨UInt8.ofNat n, rfl, by rwa [hsame]⟩
  · rintro ⟨speed, rfl, hn⟩
    have hspeed := speed.toNat_lt
    exact ⟨speed.toNat, ⟨by omega, hn⟩, by rw [UInt8.ofNat_toNat]⟩

/-- What is set on the command line is a text without blanks, and none of its two words. -/
structure IsOperand (text : String) : Prop where
  plain : ∀ c ∈ text.toList, Text.isBlank c = false
  noWord : text ≠ "off" ∧ text ≠ "auto"

/-- Clients and the command line take a text for the same speed, or neither takes it. -/
structure Agree (text : String) : Prop where
  speeds : ∀ speed : UInt8,
    (fan? text = some (.fixed speed) ↔ Numeral.IsDecimal text.toList speed.toNat) ∧
      (ClientCommand.parse? ("SET_FAN_" ++ text) = some (.setFanSpeed speed) ↔
        Numeral.IsDecimal text.toList speed.toNat)
  others : (∀ speed : UInt8, ¬ Numeral.IsDecimal text.toList speed.toNat) →
    fan? text = none ∧ ClientCommand.parse? ("SET_FAN_" ++ text) = none

/-- **Fan speeds.**  What a client can write for a speed is a numeral of at most 255, and apart from
that only one of its own two words.  The command line takes the same numerals, and nothing else but a
word of its own, where no plus sign stands in front of such a numeral. -/
theorem takes_same_speeds {text : String} (h : IsOperand text) :
    (∀ speed : UInt8, ClientCommand.parse? ("SET_FAN_" ++ text) = some (.setFanSpeed speed) ↔
      Numeral.IsDecimal text.toList speed.toNat) ∧
    ((∀ speed : UInt8, ¬ Numeral.IsDecimal text.toList speed.toNat) →
      ClientCommand.parse? ("SET_FAN_" ++ text) =
        if text = "AUTO" then some .setFanAuto
        else if text = "OFF" then some .setFanOff else none) ∧
    ((∀ digits, text.toList = '+' :: digits →
        ∀ speed : UInt8, ¬ Numeral.IsDecimal digits speed.toNat) →
      (∀ speed : UInt8, fan? text = some (.fixed speed) ↔
        Numeral.IsDecimal text.toList speed.toNat) ∧
      ((∀ speed : UInt8, ¬ Numeral.IsDecimal text.toList speed.toNat) → fan? text = none)) := by
  refine ⟨?_, ?_, ?_⟩
  · intro speed
    rw [ClientCommand.parse?_fan h.plain]
    simp
  · intro hnone
    have hread := ClientCommand.parse?_fan h.plain
    split_ifs with hauto hoff
    · exact (hread _).2 (.inl ⟨rfl, hauto⟩)
    · exact (hread _).2 (.inr (.inl ⟨rfl, hoff⟩))
    · rw [Option.eq_none_iff_forall_ne_some]
      intro command hcommand
      rcases (hread command).1 hcommand with ⟨-, htext⟩ | ⟨-, htext⟩ | ⟨speed, -, hspeed⟩
      · exact hauto htext
      · exact hoff htext
      · exact hnone speed hspeed
  · intro hsign
    have hread : ∀ fan, fan? text = some fan ↔
        ∃ speed : UInt8, fan = .fixed speed ∧ Numeral.IsDecimal text.toList speed.toNat := by
      intro fan
      rw [fan?_eq_some_iff h.noWord]
      refine exists_congr fun speed => and_congr_right fun _ => or_iff_left ?_
      rintro ⟨digits, htext, hspeed⟩
      exact hsign digits htext speed hspeed
    constructor
    · intro speed
      rw [hread]
      simp
    · intro hnone
      rw [Option.eq_none_iff_forall_ne_some]
      intro fan hfan
      obtain ⟨speed, -, hspeed⟩ := (hread fan).1 hfan
      exact hnone speed hspeed

/-- any number of zeros may stand in front -/
theorem takes_same_speeds_behind_zeros :
    IsOperand "007" ∧ fan? "007" = some (.fixed 7) ∧
      ClientCommand.parse? ("SET_FAN_" ++ "007") = some (.setFanSpeed 7) := by
  have hoperand : IsOperand "007" := ⟨Text.plain_of_all (by decide), by decide⟩
  have hseven : Numeral.IsDecimal "007".toList (7 : UInt8).toNat :=
    (Numeral.value?_eq_some_iff _ _).1 (by decide)
  have hsign : ∀ digits, "007".toList = '+' :: digits →
      ∀ speed : UInt8, ¬ Numeral.IsDecimal digits speed.toNat := by
    intro digits hdigits
    cases hdigits
  obtain ⟨hclient, -, hline⟩ := takes_same_speeds hoperand
  exact ⟨hoperand, ((hline hsign).1 7).2 hseven, (hclient 7).2 hseven⟩

/-- A client has words of its own behind what stands in front of a speed; the command line takes a
plus sign. -/
theorem disagree_on_word_and_sign :
    (IsOperand "AUTO" ∧ ¬ Agree "AUTO") ∧ IsOperand "+5" ∧ ¬ Agree "+5" := by
  refine ⟨⟨⟨Text.plain_of_all (by decide), by decide⟩, ?_⟩, ⟨Text.plain_of_all (by decide), by decide⟩, ?_⟩
  · intro h
    have hnone : ∀ speed : UInt8, ¬ Numeral.IsDecimal "AUTO".toList speed.toNat :=
      fun speed hspeed => absurd (hspeed.isDigit 'A' (by decide)) (by decide)
    have hword : ClientCommand.parse? ("SET_FAN_" ++ "AUTO") = some .setFanAuto := by decide
    rw [(h.others hnone).2] at hword
    cases hword
  · intro h
    have hfive : fan? "+5" = some (.fixed 5) := by decide
    have hspeed := (h.speeds 5).1.1 hfive
    exact absurd (hspeed.isDigit '+' (by decide)) (by decide)

end CommandLine
end CameraPower
