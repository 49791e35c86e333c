import CameraPower.SampleLog
import CameraPower.Proofs.Decimals
import Mathlib.Data.String.Basic

/-!
# Names of log files in the order of their making

A log file is named by the local time at which it is begun and by its number among the files of this
log, both with a fixed number of digits.  So names sort as the files are begun, as long as the clock
does not go back and the number has no more digits than there is room for.

* `LocalTime`     a time to the second, its number and its text;
* `fileName_lt`   names of files that are begun one after the other.
-/

namespace CameraPower

/-- a local time whose year has four digits; a minute may have a leap second -/
structure LocalTime where
  year : Nat
  month : Nat
  day : Nat
  hour : Nat
  minute : Nat
  second : Nat
  year_lt : year < 10000
  month_le : month ≤ 12
  day_le : day ≤ 31
  hour_lt : hour < 24
  minute_lt : minute < 60
  second_le : second ≤ 60
  deriving DecidableEq

namespace LocalTime

/-- all digits of a time as one number, which is larger for a later time -/
def stamp (time : LocalTime) : Nat :=
  ((((time.year * 100 + time.month) * 100 + time.day) * 100 + time.hour) * 100 + time.minute) * 100 +
    time.second

def field (width n : Nat) : List Char :=
  Numeral.padded width (Numeral.decimal n)

/-- the date and the time of day, as names of files have it -/
def text (time : LocalTime) : String :=
  String.ofList (field 4 time.year ++ field 2 time.month ++ field 2 time.day ++ '_' ::
    (field 2 time.hour ++ field 2 time.minute ++ field 2 time.second))

/-- a later time has a field that is larger, behind fields that are the same -/
theorem fields_of_stamp_le {a b : LocalTime} (h : a.stamp ≤ b.stamp) :
    a.year < b.year ∨ a.year = b.year ∧ (a.month < b.month ∨ a.month = b.month ∧
      (a.day < b.day ∨ a.day = b.day ∧ (a.hour < b.hour ∨ a.hour = b.hour ∧
        (a.minute < b.minute ∨ a.minute = b.minute ∧
          (a.second < b.second ∨ a.second = b.second))))) := by
  have := a.month_le
  have := a.day_le
  have := a.hour_lt
  have := a.minute_lt
  have := a.second_le
  have := b.month_le
  have := b.day_le
  have := b.hour_lt
  have := b.minute_lt
  have := b.second_le
  simp only [stamp] at h
  omega

/-- one field, where the rest decides if it is the same -/
theorem field_append_lt {width m n : Nat} {back back' : List Char} (hwidth : 0 < width)
    (hn : n < 10 ^ width) (h : m < n ∨ m = n ∧ back < back') :
    field width m ++ back < field width n ++ back' := by
  rcases h with hlt | ⟨rfl, hback⟩
  · exact Numeral.padded_append_lt hwidth hlt hn back back'
  · exact List.append_left_lt hback

theorem under_lt {back back' : List Char} (h : back < back') : '_' :: back < '_' :: back' :=
  List.cons_lt_cons_iff.mpr (Or.inr ⟨rfl, h⟩)

end LocalTime

namespace SampleLog

open LocalTime

theorem toList_fileName (time : LocalTime) (sequence : Nat) :
    (fileName time.text sequence).toList = "battery_".toList ++ (field 4 time.year ++
      (field 2 time.month ++ (field 2 time.day ++ ('_' :: (field 2 time.hour ++
        (field 2 time.minute ++ (field 2 time.second ++ ('_' :: (field 4 sequence ++
          ".jsonl".toList))))))))) := by
  simp [fileName, text, field]

/-- **Names sort as the files are begun.** -/
theorem fileName_lt {a b : LocalTime} (htime : a.stamp ≤ b.stamp) {m n : Nat} (hlt : m < n)
    (hn : n < 10000) : fileName a.text m < fileName b.text n := by
  have hmonth := b.month_le
  have hday := b.day_le
  have hhour := b.hour_lt
  have hminute := b.minute_lt
  have hsecond := b.second_le
  have hnumber : field 4 m ++ ".jsonl".toList < field 4 n ++ ".jsonl".toList :=
    field_append_lt (by decide) hn (Or.inl hlt)
  rw [String.lt_iff_toList_lt, toList_fileName, toList_fileName]
  refine List.append_left_lt ?_
  -- field by field: either it is larger, or it is the same and the next one decides
  refine field_append_lt (by decide) b.year_lt
    ((fields_of_stamp_le htime).imp_right (And.imp_right fun h => ?_))
  refine field_append_lt (by decide) (by omega) (h.imp_right (And.imp_right fun h => ?_))
  refine field_append_lt (by decide) (by omega) (h.imp_right (And.imp_right fun h => under_lt ?_))
  refine field_append_lt (by decide) (by omega) (h.imp_right (And.imp_right fun h => ?_))
  refine field_append_lt (by decide) (by omega) (h.imp_right (And.imp_right fun h => ?_))
  exact field_append_lt (by decide) (by omega) (h.imp_right fun h => ⟨h, under_lt hnumber⟩)

end SampleLog
end CameraPower
