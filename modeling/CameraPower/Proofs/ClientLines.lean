import CameraPower.Proofs.ListCuts
import CameraPower.Session.LineReader

/-!
# The lines of an input

What the lines of a client's input are, said without a reader.  A reader that gets the input piece by
piece finds them one after the other, wherever it is cut.

* `ClientLine.ofInput`     the lines of an input;
* `LineReader.Holds`       a reader in the middle of a line;
* `LineReader.next_cases`  what comes next.
-/

namespace CameraPower

/-! ## lines -/

namespace ClientLine

/-- what stands between the newlines, and behind the last one if the input is `finished` -/
def pieces (input : List UInt8) (finished : Bool) : List (List UInt8) :=
  let cut := input.splitOn 10
  cut.dropLast ++ if finished then cut.getLast?.toList.filter (· ≠ []) else []

/-- the complete lines of an input -/
def ofInput (input : List UInt8) (finished : Bool) : List ClientLine :=
  (pieces input finished).map ofBytes

theorem ofInput_line {front : List UInt8} (h : 10 ∉ front) (rest : List UInt8) (finished : Bool) :
    ofInput (front ++ 10 :: rest) finished = ofBytes front :: ofInput rest finished := by
  have hcut : (front ++ 10 :: rest).splitOn 10 = front :: rest.splitOn 10 :=
    List.splitOnP_append_cons_of_forall_mem
      (fun b hb => beq_false_of_ne fun hten : b = 10 => h (hten ▸ hb)) 10 (beq_self_eq_true _) rest
  have hrest : rest.splitOn 10 ≠ [] := List.splitOn_ne_nil 10 rest
  simp only [ofInput, pieces, hcut, List.dropLast_cons_of_ne_nil hrest,
    List.getLast?_cons_of_ne_nil hrest, List.cons_append, List.map_cons]

theorem ofInput_unfinished {front : List UInt8} (h : 10 ∉ front) (finished : Bool) :
    ofInput front finished = if finished ∧ front ≠ [] then [ofBytes front] else [] := by
  have hcut : front.splitOn 10 = [front] := List.splitOn_eq_singleton h
  cases finished <;> cases front <;> simp [ofInput, pieces, hcut]

end ClientLine

/-! ## a reader -/

namespace LineReader

/-- the reader has taken in the beginning of a line -/
structure Holds (reader : LineReader) (begun : List UInt8) : Prop where
  unfinished : 10 ∉ begun
  kept : reader = ({} : LineReader).keep begun

theorem keep_keep (a b : List UInt8) :
    (({} : LineReader).keep a).keep b = ({} : LineReader).keep (a ++ b) := by
  by_cases ha : a.length > ClientLine.maxSize
  · have hab : a.length + b.length > ClientLine.maxSize :=
      Nat.lt_of_lt_of_le ha (Nat.le_add_right _ _)
    simp [keep, ha, hab]
  · simp [keep, ha]

theorem finish_keep (begun : List UInt8) :
    (({} : LineReader).keep begun).finish = .ofBytes begun := by
  by_cases hlong : begun.length > ClientLine.maxSize
  · simp [keep, finish, ClientLine.ofBytes, hlong]
  · simp [keep, finish, hlong]

theorem isEmpty_keep_iff (begun : List UInt8) :
    (({} : LineReader).keep begun).isEmpty = true ↔ begun = [] := by
  by_cases hlong : begun.length > ClientLine.maxSize
  · have hne : begun ≠ [] := by
      rintro rfl
      cases hlong
    simp [keep, isEmpty, hlong, hne]
  · simp [keep, isEmpty, hlong]

theorem holds_nil : ({} : LineReader).Holds [] :=
  ⟨List.not_mem_nil, rfl⟩

theorem cut_cases (bytes : List UInt8) :
    (10 ∉ bytes ∧ cut bytes = none) ∨
      ∃ front rest, bytes = front ++ 10 :: rest ∧ 10 ∉ front ∧ cut bytes = some (front, rest) := by
  have hplain : ∀ {some : List UInt8}, (∀ b ∈ some, (b != 10) = true) → 10 ∉ some :=
    fun h hten => by simpa using h 10 hten
  unfold cut
  rcases first_cases (· != 10) bytes with
    ⟨hall, hdrop⟩ | ⟨front, newline, rest, hbytes, hfront, hnewline, htake, hdrop⟩
  · rw [hdrop]
    exact Or.inl ⟨hplain hall, rfl⟩
  · have hten : newline = 10 := by simpa using hnewline
    rw [hdrop, htake]
    exact Or.inr ⟨front, rest, hten ▸ hbytes, hplain hfront, rfl⟩

/-- What comes next for a reader that has begun a line, with the lines of all the input, whatever
more of it comes. -/
inductive Nexts (begun received : List UInt8) (ended : Bool) : Next → Prop
  | line (line : ClientLine) (rest : List UInt8)
    (lines : ∀ (more : List UInt8) (finished : Bool), (ended = true → more = [] ∧ finished = true) →
      ClientLine.ofInput (begun ++ received ++ more) finished =
        line :: ClientLine.ofInput (rest ++ more) finished) :
    Nexts begun received ended (.line line rest)
  | more (reader : LineReader) (holds : reader.Holds (begun ++ received)) (goesOn : ended = false) :
    Nexts begun received ended (.more reader)
  | ended (nothing : begun ++ received = []) (atEnd : ended = true) :
    Nexts begun received ended .ended

theorem Holds.next_cases {reader : LineReader} {begun : List UInt8} (h : reader.Holds begun)
    (received : List UInt8) (ended : Bool) :
    Nexts begun received ended (reader.next received ended) := by
  obtain ⟨hunfinished, rfl⟩ := h
  unfold next
  rcases cut_cases received with ⟨hnone, hcut⟩ | ⟨front, rest, hreceived, hfront, hcut⟩
  · simp only [hcut, keep_keep, finish_keep, isEmpty_keep_iff]
    have hall : 10 ∉ begun ++ received := by simp [hunfinished, hnone]
    cases ended with
    | false => exact .more _ ⟨hall, rfl⟩ rfl
    | true =>
      by_cases hnothing : begun ++ received = []
      · simp only [if_true, if_pos hnothing]
        exact .ended hnothing rfl
      · simp only [if_true, if_neg hnothing]
        refine .line _ _ fun more finished hlast => ?_
        obtain ⟨rfl, rfl⟩ := hlast rfl
        have hempty : ClientLine.ofInput ([] ++ []) true = [] := rfl
        rw [List.append_nil, ClientLine.ofInput_unfinished hall, if_pos ⟨rfl, hnothing⟩, hempty]
  · simp only [hcut, keep_keep, finish_keep]
    refine .line _ _ fun more finished _ => ?_
    have hbegun : 10 ∉ begun ++ front := by simp [hunfinished, hfront]
    have hsplit : begun ++ received ++ more = (begun ++ front) ++ 10 :: (rest ++ more) := by
      simp [hreceived]
    rw [hsplit, ClientLine.ofInput_line hbegun]

end LineReader
end CameraPower
