import CameraPower.Agenda
import Mathlib.Data.List.TakeWhile

/-!
# What is due when

An agenda in the order of time is taken from its front, and what is entered keeps it in order.

* `Agenda.Sorted`         in the order of time;
* `Sorted.later`          what is left when everything due has been taken is due later;
* `Agenda.Ahead`          in the order of time, and with nothing that is past;
* `Ahead.insert`          an event of the present or the future, `Ahead.insertAll` any number of them;
* `Agenda.Next`           what is due at the first instant, and what is due later.
-/

namespace CameraPower.Agenda

variable {α : Type} {agenda : Agenda α}

def Sorted (agenda : Agenda α) : Prop :=
  agenda.entries.Pairwise fun entry other => entry.1 ≤ other.1

theorem Sorted.later_of_head (h : agenda.Sorted) {now : Time}
    (hhead : ∀ first ∈ agenda.entries.head?, now < first.1) :
    ∀ entry ∈ agenda.entries, now < entry.1 := by
  unfold Sorted at h
  generalize agenda.entries = entries at h hhead ⊢
  cases entries with
  | nil => exact nofun
  | cons first rest =>
    have hfirst : now < first.1 := hhead first rfl
    intro entry hmem
    rcases List.mem_cons.mp hmem with rfl | hmem
    · exact hfirst
    · exact Nat.lt_of_lt_of_le hfirst (List.rel_of_pairwise_cons h hmem)

theorem Sorted.takeDue (h : agenda.Sorted) (now : Time) : (agenda.takeDue now).2.Sorted :=
  List.Pairwise.sublist (List.dropWhile_sublist _) h

/-- what is left when everything due has been taken is due later -/
theorem Sorted.later (h : agenda.Sorted) (now : Time) :
    ∀ entry ∈ (agenda.takeDue now).2.entries, now < entry.1 := by
  refine (h.takeDue now).later_of_head fun first hfirst => ?_
  have hhead := List.head?_dropWhile_not (fun entry : Time × α => decide (entry.1 ≤ now))
    agenda.entries
  have hsame : (agenda.entries.dropWhile (·.1 ≤ now)).head? = some first := hfirst
  rw [hsame] at hhead
  simpa using hhead

theorem mem_insertEntry {entry other : Time × α} {entries : List (Time × α)} :
    other ∈ insertEntry entry entries ↔ other = entry ∨ other ∈ entries := by
  induction entries with
  | nil => simp [insertEntry]
  | cons first rest ih =>
    rw [insertEntry]
    split
    · exact List.mem_cons
    · rw [List.mem_cons, ih, List.mem_cons, or_left_comm]

theorem pairwise_insertEntry (entry : Time × α) {entries : List (Time × α)}
    (h : entries.Pairwise fun entry other => entry.1 ≤ other.1) :
    (insertEntry entry entries).Pairwise fun entry other => entry.1 ≤ other.1 := by
  induction entries with
  | nil => exact List.pairwise_singleton _ _
  | cons first rest ih =>
    obtain ⟨hfirst, hrest⟩ := List.pairwise_cons.mp h
    rw [insertEntry]
    split
    · rename_i hearlier
      refine List.pairwise_cons.mpr ⟨fun other hmem => ?_, h⟩
      rcases List.mem_cons.mp hmem with rfl | hmem
      · exact Nat.le_of_lt hearlier
      · exact Nat.le_trans (Nat.le_of_lt hearlier) (hfirst other hmem)
    · rename_i hlater
      refine List.pairwise_cons.mpr ⟨fun other hmem => ?_, ih hrest⟩
      rcases mem_insertEntry.mp hmem with rfl | hmem
      · exact Nat.le_of_not_lt hlater
      · exact hfirst other hmem

/-- in the order of time, and with nothing that should have happened before -/
structure Ahead (now : Time) (agenda : Agenda α) : Prop where
  sorted : agenda.Sorted
  notPast : ∀ entry ∈ agenda.entries, now ≤ entry.1

theorem Ahead.insert {now time : Time} (h : agenda.Ahead now) (hlater : now ≤ time) (event : α) :
    (agenda.insert time event).Ahead now where
  sorted := pairwise_insertEntry (time, event) h.sorted
  notPast entry hmem := by
    rcases mem_insertEntry.mp hmem with rfl | hmem
    · exact hlater
    · exact h.notPast entry hmem

theorem Ahead.insertAll {now : Time} (h : agenda.Ahead now) (events : List (Time × α))
    (hlater : ∀ event ∈ events, now ≤ event.1) : (agenda.insertAll events).Ahead now := by
  induction events generalizing agenda with
  | nil => exact h
  | cons event rest ih =>
    obtain ⟨hfirst, hrest⟩ := List.forall_mem_cons.mp hlater
    exact ih (h.insert hfirst event.2) hrest

theorem length_takeDue (agenda : Agenda α) (now : Time) :
    agenda.entries.length = (agenda.takeDue now).1.length + (agenda.takeDue now).2.entries.length ∧
      ∀ first ∈ agenda.entries.head?, first.1 ≤ now → 0 < (agenda.takeDue now).1.length := by
  constructor
  · rw [takeDue, List.length_map, ← List.length_append, List.takeWhile_append_dropWhile]
  · intro first hfirst hdue
    obtain ⟨rest, hentries⟩ := List.head?_eq_some_iff.mp hfirst
    have htake : (first :: rest).takeWhile (·.1 ≤ now) = first :: rest.takeWhile (·.1 ≤ now) :=
      List.takeWhile_cons_of_pos (decide_eq_true hdue)
    rw [takeDue, hentries, htake]
    exact Nat.succ_pos _

/-! ## the first instant -/

/-- Everything that is due first is due at one instant, and all else later. -/
structure Next (agenda : Agenda α) (instant : Time) (due : List α) (rest : Agenda α) : Prop where
  entries : agenda.entries = due.map (instant, ·) ++ rest.entries
  occupied : due ≠ []
  later : ∀ entry ∈ rest.entries, instant < entry.1

theorem takeDue_of_later {now : Time} (h : ∀ entry ∈ agenda.entries, now < entry.1) :
    agenda.takeDue now = ([], agenda) := by
  obtain ⟨entries⟩ := agenda
  cases entries with
  | nil => rfl
  | cons first rest =>
    have hfirst : ¬ decide (first.1 ≤ now) = true := by
      rw [decide_eq_true_eq]
      exact Nat.not_le.mpr (h first List.mem_cons_self)
    have htake : (first :: rest).takeWhile (·.1 ≤ now) = [] := List.takeWhile_cons_of_neg hfirst
    have hdrop : (first :: rest).dropWhile (·.1 ≤ now) = first :: rest :=
      List.dropWhile_cons_of_neg hfirst
    rw [takeDue, htake, hdrop]
    rfl

variable {instant : Time} {due : List α} {rest : Agenda α}

theorem Next.next?_eq (h : agenda.Next instant due rest) : agenda.next? = some instant := by
  obtain ⟨first, others, rfl⟩ := List.exists_cons_of_ne_nil h.occupied
  rw [next?, h.entries]
  rfl

theorem Next.takeDue_eq (h : agenda.Next instant due rest) :
    agenda.takeDue instant = (due, rest) := by
  have hdue : ∀ entry ∈ due.map (instant, ·), decide (entry.1 ≤ instant) = true := by
    intro entry hentry
    obtain ⟨event, -, rfl⟩ := List.mem_map.mp hentry
    exact decide_eq_true (Nat.le_refl instant)
  obtain ⟨hnone, hrest⟩ := Prod.mk.inj (takeDue_of_later h.later)
  rw [List.map_eq_nil_iff] at hnone
  rw [takeDue, h.entries, List.takeWhile_append_of_pos hdue, List.dropWhile_append_of_pos hdue,
    hnone, List.append_nil, List.map_map, hrest]
  exact congrArg (·, rest) (List.map_id due)

theorem Next.exists_mem (h : agenda.Next instant due rest) :
    ∃ event, (instant, event) ∈ agenda.entries := by
  obtain ⟨event, others, rfl⟩ := List.exists_cons_of_ne_nil h.occupied
  refine ⟨event, ?_⟩
  rw [h.entries]
  exact List.mem_cons_self

theorem Next.not_before (h : agenda.Next instant due rest) :
    ∀ entry ∈ agenda.entries, instant ≤ entry.1 := by
  intro entry hentry
  rw [h.entries] at hentry
  rcases List.mem_append.mp hentry with hdue | hrest
  · obtain ⟨event, -, rfl⟩ := List.mem_map.mp hdue
    exact Nat.le_refl instant
  · exact Nat.le_of_lt (h.later entry hrest)

/-- there is a first instant unless nothing is to happen at all -/
theorem Sorted.next_cases (h : agenda.Sorted) :
    agenda.entries = [] ∨ ∃ instant due rest, agenda.Next instant due rest := by
  obtain ⟨entries⟩ := agenda
  cases entries with
  | nil => exact Or.inl rfl
  | cons first others =>
    right
    let taken := (first :: others).takeWhile (·.1 ≤ first.1)
    have hfirst : ∀ entry ∈ first :: others, first.1 ≤ entry.1 := by
      intro entry hentry
      rcases List.mem_cons.mp hentry with rfl | hrest
      · exact Nat.le_refl _
      · exact List.rel_of_pairwise_cons h hrest
    have hat : ∀ entry ∈ taken, (first.1, entry.2) = entry := by
      intro entry hentry
      have hupTo : entry.1 ≤ first.1 := by simpa using List.mem_takeWhile_imp hentry
      have hmem : entry ∈ first :: others := (List.takeWhile_prefix _).subset hentry
      exact Prod.ext (Nat.le_antisymm (hfirst entry hmem) hupTo) rfl
    refine ⟨first.1, taken.map Prod.snd, ((⟨first :: others⟩ : Agenda α).takeDue first.1).2, ?_, ?_,
      h.later first.1⟩
    · have hdue : (taken.map Prod.snd).map (first.1, ·) = taken := by
        rw [List.map_map]
        exact (List.map_congr_left hat).trans (List.map_id taken)
      rw [hdue]
      exact List.takeWhile_append_dropWhile.symm
    · have hhead : taken = first :: others.takeWhile (·.1 ≤ first.1) :=
        List.takeWhile_cons_of_pos (decide_eq_true (Nat.le_refl _))
      rw [hhead]
      exact List.cons_ne_nil _ _

end CameraPower.Agenda
