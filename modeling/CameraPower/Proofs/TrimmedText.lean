import CameraPower.Text.Blank
import Mathlib.Data.List.TakeWhile

/-!
# Text without the blanks at its ends

* `trim_append`, `trim_gap`  blanks at an end do not count;
* `trim_cases`               a text, put together again;
* `Strips`                   what trimming leaves, said without it (`strips_trim`, `trim_of_strips`).
-/

namespace CameraPower.Text

/-! ## blanks at an end -/

theorem trim_cons {c : Char} (hblank : isBlank c = true) (text : List Char) :
    trim (c :: text) = trim text := by
  rw [trim, trim, trimStart, List.dropWhile_cons_of_pos hblank, trimStart]

theorem trim_gap {gap : List Char} (h : ∀ c ∈ gap, isBlank c = true) (text : List Char) :
    trim (gap ++ text) = trim text := by
  induction gap with
  | nil => rfl
  | cons c gap ih =>
    rw [List.forall_mem_cons] at h
    rw [List.cons_append, trim_cons h.1, ih h.2]

theorem dropWhile_blank {text : List Char} (h : ∀ c ∈ text.head?, isBlank c = false) :
    text.dropWhile isBlank = text := by
  cases text with
  | nil => rfl
  | cons c text => rw [List.dropWhile_cons_of_neg (by simp [h c rfl])]

/-- behind what is not blank, only the rest of a text loses blanks at its end -/
theorem trimEnd_append {core : List Char} (h : ∀ c ∈ core, isBlank c = false)
    (text : List Char) : trimEnd (core ++ text) = core ++ trimEnd text := by
  have hcore : core.reverse.dropWhile isBlank = core.reverse :=
    dropWhile_blank fun c hc => h c (List.mem_reverse.1 (List.mem_of_mem_head? hc))
  have hdrop : (text.reverse ++ core.reverse).dropWhile isBlank =
      text.reverse.dropWhile isBlank ++ core.reverse := by
    rw [List.dropWhile_append]
    split
    · next hempty => rw [hcore, List.isEmpty_iff.1 hempty, List.nil_append]
    · rfl
  rw [trimEnd, List.reverse_append, hdrop, List.reverse_append, List.reverse_reverse,
    trimEnd]

theorem trim_append {c : Char} {core : List Char}
    (hcore : ∀ d ∈ c :: core, isBlank d = false) (text : List Char) :
    trim (c :: core ++ text) = c :: core ++ trimEnd text := by
  have hfirst : ¬ isBlank c = true := by simp [hcore c List.mem_cons_self]
  have hstart : trimStart (c :: core ++ text) = c :: core ++ text :=
    List.dropWhile_cons_of_neg hfirst
  rw [trim, hstart, trimEnd_append hcore]

theorem trimEnd_blank {pad : List Char} (h : ∀ c ∈ pad, isBlank c = true) :
    trimEnd pad = [] := by
  rw [trimEnd, List.dropWhile_eq_nil_iff.2 (by simpa using h), List.reverse_nil]

theorem trimEnd_append_blanks (text : List Char) :
    text = trimEnd text ++ (text.reverse.takeWhile isBlank).reverse := by
  rw [trimEnd, ← List.reverse_append, List.takeWhile_append_dropWhile, List.reverse_reverse]

/-- a text less the blanks at its ends, and these blanks -/
theorem trim_cases (text : List Char) : ∃ gap pad, text = gap ++ (trim text ++ pad) ∧
    (∀ c ∈ gap, isBlank c = true) ∧ ∀ c ∈ pad, isBlank c = true := by
  refine ⟨text.takeWhile isBlank, ((trimStart text).reverse.takeWhile isBlank).reverse,
    ?_, fun c hc => List.mem_takeWhile_imp hc, ?_⟩
  · rw [trim, ← trimEnd_append_blanks, trimStart, List.takeWhile_append_dropWhile]
  · intro c hc
    exact List.mem_takeWhile_imp (List.mem_reverse.1 hc)

/-! ## what is left -/

/-- A core with blanks around it, and with none at its own ends. -/
structure Strips (text core : List Char) : Prop where
  around : ∃ gap pad, text = gap ++ (core ++ pad) ∧
    (∀ c ∈ gap, isBlank c = true) ∧ ∀ c ∈ pad, isBlank c = true
  first : ∀ c ∈ core.head?, isBlank c = false
  last : ∀ c ∈ core.getLast?, isBlank c = false

theorem head_dropWhile_blank (text : List Char) :
    ∀ c ∈ (text.dropWhile isBlank).head?, isBlank c = false := by
  intro c hc
  have hhead := List.head?_dropWhile_not isBlank text
  rwa [Option.mem_def.1 hc] at hhead

theorem strips_trim (text : List Char) : Strips text (trim text) := by
  refine ⟨trim_cases text, ?_, ?_⟩
  · intro c hc
    refine head_dropWhile_blank text c ?_
    show c ∈ (trimStart text).head?
    rw [trimEnd_append_blanks (trimStart text), List.head?_append]
    exact Option.or_eq_some_iff.2 (.inl hc)
  · intro c hc
    rw [trim, trimEnd, List.getLast?_reverse] at hc
    exact head_dropWhile_blank _ c hc

theorem trim_of_strips {text core : List Char} (h : Strips text core) : trim text = core := by
  obtain ⟨gap, pad, rfl, hgap, hpad⟩ := h.around
  rw [trim_gap hgap]
  cases core with
  | nil =>
    rw [List.nil_append, ← List.append_nil pad, trim_gap hpad, trim_nil]
  | cons c core =>
    have hstart : trimStart (c :: core ++ pad) = c :: core ++ pad := dropWhile_blank h.first
    have hlast : (c :: core).reverse.dropWhile isBlank = (c :: core).reverse := by
      refine dropWhile_blank ?_
      rw [List.head?_reverse]
      exact h.last
    rw [trim, hstart, trimEnd, List.reverse_append, List.dropWhile_append_of_pos, hlast,
      List.reverse_reverse]
    intro d hd
    exact hpad d (List.mem_reverse.1 hd)

theorem strips_plain {core : List Char} (h : ∀ c ∈ core, isBlank c = false) :
    Strips core core := by
  refine ⟨⟨[], [], (List.append_nil core).symm, nofun, nofun⟩, ?_, ?_⟩
  · intro c hc
    exact h c (List.mem_of_mem_head? hc)
  · intro c hc
    exact h c (List.mem_of_getLast? hc)

/-- a given text is looked through for blanks -/
theorem plain_of_all {text : List Char} (h : text.all (fun c => !isBlank c) = true) :
    ∀ c ∈ text, isBlank c = false := by
  simpa using h

theorem isBlank_of_isDigit {c : Char} (h : c.isDigit = true) : isBlank c = false := by
  obtain ⟨hlow, hhigh⟩ : 48 ≤ c.toNat ∧ c.toNat ≤ 57 := Char.isDigit_iff_toNat.1 h
  simp only [isBlank, Bool.or_eq_false_iff, Bool.and_eq_false_iff, decide_eq_false_iff_not,
    beq_eq_false_iff_ne]
  omega

end CameraPower.Text
