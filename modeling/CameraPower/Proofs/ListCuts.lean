import Mathlib.Algebra.Order.Floor.Div
import Mathlib.Data.List.DropRight
import Mathlib.Data.List.TakeWhile

/-!
# Where a list is cut

* `first_cases`   at the first element that fails a test;
* `first_unique`  and there is no other first one;
* `concat_cases`  at any place of a list with a last element;
* `countP_le_one` at a place behind which something never holds again;
* `newest_append` a number of elements in front of its end;
* `Filled`        into groups of one size, where the last one may be smaller.
-/

namespace CameraPower

variable {α : Type}

theorem first_cases (test : α → Bool) (list : List α) :
    ((∀ a ∈ list, test a = true) ∧ list.dropWhile test = []) ∨
      ∃ front a back, list = front ++ a :: back ∧ (∀ b ∈ front, test b = true) ∧ test a = false ∧
        list.takeWhile test = front ∧ list.dropWhile test = a :: back := by
  have hfront : ∀ b ∈ list.takeWhile test, test b = true := fun _ => List.mem_takeWhile_imp
  have hall : list.takeWhile test ++ list.dropWhile test = list := List.takeWhile_append_dropWhile
  have hhead := List.head?_dropWhile_not test list
  cases hdrop : list.dropWhile test with
  | nil =>
    rw [hdrop, List.append_nil] at hall
    exact Or.inl ⟨hall ▸ hfront, rfl⟩
  | cons a back =>
    rw [hdrop] at hhead hall
    exact Or.inr ⟨_, a, back, hall.symm, hfront, hhead, rfl, rfl⟩

theorem first_unique {P : α → Prop} {front back front' back' : List α} {a a' : α}
    (hsame : front ++ a :: back = front' ++ a' :: back') (hfront : ∀ b ∈ front, P b) (ha : ¬ P a)
    (hfront' : ∀ b ∈ front', P b) (ha' : ¬ P a') : a = a' ∧ back = back' := by
  induction front generalizing front' with
  | nil =>
    cases front' with
    | nil => exact List.cons.inj hsame
    | cons b _ => exact absurd (hfront' a ((List.cons.inj hsame).1 ▸ List.mem_cons_self)) ha
  | cons b front ih =>
    cases front' with
    | nil => exact absurd (hfront a' ((List.cons.inj hsame).1 ▸ List.mem_cons_self)) ha'
    | cons b' front' =>
      exact ih (List.cons.inj hsame).2 (fun c hc => hfront c (List.mem_cons_of_mem _ hc))
        fun c hc => hfront' c (List.mem_cons_of_mem _ hc)

theorem concat_cases {list front back : List α} {a last : α}
    (h : list ++ [last] = front ++ a :: back) :
    (list = front ∧ last = a) ∨ ∃ back', list = front ++ a :: back' := by
  rcases List.eq_nil_or_concat back with rfl | ⟨back', final, rfl⟩
  · obtain ⟨rfl, hlast⟩ := List.append_inj' h rfl
    exact Or.inl ⟨rfl, (List.cons.inj hlast).1⟩
  · rw [List.concat_eq_append, ← List.cons_append, ← List.append_assoc] at h
    exact Or.inr ⟨back', (List.append_inj' h rfl).1⟩

/-- what never holds behind a place where it holds, holds at one place at most -/
theorem countP_le_one {p : α → Bool} {l : List α}
    (h : ∀ before x after, l = before ++ x :: after → p x = true → ∀ y ∈ after, ¬ p y = true) :
    l.countP p ≤ 1 := by
  induction l with
  | nil => simp
  | cons x l ih =>
    by_cases hx : p x = true
    · have hnone : l.countP p = 0 := List.countP_eq_zero.mpr (h [] x l rfl hx)
      rw [List.countP_cons_of_pos hx, hnone]
    · rw [List.countP_cons_of_neg hx]
      refine ih fun before y after hcut => h (x :: before) y after ?_
      rw [hcut, List.cons_append]

/-! ## the newest of a list -/

theorem length_newest (n : Nat) (list : List α) : (list.rtake n).length = min n list.length := by
  rw [List.rtake, List.length_drop]
  omega

theorem newest_of_le {n : Nat} {list : List α} (h : list.length ≤ n) : list.rtake n = list := by
  rw [List.rtake, Nat.sub_eq_zero_of_le h, List.drop_zero]

/-- there are no more than there are -/
theorem newest_min (n : Nat) (list : List α) : list.rtake (min n list.length) = list.rtake n := by
  have hcut : list.length - min n list.length = list.length - n := by omega
  rw [List.rtake, List.rtake, hcut]

/-- of a list that grows, what was dropped before is not missed -/
theorem newest_append (n : Nat) (list more : List α) :
    (list.rtake n ++ more).rtake n = (list ++ more).rtake n := by
  simp only [List.rtake, List.length_append, List.length_drop, List.drop_append, List.drop_drop]
  congr 2 <;> omega

/-! ## groups of one size -/

/-- groups that are full, but for the last one, which is not empty -/
inductive Filled (size : Nat) : List (List α) → Prop
  | none : Filled size []
  | upTo (front : List (List α)) (last : List α) (full : ∀ group ∈ front, group.length = size)
    (occupied : last ≠ []) (room : last.length ≤ size) : Filled size (front ++ [last])

variable {size : Nat} {front groups : List (List α)}

theorem length_flatten_of_full (h : ∀ group ∈ front, group.length = size) :
    front.flatten.length = front.length * size := by
  have hsizes : front.map List.length = List.replicate front.length size :=
    List.map_eq_replicate_iff.mpr h
  rw [List.length_flatten, hsizes, List.sum_replicate_nat]

theorem drop_flatten_of_full (h : ∀ group ∈ front, group.length = size) (rest : List α) {j : Nat}
    (hj : j ≤ front.length) :
    (front.flatten ++ rest).drop (j * size) = (front.drop j).flatten ++ rest := by
  have hfirst : (front.take j).flatten.length = j * size := by
    rw [length_flatten_of_full fun group hgroup => h group (List.mem_of_mem_take hgroup),
      List.length_take, Nat.min_eq_left hj]
  conv_lhs => rw [← List.take_append_drop j front, List.flatten_append, List.append_assoc]
  exact List.drop_left' hfirst

/-- as many groups as it takes -/
theorem Filled.length_eq (h : Filled size groups) :
    groups.length = groups.flatten.length ⌈/⌉ size := by
  cases h with
  | none => rw [List.flatten_nil, List.length_nil, List.length_nil, zero_ceilDiv]
  | upTo front last full occupied room =>
    have hlast : 0 < last.length := List.length_pos_iff.mpr occupied
    rw [List.flatten_append, List.flatten_singleton, List.length_append, List.length_append,
      length_flatten_of_full full, List.length_singleton, Nat.ceilDiv_eq_add_pred_div]
    have hsum : front.length * size + last.length + size - 1 =
        last.length - 1 + size * (front.length + 1) := by
      rw [Nat.mul_add, Nat.mul_comm size]
      omega
    rw [hsum, Nat.add_mul_div_left _ _ (by omega), Nat.div_eq_of_lt (by omega), Nat.zero_add]

/-- each group has what comes at its turn -/
theorem Filled.share (h : Filled size groups) {j : Nat} {group : List α}
    (hgroup : groups[j]? = some group) : group = (groups.flatten.drop (j * size)).take size := by
  cases h with
  | none => simp at hgroup
  | upTo front last full occupied room =>
    rw [List.flatten_append, List.flatten_singleton]
    rcases Nat.lt_trichotomy j front.length with hj | rfl | hj
    · rw [List.getElem?_append_left hj, List.getElem?_eq_getElem hj] at hgroup
      obtain rfl := Option.some.inj hgroup
      rw [drop_flatten_of_full full last hj.le, List.drop_eq_getElem_cons hj, List.flatten_cons,
        List.append_assoc, List.take_left' (full _ (List.getElem_mem hj))]
    · rw [List.getElem?_concat_length] at hgroup
      obtain rfl := Option.some.inj hgroup
      rw [drop_flatten_of_full full last le_rfl, List.drop_length, List.flatten_nil, List.nil_append,
        List.take_of_length_le room]
    · have hbeyond : (front ++ [last]).length ≤ j := by
        rw [List.length_append, List.length_singleton]
        exact hj
      rw [List.getElem?_eq_none hbeyond] at hgroup
      cases hgroup

end CameraPower
