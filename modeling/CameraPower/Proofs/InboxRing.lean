import CameraPower.Inbox
import CameraPower.Proofs.ListCuts

/-!
# The ring of an inbox

An inbox keeps the newest frames that were pushed, as many as it has room for, and counts the others.

* `Inbox.Sound`       what `withCapacity` makes and every operation keeps;
* `Inbox.push_eq`     one frame;
* `Inbox.pushAll_eq`  a run of frames.
-/

namespace CameraPower.Inbox

/-! ## pushing -/

/-- room for a frame at least, and no more frames than there is room for -/
structure Sound (inbox : Inbox) : Prop where
  room : 0 < inbox.capacity
  fits : inbox.frames.length ≤ inbox.capacity

theorem sound_withCapacity (capacity : Nat) : (withCapacity capacity).Sound :=
  ⟨Nat.lt_of_lt_of_le Nat.zero_lt_one (Nat.le_max_left 1 capacity), Nat.zero_le _⟩

theorem Sound.drain {inbox : Inbox} (h : inbox.Sound) : inbox.drain.1.Sound :=
  ⟨h.room, Nat.zero_le _⟩

theorem push_eq {inbox : Inbox} (h : inbox.Sound) (frame : Frame) :
    inbox.push frame =
      { inbox with
        frames := (inbox.frames ++ [frame]).rtake inbox.capacity
        overwritten := inbox.overwritten + (inbox.frames.length + 1 - inbox.capacity) } := by
  have hfits := h.fits
  have hroom : 1 ≤ inbox.capacity := h.room
  unfold push
  split
  · rename_i oldest rest hframes
    rw [hframes, List.length_cons] at hfits
    simp only [hframes, List.length_cons]
    split
    · rename_i hfull
      have hkept : (oldest :: rest ++ [frame]).rtake inbox.capacity = rest ++ [frame] := by
        rw [List.rtake, List.length_append, List.length_cons, List.length_singleton, hfull,
          Nat.add_sub_cancel_left]
        rfl
      rw [hkept, hfull, Nat.add_sub_cancel_left]
    · rename_i hfull
      have hsize : (oldest :: rest ++ [frame]).length ≤ inbox.capacity := by
        rw [List.length_append, List.length_cons, List.length_singleton]
        omega
      rw [newest_of_le hsize, Nat.sub_eq_zero_of_le (by omega), Nat.add_zero]
  · rename_i hframes
    have hnone : ([] : List Frame).length + 1 - inbox.capacity = 0 := Nat.sub_eq_zero_of_le hroom
    rw [hframes, newest_of_le hroom, hnone]
    rfl

theorem Sound.push {inbox : Inbox} (h : inbox.Sound) (frame : Frame) :
    (inbox.push frame).Sound := by
  rw [push_eq h]
  exact ⟨h.room, by rw [length_newest]; exact Nat.min_le_left _ _⟩

/-- **A ring keeps the newest frames**, as many as it has room for, and counts the others. -/
theorem pushAll_eq {inbox : Inbox} (h : inbox.Sound) (frames : List Frame) :
    inbox.pushAll frames =
      { inbox with
        frames := (inbox.frames ++ frames).rtake inbox.capacity
        overwritten :=
          inbox.overwritten + (inbox.frames.length + frames.length - inbox.capacity) } := by
  induction frames generalizing inbox with
  | nil =>
    rw [List.append_nil, newest_of_le h.fits, List.length_nil, Nat.add_zero,
      Nat.sub_eq_zero_of_le h.fits]
    rfl
  | cons frame rest ih =>
    have hfits := h.fits
    show (inbox.push frame).pushAll rest = _
    rw [ih (h.push frame), push_eq h]
    simp only [newest_append, List.append_assoc, List.singleton_append, length_newest,
      List.length_append, List.length_cons, List.length_nil, mk.injEq, true_and]
    omega

theorem pushAll_append (inbox : Inbox) (frames more : List Frame) :
    inbox.pushAll (frames ++ more) = (inbox.pushAll frames).pushAll more :=
  List.foldl_append

end CameraPower.Inbox
