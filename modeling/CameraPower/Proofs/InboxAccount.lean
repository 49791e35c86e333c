import CameraPower.Proofs.InboxRing

/-!
# What becomes of the frames in an inbox

Frames come into an inbox at one end and leave it at the other: they are popped, or drained, or have
to make room for a newer one.  Any number of operations, in any order:

* `Operation`            what can be done to an inbox, `Outcome` what that tells;
* `Inbox.run`            operations one after the other;
* `Account`              which frames have left, in order, and each by which `Exit`;
* `account_operate`      one operation, and `account_run` all of them;
* `Queued`               the laws of a bounded queue, and `queues_frames` that they hold.
-/

namespace CameraPower.Inbox

/-! ## operations -/

inductive Operation where
  | push (frame : Frame)
  | pop
  | drain
  | close
  deriving DecidableEq, Repr

/-- what an operation tells whoever makes it -/
inductive Outcome where
  | done
  | popped (frame? : Option Frame)
  | drained (count : Nat)
  deriving DecidableEq, Repr

def operate (inbox : Inbox) : Operation → Inbox × Outcome
  | .push frame => (inbox.push frame, .done)
  | .pop => (inbox.pop.1, .popped inbox.pop.2)
  | .drain => (inbox.drain.1, .drained inbox.drain.2)
  | .close => (inbox.close, .done)

def run (inbox : Inbox) : List Operation → Inbox × List Outcome
  | [] => (inbox, [])
  | operation :: rest =>
    let (next, outcome) := inbox.operate operation
    let (last, outcomes) := next.run rest
    (last, outcome :: outcomes)

def Operation.pushed : Operation → List Frame
  | .push frame => [frame]
  | _ => []

def Outcome.popped? : Outcome → List Frame
  | .popped frame? => frame?.toList
  | _ => []

def Outcome.count : Outcome → Nat
  | .drained count => count
  | _ => 0

/-- the frames that were pushed, in order -/
def pushed (operations : List Operation) : List Frame := operations.flatMap Operation.pushed

/-- the frames that were popped, in order -/
def popped (outcomes : List Outcome) : List Frame := outcomes.flatMap Outcome.popped?

/-- how many frames were drained -/
def drained (outcomes : List Outcome) : Nat := (outcomes.map Outcome.count).sum

theorem run_cons (inbox : Inbox) (operation : Operation) (rest : List Operation) :
    inbox.run (operation :: rest) =
      (((inbox.operate operation).1.run rest).1,
        (inbox.operate operation).2 :: ((inbox.operate operation).1.run rest).2) := rfl
theorem pushed_append (front back : List Operation) :
    pushed (front ++ back) = pushed front ++ pushed back := List.flatMap_append
theorem popped_append (front back : List Outcome) :
    popped (front ++ back) = popped front ++ popped back := List.flatMap_append
theorem drained_append (front back : List Outcome) :
    drained (front ++ back) = drained front + drained back := by
  rw [drained, List.map_append, List.sum_append]
  rfl

/-! ## one operation -/

variable {inbox : Inbox}

/-- a push into an inbox with room loses nothing -/
theorem push_of_lt (h : inbox.size < inbox.capacity) (frame : Frame) :
    inbox.push frame = { inbox with frames := inbox.frames ++ [frame] } := by
  unfold push
  split
  · next oldest rest hframes =>
    have hroom : inbox.frames.length ≠ inbox.capacity := Nat.ne_of_lt h
    rw [if_neg hroom, hframes]
  · next hframes => rw [hframes, List.nil_append]

/-- a push into a full inbox loses the oldest frame -/
theorem push_of_full {oldest : Frame} {rest : List Frame} (hframes : inbox.frames = oldest :: rest)
    (h : inbox.size = inbox.capacity) (frame : Frame) :
    inbox.push frame =
      { inbox with frames := rest ++ [frame], overwritten := inbox.overwritten + 1 } := by
  have hfull : inbox.frames.length = inbox.capacity := h
  simp only [push, hframes]
  rw [← hframes, if_pos hfull]

/-- a full inbox has an oldest frame -/
theorem Sound.oldest (h : inbox.Sound) (hfull : inbox.size = inbox.capacity) :
    ∃ oldest rest, inbox.frames = oldest :: rest := by
  apply List.exists_cons_of_length_pos
  show 0 < inbox.size
  rw [hfull]
  exact h.room

theorem Sound.operate (h : inbox.Sound) (operation : Operation) :
    (inbox.operate operation).1.Sound ∧
      (inbox.operate operation).1.capacity = inbox.capacity := by
  cases operation with
  | push frame =>
    refine ⟨h.push frame, ?_⟩
    show (inbox.push frame).capacity = _
    rw [push_eq h]
  | pop =>
    show (inbox.pop.1).Sound ∧ (inbox.pop.1).capacity = _
    unfold pop
    split
    · exact ⟨h, rfl⟩
    · next frame rest hframes =>
      have hfits := h.fits
      rw [hframes, List.length_cons] at hfits
      exact ⟨⟨h.room, Nat.le_of_succ_le hfits⟩, rfl⟩
  | drain => exact ⟨h.drain, rfl⟩
  | close => exact ⟨⟨h.room, h.fits⟩, rfl⟩

/-- closing is the one operation that closes, and none opens again -/
theorem closed_operate (h : inbox.Sound) (operation : Operation) :
    (inbox.operate operation).1.closed = (inbox.closed || operation == .close) := by
  cases operation with
  | push frame =>
    show (inbox.push frame).closed = _
    rw [push_eq h]
    exact (Bool.or_false _).symm
  | pop =>
    show (inbox.pop.1).closed = _
    unfold pop
    split <;> exact (Bool.or_false _).symm
  | drain => exact (Bool.or_false _).symm
  | close => exact (Bool.or_true _).symm

/-! ## which frames have left -/

/-- how a frame leaves an inbox -/
inductive Exit where
  | popped
  | drained
  | overwritten
  deriving DecidableEq, Repr

/-- From `start` to `last`, the frames in `left` have left, oldest first, each by one exit. -/
structure Account (start : Inbox) (operations : List Operation) (last : Inbox)
    (outcomes : List Outcome) (left : List (Frame × Exit)) : Prop where
  flow : start.frames ++ pushed operations = left.map Prod.fst ++ last.frames
  popped : popped outcomes = (left.filter (·.2 = .popped)).map Prod.fst
  drained : drained outcomes = left.countP (·.2 = .drained)
  overwritten : last.overwritten = start.overwritten + left.countP (·.2 = .overwritten)

theorem Account.refl (inbox : Inbox) : Account inbox [] inbox [] [] :=
  ⟨List.append_nil _, rfl, rfl, rfl⟩

theorem Account.trans {middle last : Inbox} {front back : List Operation}
    {told more : List Outcome} {first left : List (Frame × Exit)}
    (h : Account inbox front middle told first) (hback : Account middle back last more left) :
    Account inbox (front ++ back) last (told ++ more) (first ++ left) where
  flow := by
    rw [pushed_append, ← List.append_assoc, h.flow, List.append_assoc, hback.flow, List.map_append,
      List.append_assoc]
  popped := by
    rw [popped_append, h.popped, hback.popped, List.filter_append, List.map_append]
  drained := by
    rw [drained_append, h.drained, hback.drained, List.countP_append]
  overwritten := by
    rw [hback.overwritten, h.overwritten, List.countP_append, Nat.add_assoc]

theorem account_operate (h : inbox.Sound) (operation : Operation) :
    ∃ left, Account inbox [operation] (inbox.operate operation).1
      [(inbox.operate operation).2] left := by
  cases operation with
  | push frame =>
    show ∃ left, Account inbox [.push frame] (inbox.push frame) [.done] left
    rcases Nat.lt_or_eq_of_le h.fits with hroom | hfull
    · rw [push_of_lt hroom]
      exact ⟨[], rfl, rfl, rfl, rfl⟩
    · obtain ⟨oldest, rest, hframes⟩ := h.oldest hfull
      rw [push_of_full hframes hfull]
      refine ⟨[(oldest, .overwritten)], ?_, rfl, rfl, rfl⟩
      rw [hframes]
      rfl
  | pop =>
    show ∃ left, Account inbox [.pop] inbox.pop.1 [.popped inbox.pop.2] left
    unfold pop
    split
    · exact ⟨[], List.append_nil _, rfl, rfl, rfl⟩
    · next frame rest hframes =>
      refine ⟨[(frame, .popped)], ?_, rfl, rfl, rfl⟩
      rw [hframes]
      exact List.append_nil _
  | drain =>
    show ∃ left, Account inbox [.drain] { inbox with frames := [] } [.drained inbox.frames.length] left
    refine ⟨inbox.frames.map (·, .drained), ?_, ?_, ?_, ?_⟩
    · show inbox.frames ++ [] = _ ++ []
      rw [List.map_map]
      exact congrArg (· ++ []) (List.map_id _).symm
    · have hnone : (inbox.frames.map (·, Exit.drained)).filter (·.2 = .popped) = [] := by simp
      rw [hnone]
      rfl
    · have hall : (inbox.frames.map (·, Exit.drained)).countP (·.2 = .drained) =
          inbox.frames.length := by simp
      rw [hall]
      rfl
    · have hnone : (inbox.frames.map (·, Exit.drained)).countP (·.2 = .overwritten) = 0 := by simp
      rw [hnone]
      rfl
  | close => exact ⟨[], List.append_nil _, rfl, rfl, rfl⟩

/-! ## any number of operations -/

theorem Sound.run (h : inbox.Sound) (operations : List Operation) :
    (inbox.run operations).1.Sound ∧ (inbox.run operations).1.capacity = inbox.capacity := by
  induction operations generalizing inbox with
  | nil => exact ⟨h, rfl⟩
  | cons operation rest ih =>
    obtain ⟨hnext, hcapacity⟩ := h.operate operation
    rw [run_cons, ← hcapacity]
    exact ih hnext

theorem account_run (h : inbox.Sound) (operations : List Operation) :
    ∃ left, Account inbox operations (inbox.run operations).1 (inbox.run operations).2 left := by
  induction operations generalizing inbox with
  | nil => exact ⟨[], .refl inbox⟩
  | cons operation rest ih =>
    obtain ⟨first, hfirst⟩ := account_operate h operation
    obtain ⟨left, hleft⟩ := ih (h.operate operation).1
    exact ⟨first ++ left, hfirst.trans hleft⟩

theorem closed_run (h : inbox.Sound) (operations : List Operation) :
    (inbox.run operations).1.closed = (inbox.closed || operations.contains .close) := by
  induction operations generalizing inbox with
  | nil => exact (Bool.or_false _).symm
  | cons operation rest ih =>
    rw [run_cons, ih (h.operate operation).1, closed_operate h, List.contains_cons, Bool.or_assoc,
      Bool.beq_comm]

/-- closing changes nothing for those who push, pop and drain -/
theorem operate_opened (inbox : Inbox) {operation : Operation} (h : operation ≠ .close) :
    ({ inbox with closed := false } : Inbox).operate operation =
      ({ (inbox.operate operation).1 with closed := false }, (inbox.operate operation).2) := by
  cases operation with
  | push frame =>
    simp only [operate, push]
    split
    · split <;> rfl
    · rfl
  | pop =>
    simp only [operate, pop]
    split <;> rfl
  | drain => rfl
  | close => exact absurd rfl h

theorem run_opened (inbox : Inbox) (operations : List Operation) :
    (({ inbox with closed := false } : Inbox).run (operations.filter (· ≠ .close))).1 =
      { (inbox.run operations).1 with closed := false } := by
  induction operations generalizing inbox with
  | nil => rfl
  | cons operation rest ih =>
    by_cases hclose : operation = .close
    · rw [hclose, List.filter_cons_of_neg (by simp)]
      exact ih inbox.close
    · rw [List.filter_cons_of_pos (by simpa using hclose), run_cons, run_cons,
        operate_opened inbox hclose]
      exact ih (inbox.operate operation).1

/-- every frame leaves by one of the three exits -/
theorem length_exits (left : List (Frame × Exit)) :
    left.length = (left.filter (·.2 = .popped)).length + left.countP (·.2 = .drained) +
      left.countP (·.2 = .overwritten) := by
  induction left with
  | nil => rfl
  | cons first rest ih =>
    obtain ⟨frame, exit⟩ := first
    cases exit <;> simp [ih] <;> omega

/-! ## the laws of a bounded queue -/

/-- What can be said of an inbox with room for some frames, by the operations that it has been
through and what they told. -/
structure Queued (room : Nat) (operations : List Operation) (outcomes : List Outcome)
    (inbox : Inbox) : Prop where
  fits : inbox.size ≤ room
  /-- in the inbox are the frames pushed last, in the order in which they were pushed -/
  newest : inbox.frames = (pushed operations).rtake inbox.size
  conserved : (pushed operations).length =
    (popped outcomes).length + drained outcomes + inbox.overwritten + inbox.size
  /-- each frame that was popped is one of those pushed before these, no frame twice -/
  inOrder : (popped outcomes).Sublist
    ((pushed operations).take ((pushed operations).length - inbox.size))
  /-- only a push into a full inbox overwrites a frame, and that is the oldest one -/
  overwrites : ∀ operation,
    (inbox.operate operation).1.overwritten = inbox.overwritten ∨
      ∃ frame oldest rest, operation = .push frame ∧ inbox.size = room ∧
        inbox.frames = oldest :: rest ∧ (inbox.operate operation).1 =
          { inbox with frames := rest ++ [frame], overwritten := inbox.overwritten + 1 }
  /-- the same operations without the closings leave the same frames -/
  closing : inbox.frames = ((withCapacity room).run (operations.filter (· ≠ .close))).1.frames
  /-- an inbox that was closed is closed for good -/
  closed : inbox.closed = true ↔ .close ∈ operations

theorem overwrites_of_sound (h : inbox.Sound) (operation : Operation) :
    (inbox.operate operation).1.overwritten = inbox.overwritten ∨
      ∃ frame oldest rest, operation = .push frame ∧ inbox.size = inbox.capacity ∧
        inbox.frames = oldest :: rest ∧ (inbox.operate operation).1 =
          { inbox with frames := rest ++ [frame], overwritten := inbox.overwritten + 1 } := by
  cases operation with
  | push frame =>
    rcases Nat.lt_or_eq_of_le h.fits with hroom | hfull
    · left
      show (inbox.push frame).overwritten = _
      rw [push_of_lt hroom]
    · right
      obtain ⟨oldest, rest, hframes⟩ := h.oldest hfull
      exact ⟨frame, oldest, rest, rfl, hfull, hframes, push_of_full hframes hfull frame⟩
  | pop =>
    left
    show (inbox.pop.1).overwritten = _
    unfold pop
    split <;> rfl
  | drain => exact Or.inl rfl
  | close => exact Or.inl rfl

/-- **An inbox is a bounded queue that gives up its oldest frames.**  Whatever is pushed, popped,
drained and closed, and in whatever order: there are never more frames in than there is room for,
they are the ones pushed last, every other one was popped, drained or overwritten, and those that
were popped came in the order in which they had been pushed, each of them once. -/
theorem queues_frames (capacity : Nat) (operations : List Operation) :
    let (inbox, outcomes) := (withCapacity capacity).run operations
    Queued (max 1 capacity) operations outcomes inbox := by
  have hstart := sound_withCapacity capacity
  obtain ⟨hsound, hcapacity⟩ := hstart.run operations
  obtain ⟨left, haccount⟩ := account_run hstart operations
  have hclosed := closed_run hstart operations
  have hopened := run_opened (withCapacity capacity) operations
  generalize (withCapacity capacity).run operations = reached at *
  obtain ⟨inbox, outcomes⟩ := reached
  change inbox.capacity = max 1 capacity at hcapacity
  have hflow : pushed operations = left.map Prod.fst ++ inbox.frames := haccount.flow
  have hsize : (pushed operations).length = left.length + inbox.size := by
    rw [hflow, List.length_append, List.length_map]
    rfl
  have hfirst : (pushed operations).length - inbox.size = (left.map Prod.fst).length := by
    rw [hsize, Nat.add_sub_cancel, List.length_map]
  refine ⟨?_, ?_, ?_, ?_, ?_, ?_, ?_⟩
  · rw [← hcapacity]
    exact hsound.fits
  · rw [List.rtake, hfirst, hflow, List.drop_left]
  · rw [hsize, length_exits left, haccount.popped, haccount.drained, haccount.overwritten,
      List.length_map]
    exact congrArg (· + inbox.size) (congrArg _ (Nat.zero_add _).symm)
  · rw [hfirst, hflow, List.take_left, haccount.popped]
    exact List.filter_sublist.map Prod.fst
  · rw [← hcapacity]
    exact overwrites_of_sound hsound
  · have hroom : withCapacity (max 1 capacity) = { withCapacity capacity with closed := false } := by
      simp [withCapacity]
    rw [hroom, hopened]
  · rw [hclosed]
    exact List.contains_iff_mem

-- room for two: the first of three frames is overwritten, and what is left can be read when closed
example :
    let frame (command : UInt8) : Frame := ⟨command, [], 0⟩
    (withCapacity 2).run [.push (frame 1), .push (frame 2), .push (frame 3), .close, .pop, .drain] =
      ({ capacity := 2, closed := true, overwritten := 1 },
        [.done, .done, .done, .done, .popped (some (frame 2)), .drained 1]) := by
  decide

end CameraPower.Inbox
