import CameraPower.Proofs.NextFrame

/-!
# No wakeup is missed

A waiter sleeps on a handle that listened before the waiter looked.  So whoever brings something
behind the look finds the handle listening, and what was brought before it was seen.  A permit that
was left over, or a notification of something that has been seen already, sends the waiter round
once more and does nothing else.

* `Stroke.Told`     whatever arrives is told afterwards;
* `Notify`          a notification to wait on, and `Notify.lawful`;
* `Keeps`           what is so of a waiter at any time: `Keeps.step`, `Keeps.run`;
* `Receives`        what a wait for the next frame is, however the two sides take turns;
* `receives_next`   every wait is like that.
-/

namespace CameraPower

/-! ## what arrives is told -/

namespace Stroke

theorem filterMap_strokes (due : List Arrival) :
    (due.flatMap Arrival.strokes).filterMap arrival? = due := by
  induction due with
  | nil => rfl
  | cons arrival rest ih =>
    have hfirst : arrival.strokes.filterMap arrival? = [arrival] := by
      cases arrival <;> rfl
    rw [List.flatMap_cons, List.filterMap_append, ih, hfirst]
    rfl

/-- a notification comes last -/
def Told (strokes : List Stroke) : Prop :=
  ∀ stroke ∈ strokes.getLast?, stroke.arrival? = none

theorem told_strokes (due : List Arrival) : Told (due.flatMap Arrival.strokes) := by
  induction due with
  | nil => exact nofun
  | cons arrival rest ih =>
    intro stroke hstroke
    rw [List.flatMap_cons, List.getLast?_append] at hstroke
    cases hlast : (rest.flatMap Arrival.strokes).getLast? with
    | some last =>
      rw [hlast] at hstroke
      obtain rfl : last = stroke := Option.some.inj hstroke
      exact ih last hlast
    | none =>
      have hnotifies : arrival.strokes.getLast? = some .notifyOne := by
        cases arrival <;> rfl
      rw [hlast, hnotifies] at hstroke
      obtain rfl : .notifyOne = stroke := Option.some.inj hstroke
      rfl

variable {stroke : Stroke} {rest : List Stroke}

theorem Told.tail (h : Told (stroke :: rest)) : Told rest := by
  cases rest with
  | nil => exact nofun
  | cons second others =>
    intro last hlast
    refine h last ?_
    rwa [List.getLast?_cons_cons]

theorem Told.wakeup (h : Told (stroke :: rest)) (harrives : stroke.arrival? ≠ none) :
    ∃ wakeup ∈ rest, wakeup.arrival? = none := by
  cases hlast : rest.getLast? with
  | none =>
    obtain rfl := List.getLast?_eq_none_iff.mp hlast
    exact absurd (h stroke rfl) harrives
  | some last => exact ⟨last, List.mem_of_getLast? hlast, h.tail last hlast⟩

variable {σ : Type} {notifier : Notifier σ} {signal : σ}

theorem listening_signal (lawful : notifier.Lawful) (h : notifier.listening signal = true)
    (stroke : Stroke) : notifier.listening (stroke.signal notifier signal) = true := by
  cases stroke with
  | arrive => exact h
  | notifyOne => exact lawful.listening_notifyOne signal h
  | notifyWaiters => exact lawful.listening_notifyWaiters signal h

theorem notified_signal (lawful : notifier.Lawful) (h : notifier.listening signal = true)
    (hnotifies : stroke.arrival? = none) :
    notifier.notified (stroke.signal notifier signal) = true := by
  cases stroke with
  | arrive => exact nomatch hnotifies
  | notifyOne => exact lawful.notified_notifyOne signal h
  | notifyWaiters => exact lawful.notified_notifyWaiters signal h

end Stroke

/-! ## a notification to wait on -/

/-- A permit and one handle: there is none, or it waits, or it was notified. -/
structure Notify where
  permit : Bool := false
  notified? : Option Bool := none
  deriving DecidableEq, Repr

namespace Notify

def notifier : Notifier Notify where
  listen s := { permit := false, notified? := some s.permit }
  complete s := { s with notified? := none }
  notifyOne s :=
    if s.notified? = some false then { s with notified? := some true } else { s with permit := true }
  notifyWaiters s := { s with notified? := s.notified?.map fun _ => true }
  listening s := s.notified?.isSome
  notified s := s.notified? == some true
  permit s := s.permit

theorem lawful : notifier.Lawful where
  listening_listen _ := rfl
  listening_notifyOne
    | ⟨_, some false⟩, _ => rfl
    | ⟨_, some true⟩, _ => rfl
  listening_notifyWaiters
    | ⟨_, some _⟩, _ => rfl
  notified_notifyOne
    | ⟨_, some false⟩, _ => rfl
    | ⟨_, some true⟩, _ => rfl
  notified_notifyWaiters
    | ⟨_, some _⟩, _ => rfl
  permit_of_notified
    | ⟨true, _⟩, _ => rfl
  permit_listen _ := rfl
  permit_of_complete _ h := h

end Notify

/-! ## what no step changes -/

namespace Waiter
variable {σ : Type} {notifier : Notifier σ} {timed : TimedInbox} {deadline : Time}
  {waiter next : Waiter σ}

/-- what is so of a waiter at any time, where the wait began with the given inbox -/
structure Keeps (notifier : Notifier σ) (timed : TimedInbox) (deadline : Time)
    (waiter : Waiter σ) : Prop where
  stage : timed.Stage deadline waiter.timed (waiter.strokes.filterMap Stroke.arrival?)
  told : Stroke.Told waiter.strokes
  listening : waiter.phase ≠ .begins → notifier.listening waiter.signal = true
  looked : waiter.phase = .sleeps → timed.inbox.Idle
  /-- who sleeps has nothing to look at, or is about to be woken -/
  heard : waiter.phase = .sleeps → notifier.notified waiter.signal = false →
    waiter.timed.inbox.Idle ∨ ∃ stroke ∈ waiter.strokes, stroke.arrival? = none

theorem Keeps.start (signal : σ) {wakeups : List Stroke}
    (wakes : ∀ stroke ∈ wakeups, stroke.arrival? = none) :
    Keeps notifier timed deadline { timed, strokes := wakeups, signal } where
  stage := by
    have hnone : wakeups.filterMap Stroke.arrival? = [] := List.filterMap_eq_nil_iff.mpr wakes
    rw [hnone]
    exact .before
  told stroke hstroke := wakes stroke (List.mem_of_getLast? hstroke)
  listening hphase := absurd rfl hphase
  looked := nofun
  heard := nofun

theorem Keeps.stroke (lawful : notifier.Lawful) (keeps : Keeps notifier timed deadline waiter)
    {stroke : Stroke} {rest : List Stroke} (strokes : waiter.strokes = stroke :: rest) :
    Keeps notifier timed deadline
      { waiter with
        timed := { waiter.timed with inbox := stroke.apply waiter.timed.inbox }
        strokes := rest
        signal := stroke.signal notifier waiter.signal } := by
  have hstage := keeps.stage
  have htold := keeps.told
  rw [strokes] at hstage htold
  refine
    { stage := ?_
      told := htold.tail
      listening := fun hphase => Stroke.listening_signal lawful (keeps.listening hphase) stroke
      looked := keeps.looked
      heard := fun hphase hunheard => ?_ }
  · cases stroke with
    | arrive arrival => exact hstage.arrive
    | notifyOne => exact hstage
    | notifyWaiters => exact hstage
  -- the handle has listened since before the look: a notification reaches it, and an arrival is
  -- about to be told
  · have hlistening : notifier.listening waiter.signal = true := by
      refine keeps.listening ?_
      rw [show waiter.phase = .sleeps from hphase]
      exact nofun
    cases harrival : stroke.arrival? with
    | none =>
      have hheard := Stroke.notified_signal lawful hlistening harrival
      exact absurd (hunheard.symm.trans hheard) Bool.false_ne_true
    | some arrival =>
      refine Or.inr (htold.wakeup ?_)
      rw [harrival]
      exact nofun

theorem Keeps.jump (sound : timed.Sound)
    (untied : ∀ entry ∈ timed.agenda.entries, entry.1 ≠ deadline)
    (keeps : Keeps notifier timed deadline waiter) (phase : waiter.phase = .sleeps)
    (unheard : notifier.notified waiter.signal = false) (strokes : waiter.strokes = [])
    (early : waiter.timed.now < deadline) :
    Keeps notifier timed deadline (waiter.jump deadline) := by
  have hidle : waiter.timed.inbox.Idle := by
    rcases keeps.heard phase unheard with hidle | ⟨stroke, hstroke, -⟩
    · exact hidle
    · rw [strokes] at hstroke
      exact absurd hstroke List.not_mem_nil
  have hstage := keeps.stage
  rw [strokes] at hstage
  refine
    { stage := ?_
      told := Stroke.told_strokes _
      listening := keeps.listening
      looked := keeps.looked
      heard := fun _ _ => Or.inl hidle }
  show timed.Stage deadline _ ((List.flatMap Arrival.strokes _).filterMap Stroke.arrival?)
  rw [Stroke.filterMap_strokes]
  exact hstage.jump sound untied hidle early

/-- **No step changes it.** -/
theorem Keeps.step (lawful : notifier.Lawful) (sound : timed.Sound)
    (untied : ∀ entry ∈ timed.agenda.entries, entry.1 ≠ deadline)
    (keeps : Keeps notifier timed deadline waiter) (step : Step notifier deadline waiter next) :
    Keeps notifier timed deadline next := by
  cases step with
  | stroke stroke rest strokes => exact keeps.stroke lawful strokes
  | listen phase =>
    exact { keeps with
      listening := fun _ => lawful.listening_listen _
      looked := nofun
      heard := nofun }
  | sleep phase look =>
    have hidle := TimedInbox.look?_eq_none.mp look
    exact { keeps with
      listening := fun _ => keeps.listening (by rw [phase]; exact nofun)
      looked := fun _ => keeps.stage.idle hidle
      heard := fun _ _ => Or.inl hidle }
  | wake phase notified =>
    exact { keeps with
      listening := fun hphase => absurd rfl hphase
      looked := nofun
      heard := nofun }
  | jump phase unheard strokes early => exact keeps.jump sound untied phase unheard strokes early

theorem Keeps.run (lawful : notifier.Lawful) (sound : timed.Sound)
    (untied : ∀ entry ∈ timed.agenda.entries, entry.1 ≠ deadline)
    (keeps : Keeps notifier timed deadline waiter) (run : Run notifier deadline waiter next) :
    Keeps notifier timed deadline next := by
  induction run with
  | refl => exact keeps
  | tail _ step ih => exact ih.step lawful sound untied step

theorem Keeps.ends (sound : timed.Sound)
    (untied : ∀ entry ∈ timed.agenda.entries, entry.1 ≠ deadline)
    (keeps : Keeps notifier timed deadline waiter) {last : TimedInbox} {received : Received}
    (returns : Returns notifier deadline waiter last received) :
    timed.Ending deadline (waiter.strokes.filterMap Stroke.arrival?) last received := by
  cases returns with
  | finds _ _ phase look => exact keeps.stage.finds sound look
  | givesUp phase unheard late => exact keeps.stage.elapses sound untied (keeps.looked phase) late

/-! ## every wait -/

/-- What a wait for the next frame is, however the waiter and those who bring frames take turns. -/
structure Receives (notifier : Notifier σ) (timed : TimedInbox) (deadline : Time)
    (start : Waiter σ) : Prop where
  /-- it does not go on for ever, -/
  stops : Acc (fun next waiter => Step notifier deadline waiter next) start
  /-- and does not stop but at an end; -/
  goesOn : ∀ waiter, Run notifier deadline start waiter →
    (∃ next, Step notifier deadline waiter next) ∨
      ∃ last received, Returns notifier deadline waiter last received
  /-- who sleeps has nothing to look at, or is about to be woken; -/
  hears : ∀ waiter, Run notifier deadline start waiter → waiter.phase = .sleeps →
    notifier.notified waiter.signal = false →
    waiter.timed.inbox.Idle ∨ ∃ stroke ∈ waiter.strokes, stroke.arrival? = none
  /-- it ends with what the inbox and those who bring frames say, -/
  ends : ∀ waiter last received, Run notifier deadline start waiter →
    Returns notifier deadline waiter last received →
    timed.Ending deadline (waiter.strokes.filterMap Stroke.arrival?) last received
  /-- and as the running wait does when nothing is missing of the instant at which it ends, -/
  agrees : ∀ waiter last received, Run notifier deadline start waiter →
    Returns notifier deadline waiter last received →
    waiter.strokes.filterMap Stroke.arrival? = [] →
    timed.receive deadline =
      (if received = .elapsed then last.advance deadline else last, received)
  /-- which can be so. -/
  canEnd : ∃ waiter last received, Run notifier deadline start waiter ∧ waiter.strokes = [] ∧
    Returns notifier deadline waiter last received

/-- **Waiting for the next frame**, on an inbox in any state, with a permit left over or not, until
any deadline, and whatever is to arrive at other instants than the deadline: the wait comes to an
end, no wakeup is missed, and however the waiter and those who bring frames take turns it gets the
oldest frame that is in; or else learns at once that the inbox is closed; or else, at the first
instant at which something arrives, gets the oldest frame left of those that are in by then, or
learns that the line ends there; or else gives up at the deadline.  It takes out the frame it gets,
and no other. -/
theorem receives_next (lawful : notifier.Lawful) (sound : timed.Sound)
    (untied : ∀ entry ∈ timed.agenda.entries, entry.1 ≠ deadline) (signal : σ)
    {wakeups : List Stroke} (wakes : ∀ stroke ∈ wakeups, stroke.arrival? = none) :
    Receives notifier timed deadline { timed, strokes := wakeups, signal } := by
  have hkeeps {waiter : Waiter σ}
      (hrun : Run notifier deadline { timed, strokes := wakeups, signal } waiter) :
      Keeps notifier timed deadline waiter :=
    (Keeps.start signal wakes).run lawful sound untied hrun
  exact
    { stops := stops lawful deadline _
      goesOn := fun waiter _ => step_or_returns notifier deadline waiter
      hears := fun _ hrun => (hkeeps hrun).heard
      ends := fun _ _ _ hrun hend => (hkeeps hrun).ends sound untied hend
      agrees := fun _ _ _ hrun hend hwhole =>
        TimedInbox.Ending.receive_eq sound (hwhole ▸ (hkeeps hrun).ends sound untied hend)
      canEnd := exists_end lawful _ }

/-- Two frames and the end of the line arrive at once where there is room for one frame.  A permit
that was left sends the waiter round, and so does a notification that comes late. -/
theorem receives_next_behind_permit :
    let first : Frame := ⟨1, [], 0⟩
    let second : Frame := ⟨2, [], 0⟩
    let timed : TimedInbox :=
      { inbox := .withCapacity 1
        agenda := ⟨[(5, .frame first), (5, .frame second), (5, .close)]⟩ }
    Notify.notifier.Lawful ∧ timed.Sound ∧ (∀ entry ∈ timed.agenda.entries, entry.1 ≠ 10) ∧
      (∀ stroke ∈ [Stroke.notifyOne], stroke.arrival? = none) ∧
      Receives Notify.notifier timed 10
        { timed, strokes := [.notifyOne], signal := { permit := true } } ∧
      timed.receive 10 =
        ({ now := 5, inbox := { capacity := 1, closed := true, overwritten := 1 } },
          .frame second) := by
  intro first second timed
  have hsound : timed.Sound :=
    { inbox := Inbox.sound_withCapacity 1
      ahead := ⟨by unfold Agenda.Sorted; decide, by decide⟩ }
  have huntied : ∀ entry ∈ timed.agenda.entries, entry.1 ≠ 10 := by decide
  have hwakes : ∀ stroke ∈ [Stroke.notifyOne], stroke.arrival? = none := by decide
  refine ⟨Notify.lawful, hsound, huntied, hwakes,
    receives_next Notify.lawful hsound huntied { permit := true } hwakes, ?_⟩
  have hnext : timed.agenda.Next 5 ([.frame first, .frame second, .close] ++ []) {} :=
    ⟨rfl, by decide, by decide⟩
  exact (TimedInbox.Ending.pushed ⟨rfl, rfl⟩ 5 _ [] {} hnext (by decide) second [] rfl).receive_eq
    hsound

end Waiter
end CameraPower
