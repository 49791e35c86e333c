import CameraPower.Inbox.Wait
import CameraPower.Proofs.DueTimes
import Mathlib.Logic.Relation

/-!
# How a waiter is woken

Whoever waits for a frame goes round: a handle is made to listen, the inbox is looked into, and
then the waiter sleeps until its handle is notified or its time is up.  Whoever brings a frame puts
it in first and notifies then.  Each of these is done in one go, and between any two of them the
other side may go on, as on two threads.

* `Notifier`               a notification with one permit, `Notifier.Lawful` what is relied on;
* `Stroke`                 what is done in one go to an inbox or to its notification;
* `Waiter`, `Waiter.Step`  a waiter on its round, and how it and its inbox go on;
* `Waiter.Returns`         the ways out of the round;
* `step_or_returns`        a waiter that does not return goes on, and `stops` not for ever.
-/

namespace CameraPower

/-! ## the notification -/

/-- A notification as one waiter and those who wake it use it.  It has room for one permit, which is
left by who notifies when no handle waits. -/
structure Notifier (σ : Type) where
  /-- The waiter makes a handle and has it listen; a permit that was left notifies it at once.  What
  comes between the two reaches the handle as if it came behind them. -/
  listen : σ → σ
  /-- the waiter goes on, and its handle that was notified is gone -/
  complete : σ → σ
  notifyOne : σ → σ
  /-- notifies the handles that there are, and leaves no permit -/
  notifyWaiters : σ → σ
  /-- there is a handle that listens or was notified -/
  listening : σ → Bool
  /-- the handle was notified -/
  notified : σ → Bool
  /-- a permit was left -/
  permit : σ → Bool

namespace Notifier
variable {σ : Type}

/-- what is relied on -/
structure Lawful (notifier : Notifier σ) : Prop where
  listening_listen : ∀ s, notifier.listening (notifier.listen s) = true
  listening_notifyOne : ∀ s, notifier.listening s = true →
    notifier.listening (notifier.notifyOne s) = true
  listening_notifyWaiters : ∀ s, notifier.listening s = true →
    notifier.listening (notifier.notifyWaiters s) = true
  notified_notifyOne : ∀ s, notifier.listening s = true →
    notifier.notified (notifier.notifyOne s) = true
  notified_notifyWaiters : ∀ s, notifier.listening s = true →
    notifier.notified (notifier.notifyWaiters s) = true
  /-- nothing but a permit notifies a handle as it is made, -/
  permit_of_notified : ∀ s, notifier.notified (notifier.listen s) = true →
    notifier.permit s = true
  /-- and that permit is used up -/
  permit_listen : ∀ s, notifier.permit (notifier.listen s) = false
  permit_of_complete : ∀ s, notifier.permit (notifier.complete s) = true →
    notifier.permit s = true

end Notifier

/-- what is done in one go to an inbox or to its notification -/
inductive Stroke where
  | arrive (arrival : Arrival)
  | notifyOne
  | notifyWaiters
  deriving DecidableEq, Repr

namespace Stroke

def arrival? : Stroke → Option Arrival
  | .arrive arrival => some arrival
  | _ => none

def apply (inbox : Inbox) : Stroke → Inbox
  | .arrive arrival => TimedInbox.apply inbox arrival
  | _ => inbox

def signal {σ : Type} (notifier : Notifier σ) (s : σ) : Stroke → σ
  | .arrive _ => s
  | .notifyOne => notifier.notifyOne s
  | .notifyWaiters => notifier.notifyWaiters s

end Stroke

/-- First the inbox, then the notification: a waiter that slept through the one hears the other. -/
def Arrival.strokes (arrival : Arrival) : List Stroke :=
  .arrive arrival ::
    match arrival with
    | .frame _ => [.notifyOne]
    | .close => [.notifyWaiters, .notifyOne]

/-! ## the clock -/

namespace TimedInbox

/-- when something arrives or the deadline is there, whichever comes first -/
def nextInstant (deadline : Time) (timed : TimedInbox) : Time :=
  match timed.agenda.next? with
  | some next => min (max timed.now next) deadline
  | none => deadline

/-- the clock jumps there, and what is due then is about to arrive -/
def jump (deadline : Time) (timed : TimedInbox) : TimedInbox × List Arrival :=
  let now := timed.nextInstant deadline
  let (due, agenda) := timed.agenda.takeDue now
  ({ now, inbox := timed.inbox, agenda }, due)

theorem nextInstant_le (deadline : Time) (timed : TimedInbox) :
    timed.nextInstant deadline ≤ deadline := by
  unfold nextInstant
  split
  · exact Nat.min_le_right _ _
  · exact Nat.le_refl deadline

theorem nextInstant_cases (deadline : Time) (timed : TimedInbox) :
    timed.nextInstant deadline = deadline ∨
      ∃ first ∈ timed.agenda.entries.head?, first.1 ≤ timed.nextInstant deadline := by
  unfold nextInstant Agenda.next?
  cases timed.agenda.entries.head? with
  | none => exact Or.inl rfl
  | some first =>
    rcases Nat.le_total deadline (max timed.now first.1) with hdeadline | hnext
    · exact Or.inl (Nat.min_eq_right hdeadline)
    · refine Or.inr ⟨first, rfl, ?_⟩
      show first.1 ≤ min (max timed.now first.1) deadline
      rw [Nat.min_eq_left hnext]
      exact Nat.le_max_right _ _

end TimedInbox

/-! ## the round -/

/-- how far a waiter has come on its round -/
inductive Phase where
  | begins
  /-- a handle listens, and the waiter is about to look -/
  | listens
  | sleeps
  deriving DecidableEq, Repr

/-- how many steps are left on the round -/
def Phase.rank : Phase → Nat
  | .begins => 2
  | .listens => 1
  | .sleeps => 0

/-- a waiter, and the inbox it waits on -/
structure Waiter (σ : Type) where
  timed : TimedInbox
  /-- what is still to be done at this instant -/
  strokes : List Stroke := []
  signal : σ
  phase : Phase := .begins

namespace Waiter
variable {σ : Type}

def jump (deadline : Time) (waiter : Waiter σ) : Waiter σ :=
  let (timed, due) := waiter.timed.jump deadline
  { waiter with timed, strokes := due.flatMap Arrival.strokes }

/-- One step of a waiter or of who brings frames.  Steps take no time: the clock goes on when there
is nothing left to do and the waiter sleeps soundly. -/
inductive Step (notifier : Notifier σ) (deadline : Time) (waiter : Waiter σ) : Waiter σ → Prop
  | stroke (stroke : Stroke) (rest : List Stroke) (strokes : waiter.strokes = stroke :: rest) :
    Step notifier deadline waiter
      { waiter with
        timed := { waiter.timed with inbox := stroke.apply waiter.timed.inbox }
        strokes := rest
        signal := stroke.signal notifier waiter.signal }
  | listen (phase : waiter.phase = .begins) :
    Step notifier deadline waiter
      { waiter with signal := notifier.listen waiter.signal, phase := .listens }
  | sleep (phase : waiter.phase = .listens) (look : waiter.timed.look? = none) :
    Step notifier deadline waiter { waiter with phase := .sleeps }
  | wake (phase : waiter.phase = .sleeps) (notified : notifier.notified waiter.signal = true) :
    Step notifier deadline waiter
      { waiter with signal := notifier.complete waiter.signal, phase := .begins }
  | jump (phase : waiter.phase = .sleeps) (unheard : notifier.notified waiter.signal = false)
    (strokes : waiter.strokes = []) (early : waiter.timed.now < deadline) :
    Step notifier deadline waiter (waiter.jump deadline)

/-- The wait is over: the inbox as the waiter leaves it, and what it has got.  A waiter that wakes up
asks for its handle before it asks for the time. -/
inductive Returns (notifier : Notifier σ) (deadline : Time) (waiter : Waiter σ) :
    TimedInbox → Received → Prop
  | finds (last : TimedInbox) (received : Received) (phase : waiter.phase = .listens)
    (look : waiter.timed.look? = some (last, received)) :
    Returns notifier deadline waiter last received
  | givesUp (phase : waiter.phase = .sleeps) (unheard : notifier.notified waiter.signal = false)
    (late : deadline ≤ waiter.timed.now) :
    Returns notifier deadline waiter waiter.timed .elapsed

/-- any number of steps -/
abbrev Run (notifier : Notifier σ) (deadline : Time) : Waiter σ → Waiter σ → Prop :=
  Relation.ReflTransGen (Step notifier deadline)

section
variable (notifier : Notifier σ) (deadline : Time) (waiter : Waiter σ)

/-- **A waiter never gets stuck.** -/
theorem step_or_returns :
    (∃ next, Step notifier deadline waiter next) ∨
      ∃ last received, Returns notifier deadline waiter last received := by
  cases hphase : waiter.phase with
  | begins => exact Or.inl ⟨_, .listen hphase⟩
  | listens =>
    cases hlook : waiter.timed.look? with
    | none => exact Or.inl ⟨_, .sleep hphase hlook⟩
    | some found => exact Or.inr ⟨found.1, found.2, .finds _ _ hphase hlook⟩
  | sleeps =>
    cases hnotified : notifier.notified waiter.signal with
    | true => exact Or.inl ⟨_, .wake hphase hnotified⟩
    | false =>
      rcases Nat.lt_or_ge waiter.timed.now deadline with hearly | hlate
      · cases hstrokes : waiter.strokes with
        | nil => exact Or.inl ⟨_, .jump hphase hnotified hstrokes hearly⟩
        | cons stroke rest => exact Or.inl ⟨_, .stroke stroke rest hstrokes⟩
      · exact Or.inr ⟨_, _, .givesUp hphase hnotified hlate⟩

/-! ## no waiter goes on for ever -/

/-- how often the waiter can still be woken for nothing -/
def calls : Nat :=
  (notifier.permit waiter.signal).toNat +
    if waiter.phase = .begins then 0 else (notifier.notified waiter.signal).toNat

/-- what is still to come, at this instant and later -/
def ahead : Nat :=
  4 * waiter.timed.agenda.entries.length + waiter.strokes.length +
    if waiter.timed.now < deadline then 1 else 0

/-- A stroke may leave two calls, each of them good for a round of three steps. -/
def rank : Nat :=
  9 * waiter.ahead deadline + 3 * waiter.calls notifier + waiter.phase.rank

end

variable {notifier : Notifier σ} {deadline : Time} {waiter next : Waiter σ}

theorem length_strokes_le (due : List Arrival) :
    (due.flatMap Arrival.strokes).length ≤ 3 * due.length := by
  induction due with
  | nil => exact Nat.le_refl 0
  | cons arrival rest ih =>
    rw [List.flatMap_cons, List.length_append, List.length_cons]
    cases arrival <;> simp only [Arrival.strokes, List.length_cons, List.length_nil] <;> omega

/-- A jump leaves less to come: something is due, or the deadline is there. -/
theorem ahead_jump (strokes : waiter.strokes = []) (early : waiter.timed.now < deadline) :
    (waiter.jump deadline).ahead deadline < waiter.ahead deadline := by
  obtain ⟨hdue, hbusy⟩ := waiter.timed.agenda.length_takeDue (waiter.timed.nextInstant deadline)
  have hstrokes := length_strokes_le
    (waiter.timed.agenda.takeDue (waiter.timed.nextInstant deadline)).1
  have hafter : (waiter.jump deadline).ahead deadline =
      4 * (waiter.timed.agenda.takeDue (waiter.timed.nextInstant deadline)).2.entries.length +
        ((waiter.timed.agenda.takeDue (waiter.timed.nextInstant deadline)).1.flatMap
          Arrival.strokes).length +
        if waiter.timed.nextInstant deadline < deadline then 1 else 0 := rfl
  have hbefore : waiter.ahead deadline = 4 * waiter.timed.agenda.entries.length + 1 := by
    rw [ahead, strokes, if_pos early]
    rfl
  rw [hafter, hbefore]
  rcases waiter.timed.nextInstant_cases deadline with hdeadline | ⟨first, hfirst, hle⟩
  · rw [if_neg (Nat.not_lt.mpr (Nat.le_of_eq hdeadline.symm))]
    omega
  · have hsome := hbusy first hfirst hle
    split <;> omega

/-- a stroke wakes the waiter at most, and leaves a permit at most -/
theorem calls_le (notifier : Notifier σ) (waiter : Waiter σ) : waiter.calls notifier ≤ 2 := by
  have hpermit := Bool.toNat_le (notifier.permit waiter.signal)
  have hnotified := Bool.toNat_le (notifier.notified waiter.signal)
  unfold calls
  split <;> omega

/-- **Every step leaves less to do.** -/
theorem Step.rank_lt (lawful : notifier.Lawful) (step : Step notifier deadline waiter next) :
    next.rank notifier deadline < waiter.rank notifier deadline := by
  have hcalls := calls_le notifier next
  cases step with
  | stroke stroke rest strokes =>
    have hahead : waiter.ahead deadline = ahead deadline { waiter with
        timed := { waiter.timed with inbox := stroke.apply waiter.timed.inbox }
        strokes := rest
        signal := stroke.signal notifier waiter.signal } + 1 := by
      simp only [ahead, strokes, List.length_cons]
      omega
    simp only [rank, hahead] at hcalls ⊢
    omega
  | listen phase =>
    have hsignal : (notifier.notified (notifier.listen waiter.signal)).toNat ≤
        (notifier.permit waiter.signal).toNat := by
      cases hnotified : notifier.notified (notifier.listen waiter.signal) with
      | false => exact Nat.zero_le _
      | true => rw [lawful.permit_of_notified _ hnotified]
    have hafter : calls notifier
        { waiter with signal := notifier.listen waiter.signal, phase := .listens } =
        (notifier.notified (notifier.listen waiter.signal)).toNat := by
      rw [calls, lawful.permit_listen, if_neg nofun]
      exact Nat.zero_add _
    have hbefore : waiter.calls notifier = (notifier.permit waiter.signal).toNat := by
      rw [calls, if_pos phase, Nat.add_zero]
    rw [rank, rank, hafter, hbefore, phase]
    show 9 * waiter.ahead deadline + _ + 1 < _ + 2
    omega
  | sleep phase look =>
    have hafter : calls notifier { waiter with phase := .sleeps } = waiter.calls notifier := by
      rw [calls, calls, phase]
      rfl
    rw [rank, rank, hafter, phase]
    exact Nat.lt_succ_self _
  | wake phase notified =>
    have hpermit : (notifier.permit (notifier.complete waiter.signal)).toNat ≤
        (notifier.permit waiter.signal).toNat := by
      cases hleft : notifier.permit (notifier.complete waiter.signal) with
      | false => exact Nat.zero_le _
      | true => rw [lawful.permit_of_complete _ hleft]
    have hafter : calls notifier
        { waiter with signal := notifier.complete waiter.signal, phase := .begins } =
        (notifier.permit (notifier.complete waiter.signal)).toNat := rfl
    have hbefore : waiter.calls notifier = (notifier.permit waiter.signal).toNat + 1 := by
      rw [calls, phase, notified]
      rfl
    rw [rank, rank, hafter, hbefore, phase]
    show 9 * waiter.ahead deadline + _ + 2 < _ + 0
    omega
  | jump phase unheard strokes early =>
    have hahead := ahead_jump strokes early
    simp only [rank] at hcalls ⊢
    show _ + waiter.phase.rank < _
    omega

theorem stops (lawful : notifier.Lawful) (deadline : Time) (waiter : Waiter σ) :
    Acc (fun next waiter => Step notifier deadline waiter next) waiter :=
  Subrelation.accessible (fun step => step.rank_lt lawful)
    (InvImage.accessible _ (Nat.lt_wfRel.wf.apply (waiter.rank notifier deadline)))

/-- There is an end at which nothing is left to do: the one that is reached when whoever brings
frames goes first. -/
theorem exists_end (lawful : notifier.Lawful) (waiter : Waiter σ) :
    ∃ final last received, Run notifier deadline waiter final ∧ final.strokes = [] ∧
      Returns notifier deadline final last received := by
  induction stops lawful deadline waiter with
  | intro waiter _ ih =>
    have hgo {next : Waiter σ} (step : Step notifier deadline waiter next) :
        ∃ final last received, Run notifier deadline waiter final ∧ final.strokes = [] ∧
          Returns notifier deadline final last received := by
      obtain ⟨final, last, received, hrun, hend⟩ := ih next step
      exact ⟨final, last, received, hrun.head step, hend⟩
    cases hstrokes : waiter.strokes with
    | cons stroke rest => exact hgo (.stroke stroke rest hstrokes)
    | nil =>
      rcases step_or_returns notifier deadline waiter with ⟨next, step⟩ | ⟨last, received, hend⟩
      · exact hgo step
      · exact ⟨waiter, last, received, .refl, hstrokes, hend⟩

end Waiter
end CameraPower
