import CameraPower.Proofs.InboxRing
import CameraPower.Proofs.Wakeups

/-!
# What a wait for the next frame ends with

A waiter on its round gets the oldest frame that is in, or learns that the inbox is closed, or that
its time is up; and which of these it is does not depend on how it and those who bring frames take
turns, but for an instant whose arrivals it sees a part of.

* `arrive_eq`          what an instant brings, taken together;
* `Ending`             what a wait ends with, and how it leaves the inbox;
* `Ending.receive_eq`  the wait in which all of an instant arrives before the look ends like that;
* `Stage`              how far the clock has gone during a wait;
* `Stage.jump`         it goes on once at most;
* `Stage.finds`        who finds something, and who gives up (`Stage.elapses`), is at such an ending.
-/

namespace CameraPower

/-! ## what an instant brings -/

def Arrival.frame? : Arrival → Option Frame
  | .frame pushed => some pushed
  | .close => none

namespace Inbox

/-- there is nothing in it for who looks -/
structure Idle (inbox : Inbox) : Prop where
  empty : inbox.frames = []
  unclosed : inbox.closed = false

theorem pushAll_close {inbox : Inbox} (h : inbox.Sound) (frames : List Frame) :
    inbox.close.pushAll frames = (inbox.pushAll frames).close := by
  have hclose : inbox.close.Sound := ⟨h.room, h.fits⟩
  rw [pushAll_eq h, pushAll_eq hclose]
  rfl

end Inbox

namespace TimedInbox

theorem foldl_apply {inbox : Inbox} (h : inbox.Sound) (arrivals : List Arrival) :
    arrivals.foldl apply inbox =
      { inbox.pushAll (arrivals.filterMap Arrival.frame?) with
        closed := inbox.closed || arrivals.contains .close } := by
  induction arrivals generalizing inbox with
  | nil =>
    rw [List.contains_nil, Bool.or_false]
    rfl
  | cons arrival rest ih =>
    cases arrival with
    | frame pushed =>
      have hcontains : (Arrival.frame pushed :: rest).contains .close = rest.contains .close := rfl
      have hclosed : (inbox.push pushed).closed = inbox.closed := by
        rw [Inbox.push_eq h]
      rw [hcontains, ← hclosed]
      exact ih (h.push pushed)
    | close =>
      have hcontains : (Arrival.close :: rest).contains .close = true := rfl
      rw [hcontains, Bool.or_true]
      have hclose : inbox.close.Sound := ⟨h.room, h.fits⟩
      refine (ih hclose).trans ?_
      rw [Inbox.pushAll_close h]
      rfl

/-- **What an instant brings**: the newest of the frames, as many as there is room for, and whether
the line is closed. -/
theorem arrive_eq {inbox : Inbox} (h : inbox.Sound) (idle : inbox.Idle) (arrivals : List Arrival) :
    arrivals.foldl apply inbox =
      { inbox with
        frames := (arrivals.filterMap Arrival.frame?).rtake inbox.capacity
        closed := arrivals.contains .close
        overwritten :=
          inbox.overwritten + ((arrivals.filterMap Arrival.frame?).length - inbox.capacity) } := by
  rw [foldl_apply h, Inbox.pushAll_eq h, idle.empty, idle.unclosed, List.nil_append,
    List.length_nil, Nat.zero_add, Bool.false_or]

theorem arrive_shut {inbox : Inbox} (h : inbox.Sound) (idle : inbox.Idle)
    {arrivals : List Arrival} (hnone : arrivals.filterMap Arrival.frame? = [])
    (hclose : .close ∈ arrivals) : arrivals.foldl apply inbox = inbox.close := by
  rw [foldl_apply h, hnone, idle.unclosed, List.contains_iff_mem.mpr hclose]
  rfl

/-- whatever arrives, there is something to look at -/
theorem not_idle_apply (inbox : Inbox) (arrival : Arrival) : ¬ (apply inbox arrival).Idle := by
  intro idle
  cases arrival with
  | frame pushed =>
    have hempty : (inbox.push pushed).frames = [] := idle.empty
    unfold Inbox.push at hempty
    split at hempty
    · split at hempty <;>
        exact List.append_ne_nil_of_right_ne_nil _ (List.cons_ne_nil _ _) hempty
    · exact List.cons_ne_nil _ _ hempty
  | close =>
    have hclosed : true = false := idle.unclosed
    exact Bool.noConfusion hclosed

theorem not_idle_foldl (inbox : Inbox) {arrivals : List Arrival} (h : arrivals ≠ []) :
    ¬ (arrivals.foldl apply inbox).Idle := by
  rcases List.eq_nil_or_concat arrivals with rfl | ⟨front, last, rfl⟩
  · exact absurd rfl h
  · rw [List.concat_eq_append, List.foldl_concat]
    exact not_idle_apply _ last

/-! ## a look -/

variable {timed last : TimedInbox} {received : Received} {deadline : Time}

theorem look?_of_cons {oldest : Frame} {rest : List Frame}
    (h : timed.inbox.frames = oldest :: rest) :
    timed.look? =
      some ({ timed with inbox := { timed.inbox with frames := rest } }, .frame oldest) := by
  rw [look?, Inbox.pop, h]

theorem look?_of_nil (h : timed.inbox.frames = []) :
    timed.look? = if timed.inbox.closed then some (timed, .closed) else none := by
  rw [look?, Inbox.pop, h]

theorem look?_eq_none : timed.look? = none ↔ timed.inbox.Idle := by
  constructor
  · intro hlook
    cases hframes : timed.inbox.frames with
    | cons oldest rest =>
      rw [look?_of_cons hframes] at hlook
      exact nomatch hlook
    | nil =>
      rw [look?_of_nil hframes] at hlook
      cases hclosed : timed.inbox.closed with
      | true =>
        rw [hclosed] at hlook
        exact nomatch hlook
      | false => exact ⟨hframes, hclosed⟩
  · intro idle
    rw [look?_of_nil idle.empty, idle.unclosed]
    rfl

/-! ## the ending -/

/-- what every call of the program leaves, and nothing that is to come is past -/
structure Sound (timed : TimedInbox) : Prop where
  inbox : timed.inbox.Sound
  ahead : timed.agenda.Ahead timed.now

/-- What a wait until a deadline ends with, and how it leaves the inbox.  Of the instant at which it
ends something may still be missing. -/
inductive Ending (timed : TimedInbox) (deadline : Time) :
    List Arrival → TimedInbox → Received → Prop
  /-- a frame was in: the deadline is not asked for, and neither is whether the inbox is closed -/
  | queued (oldest : Frame) (rest : List Frame) (frames : timed.inbox.frames = oldest :: rest) :
    Ending timed deadline []
      { timed with inbox := { timed.inbox with frames := rest } } (.frame oldest)
  | closed (empty : timed.inbox.frames = []) (closed : timed.inbox.closed = true) :
    Ending timed deadline [] timed .closed
  /-- the first that arrives brings frames; the oldest for which there still is room is taken out -/
  | pushed (idle : timed.inbox.Idle) (instant : Time) (front missing : List Arrival)
    (later : Agenda Arrival) (next : timed.agenda.Next instant (front ++ missing) later)
    (early : instant < deadline) (oldest : Frame) (rest : List Frame)
    (kept : (front.filterMap Arrival.frame?).rtake timed.inbox.capacity = oldest :: rest) :
    Ending timed deadline missing
      { now := instant
        inbox :=
          { timed.inbox with
            frames := rest
            closed := front.contains .close
            overwritten := timed.inbox.overwritten +
              ((front.filterMap Arrival.frame?).length - timed.inbox.capacity) }
        agenda := later } (.frame oldest)
  /-- the first that arrives is the end of the line -/
  | shut (idle : timed.inbox.Idle) (instant : Time) (front missing : List Arrival)
    (later : Agenda Arrival) (next : timed.agenda.Next instant (front ++ missing) later)
    (early : instant < deadline) (empty : front.filterMap Arrival.frame? = [])
    (closed : .close ∈ front) :
    Ending timed deadline missing
      { now := instant, inbox := timed.inbox.close, agenda := later } .closed
  /-- nothing arrives before the deadline, or the deadline was past -/
  | elapsed (idle : timed.inbox.Idle) (nothing : ∀ entry ∈ timed.agenda.entries, deadline < entry.1) :
    Ending timed deadline [] { timed with now := max timed.now deadline } .elapsed

/-! ## the running wait -/

/-- nothing arrives unless it is due -/
theorem arriveAt_of_later {instant : Time} (h : ∀ entry ∈ timed.agenda.entries, instant < entry.1) :
    timed.arriveAt instant = { timed with now := instant } := by
  rw [arriveAt, Agenda.takeDue_of_later h]
  rfl

theorem await_of_later (idle : timed.inbox.Idle)
    (h : ∀ entry ∈ timed.agenda.entries, deadline < entry.1) :
    timed.await deadline = (timed.advance deadline, .elapsed) := by
  rw [await, look?_eq_none.mpr idle, Agenda.next?]
  cases hfirst : timed.agenda.entries.head? with
  | none => rfl
  | some first =>
    have hlater : ¬ (timed.now < first.1 ∧ first.1 ≤ deadline) := fun hdue =>
      Nat.not_le.mpr (h first (List.mem_of_head? hfirst)) hdue.2
    exact dif_neg hlater

theorem receive_of_idle (idle : timed.inbox.Idle) :
    timed.receive deadline =
      if timed.now < deadline then (timed.arriveAt timed.now).await deadline
      else (timed.advance deadline, .elapsed) := by
  rw [receive, look?_eq_none.mpr idle]

/-- the wait for the first instant at which something arrives -/
theorem receive_of_next (sound : timed.Sound) (idle : timed.inbox.Idle) {instant : Time}
    {due : List Arrival} {later : Agenda Arrival} (next : timed.agenda.Next instant due later)
    (early : instant < deadline) (ended : TimedInbox × Received)
    (look : look? { now := instant, inbox := due.foldl apply timed.inbox, agenda := later } =
      some ended) : timed.receive deadline = ended := by
  obtain ⟨event, hmem⟩ := next.exists_mem
  have hnow : timed.now ≤ instant := sound.ahead.notPast _ hmem
  have harrive : timed.arriveAt instant =
      { now := instant, inbox := due.foldl apply timed.inbox, agenda := later } := by
    rw [arriveAt, next.takeDue_eq]
  have hawait : (timed.arriveAt instant).await deadline = ended := by
    rw [await, harrive, look]
  rw [receive_of_idle idle, if_pos (Nat.lt_of_le_of_lt hnow early)]
  rcases Nat.eq_or_lt_of_le hnow with hsame | hbehind
  · rw [hsame]
    exact hawait
  · have hnothing : timed.arriveAt timed.now = timed := arriveAt_of_later fun entry hentry =>
      Nat.lt_of_lt_of_le hbehind (next.not_before entry hentry)
    rw [hnothing, await, look?_eq_none.mpr idle, next.next?_eq]
    show (if _ : timed.now < instant ∧ instant ≤ deadline then _ else _) = _
    rw [dif_pos ⟨hbehind, Nat.le_of_lt early⟩]
    exact hawait

/-- **The running wait**: all that arrives at an instant arrives before the look. -/
theorem Ending.receive_eq (sound : timed.Sound) (ending : Ending timed deadline [] last received) :
    timed.receive deadline =
      (if received = .elapsed then last.advance deadline else last, received) := by
  cases ending with
  | queued oldest rest frames =>
    rw [receive, look?_of_cons frames]
    rfl
  | closed empty closed =>
    rw [receive, look?_of_nil empty, closed]
    rfl
  | pushed idle instant front _ later next early oldest rest kept =>
    rw [List.append_nil] at next
    refine receive_of_next sound idle next early _ ?_
    rw [arrive_eq sound.inbox idle, look?_of_cons kept]
    rfl
  | shut idle instant front _ later next early empty closed =>
    rw [List.append_nil] at next
    refine receive_of_next sound idle next early _ ?_
    rw [arrive_shut sound.inbox idle empty closed]
    exact look?_of_nil idle.empty
  | elapsed idle nothing =>
    have hadvance : advance { timed with now := max timed.now deadline } deadline =
        timed.advance deadline := by
      show timed.arriveAt (max (max timed.now deadline) deadline) = _
      rw [Nat.max_eq_left (Nat.le_max_right _ _)]
      rfl
    rw [if_pos rfl, hadvance, receive_of_idle idle]
    split
    · rename_i hearly
      have hnothing : timed.arriveAt timed.now = timed := arriveAt_of_later fun entry hentry =>
        Nat.lt_trans hearly (nothing entry hentry)
      rw [hnothing, await_of_later idle nothing]
    · rfl

/-! ## how far the clock has gone -/

theorem jump_of_later (h : ∀ entry ∈ timed.agenda.entries, deadline < entry.1) :
    timed.jump deadline = ({ timed with now := deadline }, []) := by
  have hinstant : timed.nextInstant deadline = deadline := by
    rcases nextInstant_cases deadline timed with hdeadline | ⟨first, hfirst, hle⟩
    · exact hdeadline
    · have hbehind := h first (List.mem_of_head? hfirst)
      exact absurd (Nat.le_trans hle (nextInstant_le deadline timed)) (Nat.not_le.mpr hbehind)
  rw [jump, hinstant, Agenda.takeDue_of_later h]

theorem jump_of_next {instant : Time} {due : List Arrival} {later : Agenda Arrival}
    (next : timed.agenda.Next instant due later) (hnow : timed.now ≤ instant)
    (early : instant < deadline) :
    timed.jump deadline = ({ now := instant, inbox := timed.inbox, agenda := later }, due) := by
  have hinstant : timed.nextInstant deadline = instant := by
    rw [nextInstant, next.next?_eq]
    show min (max timed.now instant) deadline = instant
    rw [Nat.max_eq_right hnow, Nat.min_eq_left (Nat.le_of_lt early)]
  rw [jump, hinstant, next.takeDue_eq]

/-- The inbox during a wait, and what of this instant is still to arrive. -/
inductive Stage (timed : TimedInbox) (deadline : Time) : TimedInbox → List Arrival → Prop
  | before : Stage timed deadline timed []
  /-- at the first instant at which something arrives -/
  | within (idle : timed.inbox.Idle) (instant : Time) (front missing : List Arrival)
    (later : Agenda Arrival) (next : timed.agenda.Next instant (front ++ missing) later)
    (early : instant < deadline) :
    Stage timed deadline
      { now := instant, inbox := front.foldl apply timed.inbox, agenda := later } missing
  /-- at the deadline -/
  | late (idle : timed.inbox.Idle) (early : timed.now < deadline)
    (nothing : ∀ entry ∈ timed.agenda.entries, deadline < entry.1) :
    Stage timed deadline { timed with now := deadline } []

namespace Stage
variable {current : TimedInbox} {missing : List Arrival}

theorem arrive {arrival : Arrival} (stage : Stage timed deadline current (arrival :: missing)) :
    Stage timed deadline { current with inbox := apply current.inbox arrival } missing := by
  cases stage with
  | within idle instant front _ later next early =>
    have hfront : apply (front.foldl apply timed.inbox) arrival =
        (front ++ [arrival]).foldl apply timed.inbox := by
      rw [List.foldl_append]
      rfl
    rw [hfront]
    refine .within idle instant (front ++ [arrival]) missing later ?_ early
    rwa [List.append_assoc, List.singleton_append]

theorem idle (stage : Stage timed deadline current missing) (h : current.inbox.Idle) :
    timed.inbox.Idle := by
  cases stage with
  | before => exact h
  | within idle => exact idle
  | late idle => exact idle

/-- The clock goes on once at most, to the first instant at which something arrives or to the
deadline: who looks behind that has something to look at, or no time left. -/
theorem jump (sound : timed.Sound) (untied : ∀ entry ∈ timed.agenda.entries, entry.1 ≠ deadline)
    (stage : Stage timed deadline current []) (idle : current.inbox.Idle)
    (early : current.now < deadline) :
    Stage timed deadline (current.jump deadline).1 (current.jump deadline).2 := by
  cases stage with
  | before =>
    have hlate (hlater : ∀ entry ∈ timed.agenda.entries, deadline < entry.1) :
        Stage timed deadline (timed.jump deadline).1 (timed.jump deadline).2 := by
      rw [jump_of_later hlater]
      exact .late idle early hlater
    rcases sound.ahead.sorted.next_cases with hnone | ⟨instant, due, later, hnext⟩
    · refine hlate ?_
      rw [hnone]
      exact nofun
    · obtain ⟨first, hmem⟩ := hnext.exists_mem
      rcases Nat.lt_or_gt_of_ne (untied _ hmem) with hbefore | hbehind
      · rw [jump_of_next hnext (sound.ahead.notPast _ hmem) hbefore]
        exact .within idle instant [] due later hnext hbefore
      · exact hlate fun entry hentry => Nat.lt_of_lt_of_le hbehind (hnext.not_before entry hentry)
  | within _ instant front _ later next _ =>
    have hfront : front ≠ [] := by
      rw [← List.append_nil front]
      exact next.occupied
    exact absurd idle (not_idle_foldl _ hfront)
  | late => exact absurd early (Nat.lt_irrefl deadline)

/-- what a look finds -/
theorem finds (sound : timed.Sound) (stage : Stage timed deadline current missing)
    (look : current.look? = some (last, received)) : Ending timed deadline missing last received := by
  cases stage with
  | before =>
    cases hframes : timed.inbox.frames with
    | cons oldest rest =>
      rw [look?_of_cons hframes] at look
      obtain ⟨rfl, rfl⟩ := Prod.mk.inj (Option.some.inj look)
      exact .queued oldest rest hframes
    | nil =>
      rw [look?_of_nil hframes] at look
      split at look
      · rename_i hclosed
        obtain ⟨rfl, rfl⟩ := Prod.mk.inj (Option.some.inj look)
        exact .closed hframes hclosed
      · exact nomatch look
  | within idle instant front _ later next early =>
    have harrive := arrive_eq sound.inbox idle front
    cases hkept : (front.filterMap Arrival.frame?).rtake timed.inbox.capacity with
    | cons oldest rest =>
      rw [harrive, look?_of_cons hkept] at look
      obtain ⟨rfl, rfl⟩ := Prod.mk.inj (Option.some.inj look)
      exact .pushed idle instant front missing later next early oldest rest hkept
    | nil =>
      have hframes : (front.foldl apply timed.inbox).frames = [] := by
        rw [harrive]
        exact hkept
      have hnone : front.filterMap Arrival.frame? = [] := by
        have hroom := sound.inbox.room
        have hlength := length_newest timed.inbox.capacity (front.filterMap Arrival.frame?)
        rw [hkept, List.length_nil] at hlength
        exact List.length_eq_zero_iff.mp (by omega)
      rw [look?_of_nil hframes] at look
      split at look
      · rename_i hclosed
        rw [harrive] at hclosed
        have hmem : .close ∈ front := List.contains_iff_mem.mp hclosed
        obtain ⟨rfl, rfl⟩ := Prod.mk.inj (Option.some.inj look)
        rw [arrive_shut sound.inbox idle hnone hmem]
        exact .shut idle instant front missing later next early hnone hmem
      · exact nomatch look
  | late idle =>
    have hnone : TimedInbox.look? { timed with now := deadline } = none := look?_eq_none.mpr idle
    rw [hnone] at look
    exact nomatch look

/-- the time is up -/
theorem elapses (sound : timed.Sound) (untied : ∀ entry ∈ timed.agenda.entries, entry.1 ≠ deadline)
    (stage : Stage timed deadline current missing) (idle : timed.inbox.Idle)
    (late : deadline ≤ current.now) : Ending timed deadline missing current .elapsed := by
  cases stage with
  | before =>
    have hnow : timed = { timed with now := max timed.now deadline } := by
      rw [Nat.max_eq_left late]
    have hlater : ∀ entry ∈ timed.agenda.entries, deadline < entry.1 := fun entry hentry =>
      Nat.lt_of_le_of_ne (Nat.le_trans late (sound.ahead.notPast entry hentry))
        (untied entry hentry).symm
    have hending := Ending.elapsed idle hlater
    rwa [← hnow] at hending
  | within _ instant _ _ _ _ early => exact absurd late (Nat.not_le.mpr early)
  | late _ early nothing =>
    have hnow : ({ timed with now := deadline } : TimedInbox) =
        { timed with now := max timed.now deadline } := by
      rw [Nat.max_eq_right (Nat.le_of_lt early)]
    rw [hnow]
    exact .elapsed idle nothing

end Stage

end TimedInbox
end CameraPower
