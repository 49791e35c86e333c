import CameraPower.Proofs.AwaitedReply
import CameraPower.Proofs.DueTimes
import CameraPower.Proofs.LinkCall
import CameraPower.Proofs.TakingTurns

/-!
# A call in time

What comes from the line after a request falls into bursts, one for each instant at which something
is due.  They decide what the call comes to and when.

* `Wire.ahead_send`      what a request brings about comes in after it;
* `Receiver.bursts`      what a receiver makes of an agenda;
* `Link.Waits`           a link whose call has looked at all that came in;
* `Waits.settle_due`     one burst, `Waits.advance` the whole wait;
* `call_concludes`       a call from the moment at which it gets the line.
-/

set_option linter.unusedSectionVars false

namespace CameraPower

/-! ## what is due when -/

/-- what a request brings about comes in after it -/
theorem Wire.ahead_send {wire : Wire} {now : Time} (h : wire.agenda.Ahead now)
    (bytes : List UInt8) : (Wire.send wire now bytes).1.agenda.Ahead now := by
  unfold Wire.send
  cases Frame.decode? bytes with
  | error error => exact h
  | ok request =>
    dsimp only
    generalize wire.device.react request.command request.payload = reacted
    obtain ⟨device, fault, replies, hangsUp⟩ := reacted
    have hreplied : (wire.agenda.insertAll (replies.map fun reply =>
        (now + reply.1, LineEvent.bytes reply.2))).Ahead now := by
      refine h.insertAll _ fun event hmem => ?_
      obtain ⟨reply, -, rfl⟩ := List.mem_map.mp hmem
      exact Nat.le_add_right now reply.1
    have hended := hreplied.insert (Nat.le_refl now) LineEvent.ended
    cases hangsUp with
    | false => rcases fault with _ | fault | fault <;> exact hreplied
    | true => rcases fault with _ | fault | fault <;> exact hended

/-- What a receiver makes of the events of a line in the order of their instants: for each instant a
burst, with the frames that all events of the instant complete, and whether the receiver stops. -/
def Receiver.bursts (receiver : Receiver) : List (Time × LineEvent) → List Engine.Burst
  | [] => []
  | (time, event) :: rest =>
    let events := event :: (rest.takeWhile (·.1 ≤ time)).map Prod.snd
    let (after, frames) := receiver.hearAll events
    ⟨time, frames, receiver.running && !after.running⟩ :: after.bursts (rest.dropWhile (·.1 ≤ time))
termination_by entries => entries.length
decreasing_by exact Nat.lt_succ_of_le (List.dropWhile_suffix _).length_le

theorem Receiver.mem_bursts {receiver : Receiver} {entries : List (Time × LineEvent)}
    {burst : Engine.Burst} (h : burst ∈ receiver.bursts entries) :
    ∃ entry ∈ entries, entry.1 = burst.time := by
  induction receiver, entries using Receiver.bursts.induct with
  | case1 receiver =>
    rw [Receiver.bursts] at h
    cases h
  | case2 receiver time event rest events after frames hheard ih =>
    rw [Receiver.bursts] at h
    rcases List.mem_cons.mp h with rfl | hmem
    · exact ⟨(time, event), List.mem_cons_self, rfl⟩
    · have hafter : (receiver.hearAll events).1 = after := by rw [hheard]
      obtain ⟨entry, hentry, htime⟩ := ih (hafter ▸ hmem)
      exact ⟨entry, List.mem_cons_of_mem _ ((List.dropWhile_suffix _).subset hentry), htime⟩

/-! ## one burst -/

namespace Link
variable {ι : Type} [DecidableEq ι]

/-- The only call of a link holds the line, and has looked at all that came in. -/
structure Waits (exchange : Engine.Exchange ι) (room : Nat) (link : Link ι) : Prop where
  waiting : Engine.Waiting exchange room link.engine
  queue : link.engine.queue = []
  finished : link.finished = []

/-- the only call of a link has come to its end, at this instant -/
structure Concluded (ticket : ι) (time : Time) (answer : Answer) (left : List Frame)
    (link : Link ι) : Prop where
  current : link.engine.current = none
  queue : link.engine.queue = []
  finished : link.finished = [⟨ticket, time, answer⟩]
  frames : link.engine.inbox.frames = left
  now : link.now = time

section
variable {exchange : Engine.Exchange ι} {room : Nat} {link : Link ι}

/-- what a burst makes of a link whose call waits -/
inductive Heard (exchange : Engine.Exchange ι) (room : Nat) (burst : Engine.Burst) (link : Link ι) :
    Link ι → Prop
  | ends (after : Link ι) (answer : Answer) (left : List Frame)
    (concluded : after.Concluded exchange.ticket burst.time answer left)
    (port : after.engine.port = link.engine.port) (receiver : after.receiver = link.receiver)
    (decides : burst.Decides exchange room answer left) :
    Heard exchange room burst link after
  | waits (after : Link ι) (waits : after.Waits exchange room)
    (now : after.now = burst.time) (port : after.engine.port = link.engine.port)
    (receiver : after.receiver = link.receiver) (passes : burst.Passes room exchange.command)
    (early : burst.time < exchange.deadline) :
    Heard exchange room burst link after

theorem Waits.received (h : Waits exchange room link) (frames : List Frame) (ended : Bool)
    (hintime : link.now ≤ exchange.deadline) :
    Heard exchange room ⟨link.now, frames, ended⟩ link (link.perform (.received frames ended)) := by
  let heard : Engine ι Wire :=
    { link.engine with inbox := Engine.received link.engine.inbox frames ended }
  have hcurrent : heard.current = some exchange := h.waiting.current
  have hstep : link.engine.step Wire.send link.now (.received frames ended) =
      heard.look Wire.send link.now := rfl
  have hlooked : Engine.Looked exchange room ⟨link.now, frames, ended⟩
      (Engine.outcome? link.now exchange heard.inbox) :=
    Engine.outcome?_searched h.waiting.searched ⟨link.now, frames, ended⟩ hintime
  unfold perform
  cases houtcome : Engine.outcome? link.now exchange heard.inbox with
  | mk inbox answer? =>
    rw [houtcome] at hlooked
    cases hlooked with
    | ends _ answer decides =>
      rw [hstep, Engine.look_ends hcurrent houtcome]
      refine .ends _ answer inbox.frames ⟨?_, ?_, ?_, ?_, rfl⟩ ?_ rfl decides <;>
        simp [heard, h.queue, h.finished, Engine.grant, endsAt]
    | waits _ searched passes early =>
      rw [hstep, Engine.look_waits hcurrent houtcome]
      exact .waits _ ⟨⟨h.waiting.current, searched⟩, h.queue, by simp [endsAt, h.finished]⟩ rfl rfl
        rfl passes early

/-! ## the clock -/

theorem Waits.clock_early (h : Waits exchange room link) (hearly : link.now < exchange.deadline) :
    link.perform .clock = link := by
  have houtcome :
      Engine.outcome? link.now exchange link.engine.inbox = (link.engine.inbox, none) := by
    rw [Engine.outcome?_quiet h.waiting.searched, if_neg (Nat.not_le_of_lt hearly)]
  simp only [perform, Engine.step, Engine.look_waits h.waiting.current houtcome, endsAt,
    List.append_nil]

theorem Waits.clock_late (h : Waits exchange room link) (hlate : link.now = exchange.deadline) :
    (link.perform .clock).Concluded exchange.ticket exchange.deadline
      (.error (.timeout exchange.command exchange.timeout)) [] ∧
      (link.perform .clock).engine.port = link.engine.port := by
  have houtcome : Engine.outcome? link.now exchange link.engine.inbox =
      (link.engine.inbox, some (.error (.timeout exchange.command exchange.timeout))) := by
    rw [Engine.outcome?_quiet h.waiting.searched, if_pos (Nat.le_of_eq hlate.symm)]
  have hgrant : Engine.grant Wire.send link.now link.engine.inbox link.engine.port
      link.engine.queue = ({ inbox := link.engine.inbox, port := link.engine.port }, []) := by
    rw [h.queue, Engine.grant]
  have hperform : link.perform .clock = { link with
      engine := { inbox := link.engine.inbox, port := link.engine.port }
      finished := [⟨exchange.ticket, link.now,
        .error (.timeout exchange.command exchange.timeout)⟩] } := by
    simp only [perform, Engine.step, Engine.look_ends h.waiting.current houtcome, hgrant, endsAt,
      h.finished, List.nil_append]
  rw [hperform, hlate]
  exact ⟨⟨rfl, rfl, rfl, h.waiting.searched.frames, rfl⟩, rfl⟩

/-! ## what is due -/

theorem isDue_later (h : ∀ entry ∈ link.engine.port.agenda.entries, link.now < entry.1) :
    link.isDue = false := by
  unfold isDue Agenda.next?
  cases hentries : link.engine.port.agenda.entries with
  | nil => rfl
  | cons first rest =>
    rw [hentries] at h
    simpa using h first List.mem_cons_self

/-- the link without what is due now, and with a receiver that has heard it -/
def taken (link : Link ι) : Link ι :=
  let (due, agenda) := link.engine.port.agenda.takeDue link.now
  { link with
    engine := { link.engine with port := { link.engine.port with agenda } }
    receiver := (link.receiver.hearAll due).1 }

/-- the burst of what is due now -/
def dueBurst (link : Link ι) : Engine.Burst :=
  let after := link.receiver.hearAll (link.engine.port.agenda.takeDue link.now).1
  ⟨link.now, after.2, link.receiver.running && !after.1.running⟩

theorem Waits.settle_due (h : Waits exchange room link) (hdue : link.isDue = true)
    (hintime : link.now ≤ exchange.deadline) :
    Heard exchange room link.dueBurst link.taken link.settle := by
  rw [settle_of_queue h.queue, if_pos hdue]
  have htaken : link.taken.Waits exchange room :=
    ⟨⟨h.waiting.current, h.waiting.searched⟩, h.queue, h.finished⟩
  exact htaken.received _ _ hintime

theorem bursts_cons {event : LineEvent} {rest : List (Time × LineEvent)}
    (hentries : link.engine.port.agenda.entries = (link.now, event) :: rest) :
    link.receiver.bursts link.engine.port.agenda.entries =
      link.dueBurst :: link.taken.receiver.bursts link.taken.engine.port.agenda.entries := by
  rw [hentries, Receiver.bursts]
  simp [dueBurst, taken, Agenda.takeDue, hentries]

/-! ## the whole wait -/

/-- the wait of a call has come to the end that bursts lead to, and nothing else is due by then -/
def Ended (exchange : Engine.Exchange ι) (room : Nat) (bursts : List Engine.Burst) (link : Link ι) :
    Prop :=
  ∃ time answer left,
    Engine.Concludes room exchange.command exchange.timeout exchange.deadline bursts time answer
      left ∧
    link.Concluded exchange.ticket time answer left ∧
    ∀ entry ∈ link.engine.port.agenda.entries, link.now < entry.1

theorem Concluded.advance {ticket : ι} {time : Time} {answer : Answer} {left : List Frame}
    (h : link.Concluded ticket time answer left) (instant : Time) :
    link.advance idle instant = link := by
  have hidle : link.idle = true := by simp [idle, h.current, h.queue]
  unfold Link.advance
  rw [if_pos hidle]

theorem Waits.advance_eq (h : link.Waits exchange room) {next : Time} {after : Link ι}
    (hnext : link.next? = some next) (hlater : link.now < next)
    (hintime : next ≤ exchange.deadline) (hjump : link.jump next = after)
    (hnow : after.now = next) :
    link.advance idle exchange.deadline = after.advance idle exchange.deadline := by
  have hbusy : link.idle = false := by simp [idle, h.waiting.current]
  conv_lhs => unfold Link.advance
  subst hnow
  simp [hbusy, hnext, hlater, hintime, hjump]

theorem Heard.rests {burst : Engine.Burst} {after : Link ι}
    (h : Heard exchange room burst link after)
    (hlater : ∀ entry ∈ link.engine.port.agenda.entries, burst.time < entry.1) :
    (after.perform .clock).settle = after ∧ after.now = burst.time := by
  cases h with
  | ends answer left concluded port receiver decides =>
    rw [← port, ← concluded.now] at hlater
    rw [perform_clock_idle after concluded.current concluded.queue, settle_of_queue concluded.queue,
      isDue_later hlater]
    exact ⟨rfl, concluded.now⟩
  | waits waits now port receiver passes early =>
    rw [← port, ← now] at hlater
    rw [waits.clock_early (now ▸ early), settle_of_queue waits.queue, isDue_later hlater]
    exact ⟨rfl, now⟩

/-- the call has come to its end with a burst, or with what comes behind it -/
theorem Heard.ended {burst : Engine.Burst} {bursts : List Engine.Burst} {after : Link ι}
    (h : Heard exchange room burst link after)
    (hlater : ∀ entry ∈ link.engine.port.agenda.entries, burst.time < entry.1)
    (hbursts : ∀ other ∈ bursts, burst.time < other.time)
    (hgoesOn : after.Waits exchange room → burst.time < exchange.deadline →
      after.now = burst.time → after.engine.port = link.engine.port →
      after.receiver = link.receiver →
      (after.advance idle exchange.deadline).Ended exchange room bursts) :
    (after.advance idle exchange.deadline).Ended exchange room (burst :: bursts) := by
  cases h with
  | ends answer left concluded port receiver decides =>
    rw [← port, ← concluded.now] at hlater
    rw [concluded.advance]
    exact ⟨burst.time, answer, left,
      decides bursts fun hlate other hmem => Nat.lt_of_le_of_lt hlate (hbursts other hmem),
      concluded, hlater⟩
  | waits waits now port receiver passes early =>
    obtain ⟨time, answer, left, hconcludes, hconcluded⟩ := hgoesOn waits early now port receiver
    exact ⟨time, answer, left, hconcludes.behind passes, hconcluded⟩

theorem Waits.advance_late (h : link.Waits exchange room) (hearly : link.now < exchange.deadline)
    (hlate : ∀ entry ∈ link.engine.port.agenda.entries, exchange.deadline < entry.1)
    {bursts : List Engine.Burst} (hbursts : ∀ other ∈ bursts, exchange.deadline < other.time) :
    (link.advance idle exchange.deadline).Ended exchange room bursts := by
  let expiring : Link ι := { link with now := exchange.deadline }
  have hexpiring : expiring.Waits exchange room := ⟨h.waiting, h.queue, h.finished⟩
  obtain ⟨hconcluded, hport⟩ := hexpiring.clock_late rfl
  have hquiet : ∀ entry ∈ (expiring.perform .clock).engine.port.agenda.entries,
      (expiring.perform .clock).now < entry.1 := by
    rw [hport]
    exact hlate
  have hnext : link.next? = some exchange.deadline := by
    unfold next? Agenda.next?
    rw [h.waiting.current]
    cases hentries : link.engine.port.agenda.entries with
    | nil => rfl
    | cons first rest =>
      have hfirst := hlate first (hentries ▸ List.mem_cons_self)
      exact congrArg some (Nat.min_eq_right (Nat.le_of_lt hfirst))
  have hjump : link.jump exchange.deadline = expiring.perform .clock := by
    show (expiring.settle.perform .clock).settle = _
    rw [settle_of_queue hexpiring.queue, isDue_later hlate, if_neg Bool.false_ne_true,
      settle_of_queue hconcluded.queue, isDue_later hquiet, if_neg Bool.false_ne_true]
  rw [h.advance_eq hnext hearly (Nat.le_refl _) hjump hconcluded.now, hconcluded.advance]
  exact ⟨exchange.deadline, _, [], .late [] bursts nofun hbursts, hconcluded, hquiet⟩

/-- The wait that begins with what is due now: what comes behind that is left to `hgoesOn`. -/
theorem Waits.settle_ended (h : link.Waits exchange room)
    (hsorted : link.engine.port.agenda.Sorted) {event : LineEvent} {rest : List (Time × LineEvent)}
    (hentries : link.engine.port.agenda.entries = (link.now, event) :: rest)
    (hintime : link.now ≤ exchange.deadline)
    (hgoesOn : ∀ after : Link ι, after.Waits exchange room → after.engine.port.agenda.Sorted →
      (∀ entry ∈ after.engine.port.agenda.entries, after.now < entry.1) →
      after.now < exchange.deadline → after.engine.port.agenda.entries.length ≤ rest.length →
      (after.advance idle exchange.deadline).Ended exchange room
        (after.receiver.bursts after.engine.port.agenda.entries)) :
    (link.settle.advance idle exchange.deadline).Ended exchange room
      (link.receiver.bursts link.engine.port.agenda.entries) := by
  have hrest := hsorted.later link.now
  have hheard := h.settle_due (by simp [isDue, Agenda.next?, hentries]) hintime
  rw [bursts_cons hentries]
  refine hheard.ended hrest (fun other hother => ?_) fun hwaits hearly hnow hport hreceiver => ?_
  · obtain ⟨entry, hentry, hsame⟩ := Receiver.mem_bursts hother
    exact hsame ▸ hrest entry hentry
  · rw [← hport, ← hreceiver]
    refine hgoesOn _ hwaits ?_ ?_ (hnow ▸ hearly) ?_
    · rw [hport]
      exact hsorted.takeDue link.now
    · rw [hport, hnow]
      exact hrest
    · rw [hport]
      have hshorter := (List.dropWhile_suffix (l := rest)
        fun entry : Time × LineEvent => decide (entry.1 ≤ link.now)).length_le
      simpa [taken, Agenda.takeDue, hentries] using hshorter

theorem Waits.advance (h : link.Waits exchange room) (hsorted : link.engine.port.agenda.Sorted)
    (hlater : ∀ entry ∈ link.engine.port.agenda.entries, link.now < entry.1)
    (hearly : link.now < exchange.deadline) :
    (link.advance idle exchange.deadline).Ended exchange room
      (link.receiver.bursts link.engine.port.agenda.entries) := by
  -- on the agenda: each instant at which something is due leaves less on it
  induction hsize : link.engine.port.agenda.entries.length using Nat.strong_induction_on
    generalizing link with
  | _ size ih =>
    by_cases hdue : ∃ time event rest,
        link.engine.port.agenda.entries = (time, event) :: rest ∧ time ≤ exchange.deadline
    · obtain ⟨time, event, rest, hentries, hintime⟩ := hdue
      have htime : link.now < time := hlater (time, event) (hentries ▸ List.mem_cons_self)
      let hearing : Link ι := { link with now := time }
      have hhearing : hearing.Waits exchange room := ⟨h.waiting, h.queue, h.finished⟩
      have hheard : Heard exchange room hearing.dueBurst hearing.taken hearing.settle :=
        hhearing.settle_due (by simp [hearing, isDue, Agenda.next?, hentries]) hintime
      obtain ⟨hrests, hnow⟩ := hheard.rests (Agenda.Sorted.later hsorted time)
      have hnext : link.next? = some time := by
        simp [next?, Agenda.next?, hentries, h.waiting.current, earlier?, Nat.min_eq_left hintime]
      have hjump : link.jump time = hearing.settle := hrests
      rw [h.advance_eq hnext htime hintime hjump hnow]
      refine hhearing.settle_ended hsorted hentries hintime
        fun after hwaits hsorted hlater hearly hshorter => ?_
      refine ih _ ?_ hwaits hsorted hlater hearly rfl
      rw [← hsize, hentries]
      exact Nat.lt_succ_of_le hshorter
    · have hlate : ∀ entry ∈ link.engine.port.agenda.entries, exchange.deadline < entry.1 := by
        refine hsorted.later_of_head fun first hfirst => Nat.lt_of_not_le fun hintime => hdue ?_
        obtain ⟨rest, hentries⟩ := List.head?_eq_some_iff.mp hfirst
        exact ⟨first.1, first.2, rest, hentries, hintime⟩
      refine h.advance_late hearly hlate fun other hother => ?_
      obtain ⟨entry, hentry, hsame⟩ := Receiver.mem_bursts hother
      exact hsame ▸ hlate entry hentry

theorem Waits.settle_advance (h : link.Waits exchange room)
    (hahead : link.engine.port.agenda.Ahead link.now) (hearly : link.now < exchange.deadline) :
    (link.settle.advance idle exchange.deadline).Ended exchange room
      (link.receiver.bursts link.engine.port.agenda.entries) := by
  by_cases hdue : ∃ event rest, link.engine.port.agenda.entries = (link.now, event) :: rest
  · obtain ⟨event, rest, hentries⟩ := hdue
    exact h.settle_ended hahead.sorted hentries (Nat.le_of_lt hearly)
      fun after hwaits hsorted hlater hearly _ => hwaits.advance hsorted hlater hearly
  · have hlater : ∀ entry ∈ link.engine.port.agenda.entries, link.now < entry.1 := by
      refine hahead.sorted.later_of_head fun first hfirst => ?_
      obtain ⟨rest, hentries⟩ := List.head?_eq_some_iff.mp hfirst
      have hnotPast := hahead.notPast first (List.mem_of_head? hfirst)
      refine Nat.lt_of_le_of_ne hnotPast fun hsame => hdue ?_
      exact ⟨first.2, rest, hsame ▸ hentries⟩
    rw [settle_of_queue h.queue, isDue_later hlater, if_neg Bool.false_ne_true]
    exact h.advance hahead.sorted hlater hearly

end

/-! ## a call -/

theorem AtRest.begin_open {link : Link ι} (h : link.AtRest)
    (hopen : link.engine.inbox.closed = false) (hsound : link.engine.inbox.Sound)
    (call : Engine.Call ι) (hfits : call.request.payload.length ≤ Frame.maxPayload)
    (htimeout : 0 < call.timeout) {wire : Wire}
    (hsend : Wire.send link.engine.port link.now call.request.bytes = (wire, .ok ())) :
    link.begin call = { link with
      engine := { link.engine with
        inbox := link.engine.inbox.drain.1
        port := wire
        current := some (call.exchange link.now) } } := by
  have hgrant := Engine.grant_open Wire.send link.now hsound hopen [] hsend htimeout
  rw [begin_idle link h.current h.queue call hfits, hgrant]
  simp [endsAt, h.queue]

theorem exchange_ended {link ended : Link ι} {ticket : ι} {timeout : Time} {request : Request}
    {time : Time} {answer : Answer} {left : List Frame} (htimeout : 0 < timeout)
    (hended : (link.begin ⟨ticket, request, timeout⟩).settle.advance idle (link.now + timeout) =
      ended)
    (hconcluded : ended.Concluded ticket time answer left)
    (hquiet : ∀ entry ∈ ended.engine.port.agenda.entries, ended.now < entry.1) :
    link.exchange ticket timeout none request = ({ ended with finished := [] }, some answer) := by
  let rested : Link ι := { ended with finished := [] }
  have hqueue : rested.engine.queue = [] := hconcluded.queue
  have hlater : ∀ entry ∈ rested.engine.port.agenda.entries, rested.now < entry.1 := hquiet
  have hsettled : rested.settle = rested := by
    rw [settle_of_queue hqueue, isDue_later hlater, if_neg Bool.false_ne_true]
  have hnow : (link.begin ⟨ticket, request, timeout⟩).now < link.now + timeout :=
    Nat.lt_add_of_pos_right htimeout
  have hpatience : (none : Option Time).getD
      ((link.begin ⟨ticket, request, timeout⟩).now + timeout) = link.now + timeout := rfl
  unfold exchange
  simp only [hpatience, hnow, if_true, hended, hconcluded.finished]
  exact congrArg (·, some answer) hsettled

/-- **What a call comes to, and when.**  A call gets the line of an open inbox, whatever frames are
in, and its request is written.  These frames are thrown away; what comes in from then on decides, as
`Concludes` says, and nothing else: not the frames for other calls, nor the callers who arrive or give
up meanwhile.  The first part is about the machine and any port; in the second a caller who has the
link to itself is served in virtual time, and the bursts are what the receiver makes of the line. -/
theorem call_concludes :
    (∀ {π : Type} (send : Send π) (start : Time) (inbox : Inbox) (port port' : π)
      (call : Engine.Call ι) (others : List (Engine.Call ι)),
      inbox.Sound → inbox.closed = false → 0 < call.timeout →
      send port start call.request.bytes = (port', .ok ()) →
      let deadline := start + call.timeout
      let granted := Engine.grant send start inbox port (call :: others)
      granted.2 = [.write call.ticket call.request.bytes] ∧
      ∀ (early later : List (Time × Engine.Cause ι)) (last : Engine.Cause ι),
        (∀ moment ∈ early, moment.1 < deadline) →
        (∀ moment ∈ early ++ [(deadline, last)], moment.2.ticket? ≠ some call.ticket) →
        ∃ time answer left,
          Engine.Concludes inbox.capacity call.request.command call.timeout deadline
            (Engine.bursts (early ++ [(deadline, last)])) time answer left ∧
          ∃ before after,
            (Engine.record send granted.1 (early ++ (deadline, last) :: later)).1 =
              before ++ (time, .action (.finish call.ticket answer)) :: after ∧
            ∀ time answer, (time, .action (.finish call.ticket answer)) ∉ before) ∧
    ∀ (link : Link ι) (wire : Wire) (ticket : ι) (timeout : Time) (request : Request),
      link.AtRest → link.engine.inbox.Sound → link.engine.inbox.closed = false → 0 < timeout →
      request.payload.length ≤ Frame.maxPayload →
      link.engine.port.agenda.Ahead link.now →
      Wire.send link.engine.port link.now request.bytes = (wire, .ok ()) →
      ∃ time answer left,
        Engine.Concludes link.engine.inbox.capacity request.command timeout (link.now + timeout)
          (link.receiver.bursts wire.agenda.entries) time answer left ∧
        (link.exchange ticket timeout none request).2 = some answer ∧
        (link.exchange ticket timeout none request).1.now = time ∧
        (link.exchange ticket timeout none request).1.engine.inbox.frames = left ∧
        (link.exchange ticket timeout none request).1.AtRest := by
  constructor
  · intro π send start inbox port port' call others hsound hopen htimeout hsend deadline granted
    have hgranted : granted = _ := Engine.grant_open send start hsound hopen others hsend htimeout
    rw [hgranted]
    refine ⟨rfl, fun early later last hearly hothers => ?_⟩
    exact Engine.record_waiting
      (Engine.waiting_granted hsound hopen port' (call.exchange start) others)
      early last later hearly hothers
  · intro link wire ticket timeout request hrest hsound hopen htimeout hfits hahead hsend
    let call : Engine.Call ι := ⟨ticket, request, timeout⟩
    have hbegin := hrest.begin_open hopen hsound call hfits htimeout hsend
    have hearly : link.now < link.now + timeout := Nat.lt_add_of_pos_right htimeout
    have hwaits : (link.begin call).Waits (call.exchange link.now) link.engine.inbox.capacity := by
      rw [hbegin]
      exact ⟨⟨rfl, hsound.searched hopen⟩, hrest.queue, hrest.finished⟩
    have hsent := Wire.ahead_send hahead request.bytes
    rw [hsend] at hsent
    obtain ⟨time, answer, left, hconcludes, hconcluded, hquiet⟩ :=
      hwaits.settle_advance (by rw [hbegin]; exact hsent) hearly
    have hexchange : link.exchange ticket timeout none request = _ :=
      exchange_ended htimeout rfl hconcluded hquiet
    rw [hexchange]
    refine ⟨time, answer, left, ?_, rfl, hconcluded.now, hconcluded.frames,
      hconcluded.current, hconcluded.queue, rfl⟩
    rw [hbegin] at hconcludes
    exact hconcludes

/-- a frame with the command of a call is lost to newer ones, and later another one comes in -/
def overtaken : List (Time × Engine.Cause Nat) :=
  [(20, .hears [⟨none, ⟨7, [1], 0⟩⟩, ⟨none, ⟨4, [], 0⟩⟩, ⟨none, ⟨4, [2], 0⟩⟩] false),
    (30, .givesUp 1), (60, .hears [⟨some 0, ⟨7, [3], 0⟩⟩] false)]

/-- a link whose controller answers with a frame nobody asked for, and 30 later properly -/
def interrupting : Link Nat :=
  let replies := [(20, Frame.bytes 9 []), (50, Frame.bytes 7 [3])]
  start { script := fun _ => some { replies } } 144 4

theorem sent_of_toOption {π : Type} {sent : π × Except PortFault Unit}
    (h : sent.2.toOption = some ()) : sent = (sent.1, .ok ()) := by
  obtain ⟨port, result⟩ := sent
  cases result with
  | ok => rfl
  | error => cases h

theorem call_concludes_overtaken :
    (∃ before after,
      (Engine.record Engine.willing
        (Engine.grant Engine.willing 5 ⟨2, [⟨7, [9], 0⟩], false, 0⟩ () [⟨0, ⟨7, []⟩, 100⟩]).1
        (overtaken ++ [(105, .ticks)])).1 =
        before ++ (60, .action (.finish 0 (.ok ⟨7, [3], 0⟩))) :: after) ∧
      (interrupting.exchange 0 100 none ⟨7, []⟩).2 = some (.ok ⟨7, [3], 0xD5E3⟩) ∧
      (interrupting.exchange 0 100 none ⟨7, []⟩).1.now = 50 := by
  constructor
  · obtain ⟨-, hcall⟩ := call_concludes.1 Engine.willing 5 ⟨2, [⟨7, [9], 0⟩], false, 0⟩ () ()
      (⟨0, ⟨7, []⟩, 100⟩ : Engine.Call Nat) [] ⟨by decide, by decide⟩ rfl (by decide) rfl
    obtain ⟨time, answer, left, hconcludes, before, after, hrecord, -⟩ :=
      hcall overtaken [] .ticks (by decide) (by decide)
    have hreplied : Engine.Concludes 2 7 100 105 (Engine.bursts (overtaken ++ [(105, .ticks)])) 60
        (.ok ⟨7, [3], 0⟩) [] := by
      refine .settled (Engine.bursts (overtaken.take 2)) ⟨60, [⟨7, [3], 0⟩], false⟩
        [⟨105, [], false⟩] ?_ (by decide) (.replied [] _ [] rfl nofun rfl)
      exact List.forall_mem_cons.mpr
        ⟨⟨by decide, rfl⟩, List.forall_mem_singleton.mpr ⟨by decide, rfl⟩⟩
    obtain ⟨rfl, rfl, -⟩ := hconcludes.unique hreplied
    exact ⟨before, after, hrecord⟩
  · let wire := (Wire.send interrupting.engine.port 0 (Request.bytes ⟨7, []⟩)).1
    have hsend : Wire.send interrupting.engine.port 0 (Request.bytes ⟨7, []⟩) = (wire, .ok ()) :=
      sent_of_toOption (by decide +kernel)
    obtain ⟨time, answer, left, hconcludes, hanswer, hnow, -⟩ :=
      call_concludes.2 interrupting wire 0 100 ⟨7, []⟩ ⟨rfl, rfl, rfl⟩ ⟨by decide, by decide⟩ rfl
        (by decide) (by decide) ⟨List.Pairwise.nil, nofun⟩ hsend
    have hbursts : interrupting.receiver.bursts wire.agenda.entries =
        [⟨20, [⟨9, [], 0x56B0⟩], false⟩, ⟨50, [⟨7, [3], 0xD5E3⟩], false⟩] := by decide +kernel
    have hreplied : Engine.Concludes 4 7 100 100
        (interrupting.receiver.bursts wire.agenda.entries) 50 (.ok ⟨7, [3], 0xD5E3⟩) [] := by
      rw [hbursts]
      exact .settled [_] _ [] (List.forall_mem_singleton.mpr ⟨by decide, rfl⟩) (by decide)
        (.replied [] _ [] rfl nofun rfl)
    obtain ⟨rfl, rfl, -⟩ := hconcludes.unique hreplied
    exact ⟨hanswer, hnow⟩

end Link
end CameraPower
