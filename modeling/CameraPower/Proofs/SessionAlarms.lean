import CameraPower.Proofs.SessionLog
import Mathlib.Data.Nat.Bitwise

/-!
# A session and the controller's alarms

An alarm is a battery reading with the flag by which the controller asks the host to shut down.  A
session passes it on behind its reply.  So an alarm whose reply does not reach the client is lost:
the session ends with the reply, and nobody hears of the alarm.

* `isAlarm`                 an answer to a request is an alarm;
* `Watch`                   what a history says of its alarms;
* `Stepped`                 what a session can do at an event;
* `Heeds.moment`            one event, and `Heeds.record` all events;
* `heeds_delivered_alarms`  which alarms are passed on, and `alarm_lost_with_client` which is not.
-/

namespace CameraPower.Session

/-! ## alarms -/

/-- The answer to a request is a battery reading in which bit 6 of the flags is set. -/
def isAlarm (request : Request) : Answer → Bool
  | .ok frame =>
    request == Controller.batteryData.request &&
      match Telemetry.decode? Command.getDataExt frame.payload with
      | .ok t => t.flags.toNat.testBit 6
      | .error _ => false
  | .error _ => false

theorem shutdownRequested_eq_testBit (t : Telemetry) :
    t.shutdownRequested = t.flags.toNat.testBit 6 := by
  have hbit : (t.flags &&& 0x40).toNat = (t.flags.toNat.testBit 6).toNat * 2 ^ 6 := by
    rw [UInt8.toNat_and]
    exact Nat.and_two_pow t.flags.toNat 6
  have hzero : t.flags &&& 0x40 = 0 ↔ (t.flags &&& 0x40).toNat = 0 := UInt8.toNat_inj.symm
  unfold Telemetry.shutdownRequested
  cases hflag : t.flags.toNat.testBit 6 <;> simp [hzero, hbit, hflag]

theorem result_batteryData (frame : Frame) :
    Controller.batteryData.result (.ok frame) =
      if frame.payload.length < Telemetry.baseSize then
        .error (.protocol (.replyTooShort Command.getDataExt frame.payload.length
          Telemetry.baseSize))
      else Telemetry.decode? Command.getDataExt frame.payload := rfl

theorem decode?_short {command : UInt8} {payload : List UInt8}
    (h : payload.length < Telemetry.baseSize) :
    Telemetry.decode? command payload = .error (.protocol (.batteryTooShort payload.length)) := by
  unfold Telemetry.decode?
  split
  · simp [Telemetry.baseSize] at h
    omega
  · rfl

theorem shutdownRequested_replyTo {α : Type} (command : ClientCommand) (query : Query α)
    (text : α → Reply) (answer : Answer) :
    (command.replyTo query text answer).shutdownRequested =
      match query.result answer with
      | .ok value => (text value).shutdownRequested
      | .error _ => false := by
  unfold ClientCommand.replyTo
  cases query.result answer <;> rfl

/-- only battery readings are alarms, whatever the client has asked for -/
theorem shutdownRequested_reply (command : ClientCommand) (answer : Answer) :
    (command.reply answer).shutdownRequested = isAlarm command.request answer := by
  have hstatus : ∀ {α : Type} (query : Query α) (text : α → String),
      command.request ≠ Controller.batteryData.request →
      (command.replyTo query (fun value => ClientCommand.status (text value)) answer
        ).shutdownRequested = isAlarm command.request answer := by
    intro α query text hother
    have hsilent : isAlarm command.request answer = false := by
      cases answer <;> simp [isAlarm, hother]
    rw [shutdownRequested_replyTo, hsilent]
    cases query.result answer <;> rfl
  cases command with
  | getBatteryData =>
    show (ClientCommand.replyTo .getBatteryData Controller.batteryData _ answer).shutdownRequested = _
    rw [shutdownRequested_replyTo]
    cases answer with
    | error error => rfl
    | ok frame =>
      have hrequest : ClientCommand.getBatteryData.request = Controller.batteryData.request := rfl
      rw [result_batteryData]
      by_cases hshort : frame.payload.length < Telemetry.baseSize
      · simp [isAlarm, hshort, decode?_short hshort]
      · cases hdecode : Telemetry.decode? Command.getDataExt frame.payload <;>
          simp [isAlarm, hrequest, hshort, hdecode, shutdownRequested_eq_testBit]
  | setShippingMode | setPowerupMode | getPowerupMode | setFanAuto | setFanOff | setFanSpeed
  | getFanMode | getShutdownReason => exact hstatus _ _ (fun hsame => by cases hsame)

/-! ## what a history says -/

/-- what is known of a session from its history alone -/
structure Watch where
  /-- the request that waits for its answer -/
  waiting : Option Request := none
  /-- the client is gone, and no reply reaches it -/
  deserted : Bool := false
  /-- alarms that came while the client was there -/
  heard : Nat := 0
  /-- alarms that came when the client was gone -/
  missed : Nat := 0

/-- an answer that comes now is an alarm -/
def Watch.alarmed (watch : Watch) (answer : Answer) : Bool :=
  watch.waiting.any (isAlarm · answer)

def Watch.see (watch : Watch) : Entry → Watch
  | .event (.answered answer) =>
    { watch with
      waiting := none
      heard := watch.heard + if watch.alarmed answer && !watch.deserted then 1 else 0
      missed := watch.missed + if watch.alarmed answer && watch.deserted then 1 else 0 }
  | .event .vanished => { watch with deserted := true }
  | .action (.ask request) => { watch with waiting := some request }
  | _ => watch

def History.watch (history : History) : Watch :=
  history.foldl (fun watch entry => watch.see entry.2) {}

/-- how often a shutdown of the host was asked for -/
def History.shutdowns (history : History) : Nat :=
  history.countP fun entry => match entry.2 with
    | .action .requestShutdown => true
    | _ => false

@[simp] theorem History.watch_at (history : History) (now : Time) (entries : List Entry) :
    History.watch (history ++ History.at now entries) = entries.foldl Watch.see history.watch := by
  simp [History.watch, History.at, List.foldl_append, List.foldl_map]

@[simp] theorem History.shutdowns_at (history : History) (now : Time) (entries : List Entry) :
    History.shutdowns (history ++ History.at now entries) =
      history.shutdowns + History.shutdowns (History.at now entries) := by
  simp [History.shutdowns]

/-- an event in a history is one of those that were there, or it is the last one -/
theorem event_cases {history before after : History} {now time : Time} {event other : Event}
    {actions : List Action}
    (h : history ++ History.at now (.event event :: actions.map .action) =
      before ++ (time, .event other) :: after) :
    (before = history ∧ other = event ∧ time = now ∧
        after = History.at now (actions.map .action)) ∨
      ∃ between, history = before ++ (time, .event other) :: between ∧
        after = between ++ History.at now (.event event :: actions.map .action) := by
  rcases List.append_eq_append_iff.mp h with ⟨front, hbefore, hlast⟩ | ⟨between, hhistory, hafter⟩
  · cases front with
    | nil =>
      obtain ⟨hsame, hrest⟩ := List.cons.inj hlast
      obtain ⟨rfl, hevent⟩ := Prod.mk.inj hsame
      cases hevent
      exact Or.inl ⟨by simpa using hbefore, rfl, rfl, hrest.symm⟩
    | cons first front =>
      -- behind the event there are actions only
      have hmem : (time, Entry.event other) ∈ History.at now (actions.map .action) := by
        have hrest : History.at now (actions.map .action) = front ++ (time, .event other) :: after :=
          (List.cons.inj hlast).2
        rw [hrest]
        simp
      simp [History.at] at hmem
  · cases between with
    | nil =>
      obtain ⟨hsame, hrest⟩ := List.cons.inj hafter
      obtain ⟨rfl, hevent⟩ := Prod.mk.inj hsame
      cases hevent
      exact Or.inl ⟨by simpa using hhistory.symm, rfl, rfl, hrest⟩
    | cons first between =>
      obtain ⟨rfl, rfl⟩ := List.cons.inj hafter
      exact Or.inr ⟨between, hhistory, rfl⟩

/-! ## what a session can do -/

/-- the request that is under way -/
def Phase.request? : Phase → Option Request
  | .asking command => some command.request
  | _ => none

/-- what is left when lines have been read: a request, or nothing to be done -/
inductive Leaves (connected : Bool) : Session × List Action → Prop
  | idle (session : Session) (same : session.connected = connected)
    (free : session.phase.request? = none) : Leaves connected (session, [])
  | asks (session : Session) (same : session.connected = connected) (command : ClientCommand)
    (asking : session.phase = .asking command) :
    Leaves connected (session, [.ask command.request])

theorem ask_leaves (session : Session) (command : ClientCommand) :
    Leaves session.connected (session.ask command) :=
  .asks { session with phase := .asking command } rfl command rfl

theorem listen_leaves (now : Time) (session : Session) (quietAt : Time) :
    Leaves session.connected (session.listen now quietAt) := by
  fun_induction Session.listen now session quietAt with
  | case1 | case2 => exact .idle _ rfl rfl
  | case3 session quietAt _ reader _ left => exact ask_leaves left .getBatteryData
  | case4 => exact .idle _ rfl rfl
  | case5 session quietAt _ line rest _ left command _ => exact ask_leaves left command
  | case6 session quietAt _ line rest _ left _ ih => exact ih

/-- whether a client that was there still is -/
def Event.keepsClient : Event → Bool
  | .vanished => false
  | _ => true

/-- What an event can make of a session, as far as requests, replies and the client go. -/
inductive Stepped (session : Session) : Event → Session × List Action → Prop
  /-- the reply reaches the client, and an alarm is passed on -/
  | replied (command : ClientCommand) (answer : Answer) (left : Session × List Action)
    (asking : session.phase = .asking command) (there : session.connected = true)
    (leaves : Leaves true left) :
    Stepped session (.answered answer) (left.1, .write (command.reply answer).text ::
      ((if isAlarm command.request answer then [.requestShutdown] else []) ++ left.2))
  /-- the reply does not reach the client -/
  | failed (command : ClientCommand) (answer : Answer) (asking : session.phase = .asking command)
    (gone : session.connected = false) :
    Stepped session (.answered answer)
      ({ session with phase := .closed (.error (.io .brokenPipe)) }, [])
  /-- lines are read when nothing is under way -/
  | listened (event : Event) (left : Session × List Action) (quietAt : Time)
    (listening : session.phase = .listening quietAt)
    (leaves : Leaves (session.connected && event.keepsClient) left) : Stepped session event left
  /-- nothing can be done -/
  | rested (event : Event) (next : Session) (same : next.phase = session.phase)
    (connected : next.connected = (session.connected && event.keepsClient))
    (unasked : ∀ answer, event = .answered answer → session.phase.request? = none) :
    Stepped session event (next, [])

theorem resume_stepped {session next : Session} {event : Event} (now : Time)
    (hphase : next.phase = session.phase)
    (hconnected : next.connected = (session.connected && event.keepsClient))
    (hunasked : ∀ answer, event ≠ .answered answer) :
    Stepped session event (next.resume now) := by
  unfold resume
  split
  · rename_i quietAt hlistening
    have hleaves := listen_leaves now next quietAt
    rw [hconnected] at hleaves
    exact .listened event _ quietAt (hphase ▸ hlistening) hleaves
  · exact .rested event next hphase hconnected fun answer h => (hunasked answer h).elim

theorem step_stepped (now : Time) (session : Session) (event : Event) :
    Stepped session event (session.step now event) := by
  cases event with
  | input bytes =>
    simp only [step]
    split
    · exact .rested _ _ rfl (Bool.and_true _).symm nofun
    · exact resume_stepped now rfl (Bool.and_true _).symm nofun
  | inputEnded | stop | clock => exact resume_stepped now rfl (Bool.and_true _).symm nofun
  | vanished => exact resume_stepped now rfl (Bool.and_false _).symm nofun
  | answered answer =>
    simp only [step]
    cases hphase : session.phase with
    | asking command =>
      simp only [deliver]
      split
      · rename_i hthere
        have hleaves := listen_leaves now session (now + session.pushInterval)
        rw [hthere] at hleaves
        rw [shutdownRequested_reply]
        exact .replied command answer _ hphase hthere hleaves
      · rename_i hgone
        exact .failed command answer hphase (Bool.eq_false_of_not_eq_true hgone)
    | listening | closed =>
      exact .rested _ _ rfl (Bool.and_true _).symm fun _ _ => by rw [hphase]; rfl

/-! ## alarms in a history -/

theorem shutdowns_moment (now : Time) (event : Event) (actions : List Action) :
    History.shutdowns (History.at now (.event event :: actions.map .action)) =
      actions.count .requestShutdown := by
  have hactions : History.shutdowns (History.at now (actions.map .action)) =
      actions.count .requestShutdown := by
    induction actions with
    | nil => rfl
    | cons action rest ih => cases action <;> simp_all [History.shutdowns, History.at]
  exact hactions

/-- The watch goes with the session, and it has missed at most one alarm: when it has, the session
has ended with the reply. -/
structure Watch.Follows (watch : Watch) (session : Session) : Prop where
  waiting : watch.waiting = session.phase.request?
  deserted : watch.deserted = !session.connected
  missed : watch.missed = 0 ∨
    watch.missed = 1 ∧ session.phase = .closed (.error (.io .brokenPipe))

section
variable {watch : Watch} {session : Session} {event : Event} {left : Session × List Action}

/-- what happens while nothing is under way, or is no answer, is no alarm -/
theorem Watch.see_event (h : ∀ answer, event = .answered answer → watch.waiting = none) :
    watch.see (.event event) =
      { watch with deserted := watch.deserted || !event.keepsClient } := by
  cases event with
  | answered answer => simp [Watch.see, Watch.alarmed, Event.keepsClient, h answer rfl]
  | input | inputEnded | vanished | stop | clock => simp [Watch.see, Event.keepsClient]

theorem Leaves.follows (h : Leaves (!watch.deserted) left) (hwaiting : watch.waiting = none)
    (hmissed : watch.missed = 0) :
    ((left.2.map Entry.action).foldl Watch.see watch).Follows left.1 ∧
      ((left.2.map Entry.action).foldl Watch.see watch).heard = watch.heard ∧
      left.2.count .requestShutdown = 0 := by
  cases h with
  | idle session same free =>
    exact ⟨⟨hwaiting.trans free.symm, by simp [same], Or.inl hmissed⟩, rfl, rfl⟩
  | asks session same command asking =>
    exact ⟨⟨by simp [Watch.see, asking, Phase.request?], by simp [Watch.see, same], Or.inl hmissed⟩,
      rfl, rfl⟩

/-- an open session has missed nothing -/
theorem Watch.Follows.missed_of_open (h : watch.Follows session)
    (hopen : ∀ outcome, session.phase ≠ .closed outcome) : watch.missed = 0 := by
  rcases h.missed with hnone | ⟨-, hclosed⟩
  · exact hnone
  · exact (hopen _ hclosed).elim

theorem Watch.Follows.stepped (h : watch.Follows session) (hstep : Stepped session event left) :
    ((left.2.map Entry.action).foldl Watch.see (watch.see (.event event))).Follows left.1 ∧
      ((left.2.map Entry.action).foldl Watch.see (watch.see (.event event))).heard =
        watch.heard + left.2.count .requestShutdown := by
  cases hstep with
  | replied command answer left asking there leaves =>
    have hwaiting : watch.waiting = some command.request := by rw [h.waiting, asking]; rfl
    have hthere : watch.deserted = false := by rw [h.deserted, there]; rfl
    have hmissed := h.missed_of_open (by simp [asking])
    let seen : Watch := watch.see (.event (.answered answer))
    have hheard : seen.heard =
        watch.heard + if isAlarm command.request answer then 1 else 0 := by
      simp [seen, Watch.see, Watch.alarmed, hwaiting, hthere]
    have hleaves : Leaves (!seen.deserted) left := by
      simpa [seen, Watch.see, hthere] using leaves
    obtain ⟨hfollows, hsame, hnone⟩ :=
      hleaves.follows rfl (by simp [seen, Watch.see, hthere, hmissed])
    -- neither the reply nor the call for a shutdown changes what is known
    cases halarm : isAlarm command.request answer with
    | false =>
      refine ⟨hfollows, hsame.trans ?_⟩
      simp [hheard, halarm, hnone]
    | true =>
      refine ⟨hfollows, hsame.trans ?_⟩
      simp [hheard, halarm, hnone]
  | failed command answer asking gone =>
    have hwaiting : watch.waiting = some command.request := by rw [h.waiting, asking]; rfl
    have hgone : watch.deserted = true := by rw [h.deserted, gone]; rfl
    have hmissed := h.missed_of_open (by simp [asking])
    refine ⟨⟨rfl, by simp [Watch.see, hgone, gone], ?_⟩, by simp [Watch.see, hgone]⟩
    cases halarm : isAlarm command.request answer <;>
      simp [Watch.see, Watch.alarmed, hwaiting, hgone, hmissed, halarm]
  | listened event left quietAt listening leaves =>
    have hwaiting : watch.waiting = none := by rw [h.waiting, listening]; rfl
    rw [Watch.see_event fun _ _ => hwaiting]
    let seen : Watch := { watch with deserted := watch.deserted || !event.keepsClient }
    have hleaves : Leaves (!seen.deserted) left := by simpa [seen, h.deserted] using leaves
    obtain ⟨hfollows, hsame, hnone⟩ :=
      hleaves.follows hwaiting (h.missed_of_open (by simp [listening]))
    exact ⟨hfollows, by rw [hsame, hnone, Nat.add_zero]⟩
  | rested event next same connected unasked =>
    have hunasked : ∀ answer, event = .answered answer → watch.waiting = none :=
      fun answer hanswered => h.waiting.trans (unasked answer hanswered)
    rw [Watch.see_event hunasked]
    refine ⟨⟨?_, ?_, ?_⟩, rfl⟩
    · show watch.waiting = _
      rw [h.waiting, same]
    · simp [h.deserted, connected]
    · rw [same]
      exact h.missed

/-- an alarm that the client is there for is passed on right behind its reply -/
theorem Stepped.prompt (h : Stepped session event left) (hfollows : watch.Follows session)
    {answer : Answer} (hevent : event = .answered answer) (halarm : watch.alarmed answer = true)
    (hthere : watch.deserted = false) :
    ∃ text rest, left.2 = .write text :: .requestShutdown :: rest := by
  have hasked : watch.waiting ≠ none := by
    intro hnone
    simp [Watch.alarmed, hnone] at halarm
  rw [hfollows.waiting] at hasked
  cases h with
  | replied command answer' left asking there leaves =>
    cases hevent
    have hwaiting : watch.waiting = some command.request := by rw [hfollows.waiting, asking]; rfl
    have hflag : isAlarm command.request answer = true := by
      simpa [Watch.alarmed, hwaiting] using halarm
    exact ⟨(command.reply answer).text, left.2, by rw [if_pos hflag]; rfl⟩
  | failed command answer' asking gone =>
    rw [hfollows.deserted, gone] at hthere
    cases hthere
  | listened event left quietAt listening leaves => exact (hasked (by rw [listening]; rfl)).elim
  | rested event next same connected unasked => exact (hasked (unasked answer hevent)).elim

end

/-- The alarms of a history that the client was there for are passed on, each right behind its reply,
and nothing else makes the session ask for a shutdown. -/
structure Heeds (history : History) : Prop where
  promptly : ∀ before now answer after,
    history = before ++ (now, .event (.answered answer)) :: after →
    (History.watch before).alarmed answer = true → (History.watch before).deserted = false →
    ∃ text rest, after = (now, .action (.write text)) :: (now, .action .requestShutdown) :: rest
  exactly : history.shutdowns = history.watch.heard

theorem Heeds.moment {history : History} {session : Session} {event : Event}
    {left : Session × List Action} (h : Heeds history) (hfollows : history.watch.Follows session)
    (hstep : Stepped session event left) (now : Time) :
    Heeds (history ++ History.at now (.event event :: left.2.map .action)) ∧
      (History.watch (history ++ History.at now (.event event :: left.2.map .action))).Follows
        left.1 := by
  obtain ⟨hnext, hheard⟩ := hfollows.stepped hstep
  refine ⟨⟨fun before time answer after hcut halarm hthere => ?_, ?_⟩, ?_⟩
  · rcases event_cases hcut with ⟨rfl, hevent, rfl, rfl⟩ | ⟨between, rfl, rfl⟩
    · obtain ⟨text, rest, hactions⟩ := hstep.prompt hfollows hevent.symm halarm hthere
      rw [hactions]
      exact ⟨text, _, rfl⟩
    · obtain ⟨text, rest, rfl⟩ := h.promptly _ _ _ _ rfl halarm hthere
      exact ⟨text, _, rfl⟩
  · rw [History.shutdowns_at, shutdowns_moment, History.watch_at, h.exactly]
    exact hheard.symm
  · rw [History.watch_at]
    exact hnext

theorem Heeds.record {history : History} {session : Session} (h : Heeds history)
    (hfollows : history.watch.Follows session) (events : List (Time × Event)) :
    Heeds (history ++ (session.record events).1) ∧
      (History.watch (history ++ (session.record events).1)).Follows (session.record events).2 := by
  induction events generalizing history session with
  | nil =>
    rw [show (session.record []).1 = [] from rfl, List.append_nil]
    exact ⟨h, hfollows⟩
  | cons moment rest ih =>
    obtain ⟨hheeds, hfollows'⟩ :=
      h.moment hfollows (step_stepped moment.1 session moment.2) moment.1
    have hrest := ih hheeds hfollows'
    rw [List.append_assoc] at hrest
    exact hrest

/-- **Which alarms are passed on.**  Whatever happens to a session, in whatever order and at whatever
instants, whether or not it is stopped or its client goes away: an alarm that comes while the client
is there makes the session ask for a shutdown, once and right behind the reply, and nothing else makes
it ask.  An alarm that comes when the client is gone is lost; there is at most one, for the session
ends with the reply that does not reach the client. -/
theorem heeds_delivered_alarms (interval opened : Time) (events : List (Time × Event)) :
    let (history, session) := (Session.start interval opened).record events
    Heeds history ∧
      (history.watch.missed = 0 ∨
        history.watch.missed = 1 ∧ session.outcome? = some (.error (.io .brokenPipe))) := by
  have hstart : Heeds [] := ⟨by simp, rfl⟩
  have hwatch : (History.watch []).Follows (Session.start interval opened) :=
    ⟨rfl, rfl, Or.inl rfl⟩
  obtain ⟨hheeds, hfollows⟩ := hstart.record hwatch events
  refine ⟨hheeds, hfollows.missed.imp id fun ⟨hone, hclosed⟩ => ⟨hone, ?_⟩⟩
  rw [outcome?, hclosed]

/-- a battery reading with the flag -/
def alarm : Answer :=
  let payload := [80, 98, 32, 208, 255, 56, 3, 232, 31, 64, 46, 224, 254, 12, 1, 94, 71, 128]
  .ok ⟨Command.getDataExt, payload, Frame.checksum Command.getDataExt payload⟩

/-- an alarm that is asked for is passed on -/
example : ((Session.start 60000 0).record
    [(0, .input "GET_BATTERY_DATA\n".toUTF8.toList), (0, .answered alarm)]).1.shutdowns = 1 := by
  decide +kernel

/-- a client asks for a battery reading and goes away before it comes, and the reading is an alarm -/
def deserting : List (Time × Event) :=
  [(0, .input "GET_BATTERY_DATA\n".toUTF8.toList), (0, .vanished), (0, .answered alarm)]

/-- An alarm is lost when its reply does not reach the client. -/
theorem alarm_lost_with_client :
    ¬ ∀ (interval opened : Time) (events : List (Time × Event)),
      let (history, _) := (Session.start interval opened).record events
      history.shutdowns = history.watch.heard + history.watch.missed := by
  intro h
  have hlost := h 60000 0 deserting
  have hshutdowns : ((Session.start 60000 0).record deserting).1.shutdowns = 0 := by decide +kernel
  have hmissed : ((Session.start 60000 0).record deserting).1.watch.missed = 1 := by decide +kernel
  simp only [hshutdowns, hmissed] at hlost
  omega

end CameraPower.Session
