import CameraPower.Proofs.SessionLog

/-!
# The transcript of a session

Whatever bytes a client sends, in whatever pieces, and whatever the controller answers and when: what
a session does is told by a lawful log.

* `orderly`          events that keep to the rules of the outside;
* `Reading`          a session that has read the lines of its log;
* `Standing`         a session at the end of its log;
* `listen_spec`      reading lines;
* `Standing.step`    one event, `Standing.record` all events;
* `transcript`       what the log says.
-/

namespace CameraPower.Session

/-! ## the outside -/

def Phase.isAsking : Phase → Bool
  | .asking _ => true
  | _ => false

/-- What can happen to a session that nobody stops and whose client stays: input until it is over, the
answer to the request that is under way, the clock. -/
def expects (session : Session) : Event → Bool
  | .input _ | .inputEnded => !session.inputEnded
  | .answered _ => session.phase.isAsking
  | .clock => true
  | .vanished | .stop => false

/-- the events can happen when they do, and the session is woken in time -/
def orderly (session : Session) : List (Time × Event) → Bool
  | [] => true
  | (now, event) :: rest =>
    session.expects event && session.wakeAt?.all (now ≤ ·) &&
      (session.step now event).1.orderly rest

/-! ## reading -/

/-- The session has read the lines that its log says, and what it holds of the input and will get
makes up the others. -/
structure Reading (log : Log) (session : Session) : Prop where
  inputEnded : session.inputEnded = log.isOver
  rest : ∃ begun, session.reader.Holds begun ∧
    ∀ (more : List UInt8) (finished : Bool), (log.isOver = true → more = [] ∧ finished = true) →
      ClientLine.ofInput (log.input ++ more) finished =
        log.read ++ ClientLine.ofInput (begun ++ session.received ++ more) finished

section
variable {interval opened now : Time} {log : Log} {item : Item} {session : Session}

theorem reading_start (interval opened : Time) : Reading [] (Session.start interval opened) :=
  ⟨rfl, [], LineReader.holds_nil, fun _ _ _ => rfl⟩

theorem Reading.came (h : Reading log session) (hgoesOn : log.isOver = false) (now : Time)
    (bytes : List UInt8) : Reading (log ++ [(now, .came bytes)])
      { session with received := session.received ++ bytes } := by
  obtain ⟨begun, hholds, hrest⟩ := h.rest
  refine ⟨by simp [h.inputEnded], begun, hholds, fun more finished _ => ?_⟩
  have hmore := hrest (bytes ++ more) finished fun hover => by
    rw [hgoesOn] at hover
    cases hover
  simpa using hmore

theorem Reading.ends (h : Reading log session) (now : Time) :
    Reading (log ++ [(now, .inputEnded)]) { session with inputEnded := true } := by
  obtain ⟨begun, hholds, hrest⟩ := h.rest
  refine ⟨by simp, begun, hholds, fun more finished hlast => ?_⟩
  obtain ⟨rfl, rfl⟩ := hlast (by simp)
  simpa using hrest [] true fun _ => ⟨rfl, rfl⟩

theorem Reading.goesOn (h : Reading log session) (now : Time) (hbytes : item.bytes = [])
    (hover : item.endsInput = false) (hline : item.line? = none) :
    Reading (log ++ [(now, item)]) session := by
  obtain ⟨hinput, hover'⟩ := Log.same_input hbytes hover log now
  have hread : Log.read (log ++ [(now, item)]) = log.read := by
    rw [Log.read_concat, hline, Option.toList_none, List.append_nil]
  refine ⟨hover'.symm ▸ h.inputEnded, ?_⟩
  rw [hinput, hover', hread]
  exact h.rest

theorem Reading.line (h : Reading log session) {line : ClientLine} {rest : List UInt8}
    (hnext : session.reader.next session.received session.inputEnded = .line line rest) :
    log.read ++ [line] <+: log.lines ∧
      ∀ now item, item.bytes = [] → item.endsInput = false → item.line? = some line →
        Reading (log ++ [(now, item)]) { session with reader := {}, received := rest } := by
  obtain ⟨begun, hholds, hrest⟩ := h.rest
  have hnexts := hholds.next_cases session.received session.inputEnded
  rw [hnext] at hnexts
  cases hnexts with
  | line _ _ lines =>
    rw [h.inputEnded] at lines
    constructor
    · have hnow := hrest [] log.isOver fun hover => ⟨rfl, hover⟩
      rw [lines [] log.isOver fun hover => ⟨rfl, hover⟩, List.append_nil] at hnow
      refine ⟨ClientLine.ofInput (rest ++ []) log.isOver, ?_⟩
      rw [Log.lines, hnow, List.append_assoc]
      rfl
    · intro now item hbytes hover hline
      obtain ⟨hinput, hover'⟩ := Log.same_input hbytes hover log now
      have hread : Log.read (log ++ [(now, item)]) = log.read ++ [line] := by
        rw [Log.read_concat, hline, Option.toList_some]
      refine ⟨hover'.symm ▸ h.inputEnded, [], LineReader.holds_nil, ?_⟩
      rw [hinput, hover', hread]
      intro more finished hlast
      rw [hrest more finished hlast, lines more finished hlast, List.append_assoc]
      rfl

theorem Reading.more (h : Reading log session) {reader : LineReader}
    (hnext : session.reader.next session.received session.inputEnded = .more reader) :
    log.isOver = false ∧ log.read = log.lines ∧
      Reading log { session with reader, received := [] } := by
  obtain ⟨begun, hholds, hrest⟩ := h.rest
  have hnexts := hholds.next_cases session.received session.inputEnded
  rw [hnext] at hnexts
  cases hnexts with
  | more _ holds goesOn =>
    have hgoesOn : log.isOver = false := h.inputEnded ▸ goesOn
    have hnow := hrest [] false fun hover => by
      rw [hgoesOn] at hover
      cases hover
    rw [List.append_nil, List.append_nil, ClientLine.ofInput_unfinished holds.unfinished] at hnow
    refine ⟨hgoesOn, ?_, h.inputEnded, begun ++ session.received, holds, ?_⟩
    · rw [Log.lines, hgoesOn, hnow]
      simp
    · simpa using hrest

theorem Reading.ended (h : Reading log session)
    (hnext : session.reader.next session.received session.inputEnded = .ended) :
    log.isOver = true ∧ log.read = log.lines := by
  obtain ⟨begun, hholds, hrest⟩ := h.rest
  have hnexts := hholds.next_cases session.received session.inputEnded
  rw [hnext] at hnexts
  cases hnexts with
  | ended nothing atEnd =>
    have hover : log.isOver = true := h.inputEnded ▸ atEnd
    have hnow := hrest [] true fun _ => ⟨rfl, rfl⟩
    rw [nothing, List.append_nil] at hnow
    refine ⟨hover, ?_⟩
    rw [Log.lines, hover, hnow]
    exact (List.append_nil _).symm

/-! ## reading lines -/

theorem Reading.prefix_lines (h : Reading log session) : log.read <+: log.lines := by
  obtain ⟨begun, -, hrest⟩ := h.rest
  have hnow := hrest [] log.isOver fun hover => ⟨rfl, hover⟩
  rw [List.append_nil] at hnow
  exact ⟨_, hnow.symm⟩

/-- what stays as it is while nobody disturbs the session -/
def Steady (interval : Time) (session : Session) : Prop :=
  session.pushInterval = interval ∧ session.stopping = false ∧ session.connected = true

inductive Stands (interval opened : Time) (log : Log) : Phase → Prop
  | listening (free : log.waiting = none) (goesOn : log.isClosed = false) :
    Stands interval opened log (.listening (log.since opened + interval))
  | asking (command : ClientCommand) (asked : log.waiting = some command)
    (goesOn : log.isClosed = false) : Stands interval opened log (.asking command)
  | closed (free : log.waiting = none) (inputEnded : log.isOver = true) (all : log.read = log.lines)
    (ended : log.isClosed = true) : Stands interval opened log (.closed (.ok ()))

structure Standing (interval opened : Time) (log : Log) (session : Session) : Prop where
  lawful : Lawful interval opened log
  settled : Settled interval opened log
  reading : Reading log session
  steady : Steady interval session
  stands : Stands interval opened log session.phase

/-- a request is made, and what follows is up to the controller -/
theorem standing_ask (hlawful : Lawful interval opened (log ++ [(now, item)]))
    (hreading : Reading (log ++ [(now, item)]) session) (hsteady : Steady interval session)
    (hopen : log.isClosed = false) (hends : item.endsSession = false) {command : ClientCommand}
    (hcommand : ∀ before, item.waiting before = some command) :
    Standing interval opened (log ++ [(now, item)]) (session.ask command).1 where
  lawful := hlawful
  settled := by
    intro hfree
    rw [Log.waiting_concat, hcommand] at hfree
    cases hfree
  reading := ⟨hreading.inputEnded, hreading.rest⟩
  steady := hsteady
  stands := .asking command (by rw [Log.waiting_concat, hcommand])
    (by rw [Log.isClosed_concat, hopen, hends, Bool.or_false])

section
variable {quietAt : Time} (hgoesOn : session.stopping = false)
include hgoesOn

theorem listen_ended (hnext : session.reader.next session.received session.inputEnded = .ended) :
    session.listen now quietAt = ({ session with phase := .closed (.ok ()) }, []) := by
  rw [listen, if_neg (by simp [hgoesOn])]
  split <;> simp_all

theorem listen_more {reader : LineReader}
    (hnext : session.reader.next session.received session.inputEnded = .more reader) :
    session.listen now quietAt =
      if quietAt ≤ now then { session with reader, received := [] }.ask .getBatteryData
      else ({ session with reader, received := [], phase := .listening quietAt }, []) := by
  rw [listen, if_neg (by simp [hgoesOn])]
  split <;> simp_all

theorem listen_line {line : ClientLine} {rest : List UInt8}
    (hnext : session.reader.next session.received session.inputEnded = .line line rest) :
    session.listen now quietAt =
      match command? line with
      | some command => { session with reader := {}, received := rest }.ask command
      | none => { session with reader := {}, received := rest }.listen now
          (now + session.pushInterval) := by
  rw [listen, if_neg (by simp [hgoesOn])]
  split
  · rename_i hended
    rw [hnext] at hended
    cases hended
  · rename_i reader hmore
    rw [hnext] at hmore
    cases hmore
  · rename_i line' rest' hline
    rw [hnext] at hline
    cases hline
    cases command? line <;> rfl

end

/-- **Reading lines**: those that are no commands are passed over; then there is a request, the
session waits for more, or it is closed. -/
theorem listen_spec {quietAt : Time} (hlawful : Lawful interval opened log)
    (hreading : Reading log session) (hsteady : Steady interval session)
    (hfree : log.waiting = none) (hopen : log.isClosed = false)
    (hquiet : quietAt = log.since opened + interval) (hintime : now ≤ quietAt)
    (hlast : ∀ last ∈ log.getLast?, last.1 = now) :
    ∃ log', Standing interval opened log' (session.listen now quietAt).1 ∧
      Log.history log' =
        log.history ++ History.at now ((session.listen now quietAt).2.map .action) := by
  -- on the loop: a line that is passed over leaves a shorter input and a longer log
  induction session, quietAt using Session.listen.induct now generalizing log with
  | case1 session quietAt hstopping =>
    rw [hsteady.2.1] at hstopping
    cases hstopping
  | case2 session quietAt _ hnext =>
    rw [listen_ended hsteady.2.1 hnext]
    obtain ⟨hover, hall⟩ := hreading.ended hnext
    have hreading' : Reading (log ++ [(now, .closed)]) session := hreading.goesOn now rfl rfl rfl
    refine ⟨log ++ [(now, .closed)], ⟨?_, ?_, ⟨hreading'.inputEnded, hreading'.rest⟩,
      hsteady, ?_⟩, by simp [Item.entries, History.at]⟩
    · exact hlawful.concat_own (.closed hfree hover hall) rfl
    · intro _ hopen
      simp at hopen
    · exact .closed (by simp [hfree]) (by simp [hover]) (by simpa [Log.lines] using hall) (by simp)
  | case3 session quietAt _ reader hnext hdue =>
    rw [listen_more hsteady.2.1 hnext, if_pos hdue]
    obtain ⟨hgoesOn, hall, hreading'⟩ := hreading.more hnext
    have helapsed : now = log.since opened + interval := (Nat.le_antisymm hintime hdue).trans hquiet
    refine ⟨log ++ [(now, .pushed)], standing_ask ?_ ?_ ?_ hopen rfl fun _ => rfl, ?_⟩
    · exact hlawful.concat_own (.pushed hfree hgoesOn hall helapsed) rfl
    · exact hreading'.goesOn now rfl rfl rfl
    · exact hsteady
    · simp [Item.entries, History.at, ask]
  | case4 session quietAt _ reader hnext hdue =>
    rw [listen_more hsteady.2.1 hnext, if_neg hdue]
    obtain ⟨hgoesOn, hall, hreading'⟩ := hreading.more hnext
    refine ⟨log, ⟨hlawful, ?_, ⟨hreading'.inputEnded, hreading'.rest⟩,
      hsteady, ?_⟩, by simp [History.at]⟩
    · intro _ _
      refine ⟨hgoesOn, hall, fun last hmem => ?_⟩
      rw [hlast last hmem, ← hquiet]
      exact Nat.lt_of_not_le hdue
    · rw [hquiet]
      exact .listening hfree hopen
  | case5 session quietAt _ line rest hnext command hknown =>
    rw [listen_line hsteady.2.1 hnext, hknown]
    obtain ⟨hline, hreading'⟩ := hreading.line hnext
    refine ⟨log ++ [(now, .asked line command)], standing_ask ?_ ?_ ?_ hopen rfl fun _ => rfl, ?_⟩
    · exact hlawful.concat_own (.asked line command hfree hline hknown) rfl
    · exact hreading' now _ rfl rfl rfl
    · exact hsteady
    · simp [Item.entries, History.at, ask]
  | case6 session quietAt _ line rest hnext left hunknown =>
    rename_i ih
    rw [listen_line hsteady.2.1 hnext, hunknown]
    obtain ⟨hline, hreading'⟩ := hreading.line hnext
    have hquiet' : now + left.pushInterval =
        Log.since opened (log ++ [(now, .passed line)]) + interval := by
      rw [Log.since_concat]
      exact congrArg (now + ·) hsteady.1
    have hlawful' : Lawful interval opened (log ++ [(now, .passed line)]) :=
      hlawful.concat_own (.passed line hfree hline hunknown) rfl
    have hlonger := ih hlawful' (hreading' now _ rfl rfl rfl) hsteady (by simp [hfree])
      (by simp [hopen]) hquiet' (Nat.le_add_right now _) (by simp)
    simpa [Item.entries, History.at] using hlonger

/-! ## events -/

/-- what comes from outside leaves the phase as it is, until it is looked after -/
theorem Stands.outside {phase : Phase} (h : Stands interval opened log phase) (now : Time)
    (hwaiting : ∀ before, item.waiting before = before)
    (hsince : ∀ before, item.since before now = before) (hopen : item.endsSession = false)
    (hover : log.isOver = true → item = .ticked) :
    Stands interval opened (log ++ [(now, item)]) phase := by
  cases h with
  | listening free goesOn =>
    have hlistening : Stands interval opened (log ++ [(now, item)]) _ :=
      .listening (by rw [Log.waiting_concat, hwaiting, free])
        (by rw [Log.isClosed_concat, goesOn, hopen]; rfl)
    rw [Log.since_concat, hsince] at hlistening
    exact hlistening
  | asking command asked goesOn =>
    exact .asking command (by rw [Log.waiting_concat, hwaiting, asked])
      (by rw [Log.isClosed_concat, goesOn, hopen]; rfl)
  | closed free inputEnded all closed =>
    have hitem := hover inputEnded
    subst hitem
    exact .closed (by simp [free]) (by simp [inputEnded]) (by simpa [Log.lines] using all)
      (by simp [closed])

theorem resume_spec (hlawful : Lawful interval opened log) (hreading : Reading log session)
    (hsteady : Steady interval session) (hstands : Stands interval opened log session.phase)
    (hintime : ∀ wake ∈ session.wakeAt?, now ≤ wake) (hlast : ∀ last ∈ log.getLast?, last.1 = now) :
    ∃ log', Standing interval opened log' (session.resume now).1 ∧
      Log.history log' =
        log.history ++ History.at now ((session.resume now).2.map .action) := by
  have hstays : (log.waiting = none → log.isClosed = false → False) →
      Standing interval opened log session := fun hbusy =>
    ⟨hlawful, fun hfree hopen => (hbusy hfree hopen).elim, hreading, hsteady, hstands⟩
  unfold resume
  unfold wakeAt? at hintime
  generalize hphase : session.phase = phase at hstands hintime ⊢
  cases hstands with
  | listening free goesOn =>
    exact listen_spec hlawful hreading hsteady free goesOn rfl (hintime _ rfl) hlast
  | asking command asked goesOn =>
    refine ⟨log, hstays fun hfree _ => ?_, by simp [History.at]⟩
    rw [asked] at hfree
    cases hfree
  | closed free inputEnded all closed =>
    refine ⟨log, hstays fun _ hopen => ?_, by simp [History.at]⟩
    rw [closed] at hopen
    cases hopen

theorem Standing.step (h : Standing interval opened log session) {event : Event}
    (hexpects : session.expects event = true) (hintime : ∀ wake ∈ session.wakeAt?, now ≤ wake) :
    ∃ log', Standing interval opened log' (session.step now event).1 ∧
      Log.history log' = log.history ++
        History.at now (.event event :: (session.step now event).2.map .action) := by
  cases event with
  | input bytes =>
    have hinput : session.inputEnded = false := by simpa [expects] using hexpects
    have hgoesOn : log.isOver = false := h.reading.inputEnded ▸ hinput
    have hlawful : Lawful interval opened (log ++ [(now, .came bytes)]) :=
      h.lawful.concat (.came bytes hgoesOn) fun _ => h.settled
    have hstands : Stands interval opened (log ++ [(now, .came bytes)]) session.phase :=
      h.stands.outside now (fun _ => rfl) (fun _ => rfl) rfl (by simp [hgoesOn])
    have hresumed := resume_spec hlawful (h.reading.came hgoesOn now bytes) h.steady hstands
      hintime (by simp)
    have hstep : session.step now (.input bytes) =
        ({ session with received := session.received ++ bytes } : Session).resume now := by
      rw [Session.step, if_neg (by simp [hinput])]
    rw [hstep]
    simpa [Item.entries, History.at] using hresumed
  | inputEnded =>
    have hinput : session.inputEnded = false := by simpa [expects] using hexpects
    have hgoesOn : log.isOver = false := h.reading.inputEnded ▸ hinput
    have hlawful : Lawful interval opened (log ++ [(now, .inputEnded)]) :=
      h.lawful.concat (.inputEnded hgoesOn) fun _ => h.settled
    have hstands : Stands interval opened (log ++ [(now, .inputEnded)]) session.phase :=
      h.stands.outside now (fun _ => rfl) (fun _ => rfl) rfl (by simp [hgoesOn])
    have hresumed := resume_spec hlawful (h.reading.ends now) h.steady hstands hintime (by simp)
    simpa [Item.entries, History.at, Session.step] using hresumed
  | vanished => cases hexpects
  | stop => cases hexpects
  | answered answer =>
    have hasking : session.phase.isAsking = true := hexpects
    have hstands := h.stands
    generalize hphase : session.phase = phase at hstands hasking
    cases hstands with
    | listening | closed => cases hasking
    | asking command asked goesOn =>
      have hlawful : Lawful interval opened (log ++ [(now, .answered command answer)]) :=
        h.lawful.concat (.answered command answer asked) fun _ => h.settled
      have hquiet : now + session.pushInterval =
          Log.since opened (log ++ [(now, .answered command answer)]) + interval := by
        simp [h.steady.1]
      obtain ⟨log', hstanding, hhistory⟩ := listen_spec hlawful (h.reading.goesOn now rfl rfl rfl)
        h.steady (by simp) (by simp [goesOn]) hquiet (Nat.le_add_right now _) (by simp)
      have hstep : session.step now (.answered answer) =
          ((session.listen now (now + session.pushInterval)).1,
            .write (command.reply answer).text ::
              ((if (command.reply answer).shutdownRequested then [.requestShutdown] else []) ++
                (session.listen now (now + session.pushInterval)).2)) := by
        simp only [Session.step, hphase, deliver, h.steady.2.2, if_true]
      rw [hstep]
      refine ⟨log', hstanding, hhistory.trans ?_⟩
      cases hshutdown : (command.reply answer).shutdownRequested <;>
        simp [Item.entries, History.at, hshutdown]
  | clock =>
    have hlawful : Lawful interval opened (log ++ [(now, .ticked)]) :=
      h.lawful.concat .ticked fun _ => h.settled
    have hstands : Stands interval opened (log ++ [(now, .ticked)]) session.phase :=
      h.stands.outside now (fun _ => rfl) (fun _ => rfl) rfl fun _ => rfl
    have hresumed := resume_spec hlawful (h.reading.goesOn now rfl rfl rfl) h.steady hstands
      hintime (by simp)
    simpa [Item.entries, History.at, Session.step] using hresumed

theorem Standing.record (h : Standing interval opened log session) (events : List (Time × Event))
    (horderly : session.orderly events = true) :
    ∃ log', Standing interval opened log' (session.record events).2 ∧
      Log.history log' = log.history ++ (session.record events).1 := by
  induction events generalizing log session with
  | nil => exact ⟨log, h, (List.append_nil _).symm⟩
  | cons moment rest ih =>
    simp only [orderly, Bool.and_eq_true] at horderly
    obtain ⟨⟨hexpects, hintime⟩, hrest⟩ := horderly
    have hwoken : ∀ wake ∈ session.wakeAt?, moment.1 ≤ wake := by
      intro wake hwake
      have hwake : session.wakeAt? = some wake := hwake
      simpa [hwake] using hintime
    obtain ⟨log', hstanding, hhistory⟩ := h.step hexpects hwoken
    obtain ⟨log'', hstanding', hhistory'⟩ := ih hstanding hrest
    refine ⟨log'', hstanding', ?_⟩
    rw [hhistory', hhistory, List.append_assoc]
    rfl

theorem Standing.outcome (h : Standing interval opened log session) :
    ∀ outcome ∈ session.outcome?, outcome = .ok () := by
  have hstands := h.stands
  unfold outcome?
  generalize session.phase = phase at hstands
  cases hstands with
  | listening | asking => exact nofun
  | closed => exact fun outcome houtcome => (Option.some.inj houtcome).symm

theorem Standing.ended (h : Standing interval opened log session) (hover : log.isOver = true)
    (hidle : session.phase.isAsking = false) :
    log.read = log.lines ∧ log.commands = log.replies.map Prod.fst ∧
      session.outcome? = some (.ok ()) := by
  have hstands := h.stands
  unfold outcome?
  generalize session.phase = phase at hstands hidle
  cases hstands with
  | listening free goesOn =>
    obtain ⟨hgoesOn, -⟩ := h.settled free goesOn
    rw [hover] at hgoesOn
    cases hgoesOn
  | asking => cases hidle
  | closed free inputEnded all ended =>
    have hanswered := h.lawful.answered
    rw [free, Option.toList_none, List.append_nil] at hanswered
    exact ⟨all, hanswered, rfl⟩

end

theorem standing_start (interval opened : Time) :
    Standing interval opened [] (Session.start interval opened) where
  lawful := lawful_nil
  settled _ _ := ⟨rfl, rfl, nofun⟩
  reading := reading_start interval opened
  steady := ⟨rfl, rfl, rfl⟩
  stands := .listening rfl rfl

/-! ## the transcript -/

/-- What a log says about the session whose history it tells. -/
structure Transcript (interval opened : Time) (events : List (Time × Event)) (session : Session)
    (history : History) (log : Log) : Prop where
  visible : log.history = history
  /-- the lines of the log are the lines that the client sends -/
  lines : log.lines =
    ClientLine.ofInput (events.flatMap (·.2.bytes)) (events.any (·.2.endsInput))
  /-- they are read in their order, and none is left out -/
  read : log.read <+: log.lines
  /-- a request is made for each that is a command, and for no other -/
  asked : log.lineCommands = log.read.filterMap command?
  /-- pushes are made when the interval is over, neither before nor after -/
  lawful : Lawful interval opened log
  settled : Settled interval opened log
  /-- each command makes its one request -/
  requests : history.requests = log.commands.map ClientCommand.request
  /-- and has its one reply, but for the last one if it waits for its answer -/
  answered : log.commands = log.replies.map Prod.fst ++ log.waiting.toList
  /-- nothing else is sent -/
  texts : history.texts = log.replies.map fun reply => (reply.1.reply reply.2).text
  /-- when the input is over all is answered, unless an answer is still to come -/
  ended : events.any (·.2.endsInput) = true → session.phase.isAsking = false →
    log.read = log.lines ∧ log.commands = log.replies.map Prod.fst ∧
      session.outcome? = some (.ok ())
  outcome : ∀ outcome ∈ session.outcome?, outcome = .ok ()

/-- **The transcript of a session.**  Bytes come in cut in any way and at any instants, the controller
answers anything at any instant, and the session is woken when it asks for it; nobody stops it, and
its client stays.  Then what it does is told by a log: it reads the client's lines in their order,
wherever they were cut and whatever else happened in between; it makes one request for each command,
and one for a battery reading exactly when the interval is over since it was opened or has finished
with a line or a reply and no line is complete; it sends the replies to these and nothing else; and
when the input is over it answers what is left and ends well. -/
theorem transcript (interval opened : Time) (events : List (Time × Event))
    (horderly : (Session.start interval opened).orderly events = true) :
    let (history, session) := (Session.start interval opened).record events
    ∃ log, Transcript interval opened events session history log := by
  obtain ⟨log, hstanding, hhistory⟩ :=
    (standing_start interval opened).record events horderly
  have hvisible : log.history = ((Session.start interval opened).record events).1 := hhistory
  have hinput := input_history log
  rw [hvisible, events_record] at hinput
  refine ⟨log, {
    visible := hvisible
    lines := by rw [Log.lines, hinput.1, hinput.2]
    read := hstanding.reading.prefix_lines
    asked := hstanding.lawful.asked
    lawful := hstanding.lawful
    settled := hstanding.settled
    requests := by rw [← hvisible, requests_history]
    answered := hstanding.lawful.answered
    texts := by rw [← hvisible, texts_history]
    ended := fun hover => hstanding.ended (hinput.2.trans hover)
    outcome := hstanding.outcome }⟩

/-- a line comes in two pieces with a push in between, two more lines come while it is answered, and
the last one is not terminated -/
def hesitating : List (Time × Event) :=
  [(10, .input [71, 69, 84, 95, 70, 65]), (100, .clock), (130, .answered (.error .linkClosed)),
    (140, .input [78, 95, 77, 79, 68, 69, 10, 72, 69, 76, 76, 79, 10]),
    (145, .input [71, 69, 84, 95, 83, 72, 85, 84, 68, 79, 87, 78]),
    (150, .answered (.error .linkClosed)), (160, .input [95, 82, 69, 65, 83, 79, 78]),
    (170, .inputEnded), (180, .answered (.error .linkClosed))]

theorem transcript_hesitating :
    (Session.start 100 0).orderly hesitating = true ∧
      ((Session.start 100 0).record hesitating).1.requests =
        [ClientCommand.getBatteryData, .getFanMode, .getShutdownReason].map ClientCommand.request ∧
      ∃ log, Transcript 100 0 hesitating ((Session.start 100 0).record hesitating).2
        ((Session.start 100 0).record hesitating).1 log := by
  have horderly : (Session.start 100 0).orderly hesitating = true := by decide +kernel
  exact ⟨horderly, by decide +kernel, transcript 100 0 hesitating horderly⟩

end CameraPower.Session
