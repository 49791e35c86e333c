import CameraPower.Proofs.EngineStep

/-!
# What has happened to an engine

A history holds what has happened to an engine and what it has done, in order, each with its
instant.

* `Cause`, `Entry`, `History`  the events, each reply with the request it answers; the actions;
* `Stage`, `Line`              how far the call has come that has the line;
* `Move`                       one move: the callers, the line, the clock, or a call in its turn;
* `Runs`                       a history that moves make, and the line it leads to;
* `record`                     the history that the machine `step` makes of some events;
* `runs_record`                the machine makes only such moves.

The machine does at one instant all that can be done then, and its port takes a request at once.
Moves come one by one and may be late: a call may be woken long after its reply or its deadline, the
line may stay free while calls wait, a port may take its time over a request.  Frames may come in at
any point between, also when a call has drained the inbox and has not written yet.
-/

namespace CameraPower.Engine

variable {ι π : Type}

/-! ## histories -/

/-- a frame that came from the line, and the request it answers if it answers one -/
structure Reply (ι : Type) where
  request : Option ι
  frame : Frame
  deriving DecidableEq, Repr

/-- what happens to an engine: its events, with the replies in place of their frames -/
inductive Cause (ι : Type) where
  | calls (call : Call ι)
  | hears (replies : List (Reply ι)) (ended : Bool)
  | ticks
  | givesUp (ticket : ι)

def Cause.event : Cause ι → Event ι
  | .calls call => .call call
  | .hears replies ended => .received (replies.map Reply.frame) ended
  | .ticks => .clock
  | .givesUp ticket => .abandon ticket

inductive Entry (ι : Type) where
  | cause (cause : Cause ι)
  /-- a call throws away what the inbox holds, before it writes -/
  | drains (ticket : ι)
  | action (action : Action ι)

abbrev History (ι : Type) := List (Time × Entry ι)

def History.at (now : Time) (entries : List (Entry ι)) : History ι :=
  entries.map (now, ·)

@[simp] theorem History.at_nil (now : Time) : History.at now ([] : List (Entry ι)) = [] := rfl

@[simp] theorem History.at_cons (now : Time) (entry : Entry ι) (entries : List (Entry ι)) :
    History.at now (entry :: entries) = (now, entry) :: History.at now entries := rfl

@[simp] theorem History.at_append (now : Time) (entries more : List (Entry ι)) :
    History.at now (entries ++ more) = History.at now entries ++ History.at now more :=
  List.map_append

/-! ## the line -/

/-- how far the call has come that has the line -/
inductive Stage (ι : Type) where
  /-- no call has the line -/
  | free
  /-- the call has thrown away what the inbox held -/
  | drained (call : Call ι)
  /-- the call has handed its frame to the port, which is not done with it -/
  | writing (call : Call ι) (start : Time)
  /-- the request is written, the reply is awaited -/
  | waiting (exchange : Exchange ι)

def Stage.ticket? : Stage ι → Option ι
  | .free => none
  | .drained call => some call.ticket
  | .writing call _ => some call.ticket
  | .waiting exchange => some exchange.ticket

/-- an engine in the midst of its work -/
structure Line (ι π : Type) where
  inbox : Inbox
  port : π
  stage : Stage ι := .free
  queue : List (Call ι) := []

/-- a caller that gives up leaves the line or the queue -/
def Line.forget [DecidableEq ι] (line : Line ι π) (ticket : ι) : Line ι π :=
  { line with
    stage := if line.stage.ticket? = some ticket then .free else line.stage
    queue := line.queue.filter (·.ticket ≠ ticket) }

/-- the machine between two events: a call that has the line awaits its reply -/
def line (engine : Engine ι π) : Line ι π where
  inbox := engine.inbox
  port := engine.port
  stage := engine.current.elim .free .waiting
  queue := engine.queue

/-! ## moves -/

/-- One move at an instant, what it adds to the history, and the line after it.  A request counts as
written when its frame is handed to the port: a caller dropped while the port is at work is `writes`
and then `givesUp`, whatever part of the frame has gone out. -/
inductive Move [DecidableEq ι] (send : Send π) (now : Time) (line : Line ι π) :
    List (Entry ι) → Line ι π → Prop
  /-- a caller asks for an exchange and stands in line -/
  | calls (call : Call ι)
    (fits : Frame.encode? call.request.command call.request.payload = .ok call.request.bytes) :
    Move send now line [.cause (.calls call)] { line with queue := line.queue ++ [call] }
  /-- a caller asks for an exchange that does not fit a frame -/
  | refuses (call : Call ι) (error : Error)
    (large : Frame.encode? call.request.command call.request.payload = .error error) :
    Move send now line [.cause (.calls call), .action (.finish call.ticket (.error error))] line
  /-- frames come in, and then perhaps the line ends -/
  | hears (replies : List (Reply ι)) (ended : Bool) :
    Move send now line [.cause (.hears replies ended)]
      { line with inbox := received line.inbox (replies.map Reply.frame) ended }
  | ticks : Move send now line [.cause .ticks] line
  /-- a caller drops its call, however far that has come -/
  | givesUp (ticket : ι) : Move send now line [.cause (.givesUp ticket)] (line.forget ticket)
  /-- something becomes of the port, and no call has a part in it -/
  | drifts (port : π) : Move send now line [] { line with port }
  /-- the call whose turn it is finds that no reply can come -/
  | skips (call : Call ι) (rest : List (Call ι)) (stage : line.stage = .free)
    (queue : line.queue = call :: rest) (closed : line.inbox.closed && line.inbox.frames.isEmpty) :
    Move send now line [.action (.finish call.ticket (.error .linkClosed))]
      { line with queue := rest }
  /-- the call whose turn it is throws away what the inbox holds -/
  | drains (call : Call ι) (rest : List (Call ι)) (stage : line.stage = .free)
    (queue : line.queue = call :: rest) :
    Move send now line [.drains call.ticket]
      { line with inbox := line.inbox.drain.1, stage := .drained call, queue := rest }
  /-- the call hands its frame to the port -/
  | writes (call : Call ι) (stage : line.stage = .drained call) :
    Move send now line [.action (.write call.ticket call.request.bytes)]
      { line with stage := .writing call now }
  /-- the port has taken the frame, and the time of the call begins -/
  | sent (call : Call ι) (start : Time) (port : π) (stage : line.stage = .writing call start)
    (started : start ≤ now) (sent : send line.port now call.request.bytes = (port, .ok ())) :
    Move send now line [] { line with port, stage := .waiting (call.exchange now) }
  /-- the port fails over the frame -/
  | fails (call : Call ι) (start : Time) (port : π) (fault : PortFault)
    (stage : line.stage = .writing call start)
    (sent : send line.port now call.request.bytes = (port, .error fault)) :
    Move send now line [.action (.finish call.ticket (.error (.serial fault)))]
      { line with port, stage := .free }
  /-- the call looks into the inbox for its reply, and goes on waiting -/
  | waits (exchange : Exchange ι) (inbox : Inbox) (stage : line.stage = .waiting exchange)
    (outcome : outcome? now exchange line.inbox = (inbox, none)) :
    Move send now line [] { line with inbox }
  /-- the call that waits comes to its end -/
  | ends (exchange : Exchange ι) (inbox : Inbox) (answer : Answer)
    (stage : line.stage = .waiting exchange)
    (outcome : outcome? now exchange line.inbox = (inbox, some answer)) :
    Move send now line [.action (.finish exchange.ticket answer)]
      { line with inbox, stage := .free }

/-- the histories of a line that was `first`, each with the line it leads to -/
inductive Runs [DecidableEq ι] (send : Send π) (first : Line ι π) :
    History ι → Line ι π → Prop
  | start : Runs send first [] first
  | move {history : History ι} {line next : Line ι π} {now : Time} {entries : List (Entry ι)}
    (run : Runs send first history line) (move : Move send now line entries next) :
    Runs send first (history ++ History.at now entries) next

section
variable [DecidableEq ι] {send : Send π} {now : Time} {first line next last : Line ι π}
  {entries : List (Entry ι)} {history more : History ι}

theorem Runs.trans (run : Runs send first history line) (goOn : Runs send line more last) :
    Runs send first (history ++ more) last := by
  induction goOn with
  | start =>
    rw [List.append_nil]
    exact run
  | move _ move ih =>
    rw [← List.append_assoc]
    exact .move ih move

theorem Move.runs (move : Move send now line entries next) :
    Runs send line (History.at now entries) next :=
  Runs.move .start move

theorem Move.trans (move : Move send now line entries next) (goOn : Runs send next more last) :
    Runs send line (History.at now entries ++ more) last :=
  move.runs.trans goOn

end

/-! ## the machine -/

/-- a request is written behind draining the inbox -/
def Action.entries : Action ι → List (Entry ι)
  | .write ticket bytes => [.drains ticket, .action (.write ticket bytes)]
  | .finish ticket answer => [.action (.finish ticket answer)]

theorem finish_mem_entries {ticket : ι} {answer : Answer} {actions : List (Action ι)} :
    .action (.finish ticket answer) ∈ actions.flatMap Action.entries ↔
      .finish ticket answer ∈ actions := by
  rw [List.mem_flatMap]
  constructor
  · rintro ⟨action, hmem, hentry⟩
    cases action with
    | write => simp [Action.entries] at hentry
    | finish =>
      rw [Action.entries, List.mem_singleton] at hentry
      cases hentry
      exact hmem
  · exact fun hmem => ⟨_, hmem, List.mem_singleton_self _⟩

section
variable [DecidableEq ι]

/-- the history that the machine makes of events at their instants, and the engine it leads to -/
def record (send : Send π) (engine : Engine ι π) :
    List (Time × Cause ι) → History ι × Engine ι π
  | [] => ([], engine)
  | (now, cause) :: rest =>
    let (next, actions) := engine.step send now cause.event
    let (history, last) := record send next rest
    (History.at now (.cause cause :: actions.flatMap Action.entries) ++ history, last)

variable (send : Send π) (now : Time)

/-- the first of the queue gets the free line, and hands its frame to the port at once -/
theorem runs_writing (inbox : Inbox) (port : π) (call : Call ι) (rest : List (Call ι)) :
    Runs send { inbox, port, queue := call :: rest }
      (History.at now [.drains call.ticket, .action (.write call.ticket call.request.bytes)])
      { inbox := inbox.drain.1, port, stage := .writing call now, queue := rest } := by
  let waiting : Line ι π := { inbox, port, queue := call :: rest }
  have hdrains : Move send now waiting [.drains call.ticket]
      { inbox := inbox.drain.1, port, stage := .drained call, queue := rest } :=
    .drains call rest rfl rfl
  exact hdrains.trans (Move.writes call rfl).runs

theorem runs_grant (inbox : Inbox) (port : π) (queue : List (Call ι)) :
    Runs send { inbox, port, queue }
      (History.at now ((grant send now inbox port queue).2.flatMap Action.entries))
      (grant send now inbox port queue).1.line := by
  -- on the queue: whatever the first call comes to, the rest starts from the line it leaves
  induction queue generalizing inbox port with
  | nil => exact .start
  | cons call rest ih =>
    let waiting : Line ι π := { inbox, port, queue := call :: rest }
    let writing : Line ι π :=
      { inbox := inbox.drain.1, port, stage := .writing call now, queue := rest }
    let holding : π → Line ι π := fun port =>
      { inbox := inbox.drain.1, port, stage := .waiting (call.exchange now), queue := rest }
    have hwriting : Runs send waiting _ writing := runs_writing send now inbox port call rest
    have hsent : ∀ port', send port now call.request.bytes = (port', .ok ()) →
        Move send now writing [] (holding port') :=
      fun port' sent => .sent call now port' rfl (Nat.le_refl now) sent
    have hgranted := grant_cons send now inbox port call rest
    generalize grant send now inbox port (call :: rest) = granted at hgranted ⊢
    cases hgranted with
    | skips closed =>
      have hskips : Move send now waiting [.action (.finish call.ticket (.error .linkClosed))]
          { inbox, port, queue := rest } := .skips call rest rfl rfl closed
      exact hskips.trans (ih inbox port)
    | fails port' fault sent =>
      have hfails : Move send now writing
          [.action (.finish call.ticket (.error (.serial fault)))]
          { inbox := inbox.drain.1, port := port', queue := rest } :=
        .fails call now port' fault rfl sent
      exact hwriting.trans (hfails.trans (ih inbox.drain.1 port'))
    | ends port' inbox' answer sent outcome =>
      have hends : Move send now (holding port') [.action (.finish call.ticket answer)]
          { inbox := inbox', port := port', queue := rest } :=
        .ends (call.exchange now) inbox' answer rfl outcome
      exact hwriting.trans ((hsent port' sent).trans (hends.trans (ih inbox' port')))
    | waits port' inbox' sent outcome =>
      have hwaits : Move send now (holding port') [] { holding port' with inbox := inbox' } :=
        .waits (call.exchange now) inbox' rfl outcome
      exact hwriting.trans ((hsent port' sent).trans hwaits.runs)

theorem runs_look (engine : Engine ι π) :
    Runs send engine.line (History.at now ((engine.look send now).2.flatMap Action.entries))
      (engine.look send now).1.line := by
  cases hcurrent : engine.current with
  | none =>
    let waiting : Line ι π := { inbox := engine.inbox, port := engine.port, queue := engine.queue }
    have hfree : engine.line = waiting := by simp [line, waiting, hcurrent]
    rw [look_none send now engine hcurrent, hfree]
    exact runs_grant send now engine.inbox engine.port engine.queue
  | some exchange =>
    have hstage : engine.line.stage = .waiting exchange := by simp [line, hcurrent]
    cases houtcome : outcome? now exchange engine.inbox with
    | mk inbox answer? =>
      cases answer? with
      | none =>
        rw [look_waits hcurrent houtcome]
        exact (Move.waits exchange inbox hstage houtcome).runs
      | some answer =>
        rw [look_ends hcurrent houtcome]
        exact (Move.ends exchange inbox answer hstage houtcome).trans
          (runs_grant send now inbox engine.port engine.queue)

theorem forget_line (engine : Engine ι π) (ticket : ι) :
    (engine.forget ticket).line = engine.line.forget ticket := by
  cases hcurrent : engine.current with
  | none => simp [line, forget, Line.forget, Stage.ticket?, hcurrent]
  | some exchange =>
    by_cases hticket : exchange.ticket = ticket <;>
      simp [line, forget, Line.forget, Stage.ticket?, Option.filter, hcurrent, hticket]

theorem runs_step (engine : Engine ι π) (cause : Cause ι) :
    Runs send engine.line
      (History.at now (.cause cause :: (engine.step send now cause.event).2.flatMap Action.entries))
      (engine.step send now cause.event).1.line := by
  cases cause with
  | calls call =>
    rcases arrive_cases engine call with ⟨hfits, harrive⟩ | ⟨size, hlarge, harrive⟩
    · simp only [Cause.event, step, harrive]
      exact (Move.calls call hfits).trans
        (runs_look send now { engine with queue := engine.queue ++ [call] })
    · simp only [Cause.event, step, harrive]
      exact (Move.refuses call _ hlarge).trans (runs_look send now engine)
  | hears replies ended =>
    exact (Move.hears replies ended).trans (runs_look send now
      { engine with inbox := received engine.inbox (replies.map Reply.frame) ended })
  | ticks => exact Move.ticks.trans (runs_look send now engine)
  | givesUp ticket =>
    have hlook := runs_look send now (engine.forget ticket)
    rw [forget_line] at hlook
    exact (Move.givesUp ticket).trans hlook

/-- **The machine makes moves only.** -/
theorem runs_record (engine : Engine ι π) (causes : List (Time × Cause ι)) :
    Runs send engine.line (record send engine causes).1 (record send engine causes).2.line := by
  induction causes generalizing engine with
  | nil => exact .start
  | cons head rest ih =>
    obtain ⟨now, cause⟩ := head
    exact (runs_step send now engine cause).trans (ih _)

end
end CameraPower.Engine
