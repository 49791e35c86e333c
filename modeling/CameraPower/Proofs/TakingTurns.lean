import CameraPower.Proofs.EngineTurns

/-!
# One exchange at a time

Whatever callers, line, clock and port do, and however late a call is woken: requests go out one by
one, each when the calls that wrote before it have come to their end.

* `Runs.of_write`, `Runs.of_finish`  the engine at the moment at which an entry is made;
* `TakesTurns`                       the law of the line;
* `Prompt`                           the machine keeps nobody waiting;
* `Dated`                            what the machine counts the time of a call from;
* `takes_turns`                      the law holds of every history.
-/

namespace CameraPower.Engine

open History

variable {ι π : Type}

/-! ## the entries of a history -/

section
variable [DecidableEq ι] {send : Send π} {now : Time} {first line next : Line ι π}
  {entries front back : List (Entry ι)} {history past rest : History ι}

/-- a run, cut where an entry was made: the run before, and the move that made the entry -/
theorem Runs.cut {entry : Entry ι} (run : Runs send first history line)
    (hsplit : history = past ++ (now, entry) :: rest) :
    ∃ before line next front back, Runs send first before line ∧
      Move send now line (front ++ entry :: back) next ∧ past = before ++ History.at now front := by
  -- the entry is one of the last move's, or the run before has it already
  induction run generalizing past rest with
  | start => simp at hsplit
  | @move before line next instant entries run move ih =>
    rcases List.append_eq_append_iff.mp hsplit with ⟨added, hpast, hadded⟩ | ⟨kept, hold, hkept⟩
    · obtain ⟨front, back, rfl, rfl, hback⟩ := List.map_eq_append_iff.mp hadded
      obtain ⟨entry', back', rfl, hentry, -⟩ := List.map_eq_cons_iff.mp hback
      cases hentry
      exact ⟨before, line, next, front, back', run, move, hpast⟩
    · cases kept with
      | nil =>
        obtain ⟨entry', back', rfl, hentry, -⟩ := List.map_eq_cons_iff.mp hkept.symm
        cases hentry
        rw [List.append_nil] at hold
        exact ⟨before, line, next, [], back', run, move, by rw [← hold, History.at_nil,
          List.append_nil]⟩
      | cons head kept =>
        rw [List.cons_append] at hkept
        rw [← (List.cons.inj hkept).1] at hold
        exact ih hold

/-- a request is written by the call that has drained the inbox -/
theorem Move.of_write {ticket : ι} {bytes : List UInt8} (move : Move send now line entries next)
    (h : entries = front ++ .action (.write ticket bytes) :: back) :
    front = [] ∧ ∃ call, line.stage = .drained call ∧ call.ticket = ticket ∧
      call.request.bytes = bytes := by
  cases move with
  | writes call stage =>
    simp [List.cons_eq_append_iff] at h
    exact ⟨h.1, call, stage, h.2.1.1.symm, h.2.1.2.symm⟩
  | _ => simp [List.cons_eq_append_iff] at h

/-- a call that ends with a frame or a timeout was waiting, and that is what its wait came to -/
theorem Move.of_finish {ticket : ι} {answer : Answer} (move : Move send now line entries next)
    (h : entries = front ++ .action (.finish ticket answer) :: back)
    (hanswer : (∃ frame, answer = .ok frame) ∨
      ∃ command timeout, answer = .error (.timeout command timeout)) :
    front = [] ∧ ∃ exchange inbox, line.stage = .waiting exchange ∧ exchange.ticket = ticket ∧
      outcome? now exchange line.inbox = (inbox, some answer) := by
  have hmem : .action (.finish ticket answer) ∈ entries := by simp [h]
  have hother : ∀ error, answer = .error error →
      ∃ command timeout, error = .timeout command timeout := by
    rintro error rfl
    rcases hanswer with ⟨frame, hframe⟩ | ⟨command, timeout, htimeout⟩
    · cases hframe
    · exact ⟨command, timeout, Except.error.inj htimeout⟩
  cases move with
  | refuses call error large =>
    simp at hmem
    obtain ⟨-, rfl⟩ := hmem
    obtain ⟨command, timeout, rfl⟩ := hother _ rfl
    unfold Frame.encode? at large
    split at large <;> simp at large
  | ends exchange inbox answer' stage outcome =>
    simp [List.cons_eq_append_iff] at h
    exact ⟨h.1, exchange, inbox, stage, h.2.1.1.symm, by rw [outcome, h.2.1.2]⟩
  | skips call rest stage queue closed =>
    simp at hmem
    simpa using hother _ hmem.2
  | fails call start port fault stage sent =>
    simp at hmem
    simpa using hother _ hmem.2
  | _ => simp at hmem

/-- **The law of the line**, for calls that each have a ticket of their own. -/
structure TakesTurns (history : History ι) : Prop where
  /-- when a request is written, every call that wrote before has come to its end -/
  exclusive : ∀ past now ticket bytes rest,
    history = past ++ (now, .action (.write ticket bytes)) :: rest → Settled past
  /-- what is written is the whole frame of a call that has arrived -/
  whole : ∀ past now ticket bytes rest,
    history = past ++ (now, .action (.write ticket bytes)) :: rest →
      ∃ call, Called past call ∧ call.ticket = ticket ∧
        Frame.encode? call.request.command call.request.payload = .ok bytes
  /-- calls write in the order in which they arrived, and no call writes twice -/
  inOrder : (writers history).Sublist (callers history)
  once : (callers history).Nodup → (writers history).Nodup
  /-- a call that times out wrote its request, its own timeout before or longer ago -/
  timed : ∀ past now ticket command timeout rest,
    history = past ++ (now, .action (.finish ticket (.error (.timeout command timeout)))) :: rest →
      ∃ front start call between, Turn past front start call between ∧ call.ticket = ticket ∧
        call.request.command = command ∧ call.timeout = timeout ∧ start + timeout ≤ now

/-- where a request is written, its call has drained the inbox -/
theorem Runs.of_write {ticket : ι} {bytes : List UInt8} (run : Runs send first history line)
    (hsplit : history = past ++ (now, .action (.write ticket bytes)) :: rest) :
    ∃ line call, Runs send first past line ∧ line.stage = .drained call ∧ call.ticket = ticket ∧
      call.request.bytes = bytes := by
  obtain ⟨before, line, next, front, back, run, move, rfl⟩ := run.cut hsplit
  obtain ⟨rfl, call, hdrained⟩ := move.of_write rfl
  exact ⟨line, call, by simpa using run, hdrained⟩

/-- where a call ends with a frame or a timeout, it has been waiting -/
theorem Runs.of_finish {ticket : ι} {answer : Answer} (run : Runs send first history line)
    (hsplit : history = past ++ (now, .action (.finish ticket answer)) :: rest)
    (hanswer : (∃ frame, answer = .ok frame) ∨
      ∃ command timeout, answer = .error (.timeout command timeout)) :
    ∃ line exchange inbox, Runs send first past line ∧ line.stage = .waiting exchange ∧
      exchange.ticket = ticket ∧ outcome? now exchange line.inbox = (inbox, some answer) := by
  obtain ⟨before, line, next, front, back, run, move, rfl⟩ := run.cut hsplit
  obtain ⟨rfl, exchange, inbox, hwaiting⟩ := move.of_finish rfl hanswer
  exact ⟨line, exchange, inbox, by simpa using run, hwaiting⟩

/-- a call that waits wrote the last request, and has drained the inbox before that -/
theorem Runs.holding {inbox : Inbox} {port : π} {exchange : Exchange ι}
    (run : Runs send { inbox, port } history line) (hstage : line.stage = .waiting exchange) :
    ∃ call start sent, Holding history line.inbox call start ∧ start ≤ sent ∧
      exchange = call.exchange sent := by
  have hstands := run.standing.stage
  rw [hstage] at hstands
  exact hstands

theorem Runs.takesTurns {inbox : Inbox} {port : π} (run : Runs send { inbox, port } history line) :
    TakesTurns history where
  exclusive := by
    intro past now ticket bytes rest hsplit
    obtain ⟨line, call, before, hstage, -⟩ := run.of_write hsplit
    have hstands := before.standing.stage
    rw [hstage] at hstands
    obtain ⟨_, _, hdrained, -⟩ := hstands
    exact hdrained.settles
  whole := by
    intro past now ticket bytes rest hsplit
    obtain ⟨line, call, before, hstage, hticket, hbytes⟩ := run.of_write hsplit
    obtain ⟨hcalled, hfits⟩ := before.standing.queued call (by simp [Line.unwritten, hstage])
    exact ⟨call, hcalled, hticket, by rw [hfits, hbytes]⟩
  inOrder := (List.sublist_append_left _ _).trans run.standing.inOrder
  once := ((List.sublist_append_left _ _).trans run.standing.inOrder).nodup
  timed := by
    intro past now ticket command timeout rest hsplit
    obtain ⟨line, exchange, inbox, before, hstage, hticket, houtcome⟩ :=
      run.of_finish hsplit (Or.inr ⟨command, timeout, rfl⟩)
    obtain ⟨call, start, sent, hholding, hsent, rfl⟩ := before.holding hstage
    obtain ⟨front, between, -, -, hturn, -, -⟩ := hholding
    rcases (outcome?_cases houtcome).2 with ⟨frame, -, -, hok⟩ | hclosed | ⟨hdue, hlate⟩ | ⟨-, hnone⟩
    · simp at hok
    · simp at hclosed
    · simp at hlate
      obtain ⟨rfl, rfl⟩ := hlate
      exact ⟨front, start, call, between, hturn, hticket, rfl, rfl,
        Nat.le_trans (Nat.add_le_add_right hsent call.timeout) hdue⟩
    · simp at hnone

end

/-! ## the machine keeps nobody waiting -/

section
variable (send : Send π) (now : Time)

/-- What the machine leaves behind when it has looked after the line.  Nobody waits for a free line;
a call that has the line is not yet due, and it had the line before or has just written. -/
structure Prompt (now : Time) (before : Option (Exchange ι)) (after : Engine ι π × List (Action ι)) :
    Prop where
  queue : after.1.current = none → after.1.queue = []
  current : ∀ exchange, after.1.current = some exchange → now < exchange.deadline ∧
    (before = some exchange ∧ after.2 = [] ∨
      exchange.deadline = now + exchange.timeout ∧
        ∃ front bytes, after.2 = front ++ [.write exchange.ticket bytes])

theorem Prompt.behind {before : Option (Exchange ι)} {engine : Engine ι π}
    {actions : List (Action ι)} (h : Prompt now none (engine, actions))
    (earlier : List (Action ι)) : Prompt now before (engine, earlier ++ actions) where
  queue := h.queue
  current := by
    intro exchange hcurrent
    obtain ⟨hearly, ⟨hnone, -⟩ | ⟨hdeadline, front, bytes, rfl⟩⟩ := h.current exchange hcurrent
    · cases hnone
    · exact ⟨hearly, Or.inr ⟨hdeadline, earlier ++ front, bytes, (List.append_assoc _ _ _).symm⟩⟩

theorem grant_prompt (inbox : Inbox) (port : π) (queue : List (Call ι)) :
    Prompt now none (grant send now inbox port queue) := by
  induction queue generalizing inbox port with
  | nil => exact ⟨fun _ => rfl, fun _ hsome => nomatch hsome⟩
  | cons call rest ih =>
    have hgranted := grant_cons send now inbox port call rest
    generalize grant send now inbox port (call :: rest) = granted at hgranted ⊢
    cases hgranted with
    | skips closed => exact (ih inbox port).behind now [_]
    | fails port' fault sent => exact (ih inbox.drain.1 port').behind now [_, _]
    | ends port' inbox' answer sent outcome => exact (ih inbox' port').behind now [_, _]
    | waits port' inbox' sent outcome =>
      refine ⟨fun hnone => (nomatch hnone), fun exchange hsome => ?_⟩
      obtain rfl := Option.some.inj hsome
      have hearly : now < (call.exchange now).deadline := by simpa using (outcome?_cases outcome).2
      exact ⟨hearly, Or.inr ⟨rfl, [], call.request.bytes, rfl⟩⟩

theorem look_prompt (engine : Engine ι π) :
    Prompt now engine.current (engine.look send now) := by
  cases hcurrent : engine.current with
  | none =>
    rw [look_none send now engine hcurrent]
    exact grant_prompt send now engine.inbox engine.port engine.queue
  | some exchange =>
    cases houtcome : outcome? now exchange engine.inbox with
    | mk inbox answer? =>
      cases answer? with
      | none =>
        rw [look_waits hcurrent houtcome]
        refine ⟨fun hnone => ?_, fun other hsome => ?_⟩
        · rw [hcurrent] at hnone
          cases hnone
        · obtain rfl : exchange = other := Option.some.inj (hcurrent.symm.trans hsome)
          exact ⟨by simpa using (outcome?_cases houtcome).2, Or.inl ⟨rfl, rfl⟩⟩
      | some answer =>
        rw [look_ends hcurrent houtcome]
        exact (grant_prompt send now inbox engine.port engine.queue).behind now [_]

variable [DecidableEq ι]

/-- whatever happens, the machine looks after the line last -/
theorem step_eq_look (engine : Engine ι π) (event : Event ι) :
    ∃ told : Engine ι π, (engine.step send now event).1 = (told.look send now).1 := by
  cases event with
  | call call => exact ⟨(engine.arrive call).1, rfl⟩
  | received frames ended => exact ⟨_, rfl⟩
  | clock => exact ⟨engine, rfl⟩
  | abandon ticket => exact ⟨engine.forget ticket, rfl⟩

theorem record_concat (engine : Engine ι π) (causes : List (Time × Cause ι)) (cause : Cause ι) :
    (record send engine (causes ++ [(now, cause)])).2 =
      ((record send engine causes).2.step send now cause.event).1 := by
  induction causes generalizing engine with
  | nil => rfl
  | cons head rest ih => exact ih _

end

/-! ## from when a call is timed -/

def Entry.isWrite (entry : Entry ι) : Bool :=
  entry.writer?.isSome

/-- the instants at which requests were written -/
def History.writes (history : History ι) : List Time :=
  (history.filter (·.2.isWrite)).map Prod.fst

@[simp] theorem History.writes_append (history more : History ι) :
    writes (history ++ more) = writes history ++ writes more := by
  simp [writes]

theorem History.writes_of_writers {history : History ι} (h : writers history = []) :
    writes history = [] := by
  simpa [writes, writers, Entry.isWrite] using h

theorem History.Turn.writes {history front between : History ι} {start : Time} {call : Call ι}
    (h : Turn history front start call between) :
    (History.writes history).getLast? = some start := by
  have hwrite : History.writes
      [(start, (.action (.write call.ticket call.request.bytes) : Entry ι))] = [start] := rfl
  rw [h.history_eq, List.append_cons, writes_append, writes_append, writes_of_writers h.alone,
    hwrite]
  simp

/-- the time of the call that has the line is counted from the last write -/
def Dated (history : History ι) (engine : Engine ι π) : Prop :=
  ∀ exchange, engine.current = some exchange →
    ∃ start, (writes history).getLast? = some start ∧ exchange.deadline = start + exchange.timeout

section
variable {send : Send π} {history : History ι} {engine : Engine ι π}

/-- the machine is told something, in which nobody writes, and looks after the line -/
theorem Dated.look (h : Dated history engine) (now : Time) (more : History ι) (told : Engine ι π)
    (hmore : writers more = [])
    (htold : ∀ exchange, told.current = some exchange → engine.current = some exchange) :
    Dated (history ++ (more ++ History.at now ((told.look send now).2.flatMap Action.entries)))
      (told.look send now).1 := by
  intro exchange hcurrent
  obtain ⟨-, ⟨hbefore, hnothing⟩ | ⟨hdeadline, front, bytes, hwrite⟩⟩ :=
    (look_prompt send now told).current exchange hcurrent
  · rw [hnothing, List.flatMap_nil, History.at_nil, List.append_nil, writes_append,
      writes_of_writers hmore, List.append_nil]
    exact h exchange (htold exchange hbefore)
  · refine ⟨now, ?_, hdeadline⟩
    have hlast : writes (History.at now (Action.write exchange.ticket bytes).entries) = [now] := rfl
    rw [hwrite, List.flatMap_append, List.flatMap_singleton, History.at_append]
    simp only [writes_append, hlast, ← List.append_assoc, List.getLast?_concat]

variable [DecidableEq ι]

theorem Dated.step (h : Dated history engine) (now : Time) (cause : Cause ι) :
    Dated (history ++ History.at now
        (.cause cause :: (engine.step send now cause.event).2.flatMap Action.entries))
      (engine.step send now cause.event).1 := by
  cases cause with
  | calls call =>
    rcases arrive_cases engine call with ⟨-, harrive⟩ | ⟨size, -, harrive⟩
    · simp only [Cause.event, Engine.step, harrive]
      exact h.look now [(now, .cause (.calls call))] { engine with queue := engine.queue ++ [call] }
        rfl fun _ => id
    · simp only [Cause.event, Engine.step, harrive]
      exact h.look now [(now, .cause (.calls call)),
        (now, .action (.finish call.ticket (.error (.payloadTooLarge size))))] engine rfl fun _ => id
  | hears replies ended =>
    exact h.look now [(now, .cause (.hears replies ended))]
      { engine with inbox := received engine.inbox (replies.map Reply.frame) ended } rfl fun _ => id
  | ticks => exact h.look now [(now, .cause .ticks)] engine rfl fun _ => id
  | givesUp ticket =>
    exact h.look now [(now, .cause (.givesUp ticket))] (engine.forget ticket) rfl
      fun exchange hcurrent => (Option.filter_eq_some_iff.mp hcurrent).1

theorem Dated.record (h : Dated history engine) (causes : List (Time × Cause ι)) :
    Dated (history ++ (record send engine causes).1) (record send engine causes).2 := by
  induction causes generalizing history engine with
  | nil => simpa [Engine.record] using h
  | cons head rest ih =>
    obtain ⟨now, cause⟩ := head
    have hstep : Dated _ (engine.step send now cause.event).1 := h.step now cause
    have hrest := ih hstep
    rw [List.append_assoc] at hrest
    exact hrest

end

/-- **One exchange at a time.**  Every history of an engine, however its moves fall together, obeys
the law of the line.  The histories that the machine makes are among these; and whatever it was told
last, nobody waits for a free line, and a call that holds the line wrote its request less than its
timeout ago. -/
theorem takes_turns [DecidableEq ι] (send : Send π) (inbox : Inbox) (port : π) :
    (∀ (history : History ι) line, Runs send { inbox, port } history line → TakesTurns history) ∧
      ∀ (causes : List (Time × Cause ι)) (now : Time) (cause : Cause ι),
        let (history, engine) := record send { inbox, port } (causes ++ [(now, cause)])
        Runs send { inbox, port } history engine.line ∧
          (engine.current = none → engine.queue = []) ∧
          ∀ exchange, engine.current = some exchange → ∃ front start call between,
            Turn history front start call between ∧ exchange.ticket = call.ticket ∧
              now < start + call.timeout := by
  refine ⟨fun history line run => run.takesTurns, fun causes now cause => ?_⟩
  let first : Engine ι π := { inbox, port }
  let last := record send first (causes ++ [(now, cause)])
  have hrun : Runs send { inbox, port } last.1 last.2.line :=
    runs_record send first (causes ++ [(now, cause)])
  have hdated : Dated last.1 last.2 := by
    have hstart : Dated [] first := fun _ hcurrent => by cases hcurrent
    exact hstart.record (causes ++ [(now, cause)])
  obtain ⟨told, htold⟩ := step_eq_look send now (record send first causes).2 cause.event
  rw [← record_concat] at htold
  have hlast : last.2 = (told.look send now).1 := htold
  have hprompt := look_prompt send now told
  refine ⟨hrun, hlast ▸ hprompt.queue, fun exchange hcurrent => ?_⟩
  have hearly := (hprompt.current exchange (hlast ▸ hcurrent)).1
  have hstage : last.2.line.stage = .waiting exchange := by simp [line, hcurrent, last, first]
  obtain ⟨call, start, sent, ⟨front, between, -, -, hturn, -, -⟩, -, rfl⟩ := hrun.holding hstage
  obtain ⟨written, hwritten, hdeadline⟩ := hdated _ hcurrent
  obtain rfl : start = written := Option.some.inj (hturn.writes.symm.trans hwritten)
  rw [hdeadline] at hearly
  exact ⟨front, start, call, between, hturn, rfl, hearly⟩

def willing : Send Unit := fun _ _ _ => ((), .ok ())

/-- two calls arrive, the first is answered, the second times out: 100 after its write at 30 -/
theorem takes_turns_two_calls :
    let causes : List (Time × Cause Nat) :=
      [(0, .calls ⟨0, ⟨7, []⟩, 100⟩), (5, .calls ⟨1, ⟨8, []⟩, 100⟩),
        (30, .hears [⟨some 0, ⟨7, [1], 0x1462⟩⟩] false), (130, .ticks)]
    let history := (record willing { inbox := .withCapacity 4, port := () } causes).1
    history.drop 5 = [(30, .action (.finish 0 (.ok ⟨7, [1], 0x1462⟩))),
        (30, .drains 1), (30, .action (.write 1 (Frame.bytes 8 []))), (130, .cause .ticks),
        (130, .action (.finish 1 (.error (.timeout 8 100))))] ∧
      TakesTurns history :=
  ⟨rfl, (takes_turns willing (.withCapacity 4) ()).1 _ _
    (runs_record willing { inbox := .withCapacity 4, port := () } _)⟩

end CameraPower.Engine