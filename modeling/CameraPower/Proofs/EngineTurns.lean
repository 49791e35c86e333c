import CameraPower.Proofs.EngineHistory

/-!
# Whose turn it is

At every moment of a history the line is free, and every call that wrote a request is over; or one
call has it, and is the next to write or the last that wrote.  The inbox then holds only frames that
came in since that call drained it.

* `callers`, `writers`, `heard`  who has called, who has written, and the replies, in their order;
* `Over`, `Settled`              a call has come to its end; so have all that wrote;
* `Drained`                      the inbox was drained, and what has happened since;
* `Turn`                         the last request written, and what has happened since;
* `Stage.Stands`, `Standing`     what holds of a line and its history;
* `Standing.move`, `Runs.standing`  every move keeps it, and so does a run.
-/

namespace CameraPower.Engine

variable {ι π : Type}

/-! ## reading a history -/

def Entry.caller? : Entry ι → Option ι
  | .cause (.calls call) => some call.ticket
  | _ => none

def Entry.writer? : Entry ι → Option ι
  | .action (.write ticket _) => some ticket
  | _ => none

def Entry.replies : Entry ι → List (Reply ι)
  | .cause (.hears replies _) => replies
  | _ => []

/-- a call comes to its end: it has its answer, or its caller drops it -/
def Entry.Ends (ticket : ι) : Entry ι → Prop
  | .action (.finish other _) => other = ticket
  | .cause (.givesUp other) => other = ticket
  | _ => False

namespace History

def callers (history : History ι) : List ι :=
  history.filterMap (·.2.caller?)

def writers (history : History ι) : List ι :=
  history.filterMap (·.2.writer?)

def heard (history : History ι) : List (Reply ι) :=
  history.flatMap (·.2.replies)

@[simp] theorem callers_append (history more : History ι) :
    callers (history ++ more) = callers history ++ callers more :=
  List.filterMap_append

@[simp] theorem writers_append (history more : History ι) :
    writers (history ++ more) = writers history ++ writers more :=
  List.filterMap_append

@[simp] theorem heard_append (history more : History ι) :
    heard (history ++ more) = heard history ++ heard more :=
  List.flatMap_append

theorem writers_cons (now : Time) (entry : Entry ι) (history : History ι) :
    writers ((now, entry) :: history) = entry.writer?.toList ++ writers history := by
  unfold writers
  cases hwriter : entry.writer? <;> simp [hwriter]

def Over (ticket : ι) (history : History ι) : Prop :=
  ∃ entry ∈ history, entry.2.Ends ticket

def Called (history : History ι) (call : Call ι) : Prop :=
  ∃ time, (time, .cause (.calls call)) ∈ history

/-- every call that wrote its request has come to its end after that -/
def Settled : History ι → Prop
  | [] => True
  | (_, entry) :: rest => (∀ ticket ∈ entry.writer?, Over ticket rest) ∧ Settled rest

theorem Over.append_left {ticket : ι} {history : History ι} (h : Over ticket history)
    (more : History ι) : Over ticket (history ++ more) := by
  obtain ⟨entry, hmem, hends⟩ := h
  exact ⟨entry, List.mem_append_left _ hmem, hends⟩

theorem Over.append_right {ticket : ι} {more : History ι} (h : Over ticket more)
    (history : History ι) : Over ticket (history ++ more) := by
  obtain ⟨entry, hmem, hends⟩ := h
  exact ⟨entry, List.mem_append_right _ hmem, hends⟩

theorem Called.append_left {history : History ι} {call : Call ι} (h : Called history call)
    (more : History ι) : Called (history ++ more) call :=
  ⟨h.choose, List.mem_append_left _ h.choose_spec⟩

theorem Called.append_right {more : History ι} {call : Call ι} (h : Called more call)
    (history : History ι) : Called (history ++ more) call :=
  ⟨h.choose, List.mem_append_right _ h.choose_spec⟩

theorem Settled.append {history more : History ι} (h : Settled history) (hmore : Settled more) :
    Settled (history ++ more) := by
  induction history with
  | nil => exact hmore
  | cons head rest ih => exact ⟨fun ticket hticket => (h.1 ticket hticket).append_left more, ih h.2⟩

theorem settled_of_writers {history : History ι} (h : writers history = []) : Settled history := by
  induction history with
  | nil => trivial
  | cons head rest ih =>
    rw [writers_cons, List.append_eq_nil_iff, Option.toList_eq_nil_iff] at h
    exact ⟨fun ticket hticket => by simp [h.1] at hticket, ih h.2⟩

/-- in a settled history the writer of every request is over behind it -/
theorem Settled.over {front back : History ι} {time : Time} {entry : Entry ι} {ticket : ι}
    (h : Settled (front ++ (time, entry) :: back)) (hwriter : ticket ∈ entry.writer?) :
    Over ticket back := by
  induction front with
  | nil => exact h.1 ticket hwriter
  | cons head rest ih => exact ih h.2

theorem Settled.append_quiet {history more : History ι} (h : Settled history)
    (hmore : writers more = []) : Settled (history ++ more) :=
  h.append (settled_of_writers hmore)

/-- The inbox was drained: `ticket` did so behind `before`, when all that had written were over;
`since` is what has happened then, and nobody has written. -/
structure Drained (history : History ι) (ticket : ι) (before since : History ι) : Prop where
  history_eq : ∃ time, history = before ++ (time, .drains ticket) :: since
  settled : Settled before
  quiet : writers since = []

theorem Drained.append {history before since more : History ι} {ticket : ι}
    (h : Drained history ticket before since) (hmore : writers more = []) :
    Drained (history ++ more) ticket before (since ++ more) where
  history_eq := by
    obtain ⟨time, rfl⟩ := h.history_eq
    exact ⟨time, by rw [List.append_assoc, List.cons_append]⟩
  settled := h.settled
  quiet := by rw [writers_append, h.quiet, hmore, List.append_nil]

theorem Drained.settles {history before since : History ι} {ticket : ι}
    (h : Drained history ticket before since) : Settled history := by
  obtain ⟨time, rfl⟩ := h.history_eq
  refine h.settled.append_quiet ?_
  rw [writers_cons, h.quiet]
  rfl

/-- The last request written: `call` wrote it at `start`, after `front`, when all that had written
before were over; `between` is what has happened since. -/
structure Turn (history front : History ι) (start : Time) (call : Call ι) (between : History ι) :
    Prop where
  history_eq :
    history = front ++ (start, .action (.write call.ticket call.request.bytes)) :: between
  called : Called front call
  settled : Settled front
  alone : writers between = []

namespace Turn

variable {history front between more : History ι} {start : Time} {call : Call ι}

theorem append (h : Turn history front start call between) (hmore : writers more = []) :
    Turn (history ++ more) front start call (between ++ more) where
  history_eq := by rw [h.history_eq, List.append_assoc, List.cons_append]
  called := h.called
  settled := h.settled
  alone := by rw [writers_append, h.alone, hmore, List.append_nil]

/-- when the call whose turn it is comes to its end, all is settled -/
theorem settles (h : Turn history front start call between) (hover : Over call.ticket between) :
    Settled history := by
  rw [h.history_eq]
  refine h.settled.append ⟨fun ticket hticket => ?_, settled_of_writers h.alone⟩
  rw [← Option.some.inj hticket]
  exact hover

end Turn
end History

open History

/-! ## what each stage holds -/

/-- the frames of an inbox came in as replies -/
def CameIn (inbox : Inbox) (replies : List (Reply ι)) : Prop :=
  ∀ frame ∈ inbox.frames, ∃ reply ∈ replies, reply.frame = frame

theorem CameIn.append {inbox next : Inbox} {replies more : List (Reply ι)} (h : CameIn inbox replies)
    (hframes : ∀ frame ∈ next.frames,
      frame ∈ inbox.frames ∨ ∃ reply ∈ more, reply.frame = frame) :
    CameIn next (replies ++ more) := by
  intro frame hmem
  rcases hframes frame hmem with hold | ⟨reply, hreply, hframe⟩
  · obtain ⟨reply, hreply, hframe⟩ := h frame hold
    exact ⟨reply, List.mem_append_left _ hreply, hframe⟩
  · exact ⟨reply, List.mem_append_right _ hreply, hframe⟩

/-- The call wrote the last request, and had drained the inbox before: what that holds came in since,
before the write or behind it. -/
def Holding (history : History ι) (inbox : Inbox) (call : Call ι) (start : Time) : Prop :=
  ∃ front between before since, Turn history front start call between ∧
    Drained front call.ticket before since ∧ CameIn inbox (heard since ++ heard between)

/-- what holds of the inbox and the history at each stage of a turn -/
def Stage.Stands (history : History ι) (inbox : Inbox) : Stage ι → Prop
  | .free => Settled history
  | .drained call => ∃ before since, Drained history call.ticket before since ∧
      CameIn inbox (heard since)
  | .writing call start => Holding history inbox call start
  | .waiting exchange => ∃ call start sent, Holding history inbox call start ∧ start ≤ sent ∧
      exchange = call.exchange sent

section
variable {history more : History ι} {inbox next : Inbox} {call : Call ι} {start : Time}

theorem Holding.append (h : Holding history inbox call start) (hmore : writers more = [])
    (hframes : ∀ frame ∈ next.frames,
      frame ∈ inbox.frames ∨ ∃ reply ∈ heard more, reply.frame = frame) :
    Holding (history ++ more) next call start := by
  obtain ⟨front, between, before, since, hturn, hdrained, hcame⟩ := h
  refine ⟨front, between ++ more, before, since, hturn.append hmore, hdrained, ?_⟩
  rw [heard_append, ← List.append_assoc]
  exact hcame.append hframes

theorem Holding.settles (h : Holding history inbox call start) (hmore : writers more = [])
    (hover : Over call.ticket more) : Settled (history ++ more) := by
  obtain ⟨front, between, before, since, hturn, -, -⟩ := h
  exact (hturn.append hmore).settles (hover.append_right between)

/-- nobody writes, and the call that has the line stays where it is -/
theorem Stage.Stands.stays {stage : Stage ι} (h : stage.Stands history inbox)
    (hmore : writers more = []) (hframes : ∀ frame ∈ next.frames,
      frame ∈ inbox.frames ∨ ∃ reply ∈ heard more, reply.frame = frame) :
    stage.Stands (history ++ more) next := by
  cases stage with
  | free => exact Settled.append_quiet h hmore
  | drained call =>
    obtain ⟨before, since, hdrained, hcame⟩ := h
    refine ⟨before, since ++ more, hdrained.append hmore, ?_⟩
    rw [heard_append]
    exact hcame.append hframes
  | writing call start => exact Holding.append h hmore hframes
  | waiting exchange =>
    obtain ⟨call, start, sent, hholding, hexchange⟩ := h
    exact ⟨call, start, sent, hholding.append hmore hframes, hexchange⟩

/-- the call that has the line comes to its end -/
theorem Stage.Stands.leaves {stage : Stage ι} {ticket : ι} (h : stage.Stands history inbox)
    (hticket : stage.ticket? = some ticket) (hmore : writers more = []) (hover : Over ticket more) :
    Settled (history ++ more) := by
  cases stage with
  | free => exact Settled.append_quiet h hmore
  | drained call =>
    obtain ⟨before, since, hdrained, -⟩ := h
    exact hdrained.settles.append_quiet hmore
  | writing call start =>
    obtain rfl := Option.some.inj hticket
    exact Holding.settles h hmore hover
  | waiting exchange =>
    obtain ⟨call, start, sent, hholding, -, rfl⟩ := h
    obtain rfl := Option.some.inj hticket
    exact hholding.settles hmore hover

end

/-! ## what each move keeps -/

/-- the calls that have not written yet, in their order -/
def Line.unwritten (line : Line ι π) : List (Call ι) :=
  match line.stage with
  | .drained call => call :: line.queue
  | _ => line.queue

theorem Line.unwritten_join (line : Line ι π) (call : Call ι) :
    ({ line with queue := line.queue ++ [call] } : Line ι π).unwritten = line.unwritten ++ [call] := by
  unfold unwritten
  cases line.stage <;> rfl

theorem Line.unwritten_forget [DecidableEq ι] (line : Line ι π) (ticket : ι) :
    (line.forget ticket).unwritten.Sublist line.unwritten := by
  cases hstage : line.stage with
  | free => simp [unwritten, forget, hstage]
  | drained call =>
    by_cases hticket : call.ticket = ticket
    · simp [unwritten, forget, hstage, Stage.ticket?, hticket, List.Sublist.cons]
    · simp [unwritten, forget, hstage, Stage.ticket?, hticket]
  | writing call start =>
    by_cases hticket : call.ticket = ticket <;>
      simp [unwritten, forget, hstage, Stage.ticket?, hticket]
  | waiting exchange =>
    by_cases hticket : exchange.ticket = ticket <;>
      simp [unwritten, forget, hstage, Stage.ticket?, hticket]

/-- what holds of a line and its history -/
structure Standing (history : History ι) (line : Line ι π) : Prop where
  queued : ∀ call ∈ line.unwritten, Called history call ∧
    Frame.encode? call.request.command call.request.payload = .ok call.request.bytes
  inOrder : (writers history ++ line.unwritten.map Call.ticket).Sublist (callers history)
  stage : line.stage.Stands history line.inbox

theorem standing_start (inbox : Inbox) (port : π) :
    Standing [] ({ inbox, port } : Line ι π) where
  queued := fun _ hmem => by cases hmem
  inOrder := .slnil
  stage := trivial

namespace Standing

variable {history more : History ι} {line next : Line ι π}

/-- a move in which nobody writes: no call gets among those to write but by arriving -/
theorem quiet (h : Standing history line) (hmore : writers more = [])
    (hqueued : ∀ call ∈ next.unwritten, call ∈ line.unwritten ∨ Called more call ∧
      Frame.encode? call.request.command call.request.payload = .ok call.request.bytes)
    (horder : (next.unwritten.map Call.ticket).Sublist
      (line.unwritten.map Call.ticket ++ callers more))
    (hstage : next.stage.Stands (history ++ more) next.inbox) :
    Standing (history ++ more) next where
  queued := by
    intro call hmem
    rcases hqueued call hmem with hold | ⟨hcalled, hfits⟩
    · exact ⟨(h.queued call hold).1.append_left more, (h.queued call hold).2⟩
    · exact ⟨hcalled.append_right history, hfits⟩
  inOrder := by
    rw [writers_append, hmore, List.append_nil, callers_append]
    have hqueue := horder.append_left (writers history)
    rw [← List.append_assoc] at hqueue
    exact hqueue.trans (h.inOrder.append_right _)
  stage := hstage

/-- a quiet move that adds no call: those to write are some of what they were -/
theorem fewer (h : Standing history line) (hmore : writers more = [])
    (hunwritten : next.unwritten.Sublist line.unwritten)
    (hstage : next.stage.Stands (history ++ more) next.inbox) :
    Standing (history ++ more) next :=
  h.quiet hmore (fun _ hmem => Or.inl (hunwritten.mem hmem))
    ((hunwritten.map _).trans (List.sublist_append_left _ _)) hstage

/-- a quiet move after which the same calls have yet to write -/
theorem same (h : Standing history line) (hmore : writers more = [])
    (hunwritten : next.unwritten = line.unwritten)
    (hstage : next.stage.Stands (history ++ more) next.inbox) :
    Standing (history ++ more) next :=
  h.fewer hmore (hunwritten ▸ List.Sublist.refl next.unwritten) hstage

/-- a quiet move that leaves the queue and the stage as they are -/
theorem unmoved (h : Standing history line) (hmore : writers more = [])
    (hqueue : next.queue = line.queue) (hstage : next.stage = line.stage)
    (hframes : ∀ frame ∈ next.inbox.frames,
      frame ∈ line.inbox.frames ∨ ∃ reply ∈ heard more, reply.frame = frame) :
    Standing (history ++ more) next := by
  have hunwritten : next.unwritten = line.unwritten := by
    unfold Line.unwritten
    rw [hqueue, hstage]
  refine h.same hmore hunwritten ?_
  rw [hstage]
  exact h.stage.stays hmore hframes

/-- the call that has drained the inbox writes its request -/
theorem writes (h : Standing history line) {call : Call ι} (hstage : line.stage = .drained call)
    (now : Time) :
    Standing (history ++ History.at now [.action (.write call.ticket call.request.bytes)])
      { line with stage := .writing call now } := by
  let write : History ι := History.at now [.action (.write call.ticket call.request.bytes)]
  have hunwritten : line.unwritten = call :: line.queue := by rw [Line.unwritten, hstage]
  have hqueued := h.queued
  have horder := h.inOrder
  have hstands := h.stage
  rw [hunwritten, List.forall_mem_cons] at hqueued
  rw [hunwritten, List.map_cons] at horder
  rw [hstage] at hstands
  obtain ⟨⟨hcalled, -⟩, hqueue⟩ := hqueued
  obtain ⟨before, since, hdrained, hcame⟩ := hstands
  have hwriters : writers (history ++ write) = writers history ++ [call.ticket] :=
    writers_append history write
  have hcallers : callers (history ++ write) = callers history := by
    rw [callers_append]
    exact List.append_nil _
  have hturn : Turn (history ++ write) history now call [] :=
    ⟨rfl, hcalled, hdrained.settles, rfl⟩
  refine ⟨fun other hmem => ⟨(hqueue other hmem).1.append_left write, (hqueue other hmem).2⟩, ?_,
    history, [], before, since, hturn, hdrained, by simpa [heard] using hcame⟩
  rw [hwriters, hcallers, List.append_assoc]
  exact horder

theorem move [DecidableEq ι] {send : Send π} {now : Time} {entries : List (Entry ι)}
    (h : Standing history line) (hmove : Move send now line entries next) :
    Standing (history ++ History.at now entries) next := by
  cases hmove with
  | calls call fits =>
    refine h.quiet rfl ?_ ?_ (h.stage.stays rfl fun _ => Or.inl)
    · rw [Line.unwritten_join]
      intro other hmem
      rcases List.mem_append.mp hmem with hold | hnew
      · exact Or.inl hold
      · rw [List.mem_singleton.mp hnew]
        exact Or.inr ⟨⟨now, List.mem_cons_self⟩, fits⟩
    · rw [Line.unwritten_join, List.map_append]
      exact List.Sublist.refl _
  | refuses call error large => exact h.unmoved rfl rfl rfl fun _ => Or.inl
  | hears replies ended =>
    refine h.unmoved rfl rfl rfl fun frame hmem => ?_
    rcases mem_received hmem with hold | hnew
    · exact Or.inl hold
    · obtain ⟨reply, hreply, hframe⟩ := List.mem_map.mp hnew
      exact Or.inr ⟨reply, by simpa [heard, Entry.replies] using hreply, hframe⟩
  | ticks => exact h.unmoved rfl rfl rfl fun _ => Or.inl
  | givesUp ticket =>
    refine h.fewer rfl (line.unwritten_forget ticket) ?_
    by_cases hticket : line.stage.ticket? = some ticket
    · simp only [Line.forget, hticket, if_true]
      exact h.stage.leaves hticket rfl ⟨_, List.mem_singleton_self _, rfl⟩
    · simp only [Line.forget, hticket, if_false]
      exact h.stage.stays rfl fun _ => Or.inl
  | drifts port => exact h.unmoved rfl rfl rfl fun _ => Or.inl
  | skips call rest stage queue closed =>
    refine h.fewer rfl ?_ (h.stage.stays rfl fun _ => Or.inl)
    simp only [Line.unwritten, stage, queue]
    exact List.sublist_cons_self call rest
  | drains call rest stage queue =>
    refine h.same rfl ?_ ?_
    · simp only [Line.unwritten, stage, queue]
    · have hsettled := h.stage
      rw [stage] at hsettled
      exact ⟨history, [], ⟨⟨now, rfl⟩, hsettled, rfl⟩, fun _ hmem => by cases hmem⟩
  | writes call stage => exact h.writes stage now
  | sent call start port stage started sent =>
    refine h.same rfl ?_ ?_
    · simp only [Line.unwritten, stage]
    · have hholding := h.stage
      rw [stage] at hholding
      exact ⟨call, start, now, Holding.append hholding rfl fun _ => Or.inl, started, rfl⟩
  | fails call start port fault stage sent =>
    refine h.same rfl ?_ ?_
    · simp only [Line.unwritten, stage]
    · have hticket : line.stage.ticket? = some call.ticket := by rw [stage]; rfl
      exact h.stage.leaves hticket rfl ⟨_, List.mem_singleton_self _, rfl⟩
  | waits exchange inbox stage outcome =>
    exact h.unmoved rfl rfl rfl fun frame hmem => Or.inl ((outcome?_cases outcome).1 frame hmem)
  | ends exchange inbox answer stage outcome =>
    refine h.same rfl ?_ ?_
    · simp only [Line.unwritten, stage]
    · have hticket : line.stage.ticket? = some exchange.ticket := by rw [stage]; rfl
      exact h.stage.leaves hticket rfl ⟨_, List.mem_singleton_self _, rfl⟩

end Standing

theorem Runs.standing [DecidableEq ι] {send : Send π} {inbox : Inbox} {port : π}
    {history : History ι} {line : Line ι π}
    (run : Runs send { inbox, port } history line) : Standing history line := by
  induction run with
  | start => exact standing_start inbox port
  | move _ move ih => exact ih.move move

end CameraPower.Engine
