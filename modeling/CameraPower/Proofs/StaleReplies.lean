import CameraPower.Proofs.TakingTurns

/-!
# Whose reply a call returns

Replies carry no number.  A call throws away what the inbox holds and then writes its request, so
what it returns came in after that: the reply to its own request, or a late reply to an earlier one
with the same command.

* `Answering`           what a controller is taken to do: it answers a request at most once, and
                        repeats its command;
* `Late`                a reply to an earlier request, whose call is over;
* `returns_own_or_late` whose reply a call returns;
* `returns_late_reply`  a late reply that comes in behind the write is taken for the call's own;
* `returns_what_slips_in`  so is a reply that comes in between the drain and the write.
-/

namespace CameraPower.Engine

open History

variable {ι π : Type}

/-! ## what a controller does -/

/-- each reply that comes in behind `past` answers a request that is on the line by then, and repeats
its command -/
def Echoes (past : History ι) : History ι → Prop
  | [] => True
  | (now, entry) :: rest =>
    (∀ reply ∈ entry.replies, ∃ ticket payload time, reply.request = some ticket ∧
      (time, .action (.write ticket (Frame.bytes reply.frame.command payload))) ∈ past) ∧
    Echoes (past ++ [(now, entry)]) rest

/-- A reply answers a request, any time after it, and repeats its command; no request is answered
twice. -/
structure Answering (history : History ι) : Prop where
  echoes : Echoes [] history
  once : ((heard history).map Reply.request).Nodup

/-- The reply answers a request with its command that was written in `front`, by another call than
`ticket`, and that call was over by the end of `front`. -/
def Late (front : History ι) (ticket : ι) (reply : Reply ι) : Prop :=
  ∃ other before time payload after, reply.request = some other ∧ other ≠ ticket ∧
    front = before ++
      (time, .action (.write other (Frame.bytes reply.frame.command payload))) :: after ∧
    Over other after

/-! ## the replies of a history -/

theorem mem_writers {history : History ι} {time : Time} {ticket : ι} {bytes : List UInt8}
    (h : (time, .action (.write ticket bytes)) ∈ history) : ticket ∈ writers history :=
  List.mem_filterMap.mpr ⟨_, h, rfl⟩

theorem not_mem_of_quiet {history : History ι} {time : Time} {ticket : ι} {bytes : List UInt8}
    (h : writers history = []) : (time, .action (.write ticket bytes)) ∉ history := by
  intro hmem
  have hwriter := mem_writers hmem
  rw [h] at hwriter
  cases hwriter

theorem Echoes.written {past front rest : History ι} {now : Time} {entry : Entry ι} {reply : Reply ι}
    (h : Echoes past (front ++ (now, entry) :: rest)) (hreply : reply ∈ entry.replies) :
    ∃ ticket payload time, reply.request = some ticket ∧
      (time, .action (.write ticket (Frame.bytes reply.frame.command payload))) ∈ past ++ front := by
  induction front generalizing past with
  | nil =>
    rw [List.append_nil]
    exact h.1 reply hreply
  | cons head front ih =>
    rw [List.append_cons]
    exact ih h.2

/-- a reply that came in while nobody wrote answers a request that was written before -/
theorem Answering.asked {past more rest : History ι} {reply : Reply ι}
    (h : Answering (past ++ (more ++ rest))) (hquiet : writers more = [])
    (hreply : reply ∈ heard more) :
    ∃ ticket payload time, reply.request = some ticket ∧
      (time, .action (.write ticket (Frame.bytes reply.frame.command payload))) ∈ past := by
  obtain ⟨⟨now, entry⟩, hentry, hmem⟩ := List.mem_flatMap.mp hreply
  obtain ⟨early, later, rfl⟩ := List.append_of_mem hentry
  have hsplit : past ++ (early ++ (now, entry) :: later ++ rest) =
      (past ++ early) ++ (now, entry) :: (later ++ rest) := by simp
  obtain ⟨ticket, payload, time, hrequest, hwritten⟩ := Echoes.written (hsplit ▸ h.echoes) hmem
  rw [writers_append, List.append_eq_nil_iff] at hquiet
  rw [List.nil_append] at hwritten
  rcases List.mem_append.mp hwritten with hpast | hearly
  · exact ⟨ticket, payload, time, hrequest, hpast⟩
  · exact absurd hearly (not_mem_of_quiet hquiet.1)

/-- where all that have written are over, a reply to one of them is late for any other call -/
theorem late_of_written {front : History ι} {ticket other : ι} {payload : List UInt8} {time : Time}
    {reply : Reply ι} (hsettled : Settled front) (hticket : ticket ∉ writers front)
    (hrequest : reply.request = some other)
    (hwritten : (time, .action (.write other (Frame.bytes reply.frame.command payload))) ∈ front) :
    Late front ticket reply := by
  have hother : other ≠ ticket := fun hsame => hticket (hsame ▸ mem_writers hwritten)
  obtain ⟨before, after, rfl⟩ := List.append_of_mem hwritten
  exact ⟨other, before, time, payload, after, hrequest, hother, rfl, hsettled.over rfl⟩

section
variable {history front between before since rest : History ι} {start : Time} {call : Call ι}
  {reply : Reply ι}

/-- what came in after the drain of a call that has written: before its write, and behind it -/
theorem History.Turn.heard_eq (hturn : Turn history front start call between)
    (hdrained : Drained front call.ticket before since) :
    heard history = heard before ++ (heard since ++ heard between) := by
  obtain ⟨time, hfront⟩ := hdrained.history_eq
  rw [hturn.history_eq, hfront]
  simp [heard, Entry.replies]

/-- a reply that came in after the drain of a call that has written answers its request or is late -/
theorem History.Turn.own_or_late (hturn : Turn history front start call between)
    (hdrained : Drained front call.ticket before since) (hwriters : (writers history).Nodup)
    (hanswering : Answering (history ++ rest)) (hreply : reply ∈ heard since ++ heard between) :
    reply.request = some call.ticket ∧ reply ∈ heard between ∨ Late before call.ticket reply := by
  obtain ⟨time, rfl⟩ := hdrained.history_eq
  obtain rfl := hturn.history_eq
  let write : Time × Entry ι := (start, .action (.write call.ticket call.request.bytes))
  let drain : Time × Entry ι := (time, .drains call.ticket)
  have hother : call.ticket ∉ writers before := by
    intro hmem
    rw [writers_append, writers_append] at hwriters
    exact (List.nodup_append.mp hwriters).2.2 _ (List.mem_append_left _ hmem) _
      (mem_writers List.mem_cons_self) rfl
  rcases List.mem_append.mp hreply with hsince | hbetween
  · have hsplit : before ++ drain :: since ++ write :: between ++ rest =
        (before ++ [drain]) ++ (since ++ (write :: between ++ rest)) := by simp
    obtain ⟨ticket, payload, time, hrequest, hwritten⟩ :=
      Answering.asked (hsplit ▸ hanswering) hdrained.quiet hsince
    rcases List.mem_append.mp hwritten with hbefore | hdrain
    · exact Or.inr (late_of_written hdrained.settled hother hrequest hbefore)
    · simp [drain] at hdrain
  · have hsplit : before ++ drain :: since ++ write :: between ++ rest =
        (before ++ drain :: since ++ [write]) ++ (between ++ rest) := by simp
    obtain ⟨ticket, payload, time, hrequest, hwritten⟩ :=
      Answering.asked (hsplit ▸ hanswering) hturn.alone hbetween
    rcases List.mem_append.mp hwritten with hfront | hown
    · rcases List.mem_append.mp hfront with hbefore | hsince
      · exact Or.inr (late_of_written hdrained.settled hother hrequest hbefore)
      · rcases List.mem_cons.mp hsince with hdrain | hsince
        · simp [drain] at hdrain
        · exact absurd hsince (not_mem_of_quiet hdrained.quiet)
    · simp only [List.mem_singleton, write, Prod.mk.injEq, Entry.action.injEq,
        Action.write.injEq] at hown
      exact Or.inl ⟨hown.2.1 ▸ hrequest, hbetween⟩

end

/-! ## the law -/

/-- **Whose reply a call returns.**  However the calls, their timeouts, failures and ends, and the
replies fall together: a call that returns a frame drained the inbox and then wrote its request, and
the frame is a reply to the same command that came in after the drain.  It answers the call's own
request, and came in behind that; or it is a late reply to an earlier one, whose call was over by the
drain.  No reply that had come in before the drain is returned. -/
theorem returns_own_or_late [DecidableEq ι] (send : Send π) (inbox : Inbox) (port : π)
    (history : History ι) (line : Line ι π) (run : Runs send { inbox, port } history line)
    (hcallers : (callers history).Nodup) (hanswering : Answering history)
    (past rest : History ι) (now : Time) (ticket : ι) (frame : Frame)
    (hreturns : history = past ++ (now, .action (.finish ticket (.ok frame))) :: rest) :
    ∃ front start call between, Turn past front start call between ∧ call.ticket = ticket ∧
      frame.command = call.request.command ∧
      ∃ before since, Drained front ticket before since ∧
        ∃ reply ∈ heard since ++ heard between, reply.frame = frame ∧
          (reply.request = some ticket ∧ reply ∈ heard between ∨ Late before ticket reply) ∧
          ∀ earlier ∈ heard before, earlier.request ≠ reply.request := by
  obtain ⟨line, exchange, rest', before, hstage, rfl, houtcome⟩ :=
    run.of_finish hreturns (Or.inl ⟨frame, rfl⟩)
  obtain ⟨call, start, sent, hholding, -, rfl⟩ := before.holding hstage
  obtain ⟨front, between, before, since, hturn, hdrained, hcame⟩ := hholding
  obtain ⟨hmem, hcommand⟩ : frame ∈ line.inbox.frames ∧ frame.command = call.request.command := by
    simpa [Call.exchange] using (outcome?_cases houtcome).2
  obtain ⟨reply, hreply, hframe⟩ := hcame frame hmem
  have hwriters : (writers past).Nodup := by
    have hall := run.takesTurns.once hcallers
    rw [hreturns, writers_append] at hall
    exact (List.nodup_append.mp hall).1
  rw [hreturns] at hanswering
  refine ⟨front, start, call, between, hturn, rfl, hcommand, before, since, hdrained, reply, hreply,
    hframe, hturn.own_or_late hdrained hwriters hanswering hreply, fun earlier hearlier hsame => ?_⟩
  have honce := hanswering.once
  rw [heard_append, hturn.heard_eq hdrained, List.map_append, List.map_append] at honce
  have hdisjoint := (List.nodup_append.mp (List.nodup_append.mp honce).1).2.2
  exact hdisjoint _ (List.mem_map_of_mem hearlier) _ (List.mem_map_of_mem hreply) hsame

/-- a call times out, the reply to it comes in, and another call asks the same and is answered -/
def staleReply : List (Time × Cause Nat) :=
  [(0, .calls ⟨0, ⟨7, []⟩, 100⟩), (100, .ticks), (120, .hears [⟨some 0, ⟨7, [1], 0x1462⟩⟩] false),
    (130, .calls ⟨1, ⟨7, []⟩, 100⟩), (150, .hears [⟨some 1, ⟨7, [3], 0xD5E3⟩⟩] false)]

/-- a call is dropped, another call asks the same, and then the reply to the first comes in -/
def crossingReply : List (Time × Cause Nat) :=
  [(0, .calls ⟨0, ⟨7, []⟩, 100⟩), (10, .givesUp 0), (10, .calls ⟨1, ⟨7, []⟩, 100⟩),
    (20, .hears [⟨some 0, ⟨7, [1], 0x1462⟩⟩] false)]

theorem answering_staleReply :
    Answering (record willing { inbox := .withCapacity 4, port := () } staleReply).1 where
  echoes := ⟨nofun, nofun, nofun, nofun, nofun,
    List.forall_mem_singleton.mpr ⟨0, [], 0, rfl, by simp⟩, nofun, nofun, nofun,
    List.forall_mem_singleton.mpr ⟨1, [], 130, rfl, by simp⟩, nofun, trivial⟩
  once := by decide

theorem answering_crossingReply :
    Answering (record willing { inbox := .withCapacity 4, port := () } crossingReply).1 where
  echoes := ⟨nofun, nofun, nofun, nofun, nofun, nofun, nofun,
    List.forall_mem_singleton.mpr ⟨0, [], 0, rfl, by simp⟩, nofun, trivial⟩
  once := by decide

/-- the reply to a call that had timed out is thrown away, and the next call returns its own -/
theorem returns_own_behind_stale :
    let history := (record willing { inbox := .withCapacity 4, port := () } staleReply).1
    let past := history.dropLast
    (callers history).Nodup ∧ Answering history ∧
      history = past ++ [(150, .action (.finish 1 (.ok ⟨7, [3], 0xD5E3⟩)))] ∧
      ∃ front start call between, Turn past front start call between ∧ call.ticket = 1 ∧
        ∃ before since, Drained front 1 before since ∧
          ∃ reply ∈ heard since ++ heard between, reply.frame = ⟨7, [3], 0xD5E3⟩ ∧
            (reply.request = some 1 ∧ reply ∈ heard between ∨ Late before 1 reply) ∧
            ∀ earlier ∈ heard before, earlier.request ≠ reply.request := by
  intro history past
  have hcallers : (callers history).Nodup := by decide
  have hreturns : history = past ++ [(150, .action (.finish 1 (.ok ⟨7, [3], 0xD5E3⟩)))] := rfl
  have hrun := runs_record willing { inbox := .withCapacity 4, port := () } staleReply
  obtain ⟨front, start, call, between, hturn, hticket, -, hreply⟩ :=
    returns_own_or_late willing (.withCapacity 4) () history _ hrun
      hcallers answering_staleReply past [] 150 1 _ hreturns
  exact ⟨hcallers, answering_staleReply, hreturns, front, start, call, between, hturn, hticket,
    hreply⟩

/-- A late reply that comes in behind the write of a call with the same command is returned by that
call. -/
theorem returns_late_reply :
    ¬ ∀ (send : Send Unit) (inbox : Inbox) (history : History Nat) (line : Line Nat Unit),
      Runs send { inbox, port := () } history line → (callers history).Nodup → Answering history →
      ∀ (past rest : History Nat) (now : Time) (ticket : Nat) (frame : Frame),
        history = past ++ (now, .action (.finish ticket (.ok frame))) :: rest →
          ∃ reply ∈ heard past, reply.request = some ticket ∧ reply.frame = frame := by
  intro h
  let history := (record willing { inbox := .withCapacity 4, port := () } crossingReply).1
  have hreturns : history = history.dropLast ++ [(20, .action (.finish 1 (.ok ⟨7, [1], 0x1462⟩)))] :=
    rfl
  have hrun := runs_record willing { inbox := .withCapacity 4, port := () } crossingReply
  obtain ⟨reply, hreply, hown, -⟩ := h willing (.withCapacity 4) history _ hrun (by decide)
    answering_crossingReply _ [] 20 1 _ hreturns
  have honly : heard history.dropLast = [⟨some 0, ⟨7, [1], 0x1462⟩⟩] := rfl
  rw [honly] at hreply
  rw [List.mem_singleton.mp hreply] at hown
  cases hown

/-- The drain is no guard against what comes in behind it: a reply with the command of a call that
slips in before the call writes is returned by that call, whosever it is. -/
theorem returns_what_slips_in [DecidableEq ι] (send : Send π) (now : Time) (line : Line ι π)
    (call : Call ι) (rest : List (Call ι)) (port : π) (reply : Reply ι)
    (hfree : line.stage = .free) (hqueue : line.queue = call :: rest)
    (hsent : send line.port now call.request.bytes = (port, .ok ()))
    (hcommand : reply.frame.command = call.request.command) :
    ∃ last, Runs send line (History.at now [.drains call.ticket, .cause (.hears [reply] false),
      .action (.write call.ticket call.request.bytes),
      .action (.finish call.ticket (.ok reply.frame))]) last := by
  let drained : Line ι π :=
    { line with inbox := line.inbox.drain.1, stage := .drained call, queue := rest }
  let told : Line ι π :=
    { drained with inbox := received drained.inbox [reply.frame] false }
  have hdrains : Move send now line [.drains call.ticket] drained := .drains call rest hfree hqueue
  have hhears : Move send now drained [.cause (.hears [reply] false)] told := .hears [reply] false
  have hwrites : Move send now told [.action (.write call.ticket call.request.bytes)]
      { told with stage := .writing call now } := .writes call rfl
  let holding : Line ι π := { told with port, stage := .waiting (call.exchange now) }
  have hsends : Move send now { told with stage := .writing call now } [] holding :=
    .sent call now port rfl (Nat.le_refl now) hsent
  have houtcome : outcome? now (call.exchange now) told.inbox =
      (line.inbox.drain.1, some (.ok reply.frame)) := by
    simp [outcome?, told, drained, received, Inbox.pushAll, Inbox.push, Inbox.drain, Inbox.take,
      Call.exchange, hcommand]
  have hends : Move send now holding [.action (.finish call.ticket (.ok reply.frame))]
      { holding with inbox := line.inbox.drain.1, stage := .free } :=
    .ends (call.exchange now) line.inbox.drain.1 (.ok reply.frame) rfl houtcome
  exact ⟨_, hdrains.trans (hhears.trans (hwrites.trans (hsends.trans hends.runs)))⟩

end CameraPower.Engine
