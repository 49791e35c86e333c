import CameraPower.Proofs.Conversation
import CameraPower.Proofs.EngineStep
import CameraPower.Proofs.LinkTime

/-!
# One caller on a link

What a call can come to, and what it can put on the line, when nobody else uses the link: whatever
the controller does, with whatever delay, and whether or not the line ends.

* `Link.AtRest`           no call is under way, none waits, no end of one is unread;
* `Link.Serving`          the link from the moment a call has begun until its end is read;
* `AtRest.call_spec`      one call, from rest to rest;
* `AtRest.over_spec`      a whole conversation.
-/

set_option linter.unusedSectionVars false

namespace CameraPower

namespace Engine
variable {ι π : Type}

/-- what a call may end with: the reply to its command, a timeout of its own, a closed link, a port
that failed, or a payload that fits no frame -/
def Ends (command : UInt8) (timeout : Time) : Answer → Prop
  | .ok frame => frame.command = command
  | .error error => error = .timeout command timeout ∨ error = .linkClosed ∨
      (∃ fault, error = .serial fault) ∨ ∃ size, error = .payloadTooLarge size

theorem ends_of_outcome? {now : Time} {exchange : Exchange ι} {inbox rest : Inbox}
    {answer : Answer} (h : outcome? now exchange inbox = (rest, some answer)) :
    Ends exchange.command exchange.timeout answer := by
  rcases (outcome?_cases h).2 with ⟨frame, -, hcommand, hok⟩ | hclosed | ⟨-, hlate⟩ | ⟨-, hnone⟩
  · rw [Option.some.inj hok]
    exact hcommand
  · rw [Option.some.inj hclosed]
    exact Or.inr (Or.inl rfl)
  · rw [Option.some.inj hlate]
    exact Or.inl rfl
  · cases hnone

/-- The ways in which a call can begin on an engine with nothing else to do: the new engine, and
what it did. -/
inductive Begun (send : Send π) (now : Time) (engine : Engine ι π) (call : Call ι) :
    Engine ι π × List (Action ι) → Prop
  /-- it ends at once, and nothing is written -/
  | refused (error : Error) (ends : Ends call.request.command call.timeout (.error error)) :
    Begun send now engine call
      ({ inbox := engine.inbox, port := engine.port }, [.finish call.ticket (.error error)])
  /-- the port fails -/
  | failed (bytes : List UInt8) (fault : PortFault)
    (frame : bytes = call.request.bytes)
    (sent : (send engine.port now bytes).2 = .error fault) :
    Begun send now engine call
      ({ inbox := engine.inbox.drain.1, port := (send engine.port now bytes).1 },
        [.write call.ticket bytes, .finish call.ticket (.error (.serial fault))])
  /-- it waits for its reply -/
  | waiting (bytes : List UInt8) (inbox : Inbox)
    (frame : bytes = call.request.bytes)
    (sent : (send engine.port now bytes).2 = .ok ()) :
    Begun send now engine call
      ({ inbox, port := (send engine.port now bytes).1,
         current := some ⟨call.ticket, call.request.command, call.timeout, now + call.timeout⟩ },
        [.write call.ticket bytes])
  /-- it has been written and ends at once -/
  | ended (bytes : List UInt8) (inbox : Inbox) (answer : Answer)
    (frame : bytes = call.request.bytes)
    (sent : (send engine.port now bytes).2 = .ok ())
    (ends : Ends call.request.command call.timeout answer) :
    Begun send now engine call
      ({ inbox, port := (send engine.port now bytes).1 },
        [.write call.ticket bytes, .finish call.ticket answer])

theorem grant_one (send : Send π) (now : Time) (engine : Engine ι π) (call : Call ι) :
    Begun send now engine call (grant send now engine.inbox engine.port [call]) := by
  have hgranted := grant_cons send now engine.inbox engine.port call []
  generalize grant send now engine.inbox engine.port [call] = granted at hgranted ⊢
  cases hgranted with
  | skips closed => exact .refused .linkClosed (Or.inr (Or.inl rfl))
  | fails port fault sent =>
    have hfailed : Begun send now engine call _ :=
      .failed call.request.bytes fault rfl (congrArg Prod.snd sent)
    rw [sent] at hfailed
    exact hfailed
  | ends port inbox answer sent outcome =>
    have hended : Begun send now engine call _ :=
      .ended call.request.bytes inbox answer rfl (congrArg Prod.snd sent) (ends_of_outcome? outcome)
    rw [sent] at hended
    exact hended
  | waits port inbox sent outcome =>
    have hwaiting : Begun send now engine call _ :=
      .waiting call.request.bytes inbox rfl (congrArg Prod.snd sent)
    rw [sent] at hwaiting
    exact hwaiting

theorem step_call_idle [DecidableEq ι] (send : Send π) (now : Time) (engine : Engine ι π)
    (hcurrent : engine.current = none) (hqueue : engine.queue = []) (call : Call ι) :
    Begun send now engine call (engine.step send now (.call call)) := by
  unfold step
  rcases arrive_cases engine call with ⟨-, harrive⟩ | ⟨size, -, harrive⟩
  · simp only [harrive, hqueue, List.nil_append]
    rw [look_none send now { engine with queue := [call] } hcurrent]
    exact grant_one send now engine call
  · simp only [harrive, look_none send now engine hcurrent, hqueue, grant, List.append_nil]
    exact .refused (.payloadTooLarge size) (Or.inr (Or.inr (Or.inr ⟨size, rfl⟩)))

end Engine

namespace Link
variable {ι : Type} [DecidableEq ι]

/-- the frames that were put on the line, in order -/
def carried (link : Link ι) : List (List UInt8) :=
  link.engine.port.sent.toList.map Prod.snd

/-- no call is under way, none waits for its turn, and no end of one is unread -/
structure AtRest (link : Link ι) : Prop where
  current : link.engine.current = none
  queue : link.engine.queue = []
  finished : link.finished = []

/-- A call of `ticket` is under way or has ended with a `good` answer; nobody waits, and `lines` is
what has been put on the line so far. -/
structure Serving (ticket : ι) (good : Answer → Prop) (lines : List (List UInt8)) (link : Link ι) :
    Prop where
  queue : link.engine.queue = []
  carried : link.carried = lines
  ends : ∀ ended ∈ link.finished, good ended.answer
  current : ∀ exchange, link.engine.current = some exchange → exchange.ticket = ticket ∧
    link.finished = [] ∧ ∀ answer, Engine.Ends exchange.command exchange.timeout answer → good answer

section
variable {ticket : ι} {good : Answer → Prop} {lines : List (List UInt8)} {link : Link ι}

theorem AtRest.serving (h : link.AtRest) (ticket : ι) (good : Answer → Prop) :
    Serving ticket good link.carried link where
  queue := h.queue
  carried := rfl
  ends := by simp [h.finished]
  current := by simp [h.current]

theorem Serving.atRest (h : Serving ticket (fun _ => False) lines link) : link.AtRest where
  current := by
    cases hcur : link.engine.current with
    | none => rfl
    | some exchange =>
      obtain ⟨-, -, hgood⟩ := h.current exchange hcur
      exact (hgood (.error .linkClosed) (Or.inr (Or.inl rfl))).elim
  queue := h.queue
  finished := by
    cases hfin : link.finished with
    | nil => rfl
    | cons ended rest => exact (h.ends ended (by simp [hfin])).elim

/-! ## what time and the controller can do -/

theorem carried_same {link' : Link ι}
    (hsent : link'.engine.port.sent = link.engine.port.sent) : link'.carried = link.carried := by
  simp only [Link.carried, hsent]

/-- only the queue, the call under way, its end and the line matter -/
theorem Serving.congr {link' : Link ι} (h : Serving ticket good lines link)
    (hqueue : link'.engine.queue = link.engine.queue)
    (hsent : link'.engine.port.sent = link.engine.port.sent)
    (hfinished : link'.finished = link.finished)
    (hcurrent : link'.engine.current = link.engine.current) : Serving ticket good lines link' where
  queue := hqueue.trans h.queue
  carried := (carried_same hsent).trans h.carried
  ends := by rw [hfinished]; exact h.ends
  current := by rw [hfinished, hcurrent]; exact h.current

theorem Serving.look (h : Serving ticket good lines link) :
    Serving ticket good lines
      { link with
        engine := (link.engine.look Wire.send link.now).1
        finished := link.finished ++ endsAt link.now (link.engine.look Wire.send link.now).2 } := by
  cases hcur : link.engine.current with
  | none =>
    have hlook : link.engine.look Wire.send link.now =
        ({ inbox := link.engine.inbox, port := link.engine.port }, []) := by
      rw [Engine.look_none _ _ _ hcur, h.queue]
      rfl
    rw [hlook]
    exact h.congr h.queue.symm rfl (List.append_nil _) hcur.symm
  | some exchange =>
    obtain ⟨hticket, hfinished, hgood⟩ := h.current exchange hcur
    cases hout : Engine.outcome? link.now exchange link.engine.inbox with
    | mk inbox answer? =>
      cases answer? with
      | none =>
        rw [Engine.look_waits hcur hout]
        exact h.congr rfl rfl (List.append_nil _) rfl
      | some answer =>
        rw [Engine.look_ends hcur hout, h.queue, hfinished]
        refine ⟨rfl, h.carried, fun ended hended => ?_, fun _ hnone => by cases hnone⟩
        rw [List.mem_singleton.mp hended]
        exact hgood answer (Engine.ends_of_outcome? hout)

theorem Serving.received (h : Serving ticket good lines link) (frames : List Frame)
    (ended : Bool) : Serving ticket good lines (link.perform (.received frames ended)) := by
  let inbox := link.engine.inbox.pushAll frames
  let heard : Link ι :=
    { link with engine := { link.engine with inbox := if ended then inbox.close else inbox } }
  have h' : Serving ticket good lines heard := h.congr rfl rfl rfl rfl
  exact h'.look

theorem Serving.clock (h : Serving ticket good lines link) :
    Serving ticket good lines (link.perform .clock) :=
  h.look

theorem Serving.hear (h : Serving ticket good lines link) (events : List LineEvent) :
    Serving ticket good lines (link.hear events) := by
  have h' : Serving ticket good lines
      { link with receiver := (link.receiver.hearAll events).1 } := h.congr rfl rfl rfl rfl
  exact h'.received _ _

theorem Serving.hearDue (h : Serving ticket good lines link) :
    Serving ticket good lines link.hearDue := by
  let agenda := (link.engine.port.agenda.takeDue link.now).2
  let quiet : Link ι :=
    { link with engine := { link.engine with port := { link.engine.port with agenda } } }
  have h' : Serving ticket good lines quiet := h.congr rfl rfl rfl rfl
  exact h'.hear _

theorem Serving.lasting : Lasting (Serving (ι := ι) ticket good lines) where
  clock _ h := h.clock
  hearDue _ h := h.hearDue
  time _ _ h := h.congr rfl rfl rfl rfl

/-! ## a call -/

theorem sent_send (wire : Wire) (now : Time) (bytes : List UInt8) :
    (Wire.send wire now bytes).1.sent = wire.sent.push (now, bytes) ∨
      ((Wire.send wire now bytes).1.sent = wire.sent ∧
        ∃ fault, (Wire.send wire now bytes).2 = .error fault) := by
  unfold Wire.send
  cases Frame.decode? bytes with
  | error error => exact Or.inl rfl
  | ok request =>
    cases hfault : (wire.device.react request.command request.payload).2.fault with
    | none => simp [hfault]
    | some fault =>
      cases fault with
      | write fault => simp [hfault]
      | flush fault => simp [hfault]

theorem sent_of_ok {wire : Wire} {now : Time} {bytes : List UInt8}
    (h : (Wire.send wire now bytes).2 = .ok ()) :
    (Wire.send wire now bytes).1.sent = wire.sent.push (now, bytes) := by
  rcases sent_send wire now bytes with hsent | ⟨-, fault, hfault⟩
  · exact hsent
  · rw [hfault] at h
    cases h

theorem carried_push {link' : Link ι} {time : Time} {bytes : List UInt8} {request : Request}
    (hsent : link'.engine.port.sent = link.engine.port.sent.push (time, bytes))
    (hframe : bytes = request.bytes) :
    link'.carried = link.carried ++ [request.bytes] := by
  simp only [Link.carried, hsent, Array.toList_push, List.map_append, List.map_cons, List.map_nil,
    hframe]

/-- The beginning of a call on a link at rest: its request is put on the line, or it has failed. -/
theorem AtRest.begin (h : link.AtRest) (ticket : ι) (timeout : Time) (request : Request) :
    Serving ticket (Engine.Ends request.command timeout)
        (link.carried ++ [request.bytes])
        (link.begin ⟨ticket, request, timeout⟩) ∨
      Serving ticket
        (fun answer => Engine.Ends request.command timeout answer ∧ ∃ error, answer = .error error)
        link.carried (link.begin ⟨ticket, request, timeout⟩) := by
  let call : Engine.Call ι := ⟨ticket, request, timeout⟩
  have hbegin := Engine.step_call_idle Wire.send link.now link.engine h.current h.queue call
  unfold Link.begin Link.perform
  generalize link.engine.step Wire.send link.now (.call call) = outcome at hbegin ⊢
  cases hbegin with
  | refused error ends =>
    refine Or.inr ⟨rfl, rfl, fun ended hended => ?_, fun _ hnone => by cases hnone⟩
    rw [h.finished] at hended
    rw [List.mem_singleton.mp hended]
    exact ⟨ends, error, rfl⟩
  | failed bytes fault frame sent =>
    have hends : ∀ ended ∈ link.finished ++
        endsAt link.now [.write ticket bytes, .finish ticket (.error (.serial fault))],
        Engine.Ends request.command timeout ended.answer ∧ ∃ error, ended.answer = .error error := by
      intro ended hended
      rw [h.finished] at hended
      rw [List.mem_singleton.mp hended]
      exact ⟨Or.inr (Or.inr (Or.inl ⟨fault, rfl⟩)), _, rfl⟩
    rcases sent_send link.engine.port link.now bytes with hsent | ⟨hsent, -⟩
    · exact Or.inl ⟨rfl, carried_push hsent frame, fun ended h => (hends ended h).1,
        fun _ hnone => by cases hnone⟩
    · exact Or.inr ⟨rfl, carried_same hsent, hends, fun _ hnone => by cases hnone⟩
  | waiting bytes inbox frame sent =>
    have hsent := sent_of_ok sent
    refine Or.inl ⟨rfl, carried_push hsent frame, fun ended hended => ?_, fun exchange hcur => ?_⟩
    · rw [h.finished] at hended
      cases hended
    · cases hcur
      exact ⟨rfl, by rw [h.finished]; rfl, fun _ ends => ends⟩
  | ended bytes inbox answer frame sent ends =>
    have hsent := sent_of_ok sent
    refine Or.inl ⟨rfl, carried_push hsent frame, fun ended hended => ?_,
      fun _ hnone => by cases hnone⟩
    rw [h.finished] at hended
    rw [List.mem_singleton.mp hended]
    exact ends

theorem Serving.served (h : Serving ticket good lines link) {ended : Finished ι}
    {rest : List (Finished ι)} (hfinished : link.finished = ended :: rest) :
    Serving ticket (fun _ => False) lines { link with finished := [] } where
  queue := h.queue
  carried := h.carried
  ends := by simp
  current := by
    intro exchange hcur
    obtain ⟨-, hnone, -⟩ := h.current exchange hcur
    rw [hfinished] at hnone
    cases hnone

/-- a caller who gives up leaves the link at rest -/
theorem Serving.abandoned (h : Serving ticket good lines link) (hfinished : link.finished = []) :
    Serving ticket (fun _ => False) lines (link.perform (.abandon ticket)) := by
  let left : Link ι := { link with engine := link.engine.forget ticket }
  have hcur : left.engine.current = none := by
    show link.engine.current.filter (·.ticket ≠ ticket) = none
    cases hcur : link.engine.current with
    | none => rfl
    | some exchange => simp [(h.current exchange hcur).1]
  have hqueue : left.engine.queue = [] := by
    show link.engine.queue.filter (·.ticket ≠ ticket) = []
    rw [h.queue]
    rfl
  have hleft : Serving ticket (fun _ => False) lines left :=
    ⟨hqueue, h.carried, by simp [left, hfinished], by simp [hcur]⟩
  exact hleft.look

/-- from the beginning of a call to its end -/
theorem Serving.exchange {timeout : Time} {request : Request} (giveUp : Option Time)
    (h : Serving ticket good lines (link.begin ⟨ticket, request, timeout⟩)) :
    Serving ticket (fun _ => False) lines (link.exchange ticket timeout giveUp request).1 ∧
      ∀ answer, (link.exchange ticket timeout giveUp request).2 = some answer → good answer := by
  unfold Link.exchange
  simp only
  generalize giveUp.getD ((link.begin ⟨ticket, request, timeout⟩).now + timeout) = patience
  generalize hsettled : (if (link.begin ⟨ticket, request, timeout⟩).now < patience then
    (link.begin ⟨ticket, request, timeout⟩).settle
    else link.begin ⟨ticket, request, timeout⟩) = settled
  have hserving : Serving ticket good lines settled := by
    rw [← hsettled]
    split
    · exact Serving.lasting.settle h
    · exact h
  have hend := Serving.lasting.advance hserving idle patience
  split
  · rename_i ended rest hfinished
    refine ⟨Serving.lasting.settle (hend.served hfinished), fun answer hans => ?_⟩
    rw [← Option.some.inj hans]
    exact hend.ends ended (by simp [hfinished])
  · rename_i hfinished
    exact ⟨Serving.lasting.settle (hend.abandoned hfinished), fun _ hnone => by cases hnone⟩

/-- **One call**: it leaves the link at rest, it ends in one of the ways in which calls end, and its
request was put on the line unless it failed. -/
theorem AtRest.call_spec (h : link.AtRest) (ticket : ι) (timeout : Time) (request : Request) :
    (link.call ticket timeout request).1.AtRest ∧
      Engine.Ends request.command timeout (link.call ticket timeout request).2 ∧
      ((link.call ticket timeout request).1.carried =
          link.carried ++ [request.bytes] ∨
        ((link.call ticket timeout request).1.carried = link.carried ∧
          ∃ error, (link.call ticket timeout request).2 = .error error)) := by
  unfold Link.call
  simp only
  have hclosed : Engine.Ends request.command timeout (.error .linkClosed) := Or.inr (Or.inl rfl)
  rcases h.begin ticket timeout request with hwritten | hfailed
  · obtain ⟨hrest, hgood⟩ := hwritten.exchange none
    refine ⟨hrest.atRest, ?_, Or.inl hrest.carried⟩
    cases hans : (link.exchange ticket timeout none request).2 with
    | none => exact hclosed
    | some answer => exact hgood answer hans
  · obtain ⟨hrest, hgood⟩ := hfailed.exchange none
    cases hans : (link.exchange ticket timeout none request).2 with
    | none => exact ⟨hrest.atRest, hclosed, Or.inr ⟨hrest.carried, _, rfl⟩⟩
    | some answer =>
      obtain ⟨hends, herror⟩ := hgood answer hans
      exact ⟨hrest.atRest, hends, Or.inr ⟨hrest.carried, herror⟩⟩

theorem AtRest.pause_spec (h : link.AtRest) (ticket : ι) (ms : Time) :
    (link.pause ms).AtRest ∧ (link.pause ms).carried = link.carried := by
  have hserving : Serving ticket (fun _ => False) link.carried (link.pause ms) :=
    Serving.lasting.advance (h.serving ticket fun _ => False) _ _
  exact ⟨hserving.atRest, hserving.carried⟩

/-! ## a conversation -/

/-- what exchanges put on the line: every request whose call did not fail, and of the others some -/
inductive Lines : List Exchanged → List (List UInt8) → Prop
  | nil : Lines [] []
  | written {request : Request} {answer : Answer} {rest : List Exchanged}
      {lines : List (List UInt8)} (more : Lines rest lines) :
      Lines (⟨request, answer⟩ :: rest) (request.bytes :: lines)
  | unwritten {request : Request} {answer : Answer} {rest : List Exchanged}
      {lines : List (List UInt8)} (failed : ∃ error, answer = .error error)
      (more : Lines rest lines) : Lines (⟨request, answer⟩ :: rest) lines

/-- **A conversation over a link at rest** leaves it at rest; all its calls end as calls do, and the
line has carried their requests, less those that failed before they were written. -/
theorem AtRest.over_spec {α : Type} (h : link.AtRest) (ticket : ι) (timeout : Time) (d : Dialogue α) :
    (d.over (peer ticket timeout) link).peer.AtRest ∧
      (∀ exchanged ∈ (d.over (peer ticket timeout) link).exchanges,
        Engine.Ends exchanged.request.command timeout exchanged.answer) ∧
      ∃ lines, Lines (d.over (peer ticket timeout) link).exchanges lines ∧
        (d.over (peer ticket timeout) link).peer.carried = link.carried ++ lines := by
  induction d generalizing link with
  | done a => exact ⟨h, by simp [Dialogue.over], [], .nil, (List.append_nil _).symm⟩
  | ask request next ih =>
    obtain ⟨hrest, hends, hline⟩ := h.call_spec ticket timeout request
    obtain ⟨hrest', hends', lines, hlines, hcarried⟩ := ih (link.call ticket timeout request).2 hrest
    refine ⟨hrest', fun exchanged hmem => ?_, ?_⟩
    · rcases List.mem_cons.mp hmem with rfl | hmem
      · exact hends
      · exact hends' exchanged hmem
    · rcases hline with hline | ⟨hline, hfailed⟩
      · rw [hline, List.append_assoc] at hcarried
        exact ⟨_, .written hlines, hcarried⟩
      · rw [hline] at hcarried
        exact ⟨lines, .unwritten hfailed hlines, hcarried⟩
  | pause ms next ih =>
    obtain ⟨hrest, hcarried⟩ := h.pause_spec ticket ms
    obtain ⟨hrest', hends', lines, hlines, hcarried'⟩ := ih hrest
    refine ⟨hrest', hends', lines, hlines, ?_⟩
    rw [← hcarried]
    exact hcarried'

end
end Link
end CameraPower
