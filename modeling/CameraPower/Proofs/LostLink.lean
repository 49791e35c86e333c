import CameraPower.Proofs.EngineStep
import CameraPower.Proofs.LinkTime

/-!
# Calls on a lost link

The line has ended, or the receiver was told to stop.  From then on every call comes to its end at
the instant at which it gets the line.  It writes nothing if no frame waits in the inbox.  If frames
wait, the first call throws them away and writes its request all the same, and what it ends with is
up to the port; after that nothing is written any more.

* `Engine.grant_lost`, `Engine.grant_stale`  calls that get the line of a closed inbox;
* `Link.Reached`                             the links that callers, the line and time lead to;
* `Link.Reached.alert`                       once nothing is heard the inbox is closed, and no call
                                             is under way;
* `lost_link_ends_calls`                     the law;
* `stale_frame_reaches_port`                 a call that writes on a lost link.
-/

namespace CameraPower

/-! ## a closed inbox -/

namespace Engine
variable {ι π : Type}

/-- the end of a call on a lost link that wrote nothing -/
def turnedAway (call : Call ι) : Action ι :=
  .finish call.ticket (.error .linkClosed)

/-- what a call on a lost link ends with when it has written its request -/
def lostWith : Except PortFault Unit → Error
  | .ok () => .linkClosed
  | .error fault => .serial fault

theorem outcome?_lost (now : Time) (exchange : Exchange ι) {inbox : Inbox}
    (hclosed : inbox.closed = true) (hempty : inbox.frames = []) :
    outcome? now exchange inbox = (inbox, some (.error .linkClosed)) := by
  have htake := Inbox.take_nil hempty exchange.command
  simp only [outcome?, htake, hclosed, if_true]

theorem grant_lost (send : Send π) (now : Time) {inbox : Inbox} (hclosed : inbox.closed = true)
    (hempty : inbox.frames = []) (port : π) (calls : List (Call ι)) :
    grant send now inbox port calls = ({ inbox, port }, calls.map turnedAway) := by
  induction calls with
  | nil => rfl
  | cons call rest ih =>
    unfold grant
    simp only [hclosed, hempty, List.isEmpty_nil, Bool.and_self, if_true, ih]
    rfl

theorem grant_stale (send : Send π) (now : Time) {inbox : Inbox} (hclosed : inbox.closed = true)
    (hfull : inbox.frames ≠ []) (port : π) (call : Call ι) (rest : List (Call ι)) :
    grant send now inbox port (call :: rest) =
      ({ inbox := inbox.drain.1, port := (send port now call.request.bytes).1 },
        .write call.ticket call.request.bytes ::
          .finish call.ticket (.error (lostWith (send port now call.request.bytes).2)) ::
          rest.map turnedAway) := by
  have hdrained : inbox.drain.1.closed = true := hclosed
  have hgranted := grant_cons send now inbox port call rest
  generalize grant send now inbox port (call :: rest) = granted at hgranted ⊢
  cases hgranted with
  | skips closed => simp [hfull] at closed
  | fails port' fault sent => rw [grant_lost send now hdrained rfl, sent]; rfl
  | ends port' inbox' answer sent outcome =>
    rw [outcome?_lost _ _ hdrained rfl] at outcome
    cases outcome
    rw [grant_lost send now hdrained rfl, sent]
    rfl
  | waits port' inbox' sent outcome =>
    rw [outcome?_lost _ _ hdrained rfl] at outcome
    cases outcome

/-! ## what a step leaves -/

theorem closed_outcome? {now : Time} {exchange : Exchange ι} {inbox rest : Inbox}
    {answer? : Option Answer} (h : outcome? now exchange inbox = (rest, answer?)) :
    rest.closed = inbox.closed ∧ (inbox.closed = true → answer? ≠ none) := by
  have htake : (inbox.take exchange.command).1.closed = inbox.closed := by
    unfold Inbox.take
    split <;> rfl
  unfold outcome? at h
  split at h
  · rename_i frame hfound
    rw [hfound] at htake
    cases h
    exact ⟨htake, fun _ hnone => by cases hnone⟩
  · rename_i hmissed
    rw [hmissed] at htake
    split at h
    · cases h
      exact ⟨htake, fun _ hnone => by cases hnone⟩
    · rename_i hopen
      have hnot : inbox.closed ≠ true := htake ▸ hopen
      split at h <;> cases h <;> exact ⟨htake, fun hclosed => absurd hclosed hnot⟩

/-- the inbox is open or closed as said, and nobody waits on a closed one -/
def Cleared (closed : Bool) (engine : Engine ι π) : Prop :=
  engine.inbox.closed = closed ∧ (closed = true → engine.current = none ∧ engine.queue = [])

theorem grant_cleared (send : Send π) (now : Time) (inbox : Inbox) (port : π)
    (queue : List (Call ι)) : Cleared inbox.closed (grant send now inbox port queue).1 := by
  induction queue generalizing inbox port with
  | nil => exact ⟨rfl, fun _ => ⟨rfl, rfl⟩⟩
  | cons call rest ih =>
    have hgranted := grant_cons send now inbox port call rest
    generalize grant send now inbox port (call :: rest) = granted at hgranted ⊢
    cases hgranted with
    | skips closed => exact ih inbox port
    | fails port' fault sent => exact ih inbox.drain.1 port'
    | ends port' inbox' answer sent outcome =>
      have hsame : inbox'.closed = inbox.closed := (closed_outcome? outcome).1
      rw [← hsame]
      exact ih inbox' port'
    | waits port' inbox' sent outcome =>
      obtain ⟨hsame, hanswer⟩ := closed_outcome? outcome
      exact ⟨hsame, fun hclosed => absurd rfl (hanswer hclosed)⟩

theorem look_cleared (send : Send π) (now : Time) (engine : Engine ι π) :
    Cleared engine.inbox.closed (engine.look send now).1 := by
  cases hcurrent : engine.current with
  | none =>
    rw [look_none send now engine hcurrent]
    exact grant_cleared send now engine.inbox engine.port engine.queue
  | some exchange =>
    cases houtcome : outcome? now exchange engine.inbox with
    | mk inbox answer? =>
      obtain ⟨hsame, hanswer⟩ := closed_outcome? houtcome
      cases answer? with
      | none =>
        rw [look_waits hcurrent houtcome]
        exact ⟨hsame, fun hclosed => absurd rfl (hanswer hclosed)⟩
      | some answer =>
        rw [look_ends hcurrent houtcome, ← hsame]
        exact grant_cleared send now inbox engine.port engine.queue

theorem closed_pushAll (inbox : Inbox) (frames : List Frame) :
    (inbox.pushAll frames).closed = inbox.closed := by
  unfold Inbox.pushAll
  induction frames generalizing inbox with
  | nil => rfl
  | cons frame rest ih =>
    rw [List.foldl_cons, ih]
    unfold Inbox.push
    split
    · split <;> rfl
    · rfl

/-- the event says that nothing more comes from the line -/
def Event.closes : Event ι → Bool
  | .received _ ended => ended
  | _ => false

theorem step_cleared [DecidableEq ι] (send : Send π) (now : Time) (engine : Engine ι π)
    (event : Event ι) :
    Cleared (engine.inbox.closed || event.closes) (engine.step send now event).1 := by
  cases event with
  | call call =>
    have hsame : (engine.arrive call).1.inbox = engine.inbox := by
      rcases arrive_cases engine call with ⟨-, harrive⟩ | ⟨size, -, harrive⟩ <;> rw [harrive]
    show Cleared (engine.inbox.closed || false) _
    rw [Bool.or_false, ← hsame]
    exact look_cleared send now (engine.arrive call).1
  | received frames ended =>
    have hclosed : (received engine.inbox frames ended).closed = (engine.inbox.closed || ended) := by
      unfold received
      cases ended <;> simp [Inbox.close, closed_pushAll]
    show Cleared (engine.inbox.closed || ended) _
    rw [← hclosed]
    exact look_cleared send now { engine with inbox := received engine.inbox frames ended }
  | clock =>
    show Cleared (engine.inbox.closed || false) _
    rw [Bool.or_false]
    exact look_cleared send now engine
  | abandon ticket =>
    show Cleared (engine.inbox.closed || false) _
    rw [Bool.or_false]
    exact look_cleared send now (engine.forget ticket)

end Engine

/-! ## links -/

namespace Link
variable {ι : Type} [DecidableEq ι]

/-- the links that callers, the line, stopping and time lead to -/
inductive Reached : Link ι → Prop
  | start (device : Device) (limit room : Nat) : Reached (start device limit room)
  | begins {link : Link ι} (call : Engine.Call ι) : Reached link → Reached (link.begin call)
  | abandons {link : Link ι} (ticket : ι) :
    Reached link → Reached (link.perform (.abandon ticket))
  | hears {link : Link ι} (events : List LineEvent) : Reached link → Reached (link.hear events)
  | stops {link : Link ι} : Reached link → Reached link.stop
  | settles {link : Link ι} : Reached link → Reached link.settle
  | jumps {link : Link ι} (time : Time) : Reached link → Reached (link.jump time)
  | passes {link : Link ι} (stop : Link ι → Bool) (instant : Time) :
    Reached link → Reached (link.advance stop instant)
  | collects {link : Link ι} : Reached link → Reached link.collect.2

/-- once nothing is heard the inbox is closed, and then no call is under way -/
structure Alert (link : Link ι) : Prop where
  closes : link.receiver.running = false → link.engine.inbox.closed = true
  clears : link.engine.inbox.closed = true →
    link.engine.current = none ∧ link.engine.queue = []

variable {link : Link ι}

theorem alert_perform (receiver : Receiver) (event : Engine.Event ι)
    (hcloses : receiver.running = false →
      (link.engine.inbox.closed || event.closes) = true) :
    Alert ({ link with receiver }.perform event) := by
  obtain ⟨hclosed, hclears⟩ := Engine.step_cleared Wire.send link.now link.engine event
  exact ⟨fun hstopped => hclosed.trans (hcloses hstopped), fun h => hclears (hclosed ▸ h)⟩

theorem Alert.perform (h : Alert link) (event : Engine.Event ι) : Alert (link.perform event) :=
  alert_perform link.receiver event fun hstopped => by rw [h.closes hstopped, Bool.true_or]

theorem Alert.hear (h : Alert link) (events : List LineEvent) : Alert (link.hear events) := by
  show Alert (({ link with receiver := (link.receiver.hearAll events).1 } : Link ι).perform
    (.received _ (link.receiver.running && !(link.receiver.hearAll events).1.running)))
  refine alert_perform _ _ fun hstopped => ?_
  cases hrunning : link.receiver.running with
  | false => rw [h.closes hrunning, Bool.true_or]
  | true => simp [Engine.Event.closes, hstopped]

theorem Alert.lasting : Lasting (Alert (ι := ι)) where
  clock _ h := h.perform .clock
  hearDue link h := by
    let agenda := (link.engine.port.agenda.takeDue link.now).2
    have hquiet : Alert { link with
        engine := { link.engine with port := { link.engine.port with agenda } } } :=
      ⟨h.closes, h.clears⟩
    exact hquiet.hear _
  time _ _ h := ⟨h.closes, h.clears⟩

theorem Reached.alert (h : Reached link) : Alert link := by
  induction h with
  | start device limit room => exact ⟨nofun, nofun⟩
  | begins call _ ih => exact ih.perform (.call call)
  | abandons ticket _ ih => exact ih.perform (.abandon ticket)
  | hears events _ ih => exact ih.hear events
  | @stops link _ ih =>
    unfold Link.stop
    split
    · exact alert_perform _ _ fun _ => Bool.or_true _
    · exact ih
  | settles _ ih => exact Alert.lasting.settle ih
  | jumps time _ ih => exact Alert.lasting.jump ih time
  | passes stop instant _ ih => exact Alert.lasting.advance ih stop instant
  | collects _ ih => exact ⟨ih.closes, ih.clears⟩

/-- what a lost link makes of a call as it begins -/
theorem begin_lost (link : Link ι) (hclosed : link.engine.inbox.closed = true)
    (hcurrent : link.engine.current = none) (hqueue : link.engine.queue = [])
    (call : Engine.Call ι) (hfits : call.request.payload.length ≤ Frame.maxPayload) :
    link.begin call =
      if link.engine.inbox.frames.isEmpty then
        { link with finished := link.finished ++ [⟨call.ticket, link.now, .error .linkClosed⟩] }
      else
        let (port, result) := Wire.send link.engine.port link.now call.request.bytes
        { link with
          engine := { link.engine with inbox := link.engine.inbox.drain.1, port }
          finished := link.finished ++
            [⟨call.ticket, link.now, .error (Engine.lostWith result)⟩] } := by
  have hidle : ∀ inbox port, ({ inbox, port } : Engine ι Wire) =
      { link.engine with inbox, port } := by
    intro inbox port
    simp only [hcurrent, hqueue]
  rw [begin_idle link hcurrent hqueue call hfits]
  by_cases hempty : link.engine.inbox.frames = []
  · rw [Engine.grant_lost _ _ hclosed hempty, if_pos (List.isEmpty_iff.mpr hempty), hidle]
    rfl
  · rw [Engine.grant_stale _ _ hclosed hempty, if_neg (mt List.isEmpty_iff.mp hempty), hidle]
    rfl

/-- **Calls on a lost link.**  Whoever gets the line when the inbox is closed comes to its end at that
instant.  If no frame waits, all are turned away and nothing is written.  If frames wait they are
thrown away, and the first writes its request: it ends as lost too, or with the port's failure; the
others are turned away.

On a link that hears nothing more, whatever led there, the inbox is closed and no call is under way.
So a call that fits a frame gets the line and comes to its end as it begins. -/
theorem lost_link_ends_calls :
    (∀ {π : Type} (send : Send π) (now : Time) (inbox : Inbox) (port : π) (call : Engine.Call ι)
      (rest : List (Engine.Call ι)), inbox.closed = true →
      Engine.grant send now inbox port (call :: rest) =
        if inbox.frames.isEmpty then
          ({ inbox, port }, Engine.turnedAway call :: rest.map Engine.turnedAway)
        else
          let (after, result) := send port now call.request.bytes
          ({ inbox := inbox.drain.1, port := after },
            .write call.ticket call.request.bytes ::
              .finish call.ticket (.error (Engine.lostWith result)) ::
              rest.map Engine.turnedAway)) ∧
      ∀ (link : Link ι), Reached link → link.receiver.running = false →
        link.engine.inbox.closed = true ∧ link.engine.current = none ∧ link.engine.queue = [] ∧
        ∀ call : Engine.Call ι, call.request.payload.length ≤ Frame.maxPayload →
          link.begin call =
            if link.engine.inbox.frames.isEmpty then
              { link with
                finished := link.finished ++ [⟨call.ticket, link.now, .error .linkClosed⟩] }
            else
              let (port, result) := Wire.send link.engine.port link.now call.request.bytes
              { link with
                engine := { link.engine with inbox := link.engine.inbox.drain.1, port }
                finished := link.finished ++
                  [⟨call.ticket, link.now, .error (Engine.lostWith result)⟩] } := by
  constructor
  · intro π send now inbox port call rest hclosed
    split
    · rename_i hempty
      exact Engine.grant_lost send now hclosed (List.isEmpty_iff.mp hempty) port (call :: rest)
    · rename_i hfull
      exact Engine.grant_stale send now hclosed (mt List.isEmpty_iff.mpr hfull) port call rest
  · intro link hreached hstopped
    have hclosed := hreached.alert.closes hstopped
    obtain ⟨hcurrent, hqueue⟩ := hreached.alert.clears hclosed
    exact ⟨hclosed, hcurrent, hqueue, begin_lost link hclosed hcurrent hqueue⟩

/-- a link whose line has ended with a frame in the inbox, and whose port cannot be flushed -/
def orphaned : Link Nat :=
  let device : Device := { script := fun _ => some { fault := some (.flush (.other "gone")) } }
  ((start device 144 4).hear [.bytes (Frame.bytes 4 [])]).hear [.ended]

theorem reached_orphaned : Reached orphaned := by
  unfold orphaned
  exact .hears _ (.hears _ (.start ..))

theorem orphaned_stands :
    orphaned.receiver.running = false ∧ orphaned.engine.inbox.frames.isEmpty = false ∧
      orphaned.engine.port.sent = #[] ∧
      (orphaned.begin ⟨0, ⟨4, []⟩, 100⟩).engine.port.sent = #[(0, Frame.bytes 4 [])] ∧
      (Wire.send orphaned.engine.port orphaned.now (Frame.bytes 4 [])).2.toOption = none := by
  decide +kernel

theorem send_orphaned : ∃ fault,
    (Wire.send orphaned.engine.port orphaned.now (Frame.bytes 4 [])).2 = .error fault := by
  obtain ⟨-, -, -, -, hfailed⟩ := orphaned_stands
  cases hresult : (Wire.send orphaned.engine.port orphaned.now (Frame.bytes 4 [])).2 with
  | error fault => exact ⟨fault, rfl⟩
  | ok =>
    rw [hresult] at hfailed
    cases hfailed

/-- the call throws the frame away, writes, and ends with the port's failure -/
theorem lost_link_ends_calls_orphaned :
    Reached orphaned ∧ orphaned.receiver.running = false ∧
      (orphaned.begin ⟨0, ⟨4, []⟩, 100⟩).engine.port.sent = #[(0, Frame.bytes 4 [])] ∧
      ∃ fault, (orphaned.begin ⟨0, ⟨4, []⟩, 100⟩).finished =
        orphaned.finished ++ [⟨0, orphaned.now, .error (.serial fault)⟩] := by
  obtain ⟨hstopped, hfull, -, hsent, -⟩ := orphaned_stands
  obtain ⟨fault, hfault⟩ := send_orphaned
  have hbegin := (lost_link_ends_calls.2 orphaned reached_orphaned hstopped).2.2.2
    ⟨0, ⟨4, []⟩, 100⟩ (by decide)
  rw [hfull] at hbegin
  refine ⟨reached_orphaned, hstopped, hsent, fault, ?_⟩
  -- a closed link would be evaluated here
  generalize orphaned = link at hbegin hfault ⊢
  rw [hbegin]
  simp [Request.bytes, hfault, Engine.lostWith]

/-- A frame that was left in the inbox lets a call on a lost link get to the port, and end as the
port does. -/
theorem stale_frame_reaches_port :
    ¬ ∀ (link : Link Nat) (call : Engine.Call Nat), Reached link → link.receiver.running = false →
      call.request.payload.length ≤ Frame.maxPayload →
      (link.begin call).finished =
          link.finished ++ [⟨call.ticket, link.now, .error .linkClosed⟩] ∧
        (link.begin call).engine.port.sent = link.engine.port.sent := by
  intro h
  obtain ⟨hstopped, -, hunsent, hsent, -⟩ := orphaned_stands
  obtain ⟨-, hkept⟩ := h orphaned ⟨0, ⟨4, []⟩, 100⟩ reached_orphaned hstopped (by decide)
  rw [hsent, hunsent] at hkept
  cases hkept

end Link
end CameraPower
