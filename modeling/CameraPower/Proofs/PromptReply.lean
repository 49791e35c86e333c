import CameraPower.Proofs.CallInTime
import CameraPower.Proofs.WholeFrames

/-!
# A controller that answers at once

A caller who has a link to such a controller to himself gets the proper reply to every request, and
finds the link afterwards as it was.  On the way the request and its reply are encoded and decoded.

* `Wire.send_prompt`  its reply comes in at the instant at which the request was sent;
* `Link.Ready`        the link between two calls;
* `Ready.call`        one call.
-/

set_option linter.unusedSectionVars false

namespace CameraPower

/-! ## a request on the line -/

/-- The controller that does nothing but answer, with the proper replies: what it makes of a request,
and what then comes back over a line on which nothing is on its way. -/
theorem Wire.send_prompt {settings after : Device.Settings} {command : UInt8}
    {payload reply : List UInt8} (hanswer : settings.answer command payload = (after, some reply))
    (hpayload : payload.length ≤ Frame.maxPayload) (hreply : reply.length ≤ Frame.maxPayload)
    (requests : Nat) (sent : Array (Time × List UInt8)) (now : Time) :
    Wire.send { device := { settings, requests }, sent } now (Frame.bytes command payload) =
      ({ device := { settings := after, requests := requests + 1 }
         agenda := ⟨[(now, .bytes (Frame.bytes command reply))]⟩
         sent := sent.push (now, Frame.bytes command payload) }, .ok ()) := by
  have hreact : ({ settings, requests } : Device).react command payload =
      ({ settings := after, requests := requests + 1 },
        { replies := [(0, Frame.bytes command reply)] }) := by
    simp [Device.react, Device.ignores, Device.replyWith, hanswer, Frame.encode?_of_le hreply]
  simp [send, Frame.decode?_bytes hpayload, hreact, Agenda.insertAll, Agenda.insert,
    Agenda.insertEntry]

/-! ## its reply -/

/-- a receiver that waits for a start byte hears a frame -/
theorem Receiver.hearAll_frame {receiver : Receiver} {limit : Nat}
    (hrunning : receiver.running = true) (hdecoder : receiver.decoder = ⟨limit, .start⟩)
    (hmax : limit ≤ Frame.maxLength) {command : UInt8} {payload : List UInt8}
    (hlimit : 1 + payload.length ≤ limit) :
    receiver.hearAll [.bytes (Frame.bytes command payload)] =
      ({ receiver with published := receiver.published + 1 },
        [⟨command, payload, Frame.checksum command payload⟩]) := by
  have hfeed : receiver.decoder.feedAll (Frame.bytes command payload) =
      (receiver.decoder, [⟨command, payload, Frame.checksum command payload⟩]) := by
    rw [hdecoder, Decoder.feedAll_bytes hlimit hmax]
  simp [hearAll, hear, hrunning, hfeed]

/-- A call looks at an inbox with just the reply to its command. -/
theorem Engine.look_replied {ι π : Type} (send : Send π) (now : Time) {engine : Engine ι π}
    {exchange : Exchange ι} {frame : Frame} (hcurrent : engine.current = some exchange)
    (hqueue : engine.queue = []) (hframes : engine.inbox.frames = [frame])
    (hcommand : frame.command = exchange.command) :
    engine.look send now =
      ({ inbox := { engine.inbox with frames := [] }, port := engine.port },
        [.finish exchange.ticket (.ok frame)]) := by
  have houtcome : outcome? now exchange engine.inbox =
      ({ engine.inbox with frames := [] }, some (.ok frame)) := by
    simp [outcome?, Inbox.take, hframes, hcommand]
  rw [look_ends hcurrent houtcome, hqueue, grant]

namespace Link
variable {ι : Type} [DecidableEq ι]

/-- The reply to the only call comes in now. -/
theorem Waits.settle_replied {exchange : Engine.Exchange ι} {room limit : Nat} {link : Link ι}
    (h : Waits exchange room link) (hrunning : link.receiver.running = true)
    (hdecoder : link.receiver.decoder = ⟨limit, .start⟩) (hmax : limit ≤ Frame.maxLength)
    {reply : List UInt8} (hreply : 1 + reply.length ≤ limit)
    (hagenda : link.engine.port.agenda =
      ⟨[(link.now, .bytes (Frame.bytes exchange.command reply))]⟩) :
    link.settle = { link with
      receiver := { link.receiver with published := link.receiver.published + 1 }
      engine := { inbox := link.engine.inbox, port := { link.engine.port with agenda := {} } }
      finished := [⟨exchange.ticket, link.now,
        .ok ⟨exchange.command, reply, Frame.checksum exchange.command reply⟩⟩] } := by
  let frame : Frame := ⟨exchange.command, reply, Frame.checksum exchange.command reply⟩
  have hdue : link.isDue = true := by simp [isDue, Agenda.next?, hagenda]
  have htake : link.engine.port.agenda.takeDue link.now =
      ([.bytes (Frame.bytes exchange.command reply)], {}) := by
    simp [Agenda.takeDue, hagenda]
  have hheard : link.receiver.hearAll [.bytes (Frame.bytes exchange.command reply)] =
      ({ link.receiver with published := link.receiver.published + 1 }, [frame]) :=
    Receiver.hearAll_frame hrunning hdecoder hmax hreply
  have hempty : link.engine.inbox.frames = [] := h.waiting.searched.frames
  have hpushed : link.engine.inbox.pushAll [frame] =
      { link.engine.inbox with frames := [frame] } := by
    simp [Inbox.pushAll, Inbox.push, hempty]
  have hleft : { link.engine.inbox with frames := [] } = link.engine.inbox := by
    rw [← hempty]
  let heard : Engine ι Wire := { link.engine with
    inbox := { link.engine.inbox with frames := [frame] }
    port := { link.engine.port with agenda := {} } }
  have hlook : heard.look Wire.send link.now =
      ({ inbox := { link.engine.inbox with frames := [] },
         port := { link.engine.port with agenda := {} } },
        [.finish exchange.ticket (.ok frame)]) :=
    Engine.look_replied Wire.send link.now h.waiting.current h.queue rfl rfl
  rw [hleft] at hlook
  rw [settle_of_queue h.queue, if_pos hdue]
  simp only [hearDue, htake, hear, hheard, perform, Engine.step, hrunning, Bool.not_true,
    Bool.and_false, Bool.false_eq_true, if_false, hpushed, heard, hlook, h.finished, endsAt,
    List.nil_append, frame]

/-! ## the link between two calls -/

/-- Nothing is under way on the link, its receiver waits for a start byte, and the controller that
does nothing but answer has these settings. -/
structure Ready (settings : Device.Settings) (limit : Nat) (link : Link ι) : Prop where
  rest : link.AtRest
  inbox : link.engine.inbox.Sound
  isOpen : link.engine.inbox.closed = false
  running : link.receiver.running = true
  decoder : link.receiver.decoder = ⟨limit, .start⟩
  bounded : limit ≤ Frame.maxLength
  port : ∃ requests sent, link.engine.port = { device := { settings, requests }, sent }

theorem ready_start (settings : Device.Settings) {limit : Nat} (hpos : 1 ≤ limit) (room : Nat) :
    Ready settings (min limit Frame.maxLength) (start { settings } limit room : Link ι) where
  rest := ⟨rfl, rfl, rfl⟩
  inbox := Inbox.sound_withCapacity room
  isOpen := rfl
  running := rfl
  decoder := by
    have hlimit : max 1 (min limit Frame.maxLength) = min limit Frame.maxLength :=
      Nat.max_eq_right (Nat.le_min.mpr ⟨hpos, by decide⟩)
    show Decoder.withLimit limit = _
    rw [Decoder.withLimit, hlimit]
  bounded := Nat.min_le_right ..
  port := ⟨0, #[], rfl⟩

variable {settings after : Device.Settings} {limit : Nat} {link : Link ι}

/-- **One call** on a link that a caller has to himself: the controller gets the request, the caller
the reply, and no time passes. -/
theorem Ready.call (h : Ready settings limit link) (ticket : ι) {timeout : Time}
    (htimeout : 0 < timeout) {request : Request} {reply : List UInt8}
    (hfits : request.payload.length ≤ Frame.maxPayload)
    (hanswer : settings.answer request.command request.payload = (after, some reply))
    (hreply : 1 + reply.length ≤ limit) :
    (link.call ticket timeout request).2 =
        .ok ⟨request.command, reply, Frame.checksum request.command reply⟩ ∧
      Ready after limit (link.call ticket timeout request).1 ∧
      (link.call ticket timeout request).1.now = link.now := by
  obtain ⟨requests, sent, hport⟩ := h.port
  let wire : Wire :=
    { device := { settings := after, requests := requests + 1 }
      agenda := ⟨[(link.now, .bytes (Frame.bytes request.command reply))]⟩
      sent := sent.push (link.now, request.bytes) }
  have hsend : Wire.send link.engine.port link.now request.bytes = (wire, .ok ()) := by
    have hmax := h.bounded
    have hmost : reply.length ≤ Frame.maxPayload := by
      show _ ≤ Frame.maxLength - 1
      omega
    rw [hport]
    exact Wire.send_prompt hanswer hfits hmost requests sent link.now
  let call : Engine.Call ι := ⟨ticket, request, timeout⟩
  let begun : Link ι := { link with
    engine := { link.engine with
      inbox := link.engine.inbox.drain.1
      port := wire
      current := some (call.exchange link.now) } }
  have hbegin : link.begin call = begun :=
    h.rest.begin_open h.isOpen h.inbox call hfits htimeout hsend
  have hwaits : begun.Waits (call.exchange link.now) link.engine.inbox.capacity :=
    ⟨⟨rfl, h.inbox.searched h.isOpen⟩, h.rest.queue, h.rest.finished⟩
  have hsettle := hwaits.settle_replied h.running h.decoder h.bounded hreply rfl
  -- the call is over before the clock moves, so that waiting for it takes no time
  have hconcluded : begun.settle.Concluded ticket link.now
      (.ok ⟨request.command, reply, Frame.checksum request.command reply⟩) [] := by
    rw [hsettle]
    exact ⟨rfl, rfl, rfl, rfl, rfl⟩
  have hquiet : ∀ entry ∈ begun.settle.engine.port.agenda.entries,
      begun.settle.now < entry.1 := by
    rw [hsettle]
    exact nofun
  have hexchange : link.exchange ticket timeout none request =
      ({ begun.settle with finished := [] },
        some (.ok ⟨request.command, reply, Frame.checksum request.command reply⟩)) := by
    refine exchange_ended htimeout ?_ hconcluded hquiet
    rw [hbegin]
    exact hconcluded.advance _
  have hcall : link.call ticket timeout request =
      ({ begun.settle with finished := [] },
        .ok ⟨request.command, reply, Frame.checksum request.command reply⟩) := by
    rw [Link.call, hexchange]
    rfl
  rw [hcall, hsettle]
  refine ⟨rfl, ⟨⟨rfl, rfl, rfl⟩, h.inbox.drain, h.isOpen, h.running, h.decoder, h.bounded, ?_⟩, rfl⟩
  exact ⟨requests + 1, _, rfl⟩

end Link
end CameraPower
