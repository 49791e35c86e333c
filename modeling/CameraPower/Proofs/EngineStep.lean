import CameraPower.Engine

/-!
# What a step of an engine can do

For each part of a step, everything that it can come to.

* `arrive_cases`                          a call arrives;
* `outcome?_cases`                        an awaited reply;
* `grant_cons`                            the first of the queue gets the free line;
* `look_none`, `look_waits`, `look_ends`  the engine looks after the call that holds the line.
-/

namespace CameraPower

def Request.bytes (request : Request) : List UInt8 :=
  Frame.bytes request.command request.payload

/-! ## the frames of an inbox -/

namespace Inbox

theorem mem_push {inbox : Inbox} {frame other : Frame} (h : frame ∈ (inbox.push other).frames) :
    frame ∈ inbox.frames ∨ frame = other := by
  unfold push at h
  split at h
  · rename_i oldest rest hframes
    rw [hframes]
    split at h
    · rcases List.mem_append.mp h with h | h
      · exact Or.inl (List.mem_cons_of_mem _ h)
      · exact Or.inr (List.mem_singleton.mp h)
    · rcases List.mem_append.mp h with h | h
      · exact Or.inl h
      · exact Or.inr (List.mem_singleton.mp h)
  · exact Or.inr (List.mem_singleton.mp h)

theorem mem_pushAll {inbox : Inbox} {frames : List Frame} {frame : Frame}
    (h : frame ∈ (inbox.pushAll frames).frames) : frame ∈ inbox.frames ∨ frame ∈ frames := by
  unfold pushAll at h
  induction frames generalizing inbox with
  | nil => exact Or.inl h
  | cons other rest ih =>
    rcases ih h with h | h
    · rcases mem_push h with h | rfl
      · exact Or.inl h
      · exact Or.inr List.mem_cons_self
    · exact Or.inr (List.mem_cons_of_mem _ h)

theorem take_nil {inbox : Inbox} (h : inbox.frames = []) (command : UInt8) :
    inbox.take command = (inbox, none) := by
  simp only [take, h, List.dropWhile_nil]
  rw [← h]

theorem mem_take {command : UInt8} {inbox rest : Inbox} {frame? : Option Frame}
    (h : inbox.take command = (rest, frame?)) :
    (∀ frame ∈ rest.frames, frame ∈ inbox.frames) ∧ ∀ frame ∈ frame?, frame ∈ inbox.frames := by
  have hsub : ∀ frame ∈ inbox.frames.dropWhile (·.command != command), frame ∈ inbox.frames :=
    fun frame hmem => (List.dropWhile_sublist _).mem hmem
  unfold take at h
  split at h
  · cases h
    exact ⟨fun _ hmem => absurd hmem List.not_mem_nil,
      fun _ hmem => absurd hmem (Option.not_mem_none _)⟩
  · rename_i found rest' hdrop
    rw [hdrop] at hsub
    cases h
    refine ⟨fun frame hmem => hsub frame (List.mem_cons_of_mem _ hmem), fun frame hmem => ?_⟩
    rw [← Option.some.inj hmem]
    exact hsub found List.mem_cons_self

end Inbox

namespace Engine

variable {ι π : Type}

/-! ## arrivals, replies -/

/-- what frames from the line, and perhaps its end, make of an inbox -/
def received (inbox : Inbox) (frames : List Frame) (ended : Bool) : Inbox :=
  if ended then (inbox.pushAll frames).close else inbox.pushAll frames

theorem mem_received {inbox : Inbox} {frames : List Frame} {ended : Bool} {frame : Frame}
    (h : frame ∈ (received inbox frames ended).frames) : frame ∈ inbox.frames ∨ frame ∈ frames := by
  unfold received at h
  split at h
  · exact Inbox.mem_pushAll h
  · exact Inbox.mem_pushAll h

/-- a call that does not fit a frame ends on arrival, any other stands in line -/
theorem arrive_cases (engine : Engine ι π) (call : Call ι) :
    (Frame.encode? call.request.command call.request.payload = .ok call.request.bytes ∧
      engine.arrive call = ({ engine with queue := engine.queue ++ [call] }, [])) ∨
    ∃ size, Frame.encode? call.request.command call.request.payload =
        .error (.payloadTooLarge size) ∧
      engine.arrive call = (engine, [.finish call.ticket (.error (.payloadTooLarge size))]) := by
  unfold arrive Frame.encode?
  by_cases hsize : call.request.payload.length > Frame.maxPayload
  · exact Or.inr ⟨_, if_pos hsize, by rw [if_pos hsize]⟩
  · exact Or.inl (by rw [if_neg hsize]; exact ⟨rfl, rfl⟩)

theorem command_of_take {command : UInt8} {inbox rest : Inbox} {frame : Frame}
    (h : inbox.take command = (rest, some frame)) : frame.command = command := by
  unfold Inbox.take at h
  split at h
  · cases h
  · rename_i frame' rest' hdrop
    obtain ⟨-, hframe⟩ := Prod.mk.inj h
    rw [← Option.some.inj hframe]
    have hhead := List.head?_dropWhile_not (fun f : Frame => f.command != command) inbox.frames
    rw [hdrop] at hhead
    simpa using hhead

/-- what an awaited reply comes to -/
theorem outcome?_cases {now : Time} {exchange : Exchange ι} {inbox rest : Inbox}
    {answer? : Option Answer} (h : outcome? now exchange inbox = (rest, answer?)) :
    (∀ frame ∈ rest.frames, frame ∈ inbox.frames) ∧
    ((∃ frame ∈ inbox.frames, frame.command = exchange.command ∧ answer? = some (.ok frame)) ∨
      answer? = some (.error .linkClosed) ∨
      (exchange.deadline ≤ now ∧
        answer? = some (.error (.timeout exchange.command exchange.timeout))) ∨
      (now < exchange.deadline ∧ answer? = none)) := by
  unfold outcome? at h
  split at h
  · rename_i rest' frame htake
    have hmem := Inbox.mem_take htake
    cases h
    exact ⟨hmem.1, Or.inl ⟨frame, hmem.2 frame rfl, command_of_take htake, rfl⟩⟩
  · rename_i rest' htake
    have hmem := Inbox.mem_take htake
    split at h
    · cases h
      exact ⟨hmem.1, Or.inr (Or.inl rfl)⟩
    · split at h
      · rename_i hdeadline
        cases h
        exact ⟨hmem.1, Or.inr (Or.inr (Or.inl ⟨hdeadline, rfl⟩))⟩
      · rename_i hdeadline
        cases h
        exact ⟨hmem.1, Or.inr (Or.inr (Or.inr ⟨Nat.not_le.mp hdeadline, rfl⟩))⟩

/-! ## the line -/

/-- what a call that writes its request at an instant waits for -/
def Call.exchange (call : Call ι) (now : Time) : Exchange ι :=
  ⟨call.ticket, call.request.command, call.timeout, now + call.timeout⟩

/-- what the first call of a queue does with the free line, and what follows -/
inductive Granted (send : Send π) (now : Time) (inbox : Inbox) (port : π) (call : Call ι)
    (rest : List (Call ι)) : Engine ι π × List (Action ι) → Prop
  | skips (closed : inbox.closed && inbox.frames.isEmpty) :
    Granted send now inbox port call rest
      ((grant send now inbox port rest).1,
        .finish call.ticket (.error .linkClosed) :: (grant send now inbox port rest).2)
  | fails (port' : π) (fault : PortFault)
    (sent : send port now call.request.bytes = (port', .error fault)) :
    Granted send now inbox port call rest
      ((grant send now inbox.drain.1 port' rest).1,
        .write call.ticket call.request.bytes :: .finish call.ticket (.error (.serial fault)) ::
          (grant send now inbox.drain.1 port' rest).2)
  | ends (port' : π) (inbox' : Inbox) (answer : Answer)
    (sent : send port now call.request.bytes = (port', .ok ()))
    (outcome : outcome? now (call.exchange now) inbox.drain.1 = (inbox', some answer)) :
    Granted send now inbox port call rest
      ((grant send now inbox' port' rest).1,
        .write call.ticket call.request.bytes :: .finish call.ticket answer ::
          (grant send now inbox' port' rest).2)
  | waits (port' : π) (inbox' : Inbox)
    (sent : send port now call.request.bytes = (port', .ok ()))
    (outcome : outcome? now (call.exchange now) inbox.drain.1 = (inbox', none)) :
    Granted send now inbox port call rest
      ({ inbox := inbox', port := port', current := some (call.exchange now), queue := rest },
        [.write call.ticket call.request.bytes])

theorem grant_cons (send : Send π) (now : Time) (inbox : Inbox) (port : π) (call : Call ι)
    (rest : List (Call ι)) :
    Granted send now inbox port call rest (grant send now inbox port (call :: rest)) := by
  obtain ⟨ticket, ⟨command, payload⟩, timeout⟩ := call
  unfold grant
  by_cases hclosed : (inbox.closed && inbox.frames.isEmpty) = true
  · simp only [hclosed, if_true]
    exact .skips hclosed
  · simp only [hclosed]
    cases hsend : send port now (Frame.bytes command payload) with
    | mk port' result =>
      cases result with
      | error fault => exact .fails port' fault hsend
      | ok =>
        cases hout : outcome? now
            (⟨ticket, command, timeout, now + timeout⟩ : Exchange ι) inbox.drain.1 with
        | mk inbox' answer? =>
          cases answer? with
          | none => exact .waits port' inbox' hsend hout
          | some answer => exact .ends port' inbox' answer hsend hout

theorem look_none (send : Send π) (now : Time) (engine : Engine ι π)
    (hcurrent : engine.current = none) :
    engine.look send now = grant send now engine.inbox engine.port engine.queue := by
  unfold look
  rw [hcurrent]

theorem look_waits {send : Send π} {now : Time} {engine : Engine ι π} {exchange : Exchange ι}
    {inbox : Inbox} (hcurrent : engine.current = some exchange)
    (houtcome : outcome? now exchange engine.inbox = (inbox, none)) :
    engine.look send now = ({ engine with inbox }, []) := by
  unfold look
  rw [hcurrent]
  simp only [houtcome]

theorem look_ends {send : Send π} {now : Time} {engine : Engine ι π} {exchange : Exchange ι}
    {inbox : Inbox} {answer : Answer} (hcurrent : engine.current = some exchange)
    (houtcome : outcome? now exchange engine.inbox = (inbox, some answer)) :
    engine.look send now =
      ((grant send now inbox engine.port engine.queue).1,
        .finish exchange.ticket answer :: (grant send now inbox engine.port engine.queue).2) := by
  unfold look
  rw [hcurrent]
  simp only [houtcome]

end Engine
end CameraPower
