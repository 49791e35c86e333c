import CameraPower.Proofs.EngineHistory
import CameraPower.Proofs.InboxRing
import CameraPower.Proofs.ListCuts

/-!
# What an awaited reply comes to

A call that has written its request looks at what comes in, burst after burst, until a frame with its
command is there, the line has ended, or its time is up.

* `Burst`                              what comes in at one instant before the call looks;
* `Concludes`                          what a call comes to, when, and what it leaves in the inbox;
* `Concludes.unique`                   the bursts decide it;
* `outcome?_searched`, `step_waiting`  one look, one event;
* `record_waiting`                     all events until the call comes to its end.
-/

namespace CameraPower

/-! ## looking through an inbox -/

def Misses (command : UInt8) (frames : List Frame) : Prop :=
  ∀ frame ∈ frames, frame.command ≠ command

instance (command : UInt8) (frames : List Frame) : Decidable (Misses command frames) :=
  inferInstanceAs (Decidable (∀ frame ∈ frames, frame.command ≠ command))

namespace Inbox

/-- what taking frames out comes to: all are thrown away, or those up to the first that carries the
command -/
inductive Taken (command : UInt8) (inbox : Inbox) : Inbox × Option Frame → Prop
  | missed (misses : Misses command inbox.frames) :
    Taken command inbox ({ inbox with frames := [] }, none)
  | found (ahead : List Frame) (frame : Frame) (behind : List Frame)
    (frames : inbox.frames = ahead ++ frame :: behind) (misses : Misses command ahead)
    (carries : frame.command = command) :
    Taken command inbox ({ inbox with frames := behind }, some frame)

theorem take_cases (command : UInt8) (inbox : Inbox) :
    Taken command inbox (inbox.take command) := by
  unfold take
  rcases first_cases (·.command != command) inbox.frames with
    ⟨hmisses, hdrop⟩ | ⟨ahead, frame, behind, hframes, hmisses, hcarries, -, hdrop⟩
  · rw [hdrop]
    exact .missed fun frame hmem => by simpa using hmisses frame hmem
  · rw [hdrop]
    exact .found ahead frame behind hframes (fun other hmem => by simpa using hmisses other hmem)
      (by simpa using hcarries)

/-- an open inbox with room for some frames and none in -/
structure Searched (room : Nat) (inbox : Inbox) : Prop where
  sound : inbox.Sound
  capacity : inbox.capacity = room
  frames : inbox.frames = []
  isOpen : inbox.closed = false

theorem Sound.searched {inbox : Inbox} (h : inbox.Sound) (isOpen : inbox.closed = false) :
    inbox.drain.1.Searched inbox.capacity :=
  ⟨h.drain, rfl, rfl, isOpen⟩

end Inbox

namespace Engine
variable {ι π : Type}

/-! ## bursts -/

/-- what comes in at one instant before a call looks: frames, and then perhaps the line's end -/
structure Burst where
  time : Time
  frames : List Frame
  ended : Bool
  deriving DecidableEq

/-- Nothing in the burst concerns a call: the line goes on, and of the frames for which an empty inbox
has room none carries the command. -/
structure Burst.Passes (room : Nat) (command : UInt8) (burst : Burst) : Prop where
  misses : Misses command (burst.frames.rtake room)
  goesOn : burst.ended = false

/-- the burst ends the wait for a command: what the call comes to, and what it leaves in the inbox -/
inductive Burst.Settles (room : Nat) (command : UInt8) (burst : Burst) : Answer → List Frame → Prop
  /-- the first frame that carries the command -/
  | replied (ahead : List Frame) (frame : Frame) (behind : List Frame)
    (kept : burst.frames.rtake room = ahead ++ frame :: behind) (misses : Misses command ahead)
    (carries : frame.command = command) :
    Burst.Settles room command burst (.ok frame) behind
  /-- no frame carries the command, and no more come -/
  | lost (misses : Misses command (burst.frames.rtake room)) (ended : burst.ended = true) :
    Burst.Settles room command burst (.error .linkClosed) []

/-- **What a call comes to** that awaits the reply to a command, when, and which frames it leaves in
an inbox with room for `room` of them. -/
inductive Concludes (room : Nat) (command : UInt8) (timeout deadline : Time) :
    List Burst → Time → Answer → List Frame → Prop
  /-- at the instant of the first burst that does not pass -/
  | settled (early : List Burst) (burst : Burst) (later : List Burst) {answer : Answer}
    {left : List Frame} (passed : ∀ other ∈ early, other.Passes room command)
    (inTime : burst.time ≤ deadline) (settles : burst.Settles room command answer left) :
    Concludes room command timeout deadline (early ++ burst :: later) burst.time answer left
  /-- at the deadline, when all that has come in has passed -/
  | late (early later : List Burst) (passed : ∀ other ∈ early, other.Passes room command)
    (beyond : ∀ other ∈ later, deadline < other.time) :
    Concludes room command timeout deadline (early ++ later) deadline
      (.error (.timeout command timeout)) []

/-- with its next burst a call comes to its end, whatever comes behind that by another instant -/
def Burst.Decides (exchange : Exchange ι) (room : Nat) (burst : Burst) (answer : Answer)
    (left : List Frame) : Prop :=
  ∀ later : List Burst,
    (exchange.deadline ≤ burst.time → ∀ other ∈ later, exchange.deadline < other.time) →
    Concludes room exchange.command exchange.timeout exchange.deadline (burst :: later) burst.time
      answer left

section
variable {room : Nat} {command : UInt8} {timeout deadline time time' : Time} {burst : Burst}
  {bursts : List Burst} {answer answer' : Answer} {left left' : List Frame}

theorem Concludes.behind (h : Concludes room command timeout deadline bursts time answer left)
    (passes : burst.Passes room command) :
    Concludes room command timeout deadline (burst :: bursts) time answer left := by
  cases h with
  | settled early settling later passed inTime settles =>
    exact .settled (burst :: early) settling later (List.forall_mem_cons.mpr ⟨passes, passed⟩)
      inTime settles
  | late early later passed beyond =>
    exact .late (burst :: early) later (List.forall_mem_cons.mpr ⟨passes, passed⟩) beyond

theorem Burst.Settles.stays (h : burst.Settles room command answer left) :
    ¬ burst.Passes room command := by
  intro hpasses
  cases h with
  | replied ahead frame behind kept misses carries =>
    have hmem : frame ∈ burst.frames.rtake room :=
      kept ▸ List.mem_append_right _ List.mem_cons_self
    exact hpasses.misses frame hmem carries
  | lost misses ended =>
    rw [hpasses.goesOn] at ended
    cases ended

theorem Burst.Settles.unique (h : burst.Settles room command answer left)
    (h' : burst.Settles room command answer' left') : answer = answer' ∧ left = left' := by
  have hfound : ∀ {ahead behind : List Frame} {frame : Frame},
      burst.frames.rtake room = ahead ++ frame :: behind → frame.command = command →
      ¬ Misses command (burst.frames.rtake room) := by
    intro ahead behind frame kept carries misses
    exact misses frame (kept ▸ List.mem_append_right _ List.mem_cons_self) carries
  cases h with
  | replied ahead frame behind kept misses carries =>
    cases h' with
    | replied ahead' frame' behind' kept' misses' carries' =>
      obtain ⟨rfl, rfl⟩ := first_unique (kept.symm.trans kept') misses (not_not.mpr carries) misses'
        (not_not.mpr carries')
      exact ⟨rfl, rfl⟩
    | lost misses' _ => exact absurd misses' (hfound kept carries)
  | lost misses _ =>
    cases h' with
    | replied ahead' frame' behind' kept' _ carries' => exact absurd misses (hfound kept' carries')
    | lost => exact ⟨rfl, rfl⟩

theorem Burst.Settles.not_late {early later early' later' : List Burst}
    (h : burst.Settles room command answer left) (hintime : burst.time ≤ deadline)
    (hsame : early ++ burst :: later = early' ++ later')
    (passed : ∀ other ∈ early', other.Passes room command) :
    ¬ ∀ other ∈ later', deadline < other.time := by
  intro beyond
  have hmem : burst ∈ early' ++ later' := hsame ▸ List.mem_append_right _ List.mem_cons_self
  rcases List.mem_append.mp hmem with hearly | hlater
  · exact h.stays (passed burst hearly)
  · exact Nat.not_lt_of_le hintime (beyond burst hlater)

/-- **The bursts decide** what the call comes to. -/
theorem Concludes.unique (h : Concludes room command timeout deadline bursts time answer left)
    (h' : Concludes room command timeout deadline bursts time' answer' left') :
    time = time' ∧ answer = answer' ∧ left = left' := by
  generalize hbursts : bursts = bursts' at h'
  cases h with
  | settled early burst later passed inTime settles =>
    cases h' with
    | settled early' burst' later' passed' inTime' settles' =>
      obtain ⟨rfl, -⟩ := first_unique hbursts passed settles.stays passed' settles'.stays
      exact ⟨rfl, settles.unique settles'⟩
    | late early' later' passed' beyond' =>
      exact absurd beyond' (settles.not_late inTime hbursts passed')
  | late early later passed beyond =>
    cases h' with
    | settled early' burst' later' passed' inTime' settles' =>
      exact absurd beyond (settles'.not_late inTime' hbursts.symm passed)
    | late => exact ⟨rfl, rfl, rfl⟩

end

/-! ## one look -/

/-- What a call that has looked at all that came in makes of a burst: it comes to its end, or it goes
on waiting. -/
inductive Looked (exchange : Exchange ι) (room : Nat) (burst : Burst) : Inbox × Option Answer → Prop
  | ends (inbox : Inbox) (answer : Answer)
    (decides : burst.Decides exchange room answer inbox.frames) :
    Looked exchange room burst (inbox, some answer)
  | waits (inbox : Inbox) (searched : inbox.Searched room)
    (passes : burst.Passes room exchange.command) (early : burst.time < exchange.deadline) :
    Looked exchange room burst (inbox, none)

theorem received_searched {room : Nat} {inbox : Inbox} (h : inbox.Searched room)
    (frames : List Frame) (ended : Bool) :
    (received inbox frames ended).frames = frames.rtake room ∧
      (received inbox frames ended).closed = ended ∧
      (received inbox frames ended).capacity = room := by
  unfold received
  rw [Inbox.pushAll_eq h.sound, h.frames, h.capacity, List.nil_append]
  cases ended with
  | true => exact ⟨rfl, rfl, rfl⟩
  | false => exact ⟨rfl, h.isOpen, rfl⟩

theorem outcome?_searched {exchange : Exchange ι} {room : Nat} {inbox : Inbox}
    (h : inbox.Searched room) (burst : Burst) (hintime : burst.time ≤ exchange.deadline) :
    Looked exchange room burst
      (outcome? burst.time exchange (received inbox burst.frames burst.ended)) := by
  obtain ⟨hframes, hclosed, hcapacity⟩ := received_searched h burst.frames burst.ended
  generalize received inbox burst.frames burst.ended = inbox' at hframes hclosed hcapacity ⊢
  have htaken := Inbox.take_cases exchange.command inbox'
  unfold outcome?
  generalize inbox'.take exchange.command = taken at htaken ⊢
  cases htaken with
  | found ahead frame behind frames misses carries =>
    exact .ends _ _ fun later _ => .settled [] burst later nofun hintime
      (.replied ahead frame behind (hframes ▸ frames) misses carries)
  | missed misses =>
    rw [hframes] at misses
    simp only [hclosed]
    cases hended : burst.ended with
    | true =>
      exact .ends _ _ fun later _ => .settled [] burst later nofun hintime (.lost misses hended)
    | false =>
      have hpasses : burst.Passes room exchange.command := ⟨misses, hended⟩
      simp only [Bool.false_eq_true, if_false]
      split
      · rename_i hlate
        have htime : burst.time = exchange.deadline := Nat.le_antisymm hintime hlate
        refine .ends _ _ fun later hlater => ?_
        rw [htime]
        exact .late [burst] later (List.forall_mem_singleton.mpr hpasses) (hlater hlate)
      · rename_i hearly
        have hroom := h.sound.room
        rw [h.capacity, ← hcapacity] at hroom
        exact .waits _ ⟨⟨hroom, Nat.zero_le _⟩, hcapacity, rfl, rfl⟩ hpasses
          (Nat.lt_of_not_le hearly)

/-! ## one event -/

structure Waiting (exchange : Exchange ι) (room : Nat) (engine : Engine ι π) : Prop where
  current : engine.current = some exchange
  searched : engine.inbox.Searched room

theorem outcome?_quiet {exchange : Exchange ι} {room : Nat} {inbox : Inbox}
    (h : inbox.Searched room) (now : Time) :
    outcome? now exchange inbox =
      (inbox, if exchange.deadline ≤ now then
        some (.error (.timeout exchange.command exchange.timeout)) else none) := by
  have htake := Inbox.take_nil h.frames exchange.command
  simp only [outcome?, htake, h.isOpen, Bool.false_eq_true, if_false]
  split <;> rfl

/-- a call that gets the line of an open inbox, and whose request is written -/
theorem grant_open (send : Send π) (now : Time) {inbox : Inbox} (hsound : inbox.Sound)
    (hopen : inbox.closed = false) {port port' : π} {call : Call ι} (rest : List (Call ι))
    (hsend : send port now call.request.bytes = (port', .ok ())) (htimeout : 0 < call.timeout) :
    grant send now inbox port (call :: rest) =
      ({ inbox := inbox.drain.1, port := port', current := some (call.exchange now), queue := rest },
        [.write call.ticket call.request.bytes]) := by
  have hwaits : outcome? now (call.exchange now) inbox.drain.1 = (inbox.drain.1, none) := by
    have hearly : now < (call.exchange now).deadline := Nat.lt_add_of_pos_right htimeout
    rw [outcome?_quiet (hsound.searched hopen), if_neg (Nat.not_le_of_lt hearly)]
  have hgranted := grant_cons send now inbox port call rest
  generalize grant send now inbox port (call :: rest) = granted at hgranted ⊢
  cases hgranted with
  | skips closed => simp [hopen] at closed
  | fails port'' fault sent => rw [hsend] at sent; cases sent
  | ends port'' inbox' answer sent outcome => rw [hwaits] at outcome; cases outcome
  | waits port'' inbox' sent outcome =>
    rw [hsend] at sent
    rw [hwaits] at outcome
    cases sent
    cases outcome
    rfl

theorem waiting_granted {inbox : Inbox} (hsound : inbox.Sound) (hopen : inbox.closed = false)
    (port : π) (exchange : Exchange ι) (queue : List (Call ι)) :
    Waiting exchange inbox.capacity
      ({ inbox := inbox.drain.1, port, current := some exchange, queue } : Engine ι π) :=
  ⟨rfl, hsound.searched hopen⟩

def Cause.burst (now : Time) (cause : Cause ι) : Burst where
  time := now
  frames := match cause with
    | .hears replies _ => replies.map Reply.frame
    | _ => []
  ended := match cause with
    | .hears _ ended => ended
    | _ => false

def bursts (causes : List (Time × Cause ι)) : List Burst :=
  causes.map fun (now, cause) => cause.burst now

def Cause.ticket? : Cause ι → Option ι
  | .calls call => some call.ticket
  | .givesUp ticket => some ticket
  | _ => none

/-- What becomes of a waiting call when something happens that is not about it; calls of others may
be refused at the same time. -/
inductive Stepped (exchange : Exchange ι) (room : Nat) (burst : Burst) :
    Engine ι π × List (Action ι) → Prop
  | ends (engine : Engine ι π) (refused actions : List (Action ι)) (answer : Answer)
    (left : List Frame) (others : ∀ answer, .finish exchange.ticket answer ∉ refused)
    (decides : burst.Decides exchange room answer left) :
    Stepped exchange room burst (engine, refused ++ .finish exchange.ticket answer :: actions)
  | waits (engine : Engine ι π) (refused : List (Action ι))
    (others : ∀ answer, .finish exchange.ticket answer ∉ refused)
    (waiting : Waiting exchange room engine) (passes : burst.Passes room exchange.command)
    (early : burst.time < exchange.deadline) :
    Stepped exchange room burst (engine, refused)

section
variable {send : Send π} {exchange : Exchange ι} {room : Nat}

theorem look_waiting (engine : Engine ι π) {inbox : Inbox} (hsearched : inbox.Searched room)
    (burst : Burst) (hintime : burst.time ≤ exchange.deadline)
    (hcurrent : engine.current = some exchange)
    (hinbox : engine.inbox = received inbox burst.frames burst.ended) {refused : List (Action ι)}
    (hothers : ∀ answer, .finish exchange.ticket answer ∉ refused) :
    Stepped exchange room burst
      ((engine.look send burst.time).1, refused ++ (engine.look send burst.time).2) := by
  have hlooked := outcome?_searched hsearched burst hintime
  rw [← hinbox] at hlooked
  cases houtcome : outcome? burst.time exchange engine.inbox with
  | mk inbox' answer? =>
    rw [houtcome] at hlooked
    cases hlooked with
    | ends _ answer decides =>
      rw [look_ends hcurrent houtcome]
      exact .ends _ refused _ answer inbox'.frames hothers decides
    | waits _ searched passes early =>
      rw [look_waits hcurrent houtcome, List.append_nil]
      exact .waits _ refused hothers ⟨hcurrent, searched⟩ passes early

theorem step_waiting [DecidableEq ι] (send : Send π) {engine : Engine ι π}
    (h : Waiting exchange room engine) {now : Time} {cause : Cause ι}
    (hother : cause.ticket? ≠ some exchange.ticket) (hintime : now ≤ exchange.deadline) :
    Stepped exchange room (cause.burst now) (engine.step send now cause.event) := by
  have hnobody : ∀ answer, (.finish exchange.ticket answer : Action ι) ∉ [] :=
    fun _ => List.not_mem_nil
  cases cause with
  | calls call =>
    have hticket : call.ticket ≠ exchange.ticket := fun hsame => hother (congrArg some hsame)
    rcases arrive_cases engine call with ⟨-, harrive⟩ | ⟨size, -, harrive⟩
    · simp only [Cause.event, step, harrive]
      exact look_waiting { engine with queue := engine.queue ++ [call] } h.searched
        ⟨now, [], false⟩ hintime h.current rfl hnobody
    · simp only [Cause.event, step, harrive]
      refine look_waiting engine h.searched ⟨now, [], false⟩ hintime h.current rfl
        fun answer hmem => ?_
      simp only [List.mem_singleton, Action.finish.injEq] at hmem
      exact hticket hmem.1.symm
  | hears replies ended =>
    let burst : Burst := ⟨now, replies.map Reply.frame, ended⟩
    exact look_waiting { engine with inbox := received engine.inbox burst.frames burst.ended }
      h.searched burst hintime h.current rfl hnobody
  | ticks =>
    exact look_waiting engine h.searched ⟨now, [], false⟩ hintime h.current rfl hnobody
  | givesUp ticket =>
    have hkept : (engine.forget ticket).current = some exchange := by
      have hticket : exchange.ticket ≠ ticket := fun hsame => hother (congrArg some hsame.symm)
      simp [forget, h.current, hticket]
    exact look_waiting (engine.forget ticket) h.searched ⟨now, [], false⟩ hintime hkept rfl hnobody

/-! ## until the end -/

theorem finish_not_mem_at {ticket : ι} {refused : List (Action ι)} (now : Time) (cause : Cause ι)
    (hothers : ∀ answer, .finish ticket answer ∉ refused) (time : Time) (answer : Answer) :
    (time, .action (.finish ticket answer)) ∉
      History.at now (.cause cause :: refused.flatMap Action.entries) := by
  simp [History.at, -List.mem_flatMap, finish_mem_entries, hothers]

section
variable [DecidableEq ι] {engine : Engine ι π}

theorem record_of_finish {ticket : ι} {now : Time} {cause : Cause ι} {next : Engine ι π}
    {refused actions : List (Action ι)} {answer : Answer}
    (hstep : engine.step send now cause.event = (next, refused ++ .finish ticket answer :: actions))
    (hothers : ∀ answer, .finish ticket answer ∉ refused) (rest : List (Time × Cause ι)) :
    ∃ before after, (record send engine ((now, cause) :: rest)).1 =
        before ++ (now, .action (.finish ticket answer)) :: after ∧
      ∀ time answer, (time, .action (.finish ticket answer)) ∉ before := by
  refine ⟨_, History.at now (actions.flatMap Action.entries) ++ (record send next rest).1, ?_,
    finish_not_mem_at now cause hothers⟩
  simp only [record, hstep]
  simp [Action.entries]

/-- **What a waiting call comes to**, whatever else happens until its deadline, and who else calls or
gives up. -/
theorem record_waiting (h : Waiting exchange room engine)
    (early : List (Time × Cause ι)) (last : Cause ι) (later : List (Time × Cause ι))
    (hearly : ∀ moment ∈ early, moment.1 < exchange.deadline)
    (hothers : ∀ moment ∈ early ++ [(exchange.deadline, last)],
      moment.2.ticket? ≠ some exchange.ticket) :
    ∃ time answer left, Concludes room exchange.command exchange.timeout exchange.deadline
        (bursts (early ++ [(exchange.deadline, last)])) time answer left ∧
      ∃ before after,
        (record send engine (early ++ (exchange.deadline, last) :: later)).1 =
          before ++ (time, .action (.finish exchange.ticket answer)) :: after ∧
        ∀ time answer, (time, .action (.finish exchange.ticket answer)) ∉ before := by
  -- on the events before the deadline: an engine that goes on waiting stands where it stood
  induction early generalizing engine with
  | nil =>
    have hlast := hothers (exchange.deadline, last) (List.mem_singleton.mpr rfl)
    have hstepped := step_waiting send h hlast (Nat.le_refl exchange.deadline)
    generalize hstep : engine.step send exchange.deadline last.event = stepped at hstepped
    cases hstepped with
    | ends next refused actions answer left others decides =>
      exact ⟨_, answer, left, decides [] fun _ => nofun, record_of_finish hstep others later⟩
    | waits next refused others waiting passes early => exact absurd early (Nat.lt_irrefl _)
  | cons moment early ih =>
    obtain ⟨hmoment, hearly⟩ := List.forall_mem_cons.mp hearly
    obtain ⟨hother, hothers⟩ := List.forall_mem_cons.mp hothers
    have hstepped := step_waiting send h hother (Nat.le_of_lt hmoment)
    generalize hstep : engine.step send moment.1 moment.2.event = stepped at hstepped
    cases hstepped with
    | ends next refused actions answer left others decides =>
      exact ⟨_, answer, left, decides _ fun hlate => absurd hmoment (Nat.not_lt_of_le hlate),
        record_of_finish hstep others _⟩
    | waits next refused others waiting passes _ =>
      obtain ⟨time, answer, left, hconcludes, before, after, hrecord, hbefore⟩ :=
        ih waiting hearly hothers
      refine ⟨time, answer, left, hconcludes.behind passes,
        History.at moment.1 (.cause moment.2 :: refused.flatMap Action.entries) ++ before, after,
        ?_, ?_⟩
      · simp only [List.cons_append, record, hstep]
        rw [hrecord, List.append_assoc]
      · intro time answer hmem
        rcases List.mem_append.mp hmem with hmem | hmem
        · exact finish_not_mem_at moment.1 moment.2 others time answer hmem
        · exact hbefore time answer hmem

end
end

end Engine
end CameraPower
