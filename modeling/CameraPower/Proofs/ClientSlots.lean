import CameraPower.Proofs.SessionTasks

/-!
# Clients share the slots of the telemetry service

A history tells what has happened to the service and what it has done.  Everything that is said here
of slots and sessions is read off the history; the service's own counters are what it is compared to.

* `Entry`, `History`, `record`  events and actions, and the history that events lead to;
* `History.live`                the sessions that were accepted and have not ended;
* `History.admission`           what becomes of a client that connects now;
* `History.course`              what a session's own entries make of it;
* `Orderly`                     the law of slots and sessions;
* `shares_slots`                the service keeps it, whatever happens.
-/

namespace CameraPower.Server

/-! ## histories -/

inductive Entry where
  | event (event : Event)
  | action (action : Action)

abbrev History := List (Time × Entry)

def moment (now : Time) (event : Event) (actions : List Action) : History :=
  (now, .event event) :: actions.map fun action => (now, .action action)

/-- the history that a service makes of events at their instants, and what becomes of it -/
def record (server : Server) : List (Time × Event) → History × Server
  | [] => ([], server)
  | (now, event) :: rest =>
    let (next, actions) := server.step now event
    let (history, last) := next.record rest
    (moment now event actions ++ history, last)

namespace Entry

def accepted? : Entry → Option Nat
  | .action (.admitted (.accepted number)) => some number
  | _ => none

def ended? : Entry → Option Nat
  | .action (.ended number _) => some number
  | _ => none

def isStop : Entry → Bool
  | .event .stop => true
  | _ => false

def isReturn : Entry → Bool
  | .action .returned => true
  | _ => false

/-- what an entry makes of the session with a number: only its own entries matter -/
def change (interval : Time) (number : Nat) (now : Time) (session? : Option Session) :
    Entry → Option Session
  | .action (.admitted (.accepted other)) =>
    if other = number then some (Session.start interval now) else session?
  | .event (.task other incident) =>
    if other = number then session?.map fun session => (incident.change now session).1
    else session?
  | _ => session?

end Entry

namespace History

def accepted (history : History) : List Nat :=
  history.filterMap (·.2.accepted?)

def ended (history : History) : List Nat :=
  history.filterMap (·.2.ended?)

/-- the sessions that were accepted and have not ended -/
def live (history : History) : List Nat :=
  history.accepted.filter (!history.ended.contains ·)

/-- the service has seen that it is to stop -/
def isStopped (history : History) : Bool :=
  history.any (·.2.isStop)

def hasReturned (history : History) : Bool :=
  history.any (·.2.isReturn)

def after (interval : Time) (number : Nat) (session? : Option Session) (history : History) :
    Option Session :=
  history.foldl (fun session? entry => entry.2.change interval number entry.1 session?) session?

/-- what a session's own entries make of it -/
def course (interval : Time) (number : Nat) (history : History) : Option Session :=
  history.after interval number none

/-- how far a service with so many slots has come -/
def phase (slots : Nat) (history : History) : Phase :=
  if maxSlots < slots then .broken
  else if history.hasReturned then .returned
  else if history.isStopped then .closing
  else .serving

/-- What becomes of a client that connects now.  It is turned away exactly if a session is live for
every slot. -/
def admission (slots : Nat) (history : History) : Admission :=
  match history.phase slots with
  | .serving =>
    if history.live.length < slots then .accepted (history.accepted.length + 1) else .turnedAway
  | .closing => .unheard
  | .returned | .broken => .noSocket

section
variable (history more : History)

@[simp] theorem accepted_append : accepted (history ++ more) = history.accepted ++ more.accepted :=
  List.filterMap_append

@[simp] theorem ended_append : ended (history ++ more) = history.ended ++ more.ended :=
  List.filterMap_append

@[simp] theorem isStopped_append :
    isStopped (history ++ more) = (history.isStopped || more.isStopped) :=
  List.any_append

@[simp] theorem hasReturned_append :
    hasReturned (history ++ more) = (history.hasReturned || more.hasReturned) :=
  List.any_append

@[simp] theorem course_append (interval : Time) (number : Nat) :
    course interval number (history ++ more) =
      more.after interval number (history.course interval number) :=
  List.foldl_append

end

theorem phase_append {history more : History} (hstop : more.isStopped = false)
    (hreturn : more.hasReturned = false) (slots : Nat) :
    phase slots (history ++ more) = history.phase slots := by
  rw [phase, phase, isStopped_append, hasReturned_append, hstop, hreturn, Bool.or_false,
    Bool.or_false]

theorem returned_append {history more : History}
    (h : history.hasReturned = true → history.isStopped = true) (hreturn : more.hasReturned = false) :
    (history ++ more).hasReturned = true → (history ++ more).isStopped = true := by
  rw [hasReturned_append, isStopped_append, hreturn, Bool.or_false]
  intro hreturned
  rw [h hreturned, Bool.true_or]

end History

/-! ## whom an entry is about -/

/-- the session that an entry begins or makes something of -/
def Entry.subject? : Entry → Option Nat
  | .action (.admitted (.accepted number)) => some number
  | .event (.task number _) => some number
  | _ => none

theorem Entry.change_of_ne {entry : Entry} {number : Nat} (h : entry.subject? ≠ some number)
    (interval now : Time) (session? : Option Session) :
    entry.change interval number now session? = session? := by
  have hne : ∀ other, entry.subject? = some other → other ≠ number :=
    fun other hother heq => h (heq ▸ hother)
  unfold change
  split
  · exact if_neg (hne _ rfl)
  · exact if_neg (hne _ rfl)
  · rfl

theorem Entry.accepted?_of_none {entry : Entry} (h : entry.subject? = none) :
    entry.accepted? = none := by
  unfold accepted?
  split
  · cases h
  · rfl

theorem History.after_of_ne {history : History} {number : Nat}
    (h : ∀ entry ∈ history, entry.2.subject? ≠ some number) (interval : Time)
    (session? : Option Session) : history.after interval number session? = session? := by
  induction history with
  | nil => rfl
  | cons entry rest ih =>
    rw [after, List.foldl_cons, entry.2.change_of_ne (h entry List.mem_cons_self)]
    exact ih fun other hother => h other (List.mem_cons_of_mem _ hother)

theorem History.accepted_of_none {history : History}
    (h : ∀ entry ∈ history, entry.2.subject? = none) : history.accepted = [] :=
  List.filterMap_eq_nil_iff.2 fun entry hentry => entry.2.accepted?_of_none (h entry hentry)

/-! ## the service and its history -/

/-- how a service and its history go together -/
structure Recorded (interval : Time) (history : History) (server : Server) : Prop where
  pushInterval : server.pushInterval = interval
  accepted : history.accepted = server.numbers
  ended : ∀ number, number ∈ history.ended ↔
    ∃ session, server.session? number = some session ∧ session.outcome?.isSome = true
  endedOnce : history.ended.Nodup
  course : ∀ number, server.session? number = history.course interval number
  phase : server.phase = history.phase server.slots
  returned : history.hasReturned = true → history.isStopped = true

section
variable {interval now : Time} {history more : History} {server other : Server}

theorem recorded_start (maxClients : Nat) (interval : Time) :
    Recorded interval [] (start maxClients interval) where
  pushInterval := rfl
  accepted := rfl
  ended number := by simp [History.ended, start, session?, task?]
  endedOnce := List.nodup_nil
  course number := rfl
  phase := by
    show (if max 1 maxClients ≤ maxSlots then Phase.serving else .broken) =
      if maxSlots < max 1 maxClients then .broken else .serving
    split
    · rw [if_neg (by omega)]
    · rw [if_pos (by omega)]
  returned := nofun

theorem Recorded.plain (h : Recorded interval history server) (halike : Alike server other)
    (hplain : ∀ entry ∈ more, entry.2.subject? = none) (hended : more.ended = [])
    (hphase : other.phase = (history ++ more).phase server.slots)
    (hreturned : (history ++ more).hasReturned = true → (history ++ more).isStopped = true) :
    Recorded interval (history ++ more) other := by
  have haccepted := History.accepted_of_none hplain
  have hafter : ∀ number session?, more.after interval number session? = session? :=
    fun number => History.after_of_ne (fun entry hentry => by rw [hplain entry hentry]; nofun) interval
  refine ⟨halike.pushInterval.trans h.pushInterval, ?_, fun number => ?_, ?_, fun number => ?_, ?_,
    hreturned⟩
  · rw [History.accepted_append, haccepted, List.append_nil, h.accepted, halike.numbers]
  · rw [History.ended_append, hended, List.append_nil, halike.session? number]
    exact h.ended number
  · rw [History.ended_append, hended, List.append_nil]
    exact h.endedOnce
  · rw [History.course_append, hafter, halike.session? number]
    exact h.course number
  · rw [halike.slots]
    exact hphase

theorem Recorded.quiet (h : Recorded interval history server) (halike : Alike server other)
    (hplain : ∀ entry ∈ more, entry.2.subject? = none) (hended : more.ended = [])
    (hstop : more.isStopped = false) (hreturn : more.hasReturned = false)
    (hphase : other.phase = server.phase) : Recorded interval (history ++ more) other :=
  h.plain halike hplain hended (by rw [History.phase_append hstop hreturn, hphase]; exact h.phase)
    (History.returned_append h.returned hreturn)

/-! ## stop and return -/

theorem History.phase_stop (slots : Nat) (history : History) (now : Time) :
    phase slots (history ++ [(now, .event .stop)]) =
      match history.phase slots with
      | .serving => .closing
      | phase => phase := by
  have hstop : isStopped [(now, .event .stop)] = true := rfl
  have hreturn : hasReturned [(now, .event .stop)] = false := rfl
  simp only [phase, isStopped_append, hasReturned_append, hstop, hreturn]
  by_cases hbroken : maxSlots < slots
  · simp [hbroken]
  · cases history.hasReturned <;> cases history.isStopped <;> simp [hbroken]

theorem History.phase_return {slots : Nat} {history : History} (h : history.phase slots = .closing)
    (now : Time) :
    phase slots (history ++ [(now, .action .returned)]) = .returned ∧ history.isStopped = true := by
  have hreturn : hasReturned [(now, .action .returned)] = true := rfl
  unfold phase at h ⊢
  rw [hasReturned_append, hreturn, Bool.or_true, if_pos rfl]
  split at h
  · cases h
  · next hfits =>
    rw [if_neg hfits]
    split at h
    · cases h
    · split at h
      · next hstopped => exact ⟨rfl, hstopped⟩
      · cases h

theorem Recorded.close (h : Recorded interval history server) (now : Time) :
    Recorded interval (history ++ [(now, .event .stop)]) server.close := by
  refine h.plain (alike_close server) (by simp [Entry.subject?]) rfl ?_ ?_
  · rw [History.phase_stop, ← h.phase]
    cases hphase : server.phase <;> simp [Server.close, hphase]
  · simp [History.isStopped, Entry.isStop]

theorem Recorded.await (h : Recorded interval history server) (now : Time) :
    Recorded interval (history ++ server.await.2.map fun action => (now, .action action))
      server.await.1 := by
  cases halone : server.isAlone with
  | false =>
    have hawait : server.await = (server, []) := by simp [Server.await, conclude, halone]
    rw [hawait, List.map_nil, List.append_nil]
    exact h
  | true =>
    have hawait : server.await = ({ server with phase := .returned }, [.returned]) := by
      simp [Server.await, conclude, halone]
    have hclosing : server.phase = .closing := by
      rw [isAlone, Bool.and_eq_true, beq_iff_eq] at halone
      exact halone.1
    rw [h.phase] at hclosing
    obtain ⟨hphase, hstopped⟩ := History.phase_return hclosing now
    rw [hawait]
    refine h.plain ⟨rfl, rfl, rfl, fun _ => rfl⟩ (by simp [Entry.subject?]) rfl hphase.symm ?_
    simp [hstopped]

/-! ## sessions that begin, go on and end -/

theorem Recorded.enrol (h : Recorded interval history server) (hsound : Sound server) (now : Time) :
    Recorded interval (history ++ moment now .connect [.admitted (.accepted (server.last + 1))])
      (server.enrol now) := by
  have hnext : server.last + 1 ∉ history.ended := by
    rw [h.ended]
    rintro ⟨session, hsession, -⟩
    rw [session?, hsound.task?_next] at hsession
    cases hsession
  refine ⟨h.pushInterval, ?_, fun number => ?_, ?_, fun number => ?_, ?_, ?_⟩
  · rw [History.accepted_append, h.accepted]
    simp [Server.enrol, numbers, moment, History.accepted, Entry.accepted?]
  · have hended : (moment now .connect [.admitted (.accepted (server.last + 1))]).ended = [] := rfl
    rw [History.ended_append, hended, List.append_nil, hsound.session?_enrol]
    split
    · next heq =>
      subst heq
      simp [hnext, Session.start, Session.outcome?]
    · exact h.ended number
  · have hended : (moment now .connect [.admitted (.accepted (server.last + 1))]).ended = [] := rfl
    rw [History.ended_append, hended, List.append_nil]
    exact h.endedOnce
  · rw [History.course_append, ← h.course number, hsound.session?_enrol, h.pushInterval]
    rfl
  · rw [History.phase_append rfl rfl]
    exact h.phase
  · exact History.returned_append h.returned rfl

theorem moment_task (now : Time) (number : Nat) (incident : Incident) (actions : List Session.Action)
    (outcome? : Option (Except Error Unit)) :
    let more := moment now (.task number incident)
      (actions.map (.session number) ++ (outcome?.map (.ended number)).toList)
    more.accepted = [] ∧ more.ended = (outcome?.map fun _ => number).toList ∧
      more.isStopped = false ∧ more.hasReturned = false ∧
      ∀ interval one session?, more.after interval one session? =
        if number = one then session?.map fun session => (incident.change now session).1
        else session? := by
  have hrest : ∀ entry ∈ (actions.map (Action.session number) ++
      (outcome?.map (Action.ended number)).toList).map fun action => (now, Entry.action action),
      entry.2.subject? = none := by
    intro entry hentry
    rw [List.mem_map] at hentry
    obtain ⟨action, haction, rfl⟩ := hentry
    rw [List.mem_append, List.mem_map, Option.mem_toList, Option.map_eq_some_iff] at haction
    rcases haction with ⟨_, -, rfl⟩ | ⟨_, -, rfl⟩ <;> rfl
  have haccepted := History.accepted_of_none hrest
  refine ⟨haccepted, ?_, ?_, ?_, fun interval one session? => ?_⟩
  · cases outcome? <;> simp [moment, History.ended, Entry.ended?, List.filterMap_map]
  · cases outcome? <;> simp [moment, History.isStopped, Entry.isStop]
  · cases outcome? <;> simp [moment, History.hasReturned, Entry.isReturn]
  · rw [moment, History.after, List.foldl_cons]
    exact History.after_of_ne (fun entry hentry => by rw [hrest entry hentry]; nofun) interval _

theorem Recorded.suffered (h : Recorded interval history server) {number : Nat} {incident : Incident}
    {outcome? : Option (Except Error Unit)} {next : Server}
    (hsuffered : Suffered now server number incident outcome? next)
    (actions : List Session.Action) :
    Recorded interval (history ++ moment now (.task number incident)
      (actions.map (.session number) ++ (outcome?.map (.ended number)).toList)) next := by
  obtain ⟨haccepted, hended, hstop, hreturn, hafter⟩ :=
    moment_task now number incident actions outcome?
  refine ⟨hsuffered.pushInterval.trans h.pushInterval, ?_, fun one => ?_, ?_, fun one => ?_, ?_,
    History.returned_append h.returned hreturn⟩
  · rw [History.accepted_append, haccepted, List.append_nil, h.accepted, hsuffered.numbers]
  · rw [History.ended_append, hended, List.mem_append, h.ended, hsuffered.over_iff]
    cases outcome? <;> simp
  · rw [History.ended_append, hended]
    cases houtcome : outcome? with
    | none => simpa using h.endedOnce
    | some outcome =>
      obtain ⟨session, hsession, hlive, -⟩ := (hsuffered.ends outcome).1 houtcome
      have hnot : number ∉ history.ended := by
        rw [h.ended]
        rintro ⟨other, hother, hover⟩
        rw [hsession, Option.some_inj] at hother
        rw [← hother, hlive] at hover
        cases hover
      exact List.nodup_append_comm.1 (List.nodup_cons.2 ⟨hnot, h.endedOnce⟩)
  · rw [History.course_append, hafter, hsuffered.session?, h.course]
  · rw [History.phase_append hstop hreturn, hsuffered.phase, hsuffered.slots]
    exact h.phase

/-! ## whole histories -/

theorem Recorded.connect (h : Recorded interval history server) (hsound : Sound server) (now : Time) :
    Recorded interval (history ++ moment now .connect [.admitted (server.connect now).2])
      (server.connect now).1 := by
  have hsame : ∀ admission, Entry.subject? (.action (.admitted admission)) = none →
      Recorded interval (history ++ moment now .connect [.admitted admission]) server := by
    intro admission hnobody
    refine h.quiet ⟨rfl, rfl, rfl, fun _ => rfl⟩ (fun entry hentry => ?_) rfl rfl rfl rfl
    rw [moment, List.map_singleton, List.mem_pair] at hentry
    rcases hentry with rfl | rfl
    · rfl
    · exact hnobody
  unfold Server.connect
  split
  · split
    · exact hsame _ rfl
    · exact h.enrol hsound now
  all_goals exact hsame _ rfl

theorem Recorded.step (h : Recorded interval history server) (hsound : Sound server) (now : Time)
    (event : Event) :
    Recorded interval (history ++ moment now event (server.step now event).2)
      (server.step now event).1 := by
  cases event with
  | connect => exact h.connect hsound now
  | acceptFailed error =>
    exact h.quiet ⟨rfl, rfl, rfl, fun _ => rfl⟩ (by simp [Server.step, moment, Entry.subject?])
      rfl rfl rfl rfl
  | task number incident =>
    exact h.suffered ((hsound.happened now number incident).suffered hsound) _
  | notice number =>
    have hnoticed : Recorded interval (history ++ [(now, .event (.notice number))])
        (server.notice number) :=
      h.quiet (hsound.alike_notice number) (by simp [Entry.subject?]) rfl rfl rfl
        (phase_notice server number)
    have hawaited := hnoticed.await now
    rwa [List.append_assoc] at hawaited
  | stop =>
    have hstopped := (h.close now).await now
    rwa [List.append_assoc] at hstopped

theorem Recorded.record (h : Recorded interval history server) (hsound : Sound server)
    (events : List (Time × Event)) :
    Recorded interval (history ++ (server.record events).1) (server.record events).2 ∧
      Sound (server.record events).2 ∧ (server.record events).2.slots = server.slots := by
  induction events generalizing history server with
  | nil =>
    rw [Server.record, List.append_nil]
    exact ⟨h, hsound, rfl⟩
  | cons moment rest ih =>
    obtain ⟨now, event⟩ := moment
    have hnext := ih (h.step hsound now event) (hsound.step event)
    rw [hsound.slots_step, List.append_assoc] at hnext
    exact hnext

/-! ## the law -/

theorem Recorded.mem_live (h : Recorded interval history server) (hsound : Sound server)
    (number : Nat) :
    number ∈ history.live ↔
      ∃ session, server.session? number = some session ∧ session.outcome? = none := by
  have hmem : number ∈ history.live ↔ number ∈ server.numbers ∧ number ∉ history.ended := by
    rw [History.live, List.mem_filter, h.accepted]
    simp
  rw [hmem, hsound.mem_numbers, h.ended]
  constructor
  · rintro ⟨⟨session, hsession⟩, hnot⟩
    refine ⟨session, hsession, ?_⟩
    cases houtcome : session.outcome? with
    | none => rfl
    | some outcome => exact absurd ⟨session, hsession, by rw [houtcome]; rfl⟩ hnot
  · rintro ⟨session, hsession, hlive⟩
    refine ⟨⟨session, hsession⟩, ?_⟩
    rintro ⟨other, hother, hover⟩
    rw [hsession, Option.some_inj] at hother
    rw [← hother, hlive] at hover
    cases hover

theorem Recorded.length_live (h : Recorded interval history server) (hsound : Sound server) :
    history.live.length = server.tasks.countP (·.holding) := by
  rw [History.live, ← List.countP_eq_length_filter, h.accepted, numbers, List.countP_map]
  refine List.countP_congr fun task htask => ?_
  have hsession : server.session? task.number = some task.session := by
    rw [session?, hsound.task?_of_mem htask]
    rfl
  have hended := h.ended task.number
  simp only [hsession, Option.some_inj, exists_eq_left'] at hended
  rw [hsound.holding task htask, Task.isOver, Function.comp_apply]
  simp [hended]

theorem Recorded.balanced (h : Recorded interval history server) (hsound : Sound server) :
    server.free + history.live.length = server.slots := by
  rw [h.length_live hsound]
  exact hsound.balanced

theorem Recorded.numbered (h : Recorded interval history server) (hsound : Sound server) :
    history.accepted.length = server.last ∧
      history.accepted = List.range' 1 history.accepted.length := by
  rw [h.accepted, hsound.numbered, List.length_range']
  exact ⟨rfl, rfl⟩

theorem Recorded.admission (h : Recorded interval history server) (hsound : Sound server)
    (now : Time) : history.admission server.slots = (server.connect now).2 := by
  have hbalanced := h.balanced hsound
  have hlast := (h.numbered hsound).1
  rw [History.admission, ← h.phase, Server.connect]
  cases server.phase with
  | serving =>
    dsimp only
    by_cases hfree : server.free = 0
    · rw [if_pos hfree, if_neg (by omega)]
    · rw [if_neg hfree, if_pos (by omega), hlast]
  | closing | returned | broken => rfl

theorem Recorded.returned_alone (h : Recorded interval history server) (hsound : Sound server)
    (hreturned : history.hasReturned = true) : history.isStopped = true ∧ history.live = [] := by
  refine ⟨h.returned hreturned, List.eq_nil_of_length_eq_zero ?_⟩
  rw [h.length_live hsound, List.countP_eq_zero]
  intro task htask
  -- a service that never came up has no tasks; one that has returned knows the end of all of them
  have hphase : server.phase = .returned ∨ server.phase = .broken := by
    rw [h.phase, History.phase, if_pos hreturned]
    split
    · exact .inr rfl
    · exact .inl rfl
  rcases hphase with hphase | hphase
  · have hover := hsound.noticed task htask (hsound.returned hphase task htask)
    rw [hsound.holding task htask, hover]
    exact Bool.false_ne_true
  · rw [hsound.broken hphase] at htask
    cases htask

theorem Recorded.ended_subset (h : Recorded interval history server) (hsound : Sound server) :
    history.ended ⊆ history.accepted := by
  intro number hended
  obtain ⟨session, hsession, -⟩ := (h.ended number).1 hended
  rw [h.accepted, hsound.mem_numbers]
  exact ⟨session, hsession⟩

theorem Recorded.nodup_live (h : Recorded interval history server) (hsound : Sound server) :
    history.live.Nodup := by
  rw [History.live, h.accepted]
  exact hsound.nodup.filter _

theorem History.live_task (history : History) (now : Time) (number : Nat) (incident : Incident)
    (actions : List Session.Action) (outcome? : Option (Except Error Unit)) :
    live (history ++ moment now (.task number incident)
      (actions.map (.session number) ++ (outcome?.map (.ended number)).toList)) =
        match outcome? with
        | none => history.live
        | some _ => history.live.filter (· != number) := by
  obtain ⟨haccepted, hended, -⟩ := moment_task now number incident actions outcome?
  rw [live, accepted_append, ended_append, haccepted, hended, List.append_nil]
  cases outcome? with
  | none => simp [live]
  | some outcome =>
    rw [live, List.filter_filter]
    refine List.filter_congr fun one _ => ?_
    rw [Bool.eq_iff_iff]
    simp [and_comm]

/-- a live session goes on, or ends and gives its slot back -/
theorem Recorded.ends (h : Recorded interval history server) (hsound : Sound server) (now : Time)
    {number : Nat} {session : Session} (incident : Incident) (hlive : number ∈ history.live)
    (hsession : server.session? number = some session) :
    let result := server.step now (.task number incident)
    let changed := (incident.change now session).1
    let live := History.live (history ++ moment now (.task number incident) result.2)
    result.1.session? number = some changed ∧
      match changed.outcome? with
      | none => live = history.live ∧ result.1.free = server.free
      | some outcome =>
        .ended number outcome ∈ result.2 ∧ live = history.live.erase number ∧
          result.1.free = server.free + 1 := by
  intro result changed live
  have hsuffered := (hsound.happened now number incident).suffered hsound
  have hwaslive : session.outcome? = none := by
    obtain ⟨other, hother, houtcome⟩ := (h.mem_live hsound number).1 hlive
    rw [hsession, Option.some_inj] at hother
    rwa [hother]
  have houtcome : (server.happen now number incident).2.2 = changed.outcome? := by
    refine Option.ext fun outcome => (hsuffered.ends outcome).trans ⟨?_, fun hover => ?_⟩
    · rintro ⟨other, hother, -, hover⟩
      rw [hsession, Option.some_inj] at hother
      subst hother
      exact hover
    · exact ⟨session, hsession, hwaslive, hover⟩
  have hfree : result.1.free = server.free + changed.outcome?.isSome.toNat :=
    houtcome ▸ hsuffered.free
  have hlives := history.live_task now number incident (server.happen now number incident).2.1
    (server.happen now number incident).2.2
  refine ⟨?_, ?_⟩
  · rw [show result.1.session? number = _ from hsuffered.session? number, if_pos rfl, hsession]
    rfl
  · change live = _ at hlives
    have hactions : result.2 = (server.happen now number incident).2.1.map (.session number) ++
        (changed.outcome?.map (.ended number)).toList := houtcome ▸ rfl
    rw [houtcome] at hlives
    cases hchanged : changed.outcome? with
    | none =>
      rw [hchanged] at hlives hfree
      exact ⟨hlives, hfree⟩
    | some outcome =>
      rw [hchanged] at hlives hfree hactions
      rw [(h.nodup_live hsound).erase_eq_filter, hactions]
      exact ⟨by simp, hlives, hfree⟩

end

/-- What holds after a history of a service with so many slots, and of the event that comes next. -/
structure Orderly (slots : Nat) (interval : Time) (history : History) (server : Server) (now : Time)
    (event : Event) (actions : List Action) (next : Server) : Prop where
  /-- sessions are numbered 1, 2, 3, ... -/
  numbered : history.accepted = List.range' 1 history.accepted.length
  /-- each of them ends at most once -/
  endedOnce : history.ended.Nodup ∧ history.ended ⊆ history.accepted
  live : ∀ number, number ∈ history.live ↔
    ∃ session, server.session? number = some session ∧ session.outcome? = none
  bounded : history.live.length ≤ slots
  /-- a slot is free or held by one live session -/
  balanced : server.free + history.live.length = slots
  /-- a session is what its own entries make of it -/
  course : ∀ number, server.session? number = history.course interval number
  /-- the service returns when it has seen that it is to stop and no session is live -/
  returned : history.hasReturned = true → history.isStopped = true ∧ history.live = []
  /-- nothing else is done for a client that connects -/
  admitted : event = .connect → actions = [.admitted (history.admission slots)]
  /-- a session that ends gives one slot back, in whatever way it ends -/
  ends : ∀ number incident session, event = .task number incident → number ∈ history.live →
    server.session? number = some session →
    let changed := (incident.change now session).1
    let live := History.live (history ++ moment now event actions)
    next.session? number = some changed ∧
      match changed.outcome? with
      | none => live = history.live ∧ next.free = server.free
      | some outcome =>
        .ended number outcome ∈ actions ∧ live = history.live.erase number ∧
          next.free = server.free + 1
  /-- what happens to one session, or to the service, leaves the others as they are -/
  others : ∀ number ∈ history.live, (∀ incident, event ≠ .task number incident) →
    number ∈ History.live (history ++ moment now event actions) ∧
      next.session? number = server.session? number

/-- **Sessions share the slots, whatever happens in whatever order.** -/
theorem shares_slots (maxClients : Nat) (interval : Time) (events : List (Time × Event)) (now : Time)
    (event : Event) :
    let past := (start maxClients interval).record events
    let result := past.2.step now event
    Orderly (max 1 maxClients) interval past.1 past.2 now event result.2 result.1 := by
  intro past result
  obtain ⟨h, hsound, hslots⟩ :=
    (recorded_start maxClients interval).record (sound_start maxClients interval) events
  rw [List.nil_append] at h
  change past.2.slots = max 1 maxClients at hslots
  have hnext := h.step hsound now event
  have hbalanced := h.balanced hsound
  rw [hslots] at hbalanced
  constructor
  case numbered => exact (h.numbered hsound).2
  case endedOnce => exact ⟨h.endedOnce, h.ended_subset hsound⟩
  case live => exact h.mem_live hsound
  case bounded => exact hbalanced ▸ Nat.le_add_left _ _
  case balanced => exact hbalanced
  case course => exact h.course
  case returned => exact h.returned_alone hsound
  case admitted =>
    rintro rfl
    rw [← hslots, h.admission hsound now]
    rfl
  case ends =>
    rintro number incident session rfl hlive hsession
    exact h.ends hsound now incident hlive hsession
  case others =>
    intro number hlive hevent
    obtain ⟨session, hsession, houtcome⟩ := (h.mem_live hsound number).1 hlive
    have hmem := (hsound.mem_numbers number).2 ⟨session, hsession⟩
    have hsame := hsound.step_other now hmem hevent
    exact ⟨(hnext.mem_live (hsound.step event) number).2 ⟨session, hsame.trans hsession, houtcome⟩,
      hsame⟩

/-- the second of three clients finds the only slot taken, and the third finds it given back -/
example : ((start 1 1000).record [(0, .connect), (1, .connect),
    (2, .task 1 (.failure .linkClosed)), (3, .connect)]).1.accepted = [1, 2] := rfl

end CameraPower.Server
