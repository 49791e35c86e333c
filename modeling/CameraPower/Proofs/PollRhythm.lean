import CameraPower.Monitor
import CameraPower.Proofs.SessionAlarms

/-!
# The rhythm of the monitor's polls

A monitor is left to its surroundings: the controller answers when and what it likes, the clock is
late, and others meddle with the log directory.  Ticks are `start + k * interval`, each one behind
the one before, and no poll begins before its tick.  A poll takes up one tick at least, and so there
are never more polls than ticks.

* `Monitor.nextTick_cases`      the next tick is some intervals later, and one interval off at most;
* `Monitor.take_eq`             a poll's result, whatever comes of its log entry;
* `Observed`                    a monitor, the clock, and the polls and alarms that were seen of it;
* `Observed.Occurred`           what an event can come to;
* `Observed.Keeps.pass`         what one moment keeps, and `Observed.Keeps.run` all moments;
* `Monitor.polls_until_told`    the law, and `Monitor.polls_without_log` a run with no log to write.
-/

namespace CameraPower.Monitor

/-! ## ticks, and what a poll comes to -/

theorem next_multiple {i t n : Nat} (hpositive : 0 < i) (hle : t ≤ n) :
    n + i - (n - t) % i = t + ((n - t) / i + 1) * i := by
  have hrest : (n - t) % i < i := Nat.mod_lt _ hpositive
  have hsplit : i * ((n - t) / i) + (n - t) % i = n - t := Nat.div_add_mod _ _
  rw [Nat.add_mul, Nat.one_mul, Nat.mul_comm ((n - t) / i)]
  omega

/-- A tick that is due is followed by one that is whole intervals later. -/
theorem nextTick_cases {interval tick now : Time} (hinterval : 0 < interval) (hdue : tick ≤ now) :
    (∃ k, nextTick interval tick now = tick + (k + 1) * interval) ∧
      nextTick interval tick now ≤ now + interval := by
  unfold nextTick
  by_cases hmissed : tick + leniency < now
  · rw [if_pos hmissed]
    exact ⟨⟨(now - tick) / interval, next_multiple hinterval hdue⟩, Nat.sub_le _ _⟩
  · rw [if_neg hmissed]
    refine ⟨⟨0, ?_⟩, Nat.add_le_add_right hdue _⟩
    rw [Nat.zero_add, Nat.one_mul]

/-- the `k`-th instant is `k` intervals after the first one, or later -/
def Paced (interval first : Time) (instants : List Time) : Prop :=
  ∀ k instant, instants[k]? = some instant → first + k * interval ≤ instant

theorem Paced.concat {interval first last : Time} {instants : List Time}
    (h : Paced interval first instants) (hlast : first + instants.length * interval ≤ last) :
    Paced interval first (instants ++ [last]) := by
  intro k instant hk
  rcases Nat.lt_trichotomy k instants.length with hlt | rfl | hgt
  · rw [List.getElem?_append_left hlt] at hk
    exact h k instant hk
  · rw [List.getElem?_concat_length] at hk
    cases hk
    exact hlast
  · rw [List.getElem?_eq_none (by simpa using Nat.succ_le_of_lt hgt)] at hk
    cases hk

theorem Paced.countP_le {interval first : Time} {instants : List Time}
    (h : Paced interval first instants) (hinterval : 0 < interval) (time : Time) :
    instants.countP (· ≤ first + time) ≤ time / interval + 1 := by
  -- What stands behind the first `time / interval + 1` instants comes too late to be counted.
  have hlate : ∀ instant ∈ instants.drop (time / interval + 1), ¬ instant ≤ first + time := by
    intro instant hinstant hearly
    obtain ⟨k, hk⟩ := List.mem_iff_getElem?.1 hinstant
    rw [List.getElem?_drop] at hk
    have hpaced := h _ instant hk
    have hmultiple : time < (time / interval + 1) * interval := by
      rw [Nat.mul_comm]
      exact Nat.lt_mul_div_succ time hinterval
    have hlater : (time / interval + 1) * interval ≤ (time / interval + 1 + k) * interval :=
      Nat.mul_le_mul_right interval (Nat.le_add_right _ k)
    exact Nat.not_lt.2 (hpaced.trans hearly)
      (Nat.add_lt_add_left (hmultiple.trans_le hlater) first)
  have hnone : (instants.drop (time / interval + 1)).countP (· ≤ first + time) = 0 := by
    apply List.countP_eq_zero.2
    intro instant hinstant
    simpa using hlate instant hinstant
  calc instants.countP (· ≤ first + time)
      = (instants.take (time / interval + 1)).countP (· ≤ first + time) := by
        conv_lhs => rw [← List.take_append_drop (time / interval + 1) instants]
        rw [List.countP_append, hnone, Nat.add_zero]
    _ ≤ (instants.take (time / interval + 1)).length := List.countP_le_length
    _ ≤ time / interval + 1 := List.length_take_le _ _

/-- the reading has the flag by which the controller asks the host to shut down -/
def flagged : Except Error Telemetry → Bool
  | .ok t => t.flags.toNat.testBit 6
  | .error _ => false

/-- **Neither count nor alarm depends on what comes of the log entry.** -/
theorem take_eq (localTime timestamp : String) (monitor : Monitor)
    (result : Except Error Telemetry) :
    ∃ logging, monitor.take localTime timestamp result =
      ({ monitor with
          last := some result
          samples := monitor.samples + result.isOk.toNat
          logging },
        if flagged result then [.requestShutdown] else []) := by
  cases result with
  | error error => exact ⟨monitor.logging, rfl⟩
  | ok t =>
    have hrecord : ∀ counted : Monitor, ∃ logging,
        counted.record localTime timestamp t = { counted with logging } := by
      intro counted
      unfold record
      split
      · exact ⟨counted.logging, rfl⟩
      · exact ⟨_, rfl⟩
    obtain ⟨logging, hlogging⟩ :=
      hrecord { monitor with last := some (.ok t), samples := monitor.samples + 1 }
    refine ⟨logging, ?_⟩
    show (record _ _ _ _, if t.shutdownRequested then _ else _) = _
    rw [hlogging, Session.shutdownRequested_eq_testBit]
    rfl

/-! ## steps of a monitor that polls by itself -/

section
variable {localTime timestamp : String} {now tick : Time} {monitor : Monitor}

def Event.isStop : Event → Bool
  | .stop => true
  | _ => false

def told (monitor : Monitor) (event : Event) : Monitor :=
  { monitor with stopping := event.isStop || monitor.stopping }

theorem step_waiting (hphase : monitor.phase = .waiting tick) (event : Event) :
    monitor.step localTime timestamp now event = match event with
      | .stop | .clock => (monitor.told event).await now tick
      | _ => (monitor.told event, []) := by
  obtain ⟨_, _, _, _, _, _⟩ := monitor
  obtain rfl := hphase
  cases event <;> rfl

theorem step_polling (hphase : monitor.phase = .polling (some tick)) (event : Event) :
    monitor.step localTime timestamp now event = match event with
      | .answered answer =>
        let took := monitor.take localTime timestamp (Controller.batteryData.result answer)
        ((took.1.await now tick).1, took.2 ++ (took.1.await now tick).2)
      | _ => (monitor.told event, []) := by
  obtain ⟨_, _, _, _, _, _⟩ := monitor
  obtain rfl := hphase
  cases event <;> rfl

theorem step_stopped (hphase : monitor.phase = .stopped) (event : Event) :
    monitor.step localTime timestamp now event = (monitor.told event, []) := by
  obtain ⟨_, _, _, _, _, _⟩ := monitor
  obtain rfl := hphase
  cases event <;> rfl

end

/-! ## a monitor under observation -/

structure Poll where
  began : Time
  ended : Time
  answer : Answer
  deriving DecidableEq, Repr

def Poll.result (poll : Poll) : Except Error Telemetry :=
  Controller.batteryData.result poll.answer

def Poll.succeeded (poll : Poll) : Bool := poll.result.isOk

def Poll.alarming (poll : Poll) : Bool := flagged poll.result

/-- an event, and what has changed since the event before it -/
structure Moment where
  pause : Time := 0
  /-- what others have made of the log directory -/
  meddle : Directory → Directory := id
  localTime : String := ""
  timestamp : String := ""
  event : Event

/-- a monitor, the clock, and what was seen so far -/
structure Observed where
  now : Time
  monitor : Monitor
  /-- when the polls began that still wait for their answers -/
  waiting : List Time := []
  polls : List Poll := []
  /-- when a shutdown of the host was asked for -/
  alarms : List Time := []

namespace Observed

def starts (observed : Observed) : List Time :=
  observed.polls.map Poll.began ++ observed.waiting

/-- an answer is one to the poll that has waited longest -/
def hear (observed : Observed) : Event → Observed
  | .answered answer =>
    match observed.waiting with
    | [] => observed
    | began :: waiting =>
      { observed with waiting, polls := observed.polls ++ [⟨began, observed.now, answer⟩] }
  | _ => observed

def see (observed : Observed) : Action → Observed
  | .ask _ => { observed with waiting := observed.waiting ++ [observed.now] }
  | .requestShutdown => { observed with alarms := observed.alarms ++ [observed.now] }

def follow (observed : Observed) (did : Monitor × List Action) : Observed :=
  did.2.foldl see { observed with monitor := did.1 }

def reach (observed : Observed) (moment : Moment) : Observed :=
  { observed with
    now := observed.now + moment.pause
    monitor.logging := observed.monitor.logging.map fun logging =>
      { logging with directory := moment.meddle logging.directory } }

def occur (observed : Observed) (localTime timestamp : String) (event : Event) : Observed :=
  (observed.hear event).follow
    (observed.monitor.step localTime timestamp observed.now event)

def pass (observed : Observed) (moment : Moment) : Observed :=
  (observed.reach moment).occur moment.localTime moment.timestamp moment.event

def run (observed : Observed) (moments : List Moment) : Observed :=
  moments.foldl pass observed

def launch (interval : Time) (logging : Option Logging) (start : Time) : Observed :=
  pass { now := start, monitor := { interval, logging } } { event := .run }

/-- what an event changes, whether or not the monitor acts on it -/
def told (observed : Observed) (event : Event) : Observed :=
  { observed with monitor := observed.monitor.told event }

def proceed (observed : Observed) (tick : Time) : Observed :=
  observed.follow (observed.monitor.await observed.now tick)

theorem follow_eq (observed : Observed) (did : Monitor × List Action) :
    ∃ waiting alarms, observed.follow did =
      { observed with monitor := did.1, waiting, alarms } := by
  unfold follow
  induction did.2 using List.reverseRecOn with
  | nil => exact ⟨_, _, rfl⟩
  | append_singleton actions action ih =>
    obtain ⟨waiting, alarms, hseen⟩ := ih
    rw [List.foldl_append, hseen]
    cases action <;> exact ⟨_, _, rfl⟩

theorem follow_monitor (observed : Observed) (did : Monitor × List Action) :
    (observed.follow did).monitor = did.1 := by
  obtain ⟨waiting, alarms, hfollow⟩ := observed.follow_eq did
  rw [hfollow]

theorem run_append (observed : Observed) (before after : List Moment) :
    observed.run (before ++ after) = (observed.run before).run after :=
  List.foldl_append

/-! ## what is true at all times -/

section
variable {interval start tick : Time} {observed next : Observed} {event : Event}
  {localTime timestamp : String}

structure Sound (interval start : Time) (observed : Observed) : Prop where
  interval_eq : observed.monitor.interval = interval
  positive : 0 < interval
  apart : observed.polls.Pairwise (·.ended ≤ ·.began)
  past : ∀ poll ∈ observed.polls, poll.began ≤ poll.ended ∧ poll.ended ≤ observed.now
  begun : ∀ began ∈ observed.waiting, began ≤ observed.now
  behind : ∀ began ∈ observed.waiting, ∀ poll ∈ observed.polls, poll.ended ≤ began
  paced : Paced interval start observed.starts
  alarms : observed.alarms = (observed.polls.filter Poll.alarming).map Poll.ended
  samples : observed.monitor.samples = observed.polls.countP Poll.succeeded

/-- The tick is none of those that the polls so far have taken up, and it is near. -/
def Due (interval start tick : Time) (observed : Observed) : Prop :=
  (∃ k, observed.starts.length ≤ k ∧ tick = start + k * interval) ∧
    tick ≤ observed.now + interval

/-- where a monitor can be that polls by itself -/
inductive Stands (interval start : Time) (observed : Observed) : Prop where
  | waiting {tick : Time} (phase : observed.monitor.phase = .waiting tick)
      (rest : observed.waiting = []) (going : observed.monitor.stopping = false)
      (due : Due interval start tick observed)
  | polling {tick began : Time} (phase : observed.monitor.phase = .polling (some tick))
      (asked : observed.waiting = [began]) (due : Due interval start tick observed)
  | stopped (phase : observed.monitor.phase = .stopped) (rest : observed.waiting = [])
      (told : observed.monitor.stopping = true)

structure Keeps (interval start : Time) (observed : Observed) : Prop where
  sound : Sound interval start observed
  stands : Stands interval start observed

theorem Sound.later (h : Sound interval start observed) (pause : Time) (monitor : Monitor)
    (hinterval : monitor.interval = observed.monitor.interval)
    (hsamples : monitor.samples = observed.monitor.samples) :
    Sound interval start { observed with now := observed.now + pause, monitor } where
  interval_eq := hinterval.trans h.interval_eq
  positive := h.positive
  apart := h.apart
  past := fun poll hpoll =>
    ⟨(h.past poll hpoll).1, (h.past poll hpoll).2.trans (Nat.le_add_right _ _)⟩
  begun := fun began hbegan => (h.begun began hbegan).trans (Nat.le_add_right _ _)
  behind := h.behind
  paced := h.paced
  alarms := h.alarms
  samples := hsamples.trans h.samples

theorem Due.later (h : Due interval start tick observed) (pause : Time) (monitor : Monitor) :
    Due interval start tick { observed with now := observed.now + pause, monitor } :=
  ⟨h.1, h.2.trans (Nat.add_le_add_right (Nat.le_add_right _ _) _)⟩

/-- a poll begins at its tick or later -/
theorem Sound.begins (h : Sound interval start observed) (hrest : observed.waiting = [])
    (hdue : Due interval start tick observed) (hnow : tick ≤ observed.now) :
    Keeps interval start (observed.follow
      (observed.monitor.poll (some (nextTick observed.monitor.interval tick observed.now)))) := by
  -- The tick taken is the one at `k` intervals, and the next one is at `k + more + 1`.
  obtain ⟨⟨k, hk, rfl⟩, -⟩ := hdue
  obtain ⟨⟨more, hmore⟩, hnear⟩ := nextTick_cases h.positive hnow
  have hstarts : observed.starts = observed.polls.map Poll.began := by
    rw [starts, hrest, List.append_nil]
  show Keeps interval start
    { observed with
      waiting := observed.waiting ++ [observed.now]
      monitor.phase := .polling (some (nextTick observed.monitor.interval _ observed.now)) }
  rw [h.interval_eq, hrest, List.nil_append]
  refine ⟨⟨h.interval_eq, h.positive, h.apart, h.past, ?_, ?_, ?_, h.alarms, h.samples⟩,
    .polling rfl rfl ⟨⟨k + more + 1, ?_, ?_⟩, hnear⟩⟩
  · intro began hbegan
    exact Nat.le_of_eq (List.mem_singleton.1 hbegan)
  · intro began hbegan poll hpoll
    rw [List.mem_singleton.1 hbegan]
    exact (h.past poll hpoll).2
  · show Paced interval start (observed.polls.map Poll.began ++ [observed.now])
    rw [← hstarts]
    apply h.paced.concat
    exact (Nat.add_le_add_left (Nat.mul_le_mul_right interval hk) start).trans hnow
  · show (observed.polls.map Poll.began ++ [observed.now]).length ≤ k + more + 1
    rw [← hstarts, List.length_append, List.length_singleton]
    omega
  · rw [hmore, Nat.add_assoc, ← Nat.add_mul, Nat.add_assoc k]

theorem Sound.proceed (h : Sound interval start observed) (hrest : observed.waiting = [])
    (hdue : Due interval start tick observed) : Keeps interval start (observed.proceed tick) := by
  unfold Observed.proceed Monitor.await
  cases hstopping : observed.monitor.stopping with
  | true =>
    exact ⟨h.later 0 { observed.monitor with phase := .stopped, stopping := true } rfl rfl,
      .stopped rfl hrest rfl⟩
  | false =>
    rw [if_neg Bool.false_ne_true]
    by_cases hnow : tick ≤ observed.now
    · rw [if_pos hnow]
      exact h.begins hrest hdue hnow
    · rw [if_neg hnow]
      exact ⟨h.later 0 { observed.monitor with phase := .waiting tick, stopping := false } rfl rfl,
        .waiting rfl hrest rfl hdue⟩

/-- the poll under way has come to its end -/
def conclude (observed : Observed) (began : Time) (answer : Answer) (logging : Option Logging) :
    Observed :=
  let result := Controller.batteryData.result answer
  { observed with
    waiting := []
    polls := observed.polls ++ [⟨began, observed.now, answer⟩]
    alarms := observed.alarms ++ if flagged result then [observed.now] else []
    monitor.last := some result
    monitor.samples := observed.monitor.samples + result.isOk.toNat
    monitor.logging := logging }

theorem starts_conclude {began : Time} (hwaiting : observed.waiting = [began]) (answer : Answer)
    (logging : Option Logging) :
    (observed.conclude began answer logging).starts = observed.starts := by
  simp [starts, conclude, hwaiting]

theorem Sound.conclude {began : Time} (h : Sound interval start observed)
    (hwaiting : observed.waiting = [began]) (answer : Answer) (logging : Option Logging) :
    Sound interval start (observed.conclude began answer logging) where
  interval_eq := h.interval_eq
  positive := h.positive
  apart := by
    refine List.pairwise_append.2 ⟨h.apart, List.pairwise_singleton _ _, ?_⟩
    intro poll hpoll last hlast
    rw [List.mem_singleton.1 hlast]
    exact h.behind began (by simp [hwaiting]) poll hpoll
  past := by
    intro poll hpoll
    rcases List.mem_append.1 hpoll with hold | hlast
    · exact h.past poll hold
    · rw [List.mem_singleton.1 hlast]
      exact ⟨h.begun began (by simp [hwaiting]), Nat.le_refl _⟩
  begun := fun _ hnone => absurd hnone List.not_mem_nil
  behind := fun _ hnone => absurd hnone List.not_mem_nil
  paced := by
    rw [starts_conclude hwaiting]
    exact h.paced
  alarms := by
    show observed.alarms ++ _ = _
    rw [Observed.conclude, List.filter_append, List.map_append, ← h.alarms]
    congr 1
    show _ = (List.filter (fun poll => flagged poll.result) _).map Poll.ended
    cases hflag : flagged (Controller.batteryData.result answer) <;>
      simp [Poll.result, hflag]
  samples := by
    show observed.monitor.samples + _ = _
    rw [Observed.conclude, List.countP_append, ← h.samples]
    rfl

/-! ## one moment -/

theorem hear_rest (hrest : observed.waiting = []) (event : Event) :
    observed.hear event = observed := by
  cases event with
  | answered answer => simp only [hear, hrest]
  | run | poll | stop | clock => rfl

theorem occur_waiting (hphase : observed.monitor.phase = .waiting tick)
    (hrest : observed.waiting = []) (event : Event) :
    observed.occur localTime timestamp event = match event with
      | .stop | .clock => (observed.told event).proceed tick
      | _ => observed.told event := by
  rw [occur, hear_rest hrest, step_waiting hphase]
  cases event <;> rfl

theorem occur_stopped (hphase : observed.monitor.phase = .stopped)
    (hrest : observed.waiting = []) (event : Event) :
    observed.occur localTime timestamp event = observed.told event := by
  rw [occur, hear_rest hrest, step_stopped hphase]
  rfl

theorem occur_polling {began : Time} (hphase : observed.monitor.phase = .polling (some tick))
    (hwaiting : observed.waiting = [began]) (event : Event) :
    ∃ logging, observed.occur localTime timestamp event = match event with
      | .answered answer => (observed.conclude began answer logging).proceed tick
      | _ => observed.told event := by
  rw [occur, step_polling hphase]
  cases event with
  | run | poll | clock | stop => exact ⟨none, rfl⟩
  | answered answer =>
    obtain ⟨logging, htake⟩ := take_eq localTime timestamp observed.monitor
      (Controller.batteryData.result answer)
    refine ⟨logging, ?_⟩
    simp only [hear, hwaiting, htake, proceed, conclude]
    cases flagged (Controller.batteryData.result answer) with
    | true => rfl
    | false =>
      rw [if_neg Bool.false_ne_true, if_neg Bool.false_ne_true, List.append_nil]
      rfl

theorem Keeps.reach (h : Keeps interval start observed) (moment : Moment) :
    Keeps interval start (observed.reach moment) := by
  refine ⟨h.sound.later _ _ rfl rfl, ?_⟩
  cases h.stands with
  | waiting hphase hrest hgoing hdue => exact .waiting hphase hrest hgoing (hdue.later _ _)
  | polling hphase hasked hdue => exact .polling hphase hasked (hdue.later _ _)
  | stopped hphase hrest htold => exact .stopped hphase hrest htold

/-- What an event can come to: nothing but what it tells, or the monitor looks at its tick, at once
or behind the answer to its poll. -/
inductive Occurred (interval start : Time) (observed : Observed) (event : Event) : Observed → Prop
  | quiet (stands : Stands interval start (observed.told event)) :
      Occurred interval start observed event (observed.told event)
  | woken {tick : Time} (rest : observed.waiting = []) (due : Due interval start tick observed) :
      Occurred interval start observed event ((observed.told event).proceed tick)
  | ended {tick began : Time} {answer : Answer} (asked : observed.waiting = [began])
      (due : Due interval start tick observed) (logging : Option Logging)
      (answered : event = .answered answer) :
      Occurred interval start observed event
        ((observed.conclude began answer logging).proceed tick)

theorem Keeps.occurred (h : Keeps interval start observed) (event : Event) :
    Occurred interval start observed event (observed.occur localTime timestamp event) := by
  cases h.stands with
  | waiting hphase hrest hgoing hdue =>
    rw [occur_waiting hphase hrest]
    cases event with
    | stop | clock => exact .woken hrest hdue
    | run | poll | answered answer => exact .quiet (.waiting hphase hrest hgoing hdue)
  | polling hphase hasked hdue =>
    -- Only the answer matters: a tick that comes meanwhile is looked at behind it.
    obtain ⟨logging, hoccur⟩ := occur_polling hphase hasked event
    rw [hoccur]
    cases event with
    | answered answer => exact .ended hasked hdue logging rfl
    | run | poll | stop | clock => exact .quiet (.polling hphase hasked hdue)
  | stopped hphase hrest htold =>
    rw [occur_stopped hphase hrest]
    refine .quiet (.stopped hphase hrest ?_)
    show (event.isStop || observed.monitor.stopping) = true
    rw [htold, Bool.or_true]

theorem Occurred.keeps (hoccurred : Occurred interval start observed event next)
    (h : Keeps interval start observed) : Keeps interval start next := by
  have hsound : Sound interval start (observed.told event) := h.sound.later 0 _ rfl rfl
  cases hoccurred with
  | quiet hstands => exact ⟨hsound, hstands⟩
  | woken hrest hdue => exact hsound.proceed hrest hdue
  | ended hasked hdue logging hevent =>
    refine (h.sound.conclude hasked _ logging).proceed rfl ?_
    rw [Due, starts_conclude hasked]
    exact hdue

theorem Keeps.passed (h : Keeps interval start observed) (moment : Moment) :
    Occurred interval start (observed.reach moment) moment.event (observed.pass moment) :=
  (h.reach moment).occurred moment.event

theorem Keeps.pass (h : Keeps interval start observed) (moment : Moment) :
    Keeps interval start (observed.pass moment) :=
  (h.passed moment).keeps (h.reach moment)

/-! ## all moments -/

theorem Keeps.run (h : Keeps interval start observed) (moments : List Moment) :
    Keeps interval start (observed.run moments) := by
  induction moments generalizing observed with
  | nil => exact h
  | cons moment moments ih => exact ih (h.pass moment)

/-- The first tick is at the start, and it is taken at once. -/
theorem keeps_launch (hinterval : 0 < interval) (logging : Option Logging) (start : Time) :
    Keeps interval start (launch interval logging start) := by
  have hsound : ∀ logging : Option Logging,
      Sound interval start { now := start, monitor := { interval, logging } } := by
    intro logging
    refine ⟨rfl, hinterval, .nil, ?_, ?_, ?_, ?_, rfl, rfl⟩
    · intro poll hpoll
      cases hpoll
    · intro began hbegan
      cases hbegan
    · intro began hbegan
      cases hbegan
    · intro k began hbegan
      cases hbegan
  show Keeps interval start (follow _ (if interval = 0 then _ else _))
  rw [if_neg (Nat.ne_of_gt hinterval)]
  refine (hsound _).proceed rfl ⟨⟨0, Nat.le_refl _, ?_⟩, Nat.le_add_right _ _⟩
  rw [Nat.zero_mul]
  rfl

/-! ### being told to stop -/

theorem stopping_await (monitor : Monitor) (now tick : Time) :
    (monitor.await now tick).1.stopping = monitor.stopping := by
  unfold Monitor.await
  split
  · rfl
  · split <;> rfl

theorem stopping_proceed (observed : Observed) (tick : Time) :
    (observed.proceed tick).monitor.stopping = observed.monitor.stopping := by
  rw [proceed, follow_monitor, stopping_await]

theorem stopping_launch (interval : Time) (logging : Option Logging) (start : Time) :
    (launch interval logging start).monitor.stopping = false := by
  show (follow _ (if interval = 0 then _ else Monitor.await _ _ _)).monitor.stopping = false
  rw [follow_monitor]
  split
  · rfl
  · exact stopping_await _ _ _

theorem Occurred.stopping (h : Occurred interval start observed event next) :
    next.monitor.stopping = (event.isStop || observed.monitor.stopping) := by
  cases h with
  | quiet hstands => rfl
  | woken hrest hdue => exact stopping_proceed _ _
  | ended hasked hdue logging hevent =>
    rw [hevent]
    exact stopping_proceed _ _

theorem Keeps.stopping_pass (h : Keeps interval start observed) (moment : Moment) :
    (observed.pass moment).monitor.stopping =
      (moment.event.isStop || observed.monitor.stopping) :=
  (h.passed moment).stopping

theorem Keeps.stopping_run (h : Keeps interval start observed) (moments : List Moment) :
    (observed.run moments).monitor.stopping =
      (moments.any (·.event.isStop) || observed.monitor.stopping) := by
  induction moments generalizing observed with
  | nil => rfl
  | cons moment moments ih =>
    show ((observed.pass moment).run moments).monitor.stopping = _
    rw [ih (h.pass moment), h.stopping_pass, List.any_cons, ← Bool.or_assoc,
      Bool.or_comm (moments.any _)]

theorem proceed_told (htold : observed.monitor.stopping = true) (tick : Time) :
    observed.proceed tick = { observed with monitor.phase := .stopped } := by
  rw [proceed, Monitor.await, if_pos htold]
  rfl

/-- a monitor that is told to stop, or was told before, begins no poll -/
theorem Occurred.starts (h : Occurred interval start observed event next)
    (htold : (event.isStop || observed.monitor.stopping) = true) :
    next.starts = observed.starts := by
  cases h with
  | quiet hstands => rfl
  | woken hrest hdue =>
    have htold' : (observed.told event).monitor.stopping = true := htold
    rw [proceed_told htold']
    rfl
  | @ended tick began answer hasked hdue logging hevent =>
    have htold' : (observed.conclude began answer logging).monitor.stopping = true := by
      rw [hevent] at htold
      exact htold
    rw [proceed_told htold']
    exact starts_conclude hasked answer logging

theorem Keeps.starts_pass (h : Keeps interval start observed) {moment : Moment}
    (htold : (moment.event.isStop || observed.monitor.stopping) = true) :
    (observed.pass moment).starts = observed.starts :=
  (h.passed moment).starts htold

theorem Keeps.starts_run (h : Keeps interval start observed)
    (htold : observed.monitor.stopping = true) (moments : List Moment) :
    (observed.run moments).starts = observed.starts := by
  induction moments generalizing observed with
  | nil => rfl
  | cons moment moments ih =>
    have hstill : (moment.event.isStop || observed.monitor.stopping) = true := by
      rw [htold, Bool.or_true]
    exact (ih (h.pass moment) ((h.stopping_pass moment).trans hstill)).trans (h.starts_pass hstill)

/-- a monitor that was told to stop is stopped when it waits for no answer -/
theorem Keeps.at_rest (h : Keeps interval start observed)
    (htold : observed.monitor.stopping = true) (hrest : observed.waiting = []) :
    observed.monitor.phase = .stopped := by
  cases h.stands with
  | waiting _ _ hgoing _ => rw [htold] at hgoing; cases hgoing
  | polling _ hasked _ => rw [hrest] at hasked; cases hasked
  | stopped hphase _ _ => exact hphase

/-! ### going on -/

theorem polls_proceed (observed : Observed) (tick : Time) :
    (observed.proceed tick).polls = observed.polls := by
  obtain ⟨waiting, alarms, hfollow⟩ :=
    observed.follow_eq (observed.monitor.await observed.now tick)
  rw [proceed, hfollow]

theorem proceed_due (hgoing : observed.monitor.stopping = false) (hnow : tick ≤ observed.now) :
    ∃ next, (observed.proceed tick).monitor.phase = .polling (some next) := by
  rw [proceed, follow_monitor, Monitor.await, hgoing, if_neg Bool.false_ne_true, if_pos hnow]
  exact ⟨_, rfl⟩

/-- When the clock is an interval further, a poll is under way. -/
theorem Keeps.clock (h : Keeps interval start observed) (hgoing : observed.monitor.stopping = false)
    {moment : Moment} (hevent : moment.event = .clock) (hpause : interval ≤ moment.pause) :
    (∃ next, (observed.pass moment).monitor.phase = .polling (some next)) ∧
      (observed.pass moment).polls = observed.polls := by
  rw [Observed.pass, hevent]
  cases h.stands with
  | @waiting tick hphase hrest _ hdue =>
    have hreach : (observed.reach moment).monitor.phase = .waiting tick := hphase
    have hlate : tick ≤ observed.now + moment.pause := hdue.2.trans (Nat.add_le_add_left hpause _)
    rw [occur_waiting hreach hrest]
    exact ⟨proceed_due hgoing hlate, polls_proceed _ _⟩
  | @polling tick began hphase hasked _ =>
    have hreach : (observed.reach moment).monitor.phase = .polling (some tick) := hphase
    obtain ⟨logging, hoccur⟩ := occur_polling hreach hasked .clock
    rw [hoccur]
    exact ⟨⟨tick, hphase⟩, rfl⟩
  | stopped _ _ htold => rw [hgoing] at htold; cases htold

/-- An answer is one to the poll under way. -/
theorem Keeps.answered (h : Keeps interval start observed)
    (hphase : observed.monitor.phase = .polling (some tick)) (answer : Answer) :
    (observed.occur localTime timestamp (.answered answer)).polls.map Poll.answer =
      observed.polls.map Poll.answer ++ [answer] := by
  cases h.stands with
  | waiting hother _ _ _ | stopped hother _ _ => rw [hphase] at hother; cases hother
  | @polling _ began _ hasked _ =>
    obtain ⟨logging, hoccur⟩ := occur_polling hphase hasked (.answered answer)
    rw [hoccur]
    show ((observed.conclude began answer logging).proceed tick).polls.map _ = _
    rw [polls_proceed]
    exact List.map_append

/-- the clock moves on by an interval or more, and the controller answers after a while -/
structure Turn where
  /-- how much more than an interval it is -/
  extra : Time := 0
  delay : Time := 0
  meddle : Directory → Directory := id
  localTime : String := ""
  timestamp : String := ""
  answer : Answer

def Turn.moments (interval : Time) (turn : Turn) : List Moment :=
  [{ pause := interval + turn.extra, event := .clock },
    { pause := turn.delay, meddle := turn.meddle, localTime := turn.localTime,
      timestamp := turn.timestamp, event := .answered turn.answer }]

theorem Keeps.turns (h : Keeps interval start observed)
    (hgoing : observed.monitor.stopping = false) (turns : List Turn) :
    (observed.run (turns.flatMap (Turn.moments interval))).polls.map Poll.answer =
      observed.polls.map Poll.answer ++ turns.map Turn.answer := by
  induction turns generalizing observed with
  | nil => exact (List.append_nil _).symm
  | cons turn turns ih =>
    have hturn := h.run (turn.moments interval)
    have hstill : (observed.run (turn.moments interval)).monitor.stopping = false :=
      (h.stopping_run _).trans hgoing
    let tick : Moment := { pause := interval + turn.extra, event := .clock }
    obtain ⟨⟨next, hphase⟩, hpolls⟩ : (∃ next, (observed.pass tick).monitor.phase = _) ∧ _ :=
      h.clock hgoing rfl (Nat.le_add_right _ _)
    have hanswer : (observed.run (turn.moments interval)).polls.map Poll.answer =
        observed.polls.map Poll.answer ++ [turn.answer] := by
      rw [← hpolls]
      exact ((h.pass _).reach _).answered hphase turn.answer
    rw [List.flatMap_cons, run_append, ih hturn hstill, hanswer, List.append_assoc]
    rfl

end

end Observed

/-! ## the law -/

/-- what is true of a monitor that was started at `start`, behind any moments -/
structure PollsUntilTold (interval start : Time) (moments : List Moment) (observed : Observed) :
    Prop where
  forward : ∀ poll ∈ observed.polls, poll.began ≤ poll.ended
  /-- No poll begins before all those in front of it have ended. -/
  apart : observed.polls.Pairwise (·.ended ≤ ·.began)
  behind : ∀ began ∈ observed.waiting, ∀ poll ∈ observed.polls, poll.ended ≤ began
  single : observed.waiting.length ≤ 1
  rate : ∀ time, observed.starts.countP (· ≤ start + time) ≤ time / interval + 1
  /-- Each flagged reading raises one alarm when it comes, and nothing else does. -/
  alarms : observed.alarms = (observed.polls.filter Poll.alarming).map Poll.ended
  samples : observed.monitor.samples = observed.polls.countP Poll.succeeded
  /-- Not told to stop, it goes on: there is a poll for every answer to come. -/
  goes_on : (∀ moment ∈ moments, moment.event.isStop = false) → ∀ turns : List Observed.Turn,
    (observed.run (turns.flatMap (Observed.Turn.moments interval))).polls.map Poll.answer =
      observed.polls.map Poll.answer ++ turns.map Observed.Turn.answer
  /-- Told to stop, it begins no poll, and it has stopped when the last one has ended. -/
  ends : ∀ (moment : Moment) (later : List Moment), moment.event.isStop = true →
    (observed.run (moment :: later)).starts = observed.starts ∧
      ((observed.run (moment :: later)).waiting = [] →
        (observed.run (moment :: later)).monitor.phase = .stopped)

/-- **A monitor polls until it is told to stop**, whatever controller, log and clock do. -/
theorem polls_until_told {interval : Time} (hinterval : 0 < interval) (start : Time)
    (logging : Option Logging) (moments : List Moment) :
    PollsUntilTold interval start moments
      ((Observed.launch interval logging start).run moments) := by
  have hlaunch := Observed.keeps_launch hinterval logging start
  have h := hlaunch.run moments
  refine ⟨fun poll hpoll => (h.sound.past poll hpoll).1, h.sound.apart, h.sound.behind, ?_,
    h.sound.paced.countP_le hinterval, h.sound.alarms, h.sound.samples, ?_, ?_⟩
  · cases h.stands with
    | waiting _ hrest _ _ | stopped _ hrest _ => rw [hrest]; exact Nat.zero_le _
    | polling _ hasked _ => rw [hasked]; exact Nat.le_refl _
  · intro hevents
    refine h.turns ?_
    rw [hlaunch.stopping_run, Observed.stopping_launch, Bool.or_false]
    simpa using hevents
  · intro moment later hstop
    have htold : (moment.event.isStop || ((Observed.launch interval logging start).run
        moments).monitor.stopping) = true := by
      rw [hstop, Bool.true_or]
    have hstill := (h.stopping_pass moment).trans htold
    have hafter := h.pass moment
    refine ⟨(hafter.starts_run hstill later).trans (h.starts_pass htold), ?_⟩
    refine (hafter.run later).at_rest ?_
    rw [hafter.stopping_run, hstill, Bool.or_true]

/-- a log that has lost its directory -/
def lostLog : Logging := ⟨{ maxRecords := 1, maxFiles := 1 }, .missing⟩

/-- a flagged reading that cannot be logged, then a slow poll that fails -/
def mishaps : List Moment :=
  [ { pause := 5, event := .answered (.ok
      ⟨Command.getDataExt, [80, 95, 0x20, 0xD0, 0, 0, 0, 0, 0, 0, 0, 0, 0, 0, 0, 0, 0x40, 0], 0⟩) },
    { pause := 15, event := .clock },
    { pause := 100, event := .answered (.error (.timeout Command.getDataExt 100)) } ]

theorem polls_without_log :
    0 < 20 ∧
      PollsUntilTold 20 0 mishaps ((Observed.launch 20 (some lostLog) 0).run mishaps) ∧
      ((Observed.launch 20 (some lostLog) 0).run mishaps).alarms = [5] ∧
      ((Observed.launch 20 (some lostLog) 0).run mishaps).starts = [0, 20, 120] ∧
      ((Observed.launch 20 (some lostLog) 0).run mishaps).monitor.logging.map Logging.directory =
        some .missing :=
  ⟨by decide, polls_until_told (by decide) 0 (some lostLog) mishaps, rfl, rfl, rfl⟩

end CameraPower.Monitor
