import CameraPower.Server
import Mathlib.Data.List.Nodup

/-!
# The slots of the telemetry service and the tasks that hold them

Tasks are numbered from one, and each holds a slot as long as its session is not over.

* `Sound`          what slots and tasks look like at any time;
* `Sound.found`    a task among the others, and what it means to put another in its place;
* `Happened`       everything that an incident can come to;
* `Sound.step`     no event makes the service unsound.
-/

namespace CameraPower.Server

/-! ## soundness -/

/-- what slots and tasks look like at any time -/
structure Sound (server : Server) : Prop where
  numbered : server.numbers = List.range' 1 server.last
  holding : ∀ task ∈ server.tasks, task.holding = !task.isOver
  balanced : server.free + server.tasks.countP (·.holding) = server.slots
  noticed : ∀ task ∈ server.tasks, task.noticed = true → task.isOver = true
  returned : server.phase = .returned → ∀ task ∈ server.tasks, task.noticed = true
  broken : server.phase = .broken → server.tasks = []

theorem sound_start (maxClients : Nat) (interval : Time) : Sound (start maxClients interval) where
  numbered := rfl
  holding := by simp [start]
  balanced := by simp [start]
  noticed := by simp [start]
  returned := by simp [start]
  broken := by simp [start]

section
variable {server : Server} {number : Nat} {task : Task}

theorem Sound.nodup (h : Sound server) : server.numbers.Nodup := by
  rw [h.numbered]
  exact List.nodup_range'

/-! ## one task among the others -/

/-- the tasks in front of a task and behind it -/
structure Found (server : Server) (task : Task) (front back : List Task) : Prop where
  tasks : server.tasks = front ++ task :: back
  apart : ∀ other ∈ front ++ back, other.number ≠ task.number

theorem Sound.found_of_mem (h : Sound server) (htask : task ∈ server.tasks) :
    ∃ front back, Found server task front back := by
  obtain ⟨front, back, htasks⟩ := List.append_of_mem htask
  have hnodup := h.nodup
  rw [numbers, htasks, List.map_append, List.map_cons, List.nodup_middle, List.nodup_cons,
    ← List.map_append] at hnodup
  exact ⟨front, back, htasks, fun other hother heq => hnodup.1 (heq ▸ List.mem_map_of_mem hother)⟩

theorem Sound.found (h : Sound server) (htask : server.task? number = some task) :
    task.number = number ∧ ∃ front back, Found server task front back :=
  ⟨by simpa using List.find?_some htask, h.found_of_mem (List.mem_of_find?_eq_some htask)⟩

section
variable {front back : List Task}

theorem Found.replace (hfound : Found server task front back) (other : Task)
    (hnumber : other.number = task.number) :
    server.replace other = { server with tasks := front ++ other :: back } := by
  have hkept : ∀ tasks : List Task, (∀ one ∈ tasks, one ∈ front ++ back) →
      tasks.map (fun one => if one.number = other.number then other else one) = tasks := by
    intro tasks hmem
    refine (List.map_congr_left fun one hone => ?_).trans (List.map_id tasks)
    rw [hnumber, if_neg (hfound.apart one (hmem one hone)), id]
  rw [Server.replace, hfound.tasks, List.map_append, List.map_cons,
    hkept front fun one hone => List.mem_append_left _ hone,
    hkept back fun one hone => List.mem_append_right _ hone, if_pos hnumber.symm]

theorem Found.task? (hfound : Found server task front back) (other : Task)
    (hnumber : other.number = task.number) (free number : Nat) :
    ({ server with free, tasks := front ++ other :: back } : Server).task? number =
      if number = task.number then some other else server.task? number := by
  simp only [Server.task?, hfound.tasks, List.find?_append, List.find?_cons, hnumber]
  by_cases heq : number = task.number
  · subst heq
    have hnone : front.find? (·.number == task.number) = none :=
      List.find?_eq_none.2 fun one hone => by
        simpa using hfound.apart one (List.mem_append_left _ hone)
    simp [hnone]
  · have hne : (task.number == number) = false := by simpa using Ne.symm heq
    rw [hne, if_neg heq]

theorem Sound.task?_of_mem (h : Sound server) (htask : task ∈ server.tasks) :
    server.task? task.number = some task := by
  obtain ⟨front, back, hfound⟩ := h.found_of_mem htask
  have hsame := hfound.task? task rfl server.free task.number
  rwa [← hfound.tasks, if_pos rfl] at hsame

end

theorem Sound.mem_numbers (h : Sound server) (number : Nat) :
    number ∈ server.numbers ↔ ∃ session, server.session? number = some session := by
  constructor
  · intro hmem
    obtain ⟨task, htask, rfl⟩ := List.mem_map.1 hmem
    exact ⟨task.session, by rw [session?, h.task?_of_mem htask]; rfl⟩
  · rintro ⟨session, hsession⟩
    obtain ⟨task, hasked, -⟩ := Option.map_eq_some_iff.1 hsession
    rw [← (h.found hasked).1]
    exact List.mem_map_of_mem (List.mem_of_find?_eq_some hasked)

/-- a task in the place of another, with the slot that is given back, if it is -/
theorem Sound.put {front back : List Task} (h : Sound server) (hfound : Found server task front back)
    {other : Task} {free : Nat} (hnumber : other.number = task.number)
    (hholding : other.holding = !other.isOver)
    (hfree : free + other.holding.toNat = server.free + task.holding.toNat)
    (hnoticed : other.noticed = true → other.isOver = true)
    (hkept : task.noticed = true → other.noticed = true) :
    Sound { server with free, tasks := front ++ other :: back } := by
  have hmem : ∀ {one : Task}, one ∈ front ++ other :: back → one = other ∨ one ∈ server.tasks := by
    intro one hone
    rw [hfound.tasks]
    simp only [List.mem_append, List.mem_cons] at hone ⊢
    tauto
  have htask : task ∈ server.tasks := by simp [hfound.tasks]
  have hcount : ∀ one : Task, (front ++ one :: back).countP (·.holding) =
      front.countP (·.holding) + back.countP (·.holding) + one.holding.toNat := by
    intro one
    rw [List.countP_append, List.countP_cons]
    cases one.holding with
    | true => simp; omega
    | false => simp
  constructor
  case numbered =>
    rw [← h.numbered, numbers, numbers, hfound.tasks]
    simp [hnumber]
  case holding =>
    intro one hone
    rcases hmem hone with rfl | hone
    · exact hholding
    · exact h.holding one hone
  case balanced =>
    have := h.balanced
    rw [hfound.tasks, hcount] at this
    rw [hcount]
    show free + _ = server.slots
    omega
  case noticed =>
    intro one hone
    rcases hmem hone with rfl | hone
    · exact hnoticed
    · exact h.noticed one hone
  case returned =>
    intro hphase one hone
    rcases hmem hone with rfl | hone
    · exact hkept (h.returned hphase task htask)
    · exact h.returned hphase one hone
  case broken =>
    intro hphase
    have := h.broken hphase
    rw [hfound.tasks] at this
    simp at this

/-! ## what an event comes to -/

/-- everything that an incident can come to -/
inductive Happened (now : Time) (server : Server) (number : Nat) (incident : Incident) :
    Server × List Session.Action × Option (Except Error Unit) → Prop
  | idle (spent : ∀ session, server.session? number = some session → session.outcome?.isSome = true) :
    Happened now server number incident (server, [], none)
  | goesOn {task : Task} {front back : List Task} {session : Session} {actions : List Session.Action}
    (asked : server.task? number = some task) (live : task.isOver = false)
    (found : Found server task front back)
    (change : incident.change now task.session = (session, actions))
    (outcome : session.outcome? = none) :
    Happened now server number incident
      ({ server with tasks := front ++ { task with session } :: back }, actions, none)
  | ends {task : Task} {front back : List Task} {session : Session} {actions : List Session.Action}
    {end_ : Except Error Unit}
    (asked : server.task? number = some task) (live : task.isOver = false)
    (found : Found server task front back)
    (change : incident.change now task.session = (session, actions))
    (outcome : session.outcome? = some end_) :
    Happened now server number incident
      ({ server with
          free := server.free + 1
          tasks := front ++ { task with session, holding := false } :: back }, actions, some end_)

variable {now : Time} {incident : Incident}

theorem change_over {session : Session} (h : session.outcome?.isSome = true) :
    incident.change now session = (session, []) := by
  simp only [Incident.change, h, if_true]

theorem happen_eq {session : Session} {actions : List Session.Action}
    (hasked : server.task? number = some task)
    (hchange : incident.change now task.session = (session, actions)) :
    server.happen now number incident =
      if task.holding && session.outcome?.isSome then
        ({ server.replace { task with session, holding := false } with free := server.free + 1 },
          actions, session.outcome?)
      else (server.replace { task with session }, actions, none) := by
  simp only [happen, hasked, hchange, Task.isOver]

theorem Sound.happened (h : Sound server) (now : Time) (number : Nat) (incident : Incident) :
    Happened now server number incident (server.happen now number incident) := by
  cases hasked : server.task? number with
  | none =>
    simp only [happen, hasked]
    exact .idle fun session hsession => by simp [session?, hasked] at hsession
  | some task =>
    obtain ⟨-, front, back, hfound⟩ := h.found hasked
    have hholding := h.holding task (List.mem_of_find?_eq_some hasked)
    cases hover : task.isOver with
    | true =>
      -- nothing changes: the task is put back as it was
      have hnot : ¬ (task.holding && task.session.outcome?.isSome) = true := by
        rw [hholding, hover]
        exact Bool.false_ne_true
      rw [happen_eq hasked (change_over hover), if_neg hnot,
        hfound.replace { task with session := task.session } rfl, ← hfound.tasks]
      refine .idle fun session hsession => ?_
      rw [session?, hasked, Option.map_some, Option.some_inj] at hsession
      exact hsession ▸ hover
    | false =>
      rw [hover, Bool.not_false] at hholding
      cases hchange : incident.change now task.session with
      | mk session actions =>
        rw [happen_eq hasked hchange]
        cases houtcome : session.outcome? with
        | none =>
          rw [Option.isSome_none, Bool.and_false, if_neg Bool.false_ne_true,
            hfound.replace { task with session } rfl]
          exact .goesOn hasked hover hfound hchange houtcome
        | some end_ =>
          rw [Option.isSome_some, Bool.and_true, if_pos hholding,
            hfound.replace { task with session, holding := false } rfl]
          exact .ends hasked hover hfound hchange houtcome

theorem Happened.sound (h : Sound server)
    {result : Server × List Session.Action × Option (Except Error Unit)}
    (hhappened : Happened now server number incident result) : Sound result.1 := by
  cases hhappened with
  | idle => exact h
  | @goesOn task front back session actions asked live found change outcome =>
    have hmem : task ∈ server.tasks := List.mem_of_find?_eq_some asked
    have hlive : Task.isOver { task with session } = false := by simp [Task.isOver, outcome]
    refine h.put found rfl ?_ rfl (fun hnoticed => ?_) id
    · rw [hlive, ← live]
      exact h.holding task hmem
    · have hover := h.noticed task hmem hnoticed
      rw [live] at hover
      cases hover
  | @ends task front back session actions end_ asked live found change outcome =>
    have hmem : task ∈ server.tasks := List.mem_of_find?_eq_some asked
    have hover : Task.isOver { task with session, holding := false } = true := by
      simp [Task.isOver, outcome]
    have hholding := h.holding task hmem
    rw [live] at hholding
    exact h.put found rfl (by rw [hover]; rfl) (by rw [hholding]; rfl) (fun _ => hover) id

theorem Found.session? {front back : List Task} (hfound : Found server task front back)
    (hasked : server.task? number = some task) (hnumber : task.number = number) (other : Task)
    (hother : other.number = task.number)
    (hchange : other.session = (incident.change now task.session).1) (free one : Nat) :
    ({ server with free, tasks := front ++ other :: back } : Server).session? one =
      if number = one then (server.session? one).map fun session => (incident.change now session).1
      else server.session? one := by
  rw [Server.session?, hfound.task? other hother, hnumber]
  by_cases hone : number = one
  · rw [if_pos hone, if_pos hone.symm, Server.session?, ← hone, hasked]
    exact congrArg some hchange
  · rw [if_neg hone, if_neg (Ne.symm hone)]
    rfl

/-- what an incident does to the sessions and the slots -/
structure Suffered (now : Time) (server : Server) (number : Nat) (incident : Incident)
    (outcome? : Option (Except Error Unit)) (next : Server) : Prop where
  slots : next.slots = server.slots
  pushInterval : next.pushInterval = server.pushInterval
  phase : next.phase = server.phase
  numbers : next.numbers = server.numbers
  session? : ∀ one, next.session? one =
    if number = one then (server.session? one).map fun session => (incident.change now session).1
    else server.session? one
  /-- the session ends with it if it was live and is over now -/
  ends : ∀ outcome, outcome? = some outcome ↔ ∃ session, server.session? number = some session ∧
    session.outcome? = none ∧ (incident.change now session).1.outcome? = some outcome
  free : next.free = server.free + outcome?.isSome.toNat

theorem Happened.suffered (h : Sound server)
    {result : Server × List Session.Action × Option (Except Error Unit)}
    (hhappened : Happened now server number incident result) :
    Suffered now server number incident result.2.2 result.1 := by
  cases hhappened with
  | idle spent =>
    refine ⟨rfl, rfl, rfl, rfl, fun one => ?_, fun outcome => ⟨nofun, ?_⟩, rfl⟩
    · split
      · next hone =>
        cases hsession : server.session? one with
        | none => rfl
        | some session => rw [Option.map_some, change_over (spent session (hone ▸ hsession))]
      · rfl
    · rintro ⟨session, hsession, hlive, -⟩
      have hover := spent session hsession
      rw [hlive] at hover
      cases hover
  | @goesOn task front back session actions asked live found change outcome =>
    have hnumber := (h.found asked).1
    have hsession : server.session? number = some task.session := by simp [Server.session?, asked]
    refine ⟨rfl, rfl, rfl, by simp [Server.numbers, found.tasks],
      found.session? asked hnumber { task with session } rfl (by rw [change]) server.free,
      fun _ => ⟨nofun, ?_⟩, rfl⟩
    rintro ⟨other, hother, -, hover⟩
    rw [hsession, Option.some_inj] at hother
    rw [← hother, change, outcome] at hover
    cases hover
  | @ends task front back session actions end_ asked live found change outcome =>
    have hnumber := (h.found asked).1
    have hsession : server.session? number = some task.session := by simp [Server.session?, asked]
    refine ⟨rfl, rfl, rfl, by simp [Server.numbers, found.tasks],
      found.session? asked hnumber { task with session, holding := false } rfl (by rw [change]) _,
      fun other => ⟨fun hother => ⟨task.session, hsession, ?_, ?_⟩, ?_⟩, rfl⟩
    · simpa [Task.isOver] using live
    · rw [change, outcome]
      exact hother
    · rintro ⟨one, hone, -, hover⟩
      rw [hsession, Option.some_inj] at hone
      rwa [← hone, change, outcome] at hover

/-- the sessions that are over are those that were, and the one that ends with the incident -/
theorem Suffered.over_iff {outcome? : Option (Except Error Unit)} {next : Server}
    (h : Suffered now server number incident outcome? next) (one : Nat) :
    (∃ session, next.session? one = some session ∧ session.outcome?.isSome = true) ↔
      (∃ session, server.session? one = some session ∧ session.outcome?.isSome = true) ∨
        one = number ∧ outcome?.isSome = true := by
  rw [h.session?]
  by_cases hone : number = one
  · subst hone
    simp only [if_true, true_and, Option.map_eq_some_iff]
    constructor
    · rintro ⟨_, ⟨session, hsession, rfl⟩, hover⟩
      cases houtcome : session.outcome? with
      | some outcome => exact .inl ⟨session, hsession, by rw [houtcome]; rfl⟩
      | none =>
        obtain ⟨outcome, hchange⟩ := Option.isSome_iff_exists.1 hover
        exact .inr (by rw [(h.ends outcome).2 ⟨session, hsession, houtcome, hchange⟩]; rfl)
    · rintro (⟨session, hsession, hover⟩ | houtcome)
      · exact ⟨session, ⟨session, hsession, by rw [change_over hover]⟩, hover⟩
      · obtain ⟨outcome, houtcome⟩ := Option.isSome_iff_exists.1 houtcome
        obtain ⟨session, hsession, -, hchange⟩ := (h.ends outcome).1 houtcome
        exact ⟨_, ⟨session, hsession, rfl⟩, by rw [hchange]; rfl⟩
  · simp [hone, Ne.symm hone]

theorem Sound.notice_cases (h : Sound server) (number : Nat) :
    server.notice number = server ∨
      ∃ task front back, Found server task front back ∧ task.isOver = true ∧
        server.notice number =
          { server with tasks := front ++ { task with noticed := true } :: back } := by
  unfold notice
  cases hasked : server.task? number with
  | none => exact .inl rfl
  | some task =>
    obtain ⟨-, front, back, hfound⟩ := h.found hasked
    dsimp only
    split
    · next hover =>
      rw [hfound.replace { task with noticed := true } rfl]
      exact .inr ⟨task, front, back, hfound, hover, rfl⟩
    · exact .inl rfl

theorem Sound.notice (h : Sound server) (number : Nat) : Sound (server.notice number) := by
  rcases h.notice_cases number with heq | ⟨task, front, back, hfound, hover, heq⟩
  · rw [heq]
    exact h
  · rw [heq]
    have hmem : task ∈ server.tasks := by simp [hfound.tasks]
    exact h.put hfound rfl (h.holding task hmem) rfl (fun _ => hover) fun _ => rfl

theorem Sound.close (h : Sound server) : Sound server.close := by
  unfold Server.close
  split
  · exact ⟨h.numbered, h.holding, h.balanced, h.noticed, nofun, nofun⟩
  · exact h

theorem Sound.conclude (h : Sound server) : Sound server.conclude := by
  unfold Server.conclude
  split
  · next halone =>
    rw [isAlone, Bool.and_eq_true] at halone
    exact ⟨h.numbered, h.holding, h.balanced, h.noticed, fun _ => List.all_eq_true.1 halone.2, nofun⟩
  · exact h

theorem Sound.task?_next (h : Sound server) : server.task? (server.last + 1) = none := by
  refine List.find?_eq_none.2 fun task htask => ?_
  have hmem : task.number ∈ List.range' 1 server.last := h.numbered ▸ List.mem_map_of_mem htask
  rw [List.mem_range'_1] at hmem
  rw [beq_iff_eq]
  omega

theorem Sound.session?_enrol (h : Sound server) (now : Time) (number : Nat) :
    (server.enrol now).session? number =
      if server.last + 1 = number then some (Session.start server.pushInterval now)
      else server.session? number := by
  simp only [session?, task?, enrol, List.find?_append, List.find?_singleton]
  by_cases hnext : server.last + 1 = number
  · have hnone := h.task?_next
    rw [task?, hnext] at hnone
    simp [hnone, hnext]
  · simp [hnext]

theorem Sound.enrol (h : Sound server) (hphase : server.phase = .serving) (hfree : server.free ≠ 0)
    (now : Time) : Sound (server.enrol now) := by
  refine ⟨?_, ?_, ?_, ?_, fun hreturned => ?_, fun hbroken => ?_⟩
  · show _ = List.range' 1 (server.last + 1)
    rw [List.range'_1_concat, ← h.numbered]
    simp [Server.enrol, numbers, Nat.add_comm]
  · simpa [Server.enrol, or_imp, forall_and, Task.isOver, Session.start, Session.outcome?]
      using h.holding
  · have := h.balanced
    show server.free - 1 + (server.tasks ++ [_]).countP _ = server.slots
    rw [List.countP_append, List.countP_singleton, if_pos rfl]
    omega
  · simpa [Server.enrol, or_imp, forall_and] using h.noticed
  · have := hphase.symm.trans hreturned
    cases this
  · have := hphase.symm.trans hbroken
    cases this

theorem Sound.connect (h : Sound server) : Sound (server.connect now).1 := by
  unfold Server.connect
  split
  case h_1 hphase =>
    split
    · exact h
    · next hfree => exact h.enrol hphase hfree now
  all_goals exact h

theorem Sound.step (h : Sound server) (event : Event) : Sound (server.step now event).1 := by
  cases event with
  | connect => exact h.connect
  | acceptFailed error => exact h
  | task number incident => exact (h.happened now number incident).sound h
  | notice number => exact (h.notice number).conclude
  | stop => exact h.close.conclude

/-! ## sessions that are left alone -/

/-- two services with the same sessions -/
structure Alike (server other : Server) : Prop where
  slots : other.slots = server.slots
  pushInterval : other.pushInterval = server.pushInterval
  numbers : other.numbers = server.numbers
  session? : ∀ number, other.session? number = server.session? number

theorem alike_close (server : Server) : Alike server server.close := by
  unfold close
  split <;> exact ⟨rfl, rfl, rfl, fun _ => rfl⟩

theorem alike_conclude (server : Server) : Alike server server.conclude := by
  unfold conclude
  split <;> exact ⟨rfl, rfl, rfl, fun _ => rfl⟩

theorem Sound.alike_notice (h : Sound server) (number : Nat) :
    Alike server (server.notice number) := by
  rcases h.notice_cases number with heq | ⟨task, front, back, hfound, -, heq⟩
  · rw [heq]
    exact ⟨rfl, rfl, rfl, fun _ => rfl⟩
  · rw [heq]
    refine ⟨rfl, rfl, by simp [numbers, hfound.tasks], fun one => ?_⟩
    have hmem : task ∈ server.tasks := by simp [hfound.tasks]
    have htask? := hfound.task? { task with noticed := true } rfl server.free one
    rw [session?, session?, htask?]
    split
    · next hone =>
      rw [hone, h.task?_of_mem hmem]
      rfl
    · rfl

theorem phase_notice (server : Server) (number : Nat) :
    (server.notice number).phase = server.phase := by
  unfold notice
  split
  · rfl
  · split <;> rfl

theorem Sound.slots_step (h : Sound server) (now : Time) (event : Event) :
    (server.step now event).1.slots = server.slots := by
  cases event with
  | connect =>
    show (server.connect now).1.slots = _
    unfold Server.connect
    split
    · split <;> rfl
    all_goals rfl
  | acceptFailed error => rfl
  | task number incident => exact ((h.happened now number incident).suffered h).slots
  | notice number => exact (alike_conclude _).slots.trans (h.alike_notice number).slots
  | stop => exact (alike_conclude _).slots.trans (alike_close server).slots

/-- an event about one session is nothing to the others -/
theorem Sound.step_other (h : Sound server) (now : Time) {event : Event}
    (hmem : number ∈ server.numbers) (hevent : ∀ incident, event ≠ .task number incident) :
    (server.step now event).1.session? number = server.session? number := by
  cases event with
  | connect =>
    show (server.connect now).1.session? number = _
    unfold Server.connect
    split
    case h_1 =>
      split
      · rfl
      · rw [h.numbered, List.mem_range'_1] at hmem
        rw [h.session?_enrol, if_neg (by omega)]
    all_goals rfl
  | acceptFailed error => rfl
  | task other incident =>
    have hother : other ≠ number := fun heq => hevent incident (heq ▸ rfl)
    have hsuffered := (h.happened now other incident).suffered h
    exact (hsuffered.session? number).trans (if_neg hother)
  | notice other =>
    exact ((alike_conclude _).session? number).trans ((h.alike_notice other).session? number)
  | stop => exact ((alike_conclude _).session? number).trans ((alike_close server).session? number)

end

end CameraPower.Server
