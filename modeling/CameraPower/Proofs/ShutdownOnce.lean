import CameraPower.Proofs.ListCuts
import CameraPower.ShutdownHook
import Mathlib.Logic.Function.Basic

/-!
# Callers that share the shutdown hook

Any number of callers make requests of one hook, any number of times, and the steps of their requests
mix in any order.  Which attempts to start the command succeed is left open.

* `Shared.next`     the next step of a caller;
* `Shared.run`      the steps of callers in the order of a schedule;
* `run_request`     a caller whom nobody interrupts;
* `Stands`          where the callers can be, given the hook;
* `starts_at_most_once`  what all of them together do.
-/

namespace CameraPower.ShutdownHook

variable {ι : Type} [DecidableEq ι]

/-! ## steps -/

/-- where a caller is in its request -/
inductive Position where
  /-- it is not in a request -/
  | outside
  /-- its claim was granted, and it is about to start the command -/
  | trying
  /-- it could not start the command, and has not freed the hook yet -/
  | failing
  deriving DecidableEq, Repr

/-- a step of a request, which nobody can interrupt -/
inductive Step where
  | claims (granted : Bool)
  | starts (started : Bool)
  | frees
  deriving DecidableEq, Repr

/-- the steps that were taken, and by whom -/
abbrev Trace (ι : Type) := List (ι × Step)

structure Shared (ι : Type) where
  hook : ShutdownHook
  position : ι → Position

namespace Shared

/-- a hook that nobody is at -/
def start (hook : ShutdownHook) : Shared ι :=
  { hook, position := fun _ => .outside }

def move (shared : Shared ι) (caller : ι) (place : Position) : Shared ι :=
  { shared with position := Function.update shared.position caller place }

/-- The next step of a caller; `startable` says whether the command can be started if that is what
it comes to.  Without a command a granted request is over with the claim. -/
def next (shared : Shared ι) (caller : ι) (startable : Bool) : Shared ι × Step :=
  match shared.position caller with
  | .outside =>
    let (hook, granted) := shared.hook.claim
    let tries := granted && !hook.command.isEmpty
    (({ shared with hook } : Shared ι).move caller (if tries then .trying else .outside),
      .claims granted)
  | .trying => (shared.move caller (if startable then .outside else .failing), .starts startable)
  | .failing => (({ shared with hook := shared.hook.free } : Shared ι).move caller .outside, .frees)

/-- the steps of a schedule: whose turn it is, and whether the command could be started then -/
def run (shared : Shared ι) : List (ι × Bool) → Shared ι × Trace ι
  | [] => (shared, [])
  | (caller, startable) :: rest =>
    let (moved, step) := shared.next caller startable
    let (last, trace) := moved.run rest
    (last, (caller, step) :: trace)

variable {shared : Shared ι} {caller other : ι}

@[simp] theorem move_position (shared : Shared ι) (caller : ι) (place : Position) :
    (shared.move caller place).position caller = place := by
  simp [move]

theorem move_other (shared : Shared ι) (h : other ≠ caller) (place : Position) :
    (shared.move caller place).position other = shared.position other := by
  simp [move, h]

theorem move_same {place : Position} (h : shared.position caller = place) :
    shared.move caller place = shared := by
  rw [move, ← h, Function.update_eq_self]

theorem next_other (shared : Shared ι) (h : other ≠ caller) (startable : Bool) :
    (shared.next caller startable).1.position other = shared.position other := by
  unfold next
  split <;> exact move_other _ h _

theorem claim_fired {hook : ShutdownHook} (h : hook.fired = true) : hook.claim = (hook, false) := by
  cases hook
  simp_all [claim]

/-- a hook that is taken refuses a claim and stays as it is -/
theorem next_refused (hfired : shared.hook.fired = true)
    (houtside : shared.position caller = .outside) (startable : Bool) :
    shared.next caller startable = (shared, .claims false) := by
  simp only [next, houtside, claim_fired hfired, Bool.false_and, Bool.false_eq_true, if_false]
  exact congrArg (·, Step.claims false) (move_same houtside)

theorem next_granted (hfree : shared.hook.fired = false)
    (houtside : shared.position caller = .outside) (startable : Bool) :
    shared.next caller startable =
      (({ shared with hook := shared.hook.claim.1 } : Shared ι).move caller
        (if shared.hook.command.isEmpty then .outside else .trying), .claims true) := by
  simp only [next, houtside, claim, hfree]
  cases shared.hook.command.isEmpty <;> rfl

/-- **A caller whom nobody interrupts** makes one request: its steps lead to the hook that the request
leaves, and start the command if the request does. -/
theorem run_request (starts : String → Bool) {startable : Bool}
    (houtside : shared.position caller = .outside)
    (hstartable : ∀ program ∈ shared.hook.command.head?, starts program = startable) :
    ∃ turns, (shared.run (List.replicate turns (caller, startable))).1 =
        { shared with hook := (shared.hook.request starts).1 } ∧
      ((shared.hook.request starts).2 = true ↔
        (caller, .starts true) ∈ (shared.run (List.replicate turns (caller, startable))).2) := by
  obtain ⟨⟨command, fired⟩, position⟩ := shared
  change position caller = .outside at houtside
  have hback : Function.update position caller .outside = position :=
    Function.update_eq_self_iff.mpr houtside.symm
  cases fired with
  | true => exact ⟨1, by simp [run, next, move, request, claim, houtside, hback]⟩
  | false =>
    cases command with
    | nil => exact ⟨1, by simp [run, next, move, request, claim, houtside, hback]⟩
    | cons program arguments =>
      have hstarts : starts program = startable := hstartable program rfl
      cases startable with
      | true => exact ⟨2, by simp [run, next, move, request, claim, houtside, hback, hstarts]⟩
      | false => exact ⟨3, by simp [run, next, move, request, claim, free, houtside, hback, hstarts]⟩

/-- what stands in a trace was done by somebody in a state that the steps in front led to -/
theorem run_cut {schedule : List (ι × Bool)} {before after : Trace ι} {step : Step}
    (h : (shared.run schedule).2 = before ++ (caller, step) :: after) :
    ∃ front startable back, (shared.run front).2 = before ∧
      ((shared.run front).1.next caller startable).2 = step ∧
      ((shared.run front).1.next caller startable).1.run back =
        ((shared.run schedule).1, after) := by
  induction before generalizing shared schedule with
  | nil =>
    cases schedule with
    | nil => cases h
    | cons moment rest =>
      obtain ⟨hentry, hafter⟩ := List.cons.inj h
      obtain ⟨rfl, hstep⟩ := Prod.mk.inj hentry
      exact ⟨[], moment.2, rest, rfl, hstep, Prod.ext rfl hafter⟩
  | cons first before ih =>
    cases schedule with
    | nil => cases h
    | cons moment rest =>
      obtain ⟨hfirst, hrest⟩ := List.cons.inj h
      obtain ⟨front, startable, back, hfront, hstep, hafter⟩ := ih hrest
      refine ⟨moment :: front, startable, back, ?_, hstep, hafter⟩
      rw [← hfirst, ← hfront]
      rfl

/-! ## where the callers can be -/

/-- All that can be: nobody is at the hook and it is free, one caller has it, or it is taken for
good. -/
inductive Stands (shared : Shared ι) : Prop
  | free (unfired : shared.hook.fired = false) (nobody : ∀ c, shared.position c = .outside)
  | busy (holder : ι) (fired : shared.hook.fired = true)
    (armed : shared.hook.command.isEmpty = false) (inside : shared.position holder ≠ .outside)
    (others : ∀ c, c ≠ holder → shared.position c = .outside)
  | spent (fired : shared.hook.fired = true) (nobody : ∀ c, shared.position c = .outside)

theorem outside_of_others (h : ∀ c, c ≠ caller → shared.position c = .outside) (c : ι) :
    (shared.move caller .outside).position c = .outside := by
  by_cases hc : c = caller
  · rw [hc, move_position]
  · rw [move_other _ hc, h c hc]

theorem outside_of_moved (h : ∀ c, c ≠ caller → shared.position c = .outside) (place : Position) :
    ∀ c, c ≠ caller → (shared.move caller place).position c = .outside := by
  intro c hc
  rw [move_other _ hc, h c hc]

theorem Stands.alone (h : Stands shared) {a b : ι} (ha : shared.position a ≠ .outside)
    (hb : shared.position b ≠ .outside) : a = b := by
  cases h with
  | free _ nobody | spent _ nobody => exact (ha (nobody a)).elim
  | busy holder _ _ _ others =>
    have heq : ∀ {c}, shared.position c ≠ .outside → c = holder := fun hc =>
      Decidable.of_not_not fun hne => hc (others _ hne)
    rw [heq ha, heq hb]

/-- a caller who is in the middle of a request has the hook -/
theorem Stands.held (h : Stands shared) (hinside : shared.position caller ≠ .outside) :
    shared.hook.fired = true ∧ shared.hook.command.isEmpty = false ∧
      ∀ c, c ≠ caller → shared.position c = .outside := by
  cases h with
  | free _ nobody | spent _ nobody => exact (hinside (nobody caller)).elim
  | busy holder fired armed inside others =>
    have hholder : caller = holder := Decidable.of_not_not fun hne => hinside (others caller hne)
    exact ⟨fired, armed, hholder ▸ others⟩

/-- what a step says about the hook that it leaves -/
inductive Leaves (shared : Shared ι) : Step → Prop
  | claimed (granted : Bool) : Leaves shared (.claims granted)
  | started (fired : shared.hook.fired = true) (nobody : ∀ c, shared.position c = .outside) :
    Leaves shared (.starts true)
  | failed : Leaves shared (.starts false)
  | freed (unfired : shared.hook.fired = false) (armed : shared.hook.command.isEmpty = false)
    (nobody : ∀ c, shared.position c = .outside) : Leaves shared .frees

theorem Stands.step (h : Stands shared) (caller : ι) (startable : Bool) :
    Stands (shared.next caller startable).1 ∧
      Leaves (shared.next caller startable).1 (shared.next caller startable).2 := by
  cases hplace : shared.position caller with
  | outside =>
    cases hfired : shared.hook.fired with
    | true =>
      rw [next_refused hfired hplace]
      exact ⟨h, .claimed false⟩
    | false =>
      rw [next_granted hfired hplace]
      have hothers : ∀ c, c ≠ caller → shared.position c = .outside := by
        cases h with
        | free _ nobody | spent _ nobody => exact fun c _ => nobody c
        | busy _ fired => rw [hfired] at fired; cases fired
      let claimed : Shared ι := { shared with hook := shared.hook.claim.1 }
      have hothers' : ∀ c, c ≠ caller → claimed.position c = .outside := hothers
      refine ⟨?_, .claimed true⟩
      cases harmed : shared.hook.command.isEmpty with
      | true => exact .spent rfl (outside_of_others hothers')
      | false =>
        refine .busy caller rfl harmed ?_ (outside_of_moved hothers' .trying)
        simp
  | trying =>
    have hinside : shared.position caller ≠ .outside := by simp [hplace]
    obtain ⟨hfired, harmed, hothers⟩ := h.held hinside
    simp only [next, hplace]
    cases startable with
    | true =>
      have hnobody := outside_of_others hothers
      exact ⟨.spent hfired hnobody, .started hfired hnobody⟩
    | false =>
      refine ⟨.busy caller hfired harmed ?_ (outside_of_moved hothers .failing), .failed⟩
      simp
  | failing =>
    have hinside : shared.position caller ≠ .outside := by simp [hplace]
    obtain ⟨-, harmed, hothers⟩ := h.held hinside
    simp only [next, hplace]
    let freed : Shared ι := { shared with hook := shared.hook.free }
    have hnobody : ∀ c, (freed.move caller .outside).position c = .outside :=
      outside_of_others hothers
    exact ⟨.free rfl hnobody, .freed rfl harmed hnobody⟩

theorem stands_run (h : Stands shared) (schedule : List (ι × Bool)) :
    Stands (shared.run schedule).1 := by
  induction schedule generalizing shared with
  | nil => exact h
  | cons moment rest ih => exact ih (h.step moment.1 moment.2).1

/-- when the hook is taken for good, every further request is refused -/
theorem run_spent (hfired : shared.hook.fired = true) (hnobody : ∀ c, shared.position c = .outside)
    (schedule : List (ι × Bool)) :
    shared.run schedule = (shared, schedule.map fun moment => (moment.1, .claims false)) := by
  induction schedule with
  | nil => rfl
  | cons moment rest ih =>
    obtain ⟨caller, startable⟩ := moment
    simp only [run, next_refused hfired (hnobody caller), ih, List.map_cons]

/-- a caller stays where it is until it takes a step -/
theorem position_run (schedule : List (ι × Bool))
    (h : ∀ entry ∈ (shared.run schedule).2, entry.1 ≠ caller) :
    (shared.run schedule).1.position caller = shared.position caller := by
  induction schedule generalizing shared with
  | nil => rfl
  | cons moment rest ih =>
    have hmoment : caller ≠ moment.1 := (h _ List.mem_cons_self).symm
    exact (ih fun entry hentry => h entry (List.mem_cons_of_mem _ hentry)).trans
      (next_other shared hmoment moment.2)

end Shared

/-! ## all of them together -/

open Shared

/-- What callers do to the hook that they share. -/
structure StartsOnce (shared : Shared ι) (trace : Trace ι) : Prop where
  /-- the command is started at most once -/
  once : trace.countP (·.2 = .starts true) ≤ 1
  /-- when it has been started nobody tries again: every further step is a claim that is refused -/
  last : ∀ before caller after, trace = before ++ (caller, .starts true) :: after →
    ∀ entry ∈ after, entry.2 = .claims false
  /-- and the hook stays taken -/
  fired : ∀ caller, (caller, .starts true) ∈ trace → shared.hook.fired = true
  /-- at most one caller is between a claim that was granted and the end of its attempt -/
  alone : ∀ a b, shared.position a ≠ .outside → shared.position b ≠ .outside → a = b
  /-- When a caller whose attempt has failed has freed the hook, the next step of all is a claim that
  is granted, and the caller who made it tries to start the command in its own next step. -/
  again : ∀ before caller other step after,
    trace = before ++ (caller, .frees) :: (other, step) :: after →
    step = .claims true ∧
      ∀ between its rest, after = between ++ (other, its) :: rest →
        (∀ entry ∈ between, entry.1 ≠ other) → ∃ started, its = .starts started

section
variable {shared : Shared ι} {schedule : List (ι × Bool)} {before after : Trace ι} {caller other : ι}

theorem run_started (h : Stands shared)
    (hcut : (shared.run schedule).2 = before ++ (caller, .starts true) :: after) :
    (shared.run schedule).1.hook.fired = true ∧ ∀ entry ∈ after, entry.2 = .claims false := by
  obtain ⟨front, startable, back, -, hstep, hafter⟩ := run_cut hcut
  have hleaves := ((stands_run h front).step caller startable).2
  rw [hstep] at hleaves
  cases hleaves with
  | started fired nobody =>
    rw [run_spent fired nobody] at hafter
    obtain ⟨hlast, rfl⟩ := Prod.mk.inj hafter
    refine ⟨hlast ▸ fired, fun entry hentry => ?_⟩
    obtain ⟨moment, -, rfl⟩ := List.mem_map.mp hentry
    rfl

/-- a caller whose claim was granted tries in its next step -/
theorem run_trying {step : Step} (hplace : shared.position caller = .trying)
    (hcut : (shared.run schedule).2 = before ++ (caller, step) :: after)
    (hbefore : ∀ entry ∈ before, entry.1 ≠ caller) : ∃ started, step = .starts started := by
  obtain ⟨front, startable, back, rfl, hstep, -⟩ := run_cut hcut
  have hstays := (position_run front hbefore).trans hplace
  refine ⟨startable, hstep.symm.trans ?_⟩
  simp only [next, hstays]

theorem run_freed {step : Step} (h : Stands shared)
    (hcut : (shared.run schedule).2 = before ++ (caller, .frees) :: (other, step) :: after) :
    step = .claims true ∧
      ∀ between its rest, after = between ++ (other, its) :: rest →
        (∀ entry ∈ between, entry.1 ≠ other) → ∃ started, its = .starts started := by
  obtain ⟨front, startable, back, -, hstep, hafter⟩ := run_cut hcut
  have hleaves := ((stands_run h front).step caller startable).2
  rw [hstep] at hleaves
  generalize ((shared.run front).1.next caller startable).1 = freed at hleaves hafter
  cases hleaves with
  | freed unfired armed nobody =>
    cases back with
    | nil => cases hafter
    | cons moment back =>
      obtain ⟨hentry, hrest⟩ := List.cons.inj (congrArg Prod.snd hafter)
      obtain ⟨rfl, hclaim⟩ := Prod.mk.inj hentry
      have hgranted := next_granted unfired (nobody moment.1) moment.2
      have hstep : (freed.next moment.1 moment.2).2 = step := hclaim
      have hafter : ((freed.next moment.1 moment.2).1.run back).2 = after := hrest
      rw [hgranted] at hstep hafter
      refine ⟨hstep.symm, fun between its rest hbetween hothers => ?_⟩
      refine run_trying ?_ (hafter.trans hbetween) hothers
      rw [armed]
      exact move_position ..

end

/-- **The command is started at most once.**  Callers make requests of one hook, any number of them
and any number of times; the steps of their requests mix in any order, and any attempt to start the
command may fail.  The command is started at most once, nobody tries again after that, and the hook
stays taken.  At most one caller at a time is between a claim that was granted and the end of its
attempt, freeing the hook included: so no caller frees the hook behind another's back.  After a failed
attempt the next request is granted and tries again. -/
theorem starts_at_most_once (command : List String) (schedule : List (ι × Bool)) :
    let (shared, trace) := (Shared.start (ι := ι) { command }).run schedule
    StartsOnce shared trace := by
  have hstart : Stands (Shared.start (ι := ι) { command }) := .free rfl fun _ => rfl
  refine ⟨?_, ?_, ?_, ?_, ?_⟩
  · refine countP_le_one fun before entry after hcut hstarted other hother => ?_
    obtain ⟨caller, step⟩ := entry
    have hstep : step = .starts true := by simpa using hstarted
    have hlast := (run_started hstart (hstep ▸ hcut)).2 other hother
    simp [hlast]
  · exact fun before caller after hcut => (run_started hstart hcut).2
  · intro caller hmem
    obtain ⟨before, after, hcut⟩ := List.append_of_mem hmem
    exact (run_started hstart hcut).1
  · exact fun a b => (stands_run hstart schedule).alone
  · exact fun before caller other step after hcut => run_freed hstart hcut

-- the first caller cannot start the command; the second, refused meanwhile, starts it later
example : ((Shared.start (ι := Fin 2) { command := ["halt"] }).run
      [(0, false), (1, true), (0, false), (0, false), (1, true), (0, true), (1, true)]).2 =
    [(0, .claims true), (1, .claims false), (0, .starts false), (0, .frees), (1, .claims true),
      (0, .claims false), (1, .starts true)] := by
  decide

end CameraPower.ShutdownHook
