import CameraPower.Proofs.FlashRegions
import CameraPower.Proofs.LinkCall
import CameraPower.Update

/-!
# The course of an update

An update makes its calls in one order: the bootloader query, the jump unless the bootloader is
running already, the erasure of every page, the writes of the plan, the jump to the application.
It makes them up to the first that fails.

* `stages`         the calls of a whole update;
* `Stage.fault?`   what an answer fails a call with;
* `Course`         stages taken in order, up to the first that fails;
* `Follows`        a conversation that takes its stages in this way, and what it comes to then;
* `KeepsToCourse`  what this says of the exchanges and of the result of an update.
-/

namespace CameraPower.Update

open Flash (Plan Record Write pagesInOrder)

/-! ## the stages of an update -/

/-- one call of an update: its step, its request, and the least payload of its reply -/
structure Stage where
  step : UpdateStep
  request : Request
  least : Nat

/-- what an answer fails a call with, if it does -/
def Stage.fault? (stage : Stage) : Answer → Option Error
  | .error error => some error
  | .ok frame =>
    if frame.payload.length < stage.least then
      some (.protocol (.replyTooShort stage.request.command frame.payload.length stage.least))
    else none

theorem Stage.isTimeout_of_reply {stage : Stage} {frame : Frame} {fault : Error}
    (h : stage.fault? (.ok frame) = some fault) : fault.isTimeout = false := by
  by_cases hlen : frame.payload.length < stage.least
  · rw [Stage.fault?, if_pos hlen] at h
    rw [← Option.some.inj h]
    rfl
  · rw [Stage.fault?, if_neg hlen] at h
    cases h

def queryStage : Stage := ⟨.query, ⟨Command.isInBootloader, []⟩, 1⟩
def enterStage : Stage := ⟨.enterBootloader, ⟨Command.jumpToBootloader, []⟩, 0⟩
def eraseStage (page : UInt32) : Stage :=
  ⟨.erase page, ⟨Command.erasePage, Words.littleEndian32 (Flash.wordAddress page)⟩, 0⟩
def writeStage (write : Write) : Stage :=
  ⟨.write write.page,
    ⟨Command.writeData, 32 :: Words.littleEndian32 write.word ++ [0, 0] ++ write.data.toList⟩, 0⟩
def startStage : Stage := ⟨.startApplication, ⟨Command.jumpToProgram, []⟩, 0⟩

def opening (running : Bool) : List Stage :=
  if running then [queryStage] else [queryStage, enterStage]

/-- all stages of an update, when the bootloader is `running` already or is not -/
def stages (running : Bool) (plan : Plan) : List Stage :=
  opening running ++ (pagesInOrder.map eraseStage ++ (plan.writes.map writeStage ++ [startStage]))

def saysRunning : Answer → Bool
  | .ok frame => frame.payload.getD 0 0 != 0
  | .error _ => false

/-- whether the first exchange says that the bootloader is running -/
def foundRunning (exchanges : List Exchanged) : Bool :=
  exchanges.head?.any fun exchanged => saysRunning exchanged.answer

/-! ## stages in order, up to the first that fails -/

inductive Course : List Stage → List Exchanged → Option (Stage × Error) → Prop
  | done : Course [] [] none
  | next {stage : Stage} {rest : List Stage} {answer : Answer} {exchanges : List Exchanged}
      {failure : Option (Stage × Error)} (good : stage.fault? answer = none)
      (more : Course rest exchanges failure) :
      Course (stage :: rest) (⟨stage.request, answer⟩ :: exchanges) failure
  | stop {stage : Stage} {rest : List Stage} {answer : Answer} {fault : Error}
      (bad : stage.fault? answer = some fault) :
      Course (stage :: rest) [⟨stage.request, answer⟩] (some (stage, fault))

namespace Course
variable {front back : List Stage} {first second : List Exchanged}
  {failure : Option (Stage × Error)}

theorem append (h1 : Course front first none) (h2 : Course back second failure) :
    Course (front ++ back) (first ++ second) failure := by
  generalize hf : none = outcome at h1
  induction h1 with
  | done => exact h2
  | next good _ ih => exact .next good (ih hf)
  | stop _ => cases hf

theorem append_stopped {stage : Stage} {fault : Error} (h : Course front first (some (stage, fault)))
    (back : List Stage) : Course (front ++ back) first (some (stage, fault)) := by
  generalize hf : some (stage, fault) = outcome at h ⊢
  induction h with
  | done => cases hf
  | next good _ ih => exact .next good (ih hf)
  | stop bad => exact .stop bad

theorem requests_isPrefix (h : Course front first failure) :
    first.map Exchanged.request <+: front.map Stage.request := by
  induction h with
  | done => exact List.prefix_refl []
  | next _ _ ih => exact List.cons_prefix_cons.mpr ⟨rfl, ih⟩
  | stop _ => exact List.cons_prefix_cons.mpr ⟨rfl, List.nil_prefix⟩

theorem complete (h : Course front first none) :
    first.length = front.length ∧
      ∀ call ∈ front.zip first, call.1.fault? call.2.answer = none := by
  generalize hf : none = outcome at h
  induction h with
  | done => exact ⟨rfl, by simp⟩
  | next good _ ih =>
    obtain ⟨hlen, hall⟩ := ih hf
    refine ⟨by simp [hlen], fun call hcall => ?_⟩
    rcases List.mem_cons.mp hcall with rfl | hcall
    · exact good
    · exact hall call hcall
  | stop _ => cases hf

/-- A course that stopped: everything before its last exchange was in order. -/
theorem stopped {stage : Stage} {fault : Error} (h : Course front first (some (stage, fault))) :
    ∃ before later earlier answer, front = before ++ stage :: later ∧
      first = earlier ++ [⟨stage.request, answer⟩] ∧ earlier.length = before.length ∧
      (∀ call ∈ before.zip earlier, call.1.fault? call.2.answer = none) ∧
      stage.fault? answer = some fault := by
  generalize hf : some (stage, fault) = outcome at h
  induction h with
  | done => cases hf
  | @next stage' rest answer' exchanges failure good _ ih =>
    obtain ⟨before, later, earlier, answer, rfl, rfl, hlen, hall, hbad⟩ := ih hf
    refine ⟨stage' :: before, later, ⟨stage'.request, answer'⟩ :: earlier, answer, rfl, rfl,
      by simp [hlen], fun call hcall => ?_, hbad⟩
    rcases List.mem_cons.mp hcall with rfl | hcall
    · exact good
    · exact hall call hcall
  | @stop stage' rest answer' fault' bad =>
    cases hf
    exact ⟨[], rest, [], answer', rfl, rfl, rfl, by simp, bad⟩

/-- what a course puts on a line: its requests, but perhaps not the one that failed -/
theorem lines {lines : List (List UInt8)} (h : Course front first failure)
    (hlines : Link.Lines first lines) :
    ∃ n, n ≤ first.length ∧ first.length ≤ n + 1 ∧ (failure = none → n = first.length) ∧
      lines = ((first.map Exchanged.request).take n).map Request.bytes := by
  induction h generalizing lines with
  | done =>
    cases hlines
    exact ⟨0, Nat.le_refl 0, Nat.zero_le 1, fun _ => rfl, rfl⟩
  | next good more ih =>
    cases hlines with
    | written hmore =>
      obtain ⟨n, hle, hge, hall, rfl⟩ := ih hmore
      exact ⟨n + 1, Nat.succ_le_succ hle, Nat.succ_le_succ hge, fun hf => congrArg (· + 1) (hall hf),
        rfl⟩
    | unwritten hfailed _ =>
      obtain ⟨error, rfl⟩ := hfailed
      cases good
  | stop bad =>
    cases hlines with
    | written hmore =>
      cases hmore
      exact ⟨1, Nat.le_refl 1, Nat.le_succ 1, fun _ => rfl, rfl⟩
    | unwritten _ hmore =>
      cases hmore
      exact ⟨0, Nat.zero_le 1, Nat.le_refl 1, nofun, rfl⟩

end Course

/-! ## conversations that follow their stages -/

section
variable {σ α β : Type}

/-- A conversation takes some stages in order; if none of them fails its result is a `good` one,
and otherwise the failure, under the name of its step. -/
def Follows (peer : Peer σ) (s : σ) (talk : Talk α) (course : List Stage) (good : α → Prop) : Prop :=
  (∃ a, Course course (talk.over peer s).exchanges none ∧
    (talk.over peer s).result = .ok a ∧ good a) ∨
  ∃ stage fault, Course course (talk.over peer s).exchanges (some (stage, fault)) ∧
    (talk.over peer s).result = .error (.updateStep stage.step fault)

variable {peer : Peer σ} {s : σ}

theorem ask_follows (step : UpdateStep) (command : UInt8) (payload : List UInt8) (least : Nat)
    (value : List UInt8 → α) :
    Follows peer s (during step (Query.ask command payload least fun reply => .ok (value reply)))
      [⟨step, ⟨command, payload⟩, least⟩]
      (fun a => ∃ frame, (peer.ask s ⟨command, payload⟩).2 = .ok frame ∧
        a = value frame.payload) := by
  let query := Query.ask command payload least fun reply => .ok (value reply)
  let stage : Stage := ⟨step, ⟨command, payload⟩, least⟩
  have hover : (during step query).over peer s =
      ⟨(peer.ask s stage.request).1, [⟨stage.request, (peer.ask s stage.request).2⟩],
        (query.result (peer.ask s stage.request).2).mapError (Error.updateStep step)⟩ := rfl
  show Follows peer s (during step query) [stage] _
  unfold Follows
  rw [hover]
  cases hans : (peer.ask s stage.request).2 with
  | error error => exact Or.inr ⟨stage, error, .stop rfl, rfl⟩
  | ok frame =>
    by_cases hlen : frame.payload.length < least
    · have hfault : stage.fault? (.ok frame) =
          some (.protocol (.replyTooShort command frame.payload.length least)) := if_pos hlen
      refine Or.inr ⟨stage, _, .stop hfault, ?_⟩
      show Except.mapError _ (if frame.payload.length < least then _ else _) = _
      rw [if_pos hlen]
      rfl
    · have hfault : stage.fault? (.ok frame) = none := if_neg hlen
      refine Or.inl ⟨value frame.payload, .next hfault .done, ?_, frame, rfl, rfl⟩
      show Except.mapError _ (if frame.payload.length < least then _ else _) = _
      rw [if_neg hlen]
      rfl

theorem Follows.imp {talk : Talk α} {course : List Stage} {good good' : α → Prop}
    (h : Follows peer s talk course good) (hgood : ∀ a, good a → good' a) :
    Follows peer s talk course good' := by
  rcases h with ⟨a, hc, hr, ha⟩ | h
  · exact Or.inl ⟨a, hc, hr, hgood a ha⟩
  · exact Or.inr h

theorem tell_follows (step : UpdateStep) (command : UInt8) (payload : List UInt8) :
    Follows peer s (during step (Query.tell command payload)) [⟨step, ⟨command, payload⟩, 0⟩]
      (fun _ => True) :=
  (ask_follows step command payload 0 fun _ => ()).imp fun _ _ => trivial

theorem Follows.bind {talk : Talk α} {f : α → Talk β} {front back : List Stage}
    {good : α → Prop} {good' : β → Prop} (h : Follows peer s talk front good)
    (hf : ∀ a s, good a → Follows peer s (f a) back good') :
    Follows peer s (talk >>= f) (front ++ back) good' := by
  rcases h with ⟨a, hc, hr, ha⟩ | ⟨stage, fault, hc, hr⟩
  · unfold Follows
    rw [Talk.over_bind_ok hr]
    rcases hf a (talk.over peer s).peer ha with ⟨b, hc', hr', hb⟩ | ⟨stage, fault, hc', hr'⟩
    · exact Or.inl ⟨b, hc.append hc', hr', hb⟩
    · exact Or.inr ⟨stage, fault, hc.append hc', hr'⟩
  · unfold Follows
    rw [Talk.over_bind_error hr]
    exact Or.inr ⟨stage, fault, hc.append_stopped back, rfl⟩

theorem Follows.bind_nil {talk : Talk α} {f : α → Talk β} {front : List Stage}
    {good : α → Prop} {good' : β → Prop} (h : Follows peer s talk front good)
    (hf : ∀ a s, good a → Follows peer s (f a) [] good') :
    Follows peer s (talk >>= f) front good' := by
  have := h.bind hf
  rwa [List.append_nil] at this

theorem Follows.pure {a : α} {good : α → Prop} (h : good a) :
    Follows peer s (pure a : Talk α) [] good :=
  Or.inl ⟨a, .done, rfl, h⟩

theorem Follows.pause (ms : Nat) : Follows peer s (Talk.pause ms) [] (fun _ => True) :=
  Or.inl ⟨(), .done, rfl, trivial⟩

theorem Follows.forM {ι : Type} (xs : List ι) (f : ι → Talk Unit) (stage : ι → Stage)
    (h : ∀ x s, Follows peer s (f x) [stage x] (fun _ => True)) (s : σ) :
    Follows peer s (xs.forM f) (xs.map stage) (fun _ => True) := by
  induction xs generalizing s with
  | nil => exact Follows.pure trivial
  | cons x xs ih => exact (h x s).bind fun _ s _ => ih s

/-! ## the parts of an update -/

/-- the query and, unless it finds the bootloader running, the jump and the pause after it -/
theorem enterBootloader_follows (settle : Nat) :
    Follows peer s (enterBootloader settle)
      (opening (saysRunning (peer.ask s queryStage.request).2))
      (fun entered => entered = !saysRunning (peer.ask s queryStage.request).2) := by
  have hquery : Follows peer s (during .query Controller.isInBootloader) [queryStage]
      (fun running => running = saysRunning (peer.ask s queryStage.request).2) := by
    refine (ask_follows .query Command.isInBootloader [] 1 fun reply => reply.getD 0 0 != 0).imp ?_
    rintro running ⟨frame, hans, rfl⟩
    rw [show (peer.ask s queryStage.request).2 = .ok frame from hans]
    rfl
  unfold opening
  cases hrun : saysRunning (peer.ask s queryStage.request).2 with
  | true =>
    refine hquery.bind_nil fun running s hr => ?_
    rw [hr, hrun]
    exact Follows.pure rfl
  | false =>
    show Follows peer s _ ([queryStage] ++ [enterStage]) _
    refine hquery.bind fun running s hr => ?_
    rw [hr, hrun]
    refine (tell_follows .enterBootloader Command.jumpToBootloader []).bind_nil fun _ s _ => ?_
    exact (Follows.pause settle).bind_nil fun _ s _ => Follows.pure rfl

theorem eraseRegions_follows :
    Follows peer s eraseRegions (pagesInOrder.map eraseStage) (fun _ => True) := by
  unfold eraseRegions
  rw [Flash.erasedPages_eq]
  exact Follows.forM pagesInOrder _ eraseStage (fun _ _ => tell_follows ..) s

theorem program_follows (writes : List Write) :
    Follows peer s (program writes) (writes.map writeStage) (fun _ => True) :=
  Follows.forM writes _ writeStage (fun _ _ => tell_follows ..) s

theorem carryOut_follows (settle : Nat) (plan : Plan) :
    Follows peer s (carryOut settle plan)
      (stages (saysRunning (peer.ask s queryStage.request).2) plan)
      (fun report => report = ⟨!saysRunning (peer.ask s queryStage.request).2, 128,
        plan.writes.length, plan.skipped⟩) := by
  refine (enterBootloader_follows settle).bind fun entered s hentered => ?_
  refine eraseRegions_follows.bind fun _ s _ => ?_
  refine (program_follows plan.writes).bind fun _ s _ => ?_
  refine (tell_follows .startApplication Command.jumpToProgram []).bind_nil fun _ s _ => ?_
  rw [hentered, Flash.length_erasedPages]
  exact Follows.pure rfl

theorem over_run_refused {settle : Nat} {records : List Record} {error : Error}
    (h : Plan.of? records = .error error) :
    (run settle records).over peer s = ⟨s, [], .error error⟩ := by
  have hknown : ((Talk.known (Plan.of? records)).over peer s).result = .error error := h
  unfold run
  rw [Talk.over_bind_error hknown]
  rfl

theorem over_run {settle : Nat} {records : List Record} {plan : Plan}
    (h : Plan.of? records = .ok plan) :
    (run settle records).over peer s = (carryOut settle plan).over peer s := by
  have hknown : ((Talk.known (Plan.of? records)).over peer s).result = .ok plan := h
  unfold run
  rw [Talk.over_bind_ok hknown]
  rfl

theorem foundRunning_carryOut (settle : Nat) (plan : Plan) :
    foundRunning ((carryOut settle plan).over peer s).exchanges =
      saysRunning (peer.ask s queryStage.request).2 := by
  have hquery : [⟨queryStage.request, (peer.ask s queryStage.request).2⟩] <+:
      ((enterBootloader settle).over peer s).exchanges :=
    Talk.exchanges_bind peer s (during .query Controller.isInBootloader) _
  obtain ⟨more, hmore⟩ := hquery.trans (Talk.exchanges_bind peer s (enterBootloader settle) _)
  unfold foundRunning
  rw [carryOut, ← hmore]
  rfl

end

/-! ## what is left of an update -/

/-- What the exchanges and the result of an update to an image must be. -/
structure KeepsToCourse (records : List Record) (exchanges : List Exchanged)
    (result : Except Error Report) : Prop where
  /-- an image that is refused is not talked about -/
  refused : ∀ error, Plan.of? records = .error error → exchanges = [] ∧ result = .error error
  /-- the calls are the first of the stages -/
  attempted : ∀ plan, Plan.of? records = .ok plan →
    exchanges.map Exchanged.request <+:
      (stages (foundRunning exchanges) plan).map Stage.request
  /-- the update succeeds just when all stages were called and all their calls succeeded -/
  succeeded : ∀ plan, Plan.of? records = .ok plan →
    ((∃ report, result = .ok report) ↔
      exchanges.length = (stages (foundRunning exchanges) plan).length ∧
        ∀ call ∈ (stages (foundRunning exchanges) plan).zip exchanges,
          call.1.fault? call.2.answer = none)
  reported : ∀ plan report, Plan.of? records = .ok plan → result = .ok report →
    report = ⟨!foundRunning exchanges, 128, plan.writes.length, plan.skipped⟩
  /-- otherwise the last call is the first that failed, and its error is behind the update's -/
  failed : ∀ plan error, Plan.of? records = .ok plan → result = .error error →
    ∃ before stage later earlier answer fault,
      stages (foundRunning exchanges) plan = before ++ stage :: later ∧
      exchanges = earlier ++ [⟨stage.request, answer⟩] ∧ earlier.length = before.length ∧
      (∀ call ∈ before.zip earlier, call.1.fault? call.2.answer = none) ∧
      stage.fault? answer = some fault ∧ error = .updateStep stage.step fault ∧
      error.isTimeout = fault.isTimeout

theorem Course.not_complete {front : List Stage} {first : List Exchanged} {stage : Stage}
    {fault : Error} (h : Course front first (some (stage, fault)))
    (hlen : first.length = front.length) :
    ∃ call ∈ front.zip first, call.1.fault? call.2.answer = some fault := by
  obtain ⟨before, later, earlier, answer, rfl, rfl, hsame, -, hbad⟩ := h.stopped
  refine ⟨(stage, ⟨stage.request, answer⟩), ?_, hbad⟩
  rw [List.zip_append hsame.symm]
  exact List.mem_append_right _ (List.mem_cons_self ..)

theorem over_run_keepsToCourse {σ : Type} (peer : Peer σ) (s : σ) (settle : Nat)
    (records : List Record) :
    KeepsToCourse records ((run settle records).over peer s).exchanges
      ((run settle records).over peer s).result := by
  cases hplan : Plan.of? records with
  | error error =>
    have hno : ∀ plan, Plan.of? records ≠ .ok plan := by
      intro plan h
      rw [hplan] at h
      cases h
    rw [over_run_refused hplan]
    refine ⟨fun error' h => ?_, fun plan h => absurd h (hno plan),
      fun plan h => absurd h (hno plan), fun plan _ h => absurd h (hno plan),
      fun plan _ h => absurd h (hno plan)⟩
    rw [hplan] at h
    exact ⟨rfl, congrArg Except.error (Except.error.inj h)⟩
  | ok plan =>
    have hone : ∀ plan', Plan.of? records = .ok plan' → plan' = plan := by
      intro plan' h
      rw [hplan] at h
      exact (Except.ok.inj h).symm
    have hnot : ∀ error, Plan.of? records ≠ .error error := by
      intro error h
      rw [hplan] at h
      cases h
    rw [over_run hplan]
    have hfollows : Follows peer s (carryOut settle plan) _ _ := carryOut_follows settle plan
    rw [← foundRunning_carryOut settle plan] at hfollows
    rcases hfollows with ⟨report, hcourse, hresult, hreport⟩ | ⟨stage, fault, hcourse, hresult⟩
    · refine ⟨fun error h => absurd h (hnot error), fun plan' h => ?_, fun plan' h => ?_,
        fun plan' report' h hr => ?_, fun plan' error h hr => ?_⟩
      · rw [hone plan' h]
        exact hcourse.requests_isPrefix
      · rw [hone plan' h]
        exact ⟨fun _ => hcourse.complete, fun _ => ⟨report, hresult⟩⟩
      · rw [hone plan' h]
        rw [hresult] at hr
        rw [← Except.ok.inj hr]
        exact hreport
      · rw [hresult] at hr
        cases hr
    · refine ⟨fun error h => absurd h (hnot error), fun plan' h => ?_, fun plan' h => ?_,
        fun plan' report' h hr => ?_, fun plan' error h hr => ?_⟩
      · rw [hone plan' h]
        exact hcourse.requests_isPrefix
      · rw [hone plan' h]
        refine ⟨fun ⟨report, hr⟩ => ?_, fun ⟨hlen, hall⟩ => ?_⟩
        · rw [hresult] at hr
          cases hr
        · obtain ⟨call, hcall, hbad⟩ := hcourse.not_complete hlen
          rw [hall call hcall] at hbad
          cases hbad
      · rw [hresult] at hr
        cases hr
      · rw [hone plan' h]
        obtain ⟨before, later, earlier, answer, hstages, hexchanges, hlen, hall, hbad⟩ :=
          hcourse.stopped
        rw [hresult] at hr
        rw [← Except.error.inj hr]
        exact ⟨before, stage, later, earlier, answer, fault, hstages, hexchanges, hlen, hall, hbad,
          rfl, rfl⟩

/-! ## over a link -/

/-- What an update over a link has put on the line: the requests of its calls, but perhaps not that
of the call that failed. -/
theorem carried_run {ι : Type} [DecidableEq ι] {link : Link ι} (h : link.AtRest) (ticket : ι)
    (timeout : Time) (settle : Nat) (records : List Record) :
    let held := (run settle records).over (Link.peer ticket timeout) link
    ∃ n, n ≤ held.exchanges.length ∧ held.exchanges.length ≤ n + 1 ∧
      ((∃ report, held.result = .ok report) → n = held.exchanges.length) ∧
      held.peer.carried = link.carried ++ (held.requests.take n).map Request.bytes := by
  intro held
  obtain ⟨-, -, lines, hlines, hcarried⟩ := h.over_spec ticket timeout (run settle records).run
  have hover : (run settle records).run.over (Link.peer ticket timeout) link = held := rfl
  rw [hover] at hlines hcarried
  rw [hcarried]
  cases hplan : Plan.of? records with
  | error error =>
    have hheld : held = ⟨link, [], .error error⟩ := over_run_refused hplan
    rw [hheld] at hlines ⊢
    cases hlines
    exact ⟨0, Nat.le_refl 0, Nat.zero_le 1, fun _ => rfl, rfl⟩
  | ok plan =>
    have hheld : held = (carryOut settle plan).over (Link.peer ticket timeout) link :=
      over_run hplan
    have hfollows : Follows (Link.peer ticket timeout) link (carryOut settle plan) _ _ :=
      carryOut_follows settle plan
    unfold Follows at hfollows
    rw [← hheld] at hfollows
    rcases hfollows with ⟨report, hcourse, -, -⟩ | ⟨stage, fault, hcourse, hresult⟩
    · obtain ⟨n, hle, hge, hall, rfl⟩ := hcourse.lines hlines
      exact ⟨n, hle, hge, fun _ => hall rfl, rfl⟩
    · obtain ⟨n, hle, hge, -, rfl⟩ := hcourse.lines hlines
      refine ⟨n, hle, hge, fun ⟨report, hr⟩ => ?_, rfl⟩
      rw [hresult] at hr
      cases hr

/-- an update that failed over a link failed with a timeout just when its last call timed out -/
theorem isTimeout_run {ι : Type} [DecidableEq ι] {link : Link ι} (h : link.AtRest) (ticket : ι)
    (timeout : Time) {settle : Nat} {records : List Record} {plan : Plan} {error : Error}
    (hplan : Plan.of? records = .ok plan)
    (herror : ((run settle records).over (Link.peer ticket timeout) link).result = .error error) :
    ∃ last, ((run settle records).over (Link.peer ticket timeout) link).exchanges.getLast? =
        some last ∧
      (error.isTimeout = true ↔ last.answer = .error (.timeout last.request.command timeout)) := by
  obtain ⟨-, hends, -⟩ := h.over_spec ticket timeout (run settle records).run
  obtain ⟨_, stage, _, earlier, answer, fault, -, hexchanges, -, -, hbad, -, htimeout⟩ :=
    (over_run_keepsToCourse (Link.peer ticket timeout) link settle records).failed plan error hplan
      herror
  refine ⟨⟨stage.request, answer⟩, by rw [hexchanges]; simp, ?_⟩
  have hlast : Engine.Ends stage.request.command timeout answer := by
    refine hends ⟨stage.request, answer⟩ ?_
    show _ ∈ ((run settle records).over (Link.peer ticket timeout) link).exchanges
    rw [hexchanges]
    simp
  rw [htimeout]
  cases answer with
  | ok frame => simp [Stage.isTimeout_of_reply hbad]
  | error cause =>
    rw [← Option.some.inj hbad]
    rcases hlast with rfl | rfl | ⟨_, rfl⟩ | ⟨_, rfl⟩ <;> simp [Error.isTimeout]

/-! ## the law of an update -/

/-- **An update keeps to its course, whoever answers it.**  Over a link that nobody else uses, what
it asks is also what it puts on the line, but perhaps for the call that failed, and it counts as
timed out just when that call got no reply in time. -/
theorem run_keepsToCourse (settle : Nat) (records : List Record) :
    (∀ (σ : Type) (peer : Peer σ) (s : σ),
      KeepsToCourse records ((run settle records).over peer s).exchanges
        ((run settle records).over peer s).result) ∧
    ∀ (ι : Type) [DecidableEq ι] (ticket : ι) (timeout : Time) (link : Link ι), link.AtRest →
      let held := (run settle records).over (Link.peer ticket timeout) link
      link.hold ticket timeout (run settle records).run = (held.peer, held.result) ∧
      (∃ n, n ≤ held.exchanges.length ∧ held.exchanges.length ≤ n + 1 ∧
        ((∃ report, held.result = .ok report) → n = held.exchanges.length) ∧
        held.peer.carried = link.carried ++ (held.requests.take n).map Request.bytes) ∧
      ∀ plan error, Plan.of? records = .ok plan → held.result = .error error →
        ∃ last, held.exchanges.getLast? = some last ∧
          (error.isTimeout = true ↔
            last.answer = .error (.timeout last.request.command timeout)) := by
  refine ⟨fun σ peer s => over_run_keepsToCourse peer s settle records, ?_⟩
  intro ι _ ticket timeout link hrest held
  exact ⟨Link.hold_eq ticket timeout link _, carried_run hrest ticket timeout settle records,
    fun plan error hplan herror => isTimeout_run hrest ticket timeout hplan herror⟩

theorem atRest_start {ι : Type} (device : Device) (limit capacity : Nat) :
    (Link.start device limit capacity : Link ι).AtRest :=
  ⟨rfl, rfl, rfl⟩

/-- the law for a controller that stops answering in the middle of the erasure -/
theorem run_keepsToCourse_silent :
    (Link.start { answerLimit := some 5 } 144 4 : Link Nat).AtRest ∧
      KeepsToCourse [⟨0x1C00, [1, 2, 3]⟩]
        ((run 0 [⟨0x1C00, [1, 2, 3]⟩]).over (Link.peer 0 50)
          (Link.start { answerLimit := some 5 } 144 4 : Link Nat)).exchanges
        ((Link.start { answerLimit := some 5 } 144 4 : Link Nat).hold 0 50
          (run 0 [⟨0x1C00, [1, 2, 3]⟩]).run).2 := by
  refine ⟨atRest_start .., ?_⟩
  rw [((run_keepsToCourse 0 [⟨0x1C00, [1, 2, 3]⟩]).2 Nat 0 50 _ (atRest_start ..)).1]
  exact (run_keepsToCourse 0 [⟨0x1C00, [1, 2, 3]⟩]).1 (Link Nat) (Link.peer 0 50) _

end CameraPower.Update
