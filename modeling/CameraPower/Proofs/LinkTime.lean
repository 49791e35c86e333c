import CameraPower.Link
import CameraPower.Proofs.EngineStep

/-!
# A link left to itself

A property of links that the clock, the bytes due on the line and the mere passing of time leave
true lasts for as long as nobody does anything.  And on a link without calls little can happen.

* `Link.Lasting`                                       a property that lasts;
* `Lasting.settle`, `Lasting.jump`, `Lasting.advance`  everything that can happen by itself;
* `hear_idle`, `perform_clock_idle`                    the line and the clock, when there is no call;
* `begin_idle`                                         the first call.
-/

namespace CameraPower.Link

variable {ι : Type} [DecidableEq ι]

/-- what the clock, the line and the passing of time leave true -/
structure Lasting (P : Link ι → Prop) : Prop where
  clock : ∀ link, P link → P (link.perform .clock)
  hearDue : ∀ link, P link → P link.hearDue
  time : ∀ link now, P link → P { link with now }

variable {P : Link ι → Prop} {link : Link ι}

theorem Lasting.settle (h : Lasting P) (hlink : P link) : P link.settle := by
  induction link using Link.settle.induct with
  | case1 link hdue heard hshorter ih =>
    unfold Link.settle
    rw [if_pos hdue]
    exact (dif_pos hshorter).symm ▸ ih (h.hearDue link hlink)
  | case2 link hdue heard hshorter =>
    unfold Link.settle
    rw [if_pos hdue]
    exact (dif_neg hshorter).symm ▸ h.hearDue link hlink
  | case3 link hdue =>
    unfold Link.settle
    rw [if_neg hdue]
    exact hlink

theorem Lasting.jump (h : Lasting P) (hlink : P link) (time : Time) : P (link.jump time) :=
  h.settle (h.clock _ (h.settle (h.time link time hlink)))

theorem Lasting.advance (h : Lasting P) (hlink : P link) (stop : Link ι → Bool) (instant : Time) :
    P (link.advance stop instant) := by
  induction link using Link.advance.induct stop instant with
  | case1 link hstop =>
    unfold Link.advance
    rw [if_pos hstop]
    exact hlink
  | case2 link hstop next hnext hdue ih =>
    unfold Link.advance
    rw [if_neg hstop]
    simp only [hnext, hdue, and_self, dite_true]
    exact ih (h.time _ next (h.jump hlink next))
  | case3 link hstop next hnext hdue =>
    unfold Link.advance
    rw [if_neg hstop]
    simp only [hnext, hdue, dite_false]
    exact h.time link _ hlink
  | case4 link hstop hnext =>
    unfold Link.advance
    rw [if_neg hstop]
    simp only [hnext]
    exact h.time link _ hlink

/-! ## a link without calls -/

/-- when nobody waits, what has been heard cannot bring about new replies -/
theorem settle_of_queue (hqueue : link.engine.queue = []) :
    link.settle = if link.isDue then link.hearDue else link := by
  unfold Link.settle
  simp only [hqueue, List.length_nil, Nat.not_lt_zero, dite_false]

/-- what comes from the line on a link without calls gets no further than the inbox -/
theorem perform_received (link : Link ι) (hcurrent : link.engine.current = none)
    (hqueue : link.engine.queue = []) (frames : List Frame) (ended : Bool) :
    link.perform (.received frames ended) =
      { link with
        engine := { link.engine with inbox := Engine.received link.engine.inbox frames ended } } := by
  let heard : Engine ι Wire :=
    { link.engine with inbox := Engine.received link.engine.inbox frames ended }
  have hlook : heard.look Wire.send link.now = (heard, []) := by
    rw [Engine.look_none _ _ heard hcurrent]
    simp only [heard, hqueue, hcurrent, Engine.grant]
  have hstep : link.engine.step Wire.send link.now (.received frames ended) = (heard, []) := hlook
  simp only [perform, hstep, endsAt, List.append_nil, heard]

theorem hear_idle (link : Link ι) (hcurrent : link.engine.current = none)
    (hqueue : link.engine.queue = []) (events : List LineEvent) :
    link.hear events =
      { link with
        receiver := (link.receiver.hearAll events).1
        engine := { link.engine with
          inbox := Engine.received link.engine.inbox (link.receiver.hearAll events).2
            (link.receiver.running && !(link.receiver.hearAll events).1.running) } } :=
  perform_received { link with receiver := (link.receiver.hearAll events).1 } hcurrent hqueue _ _

theorem perform_clock_idle (link : Link ι) (hcurrent : link.engine.current = none)
    (hqueue : link.engine.queue = []) : link.perform .clock = link :=
  perform_received link hcurrent hqueue [] false

/-- on a link without calls, a call that fits a frame gets the line as it begins -/
theorem begin_idle (link : Link ι) (hcurrent : link.engine.current = none)
    (hqueue : link.engine.queue = []) (call : Engine.Call ι)
    (hfits : call.request.payload.length ≤ Frame.maxPayload) :
    link.begin call =
      let (engine, actions) :=
        Engine.grant Wire.send link.now link.engine.inbox link.engine.port [call]
      { link with engine, finished := link.finished ++ endsAt link.now actions } := by
  have harrive : link.engine.arrive call = ({ link.engine with queue := [call] }, []) := by
    rw [Engine.arrive, Frame.encode?_of_le hfits, hqueue]
    rfl
  have hlook := Engine.look_none Wire.send link.now { link.engine with queue := [call] } hcurrent
  simp only [begin, perform, Engine.step, harrive, hlook, List.nil_append]

end CameraPower.Link
