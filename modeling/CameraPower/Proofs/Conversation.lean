import CameraPower.Controller
import CameraPower.Link

/-!
# Conversations and whoever answers them

A `Peer` is anything that can answer a conversation: a state, what a request makes of it and is
answered, and what a pause makes of it.  A link is one, a function of the request's number is one,
and so is a controller with a flash.  `Dialogue.over` holds a conversation with a peer and keeps a
record of it.

* `Dialogue.over_bind`, `Talk.over_bind_ok`  a record of two parts is the records of the parts;
* `Dialogue.hold_eq`, `Link.hold_eq`         what the library runs is such a record, less its exchanges;
* `Query.over_talk`                          the record of one query.
-/

namespace CameraPower

/-- who answers a conversation -/
structure Peer (σ : Type) where
  ask : σ → Request → σ × Answer
  wait : σ → Nat → σ

/-- a request that was made, and what it came to -/
structure Exchanged where
  request : Request
  answer : Answer

/-- the record of a conversation: where it left the peer, what was asked and answered, the result -/
structure Held (σ α : Type) where
  peer : σ
  exchanges : List Exchanged
  result : α

namespace Held
variable {σ α : Type}

def requests (held : Held σ α) : List Request :=
  held.exchanges.map Exchanged.request

def after (earlier : List Exchanged) (held : Held σ α) : Held σ α :=
  { held with exchanges := earlier ++ held.exchanges }

@[simp] theorem peer_after (earlier : List Exchanged) (held : Held σ α) :
    (held.after earlier).peer = held.peer := rfl
@[simp] theorem exchanges_after (earlier : List Exchanged) (held : Held σ α) :
    (held.after earlier).exchanges = earlier ++ held.exchanges := rfl
@[simp] theorem result_after (earlier : List Exchanged) (held : Held σ α) :
    (held.after earlier).result = held.result := rfl
@[simp] theorem after_nil (held : Held σ α) : held.after [] = held := rfl
@[simp] theorem after_after (first second : List Exchanged) (held : Held σ α) :
    (held.after second).after first = held.after (first ++ second) := by
  simp [after]

end Held

/-! ## holding a conversation -/

section
variable {σ α β : Type}

/-- holds a conversation with a peer -/
def Dialogue.over (peer : Peer σ) : σ → Dialogue α → Held σ α
  | s, .done result => ⟨s, [], result⟩
  | s, .ask request next =>
    let (s, answer) := peer.ask s request
    ((next answer).over peer s).after [⟨request, answer⟩]
  | s, .pause ms next => next.over peer (peer.wait s ms)

theorem Dialogue.over_bind (peer : Peer σ) (s : σ) (d : Dialogue α) (f : α → Dialogue β) :
    (d >>= f).over peer s =
      ((f (d.over peer s).result).over peer (d.over peer s).peer).after
        (d.over peer s).exchanges := by
  induction d generalizing s with
  | done a => rfl
  | ask request next ih =>
    rw [Dialogue.ask_bind]
    simp only [Dialogue.over]
    rw [ih]
    simp
  | pause ms next ih =>
    rw [Dialogue.pause_bind]
    exact ih (peer.wait s ms)

def Talk.over (peer : Peer σ) (s : σ) (talk : Talk α) : Held σ (Except Error α) :=
  Dialogue.over peer s talk.run

/-- a failed first part is the whole conversation -/
theorem Talk.over_bind_error {peer : Peer σ} {s : σ} {talk : Talk α} {f : α → Talk β}
    {error : Error} (h : (talk.over peer s).result = .error error) :
    (talk >>= f).over peer s =
      ⟨(talk.over peer s).peer, (talk.over peer s).exchanges, .error error⟩ := by
  show Dialogue.over peer s (ExceptT.run talk >>= fun a => _) = _
  rw [Dialogue.over_bind]
  unfold Talk.over at h
  rw [h]
  simp only [ExceptT.bindCont]
  show Held.mk _ (_ ++ []) _ = _
  rw [List.append_nil]
  rfl

/-- after a first part that succeeded the second goes on where it left the peer -/
theorem Talk.over_bind_ok {peer : Peer σ} {s : σ} {talk : Talk α} {f : α → Talk β} {a : α}
    (h : (talk.over peer s).result = .ok a) :
    (talk >>= f).over peer s =
      ((f a).over peer (talk.over peer s).peer).after (talk.over peer s).exchanges := by
  show Dialogue.over peer s (ExceptT.run talk >>= fun a => _) = _
  rw [Dialogue.over_bind]
  unfold Talk.over at h
  rw [h]
  rfl

theorem Talk.exchanges_bind (peer : Peer σ) (s : σ) (talk : Talk α) (f : α → Talk β) :
    (talk.over peer s).exchanges <+: ((talk >>= f).over peer s).exchanges := by
  cases h : (talk.over peer s).result with
  | error error =>
    have hsame : ((talk >>= f).over peer s).exchanges = (talk.over peer s).exchanges := by
      rw [Talk.over_bind_error h]
    exact hsame ▸ List.prefix_refl _
  | ok a =>
    rw [Talk.over_bind_ok h]
    exact List.prefix_append ..

theorem Query.over_talk (peer : Peer σ) (s : σ) (query : Query α) :
    Talk.over peer s query.talk =
      ⟨(peer.ask s query.request).1, [⟨query.request, (peer.ask s query.request).2⟩],
        query.result (peer.ask s query.request).2⟩ := rfl

end

/-! ## the library's own ways to hold one -/

def Peer.numbered (answer : Nat → Request → Answer) : Peer Nat where
  ask n request := (n + 1, answer n request)
  wait n _ := n

theorem Dialogue.hold_eq {α : Type} (answer : Nat → Request → Answer) (n : Nat) (d : Dialogue α) :
    d.hold answer n =
      ((d.over (.numbered answer) n).result, (d.over (.numbered answer) n).requests) := by
  induction d generalizing n with
  | done a => rfl
  | ask request next ih =>
    rw [Dialogue.hold, ih]
    rfl
  | pause ms next ih => exact ih n

namespace Link
variable {ι : Type} [DecidableEq ι]

/-- a link in the peer's place, with one caller -/
def peer (ticket : ι) (timeout : Time) : Peer (Link ι) where
  ask link request := link.call ticket timeout request
  wait link ms := link.pause ms

theorem hold_eq {α : Type} (ticket : ι) (timeout : Time) (link : Link ι) (d : Dialogue α) :
    link.hold ticket timeout d =
      ((d.over (peer ticket timeout) link).peer, (d.over (peer ticket timeout) link).result) := by
  induction d generalizing link with
  | done a => rfl
  | ask request next ih => exact ih _ _
  | pause ms next ih => exact ih _

end Link
end CameraPower
