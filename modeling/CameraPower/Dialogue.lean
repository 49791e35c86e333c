import CameraPower.Frame

/-!
# Conversations with the controller

A `Dialogue` is what one side of a conversation says, as data: it asks, goes on with what it was
answered, pauses, and comes to a result.  Who answers, and how long that takes, is not its affair:
a dialogue can be held over a link, and just as well with any function in the controller's place.

* `Dialogue`        the conversations with a result;
* `Talk`            the conversations that may fail;
* `Dialogue.hold`   a conversation with a function in the place of the controller.
-/

namespace CameraPower

/-- a command and its payload, as the host asks for them -/
structure Request where
  command : UInt8
  payload : List UInt8
  deriving DecidableEq, Repr

/-- what a request comes to -/
abbrev Answer := Except Error Frame

inductive Dialogue (α : Type) where
  /-- the conversation is over -/
  | done (result : α)
  /-- one request, and how to go on with its answer -/
  | ask (request : Request) (next : Answer → Dialogue α)
  /-- nothing is said for some milliseconds -/
  | pause (ms : Nat) (next : Dialogue α)

namespace Dialogue

variable {α β γ : Type}

protected def bind : Dialogue α → (α → Dialogue β) → Dialogue β
  | .done result, f => f result
  | .ask request next, f => .ask request fun answer => (next answer).bind f
  | .pause ms next, f => .pause ms (next.bind f)

instance : Monad Dialogue where
  pure := .done
  bind := Dialogue.bind

@[simp] theorem pure_eq (a : α) : (pure a : Dialogue α) = .done a := rfl

@[simp] theorem done_bind (a : α) (f : α → Dialogue β) : (Dialogue.done a >>= f) = f a := rfl

@[simp] theorem ask_bind (request : Request) (next : Answer → Dialogue α) (f : α → Dialogue β) :
    (Dialogue.ask request next >>= f) = .ask request fun answer => next answer >>= f := rfl

@[simp] theorem pause_bind (ms : Nat) (next : Dialogue α) (f : α → Dialogue β) :
    (Dialogue.pause ms next >>= f) = .pause ms (next >>= f) := rfl

theorem bind_done (d : Dialogue α) : d.bind .done = d := by
  induction d with
  | done => rfl
  | ask request next ih => simp only [Dialogue.bind, ih]
  | pause ms next ih => simp only [Dialogue.bind, ih]

theorem bind_assoc (d : Dialogue α) (f : α → Dialogue β) (g : β → Dialogue γ) :
    (d.bind f).bind g = d.bind fun a => (f a).bind g := by
  induction d with
  | done => rfl
  | ask request next ih => simp only [Dialogue.bind, ih]
  | pause ms next ih => simp only [Dialogue.bind, ih]

instance : LawfulMonad Dialogue :=
  LawfulMonad.mk' Dialogue bind_done (fun _ _ => rfl) bind_assoc

/-! ## with a function in the controller's place -/

/-- Holds a conversation in which the request with number `n` is answered by `answer n`: the
result, and the requests made. -/
def hold (answer : Nat → Request → Answer) : Nat → Dialogue α → α × List Request
  | _, .done result => (result, [])
  | n, .ask request next =>
    let (result, asked) := hold answer (n + 1) (next (answer n request))
    (result, request :: asked)
  | n, .pause _ next => hold answer n next

end Dialogue

/-- conversations that may fail -/
abbrev Talk := ExceptT Error Dialogue

namespace Talk

/-- nothing is said for some milliseconds -/
def pause (ms : Nat) : Talk Unit :=
  ExceptT.mk (.pause ms (.done (.ok ())))

/-- a conversation whose result is known beforehand -/
def known {α : Type} (result : Except Error α) : Talk α :=
  ExceptT.mk (.done result)

end Talk
end CameraPower
