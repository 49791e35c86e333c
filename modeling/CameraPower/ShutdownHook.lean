/-!
# Running the shutdown command once

Sessions and the monitor share one hook.  The first request runs the command; later ones do nothing.
A command that cannot be started frees the hook again, so that a later request tries again.

A request is three steps, which requests of several callers may interleave: it claims the hook,
tries to start the command if the claim was granted, and frees the hook if that failed.

* `claim`, `free`  the steps on the hook;
* `request`        the steps of one request without interruption.
-/

namespace CameraPower

structure ShutdownHook where
  /-- a program and its arguments -/
  command : List String
  fired : Bool := false
  deriving DecidableEq, Repr

namespace ShutdownHook

/-- claims the hook; granted to the first claim only -/
def claim (hook : ShutdownHook) : ShutdownHook × Bool :=
  ({ hook with fired := true }, !hook.fired)

/-- gives a claim back -/
def free (hook : ShutdownHook) : ShutdownHook :=
  { hook with fired := false }

/-- One request: the hook after it, and whether the command was started.  `starts` says whether a
program can be started.  A hook without a command stays claimed. -/
def request (starts : String → Bool) (hook : ShutdownHook) : ShutdownHook × Bool :=
  match hook.claim with
  | (hook, false) => (hook, false)
  | (hook, true) =>
    match hook.command with
    | [] => (hook, false)
    | program :: _ => if starts program then (hook, true) else (hook.free, false)

end ShutdownHook
end CameraPower
