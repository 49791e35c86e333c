import CameraPower.Session

/-!
# The telemetry service

Clients connect to a socket.  Each is given a session, served by a task of its own, while there is a
free slot; further ones are turned away.  A task holds its slot until its session is over.  When the
service sees that it is to stop it accepts nobody any more, and it returns when it has noticed the
end of every session; only then does the socket go away.

    serving   clients are accepted
    closing   the end of the sessions is awaited
    returned  the service is over
    broken    there could not be as many slots, and the service never came up

The service is a machine over events that come in any order (`Server.step`):

* `Server.Incident`   what happens to the task of one session;
* `Server.happen`     an incident, and the slot that is given back with the session's end;
* `Server.connect`    a client knocks;
* `Server.tell`       something happens to a session, and its end is noticed at once;
* `Server.stop`       the service sees that it is to stop, and so do its sessions.
-/

namespace CameraPower

/-- what is at the socket's path before the service binds it -/
inductive SocketPath where
  | free
  | staleFile
  | directory
  | noParent
  deriving DecidableEq, Repr

/-- Binding replaces a file that an earlier run left behind. -/
def SocketPath.bind : SocketPath → Except Error Unit
  | .free | .staleFile => .ok ()
  | .directory => .error (.io .isDirectory)
  | .noParent => .error (.io .notFound)

namespace Server

/-! ## sessions and their tasks -/

/-- what becomes of a client that connects -/
inductive Admission where
  /-- it is given the session with this number -/
  | accepted (session : Nat)
  /-- its connection is closed at once -/
  | turnedAway
  /-- nobody accepts it, and its connection is closed with the socket -/
  | unheard
  /-- there is no socket to connect to -/
  | noSocket
  deriving DecidableEq, Repr

/-- what happens to the task of a session -/
inductive Incident where
  | session (event : Session.Event)
  /-- reading from the client fails, or the task itself does -/
  | failure (error : Error)

/-- a session that ends with an error, whatever it was doing -/
def fail (session : Session) (error : Error) : Session :=
  { session with phase := .closed (.error error) }

/-- Nothing more happens to a session that is over. -/
def Incident.change (now : Time) (session : Session) (incident : Incident) :
    Session × List Session.Action :=
  if session.outcome?.isSome then (session, [])
  else
    match incident with
    | .session event => session.step now event
    | .failure error => (fail session error, [])

/-- a session and the task that serves it -/
structure Task where
  /-- the number of the session -/
  number : Nat
  session : Session
  /-- it holds one of the slots -/
  holding : Bool := true
  /-- the service knows of its end -/
  noticed : Bool := false

def Task.isOver (task : Task) : Bool :=
  task.session.outcome?.isSome

inductive Phase where
  | serving
  | closing
  | returned
  | broken
  deriving DecidableEq, Repr

/-- The most slots there can be: an eighth of what a word of 64 bits counts. -/
def maxSlots : Nat := 0x1FFFFFFFFFFFFFFF

end Server

structure Server where
  slots : Nat
  pushInterval : Time
  /-- slots that no task holds -/
  free : Nat
  phase : Server.Phase := .serving
  /-- the number of the last session; 64 bits never run out -/
  last : Nat := 0
  /-- the tasks in the order of their sessions -/
  tasks : List Server.Task := []

namespace Server

/-- a service for at least one client at a time -/
def start (maxClients : Nat) (pushInterval : Time) : Server :=
  let slots := max 1 maxClients
  { slots, pushInterval, free := slots, phase := if slots ≤ maxSlots then .serving else .broken }

/-! ## views -/

def isDone (server : Server) : Bool :=
  server.phase == .returned

def task? (server : Server) (number : Nat) : Option Task :=
  server.tasks.find? (·.number == number)

def session? (server : Server) (number : Nat) : Option Session :=
  (server.task? number).map (·.session)

def numbers (server : Server) : List Nat :=
  server.tasks.map (·.number)

def sessions (server : Server) : List Session :=
  server.tasks.map (·.session)

/-- when the clock alone makes a session act -/
def wakeAt? (server : Server) : Option Time :=
  server.sessions.foldl (fun time session => earlier? time session.wakeAt?) none

/-! ## what the service and its tasks do -/

/-- a service with one more session, which has taken a slot with it -/
def enrol (now : Time) (server : Server) : Server :=
  { server with
    free := server.free - 1
    last := server.last + 1
    tasks := server.tasks ++
      [{ number := server.last + 1, session := Session.start server.pushInterval now }] }

/-- a client knocks -/
def connect (now : Time) (server : Server) : Server × Admission :=
  match server.phase with
  | .serving =>
    if server.free = 0 then (server, .turnedAway)
    else (server.enrol now, .accepted (server.last + 1))
  | .closing => (server, .unheard)
  | .returned | .broken => (server, .noSocket)

/-- puts a task in the place of the one with its number -/
def replace (server : Server) (task : Task) : Server :=
  { server with tasks := server.tasks.map fun other =>
      if other.number = task.number then task else other }

/-- What an incident makes of the service, what the session does, and how it ends if it ends with
that.  A task that is over gives its slot back. -/
def happen (now : Time) (server : Server) (number : Nat) (incident : Incident) :
    Server × List Session.Action × Option (Except Error Unit) :=
  match server.task? number with
  | none => (server, [], none)
  | some task =>
    let (session, actions) := incident.change now task.session
    let task := { task with session }
    if task.holding && task.isOver then
      ({ server.replace { task with holding := false } with free := server.free + 1 },
        actions, session.outcome?)
    else (server.replace task, actions, none)

/-- the service learns that a task is over, if it is -/
def notice (server : Server) (number : Nat) : Server :=
  match server.task? number with
  | none => server
  | some task => if task.isOver then server.replace { task with noticed := true } else server

/-- no task is awaited any more -/
def isAlone (server : Server) : Bool :=
  server.phase == .closing && server.tasks.all (·.noticed)

/-- The service returns when it has nothing left to wait for. -/
def conclude (server : Server) : Server :=
  if server.isAlone then { server with phase := .returned } else server

/-- a service that accepts nobody any more -/
def close (server : Server) : Server :=
  match server.phase with
  | .serving => { server with phase := .closing }
  | _ => server

/-! ## the machine -/

inductive Event where
  /-- a client connects -/
  | connect
  /-- a connection breaks before it is accepted -/
  | acceptFailed (error : Error)
  /-- something happens to the task of a session -/
  | task (number : Nat) (incident : Incident)
  /-- the service learns of the end of a task -/
  | notice (number : Nat)
  /-- the service sees that it is to stop -/
  | stop

inductive Action where
  | admitted (admission : Admission)
  | session (number : Nat) (action : Session.Action)
  /-- a session is over, and its connection is closed -/
  | ended (number : Nat) (outcome : Except Error Unit)
  | returned

/-- a service that waits for its sessions, with its return if none is left -/
def await (server : Server) : Server × List Action :=
  (server.conclude, if server.isAlone then [.returned] else [])

/-- what an event makes of a service at an instant, and the actions in their order -/
def step (now : Time) (server : Server) : Event → Server × List Action
  | .connect =>
    let (server, admission) := server.connect now
    (server, [.admitted admission])
  | .acceptFailed _ => (server, [])
  | .task number incident =>
    let (server, actions, outcome?) := server.happen now number incident
    (server, actions.map (.session number) ++ (outcome?.map (.ended number)).toList)
  | .notice number => (server.notice number).await
  | .stop => server.close.await

/-- events of one instant, one after the other -/
def run (now : Time) (server : Server) : List Event → Server × List Action
  | [] => (server, [])
  | event :: rest =>
    let (next, actions) := server.step now event
    let (last, more) := next.run now rest
    (last, actions ++ more)

/-! ## one instant -/

/-- what the sessions do, each with its number -/
def sessionActions (actions : List Action) : List (Nat × Session.Action) :=
  actions.filterMap fun action => match action with
    | .session number action => some (number, action)
    | _ => none

/-- an event for a session, whose end is noticed at once -/
def telling (event : Session.Event) (number : Nat) : List Event :=
  [.task number (.session event), .notice number]

/-- something happens to the session with a number -/
def tell (now : Time) (server : Server) (number : Nat) (event : Session.Event) :
    Server × List (Nat × Session.Action) :=
  let (server, actions) := server.run now (telling event number)
  (server, sessionActions actions)

/-- something happens to all sessions -/
def tellAll (now : Time) (server : Server) (event : Session.Event) :
    Server × List (Nat × Session.Action) :=
  let (server, actions) := server.run now (server.numbers.flatMap (telling event))
  (server, sessionActions actions)

/-- the service sees that it is to stop, and so do its sessions -/
def stop (now : Time) (server : Server) : Server × List (Nat × Session.Action) :=
  let (server, actions) := server.run now (.stop :: server.numbers.flatMap (telling .stop))
  (server, sessionActions actions)

end Server
end CameraPower
