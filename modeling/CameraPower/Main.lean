import CameraPower.Program
import CameraPower.ShutdownHook

/-!
# The executable

Runs the program against a real device, with the real clock.  A link or a station is moved on to the
present again and again: what came from the device is heard, and what it has to send is written.

The host sets the device up, so that a read comes back at once with what there is and soon without
anything (`stty raw min 0 time 1`).  Sockets and processes are the host's affair too: the daemon
serves its standard input and output as its one client, and writes the shutdown command to standard
error for a supervisor to run.
-/

namespace CameraPower.Executable

/-! ## the device -/

/-- a controller of which only the real one answers -/
def silent : Device := { answerLimit := some 0 }

/-- what comes from the device within a short while -/
def listen (device : IO.FS.Handle) : IO (List LineEvent) := do
  try
    let data ← device.read 1
    return if data.isEmpty then [] else [.bytes data.toList]
  catch _ => return [.ended]

/-- writes the requests that a link has to send beyond the first so many -/
def send {ι : Type} (device : IO.FS.Handle) (link : Link ι) (already : Nat) : IO Unit := do
  for (_, data) in link.engine.port.sent.toList.drop already do
    device.write (ByteArray.mk data.toArray)
    device.flush

/-! ## one conversation -/

/-- waits for the end of a call -/
partial def awaitAnswer (device : IO.FS.Handle) (link : Link Unit) : IO (Link Unit × Answer) := do
  let events ← listen device
  let link := ((link.hear events).settle).advance (·.idle) (← IO.monoMsNow)
  match link.collect with
  | (ended :: _, link) => return (link, ended.answer)
  | ([], link) => awaitAnswer device link

/-- holds a conversation over the device -/
def hold {α : Type} (device : IO.FS.Handle) (timeout : Time) : Link Unit → Dialogue α → IO α
  | _, .done result => return result
  | link, .pause ms next => do
    IO.sleep (UInt32.ofNat ms)
    hold device timeout link next
  | link, .ask request next => do
    let already := link.engine.port.sent.size
    let link := { link with now := ← IO.monoMsNow }.begin ⟨(), request, timeout⟩
    send device link already
    let (link, answer) ← awaitAnswer device link
    hold device timeout link (next answer)

/-! ## the daemon -/

/-- collects what the client sends until it ends its side -/
partial def read (typed : IO.Ref (Array Session.Event)) (input : IO.FS.Stream) : IO Unit := do
  let data ← input.read 1
  if data.isEmpty then typed.modify (·.push .inputEnded)
  else
    typed.modify (·.push (.input data.toList))
    read typed input

/-- writes the shutdown command for each request that the hook grants -/
def shutdown (requests : Nat) (hook : ShutdownHook) : IO ShutdownHook := do
  let mut hook := hook
  for _ in [0:requests] do
    let (next, granted) := hook.request fun _ => true
    if granted then IO.eprintln (" ".intercalate hook.command)
    hook := next
  return hook

/-- serves until the line to the controller is lost; `clock` starts with the daemon -/
partial def serve (device : IO.FS.Handle) (clock : IO Time)
    (typed : IO.Ref (Array Session.Event)) (hook : ShutdownHook) (station : Station) :
    IO Unit := do
  let already := station.link.engine.port.sent.size
  let station := (← listen device).foldl Station.hear station
  let station := (← typed.swap #[]).foldl (fun s event => s.tellSession 1 event) station
  let station := station.settle.advance (fun _ => false) (← clock)
  send device station.link already
  for (_, text) in station.written do
    IO.print text
    (← IO.getStdout).flush
  let hook ← shutdown station.shutdownRequests hook
  if station.link.receiver.running then
    serve device clock typed hook { station with written := [], shutdownRequests := 0 }

/-! ## start -/

def readFile (path : String) : IO (Except Error String) := do
  try
    match String.fromUTF8? (← IO.FS.readBinFile path) with
    | some text => return .ok text
    | none => return .error (.io .notUtf8)
  catch
    | .noFileOrDirectory .. => return .error (.io .notFound)
    | .inappropriateType .. => return .error (.io .isDirectory)
    | error => return .error (.io (.other (toString error)))

def fail (failure : Failure) : IO UInt32 := do
  IO.eprintln failure.text
  return UInt32.ofNat Program.failureExit

/-- does what a command asks for -/
def run (device : IO.FS.Handle) (config : Config) (image : Except Error String)
    (command : CommandLine.Command) : IO UInt32 := do
  match Program.conversation? config (fun _ => image) command with
  | some talk =>
    let link := Program.link Unit config silent
    match Program.report (← hold device config.serial.timeout link talk.run) with
    | .error failure => fail failure
    | .ok output =>
      IO.print output.text
      return UInt32.ofNat output.exit
  | none =>
    match Program.serve config silent .free .missing with
    | .error error => fail (.ofError error)
    | .ok station =>
      let typed ← IO.mkRef #[]
      let _ ← IO.asTask (read typed (← IO.getStdin)) .dedicated
      let began ← IO.monoMsNow
      let clock := do return (← IO.monoMsNow) - began
      serve device clock typed ⟨config.shutdown.command, false⟩ station.connect.1
      fail .linkLost

/-- opens the device, and does what is asked for -/
def start (asked : CommandLine.Invocation) : IO UInt32 := do
  let file ← match asked.options.config with
    | some path => readFile path
    | none => pure (.ok "")
  match Program.configure (fun _ => file) asked.options with
  | .error failure => fail failure
  | .ok config =>
    let port := config.serial.port
    let device? ← try some <$> IO.FS.Handle.mk port .readWrite catch _ => pure none
    match device?, SerialPort.open? (fun _ => device?.isSome) [port] with
    | some device, .ok _ =>
      let image ← match asked.command with
        | .update image => readFile image
        | _ => pure (.ok "")
      run device config image asked.command
    | _, .error error => fail (.ofError error)
    | none, .ok _ => fail .linkLost

end CameraPower.Executable

/-- the program: its exit code is zero, or that of a usage error or a failure -/
def main (arguments : List String) : IO UInt32 := do
  match CameraPower.CommandLine.parse arguments with
  | .error .version =>
    IO.print CameraPower.Program.versionText
    return 0
  | .error .usage =>
    IO.eprintln "Usage: pwrctl [OPTIONS] [COMMAND]"
    return UInt32.ofNat CameraPower.Program.usageExit
  | .ok asked => CameraPower.Executable.start asked
