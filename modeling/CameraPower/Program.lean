import CameraPower.CommandLine
import CameraPower.Config.Document
import CameraPower.IntelHex
import CameraPower.SerialPort
import CameraPower.Station
import CameraPower.Update

/-!
# The program

What an invocation comes to, given what files hold and which devices can be opened.

* `Program.configure`      the configuration, with what the command line changes in it;
* `Program.conversation?`  what a command has to say to the controller, and prints then;
* `Program.serve`          the parts of the daemon, ready to run;
* `Failure.text`           how the program reports what went wrong.
-/

namespace CameraPower

/-! ## failures -/

/-- why the program failed, and what was behind that, outermost first -/
structure Failure where
  reason : String
  causes : List String := []
  deriving DecidableEq, Repr

namespace Failure

def ofError (error : Error) : Failure :=
  ⟨error.message, error.causes⟩

/-- a failure of something that was done for a purpose -/
def during (purpose : String) (error : Error) : Failure :=
  ⟨purpose, error.message :: error.causes⟩

/-- a line for each cause; several causes are numbered from zero -/
def causeLines (failure : Failure) : List String :=
  match failure.causes with
  | [] => []
  | [cause] => ["", "Caused by:", "    " ++ cause]
  | causes => "" :: "Caused by:" :: causes.zipIdx.map fun (cause, n) =>
      let number := Numeral.decimal n
      String.ofList (List.replicate (5 - number.length) ' ' ++ number) ++ ": " ++ cause

/-- how a failure is reported -/
def text (failure : Failure) : String :=
  "\n".intercalate (("Error: " ++ failure.reason) :: failure.causeLines)

/-- the daemon's failure when the line to the controller is lost -/
def linkLost : Failure := ⟨"serial link closed", []⟩

end Failure

namespace Program

/-! ## start -/

/-- the answer to the question for the version -/
def versionText : String := "pwrctl 0.1.0\n"

/-- the exit code of a command line that asks for nothing there is -/
def usageExit : Nat := 2

/-- the exit code of a failure -/
def failureExit : Nat := 1

/-- The configuration of an invocation, with `read` for what a file holds.  A configuration file has
to be usable by itself, before the command line changes its port. -/
def configure (read : String → Except Error String) (options : CommandLine.Options) :
    Except Failure Config := do
  let config ← match options.config with
    | none => pure {}
    | some path =>
      ((read path).bind Config.ofToml?).mapError (Failure.during ("loading " ++ path))
  let config := match options.port with
    | none => config
    | some port => { config with serial.port := port }
  config.check.mapError Failure.ofError
  return config

/-- the configuration of an invocation whose serial port can be opened -/
def start (read : String → Except Error String) (works : String → Bool)
    (options : CommandLine.Options) : Except Failure Config := do
  let config ← configure read options
  let _ ← (SerialPort.open? works [config.serial.port]).mapError Failure.ofError
  return config

/-! ## commands -/

/-- what a command prints, and its exit code -/
structure Output where
  text : String
  exit : Nat := 0
  deriving DecidableEq, Repr

/-- one line of output -/
def say (line : String) : Output := ⟨line ++ "\n", 0⟩

/-- A yes-or-no answer to the question whether the bootloader runs is also an exit code. -/
def bootloaderOutput (running : Bool) : Output :=
  if running then say "in bootloader" else { say "in application" with exit := 1 }

def versionOutput (version : UInt16) : Output :=
  say ("application version " ++ Numeral.ofNat (version.toNat / 256) ++ "." ++
    Numeral.ofNat (version.toNat % 256))

def updateOutput (report : Update.Report) : Output :=
  say ("update complete: " ++ Numeral.ofNat report.pagesErased ++ " pages erased, " ++
    Numeral.ofNat report.pagesWritten ++ " pages written, " ++
    Numeral.ofNat report.recordsSkipped ++ " records skipped")

/-- the update to the image in a file -/
def update (settleDelay : Nat) (file : Except Error String) : Talk Output := do
  let records ← Talk.known (file.bind IntelHex.parse?)
  updateOutput <$> Update.run settleDelay records

/-- What a command has to say to the controller, and prints when that went well; none for the
daemon, whose conversations are those of its clients. -/
def conversation? (config : Config) (read : String → Except Error String) :
    CommandLine.Command → Option (Talk Output)
  | .daemon => none
  | .update image => some (update config.updating.settleDelay (read image))
  | .jumpBootloader =>
    some ((fun _ => say "jumped to bootloader") <$> Controller.jumpToBootloader.talk)
  | .jumpApplication =>
    some ((fun _ => say "jumped to application") <$> Controller.jumpToProgram.talk)
  | .inBootloader => some (bootloaderOutput <$> Controller.isInBootloader.talk)
  | .battery => some ((fun t => ⟨t.block, 0⟩) <$> Controller.batteryData.talk)
  | .setPowerupMode mode =>
    some ((fun _ => say mode.text) <$> (Controller.setPowerupMode mode).talk)
  | .powerupMode => some ((fun mode => say mode.text) <$> Controller.powerupMode.talk)
  | .setFan fan => some ((fun _ => say fan.text) <$> (Controller.setFanOverride fan).talk)
  | .fanMode => some ((fun fan => say fan.text) <$> Controller.fanOverride.talk)
  | .setShippingMode enabled =>
    some ((fun _ => say (shippingModeText enabled)) <$>
      (Controller.setShippingMode enabled).talk)
  | .shippingMode => some ((fun on => say (shippingModeText on)) <$> Controller.shippingMode.talk)
  | .version => some (versionOutput <$> Controller.appVersion.talk)
  | .shutdownReason => some ((fun reason => say reason.text) <$> Controller.shutdownReason.talk)

/-- what a conversation's result is to whoever started the program -/
def report : Except Error Output → Except Failure Output :=
  Except.mapError Failure.ofError

/-! ## the daemon -/

def link (ι : Type) [DecidableEq ι] (config : Config) (device : Device) : Link ι :=
  let settings := config.serial.link
  .start device settings.frameLimit settings.inboxCapacity

/-- the log of the monitor, if one is kept -/
def openLog (monitoring : Config.Monitoring) (logs : Directory) :
    Except Error (Option Monitor.Logging) :=
  if monitoring.enabled && monitoring.logEnabled then
    (SampleLog.start monitoring.recordsPerFile monitoring.filesKept logs).map
      fun (log, directory) => some ⟨log, directory⟩
  else .ok none

/-- the daemon's parts before any of them runs -/
def parts (config : Config) (device : Device) (logging : Option Monitor.Logging) : Station :=
  { link := link Party config device
    timeout := config.serial.link.callTimeout
    server := .start config.service.maxClients config.service.pushInterval
    monitor := { interval := config.monitoring.pollInterval, logging } }

/-- The daemon at its start: its socket is bound first, then the log is opened if one is kept. -/
def serve (config : Config) (device : Device) (socket : SocketPath) (logs : Directory) :
    Except Error Station := do
  socket.bind
  let logging ← openLog config.monitoring logs
  let station := parts config device logging
  return if config.monitoring.enabled then station.tellMonitor .run else station

/-- The daemon is told to stop, and so are its parts. -/
def stop (station : Station) : Station :=
  (station.stopServer.tellMonitor .stop).settle

end Program
end CameraPower
