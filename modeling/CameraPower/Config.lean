import CameraPower.Error
import CameraPower.Inbox

/-!
# Configuration

Six sections, each with a default for all it holds.  Times are in milliseconds.

* `Config`         the sections;
* `Config.faults`  everything that is wrong with a configuration, in the order of the sections;
* `Config.check`   a configuration is usable if nothing is wrong with it.
-/

namespace CameraPower

namespace Config

/-! ## sections -/

/-- the serial line to the controller -/
structure Serial where
  port : String := "/dev/ttyO0"
  baudRate : Nat := 57600
  /-- how long a call waits for its reply -/
  timeout : Nat := 1000
  /-- the largest declared length of a frame that is received -/
  frameLimit : Nat := 144
  deriving DecidableEq, Repr

/-- the socket that telemetry is served on -/
structure Service where
  socketPath : String := "/tmp/pcUtil.socket"
  /-- how long a client is idle before it is sent a reading that it did not ask for -/
  pushInterval : Nat := 1000
  maxClients : Nat := 20
  deriving DecidableEq, Repr

/-- the battery monitor and its log -/
structure Monitoring where
  enabled : Bool := true
  pollInterval : Nat := 1000
  logEnabled : Bool := false
  logDirectory : String := "./logs"
  recordsPerFile : Nat := 10000
  filesKept : Nat := 10
  deriving DecidableEq, Repr

/-- firmware updates -/
structure Updating where
  /-- how long the bootloader is given to start -/
  settleDelay : Nat := 100
  deriving DecidableEq, Repr

/-- what to run when the controller asks the host to power down -/
structure Shutdown where
  command : List String := ["/sbin/shutdown", "-h", "now"]
  deriving DecidableEq, Repr

/-- where the program reports what it does -/
structure Reporting where
  directory : Option String := none
  deriving DecidableEq, Repr

end Config

structure Config where
  serial : Config.Serial := {}
  service : Config.Service := {}
  monitoring : Config.Monitoring := {}
  updating : Config.Updating := {}
  shutdown : Config.Shutdown := {}
  reporting : Config.Reporting := {}
  deriving DecidableEq, Repr

namespace Config

/-! ## checking -/

/-- the line speeds that the controller can be set to -/
def baudRates : List Nat := [9600, 19200, 38400, 57600, 115200]

/-- a list of one fault, if there is cause for it -/
def blame (fault : ConfigFault) (cause : Bool) : List ConfigFault :=
  if cause then [fault] else []

def Serial.faults (serial : Serial) : List ConfigFault :=
  blame .serialPortEmpty (serial.port == "") ++
  blame .baudRate (!baudRates.contains serial.baudRate) ++
  blame .timeout (serial.timeout == 0 || 10000 < serial.timeout) ++
  blame .frameLimit (serial.frameLimit < 2 || 65535 < serial.frameLimit)

def Service.faults (service : Service) : List ConfigFault :=
  blame .socketPathEmpty (service.socketPath == "") ++
  blame .pushInterval (service.pushInterval == 0 || 60000 < service.pushInterval) ++
  blame .noClients (service.maxClients == 0)

/-- A directory is needed only for a log that is kept. -/
def Monitoring.faults (monitoring : Monitoring) : List ConfigFault :=
  blame .pollInterval (monitoring.pollInterval == 0 || 60000 < monitoring.pollInterval) ++
  blame .logDirectoryEmpty (monitoring.logEnabled && monitoring.logDirectory == "") ++
  blame .noRecords (monitoring.recordsPerFile == 0) ++
  blame .noFiles (monitoring.filesKept == 0)

def Updating.faults (updating : Updating) : List ConfigFault :=
  blame .settleDelay (10000 < updating.settleDelay)

/-- A command names at least a program. -/
def Shutdown.faults (shutdown : Shutdown) : List ConfigFault :=
  blame .shutdownCommandEmpty (shutdown.command.head?.all (· == ""))

def faults (config : Config) : List ConfigFault :=
  config.serial.faults ++ config.service.faults ++ config.monitoring.faults ++
    config.updating.faults ++ config.shutdown.faults

/-- A configuration that something is wrong with is refused for the first such thing. -/
def check (config : Config) : Except Error Unit :=
  match config.faults with
  | [] => .ok ()
  | fault :: _ => .error (.config fault)

theorem check_eq_ok_iff (config : Config) : config.check = .ok () ↔ config.faults = [] := by
  unfold check
  split <;> simp_all

theorem check_default : check {} = .ok () := (check_eq_ok_iff {}).2 (by decide)

/-! ## the link -/

/-- how a link to the controller is set up -/
structure LinkSettings where
  callTimeout : Nat
  frameLimit : Nat
  inboxCapacity : Nat
  deriving DecidableEq, Repr

/-- the link over a serial line -/
def Serial.link (serial : Serial) : LinkSettings :=
  ⟨serial.timeout, serial.frameLimit, Inbox.defaultCapacity⟩

end Config
end CameraPower
