import CameraPower.Program
import CameraPower.Proofs.DecoderCompleteness

/-!
# A daemon with a checked configuration

Each part of the daemon has conditions of its own: the decoder and the log bring their bounds into
range, the monitor cannot poll without an interval, the service cannot have too many slots.  A
configuration that passes its check meets all of them but the last.

* `Config.check_iff`     what a configuration that passes looks like;
* `Ready`                parts of a daemon that are as the configuration has them;
* `Program.serve_ready`  a daemon comes up with such parts, but for a service with too many slots.
-/

namespace CameraPower

/-! ## what is checked -/

namespace Config

/-- a configuration with all its values in range -/
structure InRange (config : Config) : Prop where
  port : config.serial.port ≠ ""
  baudRate : config.serial.baudRate ∈ baudRates
  timeout : 1 ≤ config.serial.timeout ∧ config.serial.timeout ≤ 10000
  frameLimit : 2 ≤ config.serial.frameLimit ∧ config.serial.frameLimit ≤ 65535
  socketPath : config.service.socketPath ≠ ""
  pushInterval : 1 ≤ config.service.pushInterval ∧ config.service.pushInterval ≤ 60000
  maxClients : 1 ≤ config.service.maxClients
  pollInterval : 1 ≤ config.monitoring.pollInterval ∧ config.monitoring.pollInterval ≤ 60000
  logDirectory : config.monitoring.logEnabled = true → config.monitoring.logDirectory ≠ ""
  recordsPerFile : 1 ≤ config.monitoring.recordsPerFile
  filesKept : 1 ≤ config.monitoring.filesKept
  settleDelay : config.updating.settleDelay ≤ 10000
  command : ∃ program arguments, config.shutdown.command = program :: arguments ∧ program ≠ ""

@[simp] theorem blame_eq_nil_iff (fault : ConfigFault) (cause : Bool) :
    blame fault cause = [] ↔ cause = false := by
  cases cause <;> simp [blame]

/-- two bounds that a value is outside of -/
theorem within_iff {low high value : Nat} :
    (decide (value < low) || decide (high < value)) = false ↔ low ≤ value ∧ value ≤ high := by
  simp

theorem positive_iff {value : Nat} : (value == 0) = false ↔ 1 ≤ value := by
  rw [beq_eq_false_iff_ne, Nat.one_le_iff_ne_zero]

theorem within_one_iff {high value : Nat} :
    (value == 0 || decide (high < value)) = false ↔ 1 ≤ value ∧ value ≤ high := by
  rw [Bool.or_eq_false_iff, positive_iff, decide_eq_false_iff_not, Nat.not_lt]

theorem Shutdown.faults_eq_nil_iff (shutdown : Shutdown) : shutdown.faults = [] ↔
    ∃ program arguments, shutdown.command = program :: arguments ∧ program ≠ "" := by
  rw [Shutdown.faults, blame_eq_nil_iff]
  cases shutdown.command with
  | nil => simp
  | cons program arguments => simp

/-- **The check accepts the configurations in range, and no others.** -/
theorem check_iff (config : Config) : config.check = .ok () ↔ config.InRange := by
  simp only [check_eq_ok_iff, faults, List.append_eq_nil_iff, Shutdown.faults_eq_nil_iff,
    Serial.faults, Service.faults, Monitoring.faults, Updating.faults, blame_eq_nil_iff,
    within_one_iff, within_iff, positive_iff]
  constructor
  · rintro ⟨⟨⟨⟨⟨⟨⟨hport, hbaud⟩, htimeout⟩, hlimit⟩, ⟨hsocket, hpush⟩, hclients⟩,
      ⟨⟨hpoll, hlog⟩, hrecords⟩, hfiles⟩, hsettle⟩, hcommand⟩
    refine ⟨by simpa using hport, by simpa using hbaud, htimeout, hlimit, by simpa using hsocket,
      hpush, hclients, hpoll, fun henabled => by simpa [henabled] using hlog, hrecords, hfiles,
      by simpa using hsettle, hcommand⟩
  · intro h
    refine ⟨⟨⟨⟨⟨⟨⟨by simpa using h.port, by simpa using h.baudRate⟩, h.timeout⟩, h.frameLimit⟩,
      ⟨by simpa using h.socketPath, h.pushInterval⟩, h.maxClients⟩,
      ⟨⟨h.pollInterval, ?_⟩, h.recordsPerFile⟩, h.filesKept⟩, by simpa using h.settleDelay⟩,
      h.command⟩
    cases henabled : config.monitoring.logEnabled with
    | false => rfl
    | true => simpa using h.logDirectory henabled

end Config

/-! ## the parts -/

/-- a log with the bounds of the configuration, if one is to be kept -/
def LogReady (monitoring : Config.Monitoring) (logging : Option Monitor.Logging) : Prop :=
  logging.map (fun logging => (logging.log.maxRecords, logging.log.maxFiles)) =
    if monitoring.enabled && monitoring.logEnabled then
      some (monitoring.recordsPerFile, monitoring.filesKept)
    else none

/-- Parts of a daemon that are as the configuration has them. -/
structure Ready (config : Config) (station : Station) : Prop where
  frameLimit : station.link.receiver.decoder.limit = config.serial.frameLimit
  timeout : station.timeout = config.serial.timeout
  slots : station.server.slots = config.service.maxClients
  pushInterval : station.server.pushInterval = config.service.pushInterval
  /-- The service comes up if there can be as many slots. -/
  service : station.server.phase =
    if config.service.maxClients ≤ Server.maxSlots then .serving else .broken
  pollInterval : station.monitor.interval = config.monitoring.pollInterval ∧
    station.monitor.interval ≠ 0
  /-- The monitor comes up, and its first poll is under way. -/
  monitor : station.monitor.phase =
    if config.monitoring.enabled then .polling (some config.monitoring.pollInterval) else .idle
  log : LogReady config.monitoring station.monitor.logging

/-- a call over the link leaves the parts as they are -/
theorem Ready.ask {config : Config} {station : Station} (h : Ready config station) (party : Party)
    (request : Request) : Ready config (station.ask party request) := by
  have hreceiver : (station.ask party request).link.receiver = station.link.receiver := rfl
  refine ⟨?_, h.timeout, h.slots, h.pushInterval, h.service, h.pollInterval, h.monitor, h.log⟩
  rw [hreceiver]
  exact h.frameLimit

/-- a monitor with an interval polls at once -/
theorem Monitor.step_run (localTime timestamp : String) {monitor : Monitor}
    (hidle : monitor.phase = .idle) (hgoing : monitor.stopping = false)
    (hinterval : monitor.interval ≠ 0) :
    monitor.step localTime timestamp 0 .run = monitor.poll (some monitor.interval) := by
  have hnext : nextTick monitor.interval 0 0 = monitor.interval := by simp [nextTick]
  rw [step, hidle]
  show (if monitor.interval = 0 then _ else monitor.await 0 0) = _
  rw [if_neg hinterval, await, hgoing, if_neg Bool.false_ne_true, if_pos (Nat.le_refl 0), hnext]

theorem Station.tellMonitor_run {station : Station} (hnow : station.link.now = 0)
    (hidle : station.monitor.phase = .idle) (hgoing : station.monitor.stopping = false)
    (hinterval : station.monitor.interval ≠ 0) :
    station.tellMonitor .run =
      ask { station with monitor.phase := .polling (some station.monitor.interval) }
        .monitor Controller.batteryData.request := by
  rw [tellMonitor, hnow, Monitor.step_run _ _ hidle hgoing hinterval]
  rfl

namespace Program

/-- **Parts of a configuration in range are as it has them**, also when the monitor runs. -/
theorem ready_parts {config : Config} (h : config.InRange) (device : Device)
    {logging : Option Monitor.Logging} (hlog : LogReady config.monitoring logging) :
    Ready config (if config.monitoring.enabled then (parts config device logging).tellMonitor .run
      else parts config device logging) := by
  have hlimit : (Decoder.withLimit config.serial.frameLimit).limit = config.serial.frameLimit :=
    Decoder.limit_withLimit (Nat.le_of_succ_le h.frameLimit.1) h.frameLimit.2
  have hslots : max 1 config.service.maxClients = config.service.maxClients :=
    Nat.max_eq_right h.maxClients
  have hservice : (Server.start config.service.maxClients config.service.pushInterval).phase =
      if config.service.maxClients ≤ Server.maxSlots then .serving else .broken := by
    rw [Server.start, hslots]
  have hinterval : config.monitoring.pollInterval ≠ 0 := Nat.one_le_iff_ne_zero.1 h.pollInterval.1
  have hready : ∀ phase : Monitor.Phase,
      phase = (if config.monitoring.enabled then .polling (some config.monitoring.pollInterval)
        else .idle) →
      Ready config { parts config device logging with monitor.phase := phase } :=
    fun phase hphase => ⟨hlimit, rfl, hslots, rfl, hservice, ⟨rfl, hinterval⟩, hphase, hlog⟩
  cases henabled : config.monitoring.enabled with
  | false =>
    rw [if_neg Bool.false_ne_true]
    exact hready .idle (by rw [henabled]; rfl)
  | true =>
    have hrun := Station.tellMonitor_run
      (rfl : (parts config device logging).link.now = 0) rfl rfl hinterval
    rw [if_pos rfl, hrun]
    exact (hready _ (by rw [henabled]; rfl)).ask .monitor _

theorem openLog_cases {config : Config} (h : config.InRange) (logs : Directory) :
    (∃ logging, openLog config.monitoring logs = .ok logging ∧ LogReady config.monitoring logging) ∨
      ∃ error, openLog config.monitoring logs = .error error ∧
        config.monitoring.logEnabled = true ∧ logs.create = .error error := by
  unfold openLog LogReady
  cases hkeeps : config.monitoring.enabled && config.monitoring.logEnabled with
  | false => exact .inl ⟨none, rfl, rfl⟩
  | true =>
    rw [if_pos rfl, if_pos rfl, SampleLog.start]
    cases logs.create with
    | error error => exact .inr ⟨error, rfl, (Bool.and_eq_true _ _ ▸ hkeeps).2, rfl⟩
    | ok directory =>
      rw [Nat.max_eq_right h.recordsPerFile, Nat.max_eq_right h.filesKept]
      exact .inl ⟨_, rfl, rfl⟩

/-- **A daemon with a checked configuration comes up with every part as the configuration has it,
unless it is refused its socket or the directory of its log.** -/
theorem serve_ready (config : Config) (hcheck : config.check = .ok ()) (device : Device)
    (socket : SocketPath) (logs : Directory) :
    (∃ station, serve config device socket logs = .ok station ∧ Ready config station) ∨
      ∃ error, serve config device socket logs = .error error ∧
        (socket.bind = .error error ∨
          config.monitoring.logEnabled = true ∧ logs.create = .error error) := by
  have h := config.check_iff.1 hcheck
  unfold serve
  cases socket.bind with
  | error error => exact .inr ⟨error, rfl, .inl rfl⟩
  | ok =>
    rcases openLog_cases h logs with ⟨logging, hopen, hlog⟩ | ⟨error, hopen, hlogs⟩
    · rw [hopen]
      exact .inl ⟨_, rfl, ready_parts h device hlog⟩
    · rw [hopen]
      exact .inr ⟨error, rfl, .inr hlogs⟩

/-- a configuration with bounds of its own, and with a log -/
def watchful : Config where
  serial := { timeout := 250, frameLimit := 64 }
  service := { pushInterval := 500, maxClients := 3 }
  monitoring := { pollInterval := 200, logEnabled := true, recordsPerFile := 50, filesKept := 2 }

/-- a daemon that keeps a log comes up where a socket was left behind and no log is yet -/
theorem serve_ready_with_log :
    watchful.check = .ok () ∧
      ∃ station, serve watchful {} .staleFile .missing = .ok station ∧ Ready watchful station ∧
        station.monitor.logging.map (fun logging => (logging.log.maxRecords, logging.log.maxFiles)) =
          some (50, 2) := by
  have hcheck : watchful.check = .ok () := (Config.check_eq_ok_iff watchful).2 (by decide)
  rcases serve_ready watchful hcheck {} .staleFile .missing with
    ⟨station, hserve, hready⟩ | ⟨error, -, herror | ⟨-, herror⟩⟩
  · exact ⟨hcheck, station, hserve, hready, hready.log⟩
  · cases herror
  · cases herror

/-- **The check lets more clients pass than a service can have slots for.** -/
theorem breaks_with_too_many_slots :
    ¬ ∀ (config : Config) (device : Device) (station : Station), config.check = .ok () →
      serve config device .free .missing = .ok station → station.server.phase ≠ .broken := by
  intro h
  let config : Config := { service := { maxClients := Server.maxSlots + 1 } }
  have hcheck : config.check = .ok () := config.check_iff.2
    ⟨by decide, by decide, by decide, by decide, by decide, by decide, by decide, by decide, nofun,
      by decide, by decide, by decide, ⟨_, _, rfl, by decide⟩⟩
  have hready := ready_parts (config.check_iff.1 hcheck) {} (rfl : LogReady config.monitoring none)
  exact h config {} _ hcheck rfl hready.service

end Program
end CameraPower
