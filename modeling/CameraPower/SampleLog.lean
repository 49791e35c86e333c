import CameraPower.Telemetry
import CameraPower.Text.Json

/-!
# The log of battery samples

Samples go to numbered files, one JSON line each.  A file takes a fixed number of samples, then the
next one is begun; of all log files in the directory only the newest are kept.  Files are told apart
and ordered by name alone, so files left by others count as well.

* `Directory`          the directory with its entries, in the order of their names;
* `SampleLog.log`      one sample;
* `SampleLog.rotate`   begins the next file and removes what is too much.
-/

namespace CameraPower

/-! ## the directory -/

inductive Directory.Entry where
  | file (lines : List String)
  | directory
  deriving DecidableEq, Repr

/-- entries sorted by name, or a directory that is not there -/
inductive Directory where
  | missing
  /-- a file is where the directory should be -/
  | blocked
  | present (entries : List (String × Directory.Entry))
  deriving DecidableEq, Repr

namespace Directory

/-- entries with one more, which replaces an entry of its name -/
def put (name : String) (entry : Entry) : List (String × Entry) → List (String × Entry)
  | [] => [(name, entry)]
  | (other, old) :: rest =>
    if name = other then (name, entry) :: rest
    else if name < other then (name, entry) :: (other, old) :: rest
    else (other, old) :: put name entry rest

/-- makes sure that there is a directory -/
def create : Directory → Except Error Directory
  | .missing => .ok (.present [])
  | .blocked => .error (.io .fileExists)
  | .present entries => .ok (.present entries)

/-- a new, empty file, also where there was one -/
def createFile (directory : Directory) (name : String) : Except Error Directory :=
  match directory with
  | .present entries =>
    match entries.lookup name with
    | some .directory => .error (.io .isDirectory)
    | _ => .ok (.present (put name (.file []) entries))
  | _ => .error (.io .notFound)

/-- a line at the end of a file, if the file is still there -/
def append (directory : Directory) (name line : String) : Directory :=
  match directory with
  | .present entries =>
    match entries.lookup name with
    | some (.file lines) => .present (put name (.file (lines ++ [line])) entries)
    | _ => directory
  | _ => directory

/-- removes a file, and leaves a directory where it is -/
def removeFile (directory : Directory) (name : String) : Directory :=
  match directory with
  | .present entries =>
    match entries.lookup name with
    | some (.file _) => .present (entries.filter (·.1 ≠ name))
    | _ => directory
  | _ => directory

def isLogName (name : String) : Bool :=
  "battery_".toList.isPrefixOf name.toList && ".jsonl".toList.isSuffixOf name.toList

/-- the names of the log files, oldest first -/
def logFiles : Directory → Except Error (List String)
  | .present entries => .ok ((entries.map Prod.fst).filter isLogName)
  | _ => .error (.io .notFound)

end Directory

/-! ## the log -/

structure SampleLog where
  maxRecords : Nat
  maxFiles : Nat
  /-- the file being written -/
  current : Option String := none
  records : Nat := 0
  /-- the number of the next file; 64 bits never run out -/
  sequence : Nat := 0
  deriving DecidableEq, Repr

namespace SampleLog

/-- a log with room for at least one sample in at least one file -/
def start (maxRecords maxFiles : Nat) (directory : Directory) :
    Except Error (SampleLog × Directory) :=
  match directory.create with
  | .error error => .error error
  | .ok directory =>
    .ok ({ maxRecords := max 1 maxRecords, maxFiles := max 1 maxFiles }, directory)

/-- the name of a log file: the local time of its creation, then its number -/
def fileName (localTime : String) (sequence : Nat) : String :=
  "battery_" ++ localTime ++ "_" ++
    String.ofList (Numeral.padded 4 (Numeral.decimal sequence)) ++ ".jsonl"

/-- a sample as an object in JSON -/
def line (timestamp : String) (t : Telemetry) : String :=
  "\x7b\"timestamp\":" ++ Json.quoted timestamp ++ "," ++ t.jsonMembers ++
    ",\"shutdown_requested\":" ++ (if t.shutdownRequested then "true" else "false") ++ "\x7d"

/-- the log files that are too many, oldest first -/
def surplus (log : SampleLog) (files : List String) : List String :=
  files.take (files.length - log.maxFiles)

/-- removes the oldest log files beyond the number to keep -/
def prune (log : SampleLog) (directory : Directory) : Except Error Directory :=
  match directory.logFiles with
  | .error error => .error error
  | .ok files => .ok ((log.surplus files).foldl Directory.removeFile directory)

/-- Begins the next file.  Its number is used up even when the file cannot be created. -/
def rotate (log : SampleLog) (directory : Directory) (localTime : String) :
    SampleLog × Directory × Except Error Unit :=
  let name := fileName localTime log.sequence
  let log := { log with current := none, sequence := log.sequence + 1 }
  match directory.createFile name with
  | .error error => (log, directory, .error error)
  | .ok directory =>
    let log := { log with current := some name, records := 0 }
    match log.prune directory with
    | .error error => (log, directory, .error error)
    | .ok directory => (log, directory, .ok ())

def write (log : SampleLog) (directory : Directory) (text : String) : SampleLog × Directory :=
  match log.current with
  | none => (log, directory)
  | some name => ({ log with records := log.records + 1 }, directory.append name text)

/-- whether the next sample needs a new file -/
def isFull (log : SampleLog) : Bool :=
  log.current.isNone || log.maxRecords ≤ log.records

/-- logs one sample; `localTime` names a file begun now, `timestamp` dates the sample -/
def log (log : SampleLog) (directory : Directory) (localTime timestamp : String) (t : Telemetry) :
    SampleLog × Directory × Except Error Unit :=
  let (log, directory, begun) :=
    if log.isFull then log.rotate directory localTime else (log, directory, .ok ())
  match begun with
  | .error error => (log, directory, .error error)
  | .ok () =>
    let (log, directory) := log.write directory (line timestamp t)
    (log, directory, .ok ())

end SampleLog
end CameraPower
