import CameraPower.Session
import CameraPower.Proofs.ClientLines
import Mathlib.Data.List.Induction

/-!
# What a session may do

A history holds what has happened to a session and what it has done.  A log tells it with the reasons:
which line a request was made for, which lines were passed over, when the client was taken for quiet.

* `Entry`, `History`, `record`  the events and actions, each with its instant;
* `Item`, `Log`                 the log, and `Log.history` what can be seen of it;
* `Allowed`                     what an item needs to stand in a log;
* `Settled`                     a log at whose end nothing is left to be done;
* `Lawful.answered`             requests and replies take turns;
* `Lawful.asked`                every line that is a command is asked for.
-/

namespace CameraPower.Session

/-! ## histories -/

inductive Entry where
  | event (event : Event)
  | action (action : Action)

abbrev History := List (Time × Entry)

def History.at (now : Time) (entries : List Entry) : History :=
  entries.map (now, ·)

/-- the history that a session makes of events at their instants, and the session it leads to -/
def record (session : Session) : List (Time × Event) → History × Session
  | [] => ([], session)
  | (now, event) :: rest =>
    let (next, actions) := session.step now event
    let (history, last) := next.record rest
    (History.at now (.event event :: actions.map .action) ++ history, last)

def Event.bytes : Event → List UInt8
  | .input bytes => bytes
  | _ => []

def Event.endsInput : Event → Bool
  | .inputEnded => true
  | _ => false

def History.events (history : History) : List (Time × Event) :=
  history.filterMap fun entry => match entry.2 with
    | .event event => some (entry.1, event)
    | .action _ => none

def History.texts (history : History) : List String :=
  history.filterMap fun entry => match entry.2 with
    | .action (.write text) => some text
    | _ => none

def History.requests (history : History) : List Request :=
  history.filterMap fun entry => match entry.2 with
    | .action (.ask request) => some request
    | _ => none

theorem events_record (session : Session) (events : List (Time × Event)) :
    (session.record events).1.events = events := by
  induction events generalizing session with
  | nil => rfl
  | cons moment rest ih =>
    have hactions : ∀ actions : List Action,
        History.events (History.at moment.1 (.event moment.2 :: actions.map .action)) = [moment] := by
      intro actions
      have hnone : History.events (History.at moment.1 (actions.map .action)) = [] := by
        simp [History.events, History.at]
      exact congrArg (moment :: ·) hnone
    show History.events (History.at moment.1 _ ++ _) = _
    rw [History.events, List.filterMap_append, ← History.events, ← History.events, hactions, ih]
    rfl

/-! ## logs -/

inductive Item where
  | came (bytes : List UInt8)
  | inputEnded
  | ticked
  /-- a line that is no command is passed over -/
  | passed (line : ClientLine)
  /-- a line's request is made -/
  | asked (line : ClientLine) (command : ClientCommand)
  /-- the client is quiet, and a battery reading is asked for -/
  | pushed
  /-- a request has come to its answer, and the reply is sent -/
  | answered (command : ClientCommand) (answer : Answer)
  | closed

abbrev Log := List (Time × Item)

namespace Item

def isOutside : Item → Bool
  | .came _ | .inputEnded | .ticked | .answered _ _ => true
  | _ => false

/-- what can be seen of an item -/
def entries : Item → List Entry
  | .came bytes => [.event (.input bytes)]
  | .inputEnded => [.event .inputEnded]
  | .ticked => [.event .clock]
  | .passed _ => []
  | .asked _ command => [.action (.ask command.request)]
  | .pushed => [.action (.ask ClientCommand.getBatteryData.request)]
  | .answered command answer =>
    let reply := command.reply answer
    .event (.answered answer) :: .action (.write reply.text) ::
      if reply.shutdownRequested then [.action .requestShutdown] else []
  | .closed => []

@[simp] def bytes : Item → List UInt8
  | .came bytes => bytes
  | _ => []

@[simp] def endsInput : Item → Bool
  | .inputEnded => true
  | _ => false

@[simp] def endsSession : Item → Bool
  | .closed => true
  | _ => false

@[simp] def line? : Item → Option ClientLine
  | .passed line => some line
  | .asked line _ => some line
  | _ => none

@[simp] def lineCommand? : Item → Option ClientCommand
  | .asked _ command => some command
  | _ => none

@[simp] def command? : Item → Option ClientCommand
  | .asked _ command => some command
  | .pushed => some .getBatteryData
  | _ => none

@[simp] def reply? : Item → Option (ClientCommand × Answer)
  | .answered command answer => some (command, answer)
  | _ => none

/-- the command that waits for its answer, if one waited before -/
@[simp] def waiting (before : Option ClientCommand) : Item → Option ClientCommand
  | .asked _ command => some command
  | .pushed => some .getBatteryData
  | .answered _ _ => none
  | _ => before

/-- the end of what was last finished with -/
@[simp] def since (before now : Time) : Item → Time
  | .passed _ => now
  | .answered _ _ => now
  | _ => before

end Item

namespace Log

def history (log : Log) : History :=
  log.flatMap fun entry => History.at entry.1 entry.2.entries

def input (log : Log) : List UInt8 :=
  log.flatMap (·.2.bytes)

def isOver (log : Log) : Bool :=
  log.any (·.2.endsInput)

def isClosed (log : Log) : Bool :=
  log.any (·.2.endsSession)

def lines (log : Log) : List ClientLine :=
  ClientLine.ofInput log.input log.isOver

def read (log : Log) : List ClientLine :=
  log.filterMap (·.2.line?)

def lineCommands (log : Log) : List ClientCommand :=
  log.filterMap (·.2.lineCommand?)

/-- the commands of all requests, those for quiet clients included -/
def commands (log : Log) : List ClientCommand :=
  log.filterMap (·.2.command?)

def replies (log : Log) : List (ClientCommand × Answer) :=
  log.filterMap (·.2.reply?)

def waiting (log : Log) : Option ClientCommand :=
  log.foldl (fun before entry => entry.2.waiting before) none

/-- when the session was opened, or has finished with a line, a reply or a push -/
def since (opened : Time) (log : Log) : Time :=
  log.foldl (fun before entry => entry.2.since before entry.1) opened

section
variable (log : Log) (now opened : Time) (item : Item)

@[simp] theorem input_concat : input (log ++ [(now, item)]) = log.input ++ item.bytes := by
  simp [input]

@[simp] theorem isOver_concat : isOver (log ++ [(now, item)]) = (log.isOver || item.endsInput) := by
  simp [isOver]

@[simp] theorem isClosed_concat :
    isClosed (log ++ [(now, item)]) = (log.isClosed || item.endsSession) := by
  simp [isClosed]

@[simp] theorem read_concat : read (log ++ [(now, item)]) = log.read ++ item.line?.toList := by
  cases item <;> simp [read]

@[simp] theorem lineCommands_concat :
    lineCommands (log ++ [(now, item)]) = log.lineCommands ++ item.lineCommand?.toList := by
  cases item <;> simp [lineCommands]

@[simp] theorem commands_concat :
    commands (log ++ [(now, item)]) = log.commands ++ item.command?.toList := by
  cases item <;> simp [commands]

@[simp] theorem replies_concat :
    replies (log ++ [(now, item)]) = log.replies ++ item.reply?.toList := by
  cases item <;> simp [replies]

@[simp] theorem waiting_concat : waiting (log ++ [(now, item)]) = item.waiting log.waiting := by
  simp [waiting]

@[simp] theorem since_concat :
    since opened (log ++ [(now, item)]) = item.since (log.since opened) now := by
  simp [since]

@[simp] theorem history_concat :
    history (log ++ [(now, item)]) = log.history ++ History.at now item.entries := by
  simp [history]

end

theorem same_input {item : Item} (hbytes : item.bytes = []) (hover : item.endsInput = false)
    (log : Log) (now : Time) :
    input (log ++ [(now, item)]) = log.input ∧ isOver (log ++ [(now, item)]) = log.isOver := by
  rw [input_concat, isOver_concat, hbytes, hover, List.append_nil, Bool.or_false]
  exact ⟨rfl, rfl⟩

end Log

/-! ## laws -/

/-- what an item needs to stand behind a log at an instant -/
inductive Allowed (interval opened : Time) (log : Log) (now : Time) : Item → Prop
  | came (bytes : List UInt8) (goesOn : log.isOver = false) :
    Allowed interval opened log now (.came bytes)
  | inputEnded (goesOn : log.isOver = false) : Allowed interval opened log now .inputEnded
  | ticked : Allowed interval opened log now .ticked
  /-- the next line that has not been read is no command -/
  | passed (line : ClientLine) (free : log.waiting = none) (next : log.read ++ [line] <+: log.lines)
    (unknown : command? line = none) : Allowed interval opened log now (.passed line)
  /-- the next line that has not been read is a command -/
  | asked (line : ClientLine) (command : ClientCommand) (free : log.waiting = none)
    (next : log.read ++ [line] <+: log.lines) (known : command? line = some command) :
    Allowed interval opened log now (.asked line command)
  /-- all lines have been read, and it is just the interval since something was finished with -/
  | pushed (free : log.waiting = none) (goesOn : log.isOver = false) (all : log.read = log.lines)
    (elapsed : now = log.since opened + interval) : Allowed interval opened log now .pushed
  | answered (command : ClientCommand) (answer : Answer) (asked : log.waiting = some command) :
    Allowed interval opened log now (.answered command answer)
  | closed (free : log.waiting = none) (inputEnded : log.isOver = true) (all : log.read = log.lines) :
    Allowed interval opened log now .closed

/-- Nothing is left to be done at the end of a log: a session that waits for no answer is closed, or
all lines have been read and the interval has not passed yet. -/
def Settled (interval opened : Time) (log : Log) : Prop :=
  log.waiting = none → log.isClosed = false →
    log.isOver = false ∧ log.read = log.lines ∧
      ∀ last ∈ log.getLast?, last.1 < log.since opened + interval

/-- Each item may stand where it stands; and what comes from outside finds nothing left to be done. -/
structure Lawful (interval opened : Time) (log : Log) : Prop where
  allowed : ∀ before now item after, log = before ++ (now, item) :: after →
    Allowed interval opened before now item
  prompt : ∀ before now item after, log = before ++ (now, item) :: after → item.isOutside = true →
    Settled interval opened before

section
variable {interval opened now : Time} {log : Log} {item : Item}

theorem lawful_nil : Lawful interval opened [] :=
  ⟨by simp, by simp⟩

theorem Lawful.concat (h : Lawful interval opened log)
    (hallowed : Allowed interval opened log now item)
    (hprompt : item.isOutside = true → Settled interval opened log) :
    Lawful interval opened (log ++ [(now, item)]) where
  allowed before time other after hsplit := by
    rcases concat_cases hsplit with ⟨rfl, hlast⟩ | ⟨after', hlog⟩
    · cases hlast
      exact hallowed
    · exact h.allowed before time other after' hlog
  prompt before time other after hsplit houtside := by
    rcases concat_cases hsplit with ⟨rfl, hlast⟩ | ⟨after', hlog⟩
    · cases hlast
      exact hprompt houtside
    · exact h.prompt before time other after' hlog houtside

/-- what the session does by itself may follow anything -/
theorem Lawful.concat_own (h : Lawful interval opened log)
    (hallowed : Allowed interval opened log now item) (hown : item.isOutside = false) :
    Lawful interval opened (log ++ [(now, item)]) :=
  h.concat hallowed fun houtside => by
    rw [hown] at houtside
    cases houtside

theorem Lawful.last (h : Lawful interval opened (log ++ [(now, item)])) :
    Lawful interval opened log ∧ Allowed interval opened log now item := by
  have hlonger : ∀ {before after : Log} {entry : Time × Item}, log = before ++ entry :: after →
      log ++ [(now, item)] = before ++ entry :: (after ++ [(now, item)]) := by
    intro before after entry hlog
    rw [hlog, List.append_assoc, List.cons_append]
  exact ⟨⟨fun before time other after hlog => h.allowed before time other _ (hlonger hlog),
    fun before time other after hlog => h.prompt before time other _ (hlonger hlog)⟩,
    h.allowed log now item [] rfl⟩

/-! ## consequences -/

/-- each request has its reply, but for the last one if it waits for its answer -/
theorem Lawful.answered (h : Lawful interval opened log) :
    log.commands = log.replies.map Prod.fst ++ log.waiting.toList := by
  induction log using List.reverseRecOn with
  | nil => rfl
  | append_singleton log entry ih =>
    obtain ⟨hlawful, hallowed⟩ := h.last
    have hbefore := ih hlawful
    cases entry with
    | mk now item =>
      cases hallowed with
      | came | inputEnded | ticked | passed | closed => simp [hbefore]
      | asked line command free next known => simp [hbefore, free]
      | pushed free goesOn all elapsed => simp [hbefore, free]
      | answered command answer asked => simp [hbefore, asked]

/-- a line is asked for exactly if it is a command -/
theorem Lawful.asked (h : Lawful interval opened log) :
    log.lineCommands = log.read.filterMap command? := by
  induction log using List.reverseRecOn with
  | nil => rfl
  | append_singleton log entry ih =>
    obtain ⟨hlawful, hallowed⟩ := h.last
    have hbefore := ih hlawful
    cases entry with
    | mk now item =>
      cases hallowed with
      | came | inputEnded | ticked | pushed | answered | closed => simp [hbefore]
      | passed line free next unknown => simp [hbefore, unknown]
      | asked line command free next known => simp [hbefore, known]

end

theorem input_history (log : Log) :
    log.input = log.history.events.flatMap (·.2.bytes) ∧
      log.isOver = log.history.events.any (·.2.endsInput) := by
  induction log using List.reverseRecOn with
  | nil => exact ⟨rfl, rfl⟩
  | append_singleton log entry ih =>
    obtain ⟨now, item⟩ := entry
    rw [Log.history_concat, History.events, List.filterMap_append, ← History.events,
      Log.input_concat, Log.isOver_concat, ih.1, ih.2]
    cases item with
    | answered command answer =>
      cases hshutdown : (command.reply answer).shutdownRequested <;>
        simp [History.at, Item.entries, Event.bytes, Event.endsInput, hshutdown]
    | came | inputEnded | ticked | passed | asked | pushed | closed =>
      simp [History.at, Item.entries, Event.bytes, Event.endsInput]

/-- the client is sent the replies and nothing else -/
theorem texts_history (log : Log) :
    log.history.texts = log.replies.map fun reply => (reply.1.reply reply.2).text := by
  induction log using List.reverseRecOn with
  | nil => rfl
  | append_singleton log entry ih =>
    obtain ⟨now, item⟩ := entry
    rw [Log.history_concat, History.texts, List.filterMap_append, ← History.texts, ih]
    cases item with
    | answered command answer =>
      cases hshutdown : (command.reply answer).shutdownRequested <;>
        simp [History.at, Item.entries, hshutdown]
    | came | inputEnded | ticked | passed | asked | pushed | closed => simp [History.at, Item.entries]

/-- the controller is asked for the commands and nothing else -/
theorem requests_history (log : Log) :
    log.history.requests = log.commands.map ClientCommand.request := by
  induction log using List.reverseRecOn with
  | nil => rfl
  | append_singleton log entry ih =>
    obtain ⟨now, item⟩ := entry
    rw [Log.history_concat, History.requests, List.filterMap_append, ← History.requests, ih]
    cases item with
    | answered command answer =>
      cases hshutdown : (command.reply answer).shutdownRequested <;>
        simp [History.at, Item.entries, hshutdown]
    | came | inputEnded | ticked | passed | asked | pushed | closed => simp [History.at, Item.entries]

end CameraPower.Session
