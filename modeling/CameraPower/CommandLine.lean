import CameraPower.Settings

/-!
# The command line

    [-c FILE] [-p DEVICE] [COMMAND [OPERAND]]

Options may stand before and after the command, once at each place; the one after it counts.  An
option's value is the rest of its word, or the next word unless that looks like an option.  Behind
two hyphens there are no options any more.

* `Word`      what a single word looks like;
* `Item`      options with their values, and what is left;
* `Command`   what the program can be told to do;
* `parse`     a whole command line.
-/

namespace CameraPower.CommandLine

/-! ## options -/

inductive OptionName where
  | config
  | port
  deriving DecidableEq, Repr

structure Options where
  config : Option String := none
  port : Option String := none
  deriving DecidableEq, Repr

namespace Options

/-- Gives an option its value, unless it has one.  A file cannot have the empty name. -/
def set? (options : Options) : OptionName → String → Option Options
  | .config, value =>
    if options.config.isSome ∨ value = "" then none else some { options with config := value }
  | .port, value => if options.port.isSome then none else some { options with port := value }

def before (options others : Options) : Options :=
  ⟨options.config.or others.config, options.port.or others.port⟩

end Options

/-! ## words -/

/-- what a word looks like -/
inductive Word where
  /-- two hyphens and nothing else -/
  | separator
  /-- an option, and its value if that is part of the word -/
  | option (name : OptionName) (value : Option String)
  | version
  /-- an option that there is not -/
  | unknown
  | plain
  deriving DecidableEq, Repr

namespace Word

/-- a word behind two hyphens: a name, which an equals sign divides from its value -/
def ofLong (text : List Char) : Word :=
  let name := text.takeWhile (· != '=')
  let value := match text.dropWhile (· != '=') with
    | [] => none
    | _ :: value => some (String.ofList value)
  match String.ofList name, value with
  | "config", value => .option .config value
  | "port", value => .option .port value
  | "version", none => .version
  | _, _ => .unknown

/-- what follows a letter: its value, with or without an equals sign -/
def attached : List Char → Option String
  | [] => none
  | '=' :: value => some (String.ofList value)
  | value => some (String.ofList value)

/-- a word behind one hyphen: letters, of which the first one counts -/
def ofShort : List Char → Word
  | 'c' :: rest => .option .config (attached rest)
  | 'p' :: rest => .option .port (attached rest)
  | 'V' :: _ => .version
  | _ => .unknown

/-- what a word looks like; a single hyphen is a plain word -/
def of (text : String) : Word :=
  match text.toList with
  | ['-', '-'] => .separator
  | '-' :: '-' :: rest => ofLong rest
  | '-' :: c :: rest => ofShort (c :: rest)
  | _ => .plain

end Word

/-! ## items -/

/-- options with their values, and plain words before and behind two hyphens -/
inductive Item where
  | option (name : OptionName) (value : String)
  | version
  | word (text : String)
  | operand (text : String)
  /-- an option that there is not, or one without its value -/
  | wrong
  deriving DecidableEq, Repr

/-- The items of a command line; nothing behind a request for the version or a wrong option is
looked at. -/
def items : List String → List Item
  | [] => []
  | text :: rest =>
    match Word.of text with
    | .separator => rest.map .operand
    | .option name (some value) => .option name value :: items rest
    | .option name none =>
      match rest with
      | value :: rest =>
        if Word.of value = .plain then .option name value :: items rest else [.wrong]
      | [] => [.wrong]
    | .version => [.version]
    | .unknown => [.wrong]
    | .plain => .word text :: items rest

/-! ## commands -/

inductive Command where
  /-- serves telemetry and monitors the battery until it is told to stop -/
  | daemon
  | update (image : String)
  | jumpBootloader
  | jumpApplication
  | inBootloader
  | battery
  | setPowerupMode (mode : PowerupMode)
  | powerupMode
  | setFan (fan : FanOverride)
  | fanMode
  | setShippingMode (enabled : Bool)
  | shippingMode
  | version
  | shutdownReason
  deriving DecidableEq, Repr

/-- a power-up mode as a number, which may carry a sign -/
def powerupMode? (text : String) : Option PowerupMode :=
  (Numeral.signed? 0 3 text.toList).bind fun n => PowerupMode.ofBits? (UInt8.ofNat n.toNat)

/-- a fan setting: no override, or a speed, which may carry a plus sign -/
def fan? (text : String) : Option FanOverride :=
  if text = "off" ∨ text = "auto" then some .auto
  else (Numeral.unsigned? 10 255 text.toList).map fun speed => .fixed (UInt8.ofNat speed)

/-- the command of a name and its operands -/
def Command.of? : String → List String → Option Command
  | "daemon", [] => some .daemon
  | "update", [image] => if image = "" then none else some (.update image)
  | "jump-bootloader", [] => some .jumpBootloader
  | "jump-app", [] => some .jumpApplication
  | "in-bootloader", [] => some .inBootloader
  | "battery", [] => some .battery
  | "set-powerup-mode", [mode] => (powerupMode? mode).map .setPowerupMode
  | "powerup-mode", [] => some .powerupMode
  | "set-fan", [fan] => (fan? fan).map .setFan
  | "fan-mode", [] => some .fanMode
  | "set-shipping-mode", ["on"] => some (.setShippingMode true)
  | "set-shipping-mode", ["off"] => some (.setShippingMode false)
  | "shipping-mode", [] => some .shippingMode
  | "version", [] => some .version
  | "shutdown-reason", [] => some .shutdownReason
  | _, _ => none

/-! ## whole command lines -/

/-- what the program is asked to do, and how -/
structure Invocation where
  options : Options := {}
  command : Command := .daemon
  deriving DecidableEq, Repr

/-- what ends the program before it does anything -/
inductive Halt where
  | usage
  | version
  deriving DecidableEq, Repr

def arguments? (options : Options) (operands : List String) :
    List Item → Option (Options × List String)
  | [] => some (options, operands)
  | .option name value :: rest =>
    match options.set? name value with
    | some options => arguments? options operands rest
    | none => none
  | .word text :: rest => arguments? options (operands ++ [text]) rest
  | .operand text :: rest => arguments? options (operands ++ [text]) rest
  | .version :: _ => none
  | .wrong :: _ => none

def command? (outer : Options) (name : String) (rest : List Item) : Option Invocation := do
  let (inner, operands) ← arguments? {} [] rest
  let command ← Command.of? name operands
  return ⟨inner.before outer, command⟩

/-- what items say after the options in front of them -/
def invocation (options : Options) : List Item → Except Halt Invocation
  | [] => .ok { options }
  | .option name value :: rest =>
    match options.set? name value with
    | some options => invocation options rest
    | none => .error .usage
  | .version :: _ => .error .version
  | .word name :: rest =>
    match command? options name rest with
    | some invocation => .ok invocation
    | none => .error .usage
  | .operand _ :: _ => .error .usage
  | .wrong :: _ => .error .usage

/-- What a command line asks for.  Without a command the program is a daemon; the version is asked
for only in front of a command. -/
def parse (arguments : List String) : Except Halt Invocation :=
  invocation {} (items arguments)

end CameraPower.CommandLine
