import CameraPower.Config
import CameraPower.Toml.Document

/-!
# Configurations as TOML

A configuration is a document with a table for each section.  What it does not mention has its
default, and what it mentions without need is ignored.

* `Fields`          how a section's fields are found;
* `Config.ofToml?`  the configuration of a document, checked.
-/

namespace CameraPower

open Toml (Value)

/-! ## fields -/

/-- the value of the field with a place in its section and a name -/
abbrev Fields := Nat → String → Option Value

/-- The fields of a section: those of a table go by their names and those of an array by their
places.  A date has no field that a section could have. -/
def Fields.of? : Value → Option Fields
  | .table _ entries => some fun _ name => entries.lookup name
  | .array elements => some fun place _ => elements[place]?
  | .tables elements => some fun place _ => elements[place]?.map (.table .header)
  | .datetime => some fun _ _ => none
  | _ => none

/-- a field's value, or another one if the section does not have the field -/
def Fields.read? {α : Type} (fields : Fields) (place : Nat) (name : String)
    (meaning? : Value → Option α) (other : α) : Option α :=
  match fields place name with
  | none => some other
  | some value => meaning? value

namespace Toml.Value

def text? : Value → Option String
  | .text s => some s
  | _ => none

def boolean? : Value → Option Bool
  | .boolean b => some b
  | _ => none

/-- a whole number of at most so many bits, without sign -/
def natural? (bits : Nat) : Value → Option Nat
  | .integer n => if 0 ≤ n ∧ n.toNat < Nat.pow 2 bits then some n.toNat else none
  | _ => none

def texts? : Value → Option (List String)
  | .array elements => elements.mapM text?
  | _ => none

end Toml.Value

/-! ## sections -/

namespace Config

open Toml.Value

def Serial.ofFields? (fields : Fields) : Option Serial := do
  let other : Serial := {}
  return {
    port := ← fields.read? 0 "port" text? other.port
    baudRate := ← fields.read? 1 "baud_rate" (natural? 32) other.baudRate
    timeout := ← fields.read? 2 "timeout_ms" (natural? 64) other.timeout
    frameLimit := ← fields.read? 3 "max_frame_len" (natural? 64) other.frameLimit }

def Service.ofFields? (fields : Fields) : Option Service := do
  let other : Service := {}
  return {
    socketPath := ← fields.read? 0 "socket_path" text? other.socketPath
    pushInterval := ← fields.read? 1 "push_interval_ms" (natural? 64) other.pushInterval
    maxClients := ← fields.read? 2 "max_clients" (natural? 64) other.maxClients }

def Monitoring.ofFields? (fields : Fields) : Option Monitoring := do
  let other : Monitoring := {}
  return {
    enabled := ← fields.read? 0 "enabled" boolean? other.enabled
    pollInterval := ← fields.read? 1 "poll_interval_ms" (natural? 64) other.pollInterval
    logEnabled := ← fields.read? 2 "log_enabled" boolean? other.logEnabled
    logDirectory := ← fields.read? 3 "log_dir" text? other.logDirectory
    recordsPerFile := ← fields.read? 4 "max_records_per_file" (natural? 64) other.recordsPerFile
    filesKept := ← fields.read? 5 "max_files_to_keep" (natural? 64) other.filesKept }

def Updating.ofFields? (fields : Fields) : Option Updating := do
  let other : Updating := {}
  return { settleDelay := ← fields.read? 0 "settle_delay_ms" (natural? 64) other.settleDelay }

def Shutdown.ofFields? (fields : Fields) : Option Shutdown := do
  let other : Shutdown := {}
  return { command := ← fields.read? 0 "command" texts? other.command }

def Reporting.ofFields? (fields : Fields) : Option Reporting := do
  let other : Reporting := {}
  return { directory := ← fields.read? 0 "dir" (fun v => v.text?.map some) other.directory }

/-- the section with a name, or its default if the document does not mention it -/
def section? {α : Type} (entries : Toml.Entries) (name : String) (read? : Fields → Option α)
    (other : α) : Option α :=
  match entries.lookup name with
  | none => some other
  | some value => (Fields.of? value).bind read?

/-- the configuration that a document describes -/
def ofEntries? (entries : Toml.Entries) : Option Config := do
  return {
    serial := ← section? entries "serial" Serial.ofFields? {}
    service := ← section? entries "telemetry" Service.ofFields? {}
    monitoring := ← section? entries "monitor" Monitoring.ofFields? {}
    updating := ← section? entries "update" Updating.ofFields? {}
    shutdown := ← section? entries "shutdown" Shutdown.ofFields? {}
    reporting := ← section? entries "logging" Reporting.ofFields? {} }

/-- the configuration in a text, which must be usable -/
def ofToml? (text : String) : Except Error Config := do
  let some entries := Toml.parse? text | throw (.config .notToml)
  let some config := ofEntries? entries | throw (.config .wrongType)
  config.check
  return config

end Config
end CameraPower
