import CameraPower.Agenda
import CameraPower.Frame

/-!
# The controller at the other end of the line

A model of the power controller as the host sees it: settings that requests read and change, and a
script that can make it misbehave in any way.

* `Device.Settings.answer`  the proper reply to a request, and what it changes;
* `Device.react`            what the controller does with one request, script included.
-/

namespace CameraPower

/-- what reaches the host over the line -/
inductive LineEvent where
  | bytes (data : List UInt8)
  | ended
  deriving DecidableEq, Repr

namespace Device

/-- what the controller knows -/
structure Settings where
  inBootloader : Bool := false
  powerupMode : UInt8 := 0
  fanEnable : UInt8 := 0
  fanSpeed : UInt8 := 128
  shipping : UInt8 := 0
  shutdownReason : UInt8 := 0
  appVersion : UInt16 := 0x0102
  battery : List UInt8 :=
    [ 80, 98, 0x20, 0xD0, 0xFF, 0x38, 0x03, 0xE8, 0x1F, 0x40, 0x2E, 0xE0, 0xFE, 0x0C, 0x01, 0x5E,
      0x07, 0x80 ]
  deriving DecidableEq, Repr

/-- the settings after a request, and the payload of its reply; none for an unknown command -/
def Settings.answer (s : Settings) (command : UInt8) (payload : List UInt8) :
    Settings × Option (List UInt8) :=
  let a := payload.getD 0 0
  let b := payload.getD 1 0
  if command = Command.getDataExt then (s, some s.battery)
  else if command = Command.getAppVersion then (s, some (Words.bigEndian s.appVersion))
  else if command = Command.isInBootloader then (s, some [if s.inBootloader then 1 else 0])
  else if command = Command.jumpToBootloader then ({ s with inBootloader := true }, some [])
  else if command = Command.jumpToProgram then ({ s with inBootloader := false }, some [])
  else if command = Command.setPowerupMode then ({ s with powerupMode := a }, some [])
  else if command = Command.getPowerupMode then (s, some [s.powerupMode])
  else if command = Command.setFanOverride then
    ({ s with fanEnable := a, fanSpeed := b }, some [])
  else if command = Command.getFanOverride then (s, some [s.fanEnable, s.fanSpeed])
  else if command = Command.setShippingMode then ({ s with shipping := a }, some [])
  else if command = Command.getShippingMode then (s, some [s.shipping])
  else if command = Command.getShutdownReason then (s, some [s.shutdownReason])
  else if command = Command.erasePage ∨ command = Command.writeData then (s, some [])
  else (s, none)

/-- what follows one request: how putting it on the line went, what comes back after which delays,
and whether the line then ends -/
structure Reaction where
  fault : Option PortFault := none
  replies : List (Time × List UInt8) := []
  hangsUp : Bool := false
  deriving DecidableEq, Repr

end Device

/-- The controller.  Requests are numbered from zero, failed writes included; a request with an
entry in the script gets that reaction and nothing else. -/
structure Device where
  settings : Device.Settings := {}
  /-- from this request on nothing is answered -/
  answerLimit : Option Nat := none
  /-- commands that are never answered -/
  silent : List UInt8 := []
  /-- payloads that replace the proper ones -/
  payloads : List (UInt8 × List UInt8) := []
  script : Nat → Option Device.Reaction := fun _ => none
  /-- how many requests there were -/
  requests : Nat := 0

namespace Device

def replyWith (command : UInt8) : Option (List UInt8) → Reaction
  | none => {}
  | some payload =>
    match Frame.encode? command payload with
    | .ok bytes => { replies := [(0, bytes)] }
    | .error _ => {}

/-- whether the request with the next number goes unanswered -/
def ignores (device : Device) (command : UInt8) : Bool :=
  device.silent.contains command || device.answerLimit.any (· ≤ device.requests)

/-- the controller after a request, and its reaction -/
def react (device : Device) (command : UInt8) (payload : List UInt8) : Device × Reaction :=
  let next := { device with requests := device.requests + 1 }
  match device.script device.requests with
  | some reaction => (next, reaction)
  | none =>
    if device.ignores command then (next, {})
    else
      let (settings, proper) := device.settings.answer command payload
      let reply := (device.payloads.lookup command).or proper
      ({ next with settings }, replyWith command reply)

end Device
end CameraPower
