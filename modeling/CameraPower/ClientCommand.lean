import CameraPower.Settings
import CameraPower.Text.Blank

/-!
# The vocabulary of telemetry clients

One command a line; blanks around it do not count.

* `ClientCommand.parse?`  the command of a line, if it is one;
* `ClientCommand.text`    how a command is written.
-/

namespace CameraPower

inductive ClientCommand where
  | getBatteryData
  | setShippingMode (enabled : Bool)
  | setPowerupMode (mode : PowerupMode)
  | getPowerupMode
  | setFanAuto
  | setFanOff
  | setFanSpeed (speed : UInt8)
  | getFanMode
  | getShutdownReason
  deriving DecidableEq, Repr

namespace ClientCommand

def text : ClientCommand → String
  | .getBatteryData => "GET_BATTERY_DATA"
  | .setShippingMode true => "SET_SHIPPING_MODE_ENABLED"
  | .setShippingMode false => "SET_SHIPPING_MODE_DISABLED"
  | .setPowerupMode mode => "SET_POWERUP_MODE_" ++ Numeral.ofNat mode.bits.toNat
  | .getPowerupMode => "GET_POWERUP_MODE"
  | .setFanAuto => "SET_FAN_AUTO"
  | .setFanOff => "SET_FAN_OFF"
  | .setFanSpeed speed => "SET_FAN_" ++ Numeral.ofNat speed.toNat
  | .getFanMode => "GET_FAN_MODE"
  | .getShutdownReason => "GET_SHUTDOWN_REASON"

/-- the commands that are single words -/
def words : List ClientCommand :=
  [ .getBatteryData, .setShippingMode true, .setShippingMode false, .getPowerupMode, .setFanAuto,
    .setFanOff, .getFanMode, .getShutdownReason ]

/-- the mode that is written as exactly one digit -/
def mode? : List Char → Option PowerupMode
  | [c] => (Numeral.digitValue? 10 c).bind fun value => PowerupMode.ofBits? (UInt8.ofNat value)
  | _ => none

/-- the speed that is written as any number of digits and nothing else -/
def speed? (digits : List Char) : Option UInt8 :=
  ((Numeral.value? 10 digits).filter (· ≤ 255)).map UInt8.ofNat

/-- the command of a text without blanks at its ends -/
def ofTrimmed? (line : List Char) : Option ClientCommand :=
  match words.find? (fun command => command.text.toList == line) with
  | some command => some command
  | none =>
    match List.isPrefixOf? "SET_POWERUP_MODE_".toList line with
    | some digits => (mode? digits).map .setPowerupMode
    | none =>
      match List.isPrefixOf? "SET_FAN_".toList line with
      | some digits => (speed? digits).map .setFanSpeed
      | none => none

/-- the command of a line, none for anything outside the vocabulary -/
def parse? (line : String) : Option ClientCommand :=
  ofTrimmed? (Text.trim line.toList)

end ClientCommand
end CameraPower
