import CameraPower.Error
import CameraPower.Words

/-!
# Battery telemetry

What the controller reports about the battery, the camera's supply and its board.

* `Telemetry.decode?`  a reading from the payload of a reply;
* `Telemetry.block`    a reading as lines of a key and a value, for clients;
* `Telemetry.json`     a reading as a compact JSON object, for logs.
-/

namespace CameraPower

/-- One reading.  Voltages are in mV, currents in mA and negative while discharging, the board's
temperature in tenths of a degree. -/
structure Telemetry where
  capacityPercent : UInt8 := 0
  stateOfHealthPercent : UInt8 := 0
  voltage : UInt16 := 0
  current : Int16 := 0
  hiResCapacity : UInt16 := 0
  hiResStateOfCharge : UInt16 := 0
  voltageCam : UInt16 := 0
  currentCam : Int16 := 0
  boardTemperature : Int16 := 0
  flags : UInt8 := 0
  fanPwm : UInt8 := 0
  deriving DecidableEq, Repr

namespace Telemetry

/-! ## status flags -/

def batteryPresent (t : Telemetry) : Bool := t.flags &&& 0x01 != 0
def acPresent (t : Telemetry) : Bool := t.flags &&& 0x02 != 0
def charging (t : Telemetry) : Bool := t.flags &&& 0x04 != 0
def shippingMode (t : Telemetry) : Bool := t.flags &&& 0x20 != 0

/-- the controller asks the host to shut down -/
def shutdownRequested (t : Telemetry) : Bool := t.flags &&& 0x40 != 0

/-! ## from a reply -/

open Words (ofBigEndian toSigned)

/-- bytes of the battery's own fields -/
def baseSize : Nat := 10

/-- bytes of all fields -/
def extendedSize : Nat := 18

/-- The reading in a reply's payload.  The camera's fields are read from extended replies that
carry all of them, and are zero otherwise. -/
def decode? (command : UInt8) : List UInt8 → Except Error Telemetry
  | b0 :: b1 :: b2 :: b3 :: b4 :: b5 :: b6 :: b7 :: b8 :: b9 :: rest =>
    let base : Telemetry :=
      { capacityPercent := b0
        stateOfHealthPercent := b1
        voltage := ofBigEndian b2 b3
        current := toSigned (ofBigEndian b4 b5)
        hiResCapacity := ofBigEndian b6 b7
        hiResStateOfCharge := ofBigEndian b8 b9 }
    match command == Command.getDataExt, rest with
    | true, c0 :: c1 :: c2 :: c3 :: c4 :: c5 :: c6 :: c7 :: _ =>
      .ok { base with
        voltageCam := ofBigEndian c0 c1
        currentCam := toSigned (ofBigEndian c2 c3)
        boardTemperature := toSigned (ofBigEndian c4 c5)
        flags := c6
        fanPwm := c7 }
    | _, _ => .ok base
  | short => .error (.protocol (.batteryTooShort short.length))

/-! ## texts -/

def values (t : Telemetry) : List Int :=
  [ t.capacityPercent.toNat, t.stateOfHealthPercent.toNat, t.voltage.toNat, t.current.toInt,
    t.hiResCapacity.toNat, t.hiResStateOfCharge.toNat, t.voltageCam.toNat, t.currentCam.toInt,
    t.boardTemperature.toInt, t.flags.toNat, t.fanPwm.toNat ]

/-- what clients call the fields -/
def blockKeys : List String :=
  [ "battCapacityPercent", "battSOHPercent", "battVoltage", "battCurrent", "battHiResCap",
    "battHiResSOC", "battVoltageCam", "battCurrentCam", "mbTemperature", "flags", "fanPWM" ]

/-- what logs call the fields -/
def jsonKeys : List String :=
  [ "capacity_percent", "state_of_health_percent", "voltage", "current", "hi_res_capacity",
    "hi_res_state_of_charge", "voltage_cam", "current_cam", "board_temperature", "flags",
    "fan_pwm" ]

/-- a reading as lines of a key, a space and a value -/
def block (t : Telemetry) : String :=
  String.join (List.zipWith (fun key value => key ++ " " ++ Numeral.ofInt value ++ "\n")
    blockKeys t.values)

def jsonMembers (t : Telemetry) : String :=
  ",".intercalate (List.zipWith (fun key value => "\"" ++ key ++ "\":" ++ Numeral.ofInt value)
    jsonKeys t.values)

def json (t : Telemetry) : String :=
  "\x7b" ++ t.jsonMembers ++ "\x7d"

end Telemetry
end CameraPower
