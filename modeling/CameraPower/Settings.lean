import CameraPower.Numeral

/-!
# Settings of the controller

* `PowerupMode`     what happens when external power comes and goes;
* `FanOverride`     the fan's own curve, or a fixed speed;
* `ShutdownReason`  why the controller last powered the camera down.
-/

namespace CameraPower

/-! ## power-up mode -/

/-- a combination of the two behaviours at transitions of external power -/
structure PowerupMode where
  bits : UInt8
  defined : bits < 4 := by decide
  deriving DecidableEq, Repr

namespace PowerupMode

/-- the mode of a number, if it has no other bits than the two defined ones -/
def ofBits? (bits : UInt8) : Option PowerupMode :=
  if h : bits < 4 then some ⟨bits, h⟩ else none

/-- the camera powers up when external power is restored -/
def powersUp (mode : PowerupMode) : Bool := mode.bits &&& 1 != 0

/-- the camera powers down when external power is removed -/
def powersDown (mode : PowerupMode) : Bool := mode.bits &&& 2 != 0

/-- what clients and the command line print of a mode -/
def text (mode : PowerupMode) : String :=
  "pwrmode" ++ Numeral.ofNat mode.bits.toNat

end PowerupMode

/-! ## fan -/

inductive FanOverride where
  /-- the controller runs its own fan curve -/
  | auto
  /-- a fixed duty; zero stops the fan -/
  | fixed (speed : UInt8)
  deriving DecidableEq, Repr

namespace FanOverride

/-- the speed sent along with a disabled override -/
def autoSpeed : UInt8 := 128

/-- the payload that sets an override: enable, speed -/
def payload : FanOverride → List UInt8
  | .auto => [0, autoSpeed]
  | .fixed speed => [1, speed]

/-- the override reported by an enable byte and a speed -/
def ofPayload (enable speed : UInt8) : FanOverride :=
  if enable = 0 then .auto else .fixed speed

def text : FanOverride → String
  | .auto => "fan override disabled"
  | .fixed speed => "fan override enabled, speed " ++ Numeral.ofNat speed.toNat

end FanOverride

/-! ## shutdown reason -/

/-- a set of causes, one a bit; none at all when power was lost without intent -/
structure ShutdownReason where
  bits : UInt8
  deriving DecidableEq, Repr

namespace ShutdownReason

def causeNames : List String :=
  [ "reached off state", "low battery", "watchdog", "over temperature", "auto power off",
    "software request", "power button", "forced power button" ]

def causes (reason : ShutdownReason) : List String :=
  if reason.bits = 0 then ["unintentional"]
  else (causeNames.zipIdx.filter fun (_, bit) => reason.bits.toNat.testBit bit).map Prod.fst

def text (reason : ShutdownReason) : String :=
  "shutdown reason " ++ Numeral.ofNat reason.bits.toNat ++ ": " ++
    ", ".intercalate reason.causes

end ShutdownReason

/-- what clients and the command line print of shipping mode -/
def shippingModeText (enabled : Bool) : String :=
  if enabled then "shipping mode enabled" else "shipping mode disabled"

end CameraPower
