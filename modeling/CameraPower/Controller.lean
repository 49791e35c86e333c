import CameraPower.Dialogue
import CameraPower.Flash.Plan
import CameraPower.Settings
import CameraPower.Telemetry

/-!
# What the controller can be asked

A `Query` is one request and how its reply is read.  A reply must carry at least the payload that
the query is after.
-/

namespace CameraPower

/-- one request, and what its reply means -/
structure Query (α : Type) where
  request : Request
  read : List UInt8 → Except Error α

namespace Query

variable {α : Type}

/-- a query for at least `least` bytes of payload -/
def ask (command : UInt8) (payload : List UInt8) (least : Nat)
    (read : List UInt8 → Except Error α) : Query α where
  request := ⟨command, payload⟩
  read reply :=
    if reply.length < least then .error (.protocol (.replyTooShort command reply.length least))
    else read reply

/-- a query whose reply says only that it was heard -/
def tell (command : UInt8) (payload : List UInt8) : Query Unit :=
  ask command payload 0 fun _ => .ok ()

/-- what an answer means to a query -/
def result (query : Query α) : Answer → Except Error α
  | .error error => .error error
  | .ok frame => query.read frame.payload

def talk (query : Query α) : Talk α :=
  ExceptT.mk (.ask query.request fun answer => .done (query.result answer))

end Query

namespace Controller

open Query (ask tell)

/-! ## readings and settings -/

def batteryData : Query Telemetry :=
  ask Command.getDataExt [] Telemetry.baseSize (Telemetry.decode? Command.getDataExt)

def appVersion : Query UInt16 :=
  ask Command.getAppVersion [] 2 fun reply =>
    .ok (Words.ofBigEndian (reply.getD 0 0) (reply.getD 1 0))

def setPowerupMode (mode : PowerupMode) : Query Unit :=
  tell Command.setPowerupMode [mode.bits]

def powerupMode : Query PowerupMode :=
  ask Command.getPowerupMode [] 1 fun reply =>
    match PowerupMode.ofBits? (reply.getD 0 0) with
    | some mode => .ok mode
    | none => .error (.protocol (.powerupMode (reply.getD 0 0)))

def setFanOverride (fan : FanOverride) : Query Unit :=
  tell Command.setFanOverride fan.payload

def fanOverride : Query FanOverride :=
  ask Command.getFanOverride [] 2 fun reply => .ok (.ofPayload (reply.getD 0 0) (reply.getD 1 0))

/-- In shipping mode the power button is ignored until external power is applied. -/
def setShippingMode (enabled : Bool) : Query Unit :=
  tell Command.setShippingMode [if enabled then 1 else 0]

def shippingMode : Query Bool :=
  ask Command.getShippingMode [] 1 fun reply => .ok (reply.getD 0 0 != 0)

def shutdownReason : Query ShutdownReason :=
  ask Command.getShutdownReason [] 1 fun reply => .ok ⟨reply.getD 0 0⟩

/-! ## bootloader -/

/-- whether the bootloader, and not the application, is running -/
def isInBootloader : Query Bool :=
  ask Command.isInBootloader [] 1 fun reply => .ok (reply.getD 0 0 != 0)

def jumpToBootloader : Query Unit :=
  tell Command.jumpToBootloader []

def jumpToProgram : Query Unit :=
  tell Command.jumpToProgram []

def erasePage (word : UInt32) : Query Unit :=
  tell Command.erasePage (Words.littleEndian32 word)

/-- the payload of a page write: size in steps of four bytes, word address, two zeros, contents -/
def writePayload (word : UInt32) (data : Vector UInt8 Flash.pageSize) : List UInt8 :=
  UInt8.ofNat (Flash.pageSize / 4) :: Words.littleEndian32 word ++ [0, 0] ++ data.toList

def writePage (word : UInt32) (data : Vector UInt8 Flash.pageSize) : Query Unit :=
  tell Command.writeData (writePayload word data)

end Controller
end CameraPower
