/-!
# Commands of the power controller

The first byte of every request and reply says what it is about.  The values below `0x7F` belong
to the controller's application, those from `0x80` on to its bootloader; a reply repeats the
command byte of its request.
-/

namespace CameraPower.Command

/-! ## application -/

def getData : UInt8 := 0x00
def shutdown : UInt8 := 0x01
def requestPowerdown : UInt8 := 0x02
def jumpToBootloader : UInt8 := 0x03
def getDataExt : UInt8 := 0x04
def getAppVersion : UInt8 := 0x05
def setPowerupMode : UInt8 := 0x06
def getPowerupMode : UInt8 := 0x07
def setFanOverride : UInt8 := 0x08
def getFanOverride : UInt8 := 0x09
def setShippingMode : UInt8 := 0x0A
def getShippingMode : UInt8 := 0x0B
def getShutdownReason : UInt8 := 0x0C

/-! ## bootloader -/

def isInBootloader : UInt8 := 0x7F
def erasePage : UInt8 := 0x80
def writeData : UInt8 := 0x81
def jumpToProgram : UInt8 := 0x82
def getBootVersion : UInt8 := 0x83

/-! ## names -/

def names : List (UInt8 × String) :=
  [ (getData, "GET_DATA"), (shutdown, "SHUTDOWN"), (requestPowerdown, "REQUEST_POWERDOWN"),
    (jumpToBootloader, "JUMP_TO_BOOTLOADER"), (getDataExt, "GET_DATA_EXT"),
    (getAppVersion, "GET_APP_VERSION"), (setPowerupMode, "SET_POWERUP_MODE"),
    (getPowerupMode, "GET_POWERUP_MODE"), (setFanOverride, "SET_FAN_SPEED_OVERRIDE"),
    (getFanOverride, "GET_FAN_SPEED_OVERRIDE"), (setShippingMode, "SET_SHIPPING_MODE"),
    (getShippingMode, "GET_SHIPPING_MODE"), (getShutdownReason, "GET_SHUTDOWN_REASON"),
    (isInBootloader, "IS_IN_BOOTLOADER"), (erasePage, "ERASE_PAGE"), (writeData, "WRITE_DATA"),
    (jumpToProgram, "JUMP_TO_PGM"), (getBootVersion, "GET_BOOT_VERSION") ]

/-- the name of a command, `UNKNOWN` for a byte that is none -/
def name (command : UInt8) : String :=
  (names.lookup command).getD "UNKNOWN"

end CameraPower.Command
