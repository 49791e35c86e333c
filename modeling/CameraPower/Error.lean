import CameraPower.Command
import CameraPower.Numeral

/-!
# What can go wrong

Every failure of the library is a value of `Error`: a cause, never a text.  The wording is in one
place, `Error.message`; `Error.causes` is the list of the causes behind an error, outermost first.
-/

namespace CameraPower

/-! ## causes -/

/-- what is wrong with bytes or a reply that came from the controller -/
inductive ProtocolFault where
  | frameTooShort
  | startByte (found : UInt8)
  | lengthField (declared size : Nat)
  | checksum (computed received : UInt16)
  | batteryTooShort (size : Nat)
  | replyTooShort (command : UInt8) (size least : Nat)
  | powerupMode (bits : UInt8)
  deriving DecidableEq, Repr

inductive ConfigFault where
  | notToml
  | wrongType
  | serialPortEmpty
  | baudRate
  | timeout
  | frameLimit
  | socketPathEmpty
  | pushInterval
  | noClients
  | pollInterval
  | logDirectoryEmpty
  | noRecords
  | noFiles
  | settleDelay
  | shutdownCommandEmpty
  deriving DecidableEq, Repr

/-- what the operating system answers instead of doing as it was told -/
inductive IoFault where
  | notFound
  | fileExists
  | isDirectory
  | notUtf8
  | brokenPipe
  | other (text : String)
  deriving DecidableEq, Repr

/-- what failed while a request was put on the serial line -/
inductive PortFault where
  | write (fault : IoFault)
  | flush (fault : IoFault)
  deriving DecidableEq, Repr

/-- what is wrong with a line of an Intel HEX file -/
inductive HexFault where
  | startCode
  | oddDigits
  | digits (column : Nat)
  | recordTooShort
  | byteCount (count : Nat)
  | checksum
  | addressSize
  | recordType (found : UInt8)
  deriving DecidableEq, Repr

inductive ImageFault where
  | pastRegion (address : UInt32) (size : Nat) (region : String) (last : UInt32)
  deriving DecidableEq, Repr

inductive UpdateStep where
  | query
  | enterBootloader
  | erase (page : UInt32)
  | write (page : UInt32)
  | startApplication
  deriving DecidableEq, Repr

/-- the failures of the library -/
inductive Error where
  | protocol (fault : ProtocolFault)
  | config (fault : ConfigFault)
  | io (fault : IoFault)
  | serial (fault : PortFault)
  | serialPortNotFound (tried : List String)
  | timeout (command : UInt8) (ms : Nat)
  | linkClosed
  | payloadTooLarge (size : Nat)
  | hexFormat (line : Nat) (fault : HexFault)
  | firmware (fault : ImageFault)
  | updateStep (step : UpdateStep) (source : Error)
  deriving DecidableEq, Repr

/-! ## wording -/

open Numeral (hex ofNat)

def ProtocolFault.message : ProtocolFault → String
  | .frameTooShort => "Frame too short"
  | .startByte found => "Invalid SOF byte: 0x" ++ hex 2 found.toNat
  | .lengthField declared size =>
    "Length field " ++ ofNat declared ++ " does not match frame of " ++ ofNat size ++ " bytes"
  | .checksum computed received =>
    "CRC mismatch: expected 0x" ++ hex 4 computed.toNat ++ ", got 0x" ++ hex 4 received.toNat
  | .batteryTooShort size => "Battery payload too short: " ++ ofNat size ++ " bytes"
  | .replyTooShort command size least =>
    Command.name command ++ " reply has " ++ ofNat size ++ " payload bytes, expected at least " ++
      ofNat least
  | .powerupMode bits => "unknown powerup mode " ++ ofNat bits.toNat

def ConfigFault.message : ConfigFault → String
  | .notToml => "not a TOML document"
  | .wrongType => "value of the wrong type"
  | .serialPortEmpty => "serial port cannot be empty"
  | .baudRate => "baud_rate must be one of: 9600, 19200, 38400, 57600, 115200"
  | .timeout => "timeout_ms must be between 1 and 10000"
  | .frameLimit => "max_frame_len must be between 2 and 65535"
  | .socketPathEmpty => "telemetry socket_path cannot be empty"
  | .pushInterval => "push_interval_ms must be between 1 and 60000"
  | .noClients => "max_clients must be greater than 0"
  | .pollInterval => "poll_interval_ms must be between 1 and 60000"
  | .logDirectoryEmpty => "monitor log_dir cannot be empty when logging is enabled"
  | .noRecords => "max_records_per_file must be greater than 0"
  | .noFiles => "max_files_to_keep must be greater than 0"
  | .settleDelay => "settle_delay_ms must be at most 10000"
  | .shutdownCommandEmpty => "shutdown command cannot be empty"

def IoFault.message : IoFault → String
  | .notFound => "No such file or directory (os error 2)"
  | .fileExists => "File exists (os error 17)"
  | .isDirectory => "Is a directory (os error 21)"
  | .notUtf8 => "stream did not contain valid UTF-8"
  | .brokenPipe => "broken pipe"
  | .other text => text

def PortFault.message : PortFault → String
  | .write fault => "Failed to write frame: " ++ fault.message
  | .flush fault => "Failed to flush serial port: " ++ fault.message

def HexFault.message : HexFault → String
  | .startCode => "missing ':' start code"
  | .oddDigits => "odd number of hex digits"
  | .digits column => "invalid hex digits at column " ++ ofNat column
  | .recordTooShort => "record too short"
  | .byteCount count => "byte count " ++ ofNat count ++ " does not match record length"
  | .checksum => "checksum mismatch"
  | .addressSize => "address record must carry 2 bytes"
  | .recordType found => "unsupported record type " ++ hex 2 found.toNat

def ImageFault.message : ImageFault → String
  | .pastRegion address size region last =>
    "record at 0x" ++ hex 6 address.toNat ++ " (" ++ ofNat size ++
      " bytes) runs past the end of the " ++ region ++ " region (0x" ++ hex 6 last.toNat ++ ")"

def UpdateStep.name : UpdateStep → String
  | .query => "bootloader query"
  | .enterBootloader => "jump to bootloader"
  | .erase page => "erase of page 0x" ++ hex 6 page.toNat
  | .write page => "write of page 0x" ++ hex 6 page.toNat
  | .startApplication => "jump to application"

def Error.message : Error → String
  | .protocol fault => "Power controller protocol error: " ++ fault.message
  | .config fault => "Configuration error: " ++ fault.message
  | .io fault => "I/O error: " ++ fault.message
  | .serial fault => "Serial port error: " ++ fault.message
  | .serialPortNotFound tried =>
    "No power controller serial port found (tried: " ++ ", ".intercalate tried ++ ")"
  | .timeout command ms =>
    "Timed out after " ++ ofNat ms ++ " ms waiting for response to command 0x" ++
      hex 2 command.toNat
  | .linkClosed => "Power controller link is closed"
  | .payloadTooLarge size => "Payload of " ++ ofNat size ++ " bytes exceeds the frame limit"
  | .hexFormat line fault => "Intel HEX error on line " ++ ofNat line ++ ": " ++ fault.message
  | .firmware fault => "Firmware image error: " ++ fault.message
  | .updateStep step source =>
    "Firmware update aborted during " ++ step.name ++ ": " ++ source.message

/-- the texts of what lies behind an error, outermost first -/
def Error.causes : Error → List String
  | .config fault => [fault.message]
  | .io fault => [fault.message]
  | .updateStep _ source => source.message :: source.causes
  | _ => []

/-- An error is a timeout when no reply came in time, also behind a failed update step. -/
def Error.isTimeout : Error → Bool
  | .timeout _ _ => true
  | .updateStep _ source => source.isTimeout
  | _ => false

end CameraPower
