import CameraPower.Error

/-!
# Finding the controller's serial port

The first of some devices that can be opened is the controller's.
-/

namespace CameraPower.SerialPort

/-- the devices that are tried when none is named -/
def defaultPaths : List String := ["/dev/ttyO0"]

/-- the first device that can be opened; the error names all that were tried -/
def open? (works : String → Bool) (paths : List String) : Except Error String :=
  match paths.find? works with
  | some path => .ok path
  | none => .error (.serialPortNotFound paths)

end CameraPower.SerialPort
