import CameraPower.Controller

/-!
# Firmware update

The bootloader is entered, every page of the regions is erased, the image is written page by page,
and the application is started.  The image is checked before anything is sent.  The first step that
fails ends the update; the controller then stays in its bootloader until an update completes.
-/

namespace CameraPower.Update

/-- what a complete update did -/
structure Report where
  enteredBootloader : Bool
  pagesErased : Nat
  pagesWritten : Nat
  recordsSkipped : Nat
  deriving DecidableEq, Repr

/-- a part of an update, whose failure is reported under the step's name -/
def during {α : Type} (step : UpdateStep) (query : Query α) : Talk α :=
  ExceptT.adapt (Error.updateStep step) query.talk

/-- enters the bootloader unless it is already running, and gives it time to start -/
def enterBootloader (settle : Nat) : Talk Bool := do
  if ← during .query Controller.isInBootloader then
    pure false
  else
    during .enterBootloader Controller.jumpToBootloader
    Talk.pause settle
    pure true

def eraseRegions : Talk Unit :=
  Flash.erasedPages.forM fun page =>
    during (.erase page) (Controller.erasePage (Flash.wordAddress page))

def program (writes : List Flash.Write) : Talk Unit :=
  writes.forM fun write =>
    during (.write write.page) (Controller.writePage write.word write.data)

/-- the update to a plan, with a pause of `settle` milliseconds for the bootloader to start -/
def carryOut (settle : Nat) (plan : Flash.Plan) : Talk Report := do
  let entered ← enterBootloader settle
  eraseRegions
  program plan.writes
  during .startApplication Controller.jumpToProgram
  pure ⟨entered, Flash.erasedPages.length, plan.writes.length, plan.skipped⟩

def run (settle : Nat) (records : List Flash.Record) : Talk Report := do
  let plan ← Talk.known (Flash.Plan.of? records)
  carryOut settle plan

end CameraPower.Update
