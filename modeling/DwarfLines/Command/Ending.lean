import DwarfLines.Command.Run
import DwarfLines.Log.Setup

/-!
# How a run ends

Once the arguments are read, the log is set up and the command is run. Either can fail, and the
first that fails ends the run with status 1 and a complaint.
-/

namespace DwarfLines

/-- How a run that went past its arguments ended. -/
structure Ending where
  status : Nat
  output : List String
  /-- What was logged, and in which format, if it went to the error stream. -/
  log : Option (LogFormat × List Event)
  complaint : Option String
  deriving DecidableEq, Repr

def LoggingError.complaint (e : LoggingError) : String :=
  "Failed to initialize logging: " ++ e.message

def CommandError.complaint (e : CommandError) : String := "Error: " ++ e.message

namespace Ending

def ofLogging (e : LoggingError) : Ending where
  status := 1
  output := []
  log := none
  complaint := some e.complaint

def ofResult {Filter : Type} (language : FilterLanguage Filter) (settings : LogSettings Filter)
    (result : Except CommandError Unit × Transcript) : Ending where
  status := match result.1 with
    | .ok () => 0
    | .error _ => 1
  output := result.2.output
  log := match settings.file with
    | none => some (settings.format, settings.select language result.2.events)
    | some _ => none
  complaint := match result.1 with
    | .ok () => none
    | .error e => some e.complaint

end Ending

/-- Runs what the arguments say, and gives the storage as it is left. -/
def Invocation.runWith {Filter : Type} (reader : ObjectReader) (language : FilterLanguage Filter)
    (invocation : Invocation) (environment : LogEnvironment) (storage : Storage) :
    Ending × Storage :=
  match invocation.logging.settings language environment with
  | .error e => (.ofLogging e, storage)
  | .ok settings =>
    match settings.prepare storage with
    | .error e => (.ofLogging e, storage)
    | .ok prepared =>
      let contents := prepared.read invocation.command.binary
      (.ofResult language settings (invocation.command.runWith reader contents).perform, prepared)

end DwarfLines
