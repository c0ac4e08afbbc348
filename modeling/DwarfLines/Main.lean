import DwarfLines.Command.Program
import DwarfLines.Log.Line

/-!
# The command line

Here files are really read and made, and lines really printed. What is read, made and printed is
decided elsewhere.
-/

namespace DwarfLines
namespace CommandLine

def storageError (e : IO.Error) : StorageError :=
  match e with
  | .noFileOrDirectory _ _ _ => .notFound
  | .alreadyExists _ _ _ => .fileExists
  | .inappropriateType _ 21 _ => .isDirectory
  | .inappropriateType _ 20 _ => .notDirectory
  | other => .other (toString other)

def attempt {α : Type} (action : IO α) : IO (Except StorageError α) := do
  try
    return .ok (← action)
  catch e =>
    return .error (storageError e)

def readFile (path : String) : IO (Except StorageError (List UInt8)) :=
  attempt do return (← IO.FS.readBinFile path).toList

def makeDirectories (parts : List PathPart) : IO Unit :=
  unless parts.isEmpty do
    IO.FS.createDirAll (PathPart.join parts)

def makeLog (path : String) : IO (Except LoggingError Unit) := do
  let parts := PathPart.simplified path
  match ← attempt (makeDirectories parts.dropLast) with
  | .error cause => return .error (.file cause)
  | .ok () =>
    match parts.getLast? with
    | some (.name _) =>
      match ← attempt (IO.FS.withFile path .append fun _ => pure ()) with
      | .error cause => return .error (.file cause)
      | .ok () => return .ok ()
    | _ => return .error (.notFilePath path)

def prepare (settings : LogSettings LogFilter) : IO (Except LoggingError Unit) :=
  match settings.file with
  | some path => makeLog path
  | none => return .ok ()

def writeLog (settings : LogSettings LogFilter) (events : List Event) : IO Unit := do
  let logged := settings.select LogFilter.language events
  let text := String.join (logged.map (·.line settings.format ++ "\n"))
  match settings.file with
  | some path => IO.FS.withFile path .append fun handle => handle.putStr text
  | none => IO.eprint text

def conclude (ending : Ending) : IO UInt32 := do
  IO.print (String.join (ending.output.map (· ++ "\n")))
  match ending.complaint with
  | some complaint => IO.eprintln complaint
  | none => pure ()
  return UInt32.ofNat ending.status

def runWith (settings : LogSettings LogFilter) (command : Command) : IO UInt32 := do
  let result := (command.run (← readFile command.binary)).perform
  writeLog settings result.2.events
  conclude (.ofResult LogFilter.language settings result)

def run (invocation : Invocation) (environment : LogEnvironment) : IO UInt32 := do
  match invocation.logging.settings LogFilter.language environment with
  | .error e => conclude (.ofLogging e)
  | .ok settings =>
    match ← prepare settings with
    | .error e => conclude (.ofLogging e)
    | .ok () => runWith settings invocation.command

def usage : String :=
  "usage: dwarflines [--log-level L] [--log-format F] [--log-file PATH] COMMAND\n" ++
    "  rows BINARY [-u N]\n  files BINARY [-u N]\n  header BINARY [-u N]\n" ++
    "  lookup BINARY ADDRESS..."

end CommandLine
end DwarfLines

open DwarfLines in
/-- Reads arguments and environment and runs the program. -/
def main (args : List String) : IO UInt32 := do
  match Invocation.parse? args with
  | none =>
    IO.eprintln CommandLine.usage
    return 2
  | some invocation =>
    CommandLine.run invocation {
      filter := ← IO.getEnv "RUST_LOG"
      format := ← IO.getEnv "LINETAB_LOG_FORMAT" }
