import DwarfLines.Storage.Tree

/-!
# Log levels and formats

The words that settings and arguments use for how much is logged and how it is written. Letters
of either case are taken; only ASCII letters have a lower case that matters here, since no other
letter's lower case is part of one of the words.
-/

namespace DwarfLines

/-- How severe an event is, from the most severe on. -/
inductive LogLevel where
  | error
  | warn
  | info
  | debug
  | trace
  deriving DecidableEq, Repr

inductive LogFormat where
  | pretty
  | json
  deriving DecidableEq, Repr

inductive LoggingError where
  | invalidFormat (text : String)
  | invalidLevel (text : String)
  | notFilePath (path : String)
  | file (cause : StorageError)
  deriving DecidableEq, Repr

def LoggingError.message : LoggingError → String
  | invalidFormat text => "Invalid log format: " ++ text ++ ". Use 'pretty' or 'json'"
  | invalidLevel text =>
    "Invalid log level: " ++ text ++ ". Use 'error', 'warn', 'info', 'debug', or 'trace'"
  | notFilePath path => "Failed to initialize logging: " ++ path ++ " is not a file path"
  | file cause => "File logging error: " ++ cause.message

namespace LogLevel

def name : LogLevel → String
  | error => "ERROR"
  | warn => "WARN"
  | info => "INFO"
  | debug => "DEBUG"
  | trace => "TRACE"

/-- How far down the scale of severity a level is. -/
def verbosity : LogLevel → Nat
  | error => 1
  | warn => 2
  | info => 3
  | debug => 4
  | trace => 5

def words : List (String × LogLevel) :=
  [("error", error), ("err", error), ("warn", warn), ("warning", warn), ("info", info),
   ("debug", debug), ("dbg", debug), ("trace", trace)]

def parse (text : String) : Except LoggingError LogLevel :=
  match words.lookup text.toLower with
  | some level => .ok level
  | none => .error (.invalidLevel text)

end LogLevel

namespace LogFormat

def words : List (String × LogFormat) :=
  [("pretty", pretty), ("dev", pretty), ("development", pretty),
   ("json", json), ("prod", json), ("production", json)]

def parse (text : String) : Except LoggingError LogFormat :=
  match words.lookup text.toLower with
  | some format => .ok format
  | none => .error (.invalidFormat text)

end LogFormat
end DwarfLines
