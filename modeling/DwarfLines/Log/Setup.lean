import DwarfLines.Command.Arguments
import DwarfLines.Log.Language

/-!
# Setting up the log

What is logged, how and where follows from the arguments and from two variables of the
environment. A log file is made together with its directories, and takes plain lines. Arguments
that name a level or a format decide for themselves, and then a level that is not named is the
default one; only without them does the environment count.
-/

namespace DwarfLines

structure LogEnvironment where
  filter : Option String := none
  format : Option String := none
  deriving DecidableEq, Repr

structure LogSettings (Filter : Type) where
  filter : Filter
  format : LogFormat
  /-- The file that takes the events, which otherwise go to the error stream. -/
  file : Option String
  deriving DecidableEq, Repr

variable {Filter : Type} (language : FilterLanguage Filter)

namespace LogEnvironment

variable (environment : LogEnvironment)

def chosenFilter : Filter :=
  (environment.filter.bind language.parse?).getD (language.ofLevel .warn)

def chosenFormat : Except LoggingError LogFormat :=
  match environment.format with
  | some text => LogFormat.parse text
  | none => .ok .pretty

end LogEnvironment

/-- What arguments and environment say about the log. -/
def LogOptions.settings (options : LogOptions) (environment : LogEnvironment) :
    Except LoggingError (LogSettings Filter) :=
  match options.file, options.level, options.format with
  | some path, level, _ =>
    .ok {
      filter := (level.map language.ofLevel).getD (environment.chosenFilter language)
      format := .pretty
      file := some path }
  | none, none, none => do
    return {
      filter := environment.chosenFilter language
      format := ← environment.chosenFormat
      file := none }
  | none, level, format =>
    .ok {
      filter := language.ofLevel (level.getD .warn)
      format := format.getD .pretty
      file := none }

def Storage.makeLog (storage : Storage) (path : String) : Except LoggingError Storage :=
  let parts := PathPart.simplified path
  match storage.makeDirectories (.inside []) parts.dropLast with
  | .error cause => .error (.file cause)
  | .ok (made, place) =>
    match parts.getLast? with
    | some (.name text) => .ok (made.makeFile place text)
    | _ => .error (.notFilePath path)

def LogSettings.prepare (settings : LogSettings Filter) (storage : Storage) :
    Except LoggingError Storage :=
  match settings.file with
  | some path => storage.makeLog path
  | none => .ok storage

def LogSettings.select (settings : LogSettings Filter) (events : List Event) : List Event :=
  events.filter (language.accepts settings.filter)

end DwarfLines
