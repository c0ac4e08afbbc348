import DwarfLines.Command.Error
import DwarfLines.Log.Event

/-!
# What a command shows

A command prints lines and logs events as it goes on. What it showed before a failure stays
shown, so a failure comes together with the transcript up to it.
-/

namespace DwarfLines

/-- What was printed and logged so far. -/
structure Transcript where
  output : List String := []
  events : List Event := []
  deriving DecidableEq, Repr

/-- A part of a command, which extends the transcript and may fail. -/
abbrev Action := ExceptT CommandError (StateM Transcript)

namespace Action

def print (lines : List String) : Action Unit :=
  modify fun shown => { shown with output := shown.output ++ lines }

def log (events : List Event) : Action Unit :=
  modify fun shown => { shown with events := shown.events ++ events }

def require {α ε : Type} (wrap : ε → CommandError) : Except ε α → Action α
  | .ok a => pure a
  | .error e => throw (wrap e)

def raise {ε : Type} (wrap : ε → CommandError) : Option ε → Action Unit
  | none => pure ()
  | some e => throw (wrap e)

def perform {α : Type} (action : Action α) : Except CommandError α × Transcript :=
  action.run.run {}

end Action
end DwarfLines
