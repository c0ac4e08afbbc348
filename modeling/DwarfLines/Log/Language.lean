import DwarfLines.Log.Event

/-!
# Languages of filters

Which events are logged is said in a language of its own. The program hands a text of the
environment or a level over to it, and asks it about each event.
-/

namespace DwarfLines

/-- How filters are read, and which events they let through. -/
structure FilterLanguage (Filter : Type) where
  /-- The filter that a text stands for, if it is one. -/
  parse? : String → Option Filter
  /-- The filter that the name of a level stands for. -/
  ofLevel : LogLevel → Filter
  accepts : Filter → Event → Bool
  accepts_ofLevel (level : LogLevel) (event : Event) :
    accepts (ofLevel level) event = decide (event.level.verbosity ≤ level.verbosity)

end DwarfLines
