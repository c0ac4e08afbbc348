import DwarfLines.Log.Language

/-!
# Which events are logged

A filter is a list of rules, separated by commas. A rule lets the events of some part of the
program through up to a level, and the most particular rule for an event decides. Parts are named
by the beginning of a target, so a rule without a target concerns every event.
-/

namespace DwarfLines

/-- Lets events through up to a level, or none. -/
structure LogRule where
  target : String
  level : Option LogLevel
  deriving DecidableEq, Repr

/-- A filter: its rules, no two of them for one target. -/
structure LogFilter where
  rules : List LogRule
  deriving DecidableEq, Repr

namespace LogRule

/-- The names and numbers of the levels, from the one that lets nothing through. -/
def levels : List (String × Option LogLevel) :=
  [("off", none), ("error", some .error), ("warn", some .warn), ("info", some .info),
   ("debug", some .debug), ("trace", some .trace),
   ("0", none), ("1", some .error), ("2", some .warn), ("3", some .info),
   ("4", some .debug), ("5", some .trace)]

/-- The level that a word stands for, whatever the case of its letters. -/
def level? (text : String) : Option (Option LogLevel) := levels.lookup text.toLower

def isTargetChar (c : Char) : Bool := c.isAlphanum || c == '_' || c == ':' || c == '-'

def isTarget (text : String) : Bool := !text.isEmpty && text.toList.all isTargetChar

/-- Reads a rule: a level, a target and its level, or a target alone. -/
def parse? (text : String) : Option LogRule :=
  match text.splitOn "=" with
  | [one] =>
    match level? one with
    | some level => some { target := "", level }
    | none => if isTarget one then some { target := one, level := some .trace } else none
  | [target, word] =>
    if isTarget target then
      if word.isEmpty then some { target, level := some .trace }
      else (level? word).map fun level => { target, level }
    else
      none
  | _ => none

def concerns (target : String) (rule : LogRule) : Bool :=
  rule.target.toList.isPrefixOf target.toList

def allows (level : LogLevel) (rule : LogRule) : Bool :=
  match rule.level with
  | some limit => level.verbosity ≤ limit.verbosity
  | none => false

end LogRule

namespace LogFilter

def ofLevel (level : LogLevel) : LogFilter := ⟨[{ target := "", level := some level }]⟩

def add (filter : LogFilter) (rule : LogRule) : LogFilter :=
  ⟨filter.rules.filter (·.target != rule.target) ++ [rule]⟩

/-- Reads a filter. Without any rule only errors are let through. -/
def parse? (text : String) : Option LogFilter := do
  let rules ← ((text.splitOn ",").filter (· != "")).mapM LogRule.parse?
  return if rules.isEmpty then ofLevel .error else rules.foldl add ⟨[]⟩

/-- The more particular of two rules. -/
def prefer (rule : LogRule) : Option LogRule → LogRule
  | none => rule
  | some other => if rule.target.length < other.target.length then other else rule

/-- The most particular rule that concerns the events of a target. -/
def ruleFor (filter : LogFilter) (target : String) : Option LogRule :=
  (filter.rules.filter (·.concerns target)).foldl (fun best rule => some (prefer rule best)) none

def admits (filter : LogFilter) (target : String) (level : LogLevel) : Bool :=
  (filter.ruleFor target).any (·.allows level)

def accepts (filter : LogFilter) (event : Event) : Bool := filter.admits event.target event.level

/-- The language of rules. -/
def language : FilterLanguage LogFilter where
  parse?
  ofLevel
  accepts
  accepts_ofLevel _ _ := rfl

end LogFilter
end DwarfLines
