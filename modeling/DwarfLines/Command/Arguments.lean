import DwarfLines.Log.Setting
import DwarfLines.Text.Numeral

/-!
# Arguments

Arguments name a subcommand and then what it works on. Options may stand anywhere, those of
logging also before the subcommand; a value follows its option as the next argument, or in the
same one. Arguments that do not fit are refused as a whole, without saying more.
-/

namespace DwarfLines

/-- What a listing shows of each unit. -/
inductive Listing where
  | rows
  | files
  | header
  deriving DecidableEq, Repr

inductive Command where
  | list (listing : Listing) (binary : String) (unit : Option Nat)
  | lookup (binary : String) (addresses : List String)
  deriving DecidableEq, Repr

structure LogOptions where
  level : Option LogLevel := none
  format : Option LogFormat := none
  file : Option String := none
  deriving DecidableEq, Repr

structure Invocation where
  command : Command
  logging : LogOptions
  deriving DecidableEq, Repr

inductive OptionName where
  | unit
  | logLevel
  | logFormat
  | logFile
  deriving DecidableEq, Repr

inductive Argument where
  | word
  /-- The mark after which all arguments are words. -/
  | wordsOnly
  | option (name : OptionName)
  | optionWithValue (name : OptionName) (value : String)
  | unknown
  deriving DecidableEq, Repr

namespace Argument

def longNames : List (List Char × OptionName) :=
  [("unit".toList, .unit), ("log-level".toList, .logLevel), ("log-format".toList, .logFormat),
   ("log-file".toList, .logFile)]

def ofLong (cs : List Char) : Argument :=
  match longNames.lookup (cs.takeWhile (· != '=')), cs.dropWhile (· != '=') with
  | some name, [] => option name
  | some name, _ :: value => optionWithValue name (String.ofList value)
  | none, _ => unknown

def ofShort : List Char → Argument
  | ['u'] => option .unit
  | 'u' :: '=' :: value => optionWithValue .unit (String.ofList value)
  | 'u' :: value => optionWithValue .unit (String.ofList value)
  | _ => unknown

/-- What an argument is. A lone dash is a word. -/
def classify (text : String) : Argument :=
  match text.toList with
  | ['-', '-'] => wordsOnly
  | '-' :: '-' :: cs => ofLong cs
  | ['-'] => word
  | '-' :: cs => ofShort cs
  | _ => word

end Argument

structure GivenArguments where
  options : List (OptionName × String) := []
  words : List String := []
  deriving DecidableEq, Repr

namespace GivenArguments

def withOption (name : OptionName) (value : String) (given : GivenArguments) : GivenArguments :=
  { given with options := (name, value) :: given.options }

def withWord (text : String) (given : GivenArguments) : GivenArguments :=
  { given with words := text :: given.words }

/-- Reads arguments. The argument after an option is its value, unless it looks like an option. -/
def ofList : List String → Option GivenArguments
  | [] => some {}
  | text :: rest =>
    match Argument.classify text with
    | .word => (ofList rest).map (withWord text)
    | .wordsOnly => some { words := rest }
    | .optionWithValue name value => (ofList rest).map (withOption name value)
    | .option name =>
      match rest with
      | value :: after =>
        if Argument.classify value = .word then (ofList after).map (withOption name value)
        else none
      | [] => none
    | .unknown => none

/-- The value of an option, if it is given and can be read. An option may be given once. -/
def value? {α : Type} (given : GivenArguments) (name : OptionName)
    (parse : String → Option α) : Option (Option α) :=
  match given.options.filter (·.1 == name) with
  | [] => some none
  | [(_, text)] => (parse text).map some
  | _ => none

def nonempty (text : String) : Option String := if text.isEmpty then none else some text

def logging? (given : GivenArguments) : Option LogOptions := do
  let level ← given.value? .logLevel fun text => (LogLevel.parse text).toOption
  let format ← given.value? .logFormat fun text => (LogFormat.parse text).toOption
  let file ← given.value? .logFile nonempty
  return { level, format, file }

def unit? (given : GivenArguments) : Option (Option Nat) :=
  given.value? .unit fun text => (Numeral.word? 10 text.toList).map UInt64.toNat

def list? (listing : Listing) (given : GivenArguments) : Option Command := do
  let unit ← given.unit?
  match given.words with
  | [binary] => return .list listing (← nonempty binary) unit
  | _ => none

def lookup? (given : GivenArguments) : Option Command :=
  match given.unit?, given.words with
  | some none, binary :: address :: more => do return .lookup (← nonempty binary) (address :: more)
  | _, _ => none

end GivenArguments

namespace Command

def ofGiven? (name : String) (given : GivenArguments) : Option Command :=
  if name = "rows" then given.list? .rows
  else if name = "files" then given.list? .files
  else if name = "header" then given.list? .header
  else if name = "lookup" then given.lookup?
  else none

end Command

namespace LogOptions

/-- What is said here, and otherwise what was said before. -/
def orElse (options earlier : LogOptions) : LogOptions where
  level := options.level <|> earlier.level
  format := options.format <|> earlier.format
  file := options.file <|> earlier.file

end LogOptions

namespace Invocation

def split : List String → Option (GivenArguments × String × List String)
  | [] => none
  | text :: rest =>
    match Argument.classify text with
    | .word => some ({}, text, rest)
    | .optionWithValue name value =>
      (split rest).map fun (given, more) => (given.withOption name value, more)
    | .option name =>
      match rest with
      | value :: after =>
        if Argument.classify value = .word then
          (split after).map fun (given, more) => (given.withOption name value, more)
        else
          none
      | [] => none
    | .wordsOnly | .unknown => none

/-- What arguments say, if they fit. An option of logging that is given both before and after the
subcommand counts as it is given after. -/
def parse? (arguments : List String) : Option Invocation := do
  let (before, name, rest) ← split arguments
  let after ← GivenArguments.ofList rest
  let command ← Command.ofGiven? name after
  let earlier ← before.logging?
  let later ← after.logging?
  if (← before.unit?).isSome then none
  else return { command, logging := later.orElse earlier }

end Invocation
end DwarfLines
