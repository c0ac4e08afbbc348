import DwarfLines.Log.Event
import DwarfLines.Text.Numeral

/-!
# Events as lines

An event is written as one line, either as an object of named fields or as plain words with the
details behind them.
-/

namespace DwarfLines

def escapeField (c : Char) : List Char :=
  if c = '"' then ['\\', '"']
  else if c = '\\' then ['\\', '\\']
  else if c.toNat < 0x20 then
    ['\\', 'u'] ++ Numeral.padLeft 4 '0' (Nat.toDigits 16 c.toNat)
  else [c]

def quoteField (text : String) : String :=
  String.ofList ('"' :: text.toList.flatMap escapeField ++ ['"'])

namespace FieldValue

def quoted : FieldValue → String
  | number value => Numeral.signedDecimal value
  | text value => quoteField value

end FieldValue

namespace Event

/-- The members of an object. -/
def object (members : List (String × String)) : String :=
  "\x7b" ++ ",".intercalate (members.map fun (name, value) => quoteField name ++ ":" ++ value) ++
    "\x7d"

def objectLine (event : Event) : String :=
  object [("level", quoteField event.level.name),
    ("fields", object (("message", quoteField event.message) ::
      event.fields.map fun (name, value) => (name, value.quoted))),
    ("target", quoteField event.target)]

def plainLine (event : Event) : String :=
  event.level.name ++ " " ++ event.target ++ ": " ++ event.message ++
    String.join (event.fields.map fun (name, value) => " " ++ name ++ "=" ++ value.quoted)

def line (format : LogFormat) (event : Event) : String :=
  match format with
  | .pretty => event.plainLine
  | .json => event.objectLine

end Event
end DwarfLines
