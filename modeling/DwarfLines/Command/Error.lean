import DwarfLines.Error
import DwarfLines.Log.Setting
import DwarfLines.Object.File
import DwarfLines.Storage.Tree
import DwarfLines.Text.Quoted

/-!
# Why a command fails
-/

namespace DwarfLines

inductive CommandError where
  | unreadable (path : String) (cause : StorageError)
  | object (cause : ObjectError)
  | info (cause : ReadError)
  | noLineSection
  | noSuchUnit (index count : Nat)
  | invalidAddress (text : String)
  | line (cause : LineError)
  deriving DecidableEq, Repr

def CommandError.message : CommandError → String
  | unreadable path cause => "failed to read " ++ path ++ ": " ++ cause.message
  | object cause => "failed to parse binary: " ++ cause.message
  | info cause => "failed to read DWARF: " ++ cause.description
  | noLineSection => "binary has no .debug_line section"
  | noSuchUnit index count =>
    "unit " ++ Numeral.decimal index ++ " not found (" ++ Numeral.decimal count ++
      " units have line tables)"
  | invalidAddress text =>
    "invalid address " ++ Quoted.quote text ++ ": use hex (0x1000) or decimal"
  | line cause => cause.message

end DwarfLines
