import DwarfLines.Text.Numeral

/-!
# Content types

What a column of a version 5 directory or file list holds.
-/

namespace DwarfLines

inductive ContentType where
  | path
  | directoryIndex
  | timestamp
  | size
  | md5
  | loUser
  | llvmSource
  | hiUser
  deriving DecidableEq, Repr

namespace ContentType

def code : ContentType → UInt16
  | path => 1
  | directoryIndex => 2
  | timestamp => 3
  | size => 4
  | md5 => 5
  | loUser => 0x2000
  | llvmSource => 0x2001
  | hiUser => 0x3fff

def name : ContentType → String
  | path => "DW_LNCT_path"
  | directoryIndex => "DW_LNCT_directory_index"
  | timestamp => "DW_LNCT_timestamp"
  | size => "DW_LNCT_size"
  | md5 => "DW_LNCT_MD5"
  | loUser => "DW_LNCT_lo_user"
  | llvmSource => "DW_LNCT_LLVM_source"
  | hiUser => "DW_LNCT_hi_user"

def all : List ContentType :=
  [path, directoryIndex, timestamp, size, md5, loUser, llvmSource, hiUser]

def ofCode? (code : UInt16) : Option ContentType := all.find? (·.code == code)

/-- How a message names the one stored as a number. -/
def label (code : UInt16) : String :=
  match ofCode? code with
  | some known => known.name
  | none => "Unknown DwLnct: " ++ Numeral.decimal code.toNat

theorem ofCode?_code (known : ContentType) : ofCode? known.code = some known := by
  cases known <;> rfl

theorem code_of_ofCode? {code : UInt16} {known : ContentType} (h : ofCode? code = some known) :
    known.code = code := by
  simpa using List.find?_some h

end ContentType

end DwarfLines
