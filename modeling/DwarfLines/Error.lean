import DwarfLines.Bytes.Progress
import DwarfLines.Context
import DwarfLines.Dwarf.ContentType
import DwarfLines.Dwarf.Form
import DwarfLines.Dwarf.Opcode

/-!
# Why a line table is rejected

Each cause keeps the numbers that its message shows. Nothing is skipped over silently: once a
byte of the program is misread, every later byte would be misread too.
-/

namespace DwarfLines

/-- A violation of the encoding. -/
inductive FormatFault where
  | backwardSeek (current target : Nat)
  | notStringForm (form : UInt16)
  | notUnsignedForm (form : UInt16)
  | unskippableForm (form : UInt16)
  | stringIndexOverflow (index : UInt64)
  | contentTypeRange (value : UInt64)
  | formRange (value : UInt64)
  | unknownVersion (version : UInt16)
  | unitLengthOverflow (length : Nat)
  | headerLengthOverrun (headerLength size : Nat)
  | zeroMaximumOperations
  | zeroLineRange
  | zeroOpcodeBase
  | operandCount (expected : UInt8) (opcode : Nat) (found : UInt8)
  | directoryFormatCount (count : UInt8)
  | directoryFormatType (contentType : UInt16)
  | directoryFormatForm (form : UInt16)
  | emptyFileFormat
  | fileFormatForm (contentType form : UInt16)
  | noDirectories
  | noFiles
  | emptyDirectory
  | emptyFile
  | badSpecialOpcode (opcode : UInt8)
  | unknownStandardOpcode (opcode : UInt8)
  | unknownExtendedOpcode (opcode : UInt8)
  | extendedLengthOverflow (length : UInt64)
  | extendedOverrun (opcode : UInt8)
  | unexpectedProgramEnd
  | badFileIndex (index : UInt64)
  deriving DecidableEq, Repr

/-- Why an operation on a line table failed. -/
inductive LineError where
  | format (fault : FormatFault)
  | outOfRange (index : UInt64) (size : Nat)
  | vendorOpcode (opcode : UInt8)
  | missingSection (target : StringSection) (form : Form)
  | read (cause : ReadError)
  deriving DecidableEq, Repr

def FormatFault.message : FormatFault → String
  | backwardSeek current target =>
    "cannot seek backwards from offset " ++ Numeral.hex current ++ " to " ++ Numeral.hex target
  | notStringForm form => Form.label form ++ " is not a string form"
  | notUnsignedForm form => Form.label form ++ " is not an unsigned constant form"
  | unskippableForm form => "cannot skip value of unsupported " ++ Form.label form
  | stringIndexOverflow index =>
    "string offset index " ++ Numeral.decimal index.toNat ++ " overflows"
  | contentTypeRange value =>
    "entry format content type " ++ Numeral.hex value.toNat ++ " out of range"
  | formRange value => "entry format form " ++ Numeral.hex value.toNat ++ " out of range"
  | unknownVersion version =>
    "unknown line number table version " ++ Numeral.decimal version.toNat
  | unitLengthOverflow length => "unit length " ++ Numeral.hex length ++ " overflows"
  | headerLengthOverrun headerLength size =>
    "header length " ++ Numeral.hex headerLength ++ " overruns line table of " ++
      Numeral.hex size ++ " bytes"
  | zeroMaximumOperations =>
    "maximum_operations_per_instruction cannot be 0 in line number table"
  | zeroLineRange => "line_range cannot be 0 in line number table"
  | zeroOpcodeBase => "opcode_base cannot be 0 in line number table"
  | operandCount expected opcode found =>
    "expected " ++ Numeral.decimal expected.toNat ++ " arguments for line number opcode " ++
      Numeral.decimal opcode ++ ", got " ++ Numeral.decimal found.toNat
  | directoryFormatCount count =>
    "unexpected directory format entry count " ++ Numeral.decimal count.toNat
  | directoryFormatType contentType =>
    "unexpected directory format entry type " ++ ContentType.label contentType
  | directoryFormatForm form => "unexpected directory format entry form " ++ Form.label form
  | emptyFileFormat => "unexpected file format entry count 0"
  | fileFormatForm contentType form =>
    "unexpected file format entry type " ++ ContentType.label contentType ++ " form " ++
      Form.label form
  | noDirectories => "unexpected directory count 0"
  | noFiles => "unexpected file count 0"
  | emptyDirectory => "empty directory"
  | emptyFile => "empty file"
  | badSpecialOpcode opcode => "bad special opcode " ++ Numeral.decimal opcode.toNat
  | unknownStandardOpcode opcode => "unknown line number opcode " ++ StandardOpcode.label opcode
  | unknownExtendedOpcode opcode => "unknown line number opcode " ++ ExtendedOpcode.label opcode
  | extendedLengthOverflow length =>
    "extended opcode length " ++ Numeral.hex length.toNat ++ " overflows"
  | extendedOverrun opcode =>
    "extended line number opcode " ++ ExtendedOpcode.label opcode ++ " exceeded its size"
  | unexpectedProgramEnd => "unexpected end of line number program"
  | badFileIndex index =>
    "bad file index " ++ Numeral.decimal index.toNat ++ " in line table"

def LineError.message : LineError → String
  | format fault => "Format error: " ++ fault.message
  | outOfRange index size =>
    "File name index " ++ Numeral.decimal index.toNat ++ " exceeds file table size of " ++
      Numeral.decimal size
  | vendorOpcode opcode =>
    "Not implemented: vendor line number opcode " ++ ExtendedOpcode.label opcode
  | missingSection target form =>
    "Missing section " ++ target.name ++ " required by " ++ form.name
  | read cause => "Read error: " ++ cause.description

/-- A failed read fails the operation that needed it. -/
def LineError.ofRead {α : Type} : Except ReadError α → Except LineError α :=
  Except.mapError .read

instance : MonadLift (Reader ReadError) (Reader LineError) where
  monadLift reader := fun c => LineError.ofRead (reader c)

namespace Reader

variable {α : Type}

def reject (fault : FormatFault) : Reader LineError α :=
  fun _ => .error (.format fault)

def seek (target : Nat) : Reader LineError Unit := do
  let current ← offset
  if target < current then
    reject (.backwardSeek current target)
  else
    skip (target - current)

theorem lift_eq_ok {reader : Reader ReadError α} {c d : Cursor} {a : α} :
    (liftM reader : Reader LineError α) c = .ok (a, d) ↔ reader c = .ok (a, d) := by
  change LineError.ofRead (reader c) = _ ↔ _
  cases reader c with
  | error e => exact ⟨nofun, nofun⟩
  | ok result => exact ⟨fun h => by cases h; rfl, fun h => by cases h; rfl⟩

theorem forward_lift {reader : Reader ReadError α} (h : reader.Forward) :
    (liftM reader : Reader LineError α).Forward :=
  fun _ _ _ hr => h (lift_eq_ok.1 hr)

theorem consuming_lift {reader : Reader ReadError α} (h : reader.Consuming) :
    (liftM reader : Reader LineError α).Consuming :=
  fun _ _ _ hr => h (lift_eq_ok.1 hr)

theorem forward_reject (fault : FormatFault) :
    (reject fault : Reader LineError α).Forward := by
  intro c a d h
  cases h

theorem forward_seek (target : Nat) : (seek target).Forward := by
  refine forward_offset.bind fun current => ?_
  split
  · exact forward_reject _
  · exact forward_lift (forward_skip _)

end Reader
end DwarfLines
