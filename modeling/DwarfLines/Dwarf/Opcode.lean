import DwarfLines.Text.Numeral

/-!
# Opcodes of the line number program

The first byte of an instruction chooses its class. From the header's opcode base on it is a
special opcode; below that it is a standard opcode; zero announces an extended opcode, whose own
number follows its length.
-/

namespace DwarfLines

inductive StandardOpcode where
  | copy
  | advancePc
  | advanceLine
  | setFile
  | setColumn
  | negateStmt
  | setBasicBlock
  | constAddPc
  | fixedAdvancePc
  | setPrologueEnd
  | setEpilogueBegin
  | setIsa
  deriving DecidableEq, Repr

namespace StandardOpcode

def code : StandardOpcode → UInt8
  | copy => 1
  | advancePc => 2
  | advanceLine => 3
  | setFile => 4
  | setColumn => 5
  | negateStmt => 6
  | setBasicBlock => 7
  | constAddPc => 8
  | fixedAdvancePc => 9
  | setPrologueEnd => 10
  | setEpilogueBegin => 11
  | setIsa => 12

def name : StandardOpcode → String
  | copy => "DW_LNS_copy"
  | advancePc => "DW_LNS_advance_pc"
  | advanceLine => "DW_LNS_advance_line"
  | setFile => "DW_LNS_set_file"
  | setColumn => "DW_LNS_set_column"
  | negateStmt => "DW_LNS_negate_stmt"
  | setBasicBlock => "DW_LNS_set_basic_block"
  | constAddPc => "DW_LNS_const_add_pc"
  | fixedAdvancePc => "DW_LNS_fixed_advance_pc"
  | setPrologueEnd => "DW_LNS_set_prologue_end"
  | setEpilogueBegin => "DW_LNS_set_epilogue_begin"
  | setIsa => "DW_LNS_set_isa"

def all : List StandardOpcode :=
  [copy, advancePc, advanceLine, setFile, setColumn, negateStmt, setBasicBlock, constAddPc,
   fixedAdvancePc, setPrologueEnd, setEpilogueBegin, setIsa]

def operandCount : StandardOpcode → UInt8
  | .advancePc | .advanceLine | .setFile | .setColumn | .fixedAdvancePc | .setIsa => 1
  | _ => 0

def ofCode? (code : UInt8) : Option StandardOpcode := all.find? (·.code == code)

/-- How a message names the one stored as a number. -/
def label (code : UInt8) : String :=
  match ofCode? code with
  | some known => known.name
  | none => "Unknown DwLns: " ++ Numeral.decimal code.toNat

theorem ofCode?_code (known : StandardOpcode) : ofCode? known.code = some known := by
  cases known <;> rfl

theorem code_of_ofCode? {code : UInt8} {known : StandardOpcode} (h : ofCode? code = some known) :
    known.code = code := by
  simpa using List.find?_some h

theorem code_ne_zero (opcode : StandardOpcode) : opcode.code ≠ 0 := by
  cases opcode <;> decide

end StandardOpcode

/-- The extended opcodes that have a name, with the ends of the range left to vendors. -/
inductive ExtendedOpcode where
  | endSequence
  | setAddress
  | defineFile
  | setDiscriminator
  | loUser
  | hiUser
  deriving DecidableEq, Repr

namespace ExtendedOpcode

def code : ExtendedOpcode → UInt8
  | endSequence => 1
  | setAddress => 2
  | defineFile => 3
  | setDiscriminator => 4
  | loUser => 0x80
  | hiUser => 0xff

def name : ExtendedOpcode → String
  | endSequence => "DW_LNE_end_sequence"
  | setAddress => "DW_LNE_set_address"
  | defineFile => "DW_LNE_define_file"
  | setDiscriminator => "DW_LNE_set_discriminator"
  | loUser => "DW_LNE_lo_user"
  | hiUser => "DW_LNE_hi_user"

def all : List ExtendedOpcode :=
  [endSequence, setAddress, defineFile, setDiscriminator, loUser, hiUser]

def ofCode? (code : UInt8) : Option ExtendedOpcode := all.find? (·.code == code)

/-- How a message names the one stored as a number. -/
def label (code : UInt8) : String :=
  match ofCode? code with
  | some known => known.name
  | none => "Unknown DwLne: " ++ Numeral.decimal code.toNat

theorem ofCode?_code (known : ExtendedOpcode) : ofCode? known.code = some known := by
  cases known <;> rfl

theorem code_of_ofCode? {code : UInt8} {known : ExtendedOpcode} (h : ofCode? code = some known) :
    known.code = code := by
  simpa using List.find?_some h

end ExtendedOpcode

end DwarfLines
