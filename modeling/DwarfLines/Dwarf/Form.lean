import DwarfLines.Text.Numeral

/-!
# Attribute forms

A form says how a value is laid out. The forms that have a name are listed here with their codes;
`ofCode?_code` and `code_of_ofCode?` say that the list gives each form one code and back.
-/

namespace DwarfLines

inductive Form where
  | null
  | addr
  | ref
  | block2
  | block4
  | data2
  | data4
  | data8
  | string
  | block
  | block1
  | data1
  | flag
  | sdata
  | strp
  | udata
  | refAddr
  | ref1
  | ref2
  | ref4
  | ref8
  | refUdata
  | indirect
  | secOffset
  | exprloc
  | flagPresent
  | strx
  | addrx
  | refSup4
  | strpSup
  | data16
  | lineStrp
  | refSig8
  | implicitConst
  | loclistx
  | rnglistx
  | refSup8
  | strx1
  | strx2
  | strx3
  | strx4
  | addrx1
  | addrx2
  | addrx3
  | addrx4
  | gnuAddrIndex
  | gnuStrIndex
  | gnuRefAlt
  | gnuStrpAlt
  deriving DecidableEq, Repr

namespace Form

def code : Form → UInt16
  | null => 0
  | addr => 1
  | ref => 2
  | block2 => 3
  | block4 => 4
  | data2 => 5
  | data4 => 6
  | data8 => 7
  | string => 8
  | block => 9
  | block1 => 10
  | data1 => 11
  | flag => 12
  | sdata => 13
  | strp => 14
  | udata => 15
  | refAddr => 16
  | ref1 => 17
  | ref2 => 18
  | ref4 => 19
  | ref8 => 20
  | refUdata => 21
  | indirect => 22
  | secOffset => 23
  | exprloc => 24
  | flagPresent => 25
  | strx => 26
  | addrx => 27
  | refSup4 => 28
  | strpSup => 29
  | data16 => 30
  | lineStrp => 31
  | refSig8 => 32
  | implicitConst => 33
  | loclistx => 34
  | rnglistx => 35
  | refSup8 => 36
  | strx1 => 37
  | strx2 => 38
  | strx3 => 39
  | strx4 => 40
  | addrx1 => 41
  | addrx2 => 42
  | addrx3 => 43
  | addrx4 => 44
  | gnuAddrIndex => 0x1f01
  | gnuStrIndex => 0x1f02
  | gnuRefAlt => 0x1f20
  | gnuStrpAlt => 0x1f21

def name : Form → String
  | null => "DW_FORM_null"
  | addr => "DW_FORM_addr"
  | ref => "DW_FORM_ref"
  | block2 => "DW_FORM_block2"
  | block4 => "DW_FORM_block4"
  | data2 => "DW_FORM_data2"
  | data4 => "DW_FORM_data4"
  | data8 => "DW_FORM_data8"
  | string => "DW_FORM_string"
  | block => "DW_FORM_block"
  | block1 => "DW_FORM_block1"
  | data1 => "DW_FORM_data1"
  | flag => "DW_FORM_flag"
  | sdata => "DW_FORM_sdata"
  | strp => "DW_FORM_strp"
  | udata => "DW_FORM_udata"
  | refAddr => "DW_FORM_ref_addr"
  | ref1 => "DW_FORM_ref1"
  | ref2 => "DW_FORM_ref2"
  | ref4 => "DW_FORM_ref4"
  | ref8 => "DW_FORM_ref8"
  | refUdata => "DW_FORM_ref_udata"
  | indirect => "DW_FORM_indirect"
  | secOffset => "DW_FORM_sec_offset"
  | exprloc => "DW_FORM_exprloc"
  | flagPresent => "DW_FORM_flag_present"
  | strx => "DW_FORM_strx"
  | addrx => "DW_FORM_addrx"
  | refSup4 => "DW_FORM_ref_sup4"
  | strpSup => "DW_FORM_strp_sup"
  | data16 => "DW_FORM_data16"
  | lineStrp => "DW_FORM_line_strp"
  | refSig8 => "DW_FORM_ref_sig8"
  | implicitConst => "DW_FORM_implicit_const"
  | loclistx => "DW_FORM_loclistx"
  | rnglistx => "DW_FORM_rnglistx"
  | refSup8 => "DW_FORM_ref_sup8"
  | strx1 => "DW_FORM_strx1"
  | strx2 => "DW_FORM_strx2"
  | strx3 => "DW_FORM_strx3"
  | strx4 => "DW_FORM_strx4"
  | addrx1 => "DW_FORM_addrx1"
  | addrx2 => "DW_FORM_addrx2"
  | addrx3 => "DW_FORM_addrx3"
  | addrx4 => "DW_FORM_addrx4"
  | gnuAddrIndex => "DW_FORM_GNU_addr_index"
  | gnuStrIndex => "DW_FORM_GNU_str_index"
  | gnuRefAlt => "DW_FORM_GNU_ref_alt"
  | gnuStrpAlt => "DW_FORM_GNU_strp_alt"

def all : List Form :=
  [null, addr, ref, block2, block4, data2, data4, data8, string, block, block1, data1, flag,
   sdata, strp, udata, refAddr, ref1, ref2, ref4, ref8, refUdata, indirect, secOffset,
   exprloc, flagPresent, strx, addrx, refSup4, strpSup, data16, lineStrp, refSig8,
   implicitConst, loclistx, rnglistx, refSup8, strx1, strx2, strx3, strx4, addrx1, addrx2,
   addrx3, addrx4, gnuAddrIndex, gnuStrIndex, gnuRefAlt, gnuStrpAlt]

def ofCode? (code : UInt16) : Option Form := all.find? (·.code == code)

/-- How a message names the form stored as a number. -/
def label (code : UInt16) : String :=
  match ofCode? code with
  | some form => form.name
  | none => "Unknown DwForm: " ++ Numeral.decimal code.toNat

theorem ofCode?_code (form : Form) : ofCode? form.code = some form := by
  cases form <;> rfl

theorem code_of_ofCode? {code : UInt16} {form : Form} (h : ofCode? code = some form) :
    form.code = code := by
  simpa using List.find?_some h

end Form
end DwarfLines
