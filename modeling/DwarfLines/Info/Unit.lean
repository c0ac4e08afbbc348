import DwarfLines.Info.Attribute

/-!
# Units with a line table

The units of the debug information follow each other to the end of its section. Of each unit only
the first entry is read, since it names the line table and what the table takes from its unit. A
unit without entries or without a line table is passed over; any byte that cannot be read ends
the search for units, because nothing after it can be trusted.
-/

namespace DwarfLines

/-- How the entries of a unit are laid out, and where its abbreviations stand. -/
structure UnitHeader where
  encoding : UnitEncoding
  abbreviations : Nat
  deriving DecidableEq, Repr

namespace UnitHeader

def readAddressSize : Reader ReadError UInt8 := do
  let size ← Reader.byte
  if size = 1 ∨ size = 2 ∨ size = 4 ∨ size = 8 then
    return size
  else
    throw .unsupportedAddressSize

/-- Moves past what the header of a unit of some kind has after the common fields: type units
have a signature and an offset, skeleton and split units an identifier. -/
def skipKind (format : DwarfFormat) (kind : UInt8) : Reader ReadError Unit :=
  if kind = 1 ∨ kind = 3 then
    pure ()
  else if kind = 2 ∨ kind = 6 then
    Reader.skip (8 + format.wordSize)
  else if kind = 4 ∨ kind = 5 then
    Reader.skip 8
  else
    throw .unsupportedUnitType

def read (order : ByteOrder) (format : DwarfFormat) : Reader ReadError UnitHeader := do
  let version ← Reader.uint16 order
  if version < 2 ∨ 5 < version then
    throw .unknownVersion
  else if version = 5 then
    let kind ← Reader.byte
    let addressSize ← readAddressSize
    let abbreviations ← Reader.word order format
    skipKind format kind
    return { encoding := { order, format, version, addressSize }, abbreviations }
  else
    let abbreviations ← Reader.word order format
    let addressSize ← readAddressSize
    return { encoding := { order, format, version, addressSize }, abbreviations }

end UnitHeader

structure InfoUnit where
  header : UnitHeader
  /-- The place of its first entry, in the bytes of this unit alone. -/
  entries : Cursor
  deriving DecidableEq, Repr

structure InfoEntry where
  encoding : UnitEncoding
  attributes : List AttributeSpec
  values : Cursor
  deriving DecidableEq, Repr

namespace InfoUnit

def read (order : ByteOrder) : Reader ReadError InfoUnit := do
  let (length, format) ← Reader.initialLength order
  let body ← Reader.take length
  let (header, entries) ← UnitHeader.read order format (Cursor.start body)
  return { header, entries }

theorem consuming_initialLength (order : ByteOrder) :
    (Reader.initialLength order).Consuming := by
  have four : (Reader.fixed order 4).Consuming := Reader.consuming_fixed order (by decide)
  refine four.bind fun first => ?_
  split
  · exact Reader.forward_pure _
  · split
    · exact (Reader.forward_fixed order 8).bind fun _ => Reader.forward_pure _
    · exact Reader.forward_throw _

theorem consuming_read (order : ByteOrder) : (read order).Consuming := by
  refine (consuming_initialLength order).bind fun (length, format) => ?_
  refine (Reader.forward_take length).bind fun body => ?_
  refine Reader.Forward.bind ?_ fun _ => Reader.forward_pure _
  exact Reader.forward_lift_except _

/-- The first entry at a place, past any codes that end lists of entries. -/
def entryFrom (encoding : UnitEncoding) (known : List Abbreviation) (c : Cursor) :
    Except ReadError (Option InfoEntry) :=
  if c.atEnd then
    .ok none
  else
    match h : Reader.uleb128 c with
    | .error e => .error e
    | .ok (code, next) =>
      have := Cursor.length_lt (Reader.consuming_uleb128 h)
      if code = 0 then
        entryFrom encoding known next
      else
        match known.find? (·.code == code) with
        | some declared =>
          .ok (some { encoding, attributes := declared.attributes, values := next })
        | none => .error .unknownAbbreviation
termination_by c.rest.length

def root? (abbreviations : List UInt8) (unit : InfoUnit) :
    Except ReadError (Option InfoEntry) := do
  let known ← Abbreviation.listAt abbreviations unit.header.abbreviations
  entryFrom unit.header.encoding known unit.entries

end InfoUnit

/-- The numbers of the attributes that concern a line table. -/
inductive LineAttribute where
  | name
  | lineTable
  | compDir
  | strOffsetsBase
  deriving DecidableEq, Repr

def LineAttribute.code : LineAttribute → UInt16
  | name => 0x03
  | lineTable => 0x10
  | compDir => 0x1b
  | strOffsetsBase => 0x72

namespace InfoEntry

variable (entry : InfoEntry)

def value? (wanted : LineAttribute) : Except ReadError (Option AttributeValue) :=
  (·.1) <$> AttributeValue.find? entry.encoding wanted.code entry.attributes entry.values

def lineOffset? : Except ReadError (Option Nat) := do
  return (← entry.value? .lineTable).bind (·.lineOffset? entry.encoding)

def strOffsetsBase : Except ReadError Nat := do
  match ← entry.value? .strOffsetsBase with
  | some (.sectionOffset base) => return base
  | _ => return 0

def string? (strings : StringSections) (wanted : LineAttribute) :
    Except ReadError (Option String) := do
  match ← entry.value? wanted with
  | some value => some <$> value.string entry.encoding strings
  | none => return none

end InfoEntry

structure LineUnit where
  /-- Its place among the units that have one. -/
  index : Nat
  /-- Where in the line section its table stands. -/
  lineOffset : Nat
  context : UnitContext
  deriving DecidableEq, Repr

/-- The sections that units are found in. A section that is missing counts as empty. -/
structure InfoSections where
  order : ByteOrder
  info : List UInt8
  abbreviations : List UInt8
  strings : StringSections
  deriving DecidableEq, Repr

namespace InfoSections

variable (sections : InfoSections)

def unknownCompDir : String := "./"

def unnamed (index : Nat) : String := "<unit " ++ Numeral.decimal index ++ ">"

/-- What an entry says about its unit's line table, if there is one. -/
def lineUnit? (index : Nat) (entry : InfoEntry) : Except ReadError (Option LineUnit) := do
  match ← entry.lineOffset? with
  | none => return none
  | some lineOffset =>
    let strings := { sections.strings with strOffsetsBase := ← entry.strOffsetsBase }
    let compDir ← entry.string? strings .compDir
    let name ← entry.string? strings .name
    return some {
      index, lineOffset
      context := {
        addressSize := entry.encoding.addressSize
        compDir := compDir.getD unknownCompDir
        name := name.getD (unnamed index)
        strings } }

def unitLines? (index : Nat) (unit : InfoUnit) : Except ReadError (Option LineUnit) := do
  match ← unit.root? sections.abbreviations with
  | none => return none
  | some entry => sections.lineUnit? index entry

/-- The units with a line table from a place on, the first of them with the given index. -/
def unitsFrom (index : Nat) (c : Cursor) : Except ReadError (List LineUnit) :=
  if c.atEnd then
    .ok []
  else
    match h : InfoUnit.read sections.order c with
    | .error e => .error e
    | .ok (unit, next) =>
      have := Cursor.length_lt (InfoUnit.consuming_read _ h)
      match sections.unitLines? index unit with
      | .error e => .error e
      | .ok none => unitsFrom index next
      | .ok (some found) => (found :: ·) <$> unitsFrom (index + 1) next
termination_by c.rest.length

/-- The units with a line table, in the order they stand. -/
def units : Except ReadError (List LineUnit) := sections.unitsFrom 0 (Cursor.start sections.info)

end InfoSections
end DwarfLines
