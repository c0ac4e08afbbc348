import DwarfLines.Object.File
import DwarfLines.Object.Zlib
import DwarfLines.Text.Utf8

/-!
# Sections of an ELF file

An ELF file is looked through only for its sections: their names, and their contents with any
compression undone. A section is found by name, the first one winning, and a debug section may
also be present in the older compressed spelling of its name.
-/

namespace DwarfLines

/-- Why a file is not taken for an ELF file, or a section cannot be had. -/
inductive ElfError where
  | noMagic
  | unknownMagic
  | headerSize
  | unsupportedHeader
  | sectionEntrySize
  | firstSectionHeader
  | sectionHeaders
  | noNamesIndex
  | badNamesIndex
  | namesSize
  | compressedKind
  | compressedOffset
  | compressedSize
  | compressionType
  | contentsRange
  | taggedKind
  | taggedSize
  | taggedHeader
  | tooLarge
  | badStream
  | sizeMismatch
  deriving DecidableEq, Repr

def ElfError.message : ElfError → String
  | noMagic => "Could not read file magic"
  | unknownMagic => "Unknown file magic"
  | headerSize => "Invalid ELF header size or alignment"
  | unsupportedHeader => "Unsupported ELF header"
  | sectionEntrySize => "Invalid ELF section header entry size"
  | firstSectionHeader => "Invalid ELF section header offset or size"
  | sectionHeaders => "Invalid ELF section header offset/size/alignment"
  | noNamesIndex => "Missing ELF e_shstrndx"
  | badNamesIndex => "Invalid ELF e_shstrndx"
  | namesSize => "Invalid ELF shstrtab size"
  | compressedKind => "Invalid ELF compressed section type"
  | compressedOffset => "Invalid ELF compressed section offset"
  | compressedSize => "Invalid ELF compressed section size"
  | compressionType => "Unsupported ELF compression type"
  | contentsRange => "Invalid compressed data size or offset"
  | taggedKind => "Invalid ELF GNU compressed section type"
  | taggedSize => "GNU compressed section is too short"
  | taggedHeader => "Invalid GNU compressed section header"
  | tooLarge => "Uncompressed data allocation failed"
  | badStream => "Invalid zlib compressed data"
  | sizeMismatch => "Uncompressed data size does not match compression header"

/-- A stretch of bytes, if it lies within them. An empty stretch does so wherever it begins. -/
def slice? (bytes : List UInt8) (offset size : Nat) : Option (List UInt8) :=
  if size = 0 ∨ offset + size ≤ bytes.length then
    some ((bytes.drop offset).take size)
  else
    none

/-- The width of the addresses of an ELF file. -/
inductive ElfClass where
  | elf32
  | elf64
  deriving DecidableEq, Repr

namespace ElfClass

def headerSize : ElfClass → Nat
  | elf32 => 52
  | elf64 => 64

def sectionHeaderSize : ElfClass → Nat
  | elf32 => 40
  | elf64 => 64

def compressionHeaderSize : ElfClass → Nat
  | elf32 => 12
  | elf64 => 24

def wordSize : ElfClass → Nat
  | elf32 => 4
  | elf64 => 8

end ElfClass

structure ElfSection where
  name : Nat
  kind : Nat
  flags : Nat
  offset : Nat
  size : Nat
  link : Nat
  deriving DecidableEq, Repr

/-- An ELF file and its sections. -/
structure ElfFile where
  order : ByteOrder
  width : ElfClass
  bytes : List UInt8
  sections : List ElfSection
  /-- The table that section names point into. -/
  names : List UInt8
  deriving DecidableEq, Repr

namespace ElfSection

def decode (order : ByteOrder) (width : ElfClass) (header : List UInt8) : ElfSection :=
  let number (offset size : Nat) : Nat := order.value ((header.drop offset).take size)
  match width with
  | .elf32 =>
    { name := number 0 4, kind := number 4 4, flags := number 8 4, offset := number 16 4,
      size := number 20 4, link := number 24 4 }
  | .elf64 =>
    { name := number 0 4, kind := number 4 4, flags := number 8 8, offset := number 24 8,
      size := number 32 8, link := number 40 4 }

/-- Whether the section takes room in the file. -/
def hasBytes (header : ElfSection) : Bool := header.kind != 8

def isCompressed (header : ElfSection) : Bool := header.flags / 0x800 % 2 == 1

def nameIn (names : List UInt8) (header : ElfSection) : Option (List UInt8) :=
  let tail := names.drop header.name
  if tail.contains 0 then some (tail.takeWhile (· != 0)) else none

end ElfSection

namespace ElfFile

/-- The width that the class byte of an identification announces. -/
def widthOf : List UInt8 → Option ElfClass
  | 0x7f :: 0x45 :: 0x4c :: 0x46 :: 1 :: _ => some .elf32
  | 0x7f :: 0x45 :: 0x4c :: 0x46 :: 2 :: _ => some .elf64
  | _ => none

/-- The byte order and version that an identification announces, if both are known. -/
def orderOf (bytes : List UInt8) : Option ByteOrder :=
  match bytes.drop 5 with
  | 1 :: 1 :: _ => some .little
  | 2 :: 1 :: _ => some .big
  | _ => none

/-- Reads the section headers, all of one size, that fill a stretch of bytes. -/
def decodeSections (order : ByteOrder) (width : ElfClass) (table : List UInt8) :
    Nat → List ElfSection
  | 0 => []
  | count + 1 =>
    .decode order width (table.take width.sectionHeaderSize) ::
      decodeSections order width (table.drop width.sectionHeaderSize) count

def headerField (order : ByteOrder) (bytes : List UInt8) (offset size : Nat) : Nat :=
  order.value ((bytes.drop offset).take size)

/-- The first section header, which holds what the file header has no room for. -/
def firstSection (order : ByteOrder) (width : ElfClass) (bytes : List UInt8)
    (tableOffset entrySize : Nat) : Except ElfError ElfSection :=
  if entrySize ≠ width.sectionHeaderSize then
    .error .sectionEntrySize
  else
    match slice? bytes tableOffset width.sectionHeaderSize with
    | some header => .ok (.decode order width header)
    | none => .error .firstSectionHeader

def readSections (order : ByteOrder) (width : ElfClass) (bytes : List UInt8)
    (tableOffset entrySize count : Nat) : Except ElfError (List ElfSection) :=
  if tableOffset = 0 then
    .ok []
  else do
    let count ←
      if count = 0 then
        (·.size) <$> firstSection order width bytes tableOffset entrySize
      else
        pure count
    if count = 0 then
      return []
    else if entrySize ≠ width.sectionHeaderSize then
      throw .sectionEntrySize
    else
      match slice? bytes tableOffset (count * width.sectionHeaderSize) with
      | some table => return decodeSections order width table count
      | none => throw .sectionHeaders

def namesIndex (order : ByteOrder) (width : ElfClass) (bytes : List UInt8)
    (tableOffset entrySize index : Nat) : Except ElfError Nat := do
  let index ←
    if index = 0xffff then
      (·.link) <$> firstSection order width bytes tableOffset entrySize
    else
      pure index
  if index = 0 then throw .noNamesIndex else return index

/-- The table of names: empty if its section takes no room or lies outside the file. -/
def namesOf (bytes : List UInt8) (header : ElfSection) : Except ElfError (List UInt8) :=
  if !header.hasBytes then
    .ok []
  else if 0x10000000000000000 ≤ header.offset + header.size then
    .error .namesSize
  else
    .ok ((slice? bytes header.offset header.size).getD [])

def parse (bytes : List UInt8) : Except ElfError ElfFile :=
  if bytes.length < 16 then
    .error .noMagic
  else
    match widthOf bytes with
    | none => .error .unknownMagic
    | some width =>
      if bytes.length < width.headerSize then
        .error .headerSize
      else
        match orderOf bytes with
        | none => .error .unsupportedHeader
        | some order => do
          let tail := width.headerSize - 6
          let tableOffset :=
            headerField order bytes (24 + 2 * width.wordSize) width.wordSize
          let entrySize := headerField order bytes tail 2
          let sections ← readSections order width bytes tableOffset entrySize
            (headerField order bytes (tail + 2) 2)
          if sections.isEmpty then
            return { order, width, bytes, sections, names := [] }
          else
            let index ← namesIndex order width bytes tableOffset entrySize
              (headerField order bytes (tail + 4) 2)
            match sections[index]? with
            | none => throw .badNamesIndex
            | some header =>
              return { order, width, bytes, sections, names := ← namesOf bytes header }

variable (file : ElfFile)

def named? (name : List UInt8) : Option ElfSection :=
  file.sections.find? fun header => header.nameIn file.names == some name

def rawContents (header : ElfSection) : Except ElfError (List UInt8) :=
  if header.hasBytes then
    match slice? file.bytes header.offset header.size with
    | some contents => .ok contents
    | none => .error .contentsRange
  else
    .ok []

/-- What the stream in a stretch of the file holds, if it is as much as expected. -/
def inflated (offset size expected : Nat) : Except ElfError (List UInt8) :=
  match slice? file.bytes offset size with
  | none => .error .contentsRange
  | some stream =>
    if 0x10000000000 ≤ expected then
      .error .tooLarge
    else
      match Zlib.inflate expected stream with
      | some contents =>
        if contents.length = expected then .ok contents else .error .sizeMismatch
      | none => .error .badStream

/-- The contents of a section that begins with a compression header. -/
def compressedContents (header : ElfSection) : Except ElfError (List UInt8) :=
  let skipped := file.width.compressionHeaderSize
  if !header.hasBytes then
    .error .compressedKind
  else
    match slice? file.bytes header.offset skipped with
    | none => .error .compressedOffset
    | some description =>
      if header.size < skipped then
        .error .compressedSize
      else if file.order.value (description.take 4) ≠ 1 then
        .error .compressionType
      else
        let expected := match file.width with
          | .elf32 => file.order.value ((description.drop 4).take 4)
          | .elf64 => file.order.value ((description.drop 8).take 8)
        file.inflated (header.offset + skipped) (header.size - skipped) expected

/-- The contents of a section in the older compressed spelling, whose tag is followed by its size
with the most significant byte first. -/
def taggedContents (header : ElfSection) : Except ElfError (List UInt8) :=
  if !header.hasBytes then
    .error .taggedKind
  else
    match slice? file.bytes header.offset 8 with
    | none => .error .taggedSize
    | some tag =>
      if tag ≠ [0x5a, 0x4c, 0x49, 0x42, 0, 0, 0, 0] then
        .error .taggedHeader
      else
        match slice? file.bytes (header.offset + 8) 4 with
        | none => .error .taggedSize
        | some size =>
          if header.size < 12 then
            .error .taggedSize
          else
            file.inflated (header.offset + 12) (header.size - 12) (ByteOrder.big.value size)

/-- The older compressed spelling of a debug section's name. -/
def taggedName? : List UInt8 → Option (List UInt8)
  | 0x2e :: rest =>
    if (Utf8.encode "debug_").isPrefixOf rest then some (0x2e :: 0x7a :: rest) else none
  | _ => none

def contents (name : List UInt8) (header : ElfSection) : Except ElfError (List UInt8) :=
  if header.isCompressed then file.compressedContents header
  else if (Utf8.encode ".zdebug_").isPrefixOf name then file.taggedContents header
  else file.rawContents header

/-- The contents of the section with a name, or with its older compressed spelling. -/
def section? (name : String) : Except ElfError (Option (List UInt8)) :=
  let plain := Utf8.encode name
  match file.named? plain with
  | some header => some <$> file.contents plain header
  | none =>
    match taggedName? plain with
    | none => .ok none
    | some tagged =>
      match file.named? tagged with
      | some header => some <$> file.contents tagged header
      | none => .ok none

def toObjectFile : ObjectFile where
  order := file.order
  contents? name := (file.section? name).mapError fun e => ⟨e.message⟩

/-- Takes ELF files for object files, and no others. -/
def reader : ObjectReader := fun bytes =>
  match parse bytes with
  | .ok file => .ok file.toObjectFile
  | .error e => .error ⟨e.message⟩

end ElfFile
end DwarfLines
