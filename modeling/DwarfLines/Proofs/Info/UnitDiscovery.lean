import Mathlib
import DwarfLines.Image
import DwarfLines.Proofs.Info.EntryReading

/-!
# Finding the units with a line table

A unit is read back from its header and the abbreviation of its first entry, and the next unit
begins where its length says. So the units that are found are those with a line table, in their
order and each as its first entry says, and a unit without a line table is passed over without
leaving a trace in the others.
-/

namespace DwarfLines
namespace WrittenUnit

variable {unit : WrittenUnit} {order : ByteOrder}

def header (unit : WrittenUnit) (order : ByteOrder) : UnitHeader where
  encoding := unit.encoding order
  abbreviations := unit.abbreviations

def found (unit : WrittenUnit) (order : ByteOrder) : InfoUnit where
  header := unit.header order
  entries := ⟨(unit.headerBytes order).length, unit.entryBytes ++ unit.rest⟩

theorem reads_addressSize {size : UInt8} (h : size = 1 ∨ size = 2 ∨ size = 4 ∨ size = 8)
    (offset : ℕ) : UnitHeader.readAddressSize.Reads offset [size] size := by
  refine (Reader.reads_byte offset size).bind_nil ?_
  rw [if_pos h]
  exact Reader.reads_pure _ _

theorem reads_headerBytes (h : unit.isWritable order = true) (offset : ℕ) :
    (UnitHeader.read order unit.format).Reads offset (unit.headerBytes order)
      (unit.header order) := by
  simp only [isWritable, Bool.and_eq_true, Bool.or_eq_true, beq_iff_eq, decide_eq_true_eq,
    or_assoc] at h
  obtain ⟨⟨⟨⟨hlow, hhigh⟩, hsize⟩, habbreviations⟩, -⟩ := h
  have hknown : ¬ (unit.version < 2 ∨ 5 < unit.version) := by
    rw [not_or, UInt16.not_lt, UInt16.not_lt]
    exact ⟨hlow, hhigh⟩
  unfold headerBytes UnitHeader.read
  refine (Reader.reads_uint16 order offset unit.version).bind ?_
  rw [if_neg hknown]
  by_cases hfive : unit.version = 5
  · rw [if_pos hfive, if_pos hfive]
    refine (Reader.reads_byte _ 1).bind ((reads_addressSize hsize _).bind ?_)
    refine (Reader.reads_word order unit.format _ habbreviations).bind_nil ?_
    exact (Reader.reads_pure _ _).nil_bind (Reader.reads_pure _ _)
  · rw [if_neg hfive, if_neg hfive]
    refine (Reader.reads_word order unit.format _ habbreviations).bind ?_
    exact (reads_addressSize hsize _).bind_pure _

theorem reads_bytes (h : unit.isWritable order = true) (offset : ℕ) :
    (InfoUnit.read order).Reads offset (unit.bytes order) (unit.found order) := by
  have hheader := reads_headerBytes h 0 (unit.entryBytes ++ unit.rest)
  simp only [isWritable, Bool.and_eq_true, decide_eq_true_eq] at h
  obtain ⟨-, hlength⟩ := h
  unfold bytes InfoUnit.read
  refine (Reader.reads_initialLength order unit.format offset hlength).bind ?_
  refine (Reader.reads_take _ (unit.body order)).bind_nil ?_
  rw [body, Cursor.start, hheader, Nat.zero_add]
  exact (Reader.reads_lift_ok _ _).nil_bind (Reader.reads_pure _ _)

end WrittenUnit

theorem DeclaredAbbreviation.find?_found {table : List DeclaredAbbreviation}
    (hcodes : (table.map (·.code)).Nodup) {declared : DeclaredAbbreviation}
    (h : declared ∈ table) :
    (table.map DeclaredAbbreviation.found).find? (·.code == declared.code) =
      some declared.found := by
  induction table with
  | nil => cases h
  | cons first table ih =>
    rw [List.map_cons, List.nodup_cons] at hcodes
    rcases List.mem_cons.mp h with rfl | hmem
    · simp
    · have hne : first.code ≠ declared.code := by
        intro heq
        exact hcodes.1 (heq ▸ List.mem_map_of_mem hmem)
      rw [List.map_cons, List.find?_cons_of_neg (by simpa using hne)]
      exact ih hcodes.2 hmem

theorem InfoUnit.entryFrom_of_code {encoding : UnitEncoding} {known : List Abbreviation}
    {c next : Cursor} {code : UInt64} {declared : Abbreviation}
    (hread : Reader.uleb128 c = .ok (code, next)) (hcode : code ≠ 0)
    (hfind : known.find? (·.code == code) = some declared) :
    entryFrom encoding known c =
      .ok (some { encoding, attributes := declared.attributes, values := next }) := by
  rw [entryFrom, if_neg (Reader.consuming_uleb128.not_atEnd hread)]
  split
  · simp_all
  · rename_i code' next' hread'
    rw [hread] at hread'
    cases hread'
    rw [if_neg hcode, hfind]

namespace WrittenUnit.States

variable {unit : WrittenUnit} {sections : InfoSections} {facts : UnitFacts}

/-- The first entry of a unit is found with the attributes of its abbreviation. -/
theorem root? (h : unit.States sections facts) :
    ∃ offset, (unit.found sections.order).root? sections.abbreviations =
      .ok (some (.ofWritten (unit.encoding sections.order) unit.attributes offset unit.rest)) := by
  obtain ⟨table, tag, children, hheld, hwritable, hcodes, hmem⟩ := h.declared
  rw [List.all_eq_true] at hwritable
  have hlist := DeclaredAbbreviation.listAt_of_holdsTable hheld hwritable hcodes
  have hfind := DeclaredAbbreviation.find?_found hcodes hmem
  have hcode : unit.code ≠ 0 := by
    have hdeclared := hwritable _ hmem
    simp only [DeclaredAbbreviation.isWritable, Bool.and_eq_true, bne_iff_ne] at hdeclared
    exact hdeclared.1.1
  have hread := Reader.reads_uleb128 (unit.headerBytes sections.order).length unit.code
    (unit.attributes.flatMap (·.value) ++ unit.rest)
  have hentry :=
    @InfoUnit.entryFrom_of_code (unit.encoding sections.order) _ _ _ _ _ hread hcode hfind
  refine ⟨(unit.headerBytes sections.order).length +
    (Leb128.unsignedBytes unit.code.toNat).length, ?_⟩
  unfold InfoUnit.root?
  change (Abbreviation.listAt sections.abbreviations unit.abbreviations >>= _) = _
  rw [hlist]
  change InfoUnit.entryFrom (unit.encoding sections.order) _
    ⟨(unit.headerBytes sections.order).length, unit.entryBytes ++ unit.rest⟩ = _
  rw [entryBytes, List.append_assoc, hentry, InfoEntry.ofWritten, DeclaredAbbreviation.found,
    List.map_map]
  rfl

theorem unitLines? (h : unit.States sections facts) (index : ℕ) :
    sections.unitLines? index (unit.found sections.order) =
      .ok (facts.lineUnit? sections.strings unit.addressSize index) := by
  obtain ⟨offset, hroot⟩ := h.root?
  unfold InfoSections.unitLines?
  rw [hroot]
  exact InfoSections.lineUnit?_of_said h.said index offset unit.rest

end WrittenUnit.States

namespace LineUnit

/-- The units that have a line table, numbered from an index on. -/
def numbered (strings : StringSections) (index : ℕ) (units : List (WrittenUnit × UnitFacts)) :
    List LineUnit :=
  ((units.filter (·.2.lineOffset.isSome)).zipIdx index).filterMap fun ((unit, facts), number) =>
    facts.lineUnit? strings unit.addressSize number

variable {strings : StringSections} {index : ℕ} {unit : WrittenUnit} {facts : UnitFacts}
  {units : List (WrittenUnit × UnitFacts)}

theorem numbered_cons_of_none (h : facts.lineUnit? strings unit.addressSize index = none) :
    numbered strings index ((unit, facts) :: units) = numbered strings index units := by
  have hnone : ¬ facts.lineOffset.isSome = true := by simpa [UnitFacts.lineUnit?] using h
  have hfilter : ((unit, facts) :: units).filter (·.2.lineOffset.isSome) =
      units.filter (·.2.lineOffset.isSome) := List.filter_cons_of_neg hnone
  rw [numbered, hfilter, ← numbered]

theorem numbered_cons_of_some {found : LineUnit}
    (h : facts.lineUnit? strings unit.addressSize index = some found) :
    numbered strings index ((unit, facts) :: units) =
      found :: numbered strings (index + 1) units := by
  have hsome : facts.lineOffset.isSome = true := by
    obtain ⟨place, hplace, -⟩ := Option.map_eq_some_iff.mp h
    exact Option.isSome_of_eq_some hplace
  have hfilter : ((unit, facts) :: units).filter (·.2.lineOffset.isSome) =
      (unit, facts) :: units.filter (·.2.lineOffset.isSome) := List.filter_cons_of_pos hsome
  rw [numbered, hfilter, List.zipIdx_cons, List.filterMap_cons]
  dsimp only
  rw [h, numbered]

end LineUnit

namespace InfoSections

variable {sections : InfoSections}

/-- After a unit that can be read the search goes on behind it. -/
theorem unitsFrom_of_read {c next : Cursor} {unit : InfoUnit}
    (hread : InfoUnit.read sections.order c = .ok (unit, next)) (index : ℕ) :
    sections.unitsFrom index c = match sections.unitLines? index unit with
      | .error e => .error e
      | .ok none => sections.unitsFrom index next
      | .ok (some found) => (found :: ·) <$> sections.unitsFrom (index + 1) next := by
  rw [unitsFrom, if_neg ((InfoUnit.consuming_read _).not_atEnd hread)]
  split
  · simp_all
  · rename_i unit' next' hread'
    rw [hread] at hread'
    cases hread'
    rfl

theorem unitsFrom_of_states {units : List (WrittenUnit × UnitFacts)}
    (h : ∀ unit ∈ units, unit.1.States sections unit.2) (index offset : ℕ) :
    sections.unitsFrom index ⟨offset, units.flatMap (·.1.bytes sections.order)⟩ =
      .ok (LineUnit.numbered sections.strings index units) := by
  induction units generalizing index offset with
  | nil =>
    rw [unitsFrom, if_pos (by rfl)]
    rfl
  | cons entry units ih =>
    obtain ⟨unit, facts⟩ := entry
    obtain ⟨hunit, hrest⟩ := List.forall_mem_cons.mp h
    have hread := WrittenUnit.reads_bytes hunit.writable offset
      (units.flatMap (·.1.bytes sections.order))
    rw [List.flatMap_cons, unitsFrom_of_read hread, hunit.unitLines? index]
    cases hfound : facts.lineUnit? sections.strings unit.addressSize index with
    | none =>
      rw [LineUnit.numbered_cons_of_none hfound]
      exact ih hrest index _
    | some found =>
      rw [LineUnit.numbered_cons_of_some hfound]
      dsimp only
      rw [ih hrest (index + 1)]
      rfl

end InfoSections

namespace Image

/-- The units that are found in an image are those with a line table, numbered in the order they
stand, each with what its first entry says, and with the placeholders for what it does not say. -/
theorem units_of_states {image : Image} {units : List (WrittenUnit × UnitFacts)}
    (hinfo : image.info.info = units.flatMap (·.1.bytes image.order))
    (hstates : ∀ unit ∈ units, unit.1.States image.info unit.2) :
    image.units = .ok (LineUnit.numbered image.strings 0 units) := by
  unfold Image.units InfoSections.units
  rw [hinfo]
  exact InfoSections.unitsFrom_of_states hstates 0 0

/-- A unit whose name is indexed before the base of the string offsets, with an attribute of no
concern, a unit without a line table and a 64-bit one that says nothing but where its table is. -/
def threeUnits : List (WrittenUnit × UnitFacts) :=
  [({ format := .dwarf32, version := 5, addressSize := 8, abbreviations := 1, code := 1, rest := [0]
      attributes :=
        [{ name := 0x03, form := 0x25, value := [0] },
         { name := 0x13, form := 0x05, value := [12, 0] },
         { name := 0x72, form := 0x17, value := [8, 0, 0, 0] },
         { name := 0x10, form := 0x17, value := [5, 0, 0, 0] }] },
    { lineOffset := some 5, strOffsetsBase := some 8, name := some "a" }),
   ({ format := .dwarf32, version := 4, addressSize := 8, abbreviations := 1, code := 2, rest := []
      attributes := [{ name := 0x03, form := 0x08, value := [98, 0] }] },
    { name := some "b" }),
   ({ format := .dwarf64, version := 3, addressSize := 4, abbreviations := 1, code := 3, rest := []
      attributes := [{ name := 0x10, form := 0x07, value := [9, 0, 0, 0, 0, 0, 0, 0] }] },
    { lineOffset := some 9 })]

def threeAbbreviations : List DeclaredAbbreviation :=
  threeUnits.map fun (unit, _) =>
    { code := unit.code, tag := 0x11, children := false
      attributes := unit.attributes.map (·.toDeclaredAttribute) }

def ofThreeUnits : Image where
  path := "a"
  order := .little
  sections :=
    [(.abbreviations, 7 :: threeAbbreviations.flatMap DeclaredAbbreviation.bytes ++ [0]),
     (.info, threeUnits.flatMap (·.1.bytes .little)),
     (.strings, [97, 0]),
     (.strOffsets, [8, 0, 0, 0, 5, 0, 0, 0, 0, 0, 0, 0])]

theorem threeUnits_declared {unit : WrittenUnit} {facts : UnitFacts}
    (hmem : (unit, facts) ∈ threeUnits) (habbreviations : unit.abbreviations = 1) :
    ∃ table tag children,
      DeclaredAbbreviation.HoldsTable ofThreeUnits.info.abbreviations unit.abbreviations table ∧
      (table.all DeclaredAbbreviation.isWritable) = true ∧ (table.map (·.code)).Nodup ∧
      { code := unit.code, tag, children,
        attributes := unit.attributes.map (·.toDeclaredAttribute) } ∈ table := by
  refine ⟨threeAbbreviations, 0x11, false, ?_, by decide, by decide, List.mem_map_of_mem hmem⟩
  rw [habbreviations]
  exact ⟨[7], [0], rfl, rfl, .inr ⟨[], rfl⟩⟩

theorem threeUnits_writesName {layout : FormLayout} (horder : layout.order = .little)
    (hformat : layout.format = .dwarf32)
    (hstrings : layout.strings = { ofThreeUnits.strings with strOffsetsBase := 8 }) :
    layout.WritesText .strx1 "a" [0] := by
  have hheld : layout.HoldsIndexed 0 "a" := by
    obtain ⟨order, format, addressSize, strings⟩ := layout
    cases horder
    cases hformat
    cases hstrings
    refine ⟨[8, 0, 0, 0, 5, 0, 0, 0], [], 0, _, rfl, rfl, rfl, by decide, ?_, [97, 0], rfl, ?_⟩
    · exact Nat.zero_lt_succ 0xffffffff
    · exact ⟨[], [], by decide, rfl, by decide⟩
  have hwrites := @FormLayout.WritesText.strxFixed layout 0 "a" .strx1 1 0x100 (by simp) (by decide)
    hheld
  rwa [horder] at hwrites

theorem threeUnits_state : ∀ unit ∈ threeUnits, unit.1.States ofThreeUnits.info unit.2 := by
  intro unit hunit
  have hdeclared := @threeUnits_declared unit.1 unit.2 hunit
  simp only [threeUnits, List.mem_cons, List.not_mem_nil, or_false] at hunit
  rcases hunit with rfl | rfl | rfl
  · refine ⟨by decide +kernel, hdeclared rfl, List.forall_mem_cons.mpr ⟨?_, ?_⟩, ?_⟩
    · exact .text .name rfl rfl (WrittenAttribute.holds_of_form .strx1 rfl (by decide)
        (threeUnits_writesName rfl rfl rfl))
    · simp only [List.forall_mem_cons]
      refine ⟨.other (by intro wanted; cases wanted <;> decide) ⟨.other, ?_⟩, ?_, ?_, by simp⟩
      · exact WrittenAttribute.decodes_of_names (NamesForm.of_code .data2 rfl (by decide)) rfl
          fun place => (Reader.reads_skip place [12, 0]).bind_pure _
      · exact .strOffsetsBase rfl rfl (WrittenAttribute.holds_of_form .secOffset rfl (by decide)
          (.secOffset (by decide)))
      · exact .lineOffset rfl rfl (WrittenAttribute.holds_of_form .secOffset rfl (by decide)
          (.secOffset (by decide)))
    · intro wanted
      cases wanted <;> decide
  · refine ⟨by decide +kernel, hdeclared rfl, List.forall_mem_singleton.mpr ?_, ?_⟩
    · exact .text .name rfl rfl (WrittenAttribute.holds_of_form .string rfl (by decide)
        (@FormLayout.WritesText.inline _ "b" (by decide)))
    · intro wanted
      cases wanted <;> decide
  · refine ⟨by decide +kernel, hdeclared rfl, List.forall_mem_singleton.mpr ?_, ?_⟩
    · exact .lineOffset rfl rfl (WrittenAttribute.holds_of_form .data8 rfl (by decide)
        (.data8 rfl (by decide)))
    · intro wanted
      cases wanted <;> decide

/-- Two of three units have a line table, and they are numbered without the one between them. -/
theorem units_of_three :
    ofThreeUnits.units.map (fun units => units.map fun unit => (unit.index, unit.lineOffset,
      unit.context.addressSize, unit.context.compDir, unit.context.name,
      unit.context.strings.strOffsetsBase)) =
      .ok [(0, 5, 8, "./", "a", 8), (1, 9, 4, "./", "<unit 1>", 0)] := by
  rw [units_of_states rfl threeUnits_state]
  exact congrArg Except.ok (by decide +kernel)

end Image
end DwarfLines
