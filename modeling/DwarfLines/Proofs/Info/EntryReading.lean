import Mathlib
import DwarfLines.Proofs.Dwarf.FormReading
import DwarfLines.Proofs.Info.AbbreviationReading

/-!
# Reading the first entry of a unit

An attribute is looked for from the first value on, so it is found behind values of any kind, as
long as these can be read at all. What is found is then what the attribute says, and an attribute
that nothing is said by is not found. The base of the string offsets is looked for before any
string is, so a string may stand in front of the base that it depends on.
-/

namespace DwarfLines

theorem Form.code_injective : Function.Injective Form.code := by
  intro form other h
  have hsame := (ofCode?_code form).symm.trans ((congrArg ofCode? h).trans (ofCode?_code other))
  exact Option.some.inj hsame

theorem NamesForm.of_code {code : UInt16} (form : Form) (hcode : code = form.code)
    (hdirect : form ≠ .indirect) : NamesForm code [] form :=
  hcode ▸ .direct hdirect

namespace AttributeValue

variable {encoding : UnitEncoding}

theorem reads_directForm {code : UInt16} {front : List UInt8} {form : Form}
    (h : NamesForm code front form) (offset : ℕ) :
    Reader.Reads (directForm code) offset front form.code := by
  intro rest
  induction h generalizing offset with
  | direct hform =>
    rw [directForm, if_neg fun hcode => hform (Form.code_injective hcode)]
    rfl
  | @indirect code front form h ih =>
    have hread := Reader.reads_uleb128Short offset code (front ++ rest)
    rw [directForm, if_pos rfl, List.append_assoc]
    split
    · simp_all
    · rename_i actual next hactual
      rw [hread] at hactual
      cases hactual
      rw [ih, List.length_append, Nat.add_assoc]

theorem exists_lineOffset {form : Form} {offset : ℕ} {bytes : List UInt8}
    (h : encoding.WritesLineOffset form offset bytes) (implicit : Bool) :
    ∃ value, lineOffset? encoding value = some offset ∧
      ∀ place, (readDirect encoding implicit form.code).Reads place bytes value := by
  unfold readDirect
  rw [Form.ofCode?_code]
  cases h with
  | secOffset hlt =>
    refine ⟨.sectionOffset offset, rfl, ?_⟩
    exact fun place => (Reader.reads_word _ _ place hlt).map _
  | data4 hformat hlt =>
    refine ⟨.fourBytes offset, by simp [lineOffset?, hformat], ?_⟩
    exact fun place => (Reader.reads_fixed _ 4 place hlt).map _
  | data8 hformat hlt =>
    refine ⟨.eightBytes offset, by simp [lineOffset?, hformat], ?_⟩
    exact fun place => (Reader.reads_fixed _ 8 place hlt).map _

theorem exists_base {form : Form} {base : ℕ} {bytes : List UInt8}
    (h : encoding.WritesBase form base bytes) (implicit : Bool) :
    ∃ value, value = sectionOffset base ∧
      ∀ place, (readDirect encoding implicit form.code).Reads place bytes value := by
  unfold readDirect
  rw [Form.ofCode?_code]
  cases h with
  | secOffset hlt => exact ⟨_, rfl, fun place => (Reader.reads_word _ _ place hlt).map _⟩

theorem stringAt_getD {layout : FormLayout} {target : StringSection} {offset : ℕ} {text : String}
    (h : layout.Holds target offset text) :
    stringAt ((layout.strings.get? target).getD []) offset = .ok text := by
  obtain ⟨bytes, hbytes, hholds⟩ := h
  rw [hbytes]
  exact stringAt_of_holds hholds

theorem string_strIndex {strings : StringSections} {base index : ℕ} {text : String}
    (h : (encoding.layout strings base).HoldsIndexed index text) :
    string encoding { strings with strOffsetsBase := base } (.strIndex index) = .ok text := by
  obtain ⟨before, after, offset, bytes, hbytes, rfl, hplace, hlt, hoffset, hholds⟩ := h
  set word := encoding.order.bytes encoding.format.wordSize offset
  replace hbytes : strings.debugStrOffsets = some (before ++ word ++ after) := hbytes
  replace hplace : before.length = base + index * encoding.format.wordSize := hplace
  have hbase : Cursor.at? (before ++ word ++ after) base =
      .ok ⟨base, before.drop base ++ (word ++ after)⟩ := by
    refine Reader.at?_eq_ok.2 ⟨by simp; omega, ?_⟩
    rw [List.append_assoc, List.drop_append_of_le_length (by omega)]
  have hskip := Reader.reads_skip base (before.drop base) (word ++ after)
  rw [List.length_drop, show before.length - base = index * encoding.format.wordSize by omega]
    at hskip
  have hword := Reader.reads_word encoding.order encoding.format
    (base + index * encoding.format.wordSize) hoffset after
  have hsmall : index * encoding.format.wordSize % 0x10000000000000000 =
      index * encoding.format.wordSize := Nat.mod_eq_of_lt (by omega)
  unfold string
  dsimp only
  rw [hbytes, Option.getD_some, hbase, hsmall]
  change (Reader.skip _ ⟨base, before.drop base ++ (word ++ after)⟩ >>= _) = _
  rw [hskip]
  change (Reader.word _ _ ⟨base + index * encoding.format.wordSize, word ++ after⟩ >>= _) = _
  rw [hword]
  exact stringAt_getD hholds

theorem exists_text {strings : StringSections} {base : ℕ} {form : Form} {text : String}
    {bytes : List UInt8} (h : (encoding.layout strings base).WritesText form text bytes)
    (implicit : Bool) :
    ∃ value, string encoding { strings with strOffsetsBase := base } value = .ok text ∧
      ∀ place, (readDirect encoding implicit form.code).Reads place bytes value := by
  unfold readDirect
  rw [Form.ofCode?_code]
  cases h with
  | inline hzero =>
    refine ⟨.text (Utf8.encode text), congrArg Except.ok (Utf8.decode_encode text), ?_⟩
    exact fun place => (Reader.reads_terminatedBytes hzero place).map _
  | @strp offset _ hlt hholds =>
    refine ⟨.strOffset offset, stringAt_getD hholds, ?_⟩
    exact fun place => (Reader.reads_word _ _ place hlt).map _
  | @lineStrp offset _ hlt hholds =>
    refine ⟨.lineStrOffset offset, stringAt_getD hholds, ?_⟩
    exact fun place => (Reader.reads_word _ _ place hlt).map _
  | @strx index _ _ hform hlt hholds =>
    have hindex : (UInt64.ofNat index).toNat = index := by simpa using hlt
    have hread (place : ℕ) := (Reader.reads_uleb128_ofNat place hlt).bind_pure
      fun n => AttributeValue.strIndex n.toNat
    rw [hindex] at hread
    refine ⟨.strIndex index, string_strIndex hholds, ?_⟩
    rcases hform with rfl | rfl
    · exact hread
    · exact hread
  | @strxFixed index _ _ width bound hform hlt hholds =>
    have hread (hfits : index < 256 ^ width) (place : ℕ) :=
      (Reader.reads_fixed encoding.order width place hfits).map AttributeValue.strIndex
    refine ⟨.strIndex index, string_strIndex hholds, ?_⟩
    simp only [List.mem_cons, Prod.mk.injEq, List.not_mem_nil, or_false] at hform
    rcases hform with ⟨rfl, rfl, rfl⟩ | ⟨rfl, rfl, rfl⟩ | ⟨rfl, rfl, rfl⟩ | ⟨rfl, rfl, rfl⟩
    all_goals exact hread hlt

end AttributeValue

namespace WrittenAttribute

variable {attr : WrittenAttribute} {encoding : UnitEncoding}

theorem holds_of_form {stands : Form → List UInt8 → Prop} (form : Form)
    (hform : attr.form = form.code) (hdirect : form ≠ .indirect) (h : stands form attr.value) :
    attr.Holds stands :=
  ⟨[], form, attr.value, .of_code form hform hdirect, h, rfl⟩

theorem decodes_of_names {front bytes : List UInt8} {form : Form} {value : AttributeValue}
    (hform : NamesForm attr.form front form) (hvalue : attr.value = front ++ bytes)
    (hreads : ∀ place, (AttributeValue.readDirect encoding attr.spec.implicit form.code).Reads
      place bytes value) : attr.Decodes encoding value := by
  intro offset rest
  rw [hvalue]
  exact Reader.Reads.bind (AttributeValue.reads_directForm hform offset) (hreads _) rest

/-- A value that stands for something is taken for it, if its form is read so. -/
theorem Holds.decodes {stands : Form → List UInt8 → Prop} {p : AttributeValue → Prop}
    (h : attr.Holds stands)
    (hdirect : ∀ form bytes, stands form bytes → ∃ value, p value ∧ ∀ place,
      (AttributeValue.readDirect encoding attr.spec.implicit form.code).Reads place bytes value) :
    ∃ value, p value ∧ attr.Decodes encoding value := by
  obtain ⟨front, form, bytes, hform, hstands, hvalue⟩ := h
  obtain ⟨value, hp, hreads⟩ := hdirect form bytes hstands
  exact ⟨value, hp, decodes_of_names hform hvalue hreads⟩

end WrittenAttribute
namespace AttributeValue

variable {encoding : UnitEncoding} {attributes : List WrittenAttribute} {name : UInt16}

/-- An attribute is found behind the values before it if it is listed, and else it is not found. -/
theorem exists_find? {p : AttributeValue → Prop}
    (h : ∀ attr ∈ attributes, ∃ value, attr.Decodes encoding value ∧ (attr.name = name → p value))
    (offset : ℕ) (rest : List UInt8) :
    ∃ result last, find? encoding name (attributes.map (·.spec))
        ⟨offset, attributes.flatMap (·.value) ++ rest⟩ = .ok (result, last) ∧
      (∀ value ∈ result, p value) ∧ (result.isSome ↔ ∃ attr ∈ attributes, attr.name = name) := by
  induction attributes generalizing offset with
  | nil => exact ⟨none, _, rfl, by simp, by simp⟩
  | cons attr attributes ih =>
    obtain ⟨⟨value, hvalue, hp⟩, hrest⟩ := List.forall_mem_cons.mp h
    have hread := hvalue offset (attributes.flatMap (·.value) ++ rest)
    rw [List.map_cons, List.flatMap_cons, List.append_assoc, find?, Reader.bind_apply, hread]
    dsimp only
    rw [DeclaredAttribute.name_spec]
    by_cases hname : attr.name = name
    · rw [if_pos hname]
      exact ⟨some value, _, rfl, by simpa using hp hname, by simp [hname]⟩
    · rw [if_neg hname]
      obtain ⟨result, last, hfind, hall, hsome⟩ := ih hrest (offset + attr.value.length)
      exact ⟨result, last, hfind, hall, by simp [hsome, hname]⟩

end AttributeValue

theorem LineAttribute.code_injective : Function.Injective LineAttribute.code := by
  intro wanted other h
  cases wanted <;> cases other <;> first | rfl | exact absurd h (by decide)

namespace UnitFacts

variable {facts : UnitFacts} {encoding : UnitEncoding} {strings : StringSections}

/-- A value tells the fact that its attribute is about. -/
def Means (facts : UnitFacts) (encoding : UnitEncoding) (strings : StringSections) :
    LineAttribute → AttributeValue → Prop
  | .lineTable, value => ∃ offset, facts.lineOffset = some offset ∧
      value.lineOffset? encoding = some offset
  | .strOffsetsBase, value => ∃ base, facts.strOffsetsBase = some base ∧
      value = .sectionOffset base
  | wanted, value => ∃ text, facts.text? wanted = some text ∧
      value.string encoding { strings with strOffsetsBase := facts.strOffsetsBase.getD 0 } =
        .ok text

theorem Means.mentions {wanted : LineAttribute} {value : AttributeValue}
    (h : facts.Means encoding strings wanted value) : facts.mentions wanted = true := by
  cases wanted with
  | _ =>
    obtain ⟨_, hfact, -⟩ := h
    exact Option.isSome_of_eq_some hfact

theorem means_of_text {wanted : LineAttribute} {value : AttributeValue} {text : String}
    (hfact : facts.text? wanted = some text)
    (hvalue : value.string encoding
      { strings with strOffsetsBase := facts.strOffsetsBase.getD 0 } = .ok text) :
    facts.Means encoding strings wanted value := by
  cases wanted with
  | lineTable | strOffsetsBase => cases hfact
  | name | compDir => exact ⟨text, hfact, hvalue⟩

theorem ToldBy.decodes {attr : WrittenAttribute} (h : facts.ToldBy encoding strings attr) :
    ∃ value, attr.Decodes encoding value ∧
      ∀ wanted : LineAttribute, attr.name = wanted.code →
        facts.Means encoding strings wanted value := by
  have hnamed {told : LineAttribute} (hname : attr.name = told.code) {value : AttributeValue}
      (hmeans : facts.Means encoding strings told value) (wanted : LineAttribute)
      (hwanted : attr.name = wanted.code) : facts.Means encoding strings wanted value := by
    rwa [← LineAttribute.code_injective (hname.symm.trans hwanted)]
  cases h with
  | lineOffset hname hfact hvalue =>
    obtain ⟨value, hmeans, hdecodes⟩ := hvalue.decodes fun _ _ hform =>
      AttributeValue.exists_lineOffset hform _
    exact ⟨value, hdecodes, hnamed hname ⟨_, hfact, hmeans⟩⟩
  | strOffsetsBase hname hfact hvalue =>
    obtain ⟨value, hmeans, hdecodes⟩ := hvalue.decodes fun _ _ hform =>
      AttributeValue.exists_base hform _
    exact ⟨value, hdecodes, hnamed hname ⟨_, hfact, hmeans⟩⟩
  | text told hname hfact hvalue =>
    obtain ⟨value, hmeans, hdecodes⟩ := hvalue.decodes fun _ _ hform =>
      AttributeValue.exists_text hform _
    exact ⟨value, hdecodes, hnamed hname (means_of_text hfact hmeans)⟩
  | other hname hvalue =>
    obtain ⟨value, hdecodes⟩ := hvalue
    exact ⟨value, hdecodes, fun wanted hwanted => absurd hwanted (hname wanted)⟩

end UnitFacts

namespace InfoEntry

/-- The entry that is found with some attributes, and then any bytes. -/
def ofWritten (encoding : UnitEncoding) (attributes : List WrittenAttribute) (offset : ℕ)
    (rest : List UInt8) : InfoEntry where
  encoding
  attributes := attributes.map (·.spec)
  values := ⟨offset, attributes.flatMap (·.value) ++ rest⟩

variable {facts : UnitFacts} {encoding : UnitEncoding} {strings : StringSections}
  {attributes : List WrittenAttribute}

/-- What is found of an attribute tells its fact, and it is found if there is such a fact. -/
theorem exists_value? (h : facts.SaidBy encoding strings attributes) (offset : ℕ)
    (rest : List UInt8) (wanted : LineAttribute) :
    ∃ result, (ofWritten encoding attributes offset rest).value? wanted = .ok result ∧
      (∀ value ∈ result, facts.Means encoding strings wanted value) ∧
      result.isSome = facts.mentions wanted := by
  have hdecodes (attr : WrittenAttribute) (hattr : attr ∈ attributes) :
      ∃ value, attr.Decodes encoding value ∧
        (attr.name = wanted.code → facts.Means encoding strings wanted value) := by
    obtain ⟨value, hvalue, hmeans⟩ := (h.told attr hattr).decodes
    exact ⟨value, hvalue, hmeans wanted⟩
  obtain ⟨result, last, hfind, hmeans, hsome⟩ :=
    AttributeValue.exists_find? hdecodes offset rest
  refine ⟨result, ?_, hmeans, ?_⟩
  · unfold value? ofWritten
    rw [hfind]
    rfl
  · rw [Bool.eq_iff_iff, hsome]
    constructor
    · rintro ⟨attr, hattr, hname⟩
      obtain ⟨value, -, hvalue⟩ := hdecodes attr hattr
      exact (hvalue hname).mentions
    · exact h.all wanted

theorem lineOffset?_of_said (h : facts.SaidBy encoding strings attributes) (offset : ℕ)
    (rest : List UInt8) :
    (ofWritten encoding attributes offset rest).lineOffset? = .ok facts.lineOffset := by
  obtain ⟨result, hresult, hmeans, hsome⟩ := exists_value? h offset rest .lineTable
  unfold lineOffset?
  rw [hresult]
  cases result with
  | none =>
    have hnone : facts.lineOffset = none := by simpa [UnitFacts.mentions] using hsome.symm
    rw [hnone]
    rfl
  | some value =>
    obtain ⟨place, hplace, hvalue⟩ := hmeans value rfl
    rw [hplace]
    exact congrArg Except.ok hvalue

theorem strOffsetsBase_of_said (h : facts.SaidBy encoding strings attributes) (offset : ℕ)
    (rest : List UInt8) :
    (ofWritten encoding attributes offset rest).strOffsetsBase =
      .ok (facts.strOffsetsBase.getD 0) := by
  obtain ⟨result, hresult, hmeans, hsome⟩ := exists_value? h offset rest .strOffsetsBase
  unfold strOffsetsBase
  rw [hresult]
  cases result with
  | none =>
    have hnone : facts.strOffsetsBase = none := by simpa [UnitFacts.mentions] using hsome.symm
    rw [hnone]
    rfl
  | some value =>
    obtain ⟨base, hbase, rfl⟩ := hmeans value rfl
    rw [hbase]
    rfl

theorem string?_of_said (h : facts.SaidBy encoding strings attributes) (offset : ℕ)
    (rest : List UInt8) {wanted : LineAttribute} (hwanted : wanted = .compDir ∨ wanted = .name) :
    (ofWritten encoding attributes offset rest).string?
      { strings with strOffsetsBase := facts.strOffsetsBase.getD 0 } wanted =
        .ok (facts.text? wanted) := by
  obtain ⟨result, hresult, hmeans, hsome⟩ := exists_value? h offset rest wanted
  have hmentions : (facts.text? wanted).isSome = facts.mentions wanted := by
    rcases hwanted with rfl | rfl <;> rfl
  unfold string?
  rw [hresult]
  cases result with
  | none =>
    have hnone : facts.text? wanted = none := by
      rw [← Option.not_isSome_iff_eq_none, hmentions, ← hsome]
      simp
    rw [hnone]
    rfl
  | some value =>
    have hvalue := hmeans value rfl
    obtain ⟨text, htext, hstring⟩ : ∃ text, facts.text? wanted = some text ∧ value.string encoding
        { strings with strOffsetsBase := facts.strOffsetsBase.getD 0 } = .ok text := by
      rcases hwanted with rfl | rfl <;> exact hvalue
    rw [htext]
    change some <$> value.string encoding _ = _
    rw [hstring]
    rfl

end InfoEntry

/-- A unit with a line table is found from what its first entry says, and one without is not. -/
theorem InfoSections.lineUnit?_of_said {sections : InfoSections} {facts : UnitFacts}
    {encoding : UnitEncoding} {attributes : List WrittenAttribute}
    (h : facts.SaidBy encoding sections.strings attributes) (index offset : ℕ)
    (rest : List UInt8) :
    sections.lineUnit? index (.ofWritten encoding attributes offset rest) =
      .ok (facts.lineUnit? sections.strings encoding.addressSize index) := by
  unfold InfoSections.lineUnit? UnitFacts.lineUnit?
  rw [InfoEntry.lineOffset?_of_said h]
  cases facts.lineOffset with
  | none => rfl
  | some place =>
    have hcompDir := InfoEntry.string?_of_said h offset rest (.inl rfl)
    have hname := InfoEntry.string?_of_said h offset rest (.inr rfl)
    change (InfoEntry.strOffsetsBase _ >>= _) = _
    rw [InfoEntry.strOffsetsBase_of_said h]
    change (InfoEntry.string? _ _ _ >>= _) = _
    rw [hcompDir]
    change (InfoEntry.string? _ _ _ >>= _) = _
    rw [hname]
    rfl

end DwarfLines
