import Mathlib
import DwarfLines.Proofs.Bytes.Checking
import DwarfLines.Proofs.Files.Pieces
import DwarfLines.Proofs.Header.Integrity

/-!
# Reading lists, checked

A path is judged by its first three bytes, which are only looked at if there are as many. A value
is only asked for in a form that its column was allowed to have, so no list is refused for a form
that is not one of a string or of a number.
-/

namespace DwarfLines

namespace Utf8

theorem encodeChar_cases (c : Char) :
    (c.toNat < 128 ∧ String.utf8EncodeChar c = [UInt8.ofNat c.toNat]) ∨
      (128 ≤ c.toNat ∧ ∃ b tail, String.utf8EncodeChar c = b :: tail ∧ 128 ≤ b.toNat) := by
  have hvalid : c.toNat < 0x110000 := by
    rcases c.valid with h | ⟨-, h⟩
    · exact lt_trans h (by decide)
    · exact h
  change (c.val.toNat < 128 ∧ _) ∨ (128 ≤ c.val.toNat ∧ _)
  change c.val.toNat < 0x110000 at hvalid
  unfold String.utf8EncodeChar
  dsimp only
  split_ifs with hone htwo hthree
  · exact .inl ⟨by omega, rfl⟩
  · refine .inr ⟨by omega, _, _, rfl, ?_⟩
    simp
    omega
  · refine .inr ⟨by omega, _, _, rfl, ?_⟩
    simp
    omega
  · refine .inr ⟨by omega, _, _, rfl, ?_⟩
    simp
    omega

end Utf8

namespace Path

def isLetter (b : UInt8) : Bool := (65 ≤ b && b ≤ 90) || (97 ≤ b && b ≤ 122)

/-- Whether a path names its root, by its first bytes; each of them is checked to be there. -/
def isAbsolute? (path : String) : Option Bool :=
  if path.toList.head?.any isSeparator then
    some true
  else if 3 ≤ (Utf8.encode path).length then do
    let first ← (Utf8.encode path)[0]?
    if isLetter first then
      let second ← (Utf8.encode path)[1]?
      if second = 58 then
        let third ← (Utf8.encode path)[2]?
        return isSeparator (Char.ofNat third.toNat)
      else
        return false
    else
      return false
  else
    some false

theorem isLetter_iff (b : UInt8) :
    isLetter b = true ↔ (65 ≤ b.toNat ∧ b.toNat ≤ 90) ∨ (97 ≤ b.toNat ∧ b.toNat ≤ 122) := by
  simp [isLetter, UInt8.le_iff_toNat_le]

theorem isAlpha_iff (c : Char) :
    c.isAlpha = true ↔ (65 ≤ c.toNat ∧ c.toNat ≤ 90) ∨ (97 ≤ c.toNat ∧ c.toNat ≤ 122) := by
  simp only [Char.isAlpha, Char.isUpper, Char.isLower, Bool.or_eq_true, Bool.and_eq_true,
    decide_eq_true_eq, UInt32.le_iff_toNat_le, ge_iff_le]
  exact Iff.rfl

theorem isSeparator_iff (c : Char) : isSeparator c = true ↔ c.toNat = 47 ∨ c.toNat = 92 := by
  simp only [isSeparator, Bool.or_eq_true, beq_iff_eq, ← Char.toNat_inj]
  exact Iff.rfl

/-- What a path is judged by shows in the first byte of a character, and a letter or a colon has no
other bytes. -/
structure FirstByte (c : Char) (b : UInt8) (tail : List UInt8) : Prop where
  bytes : String.utf8EncodeChar c = b :: tail
  isLetter : isLetter b = c.isAlpha
  isColon : b = 58 ↔ c = ':'
  isSeparator : isSeparator (Char.ofNat b.toNat) = isSeparator c
  alone : c.toNat < 128 → tail = []

theorem exists_firstByte (c : Char) : ∃ b tail, FirstByte c b tail := by
  have hcolon (b : UInt8) : (b = 58 ↔ c = ':') ↔ (b.toNat = 58 ↔ c.toNat = 58) := by
    rw [← UInt8.toNat_inj, ← Char.toNat_inj]
    exact Iff.rfl
  rcases Utf8.encodeChar_cases c with ⟨hc, hbytes⟩ | ⟨hc, b, tail, hbytes, hb⟩
  · have hnat : (UInt8.ofNat c.toNat).toNat = c.toNat :=
      UInt8.toNat_ofNat_of_lt' (lt_trans hc (by decide))
    refine ⟨_, _, hbytes, ?_, ?_, ?_, fun _ => rfl⟩
    · rw [Bool.eq_iff_iff, isLetter_iff, isAlpha_iff, hnat]
    · rw [hcolon, hnat]
    · rw [hnat, Char.ofNat_toNat]
  · have hnat : (Char.ofNat b.toNat).toNat = b.toNat := by
      have hlt := b.toNat_lt
      rw [Char.toNat_ofNat, if_pos (.inl (by omega))]
    refine ⟨b, tail, hbytes, ?_, ?_, ?_, fun hlt => absurd hlt (by omega)⟩
    · rw [Bool.eq_iff_iff, isLetter_iff, isAlpha_iff]
      omega
    · rw [hcolon]
      omega
    · rw [Bool.eq_iff_iff, isSeparator_iff, isSeparator_iff, hnat]
      omega

/-- No byte is looked at that a path does not have. -/
theorem isAbsolute?_eq (path : String) : isAbsolute? path = some (isAbsolute path) := by
  unfold isAbsolute? isAbsolute Utf8.encode
  generalize path.toList = chars
  cases chars with
  | nil => rfl
  | cons c rest =>
    obtain ⟨b, tail, hfirst⟩ := exists_firstByte c
    by_cases hseparator : isSeparator c = true
    · simp [hseparator]
    · simp only [List.head?_cons, Option.any_some, hseparator, List.flatMap_cons, hfirst.bytes]
      by_cases halpha : c.isAlpha = true
      · have hascii : c.toNat < 128 := by
          rw [isAlpha_iff] at halpha
          omega
        obtain rfl := hfirst.alone hascii
        have hletter := hfirst.isLetter.trans halpha
        cases rest with
        | nil => simp
        | cons d more =>
          obtain ⟨second, tail, hsecond⟩ := exists_firstByte d
          by_cases hcolon : d = ':'
          · subst hcolon
            obtain rfl := hsecond.alone (by decide)
            obtain rfl := hsecond.isColon.mpr rfl
            cases more with
            | nil => simp [hsecond.bytes]
            | cons e last =>
              obtain ⟨third, tail, hthird⟩ := exists_firstByte e
              simp [hsecond.bytes, hthird.bytes, hletter, halpha, hthird.isSeparator]
          · have hne : second ≠ 58 := fun heq => hcolon (hsecond.isColon.mp heq)
            simp [hsecond.bytes, hne, hcolon]
      · have hletter : isLetter b = false := by simpa [hfirst.isLetter] using halpha
        simp [halpha, hletter]
end Path

namespace FormLayout

variable (layout : FormLayout)

theorem external_stringIn (target : StringSection) (form : Form) (offset : ℕ) :
    External (layout.stringIn target form offset) := by
  apply External.bind
  · unfold sectionFor
    cases layout.strings.get? target with
    | none => exact external_error rfl
    | some bytes => exact external_ok bytes
  · intro bytes
    exact external_ofRead _

theorem external_indexedString (form : Form) (index : UInt64) :
    External (layout.indexedString form index) := by
  apply External.bind
  · unfold sectionFor
    cases layout.strings.get? .debugStrOffsets with
    | none => exact external_error rfl
    | some bytes => exact external_ok bytes
  · intro offsets
    dsimp only
    split_ifs
    · exact (external_ofRead _).bind fun _ => layout.external_stringIn _ _ _
    · exact external_error rfl

theorem external_string {code : UInt16} (h : EntryColumn.isPathForm code = true) :
    (layout.string code).External := by
  have offset (target : StringSection) (form : Form) :
      (do layout.stringIn target form (← Reader.word layout.order layout.format) :
        Reader LineError String).External :=
    (Reader.external_lift _).bind fun _ =>
      Reader.external_lift_except (layout.external_stringIn _ _ _)
  have index (form : Form) (width : ℕ) :
      (do layout.indexedString form (UInt64.ofNat (← Reader.fixed layout.order width)) :
        Reader LineError String).External :=
    (Reader.external_lift _).bind fun _ =>
      Reader.external_lift_except (layout.external_indexedString _ _)
  unfold string
  split
  · exact (Reader.external_lift _).bind_pure _
  · exact offset _ _
  · exact offset _ _
  · exact offset _ _
  · exact (Reader.external_lift _).bind fun _ =>
      Reader.external_lift_except (layout.external_indexedString _ _)
  · exact index _ _
  · exact index _ _
  · exact index _ _
  · unfold EntryColumn.isPathForm at h
    split at h <;> simp_all

theorem external_unsigned {code : UInt16}
    (h : code ∈ [Form.data1, .data2, .data4, .data8, .udata].map Form.code) :
    (layout.unsigned code).External := by
  obtain ⟨form, hform, rfl⟩ := List.mem_map.mp h
  unfold unsigned
  rw [Form.ofCode?_code]
  simp only [List.mem_cons, List.not_mem_nil, or_false] at hform
  rcases hform with rfl | rfl | rfl | rfl | rfl
  · exact (Reader.external_lift _).bind_pure _
  · exact (Reader.external_lift _).bind_pure _
  · exact (Reader.external_lift _).bind_pure _
  · exact (Reader.external_lift _).bind_pure _
  · exact Reader.external_lift _

theorem external_skip (code : UInt16) : (layout.skip code).External := by
  have block (reader : Reader ReadError ℕ) :
      (do Reader.skip (← reader) : Reader LineError Unit).External :=
    (Reader.external_lift _).bind fun _ => Reader.external_lift _
  unfold skip
  split
  · split
    · exact Reader.external_lift _
    · split
      all_goals try exact (Reader.external_lift _).bind_pure _
      · exact block _
      · exact block _
      · exact block _
      · exact (Reader.external_lift _).bind fun _ => Reader.external_lift _
      · exact (Reader.external_lift _).bind fun _ => Reader.external_lift _
      · exact Reader.external_reject rfl
  · exact Reader.external_reject rfl

end FormLayout

namespace Path

theorem external_normalizeDirectory (path : String) : External (normalizeDirectory path) := by
  unfold normalizeDirectory
  split_ifs
  · exact external_error rfl
  · exact external_ok _
  · exact external_ok _

theorem external_resolveDirectory (compDir raw : String) :
    External (resolveDirectory compDir raw) :=
  (external_normalizeDirectory raw).bind fun _ => external_ok _

theorem external_resolveFile (directory raw : String) : External (resolveFile directory raw) := by
  unfold resolveFile
  split_ifs
  · exact external_error rfl
  · exact external_ok _
  · exact external_ok _

end Path

namespace EntryColumn

theorem external_read : read.External := by
  apply (Reader.external_lift _).bind
  intro contentType
  apply (Reader.external_lift _).bind
  intro form
  split_ifs
  · exact Reader.external_reject rfl
  · exact Reader.external_reject rfl
  · exact Reader.external_pure _

theorem external_readDirectoryFormat : readDirectoryFormat.External := by
  apply (Reader.external_lift _).bind
  intro count
  split_ifs
  · exact Reader.external_reject rfl
  · apply external_read.bind
    intro column
    split_ifs
    · exact Reader.external_reject rfl
    · exact Reader.external_pure _
    · exact Reader.external_reject rfl

theorem external_readFileFormat : readFileFormat.External := by
  apply (Reader.external_lift _).bind
  intro count
  split_ifs
  · exact Reader.external_reject rfl
  · apply Reader.external_times
    apply external_read.bind
    intro column
    split_ifs
    · exact Reader.external_pure _
    · exact Reader.external_reject rfl

end EntryColumn

namespace FileTable

variable (layout : FormLayout)

theorem external_readColumn (entry : FileEntry) {column : EntryColumn}
    (h : column.isAllowed = true) : (readColumn layout entry column).External := by
  have hpermitted := EntryColumn.isPermitted_of_isAllowed h
  unfold readColumn
  cases hknown : ContentType.ofCode? column.contentType with
  | none => exact (layout.external_skip _).bind_pure _
  | some known =>
    have hforms := hpermitted known hknown
    cases known with
    | path =>
      have hpath : EntryColumn.isPathForm column.form = true := by
        simpa [EntryColumn.isAllowed, hknown] using h
      exact (layout.external_string hpath).bind_pure _
    | directoryIndex =>
      refine (layout.external_unsigned ?_).bind_pure _
      exact List.map_subset _ (by decide) (hforms _ rfl)
    | timestamp =>
      by_cases hblock : column.form = Form.block.code
      · simp only [hblock, if_true]
        exact (layout.external_skip _).bind_pure _
      · simp only [hblock, if_false]
        refine (layout.external_unsigned ?_).bind_pure _
        have hform := hforms _ rfl
        simp only [List.map_cons, List.map_nil, List.mem_cons, List.not_mem_nil,
          or_false] at hform ⊢
        tauto
    | size =>
      refine (layout.external_unsigned ?_).bind_pure _
      exact List.map_subset _ (by decide) (hforms _ rfl)
    | md5 => exact Reader.external_offset.bind fun _ => (layout.external_skip _).bind_pure _
    | _ => exact (layout.external_skip _).bind_pure _

theorem external_optionalCompDir (compDir : String) : External (optionalCompDir compDir) := by
  unfold optionalCompDir
  split_ifs
  · exact external_ok _
  · exact Path.external_normalizeDirectory _

theorem external_readDirectories {columns : List EntryColumn}
    (h : ∀ column ∈ columns, EntryColumn.isPathForm column.form = true) (context : UnitContext) :
    (readDirectories layout columns context).External := by
  apply (Reader.external_lift_except (external_optionalCompDir _)).bind
  intro compDir
  apply (Reader.external_lift _).bind
  intro count
  split_ifs
  · exact Reader.external_reject rfl
  · refine (Reader.external_times ?_ _).bind_pure _
    have hcolumns := Reader.external_foldlM
      (fun column hcolumn _ => layout.external_string (h column hcolumn)) ""
    apply hcolumns.bind
    intro raw
    exact Reader.external_lift_except (Path.external_resolveDirectory _ _)

theorem external_readFiles (table : FileTable) {columns : List EntryColumn}
    (h : ∀ column ∈ columns, column.isAllowed = true) :
    (readFiles layout table columns).External := by
  apply (Reader.external_lift _).bind
  intro count
  split_ifs
  · exact Reader.external_reject rfl
  · refine (Reader.external_times ?_ _).bind_pure _
    apply (Reader.external_foldlM
      (fun column hcolumn entry => external_readColumn layout entry (h column hcolumn)) _).bind
    intro entry
    exact (Reader.external_lift_except (Path.external_resolveFile _ _)).bind_pure _

theorem external_entryOf (table : FileTable) (record : FileRecord) :
    External (table.entryOf record) :=
  (Path.external_resolveFile _ _).bind fun _ => external_ok _

theorem external_define (table : FileTable) (start finish : ℕ) (record : FileRecord) :
    External (table.define start finish record) := by
  unfold define
  split_ifs
  · exact external_ok _
  · exact (table.external_entryOf record).bind fun _ => external_ok _

theorem external_readLegacy (context : UnitContext) : (readLegacy context).External := by
  apply (Reader.external_lift_except (Path.external_normalizeDirectory _)).bind
  intro compDir
  apply (Reader.external_lift _).bind
  intro names
  have hdirectories : External (legacyDirectories compDir names) :=
    (external_mapM (Path.external_resolveDirectory compDir) names).bind fun _ => external_ok _
  apply (Reader.external_lift_except hdirectories).bind
  intro directories
  apply (Reader.external_lift_except (Path.external_resolveFile _ _)).bind
  intro unitPath
  apply (Reader.external_lift _).bind
  intro records
  exact (Reader.external_lift_except (external_mapM (external_entryOf _) records)).bind_pure _

end FileTable
end DwarfLines
