import Mathlib
import DwarfLines.Assembly.Info
import DwarfLines.Proofs.Bytes.Reads
import DwarfLines.Proofs.Bytes.Gives

/-!
# Reading abbreviations

A number of sixteen bits has at most three bytes, and is read back from them. A declaration is
read back with its attributes, and a table with its declarations, up to its end or that of its
section, as long as no code is declared twice.
-/

namespace DwarfLines

theorem Leb128.unsignedBytes_of_lt {n : ℕ} (h : n < 128) : unsignedBytes n = [UInt8.ofNat n] := by
  rw [unsignedBytes, if_pos h]

theorem Leb128.unsignedBytes_of_le {n : ℕ} (h : 128 ≤ n) :
    unsignedBytes n = UInt8.ofNat (n % 128 + 128) :: unsignedBytes (n / 128) := by
  rw [unsignedBytes, if_neg (Nat.not_lt.mpr h)]

namespace Reader

theorem Consuming.not_atEnd {ε α : Type} {reader : Reader ε α} (h : reader.Consuming)
    {c d : Cursor} {a : α} (hread : reader c = .ok (a, d)) : ¬ c.atEnd = true := by
  intro hend
  have hlt := Cursor.length_lt (h hread)
  rw [List.isEmpty_iff.mp hend] at hlt
  cases hlt

theorem reads_uleb128Short (offset : ℕ) (n : UInt16) :
    uleb128Short.Reads offset (Leb128.unsignedBytes n.toNat) n := by
  have hn := n.toNat_lt
  have hbyte {m : ℕ} (hm : m < 256) : (UInt8.ofNat m).toNat = m := by
    rw [UInt8.toNat_ofNat', Nat.mod_eq_of_lt hm]
  have hsmall {m : ℕ} (hm : m < 256) : UInt8.ofNat m < 0x80 ↔ m < 128 := by
    rw [UInt8.lt_iff_toNat_lt, hbyte hm]
    rfl
  unfold uleb128Short
  by_cases hone : n.toNat < 128
  · rw [Leb128.unsignedBytes_of_lt hone]
    refine (reads_byte offset _).bind_nil ?_
    rw [if_pos ((hsmall (by omega)).mpr hone)]
    have hvalue : (UInt8.ofNat n.toNat).toUInt16 = n := by
      rw [← UInt16.toNat_inj, UInt8.toNat_toUInt16, hbyte (by omega)]
    rw [hvalue]
    exact reads_pure _ _
  · rw [Leb128.unsignedBytes_of_le (by omega)]
    refine (reads_byte offset (UInt8.ofNat (n.toNat % 128 + 128))).bind ?_
    rw [if_neg (mt (hsmall (by omega)).mp (by omega))]
    by_cases htwo : n.toNat / 128 < 128
    · rw [Leb128.unsignedBytes_of_lt htwo]
      refine (reads_byte _ (UInt8.ofNat (n.toNat / 128))).bind_nil ?_
      rw [if_pos ((hsmall (by omega)).mpr htwo), hbyte (by omega), hbyte (by omega)]
      have hvalue : UInt16.ofNat (n.toNat % 128 + 128 - 128 + 128 * (n.toNat / 128)) = n := by
        rw [show n.toNat % 128 + 128 - 128 + 128 * (n.toNat / 128) = n.toNat by omega]
        exact UInt16.ofNat_toNat
      rw [hvalue]
      exact reads_pure _ _
    · rw [Leb128.unsignedBytes_of_le (by omega)]
      refine (reads_byte _ (UInt8.ofNat (n.toNat / 128 % 128 + 128))).bind ?_
      rw [if_neg (mt (hsmall (by omega)).mp (by omega)), Leb128.unsignedBytes_of_lt (by omega)]
      refine (reads_byte _ (UInt8.ofNat (n.toNat / 128 / 128))).bind_nil ?_
      have hhigh : ¬ UInt8.ofNat (n.toNat / 128 / 128) > 3 := by
        rw [gt_iff_lt, UInt8.lt_iff_toNat_lt, hbyte (by omega)]
        change ¬ 3 < n.toNat / 128 / 128
        omega
      have hvalue : n.toNat % 128 + 128 - 128 + 128 * (n.toNat / 128 % 128 + 128 - 128) +
          16384 * (n.toNat / 128 / 128) = n.toNat := by
        omega
      rw [if_neg hhigh, hbyte (by omega), hbyte (by omega), hbyte (by omega), hvalue,
        UInt16.ofNat_toNat]
      exact reads_pure _ _

end Reader

namespace DeclaredAttribute

variable {attr : DeclaredAttribute}

@[simp] theorem name_spec (attr : DeclaredAttribute) : attr.spec.name = attr.name := rfl

theorem reads_bytes (h : attr.isWritable = true) (offset : ℕ) :
    AttributeSpec.read.Reads offset attr.bytes (some attr.spec) := by
  obtain ⟨name, form, implicit⟩ := attr
  simp only [isWritable, Bool.and_eq_true, bne_iff_ne, ne_eq, beq_iff_eq] at h
  obtain ⟨⟨hname, hform⟩, himplicit⟩ := h
  unfold bytes AttributeSpec.read
  rw [List.append_assoc]
  refine (Reader.reads_uleb128Short offset name).bind ((Reader.reads_uleb128Short _ form).bind ?_)
  unfold AttributeSpec.readForm
  rw [if_neg hname, if_neg hform]
  cases implicit with
  | none =>
    rw [if_neg (by simpa using himplicit)]
    exact Reader.reads_pure _ _
  | some value =>
    rw [if_pos (by simpa using himplicit)]
    exact (Reader.reads_sleb128 _ value).bind_pure _

theorem reads_end (offset : ℕ) : AttributeSpec.read.Reads offset [0, 0] none := by
  have hzero (offset : ℕ) : Reader.uleb128Short.Reads offset [0] 0 := fun _ => rfl
  exact (hzero offset).bind ((hzero _).bind_nil (Reader.reads_pure _ _))

theorem reads_list {attributes : List DeclaredAttribute}
    (h : ∀ attr ∈ attributes, attr.isWritable = true) (offset : ℕ) :
    Reader.Reads (Reader.untilNone AttributeSpec.read AttributeSpec.consuming_read) offset
      (attributes.flatMap bytes ++ [0, 0]) (attributes.map spec) := by
  induction attributes generalizing offset with
  | nil => exact (reads_end offset).untilNone_nil
  | cons attr attributes ih =>
    obtain ⟨hattr, hrest⟩ := List.forall_mem_cons.mp h
    rw [List.flatMap_cons, List.append_assoc]
    exact (reads_bytes hattr offset).untilNone_cons (ih hrest _)

end DeclaredAttribute

namespace DeclaredAbbreviation

variable {declared : DeclaredAbbreviation}

@[simp] theorem code_found (declared : DeclaredAbbreviation) :
    declared.found.code = declared.code := rfl

theorem reads_bytes (h : declared.isWritable = true) (offset : ℕ) :
    Abbreviation.read.Reads offset declared.bytes (some declared.found) := by
  simp only [isWritable, Bool.and_eq_true, bne_iff_ne, ne_eq, List.all_eq_true] at h
  obtain ⟨⟨hcode, htag⟩, hattributes⟩ := h
  unfold bytes Abbreviation.read
  refine (Reader.reads_uleb128 offset declared.code).bind ?_
  rw [if_neg hcode]
  refine Reader.Reads.map ?_ _
  unfold bodyBytes Abbreviation.readBody
  refine (Reader.reads_uleb128Short _ declared.tag).bind ?_
  rw [if_neg htag]
  refine (Reader.reads_byte _ _).bind ?_
  rw [if_neg (by cases declared.children <;> decide)]
  exact (DeclaredAttribute.reads_list hattributes _).bind_pure _

theorem listFrom_end {after : List UInt8} (h : after = [] ∨ ∃ more, after = 0 :: more)
    (known : List Abbreviation) (offset : ℕ) :
    Abbreviation.listFrom known ⟨offset, after⟩ = .ok known := by
  rcases h with rfl | ⟨more, rfl⟩
  · rw [Abbreviation.listFrom]
    rfl
  · have hread : Abbreviation.read ⟨offset, 0 :: more⟩ = .ok (none, ⟨offset + 1, more⟩) := rfl
    rw [Abbreviation.listFrom, if_neg (by simp [Cursor.atEnd])]
    split
    · simp_all
    · rfl
    · simp_all

/-- A declaration that is read adds to what is known, unless its code is known. -/
theorem listFrom_cons {known : List Abbreviation} {c next : Cursor} {found : Abbreviation}
    (hread : Abbreviation.read c = .ok (some found, next))
    (hnew : found.code ∉ known.map (·.code)) :
    Abbreviation.listFrom known c = Abbreviation.listFrom (known ++ [found]) next := by
  have hany : ¬ known.any (·.code == found.code) = true := by
    intro hknown
    obtain ⟨declared, hmem, hcode⟩ := List.any_eq_true.mp hknown
    exact hnew (List.mem_map.mpr ⟨declared, hmem, beq_iff_eq.mp hcode⟩)
  rw [Abbreviation.listFrom, if_neg (Abbreviation.consuming_read.not_atEnd hread)]
  split
  · simp_all
  · simp_all
  · rename_i declared after hdeclared
    rw [hread] at hdeclared
    cases hdeclared
    rw [if_neg hany]

theorem listFrom_table {table : List DeclaredAbbreviation} {after : List UInt8}
    (hafter : after = [] ∨ ∃ more, after = 0 :: more)
    (hwritable : ∀ declared ∈ table, declared.isWritable = true) (known : List Abbreviation)
    (hcodes : (known.map (·.code) ++ table.map (·.code)).Nodup) (offset : ℕ) :
    Abbreviation.listFrom known ⟨offset, table.flatMap bytes ++ after⟩ =
      .ok (known ++ table.map found) := by
  induction table generalizing known offset with
  | nil =>
    rw [List.map_nil, List.append_nil]
    exact listFrom_end hafter known offset
  | cons declared table ih =>
    obtain ⟨hdeclared, hrest⟩ := List.forall_mem_cons.mp hwritable
    have hread := reads_bytes hdeclared offset (table.flatMap bytes ++ after)
    have hnew : declared.found.code ∉ known.map (·.code) := by
      intro hmem
      exact List.disjoint_of_nodup_append hcodes hmem List.mem_cons_self
    rw [List.flatMap_cons, List.append_assoc, listFrom_cons hread hnew, ih hrest]
    · simp
    · simpa using hcodes

/-- The table at an offset of its section is read back. -/
theorem listAt_of_holdsTable {bytes : List UInt8} {offset : ℕ} {table : List DeclaredAbbreviation}
    (h : HoldsTable bytes offset table)
    (hwritable : ∀ declared ∈ table, declared.isWritable = true)
    (hcodes : (table.map (·.code)).Nodup) :
    Abbreviation.listAt bytes offset = .ok (table.map found) := by
  obtain ⟨before, after, rfl, rfl, hafter⟩ := h
  have hat : Cursor.at? (before ++ (table.flatMap DeclaredAbbreviation.bytes ++ after))
      before.length =
        .ok ⟨before.length, table.flatMap DeclaredAbbreviation.bytes ++ after⟩ :=
    Reader.at?_eq_ok.2 ⟨by simp, by rw [List.drop_left]⟩
  unfold Abbreviation.listAt
  rw [hat]
  exact listFrom_table hafter hwritable [] hcodes before.length

end DeclaredAbbreviation
end DwarfLines
