import Mathlib
import DwarfLines.Dwarf.FormValue
import DwarfLines.Proofs.Bytes.Gives

/-!
# Skipping what can be read

A column that means nothing is skipped, and one that means something is read. The forms of strings
and of unsigned numbers are laid out by one table for reading and by another for skipping; whatever
can be read by the first can be skipped by the second, and the column after it begins at the same
place.
-/

namespace DwarfLines

namespace Reader

variable {ε α β : Type}

/-- Wherever a reader gives a value, the other one passes over it and ends where the reader does. -/
def SkippedBy (reader : Reader ε α) (skipper : Reader ε Unit) : Prop :=
  ∀ ⦃c a d⦄, reader c = .ok (a, d) → skipper c = .ok ((), d)

theorem skippedBy_reject (fault : FormatFault) (skipper : Reader LineError Unit) :
    (reject fault : Reader LineError α).SkippedBy skipper := by
  intro c a d hread
  cases hread

theorem skippedBy_discard (reader : Reader ε α) :
    reader.SkippedBy (do let _ ← reader) := by
  intro c a d hread
  exact bind_eq_ok.2 ⟨a, d, hread, rfl⟩

theorem skippedBy_fixed (order : ByteOrder) (width : ℕ) :
    (fixed order width).SkippedBy (skip width) := by
  intro c n d hread
  obtain ⟨bytes, last, htake, hvalue⟩ := bind_eq_ok.1 hread
  cases hvalue
  exact bind_eq_ok.2 ⟨bytes, d, htake, rfl⟩

variable {reader : Reader ε α} {skipper : Reader ε Unit}

/-- What becomes of a value does not matter, as long as nothing more is read. -/
theorem SkippedBy.bind_lift (h : reader.SkippedBy skipper) (result : α → Except ε β) :
    (reader >>= fun a => (liftM (result a) : Reader ε β)).SkippedBy skipper := by
  intro c b e hread
  obtain ⟨a, d, hvalue, hresult⟩ := bind_eq_ok.1 hread
  obtain ⟨-, rfl⟩ := lift_except_eq_ok hresult
  exact h hvalue

theorem SkippedBy.bind_pure (h : reader.SkippedBy skipper) (f : α → β) :
    (reader >>= fun a => (pure (f a) : Reader ε β)).SkippedBy skipper :=
  h.bind_lift fun a => .ok (f a)

theorem SkippedBy.lift {reader : Reader ReadError α} {skipper : Reader ReadError Unit}
    (h : reader.SkippedBy skipper) :
    (liftM reader : Reader LineError α).SkippedBy (liftM skipper) := by
  intro c a d hread
  exact lift_eq_ok.2 (h (lift_eq_ok.1 hread))

end Reader

namespace FormLayout

variable (layout : FormLayout)

/-- Every string that can be read can be skipped. -/
theorem skippedBy_string (code : UInt16) : (layout.string code).SkippedBy (layout.skip code) := by
  unfold string skip
  cases Form.ofCode? code with
  | none => exact Reader.skippedBy_reject _ _
  | some form =>
    -- One alternative for each layout that strings have; reading refuses all other forms.
    have hword := (Reader.skippedBy_fixed layout.order layout.format.wordSize).lift
    have hfixed (width : ℕ) := (Reader.skippedBy_fixed layout.order width).lift
    cases form with
    | string => exact (Reader.skippedBy_discard _).bind_pure _
    | strp | lineStrp | strpSup => exact hword.bind_lift _
    | strx => exact (Reader.skippedBy_discard _).bind_lift _
    | strx1 => exact (hfixed 1).bind_lift _
    | strx2 => exact (hfixed 2).bind_lift _
    | strx4 => exact (hfixed 4).bind_lift _
    | _ => exact Reader.skippedBy_reject _ _

theorem skippedBy_unsigned (code : UInt16) :
    (layout.unsigned code).SkippedBy (layout.skip code) := by
  unfold unsigned skip
  cases Form.ofCode? code with
  | none => exact Reader.skippedBy_reject _ _
  | some form =>
    have hfixed (width : ℕ) := (Reader.skippedBy_fixed layout.order width).lift
    cases form with
    | data1 => exact (hfixed 1).bind_pure _
    | data2 => exact (hfixed 2).bind_pure _
    | data4 => exact (hfixed 4).bind_pure _
    | data8 => exact (hfixed 8).bind_pure _
    | udata => exact Reader.skippedBy_discard _
    | _ => exact Reader.skippedBy_reject _ _

/-- Reading a value and skipping it agree: where a string or an unsigned number of a form can be
read, a value of the same form can be skipped, and both leave the same place. -/
theorem skip_of_read {code : UInt16} {c d : Cursor}
    (h : (∃ text, layout.string code c = .ok (text, d)) ∨
      ∃ n, layout.unsigned code c = .ok (n, d)) :
    layout.skip code c = .ok ((), d) := by
  rcases h with ⟨text, htext⟩ | ⟨n, hnumber⟩
  · exact layout.skippedBy_string code htext
  · exact layout.skippedBy_unsigned code hnumber

/-- A number and the index of a string, both written with more bytes than they need, are skipped
with all of them. -/
theorem skip_of_read_padded :
    let layout : FormLayout :=
      ⟨.big, .dwarf64, 8, { debugStr := some [0x61, 0], debugStrOffsets := some (.replicate 8 0) }⟩
    (layout.unsigned Form.udata.code ⟨7, [0x85, 0x80, 0x00, 0x2a]⟩ = .ok (5, ⟨10, [0x2a]⟩) ∧
      layout.skip Form.udata.code ⟨7, [0x85, 0x80, 0x00, 0x2a]⟩ = .ok ((), ⟨10, [0x2a]⟩)) ∧
    layout.string Form.strx.code ⟨0, [0x80, 0x00, 0x2a]⟩ = .ok ("a", ⟨2, [0x2a]⟩) ∧
      layout.skip Form.strx.code ⟨0, [0x80, 0x00, 0x2a]⟩ = .ok ((), ⟨2, [0x2a]⟩) := by
  intro layout
  have hnumber : layout.unsigned Form.udata.code ⟨7, [0x85, 0x80, 0x00, 0x2a]⟩ =
      .ok (5, ⟨10, [0x2a]⟩) := rfl
  have htext : layout.string Form.strx.code ⟨0, [0x80, 0x00, 0x2a]⟩ =
      .ok ("a", ⟨2, [0x2a]⟩) := by
    decide +kernel
  exact ⟨⟨hnumber, layout.skip_of_read (.inr ⟨5, hnumber⟩)⟩, htext,
    layout.skip_of_read (.inl ⟨"a", htext⟩)⟩

end FormLayout
end DwarfLines
