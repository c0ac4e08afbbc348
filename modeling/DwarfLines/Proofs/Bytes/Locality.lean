import Mathlib
import DwarfLines.Bytes.Progress
import DwarfLines.Dwarf.Format
import DwarfLines.Proofs.Bytes.Reads

/-!
# Readers look no further than they go

A reader is local if what it gives is decided by the bytes that it takes: begun on these bytes
with anything after them, it takes them again and gives the same. A local reader that succeeds
cannot have looked at what comes later, so bytes may be added there or cut off. Only success is
local. A failure may turn into success when more bytes come. Most readers do not ask for their
offset either: they are portable, and give the same wherever their bytes stand.
-/

namespace DwarfLines

/-- The same place, with more bytes at the end. -/
def Cursor.append (c : Cursor) (more : List UInt8) : Cursor := ⟨c.offset, c.rest ++ more⟩

namespace Cursor

/-- The bytes that are passed between one place and another. -/
structure Passes (c : Cursor) (taken : List UInt8) (d : Cursor) : Prop where
  rest : c.rest = taken ++ d.rest
  offset : d.offset = c.offset + taken.length

theorem Passes.refl (c : Cursor) : c.Passes [] c := ⟨rfl, rfl⟩

theorem Passes.trans {c d e : Cursor} {taken more : List UInt8} (h : c.Passes taken d)
    (h' : d.Passes more e) : c.Passes (taken ++ more) e := by
  constructor
  · rw [h.rest, h'.rest, List.append_assoc]
  · rw [h'.offset, h.offset, List.length_append, Nat.add_assoc]

theorem Passes.unique {c d : Cursor} {taken other : List UInt8} (h : c.Passes taken d)
    (h' : c.Passes other d) : taken = other :=
  List.append_cancel_right (h.rest.symm.trans h'.rest)

theorem Passes.eq_take {c d : Cursor} {taken : List UInt8} (h : c.Passes taken d) :
    c.rest.take (d.offset - c.offset) = taken := by
  rw [h.offset, Nat.add_sub_cancel_left, h.rest, List.take_left]

end Cursor

namespace Reader

variable {ε α β : Type}

/-- A reader for which the bytes it takes decide what it gives. -/
def Local (reader : Reader ε α) : Prop :=
  ∀ ⦃c a d⦄, reader c = .ok (a, d) →
    ∃ taken, c.Passes taken d ∧ reader.Reads c.offset taken a

theorem Local.append {reader : Reader ε α} (h : reader.Local) {c d : Cursor} {a : α}
    (hread : reader c = .ok (a, d)) (more : List UInt8) :
    reader (c.append more) = .ok (a, d.append more) := by
  obtain ⟨taken, hpasses, hreads⟩ := h hread
  rw [Cursor.append, hpasses.rest, List.append_assoc, hreads, Cursor.append, hpasses.offset]

theorem Local.offset_le {reader : Reader ε α} (h : reader.Local) {c d : Cursor} {a : α}
    (hread : reader c = .ok (a, d)) : c.offset ≤ d.offset := by
  obtain ⟨taken, hpasses, -⟩ := h hread
  exact hpasses.offset ▸ Nat.le_add_right _ _

theorem Local.reads {reader : Reader ε α} (h : reader.Local) {offset : ℕ} {bytes : List UInt8}
    {a : α} (hread : reader ⟨offset, bytes⟩ = .ok (a, ⟨offset + bytes.length, []⟩)) :
    reader.Reads offset bytes a := by
  obtain ⟨taken, hpasses, hreads⟩ := h hread
  obtain rfl : bytes = taken := hpasses.rest.trans (List.append_nil taken)
  exact hreads

/-- A reader for which the bytes it takes decide what it gives, wherever they stand. -/
def Portable (reader : Reader ε α) : Prop :=
  ∀ ⦃c a d⦄, reader c = .ok (a, d) →
    ∃ taken, c.Passes taken d ∧ ∀ offset, reader.Reads offset taken a

theorem Portable.local {reader : Reader ε α} (h : reader.Portable) : reader.Local := by
  intro c a d hread
  obtain ⟨taken, hpasses, hreads⟩ := h hread
  exact ⟨taken, hpasses, hreads _⟩

/-- What is read from some bytes alone, to their end, is read from them wherever they stand. -/
theorem Portable.reads {reader : Reader ε α} (h : reader.Portable) {bytes : List UInt8} {a : α}
    (hread : reader (Cursor.start bytes) = .ok (a, ⟨bytes.length, []⟩)) (offset : ℕ) :
    reader.Reads offset bytes a := by
  obtain ⟨taken, hpasses, hreads⟩ := h hread
  obtain rfl : bytes = taken := hpasses.rest.trans (List.append_nil taken)
  exact hreads offset

theorem portable_pure (a : α) : (pure a : Reader ε α).Portable := by
  intro c b d h
  cases h
  exact ⟨[], .refl _, fun offset => reads_pure offset _⟩

theorem portable_throw (e : ε) : (throw e : Reader ε α).Portable := by
  intro c a d h
  cases h

theorem portable_reject (fault : FormatFault) : (reject fault : Reader LineError α).Portable := by
  intro c a d h
  cases h

theorem Portable.bind {reader : Reader ε α} {next : α → Reader ε β} (hr : reader.Portable)
    (hn : ∀ a, (next a).Portable) : (reader >>= next).Portable := by
  intro c b e h
  obtain ⟨a, d, hfirst, hsecond⟩ := bind_eq_ok.1 h
  obtain ⟨taken, hpasses, hreads⟩ := hr hfirst
  obtain ⟨more, hmore, hnext⟩ := hn a hsecond
  exact ⟨taken ++ more, hpasses.trans hmore, fun offset => (hreads offset).bind (hnext _)⟩

theorem Portable.bind_pure {reader : Reader ε α} (hr : reader.Portable) (f : α → β) :
    (reader >>= fun a => pure (f a)).Portable :=
  hr.bind fun _ => portable_pure _

theorem Portable.map {reader : Reader ε α} (hr : reader.Portable) (f : α → β) :
    (f <$> reader).Portable := by
  rw [map_eq_pure_bind]
  exact hr.bind_pure f

theorem Portable.lift {reader : Reader ReadError α} (hr : reader.Portable) :
    (liftM reader : Reader LineError α).Portable := by
  intro c a d h
  obtain ⟨taken, hpasses, hreads⟩ := hr (lift_eq_ok.1 h)
  exact ⟨taken, hpasses, fun offset => (hreads offset).lift⟩

theorem local_pure (a : α) : (pure a : Reader ε α).Local := (portable_pure a).local

theorem local_throw (e : ε) : (throw e : Reader ε α).Local := (portable_throw e).local

theorem local_reject (fault : FormatFault) : (reject fault : Reader LineError α).Local :=
  (portable_reject fault).local

theorem portable_lift_except (result : Except ε α) : (liftM result : Reader ε α).Portable := by
  intro c a d h
  cases result with
  | error e => cases h
  | ok b =>
    cases h
    exact ⟨[], .refl _, fun offset => reads_lift_ok offset _⟩

theorem local_lift_except (result : Except ε α) : (liftM result : Reader ε α).Local :=
  (portable_lift_except result).local

theorem local_offset : (offset : Reader ε ℕ).Local := by
  intro c a d h
  cases h
  exact ⟨[], .refl _, reads_offset _⟩

theorem Local.bind {reader : Reader ε α} {next : α → Reader ε β} (hr : reader.Local)
    (hn : ∀ a, (next a).Local) : (reader >>= next).Local := by
  intro c b e h
  obtain ⟨a, d, hfirst, hsecond⟩ := bind_eq_ok.1 h
  obtain ⟨taken, hpasses, hreads⟩ := hr hfirst
  obtain ⟨more, hmore, hnext⟩ := hn a hsecond
  rw [hpasses.offset] at hnext
  exact ⟨taken ++ more, hpasses.trans hmore, hreads.bind hnext⟩

theorem Local.bind_pure {reader : Reader ε α} (hr : reader.Local) (f : α → β) :
    (reader >>= fun a => pure (f a)).Local :=
  hr.bind fun _ => local_pure _

theorem Local.map {reader : Reader ε α} (hr : reader.Local) (f : α → β) :
    (f <$> reader).Local := by
  rw [map_eq_pure_bind]
  exact hr.bind_pure f

theorem Local.lift {reader : Reader ReadError α} (hr : reader.Local) :
    (liftM reader : Reader LineError α).Local := by
  intro c a d h
  obtain ⟨taken, hpasses, hreads⟩ := hr (lift_eq_ok.1 h)
  exact ⟨taken, hpasses, hreads.lift⟩

/-! ### Bytes and numbers -/

theorem passes_of_byte {c d : Cursor} {b : UInt8} (h : byte c = .ok (b, d)) : c.Passes [b] d := by
  obtain ⟨offset, rest⟩ := c
  cases rest with
  | nil => cases h
  | cons first rest =>
    cases h
    exact ⟨rfl, rfl⟩

theorem portable_byte : byte.Portable := by
  intro c b d h
  exact ⟨[b], passes_of_byte h, fun offset => reads_byte offset b⟩

theorem portable_take (count : ℕ) : (take count).Portable := by
  intro c a d h
  unfold take at h
  split_ifs at h with hle
  cases h
  have hlength : (c.rest.take count).length = count := List.length_take_of_le hle
  refine ⟨c.rest.take count, ⟨by simp, by rw [hlength]⟩, fun offset => ?_⟩
  have hreads := reads_take offset (c.rest.take count)
  rwa [hlength] at hreads

theorem portable_fixed (order : ByteOrder) (width : ℕ) : (fixed order width).Portable :=
  (portable_take width).bind_pure _

theorem portable_uint16 (order : ByteOrder) : (uint16 order).Portable :=
  (portable_fixed order 2).bind_pure _

theorem portable_address (order : ByteOrder) (size : UInt8) : (address order size).Portable := by
  unfold address
  split_ifs
  · exact (portable_fixed order _).bind_pure _
  · exact portable_throw _

theorem portable_skip (count : ℕ) : (skip count).Portable := (portable_take count).bind_pure _

theorem portable_word (order : ByteOrder) (format : DwarfFormat) : (word order format).Portable :=
  portable_fixed order _

theorem local_byte : byte.Local := portable_byte.local

theorem local_skip (count : ℕ) : (skip count).Local := (portable_skip count).local

theorem local_fixed (order : ByteOrder) (width : ℕ) : (fixed order width).Local :=
  (portable_fixed order width).local

theorem local_uint16 (order : ByteOrder) : (uint16 order).Local := (portable_uint16 order).local

theorem local_word (order : ByteOrder) (format : DwarfFormat) : (word order format).Local :=
  (portable_word order format).local

theorem local_initialLength (order : ByteOrder) : (initialLength order).Local := by
  refine (local_fixed order 4).bind fun first => ?_
  split_ifs
  · exact local_pure _
  · exact (local_fixed order 8).bind_pure _
  · exact local_throw _

theorem local_seek (target : ℕ) : (seek target).Local := by
  refine local_offset.bind fun current => ?_
  split_ifs
  · exact local_reject _
  · exact (local_skip _).lift

/-! ### Byte by byte -/

/-- Readers that go through the bytes one by one. With a byte one of them is done, or it goes on
as one of them and makes something of what that gives. -/
structure Bytewise {σ : Type} (readers : σ → Reader ε α) : Prop where
  nil : ∀ state offset, ∃ e, readers state ⟨offset, []⟩ = .error e
  cons : ∀ state b,
    (∃ result : Except ε α, ∀ offset rest,
      readers state ⟨offset, b :: rest⟩ = result.map fun a => (a, ⟨offset + 1, rest⟩)) ∨
    ∃ next, ∃ make : α → α, ∀ offset rest,
      readers state ⟨offset, b :: rest⟩ = (make <$> readers next) ⟨offset + 1, rest⟩

theorem Bytewise.portable {σ : Type} {readers : σ → Reader ε α} (h : Bytewise readers)
    (state : σ) : (readers state).Portable := by
  rintro ⟨offset, rest⟩ a d hread
  induction rest generalizing state offset a with
  | nil =>
    obtain ⟨e, he⟩ := h.nil state offset
    rw [he] at hread
    cases hread
  | cons b rest ih =>
    rcases h.cons state b with ⟨result, hdone⟩ | ⟨next, make, hon⟩
    · rw [hdone] at hread
      cases result with
      | error e => cases hread
      | ok value =>
        cases hread
        exact ⟨[b], ⟨rfl, rfl⟩, fun offset => hdone offset⟩
    · rw [hon, map_eq_pure_bind] at hread
      obtain ⟨value, last, hlater, hmade⟩ := bind_eq_ok.1 hread
      cases hmade
      obtain ⟨taken, hpasses, hreads⟩ := ih next (offset + 1) hlater
      have hfirst : (⟨offset, b :: rest⟩ : Cursor).Passes [b] ⟨offset + 1, rest⟩ := ⟨rfl, rfl⟩
      refine ⟨[b] ++ taken, hfirst.trans hpasses, fun start more => ?_⟩
      rw [List.append_assoc, List.singleton_append, hon, (hreads (start + 1)).map make more,
        List.length_append, Nat.add_assoc]
      rfl

theorem bytewise_terminated : Bytewise fun _ : Unit => terminated := by
  refine ⟨fun _ _ => ⟨_, rfl⟩, fun _ b => ?_⟩
  by_cases hb : b = 0
  · exact .inl ⟨.ok [], fun offset rest => by simp [terminated, terminatedFrom, hb, Except.map]⟩
  · refine .inr ⟨(), List.cons b, fun offset rest => ?_⟩
    rw [map_eq_pure_bind, bind_apply]
    simp only [terminated, terminatedFrom, if_neg hb]
    rcases terminatedFrom (offset + 1) rest with e | ⟨text, last⟩ <;> rfl

theorem portable_terminated : terminated.Portable := bytewise_terminated.portable ()

theorem local_terminated : terminated.Local := portable_terminated.local

/-- The bytes of an unsigned number that have a weight of at least `2 ^ shift`. -/
def unsignedPart (shift : ℕ) : Reader ReadError ℕ :=
  fun c => Leb128.unsignedFrom shift c.offset c.rest

theorem bytewise_unsignedPart : Bytewise unsignedPart := by
  refine ⟨fun _ _ => ⟨_, rfl⟩, fun shift b => ?_⟩
  by_cases hbad : shift = 63 ∧ b ≠ 0 ∧ b ≠ 1
  · exact .inl ⟨.error .badUnsignedLeb128,
      fun offset rest => by simp [unsignedPart, Leb128.unsignedFrom, hbad, Except.map]⟩
  · by_cases hlast : b.toNat < 128
    · refine .inl ⟨.ok b.toNat, fun offset rest => ?_⟩
      simp only [unsignedPart, Leb128.unsignedFrom, if_neg hbad, if_pos hlast, Except.map]
    · refine .inr ⟨shift + 7, fun high => b.toNat - 128 + 128 * high, fun offset rest => ?_⟩
      rw [map_eq_pure_bind, bind_apply]
      simp only [unsignedPart, Leb128.unsignedFrom, if_neg hbad, if_neg hlast]
      rcases Leb128.unsignedFrom (shift + 7) (offset + 1) rest with e | ⟨high, last⟩ <;> rfl

theorem portable_uleb128 : uleb128.Portable := by
  have hreader : uleb128 = UInt64.ofNat <$> unsignedPart 0 := by
    funext c
    rw [map_eq_pure_bind, bind_apply, uleb128, unsignedPart]
    rcases Leb128.unsignedFrom 0 c.offset c.rest with e | ⟨n, d⟩ <;> rfl
  rw [hreader]
  exact (bytewise_unsignedPart.portable 0).map _

theorem local_uleb128 : uleb128.Local := portable_uleb128.local

/-- The bytes of a signed number that have a weight of at least `2 ^ shift`. -/
def signedPart (shift : ℕ) : Reader ReadError ℤ :=
  fun c => Leb128.signedFrom shift c.offset c.rest

theorem bytewise_signedPart : Bytewise signedPart := by
  refine ⟨fun _ _ => ⟨_, rfl⟩, fun shift b => ?_⟩
  by_cases hbad : shift = 63 ∧ b ≠ 0 ∧ b ≠ 0x7f
  · exact .inl ⟨.error .badSignedLeb128,
      fun offset rest => by simp [signedPart, Leb128.signedFrom, hbad, Except.map]⟩
  · by_cases hlast : b.toNat < 128
    · refine .inl ⟨.ok (if b.toNat < 64 then (b.toNat : ℤ) else b.toNat - 128),
        fun offset rest => ?_⟩
      simp only [signedPart, Leb128.signedFrom, if_neg hbad, if_pos hlast, Except.map]
    · refine .inr ⟨shift + 7, fun high => (b.toNat - 128 : ℕ) + 128 * high, fun offset rest => ?_⟩
      rw [map_eq_pure_bind, bind_apply]
      simp only [signedPart, Leb128.signedFrom, if_neg hbad, if_neg hlast]
      rcases Leb128.signedFrom (shift + 7) (offset + 1) rest with e | ⟨high, last⟩ <;> rfl

theorem portable_sleb128 : sleb128.Portable := by
  have hreader : sleb128 = Int64.ofInt <$> signedPart 0 := by
    funext c
    rw [map_eq_pure_bind, bind_apply, sleb128, signedPart]
    rcases Leb128.signedFrom 0 c.offset c.rest with e | ⟨n, d⟩ <;> rfl
  rw [hreader]
  exact (bytewise_signedPart.portable 0).map _

/-! ### Lists -/

theorem local_times {item : Reader ε α} (h : item.Local) (count : ℕ) :
    (times item count).Local := by
  induction count with
  | zero => exact local_pure _
  | succ count ih => exact h.bind fun _ => ih.bind_pure _

theorem local_foldlM {step : β → α → Reader ε β} (h : ∀ b a, (step b a).Local) (b : β)
    (items : List α) : (items.foldlM step b).Local := by
  induction items generalizing b with
  | nil => exact local_pure b
  | cons item rest ih => exact (h b item).bind fun next => ih next

theorem local_untilNone {item : Reader ε (Option α)} (consuming : item.Consuming)
    (h : item.Local) : Local (untilNone item consuming) := by
  intro c found d hread
  fun_induction untilNone item consuming c generalizing found with
  | case1 => cases hread
  | case2 c next hitem =>
    cases hread
    obtain ⟨taken, hpasses, hreads⟩ := h hitem
    exact ⟨taken, hpasses, hreads.untilNone_nil⟩
  | case3 c a next hitem hlt more last hmore ih =>
    cases hread
    obtain ⟨taken, hpasses, hreads⟩ := h hitem
    obtain ⟨later, hlater, htail⟩ := ih hmore
    rw [hpasses.offset] at htail
    exact ⟨taken ++ later, hpasses.trans hlater, hreads.untilNone_cons htail⟩
  | case4 => cases hread

end Reader
end DwarfLines
