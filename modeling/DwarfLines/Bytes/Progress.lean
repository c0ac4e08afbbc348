import DwarfLines.Bytes.Leb128

/-!
# Readers only move forward

One cursor is at or after another if the bytes between them were passed and counted. A reader is
`Forward` if it never ends before the place it began at, and `Consuming` if it ends after it.
Every loop over the bytes of a section ends because its body is consuming.
-/

namespace DwarfLines

namespace Cursor

/-- The first cursor can be moved to the second by passing bytes. -/
instance : LE Cursor where
  le c d := ∃ taken, c.rest = taken ++ d.rest ∧ d.offset = c.offset + taken.length

/-- The first cursor can be moved to the second by passing at least one byte. -/
instance : LT Cursor where
  lt c d := c ≤ d ∧ c.offset < d.offset

theorem le_refl (c : Cursor) : c ≤ c := ⟨[], by simp⟩

theorem le_trans {c d e : Cursor} (h₁ : c ≤ d) (h₂ : d ≤ e) : c ≤ e := by
  obtain ⟨t₁, r₁, o₁⟩ := h₁
  obtain ⟨t₂, r₂, o₂⟩ := h₂
  exact ⟨t₁ ++ t₂, by simp [r₁, r₂], by simp [o₁, o₂, Nat.add_assoc]⟩

theorem offset_le {c d : Cursor} (h : c ≤ d) : c.offset ≤ d.offset := by
  obtain ⟨_, _, o⟩ := h
  omega

theorem offset_add_length {c d : Cursor} (h : c ≤ d) :
    d.offset + d.rest.length = c.offset + c.rest.length := by
  obtain ⟨t, r, o⟩ := h
  simp [r, o, Nat.add_assoc]

theorem lt_of_lt_of_le {c d e : Cursor} (h₁ : c < d) (h₂ : d ≤ e) : c < e :=
  ⟨le_trans h₁.1 h₂, Nat.lt_of_lt_of_le h₁.2 (offset_le h₂)⟩

theorem lt_of_le_of_lt {c d e : Cursor} (h₁ : c ≤ d) (h₂ : d < e) : c < e :=
  ⟨le_trans h₁ h₂.1, Nat.lt_of_le_of_lt (offset_le h₁) h₂.2⟩

theorem length_lt {c d : Cursor} (h : c < d) : d.rest.length < c.rest.length := by
  have := offset_add_length h.1
  have := h.2
  omega

end Cursor

namespace Reader

variable {ε α β : Type}

def Forward (reader : Reader ε α) : Prop :=
  ∀ ⦃c a d⦄, reader c = .ok (a, d) → c ≤ d

def Consuming (reader : Reader ε α) : Prop :=
  ∀ ⦃c a d⦄, reader c = .ok (a, d) → c < d

theorem Consuming.forward {reader : Reader ε α} (h : reader.Consuming) : reader.Forward :=
  fun _ _ _ hr => (h hr).1

theorem bind_apply (reader : Reader ε α) (next : α → Reader ε β) (c : Cursor) :
    (reader >>= next) c = match reader c with
      | .ok (a, d) => next a d
      | .error e => .error e := by
  change Except.bind (reader c) _ = _
  cases reader c <;> rfl

theorem bind_eq_ok {reader : Reader ε α} {next : α → Reader ε β} {c : Cursor} {b : β}
    {e : Cursor} :
    (reader >>= next) c = .ok (b, e) ↔
      ∃ a d, reader c = .ok (a, d) ∧ next a d = .ok (b, e) := by
  rw [bind_apply]
  cases h : reader c with
  | error x => simp
  | ok p =>
    obtain ⟨a, d⟩ := p
    simp only [Except.ok.injEq, Prod.mk.injEq]
    constructor
    · exact fun hn => ⟨a, d, ⟨rfl, rfl⟩, hn⟩
    · rintro ⟨_, _, ⟨rfl, rfl⟩, hn⟩
      exact hn

theorem forward_pure (a : α) : (pure a : Reader ε α).Forward := by
  intro c b d h
  cases h
  exact Cursor.le_refl c

theorem forward_throw (e : ε) : (throw e : Reader ε α).Forward := by
  intro c b d h
  cases h

theorem forward_lift_except (result : Except ε α) : (liftM result : Reader ε α).Forward := by
  intro c a d h
  cases result with
  | error e => cases h
  | ok b =>
    cases h
    exact Cursor.le_refl c

theorem Forward.bind {reader : Reader ε α} {next : α → Reader ε β} (hr : reader.Forward)
    (hn : ∀ a, (next a).Forward) : (reader >>= next).Forward := by
  intro c b e h
  obtain ⟨a, d, h₁, h₂⟩ := bind_eq_ok.1 h
  exact Cursor.le_trans (hr h₁) (hn a h₂)

theorem Consuming.bind {reader : Reader ε α} {next : α → Reader ε β} (hr : reader.Consuming)
    (hn : ∀ a, (next a).Forward) : (reader >>= next).Consuming := by
  intro c b e h
  obtain ⟨a, d, h₁, h₂⟩ := bind_eq_ok.1 h
  exact Cursor.lt_of_lt_of_le (hr h₁) (hn a h₂)

theorem forward_offset : (offset : Reader ε Nat).Forward := by
  intro c a d h
  cases h
  exact Cursor.le_refl c

theorem consuming_byte : byte.Consuming := by
  rintro ⟨offset, rest⟩ a d h
  cases rest with
  | nil => cases h
  | cons b rest =>
    cases h
    exact ⟨⟨[_], rfl, rfl⟩, Nat.lt_succ_self offset⟩

theorem forward_take (count : Nat) : (take count).Forward := by
  intro c a d h
  unfold take at h
  split at h
  · cases h
    refine ⟨c.rest.take count, by simp, ?_⟩
    simp only [List.length_take]
    omega
  · cases h

theorem forward_skip (count : Nat) : (skip count).Forward :=
  (forward_take count).bind fun _ => forward_pure _

theorem forward_fixed (order : ByteOrder) (width : Nat) : (fixed order width).Forward :=
  (forward_take width).bind fun _ => forward_pure _

theorem consuming_take {count : Nat} (h : 0 < count) : (take count).Consuming := by
  intro c a d hr
  refine ⟨forward_take count hr, ?_⟩
  unfold take at hr
  split at hr
  · cases hr
    exact Nat.lt_add_of_pos_right h
  · cases hr

theorem consuming_fixed (order : ByteOrder) {width : Nat} (h : 0 < width) :
    (fixed order width).Consuming :=
  (consuming_take h).bind fun _ => forward_pure _

theorem forward_uint16 (order : ByteOrder) : (uint16 order).Forward :=
  (forward_fixed order 2).bind fun _ => forward_pure _

theorem forward_address (order : ByteOrder) (size : UInt8) : (address order size).Forward := by
  unfold address
  split
  · exact (forward_fixed order _).bind fun _ => forward_pure _
  · exact forward_throw _

theorem terminatedFrom_lt {offset : Nat} {rest text : List UInt8} {d : Cursor}
    (h : terminatedFrom offset rest = .ok (text, d)) : (⟨offset, rest⟩ : Cursor) < d := by
  induction rest generalizing offset text with
  | nil => cases h
  | cons b rest ih =>
    simp only [terminatedFrom] at h
    split at h
    · cases h
      exact ⟨⟨[b], rfl, rfl⟩, Nat.lt_succ_self offset⟩
    · split at h
      · rename_i hr
        cases h
        refine Cursor.lt_of_le_of_lt ?_ (ih hr)
        exact ⟨[b], rfl, rfl⟩
      · cases h

theorem consuming_terminated : terminated.Consuming := fun _ _ _ h => terminatedFrom_lt h

theorem unsignedFrom_lt {shift offset n : Nat} {rest : List UInt8} {d : Cursor}
    (h : Leb128.unsignedFrom shift offset rest = .ok (n, d)) : (⟨offset, rest⟩ : Cursor) < d := by
  induction rest generalizing shift offset n with
  | nil => cases h
  | cons b rest ih =>
    have first : (⟨offset, b :: rest⟩ : Cursor) < ⟨offset + 1, rest⟩ :=
      ⟨⟨[b], rfl, rfl⟩, Nat.lt_succ_self offset⟩
    simp only [Leb128.unsignedFrom] at h
    split at h
    · cases h
    · split at h
      · cases h
        exact first
      · split at h
        · rename_i hr
          cases h
          exact Cursor.lt_of_lt_of_le first (ih hr).1
        · cases h

theorem signedFrom_lt {shift offset : Nat} {n : Int} {rest : List UInt8} {d : Cursor}
    (h : Leb128.signedFrom shift offset rest = .ok (n, d)) : (⟨offset, rest⟩ : Cursor) < d := by
  induction rest generalizing shift offset n with
  | nil => cases h
  | cons b rest ih =>
    have first : (⟨offset, b :: rest⟩ : Cursor) < ⟨offset + 1, rest⟩ :=
      ⟨⟨[b], rfl, rfl⟩, Nat.lt_succ_self offset⟩
    simp only [Leb128.signedFrom] at h
    split at h
    · cases h
    · split at h
      · cases h
        exact first
      · split at h
        · rename_i hr
          cases h
          exact Cursor.lt_of_lt_of_le first (ih hr).1
        · cases h

theorem consuming_uleb128 : uleb128.Consuming := by
  intro c n d h
  unfold uleb128 at h
  split at h
  · rename_i hr
    cases h
    exact unsignedFrom_lt hr
  · cases h

theorem consuming_sleb128 : sleb128.Consuming := by
  intro c n d h
  unfold sleb128 at h
  split at h
  · rename_i hr
    cases h
    exact signedFrom_lt hr
  · cases h

theorem at?_eq_ok {bytes : List UInt8} {offset : Nat} {c : Cursor} :
    Cursor.at? bytes offset = .ok c ↔
      offset ≤ bytes.length ∧ c = ⟨offset, bytes.drop offset⟩ := by
  have key : skip offset (Cursor.start bytes) =
      if offset ≤ bytes.length then .ok ((), ⟨offset, bytes.drop offset⟩)
      else .error .unexpectedEnd := by
    rw [skip, bind_apply, take]
    simp only [Cursor.start, Nat.zero_add]
    by_cases h : offset ≤ bytes.length
    · simp only [if_pos h]
      rfl
    · simp only [if_neg h]
  unfold Cursor.at?
  rw [key]
  split
  · rename_i h
    simp [Functor.map, Except.map, h, eq_comm]
  · rename_i h
    simp [Functor.map, Except.map, h]

/-- Items up to the one that is missing; each takes at least one byte, so the list ends. -/
def untilNone (item : Reader ε (Option α)) (consuming : item.Consuming) (c : Cursor) :
    Except ε (List α × Cursor) :=
  match h : item c with
  | .error e => .error e
  | .ok (none, next) => .ok ([], next)
  | .ok (some a, next) =>
    have := Cursor.length_lt (consuming h)
    match untilNone item consuming next with
    | .ok (more, last) => .ok (a :: more, last)
    | .error e => .error e
termination_by c.rest.length

theorem untilNone_lt {item : Reader ε (Option α)} {consuming : item.Consuming} {c d : Cursor}
    {found : List α} (h : untilNone item consuming c = .ok (found, d)) : c < d := by
  fun_induction untilNone item consuming c generalizing found with
  | case1 => cases h
  | case2 c next hitem =>
    cases h
    exact consuming hitem
  | case3 c a next hitem hlt more last hmore ih =>
    cases h
    exact Cursor.lt_of_lt_of_le (consuming hitem) (ih hmore).1
  | case4 => cases h

def times (item : Reader ε α) : Nat → Reader ε (List α)
  | 0 => pure []
  | count + 1 => do
    let first ← item
    let more ← times item count
    return first :: more

end Reader
end DwarfLines
