import Mathlib
import DwarfLines.Bytes.Progress
import DwarfLines.Error

/-!
# What readers give

What is known of a value because a reader gave it, wherever the reader was begun. A value that
several readers make together is known by the part of each of them that decides it.
-/

namespace DwarfLines

theorem exists_of_bind_eq_ok {ε α β : Type} {first : Except ε α} {next : α → Except ε β} {b : β}
    (h : (first >>= next) = .ok b) : ∃ a, first = .ok a ∧ next a = .ok b := by
  cases first with
  | error e => cases h
  | ok a => exact ⟨a, rfl, h⟩

theorem exists_of_map_eq_ok {ε α β : Type} {result : Except ε α} {f : α → β} {b : β}
    (h : result.map f = .ok b) : ∃ a, result = .ok a ∧ f a = b := by
  cases result with
  | error e => cases h
  | ok a => exact ⟨a, rfl, Except.ok.inj h⟩

theorem exists_of_isOk {ε α : Type} {result : Except ε α} (h : result.isOk = true) :
    ∃ a, result = .ok a := by
  cases result with
  | error e => cases h
  | ok a => exact ⟨a, rfl⟩

theorem LineError.ofRead_eq_ok {α : Type} {result : Except ReadError α} {a : α} :
    LineError.ofRead result = .ok a ↔ result = .ok a := by
  cases result with
  | error e => exact ⟨nofun, nofun⟩
  | ok b => exact ⟨fun h => by cases h; rfl, fun h => by cases h; rfl⟩

namespace Reader

variable {ε α β : Type} {p : α → Prop} {q : β → Prop}

/-- Whatever a reader gives has a property. -/
def Gives (reader : Reader ε α) (p : α → Prop) : Prop :=
  ∀ ⦃c a d⦄, reader c = .ok (a, d) → p a

theorem gives_pure {a : α} (h : p a) : (pure a : Reader ε α).Gives p := by
  intro c b d hread
  cases hread
  exact h

theorem gives_reject (e : FormatFault) : (reject e : Reader LineError α).Gives p := by
  intro c b d hread
  cases hread

theorem Gives.bind {reader : Reader ε α} {next : α → Reader ε β} (hr : reader.Gives p)
    (hn : ∀ a, p a → (next a).Gives q) : (reader >>= next).Gives q := by
  intro c b e h
  obtain ⟨a, d, hread, hnext⟩ := bind_eq_ok.1 h
  exact hn a (hr hread) hnext

theorem gives_bind {reader : Reader ε α} {next : α → Reader ε β}
    (hn : ∀ a, (next a).Gives q) : (reader >>= next).Gives q :=
  Gives.bind (p := fun _ => True) (fun _ _ _ _ => trivial) fun a _ => hn a

theorem Gives.times {item : Reader ε α} (h : item.Gives p) (count : ℕ) :
    (item.times count).Gives fun items => ∀ a ∈ items, p a := by
  induction count with
  | zero => exact gives_pure (by simp)
  | succ count ih =>
    refine h.bind fun first hfirst => ih.bind fun more hmore => gives_pure ?_
    intro a ha
    rcases List.mem_cons.mp ha with rfl | hmem
    · exact hfirst
    · exact hmore a hmem

theorem lift_except_eq_ok {ε : Type} {result : Except ε α} {c d : Cursor} {a : α}
    (h : (liftM result : Reader ε α) c = .ok (a, d)) : result = .ok a ∧ d = c := by
  cases result with
  | error e => cases h
  | ok b =>
    cases h
    exact ⟨rfl, rfl⟩

theorem length_of_take {count : ℕ} {c d : Cursor} {bytes : List UInt8}
    (h : take count c = .ok (bytes, d)) : bytes.length = count := by
  unfold take at h
  split_ifs at h with hle
  cases h
  exact List.length_take_of_le hle

end Reader
end DwarfLines
