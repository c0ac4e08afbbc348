import Mathlib
import DwarfLines.Proofs.Bytes.Gives

/-!
# Checked computations

Some operations have no value for some operands: a quotient by zero, a difference below zero, an
item past the end of a list. A program aborts there. In a checked computation each of them gives
nothing for such operands, and so does the whole computation; it is compared with the computation
that takes their values for granted.

An error that is returned is no abort, but a few errors are only there for cases that are supposed
not to occur. A computation is external if it never fails with one of those.
-/

namespace DwarfLines

section Operations

variable {α : Type}

/-- A quotient, unless the divisor is zero. -/
def quotient? [OfNat α 0] [DecidableEq α] [Div α] (dividend divisor : α) : Option α :=
  if divisor = 0 then none else some (dividend / divisor)

def remainder? [OfNat α 0] [DecidableEq α] [Mod α] (dividend divisor : α) : Option α :=
  if divisor = 0 then none else some (dividend % divisor)

def difference? [LE α] [DecidableLE α] [Sub α] (whole part : α) : Option α :=
  if part ≤ whole then some (whole - part) else none

def replaceAt? (items : List α) (position : ℕ) (item : α) : Option (List α) :=
  if position < items.length then some (items.set position item) else none

def itemsFrom? (items : List α) (position : ℕ) : Option (List α) :=
  if position ≤ items.length then some (items.drop position) else none

theorem difference?_of_le [LE α] [DecidableLE α] [Sub α] {whole part : α} (h : part ≤ whole) :
    difference? whole part = some (whole - part) :=
  if_pos h

theorem replaceAt?_append (before after : List α) (old item : α) :
    replaceAt? (before ++ old :: after) before.length item = some (before ++ item :: after) := by
  simp [replaceAt?]

theorem itemsFrom?_of_le {items : List α} {position : ℕ} (h : position ≤ items.length) :
    itemsFrom? items position = some (items.drop position) :=
  if_pos h

end Operations

/-! ### Aborting only where it is not safe -/

section ComesTo

variable {α β : Type} {safe : Prop}

/-- A checked computation gives no other value than the one expected, and it gives that one if it
is safe. -/
structure ComesTo (safe : Prop) (result? : Option α) (value : α) : Prop where
  eq : ∀ a, result? = some a → a = value
  isSome : safe → result?.isSome = true

theorem ComesTo.eq_some {result? : Option α} {value : α} (h : ComesTo safe result? value)
    (hsafe : safe) : result? = some value := by
  obtain ⟨a, ha⟩ := Option.isSome_iff_exists.mp (h.isSome hsafe)
  rw [ha, h.eq a ha]

theorem comesTo_some (value : α) : ComesTo safe (some value) value :=
  ⟨fun _ ha => (Option.some.inj ha).symm, fun _ => rfl⟩

theorem comesTo_none (hnot : ¬ safe) (value : α) : ComesTo safe none value :=
  ⟨nofun, fun hsafe => absurd hsafe hnot⟩

/-- What goes on from a computation that aborts is only reached where it is not safe. -/
theorem ComesTo.of_none {result? : Option α} {value : α} (h : ComesTo safe result? value)
    (hnone : result? = none) (other : β) : ComesTo safe none other := by
  apply comesTo_none
  intro hsafe
  rw [h.eq_some hsafe] at hnone
  cases hnone

theorem ComesTo.bind {first? : Option α} {next? : α → Option β} {a : α} {b : β}
    (h : ComesTo safe first? a) (hnext : ComesTo safe (next? a) b) :
    ComesTo safe (first? >>= next?) b := by
  constructor
  · intro found hfound
    obtain ⟨between, hbetween, hfound⟩ := Option.bind_eq_some_iff.mp hfound
    rw [h.eq between hbetween] at hfound
    exact hnext.eq found hfound
  · intro hsafe
    rw [h.eq_some hsafe]
    exact hnext.isSome hsafe

theorem comesTo_quotient? [OfNat α 0] [DecidableEq α] [Div α] (dividend : α) {divisor : α}
    (h : safe → divisor ≠ 0) : ComesTo safe (quotient? dividend divisor) (dividend / divisor) := by
  unfold quotient?
  split_ifs with hzero
  · exact comesTo_none (fun hsafe => h hsafe hzero) _
  · exact comesTo_some _

theorem comesTo_remainder? [OfNat α 0] [DecidableEq α] [Mod α] (dividend : α) {divisor : α}
    (h : safe → divisor ≠ 0) :
    ComesTo safe (remainder? dividend divisor) (dividend % divisor) := by
  unfold remainder?
  split_ifs with hzero
  · exact comesTo_none (fun hsafe => h hsafe hzero) _
  · exact comesTo_some _

end ComesTo

/-! ### Checked readers -/

/-- A reader that aborts where an operation has no value. -/
abbrev CheckedReader := StateT Cursor (ExceptT LineError Option)

instance : MonadLift (Reader LineError) CheckedReader where
  monadLift reader := fun c => ExceptT.mk (some (reader c))

namespace CheckedReader

variable {α β : Type} {p : α → Prop}

def Checks (checked : CheckedReader α) (reader : Reader LineError α) : Prop :=
  ∀ c, checked c = ExceptT.mk (some (reader c))

theorem checks_lift (reader : Reader LineError α) :
    (liftM reader : CheckedReader α).Checks reader :=
  fun _ => rfl

theorem checks_pure (a : α) : (pure a : CheckedReader α).Checks (pure a) := fun _ => rfl

theorem Checks.bind_gives {checked : CheckedReader α} {reader : Reader LineError α}
    {next? : α → CheckedReader β} {next : α → Reader LineError β} (h : checked.Checks reader)
    (hgives : reader.Gives p) (hnext : ∀ a, p a → (next? a).Checks (next a)) :
    (checked >>= next?).Checks (reader >>= next) := by
  intro c
  rw [Reader.bind_apply]
  change ExceptT.bind (checked c) (fun result => next? result.1 result.2) = _
  rw [h c]
  cases hread : reader c with
  | error e => rfl
  | ok result => exact hnext result.1 (hgives hread) result.2

theorem Checks.bind {checked : CheckedReader α} {reader : Reader LineError α}
    {next? : α → CheckedReader β} {next : α → Reader LineError β} (h : checked.Checks reader)
    (hnext : ∀ a, (next? a).Checks (next a)) : (checked >>= next?).Checks (reader >>= next) :=
  h.bind_gives (fun _ _ _ _ => trivial : reader.Gives fun _ => True) fun a _ => hnext a

theorem Checks.bind_map {γ : Type} {checked : CheckedReader γ} {reader : Reader LineError α}
    {f : α → γ} {next? : γ → CheckedReader β} {next : α → Reader LineError β}
    (h : checked.Checks (reader >>= fun a => pure (f a)))
    (hnext : ∀ a, (next? (f a)).Checks (next a)) :
    (checked >>= next?).Checks (reader >>= next) := by
  intro c
  have hc := h c
  rw [Reader.bind_apply] at hc ⊢
  change ExceptT.bind (checked c) (fun result => next? result.1 result.2) = _
  rw [hc]
  cases reader c with
  | error e => rfl
  | ok result => exact hnext result.1 result.2

theorem Checks.some_bind {result? : Option α} {a : α} (h : result? = some a)
    {next? : α → CheckedReader β} {reader : Reader LineError β} (hnext : (next? a).Checks reader) :
    ((liftM result? : CheckedReader α) >>= next?).Checks reader := by
  subst h
  exact hnext

def seek (target : ℕ) : CheckedReader Unit := do
  let current ← (Reader.offset : Reader LineError ℕ)
  if target < current then
    (Reader.reject (.backwardSeek current target) : Reader LineError Unit)
  else
    let distance ← (difference? target current : Option ℕ)
    (Reader.skip distance : Reader ReadError Unit)

theorem checks_seek (target : ℕ) : (seek target).Checks (Reader.seek target) := by
  apply (checks_lift Reader.offset).bind
  intro current
  split_ifs with hback
  · exact checks_lift _
  · exact Checks.some_bind (difference?_of_le (Nat.not_lt.mp hback)) (checks_lift _)

end CheckedReader

/-! ### Errors for what is supposed not to occur -/

/-- Whether a fault can only come from the decoder itself and not from what it reads. -/
def FormatFault.isInternal : FormatFault → Bool
  | backwardSeek _ _ | notStringForm _ | notUnsignedForm _ | badSpecialOpcode _ => true
  | _ => false

/-- Whether an error can only come from the decoder itself. -/
def LineError.isInternal : LineError → Bool
  | format fault => fault.isInternal
  | _ => false

section External

variable {α β : Type}

/-- A result that is no internal error. -/
def External (result : Except LineError α) : Prop :=
  ∀ e, result = .error e → e.isInternal = false

theorem external_ok (a : α) : External (.ok a : Except LineError α) := nofun

theorem external_error {e : LineError} (h : e.isInternal = false) :
    External (.error e : Except LineError α) := by
  intro found hfound
  cases hfound
  exact h

theorem external_ofRead (result : Except ReadError α) : External (LineError.ofRead result) := by
  intro e he
  cases result with
  | error cause =>
    cases he
    rfl
  | ok a => cases he

theorem External.bind {first : Except LineError α} {next : α → Except LineError β}
    (h : External first) (hnext : ∀ a, External (next a)) : External (first >>= next) := by
  cases first with
  | error e => exact external_error (h e rfl)
  | ok a => exact hnext a

theorem external_mapM {f : α → Except LineError β} (h : ∀ a, External (f a)) (items : List α) :
    External (items.mapM f) := by
  induction items with
  | nil => exact external_ok _
  | cons a items ih =>
    rw [List.mapM_cons]
    exact (h a).bind fun _ => ih.bind fun _ => external_ok _

end External

namespace Reader

variable {α β σ : Type} {p : α → Prop}

/-- A reader that gives no internal error. -/
def External (reader : Reader LineError α) : Prop := ∀ c, DwarfLines.External (reader c)

theorem external_pure (a : α) : (pure a : Reader LineError α).External := fun _ => external_ok _

theorem external_lift (reader : Reader ReadError α) :
    (liftM reader : Reader LineError α).External :=
  fun _ => external_ofRead _

theorem external_lift_except {result : Except LineError α} (h : DwarfLines.External result) :
    (liftM result : Reader LineError α).External := by
  intro c e he
  cases result with
  | error found =>
    cases he
    exact h _ rfl
  | ok a => cases he

theorem external_reject {fault : FormatFault} (h : fault.isInternal = false) :
    (reject fault : Reader LineError α).External :=
  fun _ => external_error h

theorem external_offset : (offset : Reader LineError ℕ).External := fun _ => external_ok _

theorem External.bind_gives {reader : Reader LineError α} {next : α → Reader LineError β}
    (h : reader.External) (hgives : reader.Gives p) (hnext : ∀ a, p a → (next a).External) :
    (reader >>= next).External := by
  intro c
  rw [bind_apply]
  cases hread : reader c with
  | error e => exact external_error (h c e hread)
  | ok result => exact hnext result.1 (hgives hread) result.2

theorem External.bind {reader : Reader LineError α} {next : α → Reader LineError β}
    (h : reader.External) (hnext : ∀ a, (next a).External) : (reader >>= next).External :=
  h.bind_gives (fun _ _ _ _ => trivial : reader.Gives fun _ => True) fun a _ => hnext a

theorem External.bind_pure {reader : Reader LineError α} (h : reader.External) (f : α → β) :
    (reader >>= fun a => pure (f a)).External :=
  h.bind fun _ => external_pure _

theorem external_times {item : Reader LineError α} (h : item.External) (count : ℕ) :
    (times item count).External := by
  induction count with
  | zero => exact external_pure _
  | succ count ih => exact h.bind fun _ => ih.bind_pure _

theorem external_foldlM {step : σ → α → Reader LineError σ} {items : List α}
    (h : ∀ a ∈ items, ∀ s, (step s a).External) (s : σ) : (items.foldlM step s).External := by
  induction items generalizing s with
  | nil => exact external_pure s
  | cons a items ih =>
    rw [List.foldlM_cons]
    apply (h a List.mem_cons_self s).bind
    intro next
    exact ih (fun b hb => h b (List.mem_cons_of_mem a hb)) next

end Reader
end DwarfLines
