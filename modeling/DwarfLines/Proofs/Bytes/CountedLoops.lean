import Mathlib
import DwarfLines.Error
import DwarfLines.Proofs.Bytes.Gives
import DwarfLines.Proofs.Bytes.Locality

/-!
# Loops over a list, counted

How often a loop goes round is counted by a reader that does what the one without a counter does.
A round that succeeds passes at least one byte, whatever number of items was asked for, so a loop
begins at most one round more than there are bytes before it. A counted reader keeps a list of the
loops that it ran, and keeps it also if it fails.
-/

namespace DwarfLines

namespace Reader

variable {ε α : Type}

/-- What a loop found and how many rounds it began, with one more round before. -/
def anotherRound (first : α) (counted : Except ε (List α × Cursor) × ℕ) :
    Except ε (List α × Cursor) × ℕ :=
  (counted.1.map fun (more, last) => (first :: more, last), counted.2 + 1)

def timesCounted (item : Reader ε α) : ℕ → Cursor → Except ε (List α × Cursor) × ℕ
  | 0, c => (.ok ([], c), 0)
  | count + 1, c =>
    match item c with
    | .error e => (.error e, 1)
    | .ok (first, next) => anotherRound first (timesCounted item count next)

def untilNoneCounted (item : Reader ε (Option α)) (consuming : item.Consuming) (c : Cursor) :
    Except ε (List α × Cursor) × ℕ :=
  match h : item c with
  | .error e => (.error e, 1)
  | .ok (none, next) => (.ok ([], next), 1)
  | .ok (some first, next) =>
    have := Cursor.length_lt (consuming h)
    anotherRound first (untilNoneCounted item consuming next)
termination_by c.rest.length

theorem timesCounted_value (item : Reader ε α) (count : ℕ) (c : Cursor) :
    (timesCounted item count c).1 = times item count c := by
  induction count generalizing c with
  | zero => rfl
  | succ count ih =>
    rw [timesCounted, times, bind_apply]
    cases item c with
    | error e => rfl
    | ok result =>
      dsimp only
      rw [bind_apply, anotherRound, ih]
      cases times item count result.2 <;> rfl

theorem untilNoneCounted_value (item : Reader ε (Option α)) (consuming : item.Consuming)
    (c : Cursor) :
    (untilNoneCounted item consuming c).1 = untilNone item consuming c := by
  fun_induction untilNoneCounted item consuming c with
  | case1 c e hitem =>
    rw [untilNone]
    split <;> simp_all
  | case2 c next hitem =>
    rw [untilNone]
    split <;> simp_all
  | case3 c first next hitem hlt ih =>
    rw [untilNone, anotherRound, ih]
    split <;> simp_all
    cases untilNone item consuming next <;> rfl

/-- What the rounds of a loop come to that was begun at a place: there is at most one more than
there are bytes, and if the loop succeeds there is one for each item and for the end, if that is
read too, and a byte for each. -/
structure RoundsBounded (c : Cursor) (ends : ℕ) (counted : Except ε (List α × Cursor) × ℕ) :
    Prop where
  bound : counted.2 ≤ c.rest.length + 1
  found : ∀ found last, counted.1 = .ok (found, last) →
    counted.2 = found.length + ends ∧ counted.2 + last.rest.length ≤ c.rest.length

theorem roundsBounded_error (c : Cursor) (ends : ℕ) (e : ε) :
    RoundsBounded c ends ((.error e, 1) : Except ε (List α × Cursor) × ℕ) :=
  ⟨Nat.le_add_left _ _, nofun⟩

theorem RoundsBounded.anotherRound {c next : Cursor} {ends : ℕ}
    {counted : Except ε (List α × Cursor) × ℕ} (h : RoundsBounded next ends counted)
    (hlt : c < next) (first : α) : RoundsBounded c ends (anotherRound first counted) := by
  have hbytes := Cursor.length_lt hlt
  obtain ⟨result, rounds⟩ := counted
  obtain ⟨hbound, hfound⟩ := h
  constructor
  · simp only [Reader.anotherRound] at hbound ⊢
    omega
  · intro found last hmore
    rcases result with e | ⟨more, final⟩
    · cases hmore
    · cases hmore
      obtain ⟨hrounds, hpassed⟩ := hfound more last rfl
      simp only [Reader.anotherRound, List.length_cons] at hrounds hpassed ⊢
      omega

theorem timesCounted_bounded {item : Reader ε α} (consuming : item.Consuming) (count : ℕ)
    (c : Cursor) : RoundsBounded c 0 (timesCounted item count c) := by
  induction count generalizing c with
  | zero =>
    refine ⟨Nat.zero_le _, ?_⟩
    intro found last hfound
    cases hfound
    exact ⟨rfl, (Nat.zero_add _).le⟩
  | succ count ih =>
    rw [timesCounted]
    cases hitem : item c with
    | error e => exact roundsBounded_error c 0 e
    | ok result => exact (ih result.2).anotherRound (consuming hitem) result.1

theorem untilNoneCounted_bounded {item : Reader ε (Option α)} (consuming : item.Consuming)
    (c : Cursor) : RoundsBounded c 1 (untilNoneCounted item consuming c) := by
  fun_induction untilNoneCounted item consuming c with
  | case1 c e hitem => exact roundsBounded_error c 1 e
  | case2 c next hitem =>
    refine ⟨Nat.le_add_left _ _, ?_⟩
    intro found last hfound
    cases hfound
    have hbytes := Cursor.length_lt (consuming hitem)
    exact ⟨rfl, by omega⟩
  | case3 c first next hitem hlt ih => exact ih.anotherRound (consuming hitem) first

end Reader

/-- A loop over a list: the bytes that were left in the unit where it began, and the rounds that it
began. -/
structure ListLoop where
  left : ℕ
  rounds : ℕ
  deriving DecidableEq, Repr

/-- A reader that keeps a list of the loops it ran, and keeps it if it fails. -/
abbrev CountedReader := StateT Cursor (ExceptT LineError (StateM (List ListLoop)))

instance : MonadLift (Reader LineError) CountedReader where
  monadLift reader := fun c => ExceptT.mk (pure (reader c))

namespace CountedReader

variable {α β : Type} {fits : α → List ℕ → Prop} {after : β → List ℕ → Prop}

def loop (counted : Cursor → Except LineError (List α × Cursor) × ℕ) :
    CountedReader (List α) :=
  fun c => ExceptT.mk do
    let (result, rounds) := counted c
    modify fun loops => loops ++ [⟨c.rest.length, rounds⟩]
    return result

def times (item : Reader LineError α) (count : ℕ) : CountedReader (List α) :=
  loop (item.timesCounted count)

def untilNone (item : Reader ReadError (Option α)) (consuming : item.Consuming) :
    CountedReader (List α) :=
  loop fun c => (item.untilNoneCounted consuming c).map LineError.ofRead id

/-- A counted reader does what another reader does, and each loop that it runs begins at most one
round more than there are bytes. If it succeeds there is a byte for each round, and the numbers of
rounds fit what is read. -/
def Counts (counted : CountedReader α) (reader : Reader LineError α)
    (fits : α → List ℕ → Prop) : Prop :=
  ∀ c before, ∃ loops, counted c before = (reader c, before ++ loops) ∧
    (∀ loop ∈ loops, loop.rounds ≤ loop.left + 1) ∧
    ∀ a d, reader c = .ok (a, d) →
      fits a (loops.map (·.rounds)) ∧
      (loops.map (·.rounds)).sum + d.rest.length ≤ c.rest.length

theorem bind_apply (counted : CountedReader α) (next : α → CountedReader β) (c : Cursor)
    (before : List ListLoop) :
    (counted >>= next) c before = match counted c before with
      | (.ok (a, d), loops) => next a d loops
      | (.error e, loops) => (.error e, loops) := by
  change (match counted c before with
    | (result, loops) =>
      ExceptT.bindCont (fun found : α × Cursor => next found.1 found.2) result loops) = _
  rcases counted c before with ⟨e | ⟨a, d⟩, loops⟩ <;> rfl

theorem counts_pure {a : α} (h : fits a []) : (pure a : CountedReader α).Counts (pure a) fits := by
  intro c before
  refine ⟨[], ?_, nofun, ?_⟩
  · rw [List.append_nil]
    rfl
  · intro b d hread
    cases hread
    exact ⟨h, (Nat.zero_add _).le⟩

theorem counts_reject (fault : FormatFault) :
    (liftM (Reader.reject fault : Reader LineError α) : CountedReader α).Counts
      (Reader.reject fault) fits := by
  intro c before
  refine ⟨[], ?_, nofun, nofun⟩
  rw [List.append_nil]
  rfl

theorem Counts.bind {counted : CountedReader α} {reader : Reader LineError α}
    {next? : α → CountedReader β} {next : α → Reader LineError β} (h : counted.Counts reader fits)
    (hnext : ∀ a, (next? a).Counts (next a) fun b second =>
      ∀ first, fits a first → after b (first ++ second)) :
    (counted >>= next?).Counts (reader >>= next) after := by
  intro c before
  obtain ⟨loops, hvalue, hbound, hfits⟩ := h c before
  rw [bind_apply, hvalue, Reader.bind_apply]
  cases hread : reader c with
  | error e => exact ⟨loops, rfl, hbound, nofun⟩
  | ok result =>
    obtain ⟨a, d⟩ := result
    obtain ⟨hfirst, hbytes⟩ := hfits a d hread
    obtain ⟨more, hmore, hmoreBound, hmoreFits⟩ := hnext a d (before ++ loops)
    refine ⟨loops ++ more, ?_, ?_, ?_⟩
    · rw [← List.append_assoc]
      exact hmore
    · intro loop hloop
      rcases List.mem_append.mp hloop with hmem | hmem
      · exact hbound loop hmem
      · exact hmoreBound loop hmem
    · intro b e hlast
      obtain ⟨hsecond, hmoreBytes⟩ := hmoreFits b e hlast
      rw [List.map_append, List.sum_append]
      exact ⟨hsecond _ hfirst, by omega⟩

theorem counts_lift_bind_gives {p : α → Prop} {reader : Reader LineError α}
    {next? : α → CountedReader β} {next : α → Reader LineError β} (hlocal : reader.Local)
    (hgives : reader.Gives p) (hnext : ∀ a, p a → (next? a).Counts (next a) after) :
    ((liftM reader : CountedReader α) >>= next?).Counts (reader >>= next) after := by
  intro c before
  have hlift : (liftM reader : CountedReader α) c before = (reader c, before) := rfl
  rw [bind_apply, hlift, Reader.bind_apply]
  cases hread : reader c with
  | error e => exact ⟨[], by rw [List.append_nil], nofun, nofun⟩
  | ok result =>
    obtain ⟨a, d⟩ := result
    obtain ⟨taken, hpasses, -⟩ := hlocal hread
    obtain ⟨loops, hvalue, hbound, hfits⟩ := hnext a (hgives hread) d before
    refine ⟨loops, hvalue, hbound, ?_⟩
    intro b e hlast
    obtain ⟨hall, hbytes⟩ := hfits b e hlast
    rw [hpasses.rest, List.length_append]
    exact ⟨hall, by omega⟩

theorem counts_lift_bind {reader : Reader LineError α} {next? : α → CountedReader β}
    {next : α → Reader LineError β} (hlocal : reader.Local)
    (hnext : ∀ a, (next? a).Counts (next a) after) :
    ((liftM reader : CountedReader α) >>= next?).Counts (reader >>= next) after :=
  counts_lift_bind_gives hlocal (fun _ _ _ _ => trivial : reader.Gives fun _ => True)
    fun a _ => hnext a

theorem counts_except_bind {result : Except LineError α} {next? : α → CountedReader β}
    {next : α → Reader LineError β}
    (hnext : ∀ a, result = .ok a → (next? a).Counts (next a) after) :
    ((liftM (liftM result : Reader LineError α) : CountedReader α) >>= next?).Counts
      ((liftM result : Reader LineError α) >>= next) after :=
  counts_lift_bind_gives (Reader.local_lift_except result)
    (fun _ _ _ hread => (Reader.lift_except_eq_ok hread).1) hnext

theorem counts_loop {counted : Cursor → Except LineError (List α × Cursor) × ℕ}
    {reader : Reader LineError (List α)} {ends : ℕ} (hvalue : ∀ c, (counted c).1 = reader c)
    (hbounded : ∀ c, Reader.RoundsBounded c ends (counted c)) :
    (loop counted).Counts reader fun found rounds => rounds = [found.length + ends] := by
  intro c before
  obtain ⟨hbound, hfound⟩ := hbounded c
  refine ⟨[⟨c.rest.length, (counted c).2⟩], ?_, ?_, ?_⟩
  · rw [← hvalue]
    rfl
  · intro loop hloop
    rw [List.mem_singleton.mp hloop]
    exact hbound
  · intro found last hread
    obtain ⟨hrounds, hbytes⟩ := hfound found last ((hvalue c).trans hread)
    rw [List.map_singleton, List.sum_singleton]
    exact ⟨by rw [hrounds], hbytes⟩

theorem counts_times {item : Reader LineError α} (consuming : item.Consuming) (count : ℕ) :
    (times item count).Counts (Reader.times item count)
      fun found rounds => rounds = [found.length] :=
  counts_loop (item.timesCounted_value count) (Reader.timesCounted_bounded consuming count)

theorem counts_untilNone {item : Reader ReadError (Option α)} (consuming : item.Consuming) :
    (untilNone item consuming).Counts
      (fun c => LineError.ofRead (Reader.untilNone item consuming c))
      fun found rounds => rounds = [found.length + 1] := by
  apply counts_loop
  · intro c
    exact congrArg LineError.ofRead (item.untilNoneCounted_value consuming c)
  · intro c
    obtain ⟨hbound, hfound⟩ := Reader.untilNoneCounted_bounded consuming c
    refine ⟨hbound, ?_⟩
    intro found last hread
    exact hfound found last (LineError.ofRead_eq_ok.mp hread)

end CountedReader
end DwarfLines
