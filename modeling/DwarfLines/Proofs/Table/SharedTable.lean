import Mathlib
import DwarfLines.Proofs.Table.LonePass

/-!
# A table that passes have extended

Some requests into its life, a table is its beginning with the files that the furthest pass has
declared. What reads several rows of it, a drained pass, a search for an address or a scan for a
file, finds what it would have found in the beginning, and extends the table no further than a
lone pass would.
-/

namespace DwarfLines

/-- What a pass is given along a trace: its rows, and then a failure or the end. -/
def Trace.answers (trace : Trace) : List (Option (Except LineError Row)) :=
  trace.rows.map (fun row => some (.ok row)) ++ [trace.fault.map .error]

theorem Trace.length_answers (trace : Trace) :
    trace.answers.length = trace.moments.length + 1 := by
  simp [answers, rows]

theorem Trace.eq_of_answers_eq {trace other : Trace} (h : trace.answers = other.answers) :
    trace.rows = other.rows ∧ trace.fault = other.fault := by
  obtain ⟨hrows, hfault⟩ := List.append_inj' h rfl
  constructor
  · refine List.map_injective_iff.mpr (fun row row' hrow => ?_) hrows
    simpa using hrow
  · refine Option.map_injective (fun e e' he => ?_) (List.cons.inj hfault).1
    simpa using he

namespace LineTable

variable (table : LineTable)

/-- A trace that goes the lone pass's way from where it stood after a number of requests. -/
structure Follows (count reached : ℕ) (trace : Trace) : Prop where
  row : ∀ (i : ℕ) (h : i < trace.moments.length),
    table.answer (count + i) = some (.ok trace.moments[i].row)
  files : ∀ (i : ℕ) (h : i < trace.moments.length),
    trace.moments[i].files.Agrees (table.alone (max reached (count + i + 1))).1
  fault : table.answer (count + trace.moments.length) = trace.fault.map .error
  lastPass : trace.pass = (table.alone (count + trace.moments.length + 1)).2
  lastFiles : trace.files.Agrees
    (table.alone (max reached (count + trace.moments.length + 1))).1

variable {table}

theorem trace_follows {files : FileTable} {pass : Pass} {count reached : ℕ}
    (hfiles : files.Agrees (table.alone reached).1) (hle : count ≤ reached)
    (hpass : pass = (table.alone count).2) :
    table.Follows count reached (pass.trace table.program files) := by
  fun_induction Pass.trace table.program files pass generalizing count reached with
  | case1 files pass advance =>
    rename_i hanswer
    subst hpass
    obtain ⟨hnext, hgiven, hstays⟩ := next_of_agrees hfiles hle
    exact ⟨fun _ h => by simp at h, fun _ h => by simp at h, hgiven.symm.trans hanswer, hnext,
      hstays⟩
  | case2 files pass advance e =>
    rename_i hanswer
    subst hpass
    obtain ⟨hnext, hgiven, hstays⟩ := next_of_agrees hfiles hle
    exact ⟨fun _ h => by simp at h, fun _ h => by simp at h, hgiven.symm.trans hanswer, hnext,
      hstays⟩
  | case3 files pass advance row hanswer hoffset =>
    rename_i rest ih
    subst hpass
    obtain ⟨hnext, hgiven, hstays⟩ := next_of_agrees hfiles hle
    have hrest := ih hstays (le_max_right _ _) hnext
    replace hrest : table.Follows _ _ rest := hrest
    have hmax (n : ℕ) (hn : count + 1 ≤ n) : max (max reached (count + 1)) n = max reached n := by
      omega
    refine ⟨?_, ?_, ?_, ?_, ?_⟩
    · rintro (_ | i) h
      · exact hgiven.symm.trans hanswer
      · have hi := hrest.row i (by simpa using h)
        rwa [show count + 1 + i = count + (i + 1) by omega] at hi
    · rintro (_ | i) h
      · exact hstays
      · have hi := hrest.files i (by simpa using h)
        rwa [hmax _ (by omega), show count + 1 + i + 1 = count + (i + 1) + 1 by omega] at hi
    · have hfault := hrest.fault
      rwa [show count + 1 + rest.moments.length = count + (rest.moments.length + 1) by omega]
        at hfault
    · have hlast := hrest.lastPass
      rwa [show count + 1 + rest.moments.length = count + (rest.moments.length + 1) by omega]
        at hlast
    · have hlast := hrest.lastFiles
      rwa [hmax _ (by omega),
        show count + 1 + rest.moments.length = count + (rest.moments.length + 1) by omega] at hlast

theorem Follows.answers {count reached : ℕ} {trace : Trace}
    (h : table.Follows count reached trace) :
    trace.answers =
      (List.range (trace.moments.length + 1)).map fun i => table.answer (count + i) := by
  apply List.ext_getElem
  · simp [trace.length_answers]
  · intro i hi _
    rw [trace.length_answers] at hi
    simp only [List.getElem_map, List.getElem_range]
    rcases Nat.lt_succ_iff_lt_or_eq.mp hi with hlt | rfl
    · rw [h.row i hlt]
      simp [Trace.answers, Trace.rows, List.getElem_append_left, hlt]
    · rw [h.fault]
      simp [Trace.answers, Trace.rows]

theorem Follows.answer_of_mem_rows {count reached : ℕ} {trace : Trace} {row : Row}
    (h : table.Follows count reached trace) (hrow : row ∈ trace.rows) :
    ∃ i < trace.moments.length, table.answer (count + i) = some (.ok row) := by
  obtain ⟨moment, hmoment, rfl⟩ := List.mem_map.mp hrow
  obtain ⟨i, hi, rfl⟩ := List.getElem_of_mem hmoment
  exact ⟨i, hi, h.row i hi⟩

/-- Two traces that go the lone pass's way from one place give the same answers. -/
theorem Follows.length_eq {count reached reached' : ℕ} {trace other : Trace}
    (h : table.Follows count reached trace) (h' : table.Follows count reached' other) :
    trace.moments.length = other.moments.length := by
  by_contra hne
  rcases Nat.lt_or_gt_of_ne hne with hlt | hlt
  · have hrow := h'.row _ hlt
    rw [h.fault] at hrow
    cases hfault : trace.fault <;> simp [hfault] at hrow
  · have hrow := h.row _ hlt
    rw [h'.fault] at hrow
    cases hfault : other.fault <;> simp [hfault] at hrow

theorem Follows.answers_eq {count reached reached' : ℕ} {trace other : Trace}
    (h : table.Follows count reached trace) (h' : table.Follows count reached' other) :
    trace.answers = other.answers := by
  rw [h.answers, h'.answers, h.length_eq h']

end LineTable

/-- The first of some rows whose range contains an address. -/
def Row.firstCovering? (address : UInt64) : List Row → Option Row
  | row :: next :: rest =>
    if Row.covers address row next then some row else firstCovering? address (next :: rest)
  | _ => none

namespace Moment

theorem firstCovering_row (address : UInt64) (moments : List Moment) :
    (firstCovering address moments).map (·.2.2) =
      Row.firstCovering? address (moments.map (·.row)) := by
  induction moments with
  | nil => rfl
  | cons moment rest ih =>
    cases rest with
    | nil => rfl
    | cons next rest =>
      simp only [firstCovering, List.map_cons, Row.firstCovering?] at ih ⊢
      split_ifs
      · rfl
      · rw [← ih]
        cases firstCovering address (next :: rest) <;> rfl

theorem exists_of_firstCovering {address : UInt64} {moments seen : List Moment} {last : Moment}
    {row : Row} (h : firstCovering address moments = some (seen, last, row)) :
    ∃ i, ∃ hi : i + 1 < moments.length, moments[i + 1] = last ∧ moments[i].row = row := by
  induction moments generalizing seen with
  | nil => cases h
  | cons moment rest ih =>
    cases rest with
    | nil => cases h
    | cons next rest =>
      simp only [firstCovering] at h
      split_ifs at h
      · cases h
        exact ⟨0, by simp, rfl, rfl⟩
      · cases hmore : firstCovering address (next :: rest) with
        | none => simp [hmore] at h
        | some found =>
          obtain ⟨more, last', row'⟩ := found
          simp only [hmore, Option.some.injEq, Prod.mk.injEq] at h
          obtain ⟨-, rfl, rfl⟩ := h
          obtain ⟨i, hi, hlast, hrow⟩ := ih hmore
          exact ⟨i + 1, by simpa using hi, hlast, hrow⟩

end Moment

namespace LineTable

/-- A table some requests into its life: the program is the one of the beginning, and the files
are those that a lone pass would know after as many requests. -/
structure Extends (current table : LineTable) (reached : ℕ) : Prop where
  program : current.program = table.program
  files : current.files.Agrees (table.alone reached).1

variable {current table : LineTable} {reached : ℕ}

theorem Extends.refl (table : LineTable) : table.Extends table 0 := ⟨rfl, .refl _⟩

theorem Extends.trace_follows (h : current.Extends table reached) :
    table.Follows 0 reached current.trace := by
  unfold trace
  rw [h.program]
  exact LineTable.trace_follows h.files (Nat.zero_le _) rfl

/-- What a search finds is decided by the rows of the table and its fault. -/
theorem findAddress_answer (table : LineTable) (address : UInt64) :
    (table.findAddress address).2 =
      match Row.firstCovering? address table.trace.rows, table.trace.fault with
      | some row, _ => .ok (some row)
      | none, some e => .error e
      | none, none => .ok none := by
  have hrow := Moment.firstCovering_row address table.trace.moments
  rw [Trace.rows, ← hrow]
  unfold findAddress search Trace.search
  rcases Moment.firstCovering address table.trace.moments with _ | ⟨seen, last, row⟩
  · cases hfault : table.trace.fault <;> simp [hfault]
  · rfl

theorem Extends.answers_eq (h : current.Extends table reached) :
    current.trace.answers = table.trace.answers :=
  h.trace_follows.answers_eq (Extends.refl table).trace_follows

theorem Extends.findAddress_eq (h : current.Extends table reached) (address : UInt64) :
    (current.findAddress address).2 = (table.findAddress address).2 := by
  obtain ⟨hrows, hfault⟩ := Trace.eq_of_answers_eq h.answers_eq
  rw [findAddress_answer, findAddress_answer, hrows, hfault]

theorem Extends.findAddress (h : current.Extends table reached) (address : UInt64) :
    ∃ more, reached ≤ more ∧ (current.findAddress address).1.Extends table more ∧
      ∀ row, (current.findAddress address).2 = .ok (some row) →
        ∃ count < more, table.answer count = some (.ok row) := by
  have hfollows := h.trace_follows
  unfold LineTable.findAddress search Trace.search
  cases hfound : Moment.firstCovering address current.trace.moments with
  | none =>
    refine ⟨max reached (0 + current.trace.moments.length + 1), le_max_left _ _,
      ⟨h.program, hfollows.lastFiles⟩, fun row hrow => ?_⟩
    cases hfault : current.trace.fault <;> simp [hfault] at hrow
  | some found =>
    obtain ⟨seen, last, row⟩ := found
    obtain ⟨i, hi, rfl, rfl⟩ := Moment.exists_of_firstCovering hfound
    refine ⟨max reached (0 + (i + 1) + 1), le_max_left _ _,
      ⟨h.program, hfollows.files (i + 1) hi⟩, fun row hrow => ⟨0 + i, by omega, ?_⟩⟩
    cases hrow
    exact hfollows.row i (by omega)

theorem Extends.scan (h : current.Extends table reached) :
    ∃ more, reached ≤ more ∧ current.scan.1.Extends table more := by
  have hfiles := current.files.recordFullScan_agrees.trans h.files
  have hfollows : table.Follows 0 reached
      ((Pass.start current.program).trace current.program current.files.recordFullScan) := by
    rw [h.program]
    exact LineTable.trace_follows hfiles (Nat.zero_le _) rfl
  refine ⟨_, le_max_left reached (0 + ((Pass.start current.program).trace current.program
    current.files.recordFullScan).moments.length + 1), ?_⟩
  unfold LineTable.scan
  dsimp only
  split
  · exact ⟨h.program, hfollows.lastFiles⟩
  · exact ⟨h.program, (FileTable.markComplete_agrees _).trans hfollows.lastFiles⟩

theorem Extends.getFile (h : current.Extends table reached) (index : UInt64) :
    ∃ more, reached ≤ more ∧ (current.getFile index).1.Extends table more := by
  unfold LineTable.getFile
  split_ifs
  · exact ⟨reached, le_rfl, h⟩
  · obtain ⟨more, hmore, hscan⟩ := h.scan
    refine ⟨more, hmore, ?_⟩
    rcases hresult : current.scan with ⟨scanned, e | _⟩ <;> simpa [hresult] using hscan

end LineTable
end DwarfLines
