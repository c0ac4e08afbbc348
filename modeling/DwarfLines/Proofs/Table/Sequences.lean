import Mathlib
import DwarfLines.Proofs.Table.SharedTable

/-!
# Sequences of rows and the search for an address

A search compares neighbours in one flat list of rows, while what an address means is told by the
sequences of the list. A row that ends a sequence covers nothing, so no pair of neighbours reaches
over the end of a sequence, and the search goes through the sequences one by one. Where addresses
never go down, the pair around an address begins with the last row at or before it.
-/

namespace DwarfLines
namespace Row

/-- The sequences of some rows: each goes on up to a row that ends it, or up to the last row. -/
def sequences (rows : List Row) : List (List Row) :=
  rows.splitBy fun row _ => !row.registers.endSequence

/-- Whether an address lies at or after the first row of a sequence and before its last. -/
def spans (address : UInt64) (sequence : List Row) : Bool :=
  sequence.head?.any (·.registers.address ≤ address) &&
    sequence.getLast?.any (address < ·.registers.address)

/-- The last row of a sequence whose address is not after the given one. -/
def lastUpTo? (address : UInt64) (sequence : List Row) : Option Row :=
  sequence.reverse.find? (·.registers.address ≤ address)

/-- Rows whose addresses never go down. -/
def Ascending (sequence : List Row) : Prop :=
  sequence.Pairwise fun row later => row.registers.address ≤ later.registers.address

instance : DecidablePred Ascending :=
  fun sequence => inferInstanceAs (Decidable (sequence.Pairwise _))

/-- Rows of which none but the last ends a sequence. -/
def Unbroken (sequence : List Row) : Prop :=
  sequence.IsChain fun row _ => row.registers.endSequence = false

theorem unbroken_of_mem_sequences {rows sequence : List Row} (h : sequence ∈ sequences rows) :
    Unbroken sequence := by
  have hchain := List.isChain_of_mem_splitBy h
  exact hchain.imp fun row later hrow => by simpa using hrow

variable {address : UInt64}

theorem covers_iff {row next : Row} :
    covers address row next = true ↔ row.registers.address ≤ address ∧
      address < next.registers.address ∧ row.registers.endSequence = false := by
  simp [covers, and_assoc]

theorem lastUpTo?_cons (row : Row) (sequence : List Row) :
    lastUpTo? address (row :: sequence) =
      (lastUpTo? address sequence).or
        (if row.registers.address ≤ address then some row else none) := by
  rw [lastUpTo?, List.reverse_cons, List.find?_append, ← lastUpTo?]
  congr 1
  split_ifs with h <;> simp [h]

theorem lastUpTo?_eq_none {sequence : List Row}
    (h : ∀ row ∈ sequence, address < row.registers.address) :
    lastUpTo? address sequence = none := by
  rw [lastUpTo?, List.find?_eq_none]
  intro row hrow
  simpa using h row (List.mem_reverse.mp hrow)

theorem lastUpTo?_cons_of_isSome {row : Row} {sequence : List Row}
    (h : (lastUpTo? address sequence).isSome) :
    lastUpTo? address (row :: sequence) = lastUpTo? address sequence := by
  obtain ⟨found, hfound⟩ := Option.isSome_iff_exists.mp h
  rw [lastUpTo?_cons, hfound, Option.some_or]

theorem isSome_lastUpTo? {row : Row} {sequence : List Row} (hmem : row ∈ sequence)
    (h : row.registers.address ≤ address) : (lastUpTo? address sequence).isSome := by
  rw [lastUpTo?, List.find?_isSome]
  exact ⟨row, List.mem_reverse.mpr hmem, by simpa using h⟩

theorem spans_cons_cons (row next : Row) (rest : List Row) :
    spans address (row :: next :: rest) = true ↔
      row.registers.address ≤ address ∧
        (next :: rest).getLast?.any (address < ·.registers.address) = true := by
  simp [spans]

/-- No pair of neighbours reaches over the end of a sequence. -/
theorem firstCovering?_append {sequence rest : List Row}
    (hends : ∀ last ∈ sequence.getLast?, rest ≠ [] → last.registers.endSequence = true) :
    firstCovering? address (sequence ++ rest) =
      (firstCovering? address sequence).or (firstCovering? address rest) := by
  induction sequence with
  | nil => rfl
  | cons row sequence ih =>
    cases sequence with
    | nil =>
      cases rest with
      | nil => rfl
      | cons next rest =>
        have hend := hends row (by simp) (by simp)
        have hnot : ¬ covers address row next = true := by simp [covers_iff, hend]
        simp [firstCovering?, hnot]
    | cons next sequence =>
      have hmore := ih fun last hlast => hends last (by simpa using hlast)
      simp only [List.cons_append, firstCovering?] at hmore ⊢
      split_ifs
      · rfl
      · exact hmore

/-- In one sequence the search finds the last row that is not after the address. -/
theorem firstCovering?_sequence {sequence : List Row} (hunbroken : Unbroken sequence)
    (hascending : Ascending sequence) :
    firstCovering? address sequence =
      if spans address sequence then lastUpTo? address sequence else none := by
  induction sequence with
  | nil => rfl
  | cons row sequence ih =>
    cases sequence with
    | nil =>
      have hnot : ¬ spans address [row] = true := by simp [spans]
      rw [if_neg hnot]
      rfl
    | cons next sequence =>
      obtain ⟨hrow, hunbroken⟩ := List.isChain_cons_cons.mp hunbroken
      obtain ⟨hbelow, hascending⟩ := List.pairwise_cons.mp hascending
      rw [firstCovering?, ih hunbroken hascending]
      by_cases hcovers : covers address row next = true
      · obtain ⟨hfirst, hnext, -⟩ := covers_iff.mp hcovers
        have hafter : ∀ later ∈ next :: sequence, address < later.registers.address := by
          intro later hlater
          rcases List.mem_cons.mp hlater with rfl | hlater
          · exact hnext
          · exact UInt64.lt_of_lt_of_le hnext ((List.pairwise_cons.mp hascending).1 later hlater)
        have hspans : spans address (row :: next :: sequence) = true := by
          rw [spans_cons_cons]
          refine ⟨hfirst, ?_⟩
          rw [List.getLast?_eq_some_getLast (List.cons_ne_nil next sequence)]
          simpa using hafter _ (List.getLast_mem (List.cons_ne_nil next sequence))
        rw [if_pos hcovers, if_pos hspans, lastUpTo?_cons, lastUpTo?_eq_none hafter, if_pos hfirst,
          Option.none_or]
      · rw [if_neg hcovers]
        by_cases hnext : next.registers.address ≤ address
        · have hfirst := UInt64.le_trans (hbelow next List.mem_cons_self) hnext
          have hsame : spans address (row :: next :: sequence) =
              spans address (next :: sequence) := by
            simp [spans, hfirst, hnext]
          rw [hsame, lastUpTo?_cons_of_isSome (isSome_lastUpTo? List.mem_cons_self hnext)]
        · have hfirst : ¬ row.registers.address ≤ address := by
            intro hle
            exact hcovers (covers_iff.mpr ⟨hle, UInt64.not_le.mp hnext, hrow⟩)
          simp [spans, hfirst, hnext]

/-- The row that a search finds in a sequence has a row after it, so it does not end one. -/
theorem endSequence_of_lastUpTo? {sequence : List Row} {row : Row}
    (hunbroken : Unbroken sequence)
    (hlast : sequence.getLast?.any (address < ·.registers.address) = true)
    (h : lastUpTo? address sequence = some row) : row.registers.endSequence = false := by
  induction sequence with
  | nil => cases hlast
  | cons first sequence ih =>
    cases sequence with
    | nil =>
      have hafter : address < first.registers.address := by simpa using hlast
      rw [lastUpTo?_eq_none (by simpa using hafter)] at h
      cases h
    | cons next sequence =>
      obtain ⟨hfirst, hunbroken⟩ := List.isChain_cons_cons.mp hunbroken
      have hrest := ih hunbroken (by simpa using hlast)
      rw [lastUpTo?_cons] at h
      rcases hfound : lastUpTo? address (next :: sequence) with _ | found
      · rw [hfound, Option.none_or] at h
        split_ifs at h
        cases h
        exact hfirst
      · rw [hfound, Option.some_or] at h
        exact hrest (hfound.trans h)

theorem exists_lastUpTo? {sequence : List Row} (h : spans address sequence = true) :
    ∃ row, lastUpTo? address sequence = some row := by
  cases sequence with
  | nil => cases h
  | cons first sequence =>
    have hfirst : first.registers.address ≤ address := by
      simp only [spans, List.head?_cons, Option.any_some, Bool.and_eq_true,
        decide_eq_true_eq] at h
      exact h.1
    exact Option.isSome_iff_exists.mp (isSome_lastUpTo? List.mem_cons_self hfirst)

theorem lastUpTo?_eq_some {sequence : List Row} {row : Row}
    (h : lastUpTo? address sequence = some row) :
    row.registers.address ≤ address ∧ ∃ front back, sequence = front ++ row :: back ∧
      ∀ later ∈ back, address < later.registers.address := by
  obtain ⟨hrow, back, front, hsplit, hback⟩ := List.find?_eq_some_iff_append.mp h
  refine ⟨by simpa using hrow, front.reverse, back.reverse, ?_, fun later hlater => ?_⟩
  · have hwhole := congrArg List.reverse hsplit
    simpa using hwhole
  · simpa using hback later (List.mem_reverse.mp hlater)

theorem firstCovering?_flatten {runs : List (List Row)} (hnil : [] ∉ runs)
    (hunbroken : ∀ sequence ∈ runs, Unbroken sequence)
    (hends : runs.IsChain fun sequence _ =>
      ∀ last ∈ sequence.getLast?, last.registers.endSequence = true)
    (hascending : ∀ sequence ∈ runs, Ascending sequence) :
    firstCovering? address runs.flatten =
      (runs.find? (spans address)).bind (lastUpTo? address) := by
  induction runs with
  | nil => rfl
  | cons sequence runs ih =>
    have hrest := ih (fun h => hnil (List.mem_cons_of_mem _ h))
      (fun other h => hunbroken other (List.mem_cons_of_mem _ h)) hends.tail
      (fun other h => hascending other (List.mem_cons_of_mem _ h))
    have hlast : ∀ last ∈ sequence.getLast?, runs.flatten ≠ [] →
        last.registers.endSequence = true := by
      intro last hlast hmore
      cases runs with
      | nil => exact absurd rfl hmore
      | cons next runs => exact (List.isChain_cons_cons.mp hends).1 last hlast
    rw [List.flatten_cons, firstCovering?_append hlast, hrest,
      firstCovering?_sequence (hunbroken sequence List.mem_cons_self)
        (hascending sequence List.mem_cons_self), List.find?_cons]
    cases hspans : spans address sequence with
    | true =>
      obtain ⟨row, hrow⟩ := exists_lastUpTo? hspans
      simp [hrow]
    | false => simp

theorem isChain_sequences (rows : List Row) :
    (sequences rows).IsChain fun sequence _ =>
      ∀ last ∈ sequence.getLast?, last.registers.endSequence = true := by
  have hchain := List.isChain_getLast_head_splitBy
    (fun (row _ : Row) => !row.registers.endSequence) rows
  refine hchain.imp fun sequence next h last hlast => ?_
  obtain ⟨hne, -, hend⟩ := h
  rw [List.getLast?_eq_some_getLast hne, Option.mem_some_iff] at hlast
  subst hlast
  simpa using hend

/-- Over rows whose addresses go down in no sequence, the search finds the last row at or before
the address in the first sequence that spans it. -/
theorem firstCovering?_eq {rows : List Row}
    (hascending : ∀ sequence ∈ sequences rows, Ascending sequence) (address : UInt64) :
    firstCovering? address rows =
      ((sequences rows).find? (spans address)).bind (lastUpTo? address) := by
  have hsearch : firstCovering? address (sequences rows).flatten =
      ((sequences rows).find? (spans address)).bind (lastUpTo? address) :=
    firstCovering?_flatten
      (List.nil_notMem_splitBy (fun (row _ : Row) => !row.registers.endSequence) rows)
      (fun sequence h => unbroken_of_mem_sequences h) (isChain_sequences rows) hascending
  rwa [sequences, List.flatten_splitBy, ← sequences] at hsearch

end Row

/-- A search on a table whose program ends plainly finds a row if some sequence spans the address:
the last row at or before it in the first such sequence, which is never one that ends a
sequence. -/
theorem LineTable.findAddress_eq_lastUpTo {table : LineTable} (hplain : table.trace.fault = none)
    (hascending : ∀ sequence ∈ Row.sequences table.trace.rows, Row.Ascending sequence)
    (address : UInt64) :
    ∃ found, (table.findAddress address).2 = .ok found ∧
      (found.isSome ↔ ∃ sequence ∈ Row.sequences table.trace.rows, Row.spans address sequence) ∧
      ∀ row, found = some row →
        ∃ before sequence after front back,
          Row.sequences table.trace.rows = before ++ sequence :: after ∧
          (∀ earlier ∈ before, Row.spans address earlier = false) ∧
          Row.spans address sequence = true ∧
          sequence = front ++ row :: back ∧
          row.registers.address ≤ address ∧
          (∀ later ∈ back, address < later.registers.address) ∧
          row.registers.endSequence = false := by
  refine ⟨((Row.sequences table.trace.rows).find? (Row.spans address)).bind
    (Row.lastUpTo? address), ?_, ?_, ?_⟩
  · rw [findAddress_answer, Row.firstCovering?_eq hascending, hplain]
    cases ((Row.sequences table.trace.rows).find? (Row.spans address)).bind
      (Row.lastUpTo? address) <;> rfl
  · rw [← List.find?_isSome]
    cases hfound : (Row.sequences table.trace.rows).find? (Row.spans address) with
    | none => simp
    | some sequence =>
      obtain ⟨row, hrow⟩ := Row.exists_lastUpTo? (List.find?_some hfound)
      simp [hrow]
  · intro row hrow
    obtain ⟨sequence, hfound, hlast⟩ := Option.bind_eq_some_iff.mp hrow
    obtain ⟨hspans, before, after, hsplit, hbefore⟩ := List.find?_eq_some_iff_append.mp hfound
    obtain ⟨hle, front, back, hsequence, hback⟩ := Row.lastUpTo?_eq_some hlast
    have hunbroken := Row.unbroken_of_mem_sequences (List.mem_of_find?_eq_some hfound)
    have hend := Row.endSequence_of_lastUpTo? hunbroken (Bool.and_eq_true _ _ |>.mp hspans).2 hlast
    exact ⟨before, sequence, after, front, back, hsplit,
      fun earlier hearlier => by simpa using hbefore earlier hearlier, hspans, hsequence, hle,
      hback, hend⟩

/-- An address between two sequences, and one behind a repeated address in the second. -/
theorem LineTable.findAddress_second_sequence :
    ∃ table, LineTable.parse .little
        [44, 0, 0, 0, 2, 0, 15, 0, 0, 0, 1, 1, 0, 1, 4, 0, 1, 1, 0, 97, 0, 0, 0, 0, 0,
          1, 2, 4, 1, 2, 4, 0, 1, 1, 0, 5, 2, 16, 0, 0, 0, 1, 1, 2, 2, 0, 1, 1] 0
        { addressSize := 4, compDir := "/", name := "u" } = .ok table ∧
      table.trace.rows.map (·.registers.address) = [0, 4, 8, 16, 16, 18] ∧
      (table.findAddress 12).2 = .ok none ∧
      ∃ row, (table.findAddress 17).2 = .ok (some row) ∧ row.registers.address ≤ 17 ∧
        row.registers.endSequence = false := by
  obtain ⟨table, hparse, hplain, hascending, haddresses, hgap, hspans⟩ :
      ∃ table, LineTable.parse .little
          [44, 0, 0, 0, 2, 0, 15, 0, 0, 0, 1, 1, 0, 1, 4, 0, 1, 1, 0, 97, 0, 0, 0, 0, 0,
            1, 2, 4, 1, 2, 4, 0, 1, 1, 0, 5, 2, 16, 0, 0, 0, 1, 1, 2, 2, 0, 1, 1] 0
          { addressSize := 4, compDir := "/", name := "u" } = .ok table ∧
        table.trace.fault = none ∧
        (∀ sequence ∈ Row.sequences table.trace.rows, Row.Ascending sequence) ∧
        table.trace.rows.map (·.registers.address) = [0, 4, 8, 16, 16, 18] ∧
        (¬ ∃ sequence ∈ Row.sequences table.trace.rows, Row.spans 12 sequence) ∧
        ∃ sequence ∈ Row.sequences table.trace.rows, Row.spans 17 sequence :=
    ⟨{ program :=
        { header :=
            { order := .little, version := 2, addressSize := 4, minimumInstructionLength := 1
              maximumOperations := 1, defaultIsStmt := true, lineBase := 0, lineRange := 1
              opcodeBase := 4, format := .dwarf32, unitLength := 44, segmentSelectorSize := 0
              headerLength := 15, programOffset := 25, operandCounts := [0, 0, 1, 1]
              directoryFormat := [], fileFormat := [] }
          bytes := [44, 0, 0, 0, 2, 0, 15, 0, 0, 0, 1, 1, 0, 1, 4, 0, 1, 1, 0, 97, 0, 0, 0, 0, 0,
            1, 2, 4, 1, 2, 4, 0, 1, 1, 0, 5, 2, 16, 0, 0, 0, 1, 1, 2, 2, 0, 1, 1]
          tablesEnd := 25 }
       files :=
        { compDir := "/", directories := ["/"]
          files := [{ path := "/u", directoryIndex := 0 },
            { path := "/a", directoryIndex := 0 }] } },
      by decide +kernel, by decide +kernel, by decide +kernel, by decide +kernel,
      by decide +kernel, by decide +kernel⟩
  obtain ⟨missing, hmissing, hmissed, -⟩ := LineTable.findAddress_eq_lastUpTo hplain hascending 12
  obtain ⟨found, hanswer, hfound, hrow⟩ := LineTable.findAddress_eq_lastUpTo hplain hascending 17
  obtain ⟨row, rfl⟩ := Option.isSome_iff_exists.mp (hfound.mpr hspans)
  obtain ⟨-, -, -, -, -, -, -, -, -, hle, -, hend⟩ := hrow row rfl
  have hnone : missing = none := by
    rw [← Option.not_isSome_iff_eq_none, hmissed]
    exact hgap
  exact ⟨table, hparse, haddresses, hnone ▸ hmissing, row, hanswer, hle, hend⟩

end DwarfLines
