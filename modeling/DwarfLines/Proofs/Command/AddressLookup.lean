import DwarfLines.Proofs.Command.ChosenUnit
import DwarfLines.Proofs.Table.AddressSearch

/-!
# Looking addresses up in several tables

An address is looked up in one table after another, up to the first that does not miss it. If no
table has a fault and no two contain the address, the order of the tables makes no difference: the
one that contains it answers, wherever it stands. A search leaves a table that goes on answering
alike, so the same holds of many addresses that are looked up one after another.
-/

namespace DwarfLines

/-- Where a function has a value for one element at most, the first value is the same in every
order. -/
theorem findSome?_eq_of_perm {α β : Type} {f : α → Option β} {first second : List α}
    (hperm : first.Perm second)
    (hone : second.Pairwise fun a b => ¬ ((f a).isSome = true ∧ (f b).isSome = true)) :
    first.findSome? f = second.findSome? f := by
  cases hfirst : first.findSome? f with
  | none =>
    symm
    rw [List.findSome?_eq_none_iff] at hfirst ⊢
    exact fun a ha => hfirst a (hperm.mem_iff.mpr ha)
  | some value =>
    obtain ⟨a, ha, hvalue⟩ := List.exists_of_findSome?_eq_some hfirst
    have ha := hperm.mem_iff.mp ha
    have hsome : (second.findSome? f).isSome = true :=
      List.findSome?_isSome_iff.mpr ⟨a, ha, by rw [hvalue]; rfl⟩
    obtain ⟨other, hsecond⟩ := Option.isSome_iff_exists.mp hsome
    obtain ⟨b, hb, hother⟩ := List.exists_of_findSome?_eq_some hsecond
    -- Each value is that of an element which has one, so both elements are the same.
    have hsame : a = b := by
      by_contra hne
      have hsymm : Std.Symm fun a b => ¬ ((f a).isSome = true ∧ (f b).isSome = true) :=
        ⟨fun a b hab hba => hab hba.symm⟩
      exact hone.forall ha hb hne ⟨by rw [hvalue]; rfl, by rw [hother]; rfl⟩
    rw [hsecond, ← hother, ← hsame, hvalue]

namespace LineTable

/-- Whether an address lies in a range of the table, from a row that ends no sequence up to the row
after it. -/
def Contains (table : LineTable) (address : UInt64) : Prop :=
  ∃ index, Row.RangeContains address table.trace.rows index

def Apart (tables : List LineTable) (address : UInt64) : Prop :=
  tables.Pairwise fun first second => ¬ (first.Contains address ∧ second.Contains address)

variable {table : LineTable} {currents tables permuted : List LineTable} {address : UInt64}

theorem isSome_firstCovering?_iff :
    (Row.firstCovering? address table.trace.rows).isSome = true ↔ table.Contains address := by
  constructor
  · intro hsome
    by_contra hnone
    rw [Row.firstCovering?_of_none (not_exists.mp hnone)] at hsome
    cases hsome
  · intro hcontains
    classical
    obtain ⟨row, -, hrow, -⟩ := Nat.find_spec hcontains
    rw [Row.firstCovering?_of_least hrow (Nat.find_spec hcontains) fun _ => Nat.find_min hcontains]
    rfl

/-- A lookup gives the first answer that is not that nothing was found. -/
theorem lookup_answer (address : UInt64) (tables : List LineTable) :
    (lookup address tables).2 =
      ((tables.map fun table => (table.findAddress address).2).find?
        (· ≠ .ok none)).getD (.ok none) := by
  induction tables with
  | nil => rfl
  | cons table rest ih =>
    rw [lookup]
    rcases hsearch : table.findAddress address with ⟨searched, e | row | _⟩
    · simp [hsearch]
    · simp [hsearch, ih]
    · simp [hsearch]

def firstRow? (tables : List LineTable) (address : UInt64) : Option Row :=
  tables.findSome? fun table => Row.firstCovering? address table.trace.rows

theorem lookup_of_plain (hplain : ∀ table ∈ tables, table.trace.fault = none)
    (address : UInt64) : (lookup address tables).2 = .ok (firstRow? tables address) := by
  induction tables with
  | nil => rfl
  | cons table rest ih =>
    obtain ⟨hfirst, hrest⟩ := List.forall_mem_cons.mp hplain
    have hanswer := table.findAddress_answer address
    rw [hfirst] at hanswer
    rw [lookup, firstRow?, List.findSome?_cons]
    rcases hsearch : table.findAddress address with ⟨searched, answer⟩
    rw [hsearch] at hanswer
    cases hrow : Row.firstCovering? address table.trace.rows with
    | none =>
      rw [hrow] at hanswer
      cases hanswer
      exact ih hrest
    | some row =>
      rw [hrow] at hanswer
      cases hanswer
      rfl

theorem firstRow?_eq_none_iff :
    firstRow? tables address = none ↔ ∀ table ∈ tables, ¬ table.Contains address := by
  simp only [firstRow?, List.findSome?_eq_none_iff, ← isSome_firstCovering?_iff,
    Option.not_isSome_iff_eq_none]

theorem firstRow?_of_perm (hapart : Apart tables address) (hperm : permuted.Perm tables) :
    firstRow? permuted address = firstRow? tables address := by
  apply findSome?_eq_of_perm hperm
  simp only [isSome_firstCovering?_iff]
  exact hapart

/-- Tables that searches went through, with the tables as they were at first. -/
def Searched (currents tables : List LineTable) : Prop :=
  List.Forall₂ (fun current table => ∃ reached, current.Extends table reached) currents tables

theorem Searched.refl (tables : List LineTable) : Searched tables tables :=
  List.forall₂_same.mpr fun table _ => ⟨0, .refl table⟩

/-- A lookup answers as it does at first, and leaves tables that were only searched. -/
theorem Searched.lookup (h : Searched currents tables) (address : UInt64) :
    (LineTable.lookup address currents).2 = (LineTable.lookup address tables).2 ∧
      Searched (LineTable.lookup address currents).1 tables := by
  induction h with
  | nil => exact ⟨rfl, .nil⟩
  | @cons current table currents tables hhead hrest ih =>
    obtain ⟨reached, hextends⟩ := hhead
    obtain ⟨more, -, hmore, -⟩ := hextends.findAddress address
    have hanswer := hextends.findAddress_eq address
    rw [LineTable.lookup, LineTable.lookup]
    generalize current.findAddress address = ran at hmore hanswer ⊢
    generalize table.findAddress address = ran' at hanswer ⊢
    obtain ⟨searched, answer⟩ := ran
    obtain ⟨searched', answer'⟩ := ran'
    cases hanswer
    rcases answer with e | row | _
    · exact ⟨rfl, .cons ⟨more, hmore⟩ hrest⟩
    · exact ⟨ih.1, .cons ⟨more, hmore⟩ ih.2⟩
    · exact ⟨rfl, .cons ⟨more, hmore⟩ hrest⟩

end LineTable

theorem lookupAll_cons_run {currents : List LineTable} {address : UInt64} {found : Option Row}
    (h : (LineTable.lookup address currents).2 = .ok found) (rest : List UInt64)
    (shown : Transcript) :
    ∃ logged, (lookupAll currents (address :: rest)).run.run shown =
      (lookupAll (LineTable.lookup address currents).1 rest).run.run
        { output := shown.output ++ [lookupLine address found]
          events := shown.events ++ logged } := by
  rw [lookupAll]
  generalize LineTable.lookup address currents = ran at h ⊢
  obtain ⟨searched, answer⟩ := ran
  cases h
  exact ⟨_, rfl⟩

/-- Lookups one after another each show what the tables have for their address at first. -/
theorem lookupAll_run {currents tables : List LineTable} (h : LineTable.Searched currents tables)
    (hplain : ∀ table ∈ tables, table.trace.fault = none) (addresses : List UInt64)
    (shown : Transcript) :
    ((lookupAll currents addresses).run.run shown).1 = .ok () ∧
      ((lookupAll currents addresses).run.run shown).2.output = shown.output ++
        addresses.map fun address => lookupLine address (LineTable.firstRow? tables address) := by
  -- The tables change with each lookup; what stays is that they were only searched.
  induction addresses generalizing currents shown with
  | nil => exact ⟨rfl, (List.append_nil _).symm⟩
  | cons address rest ih =>
    obtain ⟨hanswer, hsearched⟩ := h.lookup address
    rw [LineTable.lookup_of_plain hplain] at hanswer
    obtain ⟨logged, hrun⟩ := lookupAll_cons_run hanswer rest shown
    obtain ⟨hresult, houtput⟩ := ih hsearched
      { output := shown.output ++ [lookupLine address (LineTable.firstRow? tables address)]
        events := shown.events ++ logged }
    rw [hrun]
    refine ⟨hresult, houtput.trans ?_⟩
    rw [List.append_assoc, List.singleton_append, List.map_cons]

namespace LineTable

/-- A lookup gives the answer of the first table that does not miss the address. If no table has a
fault, nothing is found exactly if no range of a table contains the address. If moreover no two
tables contain it, the tables give the same row in every order, and addresses that are looked up
one after another get the lines of these rows. -/
theorem lookup_in_any_order (tables : List LineTable) :
    (∀ address, (lookup address tables).2 =
      ((tables.map fun table => (table.findAddress address).2).find?
        (· ≠ .ok none)).getD (.ok none)) ∧
    ((∀ table ∈ tables, table.trace.fault = none) →
      (∀ address, (lookup address tables).2 = .ok none ↔
        ∀ table ∈ tables, ¬ table.Contains address) ∧
      ∀ permuted, permuted.Perm tables →
        (∀ address, Apart tables address →
          (lookup address permuted).2 = (lookup address tables).2) ∧
        ∀ addresses, (∀ address ∈ addresses, Apart tables address) →
          ∃ found : UInt64 → Option Row,
            (∀ address, (lookup address tables).2 = .ok (found address)) ∧
            (lookupAll permuted addresses).perform.1 = .ok () ∧
            (lookupAll permuted addresses).perform.2.output =
              addresses.map fun address => lookupLine address (found address)) := by
  refine ⟨fun address => lookup_answer address tables, fun hplain => ⟨?_, ?_⟩⟩
  · intro address
    rw [lookup_of_plain hplain, ← firstRow?_eq_none_iff, Except.ok.injEq]
  · intro permuted hperm
    have hplain' : ∀ table ∈ permuted, table.trace.fault = none :=
      fun table htable => hplain table (hperm.mem_iff.mp htable)
    constructor
    · intro address hapart
      rw [lookup_of_plain hplain, lookup_of_plain hplain', firstRow?_of_perm hapart hperm]
    · intro addresses hapart
      obtain ⟨hresult, houtput⟩ := lookupAll_run (.refl permuted) hplain' addresses {}
      refine ⟨firstRow? tables, lookup_of_plain hplain, hresult, houtput.trans ?_⟩
      rw [List.nil_append]
      apply List.map_congr_left
      intro address haddress
      rw [firstRow?_of_perm (hapart address haddress) hperm]

/-- A table with one range of four bytes, which begins at the given address. -/
def unitFrom (first : UInt8) : List UInt8 :=
  [29, 0, 0, 0, 2, 0, 15, 0, 0, 0, 1, 1, 0, 1, 4, 0, 1, 1, 0, 97, 0, 0, 0, 0, 0,
    2, first, 1, 2, 4, 0, 1, 1]

/-- Of two tables the second answers where it stands first, and neither has an address between
them. -/
theorem lookup_behind_and_before :
    ∃ low high, parse .little (unitFrom 0) 0 { addressSize := 4, compDir := "/", name := "u" } =
        .ok low ∧
      parse .little (unitFrom 16) 0 { addressSize := 4, compDir := "/", name := "u" } = .ok high ∧
      (∀ table ∈ [low, high], table.trace.fault = none) ∧
      (∀ address ∈ [2, 9], Apart [low, high] address) ∧
      (lookup 2 [high, low]).2 = (lookup 2 [low, high]).2 ∧
      (lookupAll [high, low] [2, 9]).perform.2.output = ["0x2: /a:1", "0x9: ??"] := by
  have hknownLow : (parse .little (unitFrom 0) 0
      { addressSize := 4, compDir := "/", name := "u" }).map (fun table =>
      decide (table.trace.fault = none ∧
        (Row.firstCovering? 2 table.trace.rows).map Row.describe = some "/a:1" ∧
        Row.firstCovering? 9 table.trace.rows = none)) = .ok true := by
    decide +kernel
  have hknownHigh : (parse .little (unitFrom 16) 0
      { addressSize := 4, compDir := "/", name := "u" }).map (fun table =>
      decide (table.trace.fault = none ∧ Row.firstCovering? 2 table.trace.rows = none ∧
        Row.firstCovering? 9 table.trace.rows = none)) = .ok true := by
    decide +kernel
  obtain ⟨low, hlow, hfacts⟩ := exists_of_map_eq_ok hknownLow
  obtain ⟨high, hhigh, hfacts'⟩ := exists_of_map_eq_ok hknownHigh
  obtain ⟨hfault, hrow, hmissed⟩ := of_decide_eq_true hfacts
  obtain ⟨hfault', hrow', hmissed'⟩ := of_decide_eq_true hfacts'
  obtain ⟨row, hrow, hdescribed⟩ := Option.map_eq_some_iff.mp hrow
  have hplain : ∀ table ∈ [low, high], table.trace.fault = none := by
    simp [hfault, hfault']
  have hapart : ∀ address ∈ [2, 9], Apart [low, high] address := by
    have hnot : ∀ address ∈ [2, 9], ¬ high.Contains address := by
      simp [← isSome_firstCovering?_iff, hrow', hmissed']
    exact fun address haddress =>
      List.pairwise_pair.mpr fun hboth => hnot address haddress hboth.2
  obtain ⟨hsame, hshown⟩ := ((lookup_in_any_order [low, high]).2 hplain).2 [high, low]
    (.swap low high [])
  obtain ⟨found, hfound, -, houtput⟩ := hshown [2, 9] hapart
  have hfirst : ∀ address, found address = firstRow? [low, high] address := fun address =>
    Except.ok.inj ((hfound address).symm.trans (lookup_of_plain hplain address))
  have htwo : found 2 = some row := by
    rw [hfirst, firstRow?, List.findSome?_cons, hrow]
  have hnine : found 9 = none := by
    simp [hfirst, firstRow?, hmissed, hmissed']
  refine ⟨low, high, hlow, hhigh, hplain, hapart, hsame 2 (hapart 2 (by simp)), ?_⟩
  rw [houtput, List.map_cons, List.map_singleton, htwo, hnine, lookupLine, lookupLine]
  simp only [hdescribed]
  decide +kernel

end LineTable
end DwarfLines
