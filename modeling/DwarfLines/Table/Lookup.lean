import DwarfLines.Table.LineTable

/-!
# Lookup in several tables

An address is looked up in one table after another until one of them answers with a row or fails.
A table after that is not run, so its faults do not show.
-/

namespace DwarfLines
namespace LineTable

/-- Finds the row that covers an address in the first table that has one. -/
def lookup (address : UInt64) : List LineTable → List LineTable × Except LineError (Option Row)
  | [] => ([], .ok none)
  | table :: rest =>
    match table.findAddress address with
    | (searched, .ok none) =>
      let (more, answer) := lookup address rest
      (searched :: more, answer)
    | (searched, answer) => (searched :: rest, answer)

/-- The tables that a lookup runs, each with the trace of its search. -/
def lookupTraces (address : UInt64) : List LineTable → List (LineTable × Trace)
  | [] => []
  | table :: rest =>
    (table, (table.search address).1) ::
      match (table.findAddress address).2 with
      | .ok none => lookupTraces address rest
      | _ => []

end LineTable
end DwarfLines
