import DwarfLines.Assembly.Info
import DwarfLines.Assembly.Unit
import DwarfLines.Bytes.Leb128Lemmas
import DwarfLines.Bytes.OrderLemmas
import DwarfLines.Dwarf.Writing
import DwarfLines.Machine.Meaning
import DwarfLines.Main
import DwarfLines.Proofs.Bytes.Reads
import DwarfLines.Proofs.Files.Covers
import DwarfLines.Proofs.Machine.Decoding
import DwarfLines.Table.Interleaving
import DwarfLines.Table.Session
import DwarfLines.Proofs.Machine.SharedFiles
import DwarfLines.Proofs.Table.LonePass
import DwarfLines.Proofs.Table.SharedTable
import DwarfLines.Proofs.Table.Chronicle
import DwarfLines.Proofs.Table.Independence
import DwarfLines.Proofs.Bytes.Gives
import DwarfLines.Proofs.Header.Acceptance
import DwarfLines.Proofs.Machine.Effects
import DwarfLines.Proofs.Table.ProgramTrace
import DwarfLines.Proofs.Dwarf.FormReading
import DwarfLines.Proofs.Header.UnitReading
import DwarfLines.Proofs.Files.DescribedReading
import DwarfLines.Proofs.Header.DescribedUnits
import DwarfLines.Proofs.Files.LegacyReading
import DwarfLines.Proofs.Header.LegacyUnits
import DwarfLines.Proofs.Table.Sequences
import DwarfLines.Proofs.Machine.Declarations
import DwarfLines.Proofs.Table.Completeness
import DwarfLines.Proofs.Table.FileLookup
import DwarfLines.Proofs.Bytes.Locality
import DwarfLines.Proofs.Table.Requests
import DwarfLines.Proofs.Machine.Locality
import DwarfLines.Proofs.Header.Locality
import DwarfLines.Proofs.Header.Framing
import DwarfLines.Proofs.Table.Truncation
import DwarfLines.Proofs.Table.Finality
import DwarfLines.Proofs.Table.Schedules
import DwarfLines.Proofs.Machine.Relocation
import DwarfLines.Proofs.Table.Composition
import DwarfLines.Proofs.Header.Fields
import DwarfLines.Proofs.Header.ReplacedPrograms
import DwarfLines.Proofs.Files.Cells
import DwarfLines.Proofs.Files.Pieces
import DwarfLines.Proofs.Header.Integrity
import DwarfLines.Proofs.Machine.Rewriting
import DwarfLines.Proofs.Table.RewrittenPrograms
import DwarfLines.Proofs.Table.LongForms
import DwarfLines.Proofs.Files.VendorColumns
import DwarfLines.Proofs.Table.WidenedUnits
import DwarfLines.Proofs.Bytes.Checking
import DwarfLines.Proofs.Files.Checking
import DwarfLines.Proofs.Header.Checking
import DwarfLines.Proofs.Machine.Checking
import DwarfLines.Proofs.Table.Checking
import DwarfLines.Proofs.Table.Safety
import DwarfLines.Proofs.Machine.Refusals
import DwarfLines.Proofs.Table.LateFiles
import DwarfLines.Proofs.Table.RepeatedLookups
import DwarfLines.Proofs.Table.ReplacedGaps
import DwarfLines.Proofs.Machine.RewrittenFiles
import DwarfLines.Proofs.Table.PaddedPrograms
import DwarfLines.Proofs.Table.WeakHandles
import DwarfLines.Proofs.Info.ByteOrder
import DwarfLines.Proofs.Command.ChosenUnit
import DwarfLines.Proofs.Info.AbbreviationReading
import DwarfLines.Proofs.Info.EntryReading
import DwarfLines.Proofs.Info.UnitDiscovery
import DwarfLines.Proofs.Table.ListedRecords
import DwarfLines.Proofs.Table.EarlyDeclarations
import DwarfLines.Proofs.Table.AddressSearch
import DwarfLines.Proofs.Machine.RestingRegisters
import DwarfLines.Proofs.Table.RestingPasses
import DwarfLines.Proofs.Files.AbsolutePaths
import DwarfLines.Proofs.Header.DeclaredLists
import DwarfLines.Proofs.Table.LateRecords
import DwarfLines.Proofs.Table.ResolvedPaths
import DwarfLines.Proofs.Table.Digests
import DwarfLines.Proofs.Machine.OperationAdvances
import DwarfLines.Proofs.Table.FinishedPasses
import DwarfLines.Proofs.Table.CountedPasses
import DwarfLines.Proofs.Table.BoundedWork
import DwarfLines.Proofs.Bytes.CountedLoops
import DwarfLines.Proofs.Header.BoundedLists
import DwarfLines.Proofs.Dwarf.FormSkipping
import DwarfLines.Proofs.Text.Numerals
import DwarfLines.Proofs.Command.AddressTexts
import DwarfLines.Proofs.Log.FilterSource
import DwarfLines.Proofs.Command.AddressLookup
import DwarfLines.Proofs.Machine.Boundaries
import DwarfLines.Proofs.Machine.Extent
import DwarfLines.Proofs.Table.Boundaries
import DwarfLines.Proofs.Table.SteppedSessions
