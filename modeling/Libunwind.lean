import Libunwind.Dwarf.CfiRefinement
import Libunwind.Dwarf.CfiProgress
import Libunwind.Dwarf.RowUse
import Libunwind.Dwarf.ExprSafety
import Libunwind.Dwarf.EncodedPointer
import Libunwind.Dwarf.ExprEvaluation
import Libunwind.Dwarf.LinearSearch
import Libunwind.Dwarf.IndexMake
import Libunwind.Elf.LoadBias
import Libunwind.Elf.ClosestSymbol
import Libunwind.Elf.GnuHash
import Libunwind.Elf.SymbolWalk
import Libunwind.Elf.BuildIdPath
import Libunwind.Elf.DebugInfo
import Libunwind.Dwarf.RegStatesIterate
import Libunwind.Dwarf.DebugFrame
import Libunwind.Dwarf.CacheTransparency
import Libunwind.Dwarf.CacheRun
import Libunwind.Dwarf.CacheSystem
import Libunwind.X64.FastTrace
import Libunwind.X64.Coherence
import Libunwind.X64.HeuristicFrames
import Libunwind.LookupFlag
import Libunwind.A64.FastTrace
import Libunwind.Resume
import Libunwind.Ppc64.OneFrame
import Libunwind.Dyn.DwarfTables
import Libunwind.Dyn.Ownership
import Libunwind.Dyn.Registry
import Libunwind.Dyn.Interleaving
import Libunwind.Mempool.Reserve
import Libunwind.AddressValidator
import Libunwind.Maps.Split
import Libunwind.Coredump.AccessMem
import Libunwind.Exception.Arm
import Libunwind.Exception.Delivery
import Libunwind.Init
import Libunwind.Arm.ExRefinement
import Libunwind.Arm.ExidxStep
import Libunwind.Arm.Extract
import Libunwind.Arm.SearchTable
import Libunwind.Arm.FastTrace
import Libunwind.A64.FrameRecord
import Libunwind.A64.SveRecords
import Libunwind.Lookup.HistoryFree
import Libunwind.Lookup.OwnProcedures
import Libunwind.Dwarf.MemoryReaders
import Libunwind.Dwarf.Leb128Readers
import Libunwind.X64.AsArg
import Libunwind.X86.Step
import Libunwind.Dwarf.CacheSize
import Libunwind.Coredump.Threads
import Libunwind.Coredump.FileMap
import Libunwind.Ia64.ScriptCache
import Libunwind.Ia64.CoverAndFlush
import Libunwind.Ia64.SaveOrder
import Libunwind.X64.CallStack
import Libunwind.Ia64.UnwindTable
import Libunwind.Ia64.DescriptorArea
import Libunwind.Ia64.StackBalance
import Libunwind.Ia64.CacheTransparency
import Libunwind.Dwarf.TableLookup
import Libunwind.Dwarf.IndexSort
import Libunwind.A64.PltEntry
import Libunwind.Setjmp.Ports
