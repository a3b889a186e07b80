import Kernalite.Allocator.Coverage
import Kernalite.Allocator.DumpStatus
import Kernalite.Allocator.DumpText
import Kernalite.Allocator.FirstFit
import Kernalite.Allocator.Free
import Kernalite.Allocator.FreeBlocks
import Kernalite.Allocator.Init
import Kernalite.Allocator.InitFailure
import Kernalite.Allocator.InitRegion
import Kernalite.Allocator.NullPointer
import Kernalite.Allocator.Operations
import Kernalite.Allocator.PageAllocator
import Kernalite.Allocator.Pool
import Kernalite.Allocator.Reserve
import Kernalite.Allocator.Restore
import Kernalite.Allocator.Tracking
import Kernalite.Boot.DataCache
import Kernalite.Boot.Decision
import Kernalite.Boot.Formats
import Kernalite.Boot.HandOff
import Kernalite.Boot.Main
import Kernalite.Boot.Outcome
import Kernalite.Boot.Program
import Kernalite.Boot.Shutdown
import Kernalite.Drivers.Uart
import Kernalite.Error.Panic
import Kernalite.Fdt.Errors
import Kernalite.Fdt.Fdt
import Kernalite.Fdt.Libfdt
import Kernalite.Fdt.Regions
import Kernalite.Fdt.Search
import Kernalite.Kernel
import Kernalite.Lib.A64
import Kernalite.Lib.A64Cache
import Kernalite.Lib.A64Runs
import Kernalite.Lib.BigEndian
import Kernalite.Lib.BitField
import Kernalite.Lib.ByteMemory
import Kernalite.Lib.ByteString
import Kernalite.Lib.FirstFit
import Kernalite.Lib.FreeRuns
import Kernalite.Lib.Ledger
import Kernalite.Lib.Loop
import Kernalite.Lib.Numeral
import Kernalite.Lib.PackedBits
import Kernalite.Lib.RadixForest
import Kernalite.Lib.RunLength
import Kernalite.Lib.TextScan
import Kernalite.Lib.Traversal
import Kernalite.Lib.Vmsa
import Kernalite.Lib.Words
import Kernalite.Linker
import Kernalite.PageTable.Descent
import Kernalite.PageTable.Dump
import Kernalite.PageTable.DumpText
import Kernalite.PageTable.Entry
import Kernalite.PageTable.Failure
import Kernalite.PageTable.Forest
import Kernalite.PageTable.Level
import Kernalite.PageTable.MapPage
import Kernalite.PageTable.Order
import Kernalite.PageTable.Ownership
import Kernalite.PageTable.PageTable
import Kernalite.PageTable.Permissions
import Kernalite.PageTable.System
import Kernalite.PageTable.Translation
import Kernalite.PageTable.Truncation
import Kernalite.PageTable.Update
import Kernalite.PageTable.Walk
import Kernalite.Tests.PageTableMap
import Kernalite.Tests.Suite
import Kernalite.Utils.Calls
import Kernalite.Utils.Console
import Kernalite.Utils.Format
import Kernalite.Utils.Itoa
import Kernalite.Utils.Kprintf
import Kernalite.Utils.LongModifier
import Kernalite.Utils.Memcmp
import Kernalite.Utils.Memcpy
import Kernalite.Utils.Memmove
import Kernalite.Utils.Readback
import Kernalite.Utils.RoundTrip
import Kernalite.Utils.Scan
import Kernalite.Utils.SignedArgument
import Kernalite.Utils.String
import Kernalite.Utils.StringSearch
import Kernalite.Utils.Strtoul
import Kernalite.Utils.Vprintf
