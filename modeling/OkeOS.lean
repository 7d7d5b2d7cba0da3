import OkeOS.AcpiCore
import OkeOS.AcpiPages
import OkeOS.AcpiTables
import OkeOS.AddressSpace
import OkeOS.BitmapArray
import OkeOS.BootCore
import OkeOS.BootFrames
import OkeOS.BootIdentity
import OkeOS.BubbleSort
import OkeOS.ByteMemory
import OkeOS.ByteStrings
import OkeOS.ConsoleCore
import OkeOS.ConsoleEscape
import OkeOS.ConsoleFormat
import OkeOS.ConsoleMeaning
import OkeOS.ConsolePercent
import OkeOS.FaultText
import OkeOS.FrameOwnership
import OkeOS.FramePool
import OkeOS.FramebufferCore
import OkeOS.GdtTss
import OkeOS.HeapAccount
import OkeOS.HeapChain
import OkeOS.HeapClear
import OkeOS.HeapCore
import OkeOS.HeapExpansions
import OkeOS.HeapHeld
import OkeOS.HeapHuge
import OkeOS.HeapInvariant
import OkeOS.HeapIsolation
import OkeOS.HeapModel
import OkeOS.HeapOps
import OkeOS.HeapReuse
import OkeOS.HeapSession
import OkeOS.HeapTotal
import OkeOS.HeapWrites
import OkeOS.InterruptEntry
import OkeOS.InterruptTable
import OkeOS.KernelWindow
import OkeOS.ListCore
import OkeOS.ListHeap
import OkeOS.ListRefine
import OkeOS.ListSession
import OkeOS.ListSort
import OkeOS.ListStorage
import OkeOS.LoggerHeap
import OkeOS.LoggerText
import OkeOS.MachineCore
import OkeOS.MemMove
import OkeOS.MemoryMap
import OkeOS.NumberRead
import OkeOS.PagingCodec
import OkeOS.Panic
import OkeOS.PfaCalls
import OkeOS.PfaCounters
import OkeOS.PfaRanges
import OkeOS.Pit
import OkeOS.PitClock
import OkeOS.SerialPort
import OkeOS.Stopwatch
import OkeOS.StringBuilderBuild
import OkeOS.StringBuilderCore
import OkeOS.StringBuilderLedger
import OkeOS.StringBuilderLife
import OkeOS.StringBuilderLoops
import OkeOS.StringBuilderOutput
import OkeOS.StringBuilderSpec
import OkeOS.TerminalClear
import OkeOS.TerminalPage
import OkeOS.TerminalPixels
import OkeOS.TerminalScreen
import OkeOS.Tiling
import OkeOS.WordStack
