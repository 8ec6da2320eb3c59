import Sys161.Lib.Runs
import Sys161.Lib.LinkedList
import Sys161.Lib.Exec
import Sys161.Lib.Attempt
import Sys161.Lib.PageBits
import Sys161.Lib.Ring
import Sys161.Lib.Buffer
import Sys161.Lib.CString
import Sys161.Lib.Decimal
import Sys161.Lib.Framing
import Sys161.Lib.ByteOrder
import Sys161.Lib.Hex
import Sys161.Lib.CInt
import Sys161.Lib.Loops
import Sys161.Lib.MatchCounter
import Sys161.Lib.Flags
import Sys161.Lib.ShiftStack
import Sys161.Clock.State
import Sys161.Clock.Queue
import Sys161.Clock.History
import Sys161.Clock.WallClock
import Sys161.Clock.MainLoop
import Sys161.Clock.Accounting
import Sys161.Clock.Timeliness
import Sys161.Clock.Monotone
import Sys161.Clock.IdleWait
import Sys161.Bus.DevDisk
import Sys161.Bus.DevEmufs
import Sys161.Bus.NetCounts
import Sys161.Bus.DevSerial
import Sys161.Bus.DevTimer
import Sys161.Bus.SerialRuns
import Sys161.Bus.BootSafety
import Sys161.Bus.World
import Sys161.Bus.CheckQueue
import Sys161.Bus.DiskTries
import Sys161.Bus.DiskRotation
import Sys161.Bus.DiskTracks
import Sys161.Bus.EmufsRuns
import Sys161.Bus.EmufsErrors
import Sys161.Main.Meter
import Sys161.Main.MeterReplies
import Sys161.Main.MeterStream
import Sys161.Main.ProfText
import Sys161.Main.CallGraph
import Sys161.Main.CycleStats
import Sys161.Main.Tracefile
import Sys161.Stat161.MeterLink
import Sys161.Stat161.Reader
import Sys161.Gdb.Receive
import Sys161.Gdb.Translation
import Sys161.Gdb.MemoryCores
import Sys161.Gdb.Threads
import Sys161.Gdb.Checksum
import Sys161.Mips.Zero
import Sys161.Mips.Tlb
import Sys161.Mips.Random
import Sys161.Mips.FetchRuns
import Sys161.Mips.Wiring
import Sys161.Mips.Rewind
import Sys161.Mips.FetchFaults
import Sys161.Mips.MulDiv
import Sys161.Mips.Interlock
import Sys161.Mips.BadVaddr
import Sys161.Mips.Unaligned
import Sys161.Mips.HostMemory
import Sys161.Mips.TlbRegs
import Sys161.Mips.StatusStack
import Sys161.Mips.Timer
import Sys161.Mips.VpageRuns
import Sys161.Riscv.FetchRuns
import Sys161.Riscv.TableRoot
import Sys161.Riscv.DecodeRuns
import Sys161.Riscv.Wiring
import Sys161.Riscv.Zero
import Sys161.Riscv.CpuStart
import Sys161.Riscv.MulDiv
import Sys161.Riscv.TrapReturn
import Sys161.Riscv.Links
import Sys161.Riscv.PageWalk
import Sys161.Riscv.StoredBytes
import Sys161.Riscv.Amo
import Sys161.Hub.NethubRuns
import Sys161.Hub.ArrayBlocks
import Sys161.Disk161.Clobber
import Sys161.Disk161.Sizes
import Sys161.Bus.ConfigSizes
import Sys161.Bus.TimerRuns
import Sys161.Bus.BootEntry
import Sys161.Bus.BootContents
import Sys161.Bus.Config
import Sys161.Bus.ConfigFile
import Sys161.Bus.ConfigText
import Sys161.Bus.DiskBlocks
import Sys161.Gdb.Answers
import Sys161.Gdb.Debuggees
import Sys161.Lib.Bag
import Sys161.Main.CommandLine
import Sys161.Main.Connections
