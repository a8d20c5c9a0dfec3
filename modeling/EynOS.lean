import EynOS.Daemon.CallsRun
import EynOS.Daemon.Requests
import EynOS.Display.DirtyRects
import EynOS.Display.FontReferences
import EynOS.Display.Fonts
import EynOS.Display.Line
import EynOS.Display.Swap
import EynOS.Drivers.AudioRing
import EynOS.Drivers.Mouse
import EynOS.Drivers.Nic
import EynOS.Drivers.NicReceive
import EynOS.Drivers.NicRings
import EynOS.Drivers.NicTransmit
import EynOS.Foundation.Filling
import EynOS.Foundation.FirstLeast
import EynOS.Foundation.MachineWord
import EynOS.Foundation.OnesComplement
import EynOS.Foundation.PackBits
import EynOS.Foundation.PartialIteration
import EynOS.Foundation.Placement
import EynOS.Foundation.Reader
import EynOS.Foundation.Rearrangement
import EynOS.Foundation.References
import EynOS.Foundation.Rotation
import EynOS.Foundation.RunScan
import EynOS.Foundation.SlotArray
import EynOS.Foundation.Text
import EynOS.Foundation.Writing
import EynOS.Media.Images
import EynOS.Media.PackBits
import EynOS.Media.Sounds
import EynOS.Memory.FrameAccounting
import EynOS.Memory.HeapBestFit
import EynOS.Memory.HeapBreak
import EynOS.Memory.HeapPlanners
import EynOS.Memory.HeapRun
import EynOS.Memory.MemoryFunctions
import EynOS.Memory.MmapConfinement
import EynOS.Memory.Prefault
import EynOS.Memory.SlabRun
import EynOS.Memory.UserAccess
import EynOS.Memory.UserFaults
import EynOS.Network.ArpCache
import EynOS.Network.Checksum
import EynOS.Network.DnsName
import EynOS.Network.Frame
import EynOS.Network.FrameLayout
import EynOS.Network.FrameVerification
import EynOS.Network.MessageBounds
import EynOS.Network.NetstackBacklog
import EynOS.Network.NetstackDelivery
import EynOS.Network.NetstackDemultiplex
import EynOS.Network.Replies
import EynOS.Network.TcpAcknowledgement
import EynOS.Network.TcpSend
import EynOS.Network.UdpDelivery
import EynOS.Network.UdpQueues
import EynOS.Process.CapabilityForgery
import EynOS.Process.DescriptorRevocation
import EynOS.Process.ElfConfinement
import EynOS.Process.ElfContent
import EynOS.Process.EntryLayout
import EynOS.Process.InitialStack
import EynOS.Process.Interpreter
import EynOS.Process.InterpreterChain
import EynOS.Process.LinuxChildren
import EynOS.Process.LinuxChildrenRun
import EynOS.Process.SchedWorkRun
import EynOS.Process.SchedWorkSearch
import EynOS.Process.SchedWorkTimeslice
import EynOS.Process.Signals
import EynOS.Process.UserPipeRun
import EynOS.Process.UserTaskLaunch
import EynOS.Process.UserTaskRun
import EynOS.Shell.Alias
import EynOS.Shell.AliasFile
import EynOS.Shell.AliasKey
import EynOS.Shell.AliasTable
import EynOS.Shell.Condition
import EynOS.Shell.LineDiscipline
import EynOS.Shell.ScriptStructured
import EynOS.Storage.Allocator
import EynOS.Storage.AtaAddress
import EynOS.Storage.BootAgreement
import EynOS.Storage.CacheCoherence
import EynOS.Storage.CacheFrame
import EynOS.Storage.CrashLog
import EynOS.Storage.CursorRead
import EynOS.Storage.DirectoryTable
import EynOS.Storage.DirectoryUpdate
import EynOS.Storage.DriveIsolation
import EynOS.Storage.Fat32Allocation
import EynOS.Storage.Fat32Table
import EynOS.Storage.Fields
import EynOS.Storage.FlatDisk
import EynOS.Storage.Partition
import EynOS.Storage.PartitionTable
import EynOS.Storage.PathResolution
import EynOS.Storage.RamAgreement
import EynOS.Storage.RamDisk
import EynOS.Storage.VictimChoice
import EynOS.Storage.Volume
import EynOS.Storage.ZeroCopyWrite
import EynOS.Userland.Formatting
import EynOS.Userland.Heap
import EynOS.Userland.IntegerParsing
import EynOS.Utilities.BoyerMoore
import EynOS.Utilities.Calculator
import EynOS.Utilities.KernelFormat
import EynOS.Utilities.StringSort
