import Vmwos.Library.ByteArray
import Vmwos.Lib.Locks
import Vmwos.Vlibc.Random
import Vmwos.Vlibc.DivisionArm
import Vmwos.Userspace.Md5sum
import Vmwos.Fs.Dos33fs.Transfers
import Vmwos.Fs.Dos33fs.Operations
import Vmwos.Fs.Dos33fs.Entries
import Vmwos.Fs.Dos33fs.BinaryFiles
import Vmwos.Fs.Dos33fs.ByteArrays
import Vmwos.Fs.Dos33fs.BlankVolume
import Vmwos.Fs.Dos33fs.FirstList
import Vmwos.Fs.Dos33fs.SectorOwnership
import Vmwos.Fs.Dos33fs.Reopening
import Vmwos.Fs.Dos33fs.SectorLeak
import Vmwos.Fs.Dos33fs.ListWalk
import Vmwos.Memory.ChunkAllocator
import Vmwos.Library.LinkedList
import Vmwos.Processes.ContextSwitch
import Vmwos.Processes.Process
import Vmwos.Processes.ProcessList
import Vmwos.Processes.Syscalls
import Vmwos.Processes.Scheduler
import Vmwos.Processes.ProcessTable
import Vmwos.Processes.Machine
import Vmwos.Processes.Exited
import Vmwos.Processes.VforkParent
import Vmwos.Processes.Waitpid
import Vmwos.Fs.Dos33fs.Directory
import Vmwos.Fs.Dos33fs.Mounts
import Vmwos.Fs.Dos33fs.WriteThrough
import Vmwos.Fs.Dos33fs.SectorsWanted
import Vmwos.Fs.Dos33fs.DiskFull
import Vmwos.Library.Interleaving
import Vmwos.Fs.Dos33fs.Independence
import Vmwos.Processes.WaitQueues
import Vmwos.Processes.Nanosleep
import Vmwos.Fs.Romfs.Romfs
import Vmwos.Fs.Romfs.Tree
import Vmwos.Fs.Romfs.Lookup
import Vmwos.Fs.Romfs.Listing
import Vmwos.Fs.Superblock
import Vmwos.Fstools.Mkromfs
import Vmwos.Fstools.MkromfsImage
import Vmwos.Processes.BfltLoader
import Vmwos.Processes.Executables
import Vmwos.Drivers.ConsoleIo
import Vmwos.Lib.Dmesg
import Vmwos.Memory.Pagetable
import Vmwos.Lib.Format
import Vmwos.Lib.Printk
import Vmwos.Vlibc.Printf
import Vmwos.Vlibc.PrintfAgrees
import Vmwos.Drivers.FramebufferConsole
import Vmwos.Drivers.FramebufferCursor
import Vmwos.Drivers.FramebufferChunks
import Vmwos.Vlibc.Malloc
import Vmwos.Vlibc.MallocBlocks
import Vmwos.Vlibc.MallocUse
import Vmwos.Boot.DeviceTree
import Vmwos.Boot.DeviceTreeSearch
import Vmwos.Fs.Dos33fs.CatalogWalk
import Vmwos.Fs.Dos33fs.FileSizes
import Vmwos.Library.Buffer
import Vmwos.Nano.Editor
import Vmwos.Nano.EditorText
import Vmwos.Nano.EditorCursor
import Vmwos.Processes.ImageMemory
import Vmwos.Drivers.ConsoleWait
import Vmwos.Fs.Files
import Vmwos.Fs.Dup2
import Vmwos.Fs.Chmod
import Vmwos.Fs.RelativePaths
import Vmwos.Fs.Descriptors
import Vmwos.Fs.Open
import Vmwos.Fs.ProcessFiles
import Vmwos.Fs.PerProcess
import Vmwos.Fs.Lookups
import Vmwos.Library.References
import Vmwos.Fs.InodeReferences
import Vmwos.Memory.FirstFit
import Vmwos.Processes.WaitQueueRuns
import Vmwos.Fs.Llseek
import Vmwos.Fs.Romfs.Reading
import Vmwos.Processes.ExecveArguments
import Vmwos.Fs.Romfs.Endings
import Vmwos.Fs.Chdir
import Vmwos.Fs.Dos33fs.Contents
import Vmwos.Fs.FileOffsets
import Vmwos.Fs.ReferenceCounts
import Vmwos.Fs.Calls
import Vmwos.Drivers.ConsoleRing
import Vmwos.Fs.FailedLookups
import Vmwos.Lib.Division
import Vmwos.Lib.Strings
import Vmwos.Processes.Relocation
import Vmwos.Lib.Blocks
import Vmwos.Library.Arm
import Vmwos.Lib.MemsetArm
import Vmwos.Processes.CpuTime
import Vmwos.Drivers.FramebufferSequences
import Vmwos.Drivers.FramebufferReturns
import Vmwos.Fs.FailedOpens
import Vmwos.Fs.OneInode
import Vmwos.Boot.DeviceTreeValues
import Vmwos.Boot.DeviceTreeMemory
import Vmwos.Boot.DeviceTreeReads
import Vmwos.Boot.CommandLine
import Vmwos.Vlibc.StringSearch
import Vmwos.Boot.Atags
import Vmwos.Drivers.Ps2Keyboard
import Vmwos.Drivers.Ramdisk
import Vmwos.Fs.Dos33fs.FreeCounts
import Vmwos.Fs.Dos33fs.Names
import Vmwos.Fs.PathSplitting
import Vmwos.Fs.Romfs.Strings
import Vmwos.Library.Fields
import Vmwos.Nano.EditorColumns
import Vmwos.Userspace.PrintDate
import Vmwos.Userspace.Shell
import Vmwos.Userspace.ShellArguments
import Vmwos.Vlibc.Calloc
import Vmwos.Vlibc.Fgets
import Vmwos.Vlibc.Getline
import Vmwos.Vlibc.PrintfNumbers
import Vmwos.Vlibc.TimePretty
