import Linux011.Lib.Wp
import Linux011.Lib.RefCount
import Linux011.Lib.Links
import Linux011.Lib.Coop
import Linux011.Lib.Alone
import Linux011.Lib.Action
import Linux011.Lib.BitWords
import Linux011.Mm.Memory
import Linux011.Mm.Space
import Linux011.Mm.Entries
import Linux011.Mm.Account
import Linux011.Mm.Share
import Linux011.Mm.Fault
import Linux011.Mm.Runs
import Linux011.Mm.Cow
import Linux011.Mm.Verify
import Linux011.Mm.VerifyArea
import Linux011.Fs.Buffer
import Linux011.Fs.Getblk
import Linux011.Fs.CacheSpec
import Linux011.Fs.CacheRuns
import Linux011.Fs.BlockDev
import Linux011.Fs.SyncPass
import Linux011.Fs.CacheAlone
import Linux011.Fs.ReadAhead
import Linux011.Fs.SyncCache
import Linux011.Fs.Sync
import Linux011.Fs.OpenFile
import Linux011.Fs.Protect
import Linux011.Fs.Names
import Linux011.Fs.Bmap
import Linux011.Fs.Unlink
import Linux011.Fs.OpenUnlink
import Linux011.Fs.Inodes
import Linux011.Fs.InodeTable
import Linux011.Fs.InodeLock
import Linux011.Fs.Coherence
import Linux011.Fs.Path
import Linux011.Fs.Resolve
import Linux011.Fs.Mount
import Linux011.Fs.MountTable
import Linux011.Lib.Chain
import Linux011.Lib.Sweep
import Linux011.Lib.Ring
import Linux011.BlkDrv.Request
import Linux011.BlkDrv.Slots
import Linux011.BlkDrv.ReadsFirst
import Linux011.Lib.Along
import Linux011.BlkDrv.HardDisk
import Linux011.BlkDrv.Completion
import Linux011.BlkDrv.Partition
import Linux011.BlkDrv.Retry
import Linux011.BlkDrv.Floppy
import Linux011.BlkDrv.FloppyRuns
import Linux011.BlkDrv.DiskErrors
import Linux011.Kernel.Timer
import Linux011.Kernel.Sleep
import Linux011.Kernel.Sched
import Linux011.Kernel.Exit
import Linux011.Fs.Pipe
import Linux011.Fs.LinkCount
import Linux011.Fs.ZoneMap
import Linux011.Mm.TryShare
import Linux011.Kernel.Signal
import Linux011.Kernel.Math
import Linux011.ChrDrv.TtyQueue
import Linux011.ChrDrv.TtyWrite
import Linux011.ChrDrv.Cooked
import Linux011.ChrDrv.LineCount
import Linux011.ChrDrv.Overrun
import Linux011.Lib.StringOps
import Linux011.ChrDrv.Console
import Linux011.ChrDrv.ConsoleWindow
import Linux011.ChrDrv.ConsoleWrite
import Linux011.Lib.ChainOps
import Linux011.Mm.Malloc
import Linux011.Mm.MallocInv
import Linux011.Mm.MallocRuns
import Linux011.Fs.FileData
import Linux011.Fs.FileBlocks
import Linux011.Fs.FileRuns
import Linux011.Fs.QueuePointers
import Linux011.Fs.Room
import Linux011.Fs.FileLimit
import Linux011.Fs.ReadSuper
import Linux011.Fs.Directory
import Linux011.Fs.DirBuffers
import Linux011.Fs.DirEntries
import Linux011.Fs.BitMaps
import Linux011.Lib.Agree
import Linux011.Mm.Alike
import Linux011.Mm.ForkFailed
import Linux011.Kernel.Fork
import Linux011.Kernel.Kill
import Linux011.ChrDrv.TtyRead
import Linux011.ChrDrv.SaveCursor
import Linux011.Kernel.Schedule
import Linux011.Kernel.Pids
import Linux011.Kernel.WaitStatus
import Linux011.Fs.ExecHeader
import Linux011.Mm.DemandLoad
import Linux011.Fs.ArgPages
import Linux011.Fs.ExecScript
import Linux011.Fs.ExecStack
import Linux011.Fs.Exec
import Linux011.Fs.ExecRuns
import Linux011.Fs.AddEntry
import Linux011.Fs.Creation
import Linux011.Fs.Access
import Linux011.Lib.Calendar
import Linux011.Kernel.Mktime
import Linux011.Fs.Dup
import Linux011.ChrDrv.ReadAlarm
import Linux011.Kernel.Vsprintf
import Linux011.Fs.BufferInit
import Linux011.Lib.ByteInstr
import Linux011.Include.StringSpan
import Linux011.Include.Strstr
import Linux011.Include.Strtok
import Linux011.Include.StringCopy
import Linux011.Lib.SubRegister
import Linux011.Kernel.Descriptor
import Linux011.Fs.ChangeLdt
import Linux011.Lib.Potential
import Linux011.Kernel.Fairness
import Linux011.BlkDrv.FloppyMotor
import Linux011.Lib.Region
import Linux011.Boot.Build
import Linux011.Boot.Load
import Linux011.Mm.StartUp
import Linux011.ChrDrv.Keyboard
import Linux011.ChrDrv.KeyboardRuns
import Linux011.BlkDrv.RamDisk
import Linux011.ChrDrv.Serial
import Linux011.Kernel.VsprintfFormat
