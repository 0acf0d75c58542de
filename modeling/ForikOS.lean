import ForikOS.Lib.System
import ForikOS.Lib.LinkedList
import ForikOS.Lib.Prog
import ForikOS.Core.Sync
import ForikOS.Theory.Lock
import ForikOS.Core.Thread
import ForikOS.Theory.Scheduler
import ForikOS.Theory.Switch
import ForikOS.Core.Activate
import ForikOS.Theory.Activate
import ForikOS.Core.Bitmap
import ForikOS.Theory.Bitmap
import ForikOS.Core.WaitExit
import ForikOS.Theory.WaitExit
import ForikOS.Core.Memory
import ForikOS.Theory.Paging
import ForikOS.Theory.PageAlloc
import ForikOS.Theory.MemPools
import ForikOS.Core.List
import ForikOS.Theory.List
import ForikOS.Core.Heap
import ForikOS.Theory.HeapLists
import ForikOS.Theory.Heap
import ForikOS.Theory.HeapFrame
import ForikOS.Core.FsState
import ForikOS.Core.Inode
import ForikOS.Core.Dir
import ForikOS.Core.File
import ForikOS.Core.FileSys
import ForikOS.Core.FormatScan
import ForikOS.Core.PathName
import ForikOS.Core.FsCalls
import ForikOS.Theory.FsFrame
import ForikOS.Theory.OpenInodes
import ForikOS.Theory.InodeTable
import ForikOS.Theory.FileTable
import ForikOS.Theory.FsCalls
import ForikOS.Theory.BadFds
import ForikOS.Core.Fork
import ForikOS.Core.Exit
import ForikOS.Core.Exec
import ForikOS.Theory.AddressSpace
import ForikOS.Core.NoAssertPages
import ForikOS.Theory.ProcessBits
import ForikOS.Theory.OutOfFrames
import ForikOS.Theory.Fork
import ForikOS.Theory.Exit
import ForikOS.Theory.ExitFrames
import ForikOS.Theory.ForkFails
import ForikOS.Theory.Descriptors
import ForikOS.Theory.OpenCount
import ForikOS.Theory.Writers
import ForikOS.Theory.FilePos
import ForikOS.Theory.Exec
import ForikOS.Theory.Numbers
import ForikOS.Core.UserHeap
import ForikOS.Theory.UserHeap
import ForikOS.Core.Malloc
import ForikOS.Theory.UserPages
import ForikOS.Theory.UserBytes
import ForikOS.Theory.MallocFails
import ForikOS.Theory.Opens
import ForikOS.Theory.Semaphore
import ForikOS.Theory.IoQueue
import ForikOS.Theory.Ide
import ForikOS.Theory.IdeData
import ForikOS.Lib.NameTree
import ForikOS.Theory.Paths
import ForikOS.Theory.PathName
import ForikOS.Theory.DirTree
import ForikOS.Theory.Search
import ForikOS.Theory.PathCalls
import ForikOS.Theory.StatUnlink
import ForikOS.Theory.Getcwd
import ForikOS.Theory.ForkName
import ForikOS.Lib.Agree
import ForikOS.Core.PartScan
import ForikOS.Theory.PartScan
import ForikOS.Theory.PartTables
import ForikOS.Theory.PartWalk
import ForikOS.Theory.FileBlocks
import ForikOS.Theory.FileCollect
import ForikOS.Theory.FileData
import ForikOS.Theory.FileWrite
import ForikOS.Theory.FileGrow
import ForikOS.Theory.FileRead
import ForikOS.Theory.LoadFile
import ForikOS.Theory.LoadBytes
import ForikOS.Theory.LoadFaithful
import ForikOS.Theory.FileLimits
import ForikOS.Theory.DirStream
import ForikOS.Theory.OutOfSpace
import ForikOS.Theory.OpenFails
import ForikOS.Theory.Format
import ForikOS.Theory.FormatScan
import ForikOS.Theory.DirSlots
import ForikOS.Theory.DirEntries
import ForikOS.Theory.DirInsert
import ForikOS.Theory.DirOutgrow
import ForikOS.Theory.DirDelete
import ForikOS.Theory.DirList
import ForikOS.Theory.InodeRelease
import ForikOS.Theory.InodeBuffers
import ForikOS.Theory.Translate
import ForikOS.Theory.BitmapScan
import ForikOS.Theory.ListHeap
import ForikOS.Theory.InodeCache
import ForikOS.Theory.CString
import ForikOS.Theory.WashPath
import ForikOS.Theory.CmdParse
import ForikOS.Theory.Readline
import ForikOS.Theory.Stdio
import ForikOS.Theory.Keyboard
import ForikOS.Theory.FormatLayout
import ForikOS.Theory.PoolBits
import ForikOS.Theory.PathParse
import ForikOS.Lib.Simulation
import ForikOS.Lib.Stack
import ForikOS.Core.Context
import ForikOS.Theory.Context
import ForikOS.Core.TaskRun
import ForikOS.Theory.TaskRun
import ForikOS.Lib.Transcript
import ForikOS.Core.Console
import ForikOS.Theory.Console
import ForikOS.Theory.ConsoleLock
import ForikOS.Lib.Progress
import ForikOS.Theory.Waiting
