import ForikOS.Core.Bitmap
import ForikOS.Lib.Prog

/-!
# The State of the File System

The data of `fs/` and the two operations of `device/ide.c` it is built on.

A disk is the sequence of its bytes. A buffer is memory from its first byte
on, like the memory behind a bitmap, and its size is checked where a caller
and a callee disagree about it. The three structures on the disk, the inode,
the directory entry and the superblock, are read from and written to bytes at
the offsets the compiler gives them; `bool` is an `int`.

Inodes in memory are objects with an address, since `open_inodes` and
`file_table` hold pointers to them. Memory comes from the heap of the caller,
and only the kernel's heap is the same memory for every process, so an object
records whose heap it lies in. A pointer to an object that has been freed, or
that lies in the heap of another process, leads to memory that is something
else by now; a call that follows one is outside the model, and a new object
gets an address of its own. Whether a call of `sys_malloc` succeeds is up to
the memory, and what a local variable holds before it is set is up to the
stack, so the answers to both are part of the state.

A call waits for the disk in `ide_read` and `ide_write`: for the lock of the
channel before the transfer, and after a write until the disk is done.

## Main definitions

* `FsFault`: What can stop a call.
* `SuperBlock`, `Partition`, `Inode`, `DirEntry`, `File`: The structures.
* `decodeInode`, `inodeBytes`: An inode on the disk.
* `decodeEntry`, `entryBytes`: A directory entry on the disk.
* `Fs`: The state.
* `ideRead`, `ideWrite`: The disk.
* `malloc`: Memory.
-/

namespace ForikOS

/-- A byte. -/
abbrev Byte := BitVec 8

/-- A string without its terminator. -/
abbrev Str := List Byte

/-- The functions of `fs/` and `device/` whose assertions can fail. -/
inductive FsFunc
  | ideRead
  | ideWrite
  | bitmapScan
  | inodeLocate
  | inodeSync
  | inodeDelete
  | inodeRelease
  | createDirEntry
  | syncDirEntry
  | deleteDirEntry
  | dirRemove
  | dirRead
  | fileWrite
  | fileRead
  | fdLocal2global
  | mountPartition
  | pathDepthCnt
  | searchFile
  | sysOpen
  | sysRead
  | sysUnlink
  | sysMkdir
  | sysRmdir
  | sysOpendir
  | sysReaddir
  | sysLseek
  | getParentDirInodeNr
  | sysGetcwd
  | sysFree
  deriving DecidableEq, Repr

/-- What can stop a call: an assertion, an access the source gives no meaning
    to, or a loop that does not end. -/
inductive FsFault
  | assertion (f : FsFunc)
  | wild
  | hang
  deriving DecidableEq, Repr

/-- `SECTOR_SIZE`, which is also `BLOCK_SIZE`. -/
def sectorSize : Nat := 512

/-- `MAX_FILE_OPEN`. -/
def maxFileOpen : Nat := 32

/-- `MAX_FILES_OPEN_PER_PROC`. -/
def maxFilesOpenPerProc : Nat := 8

/-- `MAX_FILE_NAME_LEN`. -/
def maxFileNameLen : Nat := 16

/-- `MAX_PATH_LEN`. -/
def maxPathLen : Nat := 512

/-- The number of sectors `ide_read` and `ide_write` accept. -/
def maxLba : Nat := 80 * 1024 * 1024 / 512 - 1

/-- Addition in 32 bits. -/
def add32 (a b : Nat) : Nat := (a + b) % 2 ^ 32

/-- Subtraction in 32 bits. -/
def sub32 (a b : Nat) : Nat := (a + 2 ^ 32 - b % 2 ^ 32) % 2 ^ 32

/-- The little-endian word at an offset. -/
def le32 (b : Nat → Byte) (off : Nat) : Nat :=
  (b off).toNat + 256 * (b (off + 1)).toNat + 256 ^ 2 * (b (off + 2)).toNat
    + 256 ^ 3 * (b (off + 3)).toNat

/-- Byte `k` of a word. -/
def byteOf (n k : Nat) : Byte := BitVec.ofNat 8 (n / 256 ^ k)

/-- `enum file_types`; any other number can be on the disk. -/
inductive FileType
  | unknown
  | regular
  | directory
  | other (n : Nat)
  deriving DecidableEq, Repr

/-- Memory after `memcpy` of `n` bytes to an offset. -/
def memcpyTo (m : Nat → Byte) (off n : Nat) (src : Nat → Byte) : Nat → Byte :=
  fun a => if off ≤ a ∧ a < off + n then src (a - off) else m a

/-- The file type with a number. -/
def FileType.ofNat : Nat → FileType
  | 0 => .unknown
  | 1 => .regular
  | 2 => .directory
  | n => .other n

/-- The number of a file type. -/
def FileType.toNat : FileType → Nat
  | .unknown => 0
  | .regular => 1
  | .directory => 2
  | .other n => n

/-- `struct inode` without its list element. -/
structure Inode where
  iNo : Nat
  iSize : Nat
  iOpenCnts : Nat
  writeDeny : Bool
  iSectors : Nat → Nat

/-- `sizeof(struct inode)`. -/
def inodeSize : Nat := 76

/-- The inode whose bytes start at an offset. -/
def decodeInode (b : Nat → Byte) (off : Nat) : Inode where
  iNo := le32 b off
  iSize := le32 b (off + 4)
  iOpenCnts := le32 b (off + 8)
  writeDeny := le32 b (off + 12) ≠ 0
  iSectors k := le32 b (off + 16 + 4 * k)

/-- Word `w` of what `inode_sync` writes for an inode: the count, the flag and
    the list element are cleared. -/
def inodeWord (i : Inode) (w : Nat) : Nat :=
  if w = 0 then i.iNo
  else if w = 1 then i.iSize
  else if 4 ≤ w ∧ w < 17 then i.iSectors (w - 4)
  else 0

/-- The bytes `inode_sync` writes for an inode. -/
def inodeBytes (i : Inode) (k : Nat) : Byte := byteOf (inodeWord i (k / 4)) (k % 4)

/-- `struct dir_entry`. -/
structure DirEntry where
  filename : Nat → Byte
  iNo : Nat
  fType : FileType

/-- `sizeof(struct dir_entry)`. -/
def dirEntrySize : Nat := 24

/-- The entry whose bytes start at an offset. -/
def decodeEntry (b : Nat → Byte) (off : Nat) : DirEntry where
  filename k := b (off + k)
  iNo := le32 b (off + 16)
  fType := .ofNat (le32 b (off + 20))

/-- The bytes of an entry. -/
def entryBytes (e : DirEntry) (k : Nat) : Byte :=
  if k < 16 then e.filename k
  else if k < 20 then byteOf e.iNo (k - 16)
  else byteOf e.fType.toNat (k - 20)

/-- `!strcmp(p, name)` for the string in memory at an offset. -/
def strEq (b : Nat → Byte) (off : Nat) (name : Str) : Bool :=
  (List.range name.length).all (fun k => b (off + k) == name.getD k 0)
    && b (off + name.length) == 0

/-- `struct super_block`. -/
structure SuperBlock where
  magic : Nat
  secCnt : Nat
  inodeCnt : Nat
  partLbaBase : Nat
  blockBitmapLba : Nat
  blockBitmapSects : Nat
  inodeBitmapLba : Nat
  inodeBitmapSects : Nat
  inodeTableLba : Nat
  inodeTableSects : Nat
  dataStartLba : Nat
  rootInodeNo : Nat
  dirEntrySize : Nat

/-- The fields of `struct partition` the file system uses. -/
structure Partition where
  startLba : Nat
  secCnt : Nat
  sb : SuperBlock
  blockBitmap : Bitmap
  inodeBitmap : Bitmap
  openInodes : List Nat

/-- `struct file`. A null pointer is `none`. -/
structure File where
  fdPos : Nat
  fdFlag : Nat
  fdInode : Option Nat

/-- Where an inode object lies: nowhere, before it is allocated and after it
    is freed, in the kernel's heap, or in the heap of a process. -/
inductive Home
  | freed
  | kernel
  | process (t : Nat)
  deriving DecidableEq, Repr

/-- The state: the disk, `cur_part`, the inodes in memory, `root_dir.inode`,
    `file_table`, and for each task whether it has an address space of its own,
    its `fd_table` and its working directory. -/
structure Fs where
  disk : Nat → Byte
  part : Partition
  inode : Nat → Inode
  home : Nat → Home
  nextInode : Nat
  rootDir : Nat
  fileTable : Nat → File
  isUser : Nat → Bool
  fdTable : Nat → Nat → Int
  cwdInodeNr : Nat → Nat
  mallocs : Nat → Bool
  junk : Nat → Nat

namespace Fs

/-- Change the inode at an address. -/
def setInode (s : Fs) (a : Nat) (i : Inode) : Fs := { s with inode := Function.update s.inode a i }

/-- Where an inode lies from now on. -/
def setHome (s : Fs) (a : Nat) (h : Home) : Fs := { s with home := Function.update s.home a h }

/-- The inode at an address is there for a task. -/
def Sees (s : Fs) (t a : Nat) : Prop := s.home a = .kernel ∨ s.home a = .process t

instance (s : Fs) (t a : Nat) : Decidable (s.Sees t a) :=
  inferInstanceAs (Decidable (_ ∨ _))

/-- Change a slot of `file_table`. -/
def setFile (s : Fs) (g : Nat) (f : File) : Fs :=
  { s with fileTable := Function.update s.fileTable g f }

/-- Change an entry of a task's `fd_table`. -/
def setFd (s : Fs) (t k : Nat) (g : Int) : Fs :=
  { s with fdTable := Function.update s.fdTable t (Function.update (s.fdTable t) k g) }

/-- Change `open_inodes`. -/
def setOpenInodes (s : Fs) (l : List Nat) : Fs := { s with part := { s.part with openInodes := l } }

/-- Change the block bitmap in memory. -/
def setBlockBitmap (s : Fs) (b : Bitmap) : Fs := { s with part := { s.part with blockBitmap := b } }

/-- Change the inode bitmap in memory. -/
def setInodeBitmap (s : Fs) (b : Bitmap) : Fs := { s with part := { s.part with inodeBitmap := b } }

/-- Overwrite `n` bytes of the disk from an offset on. -/
def setDisk (s : Fs) (off n : Nat) (b : Nat → Byte) : Fs :=
  { s with disk := memcpyTo s.disk off n b }

end Fs

/-- Programs over the file system. -/
abbrev FsM := Prog Fs FsFault

/-- `ASSERT`. -/
def assert (c : Prop) [Decidable c] (f : FsFunc) : FsM Unit := Prog.check c (.assertion f)

/-- `ide_read` of `n` sectors. -/
def ideRead (lba n : Nat) : FsM (Nat → Byte) := do
  assert (lba ≤ maxLba ∧ 0 < n) .ideRead
  Prog.pause
  Prog.read (fun s i => if i < n * sectorSize then s.disk (lba * sectorSize + i) else 0)

/-- `ide_write` of `n` sectors. The buffer may be shared, so it is looked at
    when the transfer starts. -/
def ideWriteFrom (lba n : Nat) (buf : Fs → Nat → Byte) : FsM Unit := do
  assert (lba ≤ maxLba ∧ 0 < n) .ideWrite
  Prog.pause
  Prog.modify (fun s => s.setDisk (lba * sectorSize) (n * sectorSize) (buf s))
  Prog.pause

/-- `ide_write` of `n` sectors from a buffer of the caller's own. -/
def ideWrite (lba n : Nat) (buf : Nat → Byte) : FsM Unit := ideWriteFrom lba n (fun _ => buf)

/-- `sys_malloc`: whether it succeeds. -/
def malloc : FsM Bool := do
  let ok ← Prog.read (fun s => s.mallocs 0)
  Prog.modify (fun s => { s with mallocs := fun i => s.mallocs (i + 1) })
  pure ok

/-- A call of `sys_malloc` whose result is used without a test. -/
def mallocUnchecked : FsM Unit := do
  let ok ← malloc
  Prog.check (ok = true) .wild

/-- The value of a local variable that has not been set. -/
def unset : FsM Nat := do
  let v ← Prog.read (fun s => s.junk 0)
  Prog.modify (fun s => { s with junk := fun i => s.junk (i + 1) })
  pure v

/-- A new inode object in the heap of the kernel or of a process. -/
def newInode (home : Home) : FsM Nat := do
  let a ← Prog.read (fun s => s.nextInode)
  Prog.modify (fun s => { s with nextInode := a + 1 }.setHome a home)
  pure a

/-- Task `t` follows a pointer to an inode. -/
def inodeAt (t a : Nat) : FsM Inode := do
  let seen ← Prog.read (fun s => decide (s.Sees t a))
  Prog.check (seen = true) .wild
  Prog.read (fun s => s.inode a)

/-- A task writes an inode through a pointer it has followed. -/
def setInodeAt (a : Nat) (f : Inode → Inode) : FsM Unit :=
  Prog.modify (fun s => s.setInode a (f (s.inode a)))

end ForikOS
