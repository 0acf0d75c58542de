import ForikOS.Core.FsState

/-!
# Inodes and the Bitmaps of a Partition

The functions of `fs/inode.c`, and those of `fs/file.c` that hand out blocks
and inode numbers.

The table of inodes on the disk holds records of 76 bytes one after another,
so every few records one lies across two sectors. `inode_sync` keeps the
number of the inode it writes in a `uint8_t`, and it transfers as many sectors
as the record needs into whatever buffer it is given; the size of that buffer
is an argument here, and a transfer that does not fit is a fault.

A field of an inode that is looked at after a wait is read again, since
another task may have changed it.

## Main definitions

* `bitmapSync`: Writes the sector of a bitmap that holds a bit.
* `inodeBitmapAlloc`, `blockBitmapAlloc`: A new inode number, a new block.
* `inodeLocate`, `inodeSync`, `inodeDelete`: The table on the disk.
* `inodeOpen`, `inodeClose`: The list of open inodes.
* `inodeRelease`: Gives an inode and its blocks back.
-/

namespace ForikOS

/-- `enum bitmap_type`. -/
inductive BitmapType
  | inode
  | block
  deriving DecidableEq, Repr

/-- `bitmap_sync`. -/
def bitmapSync (bitIdx : Nat) (btmpType : BitmapType) : FsM Unit := do
  let sb ← Prog.read (fun s => s.part.sb)
  let offSec := bitIdx / 4096
  let offSize := offSec * sectorSize
  match btmpType with
  | .inode =>
      ideWriteFrom (add32 sb.inodeBitmapLba offSec) 1
        (fun s k => s.part.inodeBitmap.bits (offSize + k))
  | .block =>
      ideWriteFrom (add32 sb.blockBitmapLba offSec) 1
        (fun s k => s.part.blockBitmap.bits (offSize + k))

/-- `bitmap_scan` for one bit. -/
def scanOne (b : Bitmap) : FsM (Option Nat) := do
  assert (scanBytes b b.btmpBytesLen 0 < b.btmpBytesLen) .bitmapScan
  pure (bitmapScanRest b 1)

/-- `inode_bitmap_alloc`. -/
def inodeBitmapAlloc : FsM (Option Nat) := do
  let b ← Prog.read (fun s => s.part.inodeBitmap)
  let bitIdx ← scanOne b
  match bitIdx with
  | none => pure none
  | some i => do
      Prog.modify (fun s => s.setInodeBitmap (bitmapSet s.part.inodeBitmap i true))
      pure (some i)

/-- `block_bitmap_alloc`, which returns the address of the block. -/
def blockBitmapAlloc : FsM (Option Nat) := do
  let part ← Prog.read (fun s => s.part)
  let bitIdx ← scanOne part.blockBitmap
  match bitIdx with
  | none => pure none
  | some i => do
      Prog.modify (fun s => s.setBlockBitmap (bitmapSet s.part.blockBitmap i true))
      pure (some (add32 part.sb.dataStartLba i))

/-- The bit of a block: its address minus `data_start_lba`. -/
def blockBitmapIdx (lba : Nat) : FsM Nat :=
  Prog.read (fun s => sub32 lba s.part.sb.dataStartLba)

/-- `struct inode_position`. -/
structure InodePosition where
  twoSec : Bool
  secLba : Nat
  offSize : Nat

/-- The sectors an inode takes. -/
def InodePosition.sects (p : InodePosition) : Nat := if p.twoSec then 2 else 1

/-- `inode_locate`. -/
def inodeLocate (inodeNo : Nat) : FsM InodePosition := do
  assert (inodeNo < 4096) .inodeLocate
  let sb ← Prog.read (fun s => s.part.sb)
  let offSize := inodeNo * inodeSize
  let offSizeInSec := offSize % 512
  pure ⟨decide (512 - offSizeInSec < inodeSize), add32 sb.inodeTableLba (offSize / 512),
    offSizeInSec⟩

/-- `inode_sync`, with a buffer of `bufSize` bytes. -/
def inodeSync (i : Inode) (bufSize : Nat) : FsM Unit := do
  -- The number is passed on in eight bits.
  let pos ← inodeLocate (i.iNo % 256)
  let part ← Prog.read (fun s => s.part)
  assert (pos.secLba ≤ add32 part.startLba part.secCnt) .inodeSync
  -- A record over two sectors needs a buffer of two.
  Prog.check (pos.sects * sectorSize ≤ bufSize) .wild
  let buf ← ideRead pos.secLba pos.sects
  ideWrite pos.secLba pos.sects (memcpyTo buf pos.offSize inodeSize (inodeBytes i))

/-- The loop of `inode_open` over `open_inodes`. -/
def findOpenInode (t inodeNo : Nat) : List Nat → FsM (Option Nat)
  | [] => pure none
  | a :: l => do
      let i ← inodeAt t a
      if i.iNo = inodeNo then pure (some a) else findOpenInode t inodeNo l

/-- `inode_open` of an inode that is not open: read it from the disk and put
    it in front of the list. -/
def inodeFetch (inodeNo : Nat) : FsM Nat := do
  let pos ← inodeLocate inodeNo
  -- The PCB has no page directory meanwhile, so the memory is the kernel heap.
  mallocUnchecked
  let a ← newInode .kernel
  mallocUnchecked
  let buf ← ideRead pos.secLba pos.sects
  setInodeAt a (fun _ => { decodeInode buf pos.offSize with iOpenCnts := 1 })
  Prog.modify (fun s => s.setOpenInodes (a :: s.part.openInodes))
  pure a

/-- `inode_open` by task `t`. -/
def inodeOpen (t inodeNo : Nat) : FsM Nat := do
  let l ← Prog.read (fun s => s.part.openInodes)
  let found ← findOpenInode t inodeNo l
  match found with
  | some a => do
      setInodeAt a (fun i => { i with iOpenCnts := add32 i.iOpenCnts 1 })
      pure a
  | none => inodeFetch inodeNo

/-- `inode_close` by task `t`. The last one takes the inode out of the list
    and frees it as memory of the kernel. -/
def inodeClose (t a : Nat) : FsM Unit := do
  let i ← inodeAt t a
  let cnt := sub32 i.iOpenCnts 1
  setInodeAt a (fun i => { i with iOpenCnts := cnt })
  if cnt = 0 then do
    -- Removing from the list writes through the links of the inode.
    let linked ← Prog.read (fun s => decide (a ∈ s.part.openInodes))
    Prog.check (linked = true) .wild
    -- The memory is freed as memory of the kernel, whose addresses are asserted.
    let home ← Prog.read (fun s => s.home a)
    Prog.check (home = .kernel) (.assertion .sysFree)
    Prog.modify (fun s => (s.setOpenInodes (s.part.openInodes.erase a)).setHome a .freed)
  else
    pure ()

/-- `inode_delete`. -/
def inodeDelete (inodeNo : Nat) : FsM Unit := do
  assert (inodeNo < 4096) .inodeDelete
  let pos ← inodeLocate inodeNo
  let part ← Prog.read (fun s => s.part)
  assert (pos.secLba ≤ add32 part.startLba part.secCnt) .inodeDelete
  let buf ← ideRead pos.secLba pos.sects
  ideWrite pos.secLba pos.sects (memcpyTo buf pos.offSize inodeSize (fun _ => 0))

/-- The table of indirect blocks in a sector. -/
def indirectBlocks (b : Nat → Byte) (k : Nat) : Nat := le32 b (4 * k)

/-- `all_blocks` of an inode: the direct blocks, and behind them what the
    table of indirect blocks holds. -/
def allBlocks (i : Inode) (table : Nat → Nat) (k : Nat) : Nat :=
  if k < 12 then i.iSectors k else table (k - 12)

/-- Read `all_blocks` of an inode. Without a table the array stays zero. -/
def readAllBlocks (i : Inode) : FsM (Nat → Nat) :=
  if i.iSectors 12 ≠ 0 then do
    let b ← ideRead (i.iSectors 12) 1
    pure (allBlocks i (indirectBlocks b))
  else
    pure (allBlocks i (fun _ => 0))

/-- One block of `inode_release`. -/
def releaseBlock (lba : Nat) : FsM Unit := do
  let idx ← blockBitmapIdx lba
  assert (0 < idx) .inodeRelease
  Prog.modify (fun s => s.setBlockBitmap (bitmapSet s.part.blockBitmap idx false))
  bitmapSync idx .block

/-- The loop of `inode_release` over the blocks. -/
def releaseBlocks (all : Nat → Nat) : Nat → Nat → FsM Unit
  | 0, _ => pure ()
  | n + 1, blockIdx =>
      if all blockIdx ≠ 0 then do
        releaseBlock (all blockIdx)
        releaseBlocks all n (blockIdx + 1)
      else
        releaseBlocks all n (blockIdx + 1)

/-- The first half of `inode_release`: the table of indirect blocks, if there
    is one, and the blocks. -/
def releaseStorage (t a : Nat) (i : Inode) : FsM Unit := do
  let all ← readAllBlocks i
  if i.iSectors 12 ≠ 0 then do
    let i ← inodeAt t a
    releaseBlock (i.iSectors 12)
    -- The table first, and then everything that the array names.
    releaseBlocks all 140 0
  else
    releaseBlocks all 12 0

/-- `inode_release` by task `t`. -/
def inodeRelease (t inodeNo : Nat) : FsM Unit := do
  let a ← inodeOpen t inodeNo
  let i ← inodeAt t a
  assert (i.iNo = inodeNo) .inodeRelease
  releaseStorage t a i
  Prog.modify (fun s => s.setInodeBitmap (bitmapSet s.part.inodeBitmap inodeNo false))
  bitmapSync inodeNo .inode
  mallocUnchecked
  inodeDelete inodeNo
  inodeClose t a

/-- `inode_init`. -/
def inodeInit (inodeNo : Nat) : Inode := ⟨inodeNo, 0, 0, false, fun _ => 0⟩

end ForikOS
