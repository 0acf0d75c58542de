import ForikOS.Core.Dir

/-!
# Files

The functions of `fs/file.c` that open, create, close, write and read files.

`file_table` is shared by all tasks, `fd_table` is a task's own; the first
three entries of either are the standard streams. `file_create` takes the
memory of the new inode from the caller's heap, `inode_open` from the
kernel's.

`file_write` collects the addresses of the blocks it will write in
`all_blocks` before it writes them. There are three situations, by whether the
file lies in its direct blocks before and after. Each allocation writes the
bitmap, but for the one that makes the table of indirect blocks, and all three
end with a write to `indirect_block_table`, a local variable that the first
does not set.

## Main definitions

* `getFreeSlotInGlobal`, `pcbFdInstall`: Entries of the two tables.
* `fileCreate`, `fileOpen`, `fileClose`: A file in the tables.
* `fileWrite`, `fileRead`: Appends to a file, and reads from its position on.
-/

namespace ForikOS

/-- The first free slot of `file_table`, of `n` slots from `fdIdx` on. -/
def freeSlotFrom (fileTable : Nat → File) : Nat → Nat → Option Nat
  | 0, _ => none
  | n + 1, fdIdx =>
      if (fileTable fdIdx).fdInode = none then some fdIdx else freeSlotFrom fileTable n (fdIdx + 1)

/-- `get_free_slot_in_global`. -/
def getFreeSlotInGlobal : FsM (Option Nat) :=
  Prog.read (fun s => freeSlotFrom s.fileTable (maxFileOpen - 3) 3)

/-- The first free entry of a `fd_table`, of `n` entries from `localFdIdx` on. -/
def freeFdFrom (fdTable : Nat → Int) : Nat → Nat → Option Nat
  | 0, _ => none
  | n + 1, localFdIdx =>
      if fdTable localFdIdx = -1 then some localFdIdx else freeFdFrom fdTable n (localFdIdx + 1)

/-- `pcb_fd_install` by task `t`. -/
def pcbFdInstall (t globalFdIdx : Nat) : FsM Int := do
  let fd ← Prog.read (fun s => freeFdFrom (s.fdTable t) (maxFilesOpenPerProc - 3) 3)
  match fd with
  -- All descriptors are in use: the slot of the file stays filled.
  | none => pure (-1)
  | some k => do
      Prog.modify (fun s => s.setFd t k globalFdIdx)
      pure k

/-- The last step of a rollback: the inode number is free again. -/
def freeInodeNo (inodeNo : Nat) : FsM Unit :=
  Prog.modify (fun s => s.setInodeBitmap (bitmapSet s.part.inodeBitmap inodeNo false))

/-- `sys_free` of an inode by the task whose memory it is. -/
def freeInode (a : Nat) : FsM Unit := Prog.modify (fun s => s.setHome a .freed)

/-- The heap `sys_malloc` takes memory from when task `t` calls it. -/
def callerHome (s : Fs) (t : Nat) : Home := if s.isUser t then .process t else .kernel

/-- `file_create` once the entry of the new file is on the disk. -/
def fileCreated (t : Nat) (parentDir : Dir) (inodeNo a fdIdx : Nat) : FsM Int := do
  -- The directory, the file and the bitmap are written in this order.
  let dir ← inodeAt t parentDir.inode
  inodeSync dir 1024
  let i ← inodeAt t a
  inodeSync i 1024
  bitmapSync inodeNo .inode
  -- Not through inode_open: the inode is put on the list by hand.
  Prog.modify (fun s => s.setOpenInodes (a :: s.part.openInodes))
  setInodeAt a (fun i => { i with iOpenCnts := 1 })
  pcbFdInstall t fdIdx

/-- `file_create` once the new file has an inode and a slot. -/
def fileCreateEntry (t : Nat) (parentDir : Dir) (filename : Str) (flag inodeNo a fdIdx : Nat) :
    FsM Int := do
  Prog.modify (fun s => s.setFile fdIdx ⟨0, flag, some a⟩)
  let e ← createDirEntry filename inodeNo .regular
  let done ← syncDirEntry t parentDir e
  if done = true then
    fileCreated t parentDir inodeNo a fdIdx
  else do
    -- Rollback step 3 falls through to steps 2 and 1.
    Prog.modify (fun s => s.setFile fdIdx ⟨0, 0, none⟩)
    freeInode a
    freeInodeNo inodeNo
    pure (-1)

/-- `file_create` once the new file has a number. -/
def fileCreateInode (t : Nat) (parentDir : Dir) (filename : Str) (flag inodeNo : Nat) :
    FsM Int := do
  let ok ← malloc
  if ok = true then do
    let home ← Prog.read (fun s => callerHome s t)
    let a ← newInode home
    setInodeAt a (fun _ => inodeInit inodeNo)
    let fdIdx ← getFreeSlotInGlobal
    match fdIdx with
    | some fdIdx => fileCreateEntry t parentDir filename flag inodeNo a fdIdx
    | none => do
        -- Rollback step 2 falls through to step 1.
        freeInode a
        freeInodeNo inodeNo
        pure (-1)
  else do
    -- Rollback step 1 alone.
    freeInodeNo inodeNo
    pure (-1)

/-- `file_create` by task `t`. -/
def fileCreate (t : Nat) (parentDir : Dir) (filename : Str) (flag : Nat) : FsM Int := do
  let ok ← malloc
  if ok = true then do
    let inodeNo ← inodeBitmapAlloc
    match inodeNo with
    | some inodeNo => fileCreateInode t parentDir filename flag inodeNo
    | none => pure (-1)
  else
    pure (-1)

/-- `O_WRONLY`. -/
def oWronly : Nat := 1

/-- `O_RDWR`. -/
def oRdwr : Nat := 2

/-- `O_CREAT`. -/
def oCreat : Nat := 4

/-- `file_open` once the inode is open. Only one task at a time may write. -/
def fileOpened (t fdIdx a flag : Nat) : FsM Int := do
  Prog.modify (fun s => s.setFile fdIdx ⟨0, flag, some a⟩)
  if flag = oWronly ∨ flag = oRdwr then do
    let i ← inodeAt t a
    -- The slot stays filled when another task is writing.
    if i.writeDeny = true then
      pure (-1)
    else do
      setInodeAt a (fun i => { i with writeDeny := true })
      pcbFdInstall t fdIdx
  else
    pcbFdInstall t fdIdx

/-- `file_open` by task `t`. The slot is chosen before the inode is open, and
    taken after. -/
def fileOpen (t inodeNo flag : Nat) : FsM Int := do
  let fdIdx ← getFreeSlotInGlobal
  match fdIdx with
  | none => pure (-1)
  | some fdIdx => do
      let a ← inodeOpen t inodeNo
      fileOpened t fdIdx a flag

/-- `file->fd_inode` for the file in a slot, where it is followed. -/
def fdInodeOf (g : Nat) : FsM Nat := do
  let p ← Prog.read (fun s => (s.fileTable g).fdInode)
  match p with
  | none => Prog.fail .wild
  | some a => pure a

/-- `file_close` of the file in a slot. -/
def fileClose (t g : Nat) : FsM Int := do
  let a ← fdInodeOf g
  let _ ← inodeAt t a
  -- The flag is cleared by any close, also by one of a reader.
  setInodeAt a (fun i => { i with writeDeny := false })
  inodeClose t a
  Prog.modify (fun s => s.setFile g { s.fileTable g with fdInode := none })
  pure 0

/-- The inode of the file in a slot, and its address. -/
def fileInode (t g : Nat) : FsM (Nat × Inode) := do
  let a ← fdInodeOf g
  let i ← inodeAt t a
  pure (a, i)

/-- `file_write` gives a file that has none its first block. The result is
    `block_lba`, or none where `file_write` returns `-1`. -/
def writeFirstBlock (t g : Nat) : FsM (Option Nat) := do
  let (a, i) ← fileInode t g
  if i.iSectors 0 = 0 then do
    let lba ← blockBitmapAlloc
    match lba with
    | none => pure none
    | some lba => do
        setSector a 0 lba
        let idx ← blockBitmapIdx lba
        assert (idx ≠ 0) .fileWrite
        bitmapSync idx .block
        pure (some lba)
  else
    -- The variable keeps the value it was initialised with.
    pure (some (2 ^ 32 - 1))

/-- The loop of situations 1 and 2 of `file_write`: `n` new blocks from
    `blockIdx` on. -/
def growBlocks (t g : Nat) : Nat → Nat → (Nat → Nat) → FsM (Option (Nat → Nat))
  | 0, _, all => pure (some all)
  | n + 1, blockIdx, all => do
      let lba ← blockBitmapAlloc
      match lba with
      | none => pure none
      | some lba =>
          -- A direct block goes into the inode, an indirect one into the array only.
          if blockIdx < 12 then do
            let (a, i) ← fileInode t g
            assert (i.iSectors blockIdx = 0) .fileWrite
            setSector a blockIdx lba
            let idx ← blockBitmapIdx lba
            bitmapSync idx .block
            growBlocks t g n (blockIdx + 1) (Function.update all blockIdx lba)
          else do
            let idx ← blockBitmapIdx lba
            bitmapSync idx .block
            growBlocks t g n (blockIdx + 1) (Function.update all blockIdx lba)

/-- The loop of situation 3 of `file_write`. It does not move its index, so it
    goes on until no block is left. -/
def allocAll : Nat → FsM (Option Nat)
  | 0 => Prog.fail .hang
  | n + 1 => do
      let lba ← blockBitmapAlloc
      match lba with
      | none => pure none
      | some _ => allocAll n

/-- `file_write` where no block is added. -/
def collectSame (i : Inode) (has : Nat) : FsM (Option (Nat → Nat)) :=
  -- Only the last block is needed, unless it is an indirect one.
  if has ≤ 12 then
    pure (some (Function.update (fun _ => 0) (has - 1) (i.iSectors (has - 1))))
  else do
    assert (i.iSectors 12 ≠ 0) .fileWrite
    let b ← ideRead (i.iSectors 12) 1
    pure (some (fun k => if k < 12 then 0 else indirectBlocks b (k - 12)))

/-- Situation 1 of `file_write`: the direct blocks suffice. -/
def collectDirect (t g : Nat) (i : Inode) (has will table : Nat) : FsM (Option (Nat → Nat)) := do
  -- The inode has thirteen words for addresses.
  Prog.check (has ≤ 13) .wild
  assert (i.iSectors (has - 1) ≠ 0) .fileWrite
  let r ← growBlocks t g (will - has) has
    (Function.update (fun _ => 0) (has - 1) (i.iSectors (has - 1)))
  match r with
  | none => pure none
  | some all => do
      -- The write at the end of all three situations, here to an unset variable.
      ideWrite table 1 (tableBytes all)
      pure (some all)

/-- Situation 2 of `file_write`: the table of indirect blocks is new. -/
def collectTable (t g : Nat) (a : Nat) (i : Inode) (has will : Nat) : FsM (Option (Nat → Nat)) := do
  let table ← blockBitmapAlloc
  match table with
  | none => pure none
  | some table => do
      assert (i.iSectors 12 = 0) .fileWrite
      setSector a 12 table
      let r ← growBlocks t g (will - has) has
        (Function.update (fun _ => 0) (has - 1) (i.iSectors (has - 1)))
      match r with
      | none => pure none
      | some all => do
          -- Once in the situation, and once more at the end of all three.
          ideWrite table 1 (tableBytes all)
          ideWrite table 1 (tableBytes all)
          pure (some all)

/-- `block_lba` after that loop. -/
def moreBlocks (has will lba : Nat) : FsM (Option Nat) :=
  if has < will then do
    let bits ← Prog.read (fun s => s.part.blockBitmap.btmpBytesLen * 8)
    allocAll (bits + 1)
  else
    pure (some lba)

/-- Situation 3 of `file_write`: the table of indirect blocks is there.
    `lba` is what `block_lba` holds so far. -/
def collectIndirect (i : Inode) (has will lba : Nat) : FsM (Option (Nat → Nat)) := do
  assert (i.iSectors 12 ≠ 0) .fileWrite
  let b ← ideRead (i.iSectors 12) 1
  let r ← moreBlocks has will lba
  match r with
  | none => pure none
  | some lba => do
      Prog.check (has < 140) .wild
      let all := Function.update (fun k => if k < 12 then 0 else indirectBlocks b (k - 12)) has lba
      -- No block is new here, and the bit that is written is that of the old address.
      let idx ← blockBitmapIdx lba
      bitmapSync idx .block
      ideWrite (i.iSectors 12) 1 (tableBytes all)
      pure (some all)

/-- `file_write` collects the blocks: `table` is `indirect_block_table` before
    it is set. -/
def collectBlocks (t g count table lba : Nat) : FsM (Option (Nat → Nat)) := do
  let (a, i) ← fileInode t g
  let has := i.iSize / sectorSize + 1
  let will := add32 i.iSize count / sectorSize + 1
  assert (will ≤ 140) .fileWrite
  if will = has then collectSame i has
  else if will ≤ 12 then collectDirect t g i has will table
  else if has ≤ 12 then collectTable t g a i has will
  else collectIndirect i has will lba

/-- The sector a chunk goes to, as it is before: read for the first chunk, and
    cleared for the others. -/
def chunkBuf (lba : Nat) (firstWriteBlock : Bool) : FsM (Nat → Byte) :=
  if firstWriteBlock then ideRead lba 1 else pure (fun _ => 0)

/-- The loop of `file_write` over the data. The first argument counts the
    rounds left; each writes at least one byte. -/
def writeChunks (t g : Nat) (src : Nat → Byte) (count : Nat) (all : Nat → Nat) :
    Nat → Nat → Bool → FsM Unit
  | 0, _, _ => pure ()
  | n + 1, bytesWritten, firstWriteBlock =>
      if bytesWritten < count then do
        let (_, i) ← fileInode t g
        let secIdx := i.iSize / sectorSize
        -- The array of addresses has 140 words.
        Prog.check (secIdx < 140) .wild
        let secOffBytes := i.iSize % sectorSize
        let chunkSize := min (count - bytesWritten) (sectorSize - secOffBytes)
        let buf ← chunkBuf (all secIdx) firstWriteBlock
        ideWrite (all secIdx) 1
          (memcpyTo buf secOffBytes chunkSize (fun k => src (bytesWritten + k)))
        -- The source follows the pointer again after the transfer.
        let (a, _) ← fileInode t g
        setInodeAt a (fun i => { i with iSize := add32 i.iSize chunkSize })
        Prog.modify (fun s => s.setFile g
          { s.fileTable g with fdPos := add32 (s.fileTable g).fdPos chunkSize })
        writeChunks t g src count all n (bytesWritten + chunkSize) false
      else
        pure ()

/-- `file_write` once the blocks are known. -/
def writeFile (t g : Nat) (src : Nat → Byte) (count : Nat) (all : Nat → Nat) : FsM Int := do
  let (_, i) ← fileInode t g
  -- The position is one behind the size, whatever it was before.
  Prog.modify (fun s => s.setFile g { s.fileTable g with fdPos := sub32 i.iSize 1 })
  writeChunks t g src count all count 0 true
  let (_, i) ← fileInode t g
  inodeSync i sectorSize
  pure count

/-- `file_write` once its buffers are there. -/
def fileAppend (t g : Nat) (src : Nat → Byte) (count : Nat) : FsM Int := do
  let table ← unset
  let lba ← writeFirstBlock t g
  match lba with
  | none => pure (-1)
  | some lba => do
      let all ← collectBlocks t g count table lba
      match all with
      | none => pure (-1)
      | some all => writeFile t g src count all

/-- The two buffers of `file_write`. -/
def mallocBuffers : FsM Bool := do
  let ok ← malloc
  if ok = true then malloc else pure false

/-- `file_write` to the file in slot `g`. -/
def fileWrite (t g : Nat) (src : Nat → Byte) (count : Nat) : FsM Int := do
  let (_, i) ← fileInode t g
  -- The sum is taken in 32 bits, so a large count passes.
  if sectorSize * 140 < add32 i.iSize count then
    pure (-1)
  else do
    let ok ← mallocBuffers
    if ok = true then fileAppend t g src count else pure (-1)

/-- `file_read` collects the blocks `first` to `last` in `all_blocks`. -/
def collectRead (i : Inode) (first last : Nat) : FsM (Nat → Nat) :=
  if last < 12 then
    pure (fun k => if first ≤ k ∧ k ≤ last then i.iSectors k else 0)
  else do
    assert (first = last ∨ i.iSectors 12 ≠ 0) .fileRead
    let b ← ideRead (i.iSectors 12) 1
    pure (fun k => if k < 12 then (if first ≤ k then i.iSectors k else 0)
      else indirectBlocks b (k - 12))

/-- The loop of `file_read` over the data. The first argument counts the
    rounds left; each reads at least one byte. -/
def readChunks (g size : Nat) (all : Nat → Nat) : Nat → Nat → (Nat → Byte) → FsM (Nat → Byte)
  | 0, _, dst => pure dst
  | n + 1, bytesRead, dst =>
      if bytesRead < size then do
        let pos ← Prog.read (fun s => (s.fileTable g).fdPos)
        Prog.check (pos / sectorSize < 140) .wild
        let secOffBytes := pos % sectorSize
        let chunkSize := min (size - bytesRead) (sectorSize - secOffBytes)
        let buf ← ideRead (all (pos / sectorSize)) 1
        Prog.modify (fun s => s.setFile g
          { s.fileTable g with fdPos := add32 (s.fileTable g).fdPos chunkSize })
        readChunks g size all n (bytesRead + chunkSize)
          (memcpyTo dst bytesRead chunkSize (fun k => buf (secOffBytes + k)))
      else
        pure dst

/-- `file_read` of `size` bytes from `pos` on. The missing memory for `io_buf`
    is noticed where it is used, and where nothing is read by `sys_free`. -/
def readFile (i : Inode) (g pos size : Nat) (dst : Nat → Byte) : FsM (Int × (Nat → Byte)) := do
  let ioBuf ← malloc
  let ok ← malloc
  if ok = true then do
    let first := pos / sectorSize
    let last := add32 pos size / sectorSize
    -- The assertion leaves out the last block of a file of full size.
    assert (first < 139 ∧ last < 139) .fileRead
    let all ← collectRead i first last
    -- Only the second allocation is tested in front of this.
    Prog.check (ioBuf = true) (if size = 0 then .assertion .sysFree else .wild)
    let dst ← readChunks g size all size 0 dst
    pure (size, dst)
  else
    pure (-1, dst)

/-- `file_read` from the file in slot `g` into a buffer: what it returns and
    what the buffer holds then. -/
def fileRead (t g count : Nat) (dst : Nat → Byte) : FsM (Int × (Nat → Byte)) := do
  let pos ← Prog.read (fun s => (s.fileTable g).fdPos)
  let (_, i) ← fileInode t g
  -- A read over the end is cut, and one at the end returns -1.
  if i.iSize < add32 pos count then
    if sub32 i.iSize pos = 0 then pure (-1, dst)
    else readFile i g pos (sub32 i.iSize pos) dst
  else
    readFile i g pos count dst

end ForikOS
