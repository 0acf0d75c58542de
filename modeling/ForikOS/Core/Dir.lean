import ForikOS.Core.Inode

/-!
# Directories

The functions of `fs/dir.c`.

A directory holds entries of 24 bytes in up to 140 blocks, 21 to a block. The
functions that look for an entry or for room walk over all blocks, then over
the entries of a block; each walk is a function of its own below. The source
declares its buffers and counters anew in every function, and the walks differ
where the functions do: `search_dir_entry` reads the table of indirect blocks,
`sync_dir_entry` starts from an empty one, and `delete_dir_entry` goes on where
its first loop has left the index.

A `struct dir` is the address of its inode and whether it is `root_dir`, which
lies outside the heap and is never closed.

## Main definitions

* `dirOpen`, `dirClose`: A directory in memory.
* `searchDirEntry`: Looks a name up.
* `createDirEntry`, `syncDirEntry`: A new entry.
* `deleteDirEntry`: Takes an entry out.
* `dirIsEmpty`, `dirRemove`: Directories as a whole.
-/

namespace ForikOS

/-- `struct dir` without what `dir_read` uses. -/
structure Dir where
  inode : Nat
  isRoot : Bool

/-- `&root_dir`. -/
def rootDir : FsM Dir := Prog.read (fun s => ⟨s.rootDir, true⟩)

/-- `part->sb->dir_entry_size`. The code steps through a block by
    `sizeof(struct dir_entry)`, so a superblock that says otherwise is one
    this file system has not written. -/
def sbDirEntrySize : FsM Nat := do
  let size ← Prog.read (fun s => s.part.sb.dirEntrySize)
  Prog.check (size = dirEntrySize) .wild
  pure size

/-- The entries of a block. -/
def entriesPerSec : Nat := sectorSize / dirEntrySize

/-- `dir_open`. -/
def dirOpen (t inodeNo : Nat) : FsM Dir := do
  mallocUnchecked
  let a ← inodeOpen t inodeNo
  pure ⟨a, false⟩

/-- `dir_close`. -/
def dirClose (t : Nat) (d : Dir) : FsM Unit :=
  if d.isRoot then pure () else inodeClose t d.inode

/-- The first entry of a block with a name, of `n` entries from `j` on. -/
def findEntry (buf : Nat → Byte) (name : Str) : Nat → Nat → Option Nat
  | 0, _ => none
  | n + 1, j => if strEq buf (dirEntrySize * j) name then some j else findEntry buf name n (j + 1)

/-- The loop of `search_dir_entry` over the blocks. -/
def searchBlocks (all : Nat → Nat) (name : Str) : Nat → Nat → FsM (Option DirEntry)
  | 0, _ => pure none
  | n + 1, blockIdx =>
      -- A block that is missing is passed over, not the end of the directory.
      if all blockIdx = 0 then
        searchBlocks all name n (blockIdx + 1)
      else do
        let buf ← ideRead (all blockIdx) 1
        match findEntry buf name entriesPerSec 0 with
        | some j => pure (some (decodeEntry buf (dirEntrySize * j)))
        | none => searchBlocks all name n (blockIdx + 1)

/-- `search_dir_entry`. Without memory for `all_blocks` nothing is found. -/
def searchDirEntry (t : Nat) (pdir : Dir) (name : Str) : FsM (Option DirEntry) := do
  let ok ← malloc
  if ok = true then do
    let i ← inodeAt t pdir.inode
    let all ← readAllBlocks i
    mallocUnchecked
    let _ ← sbDirEntrySize
    searchBlocks all name 140 0
  else
    pure none

/-- The entry `create_dir_entry` leaves in a cleared `struct dir_entry`. -/
def newDirEntry (filename : Str) (inodeNo : Nat) (fileType : FileType) : DirEntry :=
  ⟨fun k => filename.getD k 0, inodeNo, fileType⟩

/-- `create_dir_entry`. -/
def createDirEntry (filename : Str) (inodeNo : Nat) (fileType : FileType) : FsM DirEntry := do
  assert (filename.length ≤ maxFileNameLen) .createDirEntry
  pure (newDirEntry filename inodeNo fileType)

/-- The first free entry of a block, of `n` entries from `j` on. -/
def findFree (buf : Nat → Byte) : Nat → Nat → Option Nat
  | 0, _ => none
  | n + 1, j =>
      if (decodeEntry buf (dirEntrySize * j)).fType = .unknown then some j
      else findFree buf n (j + 1)

/-- The sector with the indirect blocks of `all_blocks`. -/
def tableBytes (all : Nat → Nat) (b : Nat) : Byte := byteOf (all (12 + b / 4)) (b % 4)

/-- `dir_inode->i_sectors[k] = lba`. -/
def setSector (a k lba : Nat) : FsM Unit :=
  setInodeAt a (fun i => { i with iSectors := Function.update i.iSectors k lba })

/-- `dir_inode->i_size += dir_entry_size`. -/
def growDir (a : Nat) : FsM Unit :=
  setInodeAt a (fun i => { i with iSize := add32 i.iSize dirEntrySize })

/-- The end of `sync_dir_entry` where a block is new: the entry is its first. -/
def syncFirstEntry (a : Nat) (e : DirEntry) (lba : Nat) : FsM Bool := do
  ideWrite lba 1 (memcpyTo (fun _ => 0) 0 dirEntrySize (entryBytes e))
  growDir a
  pure true

/-- `sync_dir_entry` writes the bitmap for the block it has got. -/
def syncNewBit (lba : Nat) : FsM Unit := do
  let idx ← blockBitmapIdx lba
  assert (idx ≠ 2 ^ 32 - 1) .syncDirEntry
  bitmapSync idx .block

/-- `sync_dir_entry` where the first indirect block is missing: the block
    `table` becomes the table, and one more the indirect block. -/
def syncNewTable (t a : Nat) (e : DirEntry) (all : Nat → Nat) (table : Nat) : FsM Bool := do
  setSector a 12 table
  let lba ← blockBitmapAlloc
  match lba with
  | none => do
      -- The table is given back in memory, while the disk has its bit set.
      let i ← inodeAt t a
      let idx ← blockBitmapIdx (i.iSectors 12)
      Prog.modify (fun s => s.setBlockBitmap (bitmapSet s.part.blockBitmap idx false))
      setSector a 12 0
      pure false
  | some lba => do
      syncNewBit lba
      let i ← inodeAt t a
      -- The whole table is written from the array, which was never read.
      ideWrite (i.iSectors 12) 1 (tableBytes (Function.update all 12 lba))
      syncFirstEntry a e lba

/-- `sync_dir_entry` where block `blockIdx` is missing. -/
def syncNewBlock (t a : Nat) (e : DirEntry) (all : Nat → Nat) (blockIdx : Nat) : FsM Bool := do
  let lba ← blockBitmapAlloc
  match lba with
  | none => pure false
  | some lba => do
      syncNewBit lba
      if blockIdx < 12 then do
        setSector a blockIdx lba
        syncFirstEntry a e lba
      -- The test is for the index, not for a table that is missing.
      else if blockIdx = 12 then
        syncNewTable t a e all lba
      else do
        let i ← inodeAt t a
        ideWrite (i.iSectors 12) 1 (tableBytes (Function.update all blockIdx lba))
        syncFirstEntry a e lba

/-- The loop of `sync_dir_entry` over the blocks. -/
def syncBlocks (t a : Nat) (e : DirEntry) (all : Nat → Nat) : Nat → Nat → FsM Bool
  | 0, _ => pure false
  | n + 1, blockIdx =>
      if all blockIdx = 0 then
        syncNewBlock t a e all blockIdx
      else do
        let buf ← ideRead (all blockIdx) 1
        match findFree buf entriesPerSec 0 with
        | some j => do
            ideWrite (all blockIdx) 1 (memcpyTo buf (dirEntrySize * j) dirEntrySize (entryBytes e))
            growDir a
            pure true
        | none => syncBlocks t a e all n (blockIdx + 1)

/-- `sync_dir_entry`. The table of indirect blocks is not read. -/
def syncDirEntry (t : Nat) (parentDir : Dir) (e : DirEntry) : FsM Bool := do
  let i ← inodeAt t parentDir.inode
  let size ← sbDirEntrySize
  assert (i.iSize % size = 0) .syncDirEntry
  syncBlocks t parentDir.inode e (allBlocks i (fun _ => 0)) 140 0

/-- `"."`. -/
def dotName : Str := [0x2e]

/-- `".."`. -/
def dotdotName : Str := [0x2e, 0x2e]

/-- What `delete_dir_entry` knows about a block: whether it is the first of
    the directory, how many entries it has, and where the entry is. -/
structure BlockScan where
  isDirFirstBlock : Bool
  dirEntryCnt : Nat
  dirEntryFound : Option Nat

/-- The loop of `delete_dir_entry` over the entries of a block. -/
def scanEntries (buf : Nat → Byte) (inodeNo : Nat) : Nat → Nat → BlockScan → FsM BlockScan
  | 0, _, r => pure r
  | n + 1, j, r =>
      let off := dirEntrySize * j
      let e := decodeEntry buf off
      if e.fType = .unknown then
        scanEntries buf inodeNo n (j + 1) r
      else if strEq buf off dotName then
        scanEntries buf inodeNo n (j + 1) { r with isDirFirstBlock := true }
      else if strEq buf off dotdotName then
        scanEntries buf inodeNo n (j + 1) r
      -- An entry that names the inode is counted like any other.
      else if e.iNo = inodeNo then do
        assert (r.dirEntryFound.isNone = true) .deleteDirEntry
        scanEntries buf inodeNo n (j + 1)
          { r with dirEntryCnt := r.dirEntryCnt + 1, dirEntryFound := some j }
      else
        scanEntries buf inodeNo n (j + 1) { r with dirEntryCnt := r.dirEntryCnt + 1 }

/-- `delete_dir_entry` where the entry is the last of its block: the block is
    given back. The loop that then counts the indirect blocks does not move
    its index, so it does not end. -/
def deleteBlock (a : Nat) (all : Nat → Nat) (blockIdx : Nat) : FsM Unit := do
  let idx ← blockBitmapIdx (all blockIdx)
  Prog.modify (fun s => s.setBlockBitmap (bitmapSet s.part.blockBitmap idx false))
  bitmapSync idx .block
  -- A direct block is forgotten, an indirect one starts the endless loop.
  if blockIdx < 12 then setSector a blockIdx 0 else Prog.fail .hang

/-- The end of `delete_dir_entry`: the size, and the inode of the directory. -/
def shrinkDir (t a : Nat) : FsM Bool := do
  let size ← sbDirEntrySize
  let i ← inodeAt t a
  assert (size ≤ i.iSize) .deleteDirEntry
  setInodeAt a (fun i => { i with iSize := sub32 i.iSize size })
  let i ← inodeAt t a
  inodeSync i (sectorSize * 2)
  pure true

/-- The loop of `delete_dir_entry` over the blocks. -/
def deleteBlocks (t a : Nat) (all : Nat → Nat) (inodeNo : Nat) : Nat → Nat → FsM Bool
  | 0, _ => pure false
  | n + 1, blockIdx =>
      if all blockIdx = 0 then
        deleteBlocks t a all inodeNo n (blockIdx + 1)
      else do
        let buf ← ideRead (all blockIdx) 1
        let r ← scanEntries buf inodeNo entriesPerSec 0 ⟨false, 0, none⟩
        match r.dirEntryFound with
        | none => deleteBlocks t a all inodeNo n (blockIdx + 1)
        | some j => do
            assert (1 ≤ r.dirEntryCnt) .deleteDirEntry
            -- The first block has the two dots and stays, even if it is the last entry.
            if r.dirEntryCnt = 1 ∧ r.isDirFirstBlock = false then do
              deleteBlock a all blockIdx
              shrinkDir t a
            else do
              -- Otherwise the entry is cleared in its block.
              ideWrite (all blockIdx) 1
                (memcpyTo buf (dirEntrySize * j) dirEntrySize (fun _ => 0))
              shrinkDir t a

/-- `delete_dir_entry`. The loop that collects the direct blocks leaves the
    index at twelve, and the search goes on from there. -/
def deleteDirEntry (t : Nat) (pdir : Dir) (inodeNo : Nat) : FsM Bool := do
  let i ← inodeAt t pdir.inode
  let all ← readAllBlocks i
  let _ ← sbDirEntrySize
  deleteBlocks t pdir.inode all inodeNo 128 12

/-- `dir_is_empty`. -/
def dirIsEmpty (t : Nat) (d : Dir) : FsM Bool := do
  let i ← inodeAt t d.inode
  let size ← Prog.read (fun s => s.part.sb.dirEntrySize)
  pure (decide (i.iSize = size * 2 % 2 ^ 32))

/-- `dir_remove`. -/
def dirRemove (t : Nat) (parentDir childDir : Dir) : FsM Int := do
  let i ← inodeAt t childDir.inode
  assert (∀ k : Fin 12, i.iSectors (k + 1) = 0) .dirRemove
  -- The answer of the deletion is not looked at.
  let ok ← malloc
  if ok = true then do
    let i ← inodeAt t childDir.inode
    let _ ← deleteDirEntry t parentDir i.iNo
    let i ← inodeAt t childDir.inode
    inodeRelease t i.iNo
    pure 0
  else
    pure (-1)

end ForikOS
