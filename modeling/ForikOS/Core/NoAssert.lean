import ForikOS.Core.FileSys

/-!
# The Build Without Assertions

`file_write`, `file_create` and `sys_mkdir` where `NDEBUG` is defined, so that
`ASSERT` is nothing (`lib/debug.h`).

Without its assertion `bitmap_scan` returns `-1` for a full bitmap, and its
callers have to undo what they have done. The functions here are those of
`fs/` that find out about it, with the assertions in them left out, and
`search_file`, whose assertions are about the path. They have the names they
have in the source; what they share with the other build is used from there.
An access that only an assertion kept inside an array is one without a meaning
now. A transfer beyond the end of the disk panics in this build too, in
`ide_read` or `ide_write` themselves.

The calls return `-1` for several reasons. A result `none` is the `-1` of a
call for which there was no block or no inode.

## Main definitions

* `inodeBitmapAlloc`, `blockBitmapAlloc`: A number and a block, or neither.
* `syncDirEntry`: An entry in a directory.
* `fileCreate`, `fileWrite`, `sysMkdir`: The calls.
-/

namespace ForikOS.NoAssert

/-- `inode_bitmap_alloc`. -/
def inodeBitmapAlloc : FsM (Option Nat) := do
  let b ← Prog.read (fun s => s.part.inodeBitmap)
  match bitmapScanRest b 1 with
  | none => pure none
  | some i => do
      Prog.modify (fun s => s.setInodeBitmap (bitmapSet s.part.inodeBitmap i true))
      pure (some i)

/-- `block_bitmap_alloc`. -/
def blockBitmapAlloc : FsM (Option Nat) := do
  let part ← Prog.read (fun s => s.part)
  match bitmapScanRest part.blockBitmap 1 with
  | none => pure none
  | some i => do
      Prog.modify (fun s => s.setBlockBitmap (bitmapSet s.part.blockBitmap i true))
      pure (some (add32 part.sb.dataStartLba i))

/-- The bit of a new block goes to the disk. -/
def syncNewBit (lba : Nat) : FsM Unit := do
  let idx ← blockBitmapIdx lba
  bitmapSync idx .block

/-- `sync_dir_entry` where the first indirect block is missing. -/
def syncNewTable (t a : Nat) (e : DirEntry) (all : Nat → Nat) (table : Nat) : FsM Bool := do
  setSector a 12 table
  let lba ← blockBitmapAlloc
  match lba with
  | none => do
      let i ← inodeAt t a
      let idx ← blockBitmapIdx (i.iSectors 12)
      Prog.modify (fun s => s.setBlockBitmap (bitmapSet s.part.blockBitmap idx false))
      setSector a 12 0
      pure false
  | some lba => do
      syncNewBit lba
      let i ← inodeAt t a
      ideWrite (i.iSectors 12) 1 (tableBytes (Function.update all 12 lba))
      syncFirstEntry a e lba

/-- `sync_dir_entry` where block `blockIdx` is missing. -/
def syncNewBlock (t a : Nat) (e : DirEntry) (all : Nat → Nat) (blockIdx : Nat) : FsM Bool := do
  let lba ← blockBitmapAlloc
  match lba with
  | none => pure false
  | some lba => do
      syncNewBit lba
      if blockIdx < 12 then do
        setSector a blockIdx lba
        syncFirstEntry a e lba
      else if blockIdx = 12 then
        syncNewTable t a e all lba
      else do
        let i ← inodeAt t a
        ideWrite (i.iSectors 12) 1 (tableBytes (Function.update all blockIdx lba))
        syncFirstEntry a e lba

/-- The loop of `sync_dir_entry` over the blocks. -/
def syncBlocks (t a : Nat) (e : DirEntry) (all : Nat → Nat) : Nat → Nat → FsM Bool
  | 0, _ => pure false
  | n + 1, blockIdx =>
      if all blockIdx = 0 then
        syncNewBlock t a e all blockIdx
      else do
        let buf ← ideRead (all blockIdx) 1
        match findFree buf entriesPerSec 0 with
        | some j => do
            ideWrite (all blockIdx) 1 (memcpyTo buf (dirEntrySize * j) dirEntrySize (entryBytes e))
            growDir a
            pure true
        | none => syncBlocks t a e all n (blockIdx + 1)

/-- `sync_dir_entry`. -/
def syncDirEntry (t : Nat) (parentDir : Dir) (e : DirEntry) : FsM Bool := do
  let i ← inodeAt t parentDir.inode
  let _ ← sbDirEntrySize
  syncBlocks t parentDir.inode e (allBlocks i (fun _ => 0)) 140 0

/-- `file_create` once the new file has an inode and a slot. -/
def fileCreateEntry (t : Nat) (parentDir : Dir) (filename : Str) (flag inodeNo a fdIdx : Nat) :
    FsM (Option Int) := do
  Prog.modify (fun s => s.setFile fdIdx ⟨0, flag, some a⟩)
  let done ← syncDirEntry t parentDir (newDirEntry filename inodeNo .regular)
  if done = true then do
    let r ← fileCreated t parentDir inodeNo a fdIdx
    pure (some r)
  else do
    Prog.modify (fun s => s.setFile fdIdx ⟨0, 0, none⟩)
    freeInode a
    freeInodeNo inodeNo
    pure none

/-- `file_create` once the new file has a number. -/
def fileCreateInode (t : Nat) (parentDir : Dir) (filename : Str) (flag inodeNo : Nat) :
    FsM (Option Int) := do
  let ok ← malloc
  if ok = true then do
    let home ← Prog.read (fun s => callerHome s t)
    let a ← newInode home
    setInodeAt a (fun _ => inodeInit inodeNo)
    let fdIdx ← getFreeSlotInGlobal
    match fdIdx with
    | some fdIdx => fileCreateEntry t parentDir filename flag inodeNo a fdIdx
    | none => do
        freeInode a
        freeInodeNo inodeNo
        pure (some (-1))
  else do
    freeInodeNo inodeNo
    pure (some (-1))

/-- `file_create` by task `t`. -/
def fileCreate (t : Nat) (parentDir : Dir) (filename : Str) (flag : Nat) : FsM (Option Int) := do
  let ok ← malloc
  if ok = true then do
    let inodeNo ← inodeBitmapAlloc
    match inodeNo with
    | some inodeNo => fileCreateInode t parentDir filename flag inodeNo
    | none => pure none
  else
    pure (some (-1))

/-- `file_write` gives a file that has none its first block. -/
def writeFirstBlock (t g : Nat) : FsM (Option Nat) := do
  let (a, i) ← fileInode t g
  if i.iSectors 0 = 0 then do
    let lba ← blockBitmapAlloc
    match lba with
    | none => pure none
    | some lba => do
        setSector a 0 lba
        syncNewBit lba
        pure (some lba)
  else
    pure (some (2 ^ 32 - 1))

/-- The loop of situations 1 and 2 of `file_write`. -/
def growBlocks (t g : Nat) : Nat → Nat → (Nat → Nat) → FsM (Option (Nat → Nat))
  | 0, _, all => pure (some all)
  | n + 1, blockIdx, all => do
      let lba ← blockBitmapAlloc
      match lba with
      | none => pure none
      | some lba => do
          -- `all_blocks` has 140 elements, and no assertion stops before the end of it
          Prog.check (blockIdx < 140) .wild
          if blockIdx < 12 then do
            let (a, _) ← fileInode t g
            setSector a blockIdx lba
            syncNewBit lba
            growBlocks t g n (blockIdx + 1) (Function.update all blockIdx lba)
          else do
            syncNewBit lba
            growBlocks t g n (blockIdx + 1) (Function.update all blockIdx lba)

/-- The loop of situation 3 of `file_write`, which goes on until no block is
    left. -/
def allocAll : Nat → FsM (Option Nat)
  | 0 => Prog.fail .hang
  | n + 1 => do
      let lba ← blockBitmapAlloc
      match lba with
      | none => pure none
      | some _ => allocAll n

/-- `file_write` where no block is added. -/
def collectSame (i : Inode) (has : Nat) : FsM (Option (Nat → Nat)) :=
  if has ≤ 12 then
    pure (some (Function.update (fun _ => 0) (has - 1) (i.iSectors (has - 1))))
  else do
    let b ← ideRead (i.iSectors 12) 1
    pure (some (fun k => if k < 12 then 0 else indirectBlocks b (k - 12)))

/-- Situation 1 of `file_write`. -/
def collectDirect (t g : Nat) (i : Inode) (has will table : Nat) : FsM (Option (Nat → Nat)) := do
  Prog.check (has ≤ 13) .wild
  let r ← growBlocks t g (will - has) has
    (Function.update (fun _ => 0) (has - 1) (i.iSectors (has - 1)))
  match r with
  | none => pure none
  | some all => do
      ideWrite table 1 (tableBytes all)
      pure (some all)

/-- Situation 2 of `file_write`. -/
def collectTable (t g a : Nat) (i : Inode) (has will : Nat) : FsM (Option (Nat → Nat)) := do
  let table ← blockBitmapAlloc
  match table with
  | none => pure none
  | some table => do
      setSector a 12 table
      let r ← growBlocks t g (will - has) has
        (Function.update (fun _ => 0) (has - 1) (i.iSectors (has - 1)))
      match r with
      | none => pure none
      | some all => do
          ideWrite table 1 (tableBytes all)
          ideWrite table 1 (tableBytes all)
          pure (some all)

/-- `block_lba` after the loop of situation 3. -/
def moreBlocks (has will lba : Nat) : FsM (Option Nat) :=
  if has < will then do
    let bits ← Prog.read (fun s => s.part.blockBitmap.btmpBytesLen * 8)
    allocAll (bits + 1)
  else
    pure (some lba)

/-- Situation 3 of `file_write`. -/
def collectIndirect (i : Inode) (has will lba : Nat) : FsM (Option (Nat → Nat)) := do
  let b ← ideRead (i.iSectors 12) 1
  let r ← moreBlocks has will lba
  match r with
  | none => pure none
  | some lba => do
      Prog.check (has < 140) .wild
      let all := Function.update (fun k => if k < 12 then 0 else indirectBlocks b (k - 12)) has lba
      syncNewBit lba
      ideWrite (i.iSectors 12) 1 (tableBytes all)
      pure (some all)

/-- `file_write` collects the blocks. -/
def collectBlocks (t g count table lba : Nat) : FsM (Option (Nat → Nat)) := do
  let (a, i) ← fileInode t g
  let has := i.iSize / sectorSize + 1
  let will := add32 i.iSize count / sectorSize + 1
  if will = has then collectSame i has
  else if will ≤ 12 then collectDirect t g i has will table
  else if has ≤ 12 then collectTable t g a i has will
  else collectIndirect i has will lba

/-- `file_write` once its buffers are there. -/
def fileAppend (t g : Nat) (src : Nat → Byte) (count : Nat) : FsM (Option Int) := do
  let table ← unset
  let lba ← writeFirstBlock t g
  match lba with
  | none => pure none
  | some lba => do
      let all ← collectBlocks t g count table lba
      match all with
      | none => pure none
      | some all => do
          let r ← writeFile t g src count all
          pure (some r)

/-- `file_write` to the file in slot `g`. -/
def fileWrite (t g : Nat) (src : Nat → Byte) (count : Nat) : FsM (Option Int) := do
  let (_, i) ← fileInode t g
  if sectorSize * 140 < add32 i.iSize count then
    pure (some (-1))
  else do
    let ok ← mallocBuffers
    if ok = true then fileAppend t g src count else pure (some (-1))

/-- The loop of `search_file`. -/
def searchLoop (t : Nat) : Nat → Str → Option Str → Nat → Nat → PathSearchRecord →
    FsM (Nat × PathSearchRecord)
  | 0, _, _, _, _, _ => Prog.fail .hang
  | n + 1, name, subPath, inodeNo, parentInodeNo, r => do
      Prog.check (name.length < maxFileNameLen) .wild
      if name = [] then searchFound t inodeNo parentInodeNo r
      else do
        Prog.check (r.searchedPath.length < 512) .wild
        let r := { r with searchedPath := r.searchedPath ++ slash :: name }
        let found ← searchDirEntry t r.parentDir name
        match found with
        | none => pure (minusOne, r)
        | some e => do
            Prog.check ((pathNext subPath).1.length ≤ maxFileNameLen) .wild
            if e.fType = .directory then do
              let i ← inodeAt t r.parentDir.inode
              dirClose t r.parentDir
              let d ← dirOpen t e.iNo
              searchLoop t n (pathNext subPath).1 (pathNext subPath).2 e.iNo i.iNo
                { r with parentDir := d }
            else if e.fType = .regular then
              pure (e.iNo, { r with fileType := .regular })
            else
              searchLoop t n (pathNext subPath).1 (pathNext subPath).2 e.iNo parentInodeNo r

/-- `search_file` by task `t`. -/
def searchFile (t : Nat) (pathname : Str) : FsM (Nat × PathSearchRecord) := do
  let root ← rootDir
  if pathname = [slash] ∨ pathname = slash :: dotName ∨ pathname = slash :: dotdotName then
    pure (0, ⟨[], root, .directory⟩)
  else do
    let junk ← unset
    let (name, subPath) := pathParse pathname
    searchLoop t (pathname.length + 2) name subPath (junk % 2 ^ 32) 0 ⟨[], root, .unknown⟩

/-- `sys_mkdir` once the new directory has a number and a block. -/
def mkdirEntry (t : Nat) (parentDir : Dir) (dirname : Str) (inodeNo lba : Nat) :
    FsM (Option Int) := do
  syncNewBit lba
  let parent ← inodeAt t parentDir.inode
  ideWrite lba 1 (dotEntries inodeNo parent.iNo)
  let size ← sbDirEntrySize
  let done ← syncDirEntry t parentDir (newDirEntry dirname inodeNo .directory)
  if done = true then do
    let parent ← inodeAt t parentDir.inode
    inodeSync parent (sectorSize * 2)
    inodeSync { inodeInit inodeNo with
      iSize := 2 * size, iSectors := Function.update (fun _ => 0) 0 lba } (sectorSize * 2)
    bitmapSync inodeNo .inode
    dirClose t parentDir
    pure (some 0)
  else do
    freeInodeNo inodeNo
    dirClose t parentDir
    pure none

/-- `sys_mkdir` once the path has been followed to its end. -/
def mkdirSearched (t : Nat) (r : PathSearchRecord) : FsM (Option Int) := do
  let inodeNo ← inodeBitmapAlloc
  match inodeNo with
  | none => do
      dirClose t r.parentDir
      pure none
  | some inodeNo => do
      let lba ← blockBitmapAlloc
      match lba with
      | none => do
          freeInodeNo inodeNo
          dirClose t r.parentDir
          pure none
      | some lba => mkdirEntry t r.parentDir (baseName r.searchedPath) inodeNo lba

/-- `sys_mkdir` by task `t`. -/
def sysMkdir (t : Nat) (pathname : Str) : FsM (Option Int) := do
  let ok ← malloc
  if ok = true then do
    let (inodeNo, r) ← searchFile t pathname
    if inodeNo ≠ minusOne then do
      dirClose t r.parentDir
      pure (some (-1))
    else do
      let pathnameDepth ← pathDepthCnt pathname
      let pathSearchedDepth ← pathDepthCnt r.searchedPath
      if pathnameDepth ≠ pathSearchedDepth then do
        dirClose t r.parentDir
        pure (some (-1))
      else
        mkdirSearched t r
  else
    pure (some (-1))

end ForikOS.NoAssert
