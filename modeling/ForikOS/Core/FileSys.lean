import ForikOS.Core.File

/-!
# The File System

The functions of `fs/fs.c`: how a partition is laid out and mounted, how a
path is followed, and the system calls on files and directories. The loop of
`user/wait_exit.c` that closes the files of an exiting process is here too.

A path is the string without its terminator. `path_parse` copies a component
without a terminator into an array of 16 bytes, so a component has to be
shorter than the array where the array is then used as a string, and must not
be longer anywhere.

`search_file` returns the number of the inode in an `int`, and `-1` if there is
none; the model keeps the 32 bits. Its loop, like that of `path_depth_cnt`, is
over the components of the path, and the number of bytes of the path bounds
their number.

## Main definitions

* `partitionFormat`, `mountPartition`, `filesysInit`: The start.
* `pathParse`, `pathDepthCnt`: Paths.
* `searchFile`: Follows a path.
* `sysOpen`, `sysClose`, `sysWrite`, `sysRead`, `sysLseek`, `sysUnlink`,
  `sysMkdir`, `sysRmdir`, `sysOpendir`, `sysClosedir`, `sysChdir`,
  `sysGetcwd`, `sysStat`: System calls.
* `closeFiles`: What `sys_exit` does about files.
* `blankFs`: A machine with a blank disk, before `filesys_init`.
-/

namespace ForikOS

/-- `DIV_ROUND_UP`. -/
def divRoundUp (x step : Nat) : Nat := add32 x (step - 1) / step

/-- The number of bits of the block bitmap `partition_format` makes for a
    partition of `secCnt` sectors. -/
def formatBits (secCnt : Nat) : Nat :=
  let inodeTableSects := divRoundUp (inodeSize * 4096) sectorSize
  let usedSects := 1 + 1 + divRoundUp 4096 4096 + inodeTableSects
  let freeSects := sub32 secCnt usedSects
  sub32 freeSects (divRoundUp freeSects 4096)

/-- The superblock `partition_format` makes. -/
def formatSb (startLba secCnt : Nat) : SuperBlock :=
  let blockBitmapSects := divRoundUp (formatBits secCnt) 4096
  let blockBitmapLba := add32 startLba 2
  let inodeBitmapSects := divRoundUp 4096 4096
  let inodeBitmapLba := add32 blockBitmapLba blockBitmapSects
  let inodeTableSects := divRoundUp (inodeSize * 4096) sectorSize
  let inodeTableLba := add32 inodeBitmapLba inodeBitmapSects
  { magic := 0x19590318
    secCnt := secCnt
    inodeCnt := 4096
    partLbaBase := startLba
    blockBitmapLba := blockBitmapLba
    blockBitmapSects := blockBitmapSects
    inodeBitmapLba := inodeBitmapLba
    inodeBitmapSects := inodeBitmapSects
    inodeTableLba := inodeTableLba
    inodeTableSects := inodeTableSects
    dataStartLba := add32 inodeTableLba inodeTableSects
    rootInodeNo := 0
    dirEntrySize := dirEntrySize }

/-- Word `w` of a superblock; nothing reads the padding. -/
def sbWord (sb : SuperBlock) (w : Nat) : Nat :=
  [sb.magic, sb.secCnt, sb.inodeCnt, sb.partLbaBase, sb.blockBitmapLba, sb.blockBitmapSects,
    sb.inodeBitmapLba, sb.inodeBitmapSects, sb.inodeTableLba, sb.inodeTableSects, sb.dataStartLba,
    sb.rootInodeNo, sb.dirEntrySize].getD w 0

/-- The bytes of a superblock. -/
def sbBytes (sb : SuperBlock) (k : Nat) : Byte := byteOf (sbWord sb (k / 4)) (k % 4)

/-- The superblock in a sector. -/
def decodeSb (b : Nat → Byte) : SuperBlock :=
  ⟨le32 b 0, le32 b 4, le32 b 8, le32 b 12, le32 b 16, le32 b 20, le32 b 24, le32 b 28, le32 b 32,
    le32 b 36, le32 b 40, le32 b 44, le32 b 48⟩

/-- Clear the lowest `n` bits of a byte. -/
def clearLow : Nat → Byte → Byte
  | 0, b => b
  | n + 1, b => clearLow n b &&& ~~~(1#8 <<< n)

/-- The block bitmap `partition_format` writes. -/
def formatBlockBits (bitLen : Nat) (k : Nat) : Byte :=
  let lastByte := bitLen / 8
  let lastSize := sectorSize - lastByte % sectorSize
  -- The bits behind the last block are set, and the first one for the root.
  let b : Byte := if lastByte ≤ k ∧ k < lastByte + lastSize then 0xff else if k = 0 then 1 else 0
  -- The loop clears one bit more than the remainder.
  if k = lastByte then clearLow (bitLen % 8 + 1) b else b

/-- The first block of a directory: `"."` and `".."`. -/
def dotEntries (inodeNo parentNo : Nat) : Nat → Byte :=
  memcpyTo (memcpyTo (fun _ => 0) 0 dirEntrySize
      (entryBytes (newDirEntry dotName inodeNo .directory)))
    dirEntrySize dirEntrySize (entryBytes (newDirEntry dotdotName parentNo .directory))

/-- `partition_format`. -/
def partitionFormat : FsM Unit := do
  let part ← Prog.read (fun s => s.part)
  let sb := formatSb part.startLba part.secCnt
  ideWrite (add32 part.startLba 1) 1 (sbBytes sb)
  mallocUnchecked
  ideWrite sb.blockBitmapLba sb.blockBitmapSects (formatBlockBits (formatBits part.secCnt))
  ideWrite sb.inodeBitmapLba sb.inodeBitmapSects (fun k => if k = 0 then 1 else 0)
  -- The root directory has inode 0 and the first block of the data.
  ideWrite sb.inodeTableLba sb.inodeTableSects
    (memcpyTo (fun _ => 0) 0 inodeSize (inodeBytes ⟨0, sb.dirEntrySize * 2, 0, false,
      Function.update (fun _ => 0) 0 sb.dataStartLba⟩))
  ideWrite sb.dataStartLba 1 (dotEntries 0 0)

/-- `sys_malloc` where no memory is a panic. -/
def mallocOrPanic : FsM Unit := do
  let ok ← malloc
  assert (ok = true) .mountPartition

/-- `mount_partition` of the partition it looks for. -/
def mountPartition : FsM Unit := do
  let part ← Prog.read (fun s => s.part)
  mallocUnchecked
  mallocOrPanic
  let sbBuf ← ideRead (add32 part.startLba 1) 1
  let sb := decodeSb sbBuf
  mallocOrPanic
  let blockBits ← ideRead sb.blockBitmapLba sb.blockBitmapSects
  mallocOrPanic
  let inodeBits ← ideRead sb.inodeBitmapLba sb.inodeBitmapSects
  Prog.modify (fun s =>
    { s with
      part :=
        { s.part with
          sb := sb
          blockBitmap := ⟨sb.blockBitmapSects * sectorSize, blockBits⟩
          inodeBitmap := ⟨sb.inodeBitmapSects * sectorSize, inodeBits⟩
          openInodes := [] } })

/-- `open_root_dir`. -/
def openRootDir (t : Nat) : FsM Unit := do
  let n ← Prog.read (fun s => s.part.sb.rootInodeNo)
  let a ← inodeOpen t n
  Prog.modify (fun s => { s with rootDir := a })

/-- A partition without a file system is formatted. -/
def formatNew : FsM Unit := do
  let part ← Prog.read (fun s => s.part)
  let sbBuf ← ideRead (add32 part.startLba 1) 1
  if (decodeSb sbBuf).magic = 0x19590318 then pure () else partitionFormat

/-- `filesys_init` for the partition that gets mounted. -/
def filesysInit (t : Nat) : FsM Unit := do
  mallocOrPanic
  formatNew
  mountPartition
  openRootDir t
  Prog.modify (fun s =>
    { s with fileTable := fun g =>
        if g < maxFileOpen then { s.fileTable g with fdInode := none } else s.fileTable g })

/-- `'/'`. -/
def slash : Byte := 0x2f

/-- `path_parse`: the first component, and the rest of the path, if any. -/
def pathParse (pathname : Str) : Str × Option Str :=
  let p := pathname.dropWhile (· == slash)
  let rest := p.dropWhile (· != slash)
  (p.takeWhile (· != slash), if rest = [] then none else some rest)

/-- The component and the rest after one more round, in which a null pointer
    leaves the name empty. -/
def pathNext : Option Str → Str × Option Str
  | none => ([], none)
  | some p => pathParse p

/-- The loop of `path_depth_cnt`: one more component for as long as there is
    one. -/
def pathDepthLoop : Nat → Str → Option Str → Nat → FsM Nat
  | 0, _, _, _ => Prog.fail .hang
  | n + 1, name, p, depth => do
      Prog.check (name.length ≤ maxFileNameLen) .wild
      if name = [] then pure depth
      else pathDepthLoop n (pathNext p).1 (pathNext p).2 (depth + 1)

/-- `path_depth_cnt`. The array for the name is not set, so a path without a
    component counts as what is in it. -/
def pathDepthCnt (pathname : Str) : FsM Nat := do
  let junk ← unset
  let (name, p) := pathParse pathname
  -- The first test of the loop looks at the first byte of the array.
  if name = [] ∧ junk % 256 ≠ 0 then
    pathDepthLoop (pathname.length + 2) (pathNext p).1 (pathNext p).2 1
  else
    pathDepthLoop (pathname.length + 2) name p 0

/-- `struct path_search_record`. -/
structure PathSearchRecord where
  searchedPath : Str
  parentDir : Dir
  fileType : FileType

/-- `-1` in 32 bits. -/
def minusOne : Nat := 2 ^ 32 - 1

/-- The end of `search_file`: the whole path has been followed, and the last
    entry names inode `inodeNo`. -/
def searchFound (t inodeNo parentInodeNo : Nat) (r : PathSearchRecord) :
    FsM (Nat × PathSearchRecord) := do
  -- The parent is opened again in place of the directory that was found.
  dirClose t r.parentDir
  let d ← dirOpen t parentInodeNo
  pure (inodeNo, { r with parentDir := d, fileType := .directory })

/-- The loop of `search_file`. -/
def searchLoop (t : Nat) : Nat → Str → Option Str → Nat → Nat → PathSearchRecord →
    FsM (Nat × PathSearchRecord)
  | 0, _, _, _, _, _ => Prog.fail .hang
  | n + 1, name, subPath, inodeNo, parentInodeNo, r => do
      -- The array for the name has sixteen bytes, with the terminator.
      Prog.check (name.length < maxFileNameLen) .wild
      if name = [] then searchFound t inodeNo parentInodeNo r
      else do
        assert (r.searchedPath.length < 512) .searchFile
        let r := { r with searchedPath := r.searchedPath ++ slash :: name }
        let found ← searchDirEntry t r.parentDir name
        match found with
        | none => pure (minusOne, r)
        | some e => do
            Prog.check ((pathNext subPath).1.length ≤ maxFileNameLen) .wild
            if e.fType = .directory then do
              -- The number of the directory is kept as that of the parent.
              let i ← inodeAt t r.parentDir.inode
              dirClose t r.parentDir
              let d ← dirOpen t e.iNo
              searchLoop t n (pathNext subPath).1 (pathNext subPath).2 e.iNo i.iNo
                { r with parentDir := d }
            else if e.fType = .regular then
              -- A file ends the search, also in the middle of the path.
              pure (e.iNo, { r with fileType := .regular })
            else
              searchLoop t n (pathNext subPath).1 (pathNext subPath).2 e.iNo parentInodeNo r

/-- `search_file` by task `t`. The number the last entry names is not set
    where there is no component. -/
def searchFile (t : Nat) (pathname : Str) : FsM (Nat × PathSearchRecord) := do
  let root ← rootDir
  if pathname = [slash] ∨ pathname = slash :: dotName ∨ pathname = slash :: dotdotName then
    pure (0, ⟨[], root, .directory⟩)
  else do
    assert (pathname.head? = some slash ∧ 1 < pathname.length ∧ pathname.length < maxPathLen)
      .searchFile
    let junk ← unset
    let (name, subPath) := pathParse pathname
    searchLoop t (pathname.length + 2) name subPath (junk % 2 ^ 32) 0 ⟨[], root, .unknown⟩

/-- `strrchr(path, '/') + 1`. -/
def baseName (path : Str) : Str := (path.reverse.takeWhile (· != slash)).reverse

/-- `sys_open` once the path has been followed to its end. -/
def openSearched (t : Nat) (pathname : Str) (flags inodeNo : Nat) (r : PathSearchRecord) :
    FsM Int :=
  if inodeNo = minusOne ∧ flags &&& oCreat = 0 then do
    dirClose t r.parentDir
    pure (-1)
  else if inodeNo ≠ minusOne ∧ flags &&& oCreat ≠ 0 then do
    dirClose t r.parentDir
    pure (-1)
  -- The file is new, and only here the directory is closed after the call.
  else if flags &&& oCreat ≠ 0 then do
    let fd ← fileCreate t r.parentDir (baseName pathname) flags
    dirClose t r.parentDir
    pure fd
  else
    -- The directory stays open when a file is opened.
    fileOpen t inodeNo flags

/-- `sys_open` by task `t`. -/
def sysOpen (t : Nat) (pathname : Str) (flags : Nat) : FsM Int := do
  Prog.check (pathname ≠ []) .wild
  if pathname.getLast? = some slash then pure (-1)
  else do
    assert (flags ≤ 7) .sysOpen
    let pathnameDepth ← pathDepthCnt pathname
    let (inodeNo, r) ← searchFile t pathname
    if r.fileType = .directory then do
      dirClose t r.parentDir
      pure (-1)
    else do
      let pathSearchedDepth ← pathDepthCnt r.searchedPath
      -- The search has stopped on the way, at a file or where a name is missing.
      if pathnameDepth ≠ pathSearchedDepth then do
        dirClose t r.parentDir
        pure (-1)
      else
        openSearched t pathname flags inodeNo r

/-- `fd_local2global`. -/
def fdLocal2global (t localFd : Nat) : FsM Nat := do
  let globalFd ← Prog.read (fun s => s.fdTable t localFd)
  assert (0 ≤ globalFd ∧ globalFd < maxFileOpen) .fdLocal2global
  pure globalFd.toNat

/-- `sys_close` by task `t`. -/
def sysClose (t : Nat) (fd : Int) : FsM Int :=
  if 2 < fd then do
    let g ← fdLocal2global t fd.toNat
    let ret ← fileClose t g
    Prog.modify (fun s => s.setFd t fd.toNat (-1))
    pure ret
  else
    pure (-1)

/-- The loop of `release_prog_resource` over `fd_table`: `n` entries from
    `fdIdx` on. -/
def closeFilesFrom (t : Nat) : Nat → Nat → FsM Unit
  | 0, _ => pure ()
  | n + 1, fdIdx => do
      let g ← Prog.read (fun s => s.fdTable t fdIdx)
      if g ≠ -1 then do
        let _ ← sysClose t fdIdx
        closeFilesFrom t n (fdIdx + 1)
      else
        closeFilesFrom t n (fdIdx + 1)

/-- `release_prog_resource` closes the files of task `t`. -/
def closeFiles (t : Nat) : FsM Unit := closeFilesFrom t (maxFilesOpenPerProc - 3) 3

/-- The loop of `sys_unlink` over `file_table`: whether one of `n` slots from
    `fileIdx` on holds inode `inodeNo`. -/
def inodeInUse (t inodeNo : Nat) : Nat → Nat → FsM Bool
  | 0, _ => pure false
  | n + 1, fileIdx => do
      let p ← Prog.read (fun s => (s.fileTable fileIdx).fdInode)
      match p with
      | none => inodeInUse t inodeNo n (fileIdx + 1)
      | some a => do
          let i ← inodeAt t a
          if i.iNo = inodeNo then pure true else inodeInUse t inodeNo n (fileIdx + 1)

/-- `sys_unlink` of a file that is there. -/
def unlinkFile (t inodeNo : Nat) (parentDir : Dir) : FsM Int := do
  let inUse ← inodeInUse t inodeNo maxFileOpen 0
  if inUse = true then do
    dirClose t parentDir
    pure (-1)
  else do
    -- The buffer is there for the deletion of the entry only.
    let ok ← malloc
    if ok = true then do
      let _ ← deleteDirEntry t parentDir inodeNo
      inodeRelease t inodeNo
      dirClose t parentDir
      pure 0
    else do
      dirClose t parentDir
      pure (-1)

/-- `sys_unlink` by task `t`. -/
def sysUnlink (t : Nat) (pathname : Str) : FsM Int := do
  assert (pathname.length < maxPathLen) .sysUnlink
  let (inodeNo, r) ← searchFile t pathname
  -- The root is refused by an assertion.
  assert (inodeNo ≠ 0) .sysUnlink
  if inodeNo = minusOne then do
    dirClose t r.parentDir
    pure (-1)
  else if r.fileType = .directory then do
    dirClose t r.parentDir
    pure (-1)
  else
    unlinkFile t inodeNo r.parentDir

/-- `sys_mkdir` once the new directory has a number and a block. -/
def mkdirEntry (t : Nat) (parentDir : Dir) (dirname : Str) (inodeNo lba : Nat) : FsM Int := do
  let idx ← blockBitmapIdx lba
  assert (idx ≠ 0) .sysMkdir
  bitmapSync idx .block
  let parent ← inodeAt t parentDir.inode
  ideWrite lba 1 (dotEntries inodeNo parent.iNo)
  let size ← sbDirEntrySize
  let e ← createDirEntry dirname inodeNo .directory
  let done ← syncDirEntry t parentDir e
  if done = true then do
    let parent ← inodeAt t parentDir.inode
    inodeSync parent (sectorSize * 2)
    inodeSync { inodeInit inodeNo with
      iSize := 2 * size, iSectors := Function.update (fun _ => 0) 0 lba } (sectorSize * 2)
    bitmapSync inodeNo .inode
    dirClose t parentDir
    pure 0
  else do
    -- The block of the new directory is not given back.
    freeInodeNo inodeNo
    dirClose t parentDir
    pure (-1)

/-- `sys_mkdir` once the path has been followed to its end. -/
def mkdirSearched (t : Nat) (r : PathSearchRecord) : FsM Int := do
  let inodeNo ← inodeBitmapAlloc
  match inodeNo with
  | none => do
      dirClose t r.parentDir
      pure (-1)
  | some inodeNo => do
      let lba ← blockBitmapAlloc
      match lba with
      | none => do
          -- Rollback step 2 falls through to step 1.
          freeInodeNo inodeNo
          dirClose t r.parentDir
          pure (-1)
      | some lba => mkdirEntry t r.parentDir (baseName r.searchedPath) inodeNo lba

/-- `sys_mkdir` by task `t`. -/
def sysMkdir (t : Nat) (pathname : Str) : FsM Int := do
  let ok ← malloc
  if ok = true then do
    let (inodeNo, r) ← searchFile t pathname
    if inodeNo ≠ minusOne then do
      dirClose t r.parentDir
      pure (-1)
    else do
      let pathnameDepth ← pathDepthCnt pathname
      let pathSearchedDepth ← pathDepthCnt r.searchedPath
      -- A component in front of the last one is missing.
      if pathnameDepth ≠ pathSearchedDepth then do
        dirClose t r.parentDir
        pure (-1)
      else
        mkdirSearched t r
  else
    pure (-1)

/-- `sys_rmdir` of a directory that is there. -/
def rmdirDir (t inodeNo : Nat) (parentDir : Dir) : FsM Int := do
  let dir ← dirOpen t inodeNo
  let empty ← dirIsEmpty t dir
  if empty = true then do
    let ret ← dirRemove t parentDir dir
    dirClose t dir
    pure (if ret = 0 then 0 else -1)
  else do
    dirClose t dir
    pure (-1)

/-- `sys_rmdir` by task `t`. -/
def sysRmdir (t : Nat) (pathname : Str) : FsM Int := do
  let (inodeNo, r) ← searchFile t pathname
  assert (inodeNo ≠ 0) .sysRmdir
  -- Nothing is there, or it is a file.
  if inodeNo = minusOne ∨ r.fileType = .regular then do
    dirClose t r.parentDir
    pure (-1)
  else do
    let ret ← rmdirDir t inodeNo r.parentDir
    dirClose t r.parentDir
    pure ret

/-- `sys_opendir` by task `t`. The test for the root directory looks at the
    first character twice. -/
def sysOpendir (t : Nat) (name : Str) : FsM (Option Dir) := do
  assert (name.length < maxPathLen) .sysOpendir
  let root ← rootDir
  if name = [slash] then
    pure (some root)
  else do
    let (inodeNo, r) ← searchFile t name
    if inodeNo ≠ minusOne ∧ r.fileType = .directory then do
      let d ← dirOpen t inodeNo
      dirClose t r.parentDir
      pure (some d)
    else do
      dirClose t r.parentDir
      pure none

/-- `sys_closedir` of a directory that is open. -/
def sysClosedir (t : Nat) (d : Dir) : FsM Int := do
  dirClose t d
  pure 0

/-- `sys_chdir` by task `t`. -/
def sysChdir (t : Nat) (path : Str) : FsM Int := do
  let (inodeNo, r) ← searchFile t path
  if inodeNo ≠ minusOne ∧ r.fileType = .directory then do
    Prog.modify (fun s => { s with cwdInodeNr := Function.update s.cwdInodeNr t inodeNo })
    dirClose t r.parentDir
    pure 0
  else do
    dirClose t r.parentDir
    pure (-1)

/-- `struct stat`. -/
structure Stat where
  stIno : Nat
  stSize : Nat
  stFiletype : FileType

/-- `sys_stat` by task `t`: what it leaves in the buffer, or none where it
    returns `-1`. -/
def sysStat (t : Nat) (path : Str) : FsM (Option Stat) := do
  if path = [slash] ∨ path = slash :: dotName ∨ path = slash :: dotdotName then do
    let root ← rootDir
    let i ← inodeAt t root.inode
    pure (some ⟨0, i.iSize, .directory⟩)
  else do
    let (inodeNo, r) ← searchFile t path
    if inodeNo ≠ minusOne then do
      let a ← inodeOpen t inodeNo
      let i ← inodeAt t a
      inodeClose t a
      dirClose t r.parentDir
      pure (some ⟨inodeNo, i.iSize, r.fileType⟩)
    else do
      dirClose t r.parentDir
      pure none

/-- `sys_write` by task `t`; the screen is not part of the file system. A
    count that does not fit `tmp_buf` overruns it. -/
def sysWrite (t : Nat) (fd : Int) (buf : Nat → Byte) (count : Nat) : FsM Int :=
  if fd < 0 then
    pure (-1)
  else if fd = 1 then do
    Prog.check (count < 1024) .wild
    pure count
  else do
    -- Descriptors 0 and 2 are looked up like those of files.
    let g ← fdLocal2global t fd.toNat
    let flag ← Prog.read (fun s => (s.fileTable g).fdFlag)
    if flag &&& oWronly ≠ 0 ∨ flag &&& oRdwr ≠ 0 then
      fileWrite t g buf count
    else
      pure (-1)

/-- The loop of `sys_read` over the keys. Which keys are pressed is not up to
    the file system. -/
def readKeys : Nat → Nat → (Nat → Byte) → FsM (Nat → Byte)
  | 0, _, dst => pure dst
  | n + 1, k, dst => do
      let key ← unset
      readKeys n (k + 1) (Function.update dst k (BitVec.ofNat 8 key))

/-- `sys_read` by task `t` into a buffer that holds `dst`: what it returns and
    what the buffer holds then. -/
def sysReadTo (t : Nat) (fd : Int) (dst : Nat → Byte) (count : Nat) : FsM (Int × (Nat → Byte)) :=
  -- Keys are read through descriptor 0 only.
  if fd < 0 ∨ fd = 1 ∨ fd = 2 then
    pure (-1, dst)
  else if fd = 0 then do
    let dst ← readKeys count 0 dst
    pure (if count = 0 then -1 else count, dst)
  else do
    let g ← fdLocal2global t fd.toNat
    fileRead t g count dst

/-- `sys_read` by task `t`. The buffer may be null, and asserting that it is not
    is the first thing the call does. -/
def sysRead (t : Nat) (fd : Int) (buf : Option (Nat → Byte)) (count : Nat) :
    FsM (Int × (Nat → Byte)) :=
  match buf with
  | none => Prog.fail (.assertion .sysRead)
  | some dst => sysReadTo t fd dst count

/-- An `uint32_t` as an `int32_t`. -/
def toInt32 (n : Nat) : Int := (BitVec.ofNat 32 n).toInt

/-- `new_pos` of `sys_lseek`. -/
def seekPos (pos size : Nat) (offset : Int) (whence : Nat) : Int :=
  if whence = 1 then offset
  else if whence = 2 then (toInt32 pos + offset).bmod (2 ^ 32)
  else (toInt32 size + offset).bmod (2 ^ 32)

/-- `sys_lseek` by task `t`. -/
def sysLseek (t : Nat) (fd offset : Int) (whence : Nat) : FsM Int :=
  if fd < 0 then
    pure (-1)
  else do
    assert (0 < whence ∧ whence < 4) .sysLseek
    let g ← fdLocal2global t fd.toNat
    let pos ← Prog.read (fun s => (s.fileTable g).fdPos)
    let (_, i) ← fileInode t g
    let newPos := seekPos pos i.iSize offset whence
    -- The position stays below the size, so an empty file has none.
    if newPos < 0 ∨ (toInt32 i.iSize - 1).bmod (2 ^ 32) < newPos then
      pure (-1)
    else do
      Prog.modify (fun s => s.setFile g { s.fileTable g with fdPos := newPos.toNat })
      pure newPos

/-- `get_parent_dir_inode_nr`: the entry behind `"."` in the first block. -/
def getParentDirInodeNr (t childInodeNr : Nat) : FsM Nat := do
  let a ← inodeOpen t childInodeNr
  let i ← inodeAt t a
  let sb ← Prog.read (fun s => s.part.sb)
  assert (sb.dataStartLba ≤ i.iSectors 0) .getParentDirInodeNr
  inodeClose t a
  let buf ← ideRead (i.iSectors 0) 1
  let e := decodeEntry buf dirEntrySize
  assert (e.iNo < 4096 ∧ e.fType = .directory) .getParentDirInodeNr
  pure e.iNo

/-- The name of an entry up to its terminator; none if it has none. -/
def entryName (e : DirEntry) : Option Str :=
  let bytes := (List.range 16).map e.filename
  if 0 ∈ bytes then some (bytes.takeWhile (· != 0)) else none

/-- The first entry of a block that names an inode, of `n` entries from `j`
    on. -/
def findInodeNr (buf : Nat → Byte) (inodeNr : Nat) : Nat → Nat → Option Nat
  | 0, _ => none
  | n + 1, j =>
      if (decodeEntry buf (dirEntrySize * j)).iNo = inodeNr then some j
      else findInodeNr buf inodeNr n (j + 1)

/-- The loop of `get_child_dir_name` over the blocks. -/
def childNameBlocks (all : Nat → Nat) (inodeNr : Nat) : Nat → Nat → FsM (Option Str)
  | 0, _ => pure none
  | n + 1, blockIdx =>
      if all blockIdx = 0 then
        childNameBlocks all inodeNr n (blockIdx + 1)
      else do
        let buf ← ideRead (all blockIdx) 1
        match findInodeNr buf inodeNr entriesPerSec 0 with
        | none => childNameBlocks all inodeNr n (blockIdx + 1)
        | some j =>
            match entryName (decodeEntry buf (dirEntrySize * j)) with
            | none => Prog.fail .wild
            | some name => pure (some name)

/-- `get_child_dir_name`: the name of inode `c` in directory `p`. -/
def getChildDirName (t p c : Nat) : FsM (Option Str) := do
  let a ← inodeOpen t p
  let i ← inodeAt t a
  let all ← readAllBlocks i
  inodeClose t a
  let _ ← sbDirEntrySize
  childNameBlocks all c (if i.iSectors 12 ≠ 0 then 140 else 12) 0

/-- The loop of `sys_getcwd` up to the root. Each round appends a slash and a
    name to an array of `MAX_PATH_LEN` bytes, which bounds the rounds. -/
def cwdLoop (t : Nat) : Nat → Nat → Str → FsM (Option Str)
  | 0, _, _ => Prog.fail .wild
  | n + 1, child, path => do
      -- The root has number 0.
      if child = 0 then pure (some path)
      else do
        let parent ← getParentDirInodeNr t child
        let name ← getChildDirName t parent child
        match name with
        | none => pure none
        | some name => do
            let path := path ++ slash :: name
            Prog.check (path.length < maxPathLen) .wild
            cwdLoop t n parent path

/-- The components of a path in the other order, as the loop over `strrchr`
    copies them. -/
def reversePath : Nat → Str → Str
  | 0, _ => []
  | n + 1, path =>
      if slash ∈ path then
        let name := baseName path
        slash :: name ++ reversePath n (path.take (path.length - name.length - 1))
      else
        []

/-- `sys_getcwd` by task `t` with a buffer of `size` bytes. -/
def sysGetcwd (t size : Nat) : FsM (Option Str) := do
  let ok ← malloc
  if ok = true then do
    let child ← Prog.read (fun s => s.cwdInodeNr t)
    assert (child < 4096) .sysGetcwd
    -- The root is answered at once, and the buffer is not freed.
    if child = 0 then
      pure (some [slash])
    else do
      let path ← cwdLoop t maxPathLen child []
      match path with
      | none => pure none
      | some path => do
          -- The length is compared without the terminator.
          assert (path.length ≤ size) .sysGetcwd
          pure (some (reversePath path.length path))
  else
    pure none

/-- A machine with a blank disk before `filesys_init`, with a partition of
    `secCnt` sectors from `startLba` on. No task has a file open. -/
def blankFs (startLba secCnt : Nat) (isUser : Nat → Bool) : Fs where
  disk _ := 0
  part :=
    { startLba := startLba
      secCnt := secCnt
      sb := ⟨0, 0, 0, 0, 0, 0, 0, 0, 0, 0, 0, 0, 0⟩
      blockBitmap := ⟨0, fun _ => 0⟩
      inodeBitmap := ⟨0, fun _ => 0⟩
      openInodes := [] }
  inode _ := ⟨0, 0, 0, false, fun _ => 0⟩
  home _ := .freed
  nextInode := 0
  rootDir := 0
  fileTable _ := ⟨0, 0, none⟩
  isUser := isUser
  fdTable _ _ := -1
  cwdInodeNr _ := 0
  mallocs _ := true
  junk _ := 0

end ForikOS
