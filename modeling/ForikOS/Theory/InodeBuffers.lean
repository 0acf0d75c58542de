import ForikOS.Theory.FileWrite

/-!
# Buffers for Inodes

The sectors of an inode are read into a buffer of the caller's, changed there
and written back. A record of 76 bytes that lies across two sectors needs a
buffer of two. The callers allocate their buffers before, each in its own way.

What a transfer does whose buffer is too small is not up to the code. So the
functions are written here with the transfers as a parameter. A function gives
every transfer of an inode a buffer that fits if its runs are the same whatever
the transfers that do not fit do.

`file_write` has a buffer of one sector, and hands it to `inode_sync`. All the
others have two, and `inode_open` allocates as many as it reads.

## Main definitions

* `inodeTransfer`: The bytes of a transfer.
* `Transfers`: The transfers as a parameter.
* `TransfersFit`: No transfer of an inode needs more than its buffer.
* `InodeCaller`: The functions that transfer inodes.

## Theorems

* `fileCreateWith_real`, `sysMkdirWith_real`, `deleteDirEntryWith_real`,
  `inodeReleaseWith_real`, `inodeOpenWith_real`: With the transfers of the code
  the functions are those of the code.
* `inode_transfers_fit`: The buffers fit but that of `file_write`.
-/

namespace ForikOS

open Prog

/-- The bytes `ide_read` and `ide_write` transfer for inode `n`. -/
def inodeTransfer (n : Nat) : Nat :=
  (if 512 - n * inodeSize % 512 < inodeSize then 2 else 1) * sectorSize

/-- `inode_sync` and `inode_delete` with the size of their buffer, and the read
    in `inode_open` of inode `n` with the size of the buffer it allocates. -/
structure Transfers where
  sync : Inode → Nat → FsM Unit
  delete : Nat → Nat → FsM Unit
  fetch : Nat → InodePosition → Nat → FsM (Nat → Byte)

/-- The transfers of the code. -/
def Transfers.real : Transfers where
  sync := inodeSync
  delete n _ := inodeDelete n
  fetch _ pos _ := ideRead pos.secLba pos.sects

section Callers

variable (T : Transfers)

/-- `inode_open` of an inode that is not open. -/
def inodeFetchWith (inodeNo : Nat) : FsM Nat := do
  let pos ← inodeLocate inodeNo
  mallocUnchecked
  let a ← newInode .kernel
  mallocUnchecked
  let buf ← T.fetch inodeNo pos (if pos.twoSec then 1024 else 512)
  setInodeAt a (fun _ => { decodeInode buf pos.offSize with iOpenCnts := 1 })
  Prog.modify (fun s => s.setOpenInodes (a :: s.part.openInodes))
  pure a

/-- `inode_open`. -/
def inodeOpenWith (t inodeNo : Nat) : FsM Nat := do
  let l ← Prog.read (fun s => s.part.openInodes)
  let found ← findOpenInode t inodeNo l
  match found with
  | some a => do
      setInodeAt a (fun i => { i with iOpenCnts := add32 i.iOpenCnts 1 })
      pure a
  | none => inodeFetchWith T inodeNo

/-- `inode_release`. -/
def inodeReleaseWith (t inodeNo : Nat) : FsM Unit := do
  let a ← inodeOpenWith T t inodeNo
  let i ← inodeAt t a
  assert (i.iNo = inodeNo) .inodeRelease
  releaseStorage t a i
  Prog.modify (fun s => s.setInodeBitmap (bitmapSet s.part.inodeBitmap inodeNo false))
  bitmapSync inodeNo .inode
  mallocUnchecked
  T.delete inodeNo 1024
  inodeClose t a

/-- `file_create` once the entry of the new file is on the disk. -/
def fileCreatedWith (t : Nat) (parentDir : Dir) (inodeNo a fdIdx : Nat) : FsM Int := do
  let dir ← inodeAt t parentDir.inode
  T.sync dir 1024
  let i ← inodeAt t a
  T.sync i 1024
  bitmapSync inodeNo .inode
  Prog.modify (fun s => s.setOpenInodes (a :: s.part.openInodes))
  setInodeAt a (fun i => { i with iOpenCnts := 1 })
  pcbFdInstall t fdIdx

/-- `file_create` once the new file has an inode and a slot. -/
def fileCreateEntryWith (t : Nat) (parentDir : Dir) (filename : Str)
    (flag inodeNo a fdIdx : Nat) : FsM Int := do
  Prog.modify (fun s => s.setFile fdIdx ⟨0, flag, some a⟩)
  let e ← createDirEntry filename inodeNo .regular
  let done ← syncDirEntry t parentDir e
  if done = true then
    fileCreatedWith T t parentDir inodeNo a fdIdx
  else do
    Prog.modify (fun s => s.setFile fdIdx ⟨0, 0, none⟩)
    freeInode a
    freeInodeNo inodeNo
    pure (-1)

/-- `file_create` once the new file has a number. -/
def fileCreateInodeWith (t : Nat) (parentDir : Dir) (filename : Str) (flag inodeNo : Nat) :
    FsM Int := do
  let ok ← malloc
  if ok = true then do
    let home ← Prog.read (fun s => callerHome s t)
    let a ← newInode home
    setInodeAt a (fun _ => inodeInit inodeNo)
    let fdIdx ← getFreeSlotInGlobal
    match fdIdx with
    | some fdIdx => fileCreateEntryWith T t parentDir filename flag inodeNo a fdIdx
    | none => do
        freeInode a
        freeInodeNo inodeNo
        pure (-1)
  else do
    freeInodeNo inodeNo
    pure (-1)

/-- `file_create`. -/
def fileCreateWith (t : Nat) (parentDir : Dir) (filename : Str) (flag : Nat) : FsM Int := do
  let ok ← malloc
  if ok = true then do
    let inodeNo ← inodeBitmapAlloc
    match inodeNo with
    | some inodeNo => fileCreateInodeWith T t parentDir filename flag inodeNo
    | none => pure (-1)
  else
    pure (-1)

/-- `sys_mkdir` once the new directory has a number and a block. -/
def mkdirEntryWith (t : Nat) (parentDir : Dir) (dirname : Str) (inodeNo lba : Nat) :
    FsM Int := do
  let idx ← blockBitmapIdx lba
  assert (idx ≠ 0) .sysMkdir
  bitmapSync idx .block
  let parent ← inodeAt t parentDir.inode
  ideWrite lba 1 (dotEntries inodeNo parent.iNo)
  let size ← sbDirEntrySize
  let e ← createDirEntry dirname inodeNo .directory
  let done ← syncDirEntry t parentDir e
  if done = true then do
    let parent ← inodeAt t parentDir.inode
    T.sync parent (sectorSize * 2)
    T.sync { inodeInit inodeNo with
      iSize := 2 * size, iSectors := Function.update (fun _ => 0) 0 lba } (sectorSize * 2)
    bitmapSync inodeNo .inode
    dirClose t parentDir
    pure 0
  else do
    freeInodeNo inodeNo
    dirClose t parentDir
    pure (-1)

/-- `sys_mkdir` once the path has been followed to its end. -/
def mkdirSearchedWith (t : Nat) (r : PathSearchRecord) : FsM Int := do
  let inodeNo ← inodeBitmapAlloc
  match inodeNo with
  | none => do
      dirClose t r.parentDir
      pure (-1)
  | some inodeNo => do
      let lba ← blockBitmapAlloc
      match lba with
      | none => do
          freeInodeNo inodeNo
          dirClose t r.parentDir
          pure (-1)
      | some lba => mkdirEntryWith T t r.parentDir (baseName r.searchedPath) inodeNo lba

/-- `sys_mkdir`. -/
def sysMkdirWith (t : Nat) (pathname : Str) : FsM Int := do
  let ok ← malloc
  if ok = true then do
    let (inodeNo, r) ← searchFile t pathname
    if inodeNo ≠ minusOne then do
      dirClose t r.parentDir
      pure (-1)
    else do
      let pathnameDepth ← pathDepthCnt pathname
      let pathSearchedDepth ← pathDepthCnt r.searchedPath
      if pathnameDepth ≠ pathSearchedDepth then do
        dirClose t r.parentDir
        pure (-1)
      else
        mkdirSearchedWith T t r
  else
    pure (-1)

/-- The end of `delete_dir_entry`, with the buffer of its callers. -/
def shrinkDirWith (t a : Nat) : FsM Bool := do
  let size ← sbDirEntrySize
  let i ← inodeAt t a
  assert (size ≤ i.iSize) .deleteDirEntry
  setInodeAt a (fun i => { i with iSize := sub32 i.iSize size })
  let i ← inodeAt t a
  T.sync i (sectorSize * 2)
  pure true

/-- The loop of `delete_dir_entry` over the blocks. -/
def deleteBlocksWith (t a : Nat) (all : Nat → Nat) (inodeNo : Nat) : Nat → Nat → FsM Bool
  | 0, _ => pure false
  | n + 1, blockIdx =>
      if all blockIdx = 0 then
        deleteBlocksWith t a all inodeNo n (blockIdx + 1)
      else do
        let buf ← ideRead (all blockIdx) 1
        let r ← scanEntries buf inodeNo entriesPerSec 0 ⟨false, 0, none⟩
        match r.dirEntryFound with
        | none => deleteBlocksWith t a all inodeNo n (blockIdx + 1)
        | some j => do
            assert (1 ≤ r.dirEntryCnt) .deleteDirEntry
            if r.dirEntryCnt = 1 ∧ r.isDirFirstBlock = false then do
              deleteBlock a all blockIdx
              shrinkDirWith T t a
            else do
              ideWrite (all blockIdx) 1
                (memcpyTo buf (dirEntrySize * j) dirEntrySize (fun _ => 0))
              shrinkDirWith T t a

/-- `delete_dir_entry`. -/
def deleteDirEntryWith (t : Nat) (pdir : Dir) (inodeNo : Nat) : FsM Bool := do
  let i ← inodeAt t pdir.inode
  let all ← readAllBlocks i
  let _ ← sbDirEntrySize
  deleteBlocksWith T t pdir.inode all inodeNo 128 12

end Callers

section Real

theorem inodeOpenWith_real (t n : Nat) : inodeOpenWith .real t n = inodeOpen t n := rfl

theorem inodeReleaseWith_real (t n : Nat) : inodeReleaseWith .real t n = inodeRelease t n := rfl

theorem fileCreateWith_real (t : Nat) (d : Dir) (filename : Str) (flag : Nat) :
    fileCreateWith .real t d filename flag = fileCreate t d filename flag := rfl

theorem sysMkdirWith_real (t : Nat) (pathname : Str) :
    sysMkdirWith .real t pathname = sysMkdir t pathname := rfl

theorem deleteBlocksWith_real (t a : Nat) (all : Nat → Nat) (inodeNo n k : Nat) :
    deleteBlocksWith .real t a all inodeNo n k = deleteBlocks t a all inodeNo n k := by
  induction n generalizing k with
  | zero => rfl
  | succ n ih =>
      simp only [deleteBlocksWith, deleteBlocks, ih]
      rfl

theorem deleteDirEntryWith_real (t : Nat) (d : Dir) (n : Nat) :
    deleteDirEntryWith .real t d n = deleteDirEntry t d n := by
  simp only [deleteDirEntryWith, deleteDirEntry, deleteBlocksWith_real]

end Real

/-- Transfers that may do anything for inode `n` where its sectors do not fit
    the buffer, and are those of the code else. -/
structure AgreesWhereFits (n : Nat) (T : Transfers) : Prop where
  sync : ∀ i m, (i.iNo = n → inodeTransfer (n % 256) ≤ m) → T.sync i m = inodeSync i m
  delete : ∀ k m, (k = n → inodeTransfer n ≤ m) → T.delete k m = inodeDelete k
  fetch : ∀ k pos m, (k = n → pos.sects * sectorSize ≤ m) →
    T.fetch k pos m = ideRead pos.secLba pos.sects

/-- The function gives no transfer of inode `n` a buffer that is too small: it
    does not matter what such a transfer does. -/
def TransfersFit {α : Type} (n : Nat) (f : Transfers → FsM α) : Prop :=
  ∀ T, AgreesWhereFits n T → ∀ s, (f T).run s = (f .real).run s

theorem TransfersFit.of_eq {α : Type} {n : Nat} {f : Transfers → FsM α}
    (h : ∀ T, AgreesWhereFits n T → f T = f .real) : TransfersFit n f :=
  fun T hT s => congrArg (fun x => x.run s) (h T hT)

/-- The functions that transfer inodes. -/
inductive InodeCaller
  | inodeOpen
  | fileCreate
  | fileWrite
  | sysMkdir
  | deleteDirEntry
  | inodeRelease
  deriving DecidableEq, Repr

/-- All calls of a function give the transfers of inode `n` buffers that
    fit. -/
def InodeCaller.Fits (n : Nat) : InodeCaller → Prop
  | .inodeOpen => ∀ t k, TransfersFit n (fun T => inodeOpenWith T t k)
  | .fileCreate => ∀ t d filename flag,
      TransfersFit n (fun T => fileCreateWith T t d filename flag)
  | .fileWrite => ∀ t g src count,
      TransfersFit n (fun T => fileWriteWith (fun i => T.sync i sectorSize) t g src count)
  | .sysMkdir => ∀ t pathname, TransfersFit n (fun T => sysMkdirWith T t pathname)
  | .deleteDirEntry => ∀ t d k, TransfersFit n (fun T => deleteDirEntryWith T t d k)
  | .inodeRelease => ∀ t k, TransfersFit n (fun T => inodeReleaseWith T t k)

section Fit

variable {n : Nat} {T : Transfers}

theorem inodeTransfer_eq (sb : SuperBlock) (n : Nat) :
    (inodePos sb n).sects * sectorSize = inodeTransfer n := by
  show (if decide (512 - n * 76 % 512 < 76) = true then 2 else 1) * 512 =
    (if 512 - n * 76 % 512 < 76 then 2 else 1) * 512
  simp only [decide_eq_true_eq]

/-- A transfer is of one sector or of two. -/
theorem inodeTransfer_cases (n : Nat) : inodeTransfer n = 512 ∨ inodeTransfer n = 1024 := by
  rw [inodeTransfer]
  by_cases h : 512 - n * inodeSize % 512 < inodeSize
  · rw [if_pos h]
    exact Or.inr rfl
  · rw [if_neg h]
    exact Or.inl rfl

namespace AgreesWhereFits

/-- Two sectors are always enough. -/
theorem sync_two (h : AgreesWhereFits n T) (i : Inode) : T.sync i 1024 = inodeSync i 1024 := by
  refine h.sync i 1024 (fun _ => ?_)
  rcases inodeTransfer_cases (n % 256) with hc | hc <;> omega

theorem delete_two (h : AgreesWhereFits n T) (k : Nat) : T.delete k 1024 = inodeDelete k := by
  refine h.delete k 1024 (fun _ => ?_)
  rcases inodeTransfer_cases n with hc | hc <;> omega

/-- `inode_open` allocates as many as it reads. -/
theorem fetch_sized (h : AgreesWhereFits n T) (k : Nat) (pos : InodePosition) :
    T.fetch k pos (if pos.twoSec then 1024 else 512) = ideRead pos.secLba pos.sects := by
  refine h.fetch k pos _ (fun _ => ?_)
  rw [InodePosition.sects, sectorSize]
  cases pos.twoSec
  · exact Nat.le_refl _
  · exact Nat.le_refl _

theorem inodeOpen (h : AgreesWhereFits n T) (t k : Nat) :
    inodeOpenWith T t k = inodeOpenWith .real t k := by
  simp only [inodeOpenWith, inodeFetchWith, h.fetch_sized]
  rfl

theorem inodeRelease (h : AgreesWhereFits n T) (t k : Nat) :
    inodeReleaseWith T t k = inodeReleaseWith .real t k := by
  simp only [inodeReleaseWith, h.inodeOpen, h.delete_two]
  rfl

theorem fileCreate (h : AgreesWhereFits n T) (t : Nat) (d : Dir) (filename : Str) (flag : Nat) :
    fileCreateWith T t d filename flag = fileCreateWith .real t d filename flag := by
  simp only [fileCreateWith, fileCreateInodeWith, fileCreateEntryWith, fileCreatedWith, h.sync_two]
  rfl

theorem sysMkdir (h : AgreesWhereFits n T) (t : Nat) (pathname : Str) :
    sysMkdirWith T t pathname = sysMkdirWith .real t pathname := by
  have hsync : ∀ i, T.sync i (sectorSize * 2) = inodeSync i (sectorSize * 2) := h.sync_two
  simp only [sysMkdirWith, mkdirSearchedWith, mkdirEntryWith, hsync]
  rfl

theorem deleteBlocks (h : AgreesWhereFits n T) (t a : Nat) (all : Nat → Nat) (inodeNo m k : Nat) :
    deleteBlocksWith T t a all inodeNo m k = deleteBlocksWith .real t a all inodeNo m k := by
  have hsync : ∀ i, T.sync i (sectorSize * 2) = inodeSync i (sectorSize * 2) := h.sync_two
  induction m generalizing k with
  | zero => rfl
  | succ m ih =>
      simp only [deleteBlocksWith, shrinkDirWith, hsync, ih]
      rfl

theorem deleteDirEntry (h : AgreesWhereFits n T) (t : Nat) (d : Dir) (k : Nat) :
    deleteDirEntryWith T t d k = deleteDirEntryWith .real t d k := by
  simp only [deleteDirEntryWith, h.deleteBlocks]

end AgreesWhereFits

/-- An empty file with inode `n`. -/
def numberedFile (n : Nat) : Fs := { emptyFile with inode := fun _ => inodeInit n }

theorem numberedFile_on (n : Nat) : FileOn 0 3 0 (numberedFile n) :=
  ⟨⟨rfl, Or.inl rfl⟩, emptyFile_on.volume, Or.inl ⟨rfl, fun _ _ => rfl⟩,
    fun _ hm => absurd hm (NoBlocks.own ⟨rfl, fun _ _ => rfl⟩)⟩

/-- `file_write` comes to `inode_sync` with a record that does not fit. -/
theorem fileWrite_not_fit (h : inodeTransfer (n % 256) = 1024) : ¬ InodeCaller.fileWrite.Fits n := by
  intro hfit
  -- transfers that do nothing where the buffer is too small
  let T : Transfers := { Transfers.real with
    sync := fun i m => if i.iNo = n ∧ m < inodeTransfer (n % 256) then pure () else inodeSync i m }
  have hT : AgreesWhereFits n T := by
    refine ⟨fun i m hm => if_neg ?_, fun _ _ _ => rfl, fun _ _ _ _ => rfl⟩
    rintro ⟨hi, hlt⟩
    exact absurd hlt (Nat.not_lt.mpr (hm hi))
  have hlead := fun sync => leads_append (fun _ => 7) sync (numberedFile_on n)
    ⟨rfl, rfl⟩ (show 0 + 1 < 71680 by omega)
    (show newBlocks (inodeInit n) 1 ≤ freeCount emptyFile.part.blockBitmap by
      rw [emptyFile_free]
      exact (by decide : newBlocks (inodeInit 0) 1 ≤ 4095))
    (Or.inl (show (0 + 1) / 512 = 0 / 512 by decide))
  have hsame := hfit 0 3 (fun _ => 7) 1 T hT (numberedFile n)
  rcases hlead (fun i => T.sync i sectorSize) with ⟨s₁, hlead₁, -, happ₁⟩
  rcases hlead (fun i => inodeSync i sectorSize) with ⟨s₂, hlead₂, -, happ₂⟩
  have hno₁ : (s₁.inode 0).iNo = n := happ₁.iNo
  have hno₂ : (s₂.inode 0).iNo = n := happ₂.iNo
  have hskip : T.sync (s₁.inode 0) sectorSize = pure () := if_pos ⟨hno₁, by rw [h]; decide⟩
  have hbuf : ¬ (inodePos s₂.part.sb ((s₂.inode 0).iNo % 256)).sects * sectorSize ≤ sectorSize := by
    rw [inodeTransfer_eq, hno₂, h]
    decide
  have hok := hlead₁.1
  rw [hskip] at hok
  have hwild := hlead₂.1.trans (stops_bind (stops_inodeSync happ₂.volume.toTableFits hbuf)).1
  have heq := hok.symm.trans (hsame.trans hwild)
  cases heq

/-- The buffers fit, but for those of `file_write` where the record lies across
    two sectors. -/
theorem inode_transfers_fit (c : InodeCaller) (n : Nat) :
    c.Fits n ↔ ¬ (c = .fileWrite ∧ inodeTransfer (n % 256) = 1024) := by
  -- Only the buffer of `file_write` may be too small: it has one sector.
  cases c with
  | inodeOpen =>
      refine ⟨fun _ h => InodeCaller.noConfusion h.1, fun _ t k => ?_⟩
      exact TransfersFit.of_eq (fun T hT => hT.inodeOpen t k)
  | fileCreate =>
      refine ⟨fun _ h => InodeCaller.noConfusion h.1, fun _ t d filename flag => ?_⟩
      exact TransfersFit.of_eq (fun T hT => hT.fileCreate t d filename flag)
  | sysMkdir =>
      refine ⟨fun _ h => InodeCaller.noConfusion h.1, fun _ t pathname => ?_⟩
      exact TransfersFit.of_eq (fun T hT => hT.sysMkdir t pathname)
  | deleteDirEntry =>
      refine ⟨fun _ h => InodeCaller.noConfusion h.1, fun _ t d k => ?_⟩
      exact TransfersFit.of_eq (fun T hT => hT.deleteDirEntry t d k)
  | inodeRelease =>
      refine ⟨fun _ h => InodeCaller.noConfusion h.1, fun _ t k => ?_⟩
      exact TransfersFit.of_eq (fun T hT => hT.inodeRelease t k)
  | fileWrite =>
      refine ⟨fun h hc => fileWrite_not_fit hc.2 h,
        fun h t g src count => TransfersFit.of_eq (fun T hT => ?_)⟩
      have hone : inodeTransfer (n % 256) = 512 :=
        (inodeTransfer_cases (n % 256)).resolve_right (fun htwo => h ⟨rfl, htwo⟩)
      have hsync : (fun i => T.sync i sectorSize) = fun i => inodeSync i sectorSize := by
        funext i
        exact hT.sync i sectorSize (fun _ => Nat.le_of_eq hone)
      exact congrArg (fun sync => fileWriteWith sync t g src count) hsync

/-- The record of inode 6 lies across two sectors, and `file_write` has one. -/
theorem straddling_write : inodeTransfer 6 = 1024 ∧ ¬ InodeCaller.fileWrite.Fits 6 ∧
    ¬ ∀ n, n < 4096 → ∀ c : InodeCaller, c.Fits n := by
  have h6 : inodeTransfer 6 = 1024 := by decide
  have hnot : ¬ InodeCaller.fileWrite.Fits 6 := fileWrite_not_fit h6
  exact ⟨h6, hnot, fun hall => hnot (hall 6 (by decide) .fileWrite)⟩

end Fit

end ForikOS
