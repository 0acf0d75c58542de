import ForikOS.Theory.FileTable

/-!
# What Each Call Does to the Holders of Inodes

Every system call follows a path, works on what it finds and closes the
directories it has opened on the way. This module says so for each of them, in
the terms of the ledger: a call that opens no file and no handle leaves the
ledger as it is, whatever it returns.

The ledgers are pre- and postconditions, and the rules for programs put the
calls together. Beside the ledger a call is also framed: it does not touch the
slots of `file_table`, it puts no inode into the heap of a process, and an
inode that is there keeps its number (`Framed`).

## Main definitions

* `MovesSectors`: The blocks of an inode may be set.
* `Moved`: Nothing about inodes and tables has changed but sizes, blocks and
  file positions.
* `Framed`: No inode is new to the tables.
* `holdDir?`: The holder that a result of `sys_opendir` is.

## Theorems

* `inodeRelease_ledger`, `sysUnlink_ledger`, `sysMkdir_ledger`,
  `sysRmdir_ledger`, `sysStat_ledger`, `sysChdir_ledger`, `sysGetcwd_ledger`,
  `sysWrite_ledger`, `sysRead_ledger`, `sysLseek_ledger`: The ledger stays.
* `sysOpendir_ledger`, `sysClosedir_ledger`: A handle is a holder.
* `framed_sysUnlink` and the others: The tables stay.
-/

namespace ForikOS

open Prog

/-- A block of an inode may be set. -/
def MovesSectors (P : Nat → Inode → Inode → Prop) : Prop :=
  ∀ a i k lba, P a i { i with iSectors := Function.update i.iSectors k lba }

section Blocks

variable {P : Nat → Inode → Inode → Prop} {R : Fs → Fs → Prop} [IsPreorder Fs R]

theorem storing_writeFirstBlock (hR : StoringBy P R) (hP : MovesSectors P) (t g : Nat) :
    Within R (writeFirstBlock t g) := by
  refine within_bind (storing_of_quiet hR (quiet_fileInode t g)) (fun x => within_ite ?_ within_pure)
  refine within_bind (storing_blockBitmapAlloc hR) (fun r => ?_)
  cases r with
  | none => exact within_pure
  | some lba =>
      exact within_bind (storing_setSector hR _ _ _ (fun i => hP _ i _ _)) (fun _ => within_bind
        (storing_of_quiet hR (quiet_blockBitmapIdx _)) (fun _ => within_check_bind (within_bind
          (storing_bitmapSync hR _ _) (fun _ => within_pure))))

theorem storing_growBlocks (hR : StoringBy P R) (hP : MovesSectors P) (t g n k : Nat) (all : Nat → Nat) :
    Within R (growBlocks t g n k all) := by
  induction n generalizing k all with
  | zero => exact within_pure
  | succ n ih =>
      refine within_bind (storing_blockBitmapAlloc hR) (fun r => ?_)
      have hsync : ∀ lba, Within R (do
          let idx ← blockBitmapIdx lba
          bitmapSync idx .block
          growBlocks t g n (k + 1) (Function.update all k lba)) := fun lba =>
        within_bind (storing_of_quiet hR (quiet_blockBitmapIdx _)) (fun _ => within_bind
          (storing_bitmapSync hR _ _) (fun _ => ih _ _))
      cases r with
      | none => exact within_pure
      | some lba =>
          refine within_ite ?_ (hsync lba)
          exact within_bind (storing_of_quiet hR (quiet_fileInode t g)) (fun _ => within_check_bind
            (within_bind (storing_setSector hR _ _ _ (fun i => hP _ i _ _)) (fun _ => hsync lba)))

theorem storing_allocAll (hR : StoringBy P R) (n : Nat) : Within R (allocAll n) := by
  induction n with
  | zero => exact within_fail
  | succ n ih =>
      refine within_bind (storing_blockBitmapAlloc hR) (fun r => ?_)
      cases r with
      | none => exact within_pure
      | some lba => exact ih

theorem storing_collectDirect (hR : StoringBy P R) (hP : MovesSectors P) (t g : Nat) (i : Inode)
    (has will table : Nat) :
    Within R (collectDirect t g i has will table) := by
  refine within_check_bind (within_check_bind (within_bind (storing_growBlocks hR hP t g _ _ _)
    (fun r => ?_)))
  cases r with
  | none => exact within_pure
  | some all => exact within_bind (storing_ideWrite hR _ _ _) (fun _ => within_pure)

theorem storing_collectTable (hR : StoringBy P R) (hP : MovesSectors P) (t g a : Nat) (i : Inode)
    (has will : Nat) :
    Within R (collectTable t g a i has will) := by
  refine within_bind (storing_blockBitmapAlloc hR) (fun r => ?_)
  cases r with
  | none => exact within_pure
  | some table =>
      refine within_check_bind (within_bind (storing_setSector hR _ _ _ (fun i => hP _ i _ _)) (fun _ =>
        within_bind (storing_growBlocks hR hP t g _ _ _) (fun r => ?_)))
      cases r with
      | none => exact within_pure
      | some all =>
          exact within_bind (storing_ideWrite hR _ _ _) (fun _ => within_bind
            (storing_ideWrite hR _ _ _) (fun _ => within_pure))

theorem storing_collectIndirect (hR : StoringBy P R) (i : Inode) (has will lba : Nat) :
    Within R (collectIndirect i has will lba) := by
  have hmore : Within R (moreBlocks has will lba) :=
    within_ite (within_read_bind (fun _ => storing_allocAll hR _)) within_pure
  refine within_check_bind (within_bind (storing_of_quiet hR (quiet_ideRead _ _)) (fun b =>
    within_bind hmore (fun r => ?_)))
  cases r with
  | none => exact within_pure
  | some lba =>
      exact within_check_bind (within_bind (storing_of_quiet hR (quiet_blockBitmapIdx _)) (fun _ =>
        within_bind (storing_bitmapSync hR _ _) (fun _ => within_bind
          (storing_ideWrite hR _ _ _) (fun _ => within_pure))))

theorem storing_collectBlocks (hR : StoringBy P R) (hP : MovesSectors P) (t g count table lba : Nat) :
    Within R (collectBlocks t g count table lba) := by
  refine within_bind (storing_of_quiet hR (quiet_fileInode t g)) (fun x => within_check_bind
    (within_ite ?_ (within_ite (storing_collectDirect hR hP t g _ _ _ _) (within_ite
      (storing_collectTable hR hP t g _ _ _ _) (storing_collectIndirect hR _ _ _ _)))))
  exact within_ite within_pure (within_check_bind (within_bind
    (storing_of_quiet hR (quiet_ideRead _ _)) (fun _ => within_pure)))

theorem movesSectors_resized : MovesSectors Resized := fun _ _ _ _ => ⟨rfl, rfl, rfl⟩

end Blocks

theorem quiet_chunkBuf (lba : Nat) (first : Bool) : Within Quiet (chunkBuf lba first) :=
  within_ite (quiet_ideRead _ _) within_pure

theorem quiet_mallocBuffers : Within Quiet mallocBuffers :=
  within_bind quiet_malloc (fun _ => within_ite quiet_malloc within_pure)

theorem quiet_collectRead (i : Inode) (first last : Nat) :
    Within Quiet (collectRead i first last) :=
  within_ite within_pure (within_check_bind (within_bind (quiet_ideRead _ _)
    (fun _ => within_pure)))

/-- Nothing has changed but the disk, the bitmap of blocks, the sizes and
    blocks of inodes and the positions in files. -/
structure Moved (s s' : Fs) : Prop where
  inodeBitmap : s'.part.inodeBitmap = s.part.inodeBitmap
  openInodes : s'.part.openInodes = s.part.openInodes
  home : s'.home = s.home
  nextInode : s'.nextInode = s.nextInode
  rootDir : s'.rootDir = s.rootDir
  isUser : s'.isUser = s.isUser
  fdTable : s'.fdTable = s.fdTable
  cwd : s'.cwdInodeNr = s.cwdInodeNr
  slots : ∀ g, (s'.fileTable g).fdInode = (s.fileTable g).fdInode ∧
    (s'.fileTable g).fdFlag = (s.fileTable g).fdFlag
  iNo : ∀ a, (s'.inode a).iNo = (s.inode a).iNo
  iOpenCnts : ∀ a, (s'.inode a).iOpenCnts = (s.inode a).iOpenCnts

instance : IsPreorder Fs Moved where
  refl _ := ⟨rfl, rfl, rfl, rfl, rfl, rfl, rfl, rfl, fun _ => ⟨rfl, rfl⟩, fun _ => rfl, fun _ => rfl⟩
  trans := by
    intro s₁ s₂ s₃ h h'
    exact ⟨h'.inodeBitmap.trans h.inodeBitmap, h'.openInodes.trans h.openInodes,
      h'.home.trans h.home, h'.nextInode.trans h.nextInode, h'.rootDir.trans h.rootDir,
      h'.isUser.trans h.isUser, h'.fdTable.trans h.fdTable, h'.cwd.trans h.cwd,
      fun g => ⟨(h'.slots g).1.trans (h.slots g).1, (h'.slots g).2.trans (h.slots g).2⟩,
      fun a => (h'.iNo a).trans (h.iNo a), fun a => (h'.iOpenCnts a).trans (h.iOpenCnts a)⟩

section Moved

theorem storing_moved : Storing Moved := by
  refine ⟨fun s s' hq => ?_, fun _ _ _ _ => ?_, fun _ _ => ?_, fun s a i h1 h2 _ => ?_⟩
  · unfold Quiet at hq
    rw [hq]
    exact ⟨rfl, rfl, rfl, rfl, rfl, rfl, rfl, rfl, fun _ => ⟨rfl, rfl⟩, fun _ => rfl, fun _ => rfl⟩
  · exact ⟨rfl, rfl, rfl, rfl, rfl, rfl, rfl, rfl, fun _ => ⟨rfl, rfl⟩, fun _ => rfl, fun _ => rfl⟩
  · exact ⟨rfl, rfl, rfl, rfl, rfl, rfl, rfl, rfl, fun _ => ⟨rfl, rfl⟩, fun _ => rfl, fun _ => rfl⟩
  · have hb : ∀ b, ((s.setInode a i).inode b).iNo = (s.inode b).iNo ∧
        ((s.setInode a i).inode b).iOpenCnts = (s.inode b).iOpenCnts := by
      intro b
      show (Function.update s.inode a i b).iNo = _ ∧ (Function.update s.inode a i b).iOpenCnts = _
      by_cases hba : b = a
      · rw [hba, Function.update_self]
        exact ⟨h1, h2⟩
      · rw [Function.update_of_ne hba]
        exact ⟨rfl, rfl⟩
    exact ⟨rfl, rfl, rfl, rfl, rfl, rfl, rfl, rfl, fun _ => ⟨rfl, rfl⟩, fun b => (hb b).1,
      fun b => (hb b).2⟩

theorem moved_of_quiet {α : Type} {x : FsM α} (h : Within Quiet x) : Within Moved x :=
  storing_of_quiet storing_moved.any h

/-- A change of the position in a file. -/
theorem moved_setPos (g : Nat) (f : Fs → Nat) : Within Moved
    (Prog.modify (fun s => s.setFile g { s.fileTable g with fdPos := f s }) : FsM Unit) := by
  refine within_modify (fun s => ⟨rfl, rfl, rfl, rfl, rfl, rfl, rfl, rfl, fun x => ?_,
    fun _ => rfl, fun _ => rfl⟩)
  show (Function.update s.fileTable g _ x).fdInode = _ ∧ (Function.update s.fileTable g _ x).fdFlag = _
  by_cases hx : x = g
  · rw [hx, Function.update_self]
    exact ⟨rfl, rfl⟩
  · rw [Function.update_of_ne hx]
    exact ⟨rfl, rfl⟩

theorem moved_writeChunks (t g : Nat) (src : Nat → Byte) (count : Nat) (all : Nat → Nat)
    (n k : Nat) (first : Bool) : Within Moved (writeChunks t g src count all n k first) := by
  induction n generalizing k first with
  | zero => exact within_pure
  | succ n ih =>
      refine within_ite ?_ within_pure
      refine within_bind (moved_of_quiet (quiet_fileInode t g)) (fun x => within_check_bind ?_)
      refine within_bind (moved_of_quiet (quiet_chunkBuf _ _)) (fun buf => within_bind
        (storing_ideWrite storing_moved.any _ _ _)
        (fun _ => within_bind (moved_of_quiet (quiet_fileInode t g)) (fun y => ?_)))
      exact within_bind (storing_setInodeAt storing_moved.any _ (fun _ => ⟨rfl, rfl, rfl⟩)) (fun _ =>
        within_bind (moved_setPos g _) (fun _ => ih _ _))

theorem moved_writeFile (t g : Nat) (src : Nat → Byte) (count : Nat) (all : Nat → Nat) :
    Within Moved (writeFile t g src count all) :=
  within_bind (moved_of_quiet (quiet_fileInode t g)) (fun _ => within_bind (moved_setPos g _)
    (fun _ => within_bind (moved_writeChunks t g src count all _ _ _) (fun _ => within_bind
      (moved_of_quiet (quiet_fileInode t g)) (fun _ => within_bind
        (storing_inodeSync storing_moved.any _ _) (fun _ => within_pure)))))

theorem moved_fileWrite (t g : Nat) (src : Nat → Byte) (count : Nat) :
    Within Moved (fileWrite t g src count) := by
  refine within_bind (moved_of_quiet (quiet_fileInode t g)) (fun x => within_ite within_pure
    (within_bind (moved_of_quiet quiet_mallocBuffers) (fun _ => within_ite ?_ within_pure)))
  refine within_bind (moved_of_quiet quiet_unset) (fun table =>
    within_bind (storing_writeFirstBlock storing_moved.any movesSectors_resized t g) (fun r => ?_))
  cases r with
  | none => exact within_pure
  | some lba =>
      refine within_bind (storing_collectBlocks storing_moved.any movesSectors_resized t g count table
        lba) (fun r => ?_)
      cases r with
      | none => exact within_pure
      | some all => exact moved_writeFile t g src count all

theorem moved_readChunks (g size : Nat) (all : Nat → Nat) (n k : Nat) (dst : Nat → Byte) :
    Within Moved (readChunks g size all n k dst) := by
  induction n generalizing k dst with
  | zero => exact within_pure
  | succ n ih =>
      exact within_ite (within_read_bind (fun _ => within_check_bind (within_bind
        (moved_of_quiet (quiet_ideRead _ _)) (fun _ => within_bind (moved_setPos g _)
          (fun _ => ih _ _))))) within_pure

theorem moved_readFile (i : Inode) (g pos size : Nat) (dst : Nat → Byte) :
    Within Moved (readFile i g pos size dst) :=
  within_bind (moved_of_quiet quiet_malloc) (fun _ => within_bind
    (moved_of_quiet quiet_malloc) (fun _ => within_ite (within_check_bind (within_bind
      (moved_of_quiet (quiet_collectRead i _ _)) (fun _ => within_check_bind (within_bind
        (moved_readChunks g size _ _ _ _) (fun _ => within_pure))))) within_pure))

theorem quiet_fdLocal2global (t fd : Nat) : Within Quiet (fdLocal2global t fd) :=
  within_read_bind (fun _ => within_check_bind within_pure)

theorem quiet_readKeys (n k : Nat) (dst : Nat → Byte) : Within Quiet (readKeys n k dst) := by
  induction n generalizing k dst with
  | zero => exact within_pure
  | succ n ih => exact within_bind quiet_unset (fun _ => ih _ _)

theorem moved_sysWrite (t : Nat) (fd : Int) (buf : Nat → Byte) (count : Nat) :
    Within Moved (sysWrite t fd buf count) :=
  within_ite within_pure (within_ite (within_check_bind within_pure) (within_bind
    (moved_of_quiet (quiet_fdLocal2global t _)) (fun g => within_read_bind (fun _ =>
      within_ite (moved_fileWrite t g buf count) within_pure))))

theorem moved_sysReadTo (t : Nat) (fd : Int) (dst : Nat → Byte) (count : Nat) :
    Within Moved (sysReadTo t fd dst count) := by
  refine within_ite within_pure (within_ite ?_ ?_)
  · exact within_bind (moved_of_quiet (quiet_readKeys _ _ _)) (fun _ => within_pure)
  · refine within_bind (moved_of_quiet (quiet_fdLocal2global t _)) (fun g => within_read_bind
      (fun pos => within_bind (moved_of_quiet (quiet_fileInode t g)) (fun x => ?_)))
    exact within_ite (within_ite within_pure (moved_readFile _ _ _ _ _)) (moved_readFile _ _ _ _ _)

theorem moved_sysRead (t : Nat) (fd : Int) (buf : Option (Nat → Byte)) (count : Nat) :
    Within Moved (sysRead t fd buf count) := by
  cases buf with
  | none => exact within_fail
  | some dst => exact moved_sysReadTo t fd dst count

theorem moved_sysLseek (t : Nat) (fd offset : Int) (whence : Nat) :
    Within Moved (sysLseek t fd offset whence) := by
  refine within_ite within_pure (within_check_bind (within_bind
    (moved_of_quiet (quiet_fdLocal2global t _)) (fun g => within_read_bind (fun pos =>
      within_bind (moved_of_quiet (quiet_fileInode t g)) (fun x => within_ite within_pure ?_)))))
  exact within_bind (moved_setPos g _) (fun _ => within_pure)

end Moved

/-- No inode is new to the tables, and none lies in the heap of a process that
    did not before. -/
structure Framed (s s' : Fs) : Prop where
  kept : Kept s s'
  own : ∀ a u, s'.home a = .process u → s.home a = .process u
  rootDir : s'.rootDir = s.rootDir
  fdTable : s'.fdTable = s.fdTable
  slots : ∀ g, (s'.fileTable g).fdInode = (s.fileTable g).fdInode ∧
    (s'.fileTable g).fdFlag = (s.fileTable g).fdFlag

instance : IsPreorder Fs Framed where
  refl _ := ⟨refl _, fun _ _ h => h, rfl, rfl, fun _ => ⟨rfl, rfl⟩⟩
  trans := by
    intro s₁ s₂ s₃ h h'
    exact ⟨IsTrans.trans _ _ _ h.kept h'.kept, fun a u ha => h.own a u (h'.own a u ha),
      h'.rootDir.trans h.rootDir, h'.fdTable.trans h.fdTable,
      fun g => ⟨(h'.slots g).1.trans (h.slots g).1, (h'.slots g).2.trans (h.slots g).2⟩⟩

section Framed

theorem Looked.framed {s s' : Fs} (h : Looked s s') : Framed s s' :=
  ⟨⟨h.isUser, h.next, fun a ha => (h.old a ha).iNo, h.home⟩, h.own, h.rootDir, h.fdTable,
    fun g => by rw [h.fileTable]; exact ⟨rfl, rfl⟩⟩

theorem Stored.framed {s s' : Fs} (h : Stored s s') : Framed s s' :=
  ⟨h.kept, fun a u ha => by rwa [h.home] at ha, h.rootDir, h.fdTable,
    fun g => by rw [h.fileTable]; exact ⟨rfl, rfl⟩⟩

theorem Moved.framed {s s' : Fs} (h : Moved s s') : Framed s s' :=
  ⟨⟨h.isUser, Nat.le_of_eq h.nextInode.symm, fun a _ => h.iNo a,
      fun a _ => Or.inl (congrFun h.home a)⟩,
    fun a u ha => by rwa [h.home] at ha, h.rootDir, h.fdTable, h.slots⟩

theorem framed_of_looked {α : Type} {x : FsM α} (h : Within Looked x) : Within Framed x :=
  within_mono h (fun _ _ => Looked.framed)

theorem framed_of_stored {α : Type} {x : FsM α} (h : Within Stored x) : Within Framed x :=
  within_mono h (fun _ _ => Stored.framed)

theorem framed_of_moved {α : Type} {x : FsM α} (h : Within Moved x) : Within Framed x :=
  within_mono h (fun _ _ => Moved.framed)

theorem framed_of_quiet {α : Type} {x : FsM α} (h : Within Quiet x) : Within Framed x :=
  framed_of_looked (looked_of_quiet h)

theorem framed_inodeRelease (t n : Nat) : Within Framed (inodeRelease t n) :=
  within_bind (framed_of_looked (looked_inodeOpen t n)) (fun a => within_bind
    (framed_of_quiet (quiet_inodeAt t a)) (fun _ => within_check_bind (within_bind
      (framed_of_stored (storing_releaseStorage storing_stored t a _)) (fun _ => within_bind
        (framed_of_stored stored_setInodeBitmap) (fun _ => within_bind
          (framed_of_stored (stored_bitmapSync _ _)) (fun _ => within_bind
            (framed_of_quiet quiet_mallocUnchecked) (fun _ => within_bind
              (framed_of_stored (storing_inodeDelete storing_stored n)) (fun _ =>
                framed_of_looked (looked_inodeClose t a)))))))))

/-- The way out of a call. -/
theorem framed_close {α : Type} (t : Nat) (d : Dir) (a : α) :
    Within Framed (do dirClose t d; pure a) :=
  within_bind (framed_of_looked (looked_dirClose t d)) (fun _ => within_pure)

theorem framed_sysUnlink (t : Nat) (p : Str) : Within Framed (sysUnlink t p) := by
  refine within_check_bind (within_bind (framed_of_looked (looked_searchFile t p)) (fun x =>
    within_check_bind (within_ite (framed_close _ _ _) (within_ite (framed_close _ _ _) ?_))))
  refine within_bind (framed_of_quiet (quiet_inodeInUse t _ _ _)) (fun _ => within_ite
    (framed_close _ _ _) (within_bind (framed_of_quiet quiet_malloc) (fun _ => within_ite ?_
      (framed_close _ _ _))))
  exact within_bind (framed_of_stored (storing_deleteDirEntry storing_stored t _ _)) (fun _ =>
    within_bind (framed_inodeRelease t _) (fun _ => framed_close _ _ _))

theorem framed_mkdirEntry (t : Nat) (d : Dir) (name : Str) (n lba : Nat) :
    Within Framed (mkdirEntry t d name n lba) := by
  refine within_bind (framed_of_quiet (quiet_blockBitmapIdx _)) (fun _ => within_check_bind
    (within_bind (framed_of_stored (stored_bitmapSync _ _)) (fun _ => within_bind
      (framed_of_quiet (quiet_inodeAt t _)) (fun _ => within_bind
        (framed_of_stored (storing_ideWrite storing_stored.any _ _ _)) (fun _ => within_bind
          (framed_of_quiet quiet_sbDirEntrySize) (fun _ => within_bind
            (framed_of_quiet (quiet_createDirEntry _ _ _)) (fun _ => within_bind
              (framed_of_stored (stored_syncDirEntry t d _)) (fun _ => within_ite ?_ ?_))))))))
  · exact within_bind (framed_of_quiet (quiet_inodeAt t _)) (fun _ => within_bind
      (framed_of_stored (stored_inodeSync _ _)) (fun _ => within_bind
        (framed_of_stored (stored_inodeSync _ _)) (fun _ => within_bind
          (framed_of_stored (stored_bitmapSync _ _)) (fun _ => framed_close _ _ _))))
  · exact within_bind (framed_of_stored stored_setInodeBitmap) (fun _ => framed_close _ _ _)

theorem framed_mkdirSearched (t : Nat) (r : PathSearchRecord) :
    Within Framed (mkdirSearched t r) := by
  refine within_bind (framed_of_stored stored_inodeBitmapAlloc) (fun n => ?_)
  cases n with
  | none => exact framed_close _ _ _
  | some n =>
      refine within_bind (framed_of_stored (storing_blockBitmapAlloc storing_stored.any)) (fun lba => ?_)
      cases lba with
      | none =>
          exact within_bind (framed_of_stored stored_setInodeBitmap) (fun _ => framed_close _ _ _)
      | some lba => exact framed_mkdirEntry t _ _ n lba

theorem framed_sysMkdir (t : Nat) (p : Str) : Within Framed (sysMkdir t p) :=
  within_bind (framed_of_quiet quiet_malloc) (fun _ => within_ite (within_bind
    (framed_of_looked (looked_searchFile t p)) (fun _ => within_ite (framed_close _ _ _) (within_bind
      (framed_of_quiet (quiet_pathDepthCnt _)) (fun _ => within_bind
        (framed_of_quiet (quiet_pathDepthCnt _)) (fun _ => within_ite (framed_close _ _ _)
          (framed_mkdirSearched t _)))))) within_pure)

theorem framed_dirRemove (t : Nat) (parent child : Dir) :
    Within Framed (dirRemove t parent child) :=
  within_bind (framed_of_quiet (quiet_inodeAt t _)) (fun _ => within_check_bind (within_bind
    (framed_of_quiet quiet_malloc) (fun _ => within_ite (within_bind
      (framed_of_quiet (quiet_inodeAt t _)) (fun _ => within_bind
        (framed_of_stored (storing_deleteDirEntry storing_stored t _ _)) (fun _ => within_bind
          (framed_of_quiet (quiet_inodeAt t _)) (fun _ => within_bind (framed_inodeRelease t _)
            (fun _ => within_pure))))) within_pure)))

theorem framed_sysRmdir (t : Nat) (p : Str) : Within Framed (sysRmdir t p) := by
  refine within_bind (framed_of_looked (looked_searchFile t p)) (fun x => within_check_bind
    (within_ite (framed_close _ _ _) (within_bind ?_ (fun _ => framed_close _ _ _))))
  exact within_bind (framed_of_looked (looked_dirOpen t _)) (fun d => within_bind
    (framed_of_quiet (quiet_dirIsEmpty t d)) (fun _ => within_ite (within_bind
      (framed_dirRemove t _ d) (fun _ => framed_close _ _ _)) (framed_close _ _ _)))

theorem looked_close {α : Type} (t : Nat) (d : Dir) (a : α) :
    Within Looked (do dirClose t d; pure a) :=
  within_bind (looked_dirClose t d) (fun _ => within_pure)

theorem looked_sysStat (t : Nat) (p : Str) : Within Looked (sysStat t p) := by
  refine within_ite (within_bind (looked_of_quiet quiet_rootDir) (fun _ => within_bind
    (looked_of_quiet (quiet_inodeAt t _)) (fun _ => within_pure))) ?_
  refine within_bind (looked_searchFile t p) (fun x => within_ite ?_ (looked_close _ _ _))
  exact within_bind (looked_inodeOpen t _) (fun a => within_bind
    (looked_of_quiet (quiet_inodeAt t a)) (fun _ => within_bind (looked_inodeClose t a)
      (fun _ => looked_close _ _ _)))

theorem framed_sysChdir (t : Nat) (p : Str) : Within Framed (sysChdir t p) := by
  refine within_bind (framed_of_looked (looked_searchFile t p)) (fun x => within_ite
    (within_bind (within_modify (fun s => ?_)) (fun _ => framed_close _ _ _)) (framed_close _ _ _))
  exact ⟨⟨rfl, Nat.le_refl _, fun _ _ => rfl, fun _ _ => Or.inl rfl⟩, fun _ _ h => h, rfl, rfl,
    fun _ => ⟨rfl, rfl⟩⟩

theorem looked_sysOpendir (t : Nat) (p : Str) : Within Looked (sysOpendir t p) :=
  within_check_bind (within_bind (looked_of_quiet quiet_rootDir) (fun _ => within_ite within_pure
    (within_bind (looked_searchFile t p) (fun _ => within_ite (within_bind (looked_dirOpen t _)
      (fun _ => looked_close _ _ _)) (looked_close _ _ _)))))

theorem looked_sysClosedir (t : Nat) (d : Dir) : Within Looked (sysClosedir t d) :=
  looked_close t d _

theorem looked_getParentDirInodeNr (t n : Nat) : Within Looked (getParentDirInodeNr t n) :=
  within_bind (looked_inodeOpen t n) (fun a => within_bind (looked_of_quiet (quiet_inodeAt t a))
    (fun _ => within_read_bind (fun _ => within_check_bind (within_bind (looked_inodeClose t a)
      (fun _ => within_bind (looked_of_quiet (quiet_ideRead _ _)) (fun _ =>
        within_check_bind within_pure))))))

theorem quiet_childNameBlocks (all : Nat → Nat) (c n k : Nat) :
    Within Quiet (childNameBlocks all c n k) := by
  induction n generalizing k with
  | zero => exact within_pure
  | succ n ih =>
      refine within_ite (ih (k + 1)) (within_bind (quiet_ideRead _ _) (fun buf => ?_))
      cases findInodeNr buf c entriesPerSec 0 with
      | none => exact ih (k + 1)
      | some j =>
          dsimp only
          cases entryName (decodeEntry buf (dirEntrySize * j)) with
          | none => exact within_fail
          | some name => exact within_pure

theorem looked_getChildDirName (t p c : Nat) : Within Looked (getChildDirName t p c) :=
  within_bind (looked_inodeOpen t p) (fun a => within_bind (looked_of_quiet (quiet_inodeAt t a))
    (fun _ => within_bind (looked_of_quiet (quiet_readAllBlocks _)) (fun _ => within_bind
      (looked_inodeClose t a) (fun _ => within_bind (looked_of_quiet quiet_sbDirEntrySize)
        (fun _ => looked_of_quiet (quiet_childNameBlocks _ _ _ _))))))

theorem looked_cwdLoop (t n child : Nat) (path : Str) : Within Looked (cwdLoop t n child path) := by
  induction n generalizing child path with
  | zero => exact within_fail
  | succ n ih =>
      refine within_ite within_pure (within_bind (looked_getParentDirInodeNr t child) (fun p =>
        within_bind (looked_getChildDirName t p child) (fun name => ?_)))
      cases name with
      | none => exact within_pure
      | some name => exact within_check_bind (ih p _)

theorem looked_sysGetcwd (t size : Nat) : Within Looked (sysGetcwd t size) := by
  refine within_bind (looked_of_quiet quiet_malloc) (fun _ => within_ite (within_read_bind
    (fun child => within_check_bind (within_ite within_pure (within_bind
      (looked_cwdLoop t _ child []) (fun path => ?_))))) within_pure)
  cases path with
  | none => exact within_pure
  | some path => exact within_check_bind within_pure

end Framed

section Ledgers

variable {c : Nat → Nat} {t : Nat} {α β : Type}

theorem ledger_of_stored {x : FsM α} (h : Within Stored x) :
    Triple (Ledger c) x (fun _ => Ledger c) :=
  fun _ _ _ hl hr => hl.stored (h _ _ _ hr)

theorem ledger_of_quiet {x : FsM α} (h : Within Quiet x) :
    Triple (Ledger c) x (fun _ => Ledger c) :=
  fun _ _ _ hl hr => hl.quiet (h _ _ _ hr)

theorem ledger_of_moved {x : FsM α} (h : Within Moved x) :
    Triple (Ledger c) x (fun _ => Ledger c) := by
  intro s a s' hl hr
  have hm := h _ _ _ hr
  exact hl.congr hm.openInodes (Nat.le_of_eq hm.nextInode.symm) (fun b _ => congrFun hm.home b)
    (fun b _ => hm.iOpenCnts b)

/-- Storing does not change who holds what. -/
theorem ledger_stored_bind {x : FsM α} {g : α → FsM β} {Q : β → Fs → Prop} (h : Within Stored x)
    (hg : ∀ a, Triple (Ledger c) (g a) Q) : Triple (Ledger c) (x >>= g) Q :=
  triple_bind (ledger_of_stored h) hg

/-- Nor does looking. -/
theorem ledger_quiet_bind {x : FsM α} {g : α → FsM β} {Q : β → Fs → Prop} (h : Within Quiet x)
    (hg : ∀ a, Triple (Ledger c) (g a) Q) : Triple (Ledger c) (x >>= g) Q :=
  triple_bind (ledger_of_quiet h) hg

theorem ledger_check_bind {p : Prop} [Decidable p] {e : FsFault} {g : Unit → FsM β}
    {Q : β → Fs → Prop} (hg : Triple (Ledger c) (g ()) Q) :
    Triple (Ledger c) (Prog.check p e >>= g) Q :=
  triple_bind triple_check (fun _ => triple_conseq hg (fun _ hs => hs.1) (fun _ _ hq => hq))

theorem ledger_pure {a : α} : Triple (Ledger c) (pure a : FsM α) (fun _ => Ledger c) :=
  triple_pure (fun _ h => h)

theorem ledger_ite {p : Prop} [Decidable p] {x y : FsM α} {Q : α → Fs → Prop}
    (hx : Triple (Ledger c) x Q) (hy : Triple (Ledger c) y Q) :
    Triple (Ledger c) (if p then x else y) Q :=
  triple_ite (fun _ => hx) (fun _ => hy)

/-- `inode_open` and `inode_close` around a piece of code. -/
theorem inode_bracket {n : Nat} {g : Nat → FsM α} (hroom : ∀ b, c b + 1 < 2 ^ 32)
    (hg : ∀ a, Triple (Ledger (bump c a)) (g a) (fun _ => Ledger c)) :
    Triple (Ledger c) (inodeOpen t n >>= g) (fun _ => Ledger c) :=
  triple_bind (fun _ _ _ hl hr => (inodeOpen_ledger hl hroom hr).1) hg

theorem inode_bracket_close {a : Nat} (hroom : ∀ b, c b + 1 < 2 ^ 32) :
    Triple (Ledger (bump c a)) (inodeClose t a) (fun _ => Ledger c) := by
  intro s u s' hl hr
  have := inodeClose_ledger hl (by rw [bump_self]; exact hroom _) (by rw [bump_self]; omega) hr
  rwa [drop_bump] at this

/-- A call that follows a path: what it then does starts with one more holder
    of the last directory. -/
theorem search_bracket {p : Str} {g : Nat × PathSearchRecord → FsM α} {Q : α → Fs → Prop}
    (hroom : ∀ b, c b + 1 < 2 ^ 32)
    (hg : ∀ x, Triple (Ledger (holdDir c x.2.parentDir)) (g x) Q) :
    Triple (Ledger c) (searchFile t p >>= g) Q :=
  triple_bind (fun _ _ _ hl hr => searchFile_ledger hl hroom hr) hg

/-- The way out of a call. -/
theorem close_result {d : Dir} {a : α} (hroom : ∀ b, c b + 1 < 2 ^ 32) :
    Triple (Ledger (holdDir c d)) (do dirClose t d; pure a : FsM α)
      (fun r s => r = a ∧ Ledger c s) :=
  triple_bind (fun _ _ _ hl hr => dirClose_ledger hl hroom hr) (fun _ =>
    triple_pure (fun _ hs => ⟨rfl, hs⟩))

theorem close_ledger {d : Dir} {a : α} (hroom : ∀ b, c b + 1 < 2 ^ 32) :
    Triple (Ledger (holdDir c d)) (do dirClose t d; pure a : FsM α) (fun _ => Ledger c) :=
  triple_conseq (close_result hroom) (fun _ hs => hs) (fun _ _ hq => hq.2)

theorem room_holdDir {k m : Nat} (d : Dir) (hroom : ∀ b, c b + k < 2 ^ 32) (hk : m + 1 ≤ k) (b : Nat) :
    holdDir c d b + m < 2 ^ 32 := by
  have h1 := holdDir_le c d b
  have h2 := hroom b
  omega

theorem room_le {k m : Nat} (hroom : ∀ b, c b + k < 2 ^ 32) (hk : m ≤ k) (b : Nat) :
    c b + m < 2 ^ 32 := by
  have := hroom b
  omega

theorem inodeRelease_ledger {n : Nat} (hroom : ∀ b, c b + 1 < 2 ^ 32) :
    Triple (Ledger c) (inodeRelease t n) (fun _ => Ledger c) :=
  inode_bracket hroom (fun a => ledger_quiet_bind (quiet_inodeAt t a) (fun _ =>
    ledger_check_bind (ledger_stored_bind (storing_releaseStorage storing_stored t a _) (fun _ =>
      ledger_stored_bind stored_setInodeBitmap (fun _ =>
        ledger_stored_bind (stored_bitmapSync _ _) (fun _ =>
          ledger_quiet_bind quiet_mallocUnchecked (fun _ =>
            ledger_stored_bind (storing_inodeDelete storing_stored n) (fun _ =>
              inode_bracket_close hroom))))))))

theorem unlinkFile_ledger {n : Nat} {d : Dir} (hroom : ∀ b, c b + 2 < 2 ^ 32) :
    Triple (Ledger (holdDir c d)) (unlinkFile t n d) (fun _ => Ledger c) := by
  have hquit : ∀ a : Int, Triple (Ledger (holdDir c d)) (do dirClose t d; pure a)
      (fun _ => Ledger c) := fun a => close_ledger (room_le hroom (by omega))
  refine ledger_quiet_bind (quiet_inodeInUse t n _ _) (fun _ => ledger_ite (hquit _)
    (ledger_quiet_bind quiet_malloc (fun _ => ledger_ite ?_ (hquit _))))
  exact ledger_stored_bind (storing_deleteDirEntry storing_stored t d n) (fun _ =>
    triple_bind (inodeRelease_ledger (room_holdDir d hroom (by omega))) (fun _ => hquit _))

theorem sysUnlink_ledger {p : Str} (hroom : ∀ b, c b + 2 < 2 ^ 32) :
    Triple (Ledger c) (sysUnlink t p) (fun _ => Ledger c) := by
  have hroom₁ := room_le hroom (show 1 ≤ 2 by omega)
  refine ledger_check_bind (search_bracket hroom₁ (fun x => ledger_check_bind (ledger_ite ?_
    (ledger_ite ?_ ?_))))
  · exact close_ledger hroom₁
  · exact close_ledger hroom₁
  · exact unlinkFile_ledger hroom

theorem mkdirEntry_ledger {d : Dir} {name : Str} {n lba : Nat} (hroom : ∀ b, c b + 1 < 2 ^ 32) :
    Triple (Ledger (holdDir c d)) (mkdirEntry t d name n lba) (fun _ => Ledger c) := by
  refine ledger_quiet_bind (quiet_blockBitmapIdx _) (fun _ => ledger_check_bind
    (ledger_stored_bind (stored_bitmapSync _ _) (fun _ => ledger_quiet_bind (quiet_inodeAt t _)
      (fun _ => ledger_stored_bind (storing_ideWrite storing_stored.any _ _ _) (fun _ =>
        ledger_quiet_bind quiet_sbDirEntrySize (fun _ => ledger_quiet_bind
          (quiet_createDirEntry _ _ _) (fun _ => ledger_stored_bind (stored_syncDirEntry t d _)
            (fun _ => ledger_ite ?_ ?_))))))))
  · exact ledger_quiet_bind (quiet_inodeAt t _) (fun _ => ledger_stored_bind (stored_inodeSync _ _)
      (fun _ => ledger_stored_bind (stored_inodeSync _ _) (fun _ => ledger_stored_bind
        (stored_bitmapSync _ _) (fun _ => close_ledger hroom))))
  · exact ledger_stored_bind stored_setInodeBitmap (fun _ => close_ledger hroom)

theorem mkdirSearched_ledger {r : PathSearchRecord} (hroom : ∀ b, c b + 1 < 2 ^ 32) :
    Triple (Ledger (holdDir c r.parentDir)) (mkdirSearched t r) (fun _ => Ledger c) := by
  refine ledger_stored_bind stored_inodeBitmapAlloc (fun n => ?_)
  cases n with
  | none => exact close_ledger hroom
  | some n =>
      refine ledger_stored_bind (storing_blockBitmapAlloc storing_stored.any) (fun lba => ?_)
      cases lba with
      | none => exact ledger_stored_bind stored_setInodeBitmap (fun _ => close_ledger hroom)
      | some lba => exact mkdirEntry_ledger hroom

theorem sysMkdir_ledger {p : Str} (hroom : ∀ b, c b + 1 < 2 ^ 32) :
    Triple (Ledger c) (sysMkdir t p) (fun _ => Ledger c) :=
  ledger_quiet_bind quiet_malloc (fun _ => ledger_ite (search_bracket hroom (fun _ => ledger_ite
    (close_ledger hroom) (ledger_quiet_bind (quiet_pathDepthCnt _) (fun _ => ledger_quiet_bind
      (quiet_pathDepthCnt _) (fun _ => ledger_ite (close_ledger hroom)
        (mkdirSearched_ledger hroom)))))) ledger_pure)

theorem dirRemove_ledger {parent child : Dir} (hroom : ∀ b, c b + 1 < 2 ^ 32) :
    Triple (Ledger c) (dirRemove t parent child) (fun _ => Ledger c) :=
  ledger_quiet_bind (quiet_inodeAt t _) (fun _ => ledger_check_bind (ledger_quiet_bind quiet_malloc
    (fun _ => ledger_ite (ledger_quiet_bind (quiet_inodeAt t _) (fun _ => ledger_stored_bind
      (storing_deleteDirEntry storing_stored t _ _) (fun _ => ledger_quiet_bind (quiet_inodeAt t _)
        (fun _ => triple_bind (inodeRelease_ledger hroom) (fun _ => ledger_pure))))) ledger_pure)))

theorem rmdirDir_ledger {n : Nat} {d : Dir} (hroom : ∀ b, c b + 2 < 2 ^ 32) :
    Triple (Ledger c) (rmdirDir t n d) (fun _ => Ledger c) := by
  have hroom₁ := room_le hroom (show 1 ≤ 2 by omega)
  refine triple_bind (fun _ _ _ hl hr => dirOpen_ledger hl hroom₁ hr) (fun dir => ?_)
  refine ledger_quiet_bind (quiet_dirIsEmpty t dir) (fun _ => ledger_ite ?_ (close_ledger hroom₁))
  exact triple_bind (dirRemove_ledger (room_holdDir dir hroom (by omega))) (fun _ =>
    close_ledger hroom₁)

theorem sysRmdir_ledger {p : Str} (hroom : ∀ b, c b + 3 < 2 ^ 32) :
    Triple (Ledger c) (sysRmdir t p) (fun _ => Ledger c) := by
  have hroom₁ := room_le hroom (show 1 ≤ 3 by omega)
  refine search_bracket hroom₁ (fun x => ledger_check_bind (ledger_ite (close_ledger hroom₁) ?_))
  exact triple_bind (rmdirDir_ledger (room_holdDir _ hroom (by omega))) (fun _ =>
    close_ledger hroom₁)

theorem sysStat_ledger {p : Str} (hroom : ∀ b, c b + 2 < 2 ^ 32) :
    Triple (Ledger c) (sysStat t p) (fun _ => Ledger c) := by
  have hroom₁ := room_le hroom (show 1 ≤ 2 by omega)
  refine ledger_ite (ledger_quiet_bind quiet_rootDir (fun _ => ledger_quiet_bind
    (quiet_inodeAt t _) (fun _ => ledger_pure))) (search_bracket hroom₁ (fun x => ledger_ite ?_
      (close_ledger hroom₁)))
  refine triple_bind (fun _ _ _ hl hr => (inodeOpen_ledger hl
    (room_holdDir x.2.parentDir hroom (by omega)) hr).1) (fun a => ?_)
  exact ledger_quiet_bind (quiet_inodeAt t a) (fun _ => triple_bind
    (inode_bracket_close (room_holdDir x.2.parentDir hroom (by omega))) (fun _ =>
      close_ledger hroom₁))

theorem sysChdir_ledger {p : Str} (hroom : ∀ b, c b + 1 < 2 ^ 32) :
    Triple (Ledger c) (sysChdir t p) (fun _ => Ledger c) := by
  refine search_bracket hroom (fun x => ledger_ite (triple_bind (triple_modify (fun s hl => ?_))
    (fun _ => close_ledger hroom)) (close_ledger hroom))
  exact hl.congr rfl (Nat.le_refl _) (fun _ _ => rfl) (fun _ _ => rfl)

theorem getParentDirInodeNr_ledger {n : Nat} (hroom : ∀ b, c b + 1 < 2 ^ 32) :
    Triple (Ledger c) (getParentDirInodeNr t n) (fun _ => Ledger c) :=
  inode_bracket hroom (fun a => ledger_quiet_bind (quiet_inodeAt t a) (fun _ => ledger_quiet_bind
    within_read (fun _ => ledger_check_bind (triple_bind (inode_bracket_close hroom) (fun _ =>
      ledger_quiet_bind (quiet_ideRead _ _) (fun _ => ledger_check_bind ledger_pure))))))

theorem getChildDirName_ledger {p n : Nat} (hroom : ∀ b, c b + 1 < 2 ^ 32) :
    Triple (Ledger c) (getChildDirName t p n) (fun _ => Ledger c) :=
  inode_bracket hroom (fun a => ledger_quiet_bind (quiet_inodeAt t a) (fun _ => ledger_quiet_bind
    (quiet_readAllBlocks _) (fun _ => triple_bind (inode_bracket_close hroom) (fun _ =>
      ledger_quiet_bind quiet_sbDirEntrySize (fun _ =>
        ledger_of_quiet (quiet_childNameBlocks _ _ _ _))))))

theorem cwdLoop_ledger {n child : Nat} {path : Str} (hroom : ∀ b, c b + 1 < 2 ^ 32) :
    Triple (Ledger c) (cwdLoop t n child path) (fun _ => Ledger c) := by
  induction n generalizing child path with
  | zero => exact triple_fail
  | succ n ih =>
      refine ledger_ite ledger_pure (triple_bind (getParentDirInodeNr_ledger hroom) (fun p =>
        triple_bind (getChildDirName_ledger hroom) (fun name => ?_)))
      cases name with
      | none => exact ledger_pure
      | some name => exact ledger_check_bind ih

theorem sysGetcwd_ledger {size : Nat} (hroom : ∀ b, c b + 1 < 2 ^ 32) :
    Triple (Ledger c) (sysGetcwd t size) (fun _ => Ledger c) := by
  refine ledger_quiet_bind quiet_malloc (fun _ => ledger_ite (ledger_quiet_bind within_read
    (fun child => ledger_check_bind (ledger_ite ledger_pure (triple_bind (cwdLoop_ledger hroom)
      (fun path => ?_))))) ledger_pure)
  cases path with
  | none => exact ledger_pure
  | some path => exact ledger_check_bind ledger_pure

/-- The holder that a result of `sys_opendir` is. -/
def holdDir? (c : Nat → Nat) : Option Dir → Nat → Nat
  | none => c
  | some d => holdDir c d

theorem bump_comm (c : Nat → Nat) (a b : Nat) : bump (bump c a) b = bump (bump c b) a := by
  funext x
  by_cases hab : a = b
  · rw [hab]
  by_cases hx : x = a
  · rw [hx, bump_of_ne hab, bump_self, bump_self, bump_of_ne hab]
  · by_cases hx' : x = b
    · rw [hx', bump_self, bump_of_ne (Ne.symm hab), bump_of_ne (Ne.symm hab), bump_self]
    · rw [bump_of_ne hx', bump_of_ne hx, bump_of_ne hx, bump_of_ne hx']

theorem holdDir_comm (c : Nat → Nat) (d d' : Dir) :
    holdDir (holdDir c d) d' = holdDir (holdDir c d') d := by
  unfold holdDir
  split
  · rfl
  · split
    · rfl
    · exact bump_comm _ _ _

/-- A directory that is opened is one holder more. -/
theorem sysOpendir_ledger {p : Str} (hroom : ∀ b, c b + 2 < 2 ^ 32) :
    Triple (Ledger c) (sysOpendir t p) (fun r => Ledger (holdDir? c r)) := by
  have hroom₁ := room_le hroom (show 1 ≤ 2 by omega)
  refine ledger_check_bind (triple_bind (R := fun d s => Ledger c s ∧ d.isRoot = true) ?_
    (fun root => triple_ite (fun _ => triple_pure (fun s hs => ?_)) (fun _ => ?_)))
  · exact triple_read (fun s hs => ⟨hs, rfl⟩)
  · rw [holdDir?, holdDir, if_pos hs.2]
    exact hs.1
  · refine triple_conseq (search_bracket hroom₁ (fun x => ledger_ite ?_ ?_)) (fun _ hs => hs.1)
      (fun _ _ hq => hq)
    · refine triple_bind (fun _ _ _ hl hr => dirOpen_ledger hl
        (room_holdDir x.2.parentDir hroom (by omega)) hr) (fun d => ?_)
      rw [holdDir_comm]
      exact triple_conseq (close_result (room_holdDir d hroom (by omega))) (fun _ hs => hs)
        (fun r s hq => hq.1 ▸ hq.2)
    · exact triple_conseq (close_result hroom₁) (fun _ hs => hs) (fun _ _ hq => hq.1 ▸ hq.2)

/-- A handle that is closed is one holder less. -/
theorem sysClosedir_ledger {d : Dir} (hroom : ∀ b, c b + 1 < 2 ^ 32) :
    Triple (Ledger (holdDir c d)) (sysClosedir t d) (fun _ => Ledger c) :=
  close_ledger hroom

end Ledgers

section Steps

variable {w w' : FsWorld} {α : Type}

theorem call_ok {x : FsM α} (h : w.call x = .ok w') :
    ∃ a, x.run w.fs = .ok (a, w'.fs) ∧ w'.dirs = w.dirs := by
  unfold FsWorld.call at h
  cases hrun : x.run w.fs with
  | error e =>
      rw [hrun] at h
      cases h
  | ok r =>
      rw [hrun, Except.ok.injEq] at h
      rw [← h]
      exact ⟨r.1, rfl, rfl⟩

/-- The handles after `sys_opendir`. -/
def addHandle (t : Nat) (r : Option Dir) (dirs : List (Nat × Dir)) : List (Nat × Dir) :=
  match r with
  | none => dirs
  | some d => (t, d) :: dirs

theorem opendir_ok {t : Nat} {p : Str} (h : fsStep w (.opendir t p) = .ok w') :
    ∃ r, (sysOpendir t p).run w.fs = .ok (r, w'.fs) ∧ w'.dirs = addHandle t r w.dirs := by
  rw [fsStep] at h
  cases hrun : (sysOpendir t p).run w.fs with
  | error e =>
      rw [hrun] at h
      cases h
  | ok x =>
      rcases x with ⟨r, fs⟩
      rw [hrun] at h
      cases r with
      | none =>
          rw [Except.ok.injEq] at h
          exact h ▸ ⟨none, rfl, rfl⟩
      | some d =>
          rw [Except.ok.injEq] at h
          exact h ▸ ⟨some d, rfl, rfl⟩

theorem closedir_ok {k : Nat} (h : fsStep w (.closedir k) = .ok w') :
    w' = w ∨ ∃ t d u, w.dirs[k]? = some (t, d) ∧
      (sysClosedir t d).run w.fs = .ok (u, w'.fs) ∧ w'.dirs = w.dirs.eraseIdx k := by
  rw [fsStep] at h
  cases hk : w.dirs[k]? with
  | none =>
      rw [hk, Except.ok.injEq] at h
      exact Or.inl h.symm
  | some x =>
      rcases x with ⟨t, d⟩
      rw [hk] at h
      dsimp only at h
      cases hrun : (sysClosedir t d).run w.fs with
      | error e =>
          rw [hrun] at h
          cases h
      | ok y =>
          rw [hrun, Except.ok.injEq] at h
          exact h ▸ Or.inr ⟨t, d, y.1, rfl, hrun, rfl⟩

end Steps

end ForikOS
