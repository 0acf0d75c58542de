import ForikOS.Core.FileSys

/-!
# What the Functions of the File System Leave Alone

Three relations between the state before a function and the state after it.

A function that only looks does not change the state but for the answers it
has used up (`Quiet`). One that follows a path also opens and closes inodes:
it reads inodes from the disk into new objects and moves open counts, and that
is all (`Looked`). One that stores changes the disk, the bitmaps and the sizes
and block addresses of inodes, and never which inodes are open or what the
tables hold (`Stored`).

Every function of the model below the system calls is in one of the three
classes, and the invariants of the later modules say what they need of a class
once. The third class is large and there are several things to say about it,
so its functions are walked through once for every relation that allows what
storing does (`Storing`).

## Main definitions

* `Quiet`, `Looked`, `Stored`: The relations.
* `Looking`: The relation allows what opening and closing inodes does.
* `StoringBy`, `Storing`: The relation allows what storing does, with the
  changes of inodes given or with any.
* `Grows`: The two changes that a new entry makes to a directory.
* `diskInode`: A record of the inode table.

## Theorems

* `quiet_searchDirEntry`: Looking a name up only looks.
* `looked_inodeOpen`, `looked_inodeClose`, `looked_searchFile`: Following a
  path opens and closes inodes.
* `storing_inodeSync`, `storing_syncDirEntry`, `storing_deleteDirEntry`: What
  stores does only that.
* `storing_stored`: Storing changes no table.
-/

namespace ForikOS

open Prog

section Runs

variable {s s' : Fs} {u : Unit}

theorem assert_run {c : Prop} [Decidable c] {f : FsFunc} (h : (assert c f).run s = .ok (u, s')) :
    c ∧ s' = s :=
  check_ok h

theorem inodeAt_run {t a : Nat} {i : Inode} (h : (inodeAt t a).run s = .ok (i, s')) :
    s.Sees t a ∧ i = s.inode a ∧ s' = s := by
  rcases run_bind_ok.mp h with ⟨seen, s₁, h₁, k₁⟩
  rcases read_ok h₁ with ⟨rfl, rfl⟩
  rcases run_bind_ok.mp k₁ with ⟨_, s₂, h₂, k₂⟩
  rcases check_ok h₂ with ⟨hsees, rfl⟩
  rcases read_ok k₂ with ⟨rfl, rfl⟩
  exact ⟨of_decide_eq_true hsees, rfl, rfl⟩

theorem setInodeAt_run {a : Nat} {f : Inode → Inode} (h : (setInodeAt a f).run s = .ok (u, s')) :
    s' = s.setInode a (f (s.inode a)) :=
  modify_ok h

theorem newInode_run {home : Home} {a : Nat} (h : (newInode home).run s = .ok (a, s')) :
    a = s.nextInode ∧ s' = { s with nextInode := a + 1 }.setHome a home := by
  rcases run_bind_ok.mp h with ⟨b, s₁, h₁, k₁⟩
  rcases read_ok h₁ with ⟨rfl, rfl⟩
  rcases run_bind_ok.mp k₁ with ⟨_, s₂, h₂, k₂⟩
  rcases pure_ok k₂ with ⟨rfl, rfl⟩
  exact ⟨rfl, modify_ok h₂⟩

/-- What a buffer holds after `n` sectors have been read into it. -/
def sectors (disk : Nat → Byte) (lba n : Nat) (k : Nat) : Byte :=
  if k < n * sectorSize then disk (lba * sectorSize + k) else 0

theorem ideRead_run {lba n : Nat} {b : Nat → Byte} (h : (ideRead lba n).run s = .ok (b, s')) :
    lba ≤ maxLba ∧ b = sectors s.disk lba n ∧ s' = s := by
  rcases run_bind_ok.mp h with ⟨_, s₁, h₁, k₁⟩
  rcases assert_run h₁ with ⟨hlba, rfl⟩
  rcases run_bind_ok.mp k₁ with ⟨_, s₂, h₂, k₂⟩
  rw [pause_ok h₂] at k₂
  rcases read_ok k₂ with ⟨hb, hs⟩
  exact ⟨hlba.1, hb, hs⟩

theorem ideWriteFrom_run {lba n : Nat} {buf : Fs → Nat → Byte}
    (h : (ideWriteFrom lba n buf).run s = .ok (u, s')) :
    lba ≤ maxLba ∧ s' = s.setDisk (lba * sectorSize) (n * sectorSize) (buf s) := by
  rcases run_bind_ok.mp h with ⟨_, s₁, h₁, k₁⟩
  rcases assert_run h₁ with ⟨hlba, rfl⟩
  rcases run_bind_ok.mp k₁ with ⟨_, s₂, h₂, k₂⟩
  rcases run_bind_ok.mp k₂ with ⟨_, s₃, h₃, k₃⟩
  rw [pause_ok k₃, modify_ok h₃, pause_ok h₂]
  exact ⟨hlba.1, rfl⟩

theorem ideWrite_run {lba n : Nat} {buf : Nat → Byte} (h : (ideWrite lba n buf).run s = .ok (u, s')) :
    lba ≤ maxLba ∧ s' = s.setDisk (lba * sectorSize) (n * sectorSize) buf :=
  ideWriteFrom_run h

/-- Where `inode_locate` finds an inode. -/
def inodePos (sb : SuperBlock) (n : Nat) : InodePosition :=
  ⟨decide (512 - n * inodeSize % 512 < inodeSize), add32 sb.inodeTableLba (n * inodeSize / 512),
    n * inodeSize % 512⟩

theorem inodeLocate_run {n : Nat} {pos : InodePosition}
    (h : (inodeLocate n).run s = .ok (pos, s')) :
    n < 4096 ∧ pos = inodePos s.part.sb n ∧ s' = s := by
  rcases run_bind_ok.mp h with ⟨_, s₁, h₁, k₁⟩
  rcases assert_run h₁ with ⟨hn, rfl⟩
  rcases run_bind_ok.mp k₁ with ⟨sb, s₂, h₂, k₂⟩
  rcases read_ok h₂ with ⟨rfl, rfl⟩
  rcases pure_ok k₂ with ⟨rfl, rfl⟩
  exact ⟨hn, rfl, rfl⟩

theorem run_assert {c : Prop} [Decidable c] {f : FsFunc} (h : c) (s : Fs) :
    (assert c f).run s = .ok ((), s) :=
  run_check_pos h s

/-- `ide_read` of sectors that are there. -/
theorem run_ideRead {lba n : Nat} (hlba : lba ≤ maxLba) (hn : 0 < n) (s : Fs) :
    (ideRead lba n).run s = .ok (sectors s.disk lba n, s) := by
  rw [ideRead, run_bind_of (run_assert ⟨hlba, hn⟩ s), run_bind_of (run_pause s), run_read]
  rfl

theorem run_ideWrite {lba n : Nat} (hlba : lba ≤ maxLba) (hn : 0 < n) (buf : Nat → Byte) (s : Fs) :
    (ideWrite lba n buf).run s = .ok ((), s.setDisk (lba * sectorSize) (n * sectorSize) buf) := by
  rw [ideWrite, ideWriteFrom, run_bind_of (run_assert ⟨hlba, hn⟩ s), run_bind_of (run_pause s),
    run_bind_of (run_modify _ s), run_pause]

theorem run_inodeLocate {n : Nat} (hn : n < 4096) (s : Fs) :
    (inodeLocate n).run s = .ok (inodePos s.part.sb n, s) := by
  rw [inodeLocate, run_bind_of (run_assert hn s), run_bind_of (run_read _ s), run_pure]
  rfl

theorem run_inodeAt {t a : Nat} {s : Fs} (h : s.Sees t a) :
    (inodeAt t a).run s = .ok (s.inode a, s) := by
  rw [inodeAt, run_bind_of (run_read _ s), run_bind_of (run_check_pos (decide_eq_true h) s),
    run_read]

theorem run_newInode (home : Home) (s : Fs) : (newInode home).run s =
    .ok (s.nextInode, { s with nextInode := s.nextInode + 1 }.setHome s.nextInode home) := rfl

theorem run_malloc {s : Fs} {b : Bool} (h : s.mallocs 0 = b) :
    malloc.run s = .ok (b, { s with mallocs := fun i => s.mallocs (i + 1) }) := by
  rw [malloc, run_bind_of (run_read _ s), run_bind_of (run_modify _ s), run_pure, h]

/-- `sys_malloc` with memory left. -/
theorem run_mallocUnchecked {s : Fs} (h : s.mallocs 0 = true) :
    mallocUnchecked.run s = .ok ((), { s with mallocs := fun i => s.mallocs (i + 1) }) := by
  rw [mallocUnchecked, run_bind_of (run_malloc h), run_check_pos rfl]

end Runs

/-- Only the answers of the memory and of the stack have been used up. -/
def Quiet (s s' : Fs) : Prop := s' = { s with mallocs := s'.mallocs, junk := s'.junk }

instance : IsPreorder Fs Quiet where
  refl _ := rfl
  trans := by
    intro s₁ s₂ s₃ h h'
    unfold Quiet at h h' ⊢
    rw [h] at h'
    exact h'

section Quiet

theorem quiet_malloc : Within Quiet malloc :=
  within_read_bind (fun _ => within_bind (within_modify (fun _ => rfl)) (fun _ => within_pure))

theorem quiet_mallocUnchecked : Within Quiet mallocUnchecked :=
  within_bind quiet_malloc (fun _ => within_check)

theorem quiet_unset : Within Quiet unset :=
  within_read_bind (fun _ => within_bind (within_modify (fun _ => rfl)) (fun _ => within_pure))

theorem quiet_inodeAt (t a : Nat) : Within Quiet (inodeAt t a) :=
  within_read_bind (fun _ => within_check_bind within_read)

theorem quiet_ideRead (lba n : Nat) : Within Quiet (ideRead lba n) :=
  within_check_bind (within_bind within_pause (fun _ => within_read))

theorem quiet_inodeLocate (n : Nat) : Within Quiet (inodeLocate n) :=
  within_check_bind (within_read_bind (fun _ => within_pure))

theorem quiet_blockBitmapIdx (lba : Nat) : Within Quiet (blockBitmapIdx lba) := within_read

theorem quiet_scanOne (b : Bitmap) : Within Quiet (scanOne b) := within_check_bind within_pure

theorem quiet_findOpenInode (t n : Nat) (l : List Nat) : Within Quiet (findOpenInode t n l) := by
  induction l with
  | nil => exact within_pure
  | cons a l ih => exact within_bind (quiet_inodeAt t a) (fun i => within_ite within_pure ih)

theorem quiet_readAllBlocks (i : Inode) : Within Quiet (readAllBlocks i) :=
  within_ite (within_bind (quiet_ideRead _ _) (fun _ => within_pure)) within_pure

theorem quiet_rootDir : Within Quiet rootDir := within_read

theorem quiet_sbDirEntrySize : Within Quiet sbDirEntrySize :=
  within_read_bind (fun _ => within_check_bind within_pure)

theorem quiet_searchBlocks (all : Nat → Nat) (name : Str) (n k : Nat) :
    Within Quiet (searchBlocks all name n k) := by
  induction n generalizing k with
  | zero => exact within_pure
  | succ n ih =>
      refine within_ite (ih (k + 1)) (within_bind (quiet_ideRead _ _) (fun buf => ?_))
      cases findEntry buf name entriesPerSec 0 with
      | none => exact ih (k + 1)
      | some j => exact within_pure

theorem quiet_searchDirEntry (t : Nat) (d : Dir) (name : Str) :
    Within Quiet (searchDirEntry t d name) := by
  refine within_bind quiet_malloc (fun ok => within_ite ?_ within_pure)
  refine within_bind (quiet_inodeAt t _) (fun i => within_bind (quiet_readAllBlocks i) ?_)
  exact fun all => within_bind quiet_mallocUnchecked (fun _ =>
    within_bind quiet_sbDirEntrySize (fun _ => quiet_searchBlocks all name 140 0))

theorem quiet_createDirEntry (name : Str) (n : Nat) (ty : FileType) :
    Within Quiet (createDirEntry name n ty) :=
  within_check_bind within_pure

theorem quiet_scanEntries (buf : Nat → Byte) (inodeNo n j : Nat) (r : BlockScan) :
    Within Quiet (scanEntries buf inodeNo n j r) := by
  induction n generalizing j r with
  | zero => exact within_pure
  | succ n ih =>
      exact within_ite (ih _ _) (within_ite (ih _ _) (within_ite (ih _ _)
        (within_ite (within_check_bind (ih _ _)) (ih _ _))))

theorem quiet_dirIsEmpty (t : Nat) (d : Dir) : Within Quiet (dirIsEmpty t d) :=
  within_bind (quiet_inodeAt t _) (fun _ => within_read_bind (fun _ => within_pure))

theorem quiet_pathDepthLoop (n : Nat) (name : Str) (p : Option Str) (depth : Nat) :
    Within Quiet (pathDepthLoop n name p depth) := by
  induction n generalizing name p depth with
  | zero => exact within_fail
  | succ n ih => exact within_check_bind (within_ite within_pure (ih _ _ _))

theorem quiet_pathDepthCnt (p : Str) : Within Quiet (pathDepthCnt p) :=
  within_bind quiet_unset (fun _ =>
    within_ite (quiet_pathDepthLoop _ _ _ _) (quiet_pathDepthLoop _ _ _ _))

theorem quiet_fdInodeOf (g : Nat) : Within Quiet (fdInodeOf g) := by
  refine within_read_bind (fun p => ?_)
  cases p with
  | none => exact within_fail
  | some a => exact within_pure

theorem quiet_fileInode (t g : Nat) : Within Quiet (fileInode t g) :=
  within_bind (quiet_fdInodeOf g) (fun _ => within_bind (quiet_inodeAt t _) (fun _ => within_pure))

theorem quiet_inodeInUse (t inodeNo n k : Nat) : Within Quiet (inodeInUse t inodeNo n k) := by
  induction n generalizing k with
  | zero => exact within_pure
  | succ n ih =>
      refine within_read_bind (fun p => ?_)
      cases p with
      | none => exact ih (k + 1)
      | some a => exact within_bind (quiet_inodeAt t a) (fun _ => within_ite within_pure (ih _))

end Quiet

/-- Two inodes in memory describe the same file: everything but the open count
    is the same. -/
structure SameFile (i j : Inode) : Prop where
  iNo : i.iNo = j.iNo
  iSize : i.iSize = j.iSize
  writeDeny : i.writeDeny = j.writeDeny
  iSectors : ∀ k, k < 13 → i.iSectors k = j.iSectors k

theorem SameFile.refl (i : Inode) : SameFile i i := ⟨rfl, rfl, rfl, fun _ _ => rfl⟩

theorem SameFile.trans {i j k : Inode} (h : SameFile i j) (h' : SameFile j k) : SameFile i k :=
  ⟨h.iNo.trans h'.iNo, h.iSize.trans h'.iSize, h.writeDeny.trans h'.writeDeny,
    fun n hn => (h.iSectors n hn).trans (h'.iSectors n hn)⟩

/-- Where record `n` of the inode table starts on the disk. -/
def inodeOff (sb : SuperBlock) (n : Nat) : Nat :=
  add32 sb.inodeTableLba (n * inodeSize / 512) * sectorSize + n * inodeSize % 512

/-- Record `n` of the inode table. -/
def diskInode (s : Fs) (n : Nat) : Inode := decodeInode s.disk (inodeOff s.part.sb n)

/-- Inodes have been opened and closed. -/
structure Looked (s s' : Fs) : Prop where
  disk : s'.disk = s.disk
  part : s'.part = { s.part with openInodes := s'.part.openInodes }
  rootDir : s'.rootDir = s.rootDir
  fileTable : s'.fileTable = s.fileTable
  isUser : s'.isUser = s.isUser
  fdTable : s'.fdTable = s.fdTable
  cwd : s'.cwdInodeNr = s.cwdInodeNr
  next : s.nextInode ≤ s'.nextInode
  home : ∀ a, a < s.nextInode → s'.home a = s.home a ∨ s'.home a = .freed
  old : ∀ a, a < s.nextInode → SameFile (s'.inode a) (s.inode a)
  new : ∀ a, s.nextInode ≤ a → a < s'.nextInode →
    ∃ n, n < 4096 ∧ SameFile (s'.inode a) (diskInode s n)
  own : ∀ a u, s'.home a = .process u → s.home a = .process u

namespace Looked

variable {s s' s₁ s₂ s₃ : Fs}

theorem sb (h : Looked s s') : s'.part.sb = s.part.sb := by
  rw [h.part]

theorem diskInode_eq (h : Looked s s') (n : Nat) : diskInode s' n = diskInode s n := by
  rw [diskInode, h.disk, h.sb, diskInode]

instance : IsPreorder Fs Looked where
  refl s := ⟨rfl, rfl, rfl, rfl, rfl, rfl, rfl, Nat.le_refl _, fun _ _ => Or.inl rfl,
    fun _ _ => SameFile.refl _, fun a h h' => absurd h' (by omega), fun _ _ h => h⟩
  trans := by
    intro s₁ s₂ s₃ h h'
    refine ⟨h'.disk.trans h.disk, ?_, h'.rootDir.trans h.rootDir, h'.fileTable.trans h.fileTable,
      h'.isUser.trans h.isUser, h'.fdTable.trans h.fdTable, h'.cwd.trans h.cwd,
      Nat.le_trans h.next h'.next, ?_, ?_, ?_, fun a u ha => h.own a u (h'.own a u ha)⟩
    · rw [h'.part, h.part]
    · intro a ha
      rcases h'.home a (Nat.lt_of_lt_of_le ha h.next) with heq | hfreed
      · rw [heq]
        exact h.home a ha
      · exact Or.inr hfreed
    · intro a ha
      exact (h'.old a (Nat.lt_of_lt_of_le ha h.next)).trans (h.old a ha)
    · intro a h1 h2
      by_cases ha : a < s₂.nextInode
      · rcases h.new a h1 ha with ⟨n, hn, hsame⟩
        exact ⟨n, hn, (h'.old a ha).trans hsame⟩
      · rcases h'.new a (by omega) h2 with ⟨n, hn, hsame⟩
        rw [h.diskInode_eq] at hsame
        exact ⟨n, hn, hsame⟩

end Looked

theorem Quiet.looked {s s' : Fs} (h : Quiet s s') : Looked s s' := by
  unfold Quiet at h
  rw [h]
  exact ⟨rfl, rfl, rfl, rfl, rfl, rfl, rfl, Nat.le_refl _, fun _ _ => Or.inl rfl,
    fun _ _ => SameFile.refl _, fun a h1 h2 => absurd h2 (Nat.not_lt.mpr h1), fun _ _ h => h⟩

theorem looked_of_quiet {α : Type} {x : FsM α} (h : Within Quiet x) : Within Looked x :=
  within_mono h (fun _ _ => Quiet.looked)

theorem le32_congr {b b' : Nat → Byte} {off off' : Nat}
    (h : ∀ j, j < 4 → b (off + j) = b' (off' + j)) : le32 b off = le32 b' off' := by
  have h0 : b off = b' off' := h 0 (by omega)
  rw [le32, le32, h0, h 1 (by omega), h 2 (by omega), h 3 (by omega)]

/-- A record that has been read with the sectors it takes. -/
theorem decodeInode_sectors (disk : Nat → Byte) (sb : SuperBlock) (n : Nat) :
    SameFile (decodeInode (sectors disk (inodePos sb n).secLba (inodePos sb n).sects)
      (inodePos sb n).offSize) (decodeInode disk (inodeOff sb n)) := by
  have hsize : inodeSize = 76 := rfl
  have hsec : sectorSize = 512 := rfl
  have hfit : n * inodeSize % 512 + 76 ≤ (inodePos sb n).sects * sectorSize := by
    unfold InodePosition.sects inodePos
    rw [hsize, hsec]
    dsimp only
    by_cases h : 512 - n * 76 % 512 < 76
    · rw [decide_eq_true h, if_pos rfl]
      omega
    · rw [decide_eq_false h]
      show _ ≤ 1 * 512
      omega
  have hword : ∀ off, off + 4 ≤ 76 →
      le32 (sectors disk (inodePos sb n).secLba (inodePos sb n).sects) ((inodePos sb n).offSize + off)
        = le32 disk (inodeOff sb n + off) := by
    intro off hoff
    have hoffSize : (inodePos sb n).offSize = n * inodeSize % 512 := rfl
    rw [hoffSize]
    refine le32_congr (fun j hj => ?_)
    rw [sectors, if_pos (by omega), inodeOff, Nat.add_assoc, Nat.add_assoc, Nat.add_assoc]
    rfl
  refine ⟨?_, ?_, ?_, fun k hk => ?_⟩
  · have h0 := hword 0 (by omega)
    simp only [Nat.add_zero] at h0
    simp only [decodeInode, h0]
  · have h4 := hword 4 (by omega)
    simp only [decodeInode, h4]
  · have h12 := hword 12 (by omega)
    simp only [decodeInode, h12]
  · have hk' := hword (16 + 4 * k) (by omega)
    simp only [decodeInode, Nat.add_assoc, hk']

/-- `inode_open` of an inode that is not open makes a new object from its
    record. -/
theorem inodeFetch_run {n a : Nat} {s s' : Fs} (h : (inodeFetch n).run s = .ok (a, s')) :
    n < 4096 ∧ a = s.nextInode ∧ ∃ i, SameFile i (diskInode s n) ∧ i.iOpenCnts = 1 ∧
      Quiet ((({ s with nextInode := a + 1 }.setHome a .kernel).setInode a i).setOpenInodes
        (a :: s.part.openInodes)) s' := by
  rcases run_bind_ok.mp h with ⟨pos, s₁, h₁, k₁⟩
  rcases inodeLocate_run h₁ with ⟨hn, rfl, rfl⟩
  rcases run_bind_ok.mp k₁ with ⟨_, s₂, h₂, k₂⟩
  have hq₂ : s₂ = _ := quiet_mallocUnchecked _ _ _ h₂
  rcases run_bind_ok.mp k₂ with ⟨b, s₃, h₃, k₃⟩
  rcases newInode_run h₃ with ⟨hb, hs₃⟩
  rcases run_bind_ok.mp k₃ with ⟨_, s₄, h₄, k₄⟩
  have hq₄ : s₄ = _ := quiet_mallocUnchecked _ _ _ h₄
  rcases run_bind_ok.mp k₄ with ⟨buf, s₅, h₅, k₅⟩
  rcases ideRead_run h₅ with ⟨_, hbuf, hs₅⟩
  rcases run_bind_ok.mp k₅ with ⟨_, s₆, h₆, k₆⟩
  have hset := setInodeAt_run h₆
  rcases run_bind_ok.mp k₆ with ⟨_, s₇, h₇, k₇⟩
  have hlist := modify_ok h₇
  rcases pure_ok k₇ with ⟨hab, hs'⟩
  have hnext : b = s₁.nextInode := by rw [hb, hq₂]
  -- What is read is the record as it was when the call began.
  have hdisk : s₄.disk = s₁.disk := by
    rw [hq₄, hs₃, hq₂]
    rfl
  have hsame := decodeInode_sectors s₁.disk s₁.part.sb n
  refine ⟨hn, hab.trans hnext, { decodeInode buf (inodePos s₁.part.sb n).offSize with
    iOpenCnts := 1 }, ?_, rfl, ?_⟩
  · rw [hbuf, hdisk]
    exact ⟨hsame.iNo, hsame.iSize, hsame.writeDeny, hsame.iSectors⟩
  · rw [hs', hlist, hset, hs₅, hq₄, hs₃, hq₂, hab]
    rfl

theorem looked_inodeFetch (n : Nat) : Within Looked (inodeFetch n) := by
  intro s a s' h
  rcases inodeFetch_run h with ⟨hn, ha, i, hsame, -, hq⟩
  refine IsTrans.trans _ _ _ ?_ hq.looked
  refine ⟨rfl, rfl, rfl, rfl, rfl, rfl, rfl, ?_, ?_, ?_, ?_, ?_⟩
  · show s.nextInode ≤ a + 1
    omega
  · intro b hb
    left
    show Function.update s.home a Home.kernel b = s.home b
    rw [Function.update_of_ne (by omega)]
  · intro b hb
    show SameFile (Function.update s.inode a i b) (s.inode b)
    rw [Function.update_of_ne (by omega)]
    exact SameFile.refl _
  · intro b h1 h2
    have hb : b = a := by
      change b < a + 1 at h2
      omega
    refine ⟨n, hn, ?_⟩
    show SameFile (Function.update s.inode a i b) (diskInode s n)
    rw [hb, Function.update_self]
    exact hsame
  · intro b u hb
    change Function.update s.home a Home.kernel b = .process u at hb
    by_cases hba : b = a
    · rw [hba, Function.update_self] at hb
      cases hb
    · rwa [Function.update_of_ne hba] at hb

/-- A change of an open count. -/
theorem looked_setCnt (a : Nat) (f : Inode → Nat) :
    Within Looked (setInodeAt a (fun i => { i with iOpenCnts := f i })) := by
  refine within_modify (fun s => ⟨rfl, rfl, rfl, rfl, rfl, rfl, rfl, Nat.le_refl _,
    fun _ _ => Or.inl rfl, fun b _ => ?_, fun b h1 h2 => absurd h2 (Nat.not_lt.mpr h1),
    fun _ _ h => h⟩)
  show SameFile (Function.update s.inode a _ b) (s.inode b)
  by_cases hb : b = a
  · rw [hb, Function.update_self]
    exact ⟨rfl, rfl, rfl, fun _ _ => rfl⟩
  · rw [Function.update_of_ne hb]
    exact SameFile.refl _

theorem looked_inodeOpen (t n : Nat) : Within Looked (inodeOpen t n) := by
  refine within_read_bind (fun l => ?_)
  refine within_bind (looked_of_quiet (quiet_findOpenInode t n l)) (fun found => ?_)
  cases found with
  | none => exact looked_inodeFetch n
  | some a => exact within_bind (looked_setCnt a _) (fun _ => within_pure)

theorem looked_inodeClose (t a : Nat) : Within Looked (inodeClose t a) := by
  refine within_bind (looked_of_quiet (quiet_inodeAt t a)) (fun i => ?_)
  refine within_bind (looked_setCnt a _) (fun _ => within_ite ?_ within_pure)
  refine within_read_bind (fun _ => within_check_bind (within_read_bind (fun _ =>
    within_check_bind (within_modify (fun s => ?_)))))
  refine ⟨rfl, rfl, rfl, rfl, rfl, rfl, rfl, Nat.le_refl _, fun b _ => ?_,
    fun _ _ => SameFile.refl _, fun b h1 h2 => absurd h2 (Nat.not_lt.mpr h1), fun b u hb => ?_⟩
  · show Function.update s.home a Home.freed b = s.home b ∨ _
    by_cases hb : b = a
    · right
      show Function.update s.home a Home.freed b = .freed
      rw [hb, Function.update_self]
    · left
      rw [Function.update_of_ne hb]
  · change Function.update s.home a Home.freed b = .process u at hb
    by_cases hba : b = a
    · rw [hba, Function.update_self] at hb
      cases hb
    · rwa [Function.update_of_ne hba] at hb

/-- The relation allows what opening and closing inodes changes. -/
structure Looking (R : Fs → Fs → Prop) : Prop where
  quiet : ∀ s s', Quiet s s' → R s s'
  inodeOpen : ∀ t n, Within R (inodeOpen t n)
  inodeClose : ∀ t a, Within R (inodeClose t a)

section Looking

variable {R : Fs → Fs → Prop} [IsPreorder Fs R]

omit [IsPreorder Fs R] in
theorem looking_of_quiet {α : Type} {x : FsM α} (hR : Looking R) (h : Within Quiet x) :
    Within R x :=
  within_mono h hR.quiet

theorem looking_dirOpen (hR : Looking R) (t n : Nat) : Within R (dirOpen t n) :=
  within_bind (looking_of_quiet hR quiet_mallocUnchecked) (fun _ =>
    within_bind (hR.inodeOpen t n) (fun _ => within_pure))

theorem looking_dirClose (hR : Looking R) (t : Nat) (d : Dir) : Within R (dirClose t d) :=
  within_ite within_pure (hR.inodeClose t _)

theorem looking_searchLoop (hR : Looking R) (t n : Nat) (name : Str) (subPath : Option Str)
    (inodeNo parentNo : Nat) (r : PathSearchRecord) :
    Within R (searchLoop t n name subPath inodeNo parentNo r) := by
  induction n generalizing name subPath inodeNo parentNo r with
  | zero => exact within_fail
  | succ n ih =>
      refine within_check_bind (within_ite ?_ (within_check_bind ?_))
      · exact within_bind (looking_dirClose hR t _) (fun _ =>
          within_bind (looking_dirOpen hR t _) (fun _ => within_pure))
      refine within_bind (looking_of_quiet hR (quiet_searchDirEntry t _ name)) (fun found => ?_)
      cases found with
      | none => exact within_pure
      | some e =>
          refine within_check_bind (within_ite ?_ (within_ite within_pure (ih _ _ _ _ _)))
          exact within_bind (looking_of_quiet hR (quiet_inodeAt t _)) (fun _ =>
            within_bind (looking_dirClose hR t _) (fun _ =>
              within_bind (looking_dirOpen hR t _) (fun _ => ih _ _ _ _ _)))

theorem looking_searchFile (hR : Looking R) (t : Nat) (pathname : Str) :
    Within R (searchFile t pathname) :=
  within_read_bind (fun _ => within_ite within_pure (within_check_bind
    (within_bind (looking_of_quiet hR quiet_unset) (fun _ => looking_searchLoop hR t _ _ _ _ _ _))))

end Looking

theorem looking_looked : Looking Looked :=
  ⟨fun _ _ => Quiet.looked, looked_inodeOpen, looked_inodeClose⟩

theorem looked_dirOpen (t n : Nat) : Within Looked (dirOpen t n) :=
  looking_dirOpen looking_looked t n

theorem looked_dirClose (t : Nat) (d : Dir) : Within Looked (dirClose t d) :=
  looking_dirClose looking_looked t d

theorem looked_searchFile (t : Nat) (pathname : Str) : Within Looked (searchFile t pathname) :=
  looking_searchFile looking_looked t pathname

/-- What is open, and what the tables hold, has not changed. -/
structure Stored (s s' : Fs) : Prop where
  sb : s'.part.sb = s.part.sb
  startLba : s'.part.startLba = s.part.startLba
  secCnt : s'.part.secCnt = s.part.secCnt
  openInodes : s'.part.openInodes = s.part.openInodes
  home : s'.home = s.home
  nextInode : s'.nextInode = s.nextInode
  rootDir : s'.rootDir = s.rootDir
  fileTable : s'.fileTable = s.fileTable
  isUser : s'.isUser = s.isUser
  fdTable : s'.fdTable = s.fdTable
  cwd : s'.cwdInodeNr = s.cwdInodeNr
  iNo : ∀ a, (s'.inode a).iNo = (s.inode a).iNo
  iOpenCnts : ∀ a, (s'.inode a).iOpenCnts = (s.inode a).iOpenCnts
  writeDeny : ∀ a, (s'.inode a).writeDeny = (s.inode a).writeDeny

instance : IsPreorder Fs Stored where
  refl _ := ⟨rfl, rfl, rfl, rfl, rfl, rfl, rfl, rfl, rfl, rfl, rfl, fun _ => rfl, fun _ => rfl,
    fun _ => rfl⟩
  trans := by
    intro s₁ s₂ s₃ h h'
    exact ⟨h'.sb.trans h.sb, h'.startLba.trans h.startLba, h'.secCnt.trans h.secCnt,
      h'.openInodes.trans h.openInodes, h'.home.trans h.home, h'.nextInode.trans h.nextInode,
      h'.rootDir.trans h.rootDir, h'.fileTable.trans h.fileTable, h'.isUser.trans h.isUser,
      h'.fdTable.trans h.fdTable, h'.cwd.trans h.cwd, fun a => (h'.iNo a).trans (h.iNo a),
      fun a => (h'.iOpenCnts a).trans (h.iOpenCnts a),
      fun a => (h'.writeDeny a).trans (h.writeDeny a)⟩

/-- The relation allows the changes that storing makes: the disk, the bitmap
    of blocks, and the size and the blocks of an inode. -/
structure Storing (R : Fs → Fs → Prop) : Prop where
  quiet : ∀ s s', Quiet s s' → R s s'
  disk : ∀ s off n b, R s (s.setDisk off n b)
  blockBitmap : ∀ s b, R s (s.setBlockBitmap b)
  inode : ∀ s a i, i.iNo = (s.inode a).iNo → i.iOpenCnts = (s.inode a).iOpenCnts →
    i.writeDeny = (s.inode a).writeDeny → R s (s.setInode a i)

/-- The same with the changes of an inode given by `P`: its address, what it is
    and what it becomes. -/
structure StoringBy (P : Nat → Inode → Inode → Prop) (R : Fs → Fs → Prop) : Prop where
  quiet : ∀ s s', Quiet s s' → R s s'
  disk : ∀ s off n b, R s (s.setDisk off n b)
  blockBitmap : ∀ s b, R s (s.setBlockBitmap b)
  inode : ∀ s a i, P a (s.inode a) i → R s (s.setInode a i)

/-- The two changes that putting an entry into a directory makes to its
    inode. -/
structure Grows (P : Nat → Inode → Inode → Prop) (a : Nat) : Prop where
  sector : ∀ i k lba, P a i { i with iSectors := Function.update i.iSectors k lba }
  size : ∀ i n, P a i { i with iSize := n }

/-- A change that `Storing` allows. -/
def Resized (_ : Nat) (i j : Inode) : Prop :=
  j.iNo = i.iNo ∧ j.iOpenCnts = i.iOpenCnts ∧ j.writeDeny = i.writeDeny

theorem grows_resized (a : Nat) : Grows Resized a :=
  ⟨fun _ _ _ => ⟨rfl, rfl, rfl⟩, fun _ _ => ⟨rfl, rfl, rfl⟩⟩

theorem Storing.any {R : Fs → Fs → Prop} (h : Storing R) : StoringBy Resized R :=
  ⟨h.quiet, h.disk, h.blockBitmap, fun s a i hi => h.inode s a i hi.1 hi.2.1 hi.2.2⟩

theorem Storing.mono {R R' : Fs → Fs → Prop} (h : Storing R) (hle : ∀ s s', R s s' → R' s s') :
    Storing R' :=
  ⟨fun s s' hq => hle _ _ (h.quiet s s' hq), fun s off n b => hle _ _ (h.disk s off n b),
    fun s b => hle _ _ (h.blockBitmap s b), fun s a i h1 h2 h3 => hle _ _ (h.inode s a i h1 h2 h3)⟩

section Storing

variable {P : Nat → Inode → Inode → Prop} {R : Fs → Fs → Prop} [IsPreorder Fs R]

omit [IsPreorder Fs R] in
theorem storing_of_quiet {α : Type} {x : FsM α} (hR : StoringBy P R) (h : Within Quiet x) :
    Within R x :=
  within_mono h hR.quiet

omit [IsPreorder Fs R] in
theorem storing_setBlockBitmap (hR : StoringBy P R) {f : Fs → Bitmap} :
    Within R (Prog.modify (fun s => s.setBlockBitmap (f s)) : FsM Unit) :=
  within_modify (fun s => hR.blockBitmap s (f s))

omit [IsPreorder Fs R] in
/-- A change of the size and the blocks of an inode. -/
theorem storing_setInodeAt (hR : StoringBy P R) (a : Nat) {f : Inode → Inode}
    (h : ∀ i, P a i (f i)) : Within R (setInodeAt a f) :=
  within_modify (fun s => hR.inode s a _ (h _))

theorem storing_ideWriteFrom (hR : StoringBy P R) (lba n : Nat) (buf : Fs → Nat → Byte) :
    Within R (ideWriteFrom lba n buf) :=
  within_check_bind (within_bind within_pause (fun _ => within_bind
    (within_modify (fun s => hR.disk s _ _ _)) (fun _ => within_pause)))

theorem storing_ideWrite (hR : StoringBy P R) (lba n : Nat) (buf : Nat → Byte) :
    Within R (ideWrite lba n buf) :=
  storing_ideWriteFrom hR lba n _

theorem storing_bitmapSync (hR : StoringBy P R) (i : Nat) (ty : BitmapType) :
    Within R (bitmapSync i ty) := by
  refine within_read_bind (fun sb => ?_)
  cases ty with
  | inode => exact storing_ideWriteFrom hR _ _ _
  | block => exact storing_ideWriteFrom hR _ _ _

theorem storing_blockBitmapAlloc (hR : StoringBy P R) : Within R blockBitmapAlloc := by
  refine within_read_bind (fun p => within_bind (storing_of_quiet hR (quiet_scanOne _))
    (fun r => ?_))
  cases r with
  | none => exact within_pure
  | some i => exact within_bind (storing_setBlockBitmap hR) (fun _ => within_pure)

theorem storing_inodeSync (hR : StoringBy P R) (i : Inode) (n : Nat) : Within R (inodeSync i n) :=
  within_bind (storing_of_quiet hR (quiet_inodeLocate _)) (fun _ => within_read_bind (fun _ =>
    within_check_bind (within_check_bind (within_bind (storing_of_quiet hR (quiet_ideRead _ _))
      (fun _ => storing_ideWrite hR _ _ _)))))

omit [IsPreorder Fs R] in
theorem storing_setSector (hR : StoringBy P R) (a k lba : Nat)
    (h : ∀ i, P a i { i with iSectors := Function.update i.iSectors k lba }) :
    Within R (setSector a k lba) :=
  storing_setInodeAt hR a h

theorem storing_syncNewBit (hR : StoringBy P R) (lba : Nat) : Within R (syncNewBit lba) :=
  within_bind (storing_of_quiet hR (quiet_blockBitmapIdx _)) (fun _ =>
    within_check_bind (storing_bitmapSync hR _ _))

variable {a : Nat}

omit [IsPreorder Fs R] in
theorem storing_growDir (hR : StoringBy P R) (hP : Grows P a) : Within R (growDir a) :=
  storing_setInodeAt hR a (fun i => hP.size i _)

theorem storing_syncFirstEntry (hR : StoringBy P R) (hP : Grows P a) (e : DirEntry) (lba : Nat) :
    Within R (syncFirstEntry a e lba) :=
  within_bind (storing_ideWrite hR _ _ _) (fun _ => within_bind (storing_growDir hR hP)
    (fun _ => within_pure))

theorem storing_syncNewTable (hR : StoringBy P R) (hP : Grows P a) (t : Nat) (e : DirEntry)
    (all : Nat → Nat) (table : Nat) : Within R (syncNewTable t a e all table) := by
  refine within_bind (storing_setSector hR a _ _ (fun i => hP.sector i _ _)) (fun _ =>
    within_bind (storing_blockBitmapAlloc hR) (fun r => ?_))
  cases r with
  | none =>
      exact within_bind (storing_of_quiet hR (quiet_inodeAt t a)) (fun _ => within_bind
        (storing_of_quiet hR (quiet_blockBitmapIdx _)) (fun _ => within_bind
          (storing_setBlockBitmap hR) (fun _ => within_bind
            (storing_setSector hR a _ _ (fun i => hP.sector i _ _)) (fun _ => within_pure))))
  | some lba =>
      exact within_bind (storing_syncNewBit hR lba) (fun _ => within_bind
        (storing_of_quiet hR (quiet_inodeAt t a)) (fun _ => within_bind (storing_ideWrite hR _ _ _)
          (fun _ => storing_syncFirstEntry hR hP e lba)))

theorem storing_syncNewBlock (hR : StoringBy P R) (hP : Grows P a) (t : Nat) (e : DirEntry)
    (all : Nat → Nat) (k : Nat) : Within R (syncNewBlock t a e all k) := by
  refine within_bind (storing_blockBitmapAlloc hR) (fun r => ?_)
  cases r with
  | none => exact within_pure
  | some lba =>
      refine within_bind (storing_syncNewBit hR lba) (fun _ => within_ite ?_ (within_ite ?_ ?_))
      · exact within_bind (storing_setSector hR a _ _ (fun i => hP.sector i _ _))
          (fun _ => storing_syncFirstEntry hR hP e lba)
      · exact storing_syncNewTable hR hP t e all lba
      · exact within_bind (storing_of_quiet hR (quiet_inodeAt t a)) (fun _ => within_bind
          (storing_ideWrite hR _ _ _) (fun _ => storing_syncFirstEntry hR hP e lba))

theorem storing_syncBlocks (hR : StoringBy P R) (hP : Grows P a) (t : Nat) (e : DirEntry)
    (all : Nat → Nat) (n k : Nat) : Within R (syncBlocks t a e all n k) := by
  induction n generalizing k with
  | zero => exact within_pure
  | succ n ih =>
      refine within_ite (storing_syncNewBlock hR hP t e all k)
        (within_bind (storing_of_quiet hR (quiet_ideRead _ _)) (fun buf => ?_))
      cases findFree buf entriesPerSec 0 with
      | none => exact ih (k + 1)
      | some j =>
          exact within_bind (storing_ideWrite hR _ _ _) (fun _ => within_bind
            (storing_growDir hR hP) (fun _ => within_pure))

/-- An entry is put into a directory whose inode may grow. -/
theorem storing_putDirEntry (hR : StoringBy P R) (t : Nat) (d : Dir) (hP : Grows P d.inode)
    (e : DirEntry) : Within R (syncDirEntry t d e) :=
  within_bind (storing_of_quiet hR (quiet_inodeAt t _)) (fun _ =>
    within_bind (storing_of_quiet hR quiet_sbDirEntrySize) (fun _ =>
      within_check_bind (storing_syncBlocks hR hP t e _ _ _)))

omit [IsPreorder Fs R] in
theorem storing_moveSector (hR : Storing R) (a k lba : Nat) : Within R (setSector a k lba) :=
  storing_setSector hR.any a k lba (fun i => (grows_resized a).sector i k lba)

theorem storing_syncDirEntry (hR : Storing R) (t : Nat) (d : Dir) (e : DirEntry) :
    Within R (syncDirEntry t d e) :=
  storing_putDirEntry hR.any t d (grows_resized d.inode) e

theorem storing_deleteBlock (hR : Storing R) (a : Nat) (all : Nat → Nat) (k : Nat) :
    Within R (deleteBlock a all k) :=
  within_bind (storing_of_quiet hR.any (quiet_blockBitmapIdx _)) (fun _ => within_bind
    (storing_setBlockBitmap hR.any) (fun _ => within_bind (storing_bitmapSync hR.any _ _)
      (fun _ => within_ite (storing_moveSector hR a _ _) within_fail)))

theorem storing_shrinkDir (hR : Storing R) (t a : Nat) : Within R (shrinkDir t a) :=
  within_bind (storing_of_quiet hR.any quiet_sbDirEntrySize) (fun _ => within_bind
    (storing_of_quiet hR.any (quiet_inodeAt t a)) (fun _ => within_check_bind (within_bind
      (storing_setInodeAt hR.any a (fun _ => ⟨rfl, rfl, rfl⟩)) (fun _ => within_bind
        (storing_of_quiet hR.any (quiet_inodeAt t a)) (fun _ => within_bind
          (storing_inodeSync hR.any _ _) (fun _ => within_pure))))))

theorem storing_deleteBlocks (hR : Storing R) (t a : Nat) (all : Nat → Nat) (inodeNo n k : Nat) :
    Within R (deleteBlocks t a all inodeNo n k) := by
  induction n generalizing k with
  | zero => exact within_pure
  | succ n ih =>
      refine within_ite (ih (k + 1)) (within_bind (storing_of_quiet hR.any (quiet_ideRead _ _))
        (fun buf => within_bind (storing_of_quiet hR.any (quiet_scanEntries _ _ _ _ _)) (fun r => ?_)))
      cases r.dirEntryFound with
      | none => exact ih (k + 1)
      | some j =>
          refine within_check_bind (within_ite ?_ ?_)
          · exact within_bind (storing_deleteBlock hR a all k) (fun _ => storing_shrinkDir hR t a)
          · exact within_bind (storing_ideWrite hR.any _ _ _) (fun _ => storing_shrinkDir hR t a)

theorem storing_deleteDirEntry (hR : Storing R) (t : Nat) (d : Dir) (inodeNo : Nat) :
    Within R (deleteDirEntry t d inodeNo) :=
  within_bind (storing_of_quiet hR.any (quiet_inodeAt t _)) (fun _ => within_bind
    (storing_of_quiet hR.any (quiet_readAllBlocks _)) (fun _ => within_bind
      (storing_of_quiet hR.any quiet_sbDirEntrySize) (fun _ => storing_deleteBlocks hR t _ _ _ _ _)))

theorem storing_releaseBlock (hR : Storing R) (lba : Nat) : Within R (releaseBlock lba) :=
  within_bind (storing_of_quiet hR.any (quiet_blockBitmapIdx _)) (fun _ => within_check_bind
    (within_bind (storing_setBlockBitmap hR.any) (fun _ => storing_bitmapSync hR.any _ _)))

theorem storing_releaseBlocks (hR : Storing R) (all : Nat → Nat) (n k : Nat) :
    Within R (releaseBlocks all n k) := by
  induction n generalizing k with
  | zero => exact within_pure
  | succ n ih =>
      exact within_ite (within_bind (storing_releaseBlock hR _) (fun _ => ih (k + 1))) (ih (k + 1))

theorem storing_releaseStorage (hR : Storing R) (t a : Nat) (i : Inode) :
    Within R (releaseStorage t a i) := by
  refine within_bind (storing_of_quiet hR.any (quiet_readAllBlocks i)) (fun all => within_ite ?_ ?_)
  · exact within_bind (storing_of_quiet hR.any (quiet_inodeAt t a)) (fun _ => within_bind
      (storing_releaseBlock hR _) (fun _ => storing_releaseBlocks hR all _ _))
  · exact storing_releaseBlocks hR all _ _

theorem storing_inodeDelete (hR : Storing R) (n : Nat) : Within R (inodeDelete n) :=
  within_check_bind (within_bind (storing_of_quiet hR.any (quiet_inodeLocate n)) (fun _ =>
    within_read_bind (fun _ => within_check_bind (within_bind
      (storing_of_quiet hR.any (quiet_ideRead _ _)) (fun _ => storing_ideWrite hR.any _ _ _)))))

end Storing

section Stored

theorem storing_stored : Storing Stored := by
  refine ⟨fun s s' hq => ?_, fun _ _ _ _ => ?_, fun _ _ => ?_, fun s a i h1 h2 h3 => ?_⟩
  · unfold Quiet at hq
    rw [hq]
    exact ⟨rfl, rfl, rfl, rfl, rfl, rfl, rfl, rfl, rfl, rfl, rfl, fun _ => rfl, fun _ => rfl,
      fun _ => rfl⟩
  · exact ⟨rfl, rfl, rfl, rfl, rfl, rfl, rfl, rfl, rfl, rfl, rfl, fun _ => rfl, fun _ => rfl,
      fun _ => rfl⟩
  · exact ⟨rfl, rfl, rfl, rfl, rfl, rfl, rfl, rfl, rfl, rfl, rfl, fun _ => rfl, fun _ => rfl,
      fun _ => rfl⟩
  · have hb : ∀ b, ((s.setInode a i).inode b).iNo = (s.inode b).iNo ∧
        ((s.setInode a i).inode b).iOpenCnts = (s.inode b).iOpenCnts ∧
        ((s.setInode a i).inode b).writeDeny = (s.inode b).writeDeny := by
      intro b
      unfold Fs.setInode
      dsimp only
      by_cases hba : b = a
      · rw [hba, Function.update_self]
        exact ⟨h1, h2, h3⟩
      · rw [Function.update_of_ne hba]
        exact ⟨rfl, rfl, rfl⟩
    exact ⟨rfl, rfl, rfl, rfl, rfl, rfl, rfl, rfl, rfl, rfl, rfl,
      fun b => (hb b).1, fun b => (hb b).2.1, fun b => (hb b).2.2⟩

theorem stored_of_quiet {α : Type} {x : FsM α} (h : Within Quiet x) : Within Stored x :=
  storing_of_quiet storing_stored.any h

theorem stored_bitmapSync (i : Nat) (ty : BitmapType) : Within Stored (bitmapSync i ty) :=
  storing_bitmapSync storing_stored.any i ty

/-- A change of the bitmap of inodes in memory. -/
theorem stored_setInodeBitmap {f : Fs → Bitmap} :
    Within Stored (Prog.modify (fun s => s.setInodeBitmap (f s)) : FsM Unit) :=
  within_modify (fun _ => ⟨rfl, rfl, rfl, rfl, rfl, rfl, rfl, rfl, rfl, rfl, rfl, fun _ => rfl,
    fun _ => rfl, fun _ => rfl⟩)

theorem stored_inodeBitmapAlloc : Within Stored inodeBitmapAlloc := by
  refine within_read_bind (fun b => within_bind (stored_of_quiet (quiet_scanOne b)) (fun r => ?_))
  cases r with
  | none => exact within_pure
  | some i => exact within_bind stored_setInodeBitmap (fun _ => within_pure)

theorem stored_inodeSync (i : Inode) (n : Nat) : Within Stored (inodeSync i n) :=
  storing_inodeSync storing_stored.any i n

theorem stored_syncDirEntry (t : Nat) (d : Dir) (e : DirEntry) :
    Within Stored (syncDirEntry t d e) :=
  storing_syncDirEntry storing_stored t d e

end Stored

end ForikOS
