import ForikOS.Theory.DirTree

/-!
# Following a Path

`search_file` follows a path through the tree on the disk.

The tree is on the disk, and the code sees it through inodes in memory. The
two agree if every open inode says what its record says. A path is followed
with one directory open at a time: the one before is closed first, so that
everything in memory is again what it was, but for objects that nobody points
to. `Back` is this relation, and `Held` allows one more inode to be open.

`search_file` then stops the way following the components in the tree stops,
and says so: with the number of a directory, of a file, or with `-1`. What it
has recorded of the path is what it has looked at. The callers have to find
out from the record whether anything of the path is left.

## Main definitions

* `Mounted`: The memory is in order and agrees with the disk.
* `Back`: Memory is as it was.
* `Held`: Memory is as it was but for an inode that is open once more.
* `DirHeld`: The same for a directory handle.
* `Searched`: What `search_file` returns for the way of stopping.

## Theorems

* `run_inodeOpen`, `run_inodeClose`: Open and close.
* `searchDirEntry_looks_up`: `search_dir_entry` looks a name up.
* `searchFile_follows`: `search_file` follows the path.
-/

namespace ForikOS

open Prog

/-- Memory is in order for task `t`: the inode table and the entries are what
    the code takes them for, every open inode is there for the task, can be
    opened `room` more times and says what its record says, and what is open is
    in the list. -/
structure Mounted (t room : Nat) (s : Fs) : Prop where
  table : TableFits s.part
  entrySize : s.part.sb.dirEntrySize = dirEntrySize
  seen : ∀ a, a ∈ s.part.openInodes → s.Sees t a ∧ a < s.nextInode
  count : ∀ a, a ∈ s.part.openInodes →
    0 < (s.inode a).iOpenCnts ∧ (s.inode a).iOpenCnts + room < 2 ^ 32
  size : ∀ a, a ∈ s.part.openInodes → (s.inode a).iSize = (diskInode s (s.inode a).iNo).iSize
  sectors : ∀ a k, a ∈ s.part.openInodes → k < 13 →
    (s.inode a).iSectors k = (diskInode s (s.inode a).iNo).iSectors k
  root : s.rootDir ∈ s.part.openInodes ∧ (s.inode s.rootDir).iNo = 0
  files : ∀ g a, g < maxFileOpen → (s.fileTable g).fdInode = some a → a ∈ s.part.openInodes

/-- There is memory whenever somebody asks. -/
def Memory (s : Fs) : Prop := ∀ i, s.mallocs i = true

/-- Everything is as in `s₀` but for the list of open inodes, the inodes and
    what the stack holds. -/
def Beside (s₀ s : Fs) : Prop :=
  s = { s₀ with
    part := { s₀.part with openInodes := s.part.openInodes }
    inode := s.inode
    home := s.home
    nextInode := s.nextInode
    junk := s.junk }

/-- Memory is as in `s₀` but for inodes that were not there then. -/
structure Back (s₀ s : Fs) : Prop where
  beside : Beside s₀ s
  openInodes : s.part.openInodes = s₀.part.openInodes
  next : s₀.nextInode ≤ s.nextInode
  inode : ∀ a, a < s₀.nextInode → s.inode a = s₀.inode a
  home : ∀ a, a < s₀.nextInode → s.home a = s₀.home a

/-- Memory is as in `s₀` but for the inode at `a`, and inodes that were not
    there then. -/
structure BackBut (a : Nat) (s₀ s : Fs) : Prop where
  beside : Beside s₀ s
  next : s₀.nextInode ≤ s.nextInode
  inode : ∀ b, b < s₀.nextInode → b ≠ a → s.inode b = s₀.inode b
  home : ∀ b, b < s₀.nextInode → b ≠ a → s.home b = s₀.home b

/-- The inode at `a`, which has number `n`, is open once more than in `s₀`: it
    was in the list, or it is a new object. -/
inductive Held (s₀ : Fs) (a n : Nat) (s : Fs) : Prop
  | again : BackBut a s₀ s → s.part.openInodes = s₀.part.openInodes → s.home a = s₀.home a →
      a ∈ s₀.part.openInodes → (s₀.inode a).iNo = n →
      s.inode a = { s₀.inode a with iOpenCnts := add32 (s₀.inode a).iOpenCnts 1 } → Held s₀ a n s
  | fresh : BackBut a s₀ s → s.part.openInodes = a :: s₀.part.openInodes → s.home a = .kernel →
      s₀.nextInode ≤ a ∧ a < s.nextInode → SameFile (s.inode a) (diskInode s₀ n) →
      (s.inode a).iOpenCnts = 1 → Held s₀ a n s

/-- The directory `d`, which has inode `n`, is open, and memory is else as in
    `s₀`. -/
def DirHeld (s₀ : Fs) (d : Dir) (n : Nat) (s : Fs) : Prop :=
  (d = ⟨s₀.rootDir, true⟩ ∧ n = 0 ∧ Back s₀ s) ∨ (d.isRoot = false ∧ Held s₀ d.inode n s)

section Memory

variable {s : Fs}

theorem Memory.shift (h : Memory s) : { s with mallocs := fun i => s.mallocs (i + 1) } = s := by
  have heq : (fun i => s.mallocs (i + 1)) = s.mallocs := by
    funext i
    rw [h i, h (i + 1)]
  rw [heq]

theorem Memory.run_malloc (h : Memory s) : malloc.run s = .ok (true, s) := by
  rw [malloc, run_bind_of (run_read _ s), run_bind_of (run_modify _ s), run_pure, h.shift, h 0]

theorem Memory.run_mallocUnchecked (h : Memory s) : mallocUnchecked.run s = .ok ((), s) := by
  rw [ForikOS.run_mallocUnchecked (h 0), h.shift]

end Memory

section Frames

variable {s₀ s s' : Fs} {a n t : Nat}

theorem Back.refl (s : Fs) : Back s s := ⟨rfl, rfl, Nat.le_refl _, fun _ _ => rfl, fun _ _ => rfl⟩

theorem Beside.disk (h : Beside s₀ s) : s.disk = s₀.disk := by rw [h]

theorem Beside.sb (h : Beside s₀ s) : s.part.sb = s₀.part.sb := by rw [h]

theorem Beside.memory (h : Beside s₀ s) (hm : Memory s₀) : Memory s := by
  rw [h]
  exact hm

theorem Beside.diskInode (h : Beside s₀ s) (n : Nat) : diskInode s n = diskInode s₀ n := by
  rw [ForikOS.diskInode, ForikOS.diskInode, h.disk, h.sb]

/-- What is on the stack does not matter. -/
theorem Back.junk (h : Back s₀ s) (j : Nat → Nat) : Back s₀ { s with junk := j } := by
  refine ⟨?_, h.openInodes, h.next, h.inode, h.home⟩
  have hb := h.beside
  unfold Beside at hb ⊢
  rw [hb]

theorem BackBut.junk (h : BackBut a s₀ s) (j : Nat → Nat) : BackBut a s₀ { s with junk := j } := by
  refine ⟨?_, h.next, h.inode, h.home⟩
  have hb := h.beside
  unfold Beside at hb ⊢
  rw [hb]

theorem Held.junk (h : Held s₀ a n s) (j : Nat → Nat) : Held s₀ a n { s with junk := j } := by
  cases h with
  | again hb hopen hhome ha hn hi => exact .again (hb.junk j) hopen hhome ha hn hi
  | fresh hb hopen hhome ha hi hone => exact .fresh (hb.junk j) hopen hhome ha hi hone

theorem Held.but (h : Held s₀ a n s) : BackBut a s₀ s := by
  cases h with
  | again hb _ _ _ _ _ => exact hb
  | fresh hb _ _ _ _ _ => exact hb

theorem Held.beside (h : Held s₀ a n s) : Beside s₀ s := h.but.beside

end Frames

section OpenClose

variable {s₀ s : Fs} {a n t room : Nat}

theorem Held.sees (hM : Mounted t room s₀) (h : Held s₀ a n s) : s.Sees t a := by
  cases h with
  | again _ _ hhome ha _ _ =>
      rw [Fs.Sees, hhome]
      exact (hM.seen a ha).1
  | fresh _ _ hhome _ _ _ => exact Or.inl hhome

theorem Held.size (hM : Mounted t room s₀) (h : Held s₀ a n s) :
    (s.inode a).iSize = (diskInode s₀ n).iSize := by
  cases h with
  | again _ _ _ ha hn hi =>
      rw [hi, ← hn]
      exact hM.size a ha
  | fresh _ _ _ _ hi _ => exact hi.iSize

theorem Held.sectors (hM : Mounted t room s₀) (h : Held s₀ a n s) {k : Nat} (hk : k < 13) :
    (s.inode a).iSectors k = (diskInode s₀ n).iSectors k := by
  cases h with
  | again _ _ _ ha hn hi =>
      rw [hi, ← hn]
      exact hM.sectors a k ha hk
  | fresh _ _ _ _ hi _ => exact hi.iSectors k hk

theorem Held.iNo (h : Held s₀ a n s) (hrec : (diskInode s₀ n).iNo = n) : (s.inode a).iNo = n := by
  cases h with
  | again _ _ _ _ hn hi =>
      rw [hi]
      exact hn
  | fresh _ _ _ _ hi _ => exact hi.iNo.trans hrec

/-- `inode_open` of an inode that is not in the list. -/
theorem run_inodeFetch (hM : Mounted t room s₀) (hm : Memory s₀) (hb : Back s₀ s) (hn : n < 4096) :
    ∃ a s', (inodeFetch n).run s = .ok (a, s') ∧ Held s₀ a n s' := by
  have hfits : TableFits s.part := by
    rw [hb.beside]
    exact ⟨hM.table.inPart, hM.table.onDisk⟩
  rcases inodePos_fits hfits hn with ⟨-, -, hpos, -, hdisk, -⟩
  have hmem : Memory s := hb.beside.memory hm
  have hmem' : Memory ({ s with nextInode := s.nextInode + 1 }.setHome s.nextInode .kernel) := hmem
  rw [inodeFetch, run_bind_of (run_inodeLocate hn s), run_bind_of hmem.run_mallocUnchecked,
    run_bind_of (run_newInode _ _), run_bind_of hmem'.run_mallocUnchecked,
    run_bind_of (run_ideRead hdisk hpos _)]
  refine ⟨s.nextInode, _, rfl, ?_⟩
  have hrec := decodeInode_sectors s.disk s.part.sb n
  have hsame : SameFile { decodeInode (sectors s.disk (inodePos s.part.sb n).secLba
      (inodePos s.part.sb n).sects) (inodePos s.part.sb n).offSize with iOpenCnts := 1 }
      (diskInode s₀ n) := by
    rw [← hb.beside.diskInode]
    exact ⟨hrec.iNo, hrec.iSize, hrec.writeDeny, hrec.iSectors⟩
  -- The address is new, so what was there is not touched.
  have hold : ∀ b, b < s₀.nextInode → b ≠ s.nextInode := by
    intro b hlt
    have := hb.next
    omega
  refine .fresh ⟨?_, ?_, fun b hlt _ => ?_, fun b hlt _ => ?_⟩ ?_ (Function.update_self _ _ _) ?_
    ?_ ?_
  · have h := hb.beside
    unfold Beside at h ⊢
    rw [h]
    rfl
  · exact Nat.le_succ_of_le hb.next
  · exact (Function.update_of_ne (hold b hlt) _ _).trans (hb.inode b hlt)
  · exact (Function.update_of_ne (hold b hlt) _ _).trans (hb.home b hlt)
  · exact congrArg (List.cons s.nextInode) hb.openInodes
  · exact ⟨hb.next, Nat.lt_succ_self _⟩
  · show SameFile (Function.update s.inode s.nextInode _ s.nextInode) _
    rw [Function.update_self]
    exact hsame
  · show (Function.update s.inode s.nextInode _ s.nextInode).iOpenCnts = 1
    rw [Function.update_self]

theorem run_inodeOpen (hM : Mounted t room s₀) (hm : Memory s₀) (hb : Back s₀ s) (hn : n < 4096) :
    ∃ a s', (inodeOpen t n).run s = .ok (a, s') ∧ Held s₀ a n s' := by
  -- Every inode on the list may be looked at by this task, as in the mounted state.
  have hseen : ∀ a, a ∈ s.part.openInodes → s.Sees t a := by
    intro a ha
    rw [hb.openInodes] at ha
    have hhome : s.home a = s₀.home a := hb.home a (hM.seen a ha).2
    show s.home a = .kernel ∨ s.home a = .process t
    rw [hhome]
    exact (hM.seen a ha).1
  rw [inodeOpen, run_bind_of (run_read _ s), run_bind_of (run_findOpenInode hseen)]
  cases hfound : s.part.openInodes.find? (fun a => decide ((s.inode a).iNo = n)) with
  | none => exact run_inodeFetch hM hm hb hn
  | some a =>
      have ha := List.mem_of_find?_eq_some hfound
      have hno := List.find?_some hfound
      rw [decide_eq_true_eq] at hno
      rw [hb.openInodes] at ha
      -- An inode that is open is counted once more and not read again.
      have hinode : s.inode a = s₀.inode a := hb.inode a (hM.seen a ha).2
      refine ⟨a, _, rfl, ?_⟩
      dsimp only
      rw [hinode] at hno ⊢
      refine .again ⟨?_, hb.next, fun b hlt hba => ?_, fun b hlt _ => hb.home b hlt⟩ hb.openInodes
        (hb.home a (hM.seen a ha).2) ha hno (Function.update_self _ _ _)
      · have h := hb.beside
        unfold Beside at h ⊢
        rw [h]
        rfl
      · exact (Function.update_of_ne hba _ _).trans (hb.inode b hlt)

/-- `inode_close` where somebody else still holds the inode. -/
theorem run_inodeClose_more (hsees : s.Sees t a) (hcnt : sub32 (s.inode a).iOpenCnts 1 ≠ 0) :
    (inodeClose t a).run s = .ok ((), s.setInode a
      { s.inode a with iOpenCnts := sub32 (s.inode a).iOpenCnts 1 }) := by
  rw [inodeClose, run_bind_of (run_inodeAt hsees)]
  dsimp only
  rw [setInodeAt, run_bind_of (run_modify _ _), if_neg hcnt, run_pure]

/-- `inode_close` of the last one. -/
theorem run_inodeClose_last (hsees : s.Sees t a) (hone : (s.inode a).iOpenCnts = 1)
    (hlist : a ∈ s.part.openInodes) (hhome : s.home a = .kernel) :
    (inodeClose t a).run s = .ok ((), ((s.setInode a
      { s.inode a with iOpenCnts := 0 }).setOpenInodes (s.part.openInodes.erase a)).setHome a
        .freed) := by
  have hcnt : sub32 1 1 = 0 := rfl
  rw [inodeClose, run_bind_of (run_inodeAt hsees)]
  dsimp only
  rw [hone, hcnt, setInodeAt, run_bind_of (run_modify _ _), if_pos rfl]
  generalize hs' : s.setInode a { s.inode a with iOpenCnts := 0 } = s'
  have hlist' : a ∈ s'.part.openInodes := hs' ▸ hlist
  have hhome' : s'.home a = .kernel := hs' ▸ hhome
  have hopen : s'.part.openInodes = s.part.openInodes := hs' ▸ rfl
  rw [run_bind_of (run_read _ _), run_bind_of (run_check_pos (decide_eq_true hlist') _),
    run_bind_of (run_read _ _), run_bind_of (run_check_pos hhome' _), run_modify, hopen]

/-- What has been opened is closed, and memory is as before. -/
theorem run_inodeClose (hM : Mounted t room s₀) (h : Held s₀ a n s) :
    ∃ s', (inodeClose t a).run s = .ok ((), s') ∧ Back s₀ s' := by
  have hsees := h.sees hM
  have hb := h.but
  have hbeside : ∀ i l h, Beside s₀ ((s.setInode a i).setOpenInodes l |>.setHome a h) := by
    intro i l h
    have hb := hb.beside
    unfold Beside at hb ⊢
    rw [hb]
    rfl
  cases h with
  -- It was open before, and the count goes back by one.
  | again _ hopen hhome ha hn hi =>
      rcases hM.count a ha with ⟨hpos, hlt⟩
      have hcnt : sub32 (add32 (s₀.inode a).iOpenCnts 1) 1 = (s₀.inode a).iOpenCnts := by
        rw [sub32, add32]
        omega
      have hne : sub32 (s.inode a).iOpenCnts 1 ≠ 0 := by
        rw [hi, hcnt]
        omega
      refine ⟨_, run_inodeClose_more hsees hne, ?_⟩
      rw [hi]
      dsimp only
      rw [hcnt]
      refine ⟨?_, hopen, hb.next, fun b hlt => ?_, fun b hlt => ?_⟩
      · have h := hb.beside
        unfold Beside at h ⊢
        rw [h]
        rfl
      · by_cases hba : b = a
        · rw [hba]
          exact Function.update_self _ _ _
        · exact (Function.update_of_ne hba _ _).trans (hb.inode b hlt hba)
      · by_cases hba : b = a
        · rw [hba]
          exact hhome
        · exact hb.home b hlt hba
  -- It was opened by this search, so it leaves the list and is freed.
  | fresh _ hopen hhome ha hi hone =>
      have hold : ∀ b, b < s₀.nextInode → b ≠ a := fun b hlt hba => by omega
      have hlist : a ∈ s.part.openInodes := hopen ▸ List.mem_cons_self
      refine ⟨_, run_inodeClose_last hsees hone hlist hhome, hbeside _ _ _, ?_, hb.next,
        fun b hlt => ?_, fun b hlt => ?_⟩
      · show s.part.openInodes.erase a = _
        rw [hopen]
        exact List.erase_cons_head _ _
      · exact (Function.update_of_ne (hold b hlt) _ _).trans (hb.inode b hlt (hold b hlt))
      · exact (Function.update_of_ne (hold b hlt) _ _).trans (hb.home b hlt (hold b hlt))

end OpenClose

section Order

variable {s₀ s s' : Fs} {a n t room : Nat}

theorem Mounted.less (h : Mounted t (room + 1) s) : Mounted t room s := by
  refine ⟨h.table, h.entrySize, h.seen, fun a ha => ?_, h.size, h.sectors, h.root, h.files⟩
  have hcount := h.count a ha
  omega

/-- The order of memory lies in the open inodes. -/
theorem Mounted.of_openInodes {room' : Nat} (hM : Mounted t room s₀) (hb : Beside s₀ s)
    (hopen : ∀ a, a ∈ s₀.part.openInodes → a ∈ s.part.openInodes)
    (hroot : (s.inode s₀.rootDir).iNo = 0)
    (hseen : ∀ a, a ∈ s.part.openInodes → s.Sees t a ∧ a < s.nextInode)
    (hcount : ∀ a, a ∈ s.part.openInodes →
      0 < (s.inode a).iOpenCnts ∧ (s.inode a).iOpenCnts + room' < 2 ^ 32)
    (hdisk : ∀ a, a ∈ s.part.openInodes →
      (s.inode a).iSize = (diskInode s₀ (s.inode a).iNo).iSize ∧
        ∀ k, k < 13 → (s.inode a).iSectors k = (diskInode s₀ (s.inode a).iNo).iSectors k) :
    Mounted t room' s := by
  have hrootDir : s.rootDir = s₀.rootDir := by rw [hb]
  have hfiles : s.fileTable = s₀.fileTable := by rw [hb]
  refine ⟨?_, hb.sb ▸ hM.entrySize, hseen, hcount, fun a ha => ?_, fun a k ha hk => ?_, ?_, ?_⟩
  · rw [hb]
    exact ⟨hM.table.inPart, hM.table.onDisk⟩
  · rw [hb.diskInode]
    exact (hdisk a ha).1
  · rw [hb.diskInode]
    exact (hdisk a ha).2 k hk
  · rw [hrootDir]
    exact ⟨hopen _ hM.root.1, hroot⟩
  · intro g a hg hfile
    rw [hfiles] at hfile
    exact hopen a (hM.files g a hg hfile)

theorem Back.mounted (hM : Mounted t room s₀) (h : Back s₀ s) : Mounted t room s := by
  have hold : ∀ a, a ∈ s.part.openInodes → a ∈ s₀.part.openInodes ∧ s.inode a = s₀.inode a ∧
      s.home a = s₀.home a := by
    intro a ha
    rw [h.openInodes] at ha
    have hlt := (hM.seen a ha).2
    exact ⟨ha, h.inode a hlt, h.home a hlt⟩
  refine hM.of_openInodes h.beside (fun a ha => h.openInodes ▸ ha) ?_ (fun a ha => ?_)
    (fun a ha => ?_) (fun a ha => ?_)
  · rw [h.inode _ (hM.seen _ hM.root.1).2]
    exact hM.root.2
  · rcases hold a ha with ⟨ha₀, -, hhome⟩
    rw [Fs.Sees, hhome]
    exact ⟨(hM.seen a ha₀).1, Nat.lt_of_lt_of_le (hM.seen a ha₀).2 h.next⟩
  · rcases hold a ha with ⟨ha₀, hi, -⟩
    rw [hi]
    exact hM.count a ha₀
  · rcases hold a ha with ⟨ha₀, hi, -⟩
    rw [hi]
    exact ⟨hM.size a ha₀, fun k hk => hM.sectors a k ha₀ hk⟩

/-- An inode that was open is still where it was, with its number. -/
theorem Held.old (hM : Mounted t room s₀) (h : Held s₀ a n s) {b : Nat}
    (hb : b ∈ s₀.part.openInodes) : s.Sees t b ∧ (s.inode b).iNo = (s₀.inode b).iNo := by
  rcases hM.seen b hb with ⟨hsees, hlt⟩
  by_cases hba : b = a
  · cases h with
    | again _ _ hhome _ _ hi =>
        rw [hba, Fs.Sees, hhome, hi, ← hba]
        exact ⟨hsees, rfl⟩
    | fresh _ _ _ ha _ _ => omega
  · rw [Fs.Sees, h.but.home b hlt hba, h.but.inode b hlt hba]
    exact ⟨hsees, rfl⟩

/-- With one more inode open memory is still in order. -/
theorem Held.mounted (hM : Mounted t (room + 1) s₀) (h : Held s₀ a n s)
    (hrec : (diskInode s₀ n).iNo = n) : Mounted t room s := by
  have hno := h.iNo hrec
  have hroom := (hM.count _ hM.root.1).2
  -- On the list are the new inode and the old ones.
  have hlist : ∀ b, b ∈ s.part.openInodes → b = a ∨ b ∈ s₀.part.openInodes ∧ b ≠ a := by
    intro b hb
    by_cases hba : b = a
    · exact Or.inl hba
    · refine Or.inr ⟨?_, hba⟩
      cases h with
      | again _ hopen _ _ _ _ => exact hopen ▸ hb
      | fresh _ hopen _ _ _ _ =>
          rw [hopen] at hb
          exact (List.mem_cons.mp hb).resolve_left hba
  have hself : a < s.nextInode ∧ 0 < (s.inode a).iOpenCnts ∧
      (s.inode a).iOpenCnts + room < 2 ^ 32 := by
    cases h with
    | again hb _ _ ha _ hi =>
        have hlt := (hM.seen a ha).2
        have hnext := hb.next
        rcases hM.count a ha with ⟨hpos, hbound⟩
        rw [hi]
        dsimp only
        rw [add32]
        omega
    | fresh _ _ _ ha _ hone =>
        rw [hone]
        omega
  refine hM.of_openInodes h.beside (fun b hb => ?_) ?_ (fun b hb => ?_) (fun b hb => ?_)
    (fun b hb => ?_)
  · cases h with
    | again _ hopen _ _ _ _ => exact hopen ▸ hb
    | fresh _ hopen _ _ _ _ =>
        rw [hopen]
        exact List.mem_cons_of_mem a hb
  · rw [(h.old hM hM.root.1).2]
    exact hM.root.2
  · rcases hlist b hb with rfl | ⟨hb₀, -⟩
    · exact ⟨h.sees hM, hself.1⟩
    · exact ⟨(h.old hM hb₀).1, Nat.lt_of_lt_of_le (hM.seen b hb₀).2 h.but.next⟩
  · rcases hlist b hb with rfl | ⟨hb₀, hba⟩
    · exact hself.2
    · rw [h.but.inode b (hM.seen b hb₀).2 hba]
      have := hM.count b hb₀
      omega
  · rcases hlist b hb with rfl | ⟨hb₀, hba⟩
    · rw [hno]
      exact ⟨h.size hM, fun k hk => h.sectors hM hk⟩
    · rw [h.but.inode b (hM.seen b hb₀).2 hba]
      exact ⟨hM.size b hb₀, fun k hk => hM.sectors b k hb₀ hk⟩

theorem Beside.trans (h : Beside s₀ s) (h' : Beside s s') : Beside s₀ s' := by
  unfold Beside at h h' ⊢
  rw [h] at h'
  exact h'

theorem Back.trans (h : Back s₀ s) (h' : Back s s') : Back s₀ s' := by
  refine ⟨h.beside.trans h'.beside, h'.openInodes.trans h.openInodes, Nat.le_trans h.next h'.next,
    fun a ha => ?_, fun a ha => ?_⟩
  · exact (h'.inode a (Nat.lt_of_lt_of_le ha h.next)).trans (h.inode a ha)
  · exact (h'.home a (Nat.lt_of_lt_of_le ha h.next)).trans (h.home a ha)

/-- What is held is still held after other inodes have come and gone. -/
theorem Held.back (hM : Mounted t room s₀) (h : Held s₀ a n s) (hb : Back s s') :
    Held s₀ a n s' := by
  have hlt : a < s.nextInode := by
    cases h with
    | again hb _ _ ha _ _ => exact Nat.lt_of_lt_of_le (hM.seen a ha).2 hb.next
    | fresh _ _ _ ha _ _ => exact ha.2
  have hbut : BackBut a s₀ s' := by
    have hold := h.but
    refine ⟨hold.beside.trans hb.beside, Nat.le_trans hold.next hb.next, fun b hb' hba => ?_,
      fun b hb' hba => ?_⟩
    · exact (hb.inode b (Nat.lt_of_lt_of_le hb' hold.next)).trans (hold.inode b hb' hba)
    · exact (hb.home b (Nat.lt_of_lt_of_le hb' hold.next)).trans (hold.home b hb' hba)
  cases h with
  | again _ hopen hhome ha hn hi =>
      exact .again hbut (hb.openInodes.trans hopen) ((hb.home a hlt).trans hhome) ha hn
        ((hb.inode a hlt).trans hi)
  | fresh _ hopen hhome ha hi hone =>
      refine .fresh hbut (hb.openInodes.trans hopen) ((hb.home a hlt).trans hhome)
        ⟨ha.1, Nat.lt_of_lt_of_le ha.2 hb.next⟩ ?_ ?_
      · rw [hb.inode a hlt]
        exact hi
      · rw [hb.inode a hlt]
        exact hone

end Order

namespace DirHeld

variable {s₀ s : Fs} {d : Dir} {n t room : Nat}

theorem root (h : Back s₀ s) : DirHeld s₀ ⟨s₀.rootDir, true⟩ 0 s := Or.inl ⟨rfl, rfl, h⟩

theorem junk (h : DirHeld s₀ d n s) (j : Nat → Nat) : DirHeld s₀ d n { s with junk := j } := by
  rcases h with ⟨hd, hn, hb⟩ | ⟨hd, hh⟩
  · exact Or.inl ⟨hd, hn, hb.junk j⟩
  · exact Or.inr ⟨hd, hh.junk j⟩

theorem beside (h : DirHeld s₀ d n s) : Beside s₀ s := by
  rcases h with ⟨-, -, hb⟩ | ⟨-, hh⟩
  · exact hb.beside
  · exact hh.beside

theorem sees (hM : Mounted t room s₀) (h : DirHeld s₀ d n s) : s.Sees t d.inode := by
  rcases h with ⟨rfl, -, hb⟩ | ⟨-, hh⟩
  · rcases hM.seen _ hM.root.1 with ⟨hsees, hlt⟩
    show s.home s₀.rootDir = .kernel ∨ s.home s₀.rootDir = .process t
    rw [hb.home _ hlt]
    exact hsees
  · exact hh.sees hM

theorem sectors (hM : Mounted t room s₀) (h : DirHeld s₀ d n s) {k : Nat} (hk : k < 13) :
    (s.inode d.inode).iSectors k = (diskInode s₀ n).iSectors k := by
  rcases h with ⟨rfl, rfl, hb⟩ | ⟨-, hh⟩
  · have hdisk := hM.sectors _ k hM.root.1 hk
    rw [hM.root.2] at hdisk
    rw [hb.inode _ (hM.seen _ hM.root.1).2]
    exact hdisk
  · exact hh.sectors hM hk

theorem iNo (hM : Mounted t room s₀) (h : DirHeld s₀ d n s) (hrec : (diskInode s₀ n).iNo = n) :
    (s.inode d.inode).iNo = n := by
  rcases h with ⟨rfl, rfl, hb⟩ | ⟨-, hh⟩
  · rw [hb.inode _ (hM.seen _ hM.root.1).2]
    exact hM.root.2
  · exact hh.iNo hrec

theorem old (hM : Mounted t room s₀) (h : DirHeld s₀ d n s) {b : Nat}
    (hb : b ∈ s₀.part.openInodes) : s.Sees t b ∧ (s.inode b).iNo = (s₀.inode b).iNo := by
  rcases h with ⟨-, -, hback⟩ | ⟨-, hh⟩
  · rcases hM.seen b hb with ⟨hsees, hlt⟩
    rw [Fs.Sees, hback.home b hlt, hback.inode b hlt]
    exact ⟨hsees, rfl⟩
  · exact hh.old hM hb

theorem mounted (hM : Mounted t (room + 1) s₀) (h : DirHeld s₀ d n s)
    (hrec : (diskInode s₀ n).iNo = n) : Mounted t room s := by
  rcases h with ⟨-, -, hb⟩ | ⟨-, hh⟩
  · exact hb.mounted hM.less
  · exact hh.mounted hM hrec

theorem back {s' : Fs} (hM : Mounted t room s₀) (h : DirHeld s₀ d n s) (hb : Back s s') :
    DirHeld s₀ d n s' := by
  rcases h with ⟨hd, hn, hb'⟩ | ⟨hd, hh⟩
  · exact Or.inl ⟨hd, hn, hb'.trans hb⟩
  · exact Or.inr ⟨hd, hh.back hM hb⟩

end DirHeld

section Directories

variable {s₀ s : Fs} {d : Dir} {n t room : Nat}

theorem run_dirOpen (hM : Mounted t room s₀) (hm : Memory s₀) (hb : Back s₀ s) (hn : n < 4096) :
    ∃ d s', (dirOpen t n).run s = .ok (d, s') ∧ DirHeld s₀ d n s' := by
  rcases run_inodeOpen hM hm hb hn with ⟨a, s', hrun, hheld⟩
  rw [dirOpen, run_bind_of (hb.beside.memory hm).run_mallocUnchecked, run_bind_of hrun]
  exact ⟨_, _, rfl, Or.inr ⟨rfl, hheld⟩⟩

theorem run_dirClose (hM : Mounted t room s₀) (h : DirHeld s₀ d n s) :
    ∃ s', (dirClose t d).run s = .ok ((), s') ∧ Back s₀ s' := by
  rcases h with ⟨rfl, -, hb⟩ | ⟨hd, hh⟩
  · exact ⟨s, rfl, hb⟩
  · rw [dirClose, if_neg (by rw [hd]; exact Bool.false_ne_true)]
    exact run_inodeClose hM hh

/-- The blocks of a directory through an inode in memory that agrees with its
    record. -/
theorem run_readAllBlocks {i : Inode} (hs : Beside s₀ s)
    (hsec : ∀ k, k < 13 → i.iSectors k = (diskInode s₀ n).iSectors k)
    (htable : (diskInode s₀ n).iSectors 12 ≤ maxLba) :
    (readAllBlocks i).run s = .ok (dirBlocks s₀ n, s) := by
  have hdirect : ∀ table, allBlocks i table = allBlocks (diskInode s₀ n) table := by
    intro table
    funext k
    rw [allBlocks, allBlocks]
    by_cases hk : k < 12
    · rw [if_pos hk, if_pos hk, hsec k (by omega)]
    · rw [if_neg hk, if_neg hk]
  rw [readAllBlocks, hsec 12 (by omega), dirBlocks]
  by_cases h12 : (diskInode s₀ n).iSectors 12 ≠ 0
  · rw [if_pos h12, if_pos h12, run_bind_of (run_ideRead htable (by omega) s), run_pure, hdirect,
      hs.disk]
  · rw [if_neg h12, if_neg h12, run_pure, hdirect]

end Directories

section LookUp

variable {s₀ s : Fs} {name : Str}

theorem findEntry_first (buf : Nat → Byte) (name : Str) :
    FirstFrom (fun j => strEq buf (dirEntrySize * j) name = true) (findEntry buf name) :=
  ⟨fun _ => rfl, fun _ _ h => if_pos h, fun _ _ h => if_neg h⟩

/-- What `search_dir_entry` returns for a name in directory `d`: an entry with
    the name, or nothing where there is none. -/
def LookedUp (s : Fs) (d : Nat) (name : Str) : Option DirEntry → Prop
  | none => ∀ k j, EntryAt s d k j → entryName (dirEntryAt s d k j) ≠ some name
  | some e => ∃ k j, EntryAt s d k j ∧ e = dirEntryAt s d k j ∧
      entryName (dirEntryAt s d k j) = some name

/-- The loop over the blocks, from block `k₀` on. -/
theorem run_searchBlocks {d : Nat} (hs : Beside s₀ s) (h0 : (0 : Byte) ∉ name)
    (hlen : name.length < 16) (hblocks : ∀ k, k < 140 → dirBlocks s₀ d k ≤ maxLba) {n k₀ : Nat}
    (hn : k₀ + n = 140)
    (hbefore : ∀ k j, k < k₀ → EntryAt s₀ d k j → entryName (dirEntryAt s₀ d k j) ≠ some name) :
    ∃ found, (searchBlocks (dirBlocks s₀ d) name n k₀).run s = .ok (found, s) ∧
      LookedUp s₀ d name found := by
  induction n generalizing k₀ with
  | zero =>
      refine ⟨none, rfl, fun k j he => hbefore k j ?_ he⟩
      have := he.block
      omega
  | succ n ih =>
      -- If the name is not in this block, what is before the next one is known.
      have hnext : (∀ j, EntryAt s₀ d k₀ j → entryName (dirEntryAt s₀ d k₀ j) ≠ some name) →
          ∃ found, (searchBlocks (dirBlocks s₀ d) name n (k₀ + 1)).run s = .ok (found, s) ∧
            LookedUp s₀ d name found := by
        intro hhere
        refine ih (by omega) (fun k j hk he => ?_)
        by_cases hkk : k = k₀
        · rw [hkk] at he ⊢
          exact hhere j he
        · exact hbefore k j (by omega) he
      rw [searchBlocks]
      by_cases hz : dirBlocks s₀ d k₀ = 0
      · rw [if_pos hz]
        exact hnext (fun j he => absurd hz he.there)
      · rw [if_neg hz, run_bind_of (run_ideRead (hblocks k₀ (by omega)) (by omega) s), hs.disk]
        have hfirst := findEntry_first (sectors s₀.disk (dirBlocks s₀ d k₀) 1) name
        cases hfind : findEntry (sectors s₀.disk (dirBlocks s₀ d k₀) 1) name entriesPerSec 0 with
        | none =>
            refine hnext (fun j he hname => ?_)
            have hj := he.entry
            exact hfirst.of_none hfind (Nat.zero_le j) (by omega)
              ((entryName_iff_strEq h0 hlen).mp hname)
        | some j =>
            rcases hfirst.of_some hfind with ⟨-, hj, heq⟩
            exact ⟨some _, rfl, k₀, j, ⟨by omega, by omega, hz⟩, rfl,
              (entryName_iff_strEq h0 hlen).mpr heq⟩

theorem run_sbDirEntrySize (h : s.part.sb.dirEntrySize = dirEntrySize) :
    sbDirEntrySize.run s = .ok (dirEntrySize, s) := by
  rw [sbDirEntrySize, run_bind_of (run_read _ s), run_bind_of (run_check_pos h s), run_pure, h]

/-- `search_dir_entry` looks a name up. -/
theorem searchDirEntry_looks_up {t room n : Nat} {d : Dir} (hM : Mounted t room s₀) (hm : Memory s₀)
    (T : DirTree s₀) (hn : IsDir s₀ n) (h : DirHeld s₀ d n s) (h0 : (0 : Byte) ∉ name)
    (hlen : name.length < 16) :
    ∃ found, (searchDirEntry t d name).run s = .ok (found, s) ∧ LookedUp s₀ n name found := by
  have hs := h.beside
  have hmem := hs.memory hm
  have hsize : s.part.sb.dirEntrySize = dirEntrySize := hs.sb ▸ hM.entrySize
  rw [searchDirEntry, run_bind_of hmem.run_malloc, if_pos rfl, run_bind_of (run_inodeAt (h.sees hM)),
    run_bind_of (run_readAllBlocks hs (fun _ hk => h.sectors hM hk) (T.table n hn)),
    run_bind_of hmem.run_mallocUnchecked, run_bind_of (run_sbDirEntrySize hsize)]
  exact run_searchBlocks hs h0 hlen (fun k hk => T.blocks n k hn hk) rfl
    (fun k _ hk => absurd hk (Nat.not_lt_zero k))

theorem LookedUp.absent {d : Nat} (h : LookedUp s d name none) : (diskTree s).Absent d name := by
  constructor
  · rintro n ⟨-, k, j, he, hname, -, -⟩
    exact h k j he hname
  · rintro n ⟨-, k, j, he, hname, -, -⟩
    exact h k j he hname

/-- A free entry has no name. -/
theorem entryName_of_zero {e : DirEntry} (h : e.filename 0 = 0) (hname : entryName e = some name) :
    name = [] := by
  have hbytes : (List.range 16).map e.filename =
      e.filename 0 :: ((List.range 15).map (fun k => e.filename (k + 1))) := rfl
  rw [entryName, hbytes, h, if_pos List.mem_cons_self, Option.some.injEq,
    List.takeWhile_cons_of_neg (by decide)] at hname
  exact hname.symm

/-- What has been found is a directory of the tree or a file. -/
theorem LookedUp.found {d : Nat} {e : DirEntry} (h : LookedUp s d name (some e)) (T : DirTree s)
    (hd : IsDir s d) (hne : name ≠ []) :
    (e.fType = .directory ∧ (diskTree s).dir d name e.iNo ∧ IsDir s e.iNo) ∨
      (e.fType = .regular ∧ (diskTree s).file d name e.iNo) := by
  rcases h with ⟨k, j, he, rfl, hname⟩
  have hused : (dirEntryAt s d k j).fType ≠ .unknown := by
    intro hfree
    exact hne (entryName_of_zero (T.free d k j hd he hfree).1 hname)
  rcases (T.named d k j hd he hused).kind with hty | hty
  · exact Or.inl ⟨hty, ⟨hd, k, j, he, hname, hty, rfl⟩, T.isDir_of_entry hd he hty⟩
  · exact Or.inr ⟨hty, hd, k, j, he, hname, hty, rfl⟩

end LookUp

/-- What `search_file` returns when following the components `ks` stops in
    this way. The record has the components that have been looked up. -/
def Searched (s₀ : Fs) (ks : List Str) (n : Nat) (r : PathSearchRecord) (s : Fs) :
    NameTree.Outcome Nat Str → Prop
  | .dir d => n = d ∧ r.fileType = .directory ∧ ∃ m, IsDir s₀ m ∧ DirHeld s₀ r.parentDir m s
  | .file d m rest => n = m ∧ r.fileType = .regular ∧ DirHeld s₀ r.parentDir d s ∧
      ∃ done name, ks = done ++ name :: rest ∧ r.searchedPath = joined (done ++ [name])
  | .missing d name rest => n = minusOne ∧ r.fileType = .unknown ∧ DirHeld s₀ r.parentDir d s ∧
      ∃ done, ks = done ++ name :: rest ∧ r.searchedPath = joined (done ++ [name])

/-- Components that fit the arrays of the code. -/
structure Fitting (ks : List Str) : Prop where
  short : ∀ k, k ∈ ks → k.length ≤ 15
  noNul : ∀ k, k ∈ ks → (0 : Byte) ∉ k
  joined : (joined ks).length < maxPathLen

/-- An absolute path that fits the arrays of the code. -/
structure PathFits (p : Str) : Prop where
  head : p.head? = some slash
  length : p.length < maxPathLen
  short : ∀ k, k ∈ components p → k.length ≤ 15
  noNul : (0 : Byte) ∉ p

theorem PathFits.fitting {p : Str} (h : PathFits p) : Fitting (components p) :=
  ⟨h.short, fun _ hk h0 => h.noNul ((mem_components hk).2.2 h0),
    Nat.lt_of_le_of_lt (length_joined_components h.head) h.length⟩

section Loop

variable {s₀ s : Fs} {t room : Nat} {ks : List Str}

theorem length_joined_append (ks ls : List Str) :
    (joined (ks ++ ls)).length = (joined ks).length + (joined ls).length := by
  rw [joined, joined, joined, List.flatMap_append, List.length_append]

/-- `search_file` where the last component was a directory. -/
theorem run_searchFound (ks : List Str) {n m : Nat} {r : PathSearchRecord} (hM : Mounted t room s₀)
    (hm : Memory s₀) (T : DirTree s₀) (hr : DirHeld s₀ r.parentDir n s) (hdir : IsDir s₀ m) :
    ∃ r' s', (searchFound t n m r).run s = .ok ((n, r'), s') ∧ Searched s₀ ks n r' s' (.dir n) := by
  rcases run_dirClose hM hr with ⟨s₁, hclose, hb⟩
  rcases run_dirOpen hM hm hb (T.number hdir) with ⟨d, s₂, hopen, hheld⟩
  rw [searchFound, run_bind_of hclose, run_bind_of hopen]
  exact ⟨_, _, rfl, rfl, rfl, m, hdir, hheld⟩

/-- The next component fits the array it is copied to. -/
theorem length_pathNext (sub : Option Str)
    (h : ∀ k, k ∈ components (sub.getD []) → k.length ≤ 15) : (pathNext sub).1.length ≤ 15 := by
  by_cases hnil : (pathNext sub).1 = []
  · rw [hnil]
    exact Nat.zero_le _
  · refine h _ ?_
    rw [← remaining_pathNext, remaining, if_neg hnil]
    exact List.mem_cons_self

/-- The loop of `search_file` in directory `cur`, with `done` behind it. The
    number it carries is that of the directory once it has seen a component. -/
theorem run_searchLoop (hM : Mounted t room s₀) (hm : Memory s₀) (T : DirTree s₀) (hks : Fitting ks)
    {fuel inodeNo parentNo cur : Nat} {name : Str} {sub : Option Str} {r : PathSearchRecord}
    (done : List Str) {o : NameTree.Outcome Nat Str}
    (hfuel : (remaining name sub).length < fuel) (hsplit : ks = done ++ remaining name sub)
    (hdone : r.searchedPath = joined done) (hty : r.fileType = .unknown)
    (hcur : IsDir s₀ cur) (hheld : DirHeld s₀ r.parentDir cur s) (hparent : IsDir s₀ parentNo)
    (hno : remaining name sub = [] → inodeNo = cur)
    (ho : (diskTree s₀).Follows cur (remaining name sub) o) :
    ∃ n r' s', (searchLoop t fuel name sub inodeNo parentNo r).run s = .ok ((n, r'), s') ∧
      Searched s₀ ks n r' s' o := by
  -- The induction is on the fuel, with the components done and to come.
  induction fuel generalizing inodeNo parentNo cur name sub r done s with
  | zero => exact absurd hfuel (Nat.not_lt_zero _)
  | succ fuel ih =>
      rw [searchLoop]
      by_cases hname : name = []
      · have hnil : remaining name sub = [] := if_pos hname
        have hshort : name.length < maxFileNameLen := by
          rw [hname]
          decide
        rw [run_bind_of (run_check_pos hshort s), if_pos hname]
        rw [hnil] at ho
        cases ho
        rw [hno hnil]
        rcases run_searchFound ks hM hm T hheld hparent with ⟨r', s', hrun, hres⟩
        exact ⟨_, r', s', hrun, hres⟩
      · have hcons : remaining name sub = name :: components (sub.getD []) := if_neg hname
        rw [hcons] at hfuel hsplit ho
        have hmem : ∀ k, k ∈ name :: components (sub.getD []) → k ∈ ks := by
          intro k hk
          rw [hsplit]
          exact List.mem_append_right _ hk
        have hlen := hks.short name (hmem name List.mem_cons_self)
        have hnul := hks.noNul name (hmem name List.mem_cons_self)
        have hshort : name.length < maxFileNameLen := Nat.lt_succ_of_le hlen
        have hpath : r.searchedPath.length < 512 := by
          have hjoined := hks.joined
          have hmax : maxPathLen = 512 := rfl
          rw [hsplit, length_joined_append] at hjoined
          rw [hdone]
          omega
        rw [run_bind_of (run_check_pos hshort s), if_neg hname, run_bind_of (run_assert hpath s)]
        rcases searchDirEntry_looks_up hM hm T hcur hheld hnul (by omega) with
          ⟨found, hrun, hfound⟩
        rw [run_bind_of hrun]
        have hjoin : r.searchedPath ++ slash :: name = joined (done ++ [name]) := by
          rw [joined_append, hdone]
        cases found with
        | none =>
            -- The component is missing, and so is the rest of the path.
            rw [ho.unique T.deterministic (.missing _ hfound.absent)]
            exact ⟨_, _, _, rfl, rfl, hty, hheld, done, hsplit, hjoin⟩
        | some e =>
            have hnext := length_pathNext sub
              (fun k hk => hks.short k (hmem k (List.mem_cons_of_mem _ hk)))
            have hfit : (pathNext sub).1.length ≤ maxFileNameLen := Nat.le_succ_of_le hnext
            dsimp only
            rw [run_bind_of (run_check_pos hfit s)]
            rcases hfound.found T hcur hname with ⟨hdirty, hdir, hisdir⟩ | ⟨hregty, hfile⟩
            · -- A directory: the one before is closed, and the loop goes on in this one.
              rcases run_dirClose hM hheld with ⟨s₁, hclose, hb⟩
              rcases run_dirOpen hM hm hb (T.number hisdir) with ⟨d, s₂, hopen, hheld₂⟩
              rw [if_pos hdirty, run_bind_of (run_inodeAt (hheld.sees hM)), run_bind_of hclose,
                run_bind_of hopen]
              have hcurno := hheld.iNo hM (T.record cur hcur)
              rw [hcurno]
              refine ih (done ++ [name]) ?_ ?_ hjoin hty hisdir hheld₂ hcur (fun _ => rfl) ?_
              · rw [remaining_pathNext]
                exact Nat.lt_of_succ_lt_succ hfuel
              · rw [remaining_pathNext, List.append_assoc, List.singleton_append]
                exact hsplit
              · rw [remaining_pathNext]
                exact ho.tail T.deterministic hdir
            · -- A file ends the search, whatever comes behind it.
              have hnotdir : e.fType ≠ .directory := by
                rw [hregty]
                exact FileType.noConfusion
              rw [if_neg hnotdir, if_pos hregty, ho.unique T.deterministic (.file _ hfile)]
              exact ⟨_, _, _, rfl, rfl, rfl, hheld, done, name, hsplit, hjoin⟩

end Loop

section SearchFile

variable {s₀ s : Fs} {t room : Nat} {p : Str}

/-- `"/."` and `"/.."` lead to the root. -/
theorem follows_root_of_dots (T : DirTree s)
    (hp : p = [slash] ∨ p = slash :: dotName ∨ p = slash :: dotdotName) :
    (diskTree s).Follows 0 (components p) (.dir 0) := by
  have hroot := isDir_root s
  have hat : ∀ j, j < entriesPerSec → EntryAt s 0 0 j :=
    fun j hj => ⟨by decide, hj, (T.first 0 hroot).1⟩
  rcases hp with rfl | rfl | rfl
  · exact .nil 0
  · rcases T.dot 0 hroot with ⟨hname, hty, hno⟩
    have hdir : (diskTree s).dir 0 dotName 0 :=
      ⟨hroot, 0, 0, hat 0 (by decide), hname, hty, hno⟩
    exact .dir hdir (.nil 0)
  · rcases T.dotdot 0 hroot with ⟨hname, hty⟩
    have hdir : (diskTree s).dir 0 dotdotName 0 :=
      ⟨hroot, 0, 1, hat 1 (by decide), hname, hty, T.rootUp⟩
    exact .dir hdir (.nil 0)

/-- The depth of the record of a search. -/
theorem run_pathDepthCnt_joined (s : Fs) {done rest : List Str} {name : Str} (hp : PathFits p)
    (hks : components p = done ++ name :: rest) :
    (pathDepthCnt (joined (done ++ [name]))).run s =
      .ok (done.length + 1, { s with junk := fun i => s.junk (i + 1) }) := by
  have hmem : ∀ k, k ∈ done ++ [name] → k ∈ components p := by
    intro k hk
    rw [hks, List.mem_append, List.mem_cons]
    rcases List.mem_append.mp hk with h | h
    · exact Or.inl h
    · exact Or.inr (Or.inl (List.mem_singleton.mp h))
  have hcomp : components (joined (done ++ [name])) = done ++ [name] :=
    components_joined (fun k hk => ⟨(mem_components (hmem k hk)).1, (mem_components (hmem k hk)).2.1⟩)
  rw [run_pathDepthCnt s, hcomp, List.length_append, List.length_singleton]
  · rw [hcomp]
    exact List.append_ne_nil_of_right_ne_nil _ (List.cons_ne_nil _ _)
  · rw [hcomp]
    intro k hk
    exact Nat.le_succ_of_le (hp.short k (hmem k hk))

/-- `search_file` follows the path. -/
theorem searchFile_follows (hM : Mounted t room s₀) (hm : Memory s₀) (T : DirTree s₀) (hp : PathFits p)
    (hne : p = [slash] ∨ components p ≠ []) (hb : Back s₀ s) {o : NameTree.Outcome Nat Str}
    (ho : (diskTree s₀).Follows 0 (components p) o) :
    ∃ n r s', (searchFile t p).run s = .ok ((n, r), s') ∧ Searched s₀ (components p) n r s' o := by
  have hroot : s.rootDir = s₀.rootDir := by rw [hb.beside]
  rw [searchFile, rootDir, run_bind_of (run_read _ s), hroot]
  by_cases hdots : p = [slash] ∨ p = slash :: dotName ∨ p = slash :: dotdotName
  · rw [if_pos hdots, ho.unique T.deterministic (follows_root_of_dots T hdots)]
    exact ⟨_, _, _, rfl, rfl, rfl, 0, isDir_root s₀, .root hb⟩
  · have hsome : components p ≠ [] := hne.resolve_left (fun h => hdots (Or.inl h))
    -- A path with a component has a byte behind the slash.
    have hlong : 1 < p.length := by
      cases p with
      | nil => exact absurd rfl hsome
      | cons c y =>
          cases y with
          | nil =>
              have hc := hp.head
              rw [List.head?_cons, Option.some.injEq] at hc
              exact absurd (Or.inl (congrArg (fun c => [c]) hc)) hdots
          | cons _ _ =>
              rw [List.length_cons, List.length_cons]
              omega
    have hparse := remaining_pathParse p
    rw [if_neg hdots, run_bind_of (run_assert ⟨hp.head, hlong, hp.length⟩ s),
      run_bind_of (run_unset s)]
    dsimp only
    refine run_searchLoop hM hm T hp.fitting [] ?_ ?_ rfl rfl (isDir_root s₀)
      (.root (hb.junk _)) (isDir_root s₀) ?_ ?_
    · rw [hparse]
      have := length_le_joined (components p)
      have := length_joined_le p
      omega
    · rw [hparse]
      rfl
    · intro hnil
      exact absurd (hparse.symm.trans hnil) hsome
    · rw [hparse]
      exact ho

end SearchFile

section SmallTree

variable {d k j : Nat}

/-- Both directories have one block. -/
theorem smallTree_block (hd : d = 0 ∨ d = 1) (h : dirBlocks smallTree d k ≠ 0) : k = 0 := by
  by_contra hk
  refine h ?_
  have hd2 : d < 2 := by omega
  have h12 : (diskInode smallTree d).iSectors 12 = 0 :=
    smallTree_facts.oneBlock ⟨d, hd2⟩ ⟨12, by omega⟩ (show 1 ≤ 12 by omega)
  rw [dirBlocks, h12, if_neg (not_not.mpr rfl), allBlocks]
  by_cases hlt : k < 12
  · rw [if_pos hlt]
    exact smallTree_facts.oneBlock ⟨d, hd2⟩ ⟨k, by omega⟩ (Nat.one_le_iff_ne_zero.mpr hk)
  · rw [if_neg hlt]

/-- Behind the two first entries there are only `d` and `f`. -/
theorem smallTree_used (hd : d = 0 ∨ d = 1) (hj : j < entriesPerSec) (h2 : 2 ≤ j)
    (h : (dirEntryAt smallTree d 0 j).fType ≠ .unknown) : d = 0 ∧ (j = 2 ∨ j = 3) := by
  have hd2 : d < 2 := by omega
  rcases smallTree_facts.used ⟨d, hd2⟩ ⟨j, hj⟩ h2 h with ⟨h0, h3⟩
  exact ⟨congrArg Fin.val h0, h3.imp (congrArg Fin.val) (congrArg Fin.val)⟩

theorem smallTree_child (hd : d = 0 ∨ d = 1) (h : IsChild smallTree d k j) :
    d = 0 ∧ k = 0 ∧ (j = 2 ∨ j = 3) := by
  have hk := smallTree_block hd h.there
  have hb := h.behind
  have hu := h.used
  rw [hk] at hu
  rcases smallTree_used hd h.entry (by omega) hu with ⟨h0, h23⟩
  exact ⟨h0, hk, h23⟩

theorem smallTree_isDir (h : IsDir smallTree d) : d = 0 ∨ d = 1 := by
  rcases h with ⟨ks, hc⟩
  induction hc with
  | root => exact Or.inl rfl
  | child _ hchild hty _ ih =>
      rcases smallTree_child ih hchild with ⟨rfl, rfl, rfl | rfl⟩
      · exact Or.inr smallTree_facts.dir.2.2
      · rw [smallTree_facts.file.2.1] at hty
        cases hty

/-- An entry that is in use names a file or a directory. -/
theorem smallTree_named (hd : d = 0 ∨ d = 1) (hj : j < entriesPerSec)
    (h : (dirEntryAt smallTree d 0 j).fType ≠ .unknown) :
    NamedEntry (dirEntryAt smallTree d 0 j) := by
  have hd2 : d < 2 := by omega
  by_cases h2 : 2 ≤ j
  · rcases smallTree_used hd hj h2 h with ⟨rfl, rfl | rfl⟩
    · rcases smallTree_facts.dir with ⟨hname, hty, hno⟩
      exact ⟨Or.inl hty, by omega, _, hname, by decide, by decide⟩
    · rcases smallTree_facts.file with ⟨hname, hty, hno⟩
      exact ⟨Or.inr hty, by omega, _, hname, by decide, by decide⟩
  · have hj01 : j = 0 ∨ j = 1 := by omega
    rcases hj01 with rfl | rfl
    · rcases smallTree_facts.dot ⟨d, hd2⟩ with ⟨hname, hty, hno⟩
      dsimp only at hno
      exact ⟨Or.inl hty, by omega, _, hname, by decide, by decide⟩
    · rcases smallTree_facts.dotdot ⟨d, hd2⟩ with ⟨hname, hty, hno⟩
      dsimp only at hno
      exact ⟨Or.inl hty, by omega, _, hname, by decide, by decide⟩

/-- The small tree is well-formed. -/
theorem smallTree_wf : DirTree smallTree where
  -- The tree has two directories, and every fact is read off one of the evaluated tables.
  record d hd := by
    have := smallTree_isDir hd
    exact smallTree_facts.record ⟨d, by omega⟩
  table d hd := by
    have := smallTree_isDir hd
    have h12 : (diskInode smallTree d).iSectors 12 = 0 :=
      smallTree_facts.oneBlock ⟨d, by omega⟩ ⟨12, by omega⟩ (show 1 ≤ 12 by omega)
    rw [h12]
    exact Nat.zero_le _
  blocks d k hd hk := by
    have := smallTree_isDir hd
    by_cases hz : dirBlocks smallTree d k = 0
    · rw [hz]
      exact Nat.zero_le _
    · rw [smallTree_block this hz]
      exact (smallTree_facts.block ⟨d, by omega⟩).1
  first d hd := by
    have := smallTree_isDir hd
    exact (smallTree_facts.block ⟨d, by omega⟩).2
  dot d hd := by
    have := smallTree_isDir hd
    exact smallTree_facts.dot ⟨d, by omega⟩
  dotdot d hd := by
    have := smallTree_isDir hd
    have hup := smallTree_facts.dotdot ⟨d, by omega⟩
    exact ⟨hup.1, hup.2.1⟩
  rootUp := (smallTree_facts.dotdot 0).2.2
  -- The only children are the directory and the file of the root.
  notRoot d k j hd hchild := by
    rcases smallTree_child (smallTree_isDir hd) hchild with ⟨rfl, rfl, rfl | rfl⟩
    · rw [smallTree_facts.dir.2.2]
      exact Nat.one_ne_zero
    · rw [smallTree_facts.file.2.2]
      exact Nat.succ_ne_zero 1
  up d k j hd hchild hty := by
    rcases smallTree_child (smallTree_isDir hd) hchild with ⟨rfl, rfl, rfl | rfl⟩
    · rw [smallTree_facts.dir.2.2]
      exact (smallTree_facts.dotdot 1).2.2
    · rw [smallTree_facts.file.2.1] at hty
      cases hty
  free d k j hd he hty := by
    have hd' := smallTree_isDir hd
    rw [smallTree_block hd' he.there] at hty ⊢
    exact smallTree_facts.free ⟨d, by omega⟩ ⟨j, he.entry⟩ hty
  named d k j hd he hty := by
    have hd' := smallTree_isDir hd
    rw [smallTree_block hd' he.there] at hty ⊢
    exact smallTree_named hd' he.entry hty
  nameOnce d k j k' j' hd he he' hty hname := by
    have hd' := smallTree_isDir hd
    have hk := smallTree_block hd' he.there
    have hk' := smallTree_block hd' he'.there
    rw [hk] at hty
    rw [hk, hk'] at hname
    exact ⟨hk'.trans hk.symm, congrArg Fin.val
      (smallTree_facts.once ⟨d, by omega⟩ ⟨j, he.entry⟩ ⟨j', he'.entry⟩ hty hname)⟩
  numberOnce d k j d' k' j' hd hd' hchild hchild' hno := by
    rcases smallTree_child (smallTree_isDir hd) hchild with ⟨rfl, rfl, hj⟩
    rcases smallTree_child (smallTree_isDir hd') hchild' with ⟨rfl, rfl, hj'⟩
    have hdir := smallTree_facts.dir.2.2
    have hfile := smallTree_facts.file.2.2
    -- Two children of the same number are the same entry, for the numbers are 1 and 2.
    rcases hj with rfl | rfl <;> rcases hj' with rfl | rfl
    · exact ⟨rfl, rfl, rfl⟩
    · omega
    · omega
    · exact ⟨rfl, rfl, rfl⟩

/-- Its memory is in order. -/
theorem smallTree_mounted (t : Nat) : Mounted t 1 smallTree where
  table := ⟨by decide, by decide⟩
  entrySize := rfl
  seen a ha := by
    rw [List.mem_singleton.mp ha]
    exact ⟨Or.inl rfl, by decide⟩
  count a ha := by
    rw [List.mem_singleton.mp ha]
    decide
  size a ha := by
    rw [List.mem_singleton.mp ha]
    exact smallTree_facts.rootSize
  sectors a k ha hk := by
    rw [List.mem_singleton.mp ha]
    exact smallTree_facts.rootSectors ⟨k, hk⟩
  root := ⟨List.mem_singleton.mpr rfl, rfl⟩
  files g a _ h := by cases h

theorem smallTree_memory : Memory smallTree := fun _ => rfl

/-- What memory answers and what is on the stack does not matter for the
    order. -/
theorem Mounted.answers {s : Fs} {t room : Nat} (h : Mounted t room s) (m : Nat → Bool)
    (i : Nat → Nat) : Mounted t room { s with mallocs := m, junk := i } :=
  ⟨h.table, h.entrySize, h.seen, h.count, h.size, h.sectors, h.root, h.files⟩

/-- The path of the file `f`. -/
def pathF : Str := [0x2f, 0x66]

theorem components_pathF : components pathF = [[0x66]] := by decide

theorem pathF_fits : PathFits pathF := by
  refine ⟨rfl, by decide, ?_, by decide⟩
  rw [components_pathF]
  decide

/-- The first block of a directory has its entries. -/
theorem smallTree_entryAt {d : Nat} (hd : d = 0 ∨ d = 1) (hj : j < entriesPerSec) :
    EntryAt smallTree d 0 j :=
  ⟨by decide, hj, (smallTree_facts.block ⟨d, by omega⟩).2.1⟩

/-- The root directory has the file `f`. -/
theorem smallTree_file : (diskTree smallTree).file 0 [0x66] 2 := by
  have hat : EntryAt smallTree 0 0 3 := smallTree_entryAt (Or.inl rfl) (by decide)
  exact ⟨isDir_root _, 0, 3, hat, smallTree_facts.file⟩

theorem smallTree_pathF : (diskTree smallTree).WalksToFile 0 (components pathF) 2 := by
  rw [components_pathF]
  exact ⟨[], _, 0, rfl, .nil 0, smallTree_file⟩

/-- `"/d"`, a directory of the small tree. -/
def pathDir : Str := [0x2f, 0x64]

/-- `"/d/.././/d"`, the same directory. -/
def pathDirDots : Str := [0x2f, 0x64, 0x2f, 0x2e, 0x2e, 0x2f, 0x2e, 0x2f, 0x2f, 0x64]

/-- The canonical path of the directory is `"/d"`. -/
theorem smallTree_canonical : Canonical smallTree 1 [[0x64]] := by
  rcases smallTree_facts.dir with ⟨hname, hty, hno⟩
  have hat : EntryAt smallTree 0 0 2 := smallTree_entryAt (Or.inl rfl) (by decide)
  have hused : (dirEntryAt smallTree 0 0 2).fType ≠ .unknown := by
    rw [hty]
    exact FileType.noConfusion
  have hc := Canonical.child .root ⟨hat, by omega, hused⟩ hty hname
  rwa [hno] at hc

theorem smallTree_dir : (diskTree smallTree).dir 0 [0x64] 1 := by
  have hat : EntryAt smallTree 0 0 2 := smallTree_entryAt (Or.inl rfl) (by decide)
  exact ⟨isDir_root _, 0, 2, hat, smallTree_facts.dir⟩

theorem smallTree_up : (diskTree smallTree).dir 1 dotdotName 0 := by
  have hat : EntryAt smallTree 1 0 1 := smallTree_entryAt (Or.inr rfl) (by decide)
  exact ⟨⟨_, smallTree_canonical⟩, 0, 1, hat, smallTree_facts.dotdot 1⟩

theorem smallTree_self : (diskTree smallTree).dir 0 dotName 0 := by
  have hat : EntryAt smallTree 0 0 0 := smallTree_entryAt (Or.inl rfl) (by decide)
  exact ⟨isDir_root _, 0, 0, hat, smallTree_facts.dot 0⟩

theorem smallTree_pathDirDots : (diskTree smallTree).Walks 0 (components pathDirDots) 1 := by
  have hcomp : components pathDirDots = [[0x64], dotdotName, dotName, [0x64]] := by decide
  rw [hcomp]
  exact .cons smallTree_dir (.cons smallTree_up (.cons smallTree_self (.cons smallTree_dir (.nil 1))))

/-- What a call returns. -/
def resultOf {α : Type} (r : Except FsFault (α × Fs)) : Option α := r.toOption.map Prod.fst

end SmallTree

end ForikOS
