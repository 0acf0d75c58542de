import ForikOS.Theory.DirTree
import ForikOS.Theory.OutOfSpace
import ForikOS.Theory.Writers

/-!
# An Open That Fails

What `sys_open` leaves behind when it returns `-1`.

The path is followed with one directory open at a time, and every way out
before the file is opened or created closes that directory: the list of open
inodes, the counts in it and everything else is as before. `Lent` is what holds
in between, one more holder of one inode.

`file_open` does not give anything back. It takes a slot of `file_table` first,
so once there is one, neither a file that is open for writing nor a full
`fd_table` leaves `file_table` as it was, and its caller never closes the
directory. `file_create` gives everything back up to the slot, and nothing once
the entry is on the disk.

## Main definitions

* `OpenUnchanged`: Nothing has changed for the caller and on the disk.
* `OpenCounted`: The open inodes have holders.
* `SameCounts`, `Lent`: The list of open inodes as it was, and with one more
  holder.
* `SameTables`: The rest of `OpenUnchanged`.
* `OpenUndone`: A failure that leaves nothing behind.

## Theorems

* `dirOpen_lent`, `dirClose_lent`: One more holder, and one less.
* `searchFile_lent`: A path that has been followed holds its last directory.
* `syncDirEntry_true`: `sync_dir_entry` does not fail.
* `fileCreate_undone`, `fileCreate_changed`: What `file_create` gives back.
* `open_fails_unchanged`: When a failed `sys_open` has changed nothing.
-/

namespace ForikOS

open Prog

/-- The tables, the bitmaps, the disk, the list of open inodes and what it says
    about them are as before. -/
structure OpenUnchanged (t : Nat) (s s' : Fs) : Prop where
  fileTable : s'.fileTable = s.fileTable
  fdTable : s'.fdTable t = s.fdTable t
  openInodes : s'.part.openInodes = s.part.openInodes
  count : ∀ a, a < s.nextInode → (s'.inode a).iOpenCnts = (s.inode a).iOpenCnts
  deny : ∀ a, a < s.nextInode → (s'.inode a).writeDeny = (s.inode a).writeDeny
  blockBitmap : s'.part.blockBitmap = s.part.blockBitmap
  inodeBitmap : s'.part.inodeBitmap = s.part.inodeBitmap
  disk : s'.disk = s.disk

/-- Every open inode is there, and has a holder. -/
structure OpenCounted (s : Fs) : Prop where
  there : ∀ a, a ∈ s.part.openInodes → a < s.nextInode
  count : ∀ a, a ∈ s.part.openInodes →
    0 < (s.inode a).iOpenCnts ∧ (s.inode a).iOpenCnts < 2 ^ 32

/-- The list of open inodes and the counts are what they were. -/
structure SameCounts (s₀ s : Fs) : Prop where
  next : s₀.nextInode ≤ s.nextInode
  list : s.part.openInodes = s₀.part.openInodes
  count : ∀ a, a < s₀.nextInode → (s.inode a).iOpenCnts = (s₀.inode a).iOpenCnts

/-- The inode at `a` is open once more: it is the first of the list, and was not
    there before, or its count is one larger. -/
structure Lent (a : Nat) (s₀ s : Fs) : Prop where
  next : s₀.nextInode ≤ s.nextInode
  count : ∀ b, b < s₀.nextInode → b ≠ a → (s.inode b).iOpenCnts = (s₀.inode b).iOpenCnts
  lent : (a ∈ s₀.part.openInodes ∧ s.part.openInodes = s₀.part.openInodes ∧
      (s.inode a).iOpenCnts = add32 (s₀.inode a).iOpenCnts 1) ∨
    (s₀.nextInode ≤ a ∧ a < s.nextInode ∧ s.part.openInodes = a :: s₀.part.openInodes ∧
      (s.inode a).iOpenCnts = 1)

/-- The same for a directory handle; `root_dir` is not a handle. -/
def LentDir (d : Dir) (s₀ s : Fs) : Prop :=
  if d.isRoot = true then SameCounts s₀ s else Lent d.inode s₀ s

section Counts

variable {s₀ s s' : Fs} {t : Nat}

theorem SameCounts.refl (s : Fs) : SameCounts s s := ⟨Nat.le_refl _, rfl, fun _ _ => rfl⟩

theorem Quiet.same {s s' : Fs} (h : Quiet s s') : SameCounts s s' := by
  unfold Quiet at h
  rw [h]
  exact ⟨Nat.le_refl _, rfl, fun _ _ => rfl⟩

theorem SameCounts.trans (h : SameCounts s₀ s) (h' : SameCounts s s') : SameCounts s₀ s' :=
  ⟨Nat.le_trans h.next h'.next, h'.list.trans h.list,
    fun a ha => (h'.count a (Nat.lt_of_lt_of_le ha h.next)).trans (h.count a ha)⟩

theorem Lent.trans {a : Nat} (hc : OpenCounted s₀) (h : Lent a s₀ s) (h' : SameCounts s s') :
    Lent a s₀ s' := by
  refine ⟨Nat.le_trans h.next h'.next,
    fun b hb hne => (h'.count b (Nat.lt_of_lt_of_le hb h.next)).trans (h.count b hb hne), ?_⟩
  rcases h.lent with ⟨ha, hlist, hcnt⟩ | ⟨hge, hlt, hlist, hcnt⟩
  · have hlt := Nat.lt_of_lt_of_le (hc.there a ha) h.next
    exact Or.inl ⟨ha, h'.list.trans hlist, (h'.count a hlt).trans hcnt⟩
  · exact Or.inr ⟨hge, Nat.lt_of_lt_of_le hlt h'.next, h'.list.trans hlist,
      (h'.count a hlt).trans hcnt⟩

theorem LentDir.trans {d : Dir} (hc : OpenCounted s₀) (h : LentDir d s₀ s)
    (h' : SameCounts s s') : LentDir d s₀ s' := by
  unfold LentDir at h ⊢
  by_cases hd : d.isRoot = true
  · rw [if_pos hd] at h ⊢
    exact h.trans h'
  · rw [if_neg hd] at h ⊢
    exact h.trans hc h'

/-- `inode_open` is one more holder. -/
theorem inodeOpen_lent {n a : Nat} (hc : OpenCounted s₀) (h : SameCounts s₀ s)
    (hr : (inodeOpen t n).run s = .ok (a, s')) : Lent a s₀ s' := by
  have hcount : ∀ (i : Inode) b, b ≠ a → (Function.update s.inode a i b).iOpenCnts =
      (s.inode b).iOpenCnts := fun i b hb => by rw [Function.update_of_ne hb]
  rcases run_bind_ok.mp hr with ⟨l, s₁, h₁, k₁⟩
  rcases read_ok h₁ with ⟨rfl, rfl⟩
  rcases run_bind_ok.mp k₁ with ⟨found, s₂, h₂, k₂⟩
  rcases findOpenInode_run h₂ with ⟨rfl, hf⟩
  -- An inode that is open gets one more count, and another one is put in front of the list.
  cases found with
  | some b =>
      rcases run_bind_ok.mp k₂ with ⟨_, s₃, h₃, k₃⟩
      rcases pure_ok k₃ with ⟨rfl, rfl⟩
      rw [setInodeAt_run h₃]
      have ha : a ∈ s₀.part.openInodes := h.list ▸ hf.1
      refine ⟨h.next, fun x hx hne => (hcount _ x hne).trans (h.count x hx),
        Or.inl ⟨ha, h.list, ?_⟩⟩
      show (Function.update s₂.inode a _ a).iOpenCnts = _
      rw [Function.update_self, h.count a (hc.there a ha)]
  | none =>
      rcases inodeFetch_run k₂ with ⟨-, ha, i, -, hi, hq⟩
      unfold Quiet at hq
      have hnext := h.next
      rw [hq]
      refine ⟨?_, fun x hx hne => (hcount i x hne).trans (h.count x hx),
        Or.inr ⟨by omega, Nat.lt_succ_self a, ?_, ?_⟩⟩
      · show s₀.nextInode ≤ a + 1
        omega
      · show a :: s₂.part.openInodes = _
        rw [h.list]
      · show (Function.update s₂.inode a i a).iOpenCnts = 1
        rw [Function.update_self, hi]

/-- `inode_close` is one holder less. -/
theorem inodeClose_lent {a : Nat} {u : Unit} (hc : OpenCounted s₀) (h : Lent a s₀ s)
    (hr : (inodeClose t a).run s = .ok (u, s')) : SameCounts s₀ s' := by
  rcases run_bind_ok.mp hr with ⟨i, s₁, h₁, k₁⟩
  rcases inodeAt_run h₁ with ⟨-, rfl, rfl⟩
  rcases run_bind_ok.mp k₁ with ⟨_, s₂, h₂, k₂⟩
  have hs₂ := setInodeAt_run h₂
  have hcnt : ∀ b, b ≠ a → (s₂.inode b).iOpenCnts = (s₁.inode b).iOpenCnts := by
    intro b hb
    rw [hs₂]
    show (Function.update s₁.inode a _ b).iOpenCnts = _
    rw [Function.update_of_ne hb]
  have hself : (s₂.inode a).iOpenCnts = sub32 (s₁.inode a).iOpenCnts 1 := by
    rw [hs₂]
    show (Function.update s₁.inode a _ a).iOpenCnts = _
    rw [Function.update_self]
  have hlist : s₂.part.openInodes = s₁.part.openInodes := by
    rw [hs₂]
    rfl
  have hnext : s₂.nextInode = s₁.nextInode := by
    rw [hs₂]
    rfl
  rcases h.lent with ⟨ha, hopen, hone⟩ | ⟨hge, hlt, hopen, hone⟩
  · -- Somebody else holds the inode, so the list stays.
    have hpos := hc.count a ha
    have hback : sub32 (s₁.inode a).iOpenCnts 1 = (s₀.inode a).iOpenCnts := by
      rw [hone, sub32, add32]
      omega
    rw [if_neg (by omega)] at k₂
    rcases pure_ok k₂ with ⟨-, rfl⟩
    refine ⟨hnext ▸ h.next, hlist.trans hopen, fun b hb => ?_⟩
    by_cases hba : b = a
    · rw [hba, hself, hback]
    · rw [hcnt b hba, h.count b hb hba]
  · -- It was opened for this call alone, so it is taken off the list again.
    have hzero : sub32 (s₁.inode a).iOpenCnts 1 = 0 := by
      rw [hone]
      rfl
    rw [if_pos hzero] at k₂
    rcases run_bind_ok.mp k₂ with ⟨_, s₃, h₃, k₃⟩
    rcases read_ok h₃ with ⟨-, rfl⟩
    rcases run_bind_ok.mp k₃ with ⟨_, s₄, h₄, k₄⟩
    rcases check_ok h₄ with ⟨-, rfl⟩
    rcases run_bind_ok.mp k₄ with ⟨_, s₅, h₅, k₅⟩
    rcases read_ok h₅ with ⟨-, rfl⟩
    rcases run_bind_ok.mp k₅ with ⟨_, s₆, h₆, k₆⟩
    rcases check_ok h₆ with ⟨-, rfl⟩
    rw [modify_ok k₆]
    refine ⟨?_, ?_, fun b hb => ?_⟩
    · show s₀.nextInode ≤ s₆.nextInode
      rw [hnext]
      exact h.next
    · show s₆.part.openInodes.erase a = _
      rw [hlist, hopen, List.erase_cons_head]
    · have hba : b ≠ a := by omega
      exact (hcnt b hba).trans (h.count b hb hba)

theorem dirOpen_lent {n : Nat} {d : Dir} (hc : OpenCounted s₀) (h : SameCounts s₀ s)
    (hr : (dirOpen t n).run s = .ok (d, s')) : LentDir d s₀ s' := by
  rcases run_bind_ok.mp hr with ⟨_, s₁, h₁, k₁⟩
  rcases run_bind_ok.mp k₁ with ⟨a, s₂, h₂, k₂⟩
  rcases pure_ok k₂ with ⟨rfl, rfl⟩
  exact inodeOpen_lent hc (h.trans (quiet_mallocUnchecked _ _ _ h₁).same) h₂

theorem dirClose_lent {d : Dir} {u : Unit} (hc : OpenCounted s₀) (h : LentDir d s₀ s)
    (hr : (dirClose t d).run s = .ok (u, s')) : SameCounts s₀ s' := by
  unfold LentDir at h
  unfold dirClose at hr
  by_cases hd : d.isRoot = true
  · rw [if_pos hd] at h hr
    rcases pure_ok hr with ⟨-, rfl⟩
    exact h
  · rw [if_neg hd] at h hr
    exact inodeClose_lent hc h hr

/-- A path is followed with one directory open at a time. -/
theorem searchLoop_lent (hc : OpenCounted s₀) {n : Nat} {name : Str} {subPath : Option Str}
    {inodeNo parentNo : Nat} {r : PathSearchRecord} {x : Nat × PathSearchRecord}
    (h : LentDir r.parentDir s₀ s)
    (hr : (searchLoop t n name subPath inodeNo parentNo r).run s = .ok (x, s')) :
    LentDir x.2.parentDir s₀ s' := by
  -- The induction is on the fuel. At each round one directory is lent.
  induction n generalizing name subPath inodeNo parentNo r s with
  | zero => cases hr
  | succ n ih =>
      rcases run_bind_ok.mp hr with ⟨_, s₁, h₁, k₁⟩
      rcases check_ok h₁ with ⟨-, rfl⟩
      by_cases hname : name = []
      · rw [if_pos hname] at k₁
        rcases run_bind_ok.mp k₁ with ⟨_, s₂, h₂, k₂⟩
        rcases run_bind_ok.mp k₂ with ⟨d, s₃, h₃, k₃⟩
        rcases pure_ok k₃ with ⟨rfl, rfl⟩
        exact dirOpen_lent hc (dirClose_lent hc h h₂) h₃
      · rw [if_neg hname] at k₁
        rcases run_bind_ok.mp k₁ with ⟨_, s₂, h₂, k₂⟩
        rcases assert_run h₂ with ⟨-, rfl⟩
        rcases run_bind_ok.mp k₂ with ⟨found, s₃, h₃, k₃⟩
        have hl₃ := h.trans hc (quiet_searchDirEntry _ _ _ _ _ _ h₃).same
        cases found with
        | none =>
            rcases pure_ok k₃ with ⟨rfl, rfl⟩
            exact hl₃
        | some e =>
            rcases run_bind_ok.mp k₃ with ⟨_, s₄, h₄, k₄⟩
            rcases check_ok h₄ with ⟨-, rfl⟩
            by_cases hdir : e.fType = .directory
            · rw [if_pos hdir] at k₄
              rcases run_bind_ok.mp k₄ with ⟨i, s₅, h₅, k₅⟩
              rcases inodeAt_run h₅ with ⟨-, rfl, rfl⟩
              rcases run_bind_ok.mp k₅ with ⟨_, s₆, h₆, k₆⟩
              rcases run_bind_ok.mp k₆ with ⟨d, s₇, h₇, k₇⟩
              exact ih (dirOpen_lent hc (dirClose_lent hc hl₃ h₆) h₇) k₇
            · rw [if_neg hdir] at k₄
              by_cases hreg : e.fType = .regular
              · rw [if_pos hreg] at k₄
                rcases pure_ok k₄ with ⟨rfl, rfl⟩
                exact hl₃
              · rw [if_neg hreg] at k₄
                -- An entry of neither type: the loop goes on in the same directory.
                refine ih ?_ k₄
                exact hl₃

theorem searchFile_lent {pathname : Str} {x : Nat × PathSearchRecord} (hc : OpenCounted s₀)
    (h : SameCounts s₀ s) (hr : (searchFile t pathname).run s = .ok (x, s')) :
    LentDir x.2.parentDir s₀ s' := by
  rcases run_bind_ok.mp hr with ⟨root, s₁, h₁, k₁⟩
  rcases read_ok h₁ with ⟨rfl, rfl⟩
  by_cases hp : pathname = [slash] ∨ pathname = slash :: dotName ∨ pathname = slash :: dotdotName
  · rw [if_pos hp] at k₁
    rcases pure_ok k₁ with ⟨rfl, rfl⟩
    exact h
  · rw [if_neg hp] at k₁
    rcases run_bind_ok.mp k₁ with ⟨_, s₂, h₂, k₂⟩
    rcases assert_run h₂ with ⟨-, rfl⟩
    rcases run_bind_ok.mp k₂ with ⟨junk, s₃, h₃, k₃⟩
    refine searchLoop_lent hc ?_ k₃
    exact h.trans (quiet_unset _ _ _ h₃).same

theorem openPath_lent {p : Str} {x : Nat × PathSearchRecord × Bool} (hc : OpenCounted s)
    (hr : (openPath t p).run s = .ok (x, s')) : LentDir x.2.1.parentDir s s' := by
  rcases run_bind_ok.mp hr with ⟨depth, s₁, h₁, k₁⟩
  rcases run_bind_ok.mp k₁ with ⟨⟨n, rec⟩, s₂, h₂, k₂⟩
  rcases run_bind_ok.mp k₂ with ⟨depth', s₃, h₃, k₃⟩
  rcases pure_ok k₃ with ⟨rfl, rfl⟩
  exact (searchFile_lent hc (quiet_pathDepthCnt _ _ _ _ h₁).same h₂).trans hc
    (quiet_pathDepthCnt _ _ _ _ h₃).same

end Counts

section Sync

variable {s s' : Fs} {t a : Nat} {e : DirEntry} {all : Nat → Nat} {r : Bool}

/-- `block_bitmap_alloc` does not return without a block. -/
theorem blockBitmapAlloc_some {r : Option Nat} (h : blockBitmapAlloc.run s = .ok (r, s')) :
    ∃ lba, r = some lba := by
  rcases run_bind_ok.mp h with ⟨part, s₁, h₁, k₁⟩
  rcases run_bind_ok.mp k₁ with ⟨i, s₂, h₂, k₂⟩
  rcases scanOne_run h₂ with ⟨-, n, rfl, -⟩
  rcases run_bind_ok.mp k₂ with ⟨_, s₃, -, k₃⟩
  exact ⟨_, (pure_ok k₃).1⟩

theorem syncNewTable_true {table : Nat} (h : (syncNewTable t a e all table).run s = .ok (r, s')) :
    r = true := by
  rcases run_bind_ok.mp h with ⟨_, s₁, -, k₁⟩
  rcases run_bind_ok.mp k₁ with ⟨lba, s₂, h₂, k₂⟩
  rcases blockBitmapAlloc_some h₂ with ⟨lba, rfl⟩
  rcases run_bind_ok.mp k₂ with ⟨_, s₃, -, k₃⟩
  rcases run_bind_ok.mp k₃ with ⟨_, s₄, -, k₄⟩
  rcases run_bind_ok.mp k₄ with ⟨_, s₅, -, k₅⟩
  exact syncFirstEntry_true k₅

theorem syncNewBlock_true {k : Nat} (h : (syncNewBlock t a e all k).run s = .ok (r, s')) :
    r = true := by
  rcases run_bind_ok.mp h with ⟨lba, s₁, h₁, k₁⟩
  rcases blockBitmapAlloc_some h₁ with ⟨lba, rfl⟩
  rcases run_bind_ok.mp k₁ with ⟨_, s₂, -, k₂⟩
  by_cases hk : k < 12
  · rw [if_pos hk] at k₂
    rcases run_bind_ok.mp k₂ with ⟨_, s₃, -, k₃⟩
    exact syncFirstEntry_true k₃
  rw [if_neg hk] at k₂
  by_cases hk12 : k = 12
  · rw [if_pos hk12] at k₂
    exact syncNewTable_true k₂
  · rw [if_neg hk12] at k₂
    rcases run_bind_ok.mp k₂ with ⟨_, s₃, -, k₃⟩
    rcases run_bind_ok.mp k₃ with ⟨_, s₄, -, k₄⟩
    exact syncFirstEntry_true k₄

/-- The loop meets an empty place, at the latest at the thirteenth block. -/
theorem syncBlocks_true (hall : all 12 = 0) {n k₀ : Nat} (hn : k₀ + n = 140) (hk₀ : k₀ ≤ 12)
    (h : (syncBlocks t a e all n k₀).run s = .ok (r, s')) : r = true := by
  induction n generalizing k₀ s with
  | zero => omega
  | succ n ih =>
      rw [syncBlocks] at h
      by_cases hz : all k₀ = 0
      · rw [if_pos hz] at h
        exact syncNewBlock_true h
      · rw [if_neg hz] at h
        have hne : k₀ ≠ 12 := by
          rintro rfl
          exact hz hall
        rcases run_bind_ok.mp h with ⟨buf, s₁, -, k₁⟩
        cases hfree : findFree buf entriesPerSec 0 with
        | none =>
            rw [hfree] at k₁
            exact ih (by omega) (by omega) k₁
        | some j =>
            rw [hfree] at k₁
            rcases run_bind_ok.mp k₁ with ⟨_, s₂, -, k₂⟩
            rcases run_bind_ok.mp k₂ with ⟨_, s₃, -, k₃⟩
            exact (pure_ok k₃).1

/-- `sync_dir_entry` does not fail. -/
theorem syncDirEntry_true {d : Dir} (h : (syncDirEntry t d e).run s = .ok (r, s')) :
    r = true := by
  rcases run_bind_ok.mp h with ⟨i, s₁, -, k₁⟩
  rcases run_bind_ok.mp k₁ with ⟨_, s₂, -, k₂⟩
  rcases run_bind_ok.mp k₂ with ⟨_, s₃, -, k₃⟩
  exact syncBlocks_true rfl rfl (by omega) k₃

end Sync

/-- Everything a failed open is to leave as it was, but for the list of open
    inodes and the counts in it. -/
structure SameTables (t : Nat) (s s' : Fs) : Prop where
  next : s.nextInode ≤ s'.nextInode
  fileTable : s'.fileTable = s.fileTable
  fdTable : s'.fdTable t = s.fdTable t
  deny : ∀ a, a < s.nextInode → (s'.inode a).writeDeny = (s.inode a).writeDeny
  blockBitmap : s'.part.blockBitmap = s.part.blockBitmap
  inodeBitmap : s'.part.inodeBitmap = s.part.inodeBitmap
  disk : s'.disk = s.disk

section Tables

variable {s s₁ s' : Fs} {t : Nat}

theorem SameTables.refl (t : Nat) (s : Fs) : SameTables t s s :=
  ⟨Nat.le_refl _, rfl, rfl, fun _ _ => rfl, rfl, rfl, rfl⟩

theorem SameTables.trans (h : SameTables t s s₁) (h' : SameTables t s₁ s') :
    SameTables t s s' :=
  ⟨Nat.le_trans h.next h'.next, h'.fileTable.trans h.fileTable, h'.fdTable.trans h.fdTable,
    fun a ha => (h'.deny a (Nat.lt_of_lt_of_le ha h.next)).trans (h.deny a ha),
    h'.blockBitmap.trans h.blockBitmap, h'.inodeBitmap.trans h.inodeBitmap, h'.disk.trans h.disk⟩

theorem Looked.tables (h : Looked s s') (t : Nat) : SameTables t s s' := by
  have hpart := h.part
  refine ⟨h.next, h.fileTable, by rw [h.fdTable], fun a ha => (h.old a ha).writeDeny, ?_, ?_,
    h.disk⟩
  · rw [hpart]
  · rw [hpart]

theorem SameTables.unchanged (h : SameTables t s s') (hs : SameCounts s s') :
    OpenUnchanged t s s' :=
  ⟨h.fileTable, h.fdTable, hs.list, hs.count, h.deny, h.blockBitmap, h.inodeBitmap, h.disk⟩

/-- What a call has set and given back. -/
theorem rolledBack (t : Nat)
    (hrest : s' = { s with
      mallocs := s'.mallocs
      part := { s.part with inodeBitmap := s'.part.inodeBitmap }
      inode := s'.inode
      home := s'.home
      nextInode := s'.nextInode })
    (hbits : s'.part.inodeBitmap = s.part.inodeBitmap) (hnext : s.nextInode ≤ s'.nextInode)
    (hold : ∀ a, a < s.nextInode → s'.inode a = s.inode a) :
    SameTables t s s' ∧ SameCounts s s' := by
  refine ⟨⟨hnext, ?_, ?_, fun a ha => congrArg Inode.writeDeny (hold a ha), ?_, hbits, ?_⟩, hnext, ?_,
    fun a ha => congrArg Inode.iOpenCnts (hold a ha)⟩
  · rw [hrest]
  · rw [hrest]
  · rw [hrest]
  · rw [hrest]
  · rw [hrest]

theorem malloc_run {ok : Bool} (h : malloc.run s = .ok (ok, s')) :
    ok = s.mallocs 0 ∧ s' = { s with mallocs := fun i => s.mallocs (i + 1) } := by
  cases h
  exact ⟨rfl, rfl⟩

/-- No slot of `file_table` is free. -/
def NoSlot (s : Fs) : Prop := freeSlotFrom s.fileTable (maxFileOpen - 3) 3 = none

/-- A slot that was free holds an inode now. -/
theorem slotTaken {g a flag : Nat}
    (hfree : freeSlotFrom s.fileTable (maxFileOpen - 3) 3 = some g)
    (h : s'.fileTable = Function.update s.fileTable g ⟨0, flag, some a⟩) :
    s'.fileTable ≠ s.fileTable := by
  intro hsame
  have hnone := ((freeSlotFrom_first s.fileTable).of_some hfree).2.2
  rw [← hsame, h, Function.update_self] at hnone
  cases hnone

/-- `file_create` gives everything back when it gets no memory or no slot. -/
theorem fileCreate_undone {d : Dir} {name : Str} {flag : Nat} {r : Int}
    (hno : NoSlot s ∨ s.mallocs 0 = false ∨ s.mallocs 1 = false)
    (h : (fileCreate t d name flag).run s = .ok (r, s')) :
    SameTables t s s' ∧ SameCounts s s' := by
  rcases run_bind_ok.mp h with ⟨ok, s₁, h₁, k₁⟩
  rcases malloc_run h₁ with ⟨hok, hs₁⟩
  by_cases hok₁ : ok = true
  · rw [if_pos hok₁] at k₁
    rcases run_bind_ok.mp k₁ with ⟨r', s₂, h₂, k₂⟩
    rcases inodeBitmapAlloc_run h₂ with ⟨n, rfl, hclear, hs₂⟩
    have hundo := bitmapSet_undo hclear
    rcases run_bind_ok.mp k₂ with ⟨ok', s₃, h₃, k₃⟩
    rcases malloc_run h₃ with ⟨hok', hs₃⟩
    have hsecond : ok' = s.mallocs 1 := by
      rw [hok', hs₂, hs₁]
      rfl
    by_cases hok₂ : ok' = true
    · rw [if_pos hok₂] at k₃
      -- Both allocations have succeeded, so it is the slot that is missing.
      have hslot : NoSlot s := by
        rcases hno with hslot | hfirst | hnext
        · exact hslot
        · rw [hok, hfirst] at hok₁
          cases hok₁
        · rw [hsecond, hnext] at hok₂
          cases hok₂
      rcases run_bind_ok.mp k₃ with ⟨home, s₄, h₄, k₄⟩
      rcases read_ok h₄ with ⟨-, rfl⟩
      rcases run_bind_ok.mp k₄ with ⟨a, s₅, h₅, k₅⟩
      rcases newInode_run h₅ with ⟨ha, hs₅⟩
      rcases run_bind_ok.mp k₅ with ⟨_, s₆, h₆, k₆⟩
      have hs₆ := setInodeAt_run h₆
      rcases run_bind_ok.mp k₆ with ⟨g, s₇, h₇, k₇⟩
      rcases read_ok h₇ with ⟨hg, rfl⟩
      have hnone : g = none := by
        rw [hg, hs₆, hs₅, hs₃, hs₂, hs₁]
        exact hslot
      rw [hnone] at k₇
      rcases run_bind_ok.mp k₇ with ⟨_, s₈, h₈, k₈⟩
      rcases run_bind_ok.mp k₈ with ⟨_, s₉, h₉, k₉⟩
      rcases pure_ok k₉ with ⟨-, rfl⟩
      have hnext : a = s.nextInode := by
        rw [ha, hs₃, hs₂, hs₁]
        rfl
      have hend := modify_ok h₉
      rw [modify_ok h₈, hs₆, hs₅, hs₃, hs₂, hs₁] at hend
      rw [hs₁] at hundo
      -- The bit is given back, and what stays is an address nobody uses.
      refine rolledBack t ?_ ?_ ?_ (fun b hb => ?_)
      · rw [hend]
        rfl
      · rw [hend]
        exact hundo
      · rw [hend, hnext]
        exact Nat.le_succ s.nextInode
      · rw [hend]
        exact Function.update_of_ne (by omega) _ _
    · rw [if_neg hok₂] at k₃
      rcases run_bind_ok.mp k₃ with ⟨_, s₄, h₄, k₄⟩
      rcases pure_ok k₄ with ⟨-, rfl⟩
      have hend := modify_ok h₄
      rw [hs₃, hs₂, hs₁] at hend
      rw [hs₁] at hundo
      refine rolledBack t ?_ ?_ ?_ (fun b _ => ?_)
      · rw [hend]
        rfl
      · rw [hend]
        exact hundo
      · rw [hend]
        exact Nat.le_refl _
      · rw [hend]
        rfl
  · rw [if_neg hok₁] at k₁
    rcases pure_ok k₁ with ⟨-, rfl⟩
    rw [hs₁]
    exact rolledBack t rfl rfl (Nat.le_refl _) (fun _ _ => rfl)

/-- `file_create` that gets memory and a slot takes the slot, even where it
    then has no descriptor for it. -/
theorem fileCreate_changed {d : Dir} {name : Str} {flag : Nat} {r : Int}
    (hyes : ¬ (NoSlot s ∨ s.mallocs 0 = false ∨ s.mallocs 1 = false))
    (h : (fileCreate t d name flag).run s = .ok (r, s')) : s'.fileTable ≠ s.fileTable := by
  rcases run_bind_ok.mp h with ⟨ok, s₁, h₁, k₁⟩
  rcases malloc_run h₁ with ⟨hok, hs₁⟩
  have hok₁ : ok = true := by
    rw [hok]
    exact Bool.eq_true_of_not_eq_false (fun hf => hyes (Or.inr (Or.inl hf)))
  rw [if_pos hok₁] at k₁
  rcases run_bind_ok.mp k₁ with ⟨r', s₂, h₂, k₂⟩
  rcases inodeBitmapAlloc_run h₂ with ⟨n, rfl, -, hs₂⟩
  rcases run_bind_ok.mp k₂ with ⟨ok', s₃, h₃, k₃⟩
  rcases malloc_run h₃ with ⟨hok', hs₃⟩
  have hok₂ : ok' = true := by
    rw [hok', hs₂, hs₁]
    exact Bool.eq_true_of_not_eq_false (fun hf => hyes (Or.inr (Or.inr hf)))
  rw [if_pos hok₂] at k₃
  rcases run_bind_ok.mp k₃ with ⟨home, s₄, h₄, k₄⟩
  rcases read_ok h₄ with ⟨-, rfl⟩
  rcases run_bind_ok.mp k₄ with ⟨a, s₅, h₅, k₅⟩
  have hs₅ := (newInode_run h₅).2
  rcases run_bind_ok.mp k₅ with ⟨_, s₆, h₆, k₆⟩
  have hft₆ : s₆.fileTable = s.fileTable := by
    rw [setInodeAt_run h₆, hs₅, hs₃, hs₂, hs₁]
    rfl
  rcases run_bind_ok.mp k₆ with ⟨g, s₇, h₇, k₇⟩
  rcases read_ok h₇ with ⟨hg, rfl⟩
  rw [hft₆] at hg
  cases g with
  | none => exact absurd (Or.inl hg.symm) hyes
  | some g =>
      rcases run_bind_ok.mp k₇ with ⟨_, s₈, h₈, k₈⟩
      rcases run_bind_ok.mp k₈ with ⟨e, s₉, h₉, k₉⟩
      rcases run_bind_ok.mp k₉ with ⟨done, s₁₀, h₁₀, k₁₀⟩
      rw [if_pos (syncDirEntry_true h₁₀)] at k₁₀
      -- The slot is written, and no later step clears it.
      have hft : s'.fileTable = Function.update s.fileTable g ⟨0, flag, some a⟩ := by
        rw [fileCreated_table k₁₀, (stored_syncDirEntry _ _ _ _ _ _ h₁₀).fileTable,
          (stored_of_quiet (quiet_createDirEntry _ _ _) _ _ _ h₉).fileTable, modify_ok h₈, ← hft₆]
        rfl
      exact slotTaken hg.symm hft

end Tables

section Fails

variable {s s₁ s' : Fs} {t : Nat}

/-- An inode that is open once more is a change. -/
theorem Lent.changed {a : Nat} (hc : OpenCounted s) (h : Lent a s s') :
    ¬ OpenUnchanged t s s' := by
  intro hu
  rcases h.lent with ⟨ha, -, hone⟩ | ⟨-, -, hlist, -⟩
  · have hpos := hc.count a ha
    rw [hu.count a (hc.there a ha), add32] at hone
    omega
  · rw [hu.openInodes] at hlist
    exact absurd hlist (List.cons_ne_self a s.part.openInodes).symm

theorem Declines.unchanged {p : Str} (hc : OpenCounted s) (h : Declines t p s s') :
    OpenUnchanged t s s' := by
  rcases h with rfl | ⟨s₁, s₂, s₃, n, rec, u, hq, hsearch, hq', hclose⟩
  · exact (SameTables.refl t _).unchanged (SameCounts.refl _)
  · have hlook := IsTrans.trans _ _ _ hq.looked (looked_searchFile _ _ _ _ _ hsearch)
    have hback := IsTrans.trans _ _ _ hlook (IsTrans.trans _ _ _ hq'.looked
      (looked_dirClose _ _ _ _ _ hclose))
    have hlent : LentDir rec.parentDir s s₂ := searchFile_lent hc hq.same hsearch
    exact (hback.tables t).unchanged (dirClose_lent hc (hlent.trans hc hq'.same) hclose)

/-- `sys_open` that has followed the path to its end. -/
theorem sysOpen_searched {p : Str} {flags n : Nat} {rec : PathSearchRecord} {r : Int}
    (hslash : p.getLast? ≠ some slash) (hpath : (openPath t p).run s = .ok ((n, rec, true), s₁))
    (hdir : rec.fileType ≠ .directory) (hr : (sysOpen t p flags).run s = .ok (r, s')) :
    (openSearched t p flags n rec).run s₁ = .ok (r, s') := by
  rcases run_bind_ok.mp hr with ⟨_, r₁, h₁, k₁⟩
  rcases check_ok h₁ with ⟨-, rfl⟩
  rw [if_neg hslash] at k₁
  rcases run_bind_ok.mp k₁ with ⟨_, r₂, h₂, k₂⟩
  rcases assert_run h₂ with ⟨-, rfl⟩
  rcases run_bind_ok.mp hpath with ⟨depth, r₃, h₃, k₃⟩
  rcases run_bind_ok.mp k₃ with ⟨⟨n', rec'⟩, r₄, h₄, k₄⟩
  rcases run_bind_ok.mp k₄ with ⟨depth', r₅, h₅, k₅⟩
  rcases pure_ok k₅ with ⟨hout, rfl⟩
  rw [Prod.mk.injEq, Prod.mk.injEq] at hout
  rcases hout with ⟨rfl, rfl, hdepth⟩
  rw [run_bind_of h₃, run_bind_of h₄] at k₂
  dsimp only at k₂
  rw [if_neg hdir, run_bind_of h₅] at k₂
  rw [if_neg (not_not.mpr (of_decide_eq_true hdepth.symm))] at k₂
  exact k₂

/-- A failure that leaves nothing behind: the call has ended before it opens or
    creates the file, or it has got no slot. A file that is opened must lie in
    the root directory, since the directory stays open, and a file that is
    created may also lack the memory. -/
def OpenUndone (t : Nat) (p : Str) (flags : Nat) (s : Fs) : Prop :=
  p.getLast? = some slash ∨ ∀ n rec s₁, (openPath t p).run s = .ok ((n, rec, true), s₁) →
    rec.fileType ≠ .directory →
    (n ≠ minusOne → flags &&& oCreat = 0 → NoSlot s ∧ rec.parentDir.isRoot = true) ∧
    (n = minusOne → flags &&& oCreat ≠ 0 →
      NoSlot s ∨ s₁.mallocs 0 = false ∨ s₁.mallocs 1 = false)

/-- `file_open` that fails: it has got no slot, or it has taken one. -/
theorem fileOpen_slot {n flags : Nat} {r : Int} (h : (fileOpen t n flags).run s = .ok (r, s')) :
    NoSlot s ∧ s' = s ∨ ¬ NoSlot s ∧ s'.fileTable ≠ s.fileTable := by
  rcases run_bind_ok.mp h with ⟨g, s₁, h₁, k₁⟩
  rcases read_ok h₁ with ⟨hg, rfl⟩
  cases g with
  | none => exact Or.inl ⟨hg.symm, (pure_ok k₁).2⟩
  | some g =>
      rcases run_bind_ok.mp k₁ with ⟨a, s₂, h₂, k₂⟩
      have hnot : ¬ NoSlot s₁ := by
        intro hnone
        cases hg.trans hnone
      have hft : s'.fileTable = Function.update s₁.fileTable g ⟨0, flags, some a⟩ := by
        rw [fileOpened_table k₂, (looked_inodeOpen _ _ _ _ _ h₂).fileTable]
      exact Or.inr ⟨hnot, slotTaken hg.symm hft⟩

/-- The file at the end of the path is opened. -/
theorem fileOpen_unchanged_iff {n flags : Nat} {d : Dir} {r : Int} (hc : OpenCounted s)
    (hlook : Looked s s₁) (hlent : LentDir d s s₁)
    (h : (fileOpen t n flags).run s₁ = .ok (r, s')) :
    OpenUnchanged t s s' ↔ NoSlot s ∧ d.isRoot = true := by
  have hslot : NoSlot s₁ ↔ NoSlot s := by
    unfold NoSlot
    rw [hlook.fileTable]
  rcases fileOpen_slot h with ⟨hnone, rfl⟩ | ⟨hfree, htable⟩
  · unfold LentDir at hlent
    by_cases hd : d.isRoot = true
    · rw [if_pos hd] at hlent
      exact iff_of_true ((hlook.tables t).unchanged hlent) ⟨hslot.mp hnone, hd⟩
    · rw [if_neg hd] at hlent
      exact iff_of_false (hlent.changed hc) (fun hand => hd hand.2)
  · refine iff_of_false (fun hu => htable ?_) (fun hand => hfree (hslot.mpr hand.1))
    rw [hu.fileTable, hlook.fileTable]

/-- A file is created at the end of the path. -/
theorem fileCreate_unchanged_iff {d : Dir} {name : Str} {flags : Nat} {r : Int} {u : Unit}
    {s₂ : Fs} (hc : OpenCounted s) (hlook : Looked s s₁) (hlent : LentDir d s s₁)
    (h : (fileCreate t d name flags).run s₁ = .ok (r, s₂))
    (hclose : (dirClose t d).run s₂ = .ok (u, s')) :
    OpenUnchanged t s s' ↔ NoSlot s ∨ s₁.mallocs 0 = false ∨ s₁.mallocs 1 = false := by
  have hslot : NoSlot s₁ ↔ NoSlot s := by
    unfold NoSlot
    rw [hlook.fileTable]
  have hlook' := looked_dirClose _ _ _ _ _ hclose
  rw [← hslot]
  by_cases hno : NoSlot s₁ ∨ s₁.mallocs 0 = false ∨ s₁.mallocs 1 = false
  · rcases fileCreate_undone (t := t) hno h with ⟨htables, hcounts⟩
    refine iff_of_true ?_ hno
    exact (((hlook.tables t).trans htables).trans (hlook'.tables t)).unchanged
      (dirClose_lent hc (hlent.trans hc hcounts) hclose)
  · refine iff_of_false (fun hu => fileCreate_changed hno h ?_) hno
    rw [← hlook'.fileTable, hu.fileTable, hlook.fileTable]

/-- A failed `sys_open` has changed nothing exactly if it has not come to a
    slot of `file_table` nor left the directory of the file open. -/
theorem open_fails_unchanged {p : Str} {flags : Nat} (hc : OpenCounted s)
    (hr : (sysOpen t p flags).run s = .ok (-1, s')) :
    OpenUnchanged t s s' ↔ OpenUndone t p flags s := by
  by_cases hslash : p.getLast? = some slash
  · rcases run_bind_ok.mp hr with ⟨_, s₁, h₁, k₁⟩
    rcases check_ok h₁ with ⟨-, rfl⟩
    rw [if_pos hslash] at k₁
    rcases pure_ok k₁ with ⟨-, rfl⟩
    exact iff_of_true ((SameTables.refl t _).unchanged (SameCounts.refl _)) (Or.inl hslash)
  by_cases hreach : ∃ n rec s₁, (openPath t p).run s = .ok ((n, rec, true), s₁) ∧
      rec.fileType ≠ .directory ∧
      (n ≠ minusOne ∧ flags &&& oCreat = 0 ∨ n = minusOne ∧ flags &&& oCreat ≠ 0)
  · rcases hreach with ⟨n, rec, s₁, hpath, hdir, hcase⟩
    have hlook := looked_openPath _ _ _ _ _ hpath
    have hlent : LentDir rec.parentDir s s₁ := openPath_lent hc hpath
    have hrun := sysOpen_searched hslash hpath hdir hr
    rw [openSearched] at hrun
    -- The path leads to one end only.
    have hone : OpenUndone t p flags s ↔
        (n ≠ minusOne → flags &&& oCreat = 0 → NoSlot s ∧ rec.parentDir.isRoot = true) ∧
        (n = minusOne → flags &&& oCreat ≠ 0 →
          NoSlot s ∨ s₁.mallocs 0 = false ∨ s₁.mallocs 1 = false) := by
      constructor
      · intro hundone
        exact hundone.resolve_left hslash n rec s₁ hpath hdir
      · intro hend
        refine Or.inr (fun n' rec' s₂ hpath' _ => ?_)
        cases hpath.symm.trans hpath'
        exact hend
    rw [hone]
    rcases hcase with ⟨hn, hflags⟩ | ⟨hn, hflags⟩
    · rw [if_neg (fun hand => hn hand.1), if_neg (fun hand => hand.2 hflags),
        if_neg (not_not.mpr hflags)] at hrun
      rw [fileOpen_unchanged_iff hc hlook hlent hrun]
      exact ⟨fun hand => ⟨fun _ _ => hand, fun heq => absurd heq hn⟩, fun hall => hall.1 hn hflags⟩
    · rw [if_neg (fun hand => hflags hand.2), if_neg (fun hand => hand.1 hn), if_pos hflags] at hrun
      rcases run_bind_ok.mp hrun with ⟨fd, s₂, hcreate, k₂⟩
      rcases run_bind_ok.mp k₂ with ⟨u, s₃, hclose, k₃⟩
      rcases pure_ok k₃ with ⟨-, rfl⟩
      rw [fileCreate_unchanged_iff hc hlook hlent hcreate hclose]
      exact ⟨fun hor => ⟨fun hne => absurd hn hne, fun _ _ => hor⟩, fun hall => hall.2 hn hflags⟩
  · -- The call gives up on the way.
    refine iff_of_true ?_ (Or.inr (fun n rec s₁ hpath hdir => ?_))
    · rcases sysOpen_steps hr with ⟨-, hdeclines⟩ | ⟨n, rec, s₁, hpath, hdir, hn, hflags, -⟩ |
        ⟨rec, s₁, s₂, u, hpath, hdir, hflags, -, -⟩
      · exact hdeclines.unchanged hc
      · exact absurd ⟨n, rec, s₁, hpath, hdir, Or.inl ⟨hn, hflags⟩⟩ hreach
      · exact absurd ⟨minusOne, rec, s₁, hpath, hdir, Or.inr ⟨rfl, hflags⟩⟩ hreach
    · exact ⟨fun hn hflags => absurd ⟨n, rec, s₁, hpath, hdir, Or.inl ⟨hn, hflags⟩⟩ hreach,
        fun hn hflags => absurd ⟨n, rec, s₁, hpath, hdir, Or.inr ⟨hn, hflags⟩⟩ hreach⟩

end Fails

section FullTable

/-- A process has opened the file `f` of `smallTree` five times. -/
def fiveOpen : Fs :=
  { smallTree with
    part := { smallTree.part with openInodes := [1, 0] }
    inode := Function.update smallTree.inode 1 { oneBlockInode 2 0 0 with iOpenCnts := 5 }
    home := Function.update smallTree.home 1 .kernel
    nextInode := 2
    fileTable := fun g => if 3 ≤ g ∧ g < 8 then ⟨0, 0, some 1⟩ else ⟨0, 0, none⟩
    fdTable := fun _ k => k }

theorem fiveOpen_counted : OpenCounted fiveOpen := by
  have hboth : ∀ a : Fin 2, 0 < (fiveOpen.inode a).iOpenCnts ∧
      (fiveOpen.inode a).iOpenCnts < 2 ^ 32 := by decide
  have hlt : ∀ a, a ∈ fiveOpen.part.openInodes → a < 2 := by decide
  exact ⟨hlt, fun a ha => hboth ⟨a, hlt a ha⟩⟩

set_option maxRecDepth 20000 in
theorem fiveOpen_run : ((sysOpen 0 [slash, 0x66] 0).run fiveOpen).map
    (fun r => (r.1, (r.2.fileTable 8).fdInode, (r.2.inode 1).iOpenCnts)) =
      .ok (-1, some 1, 6) := by
  decide +kernel

theorem fiveOpen_fails : ∃ s', (sysOpen 0 [slash, 0x66] 0).run fiveOpen = .ok (-1, s') ∧
    (s'.fileTable 8).fdInode = some 1 ∧ (s'.inode 1).iOpenCnts = 6 := by
  have hrun := fiveOpen_run
  cases h : (sysOpen 0 [slash, 0x66] 0).run fiveOpen with
  | error e =>
      rw [h] at hrun
      cases hrun
  | ok r =>
      rw [h] at hrun
      simp only [Except.map, Except.ok.injEq, Prod.mk.injEq] at hrun
      exact ⟨r.2, by rw [← hrun.1], hrun.2⟩

theorem open_fails_unchanged_five : ∃ s',
    (sysOpen 0 [slash, 0x66] 0).run fiveOpen = .ok (-1, s') ∧
    (OpenUnchanged 0 fiveOpen s' ↔ OpenUndone 0 [slash, 0x66] 0 fiveOpen) := by
  rcases fiveOpen_fails with ⟨s', hrun, -⟩
  exact ⟨s', hrun, open_fails_unchanged fiveOpen_counted hrun⟩

/-- The process has no descriptor left. The call fails, and the slot and the
    count stay taken. -/
theorem failed_open_takes_slot : OpenCounted fiveOpen ∧
    ∃ s', (sysOpen 0 [slash, 0x66] 0).run fiveOpen = .ok (-1, s') ∧
      (fiveOpen.fileTable 8).fdInode = none ∧ (s'.fileTable 8).fdInode = some 1 ∧
      (fiveOpen.inode 1).iOpenCnts = 5 ∧ (s'.inode 1).iOpenCnts = 6 ∧
      ¬ OpenUnchanged 0 fiveOpen s' := by
  rcases fiveOpen_fails with ⟨s', hrun, hslot, hcount⟩
  have hbefore : (fiveOpen.fileTable 8).fdInode = none := by decide
  refine ⟨fiveOpen_counted, s', hrun, hbefore, hslot, by decide, hcount, fun hu => ?_⟩
  rw [hu.fileTable, hbefore] at hslot
  cases hslot

end FullTable

end ForikOS
