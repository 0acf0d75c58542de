import ForikOS.Theory.DirSlots

/-!
# Giving an Inode Back

What `inode_release` frees.

The blocks are collected first, so what happens to the table afterwards does
not matter. Then the bit of each is cleared in memory, and the sector of the
bitmap with the bit goes to the disk. A sector is written again whenever
another of its bits is cleared, so in the end every sector with a cleared bit
is on the disk as it is in memory.

Nothing but the bitmaps and the record of the inode is written.

## Main definitions

* `DataBlock`: A block of the data, but the first.
* `OpenOnes`: The open inodes can be opened and closed once more.
* `inodeOf`: The inode `inode_open` returns.
* `Cleared`: Bits have been cleared, in memory and on the disk.
* `Released`: What `inode_release` is to do.

## Theorems

* `Cleared.more`: One more block.
* `run_releaseBlocks`, `run_releaseStorage`: All of them.
* `run_openOne`, `run_closeOne`: The inode is opened for it, and closed.
* `run_releaseEnd`: The number and the record.
* `inode_released`: `inode_release` does that.
-/

namespace ForikOS

open Prog

/-- A block of the data, but the first, and on the disk. -/
def DataBlock (p : Partition) (n : Nat) : Prop :=
  n ≤ maxLba ∧ p.sb.dataStartLba < n ∧ n < p.sb.dataStartLba + p.blockBitmap.btmpBytesLen * 8

/-- The inode bitmap lies between the block bitmap and the inode table. -/
structure InodeBitmapFits (p : Partition) : Prop where
  after : p.sb.blockBitmapLba + p.sb.blockBitmapSects ≤ p.sb.inodeBitmapLba
  before : p.sb.inodeBitmapLba < p.sb.inodeTableLba

/-- The open inodes are there for the task, and counted. -/
structure OpenOnes (t : Nat) (s : Fs) : Prop where
  seen : ∀ a, a ∈ s.part.openInodes → s.Sees t a
  count : ∀ a, a ∈ s.part.openInodes →
    0 < (s.inode a).iOpenCnts ∧ (s.inode a).iOpenCnts < 2 ^ 32

/-- The inode with a number: the first in the list of open inodes, or else the
    record. -/
def inodeOf (s : Fs) (n : Nat) : Inode :=
  ((s.part.openInodes.find? (fun a => decide ((s.inode a).iNo = n))).map s.inode).getD
    (diskInode s n)

/-- The bits `B` of the block bitmap have been cleared, and the sectors with
    them have been written. -/
structure Cleared (B : Nat → Prop) (s s' : Fs) : Prop where
  rest : s' = { s with
    disk := s'.disk
    part := { s.part with blockBitmap := s'.part.blockBitmap } }
  len : s'.part.blockBitmap.btmpBytesLen = s.part.blockBitmap.btmpBytesLen
  cleared : ∀ k, B k → bitmapScanTest s'.part.blockBitmap k = false
  kept : ∀ k, ¬ B k →
    bitmapScanTest s'.part.blockBitmap k = bitmapScanTest s.part.blockBitmap k
  synced : ∀ k b, B k → b < 512 → s'.disk ((s.part.sb.blockBitmapLba + k / 4096) * 512 + b) =
    s'.part.blockBitmap.bits (k / 4096 * 512 + b)
  disk : ∀ x, s'.disk x ≠ s.disk x → BitmapSector s.part.sb (x / 512)

namespace Cleared

variable {B B' : Nat → Prop} {s s' : Fs}

theorem refl (s : Fs) : Cleared (fun _ => False) s s :=
  ⟨rfl, rfl, fun _ h => h.elim, fun _ _ => rfl, fun _ _ h => h.elim, fun _ h => absurd rfl h⟩

theorem congr (h : Cleared B s s') (hB : ∀ k, B' k ↔ B k) : Cleared B' s s' :=
  ⟨h.rest, h.len, fun k hk => h.cleared k ((hB k).mp hk),
    fun k hk => h.kept k (fun hb => hk ((hB k).mpr hb)),
    fun k b hk => h.synced k b ((hB k).mp hk), h.disk⟩

theorem sb (h : Cleared B s s') : s'.part.sb = s.part.sb := by
  rw [h.rest]

/-- One more bit is cleared, and its sector written. -/
theorem more (h : Cleared B s s') {idx : Nat} (hidx : idx / 4096 < s.part.sb.blockBitmapSects) :
    Cleared (fun k => B k ∨ k = idx) s
      ((s'.setBlockBitmap (bitmapSet s'.part.blockBitmap idx false)).setDisk
        ((s.part.sb.blockBitmapLba + idx / 4096) * sectorSize) (1 * sectorSize)
        (fun b => (bitmapSet s'.part.blockBitmap idx false).bits (idx / 4096 * sectorSize + b))) := by
  generalize hs₁ : s'.setBlockBitmap (bitmapSet s'.part.blockBitmap idx false) = s₁
  have hd : s₁.disk = s'.disk := hs₁ ▸ rfl
  -- Only the one bit differs, in memory.
  have htest : ∀ k, bitmapScanTest (bitmapSet s'.part.blockBitmap idx false) k =
      if k = idx then false else bitmapScanTest s'.part.blockBitmap k :=
    fun k => bitmapScanTest_set _ idx k false
  have hdisk := setDisk_sector s₁ (s.part.sb.blockBitmapLba + idx / 4096)
    (fun b => (bitmapSet s'.part.blockBitmap idx false).bits (idx / 4096 * sectorSize + b))
  have hsec : sectorSize = 512 := rfl
  refine ⟨?_, ?_, fun k hk => ?_, fun k hk => ?_, fun k b hk hb => ?_, fun x hx => ?_⟩
  · rw [← hs₁, h.rest]
    rfl
  · rw [← hs₁]
    exact h.len
  · rw [← hs₁]
    show bitmapScanTest (bitmapSet s'.part.blockBitmap idx false) k = false
    rw [htest]
    by_cases hki : k = idx
    · rw [if_pos hki]
    · rw [if_neg hki]
      exact h.cleared k (hk.resolve_right hki)
  · rw [← hs₁]
    show bitmapScanTest (bitmapSet s'.part.blockBitmap idx false) k = _
    rw [htest, if_neg (fun heq => hk (Or.inr heq))]
    exact h.kept k (fun hb => hk (Or.inl hb))
  · have hmap : (s₁.setDisk ((s.part.sb.blockBitmapLba + idx / 4096) * sectorSize)
        (1 * sectorSize) (fun b => (bitmapSet s'.part.blockBitmap idx false).bits
          (idx / 4096 * sectorSize + b))).part.blockBitmap =
        bitmapSet s'.part.blockBitmap idx false := hs₁ ▸ rfl
    rw [hdisk, hmap]
    by_cases hsame : k / 4096 = idx / 4096
    · -- the sector that has just been written
      rw [if_pos (by omega), hsame, hsec]
      congr 1
      omega
    · -- another sector is as it was, on the disk and in memory
      have hkB : B k := hk.resolve_right (fun heq => hsame (by rw [heq]))
      rw [if_neg (by omega), hd, h.synced k b hkB hb]
      exact (Function.update_of_ne (show k / 4096 * 512 + b ≠ idx / 8 by omega) _ _).symm
  · rw [hdisk, hd] at hx
    by_cases hin : x / 512 = s.part.sb.blockBitmapLba + idx / 4096
    · exact ⟨by omega, by omega⟩
    · rw [if_neg hin] at hx
      exact h.disk x hx

end Cleared

section Release

variable {B : Nat → Prop} {s s' : Fs} {t a : Nat}

/-- `inode_release` gives one block back. -/
theorem run_releaseBlock (hv : Volume s.part) (h : Cleared B s s') {lba : Nat}
    (hlba : DataBlock s.part lba) : ∃ s'', (releaseBlock lba).run s' = .ok ((), s'') ∧
      Cleared (fun k => B k ∨ s.part.sb.dataStartLba + k = lba) s s'' := by
  rcases hlba with ⟨hle, hlt, hend⟩
  have hmax : maxLba = 163839 := rfl
  have htable := hv.table
  have hdata := hv.data
  have hin := hv.inPart
  have hon := hv.onDisk
  have hlen := hv.bitmap
  have hsb : s'.part.sb = s.part.sb := h.sb
  -- The bit of the block, which is not that of the root.
  have hidx : sub32 lba s'.part.sb.dataStartLba = lba - s.part.sb.dataStartLba := by
    rw [hsb, sub32, Nat.mod_eq_of_lt (show s.part.sb.dataStartLba < 2 ^ 32 by omega)]
    omega
  generalize hk : lba - s.part.sb.dataStartLba = idx at hidx
  have hsect : idx / 4096 < s.part.sb.blockBitmapSects := by omega
  have hsec : add32 s.part.sb.blockBitmapLba (idx / 4096) =
      s.part.sb.blockBitmapLba + idx / 4096 := by
    rw [add32, Nat.mod_eq_of_lt (by omega)]
  refine ⟨_, ?_, (h.more hsect).congr (fun k => or_congr_right ?_)⟩
  · rw [releaseBlock, blockBitmapIdx, run_bind_of (run_read _ s'), hidx,
      run_bind_of (run_assert (show 0 < idx by omega) s'), run_bind_of (run_modify _ s'),
      bitmapSync, run_bind_of (run_read _ _)]
    show (ideWriteFrom (add32 s'.part.sb.blockBitmapLba (idx / 4096)) 1 _).run _ = _
    rw [hsb, hsec, ideWriteFrom, run_bind_of (run_assert ⟨by omega, by omega⟩ _),
      run_bind_of (run_pause _), run_bind_of (run_modify _ _), run_pause]
    rfl
  · omega

/-- The loop over the blocks, from block `k₀` on. -/
theorem run_releaseBlocks (hv : Volume s.part) {all : Nat → Nat} {n k₀ : Nat}
    (h : Cleared B s s')
    (hall : ∀ k, k₀ ≤ k → k < k₀ + n → all k ≠ 0 → DataBlock s.part (all k)) :
    ∃ s'', (releaseBlocks all n k₀).run s' = .ok ((), s'') ∧
      Cleared (fun x => B x ∨ ∃ k, k₀ ≤ k ∧ k < k₀ + n ∧ all k ≠ 0 ∧
        s.part.sb.dataStartLba + x = all k) s s'' := by
  induction n generalizing B k₀ s' with
  | zero =>
      refine ⟨s', rfl, h.congr (fun x => or_iff_left ?_)⟩
      rintro ⟨k, hle, hlt, -⟩
      omega
  | succ n ih =>
      have hrest : ∀ k, k₀ + 1 ≤ k → k < k₀ + 1 + n → all k ≠ 0 → DataBlock s.part (all k) :=
        fun k hle hlt => hall k (by omega) (by omega)
      -- a block among the rest is not the first one
      have hsplit : ∀ x, (∃ k, k₀ ≤ k ∧ k < k₀ + (n + 1) ∧ all k ≠ 0 ∧
          s.part.sb.dataStartLba + x = all k) ↔
          (all k₀ ≠ 0 ∧ s.part.sb.dataStartLba + x = all k₀) ∨
            ∃ k, k₀ + 1 ≤ k ∧ k < k₀ + 1 + n ∧ all k ≠ 0 ∧
              s.part.sb.dataStartLba + x = all k := by
        intro x
        constructor
        · rintro ⟨k, hle, hlt, hne, hx⟩
          by_cases hk : k = k₀
          · rw [hk] at hne hx
            exact Or.inl ⟨hne, hx⟩
          · exact Or.inr ⟨k, by omega, by omega, hne, hx⟩
        · rintro (⟨hne, hx⟩ | ⟨k, hle, hlt, hne, hx⟩)
          · exact ⟨k₀, Nat.le_refl _, by omega, hne, hx⟩
          · exact ⟨k, by omega, by omega, hne, hx⟩
      rw [releaseBlocks]
      by_cases hz : all k₀ ≠ 0
      · rcases run_releaseBlock hv h (hall k₀ (Nat.le_refl _) (by omega) hz) with ⟨s₁, hrun, h₁⟩
        rcases ih h₁ hrest with ⟨s₂, hrun₂, h₂⟩
        rw [if_pos hz, run_bind_of hrun]
        refine ⟨s₂, hrun₂, h₂.congr (fun x => ?_)⟩
        rw [hsplit, and_iff_right hz, or_assoc]
      · rcases ih h hrest with ⟨s₂, hrun₂, h₂⟩
        rw [if_neg hz]
        refine ⟨s₂, hrun₂, h₂.congr (fun x => or_congr_right ?_)⟩
        rw [hsplit]
        exact or_iff_right (fun h => hz h.1)

theorem inodeBlocks_eq_fileBlocks {disk : Nat → Byte} {i : Inode} {k : Nat}
    (h : k < 12 ∨ i.iSectors 12 ≠ 0) : inodeBlocks disk i k = fileBlocks disk i k := by
  by_cases hk : k < 12
  · rw [inodeBlocks_direct hk, fileBlocks_direct hk]
  · rw [inodeBlocks_indirect (h.resolve_left hk) hk, fileBlocks_indirect hk]

/-- The table and the blocks are given back. -/
theorem run_releaseStorage (hv : Volume s.part) (hsees : s.Sees t a)
    (hown : ∀ n, OwnSector s.disk (s.inode a) n → DataBlock s.part n) :
    ∃ s', (releaseStorage t a (s.inode a)).run s = .ok ((), s') ∧
      Cleared (fun x => OwnSector s.disk (s.inode a) (s.part.sb.dataStartLba + x)) s s' := by
  have hpos := hv.data_pos
  have hread : (readAllBlocks (s.inode a)).run s = .ok (inodeBlocks s.disk (s.inode a), s) := by
    refine run_inodeBlocks ?_
    -- With a table: the table itself, and then all 140 blocks.
    by_cases h12 : (s.inode a).iSectors 12 = 0
    · rw [h12]
      exact Nat.zero_le _
    · exact (hown _ ⟨h12, Or.inl rfl⟩).1
  have hblock : ∀ k, k < 12 ∨ (s.inode a).iSectors 12 ≠ 0 ∧ k < 140 →
      inodeBlocks s.disk (s.inode a) k ≠ 0 → DataBlock s.part (inodeBlocks s.disk (s.inode a) k) := by
    intro k hk hne
    have heq := @inodeBlocks_eq_fileBlocks s.disk _ _ (hk.imp_right And.left)
    rw [heq] at hne ⊢
    exact hown _ ⟨hne, Or.inr ⟨k, hk, rfl⟩⟩
  have hnz : ∀ x, s.part.sb.dataStartLba + x ≠ 0 := fun x => by omega
  rw [releaseStorage, run_bind_of hread]
  by_cases h12 : (s.inode a).iSectors 12 ≠ 0
  · rcases run_releaseBlock hv (Cleared.refl s) (hown _ ⟨h12, Or.inl rfl⟩) with ⟨s₁, hrun₁, h₁⟩
    rcases run_releaseBlocks hv h₁
      (fun k (_ : 0 ≤ k) (hk : k < 0 + 140) => hblock k (Or.inr ⟨h12, by omega⟩)) with ⟨s₂, hrun₂, h₂⟩
    rw [if_pos h12, run_bind_of (run_inodeAt hsees), run_bind_of hrun₁]
    refine ⟨s₂, hrun₂, h₂.congr (fun x => ?_)⟩
    rw [OwnSector, and_iff_right (hnz x), false_or]
    refine or_congr_right (exists_congr (fun k => ?_))
    constructor
    · rintro ⟨hk, hx⟩
      have hk' : k < 140 := hk.elim (fun h => by omega) And.right
      rw [← inodeBlocks_eq_fileBlocks (Or.inr h12)] at hx
      exact ⟨Nat.zero_le _, by omega, hx ▸ hnz x, hx⟩
    · rintro ⟨-, hk, -, hx⟩
      rw [inodeBlocks_eq_fileBlocks (Or.inr h12)] at hx
      exact ⟨Or.inr ⟨h12, by omega⟩, hx⟩
  · rcases run_releaseBlocks hv (Cleared.refl s)
      (fun k (_ : 0 ≤ k) (hk : k < 0 + 12) => hblock k (Or.inl (by omega))) with ⟨s₂, hrun₂, h₂⟩
    rw [if_neg h12]
    refine ⟨s₂, hrun₂, h₂.congr (fun x => ?_)⟩
    have h0 := not_not.mp h12
    rw [OwnSector, and_iff_right (hnz x), h0, or_iff_right (hnz x), false_or]
    refine exists_congr (fun k => ?_)
    constructor
    · rintro ⟨hk, hx⟩
      have hk' : k < 12 := hk.resolve_right (fun h => h.1 rfl)
      rw [← inodeBlocks_eq_fileBlocks (Or.inl hk')] at hx
      exact ⟨Nat.zero_le _, by omega, hx ▸ hnz x, hx⟩
    · rintro ⟨-, hk, -, hx⟩
      rw [inodeBlocks_eq_fileBlocks (Or.inl (by omega))] at hx
      exact ⟨Or.inl (by omega), hx⟩

end Release

/-- The inode at `a` is open and can be closed, by the last one only if it is
    the kernel's. -/
structure Closable (t a : Nat) (s : Fs) : Prop where
  sees : s.Sees t a
  listed : a ∈ s.part.openInodes
  last : sub32 (s.inode a).iOpenCnts 1 = 0 → s.home a = .kernel

/-- The inode with number `n` has been opened at `a`, and the disk and the
    bitmaps are as before. -/
structure OpenedOne (t n a : Nat) (s s' : Fs) : Prop extends Closable t a s' where
  disk : s'.disk = s.disk
  part : s'.part = { s.part with openInodes := s'.part.openInodes }
  memory : Memory s'
  number : (s'.inode a).iNo = (inodeOf s n).iNo
  sectors : ∀ k, k < 13 → (s'.inode a).iSectors k = (inodeOf s n).iSectors k

section Open

variable {s s' : Fs} {t n a : Nat}

/-- `inode_open` for `inode_release`. -/
theorem run_openOne (hfits : TableFits s.part) (ho : OpenOnes t s) (hm : Memory s) (hn : n < 4096) :
    ∃ a s', (inodeOpen t n).run s = .ok (a, s') ∧ OpenedOne t n a s s' := by
  rw [inodeOpen, run_bind_of (run_read _ s), run_bind_of (run_findOpenInode ho.seen)]
  -- Either the inode is open and gets one more opener, or it is read from the
  -- disk and has one.
  cases hfound : s.part.openInodes.find? (fun a => decide ((s.inode a).iNo = n)) with
  | some a =>
      have ha := List.mem_of_find?_eq_some hfound
      have hi : inodeOf s n = s.inode a := by
        rw [inodeOf, hfound]
        rfl
      generalize hs' : s.setInode a
        { s.inode a with iOpenCnts := add32 (s.inode a).iOpenCnts 1 } = s'
      have hself : s'.inode a = { s.inode a with iOpenCnts := add32 (s.inode a).iOpenCnts 1 } := by
        rw [← hs']
        exact Function.update_self _ _ _
      refine ⟨a, s', ?_, ⟨hs' ▸ ho.seen a ha, hs' ▸ ha, fun hzero => ?_⟩, hs' ▸ rfl, hs' ▸ rfl,
        hs' ▸ hm, ?_, fun k hk => ?_⟩
      · rw [← hs']
        rfl
      · -- somebody else has it open, so this is not the last one
        have hcount := ho.count a ha
        rw [hself] at hzero
        dsimp only at hzero
        rw [sub32, add32] at hzero
        omega
      · rw [hself, hi]
      · rw [hself, hi]
  | none =>
      have hi : inodeOf s n = diskInode s n := by
        rw [inodeOf, hfound]
        rfl
      rcases inodePos_fits hfits hn with ⟨-, -, hpos, -, hdisk, -⟩
      have hm' : Memory ({ s with nextInode := s.nextInode + 1 }.setHome s.nextInode .kernel) := hm
      have hrec := decodeInode_sectors s.disk s.part.sb n
      dsimp only
      rw [inodeFetch, run_bind_of (run_inodeLocate hn s), run_bind_of hm.run_mallocUnchecked,
        run_bind_of (run_newInode _ _), run_bind_of hm'.run_mallocUnchecked,
        run_bind_of (run_ideRead hdisk hpos _)]
      refine ⟨s.nextInode, _, rfl, ⟨Or.inl (Function.update_self _ _ _), List.mem_cons_self,
        fun _ => Function.update_self _ _ _⟩, rfl, rfl, hm, ?_, fun k hk => ?_⟩
      · show (Function.update s.inode s.nextInode _ s.nextInode).iNo = _
        rw [Function.update_self, hi]
        exact hrec.iNo
      · show (Function.update s.inode s.nextInode _ s.nextInode).iSectors k = _
        rw [Function.update_self, hi]
        exact hrec.iSectors k hk

/-- `inode_close` touches neither the disk nor the bitmaps. -/
theorem run_closeOne (h : Closable t a s) :
    ∃ s', (inodeClose t a).run s = .ok ((), s') ∧ s'.disk = s.disk ∧
      s'.part = { s.part with openInodes := s'.part.openInodes } := by
  by_cases hzero : sub32 (s.inode a).iOpenCnts 1 = 0
  · rw [inodeClose, run_bind_of (run_inodeAt h.sees)]
    dsimp only
    rw [setInodeAt, run_bind_of (run_modify _ _), if_pos hzero]
    generalize hs₁ : s.setInode a
      { s.inode a with iOpenCnts := sub32 (s.inode a).iOpenCnts 1 } = s₁
    have hlist₁ : a ∈ s₁.part.openInodes := hs₁ ▸ h.listed
    have hhome₁ : s₁.home a = .kernel := hs₁ ▸ h.last hzero
    have hdisk₁ : s₁.disk = s.disk := hs₁ ▸ rfl
    have hpart₁ : s₁.part = s.part := hs₁ ▸ rfl
    rw [run_bind_of (run_read _ _), run_bind_of (run_check_pos (decide_eq_true hlist₁) _),
      run_bind_of (run_read _ _), run_bind_of (run_check_pos hhome₁ _), run_modify]
    refine ⟨_, rfl, hdisk₁, ?_⟩
    show ({ s₁.part with openInodes := _ } : Partition) = _
    rw [hpart₁]
    rfl
  · exact ⟨_, run_inodeClose_more h.sees hzero, rfl, rfl⟩

end Open

/-- The blocks of the inode and its table are free, and so is the number. What
    has changed in the bitmaps is on the disk. The record is cleared, and the
    others are as before. -/
structure Released (n : Nat) (i : Inode) (s s' : Fs) : Prop where
  blocks : ∀ k, bitmapScanTest s'.part.blockBitmap k = true ↔
    bitmapScanTest s.part.blockBitmap k = true ∧
      ¬ OwnSector s.disk i (s.part.sb.dataStartLba + k)
  inodes : ∀ k, bitmapScanTest s'.part.inodeBitmap k = true ↔
    bitmapScanTest s.part.inodeBitmap k = true ∧ k ≠ n
  blockSectors : ∀ k b, OwnSector s.disk i (s.part.sb.dataStartLba + k) → b < 512 →
    s'.disk ((s.part.sb.blockBitmapLba + k / 4096) * 512 + b) =
      s'.part.blockBitmap.bits (k / 4096 * 512 + b)
  inodeSector : ∀ b, b < 512 → s'.disk ((s.part.sb.inodeBitmapLba + n / 4096) * 512 + b) =
    s'.part.inodeBitmap.bits (n / 4096 * 512 + b)
  record : ∀ b, b < inodeSize → s'.disk (inodeOff s.part.sb n + b) = 0
  others : ∀ m b, m < 4096 → m ≠ n → b < inodeSize →
    s'.disk (inodeOff s.part.sb m + b) = s.disk (inodeOff s.part.sb m + b)

section Numbers

variable {s : Fs} {n : Nat}

/-- `inode_release` clears the bit of the number and writes its sector. -/
theorem run_releaseNumber (hv : TableFits s.part) (hi : InodeBitmapFits s.part) (hn : n < 4096)
    {β : Type} (g : Unit → FsM β) :
    (Prog.modify (fun s => s.setInodeBitmap (bitmapSet s.part.inodeBitmap n false)) >>= fun _ =>
      bitmapSync n .inode >>= g).run s =
    (g ()).run ((s.setInodeBitmap (bitmapSet s.part.inodeBitmap n false)).setDisk
      (s.part.sb.inodeBitmapLba * sectorSize) (1 * sectorSize)
      (bitmapSet s.part.inodeBitmap n false).bits) := by
  have hmax : maxLba = 163839 := rfl
  have hin := hv.inPart
  have hon := hv.onDisk
  have hbefore := hi.before
  have hzero : n / 4096 = 0 := by omega
  have hsec : add32 s.part.sb.inodeBitmapLba 0 = s.part.sb.inodeBitmapLba := by
    rw [add32, Nat.mod_eq_of_lt (by omega), Nat.add_zero]
  -- All numbers are in the first sector of the bitmap, which is written as a whole.
  have hsync : (bitmapSync n .inode).run
      (s.setInodeBitmap (bitmapSet s.part.inodeBitmap n false)) =
      .ok ((), (s.setInodeBitmap (bitmapSet s.part.inodeBitmap n false)).setDisk
        (s.part.sb.inodeBitmapLba * sectorSize) (1 * sectorSize)
        (bitmapSet s.part.inodeBitmap n false).bits) := by
    have hbuf : (fun k => (bitmapSet s.part.inodeBitmap n false).bits (0 * sectorSize + k)) =
        (bitmapSet s.part.inodeBitmap n false).bits := by
      funext k
      rw [Nat.zero_mul, Nat.zero_add]
    rw [bitmapSync, run_bind_of (run_read _ _), hzero]
    show (ideWriteFrom (add32 s.part.sb.inodeBitmapLba 0) 1 _).run _ = _
    rw [hsec, ideWriteFrom, run_bind_of (run_assert ⟨by omega, by omega⟩ _),
      run_bind_of (run_pause _), run_bind_of (run_modify _ _), run_pause]
    show Except.ok ((), Fs.setDisk _ _ _ (fun k =>
      (bitmapSet s.part.inodeBitmap n false).bits (0 * sectorSize + k))) = _
    rw [hbuf]
  rw [run_bind_of (run_modify _ s), run_bind_of hsync]

/-- The end of `inode_release`: the number is free, and the record cleared. -/
theorem run_releaseEnd {t a : Nat} (hfits : TableFits s.part) (hi : InodeBitmapFits s.part)
    (hn : n < 4096) (hm : Memory s) (hclosable : Closable t a s) :
    ∃ s', (Prog.modify (fun s => s.setInodeBitmap (bitmapSet s.part.inodeBitmap n false)) >>= fun _ =>
        bitmapSync n .inode >>= fun _ => mallocUnchecked >>= fun _ =>
        inodeDelete n >>= fun _ => inodeClose t a).run s = .ok ((), s') ∧
      s'.part.blockBitmap = s.part.blockBitmap ∧
      s'.part.inodeBitmap = bitmapSet s.part.inodeBitmap n false ∧
      ∀ x, s'.disk x =
        if inodeOff s.part.sb n ≤ x ∧ x < inodeOff s.part.sb n + inodeSize then 0
        else if x / 512 = s.part.sb.inodeBitmapLba then
          (bitmapSet s.part.inodeBitmap n false).bits (x % 512)
        else s.disk x := by
  have hnumber := run_releaseNumber hfits hi hn
    (fun _ => mallocUnchecked >>= fun _ => inodeDelete n >>= fun _ => inodeClose t a)
  generalize hs₁ : (s.setInodeBitmap (bitmapSet s.part.inodeBitmap n false)).setDisk
    (s.part.sb.inodeBitmapLba * sectorSize) (1 * sectorSize)
    (bitmapSet s.part.inodeBitmap n false).bits = s₁ at hnumber
  have hm₁ : Memory s₁ := hs₁ ▸ hm
  have hfits₁ : TableFits s₁.part := hs₁ ▸ ⟨hfits.inPart, hfits.onDisk⟩
  have hsb₁ : s₁.part.sb = s.part.sb := hs₁ ▸ rfl
  have hdelete := inodeDelete_disk hfits₁ hn
  rw [hsb₁] at hdelete
  generalize hs₂ : s₁.setDisk (inodeOff s.part.sb n) inodeSize (fun _ => 0) = s₂ at hdelete
  -- Neither the bitmap nor the record changes who has the inode open.
  have hclosable₂ : Closable t a s₂ := by
    rw [← hs₂, ← hs₁]
    exact ⟨hclosable.sees, hclosable.listed, hclosable.last⟩
  rcases run_closeOne hclosable₂ with ⟨s', hclose, hdisk, hpart⟩
  have hmaps : s₂.part.blockBitmap = s.part.blockBitmap ∧
      s₂.part.inodeBitmap = bitmapSet s.part.inodeBitmap n false := by
    rw [← hs₂, ← hs₁]
    exact ⟨rfl, rfl⟩
  refine ⟨s', ?_, ?_, ?_, fun x => ?_⟩
  · rw [hnumber, run_bind_of hm₁.run_mallocUnchecked, run_bind_of hdelete, hclose]
  · rw [hpart]
    exact hmaps.1
  · rw [hpart]
    exact hmaps.2
  · have hd : (s.setInodeBitmap (bitmapSet s.part.inodeBitmap n false)).disk = s.disk := rfl
    have hsect := setDisk_sector (s.setInodeBitmap (bitmapSet s.part.inodeBitmap n false))
      s.part.sb.inodeBitmapLba (bitmapSet s.part.inodeBitmap n false).bits x
    rw [hs₁, hd] at hsect
    rw [hdisk, ← hs₂, ← hsect]
    rfl

/-- What the two halves of `inode_release` have done is what it is to do. -/
theorem Cleared.released {s₁ s₂ s' : Fs} {i : Inode} (hv : Volume s.part)
    (hi : InodeBitmapFits s.part) (hn : n < 4096)
    (hown : ∀ m, OwnSector s.disk i m → DataBlock s.part m) (hdisk₁ : s₁.disk = s.disk)
    (hpart₁ : s₁.part = { s.part with openInodes := s₁.part.openInodes })
    (h : Cleared (fun x => OwnSector s.disk i (s.part.sb.dataStartLba + x)) s₁ s₂)
    (hblocks : s'.part.blockBitmap = s₂.part.blockBitmap)
    (hinodes : s'.part.inodeBitmap = bitmapSet s₂.part.inodeBitmap n false)
    (hdisk : ∀ x, s'.disk x =
      if inodeOff s₂.part.sb n ≤ x ∧ x < inodeOff s₂.part.sb n + inodeSize then 0
      else if x / 512 = s₂.part.sb.inodeBitmapLba then
        (bitmapSet s₂.part.inodeBitmap n false).bits (x % 512)
      else s₂.disk x) : Released n i s s' := by
  have hsb₁ : s₁.part.sb = s.part.sb := by rw [hpart₁]
  have hmap₁ : s₁.part.blockBitmap = s.part.blockBitmap := by rw [hpart₁]
  have hpart₂ : s₂.part = { s₁.part with blockBitmap := s₂.part.blockBitmap } :=
    congrArg Fs.part h.rest
  have hsb₂ : s₂.part.sb = s.part.sb := h.sb.trans hsb₁
  have hnodes₂ : s₂.part.inodeBitmap = s.part.inodeBitmap := by rw [hpart₂, hpart₁]
  rw [hsb₂] at hdisk
  -- Where the records lie: behind the bitmap of the inodes, apart from each other.
  have hoff : ∀ m, m < 4096 → inodeOff s.part.sb m = s.part.sb.inodeTableLba * 512 + m * 76 :=
    fun m hm => inodeOff_eq hv.toTableFits hm
  have hoffn := hoff n hn
  have hsize : inodeSize = 76 := rfl
  have hafter := hi.after
  have hbefore := hi.before
  refine ⟨fun k => ?_, fun k => ?_, fun k b hk hb => ?_, fun b hb => ?_, fun b hb => ?_,
    fun m b hm hmn hb => ?_⟩
  · rw [hblocks, ← hmap₁]
    by_cases hk : OwnSector s.disk i (s.part.sb.dataStartLba + k)
    · rw [h.cleared k hk]
      exact ⟨fun h => Bool.noConfusion h, fun h => absurd hk h.2⟩
    · rw [h.kept k hk]
      exact ⟨fun h => ⟨h, hk⟩, And.left⟩
  · rw [hinodes, bitmapScanTest_set, hnodes₂]
    by_cases hkn : k = n
    · rw [if_pos hkn]
      exact ⟨fun h => Bool.noConfusion h, fun h => absurd hkn h.2⟩
    · rw [if_neg hkn]
      exact ⟨fun h => ⟨h, hkn⟩, And.left⟩
  · -- the sectors of the block bitmap lie before everything written later
    have hdata := (hown _ hk).2.2
    have hlen := hv.bitmap
    have hsect : k / 4096 < s.part.sb.blockBitmapSects := by omega
    have hsynced := h.synced k b hk hb
    rw [hsb₁] at hsynced
    rw [hdisk, if_neg (by omega), if_neg (by omega), hsynced, hblocks]
  · have hzero : n / 4096 = 0 := by omega
    have hbyte : ((s.part.sb.inodeBitmapLba + 0) * 512 + b) % 512 = 0 * 512 + b := by omega
    rw [hzero, hdisk, if_neg (by omega), if_pos (by omega), hinodes, hbyte]
  · rw [hdisk, if_pos (by omega)]
  · -- the other records are neither in the bitmaps nor in this one
    have hoffm := hoff m hm
    have hapart := inodeOff_apart hv.toTableFits hn hm hmn hb
    rw [hdisk, if_neg hapart, if_neg (by omega), ← hdisk₁]
    by_contra hne
    have hwritten := h.disk _ hne
    rw [hsb₁] at hwritten
    have hlt := hwritten.2
    omega

end Numbers

/-- `inode_release` frees what belongs to the inode, and nothing else. -/
theorem inode_released (t n : Nat) (s : Fs) (hv : Volume s.part) (hi : InodeBitmapFits s.part)
    (ho : OpenOnes t s) (hm : Memory s) (hn : n < 4096) (hno : (inodeOf s n).iNo = n)
    (hown : ∀ m, OwnSector s.disk (inodeOf s n) m → DataBlock s.part m) :
    ∃ s', (inodeRelease t n).run s = .ok ((), s') ∧ Released n (inodeOf s n) s s' := by
  rcases run_openOne hv.toTableFits ho hm hn with ⟨a, s₁, hopen, h₁⟩
  have hsb₁ : s₁.part.sb = s.part.sb := by rw [h₁.part]
  have hmap₁ : s₁.part.blockBitmap = s.part.blockBitmap := by rw [h₁.part]
  have hv₁ : Volume s₁.part := by
    rw [h₁.part]
    exact ⟨⟨hv.inPart, hv.onDisk⟩, hv.boot, hv.bitmap, hv.table, hv.data, hv.free, hv.root⟩
  -- the inode in memory has the same storage
  have hsame : ∀ m, OwnSector s₁.disk (s₁.inode a) m ↔ OwnSector s.disk (inodeOf s n) m :=
    fun m => OwnSector.congr h₁.sectors (fun _ x _ => by rw [h₁.disk])
  have hown₁ : ∀ m, OwnSector s₁.disk (s₁.inode a) m → DataBlock s₁.part m := by
    intro m hm
    rw [DataBlock, hsb₁, hmap₁]
    exact hown m ((hsame m).mp hm)
  rcases run_releaseStorage hv₁ h₁.sees hown₁ with ⟨s₂, hstorage, h₂⟩
  have hpart₂ : s₂.part = { s₁.part with blockBitmap := s₂.part.blockBitmap } :=
    congrArg Fs.part h₂.rest
  have hfits₂ : TableFits s₂.part := by
    rw [hpart₂]
    exact ⟨hv₁.inPart, hv₁.onDisk⟩
  have hi₂ : InodeBitmapFits s₂.part := by
    rw [hpart₂, h₁.part]
    exact ⟨hi.after, hi.before⟩
  have hm₂ : Memory s₂ := by
    rw [h₂.rest]
    exact h₁.memory
  have hclosable₂ : Closable t a s₂ := by
    rw [h₂.rest]
    exact ⟨h₁.sees, h₁.listed, h₁.last⟩
  rcases run_releaseEnd hfits₂ hi₂ hn hm₂ hclosable₂ with ⟨s', hend, hblocks, hinodes, hdisk⟩
  refine ⟨s', ?_, ?_⟩
  · rw [inodeRelease, run_bind_of hopen, run_bind_of (run_inodeAt h₁.sees),
      run_bind_of (run_assert (h₁.number.trans hno) s₁), run_bind_of hstorage]
    exact hend
  · refine (h₂.congr (fun x => ?_)).released hv hi hn hown h₁.disk h₁.part hblocks hinodes hdisk
    rw [hsame, hsb₁]

/-- An open file, number 5, with a block of its own, and with the table and the
    indirect block of the directory. -/
def openFile : Fs :=
  { largeDir with inode := fun _ => ⟨5, 6157, 1, false,
    fun k => if k = 0 then 613 else if k = 12 then 624 else 0⟩ }

set_option maxRecDepth 20000 in
theorem openFile_blocks : ∀ k : Fin 140, fileBlocks largeDisk (openFile.inode 0) k =
    if k.val = 0 then 613 else if k.val = 12 then 625 else 0 := by
  decide +kernel

theorem openFile_own {m : Nat} (h : OwnSector openFile.disk (inodeOf openFile 5) m) :
    DataBlock openFile.part m := by
  have hi : inodeOf openFile 5 = openFile.inode 0 := rfl
  have hm : m = 613 ∨ m = 624 ∨ m = 625 := by
    rw [hi] at h
    rcases h with ⟨hne, htable | ⟨k, hk, hblock⟩⟩
    · exact Or.inr (Or.inl htable)
    · have hlt : k < 140 := hk.elim (fun h => by omega) And.right
      have hdisk : openFile.disk = largeDisk := rfl
      rw [hdisk, openFile_blocks ⟨k, hlt⟩] at hblock
      dsimp only at hblock
      split at hblock
      · exact Or.inl hblock
      · split at hblock
        · exact Or.inr (Or.inr hblock)
        · exact absurd hblock hne
  have hmax : maxLba = 163839 := rfl
  have hdata : openFile.part.sb.dataStartLba = 612 := by decide
  have hlen : openFile.part.blockBitmap.btmpBytesLen = 512 := rfl
  rw [DataBlock, hdata, hlen]
  omega

theorem inode_released_open : ∃ s', (inodeRelease 0 5).run openFile = .ok ((), s') ∧
    Released 5 (inodeOf openFile 5) openFile s' := by
  have hone : OpenOnes 0 openFile := by
    refine ⟨fun a ha => ?_, fun _ _ => ⟨Nat.one_pos, by show 1 < 2 ^ 32; omega⟩⟩
    rw [List.mem_singleton.mp ha]
    exact Or.inl rfl
  exact inode_released 0 5 openFile largeDir_volume ⟨by decide, by decide⟩ hone (fun _ => rfl)
    (by decide) rfl (fun m h => openFile_own h)

end ForikOS
