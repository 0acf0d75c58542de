import ForikOS.Theory.Bitmap
import ForikOS.Theory.FsFrame

/-!
# The Bitmap of a New Partition

What `partition_format` writes as the block bitmap.

The bitmap takes whole sectors, so its last sector has bits for blocks that do
not exist. They are set in two steps: first every byte from the one with the
bit after the last block on, to the end of that byte's sector, and then the
bits of that byte which stand for blocks are cleared again. The loop of the
second step runs once too often, up to the bit after the last block itself. So
one block too many is free, unless the number of blocks is a multiple of the
bits of a sector. In that case there is no last sector to fill, and what the
two steps change lies behind the bitmap and is not written.

If there are fewer than eight blocks, the byte is the first of the bitmap, and
its bit for the root directory is lost as well.

## Main definitions

* `FormatMarks`: The bitmap on the disk has exactly the free blocks clear.

## Theorems

* `bitmapScanTest_format`: The bits as `partition_format` makes them.
* `partitionFormat_disk`: They are on the disk in the end.
* `run_partitionFormat`: A partition on the disk is formatted without a failed assertion.
* `format_marks_usable`: When they are right.
-/

namespace ForikOS

open Prog

/-- Clearing the low bits of a byte leaves the others. -/
theorem getLsbD_clearLow {n : Nat} (b : Byte) {j : Nat} (hn : n ≤ 8) (hj : j < 8) :
    (clearLow n b).getLsbD j = (decide (n ≤ j) && b.getLsbD j) := by
  induction n with
  | zero => rw [clearLow, decide_eq_true (Nat.zero_le j), Bool.true_and]
  | succ n ih =>
      have hpow := BitVec.getLsbD_twoPow (w := 8) n j
      have hlt : n < 8 := by omega
      rw [clearLow, ← BitVec.twoPow_eq, BitVec.getLsbD_and, BitVec.getLsbD_not, hpow,
        ih (by omega)]
      by_cases hnj : n = j
      · simp only [hnj, hj, decide_true, Bool.and_self, Bool.not_true, Bool.and_false,
          Nat.not_succ_le_self, decide_false, Bool.false_and]
      · by_cases hle : n ≤ j
        · have hlt' : n + 1 ≤ j := by omega
          simp only [hle, hlt', hj, hnj, hlt, decide_true, decide_false, Bool.and_false,
            Bool.not_false, Bool.and_true, Bool.true_and]
        · have hgt : ¬ n + 1 ≤ j := by omega
          simp only [hle, hgt, decide_false, Bool.false_and]

section Bits

variable {len k i : Nat}

theorem formatBlockBits_last : formatBlockBits len (len / 8) = clearLow (len % 8 + 1) 0xff := by
  rw [formatBlockBits]
  rw [if_pos rfl, if_pos ⟨Nat.le_refl _, by rw [sectorSize]; omega⟩]

theorem formatBlockBits_before (h : k < len / 8) :
    formatBlockBits len k = if k = 0 then 1 else 0 := by
  rw [formatBlockBits]
  rw [if_neg (by omega), if_neg (by omega)]

theorem formatBlockBits_after (h : len / 8 < k) (hk : k < len / 8 + (512 - len / 8 % 512)) :
    formatBlockBits len k = 0xff := by
  rw [formatBlockBits]
  rw [if_neg (by omega), if_pos ⟨by omega, by rw [sectorSize]; omega⟩]

/-- The bits of the sectors that are written. Up to the byte with the bit
    after the last block only the first is set; from there on, those behind
    that bit. -/
theorem bitmapScanTest_format {n : Nat} (hi : i < divRoundUp len 4096 * 4096)
    (hlen : len + 4095 < 2 ^ 32) : bitmapScanTest ⟨n, formatBlockBits len⟩ i =
      if i < len / 8 * 8 then decide (i = 0) else decide (len < i) := by
  rw [divRoundUp, add32, Nat.mod_eq_of_lt (by omega)] at hi
  rw [bitmapScanTest_eq]
  dsimp only
  by_cases hbefore : i / 8 < len / 8
  · -- a byte before the last one, which is as the buffer came
    have hpos : i < len / 8 * 8 := by omega
    rw [formatBlockBits_before hbefore, if_pos hpos]
    by_cases hzero : i / 8 = 0
    · have hone : (1 : Byte).getLsbD (i % 8) = decide (i % 8 = 0) := by
        have hall : ∀ j : Fin 8, (1 : Byte).getLsbD j = decide (j.val = 0) := by decide
        exact hall ⟨i % 8, Nat.mod_lt i (by omega)⟩
      rw [if_pos hzero, hone]
      exact decide_eq_decide.mpr (by omega)
    · rw [if_neg hzero, decide_eq_false (by omega)]
      exact BitVec.getLsbD_zero
  · have hneg : ¬ i < len / 8 * 8 := by omega
    rw [if_neg hneg]
    have hbyte : ((0xff : Byte).getLsbD (i % 8)) = true := by
      have hall : ∀ j : Fin 8, (0xff : Byte).getLsbD j = true := by decide
      exact hall ⟨i % 8, Nat.mod_lt i (by omega)⟩
    by_cases hlast : i / 8 = len / 8
    · rw [hlast, formatBlockBits_last, getLsbD_clearLow _ (by omega) (Nat.mod_lt i (by omega)),
        hbyte, Bool.and_true]
      exact decide_eq_decide.mpr (by omega)
    · rw [formatBlockBits_after (by omega) (by omega), hbyte, decide_eq_true (by omega)]

end Bits

/-- The block bitmap of a partition as it is on the disk. -/
def diskBlockBitmap (disk : Nat → Byte) (sb : SuperBlock) : Bitmap :=
  ⟨sb.blockBitmapSects * sectorSize, fun k => disk (sb.blockBitmapLba * sectorSize + k)⟩

/-- The bitmap on the disk has the bit of the root directory set, and of the
    others exactly those of the blocks there are clear. As long as nothing else
    gets clear in memory, every block `block_bitmap_alloc` returns lies in the
    partition. -/
structure FormatMarks (startLba secCnt : Nat) (disk : Nat → Byte) : Prop where
  root : bitmapScanTest (diskBlockBitmap disk (formatSb startLba secCnt)) 0 = true
  others : ∀ i, 0 < i → i < (formatSb startLba secCnt).blockBitmapSects * 4096 →
    (bitmapScanTest (diskBlockBitmap disk (formatSb startLba secCnt)) i = false ↔
      i < formatBits secCnt)
  inside : ∀ s lba s', s.part.sb = formatSb startLba secCnt →
    s.part.blockBitmap.btmpBytesLen = (formatSb startLba secCnt).blockBitmapSects * sectorSize →
    (∀ i, bitmapScanTest s.part.blockBitmap i = false →
      bitmapScanTest (diskBlockBitmap disk (formatSb startLba secCnt)) i = false) →
    blockBitmapAlloc.run s = .ok (some lba, s') → lba < startLba + secCnt

section Format

variable {startLba secCnt : Nat}

theorem formatBits_eq (hmin : 613 ≤ secCnt) (hmax : secCnt ≤ 163840) :
    formatBits secCnt = secCnt - 611 - (secCnt - 611 + 4095) / 4096 := by
  have htable : divRoundUp (inodeSize * 4096) sectorSize = 608 := by decide
  have hbitmap : divRoundUp 4096 4096 = 1 := by decide
  have hfree : sub32 secCnt 611 = secCnt - 611 := by
    rw [sub32]
    omega
  rw [formatBits, htable, hbitmap]
  show sub32 (sub32 secCnt 611) (divRoundUp (sub32 secCnt 611) 4096) = _
  rw [hfree, divRoundUp, add32, sub32]
  omega

theorem formatSb_sects (startLba secCnt : Nat) :
    (formatSb startLba secCnt).inodeBitmapSects = 1 ∧
      (formatSb startLba secCnt).inodeTableSects = 608 := by
  have hbitmap : divRoundUp 4096 4096 = 1 := by decide
  have htable : divRoundUp (inodeSize * 4096) sectorSize = 608 := by decide
  exact ⟨hbitmap, htable⟩

/-- Where the parts of the partition begin. -/
theorem formatSb_layout (hmin : 613 ≤ secCnt) (hmax : secCnt ≤ 163840)
    (hword : startLba + secCnt ≤ 2 ^ 32) :
    let sects := (formatBits secCnt + 4095) / 4096
    (formatSb startLba secCnt).blockBitmapSects = sects ∧
      (formatSb startLba secCnt).blockBitmapLba = startLba + 2 ∧
      (formatSb startLba secCnt).inodeBitmapLba = startLba + 2 + sects ∧
      (formatSb startLba secCnt).inodeTableLba = startLba + 3 + sects ∧
      (formatSb startLba secCnt).dataStartLba = startLba + 611 + sects := by
  have hbits := formatBits_eq hmin hmax
  have htable : divRoundUp (inodeSize * 4096) sectorSize = 608 := by decide
  have hbitmap : divRoundUp 4096 4096 = 1 := by decide
  have hsects : divRoundUp (formatBits secCnt) 4096 = (formatBits secCnt + 4095) / 4096 := by
    rw [divRoundUp, add32]
    omega
  have hfit : (formatBits secCnt + 4095) / 4096 + 611 < secCnt := by omega
  rw [formatSb, htable, hbitmap, hsects]
  simp only [add32]
  refine ⟨trivial, ?_, ?_, ?_, ?_⟩ <;> omega

theorem disk_of_setDisk {s : Fs} {lba n x : Nat} {buf : Nat → Byte}
    (h : x < lba * 512 ∨ lba * 512 + n * 512 ≤ x) :
    (s.setDisk (lba * sectorSize) (n * sectorSize) buf).disk x = s.disk x := by
  have hout : ¬ (lba * sectorSize ≤ x ∧ x < lba * sectorSize + n * sectorSize) := by
    rw [sectorSize]
    omega
  exact if_neg hout

/-- Nothing that `partition_format` writes after the bitmap overwrites it. -/
theorem partitionFormat_disk {s s' : Fs} {u : Unit} (hmin : 613 ≤ s.part.secCnt)
    (hmax : s.part.secCnt ≤ 163840) (hword : s.part.startLba + s.part.secCnt ≤ 2 ^ 32)
    (h : partitionFormat.run s = .ok (u, s')) {k : Nat}
    (hk : k < (formatSb s.part.startLba s.part.secCnt).blockBitmapSects * 512) :
    s'.disk ((formatSb s.part.startLba s.part.secCnt).blockBitmapLba * sectorSize + k) =
      formatBlockBits (formatBits s.part.secCnt) k := by
  rcases formatSb_layout hmin hmax hword with ⟨hsects, hbmap, himap, htable, hdata⟩
  rcases run_bind_ok.mp h with ⟨part, s₁, hpart, h₁⟩
  rcases read_ok hpart with ⟨rfl, rfl⟩
  rcases run_bind_ok.mp h₁ with ⟨_, s₂, hsb, h₂⟩
  rcases run_bind_ok.mp h₂ with ⟨_, s₃, hmalloc, h₃⟩
  rcases run_bind_ok.mp h₃ with ⟨_, s₄, hbits, h₄⟩
  rcases run_bind_ok.mp h₄ with ⟨_, s₅, hinodes, h₅⟩
  rcases run_bind_ok.mp h₅ with ⟨_, s₆, hrecords, hroot⟩
  rw [sectorSize]
  -- the inode bitmap, the records and the root directory all lie behind the bitmap
  rw [(ideWrite_run hroot).2, disk_of_setDisk (by omega), (ideWrite_run hrecords).2,
    disk_of_setDisk (by omega), (ideWrite_run hinodes).2, disk_of_setDisk (by omega),
    (ideWrite_run hbits).2]
  show memcpyTo _ (_ * 512) (_ * 512) _ _ = _
  rw [memcpyTo, if_pos ⟨by omega, by omega⟩, Nat.add_sub_cancel_left]

/-- The bits on the disk after `partition_format`. -/
theorem bitmapScanTest_disk {s s' : Fs} {u : Unit} (hmin : 613 ≤ s.part.secCnt)
    (hmax : s.part.secCnt ≤ 163840) (hword : s.part.startLba + s.part.secCnt ≤ 2 ^ 32)
    (h : partitionFormat.run s = .ok (u, s')) {i : Nat}
    (hi : i < (formatSb s.part.startLba s.part.secCnt).blockBitmapSects * 4096) :
    bitmapScanTest (diskBlockBitmap s'.disk (formatSb s.part.startLba s.part.secCnt)) i =
      if i < formatBits s.part.secCnt / 8 * 8 then decide (i = 0)
      else decide (formatBits s.part.secCnt < i) := by
  have hlen := formatBits_eq hmin hmax
  have hsame : (diskBlockBitmap s'.disk (formatSb s.part.startLba s.part.secCnt)).bits (i / 8) =
      formatBlockBits (formatBits s.part.secCnt) (i / 8) :=
    partitionFormat_disk hmin hmax hword h (by omega)
  rw [bitmapScanTest_eq, hsame, ← bitmapScanTest_format (n := 0) hi (by omega),
    bitmapScanTest_eq]

/-- A partition that lies on the disk can be formatted. -/
theorem run_partitionFormat {s : Fs} (hmin : 613 ≤ s.part.secCnt)
    (hdisk : s.part.startLba + s.part.secCnt ≤ maxLba + 1) (hmalloc : s.mallocs 0 = true) :
    ∃ s', partitionFormat.run s = .ok ((), s') := by
  have hlast : maxLba = 163839 := rfl
  have hword : s.part.startLba + s.part.secCnt ≤ 2 ^ 32 := by omega
  rcases formatSb_layout hmin (by omega) hword with ⟨hsects, hbmap, himap, htable, hdata⟩
  have hlen := formatBits_eq hmin (by omega)
  have hsb : add32 s.part.startLba 1 = s.part.startLba + 1 := by
    rw [add32]
    omega
  rcases formatSb_sects s.part.startLba s.part.secCnt with ⟨hinodes, hrecords⟩
  have hnodes : 0 < (formatSb s.part.startLba s.part.secCnt).inodeBitmapSects := by omega
  have hrecs : 0 < (formatSb s.part.startLba s.part.secCnt).inodeTableSects := by omega
  have hmem := fun off n b => run_mallocUnchecked (s := s.setDisk off n b) hmalloc
  rw [partitionFormat, run_bind_of (run_read _ s),
    run_bind_of (run_ideWrite (by omega) (by omega) _ s),
    run_bind_of (hmem _ _ _),
    run_bind_of (run_ideWrite (by omega) (by omega) _ _),
    run_bind_of (run_ideWrite (by omega) hnodes _ _),
    run_bind_of (run_ideWrite (by omega) hrecs _ _), run_ideWrite (by omega) (by omega)]
  exact ⟨_, rfl⟩

/-- A block that is handed out had its bit clear. -/
theorem blockBitmapAlloc_clear {s s' : Fs} {lba : Nat}
    (h : blockBitmapAlloc.run s = .ok (some lba, s')) :
    ∃ i, i < s.part.blockBitmap.btmpBytesLen * 8 ∧ bitmapScanTest s.part.blockBitmap i = false ∧
      lba = add32 s.part.sb.dataStartLba i := by
  rcases run_bind_ok.mp h with ⟨part, s₁, hpart, h₁⟩
  rcases read_ok hpart with ⟨rfl, rfl⟩
  rcases run_bind_ok.mp h₁ with ⟨found, s₂, hscan, h₂⟩
  rcases run_bind_ok.mp hscan with ⟨_, s₃, hassert, h₃⟩
  have hlt := (assert_run hassert).1
  have hstart := scanStart_spec hlt
  rw [(pure_ok h₃).1, bitmapScanRest, if_neg (Nat.ne_of_lt hlt), if_pos rfl] at h₂
  rcases run_bind_ok.mp h₂ with ⟨_, s₄, -, h₄⟩
  exact ⟨_, hstart.1, hstart.2.1, Option.some.inj (pure_ok h₄).1⟩

/-- The new bitmap is right exactly if the blocks fill its sectors. -/
theorem format_marks_usable (s s' : Fs) (u : Unit) (hmin : 613 ≤ s.part.secCnt)
    (hmax : s.part.secCnt ≤ 163840) (hword : s.part.startLba + s.part.secCnt ≤ 2 ^ 32)
    (h : partitionFormat.run s = .ok (u, s')) :
    FormatMarks s.part.startLba s.part.secCnt s'.disk ↔ formatBits s.part.secCnt % 4096 = 0 := by
  rcases formatSb_layout hmin hmax hword with ⟨hsects, hbmap, himap, htable, hdata⟩
  have hlen := formatBits_eq hmin hmax
  constructor
  · -- if there is a last sector to fill, the bit after the last block is in it
    intro hmarks
    by_contra hmod
    have hlast := hmarks.others (formatBits s.part.secCnt) (by omega) (by omega)
    rw [bitmapScanTest_disk hmin hmax hword h (by omega), if_neg (by omega),
      decide_eq_false (Nat.lt_irrefl _)] at hlast
    exact Nat.lt_irrefl _ (hlast.mp rfl)
  · intro hmod
    refine ⟨?_, fun i hpos hi => ?_, fun s₁ lba s₂ hsb hbytes hclear halloc => ?_⟩
    · rw [bitmapScanTest_disk hmin hmax hword h (by omega), if_pos (by omega)]
      rfl
    · rw [bitmapScanTest_disk hmin hmax hword h hi, if_pos (by omega), decide_eq_false (by omega)]
      exact ⟨fun _ => by omega, fun _ => rfl⟩
    · rcases blockBitmapAlloc_clear halloc with ⟨i, hi, -, rfl⟩
      have hsec : sectorSize = 512 := rfl
      rw [hbytes, hsects, hsec] at hi
      rw [hsb, hdata, add32]
      omega

/-- A partition with one sector of bitmap and as many blocks as it has bits. -/
theorem format_marks_usable_4096 : ∃ s', partitionFormat.run (blankFs 1 4709 fun _ => false) =
    .ok ((), s') ∧ (FormatMarks 1 4709 s'.disk ↔ formatBits 4709 % 4096 = 0) := by
  rcases run_partitionFormat (s := blankFs 1 4709 fun _ => false) (by decide) (by decide) rfl with
    ⟨s', h⟩
  exact ⟨s', h, format_marks_usable (blankFs 1 4709 fun _ => false) s' () (by decide) (by decide)
    (by decide) h⟩

/-- The smallest partition has a single block, and its bit is lost. -/
theorem format_loses_root : ∃ s', partitionFormat.run (blankFs 1 613 fun _ => false) =
    .ok ((), s') ∧ ¬ FormatMarks 1 613 s'.disk := by
  rcases run_partitionFormat (s := blankFs 1 613 fun _ => false) (by decide) (by decide) rfl with
    ⟨s', h⟩
  refine ⟨s', h, fun hmarks => ?_⟩
  have hlen : formatBits 613 = 1 := formatBits_eq (by decide) (by decide)
  have hroot : bitmapScanTest (diskBlockBitmap s'.disk (formatSb 1 613)) 0 =
      if 0 < formatBits 613 / 8 * 8 then decide (0 = 0) else decide (formatBits 613 < 0) :=
    bitmapScanTest_disk (s := blankFs 1 613 fun _ => false) (by decide) (by decide) (by decide) h
      (by decide)
  rw [hlen, hmarks.root] at hroot
  exact absurd hroot (by decide)

end Format

end ForikOS
