import ForikOS.Theory.InodeTable
import ForikOS.Theory.Bitmap

/-!
# The Blocks of a File

Where the bytes of a file lie, and how blocks are handed out.

A file of size `n` owns the blocks `0` to `n / 512`, so at an exact multiple
of the block size it owns one block that holds nothing yet. The first twelve
addresses are in the inode and the others in the table of indirect blocks, a
block of its own. `Laid` says this of a disk and an inode for a number of the
last block, which need not be the one that goes with the size: `file_write`
collects the blocks first and moves the size while it writes.

A volume has its block bitmap, its inode table and its data one after the
other on the disk. Handing a block out sets one bit and writes one sector of
the block bitmap, so everything that lies elsewhere stays. `Allocs` is the
relation of what does no more than that and fills slots of one inode.

## Main definitions

* `fileBlocks`: The addresses of the blocks of a file.
* `Laid`, `NoBlocks`, `WellFormed`: A file whose blocks are recorded.
* `OwnSector`: The sectors of a file.
* `Volume`: The parts of a partition lie where they belong.
* `TakenBlock`: A block whose bit is set.
* `Allocs`: Blocks have been handed out.
* `FileAt`: The file in a slot of `file_table`.

## Theorems

* `fileBlocks_congr`: The addresses depend on the inode and on one sector.
* `run_blockBitmapAlloc`, `stops_blockBitmapAlloc`: A new block, or none left.
* `run_syncNew`: The bit of a new block goes to the disk.
-/

namespace ForikOS

open Prog

section Sectors

/-- A disk after one sector has been written. -/
theorem setDisk_sector (s : Fs) (lba : Nat) (b : Nat → Byte) (x : Nat) :
    (s.setDisk (lba * sectorSize) (1 * sectorSize) b).disk x =
      if x / 512 = lba then b (x % 512) else s.disk x := by
  show (if lba * 512 ≤ x ∧ x < lba * 512 + 1 * 512 then b (x - lba * 512) else s.disk x) = _
  by_cases hx : x / 512 = lba
  · rw [if_pos hx, if_pos (by omega)]
    congr 1
    omega
  · rw [if_neg hx, if_neg (by omega)]

/-- Two disks with the same sector. -/
theorem sectors_congr {d d' : Nat → Byte} {lba : Nat}
    (h : ∀ x, x / 512 = lba → d' x = d x) : sectors d' lba 1 = sectors d lba 1 := by
  funext k
  show (if k < 1 * 512 then d' (lba * 512 + k) else 0) = if k < 1 * 512 then d (lba * 512 + k) else 0
  by_cases hk : k < 1 * 512
  · rw [if_pos hk, if_pos hk, h _ (by omega)]
  · rw [if_neg hk, if_neg hk]

end Sectors

/-- The addresses of the blocks of a file, by the number of the block. -/
def fileBlocks (disk : Nat → Byte) (i : Inode) : Nat → Nat :=
  allBlocks i (indirectBlocks (sectors disk (i.iSectors 12) 1))

/-- The blocks `0` to `last` are recorded, and no others. -/
structure Laid (disk : Nat → Byte) (i : Inode) (last : Nat) : Prop where
  last_lt : last < 140
  recorded : ∀ k, k ≤ last → fileBlocks disk i k ≠ 0
  distinct : ∀ j k, j ≤ last → k ≤ last → fileBlocks disk i j = fileBlocks disk i k → j = k
  table : i.iSectors 12 ≠ 0 ↔ 12 ≤ last
  apart : 12 ≤ last → ∀ k, k ≤ last → fileBlocks disk i k ≠ i.iSectors 12
  rest : ∀ k, last < k → k < 12 ∨ 12 ≤ last → k < 140 → fileBlocks disk i k = 0

/-- A file without a block. -/
def NoBlocks (i : Inode) : Prop := i.iSize = 0 ∧ ∀ k, k < 13 → i.iSectors k = 0

/-- A file is empty and has no block, or its blocks go with its size. -/
def WellFormed (disk : Nat → Byte) (i : Inode) : Prop :=
  NoBlocks i ∨ Laid disk i (i.iSize / 512)

/-- The sectors of a file: its blocks and the table. -/
def OwnSector (disk : Nat → Byte) (i : Inode) (n : Nat) : Prop :=
  n ≠ 0 ∧ (n = i.iSectors 12 ∨
    ∃ k, (k < 12 ∨ i.iSectors 12 ≠ 0 ∧ k < 140) ∧ n = fileBlocks disk i k)

section FileBlocks

variable {d d' : Nat → Byte} {i i' : Inode} {last : Nat}

theorem fileBlocks_direct {k : Nat} (hk : k < 12) : fileBlocks d i k = i.iSectors k := by
  rw [fileBlocks, allBlocks, if_pos hk]

theorem fileBlocks_indirect {k : Nat} (hk : ¬ k < 12) :
    fileBlocks d i k = indirectBlocks (sectors d (i.iSectors 12) 1) (k - 12) := by
  rw [fileBlocks, allBlocks, if_neg hk]

/-- The addresses depend on the slots of the inode and on the sector of the
    table, if there is one. -/
theorem fileBlocks_congr (hi : ∀ k, k < 13 → i'.iSectors k = i.iSectors k)
    (hd : i.iSectors 12 ≠ 0 → ∀ x, x / 512 = i.iSectors 12 → d' x = d x) {k : Nat}
    (hk : k < 12 ∨ i.iSectors 12 ≠ 0) : fileBlocks d' i' k = fileBlocks d i k := by
  by_cases hk12 : k < 12
  · rw [fileBlocks_direct hk12, fileBlocks_direct hk12, hi k (by omega)]
  · have hne : i.iSectors 12 ≠ 0 := hk.resolve_left hk12
    rw [fileBlocks_indirect hk12, fileBlocks_indirect hk12, hi 12 (by omega),
      sectors_congr (hd hne)]

/-- Up to the last block there is a table where one is needed. -/
theorem Laid.in_reach (h : Laid d i last) {k : Nat} (hk : k ≤ last) :
    k < 12 ∨ i.iSectors 12 ≠ 0 := by
  by_cases hk12 : k < 12
  · exact Or.inl hk12
  · exact Or.inr (h.table.mpr (by omega))

theorem Laid.congr (h : Laid d i last) (hi : ∀ k, k < 13 → i'.iSectors k = i.iSectors k)
    (hd : i.iSectors 12 ≠ 0 → ∀ x, x / 512 = i.iSectors 12 → d' x = d x) : Laid d' i' last := by
  have heq : ∀ k, k ≤ last → fileBlocks d' i' k = fileBlocks d i k :=
    fun k hk => fileBlocks_congr hi hd (h.in_reach hk)
  have h12 := hi 12 (by omega)
  refine ⟨h.last_lt, fun k hk => ?_, fun j k hj hk => ?_, ?_, fun hle k hk => ?_,
    fun k hk hk' hlt => ?_⟩
  · rw [heq k hk]
    exact h.recorded k hk
  · rw [heq j hj, heq k hk]
    exact h.distinct j k hj hk
  · rw [h12]
    exact h.table
  · rw [heq k hk, h12]
    exact h.apart hle k hk
  · rw [fileBlocks_congr hi hd (hk'.imp_right h.table.mpr)]
    exact h.rest k hk hk' hlt

/-- The sectors of a file go with its addresses. -/
theorem OwnSector.congr (hi : ∀ k, k < 13 → i'.iSectors k = i.iSectors k)
    (hd : i.iSectors 12 ≠ 0 → ∀ x, x / 512 = i.iSectors 12 → d' x = d x) {n : Nat} :
    OwnSector d' i' n ↔ OwnSector d i n := by
  have h12 := hi 12 (by omega)
  have heq : ∀ k, k < 12 ∨ i.iSectors 12 ≠ 0 ∧ k < 140 →
      fileBlocks d' i' k = fileBlocks d i k :=
    fun k hk => fileBlocks_congr hi hd (hk.imp_right And.left)
  unfold OwnSector
  rw [h12]
  refine and_congr_right (fun _ => or_congr_right (exists_congr (fun k => ?_)))
  refine and_congr_right (fun hk => ?_)
  rw [heq k hk]

/-- The sectors of a file are its recorded blocks and the table. -/
theorem Laid.own (h : Laid d i last) {n : Nat} (hn : OwnSector d i n) :
    (12 ≤ last ∧ n = i.iSectors 12) ∨ ∃ k, k ≤ last ∧ n = fileBlocks d i k := by
  rcases hn with ⟨hne, htab | ⟨k, hk, hnk⟩⟩
  · rw [htab] at hne
    exact Or.inl ⟨h.table.mp hne, htab⟩
  · by_cases hle : k ≤ last
    · exact Or.inr ⟨k, hle, hnk⟩
    · rcases hk with hk | hk
      · exact absurd (hnk.trans (h.rest k (by omega) (Or.inl hk) (by omega))) hne
      · exact absurd (hnk.trans (h.rest k (by omega) (Or.inr (h.table.mp hk.1)) hk.2)) hne

theorem Laid.own_block (h : Laid d i last) {k : Nat} (hk : k ≤ last) :
    OwnSector d i (fileBlocks d i k) := by
  refine ⟨h.recorded k hk, Or.inr ⟨k, ?_, rfl⟩⟩
  have hlt := h.last_lt
  exact (h.in_reach hk).imp_right (fun hne => ⟨hne, by omega⟩)

theorem Laid.own_table (h : Laid d i last) (h12 : 12 ≤ last) : OwnSector d i (i.iSectors 12) :=
  ⟨h.table.mpr h12, Or.inl rfl⟩

/-- A file without a block has no sector. -/
theorem NoBlocks.own (h : NoBlocks i) {n : Nat} : ¬ OwnSector d i n := by
  rintro ⟨hne, htab | ⟨k, hk, hnk⟩⟩
  · exact hne (htab.trans (h.2 12 (by omega)))
  · rcases hk with hk | hk
    · rw [fileBlocks_direct hk, h.2 k (by omega)] at hnk
      exact hne hnk
    · exact hk.1 (h.2 12 (by omega))

end FileBlocks

/-- The block bitmap, the inode table and the data lie one after the other on
    the disk, a free block is on the disk, and the first block is the root
    directory's. -/
structure Volume (p : Partition) : Prop extends TableFits p where
  boot : 0 < p.sb.blockBitmapLba
  bitmap : p.blockBitmap.btmpBytesLen = p.sb.blockBitmapSects * 512
  table : p.sb.blockBitmapLba + p.sb.blockBitmapSects ≤ p.sb.inodeTableLba
  data : p.sb.inodeTableLba + 608 ≤ p.sb.dataStartLba
  free : ∀ k, k < p.blockBitmap.btmpBytesLen * 8 → bitmapScanTest p.blockBitmap k = false →
    p.sb.dataStartLba + k ≤ maxLba
  root : bitmapScanTest p.blockBitmap 0 = true

/-- A block of the data whose bit is set. -/
def TakenBlock (p : Partition) (n : Nat) : Prop :=
  n ≤ maxLba ∧ ∃ k, k < p.blockBitmap.btmpBytesLen * 8 ∧ bitmapScanTest p.blockBitmap k = true ∧
    n = p.sb.dataStartLba + k

/-- The block bitmap's sectors on the disk. -/
def BitmapSector (sb : SuperBlock) (n : Nat) : Prop :=
  sb.blockBitmapLba ≤ n ∧ n < sb.blockBitmapLba + sb.blockBitmapSects

/-- The inode table's sectors on the disk. -/
def TableSector (sb : SuperBlock) (n : Nat) : Prop :=
  sb.inodeTableLba ≤ n ∧ n < sb.inodeTableLba + 608

/-- A block has been handed out. -/
def FreshBlock (p p' : Partition) (n : Nat) : Prop :=
  n ≤ maxLba ∧ ∃ k, k < p.blockBitmap.btmpBytesLen * 8 ∧ bitmapScanTest p.blockBitmap k = false ∧
    bitmapScanTest p'.blockBitmap k = true ∧ n = p.sb.dataStartLba + k

/-- The file in slot `g` of `file_table` has its inode at an address where
    the task finds it. -/
structure FileAt (t g a : Nat) (s : Fs) : Prop where
  slot : (s.fileTable g).fdInode = some a
  sees : s.Sees t a

theorem run_fileInode {t g a : Nat} {s : Fs} (h : FileAt t g a s) :
    (fileInode t g).run s = .ok ((a, s.inode a), s) := by
  have hfd : (fdInodeOf g).run s = .ok (a, s) := by
    rw [fdInodeOf, run_bind_of (run_read _ s), h.slot]
    rfl
  rw [fileInode, run_bind_of hfd, run_bind_of (run_inodeAt h.sees), run_pure]

/-- Bits of the block bitmap have been set, slots of the inode at `a` filled,
    and no sectors but those in `W` written. -/
structure Allocs (W : Nat → Prop) (a : Nat) (s s' : Fs) : Prop where
  rest : s' = { s with disk := s'.disk, part := s'.part, inode := s'.inode }
  part : s'.part = { s.part with blockBitmap := s'.part.blockBitmap }
  inode : s'.inode = Function.update s.inode a { s.inode a with iSectors := (s'.inode a).iSectors }
  len : s'.part.blockBitmap.btmpBytesLen = s.part.blockBitmap.btmpBytesLen
  set : ∀ k, bitmapScanTest s.part.blockBitmap k = true →
    bitmapScanTest s'.part.blockBitmap k = true
  disk : ∀ x, s'.disk x ≠ s.disk x → W (x / 512)

namespace Allocs

variable {W : Nat → Prop} {a : Nat} {s s' s'' : Fs}

theorem refl (W : Nat → Prop) (a : Nat) (s : Fs) : Allocs W a s s :=
  ⟨rfl, rfl, (Function.update_eq_self a s.inode).symm, rfl, fun _ h => h, fun _ h => absurd rfl h⟩

theorem sb (h : Allocs W a s s') : s'.part.sb = s.part.sb := by
  rw [h.part]

theorem trans (h : Allocs W a s s') (h' : Allocs W a s' s'') : Allocs W a s s'' := by
  refine ⟨?_, ?_, ?_, h'.len.trans h.len, fun k hk => h'.set k (h.set k hk), ?_⟩
  · rw [h'.rest, h.rest]
  · rw [h'.part, h.part]
  · rw [h'.inode, h.inode]
    simp only [Function.update_self, Function.update_idem]
  · -- a byte that differs after both differs after one of them
    intro x hx
    by_cases hx' : s''.disk x = s'.disk x
    · rw [hx'] at hx
      exact h.disk x hx
    · exact h'.disk x hx'

theorem mono {W' : Nat → Prop} (h : Allocs W a s s') (hw : ∀ n, W n → W' n) : Allocs W' a s s' :=
  ⟨h.rest, h.part, h.inode, h.len, h.set, fun x hx => hw _ (h.disk x hx)⟩

theorem iSize (h : Allocs W a s s') : (s'.inode a).iSize = (s.inode a).iSize := by
  rw [h.inode, Function.update_self]

theorem iNo (h : Allocs W a s s') : (s'.inode a).iNo = (s.inode a).iNo := by
  rw [h.inode, Function.update_self]

theorem fileAt (h : Allocs W a s s') {t g : Nat} (hat : FileAt t g a s) : FileAt t g a s' := by
  rw [h.rest]
  exact ⟨hat.slot, hat.sees⟩

theorem disk_eq (h : Allocs W a s s') {x : Nat} (hx : ¬ W (x / 512)) :
    s'.disk x = s.disk x := by
  by_contra hne
  exact hx (h.disk x hne)

theorem volume (h : Allocs W a s s') (hv : Volume s.part) : Volume s'.part := by
  have hsb := h.sb
  refine ⟨⟨?_, ?_⟩, ?_, ?_, ?_, ?_, ?_, h.set 0 hv.root⟩
  · rw [h.part]
    exact hv.inPart
  · rw [h.part]
    exact hv.onDisk
  · rw [hsb]
    exact hv.boot
  · rw [h.len, hsb]
    exact hv.bitmap
  · rw [hsb]
    exact hv.table
  · rw [hsb]
    exact hv.data
  · intro k hk hclear
    rw [h.len] at hk
    rw [hsb]
    refine hv.free k hk (Bool.eq_false_iff.mpr (fun hset => ?_))
    rw [h.set k hset] at hclear
    cases hclear

theorem taken (h : Allocs W a s s') {n : Nat} (hn : TakenBlock s.part n) : TakenBlock s'.part n := by
  rcases hn with ⟨hle, k, hk, hset, hnk⟩
  refine ⟨hle, k, ?_, h.set k hset, ?_⟩
  · rw [h.len]
    exact hk
  · rw [h.sb]
    exact hnk

theorem fresh_taken (h : Allocs W a s s') {n : Nat} (hn : FreshBlock s.part s'.part n) :
    TakenBlock s'.part n := by
  rcases hn with ⟨hle, k, hk, -, hset, hnk⟩
  refine ⟨hle, k, ?_, hset, ?_⟩
  · rw [h.len]
    exact hk
  · rw [h.sb]
    exact hnk

/-- A block handed out first is not handed out again. -/
theorem fresh_left (h' : Allocs W a s' s'') {n : Nat} (hn : FreshBlock s.part s'.part n) :
    FreshBlock s.part s''.part n := by
  rcases hn with ⟨hle, k, hk, hclear, hset, hnk⟩
  exact ⟨hle, k, hk, hclear, h'.set k hset, hnk⟩

theorem fresh_right (h : Allocs W a s s') {n : Nat} (hn : FreshBlock s'.part s''.part n) :
    FreshBlock s.part s''.part n := by
  rcases hn with ⟨hle, k, hk, hclear, hset, hnk⟩
  refine ⟨hle, k, ?_, Bool.eq_false_iff.mpr (fun hset' => ?_), hset, ?_⟩
  · rw [h.len] at hk
    exact hk
  · rw [h.set k hset'] at hclear
    cases hclear
  · rw [h.sb] at hnk
    exact hnk

end Allocs

section Fresh

variable {p p' : Partition} {n m : Nat}

/-- A block that is handed out was nobody's. -/
theorem fresh_ne_taken (hn : FreshBlock p p' n) (hm : TakenBlock p m) : n ≠ m := by
  rcases hn with ⟨-, k, -, hclear, -, hnk⟩
  rcases hm with ⟨-, j, -, hset, hmj⟩
  intro h
  rw [show k = j by omega, hset] at hclear
  cases hclear

theorem TakenBlock.data (hn : TakenBlock p n) : p.sb.dataStartLba ≤ n := by
  rcases hn with ⟨-, k, -, -, hk⟩
  omega

theorem FreshBlock.data (hn : FreshBlock p p' n) : p.sb.dataStartLba ≤ n := by
  rcases hn with ⟨-, k, -, -, -, hk⟩
  omega

theorem Volume.not_bitmap (hv : Volume p) (hn : p.sb.dataStartLba ≤ n) : ¬ BitmapSector p.sb n := by
  have htable := hv.table
  have hdata := hv.data
  rintro ⟨-, h⟩
  omega

theorem Volume.not_table (hv : Volume p) (hn : p.sb.dataStartLba ≤ n) : ¬ TableSector p.sb n := by
  have hdata := hv.data
  rintro ⟨-, h⟩
  omega

theorem Volume.data_pos (hv : Volume p) : 0 < p.sb.dataStartLba := by
  have hdata := hv.data
  omega

end Fresh

section Allocation

variable {s : Fs}

theorem run_scanOne {b : Bitmap} (h : 0 < freeCount b) (s : Fs) :
    ∃ k, k < b.btmpBytesLen * 8 ∧ bitmapScanTest b k = false ∧
      (scanOne b).run s = .ok (some k, s) := by
  rcases exists_clear h with ⟨j, hj, hclear⟩
  have hlt := scanBytes_lt hj hclear
  have hspec := scanStart_spec hlt
  refine ⟨_, hspec.1, hspec.2.1, ?_⟩
  rw [scanOne, run_bind_of (run_assert hlt s), run_pure, bitmapScanRest, if_neg (by omega),
    if_pos rfl]

/-- Without a clear bit the assertion of `bitmap_scan` fails. -/
theorem stops_scanOne {b : Bitmap} (h : freeCount b = 0) (s : Fs) :
    Stops (scanOne b) s (.assertion .bitmapScan) s := by
  refine stops_bind (stops_check (fun hlt => ?_) s)
  rcases scanStart_spec hlt with ⟨hk, hclear, -⟩
  have hpos : 0 < freeCount b :=
    Finset.card_pos.mpr ⟨_, Finset.mem_filter.mpr ⟨Finset.mem_range.mpr hk, hclear⟩⟩
  omega

/-- A new block while there are some left. -/
theorem run_blockBitmapAlloc (a : Nat) (hv : Volume s.part) (h : 0 < freeCount s.part.blockBitmap) :
    ∃ lba s₁, blockBitmapAlloc.run s = .ok (some lba, s₁) ∧ Allocs (BitmapSector s.part.sb) a s s₁ ∧
      s₁.inode = s.inode ∧ s₁.disk = s.disk ∧ FreshBlock s.part s₁.part lba ∧
      lba ≠ s.part.sb.dataStartLba ∧
      freeCount s₁.part.blockBitmap + 1 = freeCount s.part.blockBitmap := by
  rcases run_scanOne h s with ⟨k, hk, hclear, hscan⟩
  have hle := hv.free k hk hclear
  have hmax : maxLba = 163839 := rfl
  have hlba : add32 s.part.sb.dataStartLba k = s.part.sb.dataStartLba + k := by
    rw [add32, Nat.mod_eq_of_lt (by omega)]
  have hset : ∀ j, bitmapScanTest (bitmapSet s.part.blockBitmap k true) j =
      if j = k then true else bitmapScanTest s.part.blockBitmap j :=
    fun j => bitmapScanTest_set _ k j true
  -- Bit 0 is the block of the root, which is always taken.
  have hroot : k ≠ 0 := by
    intro hk0
    rw [hk0, hv.root] at hclear
    cases hclear
  refine ⟨s.part.sb.dataStartLba + k, s.setBlockBitmap (bitmapSet s.part.blockBitmap k true), ?_,
    ⟨rfl, rfl, (Function.update_eq_self a s.inode).symm, rfl, fun j hj => ?_,
      fun _ hx => absurd rfl hx⟩, rfl, rfl, ⟨hle, k, hk, hclear, ?_, rfl⟩, by omega,
    freeCount_set hk hclear⟩
  · rw [blockBitmapAlloc, run_bind_of (run_read _ s), run_bind_of hscan]
    show (Prog.modify _ >>= _).run s = _
    rw [run_bind_of (run_modify _ s), run_pure, hlba]
  · show bitmapScanTest (bitmapSet s.part.blockBitmap k true) j = true
    rw [hset, hj, ite_self]
  · show bitmapScanTest (bitmapSet s.part.blockBitmap k true) k = true
    rw [hset, if_pos rfl]

/-- `block_bitmap_alloc` panics when there is none. -/
theorem stops_blockBitmapAlloc (h : freeCount s.part.blockBitmap = 0) :
    Stops blockBitmapAlloc s (.assertion .bitmapScan) s :=
  stops_bind_of (run_read _ s) (stops_bind (stops_scanOne h s))

/-- The bit of a block goes to the disk. -/
theorem run_syncNew (a : Nat) (hv : Volume s.part) {lba : Nat} (h : TakenBlock s.part lba) :
    ∃ idx s₁, (blockBitmapIdx lba).run s = .ok (idx, s) ∧
      (bitmapSync idx .block).run s = .ok ((), s₁) ∧ Allocs (BitmapSector s.part.sb) a s s₁ ∧
      s.part.sb.dataStartLba + idx = lba ∧ s₁.part = s.part ∧ s₁.inode = s.inode := by
  rcases h with ⟨hle, k, hk, -, hlba⟩
  have hmax : maxLba = 163839 := rfl
  -- The bit of the block, and the sector of the bitmap that has it.
  have hidx : sub32 lba s.part.sb.dataStartLba = k := by
    rw [sub32, Nat.mod_eq_of_lt (show s.part.sb.dataStartLba < 2 ^ 32 by omega)]
    omega
  have hsect : k / 4096 < s.part.sb.blockBitmapSects := by
    have hlen := hv.bitmap
    omega
  have htable := hv.table
  have hdata := hv.data
  have hsec : add32 s.part.sb.blockBitmapLba (k / 4096) = s.part.sb.blockBitmapLba + k / 4096 := by
    rw [add32, Nat.mod_eq_of_lt (by omega)]
  let buf : Nat → Byte := fun j => s.part.blockBitmap.bits (k / 4096 * sectorSize + j)
  let s₁ := s.setDisk ((s.part.sb.blockBitmapLba + k / 4096) * sectorSize) (1 * sectorSize) buf
  refine ⟨k, s₁, ?_, ?_, ⟨rfl, rfl, (Function.update_eq_self a s.inode).symm, rfl, fun _ hj => hj,
    fun x hx => ?_⟩, hlba.symm, rfl, rfl⟩
  · rw [blockBitmapIdx, run_read, hidx]
  · rw [bitmapSync, run_bind_of (run_read _ s)]
    show (ideWriteFrom (add32 s.part.sb.blockBitmapLba (k / 4096)) 1 _).run s = _
    rw [hsec, ideWriteFrom, run_bind_of (run_assert ⟨by omega, by omega⟩ s),
      run_bind_of (run_pause s), run_bind_of (run_modify _ s), run_pause]
  · have hd := setDisk_sector s (s.part.sb.blockBitmapLba + k / 4096) buf x
    -- Only that sector of the bitmap differs afterwards.
    by_cases hx' : x / 512 = s.part.sb.blockBitmapLba + k / 4096
    · rw [hx']
      exact ⟨by omega, by omega⟩
    · rw [if_neg hx'] at hd
      exact absurd hd hx

/-- A slot of the inode is filled. -/
theorem run_setSector (W : Nat → Prop) (s : Fs) (a k lba : Nat) :
    ∃ s₁, (setSector a k lba).run s = .ok ((), s₁) ∧ Allocs W a s s₁ ∧ s₁.part = s.part ∧
      ∀ j, (s₁.inode a).iSectors j = if j = k then lba else (s.inode a).iSectors j := by
  let i : Inode := { s.inode a with iSectors := Function.update (s.inode a).iSectors k lba }
  have hself : (s.setInode a i).inode a = i := Function.update_self _ _ _
  refine ⟨s.setInode a i, rfl, ⟨rfl, rfl, ?_, rfl, fun _ h => h, fun _ h => absurd rfl h⟩, rfl,
    fun j => ?_⟩
  · rw [hself]
    rfl
  · rw [hself]
    by_cases hj : j = k
    · rw [if_pos hj, hj]
      exact Function.update_self _ _ _
    · rw [if_neg hj]
      exact Function.update_of_ne hj _ _

end Allocation

end ForikOS
