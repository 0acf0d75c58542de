import ForikOS.Theory.DirEntries
import ForikOS.Theory.FileCollect

/-!
# A New Entry in a Directory

`sync_dir_entry` puts an entry into the first slot that is free, and gets a
block where a direct block is missing or the direct ones are full.

The function never reads the table of indirect blocks. Where the direct blocks
are full it makes a new table with one block, whether there is a table or not,
and `run_syncTable` says what comes of it. In a directory without a table that
is what it should do: `Synced` says the same of all three ways an entry can
get its slot.

A directory that gets a block has cleared slots afterwards, and in these
`search_dir_entry` finds the empty name.

## Main definitions

* `DirOwns`: The blocks of a directory are its own.
* `Insertion`: An entry that is new to a directory.
* `SyncRun`: What `sync_dir_entry` comes to.
* `Synced`: The entry has got a slot.
* `Outgrown`: The directory has got a new table.

## Theorems

* `synced_slot`, `run_syncDirect`, `run_syncTable`: The three ways.
* `run_syncDirEntry`: Which of them `sync_dir_entry` takes.
* `entry_inserted`: A new entry is found, and so is everything else.
-/

namespace ForikOS

open Prog

/-- The blocks of a directory and its table are different blocks, and their
    bits are set. -/
structure DirOwns (a : Nat) (s : Fs) : Prop where
  blocks : ∀ k, k < 140 → inodeBlocks s.disk (s.inode a) k ≠ 0 →
    TakenBlock s.part (inodeBlocks s.disk (s.inode a) k)
  table : (s.inode a).iSectors 12 ≠ 0 → TakenBlock s.part ((s.inode a).iSectors 12)
  distinct : ∀ j k, j < 140 → k < 140 → inodeBlocks s.disk (s.inode a) j ≠ 0 →
    inodeBlocks s.disk (s.inode a) j = inodeBlocks s.disk (s.inode a) k → j = k
  apart : ∀ k, k < 140 → inodeBlocks s.disk (s.inode a) k ≠ 0 →
    inodeBlocks s.disk (s.inode a) k ≠ (s.inode a).iSectors 12

/-- An entry that is new to a directory, and the directory is in order. -/
structure Insertion (t : Nat) (d : Dir) (e : DirEntry) (name : Str) (s : Fs) : Prop where
  dir : DirAt t d.inode s
  volume : Volume s.part
  owns : DirOwns d.inode s
  cleared : FreeZero s.disk (s.inode d.inode)
  typed : Typed s.disk (s.inode d.inode)
  whole : (s.inode d.inode).iSize % dirEntrySize = 0
  entry : NewEntry e name
  absent : ∀ k j, ¬ Matches s.disk (s.inode d.inode) name k j
  memory : Memory s

/-- The directory is one entry larger. -/
def grown (a : Nat) (s : Fs) : Fs :=
  s.setInode a { s.inode a with iSize := add32 (s.inode a).iSize dirEntrySize }

/-- The entry has been written to a slot of a block that is there. -/
def slotFilled (a k j : Nat) (e : DirEntry) (s : Fs) : Fs :=
  grown a (s.setDisk (inodeBlocks s.disk (s.inode a) k * sectorSize) (1 * sectorSize)
    (memcpyTo (blockBytes s.disk (s.inode a) k) (dirEntrySize * j) dirEntrySize (entryBytes e)))

/-- What `sync_dir_entry` leaves where it finds room: blocks are handed out,
    and nothing is written but the block bitmap and the directory. -/
structure Synced (a k₀ j₀ : Nat) (e : DirEntry) (s s' : Fs) : Prop where
  inserted : Inserted a k₀ j₀ e s s'
  table : (s.inode a).iSectors 12 ≠ 0 → (s'.inode a).iSectors 12 = (s.inode a).iSectors 12
  onDisk : ∀ n, OwnSector s'.disk (s'.inode a) n → n ≤ maxLba
  rest : ∃ s₁, s' = grown a s₁ ∧
    Allocs (fun n => BitmapSector s.part.sb n ∨ OwnSector s'.disk (s'.inode a) n) a s s₁

section Grown

variable {a : Nat} {s : Fs}

theorem grown_inode (a : Nat) (s : Fs) : (grown a s).inode a =
    { s.inode a with iSize := add32 (s.inode a).iSize dirEntrySize } :=
  Function.update_self _ _ _

theorem grown_iSectors (a : Nat) (s : Fs) :
    ((grown a s).inode a).iSectors = (s.inode a).iSectors := by
  rw [grown_inode]

theorem grown_blocks (a : Nat) (s : Fs) (k : Nat) :
    inodeBlocks (grown a s).disk ((grown a s).inode a) k = inodeBlocks s.disk (s.inode a) k :=
  inodeBlocks_congr (fun _ => congrFun (grown_iSectors a s) k) (congrFun (grown_iSectors a s) 12)
    (fun _ _ _ => rfl)

/-- One sector is written. -/
theorem allocs_write {W : Nat → Prop} (a : Nat) {lba : Nat} (hW : W lba) (b : Nat → Byte)
    (s : Fs) : Allocs W a s (s.setDisk (lba * sectorSize) (1 * sectorSize) b) := by
  refine ⟨rfl, rfl, (Function.update_eq_self a s.inode).symm, rfl, fun _ h => h, fun x hx => ?_⟩
  by_cases hlba : x / 512 = lba
  · rwa [hlba]
  · rw [setDisk_sector, if_neg hlba] at hx
    exact absurd rfl hx

/-- Data is not written where only the bitmap is. -/
theorem Allocs.disk_data {s' : Fs} (h : Allocs (BitmapSector s.part.sb) a s s')
    (hv : Volume s.part) {x : Nat} (hx : s.part.sb.dataStartLba ≤ x / 512) :
    s'.disk x = s.disk x :=
  h.disk_eq (hv.not_bitmap hx)

/-- The sectors of a directory: its table and its blocks. -/
theorem ownSector_iff {disk : Nat → Byte} {i : Inode} {n : Nat} : OwnSector disk i n ↔
    n ≠ 0 ∧ (n = i.iSectors 12 ∨ ∃ k, k < 140 ∧ n = inodeBlocks disk i k) := by
  have hsame : ∀ k, k < 12 ∨ i.iSectors 12 ≠ 0 → inodeBlocks disk i k = fileBlocks disk i k := by
    intro k hor
    by_cases hk : k < 12
    · rw [inodeBlocks_direct hk, fileBlocks_direct hk]
    · rw [inodeBlocks_indirect (hor.resolve_left hk) hk, fileBlocks_indirect hk]
  refine and_congr_right (fun hn => or_congr_right ⟨?_, ?_⟩)
  · rintro ⟨k, hor, rfl⟩
    exact ⟨k, by omega, (hsame k (hor.imp_right And.left)).symm⟩
  · rintro ⟨k, hk, rfl⟩
    by_cases hk12 : k < 12
    · exact ⟨k, Or.inl hk12, hsame k (Or.inl hk12)⟩
    · have h12 : i.iSectors 12 ≠ 0 := fun hz => hn (inodeBlocks_noTable hz hk12)
      exact ⟨k, Or.inr ⟨h12, hk⟩, hsame k (Or.inr h12)⟩

end Grown

section Steps

variable {s : Fs} {t a : Nat} {e : DirEntry}

/-- A new block, and its bit on the disk. -/
theorem run_syncAlloc (a : Nat) (hv : Volume s.part) (h : 0 < freeCount s.part.blockBitmap) :
    ∃ lba s₁ s₂, blockBitmapAlloc.run s = .ok (some lba, s₁) ∧
      (syncNewBit lba).run s₁ = .ok ((), s₂) ∧ Allocs (BitmapSector s.part.sb) a s s₂ ∧
      s₂.inode = s.inode ∧ FreshBlock s.part s₂.part lba ∧
      freeCount s₂.part.blockBitmap + 1 = freeCount s.part.blockBitmap := by
  rcases run_blockBitmapAlloc a hv h with ⟨lba, s₁, hrun, h₁, hinode, -, hfresh, -, hcount⟩
  rcases run_syncNew a (h₁.volume hv) (h₁.fresh_taken hfresh)
    with ⟨idx, s₂, hidx, hsync, h₂, hlba, hpart, hinode₂⟩
  have hle := hfresh.1
  have hmax : maxLba = 163839 := rfl
  rw [h₁.sb] at h₂
  refine ⟨lba, s₁, s₂, hrun, ?_, h₁.trans h₂, hinode₂.trans hinode, ?_, ?_⟩
  · rw [syncNewBit, run_bind_of hidx, run_bind_of (run_assert (by omega) s₁), hsync]
  · rw [hpart]
    exact hfresh
  · rw [hpart]
    exact hcount

theorem run_syncFirstEntry {lba : Nat} (hlba : lba ≤ maxLba) (a : Nat) (e : DirEntry) (s : Fs) :
    (syncFirstEntry a e lba).run s = .ok (true, grown a (s.setDisk (lba * sectorSize)
      (1 * sectorSize) (memcpyTo (fun _ => 0) 0 dirEntrySize (entryBytes e)))) := by
  rw [syncFirstEntry, run_bind_of (run_ideWrite hlba (by omega) _ s)]
  rfl

/-- The entry goes to a free slot of a block. -/
theorem synced_slot (ho : DirOwns a s) {k j : Nat} (hs : Slot s.disk (s.inode a) k j)
    (hfree : (slotAt s.disk (s.inode a) k j).fType = .unknown) (e : DirEntry) :
    Synced a k j e s (slotFilled a k j e s) := by
  have hsize : dirEntrySize = 24 := rfl
  let lba := inodeBlocks s.disk (s.inode a) k
  let buf :=
    memcpyTo (blockBytes s.disk (s.inode a) k) (dirEntrySize * j) dirEntrySize (entryBytes e)
  let s₁ := s.setDisk (lba * sectorSize) (1 * sectorSize) buf
  have hdisk : ∀ x, s₁.disk x = if x / 512 = lba then buf (x % 512) else s.disk x :=
    setDisk_sector s lba buf
  -- The block is not the indirect table, so every block stays where it is.
  have hblocks : ∀ k', inodeBlocks s₁.disk (s₁.inode a) k' = inodeBlocks s.disk (s.inode a) k' := by
    refine fun k' => inodeBlocks_congr (fun _ => rfl) rfl (fun _ x hx => ?_)
    rw [hdisk, if_neg (fun hx' => ho.apart k hs.block hs.there (hx'.symm.trans hx))]
  have hgrown : ∀ k', inodeBlocks (grown a s₁).disk ((grown a s₁).inode a) k' =
      inodeBlocks s.disk (s.inode a) k' := fun k' => (grown_blocks a s₁ k').trans (hblocks k')
  have hown : ∀ n, OwnSector (grown a s₁).disk ((grown a s₁).inode a) n ↔
      OwnSector s.disk (s.inode a) n := by
    intro n
    rw [ownSector_iff, ownSector_iff, grown_iSectors]
    simp only [hgrown]
    rfl
  -- Only the bytes of the one block have changed, as no two blocks are the same.
  have hbyte : ∀ k' x, k' < 140 → inodeBlocks s.disk (s.inode a) k' ≠ 0 → x < 512 →
      blockBytes (grown a s₁).disk ((grown a s₁).inode a) k' x =
        if k' = k then buf x else blockBytes s.disk (s.inode a) k' x := by
    intro k' x hk' hthere hx
    rw [blockBytes_byte hx, blockBytes_byte hx, hgrown]
    show s₁.disk _ = _
    rw [hdisk]
    by_cases hkk : k' = k
    · rw [if_pos hkk, hkk, if_pos (by omega), show (lba * 512 + x) % 512 = x by omega]
    · rw [if_neg hkk, if_neg]
      intro hx'
      exact hkk (ho.distinct k' k hk' hs.block hthere (by omega))
  have hfilled : slotFilled a k j e s = grown a s₁ := rfl
  rw [hfilled]
  refine ⟨⟨⟨hs.block, hs.entry, ?_⟩, fun b hb => ?_, fun k' _ _ => hgrown k',
    fun k' j' b hs' hne hb => ?_, fun hlive => hlive.used hfree, fun hz => absurd hz hs.there⟩,
    fun _ => congrFun (grown_iSectors a s₁) 12, fun n hn => ?_, s₁, rfl, ?_⟩
  · rw [hgrown]
    exact hs.there
  · have hlt := slot_byte hs.entry hb
    rw [hbyte k _ hs.block hs.there (by omega), if_pos rfl]
    show memcpyTo _ _ _ _ _ = _
    rw [memcpyTo, if_pos (by omega), Nat.add_sub_cancel_left]
  · have hlt := slot_byte hs'.entry hb
    rw [hbyte k' _ hs'.block hs'.there (by omega)]
    by_cases hkk : k' = k
    · have hj : j' ≠ j := fun hj => hne ⟨hkk, hj⟩
      rw [if_pos hkk, hkk]
      show memcpyTo _ _ _ _ _ = _
      rw [memcpyTo, if_neg]
      rw [hsize] at hb ⊢
      omega
    · rw [if_neg hkk]
  · rcases ownSector_iff.mp ((hown n).mp hn) with ⟨hn0, rfl | ⟨k', hk', rfl⟩⟩
    · exact (ho.table hn0).1
    · exact (ho.blocks k' hk' hn0).1
  · exact allocs_write a (Or.inr ((hown lba).mpr (ownSector_iff.mpr
      ⟨hs.there, Or.inr ⟨k, hs.block, rfl⟩⟩))) buf s

/-- The entry stands first in a block the directory has got, and its other
    blocks are what they were. -/
theorem synced_first {s' : Fs} {p : Partition} {k₀ lba : Nat} (hv : Volume s.part)
    (ho : DirOwns a s) (hk₀ : k₀ < 140)
    (hmissing : inodeBlocks s.disk (s.inode a) k₀ = 0) (hlba : FreshBlock s.part p lba)
    (hthere : inodeBlocks s'.disk (s'.inode a) k₀ = lba)
    (hblocks : ∀ k, k < 140 → k ≠ k₀ →
      inodeBlocks s'.disk (s'.inode a) k = inodeBlocks s.disk (s.inode a) k)
    (htable : (s'.inode a).iSectors 12 = (s.inode a).iSectors 12 ∨
      (s.inode a).iSectors 12 = 0 ∧ (s'.inode a).iSectors 12 ≤ maxLba)
    (hfirst : ∀ x, x / 512 = lba →
      s'.disk x = memcpyTo (fun _ => 0) 0 dirEntrySize (entryBytes e) (x % 512))
    (hkept : ∀ x, TakenBlock s.part (x / 512) → s'.disk x = s.disk x)
    (hrest : ∃ s₁, s' = grown a s₁ ∧
      Allocs (fun n => BitmapSector s.part.sb n ∨ OwnSector s'.disk (s'.inode a) n) a s s₁) :
    Synced a k₀ 0 e s s' := by
  have hsize : dirEntrySize = 24 := rfl
  have hpos := hv.data_pos
  have hdata := hlba.data
  have hbyte : ∀ x, x < 512 → blockBytes s'.disk (s'.inode a) k₀ x =
      memcpyTo (fun _ => 0) 0 dirEntrySize (entryBytes e) x := by
    intro x hx
    rw [blockBytes_byte hx, hthere, hfirst _ (by omega), show (lba * 512 + x) % 512 = x by omega]
  -- A block that was there is not the one that was missing.
  have hne : ∀ k, inodeBlocks s.disk (s.inode a) k ≠ 0 → k ≠ k₀ := by
    rintro k hk rfl
    exact hk hmissing
  refine ⟨⟨⟨hk₀, by decide, by omega⟩, fun b hb => ?_, fun k hk hor => ?_,
    fun k j b hs _ hb => ?_, fun hlive => hlive.there hmissing, fun _ j b hj hj0 hb => ?_⟩,
    fun h12 => ?_, fun n hn => ?_, hrest⟩
  · rw [hbyte _ (by omega), memcpyTo, if_pos (by omega), Nat.mul_zero, Nat.zero_add, Nat.sub_zero]
  · exact hblocks k hk (hor.elim (hne k) id)
  · -- The old blocks are taken, so they are not what has been written.
    have hlt := slot_byte hs.entry hb
    have htaken := ho.blocks k hs.block hs.there
    rw [blockBytes_byte (by omega), blockBytes_byte (by omega),
      hblocks k hs.block (hne k hs.there)]
    refine hkept _ ?_
    rwa [show (inodeBlocks s.disk (s.inode a) k * 512 + (dirEntrySize * j + b)) / 512 =
      inodeBlocks s.disk (s.inode a) k by omega]
  · have hlt := slot_byte hj hb
    rw [hbyte _ (by omega), memcpyTo, if_neg]
    rw [hsize]
    omega
  · exact htable.resolve_right (fun hz => h12 hz.1)
  · rcases ownSector_iff.mp hn with ⟨hn0, htab | ⟨k, hk, hblock⟩⟩
    · rcases htable with hsame | ⟨-, hle⟩
      · rw [htab, hsame] at hn0 ⊢
        exact (ho.table hn0).1
      · omega
    · by_cases hkk : k = k₀
      · rw [hblock, hkk, hthere]
        exact hlba.1
      · rw [hblock, hblocks k hk hkk] at hn0 ⊢
        exact (ho.blocks k hk hn0).1

/-- A missing direct block is handed out, and the entry is its first. -/
theorem run_syncDirect (hv : Volume s.part) (ho : DirOwns a s)
    (h : 0 < freeCount s.part.blockBitmap) {k : Nat} (hk : k < 12)
    (hmissing : inodeBlocks s.disk (s.inode a) k = 0) (t : Nat) (e : DirEntry) (all : Nat → Nat) :
    ∃ s', (syncNewBlock t a e all k).run s = .ok (true, s') ∧ Synced a k 0 e s s' := by
  rcases run_syncAlloc a hv h with ⟨lba, s₁, s₂, hrun, hsync, h₂, hinode, hfresh, -⟩
  rcases run_setSector (fun _ => False) s₂ a k lba with ⟨s₃, hset, h₃, -, hslots⟩
  let first : Nat → Byte := memcpyTo (fun _ => 0) 0 dirEntrySize (entryBytes e)
  let s₄ := s₃.setDisk (lba * sectorSize) (1 * sectorSize) first
  have hdisk : ∀ x, s₄.disk x = if x / 512 = lba then first (x % 512) else s₃.disk x :=
    setDisk_sector s₃ lba first
  -- The new block was free, so no block that is taken has been written.
  have hkept : ∀ x, TakenBlock s.part (x / 512) → s₄.disk x = s.disk x := by
    intro x hx
    rw [hdisk, if_neg (fresh_ne_taken hfresh hx).symm, h₃.disk_eq id, h₂.disk_data hv hx.data]
  have hsec : ∀ j, ((grown a s₄).inode a).iSectors j =
      if j = k then lba else (s.inode a).iSectors j := by
    intro j
    rw [grown_iSectors, ← hinode]
    exact hslots j
  have hthere : inodeBlocks (grown a s₄).disk ((grown a s₄).inode a) k = lba := by
    rw [inodeBlocks_direct hk, hsec, if_pos rfl]
  refine ⟨grown a s₄, ?_, synced_first hv ho (by omega) hmissing hfresh hthere
    (fun k' hk' hne => inodeBlocks_congr (fun _ => ?_) ?_ (fun h12 x hx => ?_)) (Or.inl ?_)
    (fun x hx => ?_) hkept ⟨s₄, rfl, ?_⟩⟩
  · rw [syncNewBlock, run_bind_of hrun]
    show (syncNewBit lba >>= _).run s₁ = _
    rw [run_bind_of hsync, if_pos hk, run_bind_of hset, run_syncFirstEntry hfresh.1]
  · rw [hsec, if_neg hne]
  · rw [hsec, if_neg (by omega)]
  · refine hkept x ?_
    rw [hx]
    exact ho.table h12
  · rw [hsec, if_neg (by omega)]
  · exact (hdisk x).trans (if_pos hx)
  · have hown : OwnSector (grown a s₄).disk ((grown a s₄).inode a) lba := by
      have hpos := hv.data_pos
      have hdata := hfresh.data
      exact ownSector_iff.mpr ⟨by omega, Or.inr ⟨k, by omega, hthere.symm⟩⟩
    exact ((h₂.mono (fun _ hn => Or.inl hn)).trans (h₃.mono (fun _ hn => hn.elim))).trans
      (allocs_write a (Or.inr hown) first s₃)

end Steps

/-- What `sync_dir_entry` leaves where the direct blocks are full: a new table
    with one block, and the entry in it. -/
structure Outgrown (a : Nat) (e : DirEntry) (s s' : Fs) : Prop where
  table : FreshBlock s.part s'.part ((s'.inode a).iSectors 12)
  block : FreshBlock s.part s'.part (inodeBlocks s'.disk (s'.inode a) 12)
  direct : ∀ k, k < 12 → (s'.inode a).iSectors k = (s.inode a).iSectors k
  beyond : ∀ k, 12 < k → k < 140 → inodeBlocks s'.disk (s'.inode a) k = 0
  first : ∀ x, x / 512 = inodeBlocks s'.disk (s'.inode a) 12 →
    s'.disk x = memcpyTo (fun _ => 0) 0 dirEntrySize (entryBytes e) (x % 512)
  kept : ∀ x, TakenBlock s.part (x / 512) → s'.disk x = s.disk x
  rest : ∃ s₁, s' = grown a s₁ ∧
    Allocs (fun n => BitmapSector s.part.sb n ∨ OwnSector s'.disk (s'.inode a) n) a s s₁

/-- A directory that had no table has got the entry. -/
theorem Outgrown.synced {a : Nat} {e : DirEntry} {s s' : Fs} (h : Outgrown a e s s')
    (hv : Volume s.part) (ho : DirOwns a s) (h12 : (s.inode a).iSectors 12 = 0) :
    Synced a 12 0 e s s' := by
  refine synced_first hv ho (by omega) (inodeBlocks_noTable h12 (by omega)) h.block rfl
    (fun k hk hne => ?_) (Or.inr ⟨h12, h.table.1⟩) h.first h.kept h.rest
  by_cases hk12 : k < 12
  · rw [inodeBlocks_direct hk12, inodeBlocks_direct hk12]
    exact h.direct k hk12
  · rw [inodeBlocks_noTable h12 hk12]
    exact h.beyond k (by omega) hk

section Steps

variable {s : Fs} {t a : Nat}

/-- The direct blocks are full: two blocks are handed out, whether there is a
    table or not. -/
theorem run_syncTable (hsees : s.Sees t a) (hv : Volume s.part)
    (h : 2 ≤ freeCount s.part.blockBitmap) (e : DirEntry) {all : Nat → Nat}
    (hall : ∀ {k}, 12 ≤ k → all k = 0) :
    ∃ s', (syncNewBlock t a e all 12).run s = .ok (true, s') ∧ Outgrown a e s s' := by
  rcases run_syncAlloc a hv (by omega) with ⟨table, s₁, s₂, hrun, hsync, h₂, hinode, htable, hcount⟩
  rcases run_setSector (BitmapSector s.part.sb) s₂ a 12 table with ⟨s₃, hset, h₃, hpart, hslots⟩
  have h₁₃ := h₂.trans h₃
  have hfree₃ : 0 < freeCount s₃.part.blockBitmap := by
    rw [hpart]
    omega
  rcases run_syncAlloc a (h₁₃.volume hv) hfree₃
    with ⟨lba, s₄, s₅, hrun', hsync', h₅, hinode₅, hfresh, -⟩
  -- The table is taken by now, so the second block is another one.
  have hne : lba ≠ table := by
    refine fresh_ne_taken hfresh ?_
    rw [hpart]
    exact h₂.fresh_taken htable
  have hsb₃ : s₃.part.sb = s.part.sb := h₁₃.sb
  rw [hsb₃] at h₅
  have h₁₅ := h₁₃.trans h₅
  let first : Nat → Byte := memcpyTo (fun _ => 0) 0 dirEntrySize (entryBytes e)
  let links : Nat → Byte := tableBytes (Function.update all 12 lba)
  let s₆ := s₅.setDisk (table * sectorSize) (1 * sectorSize) links
  let s₇ := s₆.setDisk (lba * sectorSize) (1 * sectorSize) first
  have htable' : FreshBlock s.part s₅.part table := by
    rw [← hpart] at htable
    exact h₅.fresh_left htable
  have hfresh' : FreshBlock s.part s₅.part lba := h₁₃.fresh_right hfresh
  have hpos := hv.data_pos
  have hdata := htable'.data
  have hdata' := hfresh'.data
  -- The links are written first and the entry after them.
  have hdisk : ∀ x, s₇.disk x = if x / 512 = lba then first (x % 512) else
      if x / 512 = table then links (x % 512) else s₅.disk x := by
    intro x
    rw [← setDisk_sector s₅ table links x]
    exact setDisk_sector s₆ lba first x
  have hsec : ∀ j, ((grown a s₇).inode a).iSectors j =
      if j = 12 then table else (s.inode a).iSectors j := by
    intro j
    rw [grown_iSectors, ← hinode]
    show (s₅.inode a).iSectors j = _
    rw [hinode₅]
    exact hslots j
  have h12 : ((grown a s₇).inode a).iSectors 12 = table := (hsec 12).trans (if_pos rfl)
  have hlinks : ∀ x, x / 512 = table → (grown a s₇).disk x = links (x % 512) := by
    intro x hx
    refine (hdisk x).trans ?_
    rw [if_neg (fun hx' => hne (hx'.symm.trans hx)), if_pos hx]
  have hmax : maxLba = 163839 := rfl
  have hle := hfresh'.1
  -- The table names the new block only: all others were zero in memory, even
  -- where an older table on the disk had named them.
  have hbeyond : ∀ k, 12 ≤ k → k < 140 →
      inodeBlocks (grown a s₇).disk ((grown a s₇).inode a) k = if k = 12 then lba else 0 := by
    intro k hk hk'
    have hne0 : ((grown a s₇).inode a).iSectors 12 ≠ 0 := by omega
    rw [inodeBlocks_indirect hne0 (by omega), h12,
      indirectBlocks_tableBytes hlinks (by omega), show 12 + (k - 12) = k by omega]
    by_cases hk12 : k = 12
    · rw [if_pos hk12, hk12, Function.update_self, Nat.mod_eq_of_lt (by omega)]
    · rw [if_neg hk12, Function.update_of_ne hk12, hall hk, Nat.zero_mod]
  have hblock := (hbeyond 12 (by omega) (by omega)).trans (if_pos rfl)
  refine ⟨grown a s₇, ?_, ?_, ?_, fun k hk => ?_, fun k hk hk' => ?_, fun x hx => ?_,
    fun x hx => ?_, s₇, rfl, ?_⟩
  · have hsees₅ : s₅.Sees t a := by
      rw [h₁₅.rest]
      exact hsees
    have hi : (s₅.inode a).iSectors 12 = table := by
      rw [hinode₅, hslots 12, if_pos rfl]
    rw [syncNewBlock, run_bind_of hrun]
    show (syncNewBit table >>= _).run s₁ = _
    rw [run_bind_of hsync, if_neg (by omega), if_pos rfl, syncNewTable, run_bind_of hset,
      run_bind_of hrun']
    show (syncNewBit lba >>= _).run s₄ = _
    rw [run_bind_of hsync', run_bind_of (run_inodeAt hsees₅), hi,
      run_bind_of (run_ideWrite htable'.1 (by omega) _ s₅), run_syncFirstEntry hle]
  · rw [h12]
    exact htable'
  · rw [hblock]
    exact hfresh'
  · rw [hsec, if_neg (by omega)]
  · rw [hbeyond k (by omega) hk', if_neg (by omega)]
  · rw [hblock] at hx
    exact (hdisk x).trans (if_pos hx)
  · -- Neither of the new blocks was anybody's.
    refine (hdisk x).trans ?_
    rw [if_neg (fresh_ne_taken hfresh' hx).symm, if_neg (fresh_ne_taken htable' hx).symm]
    exact h₁₅.disk_data hv hx.data
  · have hown : OwnSector (grown a s₇).disk ((grown a s₇).inode a) lba :=
      ownSector_iff.mpr ⟨by omega, Or.inr ⟨12, by omega, hblock.symm⟩⟩
    have hown' : OwnSector (grown a s₇).disk ((grown a s₇).inode a) table :=
      ownSector_iff.mpr ⟨by omega, Or.inl h12.symm⟩
    exact ((h₁₅.mono (fun _ hn => Or.inl hn)).trans (allocs_write a (Or.inr hown') links s₅)).trans
      (allocs_write a (Or.inr hown) first s₆)

theorem allBlocks_none (i : Inode) {k : Nat} (hk : 12 ≤ k) : allBlocks i (fun _ => 0) k = 0 :=
  if_neg (Nat.not_lt.mpr hk)

theorem findFree_first (buf : Nat → Byte) :
    FirstFrom (fun j => (decodeEntry buf (dirEntrySize * j)).fType = .unknown) (findFree buf) :=
  ⟨fun _ => rfl, fun _ _ h => if_pos h, fun _ _ h => if_neg h⟩

/-- What the loop of `sync_dir_entry` comes to: a free slot, a direct block
    that is missing, or neither. -/
def SyncRun (t a : Nat) (e : DirEntry) (s : Fs) (r : Except FsFault (Bool × Fs)) : Prop :=
  (∃ k j, k < 12 ∧ Slot s.disk (s.inode a) k j ∧
    (slotAt s.disk (s.inode a) k j).fType = .unknown ∧ r = .ok (true, slotFilled a k j e s)) ∨
  (∃ k, k < 12 ∧ inodeBlocks s.disk (s.inode a) k = 0 ∧
    r = (syncNewBlock t a e (allBlocks (s.inode a) (fun _ => 0)) k).run s) ∨
  (∀ k, k < 12 → ¬ HasRoom s.disk (s.inode a) k) ∧
    r = (syncNewBlock t a e (allBlocks (s.inode a) (fun _ => 0)) 12).run s

/-- The loop over the blocks, from block `k₀` on. -/
theorem run_syncBlocks (hd : DirAt t a s) (e : DirEntry) {n k₀ : Nat} (hn : k₀ + n = 140)
    (hk₀ : k₀ ≤ 12) (hbefore : ∀ k, k < k₀ → ¬ HasRoom s.disk (s.inode a) k) :
    SyncRun t a e s
      ((syncBlocks t a e (allBlocks (s.inode a) (fun _ => 0)) n k₀).run s) := by
  induction n generalizing k₀ with
  | zero => omega
  | succ n ih =>
      rw [syncBlocks]
      -- The loop never gets beyond the direct blocks: in the buffer the entry of the table is
      -- zero.
      by_cases h12 : k₀ = 12
      · rw [h12] at hbefore ⊢
        rw [if_pos (show allBlocks (s.inode a) (fun _ => 0) 12 = 0 from rfl)]
        exact Or.inr (Or.inr ⟨hbefore, rfl⟩)
      have hlt : k₀ < 12 := by omega
      have hall : allBlocks (s.inode a) (fun _ => 0) k₀ = inodeBlocks s.disk (s.inode a) k₀ := by
        rw [inodeBlocks_direct hlt, allBlocks, if_pos hlt]
      rw [hall]
      by_cases hz : inodeBlocks s.disk (s.inode a) k₀ = 0
      · rw [if_pos hz]
        exact Or.inr (Or.inl ⟨k₀, hlt, hz, rfl⟩)
      rw [if_neg hz, run_bind_of (run_dirBlock hd (by omega))]
      have hfirst := findFree_first (blockBytes s.disk (s.inode a) k₀)
      cases hfind : findFree (blockBytes s.disk (s.inode a) k₀) entriesPerSec 0 with
      | none =>
          refine ih (by omega) (by omega) (fun k hk => ?_)
          by_cases hkk : k = k₀
          · rw [hkk]
            rintro (hmissing | ⟨j, hslot, hfree⟩)
            · exact hz hmissing
            · have hj := hslot.entry
              exact hfree ⟨hslot, hfirst.of_none hfind (Nat.zero_le j) (by omega)⟩
          · exact hbefore k (by omega)
      | some j =>
          rcases hfirst.of_some hfind with ⟨-, hj, hunknown⟩
          refine Or.inl ⟨k₀, j, hlt, ⟨by omega, by omega, hz⟩, hunknown, ?_⟩
          show (ideWrite _ 1 _ >>= _).run s = _
          rw [run_bind_of (run_ideWrite (hd.blocks k₀ (by omega)) (by omega) _ s)]
          rfl

/-- `sync_dir_entry`. -/
theorem run_syncDirEntry {d : Dir} (hd : DirAt t d.inode s)
    (hsize : (s.inode d.inode).iSize % dirEntrySize = 0) (e : DirEntry) :
    SyncRun t d.inode e s ((syncDirEntry t d e).run s) := by
  rw [syncDirEntry, run_bind_of (run_inodeAt hd.sees),
    run_bind_of (run_sbDirEntrySize hd.entrySize), run_bind_of (run_assert hsize s)]
  exact run_syncBlocks hd e rfl (by omega) (fun k hk => absurd hk (Nat.not_lt_zero k))

end Steps

section After

variable {t a : Nat} {s s' : Fs} {W : Nat → Prop}

/-- What a directory that is larger has in common with the one before. -/
theorem dirAt_grown (hrest : ∃ s₁, s' = grown a s₁ ∧ Allocs W a s s₁)
    (honDisk : ∀ n, OwnSector s'.disk (s'.inode a) n → n ≤ maxLba) (hd : DirAt t a s) :
    DirAt t a s' := by
  have hle : ∀ n, n = (s'.inode a).iSectors 12 ∨
      (∃ k, k < 140 ∧ n = inodeBlocks s'.disk (s'.inode a) k) → n ≤ maxLba := by
    intro n hn
    by_cases hz : n = 0
    · omega
    · exact honDisk n (ownSector_iff.mpr ⟨hz, hn⟩)
  rcases hrest with ⟨s₁, rfl, hallocs⟩
  refine ⟨?_, ?_, hle _ (Or.inl rfl), fun k hk => hle _ (Or.inr ⟨k, hk, rfl⟩)⟩
  · have hsees := hd.sees
    rw [hallocs.rest]
    exact hsees
  · exact (congrArg SuperBlock.dirEntrySize hallocs.sb).trans hd.entrySize

theorem memory_grown (hrest : ∃ s₁, s' = grown a s₁ ∧ Allocs W a s s₁) (hm : Memory s) :
    Memory s' := by
  rcases hrest with ⟨s₁, rfl, hallocs⟩
  rw [hallocs.rest]
  exact hm

variable {k₀ j₀ : Nat} {e : DirEntry}

theorem Synced.dirAt (h : Synced a k₀ j₀ e s s') (hd : DirAt t a s) : DirAt t a s' :=
  dirAt_grown h.rest h.onDisk hd

theorem Synced.iSize (h : Synced a k₀ j₀ e s s') :
    (s'.inode a).iSize = add32 (s.inode a).iSize dirEntrySize := by
  rcases h.rest with ⟨s₁, rfl, hallocs⟩
  rw [grown_inode, hallocs.iSize]

/-- Only the block bitmap and the directory are written. -/
theorem Synced.disk (h : Synced a k₀ j₀ e s s') {x : Nat} (hx : s'.disk x ≠ s.disk x) :
    BitmapSector s.part.sb (x / 512) ∨ OwnSector s'.disk (s'.inode a) (x / 512) := by
  rcases h.rest with ⟨s₁, rfl, hallocs⟩
  exact hallocs.disk x hx

end After

section NoTable

variable {t : Nat} {s : Fs} {d : Dir} {e : DirEntry} {name : Str}

/-- Where there is no table, two free blocks are enough. -/
theorem run_syncNoTable (h : Insertion t d e name s) (h12 : (s.inode d.inode).iSectors 12 = 0)
    (hcount : 2 ≤ freeCount s.part.blockBitmap) :
    ∃ s' k₀ j₀, (syncDirEntry t d e).run s = .ok (true, s') ∧ Synced d.inode k₀ j₀ e s s' := by
  rcases run_syncDirEntry h.dir h.whole e with ⟨k, j, -, hslot, hfree, hrun⟩ |
    ⟨k, hk, hmissing, hrun⟩ | ⟨-, hrun⟩
  · exact ⟨_, k, j, hrun, synced_slot h.owns hslot hfree e⟩
  · rcases run_syncDirect h.volume h.owns (by omega) hk hmissing t e
      (allBlocks (s.inode d.inode) (fun _ => 0)) with ⟨s', hrun', hsynced⟩
    exact ⟨s', k, 0, hrun.trans hrun', hsynced⟩
  · rcases run_syncTable h.dir.sees h.volume hcount e (allBlocks_none (s.inode d.inode))
      with ⟨s', hrun', hout⟩
    exact ⟨s', 12, 0, hrun.trans hrun', hout.synced h.volume h.owns h12⟩

/-- `sync_dir_entry` on a directory without a table: the entry is found, and so
    is everything else. -/
theorem entry_inserted (h : Insertion t d e name s) (h12 : (s.inode d.inode).iSectors 12 = 0)
    (hcount : 2 ≤ freeCount s.part.blockBitmap) :
    ∃ s', (syncDirEntry t d e).run s = .ok (true, s') ∧
      (s'.inode d.inode).iSize = add32 (s.inode d.inode).iSize dirEntrySize ∧
      (∃ e', (searchDirEntry t d name).run s' = .ok (some e', s') ∧ SameEntry e' e) ∧
      (∀ other, other ≠ name → other ≠ [] → (0 : Byte) ∉ other →
        ∃ r r', (searchDirEntry t d other).run s = .ok (r, s) ∧
          (searchDirEntry t d other).run s' = .ok (r', s') ∧ Option.Rel SameEntry r' r) ∧
      ∀ x, s'.disk x ≠ s.disk x → BitmapSector s.part.sb (x / 512) ∨
        OwnSector s'.disk (s'.inode d.inode) (x / 512) := by
  rcases run_syncNoTable h h12 hcount with ⟨s', k₀, j₀, hrun, hs⟩
  have hd' := hs.dirAt h.dir
  have hm' := memory_grown hs.rest h.memory
  refine ⟨s', hrun, hs.iSize, ?_, fun other hother hne hzero => ?_, fun x hx => hs.disk hx⟩
  · rcases run_searchDir hd' hm' name with ⟨r, hsearch, hfirst⟩
    rcases hs.inserted.found_new h.entry h.typed h.cleared h.absent hfirst with ⟨e', rfl, hsame⟩
    exact ⟨e', hsearch, hsame⟩
  · rcases run_searchDir h.dir h.memory other with ⟨r, hsearch, hfirst⟩
    rcases run_searchDir hd' hm' other with ⟨r', hsearch', hfirst'⟩
    exact ⟨r, r', hsearch, hsearch',
      hs.inserted.found_other h.entry h.typed h.cleared hzero hne hother hfirst hfirst'⟩

end NoTable

section FullDir

/-- What is in the entries of `largeDir`. -/
structure LargeDirEntries : Prop where
  typed : ∀ k : Fin 13, ∀ j : Fin 21, 21 * k.val + j.val < 253 →
    (slotAt largeDisk (largeDir.inode 0) k j).fType = .regular ∨
      (slotAt largeDisk (largeDir.inode 0) k j).fType = .directory
  letter : ∀ k : Fin 13, ∀ j : Fin 21,
    blockBytes largeDisk (largeDir.inode 0) k (dirEntrySize * j) ≠ 0x41
  last : ∀ k : Fin 12, ∀ j : Fin 21,
    strEq (blockBytes largeDisk (largeDir.inode 0) k) (dirEntrySize * j) [0x70, 0x6d] = false
  there : strEq (blockBytes largeDisk (largeDir.inode 0) 12) (dirEntrySize * 0) [0x70, 0x6d] = true

set_option maxRecDepth 20000 in
theorem largeDir_entries : LargeDirEntries := by
  constructor <;> decide +kernel

theorem largeDir_count : 2 ≤ freeCount largeDir.part.blockBitmap := by
  refine Finset.one_lt_card.mpr ⟨14, ?_, 15, ?_, by decide⟩
  · exact Finset.mem_filter.mpr ⟨Finset.mem_range.mpr (by decide), by decide⟩
  · exact Finset.mem_filter.mpr ⟨Finset.mem_range.mpr (by decide), by decide⟩

/-- A file that is not in `largeDir`. -/
def newFile : DirEntry := newDirEntry [0x41] 253 .regular

theorem newFile_entry : NewEntry newFile [0x41] :=
  ⟨by decide, by decide, by decide, Or.inl rfl⟩

/-- The first block of `largeDir` as a directory of its own. All of its slots
    are in use. -/
def fullDir : Fs :=
  { largeDir with inode := fun _ => ⟨0, 21 * 24, 1, false, fun k => if k = 0 then 612 else 0⟩ }

theorem fullDir_blocks (k : Nat) :
    inodeBlocks fullDir.disk (fullDir.inode 0) k = if k = 0 then 612 else 0 := by
  by_cases hk : k < 12
  · rw [inodeBlocks_direct hk]
    rfl
  · rw [inodeBlocks_noTable rfl hk, if_neg (by omega)]

/-- A slot of that directory is one of `largeDir`. -/
theorem fullDir_slot {k j : Nat} (h : Slot fullDir.disk (fullDir.inode 0) k j) :
    k = 0 ∧ j < 21 ∧
      blockBytes fullDir.disk (fullDir.inode 0) k = blockBytes largeDisk (largeDir.inode 0) 0 := by
  have hk : k = 0 := by
    by_contra hk
    have hthere := h.there
    rw [fullDir_blocks, if_neg hk] at hthere
    exact hthere rfl
  refine ⟨hk, h.entry, ?_⟩
  have hblock := largeDir_facts.blocks 0
  rw [blockBytes, blockBytes, fullDir_blocks, if_pos hk]
  exact congrArg (fun n => sectors largeDisk n 1) hblock.symm

theorem fullDir_insertion : Insertion 0 ⟨0, true⟩ newFile [0x41] fullDir := by
  have hmax : maxLba = 163839 := rfl
  have htaken : TakenBlock fullDir.part 612 := ⟨by decide, 0, by decide, by decide, by decide⟩
  refine ⟨⟨Or.inl rfl, rfl, by decide, fun k _ => ?_⟩, largeDir_volume,
    ⟨fun k _ hthere => ?_, fun h12 => absurd rfl h12, fun i k _ _ hi heq => ?_,
      fun k _ hthere => hthere⟩, fun k j b hs hunknown _ => ?_, fun k j hlive => ?_, by decide,
    newFile_entry, fun k j hmatch => ?_, fun _ => rfl⟩
  · show inodeBlocks fullDir.disk (fullDir.inode 0) k ≤ maxLba
    rw [fullDir_blocks]
    split <;> omega
  · have hblock := fullDir_blocks k
    by_cases hk : k = 0
    · rw [if_pos hk] at hblock
      exact hblock ▸ htaken
    · rw [if_neg hk] at hblock
      exact absurd hblock hthere
  · have hbi := fullDir_blocks i
    have hbk := fullDir_blocks k
    by_cases hi0 : i = 0
    · by_cases hk0 : k = 0
      · rw [hi0, hk0]
      · rw [if_neg hk0] at hbk
        exact absurd (heq.trans hbk) hi
    · rw [if_neg hi0] at hbi
      exact absurd hbi hi
  · -- There is no free slot.
    rcases fullDir_slot hs with ⟨-, hj, hbytes⟩
    have hfree := (largeDir_facts.free 0 ⟨j, hj⟩).mp
    have hsame : (slotAt largeDisk (largeDir.inode 0) 0 j).fType = .unknown := by
      rw [slotAt, ← hbytes]
      exact hunknown
    have hle := hfree hsame
    dsimp only at hle
    omega
  · rcases fullDir_slot hlive.toSlot with ⟨-, hj, hbytes⟩
    show (decodeEntry (blockBytes fullDir.disk (fullDir.inode 0) k) _).fType = _ ∨
      (decodeEntry (blockBytes fullDir.disk (fullDir.inode 0) k) _).fType = _
    rw [hbytes]
    exact largeDir_entries.typed 0 ⟨j, hj⟩ (by dsimp only; omega)
  · rcases fullDir_slot hmatch.toSlot with ⟨-, hj, hbytes⟩
    have hsame := hmatch.same
    rw [hbytes, strEq_iff] at hsame
    exact largeDir_entries.letter 0 ⟨j, hj⟩ (hsame.1 0 (by decide))

theorem entry_inserted_full : ∃ s',
    (syncDirEntry 0 ⟨0, true⟩ newFile).run fullDir = .ok (true, s') ∧
    ∃ e', (searchDirEntry 0 ⟨0, true⟩ [0x41]).run s' = .ok (some e', s') ∧
      SameEntry e' newFile := by
  rcases entry_inserted fullDir_insertion rfl largeDir_count with ⟨s', hrun, -, hfound, -⟩
  exact ⟨s', hrun, hfound⟩

/-- The new entry gets a new block, and the slots next to it have the empty
    name, which was in no slot before. -/
theorem empty_name_appears : Insertion 0 ⟨0, true⟩ newFile [0x41] fullDir ∧
    (fullDir.inode 0).iSectors 12 = 0 ∧ 2 ≤ freeCount fullDir.part.blockBitmap ∧
    ∃ s' e', (syncDirEntry 0 ⟨0, true⟩ newFile).run fullDir = .ok (true, s') ∧
      (searchDirEntry 0 ⟨0, true⟩ []).run fullDir = .ok (none, fullDir) ∧
      (searchDirEntry 0 ⟨0, true⟩ []).run s' = .ok (some e', s') := by
  have hins := fullDir_insertion
  refine ⟨hins, rfl, largeDir_count, ?_⟩
  rcases run_syncNoTable hins rfl largeDir_count with ⟨s', k₀, j₀, hrun, hs⟩
  rcases run_searchDir hins.dir hins.memory [] with ⟨r, hsearch, hfirst⟩
  rcases run_searchDir (hs.dirAt hins.dir) (memory_grown hs.rest hins.memory) []
    with ⟨r', hsearch', hfirst'⟩
  have hnone : ∀ k j, ¬ Matches fullDir.disk (fullDir.inode 0) [] k j := by
    intro k j hmatch
    rcases fullDir_slot hmatch.toSlot with ⟨-, hj, hbytes⟩
    have hsame := hmatch.same
    rw [hbytes] at hsame
    have hblock : inodeBlocks largeDisk (largeDir.inode 0) 0 = 612 := largeDir_facts.blocks 0
    have hslot : Slot largeDisk (largeDir.inode 0) 0 j := ⟨by decide, hj, by omega⟩
    have hnamed := largeDir_facts.named 0 ⟨j, hj⟩ (by dsimp only; omega)
    rcases Option.isSome_iff_exists.mp hnamed.1 with ⟨name, hname⟩
    exact hnamed.2 ((matches_iff_named hslot hname (by decide)).mp ⟨hslot, hsame⟩)
  have hmissing : inodeBlocks fullDir.disk (fullDir.inode 0) k₀ = 0 := by
    by_contra hthere
    have hslot : Slot fullDir.disk (fullDir.inode 0) k₀ j₀ :=
      ⟨hs.inserted.slot.block, hs.inserted.slot.entry, hthere⟩
    rcases fullDir_slot hslot with ⟨-, hj, hbytes⟩
    refine hs.inserted.free ⟨hslot, fun hunknown => ?_⟩
    have hsame : (slotAt largeDisk (largeDir.inode 0) 0 j₀).fType = .unknown := by
      rw [slotAt, ← hbytes]
      exact hunknown
    have hle := (largeDir_facts.free 0 ⟨j₀, hj⟩).mp hsame
    dsimp only at hle
    omega
  cases r with
  | some e =>
      rcases hfirst with ⟨k, j, hmatch, -⟩
      exact absurd hmatch (hnone k j)
  | none =>
      cases r' with
      | some e' => exact ⟨s', e', hrun, hsearch, hsearch'⟩
      | none =>
          -- One of the first two slots of the new block is cleared.
          have hcleared : ∀ j, j < 2 → j ≠ j₀ → False := by
            intro j hj hne
            have hentry : j < entriesPerSec := Nat.lt_trans hj (by decide)
            refine hfirst' k₀ j ⟨⟨hs.inserted.slot.block, hentry, hs.inserted.slot.there⟩, ?_⟩
            exact strEq_iff.mpr ⟨fun k hk => absurd hk (Nat.not_lt_zero k),
              hs.inserted.cleared hmissing j 0 hentry hne (by decide)⟩
          by_cases hj₀ : j₀ = 0
          · exact (hcleared 1 (by decide) (by omega)).elim
          · exact (hcleared 0 (by decide) (by omega)).elim

end FullDir

end ForikOS
