import ForikOS.Theory.FileWrite

/-!
# Growing a File

The two situations of `file_write` in which it does not do what it is for.

In situation 1 the new blocks go to the inode, so there is no table; the write
of the table after the three situations happens all the same, to the address
in a variable that only the other two set. `leads_direct` follows the call
with any value in it.

In situation 3 the loop that hands out blocks does not move its index. It goes
on until the bitmap is full, and then the assertion of `bitmap_scan` stops the
machine, however many blocks there were.

## Main definitions

* `WritesOwn`: Only sectors of the file, of the block bitmap and of the inode
  table are written.
* `GrowsExactly`: The call takes the blocks it needs, and records them.

## Theorems

* `leads_direct`: Situation 1.
* `stops_grow`: Situation 3.
* `file_write_own`: The sectors are the file's but in situation 1.
* `grows_exactly`: A large file can only be written in its last block.
-/

namespace ForikOS

open Prog

section Situations

variable {t g a count : Nat} {src : Nat → Byte} {s : Fs} {sync : Inode → FsM Unit}

/-- Without memory nothing is written. -/
theorem run_fileWriteWith_nomem (src : Nat → Byte) (sync : Inode → FsM Unit) (hat : FileAt t g a s)
    (hsum : ¬ 71680 < add32 (s.inode a).iSize count)
    (hmem : ¬ (s.mallocs 0 = true ∧ s.mallocs 1 = true)) :
    ∃ s', (fileWriteWith sync t g src count).run s = .ok (-1, s') ∧ Quiet s s' := by
  have hmalloc : ∃ s', mallocBuffers.run s = .ok (false, s') ∧ Quiet s s' := by
    by_cases h0 : s.mallocs 0 = true
    · refine ⟨{ s with mallocs := fun k => s.mallocs (k + 2) }, ?_, rfl⟩
      have hfirst : malloc.run s = .ok (true, { s with mallocs := fun k => s.mallocs (k + 1) }) := by
        rw [malloc, run_bind_of (run_read _ s), run_bind_of (run_modify _ s), run_pure, h0]
      rw [mallocBuffers, run_bind_of hfirst, if_pos rfl, malloc, run_bind_of (run_read _ _),
        run_bind_of (run_modify _ _), run_pure]
      show Except.ok (s.mallocs 1, _) = _
      rw [Bool.eq_false_iff.mpr (fun h1 => hmem ⟨h0, h1⟩)]
    · refine ⟨{ s with mallocs := fun k => s.mallocs (k + 1) }, ?_, rfl⟩
      have hfirst : malloc.run s =
          .ok (false, { s with mallocs := fun k => s.mallocs (k + 1) }) := by
        rw [malloc, run_bind_of (run_read _ s), run_bind_of (run_modify _ s), run_pure,
          Bool.eq_false_iff.mpr h0]
      rw [mallocBuffers, run_bind_of hfirst, if_neg (by decide), run_pure]
  rcases hmalloc with ⟨s', hrun, hquiet⟩
  refine ⟨s', ?_, hquiet⟩
  rw [fileWriteWith, run_bind_of (run_fileInode hat)]
  show (if 71680 < add32 (s.inode a).iSize count then _ else _ : FsM Int).run s = _
  rw [if_neg hsum, run_bind_of hrun, if_neg (by decide), run_pure]

/-- A file that has a block, in a call that has its memory. -/
theorem leads_collect (src : Nat → Byte) (sync : Inode → FsM Unit) (hat : FileAt t g a s)
    {first : Nat} (hlaid : Laid s.disk (s.inode a) first)
    (hsum : ¬ 71680 < add32 (s.inode a).iSize count)
    (hmem : s.mallocs 0 = true ∧ s.mallocs 1 = true) :
    Leads (fileWriteWith sync t g src count) s
      (collectBlocks t g count (s.junk 0) (2 ^ 32 - 1) >>= fun all =>
        match all with
        | none => pure (-1)
        | some all => writeFileWith sync t g src count all) (entered s) := by
  have hrun : (writeFirstBlock t g).run (entered s) = .ok (some (2 ^ 32 - 1), entered s) :=
    run_writeFirstBlock_recorded hat.entered hlaid
  exact (leads_fileWriteWith src sync hat hsum hmem).trans (leads_bind hrun)

/-- Situation 3: a large file that needs a block. -/
theorem stops_grow (src : Nat → Byte) (sync : Inode → FsM Unit) (h : FileOn t g a s)
    (hmem : s.mallocs 0 = true ∧ s.mallocs 1 = true)
    (hsize : (s.inode a).iSize + count < 71680) (hbig : 12 ≤ (s.inode a).iSize / 512)
    (hmore : (s.inode a).iSize / 512 < ((s.inode a).iSize + count) / 512) :
    ∃ s', Stops (fileWriteWith sync t g src count) s (.assertion .bitmapScan) s' ∧
      s'.disk = s.disk ∧ s'.inode = s.inode := by
  have hlaid : Laid s.disk (s.inode a) ((s.inode a).iSize / 512) := by
    rcases h.wf with hnone | hlaid
    · rw [hnone.1] at hbig
      omega
    · exact hlaid
  have hrec : Recorded a ((s.inode a).iSize / 512) (entered s) := ⟨hlaid, h.taken⟩
  have hadd : add32 (s.inode a).iSize count = (s.inode a).iSize + count := by
    rw [add32, Nat.mod_eq_of_lt (by omega)]
  -- The index stays where it is, so the loop goes on until the bitmap is full.
  rcases stops_collectIndirect (2 ^ 32 - 1) (s := entered s) h.volume hrec hbig
    (show (s.inode a).iSize / 512 + 1 < ((s.inode a).iSize + count) / 512 + 1 by omega)
    with ⟨s', hstop, hallocs, hinode⟩
  refine ⟨s', (leads_collect src sync h.file hlaid (by omega) hmem).stops (stops_bind ?_), ?_,
    hinode⟩
  · refine (leads_collectBlocks h.file.entered (s.junk 0) (2 ^ 32 - 1)
      (show add32 (s.inode a).iSize count / 512 = ((s.inode a).iSize + count) / 512 by rw [hadd])
      (by omega)).stops ?_
    have hsize₀ : ((entered s).inode a).iSize = (s.inode a).iSize := rfl
    rw [hsize₀, if_neg (by omega), if_neg (by omega), if_neg (by omega)]
    exact hstop
  · funext x
    exact hallocs.disk_eq (fun hf => hf)

/-- Situation 1 after the first step, with an address that is a sector's in the
    variable: the sector is cleared. -/
theorem leads_direct (src : Nat → Byte) (sync : Inode → FsM Unit) (lba : Nat)
    (hat : FileAt t g a s) (hv : Volume s.part)
    (hrec : Recorded a ((s.inode a).iSize / 512) s)
    (hsize : (s.inode a).iSize + count < 71680)
    (hmore : (s.inode a).iSize / 512 < ((s.inode a).iSize + count) / 512)
    (hlast : ((s.inode a).iSize + count) / 512 < 12)
    (hfree : ((s.inode a).iSize + count) / 512 - (s.inode a).iSize / 512 ≤
      freeCount s.part.blockBitmap) {table : Nat} (htable : table ≤ maxLba) :
    ∃ s', Leads (collectBlocks t g count table lba >>= fun all =>
        match all with
        | none => pure (-1)
        | some all => writeFileWith sync t g src count all) s
        (sync (s'.inode a) >>= fun _ => pure (count : Int)) s' ∧
      Volume s'.part ∧ s'.part.sb = s.part.sb ∧
      (s'.inode a).iSize = (s.inode a).iSize + count ∧
      (table < s.part.sb.dataStartLba → ∀ x, x / 512 = table → s'.disk x = 0) := by
  have hslot : TakenBlock s.part ((s.inode a).iSectors ((s.inode a).iSize / 512)) := by
    rw [← fileBlocks_direct (d := s.disk) (by omega)]
    exact hrec.block_taken (Nat.le_refl _)
  rcases run_collectDirect _ hat hv hslot (by omega)
    (fun k hk hk' => hrec.slot_zero hk hk') hfree htable
    with ⟨all, s₁, hrun, hallocs, hall, htaken, hzero⟩
  let s₂ := s₁.setDisk (table * sectorSize) (1 * sectorSize) (tableBytes all)
  have hat₂ : FileAt t g a s₂ := ⟨(hallocs.fileAt hat).slot, (hallocs.fileAt hat).sees⟩
  have hsize₂ : (s₂.inode a).iSize = (s.inode a).iSize := hallocs.iSize
  have hsb₂ : s₂.part.sb = s.part.sb := hallocs.sb
  -- The branch of collecting blocks that stays below the table.
  have hcollect : (collectBlocks t g count table lba).run s = .ok (some all, s₂) := by
    rw [(leads_collectBlocks hat table lba (show add32 (s.inode a).iSize count / 512 = _ by
      rw [add32, Nat.mod_eq_of_lt (by omega)]) (by omega)).1, if_neg (by omega), if_pos (by omega)]
    exact hrun
  rcases leads_writeFileWith src sync hat₂ hall
    (show (s₂.inode a).iSize + count ≤ 71680 by omega) with ⟨s', hlead, hwrote, -, hframe, -⟩
  rw [hsize₂] at hframe
  refine ⟨s', (leads_bind hcollect).trans hlead, ?_, ?_, ?_, fun hlow x hx => ?_⟩
  · rw [hwrote.part]
    exact hallocs.volume hv
  · rw [hwrote.part, hsb₂]
  · rw [hwrote.iSize, hsize₂]
  · -- the data goes to taken blocks, and `all_blocks` is zero from the table on
    have hkeep : s'.disk x = s₂.disk x := by
      by_contra hne
      rcases hframe x hne with ⟨p, hp, hp', hxp⟩
      have hdata := (htaken (p / 512) (by omega) (by omega)).data
      rw [hallocs.sb] at hdata
      omega
    rw [hkeep, setDisk_sector, if_pos hx, tableBytes, hzero _ (by omega) (by omega)]
    exact BitVec.eq_of_toNat_eq (by simp [byteOf])

end Situations

/-- Whatever the disk holds elsewhere and whatever the variables hold before
    they are set, a call writes sectors of the file, of the block bitmap and of
    the inode table only. -/
def WritesOwn (t g a : Nat) (src : Nat → Byte) (count : Nat) (s : Fs) : Prop :=
  ∀ (disk : Nat → Byte) (junk : Nat → Nat), WellFormed disk (s.inode a) →
    (∀ n, OwnSector disk (s.inode a) n → TakenBlock s.part n) →
    ∀ x, ((fileWrite t g src count).stop { s with disk := disk, junk := junk }).disk x ≠ disk x →
      OwnSector ((fileWrite t g src count).stop { s with disk := disk, junk := junk }).disk
          (((fileWrite t g src count).stop { s with disk := disk, junk := junk }).inode a)
          (x / 512) ∨
        BitmapSector s.part.sb (x / 512) ∨ TableSector s.part.sb (x / 512)

section Own

variable {t g a count : Nat} {src : Nat → Byte} {s : Fs}

/-- Outside situation 1 a call keeps to its own. -/
theorem own_sectors_only (h : FileOn t g a s) (hsize : (s.inode a).iSize + count < 71680)
    (hfree : newBlocks (s.inode a) count ≤ freeCount s.part.blockBitmap)
    (hcase : ¬ ((s.mallocs 0 = true ∧ s.mallocs 1 = true) ∧
      (s.inode a).iSize / 512 < ((s.inode a).iSize + count) / 512 ∧
      ((s.inode a).iSize + count) / 512 < 12)) {x : Nat}
    (hx : ((fileWrite t g src count).stop s).disk x ≠ s.disk x) :
    OwnSector ((fileWrite t g src count).stop s).disk
        (((fileWrite t g src count).stop s).inode a) (x / 512) ∨
      BitmapSector s.part.sb (x / 512) ∨ TableSector s.part.sb (x / 512) := by
  rw [← fileWriteWith_inodeSync] at hx ⊢
  by_cases hmem : s.mallocs 0 = true ∧ s.mallocs 1 = true
  · by_cases happend : ((s.inode a).iSize + count) / 512 = (s.inode a).iSize / 512 ∨
      (s.inode a).iSize / 512 < 12 ∧ 12 ≤ ((s.inode a).iSize + count) / 512
    · -- The call appends: it has written its own sectors and the block bitmap, and
      -- syncing the inode writes the inode table.
      rcases leads_append src (fun i => inodeSync i sectorSize) h hmem hsize hfree
        happend with ⟨s₁, hlead, -, happ⟩
      rcases stop_inodeSync (i := s₁.inode a) happ.volume.toTableFits (count : Int)
        with ⟨s', hstop, hs', hd⟩
      rw [hlead.2, hstop] at hx ⊢
      have hsb : s₁.part.sb = s.part.sb := by rw [happ.part]
      rw [hsb] at hd
      rcases happ.synced hs' hd with ⟨-, hown, -⟩
      by_cases hx' : s'.disk x = s₁.disk x
      · rw [hx'] at hx
        rcases happ.frame x hx with hbit | hmine
        · exact Or.inr (Or.inl hbit)
        · exact Or.inl ((hown _).mpr hmine)
      · exact Or.inr (Or.inr (hd x hx'))
    · have hcase' : ¬ ((s.inode a).iSize / 512 < ((s.inode a).iSize + count) / 512 ∧
          ((s.inode a).iSize + count) / 512 < 12) := fun hc => hcase ⟨hmem, hc⟩
      -- A file with a table that needs a block stops before it writes.
      rcases stops_grow src (fun i => inodeSync i sectorSize) h hmem hsize
        (by omega) (by omega) with ⟨s', hstop, hdisk, -⟩
      rw [hstop.2, hdisk] at hx
      exact absurd rfl hx
  · -- Without both buffers the call returns and the disk is as it was.
    have hsum : ¬ 71680 < add32 (s.inode a).iSize count := by
      rw [add32, Nat.mod_eq_of_lt (by omega)]
      omega
    rcases run_fileWriteWith_nomem src (fun i => inodeSync i sectorSize) h.file
      hsum hmem with ⟨s', hrun, hquiet⟩
    rw [stop_of_ok hrun, hquiet] at hx
    exact absurd rfl hx

/-- A disk whose first sector is all ones. -/
def markedDisk (disk : Nat → Byte) (x : Nat) : Byte := if x / 512 = 0 then 0xff else disk x

/-- In situation 1 the first sector of the disk can be cleared. -/
theorem not_writesOwn (h : FileOn t g a s) (hsize : (s.inode a).iSize + count < 71680)
    (hfree : newBlocks (s.inode a) count ≤ freeCount s.part.blockBitmap)
    (hmem : s.mallocs 0 = true ∧ s.mallocs 1 = true)
    (hmore : (s.inode a).iSize / 512 < ((s.inode a).iSize + count) / 512)
    (hlast : ((s.inode a).iSize + count) / 512 < 12) : ¬ WritesOwn t g a src count s := by
  intro hkeeps
  have hnotable : (s.inode a).iSectors 12 = 0 := by
    rcases h.wf with hnone | hlaid
    · exact hnone.2 12 (by omega)
    · by_contra hne
      have := hlaid.table.mp hne
      omega
  have hwf : WellFormed (markedDisk s.disk) (s.inode a) :=
    h.wf.imp_right (fun hlaid => hlaid.congr (fun _ _ => rfl) (fun hne => absurd hnotable hne))
  have htaken : ∀ n, OwnSector (markedDisk s.disk) (s.inode a) n → TakenBlock s.part n :=
    fun n hn => h.taken n ((OwnSector.congr (fun _ _ => rfl) (fun hne => absurd hnotable hne)).mp hn)
  let s₀ : Fs := { s with disk := markedDisk s.disk, junk := fun _ => 0 }
  have hon : FileOn t g a s₀ := ⟨⟨h.file.slot, h.file.sees⟩, h.volume, hwf, htaken⟩
  have hon' : FileOn t g a (entered s₀) := ⟨hon.file.entered, hon.volume, hon.wf, hon.taken⟩
  rw [newBlocks, if_neg (by omega : ¬ ((s.inode a).iSize / 512 < 12 ∧
    12 ≤ ((s.inode a).iSize + count) / 512)), Nat.add_zero] at hfree
  rcases run_firstBlock hon' (by
    show (if (s.inode a).iSectors 0 = 0 then 1 else 0) ≤ freeCount s.part.blockBitmap
    omega) with ⟨lba, s₁, hfirst, h₁, hrec, -, hcount, -⟩
  have hsize₁ : (s₁.inode a).iSize = (s.inode a).iSize := h₁.iSize
  have hsb₁ : s₁.part.sb = s.part.sb := h₁.sb
  have hfree₁ : ((s₁.inode a).iSize + count) / 512 - (s₁.inode a).iSize / 512 ≤
      freeCount s₁.part.blockBitmap := by
    have hc : freeCount s₁.part.blockBitmap + (if (s.inode a).iSectors 0 = 0 then 1 else 0) =
      freeCount s.part.blockBitmap := hcount
    rw [hsize₁]
    omega
  rcases leads_direct src (fun i => inodeSync i sectorSize) lba (h₁.fileAt hon'.file)
    (h₁.volume hon'.volume) hrec (show (s₁.inode a).iSize + count < 71680 by omega) (by omega)
    (by omega) hfree₁ (Nat.zero_le maxLba)
    with ⟨s₂, hlead, hv₂, hsb₂, -, hstray⟩
  rcases stop_inodeSync (i := s₂.inode a) hv₂.toTableFits (count : Int) with ⟨s', hstop, -, hd⟩
  have hsum : ¬ 71680 < add32 (s.inode a).iSize count := by
    rw [add32, Nat.mod_eq_of_lt (by omega)]
    omega
  have hall : (fileWrite t g src count).stop s₀ = s' := by
    rw [← fileWriteWith_inodeSync, (leads_fileWriteWith src _ hon.file hsum hmem).2, ← hstop,
      ← hlead.2]
    exact (leads_bind hfirst).2
  have hboot := h.volume.boot
  have htable := h.volume.table
  have hpos := h.volume.data_pos
  -- the first sector is neither the file's nor the bitmap's nor the table's
  have hzero : s'.disk 0 = 0 := by
    have hrest : s'.disk 0 = s₂.disk 0 := by
      by_contra hne
      have hin := (hd 0 hne).1
      rw [hsb₂, hsb₁] at hin
      omega
    rw [hrest]
    exact hstray (by rw [hsb₁]; exact hpos) 0 (by omega)
  have hbad := hkeeps (markedDisk s.disk) (fun _ => 0) hwf htaken 0
  rw [hall, hzero] at hbad
  have hne : (0 : Byte) ≠ markedDisk s.disk 0 := by
    rw [markedDisk, if_pos (by omega)]
    decide
  rcases hbad hne with hown | hbit | htab
  · exact hown.1 rfl
  · have := hbit.1
    omega
  · have := htab.1
    omega

/-- A call that has its memory and its blocks keeps to its own sectors but
    where it adds blocks and stays without a table. -/
theorem file_write_own (h : FileOn t g a s) (hsize : (s.inode a).iSize + count < 71680)
    (hfree : newBlocks (s.inode a) count ≤ freeCount s.part.blockBitmap) :
    WritesOwn t g a src count s ↔ ¬ ((s.mallocs 0 = true ∧ s.mallocs 1 = true) ∧
      (s.inode a).iSize / 512 < ((s.inode a).iSize + count) / 512 ∧
      ((s.inode a).iSize + count) / 512 < 12) := by
  constructor
  · rintro hkeeps ⟨hmem, hmore, hlast⟩
    exact not_writesOwn h hsize hfree hmem hmore hlast hkeeps
  · intro hcase disk junk hwf htaken x hx
    exact own_sectors_only (s := { s with disk := disk, junk := junk })
      ⟨⟨h.file.slot, h.file.sees⟩, h.volume, hwf, htaken⟩ hsize hfree hcase hx

/-- A byte more in an empty file. -/
theorem file_write_own_first : WritesOwn 0 3 0 (fun _ => 7) 1 emptyFile ↔
    ¬ ((emptyFile.mallocs 0 = true ∧ emptyFile.mallocs 1 = true) ∧
      (emptyFile.inode 0).iSize / 512 < ((emptyFile.inode 0).iSize + 1) / 512 ∧
      ((emptyFile.inode 0).iSize + 1) / 512 < 12) :=
  file_write_own emptyFile_on (by decide) (by rw [emptyFile_free]; decide)

/-- A block more in an empty file. -/
theorem stray_write : FileOn 0 3 0 emptyFile ∧ (emptyFile.inode 0).iSize + 512 < 71680 ∧
    newBlocks (emptyFile.inode 0) 512 ≤ freeCount emptyFile.part.blockBitmap ∧
    ¬ WritesOwn 0 3 0 (fun _ => 7) 512 emptyFile := by
  have hfree : newBlocks (emptyFile.inode 0) 512 ≤ freeCount emptyFile.part.blockBitmap := by
    rw [emptyFile_free]
    decide
  exact ⟨emptyFile_on, by decide, hfree,
    not_writesOwn emptyFile_on (by decide) hfree ⟨rfl, rfl⟩ (by decide) (by decide)⟩

end Own

/-- A call returns the number of bytes, has taken one block for each new block
    of the file, and these are recorded. -/
def GrowsExactly (t g a : Nat) (src : Nat → Byte) (count : Nat) (s : Fs) : Prop :=
  ∃ s', (fileWrite t g src count).run s = .ok ((count : Int), s') ∧
    freeCount s'.part.blockBitmap + (((s.inode a).iSize + count) / 512 - (s.inode a).iSize / 512) =
      freeCount s.part.blockBitmap ∧
    Laid s'.disk (s'.inode a) (((s.inode a).iSize + count) / 512) ∧
    ∀ k, (s.inode a).iSize / 512 < k → k ≤ ((s.inode a).iSize + count) / 512 →
      FreshBlock s.part s'.part (fileBlocks s'.disk (s'.inode a) k)

section Exact

variable {t g a count : Nat} {src : Nat → Byte} {s : Fs}

/-- In its last block a file is written as it should be, if its record lies in
    one sector. -/
theorem growsExactly_same (h : FileOn t g a s) (hsize : (s.inode a).iSize + count < 71680)
    (hbig : 12 ≤ (s.inode a).iSize / 512)
    (hsame : ((s.inode a).iSize + count) / 512 = (s.inode a).iSize / 512)
    (hmem : s.mallocs 0 = true ∧ s.mallocs 1 = true)
    (hone : (inodePos s.part.sb ((s.inode a).iNo % 256)).sects = 1) :
    GrowsExactly t g a src count s := by
  -- A file of this size has its blocks.
  have hlaid : Laid s.disk (s.inode a) ((s.inode a).iSize / 512) := by
    rcases h.wf with hnone | hlaid
    · rw [hnone.1] at hbig
      omega
    · exact hlaid
  have hfirst : ¬ (s.inode a).iSectors 0 = 0 := by
    rw [← fileBlocks_direct (d := s.disk) (by omega)]
    exact hlaid.recorded 0 (by omega)
  -- The new end is in the last block, so no block is added.
  have hnew : newBlocks (s.inode a) count = 0 := by
    rw [newBlocks, if_neg hfirst, if_neg (by omega)]
    omega
  rcases leads_append src (fun i => inodeSync i sectorSize) h hmem hsize (by omega) (Or.inl hsame)
    with ⟨s₁, hlead, -, happ⟩
  rcases syncsTable_inodeSync h.volume hone (s₁.inode a) s₁ happ.iNo
    (by rw [happ.part]; exact ⟨rfl, rfl, rfl⟩) with ⟨s', hrun, hs', hd⟩
  have hblocks := happ.blocks
  refine ⟨s', ?_, ?_, (happ.synced hs' hd).1.laid, fun k hk hk' => by omega⟩
  · rw [← fileWriteWith_inodeSync, hlead.1, run_bind_of hrun, run_pure]
  · have hpart : s'.part = s₁.part := by rw [hs']
    rw [hpart]
    omega

/-- Writing to a file with a table takes exactly the blocks it needs when it
    needs none, and both buffers and the record of the inode fit; otherwise it
    does not return. -/
theorem grows_exactly (h : FileOn t g a s) (hsize : (s.inode a).iSize + count < 71680)
    (hbig : 12 ≤ (s.inode a).iSize / 512)
    (hfree : newBlocks (s.inode a) count ≤ freeCount s.part.blockBitmap) :
    GrowsExactly t g a src count s ↔
      ((s.inode a).iSize + count) / 512 = (s.inode a).iSize / 512 ∧
        (s.mallocs 0 = true ∧ s.mallocs 1 = true) ∧
        (inodePos s.part.sb ((s.inode a).iNo % 256)).sects = 1 := by
  constructor
  · rintro ⟨s', hrun, -, -, -⟩
    rw [← fileWriteWith_inodeSync] at hrun
    -- A call that returns what it was asked to write has got both buffers.
    have hmem : s.mallocs 0 = true ∧ s.mallocs 1 = true := by
      by_contra hno
      have hsum : ¬ 71680 < add32 (s.inode a).iSize count := by
        rw [add32, Nat.mod_eq_of_lt (by omega)]
        omega
      rcases run_fileWriteWith_nomem src (fun i => inodeSync i sectorSize) h.file hsum hno
        with ⟨s'', hrun', -⟩
      rw [hrun, Except.ok.injEq, Prod.mk.injEq] at hrun'
      omega
    have hsame : ((s.inode a).iSize + count) / 512 = (s.inode a).iSize / 512 := by
      by_contra hne
      rcases stops_grow src (fun i => inodeSync i sectorSize) h hmem hsize hbig (by omega)
        with ⟨s'', hstop, -⟩
      rw [hstop.1] at hrun
      cases hrun
    refine ⟨hsame, hmem, ?_⟩
    -- A record over two sectors does not fit the buffer that it is synced in.
    by_contra htwo
    rcases leads_append src (fun i => inodeSync i sectorSize) h hmem hsize hfree (Or.inl hsame)
      with ⟨s₁, hlead, -, happ⟩
    have hbuf : ¬ (inodePos s₁.part.sb ((s₁.inode a).iNo % 256)).sects * sectorSize ≤
        sectorSize := by
      rw [happ.iNo, show s₁.part.sb = s.part.sb by rw [happ.part]]
      have hpos : 0 < (inodePos s.part.sb ((s.inode a).iNo % 256)).sects :=
        (inodePos_fits h.volume.toTableFits (by omega)).2.2.1
      show ¬ (inodePos s.part.sb ((s.inode a).iNo % 256)).sects * 512 ≤ 512
      omega
    rw [hlead.1, (stops_bind (stops_inodeSync happ.volume.toTableFits hbuf)).1] at hrun
    cases hrun
  · rintro ⟨hsame, hmem, hone⟩
    exact growsExactly_same h hsize hbig hsame hmem hone

/-- A partition with a file of thirteen blocks in every slot. -/
def bigFile : Fs :=
  { emptyFile with
    disk := fun x => if x / 512 = 625 then
      tableBytes (fun k => if k = 12 then 626 else 0) (x % 512) else 0
    part := { emptyFile.part with blockBitmap := bitmapSetRange ⟨512, fun _ => 0⟩ 0 true 15 }
    inode := fun _ => ⟨1, 6144, 1, false, fun k => if k < 13 then 613 + k else 0⟩ }

theorem bigFile_blocks {k : Nat} (hk : k < 140) :
    fileBlocks bigFile.disk (bigFile.inode 0) k =
      if k < 12 then 613 + k else if k = 12 then 626 else 0 := by
  by_cases h12 : k < 12
  · rw [fileBlocks_direct h12, if_pos h12]
    exact if_pos (by omega)
  · have hsector : ∀ x, x / 512 = 625 →
        bigFile.disk x = tableBytes (fun k => if k = 12 then 626 else 0) (x % 512) :=
      fun x hx => if_pos hx
    have hidx := indirectBlocks_tableBytes hsector (show k - 12 < 128 by omega)
    rw [fileBlocks_indirect h12, if_neg h12]
    refine hidx.trans ?_
    rw [show 12 + (k - 12) = k by omega]
    refine Nat.mod_eq_of_lt ?_
    by_cases hk12 : k = 12
    · rw [if_pos hk12]
      omega
    · rw [if_neg hk12]
      omega

theorem bigFile_laid : Laid bigFile.disk (bigFile.inode 0) 12 := by
  have htable : (bigFile.inode 0).iSectors 12 = 625 := rfl
  refine ⟨by omega, fun k hk => ?_, fun j k hj hk heq => ?_, ?_, fun _ k hk => ?_,
    fun k hk _ hk' => ?_⟩
  · rw [bigFile_blocks (by omega)]
    split_ifs <;> omega
  · rw [bigFile_blocks (by omega), bigFile_blocks (by omega)] at heq
    split_ifs at heq <;> omega
  · rw [htable]
    omega
  · rw [bigFile_blocks (by omega), htable]
    split_ifs <;> omega
  · rw [bigFile_blocks hk', if_neg (by omega), if_neg (by omega)]

theorem bigFile_on : FileOn 0 3 0 bigFile := by
  have hdata : bigFile.part.sb.dataStartLba = 612 := by decide
  have hmax : maxLba = 163839 := rfl
  refine ⟨⟨rfl, Or.inl rfl⟩, ⟨⟨by decide, by decide⟩, by decide, by decide, by decide, by decide,
    fun k hk _ => ?_, by decide⟩, Or.inr bigFile_laid, fun n hn => ?_⟩
  · have hlen : bigFile.part.blockBitmap.btmpBytesLen = 512 := rfl
    omega
  · have htaken : ∀ k, k < 15 → n = 612 + k → TakenBlock bigFile.part n := by
      intro k hk hnk
      refine ⟨by omega, k, show k < 512 * 8 by omega, ?_, by omega⟩
      exact (bitmapScanTest_setRange _ 0 true 15 k).trans (if_pos (by omega))
    rcases bigFile_laid.own hn with ⟨-, htab⟩ | ⟨k, hk, hnk⟩
    · exact htaken 13 (by omega) htab
    · rw [bigFile_blocks (by omega)] at hnk
      by_cases h12 : k < 12
      · rw [if_pos h12] at hnk
        exact htaken (k + 1) (by omega) (by omega)
      · rw [if_neg h12, if_pos (by omega)] at hnk
        exact htaken 14 (by omega) hnk

theorem bigFile_free : freeCount bigFile.part.blockBitmap = 4081 := by
  have h := freeCount_range (show 15 ≤ 512 * 8 by omega)
  show freeCount (bitmapSetRange ⟨512, fun _ => 0⟩ 0 true 15) = 4081
  omega

/-- The first byte of the thirteenth block. -/
theorem grows_exactly_byte : GrowsExactly 0 3 0 (fun _ => 7) 1 bigFile ↔
    ((bigFile.inode 0).iSize + 1) / 512 = (bigFile.inode 0).iSize / 512 ∧
      (bigFile.mallocs 0 = true ∧ bigFile.mallocs 1 = true) ∧
      (inodePos bigFile.part.sb ((bigFile.inode 0).iNo % 256)).sects = 1 :=
  grows_exactly bigFile_on (by decide) (by decide) (by rw [bigFile_free]; decide)

/-- A block more panics with four thousand free ones. -/
theorem grow_panics : FileOn 0 3 0 bigFile ∧ 12 < (bigFile.inode 0).iSize / 512 + 1 ∧
    (bigFile.inode 0).iSize + 512 < 71680 ∧
    newBlocks (bigFile.inode 0) 512 ≤ freeCount bigFile.part.blockBitmap ∧
    (fileWrite 0 3 (fun _ => 7) 512).run bigFile = .error (.assertion .bitmapScan) := by
  have hfree : newBlocks (bigFile.inode 0) 512 ≤ freeCount bigFile.part.blockBitmap := by
    rw [bigFile_free]
    decide
  rcases stops_grow (fun _ => 7) (fun i => inodeSync i sectorSize) bigFile_on ⟨rfl, rfl⟩
    (show (bigFile.inode 0).iSize + 512 < 71680 by decide) (by decide) (by decide)
    with ⟨s', hstop, -⟩
  exact ⟨bigFile_on, by decide, by decide, hfree, hstop.1⟩

end Exact

end ForikOS
