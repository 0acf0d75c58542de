import ForikOS.Theory.FileRead

/-!
# The Limits of a File

How large a file gets, and what the checks on sizes are worth.

`file_write` tests the sum of the size and the count against the 140 blocks a
file can have, and `file_read` the sum of the position and the count against
the size. Both sums are taken in 32 bits. A count near the end of the range
makes them small, and then the loops run with the count itself: they go on to
the end of `all_blocks`, over blocks that are not the file's.

The limit is written in three ways that do not agree. A file may have 71680
bytes by the first test, but then it would own 141 blocks, one more than the
assertion after it allows. `file_read` asserts that both ends lie below block
139, so it refuses the last block of the largest files.

A call of `file_write` that is not stopped by a check comes to `inode_sync`
with all its data written; `fileWrite_outcome` says so for every sum that does
not wrap. The state in which a call stops is what shows how far it got.

## Main definitions

* `WriteEnds`: A call comes to `inode_sync` with the data written.
* `WriteKeeps`, `ReadKeeps`: The checks hold.

## Theorems

* `fileWrite_outcome`: How a call ends.
* `size_checks`: The checks hold where the sums do not wrap.
* `size_range`: The assertions hold below the last block.
-/

namespace ForikOS

open Prog

/-- A call on a file of some size comes to `inode_sync` with the data written,
    or stops before the data at an assertion of what it calls. -/
def WriteEnds (a size count : Nat) (x : FsM Int) (s : Fs) : Prop :=
  (∃ s', Leads x s (inodeSync (s'.inode a) sectorSize >>= fun _ => pure (count : Int)) s' ∧
    (s'.inode a).iSize = size + count ∧ TableFits s'.part) ∨
  ∃ f s', f ≠ .fileWrite ∧ Stops x s (.assertion f) s' ∧ (s'.inode a).iSize = size

section Outcome

variable {t g a size count : Nat} {src : Nat → Byte} {s s₁ : Fs} {x y : FsM Int}

theorem WriteEnds.of_leads (h : Leads x s y s₁) (he : WriteEnds a size count y s₁) :
    WriteEnds a size count x s := by
  rcases he with ⟨s', hlead, hrest⟩ | ⟨f, s', hf, hstop, hsize⟩
  · exact Or.inl ⟨s', h.trans hlead, hrest⟩
  · exact Or.inr ⟨f, s', hf, h.stops hstop, hsize⟩

/-- Once the blocks are there the data is written. -/
theorem writeEnds_writeFile {s₂ : Fs} {all : Nat → Nat} (hat : FileAt t g a s₂) (hv : Volume s₂.part)
    (hall : ∀ k, all k ≤ maxLba) (hsize : (s₂.inode a).iSize = size)
    (hend : size + count ≤ 71680) :
    WriteEnds a size count (writeFileWith (fun i => inodeSync i sectorSize) t g src count all) s₂ := by
  rcases leads_writeFileWith src (fun i => inodeSync i sectorSize) hat hall
    (show (s₂.inode a).iSize + count ≤ 71680 by omega) with ⟨s', hlead, hwrote, -, -, -⟩
  refine Or.inl ⟨s', hlead, ?_, ?_⟩
  · rw [hwrote.iSize, hsize]
  · rw [hwrote.part]
    exact hv.toTableFits

/-- How a call ends that has its first block. -/
theorem writeEnds_collect (hat : FileAt t g a s) (hv : Volume s.part)
    (hrec : Recorded a ((s.inode a).iSize / 512) s) (hsize : (s.inode a).iSize + count < 71680)
    (table lba : Nat) :
    WriteEnds a (s.inode a).iSize count (collectBlocks t g count table lba >>= fun all =>
      match all with
      | none => pure (-1)
      | some all => writeFileWith (fun i => inodeSync i sectorSize) t g src count all) s := by
  have hsum : add32 (s.inode a).iSize count / 512 = ((s.inode a).iSize + count) / 512 := by
    rw [add32, Nat.mod_eq_of_lt (by omega)]
  have hlead := leads_collectBlocks hat table lba hsum (by omega)
  by_cases hsame : ((s.inode a).iSize + count) / 512 = (s.inode a).iSize / 512
  · -- No new block is needed.
    rcases run_collectSame hrec with ⟨all, hrun, hcoll⟩
    rw [if_pos (by omega)] at hlead
    refine WriteEnds.of_leads (leads_bind (hlead.1.trans hrun)) ?_
    exact writeEnds_writeFile hat hv hcoll.all_le rfl (by omega)
  rw [if_neg (by omega)] at hlead
  by_cases hdirect : ((s.inode a).iSize + count) / 512 < 12
  · -- situation 1
    rw [if_pos (by omega)] at hlead
    have hslot : TakenBlock s.part ((s.inode a).iSectors ((s.inode a).iSize / 512)) := by
      rw [← fileBlocks_direct (d := s.disk) (by omega)]
      exact hrec.block_taken (Nat.le_refl _)
    by_cases hbad : freeCount s.part.blockBitmap <
        ((s.inode a).iSize + count) / 512 - (s.inode a).iSize / 512 ∨ maxLba < table
    · rcases stops_collectDirect hat hv hslot (by omega) (fun k hk hk' => hrec.slot_zero hk hk') hbad
        with ⟨f, s', hf, hstop, hallocs⟩
      exact Or.inr ⟨f, s', hf, stops_bind (hlead.stops hstop), hallocs.iSize⟩
    · rcases run_collectDirect _ hat hv hslot (by omega) (fun k hk hk' => hrec.slot_zero hk hk')
        (show ((s.inode a).iSize + count) / 512 - (s.inode a).iSize / 512 ≤
          freeCount s.part.blockBitmap by omega) (show table ≤ maxLba by omega)
        with ⟨all, s₁, hrun, hallocs, hall, -, -⟩
      refine WriteEnds.of_leads (leads_bind (hlead.1.trans hrun)) ?_
      exact writeEnds_writeFile ⟨(hallocs.fileAt hat).slot, (hallocs.fileAt hat).sees⟩
        (hallocs.volume hv) hall hallocs.iSize (by omega)
  rw [if_neg (by omega)] at hlead
  by_cases hfirst : (s.inode a).iSize / 512 < 12
  · -- situation 2
    rw [if_pos (by omega)] at hlead
    by_cases hfree : ((s.inode a).iSize + count) / 512 - (s.inode a).iSize / 512 <
        freeCount s.part.blockBitmap
    · rcases run_collectTable hat hv hrec hfirst (by omega) (by omega) hfree
        with ⟨all, s₁, hrun, hcoll⟩
      refine WriteEnds.of_leads (leads_bind (hlead.1.trans hrun)) ?_
      exact writeEnds_writeFile (hcoll.allocs.fileAt hat) (hcoll.allocs.volume hv) hcoll.all_le
        hcoll.allocs.iSize (by omega)
    · rcases stops_collectTable hat hv hrec hfirst
        (show 12 ≤ ((s.inode a).iSize + count) / 512 by omega) (by omega) with ⟨s', hstop, hallocs⟩
      exact Or.inr ⟨.bitmapScan, s', by decide, stops_bind (hlead.stops hstop), hallocs.iSize⟩
  · -- situation 3
    rw [if_neg (by omega)] at hlead
    rcases stops_collectIndirect lba hv hrec (by omega)
      (show (s.inode a).iSize / 512 + 1 < ((s.inode a).iSize + count) / 512 + 1 by omega)
      with ⟨s', hstop, -, hinode⟩
    exact Or.inr ⟨.bitmapScan, s', by decide, stops_bind (hlead.stops hstop), by rw [hinode]⟩

/-- How a call ends whose sum is below the limit. -/
theorem fileWrite_outcome (src : Nat → Byte) (h : FileOn t g a s)
    (hmem : s.mallocs 0 = true ∧ s.mallocs 1 = true)
    (hsize : (s.inode a).iSize + count < 71680) :
    WriteEnds a (s.inode a).iSize count (fileWrite t g src count) s := by
  have hsum : ¬ 71680 < add32 (s.inode a).iSize count := by
    rw [add32, Nat.mod_eq_of_lt (by omega)]
    omega
  have hon : FileOn t g a (entered s) := ⟨h.file.entered, h.volume, h.wf, h.taken⟩
  rw [← fileWriteWith_inodeSync]
  refine WriteEnds.of_leads (leads_fileWriteWith src _ h.file hsum hmem) ?_
  rw [fileAppendWith]
  by_cases hfree : (if (s.inode a).iSectors 0 = 0 then 1 else 0) ≤ freeCount s.part.blockBitmap
  · rcases run_firstBlock hon hfree with ⟨lba, s₁, hfirst, h₁, hrec, -, -, -⟩
    have hsize₁ : (s₁.inode a).iSize = (s.inode a).iSize := h₁.iSize
    refine WriteEnds.of_leads (leads_bind hfirst) ?_
    rw [← hsize₁]
    exact writeEnds_collect (h₁.fileAt hon.file) (h₁.volume hon.volume) hrec (by omega) (s.junk 0) lba
  · rcases h.no_first hfree with ⟨hzero, hnone⟩
    exact Or.inr ⟨.bitmapScan, entered s, by decide,
      stops_bind (stops_writeFirstBlock hon.file hzero hnone), rfl⟩

end Outcome

/-- A call of `file_write` returns `-1` and does nothing, or it leaves the size
    within the limit and makes no access without a meaning before all its data
    is written. -/
def WriteKeeps (t g a : Nat) (src : Nat → Byte) (count : Nat) (s : Fs) : Prop :=
  (∃ s', (fileWrite t g src count).run s = .ok (-1, s') ∧ Quiet s s') ∨
  ((((fileWrite t g src count).stop s).inode a).iSize ≤ 71680 ∧
    ((fileWrite t g src count).run s = .error .wild →
      (((fileWrite t g src count).stop s).inode a).iSize = (s.inode a).iSize + count))

/-- A call of `file_read` moves the position within the file. -/
def ReadKeeps (t g a count : Nat) (dst : Nat → Byte) (s : Fs) : Prop :=
  (((fileRead t g count dst).stop s).fileTable g).fdPos ≤ (s.inode a).iSize

section Write

variable {t g a count : Nat} {src : Nat → Byte} {s : Fs}

/-- What the ways to end mean for the limit. -/
theorem WriteEnds.keeps {size : Nat} {x : FsM Int} (he : WriteEnds a size count x s)
    (hend : size + count ≤ 71680) : ((x.stop s).inode a).iSize ≤ 71680 ∧
      (x.run s = .error .wild → ((x.stop s).inode a).iSize = size + count) ∧
      x.run s ≠ .error (.assertion .fileWrite) := by
  rcases he with ⟨s', hlead, hsize, hfits⟩ | ⟨f, s', hf, hstop, hsize⟩
  · rcases stop_inodeSync (i := s'.inode a) hfits (count : Int) with ⟨s'', hstop, hs'', -⟩
    have hinode : (x.stop s).inode = s'.inode := by
      rw [hlead.2, hstop, hs'']
    rw [hinode, hsize, hlead.1]
    refine ⟨hend, fun _ => rfl, fun hrun => ?_⟩
    by_cases hbuf : (inodePos s'.part.sb ((s'.inode a).iNo % 256)).sects * sectorSize ≤ sectorSize
    · rw [run_bind_of (inodeSync_record hfits hbuf)] at hrun
      cases hrun
    · rw [(stops_bind (stops_inodeSync hfits hbuf)).1] at hrun
      cases hrun
  · rw [hstop.1, hstop.2, hsize]
    refine ⟨by omega, fun hrun => ?_, fun hrun => ?_⟩
    · cases hrun
    · rw [Except.error.injEq, FsFault.assertion.injEq] at hrun
      exact hf hrun

/-- A sum at the limit itself fails the assertion about the blocks. -/
theorem stops_full (h : FileOn t g a s) (src : Nat → Byte)
    (hmem : s.mallocs 0 = true ∧ s.mallocs 1 = true)
    (hfull : (s.inode a).iSize + count = 71680) :
    ∃ f s', Stops (fileWrite t g src count) s (.assertion f) s' ∧
      (s'.inode a).iSize = (s.inode a).iSize ∧
      ((if (s.inode a).iSectors 0 = 0 then 1 else 0) ≤ freeCount s.part.blockBitmap →
        f = .fileWrite) := by
  have hsum : add32 (s.inode a).iSize count = 71680 := by
    rw [add32]
    omega
  have hon : FileOn t g a (entered s) := ⟨h.file.entered, h.volume, h.wf, h.taken⟩
  rw [← fileWriteWith_inodeSync]
  have hlead := leads_fileWriteWith src (fun i => inodeSync i sectorSize) h.file
    (show ¬ 71680 < add32 (s.inode a).iSize count by omega) hmem
  by_cases hfree : (if (s.inode a).iSectors 0 = 0 then 1 else 0) ≤ freeCount s.part.blockBitmap
  · rcases run_firstBlock hon hfree with ⟨lba, s₁, hfirst, h₁, -, -, -, -⟩
    have hsize₁ : (s₁.inode a).iSize = (s.inode a).iSize := h₁.iSize
    refine ⟨.fileWrite, s₁, hlead.stops (stops_bind_of hfirst (stops_bind ?_)), hsize₁, fun _ => rfl⟩
    refine stops_bind_of (run_fileInode (h₁.fileAt hon.file)) (stops_bind (stops_check ?_ s₁))
    rw [hsize₁, hsum]
    decide
  · rcases h.no_first hfree with ⟨hzero, hnone⟩
    exact ⟨.bitmapScan, entered s,
      hlead.stops (stops_bind (stops_writeFirstBlock hon.file hzero hnone)), rfl,
      fun hc => absurd hc hfree⟩

/-- A call with more data than the blocks hold, once the blocks are known. -/
theorem stops_writeFileWith {all : Nat → Nat} (src : Nat → Byte) (sync : Inode → FsM Unit)
    (hat : FileAt t g a s) (hall : ∀ k, all k ≤ maxLba) (hsize : (s.inode a).iSize ≤ 71680)
    (hmore : 71680 < (s.inode a).iSize + count) :
    ∃ s', Stops (writeFileWith sync t g src count all) s .wild s' ∧
      (s'.inode a).iSize = 71680 := by
  let s₁ := s.setFile g { s.fileTable g with fdPos := sub32 (s.inode a).iSize 1 }
  have hat₁ : FileAt t g a s₁ := by
    refine ⟨?_, hat.sees⟩
    show (Function.update s.fileTable g _ g).fdInode = some a
    rw [Function.update_self]
    exact hat.slot
  rcases stops_writeChunks src hall count count s₁ 0 true hat₁ (Nat.zero_le _)
    (Nat.le_add_left _ _) hsize hmore with ⟨s', hstop, hsize'⟩
  exact ⟨s', stops_bind_of (run_fileInode hat) (stops_bind_of (run_modify _ s)
    (stops_bind hstop)), hsize'⟩

/-- Situation 3 when the sum has wrapped: no block is added, and the address
    is still `-1`. The write of the bit that goes with it is outside the disk. -/
theorem stops_collectIndirect_wrap {last will : Nat} (hv : Volume s.part) (h : Recorded a last s)
    (hlast : 12 ≤ last) (hwill : will ≤ last + 1) (hroom : last + 1 < 140) :
    Stops (collectIndirect (s.inode a) (last + 1) will (2 ^ 32 - 1)) s (.assertion .ideWrite) s := by
  rcases leads_collectIndirect h hlast (last + 1) will (2 ^ 32 - 1) with ⟨b, hlead⟩
  have hmore : (moreBlocks (last + 1) will (2 ^ 32 - 1)).run s = .ok (some (2 ^ 32 - 1), s) := by
    rw [moreBlocks, if_neg (by omega), run_pure]
  refine hlead.stops (stops_bind_of hmore (stops_bind_of (run_check_pos hroom s)
    (stops_bind_of (run_read _ s) (stops_bind ?_))))
  have hin := hv.inPart
  have hon := hv.onDisk
  have htable := hv.table
  have hmax : maxLba = 163839 := rfl
  have hdata := (h.block_taken (Nat.le_refl _)).data
  have hle := (h.block_taken (Nat.le_refl _)).1
  refine stops_bind_of (run_read _ s) (stops_bind (stops_check (fun hc => ?_) s))
  have hfar := hc.1
  rw [sub32, add32] at hfar
  omega

/-- A sum that has wrapped leads to an access outside the arrays, from a block
    that is added to none, that lies before the table, or that is the last. -/
theorem stops_wrap (h : FileOn t g a s) (src : Nat → Byte)
    (hmem : s.mallocs 0 = true ∧ s.mallocs 1 = true) (hcount : count < 2 ^ 32)
    (hwrap : 2 ^ 32 ≤ (s.inode a).iSize + count) (hjunk : s.junk 0 = 0)
    (hcase : add32 (s.inode a).iSize count / 512 = (s.inode a).iSize / 512 ∨
      add32 (s.inode a).iSize count / 512 < 12 ∨ (s.inode a).iSize / 512 = 139) :
    ∃ s', Stops (fileWrite t g src count) s .wild s' ∧ (s'.inode a).iSize ≤ 71680 := by
  have hlaid : Laid s.disk (s.inode a) ((s.inode a).iSize / 512) := by
    refine h.wf.resolve_left (fun hnone => ?_)
    have h0 := hnone.1
    omega
  have hlt := hlaid.last_lt
  have hrec : Recorded a ((s.inode a).iSize / 512) (entered s) := ⟨hlaid, h.taken⟩
  -- The sum has passed the check on the limit only because it has wrapped.
  have hsum : add32 (s.inode a).iSize count = (s.inode a).iSize + count - 2 ^ 32 := by
    rw [add32]
    omega
  rw [← fileWriteWith_inodeSync]
  have hlead := leads_collect src (fun i => inodeSync i sectorSize) h.file hlaid
    (show ¬ 71680 < add32 (s.inode a).iSize count by omega) hmem
  have hblocks := leads_collectBlocks h.file.entered (s.junk 0) (2 ^ 32 - 1)
    (show add32 ((entered s).inode a).iSize count / 512 = add32 (s.inode a).iSize count / 512 from
      rfl) (by omega)
  generalize hw : add32 (s.inode a).iSize count / 512 = w at hcase hblocks
  have hsize : ((entered s).inode a).iSize = (s.inode a).iSize := rfl
  rw [hsize] at hblocks
  by_cases hsame : w = (s.inode a).iSize / 512
  · -- the last block only: the data goes on behind it
    rw [if_pos (by omega)] at hblocks
    rcases run_collectSame hrec with ⟨all, hrun, hcoll⟩
    rcases stops_writeFileWith src (fun i => inodeSync i sectorSize) h.file.entered
      hcoll.all_le (show (s.inode a).iSize ≤ 71680 by omega)
      (show 71680 < (s.inode a).iSize + count by omega) with ⟨s', hstop, hsize'⟩
    exact ⟨s', hlead.stops (stops_bind_of (hblocks.1.trans hrun) hstop), by omega⟩
  rw [if_neg (by omega)] at hblocks
  by_cases hdirect : w < 12
  · rw [if_pos (by omega)] at hblocks
    by_cases hfirst : (s.inode a).iSize / 512 ≤ 12
    · -- situation 1 without a new block: the sector in the variable is the first
      have hslot : TakenBlock s.part ((s.inode a).iSectors ((s.inode a).iSize / 512)) := by
        by_cases h12 : (s.inode a).iSize / 512 < 12
        · rw [← fileBlocks_direct (d := s.disk) h12]
          exact hrec.block_taken (Nat.le_refl _)
        · rw [show (s.inode a).iSize / 512 = 12 by omega]
          exact h.taken _ (hlaid.own_table (by omega))
      rcases run_collectDirect w h.file.entered h.volume hslot hfirst
        (fun k hk hk' => hrec.slot_zero hk hk')
        (show w - (s.inode a).iSize / 512 ≤ freeCount s.part.blockBitmap by omega)
        (show s.junk 0 ≤ maxLba by rw [hjunk]; exact Nat.zero_le _)
        with ⟨all, s₁, hrun, hallocs, hall, -, -⟩
      have hsize₁ : (s₁.inode a).iSize = (s.inode a).iSize := hallocs.iSize
      have hat₁ := hallocs.fileAt h.file.entered
      rcases stops_writeFileWith src (fun i => inodeSync i sectorSize)
        (s := s₁.setDisk (s.junk 0 * sectorSize) (1 * sectorSize) (tableBytes all))
        ⟨hat₁.slot, hat₁.sees⟩ hall (show (s₁.inode a).iSize ≤ 71680 by omega)
        (show 71680 < (s₁.inode a).iSize + count by omega) with ⟨s', hstop, hsize'⟩
      exact ⟨s', hlead.stops (stops_bind_of (hblocks.1.trans hrun) hstop), by omega⟩
    · exact ⟨entered s, hlead.stops (stops_bind (hblocks.stops (stops_bind
        (stops_check (by omega) (entered s))))), show (s.inode a).iSize ≤ 71680 by omega⟩
  · -- situation 3 with all blocks in use
    rw [if_neg (by omega), if_neg (by omega)] at hblocks
    rcases leads_collectIndirect hrec (by omega) ((s.inode a).iSize / 512 + 1) (w + 1) (2 ^ 32 - 1)
      with ⟨b, hindirect⟩
    have hmore : (moreBlocks ((s.inode a).iSize / 512 + 1) (w + 1) (2 ^ 32 - 1)).run (entered s) =
        .ok (some (2 ^ 32 - 1), entered s) := by
      rw [moreBlocks, if_neg (by omega), run_pure]
    have hcheck : Stops (Prog.check ((s.inode a).iSize / 512 + 1 < 140) .wild : FsM Unit) (entered s)
        .wild (entered s) := stops_check (by omega) _
    exact ⟨entered s, hlead.stops (stops_bind (hblocks.stops (hindirect.stops
      (stops_bind_of hmore (stops_bind hcheck))))), show (s.inode a).iSize ≤ 71680 by omega⟩

/-- A sum that has wrapped to one before the last block, behind the direct
    ones, fails an assertion. -/
theorem stops_wrap_assert (h : FileOn t g a s) (src : Nat → Byte)
    (hmem : s.mallocs 0 = true ∧ s.mallocs 1 = true) (hcount : count < 2 ^ 32)
    (hwrap : 2 ^ 32 ≤ (s.inode a).iSize + count)
    (hne : add32 (s.inode a).iSize count / 512 ≠ (s.inode a).iSize / 512)
    (hbig : 12 ≤ add32 (s.inode a).iSize count / 512) (hroom : (s.inode a).iSize / 512 ≠ 139) :
    Stops (fileWrite t g src count) s (.assertion .ideWrite) (entered s) := by
  have hlaid : Laid s.disk (s.inode a) ((s.inode a).iSize / 512) := by
    refine h.wf.resolve_left (fun hnone => ?_)
    have h0 := hnone.1
    omega
  have hlt := hlaid.last_lt
  have hrec : Recorded a ((s.inode a).iSize / 512) (entered s) := ⟨hlaid, h.taken⟩
  have hsum : add32 (s.inode a).iSize count = (s.inode a).iSize + count - 2 ^ 32 := by
    rw [add32]
    omega
  rw [← fileWriteWith_inodeSync]
  refine (leads_collect src (fun i => inodeSync i sectorSize) h.file hlaid
    (show ¬ 71680 < add32 (s.inode a).iSize count by omega) hmem).stops (stops_bind ?_)
  have hblocks := leads_collectBlocks h.file.entered (s.junk 0) (2 ^ 32 - 1)
    (show add32 ((entered s).inode a).iSize count / 512 = add32 (s.inode a).iSize count / 512 from
      rfl) (by omega)
  have hsize : ((entered s).inode a).iSize = (s.inode a).iSize := rfl
  rw [hsize, if_neg (by omega), if_neg (by omega), if_neg (by omega)] at hblocks
  exact hblocks.stops (stops_collectIndirect_wrap (s := entered s) h.volume hrec (by omega)
    (by omega) (by omega))

/-- The check on the size holds where the sum does not wrap, and where the call
    stops for another reason. -/
theorem write_keeps (h : FileOn t g a s) (hcount : count < 2 ^ 32)
    (hcase : ¬ ((s.mallocs 0 = true ∧ s.mallocs 1 = true) ∧
      2 ^ 32 ≤ (s.inode a).iSize + count ∧
      (add32 (s.inode a).iSize count / 512 = (s.inode a).iSize / 512 ∨
        add32 (s.inode a).iSize count / 512 < 12 ∨ (s.inode a).iSize / 512 = 139))) :
    WriteKeeps t g a src count s := by
  have hsmall : (s.inode a).iSize < 71680 := by
    rcases h.wf with hnone | hlaid
    · rw [hnone.1]
      omega
    · have hlt := hlaid.last_lt
      omega
  -- The three early ends: the sum is above the limit, a buffer is missing, or
  -- an assertion fails on a sum that has wrapped.
  by_cases hbig : 71680 < add32 (s.inode a).iSize count
  · refine Or.inl ⟨s, ?_, rfl⟩
    rw [fileWrite, run_bind_of (run_fileInode h.file)]
    show (if 71680 < add32 (s.inode a).iSize count then _ else _ : FsM Int).run s = _
    rw [if_pos hbig, run_pure]
  by_cases hmem : s.mallocs 0 = true ∧ s.mallocs 1 = true
  · by_cases hwrap : 2 ^ 32 ≤ (s.inode a).iSize + count
    · have hstop := stops_wrap_assert h src hmem hcount hwrap
        (fun heq => hcase ⟨hmem, hwrap, Or.inl heq⟩)
        (by by_contra hlt; exact hcase ⟨hmem, hwrap, Or.inr (Or.inl (by omega))⟩)
        (fun hlast => hcase ⟨hmem, hwrap, Or.inr (Or.inr hlast)⟩)
      refine Or.inr ⟨?_, fun hrun => ?_⟩
      · rw [hstop.2]
        exact Nat.le_of_lt hsmall
      · rw [hstop.1] at hrun
        cases hrun
    · rw [add32, Nat.mod_eq_of_lt (by omega)] at hbig
      -- The file would be exactly full: the call stops, and the size is the limit.
      by_cases hfull : (s.inode a).iSize + count = 71680
      · rcases stops_full h src hmem hfull with ⟨f, s', hstop, hsize', -⟩
        refine Or.inr ⟨?_, fun hrun => ?_⟩
        · rw [hstop.2]
          omega
        · rw [hstop.1] at hrun
          cases hrun
      · have hkeeps := (fileWrite_outcome src h hmem
          (show (s.inode a).iSize + count < 71680 by omega)).keeps (by omega)
        exact Or.inr ⟨hkeeps.1, hkeeps.2.1⟩
  · rcases run_fileWriteWith_nomem src (fun i => inodeSync i sectorSize) h.file hbig hmem
      with ⟨s', hrun, hquiet⟩
    exact Or.inl ⟨s', hrun, hquiet⟩

/-- A call whose sum has wrapped does not keep to the limit. -/
theorem not_writeKeeps (h : FileOn t g a s) (src : Nat → Byte)
    (hmem : s.mallocs 0 = true ∧ s.mallocs 1 = true) (hcount : count < 2 ^ 32)
    (hwrap : 2 ^ 32 ≤ (s.inode a).iSize + count) (hjunk : s.junk 0 = 0)
    (hcase : add32 (s.inode a).iSize count / 512 = (s.inode a).iSize / 512 ∨
      add32 (s.inode a).iSize count / 512 < 12 ∨ (s.inode a).iSize / 512 = 139) :
    ¬ WriteKeeps t g a src count s := by
  rcases stops_wrap h src hmem hcount hwrap hjunk hcase with ⟨s', hstop, hsize'⟩
  rintro (⟨s'', hrun, -⟩ | ⟨-, hend⟩)
  · rw [hstop.1] at hrun
    cases hrun
  · have hwild := hend hstop.1
    rw [hstop.2] at hwild
    omega

end Write

section Reads

variable {t g a count : Nat} {s : Fs}

/-- The addresses for what lies within a file can be gathered. -/
theorem run_collectRead_within (h : FileOn t g a s) {first stop : Nat}
    (hstop : stop ≤ (s.inode a).iSize / 512) :
    ∃ all, (collectRead (s.inode a) first stop).run s = .ok (all, s) ∧ ∀ k, all k ≤ maxLba := by
  rcases h.wf with hnone | hlaid
  · have h0 := hnone.1
    refine ⟨fun k => if first ≤ k ∧ k ≤ stop then (s.inode a).iSectors k else 0, ?_, fun k => ?_⟩
    · rw [collectRead, if_pos (by omega), run_pure]
    · by_cases hk : first ≤ k ∧ k ≤ stop
      · refine (if_pos hk).trans_le ?_
        rw [hnone.2 k (by omega)]
        exact Nat.zero_le _
      · exact (if_neg hk).trans_le (Nat.zero_le _)
  · have hrec : Recorded a ((s.inode a).iSize / 512) s := ⟨hlaid, h.taken⟩
    rcases run_collectRead first hrec hstop with ⟨all, hrun, hall, -⟩
    exact ⟨all, hrun, hall⟩

/-- The position where `file_read` stops, for bytes that are there. -/
theorem stop_readFile (h : FileOn t g a s) {size : Nat}
    (hsize : (s.fileTable g).fdPos + size ≤ (s.inode a).iSize) (hlt : (s.inode a).iSize < 71680)
    (dst : Nat → Byte) :
    (((readFile (s.inode a) g (s.fileTable g).fdPos size dst).stop s).fileTable g).fdPos ≤
      (s.inode a).iSize := by
  generalize hp : (s.fileTable g).fdPos = pos at hsize
  have hsum : add32 pos size = pos + size := by
    rw [add32, Nat.mod_eq_of_lt (by omega)]
  have hpos : ((twoMallocs s).fileTable g).fdPos = pos := hp
  by_cases hmem : s.mallocs 1 = true
  · -- Out of range the read stops before the position is moved.
    by_cases hfits : pos / 512 < 139 ∧ add32 pos size / 512 < 139
    · have hon : FileOn t g a (twoMallocs s) :=
        ⟨⟨h.file.slot, h.file.sees⟩, h.volume, h.wf, h.taken⟩
      have hcollected : ∃ all, (collectRead (s.inode a) (pos / 512) (add32 pos size / 512)).run
          (twoMallocs s) = .ok (all, twoMallocs s) ∧ ∀ k, all k ≤ maxLba :=
        run_collectRead_within hon (show add32 pos size / 512 ≤ (s.inode a).iSize / 512 by omega)
      rcases hcollected with ⟨all, hcollect, -⟩
      rw [(leads_readFile hmem hfits hcollect dst).2]
      by_cases hbuf : s.mallocs 0 = true
      · have hloop := stop_readChunks all size (twoMallocs s) 0 dst (Nat.zero_le size)
          (show ((twoMallocs s).fileTable g).fdPos + (size - 0) ≤ 71680 by omega)
        rw [stop_bind_ok (run_check_pos hbuf (twoMallocs s)), stop_bind_pure]
        omega
      · rw [(stops_bind (stops_check hbuf (twoMallocs s))).2]
        omega
    · rw [(stops_readFile hmem (s.inode a) hfits dst).2]
      omega
  · rw [stop_of_ok (run_readFile_nomem hmem (s.inode a) pos size dst)]
    omega

/-- The sum of the position and the count has wrapped: it is below the size,
    and the loop reads on behind the file. -/
theorem leads_fileRead_wrap (h : FileOn t g a s) (hpos : (s.fileTable g).fdPos ≤ (s.inode a).iSize)
    (hlt : (s.inode a).iSize < 71680) (hcount : count < 2 ^ 32)
    (hwrap : 2 ^ 32 ≤ (s.fileTable g).fdPos + count) (dst : Nat → Byte) :
    Leads (fileRead t g count dst) s
      (readFile (s.inode a) g (s.fileTable g).fdPos count dst) s := by
  have hlead := leads_fileRead h.file count dst
  rw [if_neg (by rw [add32]; omega)] at hlead
  exact hlead

/-- The check on the position holds where the sum does not wrap, and where the
    call stops for another reason. -/
theorem read_keeps (h : FileOn t g a s) (hpos : (s.fileTable g).fdPos ≤ (s.inode a).iSize)
    (hcount : count < 2 ^ 32) (dst : Nat → Byte) :
    ReadKeeps t g a count dst s ↔ ¬ ((s.mallocs 0 = true ∧ s.mallocs 1 = true) ∧
      2 ^ 32 ≤ (s.fileTable g).fdPos + count ∧ (s.fileTable g).fdPos / 512 < 139) := by
  have hlt : (s.inode a).iSize < 71680 := by
    rcases h.wf with hnone | hlaid
    · rw [hnone.1]
      omega
    · have hlast := hlaid.last_lt
      omega
  unfold ReadKeeps
  by_cases hwrap : 2 ^ 32 ≤ (s.fileTable g).fdPos + count
  · rw [(leads_fileRead_wrap h hpos hlt hcount hwrap dst).2]
    have hsum : add32 (s.fileTable g).fdPos count = (s.fileTable g).fdPos + count - 2 ^ 32 := by
      rw [add32]
      omega
    by_cases hmem : s.mallocs 1 = true
    · by_cases hfirst : (s.fileTable g).fdPos / 512 < 139
      · have hon : FileOn t g a (twoMallocs s) :=
          ⟨⟨h.file.slot, h.file.sees⟩, h.volume, h.wf, h.taken⟩
        -- The wrapped end is in front of the last block, so the blocks collected are
        -- those of the file.
        have hcollected : ∃ all, (collectRead (s.inode a) ((s.fileTable g).fdPos / 512)
            (add32 (s.fileTable g).fdPos count / 512)).run (twoMallocs s) =
            .ok (all, twoMallocs s) ∧ ∀ k, all k ≤ maxLba :=
          run_collectRead_within hon
            (show add32 (s.fileTable g).fdPos count / 512 ≤ (s.inode a).iSize / 512 by omega)
        rcases hcollected with ⟨all, hcollect, hall⟩
        rw [(leads_readFile hmem ⟨hfirst, by omega⟩ hcollect dst).2]
        by_cases hbuf : s.mallocs 0 = true
        · rcases stops_readChunks hall count (twoMallocs s) 0 dst (Nat.zero_le count) (by omega)
            (show (s.fileTable g).fdPos ≤ 71680 by omega)
            (show 71680 < (s.fileTable g).fdPos + (count - 0) by omega) with ⟨s', hstop, hpos'⟩
          rw [stop_bind_ok (run_check_pos hbuf (twoMallocs s)), stop_bind_pure, hstop.2, hpos']
          exact ⟨fun hle => by omega, fun hc => absurd ⟨⟨hbuf, hmem⟩, hwrap, hfirst⟩ hc⟩
        · rw [(stops_bind (stops_check hbuf (twoMallocs s))).2]
          exact ⟨fun _ hc => hbuf hc.1.1, fun _ => hpos⟩
      · rw [(stops_readFile hmem (s.inode a) (fun hc => hfirst hc.1) dst).2]
        exact ⟨fun _ hc => hfirst hc.2.2, fun _ => hpos⟩
    · rw [stop_of_ok (run_readFile_nomem hmem (s.inode a) _ count dst)]
      exact ⟨fun _ hc => hmem hc.1.2, fun _ => hpos⟩
  · refine ⟨fun _ hc => hwrap hc.2.1, fun _ => ?_⟩
    -- Without a wrap the read ends at once, or stops at the end of the file.
    by_cases hend : (s.fileTable g).fdPos = (s.inode a).iSize ∧ 0 < count
    · rw [(leads_fileRead_end h.file hend.1 hend.2 (by omega) dst).2]
      exact hpos
    · rw [(leads_fileRead_min h.file (by omega) hpos (by omega) (by omega) dst).2]
      exact stop_readFile h (by omega) hlt dst

/-- The checks on sizes hold for a call of `file_write` and one of `file_read`
    but where a sum wraps and the wrapped one passes what else is asserted. -/
theorem size_checks (h : FileOn t g a s) (src : Nat → Byte) {n m : Nat} (hn : n < 2 ^ 32)
    (hm : m < 2 ^ 32) (hpos : (s.fileTable g).fdPos ≤ (s.inode a).iSize) (dst : Nat → Byte) :
    (∀ junk, WriteKeeps t g a src n { s with junk := junk }) ∧ ReadKeeps t g a m dst s ↔
      ¬ ((s.mallocs 0 = true ∧ s.mallocs 1 = true) ∧ 2 ^ 32 ≤ (s.inode a).iSize + n ∧
        (add32 (s.inode a).iSize n / 512 = (s.inode a).iSize / 512 ∨
          add32 (s.inode a).iSize n / 512 < 12 ∨ (s.inode a).iSize / 512 = 139)) ∧
      ¬ ((s.mallocs 0 = true ∧ s.mallocs 1 = true) ∧
        2 ^ 32 ≤ (s.fileTable g).fdPos + m ∧ (s.fileTable g).fdPos / 512 < 139) := by
  have hjunk : ∀ junk, FileOn t g a { s with junk := junk } :=
    fun junk => ⟨⟨h.file.slot, h.file.sees⟩, h.volume, h.wf, h.taken⟩
  rw [read_keeps h hpos hm dst]
  refine and_congr_left (fun _ => ⟨?_, fun hcase junk => ?_⟩)
  · rintro hall ⟨hmem, hwrap, hcase⟩
    exact not_writeKeeps (hjunk (fun _ => 0)) src hmem hn hwrap rfl hcase (hall (fun _ => 0))
  · exact write_keeps (hjunk junk) hn hcase

/-- A count of minus one bytes: the loops go on to the end of `all_blocks`. -/
theorem wrapped_count : FileOn 0 3 0 bigFile ∧
    (bigFile.fileTable 3).fdPos ≤ (bigFile.inode 0).iSize ∧
    ¬ WriteKeeps 0 3 0 (fun _ => 7) (2 ^ 32 - 1) bigFile :=
  ⟨bigFile_on, by decide, not_writeKeeps bigFile_on (fun _ => 7) ⟨rfl, rfl⟩ (by decide) (by decide)
    rfl (Or.inr (Or.inl (by decide)))⟩

/-- One byte more, and the first byte. -/
theorem size_checks_byte : (∀ junk, WriteKeeps 0 3 0 (fun _ => 7) 1 { bigFile with junk := junk }) ∧
    ReadKeeps 0 3 0 1 (fun _ => 0) bigFile ↔
      ¬ ((bigFile.mallocs 0 = true ∧ bigFile.mallocs 1 = true) ∧
        2 ^ 32 ≤ (bigFile.inode 0).iSize + 1 ∧
        (add32 (bigFile.inode 0).iSize 1 / 512 = (bigFile.inode 0).iSize / 512 ∨
          add32 (bigFile.inode 0).iSize 1 / 512 < 12 ∨ (bigFile.inode 0).iSize / 512 = 139)) ∧
      ¬ ((bigFile.mallocs 0 = true ∧ bigFile.mallocs 1 = true) ∧
        2 ^ 32 ≤ (bigFile.fileTable 3).fdPos + 1 ∧ (bigFile.fileTable 3).fdPos / 512 < 139) :=
  size_checks bigFile_on (fun _ => 7) (by decide) (by decide) (by decide) (fun _ => 0)

end Reads

section Range

variable {t g a : Nat} {s : Fs}

/-- `file_read` up to the end of the file asserts what does not hold of the
    last block. -/
theorem readFile_asserts (h : FileOn t g a s) {size : Nat}
    (hsize : (s.fileTable g).fdPos + size ≤ (s.inode a).iSize) (hlt : (s.inode a).iSize < 71680)
    (dst : Nat → Byte) :
    (readFile (s.inode a) g (s.fileTable g).fdPos size dst).run s ≠
        .error (.assertion .fileRead) ↔
      ((s.fileTable g).fdPos + size) / 512 < 139 ∨ s.mallocs 1 = false := by
  have hsum : add32 (s.fileTable g).fdPos size = (s.fileTable g).fdPos + size := by
    rw [add32, Nat.mod_eq_of_lt (by omega)]
  -- Without the buffer for the addresses the call fails before the assertion.
  by_cases hmem : s.mallocs 1 = true
  · have hno : ¬ s.mallocs 1 = false := by
      rw [hmem]
      decide
    by_cases hlast : ((s.fileTable g).fdPos + size) / 512 < 139
    · refine ⟨fun _ => Or.inl hlast, fun _ hrun => ?_⟩
      have hon : FileOn t g a (twoMallocs s) :=
        ⟨⟨h.file.slot, h.file.sees⟩, h.volume, h.wf, h.taken⟩
      have hcollected : ∃ all, (collectRead (s.inode a) ((s.fileTable g).fdPos / 512)
          (add32 (s.fileTable g).fdPos size / 512)).run (twoMallocs s) =
          .ok (all, twoMallocs s) ∧ ∀ k, all k ≤ maxLba :=
        run_collectRead_within hon (show add32 (s.fileTable g).fdPos size / 512 ≤
          (s.inode a).iSize / 512 by omega)
      rcases hcollected with ⟨all, hcollect, hall⟩
      rw [(leads_readFile hmem ⟨by omega, by omega⟩ hcollect dst).1] at hrun
      -- Behind the assertion nothing fails it, whether there is a buffer for the data or not.
      by_cases hbuf : s.mallocs 0 = true
      · rcases run_readChunks size (twoMallocs s) 0 dst (Nat.zero_le size) (by omega)
          (show (s.fileTable g).fdPos + (size - 0) ≤ 71680 by omega) (fun p _ _ => hall (p / 512))
          with ⟨dst', s', hloop, -, -⟩
        rw [run_bind_of (run_check_pos hbuf (twoMallocs s)), run_bind_of hloop] at hrun
        cases hrun
      · rw [(stops_bind (stops_check hbuf (twoMallocs s))).1] at hrun
        split at hrun
        · cases hrun
        · cases hrun
    · rw [(stops_readFile hmem (s.inode a) (by rw [hsum]; exact fun hc => hlast hc.2) dst).1]
      exact ⟨fun hc => absurd rfl hc, fun hc => (hc.elim hlast hno).elim⟩
  · rw [run_readFile_nomem hmem (s.inode a) _ size dst]
    refine ⟨fun _ => Or.inr (Bool.eq_false_iff.mpr hmem), fun _ hrun => ?_⟩
    cases hrun

/-- The assertions of `file_write` fail at the limit itself. -/
theorem fileWrite_asserts (h : FileOn t g a s) (src : Nat → Byte) {n : Nat}
    (hsize : (s.inode a).iSize + n ≤ 71680)
    (hfree : newBlocks (s.inode a) n ≤ freeCount s.part.blockBitmap) :
    (fileWrite t g src n).run s ≠ .error (.assertion .fileWrite) ↔
      (s.inode a).iSize + n < 71680 ∨ ¬ (s.mallocs 0 = true ∧ s.mallocs 1 = true) := by
  by_cases hmem : s.mallocs 0 = true ∧ s.mallocs 1 = true
  · by_cases hfull : (s.inode a).iSize + n = 71680
    · rcases stops_full h src hmem hfull with ⟨f, s', hstop, -, hf⟩
      rw [newBlocks] at hfree
      rw [hstop.1, hf (by omega)]
      exact ⟨fun hc => absurd rfl hc, fun hc => hc.elim (by omega) (fun hno => absurd hmem hno)⟩
    · have hkeeps := (fileWrite_outcome src h hmem
        (show (s.inode a).iSize + n < 71680 by omega)).keeps hsize
      exact ⟨fun _ => Or.inl (by omega), fun _ => hkeeps.2.2⟩
  · have hsum : ¬ 71680 < add32 (s.inode a).iSize n := by
      rw [add32, Nat.mod_eq_of_lt (by omega)]
      omega
    rcases run_fileWriteWith_nomem src (fun i => inodeSync i sectorSize) h.file hsum hmem
      with ⟨s', hrun, -⟩
    refine ⟨fun _ => Or.inr hmem, fun _ herr => ?_⟩
    rw [fileWriteWith_inodeSync] at hrun
    rw [hrun] at herr
    cases herr

/-- The assertions of `file_write` and `file_read` about blocks hold below the
    limit, and up to the last block but one. -/
theorem size_range (h : FileOn t g a s) (src : Nat → Byte) {n m : Nat}
    (hsize : (s.inode a).iSize + n ≤ 71680)
    (hfree : newBlocks (s.inode a) n ≤ freeCount s.part.blockBitmap)
    (hpos : (s.fileTable g).fdPos ≤ (s.inode a).iSize)
    (hword : (s.fileTable g).fdPos + m < 2 ^ 32) (dst : Nat → Byte) :
    (fileWrite t g src n).run s ≠ .error (.assertion .fileWrite) ∧
      (fileRead t g m dst).run s ≠ .error (.assertion .fileRead) ↔
    ((s.inode a).iSize + n < 71680 ∨ ¬ (s.mallocs 0 = true ∧ s.mallocs 1 = true)) ∧
      ((s.fileTable g).fdPos = (s.inode a).iSize ∧ 0 < m ∨
        min ((s.fileTable g).fdPos + m) (s.inode a).iSize / 512 < 139 ∨ s.mallocs 1 = false) := by
  have hlt : (s.inode a).iSize < 71680 := by
    rcases h.wf with hnone | hlaid
    · rw [hnone.1]
      omega
    · have hlast := hlaid.last_lt
      omega
  refine and_congr (fileWrite_asserts h src hsize hfree) ?_
  by_cases hend : (s.fileTable g).fdPos = (s.inode a).iSize ∧ 0 < m
  · rw [(leads_fileRead_end h.file hend.1 hend.2 hword dst).1]
    refine ⟨fun _ => Or.inl hend, fun _ hrun => ?_⟩
    cases hrun
  · rw [(leads_fileRead_min h.file (by omega) hpos (by omega) hword dst).1,
      readFile_asserts h (by omega) hlt dst, show (s.fileTable g).fdPos +
        min m ((s.inode a).iSize - (s.fileTable g).fdPos) =
        min ((s.fileTable g).fdPos + m) (s.inode a).iSize by omega]
    exact ⟨fun hc => Or.inr hc, fun hc => hc.resolve_left hend⟩

/-- One byte more, and the first byte. -/
theorem size_range_byte : (fileWrite 0 3 (fun _ => 7) 1).run bigFile ≠
      .error (.assertion .fileWrite) ∧
    (fileRead 0 3 1 (fun _ => 0)).run bigFile ≠ .error (.assertion .fileRead) ↔
    ((bigFile.inode 0).iSize + 1 < 71680 ∨
      ¬ (bigFile.mallocs 0 = true ∧ bigFile.mallocs 1 = true)) ∧
    ((bigFile.fileTable 3).fdPos = (bigFile.inode 0).iSize ∧ 0 < 1 ∨
      min ((bigFile.fileTable 3).fdPos + 1) (bigFile.inode 0).iSize / 512 < 139 ∨
      bigFile.mallocs 1 = false) :=
  size_range bigFile_on (fun _ => 7) (by decide) (by rw [bigFile_free]; decide) (by decide)
    (by decide) (fun _ => 0)

/-- A file is filled up to the limit from the start. -/
theorem full_file_panics : FileOn 0 3 0 emptyFile ∧ (emptyFile.inode 0).iSize + 71680 ≤ 71680 ∧
    newBlocks (emptyFile.inode 0) 71680 ≤ freeCount emptyFile.part.blockBitmap ∧
    (fileWrite 0 3 (fun _ => 7) 71680).run emptyFile = .error (.assertion .fileWrite) := by
  have hfree : newBlocks (emptyFile.inode 0) 71680 ≤ freeCount emptyFile.part.blockBitmap := by
    rw [emptyFile_free]
    decide
  rcases stops_full emptyFile_on (fun _ => 7) ⟨rfl, rfl⟩
    (show (emptyFile.inode 0).iSize + 71680 = 71680 by decide) with ⟨f, s', hstop, -, hf⟩
  refine ⟨emptyFile_on, by decide, hfree, ?_⟩
  rw [hstop.1, hf (by rw [emptyFile_free]; decide)]

end Range

end ForikOS
