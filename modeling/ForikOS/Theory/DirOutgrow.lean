import ForikOS.Theory.DirInsert

/-!
# A Directory That Has Outgrown Its Direct Blocks

`sync_dir_entry` and a directory with a table of indirect blocks.

Looking up, deleting and listing all read the table. Inserting starts from an
empty one, so as long as there is room in the direct blocks nothing is lost,
and the first entry past them costs the directory everything behind its old
table: the inode then names a new table with one block. `entries_kept_iff`
says that it depends on nothing else.

## Main definitions

* `KeepsEntries`: Nothing of a directory is lost.

## Theorems

* `entries_kept_iff`: When `sync_dir_entry` keeps the entries.
* `large_dir_loses_entry`: An entry that is lost.
-/

namespace ForikOS

open Prog

/-- What has been found in a directory is still found, and its table and its
    blocks are still its own. -/
structure KeepsEntries (t : Nat) (d : Dir) (s s' : Fs) : Prop where
  found : ∀ name e, name ≠ [] → (0 : Byte) ∉ name →
    (searchDirEntry t d name).run s = .ok (some e, s) →
    ∃ e', (searchDirEntry t d name).run s' = .ok (some e', s') ∧ SameEntry e' e
  table : (s'.inode d.inode).iSectors 12 = (s.inode d.inode).iSectors 12
  reachable : ∀ k, k < 140 → inodeBlocks s.disk (s.inode d.inode) k ≠ 0 →
    ∃ k', k' < 140 ∧ inodeBlocks s'.disk (s'.inode d.inode) k' =
      inodeBlocks s.disk (s.inode d.inode) k

section Kept

variable {t : Nat} {s s' : Fs} {d : Dir} {e : DirEntry} {name : Str}

/-- `search_dir_entry` finds the first slot with a name. -/
theorem search_some (hd : DirAt t d.inode s) (hm : Memory s) {r : Option DirEntry}
    (h : (searchDirEntry t d name).run s = .ok (r, s)) :
    FirstMatch s.disk (s.inode d.inode) name r := by
  rcases run_searchDir hd hm name with ⟨r', hsearch, hfirst⟩
  cases h.symm.trans hsearch
  exact hfirst

/-- Where the entry has got a slot of its own, nothing is lost. -/
theorem Synced.keeps {k₀ j₀ : Nat} (h : Synced d.inode k₀ j₀ e s s')
    (hins : Insertion t d e name s) (h12 : (s.inode d.inode).iSectors 12 ≠ 0) :
    KeepsEntries t d s s' := by
  refine ⟨fun other e₁ hne h0 hsearch => ?_, h.table h12, fun k hk hthere => ?_⟩
  · have hfirst := search_some hins.dir hins.memory hsearch
    rcases run_searchDir (h.dirAt hins.dir) (memory_grown h.rest hins.memory) other
      with ⟨r, hsearch', hfirst'⟩
    have hother : other ≠ name := by
      rintro rfl
      rcases hfirst with ⟨k, j, hmatch, -⟩
      exact hins.absent k j hmatch
    cases h.inserted.found_other hins.entry hins.typed hins.cleared h0 hne hother hfirst hfirst'
      with
    | some hsame => exact ⟨_, hsearch', hsame⟩
  · exact ⟨k, hk, h.inserted.blocks k hk (Or.inl hthere)⟩

/-- The blocks of a directory with a new table are on the disk. -/
theorem Outgrown.onDisk {a : Nat} (h : Outgrown a e s s') (ho : DirOwns a s) {n : Nat}
    (hn : OwnSector s'.disk (s'.inode a) n) : n ≤ maxLba := by
  rcases ownSector_iff.mp hn with ⟨hn0, rfl | ⟨k, hk, rfl⟩⟩
  · exact h.table.1
  · by_cases hk12 : k < 12
    · have hsame : inodeBlocks s'.disk (s'.inode a) k = inodeBlocks s.disk (s.inode a) k := by
        rw [inodeBlocks_direct hk12, inodeBlocks_direct hk12, h.direct k hk12]
      rw [hsame] at hn0 ⊢
      exact (ho.blocks k hk hn0).1
    · by_cases hk12' : k = 12
      · rw [hk12']
        exact h.block.1
      · exact absurd (h.beyond k (by omega) hk) hn0

/-- A run that gets a block has found one free. -/
theorem syncNewBlock_free {a k : Nat} {all : Nat → Nat}
    (h : (syncNewBlock t a e all k).run s = .ok (true, s')) : 0 < freeCount s.part.blockBitmap := by
  rcases Nat.eq_zero_or_pos (freeCount s.part.blockBitmap) with hz | hpos
  · have hstop : Stops (syncNewBlock t a e all k) s (.assertion .bitmapScan) s :=
      stops_bind (stops_blockBitmapAlloc hz)
    cases h.symm.trans hstop.1
  · exact hpos

/-- A run that makes a table has found two. -/
theorem syncNewTable_free {a : Nat} {all : Nat → Nat} (hv : Volume s.part)
    (h : (syncNewBlock t a e all 12).run s = .ok (true, s')) :
    2 ≤ freeCount s.part.blockBitmap := by
  have hpos := syncNewBlock_free h
  rcases run_syncAlloc a hv hpos with ⟨table, s₁, s₂, hrun, hsync, h₂, -, -, hcount⟩
  rcases run_setSector (fun _ => False) s₂ a 12 table with ⟨s₃, hset, h₃, hpart, -⟩
  rw [syncNewBlock, run_bind_of hrun] at h
  have hrest : (syncNewTable t a e all table).run s₂ = .ok (true, s') := by
    rw [← h]
    show _ = (syncNewBit table >>= _).run s₁
    rw [run_bind_of hsync, if_neg (by omega), if_pos rfl]
  by_contra hlt
  have hz : freeCount s₃.part.blockBitmap = 0 := by
    rw [hpart]
    omega
  have hstop : Stops (syncNewTable t a e all table) s₂ (.assertion .bitmapScan) s₃ :=
    stops_bind_of hset (stops_bind (stops_blockBitmapAlloc hz))
  cases hrest.symm.trans hstop.1

/-- `sync_dir_entry` on a directory with a table keeps the entries if there is
    room in the direct blocks, and only then. -/
theorem entries_kept_iff (hins : Insertion t d e name s)
    (h12 : (s.inode d.inode).iSectors 12 ≠ 0)
    (h : (syncDirEntry t d e).run s = .ok (true, s')) :
    KeepsEntries t d s s' ↔ ∃ k, k < 12 ∧ HasRoom s.disk (s.inode d.inode) k := by
  rcases run_syncDirEntry hins.dir hins.whole e with ⟨k, j, hk, hslot, hfree, hrun⟩ |
    ⟨k, hk, hmissing, hrun⟩ | ⟨hfull, hrun⟩
  · cases h.symm.trans hrun
    refine iff_of_true ((synced_slot hins.owns hslot hfree e).keeps hins h12) ⟨k, hk, Or.inr ?_⟩
    exact ⟨j, hslot, fun hlive => hlive.used hfree⟩
  · have hblock := hrun.symm.trans h
    rcases run_syncDirect hins.volume hins.owns (syncNewBlock_free hblock) hk hmissing t e
      (allBlocks (s.inode d.inode) (fun _ => 0)) with ⟨s₁, hrun₁, hsynced⟩
    cases hblock.symm.trans hrun₁
    exact iff_of_true (hsynced.keeps hins h12) ⟨k, hk, Or.inl hmissing⟩
  · have hblock := hrun.symm.trans h
    rcases run_syncTable hins.dir.sees hins.volume (syncNewTable_free hins.volume hblock) e
      (allBlocks_none (s.inode d.inode)) with ⟨s₁, hrun₁, hout⟩
    cases hblock.symm.trans hrun₁
    refine iff_of_false (fun hkeeps => ?_) ?_
    · -- The new table was free before, and the old one was not.
      refine fresh_ne_taken hout.table (hins.owns.table h12) hkeeps.table
    · rintro ⟨k, hk, hroom⟩
      exact hfull k hk hroom

end Kept

section LargeDir

/-- The block with a number is one of the thirteen. -/
theorem largeDir_block {k : Nat} (hk : k < 140) :
    inodeBlocks largeDir.disk (largeDir.inode 0) k =
      if k < 12 then 612 + k else if k = 12 then 625 else 0 :=
  largeDir_facts.blocks ⟨k, hk⟩

theorem largeDir_block_cases {k : Nat} (hk : k < 140)
    (h : inodeBlocks largeDir.disk (largeDir.inode 0) k ≠ 0) :
    k < 12 ∧ inodeBlocks largeDir.disk (largeDir.inode 0) k = 612 + k ∨
      k = 12 ∧ inodeBlocks largeDir.disk (largeDir.inode 0) k = 625 := by
  rw [largeDir_block hk] at h ⊢
  by_cases hk12 : k < 12
  · exact Or.inl ⟨hk12, if_pos hk12⟩
  by_cases hk12' : k = 12
  · exact Or.inr ⟨hk12', (if_neg hk12).trans (if_pos hk12')⟩
  · rw [if_neg hk12, if_neg hk12'] at h
    exact absurd rfl h

theorem largeDir_taken {n : Nat} (h : 612 ≤ n) (h' : n < 626) : TakenBlock largeDir.part n := by
  have hmax : maxLba = 163839 := rfl
  have hdata : largeDir.part.sb.dataStartLba = 612 := rfl
  have hlen : largeDir.part.blockBitmap.btmpBytesLen = 512 := rfl
  have hbits : ∀ k : Fin 14, bitmapScanTest largeDir.part.blockBitmap k = true := by decide
  refine ⟨by omega, n - 612, by omega, hbits ⟨n - 612, by omega⟩, by omega⟩

theorem largeDir_owns : DirOwns 0 largeDir := by
  have htable : (largeDir.inode 0).iSectors 12 = 624 := rfl
  refine ⟨fun k hk hthere => ?_, fun _ => largeDir_taken (by omega) (by omega),
    fun i k hi hk hthere heq => ?_, fun k hk hthere => ?_⟩
  · rcases largeDir_block_cases hk hthere with ⟨hlt, hblock⟩ | ⟨-, hblock⟩
    · exact largeDir_taken (by omega) (by omega)
    · exact largeDir_taken (by omega) (by omega)
  · have hthere' := hthere
    rw [heq] at hthere'
    rcases largeDir_block_cases hi hthere with ⟨hlt, hblock⟩ | ⟨hlt, hblock⟩
    · rcases largeDir_block_cases hk hthere' with ⟨hlt', hblock'⟩ | ⟨hlt', hblock'⟩ <;> omega
    · rcases largeDir_block_cases hk hthere' with ⟨hlt', hblock'⟩ | ⟨hlt', hblock'⟩ <;> omega
  · rcases largeDir_block_cases hk hthere with ⟨hlt, hblock⟩ | ⟨-, hblock⟩ <;> omega

theorem largeDir_insertion : Insertion 0 ⟨0, true⟩ newFile [0x41] largeDir := by
  refine ⟨largeDir_at, largeDir_volume, largeDir_owns, fun k j b hs hunknown hb => ?_,
    fun k j hlive => ?_, by decide, newFile_entry, fun k j hmatch => ?_, fun _ => rfl⟩
  · rcases largeDir_slot hs with ⟨hk, hj⟩
    have hfree := (largeDir_facts.free ⟨k, hk⟩ ⟨j, hj⟩).mp hunknown
    dsimp only at hfree
    obtain rfl : k = 12 := by omega
    exact largeDir_facts.cleared ⟨j, hj⟩ ⟨b, hb⟩ (by dsimp only; omega)
  · rcases largeDir_slot hlive.toSlot with ⟨hk, hj⟩
    have hfree := mt (largeDir_facts.free ⟨k, hk⟩ ⟨j, hj⟩).mpr hlive.used
    dsimp only at hfree
    exact largeDir_entries.typed ⟨k, hk⟩ ⟨j, hj⟩ (by dsimp only; omega)
  · rcases largeDir_slot hmatch.toSlot with ⟨hk, hj⟩
    exact largeDir_entries.letter ⟨k, hk⟩ ⟨j, hj⟩ ((strEq_iff.mp hmatch.same).1 0 (by decide))

/-- There is no room in the direct blocks. -/
theorem largeDir_full {k : Nat} (hk : k < 12) :
    ¬ HasRoom largeDir.disk (largeDir.inode 0) k := by
  rintro (hmissing | ⟨j, hslot, hfree⟩)
  · rw [largeDir_block (by omega), if_pos hk] at hmissing
    omega
  · have hj : j < 21 := hslot.entry
    refine hfree ⟨hslot, fun hunknown => ?_⟩
    have hle := (largeDir_facts.free ⟨k, by omega⟩ ⟨j, hj⟩).mp hunknown
    dsimp only at hle
    omega

theorem largeDir_outgrown : ∃ s', (syncDirEntry 0 ⟨0, true⟩ newFile).run largeDir = .ok (true, s') ∧
    Outgrown 0 newFile largeDir s' := by
  have hins := largeDir_insertion
  rcases run_syncDirEntry hins.dir hins.whole newFile with ⟨k, j, hk, hslot, hfree, -⟩ |
    ⟨k, hk, hmissing, -⟩ | ⟨-, hrun⟩
  · exact absurd (Or.inr ⟨j, hslot, fun hlive => hlive.used hfree⟩) (largeDir_full hk)
  · exact absurd (Or.inl hmissing) (largeDir_full hk)
  · rcases run_syncTable hins.dir.sees hins.volume largeDir_count newFile
      (allBlocks_none (largeDir.inode 0)) with ⟨s', hrun', hout⟩
    exact ⟨s', hrun.trans hrun', hout⟩

theorem entries_kept_iff_large : ∃ s',
    (syncDirEntry 0 ⟨0, true⟩ newFile).run largeDir = .ok (true, s') ∧
    (KeepsEntries 0 ⟨0, true⟩ largeDir s' ↔
      ∃ k, k < 12 ∧ HasRoom largeDir.disk (largeDir.inode 0) k) := by
  rcases largeDir_outgrown with ⟨s', hrun, -⟩
  exact ⟨s', hrun, entries_kept_iff largeDir_insertion (by decide) hrun⟩

/-- The last entry of the directory stands behind its table, and the next entry
    makes it disappear. -/
theorem large_dir_loses_entry : Insertion 0 ⟨0, true⟩ newFile [0x41] largeDir ∧
    (largeDir.inode 0).iSectors 12 ≠ 0 ∧
    ∃ s' e', (syncDirEntry 0 ⟨0, true⟩ newFile).run largeDir = .ok (true, s') ∧
      (searchDirEntry 0 ⟨0, true⟩ [0x70, 0x6d]).run largeDir = .ok (some e', largeDir) ∧
      (searchDirEntry 0 ⟨0, true⟩ [0x70, 0x6d]).run s' = .ok (none, s') ∧
      (s'.inode 0).iSectors 12 ≠ (largeDir.inode 0).iSectors 12 ∧
      ∀ k, k < 140 → inodeBlocks s'.disk (s'.inode 0) k ≠ 625 := by
  have hins := largeDir_insertion
  have hne : (largeDir.inode 0).iSectors 12 ≠ 0 := by decide
  refine ⟨hins, hne, ?_⟩
  rcases largeDir_outgrown with ⟨s', hrun, hout⟩
  -- The direct blocks keep their entries, and none of them has the name.
  have hkept : ∀ k, k < 12 → blockBytes s'.disk (s'.inode 0) k =
      blockBytes largeDisk (largeDir.inode 0) k := by
    intro k hk
    have hblock := largeDir_block (show k < 140 by omega)
    rw [if_pos hk] at hblock
    have hsame : inodeBlocks s'.disk (s'.inode 0) k =
        inodeBlocks largeDir.disk (largeDir.inode 0) k := by
      rw [inodeBlocks_direct hk, inodeBlocks_direct hk, hout.direct k hk]
    rw [blockBytes, hsame]
    refine sectors_congr (fun x hx => hout.kept x (largeDir_taken ?_ ?_))
    · omega
    · omega
  have hnone : ∀ k j, ¬ Matches s'.disk (s'.inode 0) [0x70, 0x6d] k j := by
    intro k j hmatch
    have hj : j < 21 := hmatch.entry
    by_cases hk : k < 12
    · have hsame := hmatch.same
      rw [hkept k hk] at hsame
      exact Bool.false_ne_true ((largeDir_entries.last ⟨k, hk⟩ ⟨j, hj⟩).symm.trans hsame)
    by_cases hk12 : k = 12
    · -- The block behind the new table has the new entry only.
      have hbyte := (strEq_iff.mp hmatch.same).1 0 (by decide)
      have hlt := slot_byte hmatch.entry (show 0 < dirEntrySize by decide)
      rw [hk12, blockBytes_byte (by omega), hout.first _ (by omega),
        show (inodeBlocks s'.disk (s'.inode 0) 12 * 512 + (dirEntrySize * j + 0)) % 512 =
          dirEntrySize * j + 0 by omega] at hbyte
      have hall : ∀ j : Fin 21, memcpyTo (fun _ => 0) 0 dirEntrySize (entryBytes newFile)
          (dirEntrySize * j + 0) ≠ List.getD [0x70, 0x6d] 0 0 := by decide
      exact hall ⟨j, hj⟩ hbyte
    · exact hmatch.there (hout.beyond k (by omega) hmatch.block)
  -- The old indirect block is linked from nowhere any more.
  have hblocks : ∀ k, k < 140 → inodeBlocks s'.disk (s'.inode 0) k ≠ 625 := by
    intro k hk heq
    by_cases hk12 : k < 12
    · have hold := largeDir_block hk
      rw [inodeBlocks_direct hk12] at heq hold
      rw [← hout.direct k hk12, heq, if_pos hk12] at hold
      omega
    by_cases hk12' : k = 12
    · rw [hk12'] at heq
      have hfresh := hout.block
      rw [heq] at hfresh
      exact fresh_ne_taken hfresh (largeDir_taken (by omega) (by omega)) rfl
    · rw [hout.beyond k (by omega) hk] at heq
      omega
  have htable : (s'.inode 0).iSectors 12 ≠ (largeDir.inode 0).iSectors 12 :=
    fresh_ne_taken hout.table (largeDir_owns.table hne)
  have hdir : DirAt 0 (Dir.mk 0 true).inode s' :=
    dirAt_grown hout.rest (fun n hn => hout.onDisk hins.owns hn) hins.dir
  -- The search finds the name before the insertion and misses it afterwards.
  rcases run_searchDir hins.dir hins.memory [0x70, 0x6d] with ⟨r, hsearch, hfirst⟩
  rcases run_searchDir hdir (memory_grown hout.rest hins.memory) [0x70, 0x6d]
    with ⟨r', hsearch', hfirst'⟩
  cases r with
  | none =>
      have hthere := largeDir_block (show 12 < 140 by decide)
      refine absurd ⟨⟨by decide, by decide, ?_⟩, largeDir_entries.there⟩ (hfirst 12 0)
      exact hthere ▸ (by decide)
  | some e' =>
      cases r' with
      | some e₁ =>
          rcases hfirst' with ⟨k, j, hmatch, -⟩
          exact absurd hmatch (hnone k j)
      | none => exact ⟨s', e', hrun, hsearch, hsearch', htable, hblocks⟩

end LargeDir

end ForikOS
