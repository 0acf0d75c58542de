import Mathlib.Data.Nat.Count
import ForikOS.Theory.DirSlots

/-!
# Deleting an Entry

When `delete_dir_entry` comes back.

The loop over a block counts the entries behind `"."` and `".."`, notes whether
there is a `"."`, and where the entry is that names the number. If the entry is
the only one counted and there is no `"."`, its block is given back. As the
search starts behind the direct blocks, the block is an indirect one. The loop
that is to count the indirect blocks then never moves on, so neither the
address of the block nor the table is taken care of.

In every other case the entry is cleared and the call returns.

## Main definitions

* `CountedEntry`, `Names`, `DotSlot`: What the loop over a block looks for.
* `NamedOnce`: One entry at most names the number.
* `LastIndirect`: The entry is the last of an indirect block.
* `DeleteEnds`: What the call is to do.

## Theorems

* `run_scanEntries`: The loop over the entries of a block.
* `deleteDirEntry_hangs`, `run_deleteDirEntry`: The two cases.
* `delete_returns`: The call returns if and only if the entry is not the last
  of an indirect block.
-/

namespace ForikOS

open Prog

/-- The loop counts the entry: it is neither `"."` nor `".."`. -/
def CountedEntry (buf : Nat → Byte) (j : Nat) : Prop :=
  (decodeEntry buf (dirEntrySize * j)).fType ≠ .unknown ∧
    strEq buf (dirEntrySize * j) dotName = false ∧ strEq buf (dirEntrySize * j) dotdotName = false

instance (buf : Nat → Byte) : DecidablePred (CountedEntry buf) :=
  fun _ => inferInstanceAs (Decidable (_ ∧ _ ∧ _))

/-- The entry is a `"."`. -/
def DotSlot (buf : Nat → Byte) (j : Nat) : Prop :=
  (decodeEntry buf (dirEntrySize * j)).fType ≠ .unknown ∧
    strEq buf (dirEntrySize * j) dotName = true

/-- The entry is counted and names the number. -/
def Names (buf : Nat → Byte) (n j : Nat) : Prop :=
  CountedEntry buf j ∧ (decodeEntry buf (dirEntrySize * j)).iNo = n

/-- What `delete_dir_entry` knows after the first `j` entries of a block. -/
structure Scanned (buf : Nat → Byte) (n j : Nat) (r : BlockScan) : Prop where
  first : r.isDirFirstBlock = true ↔ ∃ i, i < j ∧ DotSlot buf i
  cnt : r.dirEntryCnt = Nat.count (CountedEntry buf) j
  found : ∀ i, r.dirEntryFound = some i ↔ i < j ∧ Names buf n i

section Scan

variable {buf : Nat → Byte} {n j : Nat} {r : BlockScan}

theorem scanned_start (buf : Nat → Byte) (n : Nat) : Scanned buf n 0 ⟨false, 0, none⟩ := by
  refine ⟨⟨fun h => Bool.noConfusion h, ?_⟩, rfl, fun i => ⟨fun h => ?_, fun h => ?_⟩⟩
  · rintro ⟨i, hi, -⟩
    exact absurd hi (Nat.not_lt_zero i)
  · cases h
  · exact absurd h.1 (Nat.not_lt_zero i)

/-- An entry that is counted is no `"."`. -/
theorem CountedEntry.not_dot (h : CountedEntry buf j) : ¬ DotSlot buf j :=
  fun hdot => Bool.false_ne_true (h.2.1.symm.trans hdot.2)

/-- One more entry that is no `"."` changes nothing about the first block. -/
theorem exists_dot_succ (hdot : ¬ DotSlot buf j) :
    (∃ i, i < j + 1 ∧ DotSlot buf i) ↔ ∃ i, i < j ∧ DotSlot buf i := by
  refine exists_congr (fun i => ⟨fun h => ⟨?_, h.2⟩, fun h => ⟨Nat.lt_succ_of_lt h.1, h.2⟩⟩)
  refine (Nat.lt_succ_iff_lt_or_eq.mp h.1).resolve_right (fun heq => hdot ?_)
  exact heq ▸ h.2

/-- One more entry that does not name the number is not found. -/
theorem names_succ (hname : ¬ Names buf n j) (i : Nat) :
    i < j + 1 ∧ Names buf n i ↔ i < j ∧ Names buf n i := by
  refine ⟨fun h => ⟨?_, h.2⟩, fun h => ⟨Nat.lt_succ_of_lt h.1, h.2⟩⟩
  refine (Nat.lt_succ_iff_lt_or_eq.mp h.1).resolve_right (fun heq => hname ?_)
  exact heq ▸ h.2

namespace Scanned

theorem skip (h : Scanned buf n j r) (hcnt : ¬ CountedEntry buf j) (hdot : ¬ DotSlot buf j) :
    Scanned buf n (j + 1) r := by
  refine ⟨?_, ?_, fun i => ?_⟩
  · rw [h.first, exists_dot_succ hdot]
  · rw [h.cnt, Nat.count_succ, if_neg hcnt, Nat.add_zero]
  · rw [h.found, names_succ (fun hname => hcnt hname.1)]

theorem dot (h : Scanned buf n j r) (hdot : DotSlot buf j) :
    Scanned buf n (j + 1) { r with isDirFirstBlock := true } := by
  have hcnt : ¬ CountedEntry buf j := fun hc => hc.not_dot hdot
  refine ⟨⟨fun _ => ⟨j, Nat.lt_succ_self j, hdot⟩, fun _ => rfl⟩, ?_, fun i => ?_⟩
  · show r.dirEntryCnt = _
    rw [h.cnt, Nat.count_succ, if_neg hcnt, Nat.add_zero]
  · rw [names_succ (fun hname => hcnt hname.1)]
    exact h.found i

theorem other (h : Scanned buf n j r) (hcnt : CountedEntry buf j) (hname : ¬ Names buf n j) :
    Scanned buf n (j + 1) { r with dirEntryCnt := r.dirEntryCnt + 1 } := by
  have hdot := hcnt.not_dot
  refine ⟨?_, ?_, fun i => ?_⟩
  · rw [exists_dot_succ hdot]
    exact h.first
  · show r.dirEntryCnt + 1 = _
    rw [h.cnt, Nat.count_succ, if_pos hcnt]
  · rw [names_succ hname]
    exact h.found i

/-- The entry is found, and not a second time. -/
theorem named (h : Scanned buf n j r) (hname : Names buf n j)
    (honce : ∀ i, i < j → ¬ Names buf n i) :
    r.dirEntryFound.isNone = true ∧
      Scanned buf n (j + 1) { r with dirEntryCnt := r.dirEntryCnt + 1, dirEntryFound := some j } := by
  have hdot := hname.1.not_dot
  refine ⟨?_, ?_, ?_, fun i => ?_⟩
  · rw [Option.isNone_iff_eq_none, Option.eq_none_iff_forall_ne_some]
    intro i hi
    rcases (h.found i).mp hi with ⟨hlt, hi⟩
    exact honce i hlt hi
  · rw [exists_dot_succ hdot]
    exact h.first
  · show r.dirEntryCnt + 1 = _
    rw [h.cnt, Nat.count_succ, if_pos hname.1]
  · rw [Option.some.injEq]
    constructor
    · rintro rfl
      exact ⟨Nat.lt_succ_self _, hname⟩
    · rintro ⟨hlt, hi⟩
      refine ((Nat.lt_succ_iff_lt_or_eq.mp hlt).resolve_left (fun hlt' => ?_)).symm
      exact honce i hlt' hi

end Scanned

/-- The loop over the entries of a block. -/
theorem run_scanEntries {m : Nat} (h : Scanned buf n j r)
    (honce : ∀ i i', i < j + m → i' < j + m → Names buf n i → Names buf n i' → i = i') (s : Fs) :
    ∃ r', (scanEntries buf n m j r).run s = .ok (r', s) ∧ Scanned buf n (j + m) r' := by
  induction m generalizing j r with
  | zero => exact ⟨r, rfl, h⟩
  | succ m ih =>
      -- What a round leaves is the invariant of the next one.
      have hnext : ∀ r', Scanned buf n (j + 1) r' →
          ∃ r'', (scanEntries buf n m (j + 1) r').run s = .ok (r'', s) ∧
            Scanned buf n (j + (m + 1)) r'' := by
        intro r' h'
        have hadd : j + (m + 1) = j + 1 + m := by omega
        rw [hadd] at honce ⊢
        exact ih h' honce
      rw [scanEntries]
      -- The cases are those of the loop body, in its order: free, dot, dot dot,
      -- and an entry that is counted.
      by_cases hfree : (decodeEntry buf (dirEntrySize * j)).fType = .unknown
      · rw [if_pos hfree]
        exact hnext r (h.skip (fun hc => hc.1 hfree) (fun hd => hd.1 hfree))
      rw [if_neg hfree]
      by_cases hdot : strEq buf (dirEntrySize * j) dotName = true
      · rw [if_pos hdot]
        exact hnext _ (h.dot ⟨hfree, hdot⟩)
      rw [if_neg hdot]
      have hnodot : ¬ DotSlot buf j := fun hd => hdot hd.2
      by_cases hdotdot : strEq buf (dirEntrySize * j) dotdotName = true
      · rw [if_pos hdotdot]
        refine hnext r (h.skip (fun hc => ?_) hnodot)
        rw [hc.2.2] at hdotdot
        exact Bool.noConfusion hdotdot
      rw [if_neg hdotdot]
      have hcnt : CountedEntry buf j := ⟨hfree, Bool.eq_false_iff.mpr hdot, Bool.eq_false_iff.mpr hdotdot⟩
      by_cases hno : (decodeEntry buf (dirEntrySize * j)).iNo = n
      · -- a second one would fail the assertion
        have honce' : ∀ i, i < j → ¬ Names buf n i := by
          intro i hlt hi
          have heq := honce i j (by omega) (by omega) hi ⟨hcnt, hno⟩
          omega
        rcases h.named ⟨hcnt, hno⟩ honce' with ⟨hnone, h'⟩
        rw [if_pos hno, run_bind_of (run_assert hnone s)]
        exact hnext _ h'
      · rw [if_neg hno]
        exact hnext _ (h.other hcnt (fun hname => hno hname.2))

/-- An entry that is counted is the only one exactly if the count is one. -/
theorem count_eq_one_iff {p : Nat → Prop} [DecidablePred p] {m : Nat} (hj : j < m) (hp : p j) :
    Nat.count p m = 1 ↔ ∀ i, i < m → p i → i = j := by
  have hmem : j ∈ (Finset.range m).filter p := Finset.mem_filter.mpr ⟨Finset.mem_range.mpr hj, hp⟩
  rw [Nat.count_eq_card_filter_range]
  constructor
  · intro h i hi hpi
    have hmem' : i ∈ (Finset.range m).filter p :=
      Finset.mem_filter.mpr ⟨Finset.mem_range.mpr hi, hpi⟩
    exact Finset.card_le_one.mp (Nat.le_of_eq h) i hmem' j hmem
  · intro h
    refine Finset.card_eq_one.mpr ⟨j, Finset.eq_singleton_iff_unique_mem.mpr ⟨hmem, ?_⟩⟩
    intro i hi
    rcases Finset.mem_filter.mp hi with ⟨hlt, hpi⟩
    exact h i (Finset.mem_range.mp hlt) hpi

end Scan

/-- One entry at most names the number. -/
def NamedOnce (disk : Nat → Byte) (i : Inode) (n : Nat) : Prop :=
  ∀ k j k' j', Slot disk i k j → Slot disk i k' j' → Names (blockBytes disk i k) n j →
    Names (blockBytes disk i k') n j' → inodeBlocks disk i k' = inodeBlocks disk i k ∧ j' = j

/-- The entry that names the number is in an indirect block, without a `"."`
    and without another entry that is counted. -/
structure LastOf (disk : Nat → Byte) (i : Inode) (n k j : Nat) : Prop extends Slot disk i k j where
  indirect : 12 ≤ k
  names : Names (blockBytes disk i k) n j
  alone : ∀ j', j' < entriesPerSec → CountedEntry (blockBytes disk i k) j' → j' = j
  noDot : ∀ j', j' < entriesPerSec → ¬ DotSlot (blockBytes disk i k) j'

/-- The entry is the last of an indirect block. -/
def LastIndirect (disk : Nat → Byte) (i : Inode) (n : Nat) : Prop := ∃ k j, LastOf disk i n k j

/-- The call returns. If the entry was the only one in an indirect block, the
    block is free, and the table is gone exactly if no other indirect block is
    in use. -/
def DeleteEnds (t : Nat) (d : Dir) (n : Nat) (s : Fs) : Prop :=
  ∃ r s', (deleteDirEntry t d n).run s = .ok (r, s') ∧
    ∀ k j, LiveSlot s.disk (s.inode d.inode) k j → 12 ≤ k →
      Names (blockBytes s.disk (s.inode d.inode) k) n j →
      (∀ j', LiveSlot s.disk (s.inode d.inode) k j' → j' = j) →
      bitmapScanTest s'.part.blockBitmap
        (sub32 (inodeBlocks s.disk (s.inode d.inode) k) s.part.sb.dataStartLba) = false ∧
      (((s'.inode d.inode).iSectors 12 = 0 ∧ bitmapScanTest s'.part.blockBitmap
          (sub32 ((s.inode d.inode).iSectors 12) s.part.sb.dataStartLba) = false) ↔
        ∀ k', 12 ≤ k' → k' < 140 → k' ≠ k → inodeBlocks s.disk (s.inode d.inode) k' = 0)

section Delete

variable {s : Fs} {t a n : Nat}

/-- The end of `delete_dir_entry`. -/
theorem run_shrinkDir (hsees : s.Sees t a) (hentry : s.part.sb.dirEntrySize = dirEntrySize)
    (hfits : TableFits s.part) (hsize : dirEntrySize ≤ (s.inode a).iSize) :
    ∃ s', (shrinkDir t a).run s = .ok (true, s') := by
  generalize hs₁ : s.setInode a { s.inode a with
    iSize := sub32 (s.inode a).iSize dirEntrySize } = s₁
  have hsees₁ : s₁.Sees t a := hs₁ ▸ hsees
  have hfits₁ : TableFits s₁.part := hs₁ ▸ hfits
  have hset : (setInodeAt a fun i => { i with iSize := sub32 i.iSize dirEntrySize }).run s =
      .ok ((), s₁) := hs₁ ▸ rfl
  have hsec : sectorSize = 512 := rfl
  rw [shrinkDir, run_bind_of (run_sbDirEntrySize hentry), run_bind_of (run_inodeAt hsees),
    run_bind_of (run_assert hsize s), run_bind_of hset, run_bind_of (run_inodeAt hsees₁),
    run_bind_of (inodeSync_disk hfits₁ (by omega)), run_pure]
  exact ⟨_, rfl⟩

/-- Giving the block back is not survived. -/
theorem deleteBlock_hangs {all : Nat → Nat} {k : Nat} (hk : 12 ≤ k) {β : Type} (g : Unit → FsM β)
    (r : β × Fs) : (deleteBlock a all k >>= g).run s ≠ .ok r := by
  intro h
  rcases run_bind_ok.mp h with ⟨_, s₁, hdel, -⟩
  rcases run_bind_ok.mp hdel with ⟨_, s₂, -, h₂⟩
  rcases run_bind_ok.mp h₂ with ⟨_, s₃, -, h₃⟩
  rcases run_bind_ok.mp h₃ with ⟨_, s₄, -, h₄⟩
  rw [if_neg (by omega)] at h₄
  cases h₄

/-- The loop over the blocks, from block `k₀` on. -/
theorem run_deleteBlocks (hd : DirAt t a s) (hfits : TableFits s.part)
    (hsize : dirEntrySize ≤ (s.inode a).iSize) (honce : NamedOnce s.disk (s.inode a) n)
    {m k₀ : Nat} (hm : k₀ + m = 140) (h12 : 12 ≤ k₀)
    (hbefore : ∀ k j, 12 ≤ k → k < k₀ → Slot s.disk (s.inode a) k j →
      ¬ Names (blockBytes s.disk (s.inode a) k) n j) :
    (LastIndirect s.disk (s.inode a) n →
      ∀ r, (deleteBlocks t a (inodeBlocks s.disk (s.inode a)) n m k₀).run s ≠ .ok r) ∧
    (¬ LastIndirect s.disk (s.inode a) n →
      ∃ r, (deleteBlocks t a (inodeBlocks s.disk (s.inode a)) n m k₀).run s = .ok r) := by
  induction m generalizing k₀ with
  | zero =>
      refine ⟨fun hlast => ?_, fun _ => ⟨_, rfl⟩⟩
      rcases hlast with ⟨k, j, hlast⟩
      have hk := hlast.block
      exact absurd hlast.names (hbefore k j hlast.indirect (by omega) hlast.toSlot)
  | succ m ih =>
      have hnext : (∀ j, Slot s.disk (s.inode a) k₀ j →
          ¬ Names (blockBytes s.disk (s.inode a) k₀) n j) →
          (LastIndirect s.disk (s.inode a) n → ∀ r,
            (deleteBlocks t a (inodeBlocks s.disk (s.inode a)) n m (k₀ + 1)).run s ≠ .ok r) ∧
          (¬ LastIndirect s.disk (s.inode a) n → ∃ r,
            (deleteBlocks t a (inodeBlocks s.disk (s.inode a)) n m (k₀ + 1)).run s = .ok r) := by
        intro hhere
        refine ih (by omega) (by omega) (fun k j hk hlt hslot => ?_)
        by_cases hkk : k = k₀
        · rw [hkk] at hslot ⊢
          exact hhere j hslot
        · exact hbefore k j hk (by omega) hslot
      rw [deleteBlocks]
      by_cases hz : inodeBlocks s.disk (s.inode a) k₀ = 0
      · rw [if_pos hz]
        exact hnext (fun j hslot => absurd hz hslot.there)
      have hslot : ∀ j, j < entriesPerSec → Slot s.disk (s.inode a) k₀ j :=
        fun j hj => ⟨by omega, hj, hz⟩
      have honce' : ∀ i i', i < 0 + entriesPerSec → i' < 0 + entriesPerSec →
          Names (blockBytes s.disk (s.inode a) k₀) n i →
          Names (blockBytes s.disk (s.inode a) k₀) n i' → i = i' := by
        intro i i' hi hi' hname hname'
        rw [Nat.zero_add] at hi hi'
        exact (honce k₀ i' k₀ i (hslot i' hi') (hslot i hi) hname' hname).2
      rcases run_scanEntries (scanned_start _ n) honce' s with ⟨r, hscan, hr⟩
      rw [Nat.zero_add] at hr
      rw [if_neg hz, run_bind_of (run_dirBlock hd (by omega)), run_bind_of hscan]
      cases hfound : r.dirEntryFound with
      | none =>
          refine hnext (fun j hslot hname => ?_)
          have hsome := (hr.found j).mpr ⟨hslot.entry, hname⟩
          rw [hfound] at hsome
          cases hsome
      | some j =>
          rcases (hr.found j).mp hfound with ⟨hj, hname⟩
          have hlastOf : r.dirEntryCnt = 1 ∧ r.isDirFirstBlock = false ↔
              LastOf s.disk (s.inode a) n k₀ j := by
            rw [hr.cnt, count_eq_one_iff hj hname.1, Bool.eq_false_iff, Ne, hr.first]
            constructor
            · rintro ⟨halone, hdot⟩
              exact ⟨hslot j hj, h12, hname, halone, fun j' hj' hd => hdot ⟨j', hj', hd⟩⟩
            · intro hlast
              refine ⟨hlast.alone, ?_⟩
              rintro ⟨j', hj', hd⟩
              exact hlast.noDot j' hj' hd
          -- the entry that has been found is the one there is
          have hlast : LastIndirect s.disk (s.inode a) n ↔ LastOf s.disk (s.inode a) n k₀ j := by
            constructor
            · rintro ⟨k, j', h⟩
              rcases honce k j' k₀ j h.toSlot (hslot j hj) h.names hname with ⟨hblock, rfl⟩
              have hbytes : blockBytes s.disk (s.inode a) k₀ = blockBytes s.disk (s.inode a) k := by
                rw [blockBytes, blockBytes, hblock]
              refine ⟨hslot _ hj, h12, hname, ?_, ?_⟩
              · rw [hbytes]
                exact h.alone
              · rw [hbytes]
                exact h.noDot
            · exact fun h => ⟨k₀, j, h⟩
          have hcnt : 1 ≤ r.dirEntryCnt := by
            rw [hr.cnt]
            exact Nat.lt_of_le_of_lt (Nat.zero_le _) (Nat.count_strict_mono hname.1 hj)
          dsimp only
          rw [run_bind_of (run_assert hcnt s), hlast]
          by_cases hc : r.dirEntryCnt = 1 ∧ r.isDirFirstBlock = false
          · rw [if_pos hc]
            exact ⟨fun _ r => deleteBlock_hangs h12 _ r, fun h => absurd (hlastOf.mp hc) h⟩
          · rw [if_neg hc]
            refine ⟨fun h => absurd (hlastOf.mpr h) hc, fun _ => ?_⟩
            rw [run_bind_of (run_ideWrite (hd.blocks k₀ (by omega)) (by omega) _ s)]
            rcases run_shrinkDir (s := s.setDisk _ _ _) hd.sees hd.entrySize hfits hsize with
              ⟨s', hshrink⟩
            exact ⟨_, hshrink⟩

theorem run_deleteDirEntry {d : Dir} (hd : DirAt t d.inode s) (hfits : TableFits s.part)
    (hsize : dirEntrySize ≤ (s.inode d.inode).iSize)
    (honce : NamedOnce s.disk (s.inode d.inode) n) :
    (LastIndirect s.disk (s.inode d.inode) n → ∀ r, (deleteDirEntry t d n).run s ≠ .ok r) ∧
    (¬ LastIndirect s.disk (s.inode d.inode) n → ∃ r, (deleteDirEntry t d n).run s = .ok r) := by
  rw [deleteDirEntry, run_bind_of (run_inodeAt hd.sees), run_bind_of (run_inodeBlocks hd.table),
    run_bind_of (run_sbDirEntrySize hd.entrySize)]
  exact run_deleteBlocks hd hfits hsize honce rfl (Nat.le_refl _)
    (fun k j hk hlt => absurd hlt (Nat.not_lt.mpr hk))

/-- An entry that is alone in an indirect block is the last one of it. -/
theorem LastIndirect.of_alone {disk : Nat → Byte} {i : Inode} {k j : Nat} (hlive : LiveSlot disk i k j)
    (hk : 12 ≤ k) (hname : Names (blockBytes disk i k) n j)
    (halone : ∀ j', LiveSlot disk i k j' → j' = j) : LastIndirect disk i n := by
  refine ⟨k, j, hlive.toSlot, hk, hname, fun j' hj' hcnt => ?_, fun j' hj' hdot => ?_⟩
  · exact halone j' ⟨⟨hlive.block, hj', hlive.there⟩, hcnt.1⟩
  · have heq := halone j' ⟨⟨hlive.block, hj', hlive.there⟩, hdot.1⟩
    rw [heq] at hdot
    exact hname.1.not_dot hdot

end Delete

/-- `delete_dir_entry` comes back exactly if the entry is not the last of an
    indirect block. -/
theorem delete_returns (t n : Nat) (d : Dir) (s : Fs) (hd : DirAt t d.inode s)
    (hfits : TableFits s.part) (hsize : dirEntrySize ≤ (s.inode d.inode).iSize)
    (honce : NamedOnce s.disk (s.inode d.inode) n) :
    DeleteEnds t d n s ↔ ¬ LastIndirect s.disk (s.inode d.inode) n := by
  have hrun := run_deleteDirEntry hd hfits hsize honce
  constructor
  · rintro ⟨r, s', h, -⟩ hlast
    exact hrun.1 hlast (r, s') h
  · intro hlast
    rcases hrun.2 hlast with ⟨⟨r, s'⟩, h⟩
    exact ⟨r, s', h, fun k j hlive hk hname halone =>
      absurd (LastIndirect.of_alone hlive hk hname halone) hlast⟩

section LargeDir

/-- A number from 2 on is that of one entry. -/
theorem largeDir_names {n k j : Nat} (hslot : Slot largeDir.disk (largeDir.inode 0) k j)
    (hname : Names (blockBytes largeDir.disk (largeDir.inode 0) k) n j) (hn : 2 ≤ n) :
    21 * k + j = n := by
  rcases largeDir_slot hslot with ⟨hk, hj⟩
  have hused : ¬ 253 ≤ 21 * k + j :=
    fun hle => hname.1.1 ((largeDir_facts.free ⟨k, hk⟩ ⟨j, hj⟩).mpr hle)
  have hno : (slotAt largeDisk (largeDir.inode 0) k j).iNo = n := hname.2
  rw [largeDir_facts.entries ⟨k, hk⟩ ⟨j, hj⟩ (by dsimp only; omega)] at hno
  dsimp only at hno
  by_cases hlt : 21 * k + j < 2
  · rw [if_pos hlt] at hno
    omega
  · rwa [if_neg hlt] at hno

theorem largeDir_once {n : Nat} (hn : 2 ≤ n) :
    NamedOnce largeDir.disk (largeDir.inode 0) n := by
  intro k j k' j' hslot hslot' hname hname'
  have heq := largeDir_names hslot hname hn
  have heq' := largeDir_names hslot' hname' hn
  have hj := (largeDir_slot hslot).2
  have hj' := (largeDir_slot hslot').2
  have hk : k' = k := by omega
  have hjj : j' = j := by omega
  exact ⟨by rw [hk], hjj⟩

/-- A file from a direct block. -/
theorem delete_returns_direct : DeleteEnds 0 ⟨0, true⟩ 2 largeDir ↔
    ¬ LastIndirect largeDir.disk (largeDir.inode 0) 2 :=
  delete_returns 0 2 ⟨0, true⟩ largeDir largeDir_at largeDir_volume.toTableFits (by decide)
    (largeDir_once (Nat.le_refl 2))

/-- The last file can not be deleted again. -/
theorem delete_hangs : (DirAt 0 0 largeDir ∧ TableFits largeDir.part ∧
    dirEntrySize ≤ (largeDir.inode 0).iSize ∧ NamedOnce largeDir.disk (largeDir.inode 0) 252) ∧
    (deleteDirEntry 0 ⟨0, true⟩ 252).run largeDir = .error .hang ∧
    ¬ DeleteEnds 0 ⟨0, true⟩ 252 largeDir := by
  have hsize : dirEntrySize ≤ (largeDir.inode 0).iSize := by decide
  have hhang : ((deleteDirEntry 0 ⟨0, true⟩ 252).run largeDir).map Prod.fst = .error .hang := by
    decide +kernel
  have hrun : (deleteDirEntry 0 ⟨0, true⟩ 252).run largeDir = .error .hang := by
    cases h : (deleteDirEntry 0 ⟨0, true⟩ 252).run largeDir with
    | ok r =>
        rw [h] at hhang
        cases hhang
    | error e =>
        rw [h] at hhang
        cases hhang
        rfl
  refine ⟨⟨largeDir_at, largeDir_volume.toTableFits, hsize, largeDir_once (by omega)⟩, hrun, ?_⟩
  rintro ⟨r, s', h, -⟩
  rw [hrun] at h
  cases h

end LargeDir

end ForikOS
