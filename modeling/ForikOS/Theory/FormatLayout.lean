import ForikOS.Lib.Layout
import ForikOS.Theory.Format

/-!
# The Layout of a New Partition

`partition_format` divides a partition into a sector for the boot loader, one
for the superblock, the two bitmaps, the table of the inodes and the blocks.

The block bitmap and the blocks depend on each other: what one of them gets is
not left for the other. The code counts the sectors of the bitmap for all that
is free, takes the rest for the blocks, and then counts the sectors of the
bitmap again, for these blocks only. The second count is never larger, so both
fit. It is smaller by one at most, as long as the bitmap has fewer sectors than
a sector has bits, and that sector is then in no area.

## Main definitions

* `SuperBlock.areas`: The areas of a partition.
* `FormatFits`: They divide the partition.

## Theorems

* `formatBits_sects`: The two counts.
* `formatSb_consecutive`: The areas follow each other.
* `format_fits`: They divide every partition the disk has room for.
-/

namespace ForikOS

/-- The areas of a partition with `bitLen` blocks: the boot sector, the
    superblock, the block bitmap, the inode bitmap, the inodes and the blocks. -/
def SuperBlock.areas (sb : SuperBlock) (bitLen : Nat) : List Area :=
  [⟨sb.partLbaBase, 1⟩,
    ⟨add32 sb.partLbaBase 1, 1⟩,
    ⟨sb.blockBitmapLba, sb.blockBitmapSects⟩,
    ⟨sb.inodeBitmapLba, sb.inodeBitmapSects⟩,
    ⟨sb.inodeTableLba, sb.inodeTableSects⟩,
    ⟨sb.dataStartLba, bitLen⟩]

/-- The areas that `partition_format` computes divide the partition: they follow
    each other inside of it, the blocks are in it and have a bit each, and a
    sector that is in no area is the last one. -/
structure FormatFits (startLba secCnt : Nat) (sb : SuperBlock) (bitLen : Nat) : Prop where
  consecutive : Consecutive startLba (sb.areas bitLen) (sb.dataStartLba + bitLen)
  disjoint : (sb.areas bitLen).Pairwise (fun a b => Disjoint a.cells b.cells)
  inside : ∀ a, a ∈ sb.areas bitLen → a.cells ⊆ Set.Ico startLba (startLba + secCnt)
  blocks : ∀ i, i < bitLen → add32 sb.dataStartLba i = sb.dataStartLba + i ∧
    add32 sb.dataStartLba i ∈ Set.Ico startLba (startLba + secCnt)
  bits : bitLen ≤ sb.blockBitmapSects * 4096
  unused : ∀ x, x ∈ Set.Ico startLba (startLba + secCnt) →
    (∃ a, a ∈ sb.areas bitLen ∧ x ∈ a.cells) ∨ x + 1 = startLba + secCnt

section Layout

variable {startLba secCnt : Nat}

/-- What is left by the first count has room for the second, and at most one
    sector is left over. -/
theorem formatBits_sects (hmin : 613 ≤ secCnt) (hmax : secCnt ≤ 163840) :
    611 + (formatBits secCnt + 4095) / 4096 + formatBits secCnt ≤ secCnt ∧
      secCnt ≤ 611 + (formatBits secCnt + 4095) / 4096 + formatBits secCnt + 1 := by
  rw [formatBits_eq hmin hmax]
  omega

/-- Every area begins where the one before it ends. -/
theorem formatSb_consecutive (hmin : 613 ≤ secCnt) (hmax : secCnt ≤ 163840)
    (hword : startLba + secCnt < 2 ^ 32) :
    Consecutive startLba ((formatSb startLba secCnt).areas (formatBits secCnt))
      ((formatSb startLba secCnt).dataStartLba + formatBits secCnt) := by
  rcases formatSb_layout hmin hmax hword.le with ⟨hsects, hbmap, himap, htable, hdata⟩
  rcases formatSb_sects startLba secCnt with ⟨hnodes, hrecords⟩
  have hbase : (formatSb startLba secCnt).partLbaBase = startLba := rfl
  have hsb : add32 startLba 1 = startLba + 1 := by
    rw [add32]
    omega
  -- An address is the sum of the lengths in front of it.
  rw [SuperBlock.areas, hbase, hsb, hbmap, hsects, himap, hnodes, htable, hrecords, hdata]
  simp only [Consecutive, true_and]
  omega

/-- The areas divide every partition of 613 sectors or more. -/
theorem format_fits (startLba secCnt : Nat) (hmin : 613 ≤ secCnt) (hmax : secCnt ≤ 163840)
    (hword : startLba + secCnt < 2 ^ 32) :
    FormatFits startLba secCnt (formatSb startLba secCnt) (formatBits secCnt) := by
  have hareas := formatSb_consecutive hmin hmax hword
  rcases formatSb_layout hmin hmax hword.le with ⟨hsects, -, -, -, hdata⟩
  rcases formatBits_sects hmin hmax with ⟨hroom, hwaste⟩
  have hend : (formatSb startLba secCnt).dataStartLba + formatBits secCnt ≤ startLba + secCnt := by
    rw [hdata]
    omega
  have hlast :
      startLba + secCnt ≤ (formatSb startLba secCnt).dataStartLba + formatBits secCnt + 1 := by
    rw [hdata]
    omega
  refine ⟨hareas, hareas.disjoint, fun a ha => ?_, fun i hi => ?_, ?_, fun x hx => ?_⟩
  · exact (hareas.subset ha).trans (Set.Ico_subset_Ico_right hend)
  · have hadd : add32 (formatSb startLba secCnt).dataStartLba i =
        (formatSb startLba secCnt).dataStartLba + i := by
      rw [add32]
      omega
    refine ⟨hadd, ?_⟩
    rw [hadd, Set.mem_Ico]
    omega
  · rw [hsects]
    omega
  · -- Behind the blocks is the sector that the second count has left, if there is one.
    by_cases hbefore : x < (formatSb startLba secCnt).dataStartLba + formatBits secCnt
    · exact Or.inl (hareas.exists_area hx.1 hbefore)
    · have hx' := hx.2
      exact Or.inr (by omega)

/-- The first partition of a disk of 80 megabytes. -/
theorem format_fits_disk : FormatFits 63 163777 (formatSb 63 163777) (formatBits 163777) :=
  format_fits 63 163777 (by decide) (by decide) (by decide)

end Layout

end ForikOS
