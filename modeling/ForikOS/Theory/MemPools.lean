import ForikOS.Theory.PageAlloc
import Mathlib.Order.Interval.Finset.Nat

/-!
# How Much Memory the Pools Manage

`mem_pool_init` gives one half of the pages behind the first two megabytes to
the kernel and the other half to the users, and rounds each half down to a
multiple of eight, so that its bitmap has whole bytes. Up to seven pages of
either half are not managed.

The number of pages is kept in sixteen bits. From 258 megabytes on it wraps
around, and 65536 pages are left out. The comment above `MEM_BITMAP_BASE` speaks
of 512 megabytes, and that is what the space for the bitmaps is for.

## Main definitions

* `Pool.Manages`: The pages of a pool.
* `unmanaged`: The pages of the memory in no pool.
* `PoolsCover`: Nearly all pages are managed, half by each pool.

## Theorems

* `memPoolInit_pools`: The two pools.
* `pools_cover_iff`: How much memory is managed.
* `pools_miss_half`: 512 megabytes.
-/

namespace ForikOS

/-- The bitmap of the pool has a bit for the page at an address. -/
def Pool.Manages (p : Pool) (addr : Nat) : Prop :=
  p.phyAddrStart.toNat ≤ addr ∧ (addr - p.phyAddrStart.toNat) / 4096 < p.poolBitmap.btmpBytesLen * 8

instance (p : Pool) (addr : Nat) : Decidable (p.Manages addr) :=
  inferInstanceAs (Decidable (_ ∧ _))

/-- The whole pages behind the first two megabytes of `allMem` bytes of memory. -/
def pageCount (allMem : Nat) : Nat := (allMem - 0x200000) / 4096

/-- Those of them that are in no pool. -/
def unmanaged (m : Machine) (allMem : Nat) : Finset Nat :=
  (Finset.range (pageCount allMem)).filter (fun i =>
    ¬ (m.kernelPool.Manages (0x200000 + 4096 * i) ∨ m.userPool.Manages (0x200000 + 4096 * i)))

/-- Fewer than sixteen pages are in no pool, and neither pool has more than
    eight pages more than the other. -/
structure PoolsCover (m : Machine) (allMem : Nat) : Prop where
  few : (unmanaged m allMem).card < 16
  kernel : m.kernelPool.poolBitmap.btmpBytesLen * 8 ≤ m.userPool.poolBitmap.btmpBytesLen * 8 + 8
  user : m.userPool.poolBitmap.btmpBytesLen * 8 ≤ m.kernelPool.poolBitmap.btmpBytesLen * 8 + 8

section Pools

variable {m : Machine} {allMem : Word}

/-- The pages that are counted. -/
theorem allFreePages_toNat (h : 0x200000 ≤ allMem.toNat) :
    (allFreePages allMem).toNat = pageCount allMem.toNat % 65536 := by
  have hsub : (allMem - 0x200000).toNat = allMem.toNat - 0x200000 :=
    BitVec.toNat_sub_of_le (BitVec.le_def.mpr h)
  show (allMem - 0x200000).toNat / 4096 % 2 ^ 16 = _
  rw [hsub]
  rfl

/-- The two pools: where they begin, and how many pages they manage. -/
theorem memPoolInit_pools (m : Machine) (allMem : Word) :
    (memPoolInit m allMem).kernelPool.phyAddrStart.toNat = 0x200000 ∧
      (memPoolInit m allMem).userPool.phyAddrStart.toNat =
        0x200000 + 4096 * ((allFreePages allMem).toNat / 2) ∧
      (memPoolInit m allMem).kernelPool.poolBitmap.btmpBytesLen =
        (allFreePages allMem).toNat / 2 / 8 ∧
      (memPoolInit m allMem).userPool.poolBitmap.btmpBytesLen =
        ((allFreePages allMem).toNat - (allFreePages allMem).toNat / 2) / 8 := by
  have hhalf : (allFreePages allMem / 2).toNat = (allFreePages allMem).toNat / 2 :=
    BitVec.toNat_udiv
  have hrest : (allFreePages allMem - allFreePages allMem / 2).toNat =
      (allFreePages allMem).toNat - (allFreePages allMem).toNat / 2 := by
    rw [BitVec.toNat_sub_of_le (BitVec.le_def.mpr (by rw [hhalf]; omega)), hhalf]
  refine ⟨rfl, ?_, ?_, ?_⟩
  · rw [memPoolInit_userStart, hhalf, Nat.mul_comm]
  · show (allFreePages allMem / 2 / 8).toNat = _
    rw [BitVec.toNat_udiv, hhalf]
    rfl
  · show ((allFreePages allMem - allFreePages allMem / 2) / 8).toNat = _
    rw [BitVec.toNat_udiv, hrest]
    rfl

/-- Page `i` is in no pool if it is behind the managed part of its half. -/
theorem mem_unmanaged (m : Machine) (allMem : Word) (total i : Nat) :
    i ∈ unmanaged (memPoolInit m allMem) total ↔ i < pageCount total ∧
      (allFreePages allMem).toNat / 2 / 8 * 8 ≤ i ∧
      (i < (allFreePages allMem).toNat / 2 ∨ (allFreePages allMem).toNat / 2 +
        ((allFreePages allMem).toNat - (allFreePages allMem).toNat / 2) / 8 * 8 ≤ i) := by
  rcases memPoolInit_pools m allMem with ⟨hk, hu, hkl, hul⟩
  rw [unmanaged, Finset.mem_filter, Finset.mem_range, Pool.Manages, Pool.Manages, hk, hu, hkl, hul]
  omega

theorem unmanaged_few (m : Machine) (allMem : Word) (total : Nat)
    (h : (allFreePages allMem).toNat = pageCount total) :
    (unmanaged (memPoolInit m allMem) total).card < 16 := by
  -- Up to seven pages behind each half.
  have hsub : unmanaged (memPoolInit m allMem) total ⊆
      Finset.Ico ((allFreePages allMem).toNat / 2 / 8 * 8) ((allFreePages allMem).toNat / 2) ∪
        Finset.Ico ((allFreePages allMem).toNat / 2 +
          ((allFreePages allMem).toNat - (allFreePages allMem).toNat / 2) / 8 * 8)
          (pageCount total) := by
    intro i hi
    rw [mem_unmanaged] at hi
    rw [Finset.mem_union, Finset.mem_Ico, Finset.mem_Ico]
    omega
  have hcard := (Finset.card_le_card hsub).trans (Finset.card_union_le _ _)
  rw [Nat.card_Ico, Nat.card_Ico] at hcard
  omega

theorem unmanaged_many (m : Machine) (allMem : Word) (total : Nat)
    (h : (allFreePages allMem).toNat + 65536 ≤ pageCount total) :
    65536 ≤ (unmanaged (memPoolInit m allMem) total).card := by
  have hsub : Finset.Ico (allFreePages allMem).toNat (pageCount total) ⊆
      unmanaged (memPoolInit m allMem) total := by
    intro i hi
    rw [Finset.mem_Ico] at hi
    rw [mem_unmanaged]
    omega
  have hcard := Finset.card_le_card hsub
  rw [Nat.card_Ico] at hcard
  omega

/-- From 4 to 512 megabytes nearly all memory is managed exactly if there are
    less than 258 megabytes. -/
theorem pools_cover_iff (m : Machine) (allMem : Word) (hmin : 0x400000 ≤ allMem.toNat)
    (hmax : allMem.toNat ≤ 0x20000000) :
    PoolsCover (memPoolInit m allMem) allMem.toNat ↔ allMem.toNat < 0x10200000 := by
  have hpages := allFreePages_toNat (by omega : 0x200000 ≤ allMem.toNat)
  rcases memPoolInit_pools m allMem with ⟨-, -, hkl, hul⟩
  have hcount : pageCount allMem.toNat = (allMem.toNat - 0x200000) / 4096 := rfl
  refine ⟨fun h => ?_, fun h => ⟨unmanaged_few m allMem _ (by omega), ?_, ?_⟩⟩
  · by_contra hc
    have hmany := unmanaged_many m allMem allMem.toNat (by omega)
    have hfew := h.few
    omega
  · rw [hkl, hul]
    omega
  · rw [hkl, hul]
    omega

/-- Of 32 megabytes nearly all are managed. -/
theorem pools_cover_iff_32M : PoolsCover (memPoolInit loaderMachine 0x2000000) 0x2000000 :=
  (pools_cover_iff loaderMachine 0x2000000 (by decide) (by decide)).mpr (by decide)

/-- Of 512 megabytes half are in no pool. -/
theorem pools_miss_half : ¬ PoolsCover (memPoolInit loaderMachine 0x20000000) 0x20000000 := by
  have hpages : (allFreePages 0x20000000).toNat = 65024 := by decide
  have hmany := unmanaged_many loaderMachine 0x20000000 0x20000000 (by rw [hpages]; decide)
  exact fun h => absurd h.few (by omega)

end Pools

end ForikOS
