import ForikOS.Core.PoolBits
import ForikOS.Lib.Layout
import ForikOS.Theory.MemPools
import ForikOS.Theory.PoolPages

/-!
# The Pools and Their Bitmaps

What `mem_pool_init` makes of the memory, for any amount of it.

The number of pages is cut to sixteen bits, and each half of it is rounded down
to whole bytes of a bitmap. Both make the pools smaller than the memory, never
larger, so a page of a pool is always a page of the memory, and the pages of
the kernel end where those of the users begin. The sixteen bits also bound the
bitmaps: together they have less than 12287 bytes, and there are 16384 in front
of the PCB of the main thread.

Since the bitmaps are apart from each other, a bit that is written in one of
them is written in no other one. That is why the model of the memory can have
them as three bitmaps.

## Main definitions

* `PoolsFit`, `PoolsSafe`: The pages of the pools.
* `BitmapsSafe`: The bytes of the bitmaps.
* `BitsHeld`: The bytes are the bitmaps of the model.

## Theorems

* `PoolsFit.safe`: Every page is in the memory, and `pfree` finds its bit.
* `pfree_palloc`: A page that is given back at once.
* `memPoolBits_safe`: The bitmaps are apart, in front of the PCB.
* `pool_layout_safe`: Both, for any amount of memory.
* `bitsHeld_init`, `BitsHeld.set`, `BitsHeld.congr`: The bytes are the bitmaps,
  from the start on, after every write of a bit and after every write elsewhere.
-/

namespace ForikOS

/-- Where the pages of a pool end at the latest: those of the kernel where the
    pool of the users begins, and those of the users with the memory. -/
def poolEnd (allMem : Nat) (m : Machine) : PoolFlags → Nat
  | .kernel => m.userPool.phyAddrStart.toNat
  | .user => allMem

/-- The pools lie behind the first two megabytes of the memory, and that of the
    kernel in front of that of the users. -/
structure PoolsFit (allMem : Nat) (m : Machine) : Prop where
  start : ∀ pf, 0x200000 ≤ (m.pool pf).phyAddrStart.toNat
  stop : ∀ pf, (m.pool pf).phyAddrStart.toNat + (m.pool pf).poolBitmap.btmpBytesLen * 8 * 4096 ≤
    poolEnd allMem m pf
  memory : m.userPool.phyAddrStart.toNat ≤ allMem
  word : allMem < 2 ^ 32

/-- Every page that a bit stands for is a page of the memory, no page is in both
    pools, those of the kernel are below the pool of the users, and `pfree` on a
    page clears its bit. -/
structure PoolsSafe (allMem : Nat) (m : Machine) : Prop where
  inside : ∀ pf a, a ∈ (m.pool pf).pages → 0x200000 ≤ a.toNat ∧ a.toNat + 4096 ≤ allMem
  disjoint : Disjoint m.kernelPool.pages m.userPool.pages
  below : ∀ a, a ∈ m.kernelPool.pages → a.toNat + 4096 ≤ m.userPool.phyAddrStart.toNat
  freed : ∀ pf bitIdx, bitIdx < (m.pool pf).poolBitmap.btmpBytesLen * 8 →
    pfree m ((m.pool pf).pageAt bitIdx) = m.setPool { m.pool pf with
      poolBitmap := bitmapSet (m.pool pf).poolBitmap bitIdx false } pf

/-- The addresses of a bitmap. -/
def BitmapAt.area (btmp : BitmapAt) : Area := ⟨btmp.bits.toNat, btmp.btmpBytesLen.toNat⟩

/-- The bitmaps are apart from each other, between `MEM_BITMAP_BASE` and the PCB
    of the main thread. -/
structure BitmapsSafe (btmps : PoolMap → BitmapAt) : Prop where
  disjoint : ∀ t t', t ≠ t' → Disjoint (btmps t).area.cells (btmps t').area.cells
  first : ∀ t, memBitmapBase.toNat ≤ (btmps t).bits.toNat
  last : ∀ t, (btmps t).bits.toNat + (btmps t).btmpBytesLen.toNat ≤ mainThreadPcb.toNat

/-- The bytes at a bitmap are those of a bitmap of the model. -/
structure BitmapAt.Holds (mem : Word → BitVec 8) (btmp : BitmapAt) (b : Bitmap) : Prop where
  bytes : b.btmpBytesLen = btmp.btmpBytesLen.toNat
  bits : ∀ i, i < b.btmpBytesLen → b.bits i = mem (btmp.bits + BitVec.ofNat 32 i)

namespace Machine

/-- A bitmap of the model. -/
def bitmap (m : Machine) : PoolMap → Bitmap
  | .kernelPool => m.kernelPool.poolBitmap
  | .userPool => m.userPool.poolBitmap
  | .kernelVaddr => m.kernelVaddr.vaddrBitmap

/-- Write back a bitmap. -/
def setBitmap (m : Machine) (b : Bitmap) : PoolMap → Machine
  | .kernelPool => m.setPool { m.kernelPool with poolBitmap := b } .kernel
  | .userPool => m.setPool { m.userPool with poolBitmap := b } .user
  | .kernelVaddr => m.setVaddrBitmap b

end Machine

/-- The bytes are the three bitmaps of the model. -/
def BitsHeld (allMem : Word) (mem : Word → BitVec 8) (m : Machine) : Prop :=
  ∀ t, (memPoolBits allMem t).Holds mem (m.bitmap t)

section Pools

variable {m m' : Machine} {allMem : Nat} {pf : PoolFlags} {bitIdx : Nat} {a : Word}

theorem PoolsFit.same (h : PoolsFit allMem m) (hm : SamePools m m') : PoolsFit allMem m' := by
  have huser : m'.userPool.phyAddrStart = m.userPool.phyAddrStart := hm.start .user
  have hend : ∀ pf, poolEnd allMem m' pf = poolEnd allMem m pf := by
    intro pf
    cases pf with
    | kernel => exact congrArg BitVec.toNat huser
    | user => rfl
  refine ⟨fun pf => ?_, fun pf => ?_, huser ▸ h.memory, h.word⟩
  · rw [hm.start]
    exact h.start pf
  · rw [hm.start, hm.bytes, hend]
    exact h.stop pf

theorem PoolsFit.end_le (h : PoolsFit allMem m) (pf : PoolFlags) :
    poolEnd allMem m pf ≤ allMem := by
  cases pf with
  | kernel => exact h.memory
  | user => exact Nat.le_refl _

theorem PoolsFit.toNat_pageAt (h : PoolsFit allMem m)
    (hbit : bitIdx < (m.pool pf).poolBitmap.btmpBytesLen * 8) :
    ((m.pool pf).pageAt bitIdx).toNat = (m.pool pf).phyAddrStart.toNat + bitIdx * 4096 := by
  have hstop := h.stop pf
  have hend := h.end_le pf
  have hword := h.word
  exact Pool.toNat_pageAt (by omega)

/-- A page of a pool is between the ends of the pool. -/
theorem PoolsFit.bounds (h : PoolsFit allMem m) (ha : a ∈ (m.pool pf).pages) :
    (m.pool pf).phyAddrStart.toNat ≤ a.toNat ∧ a.toNat + 4096 ≤ poolEnd allMem m pf := by
  rcases ha with ⟨bitIdx, hbit, rfl⟩
  have hstop := h.stop pf
  rw [h.toNat_pageAt hbit]
  omega

/-- The address of a page tells which pool it is from. -/
theorem PoolsFit.user_le_iff (h : PoolsFit allMem m) (ha : a ∈ (m.pool pf).pages) :
    m.userPool.phyAddrStart ≤ a ↔ pf = .user := by
  have hbounds := h.bounds ha
  rw [BitVec.le_def]
  cases pf with
  | kernel =>
      have hbelow : a.toNat + 4096 ≤ m.userPool.phyAddrStart.toNat := hbounds.2
      exact iff_of_false (by omega) (by decide)
  | user => exact iff_of_true hbounds.1 rfl

theorem PoolsFit.safe (h : PoolsFit allMem m) : PoolsSafe allMem m := by
  have hbelow : ∀ a, a ∈ m.kernelPool.pages → a.toNat + 4096 ≤ m.userPool.phyAddrStart.toNat :=
    fun a ha => (@PoolsFit.bounds _ _ .kernel _ h ha).2
  refine ⟨fun pf a ha => ?_, ?_, hbelow, fun pf bitIdx hbit => ?_⟩
  · have hbounds := h.bounds ha
    exact ⟨(h.start pf).trans hbounds.1, hbounds.2.trans (h.end_le pf)⟩
  · rw [Set.disjoint_left]
    intro a hk hu
    have hkernel := hbelow a hk
    have huser : m.userPool.phyAddrStart.toNat ≤ a.toNat := (@PoolsFit.bounds _ _ .user _ h hu).1
    omega
  · -- `pfree` looks at the address of the page and at nothing else.
    refine pfree_pageAt ?_ (h.user_le_iff ⟨bitIdx, hbit, rfl⟩)
    rw [← h.toNat_pageAt hbit]
    exact ((m.pool pf).pageAt bitIdx).isLt

/-- A page that is given back at once: the machine is as before. -/
theorem pfree_palloc (h : PoolsFit allMem m) {p : Pool} {a : Word}
    (hp : palloc (m.pool pf) = .ok (p, a)) : pfree (m.setPool p pf) a = m := by
  rcases palloc_page hp with ⟨bitIdx, hbit, hclear, rfl, rfl⟩
  -- Only a bit has been written since, so the page is still the one of `bitIdx`.
  have hsame := SamePools.setBit m pf bitIdx true
  have hfreed := (h.same hsame).safe.freed pf bitIdx (by rw [hsame.bytes]; exact hbit)
  rw [hsame.pageAt] at hfreed
  rw [hfreed]
  cases pf with
  | kernel =>
      dsimp only [Machine.setPool, Machine.pool] at hclear ⊢
      rw [bitmapSet_undo hclear]
  | user =>
      dsimp only [Machine.setPool, Machine.pool] at hclear ⊢
      rw [bitmapSet_undo hclear]

/-- `mem_pool_init` on at least two megabytes. -/
theorem memPoolInit_fit (m : Machine) {allMem : Word} (hmin : 0x200000 ≤ allMem.toNat) :
    PoolsFit allMem.toNat (memPoolInit m allMem) := by
  rcases memPoolInit_pools m allMem with ⟨hk, hu, hkl, hul⟩
  have hpages := allFreePages_toNat hmin
  have hcount : pageCount allMem.toNat = (allMem.toNat - 0x200000) / 4096 := rfl
  have hmul : allMem.toNat < 2 ^ 32 := allMem.isLt
  refine ⟨fun pf => ?_, fun pf => ?_, ?_, hmul⟩
  · cases pf with
    | kernel => exact hk.ge
    | user => exact hu.ge.trans' (Nat.le_add_right _ _)
  · cases pf with
    | kernel =>
        show (memPoolInit m allMem).kernelPool.phyAddrStart.toNat +
          (memPoolInit m allMem).kernelPool.poolBitmap.btmpBytesLen * 8 * 4096 ≤
          (memPoolInit m allMem).userPool.phyAddrStart.toNat
        rw [hk, hkl, hu]
        omega
    | user =>
        show (memPoolInit m allMem).userPool.phyAddrStart.toNat +
          (memPoolInit m allMem).userPool.poolBitmap.btmpBytesLen * 8 * 4096 ≤ allMem.toNat
        rw [hu, hul]
        omega
  · rw [hu]
    omega

end Pools

section Bitmaps

variable {mem mem' : Word → BitVec 8} {allMem : Word} {btmp : BitmapAt} {b : Bitmap}

/-- A length that has been computed in sixteen bits. -/
theorem toNat_wide (x : BitVec 16) : (x.setWidth 32).toNat = x.toNat := by
  rw [BitVec.toNat_setWidth]
  exact Nat.mod_eq_of_lt (x.isLt.trans (by decide))

/-- The lengths are those of the pools. -/
theorem memPoolBits_bytes (m : Machine) (allMem : Word) (t : PoolMap) :
    (memPoolBits allMem t).btmpBytesLen.toNat = ((memPoolInit m allMem).bitmap t).btmpBytesLen := by
  cases t with
  | kernelPool => exact toNat_wide _
  | userPool => exact toNat_wide _
  | kernelVaddr => exact toNat_wide _

/-- The bitmaps follow each other, and there is room for the largest ones. -/
theorem memPoolBits_consecutive (allMem : Word) :
    ∃ stop, stop ≤ mainThreadPcb.toNat ∧ Consecutive memBitmapBase.toNat
      [(memPoolBits allMem .kernelPool).area, (memPoolBits allMem .userPool).area,
        (memPoolBits allMem .kernelVaddr).area] stop := by
  have hbase : memBitmapBase.toNat = 0xc009a000 := rfl
  have hpcb : mainThreadPcb.toNat = 0xc009e000 := rfl
  have hpages := (allFreePages allMem).isLt
  rcases memPoolInit_pools loaderMachine allMem with ⟨-, -, hkl, hul⟩
  -- What the sixteen bits leave of the lengths.
  obtain ⟨k, hk⟩ : ∃ k, k = (memPoolBits allMem .kernelPool).btmpBytesLen := ⟨_, rfl⟩
  obtain ⟨u, hu⟩ : ∃ u, u = (memPoolBits allMem .userPool).btmpBytesLen := ⟨_, rfl⟩
  have hkernel : k.toNat ≤ 4095 := by
    rw [hk, memPoolBits_bytes loaderMachine]
    show (memPoolInit loaderMachine allMem).kernelPool.poolBitmap.btmpBytesLen ≤ 4095
    omega
  have huser : u.toNat ≤ 4096 := by
    rw [hu, memPoolBits_bytes loaderMachine]
    show (memPoolInit loaderMachine allMem).userPool.poolBitmap.btmpBytesLen ≤ 4096
    omega
  have hadd : (memBitmapBase + k).toNat = memBitmapBase.toNat + k.toNat := by
    rw [BitVec.toNat_add, hbase]
    omega
  have hadd' : (memBitmapBase + k + u).toNat = memBitmapBase.toNat + k.toNat + u.toNat := by
    rw [BitVec.toNat_add, hadd, hbase]
    omega
  have hfirst : (memPoolBits allMem .kernelPool).area = ⟨memBitmapBase.toNat, k.toNat⟩ := by
    rw [hk]
    rfl
  have hsecond : (memPoolBits allMem .userPool).area = ⟨(memBitmapBase + k).toNat, u.toNat⟩ := by
    rw [hk, hu]
    rfl
  have hthird : (memPoolBits allMem .kernelVaddr).area =
      ⟨(memBitmapBase + k + u).toNat, k.toNat⟩ := by
    rw [hk, hu]
    rfl
  refine ⟨memBitmapBase.toNat + k.toNat + u.toNat + k.toNat, ?_, ?_⟩
  · rw [hpcb, hbase]
    omega
  · rw [hfirst, hsecond, hthird, hadd, hadd']
    exact ⟨rfl, rfl, rfl, rfl⟩

/-- The bitmaps are apart, in front of the PCB. -/
theorem memPoolBits_safe (allMem : Word) : BitmapsSafe (memPoolBits allMem) := by
  rcases memPoolBits_consecutive allMem with ⟨stop, hstop, hareas⟩
  have hmem : ∀ t, (memPoolBits allMem t).area ∈
      [(memPoolBits allMem .kernelPool).area, (memPoolBits allMem .userPool).area,
        (memPoolBits allMem .kernelVaddr).area] := by
    intro t
    cases t <;> simp only [List.mem_cons, true_or, or_true]
  have hpairs := hareas.disjoint
  simp only [List.pairwise_cons, List.mem_cons, List.not_mem_nil, or_false, forall_eq_or_imp,
    forall_eq] at hpairs
  rcases hpairs with ⟨⟨hku, hkv⟩, huv, -⟩
  refine ⟨fun t t' hne => ?_, fun t => (hareas.bounds (hmem t)).1,
    fun t => (hareas.bounds (hmem t)).2.trans hstop⟩
  -- The areas follow one another, so two of them are apart in the one order or the other.
  cases t with
  | kernelPool =>
      cases t' with
      | kernelPool => exact absurd rfl hne
      | userPool => exact hku
      | kernelVaddr => exact hkv
  | userPool =>
      cases t' with
      | kernelPool => exact hku.symm
      | userPool => exact absurd rfl hne
      | kernelVaddr => exact huv
  | kernelVaddr =>
      cases t' with
      | kernelPool => exact hkv.symm
      | userPool => exact huv.symm
      | kernelVaddr => exact absurd rfl hne

/-- The pools and the bitmaps are laid out safely for any amount of memory from
    two megabytes on, also when bits of the pools have been written. -/
theorem pool_layout_safe (allMem : Word) (hmin : 0x200000 ≤ allMem.toNat) (m m' : Machine)
    (hm : SamePools (memPoolInit m allMem) m') :
    PoolsSafe allMem.toNat m' ∧ BitmapsSafe (memPoolBits allMem) :=
  ⟨((memPoolInit_fit m hmin).same hm).safe, memPoolBits_safe allMem⟩

/-- All the memory that can be addressed. -/
theorem pool_layout_safe_all :
    PoolsSafe (0xffffffff : Word).toNat (memPoolInit loaderMachine 0xffffffff) ∧
      BitmapsSafe (memPoolBits 0xffffffff) :=
  pool_layout_safe 0xffffffff (by decide) loaderMachine (memPoolInit loaderMachine 0xffffffff)
    (SamePools.refl _)

/-- A byte of a bitmap that does not go beyond the addresses. -/
theorem toNat_byte (hfits : btmp.bits.toNat + btmp.btmpBytesLen.toNat < 2 ^ 32) {i : Nat}
    (hi : i < btmp.btmpBytesLen.toNat) :
    (btmp.bits + BitVec.ofNat 32 i).toNat = btmp.bits.toNat + i := by
  rw [BitVec.toNat_add, BitVec.toNat_ofNat, Nat.mod_eq_of_lt (by omega : i < 2 ^ 32)]
  exact Nat.mod_eq_of_lt (by omega)

theorem byte_mem_cells (hfits : btmp.bits.toNat + btmp.btmpBytesLen.toNat < 2 ^ 32) {i : Nat}
    (hi : i < btmp.btmpBytesLen.toNat) :
    (btmp.bits + BitVec.ofNat 32 i).toNat ∈ btmp.area.cells := by
  rw [toNat_byte hfits hi]
  exact ⟨Nat.le_add_right _ _, Nat.add_lt_add_left hi _⟩

/-- A bitmap depends on its own bytes only. -/
theorem BitmapAt.Holds.congr (h : btmp.Holds mem b)
    (hfits : btmp.bits.toNat + btmp.btmpBytesLen.toNat < 2 ^ 32)
    (heq : ∀ a : Word, a.toNat ∈ btmp.area.cells → mem' a = mem a) : btmp.Holds mem' b := by
  refine ⟨h.bytes, fun i hi => ?_⟩
  rw [h.bits i hi, heq _ (byte_mem_cells hfits (h.bytes ▸ hi))]

/-- The bytes that `memset` writes. -/
theorem memsetAt_eq (dst : Word) (value : BitVec 8) {size : Nat} (hsize : size < 2 ^ 32)
    (mem : Word → BitVec 8) (a : Word) :
    memsetAt dst value size mem a = if (a - dst).toNat < size then value else mem a := by
  -- The addresses wrap around: what counts is how far `a` is behind `dst`.
  induction size generalizing dst mem with
  | zero => exact (if_neg (Nat.not_lt_zero _)).symm
  | succ size ih =>
      have hdst := dst.isLt
      have ha := a.isLt
      have hone : (1 : Word).toNat = 1 := rfl
      rw [memsetAt, ih (dst + 1) (by omega), BitVec.toNat_sub, BitVec.toNat_sub, BitVec.toNat_add,
        hone]
      by_cases heq : a = dst
      · rw [heq, Function.update_self, if_pos (by omega : _ < size + 1), ite_self]
      · have hne : a.toNat ≠ dst.toNat := fun hc => heq (BitVec.eq_of_toNat_eq hc)
        rw [Function.update_of_ne heq]
        by_cases hin : (2 ^ 32 - dst.toNat + a.toNat) % 2 ^ 32 < size + 1
        · rw [if_pos hin, if_pos (by omega)]
        · rw [if_neg hin, if_neg (by omega)]

/-- The bytes of a bitmap are zero after `bitmap_init`, and no others are
    written. -/
theorem bitmapInitAt_eq (hfits : btmp.bits.toNat + btmp.btmpBytesLen.toNat < 2 ^ 32)
    (mem : Word → BitVec 8) (a : Word) :
    (a.toNat ∈ btmp.area.cells → bitmapInitAt mem btmp a = 0) ∧
      (a.toNat ∉ btmp.area.cells → bitmapInitAt mem btmp a = mem a) := by
  have hiff : (a - btmp.bits).toNat < btmp.btmpBytesLen.toNat ↔ a.toNat ∈ btmp.area.cells := by
    have ha := a.isLt
    have hcells : a.toNat ∈ btmp.area.cells ↔ btmp.bits.toNat ≤ a.toNat ∧
      a.toNat < btmp.bits.toNat + btmp.btmpBytesLen.toNat := Iff.rfl
    rw [BitVec.toNat_sub, hcells]
    omega
  rw [bitmapInitAt, memsetAt_eq _ _ btmp.btmpBytesLen.isLt]
  exact ⟨fun hin => if_pos (hiff.mpr hin), fun hout => if_neg (fun hc => hout (hiff.mp hc))⟩

/-- A bit is written in the bytes as it is in the bitmap. -/
theorem BitmapAt.Holds.set (h : btmp.Holds mem b)
    (hfits : btmp.bits.toNat + btmp.btmpBytesLen.toNat < 2 ^ 32) {bitIdx : Nat}
    (hbit : bitIdx < b.btmpBytesLen * 8) (value : Bool) :
    btmp.Holds (bitmapSetAt mem btmp bitIdx value) (bitmapSet b bitIdx value) := by
  have hlt : bitIdx / 8 < b.btmpBytesLen := by omega
  refine ⟨h.bytes, fun i hi => ?_⟩
  rw [bitmapSet_len] at hi
  have hbyte := h.bits (bitIdx / 8) hlt
  by_cases heq : i = bitIdx / 8
  · rw [heq]
    dsimp only [bitmapSet, bitmapSetAt]
    rw [Function.update_self, Function.update_self, hbyte]
  · have hne : btmp.bits + BitVec.ofNat 32 i ≠ btmp.bits + BitVec.ofNat 32 (bitIdx / 8) := by
      intro hc
      have hnat := congrArg BitVec.toNat hc
      rw [toNat_byte hfits (h.bytes ▸ hi), toNat_byte hfits (h.bytes ▸ hlt)] at hnat
      omega
    dsimp only [bitmapSet, bitmapSetAt]
    rw [Function.update_of_ne heq, Function.update_of_ne hne, h.bits i hi]

theorem memPoolBits_fits (allMem : Word) (t : PoolMap) :
    (memPoolBits allMem t).bits.toNat + (memPoolBits allMem t).btmpBytesLen.toNat < 2 ^ 32 :=
  ((memPoolBits_safe allMem).last t).trans_lt (by decide)

/-- `mem_pool_init` clears the bytes of all three bitmaps. -/
theorem bitsHeld_init (m : Machine) (mem : Word → BitVec 8) (allMem : Word) :
    BitsHeld allMem (memPoolInitAt mem allMem) (memPoolInit m allMem) := by
  have hinit := fun t mem a => bitmapInitAt_eq (memPoolBits_fits allMem t) mem a
  -- A byte that has been cleared is not written again, or cleared again.
  have hzero : ∀ t (a : Word), a.toNat ∈ (memPoolBits allMem t).area.cells →
      memPoolInitAt mem allMem a = 0 := by
    intro t a ha
    have hapart := fun t' hne =>
      Set.disjoint_left.mp ((memPoolBits_safe allMem).disjoint t t' hne) ha
    unfold memPoolInitAt
    cases t with
    | kernelPool =>
        rw [(hinit .kernelVaddr _ a).2 (hapart _ (by decide)),
          (hinit .userPool _ a).2 (hapart _ (by decide)), (hinit .kernelPool _ a).1 ha]
    | userPool =>
        rw [(hinit .kernelVaddr _ a).2 (hapart _ (by decide)), (hinit .userPool _ a).1 ha]
    | kernelVaddr => exact (hinit .kernelVaddr _ a).1 ha
  intro t
  refine ⟨(memPoolBits_bytes m allMem t).symm, fun i hi => ?_⟩
  have hlt : i < (memPoolBits allMem t).btmpBytesLen.toNat := by
    rw [memPoolBits_bytes m]
    exact hi
  have hbit : ((memPoolInit m allMem).bitmap t).bits i = 0 := by
    cases t with
    | kernelPool => exact if_pos hi
    | userPool => exact if_pos hi
    | kernelVaddr => exact if_pos hi
  rw [hbit, hzero t _ (byte_mem_cells (memPoolBits_fits allMem t) hlt)]

theorem bitmap_setBitmap (m : Machine) (b : Bitmap) (t t' : PoolMap) :
    (m.setBitmap b t).bitmap t' = if t' = t then b else m.bitmap t' := by
  cases t <;> cases t' <;> rfl

/-- A bit that is written in the bytes of one bitmap changes no other bitmap. -/
theorem BitsHeld.set {m : Machine} (h : BitsHeld allMem mem m) (t : PoolMap) {bitIdx : Nat}
    (hbit : bitIdx < (m.bitmap t).btmpBytesLen * 8) (value : Bool) :
    BitsHeld allMem (bitmapSetAt mem (memPoolBits allMem t) bitIdx value)
      (m.setBitmap (bitmapSet (m.bitmap t) bitIdx value) t) := by
  intro t'
  rw [bitmap_setBitmap]
  by_cases heq : t' = t
  · rw [if_pos heq, heq]
    exact (h t).set (memPoolBits_fits allMem t) hbit value
  · rw [if_neg heq]
    -- The byte is one of the other bitmap, which is apart from this one.
    refine (h t').congr (memPoolBits_fits allMem t') (fun a ha => ?_)
    refine Function.update_of_ne (fun hc => ?_) _ _
    have hlt : bitIdx / 8 < (memPoolBits allMem t).btmpBytesLen.toNat := by
      rw [← (h t).bytes]
      omega
    refine Set.disjoint_left.mp ((memPoolBits_safe allMem).disjoint t' t heq) ha ?_
    rw [hc]
    exact byte_mem_cells (memPoolBits_fits allMem t) hlt

/-- Writes to other memory, such as the stack and the PCB of the main thread,
    leave the bitmaps alone. -/
theorem BitsHeld.congr {m : Machine} (h : BitsHeld allMem mem m)
    (heq : ∀ a : Word, memBitmapBase ≤ a → a < mainThreadPcb → mem' a = mem a) :
    BitsHeld allMem mem' m := by
  intro t
  have hsafe := memPoolBits_safe allMem
  refine (h t).congr (memPoolBits_fits allMem t) (fun a ha => heq a ?_ ?_)
  · exact BitVec.le_def.mpr ((hsafe.first t).trans ha.1)
  · exact BitVec.lt_def.mpr (ha.2.trans_le (hsafe.last t))

end Bitmaps

end ForikOS
