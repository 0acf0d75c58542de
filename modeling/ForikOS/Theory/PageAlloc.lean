import ForikOS.Theory.Paging
import ForikOS.Theory.PoolPages
import Mathlib.Data.List.Pairwise

/-!
# The Kernel Page Allocator

`malloc_page` and `mfree_page` keep three structures in step: the bitmap of
kernel addresses, the bitmap of kernel frames, and the kernel's part of the
page tables. This module says so for runs of any length.

The kernel half of every page directory points to the same 255 page tables,
which `loader.asm` puts right behind the directory and which belong to no
pool. `KernelHalf` is that layout, and it makes the entry for a kernel page a
fixed word of physical memory, `kernelPte`, whichever directory is active.

An allocation or a release only writes such words and the two bitmaps.
`KernelFrame` says what stays the same, so that a caller which has pages of
its own elsewhere loses nothing.

Freeing reads each frame out of the entry it is about to clear. The entries
are still what allocation wrote because no two pages share a frame, which is
part of the invariant.

## Main definitions

* `KernelHalf`: The kernel half of the active page directory.
* `PoolLayout`: Where the pools and the kernel addresses lie.
* `pageAddr`, `kernelPte`: A page of the kernel heap and its entry.
* `KernelFrame`: What the allocator does not touch.
* `Granted`: What the loop of `malloc_page` has done.
* `KernelMap`: The invariant.
* `pageSystem`: Runs of allocations and releases.

## Theorems

* `mallocLoop_granted`: Each page gets a frame that was free.
* `mfreeLoop_spec`: Each page loses its frame.
* `kernel_page_allocator`: The invariant and the round trip in every run.
-/

namespace ForikOS

/-- The kernel half of the active page directory, as `loader.asm` sets it up:
    the tables at frame `0x101` on, and the directory itself last. -/
structure KernelHalf (m : Machine) : Prop where
  self : SelfMap m
  table : ∀ d, 768 ≤ d → d < 1023 →
    isPresent (m.phys m.cr3 d) = true ∧ frameOf (m.phys m.cr3 d) = 0x101 + (d - 768)
  cr3_ne : m.cr3 < 0x101 ∨ 0x200 ≤ m.cr3

/-- The kernel half is the last quarter of the directory. -/
theorem KernelHalf.ofDir {m m' : Machine} (h : KernelHalf m) (hcr3 : m'.cr3 = m.cr3)
    (hdir : ∀ e, 768 ≤ e → m'.phys m.cr3 e = m.phys m.cr3 e) : KernelHalf m' := by
  refine ⟨⟨?_, ?_⟩, ?_, ?_⟩
  · rw [hcr3, hdir 1023 (by omega)]
    exact h.self.present
  · rw [hcr3, hdir 1023 (by omega)]
    exact h.self.frame
  · intro d h1 h2
    rw [hcr3, hdir d h1]
    exact h.table d h1 h2
  · rw [hcr3]
    exact h.cr3_ne

/-- The pools lie behind the page tables, the kernel's first, and the kernel
    addresses start where they do in the source. -/
structure PoolLayout (m : Machine) : Prop where
  kp_start : m.kernelPool.phyAddrStart = 0x200000
  kp_end : 0x200000 + m.kernelPool.poolBitmap.btmpBytesLen * 8 * 4096
    ≤ m.userPool.phyAddrStart.toNat
  vaddr_start : m.kernelVaddr.vaddrStart = kHeapStart
  vaddr_len : m.kernelVaddr.vaddrBitmap.btmpBytesLen * 8 ≤ 32768

/-- The address of page `i` of the kernel heap. -/
def pageAddr (i : Nat) : Word := kHeapStart + BitVec.ofNat 32 i * pgSize

/-- The page table and the word in it for page `i` of the kernel heap. -/
def pteFrame (i : Nat) : Nat := 0x101 + (256 + i) / 1024

/-- The entry for page `i` of the kernel heap. -/
def kernelPte (m : Machine) (i : Nat) : Word := m.phys (pteFrame i) ((256 + i) % 1024)

/-- The entries lie in the page tables of the kernel. -/
theorem kernelPte_congr {m m' : Machine}
    (h : ∀ f, 0x101 ≤ f → f < 0x200 → m'.phys f = m.phys f) {i : Nat} (hi : i ≤ 32768) :
    kernelPte m' i = kernelPte m i := by
  unfold kernelPte
  rw [h (pteFrame i) (by unfold pteFrame; omega) (by unfold pteFrame; omega)]

/-- Write the entry for page `i` of the kernel heap. -/
def setKernelPte (m : Machine) (i : Nat) (e : Word) : Machine :=
  m.setWord (pteFrame i) ((256 + i) % 1024) e

/-- The physical address of frame `j` of the kernel pool. -/
def kernelFrame (j : Nat) : Word := BitVec.ofNat 32 j * pgSize + 0x200000

/-- The frames the pages of the kernel heap can be mapped to. -/
def kernelFrames (m : Machine) : Nat := m.kernelPool.poolBitmap.btmpBytesLen * 8

/-- The pages of the kernel heap. -/
def kernelPages (m : Machine) : Nat := m.kernelVaddr.vaddrBitmap.btmpBytesLen * 8

theorem toNat_pageAddr {i : Nat} (hi : i ≤ 32768) :
    (pageAddr i).toNat = 0xc0100000 + i * 4096 := by
  have hbase : kHeapStart.toNat = 0xc0100000 := rfl
  rw [pageAddr, BitVec.toNat_add, hbase, toNat_mul_pgSize (by omega)]
  omega

theorem pageAddr_succ {i : Nat} (hi : i < 32768) : pageAddr i + pgSize = pageAddr (i + 1) := by
  have hs : pgSize.toNat = 4096 := rfl
  apply BitVec.eq_of_toNat_eq
  rw [BitVec.toNat_add, toNat_pageAddr (by omega), toNat_pageAddr (by omega), hs]
  omega

theorem pdeIdx_pageAddr {i : Nat} (hi : i ≤ 32768) :
    pdeIdx (pageAddr i) = 768 + (256 + i) / 1024 := by
  rw [pdeIdx_eq, toNat_pageAddr hi]
  omega

theorem pteIdx_pageAddr {i : Nat} (hi : i ≤ 32768) :
    pteIdx (pageAddr i) = (256 + i) % 1024 := by
  rw [pteIdx_eq, toNat_pageAddr hi]
  omega

theorem toNat_kernelFrame {j : Nat} (hj : 0x200000 + j * 4096 < 2 ^ 32) :
    (kernelFrame j).toNat = 0x200000 + j * 4096 := by
  have hbase : (0x200000 : Word).toNat = 0x200000 := rfl
  rw [kernelFrame, BitVec.toNat_add, hbase, toNat_mul_pgSize (by omega)]
  omega

theorem PoolLayout.frame_lt {m : Machine} (h : PoolLayout m) {j : Nat} (hj : j < kernelFrames m) :
    0x200000 + j * 4096 + 4096 ≤ m.userPool.phyAddrStart.toNat := by
  have hend := h.kp_end
  unfold kernelFrames at hj
  omega

theorem PoolLayout.toNat_frame {m : Machine} (h : PoolLayout m) {j : Nat}
    (hj : j < kernelFrames m) : (kernelFrame j).toNat = 0x200000 + j * 4096 := by
  have hlt := h.frame_lt hj
  have hup := m.userPool.phyAddrStart.isLt
  exact toNat_kernelFrame (by omega)

theorem load_kernelPte {m : Machine} (h : KernelHalf m) {i : Nat} (hi : i ≤ 32768) :
    load m (ptePtr (pageAddr i)) = .ok (kernelPte m i) := by
  have hd := pdeIdx_pageAddr hi
  have ht := h.table (768 + (256 + i) / 1024) (by omega) (by omega)
  rw [load_ptePtr h.self (by rw [hd]; exact ht.1), hd, ht.2, pteIdx_pageAddr hi, kernelPte, pteFrame,
    show 768 + (256 + i) / 1024 - 768 = (256 + i) / 1024 by omega]

theorem store_kernelPte {m : Machine} (h : KernelHalf m) {i : Nat} (hi : i ≤ 32768) (w : Word) :
    store m (ptePtr (pageAddr i)) w = .ok (setKernelPte m i w) := by
  have hd := pdeIdx_pageAddr hi
  have ht := h.table (768 + (256 + i) / 1024) (by omega) (by omega)
  rw [store_ptePtr h.self w (by rw [hd]; exact ht.1), hd, ht.2, pteIdx_pageAddr hi, setKernelPte,
    pteFrame, show 768 + (256 + i) / 1024 - 768 = (256 + i) / 1024 by omega]

@[simp] theorem kernelPte_setKernelPte_self (m : Machine) (i : Nat) (e : Word) :
    kernelPte (setKernelPte m i e) i = e :=
  setWord_phys_self _ _ _ _

theorem kernelPte_setKernelPte_of_ne {m : Machine} {i k : Nat} (e : Word) (h : k ≠ i) :
    kernelPte (setKernelPte m i e) k = kernelPte m k := by
  refine setWord_phys_of_ne e ?_
  unfold pteFrame
  omega

/-- What the allocator does not touch: everything but the kernel's page tables
    and the two bitmaps of the kernel. -/
structure KernelFrame (m m' : Machine) : Prop where
  cr3 : m'.cr3 = m.cr3
  cur : m'.cur = m.cur
  userPool : m'.userPool = m.userPool
  kp_start : m'.kernelPool.phyAddrStart = m.kernelPool.phyAddrStart
  kp_size : m'.kernelPool.poolSize = m.kernelPool.poolSize
  kp_len : m'.kernelPool.poolBitmap.btmpBytesLen = m.kernelPool.poolBitmap.btmpBytesLen
  vaddr_start : m'.kernelVaddr.vaddrStart = m.kernelVaddr.vaddrStart
  vaddr_len : m'.kernelVaddr.vaddrBitmap.btmpBytesLen = m.kernelVaddr.vaddrBitmap.btmpBytesLen
  phys : ∀ f, f < 0x101 ∨ 0x200 ≤ f → m'.phys f = m.phys f

namespace KernelFrame

variable {m m' m'' : Machine}

theorem refl (m : Machine) : KernelFrame m m :=
  ⟨rfl, rfl, rfl, rfl, rfl, rfl, rfl, rfl, fun _ _ => rfl⟩

theorem trans (h : KernelFrame m m') (h' : KernelFrame m' m'') : KernelFrame m m'' :=
  ⟨h'.cr3.trans h.cr3, h'.cur.trans h.cur, h'.userPool.trans h.userPool,
    h'.kp_start.trans h.kp_start, h'.kp_size.trans h.kp_size, h'.kp_len.trans h.kp_len,
    h'.vaddr_start.trans h.vaddr_start, h'.vaddr_len.trans h.vaddr_len,
    fun f hf => (h'.phys f hf).trans (h.phys f hf)⟩

theorem kernelHalf (h : KernelFrame m m') (hk : KernelHalf m) : KernelHalf m' := by
  refine hk.ofDir h.cr3 (fun e _ => ?_)
  rw [h.phys m.cr3 hk.cr3_ne]

theorem layout (h : KernelFrame m m') (hl : PoolLayout m) : PoolLayout m' := by
  refine ⟨h.kp_start.trans hl.kp_start, ?_, h.vaddr_start.trans hl.vaddr_start, ?_⟩
  · rw [h.kp_len, h.userPool]
    exact hl.kp_end
  · rw [h.vaddr_len]
    exact hl.vaddr_len

theorem frames (h : KernelFrame m m') : kernelFrames m' = kernelFrames m := by
  rw [kernelFrames, h.kp_len, kernelFrames]

theorem pages (h : KernelFrame m m') : kernelPages m' = kernelPages m := by
  rw [kernelPages, h.vaddr_len, kernelPages]

end KernelFrame

theorem kernelFrame_setKernelPte (m : Machine) {i : Nat} (hi : i ≤ 32768) (e : Word) :
    KernelFrame m (setKernelPte m i e) := by
  refine ⟨rfl, rfl, rfl, rfl, rfl, rfl, rfl, rfl, ?_⟩
  intro f hf
  have hne : f ≠ pteFrame i := by
    unfold pteFrame
    omega
  exact Function.update_of_ne hne _ _

theorem kernelFrame_setPool (m : Machine) (b : Bitmap)
    (hb : b.btmpBytesLen = m.kernelPool.poolBitmap.btmpBytesLen) :
    KernelFrame m (m.setPool { m.kernelPool with poolBitmap := b } .kernel) :=
  ⟨rfl, rfl, rfl, rfl, rfl, hb, rfl, rfl, fun _ _ => rfl⟩

/-- A pool with a clear bit gives the frame of the first one. -/
theorem palloc_free {p : Pool} (h : 0 < freeCount p.poolBitmap) :
    ∃ j, j < p.poolBitmap.btmpBytesLen * 8 ∧ bitmapScanTest p.poolBitmap j = false ∧
      palloc p = .ok ({ p with poolBitmap := bitmapSet p.poolBitmap j true },
        BitVec.ofNat 32 j * pgSize + p.phyAddrStart) := by
  rcases exists_clear h with ⟨s, hs, hclear⟩
  have hfree : FreeRun p.poolBitmap 1 s := by
    refine ⟨by omega, fun i h1 h2 => ?_⟩
    rw [show i = s by omega]
    exact hclear
  rcases bitmapScan_fit (Nat.le_refl 1) hfree with ⟨j, hj, hrun, _⟩
  refine ⟨j, by have := hrun.1; omega, hrun.2 j (by omega) (by omega), ?_⟩
  simp only [palloc, hj, bind, Except.bind]

/-- On a kernel page `page_table_add` writes one entry. -/
theorem pageTableAdd_kernel {m : Machine} (h : KernelHalf m) {i : Nat} (hi : i ≤ 32768)
    (habs : isPresent (kernelPte m i) = false) (phy : Word) :
    pageTableAdd m (pageAddr i) phy = .ok (setKernelPte m i (entryFor phy)) := by
  have hd := pdeIdx_pageAddr hi
  have ht := h.table (768 + (256 + i) / 1024) (by omega) (by omega)
  simp only [pageTableAdd, load_pdePtr h.self, hd, ht.1, if_true, load_kernelPte h hi, ensure, habs,
    store_kernelPte h hi, bind, Except.bind]

/-- What the loop of `malloc_page` has done for `n` pages from `i₀` on: page
    `i` is mapped to frame `fr i` of the pool, which was free. -/
structure Granted (m m' : Machine) (i₀ n : Nat) (fr : Nat → Nat) : Prop where
  frame : KernelFrame m m'
  vaddr : m'.kernelVaddr = m.kernelVaddr
  other : ∀ i, ¬ (i₀ ≤ i ∧ i < i₀ + n) → kernelPte m' i = kernelPte m i
  page : ∀ i, i₀ ≤ i → i < i₀ + n → fr i < kernelFrames m ∧
    kernelPte m' i = entryFor (kernelFrame (fr i)) ∧
    bitmapScanTest m.kernelPool.poolBitmap (fr i) = false
  bits : ∀ j, bitmapScanTest m'.kernelPool.poolBitmap j = true ↔
    bitmapScanTest m.kernelPool.poolBitmap j = true ∨ ∃ i, i₀ ≤ i ∧ i < i₀ + n ∧ fr i = j
  inj : ∀ i k, i₀ ≤ i → i < i₀ + n → i₀ ≤ k → k < i₀ + n → fr i = fr k → i = k
  count : freeCount m'.kernelPool.poolBitmap + n = freeCount m.kernelPool.poolBitmap

/-- One round of the loop. -/
theorem mallocLoop_step {m : Machine} (hk : KernelHalf m) (hl : PoolLayout m) {i₀ : Nat}
    (hi : i₀ < 32768) (habs : isPresent (kernelPte m i₀) = false)
    (hfree : 0 < freeCount m.kernelPool.poolBitmap) :
    ∃ m₁ j, (∀ n, mallocLoop .kernel (n + 1) m (pageAddr i₀)
        = mallocLoop .kernel n m₁ (pageAddr (i₀ + 1))) ∧
      KernelFrame m m₁ ∧ m₁.kernelVaddr = m.kernelVaddr ∧ j < kernelFrames m ∧
      bitmapScanTest m.kernelPool.poolBitmap j = false ∧
      m₁.kernelPool.poolBitmap = bitmapSet m.kernelPool.poolBitmap j true ∧
      kernelPte m₁ i₀ = entryFor (kernelFrame j) ∧
      ∀ i, i ≠ i₀ → kernelPte m₁ i = kernelPte m i := by
  rcases palloc_free hfree with ⟨j, hj, hclear, hpalloc⟩
  have haddr : BitVec.ofNat 32 j * pgSize + m.kernelPool.phyAddrStart = kernelFrame j := by
    rw [hl.kp_start, kernelFrame]
  -- A frame of the pool is never at address 0, which `palloc` returns when there is none.
  have hne : kernelFrame j ≠ 0 := by
    intro hc
    have hnat := hl.toNat_frame hj
    rw [hc] at hnat
    have hzero : (0 : Word).toNat = 0 := rfl
    omega
  set m₀ := m.setPool { m.kernelPool with poolBitmap := bitmapSet m.kernelPool.poolBitmap j true }
    .kernel with hm₀
  have hf₀ : KernelFrame m m₀ := kernelFrame_setPool m _ rfl
  have hadd : pageTableAdd m₀ (pageAddr i₀) (kernelFrame j)
      = .ok (setKernelPte m₀ i₀ (entryFor (kernelFrame j))) :=
    pageTableAdd_kernel (hf₀.kernelHalf hk) (by omega) habs _
  refine ⟨setKernelPte m₀ i₀ (entryFor (kernelFrame j)), j, ?_,
    hf₀.trans (kernelFrame_setKernelPte m₀ (by omega) _), rfl, hj, hclear, rfl,
    kernelPte_setKernelPte_self _ _ _, fun i hne => kernelPte_setKernelPte_of_ne _ hne⟩
  intro n
  rw [haddr] at hpalloc
  simp only [mallocLoop, Machine.pool, hpalloc, bind, Except.bind, hne, if_false]
  rw [← hm₀, hadd]
  simp only [pageAddr_succ hi]

/-- Each page gets a frame that was free. -/
theorem mallocLoop_granted (n : Nat) {m : Machine} (hk : KernelHalf m) (hl : PoolLayout m)
    {i₀ : Nat} (hi : i₀ + n ≤ 32768)
    (habs : ∀ i, i₀ ≤ i → i < i₀ + n → isPresent (kernelPte m i) = false)
    (hfree : n ≤ freeCount m.kernelPool.poolBitmap) :
    ∃ m' fr, mallocLoop .kernel n m (pageAddr i₀) = .ok (m', true) ∧ Granted m m' i₀ n fr := by
  induction n generalizing m i₀ with
  | zero =>
      refine ⟨m, fun _ => 0, rfl, KernelFrame.refl m, rfl, fun _ _ => rfl, ?_, ?_, ?_, rfl⟩
      · exact fun i h1 h2 => absurd h2 (by omega)
      · intro j
        exact ⟨Or.inl, fun h => h.resolve_right (fun ⟨i, h1, h2, _⟩ => by omega)⟩
      · exact fun i k h1 h2 => absurd h2 (by omega)
  | succ n ih =>
      rcases mallocLoop_step hk hl (by omega) (habs i₀ (by omega) (by omega)) (by omega) with
        ⟨m₁, j, hstep, hf, hv, hj, hclear, hbits, hpte, hother⟩
      have habs₁ : ∀ i, i₀ + 1 ≤ i → i < i₀ + 1 + n → isPresent (kernelPte m₁ i) = false := by
        intro i h1 h2
        rw [hother i (by omega)]
        exact habs i (by omega) (by omega)
      have hcount := freeCount_set hj hclear
      rw [← hbits] at hcount
      rcases ih (hf.kernelHalf hk) (hf.layout hl) (by omega) habs₁ (by omega) with
        ⟨m', fr, hrun, hg⟩
      -- The frame of the first page is set in the pool by now, so no later page got it.
      have hnew : ∀ i, i₀ + 1 ≤ i → i < i₀ + 1 + n → fr i ≠ j := by
        intro i h1 h2 hc
        have hfr := (hg.page i h1 h2).2.2
        rw [hbits, hc, bitmapScanTest_set, if_pos rfl] at hfr
        cases hfr
      have hfirst : Function.update fr i₀ j i₀ = j := Function.update_self _ _ _
      have hlater : ∀ i, i₀ + 1 ≤ i → Function.update fr i₀ j i = fr i :=
        fun i hi => Function.update_of_ne (by omega) _ _
      refine ⟨m', Function.update fr i₀ j, (hstep n).trans hrun, hf.trans hg.frame,
        hg.vaddr.trans hv, ?_, ?_, ?_, ?_, by have := hg.count; omega⟩
      · intro i hout
        rw [hg.other i (by omega), hother i (by omega)]
      · intro i h1 h2
        by_cases hi0 : i = i₀
        · rw [hi0, hfirst, hg.other i₀ (by omega), hpte]
          exact ⟨hj, rfl, hclear⟩
        · have hp := hg.page i (by omega) (by omega)
          rw [hf.frames, hbits, bitmapScanTest_set, if_neg (hnew i (by omega) (by omega))] at hp
          rw [hlater i (by omega)]
          exact hp
      · intro j'
        rw [hg.bits j', hbits, bitmapScanTest_set]
        constructor
        · rintro (hset | ⟨i, h1, h2, hfr⟩)
          · by_cases hjj : j' = j
            · exact Or.inr ⟨i₀, by omega, by omega, by rw [hfirst, hjj]⟩
            · rw [if_neg hjj] at hset
              exact Or.inl hset
          · exact Or.inr ⟨i, by omega, by omega, by rw [hlater i h1, hfr]⟩
        · rintro (hset | ⟨i, h1, h2, hfr⟩)
          · left
            by_cases hjj : j' = j
            · rw [if_pos hjj]
            · rw [if_neg hjj]
              exact hset
          · by_cases hi0 : i = i₀
            · rw [hi0, hfirst] at hfr
              exact Or.inl (by rw [if_pos hfr.symm])
            · rw [hlater i (by omega)] at hfr
              exact Or.inr ⟨i, by omega, by omega, hfr⟩
      · intro i k hi1 hi2 hk1 hk2 heq
        by_cases hi0 : i = i₀
        · by_cases hk0 : k = i₀
          · rw [hi0, hk0]
          · rw [hi0, hfirst, hlater k (by omega)] at heq
            exact absurd heq.symm (hnew k (by omega) (by omega))
        · rw [hlater i (by omega)] at heq
          by_cases hk0 : k = i₀
          · rw [hk0, hfirst] at heq
            exact absurd heq (hnew i (by omega) (by omega))
          · rw [hlater k (by omega)] at heq
            exact hg.inj i k (by omega) (by omega) (by omega) (by omega) heq

/-- `addr_v2p` on a mapped page of the kernel heap. -/
theorem addrV2p_kernel {m : Machine} (hk : KernelHalf m) (hl : PoolLayout m) {i j : Nat}
    (hi : i ≤ 32768) (hj : j < kernelFrames m) (hfr : frameOf (kernelPte m i) = 0x200 + j) :
    addrV2p m (pageAddr i) = .ok (kernelFrame j) := by
  simp only [addrV2p, load_kernelPte hk hi, bind, Except.bind, Except.ok.injEq]
  have hlow : (pageAddr i &&& 0x00000fff).toNat = 0 := by
    rw [toNat_low, toNat_pageAddr hi]
    omega
  have hlt := (kernelPte m i).isLt
  apply BitVec.eq_of_toNat_eq
  rw [frameOf_eq] at hfr
  rw [BitVec.toNat_add, hlow, toNat_high, hl.toNat_frame hj]
  omega

/-- `pfree` on a frame of the kernel pool clears its bit. -/
theorem pfree_kernel {m : Machine} (hl : PoolLayout m) {j : Nat} (hj : j < kernelFrames m) :
    pfree m (kernelFrame j)
      = m.setPool { m.kernelPool with
          poolBitmap := bitmapSet m.kernelPool.poolBitmap j false } .kernel := by
  have hnat := hl.toNat_frame hj
  have hlt := hl.frame_lt hj
  have hup := m.userPool.phyAddrStart.isLt
  have hbase : (m.pool .kernel).phyAddrStart = 0x200000 := hl.kp_start
  have hpage : kernelFrame j = (m.pool .kernel).pageAt j := by
    rw [Pool.pageAt, hbase]
    rfl
  have hword : (m.pool .kernel).phyAddrStart.toNat + j * 4096 < 2 ^ 32 := by
    rw [hbase]
    show 0x200000 + j * 4096 < 2 ^ 32
    omega
  have hbelow : ¬ m.userPool.phyAddrStart ≤ (m.pool .kernel).pageAt j := by
    rw [← hpage, BitVec.le_def, hnat]
    omega
  rw [hpage]
  exact pfree_pageAt hword (iff_of_false hbelow (by decide))

/-- Each page loses its frame. -/
theorem mfreeLoop_spec (n i₀ : Nat) {m : Machine} (hk : KernelHalf m) (hl : PoolLayout m)
    {belongs : Word → Bool} {fr : Nat → Nat} (hi : i₀ + n ≤ 32768)
    (hbel : ∀ j, j < kernelFrames m → belongs (kernelFrame j) = true)
    (hpage : ∀ i, i₀ ≤ i → i < i₀ + n → fr i < kernelFrames m ∧
      frameOf (kernelPte m i) = 0x200 + fr i) :
    ∃ m', mfreeLoop belongs n m (pageAddr i₀) = .ok m' ∧ KernelFrame m m' ∧
      m'.kernelVaddr = m.kernelVaddr ∧
      (∀ i, ¬ (i₀ ≤ i ∧ i < i₀ + n) → kernelPte m' i = kernelPte m i) ∧
      (∀ i, i₀ ≤ i → i < i₀ + n → isPresent (kernelPte m' i) = false) ∧
      ∀ j, bitmapScanTest m'.kernelPool.poolBitmap j = true ↔
        bitmapScanTest m.kernelPool.poolBitmap j = true ∧
          ¬ ∃ i, i₀ ≤ i ∧ i < i₀ + n ∧ fr i = j := by
  -- The induction is on the number of pages, from the first page on.
  induction n generalizing m i₀ with
  | zero =>
      refine ⟨m, rfl, KernelFrame.refl m, rfl, fun _ _ => rfl, ?_, ?_⟩
      · exact fun i h1 h2 => absurd h2 (by omega)
      · intro j
        exact ⟨fun h => ⟨h, fun ⟨i, h1, h2, _⟩ => by omega⟩, fun h => h.1⟩
  | succ n ih =>
      have hp := hpage i₀ (by omega) (by omega)
      set m₀ := m.setPool { m.kernelPool with
        poolBitmap := bitmapSet m.kernelPool.poolBitmap (fr i₀) false } .kernel with hm₀
      have hf₀ : KernelFrame m m₀ := kernelFrame_setPool m _ rfl
      set m₁ := setKernelPte m₀ i₀ (kernelPte m i₀ &&& ~~~1) with hm₁
      have hf : KernelFrame m m₁ := hf₀.trans (kernelFrame_setKernelPte m₀ (by omega) _)
      have hbits : m₁.kernelPool.poolBitmap
          = bitmapSet m.kernelPool.poolBitmap (fr i₀) false := rfl
      have hother : ∀ i, i ≠ i₀ → kernelPte m₁ i = kernelPte m i :=
        fun i hne => kernelPte_setKernelPte_of_ne _ hne
      have hremove : pageTablePteRemove m₀ (pageAddr i₀) = .ok m₁ := by
        have hk₀ := hf₀.kernelHalf hk
        have hsame : kernelPte m₀ i₀ = kernelPte m i₀ := rfl
        rw [pageTablePteRemove, load_kernelPte hk₀ (by omega), hsame, hm₁]
        exact store_kernelPte hk₀ (by omega) _
      have halign : kernelFrame (fr i₀) % pgSize = 0 := by
        have hsize : pgSize.toNat = 4096 := rfl
        have hzero : (0 : Word).toNat = 0 := rfl
        apply BitVec.eq_of_toNat_eq
        rw [BitVec.toNat_umod, hl.toNat_frame hp.1, hsize, hzero]
        omega
      have hstep : mfreeLoop belongs (n + 1) m (pageAddr i₀)
          = mfreeLoop belongs n m₁ (pageAddr (i₀ + 1)) := by
        rw [mfreeLoop, addrV2p_kernel hk hl (by omega) hp.1 hp.2, ok_bind,
          ensure_pos ⟨halign, hbel _ hp.1⟩, ok_bind, pfree_kernel hl hp.1, ← hm₀, hremove, ok_bind,
          pageAddr_succ (by omega)]
      rcases ih (i₀ + 1) (m := m₁) (hf.kernelHalf hk) (hf.layout hl) (by omega)
        (by rw [hf.frames]; exact hbel) (by
          intro i h1 h2
          rw [hf.frames, hother i (by omega)]
          exact hpage i (by omega) (by omega)) with ⟨m', hrun, hf', hv, hout, hin, hb⟩
      refine ⟨m', hstep.trans hrun, hf.trans hf', hv, ?_, ?_, ?_⟩
      · intro i hne
        rw [hout i (by omega), hother i (by omega)]
      · intro i h1 h2
        -- The first page was cleared in this round, and the later ones keep it so.
        by_cases hi0 : i = i₀
        · rw [hi0, hout i₀ (by omega), kernelPte_setKernelPte_self]
          exact isPresent_clear _
        · exact hin i (by omega) (by omega)
      · intro j
        rw [hb j, hbits, bitmapScanTest_set]
        constructor
        · rintro ⟨hset, hno⟩
          by_cases hj : j = fr i₀
          · rw [if_pos hj] at hset
            cases hset
          · rw [if_neg hj] at hset
            refine ⟨hset, ?_⟩
            rintro ⟨i, h1, h2, hfr⟩
            by_cases hi0 : i = i₀
            · exact hj (by rw [← hfr, hi0])
            · exact hno ⟨i, by omega, by omega, hfr⟩
        · rintro ⟨hset, hno⟩
          have hj : j ≠ fr i₀ := fun hc => hno ⟨i₀, by omega, by omega, hc.symm⟩
          rw [if_neg hj]
          exact ⟨hset, fun ⟨i, h1, h2, hfr⟩ => hno ⟨i, by omega, by omega, hfr⟩⟩

/-- The processor's view of a page of the kernel heap is its entry. -/
theorem walk_pageAddr {m : Machine} (h : KernelHalf m) {i : Nat} (hi : i ≤ 32768) :
    walk m (pageAddr i)
      = if isPresent (kernelPte m i) then some (frameOf (kernelPte m i)) else none := by
  have hd := pdeIdx_pageAddr hi
  have ht := h.table (768 + (256 + i) / 1024) (by omega) (by omega)
  simp only [walk, hd, ht.1, ht.2, pteIdx_pageAddr hi, if_true,
    show 768 + (256 + i) / 1024 - 768 = (256 + i) / 1024 by omega]
  rfl

/-- The invariant: a kernel address is taken exactly when its page is present,
    and present pages have frames of their own, taken from the pool. -/
structure KernelMap (m : Machine) : Prop where
  half : KernelHalf m
  layout : PoolLayout m
  agree : ∀ i, i < kernelPages m →
    bitmapScanTest m.kernelVaddr.vaddrBitmap i = isPresent (kernelPte m i)
  mapped : ∀ i, i < kernelPages m → isPresent (kernelPte m i) = true →
    ∃ j, j < kernelFrames m ∧ frameOf (kernelPte m i) = 0x200 + j ∧
      bitmapScanTest m.kernelPool.poolBitmap j = true
  inj : ∀ i k, i < kernelPages m → k < kernelPages m → isPresent (kernelPte m i) = true →
    isPresent (kernelPte m k) = true → frameOf (kernelPte m i) = frameOf (kernelPte m k) → i = k

theorem kernelFrame_setVaddrBitmap (m : Machine) (b : Bitmap)
    (hb : b.btmpBytesLen = m.kernelVaddr.vaddrBitmap.btmpBytesLen) :
    KernelFrame m (m.setVaddrBitmap b) :=
  ⟨rfl, rfl, rfl, rfl, rfl, rfl, rfl, hb, fun _ _ => rfl⟩

/-- A request fits: a run of free kernel addresses, and enough free frames. -/
def Fits (m : Machine) (n : Nat) : Prop :=
  (∃ s, FreeRun m.kernelVaddr.vaddrBitmap n s) ∧ n ≤ freeCount m.kernelPool.poolBitmap

/-- The machine after `vaddr_get` has marked `n` pages from `s` on. -/
def reserve (m : Machine) (s n : Nat) : Machine :=
  m.setVaddrBitmap (bitmapSetRange m.kernelVaddr.vaddrBitmap s true n)

theorem PoolLayout.pages_le {m : Machine} (h : PoolLayout m) : kernelPages m ≤ 32768 :=
  h.vaddr_len

theorem pageAddr_ne_zero {i : Nat} (hi : i ≤ 32768) : pageAddr i ≠ 0 := by
  intro hc
  have hnat := toNat_pageAddr hi
  rw [hc] at hnat
  have hzero : (0 : Word).toNat = 0 := rfl
  omega

/-- A request that fits is granted, from the first run that is long enough. -/
theorem mallocPage_fits {m : Machine} (h : KernelMap m) {n : Nat} (hn : 0 < n ∧ n < 3840)
    (hfit : Fits m n) :
    ∃ m' s fr, mallocPage m .kernel n = .ok (m', pageAddr s) ∧
      FreeRun m.kernelVaddr.vaddrBitmap n s ∧ Granted (reserve m s n) m' s n fr ∧
      ∀ s', FreeRun m.kernelVaddr.vaddrBitmap n s' → s ≤ s' := by
  rcases hfit with ⟨⟨s₀, hs₀⟩, hcount⟩
  rcases bitmapScan_fit (by omega) hs₀ with ⟨s, hscan, hrun, hfirst⟩
  have hle : s + n ≤ 32768 := Nat.le_trans hrun.1 h.layout.pages_le
  have hf : KernelFrame m (reserve m s n) :=
    kernelFrame_setVaddrBitmap m _ (bitmapSetRange_len _ _ _ _)
  have habs : ∀ i, s ≤ i → i < s + n → isPresent (kernelPte (reserve m s n) i) = false := by
    intro i h1 h2
    have hpages : i < kernelPages m := Nat.lt_of_lt_of_le h2 hrun.1
    rw [show kernelPte (reserve m s n) i = kernelPte m i from rfl, ← h.agree i hpages]
    exact hrun.2 i h1 h2
  rcases mallocLoop_granted n (hf.kernelHalf h.half) (hf.layout h.layout) hle habs hcount with
    ⟨m', fr, hloop, hg⟩
  refine ⟨m', s, fr, ?_, hrun, hg, hfirst⟩
  have hget : vaddrGet m .kernel n = .ok (reserve m s n, pageAddr s) := by
    rw [vaddrGet, hscan, ok_bind, h.layout.vaddr_start]
    rfl
  rw [mallocPage, ensure_pos hn, ok_bind, hget, ok_bind]
  dsimp only
  rw [if_neg (pageAddr_ne_zero (by omega)), hloop, ok_bind]
  rfl

/-- Releasing mapped pages takes their addresses, entries and frames back. -/
theorem mfreePage_mapped {m : Machine} (fr : Nat → Nat) (hk : KernelHalf m) (hl : PoolLayout m)
    {s n : Nat} (hn : 1 ≤ n) (hi : s + n ≤ 32768)
    (hpage : ∀ i, s ≤ i → i < s + n → fr i < kernelFrames m ∧
      frameOf (kernelPte m i) = 0x200 + fr i) :
    ∃ m', mfreePage m .kernel (pageAddr s) n = .ok m' ∧ KernelFrame m m' ∧
      m'.kernelVaddr.vaddrBitmap = bitmapSetRange m.kernelVaddr.vaddrBitmap s false n ∧
      (∀ i, ¬ (s ≤ i ∧ i < s + n) → kernelPte m' i = kernelPte m i) ∧
      (∀ i, s ≤ i → i < s + n → isPresent (kernelPte m' i) = false) ∧
      ∀ j, bitmapScanTest m'.kernelPool.poolBitmap j = true ↔
        bitmapScanTest m.kernelPool.poolBitmap j = true ∧
          ¬ ∃ i, s ≤ i ∧ i < s + n ∧ fr i = j := by
  have hsize : pgSize.toNat = 4096 := rfl
  have hzero : (0 : Word).toNat = 0 := rfl
  have hbase : kHeapStart.toNat = 0xc0100000 := rfl
  have hp := hpage s (by omega) (by omega)
  have hnat := hl.toNat_frame hp.1
  have halign : pageAddr s % pgSize = 0 := by
    apply BitVec.eq_of_toNat_eq
    rw [BitVec.toNat_umod, toNat_pageAddr (by omega), hsize, hzero]
    omega
  have hphy : kernelFrame (fr s) % pgSize = 0 ∧ (0x102000 : Word) ≤ kernelFrame (fr s) := by
    constructor
    · apply BitVec.eq_of_toNat_eq
      rw [BitVec.toNat_umod, hnat, hsize, hzero]
      omega
    · have hlow : (0x102000 : Word).toNat = 0x102000 := rfl
      rw [BitVec.le_def, hnat, hlow]
      omega
  -- The kernel pool lies below the user pool, which is how the source tells
  -- them apart.
  have hkernel : ∀ j, j < kernelFrames m → ¬ m.userPool.phyAddrStart ≤ kernelFrame j := by
    intro j hj
    have hlt := hl.frame_lt hj
    rw [BitVec.le_def, hl.toNat_frame hj]
    omega
  obtain ⟨belongs, hdef⟩ : ∃ belongs : Word → Bool, belongs = fun a =>
      if m.userPool.phyAddrStart ≤ kernelFrame (fr s) then decide (m.userPool.phyAddrStart ≤ a)
      else decide (m.kernelPool.phyAddrStart ≤ a) && decide (a < m.userPool.phyAddrStart) :=
    ⟨_, rfl⟩
  have hbel : ∀ j, j < kernelFrames m → belongs (kernelFrame j) = true := by
    intro j hj
    have hlt := hl.frame_lt hj
    rw [hdef]
    dsimp only
    have hstart : (0x200000 : Word).toNat = 0x200000 := rfl
    rw [if_neg (hkernel _ hp.1), Bool.and_eq_true, decide_eq_true_eq, decide_eq_true_eq, hl.kp_start,
      BitVec.le_def, BitVec.lt_def, hl.toNat_frame hj, hstart]
    omega
  rcases mfreeLoop_spec n s hk hl hi hbel hpage with ⟨m', hloop, hf, hv, hout, hin, hbits⟩
  -- The index that is cleared is the one the address came from.
  have hidx : ((pageAddr s - m'.kernelVaddr.vaddrStart) / pgSize).toNat = s := by
    rw [hv, hl.vaddr_start, BitVec.toNat_udiv, BitVec.toNat_sub, toNat_pageAddr (by omega), hbase,
      hsize]
    omega
  have hrem : vaddrRemove m' .kernel (pageAddr s) n
      = .ok (m'.setVaddrBitmap (bitmapSetRange m'.kernelVaddr.vaddrBitmap s false n)) := by
    rw [vaddrRemove, hidx]
  refine ⟨m'.setVaddrBitmap (bitmapSetRange m'.kernelVaddr.vaddrBitmap s false n), ?_,
    hf.trans (kernelFrame_setVaddrBitmap m' _ (bitmapSetRange_len _ _ _ _)), ?_, hout, hin, hbits⟩
  · rw [mfreePage, ensure_pos ⟨hn, halign⟩, ok_bind, addrV2p_kernel hk hl (by omega) hp.1 hp.2,
      ok_bind, ensure_pos hphy, ok_bind]
    rw [hdef] at hloop
    dsimp only
    rw [hloop, ok_bind, hrem]
  · rw [hv]
    rfl

/-- An allocated page has a frame of its own, and so has every other. -/
theorem KernelMap.grant {m m' : Machine} (h : KernelMap m) {s n : Nat} {fr : Nat → Nat}
    (hg : Granted (reserve m s n) m' s n fr) : KernelMap m' := by
  have hf₀ : KernelFrame m (reserve m s n) :=
    kernelFrame_setVaddrBitmap m _ (bitmapSetRange_len _ _ _ _)
  have hf : KernelFrame m m' := hf₀.trans hg.frame
  have hl' := hf.layout h.layout
  have hpres : ∀ i, s ≤ i → i < s + n → isPresent (kernelPte m' i) = true ∧
      frameOf (kernelPte m' i) = 0x200 + fr i := by
    intro i h1 h2
    have hp := hg.page i h1 h2
    rw [hf₀.frames] at hp
    have hnat := h.layout.toNat_frame hp.1
    rw [hp.2.1]
    refine ⟨isPresent_entryFor (by omega), ?_⟩
    rw [frameOf_entryFor (by omega), hnat]
    omega
  have hold : ∀ i, ¬ (s ≤ i ∧ i < s + n) → kernelPte m' i = kernelPte m i := hg.other
  -- The frame of a page that was there before is not one of the new ones.
  have hnew : ∀ i k, s ≤ i → i < s + n → k < kernelPages m → isPresent (kernelPte m k) = true →
      frameOf (kernelPte m k) ≠ 0x200 + fr i := by
    intro i k h1 h2 hk hpk hc
    rcases h.mapped k hk hpk with ⟨j, _, hfr, hset⟩
    have hclear := (hg.page i h1 h2).2.2
    have hj : j = fr i := by omega
    rw [hj] at hset
    exact absurd hset (by rw [show m.kernelPool = (reserve m s n).kernelPool from rfl, hclear]; decide)
  refine ⟨hf.kernelHalf h.half, hl', ?_, ?_, ?_⟩
  · intro i hi
    rw [hf.pages] at hi
    rw [hg.vaddr, show (reserve m s n).kernelVaddr.vaddrBitmap
      = bitmapSetRange m.kernelVaddr.vaddrBitmap s true n from rfl, bitmapScanTest_setRange]
    by_cases hin : s ≤ i ∧ i < s + n
    · rw [if_pos hin, (hpres i hin.1 hin.2).1]
    · rw [if_neg hin, hold i hin]
      exact h.agree i hi
  · intro i hi hp
    rw [hf.pages] at hi
    rw [hf.frames]
    by_cases hin : s ≤ i ∧ i < s + n
    · have hpage := hg.page i hin.1 hin.2
      rw [hf₀.frames] at hpage
      exact ⟨fr i, hpage.1, (hpres i hin.1 hin.2).2,
        (hg.bits (fr i)).mpr (Or.inr ⟨i, hin.1, hin.2, rfl⟩)⟩
    · rw [hold i hin] at hp ⊢
      rcases h.mapped i hi hp with ⟨j, hj, hfr, hset⟩
      exact ⟨j, hj, hfr, (hg.bits j).mpr (Or.inl hset)⟩
  · intro i k hi hk hpi hpk heq
    rw [hf.pages] at hi hk
    by_cases hini : s ≤ i ∧ i < s + n
    · rw [(hpres i hini.1 hini.2).2] at heq
      by_cases hink : s ≤ k ∧ k < s + n
      · rw [(hpres k hink.1 hink.2).2] at heq
        exact hg.inj i k hini.1 hini.2 hink.1 hink.2 (by omega)
      · rw [hold k hink] at heq hpk
        exact absurd heq.symm (hnew i k hini.1 hini.2 hk hpk)
    · rw [hold i hini] at heq hpi
      by_cases hink : s ≤ k ∧ k < s + n
      · rw [(hpres k hink.1 hink.2).2] at heq
        exact absurd heq (hnew k i hink.1 hink.2 hi hpi)
      · rw [hold k hink] at heq hpk
        exact h.inj i k hi hk hpi hpk heq

/-- The frame each page of the kernel heap is mapped to. -/
def frameIdx (m : Machine) (i : Nat) : Nat := frameOf (kernelPte m i) - 0x200

/-- Taken pages can be released, and the invariant stays. -/
theorem KernelMap.release {m : Machine} (h : KernelMap m) {s n : Nat} (hn : 1 ≤ n)
    (hle : s + n ≤ kernelPages m)
    (htaken : ∀ i, s ≤ i → i < s + n → bitmapScanTest m.kernelVaddr.vaddrBitmap i = true) :
    ∃ m', mfreePage m .kernel (pageAddr s) n = .ok m' ∧ KernelMap m' ∧ KernelFrame m m' ∧
      m'.kernelVaddr.vaddrBitmap = bitmapSetRange m.kernelVaddr.vaddrBitmap s false n := by
  have hpages := h.layout.pages_le
  have hpres : ∀ i, s ≤ i → i < s + n → isPresent (kernelPte m i) = true := by
    intro i h1 h2
    rw [← h.agree i (by omega)]
    exact htaken i h1 h2
  have hpage : ∀ i, s ≤ i → i < s + n → frameIdx m i < kernelFrames m ∧
      frameOf (kernelPte m i) = 0x200 + frameIdx m i := by
    intro i h1 h2
    rcases h.mapped i (by omega) (hpres i h1 h2) with ⟨j, hj, hfr, _⟩
    have hidx : frameIdx m i = j := by
      unfold frameIdx
      omega
    rw [hidx]
    exact ⟨hj, hfr⟩
  rcases mfreePage_mapped (frameIdx m) h.half h.layout hn (by omega) hpage with
    ⟨m', hfree, hf, hv, hout, hin, hbits⟩
  -- A page that stays present lies outside the released run.
  have hstay : ∀ i, isPresent (kernelPte m' i) = true → ¬ (s ≤ i ∧ i < s + n) := by
    intro i hp hc
    rw [hin i hc.1 hc.2] at hp
    cases hp
  refine ⟨m', hfree, ⟨hf.kernelHalf h.half, hf.layout h.layout, ?_, ?_, ?_⟩, hf, hv⟩
  · intro i hi
    rw [hf.pages] at hi
    rw [hv, bitmapScanTest_setRange]
    by_cases hr : s ≤ i ∧ i < s + n
    · rw [if_pos hr, hin i hr.1 hr.2]
    · rw [if_neg hr, hout i hr]
      exact h.agree i hi
  · intro i hi hp
    rw [hf.pages] at hi
    have hr := hstay i hp
    rw [hout i hr] at hp ⊢
    rcases h.mapped i hi hp with ⟨j, hj, hfr, hset⟩
    refine ⟨j, by rw [hf.frames]; exact hj, hfr, (hbits j).mpr ⟨hset, ?_⟩⟩
    rintro ⟨k, hk1, hk2, hkj⟩
    have hpk := hpage k hk1 hk2
    have hik : i = k := h.inj i k hi (by omega) hp (hpres k hk1 hk2) (by omega)
    exact hr (hik ▸ ⟨hk1, hk2⟩)
  · intro i k hi hk hpi hpk heq
    rw [hf.pages] at hi hk
    have hri := hstay i hpi
    have hrk := hstay k hpk
    rw [hout i hri] at hpi heq
    rw [hout k hrk] at hpk heq
    exact h.inj i k hi hk hpi hpk heq

/-- Releasing what was just granted gives everything back. -/
theorem KernelMap.undo {m m' : Machine} (h : KernelMap m) {s n : Nat} {fr : Nat → Nat}
    (hn : 1 ≤ n) (hrun : FreeRun m.kernelVaddr.vaddrBitmap n s)
    (hg : Granted (reserve m s n) m' s n fr) :
    ∃ m₂, mfreePage m' .kernel (pageAddr s) n = .ok m₂ ∧ KernelFrame m m₂ ∧
      m₂.kernelPool.poolBitmap = m.kernelPool.poolBitmap ∧
      m₂.kernelVaddr.vaddrBitmap = m.kernelVaddr.vaddrBitmap ∧
      ∀ i, i < kernelPages m → isPresent (kernelPte m₂ i) = isPresent (kernelPte m i) := by
  have hf₀ : KernelFrame m (reserve m s n) :=
    kernelFrame_setVaddrBitmap m _ (bitmapSetRange_len _ _ _ _)
  have hf : KernelFrame m m' := hf₀.trans hg.frame
  have hpages := h.layout.pages_le
  have hlen : s + n ≤ kernelPages m := hrun.1
  have hpage : ∀ i, s ≤ i → i < s + n → fr i < kernelFrames m' ∧
      frameOf (kernelPte m' i) = 0x200 + fr i := by
    intro i h1 h2
    have hp := hg.page i h1 h2
    rw [hf₀.frames] at hp
    have hnat := h.layout.toNat_frame hp.1
    rw [hp.2.1, hf.frames, frameOf_entryFor (by omega), hnat]
    exact ⟨hp.1, by omega⟩
  rcases mfreePage_mapped fr (hf.kernelHalf h.half) (hf.layout h.layout) hn (by omega) hpage with
    ⟨m₂, hfree, hf₂, hv, hout, hin, hbits⟩
  refine ⟨m₂, hfree, hf.trans hf₂, ?_, ?_, ?_⟩
  · refine bitmap_ext (hf.trans hf₂).kp_len (fun j => ?_)
    rw [Bool.eq_iff_iff, hbits j, hg.bits j]
    constructor
    · rintro ⟨hset | hex, hno⟩
      · exact hset
      · exact absurd hex hno
    · intro hset
      refine ⟨Or.inl hset, ?_⟩
      -- A bit that was set before was not one of the granted frames.
      rintro ⟨i, h1, h2, hfr⟩
      have hclear := (hg.page i h1 h2).2.2
      rw [hfr] at hclear
      exact absurd hset (by
        rw [show m.kernelPool = (reserve m s n).kernelPool from rfl, hclear]
        decide)
  · rw [hv, hg.vaddr]
    exact bitmapSetRange_undo hrun.2
  · intro i hi
    by_cases hr : s ≤ i ∧ i < s + n
    · rw [hin i hr.1 hr.2, ← h.agree i hi]
      exact (hrun.2 i hr.1 hr.2).symm
    · rw [hout i hr, hg.other i hr]
      rfl

/-- A machine and the allocations that have not been released. -/
structure PageState where
  mem : Machine
  live : List (Word × Nat)

/-- Calls of the allocator. -/
inductive PageEvent
  | malloc (n : Nat)
  | mfree (p : Word) (n : Nat)

/-- The step of a call. -/
def pageStep (s : PageState) : PageEvent → Except Func PageState
  | .malloc n => do
      let (m, p) ← mallocPage s.mem .kernel n
      .ok { mem := m, live := (p, n) :: s.live }
  | .mfree p n => do
      let m ← mfreePage s.mem .kernel p n
      .ok { mem := m, live := s.live.erase (p, n) }

/-- Requests fit, and releases match an earlier allocation. -/
def pageEnabled (s : PageState) : PageEvent → Prop
  | .malloc n => Fits s.mem n
  | .mfree p n => (p, n) ∈ s.live

/-- The state after `mem_pool_init`: the kernel half of the active page
    directory as the loader left it, and no page of the kernel heap mapped. -/
def pageInit (s : PageState) : Prop :=
  ∃ m allMem, s.mem = memPoolInit m allMem ∧ KernelHalf m ∧ s.live = [] ∧
    ∀ i, i < kernelPages s.mem → isPresent (kernelPte s.mem i) = false

/-- Runs of allocations and releases. -/
def pageSystem : System PageState PageEvent Func where
  init := pageInit
  enabled := pageEnabled
  step := pageStep

/-- The number of the page at an address of the kernel heap. -/
def pageOf (p : Word) : Nat := (p.toNat - 0xc0100000) / 4096

theorem pageOf_pageAddr {i : Nat} (hi : i ≤ 32768) : pageOf (pageAddr i) = i := by
  rw [pageOf, toNat_pageAddr hi]
  omega

/-- Two allocations share no page. -/
def Apart (a b : Word × Nat) : Prop :=
  pageOf a.1 + a.2 ≤ pageOf b.1 ∨ pageOf b.1 + b.2 ≤ pageOf a.1

/-- An allocation is a run of taken pages. -/
def Taken (m : Machine) (a : Word × Nat) : Prop :=
  1 ≤ a.2 ∧ pageOf a.1 + a.2 ≤ kernelPages m ∧ a.1 = pageAddr (pageOf a.1) ∧
    ∀ i, pageOf a.1 ≤ i → i < pageOf a.1 + a.2 →
      bitmapScanTest m.kernelVaddr.vaddrBitmap i = true

/-- The invariant of runs. -/
structure PageInv (s : PageState) : Prop where
  map : KernelMap s.mem
  taken : ∀ a, a ∈ s.live → Taken s.mem a
  apart : s.live.Pairwise Apart

instance : Std.Symm Apart where
  symm _ _ h := Or.symm h

theorem kernelFreePages_le (allMem : Word) : (allFreePages allMem / 2).toNat ≤ 32767 := by
  have hlt := (allFreePages allMem).isLt
  rw [BitVec.toNat_udiv]
  show (allFreePages allMem).toNat / 2 ≤ 32767
  omega

/-- The pool of the users begins behind the kernel's. -/
theorem memPoolInit_userStart (m : Machine) (allMem : Word) :
    (memPoolInit m allMem).userPool.phyAddrStart.toNat
      = 0x200000 + (allFreePages allMem / 2).toNat * 4096 := by
  have hkernel := kernelFreePages_le allMem
  have hmul : ((allFreePages allMem / 2).setWidth 32 * pgSize).toNat
      = (allFreePages allMem / 2).toNat * 4096 := by
    rw [BitVec.toNat_mul, BitVec.toNat_setWidth]
    show (allFreePages allMem / 2).toNat % 2 ^ 32 * 4096 % 2 ^ 32 = _
    omega
  show ((pgSize * 256 + 0x100000 : Word) + (allFreePages allMem / 2).setWidth 32 * pgSize).toNat = _
  rw [BitVec.toNat_add, hmul]
  show (0x200000 + _) % 2 ^ 32 = _
  omega

/-- `mem_pool_init` lays the pools out as the allocator needs them. -/
theorem memPoolInit_layout (m : Machine) (allMem : Word) : PoolLayout (memPoolInit m allMem) := by
  have hkernel := kernelFreePages_le allMem
  have hlen : (allFreePages allMem / 2 / 8).toNat = (allFreePages allMem / 2).toNat / 8 :=
    BitVec.toNat_udiv
  refine ⟨rfl, ?_, rfl, ?_⟩
  · rw [memPoolInit_userStart]
    show 0x200000 + (allFreePages allMem / 2 / 8).toNat * 8 * 4096 ≤ _
    omega
  · show (allFreePages allMem / 2 / 8).toNat * 8 ≤ 32768
    omega

theorem pageInit_inv {s : PageState} (h : pageInit s) : PageInv s := by
  rcases h with ⟨m, allMem, hm, hk, hlive, habs⟩
  have hhalf : KernelHalf s.mem := by
    rw [hm]
    exact ⟨⟨hk.self.present, hk.self.frame⟩, hk.table, hk.cr3_ne⟩
  refine ⟨⟨hhalf, by rw [hm]; exact memPoolInit_layout m allMem, ?_, ?_, ?_⟩, ?_, ?_⟩
  · intro i hi
    rw [habs i hi]
    rw [hm] at hi ⊢
    exact bitmapScanTest_init hi
  · intro i hi hp
    rw [habs i hi] at hp
    cases hp
  · intro i k hi _ hp
    rw [habs i hi] at hp
    cases hp
  · intro a ha
    rw [hlive] at ha
    exact absurd ha List.not_mem_nil
  · rw [hlive]
    exact List.Pairwise.nil

/-- A new allocation shares no page with an older one. -/
theorem apart_of_free {m : Machine} {a : Word × Nat} {s n : Nat} (hs : s ≤ 32768) (hn : 1 ≤ n)
    (ha : Taken m a) (hrun : FreeRun m.kernelVaddr.vaddrBitmap n s) : Apart (pageAddr s, n) a := by
  unfold Apart
  rw [pageOf_pageAddr hs]
  by_contra hc
  -- Otherwise the larger of the two first pages is both taken and free.
  have hfree := hrun.2 (max s (pageOf a.1)) (by omega) (by omega)
  have htaken := ha.2.2.2 (max s (pageOf a.1)) (by omega) (by have := ha.1; omega)
  rw [hfree] at htaken
  cases htaken

/-- A call keeps the invariant of runs. -/
theorem pageStep_inv {s s' : PageState} {e : PageEvent} (h : PageInv s) (he : pageEnabled s e)
    (hs : pageStep s e = .ok s') : PageInv s' := by
  cases e with
  | malloc n =>
      rcases bind_eq_ok.mp hs with ⟨⟨m, p⟩, hm, hs'⟩
      have hn : 0 < n ∧ n < 3840 := by
        rcases bind_eq_ok.mp hm with ⟨u, hu, _⟩
        exact ensure_eq_ok.mp hu
      rcases mallocPage_fits h.map hn he with ⟨m', i, fr, hok, hrun, hg, _⟩
      rw [hm, Except.ok.injEq, Prod.mk.injEq] at hok
      rw [Except.ok.injEq] at hs'
      subst hs'
      have hpages := h.map.layout.pages_le
      have hlen : i + n ≤ kernelPages s.mem := hrun.1
      have hf : KernelFrame s.mem m' :=
        (kernelFrame_setVaddrBitmap s.mem _ (bitmapSetRange_len _ _ _ _)).trans hg.frame
      -- The bits of the run are set and no others have changed.
      have hbit : ∀ k, bitmapScanTest m'.kernelVaddr.vaddrBitmap k
          = if i ≤ k ∧ k < i + n then true else bitmapScanTest s.mem.kernelVaddr.vaddrBitmap k := by
        intro k
        rw [hg.vaddr]
        exact bitmapScanTest_setRange _ _ _ _ _
      rw [hok.1, hok.2]
      refine ⟨h.map.grant hg, ?_, ?_⟩
      · intro a ha
        rcases List.mem_cons.mp ha with rfl | ha
        · refine ⟨hn.1, ?_, ?_, ?_⟩
          · rw [hf.pages]
            show pageOf (pageAddr i) + n ≤ _
            rw [pageOf_pageAddr (by omega)]
            exact hlen
          · show pageAddr i = pageAddr (pageOf (pageAddr i))
            rw [pageOf_pageAddr (by omega)]
          · show ∀ k, pageOf (pageAddr i) ≤ k → k < pageOf (pageAddr i) + n → _
            rw [pageOf_pageAddr (by omega)]
            intro k h1 h2
            rw [hbit k, if_pos ⟨h1, h2⟩]
        · have hold := h.taken a ha
          refine ⟨hold.1, by rw [hf.pages]; exact hold.2.1, hold.2.2.1, ?_⟩
          intro k h1 h2
          rw [hbit k]
          by_cases hr : i ≤ k ∧ k < i + n
          · rw [if_pos hr]
          · rw [if_neg hr]
            exact hold.2.2.2 k h1 h2
      · refine List.Pairwise.cons ?_ h.apart
        intro a ha
        exact apart_of_free (by omega) hn.1 (h.taken a ha) hrun
  | mfree p n =>
      have htaken := h.taken (p, n) he
      rcases htaken with ⟨hn, hle, haddr, hbits⟩
      rcases h.map.release hn hle hbits with ⟨m', hok, hmap, hf, hv⟩
      have haddr' : p = pageAddr (pageOf p) := haddr
      rw [pageStep, haddr', hok, ok_bind, Except.ok.injEq] at hs
      subst hs
      rw [← haddr']
      refine ⟨hmap, ?_, h.apart.sublist List.erase_sublist⟩
      intro a ha
      have hmem := List.mem_of_mem_erase ha
      have hold := h.taken a hmem
      -- The allocations are apart, so the released one is on the list once.
      have hne : (p, n) ≠ a := by
        rintro rfl
        have hnd : s.live.Nodup := by
          refine h.apart.imp_of_mem ?_
          rintro a b hma _ hab rfl
          have hpos := (h.taken a hma).1
          unfold Apart at hab
          omega
        exact absurd ha (hnd.not_mem_erase)
      have hapart : Apart (p, n) a := h.apart.forall he hmem hne
      refine ⟨hold.1, by rw [hf.pages]; exact hold.2.1, hold.2.2.1, ?_⟩
      intro k h1 h2
      have hout : ¬ (pageOf p ≤ k ∧ k < pageOf p + n) := by
        have hcases : pageOf p + n ≤ pageOf a.1 ∨ pageOf a.1 + a.2 ≤ pageOf p := hapart
        omega
      rw [hv, bitmapScanTest_setRange, if_neg hout]
      exact hold.2.2.2 k h1 h2

/-- Every state reachable by calls of the allocator satisfies the invariant. -/
theorem pageSystem_inv {s : PageState} (h : pageSystem.Reachable s) : PageInv s :=
  System.invariant_of_step pageSystem PageInv (fun _ => pageInit_inv)
    (fun _ _ _ hinv he hs => pageStep_inv hinv he hs) s h

/-- In every run of requests that fit and matching releases: a kernel address
    is taken exactly when the processor finds its page present; present pages
    lie in distinct frames of the kernel pool whose bits are set; requests the
    assertion admits and releases succeed; and a request followed by its
    release restores both bitmaps and all present bits. -/
theorem kernel_page_allocator (s : PageState) (h : pageSystem.Reachable s) :
    (∀ i, i < kernelPages s.mem →
      (bitmapScanTest s.mem.kernelVaddr.vaddrBitmap i = true ↔
        (walk s.mem (pageAddr i)).isSome = true)) ∧
    (∀ i f, i < kernelPages s.mem → walk s.mem (pageAddr i) = some f →
      ∃ j, j < kernelFrames s.mem ∧ f = s.mem.kernelPool.phyAddrStart.toNat / 4096 + j ∧
        bitmapScanTest s.mem.kernelPool.poolBitmap j = true) ∧
    (∀ i k f, i < kernelPages s.mem → k < kernelPages s.mem →
      walk s.mem (pageAddr i) = some f → walk s.mem (pageAddr k) = some f → i = k) ∧
    (∀ n, Fits s.mem n → 0 < n → n < 3840 →
      ∃ m p, mallocPage s.mem .kernel n = .ok (m, p) ∧ p ≠ 0) ∧
    (∀ p n, (p, n) ∈ s.live → ∃ m, mfreePage s.mem .kernel p n = .ok m) ∧
    ∀ n m p, Fits s.mem n → mallocPage s.mem .kernel n = .ok (m, p) →
      ∃ m', mfreePage m .kernel p n = .ok m' ∧ m'.kernelPool = s.mem.kernelPool ∧
        m'.kernelVaddr = s.mem.kernelVaddr ∧
        ∀ i, i < kernelPages s.mem →
          (walk m' (pageAddr i)).isSome = (walk s.mem (pageAddr i)).isSome := by
  have hinv := pageSystem_inv h
  have hmap := hinv.map
  have hpages := hmap.layout.pages_le
  -- What the processor finds at an address is what its entry says.
  have hwalk : ∀ i f, i < kernelPages s.mem → walk s.mem (pageAddr i) = some f →
      isPresent (kernelPte s.mem i) = true ∧ frameOf (kernelPte s.mem i) = f := by
    intro i f hi hw
    rw [walk_pageAddr hmap.half (by omega)] at hw
    cases hp : isPresent (kernelPte s.mem i) with
    | true =>
        rw [hp, if_pos rfl, Option.some.injEq] at hw
        exact ⟨rfl, hw⟩
    | false =>
        rw [hp] at hw
        cases hw
  have hsome : ∀ m i, KernelHalf m → i < kernelPages s.mem →
      (walk m (pageAddr i)).isSome = isPresent (kernelPte m i) := by
    intro m i hk hi
    rw [walk_pageAddr hk (by omega)]
    cases isPresent (kernelPte m i) <;> rfl
  refine ⟨?_, ?_, ?_, ?_, ?_, ?_⟩
  · intro i hi
    rw [hmap.agree i hi, hsome _ i hmap.half hi]
  · intro i f hi hw
    have hp := hwalk i f hi hw
    rcases hmap.mapped i hi hp.1 with ⟨j, hj, hfr, hset⟩
    refine ⟨j, hj, ?_, hset⟩
    rw [hmap.layout.kp_start, ← hp.2, hfr]
    rfl
  · intro i k f hi hk hwi hwk
    have hpi := hwalk i f hi hwi
    have hpk := hwalk k f hk hwk
    exact hmap.inj i k hi hk hpi.1 hpk.1 (hpi.2.trans hpk.2.symm)
  · intro n hfit h1 h2
    rcases mallocPage_fits hmap ⟨h1, h2⟩ hfit with ⟨m, i, fr, hok, hrun, _⟩
    have hlen : i + n ≤ kernelPages s.mem := hrun.1
    exact ⟨m, pageAddr i, hok, pageAddr_ne_zero (by omega)⟩
  · intro p n hmem
    rcases hinv.taken (p, n) hmem with ⟨hn, hle, haddr, hbits⟩
    rcases hmap.release hn hle hbits with ⟨m, hok, _⟩
    have haddr' : p = pageAddr (pageOf p) := haddr
    exact ⟨m, by rw [haddr']; exact hok⟩
  · intro n m p hfit hm
    have hn : 0 < n ∧ n < 3840 := by
      rcases bind_eq_ok.mp hm with ⟨u, hu, _⟩
      exact ensure_eq_ok.mp hu
    rcases mallocPage_fits hmap hn hfit with ⟨m₁, i, fr, hok, hrun, hg, _⟩
    rw [hm, Except.ok.injEq, Prod.mk.injEq] at hok
    rcases hmap.undo hn.1 hrun hg with ⟨m₂, hfree, hf, hpool, hvaddr, hpres⟩
    rw [hok.1, hok.2]
    refine ⟨m₂, hfree, ?_, ?_, ?_⟩
    · cases hk : m₂.kernelPool with
      | mk b a z =>
          cases hk' : s.mem.kernelPool with
          | mk b' a' z' =>
              have h1 := hf.kp_start
              have h2 := hf.kp_size
              rw [hk, hk'] at h1 h2 hpool
              rw [show b = b' from hpool, show a = a' from h1, show z = z' from h2]
    · cases hk : m₂.kernelVaddr with
      | mk b a =>
          cases hk' : s.mem.kernelVaddr with
          | mk b' a' =>
              have h1 := hf.vaddr_start
              rw [hk, hk'] at h1 hvaddr
              rw [show b = b' from hvaddr, show a = a' from h1]
    · intro k hk
      rw [hsome m₂ k (hf.kernelHalf hmap.half) hk, hsome _ k hmap.half hk]
      exact hpres k hk

/-- A machine as the loader leaves it: nothing but the kernel half of the page
    directory. -/
def loaderMachine : Machine where
  phys f d :=
    if f = 0x100 ∧ 768 ≤ d ∧ d < 1023 then entryFor (BitVec.ofNat 32 (0x101 + (d - 768)) * pgSize)
    else if f = 0x100 ∧ d = 1023 then entryFor 0x100000
    else 0
  cr3 := 0x100
  kernelPool := ⟨⟨0, fun _ => 0⟩, 0, 0⟩
  userPool := ⟨⟨0, fun _ => 0⟩, 0, 0⟩
  kernelVaddr := ⟨⟨0, fun _ => 0⟩, 0⟩
  cur := ⟨0, 0, 0, 0⟩

theorem loaderMachine_half : KernelHalf loaderMachine := by
  refine ⟨⟨rfl, rfl⟩, ?_, Or.inl (by decide)⟩
  intro d h1 h2
  have hpte : loaderMachine.phys loaderMachine.cr3 d
      = entryFor (BitVec.ofNat 32 (0x101 + (d - 768)) * pgSize) := if_pos ⟨rfl, h1, h2⟩
  have hnat := toNat_mul_pgSize (n := 0x101 + (d - 768)) (by omega)
  rw [hpte]
  refine ⟨isPresent_entryFor (by omega), ?_⟩
  rw [frameOf_entryFor (by omega), hnat]
  omega

/-- The state after `mem_pool_init` on a machine with 32 MB. -/
def bootPages : PageState := { mem := memPoolInit loaderMachine 0x2000000, live := [] }

theorem bootPages_init : pageInit bootPages := by
  refine ⟨loaderMachine, 0x2000000, rfl, loaderMachine_half, rfl, ?_⟩
  intro i hi
  have hframe : pteFrame i ≠ 0x100 := by
    unfold pteFrame
    omega
  have hpte : kernelPte bootPages.mem i = 0 := by
    show (if pteFrame i = 0x100 ∧ _ then _ else if pteFrame i = 0x100 ∧ _ then _ else (0 : Word)) = 0
    rw [if_neg (fun hc => hframe hc.1), if_neg (fun hc => hframe hc.1)]
  rw [hpte]
  rfl

/-- `kernel_page_allocator` for a request of two pages after start-up. -/
theorem kernel_page_allocator_boot :
    ∃ m p m', mallocPage bootPages.mem .kernel 2 = .ok (m, p) ∧ p ≠ 0 ∧
      mfreePage m .kernel p 2 = .ok m' ∧ m'.kernelPool = bootPages.mem.kernelPool := by
  have hreach : pageSystem.Reachable bootPages := System.Reachable.init _ bootPages_init
  have hfit : Fits bootPages.mem 2 := by
    refine ⟨⟨0, by decide, fun i _ hi => bitmapScanTest_init ?_⟩, ?_⟩
    · show i < 3840
      omega
    · show 2 ≤ freeCount (bitmapInit _)
      rw [freeCount_init]
      decide
  have hall := kernel_page_allocator bootPages hreach
  rcases hall.2.2.2.1 2 hfit (by decide) (by decide) with ⟨m, p, hm, hp⟩
  rcases hall.2.2.2.2.2 2 m p hfit hm with ⟨m', hfree, hpool, _⟩
  exact ⟨m, p, m', hm, hp, hfree, hpool⟩

end ForikOS
