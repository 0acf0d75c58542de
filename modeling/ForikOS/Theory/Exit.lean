import ForikOS.Core.Exit
import ForikOS.Theory.Fork

/-!
# What a Process Leaves Behind

A fork takes kernel pages for the PCB, for the copies, for the bitmap of user
addresses and for the page directory, and they are given back in three places:
the page for the copies by the fork itself, the bitmap by `sys_exit`, and the
rest by `sys_wait`.

The number of pages of the bitmap is computed twice. `copy_pcb_vaddrbitmap_stack0`
divides its length by the size of a page and rounds up, `release_prog_resource`
divides and rounds down, and the length is no multiple of the size. So one page
stays behind for every process, whatever the process has done, and its bit in
`kernel_vaddr` tells.

Only the bits of `kernel_vaddr` have to be followed for that. Most of what the
calls do does not touch them (`SameVaddr`).

## Main definitions

* `SameVaddr`: The kernel addresses have not changed.
* `SameResources`: The four bitmaps a process takes from are the same.
* `OnlyUserMemory`: What may happen between the calls.

## Theorems

* `getKernelPages_vaddr`, `mfreePage_vaddr`: What the allocator does to the
  bits.
* `sysFork_steps`: The machines along a fork.
* `process_leaves_page`: No process gives everything back.
-/

namespace ForikOS

/-- The kernel addresses have not changed. -/
def SameVaddr (m m' : Machine) : Prop := m'.kernelVaddr = m.kernelVaddr

theorem SameVaddr.trans {m m' m'' : Machine} (h : SameVaddr m m') (h' : SameVaddr m' m'') :
    SameVaddr m m'' :=
  Eq.trans h' h

section Vaddr

variable {m m' : Machine}

theorem store_vaddr {v w : Word} (h : store m v w = .ok m') : SameVaddr m m' := by
  unfold store at h
  cases hw : walk m v with
  | none =>
      rw [hw] at h
      cases h
  | some f =>
      rw [hw, Except.ok.injEq] at h
      rw [← h]
      rfl

theorem clearPage_vaddr {v : Word} (h : clearPage m v = .ok m') : SameVaddr m m' := by
  unfold clearPage at h
  cases hw : walk m v with
  | none =>
      rw [hw] at h
      cases h
  | some f =>
      rw [hw, Except.ok.injEq] at h
      rw [← h]
      rfl

theorem clearPages_vaddr {n : Nat} {v : Word} (h : clearPages n m v = .ok m') : SameVaddr m m' := by
  induction n generalizing m v with
  | zero =>
      rw [clearPages, Except.ok.injEq] at h
      rw [← h]
      rfl
  | succ n ih =>
      rcases bind_eq_ok.mp h with ⟨m₁, h₁, h⟩
      exact (clearPage_vaddr h₁).trans (ih h)

theorem setPool_vaddr (m : Machine) (p : Pool) (pf : PoolFlags) : SameVaddr m (m.setPool p pf) := by
  cases pf with
  | kernel => rfl
  | user => rfl

theorem pageTableAdd_vaddr {v phy : Word} (h : pageTableAdd m v phy = .ok m') : SameVaddr m m' := by
  rw [pageTableAdd] at h
  rcases bind_eq_ok.mp h with ⟨pde, -, h⟩
  by_cases hp : isPresent pde = true
  · rw [if_pos hp] at h
    rcases bind_eq_ok.mp h with ⟨pte, -, h⟩
    rcases bind_eq_ok.mp h with ⟨_, -, h⟩
    exact store_vaddr h
  · rw [if_neg hp] at h
    rcases bind_eq_ok.mp h with ⟨⟨p, pdePhyaddr⟩, -, h⟩
    rcases bind_eq_ok.mp h with ⟨m₁, h₁, h⟩
    rcases bind_eq_ok.mp h with ⟨m₂, h₂, h⟩
    rcases bind_eq_ok.mp h with ⟨pte, -, h⟩
    rcases bind_eq_ok.mp h with ⟨_, -, h⟩
    exact (((setPool_vaddr m p .kernel).trans (store_vaddr h₁)).trans (clearPage_vaddr h₂)).trans
      (store_vaddr h)

theorem mallocLoop_vaddr {pf : PoolFlags} {n : Nat} {v : Word} {done : Bool}
    (h : mallocLoop pf n m v = .ok (m', done)) : SameVaddr m m' := by
  induction n generalizing m v with
  | zero =>
      rw [mallocLoop, Except.ok.injEq, Prod.mk.injEq] at h
      rw [← h.1]
      rfl
  | succ n ih =>
      rcases bind_eq_ok.mp h with ⟨⟨p, pagePhyaddr⟩, -, h⟩
      dsimp only at h
      by_cases hz : pagePhyaddr = 0
      · rw [if_pos hz, Except.ok.injEq, Prod.mk.injEq] at h
        rw [← h.1]
        exact setPool_vaddr m p pf
      · rw [if_neg hz] at h
        rcases bind_eq_ok.mp h with ⟨m₁, h₁, h⟩
        exact ((setPool_vaddr m p pf).trans (pageTableAdd_vaddr h₁)).trans (ih h)

theorem memcpyIn_vaddr {dst src : Word} {n : Nat} (h : memcpyIn m dst src n = .ok m') :
    SameVaddr m m' := by
  unfold memcpyIn at h
  cases hs : walk m src with
  | none =>
      rw [hs] at h
      cases h
  | some fs =>
      cases hd : walk m dst with
      | none =>
          rw [hs, hd] at h
          cases h
      | some fd =>
          rw [hs, hd, Except.ok.injEq] at h
          rw [← h]
          rfl

theorem memcpyPages_vaddr {n : Nat} {dst src : Word} (h : memcpyPages n m dst src = .ok m') :
    SameVaddr m m' := by
  induction n generalizing m dst src with
  | zero =>
      rw [memcpyPages, Except.ok.injEq] at h
      rw [← h]
      rfl
  | succ n ih =>
      rcases bind_eq_ok.mp h with ⟨m₁, h₁, h⟩
      exact (memcpyIn_vaddr h₁).trans (ih h)

theorem pageDirActivate_vaddr {pgdir : Word} (h : pageDirActivate m pgdir = .ok m') :
    SameVaddr m m' := by
  unfold pageDirActivate at h
  dsimp only at h
  split at h
  · rcases bind_eq_ok.mp h with ⟨phy, -, h⟩
    rw [Except.ok.injEq] at h
    rw [← h]
    rfl
  · rw [ok_bind, Except.ok.injEq] at h
    rw [← h]
    rfl

theorem getAPage_vaddr {pf : PoolFlags} {v r : Word}
    (h : getAPageWithoutOpvaddrbitmap m pf v = .ok (m', r)) : SameVaddr m m' := by
  rcases bind_eq_ok.mp h with ⟨⟨p, phy⟩, -, h⟩
  dsimp only at h
  by_cases hz : phy = 0
  · rw [if_pos hz, Except.ok.injEq, Prod.mk.injEq] at h
    rw [← h.1]
    exact setPool_vaddr m p pf
  · rw [if_neg hz] at h
    rcases bind_eq_ok.mp h with ⟨m₁, h₁, h⟩
    rw [Except.ok.injEq, Prod.mk.injEq] at h
    rw [← h.1]
    exact (setPool_vaddr m p pf).trans (pageTableAdd_vaddr h₁)

theorem copyPage_vaddr {child parent : ProcMem} {buf v : Word}
    (h : copyPage m child parent buf v = .ok m') : SameVaddr m m' := by
  rcases bind_eq_ok.mp h with ⟨m₁, h₁, h⟩
  rcases bind_eq_ok.mp h with ⟨m₂, h₂, h⟩
  rcases bind_eq_ok.mp h with ⟨⟨m₃, r⟩, h₃, h⟩
  rcases bind_eq_ok.mp h with ⟨m₄, h₄, h⟩
  exact ((((memcpyIn_vaddr h₁).trans (pageDirActivate_vaddr h₂)).trans (getAPage_vaddr h₃)).trans
    (memcpyIn_vaddr h₄)).trans (pageDirActivate_vaddr h)

theorem copyBits_vaddr {child parent : ProcMem} {buf : Word} {idxByte n idxBit : Nat}
    (h : copyBits child parent buf idxByte n idxBit m = .ok m') : SameVaddr m m' := by
  induction n generalizing m idxBit with
  | zero =>
      rw [copyBits, Except.ok.injEq] at h
      rw [← h]
      rfl
  | succ n ih =>
      rcases bind_eq_ok.mp h with ⟨byte, -, h⟩
      dsimp only at h
      split at h
      · rcases bind_eq_ok.mp h with ⟨m₁, h₁, h⟩
        exact (copyPage_vaddr h₁).trans (ih h)
      · rw [ok_bind] at h
        exact ih h

theorem copyBytes_vaddr {child parent : ProcMem} {buf : Word} {n idxByte : Nat}
    (h : copyBytes child parent buf n idxByte m = .ok m') : SameVaddr m m' := by
  induction n generalizing m idxByte with
  | zero =>
      rw [copyBytes, Except.ok.injEq] at h
      rw [← h]
      rfl
  | succ n ih =>
      rcases bind_eq_ok.mp h with ⟨byte, -, h⟩
      dsimp only at h
      split at h
      · rcases bind_eq_ok.mp h with ⟨m₁, h₁, h⟩
        exact (copyBits_vaddr h₁).trans (ih h)
      · rw [ok_bind] at h
        exact ih h

theorem freeAPhyPage_vaddr (m : Machine) (phy : Word) : SameVaddr m (freeAPhyPage m phy) :=
  setPool_vaddr m _ _

theorem releasePtes_vaddr {first : Word} {n idx : Nat} (h : releasePtes first n idx m = .ok m') :
    SameVaddr m m' := by
  induction n generalizing m idx with
  | zero =>
      rw [releasePtes, Except.ok.injEq] at h
      rw [← h]
      rfl
  | succ n ih =>
      rcases bind_eq_ok.mp h with ⟨pte, -, h⟩
      refine SameVaddr.trans ?_ (ih h)
      split
      · exact freeAPhyPage_vaddr m _
      · rfl

theorem releasePdes_vaddr {pgdir : Word} {n idx : Nat} (h : releasePdes pgdir n idx m = .ok m') :
    SameVaddr m m' := by
  induction n generalizing m idx with
  | zero =>
      rw [releasePdes, Except.ok.injEq] at h
      rw [← h]
      rfl
  | succ n ih =>
      rcases bind_eq_ok.mp h with ⟨pde, -, h⟩
      dsimp only at h
      split at h
      · rcases bind_eq_ok.mp h with ⟨m₁, h₁, h⟩
        rw [ok_bind] at h
        exact ((releasePtes_vaddr h₁).trans (freeAPhyPage_vaddr m₁ _)).trans (ih h)
      · rw [ok_bind] at h
        exact ih h

theorem mfreeLoop_vaddr {belongs : Word → Bool} {n : Nat} {v : Word}
    (h : mfreeLoop belongs n m v = .ok m') : SameVaddr m m' := by
  induction n generalizing m v with
  | zero =>
      rw [mfreeLoop, Except.ok.injEq] at h
      rw [← h]
      rfl
  | succ n ih =>
      rcases bind_eq_ok.mp h with ⟨phy, -, h⟩
      rcases bind_eq_ok.mp h with ⟨_, -, h⟩
      rcases bind_eq_ok.mp h with ⟨m₁, h₁, h⟩
      rcases bind_eq_ok.mp h₁ with ⟨pte, -, h₁⟩
      exact ((freeAPhyPage_vaddr m phy).trans (store_vaddr h₁)).trans (ih h)

/-- The address of a kernel page, from where the kernel addresses start. -/
def vaddrOf (m : Machine) (s : Nat) : Word :=
  m.kernelVaddr.vaddrStart + BitVec.ofNat 32 s * pgSize

theorem vaddrOf_idx {s : Nat} (hs : s ≤ 32768) :
    ((vaddrOf m s - m.kernelVaddr.vaddrStart) / pgSize).toNat = s := by
  have hsub : vaddrOf m s - m.kernelVaddr.vaddrStart = BitVec.ofNat 32 s * pgSize := by
    rw [vaddrOf, BitVec.add_comm, BitVec.add_sub_cancel]
  have hsize : pgSize.toNat = 4096 := rfl
  rw [hsub, BitVec.toNat_udiv, BitVec.toNat_mul, BitVec.toNat_ofNat, hsize]
  omega

/-- What `get_kernel_pages` does to the bits. -/
theorem getKernelPages_vaddr {n : Nat} {v : Word} (h : getKernelPages m n = .ok (m', v))
    (hv : v ≠ 0) : ∃ s, v = vaddrOf m s ∧ ClearRun m.kernelVaddr.vaddrBitmap n s ∧
      s ≤ kernelPages m ∧ m'.kernelVaddr = (reserve m s n).kernelVaddr := by
  rcases bind_eq_ok.mp h with ⟨⟨m₁, v₁⟩, h₁, h⟩
  rcases bind_eq_ok.mp h₁ with ⟨_, hn, h₁⟩
  have hn := ensure_eq_ok.mp hn
  rcases bind_eq_ok.mp h₁ with ⟨⟨m₂, v₂⟩, h₂, h₁⟩
  rcases bind_eq_ok.mp h₂ with ⟨r, h₃, h₂⟩
  dsimp only at h h₁
  -- Clearing the pages does not change the address that is returned.
  have hv₁ : v₁ = v := by
    by_cases hz : v₁ = 0
    · rw [if_pos hz, Except.ok.injEq, Prod.mk.injEq] at h
      exact h.2
    · rw [if_neg hz] at h
      rcases bind_eq_ok.mp h with ⟨m₄, -, h⟩
      rw [Except.ok.injEq, Prod.mk.injEq] at h
      exact h.2
  rw [hv₁, if_neg hv] at h
  rcases bind_eq_ok.mp h with ⟨m₄, hclear, h⟩
  rw [Except.ok.injEq, Prod.mk.injEq] at h
  by_cases hz : v₂ = 0
  · rw [if_pos hz, Except.ok.injEq, Prod.mk.injEq] at h₁
    exact absurd (hv₁ ▸ h₁.2.symm) hv
  rw [if_neg hz] at h₁
  rcases bind_eq_ok.mp h₁ with ⟨⟨m₃, done⟩, hloop, h₁⟩
  dsimp only at h₁
  rw [Except.ok.injEq, Prod.mk.injEq, hv₁] at h₁
  -- The loop over the pages was done, or the address would be zero.
  have hdone : v₂ = v := by
    by_cases hd : done = true
    · rw [if_pos hd] at h₁
      exact h₁.2
    · rw [if_neg hd] at h₁
      exact absurd h₁.2.symm hv
  -- The scan has found a run, as no run means the address zero.
  cases r with
  | none =>
      rw [Except.ok.injEq, Prod.mk.injEq] at h₂
      exact absurd h₂.2.symm hz
  | some s =>
      rw [Except.ok.injEq, Prod.mk.injEq] at h₂
      have hfound := bitmapScan_found (by omega) h₃
      refine ⟨s, ?_, hfound.1, hfound.2, ?_⟩
      · rw [← hdone, ← h₂.2]
        rfl
      · rw [← h.1, clearPages_vaddr hclear, ← h₁.1, mallocLoop_vaddr hloop, ← h₂.1]
        rfl

/-- What `mfree_page` does to the bits. -/
theorem mfreePage_vaddr {n s : Nat} (hs : s ≤ 32768)
    (h : mfreePage m .kernel (vaddrOf m s) n = .ok m') :
    m'.kernelVaddr.vaddrBitmap = bitmapSetRange m.kernelVaddr.vaddrBitmap s false n ∧
      m'.kernelVaddr.vaddrStart = m.kernelVaddr.vaddrStart := by
  rcases bind_eq_ok.mp h with ⟨_, -, h⟩
  rcases bind_eq_ok.mp h with ⟨phy, -, h⟩
  rcases bind_eq_ok.mp h with ⟨_, -, h⟩
  rcases bind_eq_ok.mp h with ⟨m₁, h₁, h⟩
  have hsame : m₁.kernelVaddr = m.kernelVaddr := mfreeLoop_vaddr h₁
  rw [vaddrRemove, Except.ok.injEq] at h
  rw [hsame, vaddrOf_idx hs] at h
  rw [← h]
  refine ⟨rfl, ?_⟩
  show m₁.kernelVaddr.vaddrStart = _
  rw [hsame]

end Vaddr

/-- The machines along a fork that succeeds, and the child it makes. -/
structure ForkSteps (k k' : Kernel) (child : Word) (mA mB mC mD mE mF : Machine)
    (bufPage bits pgdir : Word) : Prop where
  nonzero : child ≠ 0 ∧ bufPage ≠ 0 ∧ bits ≠ 0 ∧ pgdir ≠ 0
  pcbPage : getKernelPages k.mem 1 = .ok (mA, child)
  copyPage : getKernelPages mA 1 = .ok (mB, bufPage)
  bitmap : getKernelPages mB bitmapPgCnt = .ok (mC, bits)
  copied : SameVaddr mC mD
  dir : createPageDir mD = .ok (mE, pgdir)
  body : SameVaddr mE mF
  freed : mfreePage mF .kernel bufPage 1 = .ok k'.mem
  list : k'.threadAllList = k.threadAllList ++ [child]
  pcb : (k'.pcb child).mem = { (k.pcb k.cur).mem with bits := bits, pgdir := pgdir }

section Fork

variable {k k' : Kernel} {child parent : Word}

theorem copyPcb_steps (h : copyPcbVaddrbitmapStack0 k child parent = .ok (k', true)) :
    ∃ mC bits, bits ≠ 0 ∧ getKernelPages k.mem bitmapPgCnt = .ok (mC, bits) ∧ SameVaddr mC k'.mem ∧
      k'.threadAllList = k.threadAllList ∧
      (k'.pcb child).mem = { (k.pcb parent).mem with bits := bits } := by
  rw [copyPcbVaddrbitmapStack0] at h
  rcases bind_eq_ok.mp h with ⟨⟨pool, pid⟩, -, h⟩
  rcases bind_eq_ok.mp h with ⟨⟨m, vaddrBtmp⟩, hget, h⟩
  dsimp only at h hget
  by_cases hz : vaddrBtmp = 0
  · rw [if_pos hz, Except.ok.injEq, Prod.mk.injEq] at h
    cases h.2
  · rw [if_neg hz] at h
    rcases bind_eq_ok.mp h with ⟨m', hcopy, h⟩
    rcases bind_eq_ok.mp h with ⟨_, -, h⟩
    rw [Except.ok.injEq, Prod.mk.injEq] at h
    refine ⟨m, vaddrBtmp, hz, hget, ?_, ?_, ?_⟩
    · rw [← h.1]
      exact memcpyPages_vaddr hcopy
    · rw [← h.1]
      rfl
    · rw [← h.1]
      dsimp only [Kernel.setPcb]
      rw [Function.update_self]

theorem copyProcess_steps (h : copyProcess k child parent = .ok (k', true)) :
    ∃ mB mC mD mE mF bufPage bits pgdir, (bufPage ≠ 0 ∧ bits ≠ 0 ∧ pgdir ≠ 0) ∧
      getKernelPages k.mem 1 = .ok (mB, bufPage) ∧
      getKernelPages mB bitmapPgCnt = .ok (mC, bits) ∧ SameVaddr mC mD ∧
      createPageDir mD = .ok (mE, pgdir) ∧ SameVaddr mE mF ∧
      mfreePage mF .kernel bufPage 1 = .ok k'.mem ∧ k'.threadAllList = k.threadAllList ∧
      (k'.pcb child).mem = { (k.pcb parent).mem with bits := bits, pgdir := pgdir } := by
  rw [copyProcess] at h
  rcases bind_eq_ok.mp h with ⟨⟨mB, bufPage⟩, hbuf, h⟩
  dsimp only at h
  -- The three allocations in their order. After each a zero would have ended
  -- the copy with a failure.
  by_cases hz : bufPage = 0
  · rw [if_pos hz, Except.ok.injEq, Prod.mk.injEq] at h
    cases h.2
  rw [if_neg hz] at h
  rcases bind_eq_ok.mp h with ⟨⟨k₁, copied⟩, hcopy, h⟩
  dsimp only at h
  by_cases hc : copied = false
  · rw [if_pos hc, Except.ok.injEq, Prod.mk.injEq] at h
    cases h.2
  rw [if_neg hc] at h
  rw [Bool.not_eq_false] at hc
  rw [hc] at hcopy
  rcases copyPcb_steps hcopy with ⟨mC, bits, hbits, hget, hsame, hlist, hpcb⟩
  rcases bind_eq_ok.mp h with ⟨⟨mE, pgdir⟩, hdir, h⟩
  dsimp only at h
  by_cases hp : pgdir = 0
  · rw [if_pos hp, Except.ok.injEq, Prod.mk.injEq] at h
    cases h.2
  rw [if_neg hp] at h
  rcases bind_eq_ok.mp h with ⟨mF, hbody, h⟩
  rcases bind_eq_ok.mp h with ⟨fs, -, h⟩
  rcases bind_eq_ok.mp h with ⟨mG, hfree, h⟩
  rw [Except.ok.injEq, Prod.mk.injEq] at h
  refine ⟨mB, mC, k₁.mem, mE, mF, bufPage, bits, pgdir, ⟨hz, hbits, hp⟩, hbuf, hget, hsame, hdir,
    copyBytes_vaddr hbody, ?_, ?_, ?_⟩
  · rw [← h.1]
    exact hfree
  · rw [← h.1]
    exact hlist
  · rw [← h.1]
    dsimp only [Kernel.setPcb]
    rw [Function.update_self]
    dsimp only
    rw [hpcb]

theorem sysFork_steps {r : Int} (h : sysFork k = .ok (k', r)) (hr : r ≠ -1) :
    ∃ child mA mB mC mD mE mF bufPage bits pgdir,
      ForkSteps k k' child mA mB mC mD mE mF bufPage bits pgdir := by
  rw [sysFork] at h
  rcases bind_eq_ok.mp h with ⟨⟨mA, child⟩, hpage, h⟩
  dsimp only at h
  -- The two early returns give -1, which is excluded.
  by_cases hz : child = 0
  · rw [if_pos hz, Except.ok.injEq, Prod.mk.injEq] at h
    exact absurd h.2.symm hr
  rw [if_neg hz] at h
  rcases bind_eq_ok.mp h with ⟨_, -, h⟩
  rcases bind_eq_ok.mp h with ⟨⟨k₁, done⟩, hcopy, h⟩
  dsimp only at h
  by_cases hd : done = false
  · rw [if_pos hd, Except.ok.injEq, Prod.mk.injEq] at h
    exact absurd h.2.symm hr
  rw [if_neg hd] at h
  rw [Bool.not_eq_false] at hd
  rw [hd] at hcopy
  rcases bind_eq_ok.mp h with ⟨_, -, h⟩
  rcases bind_eq_ok.mp h with ⟨_, -, h⟩
  rw [Except.ok.injEq, Prod.mk.injEq] at h
  rcases copyProcess_steps hcopy with ⟨mB, mC, mD, mE, mF, bufPage, bits, pgdir, hne, hbuf, hget,
    hsame, hdir, hbody, hfree, hlist, hpcb⟩
  refine ⟨child, mA, mB, mC, mD, mE, mF, bufPage, bits, pgdir, ⟨⟨hz, hne⟩, hpage, hbuf, hget, hsame,
    hdir, hbody, ?_, ?_, ?_⟩⟩
  · rw [← h.1]
    exact hfree
  · rw [← h.1]
    show k₁.threadAllList ++ [child] = _
    rw [hlist]
  · rw [← h.1]
    exact hpcb

/-- What `create_page_dir` does to the bits. -/
theorem createPageDir_vaddr {m m' : Machine} {v : Word} (h : createPageDir m = .ok (m', v))
    (hv : v ≠ 0) : ∃ s, v = vaddrOf m s ∧ ClearRun m.kernelVaddr.vaddrBitmap 1 s ∧
      s ≤ kernelPages m ∧ m'.kernelVaddr = (reserve m s 1).kernelVaddr := by
  rw [createPageDir] at h
  rcases bind_eq_ok.mp h with ⟨⟨m₁, v₁⟩, hget, h⟩
  dsimp only at h
  by_cases hz : v₁ = 0
  · rw [if_pos hz, Except.ok.injEq, Prod.mk.injEq] at h
    exact absurd h.2.symm hv
  rw [if_neg hz] at h
  rcases bind_eq_ok.mp h with ⟨m₂, hcopy, h⟩
  rcases bind_eq_ok.mp h with ⟨phy, -, h⟩
  rcases bind_eq_ok.mp h with ⟨m₃, hstore, h⟩
  rw [Except.ok.injEq, Prod.mk.injEq] at h
  rcases getKernelPages_vaddr hget hz with ⟨s, hs, hclear, hle, hres⟩
  refine ⟨s, h.2 ▸ hs, hclear, hle, ?_⟩
  rw [← h.1, store_vaddr hstore, memcpyIn_vaddr hcopy, hres]

end Fork

/-- The four bitmaps that a process takes from are the same. -/
def SameResources (k k' : Kernel) : Prop :=
  k'.mem.kernelPool.poolBitmap = k.mem.kernelPool.poolBitmap ∧
    k'.mem.userPool.poolBitmap = k.mem.userPool.poolBitmap ∧
    k'.mem.kernelVaddr.vaddrBitmap = k.mem.kernelVaddr.vaddrBitmap ∧ k'.pidPool = k.pidPool

/-- What happens while a process runs that takes no memory but user memory, and
    while others do: no kernel page is taken, and the PCB says the same about
    the memory of the process. -/
structure OnlyUserMemory (k k' : Kernel) (child : Word) : Prop where
  vaddr : k'.mem.kernelVaddr = k.mem.kernelVaddr
  pcb : (k'.pcb child).mem = (k.pcb child).mem

section Exit

variable {k k' : Kernel} {child : Word}

/-- Page `x` is taken in `m`, where the kernel addresses start where they do in
    `m₀`. -/
structure PageTaken (m₀ : Machine) (x : Nat) (m : Machine) : Prop where
  set : bitmapScanTest m.kernelVaddr.vaddrBitmap x = true
  start : m.kernelVaddr.vaddrStart = m₀.kernelVaddr.vaddrStart

theorem PageTaken.same {m₀ m m' : Machine} {x : Nat} (h : PageTaken m₀ x m) (hs : SameVaddr m m') :
    PageTaken m₀ x m' := by
  unfold SameVaddr at hs
  exact ⟨by rw [hs]; exact h.set, by rw [hs]; exact h.start⟩

/-- Releasing a run of pages leaves the others taken. -/
theorem PageTaken.free {m₀ m m' : Machine} {x s n : Nat} (h : PageTaken m₀ x m) (hs : s ≤ 32768)
    (hfree : mfreePage m .kernel (vaddrOf m₀ s) n = .ok m') (hx : ¬ (s ≤ x ∧ x < s + n)) :
    PageTaken m₀ x m' := by
  have hv : vaddrOf m₀ s = vaddrOf m s := by rw [vaddrOf, vaddrOf, h.start]
  rw [hv] at hfree
  rcases mfreePage_vaddr hs hfree with ⟨hbits, hstart⟩
  refine ⟨?_, hstart.trans h.start⟩
  rw [hbits, bitmapScanTest_setRange, if_neg hx]
  exact h.set

theorem reserve_bit (m : Machine) (s n x : Nat) :
    bitmapScanTest (reserve m s n).kernelVaddr.vaddrBitmap x
      = if s ≤ x ∧ x < s + n then true else bitmapScanTest m.kernelVaddr.vaddrBitmap x :=
  bitmapScanTest_setRange _ _ _ _ _

theorem kernelPages_reserved {m m' : Machine} {s n : Nat}
    (h : m'.kernelVaddr = (reserve m s n).kernelVaddr) : kernelPages m' = kernelPages m := by
  rw [kernelPages, h]
  show (bitmapSetRange _ _ _ _).btmpBytesLen * 8 = _
  rw [bitmapSetRange_len]
  rfl

theorem start_reserved {m m' : Machine} {s n : Nat}
    (h : m'.kernelVaddr = (reserve m s n).kernelVaddr) :
    m'.kernelVaddr.vaddrStart = m.kernelVaddr.vaddrStart := by
  rw [h]
  rfl

/-- A bit that is clear after pages have been taken was clear before, and is
    none of theirs. -/
theorem clear_of_reserved {m m' : Machine} {s n x : Nat}
    (h : m'.kernelVaddr = (reserve m s n).kernelVaddr)
    (hx : bitmapScanTest m'.kernelVaddr.vaddrBitmap x = false) :
    ¬ (s ≤ x ∧ x < s + n) ∧ bitmapScanTest m.kernelVaddr.vaddrBitmap x = false := by
  rw [h, reserve_bit] at hx
  by_cases hin : s ≤ x ∧ x < s + n
  · rw [if_pos hin] at hx
    cases hx
  · rw [if_neg hin] at hx
    exact ⟨hin, hx⟩

/-- The last page of the child's bitmap after a fork. -/
structure LastPage (k k' : Kernel) (child bits pgdir : Word) (cp sb da : Nat) : Prop where
  child : child = vaddrOf k.mem cp ∧ cp ≤ 32768
  bits : bits = vaddrOf k.mem sb ∧ sb ≤ 32768
  pgdir : pgdir = vaddrOf k.mem da ∧ da ≤ 32768
  before : bitmapScanTest k.mem.kernelVaddr.vaddrBitmap (sb + 22) = false
  apart : sb + 22 ≠ cp ∧ sb + 22 ≠ da
  taken : PageTaken k.mem (sb + 22) k'.mem

theorem ForkSteps.lastPage {mA mB mC mD mE mF : Machine} {buf bits pgdir : Word}
    (h : ForkSteps k k' child mA mB mC mD mE mF buf bits pgdir) (hl : PoolLayout k.mem) :
    ∃ cp sb da, LastPage k k' child bits pgdir cp sb da := by
  have hpages : kernelPages k.mem ≤ 32768 := hl.pages_le
  have hcnt : bitmapPgCnt = 23 := rfl
  rcases getKernelPages_vaddr h.pcbPage h.nonzero.1 with ⟨cp, hcp, -, hcple, hA⟩
  rcases getKernelPages_vaddr h.copyPage h.nonzero.2.1 with ⟨ba, hba, -, hbale, hB⟩
  rcases getKernelPages_vaddr h.bitmap h.nonzero.2.2.1 with ⟨sb, hsb, hclear, hsble, hC⟩
  rcases createPageDir_vaddr h.dir h.nonzero.2.2.2 with ⟨da, hda, hdaclear, hdale, hE⟩
  have hpA := kernelPages_reserved hA
  have hpB := kernelPages_reserved hB
  have hpC := kernelPages_reserved hC
  have hD : mD.kernelVaddr = mC.kernelVaddr := h.copied
  have hpD : kernelPages mD = kernelPages mC := by rw [kernelPages, hD, kernelPages]
  have hstA : mA.kernelVaddr.vaddrStart = k.mem.kernelVaddr.vaddrStart := start_reserved hA
  have hstB : mB.kernelVaddr.vaddrStart = k.mem.kernelVaddr.vaddrStart :=
    (start_reserved hB).trans hstA
  have hstC : mC.kernelVaddr.vaddrStart = k.mem.kernelVaddr.vaddrStart :=
    (start_reserved hC).trans hstB
  have hstD : mD.kernelVaddr.vaddrStart = k.mem.kernelVaddr.vaddrStart := by rw [hD, hstC]
  have hstE : mE.kernelVaddr.vaddrStart = k.mem.kernelVaddr.vaddrStart :=
    (start_reserved hE).trans hstD
  -- The page is free when the bitmap is taken, so it was free before.
  rcases clear_of_reserved hB (hclear (sb + 22) (by omega) (by omega)) with ⟨hxba, hxA⟩
  rcases clear_of_reserved hA hxA with ⟨hxcp, hx⟩
  have hxD : bitmapScanTest mD.kernelVaddr.vaddrBitmap (sb + 22) = true := by
    rw [hD, hC, reserve_bit, if_pos ⟨by omega, by omega⟩]
  have hxda : sb + 22 ≠ da := by
    intro hc
    rw [hc, hdaclear da (Nat.le_refl _) (by omega)] at hxD
    cases hxD
  have hxE : PageTaken k.mem (sb + 22) mE := by
    refine ⟨?_, hstE⟩
    rw [hE, reserve_bit, if_neg (by omega)]
    exact hxD
  have hfreed := h.freed
  rw [hba, show vaddrOf mA ba = vaddrOf k.mem ba by rw [vaddrOf, vaddrOf, hstA]] at hfreed
  refine ⟨cp, sb, da, ⟨⟨hcp, by omega⟩, ⟨?_, by omega⟩, ⟨?_, by omega⟩, hx, ⟨by omega, hxda⟩,
    (hxE.same h.body).free (by omega) hfreed hxba⟩⟩
  · rw [hsb, vaddrOf, vaddrOf, hstB]
  · rw [hda, vaddrOf, vaddrOf, hstD]

theorem initAdoptAChild_mem (k : Kernel) (pid : Int) (t : Word) :
    ((k.initAdoptAChild pid).pcb t).mem = (k.pcb t).mem := by
  show Pcb.mem (if _ then _ else _) = _
  split
  · rfl
  · rfl

theorem setPcb_mem (k : Kernel) (a t : Word) (v : Pcb) (hv : v.mem = (k.pcb a).mem) :
    ((k.setPcb a v).pcb t).mem = (k.pcb t).mem := by
  show Pcb.mem (Function.update k.pcb a v t) = _
  by_cases ht : t = a
  · rw [ht, Function.update_self, hv]
  · rw [Function.update_of_ne ht]

theorem wakeParent_same {parent : Word} (h : k.wakeParent parent = .ok k') :
    k'.mem = k.mem ∧ ∀ t, (k'.pcb t).mem = (k.pcb t).mem := by
  unfold Kernel.wakeParent at h
  split at h
  · rcases bind_eq_ok.mp h with ⟨_, -, h⟩
    rw [Except.ok.injEq] at h
    rw [← h]
    exact ⟨rfl, fun t => setPcb_mem _ _ t _ rfl⟩
  · rw [Except.ok.injEq] at h
    rw [← h]
    exact ⟨rfl, fun _ => rfl⟩

/-- What `sys_exit` does to the kernel addresses. -/
theorem sysExit_steps (h : k.sysExit = .ok k') : ∃ m, SameVaddr k.mem m ∧
    mfreePage m .kernel (k.pcb k.cur).mem.bits (releasedPgCnt (k.pcb k.cur).mem) = .ok k'.mem ∧
    ∀ t, (k'.pcb t).mem = (k.pcb t).mem := by
  rw [Kernel.sysExit] at h
  dsimp only at h
  rcases bind_eq_ok.mp h with ⟨_, -, h⟩
  rcases bind_eq_ok.mp h with ⟨k₁, hrel, h⟩
  rw [releaseProgResource] at hrel
  rcases bind_eq_ok.mp hrel with ⟨m₁, hpdes, hrel⟩
  rcases bind_eq_ok.mp hrel with ⟨m₂, hfree, hrel⟩
  rw [initAdoptAChild_mem] at hfree
  -- Closing the files and adopting the children change no page.
  have hk₁ : k₁.mem = m₂ ∧ ∀ t, (k₁.pcb t).mem = (k.pcb t).mem := by
    split at hrel
    · cases hrel
    · rw [Except.ok.injEq] at hrel
      rw [← hrel]
      exact ⟨rfl, fun t => initAdoptAChild_mem k _ t⟩
  split at h
  · cases h
  · rcases bind_eq_ok.mp h with ⟨k₂, hwake, h⟩
    rw [Except.ok.injEq] at h
    rcases wakeParent_same hwake with ⟨hmem, hpcb⟩
    refine ⟨m₁, releasePdes_vaddr hpdes, ?_, fun t => ?_⟩
    · rw [← h]
      show _ = Except.ok k₂.mem
      rw [hmem, hk₁.1]
      exact hfree
    · rw [← h]
      exact (setPcb_mem k₂ k.cur t { k₂.pcb k.cur with status := .hanging } rfl).trans
        ((hpcb t).trans (hk₁.2 t))

/-- What `sys_wait` does to the kernel addresses once it has found a child. -/
theorem sysWait_steps (h : k.sysWait = .ok (k', some child)) : ∃ m,
    (m = k.mem ∨ mfreePage k.mem .kernel (k.pcb child).mem.pgdir 1 = .ok m) ∧
      (k'.mem = m ∨ mfreePage m .kernel child 1 = .ok k'.mem) := by
  rw [Kernel.sysWait] at h
  split at h
  · rw [Except.ok.injEq, Prod.mk.injEq] at h
    cases h.2
  · rename_i t ht
    rcases bind_eq_ok.mp h with ⟨k₁, hexit, h⟩
    rw [Except.ok.injEq, Prod.mk.injEq, Option.some.injEq] at h
    rw [h.2, Kernel.threadExit] at hexit
    dsimp only at hexit
    rw [← h.1]
    -- The PCB is freed unless it is that of `main`.
    have hend : ∀ {m : Machine} {k₀ : Kernel} {l l' : List Word} {b : Bitmap}, (do
        let m ← if child ≠ mainThread then mfreePage m .kernel child 1 else .ok m
        Except.ok { k₀ with mem := m, threadReadyList := l, threadAllList := l', pidPool := b })
          = Except.ok k₁ → k₁.mem = m ∨ mfreePage m .kernel child 1 = .ok k₁.mem := by
      intro m k₀ l l' b hrun
      dsimp only at hrun
      split at hrun
      · rcases bind_eq_ok.mp hrun with ⟨m₁, hfree, hrun⟩
        rw [Except.ok.injEq] at hrun
        rw [← hrun]
        exact Or.inr hfree
      · rw [ok_bind, Except.ok.injEq] at hrun
        rw [← hrun]
        exact Or.inl rfl
    split at hexit
    · rcases bind_eq_ok.mp hexit with ⟨m, hfree, hexit⟩
      exact ⟨m, Or.inr hfree, hend hexit⟩
    · rw [ok_bind] at hexit
      exact ⟨k.mem, Or.inl rfl, hend hexit⟩

/-- What lies between a fork and the end of the child: the fork succeeds, the
    child takes user memory only and exits, and its parent waits for it. -/
structure Lifetime (k k₁ k₂ k₃ k₄ k₅ : Kernel) (child : Word) : Prop where
  fork : ∃ r, sysFork k = .ok (k₁, r) ∧ r ≠ -1
  isChild : k₁.threadAllList = k.threadAllList ++ [child]
  runs : OnlyUserMemory k₁ k₂ child
  cur : k₂.cur = child
  exit : k₂.sysExit = .ok k₃
  hangs : OnlyUserMemory k₃ k₄ child
  wait : k₄.sysWait = .ok (k₅, some child)

/-- The last page of the child's bitmap is not given back. -/
theorem Lifetime.page {k₁ k₂ k₃ k₄ k₅ : Kernel} (h : Lifetime k k₁ k₂ k₃ k₄ k₅ child)
    (hl : PoolLayout k.mem) (hlen : (k.pcb k.cur).mem.btmpBytesLen = userBitmapLen) :
    ∃ x, bitmapScanTest k.mem.kernelVaddr.vaddrBitmap x = false ∧
      bitmapScanTest k₅.mem.kernelVaddr.vaddrBitmap x = true := by
  rcases h.fork with ⟨r, hfork, hr⟩
  rcases sysFork_steps hfork hr with ⟨child', mA, mB, mC, mD, mE, mF, buf, bits, pgdir, hf⟩
  have hsame : child' = child := by
    have := hf.list.symm.trans h.isChild
    rwa [List.append_cancel_left_eq, List.cons.injEq, eq_self, and_true] at this
  rw [hsame] at hf
  rcases hf.lastPage hl with ⟨cp, sb, da, hp⟩
  have hpcb₂ : (k₂.pcb child).mem = { (k.pcb k.cur).mem with bits := bits, pgdir := pgdir } :=
    h.runs.pcb.trans hf.pcb
  -- `sys_exit` gives back one page less than the fork has taken.
  rcases sysExit_steps h.exit with ⟨m, hsame₂, hfree, hpcb₃⟩
  have hcnt : releasedPgCnt (k₂.pcb child).mem = 22 := by
    rw [hpcb₂, releasedPgCnt]
    dsimp only
    rw [hlen]
    rfl
  have htaken₂ : PageTaken k.mem (sb + 22) m := (hp.taken.same h.runs.vaddr).same hsame₂
  rw [h.cur, hcnt, hpcb₂] at hfree
  dsimp only at hfree
  rw [hp.bits.1] at hfree
  have htaken₄ : PageTaken k.mem (sb + 22) k₄.mem :=
    (htaken₂.free hp.bits.2 hfree (by omega)).same h.hangs.vaddr
  -- `sys_wait` gives back two other pages.
  rcases sysWait_steps h.wait with ⟨m', hdir, hend⟩
  have htaken₅ : PageTaken k.mem (sb + 22) m' := by
    rcases hdir with rfl | hdir
    · exact htaken₄
    · rw [h.hangs.pcb, hpcb₃, hpcb₂] at hdir
      dsimp only at hdir
      rw [hp.pgdir.1] at hdir
      have hda := hp.apart.2
      exact htaken₄.free hp.pgdir.2 hdir (by omega)
  have htaken : PageTaken k.mem (sb + 22) k₅.mem := by
    rcases hend with hend | hend
    · rw [hend]
      exact htaken₅
    · rw [hp.child.1] at hend
      have hcp := hp.apart.1
      exact htaken₅.free hp.child.2 hend (by omega)
  exact ⟨sb + 22, hp.before, htaken.set⟩

/-- No process gives back everything that its fork has taken. -/
theorem process_leaves_page {k₁ k₂ k₃ k₄ k₅ : Kernel} (h : Lifetime k k₁ k₂ k₃ k₄ k₅ child)
    (hl : PoolLayout k.mem) (hlen : (k.pcb k.cur).mem.btmpBytesLen = userBitmapLen) :
    ¬ SameResources k k₅ := by
  rintro ⟨-, -, hbits, -⟩
  rcases h.page hl hlen with ⟨x, hbefore, hafter⟩
  rw [hbits, hbefore] at hafter
  cases hafter

end Exit

/-- Frames have been given back. -/
structure PagesFreed (m m' : Machine) : Prop where
  phys : m'.phys = m.phys
  cr3 : m'.cr3 = m.cr3
  vaddr : SameVaddr m m'
  kp_start : m'.kernelPool.phyAddrStart = m.kernelPool.phyAddrStart
  kp_len : m'.kernelPool.poolBitmap.btmpBytesLen = m.kernelPool.poolBitmap.btmpBytesLen
  up_start : m'.userPool.phyAddrStart = m.userPool.phyAddrStart

namespace PagesFreed

variable {m m' m'' : Machine}

theorem refl (m : Machine) : PagesFreed m m := ⟨rfl, rfl, rfl, rfl, rfl, rfl⟩

theorem trans (h : PagesFreed m m') (h' : PagesFreed m' m'') : PagesFreed m m'' :=
  ⟨h'.phys.trans h.phys, h'.cr3.trans h.cr3, h.vaddr.trans h'.vaddr, h'.kp_start.trans h.kp_start,
    h'.kp_len.trans h.kp_len, h'.up_start.trans h.up_start⟩

theorem kernelHalf (h : PagesFreed m m') (hk : KernelHalf m) : KernelHalf m' :=
  hk.ofDir h.cr3 (fun e _ => by rw [h.phys])

theorem layout (h : PagesFreed m m') (hl : PoolLayout m) : PoolLayout m' := by
  have hv : m'.kernelVaddr = m.kernelVaddr := h.vaddr
  refine ⟨h.kp_start.trans hl.kp_start, ?_, ?_, ?_⟩
  · rw [h.kp_len, h.up_start]
    exact hl.kp_end
  · rw [hv]
    exact hl.vaddr_start
  · rw [hv]
    exact hl.vaddr_len

end PagesFreed

theorem freeAPhyPage_freed (m : Machine) (phy : Word) : PagesFreed m (freeAPhyPage m phy) := by
  rw [freeAPhyPage, pfree]
  split
  · exact ⟨rfl, rfl, rfl, rfl, rfl, rfl⟩
  · exact ⟨rfl, rfl, rfl, rfl, rfl, rfl⟩

section Release

variable {m : Machine}

/-- The entries of a page table lie one behind the other. -/
theorem ptePtr_add {e i : Nat} (hi : i < 1024) :
    ptePtr (BitVec.ofNat 32 e * 0x400000) + BitVec.ofNat 32 i * 4
      = ptePtr (BitVec.ofNat 32 ((e * 1024 + i) * 4096)) := by
  have h4 : (4 : Word).toNat = 4 := rfl
  have h22 : (0x400000 : Word).toNat = 0x400000 := rfl
  apply BitVec.eq_of_toNat_eq
  rw [BitVec.toNat_add, toNat_ptePtr, toNat_ptePtr, BitVec.toNat_mul, BitVec.toNat_mul,
    BitVec.toNat_ofNat, BitVec.toNat_ofNat, BitVec.toNat_ofNat, h4, h22]
  omega

theorem releasePtes_ok (n : Nat) {e idx : Nat} (hself : SelfMap m) (he : e < 768)
    (hp : isPresent (m.phys m.cr3 e) = true) (hn : idx + n ≤ 1024) :
    ∃ m', releasePtes (ptePtr (BitVec.ofNat 32 e * 0x400000)) n idx m = .ok m' ∧
      PagesFreed m m' := by
  induction n generalizing m idx with
  | zero => exact ⟨m, rfl, PagesFreed.refl m⟩
  | succ n ih =>
      -- Every entry of the table is reached through directory entry `e`.
      have hpde : pdeIdx (BitVec.ofNat 32 ((e * 1024 + idx) * 4096)) = e := by
        rw [pdeIdx_eq, BitVec.toNat_ofNat]
        omega
      have hload : ∃ pte, load m (ptePtr (BitVec.ofNat 32 e * 0x400000) + BitVec.ofNat 32 idx * 4)
          = .ok pte := by
        rw [ptePtr_add (by omega)]
        exact ⟨_, load_ptePtr hself (by rw [hpde]; exact hp)⟩
      rcases hload with ⟨pte, hload⟩
      obtain ⟨m₁, hm₁, hfreed⟩ : ∃ m₁, m₁ = (if isPresent pte = true then
          freeAPhyPage m (pte &&& 0xfffff000) else m) ∧ PagesFreed m m₁ := by
        refine ⟨_, rfl, ?_⟩
        split
        · exact freeAPhyPage_freed m _
        · exact PagesFreed.refl m
      -- Freeing a frame does not change the page tables, so the table is still reached.
      have hself₁ : SelfMap m₁ := by
        refine ⟨?_, ?_⟩
        · rw [hfreed.phys, hfreed.cr3]
          exact hself.present
        · rw [hfreed.phys, hfreed.cr3]
          exact hself.frame
      rcases ih hself₁ (by rw [hfreed.phys, hfreed.cr3]; exact hp) (show idx + 1 + n ≤ 1024 by omega)
        with ⟨m', hrun, hfreed'⟩
      refine ⟨m', ?_, hfreed.trans hfreed'⟩
      rw [releasePtes, hload, ok_bind]
      dsimp only
      rw [← hm₁]
      exact hrun

/-- An entry of a directory in a page of the kernel heap. -/
theorem load_dirPage (hk : KernelHalf m) {da idx : Nat} (hda : da < 32768)
    (hp : isPresent (kernelPte m da) = true) (hidx : idx < 1024) :
    load m (pageAddr da + BitVec.ofNat 32 idx * 4) = .ok (m.phys (frameOf (kernelPte m da)) idx) := by
  have hoff : BitVec.ofNat 32 idx * 4 = BitVec.ofNat 32 (idx * 4) := by
    have h4 : (4 : Word).toNat = 4 := rfl
    apply BitVec.eq_of_toNat_eq
    rw [BitVec.toNat_mul, BitVec.toNat_ofNat, BitVec.toNat_ofNat, h4]
    omega
  rw [hoff, load, walk_pageAddr_add hda (by omega), walk_pageAddr hk (by omega), if_pos hp]
  dsimp only
  rw [wordIdx_pageAddr_add hda (by omega), Nat.mul_div_cancel _ (by omega)]

theorem releasePdes_ok (n : Nat) {da idx : Nat} (hk : KernelHalf m) (hda : da < 32768)
    (hp : isPresent (kernelPte m da) = true) (hdir : frameOf (kernelPte m da) = m.cr3)
    (hn : idx + n ≤ 768) :
    ∃ m', releasePdes (pageAddr da) n idx m = .ok m' ∧ PagesFreed m m' := by
  induction n generalizing m idx with
  | zero => exact ⟨m, rfl, PagesFreed.refl m⟩
  | succ n ih =>
      have hload := load_dirPage hk hda hp (show idx < 1024 by omega)
      rw [hdir] at hload
      -- What one round frees leaves the directory where it is, so the rest of the loop goes on.
      have hrest : ∀ {m₁ : Machine}, PagesFreed m m₁ →
          ∃ m', releasePdes (pageAddr da) n (idx + 1) m₁ = .ok m' ∧ PagesFreed m m' := by
        intro m₁ hfreed
        have hpte : kernelPte m₁ da = kernelPte m da := by
          rw [kernelPte, hfreed.phys]
          rfl
        rcases ih (hfreed.kernelHalf hk) (by rw [hpte]; exact hp)
          (by rw [hpte, hfreed.cr3]; exact hdir) (show idx + 1 + n ≤ 768 by omega) with
          ⟨m', hrun, hfreed'⟩
        exact ⟨m', hrun, hfreed.trans hfreed'⟩
      rw [releasePdes, hload, ok_bind]
      dsimp only
      by_cases hpde : isPresent (m.phys m.cr3 idx) = true
      · rw [if_pos hpde]
        rcases releasePtes_ok 1024 hk.self (show idx < 768 by omega) hpde
          (show 0 + 1024 ≤ 1024 by omega) with
          ⟨m₁, hptes, hfreed⟩
        rw [hptes, ok_bind, ok_bind]
        exact hrest (hfreed.trans (freeAPhyPage_freed m₁ _))
      · rw [if_neg hpde, ok_bind]
        exact hrest (PagesFreed.refl m)

/-- The page of the kernel heap lies in a frame of the kernel pool. -/
def Backed (m : Machine) (i : Nat) : Prop :=
  ∃ j, j < kernelFrames m ∧ frameOf (kernelPte m i) = 0x200 + j

theorem mfreePage_backed {s n : Nat} (hk : KernelHalf m) (hl : PoolLayout m) (hn : 1 ≤ n)
    (hi : s + n ≤ 32768) (h : ∀ i, s ≤ i → i < s + n → Backed m i) :
    ∃ m', mfreePage m .kernel (pageAddr s) n = .ok m' ∧ KernelFrame m m' ∧
      ∀ i, ¬ (s ≤ i ∧ i < s + n) → kernelPte m' i = kernelPte m i := by
  have hpage : ∀ i, s ≤ i → i < s + n → frameIdx m i < kernelFrames m ∧
      frameOf (kernelPte m i) = 0x200 + frameIdx m i := by
    intro i h1 h2
    rcases h i h1 h2 with ⟨j, hj, hfr⟩
    have hidx : frameIdx m i = j := by
      unfold frameIdx
      omega
    rw [hidx]
    exact ⟨hj, hfr⟩
  rcases mfreePage_mapped (frameIdx m) hk hl hn hi hpage with ⟨m', hrun, hf, -, hpte, -⟩
  exact ⟨m', hrun, hf, hpte⟩

end Release

/-- The memory along an exit right after a fork: `m₃` when the child runs,
    `m₄` and `m₅` in `sys_exit`, and `m₆` and `m₇` in `sys_wait`. -/
structure ExitSteps (m₃ m₄ m₅ m₆ m₇ : Machine) (p c : ProcMem) (cp sb da D d : Nat) : Prop where
  toChild : pageDirActivate m₃ (pageAddr da) = .ok { m₃ with cr3 := D }
  pages : releasePdes (pageAddr da) 768 0 { m₃ with cr3 := D, cur := c } = .ok m₄
  bitmap : mfreePage m₄ .kernel (pageAddr sb) 22 = .ok m₅
  toParent : pageDirActivate m₅ p.pgdir = .ok { m₅ with cr3 := d }
  pgdir : mfreePage { m₅ with cr3 := d, cur := p } .kernel (pageAddr da) 1 = .ok m₆
  pcb : mfreePage m₆ .kernel (pageAddr cp) 1 = .ok m₇

theorem Backed.congr {m m' : Machine} {i : Nat} (hpte : kernelPte m' i = kernelPte m i)
    (hframes : kernelFrames m' = kernelFrames m) (h : Backed m i) : Backed m' i := by
  unfold Backed
  rw [hpte, hframes]
  exact h

namespace ForkEnd

variable {m m' m₁ m₂ m₃ : Machine} {p : ProcMem} {a b cp ba sb da D B : Nat}

/-- A mapped page of the kernel heap has a frame of the kernel pool. -/
theorem backed (h : ForkEnd m m' m₁ m₂ m₃ p a b cp ba sb da D B) {i : Nat}
    (hi : i < kernelPages m) (hp : isPresent (kernelPte m₃ i) = true) : Backed m₃ i := by
  rcases h.map₃.mapped i (by rw [h.pages₃]; exact hi) hp with ⟨j, hj, hfr, -⟩
  exact ⟨j, hj, hfr⟩

theorem kernelPte_childDir (h : ForkEnd m m' m₁ m₂ m₃ p a b cp ba sb da D B) :
    kernelPte m₃ da = kernelPte m₁ da := by
  have hle := h.need.map.layout.pages_le
  have hda := h.start.child.1
  have hpages := h.pages
  rw [h.pte₃ da (h.start.pa_ne.2.2), h.fin.kernelPte_eq (by omega)]

theorem pcb_present (h : ForkEnd m m' m₁ m₂ m₃ p a b cp ba sb da D B) :
    isPresent (kernelPte m₃ cp) = true := by
  have hle := h.need.map.layout.pages_le
  have hcp := h.pcb.pcb
  rw [h.pte₃ cp hcp.2.2.1, h.fin.kernelPte_eq (by omega), (h.stay cp hcp.1 hcp.2.1).2]
  exact hcp.2.1

theorem bits_backed (h : ForkEnd m m' m₁ m₂ m₃ p a b cp ba sb da D B) {i : Nat} (h₁ : sb ≤ i)
    (h₂ : i < sb + bitmapPgCnt) : Backed m₃ i := by
  have hsb := h.pcb.bits.1
  have hk := (h.kernelPte_bits (i := i - sb) (by omega)).1
  have hpres := (h.pcb.bits.2 (i - sb) (by omega)).1
  rw [show sb + (i - sb) = i by omega] at hk hpres
  exact h.backed (by omega) (by rw [hk]; exact hpres)

/-- The kernel half with the child's directory active. -/
theorem half_child (h : ForkEnd m m' m₁ m₂ m₃ p a b cp ba sb da D B) (c : ProcMem) :
    KernelHalf { m₃ with cr3 := D, cur := c } := by
  have hfr : KernelFrame { m₂ with cr3 := D, cur := c } { m₃ with cr3 := D, cur := c } :=
    ⟨rfl, rfl, h.frame₃.userPool, h.frame₃.kp_start, h.frame₃.kp_size, h.frame₃.kp_len,
      h.frame₃.vaddr_start, h.frame₃.vaddr_len, h.frame₃.phys⟩
  exact hfr.kernelHalf
    ⟨⟨h.fin.half.self.present, h.fin.half.self.frame⟩, h.fin.half.table, h.fin.half.cr3_ne⟩

/-- The kernel half with the parent's directory active, as long as memory has
    the same contents. -/
theorem half_parent (h : ForkEnd m m' m₁ m₂ m₃ p a b cp ba sb da D B) {m₄ : Machine}
    (hphys : m₄.phys = m₃.phys) : KernelHalf { m₄ with cr3 := m.cr3, cur := p } := by
  have hcr3 : m₃.cr3 = m.cr3 := by rw [h.frame₃.cr3, h.fin.cr3, h.cr3]
  refine h.map₃.half.ofDir hcr3.symm (fun e _ => ?_)
  show m₄.phys m₃.cr3 e = m₃.phys m₃.cr3 e
  rw [hphys]

/-- Neither the directories nor the PCB are among the pages of the bitmap. -/
theorem outside_bits (h : ForkEnd m m' m₁ m₂ m₃ p a b cp ba sb da D B) {i : Nat}
    (hi : i = a ∨ i = da ∨ i = cp) : ¬ (sb ≤ i ∧ i < sb + bitmapPgCnt) := by
  rcases hi with rfl | rfl | rfl
  · exact (h.pcb.keep i h.dir.1.1 h.dir.1.2.1).2.2.1
  · intro hc
    have hstay := (h.kernelPte_bits (i := i - sb) (by omega)).2.1
    omega
  · exact h.pcb.pcb.2.2.2

end ForkEnd

/-- After a fork the child can exit, and its parent can wait for it. -/
theorem ForkEnd.exits {m m' m₁ m₂ m₃ : Machine} {p : ProcMem} {a b cp ba sb da D B : Nat}
    (h : ForkEnd m m' m₁ m₂ m₃ p a b cp ba sb da D B) (c : ProcMem) :
    ∃ m₄ m₅ m₆ m₇, ExitSteps m₃ m₄ m₅ m₆ m₇ p c cp sb da D m.cr3 := by
  have hle := h.need.map.layout.pages_le
  have hcnt : bitmapPgCnt = 23 := rfl
  have hcp := h.pcb.pcb
  have hsb := h.pcb.bits.1
  have hda := h.start.child
  have hp₁ := h.pages
  have ha := h.dir.1.1
  have hpteA : kernelPte m₃ a = kernelPte m a := h.kernelPte_old h.dir.1.1 h.dir.1.2.1
  have hpresD : isPresent (kernelPte m₃ da) = true := by
    rw [h.kernelPte_childDir]
    exact hda.2.1
  have hframeD : frameOf (kernelPte m₃ da) = D := by
    rw [h.kernelPte_childDir]
    exact hda.2.2
  have hbackD : Backed m₃ da := h.backed (by omega) hpresD
  have hbackA : Backed m₃ a := h.backed ha (by rw [hpteA]; exact h.dir.1.2.1)
  -- In `sys_exit` the child's directory is active.
  have hhalf := h.half_child c
  have hlay : PoolLayout { m₃ with cr3 := D, cur := c } :=
    ⟨h.map₃.layout.kp_start, h.map₃.layout.kp_end, h.map₃.layout.vaddr_start,
      h.map₃.layout.vaddr_len⟩
  rcases releasePdes_ok 768 hhalf (show da < 32768 by omega) (show isPresent (kernelPte m₃ da) = true
    from hpresD) hframeD (show 0 + 768 ≤ 768 by omega) with ⟨m₄, hrel, hfreed⟩
  have hback₄ : ∀ {i}, Backed m₃ i → Backed m₄ i := by
    intro i hi
    refine hi.congr ?_ ?_
    · rw [kernelPte, hfreed.phys]
      rfl
    · rw [kernelFrames, hfreed.kp_len]
      rfl
  rcases mfreePage_backed (s := sb) (n := 22) (hfreed.kernelHalf hhalf) (hfreed.layout hlay)
    (by omega) (by omega) (fun i h1 h2 => hback₄ (h.bits_backed h1 (by omega))) with
    ⟨m₅, hbits, hf₅, hpte₅⟩
  have hback₅ : ∀ {i}, Backed m₃ i → (i = a ∨ i = da ∨ i = cp) → Backed m₅ i := by
    intro i hi hout
    have hno := h.outside_bits hout
    exact (hback₄ hi).congr (hpte₅ i (by omega)) hf₅.frames
  have hlay₅ := hf₅.layout (hfreed.layout hlay)
  have hframeA : frameOf (kernelPte m₅ a) = m.cr3 := by
    have hno := h.outside_bits (Or.inl rfl)
    rw [hpte₅ a (by omega), kernelPte, hfreed.phys]
    show frameOf (kernelPte m₃ a) = m.cr3
    rw [hpteA]
    exact h.dir.1.2.2
  rcases hback₅ hbackA (Or.inl rfl) with ⟨ja, hja, hfra⟩
  have htoParent := pageDirActivate_kernel (hf₅.kernelHalf (hfreed.kernelHalf hhalf)) hlay₅
    (show a ≤ 32768 by omega) hja hfra
  rw [hframeA] at htoParent
  -- In `sys_wait` the parent's directory is active again.
  have hfrP : KernelFrame { m₄ with cr3 := m.cr3, cur := p } { m₅ with cr3 := m.cr3, cur := p } :=
    ⟨rfl, rfl, hf₅.userPool, hf₅.kp_start, hf₅.kp_size, hf₅.kp_len, hf₅.vaddr_start, hf₅.vaddr_len,
      hf₅.phys⟩
  have hhalfP := hfrP.kernelHalf (h.half_parent hfreed.phys)
  have hlayP : PoolLayout { m₅ with cr3 := m.cr3, cur := p } :=
    ⟨hlay₅.kp_start, hlay₅.kp_end, hlay₅.vaddr_start, hlay₅.vaddr_len⟩
  have hback₅D : Backed { m₅ with cr3 := m.cr3, cur := p } da := hback₅ hbackD (Or.inr (Or.inl rfl))
  have hback₅C : Backed { m₅ with cr3 := m.cr3, cur := p } cp :=
    hback₅ (h.backed hcp.1 h.pcb_present) (Or.inr (Or.inr rfl))
  rcases mfreePage_backed (s := da) (n := 1) hhalfP hlayP (by omega) (by omega) (fun i h1 h2 => by
    rw [show i = da by omega]
    exact hback₅D) with ⟨m₆, hdir, hf₆, hpte₆⟩
  have hneq : cp ≠ da := (h.stay cp hcp.1 hcp.2.1).1
  have hback₆ : Backed m₆ cp := hback₅C.congr (hpte₆ cp (by omega)) hf₆.frames
  rcases mfreePage_backed (s := cp) (n := 1) (hf₆.kernelHalf hhalfP) (hf₆.layout hlayP) (by omega)
    (by omega) (fun i h1 h2 => by
      rw [show i = cp by omega]
      exact hback₆) with ⟨m₇, hpcb, -, -⟩
  rcases hbackD with ⟨jd, hjd, hfrd⟩
  have htoChild := pageDirActivate_kernel h.map₃.half h.map₃.layout (show da ≤ 32768 by omega) hjd
    hfrd
  rw [hframeD] at htoChild
  exact ⟨m₄, m₅, m₆, m₇, htoChild, hrel, hbits, by rw [h.dir.2]; exact htoParent, hdir, hpcb⟩

section Example

theorem updateInodeOpenCntsFrom_none {cur t : Nat} {s : Fs} (h : ∀ fd, s.fdTable t fd = -1)
    (n fd : Nat) : updateInodeOpenCntsFrom cur t n fd s = .ok s := by
  induction n generalizing fd with
  | zero => rfl
  | succ n ih =>
      rw [updateInodeOpenCntsFrom]
      dsimp only
      rw [h fd, ensure_pos (by decide), ok_bind, if_neg (by decide), ok_bind]
      exact ih (fd + 1)

theorem closeFilesFrom_none {t : Nat} {s : Fs} (h : ∀ fd, s.fdTable t fd = -1) (n fd : Nat) :
    (closeFilesFrom t n fd).run s = .ok ((), s) := by
  induction n generalizing fd with
  | zero => rfl
  | succ n ih =>
      have hread : (Prog.read (fun s => s.fdTable t fd) : FsM Int).run s = .ok (-1, s) := by
        rw [← h fd]
        rfl
      refine Prog.run_bind_ok.mpr ⟨-1, s, hread, ?_⟩
      rw [if_neg (by decide)]
      exact ih (fd + 1)

/-- The kernel of `stackKernel` with the pids that are taken after
    `thread_init`. -/
def initKernel : Kernel :=
  { stackKernel with pidPool := bitmapSetRange (bitmapInit ⟨128, fun _ => 0⟩) 0 true 3 }

theorem initKernel_layout : PoolLayout initKernel.mem := stackMachine_map.layout

/-- The PCB of the process, and that of its child. -/
def initPcb : Pcb := ⟨1, -1, .running, [0x69, 0x6e, 0x69, 0x74], 31, 31, 0, stackMachine.cur⟩

def childPcb (bits pgdir : Word) : Pcb :=
  ⟨4, 1, .ready, [0x69, 0x6e, 0x69, 0x74] ++ forkSuffix, 31, 31, 0,
    { stackMachine.cur with bits := bits, pgdir := pgdir }⟩

/-- The kernel when the child runs, or its parent again: the two PCBs and the
    list are those of the fork. -/
structure TwoProcs (k : Kernel) (child : Word) (vc : Pcb) : Prop where
  ne : pageAddr 0 ≠ child
  list : k.threadAllList = [pageAddr 0, child]
  old : k.pcb (pageAddr 0) = initPcb
  new : k.pcb child = vc
  fds : ∀ fd, k.fs.fdTable child.toNat fd = -1

theorem threadExit_ok {k : Kernel} {t : Word} {m₆ m₇ : Machine} (hdir : (k.pcb t).mem.pgdir ≠ 0)
    (hne : t ≠ mainThread) (h₆ : mfreePage k.mem .kernel (k.pcb t).mem.pgdir 1 = .ok m₆)
    (h₇ : mfreePage m₆ .kernel t 1 = .ok m₇) : ∃ k', k.threadExit t = .ok k' := by
  rw [Kernel.threadExit]
  dsimp only [Kernel.setPcb]
  rw [if_pos hdir, h₆, ok_bind, if_pos hne, h₇, ok_bind]
  exact ⟨_, rfl⟩

/-- No child of the child is there to be adopted. -/
theorem TwoProcs.adopt {k : Kernel} {child bits pgdir : Word}
    (h : TwoProcs k child (childPcb bits pgdir)) :
    TwoProcs (k.initAdoptAChild (k.pcb child).pid) child (childPcb bits pgdir) := by
  refine ⟨h.ne, h.list, ?_, ?_, h.fds⟩
  · rw [← h.old, h.new]
    refine if_neg (fun hc => ?_)
    rw [h.old] at hc
    exact absurd hc.2 (by show ¬ ((-1 : Int) = (4 : Nat)); decide)
  · rw [h.new]
    refine (if_neg (fun hc => ?_)).trans h.new
    rw [h.new] at hc
    exact absurd hc.2 (by show ¬ ((1 : Int) = (4 : Nat)); decide)

/-- The child exits. -/
theorem TwoProcs.sysExit {k : Kernel} {child bits pgdir : Word} {m₄ m₅ : Machine}
    (h : TwoProcs k child (childPcb bits pgdir)) (hcur : k.cur = child)
    (hpages : releasePdes pgdir 768 0 k.mem = .ok m₄)
    (hbits : mfreePage m₄ .kernel bits 22 = .ok m₅) :
    ∃ k', k.sysExit = .ok k' ∧ k'.mem = m₅ ∧
      TwoProcs k' child { childPcb bits pgdir with status := .hanging } := by
  have hA := h.adopt
  obtain ⟨kA, hkA⟩ : ∃ kA, kA = k.initAdoptAChild (k.pcb child).pid := ⟨_, rfl⟩
  rw [← hkA] at hA
  have hmem : kA.mem = k.mem := by rw [hkA]; rfl
  have hcnt : releasedPgCnt (childPcb bits pgdir).mem = 22 := by
    show userBitmapLen / 4096 = 22
    decide
  -- The page tables are released first and the pages of the bitmap after them.
  have hrel : releaseProgResource kA child = .ok { kA with mem := m₅ } := by
    rw [releaseProgResource, hA.new]
    show (releasePdes pgdir 768 0 kA.mem >>= _) = _
    rw [hmem, hpages, ok_bind, hcnt]
    show (mfreePage m₄ .kernel bits 22 >>= _) = _
    rw [hbits, ok_bind, closeFilesFrom_none hA.fds]
  have hparent : ({ kA with mem := m₅ } : Kernel).pid2thread
      (({ kA with mem := m₅ } : Kernel).pcb child).parentPid = some (pageAddr 0) := by
    rw [Kernel.pid2thread]
    dsimp only
    rw [hA.list, hA.new, List.find?_cons_of_pos]
    rw [hA.old]
    exact decide_eq_true rfl
  -- The parent does not wait yet, so nobody is woken.
  have hwake : ({ kA with mem := m₅ } : Kernel).wakeParent (pageAddr 0) =
      .ok { kA with mem := m₅ } := by
    rw [Kernel.wakeParent]
    dsimp only
    rw [hA.old, if_neg (by decide)]
  refine ⟨({ kA with mem := m₅ } : Kernel).setPcb child { kA.pcb child with status := .hanging }, ?_,
    rfl, ?_⟩
  · rw [Kernel.sysExit]
    dsimp only
    rw [hcur, ensure_pos (by rw [h.new]; show (1 : Int) ≠ -1; decide), ok_bind, ← hkA, hrel, ok_bind,
      hparent]
    dsimp only
    rw [hwake, ok_bind]
  · refine ⟨hA.ne, hA.list, ?_, ?_, hA.fds⟩
    · exact (Function.update_of_ne hA.ne _ _).trans hA.old
    · rw [← hA.new]
      exact Function.update_self _ _ _

/-- Its parent waits for it. -/
theorem TwoProcs.sysWait {k : Kernel} {child bits pgdir : Word} {m₆ m₇ : Machine}
    (h : TwoProcs k child { childPcb bits pgdir with status := .hanging })
    (hcur : k.cur = pageAddr 0) (hne : child ≠ mainThread ∧ pgdir ≠ 0)
    (hdir : mfreePage k.mem .kernel pgdir 1 = .ok m₆)
    (hpcb : mfreePage m₆ .kernel child 1 = .ok m₇) : ∃ k', k.sysWait = .ok (k', some child) := by
  have hfind : k.findHangingChild (k.pcb k.cur).pid = some child := by
    rw [Kernel.findHangingChild, h.list, hcur, h.old]
    rw [List.find?_cons_of_neg (by rw [h.old]; decide), List.find?_cons_of_pos]
    rw [h.new]
    exact decide_eq_true ⟨rfl, rfl⟩
  have hpg : (k.pcb child).mem.pgdir = pgdir := by
    rw [h.new]
    rfl
  rcases threadExit_ok (t := child) (by rw [hpg]; exact hne.2) hne.1 (by rw [hpg]; exact hdir) hpcb
    with ⟨k', hexit⟩
  rw [Kernel.sysWait, hfind]
  dsimp only
  rw [hexit, ok_bind]
  exact ⟨k', rfl⟩

/-- A process forks, the child exits at once, and its parent waits for it. -/
theorem initKernel_lifetime : ∃ k₁ k₂ k₃ k₄ k₅ child, k₁.switchTo child = .ok k₂ ∧
    k₃.switchTo initKernel.cur = .ok k₄ ∧ Lifetime initKernel k₁ k₂ k₃ k₄ k₅ child := by
  have hpages := stackMachine_pages
  rcases fork_memory stackMachine_forkable with
    ⟨mA, mB, mC, m', m₁, m₂, m₃, a, b, cp, ba, sb, da, D, B, hA, hB, hC, hcopy, hcreate, hloop, hfree,
      hend⟩
  have hcp := hend.pcb.pcb
  have hba := hend.pcb.buf.1
  have hsb := hend.pcb.bits.1
  have hda := hend.start.child.1
  have hpages₁ := hend.pages
  have hle := stackMachine_map.layout.pages_le
  -- The PCB of the child is in a page that was free.
  have hcp0 : cp ≠ 0 := by
    intro hc
    refine (hend.pcb.keep 0 (by omega) ?_).1 hc.symm
    rw [stackMachine_present (by omega)]
    rfl
  have hne : initKernel.cur ≠ pageAddr cp := fun hc =>
    hcp0 (pageAddr_inj (by omega) (by omega) hc).symm
  have hrun := sysFork_eq (k := initKernel) (by decide) hA hB hC hcopy hcreate hloop hfree
    ⟨pageAddr_ne_zero (by omega), pageAddr_ne_zero (by omega), pageAddr_ne_zero (by omega),
      pageAddr_ne_zero (by omega), pageAddr_ne_zero (by omega)⟩ hne
  have hpid : forkPid initKernel.pidPool = .ok (bitmapSet initKernel.pidPool 3 true, 4) := rfl
  have hfds : ∀ fd, (inheritFds initKernel.fs (pageAddr cp).toNat initKernel.cur.toNat).fdTable
      (pageAddr cp).toNat fd = -1 := by
    intro fd
    have hsame : (inheritFds initKernel.fs (pageAddr cp).toNat initKernel.cur.toNat).fdTable
        (pageAddr cp).toNat = initKernel.fs.fdTable initKernel.cur.toNat := Function.update_self _ _ _
    rw [hsame]
    rfl
  have hlist : pageAddr cp ∉ initKernel.threadAllList := by
    intro hc
    exact hne (List.mem_singleton.mp hc).symm
  rw [hpid, ok_bind, updateInodeOpenCnts, updateInodeOpenCntsFrom_none hfds, ok_bind,
    ensure_pos (show pageAddr cp ∉ initKernel.threadReadyList from List.not_mem_nil), ok_bind,
    ensure_pos hlist, ok_bind] at hrun
  obtain ⟨k₁, hk₁⟩ : ∃ k₁, k₁ = forkedKernel initKernel m₃ (bitmapSet initKernel.pidPool 3 true) 4
      (inheritFds initKernel.fs (pageAddr cp).toNat initKernel.cur.toNat) (pageAddr cp) (pageAddr sb)
      (pageAddr da) := ⟨_, rfl⟩
  have htwo : TwoProcs k₁ (pageAddr cp) (childPcb (pageAddr sb) (pageAddr da)) := by
    rw [hk₁]
    have hne₀ : pageAddr 0 ≠ pageAddr cp := hne
    refine ⟨hne₀, rfl, ?_, ?_, hfds⟩
    · dsimp only [forkedKernel]
      rw [Function.update_of_ne hne₀]
      rfl
    · dsimp only [forkedKernel]
      rw [Function.update_self]
      rfl
  have hmem₁ : k₁.mem = m₃ := by rw [hk₁]; rfl
  rcases hend.exits (childPcb (pageAddr sb) (pageAddr da)).mem with ⟨m₄, m₅, m₆, m₇, hx⟩
  -- The child runs.
  obtain ⟨k₂, hk₂⟩ : ∃ k₂ : Kernel, k₂ = { k₁ with
      mem := { m₃ with cr3 := D, cur := (childPcb (pageAddr sb) (pageAddr da)).mem }
      cur := pageAddr cp } := ⟨_, rfl⟩
  have htwo₂ : TwoProcs k₂ (pageAddr cp) (childPcb (pageAddr sb) (pageAddr da)) := by
    rw [hk₂]
    exact ⟨htwo.ne, htwo.list, htwo.old, htwo.new, htwo.fds⟩
  rcases htwo₂.sysExit (by rw [hk₂]) (by rw [hk₂]; exact hx.pages) hx.bitmap with
    ⟨k₃, hexit, hmem₃, htwo₃⟩
  -- The parent runs again.
  obtain ⟨k₄, hk₄⟩ : ∃ k₄ : Kernel, k₄ = { k₃ with
      mem := { m₅ with cr3 := stackMachine.cr3, cur := stackMachine.cur }
      cur := pageAddr 0 } := ⟨_, rfl⟩
  have htwo₄ : TwoProcs k₄ (pageAddr cp)
      { childPcb (pageAddr sb) (pageAddr da) with status := .hanging } := by
    rw [hk₄]
    exact ⟨htwo₃.ne, htwo₃.list, htwo₃.old, htwo₃.new, htwo₃.fds⟩
  have hmain : pageAddr cp ≠ mainThread := by
    intro hc
    have hnat := toNat_pageAddr (i := cp) (by omega)
    rw [hc] at hnat
    have hmain : mainThread.toNat = 0xc009e000 := rfl
    omega
  rcases htwo₄.sysWait (by rw [hk₄]) ⟨hmain, pageAddr_ne_zero (by omega)⟩
    (by rw [hk₄]; exact hx.pgdir) hx.pcb with ⟨k₅, hwait⟩
  refine ⟨k₁, k₂, k₃, k₄, k₅, pageAddr cp, ?_, ?_, ⟨⟨4, hk₁ ▸ hrun, by decide⟩, htwo.list, ⟨?_, ?_⟩,
    by rw [hk₂], hexit, ⟨?_, ?_⟩, hwait⟩⟩
  · rw [Kernel.switchTo, htwo.new, hmem₁]
    show (pageDirActivate m₃ (pageAddr da) >>= _) = _
    rw [hx.toChild, ok_bind, hk₂]
  · rw [Kernel.switchTo, show initKernel.cur = pageAddr 0 from rfl, htwo₃.old, hmem₃]
    show (pageDirActivate m₅ stackMachine.cur.pgdir >>= _) = _
    rw [hx.toParent, ok_bind, hk₄]
    rfl
  · rw [hk₂, hmem₁]
  · rw [htwo₂.new, htwo.new]
  · rw [hk₄, hmem₃]
  · rw [htwo₄.new, htwo₃.new]

/-- That process leaves a page behind. -/
theorem process_leaves_page_init : ∃ k₁ k₂ k₃ k₄ k₅ child,
    Lifetime initKernel k₁ k₂ k₃ k₄ k₅ child ∧ ¬ SameResources initKernel k₅ := by
  rcases initKernel_lifetime with ⟨k₁, k₂, k₃, k₄, k₅, child, -, -, h⟩
  exact ⟨k₁, k₂, k₃, k₄, k₅, child, h, process_leaves_page h initKernel_layout rfl⟩

/-- The bits of `kernel_vaddr` are not what they were before the fork. -/
theorem exit_keeps_bitmap_page : ∃ k₁ k₂ k₃ k₄ k₅ child,
    k₁.switchTo child = .ok k₂ ∧ k₃.switchTo initKernel.cur = .ok k₄ ∧
      Lifetime initKernel k₁ k₂ k₃ k₄ k₅ child ∧
      k₅.mem.kernelVaddr.vaddrBitmap ≠ initKernel.mem.kernelVaddr.vaddrBitmap := by
  rcases initKernel_lifetime with ⟨k₁, k₂, k₃, k₄, k₅, child, h₂, h₄, h⟩
  refine ⟨k₁, k₂, k₃, k₄, k₅, child, h₂, h₄, h, fun hc => ?_⟩
  rcases h.page initKernel_layout rfl with ⟨x, hbefore, hafter⟩
  rw [hc, hbefore] at hafter
  cases hafter

end Example

end ForikOS
