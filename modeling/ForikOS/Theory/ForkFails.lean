import ForikOS.Theory.Exit

/-!
# Forks That Fail

`sys_fork` takes the page of the PCB, a page for the copies, a pid, the pages
of the bitmap and the page directory, one after the other, and returns `-1`
where one of them is missing. None of the exits gives back what has been taken
before.

The first request asks for a single page. `bitmap_scan` asserts that a bit is
clear, so it finds one, and the bit stays set whatever happens after it: up to
an exit with `-1` the kernel addresses only get fewer (`KeepsTaken`). So no
fork that returns `-1` leaves `kernel_vaddr` as it was.

## Main definitions

* `ForkUnchanged`: What a failed fork should leave as it was.
* `KeepsTaken`: Kernel pages that are taken stay taken.

## Theorems

* `getKernelPages_keeps`, `getKernelPages_takes`: What a request does to the
  bits, whether or not it is granted.
* `fork_fails_changed`: Every fork that returns `-1` changes something.
-/

namespace ForikOS

/-- The bitmaps, the lists of tasks and the open counts are the same. -/
structure ForkUnchanged (k k' : Kernel) : Prop where
  kernelPool : k'.mem.kernelPool.poolBitmap = k.mem.kernelPool.poolBitmap
  userPool : k'.mem.userPool.poolBitmap = k.mem.userPool.poolBitmap
  kernelVaddr : k'.mem.kernelVaddr.vaddrBitmap = k.mem.kernelVaddr.vaddrBitmap
  pidPool : k'.pidPool = k.pidPool
  readyList : k'.threadReadyList = k.threadReadyList
  allList : k'.threadAllList = k.threadAllList
  openCnts : ∀ a, (k'.fs.inode a).iOpenCnts = (k.fs.inode a).iOpenCnts

/-- Kernel pages that are taken stay taken. -/
def KeepsTaken (m m' : Machine) : Prop :=
  ∀ x, bitmapScanTest m.kernelVaddr.vaddrBitmap x = true →
    bitmapScanTest m'.kernelVaddr.vaddrBitmap x = true

theorem KeepsTaken.trans {m m' m'' : Machine} (h : KeepsTaken m m') (h' : KeepsTaken m' m'') :
    KeepsTaken m m'' :=
  fun x hx => h' x (h x hx)

theorem SameVaddr.keeps {m m' : Machine} (h : SameVaddr m m') : KeepsTaken m m' := by
  unfold SameVaddr at h
  intro x hx
  rw [h]
  exact hx

section Requests

variable {m m' : Machine} {n : Nat} {v : Word}

/-- What `get_kernel_pages` does to the bits is done by `vaddr_get`. -/
theorem getKernelPages_vaddrGet (h : getKernelPages m n = .ok (m', v)) :
    (0 < n ∧ n < 3840) ∧ ∃ m₁ v₁, vaddrGet m .kernel n = .ok (m₁, v₁) ∧ SameVaddr m₁ m' := by
  rcases bind_eq_ok.mp h with ⟨⟨m₂, v₂⟩, h₂, h⟩
  rcases bind_eq_ok.mp h₂ with ⟨_, hn, h₂⟩
  rcases bind_eq_ok.mp h₂ with ⟨⟨m₁, v₁⟩, h₁, h₂⟩
  dsimp only at h h₂
  refine ⟨ensure_eq_ok.mp hn, m₁, v₁, h₁, ?_⟩
  -- Only `vaddr_get` marks addresses. The loop and the clearing leave the
  -- bitmap as it is.
  have hloop : SameVaddr m₁ m₂ := by
    by_cases hz : v₁ = 0
    · rw [if_pos hz, Except.ok.injEq, Prod.mk.injEq] at h₂
      rw [← h₂.1]
      rfl
    · rw [if_neg hz] at h₂
      rcases bind_eq_ok.mp h₂ with ⟨⟨m₃, done⟩, hloop, h₂⟩
      rw [Except.ok.injEq, Prod.mk.injEq] at h₂
      rw [← h₂.1]
      exact mallocLoop_vaddr hloop
  by_cases hz : v₂ = 0
  · rw [if_pos hz, Except.ok.injEq, Prod.mk.injEq] at h
    rw [← h.1]
    exact hloop
  · rw [if_neg hz] at h
    rcases bind_eq_ok.mp h with ⟨m₃, hclear, h⟩
    rw [Except.ok.injEq, Prod.mk.injEq] at h
    rw [← h.1]
    exact hloop.trans (clearPages_vaddr hclear)

theorem getKernelPages_keeps (h : getKernelPages m n = .ok (m', v)) : KeepsTaken m m' := by
  rcases (getKernelPages_vaddrGet h).2 with ⟨m₁, v₁, hget, hsame⟩
  refine KeepsTaken.trans ?_ hsame.keeps
  rcases bind_eq_ok.mp hget with ⟨r, -, hget⟩
  -- A request sets bits and clears none.
  cases r with
  | none =>
      rw [Except.ok.injEq, Prod.mk.injEq] at hget
      intro x hx
      rw [← hget.1]
      exact hx
  | some s =>
      rw [Except.ok.injEq, Prod.mk.injEq] at hget
      intro x hx
      rw [← hget.1]
      show bitmapScanTest (bitmapSetRange _ _ _ _) x = true
      rw [bitmapScanTest_setRange, hx]
      split <;> rfl

/-- A request for one page marks a page that was free. -/
theorem getKernelPages_takes (h : getKernelPages m 1 = .ok (m', v)) :
    ∃ s, bitmapScanTest m.kernelVaddr.vaddrBitmap s = false ∧
      bitmapScanTest m'.kernelVaddr.vaddrBitmap s = true := by
  rcases (getKernelPages_vaddrGet h).2 with ⟨m₁, v₁, hget, hsame⟩
  rcases bind_eq_ok.mp hget with ⟨r, hscan, hget⟩
  rcases bitmapScan_one hscan with ⟨s, rfl, hs⟩
  rw [Except.ok.injEq, Prod.mk.injEq] at hget
  refine ⟨s, hs.2.1, hsame.keeps s ?_⟩
  rw [← hget.1]
  show bitmapScanTest (bitmapSetRange _ _ _ _) s = true
  rw [bitmapScanTest_setRange, if_pos ⟨Nat.le_refl s, by omega⟩]

/-- A request for which there is no run of addresses takes nothing. -/
theorem getKernelPages_none (hn : 0 < n ∧ n < 3840)
    (hscan : bitmapScan m.kernelVaddr.vaddrBitmap n = .ok none) :
    getKernelPages m n = .ok (m, 0) := by
  rw [getKernelPages, mallocPage, ensure_pos hn, ok_bind, vaddrGet, hscan]
  rfl

theorem createPageDir_keeps (h : createPageDir m = .ok (m', v)) : KeepsTaken m m' := by
  rcases bind_eq_ok.mp h with ⟨⟨m₁, v₁⟩, hget, h⟩
  dsimp only at h
  refine (getKernelPages_keeps hget).trans ?_
  by_cases hz : v₁ = 0
  · rw [if_pos hz, Except.ok.injEq, Prod.mk.injEq] at h
    intro x hx
    rw [← h.1]
    exact hx
  · rw [if_neg hz] at h
    rcases bind_eq_ok.mp h with ⟨m₂, hcopy, h⟩
    rcases bind_eq_ok.mp h with ⟨phy, -, h⟩
    rcases bind_eq_ok.mp h with ⟨m₃, hstore, h⟩
    rw [Except.ok.injEq, Prod.mk.injEq] at h
    rw [← h.1]
    exact ((memcpyIn_vaddr hcopy).trans (store_vaddr hstore)).keeps

end Requests

section Fork

variable {k k' : Kernel} {child parent : Word}

theorem copyPcb_keeps {done : Bool}
    (h : copyPcbVaddrbitmapStack0 k child parent = .ok (k', done)) : KeepsTaken k.mem k'.mem := by
  rw [copyPcbVaddrbitmapStack0] at h
  rcases bind_eq_ok.mp h with ⟨⟨pool, pid⟩, -, h⟩
  rcases bind_eq_ok.mp h with ⟨⟨m, vaddrBtmp⟩, hget, h⟩
  dsimp only at h hget
  by_cases hz : vaddrBtmp = 0
  · rw [if_pos hz, Except.ok.injEq, Prod.mk.injEq] at h
    rw [← h.1]
    exact getKernelPages_keeps hget
  · rw [if_neg hz] at h
    rcases bind_eq_ok.mp h with ⟨m', hcopy, h⟩
    rcases bind_eq_ok.mp h with ⟨_, -, h⟩
    rw [Except.ok.injEq, Prod.mk.injEq] at h
    rw [← h.1]
    exact (getKernelPages_keeps hget).trans (memcpyPages_vaddr hcopy).keeps

/-- Where `copy_process` gives up, it has given nothing back. -/
theorem copyProcess_keeps (h : copyProcess k child parent = .ok (k', false)) :
    KeepsTaken k.mem k'.mem := by
  rw [copyProcess] at h
  rcases bind_eq_ok.mp h with ⟨⟨m, bufPage⟩, hbuf, h⟩
  dsimp only at h
  have hbuf := getKernelPages_keeps hbuf
  by_cases hz : bufPage = 0
  · rw [if_pos hz, Except.ok.injEq, Prod.mk.injEq] at h
    rw [← h.1]
    exact hbuf
  rw [if_neg hz] at h
  rcases bind_eq_ok.mp h with ⟨⟨k₁, copied⟩, hcopy, h⟩
  dsimp only at h
  have hcopy := hbuf.trans (copyPcb_keeps hcopy)
  by_cases hc : copied = false
  · rw [if_pos hc, Except.ok.injEq, Prod.mk.injEq] at h
    rw [← h.1]
    exact hcopy
  rw [if_neg hc] at h
  rcases bind_eq_ok.mp h with ⟨⟨m₂, pgdir⟩, hdir, h⟩
  dsimp only at h
  by_cases hp : pgdir = 0
  · rw [if_pos hp, Except.ok.injEq, Prod.mk.injEq] at h
    rw [← h.1]
    exact hcopy.trans (createPageDir_keeps hdir)
  rw [if_neg hp] at h
  -- From here on it does not give up.
  rcases bind_eq_ok.mp h with ⟨m₃, -, h⟩
  rcases bind_eq_ok.mp h with ⟨fs, -, h⟩
  rcases bind_eq_ok.mp h with ⟨m₄, -, h⟩
  rw [Except.ok.injEq, Prod.mk.injEq] at h
  cases h.2

/-- A kernel page that was free is taken when `sys_fork` returns `-1`. -/
theorem sysFork_takes (h : sysFork k = .ok (k', -1)) :
    ∃ s, bitmapScanTest k.mem.kernelVaddr.vaddrBitmap s = false ∧
      bitmapScanTest k'.mem.kernelVaddr.vaddrBitmap s = true := by
  rw [sysFork] at h
  rcases bind_eq_ok.mp h with ⟨⟨m, child⟩, hpage, h⟩
  dsimp only at h
  rcases getKernelPages_takes hpage with ⟨s, hbefore, hafter⟩
  -- The page for the PCB is the first one asked for.
  refine ⟨s, hbefore, ?_⟩
  by_cases hz : child = 0
  · rw [if_pos hz, Except.ok.injEq, Prod.mk.injEq] at h
    rw [← h.1]
    exact hafter
  rw [if_neg hz] at h
  rcases bind_eq_ok.mp h with ⟨_, -, h⟩
  rcases bind_eq_ok.mp h with ⟨⟨k₁, done⟩, hcopy, h⟩
  dsimp only at h
  by_cases hd : done = false
  · rw [if_pos hd, Except.ok.injEq, Prod.mk.injEq] at h
    rw [hd] at hcopy
    rw [← h.1]
    exact copyProcess_keeps hcopy s hafter
  · -- A fork that gets this far returns a pid.
    rw [if_neg hd] at h
    rcases bind_eq_ok.mp h with ⟨_, -, h⟩
    rcases bind_eq_ok.mp h with ⟨_, -, h⟩
    rw [Except.ok.injEq, Prod.mk.injEq] at h
    have hpid := h.2
    omega

/-- A fork that finds no room for the bitmap of the child. -/
theorem sysFork_no_bitmap {mA mB : Machine} {bufPage : Word} {pool : Bitmap} {pid : Nat}
    (hA : getKernelPages k.mem 1 = .ok (mA, child)) (hB : getKernelPages mA 1 = .ok (mB, bufPage))
    (hpid : forkPid k.pidPool = .ok (pool, pid))
    (hC : bitmapScan mB.kernelVaddr.vaddrBitmap bitmapPgCnt = .ok none)
    (hnz : child ≠ 0 ∧ bufPage ≠ 0 ∧ (k.pcb k.cur).mem.pgdir ≠ 0) :
    ∃ k', sysFork k = .ok (k', -1) := by
  have hget := getKernelPages_none (show 0 < bitmapPgCnt ∧ bitmapPgCnt < 3840 by decide) hC
  rw [sysFork, hA, ok_bind]
  dsimp only
  rw [if_neg hnz.1, ensure_pos hnz.2.2, ok_bind, copyProcess]
  dsimp only
  rw [hB, ok_bind]
  dsimp only
  rw [if_neg hnz.2.1, copyPcbVaddrbitmapStack0]
  dsimp only
  rw [hpid, ok_bind]
  dsimp only [Kernel.setPcb]
  rw [hget, ok_bind]
  exact ⟨_, rfl⟩

/-- Every fork that returns `-1` leaves something taken that was free. -/
theorem fork_fails_changed (h : sysFork k = .ok (k', -1)) : ¬ ForkUnchanged k k' := by
  intro hc
  rcases sysFork_takes h with ⟨s, hbefore, hafter⟩
  rw [hc.kernelVaddr, hbefore] at hafter
  cases hafter

end Fork

section Example

/-- A request is served behind the pages that are taken, where these are the
    first ones. -/
theorem getKernelPages_behind {m : Machine} (h : KernelMap m) {a n k : Nat}
    (hdir : DirPage m a) (hbits : ∀ i, bitmapScanTest m.kernelVaddr.vaddrBitmap i = decide (i < n))
    (hk : 0 < k ∧ k < 3840) (hn : n + k ≤ kernelPages m)
    (hfree : k ≤ freeCount m.kernelPool.poolBitmap) :
    ∃ m', getKernelPages m k = .ok (m', pageAddr n) ∧ GotPages m m' n k ∧
      ∀ i, bitmapScanTest m'.kernelVaddr.vaddrBitmap i = decide (i < n + k) := by
  have hrun : FreeRun m.kernelVaddr.vaddrBitmap k n :=
    ⟨hn, fun i h1 _ => (hbits i).trans (decide_eq_false (by omega))⟩
  rcases getKernelPages_fits h hk ⟨⟨n, hrun⟩, hfree⟩ hdir with ⟨m', s, hget, hgot, hfirst⟩
  have hs : s = n := by
    have hle := hfirst n hrun
    have hclear := hgot.run.2 s (Nat.le_refl s) (by omega)
    rw [hbits, decide_eq_false_iff_not] at hclear
    omega
  rw [hs] at hget hgot
  refine ⟨m', hget, hgot, fun i => ?_⟩
  rw [hgot.vaddr, bitmapScanTest_setRange, hbits]
  by_cases hi : n ≤ i ∧ i < n + k
  · rw [if_pos hi, decide_eq_true (by omega)]
  · rw [if_neg hi, decide_eq_decide]
    omega

/-- The bitmap of a process does not fit behind the 3837 addresses that are
    taken then. -/
theorem crowded_scan {b : Bitmap} (hlen : b.btmpBytesLen * 8 = 3840)
    (hbits : ∀ i, bitmapScanTest b i = decide (i < 3837)) :
    bitmapScan b bitmapPgCnt = .ok none := by
  have hcnt : bitmapPgCnt = 23 := rfl
  have hlt := scanBytes_lt (b := b) (i := 3837) (by omega) (by rw [hbits]; rfl)
  rw [bitmapScan, ensure_pos hlt, ok_bind]
  cases hscan : bitmapScanRest b bitmapPgCnt with
  | none => rfl
  | some s =>
      have hwithin := scanRest_within hscan
      have hstart := (scanRest_start (by omega) hscan).2
      rw [hbits, decide_eq_false_iff_not] at hstart
      omega

/-- A kernel thread takes 3810 pages of `initKernel`, so that five are left,
    and then the process forks. -/
theorem crowded_fork : ∃ m v k', getKernelPages initKernel.mem 3810 = .ok (m, v) ∧
    sysFork { initKernel with mem := m } = .ok (k', -1) := by
  have hfree : freeCount stackMachine.kernelPool.poolBitmap = 3814 := firstBits_free 26
  have hpages := stackMachine_pages
  -- The requests of the thread, for the PCB and for the page of the copies.
  rcases getKernelPages_behind stackMachine_map stackMachine_dirPage (firstBits_test 25)
    (show 0 < 3810 ∧ 3810 < 3840 by omega) (by omega) (by omega) with ⟨m, hget, hgot, hbits⟩
  have hcount := hgot.count
  have hpages := hgot.pages
  have hdir := stackMachine_dirPage.got hgot stackMachine_map
  rcases getKernelPages_behind hgot.map hdir hbits (k := 1) (by omega) (by omega) (by omega) with
    ⟨mA, hA, hgA, hbitsA⟩
  have hcountA := hgA.count
  have hpagesA := hgA.pages
  rcases getKernelPages_behind hgA.map (hdir.got hgA hgot.map) hbitsA (k := 1) (by omega) (by omega)
    (by omega) with ⟨mB, hB, hgB, hbitsB⟩
  have hpagesB := hgB.pages
  have hpid : forkPid initKernel.pidPool = .ok (bitmapSet initKernel.pidPool 3 true, 4) := rfl
  have hscan := crowded_scan (show kernelPages mB = 3840 by omega) hbitsB
  rcases sysFork_no_bitmap (k := { initKernel with mem := m }) hA hB hpid hscan
    ⟨pageAddr_ne_zero (by omega), pageAddr_ne_zero (by omega), pageAddr_ne_zero (by omega)⟩ with
    ⟨k', hfork⟩
  exact ⟨m, pageAddr 25, k', hget, hfork⟩

/-- `fork_fails_changed` for that fork. -/
theorem fork_fails_changed_crowded : ∃ k k', sysFork k = .ok (k', -1) ∧ ¬ ForkUnchanged k k' := by
  rcases crowded_fork with ⟨m, v, k', -, hfork⟩
  exact ⟨_, k', hfork, fork_fails_changed hfork⟩

/-- The kernel addresses of the PCB and of the page for the copies stay
    taken. -/
theorem failed_fork_keeps_pages : ∃ m v k', getKernelPages initKernel.mem 3810 = .ok (m, v) ∧
    sysFork { initKernel with mem := m } = .ok (k', -1) ∧
    k'.mem.kernelVaddr.vaddrBitmap ≠ m.kernelVaddr.vaddrBitmap := by
  rcases crowded_fork with ⟨m, v, k', hget, hfork⟩
  refine ⟨m, v, k', hget, hfork, fun hc => ?_⟩
  rcases sysFork_takes hfork with ⟨s, hbefore, hafter⟩
  rw [hc, hbefore] at hafter
  cases hafter

end Example

end ForikOS
