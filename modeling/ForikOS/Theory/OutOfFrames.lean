import ForikOS.Core.NoAssertPages
import ForikOS.Theory.ProcessBits
import Mathlib.Order.Interval.Finset.Nat

/-!
# Out of Frames

What `malloc_page` leaves behind in a build without assertions, where `palloc`
returns null for a full pool.

The request is met in three steps: a run of virtual pages is reserved, then a
frame is taken for each page, and for each page whose table is missing a frame
of the kernel pool besides. Nothing is undone when a later step fails, so the
call is atomic only if no run is found at all or if the frames last to the
end. The frame of a page is looked at before it is used and the frame of a page
table is not: where the kernel pool has none left, frame 0 is entered as a
table, and the call goes on as if it had succeeded.

How many frames a request needs depends on the tables that are missing, and
each one that is entered is no longer missing for the pages after it.
`tablesMissing` counts them, and one round of the loop takes exactly what it
lowers the need by.

## Main definitions

* `Paged`, `ProcessRange`: What `malloc_page` relies on.
* `Entering`: What the loop keeps.
* `Entered`: What `page_table_add` has done.
* `tablesMissing`, `FramesFor`: How many frames a request needs.
* `SameMemory`, `NoZeroTable`: What an atomic call leaves as it was.

## Theorems

* `pageTableAdd_entered`: One page.
* `mallocLoop_suffices`, `mallocLoop_exhausts`: The loop with and without
  enough frames.
* `noAssert_vaddrGet_cases`: The run that is reserved.
* `malloc_page_atomic_iff`: When the call is atomic.
-/

namespace ForikOS

/-- What `malloc_page` relies on: the pools are laid out as `mem_pool_init`
    does it, the directory maps itself, and the directory is neither one of its
    own tables nor frame 0 nor free. -/
structure Paged (m : Machine) : Prop where
  self : SelfMap m
  layout : PoolLayout m
  user : UserLayout m
  dir_pos : m.cr3 ≠ 0
  dir_used : ¬ KernelFree m m.cr3
  tables : ∀ d, d < 1023 → isPresent (m.phys m.cr3 d) = true →
    frameOf (m.phys m.cr3 d) ≠ m.cr3

/-- Without its assertion `bitmap_scan` lets `palloc` report a full pool. -/
theorem noAssert_palloc_cases (p : Pool) :
    (Full p.poolBitmap ∧ NoAssert.palloc p = (p, 0)) ∨
    ∃ j, j < p.poolBitmap.btmpBytesLen * 8 ∧ bitmapScanTest p.poolBitmap j = false ∧
      NoAssert.palloc p = ({ p with poolBitmap := bitmapSet p.poolBitmap j true },
        BitVec.ofNat 32 j * pgSize + p.phyAddrStart) := by
  rcases scanRest_cases p.poolBitmap with ⟨hfull, hnone⟩ | ⟨j, hj, hclear, hsome⟩
  · exact Or.inl ⟨hfull, by rw [NoAssert.palloc, hnone]⟩
  · exact Or.inr ⟨j, hj, hclear, by rw [NoAssert.palloc, hsome]⟩

/-- What a run of `page_table_add` and `palloc` keeps. -/
structure Entering (m m' : Machine) : Prop where
  paged : Paged m'
  cr3 : m'.cr3 = m.cr3
  cur : m'.cur = m.cur
  keep : ∀ d, isPresent (m.phys m.cr3 d) = true → m'.phys m.cr3 d = m.phys m.cr3 d
  kernel : freeCount m'.kernelPool.poolBitmap ≤ freeCount m.kernelPool.poolBitmap
  user : freeCount m'.userPool.poolBitmap ≤ freeCount m.userPool.poolBitmap

theorem Entering.refl {m : Machine} (h : Paged m) : Entering m m :=
  ⟨h, rfl, rfl, fun _ _ => rfl, Nat.le_refl _, Nat.le_refl _⟩

theorem Entering.trans {m m' m'' : Machine} (h : Entering m m') (h' : Entering m' m'') :
    Entering m m'' := by
  refine ⟨h'.paged, h'.cr3.trans h.cr3, h'.cur.trans h.cur, ?_, h'.kernel.trans h.kernel,
    h'.user.trans h.user⟩
  intro d hd
  have hkeep := h'.keep d
  rw [h.cr3, h.keep d hd] at hkeep
  exact hkeep hd

section Paging

variable {m m' : Machine} {v phy : Word}

/-- Taking a frame of a pool. -/
theorem Paged.setBit (h : Paged m) (pf : PoolFlags) {j : Nat}
    (hj : j < (m.pool pf).poolBitmap.btmpBytesLen * 8)
    (hclear : bitmapScanTest (m.pool pf).poolBitmap j = false) :
    Entering m (m.setPool { m.pool pf with
      poolBitmap := bitmapSet (m.pool pf).poolBitmap j true } pf) := by
  have hcount := freeCount_set hj hclear
  cases pf with
  | kernel =>
      -- Taking a bit leaves no frame free that was not free before.
      have hfree : ∀ f, KernelFree (m.setPool { m.pool .kernel with
          poolBitmap := bitmapSet (m.pool .kernel).poolBitmap j true } .kernel) f →
          KernelFree m f := by
        rintro f ⟨k, hk, hf, hbit⟩
        refine ⟨k, hk, hf, ?_⟩
        have hset := bitmapScanTest_set m.kernelPool.poolBitmap j k true
        change bitmapScanTest (bitmapSet m.kernelPool.poolBitmap j true) k = false at hbit
        rw [hbit] at hset
        by_cases hkj : k = j
        · rw [if_pos hkj] at hset
          cases hset
        · rw [if_neg hkj] at hset
          exact hset.symm
      refine ⟨⟨⟨h.self.present, h.self.frame⟩, ⟨h.layout.kp_start, h.layout.kp_end,
        h.layout.vaddr_start, h.layout.vaddr_len⟩, ⟨h.user.aligned, h.user.fits⟩, h.dir_pos,
        fun hc => h.dir_used (hfree _ hc), h.tables⟩, rfl, rfl, fun _ _ => rfl, ?_, Nat.le_refl _⟩
      change freeCount (bitmapSet m.kernelPool.poolBitmap j true) ≤ _
      exact Nat.le_of_succ_le (Nat.le_of_eq hcount)
  | user =>
      refine ⟨⟨⟨h.self.present, h.self.frame⟩, ⟨h.layout.kp_start, h.layout.kp_end,
        h.layout.vaddr_start, h.layout.vaddr_len⟩, ⟨h.user.aligned, h.user.fits⟩, h.dir_pos,
        h.dir_used, h.tables⟩, rfl, rfl, fun _ _ => rfl, Nat.le_refl _, ?_⟩
      change freeCount (bitmapSet m.userPool.poolBitmap j true) ≤ _
      exact Nat.le_of_succ_le (Nat.le_of_eq hcount)

/-- The frames of both pools have addresses other than null. -/
theorem Paged.frame_ne_zero (h : Paged m) (pf : PoolFlags) {j : Nat}
    (hj : j < (m.pool pf).poolBitmap.btmpBytesLen * 8) :
    BitVec.ofNat 32 j * pgSize + (m.pool pf).phyAddrStart ≠ 0 := by
  intro hc
  have hzero : (0 : Word).toNat = 0 := rfl
  cases pf with
  | kernel =>
      have hnat := h.layout.toNat_frame hj
      have haddr : BitVec.ofNat 32 j * pgSize + (m.pool .kernel).phyAddrStart = kernelFrame j := by
        change BitVec.ofNat 32 j * pgSize + m.kernelPool.phyAddrStart = _
        rw [h.layout.kp_start, kernelFrame]
      rw [← haddr, hc] at hnat
      omega
  | user =>
      have hfits := h.user.fits
      have hend := h.layout.kp_end
      have hmul : (BitVec.ofNat 32 j * pgSize).toNat = j * 4096 := by
        change j < m.userPool.poolBitmap.btmpBytesLen * 8 at hj
        rw [userFrames] at hfits
        exact toNat_mul_pgSize (by omega)
      have hnat := congrArg BitVec.toNat hc
      rw [BitVec.toNat_add, hmul, hzero] at hnat
      change j < m.userPool.poolBitmap.btmpBytesLen * 8 at hj
      change (j * 4096 + m.userPool.phyAddrStart.toNat) % 2 ^ 32 = 0 at hnat
      rw [userFrames] at hfits
      omega

/-- What `malloc_page` relies on outlasts writes to memory that leave the last
    entry of the directory and enter no table that is the directory. -/
theorem Paged.ofPhys (h : Paged m) (hsame : SameButPhys m m')
    (hlast : m'.phys m.cr3 1023 = m.phys m.cr3 1023)
    (htables : ∀ d, d < 1023 → isPresent (m'.phys m.cr3 d) = true →
      frameOf (m'.phys m.cr3 d) ≠ m.cr3) : Paged m' := by
  have hcr3 : m'.cr3 = m.cr3 := by rw [hsame]
  refine ⟨⟨?_, ?_⟩, ?_, ?_, ?_, ?_, ?_⟩
  · rw [hcr3, hlast]
    exact h.self.present
  · rw [hcr3, hlast]
    exact h.self.frame
  · rw [hsame]
    exact ⟨h.layout.kp_start, h.layout.kp_end, h.layout.vaddr_start, h.layout.vaddr_len⟩
  · rw [hsame]
    exact ⟨h.user.aligned, h.user.fits⟩
  · rw [hcr3]
    exact h.dir_pos
  · rw [hsame]
    exact h.dir_used
  · rw [hcr3]
    exact htables

/-- Writing outside the directory leaves it as it was. -/
theorem Paged.ofDir (h : Paged m) (hsame : SameButPhys m m') (hdir : m'.phys m.cr3 = m.phys m.cr3) :
    Entering m m' := by
  have hpaged : Paged m' := by
    refine h.ofPhys hsame (by rw [hdir]) (fun d hd hp => ?_)
    rw [hdir] at hp ⊢
    exact h.tables d hd hp
  refine ⟨hpaged, ?_, ?_, fun d _ => by rw [hdir], ?_, ?_⟩
  · rw [hsame]
  · rw [hsame]
  · rw [hsame]
  · rw [hsame]

/-- Entering a frame as a page table, whatever the frame is as long as it is
    not the directory. -/
theorem Paged.newTable (h : Paged m) (hd : pdeIdx v < 1023)
    (habs : isPresent (m.phys m.cr3 (pdeIdx v)) = false) {a : Word}
    (ha : a.toNat % 2 ^ 12 = 0) (hne : a.toNat / 2 ^ 12 ≠ m.cr3)
    (hrun : (do
      let m ← store m (pdePtr v) (entryFor a)
      let m ← clearPage m (ptePtr v &&& 0xfffff000)
      store m (ptePtr v) (entryFor phy)) = Except.ok m') :
    Entering m m' ∧ m'.userPool = m.userPool ∧ m'.kernelPool = m.kernelPool ∧
      (∀ d, d ≠ pdeIdx v → m'.phys m.cr3 d = m.phys m.cr3 d) ∧
      m'.phys m.cr3 (pdeIdx v) = entryFor a := by
  have hpres := isPresent_entryFor ha
  have hframe := frameOf_entryFor ha
  rw [store_pdePtr h.self, ok_bind] at hrun
  obtain ⟨m₁, hm₁⟩ : ∃ m₁, m₁ = m.setWord m.cr3 (pdeIdx v) (entryFor a) := ⟨_, rfl⟩
  rw [← hm₁] at hrun
  have hcr3₁ : m₁.cr3 = m.cr3 := by rw [hm₁]; rfl
  have hpde₁ : m₁.phys m.cr3 (pdeIdx v) = entryFor a := by
    rw [hm₁, setWord_phys_self]
  have hdir₁ : ∀ d, d ≠ pdeIdx v → m₁.phys m.cr3 d = m.phys m.cr3 d := by
    intro d hne'
    rw [hm₁, setWord_phys_of_ne _ (Or.inr hne')]
  have hpaged₁ : Paged m₁ := by
    refine h.ofPhys (by rw [hm₁]; rfl) (hdir₁ 1023 (by omega)) (fun d hlt hp => ?_)
    by_cases hdd : d = pdeIdx v
    · rw [hdd, hpde₁, hframe]
      exact hne
    · rw [hdir₁ d hdd] at hp ⊢
      exact h.tables d hlt hp
  -- The new table is reached through the entry just written.
  have hwalk := walk_ptePtr hpaged₁.self (v := v) (by rw [hcr3₁, hpde₁]; exact hpres)
  rw [hcr3₁, hpde₁, hframe] at hwalk
  rw [clearPage, walk_high, hwalk.1] at hrun
  dsimp only at hrun
  rw [ok_bind] at hrun
  obtain ⟨m₂, hm₂⟩ : ∃ m₂, m₂ = m₁.setFrame (a.toNat / 2 ^ 12) (fun _ => 0) := ⟨_, rfl⟩
  rw [← hm₂] at hrun
  have hcr3₂ : m₂.cr3 = m.cr3 := by rw [hm₂]; exact hcr3₁
  have hdir₂ : m₂.phys m.cr3 = m₁.phys m.cr3 := by
    rw [hm₂]
    exact setFrame_phys_of_ne _ hne.symm
  have hpaged₂ : Paged m₂ :=
    (hpaged₁.ofDir (by rw [hm₂]; rfl) (by rw [hcr3₁]; exact hdir₂)).paged
  have hstore := store_ptePtr hpaged₂.self (v := v) (entryFor phy)
    (by rw [hcr3₂, hdir₂, hpde₁]; exact hpres)
  rw [hcr3₂, hdir₂, hpde₁, hframe] at hstore
  rw [hstore, Except.ok.injEq] at hrun
  have hdir' : m'.phys m.cr3 = m₁.phys m.cr3 := by
    rw [← hrun, setWord_frame_of_ne _ hne.symm, hdir₂]
  have hpaged' : Paged m' := by
    refine (hpaged₂.ofDir (by rw [← hrun]; rfl) ?_).paged
    rw [hcr3₂, hdir', hdir₂]
  refine ⟨⟨hpaged', ?_, ?_, ?_, ?_, ?_⟩, ?_, ?_, ?_, ?_⟩
  · rw [← hrun]
    exact hcr3₂
  · rw [← hrun, hm₂, hm₁]
    rfl
  · intro d hp
    rw [hdir', hdir₁ d (fun hc => by rw [hc, habs] at hp; cases hp)]
  · rw [← hrun, hm₂, hm₁]
    exact Nat.le_refl _
  · rw [← hrun, hm₂, hm₁]
    exact Nat.le_refl _
  · rw [← hrun, hm₂, hm₁]
    rfl
  · rw [← hrun, hm₂, hm₁]
    rfl
  · intro d hne'
    rw [hdir', hdir₁ d hne']
  · rw [hdir', hpde₁]

/-- What `page_table_add` has done for the address `v`. -/
structure Entered (m m' : Machine) (v : Word) : Prop where
  run : Entering m m'
  userPool : m'.userPool = m.userPool
  dir : ∀ d, d ≠ pdeIdx v → m'.phys m.cr3 d = m.phys m.cr3 d
  present : isPresent (m'.phys m.cr3 (pdeIdx v)) = true
  table :
    (isPresent (m.phys m.cr3 (pdeIdx v)) = true ∧ m'.kernelPool = m.kernelPool) ∨
    (isPresent (m.phys m.cr3 (pdeIdx v)) = false ∧
      freeCount m'.kernelPool.poolBitmap + 1 = freeCount m.kernelPool.poolBitmap ∧
      frameOf (m'.phys m.cr3 (pdeIdx v)) ≠ 0) ∨
    (isPresent (m.phys m.cr3 (pdeIdx v)) = false ∧ Full m.kernelPool.poolBitmap ∧
      frameOf (m'.phys m.cr3 (pdeIdx v)) = 0)

theorem pageTableAdd_entered (h : Paged m) (hd : pdeIdx v < 1023)
    (hrun : NoAssert.pageTableAdd m v phy = .ok m') : Entered m m' v := by
  rw [NoAssert.pageTableAdd, load_pdePtr h.self, ok_bind] at hrun
  by_cases hp : isPresent (m.phys m.cr3 (pdeIdx v)) = true
  · -- The table is there, and its entry has to be absent.
    rw [if_pos hp, load_ptePtr h.self hp, ok_bind] at hrun
    have hne := h.tables _ hd hp
    split at hrun
    · cases hrun
    · rw [store_ptePtr h.self _ hp, Except.ok.injEq] at hrun
      have hdir : m'.phys m.cr3 = m.phys m.cr3 := by
        rw [← hrun]
        exact setWord_frame_of_ne _ hne.symm
      have hset := h.ofDir (by rw [← hrun]; rfl) hdir
      refine ⟨hset, by rw [← hrun]; rfl, fun d _ => by rw [hdir], by rw [hdir]; exact hp,
        Or.inl ⟨hp, by rw [← hrun]; rfl⟩⟩
  · rw [if_neg hp] at hrun
    have habs : isPresent (m.phys m.cr3 (pdeIdx v)) = false := Bool.not_eq_true _ ▸ hp
    rcases noAssert_palloc_cases m.kernelPool with ⟨hfull, hpalloc⟩ | ⟨j, hj, hclear, hpalloc⟩
    · -- Nothing is left for the table, and frame 0 is entered in its place.
      rw [hpalloc] at hrun
      have hnew := h.newTable hd habs (a := 0) (by decide) (Ne.symm h.dir_pos) hrun
      refine ⟨hnew.1, hnew.2.1, hnew.2.2.2.1, ?_, Or.inr (Or.inr ⟨habs, hfull, ?_⟩)⟩
      · rw [hnew.2.2.2.2]
        exact isPresent_entryFor (by decide)
      · rw [hnew.2.2.2.2]
        exact frameOf_entryFor (by decide)
    · rw [hpalloc] at hrun
      have hset := h.setBit .kernel hj hclear
      have hcount := freeCount_set hj hclear
      have haddr : BitVec.ofNat 32 j * pgSize + m.kernelPool.phyAddrStart = kernelFrame j := by
        rw [h.layout.kp_start, kernelFrame]
      have hnat := h.layout.toNat_frame hj
      have hne : (kernelFrame j).toNat / 2 ^ 12 ≠ m.cr3 := by
        intro hc
        refine h.dir_used ⟨j, hj, ?_, hclear⟩
        omega
      rw [haddr] at hrun
      have hnew := hset.paged.newTable hd habs (a := kernelFrame j) (by omega) hne hrun
      refine ⟨hset.trans hnew.1, hnew.2.1, hnew.2.2.2.1, ?_, Or.inr (Or.inl ⟨habs, ?_, ?_⟩)⟩
      · exact hnew.2.2.2.2 ▸ isPresent_entryFor (by omega)
      · rw [hnew.2.2.1]
        exact hcount
      · have hpde : m'.phys m.cr3 (pdeIdx v) = entryFor (kernelFrame j) := hnew.2.2.2.2
        rw [hpde, frameOf_entryFor (by omega), hnat]
        omega

end Paging

/-- How many page tables `n` pages from page `q` on need that are missing. -/
def tablesMissing (m : Machine) (q n : Nat) : Nat :=
  (((Finset.Ico q (q + n)).image (· / 1024)).filter
    (fun d => isPresent (m.phys m.cr3 d) = false)).card

/-- The pools have a frame for each of `n` pages from page `q` on, and the
    kernel pool one for each missing table besides. -/
def FramesFor (m : Machine) (pf : PoolFlags) (q n : Nat) : Prop :=
  match pf with
  | .kernel => n + tablesMissing m q n ≤ freeCount m.kernelPool.poolBitmap
  | .user => n ≤ freeCount m.userPool.poolBitmap ∧
      tablesMissing m q n ≤ freeCount m.kernelPool.poolBitmap

/-- A page needs at most one table. -/
theorem tablesMissing_le (m : Machine) (q n : Nat) : tablesMissing m q n ≤ n := by
  refine (Finset.card_filter_le _ _).trans (Finset.card_image_le.trans (Nat.le_of_eq ?_))
  rw [Nat.card_Ico, Nat.add_sub_cancel_left]

theorem framesFor_zero (m : Machine) (pf : PoolFlags) (q : Nat) : FramesFor m pf q 0 := by
  have hnone := tablesMissing_le m q 0
  cases pf <;> simp only [FramesFor] <;> omega

/-- What suffices depends on the two frame bitmaps and the directory only. -/
theorem framesFor_congr {m m' : Machine} (hcr3 : m'.cr3 = m.cr3)
    (hdir : m'.phys m.cr3 = m.phys m.cr3) (hk : m'.kernelPool = m.kernelPool)
    (hu : m'.userPool = m.userPool) (pf : PoolFlags) (q n : Nat) :
    FramesFor m' pf q n ↔ FramesFor m pf q n := by
  have hneed : tablesMissing m' q n = tablesMissing m q n := by
    rw [tablesMissing, hcr3, hdir, tablesMissing]
  cases pf <;> simp only [FramesFor, hneed, hk, hu]

/-- One page more needs the table of that page, if it is missing. -/
theorem tablesMissing_succ {m m' : Machine} {q n : Nat} (hcr3 : m'.cr3 = m.cr3)
    (hdir : ∀ d, d ≠ q / 1024 → m'.phys m.cr3 d = m.phys m.cr3 d)
    (hp : isPresent (m'.phys m.cr3 (q / 1024)) = true) :
    tablesMissing m q (n + 1) = tablesMissing m' (q + 1) n
      + if isPresent (m.phys m.cr3 (q / 1024)) then 0 else 1 := by
  have hrange : Finset.Ico q (q + (n + 1)) = insert q (Finset.Ico (q + 1) (q + 1 + n)) := by
    ext i
    rw [Finset.mem_insert, Finset.mem_Ico, Finset.mem_Ico]
    omega
  have himage : (Finset.Ico q (q + (n + 1))).image (· / 1024)
      = insert (q / 1024) ((Finset.Ico (q + 1) (q + 1 + n)).image (· / 1024)) := by
    rw [hrange, Finset.image_insert]
  -- The table of the first page is there afterwards, so the pages that follow do not miss it.
  have hnot : q / 1024 ∉ ((Finset.Ico (q + 1) (q + 1 + n)).image (· / 1024)).filter
      (fun d => isPresent (m'.phys m'.cr3 d) = false) := by
    rw [Finset.mem_filter, hcr3, hp]
    exact fun hc => Bool.noConfusion hc.2
  have hrest : ∀ d, d ≠ q / 1024 →
      (isPresent (m.phys m.cr3 d) = false ↔ isPresent (m'.phys m'.cr3 d) = false) := by
    intro d hd
    rw [hcr3, hdir d hd]
  rw [tablesMissing, himage, tablesMissing]
  by_cases hold : isPresent (m.phys m.cr3 (q / 1024)) = true
  · rw [if_pos hold]
    refine (congrArg Finset.card (Finset.ext fun d => ?_)).trans (Nat.add_zero _).symm
    by_cases hd : d = q / 1024
    · subst hd
      rw [Finset.mem_filter, hold]
      exact ⟨fun hc => Bool.noConfusion hc.2, fun hc => absurd hc hnot⟩
    · simp only [Finset.mem_filter, Finset.mem_insert, hd, false_or, hrest d hd]
  · rw [if_neg hold, ← Finset.card_insert_of_notMem hnot]
    refine congrArg Finset.card (Finset.ext fun d => ?_)
    by_cases hd : d = q / 1024
    · subst hd
      simp only [Finset.mem_filter, Finset.mem_insert, true_or, true_and, iff_true]
      exact Bool.not_eq_true _ ▸ hold
    · simp only [Finset.mem_filter, Finset.mem_insert, hd, false_or, hrest d hd]

section Loop

variable {m m' : Machine} {pf : PoolFlags} {v : Word} {n : Nat} {done : Bool}

/-- One round of the loop: the pool is full, or a frame is taken and entered. -/
theorem mallocLoop_round (h : Paged m) (hd : pdeIdx v < 1023)
    (hrun : NoAssert.mallocLoop pf (n + 1) m v = .ok (m', done)) :
    (Full (m.pool pf).poolBitmap ∧ m' = m ∧ done = false) ∨
    ∃ m₀ m₁, Entering m m₀ ∧ m₀.phys = m.phys ∧
      freeCount (m₀.pool pf).poolBitmap + 1 = freeCount (m.pool pf).poolBitmap ∧
      (pf = .user → m₀.kernelPool = m.kernelPool) ∧ Entered m₀ m₁ v ∧
      NoAssert.mallocLoop pf n m₁ (v + pgSize) = .ok (m', done) := by
  rw [NoAssert.mallocLoop] at hrun
  -- Either the pool is full and the loop ends, or one bit is taken and one page is mapped.
  rcases noAssert_palloc_cases (m.pool pf) with ⟨hfull, hpalloc⟩ | ⟨j, hj, hclear, hpalloc⟩
  · rw [hpalloc] at hrun
    dsimp only at hrun
    rw [if_pos rfl, Except.ok.injEq, Prod.mk.injEq] at hrun
    refine Or.inl ⟨hfull, ?_, hrun.2.symm⟩
    rw [← hrun.1]
    cases pf <;> rfl
  · rw [hpalloc] at hrun
    dsimp only at hrun
    rw [if_neg (h.frame_ne_zero pf hj)] at hrun
    rcases bind_eq_ok.mp hrun with ⟨m₁, hadd, hloop⟩
    have hset := h.setBit pf hj hclear
    have hcount := freeCount_set hj hclear
    refine Or.inr ⟨_, m₁, hset, ?_, ?_, ?_, pageTableAdd_entered hset.paged hd hadd, hloop⟩
    · cases pf <;> rfl
    · cases pf <;> exact hcount
    · intro hpf
      rw [hpf]
      rfl

/-- The next page of the run. -/
theorem page_succ (hend : v.toNat + (n + 1) * 4096 ≤ 0xffc00000) :
    (v + pgSize).toNat = v.toNat + 4096 ∧ pdeIdx v = v.toNat / 4096 / 1024 ∧ pdeIdx v < 1023 := by
  have hs : pgSize.toNat = 4096 := rfl
  refine ⟨?_, ?_, ?_⟩
  · rw [BitVec.toNat_add, hs]
    omega
  · rw [pdeIdx_eq]
    omega
  · rw [pdeIdx_eq]
    omega

/-- The loop keeps what it relies on. If it ends early it took a frame, or the
    pool was full when it began. -/
theorem noAssert_mallocLoop_entering (h : Paged m) (hend : v.toNat + n * 4096 ≤ 0xffc00000)
    (hrun : NoAssert.mallocLoop pf n m v = .ok (m', done)) :
    Entering m m' ∧ (done = false → m' = m ∨
      freeCount (m'.pool pf).poolBitmap < freeCount (m.pool pf).poolBitmap) := by
  induction n generalizing m v with
  | zero =>
      rw [NoAssert.mallocLoop, Except.ok.injEq, Prod.mk.injEq] at hrun
      rw [← hrun.1, ← hrun.2]
      exact ⟨Entering.refl h, fun hc => Bool.noConfusion hc⟩
  | succ n ih =>
      have hpage := page_succ hend
      rcases mallocLoop_round h hpage.2.2 hrun with
        ⟨-, hsame, -⟩ | ⟨m₀, m₁, hset, -, hcount, -, hadd, hloop⟩
      · rw [hsame]
        exact ⟨Entering.refl h, fun _ => Or.inl rfl⟩
      · have hrest := (ih hadd.run.paged (by rw [hpage.1]; omega) hloop).1
        have hall := hadd.run.trans hrest
        refine ⟨hset.trans hall, fun _ => Or.inr ?_⟩
        have hle : freeCount (m'.pool pf).poolBitmap ≤ freeCount (m₀.pool pf).poolBitmap := by
          cases pf
          · exact hall.kernel
          · exact hall.user
        omega

/-- Frames suffice for a run exactly if they suffice after one round for the
    rest of it, unless frame 0 was entered as a table. -/
theorem framesFor_succ {m₀ m₁ : Machine} {q : Nat} (hq : pdeIdx v = q / 1024)
    (hset : Entering m m₀) (hphys : m₀.phys = m.phys)
    (hcount : freeCount (m₀.pool pf).poolBitmap + 1 = freeCount (m.pool pf).poolBitmap)
    (hkernel : pf = .user → m₀.kernelPool = m.kernelPool) (hadd : Entered m₀ m₁ v) :
    (FramesFor m pf q (n + 1) ∧ (m₁.phys m.cr3 (q / 1024) ≠ m.phys m.cr3 (q / 1024) →
      frameOf (m₁.phys m.cr3 (q / 1024)) ≠ 0) ∧ FramesFor m₁ pf (q + 1) n) ∨
    (¬ FramesFor m pf q (n + 1) ∧ ¬ FramesFor m₁ pf (q + 1) n) ∨
    (¬ FramesFor m pf q (n + 1) ∧ isPresent (m.phys m.cr3 (q / 1024)) = false ∧
      frameOf (m₁.phys m.cr3 (q / 1024)) = 0) := by
  have hcr3 : m₀.cr3 = m.cr3 := hset.cr3
  have hcr3₁ : m₁.cr3 = m.cr3 := hadd.run.cr3.trans hcr3
  have hdir : ∀ d, d ≠ q / 1024 → m₁.phys m.cr3 d = m.phys m.cr3 d := by
    intro d hd
    rw [← hcr3, hadd.dir d (by rw [hq]; exact hd), hphys]
  have htable := hadd.table
  have hpres := hadd.present
  have huser := hadd.userPool
  rw [hcr3, hphys, hq] at htable
  rw [hcr3, hq] at hpres
  have hneed := tablesMissing_succ (n := n) hcr3₁ hdir hpres
  -- The table was there, has got a frame, or is frame 0. The counts of both
  -- sides go down together in the first two cases.
  rcases htable with ⟨hp, hpool⟩ | ⟨habs, htaken, hne⟩ | ⟨habs, hfull, hzero⟩
  · have hkeep := hadd.run.keep (q / 1024)
    rw [hcr3, hphys] at hkeep
    rw [if_pos hp] at hneed
    have hiff : FramesFor m pf q (n + 1) ↔ FramesFor m₁ pf (q + 1) n := by
      cases pf with
      | kernel =>
          change freeCount m₀.kernelPool.poolBitmap + 1 = freeCount m.kernelPool.poolBitmap at hcount
          simp only [FramesFor]
          rw [hpool]
          omega
      | user =>
          change freeCount m₀.userPool.poolBitmap + 1 = freeCount m.userPool.poolBitmap at hcount
          simp only [FramesFor]
          rw [hpool, hkernel rfl, huser]
          omega
    by_cases hfit : FramesFor m pf q (n + 1)
    · exact Or.inl ⟨hfit, fun hc => absurd (hkeep hp) hc, hiff.mp hfit⟩
    · exact Or.inr (Or.inl ⟨hfit, fun hc => hfit (hiff.mpr hc)⟩)
  · rw [if_neg (by rw [habs]; decide)] at hneed
    have hiff : FramesFor m pf q (n + 1) ↔ FramesFor m₁ pf (q + 1) n := by
      cases pf with
      | kernel =>
          change freeCount m₀.kernelPool.poolBitmap + 1 = freeCount m.kernelPool.poolBitmap at hcount
          simp only [FramesFor]
          omega
      | user =>
          change freeCount m₀.userPool.poolBitmap + 1 = freeCount m.userPool.poolBitmap at hcount
          simp only [FramesFor]
          rw [hkernel rfl] at htaken
          rw [huser]
          omega
    by_cases hfit : FramesFor m pf q (n + 1)
    · exact Or.inl ⟨hfit, fun _ => hne, hiff.mp hfit⟩
    · exact Or.inr (Or.inl ⟨hfit, fun hc => hfit (hiff.mpr hc)⟩)
  · -- Frame 0 is entered because the kernel pool has no frame for the table.
    rw [if_neg (by rw [habs]; decide)] at hneed
    rw [Full] at hfull
    refine Or.inr (Or.inr ⟨?_, habs, hzero⟩)
    cases pf with
    | kernel =>
        change freeCount m₀.kernelPool.poolBitmap + 1 = freeCount m.kernelPool.poolBitmap at hcount
        simp only [FramesFor]
        omega
    | user =>
        rw [hkernel rfl] at hfull
        simp only [FramesFor]
        omega

/-- Where frames suffice every page gets one, and every new table too. -/
theorem mallocLoop_suffices (h : Paged m) (hend : v.toNat + n * 4096 ≤ 0xffc00000)
    (hfit : FramesFor m pf (v.toNat / 4096) n)
    (hrun : NoAssert.mallocLoop pf n m v = .ok (m', done)) :
    done = true ∧ ∀ d, m'.phys m.cr3 d ≠ m.phys m.cr3 d → frameOf (m'.phys m.cr3 d) ≠ 0 := by
  -- The induction is on the pages that are left.
  induction n generalizing m v with
  | zero =>
      rw [NoAssert.mallocLoop, Except.ok.injEq, Prod.mk.injEq] at hrun
      rw [← hrun.1, ← hrun.2]
      exact ⟨rfl, fun _ hc => absurd rfl hc⟩
  | succ n ih =>
      have hpage := page_succ hend
      rcases mallocLoop_round h hpage.2.2 hrun with
        ⟨hfull, -, -⟩ | ⟨m₀, m₁, hset, hphys, hcount, hkernel, hadd, hloop⟩
      · -- A full pool does not suffice for one page.
        rw [Full] at hfull
        cases pf with
        | kernel =>
            change freeCount m.kernelPool.poolBitmap = 0 at hfull
            simp only [FramesFor] at hfit
            omega
        | user =>
            change freeCount m.userPool.poolBitmap = 0 at hfull
            simp only [FramesFor] at hfit
            omega
      · have hq : (v + pgSize).toNat / 4096 = v.toNat / 4096 + 1 := by
          rw [hpage.1]
          omega
        rcases framesFor_succ hpage.2.1 hset hphys hcount hkernel hadd with
          ⟨-, hnew, hrest⟩ | ⟨hnot, -⟩ | ⟨hnot, -⟩
        · have hdone := ih hadd.run.paged (by rw [hpage.1]; omega) (by rw [hq]; exact hrest) hloop
          have hcr3 : m₁.cr3 = m.cr3 := hadd.run.cr3.trans hset.cr3
          rw [hcr3] at hdone
          refine ⟨hdone.1, fun d hd => ?_⟩
          -- An entry that changes later was new then, and one that does not is the one
          -- of this round.
          by_cases hlater : m'.phys m.cr3 d = m₁.phys m.cr3 d
          · rw [hlater] at hd ⊢
            by_cases hdq : d = v.toNat / 4096 / 1024
            · rw [hdq] at hd ⊢
              exact hnew hd
            · have hsame := hadd.dir d (by rw [hpage.2.1]; exact hdq)
              rw [hset.cr3, hphys] at hsame
              exact absurd hsame hd
          · exact hdone.2 d hlater
        · exact absurd hfit hnot
        · exact absurd hfit hnot

/-- Where they do not, some page gets none, or a table is frame 0. -/
theorem mallocLoop_exhausts (h : Paged m) (hend : v.toNat + n * 4096 ≤ 0xffc00000)
    (hfit : ¬ FramesFor m pf (v.toNat / 4096) n)
    (hrun : NoAssert.mallocLoop pf n m v = .ok (m', done)) :
    done = false ∨ ∃ d, d < 1023 ∧ isPresent (m.phys m.cr3 d) = false ∧
      isPresent (m'.phys m.cr3 d) = true ∧ frameOf (m'.phys m.cr3 d) = 0 := by
  induction n generalizing m v with
  | zero =>
      exact absurd (framesFor_zero _ _ _) hfit
  | succ n ih =>
      have hpage := page_succ hend
      rcases mallocLoop_round h hpage.2.2 hrun with
        ⟨-, -, hdone⟩ | ⟨m₀, m₁, hset, hphys, hcount, hkernel, hadd, hloop⟩
      · exact Or.inl hdone
      · have hq : (v + pgSize).toNat / 4096 = v.toNat / 4096 + 1 := by
          rw [hpage.1]
          omega
        have hcr3 : m₁.cr3 = m.cr3 := hadd.run.cr3.trans hset.cr3
        have hend' : (v + pgSize).toNat + n * 4096 ≤ 0xffc00000 := by
          rw [hpage.1]
          omega
        rcases framesFor_succ hpage.2.1 hset hphys hcount hkernel hadd with
          ⟨hyes, -⟩ | ⟨-, hrest⟩ | ⟨-, habs, hzero⟩
        · exact absurd hyes hfit
        · rcases ih hadd.run.paged hend' (by rw [hq]; exact hrest) hloop with
            hfalse | ⟨d, hd, h1, h2, h3⟩
          · exact Or.inl hfalse
          · rw [hcr3] at h1 h2 h3
            refine Or.inr ⟨d, hd, ?_, h2, h3⟩
            -- An entry that is absent after a round was absent before it.
            rw [← Bool.not_eq_true] at h1 ⊢
            intro hp
            have hkeep := (hset.trans hadd.run).keep d hp
            rw [hkeep] at h1
            exact h1 hp
        · -- The entry stays what it is for the rest of the loop.
          have hkeep := (noAssert_mallocLoop_entering hadd.run.paged hend' hloop).1.keep
            (v.toNat / 4096 / 1024)
          have hpres := hadd.present
          rw [hset.cr3, hpage.2.1] at hpres
          rw [hcr3] at hkeep
          refine Or.inr ⟨_, by rw [← hpage.2.1]; exact hpage.2.2, habs, ?_, ?_⟩
          · rw [hkeep hpres]
            exact hpres
          · rw [hkeep hpres]
            exact hzero

end Loop

/-- The bitmap `vaddr_get` looks in. -/
def vaddrBits (m : Machine) : PoolFlags → Bitmap
  | .kernel => m.kernelVaddr.vaddrBitmap
  | .user => procBitmap m m.cur

/-- The address of the first page of the range. -/
def vaddrBase (m : Machine) : PoolFlags → Word
  | .kernel => m.kernelVaddr.vaddrStart
  | .user => m.cur.vaddrStart

/-- The address of the page a bit of that bitmap stands for. -/
def vaddrAt (m : Machine) (pf : PoolFlags) (s : Nat) : Word :=
  vaddrBase m pf + BitVec.ofNat 32 s * pgSize

/-- The addresses of the process: they start behind the null page, end below
    the page tables, and their bitmap is no page table. A kernel thread, with
    no addresses of its own, has an empty bitmap. -/
structure ProcessRange (m : Machine) : Prop where
  start : 0 < m.cur.btmpBytesLen → 0 < m.cur.vaddrStart.toNat
  fits : m.cur.vaddrStart.toNat + (m.cur.btmpBytesLen * 8 + 1) * 4096 ≤ 0xffc00000
  apart : BitmapApart m

/-- The frame bitmaps, the bitmaps of addresses and every entry of the active
    page tables are as before. -/
structure SameMemory (m m' : Machine) : Prop where
  kernelPool : m'.kernelPool.poolBitmap = m.kernelPool.poolBitmap
  userPool : m'.userPool.poolBitmap = m.userPool.poolBitmap
  kernelVaddr : m'.kernelVaddr.vaddrBitmap = m.kernelVaddr.vaddrBitmap
  userVaddr : ∀ i, i < m.cur.btmpBytesLen →
    loadByte m' (m.cur.bits + BitVec.ofNat 32 i) = loadByte m (m.cur.bits + BitVec.ofNat 32 i)
  entries : ∀ f, TableFrame m f → ∀ i, i < 1024 → m'.phys f i = m.phys f i

/-- No entry of the directory was written that points to frame 0. -/
def NoZeroTable (m m' : Machine) : Prop :=
  ∀ d, d < 1024 → m'.phys m.cr3 d ≠ m.phys m.cr3 d → isPresent (m'.phys m.cr3 d) = true →
    frameOf (m'.phys m.cr3 d) ≠ 0

section Reserve

variable {m m' m₁ : Machine} {pf : PoolFlags} {n s : Nat} {a r : Word}

/-- The run that was found lies below the page tables and does not start at
    null. -/
theorem vaddrAt_range (h : Paged m) (hp : pf = .user → ProcessRange m)
    (hscan : bitmapScanRest (vaddrBits m pf) n = some s) :
    vaddrAt m pf s ≠ 0 ∧ (vaddrAt m pf s).toNat + n * 4096 ≤ 0xffc00000 := by
  have hwithin := scanRest_within hscan
  have hpos : 0 < (vaddrBits m pf).btmpBytesLen := by
    by_contra hc
    have hlen : (vaddrBits m pf).btmpBytesLen = 0 := by omega
    rw [bitmapScanRest, hlen] at hscan
    cases hscan
  -- Both ranges begin above 0 and end below the window on the page tables.
  have hbase : 0 < (vaddrBase m pf).toNat ∧
      (vaddrBase m pf).toNat + ((vaddrBits m pf).btmpBytesLen * 8 + 1) * 4096 ≤ 0xffc00000 := by
    cases pf with
    | kernel =>
        have hlen : (vaddrBits m .kernel).btmpBytesLen * 8 ≤ 32768 := h.layout.vaddr_len
        have hval : (vaddrBase m .kernel).toNat = 0xc0100000 := by
          rw [vaddrBase, h.layout.vaddr_start]
          rfl
        omega
    | user => exact ⟨(hp rfl).start hpos, (hp rfl).fits⟩
  have hmul : (BitVec.ofNat 32 s * pgSize).toNat = s * 4096 := toNat_mul_pgSize (by omega)
  have haddr : (vaddrAt m pf s).toNat = (vaddrBase m pf).toNat + s * 4096 := by
    rw [vaddrAt, BitVec.toNat_add, hmul]
    omega
  refine ⟨fun hc => ?_, by omega⟩
  have hzero : (0 : Word).toNat = 0 := rfl
  rw [hc, hzero] at haddr
  omega

/-- `vaddr_get` finds no run and changes nothing, or marks the run it found. -/
theorem noAssert_vaddrGet_cases (h : Paged m) (hp : pf = .user → ProcessRange m)
    (hrun : NoAssert.vaddrGet m pf n = .ok (m₁, a)) :
    (bitmapScanRest (vaddrBits m pf) n = none ∧ m₁ = m ∧ a = 0) ∨
    ∃ s, bitmapScanRest (vaddrBits m pf) n = some s ∧ a = vaddrAt m pf s ∧ Entering m m₁ ∧
      m₁.phys m.cr3 = m.phys m.cr3 ∧ m₁.kernelPool = m.kernelPool ∧ m₁.userPool = m.userPool ∧
      (0 < n → ¬ SameMemory m m₁) := by
  cases pf with
  | kernel =>
      -- The bitmap is a field of the state, and nothing else changes.
      rw [NoAssert.vaddrGet] at hrun
      change _ = _ at hrun
      cases hscan : bitmapScanRest m.kernelVaddr.vaddrBitmap n with
      | none =>
          rw [hscan, Except.ok.injEq, Prod.mk.injEq] at hrun
          exact Or.inl ⟨hscan, hrun.1.symm, hrun.2.symm⟩
      | some s =>
          rw [hscan, Except.ok.injEq, Prod.mk.injEq] at hrun
          have hpaged : Paged m₁ := by
            rw [← hrun.1]
            refine ⟨⟨h.self.present, h.self.frame⟩, ⟨h.layout.kp_start, h.layout.kp_end,
              h.layout.vaddr_start, ?_⟩, ⟨h.user.aligned, h.user.fits⟩, h.dir_pos, h.dir_used,
              h.tables⟩
            change (bitmapSetRange _ _ _ _).btmpBytesLen * 8 ≤ 32768
            rw [bitmapSetRange_len]
            exact h.layout.vaddr_len
          refine Or.inr ⟨s, hscan, hrun.2.symm, ?_, by rw [← hrun.1]; rfl, by rw [← hrun.1]; rfl,
            by rw [← hrun.1]; rfl, fun hn hsame => ?_⟩
          · rw [← hrun.1] at hpaged ⊢
            exact ⟨hpaged, rfl, rfl, fun _ _ => rfl, Nat.le_refl _, Nat.le_refl _⟩
          · -- The first bit of the run was clear and is set now, so memory differs.
            have hclear := (scanRest_start hn hscan).2
            have hbits := hsame.kernelVaddr
            rw [← hrun.1] at hbits
            change bitmapSetRange m.kernelVaddr.vaddrBitmap s true n = _ at hbits
            have hset := bitmapScanTest_setRange m.kernelVaddr.vaddrBitmap s true n s
            rw [hbits, hclear, if_pos ⟨Nat.le_refl s, by omega⟩] at hset
            cases hset
  | user =>
      -- The bitmap of a process is in memory, and is marked through its address.
      rw [NoAssert.vaddrGet] at hrun
      rcases bind_eq_ok.mp hrun with ⟨b, hb, hrest⟩
      have hbits : b = procBitmap m m.cur := by
        rcases bind_eq_ok.mp hb with ⟨-, -, hb'⟩
        rw [Except.ok.injEq] at hb'
        exact hb'.symm
      rw [hbits] at hrest
      cases hscan : bitmapScanRest (procBitmap m m.cur) n with
      | none =>
          rw [hscan, Except.ok.injEq, Prod.mk.injEq] at hrest
          exact Or.inl ⟨hscan, hrest.1.symm, hrest.2.symm⟩
      | some s =>
          rw [hscan] at hrest
          rcases bind_eq_ok.mp hrest with ⟨m₂, hmark, hm₂⟩
          rw [Except.ok.injEq, Prod.mk.injEq] at hm₂
          rw [hm₂.1] at hmark
          have hmarked := userBitmapSetRange_marked (hp rfl).apart (scanRest_within hscan) hmark
          refine Or.inr ⟨s, hscan, ?_, h.ofDir hmarked.1.same hmarked.1.dir, hmarked.1.dir, ?_, ?_,
            fun hn hsame => ?_⟩
          · rw [← hm₂.2, hm₂.1, hmarked.1.cur]
            rfl
          · rw [hmarked.1.same]
          · rw [hmarked.1.same]
          · -- The first bit of the run was clear, and its byte is read back.
            have hstart := scanRest_start hn hscan
            rcases hmarked.2 hn with ⟨byte, hload, hset⟩
            have hold := hsame.userVaddr (s / 8) (by
              have hlt := hstart.1
              change s < m.cur.btmpBytesLen * 8 at hlt
              omega)
            rw [hload] at hold
            have hclear := hstart.2
            rw [bitmapScanTest_eq] at hclear
            simp only [procBitmap, ← hold] at hclear
            rw [hclear] at hset
            cases hset

/-- When `malloc_page` is atomic. -/
theorem malloc_page_atomic_iff (h : Paged m) (hp : pf = .user → ProcessRange m)
    (hrun : NoAssert.mallocPage m pf n = .ok (m', r)) :
    ((r = 0 → SameMemory m m') ∧ NoZeroTable m m') ↔
      ∀ s, bitmapScanRest (vaddrBits m pf) n = some s →
        FramesFor m pf ((vaddrAt m pf s).toNat / 4096) n := by
  rw [NoAssert.mallocPage] at hrun
  rcases bind_eq_ok.mp hrun with ⟨⟨m₁, a⟩, hget, hrest⟩
  dsimp only at hrest
  rcases noAssert_vaddrGet_cases h hp hget with
    ⟨hnone, hsame, hzero⟩ | ⟨s, hscan, haddr, hent, hdir, hkernel, huser, hmarked⟩
  · -- No run: null, and nothing was done.
    rw [if_pos hzero, Except.ok.injEq, Prod.mk.injEq] at hrest
    rw [← hrest.1, hsame]
    constructor
    · intro _ s hs
      rw [hnone] at hs
      cases hs
    · intro _
      exact ⟨fun _ => ⟨rfl, rfl, rfl, fun _ _ => rfl, fun _ _ _ _ => rfl⟩,
        fun _ _ hc => absurd rfl hc⟩
  · have hrange := vaddrAt_range h hp hscan
    rw [haddr, if_neg hrange.1] at hrest
    rcases bind_eq_ok.mp hrest with ⟨⟨m₂, done⟩, hloop, hres⟩
    rw [Except.ok.injEq, Prod.mk.injEq] at hres
    dsimp only at hres
    rw [hres.1] at hloop
    have hcongr := framesFor_congr hent.cr3 hdir hkernel huser pf ((vaddrAt m pf s).toNat / 4096) n
    constructor
    · rintro ⟨hnull, htables⟩ s' hs'
      rw [hscan, Option.some.injEq] at hs'
      rw [← hs']
      by_contra hfit
      -- A request for no pages needs no frames.
      have hn : 0 < n := by
        by_contra hn
        rw [show n = 0 by omega] at hfit
        exact hfit (framesFor_zero _ _ _)
      rcases mallocLoop_exhausts hent.paged hrange.2 (fun hc => hfit (hcongr.mp hc)) hloop with
        hfalse | ⟨d, hd, habs, hpres, hframe⟩
      · -- The pages stay reserved, and so do the frames that were taken.
        have hsame := hnull (by rw [← hres.2, hfalse]; rfl)
        rcases (noAssert_mallocLoop_entering hent.paged hrange.2 hloop).2 hfalse with heq | hlt
        · rw [heq] at hsame
          exact hmarked hn hsame
        · cases pf with
          | kernel =>
              change freeCount m'.kernelPool.poolBitmap < freeCount m₁.kernelPool.poolBitmap at hlt
              rw [hsame.kernelPool, hkernel] at hlt
              exact Nat.lt_irrefl _ hlt
          | user =>
              change freeCount m'.userPool.poolBitmap < freeCount m₁.userPool.poolBitmap at hlt
              rw [hsame.userPool, huser] at hlt
              exact Nat.lt_irrefl _ hlt
      · rw [hent.cr3] at habs hpres hframe
        rw [hdir] at habs
        refine htables d (by omega) (fun hc => ?_) hpres hframe
        rw [hc, habs] at hpres
        cases hpres
    · intro hfit
      have hdone := mallocLoop_suffices hent.paged hrange.2 (hcongr.mpr (hfit s hscan)) hloop
      rw [hent.cr3, hdir] at hdone
      refine ⟨fun hr => ?_, fun d _ hne _ => hdone.2 d hne⟩
      rw [← hres.2, hdone.1] at hr
      exact absurd hr hrange.1

end Reserve

/-- With the kernel half in place only the tables of the user half have to be
    looked at. -/
theorem KernelHalf.paged {m : Machine} (hk : KernelHalf m) (hl : PoolLayout m) (hu : UserLayout m)
    (hpos : m.cr3 ≠ 0) (hused : ¬ KernelFree m m.cr3)
    (hlow : ∀ d, d < 768 → isPresent (m.phys m.cr3 d) = true →
      frameOf (m.phys m.cr3 d) ≠ m.cr3) : Paged m := by
  refine ⟨hk.self, hl, hu, hpos, hused, fun d hd hp => ?_⟩
  by_cases hlt : d < 768
  · exact hlow d hlt hp
  · have htable := (hk.table d (by omega) hd).2
    have hne := hk.cr3_ne
    omega

/-- A bitmap without a clear bit. -/
def fullBitmap (len : Nat) : Bitmap := ⟨len, fun _ => 0xff⟩

theorem fullBitmap_set (len i : Nat) : bitmapScanTest (fullBitmap len) i = true := by
  rw [bitmapScanTest_eq, fullBitmap, show (0xff : BitVec 8) = BitVec.allOnes 8 by decide,
    BitVec.getLsbD_allOnes]
  exact decide_eq_true (Nat.mod_lt i (by omega))

theorem fullBitmap_full (len : Nat) : Full (fullBitmap len) := by
  rw [Full, freeCount, Finset.card_eq_zero, Finset.filter_eq_empty_iff]
  intro i _ hc
  rw [fullBitmap_set] at hc
  cases hc

/-- A machine with 32 MB whose kernel frames are all taken, while every kernel
    address is free. -/
def spentMachine : Machine :=
  { bootPages.mem with
    kernelPool := { bootPages.mem.kernelPool with poolBitmap := fullBitmap 480 } }

theorem spentMachine_paged : Paged spentMachine := by
  have hl := memPoolInit_layout loaderMachine 0x2000000
  have hlen : bootPages.mem.kernelPool.poolBitmap.btmpBytesLen = 480 := by decide
  refine KernelHalf.paged ⟨⟨rfl, rfl⟩, loaderMachine_half.table, Or.inl (by decide)⟩
    ⟨hl.kp_start, ?_, hl.vaddr_start, hl.vaddr_len⟩ ⟨by decide, by decide⟩ (by decide) ?_ ?_
  · have hend := hl.kp_end
    change 0x200000 + bootPages.mem.kernelPool.poolBitmap.btmpBytesLen * 8 * 4096 ≤ _ at hend
    rw [hlen] at hend
    exact hend
  · rintro ⟨j, -, -, hclear⟩
    change bitmapScanTest (fullBitmap 480) j = false at hclear
    rw [fullBitmap_set] at hclear
    cases hclear
  · intro d hd hp
    have hzero : spentMachine.phys spentMachine.cr3 d = 0 := by
      show (if (0x100 : Nat) = 0x100 ∧ 768 ≤ d ∧ d < 1023 then _ else
        if (0x100 : Nat) = 0x100 ∧ d = 1023 then _ else (0 : Word)) = 0
      rw [if_neg (by omega), if_neg (by omega)]
    rw [hzero] at hp
    cases hp

/-- The machine after a request for one page, which it refuses. -/
def spentAfter : Machine :=
  spentMachine.setVaddrBitmap (bitmapSetRange spentMachine.kernelVaddr.vaddrBitmap 0 true 1)

theorem spentMachine_run : NoAssert.mallocPage spentMachine .kernel 1 = .ok (spentAfter, 0) := by
  have hscan : bitmapScanRest spentMachine.kernelVaddr.vaddrBitmap 1 = some 0 := by rfl
  have hget : NoAssert.vaddrGet spentMachine .kernel 1 = .ok (spentAfter, 0xc0100000) := by
    rw [NoAssert.vaddrGet, hscan]
    rfl
  have hnone : bitmapScanRest (spentAfter.pool .kernel).poolBitmap 1 = none :=
    (full_iff _).mp (fullBitmap_full 480)
  have hpalloc : NoAssert.palloc (spentAfter.pool .kernel) = (spentAfter.pool .kernel, 0) := by
    rw [NoAssert.palloc, hnone]
  rw [NoAssert.mallocPage, hget, ok_bind]
  dsimp only
  rw [if_neg (by decide), NoAssert.mallocLoop, hpalloc]
  rfl

/-- A request that fails keeps the pages it has reserved. -/
theorem refused_page_stays_reserved :
    ∃ m', NoAssert.mallocPage spentMachine .kernel 1 = .ok (m', 0) ∧
      ¬ SameMemory spentMachine m' := by
  refine ⟨spentAfter, spentMachine_run, fun h => ?_⟩
  have hbit : bitmapScanTest spentAfter.kernelVaddr.vaddrBitmap 0
      = bitmapScanTest spentMachine.kernelVaddr.vaddrBitmap 0 := by
    rw [h.kernelVaddr]
  revert hbit
  decide

/-- `malloc_page_atomic_iff` for that request. -/
theorem malloc_page_atomic_iff_spent :
    (((0 : Word) = 0 → SameMemory spentMachine spentAfter) ∧
      NoZeroTable spentMachine spentAfter) ↔
      ∀ s, bitmapScanRest (vaddrBits spentMachine .kernel) 1 = some s →
        FramesFor spentMachine .kernel ((vaddrAt spentMachine .kernel s).toNat / 4096) 1 :=
  malloc_page_atomic_iff spentMachine_paged (fun hc => by cases hc) spentMachine_run

end ForikOS
