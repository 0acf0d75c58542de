import ForikOS.Theory.Exit

/-!
# The Frames an Exit Gives Back

The loops of `release_prog_resource` over the page directory and the page
tables of the process that exits. Each entry that is present names a frame, and
`free_a_phy_page` finds the pool the frame belongs to by its address and the
bit by the distance from the beginning of the pool.

Nothing but bits of the two pools changes on the way, so every entry is read as
it was when the loops began. The frames given back are those the process has in
its user half: the pages and the page tables (`OwnFrame`). `BitsCleared` says that
these and no other bits are cleared; it adds up over the entries of a table and
over the tables.

## Main definitions

* `InPool`: A frame one of the pools manages.
* `OwnFrame`: A frame of the user half of the active address space.
* `BitsCleared`: The bits of some frames are cleared.

## Theorems

* `freeAPhyPage_cleared`: One frame.
* `releasePtes_cleared`, `releasePdes_cleared`: The loops.
* `exit_frees_own_frames`: The bits of the process's own frames are cleared.
-/

namespace ForikOS

/-- The frames a pool manages. -/
def poolFrames (m : Machine) (pf : PoolFlags) : Nat := (m.pool pf).poolBitmap.btmpBytesLen * 8

/-- The first frame of a pool. -/
def poolBase (m : Machine) (pf : PoolFlags) : Nat := (m.pool pf).phyAddrStart.toNat / 4096

/-- One of the pools manages the frame. -/
def InPool (m : Machine) (f : Nat) : Prop := ∃ pf j, j < poolFrames m pf ∧ f = poolBase m pf + j

/-- A page table of the user half. -/
def OwnTable (m : Machine) (f : Nat) : Prop :=
  ∃ e, e < 768 ∧ isPresent (m.phys m.cr3 e) = true ∧ frameOf (m.phys m.cr3 e) = f

/-- A page or a page table of the user half. -/
def OwnFrame (m : Machine) (f : Nat) : Prop :=
  (∃ q, q < 0xc0000 ∧ frameAt m m.cr3 q = some f) ∨ OwnTable m f

/-- The bits of the frames in `S` are cleared, and no others. -/
def BitsCleared (m m' : Machine) (S : Nat → Prop) : Prop :=
  ∀ pf j, (bitmapScanTest (m'.pool pf).poolBitmap j = true ↔
    bitmapScanTest (m.pool pf).poolBitmap j = true ∧
      ¬ (j < poolFrames m pf ∧ S (poolBase m pf + j)))

/-- Only the bits of the pools have changed. -/
structure BitsOnly (m m' : Machine) : Prop where
  freed : PagesFreed m m'
  up_len : m'.userPool.poolBitmap.btmpBytesLen = m.userPool.poolBitmap.btmpBytesLen

section Pools

variable {m m' m'' : Machine} {S S' : Nat → Prop}

theorem BitsOnly.refl (m : Machine) : BitsOnly m m := ⟨PagesFreed.refl m, rfl⟩

theorem BitsOnly.trans (h : BitsOnly m m') (h' : BitsOnly m' m'') : BitsOnly m m'' :=
  ⟨h.freed.trans h'.freed, h'.up_len.trans h.up_len⟩

theorem BitsOnly.pool (h : BitsOnly m m') (pf : PoolFlags) :
    poolFrames m' pf = poolFrames m pf ∧ poolBase m' pf = poolBase m pf := by
  cases pf with
  | kernel =>
      refine ⟨?_, ?_⟩
      · show m'.kernelPool.poolBitmap.btmpBytesLen * 8 = _
        rw [h.freed.kp_len]
        rfl
      · show m'.kernelPool.phyAddrStart.toNat / 4096 = _
        rw [h.freed.kp_start]
        rfl
  | user =>
      refine ⟨?_, ?_⟩
      · show m'.userPool.poolBitmap.btmpBytesLen * 8 = _
        rw [h.up_len]
        rfl
      · show m'.userPool.phyAddrStart.toNat / 4096 = _
        rw [h.freed.up_start]
        rfl

theorem BitsOnly.inPool (h : BitsOnly m m') {f : Nat} (hf : InPool m f) : InPool m' f := by
  rcases hf with ⟨pf, j, hj, hf⟩
  have hpool := h.pool pf
  exact ⟨pf, j, by rw [hpool.1]; exact hj, by rw [hpool.2]; exact hf⟩

theorem BitsOnly.userLayout (h : BitsOnly m m') (hu : UserLayout m) : UserLayout m' := by
  refine ⟨?_, ?_⟩
  · rw [h.freed.up_start]
    exact hu.aligned
  · rw [h.freed.up_start, userFrames, h.up_len]
    exact hu.fits

theorem BitsOnly.selfMap (h : BitsOnly m m') (hs : SelfMap m) : SelfMap m' := by
  refine ⟨?_, ?_⟩
  · rw [h.freed.phys, h.freed.cr3]
    exact hs.present
  · rw [h.freed.phys, h.freed.cr3]
    exact hs.frame

theorem cleared_none (m : Machine) (hS : ∀ f, ¬ S f) : BitsCleared m m S := by
  intro pf j
  exact ⟨fun h => ⟨h, fun hc => hS _ hc.2⟩, fun h => h.1⟩

theorem BitsCleared.congr (h : BitsCleared m m' S) (hS : ∀ f, S f ↔ S' f) : BitsCleared m m' S' := by
  intro pf j
  rw [h pf j, hS]

theorem BitsCleared.trans (h : BitsCleared m m' S) (hb : BitsOnly m m') (h' : BitsCleared m' m'' S')
    {U : Nat → Prop} (hU : ∀ f, U f ↔ S f ∨ S' f) : BitsCleared m m'' U := by
  intro pf j
  have hpool := hb.pool pf
  rw [h' pf j, h pf j, hpool.1, hpool.2, hU]
  constructor
  · rintro ⟨⟨hset, hS⟩, hS'⟩
    refine ⟨hset, ?_⟩
    rintro ⟨hj, hor⟩
    exact hor.elim (fun hs => hS ⟨hj, hs⟩) (fun hs => hS' ⟨hj, hs⟩)
  · rintro ⟨hset, hno⟩
    exact ⟨⟨hset, fun hc => hno ⟨hc.1, Or.inl hc.2⟩⟩, fun hc => hno ⟨hc.1, Or.inr hc.2⟩⟩

/-- `pfree` on a frame of the user pool clears its bit. -/
theorem pfree_user (hu : UserLayout m) {j : Nat} (hj : j < userFrames m) :
    pfree m (userFrame m j)
      = m.setPool { m.userPool with
          poolBitmap := bitmapSet m.userPool.poolBitmap j false } .user := by
  have hnat := toNat_userFrame hu hj
  have halign := hu.aligned
  have hfit := hu.fits
  have hbase : userBase m = m.userPool.phyAddrStart.toNat / 4096 := rfl
  have hpage : userFrame m j = (m.pool .user).pageAt j := rfl
  have hword : (m.pool .user).phyAddrStart.toNat + j * 4096 < 2 ^ 32 := by
    show m.userPool.phyAddrStart.toNat + j * 4096 < 2 ^ 32
    omega
  have habove : m.userPool.phyAddrStart ≤ (m.pool .user).pageAt j := by
    rw [← hpage, BitVec.le_def, hnat]
    omega
  rw [hpage]
  exact pfree_pageAt hword (iff_of_true habove rfl)

/-- The frames of the kernel pool lie below those of the user pool. -/
theorem pools_apart (hl : PoolLayout m) {pf pf' : PoolFlags} {j j' : Nat}
    (hj : j < poolFrames m pf) (hj' : j' < poolFrames m pf')
    (h : poolBase m pf + j = poolBase m pf' + j') : pf = pf' ∧ j = j' := by
  have hkernel : poolBase m .kernel = 0x200 := by
    show m.kernelPool.phyAddrStart.toNat / 4096 = 0x200
    rw [hl.kp_start]
    rfl
  have huser : poolBase m .user = userBase m := rfl
  have hlt : ∀ {i : Nat}, i < poolFrames m .kernel → 0x200 + i < userBase m :=
    fun hi => kernel_lt_userBase hl hi
  cases pf with
  | kernel =>
      have hj := hlt hj
      cases pf' with
      | kernel => exact ⟨rfl, by omega⟩
      | user => omega
  | user =>
      cases pf' with
      | kernel =>
          have hj' := hlt hj'
          omega
      | user => exact ⟨rfl, by omega⟩

/-- The machine with one bit of a pool cleared. -/
def clearBit (m : Machine) (pf : PoolFlags) (j : Nat) : Machine :=
  m.setPool { m.pool pf with poolBitmap := bitmapSet (m.pool pf).poolBitmap j false } pf

theorem clearBit_bitsOnly (m : Machine) (pf : PoolFlags) (j : Nat) : BitsOnly m (clearBit m pf j) := by
  cases pf with
  | kernel => exact ⟨⟨rfl, rfl, rfl, rfl, rfl, rfl⟩, rfl⟩
  | user => exact ⟨⟨rfl, rfl, rfl, rfl, rfl, rfl⟩, rfl⟩

theorem clearBit_test (m : Machine) (pf pf' : PoolFlags) (j i : Nat) :
    bitmapScanTest ((clearBit m pf j).pool pf').poolBitmap i
      = if pf' = pf ∧ i = j then false else bitmapScanTest (m.pool pf').poolBitmap i := by
  by_cases hpf : pf' = pf
  · have hpool : ((clearBit m pf j).pool pf).poolBitmap = bitmapSet (m.pool pf).poolBitmap j false := by
      cases pf <;> rfl
    rw [hpf, hpool, bitmapScanTest_set]
    by_cases hi : i = j
    · rw [if_pos hi, if_pos ⟨rfl, hi⟩]
    · rw [if_neg hi, if_neg (fun hc => hi hc.2)]
  · have hpool : (clearBit m pf j).pool pf' = m.pool pf' := by
      cases pf <;> cases pf' <;> first | rfl | exact absurd rfl hpf
    rw [hpool, if_neg (fun hc => hpf hc.1)]

theorem clearBit_cleared (hl : PoolLayout m) {pf : PoolFlags} {j : Nat} (hj : j < poolFrames m pf) :
    BitsCleared m (clearBit m pf j) (fun f => f = poolBase m pf + j) := by
  intro pf' i
  rw [clearBit_test]
  by_cases hsame : pf' = pf ∧ i = j
  · rw [if_pos hsame, hsame.1, hsame.2]
    constructor
    · intro hc
      cases hc
    · rintro ⟨-, hno⟩
      exact absurd ⟨hj, rfl⟩ hno
  · rw [if_neg hsame]
    refine ⟨fun hset => ⟨hset, ?_⟩, fun hset => hset.1⟩
    rintro ⟨hi, hf⟩
    exact hsame (pools_apart hl hi hj hf)

/-- `free_a_phy_page` clears the bit of the frame of an entry. -/
theorem freeAPhyPage_cleared (hl : PoolLayout m) (hu : UserLayout m) {e : Word}
    (he : InPool m (frameOf e)) :
    BitsOnly m (freeAPhyPage m (e &&& 0xfffff000)) ∧
      BitsCleared m (freeAPhyPage m (e &&& 0xfffff000)) (fun f => f = frameOf e) := by
  rcases he with ⟨pf, j, hj, hf⟩
  have hnat : (e &&& 0xfffff000).toNat = frameOf e * 4096 := by
    rw [toNat_high, frameOf_eq]
    rfl
  -- The address tells the pool, and in either pool the bit is that of the frame.
  have hfree : freeAPhyPage m (e &&& 0xfffff000) = clearBit m pf j := by
    cases pf with
    | kernel =>
        have hbase : poolBase m .kernel = 0x200 := by
          show m.kernelPool.phyAddrStart.toNat / 4096 = 0x200
          rw [hl.kp_start]
          rfl
        have haddr : e &&& 0xfffff000 = kernelFrame j := by
          apply BitVec.eq_of_toNat_eq
          rw [hnat, hl.toNat_frame hj, hf, hbase]
          omega
        rw [freeAPhyPage, haddr, pfree_kernel hl hj]
        rfl
    | user =>
        have haddr : e &&& 0xfffff000 = userFrame m j := by
          apply BitVec.eq_of_toNat_eq
          rw [hnat, toNat_userFrame hu hj, hf]
          rfl
        rw [freeAPhyPage, haddr, pfree_user hu hj]
        rfl
  rw [hfree, hf]
  exact ⟨clearBit_bitsOnly m pf j, clearBit_cleared hl hj⟩

end Pools

section Loops

variable {m m' : Machine}

/-- The frames of `n` entries of page table `e` from entry `idx` on. -/
def EntryFrames (m : Machine) (e idx n f : Nat) : Prop :=
  ∃ i, idx ≤ i ∧ i < idx + n ∧ isPresent (m.phys (frameOf (m.phys m.cr3 e)) i) = true ∧
    frameOf (m.phys (frameOf (m.phys m.cr3 e)) i) = f

theorem releasePtes_cleared (n : Nat) {e idx : Nat} (hself : SelfMap m) (hl : PoolLayout m)
    (hu : UserLayout m) (he : e < 768) (hp : isPresent (m.phys m.cr3 e) = true)
    (hn : idx + n ≤ 1024) (hpool : ∀ f, EntryFrames m e idx n f → InPool m f) :
    ∃ m', releasePtes (ptePtr (BitVec.ofNat 32 e * 0x400000)) n idx m = .ok m' ∧
      BitsOnly m m' ∧ BitsCleared m m' (EntryFrames m e idx n) := by
  induction n generalizing m idx with
  | zero =>
      refine ⟨m, rfl, BitsOnly.refl m, cleared_none m ?_⟩
      rintro f ⟨i, h1, h2, -⟩
      omega
  | succ n ih =>
      obtain ⟨pte, hpte⟩ : ∃ pte, pte = m.phys (frameOf (m.phys m.cr3 e)) idx := ⟨_, rfl⟩
      have hload : load m (ptePtr (BitVec.ofNat 32 e * 0x400000) + BitVec.ofNat 32 idx * 4)
          = .ok pte := by
        have hpde : pdeIdx (BitVec.ofNat 32 ((e * 1024 + idx) * 4096)) = e := by
          rw [pdeIdx_eq, BitVec.toNat_ofNat]
          omega
        have hidx : pteIdx (BitVec.ofNat 32 ((e * 1024 + idx) * 4096)) = idx := by
          rw [pteIdx_eq, BitVec.toNat_ofNat]
          omega
        rw [ptePtr_add (by omega), load_ptePtr hself (by rw [hpde]; exact hp), hpde, hidx, hpte]
      -- The first entry.
      obtain ⟨m₁, hm₁, hbits, hcleared⟩ : ∃ m₁, m₁ = (if isPresent pte = true then
          freeAPhyPage m (pte &&& 0xfffff000) else m) ∧ BitsOnly m m₁ ∧
          BitsCleared m m₁ (fun f => isPresent pte = true ∧ f = frameOf pte) := by
        refine ⟨_, rfl, ?_⟩
        by_cases hpres : isPresent pte = true
        · have hone := freeAPhyPage_cleared hl hu (hpool (frameOf pte)
            ⟨idx, by omega, by omega, by rw [← hpte]; exact hpres, by rw [← hpte]⟩)
          rw [if_pos hpres]
          refine ⟨hone.1, hone.2.congr (fun f => ?_)⟩
          exact ⟨fun hc => ⟨hpres, hc⟩, fun hc => hc.2⟩
        · rw [if_neg hpres]
          exact ⟨BitsOnly.refl m, cleared_none m (fun f hc => hpres hc.1)⟩
      have hphys : m₁.phys = m.phys := hbits.freed.phys
      have hcr3 : m₁.cr3 = m.cr3 := hbits.freed.cr3
      have hsame : ∀ f, EntryFrames m₁ e (idx + 1) n f ↔ EntryFrames m e (idx + 1) n f := by
        intro f
        unfold EntryFrames
        rw [hphys, hcr3]
      -- Freeing changes bits and no memory, so the entries behind this one are
      -- the same.
      rcases ih (hbits.selfMap hself) (hbits.freed.layout hl) (hbits.userLayout hu)
        (by rw [hphys, hcr3]; exact hp) (show idx + 1 + n ≤ 1024 by omega) (fun f hf => by
          rcases (hsame f).mp hf with ⟨i, h1, h2, hentry⟩
          exact hbits.inPool (hpool f ⟨i, by omega, by omega, hentry⟩)) with
        ⟨m', hrun, hbits', hcleared'⟩
      refine ⟨m', ?_, hbits.trans hbits', hcleared.trans hbits hcleared' (fun f => ?_)⟩
      · rw [releasePtes, hload, ok_bind]
        dsimp only
        rw [← hm₁]
        exact hrun
      · rw [hsame]
        constructor
        · rintro ⟨i, h1, h2, hpres, hf⟩
          by_cases hi : i = idx
          · rw [hi, ← hpte] at hpres hf
            exact Or.inl ⟨hpres, hf.symm⟩
          · exact Or.inr ⟨i, by omega, by omega, hpres, hf⟩
        · rintro (⟨hpres, hf⟩ | ⟨i, h1, h2, hentry⟩)
          · rw [hpte] at hpres hf
            exact ⟨idx, by omega, by omega, hpres, hf.symm⟩
          · exact ⟨i, by omega, by omega, hentry⟩

/-- The frames of `n` page tables from entry `idx` of the directory on, and of
    the pages in them. -/
def TableFrames (m : Machine) (idx n f : Nat) : Prop :=
  ∃ e, idx ≤ e ∧ e < idx + n ∧ isPresent (m.phys m.cr3 e) = true ∧
    (EntryFrames m e 0 1024 f ∨ f = frameOf (m.phys m.cr3 e))

/-- One round of the outer loop. -/
theorem releaseTable_cleared {e : Nat} {pde : Word} (hpde : pde = m.phys m.cr3 e)
    (hself : SelfMap m) (hl : PoolLayout m) (hu : UserLayout m) (he : e < 768)
    (hpool : ∀ f, TableFrames m e 1 f → InPool m f) :
    ∃ m', (if isPresent pde = true then do
        let m ← releasePtes (ptePtr (BitVec.ofNat 32 e * 0x400000)) 1024 0 m
        .ok (freeAPhyPage m (pde &&& 0xfffff000))
      else .ok m : Except Func Machine) = .ok m' ∧
      BitsOnly m m' ∧ BitsCleared m m' (TableFrames m e 1) := by
  by_cases hpres : isPresent pde = true
  · have hp : isPresent (m.phys m.cr3 e) = true := by
      rw [← hpde]
      exact hpres
    have hin : ∀ f, (EntryFrames m e 0 1024 f ∨ f = frameOf pde) → InPool m f := by
      intro f hf
      rw [hpde] at hf
      exact hpool f ⟨e, by omega, by omega, hp, hf⟩
    rcases releasePtes_cleared 1024 hself hl hu he hp (show 0 + 1024 ≤ 1024 by omega)
      (fun f hf => hin f (Or.inl hf)) with ⟨m₁, hrun, hbits, hcleared⟩
    -- The table itself comes after its pages.
    have htable := freeAPhyPage_cleared (hbits.freed.layout hl) (hbits.userLayout hu)
      (hbits.inPool (hin (frameOf pde) (Or.inr rfl)))
    rw [if_pos hpres, hrun, ok_bind]
    refine ⟨_, rfl, hbits.trans htable.1, hcleared.trans hbits htable.2 (fun f => ?_)⟩
    constructor
    · rintro ⟨e', h1, h2, -, hor⟩
      rw [show e' = e by omega, ← hpde] at hor
      exact hor
    · intro hor
      rw [hpde] at hor
      exact ⟨e, by omega, by omega, hp, hor⟩
  · rw [if_neg hpres]
    refine ⟨m, rfl, BitsOnly.refl m, cleared_none m ?_⟩
    rintro f ⟨e', h1, h2, hp, -⟩
    rw [show e' = e by omega, ← hpde] at hp
    exact hpres hp

theorem releasePdes_cleared (n : Nat) {da idx : Nat} (hk : KernelHalf m) (hl : PoolLayout m)
    (hu : UserLayout m) (hda : da < 32768) (hp : isPresent (kernelPte m da) = true)
    (hdir : frameOf (kernelPte m da) = m.cr3) (hn : idx + n ≤ 768)
    (hpool : ∀ f, TableFrames m idx n f → InPool m f) :
    ∃ m', releasePdes (pageAddr da) n idx m = .ok m' ∧ BitsOnly m m' ∧
      BitsCleared m m' (TableFrames m idx n) := by
  induction n generalizing m idx with
  | zero =>
      refine ⟨m, rfl, BitsOnly.refl m, cleared_none m ?_⟩
      rintro f ⟨e, h1, h2, -⟩
      omega
  | succ n ih =>
      have hload := load_dirPage hk hda hp (show idx < 1024 by omega)
      rw [hdir] at hload
      rcases releaseTable_cleared (m := m) rfl hk.self hl hu (show idx < 768 by omega) (fun f hf => by
        rcases hf with ⟨e, h1, h2, htable⟩
        exact hpool f ⟨e, by omega, by omega, htable⟩) with ⟨m₁, hround, hbits, hcleared⟩
      have hphys : m₁.phys = m.phys := hbits.freed.phys
      have hcr3 : m₁.cr3 = m.cr3 := hbits.freed.cr3
      have hpte : kernelPte m₁ da = kernelPte m da := by
        rw [kernelPte, hphys]
        rfl
      have hsame : ∀ f, TableFrames m₁ (idx + 1) n f ↔ TableFrames m (idx + 1) n f := by
        intro f
        unfold TableFrames EntryFrames
        rw [hphys, hcr3]
      -- A page table that is freed is still what it was, and so is the directory.
      rcases ih (hbits.freed.kernelHalf hk) (hbits.freed.layout hl) (hbits.userLayout hu)
        (by rw [hpte]; exact hp) (by rw [hpte, hcr3]; exact hdir) (show idx + 1 + n ≤ 768 by omega)
        (fun f hf => by
          rcases (hsame f).mp hf with ⟨e, h1, h2, htable⟩
          exact hbits.inPool (hpool f ⟨e, by omega, by omega, htable⟩)) with
        ⟨m', hrun, hbits', hcleared'⟩
      refine ⟨m', ?_, hbits.trans hbits', hcleared.trans hbits hcleared' (fun f => ?_)⟩
      · rw [releasePdes, hload, ok_bind]
        dsimp only
        by_cases hpres : isPresent (m.phys m.cr3 idx) = true
        · rw [if_pos hpres] at hround ⊢
          rcases bind_eq_ok.mp hround with ⟨m₀, hptes, hround⟩
          rw [Except.ok.injEq] at hround
          rw [hptes, ok_bind, ok_bind, hround]
          exact hrun
        · rw [if_neg hpres, Except.ok.injEq] at hround
          rw [if_neg hpres, ok_bind, hround]
          exact hrun
      · rw [hsame]
        constructor
        · rintro ⟨e, h1, h2, htable⟩
          by_cases he : e = idx
          · exact Or.inl ⟨e, by omega, by omega, htable⟩
          · exact Or.inr ⟨e, by omega, by omega, htable⟩
        · rintro (⟨e, h1, h2, htable⟩ | ⟨e, h1, h2, htable⟩)
          · exact ⟨e, by omega, by omega, htable⟩
          · exact ⟨e, by omega, by omega, htable⟩

/-- What the loops go over is the user half of the directory. -/
theorem tableFrames_iff (m : Machine) (f : Nat) : TableFrames m 0 768 f ↔ OwnFrame m f := by
  constructor
  · rintro ⟨e, -, he, hp, ⟨i, -, hi, hpte, hf⟩ | hf⟩
    · refine Or.inl ⟨e * 1024 + i, by omega, ?_⟩
      rw [frameAt, show (e * 1024 + i) / 1024 = e by omega, show (e * 1024 + i) % 1024 = i by omega,
        if_pos hp, if_pos hpte, hf]
    · exact Or.inr ⟨e, by omega, hp, hf.symm⟩
  · rintro (⟨q, hq, hf⟩ | ⟨e, he, hp, hf⟩)
    · unfold frameAt at hf
      by_cases hp : isPresent (m.phys m.cr3 (q / 1024)) = true
      · rw [if_pos hp] at hf
        by_cases hpte : isPresent (m.phys (frameOf (m.phys m.cr3 (q / 1024))) (q % 1024)) = true
        · rw [if_pos hpte, Option.some.injEq] at hf
          exact ⟨q / 1024, by omega, by omega, hp, Or.inl ⟨q % 1024, by omega, by omega, hpte, hf⟩⟩
        · rw [if_neg hpte] at hf
          cases hf
      · rw [if_neg hp] at hf
        cases hf
    · exact ⟨e, by omega, by omega, hp, Or.inr hf.symm⟩

end Loops

/-- The loops run through, and clear the bits of the pages and page tables of
    the process and no others. -/
theorem exit_frees_own_frames {m : Machine} {da : Nat} (hk : KernelHalf m) (hl : PoolLayout m)
    (hu : UserLayout m) (hdir : DirPage m da) (hpool : ∀ f, OwnFrame m f → InPool m f) :
    ∃ m', releasePdes (pageAddr da) 768 0 m = .ok m' ∧ ∀ pf j,
      (j < poolFrames m pf → OwnFrame m (poolBase m pf + j) →
        bitmapScanTest (m'.pool pf).poolBitmap j = false) ∧
      (¬ (j < poolFrames m pf ∧ OwnFrame m (poolBase m pf + j)) →
        bitmapScanTest (m'.pool pf).poolBitmap j = bitmapScanTest (m.pool pf).poolBitmap j) := by
  have hle := hl.pages_le
  have hda := hdir.1
  rcases releasePdes_cleared 768 hk hl hu (by omega) hdir.2.1 hdir.2.2 (by omega)
    (fun f hf => hpool f ((tableFrames_iff m f).mp hf)) with ⟨m', hrun, -, hcleared⟩
  refine ⟨m', hrun, fun pf j => ⟨fun hj hown => ?_, fun hno => ?_⟩⟩
  · rw [← Bool.not_eq_true, hcleared pf j]
    rintro ⟨-, hc⟩
    exact hc ⟨hj, (tableFrames_iff m _).mpr hown⟩
  · rw [Bool.eq_iff_iff, hcleared pf j]
    refine ⟨fun h => h.1, fun h => ⟨h, fun hc => hno ⟨hc.1, (tableFrames_iff m _).mp hc.2⟩⟩⟩

/-- `exit_frees_own_frames` for a process that maps its stack page: the frame of
    the page and that of its table are free, and the directory is not. -/
theorem exit_frees_own_frames_stack : ∃ m', releasePdes (pageAddr 24) 768 0 stackMachine = .ok m' ∧
    bitmapScanTest m'.userPool.poolBitmap 0 = false ∧
    bitmapScanTest m'.kernelPool.poolBitmap 25 = false ∧
    bitmapScanTest m'.kernelPool.poolBitmap 24 = true := by
  have hpool : ∀ {f}, OwnFrame stackMachine f ↔ f = 0x1100 ∨ f = 0x219 := by
    intro f
    constructor
    · rintro (⟨q, hq, hf⟩ | ⟨e, he, hp, hf⟩)
      · rw [stackMachine_frameAt hq] at hf
        by_cases h : q = 0xbffff
        · rw [if_pos h, Option.some.injEq] at hf
          exact Or.inl hf.symm
        · rw [if_neg h] at hf
          cases hf
      · rw [(stackMachine_table he hp).2] at hf
        exact Or.inr hf.symm
    · rintro (rfl | rfl)
      · exact Or.inl ⟨0xbffff, by omega, by rw [stackMachine_frameAt (by omega), if_pos rfl]⟩
      · exact Or.inr ⟨767, by omega, by decide, by decide⟩
  have hkernel : poolFrames stackMachine .kernel = 3840 := stackMachine_frames
  have huser : poolFrames stackMachine .user = 3840 := by
    show (firstBits 1).btmpBytesLen * 8 = 3840
    rw [firstBits_len]
  rcases exit_frees_own_frames stackMachine_map.half stackMachine_map.layout
    stackMachine_forkable.layout stackMachine_dirPage (fun f hf => by
      rcases hpool.mp hf with rfl | rfl
      · exact ⟨.user, 0, by omega, by decide⟩
      · exact ⟨.kernel, 25, by omega, by decide⟩) with ⟨m', hrun, hbits⟩
  refine ⟨m', hrun, (hbits .user 0).1 (by omega) (hpool.mpr (Or.inl (by decide))),
    (hbits .kernel 25).1 (by omega) (hpool.mpr (Or.inr (by decide))), ?_⟩
  refine ((hbits .kernel 24).2 ?_).trans (firstBits_test 26 24)
  rintro ⟨-, hown⟩
  have hbase : poolBase stackMachine .kernel = 0x200 := by decide
  rcases hpool.mp hown with hf | hf
  · omega
  · omega

end ForikOS
