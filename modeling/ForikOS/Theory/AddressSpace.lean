import ForikOS.Core.Fork
import ForikOS.Theory.PageAlloc

/-!
# Building an Address Space

What `sys_fork` does to memory before and while it copies pages, one function
at a time: pages for the kernel, the copy of whole pages, a new page
directory, and one more user page in the active directory.

Everything that is written is either a kernel page table or a frame that was
free when the call began. `InUse` names the other frames, and `Grew` says that
they keep their contents and stay in use. The relation composes, so nothing
has to be said about the parent's tables, pages and bitmap until the end,
where they are all in use.

The page directory, the page tables and the pages of a process come from two
pools that do not overlap, and no two of them share a frame because each was
free when it was taken.

## Main definitions

* `FrameFree`, `InUse`: Frames a pool can hand out, and frames that hold
  something outside the kernel's page tables.
* `Grew`: Frames in use keep their contents.
* `GotPages`: What `get_kernel_pages` has done.
* `frameAt`: The frame a page is mapped to in a given directory.
* `procBitmap`: The bitmap of user addresses of a process.
* `Mapped`: What `page_table_add` has done for a user page.

## Theorems

* `getKernelPages_fits`: A request that fits is granted, with cleared pages.
* `memcpyPages_kernel`: A copy between kernel pages.
* `createPageDir_fits`: A new directory has the kernel half and no user page.
* `pageTableAdd_old`, `pageTableAdd_new`: One more user page, in a table that
  is there or in a new one.
-/

namespace ForikOS

/-- The frames of the user pool. -/
def userFrames (m : Machine) : Nat := m.userPool.poolBitmap.btmpBytesLen * 8

/-- The first frame of the user pool. -/
def userBase (m : Machine) : Nat := m.userPool.phyAddrStart.toNat / 4096

/-- A frame of the kernel pool that is not taken. -/
def KernelFree (m : Machine) (f : Nat) : Prop :=
  ∃ j, j < kernelFrames m ∧ f = 0x200 + j ∧ bitmapScanTest m.kernelPool.poolBitmap j = false

/-- A frame of the user pool that is not taken. -/
def UserFree (m : Machine) (f : Nat) : Prop :=
  ∃ j, j < userFrames m ∧ f = userBase m + j ∧ bitmapScanTest m.userPool.poolBitmap j = false

/-- A frame one of the pools can hand out. -/
def FrameFree (m : Machine) (f : Nat) : Prop := KernelFree m f ∨ UserFree m f

/-- A frame outside the kernel's page tables that no pool can hand out. -/
def InUse (m : Machine) (f : Nat) : Prop := (f < 0x101 ∨ 0x200 ≤ f) ∧ ¬ FrameFree m f

/-- The user pool starts on a page and ends in memory. -/
structure UserLayout (m : Machine) : Prop where
  aligned : m.userPool.phyAddrStart.toNat % 4096 = 0
  fits : m.userPool.phyAddrStart.toNat + userFrames m * 4096 ≤ 2 ^ 32

/-- Nothing is freed, and frames in use keep their contents. -/
structure Grew (m m' : Machine) : Prop where
  kp_len : m'.kernelPool.poolBitmap.btmpBytesLen = m.kernelPool.poolBitmap.btmpBytesLen
  up_start : m'.userPool.phyAddrStart = m.userPool.phyAddrStart
  up_len : m'.userPool.poolBitmap.btmpBytesLen = m.userPool.poolBitmap.btmpBytesLen
  kernel : ∀ j, bitmapScanTest m.kernelPool.poolBitmap j = true →
    bitmapScanTest m'.kernelPool.poolBitmap j = true
  user : ∀ j, bitmapScanTest m.userPool.poolBitmap j = true →
    bitmapScanTest m'.userPool.poolBitmap j = true
  phys : ∀ f, InUse m f → m'.phys f = m.phys f

namespace Grew

variable {m m' m'' : Machine}

theorem refl (m : Machine) : Grew m m :=
  ⟨rfl, rfl, rfl, fun _ h => h, fun _ h => h, fun _ _ => rfl⟩

theorem kernelFree (h : Grew m m') {f : Nat} (hf : KernelFree m' f) : KernelFree m f := by
  rcases hf with ⟨j, hj, hfj, hclear⟩
  refine ⟨j, ?_, hfj, ?_⟩
  · unfold kernelFrames at hj ⊢
    rw [h.kp_len] at hj
    exact hj
  · by_contra hc
    rw [h.kernel j (Bool.not_eq_false _ ▸ hc)] at hclear
    cases hclear

theorem userFree (h : Grew m m') {f : Nat} (hf : UserFree m' f) : UserFree m f := by
  rcases hf with ⟨j, hj, hfj, hclear⟩
  refine ⟨j, ?_, ?_, ?_⟩
  · unfold userFrames at hj ⊢
    rw [h.up_len] at hj
    exact hj
  · rw [hfj, userBase, h.up_start, userBase]
  · by_contra hc
    rw [h.user j (Bool.not_eq_false _ ▸ hc)] at hclear
    cases hclear

theorem frameFree (h : Grew m m') {f : Nat} (hf : FrameFree m' f) : FrameFree m f :=
  hf.imp h.kernelFree h.userFree

theorem inUse (h : Grew m m') {f : Nat} (hf : InUse m f) : InUse m' f :=
  ⟨hf.1, fun hc => hf.2 (h.frameFree hc)⟩

theorem trans (h : Grew m m') (h' : Grew m' m'') : Grew m m'' :=
  ⟨h'.kp_len.trans h.kp_len, h'.up_start.trans h.up_start, h'.up_len.trans h.up_len,
    fun j hj => h'.kernel j (h.kernel j hj), fun j hj => h'.user j (h.user j hj),
    fun f hf => (h'.phys f (h.inUse hf)).trans (h.phys f hf)⟩

end Grew

/-- A frame the kernel pool has handed out. -/
theorem inUse_of_kernel {m : Machine} (hl : PoolLayout m) {j : Nat} (hj : j < kernelFrames m)
    (hset : bitmapScanTest m.kernelPool.poolBitmap j = true) : InUse m (0x200 + j) := by
  refine ⟨Or.inr (by omega), ?_⟩
  rintro (⟨k, _, hk, hclear⟩ | ⟨k, _, hk, _⟩)
  · have hjk : k = j := by omega
    rw [hjk, hset] at hclear
    cases hclear
  · have hlt := hl.frame_lt hj
    unfold userBase at hk
    omega

/-- The frame of a page of the kernel heap is in use. -/
theorem KernelMap.inUse {m : Machine} (h : KernelMap m) {i : Nat} (hi : i < kernelPages m)
    (hp : isPresent (kernelPte m i) = true) : InUse m (frameOf (kernelPte m i)) := by
  rcases h.mapped i hi hp with ⟨j, hj, hfr, hset⟩
  rw [hfr]
  exact inUse_of_kernel h.layout hj hset

theorem FrameFree.ge {m : Machine} (hl : PoolLayout m) {f : Nat} (h : FrameFree m f) :
    0x200 ≤ f := by
  rcases h with ⟨j, _, hf, _⟩ | ⟨j, _, hf, _⟩
  · omega
  · have hend := hl.kp_end
    unfold userBase at hf
    omega

/-- What the invariant of the kernel heap depends on. -/
theorem KernelMap.congr {m m' : Machine} (h : KernelMap m) (hhalf : KernelHalf m')
    (hvaddr : m'.kernelVaddr = m.kernelVaddr)
    (hstart : m'.kernelPool.phyAddrStart = m.kernelPool.phyAddrStart)
    (hlen : m'.kernelPool.poolBitmap.btmpBytesLen = m.kernelPool.poolBitmap.btmpBytesLen)
    (hbits : ∀ j, bitmapScanTest m.kernelPool.poolBitmap j = true →
      bitmapScanTest m'.kernelPool.poolBitmap j = true)
    (hup : m'.userPool.phyAddrStart = m.userPool.phyAddrStart)
    (htables : ∀ f, 0x101 ≤ f → f < 0x200 → m'.phys f = m.phys f) : KernelMap m' := by
  have hpages : kernelPages m' = kernelPages m := by rw [kernelPages, hvaddr, kernelPages]
  have hframes : kernelFrames m' = kernelFrames m := by rw [kernelFrames, hlen, kernelFrames]
  have hle := h.layout.pages_le
  -- The tables of the kernel half are untouched, so every kernel page is mapped as before.
  have hpte : ∀ i, i < kernelPages m → kernelPte m' i = kernelPte m i :=
    fun i hi => kernelPte_congr htables (by omega)
  refine ⟨hhalf, ⟨hstart.trans h.layout.kp_start, ?_, ?_, ?_⟩, ?_, ?_, ?_⟩
  · rw [hlen, hup]
    exact h.layout.kp_end
  · rw [hvaddr]
    exact h.layout.vaddr_start
  · rw [hvaddr]
    exact h.layout.vaddr_len
  · intro i hi
    rw [hpages] at hi
    rw [hvaddr, hpte i hi]
    exact h.agree i hi
  · intro i hi hp
    rw [hpages] at hi
    rw [hpte i hi] at hp ⊢
    rcases h.mapped i hi hp with ⟨j, hj, hfr, hset⟩
    exact ⟨j, by rw [hframes]; exact hj, hfr, hbits j hset⟩
  · intro i k hi hk hpi hpk heq
    rw [hpages] at hi hk
    rw [hpte i hi] at hpi heq
    rw [hpte k hk] at hpk heq
    exact h.inj i k hi hk hpi hpk heq

@[simp] theorem setFrame_phys_self (m : Machine) (f : Nat) (page : Nat → Word) :
    (m.setFrame f page).phys f = page :=
  Function.update_self _ _ _

theorem setFrame_phys_of_ne {m : Machine} {f g : Nat} (page : Nat → Word) (h : g ≠ f) :
    (m.setFrame f page).phys g = m.phys g :=
  Function.update_of_ne h _ _

theorem setWord_frame_of_ne {m : Machine} {f i g : Nat} (w : Word) (h : g ≠ f) :
    (m.setWord f i w).phys g = m.phys g :=
  Function.update_of_ne h _ _

/-- Writing a frame that is neither a kernel page table nor the directory
    leaves the kernel half alone. -/
theorem KernelHalf.setFrame {m : Machine} (h : KernelHalf m) {f : Nat} (page : Nat → Word)
    (hne : f ≠ m.cr3) : KernelHalf (m.setFrame f page) := by
  refine h.ofDir rfl (fun e _ => ?_)
  rw [setFrame_phys_of_ne page (Ne.symm hne)]

theorem KernelMap.setFrame {m : Machine} (h : KernelMap m) {f : Nat} (page : Nat → Word)
    (hge : 0x200 ≤ f) (hne : f ≠ m.cr3) : KernelMap (m.setFrame f page) :=
  h.congr (h.half.setFrame page hne) rfl rfl rfl (fun _ hj => hj) rfl
    (fun g _ hg => setFrame_phys_of_ne page (by omega))

/-- The entry for a page of the kernel heap is untouched by a write to a frame
    that is not a kernel page table. -/
theorem kernelPte_setFrame {m : Machine} {f i : Nat} (page : Nat → Word) (hge : 0x200 ≤ f)
    (hi : i ≤ 32768) : kernelPte (m.setFrame f page) i = kernelPte m i :=
  kernelPte_congr (fun g _ hg => setFrame_phys_of_ne page (by omega)) hi

theorem walk_kernel {m : Machine} (h : KernelMap m) {i : Nat} (hi : i < kernelPages m)
    (hp : isPresent (kernelPte m i) = true) :
    walk m (pageAddr i) = some (frameOf (kernelPte m i)) := by
  have hle := h.layout.pages_le
  rw [walk_pageAddr h.half (by omega), hp, if_pos rfl]

/-- The directory of the active address space, when it is a page of the kernel
    heap, is not the frame of another page. -/
def DirPage (m : Machine) (a : Nat) : Prop :=
  a < kernelPages m ∧ isPresent (kernelPte m a) = true ∧ frameOf (kernelPte m a) = m.cr3

theorem DirPage.ne {m : Machine} (h : KernelMap m) {a i : Nat} (ha : DirPage m a)
    (hi : i < kernelPages m) (hp : isPresent (kernelPte m i) = true) (hne : i ≠ a) :
    frameOf (kernelPte m i) ≠ m.cr3 := by
  intro hc
  exact hne (h.inj i a hi ha.1 hp ha.2.1 (hc.trans ha.2.2.symm))

/-- Only the contents of memory differ. -/
def SameButPhys (m m' : Machine) : Prop := m' = { m with phys := m'.phys }

theorem SameButPhys.trans {m m' m'' : Machine} (h : SameButPhys m m') (h' : SameButPhys m' m'') :
    SameButPhys m m'' := by
  unfold SameButPhys at *
  rw [h', h]

theorem SameButPhys.fields {m m' : Machine} (h : SameButPhys m m') :
    m'.kernelPool = m.kernelPool ∧ m'.kernelVaddr = m.kernelVaddr ∧ m'.cr3 = m.cr3 ∧
      m'.userPool = m.userPool := by
  unfold SameButPhys at h
  rw [h]
  exact ⟨rfl, rfl, rfl, rfl⟩

/-- Writes to frames behind the kernel's page tables, other than the
    directory, leave the kernel heap as it is. -/
theorem KernelMap.write {m m' : Machine} (h : KernelMap m) (hs : SameButPhys m m')
    (hdir : m'.phys m.cr3 = m.phys m.cr3)
    (htab : ∀ f, 0x101 ≤ f → f < 0x200 → m'.phys f = m.phys f) : KernelMap m' := by
  unfold SameButPhys at hs
  have hcr3 : m'.cr3 = m.cr3 := by rw [hs]
  exact h.congr (h.half.ofDir hcr3 (fun e _ => by rw [hdir])) (by rw [hs]) (by rw [hs]) (by rw [hs])
    (by rw [hs]; exact fun _ hj => hj) (by rw [hs]) htab

/-- Clearing pages of the kernel heap clears their frames and no others. -/
theorem clearPages_kernel (n : Nat) {m : Machine} (h : KernelMap m) {s : Nat}
    (hle : s + n ≤ kernelPages m)
    (hp : ∀ i, s ≤ i → i < s + n → isPresent (kernelPte m i) = true)
    (hdir : ∀ i, s ≤ i → i < s + n → frameOf (kernelPte m i) ≠ m.cr3) :
    ∃ m', clearPages n m (pageAddr s) = .ok m' ∧ SameButPhys m m' ∧
      (∀ i, s ≤ i → i < s + n → m'.phys (frameOf (kernelPte m i)) = fun _ => 0) ∧
      ∀ f, (∀ i, s ≤ i → i < s + n → f ≠ frameOf (kernelPte m i)) → m'.phys f = m.phys f := by
  have hpages := h.layout.pages_le
  -- The induction is on the number of pages, with the frames of the others fixed.
  induction n generalizing m s with
  | zero =>
      exact ⟨m, rfl, rfl, fun i h1 h2 => absurd h2 (by omega), fun _ _ => rfl⟩
  | succ n ih =>
      have hps := hp s (by omega) (by omega)
      rcases h.mapped s (by omega) hps with ⟨j, _, hfj, _⟩
      obtain ⟨m₁, hm₁⟩ : ∃ m₁, m₁ = m.setFrame (frameOf (kernelPte m s)) (fun _ => 0) := ⟨_, rfl⟩
      have hstep : clearPage m (pageAddr s) = .ok m₁ := by
        rw [clearPage, walk_kernel h (by omega) hps, hm₁]
      have h₁ : KernelMap m₁ := by
        rw [hm₁]
        exact h.setFrame _ (by omega) (hdir s (by omega) (by omega))
      have hpte : ∀ i, i ≤ 32768 → kernelPte m₁ i = kernelPte m i := by
        intro i hi
        rw [hm₁]
        exact kernelPte_setFrame _ (by omega) hi
      have hlen : kernelPages m₁ = kernelPages m := by
        rw [hm₁]
        rfl
      have hcr3 : m₁.cr3 = m.cr3 := by
        rw [hm₁]
        rfl
      rcases ih (m := m₁) (s := s + 1) h₁ (by omega) (by
          intro i h1 h2
          rw [hpte i (by omega)]
          exact hp i (by omega) (by omega)) (by
          intro i h1 h2
          rw [hpte i (by omega), hcr3]
          exact hdir i (by omega) (by omega)) (by omega) with ⟨m', hrun, hsame, hclear, hother⟩
      have hsame₁ : SameButPhys m m₁ := by
        rw [hm₁]
        rfl
      refine ⟨m', ?_, hsame₁.trans hsame, ?_, ?_⟩
      · rw [clearPages, hstep, ok_bind, pageAddr_succ (by omega)]
        exact hrun
      · intro i h1 h2
        by_cases his : i = s
        · -- No later page has the frame of the first one.
          rw [his, hother _ (by
            intro k hk1 hk2 hc
            rw [hpte k (by omega)] at hc
            have hks := h.inj s k (by omega) (by omega) hps (hp k (by omega) (by omega)) hc
            omega), hm₁, setFrame_phys_self]
        · rw [← hpte i (by omega)]
          exact hclear i (by omega) (by omega)
      · intro f hf
        rw [hother f (by
          intro i h1 h2
          rw [hpte i (by omega)]
          exact hf i (by omega) (by omega)), hm₁,
          setFrame_phys_of_ne _ (hf s (by omega) (by omega))]

/-- What `get_kernel_pages` has done: pages `s` to `s + n` are mapped to frames
    that were free, and are clear. -/
structure GotPages (m m' : Machine) (s n : Nat) : Prop where
  map : KernelMap m'
  grew : Grew m m'
  cr3 : m'.cr3 = m.cr3
  cur : m'.cur = m.cur
  userPool : m'.userPool = m.userPool
  vaddr : m'.kernelVaddr.vaddrBitmap = bitmapSetRange m.kernelVaddr.vaddrBitmap s true n
  pages : kernelPages m' = kernelPages m
  run : FreeRun m.kernelVaddr.vaddrBitmap n s
  page : ∀ i, s ≤ i → i < s + n → isPresent (kernelPte m' i) = true ∧
    KernelFree m (frameOf (kernelPte m' i)) ∧ ∀ w, m'.phys (frameOf (kernelPte m' i)) w = 0
  other : ∀ i, ¬ (s ≤ i ∧ i < s + n) → i ≤ 32768 → kernelPte m' i = kernelPte m i
  count : freeCount m'.kernelPool.poolBitmap + n = freeCount m.kernelPool.poolBitmap

/-- A request that fits is granted, with cleared pages. -/
theorem getKernelPages_fits {m : Machine} (h : KernelMap m) {n a : Nat} (hn : 0 < n ∧ n < 3840)
    (hfit : Fits m n) (hdir : DirPage m a) :
    ∃ m' s, getKernelPages m n = .ok (m', pageAddr s) ∧ GotPages m m' s n ∧
      ∀ s', FreeRun m.kernelVaddr.vaddrBitmap n s' → s ≤ s' := by
  rcases mallocPage_fits h hn hfit with ⟨m₁, s, fr, hmalloc, hrun, hg, hfirst⟩
  have hpages := h.layout.pages_le
  have hlen : s + n ≤ kernelPages m := hrun.1
  have hf₀ : KernelFrame m (reserve m s n) :=
    kernelFrame_setVaddrBitmap m _ (bitmapSetRange_len _ _ _ _)
  have hf : KernelFrame m m₁ := hf₀.trans hg.frame
  have h₁ : KernelMap m₁ := h.grant hg
  have hframe : ∀ i, s ≤ i → i < s + n → fr i < kernelFrames m ∧
      isPresent (kernelPte m₁ i) = true ∧ frameOf (kernelPte m₁ i) = 0x200 + fr i := by
    intro i h1 h2
    have hp := hg.page i h1 h2
    rw [hf₀.frames] at hp
    have hnat := h.layout.toNat_frame hp.1
    rw [hp.2.1]
    refine ⟨hp.1, isPresent_entryFor (by omega), ?_⟩
    rw [frameOf_entryFor (by omega), hnat]
    omega
  have hfree : ∀ i, s ≤ i → i < s + n → KernelFree m (frameOf (kernelPte m₁ i)) := by
    intro i h1 h2
    have hi := hframe i h1 h2
    exact ⟨fr i, hi.1, hi.2.2, (hg.page i h1 h2).2.2⟩
  -- A frame that is in use is none of the granted ones, so clearing spares it.
  have hold : ∀ f, InUse m f → ∀ i, s ≤ i → i < s + n → f ≠ frameOf (kernelPte m₁ i) := by
    intro f hf i h1 h2 hc
    exact hf.2 (Or.inl (hc ▸ hfree i h1 h2))
  have hdir₁ : ∀ i, s ≤ i → i < s + n → frameOf (kernelPte m₁ i) ≠ m₁.cr3 := by
    intro i h1 h2
    rw [hf.cr3, ← hdir.2.2]
    exact Ne.symm (hold _ (h.inUse hdir.1 hdir.2.1) i h1 h2)
  rcases clearPages_kernel n h₁ (by rw [hf.pages]; exact hlen) (fun i h1 h2 => (hframe i h1 h2).2.1)
    hdir₁ with ⟨m₂, hclear, hsame, hzero, hother⟩
  -- The page tables lie below the frames that are cleared.
  have hpte : ∀ i, i ≤ 32768 → kernelPte m₂ i = kernelPte m₁ i := by
    intro i hi
    refine kernelPte_congr (fun f _ hf => hother f (fun k h1 h2 => ?_)) hi
    rw [(hframe k h1 h2).2.2]
    omega
  have hgrew : Grew m m₂ := by
    unfold SameButPhys at hsame
    refine ⟨by rw [hsame]; exact hf.kp_len, by rw [hsame, ← hf.userPool], by rw [hsame, ← hf.userPool],
      ?_, ?_, ?_⟩
    · intro j hj
      rw [hsame]
      exact (hg.bits j).mpr (Or.inl hj)
    · intro j hj
      rw [hsame]
      show bitmapScanTest m₁.userPool.poolBitmap j = true
      rw [hf.userPool]
      exact hj
    · intro f hfu
      rw [hother f (hold f hfu)]
      exact hf.phys f hfu.1
  have h₂ : KernelMap m₂ := by
    have hdirf : m₂.phys m₁.cr3 = m₁.phys m₁.cr3 :=
      hother _ (fun i h1 h2 => Ne.symm (hdir₁ i h1 h2))
    refine h₁.write hsame hdirf (fun f _ hlt => hother f (fun i h1 h2 => ?_))
    rw [(hframe i h1 h2).2.2]
    omega
  refine ⟨m₂, s, ?_, ⟨h₂, hgrew, ?_, ?_, ?_, ?_, ?_, hrun, ?_, ?_, ?_⟩, hfirst⟩
  · rw [getKernelPages, hmalloc, ok_bind]
    dsimp only
    rw [if_neg (pageAddr_ne_zero (by omega)), hclear, ok_bind]
  · rw [hsame]
    exact hf.cr3
  · rw [hsame]
    exact hf.cur
  · rw [hsame]
    exact hf.userPool
  · rw [hsame]
    show m₁.kernelVaddr.vaddrBitmap = _
    rw [hg.vaddr]
    rfl
  · rw [hsame]
    exact hf.pages
  · intro i h1 h2
    rw [hpte i (by omega), hzero i h1 h2]
    exact ⟨(hframe i h1 h2).2.1, hfree i h1 h2, fun _ => rfl⟩
  · intro i hout hi
    rw [hpte i hi, hg.other i hout]
    rfl
  · rw [hsame]
    exact hg.count

theorem wordIdx_pageAddr {i : Nat} (hi : i ≤ 32768) : wordIdx (pageAddr i) = 0 := by
  rw [wordIdx_eq, toNat_pageAddr hi]
  omega

/-- `memcpy` of one page: what the source's frame holds is in the
    destination's, and nothing else changes. -/
theorem memcpyIn_page {m : Machine} {dst src : Word} {fs fd : Nat} (hs : walk m src = some fs)
    (hd : walk m dst = some fd) (hsi : wordIdx src = 0) (hdi : wordIdx dst = 0) :
    ∃ page, memcpyIn m dst src 1024 = .ok (m.setFrame fd page) ∧
      ∀ w, w < 1024 → page w = m.phys fs w := by
  refine ⟨fun i => if wordIdx dst ≤ i ∧ i < wordIdx dst + 1024 then
    m.phys fs (wordIdx src + (i - wordIdx dst)) else m.phys fd i, ?_, ?_⟩
  · simp only [memcpyIn, hs, hd]
  · intro w hw
    dsimp only
    rw [hdi, hsi, if_pos ⟨by omega, by omega⟩, Nat.zero_add, Nat.sub_zero]

/-- A copy between runs of kernel pages that do not overlap. -/
theorem memcpyPages_kernel (n : Nat) {m : Machine} (h : KernelMap m) {s b : Nat}
    (hs : s + n ≤ kernelPages m) (hb : b + n ≤ kernelPages m)
    (hps : ∀ i, i < n → isPresent (kernelPte m (s + i)) = true)
    (hpb : ∀ i, i < n → isPresent (kernelPte m (b + i)) = true)
    (hapart : s + n ≤ b ∨ b + n ≤ s)
    (hdir : ∀ i, i < n → frameOf (kernelPte m (s + i)) ≠ m.cr3) :
    ∃ m', memcpyPages n m (pageAddr s) (pageAddr b) = .ok m' ∧ SameButPhys m m' ∧
      (∀ i w, i < n → w < 1024 → m'.phys (frameOf (kernelPte m (s + i))) w
        = m.phys (frameOf (kernelPte m (b + i))) w) ∧
      ∀ f, (∀ i, i < n → f ≠ frameOf (kernelPte m (s + i))) → m'.phys f = m.phys f := by
  have hpages := h.layout.pages_le
  induction n generalizing m s b with
  | zero =>
      exact ⟨m, rfl, rfl, fun i _ hi => absurd hi (by omega), fun _ _ => rfl⟩
  | succ n ih =>
      have hp₀ : isPresent (kernelPte m s) = true := hps 0 (by omega)
      have hb₀ : isPresent (kernelPte m b) = true := hpb 0 (by omega)
      rcases h.mapped s (by omega) hp₀ with ⟨j, _, hfj, _⟩
      rcases memcpyIn_page (walk_kernel h (by omega) hb₀) (walk_kernel h (by omega) hp₀)
        (wordIdx_pageAddr (by omega)) (wordIdx_pageAddr (by omega)) with ⟨page, hcopy, hpage⟩
      obtain ⟨m₁, hm₁⟩ : ∃ m₁, m₁ = m.setFrame (frameOf (kernelPte m s)) page := ⟨_, rfl⟩
      rw [← hm₁] at hcopy
      have h₁ : KernelMap m₁ := by
        rw [hm₁]
        exact h.setFrame _ (by omega) (hdir 0 (by omega))
      have hpte : ∀ i, i ≤ 32768 → kernelPte m₁ i = kernelPte m i := by
        intro i hi
        rw [hm₁]
        exact kernelPte_setFrame _ (by omega) hi
      have hsame₁ : SameButPhys m m₁ := by
        rw [hm₁]
        rfl
      have hlen : kernelPages m₁ = kernelPages m := by
        rw [hm₁]
        rfl
      have hcr3 : m₁.cr3 = m.cr3 := by
        rw [hm₁]
        rfl
      -- The frames of two different pages differ.
      have hne : ∀ i k, i < kernelPages m → k < kernelPages m → isPresent (kernelPte m i) = true →
          isPresent (kernelPte m k) = true → i ≠ k →
          frameOf (kernelPte m i) ≠ frameOf (kernelPte m k) :=
        fun i k hi hk hpi hpk hik hc => hik (h.inj i k hi hk hpi hpk hc)
      rcases ih (m := m₁) (s := s + 1) (b := b + 1) h₁ (by omega) (by omega) (by
          intro i hi
          rw [hpte _ (by omega), show s + 1 + i = s + (i + 1) by omega]
          exact hps (i + 1) (by omega)) (by
          intro i hi
          rw [hpte _ (by omega), show b + 1 + i = b + (i + 1) by omega]
          exact hpb (i + 1) (by omega)) (by omega) (by
          intro i hi
          rw [hpte _ (by omega), hcr3, show s + 1 + i = s + (i + 1) by omega]
          exact hdir (i + 1) (by omega)) (by omega) with ⟨m', hrun, hsame, hcont, hother⟩
      refine ⟨m', ?_, hsame₁.trans hsame, ?_, ?_⟩
      · rw [memcpyPages, hcopy, ok_bind, pageAddr_succ (by omega), pageAddr_succ (by omega)]
        exact hrun
      · intro i w hi hw
        by_cases hi0 : i = 0
        · subst hi0
          rw [Nat.add_zero, Nat.add_zero, hother _ (by
            intro k hk
            rw [hpte _ (by omega), show s + 1 + k = s + (k + 1) by omega]
            exact hne _ _ (by omega) (by omega) hp₀ (hps (k + 1) (by omega)) (by omega)),
            hm₁, setFrame_phys_self]
          exact hpage w hw
        · have hsrc : m₁.phys (frameOf (kernelPte m (b + i))) = m.phys (frameOf (kernelPte m (b + i))) := by
            rw [hm₁, setFrame_phys_of_ne]
            exact hne _ _ (by omega) (by omega) (hpb i hi) hp₀ (by omega)
          have hc := hcont (i - 1) w (by omega) hw
          rw [hpte _ (by omega), hpte _ (by omega), show s + 1 + (i - 1) = s + i by omega,
            show b + 1 + (i - 1) = b + i by omega, hsrc] at hc
          exact hc
      · intro f hf
        have hf₀ : f ≠ frameOf (kernelPte m s) := hf 0 (by omega)
        rw [hother f (by
          intro i hi
          rw [hpte _ (by omega), show s + 1 + i = s + (i + 1) by omega]
          exact hf (i + 1) (by omega)), hm₁, setFrame_phys_of_ne _ hf₀]

/-- The frame page `q` is mapped to in the directory in frame `d`. -/
def frameAt (m : Machine) (d q : Nat) : Option Nat :=
  if isPresent (m.phys d (q / 1024)) then
    if isPresent (m.phys (frameOf (m.phys d (q / 1024))) (q % 1024)) then
      some (frameOf (m.phys (frameOf (m.phys d (q / 1024))) (q % 1024)))
    else
      none
  else
    none

theorem walk_eq_frameAt (m : Machine) (v : Word) : walk m v = frameAt m m.cr3 (v.toNat / 4096) := by
  have hd : pdeIdx v = v.toNat / 4096 / 1024 := by
    rw [pdeIdx_eq]
    omega
  have ht : pteIdx v = v.toNat / 4096 % 1024 := by
    rw [pteIdx_eq]
    omega
  simp only [walk, frameAt, hd, ht]

/-- An address inside a page of the kernel heap. -/
theorem toNat_pageAddr_add {i off : Nat} (hi : i < 32768) (ho : off < 4096) :
    (pageAddr i + BitVec.ofNat 32 off).toNat = 0xc0100000 + i * 4096 + off := by
  rw [BitVec.toNat_add, toNat_pageAddr (by omega), BitVec.toNat_ofNat]
  omega

theorem walk_pageAddr_add {m : Machine} {i off : Nat} (hi : i < 32768) (ho : off < 4096) :
    walk m (pageAddr i + BitVec.ofNat 32 off) = walk m (pageAddr i) := by
  rw [walk_eq_frameAt, walk_eq_frameAt, toNat_pageAddr_add hi ho, toNat_pageAddr (by omega)]
  congr 1
  omega

theorem wordIdx_pageAddr_add {i off : Nat} (hi : i < 32768) (ho : off < 4096) :
    wordIdx (pageAddr i + BitVec.ofNat 32 off) = off / 4 := by
  rw [wordIdx_eq, toNat_pageAddr_add hi ho]
  omega

/-- Loading the directory in a page of the kernel heap. -/
theorem pageDirActivate_kernel {m : Machine} (hk : KernelHalf m) (hl : PoolLayout m) {a j : Nat}
    (ha : a ≤ 32768) (hj : j < kernelFrames m) (hfr : frameOf (kernelPte m a) = 0x200 + j) :
    pageDirActivate m (pageAddr a) = .ok { m with cr3 := frameOf (kernelPte m a) } := by
  have hphy : frameOf (kernelFrame j) = frameOf (kernelPte m a) := by
    rw [frameOf_eq, hl.toNat_frame hj, hfr]
    omega
  rw [pageDirActivate, if_pos (pageAddr_ne_zero ha), addrV2p_kernel hk hl ha hj hfr, ok_bind]
  dsimp only
  rw [hphy]

/-- A new directory has the kernel half of the active one and no user page. -/
theorem createPageDir_fits {m : Machine} (h : KernelMap m) {a : Nat} (hfit : Fits m 1)
    (hdir : DirPage m a) :
    ∃ m₁ m' d, createPageDir m = .ok (m', pageAddr d) ∧ GotPages m m₁ d 1 ∧
      (∀ s', FreeRun m.kernelVaddr.vaddrBitmap 1 s' → d ≤ s') ∧ SameButPhys m₁ m' ∧
      (∀ f, f ≠ frameOf (kernelPte m₁ d) → m'.phys f = m₁.phys f) ∧
      (∀ e, e < 768 → m'.phys (frameOf (kernelPte m₁ d)) e = 0) ∧
      KernelHalf { m' with cr3 := frameOf (kernelPte m₁ d) } := by
  rcases getKernelPages_fits h ⟨by omega, by omega⟩ hfit hdir with ⟨m₁, d, hget, hgot, hfirst⟩
  have h₁ := hgot.map
  have hlen : d + 1 ≤ kernelPages m := hgot.run.1
  have hpages := h.layout.pages_le
  have hp := hgot.page d (by omega) (by omega)
  rcases h₁.mapped d (by rw [hgot.pages]; omega) hp.1 with ⟨j, hj, hfj, _⟩
  obtain ⟨D, hD⟩ : ∃ D, D = frameOf (kernelPte m₁ d) := ⟨_, rfl⟩
  have hwalk : walk m₁ (pageAddr d) = some D := by
    rw [hD]
    exact walk_kernel h₁ (by rw [hgot.pages]; omega) hp.1
  have hself := walk_pdePtr h₁.half.self 0xc0000000
  have hptr : pdePtr 0xc0000000 = 0xfffff000 + 0x300 * 4 := by decide
  have hidx : pdeIdx 0xc0000000 = 768 := by decide
  rw [hptr, hidx] at hself
  have hDne : D ≠ m₁.cr3 := by
    rw [hD, hgot.cr3, ← hdir.2.2]
    intro hc
    have hu := h.inUse hdir.1 hdir.2.1
    exact hu.2 (Or.inl (hc ▸ hp.2.1))
  have hdst : (pageAddr d + 0x300 * 4 : Word) = pageAddr d + BitVec.ofNat 32 0xc00 := rfl
  have hlast : (pageAddr d + 1023 * 4 : Word) = pageAddr d + BitVec.ofNat 32 0xffc := rfl
  obtain ⟨page, hpage⟩ : ∃ page : Nat → Word, page = fun i =>
      if 768 ≤ i ∧ i < 768 + 256 then m₁.phys m₁.cr3 (768 + (i - 768)) else m₁.phys D i := ⟨_, rfl⟩
  obtain ⟨m₂, hm₂⟩ : ∃ m₂, m₂ = m₁.setFrame D page := ⟨_, rfl⟩
  have hcopy : memcpyIn m₁ (pageAddr d + 0x300 * 4) (0xfffff000 + 0x300 * 4) 256 = .ok m₂ := by
    have hw : walk m₁ (pageAddr d + 0x300 * 4) = some D := by
      rw [hdst, walk_pageAddr_add (by omega) (by omega), hwalk]
    have hi : wordIdx (pageAddr d + 0x300 * 4) = 768 := by
      rw [hdst, wordIdx_pageAddr_add (by omega) (by omega)]
    simp only [memcpyIn, hself.1, hself.2, hw, hi, hm₂, hpage]
  have h₂ : KernelMap m₂ := by
    rw [hm₂]
    exact h₁.setFrame _ (by omega) hDne
  have hpte₂ : kernelPte m₂ d = kernelPte m₁ d := by
    rw [hm₂]
    exact kernelPte_setFrame _ (by omega) (by omega)
  have hj₂ : j < kernelFrames m₂ := by
    rw [hm₂]
    exact hj
  have hphy : addrV2p m₂ (pageAddr d) = .ok (kernelFrame j) :=
    addrV2p_kernel h₂.half h₂.layout (by omega) hj₂ (by rw [hpte₂]; exact hfj)
  obtain ⟨m', hm'⟩ : ∃ m', m' = m₂.setWord D 1023 (entryFor (kernelFrame j)) := ⟨_, rfl⟩
  have hwalk₂ : walk m₂ (pageAddr d) = some D := by
    rw [walk_kernel h₂ (by rw [hm₂]; show d < kernelPages m₁; rw [hgot.pages]; omega)
      (by rw [hpte₂]; exact hp.1), hpte₂, hD]
  have hstore : store m₂ (pageAddr d + 1023 * 4) (entryFor (kernelFrame j)) = .ok m' := by
    have hw : walk m₂ (pageAddr d + 1023 * 4) = some D := by
      rw [hlast, walk_pageAddr_add (by omega) (by omega), hwalk₂]
    have hi : wordIdx (pageAddr d + 1023 * 4) = 1023 := by
      rw [hlast, wordIdx_pageAddr_add (by omega) (by omega)]
    simp only [store, hw, hi, hm']
  -- The words of the new directory.
  have hword : ∀ e, e ≠ 1023 → m'.phys D e = page e := by
    intro e he
    rw [hm', setWord_phys_of_ne _ (Or.inr he), hm₂, setFrame_phys_self]
  have hhigh : ∀ e, 768 ≤ e → e < 1023 → m'.phys D e = m₁.phys m₁.cr3 e := by
    intro e h1 h2
    rw [hword e (by omega), hpage]
    dsimp only
    rw [if_pos ⟨h1, by omega⟩, show 768 + (e - 768) = e by omega]
  have hentry : m'.phys D 1023 = entryFor (kernelFrame j) := by
    rw [hm', setWord_phys_self]
  have hnat := h₁.layout.toNat_frame hj
  refine ⟨m₁, m', d, ?_, hgot, hfirst, ?_, ?_, ?_, ?_⟩
  · rw [createPageDir, hget, ok_bind]
    dsimp only
    rw [if_neg (pageAddr_ne_zero (by omega)), hcopy, ok_bind, hphy, ok_bind, hstore, ok_bind]
  · rw [hm', hm₂]
    rfl
  · intro f hf
    rw [← hD] at hf
    rw [hm', setWord_frame_of_ne _ hf, hm₂, setFrame_phys_of_ne _ hf]
  · intro e he
    rw [← hD, hword e (by omega), hpage]
    dsimp only
    rw [if_neg (by omega), hD]
    exact hp.2.2 e
  · rw [← hD]
    refine ⟨⟨?_, ?_⟩, ?_, ?_⟩
    · show isPresent (m'.phys D 1023) = true
      rw [hentry]
      exact isPresent_entryFor (by omega)
    · show frameOf (m'.phys D 1023) = D
      rw [hentry, frameOf_entryFor (by omega), hnat, hD, hfj]
      omega
    · intro e h1 h2
      show isPresent (m'.phys D e) = true ∧ frameOf (m'.phys D e) = 0x101 + (e - 768)
      rw [hhigh e h1 h2]
      exact h₁.half.table e h1 h2
    · show D < 0x101 ∨ 0x200 ≤ D
      omega

/-- The bitmap of user addresses of a process, read through its address. -/
def procBitmap (m : Machine) (p : ProcMem) : Bitmap where
  btmpBytesLen := p.btmpBytesLen
  bits i := match loadByte m (p.bits + BitVec.ofNat 32 i) with
    | .ok byte => byte
    | .error _ => 0

theorem procBitmap_bits {m : Machine} {p : ProcMem} {i : Nat} {byte : BitVec 8}
    (h : loadByte m (p.bits + BitVec.ofNat 32 i) = .ok byte) : (procBitmap m p).bits i = byte := by
  simp only [procBitmap, h]

/-- What `page_table_add` has done for page `q` of the active directory: its
    entry is there, in a table that was there or in a new one. -/
structure Mapped (m m' : Machine) (q : Nat) (phy : Word) : Prop where
  cr3 : m'.cr3 = m.cr3
  userPool : m'.userPool = m.userPool
  kernelVaddr : m'.kernelVaddr = m.kernelVaddr
  kp_start : m'.kernelPool.phyAddrStart = m.kernelPool.phyAddrStart
  dir : ∀ e, e ≠ q / 1024 → m'.phys m.cr3 e = m.phys m.cr3 e
  present : isPresent (m'.phys m.cr3 (q / 1024)) = true
  pte : m'.phys (frameOf (m'.phys m.cr3 (q / 1024))) (q % 1024) = entryFor phy
  phys : ∀ f, f ≠ m.cr3 → f ≠ frameOf (m'.phys m.cr3 (q / 1024)) → m'.phys f = m.phys f
  table :
    (isPresent (m.phys m.cr3 (q / 1024)) = true ∧
      m'.phys m.cr3 (q / 1024) = m.phys m.cr3 (q / 1024) ∧
      m'.kernelPool.poolBitmap = m.kernelPool.poolBitmap ∧
      ∀ x, x ≠ q % 1024 → m'.phys (frameOf (m.phys m.cr3 (q / 1024))) x
        = m.phys (frameOf (m.phys m.cr3 (q / 1024))) x) ∨
    (isPresent (m.phys m.cr3 (q / 1024)) = false ∧
      ∃ j, j < kernelFrames m ∧ frameOf (m'.phys m.cr3 (q / 1024)) = 0x200 + j ∧
        bitmapScanTest m.kernelPool.poolBitmap j = false ∧
        m'.kernelPool.poolBitmap = bitmapSet m.kernelPool.poolBitmap j true ∧
        ∀ x, x ≠ q % 1024 → m'.phys (0x200 + j) x = 0)

namespace Mapped

variable {m m' : Machine} {q : Nat} {phy : Word}

theorem kp_len (hm : Mapped m m' q phy) :
    m'.kernelPool.poolBitmap.btmpBytesLen = m.kernelPool.poolBitmap.btmpBytesLen := by
  rcases hm.table with ⟨-, -, hsame, -⟩ | ⟨-, i, -, -, -, hset, -⟩
  · rw [hsame]
  · rw [hset, bitmapSet_len]

/-- What was taken stays taken. -/
theorem kernel (hm : Mapped m m' q phy) {k : Nat}
    (hk : bitmapScanTest m.kernelPool.poolBitmap k = true) :
    bitmapScanTest m'.kernelPool.poolBitmap k = true := by
  rcases hm.table with ⟨-, -, hsame, -⟩ | ⟨-, i, -, -, -, hset, -⟩
  · rw [hsame]
    exact hk
  · rw [hset, bitmapScanTest_set, hk, ite_self]

/-- The page tables of the kernel are not touched. -/
theorem tables (hm : Mapped m m' q phy) (hge : 0x200 ≤ m.cr3)
    (hT : 0x200 ≤ frameOf (m'.phys m.cr3 (q / 1024))) {f : Nat} (hf : f < 0x200) :
    m'.phys f = m.phys f :=
  hm.phys f (by omega) (by omega)

/-- A page in the user half keeps the kernel heap. -/
theorem kernelMap (hm : Mapped m m' q phy) (h : KernelMap m) (hq : q < 0xc0000)
    (hge : 0x200 ≤ m.cr3) (hT : 0x200 ≤ frameOf (m'.phys m.cr3 (q / 1024))) : KernelMap m' :=
  h.congr (h.half.ofDir hm.cr3 (fun e _ => hm.dir e (by omega))) hm.kernelVaddr hm.kp_start hm.kp_len
    (fun _ hk => hm.kernel hk) (by rw [hm.userPool]) (fun _ _ hf => hm.tables hge hT hf)

end Mapped

/-- The page an entry's address lies in. -/
theorem walk_high (m : Machine) (v : Word) : walk m (v &&& 0xfffff000) = walk m v := by
  rw [walk_eq_frameAt, walk_eq_frameAt, toNat_high]
  congr 1
  omega

/-- Changing an entry of the user half leaves the last entry alone. -/
theorem SelfMap.setWord {m : Machine} (h : SelfMap m) {e : Nat} (he : e < 768) (w : Word) :
    SelfMap (m.setWord m.cr3 e w) := by
  have hlast : (m.setWord m.cr3 e w).phys m.cr3 1023 = m.phys m.cr3 1023 :=
    setWord_phys_of_ne w (Or.inr (by omega))
  refine ⟨?_, ?_⟩
  · show isPresent ((m.setWord m.cr3 e w).phys m.cr3 1023) = true
    rw [hlast]
    exact h.present
  · show frameOf ((m.setWord m.cr3 e w).phys m.cr3 1023) = m.cr3
    rw [hlast]
    exact h.frame

/-- One more page in a table that is there. -/
theorem pageTableAdd_old {m : Machine} (hself : SelfMap m) {v phy : Word} {q : Nat}
    (hq : v.toNat / 4096 = q) (hp : isPresent (m.phys m.cr3 (q / 1024)) = true)
    (hne : frameOf (m.phys m.cr3 (q / 1024)) ≠ m.cr3)
    (habs : isPresent (m.phys (frameOf (m.phys m.cr3 (q / 1024))) (q % 1024)) = false) :
    ∃ m', pageTableAdd m v phy = .ok m' ∧ Mapped m m' q phy := by
  have hd : pdeIdx v = q / 1024 := by
    rw [pdeIdx_eq, ← hq]
    omega
  have ht : pteIdx v = q % 1024 := by
    rw [pteIdx_eq, ← hq]
    omega
  have hp' : isPresent (m.phys m.cr3 (pdeIdx v)) = true := by
    rw [hd]
    exact hp
  have hload := load_ptePtr hself hp'
  have hstore := store_ptePtr hself (entryFor phy) hp'
  rw [hd, ht] at hload hstore
  -- The table is not the directory, so writing the entry leaves the directory alone.
  obtain ⟨T, hT⟩ : ∃ T, T = frameOf (m.phys m.cr3 (q / 1024)) := ⟨_, rfl⟩
  rw [← hT] at hload hstore hne habs
  have hdir : (m.setWord T (q % 1024) (entryFor phy)).phys m.cr3 = m.phys m.cr3 :=
    setWord_frame_of_ne _ (Ne.symm hne)
  refine ⟨m.setWord T (q % 1024) (entryFor phy), ?_, rfl, rfl, rfl, rfl, ?_, ?_, ?_, ?_, Or.inl ?_⟩
  · rw [pageTableAdd, load_pdePtr hself, ok_bind, hd, if_pos hp, hload, ok_bind, ensure_pos habs,
      ok_bind, hstore]
  · intro e _
    rw [hdir]
  · rw [hdir]
    exact hp
  · rw [hdir, ← hT, setWord_phys_self]
  · intro f hf hfT
    rw [hdir, ← hT] at hfT
    exact setWord_frame_of_ne _ hfT
  · rw [hdir, ← hT]
    refine ⟨hp, rfl, rfl, ?_⟩
    intro x hx
    exact setWord_phys_of_ne _ (Or.inr hx)

/-- One more page in a new table. -/
theorem pageTableAdd_new {m : Machine} (hself : SelfMap m) (hl : PoolLayout m) {v phy : Word}
    {q : Nat} (hq : v.toNat / 4096 = q) (hlow : q / 1024 < 768)
    (hp : isPresent (m.phys m.cr3 (q / 1024)) = false) (huse : InUse m m.cr3)
    (hfree : 0 < freeCount m.kernelPool.poolBitmap) :
    ∃ m', pageTableAdd m v phy = .ok m' ∧ Mapped m m' q phy := by
  have hd : pdeIdx v = q / 1024 := by
    rw [pdeIdx_eq, ← hq]
    omega
  have ht : pteIdx v = q % 1024 := by
    rw [pteIdx_eq, ← hq]
    omega
  rcases palloc_free hfree with ⟨j, hj, hclear, hpalloc⟩
  have haddr : BitVec.ofNat 32 j * pgSize + m.kernelPool.phyAddrStart = kernelFrame j := by
    rw [hl.kp_start, kernelFrame]
  rw [haddr] at hpalloc
  have hnat := hl.toNat_frame hj
  -- The new table is not the directory, which is in use.
  have hTne : 0x200 + j ≠ m.cr3 := fun hc => huse.2 (Or.inl ⟨j, hj, hc.symm, hclear⟩)
  have hpresE : isPresent (entryFor (kernelFrame j)) = true := isPresent_entryFor (by omega)
  have hframeE : frameOf (entryFor (kernelFrame j)) = 0x200 + j := by
    rw [frameOf_entryFor (by omega), hnat]
    omega
  obtain ⟨m₀, hm₀⟩ : ∃ m₀, m₀ = m.setPool { m.kernelPool with
    poolBitmap := bitmapSet m.kernelPool.poolBitmap j true } .kernel := ⟨_, rfl⟩
  have hself₀ : SelfMap m₀ := by
    rw [hm₀]
    exact ⟨hself.present, hself.frame⟩
  have hcr3₀ : m₀.cr3 = m.cr3 := by rw [hm₀]; rfl
  have hphys₀ : m₀.phys = m.phys := by rw [hm₀]; rfl
  obtain ⟨m₁, hm₁⟩ : ∃ m₁, m₁ = m₀.setWord m₀.cr3 (q / 1024) (entryFor (kernelFrame j)) := ⟨_, rfl⟩
  have hself₁ : SelfMap m₁ := by
    rw [hm₁]
    exact hself₀.setWord hlow _
  have hcr3₁ : m₁.cr3 = m.cr3 := by rw [hm₁]; exact hcr3₀
  have hpde₁ : m₁.phys m₁.cr3 (q / 1024) = entryFor (kernelFrame j) := by
    rw [hm₁]
    exact setWord_phys_self _ _ _ _
  have hwalk₁ := walk_ptePtr hself₁ (v := v) (by rw [hd, hpde₁]; exact hpresE)
  rw [hd, hpde₁, hframeE] at hwalk₁
  obtain ⟨m₂, hm₂⟩ : ∃ m₂, m₂ = m₁.setFrame (0x200 + j) (fun _ => 0) := ⟨_, rfl⟩
  have hclearp : clearPage m₁ (ptePtr v &&& 0xfffff000) = .ok m₂ := by
    rw [clearPage, walk_high, hwalk₁.1, hm₂]
  have hcr3₂ : m₂.cr3 = m.cr3 := by rw [hm₂]; exact hcr3₁
  have hdir₂ : m₂.phys m.cr3 = m₁.phys m.cr3 := by
    rw [hm₂]
    exact setFrame_phys_of_ne _ (Ne.symm hTne)
  have hpde₂ : m₂.phys m.cr3 (q / 1024) = entryFor (kernelFrame j) := by
    rw [hdir₂, ← hcr3₁]
    exact hpde₁
  have hself₂ : SelfMap m₂ := by
    refine ⟨?_, ?_⟩
    · rw [hcr3₂, hdir₂, ← hcr3₁]
      exact hself₁.present
    · rw [hcr3₂, hdir₂, ← hcr3₁]
      exact hself₁.frame
  have hload := load_ptePtr hself₂ (v := v) (by rw [hd, hcr3₂, hpde₂]; exact hpresE)
  have hstore := store_ptePtr hself₂ (v := v) (entryFor phy) (by rw [hd, hcr3₂, hpde₂]; exact hpresE)
  rw [hd, ht, hcr3₂, hpde₂, hframeE] at hload hstore
  have hzero : ∀ x, m₂.phys (0x200 + j) x = 0 := by
    intro x
    rw [hm₂, setFrame_phys_self]
  obtain ⟨m', hm'⟩ : ∃ m', m' = m₂.setWord (0x200 + j) (q % 1024) (entryFor phy) := ⟨_, rfl⟩
  rw [← hm'] at hstore
  have hdir' : m'.phys m.cr3 = m₁.phys m.cr3 := by
    rw [hm', setWord_frame_of_ne _ (Ne.symm hTne), hdir₂]
  have hpde' : m'.phys m.cr3 (q / 1024) = entryFor (kernelFrame j) := by
    rw [hdir', ← hdir₂, hpde₂]
  refine ⟨m', ?_, ?_, ?_, ?_, ?_, ?_, ?_, ?_, ?_, Or.inr ⟨hp, j, hj, ?_, hclear, ?_, ?_⟩⟩
  · rw [pageTableAdd, load_pdePtr hself, ok_bind, hd, if_neg (by rw [hp]; decide), hpalloc, ok_bind]
    dsimp only
    rw [← hm₀, store_pdePtr hself₀, ok_bind, hd, ← hm₁, hclearp, ok_bind, hload, ok_bind,
      ensure_pos (by rw [hzero]; rfl), ok_bind, hstore]
  · rw [hm', hm₂, hm₁, hm₀]
    rfl
  · rw [hm', hm₂, hm₁, hm₀]
    rfl
  · rw [hm', hm₂, hm₁, hm₀]
    rfl
  · rw [hm', hm₂, hm₁, hm₀]
    rfl
  · intro e he
    rw [hdir', hm₁, hcr3₀, setWord_phys_of_ne _ (Or.inr he), hphys₀]
  · rw [hpde']
    exact hpresE
  · rw [hpde', hframeE, hm', setWord_phys_self]
  · intro f hf hfT
    rw [hpde', hframeE] at hfT
    rw [hm', setWord_frame_of_ne _ hfT, hm₂, setFrame_phys_of_ne _ hfT, hm₁, hcr3₀,
      setWord_frame_of_ne _ hf, hphys₀]
  · rw [hpde', hframeE]
  · rw [hm', hm₂, hm₁, hm₀]
    rfl
  · intro x hx
    rw [hm', setWord_phys_of_ne _ (Or.inr hx)]
    exact hzero x

end ForikOS
