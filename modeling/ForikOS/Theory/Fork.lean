import ForikOS.Theory.AddressSpace
import Mathlib.Order.Interval.Finset.Nat

/-!
# Fork Copies the Address Space

`copy_body_stack3` goes through the parent's bitmap of user addresses bit by
bit. `Copying` says what memory looks like after the first `n` bits: the child
maps exactly the pages whose bits are set among them, on frames that were free
when the loop began, with the contents of the parent's pages, and the only
frames in use that have changed are the child's directory and the page the
contents pass through.

The number of frames the loop takes is counted along with it. Every page takes
one frame of the user pool, and the first page under an entry of the page
directory takes one frame of the kernel pool for its table.

## Main definitions

* `pagesNeeded`, `tablesNeeded`: The frames a fork takes for user pages.
* `Copying`: The invariant of the loop.
* `FitsSeq`: Several requests for kernel pages fit one after the other.
* `Forkable`: What `sys_fork` needs.
* `Forked`: What it does.

## Theorems

* `copyPage_copying`: One page.
* `copyBodyStack3_copying`: The whole loop.
* `sysFork_copies`: The child has a copy of the address space.
-/

namespace ForikOS

/-- The first user page. -/
def userPage₀ : Nat := userVaddrStart / 4096

/-- The number of user pages. -/
def userPages : Nat := userBitmapLen * 8

/-- The pages the first `n` bits stand for. -/
def pagesNeeded (bit : Nat → Bool) : Nat → Nat
  | 0 => 0
  | n + 1 => pagesNeeded bit n + if bit n then 1 else 0

/-- Bit `n` is the first one set among those whose pages share a table. -/
def FirstInTable (bit : Nat → Bool) (n : Nat) : Prop :=
  bit n = true ∧ ∀ i, i < n → bit i = true → (userPage₀ + i) / 1024 ≠ (userPage₀ + n) / 1024

instance (bit : Nat → Bool) (n : Nat) : Decidable (FirstInTable bit n) :=
  inferInstanceAs (Decidable (_ ∧ _))

/-- The page tables the first `n` bits need. -/
def tablesNeeded (bit : Nat → Bool) : Nat → Nat
  | 0 => 0
  | n + 1 => tablesNeeded bit n + if FirstInTable bit n then 1 else 0

theorem userPage₀_eq : userPage₀ = 0x8048 := rfl

theorem userPages_eq : userPages = 753592 := rfl

/-- What memory `m` looks like when the first `n` bits have been handled,
    `m₁` being memory when the loop began: the child's directory is in frame
    `D`, and the contents of pages pass through frame `B`. -/
structure Copying (m₁ m : Machine) (D B : Nat) (bit : Nat → Bool) (n : Nat) : Prop where
  map : KernelMap m
  cr3 : m.cr3 = m₁.cr3
  vaddr : m.kernelVaddr = m₁.kernelVaddr
  pools : Grew m₁ { m with phys := m₁.phys }
  keep : ∀ f, InUse m₁ f → f ≠ D → f ≠ B → m.phys f = m₁.phys f
  tables : ∀ f, 0x101 ≤ f → f < 0x200 → m.phys f = m₁.phys f
  half : KernelHalf { m with cr3 := D }
  table : ∀ e, e < 768 → isPresent (m.phys D e) = true →
    KernelFree m₁ (frameOf (m.phys D e)) ∧ ¬ KernelFree m (frameOf (m.phys D e))
  table_inj : ∀ e e', e < 768 → e' < 768 → isPresent (m.phys D e) = true →
    isPresent (m.phys D e') = true → frameOf (m.phys D e) = frameOf (m.phys D e') → e = e'
  table_iff : ∀ e, e < 768 → (isPresent (m.phys D e) = true ↔
    ∃ i, i < n ∧ bit i = true ∧ (userPage₀ + i) / 1024 = e)
  page : ∀ q, q < 0xc0000 → ((frameAt m D q).isSome = true ↔
    ∃ i, i < n ∧ bit i = true ∧ q = userPage₀ + i)
  free : ∀ q u, q < 0xc0000 → frameAt m D q = some u → UserFree m₁ u ∧ ¬ UserFree m u
  inj : ∀ q q' u, q < 0xc0000 → q' < 0xc0000 → frameAt m D q = some u → frameAt m D q' = some u →
    q = q'
  content : ∀ q u w, q < 0xc0000 → frameAt m D q = some u → frameAt m₁ m₁.cr3 q = some w →
    ∀ i, i < 1024 → m.phys u i = m₁.phys w i
  kcount : freeCount m.kernelPool.poolBitmap + tablesNeeded bit n
    = freeCount m₁.kernelPool.poolBitmap
  ucount : freeCount m.userPool.poolBitmap + pagesNeeded bit n = freeCount m₁.userPool.poolBitmap

/-- The state the loop begins in: the parent's directory, the child's and the
    page in between are pages of the kernel heap, and what the parent maps is
    in use and is neither of the other two. -/
structure LoopStart (m₁ : Machine) (pa da ba D B : Nat) : Prop where
  map : KernelMap m₁
  user : UserLayout m₁
  dir : DirPage m₁ pa
  child : da < kernelPages m₁ ∧ isPresent (kernelPte m₁ da) = true ∧ frameOf (kernelPte m₁ da) = D
  buf : ba < kernelPages m₁ ∧ isPresent (kernelPte m₁ ba) = true ∧ frameOf (kernelPte m₁ ba) = B
  pa_ne : pa ≠ da ∧ pa ≠ ba ∧ da ≠ ba
  table : ∀ e, e < 768 → isPresent (m₁.phys m₁.cr3 e) = true →
    InUse m₁ (frameOf (m₁.phys m₁.cr3 e)) ∧ frameOf (m₁.phys m₁.cr3 e) ≠ D ∧
      frameOf (m₁.phys m₁.cr3 e) ≠ B
  page : ∀ q w, q < 0xc0000 → frameAt m₁ m₁.cr3 q = some w → InUse m₁ w ∧ w ≠ D ∧ w ≠ B

namespace LoopStart

variable {m₁ : Machine} {pa da ba D B : Nat}

theorem parent_inUse (h : LoopStart m₁ pa da ba D B) : InUse m₁ m₁.cr3 := by
  rw [← h.dir.2.2]
  exact h.map.inUse h.dir.1 h.dir.2.1

theorem child_inUse (h : LoopStart m₁ pa da ba D B) : InUse m₁ D := by
  rw [← h.child.2.2]
  exact h.map.inUse h.child.1 h.child.2.1

theorem buf_inUse (h : LoopStart m₁ pa da ba D B) : InUse m₁ B := by
  rw [← h.buf.2.2]
  exact h.map.inUse h.buf.1 h.buf.2.1

theorem frames_ne (h : LoopStart m₁ pa da ba D B) : m₁.cr3 ≠ D ∧ m₁.cr3 ≠ B ∧ D ≠ B := by
  refine ⟨?_, ?_, ?_⟩
  · rw [← h.dir.2.2, ← h.child.2.2]
    exact fun hc => h.pa_ne.1 (h.map.inj _ _ h.dir.1 h.child.1 h.dir.2.1 h.child.2.1 hc)
  · rw [← h.dir.2.2, ← h.buf.2.2]
    exact fun hc => h.pa_ne.2.1 (h.map.inj _ _ h.dir.1 h.buf.1 h.dir.2.1 h.buf.2.1 hc)
  · rw [← h.child.2.2, ← h.buf.2.2]
    exact fun hc => h.pa_ne.2.2 (h.map.inj _ _ h.child.1 h.buf.1 h.child.2.1 h.buf.2.1 hc)

end LoopStart

namespace Copying

variable {m₁ m : Machine} {pa da ba D B n : Nat} {bit : Nat → Bool}

theorem inUse (h : Copying m₁ m D B bit n) {f : Nat} (hf : InUse m₁ f) : InUse m f :=
  h.pools.inUse hf

/-- The entries of the kernel heap are those the loop began with. -/
theorem kernelPte_eq (h : Copying m₁ m D B bit n) {i : Nat} (hi : i ≤ 32768) :
    kernelPte m i = kernelPte m₁ i :=
  kernelPte_congr h.tables hi

theorem pages_eq (h : Copying m₁ m D B bit n) : kernelPages m = kernelPages m₁ := by
  rw [kernelPages, h.vaddr, kernelPages]

/-- The parent's mapping is the one the loop began with. -/
theorem parent_eq (h : Copying m₁ m D B bit n) (hs : LoopStart m₁ pa da ba D B) {q : Nat}
    (hq : q < 0xc0000) : frameAt m m₁.cr3 q = frameAt m₁ m₁.cr3 q := by
  have hdir : m.phys m₁.cr3 = m₁.phys m₁.cr3 :=
    h.keep _ hs.parent_inUse hs.frames_ne.1 hs.frames_ne.2.1
  unfold frameAt
  rw [hdir]
  by_cases hp : isPresent (m₁.phys m₁.cr3 (q / 1024)) = true
  · have ht := hs.table (q / 1024) (by omega) hp
    rw [h.keep _ ht.1 ht.2.1 ht.2.2]
  · rw [if_neg hp, if_neg hp]

end Copying

/-- The address of the page bit `n` stands for. -/
theorem toNat_userAddr {n : Nat} (hn : n < userPages) :
    (BitVec.ofNat 32 n * pgSize + BitVec.ofNat 32 userVaddrStart).toNat = (userPage₀ + n) * 4096 := by
  have hsize : pgSize.toNat = 4096 := rfl
  have hstart : (BitVec.ofNat 32 userVaddrStart).toNat = 0x8048000 := rfl
  rw [userPages_eq] at hn
  rw [BitVec.toNat_add, BitVec.toNat_mul, BitVec.toNat_ofNat, hsize, hstart, userPage₀_eq]
  omega

/-- A page the directory does not map has no entry or no table. -/
theorem frameAt_eq_none {m : Machine} {d q : Nat} (h : ¬ (frameAt m d q).isSome = true)
    (hp : isPresent (m.phys d (q / 1024)) = true) :
    isPresent (m.phys (frameOf (m.phys d (q / 1024))) (q % 1024)) = false := by
  by_contra hc
  rw [Bool.not_eq_false] at hc
  rw [frameAt, if_pos hp, if_pos hc] at h
  exact h rfl

theorem frameAt_of_present {m : Machine} {d q : Nat}
    (hp : isPresent (m.phys d (q / 1024)) = true)
    (hp' : isPresent (m.phys (frameOf (m.phys d (q / 1024))) (q % 1024)) = true) :
    frameAt m d q = some (frameOf (m.phys (frameOf (m.phys d (q / 1024))) (q % 1024))) := by
  rw [frameAt, if_pos hp, if_pos hp']

/-- Memory when the child's page is about to be entered: the contents are in
    frame `B`, the child's directory is active, and frame `j` of the user pool
    is taken. -/
def midCopy (m : Machine) (D B j : Nat) (page : Nat → Word) : Machine :=
  { m.setFrame B page with cr3 := D }.setPool
    { m.userPool with poolBitmap := bitmapSet m.userPool.poolBitmap j true } .user

/-- The physical address of frame `j` of the user pool. -/
def userFrame (m : Machine) (j : Nat) : Word := BitVec.ofNat 32 j * pgSize + m.userPool.phyAddrStart

theorem toNat_userFrame {m : Machine} (hu : UserLayout m) {j : Nat} (hj : j < userFrames m) :
    (userFrame m j).toNat = (userBase m + j) * 4096 := by
  have hal := hu.aligned
  have hfit := hu.fits
  have hsize : pgSize.toNat = 4096 := rfl
  rw [userFrame, BitVec.toNat_add, BitVec.toNat_mul, BitVec.toNat_ofNat, hsize, userBase]
  omega

/-- A frame of the user pool lies behind those of the kernel pool. -/
theorem kernel_lt_userBase {m : Machine} (hl : PoolLayout m) {j : Nat} (hj : j < kernelFrames m) :
    0x200 + j < userBase m := by
  have hlt := hl.frame_lt hj
  unfold userBase
  omega

/-- The child's directory and the buffer lie behind the page tables of the
    kernel. -/
theorem LoopStart.frames_ge {m₁ : Machine} {pa da ba D B : Nat} (hs : LoopStart m₁ pa da ba D B) :
    0x200 ≤ B ∧ 0x200 ≤ D := by
  rcases hs.map.mapped ba hs.buf.1 hs.buf.2.1 with ⟨jb, _, hfb, _⟩
  rcases hs.map.mapped da hs.child.1 hs.child.2.1 with ⟨jd, _, hfd, _⟩
  rw [hs.buf.2.2] at hfb
  rw [hs.child.2.2] at hfd
  omega

namespace Copying

variable {m₁ m mc : Machine} {pa da ba D B n q j : Nat} {bit : Nat → Bool} {page : Nat → Word}

theorem userLayout (h : Copying m₁ m D B bit n) (hs : LoopStart m₁ pa da ba D B) :
    UserLayout m := by
  have hstart : m.userPool.phyAddrStart = m₁.userPool.phyAddrStart := h.pools.up_start
  have hlen : m.userPool.poolBitmap.btmpBytesLen = m₁.userPool.poolBitmap.btmpBytesLen :=
    h.pools.up_len
  refine ⟨?_, ?_⟩
  · rw [hstart]
    exact hs.user.aligned
  · rw [hstart, userFrames, hlen]
    exact hs.user.fits

theorem kernelFrames_eq (h : Copying m₁ m D B bit n) : kernelFrames m = kernelFrames m₁ := by
  have hlen : m.kernelPool.poolBitmap.btmpBytesLen = m₁.kernelPool.poolBitmap.btmpBytesLen :=
    h.pools.kp_len
  rw [kernelFrames, hlen, kernelFrames]

/-- The child's directory is a frame of the kernel pool. -/
theorem child_frame (h : Copying m₁ m D B bit n) (hs : LoopStart m₁ pa da ba D B) :
    ∃ k, k < kernelFrames m ∧ D = 0x200 + k := by
  rcases hs.map.mapped da hs.child.1 hs.child.2.1 with ⟨k, hk, hfk, _⟩
  rw [hs.child.2.2] at hfk
  exact ⟨k, by rw [h.kernelFrames_eq]; exact hk, hfk⟩

theorem midCopy_half (h : Copying m₁ m D B bit n) (hs : LoopStart m₁ pa da ba D B) :
    KernelHalf (midCopy m D B j page) := by
  have hset : KernelHalf (({ m with cr3 := D } : Machine).setFrame B page) :=
    h.half.setFrame page (Ne.symm hs.frames_ne.2.2)
  exact ⟨⟨hset.self.present, hset.self.frame⟩, hset.table, hset.cr3_ne⟩

theorem midCopy_dir (hs : LoopStart m₁ pa da ba D B) :
    (midCopy m D B j page).phys D = m.phys D :=
  setFrame_phys_of_ne page hs.frames_ne.2.2

/-- Nothing but a bit of the user pool has been taken, so the child's
    directory is still in use. -/
theorem midCopy_inUse (h : Copying m₁ m D B bit n) (hs : LoopStart m₁ pa da ba D B) :
    InUse (midCopy m D B j page) D := by
  have hD := h.inUse hs.child_inUse
  refine ⟨hD.1, ?_⟩
  rintro (⟨k, hk, hDk, hck⟩ | ⟨k, hk, hDk, hck⟩)
  · exact hD.2 (Or.inl ⟨k, hk, hDk, hck⟩)
  · rw [show (midCopy m D B j page).userPool.poolBitmap = bitmapSet m.userPool.poolBitmap j true
      from rfl, bitmapScanTest_set] at hck
    by_cases hkj : k = j
    · rw [if_pos hkj] at hck
      cases hck
    · rw [if_neg hkj] at hck
      exact hD.2 (Or.inr ⟨k, hk, hDk, hck⟩)

/-- The child's page is entered, in a table it has or in a new one. -/
theorem midCopy_add (h : Copying m₁ m D B bit n) (hs : LoopStart m₁ pa da ba D B) {v : Word}
    (hvq : v.toNat / 4096 = q) (hq : q < 0xc0000) (habs : ¬ (frameAt m D q).isSome = true)
    (hkp : isPresent (m.phys D (q / 1024)) = false → 0 < freeCount m.kernelPool.poolBitmap) :
    ∃ mc, pageTableAdd (midCopy m D B j page) v (userFrame m j) = .ok mc ∧
      Mapped (midCopy m D B j page) mc q (userFrame m j) := by
  have hhalf : KernelHalf (midCopy m D B j page) := h.midCopy_half hs
  have hcr3 : (midCopy m D B j page).cr3 = D := rfl
  by_cases hpd : isPresent (m.phys D (q / 1024)) = true
  · have htab := (h.table (q / 1024) (by omega) hpd).1
    have hTB : frameOf (m.phys D (q / 1024)) ≠ B :=
      fun hc => hs.buf_inUse.2 (Or.inl (hc ▸ htab))
    have hT : (midCopy m D B j page).phys (frameOf (m.phys D (q / 1024)))
        = m.phys (frameOf (m.phys D (q / 1024))) := setFrame_phys_of_ne page hTB
    refine pageTableAdd_old hhalf.self hvq ?_ ?_ ?_
    · rw [hcr3, midCopy_dir hs]
      exact hpd
    · rw [hcr3, midCopy_dir hs]
      exact fun hc => hs.child_inUse.2 (Or.inl (hc ▸ htab))
    · rw [hcr3, midCopy_dir hs, hT]
      exact frameAt_eq_none habs hpd
  · rw [Bool.not_eq_true] at hpd
    have hl := h.map.layout
    have hl₀ : PoolLayout (midCopy m D B j page) :=
      ⟨hl.kp_start, hl.kp_end, hl.vaddr_start, hl.vaddr_len⟩
    refine pageTableAdd_new hhalf.self hl₀ hvq (by omega) ?_ (h.midCopy_inUse hs) (hkp hpd)
    rw [hcr3, midCopy_dir hs]
    exact hpd

/-- The table the page is entered in is neither a page table of the kernel nor
    the buffer. -/
theorem midCopy_table (h : Copying m₁ m D B bit n) (hs : LoopStart m₁ pa da ba D B)
    (hq : q < 0xc0000) (hmapped : Mapped (midCopy m D B j page) mc q (userFrame m j)) :
    0x200 ≤ frameOf (mc.phys D (q / 1024)) ∧ B ≠ frameOf (mc.phys D (q / 1024)) := by
  rcases hmapped.table with ⟨hpd, hsame, _⟩ | ⟨_, k, hk, hTk, hck, _⟩
  · change isPresent ((midCopy m D B j page).phys D (q / 1024)) = true at hpd
    change mc.phys D (q / 1024) = (midCopy m D B j page).phys D (q / 1024) at hsame
    rw [midCopy_dir hs] at hpd hsame
    rw [hsame]
    have htab := (h.table (q / 1024) (by omega) hpd).1
    refine ⟨?_, fun hc => hs.buf_inUse.2 (Or.inl (hc ▸ htab))⟩
    rcases htab with ⟨k, _, hk, _⟩
    omega
  · change frameOf (mc.phys D (q / 1024)) = _ at hTk
    rw [hTk]
    exact ⟨by omega, fun hc => (h.inUse hs.buf_inUse).2 (Or.inl ⟨k, hk, hc, hck⟩)⟩

/-- The kernel's half of memory when the page has been entered. -/
theorem midCopy_kernel (h : Copying m₁ m D B bit n) (hs : LoopStart m₁ pa da ba D B)
    (hq : q < 0xc0000) (hmapped : Mapped (midCopy m D B j page) mc q (userFrame m j)) :
    KernelMap mc ∧ (∀ i, i ≤ 32768 → kernelPte mc i = kernelPte m i) ∧
      kernelPages mc = kernelPages m := by
  have hge := hs.frames_ge
  have hT := (h.midCopy_table hs hq hmapped).1
  have hmid : ∀ f, f < 0x200 → (midCopy m D B j page).phys f = m.phys f :=
    fun f hf => setFrame_phys_of_ne page (by omega)
  have hmap : KernelMap (midCopy m D B j page) :=
    h.map.congr (h.midCopy_half hs) rfl rfl rfl (fun _ hk => hk) rfl (fun f _ hf => hmid f hf)
  refine ⟨hmapped.kernelMap hmap hq hge.2 hT, fun i hi => ?_, ?_⟩
  · exact kernelPte_congr (fun f _ hf => (hmapped.tables hge.2 hT hf).trans (hmid f hf)) hi
  · rw [kernelPages, hmapped.kernelVaddr]
    rfl

end Copying

/-- The first frame of the user pool lies behind the page tables of the kernel. -/
theorem userBase_ge {m : Machine} (hl : PoolLayout m) : 0x200 ≤ userBase m := by
  have hend := hl.kp_end
  unfold userBase
  omega

/-- `get_a_page_without_opvaddrbitmap` takes frame `j` of the user pool and
    enters it. -/
theorem getAPage_user {m mc : Machine} {j : Nat} {v : Word} (hl : PoolLayout m) (hul : UserLayout m)
    (hj : j < userFrames m)
    (hpalloc : palloc m.userPool = .ok ({ m.userPool with
      poolBitmap := bitmapSet m.userPool.poolBitmap j true }, userFrame m j))
    (hadd : pageTableAdd (m.setPool { m.userPool with
      poolBitmap := bitmapSet m.userPool.poolBitmap j true } .user) v (userFrame m j) = .ok mc) :
    getAPageWithoutOpvaddrbitmap m .user v = .ok (mc, v) := by
  have hz : userFrame m j ≠ 0 := by
    intro hc
    have hnat := toNat_userFrame hul hj
    have hge := userBase_ge hl
    have hzero : (0 : Word).toNat = 0 := rfl
    rw [hc] at hnat
    omega
  rw [getAPageWithoutOpvaddrbitmap, show m.pool .user = m.userPool from rfl, hpalloc, ok_bind]
  dsimp only
  rw [if_neg hz, hadd, ok_bind]

/-- One page of `copy_body_stack3`, as the sequence of memories it passes
    through. -/
theorem copyPage_run {m₁ m : Machine} {pa da ba D B n : Nat} {bit : Nat → Bool}
    (h : Copying m₁ m D B bit n) (hs : LoopStart m₁ pa da ba D B) {child parent : ProcMem}
    (hc : child.pgdir = pageAddr da) (hp : parent.pgdir = pageAddr pa) {v : Word} {q w : Nat}
    (hv : v.toNat = q * 4096) (hq : q < 0xc0000) (hw : frameAt m₁ m₁.cr3 q = some w)
    (habs : ¬ (frameAt m D q).isSome = true) (hup : 0 < freeCount m.userPool.poolBitmap)
    (hkp : isPresent (m.phys D (q / 1024)) = false → 0 < freeCount m.kernelPool.poolBitmap) :
    ∃ mc m' j page page', copyPage m child parent (pageAddr ba) v = .ok m' ∧
      j < userFrames m ∧ bitmapScanTest m.userPool.poolBitmap j = false ∧
      (∀ i, i < 1024 → page i = m.phys w i) ∧ (∀ i, i < 1024 → page' i = page i) ∧
      Mapped (midCopy m D B j page) mc q (userFrame m j) ∧
      m' = { mc.setFrame (userBase m + j) page' with cr3 := m.cr3 } := by
  have hmap := h.map
  have hl := hmap.layout
  have hne := hs.frames_ne
  have hge := hs.frames_ge
  have hlen := h.pages_eq
  have hle : kernelPages m₁ ≤ 32768 := hs.map.layout.pages_le
  have hba := hs.buf.1
  have hda := hs.child.1
  have hpa := hs.dir.1
  have hpteB : kernelPte m ba = kernelPte m₁ ba := h.kernelPte_eq (by omega)
  have hvw : wordIdx v = 0 := by
    rw [wordIdx_eq, hv]
    omega
  have hvq : v.toNat / 4096 = q := by
    rw [hv]
    omega
  -- Read the parent's page.
  have hsrc : walk m v = some w := by
    rw [walk_eq_frameAt, hvq, h.cr3, h.parent_eq hs hq, hw]
  have hdst : walk m (pageAddr ba) = some B := by
    rw [walk_kernel hmap (by omega) (by rw [hpteB]; exact hs.buf.2.1), hpteB, hs.buf.2.2]
  rcases memcpyIn_page hsrc hdst hvw (wordIdx_pageAddr (by omega)) with ⟨page, hcopy, hpage⟩
  have hmapa : KernelMap (m.setFrame B page) :=
    hmap.setFrame _ hge.1 (by rw [h.cr3]; exact Ne.symm hne.2.1)
  -- Switch to the child's directory.
  have hpteDa : kernelPte (m.setFrame B page) da = kernelPte m₁ da := by
    rw [kernelPte_setFrame _ hge.1 (by omega), h.kernelPte_eq (by omega)]
  rcases hmapa.mapped da (show da < kernelPages m by omega)
    (by rw [hpteDa]; exact hs.child.2.1) with ⟨jd, hjd, hfd, _⟩
  have hact := pageDirActivate_kernel hmapa.half hmapa.layout (a := da) (by omega) hjd hfd
  rw [hpteDa, hs.child.2.2] at hact
  -- Take a frame of the user pool, and enter it.
  rcases palloc_free hup with ⟨j, hj, hclear, hpalloc⟩
  obtain ⟨mc, hadd, hmapped⟩ : ∃ mc, pageTableAdd (midCopy m D B j page) v (userFrame m j) = .ok mc ∧
      Mapped (midCopy m D B j page) mc q (userFrame m j) := h.midCopy_add hs hvq hq habs hkp
  have hul := h.userLayout hs
  have hget : getAPageWithoutOpvaddrbitmap { m.setFrame B page with cr3 := D } .user v
      = .ok (mc, v) :=
    getAPage_user ⟨hl.kp_start, hl.kp_end, hl.vaddr_start, hl.vaddr_len⟩ ⟨hul.aligned, hul.fits⟩ hj
      hpalloc hadd
  rcases h.midCopy_kernel hs hq hmapped with ⟨hmapc, hptec, hlenc⟩
  -- Write the child's page.
  have hnat := toNat_userFrame hul hj
  have hcr3c : mc.cr3 = D := hmapped.cr3
  have hdstc : walk mc v = some (userBase m + j) := by
    have hpresE : isPresent (entryFor (userFrame m j)) = true := isPresent_entryFor (by omega)
    have hframeE : frameOf (entryFor (userFrame m j)) = userBase m + j := by
      rw [frameOf_entryFor (by omega), hnat]
      omega
    have hpde : isPresent (mc.phys D (q / 1024)) = true := hmapped.present
    have hpte : mc.phys (frameOf (mc.phys D (q / 1024))) (q % 1024) = entryFor (userFrame m j) :=
      hmapped.pte
    rw [walk_eq_frameAt, hvq, hcr3c, frameAt_of_present hpde (by rw [hpte]; exact hpresE), hpte,
      hframeE]
  have hsrcc : walk mc (pageAddr ba) = some B := by
    rw [walk_kernel hmapc (by omega) (by rw [hptec _ (by omega), hpteB]; exact hs.buf.2.1),
      hptec _ (by omega), hpteB, hs.buf.2.2]
  rcases memcpyIn_page hsrcc hdstc (wordIdx_pageAddr (by omega)) hvw with ⟨page', hcopy', hpage'⟩
  have hBc : mc.phys B = page := by
    rw [hmapped.phys B (Ne.symm hne.2.2) (h.midCopy_table hs hq hmapped).2]
    exact setFrame_phys_self _ _ _
  -- Switch back.
  have hbase := userBase_ge hl
  have huD : userBase m + j ≠ mc.cr3 := by
    rcases h.child_frame hs with ⟨k, hk, hDk⟩
    have hlt := kernel_lt_userBase hl hk
    omega
  have hmapd : KernelMap (mc.setFrame (userBase m + j) page') :=
    hmapc.setFrame _ (by omega) huD
  have hpted : kernelPte (mc.setFrame (userBase m + j) page') pa = kernelPte m₁ pa := by
    rw [kernelPte_setFrame _ (by omega) (by omega), hptec _ (by omega), h.kernelPte_eq (by omega)]
  rcases hmapd.mapped pa (show pa < kernelPages mc by omega)
    (by rw [hpted]; exact hs.dir.2.1) with ⟨jp, hjp, hfp, _⟩
  have hback := pageDirActivate_kernel hmapd.half hmapd.layout (a := pa) (by omega) hjp hfp
  rw [hpted, hs.dir.2.2, ← h.cr3] at hback
  refine ⟨mc, _, j, page, page', ?_, hj, hclear, hpage, ?_, hmapped, rfl⟩
  · rw [copyPage, hcopy, ok_bind, hc, hact, ok_bind, hget, ok_bind]
    dsimp only
    rw [hcopy', ok_bind, hp, hback]
  · intro i hi
    rw [hpage' i hi, hBc]

/-- A bit that is clear asks for nothing. -/
theorem Copying.skip {m₁ m : Machine} {D B n : Nat} {bit : Nat → Bool}
    (h : Copying m₁ m D B bit n) (hbit : bit n = false) : Copying m₁ m D B bit (n + 1) := by
  -- What the copied pages are does not change, since page `n` is not one of them.
  have hstep : ∀ p : Nat → Prop, (∃ i, i < n + 1 ∧ bit i = true ∧ p i) ↔
      ∃ i, i < n ∧ bit i = true ∧ p i := by
    intro p
    constructor
    · rintro ⟨i, hi, hb, hpi⟩
      have hne : i ≠ n := by
        rintro rfl
        rw [hbit] at hb
        cases hb
      exact ⟨i, by omega, hb, hpi⟩
    · rintro ⟨i, hi, hb, hpi⟩
      exact ⟨i, by omega, hb, hpi⟩
  have hpages : pagesNeeded bit (n + 1) = pagesNeeded bit n := by
    rw [pagesNeeded, hbit]
    rfl
  have htables : tablesNeeded bit (n + 1) = tablesNeeded bit n := by
    rw [tablesNeeded, if_neg]
    · rfl
    · intro hc
      rw [hc.1] at hbit
      cases hbit
  refine { h with table_iff := ?_, page := ?_, kcount := ?_, ucount := ?_ }
  · intro e he
    rw [h.table_iff e he]
    exact (hstep _).symm
  · intro q hq
    rw [h.page q hq]
    exact (hstep _).symm
  · rw [htables]
    exact h.kcount
  · rw [hpages]
    exact h.ucount

/-- What one page changes: the child's page `q` is in frame `u`, entered in
    table `T`, and the frames that hold neither are as they were. -/
structure PageCopied (m m' : Machine) (D B q u T : Nat) (page : Nat → Word) : Prop where
  here : frameAt m' D q = some u
  there : ∀ q', q' < 0xc0000 → q' ≠ q → frameAt m' D q' = frameAt m D q'
  page : ∀ i, i < 1024 → m'.phys u i = page i
  dir : ∀ e, e ≠ q / 1024 → m'.phys D e = m.phys D e
  present : isPresent (m'.phys D (q / 1024)) = true
  table : frameOf (m'.phys D (q / 1024)) = T
  rest : ∀ f, f ≠ u → f ≠ D → f ≠ B → f ≠ T → m'.phys f = m.phys f

/-- The table a page is entered in, whether it was there or is new: a kernel
    frame that was free when the loop began. -/
theorem Copying.mapped_table {m₁ m mc : Machine} {pa da ba D B n j q : Nat} {bit : Nat → Bool}
    (h : Copying m₁ m D B bit n) (hs : LoopStart m₁ pa da ba D B) {page : Nat → Word}
    (hq : q < 0xc0000) (hmapped : Mapped (midCopy m D B j page) mc q (userFrame m j)) :
    ∃ k, k < kernelFrames m ∧ frameOf (mc.phys D (q / 1024)) = 0x200 + k ∧
      KernelFree m₁ (0x200 + k) ∧
      (isPresent (m.phys D (q / 1024)) = true ∧ 0x200 + k = frameOf (m.phys D (q / 1024)) ∧
          mc.kernelPool.poolBitmap = m.kernelPool.poolBitmap ∧
          (∀ x, x ≠ q % 1024 → mc.phys (0x200 + k) x = m.phys (0x200 + k) x) ∨
        isPresent (m.phys D (q / 1024)) = false ∧
          bitmapScanTest m.kernelPool.poolBitmap k = false ∧
          mc.kernelPool.poolBitmap = bitmapSet m.kernelPool.poolBitmap k true ∧
          ∀ x, x ≠ q % 1024 → mc.phys (0x200 + k) x = 0) := by
  have hcr3 : (midCopy m D B j page).cr3 = D := rfl
  have hklen := h.kernelFrames_eq
  rcases hmapped.table with ⟨hpd, hsame, hpool, hold⟩ | ⟨hpd, k, hk, hTk, hck, hpool, hzero⟩
  · rw [hcr3, midCopy_dir hs] at hpd hsame hold
    rcases (h.table (q / 1024) (by omega) hpd).1 with ⟨k, hk, hTk, hck⟩
    have hTB : 0x200 + k ≠ B := fun hc => hs.buf_inUse.2 (Or.inl ⟨k, hk, hc.symm, hck⟩)
    refine ⟨k, by omega, by rw [hsame, hTk], ⟨k, hk, rfl, hck⟩,
      Or.inl ⟨hpd, hTk.symm, hpool, fun x hx => ?_⟩⟩
    rw [hTk] at hold
    rw [hold x hx]
    exact congrFun (setFrame_phys_of_ne page hTB) x
  · rw [hcr3, midCopy_dir hs] at hpd
    exact ⟨k, hk, hTk, h.pools.kernelFree ⟨k, hk, rfl, hck⟩, Or.inr ⟨hpd, hck, hpool, hzero⟩⟩

/-- A kernel frame that was free is not the frame of a user page, nor one of the
    two pages that the loop writes to. -/
theorem Copying.kernelFree_apart {m₁ m : Machine} {pa da ba D B n f : Nat} {bit : Nat → Bool}
    (h : Copying m₁ m D B bit n) (hs : LoopStart m₁ pa da ba D B) (hf : KernelFree m₁ f) (j : Nat) :
    f ≠ userBase m + j ∧ f ≠ D ∧ f ≠ B := by
  refine ⟨?_, fun hc => hs.child_inUse.2 (Or.inl (hc ▸ hf)),
    fun hc => hs.buf_inUse.2 (Or.inl (hc ▸ hf))⟩
  have hklen := h.kernelFrames_eq
  rcases hf with ⟨i, hi, hfi, _⟩
  have hlt := kernel_lt_userBase h.map.layout (j := i) (by omega)
  omega

/-- The child's directory is a kernel page. -/
theorem Copying.dir_apart {m₁ m : Machine} {pa da ba D B n : Nat} {bit : Nat → Bool}
    (h : Copying m₁ m D B bit n) (hs : LoopStart m₁ pa da ba D B) (j : Nat) :
    D ≠ userBase m + j := by
  have hklen := h.kernelFrames_eq
  rcases hs.map.mapped da hs.child.1 hs.child.2.1 with ⟨i, hi, hfi, _⟩
  have hlt := kernel_lt_userBase h.map.layout (j := i) (by omega)
  rw [hs.child.2.2] at hfi
  omega

/-- The child's tables are kernel frames that the loop has taken, the frames of
    its pages are user frames. -/
theorem copyPage_copied {m₁ m mc m' : Machine} {pa da ba D B n j q : Nat} {bit : Nat → Bool}
    (h : Copying m₁ m D B bit n) (hs : LoopStart m₁ pa da ba D B) {page page' : Nat → Word}
    (hq : q < 0xc0000) (hj : j < userFrames m)
    (hpage : ∀ i, i < 1024 → page' i = page i) (huser : UserLayout m)
    (hmapped : Mapped (midCopy m D B j page) mc q (userFrame m j))
    (hm' : m' = { mc.setFrame (userBase m + j) page' with cr3 := m.cr3 }) :
    ∃ T k, k < kernelFrames m ∧ T = 0x200 + k ∧ KernelFree m₁ T ∧
      PageCopied m m' D B q (userBase m + j) T page ∧
      (isPresent (m.phys D (q / 1024)) = true ∧ T = frameOf (m.phys D (q / 1024)) ∧
          m'.kernelPool.poolBitmap = m.kernelPool.poolBitmap ∨
        isPresent (m.phys D (q / 1024)) = false ∧
          bitmapScanTest m.kernelPool.poolBitmap k = false ∧
          m'.kernelPool.poolBitmap = bitmapSet m.kernelPool.poolBitmap k true) := by
  have hne := hs.frames_ne
  have hnat := toNat_userFrame huser hj
  have hcr3 : (midCopy m D B j page).cr3 = D := rfl
  have hmid : ∀ f, f ≠ B → (midCopy m D B j page).phys f = m.phys f :=
    fun f hf => setFrame_phys_of_ne page hf
  have hmidD := hmid D hne.2.2
  have hpresE : isPresent (entryFor (userFrame m j)) = true := isPresent_entryFor (by omega)
  have hframeE : frameOf (entryFor (userFrame m j)) = userBase m + j := by
    rw [frameOf_entryFor (by omega), hnat]
    omega
  rcases h.mapped_table hs hq hmapped with ⟨k, hk, hT, hTfree, hcase⟩
  obtain ⟨T, hTk⟩ : ∃ T, T = 0x200 + k := ⟨_, rfl⟩
  rw [← hTk] at hT hTfree hcase
  replace hT := hT.symm
  rcases h.kernelFree_apart hs hTfree j with ⟨hTu, -, -⟩
  have hDu := h.dir_apart hs j
  -- After the mapping, only the frame of the page is written.
  have hfar : ∀ f, f ≠ userBase m + j → m'.phys f = mc.phys f := by
    intro f hf
    rw [hm']
    exact setFrame_phys_of_ne _ hf
  have hdirw : ∀ e, e ≠ q / 1024 → m'.phys D e = m.phys D e := by
    intro e he
    have hd := hmapped.dir e he
    rw [hcr3, hmidD] at hd
    rw [hfar D hDu, hd]
  have hpres : isPresent (m'.phys D (q / 1024)) = true := by
    rw [hfar D hDu]
    exact hmapped.present
  have hTm' : frameOf (m'.phys D (q / 1024)) = T := by rw [hfar D hDu, hT]
  have hrest : ∀ f, f ≠ userBase m + j → f ≠ D → f ≠ B → f ≠ T → m'.phys f = m.phys f := by
    intro f hfu hfD hfB hfT
    rw [hfar f hfu, hmapped.phys f (by rw [hcr3]; exact hfD) (by rw [hcr3, ← hT]; exact hfT),
      hmid f hfB]
  refine ⟨T, k, hk, hTk, hTfree, ⟨?_, ?_, ?_, hdirw, hpres, hTm', hrest⟩, ?_⟩
  · have hpte : m'.phys T (q % 1024) = entryFor (userFrame m j) := by
      rw [hfar T hTu, hT]
      exact hmapped.pte
    rw [frameAt_of_present hpres (by rw [hTm', hpte]; exact hpresE), hTm', hpte, hframeE]
  · intro q' hq' hqq
    unfold frameAt
    by_cases he : q' / 1024 = q / 1024
    · -- The same table, another entry of it.
      have hx : q' % 1024 ≠ q % 1024 := by omega
      rw [he, if_pos hpres, hTm', hfar T hTu]
      rcases hcase with ⟨hpd, hTold, _, hold⟩ | ⟨hpd, _, _, hzero⟩
      · rw [if_pos hpd, ← hTold, hold _ hx]
      · have hno : isPresent (mc.phys T (q' % 1024)) = false := by
          rw [hzero _ hx]
          rfl
        rw [if_neg (by rw [hno]; decide), if_neg (by rw [hpd]; decide)]
    · rw [hdirw _ he]
      -- Another table, which is another frame: the tables are apart.
      by_cases hpd : isPresent (m.phys D (q' / 1024)) = true
      · have htab := h.table (q' / 1024) (by omega) hpd
        have hT'T : frameOf (m.phys D (q' / 1024)) ≠ T := by
          intro hc
          rcases hcase with ⟨hpe, hTold, _⟩ | ⟨_, hck, _⟩
          · exact he (h.table_inj _ _ (by omega) (by omega) hpd hpe (hc.trans hTold))
          · exact htab.2 ⟨k, hk, by rw [hc, hTk], hck⟩
        rcases h.kernelFree_apart hs htab.1 j with ⟨hT'u, hT'D, hT'B⟩
        rw [hrest _ hT'u hT'D hT'B hT'T]
      · rw [if_neg hpd, if_neg hpd]
  · intro i hi
    rw [hm']
    show (mc.setFrame (userBase m + j) page').phys (userBase m + j) i = page i
    rw [setFrame_phys_self]
    exact hpage i hi
  · have hpool' : m'.kernelPool.poolBitmap = mc.kernelPool.poolBitmap := by
      rw [hm']
      rfl
    rw [hpool']
    rcases hcase with ⟨hpd, hTold, hpool, _⟩ | ⟨hpd, hck, hpool, _⟩
    · exact Or.inl ⟨hpd, hTold, hpool⟩
    · exact Or.inr ⟨hpd, hck, hpool⟩

/-- What one page changes, with frame `j` of the user pool for the page and
    frame `k` of the kernel pool for its table. -/
structure PageStep (m₁ m m' : Machine) (D B q j k : Nat) (page : Nat → Word) : Prop where
  copied : PageCopied m m' D B q (userBase m + j) (0x200 + k) page
  slot : j < userFrames m ∧ bitmapScanTest m.userPool.poolBitmap j = false
  frame : k < kernelFrames m ∧ KernelFree m₁ (0x200 + k)
  table : isPresent (m.phys D (q / 1024)) = true ∧ 0x200 + k = frameOf (m.phys D (q / 1024)) ∧
      m'.kernelPool.poolBitmap = m.kernelPool.poolBitmap ∨
    isPresent (m.phys D (q / 1024)) = false ∧ bitmapScanTest m.kernelPool.poolBitmap k = false ∧
      m'.kernelPool.poolBitmap = bitmapSet m.kernelPool.poolBitmap k true
  userPool : m'.userPool = { m.userPool with
    poolBitmap := bitmapSet m.userPool.poolBitmap j true }
  vaddr : m'.kernelVaddr = m.kernelVaddr
  start : m'.kernelPool.phyAddrStart = m.kernelPool.phyAddrStart
  cr3 : m'.cr3 = m.cr3

/-- A bit that is set asks for a page behind those of the bits before it. -/
theorem bits_succ {bit : Nat → Bool} {n : Nat} (hbit : bit n = true) (r : Nat → Prop) :
    (∃ i, i < n + 1 ∧ bit i = true ∧ r i) ↔ (∃ i, i < n ∧ bit i = true ∧ r i) ∨ r n := by
  constructor
  · rintro ⟨i, hi, hbi, hri⟩
    by_cases hin : i = n
    · exact Or.inr (hin ▸ hri)
    · exact Or.inl ⟨i, by omega, hbi, hri⟩
  · rintro (⟨i, hi, hbi, hri⟩ | hrn)
    · exact ⟨i, by omega, hbi, hri⟩
    · exact ⟨n, by omega, hbit, hrn⟩

namespace PageStep

variable {m₁ m m' : Machine} {pa da ba D B q j k n : Nat} {page : Nat → Word} {bit : Nat → Bool}

theorem userFree (st : PageStep m₁ m m' D B q j k page) : UserFree m (userBase m + j) :=
  ⟨j, st.slot.1, rfl, st.slot.2⟩

/-- Bits are set in the pools and none is cleared. -/
theorem grew (st : PageStep m₁ m m' D B q j k page) : Grew m { m' with phys := m.phys } := by
  refine ⟨?_, ?_, ?_, ?_, ?_, fun _ _ => rfl⟩
  · rcases st.table with ⟨_, _, hpool⟩ | ⟨_, _, hpool⟩
    · exact congrArg _ hpool
    · exact (congrArg _ hpool).trans (bitmapSet_len _ _ _)
  · show m'.userPool.phyAddrStart = m.userPool.phyAddrStart
    rw [st.userPool]
  · show m'.userPool.poolBitmap.btmpBytesLen = m.userPool.poolBitmap.btmpBytesLen
    rw [st.userPool]
    rfl
  · intro i hi
    show bitmapScanTest m'.kernelPool.poolBitmap i = true
    -- The kernel pool has changed only if a table was taken.
    rcases st.table with ⟨_, _, hpool⟩ | ⟨_, _, hpool⟩
    · rw [hpool]
      exact hi
    · rw [hpool, bitmapScanTest_set]
      by_cases hik : i = k
      · rw [if_pos hik]
      · rw [if_neg hik]
        exact hi
  · intro i hi
    show bitmapScanTest m'.userPool.poolBitmap i = true
    rw [st.userPool]
    show bitmapScanTest (bitmapSet m.userPool.poolBitmap j true) i = true
    rw [bitmapScanTest_set]
    by_cases hij : i = j
    · rw [if_pos hij]
    · rw [if_neg hij]
      exact hi

/-- The page tables of the kernel are as they were. -/
theorem tables (st : PageStep m₁ m m' D B q j k page) (h : Copying m₁ m D B bit n)
    (hs : LoopStart m₁ pa da ba D B) {f : Nat} (h2 : f < 0x200) : m'.phys f = m.phys f := by
  have hbase := userBase_ge h.map.layout
  have hge := hs.frames_ge
  exact st.copied.rest f (by omega) (by omega) (by omega) (by omega)

/-- So is every frame that was in use when the loop began, the child's
    directory and the buffer apart. -/
theorem keep (st : PageStep m₁ m m' D B q j k page) (h : Copying m₁ m D B bit n) {f : Nat}
    (hf : InUse m₁ f) (hfD : f ≠ D) (hfB : f ≠ B) : m'.phys f = m.phys f := by
  refine st.copied.rest f ?_ hfD hfB ?_
  · intro hfu
    rw [hfu] at hf
    exact hf.2 (Or.inr (h.pools.userFree st.userFree))
  · intro hfT
    rw [hfT] at hf
    exact hf.2 (Or.inl st.frame.2)

theorem kernelMap (st : PageStep m₁ m m' D B q j k page) (h : Copying m₁ m D B bit n)
    (hs : LoopStart m₁ pa da ba D B) : KernelMap m' := by
  have hdir : m'.phys m.cr3 = m.phys m.cr3 := by
    rw [h.cr3]
    exact st.keep h hs.parent_inUse hs.frames_ne.1 hs.frames_ne.2.1
  exact h.map.congr (h.map.half.ofDir st.cr3 (fun e _ => by rw [hdir])) st.vaddr st.start
    st.grew.kp_len st.grew.kernel (by rw [st.userPool]) (fun f _ hf => st.tables h hs hf)

/-- The kernel's half of the child's directory. -/
theorem childHalf (st : PageStep m₁ m m' D B q j k page) (h : Copying m₁ m D B bit n)
    (hq : q < 0xc0000) : KernelHalf { m' with cr3 := D } :=
  h.half.ofDir rfl (fun e he => st.copied.dir e (by omega))

theorem table_used (st : PageStep m₁ m m' D B q j k page) (h : Copying m₁ m D B bit n)
    (hq : q < 0xc0000) : ¬ KernelFree m' (0x200 + k) := by
  rintro ⟨i, _, hi, hci⟩
  have hik : i = k := by omega
  rcases st.table with ⟨hpd, hold, hpool⟩ | ⟨_, _, hpool⟩
  · rw [hpool, hik] at hci
    exact (h.table _ (by omega) hpd).2 ⟨k, st.frame.1, hold.symm, hci⟩
  · rw [hpool, hik, bitmapScanTest_set, if_pos rfl] at hci
    cases hci

theorem tables_taken (st : PageStep m₁ m m' D B q j k page) (h : Copying m₁ m D B bit n)
    (hq : q < 0xc0000) {e : Nat} (he : e < 768) (hpe : isPresent (m'.phys D e) = true) :
    KernelFree m₁ (frameOf (m'.phys D e)) ∧ ¬ KernelFree m' (frameOf (m'.phys D e)) := by
  by_cases hee : e = q / 1024
  · rw [hee, st.copied.table]
    exact ⟨st.frame.2, st.table_used h hq⟩
  · rw [st.copied.dir e hee] at hpe ⊢
    have ht := h.table e he hpe
    exact ⟨ht.1, fun hc => ht.2 (st.grew.kernelFree hc)⟩

theorem tables_inj (st : PageStep m₁ m m' D B q j k page) (h : Copying m₁ m D B bit n)
    (hq : q < 0xc0000) {e e' : Nat} (he : e < 768) (he' : e' < 768)
    (hpe : isPresent (m'.phys D e) = true) (hpe' : isPresent (m'.phys D e') = true)
    (heq : frameOf (m'.phys D e) = frameOf (m'.phys D e')) : e = e' := by
  -- The table of this page is the new one or the one that was there.
  have hcross : ∀ e, e < 768 → e ≠ q / 1024 → isPresent (m.phys D e) = true →
      frameOf (m.phys D e) ≠ 0x200 + k := by
    intro e he hee hpe hc
    rcases st.table with ⟨hpd, hold, _⟩ | ⟨_, hck, _⟩
    · exact hee (h.table_inj _ _ he (by omega) hpe hpd (hc.trans hold))
    · exact (h.table e he hpe).2 ⟨k, st.frame.1, hc, hck⟩
  by_cases hee : e = q / 1024
  · by_cases hee' : e' = q / 1024
    · rw [hee, hee']
    · rw [st.copied.dir e' hee'] at hpe' heq
      rw [hee, st.copied.table] at heq
      exact absurd heq.symm (hcross e' he' hee' hpe')
  · rw [st.copied.dir e hee] at hpe heq
    by_cases hee' : e' = q / 1024
    · rw [hee', st.copied.table] at heq
      exact absurd heq (hcross e he hee hpe)
    · rw [st.copied.dir e' hee'] at hpe' heq
      exact h.table_inj e e' he he' hpe hpe' heq

theorem pages_taken (st : PageStep m₁ m m' D B q j k page) (h : Copying m₁ m D B bit n)
    {q' u : Nat} (hq' : q' < 0xc0000) (hu : frameAt m' D q' = some u) :
    UserFree m₁ u ∧ ¬ UserFree m' u := by
  by_cases hqq : q' = q
  · rw [hqq, st.copied.here, Option.some.injEq] at hu
    rw [← hu]
    refine ⟨h.pools.userFree st.userFree, ?_⟩
    rintro ⟨i, _, hi, hci⟩
    have hub : userBase m' = userBase m := by rw [userBase, st.userPool, userBase]
    have hij : i = j := by omega
    rw [st.userPool] at hci
    change bitmapScanTest (bitmapSet m.userPool.poolBitmap j true) i = false at hci
    rw [bitmapScanTest_set, if_pos hij] at hci
    cases hci
  · rw [st.copied.there q' hq' hqq] at hu
    have hfree := h.free q' u hq' hu
    exact ⟨hfree.1, fun hc => hfree.2 (st.grew.userFree hc)⟩

theorem pages_inj (st : PageStep m₁ m m' D B q j k page) (h : Copying m₁ m D B bit n)
    {q₁ q₂ u : Nat} (hq₁ : q₁ < 0xc0000) (hq₂ : q₂ < 0xc0000) (hu₁ : frameAt m' D q₁ = some u)
    (hu₂ : frameAt m' D q₂ = some u) : q₁ = q₂ := by
  -- Earlier pages lie in frames that were taken before this one.
  have hcross : ∀ q', q' < 0xc0000 → frameAt m D q' ≠ some (userBase m + j) :=
    fun q' hq' hc => (h.free q' _ hq' hc).2 st.userFree
  by_cases hqq : q₁ = q
  · by_cases hqq' : q₂ = q
    · rw [hqq, hqq']
    · rw [hqq, st.copied.here] at hu₁
      rw [st.copied.there q₂ hq₂ hqq', ← hu₁] at hu₂
      exact absurd hu₂ (hcross q₂ hq₂)
  · rw [st.copied.there q₁ hq₁ hqq] at hu₁
    by_cases hqq' : q₂ = q
    · rw [hqq', st.copied.here] at hu₂
      rw [← hu₂] at hu₁
      exact absurd hu₁ (hcross q₁ hq₁)
    · rw [st.copied.there q₂ hq₂ hqq'] at hu₂
      exact h.inj q₁ q₂ u hq₁ hq₂ hu₁ hu₂

/-- The pages that were copied before keep their contents. -/
theorem contents (st : PageStep m₁ m m' D B q j k page) (h : Copying m₁ m D B bit n)
    (hs : LoopStart m₁ pa da ba D B) {w₀ : Nat} (hw₀ : frameAt m₁ m₁.cr3 q = some w₀)
    (hq : q < 0xc0000) (hpage : ∀ i, i < 1024 → page i = m.phys w₀ i) {q' u w : Nat}
    (hq' : q' < 0xc0000) (hu : frameAt m' D q' = some u) (hw : frameAt m₁ m₁.cr3 q' = some w)
    {i : Nat} (hi : i < 1024) : m'.phys u i = m₁.phys w i := by
  by_cases hqq : q' = q
  · rw [hqq, st.copied.here, Option.some.injEq] at hu
    rw [hqq, hw₀, Option.some.injEq] at hw
    have hpg := hs.page q w₀ hq hw₀
    rw [← hu, ← hw, st.copied.page i hi, hpage i hi, h.keep w₀ hpg.1 hpg.2.1 hpg.2.2]
  · rw [st.copied.there q' hq' hqq] at hu
    have hfree := h.free q' u hq' hu
    have hu₀ : u ≠ userBase m + j := fun hc => hfree.2 (hc ▸ st.userFree)
    have huD : u ≠ D := fun hc => hs.child_inUse.2 (Or.inr (hc ▸ hfree.1))
    have huB : u ≠ B := fun hc => hs.buf_inUse.2 (Or.inr (hc ▸ hfree.1))
    have huT : u ≠ 0x200 + k := by
      rcases hfree.1 with ⟨i', _, hi', _⟩
      have hlt := kernel_lt_userBase h.map.layout st.frame.1
      have hub : userBase m = userBase m₁ := by
        rw [userBase, show m.userPool.phyAddrStart = m₁.userPool.phyAddrStart from
          h.pools.up_start, userBase]
      omega
    rw [st.copied.rest u hu₀ huD huB huT]
    exact h.content q' u w hq' hu hw i hi

/-- The invariant of the loop, one page further. -/
theorem copying (st : PageStep m₁ m m' D B q j k page) (h : Copying m₁ m D B bit n)
    (hs : LoopStart m₁ pa da ba D B) (hbit : bit n = true) (hqn : q = userPage₀ + n)
    (hq : q < 0xc0000) {w₀ : Nat} (hw₀ : frameAt m₁ m₁.cr3 q = some w₀)
    (hpage : ∀ i, i < 1024 → page i = m.phys w₀ i)
    (hfirst : isPresent (m.phys D (q / 1024)) = false ↔ FirstInTable bit n) :
    Copying m₁ m' D B bit (n + 1) := by
  have hgrew := st.grew
  refine
    { map := st.kernelMap h hs
      cr3 := st.cr3.trans h.cr3
      vaddr := st.vaddr.trans h.vaddr
      pools := ⟨hgrew.kp_len.trans h.pools.kp_len, hgrew.up_start.trans h.pools.up_start,
        hgrew.up_len.trans h.pools.up_len, fun i hi => hgrew.kernel i (h.pools.kernel i hi),
        fun i hi => hgrew.user i (h.pools.user i hi), fun _ _ => rfl⟩
      keep := fun f hf hfD hfB => (st.keep h hf hfD hfB).trans (h.keep f hf hfD hfB)
      tables := fun f h1 h2 => (st.tables h hs h2).trans (h.tables f h1 h2)
      half := st.childHalf h hq
      table := fun e he hpe => st.tables_taken h hq he hpe
      table_inj := fun e e' he he' hpe hpe' heq => st.tables_inj h hq he he' hpe hpe' heq
      table_iff := ?_
      page := ?_
      free := fun q' u hq' hu => st.pages_taken h hq' hu
      inj := fun q₁ q₂ u hq₁ hq₂ hu₁ hu₂ => st.pages_inj h hq₁ hq₂ hu₁ hu₂
      content := fun q' u w hq' hu hw i hi => st.contents h hs hw₀ hq hpage hq' hu hw hi
      kcount := ?_
      ucount := ?_ }
  · -- A table is there for the pages so far and for this one.
    intro e he
    rw [bits_succ hbit, ← hqn]
    by_cases hee : e = q / 1024
    · rw [hee]
      exact ⟨fun _ => Or.inr rfl, fun _ => st.copied.present⟩
    · rw [st.copied.dir e hee, h.table_iff e he]
      exact ⟨Or.inl, fun hor => hor.resolve_right (fun hc => hee hc.symm)⟩
  · intro q' hq'
    rw [bits_succ hbit, ← hqn]
    by_cases hqq : q' = q
    · rw [hqq, st.copied.here]
      exact ⟨fun _ => Or.inr rfl, fun _ => rfl⟩
    · rw [st.copied.there q' hq' hqq, h.page q' hq']
      exact ⟨Or.inl, fun hor => hor.resolve_right (fun hc => hqq hc)⟩
  · -- A kernel frame is taken if the page is the first one in its table.
    have hcount := h.kcount
    rw [tablesNeeded]
    rcases st.table with ⟨hpd, _, hpool⟩ | ⟨hpd, hck, hpool⟩
    · have hnot : ¬ FirstInTable bit n := by
        rw [← hfirst, hpd]
        decide
      rw [hpool, if_neg hnot]
      exact hcount
    · have hset := freeCount_set st.frame.1 hck
      rw [hpool, if_pos (hfirst.mp hpd)]
      omega
  · have hcount := h.ucount
    have hset := freeCount_set st.slot.1 st.slot.2
    rw [pagesNeeded, hbit, st.userPool]
    show freeCount (bitmapSet m.userPool.poolBitmap j true) + (pagesNeeded bit n + 1) = _
    omega

end PageStep

/-- One page of `copy_body_stack3` keeps the invariant of the loop. -/
theorem copyPage_copying {m₁ m : Machine} {pa da ba D B n : Nat} {bit : Nat → Bool}
    (h : Copying m₁ m D B bit n) (hs : LoopStart m₁ pa da ba D B) {child parent : ProcMem}
    (hc : child.pgdir = pageAddr da) (hp : parent.pgdir = pageAddr pa) (hn : n < userPages)
    (hbit : bit n = true) (hpar : (frameAt m₁ m₁.cr3 (userPage₀ + n)).isSome = true)
    (hkc : tablesNeeded bit (n + 1) ≤ freeCount m₁.kernelPool.poolBitmap)
    (huc : pagesNeeded bit (n + 1) ≤ freeCount m₁.userPool.poolBitmap) :
    ∃ m', copyPage m child parent (pageAddr ba)
        (BitVec.ofNat 32 n * pgSize + BitVec.ofNat 32 userVaddrStart) = .ok m' ∧
      Copying m₁ m' D B bit (n + 1) := by
  obtain ⟨q, hqn⟩ : ∃ q, q = userPage₀ + n := ⟨_, rfl⟩
  have hq : q < 0xc0000 := by
    rw [userPages_eq] at hn
    rw [hqn, userPage₀_eq]
    omega
  rw [← hqn] at hpar
  rcases Option.isSome_iff_exists.mp hpar with ⟨w, hw⟩
  have habs : ¬ (frameAt m D q).isSome = true := by
    rw [h.page q hq]
    rintro ⟨i, hi, _, hqi⟩
    omega
  -- The directory has an entry for the page exactly when an earlier bit needed the table.
  have hfirst : isPresent (m.phys D (q / 1024)) = false ↔ FirstInTable bit n := by
    rw [← Bool.not_eq_true, h.table_iff _ (by omega), FirstInTable, ← hqn]
    constructor
    · intro hno
      exact ⟨hbit, fun i hi hbi he => hno ⟨i, hi, hbi, he⟩⟩
    · rintro ⟨_, hall⟩ ⟨i, hi, hbi, he⟩
      exact hall i hi hbi he
  have hkcount := h.kcount
  have hucount := h.ucount
  have hup : 0 < freeCount m.userPool.poolBitmap := by
    rw [pagesNeeded, hbit] at huc
    change pagesNeeded bit n + 1 ≤ _ at huc
    omega
  have hkp : isPresent (m.phys D (q / 1024)) = false → 0 < freeCount m.kernelPool.poolBitmap := by
    intro hpd
    rw [tablesNeeded, if_pos (hfirst.mp hpd)] at hkc
    omega
  rcases copyPage_run h hs hc hp (toNat_userAddr hn) (hqn ▸ hq) (hqn ▸ hw) (hqn ▸ habs) hup
    (hqn ▸ hkp) with ⟨mc, m', j, page, page', hok, hj, hclear, hpage, hpage', hmapped, hm'⟩
  rw [← hqn] at hmapped
  rcases copyPage_copied h hs hq hj hpage' (h.userLayout hs) hmapped hm' with
    ⟨T, k, hk, rfl, hTfree, hcp, hcase⟩
  have st : PageStep m₁ m m' D B q j k page := by
    refine ⟨hcp, ⟨hj, hclear⟩, ⟨hk, hTfree⟩, hcase, ?_, ?_, ?_, ?_⟩
    · rw [hm']
      exact hmapped.userPool
    · rw [hm']
      exact hmapped.kernelVaddr
    · rw [hm']
      exact hmapped.kp_start
    · rw [hm']
  exact ⟨m', hok, st.copying h hs hbit hqn hq hw hpage hfirst⟩

/-- The pages of the kernel heap a process's bitmap lies in. -/
def BitmapPages (m : Machine) (p : ProcMem) (b : Nat) : Prop :=
  p.bits = pageAddr b ∧ b + bitmapPgCnt ≤ kernelPages m ∧
    ∀ i, i < bitmapPgCnt → isPresent (kernelPte m (b + i)) = true

/-- The byte of its word an address in a bitmap names. -/
theorem byte_in_word {s : Nat} (k : Nat) (hs : s ≤ 32768) :
    ((pageAddr s + BitVec.ofNat 32 k) &&& 3).toNat = k % 4 := by
  have hmask : (3 : Word).toNat = 2 ^ 2 - 1 := by decide
  rw [BitVec.toNat_and, hmask, Nat.and_two_pow_sub_one_eq_mod, BitVec.toNat_add, toNat_pageAddr hs,
    BitVec.toNat_ofNat]
  omega

/-- A byte of a bitmap in kernel pages is a byte of their frames. -/
theorem loadByte_bitmap {m : Machine} (h : KernelMap m) {p : ProcMem} {b i : Nat}
    (hb : BitmapPages m p b) (hi : i < bitmapPgCnt * 4096) :
    loadByte m (p.bits + BitVec.ofNat 32 i)
      = .ok ((m.phys (frameOf (kernelPte m (b + i / 4096))) (i % 4096 / 4)
          >>> (((p.bits + BitVec.ofNat 32 i) &&& 3).toNat * 8)).setWidth 8) := by
  have hpages := h.layout.pages_le
  have hlen := hb.2.1
  have hcnt : bitmapPgCnt = 23 := rfl
  have hp := hb.2.2 (i / 4096) (by omega)
  have haddr : p.bits + BitVec.ofNat 32 i = pageAddr (b + i / 4096) + BitVec.ofNat 32 (i % 4096) := by
    apply BitVec.eq_of_toNat_eq
    rw [toNat_pageAddr_add (by omega) (by omega), hb.1, BitVec.toNat_add, toNat_pageAddr (by omega),
      BitVec.toNat_ofNat]
    omega
  have hload : load m (p.bits + BitVec.ofNat 32 i)
      = .ok (m.phys (frameOf (kernelPte m (b + i / 4096))) (i % 4096 / 4)) := by
    rw [haddr]
    simp only [load, walk_pageAddr_add (show b + i / 4096 < 32768 by omega)
      (show i % 4096 < 4096 by omega), walk_kernel h (show b + i / 4096 < kernelPages m by omega) hp,
      wordIdx_pageAddr_add (show b + i / 4096 < 32768 by omega) (show i % 4096 < 4096 by omega)]
  rw [loadByte, hload, ok_bind]

theorem procBitmap_byte {m : Machine} (h : KernelMap m) {p : ProcMem} {b i : Nat}
    (hb : BitmapPages m p b) (hi : i < bitmapPgCnt * 4096) :
    loadByte m (p.bits + BitVec.ofNat 32 i) = .ok ((procBitmap m p).bits i) := by
  rw [procBitmap_bits (loadByte_bitmap h hb hi), loadByte_bitmap h hb hi]

/-- The loop reads the parent's bitmap as it was when it began. -/
theorem Copying.parentByte {m₁ m : Machine} {pa da ba D B n b i : Nat} {bit : Nat → Bool}
    (h : Copying m₁ m D B bit n) (hs : LoopStart m₁ pa da ba D B) {parent : ProcMem}
    (hb : BitmapPages m₁ parent b)
    (hne : ∀ i, i < bitmapPgCnt → frameOf (kernelPte m₁ (b + i)) ≠ D ∧
      frameOf (kernelPte m₁ (b + i)) ≠ B) (hi : i < bitmapPgCnt * 4096) :
    loadByte m (parent.bits + BitVec.ofNat 32 i) = .ok ((procBitmap m₁ parent).bits i) := by
  have hle : kernelPages m₁ ≤ 32768 := hs.map.layout.pages_le
  have hlen := hb.2.1
  have hlt : i / 4096 < bitmapPgCnt := by omega
  have hb' : BitmapPages m parent b := by
    refine ⟨hb.1, by rw [h.pages_eq]; exact hlen, ?_⟩
    intro k hk
    rw [h.kernelPte_eq (by omega)]
    exact hb.2.2 k hk
  have hframe : m.phys (frameOf (kernelPte m₁ (b + i / 4096)))
      = m₁.phys (frameOf (kernelPte m₁ (b + i / 4096))) := by
    have hn := hne (i / 4096) hlt
    exact h.keep _ (hs.map.inUse (by omega) (hb.2.2 _ hlt)) hn.1 hn.2
  rw [← procBitmap_byte hs.map hb hi, loadByte_bitmap h.map hb' hi, loadByte_bitmap hs.map hb hi,
    h.kernelPte_eq (by omega), hframe]

theorem pagesNeeded_le {bit : Nat → Bool} {n k : Nat} (h : n ≤ k) :
    pagesNeeded bit n ≤ pagesNeeded bit k := by
  induction k with
  | zero => rw [show n = 0 by omega]
  | succ k ih =>
      by_cases hn : n = k + 1
      · rw [hn]
      · exact Nat.le_trans (ih (by omega)) (Nat.le_add_right _ _)

theorem tablesNeeded_le {bit : Nat → Bool} {n k : Nat} (h : n ≤ k) :
    tablesNeeded bit n ≤ tablesNeeded bit k := by
  induction k with
  | zero => rw [show n = 0 by omega]
  | succ k ih =>
      by_cases hn : n = k + 1
      · rw [hn]
      · exact Nat.le_trans (ih (by omega)) (Nat.le_add_right _ _)

section Loop

variable {m₁ : Machine} {pa da ba D B b : Nat} {child parent : ProcMem}

/-- What the loop needs: the parent's bitmap apart from the frames the loop
    writes, in agreement with what the parent maps, and enough frames. -/
structure LoopRoom (m₁ : Machine) (parent : ProcMem) (D B b : Nat) : Prop where
  bitmap : BitmapPages m₁ parent b
  apart : ∀ i, i < bitmapPgCnt → frameOf (kernelPte m₁ (b + i)) ≠ D ∧
    frameOf (kernelPte m₁ (b + i)) ≠ B
  start : parent.vaddrStart = BitVec.ofNat 32 userVaddrStart
  len : parent.btmpBytesLen = userBitmapLen
  agree : ∀ i, i < userPages → bitmapScanTest (procBitmap m₁ parent) i
    = (frameAt m₁ m₁.cr3 (userPage₀ + i)).isSome
  kernel : tablesNeeded (bitmapScanTest (procBitmap m₁ parent)) userPages
    ≤ freeCount m₁.kernelPool.poolBitmap
  user : pagesNeeded (bitmapScanTest (procBitmap m₁ parent)) userPages
    ≤ freeCount m₁.userPool.poolBitmap

/-- The inner loop handles the bits that are left of a byte. -/
theorem copyBits_copying (hs : LoopStart m₁ pa da ba D B) (hr : LoopRoom m₁ parent D B b)
    (hc : child.pgdir = pageAddr da) (hp : parent.pgdir = pageAddr pa) (k idxBit : Nat)
    {m : Machine} {idxByte : Nat} (hk : idxBit + k = 8) (hlt : idxByte < userBitmapLen)
    (h : Copying m₁ m D B (bitmapScanTest (procBitmap m₁ parent)) (idxByte * 8 + idxBit)) :
    ∃ m', copyBits child parent (pageAddr ba) idxByte k idxBit m = .ok m' ∧
      Copying m₁ m' D B (bitmapScanTest (procBitmap m₁ parent)) (idxByte * 8 + 8) := by
  have hlen : userBitmapLen = 94199 := rfl
  have hin : idxByte < bitmapPgCnt * 4096 := by
    rw [hlen] at hlt
    show idxByte < 23 * 4096
    omega
  have hpages : ∀ j, j < 8 → idxByte * 8 + j < userPages := by
    intro j hj
    rw [userPages_eq]
    omega
  induction k generalizing m idxBit with
  | zero =>
      rw [show idxBit = 8 by omega] at h
      exact ⟨m, rfl, h⟩
  | succ k ih =>
      have hbyte := h.parentByte hs hr.bitmap hr.apart hin
      -- The mask of the loop tests the bit of the page.
      have htest : bitmapScanTest (procBitmap m₁ parent) (idxByte * 8 + idxBit) = true ↔
          (1#8 <<< idxBit) &&& (procBitmap m₁ parent).bits idxByte ≠ 0 := by
        rw [bitmapScanTest, show (idxByte * 8 + idxBit) / 8 = idxByte by omega,
          show (idxByte * 8 + idxBit) % 8 = idxBit by omega, bne_iff_ne, BitVec.and_comm]
      rw [copyBits, hbyte, ok_bind]
      by_cases hset : bitmapScanTest (procBitmap m₁ parent) (idxByte * 8 + idxBit) = true
      · have hn := hpages idxBit (by omega)
        rcases copyPage_copying h hs hc hp hn hset (by
            rw [← hr.agree _ hn]
            exact hset) (Nat.le_trans (tablesNeeded_le hn) hr.kernel)
          (Nat.le_trans (pagesNeeded_le hn) hr.user) with ⟨m₂, hcopy, h₂⟩
        rw [if_pos (htest.mp hset), hr.start, hcopy, ok_bind]
        exact ih (idxBit + 1) (by omega) h₂
      · rw [if_neg (fun hne => hset (htest.mpr hne)), ok_bind]
        exact ih (idxBit + 1) (by omega) (h.skip (Bool.eq_false_iff.mpr hset))

/-- A byte without a set bit stands for no page. -/
theorem Copying.skipByte {m : Machine} {bm : Bitmap} {idxByte : Nat} (k idxBit : Nat)
    (hk : idxBit + k = 8)
    (hzero : bm.bits idxByte = 0)
    (h : Copying m₁ m D B (bitmapScanTest bm) (idxByte * 8 + idxBit)) :
    Copying m₁ m D B (bitmapScanTest bm) (idxByte * 8 + 8) := by
  induction k generalizing idxBit with
  | zero =>
      rw [show idxBit = 8 by omega] at h
      exact h
  | succ k ih =>
      refine ih (idxBit + 1) (by omega) (h.skip ?_)
      rw [bitmapScanTest, show (idxByte * 8 + idxBit) / 8 = idxByte by omega, hzero]
      show ((0#8 &&& _) != 0) = false
      rw [BitVec.zero_and]
      rfl

/-- The outer loop handles the bytes that are left. -/
theorem copyBytes_copying (hs : LoopStart m₁ pa da ba D B) (hr : LoopRoom m₁ parent D B b)
    (hc : child.pgdir = pageAddr da) (hp : parent.pgdir = pageAddr pa) (k : Nat) {m : Machine}
    {idxByte : Nat} (hk : idxByte + k = userBitmapLen)
    (h : Copying m₁ m D B (bitmapScanTest (procBitmap m₁ parent)) (idxByte * 8)) :
    ∃ m', copyBytes child parent (pageAddr ba) k idxByte m = .ok m' ∧
      Copying m₁ m' D B (bitmapScanTest (procBitmap m₁ parent)) userPages := by
  have hlen : userBitmapLen = 94199 := rfl
  have hcnt : bitmapPgCnt = 23 := rfl
  induction k generalizing m idxByte with
  | zero =>
      rw [show idxByte * 8 = userPages by rw [userPages_eq]; omega] at h
      exact ⟨m, rfl, h⟩
  | succ k ih =>
      rw [copyBytes, h.parentByte hs hr.bitmap hr.apart (by omega), ok_bind]
      by_cases hz : (procBitmap m₁ parent).bits idxByte = 0
      · rw [if_neg (fun hne => hne hz), ok_bind]
        refine ih (by omega) ?_
        rw [show (idxByte + 1) * 8 = idxByte * 8 + 8 by omega]
        exact Copying.skipByte 8 0 (by omega) hz h
      · rcases copyBits_copying hs hr hc hp 8 0 (by omega) (by omega) h with
          ⟨m₂, hcopy, h₂⟩
        rw [if_pos hz, hcopy, ok_bind]
        refine ih (by omega) ?_
        rw [show (idxByte + 1) * 8 = idxByte * 8 + 8 by omega]
        exact h₂

/-- The whole loop. -/
theorem copyBodyStack3_copying (hs : LoopStart m₁ pa da ba D B) (hr : LoopRoom m₁ parent D B b)
    (hc : child.pgdir = pageAddr da) (hp : parent.pgdir = pageAddr pa)
    (h : Copying m₁ m₁ D B (bitmapScanTest (procBitmap m₁ parent)) 0) :
    ∃ m', copyBodyStack3 m₁ child parent (pageAddr ba) = .ok m' ∧
      Copying m₁ m' D B (bitmapScanTest (procBitmap m₁ parent)) userPages := by
  rw [copyBodyStack3, hr.len]
  exact copyBytes_copying hs hr hc hp userBitmapLen (by omega) (by rw [Nat.zero_mul]; exact h)

end Loop

/-- Requests for kernel pages that fit one after the other, each taking the
    first run that is long enough. -/
def FitsSeq (b : Bitmap) : List Nat → Prop
  | [] => True
  | n :: ns => ∃ s, FreeRun b n s ∧ (∀ s', FreeRun b n s' → s ≤ s') ∧
      FitsSeq (bitmapSetRange b s true n) ns

/-- A page directory and everything its user half leads to are in use. -/
structure DirInUse (m : Machine) (d : Nat) : Prop where
  dir : InUse m d
  table : ∀ e, e < 768 → isPresent (m.phys d e) = true → InUse m (frameOf (m.phys d e))
  page : ∀ q w, q < 0xc0000 → frameAt m d q = some w → InUse m w

/-- A user page is mapped as before as long as what is in use is kept. -/
theorem DirInUse.frameAt_eq {m m' : Machine} {d q : Nat} (h : DirInUse m d)
    (hkeep : ∀ f, InUse m f → m'.phys f = m.phys f) (hq : q < 0xc0000) :
    frameAt m' d q = frameAt m d q := by
  unfold frameAt
  rw [hkeep d h.dir]
  by_cases hp : isPresent (m.phys d (q / 1024)) = true
  · rw [hkeep _ (h.table (q / 1024) (by omega) hp)]
  · rw [if_neg hp, if_neg hp]

/-- A page of the kernel heap that is mapped is not among the new ones, and
    keeps its entry. -/
theorem GotPages.keep {m m' : Machine} {s n i : Nat} (g : GotPages m m' s n) (h : KernelMap m)
    (hi : i < kernelPages m) (hp : isPresent (kernelPte m i) = true) :
    ¬ (s ≤ i ∧ i < s + n) ∧ kernelPte m' i = kernelPte m i := by
  have hpages := h.layout.pages_le
  have hout : ¬ (s ≤ i ∧ i < s + n) := by
    rintro ⟨h1, h2⟩
    have hclear := g.run.2 i h1 h2
    rw [h.agree i hi, hp] at hclear
    cases hclear
  exact ⟨hout, g.other i hout (by omega)⟩

theorem DirPage.got {m m' : Machine} {s n a : Nat} (g : GotPages m m' s n) (h : KernelMap m)
    (ha : DirPage m a) : DirPage m' a := by
  have hk := g.keep h ha.1 ha.2.1
  refine ⟨by rw [g.pages]; exact ha.1, ?_, ?_⟩
  · rw [hk.2]
    exact ha.2.1
  · rw [hk.2, g.cr3]
    exact ha.2.2

/-- Writes to frames that were not in use at first. -/
theorem Grew.write {m m' m'' : Machine} (h : Grew m m') (hs : SameButPhys m' m'')
    (hw : ∀ f, InUse m f → m''.phys f = m'.phys f) : Grew m m'' := by
  unfold SameButPhys at hs
  refine ⟨by rw [hs]; exact h.kp_len, by rw [hs]; exact h.up_start, by rw [hs]; exact h.up_len,
    by rw [hs]; exact h.kernel, by rw [hs]; exact h.user, ?_⟩
  intro f hf
  rw [hw f hf, h.phys f hf]

theorem pagesNeeded_congr {bit bit' : Nat → Bool} {n : Nat} (h : ∀ i, i < n → bit i = bit' i) :
    pagesNeeded bit n = pagesNeeded bit' n := by
  induction n with
  | zero => rfl
  | succ n ih =>
      rw [pagesNeeded, pagesNeeded, ih (fun i hi => h i (by omega)), h n (by omega)]

theorem tablesNeeded_congr {bit bit' : Nat → Bool} {n : Nat} (h : ∀ i, i < n → bit i = bit' i) :
    tablesNeeded bit n = tablesNeeded bit' n := by
  induction n with
  | zero => rfl
  | succ n ih =>
      have hfirst : FirstInTable bit n ↔ FirstInTable bit' n := by
        unfold FirstInTable
        rw [h n (by omega)]
        refine and_congr_right (fun _ => forall_congr' (fun i => ?_))
        constructor
        · intro hall hi hb
          exact hall hi (by rw [h i (by omega)]; exact hb)
        · intro hall hi hb
          exact hall hi (by rw [← h i (by omega)]; exact hb)
      rw [tablesNeeded, tablesNeeded, ih (fun i hi => h i (by omega))]
      by_cases hf : FirstInTable bit n
      · rw [if_pos hf, if_pos (hfirst.mp hf)]
      · rw [if_neg hf, if_neg (fun hc => hf (hfirst.mpr hc))]

/-- What `sys_fork` needs of memory for a process `p`: its directory is active
    and, like its bitmap, in mapped kernel pages; the bitmap says what is
    mapped; and there are enough kernel pages and frames. -/
structure Forkable (m : Machine) (p : ProcMem) : Prop where
  map : KernelMap m
  layout : UserLayout m
  dir : ∃ a, DirPage m a ∧ p.pgdir = pageAddr a
  bitmap : ∃ b, BitmapPages m p b
  start : p.vaddrStart = BitVec.ofNat 32 userVaddrStart
  len : p.btmpBytesLen = userBitmapLen
  used : DirInUse m m.cr3
  agree : ∀ i, i < userPages → bitmapScanTest (procBitmap m p) i
    = (frameAt m m.cr3 (userPage₀ + i)).isSome
  fits : FitsSeq m.kernelVaddr.vaddrBitmap [1, 1, bitmapPgCnt, 1]
  kernel : 1 + 1 + bitmapPgCnt + 1 + tablesNeeded (bitmapScanTest (procBitmap m p)) userPages
    ≤ freeCount m.kernelPool.poolBitmap
  user : pagesNeeded (bitmapScanTest (procBitmap m p)) userPages
    ≤ freeCount m.userPool.poolBitmap

/-- The first of several requests is granted and the others still fit. -/
theorem getKernelPages_seq {m : Machine} (h : KernelMap m) {a n : Nat} {ns : List Nat}
    (hdir : DirPage m a) (hn : 0 < n ∧ n < 3840)
    (hfit : FitsSeq m.kernelVaddr.vaddrBitmap (n :: ns))
    (hcount : n ≤ freeCount m.kernelPool.poolBitmap) :
    ∃ m' s, getKernelPages m n = .ok (m', pageAddr s) ∧ GotPages m m' s n ∧
      FitsSeq m'.kernelVaddr.vaddrBitmap ns := by
  rcases hfit with ⟨s, hrun, hfirst, hrest⟩
  rcases getKernelPages_fits h hn ⟨⟨s, hrun⟩, hcount⟩ hdir with ⟨m', s', hget, hgot, hfirst'⟩
  have hs : s' = s := Nat.le_antisymm (hfirst' s hrun) (hfirst s' hgot.run)
  refine ⟨m', s', hget, hgot, ?_⟩
  rw [hgot.vaddr, hs]
  exact hrest

/-- Memory after `copy_pcb_vaddrbitmap_stack0`: pages for the PCB, for the
    contents in between and for the child's bitmap, which is filled. -/
structure PcbCopied (m m' : Machine) (b c ba sb : Nat) : Prop where
  map : KernelMap m'
  grew : Grew m m'
  cr3 : m'.cr3 = m.cr3
  userPool : m'.userPool = m.userPool
  pages : kernelPages m' = kernelPages m
  fits : FitsSeq m'.kernelVaddr.vaddrBitmap [1]
  count : freeCount m'.kernelPool.poolBitmap + (1 + 1 + bitmapPgCnt) = freeCount m.kernelPool.poolBitmap
  keep : ∀ i, i < kernelPages m → isPresent (kernelPte m i) = true →
    i ≠ c ∧ i ≠ ba ∧ ¬ (sb ≤ i ∧ i < sb + bitmapPgCnt) ∧ kernelPte m' i = kernelPte m i
  pcb : c < kernelPages m ∧ isPresent (kernelPte m' c) = true ∧ c ≠ ba ∧
    ¬ (sb ≤ c ∧ c < sb + bitmapPgCnt)
  buf : ba < kernelPages m ∧ isPresent (kernelPte m' ba) = true ∧
    KernelFree m (frameOf (kernelPte m' ba)) ∧ ¬ (sb ≤ ba ∧ ba < sb + bitmapPgCnt)
  bits : sb + bitmapPgCnt ≤ kernelPages m ∧ ∀ i, i < bitmapPgCnt →
    isPresent (kernelPte m' (sb + i)) = true ∧ KernelFree m (frameOf (kernelPte m' (sb + i))) ∧
    ∀ w, w < 1024 → m'.phys (frameOf (kernelPte m' (sb + i))) w
      = m.phys (frameOf (kernelPte m (b + i))) w

/-- Memory after the allocations alone: the pages for the bitmap are there and
    hold nothing yet. -/
structure PcbPages (m m' : Machine) (c ba sb : Nat) : Prop where
  map : KernelMap m'
  grew : Grew m m'
  cr3 : m'.cr3 = m.cr3
  userPool : m'.userPool = m.userPool
  pages : kernelPages m' = kernelPages m
  fits : FitsSeq m'.kernelVaddr.vaddrBitmap [1]
  count : freeCount m'.kernelPool.poolBitmap + (1 + 1 + bitmapPgCnt) =
    freeCount m.kernelPool.poolBitmap
  keep : ∀ i, i < kernelPages m → isPresent (kernelPte m i) = true →
    i ≠ c ∧ i ≠ ba ∧ ¬ (sb ≤ i ∧ i < sb + bitmapPgCnt) ∧ kernelPte m' i = kernelPte m i
  pcb : c < kernelPages m ∧ isPresent (kernelPte m' c) = true ∧ c ≠ ba ∧
    ¬ (sb ≤ c ∧ c < sb + bitmapPgCnt)
  buf : ba < kernelPages m ∧ isPresent (kernelPte m' ba) = true ∧
    KernelFree m (frameOf (kernelPte m' ba)) ∧ ¬ (sb ≤ ba ∧ ba < sb + bitmapPgCnt)
  bits : sb + bitmapPgCnt ≤ kernelPages m ∧ ∀ i, i < bitmapPgCnt →
    isPresent (kernelPte m' (sb + i)) = true ∧ KernelFree m (frameOf (kernelPte m' (sb + i)))

/-- The allocations of `copy_pcb_vaddrbitmap_stack0` and its callers. -/
theorem pcb_pages {m : Machine} {a : Nat} (h : KernelMap m) (hdir : DirPage m a)
    (hfit : FitsSeq m.kernelVaddr.vaddrBitmap [1, 1, bitmapPgCnt, 1])
    (hcount : 1 + 1 + bitmapPgCnt ≤ freeCount m.kernelPool.poolBitmap) :
    ∃ mA mB mC c ba sb, getKernelPages m 1 = .ok (mA, pageAddr c) ∧
      getKernelPages mA 1 = .ok (mB, pageAddr ba) ∧
      getKernelPages mB bitmapPgCnt = .ok (mC, pageAddr sb) ∧ PcbPages m mC c ba sb := by
  have hcnt : 0 < bitmapPgCnt ∧ bitmapPgCnt < 3840 := by decide
  rcases getKernelPages_seq h hdir ⟨by omega, by omega⟩ hfit (by omega) with ⟨mA, c, hA, gA, hfA⟩
  have hdA := hdir.got gA h
  have hcA := gA.count
  rcases getKernelPages_seq gA.map hdA ⟨by omega, by omega⟩ hfA (by omega) with
    ⟨mB, ba, hB, gB, hfB⟩
  have hdB := hdA.got gB gA.map
  have hcB := gB.count
  rcases getKernelPages_seq gB.map hdB hcnt hfB (by omega) with ⟨mC, sb, hC, gC, hfC⟩
  have hcC := gC.count
  have hpA := gA.pages
  have hpB := gB.pages
  have hpC := gC.pages
  have hcl : c + 1 ≤ kernelPages m := gA.run.1
  have hbl : ba + 1 ≤ kernelPages mA := gB.run.1
  have hsl : sb + bitmapPgCnt ≤ kernelPages mB := gC.run.1
  have pA := gA.page c (by omega) (by omega)
  have pB := gB.page ba (by omega) (by omega)
  -- The pages of the earlier requests stay mapped through the later ones.
  have kcB := gB.keep gA.map (i := c) (by omega) pA.1
  have kcC := gC.keep gB.map (i := c) (by omega) (by rw [kcB.2]; exact pA.1)
  have kbC := gC.keep gB.map (i := ba) (by omega) pB.1
  refine ⟨mA, mB, mC, c, ba, sb, hA, hB, hC, ?_⟩
  refine
    { map := gC.map
      grew := (gA.grew.trans gB.grew).trans gC.grew
      cr3 := by rw [gC.cr3, gB.cr3, gA.cr3]
      userPool := by rw [gC.userPool, gB.userPool, gA.userPool]
      pages := by omega
      fits := hfC
      count := by omega
      keep := ?_
      pcb := ⟨by omega, by rw [kcC.2, kcB.2]; exact pA.1, by omega, kcC.1⟩
      buf := ⟨by omega, by rw [kbC.2]; exact pB.1, ?_, kbC.1⟩
      bits := ⟨by omega, fun i hi => ?_⟩ }
  · -- A page that is mapped stays so, with its entry, through all three.
    intro i hi hp
    have kA := gA.keep h hi hp
    have kB := gB.keep gA.map (i := i) (by omega) (by rw [kA.2]; exact hp)
    have kC := gC.keep gB.map (i := i) (by omega) (by rw [kB.2, kA.2]; exact hp)
    exact ⟨by omega, by omega, kC.1, by rw [kC.2, kB.2, kA.2]⟩
  · -- What a later request is given was free before the earlier ones.
    rw [kbC.2]
    exact gA.grew.kernelFree pB.2.1
  · have pC := gC.page (sb + i) (by omega) (by omega)
    exact ⟨pC.1, (gA.grew.trans gB.grew).kernelFree pC.2.1⟩

/-- The allocations of `copy_pcb_vaddrbitmap_stack0` and its callers, and the
    copy of the bitmap. -/
theorem pcb_copied {m : Machine} {p : ProcMem} {a b : Nat} (h : KernelMap m) (hdir : DirPage m a)
    (hb : BitmapPages m p b) (hfit : FitsSeq m.kernelVaddr.vaddrBitmap [1, 1, bitmapPgCnt, 1])
    (hcount : 1 + 1 + bitmapPgCnt ≤ freeCount m.kernelPool.poolBitmap) :
    ∃ mA mB mC m' c ba sb, getKernelPages m 1 = .ok (mA, pageAddr c) ∧
      getKernelPages mA 1 = .ok (mB, pageAddr ba) ∧
      getKernelPages mB bitmapPgCnt = .ok (mC, pageAddr sb) ∧
      memcpyPages bitmapPgCnt mC (pageAddr sb) p.bits = .ok m' ∧ PcbCopied m m' b c ba sb := by
  have hcnt : 0 < bitmapPgCnt ∧ bitmapPgCnt < 3840 := by decide
  have hle := h.layout.pages_le
  rcases pcb_pages h hdir hfit hcount with ⟨mA, mB, mC, c, ba, sb, hA, hB, hC, hC'⟩
  have hpC := hC'.pages
  have hpcb := hC'.pcb.1
  have hbuf := hC'.buf.1
  have hsl := hC'.bits.1
  have hpres := hC'.bits.2
  have hka := hC'.keep a hdir.1 hdir.2.1
  have hda := hdir.1
  have hcr3 : frameOf (kernelPte mC a) = mC.cr3 := by rw [hka.2.2.2, hC'.cr3, hdir.2.2]
  have hbk : ∀ i, i < bitmapPgCnt → kernelPte mC (b + i) = kernelPte m (b + i) ∧
      ¬ (sb ≤ b + i ∧ b + i < sb + bitmapPgCnt) := by
    intro i hi
    have hk := hC'.keep (b + i) (by have := hb.2.1; omega) (hb.2.2 i hi)
    exact ⟨hk.2.2.2, hk.2.2.1⟩
  have hblen := hb.2.1
  rcases memcpyPages_kernel bitmapPgCnt hC'.map (s := sb) (b := b) (by omega) (by omega)
    (fun i hi => (hpres i hi).1) (fun i hi => by rw [(hbk i hi).1]; exact hb.2.2 i hi) (by
      -- The first pages of the two runs cannot lie in the other run.
      by_contra hc
      have h1 := hbk (sb - b)
      have h2 := hbk 0 (by omega)
      omega) (fun i hi => by
      -- The directory is not among the new pages, whose frames are all different.
      rw [← hcr3]
      intro hc
      have hinj := hC'.map.inj (sb + i) a (by omega) (by omega) (hpres i hi).1
        (by rw [hka.2.2.2]; exact hdir.2.1) hc
      exact hka.2.2.1 (by omega)) with ⟨m', hcopy, hsame, hcont, hother⟩
  have hpteC : ∀ i, i < kernelPages m → kernelPte m' i = kernelPte mC i := by
    intro i hi
    refine kernelPte_congr (fun f _ hf => hother f (fun k hk => ?_)) (by omega)
    rcases (hpres k hk).2 with ⟨j, _, hj, _⟩
    omega
  have hnotnew : ∀ f, InUse m f → ∀ i, i < bitmapPgCnt → f ≠ frameOf (kernelPte mC (sb + i)) :=
    fun f hf i hi hc => hf.2 (Or.inl (hc ▸ (hpres i hi).2))
  have hmap' : KernelMap m' := by
    refine hC'.map.write hsame ?_ ?_
    · refine hother _ ?_
      rw [← hcr3, hka.2.2.2]
      exact hnotnew _ (h.inUse hdir.1 hdir.2.1)
    · intro f _ hf
      refine hother f ?_
      intro k hk
      rcases (hpres k hk).2 with ⟨j, _, hj, _⟩
      omega
  have hkern := hsame.fields
  refine ⟨mA, mB, mC, m', c, ba, sb, hA, hB, hC, by rw [hb.1]; exact hcopy, ?_⟩
  refine
    { map := hmap'
      grew := hC'.grew.write hsame (fun f hf => hother f (hnotnew f hf))
      cr3 := by rw [hkern.2.2.1, hC'.cr3]
      userPool := by rw [hkern.2.2.2, hC'.userPool]
      pages := by rw [kernelPages, hkern.2.1]; exact hpC
      fits := by rw [hkern.2.1]; exact hC'.fits
      count := by rw [hkern.1]; exact hC'.count
      keep := ?_, pcb := ?_, buf := ?_, bits := ⟨hsl, ?_⟩ }
  · intro i hi hp
    have hk := hC'.keep i hi hp
    exact ⟨hk.1, hk.2.1, hk.2.2.1, by rw [hpteC i hi, hk.2.2.2]⟩
  · rw [hpteC c hpcb]
    exact hC'.pcb
  · rw [hpteC ba hbuf]
    exact hC'.buf
  · intro i hi
    rw [hpteC (sb + i) (by omega)]
    refine ⟨(hpres i hi).1, (hpres i hi).2, ?_⟩
    intro w hw
    have huse := h.inUse (i := b + i) (by omega) (hb.2.2 i hi)
    rw [hcont i w hi hw, (hbk i hi).1, hC'.grew.phys _ huse]

/-- A bitmap in kernel pages reads the same as long as its pages keep their
    entries and their frames keep their contents. -/
theorem procBitmap_keep {m m' : Machine} (h : KernelMap m) (h' : KernelMap m') {p : ProcMem}
    {b i : Nat} (hb : BitmapPages m p b) (hpages : kernelPages m' = kernelPages m)
    (hpte : ∀ k, k < bitmapPgCnt → kernelPte m' (b + k) = kernelPte m (b + k))
    (hkeep : ∀ f, InUse m f → m'.phys f = m.phys f) (hi : i < bitmapPgCnt * 4096) :
    loadByte m' (p.bits + BitVec.ofNat 32 i) = loadByte m (p.bits + BitVec.ofNat 32 i) := by
  have hlt : i / 4096 < bitmapPgCnt := by omega
  have hb' : BitmapPages m' p b := by
    refine ⟨hb.1, by rw [hpages]; exact hb.2.1, fun k hk => ?_⟩
    rw [hpte k hk]
    exact hb.2.2 k hk
  have hlen := hb.2.1
  rw [loadByte_bitmap h' hb' hi, loadByte_bitmap h hb hi, hpte _ hlt,
    hkeep _ (h.inUse (by omega) (hb.2.2 _ hlt))]

/-- A bit of a process's bitmap lies in its pages. -/
theorem bitmap_byte_lt {i : Nat} (hi : i < userPages) : i / 8 < bitmapPgCnt * 4096 := by
  rw [userPages_eq] at hi
  show i / 8 < 23 * 4096
  omega

theorem procBitmap_bit_congr {m m' : Machine} {p p' : ProcMem} {i : Nat}
    (h : loadByte m' (p'.bits + BitVec.ofNat 32 (i / 8))
      = loadByte m (p.bits + BitVec.ofNat 32 (i / 8))) :
    bitmapScanTest (procBitmap m' p') i = bitmapScanTest (procBitmap m p) i := by
  have hbyte : (procBitmap m' p').bits (i / 8) = (procBitmap m p).bits (i / 8) := by
    simp only [procBitmap, h]
  rw [bitmapScanTest, bitmapScanTest, hbyte]

/-- A directory with nothing below the kernel is where the loop begins. -/
theorem Copying.empty {m : Machine} {D B : Nat} (h : KernelMap m)
    (hhalf : KernelHalf { m with cr3 := D }) (hlow : ∀ e, e < 768 → m.phys D e = 0)
    (bit : Nat → Bool) : Copying m m D B bit 0 := by
  -- The lower half of the directory is empty, so whatever is said of its pages is void.
  have habsent : ∀ e, e < 768 → ¬ isPresent (m.phys D e) = true := by
    intro e he
    rw [hlow e he]
    decide
  have hnone : ∀ q, q < 0xc0000 → frameAt m D q = none := by
    intro q hq
    rw [frameAt, if_neg (habsent (q / 1024) (by omega))]
  refine
    { map := h, cr3 := rfl, vaddr := rfl, pools := Grew.refl _, keep := fun _ _ _ _ => rfl
      tables := fun _ _ _ => rfl, half := hhalf
      table := fun e he hp => absurd hp (habsent e he)
      table_inj := fun e _ he _ hp => absurd hp (habsent e he)
      table_iff := ?_, page := ?_, free := ?_, inj := ?_, content := ?_
      kcount := rfl, ucount := rfl }
  · intro e he
    refine ⟨fun hp => absurd hp (habsent e he), ?_⟩
    rintro ⟨i, hi, _⟩
    omega
  · intro q hq
    rw [hnone q hq]
    refine ⟨fun hc => Bool.noConfusion hc, ?_⟩
    rintro ⟨i, hi, _⟩
    omega
  · intro q u hq hc
    rw [hnone q hq] at hc
    cases hc
  · intro q q' u hq _ hc
    rw [hnone q hq] at hc
    cases hc
  · intro q u w hq hc
    rw [hnone q hq] at hc
    cases hc

/-- The page of the active directory is where it was. -/
theorem PcbCopied.dirPage {m m' : Machine} {a b c ba sb : Nat} (hcp : PcbCopied m m' b c ba sb)
    (hdir : DirPage m a) : DirPage m' a := by
  have hk := hcp.keep a hdir.1 hdir.2.1
  refine ⟨by rw [hcp.pages]; exact hdir.1, ?_, ?_⟩
  · rw [hk.2.2.2]
    exact hdir.2.1
  · rw [hk.2.2.2, hcp.cr3]
    exact hdir.2.2

/-- Memory when the loop of `copy_body_stack3` begins. -/
theorem loop_start {m m' : Machine} {a b c ba sb : Nat} (h : KernelMap m)
    (hul : UserLayout m) (hdir : DirPage m a) (hused : DirInUse m m.cr3)
    (hcp : PcbCopied m m' b c ba sb) (hroom : 1 ≤ freeCount m'.kernelPool.poolBitmap) :
    ∃ m₁ da D B, createPageDir m' = .ok (m₁, pageAddr da) ∧ LoopStart m₁ a da ba D B ∧
      Grew m m₁ ∧ m₁.cr3 = m.cr3 ∧ m₁.userPool = m.userPool ∧ kernelPages m₁ = kernelPages m ∧
      freeCount m₁.kernelPool.poolBitmap + 1 = freeCount m'.kernelPool.poolBitmap ∧
      (∀ i, i < kernelPages m → isPresent (kernelPte m' i) = true →
        i ≠ da ∧ kernelPte m₁ i = kernelPte m' i) ∧
      KernelFree m D ∧ (∀ f, InUse m' f → m₁.phys f = m'.phys f) ∧
      (∀ bit, Copying m₁ m₁ D B bit 0) := by
  have hle := h.layout.pages_le
  have hdir' := hcp.dirPage hdir
  have hfit : Fits m' 1 := by
    rcases hcp.fits with ⟨s, hrun, _⟩
    exact ⟨⟨s, hrun⟩, hroom⟩
  rcases createPageDir_fits hcp.map hfit hdir' with
    ⟨m₀, m₁, da, hcreate, hgot, _, hsame, hother, hlow, hhalf⟩
  obtain ⟨D, hD⟩ : ∃ D, D = frameOf (kernelPte m₀ da) := ⟨_, rfl⟩
  rw [← hD] at hother hlow hhalf
  have hlen : da + 1 ≤ kernelPages m' := hgot.run.1
  have hpg := hgot.page da (by omega) (by omega)
  rw [← hD] at hpg
  have hpm := hcp.pages
  have hp₀ := hgot.pages
  rcases hpg.2.1 with ⟨jD, hjD, hDj, hcD⟩
  have hDfree : KernelFree m D := hcp.grew.kernelFree ⟨jD, hjD, hDj, hcD⟩
  -- The frame of the directory was free, so nothing that is in use is in it.
  have hDnot : ¬ InUse m' D := fun hu => hu.2 (Or.inl ⟨jD, hjD, hDj, hcD⟩)
  have hkeep₁ : ∀ f, InUse m' f → m₁.phys f = m'.phys f := by
    intro f hf
    have hfD : f ≠ D := fun hc => hDnot (hc ▸ hf)
    rw [hother f hfD, hgot.grew.phys f hf]
  have hfields := hsame.fields
  have hcr3 : m₁.cr3 = m.cr3 := by rw [hfields.2.2.1, hgot.cr3, hcp.cr3]
  have huP : m₁.userPool = m.userPool := by rw [hfields.2.2.2, hgot.userPool, hcp.userPool]
  have hpages₁ : kernelPages m₁ = kernelPages m := by
    rw [kernelPages, hfields.2.1]
    show kernelPages m₀ = _
    omega
  have hpte₁ : ∀ i, i < kernelPages m → kernelPte m₁ i = kernelPte m₀ i := fun i hi =>
    kernelPte_congr (fun f _ hf => hother f (by omega)) (by omega)
  have hstay : ∀ i, i < kernelPages m → isPresent (kernelPte m' i) = true →
      i ≠ da ∧ kernelPte m₁ i = kernelPte m' i := by
    intro i hi hp
    have hk := hgot.keep hcp.map (i := i) (by omega) hp
    exact ⟨by omega, by rw [hpte₁ i hi, hk.2]⟩
  have hgrew₁ : Grew m m₁ :=
    (hcp.grew.trans hgot.grew).write hsame (fun f hf =>
      hother f (fun hc => hDnot (hc ▸ hcp.grew.inUse hf)))
  have hPne : m₀.cr3 ≠ D := by
    rw [hgot.cr3, ← hdir'.2.2]
    exact fun hc => hDnot (hc ▸ hcp.map.inUse hdir'.1 hdir'.2.1)
  -- Writing the directory leaves the tables of the kernel as they were.
  have hmap₁ : KernelMap m₁ := by
    refine hgot.map.write hsame (hother _ hPne) ?_
    intro f _ hf
    exact hother f (by omega)
  have hbuf := hcp.buf
  have hba := hbuf.1
  have ha := hdir.1
  have hkb := hstay ba hbuf.1 hbuf.2.1
  have hka := hcp.keep a hdir.1 hdir.2.1
  have hkaD := hstay a hdir.1 (by rw [hka.2.2.2]; exact hdir.2.1)
  obtain ⟨B, hB⟩ : ∃ B, B = frameOf (kernelPte m' ba) := ⟨_, rfl⟩
  have hBfree : KernelFree m B := by
    rw [hB]
    exact hbuf.2.2.1
  have hdaPte : kernelPte m₁ da = kernelPte m₀ da := hpte₁ da (by omega)
  -- The parent uses neither the frame of the directory nor that of the buffer.
  have hstart : LoopStart m₁ a da ba D B := by
    refine
      { map := hmap₁, user := ?_, dir := ?_
        child := ⟨by omega, by rw [hdaPte]; exact hpg.1, by rw [hdaPte, hD]⟩
        buf := ⟨by omega, by rw [hkb.2]; exact hbuf.2.1, by rw [hkb.2, hB]⟩
        pa_ne := ⟨hkaD.1, hka.2.1, fun hc => hkb.1 hc.symm⟩
        table := ?_, page := ?_ }
    · refine ⟨by rw [huP]; exact hul.aligned, ?_⟩
      rw [userFrames, huP]
      exact hul.fits
    · refine ⟨by omega, ?_, ?_⟩
      · rw [hkaD.2, hka.2.2.2]
        exact hdir.2.1
      · rw [hkaD.2, hka.2.2.2, hcr3]
        exact hdir.2.2
    · rw [hcr3, hgrew₁.phys _ hused.dir]
      intro e he hp
      have hu := hused.table e he hp
      exact ⟨hgrew₁.inUse hu, fun hc => hu.2 (Or.inl (hc ▸ hDfree)),
        fun hc => hu.2 (Or.inl (hc ▸ hBfree))⟩
    · intro q w hq hw
      rw [hcr3, hused.frameAt_eq hgrew₁.phys hq] at hw
      have hu := hused.page q w hq hw
      exact ⟨hgrew₁.inUse hu, fun hc => hu.2 (Or.inl (hc ▸ hDfree)),
        fun hc => hu.2 (Or.inl (hc ▸ hBfree))⟩
  refine ⟨m₁, da, D, B, hcreate, hstart, hgrew₁, hcr3, huP, hpages₁, ?_, hstay, hDfree, hkeep₁, ?_⟩
  · rw [hfields.1]
    exact hgot.count
  · exact Copying.empty hmap₁ hhalf hlow

/-- The frame an address is mapped to by the directory in frame `d`. -/
def maps (m : Machine) (d : Nat) (v : Word) : Option Nat := walk { m with cr3 := d } v

/-- An address of the user half. -/
def IsUser (v : Word) : Prop := v.toNat < 0xc0000000

theorem maps_eq_frameAt (m : Machine) (d : Nat) (v : Word) :
    maps m d v = frameAt m d (v.toNat / 4096) :=
  walk_eq_frameAt _ v

/-- What `sys_fork` has done to memory for the parent `p` and the child `c`,
    whose directory is in frame `D`. -/
structure SpaceCopied (m m' : Machine) (p c : ProcMem) (D : Nat) : Prop where
  /-- The child's directory is a page of its own. -/
  dir : walk m' c.pgdir = some D ∧ KernelFree m D
  /-- The child maps the user pages the parent maps and no others. -/
  same : ∀ v, IsUser v → ((maps m' D v).isSome = true ↔
    userVaddrStart ≤ v.toNat ∧ (walk m v).isSome = true)
  /-- A page of the child is in a frame that was free and holds what the
      parent's page holds. -/
  copy : ∀ v u, IsUser v → maps m' D v = some u → UserFree m u ∧ ¬ UserFree m' u ∧
    ∃ w, walk m v = some w ∧ ∀ i, i < 1024 → m'.phys u i = m.phys w i
  /-- No two pages of the child share a frame. -/
  alone : ∀ v v' u, IsUser v → IsUser v' → maps m' D v = some u → maps m' D v' = some u →
    v.toNat / 4096 = v'.toNat / 4096
  /-- No directory that was in use, the parent's included, maps a frame of the
      child, and neither does the kernel heap. -/
  others : ∀ d v v' u, DirInUse m d → IsUser v → IsUser v' → maps m' D v = some u →
    maps m' d v' ≠ some u
  heap : ∀ v u i, IsUser v → maps m' D v = some u → i < kernelPages m' →
    walk m' (pageAddr i) ≠ some u
  /-- The child's bitmap has the parent's bits, in kernel pages of its own. -/
  bits : ∀ i, i < userPages → bitmapScanTest (procBitmap m' c) i = bitmapScanTest (procBitmap m p) i
  fresh : ∃ s, c.bits = pageAddr s ∧ ∀ i, i < bitmapPgCnt → ∃ f,
    walk m' (pageAddr (s + i)) = some f ∧ KernelFree m f
  range : c.btmpBytesLen = p.btmpBytesLen ∧ c.vaddrStart = p.vaddrStart
  /-- The parent's directory, pages and bitmap are what they were. -/
  keep : ∀ f, InUse m f → m'.phys f = m.phys f
  parentDir : walk m' p.pgdir = some m.cr3 ∧ m'.phys m.cr3 = m.phys m.cr3
  parentMap : ∀ v, IsUser v → maps m' m.cr3 v = walk m v
  parentPages : ∀ v w, IsUser v → walk m v = some w → m'.phys w = m.phys w
  parentBits : ∀ i, i < userBitmapLen → loadByte m' (p.bits + BitVec.ofNat 32 i)
    = loadByte m (p.bits + BitVec.ofNat 32 i)
  cr3 : m'.cr3 = m.cr3

/-- Memory along `sys_fork`: `m` before it, `m'` when the child's bitmap is
    filled, `m₁` and `m₂` around the loop and `m₃` after it. -/
structure ForkEnd (m m' m₁ m₂ m₃ : Machine) (p : ProcMem) (a b cp ba sb da D B : Nat) : Prop where
  need : Forkable m p
  dir : DirPage m a ∧ p.pgdir = pageAddr a
  bitmap : BitmapPages m p b
  pcb : PcbCopied m m' b cp ba sb
  start : LoopStart m₁ a da ba D B
  grew : Grew m m₁
  cr3 : m₁.cr3 = m.cr3
  pages : kernelPages m₁ = kernelPages m
  stay : ∀ i, i < kernelPages m → isPresent (kernelPte m' i) = true →
    i ≠ da ∧ kernelPte m₁ i = kernelPte m' i
  dirFree : KernelFree m D
  filled : ∀ f, InUse m' f → m₁.phys f = m'.phys f
  bit : ∀ i, i < userPages → bitmapScanTest (procBitmap m₁ p) i = bitmapScanTest (procBitmap m p) i
  fin : Copying m₁ m₂ D B (bitmapScanTest (procBitmap m₁ p)) userPages
  map₃ : KernelMap m₃
  frame₃ : KernelFrame m₂ m₃
  pte₃ : ∀ i, i ≠ ba → kernelPte m₃ i = kernelPte m₂ i

namespace ForkEnd

variable {m m' m₁ m₂ m₃ : Machine} {p : ProcMem} {a b cp ba sb da D B : Nat}

/-- Frames in use before are untouched in the end. -/
theorem keep (h : ForkEnd m m' m₁ m₂ m₃ p a b cp ba sb da D B) {f : Nat} (hf : InUse m f) :
    m₃.phys f = m.phys f := by
  have hfD : f ≠ D := fun hc => hf.2 (Or.inl (hc ▸ h.dirFree))
  have hfB : f ≠ B := by
    intro hc
    have hk := h.stay ba h.pcb.buf.1 h.pcb.buf.2.1
    rw [← h.start.buf.2.2, hk.2] at hc
    exact hf.2 (Or.inl (hc ▸ h.pcb.buf.2.2.1))
  rw [h.frame₃.phys f hf.1, h.fin.keep f (h.grew.inUse hf) hfD hfB, h.grew.phys f hf]

/-- Pages of the kernel heap that were mapped keep their entries. -/
theorem kernelPte_old (h : ForkEnd m m' m₁ m₂ m₃ p a b cp ba sb da D B) {i : Nat}
    (hi : i < kernelPages m) (hp : isPresent (kernelPte m i) = true) :
    kernelPte m₃ i = kernelPte m i := by
  have hle := h.need.map.layout.pages_le
  have hk := h.pcb.keep i hi hp
  have hk' := h.stay i hi (by rw [hk.2.2.2]; exact hp)
  rw [h.pte₃ i hk.2.1, h.fin.kernelPte_eq (by omega), hk'.2, hk.2.2.2]

theorem pages₃ (h : ForkEnd m m' m₁ m₂ m₃ p a b cp ba sb da D B) :
    kernelPages m₃ = kernelPages m := by
  rw [h.frame₃.pages, h.fin.pages_eq, h.pages]

/-- The child's mapping is the one the loop has built. -/
theorem frameAt_child (h : ForkEnd m m' m₁ m₂ m₃ p a b cp ba sb da D B) {q : Nat}
    (hq : q < 0xc0000) : frameAt m₃ D q = frameAt m₂ D q := by
  have hD : m₃.phys D = m₂.phys D := h.frame₃.phys D h.start.child_inUse.1
  unfold frameAt
  rw [hD]
  by_cases hp : isPresent (m₂.phys D (q / 1024)) = true
  · rcases (h.fin.table (q / 1024) (by omega) hp).1 with ⟨j, _, hj, _⟩
    rw [h.frame₃.phys _ (by rw [hj]; omega)]
  · rw [if_neg hp, if_neg hp]

theorem frameAt_parent (h : ForkEnd m m' m₁ m₂ m₃ p a b cp ba sb da D B) {q : Nat}
    (hq : q < 0xc0000) : frameAt m₁ m₁.cr3 q = frameAt m m.cr3 q := by
  rw [h.cr3]
  exact h.need.used.frameAt_eq h.grew.phys hq

/-- The child's bitmap pages. -/
theorem kernelPte_bits (h : ForkEnd m m' m₁ m₂ m₃ p a b cp ba sb da D B) {i : Nat}
    (hi : i < bitmapPgCnt) : kernelPte m₃ (sb + i) = kernelPte m' (sb + i) ∧
      sb + i ≠ da ∧ sb + i ≠ ba := by
  have hle := h.need.map.layout.pages_le
  have hlen := h.pcb.bits.1
  have hk := h.stay (sb + i) (by omega) (h.pcb.bits.2 i hi).1
  have hne : sb + i ≠ ba := by
    have hb := h.pcb.buf.2.2.2
    omega
  refine ⟨?_, hk.1, hne⟩
  rw [h.pte₃ _ hne, h.fin.kernelPte_eq (by omega), hk.2]

/-- The child's bitmap has the parent's contents. -/
theorem bitmap_contents (h : ForkEnd m m' m₁ m₂ m₃ p a b cp ba sb da D B) {i w : Nat}
    (hi : i < bitmapPgCnt) (hw : w < 1024) :
    m₃.phys (frameOf (kernelPte m₃ (sb + i))) w = m.phys (frameOf (kernelPte m (b + i))) w := by
  have hpt := h.kernelPte_bits hi
  have hlen := h.pcb.bits.1
  have hb := h.pcb.bits.2 i hi
  have hle := h.need.map.layout.pages_le
  have hpm := h.pcb.pages
  have hk := h.stay (sb + i) (by omega) hb.1
  have huse : InUse m' (frameOf (kernelPte m' (sb + i))) := h.pcb.map.inUse (by omega) hb.1
  have hpages := h.pages
  -- The frame is neither the child's directory nor the page in between.
  have hD : frameOf (kernelPte m' (sb + i)) ≠ D := by
    rw [← h.start.child.2.2, ← hk.2]
    exact fun hc => hpt.2.1 (h.start.map.inj _ _ (by omega) h.start.child.1
      (by rw [hk.2]; exact hb.1) h.start.child.2.1 hc)
  have hB : frameOf (kernelPte m' (sb + i)) ≠ B := by
    rw [← h.start.buf.2.2, ← hk.2]
    exact fun hc => hpt.2.2 (h.start.map.inj _ _ (by omega) h.start.buf.1
      (by rw [hk.2]; exact hb.1) h.start.buf.2.1 hc)
  have huse₁ : InUse m₁ (frameOf (kernelPte m' (sb + i))) := by
    rw [← hk.2]
    exact h.start.map.inUse (by omega) (by rw [hk.2]; exact hb.1)
  rw [hpt.1, h.frame₃.phys _ huse.1, h.fin.keep _ huse₁ hD hB, h.filled _ huse]
  exact hb.2.2 w hw

/-- The entry of the child's directory. -/
theorem kernelPte_dir (h : ForkEnd m m' m₁ m₂ m₃ p a b cp ba sb da D B) :
    kernelPte m₃ da = kernelPte m₁ da := by
  have hle := h.start.map.layout.pages_le
  have hda := h.start.child.1
  rw [h.pte₃ da h.start.pa_ne.2.2, h.fin.kernelPte_eq (by omega)]

/-- A page the child maps is one whose bit is set, so the parent maps it. -/
theorem child_maps (h : ForkEnd m m' m₁ m₂ m₃ p a b cp ba sb da D B) {q : Nat}
    (hq : q < 0xc0000) : (frameAt m₃ D q).isSome = true ↔
      userPage₀ ≤ q ∧ (frameAt m m.cr3 q).isSome = true := by
  have hbound : userPage₀ + userPages = 0xc0000 := by decide
  rw [h.frameAt_child hq, h.fin.page q hq]
  constructor
  · rintro ⟨i, hi, hbit, rfl⟩
    rw [h.bit i hi, h.need.agree i hi] at hbit
    exact ⟨by omega, hbit⟩
  · rintro ⟨hge, hsome⟩
    have hi : q - userPage₀ < userPages := by omega
    refine ⟨q - userPage₀, hi, ?_, by omega⟩
    rw [h.bit _ hi, h.need.agree _ hi, show userPage₀ + (q - userPage₀) = q by omega]
    exact hsome

/-- The frames of the child's pages were free, and are taken. -/
theorem child_fresh (h : ForkEnd m m' m₁ m₂ m₃ p a b cp ba sb da D B) {q u : Nat}
    (hq : q < 0xc0000) (hu : frameAt m₃ D q = some u) : UserFree m u ∧ ¬ UserFree m₃ u := by
  rw [h.frameAt_child hq] at hu
  have hf := h.fin.free q u hq hu
  refine ⟨h.grew.userFree hf.1, ?_⟩
  rintro ⟨j, hj, hju, hclear⟩
  rw [userFrames, h.frame₃.userPool] at hj
  rw [userBase, h.frame₃.userPool] at hju
  rw [h.frame₃.userPool] at hclear
  exact hf.2 ⟨j, hj, hju, hclear⟩

/-- They hold what the parent's pages hold. -/
theorem child_contents (h : ForkEnd m m' m₁ m₂ m₃ p a b cp ba sb da D B) {q u w i : Nat}
    (hq : q < 0xc0000) (hu : frameAt m₃ D q = some u) (hw : frameAt m m.cr3 q = some w)
    (hi : i < 1024) : m₃.phys u i = m.phys w i := by
  rw [h.frameAt_child hq] at hu
  have hge := FrameFree.ge h.start.map.layout (Or.inr (h.fin.free _ u hq hu).1)
  have huse := h.need.used.page _ w hq hw
  rw [h.frame₃.phys u (Or.inr hge), h.fin.content _ u w hq hu
    (by rw [h.frameAt_parent hq]; exact hw) i hi, h.grew.phys w huse]

/-- No page of the kernel heap lies in one of them. -/
theorem child_heap (h : ForkEnd m m' m₁ m₂ m₃ p a b cp ba sb da D B) {q u i : Nat}
    (hq : q < 0xc0000) (hu : frameAt m₃ D q = some u) (hi : i < kernelPages m₃) :
    walk m₃ (pageAddr i) ≠ some u := by
  intro hc
  have hle := h.map₃.layout.pages_le
  rw [walk_pageAddr h.map₃.half (by omega)] at hc
  by_cases hp : isPresent (kernelPte m₃ i) = true
  · rw [hp, if_pos rfl, Option.some.injEq] at hc
    rcases h.map₃.mapped i hi hp with ⟨j, hj, hfj, _⟩
    have hlt := kernel_lt_userBase h.map₃.layout hj
    rcases (h.child_fresh hq hu).1 with ⟨k, _, hk, _⟩
    have hbase : userBase m₃ = userBase m := by
      rw [userBase, h.frame₃.userPool, show m₂.userPool.phyAddrStart = m₁.userPool.phyAddrStart from
        h.fin.pools.up_start, h.grew.up_start, userBase]
    omega
  · rw [if_neg hp] at hc
    cases hc

/-- The child's bitmap has the parent's bits. -/
theorem child_bits (h : ForkEnd m m' m₁ m₂ m₃ p a b cp ba sb da D B) {i : Nat}
    (hi : i < userPages) :
    bitmapScanTest (procBitmap m₃ { p with bits := pageAddr sb, pgdir := pageAddr da }) i
      = bitmapScanTest (procBitmap m p) i := by
  have hle := h.need.map.layout.pages_le
  have hpages₃ := h.pages₃
  have hi8 := bitmap_byte_lt hi
  have hlt : i / 8 / 4096 < bitmapPgCnt := by omega
  have hsbl := h.pcb.bits.1
  have hbp : BitmapPages m₃ { p with bits := pageAddr sb, pgdir := pageAddr da } sb := by
    refine ⟨rfl, by omega, ?_⟩
    intro k hk
    rw [(h.kernelPte_bits hk).1]
    exact (h.pcb.bits.2 k hk).1
  refine procBitmap_bit_congr ?_
  have hbl := h.bitmap.2.1
  rw [loadByte_bitmap h.map₃ hbp hi8, loadByte_bitmap h.need.map h.bitmap hi8,
    h.bitmap_contents hlt (by omega)]
  dsimp only
  rw [byte_in_word _ (by omega), h.bitmap.1, byte_in_word _ (by omega)]

/-- The child's address space in the end. -/
theorem spaceCopied (h : ForkEnd m m' m₁ m₂ m₃ p a b cp ba sb da D B) :
    SpaceCopied m m₃ p { p with bits := pageAddr sb, pgdir := pageAddr da } D := by
  have hle := h.need.map.layout.pages_le
  have hpages₃ := h.pages₃
  have hpages := h.pages
  have hda := h.start.child.1
  have hq : ∀ v : Word, IsUser v → v.toNat / 4096 < 0xc0000 := by
    intro v hv
    unfold IsUser at hv
    omega
  have hdir := h.dir.1
  have hptea := h.kernelPte_old hdir.1 hdir.2.1
  have ha := hdir.1
  have hpteda := h.kernelPte_dir
  refine
    { dir := ⟨?_, h.dirFree⟩, same := ?_, copy := ?_, alone := ?_, others := ?_, heap := ?_
      bits := fun i hi => h.child_bits hi, fresh := ⟨sb, rfl, ?_⟩, range := ⟨rfl, rfl⟩
      keep := fun f hf => h.keep hf
      parentDir := ⟨?_, h.keep h.need.used.dir⟩, parentMap := ?_, parentPages := ?_
      parentBits := ?_, cr3 := ?_ }
  · -- The directory of the child is a page that was free.
    show walk m₃ (pageAddr da) = some D
    rw [walk_kernel h.map₃ (by omega) (by rw [hpteda]; exact h.start.child.2.1), hpteda,
      h.start.child.2.2]
  · -- Mapped in the child is what the parent maps at or above the start.
    intro v hv
    have hstart : userPage₀ ≤ v.toNat / 4096 ↔ userVaddrStart ≤ v.toNat := by
      rw [userPage₀_eq, show userVaddrStart = 0x8048000 from rfl]
      omega
    rw [maps_eq_frameAt, walk_eq_frameAt, h.child_maps (hq v hv), hstart]
  · -- A page of the child is a new frame with the bytes of the parent's page.
    intro v u hv hu
    rw [maps_eq_frameAt] at hu
    have hf := h.child_fresh (hq v hv) hu
    have hsome := ((h.child_maps (hq v hv)).mp (by rw [hu]; rfl)).2
    rcases Option.isSome_iff_exists.mp hsome with ⟨w, hw⟩
    exact ⟨hf.1, hf.2, w, by rw [walk_eq_frameAt]; exact hw,
      fun i hi => h.child_contents (hq v hv) hu hw hi⟩
  · intro v v' u hv hv' hu hu'
    rw [maps_eq_frameAt, h.frameAt_child (hq _ (by assumption))] at hu hu'
    exact h.fin.inj _ _ u (hq v hv) (hq v' hv') hu hu'
  · -- Another address space has no frame that was free before.
    intro d v v' u hd hv hv' hu hc
    rw [maps_eq_frameAt] at hu hc
    rw [hd.frameAt_eq (fun f hf => h.keep hf) (hq v' hv')] at hc
    exact (hd.page _ u (hq v' hv') hc).2 (Or.inr (h.child_fresh (hq v hv) hu).1)
  · intro v u i hv hu hi
    rw [maps_eq_frameAt] at hu
    exact h.child_heap (hq v hv) hu hi
  · -- The bitmap of the child is in pages of its own.
    intro i hi
    have hpt := h.kernelPte_bits hi
    have hb := h.pcb.bits.2 i hi
    have hsbl := h.pcb.bits.1
    refine ⟨frameOf (kernelPte m' (sb + i)), ?_, hb.2.1⟩
    rw [walk_kernel h.map₃ (by omega) (by rw [hpt.1]; exact hb.1), hpt.1]
  · -- What follows is the parent's: its directory, its pages and its bitmap.
    rw [h.dir.2, walk_kernel h.map₃ (by omega) (by rw [hptea]; exact hdir.2.1), hptea, hdir.2.2]
  · intro v hv
    rw [maps_eq_frameAt, walk_eq_frameAt]
    exact h.need.used.frameAt_eq (fun f hf => h.keep hf) (hq v hv)
  · intro v w hv hw
    rw [walk_eq_frameAt] at hw
    exact h.keep (h.need.used.page _ w (hq v hv) hw)
  · intro i hi
    have hi' : i < bitmapPgCnt * 4096 := by
      have hlen : userBitmapLen = 94199 := rfl
      rw [hlen] at hi
      show i < 23 * 4096
      omega
    have hbl := h.bitmap.2.1
    exact procBitmap_keep h.need.map h.map₃ h.bitmap hpages₃
      (fun k hk => h.kernelPte_old (by omega) (h.bitmap.2.2 k hk)) (fun f hf => h.keep hf) hi'
  · rw [h.frame₃.cr3, h.fin.cr3, h.cr3]

end ForkEnd

/-- The memory `sys_fork` leaves, with the results of the calls it makes. -/
theorem fork_memory {m : Machine} {p : ProcMem} (h : Forkable m p) :
    ∃ mA mB mC m' m₁ m₂ m₃ a b cp ba sb da D B,
      getKernelPages m 1 = .ok (mA, pageAddr cp) ∧
      getKernelPages mA 1 = .ok (mB, pageAddr ba) ∧
      getKernelPages mB bitmapPgCnt = .ok (mC, pageAddr sb) ∧
      memcpyPages bitmapPgCnt mC (pageAddr sb) p.bits = .ok m' ∧
      createPageDir m' = .ok (m₁, pageAddr da) ∧
      copyBodyStack3 m₁ { p with bits := pageAddr sb, pgdir := pageAddr da } p (pageAddr ba)
        = .ok m₂ ∧
      mfreePage m₂ .kernel (pageAddr ba) 1 = .ok m₃ ∧
      ForkEnd m m' m₁ m₂ m₃ p a b cp ba sb da D B := by
  rcases h.dir with ⟨a, hdir, hpg⟩
  rcases h.bitmap with ⟨b, hb⟩
  have hmap := h.map
  have hle := hmap.layout.pages_le
  have hkr := h.kernel
  rcases pcb_copied hmap hdir hb h.fits (by omega) with
    ⟨mA, mB, mC, m', cp, ba, sb, hA, hB, hC, hcopy, hcp⟩
  have hcount := hcp.count
  rcases loop_start hmap h.layout hdir h.used hcp (by omega) with
    ⟨m₁, da, D, B, hcreate, hs, hgrew, hcr3, huP, hpages, hcount₁, hstay, hDfree, hkeep₁, hinit⟩
  have hpteOld : ∀ i, i < kernelPages m → isPresent (kernelPte m i) = true →
      kernelPte m₁ i = kernelPte m i ∧ i ≠ ba ∧ i ≠ da := by
    intro i hi hp
    have hk := hcp.keep i hi hp
    have hk' := hstay i hi (by rw [hk.2.2.2]; exact hp)
    exact ⟨by rw [hk'.2, hk.2.2.2], hk.2.1, hk'.1⟩
  have hblen := hb.2.1
  have hpteB : ∀ k, k < bitmapPgCnt → kernelPte m₁ (b + k) = kernelPte m (b + k) :=
    fun k hk => (hpteOld (b + k) (by omega) (hb.2.2 k hk)).1
  have hbitmap₁ : BitmapPages m₁ p b := by
    refine ⟨hb.1, by omega, fun k hk => ?_⟩
    rw [hpteB k hk]
    exact hb.2.2 k hk
  have hbit : ∀ i, i < userPages → bitmapScanTest (procBitmap m₁ p) i
      = bitmapScanTest (procBitmap m p) i := fun i hi =>
    procBitmap_bit_congr (procBitmap_keep hmap hs.map hb hpages hpteB hgrew.phys (bitmap_byte_lt hi))
  have hroom : LoopRoom m₁ p D B b := by
    refine
      { bitmap := hbitmap₁, apart := ?_, start := h.start, len := h.len, agree := ?_, kernel := ?_
        user := ?_ }
    · intro k hk
      have ho := hpteOld (b + k) (by omega) (hb.2.2 k hk)
      have hpk : isPresent (kernelPte m₁ (b + k)) = true := hbitmap₁.2.2 k hk
      refine ⟨?_, ?_⟩
      · rw [← hs.child.2.2]
        exact fun hc => ho.2.2 (hs.map.inj _ _ (by omega) hs.child.1 hpk hs.child.2.1 hc)
      · rw [← hs.buf.2.2]
        exact fun hc => ho.2.1 (hs.map.inj _ _ (by omega) hs.buf.1 hpk hs.buf.2.1 hc)
    · intro i hi
      have hq : userPage₀ + i < 0xc0000 := by
        rw [userPages_eq] at hi
        rw [userPage₀_eq]
        omega
      rw [hbit i hi, hcr3, h.used.frameAt_eq hgrew.phys hq]
      exact h.agree i hi
    · rw [tablesNeeded_congr hbit]
      omega
    · rw [pagesNeeded_congr hbit, huP]
      exact h.user
  have hba := hcp.buf.1
  obtain ⟨c, hc⟩ : ∃ c : ProcMem, c = { p with bits := pageAddr sb, pgdir := pageAddr da } := ⟨_, rfl⟩
  rcases copyBodyStack3_copying hs hroom (show c.pgdir = pageAddr da by rw [hc]) hpg (hinit _) with
    ⟨m₂, hrun, hfin⟩
  rw [hc] at hrun
  have hlen₂ := hfin.pages_eq
  have hpte₂ : kernelPte m₂ ba = kernelPte m₁ ba := hfin.kernelPte_eq (by omega)
  -- The page in between is given back.
  rcases hfin.map.mapped ba (by omega) (by rw [hpte₂]; exact hs.buf.2.1) with ⟨jb, hjb, hfb, _⟩
  rcases mfreePage_mapped (fun _ => jb) hfin.map.half hfin.map.layout (s := ba) (n := 1)
    (by omega) (by omega) (by
      intro i h1 h2
      rw [show i = ba by omega]
      exact ⟨hjb, hfb⟩) with ⟨m₃, hfree, hkf, _, hpteo, _⟩
  have hmap₃ : KernelMap m₃ := by
    rcases hfin.map.release (s := ba) (n := 1) (by omega) (by omega) (by
      intro i h1 h2
      rw [show i = ba by omega, hfin.map.agree ba (by omega), hpte₂]
      exact hs.buf.2.1) with ⟨m₄, hfree', hmap₄, _⟩
    rw [hfree, Except.ok.injEq] at hfree'
    rw [hfree']
    exact hmap₄
  refine ⟨mA, mB, mC, m', m₁, m₂, m₃, a, b, cp, ba, sb, da, D, B, hA, hB, hC, hcopy, hcreate, hrun,
    hfree, ?_⟩
  exact
    { need := h, dir := ⟨hdir, hpg⟩, bitmap := hb, pcb := hcp, start := hs, grew := hgrew
      cr3 := hcr3, pages := hpages, stay := hstay, dirFree := hDfree, filled := hkeep₁, bit := hbit
      fin := hfin, map₃ := hmap₃, frame₃ := hkf, pte₃ := fun i hi => hpteo i (by omega) }

/-- The descriptors of a process that are in use refer to open files. -/
def FdsOpen (s : Fs) (t : Nat) : Prop :=
  ∀ fd, 3 ≤ fd → fd < maxFilesOpenPerProc → s.fdTable t fd = -1 ∨
    (0 ≤ s.fdTable t fd ∧ s.fdTable t fd < maxFileOpen ∧
      ∃ a, (s.fileTable (s.fdTable t fd).toNat).fdInode = some a ∧
        s.Sees t a)

theorem updateInodeOpenCntsFrom_ok {cur t : Nat} (n : Nat) {localFd : Nat} {s : Fs}
    (h : ∀ fd, localFd ≤ fd → fd < localFd + n → s.fdTable t fd = -1 ∨
      (0 ≤ s.fdTable t fd ∧ s.fdTable t fd < maxFileOpen ∧
        ∃ a, (s.fileTable (s.fdTable t fd).toNat).fdInode = some a ∧
          s.Sees cur a)) :
    ∃ s', updateInodeOpenCntsFrom cur t n localFd s = .ok s' := by
  induction n generalizing localFd s with
  | zero => exact ⟨s, rfl⟩
  | succ n ih =>
      rcases h localFd (by omega) (by omega) with hfree | ⟨hge, hlt, a, ha, hhome⟩
      · have hmax : (s.fdTable t localFd : Int) < maxFileOpen := by
          rw [hfree]
          decide
        rw [updateInodeOpenCntsFrom]
        dsimp only
        rw [ensure_pos hmax, ok_bind, if_neg (fun hc => hc hfree), ok_bind]
        exact ih (fun fd h1 h2 => h fd (by omega) (by omega))
      · have hne : s.fdTable t localFd ≠ -1 := by omega
        rw [updateInodeOpenCntsFrom]
        dsimp only
        rw [ensure_pos hlt, ok_bind, if_pos hne, ha]
        dsimp only
        rw [ensure_pos hhome, ok_bind, ok_bind]
        exact ih (fun fd h1 h2 => h fd (by omega) (by omega))

/-- The kernel after `sys_fork`, whose memory, pids and file system are
    given. -/
def forkedKernel (k : Kernel) (m : Machine) (pool : Bitmap) (pid : Nat) (fs : Fs)
    (child bits pgdir : Word) : Kernel :=
  let v := k.pcb k.cur
  { k with
    mem := m
    pidPool := pool
    fs := fs
    pcb := Function.update k.pcb child
      { v with
        pid := pid
        elapsedTicks := 0
        status := .ready
        ticks := v.priority
        parentPid := v.pid
        name := v.name ++ forkSuffix
        mem := { v.mem with bits := bits, pgdir := pgdir } }
    threadReadyList := k.threadReadyList ++ [child]
    threadAllList := k.threadAllList ++ [child] }

/-- `sys_fork` where memory suffices: what is left to go wrong are the pids,
    the descriptors and the lists. -/
theorem sysFork_eq {k : Kernel} {mA mB mC m' m₁ m₂ m₃ : Machine}
    {child bufPage bits pgdir : Word} (hname : (k.pcb k.cur).name.length < 11)
    (hA : getKernelPages k.mem 1 = .ok (mA, child)) (hB : getKernelPages mA 1 = .ok (mB, bufPage))
    (hC : getKernelPages mB bitmapPgCnt = .ok (mC, bits))
    (hcopy : memcpyPages bitmapPgCnt mC bits (k.pcb k.cur).mem.bits = .ok m')
    (hcreate : createPageDir m' = .ok (m₁, pgdir))
    (hloop : copyBodyStack3 m₁ { (k.pcb k.cur).mem with bits := bits, pgdir := pgdir }
      (k.pcb k.cur).mem bufPage = .ok m₂)
    (hfree : mfreePage m₂ .kernel bufPage 1 = .ok m₃)
    (hnz : child ≠ 0 ∧ bufPage ≠ 0 ∧ bits ≠ 0 ∧ pgdir ≠ 0 ∧ (k.pcb k.cur).mem.pgdir ≠ 0)
    (hne : k.cur ≠ child) :
    sysFork k = (do
      let r ← forkPid k.pidPool
      let fs ← updateInodeOpenCnts (inheritFds k.fs child.toNat k.cur.toNat) k.cur.toNat child.toNat
      ensure (child ∉ k.threadReadyList) .sysFork
      ensure (child ∉ k.threadAllList) .sysFork
      .ok (forkedKernel k m₃ r.1 r.2 fs child bits pgdir, (r.2 : Int))) := by
  rw [sysFork, hA, ok_bind]
  dsimp only
  rw [if_neg hnz.1, ensure_pos hnz.2.2.2.2, ok_bind, copyProcess]
  dsimp only
  rw [hB, ok_bind]
  dsimp only
  rw [if_neg hnz.2.1, copyPcbVaddrbitmapStack0]
  dsimp only
  -- The pid comes first. A failure there is the failure of both sides.
  cases hpid : forkPid k.pidPool with
  | error e => rfl
  | ok r =>
      rw [ok_bind]
      dsimp only [Kernel.setPcb]
      rw [hC, ok_bind]
      dsimp only
      rw [if_neg hnz.2.2.1, hcopy, ok_bind, ensure_pos hname, ok_bind, ok_bind]
      dsimp only
      rw [if_neg (by decide), hcreate, ok_bind]
      dsimp only
      rw [if_neg hnz.2.2.2.1]
      simp only [Function.update_self, Function.update_of_ne hne, Function.update_idem]
      rw [hloop, ok_bind]
      -- The descriptors come after memory, before the buffer is given back.
      cases hfs : updateInodeOpenCnts (inheritFds k.fs child.toNat k.cur.toNat) k.cur.toNat
          child.toNat with
      | error e => rfl
      | ok fs =>
          rw [ok_bind, hfree, ok_bind, ok_bind, ok_bind]
          dsimp only
          rw [if_neg (by decide)]
          simp only [Function.update_self]
          rfl

theorem pageAddr_inj {i j : Nat} (hi : i ≤ 32768) (hj : j ≤ 32768) (h : pageAddr i = pageAddr j) :
    i = j := by
  have hi' := toNat_pageAddr hi
  have hj' := toNat_pageAddr hj
  rw [h] at hi'
  omega

/-- No task on a list has its PCB in a page of the kernel heap that is not
    mapped. -/
def ListedMapped (k : Kernel) : Prop :=
  ∀ i, i < kernelPages k.mem → isPresent (kernelPte k.mem i) = false →
    pageAddr i ∉ k.threadReadyList ∧ pageAddr i ∉ k.threadAllList

/-- `fork` copies the address space. For a process whose bitmap says what it
    maps, with a name of fewer than eleven bytes and with enough kernel pages
    and frames, a completed `sys_fork` returns the pid of a child with a copy
    of the address space and leaves the parent as it was; and it completes
    when there is a pid, the descriptors are valid and the lists hold no
    address of a page that is not mapped. -/
theorem fork_copies_address_space (k : Kernel)
    (hcur : ∃ i, k.cur = pageAddr i ∧ i < kernelPages k.mem ∧
      isPresent (kernelPte k.mem i) = true)
    (hname : (k.pcb k.cur).name.length < 11) (h : Forkable k.mem (k.pcb k.cur).mem) :
    (∀ k' r, sysFork k = .ok (k', r) → r ≠ -1 ∧ ∃ child D,
      k'.threadAllList = k.threadAllList ++ [child] ∧ (k'.pcb child).pid = r ∧
      SpaceCopied k.mem k'.mem (k.pcb k.cur).mem (k'.pcb child).mem D ∧
      k'.pcb k.cur = k.pcb k.cur ∧ k'.cur = k.cur) ∧
    (0 < freeCount k.pidPool → FdsOpen k.fs k.cur.toNat → ListedMapped k →
      ∃ k' r, sysFork k = .ok (k', r)) := by
  have hle := h.map.layout.pages_le
  rcases hcur with ⟨i, hci, hi, hpi⟩
  rcases fork_memory h with
    ⟨mA, mB, mC, m', m₁, m₂, m₃, a, b, cp, ba, sb, da, D, B, hA, hB, hC, hcopy, hcreate, hloop, hfree,
      hend⟩
  have hcp := hend.pcb.pcb.1
  have hba := hend.pcb.buf.1
  have hsb := hend.pcb.bits.1
  have hda := hend.start.child.1
  have hpages := hend.pages
  have ha := hend.dir.1.1
  have hkeep := hend.pcb.keep i hi hpi
  -- The page of the child was not mapped, and that of the parent was.
  have hne : k.cur ≠ pageAddr cp := by
    rw [hci]
    exact fun hc => hkeep.1 (pageAddr_inj (by omega) (by omega) hc)
  have hrun := sysFork_eq hname hA hB hC hcopy hcreate hloop hfree
    ⟨pageAddr_ne_zero (by omega), pageAddr_ne_zero (by omega), pageAddr_ne_zero (by omega),
      pageAddr_ne_zero (by omega), by rw [hend.dir.2]; exact pageAddr_ne_zero (by omega)⟩ hne
  refine ⟨?_, ?_⟩
  · intro k' r hk
    rw [hrun] at hk
    rcases bind_eq_ok.mp hk with ⟨⟨pool, pid⟩, _, hk⟩
    rcases bind_eq_ok.mp hk with ⟨fs, _, hk⟩
    rcases bind_eq_ok.mp hk with ⟨_, _, hk⟩
    rcases bind_eq_ok.mp hk with ⟨_, _, hk⟩
    rw [Except.ok.injEq, Prod.mk.injEq] at hk
    rw [← hk.1, ← hk.2]
    have hchild : (forkedKernel k m₃ pool pid fs (pageAddr cp) (pageAddr sb) (pageAddr da)).pcb
        (pageAddr cp) = _ := Function.update_self _ _ _
    refine ⟨?_, pageAddr cp, D, rfl, ?_, ?_, ?_, rfl⟩
    · show (pid : Int) ≠ -1
      omega
    · rw [hchild]
    · rw [hchild]
      exact hend.spaceCopied
    · exact Function.update_of_ne hne _ _
  · -- It completes: the pid is there, the descriptors are valid, and the page
    -- of the child is on no list, as it was not mapped.
    intro hpid hfds hlists
    have hfree : ∃ pool pid, forkPid k.pidPool = .ok (pool, pid) := by
      rcases exists_clear hpid with ⟨s, hs, hclear⟩
      have hfr : FreeRun k.pidPool 1 s := by
        refine ⟨by omega, fun j h1 h2 => ?_⟩
        rw [show j = s by omega]
        exact hclear
      rcases bitmapScan_fit (Nat.le_refl 1) hfr with ⟨j, hj, _⟩
      exact ⟨_, _, by rw [forkPid, allocatePid, hj, ok_bind]⟩
    have hupd : ∃ fs, updateInodeOpenCnts (inheritFds k.fs (pageAddr cp).toNat k.cur.toNat)
        k.cur.toNat (pageAddr cp).toNat = .ok fs := by
      refine updateInodeOpenCntsFrom_ok _ ?_
      intro fd h1 h2
      have hinh : (inheritFds k.fs (pageAddr cp).toNat k.cur.toNat).fdTable (pageAddr cp).toNat
          = k.fs.fdTable k.cur.toNat := Function.update_self _ _ _
      rw [hinh]
      exact hfds fd h1 h2
    have hclear : isPresent (kernelPte k.mem cp) = false := by
      by_contra hc
      rw [Bool.not_eq_false] at hc
      exact (hend.pcb.keep cp hcp hc).1 rfl
    rcases hfree with ⟨pool, pid, hpool⟩
    rcases hupd with ⟨fs, hfs⟩
    have hl := hlists cp hcp hclear
    exact ⟨_, _, by rw [hrun, hpool, ok_bind, hfs, ok_bind, ensure_pos hl.1, ok_bind,
      ensure_pos hl.2, ok_bind]⟩

section Witness

/-- A bitmap of 480 bytes whose first `n` bits are set. -/
def firstBits (n : Nat) : Bitmap := bitmapSetRange ⟨480, fun _ => 0⟩ 0 true n

theorem firstBits_test (n i : Nat) : bitmapScanTest (firstBits n) i = decide (i < n) := by
  rw [firstBits, bitmapScanTest_setRange]
  by_cases hi : i < n
  · rw [if_pos ⟨by omega, by omega⟩, decide_eq_true hi]
  · rw [if_neg (by omega), decide_eq_false hi, bitmapScanTest]
    show ((0#8 &&& _) != 0) = false
    rw [BitVec.zero_and]
    rfl

theorem firstBits_len (n : Nat) : (firstBits n).btmpBytesLen = 480 := bitmapSetRange_len _ _ _ _

theorem firstBits_free (n : Nat) : freeCount (firstBits n) = 3840 - n := by
  have hset : (Finset.range 3840).filter (fun i => bitmapScanTest (firstBits n) i = false)
      = Finset.Ico n 3840 := by
    ext i
    rw [Finset.mem_filter, Finset.mem_range, Finset.mem_Ico, firstBits_test, decide_eq_false_iff_not]
    omega
  rw [freeCount, firstBits_len, hset, Nat.card_Ico]

/-- Requests are served in order from a bitmap whose first bits are set. -/
theorem fitsSeq_firstBits (ns : List Nat) {b : Bitmap} {n : Nat}
    (hb : ∀ i, bitmapScanTest b i = decide (i < n)) (hpos : ∀ k ∈ ns, 1 ≤ k)
    (hlen : n + ns.sum ≤ b.btmpBytesLen * 8) : FitsSeq b ns := by
  induction ns generalizing b n with
  | nil => exact trivial
  | cons k ns ih =>
      rw [List.sum_cons] at hlen
      have hk := hpos k List.mem_cons_self
      refine ⟨n, ⟨by omega, ?_⟩, ?_, ?_⟩
      · intro i h1 _
        rw [hb i]
        exact decide_eq_false (by omega)
      · intro s' hs'
        have hclear := hs'.2 s' (by omega) (by omega)
        rw [hb s', decide_eq_false_iff_not] at hclear
        omega
      · refine ih (n := n + k) ?_ (fun j hj => hpos j (List.mem_cons_of_mem k hj)) ?_
        · intro i
          rw [bitmapScanTest_setRange, hb i]
          by_cases hi : n ≤ i ∧ i < n + k
          · rw [if_pos hi, decide_eq_true (by omega)]
          · rw [if_neg hi]
            by_cases hin : i < n
            · rw [decide_eq_true hin, decide_eq_true (by omega)]
            · rw [decide_eq_false hin, decide_eq_false (by omega)]
        · rw [bitmapSetRange_len]
          omega

/-- A directory with the kernel half, itself, and one table of user pages. -/
def stackDir (w : Nat) : Word :=
  if 768 ≤ w ∧ w < 1023 then entryFor (BitVec.ofNat 32 (0x101 + (w - 768)) * pgSize)
  else if w = 1023 then entryFor 0x218000
  else if w = 767 then entryFor 0x219000
  else 0

/-- Memory with one process that maps its stack page: page 0 of the kernel
    heap is its PCB, pages 1 to 23 its bitmap and page 24 its directory. -/
def stackMachine : Machine where
  phys f w :=
    if f = 0x218 then stackDir w
    else if f = 0x219 then if w = 1023 then entryFor 0x1100000 else 0
    else if f = 0x101 then
      if 256 ≤ w ∧ w < 281 then entryFor (BitVec.ofNat 32 (0x200 + (w - 256)) * pgSize) else 0
    else if f = 0x217 then if w = 1021 then 0x00800000 else 0
    else 0
  cr3 := 0x218
  kernelPool := ⟨firstBits 26, 0x200000, 0xf00000⟩
  userPool := ⟨firstBits 1, 0x1100000, 0xf00000⟩
  kernelVaddr := ⟨firstBits 25, kHeapStart⟩
  cur := ⟨pageAddr 24, pageAddr 1, userBitmapLen, BitVec.ofNat 32 userVaddrStart⟩

theorem stackMachine_half : KernelHalf stackMachine := by
  refine ⟨⟨by decide, by decide⟩, ?_, Or.inr (by decide)⟩
  intro d h1 h2
  have hpde : stackMachine.phys stackMachine.cr3 d
      = entryFor (BitVec.ofNat 32 (0x101 + (d - 768)) * pgSize) := by
    show stackDir d = _
    rw [stackDir, if_pos ⟨h1, h2⟩]
  have hnat := toNat_mul_pgSize (n := 0x101 + (d - 768)) (by omega)
  rw [hpde]
  refine ⟨isPresent_entryFor (by omega), ?_⟩
  rw [frameOf_entryFor (by omega), hnat]
  omega

theorem stackMachine_pages : kernelPages stackMachine = 3840 := by
  show (firstBits 25).btmpBytesLen * 8 = 3840
  rw [firstBits_len]

theorem stackMachine_frames : kernelFrames stackMachine = 3840 := by
  show (firstBits 26).btmpBytesLen * 8 = 3840
  rw [firstBits_len]

theorem stackMachine_pte {i : Nat} (hi : i < 3840) : kernelPte stackMachine i
    = if i < 25 then entryFor (BitVec.ofNat 32 (0x200 + i) * pgSize) else 0 := by
  show (if pteFrame i = 0x218 then _ else if pteFrame i = 0x219 then _ else if pteFrame i = 0x101 then
    _ else if pteFrame i = 0x217 then _ else (0 : Word)) = _
  have hf : pteFrame i = 0x101 + (256 + i) / 1024 := rfl
  rw [if_neg (by omega), if_neg (by omega)]
  by_cases hlow : (256 + i) / 1024 = 0
  · rw [if_pos (by omega)]
    by_cases hi' : i < 25
    · rw [if_pos (by omega), if_pos hi', show (256 + i) % 1024 - 256 = i by omega]
    · rw [if_neg (by omega), if_neg hi']
  · rw [if_neg (by omega), if_neg (by omega), if_neg (by omega)]

theorem stackMachine_present {i : Nat} (hi : i < 3840) :
    isPresent (kernelPte stackMachine i) = decide (i < 25) := by
  rw [stackMachine_pte hi]
  by_cases hi' : i < 25
  · have hnat := toNat_mul_pgSize (n := 0x200 + i) (by omega)
    rw [if_pos hi', decide_eq_true hi']
    exact isPresent_entryFor (by omega)
  · rw [if_neg hi', decide_eq_false hi']
    rfl

theorem stackMachine_frame {i : Nat} (hi : i < 25) :
    frameOf (kernelPte stackMachine i) = 0x200 + i := by
  have hnat := toNat_mul_pgSize (n := 0x200 + i) (by omega)
  rw [stackMachine_pte (by omega), if_pos hi, frameOf_entryFor (by omega), hnat]
  omega

theorem stackMachine_map : KernelMap stackMachine := by
  have hpages := stackMachine_pages
  have hframes := stackMachine_frames
  have hlt : ∀ i, i < kernelPages stackMachine → isPresent (kernelPte stackMachine i) = true →
      i < 25 := by
    intro i hi hp
    rw [stackMachine_present (by omega)] at hp
    exact of_decide_eq_true hp
  refine ⟨stackMachine_half, ⟨rfl, ?_, rfl, ?_⟩, ?_, ?_, ?_⟩
  · show 0x200000 + (firstBits 26).btmpBytesLen * 8 * 4096 ≤ (0x1100000 : Word).toNat
    rw [firstBits_len]
    decide
  · show (firstBits 25).btmpBytesLen * 8 ≤ 32768
    rw [firstBits_len]
    omega
  · intro i hi
    rw [stackMachine_present (by omega)]
    exact firstBits_test 25 i
  · intro i hi hp
    have hi' := hlt i hi hp
    refine ⟨i, by omega, stackMachine_frame hi', ?_⟩
    show bitmapScanTest (firstBits 26) i = true
    rw [firstBits_test]
    exact decide_eq_true (by omega)
  · intro i j hi hj hpi hpj heq
    rw [stackMachine_frame (hlt i hi hpi), stackMachine_frame (hlt j hj hpj)] at heq
    omega

/-- The one page the process maps is its stack page. -/
theorem stackMachine_frameAt {q : Nat} (hq : q < 0xc0000) :
    frameAt stackMachine stackMachine.cr3 q = if q = 0xbffff then some 0x1100 else none := by
  have hpde : stackMachine.phys stackMachine.cr3 (q / 1024)
      = if q / 1024 = 767 then entryFor 0x219000 else 0 := by
    show stackDir (q / 1024) = _
    rw [stackDir, if_neg (by omega), if_neg (by omega)]
  have hframe : frameOf (entryFor 0x219000) = 0x219 := by decide
  by_cases he : q / 1024 = 767
  · have hpte : stackMachine.phys 0x219 (q % 1024)
        = if q % 1024 = 1023 then entryFor 0x1100000 else 0 := rfl
    rw [frameAt, hpde, if_pos he, if_pos (by decide), hframe, hpte]
    by_cases hx : q % 1024 = 1023
    · rw [if_pos hx, if_pos (by decide), if_pos (by omega)]
      rfl
    · rw [if_neg hx, if_neg (by decide), if_neg (by omega)]
  · rw [frameAt, hpde, if_neg he, if_neg (by decide), if_neg (by omega)]

theorem stackMachine_inUse {f : Nat} (hf : 0x200 ≤ f ∧ f < 0x21a ∨ f = 0x1100) :
    InUse stackMachine f := by
  refine ⟨by omega, ?_⟩
  have hbase : userBase stackMachine = 0x1100 := by decide
  rintro (⟨j, _, hj, hclear⟩ | ⟨j, _, hj, hclear⟩)
  · rw [show stackMachine.kernelPool.poolBitmap = firstBits 26 from rfl, firstBits_test,
      decide_eq_false_iff_not] at hclear
    rw [show kernelFrames stackMachine = 3840 from stackMachine_frames] at *
    omega
  · rw [show stackMachine.userPool.poolBitmap = firstBits 1 from rfl, firstBits_test,
      decide_eq_false_iff_not] at hclear
    omega

theorem stackMachine_bitmap : BitmapPages stackMachine stackMachine.cur 1 := by
  have hcnt : bitmapPgCnt = 23 := rfl
  refine ⟨rfl, by rw [stackMachine_pages]; omega, ?_⟩
  intro i hi
  rw [stackMachine_present (by omega)]
  exact decide_eq_true (by omega)

/-- Bit 7 of the third byte of `0x00800000` is its only bit. -/
theorem stackWord_bit : ∀ s, s < 4 → ∀ t, t < 8 →
    ((((0x00800000 : Word) >>> (s * 8)).setWidth 8 &&& (1#8 <<< t)) != 0)
      = decide (s = 2 ∧ t = 7) := by
  decide

/-- The one bit that is set is the last one. -/
theorem stackMachine_bit {i : Nat} (hi : i < 753592) :
    bitmapScanTest (procBitmap stackMachine stackMachine.cur) i = decide (i = 753591) := by
  have hcnt : bitmapPgCnt = 23 := rfl
  have hi8 : i / 8 < bitmapPgCnt * 4096 := by omega
  have hbyte := loadByte_bitmap stackMachine_map stackMachine_bitmap hi8
  rw [show stackMachine.cur.bits = pageAddr 1 from rfl, byte_in_word _ (by omega),
    stackMachine_frame (show 1 + i / 8 / 4096 < 25 by omega)] at hbyte
  have hbits : (procBitmap stackMachine stackMachine.cur).bits (i / 8)
      = ((stackMachine.phys (0x200 + (1 + i / 8 / 4096)) (i / 8 % 4096 / 4)
          >>> (i / 8 % 4 * 8)).setWidth 8) :=
    procBitmap_bits hbyte
  rw [bitmapScanTest, hbits]
  by_cases hw : i / 8 / 4096 = 22 ∧ i / 8 % 4096 / 4 = 1021
  · have hphys : stackMachine.phys (0x200 + (1 + i / 8 / 4096)) (i / 8 % 4096 / 4)
        = 0x00800000 := by
      rw [hw.1, hw.2]
      rfl
    rw [hphys, stackWord_bit _ (by omega) _ (by omega)]
    exact decide_eq_decide.mpr (by omega)
  · have hphys : stackMachine.phys (0x200 + (1 + i / 8 / 4096)) (i / 8 % 4096 / 4) = 0 := by
      show (if _ then _ else if _ then _ else if _ then _ else if _ then
        if _ then (0x00800000 : Word) else 0 else 0) = 0
      rw [if_neg (by omega), if_neg (by omega), if_neg (by omega)]
      by_cases hf : 0x200 + (1 + i / 8 / 4096) = 0x217
      · rw [if_pos hf, if_neg (by omega)]
      · rw [if_neg hf]
    rw [hphys, decide_eq_false (by omega)]
    have hzero : ((0 : Word) >>> (i / 8 % 4 * 8)).setWidth 8 = 0#8 := by
      rw [show (0 : Word) = 0#32 from rfl, BitVec.zero_ushiftRight, BitVec.setWidth_zero]
    rw [hzero, BitVec.zero_and]
    rfl

theorem pagesNeeded_single (c n : Nat) :
    pagesNeeded (fun i => decide (i = c)) n = if c < n then 1 else 0 := by
  induction n with
  | zero => rfl
  | succ n ih =>
      rw [pagesNeeded, ih]
      simp only [decide_eq_true_eq]
      split_ifs <;> omega

theorem tablesNeeded_le_pages (bit : Nat → Bool) (n : Nat) :
    tablesNeeded bit n ≤ pagesNeeded bit n := by
  induction n with
  | zero => exact Nat.le_refl _
  | succ n ih =>
      rw [tablesNeeded, pagesNeeded]
      by_cases hf : FirstInTable bit n
      · rw [if_pos hf, if_pos hf.1]
        omega
      · rw [if_neg hf]
        omega

/-- Its one table of user pages. -/
theorem stackMachine_table {e : Nat} (he : e < 768)
    (hp : isPresent (stackMachine.phys stackMachine.cr3 e) = true) :
    e = 767 ∧ frameOf (stackMachine.phys stackMachine.cr3 e) = 0x219 := by
  have hpde : stackMachine.phys stackMachine.cr3 e = if e = 767 then entryFor 0x219000 else 0 := by
    show stackDir e = _
    rw [stackDir, if_neg (by omega), if_neg (by omega)]
  rw [hpde] at hp ⊢
  by_cases h : e = 767
  · rw [if_pos h]
    exact ⟨h, by decide⟩
  · rw [if_neg h] at hp
    exact absurd hp (by decide)

theorem stackMachine_forkable : Forkable stackMachine stackMachine.cur := by
  have hpages := stackMachine_pages
  have hq : ∀ q w, q < 0xc0000 → frameAt stackMachine stackMachine.cr3 q = some w → w = 0x1100 := by
    intro q w hq hw
    rw [stackMachine_frameAt hq] at hw
    by_cases h : q = 0xbffff
    · rw [if_pos h, Option.some.injEq] at hw
      exact hw.symm
    · rw [if_neg h] at hw
      cases hw
  -- The bitmap has one bit, that of the stack page.
  have hneed : pagesNeeded (bitmapScanTest (procBitmap stackMachine stackMachine.cur)) userPages = 1 := by
    have hone : ∀ i, i < userPages → bitmapScanTest (procBitmap stackMachine stackMachine.cur) i
        = (fun i => decide (i = 753591)) i := fun i hi => stackMachine_bit hi
    rw [pagesNeeded_congr hone, pagesNeeded_single, userPages_eq]
    rfl
  have htables := tablesNeeded_le_pages
    (bitmapScanTest (procBitmap stackMachine stackMachine.cur)) userPages
  refine
    { map := stackMachine_map, layout := ⟨by decide, ?_⟩
      dir := ⟨24, ⟨by omega, ?_, stackMachine_frame (by omega)⟩, rfl⟩
      bitmap := ⟨1, stackMachine_bitmap⟩, start := rfl, len := rfl
      used := ⟨stackMachine_inUse (Or.inl (by decide)), ?_, ?_⟩, agree := ?_, fits := ?_
      kernel := ?_, user := ?_ }
  · show (0x1100000 : Word).toNat + (firstBits 1).btmpBytesLen * 8 * 4096 ≤ 2 ^ 32
    rw [firstBits_len]
    decide
  · rw [stackMachine_present (by omega)]
    rfl
  · intro e he hp
    rw [(stackMachine_table he hp).2]
    exact stackMachine_inUse (Or.inl (by decide))
  · intro q w hq' hw
    exact stackMachine_inUse (Or.inr (hq q w hq' hw))
  · intro i hi
    have hi' : i < 753592 := hi
    rw [stackMachine_bit hi', stackMachine_frameAt (by rw [userPage₀_eq]; omega), userPage₀_eq]
    by_cases h : i = 753591
    · rw [if_pos (by omega), decide_eq_true h]
      rfl
    · rw [if_neg (by omega), decide_eq_false h]
      rfl
  · refine fitsSeq_firstBits _ (firstBits_test 25) (by decide) ?_
    show 25 + _ ≤ (firstBits 25).btmpBytesLen * 8
    rw [firstBits_len]
    decide
  · show _ ≤ freeCount (firstBits 26)
    have hcnt : bitmapPgCnt = 23 := rfl
    rw [firstBits_free]
    omega
  · show _ ≤ freeCount (firstBits 1)
    rw [firstBits_free, hneed]
    omega

theorem stackMachine_dirPage : DirPage stackMachine 24 := by
  rcases stackMachine_forkable.dir with ⟨a, ha, hpg⟩
  have h24 : pageAddr 24 = pageAddr a := hpg
  have hle := stackMachine_map.layout.pages_le
  rw [pageAddr_inj (by omega) (Nat.le_trans (Nat.le_of_lt ha.1) hle) h24]
  exact ha

/-- A file system without open files. -/
def closedFs : Fs where
  disk _ := 0
  part := ⟨0, 0, ⟨0, 0, 0, 0, 0, 0, 0, 0, 0, 0, 0, 0, 0⟩, ⟨0, fun _ => 0⟩, ⟨0, fun _ => 0⟩, []⟩
  inode _ := ⟨0, 0, 0, false, fun _ => 0⟩
  home _ := .freed
  nextInode := 0
  rootDir := 0
  fileTable _ := ⟨0, 0, none⟩
  isUser _ := true
  fdTable _ _ := -1
  cwdInodeNr _ := 0
  mallocs _ := true
  junk _ := 0

/-- The kernel with that process running. -/
def stackKernel : Kernel where
  mem := stackMachine
  pidPool := bitmapInit ⟨128, fun _ => 0⟩
  fs := closedFs
  pcb _ := ⟨1, -1, .running, [0x69, 0x6e, 0x69, 0x74], 31, 31, 0, stackMachine.cur⟩
  cur := pageAddr 0
  threadReadyList := []
  threadAllList := [pageAddr 0]

theorem stackKernel_listed : ListedMapped stackKernel := by
  have hpages := stackMachine_pages
  intro i hi habs
  refine ⟨List.not_mem_nil, ?_⟩
  intro hc
  have hi' : i < 3840 := by
    rw [← hpages]
    exact hi
  rw [show stackKernel.threadAllList = [pageAddr 0] from rfl, List.mem_singleton] at hc
  have hi0 := pageAddr_inj (by omega) (by omega) hc
  rw [show kernelPte stackKernel.mem i = kernelPte stackMachine i from rfl,
    stackMachine_present hi', hi0] at habs
  cases habs

/-- `fork_copies_address_space` for that process: the child has a copy of the
    stack page. -/
theorem fork_copies_address_space_stack : ∃ k' r child D, sysFork stackKernel = .ok (k', r) ∧
    r ≠ -1 ∧ SpaceCopied stackMachine k'.mem stackMachine.cur (k'.pcb child).mem D ∧
    (maps k'.mem D 0xbffff000).isSome = true := by
  have hpages := stackMachine_pages
  have hall := fork_copies_address_space stackKernel
    ⟨0, rfl, by show 0 < kernelPages stackMachine; omega,
      by show isPresent (kernelPte stackMachine 0) = true; rw [stackMachine_present (by omega)]; rfl⟩
    (by decide) stackMachine_forkable
  have hpid : 0 < freeCount stackKernel.pidPool := by
    show 0 < freeCount (bitmapInit _)
    rw [freeCount_init]
    decide
  rcases hall.2 hpid (fun _ _ _ => Or.inl rfl) stackKernel_listed with ⟨k', r, hrun⟩
  rcases hall.1 k' r hrun with ⟨hr, child, D, _, _, hcopied, _⟩
  refine ⟨k', r, child, D, hrun, hr, hcopied, ?_⟩
  rw [hcopied.same 0xbffff000 (by unfold IsUser; decide)]
  refine ⟨by decide, ?_⟩
  show (walk stackMachine 0xbffff000).isSome = true
  rw [walk_eq_frameAt, show (0xbffff000 : Word).toNat / 4096 = 0xbffff from rfl,
    stackMachine_frameAt (by decide), if_pos rfl]
  rfl

end Witness

end ForikOS
