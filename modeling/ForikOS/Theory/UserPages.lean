import ForikOS.Theory.Exec
import ForikOS.Theory.Fork
import ForikOS.Theory.OutOfFrames

/-!
# The Pages of a Process

`malloc_page` and `mfree_page` for a process, in a build with assertions. What
they do for kernel threads is in the page allocator of the kernel; a process
has a bitmap of addresses in kernel pages of its own, which is read and
written through the page tables, and a directory whose tables may be missing.

The invariant says of the user half what the kernel's says of its half: an
address is taken exactly when its page is present. It needs that the bitmap,
the directory and the tables do not share a frame. The bitmap and the
directory are pages of the kernel heap, and a table is a frame of the kernel
pool that is no such page, so a new table is apart from all of them.

One word of the bitmap holds the bits of 32 pages, and each bit is written by
reading its byte and writing it back. `getLsbD_writeBit` is what that does to
the word.

## Main definitions

* `TableTaken`: The frame of a page table of the process.
* `UserSpace`: Where the directory, its tables and the bitmap lie.
* `BitmapWritten`: Writes to the bitmap only.
* `UserMap`: The invariant.
* `UserGranted`: What the loop of `malloc_page` has done.
* `UserMarked`: What a call has done.

## Theorems

* `UserSpace.writeRange`: Marking a run of addresses.
* `UserSpace.mapPage`, `UserSpace.unmapPage`: One page.
* `userPage_granted`, `userLoop_granted`, `userFreeLoop`: The loops.
* `UserMap.mallocPage`, `UserMap.mfreePage`: The calls.
-/

namespace ForikOS

/-- A frame of the kernel pool that is taken and holds no page of the kernel
    heap: a page table of a process. -/
def TableTaken (m : Machine) (f : Nat) : Prop :=
  ∃ j, j < kernelFrames m ∧ f = 0x200 + j ∧
    bitmapScanTest m.kernelPool.poolBitmap j = true ∧
    ∀ i, i < kernelPages m → isPresent (kernelPte m i) = true → frameOf (kernelPte m i) ≠ f

/-- The address space of a process that runs: its directory is page `a` of the
    kernel heap and its bitmap begins at page `b`, its page tables are frames
    of their own. -/
structure UserSpace (m : Machine) (a b : Nat) : Prop where
  map : KernelMap m
  layout : UserLayout m
  dir : DirPage m a
  bitmap : BitmapPages m m.cur b
  apart : ¬ (b ≤ a ∧ a < b + bitmapPgCnt)
  start : m.cur.vaddrStart = BitVec.ofNat 32 userVaddrStart
  len : m.cur.btmpBytesLen = userBitmapLen
  table : ∀ e, e < 768 → isPresent (m.phys m.cr3 e) = true →
    TableTaken m (frameOf (m.phys m.cr3 e))
  table_inj : ∀ e e', e < 768 → e' < 768 → isPresent (m.phys m.cr3 e) = true →
    isPresent (m.phys m.cr3 e') = true →
    frameOf (m.phys m.cr3 e) = frameOf (m.phys m.cr3 e') → e = e'

/-- The frames the bitmap of the process lies in. -/
def bitFrame (m : Machine) (b k : Nat) : Nat := frameOf (kernelPte m (b + k))

/-- Only frames of the bitmap have been written. -/
structure BitmapWritten (m m' : Machine) (b : Nat) : Prop where
  same : SameButPhys m m'
  phys : ∀ f, (∀ k, k < bitmapPgCnt → f ≠ bitFrame m b k) → m'.phys f = m.phys f

namespace UserSpace

variable {m m' : Machine} {a b : Nat}

theorem cr3_frame (h : UserSpace m a b) :
    ∃ j, j < kernelFrames m ∧ m.cr3 = 0x200 + j ∧
      bitmapScanTest m.kernelPool.poolBitmap j = true := by
  have hmapped := h.map.mapped a h.dir.1 h.dir.2.1
  rw [h.dir.2.2] at hmapped
  exact hmapped

theorem table_ne (h : UserSpace m a b) {e : Nat} (he : e < 768)
    (hp : isPresent (m.phys m.cr3 e) = true) : frameOf (m.phys m.cr3 e) ≠ m.cr3 := by
  rcases h.table e he hp with ⟨j, -, -, -, hne⟩
  exact fun hc => hne a h.dir.1 h.dir.2.1 (h.dir.2.2.trans hc.symm)

theorem paged (h : UserSpace m a b) : Paged m := by
  rcases h.cr3_frame with ⟨j, hj, hcr3, hset⟩
  refine h.map.half.paged h.map.layout h.layout (by omega) ?_ (fun d hd hp => h.table_ne hd hp)
  rintro ⟨k, -, hk, hclear⟩
  have hjk : k = j := by omega
  rw [hjk, hset] at hclear
  cases hclear

theorem bit_page (h : UserSpace m a b) {k : Nat} (hk : k < bitmapPgCnt) :
    b + k < kernelPages m ∧ isPresent (kernelPte m (b + k)) = true := by
  have hlen := h.bitmap.2.1
  exact ⟨by omega, h.bitmap.2.2 k hk⟩

theorem bitFrame_ge (h : UserSpace m a b) {k : Nat} (hk : k < bitmapPgCnt) :
    0x200 ≤ bitFrame m b k := by
  have hpage := h.bit_page hk
  rcases h.map.mapped _ hpage.1 hpage.2 with ⟨j, -, hj, -⟩
  rw [bitFrame, hj]
  omega

theorem bitFrame_ne_dir (h : UserSpace m a b) {k : Nat} (hk : k < bitmapPgCnt) :
    bitFrame m b k ≠ m.cr3 := by
  have hpage := h.bit_page hk
  have hne : b + k ≠ a := by
    have hap := h.apart
    omega
  exact h.dir.ne h.map hpage.1 hpage.2 hne

theorem bitFrame_ne_table (h : UserSpace m a b) {k e : Nat} (hk : k < bitmapPgCnt) (he : e < 768)
    (hp : isPresent (m.phys m.cr3 e) = true) : bitFrame m b k ≠ frameOf (m.phys m.cr3 e) := by
  have hpage := h.bit_page hk
  rcases h.table e he hp with ⟨-, -, -, -, hne⟩
  exact hne _ hpage.1 hpage.2

theorem bitFrame_inj (h : UserSpace m a b) {k k' : Nat} (hk : k < bitmapPgCnt)
    (hk' : k' < bitmapPgCnt) (heq : bitFrame m b k = bitFrame m b k') : k = k' := by
  have hpage := h.bit_page hk
  have hpage' := h.bit_page hk'
  have hinj := h.map.inj _ _ hpage.1 hpage'.1 hpage.2 hpage'.2 heq
  omega

/-- Writes outside the directory and the tables of the kernel keep the address
    space. -/
theorem write (h : UserSpace m a b) (hs : SameButPhys m m') (hdir : m'.phys m.cr3 = m.phys m.cr3)
    (htab : ∀ f, 0x101 ≤ f → f < 0x200 → m'.phys f = m.phys f) : UserSpace m' a b := by
  have hmap := h.map.write hs hdir htab
  have hle := h.map.layout.pages_le
  have hpte : ∀ i, i < kernelPages m → kernelPte m' i = kernelPte m i :=
    fun i hi => kernelPte_congr htab (by omega)
  have hpages : kernelPages m' = kernelPages m := by rw [hs]; rfl
  have hcr3 : m'.cr3 = m.cr3 := by rw [hs]
  have hcur : m'.cur = m.cur := by rw [hs]
  have hpool : m'.kernelPool = m.kernelPool := by rw [hs]
  refine ⟨hmap, ?_, ?_, ?_, h.apart, by rw [hcur]; exact h.start, by rw [hcur]; exact h.len, ?_, ?_⟩
  · rw [hs]
    exact ⟨h.layout.aligned, h.layout.fits⟩
  · rw [DirPage, hpages, hpte a h.dir.1, hcr3]
    exact h.dir
  · refine ⟨by rw [hcur]; exact h.bitmap.1, by rw [hpages]; exact h.bitmap.2.1, fun k hk => ?_⟩
    rw [hpte _ (h.bit_page hk).1]
    exact h.bitmap.2.2 k hk
  · -- The tables are among the frames that have kept what they hold.
    intro e he hp
    rw [hcr3, hdir] at hp ⊢
    rcases h.table e he hp with ⟨j, hj, hf, hset, hne⟩
    refine ⟨j, by rw [kernelFrames, hpool]; exact hj, hf, by rw [hpool]; exact hset, ?_⟩
    intro i hi hpi
    rw [hpages] at hi
    rw [hpte i hi] at hpi ⊢
    exact hne i hi hpi
  · rw [hcr3, hdir]
    exact h.table_inj

/-- Bit `t` of the bitmap of the process is a bit of one word. -/
theorem bit_eq (h : UserSpace m a b) {t : Nat} (ht : t < userPages) :
    bitmapScanTest (procBitmap m m.cur) t
      = (m.phys (bitFrame m b (t / 32768)) (t % 32768 / 32)).getLsbD (t % 32) := by
  have hcnt : bitmapPgCnt = 23 := rfl
  have hlt := bitmap_byte_lt ht
  have hle := h.map.layout.pages_le
  have hpage := (h.bit_page (k := 0) (by omega)).1
  have hbyte := loadByte_bitmap h.map h.bitmap hlt
  rw [procBitmap_byte h.map h.bitmap hlt, Except.ok.injEq, h.bitmap.1,
    byte_in_word _ (by omega)] at hbyte
  rw [bitmapScanTest_eq, hbyte, getLsbD_byte _ _ (Nat.mod_lt t (by omega)), bitFrame,
    show t / 8 / 4096 = t / 32768 by omega, show t / 8 % 4096 / 4 = t % 32768 / 32 by omega,
    show t / 8 % 4 * 8 + t % 8 = t % 32 by omega]

/-- The bits depend on the frames of the bitmap. -/
theorem bits_congr (h : UserSpace m a b) (h' : UserSpace m' a b)
    (hframe : ∀ k, k < bitmapPgCnt → bitFrame m' b k = bitFrame m b k)
    (hphys : ∀ k, k < bitmapPgCnt → m'.phys (bitFrame m b k) = m.phys (bitFrame m b k)) {t : Nat}
    (ht : t < userPages) :
    bitmapScanTest (procBitmap m' m'.cur) t = bitmapScanTest (procBitmap m m.cur) t := by
  have hcnt : bitmapPgCnt = 23 := rfl
  have hlt : t / 32768 < bitmapPgCnt := by
    rw [userPages_eq] at ht
    omega
  rw [h'.bit_eq ht, h.bit_eq ht, hframe _ hlt, hphys _ hlt]

theorem written_tables (h : UserSpace m a b) (hw : BitmapWritten m m' b) {f : Nat}
    (hf : f < 0x200) : m'.phys f = m.phys f := by
  refine hw.phys f (fun k hk => ?_)
  have hge := h.bitFrame_ge hk
  omega

theorem written_dir (h : UserSpace m a b) (hw : BitmapWritten m m' b) :
    m'.phys m.cr3 = m.phys m.cr3 :=
  hw.phys _ (fun _ hk => (h.bitFrame_ne_dir hk).symm)

theorem written (h : UserSpace m a b) (hw : BitmapWritten m m' b) : UserSpace m' a b :=
  h.write hw.same (h.written_dir hw) (fun _ _ hf => h.written_tables hw hf)

theorem written_bitFrame (h : UserSpace m a b) (hw : BitmapWritten m m' b) {k : Nat}
    (hk : k < bitmapPgCnt) : bitFrame m' b k = bitFrame m b k := by
  have hle := h.map.layout.pages_le
  have hpage := (h.bit_page hk).1
  rw [bitFrame, kernelPte_congr (fun _ _ hf => h.written_tables hw hf) (by omega), bitFrame]

/-- Writing the bitmap maps nothing. -/
theorem written_frameAt (h : UserSpace m a b) (hw : BitmapWritten m m' b) {q : Nat}
    (hq : q < 0xc0000) : frameAt m' m'.cr3 q = frameAt m m.cr3 q := by
  have hcr3 : m'.cr3 = m.cr3 := by rw [hw.same]
  unfold frameAt
  rw [hcr3, h.written_dir hw]
  by_cases hp : isPresent (m.phys m.cr3 (q / 1024)) = true
  · rw [hw.phys _ (fun k hk => (h.bitFrame_ne_table hk (by omega) hp).symm)]
  · rw [if_neg hp, if_neg hp]

/-- Where the byte with bit `t` lies. -/
theorem bit_addr (h : UserSpace m a b) {t : Nat} (ht : t < userPages) :
    walk m (m.cur.bits + BitVec.ofNat 32 (t / 8)) = some (bitFrame m b (t / 32768)) ∧
      wordIdx (m.cur.bits + BitVec.ofNat 32 (t / 8)) = t % 32768 / 32 ∧
      ((m.cur.bits + BitVec.ofNat 32 (t / 8)) &&& 3).toNat = t / 8 % 4 := by
  have hcnt : bitmapPgCnt = 23 := rfl
  have hlt := bitmap_byte_lt ht
  have hle := h.map.layout.pages_le
  have hpage := h.bit_page (k := t / 32768) (by omega)
  have hpos : m.cur.bits + BitVec.ofNat 32 (t / 8)
      = pageAddr (b + t / 32768) + BitVec.ofNat 32 (t / 8 % 4096) := by
    apply BitVec.eq_of_toNat_eq
    rw [toNat_pageAddr_add (by omega) (by omega), h.bitmap.1, BitVec.toNat_add,
      toNat_pageAddr (by omega), BitVec.toNat_ofNat]
    omega
  refine ⟨?_, ?_, by rw [h.bitmap.1, byte_in_word _ (by omega)]⟩
  · rw [hpos, walk_pageAddr_add (by omega) (by omega), walk_kernel h.map hpage.1 hpage.2, bitFrame]
  · rw [hpos, wordIdx_pageAddr_add (by omega) (by omega)]
    omega

/-- A word that differs in one bit changes one bit of the bitmap. -/
theorem setWord_bits (h : UserSpace m a b) {v : Bool} {t : Nat} (ht : t < userPages) {w : Word}
    (hw : ∀ k, k < 32 → w.getLsbD k = if k = t % 32 then v
      else (m.phys (bitFrame m b (t / 32768)) (t % 32768 / 32)).getLsbD k)
    (hm' : m' = m.setWord (bitFrame m b (t / 32768)) (t % 32768 / 32) w) :
    BitmapWritten m m' b ∧ ∀ i, i < userPages → bitmapScanTest (procBitmap m' m'.cur) i
      = if i = t then v else bitmapScanTest (procBitmap m m.cur) i := by
  have hcnt : bitmapPgCnt = 23 := rfl
  have hpage : ∀ i, i < userPages → i / 32768 < bitmapPgCnt := by
    intro i hi
    rw [userPages_eq] at hi
    omega
  have hwr : BitmapWritten m m' b := by
    rw [hm']
    exact ⟨rfl, fun f hf => setWord_frame_of_ne _ (hf _ (hpage t ht))⟩
  refine ⟨hwr, fun i hi => ?_⟩
  rw [(h.written hwr).bit_eq hi, h.bit_eq hi, h.written_bitFrame hwr (hpage i hi), hm']
  by_cases hword : i / 32768 = t / 32768 ∧ i % 32768 / 32 = t % 32768 / 32
  · rw [hword.1, hword.2, setWord_phys_self, hw _ (Nat.mod_lt i (by omega))]
    by_cases hit : i = t
    · rw [if_pos hit, if_pos (by rw [hit])]
    · rw [if_neg hit, if_neg (by omega)]
  · -- Another word, perhaps of another page.
    rw [if_neg (fun hc => hword (by rw [hc]; exact ⟨rfl, rfl⟩)), setWord_phys_of_ne]
    by_cases hpg : i / 32768 = t / 32768
    · exact Or.inr (fun hc => hword ⟨hpg, hc⟩)
    · exact Or.inl (fun hc => hpg (h.bitFrame_inj (hpage i hi) (hpage t ht) hc))

/-- Writing one bit of the bitmap. -/
theorem writeBit (h : UserSpace m a b) (v : Bool) {t : Nat} (ht : t < userPages) :
    ∃ m', (do
        let byte ← loadByte m (m.cur.bits + BitVec.ofNat 32 (t / 8))
        storeByte m (m.cur.bits + BitVec.ofNat 32 (t / 8))
          (if v then byte ||| 1#8 <<< (t % 8) else byte &&& ~~~(1#8 <<< (t % 8)))) = .ok m' ∧
      BitmapWritten m m' b ∧ ∀ i, i < userPages → bitmapScanTest (procBitmap m' m'.cur) i
        = if i = t then v else bitmapScanTest (procBitmap m m.cur) i := by
  rcases h.bit_addr ht with ⟨hwalk, hidx, hsh⟩
  generalize m.cur.bits + BitVec.ofNat 32 (t / 8) = addr at hwalk hidx hsh ⊢
  obtain ⟨w, hw⟩ : ∃ w, w = m.phys (bitFrame m b (t / 32768)) (t % 32768 / 32) := ⟨_, rfl⟩
  have hload : load m addr = .ok w := by
    rw [load, hwalk, hidx, hw]
  -- The byte is taken out of the word and put back with the bit written.
  obtain ⟨w', hw'⟩ : ∃ w', w' = withByte w (t / 8 % 4 * 8)
      (if v then (w >>> (t / 8 % 4 * 8)).setWidth 8 ||| 1#8 <<< (t % 8)
        else (w >>> (t / 8 % 4 * 8)).setWidth 8 &&& ~~~(1#8 <<< (t % 8))) := ⟨_, rfl⟩
  have hbits : ∀ k, k < 32 → w'.getLsbD k = if k = t % 32 then v else w.getLsbD k := by
    intro k hk
    rw [hw', getLsbD_writeBit v (Nat.mod_lt t (by omega)) hk,
      show t / 8 % 4 * 8 + t % 8 = t % 32 by omega]
  rw [hw] at hbits
  refine ⟨_, ?_, h.setWord_bits ht hbits rfl⟩
  rw [loadByte, hload, ok_bind, ok_bind, storeByte, hload, ok_bind, hsh]
  dsimp only
  rw [store, hwalk, hidx, hw']
  rfl

/-- The loop over the bits of a run. -/
theorem writeRange (h : UserSpace m a b) (v : Bool) {s n : Nat} (hin : s + n ≤ userPages) :
    ∃ m', userBitmapSetRange s v n m = .ok m' ∧ BitmapWritten m m' b ∧
      ∀ i, i < userPages → bitmapScanTest (procBitmap m' m'.cur) i
        = if s ≤ i ∧ i < s + n then v else bitmapScanTest (procBitmap m m.cur) i := by
  induction n with
  | zero =>
      refine ⟨m, rfl, ⟨rfl, fun _ _ => rfl⟩, fun i _ => ?_⟩
      rw [if_neg (by omega)]
  | succ n ih =>
      rcases ih (by omega) with ⟨m₁, hrun, hw₁, hbits₁⟩
      have h₁ := h.written hw₁
      rcases h₁.writeBit v (t := s + n) (by omega) with ⟨m₂, hlast, hw₂, hbits₂⟩
      refine ⟨m₂, ?_, ⟨hw₁.same.trans hw₂.same, fun f hf => ?_⟩, fun i hi => ?_⟩
      · rw [userBitmapSetRange, hrun, ok_bind]
        exact hlast
      · rw [hw₂.phys f (fun k hk => by rw [h.written_bitFrame hw₁ hk]; exact hf k hk), hw₁.phys f hf]
      · rw [hbits₂ i hi, hbits₁ i hi]
        by_cases hlast' : i = s + n
        · rw [if_pos hlast', if_pos (by omega)]
        · rw [if_neg hlast']
          by_cases hr : s ≤ i ∧ i < s + n
          · rw [if_pos hr, if_pos (by omega)]
          · rw [if_neg hr, if_neg (by omega)]

end UserSpace

namespace UserSpace

variable {m m' : Machine} {a b : Nat}

/-- Another bitmap of user frames. -/
theorem setUserBits (h : UserSpace m a b) {x : Bitmap}
    (hx : x.btmpBytesLen = m.userPool.poolBitmap.btmpBytesLen) :
    UserSpace (m.setPool { m.userPool with poolBitmap := x } .user) a b := by
  have hmap : KernelMap (m.setPool { m.userPool with poolBitmap := x } .user) :=
    h.map.congr ⟨⟨h.map.half.self.present, h.map.half.self.frame⟩, h.map.half.table,
      h.map.half.cr3_ne⟩ rfl rfl rfl (fun _ hj => hj) rfl (fun _ _ _ => rfl)
  refine ⟨hmap, ⟨h.layout.aligned, ?_⟩, h.dir, h.bitmap, h.apart, h.start, h.len, h.table,
    h.table_inj⟩
  have hfits := h.layout.fits
  rw [userFrames] at hfits ⊢
  change _ + x.btmpBytesLen * 8 * 4096 ≤ _
  rw [hx]
  exact hfits

/-- The table a page is entered in: one of those there were, or a frame that
    was free. -/
theorem mapped_table (h : UserSpace m a b) {q : Nat} {phy : Word} (hm : Mapped m m' q phy)
    (hq : q < 0xc0000) :
    ∃ j, j < kernelFrames m ∧ frameOf (m'.phys m.cr3 (q / 1024)) = 0x200 + j ∧
      0x200 + j ≠ m.cr3 ∧
      (∀ i, i < kernelPages m → isPresent (kernelPte m i) = true →
        frameOf (kernelPte m i) ≠ 0x200 + j) ∧
      (∀ e, e < 768 → e ≠ q / 1024 → isPresent (m.phys m.cr3 e) = true →
        frameOf (m.phys m.cr3 e) ≠ 0x200 + j) ∧
      bitmapScanTest m'.kernelPool.poolBitmap j = true := by
  -- Either the table was there, or it was taken from the kernel pool just now.
  rcases hm.table with ⟨hp, hsame, hpool, -⟩ | ⟨hp, j, hj, hf, hclear, hset, -⟩
  · rcases h.table _ (by omega) hp with ⟨j, hj, hf, hset, hne⟩
    have htne := h.table_ne (by omega) hp
    rw [hf] at hne htne
    refine ⟨j, hj, by rw [hsame, hf], htne, hne, ?_, by rw [hpool]; exact hset⟩
    intro e he hene hpe hc
    exact hene (h.table_inj e _ he (by omega) hpe hp (hc.trans hf.symm))
  · refine ⟨j, hj, hf, ?_, ?_, ?_, by rw [hset, bitmapScanTest_set, if_pos rfl]⟩
    · intro hc
      exact h.paged.dir_used ⟨j, hj, hc.symm, hclear⟩
    · -- The bit of the new table was clear, and that of a frame in use is set.
      intro i hi hpi hc
      rcases h.map.mapped i hi hpi with ⟨k, -, hk, hbit⟩
      have hjk : k = j := by omega
      rw [hjk, hclear] at hbit
      cases hbit
    · intro e he _ hpe hc
      rcases h.table e he hpe with ⟨k, -, hk, hbit, -⟩
      have hjk : k = j := by omega
      rw [hjk, hclear] at hbit
      cases hbit

theorem mapped_pte (h : UserSpace m a b) {q : Nat} {phy : Word} (hm : Mapped m m' q phy)
    (hq : q < 0xc0000) {i : Nat} (hi : i < kernelPages m) : kernelPte m' i = kernelPte m i := by
  rcases h.mapped_table hm hq with ⟨j, -, hT, -⟩
  rcases h.cr3_frame with ⟨jd, -, hd, -⟩
  have hle := h.map.layout.pages_le
  exact kernelPte_congr (fun f _ hf => hm.tables (by omega) (by omega) hf) (by omega)

/-- The frame of a page table is one still. -/
theorem mapped_taken (h : UserSpace m a b) {q f : Nat} {phy : Word} (hm : Mapped m m' q phy)
    (hq : q < 0xc0000) (hf : ∃ j, j < kernelFrames m ∧ f = 0x200 + j ∧
      bitmapScanTest m'.kernelPool.poolBitmap j = true ∧
      ∀ i, i < kernelPages m → isPresent (kernelPte m i) = true → frameOf (kernelPte m i) ≠ f) :
    TableTaken m' f := by
  rcases hf with ⟨j, hj, hf, hset, hheap⟩
  refine ⟨j, ?_, hf, hset, fun i hi hpi => ?_⟩
  · rw [kernelFrames, hm.kp_len]
    exact hj
  · rw [kernelPages, hm.kernelVaddr] at hi
    rw [h.mapped_pte hm hq hi] at hpi ⊢
    exact hheap i hi hpi

theorem mapped_space (h : UserSpace m a b) {q : Nat} {phy : Word} (hm : Mapped m m' q phy)
    (hcur : m'.cur = m.cur) (hq : q < 0xc0000) : UserSpace m' a b := by
  -- The table of the page is a taken frame that is no other table.
  rcases h.mapped_table hm hq with ⟨j, hj, hT, -, hheap, htables, hset⟩
  rcases h.cr3_frame with ⟨jd, -, hd, -⟩
  have hpages : kernelPages m' = kernelPages m := by rw [kernelPages, hm.kernelVaddr, kernelPages]
  have hmap := hm.kernelMap h.map hq (by omega) (by omega)
  refine ⟨hmap, ?_, ?_, ?_, h.apart, by rw [hcur]; exact h.start, by rw [hcur]; exact h.len, ?_, ?_⟩
  · refine ⟨by rw [hm.userPool]; exact h.layout.aligned, ?_⟩
    rw [userFrames, hm.userPool]
    exact h.layout.fits
  · rw [DirPage, hpages, h.mapped_pte hm hq h.dir.1, hm.cr3]
    exact h.dir
  · refine ⟨by rw [hcur]; exact h.bitmap.1, by rw [hpages]; exact h.bitmap.2.1, fun k hk => ?_⟩
    rw [h.mapped_pte hm hq (h.bit_page hk).1]
    exact h.bitmap.2.2 k hk
  · intro e he hp
    rw [hm.cr3] at hp ⊢
    by_cases heq : e = q / 1024
    · rw [heq, hT]
      exact h.mapped_taken hm hq ⟨j, hj, rfl, hset, hheap⟩
    · rw [hm.dir e heq] at hp ⊢
      rcases h.table e he hp with ⟨k, hk, hf, hbit, hnot⟩
      exact h.mapped_taken hm hq ⟨k, hk, hf, hm.kernel hbit, hnot⟩
  · -- The table of the page is not one of the others.
    intro e e' he he' hp hp' heq
    rw [hm.cr3] at hp hp' heq
    by_cases h1 : e = q / 1024
    · by_cases h2 : e' = q / 1024
      · rw [h1, h2]
      · rw [h1, hT, hm.dir e' h2] at heq
        rw [hm.dir e' h2] at hp'
        exact absurd heq.symm (htables e' he' h2 hp')
    · rw [hm.dir e h1] at hp heq
      by_cases h2 : e' = q / 1024
      · rw [h2, hT] at heq
        exact absurd heq (htables e he h1 hp)
      · rw [hm.dir e' h2] at hp' heq
        exact h.table_inj e e' he he' hp hp' heq

theorem mapped_frameAt (h : UserSpace m a b) {q q' : Nat} {phy : Word} (hm : Mapped m m' q phy)
    (hq : q < 0xc0000) (hphy : phy.toNat % 2 ^ 12 = 0) (hq' : q' < 0xc0000) :
    frameAt m' m'.cr3 q' = if q' = q then some (phy.toNat / 2 ^ 12) else frameAt m m.cr3 q' := by
  rcases h.mapped_table hm hq with ⟨j, -, hT, -, -, htables, -⟩
  rw [hm.cr3]
  by_cases hqq : q' = q
  · rw [if_pos hqq, hqq, frameAt_of_present hm.present (by rw [hm.pte]; exact isPresent_entryFor hphy),
      hm.pte, frameOf_entryFor hphy]
  · rw [if_neg hqq]
    unfold frameAt
    by_cases he : q' / 1024 = q / 1024
    · -- Another entry of the same table.
      have hx : q' % 1024 ≠ q % 1024 := by omega
      rw [he, if_pos hm.present]
      rcases hm.table with ⟨hp, hsame, -, hold⟩ | ⟨hp, i, -, hf, -, -, hzero⟩
      · rw [if_pos hp, hsame, hold _ hx]
      · have hno : isPresent (0 : Word) = false := rfl
        rw [hf, hzero _ hx, hno, hp]
        rfl
    · rw [hm.dir _ he]
      by_cases hp : isPresent (m.phys m.cr3 (q' / 1024)) = true
      · rw [hm.phys _ (h.table_ne (by omega) hp) (by
          rw [hT]
          exact htables _ (by omega) he hp)]
      · rw [if_neg hp, if_neg hp]

/-- One more page of the process. -/
theorem mapPage (h : UserSpace m a b) {q : Nat} {phy : Word} (hm : Mapped m m' q phy)
    (hcur : m'.cur = m.cur) (hq : q < 0xc0000) (hphy : phy.toNat % 2 ^ 12 = 0) :
    UserSpace m' a b ∧
      (∀ t, t < userPages →
        bitmapScanTest (procBitmap m' m'.cur) t = bitmapScanTest (procBitmap m m.cur) t) ∧
      ∀ q', q' < 0xc0000 → frameAt m' m'.cr3 q'
        = if q' = q then some (phy.toNat / 2 ^ 12) else frameAt m m.cr3 q' := by
  rcases h.mapped_table hm hq with ⟨j, -, hT, -, hheap, -⟩
  have hspace := h.mapped_space hm hcur hq
  refine ⟨hspace, fun t ht => ?_, fun q' hq' => h.mapped_frameAt hm hq hphy hq'⟩
  refine h.bits_congr hspace (fun k hk => ?_) (fun k hk => ?_) ht
  · rw [bitFrame, h.mapped_pte hm hq (h.bit_page hk).1, bitFrame]
  · have hpage := h.bit_page hk
    refine hm.phys _ (h.bitFrame_ne_dir hk) ?_
    rw [hT]
    exact hheap _ hpage.1 hpage.2

/-- One page of the process less. -/
theorem unmapPage (h : UserSpace m a b) {q : Nat} {e : Word} (hq : q < 0xc0000)
    (hp : isPresent (m.phys m.cr3 (q / 1024)) = true) (he : isPresent e = false)
    (hm' : m' = m.setWord (frameOf (m.phys m.cr3 (q / 1024))) (q % 1024) e) :
    UserSpace m' a b ∧
      (∀ t, t < userPages →
        bitmapScanTest (procBitmap m' m'.cur) t = bitmapScanTest (procBitmap m m.cur) t) ∧
      ∀ q', q' < 0xc0000 → frameAt m' m'.cr3 q'
        = if q' = q then none else frameAt m m.cr3 q' := by
  rcases h.table _ (by omega) hp with ⟨j, -, hT, -, hheap⟩
  have hne := h.table_ne (by omega) hp
  obtain ⟨T, hTdef⟩ : ∃ T, T = frameOf (m.phys m.cr3 (q / 1024)) := ⟨_, rfl⟩
  rw [← hTdef] at hm' hT hheap hne
  have hout : ∀ f, f ≠ T → m'.phys f = m.phys f := by
    intro f hf
    rw [hm']
    exact setWord_frame_of_ne _ hf
  have hcr3 : m'.cr3 = m.cr3 := by rw [hm']; rfl
  have hdir : m'.phys m.cr3 = m.phys m.cr3 := hout _ hne.symm
  have htab : ∀ f, 0x101 ≤ f → f < 0x200 → m'.phys f = m.phys f := fun f h1 h2 => hout f (by omega)
  have hspace : UserSpace m' a b := h.write (by rw [hm']; rfl) hdir htab
  have hle := h.map.layout.pages_le
  refine ⟨hspace, fun t ht => ?_, fun q' hq' => ?_⟩
  · refine h.bits_congr hspace (fun k hk => ?_) (fun k hk => ?_) ht
    · rw [bitFrame, kernelPte_congr htab (by have := (h.bit_page hk).1; omega), bitFrame]
    · have hpage := h.bit_page hk
      exact hout _ (hheap _ hpage.1 hpage.2)
  · unfold frameAt
    rw [hcr3, hdir]
    by_cases hqq : q' = q
    · have hword : m'.phys T (q % 1024) = e := by rw [hm', setWord_phys_self]
      rw [if_pos hqq, hqq, if_pos hp, ← hTdef, hword, he]
      rfl
    · rw [if_neg hqq]
      -- An entry of the same table has another index, and another table another frame.
      by_cases hpd : isPresent (m.phys m.cr3 (q' / 1024)) = true
      · have hsame : m'.phys (frameOf (m.phys m.cr3 (q' / 1024))) (q' % 1024)
            = m.phys (frameOf (m.phys m.cr3 (q' / 1024))) (q' % 1024) := by
          rw [hm']
          refine setWord_phys_of_ne _ ?_
          by_cases he' : q' / 1024 = q / 1024
          · exact Or.inr (by omega)
          · refine Or.inl (fun hc => he' ?_)
            exact h.table_inj _ _ (by omega) (by omega) hpd hp (hc.trans hTdef)
        rw [if_pos hpd, if_pos hpd, hsame]
      · rw [if_neg hpd, if_neg hpd]

end UserSpace

/-- The address space of a process, whose bitmap says which pages are mapped,
    to frames of the user pool. -/
structure UserMap (m : Machine) (a b : Nat) : Prop where
  space : UserSpace m a b
  agree : ∀ i, i < userPages → bitmapScanTest (procBitmap m m.cur) i
    = (frameAt m m.cr3 (userPage₀ + i)).isSome
  page : ∀ i w, i < userPages → frameAt m m.cr3 (userPage₀ + i) = some w → userBase m ≤ w

/-- What the loop of `malloc_page` has done for `n` pages of the process from
    page `i` on. -/
structure UserGranted (m m' : Machine) (a b i n : Nat) : Prop where
  space : UserSpace m' a b
  cur : m'.cur = m.cur
  base : userBase m' = userBase m
  bits : ∀ t, t < userPages →
    bitmapScanTest (procBitmap m' m'.cur) t = bitmapScanTest (procBitmap m m.cur) t
  page : ∀ k, i ≤ k → k < i + n →
    ∃ w, frameAt m' m'.cr3 (userPage₀ + k) = some w ∧ userBase m ≤ w
  other : ∀ k, k < userPages → ¬ (i ≤ k ∧ k < i + n) →
    frameAt m' m'.cr3 (userPage₀ + k) = frameAt m m.cr3 (userPage₀ + k)

theorem tablesMissing_pos {m : Machine} {q n : Nat}
    (hp : isPresent (m.phys m.cr3 (q / 1024)) = false) : 0 < tablesMissing m q (n + 1) := by
  refine Finset.card_pos.mpr ⟨q / 1024, ?_⟩
  rw [Finset.mem_filter, Finset.mem_image]
  exact ⟨⟨q, Finset.mem_Ico.mpr ⟨Nat.le_refl q, by omega⟩, rfl⟩, hp⟩

theorem load_ptePtr_absent {m : Machine} (h : SelfMap m) {v : Word}
    (hp : isPresent (m.phys m.cr3 (pdeIdx v)) = false) : load m (ptePtr v) = .error .pageFault := by
  have hv := v.isLt
  have hd : pdeIdx (ptePtr v) = 1023 := by
    rw [pdeIdx_eq, toNat_ptePtr]
    omega
  have ht : pteIdx (ptePtr v) = pdeIdx v := by
    rw [pteIdx_eq, toNat_ptePtr, pdeIdx_eq]
    omega
  have hwalk : walk m (ptePtr v) = none := by
    simp only [walk, hd, ht, h.present, if_true, h.frame, hp, Bool.false_eq_true, if_false]
  rw [load, hwalk]

section Calls

variable {m m' : Machine} {a b i n : Nat} {v : Word}

theorem userPage_lt {k : Nat} (hk : k < userPages) : userPage₀ + k < 0xc0000 := by
  rw [userPages_eq] at hk
  rw [userPage₀_eq]
  omega

/-- One page gets a frame of the user pool. -/
theorem userPage_granted (h : UserSpace m a b) {q : Nat} (hvq : v.toNat / 4096 = q)
    (hq : q < 0xc0000) (hnone : frameAt m m.cr3 q = none) (hfit : FramesFor m .user q (n + 1)) :
    ∃ j m₁, palloc m.userPool = .ok ({ m.userPool with
        poolBitmap := bitmapSet m.userPool.poolBitmap j true }, userFrame m j) ∧
      userFrame m j ≠ 0 ∧
      pageTableAdd (m.setPool { m.userPool with
        poolBitmap := bitmapSet m.userPool.poolBitmap j true } .user) v (userFrame m j) = .ok m₁ ∧
      UserSpace m₁ a b ∧ m₁.cur = m.cur ∧ userBase m₁ = userBase m ∧ FramesFor m₁ .user (q + 1) n ∧
      (∀ t, t < userPages →
        bitmapScanTest (procBitmap m₁ m₁.cur) t = bitmapScanTest (procBitmap m m.cur) t) ∧
      ∀ q', q' < 0xc0000 → frameAt m₁ m₁.cr3 q'
        = if q' = q then some (userBase m + j) else frameAt m m.cr3 q' := by
  simp only [FramesFor] at hfit
  rcases palloc_free (p := m.userPool) (by omega) with ⟨j, hj, hjclear, hpalloc⟩
  have hnat := toNat_userFrame h.layout hj
  have hcount := freeCount_set hj hjclear
  obtain ⟨m₀, hm₀⟩ : ∃ m₀, m₀ = m.setPool { m.userPool with
    poolBitmap := bitmapSet m.userPool.poolBitmap j true } .user := ⟨_, rfl⟩
  have h₀ : UserSpace m₀ a b := by
    rw [hm₀]
    exact h.setUserBits (bitmapSet_len _ _ _)
  have hcr3₀ : m₀.cr3 = m.cr3 := by rw [hm₀]; rfl
  have hphys₀ : m₀.phys = m.phys := by rw [hm₀]; rfl
  have hkernel₀ : m₀.kernelPool = m.kernelPool := by rw [hm₀]; rfl
  have hneed₀ : tablesMissing m₀ q (n + 1) = tablesMissing m q (n + 1) := by
    rw [tablesMissing, hcr3₀, hphys₀, tablesMissing]
  have hsame₀ : ∀ q', frameAt m₀ m₀.cr3 q' = frameAt m m.cr3 q' := by
    intro q'
    rw [frameAt, hphys₀, hcr3₀, frameAt]
  -- The entry goes into a table that is there or into a new one.
  have hadd : ∃ m₁, pageTableAdd m₀ v (userFrame m j) = .ok m₁ ∧
      Mapped m₀ m₁ q (userFrame m j) := by
    by_cases hp : isPresent (m₀.phys m₀.cr3 (q / 1024)) = true
    · exact pageTableAdd_old h₀.map.half.self hvq hp (h₀.table_ne (by omega) hp)
        (frameAt_eq_none (by rw [hsame₀, hnone]; decide) hp)
    · have habs : isPresent (m₀.phys m₀.cr3 (q / 1024)) = false := Bool.not_eq_true _ ▸ hp
      have hpos := tablesMissing_pos (n := n) habs
      have huse := h₀.map.inUse h₀.dir.1 h₀.dir.2.1
      rw [h₀.dir.2.2] at huse
      exact pageTableAdd_new h₀.map.half.self h₀.map.layout hvq (by omega) habs huse
        (by rw [hkernel₀]; omega)
  rcases hadd with ⟨m₁, hadd, hm₁⟩
  have hcur₁ : m₁.cur = m₀.cur := pageTableAdd_cur hadd
  have hcur₀ : m₀.cur = m.cur := by rw [hm₀]; rfl
  rcases h₀.mapPage hm₁ hcur₁ hq (by omega) with ⟨h₁, hbits₁, hframe₁⟩
  have hneed := tablesMissing_succ (n := n) hm₁.cr3 hm₁.dir hm₁.present
  have hfit₁ : FramesFor m₁ .user (q + 1) n := by
    simp only [FramesFor]
    constructor
    · rw [hm₁.userPool, hm₀]
      change n ≤ freeCount (bitmapSet m.userPool.poolBitmap j true)
      omega
    · rcases hm₁.table with ⟨hp, -, hpool, -⟩ | ⟨hp, k, hk, -, hkclear, hpool, -⟩
      · rw [if_pos hp] at hneed
        rw [hpool, hkernel₀]
        omega
      · have hkcount := freeCount_set hk hkclear
        have hsame : freeCount m₀.kernelPool.poolBitmap = freeCount m.kernelPool.poolBitmap := by
          rw [hkernel₀]
        rw [if_neg (by rw [hp]; decide)] at hneed
        rw [hpool]
        omega
  refine ⟨j, m₁, hpalloc, h.paged.frame_ne_zero .user hj, by rw [← hm₀]; exact hadd, h₁,
    hcur₁.trans hcur₀, ?_, hfit₁, fun t ht => ?_, fun q' hq' => ?_⟩
  · rw [userBase, hm₁.userPool, hm₀]
    rfl
  · rw [hbits₁ t ht]
    refine procBitmap_bit_congr ?_
    rw [hm₀]
    rfl
  · rw [hframe₁ q' hq', hsame₀, hnat, show (userBase m + j) * 4096 / 2 ^ 12 = userBase m + j by omega]

/-- Each page of a run gets a frame of the user pool. -/
theorem userLoop_granted (n : Nat) {m : Machine} {i : Nat} {v : Word} (h : UserSpace m a b)
    (hv : v.toNat = (userPage₀ + i) * 4096) (hi : i + n ≤ userPages)
    (hclear : ∀ k, i ≤ k → k < i + n → frameAt m m.cr3 (userPage₀ + k) = none)
    (hfit : FramesFor m .user (userPage₀ + i) n) :
    ∃ m', mallocLoop .user n m v = .ok (m', true) ∧ UserGranted m m' a b i n := by
  -- The induction is on the pages that are left.
  induction n generalizing m i v with
  | zero =>
      exact ⟨m, rfl, h, rfl, rfl, fun _ _ => rfl, fun k h1 h2 => absurd h2 (by omega), fun _ _ _ => rfl⟩
  | succ n ih =>
      have hq := userPage_lt (k := i) (by omega)
      rcases userPage_granted h (v := v) (by omega) hq (hclear i (Nat.le_refl i) (by omega)) hfit with
        ⟨j, m₁, hpalloc, hne, hadd, h₁, hcur₁, hbase₁, hfit₁, hbits₁, hframe₁⟩
      have hsame : ∀ k, k < userPages → k ≠ i →
          frameAt m₁ m₁.cr3 (userPage₀ + k) = frameAt m m.cr3 (userPage₀ + k) := by
        intro k hk hki
        rw [hframe₁ _ (userPage_lt hk), if_neg (by omega)]
      have hnext := page_succ (v := v) (n := 0) (by omega)
      rcases ih (m := m₁) (i := i + 1) (v := v + pgSize) h₁ (by rw [hnext.1]; omega) (by omega)
        (fun k h1 h2 => by rw [hsame k (by omega) (by omega)]; exact hclear k (by omega) (by omega))
        hfit₁ with ⟨m', hloop, hg⟩
      refine ⟨m', ?_, hg.space, hg.cur.trans hcur₁, hg.base.trans hbase₁, ?_, ?_, ?_⟩
      · rw [mallocLoop]
        change (do
          let r ← palloc m.userPool
          if r.2 = 0 then Except.ok (m.setPool r.1 .user, false)
          else do
            let m ← pageTableAdd (m.setPool r.1 .user) v r.2
            mallocLoop .user n m (v + pgSize)) = _
        rw [hpalloc, ok_bind]
        dsimp only
        rw [if_neg hne, hadd, ok_bind, hloop]
      · intro t ht
        rw [hg.bits t ht, hbits₁ t ht]
      · intro k h1 h2
        by_cases hki : k = i
        · -- The first page keeps the frame it got in this round.
          refine ⟨_, ?_, Nat.le_add_right (userBase m) j⟩
          rw [hg.other k (by omega) (by omega), hframe₁ _ (userPage_lt (by omega)),
            if_pos (by omega)]
        · rcases hg.page k (by omega) (by omega) with ⟨w, hw, hle⟩
          exact ⟨w, hw, by rw [← hbase₁]; exact hle⟩
      · intro k hk hout
        rw [hg.other k hk (by omega), hsame k hk (by omega)]

/-- Each page of a run loses its frame. -/
theorem userFreeLoop (n : Nat) {m : Machine} {i : Nat} {v : Word} {belongs : Word → Bool}
    (h : UserSpace m a b) (hv : v.toNat = (userPage₀ + i) * 4096) (hi : i + n ≤ userPages)
    (hbel : ∀ x, belongs x = true → m.userPool.phyAddrStart ≤ x)
    (hrun : mfreeLoop belongs n m v = .ok m') :
    UserSpace m' a b ∧ m'.cur = m.cur ∧ userBase m' = userBase m ∧
      (∀ t, t < userPages →
        bitmapScanTest (procBitmap m' m'.cur) t = bitmapScanTest (procBitmap m m.cur) t) ∧
      ∀ k, k < userPages → frameAt m' m'.cr3 (userPage₀ + k)
        = if i ≤ k ∧ k < i + n then none else frameAt m m.cr3 (userPage₀ + k) := by
  -- The induction is on the pages that are left, from the first one on.
  induction n generalizing m i v with
  | zero =>
      cases hrun
      refine ⟨h, rfl, rfl, fun _ _ => rfl, fun k _ => ?_⟩
      rw [if_neg (by omega)]
  | succ n ih =>
      rw [mfreeLoop] at hrun
      rcases bind_eq_ok.mp hrun with ⟨pg, -, hrun⟩
      rcases bind_eq_ok.mp hrun with ⟨u, hok, hrun⟩
      rcases bind_eq_ok.mp hrun with ⟨m₁, hremove, hloop⟩
      have hpg := hbel pg (ensure_eq_ok.mp hok).2
      have hq := userPage_lt (k := i) (by omega)
      have hd : pdeIdx v = (userPage₀ + i) / 1024 := by
        rw [pdeIdx_eq, hv]
        omega
      have ht : pteIdx v = (userPage₀ + i) % 1024 := by
        rw [pteIdx_eq, hv]
        omega
      obtain ⟨x, hx, hlen⟩ : ∃ x, pfree m pg = m.setPool { m.userPool with poolBitmap := x } .user ∧
          x.btmpBytesLen = m.userPool.poolBitmap.btmpBytesLen := by
        refine ⟨bitmapSet m.userPool.poolBitmap ((pg - m.userPool.phyAddrStart) / pgSize).toNat false,
          ?_, rfl⟩
        simp only [pfree, hpg, if_true, Machine.pool]
      have h₀ := h.setUserBits hlen
      rw [← hx] at h₀
      obtain ⟨m₀, hm₀⟩ : ∃ m₀, m₀ = pfree m pg := ⟨_, rfl⟩
      rw [← hm₀] at h₀ hremove hx
      have hphys₀ : m₀.phys = m.phys := by rw [hx]; rfl
      have hcr3₀ : m₀.cr3 = m.cr3 := by rw [hx]; rfl
      rw [pageTablePteRemove] at hremove
      by_cases hp : isPresent (m₀.phys m₀.cr3 (pdeIdx v)) = true
      · rw [load_ptePtr h₀.map.half.self hp, ok_bind, store_ptePtr h₀.map.half.self _ hp,
          Except.ok.injEq] at hremove
        rw [hd, ht] at hremove
        rw [hd] at hp
        rcases h₀.unmapPage hq hp (isPresent_clear _) hremove.symm with ⟨h₁, hbits₁, hframe₁⟩
        have hcur₁ : m₁.cur = m.cur := by
          rw [← hremove, hx]
          rfl
        have hstart₁ : m₁.userPool.phyAddrStart = m.userPool.phyAddrStart := by
          rw [← hremove, hx]
          rfl
        have hnext := page_succ (v := v) (n := 0) (by omega)
        rcases ih h₁ (i := i + 1) (by rw [hnext.1]; omega) (by omega)
          (fun y hy => by rw [hstart₁]; exact hbel y hy) hloop with ⟨h', hcur, hbase, hbits, hframe⟩
        refine ⟨h', hcur.trans hcur₁, ?_, ?_, ?_⟩
        · rw [hbase, userBase, hstart₁, userBase]
        · intro t ht'
          rw [hbits t ht', hbits₁ t ht']
          refine procBitmap_bit_congr ?_
          rw [hx]
          rfl
        · intro k hk
          rw [hframe k hk, hframe₁ _ (userPage_lt hk)]
          by_cases hki : k = i
          · rw [if_neg (by omega), if_pos (by omega), if_pos (by omega)]
          · rw [if_neg (show ¬ userPage₀ + k = userPage₀ + i by omega)]
            by_cases hr : i + 1 ≤ k ∧ k < i + 1 + n
            · rw [if_pos hr, if_pos (by omega)]
            · rw [if_neg hr, if_neg (by omega), frameAt, hphys₀, hcr3₀, frameAt]
      · -- Without a table the entry cannot be read, and the loop would have stopped.
        rw [load_ptePtr_absent h₀.map.half.self (Bool.not_eq_true _ ▸ hp)] at hremove
        cases hremove

/-- The run `n` pages long from page `s` on has been marked in the bitmap. -/
structure UserMarked (m m' : Machine) (a b s n : Nat) (v : Bool) : Prop where
  map : UserMap m' a b
  cur : m'.cur = m.cur
  bits : ∀ i, i < userPages → bitmapScanTest (procBitmap m' m'.cur) i
    = if s ≤ i ∧ i < s + n then v else bitmapScanTest (procBitmap m m.cur) i

namespace UserSpace

/-- All bytes of the bitmap can be read. -/
theorem userBitmap_eq (h : UserSpace m a b) : userBitmap m = .ok (procBitmap m m.cur) := by
  have hcnt : bitmapPgCnt = 23 := rfl
  have hlen : userBitmapLen = 94199 := rfl
  have hwalk : ∀ i, i < m.cur.btmpBytesLen →
      (walk m (m.cur.bits + BitVec.ofNat 32 i)).isSome = true := by
    intro i hi
    rw [h.len, hlen] at hi
    have hlt : i < bitmapPgCnt * 4096 := by
      rw [hcnt]
      omega
    have hbyte := loadByte_bitmap h.map h.bitmap hlt
    rw [loadByte] at hbyte
    rcases bind_eq_ok.mp hbyte with ⟨w, hw, -⟩
    rw [load] at hw
    cases hx : walk m (m.cur.bits + BitVec.ofNat 32 i) with
    | none =>
        rw [hx] at hw
        cases hw
    | some f => rfl
  rw [userBitmap, ensure_pos hwalk, ok_bind]
  rfl

/-- The address of a page of the process. -/
theorem toNat_vaddrAt (h : UserSpace m a b) {s : Nat} (hs : s < userPages) :
    (vaddrAt m .user s).toNat = (userPage₀ + s) * 4096 := by
  rw [vaddrAt, vaddrBase, h.start, BitVec.add_comm]
  exact toNat_userAddr hs

end UserSpace

/-- `vaddr_get` marks the run it finds, unless it begins in the last page. -/
theorem UserSpace.vaddrGet (h : UserSpace m a b) {s : Nat}
    (hfree : 0 < freeCount (procBitmap m m.cur))
    (hrest : bitmapScanRest (procBitmap m m.cur) n = some s) (hin : s + n ≤ userPages)
    (hlow : (vaddrAt m .user s).toNat < 0xbffff000) :
    ∃ m₁, ForikOS.vaddrGet m .user n = .ok (m₁, vaddrAt m .user s) ∧ BitmapWritten m m₁ b ∧
      ∀ i, i < userPages → bitmapScanTest (procBitmap m₁ m₁.cur) i
        = if s ≤ i ∧ i < s + n then true else bitmapScanTest (procBitmap m m.cur) i := by
  rcases h.writeRange true hin with ⟨m₁, hmark, hw₁, hbits₁⟩
  have hcur₁ : m₁.cur = m.cur := by rw [hw₁.same]
  have hstart : m₁.cur.vaddrStart + BitVec.ofNat 32 s * pgSize = vaddrAt m .user s := by
    rw [hcur₁]
    rfl
  have hlt : vaddrAt m .user s < 0xc0000000 - pgSize := by
    rw [BitVec.lt_def]
    exact hlow
  refine ⟨m₁, ?_, hw₁, hbits₁⟩
  rw [ForikOS.vaddrGet, h.userBitmap_eq, ok_bind, bitmapScan_of_free hfree, hrest, ok_bind]
  dsimp only
  rw [hmark, ok_bind, hstart, ensure_pos hlt, ok_bind]

/-- `malloc_page` for a process finds no run, or maps the run it finds. -/
theorem UserMap.mallocPage (h : UserMap m a b) (hn : 0 < n ∧ n < 3840)
    (hfree : 0 < freeCount (procBitmap m m.cur))
    (hrun : ∀ s, bitmapScanRest (procBitmap m m.cur) n = some s →
      FreeRun (procBitmap m m.cur) n s ∧ FramesFor m .user ((vaddrAt m .user s).toNat / 4096) n ∧
        (vaddrAt m .user s).toNat < 0xbffff000) :
    (bitmapScanRest (procBitmap m m.cur) n = none ∧
      ForikOS.mallocPage m .user n = .ok (m, 0)) ∨
    ∃ m' s, ForikOS.mallocPage m .user n = .ok (m', vaddrAt m .user s) ∧
      FreeRun (procBitmap m m.cur) n s ∧ UserMarked m m' a b s n true := by
  have hspace := h.space
  have hlen : (procBitmap m m.cur).btmpBytesLen * 8 = userPages := by
    rw [userPages, ← hspace.len]
    rfl
  cases hrest : bitmapScanRest (procBitmap m m.cur) n with
  | none =>
      refine Or.inl ⟨rfl, ?_⟩
      rw [ForikOS.mallocPage, ensure_pos hn, ok_bind, ForikOS.vaddrGet, hspace.userBitmap_eq, ok_bind,
        bitmapScan_of_free hfree, hrest]
      rfl
  | some s =>
      rcases hrun s hrest with ⟨hfr, hfit, hlow⟩
      have hin : s + n ≤ userPages := by
        rw [← hlen]
        exact hfr.1
      have haddr := hspace.toNat_vaddrAt (s := s) (by omega)
      have hne : vaddrAt m .user s ≠ 0 := by
        have hzero : (0 : Word).toNat = 0 := rfl
        intro hc
        rw [hc, hzero, userPage₀_eq] at haddr
        omega
      rcases hspace.vaddrGet hfree hrest hin hlow with ⟨m₁, hget, hw₁, hbits₁⟩
      have hs₁ := hw₁.same
      have hsame : ∀ k, k < userPages →
          frameAt m₁ m₁.cr3 (userPage₀ + k) = frameAt m m.cr3 (userPage₀ + k) :=
        fun k hk => hspace.written_frameAt hw₁ (userPage_lt hk)
      -- The run is clear in the bitmap, so none of its pages is mapped.
      have hnone : ∀ k, s ≤ k → k < s + n → frameAt m₁ m₁.cr3 (userPage₀ + k) = none := by
        intro k h1 h2
        have hagree := h.agree k (by omega)
        rw [hfr.2 k h1 h2] at hagree
        rw [hsame k (by omega)]
        exact Option.isNone_iff_eq_none.mp (Option.isSome_eq_false_iff.mp hagree.symm)
      have hfit₁ : FramesFor m₁ .user (userPage₀ + s) n := by
        rw [haddr, Nat.mul_div_cancel _ (by omega)] at hfit
        exact (framesFor_congr (by rw [hs₁]) (hspace.written_dir hw₁) (by rw [hs₁]) (by rw [hs₁])
          .user _ n).mpr hfit
      rcases userLoop_granted n (hspace.written hw₁) haddr hin hnone hfit₁ with ⟨m', hloop, hg⟩
      have hbase₁ : userBase m₁ = userBase m := by
        rw [userBase, hs₁, userBase]
      have hbits : ∀ i, i < userPages → bitmapScanTest (procBitmap m' m'.cur) i
          = if s ≤ i ∧ i < s + n then true else bitmapScanTest (procBitmap m m.cur) i := by
        intro i hi
        rw [hg.bits i hi, hbits₁ i hi]
      refine Or.inr ⟨m', s, ?_, hfr, ⟨hg.space, ?_, ?_⟩, hg.cur.trans (by rw [hs₁]), hbits⟩
      · rw [ForikOS.mallocPage, ensure_pos hn, ok_bind, hget, ok_bind]
        dsimp only
        rw [if_neg hne, hloop, ok_bind]
        rfl
      · intro i hi
        rw [hbits i hi]
        by_cases hr : s ≤ i ∧ i < s + n
        · rcases hg.page i hr.1 hr.2 with ⟨w, hw, -⟩
          rw [if_pos hr, hw]
          rfl
        · rw [if_neg hr, hg.other i hi hr, hsame i hi]
          exact h.agree i hi
      · intro i w hi hw
        rw [hg.base, hbase₁]
        by_cases hr : s ≤ i ∧ i < s + n
        · rcases hg.page i hr.1 hr.2 with ⟨w', hw', hle⟩
          rw [hw, Option.some.injEq] at hw'
          rw [hw', ← hbase₁]
          exact hle
        · rw [hg.other i hi hr, hsame i hi] at hw
          exact h.page i w hi hw

/-- The address of the frame of a mapped page. -/
theorem UserMap.addrV2p (h : UserMap m a b) {s : Nat} (hs : s < userPages) {pg : Word}
    (hv : v.toNat = (userPage₀ + s) * 4096)
    (hset : bitmapScanTest (procBitmap m m.cur) s = true)
    (hrun : ForikOS.addrV2p m v = .ok pg) : m.userPool.phyAddrStart ≤ pg := by
  have hagree := h.agree s hs
  rw [hset] at hagree
  -- The bit is set, so the page is mapped, and to a frame of the user pool.
  rcases Option.isSome_iff_exists.mp hagree.symm with ⟨w, hw⟩
  have hle := h.page s w hs hw
  have hd : pdeIdx v = (userPage₀ + s) / 1024 := by
    rw [pdeIdx_eq, hv]
    omega
  have ht : pteIdx v = (userPage₀ + s) % 1024 := by
    rw [pteIdx_eq, hv]
    omega
  have hlow : (v &&& 0x00000fff).toNat = 0 := by
    rw [toNat_low, hv]
    omega
  rw [frameAt] at hw
  by_cases hp : isPresent (m.phys m.cr3 ((userPage₀ + s) / 1024)) = true
  · rw [if_pos hp] at hw
    rw [ForikOS.addrV2p, load_ptePtr h.space.map.half.self (by rw [hd]; exact hp), ok_bind, hd, ht,
      Except.ok.injEq] at hrun
    by_cases hp' : isPresent (m.phys (frameOf (m.phys m.cr3 ((userPage₀ + s) / 1024)))
        ((userPage₀ + s) % 1024)) = true
    · rw [if_pos hp', Option.some.injEq, frameOf_eq] at hw
      rw [BitVec.le_def, ← hrun, BitVec.toNat_add, hlow, toNat_high]
      rw [userBase] at hle
      have halign := h.space.layout.aligned
      have hlt := (m.phys (frameOf (m.phys m.cr3 ((userPage₀ + s) / 1024)))
        ((userPage₀ + s) % 1024)).isLt
      omega
    · rw [if_neg hp'] at hw
      cases hw
  · rw [if_neg hp] at hw
    cases hw

/-- `mfree_page` gives the pages of a run of the process back. -/
theorem UserMap.mfreePage (h : UserMap m a b) {s : Nat} (hin : s + n ≤ userPages)
    (hv : v.toNat = (userPage₀ + s) * 4096)
    (hset : ∀ i, s ≤ i → i < s + n → bitmapScanTest (procBitmap m m.cur) i = true)
    (hrun : ForikOS.mfreePage m .user v n = .ok m') : UserMarked m m' a b s n false := by
  rw [ForikOS.mfreePage] at hrun
  rcases bind_eq_ok.mp hrun with ⟨u, hcnt, hrun⟩
  rcases bind_eq_ok.mp hrun with ⟨pg, hpg, hrun⟩
  rcases bind_eq_ok.mp hrun with ⟨u', -, hrun⟩
  rcases bind_eq_ok.mp hrun with ⟨m₁, hloop, hremove⟩
  have hn := (ensure_eq_ok.mp hcnt).1
  have hfirst := h.addrV2p (by omega) hv (hset s (Nat.le_refl s) (by omega)) hpg
  simp only [hfirst, if_true] at hloop
  rcases userFreeLoop n h.space hv hin (fun x hx => of_decide_eq_true hx) hloop with
    ⟨h₁, hcur₁, hbase₁, hbits₁, hframe₁⟩
  -- The bits that are cleared are those of the pages.
  have hidx : ((v - m₁.cur.vaddrStart) / pgSize).toNat = s := by
    have hsize : pgSize.toNat = 4096 := rfl
    have hstart : (BitVec.ofNat 32 userVaddrStart).toNat = 0x8048000 := rfl
    have hlt := v.isLt
    rw [h₁.start, BitVec.toNat_udiv, BitVec.toNat_sub, hstart, hsize, hv, userPage₀_eq]
    rw [hv, userPage₀_eq] at hlt
    omega
  rw [vaddrRemove, hidx] at hremove
  rcases h₁.writeRange false hin with ⟨m₂, hmark, hw₂, hbits₂⟩
  have hs₂ := hw₂.same
  rw [hmark, Except.ok.injEq] at hremove
  rw [← hremove]
  have hbits : ∀ i, i < userPages → bitmapScanTest (procBitmap m₂ m₂.cur) i
      = if s ≤ i ∧ i < s + n then false else bitmapScanTest (procBitmap m m.cur) i := by
    intro i hi
    rw [hbits₂ i hi, hbits₁ i hi]
  have hframe : ∀ i, i < userPages → frameAt m₂ m₂.cr3 (userPage₀ + i)
      = if s ≤ i ∧ i < s + n then none else frameAt m m.cr3 (userPage₀ + i) := by
    intro i hi
    rw [h₁.written_frameAt hw₂ (userPage_lt hi), hframe₁ i hi]
  refine ⟨⟨h₁.written hw₂, ?_, ?_⟩, by rw [hs₂]; exact hcur₁, hbits⟩
  · intro i hi
    rw [hbits i hi, hframe i hi]
    by_cases hr : s ≤ i ∧ i < s + n
    · rw [if_pos hr, if_pos hr]
      rfl
    · rw [if_neg hr, if_neg hr]
      exact h.agree i hi
  · intro i w hi hw
    have hbase : userBase m₂ = userBase m := by
      rw [← hbase₁, userBase, hs₂, userBase]
    rw [hframe i hi] at hw
    by_cases hr : s ≤ i ∧ i < s + n
    · rw [if_pos hr] at hw
      cases hw
    · rw [if_neg hr] at hw
      rw [hbase]
      exact h.page i w hi hw

end Calls

end ForikOS
