import ForikOS.Theory.UserPages

/-!
# The Bytes of a Process

What the memory of a process holds, and what leaves it as it is.

The pages of a process lie in frames of the user pool that have been handed out,
each in one of its own. So a byte that is written changes no other byte of the
process, and no page table either. A new page gets a frame that no page of the
process has; the entry for it goes into a page table, which is no frame of the
user pool. Bits of the bitmap of addresses lie in pages of the kernel.

So the frames of the user pool, free or not, keep what is in them but for the
bytes that are written through the page they belong to. A page that is given
back leaves its frame as it is, and whoever gets the frame next finds what it
held.

## Main definitions

* `OwnPages`: The pages of a process lie in frames of their own.
* `byteIn`: The byte at an address.
* `SamePages`, `NewPage`, `LostPage`: What pages there are.
* `KeepsBytes`: Pages stay, and bytes outside a set of addresses are kept.

## Theorems

* `loadByte_ok_iff`: What a read finds.
* `OwnPages.storeByte`, `storeBytes_bytes`: What writing bytes does.
* `OwnPages.written`, `OwnPages.mapped`: The bitmap and a new page keep all bytes.
* `OwnPages.mallocPage`, `OwnPages.mfreePage`: One page from the allocator, and
  back.
* `KeepsBytes.at_page`, `KeepsBytes.byteIn`: What is kept at an address.
* `palloc_ok`, `pageTableAdd_ok`: What a completed call has done.
-/

namespace ForikOS

open Exec

/-- The pages of a process lie in frames that the user pool has handed out, no
    two in the same one. -/
structure OwnPages (m : Machine) (a b : Nat) : Prop where
  space : UserSpace m a b
  taken : ∀ q w, q < 0xc0000 → frameAt m m.cr3 q = some w →
    ∃ j, j < userFrames m ∧ w = userBase m + j ∧ bitmapScanTest m.userPool.poolBitmap j = true
  inj : ∀ q q' w, q < 0xc0000 → q' < 0xc0000 → frameAt m m.cr3 q = some w →
    frameAt m m.cr3 q' = some w → q = q'

/-- The byte of a word at an address. -/
def byteOfWord (w : Word) (x : Nat) : Byte := (w >>> (x % 4 * 8)).setWidth 8

/-- The byte at an address, if its page is mapped. -/
def byteIn (m : Machine) (x : Nat) : Option Byte :=
  (frameAt m m.cr3 (x / 4096)).map (fun f => byteOfWord (m.phys f (x % 4096 / 4)) x)

/-- The same pages are mapped, to the same frames. -/
def SamePages (m m' : Machine) : Prop :=
  ∀ q, q < 0xc0000 → frameAt m' m'.cr3 q = frameAt m m.cr3 q

/-- A page has been mapped to a frame. -/
def NewPage (m m' : Machine) (q w : Nat) : Prop :=
  ∀ q', q' < 0xc0000 → frameAt m' m'.cr3 q' = if q' = q then some w else frameAt m m.cr3 q'

/-- A page has been given back. -/
def LostPage (m m' : Machine) (q : Nat) : Prop :=
  ∀ q', q' < 0xc0000 → frameAt m' m'.cr3 q' = if q' = q then none else frameAt m m.cr3 q'

/-- The pages of the process stay, and every byte of the frames for processes is
    kept but those at the addresses in `S`. -/
structure KeepsBytes (m m' : Machine) (a b : Nat) (S : Nat → Prop) : Prop where
  own : OwnPages m' a b
  cur : m'.cur = m.cur
  base : userBase m' = userBase m
  frame : ∀ q w, q < 0xc0000 → frameAt m m.cr3 q = some w → frameAt m' m'.cr3 q = some w
  byte : ∀ w y, userBase m ≤ w → y < 4096 →
    (∀ q, q < 0xc0000 → frameAt m' m'.cr3 q = some w → ¬ S (q * 4096 + y)) →
    byteOfWord (m'.phys w (y / 4)) y = byteOfWord (m.phys w (y / 4)) y

theorem NewPage.frame {m m' : Machine} {q w : Nat} (h : NewPage m m' q w)
    (hnone : frameAt m m.cr3 q = none) (q' w' : Nat) (hq' : q' < 0xc0000)
    (hw' : frameAt m m.cr3 q' = some w') : frameAt m' m'.cr3 q' = some w' := by
  rw [h q' hq', if_neg, hw']
  rintro rfl
  rw [hnone] at hw'
  cases hw'

namespace KeepsBytes

variable {m m₁ m' : Machine} {a b : Nat} {S S' : Nat → Prop}

theorem refl (h : OwnPages m a b) (S : Nat → Prop) : KeepsBytes m m a b S :=
  ⟨h, rfl, rfl, fun _ _ _ hw => hw, fun _ _ _ _ _ => rfl⟩

theorem trans (h : KeepsBytes m m₁ a b S) (h' : KeepsBytes m₁ m' a b S')
    (hS : ∀ x, S x → S' x) : KeepsBytes m m' a b S' := by
  refine ⟨h'.own, h'.cur.trans h.cur, h'.base.trans h.base,
    fun q w hq hw => h'.frame q w hq (h.frame q w hq hw), fun w y hw hy hno => ?_⟩
  -- A page that has the frame in between has it at the end.
  rw [h'.byte w y (by rw [h.base]; exact hw) hy hno]
  exact h.byte w y hw hy (fun q hq hf hs => hno q hq (h'.frame q w hq hf) (hS _ hs))

theorem mono (h : KeepsBytes m m' a b S) (hS : ∀ x, S x → S' x) : KeepsBytes m m' a b S' :=
  ⟨h.own, h.cur, h.base, h.frame, fun w y hw hy hno =>
    h.byte w y hw hy (fun q hq hf hs => hno q hq hf (hS _ hs))⟩

end KeepsBytes

section Bytes

variable {m m' : Machine} {v : Word} {c : Byte}

theorem toNat_and_three (v : Word) : (v &&& 3).toNat = v.toNat % 4 := by
  have hmask : (3 : Word).toNat = 2 ^ 2 - 1 := by decide
  rw [BitVec.toNat_and, hmask, Nat.and_two_pow_sub_one_eq_mod]

/-- A read finds the byte of a page that is mapped. -/
theorem loadByte_ok_iff : loadByte m v = .ok c ↔ byteIn m v.toNat = some c := by
  rw [loadByte, load, walk_eq_frameAt, byteIn]
  cases hf : frameAt m m.cr3 (v.toNat / 4096) with
  | none =>
      constructor
      · intro h
        cases h
      · intro h
        cases h
  | some f =>
      dsimp only
      rw [ok_bind, wordIdx_eq, toNat_and_three, Option.map_some, Except.ok.injEq, Option.some.injEq]
      rfl

/-- Writing outside the directory and the page tables maps the same pages. -/
theorem frameAt_of_phys (hcr3 : m'.cr3 = m.cr3)
    (hdir : m'.phys m.cr3 = m.phys m.cr3)
    (htab : ∀ e, e < 768 → isPresent (m.phys m.cr3 e) = true →
      m'.phys (frameOf (m.phys m.cr3 e)) = m.phys (frameOf (m.phys m.cr3 e)))
    {q : Nat} (hq : q < 0xc0000) : frameAt m' m'.cr3 q = frameAt m m.cr3 q := by
  unfold frameAt
  rw [hcr3, hdir]
  by_cases hp : isPresent (m.phys m.cr3 (q / 1024)) = true
  · rw [if_pos hp, if_pos hp, htab _ (by omega) hp]
  · rw [if_neg hp, if_neg hp]

/-- Another byte of a word is kept when one is written. -/
theorem byteOfWord_withByte (w : Word) (c : Byte) (x y : Nat) :
    byteOfWord (withByte w (x % 4 * 8) c) y = if y % 4 = x % 4 then c else byteOfWord w y := by
  refine BitVec.eq_of_getLsbD_eq fun k hk => ?_
  have hx := Nat.mod_lt x (show 0 < 4 by decide)
  have hy := Nat.mod_lt y (show 0 < 4 by decide)
  rw [byteOfWord, getLsbD_byte _ _ hk, getLsbD_withByte (by omega)]
  by_cases heq : y % 4 = x % 4
  · rw [if_pos heq, if_pos (by omega), heq, Nat.add_sub_cancel_left]
  · rw [if_neg heq, if_neg (by omega), byteOfWord, getLsbD_byte _ _ hk]

/-- The byte at an address is that at its place in the page. -/
theorem byteOfWord_mod (w : Word) (x : Nat) : byteOfWord w (x % 4096) = byteOfWord w x := by
  rw [byteOfWord, byteOfWord, Nat.mod_mod_of_dvd x (show 4 ∣ 4096 by decide)]

/-- A completed write has replaced the byte in its word. -/
theorem storeByte_ok (h : storeByte m v c = .ok m') :
    ∃ f, frameAt m m.cr3 (v.toNat / 4096) = some f ∧ m' = m.setWord f (v.toNat % 4096 / 4)
      (withByte (m.phys f (v.toNat % 4096 / 4)) (v.toNat % 4 * 8) c) := by
  rcases bind_eq_ok.mp h with ⟨w, hload, hstore⟩
  rw [load, walk_eq_frameAt] at hload
  dsimp only at hstore
  rw [store, walk_eq_frameAt] at hstore
  cases hf : frameAt m m.cr3 (v.toNat / 4096) with
  | none =>
      rw [hf] at hload
      cases hload
  | some f =>
      rw [hf] at hload hstore
      dsimp only at hload hstore
      rw [Except.ok.injEq] at hload hstore
      refine ⟨f, rfl, ?_⟩
      rw [← hstore, ← hload, wordIdx_eq, toNat_and_three]
      rfl

/-- A frame that has been handed out was free. -/
theorem palloc_ok {p p' : Pool} {phy : Word} (h : palloc p = .ok (p', phy)) :
    ∃ j, j < p.poolBitmap.btmpBytesLen * 8 ∧ bitmapScanTest p.poolBitmap j = false ∧
      p' = { p with poolBitmap := bitmapSet p.poolBitmap j true } ∧
      phy = BitVec.ofNat 32 j * pgSize + p.phyAddrStart := by
  rcases bind_eq_ok.mp h with ⟨found, hscan, hret⟩
  rcases bitmapScan_one hscan with ⟨j, rfl, hj, hclear, -⟩
  dsimp only at hret
  rw [Except.ok.injEq, Prod.mk.injEq] at hret
  exact ⟨j, hj, hclear, hret.1.symm, hret.2.symm⟩

end Bytes

namespace OwnPages

variable {m m' : Machine} {a b : Nat}

/-- The frames of a process lie behind those of the kernel. -/
theorem frame_ge (h : OwnPages m a b) {q w : Nat} (hq : q < 0xc0000)
    (hw : frameAt m m.cr3 q = some w) : userBase m ≤ w := by
  rcases h.taken q w hq hw with ⟨j, -, rfl, -⟩
  exact Nat.le_add_right _ _

theorem kernel_lt (h : OwnPages m a b) {j : Nat} (hj : j < kernelFrames m) :
    0x200 + j < userBase m := by
  have hlt := h.space.map.layout.frame_lt hj
  rw [userBase]
  omega

theorem dir_lt (h : OwnPages m a b) : 0x200 ≤ m.cr3 ∧ m.cr3 < userBase m := by
  rcases h.space.cr3_frame with ⟨j, hj, hcr3, -⟩
  have hlt := h.kernel_lt hj
  omega

theorem table_lt (h : OwnPages m a b) {e : Nat} (he : e < 768)
    (hp : isPresent (m.phys m.cr3 e) = true) : frameOf (m.phys m.cr3 e) < userBase m := by
  rcases h.space.table e he hp with ⟨j, hj, hf, -⟩
  rw [hf]
  exact h.kernel_lt hj

/-- Another state with the same pools that maps the same pages. -/
theorem ofFrames (h : OwnPages m a b) (hs : SameButPhys m m') (hspace : UserSpace m' a b)
    (hsame : SamePages m m') : OwnPages m' a b := by
  have hpool : m'.userPool = m.userPool := by rw [hs]
  refine ⟨hspace, fun q w hq hw => ?_, fun q q' w hq hq' hw hw' => ?_⟩
  · rw [hsame q hq] at hw
    rw [userFrames, userBase, hpool]
    exact h.taken q w hq hw
  · rw [hsame q hq] at hw
    rw [hsame q' hq'] at hw'
    exact h.inj q q' w hq hq' hw hw'

/-- Writing a byte of the process. -/
theorem storeByte (h : OwnPages m a b) {v : Word} {c : Byte} (hv : v.toNat < 0xc0000000)
    (hrun : ForikOS.storeByte m v c = .ok m') :
    KeepsBytes m m' a b (· = v.toNat) ∧ SamePages m m' ∧ byteIn m' v.toNat = some c := by
  rcases storeByte_ok hrun with ⟨f, hf, hm'⟩
  have hge := h.frame_ge (by omega) hf
  have hdir := h.dir_lt
  have hs : SameButPhys m m' := by
    rw [hm']
    rfl
  have hphys : ∀ g, g ≠ f → m'.phys g = m.phys g := by
    intro g hg
    rw [hm']
    exact setWord_frame_of_ne _ hg
  have hsame : SamePages m m' := by
    intro q hq
    refine frameAt_of_phys (by rw [hs]) (hphys _ (by omega)) (fun e he hp => hphys _ ?_) hq
    have hlt := h.table_lt he hp
    omega
  have hspace : UserSpace m' a b :=
    h.space.write hs (hphys _ (by omega)) (fun g _ hg => hphys g (by omega))
  -- In the frame only this byte changes, and no other page lies in the frame.
  refine ⟨⟨h.ofFrames hs hspace hsame, by rw [hs], by rw [userBase, hs, userBase],
    fun q w hq hw => (hsame q hq).trans hw, fun w y hw hy hno => ?_⟩, hsame, ?_⟩
  · by_cases hwf : w = f
    · subst hwf
      have hne := hno (v.toNat / 4096) (by omega) (by rw [hsame _ (by omega), hf])
      rw [hm']
      by_cases hword : y / 4 = v.toNat % 4096 / 4
      · rw [hword, setWord_phys_self, byteOfWord_withByte, if_neg (by omega)]
      · rw [setWord_phys_of_ne _ (Or.inr hword)]
    · rw [hphys w hwf]
  · rw [byteIn, hsame _ (by omega), hf, Option.map_some, hm', setWord_phys_self,
      byteOfWord_withByte, if_pos rfl]

/-- Writing the bitmap of addresses. -/
theorem written (h : OwnPages m a b) (hw : BitmapWritten m m' b) :
    KeepsBytes m m' a b (fun _ => False) ∧ SamePages m m' := by
  have hs := hw.same
  have hsame : SamePages m m' := fun q hq => h.space.written_frameAt hw hq
  refine ⟨⟨h.ofFrames hs (h.space.written hw) hsame, by rw [hs], by rw [userBase, hs, userBase],
    fun q w hq hw => (hsame q hq).trans hw, fun w y hge _ _ => ?_⟩, hsame⟩
  -- The bitmap of addresses lies in frames of the kernel pool.
  have hphys : m'.phys w = m.phys w := by
    refine hw.phys w fun k hk hwk => ?_
    have hpage := h.space.bit_page hk
    rcases h.space.map.mapped _ hpage.1 hpage.2 with ⟨j, hj, hfr, -⟩
    have hlt := h.kernel_lt hj
    rw [hwk, bitFrame] at hge
    omega
  rw [hphys]

/-- One page more, in a frame of the pool that was free. -/
theorem addPage (h : OwnPages m a b) {q j : Nat} (hspace : UserSpace m' a b)
    (hj : j < userFrames m) (hclear : bitmapScanTest m.userPool.poolBitmap j = false)
    (hpool : m'.userPool = { m.userPool with
      poolBitmap := bitmapSet m.userPool.poolBitmap j true })
    (hnew : NewPage m m' q (userBase m + j)) : OwnPages m' a b := by
  have hbase : userBase m' = userBase m := by rw [userBase, hpool, userBase]
  have hlen : userFrames m' = userFrames m := by
    rw [userFrames, hpool]
    show (bitmapSet _ _ _).btmpBytesLen * 8 = _
    rw [bitmapSet_len, userFrames]
  have hset : ∀ k, bitmapScanTest m'.userPool.poolBitmap k =
      if k = j then true else bitmapScanTest m.userPool.poolBitmap k := by
    intro k
    rw [hpool]
    show bitmapScanTest (bitmapSet _ _ _) k = _
    rw [bitmapScanTest_set]
  -- The frame was free, so no page of the process lies in it.
  have hfresh : ∀ q', q' < 0xc0000 → frameAt m m.cr3 q' ≠ some (userBase m + j) := by
    intro q' hq' hc
    rcases h.taken q' _ hq' hc with ⟨k, -, hk, hbit⟩
    have hkj : k = j := by omega
    rw [hkj, hclear] at hbit
    cases hbit
  refine ⟨hspace, fun q' w hq' hw => ?_, fun q₁ q₂ w hq₁ hq₂ hw₁ hw₂ => ?_⟩
  · rw [hnew q' hq'] at hw
    rw [hlen, hbase]
    by_cases hqq : q' = q
    · rw [if_pos hqq, Option.some.injEq] at hw
      exact ⟨j, hj, hw.symm, by rw [hset, if_pos rfl]⟩
    · rw [if_neg hqq] at hw
      rcases h.taken q' w hq' hw with ⟨k, hk, hwk, hbit⟩
      exact ⟨k, hk, hwk, by rw [hset, hbit, ite_self]⟩
  · rw [hnew q₁ hq₁] at hw₁
    rw [hnew q₂ hq₂] at hw₂
    by_cases h1 : q₁ = q
    · by_cases h2 : q₂ = q
      · rw [h1, h2]
      · rw [if_pos h1] at hw₁
        rw [if_neg h2, ← hw₁] at hw₂
        exact absurd hw₂ (hfresh q₂ hq₂)
    · rw [if_neg h1] at hw₁
      by_cases h2 : q₂ = q
      · rw [if_pos h2] at hw₂
        rw [← hw₂] at hw₁
        exact absurd hw₁ (hfresh q₁ hq₁)
      · rw [if_neg h2] at hw₂
        exact h.inj q₁ q₂ w hq₁ hq₂ hw₁ hw₂

/-- A new page, in the frame that the pool hands out. -/
theorem mapped (h : OwnPages m a b) {q : Nat} {m₁ : Machine} {p : Pool} {phy : Word}
    (hq : q < 0xc0000) (hnone : frameAt m m.cr3 q = none)
    (hpalloc : palloc m.userPool = .ok (p, phy)) (hm₁ : m₁ = m.setPool p .user)
    (hmap : Mapped m₁ m' q phy) (hcur : m'.cur = m.cur) :
    KeepsBytes m m' a b (fun _ => False) ∧ NewPage m m' q (phy.toNat / 4096) := by
  rcases palloc_ok hpalloc with ⟨j, hj, hclear, hp, hphy⟩
  have hspace₁ : UserSpace m₁ a b := by
    rw [hm₁, hp]
    exact h.space.setUserBits (bitmapSet_len _ _ _)
  have hcr3₁ : m₁.cr3 = m.cr3 := by rw [hm₁]; rfl
  have hphys₁ : m₁.phys = m.phys := by rw [hm₁]; rfl
  have hcur₁ : m₁.cur = m.cur := by rw [hm₁]; rfl
  have hframe₁ : ∀ q', frameAt m₁ m₁.cr3 q' = frameAt m m.cr3 q' := by
    intro q'
    rw [frameAt, hphys₁, hcr3₁, frameAt]
  have hnat : phy.toNat = (userBase m + j) * 4096 := by
    rw [hphy]
    exact toNat_userFrame h.space.layout hj
  have hpage : phy.toNat / 4096 = userBase m + j := by omega
  rcases hspace₁.mapPage hmap (hcur.trans hcur₁.symm) hq (by omega) with ⟨hspace, -, hframe⟩
  have hnew : NewPage m m' q (phy.toNat / 4096) := by
    intro q' hq'
    rw [hframe q' hq', hframe₁]
    rfl
  have hpool : m'.userPool = p := by
    rw [hmap.userPool, hm₁]
    rfl
  refine ⟨⟨h.addPage hspace hj hclear (hpool.trans hp) (by rw [← hpage]; exact hnew), hcur,
    by rw [userBase, hpool, hp, userBase], hnew.frame hnone, fun w y hw _ _ => ?_⟩, hnew⟩
  -- The entry is in the directory or in a page table, both frames of the
  -- kernel pool.
  have hdir := h.dir_lt
  rcases hspace₁.mapped_table hmap hq with ⟨i, hi, hT, -⟩
  have hlt := h.kernel_lt (j := i) (by rw [hm₁] at hi; exact hi)
  rw [hmap.phys w (by omega) (by omega), hphys₁]

end OwnPages

namespace KeepsBytes

variable {m m' : Machine} {a b x : Nat} {S : Nat → Prop}

/-- What is not written is what the frame of the page held before. -/
theorem at_page (h : KeepsBytes m m' a b S) (hx : x < 0xc0000000) (hS : ¬ S x) {w : Nat}
    (hw : frameAt m' m'.cr3 (x / 4096) = some w) :
    byteOfWord (m'.phys w (x % 4096 / 4)) x = byteOfWord (m.phys w (x % 4096 / 4)) x := by
  have hge := h.own.frame_ge (by omega) hw
  rw [h.base] at hge
  rw [← byteOfWord_mod, ← byteOfWord_mod (m.phys w (x % 4096 / 4))]
  refine h.byte w (x % 4096) hge (by omega) (fun q hq hq' => ?_)
  rw [h.own.inj q (x / 4096) w hq (by omega) hq' hw, Nat.div_add_mod']
  exact hS

/-- A byte of the process that is not written is kept. -/
theorem byteIn (h : KeepsBytes m m' a b S) (hx : x < 0xc0000000) (hS : ¬ S x) {c : Byte}
    (hc : ForikOS.byteIn m x = some c) : ForikOS.byteIn m' x = some c := by
  rw [ForikOS.byteIn] at hc ⊢
  cases hf : frameAt m m.cr3 (x / 4096) with
  | none =>
      rw [hf] at hc
      cases hc
  | some w =>
      have hf' := h.frame _ _ (by omega) hf
      rw [hf] at hc
      rw [hf', Option.map_some, h.at_page hx hS hf']
      exact hc

end KeepsBytes

section Calls

variable {m m' : Machine} {a b : Nat}

/-- A completed `page_table_add` for a page that was not mapped has mapped it. -/
theorem pageTableAdd_ok (h : UserSpace m a b) {v phy : Word} (hv : v.toNat < 0xc0000000)
    (hnone : frameAt m m.cr3 (v.toNat / 4096) = none) (hrun : pageTableAdd m v phy = .ok m') :
    Mapped m m' (v.toNat / 4096) phy := by
  have hd : pdeIdx v = v.toNat / 4096 / 1024 := by
    rw [pdeIdx_eq]
    omega
  by_cases hp : isPresent (m.phys m.cr3 (v.toNat / 4096 / 1024)) = true
  · have hadd : ∃ m₁, pageTableAdd m v phy = .ok m₁ ∧ Mapped m m₁ (v.toNat / 4096) phy :=
      pageTableAdd_old h.map.half.self rfl hp (h.table_ne (by omega) hp)
        (frameAt_eq_none (by rw [hnone]; decide) hp)
    rcases hadd with ⟨m₁, hm₁, hmap⟩
    rw [hrun, Except.ok.injEq] at hm₁
    rw [hm₁]
    exact hmap
  · have habs : isPresent (m.phys m.cr3 (v.toNat / 4096 / 1024)) = false := Bool.not_eq_true _ ▸ hp
    have huse := h.map.inUse h.dir.1 h.dir.2.1
    rw [h.dir.2.2] at huse
    -- The table came from the kernel pool, so that had a free frame.
    have hfree : 0 < freeCount m.kernelPool.poolBitmap := by
      rcases bind_eq_ok.mp hrun with ⟨pde, hload, hrest⟩
      rw [load_pdePtr h.map.half.self, Except.ok.injEq] at hload
      rw [← hload, hd, if_neg hp] at hrest
      rcases bind_eq_ok.mp hrest with ⟨⟨p', pa⟩, hpalloc, -⟩
      rcases palloc_ok hpalloc with ⟨j, hj, hclear, -⟩
      refine Finset.card_pos.mpr ⟨j, ?_⟩
      rw [Finset.mem_filter, Finset.mem_range]
      exact ⟨hj, hclear⟩
    have hadd : ∃ m₁, pageTableAdd m v phy = .ok m₁ ∧ Mapped m m₁ (v.toNat / 4096) phy :=
      pageTableAdd_new h.map.half.self h.map.layout rfl (by omega) habs huse hfree
    rcases hadd with ⟨m₁, hm₁, hmap⟩
    rw [hrun, Except.ok.injEq] at hm₁
    rw [hm₁]
    exact hmap

/-- `page_table_add` asserts that the page was not mapped. -/
theorem pageTableAdd_absent (h : UserSpace m a b) {v phy : Word}
    (hrun : pageTableAdd m v phy = .ok m') : frameAt m m.cr3 (v.toNat / 4096) = none := by
  have hd : pdeIdx v = v.toNat / 4096 / 1024 := by
    rw [pdeIdx_eq]
    omega
  have ht : pteIdx v = v.toNat / 4096 % 1024 := by
    rw [pteIdx_eq]
    omega
  rw [frameAt]
  by_cases hp : isPresent (m.phys m.cr3 (v.toNat / 4096 / 1024)) = true
  · rcases bind_eq_ok.mp hrun with ⟨pde, hload, hrest⟩
    rw [load_pdePtr h.map.half.self, hd, Except.ok.injEq] at hload
    rw [← hload, if_pos hp] at hrest
    rcases bind_eq_ok.mp hrest with ⟨pte, hpte, hrest⟩
    rcases bind_eq_ok.mp hrest with ⟨_, habsent, -⟩
    rw [load_ptePtr h.map.half.self (by rw [hd]; exact hp), hd, ht, Except.ok.injEq] at hpte
    rw [if_pos hp, hpte, ensure_eq_ok.mp habsent]
    rfl
  · rw [if_neg hp]

/-- One page from the allocator: it was not mapped, and no byte of the process
    changes. -/
theorem OwnPages.mallocPage (h : OwnPages m a b) {v : Word}
    (hrun : ForikOS.mallocPage m .user 1 = .ok (m', v)) :
    v ≠ 0 ∧ userPage₀ ≤ v.toNat / 4096 ∧ v.toNat / 4096 < 0xc0000 ∧
      frameAt m m.cr3 (v.toNat / 4096) = none ∧
      KeepsBytes m m' a b (fun _ => False) ∧ ∃ w, NewPage m m' (v.toNat / 4096) w := by
  rcases bind_eq_ok.mp hrun with ⟨_, -, k₁⟩
  rcases bind_eq_ok.mp k₁ with ⟨⟨m₁, u⟩, hget, k₂⟩
  rcases bind_eq_ok.mp hget with ⟨bits, hb, g₁⟩
  rcases bind_eq_ok.mp g₁ with ⟨found, hscan, g₂⟩
  rw [h.space.userBitmap_eq, Except.ok.injEq] at hb
  rcases bitmapScan_one hscan with ⟨i, rfl, hi, -, -⟩
  have hi' : i < userPages := by
    rw [← hb] at hi
    change i < m.cur.btmpBytesLen * 8 at hi
    rw [h.space.len] at hi
    exact hi
  rcases bind_eq_ok.mp g₂ with ⟨m₂, hset, g₃⟩
  rcases bind_eq_ok.mp g₃ with ⟨_, -, g₄⟩
  rw [Except.ok.injEq, Prod.mk.injEq] at g₄
  rcases g₄ with ⟨rfl, hu⟩
  -- The bit is set first.
  rcases h.space.writeRange true (n := 1) (by omega : i + 1 ≤ userPages) with ⟨m₃, hm₃, hw, -⟩
  rw [hset, Except.ok.injEq] at hm₃
  subst hm₃
  rcases h.written hw with ⟨hkeep, hsame⟩
  have hcur : m₂.cur = m.cur := hkeep.cur
  have haddr : u = vaddrAt m .user i := by
    rw [← hu, hcur]
    rfl
  have hnat := h.space.toNat_vaddrAt hi'
  rw [← haddr] at hnat
  have hpage : u.toNat / 4096 = userPage₀ + i := by omega
  have hlt := userPage_lt hi'
  have hne : u ≠ 0 := by
    rintro rfl
    have hzero : (0 : Word).toNat = 0 := rfl
    rw [hzero, userPage₀_eq] at hnat
    omega
  dsimp only at k₂
  rw [if_neg hne] at k₂
  rcases bind_eq_ok.mp k₂ with ⟨⟨m₄, done⟩, hloop, k₃⟩
  rcases bind_eq_ok.mp hloop with ⟨⟨pool, phy⟩, hpalloc, l₁⟩
  dsimp only at l₁
  -- The pool does not hand out the frame at address zero.
  have hphy : phy ≠ 0 := by
    rcases palloc_ok hpalloc with ⟨j, hj, -, -, hphy⟩
    have hnat' : phy.toNat = (userBase m₂ + j) * 4096 := by
      rw [hphy]
      exact toNat_userFrame hkeep.own.space.layout hj
    have hdir := hkeep.own.dir_lt
    intro hc
    have hzero : (0 : Word).toNat = 0 := rfl
    rw [hc, hzero] at hnat'
    omega
  rw [if_neg hphy] at l₁
  rcases bind_eq_ok.mp l₁ with ⟨m₅, hadd, l₂⟩
  rw [mallocLoop, Except.ok.injEq, Prod.mk.injEq] at l₂
  rcases l₂ with ⟨rfl, rfl⟩
  rw [if_pos rfl, Except.ok.injEq, Prod.mk.injEq] at k₃
  rcases k₃ with ⟨rfl, rfl⟩
  have hspace : UserSpace (m₂.setPool pool .user) a b := by
    rcases palloc_ok hpalloc with ⟨j, -, -, rfl, -⟩
    exact hkeep.own.space.setUserBits (bitmapSet_len _ _ _)
  have hnone : frameAt m₂ m₂.cr3 (u.toNat / 4096) = none := pageTableAdd_absent hspace hadd
  have hmap := pageTableAdd_ok hspace (by omega) hnone hadd
  have hcur₅ : m₅.cur = m₂.cur := (pageTableAdd_cur hadd).trans rfl
  rcases hkeep.own.mapped (by omega) hnone hpalloc rfl hmap hcur₅ with ⟨hkeep', hnew⟩
  refine ⟨hne, by omega, by omega, by rw [← hsame _ (by omega)]; exact hnone,
    hkeep.trans hkeep' (fun _ hx => hx), phy.toNat / 4096, fun q' hq' => ?_⟩
  rw [hnew q' hq', hsame q' hq']

/-- A page is given back to the allocator. The frames for processes keep what is
    in them. -/
theorem OwnPages.mfreePage (h : OwnPages m a b) {q : Nat} (hlow : userPage₀ ≤ q)
    (hq : q < 0xc0000) (hsome : (frameAt m m.cr3 q).isSome = true)
    (hrun : ForikOS.mfreePage m .user (BitVec.ofNat 32 (q * 4096)) 1 = .ok m') :
    OwnPages m' a b ∧ m'.cur = m.cur ∧ userBase m' = userBase m ∧ LostPage m m' q ∧
      ∀ w, userBase m ≤ w → m'.phys w = m.phys w := by
  rcases Option.isSome_iff_exists.mp hsome with ⟨w, hw⟩
  rcases h.taken q w hq hw with ⟨j, hj, hwj, hbit⟩
  have hv : (BitVec.ofNat 32 (q * 4096)).toNat = q * 4096 := by
    rw [BitVec.toNat_ofNat]
    omega
  generalize BitVec.ofNat 32 (q * 4096) = v at hrun hv
  have hd : pdeIdx v = q / 1024 := by
    rw [pdeIdx_eq, hv]
    omega
  have ht : pteIdx v = q % 1024 := by
    rw [pteIdx_eq, hv]
    omega
  have hself := h.space.map.half.self
  have hp : isPresent (m.phys m.cr3 (q / 1024)) = true := by
    by_contra hp
    rw [frameAt, if_neg hp] at hw
    cases hw
  -- The frame of the page is one of the user pool.
  have hpage : ∀ pg, ForikOS.addrV2p m v = .ok pg → pg.toNat = w * 4096 := by
    intro pg hpg
    have hlowbits : (v &&& 0x00000fff).toNat = 0 := by
      rw [toNat_low, hv]
      omega
    rw [frameAt, if_pos hp] at hw
    rw [ForikOS.addrV2p, load_ptePtr hself (by rw [hd]; exact hp), ok_bind, hd, ht,
      Except.ok.injEq] at hpg
    split at hw
    · rw [Option.some.injEq, frameOf_eq] at hw
      rw [← hpg, BitVec.toNat_add, hlowbits, toNat_high]
      have hlt := (m.phys (frameOf (m.phys m.cr3 (q / 1024))) (q % 1024)).isLt
      omega
    · cases hw
  have hstart : m.userPool.phyAddrStart.toNat = userBase m * 4096 := by
    have halign := h.space.layout.aligned
    rw [userBase]
    omega
  rcases bind_eq_ok.mp hrun with ⟨_, -, k₁⟩
  rcases bind_eq_ok.mp k₁ with ⟨_, -, k₂⟩
  rcases bind_eq_ok.mp k₂ with ⟨_, -, k₃⟩
  rcases bind_eq_ok.mp k₃ with ⟨m₂, hloop, hremove⟩
  rcases bind_eq_ok.mp hloop with ⟨pg, hpg, l₁⟩
  rcases bind_eq_ok.mp l₁ with ⟨_, -, l₂⟩
  rcases bind_eq_ok.mp l₂ with ⟨m₁, hclear, l₃⟩
  rw [mfreeLoop, Except.ok.injEq] at l₃
  subst l₃
  have hpgn := hpage pg hpg
  have hle : m.userPool.phyAddrStart ≤ pg := by
    rw [BitVec.le_def, hstart, hpgn]
    omega
  have hidx : ((pg - m.userPool.phyAddrStart) / pgSize).toNat = j := by
    have hpgsz : pgSize.toNat = 4096 := rfl
    rw [BitVec.toNat_udiv, BitVec.toNat_sub_of_le hle, hstart, hpgn, hpgsz]
    omega
  have hfree : pfree m pg = m.setPool { m.userPool with
      poolBitmap := bitmapSet m.userPool.poolBitmap j false } .user := by
    simp only [pfree, hle, if_true, Machine.pool, hidx]
  have h₀ : UserSpace (pfree m pg) a b := by
    rw [hfree]
    exact h.space.setUserBits (bitmapSet_len _ _ _)
  have hphys₀ : (pfree m pg).phys = m.phys := by rw [hfree]; rfl
  have hcr3₀ : (pfree m pg).cr3 = m.cr3 := by rw [hfree]; rfl
  have hp₀ : isPresent ((pfree m pg).phys (pfree m pg).cr3 (q / 1024)) = true := by
    rw [hphys₀, hcr3₀]
    exact hp
  -- The entry is cleared.
  rw [pageTablePteRemove, load_ptePtr h₀.map.half.self (by rw [hd]; exact hp₀), ok_bind,
    store_ptePtr h₀.map.half.self _ (by rw [hd]; exact hp₀), Except.ok.injEq, hd, ht] at hclear
  rcases h₀.unmapPage hq hp₀ (isPresent_clear _) hclear.symm with ⟨h₁, -, hframe₁⟩
  have hlost₁ : LostPage m m₁ q := by
    intro q' hq'
    rw [hframe₁ q' hq', frameAt, hphys₀, hcr3₀, frameAt]
  have hpool₁ : m₁.userPool = { m.userPool with
      poolBitmap := bitmapSet m.userPool.poolBitmap j false } := by
    rw [← hclear, hfree]
    rfl
  have hcur₁ : m₁.cur = m.cur := by
    rw [← hclear, hfree]
    rfl
  have hbase₁ : userBase m₁ = userBase m := by rw [userBase, hpool₁, userBase]
  have hphys₁ : ∀ f, userBase m ≤ f → m₁.phys f = m.phys f := by
    intro f hf
    have htab := h.table_lt (by omega) hp
    rw [← hclear, hphys₀, hcr3₀, setWord_frame_of_ne _ (by omega), hphys₀]
  -- No other page lies in the frame, so theirs are still taken.
  have hown₁ : OwnPages m₁ a b := by
    refine ⟨h₁, fun q' w' hq' hw' => ?_, fun q₁ q₂ w' hq₁ hq₂ hw₁ hw₂ => ?_⟩
    · rw [hlost₁ q' hq'] at hw'
      by_cases hqq : q' = q
      · rw [if_pos hqq] at hw'
        cases hw'
      · rw [if_neg hqq] at hw'
        rcases h.taken q' w' hq' hw' with ⟨j', hj', hwj', hbit'⟩
        have hne : j' ≠ j := by
          rintro rfl
          refine hqq (h.inj q' q w hq' hq ?_ hw)
          rw [hw', hwj', hwj]
        refine ⟨j', ?_, by rw [hbase₁]; exact hwj', ?_⟩
        · rw [userFrames, hpool₁]
          exact hj'
        · rw [hpool₁]
          show bitmapScanTest (bitmapSet _ _ _) _ = _
          rw [bitmapScanTest_set, if_neg hne]
          exact hbit'
    · rw [hlost₁ q₁ hq₁] at hw₁
      rw [hlost₁ q₂ hq₂] at hw₂
      by_cases h1 : q₁ = q
      · rw [if_pos h1] at hw₁
        cases hw₁
      · by_cases h2 : q₂ = q
        · rw [if_pos h2] at hw₂
          cases hw₂
        · rw [if_neg h1] at hw₁
          rw [if_neg h2] at hw₂
          exact h.inj q₁ q₂ w' hq₁ hq₂ hw₁ hw₂
  -- The bit of the address is cleared as well.
  have hidx' : ((v - m₁.cur.vaddrStart) / pgSize).toNat = q - userPage₀ := by
    have hpgsz : pgSize.toNat = 4096 := rfl
    have hstart' : (BitVec.ofNat 32 userVaddrStart).toNat = 0x8048000 := rfl
    rw [h₁.start, BitVec.toNat_udiv, BitVec.toNat_sub, hstart', hpgsz, hv]
    rw [userPage₀_eq] at hlow ⊢
    omega
  have hin : q - userPage₀ + 1 ≤ userPages := by
    have hpages : userPages = 753592 := rfl
    rw [userPage₀_eq] at hlow ⊢
    omega
  rw [vaddrRemove, hidx'] at hremove
  rcases h₁.writeRange false hin with ⟨m₃, hmark, hw₃, -⟩
  rw [hmark, Except.ok.injEq] at hremove
  subst hremove
  rcases hown₁.written hw₃ with ⟨hkeep, hsame⟩
  refine ⟨hkeep.own, hkeep.cur.trans hcur₁, hkeep.base.trans hbase₁, fun q' hq' => ?_,
    fun f hf => ?_⟩
  · rw [hsame q' hq', hlost₁ q' hq']
  · rw [← hphys₁ f hf]
    refine hw₃.phys f fun k hk hfk => ?_
    have hbitpage := h₁.bit_page hk
    rcases h₁.map.mapped _ hbitpage.1 hbitpage.2 with ⟨j', hj', hfr, -⟩
    have hlt := hown₁.kernel_lt hj'
    rw [hbase₁] at hlt
    rw [hfk, bitFrame] at hf
    omega

/-- Bytes copied to the process. -/
theorem storeBytes_bytes (h : OwnPages m a b) {dst : Word} {buf : Nat → Byte} {n : Nat}
    (hend : dst.toNat + n ≤ 0xc0000000) (hrun : storeBytes dst buf n m = .ok m') :
    KeepsBytes m m' a b (fun x => dst.toNat ≤ x ∧ x < dst.toNat + n) ∧ SamePages m m' ∧
      ∀ k, k < n → byteIn m' (dst.toNat + k) = some (buf k) := by
  induction n generalizing m' with
  | zero =>
      cases hrun
      exact ⟨KeepsBytes.refl h _, fun _ _ => rfl, fun k hk => absurd hk (Nat.not_lt_zero k)⟩
  | succ n ih =>
      rcases bind_eq_ok.mp hrun with ⟨m₁, hfirst, hlast⟩
      rcases ih (by omega) hfirst with ⟨hkeep, hsame, hbytes⟩
      have haddr : (dst + BitVec.ofNat 32 n).toNat = dst.toNat + n := by
        rw [BitVec.toNat_add, BitVec.toNat_ofNat]
        omega
      -- The last byte, once the others are there.
      rcases hkeep.own.storeByte (by omega) hlast with ⟨hkeep', hsame', hbyte⟩
      rw [haddr] at hkeep' hbyte
      refine ⟨(hkeep.mono (fun x hx => ⟨hx.1, by omega⟩)).trans
        (hkeep'.mono (fun x hx => by subst hx; exact ⟨Nat.le_add_right _ _, by omega⟩))
        (fun x hx => hx), fun q hq => (hsame' q hq).trans (hsame q hq), fun k hk => ?_⟩
      by_cases hkn : k = n
      · rw [hkn]
        exact hbyte
      · exact hkeep'.byteIn (by omega) (by omega) (hbytes k (by omega))

end Calls

end ForikOS
