import ForikOS.Theory.AddressSpace

/-!
# Marking the Bitmap of a Process

`vaddr_get` marks a run in the bitmap of the current process bit by bit,
through the virtual address of the bitmap. Each round reads a byte and writes
it back with one bit more.

As long as the bitmap does not lie in a page table, no round changes how an
address is translated, and since a round only sets bits, what an earlier round
has set is still set at the end. That holds even if two bytes of the bitmap
were the same byte of memory.

## Main definitions

* `TableFrame`: The directory and its page tables.
* `BitmapApart`: The bitmap of the process is not one of them.
* `Marked`: Writes outside the tables that only set bits.

## Theorems

* `getLsbD_writeBit`: Writing one bit of a byte writes one bit of its word.
* `setBit_marked`: One round of the loop.
* `userBitmapSetRange_marked`: The loop, which leaves its first bit set.
-/

namespace ForikOS

/-- Words only gain bits. -/
def MoreBits (m m' : Machine) : Prop :=
  ∀ f i k, (m.phys f i).getLsbD k = true → (m'.phys f i).getLsbD k = true

/-- The word after its byte at `sh` was written. -/
def withByte (w : Word) (sh : Nat) (byte : BitVec 8) : Word :=
  (w &&& ~~~(0xff#32 <<< sh)) ||| (byte.setWidth 32 <<< sh)

theorem getLsbD_withByte {w : Word} {sh k : Nat} {byte : BitVec 8} (hk : k < 32) :
    (withByte w sh byte).getLsbD k
      = if sh ≤ k ∧ k < sh + 8 then byte.getLsbD (k - sh) else w.getLsbD k := by
  have hmask : ∀ j, (0xff#32).getLsbD j = decide (j < 8) := by
    intro j
    have hval : (0xff#32).getLsbD j = ((0xff#8).setWidth 32).getLsbD j := rfl
    rw [hval, BitVec.getLsbD_setWidth, show (0xff#8) = BitVec.allOnes 8 by decide,
      BitVec.getLsbD_allOnes]
    by_cases hj : j < 8
    · rw [decide_eq_true hj, decide_eq_true (by omega : j < 32)]
      rfl
    · rw [decide_eq_false hj, Bool.and_false]
  simp only [withByte, BitVec.getLsbD_or, BitVec.getLsbD_and, BitVec.getLsbD_not,
    BitVec.getLsbD_shiftLeft, BitVec.getLsbD_setWidth, hmask, hk, decide_true, Bool.true_and]
  by_cases hlow : k < sh
  · rw [if_neg (by omega), decide_eq_true hlow]
    simp
  · rw [decide_eq_false hlow]
    by_cases hhigh : k - sh < 8
    · rw [if_pos (by omega), decide_eq_true hhigh, decide_eq_true (by omega : k - sh < 32)]
      simp
    · rw [if_neg (by omega), decide_eq_false hhigh, BitVec.getLsbD_of_ge byte _ (by omega)]
      simp

/-- The byte of a word at `sh`. -/
theorem getLsbD_byte (w : Word) (sh : Nat) {k : Nat} (hk : k < 8) :
    ((w >>> sh).setWidth 8).getLsbD k = w.getLsbD (sh + k) := by
  rw [BitVec.getLsbD_setWidth, decide_eq_true hk, Bool.true_and, BitVec.getLsbD_ushiftRight]

/-- Writing one bit of a byte writes one bit of its word. -/
theorem getLsbD_writeBit {w : Word} {sh j k : Nat} (v : Bool) (hj : j < 8) (hk : k < 32) :
    (withByte w sh (if v then (w >>> sh).setWidth 8 ||| (1#8 <<< j)
        else (w >>> sh).setWidth 8 &&& ~~~(1#8 <<< j))).getLsbD k
      = if k = sh + j then v else w.getLsbD k := by
  rw [getLsbD_withByte hk]
  have hone : ∀ i, i < 8 → (1#8 <<< j).getLsbD i = decide (i = j) := by
    intro i hi
    rw [← BitVec.twoPow_eq, BitVec.getLsbD_twoPow, decide_eq_true hj, Bool.true_and]
    exact decide_eq_decide.mpr ⟨Eq.symm, Eq.symm⟩
  by_cases hin : sh ≤ k ∧ k < sh + 8
  · have hk8 : k - sh < 8 := by omega
    have hsub : sh + (k - sh) = k := by omega
    rw [if_pos hin]
    by_cases hbit : k = sh + j
    · have hd : decide (k - sh = j) = true := decide_eq_true (by omega)
      rw [if_pos hbit]
      cases v
      · rw [if_neg (by decide), BitVec.getLsbD_and, BitVec.getLsbD_not, hone _ hk8, hd]
        simp
      · rw [if_pos rfl, BitVec.getLsbD_or, hone _ hk8, hd, Bool.or_true]
    · have hd : decide (k - sh = j) = false := decide_eq_false (by omega)
      rw [if_neg hbit]
      cases v
      · rw [if_neg (by decide), BitVec.getLsbD_and, BitVec.getLsbD_not, hone _ hk8, hd,
          getLsbD_byte w sh hk8, hsub, decide_eq_true hk8]
        simp
      · rw [if_pos rfl, BitVec.getLsbD_or, hone _ hk8, hd, Bool.or_false, getLsbD_byte w sh hk8, hsub]
  · rw [if_neg hin, if_neg (by omega)]

/-- Setting one bit of a byte sets one bit of its word. -/
theorem getLsbD_setBit {w : Word} {sh j k : Nat} (hj : j < 8) (hk : k < 32) :
    (withByte w sh ((w >>> sh).setWidth 8 ||| (1#8 <<< j))).getLsbD k
      = if k = sh + j then true else w.getLsbD k :=
  getLsbD_writeBit true hj hk

/-- The frames the processor walks through: the directory and its tables. -/
def TableFrame (m : Machine) (f : Nat) : Prop :=
  f = m.cr3 ∨ ∃ d, d < 1024 ∧ isPresent (m.phys m.cr3 d) = true ∧ f = frameOf (m.phys m.cr3 d)

/-- The bitmap of the process, with the byte after it, lies outside the
    tables. -/
def BitmapApart (m : Machine) : Prop :=
  ∀ i, i ≤ m.cur.btmpBytesLen → ∀ f, walk m (m.cur.bits + BitVec.ofNat 32 i) = some f →
    ¬ TableFrame m f

/-- Writes outside the tables that only set bits. -/
structure Marked (m m' : Machine) : Prop where
  same : SameButPhys m m'
  dir : m'.phys m.cr3 = m.phys m.cr3
  walk : ∀ v, walk m' v = walk m v
  more : MoreBits m m'

namespace Marked

variable {m m' m'' : Machine}

theorem refl (m : Machine) : Marked m m :=
  ⟨rfl, rfl, fun _ => rfl, fun _ _ _ h => h⟩

theorem cr3 (h : Marked m m') : m'.cr3 = m.cr3 := by
  rw [h.same]

theorem cur (h : Marked m m') : m'.cur = m.cur := by
  rw [h.same]

theorem trans (h : Marked m m') (h' : Marked m' m'') : Marked m m'' := by
  refine ⟨h.same.trans h'.same, ?_, fun v => (h'.walk v).trans (h.walk v),
    fun f i k hk => h'.more f i k (h.more f i k hk)⟩
  have hdir := h'.dir
  rw [h.cr3] at hdir
  exact hdir.trans h.dir

theorem tableFrame (h : Marked m m') {f : Nat} (hf : TableFrame m' f) : TableFrame m f := by
  rw [TableFrame, h.cr3, h.dir] at hf
  exact hf

theorem apart (h : Marked m m') (ha : BitmapApart m) : BitmapApart m' := by
  intro i hi f hf
  rw [h.cur] at hi hf
  rw [h.walk] at hf
  exact fun hc => ha i hi f hf (h.tableFrame hc)

/-- A byte only gains bits. -/
theorem loadByte (h : Marked m m') {v : Word} {byte : BitVec 8}
    (hb : ForikOS.loadByte m v = .ok byte) :
    ∃ byte', ForikOS.loadByte m' v = .ok byte' ∧
      ∀ k, k < 8 → byte.getLsbD k = true → byte'.getLsbD k = true := by
  rcases bind_eq_ok.mp hb with ⟨w, hw, hbyte⟩
  rw [load] at hw
  cases hf : ForikOS.walk m v with
  | none =>
      rw [hf] at hw
      cases hw
  | some f =>
      rw [hf, Except.ok.injEq] at hw
      have hload : load m' v = .ok (m'.phys f (wordIdx v)) := by
        rw [load, h.walk, hf]
      refine ⟨_, by rw [ForikOS.loadByte, hload, ok_bind], ?_⟩
      intro k hk hset
      rw [Except.ok.injEq] at hbyte
      rw [← hbyte, getLsbD_byte w _ hk, ← hw] at hset
      rw [getLsbD_byte _ _ hk]
      exact h.more _ _ _ hset

end Marked

theorem walk_setWord {m : Machine} {f : Nat} (h : ¬ TableFrame m f) (i : Nat) (w v : Word) :
    walk (m.setWord f i w) v = walk m v := by
  have hv := v.isLt
  have hd : pdeIdx v < 1024 := by
    rw [pdeIdx_eq]
    omega
  have hdir : (m.setWord f i w).phys (m.setWord f i w).cr3 = m.phys m.cr3 :=
    setWord_frame_of_ne w (fun hc => h (Or.inl hc.symm))
  simp only [walk, hdir]
  by_cases hp : isPresent (m.phys m.cr3 (pdeIdx v)) = true
  · have htable : (m.setWord f i w).phys (frameOf (m.phys m.cr3 (pdeIdx v)))
        = m.phys (frameOf (m.phys m.cr3 (pdeIdx v))) :=
      setWord_frame_of_ne w (fun hc => h (Or.inr ⟨_, hd, hp, hc.symm⟩))
    rw [htable]
  · rw [if_neg hp, if_neg hp]

/-- One round of the loop that marks a run in the bitmap of a process. -/
theorem setBit_marked {m m' : Machine} {v : Word} {j : Nat} (hj : j < 8)
    (hout : ∀ f, walk m v = some f → ¬ TableFrame m f)
    (h : (do
      let byte ← loadByte m v
      storeByte m v (byte ||| 1#8 <<< j)) = Except.ok m') :
    Marked m m' ∧ ∃ byte, loadByte m' v = .ok byte ∧ byte.getLsbD j = true := by
  rcases bind_eq_ok.mp h with ⟨byte, hbyte, hstore⟩
  rcases bind_eq_ok.mp hbyte with ⟨w, hw, hb⟩
  rcases bind_eq_ok.mp hstore with ⟨w', hw', hm⟩
  rw [hw, Except.ok.injEq] at hw'
  rw [Except.ok.injEq] at hb
  cases hf : walk m v with
  | none =>
      rw [load, hf] at hw
      cases hw
  | some f =>
      -- The word is in no table, so every address is mapped as before.
      have hnot := hout f hf
      rw [load, hf, Except.ok.injEq] at hw
      obtain ⟨sh, hsh⟩ : ∃ sh, sh = (v &&& 3).toNat * 8 := ⟨_, rfl⟩
      have hsh24 : sh ≤ 24 := by
        have hmask : (3 : Word).toNat = 2 ^ 2 - 1 := by decide
        rw [hsh, BitVec.toNat_and, hmask, Nat.and_two_pow_sub_one_eq_mod]
        omega
      have hm' : m' = m.setWord f (wordIdx v)
          (withByte w sh ((w >>> sh).setWidth 8 ||| 1#8 <<< j)) := by
        dsimp only at hm
        rw [store, hf, Except.ok.injEq, ← hw', ← hb, ← hsh] at hm
        exact hm.symm
      have hwalk : ∀ u, walk m' u = walk m u := by
        rw [hm']
        exact walk_setWord hnot _ _
      have hword : m'.phys f (wordIdx v) = withByte w sh ((w >>> sh).setWidth 8 ||| 1#8 <<< j) := by
        rw [hm', setWord_phys_self]
      refine ⟨⟨by rw [hm']; rfl, ?_, hwalk, ?_⟩, ?_⟩
      · rw [hm']
        exact setWord_frame_of_ne _ (fun hc => hnot (Or.inl hc.symm))
      · intro g i k hk
        have hk32 := BitVec.lt_of_getLsbD hk
        by_cases hsame : g = f ∧ i = wordIdx v
        · rw [hsame.1, hsame.2, hw] at hk
          rw [hsame.1, hsame.2, hword, getLsbD_setBit hj hk32, hk, ite_self]
        · rw [hm', setWord_phys_of_ne _ (by omega)]
          exact hk
      · refine ⟨(m'.phys f (wordIdx v) >>> sh).setWidth 8, ?_, ?_⟩
        · rw [loadByte, load, hwalk, hf, ok_bind, ← hsh]
        · rw [getLsbD_byte _ _ hj, hword, getLsbD_setBit hj (by omega), if_pos rfl]

/-- `vaddr_get` of a process marks its run and writes nothing else. -/
theorem userBitmapSetRange_marked {m m' : Machine} {start n : Nat} (ha : BitmapApart m)
    (hin : start + n ≤ m.cur.btmpBytesLen * 8 + 1)
    (h : userBitmapSetRange start true n m = .ok m') :
    Marked m m' ∧ (0 < n → ∃ byte,
      loadByte m' (m.cur.bits + BitVec.ofNat 32 (start / 8)) = .ok byte ∧
        byte.getLsbD (start % 8) = true) := by
  induction n generalizing m' with
  | zero =>
      rw [userBitmapSetRange, Except.ok.injEq] at h
      rw [← h]
      exact ⟨Marked.refl m, fun hc => absurd hc (by omega)⟩
  | succ n ih =>
      rw [userBitmapSetRange] at h
      rcases bind_eq_ok.mp h with ⟨m₁, hrest, hlast⟩
      have hfirst := ih (by omega) hrest
      have ha₁ := hfirst.1.apart ha
      have hcur := hfirst.1.cur
      simp only [if_true] at hlast
      have hbit := setBit_marked (Nat.mod_lt _ (by omega))
        (fun f hf => ha₁ ((start + n) / 8) (by rw [hcur]; omega) f hf) hlast
      refine ⟨hfirst.1.trans hbit.1, fun _ => ?_⟩
      -- The first bit was set by an earlier round, or this round is the first.
      by_cases hn : 0 < n
      · rcases hfirst.2 hn with ⟨byte, hload, hset⟩
        rcases hbit.1.loadByte hload with ⟨byte', hload', hmore⟩
        exact ⟨byte', hload', hmore _ (Nat.mod_lt _ (by omega)) hset⟩
      · rw [hcur, show start + n = start by omega] at hbit
        exact hbit.2

end ForikOS
