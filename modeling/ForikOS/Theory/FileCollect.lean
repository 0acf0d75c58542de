import ForikOS.Theory.FileBlocks

/-!
# Collecting the Blocks of a File

The first half of `file_write`: which blocks the data goes to.

A block that is added goes to its slot of the inode, or, past the twelfth, to
`all_blocks` only, until the table is written. `Grown` says what a number of
such rounds do, and that one after the other they do what they say together;
the loop is then one induction. Whether the blocks suffice is decided by the
number of clear bits alone, so the loop has two outcomes and no others.

`Collected` is what the three situations have in common when they succeed: the
blocks up to the new last one are recorded, the old ones are where they were,
the others are new, and `all_blocks` holds those the data goes to.

## Main definitions

* `Grown`: Blocks have been added one by one.
* `Recorded`: A file whose blocks are recorded and taken.
* `Collected`: The blocks for a write are known.

## Theorems

* `run_growBlocks`, `stops_growBlocks`: The loop of situations 1 and 2.
* `stops_allocAll`: The loop of situation 3 ends in a panic.
* `run_collectSame`, `run_collectTable`: The blocks for a write.
-/

namespace ForikOS

open Prog

/-- `n` blocks from number `first` on have been added. -/
structure Grown (a : Nat) (s s' : Fs) (first n : Nat) (all all' : Nat → Nat) : Prop where
  allocs : Allocs (BitmapSector s.part.sb) a s s'
  count : freeCount s'.part.blockBitmap + n = freeCount s.part.blockBitmap
  fresh : ∀ k, first ≤ k → k < first + n → FreshBlock s.part s'.part (all' k)
  distinct : ∀ j k, first ≤ j → j < first + n → first ≤ k → k < first + n →
    all' j = all' k → j = k
  same : ∀ k, ¬ (first ≤ k ∧ k < first + n) → all' k = all k
  slots : ∀ k, (s'.inode a).iSectors k =
    if (first ≤ k ∧ k < first + n) ∧ k < 12 then all' k else (s.inode a).iSectors k

namespace Grown

variable {a first m n : Nat} {s s₁ s' : Fs} {all all₁ all' : Nat → Nat}

theorem refl (a first : Nat) (s : Fs) (all : Nat → Nat) : Grown a s s first 0 all all := by
  refine ⟨Allocs.refl _ a s, rfl, fun k h h' => ?_, fun j k h h' => ?_, fun _ _ => rfl, fun k => ?_⟩
  · omega
  · omega
  · rw [if_neg (by omega)]

/-- One number of blocks after another. -/
theorem trans (h : Grown a s s₁ first m all all₁) (h' : Grown a s₁ s' (first + m) n all₁ all') :
    Grown a s s' first (m + n) all all' := by
  have hsame : ∀ k, k < first + m → all' k = all₁ k := fun k hk => h'.same k (by omega)
  have hsb : s₁.part.sb = s.part.sb := h.allocs.sb
  have hallocs := h'.allocs
  rw [hsb] at hallocs
  -- a block of the first half is taken when the second half begins
  have hcross : ∀ j k, first ≤ j → j < first + m → first + m ≤ k → k < first + (m + n) →
      all' j ≠ all' k := by
    intro j k hj hj' hk hk'
    rw [hsame j hj']
    exact (fresh_ne_taken (h'.fresh k hk (by omega))
      (h.allocs.fresh_taken (h.fresh j hj hj'))).symm
  refine ⟨h.allocs.trans hallocs, ?_, fun k hk hk' => ?_, fun j k hj hj' hk hk' heq => ?_,
    fun k hk => ?_, fun k => ?_⟩
  · have hc := h.count
    have hc' := h'.count
    omega
  · by_cases hlt : k < first + m
    · rw [hsame k hlt]
      exact hallocs.fresh_left (h.fresh k hk hlt)
    · exact h.allocs.fresh_right (h'.fresh k (by omega) (by omega))
  · by_cases hlt : j < first + m
    · by_cases hlt' : k < first + m
      · rw [hsame j hlt, hsame k hlt'] at heq
        exact h.distinct j k hj hlt hk hlt' heq
      · exact absurd heq (hcross j k hj hlt (by omega) (by omega))
    · by_cases hlt' : k < first + m
      · exact absurd heq.symm (hcross k j hk hlt' (by omega) (by omega))
      · exact h'.distinct j k (by omega) (by omega) (by omega) (by omega) heq
  · rw [h'.same k (by omega), h.same k (by omega)]
  · rw [h'.slots k, h.slots k]
    by_cases hin : (first ≤ k ∧ k < first + (m + n)) ∧ k < 12
    · rw [if_pos hin]
      by_cases hlt : k < first + m
      · rw [if_neg (by omega), if_pos (by omega), hsame k hlt]
      · rw [if_pos (by omega)]
    · rw [if_neg hin, if_neg (by omega), if_neg (by omega)]

end Grown

section Rounds

variable {t g a : Nat} {s : Fs}

/-- A new block goes to a slot of the inode. -/
theorem run_newSlot (hv : Volume s.part) (h : 0 < freeCount s.part.blockBitmap) {k : Nat}
    (hk : k < 12) (all : Nat → Nat) :
    ∃ lba idx s₁ s₂ s₃, blockBitmapAlloc.run s = .ok (some lba, s₁) ∧
      Allocs (BitmapSector s.part.sb) a s s₁ ∧ s₁.inode = s.inode ∧
      (setSector a k lba).run s₁ = .ok ((), s₂) ∧ (blockBitmapIdx lba).run s₂ = .ok (idx, s₂) ∧
      idx ≠ 0 ∧ (bitmapSync idx .block).run s₂ = .ok ((), s₃) ∧
      Grown a s s₃ k 1 all (Function.update all k lba) := by
  rcases run_blockBitmapAlloc a hv h with ⟨lba, s₁, hrun, h₁, hinode, -, hfresh, hne, hcount⟩
  rcases run_setSector (BitmapSector s.part.sb) s₁ a k lba with ⟨s₂, hset, h₂, hpart₂, hslots⟩
  have h₁₂ := h₁.trans h₂
  rcases run_syncNew a (h₁₂.volume hv) (h₁₂.fresh_taken (h₂.fresh_left hfresh))
    with ⟨idx, s₃, hidx, hsync, h₃, hlba, hpart, hinode₃⟩
  rw [h₁₂.sb] at h₃ hlba
  refine ⟨lba, idx, s₁, s₂, s₃, hrun, h₁, hinode, hset, hidx, ?_, hsync,
    h₁₂.trans h₃, ?_, fun j hj hj' => ?_, fun i j hi hi' hj hj' _ => ?_, fun j hj => ?_, fun j => ?_⟩
  · omega
  · rw [hpart, hpart₂]
    exact hcount
  · rw [show j = k by omega, Function.update_self, hpart, hpart₂]
    exact hfresh
  · omega
  · rw [Function.update_of_ne (by omega)]
  · rw [hinode₃, hslots j, hinode]
    by_cases hj : j = k
    · rw [if_pos hj, if_pos (by omega), hj, Function.update_self]
    · rw [if_neg hj, if_neg (by omega)]

/-- A new block past the twelfth goes to `all_blocks` only. -/
theorem run_newEntry (hv : Volume s.part) (h : 0 < freeCount s.part.blockBitmap) {k : Nat}
    (hk : ¬ k < 12) (all : Nat → Nat) :
    ∃ lba idx s₁ s₂, blockBitmapAlloc.run s = .ok (some lba, s₁) ∧
      (blockBitmapIdx lba).run s₁ = .ok (idx, s₁) ∧
      (bitmapSync idx .block).run s₁ = .ok ((), s₂) ∧
      Grown a s s₂ k 1 all (Function.update all k lba) := by
  rcases run_blockBitmapAlloc a hv h with ⟨lba, s₁, hrun, h₁, hinode, -, hfresh, -, hcount⟩
  rcases run_syncNew a (h₁.volume hv) (h₁.fresh_taken hfresh)
    with ⟨idx, s₂, hidx, hsync, h₂, -, hpart, hinode₂⟩
  rw [h₁.sb] at h₂
  refine ⟨lba, idx, s₁, s₂, hrun, hidx, hsync,
    h₁.trans h₂, ?_, fun j hj hj' => ?_, fun i j hi hi' hj hj' _ => ?_, fun j hj => ?_, fun j => ?_⟩
  · rw [hpart]
    exact hcount
  · rw [show j = k by omega, Function.update_self, hpart]
    exact hfresh
  · omega
  · rw [Function.update_of_ne (by omega)]
  · rw [if_neg (by omega), hinode₂, hinode]

/-- One round of the loop. -/
theorem leads_growBlocks (hat : FileAt t g a s) (hv : Volume s.part)
    (hfree : 0 < freeCount s.part.blockBitmap) {blockIdx : Nat}
    (hslot : blockIdx < 12 → (s.inode a).iSectors blockIdx = 0) (n : Nat) (all : Nat → Nat) :
    ∃ lba s₁, Grown a s s₁ blockIdx 1 all (Function.update all blockIdx lba) ∧
      Leads (growBlocks t g (n + 1) blockIdx all) s
        (growBlocks t g n (blockIdx + 1) (Function.update all blockIdx lba)) s₁ := by
  by_cases hk : blockIdx < 12
  · rcases run_newSlot (a := a) hv hfree hk all
      with ⟨lba, idx, s₁, s₂, s₃, halloc, h₁, hinode, hset, hidx, -, hsync, hgrown⟩
    refine ⟨lba, s₃, hgrown, ?_⟩
    rw [growBlocks]
    refine (leads_bind halloc).trans ?_
    show Leads (if blockIdx < 12 then _ else _) s₁ _ s₃
    rw [if_pos hk]
    have hzero : (s₁.inode a).iSectors blockIdx = 0 := by
      rw [hinode]
      exact hslot hk
    refine (leads_bind (run_fileInode (h₁.fileAt hat))).trans ?_
    refine (leads_bind (run_assert hzero s₁)).trans ((leads_bind hset).trans ?_)
    exact (leads_bind hidx).trans (leads_bind hsync)
  · rcases run_newEntry (a := a) hv hfree hk all with ⟨lba, idx, s₁, s₂, halloc, hidx, hsync, hgrown⟩
    refine ⟨lba, s₂, hgrown, ?_⟩
    rw [growBlocks]
    refine (leads_bind halloc).trans ?_
    show Leads (if blockIdx < 12 then _ else _) s₁ _ s₂
    rw [if_neg hk]
    exact (leads_bind hidx).trans (leads_bind hsync)

/-- The slots from a block on are empty, also after that block is filled. -/
theorem Grown.slots_zero {s₁ : Fs} {blockIdx : Nat} {all all₁ : Nat → Nat}
    (h : Grown a s s₁ blockIdx 1 all all₁)
    (hslot : ∀ k, blockIdx ≤ k → k < 12 → (s.inode a).iSectors k = 0) :
    ∀ k, blockIdx + 1 ≤ k → k < 12 → (s₁.inode a).iSectors k = 0 := by
  intro k hk hk'
  rw [h.slots k, if_neg (by omega)]
  exact hslot k (by omega) hk'

/-- The loop while the blocks suffice. -/
theorem run_growBlocks (n : Nat) : ∀ (s : Fs) (blockIdx : Nat) (all : Nat → Nat),
    FileAt t g a s → Volume s.part → n ≤ freeCount s.part.blockBitmap →
    (∀ k, blockIdx ≤ k → k < 12 → (s.inode a).iSectors k = 0) →
    ∃ all' s', (growBlocks t g n blockIdx all).run s = .ok (some all', s') ∧
      Grown a s s' blockIdx n all all' := by
  induction n with
  | zero => exact fun s blockIdx all _ _ _ _ => ⟨all, s, rfl, Grown.refl a blockIdx s all⟩
  | succ n ih =>
      intro s blockIdx all hat hv hfree hslot
      rcases leads_growBlocks hat hv (by omega) (hslot blockIdx (by omega)) n all
        with ⟨lba, s₁, h₁, hlead⟩
      have hcount := h₁.count
      rcases ih s₁ (blockIdx + 1) (Function.update all blockIdx lba) (h₁.allocs.fileAt hat)
        (h₁.allocs.volume hv) (by omega) (h₁.slots_zero hslot) with ⟨all', s', hrun, h'⟩
      refine ⟨all', s', hlead.1.trans hrun, ?_⟩
      rw [Nat.add_comm n 1]
      exact h₁.trans h'

/-- The loop when they do not. -/
theorem stops_growBlocks (n : Nat) : ∀ (s : Fs) (blockIdx : Nat) (all : Nat → Nat),
    FileAt t g a s → Volume s.part → freeCount s.part.blockBitmap < n →
    (∀ k, blockIdx ≤ k → k < 12 → (s.inode a).iSectors k = 0) →
    ∃ s', Stops (growBlocks t g n blockIdx all) s (.assertion .bitmapScan) s' ∧
      Allocs (BitmapSector s.part.sb) a s s' := by
  induction n with
  | zero => exact fun _ _ _ _ _ hfree _ => absurd hfree (by omega)
  | succ n ih =>
      intro s blockIdx all hat hv hfree hslot
      by_cases hnone : freeCount s.part.blockBitmap = 0
      · exact ⟨s, stops_bind (stops_blockBitmapAlloc hnone), Allocs.refl _ a s⟩
      rcases leads_growBlocks hat hv (by omega) (hslot blockIdx (by omega)) n all
        with ⟨lba, s₁, h₁, hlead⟩
      have hcount := h₁.count
      rcases ih s₁ (blockIdx + 1) (Function.update all blockIdx lba) (h₁.allocs.fileAt hat)
        (h₁.allocs.volume hv) (by omega) (h₁.slots_zero hslot) with ⟨s', hstop, h'⟩
      rw [h₁.allocs.sb] at h'
      exact ⟨s', hlead.stops hstop, h₁.allocs.trans h'⟩

/-- The loop of situation 3 takes every block that is left. -/
theorem stops_allocAll (a n : Nat) : ∀ s : Fs, Volume s.part →
    freeCount s.part.blockBitmap < n →
    ∃ s', Stops (allocAll n) s (.assertion .bitmapScan) s' ∧
      Allocs (fun _ => False) a s s' ∧ s'.inode = s.inode := by
  induction n with
  | zero => exact fun _ _ hfree => absurd hfree (by omega)
  | succ n ih =>
      intro s hv hfree
      by_cases hnone : freeCount s.part.blockBitmap = 0
      · exact ⟨s, stops_bind (stops_blockBitmapAlloc hnone), Allocs.refl _ a s, rfl⟩
      rcases run_blockBitmapAlloc a hv (by omega)
        with ⟨lba, s₁, halloc, h₁, hinode, hdisk, -, -, hcount⟩
      rcases ih s₁ (h₁.volume hv) (by omega) with ⟨s', hstop, h', hinode'⟩
      refine ⟨s', stops_bind_of halloc hstop, ?_, hinode'.trans hinode⟩
      refine Allocs.trans ⟨h₁.rest, h₁.part, h₁.inode, h₁.len, h₁.set, fun x hx => hx ?_⟩ h'
      rw [hdisk]

end Rounds

/-- The blocks of the file at `a` up to `last` are recorded and taken. -/
structure Recorded (a last : Nat) (s : Fs) : Prop where
  laid : Laid s.disk (s.inode a) last
  taken : ∀ n, OwnSector s.disk (s.inode a) n → TakenBlock s.part n

/-- The blocks `first` to `last` the data goes to are known. -/
structure Collected (a first last : Nat) (s s' : Fs) (all : Nat → Nat) : Prop where
  allocs : Allocs (fun n => BitmapSector s.part.sb n ∨
    OwnSector s'.disk (s'.inode a) n ∧ FreshBlock s.part s'.part n) a s s'
  count : freeCount s'.part.blockBitmap + (last - first) +
    (if first < 12 ∧ 12 ≤ last then 1 else 0) = freeCount s.part.blockBitmap
  recorded : Recorded a last s'
  old : ∀ k, k ≤ first → fileBlocks s'.disk (s'.inode a) k = fileBlocks s.disk (s.inode a) k
  own : ∀ n, OwnSector s'.disk (s'.inode a) n →
    OwnSector s.disk (s.inode a) n ∨ FreshBlock s.part s'.part n
  all_eq : ∀ k, first ≤ k → k ≤ last → all k = fileBlocks s'.disk (s'.inode a) k
  all_le : ∀ k, all k ≤ maxLba

namespace Recorded

variable {a last : Nat} {s : Fs}

theorem block_taken (h : Recorded a last s) {k : Nat} (hk : k ≤ last) :
    TakenBlock s.part (fileBlocks s.disk (s.inode a) k) :=
  h.taken _ (h.laid.own_block hk)

theorem block_le (h : Recorded a last s) {k : Nat} (hk : k < 12 ∨ 12 ≤ last) :
    fileBlocks s.disk (s.inode a) k ≤ maxLba := by
  by_cases hle : k ≤ last
  · exact (h.block_taken hle).1
  by_cases hlt : k < 140
  · rw [h.laid.rest k (by omega) hk hlt]
    exact Nat.zero_le _
  · -- past the table there are zeros
    have hpast : ∀ j, ¬ j < 512 → sectors s.disk ((s.inode a).iSectors 12) 1 j = 0 :=
      fun j hj => if_neg (show ¬ j < 1 * 512 by omega)
    rw [fileBlocks_indirect (by omega), indirectBlocks, le32, hpast _ (by omega),
      hpast _ (by omega), hpast _ (by omega), hpast _ (by omega)]
    decide

theorem slot_zero (h : Recorded a last s) {k : Nat} (hk : last < k) (hk' : k < 12) :
    (s.inode a).iSectors k = 0 := by
  rw [← fileBlocks_direct (d := s.disk) hk']
  exact h.laid.rest k hk (Or.inl hk') (by omega)

end Recorded

section FirstBlock

variable {t g a : Nat} {s : Fs}

/-- A file that has a block is left as it is. -/
theorem run_writeFirstBlock_recorded (hat : FileAt t g a s) {last : Nat}
    (h : Laid s.disk (s.inode a) last) :
    (writeFirstBlock t g).run s = .ok (some (2 ^ 32 - 1), s) := by
  have hne : ¬ (s.inode a).iSectors 0 = 0 := by
    rw [← fileBlocks_direct (d := s.disk) (by omega)]
    exact h.recorded 0 (by omega)
  rw [writeFirstBlock, run_bind_of (run_fileInode hat)]
  show (if (s.inode a).iSectors 0 = 0 then _ else _ : FsM (Option Nat)).run s = _
  rw [if_neg hne, run_pure]

/-- A file without a block gets its first one. -/
theorem run_writeFirstBlock_empty (hat : FileAt t g a s) (hv : Volume s.part)
    (hfree : 0 < freeCount s.part.blockBitmap) (h : NoBlocks (s.inode a)) :
    ∃ lba s₁, (writeFirstBlock t g).run s = .ok (some lba, s₁) ∧
      Allocs (BitmapSector s.part.sb) a s s₁ ∧ Recorded a 0 s₁ ∧
      (∀ n, OwnSector s₁.disk (s₁.inode a) n → FreshBlock s.part s₁.part n) ∧
      freeCount s₁.part.blockBitmap + 1 = freeCount s.part.blockBitmap := by
  rcases run_newSlot (a := a) hv hfree (show 0 < 12 by omega) (fun _ => 0)
    with ⟨lba, idx, s₁, s₂, s₃, halloc, h₁, -, hset, hidx, hne, hsync, hgrown⟩
  -- The new block is in slot 0, and all other slots are zero as before.
  have hslots : ∀ k, k < 13 → (s₃.inode a).iSectors k = if k = 0 then lba else 0 := by
    intro k hk
    rw [hgrown.slots k]
    by_cases hk0 : k = 0
    · rw [if_pos (by omega), if_pos hk0, hk0, Function.update_self]
    · rw [if_neg (by omega), if_neg hk0]
      exact h.2 k hk
  have hfresh : FreshBlock s.part s₃.part lba := by
    have hf := hgrown.fresh 0 (by omega) (by omega)
    rw [Function.update_self] at hf
    exact hf
  have hzero : fileBlocks s₃.disk (s₃.inode a) 0 = lba := by
    rw [fileBlocks_direct (by omega), hslots 0 (by omega), if_pos rfl]
  have hpos := hv.data_pos
  have hdata := hfresh.data
  have htable : (s₃.inode a).iSectors 12 = 0 := by
    rw [hslots 12 (by omega), if_neg (by omega)]
  -- So the inode is laid out with block 0 as its last.
  have hlaid : Laid s₃.disk (s₃.inode a) 0 := by
    refine ⟨by omega, fun k hk => ?_, fun j k hj hk _ => by omega, ?_, fun h12 => by omega,
      fun k hk hk' _ => ?_⟩
    · rw [show k = 0 by omega, hzero]
      omega
    · rw [htable]
      omega
    · rw [fileBlocks_direct (by omega), hslots k (by omega), if_neg (by omega)]
  have hown : ∀ n, OwnSector s₃.disk (s₃.inode a) n → FreshBlock s.part s₃.part n := by
    intro n hn
    rcases hlaid.own hn with ⟨h12, -⟩ | ⟨k, hk, hnk⟩
    · omega
    · rw [hnk, show k = 0 by omega, hzero]
      exact hfresh
  refine ⟨lba, s₃, ?_, hgrown.allocs,
    ⟨hlaid, fun n hn => hgrown.allocs.fresh_taken (hown n hn)⟩, hown, hgrown.count⟩
  rw [writeFirstBlock, run_bind_of (run_fileInode hat)]
  show (if (s.inode a).iSectors 0 = 0 then _ else _ : FsM (Option Nat)).run s = _
  rw [if_pos (h.2 0 (by omega)), run_bind_of halloc]
  show (setSector a 0 lba >>= _).run s₁ = _
  rw [run_bind_of hset, run_bind_of hidx, run_bind_of (run_assert hne s₂), run_bind_of hsync,
    run_pure]

/-- Without a block left there is no first one. -/
theorem stops_writeFirstBlock (hat : FileAt t g a s) (hnone : freeCount s.part.blockBitmap = 0)
    (h : NoBlocks (s.inode a)) : Stops (writeFirstBlock t g) s (.assertion .bitmapScan) s := by
  refine stops_bind_of (run_fileInode hat) ?_
  show Stops (if (s.inode a).iSectors 0 = 0 then _ else _) s _ s
  rw [if_pos (h.2 0 (by omega))]
  exact stops_bind (stops_blockBitmapAlloc hnone)

end FirstBlock

section Same

variable {a last : Nat} {s : Fs}

/-- The blocks of a write that adds none. -/
theorem run_collectSame (h : Recorded a last s) :
    ∃ all, (collectSame (s.inode a) (last + 1)).run s = .ok (some all, s) ∧
      Collected a last last s s all := by
  have hcount : freeCount s.part.blockBitmap + (last - last) +
      (if last < 12 ∧ 12 ≤ last then 1 else 0) = freeCount s.part.blockBitmap := by
    rw [Nat.sub_self, if_neg (by omega), Nat.add_zero]
  -- The last block is a direct one, or the table of the indirect ones is read.
  by_cases h12 : last + 1 ≤ 12
  · refine ⟨Function.update (fun _ => 0) last ((s.inode a).iSectors last), ?_,
      ⟨Allocs.refl _ a s, hcount, h, fun _ _ => rfl, fun _ hn => Or.inl hn, fun k hk hk' => ?_,
        fun k => ?_⟩⟩
    · rw [collectSame, if_pos h12, run_pure, Nat.add_sub_cancel]
    · rw [show k = last by omega, Function.update_self, fileBlocks_direct (by omega)]
    · by_cases hk : k = last
      · rw [hk, Function.update_self, ← fileBlocks_direct (d := s.disk) (by omega)]
        exact h.block_le (Or.inl (by omega))
      · rw [Function.update_of_ne hk]
        exact Nat.zero_le _
  · have htable := h.laid.table.mpr (by omega)
    have hle := (h.taken _ (h.laid.own_table (by omega))).1
    let all : Nat → Nat := fun k => if k < 12 then 0 else
      indirectBlocks (sectors s.disk ((s.inode a).iSectors 12) 1) (k - 12)
    refine ⟨all, ?_, ⟨Allocs.refl _ a s, hcount, h, fun _ _ => rfl, fun _ hn => Or.inl hn,
      fun k hk hk' => ?_, fun k => ?_⟩⟩
    · rw [collectSame, if_neg h12, run_bind_of (run_assert htable s),
        run_bind_of (run_ideRead hle (by omega) s), run_pure]
    · rw [fileBlocks_indirect (by omega)]
      exact if_neg (by omega)
    · show (if k < 12 then 0 else _) ≤ maxLba
      by_cases hk : k < 12
      · rw [if_pos hk]
        exact Nat.zero_le _
      · rw [if_neg hk, ← fileBlocks_indirect hk]
        exact h.block_le (Or.inr (by omega))

end Same

section Table

variable {t g a first last : Nat} {s : Fs}

/-- The table of indirect blocks after it has been written. -/
theorem indirectBlocks_tableBytes {d : Nat → Byte} {table : Nat} {all : Nat → Nat}
    (hd : ∀ x, x / 512 = table → d x = tableBytes all (x % 512)) {j : Nat} (hj : j < 128) :
    indirectBlocks (sectors d table 1) j = all (12 + j) % 2 ^ 32 := by
  refine le32_byteOf (fun b hb => ?_)
  show (if 4 * j + b < 1 * 512 then d (table * 512 + (4 * j + b)) else 0) = _
  rw [if_pos (by omega), hd _ (by omega), tableBytes]
  congr 2
  · omega
  · omega

/-- The steps of situation 2: in `s₂` the table is in its slot, in `s₃` the
    blocks after `first` are handed out, and in `s'` the table is written. -/
structure NewTable (a first last table : Nat) (s s₂ s₃ s' : Fs) (all : Nat → Nat) : Prop where
  vol : Volume s.part
  recorded : Recorded a first s
  first_lt : first < 12
  le_last : 12 ≤ last
  last_lt : last < 140
  allocs : Allocs (BitmapSector s.part.sb) a s s₂
  count : freeCount s₂.part.blockBitmap + 1 = freeCount s.part.blockBitmap
  slots : ∀ k, (s₂.inode a).iSectors k = if k = 12 then table else (s.inode a).iSectors k
  fresh : FreshBlock s.part s₂.part table
  grown : Grown a s₂ s₃ (first + 1) (last - first)
    (Function.update (fun _ => 0) first ((s.inode a).iSectors first)) all
  rest : s' = { s₃ with disk := s'.disk }
  disk : ∀ x, s'.disk x = if x / 512 = table then tableBytes all (x % 512) else s₃.disk x

namespace NewTable

variable {s₂ s₃ s' : Fs} {all : Nat → Nat} {table : Nat}

theorem part_eq (h : NewTable a first last table s s₂ s₃ s' all) : s'.part = s₃.part := by
  rw [h.rest]

theorem inode_eq (h : NewTable a first last table s s₂ s₃ s' all) : s'.inode = s₃.inode := by
  rw [h.rest]

theorem grown_allocs (h : NewTable a first last table s s₂ s₃ s' all) :
    Allocs (BitmapSector s.part.sb) a s₂ s₃ := by
  have hallocs := h.grown.allocs
  rw [h.allocs.sb] at hallocs
  exact hallocs

/-- The blocks handed out in the loop. -/
theorem fresh_loop (h : NewTable a first last table s s₂ s₃ s' all) {k : Nat} (hk : first < k)
    (hk' : k ≤ last) : FreshBlock s₂.part s₃.part (all k) :=
  h.grown.fresh k (by omega) (by omega)

theorem fresh_block (h : NewTable a first last table s s₂ s₃ s' all) {k : Nat} (hk : first < k)
    (hk' : k ≤ last) : FreshBlock s.part s'.part (all k) := by
  rw [h.part_eq]
  exact h.allocs.fresh_right (h.fresh_loop hk hk')

theorem fresh_table (h : NewTable a first last table s s₂ s₃ s' all) :
    FreshBlock s.part s'.part table := by
  rw [h.part_eq]
  exact h.grown_allocs.fresh_left h.fresh

theorem all_first (h : NewTable a first last table s s₂ s₃ s' all) :
    all first = fileBlocks s.disk (s.inode a) first := by
  rw [h.grown.same first (by omega), Function.update_self, fileBlocks_direct h.first_lt]

theorem all_rest (h : NewTable a first last table s s₂ s₃ s' all) {k : Nat} (hk : k ≠ first)
    (hk' : ¬ (first < k ∧ k ≤ last)) : all k = 0 := by
  rw [h.grown.same k (by omega), Function.update_of_ne hk]

theorem all_le (h : NewTable a first last table s s₂ s₃ s' all) (k : Nat) : all k ≤ maxLba := by
  by_cases hk : k = first
  · rw [hk, h.all_first]
    exact h.recorded.block_le (Or.inl h.first_lt)
  · by_cases hk' : first < k ∧ k ≤ last
    · exact (h.fresh_loop hk'.1 hk'.2).1
    · rw [h.all_rest hk hk']
      exact Nat.zero_le _

theorem slot_table (h : NewTable a first last table s s₂ s₃ s' all) :
    (s'.inode a).iSectors 12 = table := by
  rw [h.inode_eq, h.grown.slots 12, if_neg (by omega), h.slots 12, if_pos rfl]

/-- The old blocks are where they were. -/
theorem old (h : NewTable a first last table s s₂ s₃ s' all) {k : Nat} (hk : k ≤ first) :
    fileBlocks s'.disk (s'.inode a) k = fileBlocks s.disk (s.inode a) k := by
  have hlt := h.first_lt
  rw [fileBlocks_direct (by omega), fileBlocks_direct (by omega), h.inode_eq, h.grown.slots k,
    if_neg (by omega), h.slots k, if_neg (by omega)]

/-- The others are in `all_blocks`. -/
theorem new (h : NewTable a first last table s s₂ s₃ s' all) {k : Nat} (hk : first < k)
    (hk' : k < 140) : fileBlocks s'.disk (s'.inode a) k = all k := by
  have hle := h.le_last
  by_cases hk12 : k < 12
  · rw [fileBlocks_direct hk12, h.inode_eq, h.grown.slots k, if_pos (by omega)]
  · have hsector : ∀ x, x / 512 = table → s'.disk x = tableBytes all (x % 512) := by
      intro x hx
      rw [h.disk x, if_pos hx]
    have hidx := indirectBlocks_tableBytes hsector (show k - 12 < 128 by omega)
    have hword := h.all_le k
    have hmax : maxLba = 163839 := rfl
    rw [fileBlocks_indirect hk12, h.slot_table, hidx, show 12 + (k - 12) = k by omega,
      Nat.mod_eq_of_lt (by omega)]

/-- The old blocks, the new ones and the table are all different. -/
theorem laid (h : NewTable a first last table s s₂ s₃ s' all) :
    Laid s'.disk (s'.inode a) last := by
  have hlt := h.last_lt
  have hfirst := h.first_lt
  have hlast := h.le_last
  have hpos := h.vol.data_pos
  have htaken : TakenBlock s₂.part table := h.allocs.fresh_taken h.fresh
  -- an old block is taken when a new one is handed out
  have hcross : ∀ j k, j ≤ first → first < k → k ≤ last →
      fileBlocks s'.disk (s'.inode a) j ≠ fileBlocks s'.disk (s'.inode a) k := by
    intro j k hj hk hk'
    rw [h.old hj, h.new hk (by omega)]
    exact (fresh_ne_taken (h.fresh_block hk hk') (h.recorded.block_taken hj)).symm
  refine ⟨hlt, fun k hk => ?_, fun j k hj hk heq => ?_, ?_, fun _ k hk => ?_, fun k hk _ hk' => ?_⟩
  · by_cases hkf : k ≤ first
    · rw [h.old hkf]
      exact h.recorded.laid.recorded k hkf
    · rw [h.new (by omega) (by omega)]
      have hdata := (h.fresh_block (show first < k by omega) hk).data
      omega
  · by_cases hjf : j ≤ first
    · by_cases hkf : k ≤ first
      · rw [h.old hjf, h.old hkf] at heq
        exact h.recorded.laid.distinct j k hjf hkf heq
      · exact absurd heq (hcross j k hjf (by omega) hk)
    · by_cases hkf : k ≤ first
      · exact absurd heq.symm (hcross k j hkf (by omega) hj)
      · rw [h.new (by omega) (by omega), h.new (by omega) (by omega)] at heq
        exact h.grown.distinct j k (by omega) (by omega) (by omega) (by omega) heq
  · have hdata := h.fresh.data
    rw [h.slot_table]
    omega
  · rw [h.slot_table]
    by_cases hkf : k ≤ first
    · rw [h.old hkf]
      exact (fresh_ne_taken h.fresh (h.recorded.block_taken hkf)).symm
    · rw [h.new (by omega) (by omega)]
      exact fresh_ne_taken (h.fresh_loop (by omega) hk) htaken
  · rw [h.new (by omega) hk']
    exact h.all_rest (by omega) (by omega)

theorem own (h : NewTable a first last table s s₂ s₃ s' all) {n : Nat}
    (hn : OwnSector s'.disk (s'.inode a) n) :
    OwnSector s.disk (s.inode a) n ∨ FreshBlock s.part s'.part n := by
  have hlt := h.last_lt
  rcases h.laid.own hn with ⟨-, htab⟩ | ⟨k, hk, hnk⟩
  · rw [htab, h.slot_table]
    exact Or.inr h.fresh_table
  · by_cases hkf : k ≤ first
    · rw [hnk, h.old hkf]
      exact Or.inl (h.recorded.laid.own_block hkf)
    · rw [hnk, h.new (by omega) (by omega)]
      exact Or.inr (h.fresh_block (by omega) hk)

theorem all_allocs (h : NewTable a first last table s s₂ s₃ s' all) :
    Allocs (fun n => BitmapSector s.part.sb n ∨
      OwnSector s'.disk (s'.inode a) n ∧ FreshBlock s.part s'.part n) a s s' := by
  have hloop : Allocs (fun n => BitmapSector s.part.sb n ∨
      OwnSector s'.disk (s'.inode a) n ∧ FreshBlock s.part s'.part n) a s s₃ :=
    (h.allocs.trans h.grown_allocs).mono (fun _ hn => Or.inl hn)
  refine hloop.trans ⟨h.rest.trans ?_, ?_, ?_, ?_, fun k hk => ?_, fun x hx => ?_⟩
  · rw [h.part_eq, h.inode_eq]
  · rw [h.part_eq]
  · rw [h.inode_eq, Function.update_eq_self]
  · rw [h.part_eq]
  · rw [h.part_eq]
    exact hk
  · rw [h.disk x] at hx
    by_cases hx' : x / 512 = table
    · rw [hx']
      refine Or.inr ⟨?_, h.fresh_table⟩
      rw [← h.slot_table]
      exact h.laid.own_table h.le_last
    · rw [if_neg hx'] at hx
      exact absurd rfl hx

/-- The blocks of a file that has got a table. -/
theorem collected (h : NewTable a first last table s s₂ s₃ s' all) :
    Collected a first last s s' all := by
  have hlt := h.last_lt
  refine ⟨h.all_allocs, ?_, ⟨h.laid, fun n hn => ?_⟩, fun k hk => h.old hk, fun n hn => h.own hn,
    fun k hk hk' => ?_, h.all_le⟩
  · have hcount := h.count
    have hgrown := h.grown.count
    rw [h.part_eq, if_pos ⟨h.first_lt, h.le_last⟩]
    omega
  · rcases h.own hn with hn' | hn'
    · exact h.all_allocs.taken (h.recorded.taken n hn')
    · exact h.all_allocs.fresh_taken hn'
  · by_cases hkf : k = first
    · rw [hkf, h.all_first, h.old (Nat.le_refl _)]
    · rw [h.new (by omega) (by omega)]

end NewTable

/-- Situation 2: the blocks of a write that adds the table. -/
theorem run_collectTable (hat : FileAt t g a s) (hv : Volume s.part) (h : Recorded a first s)
    (hfirst : first < 12) (hlast : 12 ≤ last) (hlt : last < 140)
    (hfree : last - first < freeCount s.part.blockBitmap) :
    ∃ all s', (collectTable t g a (s.inode a) (first + 1) (last + 1)).run s = .ok (some all, s') ∧
      Collected a first last s s' all := by
  rcases run_blockBitmapAlloc a hv (by omega)
    with ⟨table, s₁, halloc, h₁, hinode, -, hfresh, -, hcount⟩
  -- The table is taken first, so the blocks come from what is left.
  rcases run_setSector (BitmapSector s.part.sb) s₁ a 12 table
    with ⟨s₂, hrunset, hset, hpart, hself⟩
  rw [hinode] at hself
  have h₂ := h₁.trans hset
  have hzero : (s.inode a).iSectors 12 = 0 := by
    by_contra hne
    have := h.laid.table.mp hne
    omega
  rcases run_growBlocks (a := a) (last - first) s₂ (first + 1)
    (Function.update (fun _ => 0) first ((s.inode a).iSectors first)) (h₂.fileAt hat)
    (h₂.volume hv) (by rw [hpart]; omega) (fun k hk hk' => by
      rw [hself k, if_neg (by omega)]
      exact h.slot_zero (by omega) hk') with ⟨all, s₃, hgrow, hgrown⟩
  -- The table is written twice, with the same bytes.
  let s' := (s₃.setDisk (table * sectorSize) (1 * sectorSize) (tableBytes all)).setDisk
    (table * sectorSize) (1 * sectorSize) (tableBytes all)
  have hnew : NewTable a first last table s s₂ s₃ s' all :=
    ⟨hv, h, hfirst, hlast, hlt, h₂, by rw [hpart]; exact hcount, hself, hset.fresh_left hfresh,
      hgrown, rfl, fun x => by
        rw [setDisk_sector, setDisk_sector]
        by_cases hx : x / 512 = table
        · rw [if_pos hx, if_pos hx]
        · rw [if_neg hx, if_neg hx]⟩
  refine ⟨all, s', ?_, hnew.collected⟩
  rw [collectTable, run_bind_of halloc]
  show (assert ((s.inode a).iSectors 12 = 0) .fileWrite >>= _).run s₁ = _
  rw [run_bind_of (run_assert hzero s₁), run_bind_of hrunset,
    show last + 1 - (first + 1) = last - first by omega, Nat.add_sub_cancel, run_bind_of hgrow]
  show (ideWrite table 1 (tableBytes all) >>= _).run s₃ = _
  rw [run_bind_of (run_ideWrite hfresh.1 (by omega) _ s₃),
    run_bind_of (run_ideWrite hfresh.1 (by omega) _ _), run_pure]

/-- Situation 2 without enough blocks. -/
theorem stops_collectTable (hat : FileAt t g a s) (hv : Volume s.part) (h : Recorded a first s)
    (hfirst : first < 12) (hlast : 12 ≤ last)
    (hfree : freeCount s.part.blockBitmap ≤ last - first) :
    ∃ s', Stops (collectTable t g a (s.inode a) (first + 1) (last + 1)) s
      (.assertion .bitmapScan) s' ∧ Allocs (BitmapSector s.part.sb) a s s' := by
  by_cases hnone : freeCount s.part.blockBitmap = 0
  · exact ⟨s, stops_bind (stops_blockBitmapAlloc hnone), Allocs.refl _ a s⟩
  rcases run_blockBitmapAlloc a hv (by omega)
    with ⟨table, s₁, halloc, h₁, hinode, -, hfresh, -, hcount⟩
  rcases run_setSector (BitmapSector s.part.sb) s₁ a 12 table
    with ⟨s₂, hrunset, hset, hpart, hself⟩
  rw [hinode] at hself
  have h₂ := h₁.trans hset
  have hzero : (s.inode a).iSectors 12 = 0 := by
    by_contra hne
    have := h.laid.table.mp hne
    omega
  rcases stops_growBlocks (a := a) (last - first) s₂ (first + 1)
    (Function.update (fun _ => 0) first ((s.inode a).iSectors first)) (h₂.fileAt hat)
    (h₂.volume hv) (by rw [hpart]; omega) (fun k hk hk' => by
      rw [hself k, if_neg (by omega)]
      exact h.slot_zero (by omega) hk') with ⟨s', hstop, h'⟩
  rw [h₂.sb] at h'
  refine ⟨s', stops_bind_of halloc (stops_bind_of (run_assert hzero s₁)
    (stops_bind_of hrunset (stops_bind ?_))), h₂.trans h'⟩
  rw [show last + 1 - (first + 1) = last - first by omega, Nat.add_sub_cancel]
  exact hstop

end Table

section Direct

variable {t g a first last table : Nat} {s : Fs}

/-- Situation 1: the blocks go to the inode, and then a sector is written
    whose address nobody has set. -/
theorem run_collectDirect (last : Nat) (hat : FileAt t g a s) (hv : Volume s.part)
    (hslot : TakenBlock s.part ((s.inode a).iSectors first)) (hfirst : first ≤ 12)
    (hzero : ∀ k, first < k → k < 12 → (s.inode a).iSectors k = 0)
    (hfree : last - first ≤ freeCount s.part.blockBitmap) (htable : table ≤ maxLba) :
    ∃ all s₁, (collectDirect t g (s.inode a) (first + 1) (last + 1) table).run s =
        .ok (some all, s₁.setDisk (table * sectorSize) (1 * sectorSize) (tableBytes all)) ∧
      Allocs (BitmapSector s.part.sb) a s s₁ ∧ (∀ k, all k ≤ maxLba) ∧
      (∀ k, first ≤ k → k ≤ last → TakenBlock s₁.part (all k)) ∧
      ∀ k, last < k → k ≠ first → all k = 0 := by
  have hpos := hv.data_pos
  have hdata := hslot.data
  rcases run_growBlocks (a := a) (last - first) s (first + 1)
    (Function.update (fun _ => 0) first ((s.inode a).iSectors first)) hat hv hfree
    (fun k hk hk' => hzero k (by omega) hk') with ⟨all, s₁, hgrow, hgrown⟩
  -- The first address is the one the file had, and those behind it are new.
  have hhead : all first = (s.inode a).iSectors first := by
    rw [hgrown.same first (by omega), Function.update_self]
  have hrest : ∀ k, k ≠ first → ¬ (first < k ∧ k ≤ last) → all k = 0 := by
    intro k hk hk'
    rw [hgrown.same k (by omega), Function.update_of_ne hk]
  refine ⟨all, s₁, ?_, hgrown.allocs, fun k => ?_, fun k hk hk' => ?_,
    fun k hk hk' => hrest k hk' (by omega)⟩
  · rw [collectDirect, run_bind_of (run_check_pos (by omega) s), Nat.add_sub_cancel,
      run_bind_of (run_assert (by omega) s), show last + 1 - (first + 1) = last - first by omega,
      run_bind_of hgrow]
    show (ideWrite table 1 (tableBytes all) >>= _).run s₁ = _
    rw [run_bind_of (run_ideWrite htable (by omega) _ s₁), run_pure]
  · by_cases hk : k = first
    · rw [hk, hhead]
      exact hslot.1
    · by_cases hk' : first < k ∧ k ≤ last
      · exact (hgrown.fresh k (by omega) (by omega)).1
      · rw [hrest k hk hk']
        exact Nat.zero_le _
  · by_cases hkf : k = first
    · rw [hkf, hhead]
      exact hgrown.allocs.taken hslot
    · exact hgrown.allocs.fresh_taken (hgrown.fresh k (by omega) (by omega))

/-- Situation 1 without enough blocks, or with an address that is no sector's. -/
theorem stops_collectDirect (hat : FileAt t g a s) (hv : Volume s.part)
    (hslot : TakenBlock s.part ((s.inode a).iSectors first)) (hfirst : first ≤ 12)
    (hzero : ∀ k, first < k → k < 12 → (s.inode a).iSectors k = 0)
    (hbad : freeCount s.part.blockBitmap < last - first ∨ maxLba < table) :
    ∃ f s', f ≠ .fileWrite ∧ Stops (collectDirect t g (s.inode a) (first + 1) (last + 1) table) s
      (.assertion f) s' ∧ Allocs (BitmapSector s.part.sb) a s s' := by
  have hpos := hv.data_pos
  have hdata := hslot.data
  have hslots : ∀ k, first + 1 ≤ k → k < 12 → (s.inode a).iSectors k = 0 :=
    fun k hk hk' => hzero k (by omega) hk'
  unfold collectDirect
  rw [Nat.add_sub_cancel, show last + 1 - (first + 1) = last - first by omega]
  by_cases hfree : freeCount s.part.blockBitmap < last - first
  · rcases stops_growBlocks (a := a) (last - first) s (first + 1)
      (Function.update (fun _ => 0) first ((s.inode a).iSectors first)) hat hv hfree hslots
      with ⟨s', hstop, h'⟩
    exact ⟨.bitmapScan, s', by decide, stops_bind_of (run_check_pos (by omega) s)
      (stops_bind_of (run_assert (by omega) s) (stops_bind hstop)), h'⟩
  · rcases run_growBlocks (a := a) (last - first) s (first + 1)
      (Function.update (fun _ => 0) first ((s.inode a).iSectors first)) hat hv (by omega) hslots
      with ⟨all, s₁, hgrow, hgrown⟩
    refine ⟨.ideWrite, s₁, by decide, stops_bind_of (run_check_pos (by omega) s)
      (stops_bind_of (run_assert (by omega) s) (stops_bind_of hgrow
        (stops_bind (stops_bind (stops_check (fun h => ?_) s₁))))), hgrown.allocs⟩
    have hle := h.1
    omega

end Direct

section Indirect

variable {a last will lba : Nat} {s : Fs}

/-- Situation 3 once the table has been read. -/
theorem leads_collectIndirect (h : Recorded a last s) (hlast : 12 ≤ last) (has will lba : Nat) :
    ∃ b, Leads (collectIndirect (s.inode a) has will lba) s (moreBlocks has will lba >>= fun r =>
      match r with
      | none => pure none
      | some lba => do
          Prog.check (has < 140) .wild
          let all := Function.update
            (fun k => if k < 12 then 0 else indirectBlocks b (k - 12)) has lba
          let idx ← blockBitmapIdx lba
          bitmapSync idx .block
          ideWrite ((s.inode a).iSectors 12) 1 (tableBytes all)
          pure (some all)) s := by
  have hle := (h.taken _ (h.laid.own_table hlast)).1
  exact ⟨_, (leads_bind (run_assert (h.laid.table.mpr hlast) s)).trans
    (leads_bind (run_ideRead hle (by omega) s))⟩

/-- Situation 3 takes every block there is, and panics. -/
theorem stops_collectIndirect (lba : Nat) (hv : Volume s.part) (h : Recorded a last s)
    (hlast : 12 ≤ last) (hwill : last + 1 < will) :
    ∃ s', Stops (collectIndirect (s.inode a) (last + 1) will lba) s (.assertion .bitmapScan) s' ∧
      Allocs (fun _ => False) a s s' ∧ s'.inode = s.inode := by
  rcases leads_collectIndirect h hlast (last + 1) will lba with ⟨b, hlead⟩
  have hfree : freeCount s.part.blockBitmap < s.part.blockBitmap.btmpBytesLen * 8 + 1 :=
    Nat.lt_succ_of_le ((Finset.card_filter_le _ _).trans (Finset.card_range _).le)
  rcases stops_allocAll a _ s hv hfree with ⟨s', hstop, h', hinode⟩
  refine ⟨s', hlead.stops (stops_bind ?_), h', hinode⟩
  rw [moreBlocks, if_pos hwill]
  exact stops_bind_of (run_read _ s) hstop

end Indirect

end ForikOS
