import ForikOS.Core.NoAssert
import ForikOS.Theory.FileWrite
import ForikOS.Theory.FsCalls

/-!
# Out of Space

What the three calls that allocate leave behind when they return `-1` because
there is no block or no inode.

Each of them undoes less than it has done. `file_write` undoes nothing: the
blocks it got before the last one stay in the bitmap and in the inode, so
nothing has changed only if there was no block to begin with. `sys_mkdir` gives
the number of the inode back but not the block of the new directory. Only in
`file_create` and `sync_dir_entry` everything that was allocated is released;
but the slot of `file_table` is cleared rather than put back, and the table of
indirect blocks of the directory, which `sync_dir_entry` has not looked at, is
taken for the one it has just made.

A call that finds the bitmap full ends with the bitmap full. That is what the
first half of each equivalence rests on; for the other half the state is
followed from the call to its end.

## Main definitions

* `AsBefore`: Nothing has changed that the calls are about.
* `BlankSlot`: The slot `file_create` takes is cleared already.

## Theorems

* `fileWrite_asBefore`, `fileCreate_asBefore`, `sysMkdir_asBefore`: When
  nothing has changed.
* `out_of_space_atomic`: The three together.
-/

namespace ForikOS

open Prog

/-- A block whose bit is clear. -/
def UnusedBlock (p : Partition) (n : Nat) : Prop :=
  ∃ k, k < p.blockBitmap.btmpBytesLen * 8 ∧ bitmapScanTest p.blockBitmap k = false ∧
    n = p.sb.dataStartLba + k

/-- The bitmaps in memory, the sizes and the blocks of the inodes in memory,
    the slots, and every block that is in use are as before. -/
structure AsBefore (s s' : Fs) : Prop where
  blockBitmap : s'.part.blockBitmap = s.part.blockBitmap
  inodeBitmap : s'.part.inodeBitmap = s.part.inodeBitmap
  inode : ∀ a, s.home a ≠ .freed → (s'.inode a).iSize = (s.inode a).iSize ∧
    ∀ k, k < 13 → (s'.inode a).iSectors k = (s.inode a).iSectors k
  fileTable : s'.fileTable = s.fileTable
  entries : ∀ x, s'.disk x ≠ s.disk x →
    BitmapSector s.part.sb (x / 512) ∨ UnusedBlock s.part (x / 512)

theorem Quiet.asBefore {s s' : Fs} (h : Quiet s s') : AsBefore s s' := by
  have hs : s' = { s with mallocs := s'.mallocs, junk := s'.junk } := h
  rw [hs]
  exact ⟨rfl, rfl, fun _ _ => ⟨rfl, fun _ _ => rfl⟩, rfl, fun _ hx => absurd rfl hx⟩

section Scan

variable {b : Bitmap} {k : Nat} {s : Fs}

theorem run_blockAlloc_full (h : Full s.part.blockBitmap) :
    NoAssert.blockBitmapAlloc.run s = .ok (none, s) := by
  rw [NoAssert.blockBitmapAlloc, run_bind_of (run_read _ s), (full_iff _).mp h]
  rfl

theorem run_blockAlloc (h : ¬ Full s.part.blockBitmap) :
    ∃ k, k < s.part.blockBitmap.btmpBytesLen * 8 ∧ bitmapScanTest s.part.blockBitmap k = false ∧
      NoAssert.blockBitmapAlloc.run s = .ok (some (add32 s.part.sb.dataStartLba k),
        s.setBlockBitmap (bitmapSet s.part.blockBitmap k true)) := by
  rcases scanRest_cases s.part.blockBitmap with ⟨hfull, -⟩ | ⟨k, hk, hclear, hsome⟩
  · exact absurd hfull h
  · refine ⟨k, hk, hclear, ?_⟩
    rw [NoAssert.blockBitmapAlloc, run_bind_of (run_read _ s), hsome]
    rfl

theorem run_inodeAlloc_full (h : Full s.part.inodeBitmap) :
    NoAssert.inodeBitmapAlloc.run s = .ok (none, s) := by
  rw [NoAssert.inodeBitmapAlloc, run_bind_of (run_read _ s), (full_iff _).mp h]
  rfl

theorem run_inodeAlloc (h : ¬ Full s.part.inodeBitmap) :
    ∃ k, k < s.part.inodeBitmap.btmpBytesLen * 8 ∧ bitmapScanTest s.part.inodeBitmap k = false ∧
      NoAssert.inodeBitmapAlloc.run s =
        .ok (some k, s.setInodeBitmap (bitmapSet s.part.inodeBitmap k true)) := by
  rcases scanRest_cases s.part.inodeBitmap with ⟨hfull, -⟩ | ⟨k, hk, hclear, hsome⟩
  · exact absurd hfull h
  · refine ⟨k, hk, hclear, ?_⟩
    rw [NoAssert.inodeBitmapAlloc, run_bind_of (run_read _ s), hsome]
    rfl

end Scan

section Write

variable {t g : Nat} {s₀ s s' : Fs}

/-- A result `none` comes with a full bitmap. -/
def EndsFull {α : Type} (x : FsM (Option α)) : Prop :=
  Triple (fun _ => True) x (fun r s => r = none → Full s.part.blockBitmap)

theorem triple_true {α : Type} (x : FsM α) : Triple (fun _ => True) x (fun _ _ => True) :=
  fun _ _ _ _ _ => trivial

theorem endsFull_bind {α β : Type} {x : FsM α} {f : α → FsM (Option β)}
    (h : ∀ a, EndsFull (f a)) : EndsFull (x >>= f) :=
  triple_bind (triple_true x) h

theorem endsFull_some {α : Type} (a : α) : EndsFull (pure (some a) : FsM (Option α)) :=
  triple_pure (fun _ _ h => nomatch h)

theorem endsFull_ite {α : Type} {c : Prop} [Decidable c] {x y : FsM (Option α)} (hx : EndsFull x)
    (hy : EndsFull y) : EndsFull (if c then x else y) :=
  triple_ite (fun _ => hx) (fun _ => hy)

/-- What passes a result `none` on. -/
theorem endsFull_match {α β : Type} {x : FsM (Option α)} {f : Option α → FsM (Option β)}
    (hx : EndsFull x) (hnone : f none = pure none) (hsome : ∀ a, EndsFull (f (some a))) :
    EndsFull (x >>= f) := by
  refine triple_bind hx (fun r => ?_)
  cases r with
  | none =>
      rw [hnone]
      exact triple_pure (fun _ h _ => h rfl)
  | some a => exact triple_conseq (hsome a) (fun _ _ => trivial) (fun _ _ h => h)

theorem endsFull_blockAlloc : EndsFull NoAssert.blockBitmapAlloc := by
  intro s r s' _ hrun hr
  by_cases hfull : Full s.part.blockBitmap
  · rw [run_blockAlloc_full hfull] at hrun
    cases hrun
    exact hfull
  · rcases run_blockAlloc hfull with ⟨k, -, -, hrun'⟩
    rw [hrun', hr] at hrun
    cases hrun

theorem endsFull_writeFirstBlock : EndsFull (NoAssert.writeFirstBlock t g) := by
  refine endsFull_bind (fun r => endsFull_ite ?_ (endsFull_some _))
  exact endsFull_match endsFull_blockAlloc rfl (fun lba =>
    endsFull_bind (fun _ => endsFull_bind (fun _ => endsFull_some _)))

theorem endsFull_growBlocks (n blockIdx : Nat) (all : Nat → Nat) :
    EndsFull (NoAssert.growBlocks t g n blockIdx all) := by
  induction n generalizing blockIdx all with
  | zero => exact endsFull_some all
  | succ n ih =>
      refine endsFull_match endsFull_blockAlloc rfl (fun lba => endsFull_bind (fun _ => ?_))
      exact endsFull_ite
        (endsFull_bind (fun _ => endsFull_bind (fun _ => endsFull_bind (fun _ => ih _ _))))
        (endsFull_bind (fun _ => ih _ _))

theorem endsFull_allocAll (n : Nat) : EndsFull (NoAssert.allocAll n) := by
  induction n with
  | zero => exact triple_fail
  | succ n ih => exact endsFull_match endsFull_blockAlloc rfl (fun _ => ih)

theorem endsFull_collectBlocks (count table lba : Nat) :
    EndsFull (NoAssert.collectBlocks t g count table lba) := by
  refine endsFull_bind (fun r => endsFull_ite ?_ (endsFull_ite ?_ (endsFull_ite ?_ ?_)))
  · exact endsFull_ite (endsFull_some _) (endsFull_bind (fun _ => endsFull_some _))
  · exact endsFull_bind (fun _ => endsFull_match (endsFull_growBlocks _ _ _) rfl
      (fun _ => endsFull_bind (fun _ => endsFull_some _)))
  · refine endsFull_match endsFull_blockAlloc rfl (fun _ => endsFull_bind (fun _ => ?_))
    exact endsFull_match (endsFull_growBlocks _ _ _) rfl
      (fun _ => endsFull_bind (fun _ => endsFull_bind (fun _ => endsFull_some _)))
  · refine endsFull_bind (fun _ => endsFull_match ?_ rfl (fun _ => endsFull_bind (fun _ =>
      endsFull_bind (fun _ => endsFull_bind (fun _ => endsFull_some _)))))
    exact endsFull_ite (endsFull_bind (fun _ => endsFull_allocAll _)) (endsFull_some _)

theorem endsFull_fileWrite (src : Nat → Byte) (count : Nat) :
    EndsFull (NoAssert.fileWrite t g src count) := by
  refine endsFull_bind (fun r => endsFull_ite (endsFull_some _) (endsFull_bind (fun _ =>
    endsFull_ite ?_ (endsFull_some _))))
  refine endsFull_bind (fun _ => endsFull_match endsFull_writeFirstBlock rfl (fun lba => ?_))
  exact endsFull_match (endsFull_collectBlocks _ _ _) rfl
    (fun _ => endsFull_bind (fun _ => endsFull_some _))

/-- The other way round: from a full bitmap a result `none` comes before
    anything has changed. -/
def StaysQuiet {α : Type} (s₀ : Fs) (x : FsM (Option α)) : Prop :=
  Triple (Quiet s₀) x (fun r s => r = none → Quiet s₀ s)

theorem triple_quiet {α : Type} {x : FsM α} (h : Within Quiet x) :
    Triple (Quiet s₀) x (fun _ => Quiet s₀) :=
  fun s a s' hs hrun => IsTrans.trans s₀ s s' hs (h s a s' hrun)

theorem staysQuiet_bind {α β : Type} {x : FsM α} {f : α → FsM (Option β)} (hx : Within Quiet x)
    (hf : ∀ a, StaysQuiet s₀ (f a)) : StaysQuiet s₀ (x >>= f) :=
  triple_bind (triple_quiet hx) hf

/-- What ends with `some`, whatever it does. -/
theorem staysQuiet_some {α : Type} {x : FsM (Option α)}
    (h : Triple (fun _ => True) x (fun r _ => r ≠ none)) : StaysQuiet s₀ x :=
  fun s r s' _ hrun hr => absurd hr (h s r s' trivial hrun)

theorem staysQuiet_pure {α : Type} (r : Option α) :
    StaysQuiet s₀ (pure r : FsM (Option α)) :=
  triple_pure (fun _ h _ => h)

theorem staysQuiet_ite {α : Type} {c : Prop} [Decidable c] {x y : FsM (Option α)}
    (hx : StaysQuiet s₀ x) (hy : StaysQuiet s₀ y) : StaysQuiet s₀ (if c then x else y) :=
  triple_ite (fun _ => hx) (fun _ => hy)

/-- There is no block for what needs one. -/
theorem quiet_blockAlloc {α : Type} {f : Option Nat → FsM (Option α)}
    (hfull : Full s₀.part.blockBitmap) (hnone : f none = pure none) :
    Triple (Quiet s₀) (NoAssert.blockBitmapAlloc >>= f) (fun _ => Quiet s₀) := by
  intro s r s' hs hrun
  have hs' : s = { s₀ with mallocs := s.mallocs, junk := s.junk } := hs
  have hfull' : Full s.part.blockBitmap := by
    rw [hs']
    exact hfull
  rw [run_bind_of (run_blockAlloc_full hfull'), hnone] at hrun
  cases hrun
  exact hs

/-- What has only looked is followed by what stays quiet. -/
theorem staysQuiet_match {α β : Type} {x : FsM (Option α)} {f : Option α → FsM (Option β)}
    (hx : Triple (Quiet s₀) x (fun _ => Quiet s₀)) (hnone : f none = pure none)
    (hsome : ∀ a, StaysQuiet s₀ (f (some a))) : StaysQuiet s₀ (x >>= f) := by
  refine triple_bind hx (fun r => ?_)
  cases r with
  | none =>
      rw [hnone]
      exact staysQuiet_pure none
  | some a => exact hsome a

theorem ends_some {α β : Type} (x : FsM α) (f : α → β) :
    Triple (fun _ => True) (x >>= fun a => pure (some (f a))) (fun r _ => r ≠ none) :=
  triple_bind (triple_true x) (fun _ => triple_pure (fun _ _ => Option.some_ne_none _))

theorem triple_true_bind {α β : Type} {x : FsM α} {f : α → FsM (Option β)}
    (h : ∀ a, Triple (fun _ => True) (f a) (fun r _ => r ≠ none)) :
    Triple (fun _ => True) (x >>= f) (fun r _ => r ≠ none) :=
  triple_bind (triple_true x) h

theorem quiet_writeFirstBlock (hfull : Full s₀.part.blockBitmap) :
    Triple (Quiet s₀) (NoAssert.writeFirstBlock t g) (fun _ => Quiet s₀) := by
  refine triple_bind (triple_quiet (quiet_fileInode t g)) (fun r => ?_)
  exact triple_ite (fun _ => quiet_blockAlloc hfull rfl) (fun _ => triple_pure (fun _ h => h))

theorem quiet_growBlocks (hfull : Full s₀.part.blockBitmap) (n blockIdx : Nat) (all : Nat → Nat) :
    Triple (Quiet s₀) (NoAssert.growBlocks t g n blockIdx all) (fun _ => Quiet s₀) := by
  cases n with
  | zero => exact triple_pure (fun _ h => h)
  | succ n => exact quiet_blockAlloc hfull rfl

theorem quiet_allocAll (hfull : Full s₀.part.blockBitmap) (n : Nat) :
    Triple (Quiet s₀) (NoAssert.allocAll n) (fun _ => Quiet s₀) := by
  cases n with
  | zero => exact triple_fail
  | succ n => exact quiet_blockAlloc hfull rfl

theorem staysQuiet_collectBlocks (hfull : Full s₀.part.blockBitmap) (count table lba : Nat) :
    StaysQuiet s₀ (NoAssert.collectBlocks t g count table lba) := by
  refine staysQuiet_bind (quiet_fileInode t g) (fun r => ?_)
  refine staysQuiet_ite ?_ (staysQuiet_ite ?_ (staysQuiet_ite ?_ ?_))
  · exact staysQuiet_ite (staysQuiet_pure _)
      (staysQuiet_bind (quiet_ideRead _ 1) (fun _ => staysQuiet_pure _))
  · refine staysQuiet_bind within_check (fun _ => ?_)
    exact staysQuiet_match (quiet_growBlocks hfull _ _ _) rfl
      (fun all => staysQuiet_some (ends_some _ (fun _ => all)))
  · exact triple_conseq (quiet_blockAlloc hfull rfl) (fun _ h => h) (fun _ _ h _ => h)
  · refine staysQuiet_bind (quiet_ideRead _ 1) (fun b => staysQuiet_match ?_ rfl (fun lba => ?_))
    · exact triple_ite (fun _ => triple_bind (triple_quiet within_read)
        (fun _ => quiet_allocAll hfull _)) (fun _ => triple_pure (fun _ h => h))
    · exact staysQuiet_some (triple_true_bind (fun _ => triple_true_bind
        (fun _ => ends_some _ (fun _ => _))))

theorem staysQuiet_fileWrite (hfull : Full s₀.part.blockBitmap) (src : Nat → Byte) (count : Nat) :
    StaysQuiet s₀ (NoAssert.fileWrite t g src count) := by
  refine staysQuiet_bind (quiet_fileInode t g) (fun r => staysQuiet_ite (staysQuiet_pure _) ?_)
  refine staysQuiet_bind quiet_mallocBuffers (fun ok => staysQuiet_ite ?_ (staysQuiet_pure _))
  refine staysQuiet_bind quiet_unset (fun table => ?_)
  refine staysQuiet_match (quiet_writeFirstBlock hfull) rfl (fun lba => ?_)
  refine triple_bind (staysQuiet_collectBlocks hfull count table lba) (fun r => ?_)
  cases r with
  | none => exact triple_pure (fun _ h _ => h rfl)
  | some all =>
      intro s r s' _ hrun hr
      exact absurd hr (ends_some _ (fun r => r) s r s' trivial hrun)

/-- `file_write` has changed nothing exactly if there was no block left when it
    was called. -/
theorem fileWrite_asBefore {src : Nat → Byte} {count : Nat}
    (h : (NoAssert.fileWrite t g src count).run s = .ok (none, s')) :
    AsBefore s s' ↔ Full s.part.blockBitmap := by
  constructor
  · intro hbefore
    have hfull := endsFull_fileWrite src count s none s' trivial h rfl
    rw [hbefore.blockBitmap] at hfull
    exact hfull
  · intro hfull
    exact Quiet.asBefore (staysQuiet_fileWrite hfull src count s none s' rfl h rfl)

end Write

section Entry

variable {t : Nat} {s s' : Fs}

/-- The table of a directory has been taken away, and sectors of the block
    bitmap have been written. -/
structure TableGone (a : Nat) (s s' : Fs) : Prop where
  rest : s' = { s with
    disk := s'.disk
    inode := Function.update s.inode a
      { s.inode a with iSectors := Function.update (s.inode a).iSectors 12 0 } }
  disk : ∀ x, s'.disk x ≠ s.disk x → BitmapSector s.part.sb (x / 512)

/-- A bit of the block bitmap is set in memory. -/
theorem allocs_setBit (s : Fs) (k : Nat) : Allocs (BitmapSector s.part.sb) 0 s
    (s.setBlockBitmap (bitmapSet s.part.blockBitmap k true)) := by
  refine ⟨rfl, rfl, (Function.update_eq_self 0 s.inode).symm, rfl, fun j hj => ?_,
    fun _ hx => absurd rfl hx⟩
  show bitmapScanTest (bitmapSet s.part.blockBitmap k true) j = true
  rw [bitmapScanTest_set, hj, ite_self]

/-- The bit of a new block goes to the block bitmap on the disk. -/
theorem run_syncNewBit (hv : Volume s.part) {k : Nat} (hk : k < s.part.blockBitmap.btmpBytesLen * 8)
    (hclear : bitmapScanTest s.part.blockBitmap k = false) {u : Unit}
    (h : (NoAssert.syncNewBit (add32 s.part.sb.dataStartLba k)).run
      (s.setBlockBitmap (bitmapSet s.part.blockBitmap k true)) = .ok (u, s')) :
    s' = { s.setBlockBitmap (bitmapSet s.part.blockBitmap k true) with disk := s'.disk } ∧
      ∀ x, s'.disk x ≠ s.disk x → BitmapSector s.part.sb (x / 512) := by
  have hmax : maxLba = 163839 := rfl
  have hle := hv.free k hk hclear
  have hlba : add32 s.part.sb.dataStartLba k = s.part.sb.dataStartLba + k := by
    rw [add32, Nat.mod_eq_of_lt (by omega)]
  have htaken : TakenBlock (s.setBlockBitmap (bitmapSet s.part.blockBitmap k true)).part
      (add32 s.part.sb.dataStartLba k) := by
    refine ⟨by omega, k, hk, ?_, hlba⟩
    show bitmapScanTest (bitmapSet s.part.blockBitmap k true) k = true
    rw [bitmapScanTest_set, if_pos rfl]
  rcases run_syncNew 0 ((allocs_setBit s k).volume hv) htaken with
    ⟨idx, s₂, hidx, hsync, h₂, -, hpart, hinode⟩
  rw [NoAssert.syncNewBit, run_bind_of hidx, hsync] at h
  cases h
  refine ⟨?_, h₂.disk⟩
  rw [h₂.rest, hpart, hinode]

theorem syncFirstEntry_true {a lba : Nat} {e : DirEntry} {r : Bool}
    (h : (syncFirstEntry a e lba).run s = .ok (r, s')) : r = true := by
  rcases run_bind_ok.mp h with ⟨_, s₁, _, h₁⟩
  rcases run_bind_ok.mp h₁ with ⟨_, s₂, _, h₂⟩
  exact (pure_ok h₂).1

/-- `sync_dir_entry` that has got a block for the table and none for the
    entry. -/
theorem syncNewTable_false (hv : Volume s.part) {a k : Nat} {e : DirEntry} {all : Nat → Nat}
    (hk : k < s.part.blockBitmap.btmpBytesLen * 8)
    (hclear : bitmapScanTest s.part.blockBitmap k = false) {s₁ : Fs}
    (hs₁ : s₁ = { s.setBlockBitmap (bitmapSet s.part.blockBitmap k true) with disk := s₁.disk })
    (hdisk : ∀ x, s₁.disk x ≠ s.disk x → BitmapSector s.part.sb (x / 512))
    (h : (NoAssert.syncNewTable t a e all (add32 s.part.sb.dataStartLba k)).run s₁ =
      .ok (false, s')) : TableGone a s s' := by
  have hmax : maxLba = 163839 := rfl
  have hle := hv.free k hk hclear
  have hidx : sub32 (add32 s.part.sb.dataStartLba k) s.part.sb.dataStartLba = k := by
    rw [sub32, add32]
    omega
  rcases run_setSector (fun _ => False) s₁ a 12 (add32 s.part.sb.dataStartLba k)
    with ⟨s₂, hset, h₂, hpart₂, hsec₂⟩
  rw [NoAssert.syncNewTable, run_bind_of hset] at h
  by_cases hfull : Full s₂.part.blockBitmap
  · rw [run_bind_of (run_blockAlloc_full hfull)] at h
    rcases run_bind_ok.mp h with ⟨i, s₃, hi, h₃⟩
    rcases inodeAt_run hi with ⟨-, rfl, rfl⟩
    rcases run_bind_ok.mp h₃ with ⟨idx, s₄, hread, h₄⟩
    rcases read_ok hread with ⟨hidx', rfl⟩
    have hpart₁ : s₁.part = (s.setBlockBitmap (bitmapSet s.part.blockBitmap k true)).part := by
      rw [hs₁]
    have hk' : idx = k := by
      rw [hidx', hsec₂, if_pos rfl, hpart₂, hpart₁]
      exact hidx
    rcases run_bind_ok.mp h₄ with ⟨_, s₅, hclr, h₅⟩
    have hs₅ := modify_ok hclr
    rcases run_setSector (fun _ => False) s₅ a 12 0 with ⟨s₆, hset₆, h₆, hpart₆, hsec₆⟩
    rw [run_bind_of hset₆] at h₅
    rcases pure_ok h₅ with ⟨-, rfl⟩
    -- the block goes back to the bitmap, and the entry in the inode is cleared
    have hpart : s'.part = s.part := by
      rw [hpart₆, hs₅]
      show { s₄.part with blockBitmap := bitmapSet s₄.part.blockBitmap idx false } = s.part
      rw [hk', hpart₂, hpart₁]
      show { s.part with
        blockBitmap := bitmapSet (bitmapSet s.part.blockBitmap k true) k false } = s.part
      rw [bitmapSet_undo hclear]
    have hinode₁ : s₁.inode = s.inode := by
      rw [hs₁]
      rfl
    have hinode₅ : s₅.inode = s₄.inode := by
      rw [hs₅]
      rfl
    have hsec : (s'.inode a).iSectors = Function.update (s.inode a).iSectors 12 0 := by
      funext j
      rw [hsec₆, hinode₅, hsec₂, hinode₁]
      by_cases hj : j = 12
      · rw [if_pos hj, hj, Function.update_self]
      · rw [if_neg hj, if_neg hj, Function.update_of_ne hj]
    have hinode : s'.inode = Function.update s.inode a
        { s.inode a with iSectors := Function.update (s.inode a).iSectors 12 0 } := by
      rw [h₆.inode, hinode₅, h₂.inode, hinode₁, Function.update_self, Function.update_idem, hsec]
    have hdisk' : s'.disk = s₁.disk := by
      funext x
      rw [h₆.disk_eq id, hs₅]
      exact h₂.disk_eq id
    refine ⟨?_, fun x hx => hdisk x (by rwa [hdisk'] at hx)⟩
    rw [← hinode, h₆.rest, hpart, hs₅, h₂.rest, hs₁]
    rfl
  · rcases run_blockAlloc hfull with ⟨j, -, -, hrun⟩
    rw [run_bind_of hrun] at h
    rcases run_bind_ok.mp h with ⟨_, s₄, _, h₄⟩
    rcases run_bind_ok.mp h₄ with ⟨_, s₅, _, h₅⟩
    rcases run_bind_ok.mp h₅ with ⟨_, s₆, _, h₆⟩
    cases syncFirstEntry_true h₆

/-- The loop of `sync_dir_entry`. It does not get past the direct blocks. -/
theorem syncBlocks_false (hv : Volume s.part) {a : Nat} {e : DirEntry} {all : Nat → Nat}
    (hall : ∀ k, 12 ≤ k → all k = 0) {n blockIdx : Nat} (hn : blockIdx + n = 140)
    (hidx : blockIdx ≤ 12)
    (h : (NoAssert.syncBlocks t a e all n blockIdx).run s = .ok (false, s')) :
    Full s.part.blockBitmap ∧ s' = s ∨ ¬ Full s.part.blockBitmap ∧ TableGone a s s' := by
  -- The induction is on the fuel. The round that fails is the one at block 12.
  induction n generalizing blockIdx with
  | zero => omega
  | succ n ih =>
      rw [NoAssert.syncBlocks] at h
      by_cases hzero : all blockIdx = 0
      · rw [if_pos hzero] at h
        by_cases hfull : Full s.part.blockBitmap
        · rw [NoAssert.syncNewBlock, run_bind_of (run_blockAlloc_full hfull)] at h
          exact Or.inl ⟨hfull, (pure_ok h).2⟩
        · rcases run_blockAlloc hfull with ⟨k, hk, hclear, hrun⟩
          rw [NoAssert.syncNewBlock, run_bind_of hrun] at h
          rcases run_bind_ok.mp h with ⟨_, s₁, hbit, h₁⟩
          rcases run_syncNewBit hv hk hclear hbit with ⟨hs₁, hdisk⟩
          by_cases hlt : blockIdx < 12
          · rw [if_pos hlt] at h₁
            rcases run_bind_ok.mp h₁ with ⟨_, s₂, _, h₂⟩
            cases syncFirstEntry_true h₂
          · rw [if_neg hlt, if_pos (by omega)] at h₁
            exact Or.inr ⟨hfull, syncNewTable_false hv hk hclear hs₁ hdisk h₁⟩
      · -- A block that is there is a direct one, as the others are zero in memory.
        have hlt : blockIdx < 12 := by
          by_contra hge
          exact hzero (hall blockIdx (by omega))
        rw [if_neg hzero] at h
        rcases run_bind_ok.mp h with ⟨buf, s₁, hread, h₁⟩
        rcases ideRead_run hread with ⟨-, -, rfl⟩
        cases hfree : findFree buf entriesPerSec 0 with
        | some j =>
            rw [hfree] at h₁
            rcases run_bind_ok.mp h₁ with ⟨_, s₂, _, h₂⟩
            rcases run_bind_ok.mp h₂ with ⟨_, s₃, _, h₃⟩
            cases (pure_ok h₃).1
        | none =>
            rw [hfree] at h₁
            exact ih (by omega) (by omega) h₁

/-- `sync_dir_entry` fails because there is no block, or because there is one
    where it needs two. -/
theorem syncDirEntry_false (hv : Volume s.part) {d : Dir} {e : DirEntry}
    (h : (NoAssert.syncDirEntry t d e).run s = .ok (false, s')) :
    s.Sees t d.inode ∧ (Full s.part.blockBitmap ∧ s' = s ∨
      ¬ Full s.part.blockBitmap ∧ TableGone d.inode s s') := by
  rcases run_bind_ok.mp h with ⟨i, s₁, hi, h₁⟩
  rcases inodeAt_run hi with ⟨hsees, rfl, rfl⟩
  rcases run_bind_ok.mp h₁ with ⟨size, s₂, hsize, h₂⟩
  have hs₂ : s₂ = s₁ := by
    rcases run_bind_ok.mp hsize with ⟨_, s₃, hread, h₃⟩
    rcases run_bind_ok.mp h₃ with ⟨_, s₄, hcheck, h₄⟩
    rw [(pure_ok h₄).2, (check_ok hcheck).2, (read_ok hread).2]
  rw [hs₂] at h₂
  refine ⟨hsees, syncBlocks_false hv (fun k hk => ?_) rfl (by omega) h₂⟩
  exact if_neg (by omega)

end Entry

section Create

variable {t : Nat} {s s' : Fs} {d : Dir} {filename : Str} {flag : Nat}

/-- What the rollback of `file_create` leaves of the disk and of the inodes
    in `L`: everything, or the table of the directory is gone. -/
def RolledBack (L : Nat → Prop) (a : Nat) (s s' : Fs) : Prop :=
  Full s.part.blockBitmap ∧ s'.disk = s.disk ∧ (∀ b, L b → s'.inode b = s.inode b) ∨
    ¬ Full s.part.blockBitmap ∧ (∀ x, s'.disk x ≠ s.disk x → BitmapSector s.part.sb (x / 512)) ∧
      ∀ b, L b → s'.inode b = Function.update s.inode a
        { s.inode a with iSectors := Function.update (s.inode a).iSectors 12 0 } b

/-- `file_create` rolled back from its last step. -/
theorem fileCreateEntry_none (hv : Volume s.part) {inodeNo a g : Nat}
    (h : (NoAssert.fileCreateEntry t d filename flag inodeNo a g).run s = .ok (none, s')) :
    s'.part = { s.part with inodeBitmap := bitmapSet s.part.inodeBitmap inodeNo false } ∧
      s'.fileTable = Function.update s.fileTable g ⟨0, 0, none⟩ ∧
      RolledBack (fun _ => True) d.inode s s' := by
  rcases run_bind_ok.mp h with ⟨_, s₁, hslot, h₁⟩
  have hs₁ := modify_ok hslot
  rcases run_bind_ok.mp h₁ with ⟨done, s₂, hsync, h₂⟩
  cases done with
  | true =>
      rw [if_pos rfl] at h₂
      rcases run_bind_ok.mp h₂ with ⟨r, s₃, _, h₃⟩
      cases (pure_ok h₃).1
  | false =>
      rw [if_neg Bool.false_ne_true] at h₂
      -- The three rollbacks: the slot, the memory of the inode, and its bit.
      have hend : s' = ((s₂.setFile g ⟨0, 0, none⟩).setHome a .freed).setInodeBitmap
          (bitmapSet s₂.part.inodeBitmap inodeNo false) := by
        rcases run_bind_ok.mp h₂ with ⟨_, s₃, h₃, k₃⟩
        rcases run_bind_ok.mp k₃ with ⟨_, s₄, h₄, k₄⟩
        rcases run_bind_ok.mp k₄ with ⟨_, s₅, h₅, k₅⟩
        rw [(pure_ok k₅).2, modify_ok h₅, modify_ok h₄, modify_ok h₃]
        rfl
      have hv₁ : Volume s₁.part := by
        rw [hs₁]
        exact hv
      -- The entry has failed with nothing done, or with a table taken and given back.
      rcases (syncDirEntry_false hv₁ hsync).2 with ⟨hfull, hs₂⟩ | ⟨hfull, hgone⟩
      · rw [hs₁] at hs₂ hfull
        rw [hend, hs₂]
        refine ⟨rfl, ?_, Or.inl ⟨hfull, rfl, fun _ _ => rfl⟩⟩
        exact Function.update_idem _ _ _
      · have hrest := hgone.rest
        have hdisk := hgone.disk
        rw [hs₁] at hrest hfull hdisk
        rw [hend, hrest]
        refine ⟨rfl, ?_, Or.inr ⟨hfull, hdisk, fun _ _ => rfl⟩⟩
        exact Function.update_idem _ _ _

/-- `file_create` rolled back, from the state in which it has the number. The
    new inode is nobody's, and the directory is somebody's. -/
theorem fileCreateInode_none (hv : Volume s.part) (hfresh : s.home s.nextInode = .freed)
    (hdir : s.home d.inode ≠ .freed) {inodeNo : Nat}
    (h : (NoAssert.fileCreateInode t d filename flag inodeNo).run s = .ok (none, s')) :
    ∃ g, freeSlotFrom s.fileTable (maxFileOpen - 3) 3 = some g ∧
      s'.part = { s.part with inodeBitmap := bitmapSet s.part.inodeBitmap inodeNo false } ∧
      s'.fileTable = Function.update s.fileTable g ⟨0, 0, none⟩ ∧
      RolledBack (fun b => s.home b ≠ .freed) d.inode s s' := by
  rcases run_bind_ok.mp h with ⟨ok, s₁, hok, h₁⟩
  have hq₁ : s₁ = { s with mallocs := s₁.mallocs, junk := s₁.junk } := quiet_malloc s ok s₁ hok
  cases ok with
  | false =>
      rw [if_neg Bool.false_ne_true] at h₁
      rcases run_bind_ok.mp h₁ with ⟨_, s₂, _, h₂⟩
      cases (pure_ok h₂).1
  | true =>
      rw [if_pos rfl] at h₁
      rcases run_bind_ok.mp h₁ with ⟨home, s₂, hhome, h₂⟩
      rcases read_ok hhome with ⟨-, rfl⟩
      rcases run_bind_ok.mp h₂ with ⟨a, s₃, hnew, h₃⟩
      rcases newInode_run hnew with ⟨ha, hs₃⟩
      rcases run_bind_ok.mp h₃ with ⟨_, s₄, hinit, h₄⟩
      have hs₄ := setInodeAt_run hinit
      rcases run_bind_ok.mp h₄ with ⟨slot, s₅, hslot, h₅⟩
      rcases read_ok hslot with ⟨hslot, rfl⟩
      have hnext : a = s.nextInode := by rw [ha, hq₁]
      cases slot with
      | none =>
          rcases run_bind_ok.mp h₅ with ⟨_, s₆, _, h₆⟩
          rcases run_bind_ok.mp h₆ with ⟨_, s₇, _, h₇⟩
          cases (pure_ok h₇).1
      | some g =>
          have hpart : s₅.part = s.part := by
            rw [hs₄, hs₃, hq₁]
            rfl
          have htable : s₅.fileTable = s.fileTable := by
            rw [hs₄, hs₃, hq₁]
            rfl
          have hdisk : s₅.disk = s.disk := by
            rw [hs₄, hs₃, hq₁]
            rfl
          -- The object of the new inode is nobody else, so all others are as before.
          have hold : ∀ b, s.home b ≠ .freed → s₅.inode b = s.inode b := by
            intro b hb
            rw [hs₄, hs₃, hq₁, hnext]
            exact Function.update_of_ne (fun heq => hb (by rw [heq, hfresh])) _ _
          have hv₅ : Volume s₅.part := by
            rw [hpart]
            exact hv
          rcases fileCreateEntry_none hv₅ h₅ with ⟨hpart', htable', hback⟩
          refine ⟨g, by rw [hslot, htable], by rw [hpart', hpart], by rw [htable', htable], ?_⟩
          rw [RolledBack, hpart, hdisk, hold d.inode hdir] at hback
          rcases hback with ⟨hfull, hd, hinode⟩ | ⟨hfull, hd, hinode⟩
          · exact Or.inl ⟨hfull, hd, fun b hb => (hinode b trivial).trans (hold b hb)⟩
          · refine Or.inr ⟨hfull, hd, fun b hb => (hinode b trivial).trans ?_⟩
            by_cases hbd : b = d.inode
            · rw [hbd, Function.update_self, Function.update_self]
            · rw [Function.update_of_ne hbd, Function.update_of_ne hbd, hold b hb]

/-- `file_create` without a number or without a block. -/
theorem fileCreate_none (hv : Volume s.part) (hfresh : s.home s.nextInode = .freed)
    (hdir : s.home d.inode ≠ .freed)
    (h : (NoAssert.fileCreate t d filename flag).run s = .ok (none, s')) :
    Full s.part.inodeBitmap ∧ Quiet s s' ∨ ¬ Full s.part.inodeBitmap ∧ s'.part = s.part ∧
      RolledBack (fun b => s.home b ≠ .freed) d.inode s s' ∧
      ∃ g, freeSlotFrom s.fileTable (maxFileOpen - 3) 3 = some g ∧
        s'.fileTable = Function.update s.fileTable g ⟨0, 0, none⟩ := by
  rcases run_bind_ok.mp h with ⟨ok, s₁, hok, h₁⟩
  have hq₁ : s₁ = { s with mallocs := s₁.mallocs, junk := s₁.junk } := quiet_malloc s ok s₁ hok
  cases ok with
  | false =>
      rw [if_neg Bool.false_ne_true] at h₁
      cases (pure_ok h₁).1
  | true =>
      rw [if_pos rfl] at h₁
      -- Without a free number nothing has been changed; with one, its bit is taken back at the
      -- end.
      by_cases hfull : Full s₁.part.inodeBitmap
      · rw [run_bind_of (run_inodeAlloc_full hfull)] at h₁
        rcases pure_ok h₁ with ⟨-, rfl⟩
        rw [hq₁] at hfull
        exact Or.inl ⟨hfull, hq₁⟩
      · rcases run_inodeAlloc hfull with ⟨i, -, hclear, hrun⟩
        rw [run_bind_of hrun, hq₁] at h₁
        rw [hq₁] at hfull hclear
        have hv₁ : Volume { s.part with inodeBitmap := bitmapSet s.part.inodeBitmap i true } :=
          ⟨⟨hv.inPart, hv.onDisk⟩, hv.boot, hv.bitmap, hv.table, hv.data, hv.free, hv.root⟩
        rcases fileCreateInode_none (s := ({ s with
          mallocs := s₁.mallocs, junk := s₁.junk } : Fs).setInodeBitmap
            (bitmapSet s.part.inodeBitmap i true)) hv₁ hfresh hdir h₁ with
          ⟨g, hslot, hpart, htable, hback⟩
        refine Or.inr ⟨hfull, ?_, hback, g, hslot, htable⟩
        rw [hpart]
        show { s.part with
          inodeBitmap := bitmapSet (bitmapSet s.part.inodeBitmap i true) i false } = s.part
        -- The bit that was set is cleared again.
        rw [bitmapSet_undo hclear]

/-- The slot that `file_create` takes is cleared already. -/
def BlankSlot (s : Fs) : Prop :=
  ∀ g, freeSlotFrom s.fileTable (maxFileOpen - 3) 3 = some g → s.fileTable g = ⟨0, 0, none⟩

/-- `file_create` has changed nothing exactly if there was no number for the
    inode, or the slot was blank and `sync_dir_entry` had no table to lose. -/
theorem fileCreate_asBefore (hv : Volume s.part) (hfresh : s.home s.nextInode = .freed)
    (hdir : s.home d.inode ≠ .freed)
    (h : (NoAssert.fileCreate t d filename flag).run s = .ok (none, s')) :
    AsBefore s s' ↔ Full s.part.inodeBitmap ∨
      BlankSlot s ∧ (Full s.part.blockBitmap ∨ (s.inode d.inode).iSectors 12 = 0) := by
  rcases fileCreate_none hv hfresh hdir h with
    ⟨hfull, hquiet⟩ | ⟨hfull, hpart, hback, g, hslot, htable⟩
  · exact ⟨fun _ => Or.inl hfull, fun _ => hquiet.asBefore⟩
  · constructor
    · -- The slot is blank afterwards, so it was before. The table entry is zero
      -- afterwards, so it was before.
      intro hbefore
      refine Or.inr ⟨fun g' hg' => ?_, ?_⟩
      · have hsame := congrFun (htable.symm.trans hbefore.fileTable) g
        rw [Function.update_self] at hsame
        rw [hslot, Option.some.injEq] at hg'
        rw [← hg', ← hsame]
      · rcases hback with ⟨hblocks, -, -⟩ | ⟨-, -, hinode⟩
        · exact Or.inl hblocks
        · have hsame := (hbefore.inode d.inode hdir).2 12 (by omega)
          have hzero : Function.update (s.inode d.inode).iSectors 12 0 12 = 0 :=
            Function.update_self ..
          rw [hinode d.inode hdir, Function.update_self] at hsame
          exact Or.inr (hsame.symm.trans hzero)
    · rintro (hno | ⟨hblank, hcase⟩)
      · exact absurd hno hfull
      have htable' : s'.fileTable = s.fileTable := by
        rw [htable, ← hblank g hslot, Function.update_eq_self]
      rcases hback with ⟨-, hdisk, hinode⟩ | ⟨hblocks, hdisk, hinode⟩
      · refine ⟨by rw [hpart], by rw [hpart], fun b hb => ?_, htable', fun x hx => ?_⟩
        · rw [hinode b hb]
          exact ⟨rfl, fun _ _ => rfl⟩
        · rw [hdisk] at hx
          exact absurd rfl hx
      · have hzero := hcase.resolve_left hblocks
        refine ⟨by rw [hpart], by rw [hpart], fun b hb => ?_, htable', fun x hx => Or.inl (hdisk x hx)⟩
        rw [hinode b hb, ← hzero, Function.update_eq_self]
        by_cases hbd : b = d.inode
        · rw [hbd, Function.update_self]
          exact ⟨rfl, fun _ _ => rfl⟩
        · rw [Function.update_of_ne hbd]
          exact ⟨rfl, fun _ _ => rfl⟩

end Create

section Mkdir

variable {t : Nat} {s s' : Fs}

theorem looked_asBefore (hfresh : ∀ a, s.nextInode ≤ a → s.home a = .freed) (h : Looked s s') :
    AsBefore s s' := by
  have hpart := h.part
  refine ⟨by rw [hpart], by rw [hpart], fun a ha => ?_, h.fileTable, fun x hx => ?_⟩
  · have hlt : a < s.nextInode := by
      by_contra hge
      exact ha (hfresh a (by omega))
    exact ⟨(h.old a hlt).iSize, (h.old a hlt).iSectors⟩
  · rw [h.disk] at hx
    exact absurd rfl hx

/-- `search_file` looks and changes nothing, in this build too. -/
theorem looked_searchLoopRest (n : Nat) (name : Str) (subPath : Option Str)
    (inodeNo parentNo : Nat) (r : PathSearchRecord) :
    Within Looked (NoAssert.searchLoop t n name subPath inodeNo parentNo r) := by
  induction n generalizing name subPath inodeNo parentNo r with
  | zero => exact within_fail
  | succ n ih =>
      refine within_check_bind (within_ite ?_ (within_check_bind ?_))
      · exact within_bind (looked_dirClose t _) (fun _ =>
          within_bind (looked_dirOpen t _) (fun _ => within_pure))
      refine within_bind (looked_of_quiet (quiet_searchDirEntry t _ name)) (fun found => ?_)
      cases found with
      | none => exact within_pure
      | some e =>
          refine within_check_bind (within_ite ?_ (within_ite within_pure (ih _ _ _ _ _)))
          exact within_bind (looked_of_quiet (quiet_inodeAt t _)) (fun _ =>
            within_bind (looked_dirClose t _) (fun _ =>
              within_bind (looked_dirOpen t _) (fun _ => ih _ _ _ _ _)))

theorem looked_searchFileRest (pathname : Str) : Within Looked (NoAssert.searchFile t pathname) :=
  within_read_bind (fun _ => within_ite within_pure
    (within_bind (looked_of_quiet quiet_unset) (fun _ => looked_searchLoopRest _ _ _ _ _ _)))

/-- `sys_mkdir` that has no entry for its directory leaves the bit of the block
    set. -/
theorem mkdirEntry_none (hv : Volume s.part) {d : Dir} {dirname : Str} {inodeNo k : Nat}
    (hk : k < s.part.blockBitmap.btmpBytesLen * 8)
    (hclear : bitmapScanTest s.part.blockBitmap k = false)
    (h : (NoAssert.mkdirEntry t d dirname inodeNo (add32 s.part.sb.dataStartLba k)).run
      (s.setBlockBitmap (bitmapSet s.part.blockBitmap k true)) = .ok (none, s')) :
    s'.part.blockBitmap = bitmapSet s.part.blockBitmap k true := by
  rcases run_bind_ok.mp h with ⟨_, s₁, hbit, h₁⟩
  have hs₁ := (run_syncNewBit hv hk hclear hbit).1
  rcases run_bind_ok.mp h₁ with ⟨parent, s₂, hparent, h₂⟩
  rcases inodeAt_run hparent with ⟨-, -, rfl⟩
  rcases run_bind_ok.mp h₂ with ⟨_, s₃, hdots, h₃⟩
  have hs₃ := (ideWrite_run hdots).2
  rcases run_bind_ok.mp h₃ with ⟨size, s₄, hsize, h₄⟩
  have hs₄ : s₄ = s₃ := by
    rcases run_bind_ok.mp hsize with ⟨_, s₅, hread, h₅⟩
    rcases run_bind_ok.mp h₅ with ⟨_, s₆, hcheck, h₆⟩
    rw [(pure_ok h₆).2, (check_ok hcheck).2, (read_ok hread).2]
  rw [hs₄] at h₄
  rcases run_bind_ok.mp h₄ with ⟨done, s₅, hsync, h₅⟩
  cases done with
  | true =>
      rw [if_pos rfl] at h₅
      rcases run_bind_ok.mp h₅ with ⟨_, s₆, _, h₆⟩
      rcases run_bind_ok.mp h₆ with ⟨_, s₇, _, h₇⟩
      rcases run_bind_ok.mp h₇ with ⟨_, s₈, _, h₈⟩
      rcases run_bind_ok.mp h₈ with ⟨_, s₉, _, h₉⟩
      rcases run_bind_ok.mp h₉ with ⟨_, s₁₀, _, h₁₀⟩
      cases (pure_ok h₁₀).1
  | false =>
      rw [if_neg Bool.false_ne_true] at h₅
      have hpart₃ : s₃.part = (s.setBlockBitmap (bitmapSet s.part.blockBitmap k true)).part := by
        rw [hs₃, hs₁]
        rfl
      have hv₃ : Volume s₃.part := by
        rw [hpart₃]
        exact (allocs_setBit s k).volume hv
      -- in both cases `sync_dir_entry` leaves the bitmap as it was
      have hpart₅ : s₅.part = s₃.part := by
        rcases (syncDirEntry_false hv₃ hsync).2 with ⟨-, rfl⟩ | ⟨-, hgone⟩
        · rfl
        · rw [hgone.rest]
      rcases run_bind_ok.mp h₅ with ⟨_, s₆, hfree, h₆⟩
      rcases run_bind_ok.mp h₆ with ⟨_, s₇, hclose, h₇⟩
      have hpart₇ := (looked_dirClose t d _ _ _ hclose).part
      rw [(pure_ok h₇).2, hpart₇, modify_ok hfree]
      show s₅.part.blockBitmap = _
      rw [hpart₅, hpart₃]
      rfl

theorem mkdirSearched_none (hv : Volume s.part) {r : PathSearchRecord}
    (h : (NoAssert.mkdirSearched t r).run s = .ok (none, s')) :
    (Full s.part.inodeBitmap ∨ Full s.part.blockBitmap) ∧ Looked s s' ∨
      ¬ (Full s.part.inodeBitmap ∨ Full s.part.blockBitmap) ∧
        s'.part.blockBitmap ≠ s.part.blockBitmap := by
  by_cases hinodes : Full s.part.inodeBitmap
  · rw [NoAssert.mkdirSearched, run_bind_of (run_inodeAlloc_full hinodes)] at h
    rcases run_bind_ok.mp h with ⟨_, s₁, hclose, h₁⟩
    rw [(pure_ok h₁).2]
    exact Or.inl ⟨Or.inl hinodes, looked_dirClose t _ _ _ _ hclose⟩
  rcases run_inodeAlloc hinodes with ⟨i, -, hclear, hrun⟩
  rw [NoAssert.mkdirSearched, run_bind_of hrun] at h
  dsimp only at h
  by_cases hblocks : Full s.part.blockBitmap
  · have hnone := run_blockAlloc_full
      (s := s.setInodeBitmap (bitmapSet s.part.inodeBitmap i true)) hblocks
    rw [run_bind_of hnone] at h
    rcases run_bind_ok.mp h with ⟨_, s₁, hfree, h₁⟩
    -- the number is given back before the directory is closed
    have hs₁ : s₁ = s := by
      rw [modify_ok hfree]
      show s.setInodeBitmap (bitmapSet (bitmapSet s.part.inodeBitmap i true) i false) = s
      rw [bitmapSet_undo hclear]
      rfl
    rw [hs₁] at h₁
    rcases run_bind_ok.mp h₁ with ⟨_, s₂, hclose, h₂⟩
    rw [(pure_ok h₂).2]
    exact Or.inl ⟨Or.inr hblocks, looked_dirClose t _ _ _ _ hclose⟩
  · rcases run_blockAlloc (s := s.setInodeBitmap (bitmapSet s.part.inodeBitmap i true)) hblocks with
      ⟨k, hk, hfree, hrun'⟩
    rw [run_bind_of hrun'] at h
    have hv₁ : Volume { s.part with inodeBitmap := bitmapSet s.part.inodeBitmap i true } :=
      ⟨⟨hv.inPart, hv.onDisk⟩, hv.boot, hv.bitmap, hv.table, hv.data, hv.free, hv.root⟩
    have hend := mkdirEntry_none (s := s.setInodeBitmap (bitmapSet s.part.inodeBitmap i true))
      hv₁ hk hfree h
    refine Or.inr ⟨fun hor => hor.elim hinodes hblocks, ?_⟩
    rw [hend]
    exact bitmapSet_ne hfree

/-- `sys_mkdir` has changed nothing exactly if it found one of the bitmaps
    full. -/
theorem sysMkdir_asBefore (hv : Volume s.part)
    (hfresh : ∀ a, s.nextInode ≤ a → s.home a = .freed) {pathname : Str}
    (h : (NoAssert.sysMkdir t pathname).run s = .ok (none, s')) :
    AsBefore s s' ↔ Full s.part.inodeBitmap ∨ Full s.part.blockBitmap := by
  rcases run_bind_ok.mp h with ⟨ok, s₁, hok, h₁⟩
  cases ok with
  | false =>
      rw [if_neg Bool.false_ne_true] at h₁
      cases (pure_ok h₁).1
  | true =>
      rw [if_pos rfl] at h₁
      rcases run_bind_ok.mp h₁ with ⟨⟨inodeNo, r⟩, s₂, hsearch, h₂⟩
      dsimp only at h₂
      by_cases hfound : inodeNo ≠ minusOne
      · rw [if_pos hfound] at h₂
        rcases run_bind_ok.mp h₂ with ⟨_, s₃, _, h₃⟩
        cases (pure_ok h₃).1
      rw [if_neg hfound] at h₂
      rcases run_bind_ok.mp h₂ with ⟨n, s₃, hdepth, h₃⟩
      rcases run_bind_ok.mp h₃ with ⟨m, s₄, hdepth', h₄⟩
      by_cases hdeep : n ≠ m
      · rw [if_pos hdeep] at h₄
        rcases run_bind_ok.mp h₄ with ⟨_, s₅, _, h₅⟩
        cases (pure_ok h₅).1
      rw [if_neg hdeep] at h₄
      -- Up to here the call has only looked.
      have hlooked : Looked s s₄ :=
        IsTrans.trans _ _ _ (Quiet.looked (quiet_malloc _ _ _ hok))
          (IsTrans.trans _ _ _ (looked_searchFileRest _ _ _ _ hsearch)
            (IsTrans.trans _ _ _ (Quiet.looked (quiet_pathDepthCnt _ _ _ _ hdepth))
              (Quiet.looked (quiet_pathDepthCnt _ _ _ _ hdepth'))))
      have hpart := hlooked.part
      have hv₄ : Volume s₄.part := by
        rw [hpart]
        exact ⟨⟨hv.inPart, hv.onDisk⟩, hv.boot, hv.bitmap, hv.table, hv.data, hv.free, hv.root⟩
      have hend := mkdirSearched_none hv₄ h₄
      rw [hpart] at hend
      rcases hend with ⟨hfull, hlast⟩ | ⟨hfull, hne⟩
      · exact ⟨fun _ => hfull, fun _ => looked_asBefore hfresh (IsTrans.trans _ _ _ hlooked hlast)⟩
      · exact ⟨fun hbefore => absurd hbefore.blockBitmap hne, fun hor => absurd hor hfull⟩

end Mkdir

section Calls

/-- Where the blocks or the numbers ran out, `file_write` and `sys_mkdir` have
    changed nothing if there were none to begin with, and `file_create` if its
    slot was blank and the directory had no table to lose. -/
theorem out_of_space_atomic (t : Nat) (s s' : Fs) (hv : Volume s.part)
    (hfresh : ∀ a, s.nextInode ≤ a → s.home a = .freed) :
    (∀ g src count, (NoAssert.fileWrite t g src count).run s = .ok (none, s') →
      (AsBefore s s' ↔ Full s.part.blockBitmap)) ∧
    (∀ d filename flag, s.home d.inode ≠ .freed →
      (NoAssert.fileCreate t d filename flag).run s = .ok (none, s') →
      (AsBefore s s' ↔ Full s.part.inodeBitmap ∨
        BlankSlot s ∧ (Full s.part.blockBitmap ∨ (s.inode d.inode).iSectors 12 = 0))) ∧
    ∀ pathname, (NoAssert.sysMkdir t pathname).run s = .ok (none, s') →
      (AsBefore s s' ↔ Full s.part.inodeBitmap ∨ Full s.part.blockBitmap) :=
  ⟨fun _ _ _ h => fileWrite_asBefore h,
    fun _ _ _ hdir h => fileCreate_asBefore hv (hfresh _ (Nat.le_refl _)) hdir h,
    fun _ h => sysMkdir_asBefore hv hfresh h⟩

/-- The empty file of `emptyFile`, on a partition with the given bytes as its
    block bitmap. -/
def crowdedFs (bits : Nat → Byte) : Fs :=
  { emptyFile with
    part := { emptyFile.part with
      blockBitmap := ⟨512, bits⟩
      inodeBitmap := ⟨512, fun k => if k = 0 then 1 else 0⟩ }
    home := fun a => if a = 0 then .kernel else .freed
    nextInode := 1
    fileTable := fun g => if g = 3 then ⟨0, oRdwr, some 0⟩ else ⟨0, 0, none⟩ }

theorem crowdedFs_volume {bits : Nat → Byte} (hroot : bitmapScanTest ⟨512, bits⟩ 0 = true) :
    Volume (crowdedFs bits).part := by
  have hv : Volume emptyFile.part := emptyFile_on.volume
  refine ⟨⟨hv.inPart, hv.onDisk⟩, hv.boot, hv.bitmap, hv.table, hv.data, fun k hk _ => ?_, hroot⟩
  have hlen : (crowdedFs bits).part.blockBitmap.btmpBytesLen = 512 := rfl
  have hsb : (crowdedFs bits).part.sb = emptyFile.part.sb := rfl
  have hdata : emptyFile.part.sb.dataStartLba = 612 := by decide
  have hmax : maxLba = 163839 := rfl
  rw [hsb]
  omega

theorem crowdedFs_fresh {bits : Nat → Byte} {a : Nat} (ha : (crowdedFs bits).nextInode ≤ a) :
    (crowdedFs bits).home a = .freed := by
  have hpos : 1 ≤ a := ha
  exact if_neg (by omega)

theorem of_outcome {α : Type} {x : FsM α} {s : Fs} {a : α} (h : (x.run s).map Prod.fst = .ok a) :
    ∃ s', x.run s = .ok (a, s') := by
  cases hrun : x.run s with
  | error f =>
      rw [hrun] at h
      cases h
  | ok r =>
      rw [hrun] at h
      cases h
      exact ⟨r.2, rfl⟩

/-- No block is left. -/
def fullFs : Fs := crowdedFs (fun _ => 0xff)

set_option maxRecDepth 20000 in
theorem fullFs_write : ((NoAssert.fileWrite 0 3 (fun _ => 7) 512).run fullFs).map Prod.fst =
    .ok none := by
  decide

set_option maxRecDepth 20000 in
theorem fullFs_create : ((NoAssert.fileCreate 0 ⟨0, true⟩ [0x66] 0).run fullFs).map
    Prod.fst = .ok none := by
  decide

set_option maxRecDepth 20000 in
theorem fullFs_mkdir : ((NoAssert.sysMkdir 0 [slash, 0x64]).run fullFs).map Prod.fst =
    .ok none := by
  decide

/-- The calls on a full partition. -/
theorem out_of_space_atomic_full : ∃ s₁ s₂ s₃,
    (NoAssert.fileWrite 0 3 (fun _ => 7) 512).run fullFs = .ok (none, s₁) ∧
    (NoAssert.fileCreate 0 ⟨0, true⟩ [0x66] 0).run fullFs = .ok (none, s₂) ∧
    (NoAssert.sysMkdir 0 [slash, 0x64]).run fullFs = .ok (none, s₃) ∧
    (AsBefore fullFs s₁ ↔ Full fullFs.part.blockBitmap) ∧
    (AsBefore fullFs s₂ ↔ Full fullFs.part.inodeBitmap ∨
      BlankSlot fullFs ∧ (Full fullFs.part.blockBitmap ∨ (fullFs.inode 0).iSectors 12 = 0)) ∧
    (AsBefore fullFs s₃ ↔ Full fullFs.part.inodeBitmap ∨ Full fullFs.part.blockBitmap) := by
  have hv : Volume fullFs.part := crowdedFs_volume (by decide)
  have hfresh : ∀ a, fullFs.nextInode ≤ a → fullFs.home a = .freed := fun _ => crowdedFs_fresh
  rcases of_outcome fullFs_write with ⟨s₁, h₁⟩
  rcases of_outcome fullFs_create with ⟨s₂, h₂⟩
  rcases of_outcome fullFs_mkdir with ⟨s₃, h₃⟩
  refine ⟨s₁, s₂, s₃, h₁, h₂, h₃, ?_, ?_, ?_⟩
  · exact (out_of_space_atomic 0 fullFs s₁ hv hfresh).1 3 _ 512 h₁
  · exact (out_of_space_atomic 0 fullFs s₂ hv hfresh).2.1 ⟨0, true⟩ _ 0 (by decide) h₂
  · exact (out_of_space_atomic 0 fullFs s₃ hv hfresh).2.2 _ h₃

/-- A single block is left, the last one. -/
def lastBlock : Fs := crowdedFs (fun k => if k = 511 then 0x7f else 0xff)

set_option maxRecDepth 20000 in
theorem lastBlock_not_full : ¬ Full lastBlock.part.blockBitmap := by
  rw [full_iff]
  decide

set_option maxRecDepth 20000 in
theorem lastBlock_write : ((NoAssert.fileWrite 0 3 (fun _ => 7) 512).run lastBlock).map Prod.fst =
    .ok none := by
  decide

set_option maxRecDepth 20000 in
theorem lastBlock_mkdir : ((NoAssert.sysMkdir 0 [slash, 0x64]).run lastBlock).map Prod.fst =
    .ok none := by
  decide

theorem lastBlock_inodes : ¬ Full lastBlock.part.inodeBitmap := by
  rw [full_iff]
  decide

/-- A call that needs two blocks keeps the one it gets. -/
theorem last_block_lost : Volume lastBlock.part ∧
    (∃ s₁, (NoAssert.fileWrite 0 3 (fun _ => 7) 512).run lastBlock = .ok (none, s₁) ∧
      ¬ AsBefore lastBlock s₁) ∧
    ∃ s₂, (NoAssert.sysMkdir 0 [slash, 0x64]).run lastBlock = .ok (none, s₂) ∧
      ¬ AsBefore lastBlock s₂ := by
  have hv : Volume lastBlock.part := crowdedFs_volume (by decide)
  rcases of_outcome lastBlock_write with ⟨s₁, h₁⟩
  rcases of_outcome lastBlock_mkdir with ⟨s₂, h₂⟩
  refine ⟨hv, ⟨s₁, h₁, fun hbefore => ?_⟩, s₂, h₂, fun hbefore => ?_⟩
  · exact lastBlock_not_full ((fileWrite_asBefore h₁).mp hbefore)
  · exact ((sysMkdir_asBefore hv (fun _ => crowdedFs_fresh) h₂).mp hbefore).elim lastBlock_inodes
      lastBlock_not_full

end Calls

end ForikOS
