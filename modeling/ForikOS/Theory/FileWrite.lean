import ForikOS.Theory.FileData

/-!
# Writing a File

What `file_write` does when nothing goes wrong, and where its sectors lie.

The size moves on after the blocks have been collected, so a call is taken
apart into the first block, the collection and the data. `DataAppended` is what
the three together come to. A write that stays in the last block, and one that
goes from the direct blocks to the table, reach it; the two other situations
are the subject of the results on the sectors and on the blocks a call takes.

`file_write` ends with `inode_sync`, which transfers the sectors of a record
through a buffer of one sector. Whether that fits is another matter than what
happens to the file, so the calls below are stated for what may stand in its
place.

## Main definitions

* `fileByte`, `fileContents`: What a file holds.
* `DataAppended`: The data has been appended.
* `fileWriteWith`: `file_write` with something for `inode_sync`.
* `SyncsTable`: It writes the inode table and nothing else.

## Theorems

* `dataAppended`: The three parts come to it.
* `file_write_appends`: `file_write` appends.
-/

namespace ForikOS

open Prog

/-- A byte of a file. -/
def fileByte (disk : Nat → Byte) (i : Inode) (p : Nat) : Byte :=
  disk (fileBlocks disk i (p / 512) * 512 + p % 512)

/-- What a file holds. -/
def fileContents (disk : Nat → Byte) (i : Inode) : List Byte :=
  (List.range i.iSize).map (fileByte disk i)

/-- The blocks `file_write` needs. -/
def newBlocks (i : Inode) (count : Nat) : Nat :=
  (if i.iSectors 0 = 0 then 1 else 0) + ((i.iSize + count) / 512 - i.iSize / 512) +
    (if i.iSize / 512 < 12 ∧ 12 ≤ (i.iSize + count) / 512 then 1 else 0)

/-- `count` bytes have been appended to the file at `a`. -/
structure DataAppended (a count : Nat) (src : Nat → Byte) (s s' : Fs) : Prop where
  part : s'.part = { s.part with blockBitmap := s'.part.blockBitmap }
  volume : Volume s'.part
  blocks : freeCount s'.part.blockBitmap + newBlocks (s.inode a) count =
    freeCount s.part.blockBitmap
  iNo : (s'.inode a).iNo = (s.inode a).iNo
  iSize : (s'.inode a).iSize = (s.inode a).iSize + count
  recorded : Recorded a (((s.inode a).iSize + count) / 512) s'
  own : ∀ n, OwnSector s'.disk (s'.inode a) n →
    OwnSector s.disk (s.inode a) n ∨ FreshBlock s.part s'.part n
  frame : ∀ x, s'.disk x ≠ s.disk x →
    BitmapSector s.part.sb (x / 512) ∨ OwnSector s'.disk (s'.inode a) (x / 512)
  old : ∀ p, p < (s.inode a).iSize →
    fileByte s'.disk (s'.inode a) p = fileByte s.disk (s.inode a) p
  new : ∀ p, p < count → fileByte s'.disk (s'.inode a) ((s.inode a).iSize + p) = src p

section Parts

variable {t g a count : Nat} {src : Nat → Byte} {s s₁ s₂ s₃ : Fs} {all : Nat → Nat}

/-- The blocks have been collected in `s₂`, and the data written in `s₃`. -/
structure DataWritten (a g count : Nat) (src : Nat → Byte) (s₁ s₂ s₃ : Fs) (all : Nat → Nat) :
    Prop where
  volume : Volume s₁.part
  before : Recorded a ((s₁.inode a).iSize / 512) s₁
  collected : Collected a ((s₁.inode a).iSize / 512) (((s₁.inode a).iSize + count) / 512) s₁ s₂ all
  wrote : Wrote a g count s₂ s₃
  frame : ∀ x, s₃.disk x ≠ s₂.disk x → ∃ p, (s₁.inode a).iSize ≤ p ∧
    p < (s₁.inode a).iSize + count ∧ x / 512 = all (p / 512)
  data : ∀ p, (s₁.inode a).iSize / 512 ≤ p / 512 → p < (s₁.inode a).iSize + count →
    s₃.disk (all (p / 512) * 512 + p % 512) =
      if p < (s₁.inode a).iSize then s₂.disk (all (p / 512) * 512 + p % 512)
      else src (p - (s₁.inode a).iSize)

namespace DataWritten

/-- The loop writes recorded blocks. -/
theorem block_written (h : DataWritten a g count src s₁ s₂ s₃ all) {x : Nat}
    (hx : s₃.disk x ≠ s₂.disk x) : ∃ k, (s₁.inode a).iSize / 512 ≤ k ∧
      k ≤ ((s₁.inode a).iSize + count) / 512 ∧ x / 512 = fileBlocks s₂.disk (s₂.inode a) k := by
  rcases h.frame x hx with ⟨p, hp, hp', hxp⟩
  refine ⟨p / 512, by omega, by omega, ?_⟩
  rw [hxp, h.collected.all_eq (p / 512) (by omega) (by omega)]

theorem slots (h : DataWritten a g count src s₁ s₂ s₃ all) :
    ∀ k, k < 13 → (s₃.inode a).iSectors k = (s₂.inode a).iSectors k := by
  intro k _
  rw [h.wrote.iSectors]

/-- The table is no block of the data. -/
theorem table_kept (h : DataWritten a g count src s₁ s₂ s₃ all)
    (hne : (s₂.inode a).iSectors 12 ≠ 0) {x : Nat} (hx : x / 512 = (s₂.inode a).iSectors 12) :
    s₃.disk x = s₂.disk x := by
  by_contra hc
  rcases h.block_written hc with ⟨k, -, hk, hxk⟩
  have hlaid := h.collected.recorded.laid
  exact hlaid.apart (hlaid.table.mp hne) k hk (hxk.symm.trans hx)

theorem own_iff (h : DataWritten a g count src s₁ s₂ s₃ all) {n : Nat} :
    OwnSector s₃.disk (s₃.inode a) n ↔ OwnSector s₂.disk (s₂.inode a) n :=
  OwnSector.congr h.slots (fun hne _ hx => h.table_kept hne hx)

theorem blocks_eq (h : DataWritten a g count src s₁ s₂ s₃ all) {k : Nat}
    (hk : k ≤ ((s₁.inode a).iSize + count) / 512) :
    fileBlocks s₃.disk (s₃.inode a) k = fileBlocks s₂.disk (s₂.inode a) k :=
  fileBlocks_congr h.slots (fun hne _ hx => h.table_kept hne hx)
    (h.collected.recorded.laid.in_reach hk)

theorem recorded (h : DataWritten a g count src s₁ s₂ s₃ all) :
    Recorded a (((s₁.inode a).iSize + count) / 512) s₃ := by
  refine ⟨h.collected.recorded.laid.congr h.slots (fun hne _ hx => h.table_kept hne hx), ?_⟩
  intro n hn
  rw [h.wrote.part]
  exact h.collected.recorded.taken n (h.own_iff.mp hn)

/-- The bytes that were there stay: those of the last block are put back, and
    those of the other blocks are not written. -/
theorem old (h : DataWritten a g count src s₁ s₂ s₃ all) {p : Nat}
    (hp : p < (s₁.inode a).iSize) :
    fileByte s₃.disk (s₃.inode a) p = fileByte s₁.disk (s₁.inode a) p := by
  have hle : p / 512 ≤ (s₁.inode a).iSize / 512 := by omega
  have hblock := h.collected.old (p / 512) hle
  have hlast : p / 512 ≤ ((s₁.inode a).iSize + count) / 512 := by omega
  rw [fileByte, fileByte, h.blocks_eq hlast]
  have hloop : s₃.disk (fileBlocks s₂.disk (s₂.inode a) (p / 512) * 512 + p % 512) =
      s₂.disk (fileBlocks s₂.disk (s₂.inode a) (p / 512) * 512 + p % 512) := by
    by_cases hfirst : p / 512 = (s₁.inode a).iSize / 512
    · rw [← h.collected.all_eq (p / 512) (by omega) hlast, h.data p (by omega) (by omega),
        if_pos hp]
    · by_contra hc
      rcases h.block_written hc with ⟨k, hk, hk', hxk⟩
      have hsame := h.collected.recorded.laid.distinct (p / 512) k hlast hk' (by omega)
      omega
  rw [hloop, hblock]
  refine h.collected.allocs.disk_eq (fun hw => ?_)
  rw [show (fileBlocks s₁.disk (s₁.inode a) (p / 512) * 512 + p % 512) / 512 =
    fileBlocks s₁.disk (s₁.inode a) (p / 512) by omega] at hw
  have htaken := h.before.block_taken hle
  rcases hw with hbit | ⟨-, hfresh⟩
  · exact h.volume.not_bitmap htaken.data hbit
  · exact fresh_ne_taken hfresh htaken rfl

theorem new (h : DataWritten a g count src s₁ s₂ s₃ all) {p : Nat} (hp : p < count) :
    fileByte s₃.disk (s₃.inode a) ((s₁.inode a).iSize + p) = src p := by
  have hlast : ((s₁.inode a).iSize + p) / 512 ≤ ((s₁.inode a).iSize + count) / 512 := by omega
  rw [fileByte, h.blocks_eq hlast, ← h.collected.all_eq _ (by omega) hlast,
    h.data _ (by omega) (by omega), if_neg (by omega), Nat.add_sub_cancel_left]

theorem sectors_written (h : DataWritten a g count src s₁ s₂ s₃ all) {x : Nat}
    (hx : s₃.disk x ≠ s₁.disk x) :
    BitmapSector s₁.part.sb (x / 512) ∨ OwnSector s₃.disk (s₃.inode a) (x / 512) := by
  by_cases hx' : s₃.disk x = s₂.disk x
  · rw [hx'] at hx
    exact (h.collected.allocs.disk x hx).imp_right (fun hw => h.own_iff.mpr hw.1)
  · rcases h.block_written hx' with ⟨k, -, hk, hxk⟩
    rw [hxk]
    exact Or.inr (h.own_iff.mpr (h.collected.recorded.laid.own_block hk))

end DataWritten

/-- The first block, the collection and the data come to an append. -/
theorem dataAppended (h₁ : Allocs (BitmapSector s.part.sb) a s s₁)
    (hown : ∀ n, OwnSector s₁.disk (s₁.inode a) n →
      OwnSector s.disk (s.inode a) n ∨ FreshBlock s.part s₁.part n)
    (hcount : freeCount s₁.part.blockBitmap + (if (s.inode a).iSectors 0 = 0 then 1 else 0) =
      freeCount s.part.blockBitmap)
    (hempty : (s.inode a).iSize = 0 ∨ s₁ = s)
    (h : DataWritten a g count src s₁ s₂ s₃ all) : DataAppended a count src s s₃ := by
  have hsize : (s₁.inode a).iSize = (s.inode a).iSize := h₁.iSize
  have hpart := h.wrote.part
  have hallocs := h.collected.allocs
  -- One field after the other, through the three states: the first block, the rest, the data.
  refine ⟨?_, ?_, ?_, ?_, ?_, ?_, fun n hn => ?_, fun x hx => ?_, fun p hp => ?_, fun p hp => ?_⟩
  · rw [hpart, hallocs.part, h₁.part]
  · rw [hpart]
    exact hallocs.volume h.volume
  · have hc := h.collected.count
    rw [hpart, newBlocks, ← hsize]
    rw [← hcount, ← hc]
    omega
  · rw [h.wrote.iNo, hallocs.iNo, h₁.iNo]
  · rw [h.wrote.iSize, hallocs.iSize, hsize]
  · rw [← hsize]
    exact h.recorded
  · rw [hpart]
    rcases h.collected.own n (h.own_iff.mp hn) with hn' | hn'
    · exact (hown n hn').imp_right hallocs.fresh_left
    · exact Or.inr (h₁.fresh_right hn')
  · by_cases hx' : s₃.disk x = s₁.disk x
    · rw [hx'] at hx
      exact Or.inl (h₁.disk x hx)
    · rw [← h₁.sb]
      exact h.sectors_written hx'
  · rcases hempty with h0 | heq
    · omega
    · rw [heq] at h
      exact h.old hp
  · rw [← hsize]
    exact h.new hp

end Parts

/-- `writeFile` with something for `inode_sync`. -/
def writeFileWith (sync : Inode → FsM Unit) (t g : Nat) (src : Nat → Byte) (count : Nat)
    (all : Nat → Nat) : FsM Int := do
  let (_, i) ← fileInode t g
  Prog.modify (fun s => s.setFile g { s.fileTable g with fdPos := sub32 i.iSize 1 })
  writeChunks t g src count all count 0 true
  let (_, i) ← fileInode t g
  sync i
  pure count

/-- `fileAppend` once `table` is there, with something for `inode_sync`. -/
def fileAppendWith (sync : Inode → FsM Unit) (t g : Nat) (src : Nat → Byte) (count table : Nat) :
    FsM Int := do
  let lba ← writeFirstBlock t g
  match lba with
  | none => pure (-1)
  | some lba => do
      let all ← collectBlocks t g count table lba
      match all with
      | none => pure (-1)
      | some all => writeFileWith sync t g src count all

/-- `file_write` with something for `inode_sync`. -/
def fileWriteWith (sync : Inode → FsM Unit) (t g : Nat) (src : Nat → Byte) (count : Nat) :
    FsM Int := do
  let (_, i) ← fileInode t g
  if sectorSize * 140 < add32 i.iSize count then
    pure (-1)
  else do
    let ok ← mallocBuffers
    if ok = true then do
      let table ← unset
      fileAppendWith sync t g src count table
    else pure (-1)

/-- `file_write` is that with `inode_sync` and a buffer of one sector. -/
theorem fileWriteWith_inodeSync (t g : Nat) (src : Nat → Byte) (count : Nat) :
    fileWriteWith (fun i => inodeSync i sectorSize) t g src count = fileWrite t g src count := rfl

/-- What is written for an inode goes to the inode table, and nothing else
    changes. -/
def SyncsTable (sync : Inode → FsM Unit) (no : Nat) (p : Partition) : Prop :=
  ∀ (i : Inode) (s : Fs), i.iNo = no →
    s.part.sb = p.sb ∧ s.part.startLba = p.startLba ∧ s.part.secCnt = p.secCnt →
    ∃ s', (sync i).run s = .ok ((), s') ∧ s' = { s with disk := s'.disk } ∧
      ∀ x, s'.disk x ≠ s.disk x → TableSector p.sb (x / 512)

/-- The state once the two buffers are there and the local variables have got
    what they hold. -/
def entered (s : Fs) : Fs :=
  { s with mallocs := fun k => s.mallocs (k + 2), junk := fun k => s.junk (k + 1) }

theorem FileAt.entered {t g a : Nat} {s : Fs} (h : FileAt t g a s) : FileAt t g a (entered s) :=
  ⟨h.slot, h.sees⟩

section Leads

variable {t g a count : Nat} {src : Nat → Byte} {s : Fs} {sync : Inode → FsM Unit}

/-- `file_write` up to the first block, when there is memory. -/
theorem leads_fileWriteWith (src : Nat → Byte) (sync : Inode → FsM Unit) (hat : FileAt t g a s)
    (hsum : ¬ 71680 < add32 (s.inode a).iSize count)
    (hmem : s.mallocs 0 = true ∧ s.mallocs 1 = true) :
    Leads (fileWriteWith sync t g src count) s (fileAppendWith sync t g src count (s.junk 0))
      (entered s) := by
  have hmalloc : mallocBuffers.run s =
      .ok (true, { s with mallocs := fun k => s.mallocs (k + 2) }) := by
    have h0 : malloc.run s = .ok (true, { s with mallocs := fun k => s.mallocs (k + 1) }) := by
      rw [malloc, run_bind_of (run_read _ s), run_bind_of (run_modify _ s), run_pure, hmem.1]
    rw [mallocBuffers, run_bind_of h0, if_pos rfl, malloc, run_bind_of (run_read _ _),
      run_bind_of (run_modify _ _), run_pure]
    show Except.ok (s.mallocs 1, _) = _
    rw [hmem.2]
  rw [fileWriteWith]
  refine (leads_bind (run_fileInode hat)).trans ?_
  show Leads (if 71680 < add32 (s.inode a).iSize count then _ else _) s _ _
  rw [if_neg hsum]
  refine (leads_bind hmalloc).trans ?_
  rw [if_pos rfl]
  exact ⟨rfl, rfl⟩

/-- The situations of `file_write`. -/
theorem leads_collectBlocks (hat : FileAt t g a s) {last : Nat} (table lba : Nat)
    (hlast : add32 (s.inode a).iSize count / 512 = last) (hlt : last < 140) :
    Leads (collectBlocks t g count table lba) s
      (if last + 1 = (s.inode a).iSize / 512 + 1 then
        collectSame (s.inode a) ((s.inode a).iSize / 512 + 1)
      else if last + 1 ≤ 12 then
        collectDirect t g (s.inode a) ((s.inode a).iSize / 512 + 1) (last + 1) table
      else if (s.inode a).iSize / 512 + 1 ≤ 12 then
        collectTable t g a (s.inode a) ((s.inode a).iSize / 512 + 1) (last + 1)
      else collectIndirect (s.inode a) ((s.inode a).iSize / 512 + 1) (last + 1) lba) s := by
  have hwill : add32 (s.inode a).iSize count / sectorSize + 1 ≤ 140 := by
    show add32 (s.inode a).iSize count / 512 + 1 ≤ 140
    omega
  subst hlast
  rw [collectBlocks]
  exact (leads_bind (run_fileInode hat)).trans (leads_bind (run_assert hwill s))

/-- The data of `file_write` up to `inode_sync`. -/
theorem leads_writeFileWith (src : Nat → Byte) (sync : Inode → FsM Unit) (hat : FileAt t g a s)
    {all : Nat → Nat} (hall : ∀ k, all k ≤ maxLba)
    (hsize : (s.inode a).iSize + count ≤ 71680) :
    ∃ s', Leads (writeFileWith sync t g src count all) s
        (sync (s'.inode a) >>= fun _ => pure (count : Int)) s' ∧
      Wrote a g count s s' ∧ FileAt t g a s' ∧
      (∀ x, s'.disk x ≠ s.disk x → ∃ p, (s.inode a).iSize ≤ p ∧
        p < (s.inode a).iSize + count ∧ x / 512 = all (p / 512)) ∧
      ((∀ p q, (s.inode a).iSize ≤ p → p < (s.inode a).iSize + count → (s.inode a).iSize ≤ q →
        q < (s.inode a).iSize + count → all (p / 512) = all (q / 512) → p / 512 = q / 512) →
      ∀ p, (s.inode a).iSize / 512 ≤ p / 512 → p < (s.inode a).iSize + count →
        s'.disk (all (p / 512) * 512 + p % 512) =
          if p < (s.inode a).iSize then s.disk (all (p / 512) * 512 + p % 512)
          else src (p - (s.inode a).iSize)) := by
  -- Before the loop the position is moved to the last byte; the first round moves it on.
  let s₁ := s.setFile g { s.fileTable g with fdPos := sub32 (s.inode a).iSize 1 }
  have hwrote₁ : Wrote a g 0 s s₁ := by
    refine ⟨rfl, (Function.update_eq_self a s.inode).symm, ?_⟩
    show Function.update s.fileTable g _ =
      Function.update s.fileTable g
        { s.fileTable g with fdPos := (Function.update s.fileTable g _ g).fdPos }
    rw [Function.update_self]
  have hat₁ := hwrote₁.fileAt hat
  rcases run_writeChunks src hall count count s₁ 0 true hat₁ (by omega) (by omega) hsize
    with ⟨s', hrun, hwrote, hframe⟩
  have hat' := hwrote.fileAt hat₁
  refine ⟨s', ?_, ?_, hat', hframe, fun hdist p hp hp' => ?_⟩
  · rw [writeFileWith]
    refine (leads_bind (run_fileInode hat)).trans ((leads_bind (run_modify _ s)).trans ?_)
    exact (leads_bind hrun).trans (leads_bind (run_fileInode hat'))
  · have hboth := hwrote₁.trans hwrote
    rw [Nat.sub_zero, Nat.zero_add] at hboth
    exact hboth
  · have hdata := writeChunks_data hall count count s₁ s' 0 true hat₁ (by omega) (by omega) hsize
      hdist (Or.inl rfl) hrun p hp hp'
    rw [Nat.zero_add] at hdata
    exact hdata

end Leads

/-- A well-formed file on a volume, whose blocks are taken. -/
structure FileOn (t g a : Nat) (s : Fs) : Prop where
  file : FileAt t g a s
  volume : Volume s.part
  wf : WellFormed s.disk (s.inode a)
  taken : ∀ n, OwnSector s.disk (s.inode a) n → TakenBlock s.part n

section Append

variable {t g a count : Nat} {src : Nat → Byte} {s : Fs} {sync : Inode → FsM Unit}

/-- After the first step the file has the blocks that go with its size. -/
theorem run_firstBlock (h : FileOn t g a s)
    (hfree : (if (s.inode a).iSectors 0 = 0 then 1 else 0) ≤ freeCount s.part.blockBitmap) :
    ∃ lba s₁, (writeFirstBlock t g).run s = .ok (some lba, s₁) ∧
      Allocs (BitmapSector s.part.sb) a s s₁ ∧ Recorded a ((s₁.inode a).iSize / 512) s₁ ∧
      (∀ n, OwnSector s₁.disk (s₁.inode a) n →
        OwnSector s.disk (s.inode a) n ∨ FreshBlock s.part s₁.part n) ∧
      freeCount s₁.part.blockBitmap + (if (s.inode a).iSectors 0 = 0 then 1 else 0) =
        freeCount s.part.blockBitmap ∧ ((s.inode a).iSize = 0 ∨ s₁ = s) := by
  rcases h.wf with hnone | hlaid
  · have hzero : (s.inode a).iSectors 0 = 0 := hnone.2 0 (by omega)
    rw [if_pos hzero] at hfree ⊢
    rcases run_writeFirstBlock_empty h.file h.volume hfree hnone
      with ⟨lba, s₁, hrun, h₁, hrec, hown, hcount⟩
    have hsize : (s₁.inode a).iSize = 0 := h₁.iSize.trans hnone.1
    refine ⟨lba, s₁, hrun, h₁, ?_, fun n hn => Or.inr (hown n hn), hcount, Or.inl hnone.1⟩
    rw [hsize]
    exact hrec
  · have hne : ¬ (s.inode a).iSectors 0 = 0 := by
      rw [← fileBlocks_direct (d := s.disk) (by omega)]
      exact hlaid.recorded 0 (by omega)
    rw [if_neg hne]
    exact ⟨_, s, run_writeFirstBlock_recorded h.file hlaid, Allocs.refl _ a s, ⟨hlaid, h.taken⟩,
      fun _ hn => Or.inl hn, rfl, Or.inr rfl⟩

/-- Where the blocks suffice or the table is added, the blocks are collected. -/
theorem run_collectBlocks {s₁ : Fs} (hat : FileAt t g a s₁) (hv : Volume s₁.part)
    (hrec : Recorded a ((s₁.inode a).iSize / 512) s₁) (hsize : (s₁.inode a).iSize + count < 71680)
    (hfree : ((s₁.inode a).iSize + count) / 512 - (s₁.inode a).iSize / 512 +
      (if (s₁.inode a).iSize / 512 < 12 ∧ 12 ≤ ((s₁.inode a).iSize + count) / 512 then 1 else 0) ≤
      freeCount s₁.part.blockBitmap)
    (hcase : ((s₁.inode a).iSize + count) / 512 = (s₁.inode a).iSize / 512 ∨
      (s₁.inode a).iSize / 512 < 12 ∧ 12 ≤ ((s₁.inode a).iSize + count) / 512)
    (table lba : Nat) :
    ∃ all s₂, (collectBlocks t g count table lba).run s₁ = .ok (some all, s₂) ∧
      Collected a ((s₁.inode a).iSize / 512) (((s₁.inode a).iSize + count) / 512) s₁ s₂ all := by
  have hsum : add32 (s₁.inode a).iSize count / 512 = ((s₁.inode a).iSize + count) / 512 := by
    rw [add32, Nat.mod_eq_of_lt (by omega)]
  rw [(leads_collectBlocks hat table lba hsum (by omega)).1]
  rcases hcase with hsame | ⟨hfirst, hlast⟩
  · rcases run_collectSame hrec with ⟨all, hrun, hcoll⟩
    rw [if_pos (by rw [hsame]), hsame]
    exact ⟨all, s₁, hrun, hcoll⟩
  · rw [if_pos ⟨hfirst, hlast⟩] at hfree
    rw [if_neg (by omega), if_neg (by omega), if_pos (by omega)]
    exact run_collectTable hat hv hrec hfirst hlast (by omega) (by omega)

/-- A call that appends comes to `inode_sync` with the data on the disk. -/
theorem leads_append (src : Nat → Byte) (sync : Inode → FsM Unit) (h : FileOn t g a s)
    (hmem : s.mallocs 0 = true ∧ s.mallocs 1 = true)
    (hsize : (s.inode a).iSize + count < 71680)
    (hfree : newBlocks (s.inode a) count ≤ freeCount s.part.blockBitmap)
    (hcase : ((s.inode a).iSize + count) / 512 = (s.inode a).iSize / 512 ∨
      (s.inode a).iSize / 512 < 12 ∧ 12 ≤ ((s.inode a).iSize + count) / 512) :
    ∃ s', Leads (fileWriteWith sync t g src count) s
        (sync (s'.inode a) >>= fun _ => pure (count : Int)) s' ∧ FileAt t g a s' ∧
      DataAppended a count src s s' := by
  have hon : FileOn t g a (entered s) := ⟨h.file.entered, h.volume, h.wf, h.taken⟩
  have hsum : ¬ 71680 < add32 (s.inode a).iSize count := by
    rw [add32, Nat.mod_eq_of_lt (by omega)]
    omega
  rw [newBlocks] at hfree
  -- The three steps of the call: the first block, the others, and the data.
  rcases run_firstBlock hon (by
    show (if (s.inode a).iSectors 0 = 0 then 1 else 0) ≤ freeCount s.part.blockBitmap
    omega) with ⟨lba, s₁, hfirst, h₁, hrec, hown, hcount, hempty⟩
  have hsize₁ : (s₁.inode a).iSize = (s.inode a).iSize := h₁.iSize
  have hat₁ := h₁.fileAt hon.file
  rw [← hsize₁] at hsize hcase
  have hfree₁ : ((s₁.inode a).iSize + count) / 512 - (s₁.inode a).iSize / 512 +
      (if (s₁.inode a).iSize / 512 < 12 ∧ 12 ≤ ((s₁.inode a).iSize + count) / 512 then 1 else 0) ≤
      freeCount s₁.part.blockBitmap := by
    have hc : freeCount s₁.part.blockBitmap + (if (s.inode a).iSectors 0 = 0 then 1 else 0) =
      freeCount s.part.blockBitmap := hcount
    rw [hsize₁]
    omega
  rcases run_collectBlocks hat₁ (h₁.volume h.volume) hrec hsize hfree₁ hcase (s.junk 0) lba
    with ⟨all, s₂, hcollect, hcoll⟩
  have hsize₂ : (s₂.inode a).iSize = (s₁.inode a).iSize := hcoll.allocs.iSize
  have hat₂ := hcoll.allocs.fileAt hat₁
  rcases leads_writeFileWith src sync hat₂ hcoll.all_le
    (show (s₂.inode a).iSize + count ≤ 71680 by omega) with ⟨s₃, hlead, hwrote, hat₃, hframe, hdata⟩
  rw [hsize₂] at hframe hdata
  -- The blocks are different, so no sector of the data is written over.
  have hwritten : DataWritten a g count src s₁ s₂ s₃ all := by
    refine ⟨h₁.volume h.volume, hrec, hcoll, hwrote, hframe, hdata (fun p q hp hp' hq hq' heq => ?_)⟩
    rw [hcoll.all_eq (p / 512) (by omega) (by omega),
      hcoll.all_eq (q / 512) (by omega) (by omega)] at heq
    exact hcoll.recorded.laid.distinct _ _ (by omega) (by omega) heq
  have happ := dataAppended h₁ hown hcount hempty hwritten
  refine ⟨s₃, ?_, hat₃, ⟨happ.part, happ.volume, happ.blocks, happ.iNo, happ.iSize, happ.recorded,
    happ.own, happ.frame, happ.old, happ.new⟩⟩
  refine (leads_fileWriteWith src sync h.file hsum hmem).trans ?_
  rw [fileAppendWith]
  refine (leads_bind hfirst).trans ?_
  exact (leads_bind hcollect).trans hlead

/-- Without a block for the first one the file has none. -/
theorem FileOn.no_first (h : FileOn t g a s)
    (hfree : ¬ (if (s.inode a).iSectors 0 = 0 then 1 else 0) ≤ freeCount s.part.blockBitmap) :
    freeCount s.part.blockBitmap = 0 ∧ NoBlocks (s.inode a) := by
  have hzero : (s.inode a).iSectors 0 = 0 := by
    by_contra hne
    rw [if_neg hne] at hfree
    omega
  rw [if_pos hzero] at hfree
  refine ⟨by omega, h.wf.resolve_right (fun hlaid => ?_)⟩
  have hrec := hlaid.recorded 0 (by omega)
  rw [fileBlocks_direct (by omega)] at hrec
  exact hrec hzero

end Append

section Sync

variable {t g a count : Nat} {src : Nat → Byte} {s s' s'' : Fs}

/-- A record of the inode table lies in the table. -/
theorem record_in_table {no : Nat} (h : TableFits s.part) (hno : no < 4096) (b : Nat → Byte)
    {x : Nat} (hx : (s.setDisk (inodeOff s.part.sb no) inodeSize b).disk x ≠ s.disk x) :
    TableSector s.part.sb (x / 512) := by
  rw [inodeOff_eq h hno] at hx
  have hsize : inodeSize = 76 := rfl
  have hin : s.part.sb.inodeTableLba * 512 + no * 76 ≤ x ∧
      x < s.part.sb.inodeTableLba * 512 + no * 76 + inodeSize := by
    by_contra hc
    exact hx (if_neg hc)
  exact ⟨by omega, by omega⟩

/-- `inode_sync` with a buffer of one sector does what is asked of it for a
    record that lies in one. -/
theorem syncsTable_inodeSync {p : Partition} {no : Nat} (hv : Volume p)
    (hone : (inodePos p.sb (no % 256)).sects = 1) :
    SyncsTable (fun i => inodeSync i sectorSize) no p := by
  intro i s hno hp
  have hfits : TableFits s.part := by
    refine ⟨?_, ?_⟩
    · rw [hp.1, hp.2.1, hp.2.2]
      exact hv.inPart
    · rw [hp.2.1, hp.2.2]
      exact hv.onDisk
  have hbuf : (inodePos s.part.sb (i.iNo % 256)).sects * sectorSize ≤ sectorSize := by
    rw [hp.1, hno, hone, Nat.one_mul]
  refine ⟨_, inodeSync_record hfits hbuf, rfl, fun x hx => ?_⟩
  rw [← hp.1]
  exact record_in_table hfits (by omega) _ hx

/-- Whether the record fits in the buffer or not, `inode_sync` leaves the disk
    outside the inode table as it is. -/
theorem stop_inodeSync {i : Inode} (h : TableFits s.part) (r : Int) :
    ∃ s', (inodeSync i sectorSize >>= fun _ => (pure r : FsM Int)).stop s = s' ∧
      s' = { s with disk := s'.disk } ∧
      ∀ x, s'.disk x ≠ s.disk x → TableSector s.part.sb (x / 512) := by
  by_cases hbuf : (inodePos s.part.sb (i.iNo % 256)).sects * sectorSize ≤ sectorSize
  · exact ⟨_, stop_bind_ok (inodeSync_record h hbuf), rfl,
      fun x hx => record_in_table h (by omega) _ hx⟩
  · exact ⟨s, (stops_bind (stops_inodeSync h hbuf)).2, rfl, fun x hx => absurd rfl hx⟩

/-- The inode table is apart from the file. -/
theorem DataAppended.table_apart (h : DataAppended a count src s s') {n : Nat}
    (hn : OwnSector s'.disk (s'.inode a) n) : ¬ TableSector s.part.sb n := by
  have hsb : s'.part.sb = s.part.sb := by rw [h.part]
  rw [← hsb]
  exact h.volume.not_table (h.recorded.taken n hn).data

/-- What `inode_sync` leaves of a file that has been appended to. -/
theorem DataAppended.synced (h : DataAppended a count src s s')
    (hs : s'' = { s' with disk := s''.disk })
    (hd : ∀ x, s''.disk x ≠ s'.disk x → TableSector s.part.sb (x / 512)) :
    Recorded a (((s.inode a).iSize + count) / 512) s'' ∧
      (∀ n, OwnSector s''.disk (s''.inode a) n ↔ OwnSector s'.disk (s'.inode a) n) ∧
      ∀ p, p < (s.inode a).iSize + count →
        fileByte s''.disk (s''.inode a) p = fileByte s'.disk (s'.inode a) p := by
  -- The record of the inode is written into the inode table, which no sector of the file is in.
  have hkeep : ∀ x, OwnSector s'.disk (s'.inode a) (x / 512) → s''.disk x = s'.disk x := by
    intro x hx
    by_contra hne
    exact h.table_apart hx (hd x hne)
  have hinode : s''.inode = s'.inode := by rw [hs]
  have hpart : s''.part = s'.part := by rw [hs]
  have hlaid := h.recorded.laid
  have hslots : ∀ k, k < 13 → (s''.inode a).iSectors k = (s'.inode a).iSectors k := by
    intro k _
    rw [hinode]
  have htable : (s'.inode a).iSectors 12 ≠ 0 → ∀ x, x / 512 = (s'.inode a).iSectors 12 →
      s''.disk x = s'.disk x := by
    intro hne x hx
    refine hkeep x ?_
    rw [hx]
    exact hlaid.own_table (hlaid.table.mp hne)
  have hown : ∀ n, OwnSector s''.disk (s''.inode a) n ↔ OwnSector s'.disk (s'.inode a) n :=
    fun n => OwnSector.congr hslots htable
  refine ⟨⟨hlaid.congr hslots htable, fun n hn => ?_⟩, hown, fun p hp => ?_⟩
  · rw [hpart]
    exact h.recorded.taken n ((hown n).mp hn)
  · have hle : p / 512 ≤ ((s.inode a).iSize + count) / 512 := by omega
    rw [fileByte, fileByte, fileBlocks_congr hslots htable (hlaid.in_reach hle)]
    refine hkeep _ ?_
    -- The byte lies in a block of the file, so it has been kept.
    rw [show (fileBlocks s'.disk (s'.inode a) (p / 512) * 512 + p % 512) / 512 =
      fileBlocks s'.disk (s'.inode a) (p / 512) by omega]
    exact hlaid.own_block hle

end Sync

section Contents

variable {t g a count : Nat} {src : Nat → Byte} {s s' : Fs} {sync : Inode → FsM Unit}

/-- A file of `n + count` bytes, the first `n` of which are another's. -/
theorem fileContents_append {d d' : Nat → Byte} {i i' : Inode}
    (hsize : i'.iSize = i.iSize + count)
    (hold : ∀ p, p < i.iSize → fileByte d' i' p = fileByte d i p)
    (hnew : ∀ p, p < count → fileByte d' i' (i.iSize + p) = src p) :
    fileContents d' i' = fileContents d i ++ (List.range count).map src := by
  rw [fileContents, hsize, List.range_add, List.map_append, List.map_map, fileContents]
  congr 1
  · exact List.map_congr_left (fun p hp => hold p (List.mem_range.mp hp))
  · exact List.map_congr_left (fun p hp => hnew p (List.mem_range.mp hp))

/-- `file_write` appends where it adds no block, or only the first, and where
    it goes from the direct blocks to the table: the file is in order again and
    holds the data behind what it held, and no sector of anything else has
    changed. -/
theorem file_write_appends (h : FileOn t g a s)
    (hmem : s.mallocs 0 = true ∧ s.mallocs 1 = true)
    (hsync : SyncsTable sync (s.inode a).iNo s.part)
    (hsize : (s.inode a).iSize + count < 71680)
    (hfree : newBlocks (s.inode a) count ≤ freeCount s.part.blockBitmap)
    (hcase : ((s.inode a).iSize + count) / 512 = (s.inode a).iSize / 512 ∨
      (s.inode a).iSize / 512 < 12 ∧ 12 ≤ ((s.inode a).iSize + count) / 512) :
    ∃ s', (fileWriteWith sync t g src count).run s = .ok ((count : Int), s') ∧
      FileOn t g a s' ∧ (s'.inode a).iSize = (s.inode a).iSize + count ∧
      fileContents s'.disk (s'.inode a) =
        fileContents s.disk (s.inode a) ++ (List.range count).map src ∧
      ∀ n, TakenBlock s.part n → ¬ OwnSector s.disk (s.inode a) n →
        ∀ x, x / 512 = n → s'.disk x = s.disk x := by
  rcases leads_append src sync h hmem hsize hfree hcase
    with ⟨s₁, hlead, hat, happ⟩
  -- What is left is to sync the inode, which writes the inode table only.
  rcases hsync (s₁.inode a) s₁ happ.iNo (by rw [happ.part]; exact ⟨rfl, rfl, rfl⟩)
    with ⟨s', hrun, hs', hd⟩
  rcases happ.synced hs' hd with ⟨hrec, hown, hbyte⟩
  have hinode : s'.inode = s₁.inode := by rw [hs']
  have hpart : s'.part = s₁.part := by rw [hs']
  have hsize' : (s'.inode a).iSize = (s.inode a).iSize + count := by
    rw [hinode]
    exact happ.iSize
  refine ⟨s', ?_, ⟨?_, ?_, Or.inr ?_, hrec.taken⟩, hsize', ?_, fun n hn hnown x hx => ?_⟩
  · rw [hlead.1, run_bind_of hrun, run_pure]
  · rw [hs']
    exact ⟨hat.slot, hat.sees⟩
  · rw [hpart]
    exact happ.volume
  · rw [hsize']
    exact hrec.laid
  · refine fileContents_append hsize' (fun p hp => ?_) (fun p hp => ?_)
    · rw [hbyte p (by omega), happ.old p hp]
    · rw [hbyte _ (by omega), happ.new p hp]
  · -- a block of something else is not the file's, and lies behind both tables
    have hown₁ : ¬ OwnSector s₁.disk (s₁.inode a) n := by
      intro hc
      rcases happ.own n hc with hc | hfresh
      · exact hnown hc
      · exact fresh_ne_taken hfresh hn rfl
    by_contra hne
    by_cases hx' : s'.disk x = s₁.disk x
    · rw [hx'] at hne
      rcases happ.frame x hne with hbit | hc
      · rw [hx] at hbit
        exact h.volume.not_bitmap hn.data hbit
      · rw [hx] at hc
        exact hown₁ hc
    · have htable := hd x hx'
      rw [hx] at htable
      exact h.volume.not_table hn.data htable

/-- A partition with an empty file in every slot. -/
def emptyFile : Fs :=
  { blankFs 0 4096 (fun _ => false) with
    part := { (blankFs 0 4096 (fun _ => false)).part with
      sb := formatSb 0 4096
      blockBitmap := bitmapSetRange ⟨512, fun _ => 0⟩ 0 true 1 }
    inode := fun _ => inodeInit 1
    home := fun _ => .kernel
    fileTable := fun _ => ⟨0, oRdwr, some 0⟩ }

theorem emptyFile_on : FileOn 0 3 0 emptyFile := by
  refine ⟨⟨rfl, Or.inl rfl⟩, ⟨⟨by decide, by decide⟩, by decide, by decide, by decide, by decide,
    fun k hk _ => ?_, by decide⟩, Or.inl ⟨rfl, fun _ _ => rfl⟩, fun n hn => ?_⟩
  · have hlen : emptyFile.part.blockBitmap.btmpBytesLen = 512 := rfl
    have hdata : emptyFile.part.sb.dataStartLba = 612 := by decide
    have hmax : maxLba = 163839 := rfl
    omega
  · exact absurd hn (NoBlocks.own ⟨rfl, fun _ _ => rfl⟩)

theorem emptyFile_free : freeCount emptyFile.part.blockBitmap = 4095 := by
  have h := freeCount_range (show 1 ≤ 512 * 8 by omega)
  show freeCount (bitmapSetRange ⟨512, fun _ => 0⟩ 0 true 1) = 4095
  omega

theorem emptyFile_syncs :
    SyncsTable (fun i => inodeSync i sectorSize) (emptyFile.inode 0).iNo emptyFile.part :=
  syncsTable_inodeSync emptyFile_on.volume (by decide)

/-- An empty file gets twelve full blocks, the table and a byte in a block of the
    table. -/
theorem file_write_appends_table : ∃ s', (fileWriteWith (fun i => inodeSync i sectorSize) 0 3
      (fun _ => 7) 6145).run emptyFile = .ok (6145, s') ∧
    FileOn 0 3 0 s' ∧ (s'.inode 0).iSize = 0 + 6145 ∧
    fileContents s'.disk (s'.inode 0) = fileContents emptyFile.disk (emptyFile.inode 0) ++
      (List.range 6145).map (fun _ => 7) ∧
    ∀ n, TakenBlock emptyFile.part n → ¬ OwnSector emptyFile.disk (emptyFile.inode 0) n →
      ∀ x, x / 512 = n → s'.disk x = emptyFile.disk x :=
  @file_write_appends 0 3 0 6145 (fun _ => 7) emptyFile _ emptyFile_on ⟨rfl, rfl⟩ emptyFile_syncs
    (by decide) (by rw [emptyFile_free]; decide) (Or.inr ⟨by decide, by decide⟩)

end Contents

end ForikOS
