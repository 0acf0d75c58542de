import ForikOS.Theory.FileCollect

/-!
# Writing the Data of a File

The second half of `file_write`: the loop over the data.

The loop takes the sector from the size of the file, which it moves on as it
writes. Only the first sector is read before it is written, so what a later
round does is right only because it starts at the beginning of a sector; that
is the invariant of the loop, and the last round may end anywhere. Where the
blocks are all different, a round does not touch what an earlier one wrote.

The loop is stated over `all_blocks`, and the file sees the same bytes as long
as `all_blocks` holds its addresses.

## Main definitions

* `Wrote`: The disk, the size of one file and one position have changed.
* `writeRound`: One round of the loop.

## Theorems

* `run_writeChunks`: The loop ends, and writes the sectors of the data only.
* `writeChunks_data`: It writes the data, and keeps what stood before it.
* `stops_writeChunks`: More data than the blocks hold.
-/

namespace ForikOS

open Prog

/-- The disk, the size of the inode at `a` and the position of slot `g` have
    changed, and the size has grown by `c`. -/
structure Wrote (a g c : Nat) (s s' : Fs) : Prop where
  rest : s' = { s with disk := s'.disk, inode := s'.inode, fileTable := s'.fileTable }
  inode : s'.inode = Function.update s.inode a
    { s.inode a with iSize := (s.inode a).iSize + c }
  file : s'.fileTable = Function.update s.fileTable g
    { s.fileTable g with fdPos := (s'.fileTable g).fdPos }

namespace Wrote

variable {a g c c' : Nat} {s s₁ s' : Fs}

theorem refl (a g : Nat) (s : Fs) : Wrote a g 0 s s :=
  ⟨rfl, (Function.update_eq_self a s.inode).symm, (Function.update_eq_self g s.fileTable).symm⟩

theorem trans (h : Wrote a g c s s₁) (h' : Wrote a g c' s₁ s') : Wrote a g (c + c') s s' := by
  refine ⟨?_, ?_, ?_⟩
  · rw [h'.rest, h.rest]
  · rw [h'.inode, h.inode]
    simp only [Function.update_self, Function.update_idem, Nat.add_assoc]
  · rw [h'.file, h.file]
    simp only [Function.update_self, Function.update_idem]

theorem part (h : Wrote a g c s s') : s'.part = s.part := by
  rw [h.rest]

theorem iSize (h : Wrote a g c s s') : (s'.inode a).iSize = (s.inode a).iSize + c := by
  rw [h.inode, Function.update_self]

theorem iNo (h : Wrote a g c s s') : (s'.inode a).iNo = (s.inode a).iNo := by
  rw [h.inode, Function.update_self]

theorem iSectors (h : Wrote a g c s s') : (s'.inode a).iSectors = (s.inode a).iSectors := by
  rw [h.inode, Function.update_self]

theorem fileAt (h : Wrote a g c s s') {t : Nat} (hat : FileAt t g a s) : FileAt t g a s' := by
  refine ⟨?_, ?_⟩
  · rw [h.file, Function.update_self]
    exact hat.slot
  · rw [h.rest]
    exact hat.sees

end Wrote

/-- One round of the loop of `file_write` over the data: the number of bytes it
    writes. -/
def writeRound (t g : Nat) (src : Nat → Byte) (count : Nat) (all : Nat → Nat) (bytesWritten : Nat)
    (firstWriteBlock : Bool) : FsM Nat := do
  let (_, i) ← fileInode t g
  Prog.check (i.iSize / sectorSize < 140) .wild
  let chunkSize := min (count - bytesWritten) (sectorSize - i.iSize % sectorSize)
  let buf ← chunkBuf (all (i.iSize / sectorSize)) firstWriteBlock
  ideWrite (all (i.iSize / sectorSize)) 1
    (memcpyTo buf (i.iSize % sectorSize) chunkSize (fun k => src (bytesWritten + k)))
  let (a, _) ← fileInode t g
  setInodeAt a (fun i => { i with iSize := add32 i.iSize chunkSize })
  Prog.modify (fun s => s.setFile g
    { s.fileTable g with fdPos := add32 (s.fileTable g).fdPos chunkSize })
  pure chunkSize

section Rounds

variable {t g a count : Nat} {src : Nat → Byte} {all : Nat → Nat} {s : Fs}

theorem writeChunks_succ {w : Nat} (hw : w < count) (n : Nat) (first : Bool) :
    writeChunks t g src count all (n + 1) w first =
      writeRound t g src count all w first >>= fun c =>
        writeChunks t g src count all n (w + c) false := by
  rw [writeChunks, if_pos hw, writeRound]
  simp only [bind_assoc, pure_bind]

theorem writeChunks_done {w : Nat} (hw : ¬ w < count) (n : Nat) (first : Bool) :
    writeChunks t g src count all n w first = pure () := by
  cases n with
  | zero => rfl
  | succ n => rw [writeChunks, if_neg hw]

theorem run_chunkBuf {lba : Nat} (hlba : lba ≤ maxLba) (first : Bool) (s : Fs) :
    (chunkBuf lba first).run s =
      .ok (if first = true then sectors s.disk lba 1 else fun _ => 0, s) := by
  cases first with
  | true => exact run_ideRead hlba (by omega) s
  | false => rfl

/-- What a round does: it ends at the end of the data or of a sector. -/
theorem run_writeRound (src : Nat → Byte) (hat : FileAt t g a s) (hall : ∀ k, all k ≤ maxLba)
    (hsize : (s.inode a).iSize / 512 < 140) {w : Nat} (hw : w < count) (first : Bool) :
    ∃ c s₁, (writeRound t g src count all w first).run s = .ok (c, s₁) ∧
      c = min (count - w) (512 - (s.inode a).iSize % 512) ∧ Wrote a g c s s₁ ∧
      ∀ x, s₁.disk x = if x / 512 = all ((s.inode a).iSize / 512) then
        (if (s.inode a).iSize % 512 ≤ x % 512 ∧ x % 512 < (s.inode a).iSize % 512 + c then
          src (w + (x % 512 - (s.inode a).iSize % 512))
        else if first = true then s.disk x else 0) else s.disk x := by
  generalize hm : (s.inode a).iSize = m at hsize
  generalize hc : min (count - w) (512 - m % 512) = c
  let buf : Nat → Byte := if first = true then sectors s.disk (all (m / 512)) 1 else fun _ => 0
  let data : Nat → Byte := memcpyTo buf (m % 512) c (fun k => src (w + k))
  let s₁ := s.setDisk (all (m / 512) * sectorSize) (1 * sectorSize) data
  let s₂ := s₁.setInode a { s₁.inode a with iSize := add32 (s₁.inode a).iSize c }
  let s₃ := s₂.setFile g { s₂.fileTable g with fdPos := add32 (s₂.fileTable g).fdPos c }
  have hsum : add32 m c = m + c := by
    rw [add32, Nat.mod_eq_of_lt (by omega)]
  refine ⟨c, s₃, ?_, rfl, ⟨rfl, ?_, ?_⟩, fun x => ?_⟩
  · -- The run of the round, up to the chunk it returns.
    rw [writeRound, run_bind_of (run_fileInode hat)]
    show ((Prog.check ((s.inode a).iSize / 512 < 140) FsFault.wild : FsM Unit) >>= _).run s = _
    rw [hm, run_bind_of (run_check_pos hsize s), run_bind_of (run_chunkBuf (hall _) first s),
      run_bind_of (run_ideWrite (hall _) (by omega) _ s)]
    have hdata : memcpyTo (if first = true then sectors s.disk (all (m / sectorSize)) 1
        else fun _ => 0) (m % sectorSize) (min (count - w) (sectorSize - m % sectorSize))
        (fun k => src (w + k)) = data := by
      show memcpyTo buf (m % 512) (min (count - w) (512 - m % 512)) (fun k => src (w + k)) = data
      rw [hc]
    rw [hdata]
    have hat₁ : FileAt t g a s₁ := ⟨hat.slot, hat.sees⟩
    show (fileInode t g >>= _).run s₁ = _
    rw [run_bind_of (run_fileInode hat₁)]
    have hmin : min (count - w) (sectorSize - m % sectorSize) = c := hc
    show Except.ok (min (count - w) (sectorSize - m % sectorSize), _) = _
    rw [hmin]
  · show Function.update s.inode a { s.inode a with iSize := add32 (s.inode a).iSize c } = _
    rw [hm, hsum]
  · show Function.update s.fileTable g _ =
      Function.update s.fileTable g
        { s.fileTable g with fdPos := (Function.update s.fileTable g _ g).fdPos }
    rw [Function.update_self]
    rfl
  · show (s.setDisk (all (m / 512) * sectorSize) (1 * sectorSize) data).disk x = _
    rw [setDisk_sector]
    -- Inside the sector: the chunk, and around it what the buffer held.
    by_cases hx : x / 512 = all (m / 512)
    · rw [if_pos hx, if_pos hx]
      show (if m % 512 ≤ x % 512 ∧ x % 512 < m % 512 + c then src (w + (x % 512 - m % 512))
        else buf (x % 512)) = _
      refine if_congr Iff.rfl rfl ?_
      show (if first = true then sectors s.disk (all (m / 512)) 1 else fun _ => 0) (x % 512) = _
      cases first with
      | true =>
          show (if x % 512 < 1 * 512 then s.disk (all (m / 512) * 512 + x % 512) else 0) = s.disk x
          rw [if_pos (by omega), show all (m / 512) * 512 + x % 512 = x by omega]
      | false => rfl
    · rw [if_neg hx, if_neg hx]

end Rounds

section Loop

variable {t g a : Nat} {src : Nat → Byte} {all : Nat → Nat}

/-- While the blocks hold the data the loop ends, and it writes the sectors of
    the data only. -/
theorem run_writeChunks (src : Nat → Byte) (hall : ∀ k, all k ≤ maxLba) (count n : Nat) :
    ∀ (s : Fs) (w : Nat) (first : Bool), FileAt t g a s → w ≤ count → count ≤ w + n →
    (s.inode a).iSize + (count - w) ≤ 71680 →
    ∃ s', (writeChunks t g src count all n w first).run s = .ok ((), s') ∧
      Wrote a g (count - w) s s' ∧
      ∀ x, s'.disk x ≠ s.disk x → ∃ p, (s.inode a).iSize ≤ p ∧
        p < (s.inode a).iSize + (count - w) ∧ x / 512 = all (p / 512) := by
  induction n with
  | zero =>
      intro s w first hat hle hfuel hsize
      rw [show count - w = 0 by omega]
      exact ⟨s, rfl, Wrote.refl a g s, fun x hx => absurd rfl hx⟩
  | succ n ih =>
      intro s w first hat hle hfuel hsize
      by_cases hw : w < count
      · rcases run_writeRound src hat hall (by omega) hw first
          with ⟨c, s₁, hround, hc, hwrote, hdisk⟩
        have hsize₁ := hwrote.iSize
        rcases ih s₁ (w + c) false (hwrote.fileAt hat) (by omega) (by omega) (by omega)
          with ⟨s', hrun, hwrote', hframe⟩
        refine ⟨s', ?_, ?_, fun x hx => ?_⟩
        · rw [writeChunks_succ hw, run_bind_of hround, hrun]
        · rw [show count - w = c + (count - (w + c)) by omega]
          exact hwrote.trans hwrote'
        · -- the byte differs after this round or after a later one
          by_cases hx₁ : s'.disk x = s₁.disk x
          · refine ⟨(s.inode a).iSize, Nat.le_refl _, by omega, ?_⟩
            by_contra hne
            rw [hx₁, hdisk x, if_neg hne] at hx
            exact hx rfl
          · rcases hframe x hx₁ with ⟨p, hp, hp', hxp⟩
            exact ⟨p, by omega, by omega, hxp⟩
      · rw [writeChunks_done hw, show count - w = 0 by omega]
        exact ⟨s, rfl, Wrote.refl a g s, fun x hx => absurd rfl hx⟩

/-- Where the blocks are different the data is on the disk after the loop, and
    what stood before it in its first sector is kept. -/
theorem writeChunks_data (hall : ∀ k, all k ≤ maxLba) (count n : Nat) :
    ∀ (s s' : Fs) (w : Nat) (first : Bool), FileAt t g a s → w ≤ count → count ≤ w + n →
    (s.inode a).iSize + (count - w) ≤ 71680 →
    (∀ p q, (s.inode a).iSize ≤ p → p < (s.inode a).iSize + (count - w) → (s.inode a).iSize ≤ q →
      q < (s.inode a).iSize + (count - w) → all (p / 512) = all (q / 512) → p / 512 = q / 512) →
    first = true ∨ (s.inode a).iSize % 512 = 0 ∨ w = count →
    (writeChunks t g src count all n w first).run s = .ok ((), s') →
    ∀ p, (s.inode a).iSize / 512 ≤ p / 512 → p < (s.inode a).iSize + (count - w) →
      s'.disk (all (p / 512) * 512 + p % 512) =
        if p < (s.inode a).iSize then s.disk (all (p / 512) * 512 + p % 512)
        else src (w + (p - (s.inode a).iSize)) := by
  -- The induction is on the fuel. A byte is either in the sector of this round
  -- or in that of a later one.
  induction n with
  | zero =>
      intro s s' w first hat hle hfuel hsize hdist hfirst hrun p hp hp'
      rw [writeChunks_done (by omega)] at hrun
      rcases pure_ok hrun with ⟨-, rfl⟩
      rw [if_pos (by omega)]
  | succ n ih =>
      intro s s' w first hat hle hfuel hsize hdist hfirst hrun p hp hp'
      by_cases hw : w < count
      · rcases run_writeRound src hat hall (by omega) hw first
          with ⟨c, s₁, hround, hc, hwrote, hdisk⟩
        have hsize₁ := hwrote.iSize
        have hat₁ := hwrote.fileAt hat
        rw [writeChunks_succ hw, run_bind_of hround] at hrun
        by_cases hpc : p < (s.inode a).iSize + c
        · -- this round's sector: no later round goes there
          have hkeep : s'.disk (all (p / 512) * 512 + p % 512) =
              s₁.disk (all (p / 512) * 512 + p % 512) := by
            rcases run_writeChunks (t := t) (g := g) (a := a) src hall count n s₁ (w + c)
              false hat₁ (by omega) (by omega) (by omega) with ⟨s'', hrun'', -, hframe⟩
            rw [hrun, Except.ok.injEq, Prod.mk.injEq] at hrun''
            by_contra hne
            rw [hrun''.2] at hne
            rcases hframe _ hne with ⟨q, hq, hq', hpq⟩
            have hsame := hdist (s.inode a).iSize q (Nat.le_refl _) (by omega) (by omega) (by omega)
              (by rw [show (s.inode a).iSize / 512 = p / 512 by omega]; omega)
            omega
          rw [hkeep, hdisk, if_pos (by rw [show p / 512 = (s.inode a).iSize / 512 by omega]; omega)]
          rw [show (all (p / 512) * 512 + p % 512) % 512 = p % 512 by omega]
          by_cases hps : p < (s.inode a).iSize
          · have hfirst' : first = true := by
              rcases hfirst with h | h | h
              · exact h
              · omega
              · omega
            rw [if_pos hps, if_neg (by omega), if_pos hfirst']
          · rw [if_neg hps, if_pos (by omega)]
            congr 2
            omega
        · have hrest := ih s₁ s' (w + c) false hat₁ (by omega) (by omega) (by omega)
            (fun p q h1 h2 h3 h4 => hdist p q (by omega) (by omega) (by omega) (by omega))
            (by omega) hrun p (by omega) (by omega)
          rw [hrest, if_neg (by omega), if_neg (by omega), hsize₁]
          congr 1
          omega
      · rw [writeChunks_done hw] at hrun
        rcases pure_ok hrun with ⟨-, rfl⟩
        rw [if_pos (by omega)]

/-- When there is more data than the blocks hold, the loop goes on to a block
    that is none of the file's. -/
theorem stops_writeChunks (src : Nat → Byte) (hall : ∀ k, all k ≤ maxLba) (count n : Nat) :
    ∀ (s : Fs) (w : Nat) (first : Bool), FileAt t g a s → w ≤ count → count ≤ w + n →
    (s.inode a).iSize ≤ 71680 → 71680 < (s.inode a).iSize + (count - w) →
    ∃ s', Stops (writeChunks t g src count all n w first) s .wild s' ∧
      (s'.inode a).iSize = 71680 := by
  induction n with
  | zero =>
      intro s w first hat hle hfuel hsize hmore
      omega
  | succ n ih =>
      intro s w first hat hle hfuel hsize hmore
      have hw : w < count := by omega
      rw [writeChunks_succ hw]
      by_cases hfull : (s.inode a).iSize / 512 < 140
      · rcases run_writeRound src hat hall hfull hw first
          with ⟨c, s₁, hround, hc, hwrote, -⟩
        have hsize₁ := hwrote.iSize
        rcases ih s₁ (w + c) false (hwrote.fileAt hat) (by omega) (by omega) (by omega) (by omega)
          with ⟨s', hstop, hsize'⟩
        exact ⟨s', stops_bind_of hround hstop, hsize'⟩
      · exact ⟨s, stops_bind (stops_bind_of (run_fileInode hat) (stops_bind (stops_check hfull s))),
          by omega⟩

end Loop

end ForikOS
