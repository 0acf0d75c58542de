import ForikOS.Theory.OpenInodes

/-!
# The Table of Inodes on the Disk

`inode_sync` writes a record of the table, `inode_open` reads one, and
`inode_delete` clears one. A record has 76 bytes, so it may lie across two
sectors, and all three transfer whole sectors: what they write back around the
record is what they have read.

`inode_open` and `inode_delete` take the number of the record in 32 bits, and
`inode_sync` in eight. An inode with a number from 256 on is written over the
record of another.

## Main definitions

* `TableFits`: The table lies in the partition, and the partition on the disk.
* `Fits32`: The fields of an inode are words.
* `RoundTrips`: What is synced is what is opened later, and no other record
  changes.
* `Deletes`: The record is cleared, and nothing else.

## Theorems

* `setDisk_patch`: Whole sectors read, changed and written back.
* `inodeSync_disk`, `inodeDelete_disk`: What the two write.
* `inodeOpen_record`: What `inode_open` reads.
* `inode_table_round_trip`: The records up to 255 keep what they are given,
  and no others.
-/

namespace ForikOS

open Prog

/-- The table of inodes lies in the partition, and the partition on the
    disk. -/
structure TableFits (p : Partition) : Prop where
  inPart : p.sb.inodeTableLba + 608 ≤ p.startLba + p.secCnt
  onDisk : p.startLba + p.secCnt ≤ maxLba + 1

/-- The fields of an inode that go to the disk are words. -/
structure Fits32 (i : Inode) : Prop where
  iNo : i.iNo < 2 ^ 32
  iSize : i.iSize < 2 ^ 32
  iSectors : ∀ k, k < 13 → i.iSectors k < 2 ^ 32

section Bytes

/-- A word that is put together from its bytes. -/
theorem le32_byteOf {b : Nat → Byte} {off w : Nat} (h : ∀ j, j < 4 → b (off + j) = byteOf w j) :
    le32 b off = w % 2 ^ 32 := by
  have h0 : b off = byteOf w 0 := h 0 (by omega)
  rw [le32, h0, h 1 (by omega), h 2 (by omega), h 3 (by omega)]
  simp only [byteOf, BitVec.toNat_ofNat, Nat.pow_zero, Nat.div_one, Nat.pow_one]
  omega

/-- Word `w` of a record that has been written. -/
theorem le32_record (disk : Nat → Byte) (off : Nat) {w : Nat} (i : Inode) (hw : w < 19) :
    le32 (memcpyTo disk off inodeSize (inodeBytes i)) (off + 4 * w) = inodeWord i w % 2 ^ 32 := by
  refine le32_byteOf (fun j hj => ?_)
  have hsize : inodeSize = 76 := rfl
  rw [memcpyTo, if_pos (by omega)]
  have hoff : off + 4 * w + j - off = 4 * w + j := by omega
  have hdiv : (4 * w + j) / 4 = w := by omega
  have hmod : (4 * w + j) % 4 = j := by omega
  rw [hoff, inodeBytes, hdiv, hmod]

/-- A record that has been written is read back, but for the count and the
    flag. -/
theorem decodeInode_record {disk : Nat → Byte} {off : Nat} {i : Inode} (hi : Fits32 i) :
    SameFile (decodeInode (memcpyTo disk off inodeSize (inodeBytes i)) off)
      { i with writeDeny := false } := by
  refine ⟨?_, ?_, ?_, fun k hk => ?_⟩
  · have h := le32_record disk off i (show 0 < 19 by omega)
    exact h.trans (Nat.mod_eq_of_lt hi.iNo)
  · have h := le32_record disk off i (show 1 < 19 by omega)
    exact h.trans (Nat.mod_eq_of_lt hi.iSize)
  · have h := le32_record disk off i (show 3 < 19 by omega)
    exact decide_eq_false (not_not.mpr h)
  · have h := le32_record disk off i (show k + 4 < 19 by omega)
    have hoff : off + 4 * (k + 4) = off + 16 + 4 * k := by omega
    have hword : inodeWord i (k + 4) = i.iSectors k := by
      rw [inodeWord, if_neg (by omega), if_neg (by omega), if_pos (by omega), Nat.add_sub_cancel]
    rw [hoff, hword] at h
    exact h.trans (Nat.mod_eq_of_lt (hi.iSectors k hk))

/-- Sectors that are read, changed in the middle and written back: only the
    middle changes. -/
theorem setDisk_patch (s : Fs) {lba n off len : Nat} (src : Nat → Byte)
    (hfit : off + len ≤ n * sectorSize) :
    s.setDisk (lba * sectorSize) (n * sectorSize)
        (memcpyTo (sectors s.disk lba n) off len src) =
      s.setDisk (lba * sectorSize + off) len src := by
  have hdisk : memcpyTo s.disk (lba * sectorSize) (n * sectorSize)
      (memcpyTo (sectors s.disk lba n) off len src) =
      memcpyTo s.disk (lba * sectorSize + off) len src := by
    funext x
    by_cases hin : lba * sectorSize ≤ x ∧ x < lba * sectorSize + n * sectorSize
    · rw [memcpyTo, if_pos hin]
      by_cases hmid : lba * sectorSize + off ≤ x ∧ x < lba * sectorSize + off + len
      · rw [memcpyTo, memcpyTo, if_pos (by omega), if_pos hmid, Nat.sub_add_eq]
      · have hback : lba * sectorSize + (x - lba * sectorSize) = x := by omega
        rw [memcpyTo, memcpyTo, if_neg (by omega), if_neg hmid, sectors, if_pos (by omega), hback]
    · rw [memcpyTo, if_neg hin, memcpyTo, if_neg (by omega)]
  rw [Fs.setDisk, Fs.setDisk, hdisk]

end Bytes

section Table

variable {s s' : Fs} {n : Nat}

/-- Where a record of the table starts. -/
theorem inodeOff_eq (h : TableFits s.part) (hn : n < 4096) :
    inodeOff s.part.sb n = s.part.sb.inodeTableLba * 512 + n * 76 := by
  have hin := h.inPart
  have hon := h.onDisk
  have hmax : maxLba = 163839 := rfl
  have hsec : sectorSize = 512 := rfl
  have hsize : inodeSize = 76 := rfl
  rw [inodeOff, add32, hsec, hsize]
  omega

/-- The sectors of a record hold the whole record, and they are there. -/
theorem inodePos_fits (h : TableFits s.part) (hn : n < 4096) :
    (inodePos s.part.sb n).offSize + inodeSize ≤ (inodePos s.part.sb n).sects * sectorSize ∧
      (inodePos s.part.sb n).sects * sectorSize ≤ 1024 ∧ 0 < (inodePos s.part.sb n).sects ∧
      (inodePos s.part.sb n).secLba ≤ add32 s.part.startLba s.part.secCnt ∧
      (inodePos s.part.sb n).secLba ≤ maxLba ∧
      (inodePos s.part.sb n).secLba * sectorSize + (inodePos s.part.sb n).offSize =
        inodeOff s.part.sb n := by
  have hin := h.inPart
  have hon := h.onDisk
  have hmax : maxLba = 163839 := rfl
  have hsec : sectorSize = 512 := rfl
  have hsize : inodeSize = 76 := rfl
  have hlba : (inodePos s.part.sb n).secLba = add32 s.part.sb.inodeTableLba (n * 76 / 512) := rfl
  have hoff : (inodePos s.part.sb n).offSize = n * 76 % 512 := rfl
  have hsects : (inodePos s.part.sb n).sects =
      if decide (512 - n * 76 % 512 < 76) = true then 2 else 1 := rfl
  -- The last of 4096 records.
  have hlast : n * 76 / 512 ≤ 607 := by omega
  generalize n * 76 / 512 = q at hlba hlast
  refine ⟨?_, ?_, ?_, ?_, ?_, rfl⟩
  · -- A record that does not fit into the rest of its sector takes two.
    rw [hsects, hoff, hsec, hsize]
    split <;> rename_i hc <;> simp only [decide_eq_true_eq] at hc <;> omega
  · rw [hsects, hsec]
    split <;> omega
  · rw [hsects]
    split <;> omega
  · rw [hlba, add32, add32]
    omega
  · rw [hlba, add32]
    omega

/-- Two records do not overlap. -/
theorem inodeOff_apart {m : Nat} (h : TableFits s.part) (hn : n < 4096) (hm : m < 4096)
    (hne : m ≠ n) {k : Nat} (hk : k < 76) :
    ¬ (inodeOff s.part.sb n ≤ inodeOff s.part.sb m + k ∧
      inodeOff s.part.sb m + k < inodeOff s.part.sb n + inodeSize) := by
  have hsize : inodeSize = 76 := rfl
  rw [inodeOff_eq h hn, inodeOff_eq h hm, hsize]
  omega

/-- `inode_sync` with a buffer its record fits in. -/
theorem inodeSync_record {i : Inode} {bufSize : Nat} (h : TableFits s.part)
    (hbuf : (inodePos s.part.sb (i.iNo % 256)).sects * sectorSize ≤ bufSize) :
    (inodeSync i bufSize).run s =
      .ok ((), s.setDisk (inodeOff s.part.sb (i.iNo % 256)) inodeSize (inodeBytes i)) := by
  have hn : i.iNo % 256 < 4096 := by omega
  rcases inodePos_fits h hn with ⟨hfit, -, hpos, hpart, hdisk, hoff⟩
  rw [inodeSync, run_bind_of (run_inodeLocate hn s), run_bind_of (run_read _ s),
    run_bind_of (run_assert hpart s), run_bind_of (run_check_pos hbuf s),
    run_bind_of (run_ideRead hdisk hpos s), run_ideWrite hdisk hpos, setDisk_patch s _ hfit, hoff]

/-- `inode_sync` with a buffer its record does not fit in. -/
theorem stops_inodeSync {i : Inode} {bufSize : Nat} (h : TableFits s.part)
    (hbuf : ¬ (inodePos s.part.sb (i.iNo % 256)).sects * sectorSize ≤ bufSize) :
    Stops (inodeSync i bufSize) s .wild s := by
  have hn : i.iNo % 256 < 4096 := by omega
  rcases inodePos_fits h hn with ⟨-, -, -, hpart, -, -⟩
  exact stops_bind_of (run_inodeLocate hn s) (stops_bind_of (run_read _ s)
    (stops_bind_of (run_assert hpart s) (stops_bind (stops_check hbuf s))))

/-- `inode_sync` writes the record with the lowest eight bits of the number. -/
theorem inodeSync_disk {i : Inode} {bufSize : Nat} (h : TableFits s.part) (hbuf : 1024 ≤ bufSize) :
    (inodeSync i bufSize).run s =
      .ok ((), s.setDisk (inodeOff s.part.sb (i.iNo % 256)) inodeSize (inodeBytes i)) := by
  rcases inodePos_fits h (show i.iNo % 256 < 4096 by omega) with ⟨-, hsmall, -⟩
  exact inodeSync_record h (Nat.le_trans hsmall hbuf)

/-- `inode_delete` clears the record with the number. -/
theorem inodeDelete_disk (h : TableFits s.part) (hn : n < 4096) :
    (inodeDelete n).run s = .ok ((), s.setDisk (inodeOff s.part.sb n) inodeSize (fun _ => 0)) := by
  rcases inodePos_fits h hn with ⟨hfit, -, hpos, hpart, hdisk, hoff⟩
  rw [inodeDelete, run_bind_of (run_assert hn s), run_bind_of (run_inodeLocate hn s),
    run_bind_of (run_read _ s), run_bind_of (run_assert hpart s),
    run_bind_of (run_ideRead hdisk hpos s), run_ideWrite hdisk hpos, setDisk_patch s _ hfit, hoff]

/-- The loop of `inode_open` finds the first inode with the number. -/
theorem run_findOpenInode {t : Nat} {l : List Nat} (h : ∀ a, a ∈ l → s.Sees t a) :
    (findOpenInode t n l).run s = .ok (l.find? (fun a => decide ((s.inode a).iNo = n)), s) := by
  induction l with
  | nil => rfl
  | cons b l ih =>
      rw [findOpenInode, run_bind_of (run_inodeAt (h b List.mem_cons_self))]
      by_cases hb : (s.inode b).iNo = n
      · rw [if_pos hb, List.find?_cons_of_pos]
        · rfl
        · exact decide_eq_true hb
      · rw [if_neg hb, ih (fun a ha => h a (List.mem_cons_of_mem b ha)), List.find?_cons_of_neg]
        rw [decide_eq_true_eq]
        exact hb

/-- `inode_open` of an inode that is not in the list returns what its record
    says. -/
theorem inodeOpen_record {t : Nat} (h : TableFits s.part) (hn : n < 4096)
    (hlist : ∀ a, a ∈ s.part.openInodes → s.Sees t a ∧ (s.inode a).iNo ≠ n)
    (hmem : s.mallocs 0 = true ∧ s.mallocs 1 = true) :
    ∃ a s', (inodeOpen t n).run s = .ok (a, s') ∧ SameFile (s'.inode a) (diskInode s n) ∧
      (s'.inode a).iOpenCnts = 1 := by
  rcases inodePos_fits h hn with ⟨-, -, hpos, -, hdisk, -⟩
  -- Nothing of `inode_fetch` fails: the record is inside the table and there is memory.
  have hrun : ∃ r, (inodeFetch n).run s = .ok r := by
    rw [inodeFetch, run_bind_of (run_inodeLocate hn s), run_bind_of (run_mallocUnchecked hmem.1),
      run_bind_of (run_newInode _ _), run_bind_of (run_mallocUnchecked hmem.2),
      run_bind_of (run_ideRead hdisk hpos _)]
    exact ⟨_, rfl⟩
  rcases hrun with ⟨⟨a, s'⟩, hfetch⟩
  rcases inodeFetch_run hfetch with ⟨-, -, i, hsame, hone, hq⟩
  have hi : s'.inode a = i := by
    unfold Quiet at hq
    rw [hq]
    exact Function.update_self a i s.inode
  refine ⟨a, s', ?_, ?_, ?_⟩
  · -- The number is not open, so the record is read from the disk.
    have hnone : s.part.openInodes.find? (fun a => decide ((s.inode a).iNo = n)) = none := by
      refine List.find?_eq_none.mpr (fun a ha => ?_)
      rw [decide_eq_true_eq]
      exact (hlist a ha).2
    rw [inodeOpen, run_bind_of (run_read _ s),
      run_bind_of (run_findOpenInode (fun a ha => (hlist a ha).1)), hnone]
    exact hfetch
  · rw [hi]
    exact hsame
  · rw [hi]
    exact hone

end Table

/-- What `inode_sync` writes for an inode with number `n` is what a later
    `inode_open` of `n` reads, whatever has happened in memory since then, and
    no other record of the table has changed. The inode is not in the list of
    open inodes any more, and there is memory for it. -/
def RoundTrips (n : Nat) : Prop :=
  ∀ (s : Fs) (i : Inode) (bufSize : Nat), TableFits s.part → Fits32 i → i.iNo = n →
    1024 ≤ bufSize → ∃ s₁, (inodeSync i bufSize).run s = .ok ((), s₁) ∧
      (∀ m k, m < 4096 → m ≠ n → k < inodeSize →
        s₁.disk (inodeOff s.part.sb m + k) = s.disk (inodeOff s.part.sb m + k)) ∧
      ∀ (t : Nat) (s₂ : Fs), s₂.disk = s₁.disk → s₂.part.sb = s₁.part.sb → TableFits s₂.part →
        (∀ a, a ∈ s₂.part.openInodes → s₂.Sees t a ∧ (s₂.inode a).iNo ≠ n) →
        s₂.mallocs 0 = true ∧ s₂.mallocs 1 = true →
        ∃ a s₃, (inodeOpen t n).run s₂ = .ok (a, s₃) ∧ (s₃.inode a).iNo = n ∧
          (s₃.inode a).iSize = i.iSize ∧ (∀ k, k < 13 → (s₃.inode a).iSectors k = i.iSectors k) ∧
          (s₃.inode a).iOpenCnts = 1 ∧ (s₃.inode a).writeDeny = false

/-- `inode_delete` clears record `n`, and not one byte beside it. -/
def Deletes (n : Nat) : Prop :=
  ∀ s : Fs, TableFits s.part → ∃ s₁, (inodeDelete n).run s = .ok ((), s₁) ∧
    ∀ x, s₁.disk x = if inodeOff s.part.sb n ≤ x ∧ x < inodeOff s.part.sb n + inodeSize then 0
      else s.disk x

section RoundTrip

variable {n : Nat}

theorem deletes (hn : n < 4096) : Deletes n := by
  intro s h
  exact ⟨_, inodeDelete_disk h hn, fun _ => rfl⟩

/-- A number of eight bits survives. -/
theorem roundTrips_of_lt (hn : n < 256) : RoundTrips n := by
  intro s i bufSize h hi hno hbuf
  refine ⟨_, inodeSync_disk h hbuf, ?_, ?_⟩
  · intro m k hm hne hk
    have hself : i.iNo % 256 = n := by omega
    rw [hself]
    exact if_neg (inodeOff_apart h (by omega) hm hne hk)
  · intro t s₂ hdisk hsb hfits hlist hmem
    rcases inodeOpen_record hfits (by omega) hlist hmem with ⟨a, s₃, hrun, hsame, hone⟩
    have hrec : diskInode s₂ n = decodeInode (memcpyTo s.disk (inodeOff s.part.sb n) inodeSize
        (inodeBytes i)) (inodeOff s.part.sb n) := by
      have hself : i.iNo % 256 = n := by omega
      rw [diskInode, hdisk, hsb, hself]
      rfl
    rw [hrec] at hsame
    have hfile := hsame.trans (decodeInode_record hi)
    exact ⟨a, s₃, hrun, hfile.iNo.trans hno, hfile.iSize, hfile.iSectors, hone, hfile.writeDeny⟩

/-- An empty partition with room for the table. -/
def emptyPart : Fs := blankFs 0 4096 (fun _ => false)

theorem emptyPart_fits : TableFits emptyPart.part := ⟨by decide, by decide⟩

/-- An inode of size one. -/
def smallInode (n : Nat) : Inode := ⟨n, 1, 0, false, fun _ => 0⟩

theorem smallInode_fits (hn : n < 2 ^ 32) : Fits32 (smallInode n) :=
  ⟨hn, by show 1 < 2 ^ 32; omega, fun _ _ => by show 0 < 2 ^ 32; omega⟩

/-- From 256 on an inode is written over the record of another. -/
theorem not_roundTrips_of_le (hn : 256 ≤ n) (hword : n < 2 ^ 32) : ¬ RoundTrips n := by
  intro h
  rcases h emptyPart (smallInode n) 1024 emptyPart_fits (smallInode_fits hword) rfl (by omega)
    with ⟨s₁, hrun, hframe, -⟩
  have hsync : (inodeSync (smallInode n) 1024).run emptyPart = .ok ((), emptyPart.setDisk
      (inodeOff emptyPart.part.sb (n % 256)) inodeSize (inodeBytes (smallInode n))) :=
    inodeSync_disk emptyPart_fits (Nat.le_refl _)
  rw [hsync, Except.ok.injEq, Prod.mk.injEq] at hrun
  -- The size is in byte 4 of the other record, where there was a zero.
  have hother := hframe (n % 256) 4 (by omega) (by omega) (by decide)
  rw [← hrun.2] at hother
  have hsize : inodeSize = 76 := rfl
  have hwritten : (emptyPart.setDisk (inodeOff emptyPart.part.sb (n % 256)) inodeSize
      (inodeBytes (smallInode n))).disk (inodeOff emptyPart.part.sb (n % 256) + 4) = 1 := by
    show memcpyTo _ _ _ _ _ = _
    rw [memcpyTo, if_pos (by omega), Nat.add_sub_cancel_left]
    simp [inodeBytes, inodeWord, smallInode, byteOf]
  rw [hwritten] at hother
  cases hother

/-- The table keeps what it is given for the records up to 255, and for no
    others. -/
theorem inode_table_round_trip (n : Nat) (hn : n < 4096) :
    RoundTrips n ∧ Deletes n ↔ n < 256 := by
  constructor
  · intro h
    by_contra hc
    exact not_roundTrips_of_le (by omega) (by omega) h.1
  · intro hlt
    exact ⟨roundTrips_of_lt hlt, deletes hn⟩

/-- The record of inode 6 begins in one sector and ends in the next. -/
theorem inode_table_round_trip_straddling :
    ((inodeLocate 6).run emptyPart).toOption.map (·.1.twoSec) = some true ∧ RoundTrips 6 ∧ Deletes 6 :=
  ⟨by decide, (inode_table_round_trip 6 (by decide)).mpr (by decide)⟩

/-- Inode 256 is written over the record of the root directory. -/
theorem sync_over_root :
    ¬ (∀ n, n < 4096 → RoundTrips n ∧ Deletes n) ∧
      ∃ s₁, (inodeSync (smallInode 256) 1024).run emptyPart = .ok ((), s₁) ∧
        s₁.disk (inodeOff emptyPart.part.sb 0 + 4) ≠
          emptyPart.disk (inodeOff emptyPart.part.sb 0 + 4) := by
  refine ⟨fun h => not_roundTrips_of_le (by decide) (by decide) (h 256 (by decide)).1, ?_⟩
  exact ⟨_, inodeSync_disk emptyPart_fits (Nat.le_refl _), by decide⟩

end RoundTrip

end ForikOS
