import ForikOS.Core.IdeData

/-!
# Split Transfers

`ide_read` and `ide_write` split a request into commands of at most 256 sectors.
Together the commands move what one transfer of the whole request would: the
sectors from `lba` on, and the buffer from its beginning on.

A word at the data port is one step of `insw` or `outsw`, and a command is a run
of these as long as its sectors (`insw_run`, `outsw_run`). What the three places
make of the number of sectors is the same for every number from 1 to 256. The
loops are inductions on the rounds; what has been moved before a round is a
transfer from where the request begins, so that the next command continues it
(`memcpyTo_append`).

## Theorems

* `insw_run`, `outsw_run`: Words moved through the data port.
* `nextCommand_run`: What the registers say.
* `ideReadLoop_run`, `ideWriteLoop_run`: The loops.
* `ideReadData_run`, `ideWriteData_run`: The whole transfers.
* `split_eq_flat`: A split transfer is the flat one.
-/

namespace ForikOS

section Copy

variable {m src : Nat → Byte}

/-- A copy continues another. -/
theorem memcpyTo_append (m src : Nat → Byte) (off a b : Nat) :
    memcpyTo (memcpyTo m off a src) (off + a) b (fun k => src (a + k)) =
      memcpyTo m off (a + b) src := by
  funext x
  unfold memcpyTo
  by_cases h1 : off + a ≤ x ∧ x < off + a + b
  · rw [if_pos h1, if_pos (by omega)]
    dsimp only
    rw [show a + (x - (off + a)) = x - off by omega]
  · rw [if_neg h1]
    by_cases h2 : off ≤ x ∧ x < off + a
    · rw [if_pos h2, if_pos (by omega)]
    · rw [if_neg h2, if_neg (by omega)]

theorem memcpyTo_zero (m src : Nat → Byte) (off : Nat) : memcpyTo m off 0 src = m := by
  funext x
  exact if_neg (by omega)

/-- A word is a copy of two bytes. -/
theorem memcpyTo_two (m src : Nat → Byte) (off : Nat) :
    Function.update (Function.update m off (src 0)) (off + 1) (src 1) = memcpyTo m off 2 src := by
  funext x
  unfold memcpyTo
  by_cases h1 : x = off + 1
  · rw [h1, Function.update_self, if_pos (by omega), Nat.add_sub_cancel_left]
  · rw [Function.update_of_ne h1]
    by_cases h0 : x = off
    · rw [h0, Function.update_self, if_pos (by omega), Nat.sub_self]
    · rw [Function.update_of_ne h0, if_neg (by omega)]

/-- A byte of a sector that has been written. -/
theorem memcpyTo_sector {first n i k : Nat} (hi : i < n) (hk : k < 512) :
    memcpyTo m (512 * first) (512 * n) src (512 * (first + i) + k) = src (512 * i + k) := by
  have hlt : 512 * i + k < 512 * n := by omega
  rw [Nat.mul_add, Nat.add_assoc]
  unfold memcpyTo
  rw [if_pos ⟨Nat.le_add_right _ _, Nat.add_lt_add_left hlt _⟩, Nat.add_sub_cancel_left]

/-- A byte of another sector. -/
theorem memcpyTo_other {first n x : Nat}
    (hx : x / 512 < first ∨ first + n ≤ x / 512) :
    memcpyTo m (512 * first) (512 * n) src x = m x := by
  unfold memcpyTo
  rw [if_neg]
  omega

theorem memcpyTo_below {n x : Nat} (hx : x < n) :
    memcpyTo m 0 n src x = src x := by
  unfold memcpyTo
  rw [if_pos ⟨Nat.zero_le _, by omega⟩, Nat.sub_zero]

theorem memcpyTo_above {n x : Nat} (hx : n ≤ x) :
    memcpyTo m 0 n src x = m x := by
  unfold memcpyTo
  rw [if_neg]
  omega

end Copy

section Port

variable {c : IdeController}

/-- Words are read from the data port, as far as there are any. -/
theorem insw_run {n off : Nat} (hop : c.op = .read) (hn : n ≤ c.left) (buf : Nat → Byte) :
    c.insw n off buf = .ok ({ c with pos := c.pos + 2 * n, left := c.left - n },
      memcpyTo buf off (2 * n)
        (fun k => c.disks (IdeController.second c.regs) (c.pos + k))) := by
  induction n generalizing c off buf with
  | zero => rw [IdeController.insw, Nat.mul_zero, memcpyTo_zero, Nat.sub_zero, Nat.add_zero]
  | succ n ih =>
      have hword := memcpyTo_two buf
        (fun k => c.disks (IdeController.second c.regs) (c.pos + k)) off
      rw [Nat.add_zero] at hword
      rw [IdeController.insw, if_pos ⟨hop, by omega⟩]
      dsimp only
      rw [ih (c := { c with pos := c.pos + 2, left := c.left - 1 }) hop (Nat.le_sub_one_of_lt hn),
        hword]
      dsimp only
      rw [show 2 * (n + 1) = 2 + 2 * n by omega, ← memcpyTo_append, Nat.add_assoc c.pos 2,
        Nat.sub_sub, Nat.add_comm 1 n]
      simp only [Nat.add_assoc]

/-- Words are written to the data port, as far as there is room for them. -/
theorem outsw_run {n off : Nat} (hop : c.op = .write) (hn : n ≤ c.left) (buf : Nat → Byte) :
    c.outsw n off buf = .ok { c with
      disks := Function.update c.disks (IdeController.second c.regs)
        (memcpyTo (c.disks (IdeController.second c.regs)) c.pos (2 * n) (fun k => buf (off + k)))
      pos := c.pos + 2 * n
      left := c.left - n } := by
  induction n generalizing c off with
  | zero =>
      rw [IdeController.outsw, Nat.mul_zero, memcpyTo_zero, Nat.sub_zero, Nat.add_zero,
        Function.update_eq_self]
  | succ n ih =>
      have hword := memcpyTo_two (c.disks (IdeController.second c.regs))
        (fun k => buf (off + k)) c.pos
      rw [Nat.add_zero] at hword
      rw [IdeController.outsw, if_pos ⟨hop, by omega⟩]
      dsimp only
      rw [hword, ih (c := { c with
        disks := Function.update c.disks (IdeController.second c.regs)
          (memcpyTo (c.disks (IdeController.second c.regs)) c.pos 2 (fun k => buf (off + k)))
        pos := c.pos + 2
        left := c.left - 1 }) hop (Nat.le_sub_one_of_lt hn)]
      dsimp only
      rw [Function.update_self, Function.update_idem, show 2 * (n + 1) = 2 + 2 * n by omega,
        ← memcpyTo_append, Nat.add_assoc c.pos 2, Nat.sub_sub, Nat.add_comm 1 n]
      simp only [Nat.add_assoc]

end Port

section Registers

variable {c : IdeController} {j : IdeJob}

/-- The number of sectors as it arrives: 256 as 0, which stands for 256. -/
theorem count_register {n : UInt32} (h1 : 1 ≤ n.toNat) (h2 : n.toNat ≤ 256) :
    (if n.toUInt8 = 0 then 256 else n.toUInt8.toNat) = n.toNat := by
  have hlow : n.toUInt8.toNat = n.toNat % 256 := UInt32.toNat_toUInt8 n
  -- 256 does not fit into the register, and 0 is read as 256.
  by_cases h : n.toUInt8 = 0
  · rw [if_pos h]
    rw [h] at hlow
    have hz : (0 : UInt8).toNat = 0 := rfl
    omega
  · rw [if_neg h, hlow]
    have hne : n.toUInt8.toNat ≠ 0 := fun hc => h (UInt8.toNat_inj.mp hc)
    omega

theorem sizeInByte_eq {n : UInt32} (h1 : 1 ≤ n.toNat) (h2 : n.toNat ≤ 256) :
    sizeInByte n.toUInt8 / 2 = n.toNat * 256 := by
  have h := count_register h1 h2
  unfold sizeInByte
  by_cases h0 : n.toUInt8 = 0
  · rw [if_pos h0] at h ⊢
    omega
  · rw [if_neg h0] at h ⊢
    omega

/-- What `select_sector` writes to the registers. -/
theorem selectSector_run {r : IdeRegs} {devNo : UInt8} {lba n : UInt32} (hlba : lba.toNat ≤ maxLba)
    (h1 : 1 ≤ n.toNat) (h2 : n.toNat ≤ 256) :
    ∃ r', selectSector r devNo lba n = .ok r' ∧ IdeController.sectors r' = n.toNat ∧
      IdeController.lba r' = lba.toNat ∧ IdeController.second r' = decide (devNo = 1) := by
  have hmax : maxLba = 163839 := rfl
  -- No sector of the disk has one of the bits 24 to 27 in its address.
  have hdev : devBits devNo ||| (lba >>> 24).toUInt8 = devBits devNo := by
    have hz : lba >>> 24 = 0 := by
      refine UInt32.toNat_inj.mp ?_
      rw [UInt32.toNat_shiftRight, Nat.shiftRight_eq_div_pow]
      show lba.toNat / 2 ^ 24 = 0
      omega
    rw [hz]
    exact UInt8.or_zero
  have hl : lba.toUInt8.toNat = lba.toNat % 256 := UInt32.toNat_toUInt8 lba
  have hm : (lba >>> 8).toUInt8.toNat = lba.toNat / 256 % 256 := by
    rw [UInt32.toNat_toUInt8, UInt32.toNat_shiftRight, Nat.shiftRight_eq_div_pow]
    rfl
  have hh : (lba >>> 16).toUInt8.toNat = lba.toNat / 65536 % 256 := by
    rw [UInt32.toNat_toUInt8, UInt32.toNat_shiftRight, Nat.shiftRight_eq_div_pow]
    rfl
  have hbits : (devBits devNo).toNat % 16 = 0 ∧
      decide ((devBits devNo).toNat / 16 % 2 = 1) = decide (devNo = 1) := by
    unfold devBits
    by_cases hd : devNo = 1
    · rw [if_pos hd, decide_eq_true hd]
      decide
    · rw [if_neg hd, decide_eq_false hd]
      decide
  refine ⟨{ r with
    sectCnt := n.toUInt8
    lbaL := lba.toUInt8
    lbaM := (lba >>> 8).toUInt8
    lbaH := (lba >>> 16).toUInt8
    dev := devBits devNo ||| (lba >>> 24).toUInt8 }, ?_, count_register h1 h2, ?_, ?_⟩
  · rw [selectSector, ensure_pos hlba]
    rfl
  · show lba.toUInt8.toNat + 256 * (lba >>> 8).toUInt8.toNat + 65536 * (lba >>> 16).toUInt8.toNat +
      16777216 * ((devBits devNo ||| (lba >>> 24).toUInt8).toNat % 16) = lba.toNat
    rw [hdev, hl, hm, hh, hbits.1]
    omega
  · show decide ((devBits devNo ||| (lba >>> 24).toUInt8).toNat / 16 % 2 = 1) = _
    rw [hdev]
    exact hbits.2

end Registers

/-- A transfer that lies on the disk, before a round, with a controller that has
    nothing to do. -/
structure Between (j : IdeJob) (c : IdeController) : Prop where
  fits : j.lba.toNat + j.secCnt.toNat ≤ maxLba + 1
  done : j.secsDone.toNat ≤ j.secCnt.toNat
  idle : c.left = 0

section Rounds

variable {c : IdeController} {j : IdeJob}

/-- The disk of a transfer. -/
def IdeJob.second (j : IdeJob) : Bool := decide (j.devNo = 1)

/-- The next command is for as many of the sectors that are left as one command
    can be. -/
theorem secsOp_toNat (h : Between j c) (hlt : j.secsDone < j.secCnt) :
    1 ≤ (secsOp j).toNat ∧ (secsOp j).toNat ≤ 256 ∧
      j.secsDone.toNat + (secsOp j).toNat ≤ j.secCnt.toNat := by
  have hmax : maxLba = 163839 := rfl
  have hfits := h.fits
  have hdone := UInt32.lt_iff_toNat_lt.mp hlt
  have hadd : (j.secsDone + 256).toNat = j.secsDone.toNat + 256 := by
    rw [UInt32.toNat_add]
    show (j.secsDone.toNat + 256) % 2 ^ 32 = _
    omega
  have hc : (256 : UInt32).toNat = 256 := rfl
  unfold secsOp
  -- 256 sectors, or as many as are left.
  by_cases hle : j.secsDone + 256 ≤ j.secCnt
  · rw [if_pos hle]
    have := UInt32.le_iff_toNat_le.mp hle
    omega
  · rw [if_neg hle]
    have hnot : ¬ (j.secsDone + 256).toNat ≤ j.secCnt.toNat :=
      fun hc => hle (UInt32.le_iff_toNat_le.mpr hc)
    have hsub : (j.secCnt - j.secsDone).toNat = j.secCnt.toNat - j.secsDone.toNat :=
      UInt32.toNat_sub_of_le _ _ (UInt32.le_iff_toNat_le.mpr h.done)
    omega

theorem advance_toNat (h : Between j c) (hlt : j.secsDone < j.secCnt) :
    j.advance.secsDone.toNat = j.secsDone.toNat + (secsOp j).toNat := by
  have hmax : maxLba = 163839 := rfl
  have hfits := h.fits
  rcases secsOp_toNat h hlt with ⟨-, -, h3⟩
  rw [IdeJob.advance, UInt32.toNat_add]
  omega

theorem offset_eq (h : Between j c) : j.offset = 512 * j.secsDone.toNat := by
  have hmax : maxLba = 163839 := rfl
  have hfits := h.fits
  have hdone := h.done
  show (j.secsDone * 512).toNat = _
  rw [UInt32.toNat_mul]
  show j.secsDone.toNat * 512 % 2 ^ 32 = _
  omega

/-- The next command: the disk, the first sector and the number of sectors. -/
theorem nextCommand_run (h : Between j c) (hlt : j.secsDone < j.secCnt) :
    ∃ r, IdeController.second r = j.second ∧ nextCommand c j = .ok ⟨r, c.disks, j.op,
      512 * (j.lba.toNat + j.secsDone.toNat), (secsOp j).toNat * 256⟩ := by
  have hmax : maxLba = 163839 := rfl
  have hfits := h.fits
  rcases secsOp_toNat h hlt with ⟨h1, h2, h3⟩
  have hlba : (j.lba + j.secsDone).toNat = j.lba.toNat + j.secsDone.toNat := by
    rw [UInt32.toNat_add]
    omega
  have hthere : (j.lba + j.secsDone).toNat ≤ maxLba := by omega
  rcases @selectSector_run c.regs j.devNo _ _ hthere h1 h2 with ⟨r, hrun, hcount, haddr, hsecond⟩
  -- The command register comes last and starts the command.
  refine ⟨{ r with cmd := j.op.cmd }, hsecond, ?_⟩
  rw [nextCommand, hrun]
  dsimp only
  rw [IdeController.command, if_pos h.idle]
  have hcount' : IdeController.sectors { r with cmd := j.op.cmd } = (secsOp j).toNat := hcount
  have haddr' : IdeController.lba { r with cmd := j.op.cmd } =
      j.lba.toNat + j.secsDone.toNat := haddr.trans hlba
  dsimp only
  rw [hcount', haddr', Nat.mul_comm _ sectorSize]
  rfl

/-- The data of one command, read. -/
theorem readRound_run (h : Between j c) (hop : j.op = .read) (hlt : j.secsDone < j.secCnt)
    (buf : Nat → Byte) :
    ∃ c₁ c₂, nextCommand c j = .ok c₁ ∧ c₂.disks = c.disks ∧ c₂.left = 0 ∧
      readFromSector c₁ j.offset (secsOp j).toUInt8 buf = .ok (c₂,
        memcpyTo buf (512 * j.secsDone.toNat) (512 * (secsOp j).toNat)
          (fun k => c.disks j.second (512 * (j.lba.toNat + j.secsDone.toNat) + k))) := by
  rcases secsOp_toNat h hlt with ⟨h1, h2, -⟩
  rcases nextCommand_run h hlt with ⟨r, hsecond, hcmd⟩
  have hwords := @insw_run ⟨r, c.disks, j.op, 512 * (j.lba.toNat + j.secsDone.toNat),
    (secsOp j).toNat * 256⟩ _ j.offset hop (Nat.le_refl _) buf
  dsimp only at hwords
  rw [hsecond, offset_eq h, show 2 * ((secsOp j).toNat * 256) = 512 * (secsOp j).toNat by omega]
    at hwords
  refine ⟨_, ⟨r, c.disks, j.op, 512 * (j.lba.toNat + j.secsDone.toNat) + 512 * (secsOp j).toNat,
    (secsOp j).toNat * 256 - (secsOp j).toNat * 256⟩, hcmd, rfl, Nat.sub_self _, ?_⟩
  rw [readFromSector, sizeInByte_eq h1 h2, offset_eq h]
  exact hwords

/-- The data of one command, written. -/
theorem writeRound_run (h : Between j c) (hop : j.op = .write) (hlt : j.secsDone < j.secCnt)
    (buf : Nat → Byte) :
    ∃ c₁ c₂, nextCommand c j = .ok c₁ ∧ c₂.left = 0 ∧
      c₂.disks = Function.update c.disks j.second
        (memcpyTo (c.disks j.second) (512 * (j.lba.toNat + j.secsDone.toNat))
          (512 * (secsOp j).toNat) (fun k => buf (512 * j.secsDone.toNat + k))) ∧
      write2sector c₁ j.offset (secsOp j).toUInt8 buf = .ok c₂ := by
  rcases secsOp_toNat h hlt with ⟨h1, h2, -⟩
  rcases nextCommand_run h hlt with ⟨r, hsecond, hcmd⟩
  have hwords := @outsw_run ⟨r, c.disks, j.op, 512 * (j.lba.toNat + j.secsDone.toNat),
    (secsOp j).toNat * 256⟩ _ j.offset hop (Nat.le_refl _) buf
  dsimp only at hwords
  rw [hsecond, offset_eq h, show 2 * ((secsOp j).toNat * 256) = 512 * (secsOp j).toNat by omega]
    at hwords
  refine ⟨_, ⟨r, Function.update c.disks j.second
        (memcpyTo (c.disks j.second) (512 * (j.lba.toNat + j.secsDone.toNat))
          (512 * (secsOp j).toNat) (fun k => buf (512 * j.secsDone.toNat + k))), j.op,
    512 * (j.lba.toNat + j.secsDone.toNat) + 512 * (secsOp j).toNat,
    (secsOp j).toNat * 256 - (secsOp j).toNat * 256⟩, hcmd, Nat.sub_self _, rfl, ?_⟩
  rw [write2sector, sizeInByte_eq h1 h2, offset_eq h]
  exact hwords

/-- Between two rounds. -/
theorem Between.next {c' : IdeController} (h : Between j c) (hlt : j.secsDone < j.secCnt)
    (hidle : c'.left = 0) : Between j.advance c' where
  fits := h.fits
  done := by
    rw [advance_toNat h hlt]
    exact (secsOp_toNat h hlt).2.2
  idle := hidle

theorem secsDone_eq (h : Between j c) (hge : ¬ j.secsDone < j.secCnt) :
    j.secsDone.toNat = j.secCnt.toNat :=
  Nat.le_antisymm h.done (Nat.le_of_not_lt fun hc => hge (UInt32.lt_iff_toNat_lt.mpr hc))

end Rounds

section Loops

/-- The rest of `ide_read`: what is left of the request follows on what has been
    read. -/
theorem ideReadLoop_run {n : Nat} {j : IdeJob} {c : IdeController} {m : Nat → Byte}
    (h : Between j c) (hop : j.op = .read) (hn : j.secCnt.toNat - j.secsDone.toNat < n) :
    ∃ c', c'.disks = c.disks ∧ c'.left = 0 ∧
      ideReadLoop n j c (memcpyTo m 0 (512 * j.secsDone.toNat)
          (fun k => c.disks j.second (512 * j.lba.toNat + k))) =
        .ok (c', memcpyTo m 0 (512 * j.secCnt.toNat)
          (fun k => c.disks j.second (512 * j.lba.toNat + k))) := by
  -- There are more rounds than sectors left, as every round takes one.
  induction n generalizing j c with
  | zero => exact absurd hn (Nat.not_lt_zero _)
  | succ n ih =>
      rw [ideReadLoop]
      by_cases hlt : j.secsDone < j.secCnt
      · rw [if_pos hlt]
        rcases readRound_run h hop hlt (memcpyTo m 0 (512 * j.secsDone.toNat)
          (fun k => c.disks j.second (512 * j.lba.toNat + k))) with
          ⟨c₁, c₂, hcmd, hdisks, hidle, hread⟩
        have hadv := advance_toNat h hlt
        have hpos := (secsOp_toNat h hlt).1
        have hltn := UInt32.lt_iff_toNat_lt.mp hlt
        rcases ih (h.next hlt hidle) hop (by
          rw [hadv]
          show j.secCnt.toNat - _ < n
          omega) with ⟨c', hdisks', hidle', hloop⟩
        refine ⟨c', hdisks'.trans hdisks, hidle', ?_⟩
        rw [hcmd, ok_bind, hread, ok_bind]
        -- What was there and this command make one longer copy.
        have hcont := memcpyTo_append m (fun k => c.disks j.second (512 * j.lba.toNat + k)) 0
          (512 * j.secsDone.toNat) (512 * (secsOp j).toNat)
        simp only [Nat.zero_add, ← Nat.add_assoc, ← Nat.mul_add] at hcont
        rw [hcont, ← hadv, ← hdisks]
        exact hloop
      · rw [if_neg hlt, secsDone_eq h hlt]
        exact ⟨c, rfl, h.idle, rfl⟩

/-- The rest of `ide_write`: what is left of the request follows on what has been
    written to the disk `d`. -/
theorem ideWriteLoop_run {n : Nat} {j : IdeJob} {c : IdeController} {d : Nat → Byte}
    (h : Between j c) (hop : j.op = .write) (hn : j.secCnt.toNat - j.secsDone.toNat < n)
    (buf : Nat → Byte)
    (hdone : c.disks j.second = memcpyTo d (512 * j.lba.toNat) (512 * j.secsDone.toNat) buf) :
    ∃ c', c'.left = 0 ∧ ideWriteLoop n j c buf = .ok c' ∧
      c'.disks = Function.update c.disks j.second
        (memcpyTo d (512 * j.lba.toNat) (512 * j.secCnt.toNat) buf) := by
  induction n generalizing j c with
  | zero => exact absurd hn (Nat.not_lt_zero _)
  | succ n ih =>
      rw [ideWriteLoop]
      by_cases hlt : j.secsDone < j.secCnt
      · rw [if_pos hlt]
        rcases writeRound_run h hop hlt buf with ⟨c₁, c₂, hcmd, hidle, hdisks, hwrite⟩
        have hadv := advance_toNat h hlt
        have hpos := (secsOp_toNat h hlt).1
        have hltn := UInt32.lt_iff_toNat_lt.mp hlt
        -- The same on the side of the disk.
        have hdone' : c₂.disks j.second =
            memcpyTo d (512 * j.lba.toNat) (512 * j.advance.secsDone.toNat) buf := by
          rw [hdisks, Function.update_self, hdone, hadv, Nat.mul_add, Nat.mul_add,
            memcpyTo_append]
        rcases ih (h.next hlt hidle) hop (by
          rw [hadv]
          show j.secCnt.toNat - _ < n
          omega) hdone' with ⟨c', hidle', hloop, hdisks'⟩
        refine ⟨c', hidle', ?_, ?_⟩
        · rw [hcmd, ok_bind, hwrite, ok_bind, hloop]
        · rw [hdisks', hdisks]
          exact Function.update_idem _ _ _
      · rw [if_neg hlt]
        rw [secsDone_eq h hlt] at hdone
        exact ⟨c, h.idle, rfl, by rw [← hdone, Function.update_eq_self]⟩

end Loops

section Transfers

variable {c : IdeController} {devNo : UInt8} {lba secCnt : UInt32}

/-- The beginning of a transfer. -/
theorem between_start {op : IdeOp} {r : IdeRegs} (hidle : c.left = 0) (hcnt : 1 ≤ secCnt.toNat)
    (hfits : lba.toNat + secCnt.toNat - 1 ≤ maxLba) :
    Between ⟨op, devNo, lba, secCnt, 0, 0⟩ { c with regs := r } where
  fits := by
    show lba.toNat + secCnt.toNat ≤ maxLba + 1
    omega
  done := Nat.zero_le _
  idle := hidle

theorem transfer_asserts (hcnt : 1 ≤ secCnt.toNat)
    (hfits : lba.toNat + secCnt.toNat - 1 ≤ maxLba) : lba.toNat ≤ maxLba ∧ 0 < secCnt := by
  refine ⟨by omega, UInt32.lt_iff_toNat_lt.mpr ?_⟩
  show 0 < secCnt.toNat
  omega

/-- `ide_read` copies the sectors from `lba` on. -/
theorem ideReadData_run (hidle : c.left = 0) (hcnt : 1 ≤ secCnt.toNat)
    (hfits : lba.toNat + secCnt.toNat - 1 ≤ maxLba) (buf : Nat → Byte) :
    ∃ c', c'.disks = c.disks ∧ c'.left = 0 ∧ ideReadData c devNo lba secCnt buf =
      .ok (c', memcpyTo buf 0 (512 * secCnt.toNat)
        (fun k => c.disks (decide (devNo = 1)) (512 * lba.toNat + k))) := by
  rw [ideReadData, if_pos (transfer_asserts hcnt hfits)]
  have hrun := @ideReadLoop_run (secCnt.toNat + 1) ⟨.read, devNo, lba, secCnt, 0, 0⟩
    { c with regs := selectDisk c.regs devNo } buf (between_start hidle hcnt hfits) rfl
    (Nat.lt_succ_self _)
  rw [UInt32.toNat_zero, Nat.mul_zero, memcpyTo_zero] at hrun
  exact hrun

/-- `ide_write` copies the buffer to the sectors from `lba` on. -/
theorem ideWriteData_run (hidle : c.left = 0) (hcnt : 1 ≤ secCnt.toNat)
    (hfits : lba.toNat + secCnt.toNat - 1 ≤ maxLba) (buf : Nat → Byte) :
    ∃ c', c'.left = 0 ∧ ideWriteData c devNo lba secCnt buf = .ok c' ∧
      c'.disks = Function.update c.disks (decide (devNo = 1))
        (memcpyTo (c.disks (decide (devNo = 1))) (512 * lba.toNat) (512 * secCnt.toNat) buf) := by
  rw [ideWriteData, if_pos (transfer_asserts hcnt hfits)]
  refine @ideWriteLoop_run (secCnt.toNat + 1) ⟨.write, devNo, lba, secCnt, 0, 0⟩
    { c with regs := selectDisk c.regs devNo } _ (between_start hidle hcnt hfits) rfl
    (Nat.lt_succ_self _) buf ?_
  show _ = memcpyTo _ _ (512 * (0 : UInt32).toNat) _
  rw [UInt32.toNat_zero, Nat.mul_zero, memcpyTo_zero]
  rfl

/-- However many commands a transfer takes: `ide_write` makes the sectors from
    `lba` on hold the buffer and changes no other sector of either disk, `ide_read`
    fills a buffer with exactly the sectors from `lba` on and changes nothing else,
    and so `ide_read` of any range of the sectors that have just been written
    returns that part of the buffer. -/
theorem split_eq_flat (c : IdeController) (devNo : UInt8) (lba secCnt : UInt32)
    (buf : Nat → Byte) (hidle : c.left = 0) (hcnt : 1 ≤ secCnt.toNat)
    (hfits : lba.toNat + secCnt.toNat - 1 ≤ maxLba) :
    (∃ c', ideWriteData c devNo lba secCnt buf = .ok c' ∧ c'.left = 0 ∧
      (∀ i k, i < secCnt.toNat → k < 512 →
        c'.disks (decide (devNo = 1)) (512 * (lba.toNat + i) + k) = buf (512 * i + k)) ∧
      (∀ d x, d ≠ decide (devNo = 1) ∨ x / 512 < lba.toNat ∨ lba.toNat + secCnt.toNat ≤ x / 512 →
        c'.disks d x = c.disks d x) ∧
      ∀ (lba' secCnt' : UInt32) (m : Nat → Byte), 1 ≤ secCnt'.toNat → lba.toNat ≤ lba'.toNat →
        lba'.toNat + secCnt'.toNat ≤ lba.toNat + secCnt.toNat →
        ∃ c'' m', ideReadData c' devNo lba' secCnt' m = .ok (c'', m') ∧ c''.disks = c'.disks ∧
          ∀ x < 512 * secCnt'.toNat, m' x = buf (512 * (lba'.toNat - lba.toNat) + x)) ∧
    ∃ c' m', ideReadData c devNo lba secCnt buf = .ok (c', m') ∧ c'.left = 0 ∧
      c'.disks = c.disks ∧
      (∀ i k, i < secCnt.toNat → k < 512 →
        m' (512 * i + k) = c.disks (decide (devNo = 1)) (512 * (lba.toNat + i) + k)) ∧
      ∀ x, 512 * secCnt.toNat ≤ x → m' x = buf x := by
  constructor
  · rcases ideWriteData_run hidle hcnt hfits buf with ⟨c', hidle', hwrite, hdisks⟩
    -- All chunks together write one stretch of the disk, as one command would.
    have hdisk := congrFun hdisks (decide (devNo = 1))
    rw [Function.update_self] at hdisk
    refine ⟨c', hwrite, hidle', fun i k hi hk => ?_, fun d x hx => ?_,
      fun lba' secCnt' m hcnt' hfirst hlast => ?_⟩
    · rw [hdisk]
      exact memcpyTo_sector hi hk
    · rw [hdisks]
      by_cases hd : d = decide (devNo = 1)
      · rw [hd, Function.update_self]
        exact memcpyTo_other (hx.resolve_left fun hne => hne hd)
      · rw [Function.update_of_ne hd]
    · rcases @ideReadData_run c' devNo lba' secCnt' hidle' hcnt' (by omega) m with
        ⟨c'', hdisks', -, hread⟩
      refine ⟨c'', _, hread, hdisks', fun x hx => ?_⟩
      rw [memcpyTo_below hx, hdisk, show 512 * lba'.toNat + x =
        512 * (lba.toNat + (512 * (lba'.toNat - lba.toNat) + x) / 512) +
          (512 * (lba'.toNat - lba.toNat) + x) % 512 by omega,
        memcpyTo_sector (by omega) (Nat.mod_lt _ (by decide)), Nat.div_add_mod]
  · rcases ideReadData_run hidle hcnt hfits buf with ⟨c', hdisks, hidle', hread⟩
    refine ⟨c', _, hread, hidle', hdisks, fun i k hi hk => ?_, fun x hx => memcpyTo_above hx⟩
    have hlt : 512 * i + k < 512 * secCnt.toNat := by omega
    rw [memcpyTo_below hlt, Nat.mul_add, Nat.add_assoc]

/-- Sectors on both sides of the end of the first of two commands. -/
theorem split_eq_flat_300 :
    ∃ c' c'' m', ideWriteData ⟨⟨0, 0, 0, 0, 0, 0⟩, fun _ _ => 0, .read, 0, 0⟩ 1 7 300
        (fun k => BitVec.ofNat 8 (k / 512)) = .ok c' ∧
      ideReadData c' 1 262 2 (fun _ => 9) = .ok (c'', m') ∧ m' 0 = 255 ∧ m' 512 = 0 := by
  rcases (split_eq_flat ⟨⟨0, 0, 0, 0, 0, 0⟩, fun _ _ => 0, .read, 0, 0⟩ 1 7 300
    (fun k => BitVec.ofNat 8 (k / 512)) rfl (by decide) (by decide)).1 with
    ⟨c', hwrite, -, -, -, hback⟩
  rcases hback 262 2 (fun _ => 9) (by decide) (by decide) (by decide) with
    ⟨c'', m', hread, -, hbytes⟩
  exact ⟨c', c'', m', hwrite, hread, hbytes 0 (by decide), hbytes 512 (by decide)⟩

end Transfers

end ForikOS
